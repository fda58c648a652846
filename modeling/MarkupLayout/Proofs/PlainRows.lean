import MarkupLayout.Proofs.IndentedScan
import MarkupLayout.Proofs.RegionRun
import MarkupLayout.Proofs.SigilLine
/-!
# Rows of plain words

A row is a line of words without a meaning of their own, a sigil with a title of such words, or a
closer.  Behind any indentation, the scanner reads a row piece by piece, and it comes to the next
line with nothing left open and nothing to remember.
-/

namespace MarkupLayout

/-- A word of letters that is no keyword. -/
structure Word where
  text : Text
  nonempty : text ≠ []
  letters : text.all Char.isAlpha = true
  plain : Grammar.markdown.keywordRole text = none

structure Phrase where
  first : Word
  others : List Word

structure Sigil where
  text : Text
  declared : text ∈ Grammar.markdown.blockSigils

inductive Row where
  | words (phrase : Phrase)
  | opens (sigil : Sigil) (title : Phrase)
  | closes

def Phrase.text (phrase : Phrase) : Text :=
  phrase.first.text ++ phrase.others.flatMap fun word => ' ' :: word.text

def Row.text : Row → Text
  | words phrase => phrase.text
  | opens sigil title => sigil.text ++ ' ' :: title.text
  | closes => Grammar.markdown.closer

/-! ## Pieces -/

def Phrase.pieces (phrase : Phrase) : List Piece :=
  ⟨.text, phrase.first.text⟩ ::
    phrase.others.flatMap fun word => [⟨.space, [' ']⟩, ⟨.text, word.text⟩]

def Row.pieces : Row → List Piece
  | words phrase => phrase.pieces
  | opens sigil title => ⟨.keyword .blockSigil, sigil.text⟩ :: ⟨.space, [' ']⟩ :: title.pieces
  | closes => [⟨.keyword .closer, Grammar.markdown.closer⟩]

theorem Phrase.flatMap_text_pieces (phrase : Phrase) :
    phrase.pieces.flatMap Piece.text = phrase.text := by
  simp [pieces, text, List.flatMap_assoc]

theorem Row.flatMap_text_pieces (row : Row) : row.pieces.flatMap Piece.text = row.text := by
  cases row with
  | words phrase => exact phrase.flatMap_text_pieces
  | opens sigil title => simp [pieces, text, title.flatMap_text_pieces]
  | closes => rfl

/-! ## Lexemes -/

section Letters

variable {c : Char}

theorem ne_of_isAlpha {d : Char} (h : c.isAlpha = true) (hd : d.isAlpha = false) : c ≠ d := by
  rintro rfl
  simp [h] at hd

theorem isWordLetter_of_isAlpha (h : c.isAlpha = true) : isWordLetter c = true := by
  simp [isWordLetter, Unicode.isLetter, h]

theorem isIndentChar_of_isAlpha (h : c.isAlpha = true) : Text.isIndentChar c = false := by
  have hspace : c ≠ ' ' := ne_of_isAlpha h (by decide)
  have htab : c ≠ '\t' := ne_of_isAlpha h (by decide)
  simp [Text.isIndentChar, hspace, htab]

theorem wordRest_blank {d : Char} (hd : d = ' ' ∨ d = '\n') (r : Text) :
    Lexeme.wordRest (d :: r) = ([], d :: r) := by
  have hletter : isWordLetter d = false := by
    rcases hd with rfl | rfl <;> decide +kernel
  have hmark : isWordMark d = false := by
    rcases hd with rfl | rfl <;> decide
  have hapostrophe : isApostrophe d = false := by
    rcases hd with rfl | rfl <;> decide
  cases r <;> simp [Lexeme.wordRest, hletter, hmark, hapostrophe]

theorem wordRest_letters {w : Text} (hw : w.all Char.isAlpha = true) {d : Char}
    (hd : d = ' ' ∨ d = '\n') (r : Text) :
    Lexeme.wordRest (w ++ d :: r) = (w, d :: r) := by
  induction w with
  | nil => exact wordRest_blank hd r
  | cons c w ih =>
      rw [List.all_cons, Bool.and_eq_true] at hw
      rw [List.cons_append, Lexeme.wordRest_cons_of_isWordLetter (isWordLetter_of_isAlpha hw.1),
        ih hw.2]

theorem startKind_of_isAlpha (h : c.isAlpha = true) (rest : Text) :
    Lexeme.startKind c rest = .word := by
  have hfeed : c ≠ '\n' := ne_of_isAlpha h (by decide)
  have hreturn : c ≠ '\r' := ne_of_isAlpha h (by decide)
  simp [Lexeme.startKind, isIndentChar_of_isAlpha h, hfeed, hreturn, isWordLetter_of_isAlpha h]

end Letters

namespace ScanContext

variable {g : Grammar} {c : Char}

theorem fence?_eq_none_of_head (ctx : ScanContext) (hc : Text.isIndentChar c = false)
    (hfence : c ∉ g.fenceChars) (rest : Text) : ctx.fence? g (c :: rest) = none := by
  have hdrop := Text.dropWhile_isIndentChar_append (w := []) rfl
    (Text.startsVisibly_firstLine (Text.startsVisibly_of_not_isIndentChar hc rest))
  rw [List.nil_append] at hdrop
  rw [fence?_eq, hdrop]
  cases hline : Text.firstLine (c :: rest) with
  | nil => rfl
  | cons f info =>
      have hstarts := Text.firstLine_append_drop (c :: rest)
      rw [hline, List.cons_append, List.cons.injEq] at hstarts
      obtain rfl := hstarts.1
      simp [opensFence, hfence]

theorem step_eq_lexeme (ctx : ScanContext) (hc : Text.isIndentChar c = false)
    (hfence : c ∉ g.fenceChars) (rest : Text) : ctx.step g c rest = ctx.lexeme g c rest :=
  ctx.step_of_fence?_eq_none g fun _ => ctx.fence?_eq_none_of_head hc hfence rest

theorem lexeme_letters (ctx : ScanContext) {w : Text} (hw : (c :: w).all Char.isAlpha = true)
    {d : Char} (hd : d = ' ' ∨ d = '\n') (r : Text) :
    ctx.lexeme g c (w ++ d :: r) = ctx.word g (c :: w) (d :: r) := by
  rw [List.all_cons, Bool.and_eq_true] at hw
  have hkind := startKind_of_isAlpha hw.1 (w ++ d :: r)
  simp only [lexeme, Lexeme.kind_first, hkind]
  simp only [Lexeme.first, hkind, wordRest_letters hw.2 hd]

theorem word_blank (ctx : ScanContext) (text : Text) {d : Char} (hd : d = ' ' ∨ d = '\n')
    (r : Text) : ctx.word g text (d :: r) = ctx.keywordOrPlain g text (d :: r) := by
  rcases hd with rfl | rfl <;> rfl

theorem plainWord_blank (ctx : ScanContext) (text : Text) {d : Char} (hd : d = ' ' ∨ d = '\n')
    (r : Text) : ctx.plainWord text (d :: r) = ctx.emit .text text (d :: r) := by
  rcases hd with rfl | rfl <;> rfl

end ScanContext

/-! ## Reading a row -/

namespace ScanContext

/-- In front of `rest`, the scanner reads these pieces one by one and opens nothing. -/
def Reads (ctx : ScanContext) (pieces : List Piece) (rest : Text) : Prop :=
  scanFrom .markdown ctx (pieces.flatMap Piece.text ++ rest) =
    pieces ++ scanFrom .markdown (pieces.foldl pass ctx) rest

variable {ctx : ScanContext} {rest : Text}

theorem Reads.append {pieces more : List Piece}
    (h : ctx.Reads pieces (more.flatMap Piece.text ++ rest))
    (hmore : (pieces.foldl pass ctx).Reads more rest) : ctx.Reads (pieces ++ more) rest := by
  unfold Reads at h hmore ⊢
  rw [List.flatMap_append, List.append_assoc, h, hmore, List.foldl_append, List.append_assoc]

theorem Reads.cons {piece : Piece} {more : List Piece}
    (h : ctx.Reads [piece] (more.flatMap Piece.text ++ rest))
    (hmore : (ctx.pass piece).Reads more rest) : ctx.Reads (piece :: more) rest :=
  Reads.append h hmore

theorem reads_of_step {kind : TokenKind} {c : Char} {text : Text}
    (h : ctx.step .markdown c (text ++ rest) = ctx.emit kind (c :: text) rest) :
    ctx.Reads [⟨kind, c :: text⟩] rest := by
  have htext : [(⟨kind, c :: text⟩ : Piece)].flatMap Piece.text ++ rest = c :: (text ++ rest) := by
    simp
  unfold Reads
  rw [htext, scanFrom_cons, h]
  rfl

theorem reads_word (ctx : ScanContext) (word : Word) {d : Char} (hd : d = ' ' ∨ d = '\n')
    (r : Text) : ctx.Reads [⟨.text, word.text⟩] (d :: r) := by
  obtain ⟨text, hne, hletters, hplain⟩ := word
  obtain ⟨c, w, rfl⟩ := List.exists_cons_of_ne_nil hne
  have hc : c.isAlpha = true := List.all_eq_true.mp hletters c (by simp)
  have hfence : c ∉ Grammar.markdown.fenceChars := by
    have hmarks : Grammar.markdown.fenceChars.all (!·.isAlpha) = true := by decide
    intro hmem
    simpa [hc] using List.all_eq_true.mp hmarks c hmem
  apply reads_of_step
  rw [ctx.step_eq_lexeme (isIndentChar_of_isAlpha hc) hfence, ctx.lexeme_letters hletters hd,
    ctx.word_blank _ hd, keywordOrPlain, hplain]
  exact ctx.plainWord_blank _ hd r

theorem reads_closer {ctx : ScanContext} (hhead : ctx.atLineHead = true) (r : Text) :
    ctx.Reads [⟨.keyword .closer, Grammar.markdown.closer⟩] ('\n' :: r) := by
  have hrole : Grammar.markdown.keywordRole ['e', 'n', 'd'] = some .closer := by decide
  apply reads_of_step
  rw [ctx.step_eq_lexeme (by decide) (by decide), ctx.lexeme_letters (by decide) (.inr rfl),
    ctx.word_blank _ (.inr rfl), keywordOrPlain, hrole]
  simp [hhead]

theorem takeWhile_of_standsAlone {r : Text} (hr : standsAlone r.head? = true) {p : Char → Bool}
    (hp : p ' ' = false ∧ p '\t' = false ∧ p '\r' = false ∧ p '\n' = false) :
    r.takeWhile p = [] ∧ r.dropWhile p = r := by
  cases r with
  | nil => exact ⟨rfl, rfl⟩
  | cons c r =>
      have hc : p c = false := by
        simp only [List.head?_cons, standsAlone, Bool.or_eq_true, beq_iff_eq] at hr
        rcases hr with ((rfl | rfl) | rfl) | rfl
        · exact hp.1
        · exact hp.2.1
        · exact hp.2.2.1
        · exact hp.2.2.2
      simp [hc]

theorem lexeme_star (ctx : ScanContext) {r : Text} (hr : standsAlone r.head? = true) :
    ctx.lexeme .markdown '*' r = ctx.emit (.keyword .blockSigil) ['*'] r := by
  have hletter : isWordLetter '*' = false := by decide +kernel
  have hkind : Lexeme.startKind '*' r = .operator := by
    simp [Lexeme.startKind, Text.isIndentChar, hletter, isOperatorChar]
  have hsigil : Grammar.markdown.isBlockSigil ['*'] = true := by decide
  obtain ⟨hrun, hrest⟩ := takeWhile_of_standsAlone hr (p := isOperatorChar) (by decide)
  simp only [lexeme, Lexeme.kind_first, hkind]
  simp [Lexeme.first, hkind, Lexeme.ofRun, hrun, hrest, operator, hsigil, hr]

theorem lexeme_hashes (ctx : ScanContext) {more : Text} (hmore : ∀ c ∈ more, (c == '#') = true)
    (hsigil : Grammar.markdown.isBlockSigil ('#' :: more) = true) {r : Text}
    (hr : standsAlone r.head? = true) :
    ctx.lexeme .markdown '#' (more ++ r) =
      ctx.emit (.keyword .blockSigil) ('#' :: more) r := by
  have hletter : isWordLetter '#' = false := by decide +kernel
  have hkind : Lexeme.startKind '#' (more ++ r) = .hashes := by
    simp [Lexeme.startKind, Text.isIndentChar, hletter, isOperatorChar]
  obtain ⟨hrun, hrest⟩ := takeWhile_of_standsAlone hr (p := (· == '#')) (by decide)
  simp only [lexeme, Lexeme.kind_first, hkind]
  simp [Lexeme.first, hkind, Lexeme.ofRun, List.takeWhile_append_of_pos hmore,
    List.dropWhile_append_of_pos hmore, hrun, hrest, hashes, hsigil, hr]

/-- A sigil is a star or a run of number signs, and it is read as such where it stands alone. -/
theorem reads_sigil (ctx : ScanContext) (sigil : Sigil) {r : Text}
    (hr : standsAlone r.head? = true) : ctx.Reads [⟨.keyword .blockSigil, sigil.text⟩] r := by
  obtain ⟨text, hdeclared⟩ := sigil
  have hsigil : Grammar.markdown.isBlockSigil text = true := List.contains_iff_mem.mpr hdeclared
  have hcases : text = ['*'] ∨ ∃ more, text = '#' :: more ∧ ∀ c ∈ more, (c == '#') = true := by
    simp only [Grammar.markdown, List.mem_cons, List.not_mem_nil, or_false] at hdeclared
    rcases hdeclared with rfl | rfl | rfl | rfl | rfl | rfl | rfl
    · exact .inl rfl
    all_goals exact .inr ⟨_, rfl, by simp⟩
  rcases hcases with rfl | ⟨more, rfl, hmore⟩
  · apply reads_of_step
    rw [ctx.step_eq_lexeme (by decide) (by decide)]
    exact ctx.lexeme_star hr
  · apply reads_of_step
    rw [ctx.step_eq_lexeme (by decide) (by decide)]
    exact ctx.lexeme_hashes hmore hsigil hr

theorem reads_space (hstart : ctx.atLineStart = false) {r : Text} (hr : r.StartsVisibly) :
    ctx.Reads [⟨.space, [' ']⟩] r := by
  apply reads_of_step
  rw [step_of_not_atLineStart _ _ _ _ hstart]
  exact ctx.lexeme_of_indent .markdown (w := []) rfl hr

theorem reads_lineBreak (ctx : ScanContext) (r : Text) :
    ctx.Reads [⟨ctx.lineBreak .markdown, ['\n']⟩] r := by
  apply reads_of_step
  rw [ctx.step_eq_lexeme (by decide) (by decide)]
  rfl

theorem reads_nil (ctx : ScanContext) (rest : Text) : ctx.Reads [] rest := rfl

theorem atLineStart_pass {kind : TokenKind} {text : Text} (hne : text ≠ []) (htext : '\n' ∉ text) :
    (ctx.pass ⟨kind, text⟩).atLineStart = false := by
  have hprevious : (ctx.pass ⟨kind, text⟩).previous = some (text.getLast hne) := by
    rw [pass, List.getLast?_eq_some_getLast hne]
    rfl
  have hlast : text.getLast hne ≠ '\n' := by
    intro hfeed
    apply htext
    rw [← hfeed]
    exact List.getLast_mem hne
  rw [atLineStart, hprevious]
  simpa using hlast

theorem embeddings_foldl_pass (pieces : List Piece) (ctx : ScanContext) :
    (pieces.foldl pass ctx).embeddings = ctx.embeddings := by
  induction pieces generalizing ctx with
  | nil => rfl
  | cons piece pieces ih => exact ih (ctx.pass piece)

theorem depth_foldl_pass (pieces : List Piece) (ctx : ScanContext) :
    (pieces.foldl pass ctx).depth = ctx.depth := by
  induction pieces generalizing ctx with
  | nil => rfl
  | cons piece pieces ih => exact ih (ctx.pass piece)

end ScanContext

theorem Grammar.markdown_sigils_no_letters :
    ∀ sigil ∈ Grammar.markdown.blockSigils, ¬sigil.head?.any isWordLetter = true := by
  decide +kernel

theorem Sigil.text_ne_nil (sigil : Sigil) : sigil.text ≠ [] := by
  intro hnil
  have hdeclared := sigil.declared
  rw [hnil] at hdeclared
  revert hdeclared
  decide

theorem Sigil.lineFeed_notMem (sigil : Sigil) : '\n' ∉ sigil.text :=
  Grammar.markdown_visibleSigils.onLine sigil.text sigil.declared

theorem Word.lineFeed_notMem (word : Word) : '\n' ∉ word.text := by
  intro hmem
  have halpha := List.all_eq_true.mp word.letters _ hmem
  exact ne_of_isAlpha halpha (by decide) rfl

theorem Word.startsVisibly_append (word : Word) (r : Text) :
    Text.StartsVisibly (word.text ++ r) := by
  obtain ⟨text, hne, hletters, -⟩ := word
  obtain ⟨c, w, rfl⟩ := List.exists_cons_of_ne_nil hne
  intro d hd
  obtain rfl : c = d := by simpa using hd
  exact isIndentChar_of_isAlpha (List.all_eq_true.mp hletters c (by simp))

namespace ScanContext

variable {ctx : ScanContext}

theorem reads_word_before (ctx : ScanContext) (word : Word) (others : List Word) (r : Text) :
    ctx.Reads [⟨.text, word.text⟩]
      ((others.flatMap fun word => [⟨.space, [' ']⟩, ⟨.text, word.text⟩]).flatMap Piece.text ++
        '\n' :: r) := by
  -- What ends the word is a space or the end of the line.
  cases others with
  | nil => exact ctx.reads_word word (.inr rfl) r
  | cons next others =>
      simp only [List.flatMap_cons, List.cons_append]
      exact ctx.reads_word word (.inl rfl) _

theorem reads_others (hstart : ctx.atLineStart = false) (others : List Word) (r : Text) :
    ctx.Reads (others.flatMap fun word => [⟨.space, [' ']⟩, ⟨.text, word.text⟩]) ('\n' :: r) := by
  induction others generalizing ctx with
  | nil => exact ctx.reads_nil _
  | cons word others ih =>
      rw [List.flatMap_cons, List.cons_append, List.singleton_append]
      apply Reads.cons
      · apply reads_space hstart
        rw [List.flatMap_cons, List.append_assoc]
        exact word.startsVisibly_append _
      · apply Reads.cons
        · exact reads_word_before _ word others r
        · exact ih (atLineStart_pass word.nonempty word.lineFeed_notMem)

theorem reads_phrase (ctx : ScanContext) (phrase : Phrase) (r : Text) :
    ctx.Reads phrase.pieces ('\n' :: r) := by
  apply Reads.cons
  · exact ctx.reads_word_before phrase.first phrase.others r
  · exact reads_others (atLineStart_pass phrase.first.nonempty phrase.first.lineFeed_notMem) _ r

theorem reads_row {ctx : ScanContext} (hhead : ctx.atLineHead = true) (row : Row) (r : Text) :
    ctx.Reads row.pieces ('\n' :: r) := by
  cases row with
  | words phrase => exact ctx.reads_phrase phrase r
  | opens sigil title =>
      apply Reads.cons
      · rw [List.flatMap_cons, List.append_assoc]
        exact ctx.reads_sigil sigil rfl
      · apply Reads.cons
        · apply reads_space
          · apply atLineStart_pass
            · exact sigil.text_ne_nil
            · exact sigil.lineFeed_notMem
          · rw [title.flatMap_text_pieces, Phrase.text, List.append_assoc]
            exact title.first.startsVisibly_append _
        · exact reads_phrase _ title r
  | closes => exact reads_closer hhead r

end ScanContext

/-! ## Laid out lines -/

/-- A row at a level, behind the indentation of that level. -/
def IndentStyle.lay (style : IndentStyle) (line : Nat × Row) : Text :=
  style.write (line.1 * style.indentWidth) ++ line.2.text

def IndentStyle.layPieces (style : IndentStyle) (line : Nat × Row) : List Piece :=
  pieceOf .space (style.write (line.1 * style.indentWidth)) ++
    (line.2.pieces ++ [⟨.newline, ['\n']⟩])

/-- Nothing is open, and nothing stands before on the line. -/
structure ScanContext.Fresh (ctx : ScanContext) : Prop where
  atLineStart : ctx.atLineStart = true
  last : ctx.last = none
  embeddings : ctx.embeddings = []
  depth : ctx.depth = 0

theorem Row.exists_last_piece (row : Row) :
    ∃ before piece, row.pieces = before ++ [piece] ∧
      (piece.kind = .text ∨ piece.kind = .keyword .closer) ∧
      piece.text ≠ [] ∧ piece.text.all Char.isAlpha = true := by
  have hphrase (phrase : Phrase) :
      ∃ (before : List Piece) (word : Word), phrase.pieces = before ++ [⟨.text, word.text⟩] := by
    obtain ⟨first, others⟩ := phrase
    rcases others.eq_nil_or_concat with rfl | ⟨others, word, rfl⟩
    · exact ⟨[], first, rfl⟩
    · refine ⟨⟨.text, first.text⟩ :: (others.flatMap fun word => [⟨.space, [' ']⟩,
        ⟨.text, word.text⟩]) ++ [⟨.space, [' ']⟩], word, ?_⟩
      simp [Phrase.pieces]
  cases row with
  | words phrase =>
      obtain ⟨before, word, hpieces⟩ := hphrase phrase
      exact ⟨before, _, hpieces, .inl rfl, word.nonempty, word.letters⟩
  | opens sigil title =>
      obtain ⟨before, word, hpieces⟩ := hphrase title
      refine ⟨⟨.keyword .blockSigil, sigil.text⟩ :: ⟨.space, [' ']⟩ :: before,
        ⟨.text, word.text⟩, ?_, .inl rfl, word.nonempty, word.letters⟩
      rw [pieces, hpieces]
      rfl
  | closes => exact ⟨[], _, rfl, .inr rfl, by decide, by decide⟩

theorem Row.exists_last_letter (row : Row) :
    ∃ before c, row.text = before ++ [c] ∧ c.isAlpha = true := by
  obtain ⟨before, piece, hpieces, -, hne, hletters⟩ := row.exists_last_piece
  refine ⟨before.flatMap Piece.text ++ piece.text.dropLast, piece.text.getLast hne, ?_, ?_⟩
  · rw [← row.flatMap_text_pieces, hpieces, List.flatMap_append, List.flatMap_singleton,
      List.append_assoc, List.dropLast_concat_getLast]
  · exact List.all_eq_true.mp hletters _ (List.getLast_mem hne)

theorem Row.lineFeed_notMem (row : Row) : '\n' ∉ row.text := by
  have hphrase (phrase : Phrase) : '\n' ∉ phrase.text := by
    simp only [Phrase.text, List.mem_append, List.mem_flatMap, List.mem_cons, not_or, not_exists,
      not_and]
    exact ⟨phrase.first.lineFeed_notMem, fun word _ => ⟨by decide, word.lineFeed_notMem⟩⟩
  cases row with
  | words phrase => exact hphrase phrase
  | opens sigil title =>
      simp only [text, List.mem_append, List.mem_cons, not_or]
      exact ⟨sigil.lineFeed_notMem, by decide, hphrase title⟩
  | closes => decide

theorem ScanContext.lineBreak_behind_row {ctx : ScanContext} (hdepth : ctx.depth = 0) (row : Row) :
    (row.pieces.foldl pass ctx).lineBreak .markdown = .newline := by
  obtain ⟨before, piece, hpieces, hkind, -⟩ := row.exists_last_piece
  have hlast : (row.pieces.foldl pass ctx).last = some piece := by
    rw [hpieces, last_foldl_pass_concat]
    rcases hkind with hkind | hkind <;> simp [hkind, TokenKind.isLineBreak]
  have hopen : ¬0 < (row.pieces.foldl pass ctx).depth := by
    rw [depth_foldl_pass, hdepth]
    omega
  -- The line does not go on behind a word or a closer.
  rw [lineBreak, if_neg hopen, hlast]
  rcases hkind with hkind | hkind <;> simp [hkind]

theorem Row.startsVisibly_append (row : Row) (r : Text) : Text.StartsVisibly (row.text ++ r) := by
  cases row with
  | words phrase =>
      rw [text, Phrase.text, List.append_assoc]
      exact phrase.first.startsVisibly_append _
  | opens sigil title =>
      have hhead := Grammar.markdown_visibleSigils.visible sigil.text sigil.declared
      obtain ⟨c, more, hsigil⟩ := List.exists_cons_of_ne_nil sigil.text_ne_nil
      rw [hsigil] at hhead
      intro d hd
      obtain rfl : c = d := by simpa [text, hsigil] using hd
      simpa using hhead
  | closes =>
      intro d hd
      obtain rfl : 'e' = d := by simpa [text, Grammar.markdown] using hd
      rfl

theorem exists_scanFrom_row {ctx : ScanContext} (hctx : ctx.Fresh) {w : Text}
    (hw : w.all Text.isIndentChar = true) (row : Row) (r : Text) :
    ∃ ctx' : ScanContext, ctx'.Fresh ∧ scanFrom .markdown ctx (w ++ (row.text ++ '\n' :: r)) =
      pieceOf .space w ++ (row.pieces ++ [⟨.newline, ['\n']⟩]) ++ scanFrom .markdown ctx' r := by
  have hhead : ctx.atLineHead = true := by
    rw [ScanContext.atLineHead, hctx.last]
    rfl
  have hrow := ScanContext.reads_row hhead row r
  have hbreak := (row.pieces.foldl ScanContext.pass ctx).reads_lineBreak r
  rw [ScanContext.lineBreak_behind_row hctx.depth] at hbreak
  have hline : ctx.Reads (row.pieces ++ [⟨.newline, ['\n']⟩]) r := hrow.append hbreak
  refine ⟨(row.pieces ++ [(⟨.newline, ['\n']⟩ : Piece)]).foldl ScanContext.pass ctx,
    ⟨?_, ?_, ?_, ?_⟩, ?_⟩
  · rw [ScanContext.atLineStart, ScanContext.previous_foldl_pass]
    simp
  · rw [ScanContext.last_foldl_pass_concat]
    rfl
  · rw [ScanContext.embeddings_foldl_pass, hctx.embeddings]
  · rw [ScanContext.depth_foldl_pass, hctx.depth]
  · rw [scanFrom_indent .markdown hctx.atLineStart hw (row.startsVisibly_append _),
      List.append_assoc, ← hline, List.flatMap_append, row.flatMap_text_pieces, List.append_assoc]
    rfl

theorem scanFrom_laid {ctx : ScanContext} (hctx : ctx.Fresh) (style : IndentStyle)
    (rows : List (Nat × Row)) :
    scanFrom .markdown ctx (Text.wholeLines (rows.map style.lay)) =
      rows.flatMap style.layPieces := by
  induction rows generalizing ctx with
  | nil => exact scanFrom_nil _ _
  | cons line rows ih =>
      obtain ⟨ctx', hctx', hscan⟩ := exists_scanFrom_row hctx
        (style.all_isIndentChar_write (line.1 * style.indentWidth)) line.2
        (Text.wholeLines (rows.map style.lay))
      rw [List.map_cons, Text.wholeLines_cons, IndentStyle.lay, List.append_assoc, hscan, ih hctx',
        List.flatMap_cons, IndentStyle.layPieces]

theorem scan_laid (style : IndentStyle) (rows : List (Nat × Row)) :
    scan .markdown (Text.wholeLines (rows.map style.lay)) = rows.flatMap style.layPieces :=
  scanFrom_laid ⟨rfl, rfl, rfl, rfl⟩ style rows

/-! ## Kinds -/

/-- Tokens that have no part in the nesting and do not continue a line. -/
def TokenKind.isQuiet : TokenKind → Bool
  | text | space | newline => true
  | _ => false

def TokenKind.isOfRow : TokenKind → Bool
  | keyword .blockSigil | keyword .closer => true
  | kind => kind.isQuiet

theorem TokenKind.isOfRow_of_isQuiet {kind : TokenKind} (h : kind.isQuiet = true) :
    kind.isOfRow = true := by
  cases kind <;> simp_all [isQuiet, isOfRow]

theorem Phrase.isQuiet_of_mem {phrase : Phrase} {piece : Piece} (h : piece ∈ phrase.pieces) :
    piece.kind.isQuiet = true := by
  simp only [pieces, List.mem_cons, List.mem_flatMap, List.not_mem_nil, or_false] at h
  rcases h with rfl | ⟨_, -, rfl | rfl⟩ <;> rfl

theorem Row.isOfRow_of_mem {row : Row} {piece : Piece} (h : piece ∈ row.pieces) :
    piece.kind.isOfRow = true := by
  cases row with
  | words phrase => exact TokenKind.isOfRow_of_isQuiet (Phrase.isQuiet_of_mem h)
  | opens sigil title =>
      rcases List.mem_cons.mp h with rfl | h
      · rfl
      · rcases List.mem_cons.mp h with rfl | h
        · rfl
        · exact TokenKind.isOfRow_of_isQuiet (Phrase.isQuiet_of_mem h)
  | closes =>
      rw [List.mem_singleton.mp h]
      rfl

theorem IndentStyle.isOfRow_of_mem {style : IndentStyle} {rows : List (Nat × Row)} {piece : Piece}
    (h : piece ∈ rows.flatMap style.layPieces) : piece.kind.isOfRow = true := by
  obtain ⟨line, -, hpiece⟩ := List.mem_flatMap.mp h
  simp only [layPieces, List.mem_append, List.mem_singleton] at hpiece
  rcases hpiece with hpiece | hpiece | rfl
  · rw [(mem_pieceOf hpiece).1]
    rfl
  · exact Row.isOfRow_of_mem hpiece
  · rfl

end MarkupLayout

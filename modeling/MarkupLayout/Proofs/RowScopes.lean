import MarkupLayout.Proofs.Anchor
import MarkupLayout.Proofs.PlainRows
import MarkupLayout.Proofs.Scopes
/-!
# Scopes and anchors of laid out rows

Among the tokens of rows only sigils and closers have a part in the nesting, and each of them is the
first thing on its line.  So the anchor below rows is their last opener, and what the walk back from
the end finds depends on the number of closers behind it.
-/

namespace MarkupLayout

def Row.isOpener : Row → Bool
  | opens _ _ => true
  | _ => false

def Row.isCloser : Row → Bool
  | closes => true
  | _ => false

/-! ## Marks -/

namespace Nesting

/-- Walking back over these marks, one meets so many closers of blocks, and nothing that takes
them. -/
def Owes (count : Nat) (marks : List Mark) : Prop :=
  ∀ pending far, ∃ closers : List (Nat × Closer), closers.length = count ∧
    (∀ closer ∈ closers, closer.2 = .block) ∧
    resolveBack pending (marks.reverse ++ far) = resolveBack (closers ++ pending) far

theorem owes_nil : Owes 0 [] :=
  fun _ _ => ⟨[], rfl, by simp, rfl⟩

theorem owes_neutral : Owes 0 [.neutral] :=
  fun _ _ => ⟨[], rfl, by simp, rfl⟩

theorem owes_closes : Owes 1 [.closes .block] :=
  fun _ far => ⟨[(far.length, .block)], rfl, by simp, rfl⟩

theorem Owes.append {left right : List Mark} {j k : Nat} (hleft : Owes j left)
    (hright : Owes k right) : Owes (j + k) (left ++ right) := by
  intro pending far
  obtain ⟨last, hlast, hlastBlock, hwalk⟩ := hright pending (left.reverse ++ far)
  obtain ⟨first, hfirst, hfirstBlock, hwalk'⟩ := hleft (last ++ pending) far
  refine ⟨first ++ last, ?_, List.forall_mem_append.mpr ⟨hfirstBlock, hlastBlock⟩, ?_⟩
  · rw [List.length_append, hfirst, hlast]
  · rw [List.reverse_append, List.append_assoc, hwalk, hwalk', List.append_assoc]

theorem owes_replicate (n : Nat) : Owes 0 (List.replicate n .neutral) := by
  induction n with
  | zero => exact owes_nil
  | succ n ih => exact owes_neutral.append ih

end Nesting

namespace Nesting

variable (g : Grammar)

theorem mark_of_isQuiet {n : Neighbourhood} (h : n.token.kind.isQuiet = true) :
    mark g n = .neutral := by
  rw [mark_eq_neutral_iff, Token.isBlockSigil, Token.isCloser]
  cases hkind : n.token.kind <;> simp_all [TokenKind.isQuiet]

theorem map_mark_of_isQuiet {tokens : List Token} (h : ∀ t ∈ tokens, t.kind.isQuiet = true)
    (before : List Token) :
    (Neighbourhood.allFrom before tokens).map (mark g) = List.replicate tokens.length .neutral := by
  induction tokens generalizing before with
  | nil => rfl
  | cons t tokens ih =>
      rw [Neighbourhood.allFrom, List.map_cons, mark_of_isQuiet g (h t (by simp)),
        ih fun u hu => h u (by simp [hu])]
      rfl

theorem map_mark_line {before behind : List Token} (key : Token)
    (hbefore : ∀ t ∈ before, t.kind.isQuiet = true)
    (hbehind : ∀ t ∈ behind, t.kind.isQuiet = true) (far : List Token) :
    (Neighbourhood.allFrom far (before ++ key :: behind)).map (mark g) =
      List.replicate before.length .neutral ++
        mark g ⟨before.reverse ++ far, key, behind⟩ :: List.replicate behind.length .neutral := by
  induction before generalizing far with
  | nil =>
      rw [List.nil_append, Neighbourhood.allFrom, List.map_cons, map_mark_of_isQuiet g hbehind]
      rfl
  | cons t before ih =>
      rw [List.cons_append, Neighbourhood.allFrom, List.map_cons,
        mark_of_isQuiet g (hbefore t (by simp)), ih fun u hu => hbefore u (by simp [hu]),
        List.reverse_cons, List.append_assoc]
      rfl

theorem marks_line {before behind : List Token} (key : Token)
    (hbefore : ∀ t ∈ before, t.kind.isQuiet = true)
    (hbehind : ∀ t ∈ behind, t.kind.isQuiet = true) :
    marks g (before ++ key :: behind) = List.replicate before.length .neutral ++
      mark g ⟨before.reverse, key, behind⟩ :: List.replicate behind.length .neutral := by
  have hline := map_mark_line g key hbefore hbehind []
  rwa [List.append_nil] at hline

end Nesting

namespace Neighbourhood

variable {n : Neighbourhood}

theorem hasEndlessMarker_of_isQuiet (g : Grammar) {tokens : List Token}
    (h : ∀ t ∈ tokens, t.kind.isQuiet = true) (depth : Nat) :
    hasEndlessMarker g depth tokens = false := by
  induction tokens generalizing depth with
  | nil => rfl
  | cons t tokens ih =>
      have hmore := ih (fun u hu => h u (by simp [hu])) depth
      have hquiet := h t (by simp)
      rw [hasEndlessMarker]
      cases hkind : t.kind <;> simp_all [TokenKind.isQuiet, TokenKind.isLineBreak]

theorem isSymbol_of_spaces (h : ∀ t ∈ n.before, t.kind = .space) : n.isSymbol = false := by
  unfold isSymbol
  cases hbefore : n.before with
  | nil => rfl
  | cons t before =>
      have hspace := h t (by simp [hbefore])
      simp [hspace]

theorem isModifier_of_spaces (h : ∀ t ∈ n.before, t.kind = .space) : n.isModifier = false := by
  rw [isModifier, List.any_eq_false]
  intro t ht
  rw [h t ((List.takeWhile_prefix _).subset ht)]
  decide

end Neighbourhood

/-- A sigil at the head of its line, with plain words behind it, opens a block. -/
theorem Nesting.mark_sigil (g : Grammar) {before behind : List Token} {key : Token}
    (hkey : key.kind = .keyword .blockSigil) (hbefore : ∀ t ∈ before, t.kind = .space)
    (hbehind : ∀ t ∈ behind, t.kind.isQuiet = true) :
    mark g ⟨before, key, behind⟩ = .opens .block := by
  have hsymbol := Neighbourhood.isSymbol_of_spaces (n := ⟨before, key, behind⟩) hbefore
  have hmodifier := Neighbourhood.isModifier_of_spaces (n := ⟨before, key, behind⟩) hbefore
  have hendless := Neighbourhood.hasEndlessMarker_of_isQuiet g hbehind 0
  refine mark_eq_opens_iff.mpr (.inr ⟨beq_iff_eq.mpr hkey, hsymbol, ?_, rfl⟩)
  simp [Neighbourhood.opensBlock, Neighbourhood.isEndless, hmodifier, hendless]

theorem Nesting.mark_closer (g : Grammar) {before behind : List Token} {key : Token}
    (hkey : key.kind = .keyword .closer) (hbefore : ∀ t ∈ before, t.kind = .space) :
    mark g ⟨before, key, behind⟩ = .closes .block := by
  have hsymbol := Neighbourhood.isSymbol_of_spaces (n := ⟨before, key, behind⟩) hbefore
  exact mark_eq_closes_iff.mpr (.inr ⟨beq_iff_eq.mpr hkey, hsymbol, rfl⟩)

/-! ## The marks of laid out rows -/

theorem Token.exists_of_mem_place {p : Position} {pieces : List Piece} {t : Token}
    (h : t ∈ place p pieces) : ∃ piece ∈ pieces, piece.kind = t.kind := by
  have hkind : t.kind ∈ (place p pieces).map Token.kind := List.mem_map_of_mem h
  rw [map_kind_place] at hkind
  exact List.mem_map.mp hkind

theorem Token.exists_place_key (p : Position) {w : Text} (hw : w.all Text.isIndentChar = true)
    (key : Piece) {words : List Piece} (hwords : ∀ piece ∈ words, piece.kind.isQuiet = true) :
    ∃ before token behind, place p (pieceOf .space w ++ key :: words) = before ++ token :: behind ∧
      token.line = p.line ∧ token.kind = key.kind ∧ (∀ t ∈ before, t.kind = .space) ∧
      ∀ t ∈ behind, t.kind.isQuiet = true := by
  refine ⟨_, _, _, place_append p (pieceOf .space w) (key :: words), ?_, rfl, ?_, ?_⟩
  · have hcount : w.count '\n' = 0 := by
      rw [List.count_eq_zero]
      intro hmem
      simpa using Text.bne_lineFeed_of_isIndentChar hw _ hmem
    rw [flatMap_text_pieceOf, ofPiece, Position.line_after, hcount, Nat.add_zero]
  · intro t ht
    obtain ⟨piece, hpiece, hkind⟩ := exists_of_mem_place ht
    rw [← hkind, (mem_pieceOf hpiece).1]
  · intro t ht
    obtain ⟨piece, hpiece, hkind⟩ := exists_of_mem_place ht
    rw [← hkind]
    exact hwords piece hpiece

namespace IndentStyle

open Nesting (Owes marks)

variable (style : IndentStyle) (p : Position)

theorem exists_marks_key {key : Piece} {words : List Piece}
    (hwords : ∀ piece ∈ words, piece.kind.isQuiet = true) {line : Nat × Row}
    (hline : style.layPieces line =
      pieceOf .space (style.write (line.1 * style.indentWidth)) ++ key :: words) :
    ∃ before token behind, Token.place p (style.layPieces line) = before ++ token :: behind ∧
      token.line = p.line ∧ token.kind = key.kind ∧ (∀ t ∈ before.reverse, t.kind = .space) ∧
      (∀ t ∈ behind, t.kind.isQuiet = true) ∧
      marks .markdown (Token.place p (style.layPieces line)) =
        List.replicate before.length .neutral ++
          Nesting.mark .markdown ⟨before.reverse, token, behind⟩ ::
            List.replicate behind.length .neutral := by
  rw [hline]
  obtain ⟨before, token, behind, htokens, hplace, hkind, hbefore, hbehind⟩ :=
    Token.exists_place_key p (style.all_isIndentChar_write _) key hwords
  refine ⟨before, token, behind, htokens, hplace, hkind, ?_, hbehind, ?_⟩
  · intro t ht
    exact hbefore t (List.mem_reverse.mp ht)
  · have hquiet : ∀ t ∈ before, t.kind.isQuiet = true := by
      intro t ht
      rw [hbefore t ht]
      rfl
    rw [htokens, Nesting.marks_line .markdown token hquiet hbehind]

theorem exists_marks_opener (depth : Nat) (sigil : Sigil) (title : Phrase) :
    ∃ before key behind, Token.place p (style.layPieces (depth, .opens sigil title)) =
        before ++ key :: behind ∧ key.line = p.line ∧ key.kind = .keyword .blockSigil ∧
      marks .markdown (Token.place p (style.layPieces (depth, .opens sigil title))) =
        List.replicate before.length .neutral ++
          .opens .block :: List.replicate behind.length .neutral := by
  have hwords : ∀ piece ∈ (⟨.space, [' ']⟩ :: title.pieces ++ [⟨.newline, ['\n']⟩] : List Piece),
      piece.kind.isQuiet = true := by
    intro piece hpiece
    rcases List.mem_append.mp hpiece with hpiece | hpiece
    · rcases List.mem_cons.mp hpiece with rfl | hpiece
      · rfl
      · exact Phrase.isQuiet_of_mem hpiece
    · rw [List.mem_singleton.mp hpiece]
      rfl
  have hpieces : style.layPieces (depth, .opens sigil title) =
      pieceOf .space (style.write (depth * style.indentWidth)) ++
        ⟨.keyword .blockSigil, sigil.text⟩ :: (⟨.space, [' ']⟩ :: title.pieces ++
          [⟨.newline, ['\n']⟩]) := rfl
  obtain ⟨before, key, behind, htokens, hline, hkind, hbefore, hbehind, hmarks⟩ :=
    style.exists_marks_key p hwords hpieces
  rw [Nesting.mark_sigil .markdown hkind hbefore hbehind] at hmarks
  exact ⟨before, key, behind, htokens, hline, hkind, hmarks⟩

theorem owes_row {line : Nat × Row} (h : line.2.isOpener = false) :
    Owes (if line.2.isCloser then 1 else 0)
      (marks .markdown (Token.place p (style.layPieces line))) := by
  obtain ⟨depth, row⟩ := line
  cases row with
  | words phrase =>
      have hquiet : ∀ t ∈ Token.place p (style.layPieces (depth, .words phrase)),
          t.kind.isQuiet = true := by
        intro t ht
        obtain ⟨piece, hpiece, hkind⟩ := Token.exists_of_mem_place ht
        rw [← hkind]
        simp only [layPieces, List.mem_append, List.mem_singleton] at hpiece
        rcases hpiece with hpiece | hpiece | rfl
        · rw [(mem_pieceOf hpiece).1]
          rfl
        · exact Phrase.isQuiet_of_mem hpiece
        · rfl
      rw [marks, Neighbourhood.all, Nesting.map_mark_of_isQuiet .markdown hquiet]
      exact Nesting.owes_replicate _
  | opens sigil title => simp [Row.isOpener] at h
  | closes =>
      have hbreak : ∀ piece ∈ [(⟨.newline, ['\n']⟩ : Piece)], piece.kind.isQuiet = true :=
        List.forall_mem_singleton.mpr rfl
      have hpieces : style.layPieces (depth, .closes) =
          pieceOf .space (style.write (depth * style.indentWidth)) ++
            ⟨.keyword .closer, Grammar.markdown.closer⟩ :: [⟨.newline, ['\n']⟩] := rfl
      obtain ⟨before, key, behind, -, -, hkind, hbefore, -, hmarks⟩ :=
        style.exists_marks_key p hbreak hpieces
      rw [hmarks, Nesting.mark_closer .markdown hkind hbefore]
      have hbehind := Nesting.owes_closes.append (Nesting.owes_replicate behind.length)
      exact (Nesting.owes_replicate before.length).append hbehind

theorem endsLine_place (line : Nat × Row) :
    Nesting.EndsLine (Token.place p (style.layPieces line)) := by
  right
  rw [layPieces, ← List.append_assoc, Token.place_append]
  exact ⟨_, _, rfl, rfl⟩

theorem owes_rows {rows : List (Nat × Row)} (h : ∀ line ∈ rows, line.2.isOpener = false) :
    Owes (rows.countP (·.2.isCloser))
      (marks .markdown (Token.place p (rows.flatMap style.layPieces))) := by
  induction rows generalizing p with
  | nil => exact Nesting.owes_nil
  | cons line rows ih =>
      -- A mark depends on nothing behind the end of its line.
      have hends := style.endsLine_place p line
      rw [List.flatMap_cons, Token.place_append, Nesting.marks_append .markdown hends,
        List.countP_cons, Nat.add_comm]
      apply Owes.append
      · exact style.owes_row p (h line (by simp))
      · exact ih _ fun other hother => h other (by simp [hother])

end IndentStyle

namespace Nesting

theorem resolveBack_replicate (pending : List (Nat × Closer)) (n : Nat) (far : List Mark) :
    resolveBack pending (List.replicate n .neutral ++ far) = resolveBack pending far := by
  induction n with
  | zero => rfl
  | succ n ih => exact ih

theorem unopened_of_block {closers : List (Nat × Closer)}
    (h : ∀ closer ∈ closers, closer.2 = .block) :
    unopened closers = ⟨none, closers.length, closers.head?.map Prod.fst⟩ := by
  have hfilter : closers.filter (·.2 == .block) = closers := by
    rw [List.filter_eq_self]
    intro closer hcloser
    rw [h closer hcloser]
    rfl
  rw [unopened, hfilter]

/-- The scope behind a line that opens a block, with `count` closers of blocks behind it: inside the
block if there are none, and otherwise all closers but the first are too many. -/
theorem resolve_opener {left right : List Token} (hleft : EndsLine left) {a b count : Nat}
    (hmarks : marks .markdown left =
      List.replicate a .neutral ++ .opens .block :: List.replicate b .neutral)
    (hright : Owes count (marks .markdown right)) :
    (count = 0 → resolve .markdown (left ++ right) = .ok ⟨some a, 0, none⟩) ∧
    ∀ k, count = k + 1 → ∃ first, resolve .markdown (left ++ right) = .ok ⟨none, k, first⟩ ∧
      (k = 0 → first = none) := by
  obtain ⟨closers, hlength, hblock, hwalk⟩ := hright [] (marks .markdown left).reverse
  have hreverse : (marks .markdown left).reverse =
      List.replicate b .neutral ++ .opens .block :: (List.replicate a .neutral ++ []) := by
    simp [hmarks]
  rw [resolve_append hleft, hwalk, List.append_nil, hreverse, resolveBack_replicate]
  constructor
  · intro hzero
    obtain rfl : closers = [] := List.eq_nil_of_length_eq_zero (hlength.trans hzero)
    simp [resolveBack]
  · -- The opener takes the closer that is nearest to it.
    intro k hcount
    obtain ⟨closer, others, rfl⟩ := List.exists_cons_of_length_eq_add_one (hlength.trans hcount)
    obtain ⟨index, kind⟩ := closer
    obtain rfl : kind = .block := hblock (index, kind) (by simp)
    refine ⟨others.head?.map Prod.fst, ?_, ?_⟩
    · have hothers : others.length = k := by
        rw [List.length_cons] at hlength
        omega
      rw [resolveBack, if_pos rfl, resolveBack_replicate, resolveBack,
        unopened_of_block fun closer hcloser => hblock closer (by simp [hcloser]), hothers]
    · rintro rfl
      rw [List.length_cons] at hlength
      rw [List.eq_nil_of_length_eq_zero (by omega : others.length = 0)]
      rfl

end Nesting

theorem IndentStyle.resolve_laid (style : IndentStyle) (p : Position) (depth : Nat) (sigil : Sigil)
    (title : Phrase) {rest : List (Nat × Row)} (hrest : ∀ line ∈ rest, line.2.isOpener = false)
    {tokens : List Token} (htokens : tokens =
      Token.place p (((depth, .opens sigil title) :: rest).flatMap style.layPieces)) :
    (rest.countP (·.2.isCloser) = 0 → ∃ index key,
      Nesting.resolve .markdown tokens = .ok ⟨some index, 0, none⟩ ∧ tokens[index]? = some key ∧
      key.line = p.line ∧ key.kind = .keyword .blockSigil) ∧
    ∀ k, rest.countP (·.2.isCloser) = k + 1 → ∃ first,
      Nesting.resolve .markdown tokens = .ok ⟨none, k, first⟩ ∧ (k = 0 → first = none) := by
  obtain ⟨before, key, behind, hkey, hline, hkind, hmarks⟩ :=
    style.exists_marks_opener p depth sigil title
  rw [List.flatMap_cons, Token.place_append] at htokens
  have howes := style.owes_rows (p.after ((style.layPieces (depth, .opens sigil title)).flatMap
    Piece.text)) hrest
  have hscope := Nesting.resolve_opener (style.endsLine_place p (depth, .opens sigil title)) hmarks
    howes
  rw [← htokens] at hscope
  refine ⟨fun hzero => ⟨before.length, key, hscope.1 hzero, ?_, hline, hkind⟩, hscope.2⟩
  rw [htokens, hkey]
  simp

/-! ## The anchor of laid out rows -/

theorem Row.exists_first_letter {row : Row} (h : row.isOpener = false) :
    ∃ c more, row.text = c :: more ∧ c.isAlpha = true := by
  cases row with
  | words phrase =>
      obtain ⟨c, more, hword⟩ := List.exists_cons_of_ne_nil phrase.first.nonempty
      refine ⟨c, more ++ phrase.others.flatMap fun word => ' ' :: word.text, ?_, ?_⟩
      · rw [text, Phrase.text, hword]
        rfl
      · exact List.all_eq_true.mp phrase.first.letters c (by simp [hword])
  | opens sigil title => simp [isOpener] at h
  | closes => exact ⟨'e', _, rfl, by decide⟩

theorem IndentStyle.lineFeed_notMem_lay (style : IndentStyle) (line : Nat × Row) :
    '\n' ∉ style.lay line := by
  intro hmem
  rcases List.mem_append.mp hmem with hmem | hmem
  · exact style.lineFeed_notMem_write _ hmem
  · exact line.2.lineFeed_notMem hmem

theorem IndentStyle.lineFeed_notMem_of_mem (style : IndentStyle) (rows : List (Nat × Row)) :
    ∀ line ∈ rows.map style.lay, '\n' ∉ line :=
  List.forall_mem_map.mpr fun line _ => style.lineFeed_notMem_lay line

theorem Literal.openFrames_of_isOfRow {kinds : List TokenKind}
    (h : ∀ kind ∈ kinds, kind.isOfRow = true) : openFrames kinds = [] := by
  unfold openFrames
  induction kinds with
  | nil => rfl
  | cons kind kinds ih =>
      have hplain : kind.isPlain = true := by
        have hrow := h kind (by simp)
        cases kind <;> simp_all [TokenKind.isOfRow, TokenKind.isQuiet, TokenKind.isPlain]
      rw [List.foldl_cons, pass_of_isPlain hplain]
      exact ih fun other hother => h other (by simp [hother])

theorem Literal.isOpenAfter_laid (style : IndentStyle) (rows : List (Nat × Row)) :
    isOpenAfter .markdown (Text.wholeLines (rows.map style.lay)) = false := by
  rw [isOpenAfter_eq, scan_laid, openFrames_of_isOfRow]
  · rfl
  · intro kind hkind
    obtain ⟨piece, hpiece, rfl⟩ := List.mem_map.mp hkind
    exact IndentStyle.isOfRow_of_mem hpiece

namespace Indentation

variable {style : IndentStyle}

theorem sigilLine_matchHere?_lay (style : IndentStyle) (line : Nat × Row) :
    ∃ sigils, (∀ sigil, sigil ∈ sigils ↔ sigil ∈ Grammar.markdown.blockSigils) ∧
      Grammar.markdown.sigilLine.matchHere? true (style.lay line ++ ['\n']) =
        (Pattern.sigilLength? sigils (line.2.text ++ ['\n'])).map fun length =>
          ⟨0, (style.write (line.1 * style.indentWidth)).length + length,
            some (style.write (line.1 * style.indentWidth)).length⟩ := by
  obtain ⟨sigils, hpattern, hsigils, hmem⟩ := Pattern.sigilLine_eq Grammar.markdown_visibleSigils
  have hindent := style.all_isIndentChar_write (line.1 * style.indentWidth)
  have hvisible := line.2.startsVisibly_append ['\n']
  refine ⟨sigils, hmem, ?_⟩
  rw [hpattern, Pattern.matchHere?_sigilLine hsigils, IndentStyle.lay, List.append_assoc,
    Text.dropWhile_isIndentChar_append hindent hvisible, Text.leading,
    Text.takeWhile_isIndentChar_append hindent hvisible]

theorem exists_matchHere?_opener (style : IndentStyle) (depth : Nat) (sigil : Sigil)
    (title : Phrase) :
    ∃ found, Grammar.markdown.sigilLine.matchHere? true
        (style.lay (depth, .opens sigil title) ++ ['\n']) = some found ∧
      found.indent.getD 0 = (style.write (depth * style.indentWidth)).length := by
  obtain ⟨sigils, hmem, hmatch⟩ := sigilLine_matchHere?_lay style (depth, .opens sigil title)
  have htext : Row.text (.opens sigil title) ++ ['\n'] =
      sigil.text ++ (' ' :: (title.text ++ ['\n'])) := by
    simp [Row.text]
  have htail : (Pattern.sigilTail? (' ' :: (title.text ++ ['\n']))).isSome = true := rfl
  have hsome := Pattern.isSome_sigilLength? ((hmem sigil.text).mpr sigil.declared) htail
  obtain ⟨length, hlength⟩ := Option.isSome_iff_exists.mp hsome
  rw [htext, hlength] at hmatch
  exact ⟨_, hmatch, rfl⟩

theorem matchHere?_eq_none_of_letters {line : Nat × Row} (h : line.2.isOpener = false) :
    Grammar.markdown.sigilLine.matchHere? true (style.lay line ++ ['\n']) = none := by
  obtain ⟨sigils, hmem, hmatch⟩ := sigilLine_matchHere?_lay style line
  rw [hmatch, Option.map_eq_none_iff]
  cases hlength : Pattern.sigilLength? sigils (line.2.text ++ ['\n']) with
  | none => rfl
  | some length =>
      obtain ⟨sigil, hsigil, behind, -, htext, -, -⟩ := Pattern.sigilLength?_eq_some hlength
      obtain ⟨c, more, hrow, hletter⟩ := Row.exists_first_letter h
      have hheads : Grammar.markdown.blockSigils.all (·.head?.any (!·.isAlpha)) = true := by decide
      have hhead := List.all_eq_true.mp hheads sigil ((hmem sigil).mp hsigil)
      cases sigil with
      | nil => simp at hhead
      | cons d others =>
          rw [hrow, List.cons_append, List.cons_append, List.cons.injEq] at htext
          obtain ⟨rfl, -⟩ := htext
          simp [hletter] at hhead

theorem anchor?_append_laid {x : Text} (hx : x.IsWhole) {rest : List (Nat × Row)}
    (hrest : ∀ line ∈ rest, line.2.isOpener = false) :
    anchor? .markdown (x ++ Text.wholeLines (rest.map style.lay)) = anchor? .markdown x := by
  induction rest generalizing x with
  | nil => rw [List.map_nil, Text.wholeLines_nil, List.append_nil]
  | cons line rest ih =>
      have hsplit : x ++ Text.wholeLines ((line :: rest).map style.lay) =
          (x ++ (style.lay line ++ ['\n'])) ++ Text.wholeLines (rest.map style.lay) := by
        simp
      have hwhole : (x ++ (style.lay line ++ ['\n'])).IsWhole := by
        right
        simp
      rw [hsplit, ih hwhole fun other hother => hrest other (by simp [hother])]
      exact anchor?_concat_of_no_match Grammar.markdown_visibleSigils hx
        (style.lineFeed_notMem_lay line) (matchHere?_eq_none_of_letters (hrest line (by simp)))

theorem anchor?_laid_opener (above : List (Nat × Row)) (depth : Nat) (sigil : Sigil)
    (title : Phrase) {rest : List (Nat × Row)} (hrest : ∀ line ∈ rest, line.2.isOpener = false) :
    anchor? .markdown (Text.wholeLines
        ((above ++ (depth, .opens sigil title) :: rest).map style.lay)) =
      some ⟨Text.wholeLines (above.map style.lay), style.write (depth * style.indentWidth)⟩ := by
  have hwhole := Text.isWhole_wholeLines (above.map style.lay)
  have hsplit : Text.wholeLines ((above ++ (depth, .opens sigil title) :: rest).map style.lay) =
      (Text.wholeLines (above.map style.lay) ++
        (style.lay (depth, .opens sigil title) ++ ['\n'])) ++
          Text.wholeLines (rest.map style.lay) := by
    simp [Text.wholeLines_append]
  have hopener : (Text.wholeLines (above.map style.lay) ++
      (style.lay (depth, .opens sigil title) ++ ['\n'])).IsWhole := by
    right
    simp
  obtain ⟨found, hfound, hindent⟩ := exists_matchHere?_opener style depth sigil title
  rw [hsplit, anchor?_append_laid hopener hrest,
    anchor?_concat_of_match Grammar.markdown_visibleSigils hwhole
      (Literal.isOpenAfter_laid style above) (style.lineFeed_notMem_lay _) hfound, hindent,
    IndentStyle.lay, List.append_assoc, List.take_left]

theorem anchor?_laid_eq_none {rows : List (Nat × Row)}
    (hrows : ∀ line ∈ rows, line.2.isOpener = false) :
    anchor? .markdown (Text.wholeLines (rows.map style.lay)) = none := by
  calc
    anchor? .markdown (Text.wholeLines (rows.map style.lay)) = anchor? .markdown [] :=
      anchor?_append_laid Text.isWhole_nil hrows
    _ = none := by decide +kernel

end Indentation

end MarkupLayout

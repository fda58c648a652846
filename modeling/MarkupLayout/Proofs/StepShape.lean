import Mathlib.Data.List.TakeWhile
import MarkupLayout.Token.Scan
/-!
# What a step of the scanner can yield

A step yields one plain piece, one bracket, or a literal: what begins it, its content, and then
its end, code embedded in it, or the end of the text.  `ScanStep.Shape` lists these cases once;
what the scanner keeps along a whole text is read off from it.
-/

namespace MarkupLayout

/-! ## Characters of lexemes -/

theorem isWordLetter_lineFeed : isWordLetter '\n' = false := by
  decide +kernel

theorem isOperatorChar_lineFeed : isOperatorChar '\n' = false := by
  decide

structure IsMark (c : Char) : Prop where
  ne_lineFeed : c ≠ '\n'
  isIndentChar_eq : Text.isIndentChar c = false

def LexemeKind.Starts (c : Char) (rest : Text) : LexemeKind → Prop
  | .whitespace => Text.isIndentChar c = true
  | .newline => c = '\n' ∨ c = '\r' ∧ rest.head? = some '\n'
  | .word => isWordLetter c = true
  | .operator => isOperatorChar c = true
  | .hashes => c = '#'
  | .dots => c = '.'
  | .colons => c = ':'
  | .comma => c = ','
  | .backticks => c = '\x60'
  | .other => True

namespace Lexeme

theorem starts_startKind (c : Char) (rest : Text) : (startKind c rest).Starts c rest := by
  unfold startKind
  refine iteInduction (motive := LexemeKind.Starts c rest) id fun _ => ?_
  refine iteInduction (motive := LexemeKind.Starts c rest) (fun hc => ?_) fun _ => ?_
  · simpa [LexemeKind.Starts] using hc
  refine iteInduction (motive := LexemeKind.Starts c rest) id fun _ => ?_
  refine iteInduction (motive := LexemeKind.Starts c rest) id fun _ => ?_
  refine iteInduction (motive := LexemeKind.Starts c rest) id fun _ => ?_
  refine iteInduction (motive := LexemeKind.Starts c rest) id fun _ => ?_
  refine iteInduction (motive := LexemeKind.Starts c rest) id fun _ => ?_
  refine iteInduction (motive := LexemeKind.Starts c rest) id fun _ => ?_
  exact iteInduction (motive := LexemeKind.Starts c rest) id fun _ => trivial

theorem starts_of_startKind {kind : LexemeKind} {c : Char} {rest : Text}
    (h : startKind c rest = kind) : kind.Starts c rest :=
  h ▸ starts_startKind c rest

theorem lineFeed_notMem_wordRest (t : Text) : '\n' ∉ (wordRest t).1 := by
  fun_induction wordRest t with
  | case1 => simp
  | case2 c rest hc parts ih =>
      have hne : c ≠ '\n' := by
        rintro rfl
        simp [isWordLetter_lineFeed] at hc
      simpa [hne.symm, parts] using ih
  | case3 c rest _ hc =>
      have hne : c ≠ '\n' := by
        rintro rfl
        simp [isWordMark] at hc
      simpa using hne.symm
  | case4 => simp
  | case5 c _ _ d more hcd parts ih =>
      simp only [Bool.and_eq_true] at hcd
      have hc : c ≠ '\n' := by
        rintro rfl
        simp [isApostrophe] at hcd
      have hd : d ≠ '\n' := by
        rintro rfl
        simp [isWordLetter_lineFeed] at hcd
      simpa [hc.symm, hd.symm, parts] using ih
  | case6 => simp

private theorem lineFeed_notMem_ofRun (kind : LexemeKind) {p : Char → Bool} {c : Char}
    (rest : Text) (hc : c ≠ '\n') (hp : p '\n' = false) :
    '\n' ∉ (ofRun kind p c rest).1.text := by
  intro hmem
  simp only [ofRun, List.mem_cons] at hmem
  rcases hmem with heq | hmem
  · exact hc heq.symm
  · have := List.mem_takeWhile_imp hmem
    simp [hp] at this

theorem lineFeed_notMem_first {c : Char} {rest : Text} (h : startKind c rest ≠ .newline) :
    '\n' ∉ (first c rest).1.text := by
  have hc : c ≠ '\n' := by
    rintro rfl
    exact h (by simp [startKind, Text.isIndentChar])
  unfold first
  split
  · exact lineFeed_notMem_ofRun _ rest hc (by decide)
  · contradiction
  · simpa [hc.symm] using lineFeed_notMem_wordRest rest
  · exact lineFeed_notMem_ofRun _ rest hc isOperatorChar_lineFeed
  · exact lineFeed_notMem_ofRun _ rest hc (by decide)
  · exact lineFeed_notMem_ofRun _ rest hc (by decide)
  · exact lineFeed_notMem_ofRun _ rest hc (by decide)
  · simpa using hc.symm
  · exact lineFeed_notMem_ofRun _ rest hc (by decide)
  · simpa using hc.symm

theorem text_first_of_newline {c : Char} {rest : Text} (h : startKind c rest = .newline) :
    (first c rest).1.text = ['\n'] ∨ (first c rest).1.text = ['\r', '\n'] := by
  have hstart : c = '\n' ∨ c = '\r' ∧ rest.head? = some '\n' := starts_of_startKind h
  simp only [first, h]
  rcases hstart with rfl | ⟨rfl, hrest⟩
  · exact .inl rfl
  · obtain ⟨more, rfl⟩ := List.head?_eq_some_iff.mp hrest
    exact .inr rfl

theorem getLast?_first_of_newline {c : Char} {rest : Text} (h : startKind c rest = .newline) :
    (first c rest).1.text.getLast? = some '\n' := by
  rcases text_first_of_newline h with htext | htext <;> rw [htext] <;> rfl

theorem isIndentChar_of_startKind {c : Char} {rest : Text}
    (h : startKind c rest = .whitespace) : Text.isIndentChar c = true :=
  starts_of_startKind h

theorem isWordLetter_of_startKind {c : Char} {rest : Text} (h : startKind c rest = .word) :
    isWordLetter c = true :=
  starts_of_startKind h

theorem isMark_of_startKind {c : Char} {rest : Text} (h : startKind c rest = .other) :
    IsMark c := by
  constructor
  · rintro rfl
    simp [startKind, Text.isIndentChar] at h
  · by_contra hc
    rw [Bool.not_eq_false] at hc
    simp [startKind, hc] at h

theorem all_isIndentChar_first {c : Char} {rest : Text} (h : startKind c rest = .whitespace) :
    (first c rest).1.text.all Text.isIndentChar = true := by
  simp only [first, h, ofRun, List.all_cons, isIndentChar_of_startKind h, Bool.true_and,
    List.all_eq_true]
  exact fun d hd => List.mem_takeWhile_imp hd

end Lexeme

/-! ## The shapes -/

/-- Kinds that neither open nor close anything and are no part of a literal. -/
def TokenKind.isPlain : TokenKind → Bool
  | openBracket _ | closeBracket _ | literalBegin _ | literalEnd _ | literalContent => false
  | _ => true

/-- What a plain piece says about its text and about the text behind it. -/
structure Piece.Fits (g : Grammar) (piece : Piece) (behind : Text) : Prop where
  nonempty : piece.text ≠ []
  plain : piece.kind.isPlain = true
  space : piece.kind = .space → piece.text.all Text.isIndentChar = true
  lineBreak : piece.kind.isLineBreak = true → piece.text.getLast? = some '\n'
  onLine : piece.kind.isLineBreak = false → '\n' ∉ piece.text
  sigil : piece.kind = .keyword .blockSigil → g.isBlockSigil piece.text = true ∧
    (piece.text.head?.any isWordLetter = true ∨ standsAlone behind.head? = true)

/-- What follows the start of a literal: its content, and then the end of the text (`true`), its
own end, or code embedded in it. -/
inductive ScanStep.LiteralBody (g : Grammar) (kind : LiteralKind) (embeddings : List Embedding)
    (depth : Nat) : Bool → ScanStep → Prop
  | unclosed (content : Text) :
      LiteralBody g kind embeddings depth true
        ⟨pieceOf .literalContent content, [], embeddings, depth⟩
  | closed (content closing rest : Text) (hclosing : closing ≠ [])
      (hline : '\n' ∉ closing) :
      LiteralBody g kind embeddings depth false
        ⟨pieceOf .literalContent content ++ [⟨.literalEnd kind, closing⟩], rest, embeddings,
          depth⟩
  | embeds (content rest : Text) (q : Char) (hkind : kind = .quote) (hq : IsMark q)
      (hrest : g.interpolationOpen ++ rest ≠ []) :
      LiteralBody g kind embeddings depth false
        ⟨pieceOf .literalContent content ++
          [⟨.openBracket .interpolationBegin, g.interpolationOpen⟩], rest,
          ⟨q, 0⟩ :: embeddings, depth + 1⟩

/-- What a step taken in a context can yield.  The flag says that the text ends inside a
literal. -/
inductive ScanStep.Shape (g : Grammar) (ctx : ScanContext) : Bool → ScanStep → Prop
  | plain (piece : Piece) (rest : Text) (hfits : piece.Fits g rest) :
      Shape g ctx false ⟨[piece], rest, ctx.embeddings, ctx.depth⟩
  | opens (kind declared : OpenKind) (c : Char) (rest : Text) (embeddings : List Embedding)
      (hdeclared : g.opening? c = some declared) (hkind : kind = declared ∨ kind = .lambdaBegin)
      (hc : c ≠ '\n')
      (hquotes : embeddings.map Embedding.quote = ctx.embeddings.map Embedding.quote) :
      Shape g ctx false ⟨[⟨.openBracket kind, [c]⟩], rest, embeddings, ctx.depth + 1⟩
  | closes (kind : OpenKind) (c : Char) (rest : Text) (embeddings : List Embedding)
      (hdeclared : g.closing? c = some kind) (hc : c ≠ '\n')
      (hquotes : embeddings.map Embedding.quote = ctx.embeddings.map Embedding.quote) :
      Shape g ctx false ⟨[⟨.closeBracket kind.closer, [c]⟩], rest, embeddings, ctx.depth - 1⟩
  | resumes {isOpen : Bool} (e : Embedding) (outer : List Embedding) (c : Char)
      (body : ScanStep) (hembeddings : ctx.embeddings = e :: outer) (hc : c ≠ '\n')
      (hbody : LiteralBody g .quote outer (ctx.depth - 1) isOpen body) :
      Shape g ctx isOpen (body.precededBy ⟨.closeBracket .interpolationEnd, [c]⟩)
  | literal {isOpen : Bool} (kind : LiteralKind) (blank opening gap : Text) (body : ScanStep)
      (hopening : opening ≠ []) (hline : '\n' ∉ opening)
      (hblank : blank.all Text.isIndentChar = true)
      (hgap : kind = .fence ∧ (gap.getLast? = some '\n' ∨ body.rest = []) ∨
        blank = [] ∧ gap = [])
      (hbody : LiteralBody g kind ctx.embeddings ctx.depth isOpen body) :
      Shape g ctx isOpen { body with
        pieces := pieceOf .space blank ++ ⟨.literalBegin kind, opening⟩ ::
          (pieceOf .newline gap ++ body.pieces) }

def ScanContext.WellQuoted (ctx : ScanContext) : Prop :=
  ∀ q ∈ ctx.embeddings.map Embedding.quote, IsMark q

/-! ## Plain pieces -/

theorem Grammar.isBlockSigil_of_keywordRole {g : Grammar} {text : Text}
    (h : g.keywordRole text = some .blockSigil) : g.isBlockSigil text = true := by
  unfold keywordRole at h
  split at h
  · assumption
  · repeat' split at h
    all_goals simp at h

theorem Piece.fits_of_onLine (g : Grammar) {kind : TokenKind} {text : Text} (behind : Text)
    (hplain : kind.isPlain = true) (hspace : kind ≠ .space) (hbreak : kind.isLineBreak = false)
    (hsigil : kind ≠ .keyword .blockSigil) (htext : text ≠ []) (hline : '\n' ∉ text) :
    Piece.Fits g ⟨kind, text⟩ behind where
  nonempty := htext
  plain := hplain
  space h := absurd h hspace
  lineBreak h := by simp [hbreak] at h
  onLine _ := hline
  sigil h := absurd h hsigil

theorem Piece.fits_of_sigil {g : Grammar} {text behind : Text} (htext : text ≠ [])
    (hline : '\n' ∉ text) (hsigil : g.isBlockSigil text = true)
    (hend : text.head?.any isWordLetter = true ∨ standsAlone behind.head? = true) :
    Piece.Fits g ⟨.keyword .blockSigil, text⟩ behind where
  nonempty := htext
  plain := rfl
  space h := by simp at h
  lineBreak h := by simp [TokenKind.isLineBreak] at h
  onLine _ := hline
  sigil _ := ⟨hsigil, hend⟩

namespace ScanContext

theorem emit_shape {g : Grammar} (ctx : ScanContext) {kind : TokenKind} {text rest : Text}
    (hfits : Piece.Fits g ⟨kind, text⟩ rest) :
    ScanStep.Shape g ctx false (ctx.emit kind text rest) :=
  .plain ⟨kind, text⟩ rest hfits

private theorem emit_shape_onLine (g : Grammar) (ctx : ScanContext) {kind : TokenKind}
    {text : Text} (rest : Text) (htext : text ≠ []) (hline : '\n' ∉ text)
    (hplain : kind.isPlain = true) (hspace : kind ≠ .space) (hbreak : kind.isLineBreak = false)
    (hsigil : kind ≠ .keyword .blockSigil) :
    ScanStep.Shape g ctx false (ctx.emit kind text rest) :=
  ctx.emit_shape (Piece.fits_of_onLine g rest hplain hspace hbreak hsigil htext hline)

theorem plainWord_shape (g : Grammar) (ctx : ScanContext) {text : Text} (rest : Text)
    (htext : text ≠ []) (hline : '\n' ∉ text) :
    ScanStep.Shape g ctx false (ctx.plainWord text rest) := by
  have plain (rest : Text) : ScanStep.Shape g ctx false (ctx.emit .text text rest) :=
    emit_shape_onLine g ctx rest htext hline rfl (by simp) rfl (by simp)
  unfold plainWord
  split
  · split
    · exact emit_shape_onLine g ctx _ (by simp) (by simpa using hline) rfl (by simp) rfl (by simp)
    · exact plain _
  · exact plain _

theorem keywordOrPlain_shape (g : Grammar) (ctx : ScanContext) {text : Text} (rest : Text)
    (hhead : text.head?.any isWordLetter = true) (hline : '\n' ∉ text) :
    ScanStep.Shape g ctx false (ctx.keywordOrPlain g text rest) := by
  have htext : text ≠ [] := by
    rintro rfl
    simp at hhead
  unfold keywordOrPlain
  split
  · rename_i role hrole
    split
    · by_cases hsigil : role = .blockSigil
      · subst hsigil
        exact ctx.emit_shape (Piece.fits_of_sigil htext hline
          (Grammar.isBlockSigil_of_keywordRole hrole) (.inl hhead))
      · exact emit_shape_onLine g ctx rest htext hline rfl (by simp) rfl (by simpa using hsigil)
    · exact ctx.plainWord_shape g rest htext hline
  · exact ctx.plainWord_shape g rest htext hline

theorem word_shape (g : Grammar) (ctx : ScanContext) {text : Text} (rest : Text)
    (hhead : text.head?.any isWordLetter = true) (hline : '\n' ∉ text) :
    ScanStep.Shape g ctx false (ctx.word g text rest) := by
  unfold word
  split
  · split
    · exact emit_shape_onLine g ctx _ (by simp) (by simpa using hline) rfl (by simp) rfl (by simp)
    · exact ctx.keywordOrPlain_shape g _ hhead hline
  · exact ctx.keywordOrPlain_shape g _ hhead hline

theorem operator_shape (g : Grammar) (ctx : ScanContext) {text : Text} (rest : Text)
    (htext : text ≠ []) (hline : '\n' ∉ text) :
    ScanStep.Shape g ctx false (ctx.operator g text rest) := by
  unfold operator
  split
  · rename_i h
    simp only [Bool.and_eq_true] at h
    exact ctx.emit_shape (Piece.fits_of_sigil htext hline h.1 (.inr h.2))
  · split
    all_goals exact emit_shape_onLine g ctx rest htext hline rfl (by simp) rfl (by simp)

theorem hashes_shape (g : Grammar) (ctx : ScanContext) {text : Text} (rest : Text)
    (htext : text ≠ []) (hline : '\n' ∉ text) :
    ScanStep.Shape g ctx false (ctx.hashes g text rest) := by
  unfold hashes
  split
  · rename_i h
    simp only [Bool.and_eq_true] at h
    exact ctx.emit_shape (Piece.fits_of_sigil htext hline h.1 (.inr h.2))
  · exact emit_shape_onLine g ctx rest htext hline rfl (by simp) rfl (by simp)

theorem colons_shape (g : Grammar) (ctx : ScanContext) {text : Text} (rest : Text)
    (htext : text ≠ []) (hline : '\n' ∉ text) :
    ScanStep.Shape g ctx false (ctx.colons g text rest) := by
  unfold colons
  repeat' split
  all_goals exact emit_shape_onLine g ctx rest htext hline rfl (by simp) rfl (by simp)

theorem lineBreak_isLineBreak (g : Grammar) (ctx : ScanContext) :
    (ctx.lineBreak g).isLineBreak = true := by
  unfold lineBreak
  repeat' split
  all_goals rfl

end ScanContext

/-! ## Literals -/

theorem Text.lineFeed_notMem_firstLine (t : Text) : '\n' ∉ t.firstLine := by
  intro hmem
  have hsub : '\n' ∈ t.takeWhile (· != '\n') := by
    unfold firstLine stripReturn at hmem
    split at hmem
    · exact List.dropLast_subset _ hmem
    · exact hmem
  have := List.mem_takeWhile_imp hsub
  simp at this

theorem Text.lineFeed_notMem_dropLast_firstLine (t : Text) :
    '\n' ∉ (t.firstLine ++ t.firstEnding).dropLast := by
  have hline : '\n' ∉ t.takeWhile (· != '\n') := by
    intro hmem
    simpa using List.mem_takeWhile_imp hmem
  have hpart : t.firstLine ++ t.firstEnding =
      t.takeWhile (· != '\n') ++ (t.dropWhile (· != '\n')).take 1 := by
    rw [firstEnding, ← List.append_assoc]
    congr 1
    exact stripReturn_append_drop _
  rw [hpart]
  cases t.dropWhile (· != '\n') with
  | nil =>
      rw [List.take_nil, List.append_nil]
      exact fun hmem => hline (List.dropLast_subset _ hmem)
  | cons c rest =>
      rw [List.take_succ_cons, List.take_zero, List.dropLast_concat]
      exact hline

theorem Text.getLast?_firstEnding (t : Text) :
    t.firstEnding.getLast? = some '\n' ∨ t.afterFirstLine = [] := by
  unfold firstEnding afterFirstLine
  cases hrest : t.dropWhile (· != '\n') with
  | nil => exact .inr rfl
  | cons c rest =>
      have hhead := List.head_dropWhile_not (· != '\n') (l := t) (by simp [hrest])
      simp only [hrest, List.head_cons, bne_eq_false_iff_eq] at hhead
      subst hhead
      left
      simp

theorem Literal.closesFence_of_fenced {f : Char} {run : Nat} {t rest : Text} {c : Char}
    (h : (fenced f run t).2 = c :: rest) :
    closesFence f run (Text.firstLine (c :: rest)) = true := by
  fun_induction fenced f run t with
  | case1 => simp at h
  | case2 d more hcloses =>
      rw [← h]
      exact hcloses
  | case3 d more _ parts ih => exact ih h

theorem Literal.mem_of_closesFence {f : Char} {run : Nat} {line : Text} (hrun : 0 < run)
    (h : closesFence f run line = true) : f ∈ line := by
  simp only [closesFence, Bool.and_eq_true] at h
  have hlength : run ≤ ((line.dropWhile Text.isIndentChar).takeWhile (· == f)).length :=
    of_decide_eq_true h.1
  obtain ⟨c, hc⟩ := List.exists_mem_of_length_pos (hrun.trans_le hlength)
  obtain rfl : c = f := by simpa using List.mem_takeWhile_imp hc
  exact (List.dropWhile_suffix _).subset ((List.takeWhile_prefix _).subset hc)

open ScanStep (LiteralBody Shape)

theorem quotedStep_body (g : Grammar) {q : Char} (hq : IsMark q) (embeddings : List Embedding)
    (depth : Nat) (t : Text) :
    LiteralBody g .quote embeddings depth (Literal.quoted g q t).2.isEmpty
      (quotedStep g q embeddings depth t) := by
  simp only [quotedStep]
  split
  · rename_i hrest
    rw [hrest]
    exact .unclosed _
  · rename_i c rest hrest
    rw [hrest]
    split
    · rename_i hc
      exact .closed _ [c] rest (by simp) (by simpa [hc] using hq.ne_lineFeed.symm)
    · refine .embeds _ _ q rfl hq fun hnil => ?_
      obtain ⟨hopen, hdrop⟩ := List.append_eq_nil_iff.mp hnil
      rw [hopen] at hdrop
      simp at hdrop

private theorem shape_of_body {g : Grammar} {ctx : ScanContext} {isOpen : Bool}
    {kind : LiteralKind} {opening : Text} {body : ScanStep} (hopening : opening ≠ [])
    (hline : '\n' ∉ opening)
    (hbody : LiteralBody g kind ctx.embeddings ctx.depth isOpen body) :
    Shape g ctx isOpen (body.precededBy ⟨.literalBegin kind, opening⟩) :=
  .literal kind [] opening [] body hopening hline rfl (.inr ⟨rfl, rfl⟩) hbody

namespace ScanContext

theorem codeSpan_shape (g : Grammar) (ctx : ScanContext) {text : Text} (rest : Text)
    (htext : text ≠ []) (hline : '\n' ∉ text) :
    Shape g ctx (g.codeSpan == some '\x60' && (Literal.beforeBackticks? text.length rest).isNone)
      (ctx.codeSpan g text rest) := by
  unfold codeSpan
  split
  · rename_i h
    simp only [beq_eq_false_iff_ne.mpr h, Bool.false_and]
    exact emit_shape_onLine g ctx rest htext hline rfl (by simp) rfl (by simp)
  · rename_i h
    simp only [not_not] at h
    simp only [h, beq_self_eq_true, Bool.true_and]
    split
    · rename_i hnone
      simp only [hnone, Option.isNone_none]
      exact shape_of_body htext hline (.unclosed rest)
    · rename_i content closing hsome
      simp only [hsome, Option.isNone_some]
      obtain ⟨-, hlength⟩ := Literal.eq_of_beforeBackticks?_eq_some hsome
      have hclosing : closing.takeWhile (· == '\x60') ≠ [] := by
        intro hnil
        rw [hnil] at hlength
        exact htext (List.eq_nil_of_length_eq_zero hlength.symm)
      refine shape_of_body htext hline (.closed content _ _ hclosing ?_)
      intro hmem
      have := List.mem_takeWhile_imp hmem
      simp at this

/-- The step at a line that opens a fence with the characters `f :: info`. -/
def fenceStep (ctx : ScanContext) (f : Char) (info t : Text) : ScanStep :=
  let run := ((f :: info).takeWhile (· == f)).length
  let parts := Literal.fenced f run t.afterFirstLine
  let closing := parts.2.firstLine
  ⟨pieceOf .space t.firstLine.leading ++ ⟨.literalBegin .fence, f :: info⟩ ::
      pieceOf .newline t.firstEnding ++ pieceOf .literalContent parts.1 ++
      pieceOf (.literalEnd .fence) closing,
    parts.2.drop closing.length, ctx.embeddings, ctx.depth⟩

def opensFence (g : Grammar) (f : Char) (info : Text) : Bool :=
  g.fenceChars.contains f && g.fenceMin ≤ ((f :: info).takeWhile (· == f)).length

theorem fence?_eq (g : Grammar) (ctx : ScanContext) (t : Text) :
    ctx.fence? g t = match t.firstLine.dropWhile Text.isIndentChar with
      | [] => none
      | f :: info => if opensFence g f info then some (ctx.fenceStep f info t) else none := by
  unfold fence?
  rfl

theorem fenceStep_shape (g : Grammar) (ctx : ScanContext) {f : Char} {info t : Text}
    (hline : t.firstLine.dropWhile Text.isIndentChar = f :: info) :
    Shape g ctx (Literal.fenced f ((f :: info).takeWhile (· == f)).length
      t.afterFirstLine).2.isEmpty (ctx.fenceStep f info t) := by
  have hinfo : '\n' ∉ f :: info := by
    intro hmem
    rw [← hline] at hmem
    exact t.lineFeed_notMem_firstLine ((List.dropWhile_suffix _).subset hmem)
  have hblank : t.firstLine.leading.all Text.isIndentChar = true := List.all_takeWhile
  have hrun : 0 < ((f :: info).takeWhile (· == f)).length := by simp
  -- A fence that is not closed yields no piece behind its content.
  have literal (isOpen : Bool) (body : ScanStep)
      (hgap : t.firstEnding.getLast? = some '\n' ∨ body.rest = [])
      (hbody : LiteralBody g .fence ctx.embeddings ctx.depth isOpen body) :
      Shape g ctx isOpen { body with
        pieces := pieceOf .space t.firstLine.leading ++ ⟨.literalBegin .fence, f :: info⟩ ::
          (pieceOf .newline t.firstEnding ++ body.pieces) } :=
    .literal .fence _ _ _ body (by simp) hinfo hblank (.inl ⟨rfl, hgap⟩) hbody
  simp only [fenceStep]
  generalize hparts :
    Literal.fenced f ((f :: info).takeWhile (· == f)).length t.afterFirstLine = parts
  obtain ⟨content, behind⟩ := parts
  cases behind with
  | nil =>
      have hshape := literal true _ (.inr rfl) (.unclosed content)
      simpa [pieceOf, Text.firstLine, Text.stripReturn] using hshape
  | cons c rest =>
      have hcloses := Literal.closesFence_of_fenced (congrArg Prod.snd hparts)
      have hne := List.ne_nil_of_mem (Literal.mem_of_closesFence hrun hcloses)
      have hgap : t.firstEnding.getLast? = some '\n' := by
        refine t.getLast?_firstEnding.resolve_right fun hnil => ?_
        simp [hnil, Literal.fenced] at hparts
      have hshape := literal false _ (.inl hgap) (.closed content (Text.firstLine (c :: rest))
        ((c :: rest).drop (Text.firstLine (c :: rest)).length) hne
        (Text.lineFeed_notMem_firstLine _))
      simpa [pieceOf, hne, List.append_assoc] using hshape

theorem quote_shape (g : Grammar) (ctx : ScanContext) (mark : QuoteMark) {c : Char}
    (rest : Text) (hc : IsMark c) :
    ∃ isOpen, Shape g ctx isOpen (ctx.quote g mark c rest) := by
  have hline : '\n' ∉ [c] := by simpa using hc.ne_lineFeed.symm
  unfold quote
  split
  · exact ⟨false, emit_shape_onLine g ctx rest (by simp) hline rfl (by simp) rfl (by simp)⟩
  · exact ⟨_, shape_of_body (by simp) hline (quotedStep_body g hc _ _ rest)⟩

theorem openBracket_shape (g : Grammar) (ctx : ScanContext) {kind : OpenKind} {c : Char}
    (rest : Text) (hkind : g.opening? c = some kind) (hc : c ≠ '\n') :
    Shape g ctx false (ctx.openBracket g kind c rest) := by
  refine .opens _ kind c rest _ hkind ?_ hc ?_
  · split
    · exact .inr rfl
    · exact .inl rfl
  · cases ctx.embeddings <;> rfl

theorem closeBracket_shape (g : Grammar) {ctx : ScanContext} (hctx : ctx.WellQuoted)
    {kind : OpenKind} {c : Char} (rest : Text) (hkind : g.closing? c = some kind)
    (hc : c ≠ '\n') :
    ∃ isOpen, Shape g ctx isOpen (ctx.closeBracket g kind c rest) := by
  unfold closeBracket
  split
  · rename_i hnil
    exact ⟨false, .closes kind c rest [] hkind hc (by simp [hnil])⟩
  · rename_i e outer hcons
    have he : IsMark e.quote := hctx e.quote (by simp [hcons])
    split
    · exact ⟨_, .resumes e outer c _ hcons hc (quotedStep_body g he _ _ rest)⟩
    · exact ⟨false, .closes kind c rest _ hkind hc (by simp [hcons])⟩

theorem otherChar_shape (g : Grammar) {ctx : ScanContext} (hctx : ctx.WellQuoted) {c : Char}
    (rest : Text) (hc : IsMark c) :
    ∃ isOpen, Shape g ctx isOpen (ctx.otherChar g c rest) := by
  unfold otherChar
  split
  · rename_i kind hkind
    exact ⟨false, ctx.openBracket_shape g rest hkind hc.ne_lineFeed⟩
  · split
    · rename_i kind hkind
      exact closeBracket_shape g hctx rest hkind hc.ne_lineFeed
    · split
      · exact ctx.quote_shape g _ rest hc
      · exact ⟨false, emit_shape_onLine g ctx rest (by simp)
          (by simpa using hc.ne_lineFeed.symm) rfl (by simp) rfl (by simp)⟩

theorem lexeme_shape_of_plain (g : Grammar) (ctx : ScanContext) {c : Char} {rest : Text}
    (hbackticks : Lexeme.startKind c rest ≠ .backticks)
    (hother : Lexeme.startKind c rest ≠ .other) :
    Shape g ctx false (ctx.lexeme g c rest) := by
  obtain ⟨tail, htail, -⟩ := Lexeme.text_first_eq_cons c rest
  have htext : (Lexeme.first c rest).1.text ≠ [] := by simp [htail]
  have hline (h : Lexeme.startKind c rest ≠ .newline) := Lexeme.lineFeed_notMem_first h
  simp only [lexeme, Lexeme.kind_first]
  split <;> rename_i hkind
  · refine ctx.emit_shape ⟨htext, rfl, fun _ => Lexeme.all_isIndentChar_first hkind, ?_,
      fun _ => hline (by simp [hkind]), by simp⟩
    simp [TokenKind.isLineBreak]
  · have hbreak := ctx.lineBreak_isLineBreak g
    refine ctx.emit_shape ⟨htext, ?_, ?_, fun _ => Lexeme.getLast?_first_of_newline hkind, ?_, ?_⟩
    all_goals
      revert hbreak
      cases ctx.lineBreak g <;> simp [TokenKind.isLineBreak, TokenKind.isPlain]
  · refine ctx.word_shape g _ ?_ (hline (by simp [hkind]))
    simp [htail, Lexeme.isWordLetter_of_startKind hkind]
  · exact ctx.operator_shape g _ htext (hline (by simp [hkind]))
  · exact ctx.hashes_shape g _ htext (hline (by simp [hkind]))
  · split
    · exact emit_shape_onLine g ctx _ htext (hline (by simp [hkind])) rfl (by simp) rfl (by simp)
    · exact emit_shape_onLine g ctx _ htext (hline (by simp [hkind])) rfl (by simp) rfl (by simp)
  · exact ctx.colons_shape g _ htext (hline (by simp [hkind]))
  · exact emit_shape_onLine g ctx _ htext (hline (by simp [hkind])) rfl (by simp) rfl (by simp)
  · contradiction
  · contradiction

theorem lexeme_of_backticks (g : Grammar) (ctx : ScanContext) {c : Char} {rest : Text}
    (h : Lexeme.startKind c rest = .backticks) :
    ctx.lexeme g c rest =
      ctx.codeSpan g (Lexeme.first c rest).1.text (Lexeme.first c rest).2 := by
  simp only [lexeme, Lexeme.kind_first, h]

theorem lexeme_of_other (g : Grammar) (ctx : ScanContext) {c : Char} {rest : Text}
    (h : Lexeme.startKind c rest = .other) : ctx.lexeme g c rest = ctx.otherChar g c rest := by
  simp only [lexeme, Lexeme.kind_first, h]

theorem lexeme_shape (g : Grammar) {ctx : ScanContext} (hctx : ctx.WellQuoted) (c : Char)
    (rest : Text) : ∃ isOpen, Shape g ctx isOpen (ctx.lexeme g c rest) := by
  by_cases hbackticks : Lexeme.startKind c rest = .backticks
  · obtain ⟨tail, htail, -⟩ := Lexeme.text_first_eq_cons c rest
    rw [lexeme_of_backticks g ctx hbackticks]
    exact ⟨_, ctx.codeSpan_shape g _ (by simp [htail])
      (Lexeme.lineFeed_notMem_first (by simp [hbackticks]))⟩
  · by_cases hother : Lexeme.startKind c rest = .other
    · rw [lexeme_of_other g ctx hother]
      exact otherChar_shape g hctx rest (Lexeme.isMark_of_startKind hother)
    · exact ⟨false, ctx.lexeme_shape_of_plain g hbackticks hother⟩

theorem step_cases (g : Grammar) (ctx : ScanContext) (c : Char) (rest : Text) :
    ctx.step g c rest = ctx.lexeme g c rest ∨
      ∃ f info, (Text.firstLine (c :: rest)).dropWhile Text.isIndentChar = f :: info ∧
        opensFence g f info = true ∧ ctx.step g c rest = ctx.fenceStep f info (c :: rest) := by
  unfold step
  split
  · rw [fence?_eq]
    split
    · exact .inl rfl
    · rename_i f info hline
      split
      · exact .inr ⟨f, info, hline, ‹_›, rfl⟩
      · exact .inl rfl
  · exact .inl rfl

/-- Every step has one of the shapes. -/
theorem step_shape (g : Grammar) {ctx : ScanContext} (hctx : ctx.WellQuoted) (c : Char)
    (rest : Text) : ∃ isOpen, Shape g ctx isOpen (ctx.step g c rest) := by
  rcases ctx.step_cases g c rest with hstep | ⟨f, info, hline, -, hstep⟩
  · rw [hstep]
    exact lexeme_shape g hctx c rest
  · rw [hstep]
    exact ⟨_, ctx.fenceStep_shape g hline⟩

end ScanContext

/-! ## What the shapes have in common -/

theorem pieceOf_nil (kind : TokenKind) : pieceOf kind [] = [] := rfl

theorem pieceOf_of_ne_nil (kind : TokenKind) {text : Text} (h : text ≠ []) :
    pieceOf kind text = [⟨kind, text⟩] :=
  if_neg h

theorem mem_pieceOf {kind : TokenKind} {text : Text} {piece : Piece}
    (h : piece ∈ pieceOf kind text) : piece = ⟨kind, text⟩ ∧ text ≠ [] := by
  unfold pieceOf at h
  split at h
  · simp at h
  · rename_i hne
    exact ⟨by simpa using h, hne⟩

namespace ScanStep

theorem LiteralBody.text_ne_nil {g : Grammar} {kind : LiteralKind} {embeddings : List Embedding}
    {depth : Nat} {isOpen : Bool} {body : ScanStep}
    (h : LiteralBody g kind embeddings depth isOpen body)
    (hg : g.interpolationOpen ≠ [] ∨ body.rest = []) :
    ∀ piece ∈ body.pieces, piece.text ≠ [] := by
  intro piece hpiece
  cases h with
  | unclosed content =>
      obtain ⟨rfl, hne⟩ := mem_pieceOf hpiece
      exact hne
  | closed content closing rest hclosing _ =>
      rcases List.mem_append.mp hpiece with hpiece | hpiece
      · obtain ⟨rfl, hne⟩ := mem_pieceOf hpiece
        exact hne
      · rw [List.mem_singleton.mp hpiece]
        exact hclosing
  | embeds content rest q _ _ hrest =>
      rcases List.mem_append.mp hpiece with hpiece | hpiece
      · obtain ⟨rfl, hne⟩ := mem_pieceOf hpiece
        exact hne
      · rw [List.mem_singleton.mp hpiece]
        rcases hg with hg | hg
        · exact hg
        · obtain rfl : rest = [] := hg
          simpa using hrest

/-- Only what opens embedded code can be empty, and more text follows it then. -/
theorem Shape.text_ne_nil {g : Grammar} {ctx : ScanContext} {isOpen : Bool} {step : ScanStep}
    (h : Shape g ctx isOpen step) (hg : g.interpolationOpen ≠ [] ∨ step.rest = []) :
    ∀ piece ∈ step.pieces, piece.text ≠ [] := by
  intro piece hpiece
  cases h with
  | plain piece rest hfits =>
      rw [List.mem_singleton.mp hpiece]
      exact hfits.nonempty
  | opens => simp_all
  | closes => simp_all
  | resumes e outer c body _ _ hbody =>
      rcases List.mem_cons.mp hpiece with rfl | hpiece
      · simp
      · exact hbody.text_ne_nil hg piece hpiece
  | literal kind blank opening gap body hopening _ _ _ hbody =>
      simp only [List.mem_append, List.mem_cons] at hpiece
      rcases hpiece with hpiece | rfl | hpiece | hpiece
      · obtain ⟨rfl, hne⟩ := mem_pieceOf hpiece
        exact hne
      · exact hopening
      · obtain ⟨rfl, hne⟩ := mem_pieceOf hpiece
        exact hne
      · exact hbody.text_ne_nil hg piece hpiece

inductive Part (g : Grammar) (step : ScanStep) : Piece → Prop
  | plain (piece : Piece) (hpieces : step.pieces = [piece]) (hfits : piece.Fits g step.rest) :
      Part g step piece
  | opens (kind declared : OpenKind) (c : Char) (hdeclared : g.opening? c = some declared)
      (hkind : kind = declared ∨ kind = .lambdaBegin) : Part g step ⟨.openBracket kind, [c]⟩
  | closes (kind : CloseKind) (c : Char) (hc : c ≠ '\n') : Part g step ⟨.closeBracket kind, [c]⟩
  | blank (text : Text) (h : text.all Text.isIndentChar = true) : Part g step ⟨.space, text⟩
  | gap (text : Text) (h : text.getLast? = some '\n' ∨ step.rest = []) :
      Part g step ⟨.newline, text⟩
  | begins (kind : LiteralKind) (text : Text) : Part g step ⟨.literalBegin kind, text⟩
  | content (text : Text) : Part g step ⟨.literalContent, text⟩
  | ends (kind : LiteralKind) (text : Text) : Part g step ⟨.literalEnd kind, text⟩
  | embeds (text : Text) : Part g step ⟨.openBracket .interpolationBegin, text⟩

theorem LiteralBody.part {g : Grammar} {kind : LiteralKind} {embeddings : List Embedding}
    {depth : Nat} {isOpen : Bool} {body : ScanStep} {piece : Piece}
    (h : LiteralBody g kind embeddings depth isOpen body) (hpiece : piece ∈ body.pieces)
    (step : ScanStep) : Part g step piece := by
  have content {text : Text} (hpiece : piece ∈ pieceOf .literalContent text) :
      Part g step piece := by
    rw [(mem_pieceOf hpiece).1]
    exact .content text
  cases h with
  | unclosed => exact content hpiece
  | closed =>
      rcases List.mem_append.mp hpiece with hpiece | hpiece
      · exact content hpiece
      · rw [List.mem_singleton.mp hpiece]
        exact .ends kind _
  | embeds =>
      rcases List.mem_append.mp hpiece with hpiece | hpiece
      · exact content hpiece
      · rw [List.mem_singleton.mp hpiece]
        exact .embeds _

theorem Shape.part {g : Grammar} {ctx : ScanContext} {isOpen : Bool} {step : ScanStep}
    {piece : Piece} (h : Shape g ctx isOpen step) (hpiece : piece ∈ step.pieces) :
    Part g step piece := by
  cases h with
  | plain _ rest hfits =>
      rw [List.mem_singleton.mp hpiece]
      exact .plain _ rfl hfits
  | opens kind declared c _ _ hdeclared hkind _ _ =>
      rw [List.mem_singleton.mp hpiece]
      exact .opens kind declared c hdeclared hkind
  | closes kind c _ _ _ hc _ =>
      rw [List.mem_singleton.mp hpiece]
      exact .closes kind.closer c hc
  | resumes _ _ c _ _ hc hbody =>
      rcases List.mem_cons.mp hpiece with rfl | hpiece
      · exact .closes .interpolationEnd c hc
      · exact hbody.part hpiece _
  | literal kind blank opening gap _ _ _ hblank hgap hbody =>
      simp only [List.mem_append, List.mem_cons] at hpiece
      rcases hpiece with hpiece | rfl | hpiece | hpiece
      · rw [(mem_pieceOf hpiece).1]
        exact .blank blank hblank
      · exact .begins kind opening
      · obtain ⟨rfl, hne⟩ := mem_pieceOf hpiece
        rcases hgap with ⟨-, hgap⟩ | ⟨-, hnil⟩
        · exact .gap gap hgap
        · exact absurd hnil hne
      · exact hbody.part hpiece _

theorem LiteralBody.isMark_quotes {g : Grammar} {kind : LiteralKind}
    {embeddings : List Embedding} {depth : Nat} {isOpen : Bool} {body : ScanStep}
    (h : LiteralBody g kind embeddings depth isOpen body)
    (hquotes : ∀ q ∈ embeddings.map Embedding.quote, IsMark q) :
    ∀ q ∈ body.embeddings.map Embedding.quote, IsMark q := by
  cases h with
  | unclosed => exact hquotes
  | closed => exact hquotes
  | embeds content rest q _ hq _ => simpa [hq] using hquotes

theorem Shape.wellQuoted_advance {g : Grammar} {ctx : ScanContext} (hctx : ctx.WellQuoted)
    {isOpen : Bool} {step : ScanStep} (h : Shape g ctx isOpen step) :
    (ctx.advance step).WellQuoted := by
  change ∀ q ∈ step.embeddings.map Embedding.quote, IsMark q
  cases h with
  | plain => exact hctx
  | opens _ _ _ _ embeddings _ _ _ hquotes =>
      rw [hquotes]
      exact hctx
  | closes _ _ _ embeddings _ _ hquotes =>
      rw [hquotes]
      exact hctx
  | resumes e outer c body hembeddings _ hbody =>
      apply hbody.isMark_quotes
      intro q hq
      apply hctx
      rw [hembeddings]
      exact List.mem_cons_of_mem _ hq
  | literal _ _ _ _ body _ _ _ _ hbody => exact hbody.isMark_quotes hctx

end ScanStep

theorem ScanContext.wellQuoted_initial : ScanContext.initial.WellQuoted := by
  simp [WellQuoted, initial]

end MarkupLayout

import MarkupLayout.Proofs.Enclosures
import MarkupLayout.Proofs.LiteralEnds
/-!
# Single quotes

A single quote may as well be an apostrophe.  In code, it starts a string exactly if no word goes
before it and another quote on its line closes the string; elsewhere it stands in the content or at
the end of a literal, or on the first line of a fence.
-/

namespace MarkupLayout

/-! ## Quotes inside lexemes -/

theorem isWordLetter_apostrophe : isWordLetter '\x27' = false := by
  decide +kernel

namespace Lexeme

theorem any_isWordLetter_of_wordRest (t : Text) {before behind : Text} {p : Char}
    (hp : isWordLetter p = true) (h : (wordRest t).1 = before ++ '\x27' :: behind) :
    (p :: before).getLast?.any isWordLetter = true := by
  fun_induction wordRest t generalizing p before with
  | case1 => simp at h
  | case2 c rest hc parts =>
      rename_i ih
      cases before with
      | nil => simpa using hp
      | cons d before =>
          obtain ⟨rfl, hrest⟩ := List.cons.inj h
          rw [List.getLast?_cons_cons]
          exact ih hc hrest
  | case3 =>
      cases before with
      | nil => simpa using hp
      | cons d before => simp at h
  | case4 => simp at h
  | case5 c _ _ d more hcd parts =>
      rename_i ih
      rw [Bool.and_eq_true] at hcd
      cases before with
      | nil => simpa using hp
      | cons e before =>
          obtain ⟨rfl, hrest⟩ := List.cons.inj h
          rw [List.getLast?_cons_cons]
          cases before with
          | nil =>
              obtain ⟨rfl, -⟩ := List.cons.inj hrest
              simp [isWordLetter_apostrophe] at hcd
          | cons e before =>
              obtain ⟨rfl, hmore⟩ := List.cons.inj hrest
              rw [List.getLast?_cons_cons]
              exact ih hcd.2 hmore
  | case6 => simp at h

theorem startKind_apostrophe (rest : Text) : startKind '\x27' rest = .other := by
  have hoperator : isOperatorChar '\x27' = false := by decide
  simp [startKind, Text.isIndentChar, isWordLetter_apostrophe, hoperator]

theorem any_isWordLetter_of_first {c : Char} {rest before behind : Text}
    (hother : startKind c rest ≠ .other)
    (h : (first c rest).1.text = before ++ '\x27' :: behind) :
    before.getLast?.any isWordLetter = true := by
  have hc : c ≠ '\x27' := by
    rintro rfl
    exact hother (startKind_apostrophe rest)
  have hmem : '\x27' ∈ (first c rest).1.text := by simp [h]
  have run (kind : LexemeKind) {p : Char → Bool} (hp : p '\x27' = false) :
      '\x27' ∉ (ofRun kind p c rest).1.text := by
    intro hmem
    rcases List.mem_cons.mp hmem with heq | hmem
    · exact hc heq.symm
    · simpa [hp] using List.mem_takeWhile_imp hmem
  cases hkind : startKind c rest with
  | newline =>
      rcases text_first_of_newline hkind with htext | htext <;> simp [htext] at hmem
  | word =>
      simp only [first, hkind] at h
      cases before with
      | nil => exact absurd (List.cons.inj h).1 hc
      | cons d before =>
          obtain ⟨rfl, hrest⟩ := List.cons.inj h
          exact any_isWordLetter_of_wordRest rest (isWordLetter_of_startKind hkind) hrest
  | other => exact absurd hkind hother
  | comma =>
      simp only [first, hkind] at hmem
      exact absurd (List.mem_singleton.mp hmem) hc.symm
  | whitespace =>
      simp only [first, hkind] at hmem
      exact absurd hmem (run _ (by decide))
  | operator =>
      simp only [first, hkind] at hmem
      exact absurd hmem (run _ (by decide))
  | hashes =>
      simp only [first, hkind] at hmem
      exact absurd hmem (run _ (by decide))
  | dots =>
      simp only [first, hkind] at hmem
      exact absurd hmem (run _ (by decide))
  | colons =>
      simp only [first, hkind] at hmem
      exact absurd hmem (run _ (by decide))
  | backticks =>
      simp only [first, hkind] at hmem
      exact absurd hmem (run _ (by decide))

end Lexeme

theorem Text.eq_of_mem_firstEnding {t : Text} {c : Char} (h : c ∈ t.firstEnding) :
    c = '\r' ∨ c = '\n' := by
  rw [firstEnding, List.mem_append] at h
  rcases h with h | h
  · left
    unfold firstLine stripReturn at h
    split at h
    · rename_i hlast
      obtain ⟨line, hline⟩ := List.getLast?_eq_some_iff.mp hlast
      rw [hline, List.dropLast_concat, List.drop_left] at h
      exact List.mem_singleton.mp h
    · simp at h
  · right
    cases hrest : t.dropWhile (· != '\n') with
    | nil => simp [hrest] at h
    | cons d rest =>
        have hhead := List.head_dropWhile_not (· != '\n') (l := t) (by simp [hrest])
        simp only [hrest, List.head_cons, bne_eq_false_iff_eq] at hhead
        simpa [hrest, hhead] using h

def TokenKind.isCode : TokenKind → Bool
  | literalContent | literalEnd _ | literalBegin .fence => false
  | _ => true

namespace ScanContext

variable {ctx : ScanContext} {c : Char} {rest : Text} {step : ScanStep}

theorem text_of_mem_quotedStep {g : Grammar} {q : Char} {embeddings : List Embedding} {depth : Nat}
    {t : Text} {piece : Piece} (hmem : piece ∈ (quotedStep g q embeddings depth t).pieces)
    (hcode : piece.kind.isCode = true) : piece.text = g.interpolationOpen := by
  rcases mem_quotedStep hmem with hkind | hkind | rfl
  · simp [hkind, TokenKind.isCode] at hcode
  · simp [hkind, TokenKind.isCode] at hcode
  · rfl

/-- A single quote in code stands behind a letter, or the step is taken at it.  Then it is an
apostrophe or starts a string. -/
theorem Does.apostrophe (h : ctx.Does .markdown c rest step) {inner more : List Piece}
    {piece : Piece} (hpieces : step.pieces = inner ++ piece :: more)
    (hcode : piece.kind.isCode = true) {before behind : Text}
    (htext : piece.text = before ++ '\x27' :: behind) :
    before.getLast?.any isWordLetter = true ∨ inner = [] ∧ before = [] ∧ c = '\x27' ∧
      (piece.kind = .literalBegin .quote ∨ ctx.followsWordChar = true ∨
        Literal.closesOnLine '\x27' rest = false) := by
  have hmem : '\x27' ∈ piece.text := by simp [htext]
  -- A piece that is the only one of its step, or the first one.
  have first {head : Piece} {tail : List Piece} (hhead : head.text = [c])
      (hpieces : head :: tail = inner ++ piece :: more)
      (htail : piece ∈ tail → False) :
      inner = [] ∧ before = [] ∧ c = '\x27' ∧ piece = head := by
    cases inner with
    | nil =>
        obtain ⟨rfl, -⟩ := List.cons.inj hpieces
        rw [hhead] at htext
        cases before with
        | nil => exact ⟨rfl, rfl, (List.cons.inj htext).1, rfl⟩
        | cons d before => simp at htext
    | cons d inner =>
        obtain ⟨-, rfl⟩ := List.cons.inj hpieces
        exact (htail (by simp)).elim
  have body {q : Char} {embeddings : List Embedding} {depth : Nat}
      (hmem' : piece ∈ (quotedStep .markdown q embeddings depth rest).pieces) : False := by
    rw [text_of_mem_quotedStep hmem' hcode] at hmem
    revert hmem
    decide
  cases h with
  | plain piece' _ hyields hother =>
      left
      have hstep : [piece'] = inner ++ piece :: more := hpieces
      have hpiece : piece ∈ [piece'] := by simp [hstep]
      obtain ⟨mark, hlexeme, hmark⟩ := hyields.text
      rw [← List.mem_singleton.mp hpiece, htext] at hlexeme
      have hnot : '\x27' ∉ mark := by
        rcases hmark with rfl | ⟨-, rfl | rfl⟩ <;> simp
      rcases List.append_eq_append_iff.mp hlexeme with ⟨a, ha, hrest⟩ | ⟨a, -, hrest⟩
      · cases a with
        | nil => exact absurd (by simp [← show _ = mark from hrest]) hnot
        | cons d a =>
            obtain ⟨rfl, -⟩ := List.cons.inj hrest
            exact Lexeme.any_isWordLetter_of_first hother ha
      · exact absurd (by simp [hrest]) hnot
  | char _ hapostrophe =>
      obtain ⟨rfl, rfl, rfl, rfl⟩ := first rfl hpieces (by simp)
      exact .inr ⟨rfl, rfl, rfl, .inr (hapostrophe ⟨'\x27', false⟩ rfl).2⟩
  | opens declared hdeclared =>
      obtain ⟨-, -, rfl, -⟩ := first rfl hpieces (by simp)
      have hnone : Grammar.markdown.opening? '\x27' = none := by decide
      simp [hnone] at hdeclared
  | closes declared hdeclared _ hstep =>
      obtain ⟨-, -, rfl, -⟩ := first rfl (hstep.symm.trans hpieces) (by simp)
      have hnone : Grammar.markdown.closing? '\x27' = none := by decide
      simp [hnone] at hdeclared
  | resumes _ _ _ hdeclared =>
      obtain ⟨-, -, rfl, -⟩ := first rfl hpieces body
      have hnone : Grammar.markdown.closing? '\x27' = none := by decide
      simp [hnone] at hdeclared
  | quote =>
      obtain ⟨rfl, rfl, rfl, rfl⟩ := first rfl hpieces body
      exact .inr ⟨rfl, rfl, rfl, .inl rfl⟩
  | codeSpan n _ span hspan =>
      have hpiece : piece ∈ (ctx.codeSpan .markdown (List.replicate n '\x60') span).pieces := by
        simp [hpieces]
      rcases mem_codeSpan hspan hpiece with rfl | hkind | hkind
      · simp at hmem
      · simp [hkind, TokenKind.isCode] at hcode
      · simp [hkind, TokenKind.isCode] at hcode
  | fence f info =>
      have hpiece : piece ∈ (ctx.fenceStep f info (c :: rest)).pieces := by simp [hpieces]
      rcases mem_fenceStep hpiece with rfl | rfl | rfl | hkind | hkind
      · have hindent := List.mem_takeWhile_imp hmem
        simp [Text.isIndentChar] at hindent
      · simp [TokenKind.isCode] at hcode
      · rcases Text.eq_of_mem_firstEnding hmem with hfeed | hfeed <;> simp at hfeed
      · simp [hkind, TokenKind.isCode] at hcode
      · simp [hkind, TokenKind.isCode] at hcode

theorem Does.startsString (h : ctx.Does .markdown c rest step) {inner more : List Piece}
    {piece : Piece} (hpieces : step.pieces = inner ++ piece :: more)
    (hkind : piece.kind = .literalBegin .quote) (htext : piece.text = ['\x27']) :
    inner = [] ∧ c = '\x27' ∧ ctx.followsWordChar = false ∧
      Literal.closesOnLine '\x27' rest = true := by
  have hmem : piece ∈ step.pieces := by simp [hpieces]
  have hstarts : piece.kind.startsBody = true := by rw [hkind]; rfl
  have body {q : Char} {embeddings : List Embedding} {depth : Nat} {first : Piece}
      (hfirst : first.kind ≠ .literalBegin .quote)
      (hmem : piece ∈ first :: (quotedStep .markdown q embeddings depth rest).pieces) : False := by
    rcases List.mem_cons.mp hmem with rfl | hmem
    · exact hfirst hkind
    · simp [startsBody_of_mem_quotedStep hmem] at hstarts
  cases h with
  | plain _ _ hyields =>
      rw [List.mem_singleton.mp hmem] at hstarts
      exact absurd (startsBody_of_isPlain hyields.plain) (by simpa using hstarts)
  | char => simp [List.mem_singleton.mp hmem] at hkind
  | opens => simp [List.mem_singleton.mp hmem] at hkind
  | closes _ _ _ hstep =>
      rw [hstep] at hmem
      simp [List.mem_singleton.mp hmem] at hkind
  | resumes => exact (body (by simp) hmem).elim
  | quote mark hmark hopens =>
      obtain ⟨rfl, rfl, rfl⟩ := eq_of_startsBody [] hpieces hstarts (by simp)
        fun _ => startsBody_of_mem_quotedStep
      obtain rfl : c = '\x27' := by simpa using htext
      rcases Grammar.markdown_quote_cases hmark with ⟨hquote, -⟩ | ⟨-, hplain⟩
      · simp at hquote
      · exact ⟨rfl, rfl, hopens hplain⟩
  | codeSpan _ _ _ hspan =>
      rcases mem_codeSpan hspan hmem with rfl | hspan | hspan
      all_goals simp_all
  | fence =>
      rcases mem_fenceStep hmem with rfl | rfl | rfl | hfence | hfence
      all_goals simp_all

end ScanContext

/-! ## Tokens -/

open Enclosure (pass InCode Admits)

/-- The character behind the text `before` is met in code: the tokens before its own leave nothing
open or, innermost, code embedded in a string, and it is not on the first line of a fence. -/
def Token.MetInCode (tokens : List Token) (before : Text) : Prop :=
  ∃ left token right inside, tokens = left ++ token :: right ∧
    before = left.flatMap Token.text ++ inside ∧ inside.length < token.text.length ∧
    InCode ((left.map Token.kind).foldl pass []) ∧ token.kind ≠ .literalBegin .fence

theorem Enclosure.isCode_of_inCode {stack : List Enclosure} {previous : Option TokenKind}
    {kind : TokenKind} (h : Admits stack previous kind) (hcode : InCode stack)
    (hfence : kind ≠ .literalBegin .fence) : kind.isCode = true := by
  cases kind with
  | literalContent =>
      obtain ⟨kind, hhead⟩ := h
      rcases hcode with rfl | hcode
      · simp at hhead
      · simp [hcode] at hhead
  | literalEnd kind =>
      have hhead : stack.head? = some (.literal kind) := h
      rcases hcode with rfl | hcode
      · simp at hhead
      · simp [hcode] at hhead
  | literalBegin kind =>
      cases kind with
      | fence => exact absurd rfl hfence
      | _ => rfl
  | _ => rfl

namespace Literal

variable {t : Text} {firstLine : Nat} {left right : List Token} {token : Token}

theorem closes_of_starts_string (h : tokenize .markdown t firstLine = left ++ token :: right)
    (hkind : token.kind = .literalBegin .quote) (htext : token.text = ['\x27']) :
    (left.flatMap Token.text).getLast?.any isWordChar = false ∧
      ∃ a b, a ++ b = right.flatMap Token.text ∧ SingleQuoteEnds a b := by
  obtain ⟨passed, ctx, c, rest, inner, more, hrun, hstep, hleft, -, -, hsplit⟩ :=
    Token.exists_step h
  obtain ⟨rfl, rfl, hword, hcloses⟩ :=
    (ctx.step_does .markdown c rest).startsString hstep hkind htext
  rw [htext, List.flatMap_nil, List.nil_append, List.singleton_append, List.cons.injEq] at hsplit
  rw [ScanContext.followsWordChar, hrun.previous_eq] at hword
  rw [hleft, ← hsplit.2, List.flatMap_nil, List.append_nil]
  exact ⟨by simpa [ScanContext.initial] using hword, (closesOnLine_singleQuote_iff rest).mp hcloses⟩

theorem starts_string_of_closes (h : tokenize .markdown t firstLine = left ++ token :: right)
    (hcode : token.kind.isCode = true) {inside more : Text}
    (htext : token.text = inside ++ '\x27' :: more)
    (hword : (left.flatMap Token.text ++ inside).getLast?.any isWordChar = false)
    (hcloses : ∃ a b, a ++ b = more ++ right.flatMap Token.text ∧ SingleQuoteEnds a b) :
    inside = [] ∧ token.kind = .literalBegin .quote := by
  obtain ⟨passed, ctx, c, rest, inner, outer, hrun, hstep, hleft, -, -, hsplit⟩ :=
    Token.exists_step h
  rcases (ctx.step_does .markdown c rest).apostrophe hstep hcode htext with
    hletter | ⟨rfl, rfl, rfl, hkind | hfollows | hopen⟩
  · rw [List.getLast?_append] at hword
    cases hlast : inside.getLast? with
    | none => simp [hlast] at hletter
    | some d =>
        rw [hlast, Option.any_some] at hletter
        simp [hlast, isWordChar, hletter] at hword
  · exact ⟨rfl, hkind⟩
  · rw [ScanContext.followsWordChar, hrun.previous_eq] at hfollows
    rw [hleft, List.flatMap_nil, List.append_nil, List.append_nil] at hword
    simp [ScanContext.initial, hword] at hfollows
  · rw [htext, List.flatMap_nil, List.nil_append, List.nil_append, List.cons_append,
      List.cons.injEq] at hsplit
    rw [← hsplit.2, ← closesOnLine_singleQuote_iff, hopen] at hcloses
    simp at hcloses

end Literal

/-- Literals end where they should: behind the start of a literal, the tokens hold it up to where it
ends.  A single quote starts a string exactly if it stands in code, no word goes before it and
reading its line comes to another one. -/
theorem tokenize_literals_end (t : Text) (firstLine : Nat) :
    (∀ left token right, tokenize .markdown t firstLine = left ++ token :: right →
      Literal.Extent (left.flatMap Token.text) token.piece (right.flatMap Token.text)
        (right.map Token.piece)) ∧
    ∀ before behind, t = before ++ '\x27' :: behind →
      ((∃ left token right, tokenize .markdown t firstLine = left ++ token :: right ∧
          left.flatMap Token.text = before ∧ token.kind = .literalBegin .quote) ↔
        Token.MetInCode (tokenize .markdown t firstLine) before ∧
          before.getLast?.any isWordChar = false ∧
          ∃ a b, a ++ b = behind ∧ Literal.SingleQuoteEnds a b) := by
  refine ⟨fun _ _ _ => Literal.extent_of_tokenize, fun before behind ht => ⟨?_, ?_⟩⟩
  · rintro ⟨left, token, right, h, rfl, hkind⟩
    have hall := flatMap_text_tokenize .markdown t firstLine
    rw [h, List.flatMap_append, List.flatMap_cons, ht, List.append_cancel_left_eq] at hall
    have htext : token.text = ['\x27'] := by
      rcases (Literal.extent_of_tokenize h).quote hkind with hquote | hquote
      · rw [show token.text = ['\x22'] from hquote] at hall
        simp at hall
      · exact hquote
    rw [htext, List.cons_append, List.nil_append] at hall
    obtain ⟨hword, hcloses⟩ := Literal.closes_of_starts_string h hkind htext
    rw [(List.cons.inj hall).2] at hcloses
    have hadmits := (admits_of_tokenize (by decide) h).2
    rw [hkind] at hadmits
    exact ⟨⟨left, token, right, [], h, (List.append_nil _).symm, by simp [htext], hadmits,
      by simp [hkind]⟩, hword, hcloses⟩
  · rintro ⟨⟨left, token, right, inside, h, rfl, hinside, hincode, hfence⟩, hword, hcloses⟩
    have hadmits := (admits_of_tokenize (by decide) h).2
    have hcode := Enclosure.isCode_of_inCode hadmits hincode hfence
    have hall := flatMap_text_tokenize .markdown t firstLine
    rw [h, List.flatMap_append, List.flatMap_cons, ht, List.append_assoc,
      List.append_cancel_left_eq] at hall
    obtain ⟨more, htext⟩ : ∃ more, token.text = inside ++ '\x27' :: more := by
      rcases List.append_eq_append_iff.mp hall with ⟨outside, rfl, -⟩ | ⟨within, htext, hwithin⟩
      · rw [List.length_append] at hinside
        omega
      · cases within with
        | nil => simp [htext] at hinside
        | cons d more =>
            rw [← (List.cons.inj hwithin).1] at htext
            exact ⟨more, htext⟩
    rw [htext, List.append_assoc, List.append_cancel_left_eq, List.cons_append,
      List.cons.injEq] at hall
    rw [← hall.2] at hcloses
    obtain ⟨rfl, hkind⟩ := Literal.starts_string_of_closes h hcode htext hword hcloses
    exact ⟨left, token, right, h, (List.append_nil _).symm, hkind⟩

end MarkupLayout

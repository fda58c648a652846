import MarkupLayout.Proofs.StepShape
/-!
# What the scanner does at a character

A step is taken at a lexeme, at a bracket, at what begins or goes on with a literal, or at the first
line of a fence.  `ScanContext.Does` names these cases and the conditions under which the scanner
chooses them; a fact about single pieces is proved by going through them.
-/

namespace MarkupLayout

/-! ## Runs of one character -/

namespace Text

theorem head?_dropWhile_ne (f : Char) (t : Text) : (t.dropWhile (· == f)).head? ≠ some f := by
  intro hhead
  have hnot := List.head?_dropWhile_not (· == f) t
  simp [hhead] at hnot

theorem takeWhile_eq_replicate (f : Char) (t : Text) :
    t.takeWhile (· == f) = List.replicate (t.takeWhile (· == f)).length f := by
  refine List.eq_replicate_iff.mpr ⟨rfl, fun c hc => ?_⟩
  simpa using List.mem_takeWhile_imp hc

variable {f : Char} {rest : Text} (hrest : rest.head? ≠ some f)

include hrest

theorem takeWhile_replicate_append (run : Nat) :
    (List.replicate run f ++ rest).takeWhile (· == f) = List.replicate run f := by
  have hstop : rest.takeWhile (· == f) = [] := by
    cases rest with
    | nil => rfl
    | cons c rest => exact List.takeWhile_cons_of_neg (by simpa using hrest)
  rw [List.takeWhile_append_of_pos (by simp), hstop, List.append_nil]

theorem dropWhile_replicate_append (run : Nat) :
    (List.replicate run f ++ rest).dropWhile (· == f) = rest := by
  have hsplit := List.takeWhile_append_dropWhile (p := (· == f))
    (l := List.replicate run f ++ rest)
  rwa [takeWhile_replicate_append hrest, List.append_cancel_left_eq] at hsplit

end Text

theorem Lexeme.eq_backtick_of_startKind {c : Char} {rest : Text}
    (h : startKind c rest = .backticks) : c = '\x60' :=
  starts_of_startKind h

/-! ## Lexemes outside literals -/

/-- What the piece of a lexeme that begins no literal and is no bracket says about the lexeme. -/
structure ScanContext.Yields (g : Grammar) (ctx : ScanContext) (lexeme : Lexeme) (piece : Piece) :
    Prop where
  plain : piece.kind.isPlain = true
  text : ∃ mark, piece.text = lexeme.text ++ mark ∧
    (mark = [] ∨ lexeme.kind = .word ∧ (mark = ['.'] ∨ mark = [':']))
  lineBreak : piece.kind.isLineBreak = true → lexeme.kind = .newline
  closer : piece.kind = .keyword .closer → piece.text = g.closer ∧ ctx.last = none

theorem Grammar.eq_closer_of_keywordRole {g : Grammar} {text : Text}
    (h : g.keywordRole text = some .closer) : text = g.closer := by
  unfold keywordRole at h
  split at h
  · simp at h
  · split at h
    · exact Eq.symm ‹_›
    · repeat' split at h
      all_goals simp at h

namespace ScanContext

def EmitsOf (g : Grammar) (ctx : ScanContext) (lexeme : Lexeme) (step : ScanStep) : Prop :=
  ∃ piece behind, step = ctx.emit piece.kind piece.text behind ∧ ctx.Yields g lexeme piece

variable {g : Grammar} {ctx : ScanContext} {lexeme : Lexeme}

private theorem emit_emitsOf {kind : TokenKind} {mark : Text} (rest : Text)
    (hmark : mark = [] ∨ lexeme.kind = .word ∧ (mark = ['.'] ∨ mark = [':']))
    (hplain : kind.isPlain = true) (hbreak : kind.isLineBreak = false)
    (hcloser : kind ≠ .keyword .closer) :
    ctx.EmitsOf g lexeme (ctx.emit kind (lexeme.text ++ mark) rest) :=
  ⟨⟨kind, _⟩, rest, rfl, hplain, ⟨mark, rfl, hmark⟩, by simp [hbreak], fun h => absurd h hcloser⟩

private theorem emit_emitsOf_whole {kind : TokenKind} (rest : Text) (hplain : kind.isPlain = true)
    (hbreak : kind.isLineBreak = false) (hcloser : kind ≠ .keyword .closer) :
    ctx.EmitsOf g lexeme (ctx.emit kind lexeme.text rest) := by
  have hemits : ctx.EmitsOf g lexeme (ctx.emit kind (lexeme.text ++ []) rest) :=
    emit_emitsOf rest (.inl rfl) hplain hbreak hcloser
  rwa [List.append_nil] at hemits

theorem plainWord_emitsOf (hword : lexeme.kind = .word) (rest : Text) :
    ctx.EmitsOf g lexeme (ctx.plainWord lexeme.text rest) := by
  unfold plainWord
  split
  · split
    · exact emit_emitsOf _ (.inr ⟨hword, .inl rfl⟩) rfl rfl (by simp)
    · exact emit_emitsOf_whole _ rfl rfl (by simp)
  · exact emit_emitsOf_whole _ rfl rfl (by simp)

theorem keywordOrPlain_emitsOf (hword : lexeme.kind = .word) (rest : Text) :
    ctx.EmitsOf g lexeme (ctx.keywordOrPlain g lexeme.text rest) := by
  unfold keywordOrPlain
  split
  · rename_i role hrole
    split
    · rename_i hhead
      by_cases hcloser : role = .closer
      · subst hcloser
        exact ⟨⟨.keyword .closer, _⟩, rest, rfl, rfl, ⟨[], (List.append_nil _).symm, .inl rfl⟩,
          by simp [TokenKind.isLineBreak], fun _ =>
            ⟨Grammar.eq_closer_of_keywordRole hrole, by simpa [atLineHead] using hhead⟩⟩
      · exact emit_emitsOf_whole _ rfl rfl (by simpa using hcloser)
    · exact plainWord_emitsOf hword rest
  · exact plainWord_emitsOf hword rest

theorem word_emitsOf (hword : lexeme.kind = .word) (rest : Text) :
    ctx.EmitsOf g lexeme (ctx.word g lexeme.text rest) := by
  unfold word
  split
  · split
    · exact emit_emitsOf _ (.inr ⟨hword, .inr rfl⟩) rfl rfl (by simp)
    · exact keywordOrPlain_emitsOf hword _
  · exact keywordOrPlain_emitsOf hword _

theorem lexeme_emitsOf (g : Grammar) (ctx : ScanContext) {c : Char} {rest : Text}
    (hbackticks : Lexeme.startKind c rest ≠ .backticks)
    (hother : Lexeme.startKind c rest ≠ .other) :
    ctx.EmitsOf g (Lexeme.first c rest).1 (ctx.lexeme g c rest) := by
  have hkind := Lexeme.kind_first c rest
  simp only [ScanContext.lexeme]
  split <;> rename_i h
  · exact emit_emitsOf_whole _ rfl rfl (by simp)
  · have hbreak := ctx.lineBreak_isLineBreak g
    refine ⟨⟨ctx.lineBreak g, _⟩, _, rfl, ?_, ⟨[], (List.append_nil _).symm, .inl rfl⟩, fun _ => h,
      fun hcloser => ?_⟩
    · revert hbreak
      cases ctx.lineBreak g <;> simp [TokenKind.isLineBreak, TokenKind.isPlain]
    · rw [show ctx.lineBreak g = .keyword .closer from hcloser] at hbreak
      simp [TokenKind.isLineBreak] at hbreak
  · exact word_emitsOf h _
  · unfold operator
    repeat' split
    all_goals exact emit_emitsOf_whole _ rfl rfl (by simp)
  · unfold hashes
    split
    all_goals exact emit_emitsOf_whole _ rfl rfl (by simp)
  · split
    all_goals exact emit_emitsOf_whole _ rfl rfl (by simp)
  · unfold colons
    repeat' split
    all_goals exact emit_emitsOf_whole _ rfl rfl (by simp)
  · exact emit_emitsOf_whole _ rfl rfl (by simp)
  · exact absurd (hkind.symm.trans h) hbackticks
  · exact absurd (hkind.symm.trans h) hother

/-! ## The cases of a step -/

/-- What the scanner does at a character. -/
inductive Does (g : Grammar) (ctx : ScanContext) (c : Char) (rest : Text) : ScanStep → Prop
  | plain (piece : Piece) (behind : Text) (hyields : ctx.Yields g (Lexeme.first c rest).1 piece)
      (hother : Lexeme.startKind c rest ≠ .other) :
      Does g ctx c rest (ctx.emit piece.kind piece.text behind)
  | char (hother : Lexeme.startKind c rest = .other)
      (hapostrophe : ∀ mark, g.quote? c = some mark → mark.interpolates = false ∧
        (ctx.followsWordChar = true ∨ Literal.closesOnLine c rest = false)) :
      Does g ctx c rest (ctx.emit .text [c] rest)
  | opens (declared : OpenKind) (hdeclared : g.opening? c = some declared) :
      Does g ctx c rest (ctx.openBracket g declared c rest)
  | closes (declared : OpenKind) (hdeclared : g.closing? c = some declared) (step : ScanStep)
      (hpieces : step.pieces = [⟨.closeBracket declared.closer, [c]⟩])
      (hquotes : step.embeddings.map Embedding.quote = ctx.embeddings.map Embedding.quote) :
      Does g ctx c rest step
  | resumes (e : Embedding) (outer : List Embedding) (hembeddings : ctx.embeddings = e :: outer)
      (hdeclared : g.closing? c = some .brace) :
      Does g ctx c rest ((quotedStep g e.quote outer (ctx.depth - 1) rest).precededBy
        ⟨.closeBracket .interpolationEnd, [c]⟩)
  | quote (mark : QuoteMark) (hmark : g.quote? c = some mark)
      (hopens : mark.interpolates = false →
        ctx.followsWordChar = false ∧ Literal.closesOnLine c rest = true) :
      Does g ctx c rest ((quotedStep g c ctx.embeddings ctx.depth rest).precededBy
        ⟨.literalBegin .quote, [c]⟩)
  | codeSpan (n : Nat) (hn : 0 < n) (behind : Text) (hspan : g.codeSpan = some '\x60')
      (htext : c :: rest = List.replicate n '\x60' ++ behind)
      (hbehind : behind.head? ≠ some '\x60') :
      Does g ctx c rest (ctx.codeSpan g (List.replicate n '\x60') behind)
  | fence (f : Char) (info : Text)
      (hline : (Text.firstLine (c :: rest)).dropWhile Text.isIndentChar = f :: info)
      (hopens : opensFence g f info = true) :
      Does g ctx c rest (ctx.fenceStep f info (c :: rest))

theorem EmitsOf.does {c : Char} {rest : Text} {step : ScanStep}
    (h : ctx.EmitsOf g (Lexeme.first c rest).1 step) (hother : Lexeme.startKind c rest ≠ .other) :
    ctx.Does g c rest step := by
  obtain ⟨piece, behind, rfl, hyields⟩ := h
  exact .plain piece behind hyields hother

theorem codeSpan_does (g : Grammar) (ctx : ScanContext) {c : Char} {rest : Text}
    (h : Lexeme.startKind c rest = .backticks) :
    ctx.Does g c rest (ctx.codeSpan g (Lexeme.first c rest).1.text (Lexeme.first c rest).2) := by
  by_cases hspan : g.codeSpan = some '\x60'
  · obtain rfl : c = '\x60' := Lexeme.eq_backtick_of_startKind h
    have htext : (Lexeme.first '\x60' rest).1.text =
        List.replicate ((rest.takeWhile (· == '\x60')).length + 1) '\x60' := by
      simp only [Lexeme.first, h, Lexeme.ofRun]
      rw [List.replicate_succ, ← Text.takeWhile_eq_replicate]
    have hbehind : (Lexeme.first '\x60' rest).2 = rest.dropWhile (· == '\x60') := by
      simp only [Lexeme.first, h, Lexeme.ofRun]
    have happend := Lexeme.first_append '\x60' rest
    rw [htext, hbehind] at happend ⊢
    exact .codeSpan _ (by omega) _ hspan happend.symm (Text.head?_dropWhile_ne _ rest)
  · rw [codeSpan, if_pos hspan]
    exact (emit_emitsOf_whole _ rfl rfl (by simp)).does (by simp [h])

theorem quote_does {mark : QuoteMark} {c : Char} {rest : Text} (hmark : g.quote? c = some mark)
    (hother : Lexeme.startKind c rest = .other) :
    ctx.Does g c rest (ctx.quote g mark c rest) := by
  unfold quote
  split
  · rename_i hprose
    refine .char hother fun mark' hmark' => ?_
    obtain rfl : mark = mark' := Option.some.inj (hmark.symm.trans hmark')
    simpa using hprose
  · rename_i hprose
    refine .quote mark hmark fun hinterpolates => ?_
    simpa [hinterpolates] using hprose

theorem closeBracket_does {declared : OpenKind} {c : Char} {rest : Text}
    (hdeclared : g.closing? c = some declared) :
    ctx.Does g c rest (ctx.closeBracket g declared c rest) := by
  unfold closeBracket
  split
  · rename_i hnil
    exact .closes declared hdeclared _ rfl (by simp [hnil])
  · rename_i e outer hcons
    split
    · rename_i hends
      rw [Bool.and_eq_true, decide_eq_true_eq, decide_eq_true_eq] at hends
      exact .resumes e outer hcons (hdeclared.trans (congrArg some hends.2))
    · exact .closes declared hdeclared _ rfl (by simp [hcons])

theorem otherChar_does {c : Char} {rest : Text} (hother : Lexeme.startKind c rest = .other) :
    ctx.Does g c rest (ctx.otherChar g c rest) := by
  unfold otherChar
  split
  · exact .opens _ ‹_›
  · split
    · exact closeBracket_does ‹_›
    · split
      · exact quote_does ‹_› hother
      · rename_i hnone
        exact .char hother (by simp [hnone])

theorem lexeme_does (g : Grammar) (ctx : ScanContext) (c : Char) (rest : Text) :
    ctx.Does g c rest (ctx.lexeme g c rest) := by
  by_cases hbackticks : Lexeme.startKind c rest = .backticks
  · rw [lexeme_of_backticks g ctx hbackticks]
    exact ctx.codeSpan_does g hbackticks
  · by_cases hother : Lexeme.startKind c rest = .other
    · rw [lexeme_of_other g ctx hother]
      exact otherChar_does hother
    · exact (ctx.lexeme_emitsOf g hbackticks hother).does hother

theorem step_does (g : Grammar) (ctx : ScanContext) (c : Char) (rest : Text) :
    ctx.Does g c rest (ctx.step g c rest) := by
  rcases ctx.step_cases g c rest with hstep | ⟨f, info, hline, hopens, hstep⟩
  · rw [hstep]
    exact ctx.lexeme_does g c rest
  · rw [hstep]
    exact .fence f info hline hopens

end ScanContext

/-! ## The pieces of literals -/

section Members

variable {g : Grammar} {ctx : ScanContext} {piece : Piece}

theorem mem_quotedStep {q : Char} {embeddings : List Embedding} {depth : Nat} {t : Text}
    (h : piece ∈ (quotedStep g q embeddings depth t).pieces) :
    piece.kind = .literalContent ∨ piece.kind = .literalEnd .quote ∨
      piece = ⟨.openBracket .interpolationBegin, g.interpolationOpen⟩ := by
  simp only [quotedStep] at h
  split at h
  · exact .inl (by rw [(mem_pieceOf h).1])
  · split at h
    all_goals rcases List.mem_append.mp h with h | h
    · exact .inl (by rw [(mem_pieceOf h).1])
    · exact .inr (.inl (by rw [List.mem_singleton.mp h]))
    · exact .inl (by rw [(mem_pieceOf h).1])
    · exact .inr (.inr (List.mem_singleton.mp h))

namespace ScanContext

theorem mem_codeSpan (hspan : g.codeSpan = some '\x60') {text rest : Text}
    (h : piece ∈ (ctx.codeSpan g text rest).pieces) :
    piece = ⟨.literalBegin .codeSpan, text⟩ ∨ piece.kind = .literalContent ∨
      piece.kind = .literalEnd .codeSpan := by
  rw [codeSpan, if_neg (by simp [hspan])] at h
  split at h
  · rcases List.mem_cons.mp h with h | h
    · exact .inl h
    · exact .inr (.inl (by rw [(mem_pieceOf h).1]))
  · simp only [List.cons_append, List.mem_cons, List.mem_append, List.not_mem_nil,
      or_false] at h
    rcases h with h | h | h
    · exact .inl h
    · exact .inr (.inl (by rw [(mem_pieceOf h).1]))
    · exact .inr (.inr (by rw [h]))

theorem mem_fenceStep {f : Char} {info t : Text} (h : piece ∈ (ctx.fenceStep f info t).pieces) :
    piece = ⟨.space, t.firstLine.leading⟩ ∨ piece = ⟨.literalBegin .fence, f :: info⟩ ∨
      piece = ⟨.newline, t.firstEnding⟩ ∨ piece.kind = .literalContent ∨
      piece.kind = .literalEnd .fence := by
  simp only [fenceStep, List.mem_append, List.mem_cons, or_assoc] at h
  rcases h with h | h | h | h | h
  · exact .inl (mem_pieceOf h).1
  · exact .inr (.inl h)
  · exact .inr (.inr (.inl (mem_pieceOf h).1))
  · exact .inr (.inr (.inr (.inl (by rw [(mem_pieceOf h).1]))))
  · exact .inr (.inr (.inr (.inr (by rw [(mem_pieceOf h).1]))))

end ScanContext

end Members

end MarkupLayout

import MarkupLayout.Token.Step
/-!
# From text to tokens

Scanning repeats the scanner's step until the text is used up.  It never fails; a literal that is
not closed runs to the end of the text.  `ScanStep.Cuts` says that a step neither loses nor
invents text and moves on, which makes the scanner total.
-/

namespace MarkupLayout

/-- The pieces and the rest of a step make up the text, and the rest is shorter. -/
structure ScanStep.Cuts (step : ScanStep) (t : Text) : Prop where
  append : step.pieces.flatMap Piece.text ++ step.rest = t
  shorter : step.rest.length < t.length

namespace ScanStep

theorem cuts_of_head {step : ScanStep} {t : Text} {piece : Piece} {more : List Piece}
    (hpieces : step.pieces = piece :: more) (htext : piece.text ≠ [])
    (happend : step.pieces.flatMap Piece.text ++ step.rest = t) : step.Cuts t := by
  refine ⟨happend, ?_⟩
  have hlength := congrArg List.length happend
  have hpos := List.length_pos_iff.mpr htext
  rw [hpieces] at hlength
  simp only [List.flatMap_cons, List.length_append] at hlength
  omega

end ScanStep

namespace ScanContext

theorem emit_cuts (ctx : ScanContext) (kind : TokenKind) {text rest t : Text}
    (htext : text ≠ []) (happend : text ++ rest = t) : (ctx.emit kind text rest).Cuts t :=
  ScanStep.cuts_of_head rfl htext (by simpa [emit] using happend)

theorem plainWord_cuts (ctx : ScanContext) {text rest t : Text}
    (htext : text ≠ []) (happend : text ++ rest = t) : (ctx.plainWord text rest).Cuts t := by
  unfold plainWord
  split
  · split
    · exact ctx.emit_cuts _ (by simp) (by simpa using happend)
    · exact ctx.emit_cuts _ htext happend
  · exact ctx.emit_cuts _ htext happend

theorem keywordOrPlain_cuts (g : Grammar) (ctx : ScanContext) {text rest t : Text}
    (htext : text ≠ []) (happend : text ++ rest = t) :
    (ctx.keywordOrPlain g text rest).Cuts t := by
  unfold keywordOrPlain
  split
  · split
    · exact ctx.emit_cuts _ htext happend
    · exact ctx.plainWord_cuts htext happend
  · exact ctx.plainWord_cuts htext happend

theorem word_cuts (g : Grammar) (ctx : ScanContext) {text rest t : Text}
    (htext : text ≠ []) (happend : text ++ rest = t) : (ctx.word g text rest).Cuts t := by
  unfold word
  split
  · split
    · exact ctx.emit_cuts _ (by simp) (by simpa using happend)
    · exact ctx.keywordOrPlain_cuts g htext happend
  · exact ctx.keywordOrPlain_cuts g htext happend

theorem operator_cuts (g : Grammar) (ctx : ScanContext) {text rest t : Text}
    (htext : text ≠ []) (happend : text ++ rest = t) : (ctx.operator g text rest).Cuts t := by
  unfold operator
  repeat' split
  all_goals exact ctx.emit_cuts _ htext happend

theorem hashes_cuts (g : Grammar) (ctx : ScanContext) {text rest t : Text}
    (htext : text ≠ []) (happend : text ++ rest = t) : (ctx.hashes g text rest).Cuts t := by
  unfold hashes
  split
  all_goals exact ctx.emit_cuts _ htext happend

theorem colons_cuts (g : Grammar) (ctx : ScanContext) {text rest t : Text}
    (htext : text ≠ []) (happend : text ++ rest = t) : (ctx.colons g text rest).Cuts t := by
  unfold colons
  repeat' split
  all_goals exact ctx.emit_cuts _ htext happend

theorem codeSpan_cuts (g : Grammar) (ctx : ScanContext) {text rest t : Text}
    (htext : text ≠ []) (happend : text ++ rest = t) : (ctx.codeSpan g text rest).Cuts t := by
  unfold codeSpan
  split
  · exact ctx.emit_cuts _ htext happend
  · split
    · exact ScanStep.cuts_of_head rfl htext (by simpa using happend)
    · rename_i content closing hfound
      obtain ⟨hsplit, -⟩ := Literal.eq_of_beforeBackticks?_eq_some hfound
      refine ScanStep.cuts_of_head rfl htext ?_
      simp [List.flatMap_append, List.takeWhile_append_dropWhile, hsplit, happend]

theorem openBracket_cuts (g : Grammar) (ctx : ScanContext) (kind : OpenKind) (c : Char)
    (rest : Text) : (ctx.openBracket g kind c rest).Cuts (c :: rest) :=
  ScanStep.cuts_of_head rfl (by simp) (by simp [openBracket])

end ScanContext

theorem quotedStep_append (g : Grammar) (q : Char) (embeddings : List Embedding) (depth : Nat)
    (t : Text) :
    (quotedStep g q embeddings depth t).pieces.flatMap Piece.text ++
      (quotedStep g q embeddings depth t).rest = t := by
  have happend := Literal.unescapedSpan_append (Literal.interruptsQuoted g q) t
  simp only [quotedStep]
  split
  · rename_i hrest
    rw [Literal.quoted] at hrest ⊢
    simpa [hrest] using happend
  · rename_i c rest hrest
    have hopen := Literal.interpolationOpen_prefix hrest
    rw [Literal.quoted] at hrest ⊢
    rw [hrest] at happend
    split
    · simpa [List.flatMap_append] using happend
    · rename_i hc
      obtain ⟨more, hmore⟩ := hopen hc
      simp only [← hmore, List.drop_left, List.flatMap_append, flatMap_text_pieceOf,
        List.flatMap_cons, List.flatMap_nil, List.append_nil]
      rw [List.append_assoc, hmore, happend]

theorem quotedStep_precededBy_cuts (g : Grammar) (q : Char) (embeddings : List Embedding)
    (depth : Nat) (kind : TokenKind) (c : Char) (rest : Text) :
    ((quotedStep g q embeddings depth rest).precededBy ⟨kind, [c]⟩).Cuts (c :: rest) := by
  refine ScanStep.cuts_of_head rfl (by simp) ?_
  have happend := quotedStep_append g q embeddings depth rest
  simpa [ScanStep.precededBy] using happend

namespace ScanContext

theorem closeBracket_cuts (g : Grammar) (ctx : ScanContext) (kind : OpenKind) (c : Char)
    (rest : Text) : (ctx.closeBracket g kind c rest).Cuts (c :: rest) := by
  unfold closeBracket
  split
  · exact ScanStep.cuts_of_head rfl (by simp) (by simp)
  · split
    · exact quotedStep_precededBy_cuts ..
    · exact ScanStep.cuts_of_head rfl (by simp) (by simp)

theorem quote_cuts (g : Grammar) (ctx : ScanContext) (mark : QuoteMark) (c : Char)
    (rest : Text) : (ctx.quote g mark c rest).Cuts (c :: rest) := by
  unfold quote
  split
  · exact ctx.emit_cuts _ (by simp) rfl
  · exact quotedStep_precededBy_cuts ..

theorem otherChar_cuts (g : Grammar) (ctx : ScanContext) (c : Char) (rest : Text) :
    (ctx.otherChar g c rest).Cuts (c :: rest) := by
  unfold otherChar
  split
  · exact ctx.openBracket_cuts ..
  · split
    · exact ctx.closeBracket_cuts ..
    · split
      · exact ctx.quote_cuts ..
      · exact ctx.emit_cuts _ (by simp) rfl

theorem lexeme_cuts (g : Grammar) (ctx : ScanContext) (c : Char) (rest : Text) :
    (ctx.lexeme g c rest).Cuts (c :: rest) := by
  have happend := Lexeme.first_append c rest
  have htext : (Lexeme.first c rest).1.text ≠ [] := by
    obtain ⟨t, ht, -⟩ := Lexeme.text_first_eq_cons c rest
    simp [ht]
  simp only [lexeme]
  split
  · exact ctx.emit_cuts _ htext happend
  · exact ctx.emit_cuts _ htext happend
  · exact ctx.word_cuts g htext happend
  · exact ctx.operator_cuts g htext happend
  · exact ctx.hashes_cuts g htext happend
  · exact ctx.emit_cuts _ htext happend
  · exact ctx.colons_cuts g htext happend
  · exact ctx.emit_cuts _ htext happend
  · exact ctx.codeSpan_cuts g htext happend
  · exact ctx.otherChar_cuts g c rest

theorem fence?_cuts {g : Grammar} {ctx : ScanContext} {t : Text} {step : ScanStep}
    (h : ctx.fence? g t = some step) : step.Cuts t := by
  unfold fence? at h
  simp only at h
  split at h
  · simp at h
  · rename_i f info hline
    split at h
    · simp only [Option.some.injEq] at h
      have hbody := Literal.fenced_append f ((f :: info).takeWhile (· == f)).length
        t.afterFirstLine
      have hlead : t.firstLine.leading ++ (f :: info) = t.firstLine := by
        rw [← hline]
        exact List.takeWhile_append_dropWhile
      have hparts := Text.firstLine_append t
      generalize Literal.fenced f ((f :: info).takeWhile (· == f)).length t.afterFirstLine = parts
        at h hbody
      have hclosing := Text.firstLine_append_drop parts.2
      subst h
      constructor
      · simp only [List.flatMap_append, List.flatMap_cons, flatMap_text_pieceOf,
          List.append_assoc, hclosing, hbody]
        rw [← List.append_assoc, hlead, ← List.append_assoc, hparts]
      · have hlength := congrArg List.length hparts
        have hrest := congrArg List.length hbody
        have hhead := congrArg List.length hlead
        simp only [List.length_append, List.length_cons, List.length_drop] at hlength hrest hhead ⊢
        omega
    · simp at h

theorem step_cuts (g : Grammar) (ctx : ScanContext) (c : Char) (rest : Text) :
    (ctx.step g c rest).Cuts (c :: rest) := by
  unfold step
  split
  · cases h : ctx.fence? g (c :: rest) with
    | none => exact ctx.lexeme_cuts g c rest
    | some found => exact fence?_cuts h
  · exact ctx.lexeme_cuts g c rest

end ScanContext

def scanFrom (g : Grammar) (ctx : ScanContext) : Text → List Piece
  | [] => []
  | c :: rest =>
    let step := ctx.step g c rest
    step.pieces ++ scanFrom g (ctx.advance step) step.rest
termination_by t => t.length
decreasing_by exact (ctx.step_cuts g c rest).shorter

def scan (g : Grammar) (t : Text) : List Piece :=
  scanFrom g .initial t

/-- The tokens of a text whose first line has the given number. -/
def tokenize (g : Grammar) (t : Text) (firstLine : Nat) : List Token :=
  Token.place ⟨firstLine, 0⟩ (scan g t)

end MarkupLayout

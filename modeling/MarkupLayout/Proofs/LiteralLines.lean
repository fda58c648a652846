import Mathlib.Control.Monad.Basic
import MarkupLayout.Document.Indent
import MarkupLayout.Proofs.Anchor
import MarkupLayout.Proofs.Restart
/-!
# Lines that are left alone

A line keeps its indentation exactly if the span from its anchor on, read for itself, ends inside
a literal, which the last significant token of the span tells.  That is the same as to start inside
a literal, unless the anchor stands in code that is embedded in a string: the span then starts in
the middle of the string, and reading it for itself says nothing about the line.
-/

namespace MarkupLayout

/-! ## The last token -/

def Token.LastInLiteral (tokens : List Token) : Prop :=
  ∃ token, lastSignificant? tokens = some token ∧
    ((∃ kind, token.kind = .literalBegin kind) ∨ token.kind = .literalContent)

theorem TokenKind.isInLiteral_iff (kind : TokenKind) :
    kind.isInLiteral = true ↔
      (∃ literal, kind = .literalBegin literal) ∨ kind = .literalContent := by
  cases kind <;> simp [isInLiteral]

theorem endInLiteral_map_kind_iff (tokens : List Token) :
    endInLiteral (tokens.map Token.kind) = true ↔ Token.LastInLiteral tokens := by
  rw [endInLiteral, ← List.map_reverse, List.find?_map, Option.any_map, Option.any_eq_true]
  simp only [Token.LastInLiteral, TokenKind.isInLiteral_iff]
  rfl

theorem Indentation.Survey.endsInLiteral_eq (s : Survey) :
    s.endsInLiteral = endInLiteral (s.tokens.map Token.kind) := by
  rw [endsInLiteral, last?, Token.lastSignificant?, endInLiteral, ← List.map_reverse,
    List.find?_map, Option.any_map]
  rfl

namespace Literal

theorem endsInside_tokenize (g : Grammar) (t : Text) (firstLine : Nat) :
    endsInside (tokenize g t firstLine) = isOpenAfter g t := by
  rw [isOpenAfter_eq, endsInside, tokenize, Token.map_kind_place]

/-- Whether a text ends inside a literal can be told by the frames that its tokens leave open and,
on whole lines, by the last significant token, which is what the layout looks at.  On any other text
the two differ exactly behind a last token that ends the code embedded in a string. -/
theorem endsInside_iff_lastInLiteral (t : Text) (firstLine : Nat) :
    let tokens := tokenize .markdown t firstLine
    (t.IsWhole → (endsInside tokens = true ↔ Token.LastInLiteral tokens) ∧
      ∀ anchor, (Indentation.Survey.mk anchor tokens).endsInLiteral = endsInside tokens) ∧
    (endsInside tokens = true ↔ Token.LastInLiteral tokens ∨
      ∃ token, tokens.getLast? = some token ∧ token.kind = .closeBracket .interpolationEnd) := by
  intro tokens
  have hg := Grammar.markdown_soundEmbedding.toLineEmbedding
  have hkinds : tokens.map Token.kind = (scan .markdown t).map Piece.kind :=
    Token.map_kind_place _ _
  rw [endsInside_tokenize, ← endInLiteral_map_kind_iff, hkinds]
  constructor
  · intro ht
    rw [endInLiteral_scan hg ht]
    refine ⟨Iff.rfl, fun anchor => ?_⟩
    rw [Indentation.Survey.endsInLiteral_eq, hkinds, endInLiteral_scan hg ht]
  · have hlast : (∃ token, tokens.getLast? = some token ∧
        token.kind = .closeBracket .interpolationEnd) ↔
        ((scan .markdown t).map Piece.kind).getLast? = some (.closeBracket .interpolationEnd) := by
      rw [← hkinds, List.getLast?_map, Option.map_eq_some_iff]
    rw [hlast, ← leavesOpen_scan hg, leavesOpen, Bool.or_eq_true, beq_iff_eq]

theorem endsInside_iff_lastInLiteral_string :
    Token.LastInLiteral (tokenize .markdown "say \"open\n".toList 1) := by
  obtain ⟨hwhole, -⟩ := endsInside_iff_lastInLiteral "say \"open\n".toList 1
  exact (hwhole (.inr rfl)).1.mp (by decide +kernel)

end Literal

namespace Indentation

variable {g : Grammar} {above : Text}

theorem endsInLiteral_survey (hv : g.VisibleSigils) (hg : g.SoundEmbedding)
    (habove : above.IsWhole) :
    (survey g above).endsInLiteral = Literal.isOpenAfter g (span g above) := by
  rw [Survey.endsInLiteral_eq, survey_tokens, tokenize, Token.map_kind_place,
    Literal.endInLiteral_scan hg.toLineEmbedding (isWhole_span hv habove)]

theorem column_eq_none_iff (hv : g.VisibleSigils) (hg : g.SoundEmbedding) (style : IndentStyle)
    (habove : above.IsWhole) (sigil : Bool) :
    column g style above sigil = .ok none ↔
      Literal.isOpenAfter g (span g above) = true := by
  rw [column, endsInLiteral_survey hv hg habove]
  cases Literal.isOpenAfter g (span g above) with
  | true => simp
  | false =>
      simp only [Bool.false_eq_true, ↓reduceIte, iff_false]
      cases Nesting.enclosingScope g (survey g above).tokens with
      | error mismatch => simp
      | ok scope =>
          simp only
          generalize columnIn g style above sigil (survey g above) scope = result
          cases result <;> simp [Except.map]

theorem columnOf_eq_column (g : Grammar) (style : IndentStyle) {t : Text} {line : Nat}
    (hline : 2 ≤ line) (hcount : line ≤ t.lineCount) :
    ∃ sigil, columnOf g style t line = column g style (t.above line) sigil := by
  obtain ⟨below, hcut⟩ := Text.cutAtLine?_above (by omega) hcount
  refine ⟨g.sigilLine.occursIn below.firstLine, ?_⟩
  rw [columnOf, if_neg (by omega), hcut]

theorem columnOf_of_lineCount_lt (g : Grammar) (style : IndentStyle) {t : Text} {line : Nat}
    (hline : 2 ≤ line) (hcount : t.lineCount < line) : columnOf g style t line = .ok none := by
  rw [Text.lineCount_eq_length_lines] at hcount
  rw [columnOf, if_neg (by omega), Text.cutAtLine?_eq_none hcount]

theorem complete_of_inCode_eq_false (hv : g.VisibleSigils) {a : Anchor}
    (h : anchor? g above = some a) (hcode : a.inCode g = false) : a.above.Complete g := by
  obtain ⟨_, -, -, hwhole, -⟩ := anchor?_eq_some hv h
  rw [Anchor.inCode, bne_eq_false_iff_eq, tokenize, Token.map_kind_place] at hcode
  exact ⟨hwhole, hcode⟩

/-- If the anchor is outside embedded code, the span and the whole text above the line end in the
same way. -/
theorem isOpenAfter_span (hv : g.VisibleSigils) (hg : g.SoundEmbedding)
    (hanchor : ∀ a, anchor? g above = some a → a.inCode g = false) :
    Literal.isOpenAfter g (span g above) = Literal.isOpenAfter g above := by
  cases h : anchor? g above with
  | none => rw [span_of_anchor?_eq_none h]
  | some a =>
      have hcomplete := complete_of_inCode_eq_false hv h (hanchor a h)
      rw [← hcomplete.isOpenAfter_append hg.toLineEmbedding (span g above), above_append_span hv h]

end Indentation

namespace Document

theorem columnOf_eq_ok_iff (g : Grammar) (doc : Document) (line : Nat) (column : Option Nat) :
    doc.columnOf g line = .ok column ↔
      Indentation.columnOf g doc.style doc.text line = .ok column := by
  rw [columnOf]
  cases Indentation.columnOf g doc.style doc.text line <;> simp [Except.mapError]

/-- A line is left alone exactly if there is no such line or the span from its anchor on ends
inside a literal; and if no code embedded in a string is open at the anchor, exactly if there is no
such line or the text above it ends inside a literal. -/
theorem columnOf_eq_none_iff_in_literal (doc : Document) (line : Nat) (hline : 2 ≤ line) :
    (doc.columnOf .markdown line = .ok none ↔ doc.text.lineCount < line ∨
      Literal.isOpenAfter .markdown (Indentation.span .markdown (doc.text.above line)) = true) ∧
    ((∀ a, Indentation.anchor? .markdown (doc.text.above line) = some a →
        a.inCode .markdown = false) →
      (doc.columnOf .markdown line = .ok none ↔ doc.text.lineCount < line ∨
        Literal.isOpenAfter .markdown (doc.text.above line) = true)) := by
  have hspan : doc.columnOf .markdown line = .ok none ↔ doc.text.lineCount < line ∨
      Literal.isOpenAfter .markdown (Indentation.span .markdown (doc.text.above line)) = true := by
    rw [columnOf_eq_ok_iff]
    by_cases hcount : doc.text.lineCount < line
    · simp only [hcount, true_or, iff_true]
      exact Indentation.columnOf_of_lineCount_lt _ _ hline hcount
    · obtain ⟨sigil, hcolumn⟩ := Indentation.columnOf_eq_column .markdown doc.style hline
        (Nat.le_of_not_lt hcount)
      rw [hcolumn, Indentation.column_eq_none_iff Grammar.markdown_visibleSigils
        Grammar.markdown_soundEmbedding _ (doc.text.isWhole_above line)]
      simp only [hcount, false_or]
  refine ⟨hspan, fun hanchor => ?_⟩
  rw [hspan, Indentation.isOpenAfter_span Grammar.markdown_visibleSigils
    Grammar.markdown_soundEmbedding hanchor]

theorem columnOf_eq_none_in_fence :
    (ofText "a" "* a\n```\nb".toList .default).columnOf .markdown 3 = .ok none := by
  have habove : (ofText "a" "* a\n```\nb".toList .default).text.above 3 =
      "* a\n```\n".toList := by decide +kernel
  refine ((columnOf_eq_none_iff_in_literal (ofText "a" "* a\n```\nb".toList .default) 3
    (by decide)).2 ?_).mpr (.inr (by decide +kernel))
  intro a ha
  have hanchor : Indentation.anchor? .markdown "* a\n```\n".toList = some ⟨[], []⟩ := by
    decide +kernel
  rw [habove, hanchor, Option.some.injEq] at ha
  subst ha
  decide +kernel

/-- The span of a line can start in the middle of a string: here the code embedded on the first
line has a sigil line, and the last line, which is inside the string, gets a column. -/
theorem columnOf_ne_none_in_string :
    ¬∀ (doc : Document) (line : Nat), 2 ≤ line →
      (doc.columnOf .markdown line = .ok none ↔ doc.text.lineCount < line ∨
        Literal.isOpenAfter .markdown (doc.text.above line) = true) := by
  intro h
  have hiff := h (ofText "a" "\"a #\x7b\n* b\nend \x7d c\nx".toList .default) 4 (by decide)
  revert hiff
  decide +kernel

end Document

end MarkupLayout

import Mathlib.Data.List.DropRight
import MarkupLayout.Proofs.Run
/-!
# Tokens cover their text

The texts of the tokens, put together, are the text they were cut from, and each token says where
it starts: its line counts the line feeds before it, and its column the characters behind the last
of them.
-/

namespace MarkupLayout

theorem Position.after_eq (line : Nat) (t : Text) :
    Position.after ⟨line, 0⟩ t =
      ⟨line + t.count '\n', (t.rtakeWhile (· != '\n')).length⟩ := by
  induction t using List.reverseRecOn with
  | nil => rfl
  | append_singleton t c ih =>
      rw [after_append, ih, after_cons, after_nil, next, List.rtakeWhile_concat]
      by_cases hc : c = '\n'
      · simp [hc, Nat.add_assoc]
      · simp [hc]

theorem Position.line_after (p : Position) (t : Text) :
    (p.after t).line = p.line + t.count '\n' := by
  induction t generalizing p with
  | nil => rfl
  | cons c t ih =>
      rw [after_cons, ih, next]
      by_cases hc : c = '\n'
      · simp only [hc, ↓reduceIte, List.count_cons_self]
        omega
      · simp only [hc, ↓reduceIte, List.count_cons_of_ne hc]

theorem Token.position_of_place {p : Position} {pieces : List Piece}
    {before behind : List Token} {token : Token}
    (h : place p pieces = before ++ token :: behind) :
    (⟨token.line, token.column⟩ : Position) = p.after (before.flatMap Token.text) := by
  induction before generalizing p pieces with
  | nil =>
      cases pieces with
      | nil => simp [place] at h
      | cons piece more =>
          simp only [place, List.nil_append, List.cons.injEq] at h
          rw [← h.1]
          rfl
  | cons first before ih =>
      cases pieces with
      | nil => simp [place] at h
      | cons piece more =>
          simp only [place, List.cons_append, List.cons.injEq] at h
          obtain ⟨rfl, hmore⟩ := h
          rw [ih hmore, List.flatMap_cons, Position.after_append]
          rfl

theorem Token.flatMap_text_place (p : Position) (pieces : List Piece) :
    (place p pieces).flatMap Token.text = pieces.flatMap Piece.text := by
  rw [List.flatMap_def, map_text_place, ← List.flatMap_def]

theorem flatMap_text_tokenize (g : Grammar) (t : Text) (firstLine : Nat) :
    (tokenize g t firstLine).flatMap Token.text = t := by
  rw [tokenize, Token.flatMap_text_place, scan, flatMap_text_scanFrom]

theorem text_ne_nil_of_mem_tokenize {g : Grammar} (hg : g.interpolationOpen ≠ []) {t : Text}
    {firstLine : Nat} {token : Token} (h : token ∈ tokenize g t firstLine) : token.text ≠ [] := by
  have hmem : token.text ∈ (scan g t).map Piece.text := by
    rw [← Token.map_text_place ⟨firstLine, 0⟩]
    exact List.mem_map_of_mem h
  obtain ⟨piece, hpiece, heq⟩ := List.mem_map.mp hmem
  rw [← heq]
  exact forall_mem_scanFrom (fun hshape => hshape.text_ne_nil (.inl hg))
    ScanContext.wellQuoted_initial t piece hpiece

/-- Tokens lose, repeat and reorder nothing, and each of them is where it says it is: with the
total byte size of the tokens before it as its offset, its line is the first line plus the number
of line feeds before the offset, and its column the number of characters between the last of them
and the offset.  No token is empty unless embedded code can open with the empty text. -/
theorem tokenize_lossless_and_located (g : Grammar) (t : Text) (firstLine : Nat) :
    (tokenize g t firstLine).flatMap Token.text = t ∧
    (∀ before token behind, tokenize g t firstLine = before ++ token :: behind →
      ∃ passed rest, t.cut? (Text.byteSize (before.flatMap Token.text)) = some (passed, rest) ∧
        token.line = firstLine + passed.count '\n' ∧
        token.column = (passed.rtakeWhile (· != '\n')).length) ∧
    (g.interpolationOpen ≠ [] → ∀ token ∈ tokenize g t firstLine, token.text ≠ []) := by
  refine ⟨flatMap_text_tokenize g t firstLine, ?_, fun hg token => text_ne_nil_of_mem_tokenize hg⟩
  intro before token behind hsplit
  have htext := flatMap_text_tokenize g t firstLine
  rw [hsplit, List.flatMap_append] at htext
  have hposition := Token.position_of_place hsplit
  rw [Position.after_eq, Position.mk.injEq] at hposition
  refine ⟨before.flatMap Token.text, (token :: behind).flatMap Token.text, ?_, hposition⟩
  rw [← htext]
  exact Text.cut?_append _ _

end MarkupLayout

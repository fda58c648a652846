import MarkupLayout.IndentStyle
import MarkupLayout.Proofs.Lines
/-!
# Written indentation

Indentation is written as whole tabs and the spaces that are left over, or as spaces alone.  It is
read back as the run of spaces and tabs at the start of a line, measured as the width of a text, and
passed over on the way to a column further right.  All three agree with the width it was written
for, in every style; a style in which tabs are no columns wide writes none.
-/

namespace MarkupLayout

/-! ## Widths -/

namespace Text

theorem width_append (tabWidth : Nat) (s t : Text) :
    Text.width tabWidth (s ++ t) = Text.width tabWidth s + Text.width tabWidth t := by
  induction s with
  | nil => simp [Text.width]
  | cons c s ih =>
      rw [List.cons_append, Text.width, Text.width, ih]
      omega

theorem width_replicate (tabWidth count : Nat) (c : Char) :
    Text.width tabWidth (List.replicate count c) = count * (if c = '\t' then tabWidth else 1) := by
  induction count with
  | zero => simp [Text.width]
  | succ count ih =>
      rw [List.replicate_succ, Text.width, ih, Nat.add_mul, Nat.one_mul]
      omega

theorem displayColumn_append (tabWidth : Nat) (s t : Text) (column : Nat) :
    displayColumn tabWidth (s ++ t) (s.length + column) =
      Text.width tabWidth s + displayColumn tabWidth t column := by
  rw [displayColumn, List.take_length_add_append, width_append, displayColumn]

/-! ## The start of an indented line -/

theorem leading_append_of_all {w : Text} (hw : w.all isIndentChar = true) (rest : Text) :
    (w ++ rest).leading = w ++ rest.leading :=
  List.takeWhile_append_of_pos (by simpa using hw)

theorem leading_eq_nil_iff {t : Text} : t.leading = [] ↔ t.StartsVisibly := by
  cases t with
  | nil => simp [leading, StartsVisibly]
  | cons c t => simp [leading, StartsVisibly, List.takeWhile_cons]

end Text

/-! ## What a style writes -/

namespace IndentStyle

variable (style : IndentStyle)

theorem write_zero : style.write 0 = [] := by
  simp [write]

theorem lineFeed_notMem_write (width : Nat) : '\n' ∉ style.write width := by
  unfold write
  split <;> simp

theorem all_isIndentChar_write (width : Nat) :
    (style.write width).all Text.isIndentChar = true := by
  have hreplicate {c : Char} (hc : Text.isIndentChar c = true) (count : Nat) :
      (List.replicate count c).all Text.isIndentChar = true := by
    rw [List.all_eq_true]
    intro d hd
    rw [List.eq_of_mem_replicate hd]
    exact hc
  unfold write
  split
  · rw [List.all_append, hreplicate rfl, hreplicate rfl]
    rfl
  · exact hreplicate rfl width

theorem width_write (width : Nat) : Text.width style.tabWidth (style.write width) = width := by
  unfold write
  split
  · rw [Text.width_append, Text.width_replicate, Text.width_replicate, if_pos rfl,
      if_neg (by decide), Nat.mul_one]
    calc
      width / style.tabWidth * style.tabWidth + width % style.tabWidth =
          style.tabWidth * (width / style.tabWidth) + width % style.tabWidth := by
        rw [Nat.mul_comm]
      _ = width := Nat.div_add_mod width style.tabWidth
  · rw [Text.width_replicate, if_neg (by decide), Nat.mul_one]

/-- Writing and measuring are inverse.  A written indentation is read back from the line that starts
with it, unless more spaces or tabs follow; it measures the width it was written for; and each
column of the rest stands that much further to the right. -/
theorem write_measured_back (width : Nat) (rest : Text) :
    ((style.write width ++ rest).leading = style.write width ↔ rest.StartsVisibly) ∧
      Text.width style.tabWidth (style.write width) = width ∧
      ∀ column, Text.displayColumn style.tabWidth (style.write width ++ rest)
        ((style.write width).length + column) =
          width + Text.displayColumn style.tabWidth rest column := by
  refine ⟨?_, style.width_write width, fun column => ?_⟩
  · rw [Text.leading_append_of_all (style.all_isIndentChar_write width), List.append_right_eq_self,
      Text.leading_eq_nil_iff]
  · rw [Text.displayColumn_append, style.width_write]

end IndentStyle

end MarkupLayout

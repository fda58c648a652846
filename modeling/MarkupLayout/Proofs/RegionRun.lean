import Mathlib.Data.List.DropRight
import MarkupLayout.Proofs.CanonicalLayout
/-!
# A run over a region

Indenting a region goes from line to line, and each line sees the lines above it as they have
become.  `Indents` says this about lists of lines, without offsets and cursors: what the lines of a
region become below given lines, and what is reported about each of them.  The commands on
documents do nothing else.
-/

namespace MarkupLayout

namespace IndentStyle

variable (style : IndentStyle)

def outcomeOf (line : Text) : (column : Option Nat) → IndentOutcome
  | none => .suppressed
  | some width =>
    if line.leading = style.write width then .unchanged
    else .reindented (Text.width style.tabWidth line.leading) width

theorem dropWhile_reindented (line : Text) (column : Option Nat) :
    (style.reindented line column).dropWhile Text.isIndentChar =
      line.dropWhile Text.isIndentChar := by
  cases column with
  | none => rfl
  | some width =>
      exact Text.dropWhile_isIndentChar_append (style.all_isIndentChar_write width)
        (Text.startsVisibly_dropWhile line)

theorem leading_reindented (line : Text) (width : Nat) :
    (style.reindented line (some width)).leading = style.write width :=
  Text.takeWhile_isIndentChar_append (style.all_isIndentChar_write width)
    (Text.startsVisibly_dropWhile line)

theorem outcomeOf_isReindented_iff (line : Text) (column : Option Nat) :
    (style.outcomeOf line column).isReindented = true ↔ style.reindented line column ≠ line := by
  cases column with
  | none => simp [outcomeOf, reindented, IndentOutcome.isReindented]
  | some width =>
      by_cases heq : line.leading = style.write width
      · have hsame : style.reindented line (some width) = line := by
          rw [reindented, ← heq, Text.leading_append]
        simp [outcomeOf, heq, hsame, IndentOutcome.isReindented]
      · have hother : style.reindented line (some width) ≠ line := by
          intro hsame
          apply heq
          rw [← style.leading_reindented line width, hsame]
        simp [outcomeOf, heq, hother, IndentOutcome.isReindented]

end IndentStyle

/-! ## Lines -/

/-- Below `above`, the lines `old` become the lines `new` when they are indented from top to
bottom. -/
inductive Indentation.Indents (g : Grammar) (style : IndentStyle) :
    (above old new : List Text) → List IndentOutcome → Prop
  | nil (above : List Text) : Indents g style above [] [] []
  | cons {above old new : List Text} {line : Text} {column : Option Nat}
      {outcomes : List IndentOutcome} (hcolumn : columnBelow g style above line = .ok column)
      (hmore : Indents g style (above ++ [style.reindented line column]) old new outcomes) :
      Indents g style above (line :: old) (style.reindented line column :: new)
        (style.outcomeOf line column :: outcomes)

namespace Indentation.Indents

variable {g : Grammar} {style : IndentStyle} {above old new : List Text}
  {outcomes : List IndentOutcome}

theorem length_eq (h : Indents g style above old new outcomes) : new.length = old.length := by
  induction h with
  | nil => rfl
  | cons _ _ ih => rw [List.length_cons, List.length_cons, ih]

theorem length_outcomes (h : Indents g style above old new outcomes) :
    outcomes.length = old.length := by
  induction h with
  | nil => rfl
  | cons _ _ ih => rw [List.length_cons, List.length_cons, ih]

theorem exists_of_cons {line : Text} (h : Indents g style above (line :: old) new outcomes) :
    ∃ column more later, columnBelow g style above line = .ok column ∧
      new = style.reindented line column :: more ∧
      outcomes = style.outcomeOf line column :: later ∧
      Indents g style (above ++ [style.reindented line column]) old more later := by
  cases h with
  | cons hcolumn hmore => exact ⟨_, _, _, hcolumn, rfl, rfl, hmore⟩

theorem exists_columnBelow (h : Indents g style above old new outcomes) {before more : List Text}
    {line : Text} (hold : old = before ++ line :: more) :
    ∃ before' more' column, new = before' ++ style.reindented line column :: more' ∧
      before'.length = before.length ∧
      outcomes[before.length]? = some (style.outcomeOf line column) ∧
      columnBelow g style (above ++ before') line = .ok column := by
  induction before generalizing above old new outcomes with
  | nil =>
      subst hold
      obtain ⟨column, more', later, hcolumn, rfl, rfl, -⟩ := h.exists_of_cons
      exact ⟨[], more', column, rfl, rfl, rfl, by simpa using hcolumn⟩
  | cons first before ih =>
      subst hold
      obtain ⟨column, _, _, -, rfl, rfl, hmore⟩ := h.exists_of_cons
      obtain ⟨before', more', width, rfl, hlength, houtcome, hcolumn⟩ := ih hmore rfl
      refine ⟨style.reindented first column :: before', more', width, rfl, ?_, ?_, ?_⟩
      · rw [List.length_cons, List.length_cons, hlength]
      · simpa using houtcome
      · simpa using hcolumn

theorem append {old' new' : List Text} {outcomes' : List IndentOutcome}
    (h : Indents g style above old new outcomes)
    (h' : Indents g style (above ++ new) old' new' outcomes') :
    Indents g style above (old ++ old') (new ++ new') (outcomes ++ outcomes') := by
  induction h with
  | nil above =>
      rw [List.append_nil] at h'
      exact h'
  | cons hcolumn _ ih =>
      apply Indents.cons hcolumn
      apply ih
      rw [List.append_assoc]
      exact h'

end Indentation.Indents

/-! ## Documents -/

namespace Document

open Indentation (Indents columnBelow)

variable {g : Grammar} {doc : Document} {above old below : List Text} {line : Text}

theorem leadingOf_of_lines (h : doc.text.lines = above ++ line :: below) :
    doc.leadingOf (above.length + 1) = line.leading := by
  rw [leadingOf, Text.lineText?_of_lines h]
  exact Text.leading_stripReturn line

theorem outcome_applyColumn (h : doc.text.lines = above ++ line :: below)
    (column : Option Nat) (moveCursor : Bool) :
    (doc.applyColumn (above.length + 1) column moveCursor).2 =
      doc.style.outcomeOf line column := by
  cases column with
  | none => rfl
  | some width =>
      have hstart := Text.lineStart?_of_cutAtLine? (Text.cutAtLine?_of_lines h)
      simp only [applyColumn, setIndent, hstart, leadingOf_of_lines h, IndentStyle.outcomeOf]
      split <;> split <;> rfl

theorem applyColumn_of_reindented_eq (h : doc.text.lines = above ++ line :: below)
    {column : Option Nat} (hsame : doc.style.reindented line column = line) :
    (doc.applyColumn (above.length + 1) column false).1 = doc := by
  cases column with
  | none => rfl
  | some width =>
      have hstart := Text.lineStart?_of_cutAtLine? (Text.cutAtLine?_of_lines h)
      have hleading : line.leading = doc.style.write width := by
        rw [← doc.style.leading_reindented line width, hsame]
      simp only [applyColumn, setIndent, hstart, leadingOf_of_lines h, hleading, Bool.false_and,
        Bool.false_eq_true, ↓reduceIte]

theorem exists_indentInRegion_of_columnBelow (h : doc.text.lines = above ++ line :: below)
    {column : Option Nat} (hcolumn : columnBelow g doc.style above line = .ok column) :
    ∃ edited, doc.indentInRegion g (above.length + 1) =
        .ok (edited, doc.style.outcomeOf line column) ∧
      edited.text.lines = (above ++ [doc.style.reindented line column]) ++ below ∧
      edited.style = doc.style ∧
      (doc.style.reindented line column = line → edited = doc) := by
  refine ⟨(doc.applyColumn (above.length + 1) column false).1, ?_, ?_, ?_, ?_⟩
  · rw [indentInRegion_of_lines g h, hcolumn, ← outcome_applyColumn h column false]
  · rw [lines_applyColumn h column false, List.append_assoc]
    rfl
  · exact (doc.applyColumn_name_style (above.length + 1) column false).2
  · exact applyColumn_of_reindented_eq h

theorem columnBelow_of_indentInRegion (h : doc.text.lines = above ++ line :: below)
    {result : Document × IndentOutcome}
    (hok : doc.indentInRegion g (above.length + 1) = .ok result) :
    ∃ column, columnBelow g doc.style above line = .ok column := by
  cases hcolumn : columnBelow g doc.style above line with
  | error mismatch =>
      rw [indentInRegion_of_lines g h, hcolumn] at hok
      simp at hok
  | ok column => exact ⟨column, rfl⟩

/-- A run that succeeds takes the lines to what they become below the lines above them. -/
theorem exists_indents_of_indentLines (h : doc.text.lines = above ++ (old ++ below))
    {outcomes : List (Nat × IndentOutcome)}
    (hok : (doc.indentLines g (List.range' (above.length + 1) old.length)).2 = .ok outcomes) :
    ∃ new results, Indents g doc.style above old new results ∧
      (doc.indentLines g (List.range' (above.length + 1) old.length)).1.text.lines =
        above ++ (new ++ below) ∧
      (doc.indentLines g (List.range' (above.length + 1) old.length)).1.style = doc.style ∧
      outcomes = (List.range' (above.length + 1) old.length).zip results := by
  induction old generalizing doc above outcomes with
  | nil =>
      have hnil : ([] : List (Nat × IndentOutcome)) = outcomes := Except.ok.inj hok
      exact ⟨[], [], .nil above, h, rfl, by rw [← hnil]; rfl⟩
  | cons line old ih =>
      rw [List.cons_append] at h
      simp only [List.length_cons, List.range'_succ] at hok ⊢
      cases hregion : doc.indentInRegion g (above.length + 1) with
      | error e =>
          rw [indentLines, hregion] at hok
          simp at hok
      | ok result =>
          obtain ⟨column, hcolumn⟩ := columnBelow_of_indentInRegion h hregion
          obtain ⟨edited, hedited, hlines, hstyle, -⟩ :=
            exists_indentInRegion_of_columnBelow h hcolumn
          have hlength : (above ++ [doc.style.reindented line column]).length =
              above.length + 1 := by
            rw [List.length_append, List.length_singleton]
          rw [indentLines_cons_of_ok hedited] at hok ⊢
          rw [← hlength] at hok ⊢
          cases hlater : (edited.indentLines g (List.range'
              ((above ++ [doc.style.reindented line column]).length + 1) old.length)).2 with
          | error e =>
              rw [hlater] at hok
              simp [Except.map] at hok
          | ok later =>
              rw [hlater] at hok
              obtain ⟨new, results, hindents, hfinal, hfinalStyle, hresults⟩ := ih hlines hlater
              rw [hstyle] at hindents hfinalStyle
              refine ⟨doc.style.reindented line column :: new,
                doc.style.outcomeOf line column :: results, .cons hcolumn hindents, ?_,
                hfinalStyle, ?_⟩
              · rw [hfinal, List.append_assoc]
                rfl
              · rw [← Except.ok.inj hok, hresults]
                rfl

/-- Lines that become others below the lines above them are taken there by a run that succeeds. -/
theorem exists_indentLines_of_indents {new : List Text} {outcomes : List IndentOutcome}
    (h : doc.text.lines = above ++ (old ++ below))
    (hindents : Indents g doc.style above old new outcomes) :
    ∃ edited, doc.indentLines g (List.range' (above.length + 1) old.length) =
        (edited, .ok ((List.range' (above.length + 1) old.length).zip outcomes)) ∧
      edited.text.lines = above ++ (new ++ below) := by
  induction old generalizing doc above new outcomes with
  | nil =>
      cases hindents
      exact ⟨doc, rfl, h⟩
  | cons line old ih =>
      obtain ⟨column, more, later, hcolumn, rfl, rfl, hmore⟩ := hindents.exists_of_cons
      rw [List.cons_append] at h
      obtain ⟨edited, hedited, hlines, hstyle, -⟩ := exists_indentInRegion_of_columnBelow h hcolumn
      rw [← hstyle] at hmore
      obtain ⟨final, hrun, hfinal⟩ := ih (by rw [hlines, hstyle]) hmore
      have hlength : (above ++ [edited.style.reindented line column]).length =
          above.length + 1 := by
        rw [List.length_append, List.length_singleton]
      rw [hlength] at hrun
      refine ⟨final, ?_, ?_⟩
      · rw [List.length_cons, List.range'_succ, indentLines_cons_of_ok hedited, hrun]
        rfl
      · rw [hfinal, hstyle, List.append_assoc]
        rfl

theorem indentRegion_of_indents (doc : Document) {new : List Text} {outcomes : List IndentOutcome}
    (h : Indents g doc.style [] doc.text.lines new outcomes) :
    (doc.indentRegion g 1 doc.text.lineCount).1.text.lines = new ∧
      (doc.indentRegion g 1 doc.text.lineCount).2 =
        .ok ((List.range' 1 doc.text.lines.length).zip outcomes) := by
  have hlines : doc.text.lines = [] ++ (doc.text.lines ++ []) := by simp
  obtain ⟨edited, hrun, hedited⟩ := exists_indentLines_of_indents hlines h
  rw [List.nil_append, List.append_nil] at hedited
  rw [List.length_nil, Nat.zero_add] at hrun
  rw [indentRegion, regionLines_all, hrun]
  exact ⟨hedited, rfl⟩

theorem exists_lines_of_regionLines (doc : Document) (first last : Nat) :
    ∃ above old below, doc.text.lines = above ++ (old ++ below) ∧
      doc.regionLines first last = List.range' (above.length + 1) old.length := by
  have hregion : doc.regionLines first last =
      List.range' (max first 1) (min last doc.text.lines.length + 1 - max first 1) := by
    rw [regionLines, doc.text.lineCount_eq_length_lines]
  rw [hregion]
  generalize hstart : max first 1 = start
  generalize hcount : min last doc.text.lines.length + 1 - start = count
  have hpos : 1 ≤ start := by omega
  by_cases hzero : count = 0
  · refine ⟨doc.text.lines, [], [], by simp, ?_⟩
    rw [hzero]
    rfl
  · have hfit : start - 1 + count ≤ doc.text.lines.length := by omega
    refine ⟨doc.text.lines.take (start - 1), (doc.text.lines.drop (start - 1)).take count,
      (doc.text.lines.drop (start - 1)).drop count, ?_, ?_⟩
    · rw [List.take_append_drop, List.take_append_drop]
    · have habove : (doc.text.lines.take (start - 1)).length + 1 = start := by
        rw [List.length_take_of_le (by omega)]
        omega
      have hold : ((doc.text.lines.drop (start - 1)).take count).length = count := by
        rw [List.length_take_of_le]
        rw [List.length_drop]
        omega
      rw [habove, hold]

theorem regionLines_congr {doc' : Document}
    (h : doc.text.lines.length = doc'.text.lines.length) (first last : Nat) :
    doc.regionLines first last = doc'.regionLines first last := by
  rw [regionLines, regionLines, doc.text.lineCount_eq_length_lines,
    doc'.text.lineCount_eq_length_lines, h]

end Document

end MarkupLayout

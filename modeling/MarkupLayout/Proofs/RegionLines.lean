import Mathlib.Data.List.Basic
import Mathlib.Data.List.TakeWhile
import MarkupLayout.Document.Indent
import MarkupLayout.Proofs.WrittenIndentation
/-!
# Indenting line by line

The commands edit a text through byte offsets.  Seen as a list of lines, indenting a line
replaces that one line, by what the lines above it and its own content decide; the lines below
have no part in it.
-/

namespace MarkupLayout

/-! ## Edits at known places -/

theorem Text.cutSnapped_byteSize (s t : Text) : (s ++ t).cutSnapped s.byteSize = (s, t) := by
  induction s with
  | nil =>
      cases t with
      | nil => rfl
      | cons c t =>
          have hpos := c.utf8Size_pos
          rw [List.nil_append, byteSize_nil, cutSnapped, if_neg (by omega)]
  | cons c s ih =>
      rw [List.cons_append, byteSize_cons, cutSnapped, if_pos (by omega)]
      simp [ih]

theorem Text.snap_byteSize (s t : Text) : (s ++ t).snap s.byteSize = s.byteSize := by
  rw [← byteSize_cutSnapped, cutSnapped_byteSize]

theorem Document.text_replace (doc : Document) {before old behind : Text} (new : Text)
    (h : doc.text = before ++ (old ++ behind)) :
    (doc.replace before.byteSize (before.byteSize + old.byteSize) new).text =
      before ++ (new ++ behind) := by
  have hfirst : doc.text.snap before.byteSize = before.byteSize := by
    rw [h, Text.snap_byteSize]
  have hlast : doc.text.snap (before.byteSize + old.byteSize) =
      before.byteSize + old.byteSize := by
    rw [h, ← List.append_assoc, ← Text.byteSize_append, Text.snap_byteSize]
  have hbefore : doc.text.cutSnapped before.byteSize = (before, old ++ behind) := by
    rw [h, Text.cutSnapped_byteSize]
  have hbehind : doc.text.cutSnapped (before.byteSize + old.byteSize) =
      (before ++ old, behind) := by
    rw [h, ← List.append_assoc, ← Text.byteSize_append, Text.cutSnapped_byteSize]
  simp only [replace, hfirst, Nat.max_eq_left (Nat.le_add_right _ _), hlast, hbefore, hbehind,
    List.append_assoc]

/-! ## The content of a line -/

theorem Text.isBlank_of_isIndentChar {c : Char} (h : isIndentChar c = true) :
    Unicode.isBlank c = true := by
  simp only [isIndentChar, Bool.or_eq_true, beq_iff_eq] at h
  rcases h with rfl | rfl <;> decide

theorem Text.isBlank_dropWhile (t : Text) : isBlank (t.dropWhile isIndentChar) = t.isBlank := by
  induction t with
  | nil => rfl
  | cons c t ih =>
      rw [List.dropWhile_cons]
      split
      · rename_i hc
        rw [ih, isBlank, isBlank, List.all_cons, isBlank_of_isIndentChar hc, Bool.true_and]
      · rfl

theorem Text.stripReturn_dropWhile (t : Text) :
    (stripReturn t).dropWhile isIndentChar = stripReturn (t.dropWhile isIndentChar) := by
  induction t with
  | nil => rfl
  | cons c t ih =>
      by_cases ht : t = []
      · subst ht
        by_cases hc : c = '\r'
        · subst hc
          rfl
        · simp only [stripReturn, List.getLast?_singleton, Option.some.injEq, hc, ↓reduceIte,
            List.dropWhile_cons, List.dropWhile_nil]
          split <;> simp [hc]
      · rw [stripReturn_cons c ht, List.dropWhile_cons, List.dropWhile_cons]
        split
        · exact ih
        · exact (stripReturn_cons c ht).symm

theorem Text.exists_eq_stripReturn_append (t : Text) :
    ∃ ending, t = stripReturn t ++ ending ∧
      (ending = ['\r'] ∨ ending = [] ∧ (stripReturn t).getLast? ≠ some '\r') := by
  by_cases hlast : t.getLast? = some '\r'
  · refine ⟨['\r'], ?_, .inl rfl⟩
    rw [stripReturn, if_pos hlast]
    exact (List.dropLast_append_getLast? '\r' hlast).symm
  · refine ⟨[], ?_, .inr ⟨rfl, ?_⟩⟩
    · rw [stripReturn, if_neg hlast, List.append_nil]
    · rwa [stripReturn, if_neg hlast]

theorem Text.leading_stripReturn (t : Text) : (stripReturn t).leading = t.leading := by
  induction t with
  | nil => rfl
  | cons c t ih =>
      by_cases ht : t = []
      · subst ht
        by_cases hc : c = '\r'
        · subst hc
          rfl
        · simp [stripReturn, hc]
      · rw [stripReturn_cons c ht, leading, leading, List.takeWhile_cons, List.takeWhile_cons]
        split
        · exact congrArg (c :: ·) ih
        · rfl

theorem Text.exists_intercalate_cons (more : List Text) :
    ∃ tail : Text, (∀ line, ['\n'].intercalate (line :: more) = line ++ tail) ∧
      tail.takeWhile (· != '\n') = [] := by
  cases more with
  | nil => exact ⟨[], by simp⟩
  | cons next more =>
      refine ⟨'\n' :: ['\n'].intercalate (next :: more), fun line => ?_, by simp⟩
      simp

theorem Text.eq_lineFeed_of_takeWhile {below : Text} (h : below.takeWhile (· != '\n') = []) :
    ∀ c ∈ below.head?, c = '\n' := by
  intro c hc
  cases below with
  | nil => simp at hc
  | cons d below =>
      obtain rfl : d = c := by simpa using hc
      simpa [List.takeWhile_cons] using h

theorem Text.startsVisibly_of_takeWhile {below : Text} (h : below.takeWhile (· != '\n') = []) :
    below.StartsVisibly := by
  intro c hc
  rw [eq_lineFeed_of_takeWhile h c hc]
  rfl

theorem Text.exists_below (more : List Text) :
    ∃ below : Text, below.StartsVisibly ∧
      ∀ line, ['\n'].intercalate (line :: more) = line ++ below := by
  obtain ⟨below, hlines, hstop⟩ := exists_intercalate_cons more
  exact ⟨below, startsVisibly_of_takeWhile hstop, hlines⟩

theorem Text.mem_of_mem_lines {text line : Text} (h : line ∈ text.lines) {c : Char}
    (hc : c ∈ line) : c ∈ text := by
  obtain ⟨above, below, hlines⟩ := List.append_of_mem h
  obtain ⟨more, -, hmore⟩ := exists_below below
  rw [eq_wholeLines_append hlines, hmore]
  simp [hc]

theorem Text.firstLine_intercalate {line : Text} (h : '\n' ∉ line) (more : List Text) :
    firstLine (['\n'].intercalate (line :: more)) = stripReturn line := by
  obtain ⟨tail, htail, hstop⟩ := exists_intercalate_cons more
  rw [firstLine, htail, takeWhile_append_of_notMem h, hstop, List.append_nil]

/-- A line with an indentation of the given width, or as it is. -/
def IndentStyle.reindented (style : IndentStyle) (line : Text) : (column : Option Nat) → Text
  | none => line
  | some width => style.write width ++ line.dropWhile Text.isIndentChar

namespace Document

variable {doc : Document} {ls more : List Text} {line : Text}

theorem setIndent_name_style (doc : Document) (line width : Nat) (moveCursor : Bool) :
    (doc.setIndent line width moveCursor).1.name = doc.name ∧
      (doc.setIndent line width moveCursor).1.style = doc.style := by
  unfold setIndent
  split
  · exact ⟨rfl, rfl⟩
  · simp only
    split <;> split <;> exact ⟨rfl, rfl⟩

/-- Indenting a line replaces this line and no other. -/
theorem lines_setIndent (h : doc.text.lines = ls ++ line :: more) (width : Nat)
    (moveCursor : Bool) :
    (doc.setIndent (ls.length + 1) width moveCursor).1.text.lines =
      ls ++ doc.style.reindented line (some width) :: more := by
  obtain ⟨tail, htail, -⟩ := Text.exists_intercalate_cons more
  have htext : doc.text = Text.wholeLines ls ++
      (line.leading ++ (line.dropWhile Text.isIndentChar ++ tail)) := by
    rw [Text.eq_wholeLines_append h, htail, ← List.append_assoc line.leading, Text.leading_append]
  have hstart := Text.lineStart?_of_cutAtLine? (Text.cutAtLine?_of_lines h)
  have hlead : doc.leadingOf (ls.length + 1) = line.leading := by
    rw [leadingOf, Text.lineText?_of_lines h]
    exact Text.leading_stripReturn line
  have hedited : (doc.setIndent (ls.length + 1) width moveCursor).1.text =
      ['\n'].intercalate (ls ++ doc.style.reindented line (some width) :: more) := by
    have hwanted : ['\n'].intercalate (ls ++ doc.style.reindented line (some width) :: more) =
        Text.wholeLines ls ++
          (doc.style.write width ++ (line.dropWhile Text.isIndentChar ++ tail)) := by
      rw [Text.intercalate_append_cons, htail, IndentStyle.reindented, List.append_assoc]
    rw [hwanted]
    simp only [setIndent, hstart, hlead]
    by_cases heq : line.leading = doc.style.write width
    · rw [if_pos heq, ← heq]
      split <;> exact htext
    · rw [if_neg heq]
      split <;> exact doc.text_replace _ htext
  rw [hedited]
  apply Text.lines_intercalate (by simp)
  have hold (first : Text) (hfirst : first ∈ ls ++ line :: more) : '\n' ∉ first :=
    Text.lineFeed_notMem_of_mem_lines (t := doc.text) (by rw [h]; exact hfirst)
  intro first hfirst
  rcases List.mem_append.mp hfirst with hfirst | hfirst
  · exact hold first (by simp [hfirst])
  · rcases List.mem_cons.mp hfirst with rfl | hfirst
    · have hline := hold line (by simp)
      simp only [IndentStyle.reindented, List.mem_append, not_or]
      exact ⟨doc.style.lineFeed_notMem_write width,
        fun hmem => hline ((List.dropWhile_suffix _).subset hmem)⟩
    · exact hold first (by simp [hfirst])

end Document

/-! ## The column of a line below other lines -/

/-- The column of a line in a region, from the lines above it.  Blank lines and the first line go
to the first column. -/
def Indentation.columnBelow (g : Grammar) (style : IndentStyle) (ls : List Text) (line : Text) :
    Except Nesting.Mismatch (Option Nat) :=
  if (Text.stripReturn line).isBlank || ls.isEmpty then .ok (some 0)
  else column g style (Text.wholeLines ls) (g.sigilLine.occursIn (Text.stripReturn line))

namespace Document

variable {doc : Document} {ls more : List Text} {line : Text}

theorem indentationColumnOf_of_lines (g : Grammar) (h : doc.text.lines = ls ++ line :: more) :
    Indentation.columnOf g doc.style doc.text (ls.length + 1) =
      if ls.isEmpty then .ok (some 0)
      else Indentation.column g doc.style (Text.wholeLines ls)
        (g.sigilLine.occursIn (Text.stripReturn line)) := by
  have hline : '\n' ∉ line := Text.lineFeed_notMem_of_mem_lines (t := doc.text) (by simp [h])
  rw [Indentation.columnOf, Text.cutAtLine?_of_lines h]
  cases ls with
  | nil => rfl
  | cons first ls =>
      rw [if_neg (by simp)]
      simp only [Text.firstLine_intercalate hline]
      rfl

theorem indentInRegion_of_lines (g : Grammar) (h : doc.text.lines = ls ++ line :: more) :
    doc.indentInRegion g (ls.length + 1) =
      match Indentation.columnBelow g doc.style ls line with
      | .error mismatch => .error ⟨doc.name, mismatch.line, mismatch.token⟩
      | .ok column => .ok (doc.applyColumn (ls.length + 1) column false) := by
  have hblank : doc.isBlankLine (ls.length + 1) = (Text.stripReturn line).isBlank := by
    rw [isBlankLine, Text.lineText?_of_lines h]
    rfl
  unfold indentInRegion Indentation.columnBelow
  rw [hblank]
  cases hline : (Text.stripReturn line).isBlank with
  | true => rfl
  | false =>
      simp only [columnOf, indentationColumnOf_of_lines g h, Bool.false_or, Bool.false_eq_true,
        ↓reduceIte]
      cases ls.isEmpty with
      | true => rfl
      | false =>
          simp only [Bool.false_eq_true, ↓reduceIte]
          cases Indentation.column g doc.style (Text.wholeLines ls)
            (g.sigilLine.occursIn (Text.stripReturn line)) <;> rfl

theorem lines_applyColumn (h : doc.text.lines = ls ++ line :: more) (column : Option Nat)
    (moveCursor : Bool) :
    (doc.applyColumn (ls.length + 1) column moveCursor).1.text.lines =
      ls ++ doc.style.reindented line column :: more := by
  cases column with
  | none => exact h
  | some width => exact lines_setIndent h width moveCursor

theorem applyColumn_name_style (doc : Document) (line : Nat) (column : Option Nat)
    (moveCursor : Bool) :
    (doc.applyColumn line column moveCursor).1.name = doc.name ∧
      (doc.applyColumn line column moveCursor).1.style = doc.style := by
  cases column with
  | none => exact ⟨rfl, rfl⟩
  | some width => exact doc.setIndent_name_style line width moveCursor

theorem applyColumn_suppressed_iff (doc : Document) (line : Nat) (column : Option Nat)
    (moveCursor : Bool) :
    (doc.applyColumn line column moveCursor).2 = .suppressed ↔ column = none := by
  cases column with
  | none => simp [applyColumn]
  | some width =>
      simp only [applyColumn, setIndent, reduceCtorEq, iff_false]
      split
      · simp
      · split <;> split <;> simp

theorem exists_indentInRegion_of_ok {g : Grammar} (h : doc.text.lines = ls ++ line :: more)
    {column : Option Nat} (hcolumn : Indentation.columnBelow g doc.style ls line = .ok column) :
    ∃ edited outcome, doc.indentInRegion g (ls.length + 1) = .ok (edited, outcome) ∧
      edited.text.lines = (ls ++ [doc.style.reindented line column]) ++ more ∧
      edited.name = doc.name ∧ edited.style = doc.style ∧
      (outcome = .suppressed ↔ column = none) := by
  obtain ⟨hname, hstyle⟩ := doc.applyColumn_name_style (ls.length + 1) column false
  refine ⟨(doc.applyColumn (ls.length + 1) column false).1,
    (doc.applyColumn (ls.length + 1) column false).2, ?_, ?_, hname, hstyle,
    doc.applyColumn_suppressed_iff (ls.length + 1) column false⟩
  · rw [indentInRegion_of_lines g h, hcolumn]
  · rw [lines_applyColumn h column false, List.append_assoc]
    rfl

end Document

end MarkupLayout

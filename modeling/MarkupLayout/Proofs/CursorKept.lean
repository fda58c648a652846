import MarkupLayout.Proofs.CheckedEdits
import MarkupLayout.Proofs.IndentFrame
/-!
# The cursor stays on its text

Indenting writes in front of the text of a line, so a cursor in that text moves along with it:
whichever lines are written, it stays on its line and behind the same characters.  `CursorOn` says
where the cursor is in terms of lines; one line keeps it, and so does a run.
-/

namespace MarkupLayout

theorem append_cons_cases {α : Type} {a b : α} {l l' r r' : List α}
    (h : l ++ a :: r = l' ++ b :: r') :
    (l = l' ∧ a = b ∧ r = r') ∨ (∃ mid, l' = l ++ a :: mid ∧ r = mid ++ b :: r') ∨
      ∃ mid, l = l' ++ b :: mid ∧ r' = mid ++ a :: r := by
  rcases List.append_eq_append_iff.mp h with ⟨mid, hl, hr⟩ | ⟨mid, hl, hr⟩
  · cases mid with
    | nil =>
        obtain ⟨rfl, rfl⟩ := List.cons.inj hr
        exact .inl ⟨by simpa using hl.symm, rfl, rfl⟩
    | cons c mid =>
        obtain ⟨rfl, rfl⟩ := List.cons.inj hr
        exact .inr (.inl ⟨mid, hl, rfl⟩)
  · cases mid with
    | nil =>
        obtain ⟨rfl, rfl⟩ := List.cons.inj hr
        exact .inl ⟨by simpa using hl, rfl, rfl⟩
    | cons c mid =>
        obtain ⟨rfl, rfl⟩ := List.cons.inj hr
        exact .inr (.inr ⟨mid, hl, rfl⟩)

namespace Text

variable {t content : Text} {above below : List Text}

theorem exists_split_of_lines (h : t.lines = above ++ content :: below) :
    ∃ tail : Text, t = (wholeLines above ++ content.leading) ++
        (content.dropWhile isIndentChar ++ tail) ∧ tail.takeWhile (· != '\n') = [] := by
  obtain ⟨tail, htail, hstop⟩ := exists_intercalate_cons below
  refine ⟨tail, ?_, hstop⟩
  rw [eq_wholeLines_append h, htail]
  nth_rewrite 1 [← leading_append content]
  simp only [List.append_assoc]

theorem count_of_lines (h : t.lines = above ++ content :: below) :
    (wholeLines above ++ content.leading).count '\n' = above.length := by
  have habove : ∀ line ∈ above, '\n' ∉ line := fun line hmem =>
    lineFeed_notMem_of_mem_lines (t := t) (by simp [h, hmem])
  rw [List.count_append, count_wholeLines habove,
    count_of_isIndentChar content.all_isIndentChar_leading, Nat.add_zero]

end Text

namespace Document

/-- The cursor is on a line, so many bytes behind the end of the spaces and tabs at its start. -/
structure CursorBehindIndent (doc : Document) (line distance : Nat) : Prop where
  line_eq : doc.currentLine = line
  cursor_eq : ∃ start, doc.text.lineStart? line = some start ∧
    doc.cursor = start + (doc.leadingOf line).byteSize + distance

/-- The cursor is on the line `content`, behind its indentation and the text `passed`. -/
structure CursorOn (doc : Document) (above : List Text) (content : Text) (below : List Text)
    (passed : Text) : Prop where
  lines_eq : doc.text.lines = above ++ content :: below
  passed_prefix : passed <+: content.dropWhile Text.isIndentChar
  cursor_eq : doc.cursor = Text.byteSize (Text.wholeLines above ++ (content.leading ++ passed))

variable {doc : Document} {above below ls more : List Text} {content line passed : Text}
  {n width : Nat}

/-! ## Where the cursor is -/

theorem cursorOn_iff (hlines : doc.text.lines = above ++ content :: below) :
    doc.CursorOn above content below passed ↔ ∃ kept,
      doc.text = (Text.wholeLines above ++ (content.leading ++ passed)) ++ kept ∧
      '\n' ∉ passed ∧
      doc.cursor = Text.byteSize (Text.wholeLines above ++ (content.leading ++ passed)) := by
  obtain ⟨tail, htext, hstop⟩ := Text.exists_split_of_lines hlines
  have hcontent : '\n' ∉ content :=
    Text.lineFeed_notMem_of_mem_lines (t := doc.text) (by simp [hlines])
  constructor
  · rintro ⟨-, ⟨rest, hrest⟩, hcursor⟩
    refine ⟨rest ++ tail, ?_, fun hmem => hcontent ?_, hcursor⟩
    · rw [htext, ← hrest]
      simp only [List.append_assoc]
    · exact (List.dropWhile_suffix _).subset (hrest ▸ List.mem_append_left rest hmem)
  · rintro ⟨kept, hsplit, hpassed, hcursor⟩
    refine ⟨hlines, ?_, hcursor⟩
    have hboth : passed ++ kept = content.dropWhile Text.isIndentChar ++ tail := by
      rw [← List.append_cancel_left_eq (Text.wholeLines above ++ content.leading), ← htext, hsplit]
      simp only [List.append_assoc]
    -- The line ends before a line feed, which has not been passed.
    rcases List.append_eq_append_iff.mp hboth with ⟨rest, hrest, -⟩ | ⟨rest, hrest, hstart⟩
    · exact ⟨rest, hrest.symm⟩
    · cases rest with
      | nil => exact ⟨[], by simpa using hrest⟩
      | cons c rest =>
          rw [hstart, List.cons_append, List.takeWhile_cons] at hstop
          obtain rfl : c = '\n' := by simpa using hstop
          exact absurd (hrest ▸ by simp) hpassed

theorem CursorOn.currentLine_eq (h : doc.CursorOn above content below passed) :
    doc.currentLine = above.length + 1 := by
  obtain ⟨kept, htext, hpassed, hcursor⟩ := (cursorOn_iff h.lines_eq).mp h
  have hcount : Text.lastLine (Text.wholeLines above ++ (content.leading ++ passed)) =
      above.length + 1 := by
    rw [Text.lastLine, ← List.append_assoc, List.count_append,
      Text.count_of_lines h.lines_eq, List.count_eq_zero.mpr hpassed, Nat.add_comm]
  rw [currentLine, lineAt, hcursor, htext, Text.snap_byteSize, Text.lineAt_append, hcount]

theorem CursorOn.cursorBehindIndent (h : doc.CursorOn above content below passed) :
    doc.CursorBehindIndent (above.length + 1) passed.byteSize := by
  refine ⟨h.currentLine_eq, _, Text.lineStart?_of_cutAtLine? (Text.cutAtLine?_of_lines h.lines_eq),
    ?_⟩
  rw [leadingOf_of_lines h.lines_eq, h.cursor_eq]
  simp only [Text.byteSize_append, Nat.add_assoc]

theorem exists_lines_currentLine (doc : Document) :
    ∃ ls content more, doc.text.lines = ls ++ content :: more ∧
      doc.currentLine = ls.length + 1 ∧
      doc.text.lineStart? doc.currentLine = some (Text.wholeLines ls).byteSize ∧
      (Text.wholeLines ls).byteSize ≤ doc.cursor := by
  obtain ⟨start, hstart, hle⟩ := doc.exists_lineStart?_lineAt doc.cursor
  obtain ⟨ls, content, more, hlines, hline, rfl⟩ := Text.exists_lines_of_lineStart? hstart
  exact ⟨ls, content, more, hlines, hline, hstart, hle⟩

theorem exists_cursorOn (hboundary : doc.text.isBoundary doc.cursor = true) {distance : Nat}
    (h : doc.CursorBehindIndent doc.currentLine distance) :
    ∃ above content below passed, doc.CursorOn above content below passed ∧
      doc.currentLine = above.length + 1 ∧ distance = passed.byteSize := by
  obtain ⟨above, content, below, hlines, hline, hstart, -⟩ := doc.exists_lines_currentLine
  obtain ⟨-, start, hstart', hcursor⟩ := h
  obtain rfl : (Text.wholeLines above).byteSize = start := by simpa [hstart] using hstart'
  rw [hline, leadingOf_of_lines hlines] at hcursor
  obtain ⟨before, behind, hsplit, hsize⟩ := Text.isBoundary_iff.mp hboundary
  -- The line up to the end of its indentation stands before the cursor.
  obtain ⟨tail, htext, -⟩ := Text.exists_split_of_lines hlines
  obtain ⟨passed, rfl, -⟩ := Text.exists_eq_append_of_byteSize_le (htext.symm.trans hsplit)
    (by rw [hsize, hcursor, Text.byteSize_append]; omega)
  have hpassed : '\n' ∉ passed := by
    have hcount := Text.lineAt_append (Text.wholeLines above ++ content.leading ++ passed) behind
    rw [← hsplit, hsize, Text.lastLine, List.count_append, Text.count_of_lines hlines] at hcount
    rw [currentLine, lineAt, Text.snap_of_isBoundary hboundary] at hline
    rw [← List.count_eq_zero]
    omega
  refine ⟨above, content, below, passed, (cursorOn_iff hlines).mpr ⟨behind, ?_, hpassed, ?_⟩,
    hline, ?_⟩
  · rw [hsplit, List.append_assoc _ content.leading]
  · rw [← hsize, List.append_assoc]
  · simp only [Text.byteSize_append] at hsize
    omega

/-! ## One line -/

theorem cursor_replace_of_lt {before inside behind kept : Text}
    (htext : doc.text = (passed ++ kept) ++ (inside ++ behind)) (hkept : kept ≠ [])
    (hbefore : before = passed ++ kept) (hcursor : doc.cursor = passed.byteSize) (new : Text) :
    (doc.replace before.byteSize (before.byteSize + inside.byteSize) new).cursor =
      doc.cursor := by
  subst hbefore
  have hpos := List.length_pos_iff.mpr hkept
  have hsize := kept.length_le_byteSize
  have hfirst : doc.text.snap (passed ++ kept).byteSize = (passed ++ kept).byteSize := by
    rw [htext, Text.snap_byteSize]
  have hlast : doc.text.snap ((passed ++ kept).byteSize + inside.byteSize) =
      (passed ++ kept).byteSize + inside.byteSize := by
    rw [htext, ← List.append_assoc, ← Text.byteSize_append, Text.snap_byteSize]
  have hmoved : movedCursor doc.cursor (passed ++ kept).byteSize
      ((passed ++ kept).byteSize + inside.byteSize) new.byteSize = passed.byteSize := by
    rw [Text.byteSize_append, movedCursor, if_neg (by omega), if_neg (by omega), hcursor]
  have hdefinition : (doc.replace (passed ++ kept).byteSize
      ((passed ++ kept).byteSize + inside.byteSize) new).cursor =
      (doc.replace (passed ++ kept).byteSize
        ((passed ++ kept).byteSize + inside.byteSize) new).text.snap passed.byteSize := by
    simp only [replace, hfirst, Nat.max_eq_left (Nat.le_add_right _ _), hlast, hmoved]
  rw [hdefinition, doc.text_replace new htext, List.append_assoc, Text.snap_byteSize, hcursor]

theorem cursor_setIndent (hlines : doc.text.lines = ls ++ line :: more) (width : Nat) :
    (doc.setIndent (ls.length + 1) width false).1.cursor =
      if line.leading = doc.style.write width then doc.cursor
      else (doc.replace (Text.wholeLines ls).byteSize
        ((Text.wholeLines ls).byteSize + line.leading.byteSize)
        (doc.style.write width)).cursor := by
  have hstart := Text.lineStart?_of_cutAtLine? (Text.cutAtLine?_of_lines hlines)
  simp only [setIndent, hstart, leadingOf_of_lines hlines, Bool.false_and, Bool.false_eq_true,
    ↓reduceIte]
  split <;> rfl

theorem cursor_setIndent_of_behind (hlines : doc.text.lines = ls ++ line :: more)
    (passed kept : Text)
    (htext : doc.text = Text.wholeLines ls ++ (line.leading ++ (passed ++ kept)))
    (hcursor : doc.cursor = Text.byteSize (Text.wholeLines ls ++ line.leading ++ passed)) :
    (doc.setIndent (ls.length + 1) width false).1.cursor =
      Text.byteSize (Text.wholeLines ls ++ doc.style.write width ++ passed) := by
  have hfirst : doc.text.snap (Text.wholeLines ls).byteSize = (Text.wholeLines ls).byteSize := by
    rw [htext, Text.snap_byteSize]
  have hlast : doc.text.snap ((Text.wholeLines ls).byteSize + line.leading.byteSize) =
      (Text.wholeLines ls).byteSize + line.leading.byteSize := by
    rw [htext, ← List.append_assoc, ← Text.byteSize_append, Text.snap_byteSize]
  rw [cursor_setIndent hlines]
  split
  · rename_i hsame
    rw [hcursor, hsame]
  · apply doc.cursor_replace_of_parts htext hfirst _ hcursor
    rw [hfirst, Nat.max_eq_left (Nat.le_add_right _ _), hlast]

theorem cursor_setIndent_of_lt (hlines : doc.text.lines = ls ++ line :: more) (kept : Text)
    (hbefore : Text.wholeLines ls = passed ++ kept) (hkept : kept ≠ [])
    (hcursor : doc.cursor = passed.byteSize) :
    (doc.setIndent (ls.length + 1) width false).1.cursor = doc.cursor := by
  obtain ⟨tail, htail, -⟩ := Text.exists_intercalate_cons more
  have htext : doc.text = (passed ++ kept) ++
      (line.leading ++ (line.dropWhile Text.isIndentChar ++ tail)) := by
    rw [Text.eq_wholeLines_append hlines, htail, hbefore, ← List.append_assoc line.leading,
      Text.leading_append]
  rw [cursor_setIndent hlines]
  split
  · rfl
  · exact cursor_replace_of_lt htext hkept hbefore hcursor _

theorem CursorOn.exists_setIndent (h : doc.CursorOn above content below passed)
    (hlines : doc.text.lines = ls ++ line :: more) (width : Nat) :
    ∃ above' content' below', above'.length = above.length ∧
      (doc.setIndent (ls.length + 1) width false).1.CursorOn above' content' below' passed := by
  obtain ⟨kept, htext, hpassed, hcursor⟩ := (cursorOn_iff h.lines_eq).mp h
  have hedited := lines_setIndent hlines width false
  rcases append_cons_cases (hlines.symm.trans h.lines_eq) with
    ⟨rfl, rfl, rfl⟩ | ⟨mid, rfl, rfl⟩ | ⟨mid, rfl, rfl⟩
  · -- The line of the cursor is written.
    refine ⟨ls, doc.style.reindented line (some width), more, rfl, hedited, ?_, ?_⟩
    · rw [IndentStyle.dropWhile_reindented]
      exact h.passed_prefix
    · rw [cursor_setIndent_of_behind hlines passed kept (by simpa using htext)
        (by simpa using hcursor), IndentStyle.leading_reindented, List.append_assoc]
  · -- A line above is written.
    refine ⟨ls ++ doc.style.reindented line (some width) :: mid, content, below, by simp,
      by rw [hedited]; simp, h.passed_prefix, ?_⟩
    have hsplit := Text.leading_append line
    rw [cursor_setIndent_of_behind hlines (line.dropWhile Text.isIndentChar ++
      '\n' :: Text.wholeLines mid ++ (content.leading ++ passed)) kept]
    · simp [Text.wholeLines_append, IndentStyle.reindented]
    · rw [htext]
      nth_rewrite 1 [← hsplit]
      simp [Text.wholeLines_append]
    · rw [hcursor]
      nth_rewrite 1 [← hsplit]
      simp [Text.wholeLines_append]
  · -- A line below is written.
    refine ⟨above, content, mid ++ doc.style.reindented line (some width) :: more, rfl,
      by rw [hedited]; simp, h.passed_prefix, ?_⟩
    obtain ⟨rest, hrest⟩ := h.passed_prefix
    rw [cursor_setIndent_of_lt hlines (rest ++ '\n' :: Text.wholeLines mid) _
      (by simp) hcursor, hcursor]
    nth_rewrite 1 [← Text.leading_append content, ← hrest]
    simp [Text.wholeLines_append]

theorem CursorOn.exists_applyColumn (h : doc.CursorOn above content below passed) (n : Nat)
    (column : Option Nat) :
    ∃ above' content' below', above'.length = above.length ∧
      (doc.applyColumn n column false).1.CursorOn above' content' below' passed := by
  rcases doc.exists_lines_of_line n with hnone | ⟨ls, line, more, hlines, rfl⟩
  · obtain ⟨_, heq, -⟩ := exists_outcome_of_lineStart?_eq_none hnone column false
    exact ⟨above, content, below, rfl, by rwa [heq]⟩
  · cases column with
    | none => exact ⟨above, content, below, rfl, h⟩
    | some width => exact h.exists_setIndent hlines width

/-! ## A run over lines -/

theorem CursorOn.exists_indentLines (h : doc.CursorOn above content below passed) (g : Grammar)
    (todo : List Nat) :
    ∃ above' content' below', above'.length = above.length ∧
      (doc.indentLines g todo).1.CursorOn above' content' below' passed := by
  induction todo generalizing doc above content below with
  | nil => exact ⟨above, content, below, rfl, h⟩
  | cons n todo ih =>
      cases hline : doc.indentInRegion g n with
      | error e =>
          rw [indentLines, hline]
          exact ⟨above, content, below, rfl, h⟩
      | ok result =>
          obtain ⟨column, hcolumn⟩ := exists_applyColumn_of_indentInRegion hline
          obtain ⟨above', content', below', hlength, hfirst⟩ := h.exists_applyColumn n column
          rw [hcolumn] at hfirst
          rw [indentLines_cons_of_ok hline]
          obtain ⟨above'', content'', below'', hlength', hlast⟩ := ih hfirst
          exact ⟨above'', content'', below'', hlength'.trans hlength, hlast⟩

/-! ## The line of the cursor -/

theorem cursorOn_setIndent_of_le (hlines : doc.text.lines = ls ++ line :: more) (width : Nat)
    (hstart : (Text.wholeLines ls).byteSize ≤ doc.cursor)
    (hstop : doc.cursor ≤ (Text.wholeLines ls).byteSize + line.leading.byteSize) :
    (doc.setIndent (ls.length + 1) width true).1.CursorOn ls
      (doc.style.reindented line (some width)) more [] := by
  have hedited := lines_setIndent hlines width true
  have hline := Text.lineStart?_of_cutAtLine? (Text.cutAtLine?_of_lines hlines)
  obtain ⟨tail, htail, -⟩ := Text.exists_intercalate_cons more
  have hcursor : (doc.setIndent (ls.length + 1) width true).1.cursor =
      (doc.setIndent (ls.length + 1) width true).1.text.snap
        ((Text.wholeLines ls).byteSize + (doc.style.write width).byteSize) := by
    simp only [setIndent, hline, leadingOf_of_lines hlines, hstart, hstop, and_self, decide_true,
      Bool.true_and, ↓reduceIte]
    split <;> rfl
  refine ⟨hedited, List.nil_prefix, ?_⟩
  have htext : (doc.setIndent (ls.length + 1) width true).1.text =
      (Text.wholeLines ls ++ doc.style.write width) ++
        (line.dropWhile Text.isIndentChar ++ tail) := by
    rw [Text.eq_wholeLines_append hedited, htail, IndentStyle.reindented]
    simp only [List.append_assoc]
  rw [hcursor, htext, ← Text.byteSize_append, Text.snap_byteSize, List.append_nil,
    IndentStyle.leading_reindented]

theorem setIndent_eq_of_lt (hlines : doc.text.lines = ls ++ line :: more)
    (hstop : (Text.wholeLines ls).byteSize + line.leading.byteSize < doc.cursor) :
    doc.setIndent (ls.length + 1) width true = doc.setIndent (ls.length + 1) width false := by
  have hline := Text.lineStart?_of_cutAtLine? (Text.cutAtLine?_of_lines hlines)
  have hout : ¬doc.cursor ≤ (Text.wholeLines ls).byteSize + line.leading.byteSize := by omega
  simp only [setIndent, hline, leadingOf_of_lines hlines, hout, and_false, decide_false,
    Bool.and_false, Bool.false_eq_true, ↓reduceIte]

theorem CursorOn.exists_indentLine (h : doc.CursorOn above content below passed)
    {edited : Document} {outcome : IndentOutcome} {g : Grammar}
    (hok : doc.indentLine g = .ok (edited, outcome)) :
    ∃ above' content' below', above'.length = above.length ∧
      edited.CursorOn above' content' below' passed := by
  obtain ⟨column, hcolumn⟩ := exists_applyColumn_of_indentLine hok
  rw [h.currentLine_eq] at hcolumn
  cases column with
  | none =>
      obtain ⟨rfl, -⟩ := Prod.mk.inj hcolumn
      exact ⟨above, content, below, rfl, h⟩
  | some width =>
      have hcursor := h.cursor_eq
      simp only [Text.byteSize_append] at hcursor
      by_cases hpassed : passed = []
      · subst hpassed
        have hmoved := cursorOn_setIndent_of_le h.lines_eq width
          (by omega) (by simp at hcursor; omega)
        rw [applyColumn] at hcolumn
        rw [hcolumn] at hmoved
        exact ⟨_, _, _, rfl, hmoved⟩
      · have hpos := List.length_pos_iff.mpr hpassed
        have hsize := passed.length_le_byteSize
        have hkept := h.exists_setIndent h.lines_eq width
        rw [applyColumn, setIndent_eq_of_lt h.lines_eq (by omega)] at hcolumn
        rwa [hcolumn] at hkept

/-- Where the cursor of a document is on a character boundary, indenting keeps it on its text.
Behind the indentation of its line it stays on the line, at the same distance from the indentation,
whichever lines are indented and whether all of them are.  In the indentation of its line, or at one
of its ends, indenting that line takes it to the end of the new indentation. -/
theorem indent_keeps_cursor (g : Grammar) (doc : Document)
    (hboundary : doc.text.isBoundary doc.cursor = true) :
    (∀ distance, doc.CursorBehindIndent doc.currentLine distance →
      (∀ first last, (doc.indentRegion g first last).1.CursorBehindIndent doc.currentLine
        distance) ∧
      (doc.perform g .indentLine).1.CursorBehindIndent doc.currentLine distance) ∧
    ∀ edited outcome start, doc.indentLine g = .ok (edited, outcome) → outcome ≠ .suppressed →
      doc.text.lineStart? doc.currentLine = some start →
      doc.cursor ≤ start + (doc.leadingOf doc.currentLine).byteSize →
      edited.CursorBehindIndent doc.currentLine 0 := by
  constructor
  · intro distance h
    obtain ⟨above, content, below, passed, hon, hline, rfl⟩ := exists_cursorOn hboundary h
    rw [hline] at h ⊢
    constructor
    · intro first last
      obtain ⟨above', content', below', hlength, hkept⟩ :=
        hon.exists_indentLines g (doc.regionLines first last)
      rw [← hlength]
      exact hkept.cursorBehindIndent
    · rw [perform]
      cases hok : doc.indentLine g with
      | error e => exact h
      | ok result =>
          obtain ⟨above', content', below', hlength, hkept⟩ := hon.exists_indentLine hok
          rw [← hlength]
          exact hkept.cursorBehindIndent
  · intro edited outcome start hok houtcome hstart hle
    obtain ⟨column, hcolumn⟩ := exists_applyColumn_of_indentLine hok
    obtain ⟨ls, line, more, hlines, hline, hstart', hcursor⟩ := doc.exists_lines_currentLine
    obtain rfl : (Text.wholeLines ls).byteSize = start := by simpa [hstart] using hstart'.symm
    rw [hline] at hcolumn hle ⊢
    rw [leadingOf_of_lines hlines] at hle
    cases column with
    | none => exact absurd (Prod.mk.inj hcolumn).2.symm houtcome
    | some width =>
        have hmoved := cursorOn_setIndent_of_le hlines width hcursor hle
        rw [applyColumn] at hcolumn
        rw [hcolumn] at hmoved
        exact hmoved.cursorBehindIndent

theorem indent_keeps_cursor_below_item :
    let doc := (ofText "a" "* a\n\t  bcd".toList .default).setCursor 8
    let edited : Document := ⟨"a", "* a\n  bcd".toList, 6, .default⟩
    (doc.indentRegion .markdown 1 9).1.CursorBehindIndent 2 1 ∧
      (doc.setCursor 5).indentLine .markdown = .ok (edited, .reindented 10 2) ∧
      edited.CursorBehindIndent 2 0 := by
  intro doc edited
  obtain ⟨hbehind, -⟩ := indent_keeps_cursor .markdown doc (by decide)
  obtain ⟨-, hinside⟩ := indent_keeps_cursor .markdown (doc.setCursor 5) (by decide)
  have hok : (doc.setCursor 5).indentLine .markdown = .ok (edited, .reindented 10 2) := by
    decide +kernel
  exact ⟨(hbehind 1 ⟨rfl, 4, by decide, by decide⟩).1 1 9, hok,
    hinside edited (.reindented 10 2) 4 hok (by decide) (by decide) (by decide)⟩

end Document

end MarkupLayout

import MarkupLayout.Proofs.CursorKept
/-!
# Excursions and the line of the cursor

An excursion keeps the number of the cursor's line and the column in bytes.  This module says what
that is worth when the actions in between edit other lines only.  `KeepsLine` describes such runs:
every replacement is above the line or below it and leaves it a line.  Then the line is found again
exactly if it has its old number, which edits below it, and edits above it that add as many line
feeds as they remove, do not change.
-/

namespace MarkupLayout

namespace Text

variable {s t content feed below : Text} {ls more : List Text} {k : Nat}

/-! ## Snapping to a boundary -/

theorem snap_append_left (h : k ≤ byteSize s) (t : Text) : (s ++ t).snap k = s.snap k := by
  induction s generalizing k with
  | nil =>
      obtain rfl : k = 0 := Nat.le_zero.mp h
      exact Nat.le_zero.mp (snap_le _ 0)
  | cons c s ih =>
      rw [byteSize_cons] at h
      rw [List.cons_append, snap, snap]
      split
      · rw [ih (by omega)]
      · rfl

theorem snap_append_right (s t : Text) (k : Nat) :
    (s ++ t).snap (s.byteSize + k) = s.byteSize + t.snap k := by
  induction s with
  | nil => simp
  | cons c s ih =>
      have hrest : c.utf8Size + byteSize s + k - c.utf8Size = byteSize s + k := by omega
      rw [byteSize_cons, List.cons_append, snap, if_pos (by omega), hrest, ih, Nat.add_assoc]

theorem snap_min_byteSize (t : Text) (k : Nat) : t.snap (min k t.byteSize) = t.snap k := by
  have hle := snap_le t k
  have hsize := snap_le_byteSize t k
  exact (snap_eq_of_le (Nat.min_le_left _ _) (by omega)).symm

theorem snap_of_byteSize_le (h : t.byteSize ≤ k) : t.snap k = t.byteSize := by
  have hend := snap_byteSize t []
  rw [List.append_nil] at hend
  rw [← snap_min_byteSize, Nat.min_eq_right h, hend]

/-! ## A line and its surroundings -/

/-- A line of a text between the text above it and the text below it.  `content` goes up to the line
feed, which only the last line lacks. -/
structure HasLine (t above content feed below : Text) : Prop where
  text_eq : t = above ++ (content ++ (feed ++ below))
  isWhole_above : above.IsWhole
  lineFeed_notMem : '\n' ∉ content
  feed_eq : feed = ['\n'] ∨ feed = [] ∧ below = []

theorem stripReturn_drop_stripReturn (t : Text) :
    stripReturn (t.drop (stripReturn t).length) = [] := by
  unfold stripReturn
  split
  · rename_i hlast
    obtain ⟨body, rfl⟩ := List.getLast?_eq_some_iff.mp hlast
    simp
  · simp

theorem lineCount_eq_lastLine (t : Text) : t.lineCount = t.lastLine := by
  rw [lineCount, lineStarts, List.length_cons, length_laterStarts_eq_count, lastLine, Nat.add_comm]

theorem HasLine.exists_lines {above : Text} (h : t.HasLine above content feed below) :
    ∃ ls more, t.lines = ls ++ content :: more ∧ above = wholeLines ls ∧
      above.lastLine = ls.length + 1 := by
  have hcut := cutAtLine?_append h.isWhole_above (content ++ (feed ++ below))
  rw [← h.text_eq] at hcut
  obtain ⟨ls, line, more, hlines, hlast, habove, hbehind⟩ := exists_lines_of_cutAtLine? hcut
  have hline : '\n' ∉ line := lineFeed_notMem_of_mem_lines (t := t) (by simp [hlines])
  obtain ⟨tail, htail, hstop⟩ := exists_intercalate_cons more
  have hfeed : (feed ++ below).takeWhile (· != '\n') = [] := by
    rcases h.feed_eq with rfl | ⟨rfl, rfl⟩ <;> rfl
  have hsame : content = line := by
    rw [htail] at hbehind
    have hfirst := congrArg (List.takeWhile (· != '\n')) hbehind
    rwa [takeWhile_append_of_notMem h.lineFeed_notMem, takeWhile_append_of_notMem hline, hstop,
      hfeed, List.append_nil, List.append_nil] at hfirst
  exact ⟨ls, more, hsame ▸ hlines, habove, hlast⟩

theorem HasLine.lineCount_eq {above : Text} (h : t.HasLine above content feed below) :
    t.lineCount = above.lastLine + (feed ++ below).count '\n' := by
  have hcontent := List.count_eq_zero.mpr h.lineFeed_notMem
  rw [lineCount_eq_lastLine, h.text_eq, lastLine, lastLine, List.count_append, List.count_append,
    hcontent]
  omega

theorem lineAt_snap_of_lines (h : t.lines = ls ++ content :: more) (hle : k ≤ content.byteSize) :
    t.lineAt (t.snap ((wholeLines ls).byteSize + k)) = ls.length + 1 := by
  obtain ⟨tail, htail, -⟩ := exists_intercalate_cons more
  have htext := eq_wholeLines_append h
  rw [htail] at htext
  have hls : ∀ line ∈ ls, '\n' ∉ line := fun line hmem =>
    lineFeed_notMem_of_mem_lines (t := t) (by simp [h, hmem])
  have hcontent : '\n' ∉ content := lineFeed_notMem_of_mem_lines (t := t) (by simp [h])
  have hpassed : '\n' ∉ (content.cutSnapped k).1 := fun hmem =>
    hcontent (cutSnapped_append content k ▸ List.mem_append_left _ hmem)
  have hsplit : t = (wholeLines ls ++ (content.cutSnapped k).1) ++
      ((content.cutSnapped k).2 ++ tail) := by
    rw [htext, List.append_assoc, ← List.append_assoc (content.cutSnapped k).1, cutSnapped_append]
  have hsnap : t.snap ((wholeLines ls).byteSize + k) =
      Text.byteSize (wholeLines ls ++ (content.cutSnapped k).1) := by
    rw [htext, snap_append_right, snap_append_left hle, byteSize_append, byteSize_cutSnapped]
  rw [hsnap]
  nth_rewrite 1 [hsplit]
  rw [lineAt_append, lastLine, List.count_append, count_wholeLines hls,
    List.count_eq_zero.mpr hpassed, Nat.add_zero, Nat.add_comm]

end Text

namespace Document

open Text (HasLine wholeLines)

variable {doc before : Document} {above content feed below : Text}

/-! ## Where the cursor comes back -/

def restOfLine (doc : Document) : Text :=
  (doc.text.cutSnapped doc.cursor).2.firstLine

def cursorColumn (doc : Document) : Nat :=
  doc.cursor - (doc.text.lineStart? doc.currentLine).getD 0

theorem byteSize_stripReturn_le (t : Text) : t.stripReturn.byteSize ≤ t.byteSize := by
  have hsize := congrArg Text.byteSize t.stripReturn_append_drop
  rw [Text.byteSize_append] at hsize
  omega

theorem cursor_restoreCursor_of_lines (before : Document) {ls more : List Text}
    (hlines : doc.text.lines = ls ++ content :: more) (hline : before.currentLine = ls.length + 1) :
    (doc.restoreCursor before).cursor =
      (wholeLines ls).byteSize + content.stripReturn.snap before.cursorColumn := by
  obtain ⟨tail, htail, -⟩ := Text.exists_intercalate_cons more
  have htext := Text.eq_wholeLines_append hlines
  have hstrip := content.stripReturn_append_drop
  rw [htail, ← hstrip, List.append_assoc] at htext
  have hstart := Text.lineStart?_of_cutAtLine? (Text.cutAtLine?_of_lines hlines)
  have hwidth := Text.lineText?_of_lines hlines
  have hdefinition : (doc.restoreCursor before).cursor = doc.text.snap
      ((wholeLines ls).byteSize + min before.cursorColumn content.stripReturn.byteSize) := by
    simp only [restoreCursor, hline, hstart, hwidth, Option.getD_some, Option.map_some, setCursor,
      cursorColumn]
  rw [hdefinition, htext, Text.snap_append_right, Text.snap_append_left (Nat.min_le_right _ _),
    Text.snap_min_byteSize]

theorem cursor_restoreCursor_of_lt (before : Document)
    (h : doc.text.lineCount < before.currentLine) :
    (doc.restoreCursor before).cursor = doc.text.byteSize := by
  have hstart := Text.lineStart?_eq_none (t := doc.text) (.inr h)
  simp only [restoreCursor, hstart, lineText?_eq_none hstart, Option.getD_none, Option.map_none,
    Nat.min_zero, Nat.add_zero, setCursor, size]
  exact Text.snap_of_byteSize_le (Nat.le_refl _)

theorem currentLine_restoreCursor (doc before : Document) :
    (doc.restoreCursor before).currentLine = min before.currentLine doc.text.lineCount := by
  obtain ⟨ls, _, _, -, hline, -⟩ := before.exists_lines_currentLine
  rcases Nat.lt_or_ge doc.text.lineCount before.currentLine with hlt | hge
  · have hcursor := cursor_restoreCursor_of_lt before hlt
    have hend := Text.lineAt_append doc.text []
    rw [List.append_nil] at hend
    rw [currentLine, lineAt, hcursor, show (doc.restoreCursor before).text = doc.text from rfl,
      Text.snap_of_byteSize_le (Nat.le_refl _), hend, Text.lineCount_eq_lastLine]
    rw [Text.lineCount_eq_lastLine] at hlt
    omega
  · obtain ⟨_, hcut⟩ := Text.cutAtLine?_above (by omega) hge
    obtain ⟨above, content, more, hlines, habove, -, -⟩ := Text.exists_lines_of_cutAtLine? hcut
    have hcolumn := Text.snap_le_byteSize (Text.stripReturn content) before.cursorColumn
    have hwidth := byteSize_stripReturn_le content
    rw [currentLine, lineAt, cursor_restoreCursor_of_lines before hlines habove]
    exact (Text.lineAt_snap_of_lines hlines (by omega)).trans (by omega)

/-! ## Edits around a line -/

def editedAbove (doc : Document) (above : Text) (start stop : Nat) (new : Text) : Text :=
  let first := doc.text.snap start
  let last := doc.text.snap (max stop first)
  (above.cutSnapped first).1 ++ new ++ (above.cutSnapped last).2

/-- Moves of the cursor and replacements that leave a line alone, with the text above the line
before and after them.  A replacement above the line keeps a line feed in front of it, and one below
a line that has none does nothing: either would put more text on the line. -/
inductive KeepsLine (content feed : Text) : Document → Text → Document → Text → Prop where
  | done (doc : Document) (above : Text) : KeepsLine content feed doc above doc above
  | move {doc last : Document} {above above' : Text} (offset : Nat)
      (more : KeepsLine content feed (doc.setCursor offset) above last above') :
      KeepsLine content feed doc above last above'
  | replaceAbove {doc last : Document} {above above' : Text} (start stop : Nat) (new : Text)
      (stop_le : doc.text.snap (max stop (doc.text.snap start)) ≤ above.byteSize)
      (isWhole : (doc.editedAbove above start stop new).IsWhole)
      (more : KeepsLine content feed (doc.replace start stop new)
        (doc.editedAbove above start stop new) last above') :
      KeepsLine content feed doc above last above'
  | replaceBelow {doc last : Document} {above above' : Text} (start stop : Nat) (new : Text)
      (le_start : above.byteSize + Text.byteSize (content ++ feed) ≤ doc.text.snap start)
      (new_eq : feed = [] → new = [])
      (more : KeepsLine content feed (doc.replace start stop new) above last above') :
      KeepsLine content feed doc above last above'

theorem hasLine_replace_above (h : doc.text.HasLine above content feed below) {start stop : Nat}
    {new : Text} (hle : doc.text.snap (max stop (doc.text.snap start)) ≤ above.byteSize)
    (hwhole : (doc.editedAbove above start stop new).IsWhole) :
    (doc.replace start stop new).text.HasLine (doc.editedAbove above start stop new) content feed
      below := by
  obtain ⟨before, inside, behind, htext, hfirst, hlast⟩ := doc.exists_parts_of_replace start stop
  rw [hlast] at hle
  obtain ⟨between, rfl, rfl⟩ := Text.exists_eq_append_of_byteSize_le
    (((List.append_assoc before inside behind).trans htext.symm).trans h.text_eq)
    (by rwa [Text.byteSize_append])
  have hedited : doc.editedAbove (before ++ inside ++ between) start stop new =
      before ++ new ++ between := by
    have hbefore : Text.cutSnapped (before ++ inside ++ between) before.byteSize =
        (before, inside ++ between) := by
      rw [List.append_assoc, Text.cutSnapped_byteSize]
    rw [editedAbove, hlast, hfirst, hbefore, ← Text.byteSize_append, Text.cutSnapped_byteSize]
  rw [hedited] at hwhole ⊢
  refine ⟨?_, hwhole, h.lineFeed_notMem, h.feed_eq⟩
  rw [doc.text_replace_of_parts htext hfirst hlast new]
  simp only [List.append_assoc]

theorem exists_hasLine_replace_below (h : doc.text.HasLine above content feed below)
    {start stop : Nat} {new : Text}
    (hle : above.byteSize + Text.byteSize (content ++ feed) ≤ doc.text.snap start)
    (hnew : feed = [] → new = []) :
    ∃ below', (doc.replace start stop new).text.HasLine above content feed below' := by
  obtain ⟨before, inside, behind, htext, hfirst, hlast⟩ := doc.exists_parts_of_replace start stop
  have hsplit : (above ++ (content ++ feed)) ++ below = before ++ (inside ++ behind) := by
    rw [← htext, h.text_eq]
    simp only [List.append_assoc]
  obtain ⟨between, rfl, hbelow⟩ := Text.exists_eq_append_of_byteSize_le hsplit
    (by rw [Text.byteSize_append]; omega)
  refine ⟨between ++ (new ++ behind), ?_, h.isWhole_above, h.lineFeed_notMem, ?_⟩
  · rw [doc.text_replace_of_parts htext hfirst hlast new]
    simp only [List.append_assoc]
  · refine h.feed_eq.imp id fun ⟨hfeed, hnil⟩ => ⟨hfeed, ?_⟩
    rw [hnil] at hbelow
    obtain ⟨rfl, -, rfl⟩ : between = [] ∧ inside = [] ∧ behind = [] := by simpa using hbelow.symm
    simp [hnew hfeed]

theorem KeepsLine.exists_hasLine {last : Document} {above' : Text}
    (hrun : KeepsLine content feed doc above last above')
    (h : doc.text.HasLine above content feed below) :
    ∃ below', last.text.HasLine above' content feed below' := by
  induction hrun generalizing below with
  | done => exact ⟨below, h⟩
  | move offset _ ih => exact ih h
  | replaceAbove start stop new hle hwhole _ ih => exact ih (hasLine_replace_above h hle hwhole)
  | replaceBelow start stop new hle hnew _ ih =>
      obtain ⟨_, hedited⟩ := exists_hasLine_replace_below h hle hnew
      exact ih hedited

/-! ## The rest of the cursor's line -/

theorem exists_passed (h : doc.text.HasLine above content feed below)
    (hboundary : doc.text.isBoundary doc.cursor = true) (hline : doc.currentLine = above.lastLine) :
    ∃ passed rest, content = passed ++ rest ∧ doc.cursor = Text.byteSize (above ++ passed) := by
  obtain ⟨before, behind, hsplit, hsize⟩ := Text.isBoundary_iff.mp hboundary
  have hcount : before.count '\n' = above.count '\n' := by
    have hbefore := Text.lineAt_append before behind
    rw [currentLine, lineAt, Text.snap_of_isBoundary hboundary, ← hsize, hsplit, hbefore,
      Text.lastLine, Text.lastLine] at hline
    omega
  rcases List.append_eq_append_iff.mp (h.text_eq.symm.trans hsplit) with
    ⟨passed, rfl, hpassed⟩ | ⟨missed, rfl, hmissed⟩
  · rw [List.count_append] at hcount
    have hfeed : '\n' ∉ passed := List.count_eq_zero.mp (by omega)
    -- The cursor has not passed the line feed, so it is still in the content.
    rcases List.append_eq_append_iff.mp hpassed with ⟨ending, rfl, hending⟩ | ⟨rest, hrest, -⟩
    · cases ending with
      | nil => exact ⟨content, [], by simp, by simp [← hsize]⟩
      | cons c ending =>
          rcases h.feed_eq with rfl | ⟨rfl, rfl⟩
          · obtain ⟨rfl, -⟩ := List.cons.inj hending
            exact absurd (by simp) hfeed
          · simp at hending
    · exact ⟨passed, rest, hrest, hsize.symm⟩
  · rw [List.count_append] at hcount
    have hfeed : '\n' ∉ missed := List.count_eq_zero.mp (by omega)
    rcases h.isWhole_above.of_append with rfl | hlast
    · exact ⟨[], content, rfl, by simp [← hsize]⟩
    · exact absurd (List.mem_of_getLast? hlast) hfeed

theorem restOfLine_of_cursor {passed rest : Text} (h : doc.text.HasLine above content feed below)
    (hcontent : content = passed ++ rest) (hcursor : doc.cursor = Text.byteSize (above ++ passed)) :
    doc.restOfLine = rest.stripReturn := by
  have hrest : '\n' ∉ rest := fun hmem => h.lineFeed_notMem (by simp [hcontent, hmem])
  have htext : doc.text = (above ++ passed) ++ (rest ++ (feed ++ below)) := by
    rw [h.text_eq, hcontent]
    simp only [List.append_assoc]
  have hfeed : (feed ++ below).takeWhile (· != '\n') = [] := by
    rcases h.feed_eq with rfl | ⟨rfl, rfl⟩ <;> rfl
  rw [restOfLine, hcursor, htext, Text.cutSnapped_byteSize, Text.firstLine,
    Text.takeWhile_append_of_notMem hrest, hfeed, List.append_nil]

theorem restOfLine_of_cursor_eq_byteSize (h : doc.cursor = doc.text.byteSize) :
    doc.restOfLine = [] := by
  have hend := Text.cutSnapped_byteSize doc.text []
  rw [List.append_nil] at hend
  rw [restOfLine, h, hend]
  rfl

theorem cursorColumn_eq {passed : Text} (h : doc.text.HasLine above content feed below)
    (hline : doc.currentLine = above.lastLine)
    (hcursor : doc.cursor = Text.byteSize (above ++ passed)) :
    doc.cursorColumn = passed.byteSize := by
  obtain ⟨ls, more, hlines, rfl, hlast⟩ := h.exists_lines
  have hstart := Text.lineStart?_of_cutAtLine? (Text.cutAtLine?_of_lines hlines)
  rw [cursorColumn, hline, hlast, hstart, Option.getD_some, hcursor, Text.byteSize_append]
  omega

/-- On a line with the same content, a cursor comes back to the same rest of the line.  If it was
behind a carriage return at the end of the content, it comes back in front of it. -/
theorem restOfLine_restoreCursor {above' below' : Text}
    (h : before.text.HasLine above content feed below)
    (hafter : doc.text.HasLine above' content feed below')
    (hboundary : before.text.isBoundary before.cursor = true)
    (hline : before.currentLine = above.lastLine) (hsame : above'.lastLine = above.lastLine) :
    (doc.restoreCursor before).restOfLine = before.restOfLine := by
  obtain ⟨passed, rest, hcontent, hcursor⟩ := exists_passed h hboundary hline
  obtain ⟨ls, more, hlines, rfl, hlast⟩ := hafter.exists_lines
  have hrestored := cursor_restoreCursor_of_lines before hlines (by omega)
  have hkept : (doc.restoreCursor before).text.HasLine (wholeLines ls) content feed below' := hafter
  rw [cursorColumn_eq h hline hcursor] at hrestored
  rw [restOfLine_of_cursor h hcontent hcursor]
  by_cases hrest : rest = []
  · subst hrest
    rw [List.append_nil] at hcontent
    subst hcontent
    have hwidth := byteSize_stripReturn_le content
    rw [Text.snap_of_byteSize_le hwidth, ← Text.byteSize_append] at hrestored
    rw [restOfLine_of_cursor hkept content.stripReturn_append_drop.symm hrestored]
    have hdropped := Text.stripReturn_drop_stripReturn content
    rw [hdropped]
    rfl
  · rw [hcontent, Text.stripReturn_append_of_ne_nil _ hrest, Text.snap_byteSize,
      ← Text.byteSize_append] at hrestored
    exact restOfLine_of_cursor hkept hcontent hrestored

/-! ## Excursions -/

/-- An excursion that leaves the cursor's line alone leaves it a line of the text.  The cursor comes
back to that line, in front of the same text, exactly if the number of lines above has not changed
or the cursor was at the end of a last line without line feed and there are fewer. -/
theorem excursion_returns_to_line_iff {α : Type} (f : Document → Document × α) {above' : Text}
    (hboundary : doc.text.isBoundary doc.cursor = true)
    (h : doc.text.HasLine above content feed below) (hline : doc.currentLine = above.lastLine)
    (hrun : KeepsLine content feed doc above (f doc).1 above') :
    (∃ below', (doc.excursion f).1.text.HasLine above' content feed below') ∧
      (((doc.excursion f).1.currentLine = above'.lastLine ∧
          (doc.excursion f).1.restOfLine = doc.restOfLine) ↔
        (above'.lastLine = above.lastLine ∨
          above'.lastLine < above.lastLine ∧ feed = [] ∧ doc.restOfLine = [])) := by
  obtain ⟨below', hafter⟩ := hrun.exists_hasLine h
  have hexcursion : (doc.excursion f).1 = (f doc).1.restoreCursor doc := rfl
  have hcount := hafter.lineCount_eq
  rw [hexcursion, currentLine_restoreCursor, hline]
  refine ⟨⟨below', hafter⟩, ⟨fun ⟨hback, hrest⟩ => ?_, ?_⟩⟩
  · rcases Nat.eq_or_lt_of_le (show above'.lastLine ≤ above.lastLine by omega) with heq | hlt
    · exact .inl heq
    · -- The old number is past the last line, so the cursor is at the end of the text.
      have hend := cursor_restoreCursor_of_lt doc (show (f doc).1.text.lineCount < _ by omega)
      rw [restOfLine_of_cursor_eq_byteSize hend] at hrest
      refine .inr ⟨hlt, ?_, hrest.symm⟩
      rcases h.feed_eq with rfl | ⟨hfeed, -⟩
      · rw [List.count_append, List.count_singleton_self] at hcount
        omega
      · exact hfeed
  · rintro (hsame | ⟨hlt, rfl, hrest⟩)
    · exact ⟨by omega, restOfLine_restoreCursor h hafter hboundary hline hsame⟩
    · obtain rfl : below' = [] := by
        rcases hafter.feed_eq with hfeed | ⟨-, hbelow⟩
        · simp at hfeed
        · exact hbelow
      rw [List.append_nil, List.count_nil] at hcount
      have hend := cursor_restoreCursor_of_lt doc (show (f doc).1.text.lineCount < _ by omega)
      exact ⟨by omega, by rw [restOfLine_of_cursor_eq_byteSize hend, hrest]⟩

theorem excursion_returns_to_line_below_longer_line :
    let doc := (ofText "a" "* a\nb c".toList .default).setCursor 5
    let f := fun doc : Document => (doc.replace 0 1 "    *".toList, ())
    ((∃ below', (doc.excursion f).1.text.HasLine "    * a\n".toList "b c".toList [] below') ∧
      (((doc.excursion f).1.currentLine = Text.lastLine "    * a\n".toList ∧
          (doc.excursion f).1.restOfLine = doc.restOfLine) ↔
        (Text.lastLine "    * a\n".toList = Text.lastLine "* a\n".toList ∨
          Text.lastLine "    * a\n".toList < Text.lastLine "* a\n".toList ∧
            ([] : Text) = [] ∧ doc.restOfLine = []))) := by
  intro doc f
  have hline : doc.text.HasLine "* a\n".toList "b c".toList [] [] :=
    ⟨by decide, .inr (by decide), by decide, .inr ⟨rfl, rfl⟩⟩
  have hrun : KeepsLine "b c".toList [] doc "* a\n".toList (f doc).1 "    * a\n".toList :=
    .replaceAbove 0 1 "    *".toList (by decide) (.inr (by decide)) (.done _ _)
  exact excursion_returns_to_line_iff f (by decide) hline (by decide) hrun

/-- A new line above the cursor's line takes its number. -/
theorem excursion_loses_line_below_new_line :
    ¬∀ (doc : Document) (f : Document → Document × Unit) (above content feed below above' : Text),
      doc.text.isBoundary doc.cursor = true → doc.text.HasLine above content feed below →
      doc.currentLine = above.lastLine → KeepsLine content feed doc above (f doc).1 above' →
      (doc.excursion f).1.currentLine = above'.lastLine ∧
        (doc.excursion f).1.restOfLine = doc.restOfLine := by
  intro h
  have hlost := h ((ofText "a" "a\nb".toList .default).setCursor 2)
    (fun doc => (doc.replace 0 0 "x\n".toList, ())) "a\n".toList "b".toList [] []
    "x\na\n".toList (by decide) ⟨by decide, .inr (by decide), by decide, .inr ⟨rfl, rfl⟩⟩
    (by decide) (.replaceAbove 0 0 "x\n".toList (by decide) (.inr (by decide)) (.done _ _))
  revert hlost
  decide

end Document

end MarkupLayout

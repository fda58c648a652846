import Mathlib.Data.List.Intervals
import Mathlib.Order.Interval.Set.Basic
import MarkupLayout.Document.Session
import MarkupLayout.Proofs.Placement
/-!
# What indenting leaves alone

The commands that indent write spaces and tabs at the start of some lines and nothing else.
`ReindentsOnly` says so for a set of lines.  It holds of one line and passes along a run, also of a
run that fails: up to its error that is a run over the lines above the failing one.
-/

namespace MarkupLayout

/-! ## Texts that differ in indentation -/

/-- Two texts that agree but for the indentation of the given lines. -/
structure Text.ReindentsOnly (lines : Set Nat) (old new : Text) : Prop where
  content : flush new.lines = flush old.lines
  outside : ∀ n, n + 1 ∉ lines → new.lines[n]? = old.lines[n]?

namespace Text.ReindentsOnly

variable {lines more : Set Nat} {s t u : Text}

theorem refl (lines : Set Nat) (t : Text) : t.ReindentsOnly lines t :=
  ⟨rfl, fun _ _ => rfl⟩

theorem trans (h : s.ReindentsOnly lines t) (h' : t.ReindentsOnly lines u) :
    s.ReindentsOnly lines u :=
  ⟨h'.content.trans h.content, fun n hn => (h'.outside n hn).trans (h.outside n hn)⟩

theorem mono (h : s.ReindentsOnly lines t) (hsub : lines ⊆ more) : s.ReindentsOnly more t :=
  ⟨h.content, fun n hn => h.outside n fun hmem => hn (hsub hmem)⟩

theorem lineCount_eq (h : s.ReindentsOnly lines t) : t.lineCount = s.lineCount := by
  rw [lineCount_eq_length_lines, lineCount_eq_length_lines, ← length_flush t.lines, h.content,
    length_flush]

theorem lineText?_eq (h : s.ReindentsOnly lines t) {n : Nat} (hn : n ∉ lines) :
    t.lineText? n = s.lineText? n := by
  cases n with
  | zero => rfl
  | succ n => simp only [lineText?, Nat.add_sub_cancel, h.outside n hn]

end Text.ReindentsOnly

/-- What was reported about a line with these indentations before and after: their widths, or that
they are the same. -/
def IndentOutcome.Describes (tabWidth : Nat) (before after : Text) : IndentOutcome → Prop
  | reindented widthBefore widthAfter =>
    widthBefore = Text.width tabWidth before ∧ widthAfter = Text.width tabWidth after
  | unchanged => after = before
  | suppressed => after = before

theorem IndentStyle.describes_outcomeOf (style : IndentStyle) (line : Text)
    (column : Option Nat) :
    (style.outcomeOf line column).Describes style.tabWidth line.leading
      (style.reindented line column).leading := by
  cases column with
  | none => exact rfl
  | some width =>
      rw [style.leading_reindented, outcomeOf]
      by_cases hsame : line.leading = style.write width
      · rw [if_pos hsame]
        exact hsame.symm
      · rw [if_neg hsame]
        exact ⟨rfl, (style.width_write width).symm⟩

namespace Document

open Text (ReindentsOnly)

variable {g : Grammar} {doc edited : Document} {lines : Set Nat}

theorem leadingOf_eq (h : doc.text.ReindentsOnly lines edited.text) {n : Nat} (hn : n ∉ lines) :
    edited.leadingOf n = doc.leadingOf n := by
  rw [leadingOf, leadingOf, h.lineText?_eq hn]

/-! ## One line -/

theorem exists_lines_of_line (doc : Document) (line : Nat) :
    doc.text.lineStart? line = none ∨
      ∃ above content below, doc.text.lines = above ++ content :: below ∧
        line = above.length + 1 := by
  cases hstart : doc.text.lineStart? line with
  | none => exact .inl rfl
  | some start =>
      obtain ⟨above, content, below, hlines, hline, -⟩ := Text.exists_lines_of_lineStart? hstart
      exact .inr ⟨above, content, below, hlines, hline⟩

theorem exists_outcome_of_lineStart?_eq_none {line : Nat} (h : doc.text.lineStart? line = none)
    (column : Option Nat) (moveCursor : Bool) :
    ∃ outcome, doc.applyColumn line column moveCursor = (doc, outcome) ∧
      ∀ tabWidth leading, outcome.Describes tabWidth leading leading := by
  cases column with
  | none => exact ⟨.suppressed, rfl, fun _ _ => rfl⟩
  | some width => exact ⟨.unchanged, by rw [applyColumn, setIndent, h], fun _ _ => rfl⟩

variable (doc) (line : Nat) (column : Option Nat) (moveCursor : Bool)

theorem reindentsOnly_applyColumn :
    doc.text.ReindentsOnly {line} (doc.applyColumn line column moveCursor).1.text := by
  rcases doc.exists_lines_of_line line with hnone | ⟨above, content, below, hlines, rfl⟩
  · obtain ⟨_, heq, -⟩ := exists_outcome_of_lineStart?_eq_none hnone column moveCursor
    rw [heq]
    exact .refl _ _
  · have hedited := lines_applyColumn hlines column moveCursor
    refine ⟨?_, fun n hn => ?_⟩
    · rw [hedited, hlines]
      simp only [Text.flush, List.map_append, List.map_cons, IndentStyle.dropWhile_reindented]
    · have hset : above ++ doc.style.reindented content column :: below =
          (above ++ content :: below).set above.length (doc.style.reindented content column) := by
        simp
      have hne : above.length ≠ n := by
        rintro rfl
        exact hn (Set.mem_singleton _)
      rw [hedited, hlines, hset, List.getElem?_set_ne hne]

theorem describes_applyColumn :
    (doc.applyColumn line column moveCursor).2.Describes doc.style.tabWidth (doc.leadingOf line)
      ((doc.applyColumn line column moveCursor).1.leadingOf line) := by
  rcases doc.exists_lines_of_line line with hnone | ⟨above, content, below, hlines, rfl⟩
  · obtain ⟨_, heq, hsame⟩ := exists_outcome_of_lineStart?_eq_none hnone column moveCursor
    rw [heq]
    exact hsame _ _
  · rw [outcome_applyColumn hlines, leadingOf_of_lines hlines,
      leadingOf_of_lines (lines_applyColumn hlines column moveCursor)]
    exact doc.style.describes_outcomeOf content column

variable {doc line column moveCursor} {outcome : IndentOutcome}

theorem exists_of_applyColumn_bind
    (h : (doc.columnOf g line).bind (fun column => .ok (doc.applyColumn line column moveCursor)) =
      .ok (edited, outcome)) :
    ∃ column, doc.applyColumn line column moveCursor = (edited, outcome) := by
  cases hcolumn : doc.columnOf g line with
  | error e =>
      rw [hcolumn] at h
      exact absurd h (by simp [Except.bind])
  | ok column =>
      rw [hcolumn] at h
      exact ⟨column, Except.ok.inj h⟩

theorem exists_applyColumn_of_indentInRegion
    (h : doc.indentInRegion g line = .ok (edited, outcome)) :
    ∃ column, doc.applyColumn line column false = (edited, outcome) := by
  unfold indentInRegion at h
  split at h
  · exact ⟨some 0, Except.ok.inj h⟩
  · exact exists_of_applyColumn_bind h

theorem exists_applyColumn_of_indentLine (h : doc.indentLine g = .ok (edited, outcome)) :
    ∃ column, doc.applyColumn doc.currentLine column true = (edited, outcome) :=
  exists_of_applyColumn_bind h

/-! ## A run over lines -/

theorem reindentsOnly_indentLines (g : Grammar) (doc : Document) {todo : List Nat}
    (h : ∀ n ∈ todo, n ∈ lines) :
    doc.text.ReindentsOnly lines (doc.indentLines g todo).1.text := by
  induction todo generalizing doc with
  | nil => exact .refl _ _
  | cons n todo ih =>
      cases hline : doc.indentInRegion g n with
      | error e =>
          rw [indentLines, hline]
          exact .refl _ _
      | ok result =>
          obtain ⟨column, hcolumn⟩ := exists_applyColumn_of_indentInRegion hline
          have hfirst := (reindentsOnly_applyColumn doc n column false).mono
            (Set.singleton_subset_iff.mpr (h n List.mem_cons_self))
          rw [hcolumn] at hfirst
          rw [indentLines_cons_of_ok hline]
          exact hfirst.trans (ih result.1 fun m hm => h m (List.mem_cons_of_mem n hm))

theorem describes_indentLines {todo : List Nat} (hnodup : todo.Nodup)
    {outcomes : List (Nat × IndentOutcome)} (h : (doc.indentLines g todo).2 = .ok outcomes) :
    outcomes.map Prod.fst = todo ∧ ∀ entry ∈ outcomes,
      entry.2.Describes doc.style.tabWidth (doc.leadingOf entry.1)
        ((doc.indentLines g todo).1.leadingOf entry.1) := by
  induction todo generalizing doc outcomes with
  | nil =>
      obtain rfl : [] = outcomes := Except.ok.inj h
      exact ⟨rfl, by simp⟩
  | cons n todo ih =>
      obtain ⟨hfresh, hnodup⟩ := List.nodup_cons.mp hnodup
      cases hline : doc.indentInRegion g n with
      | error e =>
          rw [indentLines, hline] at h
          simp at h
      | ok result =>
          obtain ⟨edited, outcome⟩ := result
          obtain ⟨column, hcolumn⟩ := exists_applyColumn_of_indentInRegion hline
          have hfirst := reindentsOnly_applyColumn doc n column false
          have hreport := describes_applyColumn doc n column false
          have hstyle := (doc.applyColumn_name_style n column false).2
          rw [hcolumn] at hfirst hreport hstyle
          rw [indentLines_cons_of_ok hline] at h ⊢
          obtain ⟨later, hlater, rfl⟩ := map_eq_ok h
          obtain ⟨hmap, hdescribes⟩ := ih hnodup hlater
          refine ⟨by rw [List.map_cons, hmap], fun entry hentry => ?_⟩
          rcases List.mem_cons.mp hentry with rfl | hentry
          · -- The later lines of the run are other lines.
            have hrest : edited.text.ReindentsOnly {m | m ∈ todo} _ :=
              reindentsOnly_indentLines g edited fun m hm => hm
            rw [leadingOf_eq hrest hfresh]
            exact hreport
          · have hmem : entry.1 ∈ todo := hmap ▸ List.mem_map_of_mem hentry
            have hne : entry.1 ∉ ({n} : Set Nat) := fun heq => hfresh (heq ▸ hmem)
            have hother := hdescribes entry hentry
            rw [hstyle, leadingOf_eq hfirst hne] at hother
            exact hother

/-- A run that fails is a run that succeeds, up to the line that fails. -/
theorem exists_of_indentLines_error {todo : List Nat} {e : MalformedNesting}
    (h : (doc.indentLines g todo).2 = .error e) :
    ∃ done n more outcomes, todo = done ++ n :: more ∧
      doc.indentLines g done = ((doc.indentLines g todo).1, .ok outcomes) ∧
      (doc.indentLines g todo).1.indentInRegion g n = .error e := by
  induction todo generalizing doc with
  | nil => simp [indentLines] at h
  | cons n todo ih =>
      cases hline : doc.indentInRegion g n with
      | error e' =>
          rw [indentLines, hline] at h ⊢
          obtain rfl : e' = e := Except.error.inj h
          exact ⟨[], n, todo, [], rfl, rfl, hline⟩
      | ok result =>
          rw [indentLines_cons_of_ok hline] at h ⊢
          obtain ⟨done, m, more, outcomes, rfl, hdone, herror⟩ := ih (map_eq_error h)
          refine ⟨n :: done, m, more, (n, result.2) :: outcomes, rfl, ?_, herror⟩
          rw [indentLines_cons_of_ok hline, hdone]
          rfl

/-! ## The commands -/

theorem regionLines_eq_Ico (doc : Document) (first last : Nat) :
    doc.regionLines first last = List.Ico (max first 1) (min last doc.text.lineCount + 1) :=
  rfl

theorem exists_of_indentRegion_error {first last : Nat} {e : MalformedNesting}
    (h : (doc.indentRegion g first last).2 = .error e) :
    ∃ n outcomes, max first 1 ≤ n ∧ n ≤ min last doc.text.lineCount ∧
      doc.indentRegion g first (n - 1) = ((doc.indentRegion g first last).1, .ok outcomes) ∧
      (doc.indentRegion g first last).1.indentInRegion g n = .error e := by
  obtain ⟨done, n, more, outcomes, htodo, hdone, herror⟩ := exists_of_indentLines_error h
  rw [regionLines_eq_Ico, List.Ico, List.range'_eq_append_iff] at htodo
  obtain ⟨count, -, rfl, hmore⟩ := htodo
  obtain ⟨hn, hpos, -⟩ := List.range'_eq_cons_iff.mp hmore.symm
  rw [Nat.mul_one] at hn
  have habove : doc.regionLines first (n - 1) = List.range' (max first 1) count := by
    rw [regionLines]
    congr 1
    omega
  refine ⟨n, outcomes, by omega, by omega, ?_, herror⟩
  rw [indentRegion, habove, hdone, indentRegion]

/-- The indent commands write nothing but the spaces and tabs at the start of their lines, also when
they fail: then they have written above the failing line only.  What they report is what they
did. -/
theorem indent_changes_indentation_only (g : Grammar) (doc : Document) :
    (∀ first last,
      let run := doc.indentRegion g first last
      run.1.text.lineCount = doc.text.lineCount ∧
      doc.text.ReindentsOnly (Set.Icc first last) run.1.text ∧
      (∀ outcomes, run.2 = .ok outcomes →
        outcomes.map Prod.fst =
          List.Ico (max first 1) (min last doc.text.lineCount + 1) ∧
        ∀ entry ∈ outcomes, entry.2.Describes doc.style.tabWidth
          (doc.leadingOf entry.1) (run.1.leadingOf entry.1)) ∧
      ∀ e, run.2 = .error e → ∃ n outcomes,
        max first 1 ≤ n ∧ n ≤ min last doc.text.lineCount ∧
        doc.indentRegion g first (n - 1) = (run.1, .ok outcomes) ∧
        run.1.indentInRegion g n = .error e ∧
        doc.text.ReindentsOnly (Set.Ico first n) run.1.text) ∧
    (∀ edited outcome, doc.indentLine g = .ok (edited, outcome) →
      edited.text.lineCount = doc.text.lineCount ∧
      doc.text.ReindentsOnly {doc.currentLine} edited.text ∧
      outcome.Describes doc.style.tabWidth (doc.leadingOf doc.currentLine)
        (edited.leadingOf doc.currentLine) ∧
      (outcome = .suppressed → edited = doc)) ∧
    ∀ e, doc.indentLine g = .error e → doc.perform g .indentLine = (doc, .failed e) := by
  have hregion (first last : Nat) : doc.text.ReindentsOnly (Set.Icc first last)
      (doc.indentRegion g first last).1.text := by
    apply reindentsOnly_indentLines
    intro n hn
    rw [regionLines_eq_Ico, List.Ico.mem] at hn
    exact ⟨by omega, by omega⟩
  refine ⟨fun first last => ⟨?_, hregion first last, fun outcomes h => ?_, fun e h => ?_⟩,
    fun edited outcome h => ?_, fun e h => ?_⟩
  · exact (hregion first last).lineCount_eq
  · rw [← regionLines_eq_Ico]
    exact describes_indentLines (List.Ico.nodup _ _) h
  · obtain ⟨n, outcomes, hfirst, hlast, hdone, herror⟩ := exists_of_indentRegion_error h
    refine ⟨n, outcomes, hfirst, hlast, hdone, herror, ?_⟩
    have habove := hregion first (n - 1)
    rw [hdone] at habove
    apply habove.mono
    intro m hm
    exact ⟨hm.1, by have := hm.2; omega⟩
  · obtain ⟨column, hcolumn⟩ := exists_applyColumn_of_indentLine h
    have hframe := reindentsOnly_applyColumn doc doc.currentLine column true
    have hreport := describes_applyColumn doc doc.currentLine column true
    have hsuppressed := doc.applyColumn_suppressed_iff doc.currentLine column true
    rw [hcolumn] at hframe hreport hsuppressed
    refine ⟨hframe.lineCount_eq, hframe, hreport, fun houtcome => ?_⟩
    obtain rfl := hsuppressed.mp houtcome
    exact (Prod.ext_iff.mp hcolumn).1.symm
  · rw [perform, h]

theorem indent_changes_indentation_only_unmatched :
    let doc := ofText "a" "* a\nb\n)\nc".toList .default
    let done := doc.indentRegion .markdown 1 3
    let failed := doc.indentRegion .markdown 1 4
    2 = Text.width 8 (done.1.leadingOf 2) ∧
      (∃ n outcomes, 1 ≤ n ∧ n ≤ 4 ∧
        doc.indentRegion .markdown 1 (n - 1) = (failed.1, .ok outcomes)) ∧
      doc.text.ReindentsOnly {1} doc.text ∧
      (doc.gotoLine 4).perform .markdown .indentLine =
        (doc.gotoLine 4, .failed ⟨"a", 1, ['*']⟩) := by
  intro doc done failed
  obtain ⟨hregion, hline, -⟩ := indent_changes_indentation_only .markdown doc
  obtain ⟨-, -, -, hfailed⟩ := hregion 1 4
  obtain ⟨-, -, hdone, -⟩ := hregion 1 3
  obtain ⟨-, hreports⟩ := hdone
    [(1, .unchanged), (2, .reindented 0 2), (3, .reindented 0 2)] (by decide +kernel)
  obtain ⟨-, hafter⟩ := hreports (2, .reindented 0 2) (by decide)
  obtain ⟨n, outcomes, hfirst, hlast, habove, -⟩ := hfailed ⟨"a", 1, ['*']⟩ (by decide +kernel)
  obtain ⟨-, hframe, -⟩ := hline doc .unchanged (by decide +kernel)
  obtain ⟨-, -, herror⟩ := indent_changes_indentation_only .markdown (doc.gotoLine 4)
  exact ⟨hafter, ⟨n, outcomes, hfirst, hlast, habove⟩, hframe,
    herror ⟨"a", 1, ['*']⟩ (by decide +kernel)⟩

end Document

end MarkupLayout

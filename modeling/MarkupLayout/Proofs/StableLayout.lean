import MarkupLayout.Command
import MarkupLayout.Proofs.RegionRun
/-!
# Indented text stays as it is

Indenting the lines of a region once more changes nothing.  The first run gives each line the
column that follows from the lines above it, as they have become; these lines, and what stands
behind the indentation of the line itself, are the same for the second run, so it finds the
indentation it would write.  The check for lines that are out of place measures widths and does not
compare texts, and a written indentation has the width it was written for.
-/

namespace MarkupLayout

theorem IndentStyle.lineFeed_notMem_reindented (style : IndentStyle) {line : Text}
    (h : '\n' ∉ line) (column : Option Nat) : '\n' ∉ style.reindented line column := by
  cases column with
  | none => exact h
  | some width =>
      intro hmem
      rcases List.mem_append.mp hmem with hmem | hmem
      · exact style.lineFeed_notMem_write width hmem
      · exact h ((List.dropWhile_suffix _).subset hmem)

/-! ## Indenting lines once more -/

namespace Indentation.Indents

variable {g : Grammar} {style : IndentStyle} {above old new lines : List Text}
  {outcomes : List IndentOutcome}

theorem reindented_reindented (style : IndentStyle) (line : Text) (column : Option Nat) :
    style.reindented (style.reindented line column) column = style.reindented line column := by
  cases column with
  | none => rfl
  | some width =>
      have hcontent := style.dropWhile_reindented line (some width)
      rw [IndentStyle.reindented, hcontent, IndentStyle.reindented]

theorem exists_again (hg : g.VisibleSigils) (h : Indents g style above old new outcomes)
    (hold : ∀ line ∈ old, '\n' ∉ line) :
    ∃ again, Indents g style above new new again ∧
      ∀ outcome ∈ again, outcome.isReindented = false := by
  induction h with
  | nil above => exact ⟨[], .nil above, by simp⟩
  | @cons above old new line column outcomes hcolumn _ ih =>
      obtain ⟨again, hagain, hquiet⟩ := ih fun other hother => hold other (by simp [hother])
      have hline : '\n' ∉ line := hold line (by simp)
      have hsame := reindented_reindented style line column
      have hcolumn' : columnBelow g style above (style.reindented line column) = .ok column := by
        rw [← hcolumn]
        apply columnBelow_congr hg
        · exact style.lineFeed_notMem_reindented hline column
        · exact hline
        · exact style.dropWhile_reindented line column
      refine ⟨style.outcomeOf (style.reindented line column) column :: again, ?_, ?_⟩
      · have hmore : Indents g style (above ++ [style.reindented (style.reindented line column)
            column]) new new again := by
          rw [hsame]
          exact hagain
        have hcons := Indents.cons hcolumn' hmore
        rwa [hsame] at hcons
      · intro outcome houtcome
        rcases List.mem_cons.mp houtcome with rfl | houtcome
        · rw [← Bool.not_eq_true, style.outcomeOf_isReindented_iff, not_not]
          exact hsame
        · exact hquiet outcome houtcome

/-- Each of the lines that stay as they are has the column that follows from those above it. -/
theorem exists_columnBelow_self (h : Indents g style above lines lines outcomes)
    {before more : List Text} {line : Text} (hlines : lines = before ++ line :: more) :
    ∃ column, columnBelow g style (above ++ before) line = .ok column ∧
      style.reindented line column = line := by
  obtain ⟨before', more', column, hnew, hlength, -, hcolumn⟩ := h.exists_columnBelow hlines
  obtain ⟨rfl, hrest⟩ := List.append_inj (hlines.symm.trans hnew) hlength.symm
  exact ⟨column, hcolumn, (List.cons.inj hrest).1.symm⟩

end Indentation.Indents

namespace Document

open Indentation (Indents columnBelow)

variable {g : Grammar} {doc : Document} {above lines below : List Text}
  {outcomes : List IndentOutcome}

theorem indentLines_of_indents_self (h : doc.text.lines = above ++ (lines ++ below))
    (hself : Indents g doc.style above lines lines outcomes) :
    doc.indentLines g (List.range' (above.length + 1) lines.length) =
      (doc, .ok ((List.range' (above.length + 1) lines.length).zip outcomes)) := by
  induction lines generalizing above outcomes with
  | nil => rfl
  | cons line lines ih =>
      obtain ⟨column, _, later, hcolumn, hnew, rfl, hmore⟩ := hself.exists_of_cons
      obtain ⟨hline, rfl⟩ := List.cons.inj hnew
      rw [List.cons_append] at h
      obtain ⟨edited, hedited, -, -, hkept⟩ := exists_indentInRegion_of_columnBelow h hcolumn
      obtain rfl : edited = doc := hkept hline.symm
      rw [← hline] at hmore
      have hlength : (above ++ [line]).length = above.length + 1 := by
        rw [List.length_append, List.length_singleton]
      have hlater := ih (by rw [h, List.append_assoc]; rfl) hmore
      rw [hlength] at hlater
      rw [List.length_cons, List.range'_succ, indentLines_cons_of_ok hedited, hlater]
      rfl

theorem indentRegion_indentRegion (hg : g.VisibleSigils) (doc : Document) {first last : Nat}
    {outcomes : List (Nat × IndentOutcome)}
    (hok : (doc.indentRegion g first last).2 = .ok outcomes) :
    ∃ again, (doc.indentRegion g first last).1.indentRegion g first last =
        ((doc.indentRegion g first last).1, .ok again) ∧
      ∀ entry ∈ again, entry.2.isReindented = false := by
  obtain ⟨above, old, below, hlines, hregion⟩ := doc.exists_lines_of_regionLines first last
  have hrun : doc.indentRegion g first last =
      doc.indentLines g (List.range' (above.length + 1) old.length) := by
    rw [indentRegion, hregion]
  rw [hrun] at hok ⊢
  obtain ⟨new, results, hindents, hfinal, hstyle, -⟩ := exists_indents_of_indentLines hlines hok
  have hold : ∀ line ∈ old, '\n' ∉ line := by
    intro line hline
    apply Text.lineFeed_notMem_of_mem_lines (t := doc.text)
    simp [hlines, hline]
  obtain ⟨again, hagain, hquiet⟩ := hindents.exists_again hg hold
  generalize doc.indentLines g (List.range' (above.length + 1) old.length) = run at *
  have hlength : doc.text.lines.length = run.1.text.lines.length := by
    simp only [hlines, hfinal, List.length_append, hindents.length_eq]
  refine ⟨(List.range' (above.length + 1) new.length).zip again, ?_, ?_⟩
  · rw [indentRegion, ← regionLines_congr hlength, hregion, ← hindents.length_eq]
    apply indentLines_of_indents_self hfinal
    rw [hstyle]
    exact hagain
  · intro entry hentry
    exact hquiet entry.2 (List.of_mem_zip hentry).2

/-! ## The check for lines that are out of place -/

private theorem mapM_eq_ok {ε α β : Type} {f : α → Except ε β} {b : β} {xs : List α}
    (h : ∀ x ∈ xs, f x = .ok b) : xs.mapM f = .ok (xs.map fun _ => b) := by
  induction xs with
  | nil => rfl
  | cons x xs ih =>
      rw [List.mapM_cons, h x (by simp), ih fun y hy => h y (by simp [hy])]
      rfl

theorem unstableLines_eq_nil
    (h : ∀ line ∈ doc.regionLines 1 doc.text.lineCount, doc.isBlankLine line = false →
      ∃ column, doc.columnOf g line = .ok column ∧
        ∀ width ∈ column, width = Text.width doc.style.tabWidth (doc.leadingOf line)) :
    doc.unstableLines g = .ok [] := by
  unfold unstableLines
  simp only
  rw [mapM_eq_ok (b := none)]
  · simp [bind, Except.bind, pure, Except.pure]
  · intro line hline
    obtain ⟨hmem, hblank⟩ := List.mem_filter.mp hline
    obtain ⟨column, hcolumn, hwidth⟩ := h line hmem (by simpa using hblank)
    rw [hcolumn]
    cases column with
    | none => rfl
    | some width =>
        have hsame := hwidth width rfl
        simp [bind, Except.bind, pure, Except.pure, hsame]

theorem unstableLines_of_indents_self (hself : Indents g doc.style [] doc.text.lines
    doc.text.lines outcomes) : doc.unstableLines g = .ok [] := by
  apply unstableLines_eq_nil
  intro n hn hblank
  rw [regionLines_all, List.mem_range'_1] at hn
  obtain ⟨before, more, hlines, hbefore⟩ := exists_append_of_getElem?
    (List.getElem?_eq_getElem (l := doc.text.lines) (i := n - 1) (by omega))
  obtain rfl : before.length + 1 = n := by omega
  generalize doc.text.lines[before.length + 1 - 1] = line at hlines
  obtain ⟨column, hcolumn, hline⟩ := hself.exists_columnBelow_self hlines
  refine ⟨column, ?_, ?_⟩
  · have hvisible : (Text.stripReturn line).isBlank = false := by
      rw [isBlankLine, Text.lineText?_of_lines hlines] at hblank
      exact hblank
    rw [List.nil_append, columnBelow, hvisible, Bool.false_or] at hcolumn
    rw [columnOf, indentationColumnOf_of_lines g hlines, hcolumn]
    rfl
  · rintro width rfl
    rw [leadingOf_of_lines hlines, ← hline, doc.style.leading_reindented, doc.style.width_write]

/-! ## The command for whole texts -/

theorem reindent_eq_ok {out : Text} {outcomes : List (Nat × IndentOutcome)}
    (h : Command.reindent g doc = .ok (out, outcomes)) :
    (doc.indentRegion g 1 doc.text.lineCount).2 = .ok outcomes ∧
      (doc.indentRegion g 1 doc.text.lineCount).1.text = out := by
  unfold Command.reindent at h
  generalize doc.indentRegion g 1 doc.text.lineCount = run at *
  obtain ⟨indented, result⟩ := run
  cases result with
  | error e => simp at h
  | ok results =>
      simp only [Except.ok.injEq, Prod.mk.injEq] at h
      exact ⟨congrArg _ h.2, h.1⟩

theorem exists_indents_of_reindent {out : Text} {outcomes : List (Nat × IndentOutcome)}
    (h : Command.reindent g doc = .ok (out, outcomes)) :
    ∃ results, Indents g doc.style [] doc.text.lines out.lines results ∧
      outcomes = (List.range' 1 doc.text.lines.length).zip results := by
  obtain ⟨hok, rfl⟩ := reindent_eq_ok h
  rw [indentRegion, regionLines_all] at hok ⊢
  have hlines : doc.text.lines = [] ++ (doc.text.lines ++ []) := by simp
  have hrun : List.range' 1 doc.text.lines.length =
      List.range' (([] : List Text).length + 1) doc.text.lines.length := rfl
  rw [hrun] at hok ⊢
  obtain ⟨new, results, hindents, hfinal, -, houtcomes⟩ := exists_indents_of_indentLines hlines hok
  refine ⟨results, ?_, houtcomes⟩
  rw [List.nil_append, List.append_nil] at hfinal
  rw [hfinal]
  exact hindents

theorem reindent_of_indents {new : List Text}
    (h : Indents g doc.style [] doc.text.lines new outcomes) :
    Command.reindent g doc =
      .ok (['\n'].intercalate new, (List.range' 1 doc.text.lines.length).zip outcomes) := by
  obtain ⟨htext, hok⟩ := doc.indentRegion_of_indents h
  rw [Command.reindent, ← htext, Text.intercalate_lines]
  generalize doc.indentRegion g 1 doc.text.lineCount = run at hok ⊢
  obtain ⟨indented, result⟩ := run
  obtain rfl : result = _ := hok
  rfl

theorem reindent_of_indents_self (hself : Indents g doc.style [] doc.text.lines doc.text.lines
    outcomes) :
    Command.reindent g doc =
      .ok (doc.text, (List.range' 1 doc.text.lines.length).zip outcomes) := by
  rw [reindent_of_indents hself, Text.intercalate_lines]

theorem changedLines_zip_eq_zero (numbers : List Nat)
    (h : ∀ outcome ∈ outcomes, outcome.isReindented = false) :
    Command.changedLines (numbers.zip outcomes) = 0 := by
  apply List.countP_eq_zero.mpr
  intro entry hentry
  rw [h entry.2 (List.of_mem_zip hentry).2]
  exact Bool.false_ne_true

theorem eq_of_isReindented_eq_false {outcome : IndentOutcome} (h : outcome.isReindented = false) :
    outcome = .unchanged ∨ outcome = .suppressed := by
  cases outcome with
  | reindented before after => simp [IndentOutcome.isReindented] at h
  | unchanged => exact .inl rfl
  | suppressed => exact .inr rfl

/-- Indenting reaches a fixed point.  Once a region has been indented, indenting it again succeeds,
leaves the document as it is and rewrites no line.  Once a whole text has been indented, indenting
it again gives the same text with no line changed, and no line of it is out of place. -/
theorem indentRegion_fixed_point :
    (∀ (doc : Document) (first last : Nat) (outcomes : List (Nat × IndentOutcome)),
      (doc.indentRegion .markdown first last).2 = .ok outcomes →
      ∃ again, (doc.indentRegion .markdown first last).1.indentRegion .markdown first last =
          ((doc.indentRegion .markdown first last).1, .ok again) ∧
        ∀ entry ∈ again, entry.2 = .unchanged ∨ entry.2 = .suppressed) ∧
    (∀ (name : String) (text out : Text) (style : IndentStyle)
        (outcomes : List (Nat × IndentOutcome)),
      Command.reindent .markdown (ofText name text style) = .ok (out, outcomes) →
      (∃ again, Command.reindent .markdown (ofText name out style) = .ok (out, again) ∧
        Command.changedLines again = 0) ∧
      ∀ doc : Document, doc.text = out → doc.style = style →
        doc.unstableLines .markdown = .ok []) := by
  constructor
  · intro doc first last outcomes hok
    obtain ⟨again, hagain, hquiet⟩ :=
      indentRegion_indentRegion Grammar.markdown_visibleSigils doc hok
    refine ⟨again, hagain, ?_⟩
    intro entry hentry
    exact eq_of_isReindented_eq_false (hquiet entry hentry)
  · intro name text out style outcomes hok
    obtain ⟨results, hindents, -⟩ := exists_indents_of_reindent hok
    obtain ⟨again, hself, hquiet⟩ := hindents.exists_again Grammar.markdown_visibleSigils
      fun line hline => Text.lineFeed_notMem_of_mem_lines hline
    constructor
    · have hagain : Command.reindent .markdown (ofText name out style) =
          .ok (out, (List.range' 1 out.lines.length).zip again) := reindent_of_indents_self hself
      exact ⟨_, hagain, changedLines_zip_eq_zero _ hquiet⟩
    · rintro doc rfl rfl
      exact unstableLines_of_indents_self hself

theorem indentRegion_fixed_point_item :
    (∃ (doc : Document) (again : List (Nat × IndentOutcome)),
      (doc.indentRegion .markdown 2 3).1.text ≠ doc.text ∧
      (doc.indentRegion .markdown 2 3).1.indentRegion .markdown 2 3 =
        ((doc.indentRegion .markdown 2 3).1, .ok again)) ∧
    (ofText "b" "* a\n  b\n\n  ```\n c".toList .default).unstableLines .markdown = .ok [] := by
  constructor
  · obtain ⟨again, hagain, -⟩ := indentRegion_fixed_point.1
      (ofText "a" "* a\nb\n  \n```\n c".toList .default) 2 3
      [(2, .reindented 0 2), (3, .reindented 2 0)] (by decide +kernel)
    exact ⟨_, again, by decide +kernel, hagain⟩
  · refine (indentRegion_fixed_point.2 "a" "* a\nb\n  \n```\n c".toList
      "* a\n  b\n\n  ```\n c".toList .default [(1, .unchanged), (2, .reindented 0 2),
        (3, .reindented 2 0), (4, .reindented 0 2), (5, .suppressed)] ?_).2 _ rfl rfl
    decide +kernel

end Document

end MarkupLayout

import Mathlib.Data.List.Forall2
import MarkupLayout.Proofs.PlacedColumn
/-!
# One layout in several styles

A style says how wide a level and a tab are and whether tabs are written.  It does not decide where
a line goes, and so not whether a text can be indented.  Styles that measure alike give all lines
the same widths, although the columns of later lines are measured on what was written before.
-/

namespace MarkupLayout

/-! ## Runs that fail -/

namespace Indentation

/-- Below `above`, one of the lines `old` has no column when they are indented from top to
bottom. -/
inductive Fails (g : Grammar) (style : IndentStyle) :
    (above old : List Text) → Nesting.Mismatch → Prop
  | here {above old : List Text} {line : Text} {mismatch : Nesting.Mismatch}
      (hcolumn : columnBelow g style above line = .error mismatch) :
      Fails g style above (line :: old) mismatch
  | later {above old : List Text} {line : Text} {column : Option Nat}
      {mismatch : Nesting.Mismatch} (hcolumn : columnBelow g style above line = .ok column)
      (hmore : Fails g style (above ++ [style.reindented line column]) old mismatch) :
      Fails g style above (line :: old) mismatch

theorem indents_or_fails (g : Grammar) (style : IndentStyle) (above old : List Text) :
    (∃ new outcomes, Indents g style above old new outcomes) ∨
      ∃ mismatch, Fails g style above old mismatch := by
  induction old generalizing above with
  | nil => exact .inl ⟨[], [], .nil above⟩
  | cons line old ih =>
      cases hcolumn : columnBelow g style above line with
      | error mismatch => exact .inr ⟨mismatch, .here hcolumn⟩
      | ok column =>
          rcases ih (above ++ [style.reindented line column]) with ⟨new, outcomes, hmore⟩ |
            ⟨mismatch, hmore⟩
          · exact .inl ⟨_, _, .cons hcolumn hmore⟩
          · exact .inr ⟨mismatch, .later hcolumn hmore⟩

end Indentation

namespace Document

open Indentation (Indents Fails columnBelow)

variable {g : Grammar} {doc : Document} {above old below : List Text}
  {mismatch : Nesting.Mismatch}

theorem indentLines_of_fails (h : doc.text.lines = above ++ (old ++ below))
    (hfails : Fails g doc.style above old mismatch) :
    (doc.indentLines g (List.range' (above.length + 1) old.length)).2 =
      .error ⟨doc.name, mismatch.line, mismatch.token⟩ := by
  induction old generalizing doc above with
  | nil => cases hfails
  | cons line old ih =>
      rw [List.cons_append] at h
      rw [List.length_cons, List.range'_succ]
      cases hfails with
      | here hcolumn => rw [indentLines, indentInRegion_of_lines g h, hcolumn]
      | later hcolumn hmore =>
          obtain ⟨edited, outcome, hedited, hlines, hname, hstyle, -⟩ :=
            exists_indentInRegion_of_ok h hcolumn
          rw [← hstyle] at hlines hmore
          have hlater := ih hlines hmore
          rw [List.length_append, List.length_singleton] at hlater
          rw [indentLines_cons_of_ok hedited, hlater, hname]
          rfl

theorem indentRegion_of_fails (doc : Document) (h : Fails g doc.style [] doc.text.lines mismatch) :
    (doc.indentRegion g 1 doc.text.lineCount).2 =
      .error ⟨doc.name, mismatch.line, mismatch.token⟩ := by
  have hlines : doc.text.lines = [] ++ (doc.text.lines ++ []) := by simp
  rw [indentRegion, regionLines_all]
  exact indentLines_of_fails hlines h

theorem exists_indents_of_indentRegion (doc : Document) {outcomes : List (Nat × IndentOutcome)}
    (h : (doc.indentRegion g 1 doc.text.lineCount).2 = .ok outcomes) :
    ∃ new results, Indents g doc.style [] doc.text.lines new results ∧
      outcomes = (List.range' 1 doc.text.lines.length).zip results := by
  rcases Indentation.indents_or_fails g doc.style [] doc.text.lines with
    ⟨new, results, hindents⟩ | ⟨mismatch, hfails⟩
  · obtain ⟨-, hok⟩ := doc.indentRegion_of_indents hindents
    exact ⟨new, results, hindents, Except.ok.inj (h.symm.trans hok)⟩
  · have hboth := h.symm.trans (doc.indentRegion_of_fails hfails)
    simp at hboth

theorem exists_fails_of_indentRegion (doc : Document) {e : MalformedNesting}
    (h : (doc.indentRegion g 1 doc.text.lineCount).2 = .error e) :
    ∃ mismatch, Fails g doc.style [] doc.text.lines mismatch ∧
      e = ⟨doc.name, mismatch.line, mismatch.token⟩ := by
  rcases Indentation.indents_or_fails g doc.style [] doc.text.lines with
    ⟨new, results, hindents⟩ | ⟨mismatch, hfails⟩
  · have hboth := h.symm.trans (doc.indentRegion_of_indents hindents).2
    simp at hboth
  · exact ⟨mismatch, hfails, Except.error.inj (h.symm.trans (doc.indentRegion_of_fails hfails))⟩

end Document

/-! ## The style does not decide whether a text can be indented -/

theorem Text.lineFeed_notMem_of_flush {ls : List Text} (h : ∀ line ∈ flush ls, '\n' ∉ line) :
    ∀ line ∈ ls, '\n' ∉ line := by
  intro line hmem hbreak
  rw [← leading_append line] at hbreak
  rcases List.mem_append.mp hbreak with hbreak | hbreak
  · exact absurd rfl (bne_iff_ne.mp (bne_lineFeed_of_isIndentChar
      (all_isIndentChar_leading line) _ hbreak))
  · exact h _ (List.mem_map_of_mem hmem) hbreak

namespace Indentation

variable {g : Grammar} {style style' : IndentStyle} {above above' old new : List Text}

theorem columnBelow_cases (hg : g.PlainLayout) (style style' : IndentStyle)
    (habove : ∀ line ∈ above, '\n' ∉ line)
    (hflush : Text.flush above = Text.flush above') (line : Text) :
    (∃ mismatch, columnBelow g style above line = .error mismatch ∧
      columnBelow g style' above' line = .error mismatch) ∨
    ∃ place : Option Placement,
      placementBelow g (Text.flush above) line = .ok place ∧
      columnBelow g style above line = .ok (place.map (Placement.column style above)) ∧
      columnBelow g style' above' line = .ok (place.map (Placement.column style' above')) := by
  have habove' : ∀ line ∈ above', '\n' ∉ line := by
    apply Text.lineFeed_notMem_of_flush
    rw [← hflush]
    exact Text.lineFeed_notMem_flush habove
  rw [columnBelow_eq hg style habove, columnBelow_eq hg style' habove',
    ← placementBelow_flush hg habove, ← placementBelow_flush hg habove', ← hflush]
  cases placementBelow g (Text.flush above) line with
  | error mismatch => exact .inl ⟨mismatch, rfl, rfl⟩
  | ok place => exact .inr ⟨place, rfl, rfl, rfl⟩

theorem flush_concat_reindented (style : IndentStyle) (above : List Text) (line : Text)
    (column : Option Nat) :
    Text.flush (above ++ [style.reindented line column]) =
      Text.flush above ++ [line.dropWhile Text.isIndentChar] := by
  rw [Text.flush, List.map_append, List.map_singleton, style.dropWhile_reindented]
  rfl

theorem lineFeed_notMem_concat_reindented (style : IndentStyle) {line : Text}
    (habove : ∀ line ∈ above, '\n' ∉ line) (hline : '\n' ∉ line) (column : Option Nat) :
    ∀ other ∈ above ++ [style.reindented line column], '\n' ∉ other := by
  intro other hmem
  rcases List.mem_append.mp hmem with hmem | hmem
  · exact habove other hmem
  · rw [List.mem_singleton.mp hmem]
    exact style.lineFeed_notMem_reindented hline column

theorem Fails.congr (hg : g.PlainLayout) (style' : IndentStyle) {mismatch : Nesting.Mismatch}
    (h : Fails g style above old mismatch)
    (habove : ∀ line ∈ above, '\n' ∉ line) (hold : ∀ line ∈ old, '\n' ∉ line)
    (hflush : Text.flush above = Text.flush above') : Fails g style' above' old mismatch := by
  induction h generalizing above' with
  | @here above old line mismatch hcolumn =>
      rcases columnBelow_cases hg style style' habove hflush line with
        ⟨other, hother, hother'⟩ | ⟨place, -, hplace, -⟩
      · rw [hcolumn, Except.error.injEq] at hother
        rw [← hother] at hother'
        exact .here hother'
      · rw [hcolumn] at hplace
        simp at hplace
  | @later above old line column mismatch hcolumn _ ih =>
      rcases columnBelow_cases hg style style' habove hflush line with
        ⟨other, hother, -⟩ | ⟨place, -, -, hplace'⟩
      · rw [hcolumn] at hother
        simp at hother
      · apply Fails.later hplace'
        apply ih
        · exact lineFeed_notMem_concat_reindented style habove (hold line (by simp)) column
        · exact fun other hmem => hold other (by simp [hmem])
        · rw [flush_concat_reindented, hflush, flush_concat_reindented]

end Indentation

/-! ## Styles that measure alike -/

namespace IndentStyle

/-- Styles that measure alike, though one may write tabs where the other writes spaces. -/
structure MeasuresAs (style style' : IndentStyle) : Prop where
  indentWidth : style.indentWidth = style'.indentWidth
  tabWidth : style.tabWidth = style'.tabWidth

def measured (style : IndentStyle) (line : Text) : Nat × Text :=
  (style.indentOf line, line.dropWhile Text.isIndentChar)

variable {style style' : IndentStyle} {ls ls' : List Text}

theorem flush_of_measured (h : ls.map style.measured = ls'.map style'.measured) :
    Text.flush ls = Text.flush ls' := by
  have hbodies := congrArg (List.map Prod.snd) h
  rwa [List.map_map, List.map_map] at hbodies

theorem indentOf_getD_of_measured (h : ls.map style.measured = ls'.map style'.measured)
    (i : Nat) : style.indentOf (ls.getD i []) = style'.indentOf (ls'.getD i []) := by
  have hwidth (style : IndentStyle) (ls : List Text) :
      style.indentOf (ls.getD i []) = ((ls.map style.measured).getD i (style.measured [])).1 := by
    rw [List.getD_map]
    rfl
  rw [hwidth style, h, hwidth style']
  rfl

theorem measured_reindented (h : style.MeasuresAs style') (line : Text) (column : Option Nat) :
    style.measured (style.reindented line column) =
      style'.measured (style'.reindented line column) := by
  rw [measured, measured, style.dropWhile_reindented, style'.dropWhile_reindented]
  cases column with
  | none => rw [reindented, reindented, indentOf, indentOf, h.tabWidth]
  | some width =>
      rw [indentOf, indentOf, leading_reindented, leading_reindented, style.width_write,
        style'.width_write]

end IndentStyle

theorem Placement.column_congr {style style' : IndentStyle} (h : style.MeasuresAs style')
    {ls ls' : List Text} (hls : ls.map style.measured = ls'.map style'.measured)
    (place : Placement) : place.column style ls = place.column style' ls' := by
  cases place with
  | beside line inner =>
      rw [column, column, IndentStyle.indentOf_getD_of_measured hls, h.tabWidth]
  | shifted basis levels =>
      rw [column, column, h.indentWidth]
      simp only [IndentStyle.indentOf_getD_of_measured hls]

theorem Indentation.Indents.exists_measured {g : Grammar} (hg : g.PlainLayout)
    {style style' : IndentStyle} (hstyle : style.MeasuresAs style')
    {above above' old new : List Text}
    {outcomes : List IndentOutcome} (h : Indents g style above old new outcomes)
    (habove : ∀ line ∈ above, '\n' ∉ line) (hold : ∀ line ∈ old, '\n' ∉ line)
    (hsame : above.map style.measured = above'.map style'.measured) :
    ∃ new' outcomes', Indents g style' above' old new' outcomes' ∧
      new.map style.measured = new'.map style'.measured := by
  induction h generalizing above' with
  | nil above => exact ⟨[], [], .nil above', rfl⟩
  | @cons above old new line column outcomes hcolumn _ ih =>
      rcases columnBelow_cases hg style style' habove (IndentStyle.flush_of_measured hsame)
        line with ⟨mismatch, herror, -⟩ | ⟨place, -, hplace, hplace'⟩
      · rw [hcolumn] at herror
        simp at herror
      · obtain rfl : column = place.map (Placement.column style above) :=
          Except.ok.inj (hcolumn.symm.trans hplace)
        have hwidth : place.map (Placement.column style above) =
            place.map (Placement.column style' above') :=
          congrArg (Option.map · place) (funext (Placement.column_congr hstyle hsame))
        rw [← hwidth] at hplace'
        have hline := IndentStyle.measured_reindented hstyle line
          (place.map (Placement.column style above))
        -- What was written below `above` measures alike, whatever characters it was written with.
        have hconcat : (above ++ [style.reindented line
              (place.map (Placement.column style above))]).map style.measured =
            (above' ++ [style'.reindented line
              (place.map (Placement.column style above))]).map style'.measured := by
          simp only [List.map_append, List.map_singleton, hsame, hline]
        obtain ⟨new', outcomes', hmore, hnew⟩ := ih
          (lineFeed_notMem_concat_reindented style habove (hold line (by simp)) _)
          (fun other hmem => hold other (by simp [hmem])) hconcat
        refine ⟨_, _, .cons hplace' hmore, ?_⟩
        rw [List.map_cons, List.map_cons, hline, hnew]

namespace Document

theorem indentRegion_error_congr {g : Grammar} (hg : g.PlainLayout) {name : String} {text : Text}
    {style : IndentStyle} {e : MalformedNesting}
    (h : ((ofText name text style).indentRegion g 1 text.lineCount).2 = .error e)
    (style' : IndentStyle) :
    ((ofText name text style').indentRegion g 1 text.lineCount).2 = .error e := by
  obtain ⟨mismatch, hfails, rfl⟩ := (ofText name text style).exists_fails_of_indentRegion h
  have hlines : ∀ line ∈ text.lines, '\n' ∉ line := fun line hmem =>
    Text.lineFeed_notMem_of_mem_lines hmem
  have hfails' := hfails.congr hg style' (by simp) hlines rfl
  exact (ofText name text style').indentRegion_of_fails hfails'

theorem indentRegion_measured {g : Grammar} (hg : g.PlainLayout) {name : String} {text : Text}
    {style style' : IndentStyle} (hstyle : style.MeasuresAs style')
    {outcomes : List (Nat × IndentOutcome)}
    (h : ((ofText name text style).indentRegion g 1 text.lineCount).2 = .ok outcomes) :
    ∃ outcomes',
      ((ofText name text style').indentRegion g 1 text.lineCount).2 = .ok outcomes' ∧
      ((ofText name text style).indentRegion g 1 text.lineCount).1.text.lines.map style.measured =
        ((ofText name text style').indentRegion g 1 text.lineCount).1.text.lines.map
          style'.measured := by
  obtain ⟨new, results, hindents, -⟩ := (ofText name text style).exists_indents_of_indentRegion h
  have hlines : ∀ line ∈ text.lines, '\n' ∉ line := fun line hmem =>
    Text.lineFeed_notMem_of_mem_lines hmem
  have hnil : ([] : List Text).map style.measured = [].map style'.measured := rfl
  obtain ⟨new', results', hindents', hsame⟩ :=
    hindents.exists_measured hg hstyle (by simp) hlines hnil
  obtain ⟨htext, -⟩ := (ofText name text style).indentRegion_of_indents hindents
  obtain ⟨htext', hok'⟩ := (ofText name text style').indentRegion_of_indents hindents'
  exact ⟨_, hok', (congrArg _ htext).trans (hsame.trans (congrArg _ htext').symm)⟩

/-- Tabs change how indentation is spelled and nothing else.  Indenting all lines with tabs and
without them fails with the same error, or gives as many lines that pairwise agree behind their
indentation and have indentations of one width. -/
theorem indentRegion_tabs (name : String) (text : Text) (indentWidth tabWidth : Nat) :
    let run (useTabs : Bool) := (ofText name text ⟨indentWidth, tabWidth, useTabs⟩).indentRegion
      .markdown 1 text.lineCount
    (∃ e, (run true).2 = .error e ∧ (run false).2 = .error e) ∨
    ∃ outcomes outcomes', (run true).2 = .ok outcomes ∧ (run false).2 = .ok outcomes' ∧
      (run true).1.text.lineCount = (run false).1.text.lineCount ∧
      List.Forall₂ (fun line line' =>
        line.dropWhile Text.isIndentChar = line'.dropWhile Text.isIndentChar ∧
          Text.width tabWidth line.leading = Text.width tabWidth line'.leading)
        (run true).1.text.lines (run false).1.text.lines := by
  intro run
  have hmeasures : IndentStyle.MeasuresAs ⟨indentWidth, tabWidth, true⟩
      ⟨indentWidth, tabWidth, false⟩ := ⟨rfl, rfl⟩
  cases hrun : (run true).2 with
  | error e => exact .inl ⟨e, rfl, indentRegion_error_congr Grammar.markdown_plainLayout hrun _⟩
  | ok outcomes =>
      obtain ⟨outcomes', hok', hsame⟩ :=
        indentRegion_measured Grammar.markdown_plainLayout hmeasures hrun
      refine .inr ⟨outcomes, outcomes', rfl, hok', ?_, ?_⟩
      · have hlength := congrArg List.length hsame
        rw [List.length_map, List.length_map] at hlength
        rw [Text.lineCount_eq_length_lines, Text.lineCount_eq_length_lines, hlength]
      · rw [← List.forall₂_eq_eq_eq, List.forall₂_map_left_iff, List.forall₂_map_right_iff] at hsame
        refine hsame.imp ?_
        intro line line' hline
        exact ⟨congrArg Prod.snd hline, congrArg Prod.fst hline⟩

end Document

end MarkupLayout

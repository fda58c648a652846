import Mathlib.Control.Monad.Basic
import MarkupLayout.Proofs.RegionLines
import MarkupLayout.Proofs.SigilLine
/-!
# Indenting forgets the old indentation

Two texts that differ only in the indentation of lines outside literals are indented to the same
text.  The two runs are compared line by line: the lines already indented are the same in both,
and the column of the next line depends on them and on what stands behind its indentation.
-/

namespace MarkupLayout

theorem Text.lineFeed_notMem_stripReturn {t : Text} (h : '\n' ∉ t) : '\n' ∉ t.stripReturn := by
  unfold stripReturn
  split
  · exact fun hmem => h (List.dropLast_subset _ hmem)
  · exact h

theorem Indentation.columnBelow_congr {g : Grammar} (hg : g.VisibleSigils) (style : IndentStyle)
    (ls : List Text) {line₁ line₂ : Text} (h₁ : '\n' ∉ line₁) (h₂ : '\n' ∉ line₂)
    (h : line₁.dropWhile Text.isIndentChar = line₂.dropWhile Text.isIndentChar) :
    columnBelow g style ls line₁ = columnBelow g style ls line₂ := by
  obtain ⟨sigils, hpattern, hsigils, -⟩ := Pattern.sigilLine_eq hg
  have hcontent : line₁.stripReturn.dropWhile Text.isIndentChar =
      line₂.stripReturn.dropWhile Text.isIndentChar := by
    rw [Text.stripReturn_dropWhile, Text.stripReturn_dropWhile, h]
  have hblank : line₁.stripReturn.isBlank = line₂.stripReturn.isBlank := by
    rw [← Text.isBlank_dropWhile, hcontent, Text.isBlank_dropWhile]
  have hsigil : g.sigilLine.occursIn line₁.stripReturn =
      g.sigilLine.occursIn line₂.stripReturn := by
    rw [hpattern, Pattern.occursIn_sigilLine hsigils (Text.lineFeed_notMem_stripReturn h₁),
      Pattern.occursIn_sigilLine hsigils (Text.lineFeed_notMem_stripReturn h₂), hcontent]
  rw [columnBelow, columnBelow, hblank, hsigil]

theorem IndentStyle.reindented_congr (style : IndentStyle) {line₁ line₂ : Text}
    {column : Option Nat} (hsame : column = none → line₁ = line₂)
    (h : line₁.dropWhile Text.isIndentChar = line₂.dropWhile Text.isIndentChar) :
    style.reindented line₁ column = style.reindented line₂ column := by
  cases column with
  | none => exact hsame rfl
  | some width => rw [reindented, reindented, h]

namespace Document

theorem map_eq_ok {ε α β : Type} {f : α → β} {x : Except ε α} {b : β}
    (h : x.map f = .ok b) : ∃ a, x = .ok a ∧ b = f a := by
  cases x with
  | error e => simp [Except.map] at h
  | ok a =>
      simp only [Except.map, Except.ok.injEq] at h
      exact ⟨a, rfl, h.symm⟩

theorem map_eq_error {ε α β : Type} {f : α → β} {x : Except ε α} {e : ε}
    (h : x.map f = .error e) : x = .error e := by
  cases x with
  | error e' => exact congrArg Except.error (Except.error.inj h)
  | ok a => simp [Except.map] at h

theorem indentLines_cons_of_ok {g : Grammar} {doc edited : Document} {line : Nat}
    {outcome : IndentOutcome} (h : doc.indentInRegion g line = .ok (edited, outcome))
    (more : List Nat) :
    doc.indentLines g (line :: more) = ((edited.indentLines g more).1,
      (edited.indentLines g more).2.map ((line, outcome) :: ·)) := by
  rw [indentLines, h]

theorem indentInRegion_agree {g : Grammar} (hg : g.VisibleSigils) {ls more₁ more₂ : List Text}
    {line₁ line₂ : Text} {doc₁ doc₂ edited₁ : Document} {outcome : IndentOutcome}
    (hstyle : doc₁.style = doc₂.style) (h₁ : doc₁.text.lines = ls ++ line₁ :: more₁)
    (h₂ : doc₂.text.lines = ls ++ line₂ :: more₂)
    (hok : doc₁.indentInRegion g (ls.length + 1) = .ok (edited₁, outcome))
    (hsame : outcome = .suppressed → line₁ = line₂)
    (hbody : line₁.dropWhile Text.isIndentChar = line₂.dropWhile Text.isIndentChar) :
    ∃ edited₂ outcome₂ line, doc₂.indentInRegion g (ls.length + 1) = .ok (edited₂, outcome₂) ∧
      edited₁.text.lines = (ls ++ [line]) ++ more₁ ∧
      edited₂.text.lines = (ls ++ [line]) ++ more₂ ∧ edited₁.style = edited₂.style := by
  -- The first document says what the column is.
  cases hcolumn₁ : Indentation.columnBelow g doc₁.style ls line₁ with
  | error mismatch =>
      rw [indentInRegion_of_lines g h₁, hcolumn₁] at hok
      simp at hok
  | ok column =>
      have hcolumn₂ : Indentation.columnBelow g doc₂.style ls line₂ = .ok column := by
        rw [← hstyle, ← hcolumn₁]
        refine (Indentation.columnBelow_congr hg _ ls ?_ ?_ hbody).symm
        · exact Text.lineFeed_notMem_of_mem_lines (t := doc₁.text) (by simp [h₁])
        · exact Text.lineFeed_notMem_of_mem_lines (t := doc₂.text) (by simp [h₂])
      obtain ⟨_, _, hregion₁, hlines₁, -, hstyle₁, hsuppressed⟩ :=
        exists_indentInRegion_of_ok h₁ hcolumn₁
      obtain ⟨edited₂, outcome₂, hregion₂, hlines₂, -, hstyle₂, -⟩ :=
        exists_indentInRegion_of_ok h₂ hcolumn₂
      rw [hregion₁, Except.ok.injEq, Prod.mk.injEq] at hok
      obtain ⟨rfl, rfl⟩ := hok
      have hnew : doc₁.style.reindented line₁ column = doc₂.style.reindented line₂ column := by
        rw [← hstyle]
        exact IndentStyle.reindented_congr _ (fun hnone => hsame (hsuppressed.mpr hnone)) hbody
      rw [hnew] at hlines₁
      exact ⟨edited₂, outcome₂, _, hregion₂, hlines₁, hlines₂,
        hstyle₁.trans (hstyle.trans hstyle₂.symm)⟩

theorem indentLines_agree {g : Grammar} (hg : g.VisibleSigils) {todo₁ todo₂ ls : List Text}
    {doc₁ doc₂ : Document} {outcomes : List (Nat × IndentOutcome)}
    (hstyle : doc₁.style = doc₂.style) (h₁ : doc₁.text.lines = ls ++ todo₁)
    (h₂ : doc₂.text.lines = ls ++ todo₂) (hlength : todo₁.length = todo₂.length)
    (hok : (doc₁.indentLines g (List.range' (ls.length + 1) todo₁.length)).2 = .ok outcomes)
    (hagree : ∀ i outcome line₁ line₂, (ls.length + 1 + i, outcome) ∈ outcomes →
      todo₁[i]? = some line₁ → todo₂[i]? = some line₂ →
      (outcome = .suppressed → line₁ = line₂) ∧
        line₁.dropWhile Text.isIndentChar = line₂.dropWhile Text.isIndentChar) :
    (∃ outcomes₂,
      (doc₂.indentLines g (List.range' (ls.length + 1) todo₂.length)).2 = .ok outcomes₂) ∧
      (doc₁.indentLines g (List.range' (ls.length + 1) todo₁.length)).1.text =
        (doc₂.indentLines g (List.range' (ls.length + 1) todo₂.length)).1.text := by
  induction todo₁ generalizing todo₂ ls doc₁ doc₂ outcomes with
  | nil =>
      obtain rfl : todo₂ = [] := List.eq_nil_of_length_eq_zero hlength.symm
      refine ⟨⟨[], rfl⟩, ?_⟩
      change doc₁.text = doc₂.text
      rw [← doc₁.text.intercalate_lines, ← doc₂.text.intercalate_lines, h₁, h₂]
  | cons line₁ todo₁ ih =>
      obtain ⟨line₂, todo₂, rfl⟩ := List.exists_cons_of_length_eq_add_one hlength.symm
      simp only [List.length_cons, Nat.add_right_cancel_iff] at hlength
      simp only [List.length_cons, List.range'_succ] at hok ⊢
      cases hregion₁ : doc₁.indentInRegion g (ls.length + 1) with
      | error e =>
          rw [indentLines, hregion₁] at hok
          simp at hok
      | ok result =>
          obtain ⟨edited₁, outcome⟩ := result
          rw [indentLines_cons_of_ok hregion₁] at hok ⊢
          obtain ⟨later, hlater, houtcomes⟩ := map_eq_ok hok
          obtain ⟨hsame, hbody⟩ := hagree 0 outcome line₁ line₂ (by simp [houtcomes]) (by simp)
            (by simp)
          obtain ⟨edited₂, outcome₂, line, hregion₂, hlines₁, hlines₂, hstyles⟩ :=
            indentInRegion_agree hg hstyle h₁ h₂ hregion₁ hsame hbody
          rw [indentLines_cons_of_ok hregion₂]
          have hmore := ih hstyles hlines₁ hlines₂ hlength (by simpa using hlater) ?_
          · obtain ⟨⟨outcomes₂, hok₂⟩, htext⟩ := hmore
            rw [List.length_append, List.length_singleton] at hok₂ htext
            exact ⟨⟨(ls.length + 1, outcome₂) :: outcomes₂, by simp [hok₂, Except.map]⟩, htext⟩
          · intro i outcome line₁ line₂ hmem hline₁ hline₂
            apply hagree (i + 1) outcome line₁ line₂ _ (by simpa using hline₁)
              (by simpa using hline₂)
            rw [houtcomes]
            apply List.mem_cons_of_mem
            rwa [List.length_append, List.length_singleton, Nat.add_assoc _ 1 i,
              Nat.add_comm 1 i] at hmem

theorem regionLines_all (doc : Document) :
    doc.regionLines 1 doc.text.lineCount = List.range' 1 doc.text.lines.length := by
  rw [regionLines, doc.text.lineCount_eq_length_lines, Nat.min_self, Nat.max_self,
    Nat.add_sub_cancel]

/-- Indenting every line is a canonical form: the indentation that lines outside literals had
before leaves no trace. -/
theorem indentRegion_all_canonical (doc₁ doc₂ : Document)
    (outcomes : List (Nat × IndentOutcome)) (hstyle : doc₁.style = doc₂.style)
    (hcount : doc₁.text.lineCount = doc₂.text.lineCount)
    (hok : (doc₁.indentRegion .markdown 1 doc₁.text.lineCount).2 = .ok outcomes)
    (hagree : ∀ line outcome line₁ line₂, (line, outcome) ∈ outcomes →
      doc₁.text.lines[line - 1]? = some line₁ → doc₂.text.lines[line - 1]? = some line₂ →
      if outcome = .suppressed then line₁ = line₂
      else line₁.dropWhile Text.isIndentChar = line₂.dropWhile Text.isIndentChar) :
    (∃ outcomes₂, (doc₂.indentRegion .markdown 1 doc₂.text.lineCount).2 = .ok outcomes₂) ∧
      (doc₁.indentRegion .markdown 1 doc₁.text.lineCount).1.text =
        (doc₂.indentRegion .markdown 1 doc₂.text.lineCount).1.text := by
  rw [Text.lineCount_eq_length_lines, Text.lineCount_eq_length_lines] at hcount
  simp only [indentRegion, regionLines_all] at hok ⊢
  apply indentLines_agree Grammar.markdown_visibleSigils hstyle (List.nil_append _).symm
    (List.nil_append _).symm hcount hok
  intro i outcome line₁ line₂ hmem hline₁ hline₂
  rw [List.length_nil, Nat.zero_add] at hmem
  have hline := hagree (1 + i) outcome line₁ line₂ hmem
    (by rwa [Nat.add_sub_cancel_left]) (by rwa [Nat.add_sub_cancel_left])
  split at hline
  · exact ⟨fun _ => hline, by rw [hline]⟩
  · exact ⟨fun hsuppressed => absurd hsuppressed ‹_›, hline⟩

theorem indentRegion_all_canonical_item : ∃ doc₁ doc₂ : Document, doc₁.text ≠ doc₂.text ∧
    (doc₁.indentRegion .markdown 1 doc₁.text.lineCount).1.text =
      (doc₂.indentRegion .markdown 1 doc₂.text.lineCount).1.text := by
  have hlines₁ : (ofText "a" "* a\n  b\n```\n c".toList .default).text.lines =
      ["* a".toList, "  b".toList, "```".toList, " c".toList] := by decide +kernel
  have hlines₂ : (ofText "b" "   * a\nb\n\t```\n c".toList .default).text.lines =
      ["   * a".toList, "b".toList, "\t```".toList, " c".toList] := by decide +kernel
  refine ⟨ofText "a" "* a\n  b\n```\n c".toList .default,
    ofText "b" "   * a\nb\n\t```\n c".toList .default, by decide +kernel,
    (indentRegion_all_canonical (ofText "a" "* a\n  b\n```\n c".toList .default)
      (ofText "b" "   * a\nb\n\t```\n c".toList .default)
      [(1, .unchanged), (2, .unchanged), (3, .reindented 0 2), (4, .suppressed)]
      rfl (by decide +kernel) (by decide +kernel) ?_).2⟩
  rw [hlines₁, hlines₂]
  intro line outcome line₁ line₂ hmem hline₁ hline₂
  simp only [List.mem_cons, Prod.mk.injEq, List.not_mem_nil, or_false] at hmem
  rcases hmem with ⟨rfl, rfl⟩ | ⟨rfl, rfl⟩ | ⟨rfl, rfl⟩ | ⟨rfl, rfl⟩ <;>
    (cases hline₁; cases hline₂; decide +kernel)

end Document

end MarkupLayout

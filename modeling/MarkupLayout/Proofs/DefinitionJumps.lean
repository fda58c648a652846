import MarkupLayout.Document.Jump
import MarkupLayout.Proofs.ColumnFromAbove
import MarkupLayout.Proofs.DefinitionLines
/-!
# Jumps of the cursor

A jump puts the cursor on the first visible character at its destination.  The line of a definition
shows its sigil, so the cursor stays on the line; at the ends of the text no definition is left
further on.  Jumps therefore compose, and a jump back undoes a jump between definitions.
-/

namespace MarkupLayout

/-! ## Lines on both sides of a line -/

namespace Outline

section Sorted

variable {r : Nat → Nat → Prop} [DecidableRel r] [IsStrictOrder Nat r]
  {lines left right : List Nat} {line found n : Nat}

theorem filter_behind (h : (left ++ line :: right).Pairwise r) :
    (left ++ line :: right).filter (r line ·) = right := by
  obtain ⟨-, hright, hacross⟩ := List.pairwise_append.mp h
  have hnone : left.filter (r line ·) = [] := by
    rw [List.filter_eq_nil_iff]
    intro other hother hrel
    exact asymm (hacross other hother line List.mem_cons_self) (of_decide_eq_true hrel)
  have hall : right.filter (r line ·) = right :=
    List.filter_eq_self.mpr fun other hother =>
      decide_eq_true (List.rel_of_pairwise_cons hright hother)
  rw [List.filter_append, hnone, List.nil_append,
    List.filter_cons_of_neg (by simp [irrefl_of r line]), hall]

theorem filter_before (h : (left ++ line :: right).Pairwise r) :
    (left ++ line :: right).filter (r · line) = left := by
  obtain ⟨-, hright, hacross⟩ := List.pairwise_append.mp h
  have hnone : right.filter (r · line) = [] := by
    rw [List.filter_eq_nil_iff]
    intro other hother hrel
    exact asymm (List.rel_of_pairwise_cons hright hother) (of_decide_eq_true hrel)
  have hall : left.filter (r · line) = left :=
    List.filter_eq_self.mpr fun other hother =>
      decide_eq_true (hacross other hother line List.mem_cons_self)
  rw [List.filter_append, hall, List.filter_cons_of_neg (by simp [irrefl_of r line]), hnone,
    List.append_nil]

theorem filter_of_getElem? (h : lines.Pairwise r)
    (hfound : (lines.filter (r line ·))[n]? = some found) :
    lines.filter (r found ·) = (lines.filter (r line ·)).drop (n + 1) := by
  have hrel : r line found :=
    of_decide_eq_true (List.mem_filter.mp (List.mem_of_getElem? hfound)).2
  have hsame : lines.filter (r found ·) = (lines.filter (r line ·)).filter (r found ·) := by
    rw [List.filter_filter]
    refine List.filter_congr fun other _ => ?_
    by_cases hother : r found other
    · simp [hother, trans_of r hrel hother]
    · simp [hother]
  have hsorted := h.filter (r line ·)
  obtain ⟨left, right, hsplit, rfl⟩ := exists_append_of_getElem? hfound
  rw [hsame, hsplit, filter_behind (hsplit ▸ hsorted), List.drop_append]
  simp

/-- If the `n`-th line behind a listed line is `found`, then that line is the `n`-th one before
`found`. -/
theorem getElem?_reverse_filter (h : lines.Pairwise r) (hmem : line ∈ lines)
    (hfound : (lines.filter (r line ·))[n]? = some found) :
    (lines.reverse.filter (r · found))[n]? = some line := by
  obtain ⟨before, behind, rfl⟩ := List.append_of_mem hmem
  rw [filter_behind h] at hfound
  obtain ⟨left, right, rfl, rfl⟩ := exists_append_of_getElem? hfound
  have hsplit : before ++ line :: (left ++ found :: right) =
      (before ++ line :: left) ++ found :: right := by simp
  rw [hsplit] at h ⊢
  rw [List.filter_reverse, filter_before h]
  simp

end Sorted

end Outline

/-! ## What a definition's line shows -/

theorem Grammar.markdown_sigils_visible :
    ∀ sigil ∈ Grammar.markdown.blockSigils, sigil.head?.any (!Unicode.isBlank ·) = true := by
  decide

theorem Token.text_mem_of_blockSigil {g : Grammar} {t : Text} {firstLine : Nat} {token : Token}
    (h : token ∈ tokenize g t firstLine) (hkind : token.kind = .keyword .blockSigil) :
    token.text ∈ g.blockSigils := by
  obtain ⟨piece, _, hfits, hsame, htext⟩ := exists_fits_of_isKeyword h (by rw [hkind]; rfl)
  have hsigil := (hfits.sigil (hsame.trans hkind)).1
  rw [htext] at hsigil
  exact List.contains_iff_mem.mp hsigil

theorem exists_visible_of_mem_definitionLines {t : Text} {line : Nat}
    (h : line ∈ Outline.definitionLines .markdown t) :
    ∃ (before : Text) (c : Char) (behind : Text), t = before ++ c :: behind ∧
      Unicode.isBlank c = false ∧ before.lastLine = line := by
  rw [Outline.definitionLines, List.mem_map] at h
  obtain ⟨n, hn, rfl⟩ := h
  obtain ⟨hmem, hdefinition⟩ := List.mem_filter.mp hn
  obtain ⟨hkind, -, -⟩ := Neighbourhood.isDefinition_iff.mp hdefinition
  have hsplit : tokenize .markdown t 1 = n.before.reverse ++ n.token :: n.behind :=
    (Neighbourhood.eq_of_mem_allFrom hmem).symm
  have hvisible := Grammar.markdown_sigils_visible _
    (Token.text_mem_of_blockSigil (by rw [hsplit]; simp) hkind)
  have htext := flatMap_text_tokenize .markdown t 1
  have hposition := Token.position_of_place hsplit
  rw [Position.after_eq, Position.mk.injEq] at hposition
  rw [hsplit, List.flatMap_append, List.flatMap_cons] at htext
  cases hsigil : n.token.text with
  | nil => simp [hsigil] at hvisible
  | cons c sigil =>
      rw [hsigil] at htext hvisible
      exact ⟨_, c, sigil ++ n.behind.flatMap Token.text, htext.symm, by simpa using hvisible,
        hposition.1.symm⟩

namespace Text

theorem prefix_of_visible {above below before behind : Text} {c : Char}
    (h : above ++ below = before ++ c :: behind) (hc : Unicode.isBlank c = false)
    (habove : above <+: before) :
    above ++ below.takeWhile Unicode.isBlank <+: before := by
  obtain ⟨left, rfl⟩ := habove
  rw [List.append_assoc, List.append_cancel_left_eq] at h
  rw [h, List.prefix_append_right_inj, List.takeWhile_append]
  split
  · simp [hc]
  · exact List.takeWhile_prefix _

theorem lastLine_le_of_prefix {s t : Text} (h : s <+: t) : s.lastLine ≤ t.lastLine :=
  Nat.add_le_add_left (h.sublist.count_le '\n') 1

theorem exists_isWhole_prefix (t : Text) :
    ∃ above : Text, above.IsWhole ∧ above <+: t ∧ above.lastLine = t.lastLine := by
  have hlines := (List.dropLast_concat_getLast t.lines_ne_nil).symm
  have hlast : '\n' ∉ t.lines.getLast t.lines_ne_nil :=
    lineFeed_notMem_of_mem_lines (List.getLast_mem _)
  have htext := eq_wholeLines_append hlines
  rw [List.intercalate_singleton] at htext
  refine ⟨_, isWhole_wholeLines _, ⟨_, htext.symm⟩, ?_⟩
  have hcount := congrArg (List.count '\n') htext
  rw [List.count_append, List.count_eq_zero.mpr hlast, Nat.add_zero] at hcount
  rw [lastLine, lastLine, ← hcount]

end Text

/-! ## Where the cursor lands -/

namespace Document

open Outline (definitionLines)

variable {doc : Document} {line : Nat}

theorem currentLine_moveTo {above below : Text} {d : Outline.Destination}
    (h : doc.text = above ++ below) (hoffset : doc.offsetOf d = above.byteSize) :
    (doc.moveTo d).currentLine = Text.lastLine (above ++ below.takeWhile Unicode.isBlank) := by
  have hbelow : doc.text.between above.byteSize doc.size = below := by
    rw [size, h]
    simpa using Text.between_append above below []
  have hsplit : doc.text =
      (above ++ below.takeWhile Unicode.isBlank) ++ below.dropWhile Unicode.isBlank := by
    rw [List.append_assoc, List.takeWhile_append_dropWhile, h]
  have hsnap : doc.text.snap (Text.byteSize (above ++ below.takeWhile Unicode.isBlank)) =
      Text.byteSize (above ++ below.takeWhile Unicode.isBlank) := by
    rw [hsplit, Text.snap_byteSize]
  simp only [moveTo, hoffset, hbelow, setCursor, currentLine, lineAt, ← Text.byteSize_append]
  rw [hsnap, hsnap, hsplit, Text.lineAt_append]

theorem currentLine_moveTo_line (h : line ∈ definitionLines .markdown doc.text) :
    (doc.moveTo (.line line)).currentLine = line := by
  obtain ⟨before, c, behind, htext, hc, rfl⟩ := exists_visible_of_mem_definitionLines h
  obtain ⟨above, hwhole, ⟨left, rfl⟩, hline⟩ := before.exists_isWhole_prefix
  have hsplit : doc.text = above ++ (left ++ c :: behind) := by
    rw [htext, List.append_assoc]
  have hcut := Text.cutAtLine?_append hwhole (left ++ c :: behind)
  rw [← hsplit, hline] at hcut
  have hoffset : doc.offsetOf (.line (above ++ left).lastLine) = above.byteSize := by
    rw [offsetOf, Text.lineStart?_of_cutAtLine? hcut, Option.getD_some]
  have hprefix := Text.prefix_of_visible (hsplit.symm.trans htext) hc (List.prefix_append _ _)
  rw [currentLine_moveTo hsplit hoffset]
  apply Nat.le_antisymm (Text.lastLine_le_of_prefix hprefix)
  rw [← hline]
  exact Text.lastLine_le_of_prefix (List.prefix_append _ _)

theorem currentLine_moveTo_of_eq {d : Outline.Destination}
    (h : line ∈ definitionLines .markdown doc.text) (hd : d = .line line) :
    (doc.moveTo d).currentLine = line := by
  rw [hd, currentLine_moveTo_line h]

theorem le_currentLine_moveTo_stop (h : line ∈ definitionLines .markdown doc.text) :
    line ≤ (doc.moveTo .stop).currentLine := by
  obtain ⟨before, c, behind, htext, -, rfl⟩ := exists_visible_of_mem_definitionLines h
  rw [currentLine_moveTo (List.append_nil doc.text).symm rfl]
  apply Text.lastLine_le_of_prefix
  simp [htext]

theorem currentLine_moveTo_start_le (h : line ∈ definitionLines .markdown doc.text) :
    (doc.moveTo .start).currentLine ≤ line := by
  obtain ⟨before, c, behind, htext, hc, rfl⟩ := exists_visible_of_mem_definitionLines h
  rw [currentLine_moveTo (List.nil_append doc.text).symm rfl]
  exact Text.lastLine_le_of_prefix (Text.prefix_of_visible htext hc List.nil_prefix)

/-! ## Jumps one after the other -/

section Landing

variable {r : Nat → Nat → Prop} [DecidableRel r] [IsStrictOrder Nat r] {lines : List Nat}
  {stuck : Outline.Destination}

/-- A jump from where a jump has landed goes on counting.  Jumps that got stuck have no line behind
them. -/
theorem getElem?_filter_lands (lands : Outline.Destination → Nat) (h : lines.Pairwise r)
    (hline : ∀ l ∈ lines, lands (.line l) = l) (hstuck : ∀ l ∈ lines, ¬r (lands stuck) l)
    (line a b : Nat) :
    (lines.filter (r (lands ((lines.filter (r line ·))[a]?.elim stuck .line)) ·))[b]? =
      (lines.filter (r line ·))[a + 1 + b]? := by
  cases hfound : (lines.filter (r line ·))[a]? with
  | none =>
      have hnone : lines.filter (r (lands stuck) ·) = [] := by
        rw [List.filter_eq_nil_iff]
        intro l hl
        simp [hstuck l hl]
      have hlength := List.getElem?_eq_none_iff.mp hfound
      rw [Option.elim_none, hnone, List.getElem?_nil, List.getElem?_eq_none (by omega)]
  | some found =>
      have hmem : found ∈ lines := (List.mem_filter.mp (List.mem_of_getElem? hfound)).1
      rw [Option.elim_some, hline found hmem, Outline.filter_of_getElem? h hfound,
        List.getElem?_drop]

theorem getElem?_of_elim_eq_line {line l n : Nat} (h : lines.Pairwise r) (hmem : line ∈ lines)
    (hstuck : ∀ l, stuck ≠ .line l)
    (hjump : (lines.filter (r line ·))[n]?.elim stuck .line = .line l) :
    l ∈ lines ∧ (lines.reverse.filter (r · l))[n]? = some line := by
  cases hfound : (lines.filter (r line ·))[n]? with
  | none =>
      rw [hfound] at hjump
      exact absurd hjump (hstuck l)
  | some found =>
      rw [hfound, Option.elim_some, Outline.Destination.line.injEq] at hjump
      subst hjump
      exact ⟨(List.mem_filter.mp (List.mem_of_getElem? hfound)).1,
        Outline.getElem?_reverse_filter h hmem hfound⟩

end Landing

section Jumps

variable (doc : Document) (a b : Nat)

theorem forward_forward :
    (doc.forward .markdown (a + 1)).1.forward .markdown (b + 1) =
      doc.forward .markdown (a + 1 + (b + 1)) := by
  have hsame : Outline.forward .markdown doc.text
      (doc.moveTo (Outline.forward .markdown doc.text doc.currentLine (a + 1))).currentLine
        (b + 1) =
      Outline.forward .markdown doc.text doc.currentLine (a + 1 + b + 1) := by
    rw [Outline.forward_succ, Outline.forward_succ, Outline.forward_succ,
      getElem?_filter_lands (fun d => (doc.moveTo d).currentLine)
        (Outline.definitionLines_sorted .markdown doc.text)
        (fun l hl => currentLine_moveTo_line hl)
        (fun l hl => Nat.not_lt.mpr (le_currentLine_moveTo_stop hl))]
  exact congrArg (fun d => (doc.moveTo d, d)) hsame

theorem backward_backward :
    (doc.backward .markdown (a + 1)).1.backward .markdown (b + 1) =
      doc.backward .markdown (a + 1 + (b + 1)) := by
  have hsame : Outline.backward .markdown doc.text
      (doc.moveTo (Outline.backward .markdown doc.text doc.currentLine (a + 1))).currentLine
        (b + 1) =
      Outline.backward .markdown doc.text doc.currentLine (a + 1 + b + 1) := by
    rw [Outline.backward_succ, Outline.backward_succ, Outline.backward_succ,
      getElem?_filter_lands (r := (· > ·)) (fun d => (doc.moveTo d).currentLine)
        (List.pairwise_reverse.mpr (Outline.definitionLines_sorted .markdown doc.text))
        (fun l hl => currentLine_moveTo_line (List.mem_reverse.mp hl))
        (fun l hl => Nat.not_lt.mpr (currentLine_moveTo_start_le (List.mem_reverse.mp hl)))]
  exact congrArg (fun d => (doc.moveTo d, d)) hsame

variable {doc} {n l : Nat} (hmem : doc.currentLine ∈ definitionLines .markdown doc.text)

include hmem

theorem backward_of_forward (h : (doc.forward .markdown n).2 = .line l) :
    (doc.forward .markdown n).1.currentLine = l ∧
      ((doc.forward .markdown n).1.backward .markdown n).2 = .line doc.currentLine := by
  have hforward : Outline.forward .markdown doc.text doc.currentLine n = .line l := h
  cases n with
  | zero =>
      obtain rfl : doc.currentLine = l := Outline.Destination.line.inj h
      have hlands := currentLine_moveTo_line hmem
      exact ⟨hlands, congrArg Outline.Destination.line hlands⟩
  | succ n =>
      rw [Outline.forward_succ] at hforward
      obtain ⟨hl, hback⟩ := getElem?_of_elim_eq_line
        (Outline.definitionLines_sorted .markdown doc.text) hmem (by simp) hforward
      have hlands : (doc.forward .markdown (n + 1)).1.currentLine = l := by
        rw [forward, Outline.forward_succ, hforward]
        exact currentLine_moveTo_line hl
      have hreturn : Outline.backward .markdown doc.text l (n + 1) = .line doc.currentLine := by
        rw [Outline.backward_succ, hback, Option.elim_some]
      exact ⟨hlands, by rw [backward, hlands]; exact hreturn⟩

theorem forward_of_backward (h : (doc.backward .markdown n).2 = .line l) :
    (doc.backward .markdown n).1.currentLine = l ∧
      ((doc.backward .markdown n).1.forward .markdown n).2 = .line doc.currentLine := by
  have hbackward : Outline.backward .markdown doc.text doc.currentLine n = .line l := h
  cases n with
  | zero =>
      obtain rfl : doc.currentLine = l := Outline.Destination.line.inj h
      have hlands := currentLine_moveTo_line hmem
      exact ⟨hlands, congrArg Outline.Destination.line hlands⟩
  | succ n =>
      rw [Outline.backward_succ] at hbackward
      have hsorted := List.pairwise_reverse.mpr
        (Outline.definitionLines_sorted .markdown doc.text)
      obtain ⟨hl, hback⟩ := getElem?_of_elim_eq_line (r := (· > ·)) hsorted
        (List.mem_reverse.mpr hmem) (by simp) hbackward
      simp only [List.reverse_reverse, gt_iff_lt] at hback
      have hlands : (doc.backward .markdown (n + 1)).1.currentLine = l := by
        rw [backward, Outline.backward_succ, hbackward]
        exact currentLine_moveTo_line (List.mem_reverse.mp hl)
      have hreturn : Outline.forward .markdown doc.text l (n + 1) = .line doc.currentLine := by
        rw [Outline.forward_succ, hback, Option.elim_some]
      exact ⟨hlands, by rw [forward, hlands]; exact hreturn⟩

end Jumps

/-- Jumps in one direction add up, also when they run out of definitions.  From the line of a
definition, a jump that finds a line puts the cursor there, and the jump back puts it on the line
it came from. -/
theorem jumps_compose_and_undo (doc : Document) :
    (∀ a b, 1 ≤ a → 1 ≤ b →
      (doc.forward .markdown a).1.forward .markdown b = doc.forward .markdown (a + b) ∧
      (doc.backward .markdown a).1.backward .markdown b = doc.backward .markdown (a + b)) ∧
    (doc.currentLine ∈ definitionLines .markdown doc.text → ∀ n l,
      ((doc.forward .markdown n).2 = .line l →
        (doc.forward .markdown n).1.currentLine = l ∧
        ((doc.forward .markdown n).1.backward .markdown n).2 = .line doc.currentLine ∧
        ((doc.forward .markdown n).1.backward .markdown n).1.currentLine = doc.currentLine) ∧
      ((doc.backward .markdown n).2 = .line l →
        (doc.backward .markdown n).1.currentLine = l ∧
        ((doc.backward .markdown n).1.forward .markdown n).2 = .line doc.currentLine ∧
        ((doc.backward .markdown n).1.forward .markdown n).1.currentLine = doc.currentLine)) := by
  refine ⟨fun a b ha hb => ?_, fun hmem n l => ⟨fun h => ?_, fun h => ?_⟩⟩
  · obtain ⟨a, rfl⟩ := Nat.exists_eq_add_of_le' ha
    obtain ⟨b, rfl⟩ := Nat.exists_eq_add_of_le' hb
    exact ⟨forward_forward doc a b, backward_backward doc a b⟩
  · obtain ⟨hlands, hback⟩ := backward_of_forward hmem h
    exact ⟨hlands, hback, currentLine_moveTo_of_eq hmem hback⟩
  · obtain ⟨hlands, hback⟩ := forward_of_backward hmem h
    exact ⟨hlands, hback, currentLine_moveTo_of_eq hmem hback⟩

theorem jumps_compose_and_undo_items :
    let doc := ofText "a" "* a\n\n  * b\n* c".toList .default
    (doc.forward .markdown 1).1.forward .markdown 1 = doc.forward .markdown 2 ∧
      (doc.forward .markdown 2).1.currentLine = 4 ∧
      ((doc.forward .markdown 2).1.backward .markdown 2).1.currentLine = doc.currentLine := by
  intro doc
  obtain ⟨hadd, hundo⟩ := jumps_compose_and_undo doc
  obtain ⟨hlands, -, hback⟩ := (hundo (by decide +kernel) 2 4).1 (by decide +kernel)
  exact ⟨(hadd 1 1 (by decide) (by decide)).1, hlands, hback⟩

end Document

end MarkupLayout

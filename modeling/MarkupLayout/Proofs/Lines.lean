import Mathlib.Data.List.Induction
import MarkupLayout.Text.Line
/-!
# A text and its lines

The lines of a text are the pieces between its line feeds.  This module takes the ways in which
the library addresses a line (by cutting the text above it, by its byte offset, by its content)
back to the list of lines: all of them see the same line.
-/

namespace MarkupLayout

theorem exists_append_of_getElem? {α : Type} {l : List α} {a : α} {k : Nat} (h : l[k]? = some a) :
    ∃ left right, l = left ++ a :: right ∧ left.length = k := by
  obtain ⟨hk, rfl⟩ := List.getElem?_eq_some_iff.mp h
  refine ⟨l.take k, l.drop (k + 1), ?_, List.length_take_of_le (by omega)⟩
  rw [← List.drop_eq_getElem_cons, List.take_append_drop]

namespace Text

theorem lines_eq_splitOn (t : Text) : t.lines = t.splitOn '\n' := by
  induction t with
  | nil => rfl
  | cons c t ih =>
      rw [List.splitOn_cons_eq_if_modifyHead, lines, ih]
      by_cases hc : c = '\n'
      · simp [hc]
      · simp only [hc, beq_eq_false_iff_ne.mpr hc, ↓reduceIte, Bool.false_eq_true]
        obtain ⟨line, more, hsplit⟩ := List.exists_cons_of_ne_nil (List.splitOn_ne_nil '\n' t)
        rw [hsplit]
        rfl

theorem lines_ne_nil (t : Text) : t.lines ≠ [] := by
  rw [lines_eq_splitOn]
  exact List.splitOn_ne_nil _ _

theorem intercalate_lines (t : Text) : ['\n'].intercalate t.lines = t := by
  rw [lines_eq_splitOn, List.intercalate_splitOn]

theorem lines_intercalate {ls : List Text} (hne : ls ≠ []) (hls : ∀ line ∈ ls, '\n' ∉ line) :
    lines (['\n'].intercalate ls) = ls := by
  rw [lines_eq_splitOn, List.splitOn_intercalate '\n' hls hne]

theorem lineFeed_notMem_of_mem_lines {t line : Text} (h : line ∈ t.lines) : '\n' ∉ line := by
  induction t generalizing line with
  | nil =>
      rw [lines, List.mem_singleton] at h
      simp [h]
  | cons c t ih =>
      rw [lines] at h
      split at h
      · rcases List.mem_cons.mp h with rfl | h
        · simp
        · exact ih h
      · rename_i hc
        split at h
        · rename_i hlines
          exact absurd hlines (lines_ne_nil t)
        · rename_i first more hlines
          rcases List.mem_cons.mp h with rfl | h
          · have hfirst : '\n' ∉ first := ih (by simp [hlines])
            simpa [Ne.symm hc] using hfirst
          · exact ih (by simp [hlines, h])

/-- Lines with the line feed behind each of them. -/
def wholeLines (ls : List Text) : Text :=
  ls.flatMap (· ++ ['\n'])

@[simp] theorem wholeLines_nil : wholeLines [] = [] := rfl

@[simp] theorem wholeLines_cons (line : Text) (ls : List Text) :
    wholeLines (line :: ls) = line ++ '\n' :: wholeLines ls := by
  simp [wholeLines]

theorem wholeLines_append (ls more : List Text) :
    wholeLines (ls ++ more) = wholeLines ls ++ wholeLines more := by
  simp [wholeLines]

theorem intercalate_append_cons (ls : List Text) (line : Text) (more : List Text) :
    ['\n'].intercalate (ls ++ line :: more) =
      wholeLines ls ++ ['\n'].intercalate (line :: more) := by
  induction ls with
  | nil => rfl
  | cons first ls ih =>
      rw [List.cons_append, List.intercalate_cons_of_ne_nil (by simp), ih]
      simp

/-- Every line of the text has its line feed. -/
def IsWhole (t : Text) : Prop :=
  t = [] ∨ t.getLast? = some '\n'

theorem isWhole_nil : IsWhole [] := .inl rfl

theorem isWhole_wholeLines (ls : List Text) : (wholeLines ls).IsWhole := by
  induction ls using List.reverseRecOn with
  | nil => exact isWhole_nil
  | append_singleton ls line =>
      right
      simp [wholeLines_append]

theorem IsWhole.of_append {s t : Text} (h : (s ++ t).IsWhole) : t.IsWhole := by
  rcases h with h | h
  · exact .inl (List.append_eq_nil_iff.mp h).2
  · cases t with
    | nil => exact isWhole_nil
    | cons c t =>
        right
        simpa [List.getLast?_append] using h

theorem lines_wholeLines_append {ls : List Text} (hls : ∀ line ∈ ls, '\n' ∉ line) (t : Text) :
    (wholeLines ls ++ t).lines = ls ++ t.lines := by
  obtain ⟨line, more, hlines⟩ := List.exists_cons_of_ne_nil (lines_ne_nil t)
  have htext : wholeLines ls ++ t = ['\n'].intercalate (ls ++ line :: more) := by
    rw [intercalate_append_cons, ← hlines, intercalate_lines]
  rw [htext, hlines]
  apply lines_intercalate (by simp)
  intro first hfirst
  rcases List.mem_append.mp hfirst with hfirst | hfirst
  · exact hls first hfirst
  · exact lineFeed_notMem_of_mem_lines (t := t) (by rw [hlines]; exact hfirst)

theorem count_wholeLines {ls : List Text} (hls : ∀ line ∈ ls, '\n' ∉ line) :
    (wholeLines ls).count '\n' = ls.length := by
  induction ls with
  | nil => rfl
  | cons line ls ih =>
      have hline : line.count '\n' = 0 := List.count_eq_zero.mpr (hls line (by simp))
      have hmore := ih fun other hmem => hls other (by simp [hmem])
      rw [wholeLines_cons, List.count_append, List.count_cons_self, hline, hmore, List.length_cons]
      omega

/-- A text with a line singled out, as the lines above it and the text from it on. -/
theorem eq_wholeLines_append {t line : Text} {ls more : List Text}
    (h : t.lines = ls ++ line :: more) :
    t = wholeLines ls ++ ['\n'].intercalate (line :: more) := by
  rw [← intercalate_append_cons, ← h, intercalate_lines]

theorem length_wholeLines_lines (text : Text) :
    (wholeLines text.lines).length = text.length + 1 := by
  have hlines := (List.dropLast_concat_getLast text.lines_ne_nil).symm
  have hlength := congrArg List.length (eq_wholeLines_append hlines)
  rw [List.length_append, List.intercalate_singleton] at hlength
  rw [hlines, wholeLines_append, wholeLines_cons, wholeLines_nil, List.length_append,
    List.length_append, List.length_singleton, hlength, Nat.add_assoc]

theorem length_le_length_wholeLines (ls : List Text) : ls.length ≤ (wholeLines ls).length := by
  induction ls with
  | nil => exact Nat.le_refl _
  | cons line ls ih =>
      rw [wholeLines_cons, List.length_append, List.length_cons, List.length_cons]
      omega

theorem length_wholeLines_drop_le (ls : List Text) (i : Nat) :
    (wholeLines (ls.drop i)).length ≤ (wholeLines ls).length := by
  have hsplit := congrArg (fun ls => (wholeLines ls).length) (List.take_append_drop i ls)
  simp only [wholeLines_append, List.length_append] at hsplit
  omega

/-! ## The indentation of a line -/

theorem leading_append (t : Text) : t.leading ++ t.dropWhile isIndentChar = t :=
  List.takeWhile_append_dropWhile

theorem all_isIndentChar_leading (line : Text) : line.leading.all isIndentChar = true :=
  List.all_takeWhile

theorem drop_leading (t : Text) : t.drop t.leading.length = t.dropWhile isIndentChar := by
  calc
    t.drop t.leading.length =
        (t.leading ++ t.dropWhile isIndentChar).drop t.leading.length := by rw [leading_append]
    _ = t.dropWhile isIndentChar := List.drop_left

def StartsVisibly (t : Text) : Prop :=
  ∀ c ∈ t.head?, isIndentChar c = false

theorem startsVisibly_nil : StartsVisibly [] := by
  simp [StartsVisibly]

theorem startsVisibly_of_not_isIndentChar {c : Char} (h : isIndentChar c = false) (t : Text) :
    StartsVisibly (c :: t) := by
  intro d hd
  obtain rfl : c = d := by simpa using hd
  exact h

theorem startsVisibly_dropWhile_append (line : Text) {below : Text} (h : below.StartsVisibly) :
    StartsVisibly (line.dropWhile isIndentChar ++ below) := by
  cases hcontent : line.dropWhile isIndentChar with
  | nil => exact h
  | cons c content =>
      have hhead := List.head_dropWhile_not isIndentChar (l := line) (by simp [hcontent])
      simp only [hcontent, List.head_cons] at hhead
      exact startsVisibly_of_not_isIndentChar hhead _

theorem startsVisibly_dropWhile (line : Text) : StartsVisibly (line.dropWhile isIndentChar) := by
  have hline := startsVisibly_dropWhile_append line startsVisibly_nil
  rwa [List.append_nil] at hline

theorem takeWhile_isIndentChar_append {w r : Text} (hw : w.all isIndentChar = true)
    (hr : r.StartsVisibly) : (w ++ r).takeWhile isIndentChar = w := by
  rw [List.takeWhile_append_of_pos (by simpa using hw)]
  cases r with
  | nil => simp
  | cons c r => simp [hr c rfl]

theorem dropWhile_isIndentChar_append {w r : Text} (hw : w.all isIndentChar = true)
    (hr : r.StartsVisibly) : (w ++ r).dropWhile isIndentChar = r := by
  rw [List.dropWhile_append_of_pos (by simpa using hw)]
  cases r with
  | nil => simp
  | cons c r => simp [hr c rfl]

theorem leading_append_below (line : Text) {below : Text} (h : below.StartsVisibly) :
    (line ++ below).leading = line.leading := by
  nth_rewrite 1 [← leading_append line]
  rw [List.append_assoc]
  exact takeWhile_isIndentChar_append (all_isIndentChar_leading line)
    (startsVisibly_dropWhile_append line h)

theorem dropWhile_append_below (line : Text) {below : Text} (h : below.StartsVisibly) :
    (line ++ below).dropWhile isIndentChar = line.dropWhile isIndentChar ++ below := by
  nth_rewrite 1 [← leading_append line]
  rw [List.append_assoc]
  exact dropWhile_isIndentChar_append (all_isIndentChar_leading line)
    (startsVisibly_dropWhile_append line h)

/-! ## The first line of an indented text -/

section Indented

variable {w r : Text}

theorem bne_lineFeed_of_isIndentChar (hw : w.all isIndentChar = true) :
    ∀ c ∈ w, (c != '\n') = true := by
  intro c hc
  have hindent := List.all_eq_true.mp hw c hc
  rw [bne_iff_ne]
  rintro rfl
  simp [isIndentChar] at hindent

theorem count_of_isIndentChar (hw : w.all isIndentChar = true) : w.count '\n' = 0 := by
  rw [List.count_eq_zero]
  intro hmem
  simpa using bne_lineFeed_of_isIndentChar hw _ hmem

theorem stripReturn_cons (c : Char) {t : Text} (h : t ≠ []) :
    stripReturn (c :: t) = c :: stripReturn t := by
  obtain ⟨d, t, rfl⟩ := List.exists_cons_of_ne_nil h
  simp only [stripReturn, List.getLast?_cons_cons, List.dropLast_cons_cons]
  split <;> rfl

theorem stripReturn_append_of_ne_nil (before : Text) {t : Text} (h : t ≠ []) :
    stripReturn (before ++ t) = before ++ stripReturn t := by
  induction before with
  | nil => rfl
  | cons c before ih =>
      rw [List.cons_append, stripReturn_cons c (by simp [h]), ih, List.cons_append]

theorem stripReturn_append (hw : '\r' ∉ w) (t : Text) :
    stripReturn (w ++ t) = w ++ stripReturn t := by
  induction w with
  | nil => rfl
  | cons c w ih =>
      rw [List.mem_cons, not_or] at hw
      by_cases hnil : w ++ t = []
      · obtain ⟨rfl, rfl⟩ := List.append_eq_nil_iff.mp hnil
        simp [stripReturn, Ne.symm hw.1]
      · rw [List.cons_append, stripReturn_cons c hnil, ih hw.2, List.cons_append]

theorem return_notMem_of_isIndentChar (hw : w.all isIndentChar = true) : '\r' ∉ w := by
  intro hmem
  simpa [isIndentChar] using List.all_eq_true.mp hw _ hmem

theorem firstLine_append_indent (hw : w.all isIndentChar = true) (r : Text) :
    (w ++ r).firstLine = w ++ r.firstLine := by
  rw [firstLine, List.takeWhile_append_of_pos (bne_lineFeed_of_isIndentChar hw),
    stripReturn_append (return_notMem_of_isIndentChar hw), firstLine]

theorem firstEnding_append_indent (hw : w.all isIndentChar = true) (r : Text) :
    (w ++ r).firstEnding = r.firstEnding := by
  rw [firstEnding, firstLine_append_indent hw,
    List.takeWhile_append_of_pos (bne_lineFeed_of_isIndentChar hw),
    List.dropWhile_append_of_pos (bne_lineFeed_of_isIndentChar hw), List.length_append,
    List.drop_append, firstEnding]
  simp

theorem afterFirstLine_append_indent (hw : w.all isIndentChar = true) (r : Text) :
    (w ++ r).afterFirstLine = r.afterFirstLine := by
  rw [afterFirstLine, List.dropWhile_append_of_pos (bne_lineFeed_of_isIndentChar hw),
    afterFirstLine]

theorem startsVisibly_firstLine (hr : r.StartsVisibly) : r.firstLine.StartsVisibly := by
  have hstarts := congrArg List.head? r.firstLine_append_drop
  intro c hc
  apply hr
  rw [Option.mem_def] at hc
  rw [← hstarts, List.head?_append, hc]
  rfl

end Indented

/-! ## Cutting above a line -/

theorem cutAtLine?_one (t : Text) : t.cutAtLine? 1 = some ([], t) := by
  cases t <;> rfl

theorem cutAtLine?_append_lineFeed {line : Text} (hline : '\n' ∉ line) (t : Text) (n : Nat) :
    cutAtLine? (line ++ '\n' :: t) (n + 2) =
      (t.cutAtLine? (n + 1)).map fun parts => (line ++ '\n' :: parts.1, parts.2) := by
  induction line with
  | nil => simp [cutAtLine?]
  | cons c line ih =>
      simp only [List.mem_cons, not_or] at hline
      rw [List.cons_append, cutAtLine?, if_neg (Ne.symm hline.1), ih hline.2, Option.map_map]
      rfl

theorem cutAtLine?_of_lines {t line : Text} {ls more : List Text}
    (h : t.lines = ls ++ line :: more) :
    t.cutAtLine? (ls.length + 1) = some (wholeLines ls, ['\n'].intercalate (line :: more)) := by
  have hls : ∀ line ∈ ls, '\n' ∉ line := fun first hfirst =>
    lineFeed_notMem_of_mem_lines (t := t) (by simp [h, hfirst])
  rw [eq_wholeLines_append h]
  clear h
  induction ls with
  | nil => exact cutAtLine?_one _
  | cons first ls ih =>
      rw [wholeLines_cons, List.append_assoc, List.cons_append, List.length_cons,
        cutAtLine?_append_lineFeed (hls first (by simp)),
        ih fun line hmem => hls line (by simp [hmem])]
      rfl

theorem cutAtLine?_append {s : Text} (hs : s.IsWhole) (t : Text) :
    (s ++ t).cutAtLine? s.lastLine = some (s, t) := by
  induction s with
  | nil => exact cutAtLine?_one t
  | cons c s ih =>
      have hrest := ih (IsWhole.of_append (s := [c]) hs)
      by_cases hc : c = '\n'
      · subst hc
        have hnumber : lastLine ('\n' :: s) = s.count '\n' + 2 := by
          rw [lastLine, List.count_cons_self, Nat.add_comm]
        rw [lastLine, Nat.add_comm] at hrest
        rw [hnumber, List.cons_append, cutAtLine?, if_pos rfl, hrest]
        rfl
      · -- The line feed that ends the first line is further down.
        have hlast : '\n' ∈ s := by
          rcases hs with hnil | hlast
          · simp at hnil
          · simpa [Ne.symm hc] using List.mem_of_getLast? hlast
        obtain ⟨n, hn⟩ : ∃ n, s.count '\n' = n + 1 :=
          Nat.exists_eq_add_one.mpr (List.count_pos_iff.mpr hlast)
        rw [lastLine, hn, Nat.add_comm] at hrest
        rw [lastLine, List.count_cons_of_ne hc, hn, Nat.add_comm, List.cons_append, cutAtLine?,
          if_neg hc, hrest]
        rfl

theorem length_lines_cons (c : Char) (t : Text) :
    (lines (c :: t)).length = (if c = '\n' then 1 else 0) + t.lines.length := by
  rw [lines]
  split
  · simp [Nat.add_comm]
  · split
    · rename_i hlines
      exact absurd hlines (lines_ne_nil t)
    · rename_i hlines
      simp [hlines]

theorem cutAtLine?_eq_none {t : Text} {n : Nat} (h : t.lines.length < n) :
    t.cutAtLine? n = none := by
  induction t generalizing n with
  | nil =>
      match n, h with
      | n + 2, _ => rfl
  | cons c t ih =>
      have hpos := List.length_pos_iff.mpr (lines_ne_nil t)
      rw [length_lines_cons] at h
      obtain ⟨k, rfl⟩ : ∃ k, n = k + 2 := ⟨n - 2, by split at h <;> omega⟩
      have hrest : (lines t).length < if c = '\n' then k + 1 else k + 2 := by
        by_cases hc : c = '\n'
        · rw [if_pos hc] at h ⊢
          omega
        · rw [if_neg hc] at h ⊢
          omega
      rw [cutAtLine?, ih hrest, Option.map_none]

/-- A text can be cut above each of its lines and nowhere else. -/
theorem exists_lines_of_cutAtLine? {t above below : Text} {n : Nat}
    (h : t.cutAtLine? n = some (above, below)) :
    ∃ ls line more, t.lines = ls ++ line :: more ∧ n = ls.length + 1 ∧
      above = wholeLines ls ∧ below = ['\n'].intercalate (line :: more) := by
  have hle : n ≤ t.lines.length := by
    by_contra hgt
    rw [cutAtLine?_eq_none (by omega)] at h
    simp at h
  obtain ⟨k, rfl⟩ : ∃ k, n = k + 1 := by
    cases n with
    | zero => simp [cutAtLine?] at h
    | succ k => exact ⟨k, rfl⟩
  have hlines : t.lines = t.lines.take k ++ t.lines[k] :: t.lines.drop (k + 1) := by
    rw [← List.drop_eq_getElem_cons, List.take_append_drop]
  have hlength : (t.lines.take k).length = k := List.length_take_of_le (by omega)
  have hcut := cutAtLine?_of_lines hlines
  rw [hlength, h, Option.some.injEq, Prod.mk.injEq] at hcut
  exact ⟨_, _, _, hlines, by rw [hlength], hcut.1, hcut.2⟩

/-! ## Offsets and contents of lines -/

theorem getElem?_starts {t above below : Text} {n : Nat} (offset : Nat)
    (h : t.cutAtLine? (n + 1) = some (above, below)) :
    (offset :: laterStarts offset t)[n]? = some (offset + above.byteSize) := by
  induction t generalizing n offset above with
  | nil =>
      cases n with
      | zero =>
          simp only [cutAtLine?, Option.some.injEq, Prod.mk.injEq] at h
          simp [← h.1]
      | succ n => simp [cutAtLine?] at h
  | cons c t ih =>
      cases n with
      | zero =>
          simp only [cutAtLine?, Option.some.injEq, Prod.mk.injEq] at h
          simp [← h.1]
      | succ n =>
          rw [cutAtLine?] at h
          obtain ⟨⟨before, behind⟩, hparts, heq⟩ := Option.map_eq_some_iff.mp h
          simp only [Prod.mk.injEq] at heq
          obtain ⟨rfl, rfl⟩ := heq
          rw [List.getElem?_cons_succ, laterStarts, byteSize_cons, ← Nat.add_assoc]
          by_cases hc : c = '\n'
          · rw [if_pos hc] at hparts ⊢
            exact ih _ hparts
          · rw [if_neg hc] at hparts ⊢
            have hnext := ih (offset + c.utf8Size) hparts
            rwa [List.getElem?_cons_succ] at hnext

theorem lineStart?_of_cutAtLine? {t above below : Text} {n : Nat}
    (h : t.cutAtLine? n = some (above, below)) : t.lineStart? n = some above.byteSize := by
  cases n with
  | zero => simp [cutAtLine?] at h
  | succ n => simpa [lineStart?, lineStarts] using getElem?_starts 0 h

theorem length_laterStarts (t : Text) (offset : Nat) :
    (laterStarts offset t).length + 1 = t.lines.length := by
  induction t generalizing offset with
  | nil => rfl
  | cons c t ih =>
      rw [length_lines_cons, ← ih (offset + c.utf8Size), laterStarts]
      split
      · simp only [List.length_cons]
        omega
      · omega

theorem lineCount_eq_length_lines (t : Text) : t.lineCount = t.lines.length := by
  rw [lineCount, lineStarts, List.length_cons, length_laterStarts]

theorem lineText?_of_lines {t line : Text} {ls more : List Text}
    (h : t.lines = ls ++ line :: more) :
    t.lineText? (ls.length + 1) = some (stripReturn line) := by
  simp [lineText?, h]

theorem lineStart?_eq_none {t : Text} {n : Nat} (h : n = 0 ∨ t.lineCount < n) :
    t.lineStart? n = none := by
  unfold lineStart?
  split
  · rfl
  · apply List.getElem?_eq_none
    unfold lineCount at h
    omega

/-- The text above a line, which is what stands before the byte offset of the line. -/
def above (t : Text) (n : Nat) : Text :=
  ((t.lineStart? n).bind t.cut?).elim [] Prod.fst

theorem above_of_cutAtLine? {t before behind : Text} {n : Nat}
    (h : t.cutAtLine? n = some (before, behind)) : t.above n = before := by
  obtain ⟨ls, line, more, hlines, -, rfl, rfl⟩ := exists_lines_of_cutAtLine? h
  rw [above, lineStart?_of_cutAtLine? h, Option.bind_some]
  nth_rewrite 1 [eq_wholeLines_append hlines]
  rw [cut?_append]
  rfl

theorem cutAtLine?_above {t : Text} {n : Nat} (hpos : 1 ≤ n) (h : n ≤ t.lineCount) :
    ∃ below, t.cutAtLine? n = some (t.above n, below) := by
  rw [lineCount_eq_length_lines] at h
  obtain ⟨ls, more, hlines, hlength⟩ := exists_append_of_getElem?
    (List.getElem?_eq_getElem (l := t.lines) (i := n - 1) (by omega))
  have hcut := cutAtLine?_of_lines hlines
  rw [hlength, Nat.sub_add_cancel hpos] at hcut
  exact ⟨_, by rw [hcut, above_of_cutAtLine? hcut]⟩

theorem isWhole_above (t : Text) (n : Nat) : (t.above n).IsWhole := by
  by_cases h : 1 ≤ n ∧ n ≤ t.lineCount
  · obtain ⟨below, hcut⟩ := cutAtLine?_above h.1 h.2
    obtain ⟨ls, _, _, -, -, habove, -⟩ := exists_lines_of_cutAtLine? hcut
    rw [habove]
    exact isWhole_wholeLines ls
  · rw [above, lineStart?_eq_none (by omega)]
    exact isWhole_nil

end Text

end MarkupLayout

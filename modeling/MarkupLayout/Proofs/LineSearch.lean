import MarkupLayout.Proofs.Lines
/-!
# Searching the starts of lines

The line of a byte offset is found by halving the sorted list of the starts of lines.  The search
meets the start of a line itself, or it ends between two starts, and then the line is the one before
that place.
-/

namespace MarkupLayout

def sub? (a b : Nat) : Option Nat :=
  if b ≤ a then some (a - b) else none

theorem sub?_of_le {a b : Nat} (h : b ≤ a) : sub? a b = some (a - b) :=
  if_pos h

/-! ## Sorted numbers -/

section Sorted

variable {starts before behind : List Nat} {offset start place : Nat}

theorem lt_and_lt_of_sorted (h : (before ++ start :: behind).Pairwise (· < ·)) :
    (∀ n ∈ before, n < start) ∧ ∀ n ∈ behind, start < n := by
  obtain ⟨-, hbehind, hacross⟩ := List.pairwise_append.mp h
  exact ⟨fun n hn => hacross n hn start List.mem_cons_self, (List.pairwise_cons.mp hbehind).1⟩

theorem lt_and_lt_of_sorted_getElem (h : starts.Pairwise (· < ·)) (hplace : place < starts.length) :
    (∀ n ∈ starts.take place, n < starts[place]) ∧
      ∀ n ∈ starts.drop (place + 1), starts[place] < n := by
  apply lt_and_lt_of_sorted
  rwa [← List.drop_eq_getElem_cons, List.take_append_drop]

theorem countP_of_parts (hbefore : ∀ n ∈ before, n ≤ offset) (hbehind : ∀ n ∈ behind, offset < n) :
    (before ++ behind).countP (· ≤ offset) = before.length := by
  have hall : before.countP (· ≤ offset) = before.length :=
    List.countP_eq_length.mpr (by simpa using hbefore)
  have hnone : behind.countP (· ≤ offset) = 0 :=
    List.countP_eq_zero.mpr (by simpa using hbehind)
  rw [List.countP_append, hall, hnone, Nat.add_zero]

theorem lt_countP_iff_of_sorted (h : starts.Pairwise (· < ·)) (hstart : starts[place]? = some start)
    (offset : Nat) : place < starts.countP (· ≤ offset) ↔ start ≤ offset := by
  obtain ⟨before, behind, rfl, rfl⟩ := exists_append_of_getElem? hstart
  obtain ⟨hbefore, hbehind⟩ := lt_and_lt_of_sorted h
  rw [List.countP_append]
  constructor
  · intro hlt
    by_contra hgreater
    have hnone : (start :: behind).countP (· ≤ offset) = 0 := by
      rw [List.countP_eq_zero]
      intro n hn
      rw [decide_eq_true_eq]
      rcases List.mem_cons.mp hn with rfl | hn
      · exact hgreater
      · have := hbehind n hn
        omega
    have hle : before.countP (· ≤ offset) ≤ before.length := List.countP_le_length
    omega
  · intro hle
    have hall : before.countP (· ≤ offset) = before.length := by
      rw [List.countP_eq_length]
      intro n hn
      have := hbefore n hn
      rw [decide_eq_true_eq]
      omega
    rw [hall, List.countP_cons_of_pos (by simpa using hle)]
    omega

theorem exists_getElem?_le_of_sorted (h : starts.Pairwise (· < ·))
    (hplace : place < starts.countP (· ≤ offset)) :
    ∃ start, starts[place]? = some start ∧ start ≤ offset := by
  have hlength : place < starts.length := Nat.lt_of_lt_of_le hplace List.countP_le_length
  have hstart := List.getElem?_eq_getElem hlength
  exact ⟨_, hstart, (lt_countP_iff_of_sorted h hstart offset).mp hplace⟩

end Sorted

/-! ## Halving -/

/-- The place of a number in a sorted list, looked for from `low` up to `high`.  A number that is
not there gives the place at which it could be put in. -/
def bisect (starts : List Nat) (offset low high : Nat) (hhigh : high ≤ starts.length) :
    Except Nat Nat :=
  if h : low < high then
    let middle := low + (high - low) / 2
    have hmiddle : middle < starts.length := by omega
    if starts[middle] = offset then .ok middle
    else if starts[middle] < offset then bisect starts offset (middle + 1) high hhigh
    else bisect starts offset low middle (by omega)
  else .error low
termination_by high - low

/-- What a search may answer: a place at which the number stands, or the place that parts the
smaller numbers from the greater ones. -/
def Locates (starts : List Nat) (offset : Nat) : Except Nat Nat → Prop
  | .ok place => starts[place]? = some offset
  | .error place =>
    place ≤ starts.length ∧ (∀ start ∈ starts.take place, start < offset) ∧
      ∀ start ∈ starts.drop place, offset < start

theorem locates_bisect {starts : List Nat} (h : starts.Pairwise (· < ·)) (offset : Nat)
    {low high : Nat} (hhigh : high ≤ starts.length) (hle : low ≤ high)
    (hbelow : ∀ start ∈ starts.take low, start < offset)
    (habove : ∀ start ∈ starts.drop high, offset < start) :
    Locates starts offset (bisect starts offset low high hhigh) := by
  fun_induction bisect starts offset low high hhigh with
  | case1 low high hhigh hlt middle hmiddle hfound =>
      exact List.getElem?_eq_some_iff.mpr ⟨hmiddle, hfound⟩
  | case2 low high hhigh hlt middle hmiddle hother hless ih =>
      apply ih (by omega) _ habove
      intro n hn
      rw [List.take_succ_eq_append_getElem hmiddle, List.mem_append, List.mem_singleton] at hn
      rcases hn with hn | rfl
      · exact Nat.lt_trans ((lt_and_lt_of_sorted_getElem h hmiddle).1 n hn) hless
      · exact hless
  | case3 low high hhigh hlt middle hmiddle hother hless ih =>
      apply ih (by omega) hbelow
      intro n hn
      rw [List.drop_eq_getElem_cons hmiddle, List.mem_cons] at hn
      rcases hn with rfl | hn
      · omega
      · have := (lt_and_lt_of_sorted_getElem h hmiddle).2 n hn
        omega
  | case4 low high hhigh hstop =>
      obtain rfl : low = high := by omega
      exact ⟨hhigh, hbelow, habove⟩

/-! ## Lines -/

namespace Text

theorem lineStarts_sorted (t : Text) : t.lineStarts.Pairwise (· < ·) := by
  have hlater (offset : Nat) : (offset :: laterStarts offset t).Pairwise (· < ·) := by
    induction t generalizing offset with
    | nil => simp [laterStarts]
    | cons c t ih =>
        have hpos := c.utf8Size_pos
        have hrest := ih (offset + c.utf8Size)
        rw [laterStarts]
        split
        · refine List.pairwise_cons.mpr ⟨?_, hrest⟩
          intro p hp
          rcases List.mem_cons.mp hp with rfl | hp
          · omega
          · have := List.rel_of_pairwise_cons hrest hp
            omega
        · refine List.pairwise_cons.mpr ⟨?_, hrest.of_cons⟩
          intro p hp
          have := List.rel_of_pairwise_cons hrest hp
          omega
  exact hlater 0

/-- Number of the line that a search among the starts of lines has found: the one that starts
there, or the one before the place where the offset would start a line. -/
def foundLine? : Except Nat Nat → Option Nat
  | .ok place => some (place + 1)
  | .error place => (sub? place 1).map (· + 1)

def bisectLine? (starts : List Nat) (offset : Nat) : Option Nat :=
  foundLine? (bisect starts offset 0 starts.length (Nat.le_refl _))

theorem foundLine?_of_locates {starts : List Nat} (h : starts.Pairwise (· < ·)) {offset : Nat}
    (hpos : 0 < starts.countP (· ≤ offset)) {found : Except Nat Nat}
    (hfound : Locates starts offset found) :
    foundLine? found = some (starts.countP (· ≤ offset)) := by
  cases found with
  | ok place =>
      obtain ⟨before, behind, rfl, rfl⟩ := exists_append_of_getElem? hfound
      obtain ⟨hbefore, hbehind⟩ := lt_and_lt_of_sorted h
      have hupTo : ∀ n ∈ before ++ [offset], n ≤ offset := by
        intro n hn
        rcases List.mem_append.mp hn with hn | hn
        · exact Nat.le_of_lt (hbefore n hn)
        · exact Nat.le_of_eq (List.mem_singleton.mp hn)
      have hcount := countP_of_parts hupTo hbehind
      rw [List.append_assoc, List.singleton_append, List.length_append,
        List.length_singleton] at hcount
      rw [foundLine?, hcount]
  | error place =>
      obtain ⟨hle, hbefore, hbehind⟩ := hfound
      have hcount := countP_of_parts (fun n hn => Nat.le_of_lt (hbefore n hn)) hbehind
      rw [List.take_append_drop, List.length_take_of_le hle] at hcount
      rw [hcount] at hpos
      rw [foundLine?, hcount, sub?_of_le hpos, Option.map_some, Nat.sub_add_cancel hpos]

theorem lineAt_pos (t : Text) (offset : Nat) : 0 < t.lineAt offset := by
  -- The first line starts at zero.
  rw [lineAt, lineStarts, List.countP_cons_of_pos (by simp)]
  exact Nat.succ_pos _

theorem bisectLine?_lineStarts (t : Text) (offset : Nat) :
    bisectLine? t.lineStarts offset = some (t.lineAt offset) := by
  have hsorted := lineStarts_sorted t
  have hlocates := locates_bisect hsorted offset (Nat.le_refl _) (Nat.zero_le _) (by simp) (by simp)
  rw [bisectLine?, foundLine?_of_locates hsorted (lineAt_pos t offset) hlocates, lineAt]

end Text

end MarkupLayout

import Mathlib.Data.List.Basic
import MarkupLayout.Proofs.RegionLines
import MarkupLayout.Proofs.StepCases
/-!
# What ends a literal

Each sort of literal ends at the first place of the text that fits, and the places that fit can be
told without searching: by what is read up to the place, and by what stands there.  The searches
find that first place, or come to the end of the text if no place fits.
-/

namespace MarkupLayout

/-! ## First places -/

namespace Text

structure FirstPlace (P : Text → Text → Prop) (t before behind : Text) : Prop where
  append : before ++ behind = t
  holds : P before behind
  first : ∀ a b, a ++ b = t → P a b → before.length ≤ a.length

/-- The text is split at the first place at which `P` holds, or at its end if there is none. -/
def SplitsAt (P : Text → Text → Prop) (t : Text) (parts : Text × Text) : Prop :=
  FirstPlace P t parts.1 parts.2 ∨ parts = (t, []) ∧ ∀ a b, a ++ b = t → ¬P a b

variable {P : Text → Text → Prop} {t : Text} {parts : Text × Text}

theorem splitsAt_here (h : P [] t) : SplitsAt P t ([], t) :=
  .inl ⟨rfl, h, fun _ _ _ _ => Nat.zero_le _⟩

theorem SplitsAt.append (head : Text) (h : SplitsAt P t parts)
    (hholds : ∀ a b, a ++ b = t → P a b → P (head ++ a) b)
    (hbehind : ∀ a b, a ++ b = head ++ t → P a b → ∃ a', a = head ++ a' ∧ P a' b) :
    SplitsAt P (head ++ t) (head ++ parts.1, parts.2) := by
  rcases h with h | ⟨rfl, hnever⟩
  · refine .inl ⟨by rw [List.append_assoc, h.append], hholds _ _ h.append h.holds,
      fun a b hsplit hab => ?_⟩
    obtain ⟨a', rfl, ha'⟩ := hbehind a b hsplit hab
    rw [List.append_assoc, List.append_cancel_left_eq] at hsplit
    simpa using h.first a' b hsplit ha'
  · refine .inr ⟨rfl, fun a b hsplit hab => ?_⟩
    obtain ⟨a', rfl, ha'⟩ := hbehind a b hsplit hab
    rw [List.append_assoc, List.append_cancel_left_eq] at hsplit
    exact hnever a' b hsplit ha'

theorem SplitsAt.behind_ne_nil_iff (h : SplitsAt P t parts) (hend : ∀ a, ¬P a []) :
    parts.2 ≠ [] ↔ ∃ a b, a ++ b = t ∧ P a b := by
  rcases h with h | ⟨rfl, hnever⟩
  · exact ⟨fun _ => ⟨_, _, h.append, h.holds⟩, fun _ hnil => hend _ (hnil ▸ h.holds)⟩
  · simpa using hnever

end Text

namespace Literal

/-! ## Escapes -/

/-- Text that is read as whole units: characters, and backslashes with the character behind
them. -/
inductive Units : Text → Prop
  | nil : Units []
  | char {c : Char} {t : Text} (hc : c ≠ '\\') (more : Units t) : Units (c :: t)
  | escape (c : Char) {t : Text} (more : Units t) : Units ('\\' :: c :: t)

theorem Units.backslash_cases {a b t : Text} (h : Units a) (hsplit : a ++ b = '\\' :: t) :
    a = [] ∧ b = '\\' :: t ∨ ∃ c a', a = '\\' :: c :: a' ∧ c :: (a' ++ b) = t ∧ Units a' := by
  cases h with
  | nil => exact .inl ⟨rfl, hsplit⟩
  | char hc => exact absurd (List.cons.inj hsplit).1 hc
  | escape c more => exact .inr ⟨c, _, rfl, (List.cons.inj hsplit).2, more⟩

theorem unescapedSpan_splitsAt (stops : Text → Bool) (hnil : stops [] = false)
    (hescape : ∀ t, stops ('\\' :: t) = false) (t : Text) :
    Text.SplitsAt (fun a b => Units a ∧ stops b = true) t (unescapedSpan stops t) := by
  fun_induction unescapedSpan stops t with
  | case1 =>
      refine .inr ⟨rfl, fun a b hsplit hab => ?_⟩
      rw [(List.append_eq_nil_iff.mp hsplit).2, hnil] at hab
      simp at hab
  | case2 =>
      refine .inr ⟨rfl, fun a b hsplit hab => ?_⟩
      obtain ⟨ha, hb⟩ := hab
      rcases ha.backslash_cases hsplit with ⟨-, rfl⟩ | ⟨_, _, -, hmore, -⟩
      · simp [hescape] at hb
      · simp at hmore
  | case3 d more parts ih =>
      apply ih.append ['\\', d]
      · exact fun a b _ hab => ⟨.escape d hab.1, hab.2⟩
      · rintro a b hsplit ⟨ha, hb⟩
        rcases ha.backslash_cases hsplit with ⟨-, rfl⟩ | ⟨c, a', rfl, hmore, ha'⟩
        · simp [hescape] at hb
        · rw [(List.cons.inj hmore).1]
          exact ⟨a', rfl, ha', hb⟩
  | case4 c rest _ hstops => exact Text.splitsAt_here ⟨.nil, hstops⟩
  | case5 c rest hc hstops parts ih =>
      apply ih.append [c]
      · exact fun a b _ hab => ⟨.char hc hab.1, hab.2⟩
      · rintro a b hsplit ⟨ha, hb⟩
        cases ha with
        | nil =>
            rw [show b = c :: rest from hsplit] at hb
            exact absurd hb hstops
        | char _ ha' =>
            rw [(List.cons.inj hsplit).1]
            exact ⟨_, rfl, ha', hb⟩
        | escape => exact absurd (List.cons.inj hsplit).1.symm hc

theorem closesOnLine_iff {q : Char} (hescape : q ≠ '\\') (hline : q ≠ '\n') (t : Text) :
    closesOnLine q t = true ↔
      ∃ content rest, content ++ q :: rest = t ∧ Units content ∧ '\n' ∉ content := by
  have hspan := unescapedSpan_splitsAt (fun t => t.head? == some q) rfl
    (fun t => by simpa using hescape.symm) (t.takeWhile (· != '\n'))
  rw [closesOnLine, bne_iff_ne, hspan.behind_ne_nil_iff (by simp)]
  constructor
  · rintro ⟨content, behind, hsplit, hunits, hquote⟩
    obtain ⟨rest, rfl⟩ : ∃ rest, behind = q :: rest := by
      cases behind with
      | nil => simp at hquote
      | cons c rest => exact ⟨rest, by simpa using hquote⟩
    refine ⟨content, rest ++ t.dropWhile (· != '\n'), ?_, hunits, fun hmem => ?_⟩
    · rw [← List.cons_append, ← List.append_assoc, hsplit, List.takeWhile_append_dropWhile]
    · have hline : '\n' ∈ t.takeWhile (· != '\n') := by
        rw [← hsplit]
        exact List.mem_append_left _ hmem
      simpa using List.mem_takeWhile_imp hline
  · rintro ⟨content, rest, rfl, hunits, hcontent⟩
    refine ⟨content, q :: rest.takeWhile (· != '\n'), ?_, hunits, by simp⟩
    rw [Text.takeWhile_append_of_notMem hcontent, List.takeWhile_cons_of_pos (by simpa using hline)]

/-! ## Runs of backticks -/

/-- A run of exactly `n` backticks stands between the texts. -/
def RunOf (n : Nat) (before behind : Text) : Prop :=
  before.getLast? ≠ some '\x60' ∧
    ∃ rest, behind = List.replicate n '\x60' ++ rest ∧ rest.head? ≠ some '\x60'

theorem RunOf.of_append {n : Nat} (head : Text) {a b : Text} (h : RunOf n (head ++ a) b) :
    RunOf n a b := by
  refine ⟨fun hlast => h.1 ?_, h.2⟩
  rw [List.getLast?_append, hlast, Option.some_or]

theorem RunOf.head?_behind {n : Nat} (hn : 0 < n) {a b : Text} (h : RunOf n a b) :
    b.head? = some '\x60' := by
  obtain ⟨-, rest, rfl, -⟩ := h
  obtain ⟨k, rfl⟩ : ∃ k, n = k + 1 := ⟨n - 1, by omega⟩
  rfl

theorem RunOf.cases {n run : Nat} {rest a b : Text} (hrest : rest.head? ≠ some '\x60')
    (hsplit : a ++ b = List.replicate run '\x60' ++ rest) (h : RunOf n a b) :
    run = n ∨ ∃ a', a = List.replicate run '\x60' ++ a' ∧ RunOf n a' b := by
  rcases List.append_eq_append_iff.mp hsplit with ⟨a', hrun, -⟩ | ⟨a', rfl, -⟩
  · left
    obtain ⟨hlast, rest', rfl, hrest'⟩ := h
    obtain ⟨-, ha, -⟩ := List.replicate_eq_append_iff.mp hrun
    obtain rfl : a = [] := by
      rw [ha] at hlast
      cases hlength : a.length with
      | zero => exact List.eq_nil_of_length_eq_zero hlength
      | succ k => simp [hlength, List.getLast?_replicate] at hlast
    rw [List.nil_append] at hsplit
    have hlength := congrArg List.length (Text.takeWhile_replicate_append hrest run)
    rw [← hsplit, Text.takeWhile_replicate_append hrest'] at hlength
    simpa using hlength.symm
  · exact .inr ⟨a', rfl, h.of_append _⟩

theorem beforeBackticks?_splitsAt {n : Nat} (hn : 0 < n) (t : Text) :
    Text.SplitsAt (RunOf n) t ((beforeBackticks? n t).getD (t, [])) := by
  have getD_map (head t : Text) (found : Option (Text × Text)) :
      (found.map fun parts => (head ++ parts.1, parts.2)).getD (head ++ t, []) =
        (head ++ (found.getD (t, [])).1, (found.getD (t, [])).2) := by
    cases found <;> rfl
  fun_induction beforeBackticks? n t with
  | case1 =>
      refine .inr ⟨rfl, fun a b hsplit hab => ?_⟩
      obtain ⟨-, rest, hb, -⟩ := hab
      have hlength := congrArg List.length ((List.append_eq_nil_iff.mp hsplit).2.symm.trans hb)
      simp only [List.length_nil, List.length_append, List.length_replicate] at hlength
      omega
  | case2 rest hlength =>
      refine Text.splitsAt_here ⟨by simp, rest.dropWhile (· == '\x60'), ?_,
        Text.head?_dropWhile_ne _ rest⟩
      rw [← hlength, List.replicate_succ, ← Text.takeWhile_eq_replicate, List.cons_append,
        List.takeWhile_append_dropWhile]
  | case3 rest hlength ih =>
      have hrun : '\x60' :: rest.takeWhile (· == '\x60') =
          List.replicate ((rest.takeWhile (· == '\x60')).length + 1) '\x60' := by
        rw [List.replicate_succ, ← Text.takeWhile_eq_replicate]
      have hrest := Text.head?_dropWhile_ne '\x60' rest
      have hnext := ih.append ('\x60' :: rest.takeWhile (· == '\x60')) ?_ ?_
      · rw [← getD_map, List.cons_append, List.takeWhile_append_dropWhile] at hnext
        exact hnext
      · intro a b hsplit hab
        cases a with
        | nil =>
            rw [← hsplit] at hrest
            exact absurd (hab.head?_behind hn) hrest
        | cons d a =>
            refine ⟨?_, hab.2⟩
            rw [List.getLast?_append_of_ne_nil _ (by simp)]
            exact hab.1
      · rw [hrun]
        exact fun a b hsplit hab => (hab.cases hrest hsplit).resolve_left hlength
  | case4 c rest hc ih =>
      have hnext := ih.append [c] ?_ ?_
      · rw [← getD_map] at hnext
        exact hnext
      · rintro a b - ⟨hlast, hb⟩
        refine ⟨?_, hb⟩
        rw [List.getLast?_append]
        cases hcase : a.getLast? with
        | none => simpa using hc
        | some d => simpa [hcase] using hlast
      · intro a b hsplit hab
        cases a with
        | nil =>
            have hhead := hab.head?_behind hn
            rw [show b = c :: rest from hsplit] at hhead
            exact absurd (Option.some.inj hhead) hc
        | cons d a =>
            obtain ⟨rfl, -⟩ := List.cons.inj hsplit
            exact ⟨a, rfl, hab.of_append [d]⟩

/-! ## Fences -/

def ClosingLine (f : Char) (n : Nat) (line : Text) : Prop :=
  ∃ blank run tail, line = blank ++ (List.replicate run f ++ tail) ∧
    blank.all Text.isIndentChar = true ∧ n ≤ run ∧ Text.isBlank tail = true

def ClosesAt (f : Char) (n : Nat) (before behind : Text) : Prop :=
  before.IsWhole ∧ ClosingLine f n (behind.takeWhile (· != '\n'))

theorem not_closesAt_nil {f : Char} {n : Nat} (hn : 0 < n) {before : Text} :
    ¬ClosesAt f n before [] := by
  rintro ⟨-, blank, run, tail, hline, -, hrun, -⟩
  have hlength := congrArg List.length hline
  simp only [List.takeWhile_nil, List.length_nil, List.length_append,
    List.length_replicate] at hlength
  omega

section Fence

variable {f : Char} {n : Nat} (hf : Unicode.isBlank f = false) (hn : 0 < n)

include hf hn

theorem closesFence_iff (line : Text) : closesFence f n line = true ↔ ClosingLine f n line := by
  rw [closesFence, Bool.and_eq_true, decide_eq_true_eq]
  constructor
  · rintro ⟨hrun, htail⟩
    refine ⟨line.leading, _, _, ?_, List.all_takeWhile, hrun, htail⟩
    rw [← Text.takeWhile_eq_replicate, List.takeWhile_append_dropWhile, Text.leading_append]
  · rintro ⟨blank, run, tail, rfl, hblank, hrun, htail⟩
    obtain ⟨k, rfl⟩ : ∃ k, run = k + 1 := ⟨run - 1, by omega⟩
    have hindent : Text.isIndentChar f = false := by
      by_contra h
      rw [Bool.not_eq_false] at h
      simp [Text.isBlank_of_isIndentChar h] at hf
    have hstop : tail.head? ≠ some f := by
      intro hhead
      have hmem := List.all_eq_true.mp htail f (List.mem_of_head? hhead)
      simp [hmem] at hf
    have hbody : (blank ++ (List.replicate (k + 1) f ++ tail)).dropWhile Text.isIndentChar =
        List.replicate (k + 1) f ++ tail :=
      Text.dropWhile_isIndentChar_append hblank (Text.startsVisibly_of_not_isIndentChar hindent _)
    rw [hbody, Text.takeWhile_replicate_append hstop, Text.dropWhile_replicate_append hstop,
      List.length_replicate]
    exact ⟨hrun, htail⟩

theorem closingLine_stripReturn_iff (line : Text) :
    ClosingLine f n (Text.stripReturn line) ↔ ClosingLine f n line := by
  unfold Text.stripReturn
  split
  · rename_i hlast
    obtain ⟨body, rfl⟩ := List.getLast?_eq_some_iff.mp hlast
    rw [List.dropLast_concat]
    constructor
    · rintro ⟨blank, run, tail, rfl, hblank, hrun, htail⟩
      refine ⟨blank, run, tail ++ ['\r'], by simp, hblank, hrun, ?_⟩
      rw [Text.isBlank, List.all_append, Bool.and_eq_true]
      exact ⟨htail, by decide⟩
    · rintro ⟨blank, run, tail, hline, hblank, hrun, htail⟩
      -- The run cannot end the line, for it is not blank.
      cases tail using List.reverseRecOn with
      | nil =>
          obtain ⟨k, rfl⟩ : ∃ k, run = k + 1 := ⟨run - 1, by omega⟩
          rw [List.append_nil, List.replicate_succ', ← List.append_assoc] at hline
          obtain rfl : '\r' = f := List.cons.inj (List.append_inj_right' hline rfl) |>.1
          exact absurd hf (by decide)
      | append_singleton tail d =>
          rw [← List.append_assoc, ← List.append_assoc] at hline
          refine ⟨blank, run, tail, ?_, hblank, hrun, ?_⟩
          · rw [← List.append_assoc]
            exact List.append_inj_left' hline rfl
          · rw [Text.isBlank, List.all_append, Bool.and_eq_true] at htail
            exact htail.1
  · exact Iff.rfl

theorem fenced_splitsAt (t : Text) : Text.SplitsAt (ClosesAt f n) t (fenced f n t) := by
  fun_induction fenced f n t with
  | case1 =>
      refine .inr ⟨rfl, fun a b hsplit hab => ?_⟩
      rw [(List.append_eq_nil_iff.mp hsplit).2] at hab
      exact not_closesAt_nil hn hab
  | case2 c rest hcloses =>
      rw [closesFence_iff hf hn, Text.firstLine, closingLine_stripReturn_iff hf hn] at hcloses
      exact Text.splitsAt_here ⟨Text.isWhole_nil, hcloses⟩
  | case3 c rest hcloses parts ih =>
      rw [closesFence_iff hf hn, Text.firstLine, closingLine_stripReturn_iff hf hn] at hcloses
      have hnext := ih.append
        (Text.firstLine (c :: rest) ++ Text.firstEnding (c :: rest)) ?_ ?_
      · rwa [Text.firstLine_append] at hnext
      · intro a b hsplit hab
        refine ⟨?_, hab.2⟩
        by_cases ha : a = []
        · subst ha
          rw [List.append_nil]
          rcases Text.getLast?_firstEnding (c :: rest) with hlast | hend
          · right
            rw [List.getLast?_append, hlast, Option.some_or]
          · rw [hend] at hsplit
            rw [show b = [] from hsplit] at hab
            exact absurd hab (not_closesAt_nil hn)
        · right
          rw [List.getLast?_append_of_ne_nil _ ha]
          exact hab.1.resolve_left ha
      · intro a b hsplit hab
        rw [Text.firstLine_append] at hsplit
        by_cases ha : a = []
        · subst ha
          rw [show b = c :: rest from hsplit] at hab
          exact absurd hab.2 hcloses
        · have hlast := hab.1.resolve_left ha
          rw [← Text.firstLine_append (c :: rest)] at hsplit
          rcases List.append_eq_append_iff.mp hsplit with ⟨a', hhead, hb⟩ | ⟨a', rfl, -⟩
          · -- The first line has its only line feed at the end.
            obtain rfl : a' = [] := by
              by_contra hne
              apply Text.lineFeed_notMem_dropLast_firstLine (c :: rest)
              rw [hhead, List.dropLast_append_of_ne_nil hne]
              exact List.mem_append_left _ (List.mem_of_getLast? hlast)
            refine ⟨[], by simpa using hhead.symm, Text.isWhole_nil, hab.2⟩
          · exact ⟨a', rfl, hab.1.of_append, hab.2⟩

end Fence

end Literal

end MarkupLayout

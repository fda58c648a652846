import Mathlib.Data.List.TakeWhile
import MarkupLayout.Pattern
import MarkupLayout.Proofs.Lines
/-!
# Lines that start with a sigil

The pattern of a sigil line is tried at every line start, with the longest indentation first, and
its matches do not overlap.  For sigils that are visible and stay on their line none of this
matters: the pattern matches at a line start exactly if a sigil follows the indentation and is
followed by a blank or the end of the line, and every such line start is found.
-/

namespace MarkupLayout

/-- The grammar has sigils, and each of them starts with something visible and has no line
feed. -/
structure Grammar.VisibleSigils (g : Grammar) : Prop where
  nonempty : g.blockSigils ≠ []
  visible : ∀ sigil ∈ g.blockSigils, sigil.head?.any (!Text.isIndentChar ·) = true
  onLine : ∀ sigil ∈ g.blockSigils, '\n' ∉ sigil

theorem Grammar.markdown_visibleSigils : Grammar.markdown.VisibleSigils where
  nonempty := by decide
  visible := by decide
  onLine := by decide

theorem mem_insertSigil {sigil other : Text} {sigils : List Text} :
    sigil ∈ insertSigil other sigils ↔ sigil = other ∨ sigil ∈ sigils := by
  induction sigils with
  | nil => simp [insertSigil]
  | cons first more ih =>
      rw [insertSigil]
      split
      · rw [List.mem_cons]
      · rw [List.mem_cons, ih, List.mem_cons, or_left_comm]

theorem mem_longestFirst {sigil : Text} {sigils : List Text} :
    sigil ∈ longestFirst sigils ↔ sigil ∈ sigils := by
  induction sigils with
  | nil => rfl
  | cons first more ih =>
      rw [List.mem_cons, ← ih]
      exact mem_insertSigil

namespace Pattern

structure Visible (sigils : List Text) : Prop where
  head : ∀ sigil ∈ sigils, sigil.head?.any (!Text.isIndentChar ·) = true
  onLine : ∀ sigil ∈ sigils, '\n' ∉ sigil

theorem sigilLine_eq {g : Grammar} (hg : g.VisibleSigils) :
    ∃ sigils, g.sigilLine = .sigilLine sigils ∧ Visible sigils ∧
      ∀ sigil, sigil ∈ sigils ↔ sigil ∈ g.blockSigils := by
  refine ⟨_, if_neg hg.nonempty, ⟨?_, ?_⟩, fun sigil => mem_longestFirst⟩
  · intro sigil hmem
    exact hg.visible sigil (mem_longestFirst.mp hmem)
  · intro sigil hmem
    exact hg.onLine sigil (mem_longestFirst.mp hmem)

/-! ## A match at one place -/

variable {sigils : List Text}

theorem sigilLength?_eq_some {t : Text} {n : Nat} (h : sigilLength? sigils t = some n) :
    ∃ sigil ∈ sigils, ∃ behind tail, t = sigil ++ behind ∧ sigilTail? behind = some tail ∧
      n = sigil.length + tail := by
  obtain ⟨sigil, hmem, hfound⟩ := List.exists_of_findSome?_eq_some h
  split at hfound
  · rename_i hstarts
    obtain ⟨behind, rfl⟩ := List.isPrefixOf_iff_prefix.mp hstarts
    rw [List.drop_left] at hfound
    obtain ⟨tail, htail, heq⟩ := Option.map_eq_some_iff.mp hfound
    exact ⟨sigil, hmem, behind, tail, rfl, htail, heq.symm⟩
  · simp at hfound

theorem isSome_sigilLength? {sigil behind : Text} (hmem : sigil ∈ sigils)
    (htail : (sigilTail? behind).isSome = true) :
    (sigilLength? sigils (sigil ++ behind)).isSome = true := by
  rw [sigilLength?, List.findSome?_isSome_iff]
  refine ⟨sigil, hmem, ?_⟩
  rw [if_pos (List.isPrefixOf_iff_prefix.mpr ⟨behind, rfl⟩), List.drop_left, Option.isSome_map]
  exact htail

theorem sigilLength?_cons_of_isIndentChar (hsigils : Visible sigils) {c : Char} (t : Text)
    (hc : Text.isIndentChar c = true) : sigilLength? sigils (c :: t) = none := by
  cases hfound : sigilLength? sigils (c :: t) with
  | none => rfl
  | some n =>
      obtain ⟨sigil, hmem, behind, tail, heq, -, -⟩ := sigilLength?_eq_some hfound
      have hhead := hsigils.head sigil hmem
      cases sigil with
      | nil => simp at hhead
      | cons d sigil =>
          rw [List.cons_append, List.cons.injEq] at heq
          simp [← heq.1, hc] at hhead

theorem sigilLineLength?_leading (hsigils : Visible sigils) (t : Text) :
    sigilLineLength? sigils t t.leading.length =
      (sigilLength? sigils (t.dropWhile Text.isIndentChar)).map fun length =>
        (t.leading.length, t.leading.length + length) := by
  -- Behind only a part of the indentation, a blank stands where the sigil would start.
  have hshort : ∀ n < t.leading.length, sigilLength? sigils (t.drop n) = none := by
    intro n hn
    have hlength : n < t.length := by
      have := (List.takeWhile_prefix (l := t) Text.isIndentChar).length_le
      exact lt_of_lt_of_le hn this
    rw [List.drop_eq_getElem_cons hlength]
    apply sigilLength?_cons_of_isIndentChar hsigils
    have hget : t[n] = t.leading[n] := by
      exact ((List.takeWhile_prefix (l := t) Text.isIndentChar).getElem hn).symm
    rw [hget]
    exact List.mem_takeWhile_imp (List.getElem_mem hn)
  have hnone : ∀ n < t.leading.length, sigilLineLength? sigils t n = none := by
    intro n
    induction n with
    | zero =>
        intro hn
        have := hshort 0 hn
        rw [List.drop_zero] at this
        simp [sigilLineLength?, this]
    | succ n ih =>
        intro hn
        simp [sigilLineLength?, hshort (n + 1) hn, ih (by omega)]
  rw [← Text.drop_leading]
  cases hn : t.leading.length with
  | zero => simp [sigilLineLength?]
  | succ n =>
      rw [sigilLineLength?, hnone n (by omega)]
      cases sigilLength? sigils (t.drop (n + 1)) <;> rfl

theorem matchHere?_sigilLine (hsigils : Visible sigils) (t : Text) :
    (sigilLine sigils).matchHere? true t =
      (sigilLength? sigils (t.dropWhile Text.isIndentChar)).map fun length =>
        ⟨0, t.leading.length + length, some t.leading.length⟩ := by
  simp only [matchHere?, ↓reduceIte, sigilLineLength?_leading hsigils, Option.map_map]
  rfl

/-- The match is spaces and tabs, a sigil, and what may follow it. -/
def LineMatch (sigils : List Text) (t : Text) (m : Match) : Prop :=
  ∃ indent sigil behind tail, t = indent ++ (sigil ++ behind) ∧
    indent.all Text.isIndentChar = true ∧ sigil ∈ sigils ∧ sigilTail? behind = some tail ∧
    m = ⟨0, indent.length + (sigil.length + tail), some indent.length⟩

theorem lineMatch_of_matchHere? (hsigils : Visible sigils) {t : Text} {m : Match}
    (h : (sigilLine sigils).matchHere? true t = some m) : LineMatch sigils t m := by
  rw [matchHere?_sigilLine hsigils] at h
  obtain ⟨n, hn, rfl⟩ := Option.map_eq_some_iff.mp h
  obtain ⟨sigil, hmem, behind, tail, hsplit, htail, rfl⟩ := sigilLength?_eq_some hn
  exact ⟨t.leading, sigil, behind, tail, by rw [← hsplit, Text.leading_append],
    t.all_isIndentChar_leading, hmem, htail, rfl⟩

theorem Visible.startsVisibly (hsigils : Visible sigils) {sigil : Text} (hmem : sigil ∈ sigils)
    (behind : Text) : Text.StartsVisibly (sigil ++ behind) := by
  have hhead := hsigils.head sigil hmem
  cases sigil with
  | nil => simp at hhead
  | cons c sigil => exact Text.startsVisibly_of_not_isIndentChar (by simpa using hhead) _

theorem exists_matchHere? (hsigils : Visible sigils) {blank sigil behind : Text}
    (hblank : blank.all Text.isIndentChar = true) (hmem : sigil ∈ sigils)
    (htail : (sigilTail? behind).isSome = true) :
    ∃ found, (sigilLine sigils).matchHere? true (blank ++ (sigil ++ behind)) = some found := by
  rw [← Option.isSome_iff_exists, matchHere?_sigilLine hsigils,
    Text.dropWhile_isIndentChar_append hblank (hsigils.startsVisibly hmem behind),
    Option.isSome_map]
  exact isSome_sigilLength? hmem htail

theorem lineFeed_notMem_take_sigilTail {behind : Text} {tail : Nat}
    (h : sigilTail? behind = some tail) : '\n' ∉ behind.take tail := by
  unfold sigilTail? at h
  split at h <;> simp at h <;> subst h <;> simp

theorem sigilTail?_le {behind : Text} {tail : Nat} (h : sigilTail? behind = some tail) :
    tail ≤ behind.length := by
  unfold sigilTail? at h
  split at h <;> simp at h <;> subst h <;> simp

theorem match_onLine (hsigils : Visible sigils) {t : Text} {m : Match}
    (h : (sigilLine sigils).matchHere? true t = some m) :
    0 < m.length ∧ m.length ≤ t.length ∧ '\n' ∉ t.take m.length := by
  obtain ⟨indent, sigil, behind, tail, rfl, hindent, hmem, htail, rfl⟩ :=
    lineMatch_of_matchHere? hsigils h
  have hpos : 0 < sigil.length := by
    have hhead := hsigils.head sigil hmem
    cases sigil with
    | nil => simp at hhead
    | cons => simp
  have hle := sigilTail?_le htail
  refine ⟨by simp only; omega, by simp only [List.length_append]; omega, ?_⟩
  rw [List.take_length_add_append, List.take_length_add_append]
  simp only [List.mem_append, not_or]
  refine ⟨?_, hsigils.onLine sigil hmem, lineFeed_notMem_take_sigilTail htail⟩
  intro hfeed
  simpa [Text.isIndentChar] using List.all_eq_true.mp hindent _ hfeed

/-! ## All matches -/

/-- Whether a line starts behind `passed`, when the text starts a line or not. -/
def startsLine (lineStart : Bool) (passed : Text) : Bool :=
  passed.getLast?.elim lineStart (· == '\n')

@[simp] theorem startsLine_nil (lineStart : Bool) : startsLine lineStart [] = lineStart := rfl

theorem startsLine_append (lineStart : Bool) (s t : Text) :
    startsLine lineStart (s ++ t) = startsLine (startsLine lineStart s) t := by
  unfold startsLine
  rw [List.getLast?_append]
  cases t.getLast? <;> rfl

theorem startsLine_of_ne_nil (lineStart : Bool) {t : Text} (h : t ≠ []) :
    startsLine lineStart t = (t.getLast? == some '\n') := by
  rw [startsLine, List.getLast?_eq_some_getLast h]
  rfl

theorem startsLine_true_iff (passed : Text) : startsLine true passed = true ↔ passed.IsWhole := by
  unfold startsLine Text.IsWhole
  cases h : passed.getLast? with
  | none => simp [List.getLast?_eq_none_iff.mp h]
  | some c =>
      have hne : passed ≠ [] := by
        rintro rfl
        simp at h
      simp [hne]

theorem matchHere?_nil (hsigils : Visible sigils) (lineStart : Bool) :
    (sigilLine sigils).matchHere? lineStart [] = none := by
  cases lineStart with
  | false => rfl
  | true =>
      cases h : (sigilLine sigils).matchHere? true [] with
      | none => rfl
      | some m =>
          rw [matchHere?_sigilLine hsigils] at h
          obtain ⟨n, hn, -⟩ := Option.map_eq_some_iff.mp h
          obtain ⟨sigil, hmem, behind, _, heq, -⟩ := sigilLength?_eq_some hn
          have hhead := hsigils.head sigil hmem
          have hnil := (List.append_eq_nil_iff.mp heq.symm).1
          simp [hnil] at hhead

theorem ne_nil_of_matchHere? (hsigils : Visible sigils) {lineStart : Bool} {t : Text} {m : Match}
    (h : (sigilLine sigils).matchHere? lineStart t = some m) : t ≠ [] := by
  rintro rfl
  rw [matchHere?_nil hsigils] at h
  simp at h

theorem matchesFrom_cons (hsigils : Visible sigils) (start : Nat) (lineStart fresh : Bool)
    (c : Char) (rest : Text) :
    (sigilLine sigils).matchesFrom start lineStart fresh (c :: rest) =
      match (sigilLine sigils).matchHere? lineStart (c :: rest) with
      | none => (sigilLine sigils).matchesFrom (start + 1) (c == '\n') true rest
      | some m => { m with start := start } ::
          (sigilLine sigils).matchesFrom (start + m.length)
            (((c :: rest).take m.length).getLast? == some '\n') false
            ((c :: rest).drop m.length) := by
  rw [matchesFrom]
  cases hfound : (sigilLine sigils).matchHere? lineStart (c :: rest) with
  | none => rfl
  | some m =>
      have hpos : 0 < m.length := by
        cases lineStart with
        | false => simp [matchHere?] at hfound
        | true => exact (match_onLine hsigils hfound).1
      obtain ⟨n, hn⟩ : ∃ n, m.length = n + 1 := ⟨m.length - 1, by omega⟩
      simp [hn]

theorem matchesFrom_nil (hsigils : Visible sigils) (start : Nat) (lineStart fresh : Bool) :
    (sigilLine sigils).matchesFrom start lineStart fresh [] = [] := by
  rw [matchesFrom, matchHere?_nil hsigils]

private theorem search_induction (hsigils : Visible sigils) {motive : Nat → Bool → Text → Prop}
    (nil : ∀ start lineStart, motive start lineStart [])
    (skip : ∀ start lineStart c rest,
      (sigilLine sigils).matchHere? lineStart (c :: rest) = none →
      motive (start + 1) (c == '\n') rest → motive start lineStart (c :: rest))
    (found : ∀ start c rest m, (sigilLine sigils).matchHere? true (c :: rest) = some m →
      motive (start + m.length) (((c :: rest).take m.length).getLast? == some '\n')
        ((c :: rest).drop m.length) → motive start true (c :: rest))
    (start : Nat) (lineStart : Bool) (t : Text) : motive start lineStart t := by
  induction hlength : t.length using Nat.strongRecOn generalizing start lineStart t with
  | ind n ih =>
      cases t with
      | nil => exact nil start lineStart
      | cons c rest =>
          cases hfound : (sigilLine sigils).matchHere? lineStart (c :: rest) with
          | none =>
              apply skip _ _ _ _ hfound
              exact ih _ (by simp [← hlength]) _ _ _ rfl
          | some m =>
              cases lineStart with
              | false => simp [matchHere?] at hfound
              | true =>
                  have hpos := (match_onLine hsigils hfound).1
                  apply found _ _ _ _ hfound
                  apply ih _ _ _ _ _ rfl
                  simp only [List.length_drop, ← hlength, List.length_cons]
                  omega

theorem exists_of_mem_matchesFrom (hsigils : Visible sigils) {start : Nat}
    {lineStart fresh : Bool} {t : Text} {m : Match}
    (h : m ∈ (sigilLine sigils).matchesFrom start lineStart fresh t) :
    ∃ passed behind found, t = passed ++ behind ∧ startsLine lineStart passed = true ∧
      (sigilLine sigils).matchHere? true behind = some found ∧
      m = { found with start := start + passed.length } := by
  induction start, lineStart, t using search_induction hsigils generalizing fresh with
  | nil => simp [matchesFrom_nil hsigils] at h
  | skip start lineStart c rest hnone ih =>
      rw [matchesFrom_cons hsigils, hnone] at h
      obtain ⟨passed, behind, found, rfl, hstart, hfound, rfl⟩ := ih h
      refine ⟨c :: passed, behind, found, rfl, ?_, hfound, ?_⟩
      · rw [← List.singleton_append, startsLine_append]
        exact hstart
      · simp only [List.length_cons]
        congr 1
        omega
  | found start c rest first hfirst ih =>
      rw [matchesFrom_cons hsigils, hfirst] at h
      rcases List.mem_cons.mp h with rfl | h
      · exact ⟨[], c :: rest, first, rfl, rfl, hfirst, rfl⟩
      · obtain ⟨passed, behind, found, hsplit, hstart, hfound, rfl⟩ := ih h
        obtain ⟨hpos, hlength, -⟩ := match_onLine hsigils hfirst
        have hne : (c :: rest).take first.length ≠ [] := by
          rw [← List.length_pos_iff, List.length_take_of_le hlength]
          exact hpos
        refine ⟨(c :: rest).take first.length ++ passed, behind, found, ?_, ?_, hfound, ?_⟩
        · rw [List.append_assoc, ← hsplit, List.take_append_drop]
        · rw [startsLine_append, startsLine_of_ne_nil _ hne]
          exact hstart
        · rw [List.length_append, List.length_take_of_le hlength, Nat.add_assoc]

/-- Matches are found at all line starts where there is one: none of them reaches into the next
line. -/
theorem mem_matchesFrom (hsigils : Visible sigils) (start : Nat) {lineStart : Bool}
    (fresh : Bool) {passed behind : Text} {found : Match}
    (hstart : startsLine lineStart passed = true)
    (hfound : (sigilLine sigils).matchHere? true behind = some found) :
    { found with start := start + passed.length } ∈
      (sigilLine sigils).matchesFrom start lineStart fresh (passed ++ behind) := by
  generalize ht : passed ++ behind = t
  induction start, lineStart, t using search_induction hsigils generalizing fresh passed with
  | nil =>
      rw [(List.append_eq_nil_iff.mp ht).2, matchHere?_nil hsigils] at hfound
      simp at hfound
  | skip start lineStart c rest hnone ih =>
      rw [matchesFrom_cons hsigils, hnone]
      cases passed with
      | nil =>
          rw [startsLine_nil] at hstart
          rw [List.nil_append] at ht
          rw [ht, ← hstart, hnone] at hfound
          simp at hfound
      | cons d passed =>
          rw [List.cons_append, List.cons.injEq] at ht
          obtain ⟨rfl, ht⟩ := ht
          rw [← List.singleton_append, startsLine_append] at hstart
          have hmem := ih true hstart ht
          rwa [Nat.add_assoc, Nat.add_comm 1] at hmem
  | found start c rest first hfirst ih =>
      rw [matchesFrom_cons hsigils, hfirst]
      obtain ⟨hpos, hlength, hline⟩ := match_onLine hsigils hfirst
      by_cases hpassed : passed = []
      · subst hpassed
        rw [List.nil_append] at ht
        rw [ht, hfirst, Option.some.injEq] at hfound
        exact List.mem_cons.mpr (.inl (by rw [← hfound]; rfl))
      · apply List.mem_cons_of_mem
        -- The line feed before the wanted place is not in the first match.
        rw [startsLine_of_ne_nil _ hpassed, beq_iff_eq] at hstart
        have hlt : first.length < passed.length := by
          by_contra hge
          apply hline
          rw [← ht, List.take_append, List.take_of_length_le (by omega)]
          exact List.mem_append_left _ (List.mem_of_getLast? hstart)
        have hne : passed.drop first.length ≠ [] := by
          rw [← List.length_pos_iff, List.length_drop]
          omega
        have hbehind : startsLine (((c :: rest).take first.length).getLast? == some '\n')
            (passed.drop first.length) = true := by
          rw [startsLine_of_ne_nil _ hne, List.getLast?_drop, if_neg (by omega), hstart]
          rfl
        have hmem := ih false hbehind
          (by rw [← ht, List.drop_append_of_le_length (by omega)])
        rw [List.length_drop] at hmem
        rwa [show start + first.length + (passed.length - first.length) =
          start + passed.length by omega] at hmem

theorem matchesFrom_sorted (hsigils : Visible sigils) (start : Nat) (lineStart fresh : Bool)
    (t : Text) :
    ((sigilLine sigils).matchesFrom start lineStart fresh t).Pairwise
      (fun a b => a.start < b.start) := by
  induction start, lineStart, t using search_induction hsigils generalizing fresh with
  | nil => simp [matchesFrom_nil hsigils]
  | skip start lineStart c rest hnone ih =>
      rw [matchesFrom_cons hsigils, hnone]
      exact ih true
  | found start c rest first hfirst ih =>
      rw [matchesFrom_cons hsigils, hfirst]
      refine List.pairwise_cons.mpr ⟨?_, ih false⟩
      intro m hm
      obtain ⟨passed, _, found, -, -, -, rfl⟩ := exists_of_mem_matchesFrom hsigils hm
      have hpos := (match_onLine hsigils hfirst).1
      simp only
      omega

/-! ## The last match -/

theorem last?_eq_some (hsigils : Visible sigils) {t : Text} {m : Match}
    (h : (sigilLine sigils).last? t = some m) :
    ∃ passed behind found, t = passed ++ behind ∧ passed.IsWhole ∧
      (sigilLine sigils).matchHere? true behind = some found ∧
      m = { found with start := passed.length } := by
  obtain ⟨passed, behind, found, rfl, hstart, hfound, rfl⟩ :=
    exists_of_mem_matchesFrom hsigils (List.mem_of_getLast? h)
  exact ⟨passed, behind, found, rfl, (startsLine_true_iff passed).mp hstart, hfound, by simp⟩

theorem exists_last? (hsigils : Visible sigils) {passed behind : Text} {found : Match}
    (hpassed : passed.IsWhole)
    (hfound : (sigilLine sigils).matchHere? true behind = some found) :
    ∃ m, (sigilLine sigils).last? (passed ++ behind) = some m ∧ passed.length ≤ m.start := by
  have hmem := mem_matchesFrom hsigils 0 true
    ((startsLine_true_iff passed).mpr hpassed) hfound
  have hsorted := matchesFrom_sorted hsigils 0 true true (passed ++ behind)
  change _ ∈ (sigilLine sigils).allMatches (passed ++ behind) at hmem
  change ((sigilLine sigils).allMatches (passed ++ behind)).Pairwise _ at hsorted
  have hne : (sigilLine sigils).allMatches (passed ++ behind) ≠ [] := List.ne_nil_of_mem hmem
  refine ⟨_, List.getLast?_eq_some_getLast hne, ?_⟩
  rw [← List.dropLast_concat_getLast hne] at hmem hsorted
  rcases List.mem_append.mp hmem with hmem | hmem
  · have hlt := (List.pairwise_append.mp hsorted).2.2 _ hmem _ (List.mem_singleton.mpr rfl)
    simp only [Nat.zero_add] at hlt
    omega
  · rw [← List.mem_singleton.mp hmem]
    simp

/-! ## One line -/

/-- Whether a line starts with a sigil is decided by what stands behind its indentation. -/
theorem occursIn_sigilLine (hsigils : Visible sigils) {line : Text} (hline : '\n' ∉ line) :
    (sigilLine sigils).occursIn line =
      (sigilLength? sigils (line.dropWhile Text.isIndentChar)).isSome := by
  have hhere : (sigilLength? sigils (line.dropWhile Text.isIndentChar)).isSome =
      ((sigilLine sigils).matchHere? true line).isSome := by
    rw [matchHere?_sigilLine hsigils, Option.isSome_map]
  rw [hhere, Bool.eq_iff_iff]
  constructor
  · intro h
    obtain ⟨m, hm⟩ := List.exists_mem_of_ne_nil _ (by simpa [occursIn] using h)
    obtain ⟨passed, behind, found, rfl, hstart, hfound, -⟩ := exists_of_mem_matchesFrom hsigils hm
    rcases (startsLine_true_iff passed).mp hstart with rfl | hlast
    · simp [hfound]
    · exact absurd (List.mem_append_left _ (List.mem_of_getLast? hlast)) hline
  · intro h
    obtain ⟨found, hfound⟩ := Option.isSome_iff_exists.mp h
    have hmem := mem_matchesFrom hsigils 0 true (startsLine_true_iff [] |>.mpr (.inl rfl)) hfound
    have hne := List.ne_nil_of_mem hmem
    simpa [occursIn, allMatches] using hne

end Pattern

end MarkupLayout

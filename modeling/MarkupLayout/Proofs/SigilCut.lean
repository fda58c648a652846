import Mathlib.Data.List.Sort
import MarkupLayout.Proofs.NearestAnchor
import MarkupLayout.Proofs.SigilTokens
/-!
# Sigil lines at a cut

In a part of a text, the cut counts as the start or the end of a line.  Behind a cut inside a line,
a sigil may so seem to start a line; before one, a line may seem to end behind its sigil.  Apart
from these two, the sigil lines on one side of the cut are those of the whole text.
-/

namespace MarkupLayout

/-- No part of a sigil is a blank or a line break. -/
structure Grammar.SolidSigils (g : Grammar) : Prop extends g.VisibleSigils where
  solid : ∀ sigil ∈ g.blockSigils, ∀ c ∈ sigil, standsAlone (some c) = false

theorem Grammar.markdown_solidSigils : Grammar.markdown.SolidSigils where
  toVisibleSigils := markdown_visibleSigils
  solid := by
    have hall : Grammar.markdown.blockSigils.all
        (·.all fun c => !standsAlone (some c)) = true := by decide
    simpa using hall

/-! ## What may follow a sigil -/

namespace Pattern

theorem sigilLine_eq_of_solid {g : Grammar} (hg : g.SolidSigils) :
    ∃ sigils, g.sigilLine = .sigilLine sigils ∧ Visible sigils ∧
      (∀ sigil ∈ sigils, ∀ c ∈ sigil, standsAlone (some c) = false) ∧
      ∀ sigil, sigil ∈ sigils ↔ sigil ∈ g.blockSigils := by
  obtain ⟨sigils, hpattern, hsigils, hmem⟩ := sigilLine_eq hg.toVisibleSigils
  exact ⟨sigils, hpattern, hsigils, fun sigil h => hg.solid sigil ((hmem sigil).mp h), hmem⟩

theorem sigilTail?_of_append {behind below : Text} {tail : Nat}
    (h : sigilTail? (behind ++ below) = some tail) (hle : tail ≤ behind.length) :
    sigilTail? behind = some tail := by
  match behind with
  | [] =>
      obtain rfl : tail = 0 := by simpa using hle
      rfl
  | [c] =>
      by_cases hc : c = '\r'
      · subst hc
        cases below with
        | nil => exact h
        | cons d below =>
            by_cases hd : d = '\n' <;> simp_all [sigilTail?]
      · simp only [List.cons_append, List.nil_append, sigilTail?] at h ⊢
        split at h <;> simp_all
  | c :: d :: behind =>
      simp only [List.cons_append, sigilTail?] at h ⊢
      split at h <;> simp_all

theorem sigilTail?_eq_zero_iff (behind : Text) :
    sigilTail? behind = some 0 ↔ behind = [] ∨ behind.head? = some '\n' := by
  cases behind with
  | nil => simp [sigilTail?]
  | cons c behind =>
      unfold sigilTail?
      split <;> simp_all

theorem sigilTail?_return_iff (behind : Text) :
    sigilTail? ('\r' :: behind) = some 1 ↔ behind = [] ∨ behind.head? = some '\n' := by
  cases behind with
  | nil => simp [sigilTail?]
  | cons c behind =>
      by_cases hc : c = '\n' <;> simp [sigilTail?, hc]

theorem sigilTail?_append_iff {behind : Text} {tail : Nat} (h : sigilTail? behind = some tail)
    (below : Text) :
    sigilTail? (behind ++ below) = some tail ↔
      (behind = [] ∨ behind = ['\r'] → below = [] ∨ below.head? = some '\n') := by
  unfold sigilTail? at h
  split at h
  next =>
    obtain rfl : 0 = tail := Option.some.inj h
    simpa using sigilTail?_eq_zero_iff below
  next => simp_all [sigilTail?]
  next => simp_all [sigilTail?]
  next => simp_all [sigilTail?]
  next =>
    obtain rfl : 1 = tail := Option.some.inj h
    simpa using sigilTail?_return_iff below
  next => simp_all [sigilTail?]
  next => simp at h

/-! ## A match at the start of a line -/

section Solid

variable {g : Grammar} {sigils : List Text} (hsigils : Visible sigils)
  (hsolid : ∀ sigil ∈ sigils, ∀ c ∈ sigil, standsAlone (some c) = false)

include hsigils hsolid

theorem eq_of_line {indent indent' sigil sigil' behind behind' : Text}
    (h : indent ++ (sigil ++ behind) = indent' ++ (sigil' ++ behind'))
    (hindent : indent.all Text.isIndentChar = true)
    (hindent' : indent'.all Text.isIndentChar = true) (hmem : sigil ∈ sigils)
    (hmem' : sigil' ∈ sigils) (hbehind : standsAlone behind.head? = true)
    (hbehind' : standsAlone behind'.head? = true) :
    indent = indent' ∧ sigil = sigil' ∧ behind = behind' := by
  have hleading := congrArg Text.leading h
  rw [Text.leading, Text.leading,
    Text.takeWhile_isIndentChar_append hindent (hsigils.startsVisibly hmem behind),
    Text.takeWhile_isIndentChar_append hindent' (hsigils.startsVisibly hmem' behind')] at hleading
  rw [hleading, List.append_cancel_left_eq] at h
  have hsigil := hsolid sigil hmem
  have hsigil' := hsolid sigil' hmem'
  refine ⟨hleading, ?_⟩
  rcases List.append_eq_append_iff.mp h with ⟨part, rfl, rfl⟩ | ⟨part, rfl, rfl⟩
  all_goals
    cases part with
    | nil => simp
    | cons c part => simp_all

theorem matchHere?_eq_some_iff (t : Text) (m : Match) :
    (sigilLine sigils).matchHere? true t = some m ↔ LineMatch sigils t m := by
  refine ⟨lineMatch_of_matchHere? hsigils, ?_⟩
  rintro ⟨indent, sigil, behind, tail, rfl, hindent, hmem, htail, rfl⟩
  obtain ⟨found, hfound⟩ := exists_matchHere? hsigils hindent hmem (by rw [htail]; rfl)
  obtain ⟨indent', sigil', behind', tail', hsplit, hindent', hmem', htail', rfl⟩ :=
    lineMatch_of_matchHere? hsigils hfound
  obtain ⟨rfl, rfl, rfl⟩ := eq_of_line hsigils hsolid hsplit hindent hindent' hmem hmem'
    (standsAlone_of_sigilTail? (by rw [htail]; rfl))
    (standsAlone_of_sigilTail? (by rw [htail']; rfl))
  obtain rfl : tail = tail' := Option.some.inj (htail.symm.trans htail')
  exact hfound

end Solid

theorem LineMatch.of_append {sigils : List Text} {line below : Text} {m : Match}
    (h : LineMatch sigils (line ++ below) m) (hle : m.length ≤ line.length) :
    ∃ indent sigil behind tail, line = indent ++ (sigil ++ behind) ∧
      indent.all Text.isIndentChar = true ∧ sigil ∈ sigils ∧ sigilTail? behind = some tail ∧
      sigilTail? (behind ++ below) = some tail ∧
      m = ⟨0, indent.length + (sigil.length + tail), some indent.length⟩ := by
  obtain ⟨indent, sigil, behind, tail, hsplit, hindent, hmem, htail, rfl⟩ := h
  simp only at hle
  rw [← List.append_assoc] at hsplit
  obtain ⟨rest, rfl⟩ : indent ++ sigil <+: line :=
    List.prefix_of_prefix_length_le ⟨behind, hsplit.symm⟩ ⟨below, rfl⟩
      (by rw [List.length_append]; omega)
  rw [List.append_assoc, List.append_cancel_left_eq] at hsplit
  rw [List.length_append, List.length_append] at hle
  subst hsplit
  exact ⟨indent, sigil, rest, tail, List.append_assoc .., hindent, hmem,
    sigilTail?_of_append htail (by omega), htail, rfl⟩

end Pattern

/-- Spaces and tabs, a sigil, and at most a carriage return. -/
def Text.EndsBehindSigil (g : Grammar) (line : Text) : Prop :=
  ∃ indent sigil ending, line = indent ++ (sigil ++ ending) ∧ indent.all isIndentChar = true ∧
    sigil ∈ g.blockSigils ∧ (ending = [] ∨ ending = ['\r'])

theorem Text.EndsBehindSigil.startsSigilLine {g : Grammar} {line : Text}
    (h : line.EndsBehindSigil g) : line.StartsSigilLine g := by
  obtain ⟨indent, sigil, ending, hline, hindent, hmem, hending⟩ := h
  refine ⟨indent, sigil, ending, hline, hindent, hmem, .inr ?_⟩
  rcases hending with rfl | rfl <;> rfl

theorem Text.EndsBehindSigil.lineFeed_notMem {g : Grammar} (hg : g.VisibleSigils) {line : Text}
    (h : line.EndsBehindSigil g) : '\n' ∉ line := by
  obtain ⟨indent, sigil, ending, rfl, hindent, hmem, hending⟩ := h
  simp only [List.mem_append, not_or]
  refine ⟨fun hfeed => ?_, hg.onLine sigil hmem, by rcases hending with rfl | rfl <;> simp⟩
  simpa [isIndentChar] using List.all_eq_true.mp hindent _ hfeed

namespace Pattern

section Solid

variable {g : Grammar} {sigils : List Text} (hsigils : Visible sigils)
  (hsolid : ∀ sigil ∈ sigils, ∀ c ∈ sigil, standsAlone (some c) = false)
  (hmemSigils : ∀ sigil, sigil ∈ sigils ↔ sigil ∈ g.blockSigils)

include hsigils hsolid

theorem matchHere?_of_append {line below : Text} {m : Match}
    (h : (sigilLine sigils).matchHere? true (line ++ below) = some m)
    (hle : m.length ≤ line.length) : (sigilLine sigils).matchHere? true line = some m := by
  obtain ⟨indent, sigil, behind, tail, hline, hindent, hmem, htail, -, hm⟩ :=
    (lineMatch_of_matchHere? hsigils h).of_append hle
  exact (matchHere?_eq_some_iff hsigils hsolid line m).mpr
    ⟨indent, sigil, behind, tail, hline, hindent, hmem, htail, hm⟩

include hmemSigils

theorem matchHere?_append_iff {line : Text} {m : Match}
    (h : (sigilLine sigils).matchHere? true line = some m) (below : Text) :
    (sigilLine sigils).matchHere? true (line ++ below) = some m ↔
      (line.EndsBehindSigil g → below = [] ∨ below.head? = some '\n') := by
  constructor
  · rintro hall ⟨indent, sigil, ending, rfl, hindent, hmem, hending⟩
    obtain ⟨indent', sigil', behind, tail, hline, hindent', hmem', htail, hbelow, -⟩ :=
      (lineMatch_of_matchHere? hsigils hall).of_append (match_onLine hsigils h).2.1
    obtain ⟨-, -, rfl⟩ := eq_of_line hsigils hsolid hline hindent hindent'
      ((hmemSigils sigil).mpr hmem) hmem' (by rcases hending with rfl | rfl <;> rfl)
      (standsAlone_of_sigilTail? (by rw [htail]; rfl))
    exact (sigilTail?_append_iff htail below).mp hbelow hending
  · intro hbelow
    obtain ⟨indent, sigil, behind, tail, rfl, hindent, hmem, htail, rfl⟩ :=
      lineMatch_of_matchHere? hsigils h
    refine (matchHere?_eq_some_iff hsigils hsolid _ _).mpr
      ⟨indent, sigil, behind ++ below, tail, by simp, hindent, hmem, ?_, rfl⟩
    exact (sigilTail?_append_iff htail below).mpr fun hending =>
      hbelow ⟨indent, sigil, behind, rfl, hindent, (hmemSigils sigil).mp hmem, hending⟩

end Solid

/-! ## Matches as byte ranges -/

def foundFrom (p : Pattern) (offset : Nat) (t : Text) : List Found :=
  (p.allMatches t).map (.ofMatch offset t)

end Pattern

namespace Found

variable {m : Match}

theorem ofMatch_append_left (offset : Nat) (passed behind : Text) (hm : m.start = 0) :
    ofMatch offset (passed ++ behind) { m with start := passed.length } =
      ofMatch (offset + passed.byteSize) behind m := by
  simp [ofMatch, hm]

theorem ofMatch_append_right (offset : Nat) {line : Text} (below : Text) (hm : m.start = 0)
    (hlength : m.length ≤ line.length) (hindent : ∀ indent ∈ m.indent, indent ≤ m.length) :
    ofMatch offset (line ++ below) m = ofMatch offset line m := by
  have htake {n : Nat} (hn : n ≤ m.length) : (line ++ below).take n = line.take n :=
    List.take_append_of_le_length (hn.trans hlength)
  cases hcase : m.indent with
  | none => simp [ofMatch, hm, hcase, htake le_rfl]
  | some indent => simp [ofMatch, hm, hcase, htake le_rfl, htake (hindent indent hcase)]

theorem stop_ofMatch (offset : Nat) (t : Text) (hm : m.start = 0) :
    (ofMatch offset t m).stop = offset + Text.byteSize (t.take m.length) := by
  simp [ofMatch, hm]

theorem start_ofMatch_of_start (offset : Nat) (t : Text) (hm : m.start = 0) :
    (ofMatch offset t m).start = offset := by
  simp [ofMatch, hm]

end Found

namespace Text

theorem length_le_of_byteSize_take_le {s r : Text} {n : Nat} (hn : n ≤ (s ++ r).length)
    (h : byteSize ((s ++ r).take n) ≤ s.byteSize) : n ≤ s.length := by
  by_contra hlt
  have hlength := length_le_byteSize (r.take (n - s.length))
  rw [List.take_append, List.take_of_length_le (by omega), byteSize_append] at h
  rw [List.length_append] at hn
  rw [List.length_take_of_le (by omega)] at hlength
  omega

end Text

namespace Pattern

section Found

variable {sigils : List Text} (hsigils : Visible sigils)

include hsigils

theorem start_of_matchHere? {t : Text} {m : Match}
    (h : (sigilLine sigils).matchHere? true t = some m) :
    m.start = 0 ∧ ∀ indent ∈ m.indent, indent ≤ m.length := by
  obtain ⟨indent, sigil, behind, tail, -, -, -, -, rfl⟩ := lineMatch_of_matchHere? hsigils h
  refine ⟨rfl, fun n hn => ?_⟩
  obtain rfl : indent.length = n := Option.some.inj hn
  exact Nat.le_add_right ..

theorem mem_foundFrom_iff {offset : Nat} {t : Text} {found : Found} :
    found ∈ (sigilLine sigils).foundFrom offset t ↔
      ∃ passed line m, t = passed ++ line ∧ passed.IsWhole ∧
        (sigilLine sigils).matchHere? true line = some m ∧
        found = .ofMatch (offset + passed.byteSize) line m := by
  rw [foundFrom, List.mem_map]
  constructor
  · rintro ⟨_, hmem, rfl⟩
    obtain ⟨passed, line, m, rfl, hstart, hm, rfl⟩ := exists_of_mem_matchesFrom hsigils hmem
    refine ⟨passed, line, m, rfl, (startsLine_true_iff passed).mp hstart, hm, ?_⟩
    rw [Nat.zero_add, Found.ofMatch_append_left _ _ _ (start_of_matchHere? hsigils hm).1]
  · rintro ⟨passed, line, m, rfl, hwhole, hm, rfl⟩
    have hmem := mem_matchesFrom hsigils 0 true ((startsLine_true_iff passed).mpr hwhole) hm
    rw [Nat.zero_add] at hmem
    exact ⟨_, hmem, Found.ofMatch_append_left _ _ _ (start_of_matchHere? hsigils hm).1⟩

theorem pairwise_foundFrom (offset : Nat) (t : Text) :
    ((sigilLine sigils).foundFrom offset t).Pairwise fun a b => a.start < b.start := by
  have hsorted := matchesFrom_sorted hsigils 0 true true t
  refine List.pairwise_map.mpr (hsorted.imp_of_mem fun {a b} ha hb hlt => ?_)
  obtain ⟨passed, line, _, rfl, -, -, rfl⟩ := exists_of_mem_matchesFrom hsigils ha
  obtain ⟨passed', line', _, hsplit, -, -, rfl⟩ := exists_of_mem_matchesFrom hsigils hb
  change offset + Text.byteSize ((passed ++ line).take (0 + passed.length)) <
    offset + Text.byteSize ((passed ++ line).take (0 + passed'.length))
  simp only [Nat.zero_add] at hlt ⊢
  rw [List.take_left, hsplit, List.take_left]
  rcases List.append_eq_append_iff.mp hsplit with ⟨between, rfl, -⟩ | ⟨between, rfl, -⟩
  · have hlength := Text.length_le_byteSize between
    rw [List.length_append] at hlt
    rw [Text.byteSize_append]
    omega
  · rw [List.length_append] at hlt
    omega

theorem foundFrom_eq_of_mem_iff {offset : Nat} {t : Text} {l : List Found}
    (hl : l.Pairwise fun a b => a.start < b.start)
    (h : ∀ found, found ∈ l ↔ found ∈ (sigilLine sigils).foundFrom offset t) :
    l = (sigilLine sigils).foundFrom offset t := by
  have : Std.Irrefl fun a b : Found => a.start < b.start := ⟨fun _ => Nat.lt_irrefl _⟩
  have : Std.Antisymm fun a b : Found => a.start < b.start := ⟨fun _ _ h h' => by omega⟩
  exact hl.eq_of_mem_iff (pairwise_foundFrom hsigils offset t) h

/-- Behind the start of a line, or where no sigil line seems to start, the matches are those of the
whole text. -/
theorem filter_start_foundFrom {above below : Text}
    (h : ((sigilLine sigils).matchHere? true below).isSome = true → above.IsWhole) :
    ((sigilLine sigils).foundFrom 0 (above ++ below)).filter (above.byteSize ≤ ·.start) =
      (sigilLine sigils).foundFrom above.byteSize below := by
  refine foundFrom_eq_of_mem_iff hsigils ((pairwise_foundFrom hsigils 0 _).filter _) fun found => ?_
  rw [List.mem_filter, decide_eq_true_eq, mem_foundFrom_iff hsigils, mem_foundFrom_iff hsigils]
  constructor
  · rintro ⟨⟨passed, line, m, hsplit, hwhole, hm, rfl⟩, hle⟩
    rw [Nat.zero_add, Found.start_ofMatch_of_start _ _ (start_of_matchHere? hsigils hm).1] at hle
    obtain ⟨between, rfl, rfl⟩ := Text.exists_eq_append_of_byteSize_le hsplit hle
    exact ⟨between, line, m, rfl, hwhole.of_append, hm, by rw [Nat.zero_add, Text.byteSize_append]⟩
  · rintro ⟨between, line, m, rfl, hwhole, hm, rfl⟩
    rw [Found.start_ofMatch_of_start _ _ (start_of_matchHere? hsigils hm).1]
    refine ⟨⟨above ++ between, line, m, (List.append_assoc ..).symm, ?_, hm, ?_⟩,
      Nat.le_add_right ..⟩
    · cases between with
      | nil =>
          rw [List.append_nil]
          exact h (by rw [List.nil_append, hm]; rfl)
      | cons c between =>
          right
          rw [List.getLast?_append_of_ne_nil _ (List.cons_ne_nil c between)]
          exact hwhole.resolve_left (by simp)
    · rw [Nat.zero_add, Text.byteSize_append]

theorem getLast?_foundFrom {offset : Nat} {above line : Text} (hwhole : above.IsWhole)
    (hline : '\n' ∉ line) {m : Match} (hm : (sigilLine sigils).matchHere? true line = some m) :
    ((sigilLine sigils).foundFrom offset (above ++ line)).getLast? =
      some (.ofMatch (offset + above.byteSize) line m) := by
  obtain ⟨found, hfound, hle⟩ := exists_last? hsigils hwhole hm
  obtain ⟨passed, rest, m', hsplit, hpassed, hm', rfl⟩ := last?_eq_some hsigils hfound
  obtain ⟨between, rfl⟩ := List.prefix_of_prefix_length_le (List.prefix_append above line)
    ⟨rest, hsplit.symm⟩ hle
  rw [List.append_assoc, List.append_cancel_left_eq] at hsplit
  obtain rfl : between = [] := by
    rcases hpassed.of_append with hnil | hlast
    · exact hnil
    · rw [hsplit] at hline
      exact absurd (List.mem_append_left _ (List.mem_of_getLast? hlast)) hline
  rw [List.nil_append] at hsplit
  subst hsplit
  obtain rfl := Option.some.inj (hm.symm.trans hm')
  rw [foundFrom, List.getLast?_map,
    show ((sigilLine sigils).allMatches (above ++ line)).getLast? = _ from hfound, Option.map_some,
    List.append_nil, Found.ofMatch_append_left _ _ _ (start_of_matchHere? hsigils hm).1]

end Found

section Solid

variable {g : Grammar} {sigils : List Text} (hsigils : Visible sigils)
  (hsolid : ∀ sigil ∈ sigils, ∀ c ∈ sigil, standsAlone (some c) = false)
  (hmemSigils : ∀ sigil, sigil ∈ sigils ↔ sigil ∈ g.blockSigils)

include hsigils hsolid hmemSigils

/-- Before a cut where no line seems to end behind its sigil, the matches are those of the whole
text. -/
theorem filter_stop_foundFrom {above below : Text}
    (h : ∀ passed line, above = passed ++ line → passed.IsWhole → line.EndsBehindSigil g →
      below = [] ∨ below.head? = some '\n') :
    ((sigilLine sigils).foundFrom 0 (above ++ below)).filter (·.stop ≤ above.byteSize) =
      (sigilLine sigils).foundFrom 0 above := by
  refine foundFrom_eq_of_mem_iff hsigils ((pairwise_foundFrom hsigils 0 _).filter _) fun found => ?_
  rw [List.mem_filter, decide_eq_true_eq, mem_foundFrom_iff hsigils, mem_foundFrom_iff hsigils]
  constructor
  · rintro ⟨⟨passed, line, m, hsplit, hwhole, hm, rfl⟩, hle⟩
    obtain ⟨hstart, hindent⟩ := start_of_matchHere? hsigils hm
    rw [Nat.zero_add, Found.stop_ofMatch _ _ hstart] at hle
    obtain ⟨line, rfl, rfl⟩ := Text.exists_eq_append_of_byteSize_le hsplit.symm (by omega)
    rw [Text.byteSize_append, Nat.add_le_add_iff_left] at hle
    have hlength := Text.length_le_of_byteSize_take_le (match_onLine hsigils hm).2.1 hle
    exact ⟨passed, line, m, rfl, hwhole, matchHere?_of_append hsigils hsolid hm hlength,
      Found.ofMatch_append_right _ below hstart hlength hindent⟩
  · rintro ⟨passed, line, m, rfl, hwhole, hm, rfl⟩
    obtain ⟨hstart, hindent⟩ := start_of_matchHere? hsigils hm
    have hlength := (match_onLine hsigils hm).2.1
    refine ⟨⟨passed, line ++ below, m, List.append_assoc .., hwhole, ?_,
      (Found.ofMatch_append_right _ below hstart hlength hindent).symm⟩, ?_⟩
    · exact (matchHere?_append_iff hsigils hsolid hmemSigils hm below).mpr
        (h passed line rfl hwhole)
    · have hsize := congrArg Text.byteSize (List.take_append_drop m.length line)
      rw [Text.byteSize_append] at hsize
      rw [Found.stop_ofMatch _ _ hstart, Text.byteSize_append]
      omega

theorem ofMatch_notMem_foundFrom {above line below : Text} {m : Match}
    (hm : (sigilLine sigils).matchHere? true line = some m) (hline : line.EndsBehindSigil g)
    (hbelow : ¬(below = [] ∨ below.head? = some '\n')) :
    Found.ofMatch above.byteSize line m ∉
      (sigilLine sigils).foundFrom 0 (above ++ (line ++ below)) := by
  rw [mem_foundFrom_iff hsigils]
  rintro ⟨passed, rest, m', hsplit, -, hm', heq⟩
  have hstart := (start_of_matchHere? hsigils hm).1
  have hstart' := (start_of_matchHere? hsigils hm').1
  have hstarts := congrArg Found.start heq
  rw [Found.start_ofMatch_of_start _ _ hstart, Found.start_ofMatch_of_start _ _ hstart',
    Nat.zero_add] at hstarts
  obtain ⟨rfl, rfl⟩ := Text.append_inj_of_byteSize hsplit hstarts
  -- Both matches have the same length, so they are the same.
  have hstops := congrArg Found.stop heq
  rw [Found.stop_ofMatch _ _ hstart, Found.stop_ofMatch _ _ hstart', Nat.zero_add,
    Nat.add_left_cancel_iff] at hstops
  have hsize := congrArg Text.byteSize (List.take_append_drop m.length line)
  rw [Text.byteSize_append] at hsize
  have hlength := Text.length_le_of_byteSize_take_le (match_onLine hsigils hm').2.1 (by omega)
  have hsame := matchHere?_of_append hsigils hsolid hm' hlength
  rw [hm, Option.some.injEq] at hsame
  rw [← hsame] at hm'
  exact hbelow ((matchHere?_append_iff hsigils hsolid hmemSigils hm below).mp hm' hline)

end Solid

end Pattern

end MarkupLayout

import MarkupLayout.Proofs.SigilCut
/-!
# Searches from an offset

A search sees only the text on one side of its offset.  What it reports is a match of the whole
text, and the nearest one, unless the offset is inside a line and the cut makes a sigil line of what
stands before or behind it.  From inside a character, nothing is found.
-/

namespace MarkupLayout

/-- The offset is not at the start or the end of a character of the text. -/
def Text.InsideChar (t : Text) (offset : Nat) : Prop :=
  offset < t.byteSize ∧ t.cut? offset = none

theorem Text.not_insideChar (above below : Text) :
    ¬InsideChar (above ++ below) above.byteSize := by
  rintro ⟨-, hcut⟩
  simp [cut?_append] at hcut

namespace Document

def allFound (doc : Document) (p : Pattern) : List Found :=
  p.foundFrom 0 doc.text

def firstFrom? (doc : Document) (p : Pattern) (offset : Nat) : Option Found :=
  (doc.allFound p).find? (offset ≤ ·.start)

def lastBefore? (doc : Document) (p : Pattern) (offset : Nat) : Option Found :=
  ((doc.allFound p).filter (·.stop ≤ offset)).getLast?

/-- Inside a line, what stands behind the offset looks like a sigil line. -/
def SeemsToStart (g : Grammar) (doc : Document) (offset : Nat) : Prop :=
  ∃ above below, doc.text = above ++ below ∧ above.byteSize = offset ∧ ¬above.IsWhole ∧
    below.StartsSigilLine g

/-- Inside a line, what stands before the offset looks like a line that ends behind its sigil. -/
def SeemsToEnd (g : Grammar) (doc : Document) (offset : Nat) : Prop :=
  ∃ above line below, doc.text = above ++ line ++ below ∧
    Text.byteSize (above ++ line) = offset ∧ above.IsWhole ∧ line.EndsBehindSigil g ∧
    below ≠ [] ∧ below.head? ≠ some '\n'

/-! ### The part that is searched -/

theorem offset_cases (doc : Document) (offset : Nat) :
    doc.text.InsideChar offset ∨
      (∃ above below, doc.text = above ++ below ∧ above.byteSize = offset) ∨ doc.size < offset := by
  rcases Nat.lt_trichotomy offset doc.size with hlt | rfl | hlt
  · cases hcut : doc.text.cut? offset with
    | none => exact .inl ⟨hlt, hcut⟩
    | some parts =>
        obtain ⟨happend, hsize⟩ := Text.eq_of_cut?_eq_some hcut
        exact .inr (.inl ⟨parts.1, parts.2, happend.symm, hsize⟩)
  · exact .inr (.inl ⟨doc.text, [], (List.append_nil _).symm, rfl⟩)
  · exact .inr (.inr hlt)

section Parts

variable {doc : Document} (p : Pattern) {above below : Text} (htext : doc.text = above ++ below)

include htext

theorem between_size_of_append : doc.text.between above.byteSize doc.size = below := by
  have hall := Text.between_append above below []
  rwa [List.append_nil, ← htext] at hall

theorem searchForward_of_append :
    doc.searchForward p above.byteSize = (p.foundFrom above.byteSize below).head? := by
  have hle : above.byteSize ≤ doc.size := by
    rw [size, htext, Text.byteSize_append]
    exact Nat.le_add_right ..
  simp only [searchForward, Nat.min_eq_left hle, between_size_of_append htext, Pattern.foundFrom,
    List.head?_map]
  rfl

theorem searchBackward_of_append :
    doc.searchBackward p above.byteSize = (p.foundFrom 0 above).getLast? := by
  simp only [searchBackward, htext, Text.between_zero_append, Pattern.foundFrom, List.getLast?_map]
  rfl

end Parts

section Outside

variable {doc : Document} {offset : Nat}

theorem between_of_insideChar (h : doc.text.InsideChar offset) :
    doc.text.between 0 offset = [] ∧ doc.text.between offset doc.size = [] := by
  have hall := Text.cut?_append doc.text []
  rw [List.append_nil] at hall
  have hle : offset ≤ doc.size := Nat.le_of_lt h.1
  constructor
  · simp [Text.between, Text.slice?, Nat.min_eq_left h.1.le, h.2]
  · simp [Text.between, Text.slice?, size, Nat.min_eq_left h.1.le, hall, h.2]

theorem between_of_size_lt (h : doc.size < offset) :
    doc.text.between 0 offset = doc.text ∧ doc.text.between offset doc.size = [] := by
  have hall := Text.cut?_append doc.text []
  rw [List.append_nil] at hall
  have hle : doc.text.byteSize ≤ offset := Nat.le_of_lt h
  constructor
  · simp [Text.between, Text.slice?, Nat.min_eq_right hle, hall, Text.cut?_zero]
  · simp [Text.between, Text.slice?, size, Nat.min_eq_right hle, hall]

end Outside

/-! ### Matches of the whole text -/

section Sigils

variable {g : Grammar} {doc : Document} {found : Found}

theorem exists_line_of_mem_allFound (hg : g.VisibleSigils)
    (h : found ∈ doc.allFound g.sigilLine) :
    ∃ above below, doc.text = above ++ below ∧ above.IsWhole ∧ below.StartsSigilLine g ∧
      found.start = above.byteSize ∧ found.start < doc.size ∧ found.stop ≤ doc.size := by
  obtain ⟨sigils, hpattern, hsigils, hmem⟩ := Pattern.sigilLine_eq hg
  rw [allFound, hpattern, Pattern.mem_foundFrom_iff hsigils] at h
  obtain ⟨above, below, m, htext, hwhole, hm, rfl⟩ := h
  have hstart := (Pattern.start_of_matchHere? hsigils hm).1
  have hsize := congrArg Text.byteSize htext
  have hsplit := congrArg Text.byteSize (List.take_append_drop m.length below)
  have hpos := List.length_pos_iff.mpr (Pattern.ne_nil_of_matchHere? hsigils hm)
  have hlength := below.length_le_byteSize
  rw [Text.byteSize_append] at hsize hsplit
  rw [Found.start_ofMatch_of_start _ _ hstart, Found.stop_ofMatch _ _ hstart, Nat.zero_add, size]
  refine ⟨above, below, htext, hwhole, ?_, rfl, by omega, by omega⟩
  rw [← Pattern.isSome_matchHere?_iff hsigils hmem, hm]
  rfl

section Parts

variable (hg : g.VisibleSigils) {above below : Text} (htext : doc.text = above ++ below)

include hg htext

theorem exists_found_at_iff :
    (∃ found ∈ doc.allFound g.sigilLine, found.start = above.byteSize) ↔
      above.IsWhole ∧ below.StartsSigilLine g := by
  constructor
  · rintro ⟨found, hfound, hstart⟩
    obtain ⟨passed, line, hsplit, hwhole, hline, hpassed, -⟩ :=
      exists_line_of_mem_allFound hg hfound
    obtain ⟨rfl, rfl⟩ := Text.append_inj_of_byteSize (htext.symm.trans hsplit)
      (hstart.symm.trans hpassed)
    exact ⟨hwhole, hline⟩
  · rintro ⟨hwhole, hline⟩
    obtain ⟨sigils, hpattern, hsigils, hmem⟩ := Pattern.sigilLine_eq hg
    obtain ⟨m, hm⟩ := Option.isSome_iff_exists.mp
      ((Pattern.isSome_matchHere?_iff hsigils hmem below).mpr hline)
    refine ⟨_, ?_, Found.start_ofMatch_of_start _ below (Pattern.start_of_matchHere? hsigils hm).1⟩
    rw [allFound, hpattern, Pattern.mem_foundFrom_iff hsigils]
    exact ⟨above, below, m, htext, hwhole, hm, by rw [Nat.zero_add]⟩

omit hg in
theorem seemsToStart_iff :
    doc.SeemsToStart g above.byteSize ↔ ¬above.IsWhole ∧ below.StartsSigilLine g := by
  constructor
  · rintro ⟨above', below', hsplit, hsize, hwhole, hline⟩
    obtain ⟨rfl, rfl⟩ := Text.append_inj_of_byteSize (hsplit.symm.trans htext) hsize
    exact ⟨hwhole, hline⟩
  · rintro ⟨hwhole, hline⟩
    exact ⟨above, below, htext, rfl, hwhole, hline⟩

/-! ### Searching forward -/

theorem lookingAt_of_append :
    doc.lookingAt g.sigilLine above.byteSize = true ↔ below.StartsSigilLine g := by
  obtain ⟨sigils, hpattern, hsigils, hmem⟩ := Pattern.sigilLine_eq hg
  rw [lookingAt, between_size_of_append htext, hpattern,
    ← Pattern.isSome_matchHere?_iff hsigils hmem, Option.any_eq_true]
  constructor
  · rintro ⟨m, hm, hstart⟩
    rw [beq_iff_eq] at hstart
    obtain ⟨passed, line, found, rfl, -, hfound, rfl⟩ :=
      Pattern.exists_of_mem_matchesFrom hsigils (List.mem_of_head? hm)
    obtain rfl : passed = [] := List.eq_nil_of_length_eq_zero (by simpa using hstart)
    rw [List.nil_append, hfound]
    rfl
  · intro h
    obtain ⟨m, hm⟩ := Option.isSome_iff_exists.mp h
    obtain ⟨c, rest, rfl⟩ := List.exists_cons_of_ne_nil (Pattern.ne_nil_of_matchHere? hsigils hm)
    refine ⟨{ m with start := 0 }, ?_, rfl⟩
    rw [Pattern.first?, Pattern.allMatches, Pattern.matchesFrom_cons hsigils, hm]
    rfl

theorem searchForward_of_not_seems (h : ¬doc.SeemsToStart g above.byteSize) :
    doc.searchForward g.sigilLine above.byteSize = doc.firstFrom? g.sigilLine above.byteSize := by
  obtain ⟨sigils, hpattern, hsigils, hmem⟩ := Pattern.sigilLine_eq hg
  rw [seemsToStart_iff htext, not_and', not_not] at h
  rw [searchForward_of_append _ htext, firstFrom?, allFound, hpattern, ← List.head?_filter, htext,
    Pattern.filter_start_foundFrom hsigils]
  rwa [Pattern.isSome_matchHere?_iff hsigils hmem]

theorem searchForward_of_seems (h : doc.SeemsToStart g above.byteSize) :
    ∃ found, doc.searchForward g.sigilLine above.byteSize = some found ∧
      found ∉ doc.allFound g.sigilLine := by
  have hseems := (seemsToStart_iff htext).mp h
  have hlooking := (lookingAt_of_append hg htext).mpr hseems.2
  rw [lookingAt, between_size_of_append htext, Option.any_eq_true] at hlooking
  obtain ⟨m, hm, hstart⟩ := hlooking
  refine ⟨.ofMatch above.byteSize below m, ?_, fun hfound => hseems.1 ?_⟩
  · rw [searchForward_of_append _ htext, Pattern.foundFrom, List.head?_map,
      show (g.sigilLine.allMatches below).head? = some m from hm, Option.map_some]
  · exact ((exists_found_at_iff hg htext).mp ⟨_, hfound,
      Found.start_ofMatch_of_start _ _ (by simpa using hstart)⟩).1

end Parts

/-! ### Searching backward -/

section Parts

variable (hg : g.SolidSigils) {above below : Text} (htext : doc.text = above ++ below)

include hg htext

theorem searchBackward_of_not_seems (h : ¬doc.SeemsToEnd g above.byteSize) :
    doc.searchBackward g.sigilLine above.byteSize =
      doc.lastBefore? g.sigilLine above.byteSize := by
  obtain ⟨sigils, hpattern, hsigils, hsolid, hmem⟩ := Pattern.sigilLine_eq_of_solid hg
  rw [searchBackward_of_append _ htext, lastBefore?, allFound, hpattern, htext,
    Pattern.filter_stop_foundFrom hsigils hsolid hmem]
  rintro passed line rfl hwhole hline
  by_contra hbelow
  exact h ⟨passed, line, below, htext, rfl, hwhole, hline, not_or.mp hbelow⟩

theorem searchBackward_of_seems (h : doc.SeemsToEnd g above.byteSize) :
    ∃ found, doc.searchBackward g.sigilLine above.byteSize = some found ∧
      found ∉ doc.allFound g.sigilLine := by
  obtain ⟨sigils, hpattern, hsigils, hsolid, hmem⟩ := Pattern.sigilLine_eq_of_solid hg
  obtain ⟨passed, line, _, hsplit, hsize, hwhole, hline, hbelow⟩ := h
  obtain ⟨rfl, rfl⟩ := Text.append_inj_of_byteSize (hsplit.symm.trans htext) hsize
  obtain ⟨m, hm⟩ := Option.isSome_iff_exists.mp
    ((Pattern.isSome_matchHere?_iff hsigils hmem line).mpr hline.startsSigilLine)
  refine ⟨.ofMatch passed.byteSize line m, ?_, ?_⟩
  · rw [searchBackward_of_append _ htext, hpattern, Pattern.getLast?_foundFrom hsigils hwhole
      (hline.lineFeed_notMem hg.toVisibleSigils) hm, Nat.zero_add]
  · rw [allFound, hpattern, htext, List.append_assoc]
    exact Pattern.ofMatch_notMem_foundFrom hsigils hsolid hmem hm hline (not_or.mpr hbelow)

end Parts

end Sigils

/-! ### All offsets -/

/-- What the searches from an offset say of the whole text. -/
structure SearchesAt (g : Grammar) (doc : Document) (offset : Nat) : Prop where
  forward_mem : ∀ found, doc.searchForward g.sigilLine offset = some found →
    (found ∈ doc.allFound g.sigilLine ↔ ¬doc.SeemsToStart g offset)
  forward_first : doc.searchForward g.sigilLine offset = doc.firstFrom? g.sigilLine offset ↔
    ¬doc.SeemsToStart g offset ∧
      (doc.text.InsideChar offset → doc.firstFrom? g.sigilLine offset = none)
  backward_mem : ∀ found, doc.searchBackward g.sigilLine offset = some found →
    (found ∈ doc.allFound g.sigilLine ↔ ¬doc.SeemsToEnd g offset)
  backward_last : doc.searchBackward g.sigilLine offset = doc.lastBefore? g.sigilLine offset ↔
    ¬doc.SeemsToEnd g offset ∧
      (doc.text.InsideChar offset → doc.lastBefore? g.sigilLine offset = none)
  lookingAt : doc.lookingAt g.sigilLine offset = true ↔
    (∃ found ∈ doc.allFound g.sigilLine, found.start = offset) ∨ doc.SeemsToStart g offset

section Offsets

variable {g : Grammar} {doc : Document} {offset : Nat}

/-- An answer that is right, unless something seems to be there that is not, is right exactly if
nothing seems so. -/
theorem right_iff_not_seems {answer nearest : Option Found} {all : List Found} {seems : Prop}
    (hnearest : ∀ found, nearest = some found → found ∈ all)
    (hright : ¬seems → answer = nearest)
    (hwrong : seems → ∃ found, answer = some found ∧ found ∉ all) :
    (∀ found, answer = some found → (found ∈ all ↔ ¬seems)) ∧ (answer = nearest ↔ ¬seems) := by
  by_cases hseems : seems
  · obtain ⟨wrong, hanswer, hnot⟩ := hwrong hseems
    refine ⟨fun found hfound => ?_, iff_of_false (fun h => ?_) (not_not.mpr hseems)⟩
    · obtain rfl := Option.some.inj (hanswer.symm.trans hfound)
      exact iff_of_false hnot (not_not.mpr hseems)
    · exact hnot (hnearest wrong (h.symm.trans hanswer))
  · refine ⟨fun found hfound => iff_of_true ?_ hseems, iff_of_true (hright hseems) hseems⟩
    exact hnearest found ((hright hseems).symm.trans hfound)

theorem mem_of_firstFrom? {p : Pattern} (found : Found)
    (h : doc.firstFrom? p offset = some found) : found ∈ doc.allFound p :=
  List.mem_of_find?_eq_some h

theorem mem_of_lastBefore? {p : Pattern} (found : Found)
    (h : doc.lastBefore? p offset = some found) : found ∈ doc.allFound p :=
  List.mem_of_mem_filter (List.mem_of_getLast? h)

theorem not_seems_of_no_cut
    (h : ∀ above below, doc.text = above ++ below → above.byteSize ≠ offset) :
    ¬doc.SeemsToStart g offset ∧ ¬doc.SeemsToEnd g offset := by
  constructor
  · rintro ⟨above, below, htext, hsize, -⟩
    exact h above below htext hsize
  · rintro ⟨above, line, below, htext, hsize, -⟩
    exact h (above ++ line) below htext hsize

theorem searchesAt_of_append (hg : g.SolidSigils) {above below : Text}
    (htext : doc.text = above ++ below) : doc.SearchesAt g above.byteSize := by
  have hinside : ¬doc.text.InsideChar above.byteSize := by
    rw [htext]
    exact Text.not_insideChar above below
  obtain ⟨hforward, hfirst⟩ := right_iff_not_seems mem_of_firstFrom?
    (searchForward_of_not_seems hg.toVisibleSigils htext)
    (searchForward_of_seems hg.toVisibleSigils htext)
  obtain ⟨hbackward, hlast⟩ := right_iff_not_seems mem_of_lastBefore?
    (searchBackward_of_not_seems hg htext) (searchBackward_of_seems hg htext)
  refine ⟨hforward, ?_, hbackward, ?_, ?_⟩
  · rw [hfirst, and_iff_left fun h => absurd h hinside]
  · rw [hlast, and_iff_left fun h => absurd h hinside]
  · rw [lookingAt_of_append hg.toVisibleSigils htext, exists_found_at_iff hg.toVisibleSigils htext,
      seemsToStart_iff htext, ← or_and_right, and_iff_right (em _)]

section Outside

variable (hg : g.VisibleSigils)

include hg

theorem foundFrom_nil (offset : Nat) : g.sigilLine.foundFrom offset [] = [] := by
  obtain ⟨sigils, hpattern, hsigils, -⟩ := Pattern.sigilLine_eq hg
  rw [Pattern.foundFrom, Pattern.allMatches, hpattern, Pattern.matchesFrom_nil hsigils,
    List.map_nil]

theorem searchForward_of_between_eq_nil (h : doc.text.between offset doc.size = []) :
    doc.searchForward g.sigilLine offset = none := by
  have hpart : doc.text.between (min offset doc.size) doc.size = [] := by
    rw [← h]
    simp [Text.between, size]
  have hnone := congrArg List.head? (foundFrom_nil hg (min offset doc.size))
  rw [Pattern.foundFrom, List.head?_map] at hnone
  simp only [searchForward, hpart]
  exact hnone

theorem lookingAt_iff_of_no_cut (h : doc.text.between offset doc.size = [])
    (hcut : ∀ above below, doc.text = above ++ below → above.byteSize ≠ offset) :
    doc.lookingAt g.sigilLine offset = true ↔
      (∃ found ∈ doc.allFound g.sigilLine, found.start = offset) ∨ doc.SeemsToStart g offset := by
  have hnone := List.map_eq_nil_iff.mp (foundFrom_nil hg 0)
  refine iff_of_false (by simp [lookingAt, h, Pattern.first?, hnone]) ?_
  rintro (⟨found, hfound, hstart⟩ | hseems)
  · obtain ⟨above, below, htext, -, -, habove, -⟩ := exists_line_of_mem_allFound hg hfound
    exact hcut above below htext (habove.symm.trans hstart)
  · exact (not_seems_of_no_cut hcut).1 hseems

theorem searchesAt_of_insideChar (h : doc.text.InsideChar offset) : doc.SearchesAt g offset := by
  obtain ⟨hbefore, hbehind⟩ := between_of_insideChar h
  have hcut : ∀ above below, doc.text = above ++ below → above.byteSize ≠ offset := by
    rintro above below htext rfl
    rw [htext] at h
    exact Text.not_insideChar above below h
  have hforward := searchForward_of_between_eq_nil hg hbehind
  have hbackward : doc.searchBackward g.sigilLine offset = none := by
    have hnone := congrArg List.getLast? (foundFrom_nil hg 0)
    rw [Pattern.foundFrom, List.getLast?_map] at hnone
    simp only [searchBackward, hbefore]
    exact hnone
  have hseems := not_seems_of_no_cut (g := g) hcut
  refine ⟨by simp [hforward], ?_, by simp [hbackward], ?_, lookingAt_iff_of_no_cut hg hbehind hcut⟩
  · rw [hforward, and_iff_right hseems.1, eq_comm, forall_prop_of_true h]
  · rw [hbackward, and_iff_right hseems.2, eq_comm, forall_prop_of_true h]

theorem searchesAt_of_size_lt (h : doc.size < offset) : doc.SearchesAt g offset := by
  obtain ⟨hbefore, hbehind⟩ := between_of_size_lt h
  have hcut : ∀ above below, doc.text = above ++ below → above.byteSize ≠ offset := by
    rintro above below htext rfl
    rw [size, htext, Text.byteSize_append] at h
    omega
  have hinside : ¬doc.text.InsideChar offset := fun hin => by
    have := hin.1
    rw [size] at h
    omega
  have hseems := not_seems_of_no_cut (g := g) hcut
  have hfirst : doc.searchForward g.sigilLine offset = doc.firstFrom? g.sigilLine offset := by
    rw [searchForward_of_between_eq_nil hg hbehind, firstFrom?, eq_comm, List.find?_eq_none]
    intro found hfound
    obtain ⟨_, _, _, _, _, _, hstart, _⟩ := exists_line_of_mem_allFound hg hfound
    rw [decide_eq_true_eq]
    omega
  have hlast : doc.searchBackward g.sigilLine offset = doc.lastBefore? g.sigilLine offset := by
    have hall : (doc.allFound g.sigilLine).filter (·.stop ≤ offset) =
        doc.allFound g.sigilLine := by
      refine List.filter_eq_self.mpr fun found hfound => ?_
      obtain ⟨_, _, _, _, _, _, _, hstop⟩ := exists_line_of_mem_allFound hg hfound
      rw [decide_eq_true_eq]
      omega
    rw [searchBackward, hbefore, lastBefore?, hall, allFound, Pattern.foundFrom, List.getLast?_map]
    rfl
  refine ⟨fun found hfound => ?_, ?_, fun found hfound => ?_, ?_,
    lookingAt_iff_of_no_cut hg hbehind hcut⟩
  · exact iff_of_true (mem_of_firstFrom? found (hfirst.symm.trans hfound)) hseems.1
  · exact iff_of_true hfirst ⟨hseems.1, fun hin => absurd hin hinside⟩
  · exact iff_of_true (mem_of_lastBefore? found (hlast.symm.trans hfound)) hseems.2
  · exact iff_of_true hlast ⟨hseems.2, fun hin => absurd hin hinside⟩

end Outside

end Offsets

/-- A match that a search reports is one of the whole text, where it starts a line, unless the
offset is inside a line and the cut makes a sigil line of what stands before or behind it; and
looking at the offset is deceived by the same lines.  Apart from them, and from inside a character,
the searches report the nearest match. -/
theorem offset_searches {g : Grammar} (hg : g.SolidSigils) (doc : Document) (offset : Nat) :
    (∀ found ∈ doc.allFound g.sigilLine, found.start ∈ doc.text.lineStarts ∧
      (doc.text.between found.start doc.size).StartsSigilLine g) ∧
      doc.SearchesAt g offset := by
  constructor
  · intro found hfound
    obtain ⟨above, below, htext, hwhole, hline, hstart, -⟩ :=
      exists_line_of_mem_allFound hg.toVisibleSigils hfound
    rw [hstart, between_size_of_append htext]
    exact ⟨Text.mem_lineStarts_iff.mpr ⟨above, below, htext, hwhole, rfl⟩, hline⟩
  · rcases offset_cases doc offset with hinside | ⟨above, below, htext, rfl⟩ | hlt
    · exact searchesAt_of_insideChar hg.toVisibleSigils hinside
    · exact searchesAt_of_append hg htext
    · exact searchesAt_of_size_lt hg.toVisibleSigils hlt

theorem offset_searches_behind_letter :
    (ofText "a" "a* b".toList .default).SearchesAt .markdown 1 ∧
      ∃ found, (ofText "a" "a* b".toList .default).searchForward
          Grammar.markdown.sigilLine 1 = some found ∧
        found ∉ (ofText "a" "a* b".toList .default).allFound Grammar.markdown.sigilLine := by
  obtain ⟨-, hsearches⟩ := offset_searches Grammar.markdown_solidSigils
    (ofText "a" "a* b".toList .default) 1
  have hseems : (ofText "a" "a* b".toList .default).SeemsToStart .markdown 1 :=
    ⟨['a'], "* b".toList, rfl, rfl, by simp [Text.IsWhole],
      [], ['*'], " b".toList, rfl, rfl, by decide, .inl rfl⟩
  obtain ⟨found, hfound⟩ : ∃ found, (ofText "a" "a* b".toList .default).searchForward
      Grammar.markdown.sigilLine 1 = some found := ⟨⟨1, 3, [(1, 3), (1, 1)]⟩, by decide +kernel⟩
  exact ⟨hsearches, found, hfound, fun hmem =>
    (hsearches.forward_mem found hfound).mp hmem hseems⟩

/-- No line of this text is a sigil line, and yet one is found on either side of a cut. -/
theorem offset_searches_deceived_by_cut :
    (ofText "a" "*b* c".toList .default).allFound Grammar.markdown.sigilLine = [] ∧
      (ofText "a" "*b* c".toList .default).searchForward Grammar.markdown.sigilLine 2 =
        some ⟨2, 4, [(2, 4), (2, 2)]⟩ ∧
      (ofText "a" "*b* c".toList .default).lookingAt Grammar.markdown.sigilLine 2 = true ∧
      (ofText "a" "*b* c".toList .default).searchBackward Grammar.markdown.sigilLine 1 =
        some ⟨0, 1, [(0, 1), (0, 0)]⟩ := by
  decide +kernel

end Document

end MarkupLayout

import Mathlib.Order.Bounds.Basic
import MarkupLayout.Proofs.ColumnFromAbove
import MarkupLayout.Proofs.RegionRun
/-!
# The nearest sigil line

The search for an anchor goes back from one match of the sigil pattern to the one before, in texts
that are cut off ever earlier.  Sigils that are visible and stay on their line make every round end
before the last, so the search ends; and as a cut at a line start changes no match above it, no
sigil line outside literals is passed over.
-/

namespace MarkupLayout

def Text.StartsSigilLine (g : Grammar) (t : Text) : Prop :=
  ∃ indent sigil behind, t = indent ++ (sigil ++ behind) ∧ indent.all isIndentChar = true ∧
    sigil ∈ g.blockSigils ∧ (behind.head?.any isIndentChar = true ∨ behind.firstLine = [])

namespace Document

/-- A line with a sigil starts at the offset, outside literals. -/
def SigilLineAt (g : Grammar) (doc : Document) (start : Nat) : Prop :=
  start ∈ doc.text.lineStarts ∧ (doc.text.between start doc.size).StartsSigilLine g ∧
    Literal.isOpenAfter g (doc.text.between 0 start) = false

/-- The rounds of the search for an anchor, from an offset back: it ends where nothing matches or
at a match outside literals, and starts again before a match that is inside one. -/
inductive SearchesAnchor (g : Grammar) (doc : Document) : (limit : Nat) → Option Found → Prop
  | missed {limit : Nat} (h : doc.searchBackward g.sigilLine limit = none) :
      SearchesAnchor g doc limit none
  | stopped {limit : Nat} {found : Found}
      (h : doc.searchBackward g.sigilLine limit = some found)
      (hclosed : Literal.isOpenAfter g (doc.text.between 0 found.start) = false) :
      SearchesAnchor g doc limit (some found)
  | again {limit : Nat} {found : Found} {result : Option Found}
      (h : doc.searchBackward g.sigilLine limit = some found)
      (hopen : Literal.isOpenAfter g (doc.text.between 0 found.start) = true)
      (hmore : SearchesAnchor g doc found.start result) : SearchesAnchor g doc limit result

end Document

/-! ## A match at the start of a line -/

theorem Text.firstLine_cons_eq_nil_iff {c : Char} {rest : Text} (hc : c ≠ '\n') :
    firstLine (c :: rest) = [] ↔ c = '\r' ∧ rest.takeWhile (· != '\n') = [] := by
  rw [firstLine, List.takeWhile_cons_of_pos (by simpa using hc)]
  cases hrest : rest.takeWhile (· != '\n') with
  | nil => simp [stripReturn]
  | cons d more => simp [stripReturn_cons]

namespace Pattern

variable {g : Grammar} {sigils : List Text}

theorem isSome_sigilTail?_iff (behind : Text) :
    (sigilTail? behind).isSome = true ↔
      behind.head?.any Text.isIndentChar = true ∨ behind.firstLine = [] := by
  unfold sigilTail?
  split
  next => simp [Text.firstLine, Text.stripReturn]
  next => simp [Text.isIndentChar]
  next => simp [Text.isIndentChar]
  next => simp [Text.firstLine, Text.stripReturn]
  next => simp [Text.firstLine, Text.stripReturn]
  next => simp [Text.firstLine, Text.stripReturn]
  next t hnil hspace htab hfeed hreturn hreturnFeed =>
      -- A visible character follows, and no end of a line does.
      obtain ⟨c, rest, rfl⟩ := List.exists_cons_of_ne_nil hnil
      have hc : c ≠ '\n' := fun heq => hfeed rest (by rw [heq])
      have hindent : Text.isIndentChar c = false := by
        have hc : c ≠ ' ' ∧ c ≠ '\t' :=
          ⟨fun heq => hspace rest (by rw [heq]), fun heq => htab rest (by rw [heq])⟩
        simpa [Text.isIndentChar] using hc
      simp only [Option.isSome_none, Bool.false_eq_true, List.head?_cons, Option.any_some, hindent,
        Text.firstLine_cons_eq_nil_iff hc, false_or, false_iff, not_and]
      rintro rfl
      cases rest with
      | nil => exact absurd rfl hreturn
      | cons d rest =>
          have hd : d ≠ '\n' := fun heq => hreturnFeed rest (by rw [heq])
          simp [hd]

theorem isSome_matchHere?_iff (hsigils : Visible sigils)
    (hmem : ∀ sigil, sigil ∈ sigils ↔ sigil ∈ g.blockSigils) (t : Text) :
    ((sigilLine sigils).matchHere? true t).isSome = true ↔ t.StartsSigilLine g := by
  constructor
  · intro h
    obtain ⟨found, hfound⟩ := Option.isSome_iff_exists.mp h
    obtain ⟨indent, sigil, behind, tail, rfl, hindent, hsigil, htail, -⟩ :=
      lineMatch_of_matchHere? hsigils hfound
    refine ⟨indent, sigil, behind, rfl, hindent, (hmem sigil).mp hsigil, ?_⟩
    rw [← isSome_sigilTail?_iff, htail]
    rfl
  · rintro ⟨indent, sigil, behind, rfl, hindent, hsigil, htail⟩
    exact Option.isSome_iff_exists.mpr (exists_matchHere? hsigils hindent ((hmem sigil).mpr hsigil)
      ((isSome_sigilTail?_iff behind).mpr htail))

end Pattern

theorem Text.startsSigilLine_append {g : Grammar} (hg : g.VisibleSigils) {t : Text}
    (ht : t.getLast? = some '\n') (below : Text) :
    StartsSigilLine g (t ++ below) ↔ t.StartsSigilLine g := by
  obtain ⟨sigils, -, hsigils, hmem⟩ := Pattern.sigilLine_eq hg
  rw [← Pattern.isSome_matchHere?_iff hsigils hmem, Pattern.matchHere?_append hsigils ht,
    Pattern.isSome_matchHere?_iff hsigils hmem]

/-! ## The rounds of the search -/

theorem Text.byteSize_between_le (t : Text) (limit : Nat) :
    (t.between 0 limit).byteSize ≤ limit := by
  rw [between, slice?]
  cases hcut : t.cut? (min limit t.byteSize) with
  | none => simp
  | some parts =>
      obtain ⟨-, hsize⟩ := eq_of_cut?_eq_some hcut
      simp [cut?_zero, hsize]

namespace Document

variable {g : Grammar} {doc : Document}

theorem start_lt_of_searchBackward (hg : g.VisibleSigils) {limit : Nat} {found : Found}
    (h : doc.searchBackward g.sigilLine limit = some found) : found.start < limit := by
  obtain ⟨sigils, hpattern, hsigils, -⟩ := Pattern.sigilLine_eq hg
  rw [hpattern] at h
  obtain ⟨m, hm, rfl⟩ := Option.map_eq_some_iff.mp h
  obtain ⟨passed, behind, here, hsplit, -, hhere, rfl⟩ := Pattern.last?_eq_some hsigils hm
  have hbehind := List.length_pos_iff.mpr (Pattern.ne_nil_of_matchHere? hsigils hhere)
  have hsize := doc.text.byteSize_between_le limit
  have hlength := behind.length_le_byteSize
  rw [hsplit, Text.byteSize_append] at hsize
  rw [Found.start_ofMatch, hsplit, List.take_left]
  omega

theorem searchAnchor?_of_searchBackward (hg : g.VisibleSigils) {limit : Nat} {found : Found}
    (h : doc.searchBackward g.sigilLine limit = some found) :
    doc.searchAnchor? g limit =
      if Literal.isOpenAfter g (doc.text.between 0 found.start) then
        doc.searchAnchor? g found.start
      else some found := by
  rw [searchAnchor?, h]
  simp only [if_pos (start_lt_of_searchBackward hg h)]

theorem searchesAnchor_iff (hg : g.VisibleSigils) {limit : Nat} {result : Option Found} :
    doc.SearchesAnchor g limit result ↔ result = doc.searchAnchor? g limit := by
  constructor
  · intro h
    induction h with
    | missed h =>
        rw [searchAnchor?, h]
    | stopped h hclosed =>
        rw [searchAnchor?_of_searchBackward hg h, hclosed, if_neg (by simp)]
    | again h hopen hmore ih =>
        rw [searchAnchor?_of_searchBackward hg h, hopen, if_pos rfl, ih]
  · rintro rfl
    induction limit using Nat.strongRecOn with
    | ind limit ih =>
        cases h : doc.searchBackward g.sigilLine limit with
        | none =>
            rw [searchAnchor?, h]
            exact .missed h
        | some found =>
            rw [searchAnchor?_of_searchBackward hg h]
            cases hopen : Literal.isOpenAfter g (doc.text.between 0 found.start) with
            | false =>
                rw [if_neg (by simp)]
                exact .stopped h hopen
            | true =>
                rw [if_pos rfl]
                exact .again h hopen (ih found.start (start_lt_of_searchBackward hg h))

/-! ## The sigil line that is found -/

theorem leadingOf_of_cutAtLine? {line : Nat} {above below : Text}
    (h : doc.text.cutAtLine? line = some (above, below)) :
    doc.leadingOf line = below.leading := by
  obtain ⟨ls, content, more, hlines, rfl, -, rfl⟩ := Text.exists_lines_of_cutAtLine? h
  obtain ⟨rest, hrest, hmore⟩ := Text.exists_below more
  rw [leadingOf_of_lines hlines, hmore, Text.leading_append_below content hrest]

theorem sigilLineAt_byteSize_iff {above below : Text} (htext : doc.text = above ++ below)
    (hwhole : above.IsWhole) :
    doc.SigilLineAt g above.byteSize ↔
      below.StartsSigilLine g ∧ Literal.isOpenAfter g above = false := by
  have hstart : above.byteSize ∈ doc.text.lineStarts :=
    Text.mem_lineStarts_iff.mpr ⟨above, below, htext, hwhole, rfl⟩
  have hbelow : doc.text.between above.byteSize doc.size = below := by
    have hall := Text.between_append above below []
    rwa [List.append_nil, ← htext] at hall
  have habove : doc.text.between 0 above.byteSize = above := by
    rw [htext, Text.between_zero_append]
  rw [SigilLineAt, hbelow, habove, and_iff_right hstart]

section Above

variable {above below : Text} (htext : doc.text = above ++ below) (hwhole : above.IsWhole)

include htext hwhole

theorem sigilLineAt_of_anchor? (hg : g.VisibleSigils) {a : Indentation.Anchor}
    (h : Indentation.anchor? g above = some a) :
    a.above.byteSize < above.byteSize ∧ doc.SigilLineAt g a.above.byteSize ∧
      doc.text.lineStart? a.line = some a.above.byteSize ∧ a.indent = doc.leadingOf a.line := by
  obtain ⟨sigils, hpattern, hsigils, hmem⟩ := Pattern.sigilLine_eq hg
  obtain ⟨behind, found, rfl, hne, hstarts, hclosed, hindent, hfound⟩ :=
    Indentation.exists_match_of_anchor? hg h
  rw [List.append_assoc] at htext
  have hfeed := hwhole.of_append.getLast? hne
  have hcut : doc.text.cutAtLine? a.line = some (a.above, behind ++ below) := by
    rw [htext]
    exact Text.cutAtLine?_append hstarts _
  refine ⟨?_, ?_, Text.lineStart?_of_cutAtLine? hcut, ?_⟩
  · have hlength := behind.length_le_byteSize
    have hpos := List.length_pos_iff.mpr hne
    rw [Text.byteSize_append]
    omega
  · rw [sigilLineAt_byteSize_iff htext hstarts, Text.startsSigilLine_append hg hfeed]
    refine ⟨?_, hclosed⟩
    rw [← Pattern.isSome_matchHere?_iff hsigils hmem, ← hpattern, hfound]
    rfl
  · rw [leadingOf_of_cutAtLine? hcut, hindent]
    exact (Text.takeWhile_append_of_getLast? hfeed (by rfl) below).symm

theorem exists_anchor?_of_sigilLineAt (hg : g.VisibleSigils) {start : Nat}
    (hstart : start < above.byteSize) (h : doc.SigilLineAt g start) :
    ∃ a, Indentation.anchor? g above = some a ∧ start ≤ a.above.byteSize := by
  obtain ⟨sigils, hpattern, hsigils, hmem⟩ := Pattern.sigilLine_eq hg
  obtain ⟨passed, rest, hsplit, hpassed, rfl⟩ := Text.mem_lineStarts_iff.mp h.1
  obtain ⟨between, rfl, rfl⟩ :=
    Text.exists_eq_append_of_byteSize_le (hsplit.symm.trans htext) hstart.le
  have hfeed : between.getLast? = some '\n' := by
    apply hwhole.of_append.getLast?
    rintro rfl
    simp at hstart
  rw [sigilLineAt_byteSize_iff hsplit hpassed, Text.startsSigilLine_append hg hfeed,
    ← Pattern.isSome_matchHere?_iff hsigils hmem] at h
  obtain ⟨found, hfound⟩ := Option.isSome_iff_exists.mp h.1
  obtain ⟨a, ha, hle⟩ := Indentation.exists_anchor? hpattern hsigils hpassed hfound h.2
  obtain ⟨more, hmore⟩ := List.prefix_of_prefix_length_le (List.prefix_append passed between)
    (Indentation.anchor?_prefix ha) hle
  refine ⟨a, ha, ?_⟩
  rw [← hmore, Text.byteSize_append]
  exact Nat.le_add_right _ _

end Above

/-- Where sigils are visible and stay on their line, the search for an anchor from the start of a
line ends, every round before the last, with the nearest sigil line above that starts outside
literals, its number and the width of its indentation.  Where there is none, the top of the text
with width zero takes its place. -/
theorem searchAnchor?_nearest (hg : g.VisibleSigils) (doc : Document) {p : Nat}
    (hp : p ∈ doc.text.lineStarts) :
    (∀ limit found, doc.searchBackward g.sigilLine limit = some found → found.start < limit) ∧
    (∀ limit result, doc.SearchesAnchor g limit result ↔ result = doc.searchAnchor? g limit) ∧
    let s := Indentation.survey g (doc.text.between 0 p)
    (doc.searchAnchor? g p).map Found.start = s.anchor.map (·.above.byteSize) ∧
      match s.anchor with
      | some a =>
        IsGreatest {start | start < p ∧ doc.SigilLineAt g start} a.above.byteSize ∧
          doc.text.lineStart? a.line = some a.above.byteSize ∧
          ∀ style, s.base style = Text.width style.tabWidth (doc.leadingOf a.line)
      | none =>
        (∀ start < p, ¬ doc.SigilLineAt g start) ∧
          s.tokens = tokenize g (doc.text.between 0 p) 1 ∧ ∀ style, s.base style = 0 := by
  refine ⟨fun _ _ => start_lt_of_searchBackward hg, fun _ _ => searchesAnchor_iff hg, ?_⟩
  obtain ⟨above, below, htext, hwhole, rfl⟩ := Text.mem_lineStarts_iff.mp hp
  have habove : doc.text.between 0 above.byteSize = above := by
    rw [htext, Text.between_zero_append]
  intro s
  have hanchor : s.anchor = Indentation.anchor? g above := by
    rw [← habove]
    exact Indentation.survey_anchor g _
  rw [hanchor]
  constructor
  · rcases searchAnchor?_cases g htext with ⟨hmissed, hnone⟩ | ⟨found, a, hfound, ha, hstart, -⟩
    · rw [hmissed, hnone]
      rfl
    · rw [hfound, ha, Option.map_some, hstart]
      rfl
  · cases ha : Indentation.anchor? g above with
    | none =>
        refine ⟨fun start hlt h => ?_, ?_, fun style => ?_⟩
        · obtain ⟨a, ha', -⟩ := exists_anchor?_of_sigilLineAt htext hwhole hg hlt h
          simp [ha] at ha'
        · rw [Indentation.survey_tokens, habove, Indentation.span_of_anchor?_eq_none ha, ha]
          rfl
        · rw [Indentation.Survey.base, hanchor, ha]
          rfl
    | some a =>
        obtain ⟨hlt, hline, hnumber, hindent⟩ := sigilLineAt_of_anchor? htext hwhole hg ha
        refine ⟨⟨⟨hlt, hline⟩, ?_⟩, hnumber, fun style => ?_⟩
        · rintro start ⟨hstart, h⟩
          obtain ⟨a', ha', hle⟩ := exists_anchor?_of_sigilLineAt htext hwhole hg hstart h
          obtain rfl := Option.some.inj (ha.symm.trans ha')
          exact hle
        · rw [Indentation.Survey.base, hanchor, ha, ← hindent]
          rfl

theorem searchAnchor?_nearest_above_fence :
    IsGreatest {start | start < 12 ∧
      (ofText "a" "* a\n```\n* b\nc".toList .default).SigilLineAt .markdown start} 0 := by
  obtain ⟨-, -, -, hanchor⟩ := searchAnchor?_nearest Grammar.markdown_visibleSigils
    (ofText "a" "* a\n```\n* b\nc".toList .default) (p := 12) (by decide)
  have ha : (Indentation.survey .markdown
      ((ofText "a" "* a\n```\n* b\nc".toList .default).text.between 0 12)).anchor =
        some ⟨[], []⟩ := by
    decide +kernel
  rw [ha] at hanchor
  exact hanchor.1

end Document

end MarkupLayout

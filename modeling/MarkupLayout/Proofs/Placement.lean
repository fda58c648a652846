import Mathlib.Data.List.GetD
import MarkupLayout.Proofs.ColumnFromAbove
import MarkupLayout.Proofs.StableLayout
import MarkupLayout.Proofs.WalkBack
/-!
# Placement

The column of a line is worked out in two stages.  The first says where the line goes: so many
levels away from the indentation of some line above, or beside the content of a parenthesis above.
This placement is read off the lines above without their indentation.  The second stage measures
the indentation of the one line above that the placement names.
-/

namespace MarkupLayout

/-! ## Lines without their indentation -/

namespace Text

theorem length_flush (ls : List Text) : (flush ls).length = ls.length :=
  List.length_map _

theorem take_flush (ls : List Text) (n : Nat) : (flush ls).take n = flush (ls.take n) :=
  List.map_take.symm

theorem drop_flush (ls : List Text) (n : Nat) : (flush ls).drop n = flush (ls.drop n) :=
  List.map_drop.symm

theorem lineFeed_notMem_flush {ls : List Text} (h : ∀ line ∈ ls, '\n' ∉ line) :
    ∀ line ∈ flush ls, '\n' ∉ line := by
  intro line hmem
  obtain ⟨full, hfull, rfl⟩ := List.mem_map.mp hmem
  exact fun hbreak => h full hfull ((List.dropWhile_suffix _).subset hbreak)

theorem isBlank_flush (line : Text) :
    (stripReturn (line.dropWhile isIndentChar)).isBlank = line.stripReturn.isBlank := by
  rw [← stripReturn_dropWhile, isBlank_dropWhile]

theorem endsVisiblyWith_dropWhile (c : Char) (t : Text) :
    endsVisiblyWith c (t.dropWhile isIndentChar) = endsVisiblyWith c t := by
  have hblank : ∀ d ∈ t.leading.reverse, Unicode.isBlank d = true := by
    intro d hd
    exact isBlank_of_isIndentChar (List.mem_takeWhile_imp (List.mem_reverse.mp hd))
  have hleading : t.leading.reverse.dropWhile Unicode.isBlank = [] :=
    List.dropWhile_eq_nil_iff.mpr hblank
  nth_rewrite 2 [← leading_append t]
  rw [endsVisiblyWith, endsVisiblyWith, List.reverse_append, List.dropWhile_append, hleading]
  split
  · rename_i hnil
    rw [List.isEmpty_iff.mp hnil]
  · rename_i hvisible
    rw [List.isEmpty_iff] at hvisible
    rw [List.head?_append_of_ne_nil _ hvisible]

theorem endsVisiblyWith_flush (c : Char) (line : Text) :
    endsVisiblyWith c (stripReturn (line.dropWhile isIndentChar)) =
      endsVisiblyWith c line.stripReturn := by
  rw [← stripReturn_dropWhile, endsVisiblyWith_dropWhile]

end Text

/-! ## Anchors -/

namespace Indentation

variable {g : Grammar}

theorem anchor?_nil (hv : g.VisibleSigils) : anchor? g [] = none := by
  rw [← Option.not_isSome_iff_eq_none]
  intro hsome
  obtain ⟨a, ha⟩ := Option.isSome_iff_exists.mp hsome
  obtain ⟨behind, hnil, hbehind, -⟩ := anchor?_eq_some hv ha
  exact hbehind (List.append_eq_nil_iff.mp hnil.symm).2

theorem matchHere?_concat (hv : g.VisibleSigils) (line : Text) :
    (g.sigilLine.matchHere? true (line ++ ['\n']) = none ∧
      g.sigilLine.matchHere? true (line.dropWhile Text.isIndentChar ++ ['\n']) = none) ∨
    ∃ found found', g.sigilLine.matchHere? true (line ++ ['\n']) = some found ∧
      found.indent = some line.leading.length ∧
      g.sigilLine.matchHere? true (line.dropWhile Text.isIndentChar ++ ['\n']) = some found' ∧
      found'.indent = some 0 := by
  obtain ⟨sigils, hpattern, hsigils, -⟩ := Pattern.sigilLine_eq hv
  have hfeed : Text.StartsVisibly ['\n'] := by
    intro c hc
    obtain rfl : '\n' = c := by simpa using hc
    rfl
  have hbody := Text.startsVisibly_dropWhile_append line hfeed
  rw [hpattern, Pattern.matchHere?_sigilLine hsigils, Pattern.matchHere?_sigilLine hsigils,
    Text.dropWhile_append_below line hfeed, Text.leading_append_below line hfeed]
  have hdrop := Text.dropWhile_isIndentChar_append (w := []) rfl hbody
  have hleading := Text.takeWhile_isIndentChar_append (w := []) rfl hbody
  rw [List.nil_append] at hdrop hleading
  change Text.leading (line.dropWhile Text.isIndentChar ++ ['\n']) = [] at hleading
  rw [hdrop, hleading]
  cases Pattern.sigilLength? sigils (line.dropWhile Text.isIndentChar ++ ['\n']) with
  | none => exact .inl ⟨rfl, rfl⟩
  | some length => exact .inr ⟨_, _, rfl, rfl, rfl, rfl⟩

theorem isOpenAfter_flush (hg : g.VisibleEmbedding) (ls : List Text) :
    Literal.isOpenAfter g (Text.wholeLines (Text.flush ls)) =
      Literal.isOpenAfter g (Text.wholeLines ls) :=
  Literal.isOpenAfter_congr_landmarks (landmarks_flush hg ls 1).symm

theorem anchor?_flush_cases (hv : g.VisibleSigils) (hg : g.VisibleEmbedding) {ls : List Text}
    (hls : ∀ line ∈ ls, '\n' ∉ line) :
    (anchor? g (Text.wholeLines ls) = none ∧
      anchor? g (Text.wholeLines (Text.flush ls)) = none) ∨
    ∃ i, i < ls.length ∧
      anchor? g (Text.wholeLines ls) =
        some ⟨Text.wholeLines (ls.take i), (ls.getD i []).leading⟩ ∧
      anchor? g (Text.wholeLines (Text.flush ls)) =
        some ⟨Text.wholeLines (Text.flush (ls.take i)), []⟩ := by
  induction ls using List.reverseRecOn with
  | nil => exact .inl ⟨anchor?_nil hv, anchor?_nil hv⟩
  | append_singleton ls line ih =>
      have hmore := ih fun other hmem => hls other (by simp [hmem])
      have hline : '\n' ∉ line := hls line (by simp)
      have hbody : '\n' ∉ line.dropWhile Text.isIndentChar := fun hmem =>
        hline ((List.dropWhile_suffix _).subset hmem)
      have hwhole := Text.isWhole_wholeLines ls
      have hwhole' := Text.isWhole_wholeLines (Text.flush ls)
      have hconcat : Text.wholeLines (ls ++ [line]) = Text.wholeLines ls ++ (line ++ ['\n']) := by
        simp [Text.wholeLines_append]
      have hconcat' : Text.wholeLines (Text.flush (ls ++ [line])) =
          Text.wholeLines (Text.flush ls) ++ (line.dropWhile Text.isIndentChar ++ ['\n']) := by
        simp [Text.flush, Text.wholeLines_append]
      have hopen := isOpenAfter_flush hg ls
      rw [hconcat, hconcat']
      -- The line becomes the anchor, or the anchor above stays the anchor.
      have hcases : (∃ found found', Literal.isOpenAfter g (Text.wholeLines ls) = false ∧
            g.sigilLine.matchHere? true (line ++ ['\n']) = some found ∧
            found.indent = some line.leading.length ∧
            g.sigilLine.matchHere? true (line.dropWhile Text.isIndentChar ++ ['\n']) =
              some found' ∧ found'.indent = some 0) ∨
          (anchor? g (Text.wholeLines ls ++ (line ++ ['\n'])) = anchor? g (Text.wholeLines ls) ∧
            anchor? g (Text.wholeLines (Text.flush ls) ++
              (line.dropWhile Text.isIndentChar ++ ['\n'])) =
                anchor? g (Text.wholeLines (Text.flush ls))) := by
        rcases matchHere?_concat hv line with ⟨hnone, hnone'⟩ |
          ⟨found, found', hfound, hindent, hfound', hindent'⟩
        · exact .inr ⟨anchor?_concat_of_no_match hv hwhole hline hnone,
            anchor?_concat_of_no_match hv hwhole' hbody hnone'⟩
        · cases hliteral : Literal.isOpenAfter g (Text.wholeLines ls) with
          | true =>
              exact .inr ⟨anchor?_concat_of_open hv hwhole hliteral hline hfound,
                anchor?_concat_of_open hv hwhole' (hopen.trans hliteral) hbody hfound'⟩
          | false => exact .inl ⟨found, found', rfl, hfound, hindent, hfound', hindent'⟩
      rcases hcases with ⟨found, found', hclosed, hfound, hindent, hfound', hindent'⟩ |
        ⟨hkept, hkept'⟩
      · refine .inr ⟨ls.length, by simp, ?_, ?_⟩
        · have hsplit : line ++ ['\n'] =
              line.leading ++ (line.dropWhile Text.isIndentChar ++ ['\n']) := by
            rw [← List.append_assoc, Text.leading_append]
          have htake : (line ++ ['\n']).take line.leading.length = line.leading := by
            rw [hsplit, List.take_left]
          rw [anchor?_concat_of_match hv hwhole hclosed hline hfound, hindent, Option.getD_some,
            htake, List.take_left]
          simp
        · rw [anchor?_concat_of_match hv hwhole' (hopen.trans hclosed) hbody hfound', hindent']
          simp
      · rw [hkept, hkept']
        rcases hmore with hnone | ⟨i, hi, ha, ha'⟩
        · exact .inl hnone
        · refine .inr ⟨i, hi.trans_le (List.sublist_append_left _ _).length_le, ?_, ?_⟩
          · rw [ha, List.take_append_of_le_length hi.le, List.getD_append _ _ _ _ hi]
          · rw [ha', List.take_append_of_le_length hi.le]

theorem lastLine_take {ls : List Text} (hls : ∀ line ∈ ls, '\n' ∉ line) {i : Nat}
    (hi : i ≤ ls.length) : (Text.wholeLines (ls.take i)).lastLine = i + 1 := by
  rw [Text.lastLine, Text.count_wholeLines fun line hmem => hls line (List.mem_of_mem_take hmem),
    List.length_take_of_le hi, Nat.add_comm]

theorem survey_of_anchor {ls : List Text} (hls : ∀ line ∈ ls, '\n' ∉ line) {i : Nat}
    (hi : i ≤ ls.length) {indent : Text}
    (h : anchor? g (Text.wholeLines ls) = some ⟨Text.wholeLines (ls.take i), indent⟩) :
    survey g (Text.wholeLines ls) =
      ⟨some ⟨Text.wholeLines (ls.take i), indent⟩,
        tokenize g (Text.wholeLines (ls.drop i)) (i + 1)⟩ := by
  have hsplit : Text.wholeLines ls =
      Text.wholeLines (ls.take i) ++ Text.wholeLines (ls.drop i) := by
    rw [← Text.wholeLines_append, List.take_append_drop]
  rw [survey, h]
  simp only [Anchor.line, lastLine_take hls hi]
  rw [hsplit, List.drop_left]

theorem survey_flush_cases (hv : g.VisibleSigils) (hg : g.VisibleEmbedding) {ls : List Text}
    (hls : ∀ line ∈ ls, '\n' ∉ line) :
    (survey g (Text.wholeLines ls) = ⟨none, tokenize g (Text.wholeLines ls) 1⟩ ∧
      survey g (Text.wholeLines (Text.flush ls)) =
        ⟨none, tokenize g (Text.wholeLines (Text.flush ls)) 1⟩) ∨
    ∃ i, i < ls.length ∧
      survey g (Text.wholeLines ls) =
        ⟨some ⟨Text.wholeLines (ls.take i), (ls.getD i []).leading⟩,
          tokenize g (Text.wholeLines (ls.drop i)) (i + 1)⟩ ∧
      survey g (Text.wholeLines (Text.flush ls)) =
        ⟨some ⟨Text.wholeLines (Text.flush (ls.take i)), []⟩,
          tokenize g (Text.wholeLines (Text.flush (ls.drop i))) (i + 1)⟩ := by
  rcases anchor?_flush_cases hv hg hls with ⟨ha, ha'⟩ | ⟨i, hi, ha, ha'⟩
  · left
    rw [survey, ha, survey, ha']
    exact ⟨rfl, rfl⟩
  · have hi' : i ≤ (Text.flush ls).length := Text.length_flush ls ▸ hi.le
    rw [← Text.take_flush] at ha'
    have hflush := survey_of_anchor (Text.lineFeed_notMem_flush hls) hi' ha'
    rw [Text.take_flush, Text.drop_flush] at hflush
    exact .inr ⟨i, hi, survey_of_anchor hls hi.le ha, hflush⟩

end Indentation

/-! ## The line a list starts at -/

namespace Indentation

/-- Number of lines from a line back to the one at which a list that leads up to it by commas
starts.  The lines above it come nearest first. -/
def stepsBack : (earlier : List Text) → Nat
  | [] => 0
  | previous :: earlier =>
    if previous.isBlank then
      match stepsBack earlier with
      | 0 => 0
      | steps + 1 => steps + 2
    else if previous.endsVisiblyWith ',' then stepsBack earlier + 1
    else 0

theorem stepsBack_le (earlier : List Text) : stepsBack earlier ≤ earlier.length := by
  induction earlier with
  | nil => exact Nat.le_refl _
  | cons previous earlier ih =>
      rw [stepsBack, List.length_cons]
      split
      · split <;> omega
      · split <;> omega

theorem listBase_eq (style : IndentStyle) (line : Text) (earlier : List Text) :
    listBase style line earlier =
      style.indentOf ((line :: earlier).getD (stepsBack earlier) []) := by
  induction earlier generalizing line with
  | nil => rfl
  | cons previous earlier ih =>
      rw [listBase, stepsBack]
      split
      · rw [ih]
        split
        · rename_i hsteps
          rw [hsteps]
          rfl
        · rename_i steps hsteps
          rw [hsteps]
          rfl
      · split
        · rw [ih]
          rfl
        · rfl

theorem stepsBack_flush (ls : List Text) :
    stepsBack ((Text.flush ls).map Text.stripReturn) = stepsBack (ls.map Text.stripReturn) := by
  induction ls with
  | nil => rfl
  | cons line ls ih =>
      rw [Text.flush, List.map_cons, List.map_cons, List.map_cons, stepsBack, stepsBack,
        Text.isBlank_flush, Text.endsVisiblyWith_flush]
      rw [Text.flush] at ih
      rw [ih]

def openerLine (ls : List Text) (number : Nat) : Nat :=
  number - 1 - stepsBack ((ls.take (number - 1)).map Text.stripReturn).reverse

theorem openerLine_flush (ls : List Text) (number : Nat) :
    openerLine (Text.flush ls) number = openerLine ls number := by
  have hreverse (ls : List Text) : (Text.flush ls).reverse = Text.flush ls.reverse :=
    List.map_reverse.symm
  rw [openerLine, Text.take_flush, ← List.map_reverse, hreverse, stepsBack_flush,
    List.map_reverse, openerLine]

theorem indentOf_reverse_getD (style : IndentStyle) {above : List Text} (line : Text)
    (more : List Text) {steps : Nat} (h : steps ≤ above.length) :
    style.indentOf ((line.stripReturn :: (above.map Text.stripReturn).reverse).getD steps []) =
      style.indentOf ((above ++ line :: more).getD (above.length - steps) []) := by
  have hreverse : line.stripReturn :: (above.map Text.stripReturn).reverse =
      ((above ++ [line]).map Text.stripReturn).reverse := by simp
  have hlength : ((above ++ [line]).map Text.stripReturn).length = above.length + 1 := by simp
  have hindex : above.length - steps < (above ++ [line]).length := by
    rw [List.length_append, List.length_singleton]
    omega
  have hfound := List.getElem?_eq_getElem hindex
  generalize (above ++ [line])[above.length - steps] = found at hfound
  have hleft : (line.stripReturn :: (above.map Text.stripReturn).reverse)[steps]? =
      some found.stripReturn := by
    rw [hreverse, List.getElem?_reverse (by omega), hlength, Nat.add_sub_cancel,
      List.getElem?_map, hfound]
    rfl
  have hright : (above ++ line :: more)[above.length - steps]? = some found := by
    rw [List.append_cons, List.getElem?_append_left hindex, hfound]
  rw [List.getD_eq_getElem?_getD, hleft, List.getD_eq_getElem?_getD, hright]
  exact congrArg (Text.width style.tabWidth) (Text.leading_stripReturn found)

theorem openerBase_eq (style : IndentStyle) {ls : List Text} (hls : ∀ line ∈ ls, '\n' ∉ line)
    {number : Nat} (hpos : 0 < number) (hnumber : number ≤ ls.length) :
    openerBase style (Text.wholeLines ls) number =
      style.indentOf (ls.getD (openerLine ls number) []) := by
  have hlines := Text.lines_wholeLines_append hls []
  rw [List.append_nil] at hlines
  obtain ⟨above, line, more, rfl, rfl⟩ : ∃ above line more, ls = above ++ line :: more ∧
      number = above.length + 1 := by
    have hindex : number - 1 < ls.length := by omega
    refine ⟨ls.take (number - 1), ls[number - 1], ls.drop (number - 1 + 1), ?_, ?_⟩
    · rw [← List.drop_eq_getElem_cons, List.take_append_drop]
    · rw [List.length_take_of_le hindex.le]
      omega
  have htake : (above ++ line :: more).take (above.length + 1) = above ++ [line] := by
    have hlength : above.length + 1 = (above ++ [line]).length := by simp
    rw [List.append_cons, hlength, List.take_left]
  have hsteps := stepsBack_le (above.map Text.stripReturn).reverse
  rw [List.length_reverse, List.length_map] at hsteps
  rw [openerBase, hlines, List.take_append_of_le_length hnumber, htake, List.map_append,
    List.reverse_append, openerLine, Nat.add_sub_cancel, List.take_left]
  change listBase style line.stripReturn (above.map Text.stripReturn).reverse = _
  rw [listBase_eq, indentOf_reverse_getD style line more hsteps]

end Indentation

/-! ## Placements -/

/-- Where a line goes: behind a parenthesis on the line of the given index, where `inner` stands
between the indentation and the parenthesis, or some levels right of the line of the given index,
or of the first column. -/
inductive Placement where
  | beside (line : Nat) (inner : Text)
  | shifted (basis : Option Nat) (levels : Int)
deriving DecidableEq, Repr

def Placement.column (style : IndentStyle) (ls : List Text) : Placement → Nat
  | beside line inner =>
    style.indentOf (ls.getD line []) + Text.width style.tabWidth inner + 1
  | shifted basis levels =>
    let start : Nat := basis.elim 0 fun line => style.indentOf (ls.getD line [])
    Indentation.toColumn (start + levels * style.indentWidth)

def extraLevels (sigil continued : Bool) : Int :=
  if !sigil && continued then 1 else 0

namespace Indentation

def placementIn (g : Grammar) (ls : List Text) (sigil : Bool) (s : Survey)
    (e : Nesting.NamedScope Landmark) : Except Nesting.Mismatch Placement :=
  let levels := extraLevels sigil (continues g s.last? (e.opener.map Landmark.token))
  match e.opener with
  | some opener =>
    if opener.token.kind = .openBracket .paren && opener.leads then
      .ok (.beside (opener.token.line - 1) opener.inner)
    else .ok (.shifted (some (openerLine ls opener.token.line)) (levels + 1))
  | none =>
    let place : Placement := .shifted (s.anchor.map (·.line - 1)) (levels - e.extraClosers)
    match e.firstExtraCloser with
    | some closer => if s.hasEarlierAnchor g then .ok place else .error (.ofToken closer.token)
    | none => .ok place

def placement (g : Grammar) (ls : List Text) (sigil : Bool) :
    Except Nesting.Mismatch (Option Placement) :=
  let s := survey g (Text.wholeLines ls)
  if s.endsInLiteral then .ok none
  else
    match Nesting.walkBack Landmark.mark [] (landmarks g s.tokens).reverse with
    | .error opener => .error (.ofToken opener.token)
    | .ok e => (placementIn g ls sigil s e).map some

/-! ## Indentation does not show in a placement -/

theorem lastSignificant?_landmarks (tokens : List Token) :
    (Token.lastSignificant? tokens).map Token.faded =
      Token.lastSignificant? ((landmarks g tokens).map Landmark.token) := by
  have htokens : (landmarks g tokens).map Landmark.token =
      (tokens.filter (·.kind != .space)).map Token.faded := by
    rw [← Neighbourhood.map_token_visible, landmarks, List.map_map, List.map_map]
    rfl
  have hspace (t : Token) : (!t.kind.isTrivia) =
      decide ((t.kind != .space) = true ∧ (!t.faded.kind.isTrivia) = true) := by
    change _ = decide ((t.kind != .space) = true ∧ (!t.kind.isTrivia) = true)
    cases t.kind <;> simp [TokenKind.isTrivia]
  rw [htokens, Token.lastSignificant?, Token.lastSignificant?, ← List.map_reverse,
    ← List.filter_reverse, List.find?_map, List.find?_filter]
  simp only [Function.comp_def, ← hspace]

theorem continues_faded (last opener : Option Token) :
    continues g (last.map Token.faded) opener = continues g last opener := by
  cases last with
  | none => rfl
  | some t =>
      cases hkind : t.kind <;> simp [continues, Token.faded, hkind, TokenKind.isLiteralText]

theorem Survey.endsInLiteral_eq_any (s : Survey) :
    s.endsInLiteral = (s.last?.map Token.faded).any fun t =>
      match t.kind with
      | .literalBegin _ | .literalContent => true
      | _ => false := by
  rw [Option.any_map]
  rfl

/-- Two surveys that say the same about the line below, however the lines are indented. -/
structure Survey.Agrees (g : Grammar) (s s' : Survey) : Prop where
  landmarks : landmarks g s.tokens = landmarks g s'.tokens
  line : s.anchor.map Anchor.line = s'.anchor.map Anchor.line
  earlier : s.hasEarlierAnchor g = s'.hasEarlierAnchor g

theorem agrees_survey_flush (hv : g.VisibleSigils) (hg : g.VisibleEmbedding) {ls : List Text}
    (hls : ∀ line ∈ ls, '\n' ∉ line) :
    (survey g (Text.wholeLines (Text.flush ls))).Agrees g (survey g (Text.wholeLines ls)) := by
  rcases survey_flush_cases hv hg hls with ⟨hs, hs'⟩ | ⟨i, hi, hs, hs'⟩
  · rw [hs, hs']
    exact ⟨(landmarks_flush hg ls 1).symm, rfl, rfl⟩
  · have htake : ∀ line ∈ ls.take i, '\n' ∉ line := fun line hmem =>
      hls line (List.mem_of_mem_take hmem)
    rw [hs, hs']
    refine ⟨(landmarks_flush hg (ls.drop i) (i + 1)).symm, ?_, ?_⟩
    · simp only [Option.map_some, Anchor.line, Text.lastLine, Text.count_wholeLines htake,
        Text.count_wholeLines (Text.lineFeed_notMem_flush htake), Text.length_flush]
    · simp only [Survey.hasEarlierAnchor, Option.any_some]
      rcases anchor?_flush_cases hv hg htake with ⟨ha, ha'⟩ | ⟨j, -, ha, ha'⟩
      · rw [ha, ha']
      · rw [ha, ha']
        rfl

namespace Survey.Agrees

variable {s s' : Survey}

theorem last? (h : s.Agrees g s') : s.last?.map Token.faded = s'.last?.map Token.faded := by
  rw [Survey.last?, lastSignificant?_landmarks (g := g), h.landmarks,
    ← lastSignificant?_landmarks, Survey.last?]

theorem endsInLiteral (h : s.Agrees g s') : s.endsInLiteral = s'.endsInLiteral := by
  rw [Survey.endsInLiteral_eq_any, h.last?, ← Survey.endsInLiteral_eq_any]

theorem continues (h : s.Agrees g s') (opener : Option Token) :
    continues g s.last? opener = continues g s'.last? opener := by
  rw [← continues_faded, h.last?, continues_faded]

theorem placementIn {ls : List Text} (h : s.Agrees g s') (sigil : Bool)
    (e : Nesting.NamedScope Landmark) :
    placementIn g (Text.flush ls) sigil s e = placementIn g ls sigil s' e := by
  have hline : s.anchor.map (·.line - 1) = s'.anchor.map (·.line - 1) := by
    have hboth := congrArg (Option.map (· - 1)) h.line
    rwa [Option.map_map, Option.map_map] at hboth
  simp only [Indentation.placementIn, h.continues, openerLine_flush, hline, h.earlier]

end Survey.Agrees

/-- Lines that agree behind their indentation have one place below them. -/
theorem placement_flush (hv : g.VisibleSigils) (hg : g.VisibleEmbedding) {ls : List Text}
    (hls : ∀ line ∈ ls, '\n' ∉ line) (sigil : Bool) :
    placement g (Text.flush ls) sigil = placement g ls sigil := by
  have hagrees := agrees_survey_flush hv hg hls
  rw [placement, placement, hagrees.endsInLiteral, hagrees.landmarks]
  simp only [hagrees.placementIn]

end Indentation

end MarkupLayout

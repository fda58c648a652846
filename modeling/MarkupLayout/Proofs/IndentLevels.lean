import Mathlib.Algebra.BigOperators.Group.List.Basic
import MarkupLayout.Proofs.LayoutInStyles
/-!
# Levels of lines

In a text without parentheses no line is placed beside the content of a line above.  Then each line
is a number of levels right of the first column, and that number follows from the texts of the
lines and from the levels of the lines above; the width of a level has no part in it.
-/

namespace MarkupLayout

/-! ## Placements by levels -/

namespace Indentation

variable {g : Grammar} {ls : List Text}

theorem exists_namedScope_of_placement {sigil : Bool} {place : Placement}
    (h : placement g ls sigil = .ok (some place)) :
    ∃ e, Nesting.walkBack Landmark.mark []
        (landmarks g (survey g (Text.wholeLines ls)).tokens).reverse = .ok e ∧
      placementIn g ls sigil (survey g (Text.wholeLines ls)) e = .ok place := by
  unfold placement at h
  simp only at h
  split at h
  · simp at h
  · split at h
    · simp at h
    · rename_i e hwalk
      refine ⟨e, hwalk, ?_⟩
      cases hplace : placementIn g ls sigil (survey g (Text.wholeLines ls)) e with
      | error mismatch => simp [hplace, Except.map] at h
      | ok other =>
          rw [hplace] at h
          exact congrArg _ (Option.some.inj (Except.ok.inj h))

theorem extraLevels_cases (sigil continued : Bool) :
    extraLevels sigil continued = 0 ∨ extraLevels sigil continued = 1 := by
  cases sigil <;> cases continued <;> simp [extraLevels]

theorem levels_of_placementIn {sigil : Bool} {s : Survey} {e : Nesting.NamedScope Landmark}
    {basis : Option Nat} {levels : Int}
    (h : placementIn g ls sigil s e = .ok (.shifted basis levels)) :
    levels ≤ 2 ∧ -(e.extraClosers : Int) ≤ levels := by
  have hextra := extraLevels_cases sigil (continues g s.last? (e.opener.map Landmark.token))
  unfold placementIn at h
  simp only at h
  split at h
  · split at h
    · simp at h
    · simp only [Except.ok.injEq, Placement.shifted.injEq] at h
      omega
  · split at h
    · split at h
      · simp only [Except.ok.injEq, Placement.shifted.injEq] at h
        omega
      · simp at h
    · simp only [Except.ok.injEq, Placement.shifted.injEq] at h
      omega

theorem opener_of_placementIn {sigil : Bool} {s : Survey} {e : Nesting.NamedScope Landmark}
    {line : Nat} {inner : Text} (h : placementIn g ls sigil s e = .ok (.beside line inner)) :
    ∃ opener ∈ e.opener, opener.token.kind = .openBracket .paren := by
  unfold placementIn at h
  simp only at h
  split at h
  · rename_i opener hopener
    split at h
    · rename_i hparen
      simp only [Bool.and_eq_true, decide_eq_true_eq] at hparen
      exact ⟨opener, hopener, hparen.1⟩
    · simp at h
  · split at h
    · split at h <;> simp at h
    · simp at h

theorem length_landmarks_le (hg : g.interpolationOpen ≠ []) (t : Text) (firstLine : Nat) :
    (landmarks g (tokenize g t firstLine)).length ≤ t.length := by
  have htokens : (landmarks g (tokenize g t firstLine)).length ≤
      (tokenize g t firstLine).length := by
    have hvisible := congrArg List.length (Neighbourhood.map_token_visible
      (tokenize g t firstLine))
    rw [List.length_map] at hvisible
    rw [landmarks, List.length_map, hvisible]
    exact List.length_filter_le _ _
  have hpos : ∀ n ∈ (tokenize g t firstLine).map (·.text.length), 1 ≤ n := by
    intro n hn
    obtain ⟨token, hmem, rfl⟩ := List.mem_map.mp hn
    exact List.length_pos_iff.mpr (text_ne_nil_of_mem_tokenize hg hmem)
  have hsum := List.length_le_sum_of_one_le _ hpos
  have htext := congrArg List.length (flatMap_text_tokenize g t firstLine)
  rw [List.length_flatMap] at htext
  rw [List.length_map] at hsum
  omega

theorem levels_of_placement (hg : g.PlainLayout) (hls : ∀ line ∈ ls, '\n' ∉ line) {sigil : Bool}
    {basis : Option Nat} {levels : Int}
    (h : placement g ls sigil = .ok (some (.shifted basis levels))) :
    levels ≤ 2 ∧ -((Text.wholeLines ls).length : Int) ≤ levels := by
  obtain ⟨e, hwalk, hplace⟩ := exists_namedScope_of_placement h
  obtain ⟨hhigh, hlow⟩ := levels_of_placementIn hplace
  obtain ⟨i, htokens⟩ := exists_tokens_survey hg.visibleSigils hg.visibleEmbedding hls
  have hopen : g.interpolationOpen ≠ [] := by
    obtain ⟨c, hc, -⟩ := hg.visibleEmbedding.visible
    exact List.ne_nil_of_mem hc
  have hclosers := Nesting.extraClosers_le_of_walkBack_ok hwalk
  have hlandmarks := length_landmarks_le hopen (Text.wholeLines (ls.drop i)) (i + 1)
  have hlength := Text.length_wholeLines_drop_le ls i
  rw [htokens, List.length_nil, List.length_reverse] at hclosers
  omega

theorem exists_shifted_of_placement (hg : g.PlainLayout) (hls : ∀ line ∈ ls, '\n' ∉ line)
    (hparen : ∀ line ∈ ls, '(' ∉ line) {sigil : Bool} {place : Placement}
    (h : placement g ls sigil = .ok (some place)) :
    ∃ basis levels, place = .shifted basis levels := by
  obtain ⟨e, hwalk, hplace⟩ := exists_namedScope_of_placement h
  cases place with
  | shifted basis levels => exact ⟨basis, levels, rfl⟩
  | beside line inner =>
      obtain ⟨opener, hopener, hkind⟩ := opener_of_placementIn hplace
      obtain ⟨i, htokens⟩ := exists_tokens_survey hg.visibleSigils hg.visibleEmbedding hls
      have hmem := Nesting.mem_of_walkBack_ok hwalk opener hopener
      rw [List.mem_reverse, landmarks, htokens] at hmem
      obtain ⟨n, hn, rfl⟩ := List.mem_map.mp hmem
      have htoken := Neighbourhood.token_mem_of_mem_all (List.mem_of_mem_filter hn)
      have htext := Token.text_of_paren hg.roundParens htoken hkind
      -- The text of the token is part of a line.
      have hpart : '(' ∈ Text.wholeLines (ls.drop i) := by
        rw [← flatMap_text_tokenize g (Text.wholeLines (ls.drop i)) (i + 1), List.mem_flatMap]
        exact ⟨n.token, htoken, by simp [htext]⟩
      obtain ⟨found, hfound, hbracket⟩ := List.mem_flatMap.mp hpart
      rcases List.mem_append.mp hbracket with hbracket | hbracket
      · exact absurd hbracket (hparen found (List.mem_of_mem_drop hfound))
      · simp at hbracket

end Indentation

/-! ## The levels of lines -/

/-- The level of a line that is placed some levels right of a line above, given the levels of these
lines.  Lines left of the first column count as in it. -/
def levelAbove (above : List Int) (basis : Option Nat) (levels : Int) : Int :=
  basis.elim 0 (fun line => max 0 (above.getD line 0)) + levels

/-- The column of a level fits into a signed word. -/
def IndentStyle.Fits (style : IndentStyle) (level : Int) : Prop :=
  -0x8000000000000000 ≤ level * style.indentWidth ∧
    level * style.indentWidth < 0x8000000000000000

def IndentStyle.AtLevels (style : IndentStyle) (ls : List Text) (levels : List Int) : Prop :=
  ls.map style.indentOf = levels.map fun level => level.toNat * style.indentWidth

namespace IndentStyle

variable {style : IndentStyle} {ls : List Text} {levels : List Int}

theorem AtLevels.indentOf_getD (h : style.AtLevels ls levels) (i : Nat) :
    style.indentOf (ls.getD i []) = (levels.getD i 0).toNat * style.indentWidth := by
  have hleft : style.indentOf (ls.getD i []) =
      (ls.map style.indentOf).getD i (style.indentOf []) := by rw [List.getD_map]
  have hright : (levels.getD i 0).toNat * style.indentWidth =
      (levels.map fun level => level.toNat * style.indentWidth).getD i
        ((0 : Int).toNat * style.indentWidth) := by rw [List.getD_map]
  have hempty : style.indentOf [] = (0 : Int).toNat * style.indentWidth := by simp [indentOf]; rfl
  rw [hleft, hright, h, hempty]

theorem toNat_mul_natCast (level : Int) (n : Nat) : (level * n).toNat = level.toNat * n := by
  rcases Int.le_total 0 level with hpos | hneg
  · obtain ⟨m, rfl⟩ := Int.eq_ofNat_of_zero_le hpos
    rw [← Int.natCast_mul, Int.toNat_natCast, Int.toNat_natCast]
  · have hproduct : level * n ≤ 0 := Int.mul_nonpos_of_nonpos_of_nonneg hneg (Int.natCast_nonneg n)
    rw [Int.toNat_of_nonpos hproduct, Int.toNat_of_nonpos hneg, Nat.zero_mul]

theorem AtLevels.column_shifted (h : style.AtLevels ls levels) (basis : Option Nat)
    (moved : Int) (hfits : style.Fits (levelAbove levels basis moved)) :
    (Placement.shifted basis moved).column style ls =
      (levelAbove levels basis moved).toNat * style.indentWidth := by
  have hstart : ((basis.elim 0 fun line => style.indentOf (ls.getD line []) : Nat) : Int) =
      basis.elim 0 (fun line => max 0 (levels.getD line 0)) * style.indentWidth := by
    cases basis with
    | none => simp
    | some line =>
      simp only [Option.elim_some]
      rw [h.indentOf_getD, Int.natCast_mul, Int.toNat_eq_max, Int.max_comm]
  have hsum : (basis.elim 0 fun line => style.indentOf (ls.getD line []) : Nat) +
      moved * style.indentWidth = levelAbove levels basis moved * style.indentWidth := by
    rw [hstart, ← Int.add_mul, levelAbove]
  rw [Placement.column, hsum, Indentation.toColumn_of_lt hfits.1 hfits.2,
    toNat_mul_natCast]

end IndentStyle

/-- Below lines with the texts `bodies` and the levels `above`, the lines `old` get the given
levels. -/
inductive Indentation.Levels (g : Grammar) :
    (bodies : List Text) → (above : List Int) → (old : List Text) → (levels : List Int) → Prop
  | nil (bodies : List Text) (above : List Int) : Levels g bodies above [] []
  | cons {bodies old : List Text} {above levels : List Int} {line : Text} {basis : Option Nat}
      {moved : Int} (hplace : placementBelow g bodies line = .ok (some (.shifted basis moved)))
      (hmore : Levels g (bodies ++ [line.dropWhile Text.isIndentChar])
        (above ++ [levelAbove above basis moved]) old levels) :
      Levels g bodies above (line :: old) (levelAbove above basis moved :: levels)

namespace Indentation

variable {g : Grammar} {style : IndentStyle} {above old new bodies : List Text}
  {outcomes : List IndentOutcome} {levels known : List Int}

theorem Levels.length_eq (h : Levels g bodies known old levels) : levels.length = old.length := by
  induction h with
  | nil => rfl
  | cons _ _ ih => rw [List.length_cons, List.length_cons, ih]

theorem exists_shifted_of_placementBelow (hg : g.PlainLayout) {ls : List Text}
    (hls : ∀ line ∈ ls, '\n' ∉ line) (hparen : ∀ line ∈ ls, '(' ∉ line) {line : Text}
    {place : Placement} (h : placementBelow g ls line = .ok (some place)) :
    ∃ basis levels, place = .shifted basis levels := by
  unfold placementBelow at h
  split at h
  · exact ⟨none, 0, (Option.some.inj (Except.ok.inj h)).symm⟩
  · exact exists_shifted_of_placement hg hls hparen h

theorem Indents.exists_levels (hg : g.PlainLayout) (h : Indents g style above old new outcomes)
    (habove : ∀ line ∈ above, '\n' ∉ line) (hold : ∀ line ∈ old, '\n' ∉ line)
    (hbodies : ∀ body ∈ Text.flush above, '(' ∉ body) (hparen : ∀ line ∈ old, '(' ∉ line)
    (hcomplete : .suppressed ∉ outcomes) (known : List Int) :
    ∃ levels, Levels g (Text.flush above) known old levels := by
  induction h generalizing known with
  | nil above => exact ⟨[], .nil _ _⟩
  | @cons above old new line column outcomes hcolumn _ ih =>
      rw [columnBelow_eq hg style habove, ← placementBelow_flush hg habove] at hcolumn
      cases hplace : placementBelow g (Text.flush above) line with
      | error mismatch => simp [hplace, Except.map] at hcolumn
      | ok place =>
          rw [hplace] at hcolumn
          obtain rfl : place.map (Placement.column style above) = column := Except.ok.inj hcolumn
          cases place with
          | none => simp [IndentStyle.outcomeOf] at hcomplete
          | some place =>
              -- The place names a line above, and no column of the style goes into its level.
              obtain ⟨basis, moved, rfl⟩ := exists_shifted_of_placementBelow hg
                (Text.lineFeed_notMem_flush habove) hbodies hplace
              have hbody : ∀ body ∈ Text.flush above ++ [line.dropWhile Text.isIndentChar],
                  '(' ∉ body := by
                intro body hmem
                rcases List.mem_append.mp hmem with hmem | hmem
                · exact hbodies body hmem
                · rw [List.mem_singleton.mp hmem]
                  exact fun hin => hparen line (by simp) ((List.dropWhile_suffix _).subset hin)
              rw [← flush_concat_reindented] at hbody
              obtain ⟨levels, hlevels⟩ := ih
                (lineFeed_notMem_concat_reindented style habove (hold line (by simp)) _)
                (fun other hmem => hold other (by simp [hmem])) hbody
                (fun other hmem => hparen other (by simp [hmem]))
                (fun hmem => hcomplete (List.mem_cons_of_mem _ hmem))
                (known ++ [levelAbove known basis moved])
              rw [flush_concat_reindented] at hlevels
              exact ⟨_, .cons hplace hlevels⟩

theorem Levels.exists_indents (hg : g.PlainLayout) (h : Levels g bodies known old levels)
    (hfits : ∀ level ∈ levels, style.Fits level) (habove : ∀ line ∈ above, '\n' ∉ line)
    (hold : ∀ line ∈ old, '\n' ∉ line) (hbodies : Text.flush above = bodies)
    (hknown : style.AtLevels above known) :
    ∃ new outcomes, Indents g style above old new outcomes ∧
      new.map Text.leading =
        levels.map fun level => style.write (level.toNat * style.indentWidth) := by
  induction h generalizing above with
  | nil bodies known => exact ⟨[], [], .nil above, rfl⟩
  | @cons bodies old known levels line basis moved hplace _ ih =>
      have hcolumn := columnBelow_eq hg style habove line
      rw [← placementBelow_flush hg habove, hbodies, hplace] at hcolumn
      have hwidth := hknown.column_shifted basis moved (hfits _ (by simp))
      simp only [Except.map, Option.map_some, hwidth] at hcolumn
      -- The width of what is written is the level, so the lines stay at their levels.
      have hlevels : style.AtLevels (above ++ [style.reindented line
          (some ((levelAbove known basis moved).toNat * style.indentWidth))])
          (known ++ [levelAbove known basis moved]) := by
        rw [IndentStyle.AtLevels, List.map_append, List.map_append, hknown, List.map_singleton,
          List.map_singleton, IndentStyle.indentOf, style.leading_reindented, style.width_write]
      have hlater := ih (fun level hmem => hfits level (by simp [hmem]))
        (lineFeed_notMem_concat_reindented style habove (hold line (by simp)) _)
        (fun other hmem => hold other (by simp [hmem]))
        (by rw [flush_concat_reindented, hbodies]) hlevels
      obtain ⟨new, outcomes, hmore, hnew⟩ := hlater
      refine ⟨_, _, .cons hcolumn hmore, ?_⟩
      rw [List.map_cons, style.leading_reindented, hnew, List.map_cons]

/-! ## How far levels go -/

theorem getD_le_of_forall {levels : List Int} {bound : Int} (hbound : 0 ≤ bound)
    (h : ∀ level ∈ levels, level ≤ bound) (i : Nat) : max 0 (levels.getD i 0) ≤ bound := by
  rw [List.getD_eq_getElem?_getD]
  cases hlevel : levels[i]? with
  | none => simpa using hbound
  | some level => exact Int.max_le.mpr ⟨hbound, h level (List.mem_of_getElem? hlevel)⟩

theorem level_of_placementBelow (hg : g.PlainLayout) (hbodies : ∀ body ∈ bodies, '\n' ∉ body)
    (hlength : known.length = bodies.length)
    (hknown : ∀ level ∈ known, level + 2 ≤ 2 * known.length) {line : Text} {basis : Option Nat}
    {moved : Int} (h : placementBelow g bodies line = .ok (some (.shifted basis moved))) :
    levelAbove known basis moved ≤ 2 * known.length ∧
      -((Text.wholeLines bodies).length : Int) ≤ levelAbove known basis moved := by
  unfold placementBelow at h
  split at h
  · simp only [Except.ok.injEq, Option.some.injEq, Placement.shifted.injEq] at h
    obtain ⟨rfl, rfl⟩ := h
    simp only [levelAbove, Option.elim_none]
    omega
  · rename_i hfirst
    simp only [Bool.or_eq_true, List.isEmpty_iff, not_or] at hfirst
    have hpos := List.length_pos_iff.mpr hfirst.2
    obtain ⟨hhigh, hlow⟩ := levels_of_placement hg hbodies h
    cases basis with
    | none =>
        simp only [levelAbove, Option.elim_none]
        omega
    | some line =>
        have hbound : ∀ level ∈ known, level ≤ 2 * known.length - 2 := by
          intro level hmem
          have hlevel := hknown level hmem
          omega
        have hbase := getD_le_of_forall (by omega) hbound line
        have hzero : 0 ≤ max 0 (known.getD line 0) := Int.le_max_left _ _
        simp only [levelAbove, Option.elim_some]
        omega

/-- No level is beyond twice the number of lines or below the number of characters. -/
theorem Levels.bounds (hg : g.PlainLayout) (h : Levels g bodies known old levels)
    (hbodies : ∀ body ∈ bodies, '\n' ∉ body) (hold : ∀ line ∈ old, '\n' ∉ line)
    (hlength : known.length = bodies.length)
    (hknown : ∀ level ∈ known, level + 2 ≤ 2 * known.length) :
    ∀ level ∈ levels, level + 2 ≤ 2 * (bodies.length + old.length) ∧
      -((Text.wholeLines (bodies ++ old)).length : Int) < level := by
  induction h with
  | nil => simp
  | @cons bodies old known levels line basis moved hplace _ ih =>
      obtain ⟨hhigh, hlow⟩ := level_of_placementBelow hg hbodies hlength hknown hplace
      have hline : '\n' ∉ line.dropWhile Text.isIndentChar := fun hmem =>
        hold line (by simp) ((List.dropWhile_suffix _).subset hmem)
      have hshort := (List.dropWhile_suffix (l := line) Text.isIndentChar).length_le
      have hnext : ∀ level ∈ known ++ [levelAbove known basis moved],
          level + 2 ≤ 2 * ((known ++ [levelAbove known basis moved]).length : Int) := by
        intro level hmem
        rw [List.length_append, List.length_singleton]
        rcases List.mem_append.mp hmem with hmem | hmem
        · have hlevel := hknown level hmem
          omega
        · rw [List.mem_singleton.mp hmem]
          omega
      have hlater := ih (by simpa [hline, or_imp, forall_and] using hbodies)
        (fun other hmem => hold other (by simp [hmem])) (by simp [hlength]) hnext
      intro level hmem
      simp only [Text.wholeLines_append, Text.wholeLines_cons, Text.wholeLines_nil,
        List.length_append, List.length_cons, List.length_nil] at hlater ⊢
      rcases List.mem_cons.mp hmem with rfl | hmem
      · omega
      · have hlevel := hlater level hmem
        omega

end Indentation

/-! ## Whole texts -/

namespace Document

open Indentation (Levels)

variable {g : Grammar} {levels : List Int}

theorem exists_levels_of_indentRegion (hg : g.PlainLayout) (doc : Document)
    (hparen : '(' ∉ doc.text) {outcomes : List (Nat × IndentOutcome)}
    (h : (doc.indentRegion g 1 doc.text.lineCount).2 = .ok outcomes)
    (hcomplete : ∀ entry ∈ outcomes, entry.2 ≠ .suppressed) :
    ∃ levels, Levels g [] [] doc.text.lines levels := by
  obtain ⟨new, results, hindents, rfl⟩ := doc.exists_indents_of_indentRegion h
  have hresults : .suppressed ∉ results := by
    intro hmem
    have hlength : results.length ≤ (List.range' 1 doc.text.lines.length).length := by
      rw [hindents.length_outcomes, List.length_range']
    rw [← List.map_snd_zip hlength] at hmem
    obtain ⟨entry, hentry, hsuppressed⟩ := List.mem_map.mp hmem
    exact hcomplete entry hentry hsuppressed
  have hlines : ∀ line ∈ doc.text.lines, '\n' ∉ line := fun line hmem =>
    Text.lineFeed_notMem_of_mem_lines hmem
  have hparens : ∀ line ∈ doc.text.lines, '(' ∉ line := fun line hmem hin =>
    hparen (Text.mem_of_mem_lines hmem hin)
  exact hindents.exists_levels hg (by simp) hlines (by simp [Text.flush]) hparens hresults []

theorem natAbs_le_of_levels (hg : g.PlainLayout) {text : Text}
    (h : Levels g [] [] text.lines levels) : ∀ level ∈ levels, level.natAbs ≤ 2 * text.length := by
  intro level hmem
  have hlines : ∀ line ∈ text.lines, '\n' ∉ line := fun line hmem =>
    Text.lineFeed_notMem_of_mem_lines hmem
  obtain ⟨hhigh, hlow⟩ := h.bounds hg (by simp) hlines rfl (by simp) level hmem
  change level + 2 ≤ 2 * ((0 : Nat) + text.lines.length) at hhigh
  change -((Text.wholeLines text.lines).length : Int) < level at hlow
  have hcount := Text.length_le_length_wholeLines text.lines
  rw [Text.length_wholeLines_lines] at hlow hcount
  omega

theorem indentRegion_of_levels (hg : g.PlainLayout) (doc : Document)
    (h : Levels g [] [] doc.text.lines levels) (hfits : ∀ level ∈ levels, doc.style.Fits level) :
    ∃ outcomes, (doc.indentRegion g 1 doc.text.lineCount).2 = .ok outcomes ∧
      (doc.indentRegion g 1 doc.text.lineCount).1.text.lines.map Text.leading =
        levels.map fun level => doc.style.write (level.toNat * doc.style.indentWidth) := by
  have hlines : ∀ line ∈ doc.text.lines, '\n' ∉ line := fun line hmem =>
    Text.lineFeed_notMem_of_mem_lines hmem
  have hnil : doc.style.AtLevels [] [] := rfl
  obtain ⟨new, outcomes, hindents, hleading⟩ :=
    h.exists_indents hg hfits (by simp) hlines rfl hnil
  obtain ⟨htext, hok⟩ := doc.indentRegion_of_indents hindents
  exact ⟨_, hok, (congrArg _ htext).trans hleading⟩

/-- Columns scale with the width of a level.  If all lines of a text without parentheses can be
indented in one style and none is left alone, the lines have levels, the same for every style in
which the columns fit into signed words, and none further from the first column than twice the
length of the text.  If they cannot be indented, the error is the same in every style. -/
theorem indentRegion_levels (name : String) (text : Text) (style : IndentStyle)
    (hparen : '(' ∉ text) :
    let run (style : IndentStyle) :=
      (ofText name text style).indentRegion .markdown 1 text.lineCount
    (∀ outcomes, (run style).2 = .ok outcomes → (∀ entry ∈ outcomes, entry.2 ≠ .suppressed) →
      ∃ levels : List Int, levels.length = text.lineCount ∧
        (∀ level ∈ levels, level.natAbs ≤ 2 * text.length) ∧
        ∀ style' : IndentStyle, (∀ level ∈ levels,
            -0x8000000000000000 ≤ level * style'.indentWidth ∧
              level * style'.indentWidth < 0x8000000000000000) →
          ∃ outcomes', (run style').2 = .ok outcomes' ∧
            (run style').1.text.lines.map Text.leading =
              levels.map fun level => style'.write (level.toNat * style'.indentWidth)) ∧
    ∀ e, (run style).2 = .error e → ∀ style', (run style').2 = .error e := by
  intro run
  have hg := Grammar.markdown_plainLayout
  constructor
  · intro outcomes hok hcomplete
    obtain ⟨levels, hlevels⟩ :=
      exists_levels_of_indentRegion hg (ofText name text style) hparen hok hcomplete
    refine ⟨levels, ?_, natAbs_le_of_levels hg hlevels, ?_⟩
    · exact hlevels.length_eq.trans text.lineCount_eq_length_lines.symm
    · intro style' hfits
      exact indentRegion_of_levels hg (ofText name text style') hlevels hfits
  · intro e herror style'
    exact indentRegion_error_congr hg herror style'

theorem indentRegion_levels_item :
    (∃ levels : List Int, levels.length = 2 ∧ (∀ level ∈ levels, level.natAbs ≤ 10) ∧
      ∀ style : IndentStyle, (∀ level ∈ levels,
          -0x8000000000000000 ≤ level * style.indentWidth ∧
            level * style.indentWidth < 0x8000000000000000) →
        ∃ outcomes,
          ((ofText "a" "* a\nb".toList style).indentRegion .markdown 1 2).2 = .ok outcomes ∧
          ((ofText "a" "* a\nb".toList style).indentRegion .markdown 1 2).1.text.lines.map
            Text.leading =
              levels.map fun level => style.write (level.toNat * style.indentWidth)) ∧
    ∀ style : IndentStyle,
      ((ofText "a" "[\x7d\nb".toList style).indentRegion .markdown 1 2).2 =
        .error ⟨"a", 1, ['[']⟩ := by
  constructor
  · exact (indentRegion_levels "a" "* a\nb".toList .default (by decide)).1
      [(1, .unchanged), (2, .reindented 0 2)] (by decide +kernel) (by decide)
  · exact (indentRegion_levels "a" "[\x7d\nb".toList .default (by decide)).2
      ⟨"a", 1, ['[']⟩ (by decide +kernel)

end Document

end MarkupLayout

import MarkupLayout.Indentation
import MarkupLayout.Proofs.LineCut
import MarkupLayout.Proofs.SigilLine
/-!
# Anchors

An anchor cuts the text above a line at the start of a sigil line outside literals.  The search
goes back from one sigil line to the one before as long as they are inside literals, and finds an
anchor whenever there is a sigil line outside.
-/

namespace MarkupLayout

/-! ## Sigil lines with more text behind them -/

namespace Pattern

variable {sigils : List Text} {s : Text}

theorem sigilTail?_append (h : s.getLast? = some '\n') (r : Text) :
    sigilTail? (s ++ r) = sigilTail? s := by
  match s with
  | [] => simp at h
  | [c] =>
      obtain rfl : c = '\n' := by simpa using h
      rfl
  | c :: d :: more =>
      by_cases hc : c = '\r'
      · subst hc
        by_cases hd : d = '\n'
        · subst hd
          rfl
        · simp [sigilTail?, hd]
      · simp only [List.cons_append, sigilTail?]
        split <;> simp_all

private theorem findSome?_congr {α β : Type} {l : List α} {f f' : α → Option β}
    (h : ∀ a ∈ l, f a = f' a) : l.findSome? f = l.findSome? f' := by
  induction l with
  | nil => rfl
  | cons a l ih =>
      rw [List.findSome?_cons, List.findSome?_cons, h a (by simp),
        ih fun b hmem => h b (by simp [hmem])]

theorem sigilLength?_append (hsigils : Visible sigils) (h : s.getLast? = some '\n') (r : Text) :
    sigilLength? sigils (s ++ r) = sigilLength? sigils s := by
  have hsame (sigil : Text) (hmem : sigil ∈ sigils) :
      (if sigil.isPrefixOf (s ++ r) then
        (sigilTail? ((s ++ r).drop sigil.length)).map (sigil.length + ·) else none) =
      (if sigil.isPrefixOf s then
        (sigilTail? (s.drop sigil.length)).map (sigil.length + ·) else none) := by
    have hline := hsigils.onLine sigil hmem
    rw [Text.isPrefixOf_append_of_getLast? h hline]
    split
    · rename_i hstarts
      obtain ⟨behind, rfl⟩ := List.isPrefixOf_iff_prefix.mp hstarts
      rw [List.append_assoc, List.drop_left, List.drop_left,
        sigilTail?_append (Text.getLast?_of_append h hline)]
    · rfl
  exact findSome?_congr hsame

theorem matchHere?_append (hsigils : Visible sigils) (h : s.getLast? = some '\n') (r : Text) :
    (sigilLine sigils).matchHere? true (s ++ r) = (sigilLine sigils).matchHere? true s := by
  have hleading : Text.leading (s ++ r) = s.leading :=
    Text.takeWhile_append_of_getLast? h (by rfl) r
  rw [matchHere?_sigilLine hsigils, Text.dropWhile_append_of_getLast? h (by rfl),
    sigilLength?_append hsigils (Text.getLast?_dropWhile h (by rfl)), hleading,
    matchHere?_sigilLine hsigils]

end Pattern

/-! ## The search -/

namespace Indentation

variable {g : Grammar} {t : Text}

theorem anchor?_of_last? {sigils : List Text} (hpattern : g.sigilLine = .sigilLine sigils)
    (hsigils : Pattern.Visible sigils) {m : Match}
    (h : (Pattern.sigilLine sigils).last? t = some m) :
    ∃ passed behind found, t = passed ++ behind ∧ behind ≠ [] ∧ passed.IsWhole ∧
      (Pattern.sigilLine sigils).matchHere? true behind = some found ∧
      m.start = passed.length ∧
      anchor? g t = if Literal.isOpenAfter g passed then anchor? g passed
        else some ⟨passed, behind.leading⟩ := by
  obtain ⟨passed, behind, found, rfl, hpassed, hfound, rfl⟩ := Pattern.last?_eq_some hsigils h
  have hbehind := Pattern.ne_nil_of_matchHere? hsigils hfound
  have hshorter : passed.length < (passed ++ behind).length := by
    have hpos := List.length_pos_iff.mpr hbehind
    rw [List.length_append]
    omega
  have hindent : behind.take (found.indent.getD 0) = behind.leading := by
    rw [Pattern.matchHere?_sigilLine hsigils] at hfound
    obtain ⟨length, -, rfl⟩ := Option.map_eq_some_iff.mp hfound
    exact (List.prefix_iff_eq_take.mp (List.takeWhile_prefix _)).symm
  refine ⟨passed, behind, found, rfl, hbehind, hpassed, hfound, rfl, ?_⟩
  rw [anchor?, hpattern, h]
  simp only [List.take_left, List.drop_left, if_pos hshorter, hindent]

theorem exists_match_of_anchor? (hg : g.VisibleSigils) {a : Anchor} (h : anchor? g t = some a) :
    ∃ behind found, t = a.above ++ behind ∧ behind ≠ [] ∧ a.above.IsWhole ∧
      Literal.isOpenAfter g a.above = false ∧ a.indent = behind.leading ∧
      g.sigilLine.matchHere? true behind = some found := by
  obtain ⟨sigils, hpattern, hsigils, -⟩ := Pattern.sigilLine_eq hg
  rw [hpattern]
  induction hlength : t.length using Nat.strongRecOn generalizing t with
  | ind n ih =>
      cases hlast : (Pattern.sigilLine sigils).last? t with
      | none =>
          rw [anchor?, hpattern, hlast] at h
          simp at h
      | some m =>
          obtain ⟨passed, behind, found, rfl, hbehind, hpassed, hfound, -, hanchor⟩ :=
            anchor?_of_last? hpattern hsigils hlast
          rw [hanchor] at h
          cases hopen : Literal.isOpenAfter g passed with
          | true =>
              rw [hopen, if_pos rfl] at h
              have hpos := List.length_pos_iff.mpr hbehind
              rw [List.length_append] at hlength
              obtain ⟨between, found, hbetween, hne, hwhole, hclosed, hindent, hfound⟩ :=
                ih passed.length (by omega) h rfl
              rw [hbetween] at hpassed
              have hfeed := hpassed.of_append.getLast? hne
              refine ⟨between ++ behind, found, ?_, by simp [hne], hwhole, hclosed, ?_, ?_⟩
              · rw [← List.append_assoc, ← hbetween]
              · rw [hindent]
                exact (Text.takeWhile_append_of_getLast? hfeed (by rfl) behind).symm
              · rw [Pattern.matchHere?_append hsigils hfeed, hfound]
          | false =>
              rw [hopen, if_neg (by simp), Option.some.injEq] at h
              subst h
              exact ⟨behind, found, rfl, hbehind, hpassed, hopen, rfl, hfound⟩

theorem anchor?_eq_some (hg : g.VisibleSigils) {a : Anchor} (h : anchor? g t = some a) :
    ∃ behind, t = a.above ++ behind ∧ behind ≠ [] ∧ a.above.IsWhole ∧
      Literal.isOpenAfter g a.above = false := by
  obtain ⟨behind, _, hsplit, hbehind, hwhole, hclosed, -, -⟩ := exists_match_of_anchor? hg h
  exact ⟨behind, hsplit, hbehind, hwhole, hclosed⟩

/-- Where a sigil line starts outside literals, an anchor is found there or further down. -/
theorem exists_anchor? {sigils : List Text} (hpattern : g.sigilLine = .sigilLine sigils)
    (hsigils : Pattern.Visible sigils) {passed behind : Text} {found : Match}
    (hpassed : passed.IsWhole)
    (hfound : (Pattern.sigilLine sigils).matchHere? true behind = some found)
    (hclosed : Literal.isOpenAfter g passed = false) :
    ∃ a, anchor? g (passed ++ behind) = some a ∧ passed.length ≤ a.above.length := by
  induction hlength : behind.length using Nat.strongRecOn generalizing behind with
  | ind n ih =>
      obtain ⟨m, hlast, hm⟩ := Pattern.exists_last? hsigils hpassed hfound
      obtain ⟨passed', behind', _, hsplit, hbehind, hpassed', -, hstart, hanchor⟩ :=
        anchor?_of_last? hpattern hsigils hlast
      rw [hanchor]
      cases hopen : Literal.isOpenAfter g passed' with
      | false => exact ⟨_, rfl, by rwa [hstart] at hm⟩
      | true =>
          -- The text is cut at a later line, so the sigil line that was given is still whole.
          obtain ⟨between, rfl, rfl⟩ : ∃ between, passed' = passed ++ between ∧
              behind = between ++ behind' := by
            rw [List.append_eq_append_iff] at hsplit
            rcases hsplit with ⟨between, hleft, hright⟩ | ⟨between, hleft, hright⟩
            · exact ⟨between, hleft, hright⟩
            · have hle := congrArg List.length hleft
              rw [List.length_append] at hle
              obtain rfl : between = [] := List.eq_nil_of_length_eq_zero (by omega)
              exact ⟨[], by simpa using hleft.symm, by simpa using hright.symm⟩
          have hbetween : between.getLast? = some '\n' := by
            apply hpassed'.of_append.getLast?
            rintro rfl
            rw [List.append_nil, hclosed] at hopen
            simp at hopen
          rw [Pattern.matchHere?_append hsigils hbetween] at hfound
          have hpos := List.length_pos_iff.mpr hbehind
          rw [List.length_append] at hlength
          exact ih between.length (by omega) hfound rfl

end Indentation

/-! ## One line more -/

theorem Text.wholePart_cases {x line passed behind : Text} (hline : '\n' ∉ line)
    (hpassed : passed.IsWhole) (h : x ++ (line ++ ['\n']) = passed ++ behind) :
    behind = [] ∨ (passed = x ∧ behind = line ++ ['\n']) ∨
      ∃ between, between ≠ [] ∧ x = passed ++ between ∧ behind = between ++ (line ++ ['\n']) := by
  rcases List.append_eq_append_iff.mp h with ⟨part, rfl, hpart⟩ | ⟨between, rfl, rfl⟩
  · rcases hpassed.of_append with rfl | hlast
    · exact .inr (.inl ⟨by simp, by simpa using hpart.symm⟩)
    · -- A part of the line that ends with a line feed is all of it.
      left
      by_contra hne
      obtain ⟨rest, last, rfl⟩ : ∃ rest last, behind = rest ++ [last] :=
        ⟨_, _, (List.dropLast_concat_getLast hne).symm⟩
      rw [← List.append_assoc] at hpart
      obtain ⟨rfl, -⟩ := List.append_inj' hpart rfl
      exact hline (List.mem_append_left _ (List.mem_of_getLast? hlast))
  · by_cases hnil : between = []
    · subst hnil
      exact .inr (.inl ⟨by simp, rfl⟩)
    · exact .inr (.inr ⟨between, hnil, rfl, rfl⟩)

namespace Pattern

variable {sigils : List Text} {x line : Text}

theorem last?_eq_some_of_max (hsigils : Visible sigils) {passed behind : Text} {found : Match}
    (hpassed : passed.IsWhole) (hfound : (sigilLine sigils).matchHere? true behind = some found)
    (hmax : ∀ passed' behind' found', passed ++ behind = passed' ++ behind' → passed'.IsWhole →
      (sigilLine sigils).matchHere? true behind' = some found' →
      passed'.length ≤ passed.length) :
    (sigilLine sigils).last? (passed ++ behind) = some { found with start := passed.length } := by
  obtain ⟨m, hlast, hm⟩ := exists_last? hsigils hpassed hfound
  obtain ⟨passed', behind', found', heq, hpassed', hfound', rfl⟩ := last?_eq_some hsigils hlast
  have hle := hmax passed' behind' found' heq hpassed' hfound'
  obtain ⟨rfl, rfl⟩ := List.append_inj heq (Nat.le_antisymm hm hle)
  rw [hfound, Option.some.injEq] at hfound'
  rw [hlast, hfound']

theorem last?_concat_of_match (hsigils : Visible sigils) (hx : x.IsWhole) (hline : '\n' ∉ line)
    {found : Match} (hfound : (sigilLine sigils).matchHere? true (line ++ ['\n']) = some found) :
    (sigilLine sigils).last? (x ++ (line ++ ['\n'])) = some { found with start := x.length } := by
  apply last?_eq_some_of_max hsigils hx hfound
  intro passed behind found' heq hpassed hfound'
  rcases Text.wholePart_cases hline hpassed heq with rfl | ⟨rfl, -⟩ | ⟨between, -, rfl, -⟩
  · rw [matchHere?_nil hsigils] at hfound'
    simp at hfound'
  · exact Nat.le_refl _
  · simp

theorem last?_concat_of_no_match (hsigils : Visible sigils) (hx : x.IsWhole) (hline : '\n' ∉ line)
    (hnone : (sigilLine sigils).matchHere? true (line ++ ['\n']) = none) :
    (sigilLine sigils).last? (x ++ (line ++ ['\n'])) = (sigilLine sigils).last? x := by
  -- Every sigil line of the longer text is one of the shorter text.
  have hbefore {passed behind : Text} {found : Match}
      (heq : x ++ (line ++ ['\n']) = passed ++ behind) (hpassed : passed.IsWhole)
      (hfound : (sigilLine sigils).matchHere? true behind = some found) :
      ∃ m, (sigilLine sigils).last? x = some m ∧ passed.length ≤ m.start := by
    rcases Text.wholePart_cases hline hpassed heq with rfl | ⟨-, rfl⟩ | ⟨between, hne, rfl, rfl⟩
    · rw [matchHere?_nil hsigils] at hfound
      simp at hfound
    · rw [hnone] at hfound
      simp at hfound
    · rw [matchHere?_append hsigils (hx.of_append.getLast? hne)] at hfound
      exact exists_last? hsigils hpassed hfound
  cases hlast : (sigilLine sigils).last? x with
  | none =>
      rw [← Option.not_isSome_iff_eq_none]
      intro hsome
      obtain ⟨m, hm⟩ := Option.isSome_iff_exists.mp hsome
      obtain ⟨passed, behind, found, heq, hpassed, hfound, -⟩ := last?_eq_some hsigils hm
      obtain ⟨_, hm, -⟩ := hbefore heq hpassed hfound
      rw [hlast] at hm
      simp at hm
  | some m =>
      obtain ⟨passed, behind, found, rfl, hpassed, hfound, rfl⟩ := last?_eq_some hsigils hlast
      have hne : behind ≠ [] := by
        rintro rfl
        rw [matchHere?_nil hsigils] at hfound
        simp at hfound
      rw [← matchHere?_append hsigils (hx.of_append.getLast? hne) (line ++ ['\n'])] at hfound
      rw [List.append_assoc]
      apply last?_eq_some_of_max hsigils hpassed hfound
      intro passed' behind' found' heq hpassed' hfound'
      rw [← List.append_assoc] at heq
      obtain ⟨m, hm, hle⟩ := hbefore heq hpassed' hfound'
      rw [hlast, Option.some.injEq] at hm
      rwa [← hm] at hle

end Pattern

namespace Indentation

variable {g : Grammar} {x line : Text}

theorem anchor?_concat_of_match (hg : g.VisibleSigils) (hx : x.IsWhole)
    (hclosed : Literal.isOpenAfter g x = false) (hline : '\n' ∉ line) {found : Match}
    (hfound : g.sigilLine.matchHere? true (line ++ ['\n']) = some found) :
    anchor? g (x ++ (line ++ ['\n'])) = some ⟨x, (line ++ ['\n']).take (found.indent.getD 0)⟩ := by
  obtain ⟨sigils, hpattern, hsigils, -⟩ := Pattern.sigilLine_eq hg
  rw [hpattern] at hfound
  rw [anchor?, hpattern, Pattern.last?_concat_of_match hsigils hx hline hfound]
  simp only [List.take_left, List.drop_left, hclosed, Bool.false_eq_true, ↓reduceIte]

theorem anchor?_concat_of_open (hg : g.VisibleSigils) (hx : x.IsWhole)
    (hopen : Literal.isOpenAfter g x = true) (hline : '\n' ∉ line) {found : Match}
    (hfound : g.sigilLine.matchHere? true (line ++ ['\n']) = some found) :
    anchor? g (x ++ (line ++ ['\n'])) = anchor? g x := by
  obtain ⟨sigils, hpattern, hsigils, -⟩ := Pattern.sigilLine_eq hg
  rw [hpattern] at hfound
  rw [anchor?, hpattern, Pattern.last?_concat_of_match hsigils hx hline hfound]
  simp only [List.take_left, hopen, ↓reduceIte]
  rw [if_pos (by simp)]

theorem anchor?_concat_of_no_match (hg : g.VisibleSigils) (hx : x.IsWhole) (hline : '\n' ∉ line)
    (hnone : g.sigilLine.matchHere? true (line ++ ['\n']) = none) :
    anchor? g (x ++ (line ++ ['\n'])) = anchor? g x := by
  obtain ⟨sigils, hpattern, hsigils, -⟩ := Pattern.sigilLine_eq hg
  rw [hpattern] at hnone
  have hlast := Pattern.last?_concat_of_no_match hsigils hx hline hnone
  cases hx' : (Pattern.sigilLine sigils).last? x with
  | none =>
      rw [hx'] at hlast
      rw [anchor?, hpattern, hlast, anchor?, hpattern, hx']
  | some m =>
      rw [hx'] at hlast
      obtain ⟨passed, behind, found, rfl, -, hfound, rfl⟩ := Pattern.last?_eq_some hsigils hx'
      have hindent : found.indent.getD 0 ≤ behind.length := by
        rw [Pattern.matchHere?_sigilLine hsigils] at hfound
        obtain ⟨length, -, rfl⟩ := Option.map_eq_some_iff.mp hfound
        exact (List.takeWhile_prefix _).length_le
      have hlength : passed.length < (passed ++ behind).length := by
        have hon := Pattern.match_onLine hsigils hfound
        rw [List.length_append]
        omega
      have hlonger : passed.length < (passed ++ (behind ++ (line ++ ['\n']))).length := by
        rw [List.length_append] at hlength ⊢
        rw [List.length_append]
        omega
      rw [anchor?, hpattern, hlast, anchor?, hpattern, hx']
      simp only [List.append_assoc, List.take_left, List.drop_left, if_pos hlength, if_pos hlonger,
        List.take_append_of_le_length hindent]

/-- Whether code embedded in a string is open at the anchor. -/
def Anchor.inCode (g : Grammar) (a : Anchor) : Bool :=
  Literal.openFrames ((tokenize g a.above 1).map Token.kind) != []

/-- The text that decides about the line below `above`: from the anchor on, or all of it. -/
def span (g : Grammar) (above : Text) : Text :=
  match anchor? g above with
  | some a => above.drop a.above.length
  | none => above

theorem survey_tokens (g : Grammar) (above : Text) :
    (survey g above).tokens =
      tokenize g (span g above) ((anchor? g above).elim 1 Anchor.line) := by
  unfold survey span
  cases anchor? g above <;> rfl

theorem survey_anchor (g : Grammar) (above : Text) :
    (survey g above).anchor = anchor? g above := by
  unfold survey
  cases anchor? g above <;> rfl

theorem span_of_anchor?_eq_none {above : Text} (h : anchor? g above = none) :
    span g above = above := by
  rw [span, h]

theorem above_append_span {above : Text} (hg : g.VisibleSigils) {a : Anchor}
    (h : anchor? g above = some a) : a.above ++ span g above = above := by
  obtain ⟨behind, rfl, -⟩ := anchor?_eq_some hg h
  rw [span, h]
  simp

theorem isWhole_span {above : Text} (hg : g.VisibleSigils) (h : above.IsWhole) :
    (span g above).IsWhole := by
  cases hanchor : anchor? g above with
  | none => rwa [span_of_anchor?_eq_none hanchor]
  | some a =>
      rw [← above_append_span hg hanchor] at h
      exact h.of_append

end Indentation

end MarkupLayout

import Mathlib.Data.Finset.Sort
import MarkupLayout.Outline
import MarkupLayout.Proofs.LineHead
/-!
# Lines of definitions

A text has at most one definition on each line: a second sigil trails the first, unless a line break
is between them.  The lines of the definitions therefore increase, and the jumps, which pass over
the list of these lines once, count among all definitions behind or before a line.
-/

namespace MarkupLayout

/-! ## Lines along a token list -/

theorem getLast?_of_isLineBreak {g : Grammar} {ctx : ScanContext} (hctx : ctx.WellQuoted) {t : Text}
    {before behind : List Piece} {piece keyword : Piece}
    (h : scanFrom g ctx t = before ++ piece :: behind) (hbreak : piece.kind.isLineBreak = true)
    (hmem : keyword ∈ behind) (hkeyword : keyword.kind.isKeyword = true) :
    piece.text.getLast? = some '\n' := by
  obtain ⟨_, ctx', c, rest, inner, more, hrun, -, hpieces, rfl⟩ := Scans.exists_step h
  obtain ⟨_, hshape⟩ := ctx'.step_shape g (hrun.wellQuoted hctx) c rest
  cases hshape.part (show piece ∈ (ctx'.step g c rest).pieces by simp [hpieces]) with
  | plain _ _ hfits => exact hfits.lineBreak hbreak
  | gap text hend =>
      refine hend.resolve_right fun hnil => ?_
      -- The keyword would have to be a piece of the same step.
      rw [hnil, scanFrom_nil, List.append_nil] at hmem
      obtain ⟨mid, behind, rfl⟩ := List.append_of_mem hmem
      rw [← List.cons_append, ← List.append_assoc] at hpieces
      have hinner := (hshape.eq_of_isKeyword hpieces hkeyword).1
      simp at hinner
  | _ => simp [TokenKind.isLineBreak] at hbreak

namespace Token

variable {p : Position} {pieces : List Piece} {before mid behind : List Token} {a b : Token}

theorem line_add_count_le (h : place p pieces = before ++ a :: (mid ++ b :: behind)) :
    a.line + a.text.count '\n' ≤ b.line := by
  have ha := congrArg Position.line (position_of_place h)
  have hsplit : place p pieces = (before ++ a :: mid) ++ b :: behind := by simp [h]
  have hb := congrArg Position.line (position_of_place hsplit)
  rw [Position.line_after] at ha hb
  simp only [List.flatMap_append, List.flatMap_cons, List.count_append] at ha hb
  omega

theorem line_lt_of_isLineBreak {g : Grammar} {t : Text} {firstLine : Nat}
    (h : tokenize g t firstLine = before ++ a :: (mid ++ b :: behind))
    (hbreak : a.kind.isLineBreak = true) (hkeyword : b.kind.isKeyword = true) :
    a.line < b.line := by
  have hle := line_add_count_le h
  obtain ⟨_, piece, _, hpieces, -, rfl, hmore⟩ := exists_of_place_cons h
  obtain ⟨_, keyword, _, rfl, -, rfl, -⟩ := exists_of_place_cons hmore.symm
  have hlast := getLast?_of_isLineBreak ScanContext.wellQuoted_initial hpieces hbreak
    (List.mem_append_right _ List.mem_cons_self) hkeyword
  have hpos := List.count_pos_iff.mpr (List.mem_of_getLast? hlast)
  simp only [ofPiece] at hle ⊢
  omega

theorem on_line_of_between {g : Grammar} {t : Text} {firstLine : Nat}
    (h : tokenize g t firstLine = before ++ a :: (mid ++ b :: behind))
    (hkeyword : b.kind.isKeyword = true) (hline : a.line = b.line) :
    ∀ other ∈ mid, other.line = b.line ∧ other.kind.isLineBreak = false := by
  intro other hother
  obtain ⟨left, right, rfl⟩ := List.append_of_mem hother
  have hfirst : tokenize g t firstLine =
      before ++ a :: (left ++ other :: (right ++ b :: behind)) := by
    rw [h]
    simp
  have hsecond : tokenize g t firstLine =
      (before ++ a :: left) ++ other :: (right ++ b :: behind) := by
    rw [hfirst]
    simp
  have hlow := line_add_count_le hfirst
  have hhigh := line_add_count_le hsecond
  refine ⟨by omega, Bool.eq_false_iff.mpr fun hbreak => ?_⟩
  have hlt := line_lt_of_isLineBreak hsecond hbreak hkeyword
  omega

end Token

namespace Neighbourhood

theorem exists_of_mem_allFrom {before tokens : List Token} {n : Neighbourhood}
    (h : n ∈ allFrom before tokens) :
    ∃ mid, n.before = mid ++ before ∧ tokens = mid.reverse ++ n.token :: n.behind := by
  induction tokens generalizing before with
  | nil => simp [allFrom] at h
  | cons t tokens ih =>
      rcases List.mem_cons.mp h with rfl | h
      · exact ⟨[], rfl, rfl⟩
      · obtain ⟨mid, hbefore, htokens⟩ := ih h
        exact ⟨mid ++ [t], by simp [hbefore], by simp [htokens]⟩

theorem pairwise_allFrom (before tokens : List Token) :
    (allFrom before tokens).Pairwise fun n n' => ∃ mid,
      n'.before = mid ++ n.token :: n.before ∧ n.behind = mid.reverse ++ n'.token :: n'.behind := by
  induction tokens generalizing before with
  | nil => exact .nil
  | cons t tokens ih =>
      refine List.pairwise_cons.mpr ⟨fun n' h => ?_, ih (t :: before)⟩
      exact exists_of_mem_allFrom h

theorem isDefinition_iff {n : Neighbourhood} :
    n.isDefinition = true ↔
      n.token.kind = .keyword .blockSigil ∧ n.isSymbol = false ∧ n.isModifier = false := by
  simp [isDefinition, Token.isBlockSigil, and_assoc]

theorem isModifier_of_sigil {n : Neighbourhood} {mid far : List Token} {sigil : Token}
    (hbefore : n.before = mid ++ sigil :: far) (hkind : sigil.kind = .keyword .blockSigil)
    (hline : sigil.line = n.token.line)
    (hmid : ∀ t ∈ mid, t.line = n.token.line ∧ t.kind.isLineBreak = false) :
    n.isModifier = true := by
  have hnear : ∀ t ∈ mid, (t.line == n.token.line && !t.kind.isLineBreak) = true := by
    intro t ht
    simp [hmid t ht]
  rw [isModifier, hbefore, List.takeWhile_append_of_pos hnear,
    List.takeWhile_cons_of_pos (by simp [hline, hkind, TokenKind.isLineBreak])]
  simp [hkind, mayPrecedeOpener, TokenKind.isTrivia]

end Neighbourhood

namespace Outline

theorem definitionLines_sorted (g : Grammar) (t : Text) :
    (definitionLines g t).Pairwise (· < ·) := by
  rw [definitionLines, List.pairwise_map, List.pairwise_filter]
  refine (Neighbourhood.pairwise_allFrom [] (tokenize g t 1)).imp_of_mem ?_
  rintro n n' hmem - ⟨mid, hbefore, hbehind⟩ hdefinition hdefinition'
  obtain ⟨hkind, -, -⟩ := Neighbourhood.isDefinition_iff.mp hdefinition
  obtain ⟨hkind', -, hfirst⟩ := Neighbourhood.isDefinition_iff.mp hdefinition'
  have hkeyword : n'.token.kind.isKeyword = true := by
    rw [hkind']
    rfl
  have htokens : tokenize g t 1 = n.before.reverse ++ n.token ::
      (mid.reverse ++ n'.token :: n'.behind) := by
    rw [← hbehind]
    exact (Neighbourhood.eq_of_mem_allFrom hmem).symm
  have hle := Token.line_add_count_le htokens
  -- On one line, the second sigil would trail the first.
  by_contra hnot
  have hline : n.token.line = n'.token.line := by omega
  have hmid := Token.on_line_of_between htokens hkeyword hline
  have hmodifier := Neighbourhood.isModifier_of_sigil hbefore hkind hline
    fun other hother => hmid other (List.mem_reverse.mpr hother)
  exact Bool.eq_false_iff.mp hfirst hmodifier

end Outline

/-! ## Jumps over sorted lines -/

namespace Outline

section Walk

variable {r : Nat → Nat → Prop} [DecidableRel r] [IsTrans Nat r] {lines : List Nat}

theorem dropWhile_eq_filter (h : lines.Pairwise r) (line : Nat) :
    lines.dropWhile (fun other => !decide (r line other)) = lines.filter (r line ·) := by
  induction lines with
  | nil => rfl
  | cons first lines ih =>
      by_cases hfirst : r line first
      · have hall : ∀ other ∈ first :: lines, decide (r line other) = true := by
          intro other hother
          rcases List.mem_cons.mp hother with rfl | hother
          · exact decide_eq_true hfirst
          · exact decide_eq_true
              (IsTrans.trans _ _ _ hfirst (List.rel_of_pairwise_cons h hother))
        rw [List.filter_eq_self.mpr hall, List.dropWhile_cons_of_neg (by simp [hfirst])]
      · rw [List.dropWhile_cons_of_pos (by simp [hfirst]),
          List.filter_cons_of_neg (by simp [hfirst]), ih h.of_cons]

/-- A walk that goes on from the line it found with the lines left counts among all lines behind
its start. -/
theorem walk_succ {walk : List Nat → Nat → Nat → Destination} {stuck : Destination}
    (hzero : ∀ lines line, walk lines line 0 = .line line)
    (hsucc : ∀ lines line count, walk lines line (count + 1) =
      match lines.dropWhile (fun other => !decide (r line other)) with
      | [] => stuck
      | found :: others => walk others found count)
    (h : lines.Pairwise r) (line count : Nat) :
    walk lines line (count + 1) = (lines.filter (r line ·))[count]?.elim stuck .line := by
  induction count generalizing lines line with
  | zero =>
      rw [hsucc, dropWhile_eq_filter h]
      cases lines.filter (r line ·) with
      | nil => rfl
      | cons found others => exact hzero others found
  | succ count ih =>
      rw [hsucc, dropWhile_eq_filter h]
      cases hfilter : lines.filter (r line ·) with
      | nil => rfl
      | cons found others =>
          have hsorted : (found :: others).Pairwise r := hfilter ▸ h.filter _
          have hothers : others.filter (r found ·) = others :=
            List.filter_eq_self.mpr fun other hother =>
              decide_eq_true (List.rel_of_pairwise_cons hsorted hother)
          rw [List.getElem?_cons_succ]
          simpa only [hothers] using ih hsorted.of_cons found

end Walk

variable (g : Grammar) (t : Text) (line count : Nat)

theorem forward_succ :
    forward g t line (count + 1) =
      ((definitionLines g t).filter (line < ·))[count]?.elim .stop .line := by
  refine walk_succ (fun _ _ => rfl) (fun lines line count => ?_) (definitionLines_sorted g t)
    line count
  simp only [← decide_not, not_lt]
  rfl

theorem backward_succ :
    backward g t line (count + 1) =
      ((definitionLines g t).reverse.filter (· < line))[count]?.elim .start .line := by
  refine walk_succ (r := (· > ·)) (fun _ _ => rfl) (fun lines line count => ?_)
    (List.pairwise_reverse.mpr (definitionLines_sorted g t)) line count
  simp only [← decide_not, gt_iff_lt, not_lt]
  rfl

/-! ## Successors and predecessors -/

def linesBehind : List Nat :=
  ((definitionLines g t).toFinset.filter (line < ·)).sort (· ≤ ·)

def linesBefore : List Nat :=
  ((definitionLines g t).toFinset.filter (· < line)).sort (· ≥ ·)

theorem linesBehind_eq_filter :
    linesBehind g t line = (definitionLines g t).filter (line < ·) := by
  have hsorted := (definitionLines_sorted g t).filter (line < ·)
  have hset := List.toFinset_filter (definitionLines g t) (line < ·)
  simp only [decide_eq_true_eq] at hset
  rw [linesBehind, ← hset]
  exact (List.toFinset_sort (· ≤ ·) (hsorted.imp Nat.ne_of_lt)).mpr (hsorted.imp Nat.le_of_lt)

theorem linesBefore_eq_filter :
    linesBefore g t line = (definitionLines g t).reverse.filter (· < line) := by
  have hsorted := (List.pairwise_reverse.mpr (definitionLines_sorted g t)).filter (· < line)
  have hset := List.toFinset_filter (definitionLines g t).reverse (· < line)
  simp only [decide_eq_true_eq, List.toFinset_reverse] at hset
  rw [linesBefore, ← hset]
  exact (List.toFinset_sort (· ≥ ·) (hsorted.imp Nat.ne_of_gt)).mpr (hsorted.imp Nat.le_of_lt)

/-- A jump by `count` ends on the `count`-th definition behind or before its line, or at an end of
the text if there are fewer. -/
theorem jumps_count_definitions :
    (definitionLines g t).Pairwise (· < ·) ∧
      (forward g t line 0 = .line line ∧
        ∀ n, forward g t line (n + 1) = (linesBehind g t line)[n]?.elim .stop .line) ∧
      (backward g t line 0 = .line line ∧
        ∀ n, backward g t line (n + 1) = (linesBefore g t line)[n]?.elim .start .line) := by
  refine ⟨definitionLines_sorted g t, ⟨rfl, fun n => ?_⟩, rfl, fun n => ?_⟩
  · rw [forward_succ, linesBehind_eq_filter]
  · rw [backward_succ, linesBefore_eq_filter]

end Outline

end MarkupLayout

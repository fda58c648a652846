import Mathlib.Order.Bounds.Basic
import MarkupLayout.Proofs.Scopes
/-!
# Marks that pair up

The walk back over marks is a matching of brackets.  It passes marks that pair up as if they were
not there, keeps the closers that stand between such parts, and is stopped by the first opener
behind which either everything pairs up or the first closer left is not the one it needs.  These
ways to end exclude each other, and one of them always occurs.

A line break cuts the walk: what it finds behind one it finds in the whole list too, and only if it
finds nothing there does the list before the line break have a part in the scope.
-/

namespace MarkupLayout

namespace Nesting

inductive Balanced : List Mark → Prop
  | nil : Balanced []
  | neutral : Balanced [.neutral]
  | append {left right : List Mark} (hleft : Balanced left) (hright : Balanced right) :
      Balanced (left ++ right)
  | enclose {inner : List Mark} (h : Balanced inner) (needs : Closer) :
      Balanced (.opens needs :: (inner ++ [.closes needs]))

/-- Parts that pair up with one closer between any two of them, which closes nothing there.  The
closers come with their indices, the first mark having the index `start`. -/
inductive Separated : (start : Nat) → List (Nat × Closer) → List Mark → Prop
  | balanced {part : List Mark} (h : Balanced part) (start : Nat) : Separated start [] part
  | closes {start : Nat} {part more : List Mark} {closers : List (Nat × Closer)}
      (h : Balanced part) (closer : Closer)
      (hmore : Separated (start + part.length + 1) closers more) :
      Separated start ((start + part.length, closer) :: closers) (part ++ .closes closer :: more)

def Encloses (marks : List Mark) (index : Nat) : Prop :=
  ∃ needs, marks[index]? = some (.opens needs) ∧ Balanced (marks.drop (index + 1))

/-- The mark at an index is an opener, and the first closer that closes nothing behind it is not the
one it needs. -/
def Crosses (marks : List Mark) (index : Nat) : Prop :=
  ∃ needs first closers, marks[index]? = some (.opens needs) ∧
    Separated (index + 1) (first :: closers) (marks.drop (index + 1)) ∧ first.2 ≠ needs

def WalkEnd.Describes (marks : List Mark) : WalkEnd → Prop
  | enclosed index => Encloses marks index
  | crossed index => Crosses marks index
  | unopened closers => Separated 0 closers marks

theorem resolve_eq (g : Grammar) (tokens : List Token) :
    resolve g tokens = (walkEnd [] (marks g tokens).reverse).result :=
  resolveBack_eq _ _

/-! ## What pairs up is passed -/

theorem walkEnd_balanced {part : List Mark} (h : Balanced part) (pending : List (Nat × Closer))
    (far : List Mark) : walkEnd pending (part.reverse ++ far) = walkEnd pending far := by
  induction h generalizing pending far with
  | nil => rfl
  | neutral => rfl
  | append _ _ ihleft ihright => rw [List.reverse_append, List.append_assoc, ihright, ihleft]
  | @enclose inner _ needs ih =>
      have hreverse : (Mark.opens needs :: (inner ++ [.closes needs])).reverse ++ far =
          .closes needs :: (inner.reverse ++ .opens needs :: far) := by simp
      rw [hreverse, walkEnd, ih, walkEnd, if_pos rfl]

theorem walkEnd_separated {marks : List Mark} (far : List Mark) {closers : List (Nat × Closer)}
    (h : Separated far.length closers marks) (pending : List (Nat × Closer)) :
    walkEnd pending (marks.reverse ++ far) = walkEnd (closers ++ pending) far := by
  generalize hstart : far.length = start at h
  induction h generalizing far with
  | balanced h => exact walkEnd_balanced h pending far
  | @closes start part more closers h closer _ ih =>
      have hlength : (part.reverse ++ far).length = start + part.length := by
        rw [List.length_append, List.length_reverse, hstart, Nat.add_comm]
      have hreverse : (part ++ Mark.closes closer :: more).reverse ++ far =
          more.reverse ++ .closes closer :: (part.reverse ++ far) := by simp
      rw [hreverse, ih _ (by rw [List.length_cons, hlength]), walkEnd, hlength, walkEnd_balanced h]
      rfl

/-! ## What the walk has passed -/

theorem Separated.balanced_append {start : Nat} {part more : List Mark}
    {closers : List (Nat × Closer)} (hpart : Balanced part)
    (hmore : Separated (start + part.length) closers more) :
    Separated start closers (part ++ more) := by
  cases hmore with
  | balanced h => exact .balanced (hpart.append h) start
  | @closes _ first more closers h closer hmore =>
      have happend := @Separated.closes start _ more closers (hpart.append h) closer
        (by rwa [List.length_append, ← Nat.add_assoc])
      rwa [List.length_append, ← Nat.add_assoc, List.append_assoc] at happend

theorem Separated.enclose {start index : Nat} {needs : Closer} {closers : List (Nat × Closer)}
    {marks : List Mark} (h : Separated (start + 1) ((index, needs) :: closers) marks) :
    Separated start closers (.opens needs :: marks) := by
  cases h with
  | @closes _ part more _ hpart _ hmore =>
      have hsplit : Mark.opens needs :: (part ++ Mark.closes needs :: more) =
          (.opens needs :: (part ++ [.closes needs])) ++ more := by simp
      rw [hsplit]
      apply Separated.balanced_append (hpart.enclose needs)
      have hlength : start + (Mark.opens needs :: (part ++ [.closes needs])).length =
          start + 1 + part.length + 1 := by
        rw [List.length_cons, List.length_append, List.length_singleton]
        omega
      rwa [hlength]

/-- The marks that the walk has passed are parts that pair up and the closers it keeps, so where it
ends tells what all the marks are. -/
theorem describes_walkEnd {closers : List (Nat × Closer)} {before behind : List Mark}
    (h : Separated before.length closers behind) :
    (walkEnd closers before).Describes (before.reverse ++ behind) := by
  have hget (needs : Closer) (before behind : List Mark) :
      (before.reverse ++ Mark.opens needs :: behind)[before.length]? = some (.opens needs) := by
    rw [← List.length_reverse, List.getElem?_append_right (Nat.le_refl _)]
    simp
  have hdrop (needs : Closer) (before behind : List Mark) :
      (before.reverse ++ Mark.opens needs :: behind).drop (before.length + 1) = behind := by
    rw [← List.length_reverse, List.drop_length_add_append]
    rfl
  fun_induction walkEnd closers before generalizing behind with
  | case1 closers => exact h
  | case2 closers before ih =>
      rw [List.reverse_cons, List.append_assoc]
      exact ih (Separated.balanced_append .neutral h)
  | case3 closers closer before ih =>
      rw [List.reverse_cons, List.append_assoc]
      exact ih (.closes .nil closer h)
  | case4 needs before =>
      rw [List.reverse_cons, List.append_assoc, List.singleton_append]
      cases h with
      | balanced h =>
          refine ⟨needs, hget needs before behind, ?_⟩
          rwa [hdrop]
  | case5 index others needs before ih =>
      rw [List.reverse_cons, List.append_assoc]
      exact ih h.enclose
  | case6 needs before index closer others hne =>
      rw [List.reverse_cons, List.append_assoc, List.singleton_append]
      refine ⟨needs, (index, closer), others, hget needs before behind, ?_, hne⟩
      rwa [hdrop]

/-! ## Where the walk ends -/

theorem reverse_of_getElem? {marks : List Mark} {index : Nat} {mark : Mark}
    (h : marks[index]? = some mark) :
    ∃ far, marks.reverse = (marks.drop (index + 1)).reverse ++ mark :: far ∧
      far.length = index := by
  obtain ⟨hlt, rfl⟩ := List.getElem?_eq_some_iff.mp h
  refine ⟨(marks.take index).reverse, ?_, ?_⟩
  · have hsplit := List.take_append_drop index marks
    rw [List.drop_eq_getElem_cons hlt] at hsplit
    nth_rewrite 1 [← hsplit]
    simp
  · rw [List.length_reverse, List.length_take_of_le hlt.le]

theorem walkEnd_eq_iff (marks : List Mark) (walked : WalkEnd) :
    walkEnd [] marks.reverse = walked ↔ walked.Describes marks := by
  constructor
  · rintro rfl
    have hdescribes := describes_walkEnd (.balanced .nil marks.reverse.length)
    rwa [List.reverse_reverse, List.append_nil] at hdescribes
  intro h
  cases walked with
  | enclosed index =>
      obtain ⟨needs, hget, hbehind⟩ := h
      obtain ⟨far, hreverse, rfl⟩ := reverse_of_getElem? hget
      rw [hreverse, walkEnd_balanced hbehind, walkEnd]
  | crossed index =>
      obtain ⟨needs, first, closers, hget, hbehind, hne⟩ := h
      obtain ⟨far, hreverse, rfl⟩ := reverse_of_getElem? hget
      have hwalk := walkEnd_separated (.opens needs :: far) hbehind []
      rw [hreverse, hwalk, List.append_nil, walkEnd, if_neg hne]
  | unopened closers =>
      have hwalk := walkEnd_separated [] h []
      rwa [List.append_nil, List.append_nil] at hwalk

theorem existsUnique_describes (marks : List Mark) :
    ∃! walked : WalkEnd, walked.Describes marks :=
  ⟨_, (walkEnd_eq_iff marks _).mp rfl, fun _ h => ((walkEnd_eq_iff marks _).mpr h).symm⟩

/-! ## The closers that are left -/

theorem Separated.le_of_mem {start : Nat} {closers : List (Nat × Closer)} {marks : List Mark}
    (h : Separated start closers marks) : ∀ closer ∈ closers, start ≤ closer.1 := by
  induction h with
  | balanced => simp
  | closes _ closer _ ih =>
      intro other hmem
      rcases List.mem_cons.mp hmem with rfl | hmem
      · exact Nat.le_add_right _ _
      · have hle := ih other hmem
        omega

theorem Separated.sorted {start : Nat} {closers : List (Nat × Closer)} {marks : List Mark}
    (h : Separated start closers marks) : closers.Pairwise (·.1 < ·.1) := by
  induction h with
  | balanced => exact .nil
  | closes _ closer hmore ih => exact .cons hmore.le_of_mem ih

theorem firstExtraCloser_unopened_iff {closers : List (Nat × Closer)}
    (h : closers.Pairwise (·.1 < ·.1)) (index : Nat) :
    (unopened closers).firstExtraCloser = some index ↔
      IsLeast {i | (i, Closer.block) ∈ closers} index := by
  induction closers with
  | nil =>
      refine ⟨fun hnone => by simp [unopened] at hnone, fun hleast => ?_⟩
      exact absurd hleast.1 List.not_mem_nil
  | cons first closers ih =>
      obtain ⟨i, closer⟩ := first
      obtain ⟨hfirst, hmore⟩ := List.pairwise_cons.mp h
      cases closer with
      | bracket kind =>
          have hset : {j | (j, Closer.block) ∈ (i, Closer.bracket kind) :: closers} =
              {j | (j, Closer.block) ∈ closers} := by
            ext j
            simp
          rw [hset, ← ih hmore]
          rfl
      | block =>
          have hleast : IsLeast {j | (j, Closer.block) ∈ (i, Closer.block) :: closers} i := by
            refine ⟨List.mem_cons_self, fun j hj => ?_⟩
            rcases List.mem_cons.mp hj with heq | hmem
            · exact (congrArg Prod.fst heq).ge
            · exact (hfirst _ hmem).le
          have hhead : (unopened ((i, Closer.block) :: closers)).firstExtraCloser = some i := rfl
          rw [hhead, Option.some.injEq]
          exact ⟨fun heq => heq ▸ hleast, hleast.unique⟩

theorem extraClosers_unopened (closers : List (Nat × Closer)) :
    (unopened closers).extraClosers = closers.countP (·.2 == .block) :=
  List.countP_eq_length_filter.symm

/-! ## Scopes -/

variable {g : Grammar} {tokens : List Token}

theorem resolve_eq_ok_enclosed_iff {index : Nat} :
    resolve g tokens = .ok ⟨some index, 0, none⟩ ↔ Encloses (marks g tokens) index := by
  rw [resolve_eq]
  refine Iff.trans ?_ (walkEnd_eq_iff _ (.enclosed index))
  cases walkEnd [] (marks g tokens).reverse <;> simp [WalkEnd.result, unopened]

theorem resolve_eq_error_iff {index : Nat} :
    resolve g tokens = .error index ↔ Crosses (marks g tokens) index := by
  rw [resolve_eq]
  refine Iff.trans ?_ (walkEnd_eq_iff _ (.crossed index))
  cases walkEnd [] (marks g tokens).reverse <;> simp [WalkEnd.result]

theorem resolve_eq_ok_unopened_iff {extra : Nat} {first : Option Nat} :
    resolve g tokens = .ok ⟨none, extra, first⟩ ↔
      ∃ closers, Separated 0 closers (marks g tokens) ∧
        unopened closers = ⟨none, extra, first⟩ := by
  have hends (closers : List (Nat × Closer)) :=
    walkEnd_eq_iff (marks g tokens) (.unopened closers)
  simp only [WalkEnd.Describes] at hends
  simp only [← hends, resolve_eq]
  cases walkEnd [] (marks g tokens).reverse <;> simp [WalkEnd.result]

theorem enclosingScope_eq_error_iff {mismatch : Mismatch} :
    enclosingScope g tokens = .error mismatch ↔
      ∃ index token, resolve g tokens = .error index ∧ tokens[index]? = some token ∧
        mismatch = .ofToken token := by
  unfold enclosingScope
  cases hresolve : resolve g tokens with
  | ok scope => simp
  | error index =>
      obtain ⟨needs, _, _, hget, -⟩ := resolve_eq_error_iff.mp hresolve
      rw [getElem?_marks, Option.map_eq_some_iff] at hget
      obtain ⟨token, htoken, -⟩ := hget
      simp [htoken, eq_comm]

/-- The scope of a token list is what matching its brackets says.  An opener is the scope exactly if
everything behind it pairs up.  There is no opener exactly if the tokens are parts that pair up with
closers between them; the closer keywords among these are counted, and the first of them is told.
An opener is an error exactly if the first closer that closes nothing behind it is not the one it
needs.  Exactly one of the three is the case.  Which tokens are openers and closers, and what they
need, say `getElem?_marks`, `mark_eq_opens_iff` and `mark_eq_closes_iff`. -/
theorem enclosingScope_matches_brackets (g : Grammar) (tokens : List Token) :
    (∀ index, enclosingScope g tokens = .ok ⟨some index, 0, none⟩ ↔
      Encloses (marks g tokens) index) ∧
    (∀ extra first, enclosingScope g tokens = .ok ⟨none, extra, first⟩ ↔
      ∃ closers, Separated 0 closers (marks g tokens) ∧
        extra = closers.countP (·.2 == .block) ∧
        ∀ index, first = some index ↔ IsLeast {i | (i, Closer.block) ∈ closers} index) ∧
    (∀ mismatch, enclosingScope g tokens = .error mismatch ↔
      ∃ index token, Crosses (marks g tokens) index ∧ tokens[index]? = some token ∧
        mismatch = .ofToken token) ∧
    ∃! walked : WalkEnd, walked.Describes (marks g tokens) := by
  refine ⟨fun index => ?_, fun extra first => ?_, fun mismatch => ?_, existsUnique_describes _⟩
  · rw [enclosingScope_eq_ok_iff, resolve_eq_ok_enclosed_iff]
  · rw [enclosingScope_eq_ok_iff, resolve_eq_ok_unopened_iff]
    refine exists_congr fun closers => and_congr_right fun h => ?_
    have hfirst := firstExtraCloser_unopened_iff h.sorted
    simp only [← hfirst, ← extraClosers_unopened]
    constructor
    · intro hunopened
      simp [hunopened]
    · rintro ⟨rfl, hsame⟩
      rw [Option.ext hsame]
      rfl
  · simp only [enclosingScope_eq_error_iff, resolve_eq_error_iff]

/-! ## Scopes behind a line break -/

theorem walkEnd_marks_append {left : List Token} (h : EndsLine left) (right : List Token) :
    walkEnd [] (marks g (left ++ right)).reverse =
      (walkEnd [] (marks g right).reverse).followedBy (marks g left).reverse := by
  rw [marks_append g h, List.reverse_append]
  exact walkEnd_append [] _ _

theorem resolve_append_of_opener {left right : List Token} (h : EndsLine left) {scope : Scope}
    {index : Nat} (hscope : resolve g right = .ok scope) (hopener : scope.opener = some index) :
    resolve g (left ++ right) = .ok ⟨some (left.length + index), 0, none⟩ := by
  have hwalk := walkEnd_marks_append (g := g) h right
  rw [resolve_eq] at hscope ⊢
  cases hend : walkEnd [] (marks g right).reverse with
  | enclosed found =>
      rw [hend] at hscope hwalk
      obtain rfl := Except.ok.inj hscope
      obtain rfl := Option.some.inj hopener
      rw [hwalk, WalkEnd.followedBy, List.length_reverse, length_marks, Nat.add_comm]
      rfl
  | crossed found => simp [hend, WalkEnd.result] at hscope
  | unopened closers =>
      rw [hend] at hscope
      obtain rfl := Except.ok.inj hscope
      simp [unopened] at hopener

/-- What is found behind a line break is found in the whole: an opener, at its place in the whole,
and the same error.  If the walk over what is behind the line break leaves nothing, the whole has
the scope of what is before it. -/
theorem enclosingScope_append {left : List Token} (h : EndsLine left) (right : List Token) :
    (∀ scope index, enclosingScope g right = .ok scope → scope.opener = some index →
      enclosingScope g (left ++ right) = .ok ⟨some (left.length + index), 0, none⟩) ∧
    (∀ mismatch, enclosingScope g right = .error mismatch →
      enclosingScope g (left ++ right) = .error mismatch) ∧
    (walkEnd [] (marks g right).reverse = .unopened [] →
      enclosingScope g (left ++ right) = enclosingScope g left) := by
  have hwalk := walkEnd_marks_append (g := g) h right
  have hlength : (marks g left).reverse.length = left.length := by
    rw [List.length_reverse, length_marks]
  refine ⟨fun scope index hscope hopener => ?_, fun mismatch herror => ?_, fun hnothing => ?_⟩
  · rw [enclosingScope_eq_ok_iff] at hscope ⊢
    exact resolve_append_of_opener h hscope hopener
  · obtain ⟨index, token, hresolve, htoken, rfl⟩ := enclosingScope_eq_error_iff.mp herror
    have hwhole := resolveBack_append_of_error hresolve (marks g left).reverse
    refine enclosingScope_eq_error_iff.mpr ⟨index + left.length, token, ?_, ?_, rfl⟩
    · rw [resolve_append h, ← hlength]
      exact hwhole
    · rw [List.getElem?_append_right (Nat.le_add_left _ _), Nat.add_sub_cancel, htoken]
  · rw [hnothing] at hwalk
    have hresolve : resolve g (left ++ right) = resolve g left := by
      rw [resolve_eq, hwalk, resolve_eq]
      rfl
    cases hleft : enclosingScope g left with
    | ok scope =>
        rw [enclosingScope_eq_ok_iff, hresolve, ← enclosingScope_eq_ok_iff, hleft]
    | error mismatch =>
        obtain ⟨index, token, herror, htoken, rfl⟩ := enclosingScope_eq_error_iff.mp hleft
        refine enclosingScope_eq_error_iff.mpr ⟨index, token, hresolve.trans herror, ?_, rfl⟩
        have hindex := (List.getElem?_eq_some_iff.mp htoken).1
        rw [List.getElem?_append_left hindex, htoken]

theorem enclosingScope_append_below_item :
    enclosingScope .markdown
        (tokenize .markdown "* a\n".toList 1 ++ tokenize .markdown "f(\n".toList 1) =
      .ok ⟨some 5, 0, none⟩ ∧
    enclosingScope .markdown
        (tokenize .markdown "* a\n".toList 1 ++ tokenize .markdown "(\nend\n".toList 1) =
      .error ⟨1, ['(']⟩ ∧
    enclosingScope .markdown
        (tokenize .markdown "* a\n".toList 1 ++ tokenize .markdown "(b)\n".toList 1) =
      enclosingScope .markdown (tokenize .markdown "* a\n".toList 1) := by
  have hline : EndsLine (tokenize .markdown "* a\n".toList 1) :=
    endsLine_tokenize_of_closed Grammar.markdown_soundEmbedding.toLineEmbedding (.inr rfl)
      (by decide +kernel) 1
  have hlength : (tokenize .markdown "* a\n".toList 1).length = 4 := by decide +kernel
  obtain ⟨hopener, -, -⟩ := enclosingScope_append (g := .markdown) hline
    (tokenize .markdown "f(\n".toList 1)
  obtain ⟨-, herror, -⟩ := enclosingScope_append (g := .markdown) hline
    (tokenize .markdown "(\nend\n".toList 1)
  obtain ⟨-, -, hnothing⟩ := enclosingScope_append (g := .markdown) hline
    (tokenize .markdown "(b)\n".toList 1)
  rw [hlength] at hopener
  exact ⟨hopener ⟨some 1, 0, none⟩ 1 (by decide +kernel) rfl,
    herror ⟨1, ['(']⟩ (by decide +kernel), hnothing (by decide +kernel)⟩

end Nesting

end MarkupLayout

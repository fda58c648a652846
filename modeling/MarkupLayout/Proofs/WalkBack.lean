import MarkupLayout.Proofs.Landmarks
/-!
# The walk back by what it finds

The walk back over marks names openers and closers by their indices in the token list.  The same
walk can return what stands at these indices.  Then it does not matter that neutral tokens, such as
spaces, stand in between, and the walk over the tokens of a text is a walk over its landmarks.
-/

namespace MarkupLayout

namespace Nesting

variable {α β : Type}

/-- A scope with what stands at its indices: the nearest opener that is not closed, or the closer
keywords that close nothing. -/
structure NamedScope (α : Type) where
  opener : Option α
  extraClosers : Nat
  firstExtraCloser : Option α
deriving DecidableEq, Repr

def NamedScope.map (f : α → β) (e : NamedScope α) : NamedScope β :=
  ⟨e.opener.map f, e.extraClosers, e.firstExtraCloser.map f⟩

def unclosed (pending : List (α × Closer)) : NamedScope α :=
  let closers := pending.filter (·.2 == .block)
  ⟨none, closers.length, closers.head?.map (·.1)⟩

/-- Walks back over a list, nearest first, with the closers met so far.  The error is an opener that
needs another closer than the one it meets. -/
def walkBack (mark : α → Mark) (pending : List (α × Closer)) :
    List α → Except α (NamedScope α)
  | [] => .ok (unclosed pending)
  | a :: before =>
    match mark a with
    | .neutral => walkBack mark pending before
    | .closes closer => walkBack mark ((a, closer) :: pending) before
    | .opens needs =>
      match pending with
      | [] => .ok ⟨some a, 0, none⟩
      | (_, closer) :: others =>
        if closer = needs then walkBack mark others before else .error a

theorem unclosed_map (f : α → β) (pending : List (α × Closer)) :
    unclosed (pending.map (Prod.map f id)) = (unclosed pending).map f := by
  have hfilter : (pending.map (Prod.map f id)).filter (·.2 == .block) =
      (pending.filter (·.2 == .block)).map (Prod.map f id) := List.filter_map
  simp only [unclosed, hfilter, NamedScope.map, List.length_map, List.head?_map, Option.map_map]
  rfl

theorem walkBack_filter {mark : α → Mark} {p : α → Bool}
    (h : ∀ a, p a = false → mark a = .neutral) (pending : List (α × Closer)) (l : List α) :
    walkBack mark pending (l.filter p) = walkBack mark pending l := by
  induction l generalizing pending with
  | nil => rfl
  | cons a l ih =>
      cases hp : p a with
      | true =>
          rw [List.filter_cons_of_pos hp, walkBack, walkBack]
          simp only [ih]
      | false => rw [List.filter_cons_of_neg (by simp [hp]), ih, walkBack, h a hp]

theorem walkBack_map {f : α → β} {mark : α → Mark} {mark' : β → Mark}
    (h : ∀ a, mark' (f a) = mark a) (pending : List (α × Closer)) (l : List α) :
    walkBack mark' (pending.map (Prod.map f id)) (l.map f) =
      ((walkBack mark pending l).mapError f).map (NamedScope.map f) := by
  induction l generalizing pending with
  | nil =>
      rw [List.map_nil, walkBack, walkBack, unclosed_map]
      rfl
  | cons a l ih =>
      rw [List.map_cons, walkBack, walkBack, h]
      cases mark a with
      | neutral => exact ih pending
      | closes closer => exact ih ((a, closer) :: pending)
      | opens needs =>
          cases pending with
          | nil => rfl
          | cons first others =>
              obtain ⟨b, closer⟩ := first
              by_cases hcloser : closer = needs
              · simpa [hcloser] using ih others
              · simp [hcloser, Except.mapError, Except.map]

theorem mark_ne_neutral_of_walkBack_error {mark : α → Mark} {pending : List (α × Closer)}
    {l : List α} {a : α} (h : walkBack mark pending l = .error a) : mark a ≠ .neutral := by
  fun_induction walkBack mark pending l with
  | case1 => simp at h
  | case2 pending b before _ ih => exact ih h
  | case3 pending b before closer _ ih => exact ih h
  | case4 => simp at h
  | case5 b before needs _ _ others ih => exact ih h
  | case6 b before needs hmark =>
      obtain rfl := Except.error.inj h
      simp [hmark]

theorem mark_ne_neutral_of_walkBack_ok {mark : α → Mark} {pending : List (α × Closer)}
    (hpending : ∀ closer ∈ pending, mark closer.1 ≠ .neutral) {l : List α} {e : NamedScope α}
    (h : walkBack mark pending l = .ok e) : ∀ a ∈ e.firstExtraCloser, mark a ≠ .neutral := by
  fun_induction walkBack mark pending l with
  | case1 pending =>
      obtain rfl := Except.ok.inj h
      intro a ha
      obtain ⟨closer, hhead, rfl⟩ := Option.map_eq_some_iff.mp ha
      exact hpending closer (List.mem_of_mem_filter (List.mem_of_head? hhead))
  | case2 pending b before _ ih => exact ih hpending h
  | case3 pending b before closer hmark ih =>
      refine ih ?_ h
      intro other hmem
      rcases List.mem_cons.mp hmem with rfl | hmem
      · simp [hmark]
      · exact hpending other hmem
  | case4 b before needs =>
      obtain rfl := Except.ok.inj h
      simp
  | case5 b before needs _ _ others ih =>
      exact ih (fun closer hmem => hpending closer (by simp [hmem])) h
  | case6 => simp at h

theorem mem_of_walkBack_ok {mark : α → Mark} {pending : List (α × Closer)} {l : List α}
    {e : NamedScope α} (h : walkBack mark pending l = .ok e) : ∀ a ∈ e.opener, a ∈ l := by
  fun_induction walkBack mark pending l with
  | case1 =>
      obtain rfl := Except.ok.inj h
      simp [unclosed]
  | case2 pending b before _ ih => exact fun a ha => List.mem_cons_of_mem _ (ih h a ha)
  | case3 pending b before closer _ ih => exact fun a ha => List.mem_cons_of_mem _ (ih h a ha)
  | case4 b before needs =>
      obtain rfl := Except.ok.inj h
      simp
  | case5 b before needs _ _ others ih => exact fun a ha => List.mem_cons_of_mem _ (ih h a ha)
  | case6 => simp at h

theorem extraClosers_le_of_walkBack_ok {mark : α → Mark} {pending : List (α × Closer)}
    {l : List α} {e : NamedScope α} (h : walkBack mark pending l = .ok e) :
    e.extraClosers ≤ pending.length + l.length := by
  fun_induction walkBack mark pending l with
  | case1 =>
      obtain rfl := Except.ok.inj h
      exact Nat.le_add_right_of_le (List.length_filter_le _ _)
  | case2 pending b before _ ih =>
      have hmore := ih h
      rw [List.length_cons]
      omega
  | case3 pending b before closer _ ih =>
      have hmore := ih h
      rw [List.length_cons] at hmore ⊢
      omega
  | case4 b before needs =>
      obtain rfl := Except.ok.inj h
      simp
  | case5 b before needs _ _ others ih =>
      have hmore := ih h
      rw [List.length_cons, List.length_cons]
      omega
  | case6 => simp at h

/-! ## Indices -/

def Scope.named (name : Nat → β) (scope : Scope) : NamedScope β :=
  ⟨scope.opener.map name, scope.extraClosers, scope.firstExtraCloser.map name⟩

theorem unclosed_named (name : Nat → β) (pending : List (Nat × Closer)) :
    unclosed (pending.map (Prod.map name id)) = (unopened pending).named name :=
  unclosed_map name pending

/-- The walk over indices names what the walk over the list itself finds. -/
theorem walkBack_eq_resolveBack {mark : α → Mark} {name : Nat → β} {f : α → β}
    {pending : List (Nat × Closer)} {pending' : List (α × Closer)} {l : List α}
    (hname : ∀ a before, a :: before <:+ l → name before.length = f a)
    (hpending : pending.map (Prod.map name id) = pending'.map (Prod.map f id)) :
    ((walkBack mark pending' l).mapError f).map (NamedScope.map f) =
      ((resolveBack pending (l.map mark)).mapError name).map (Scope.named name) := by
  induction l generalizing pending pending' with
  | nil =>
      change Except.ok ((unclosed pending').map f) = Except.ok ((unopened pending).named name)
      rw [← unclosed_map, ← unclosed_named, hpending]
  | cons a l ih =>
      have hbefore : ∀ b before, b :: before <:+ l → name before.length = f b :=
        fun b before hsuffix => hname b before (hsuffix.trans (List.suffix_cons a l))
      have hhere := hname a l (List.suffix_refl _)
      rw [walkBack, List.map_cons]
      cases mark a with
      | neutral => exact ih hbefore hpending
      | closes closer =>
          apply ih hbefore
          simp only [List.map_cons, Prod.map_apply, id_eq, List.length_map, hhere, hpending]
      | opens needs =>
          cases pending with
          | nil =>
              obtain rfl : pending' = [] := List.map_eq_nil_iff.mp hpending.symm
              simp [resolveBack, Except.mapError, Except.map, NamedScope.map, Scope.named, hhere]
          | cons first others =>
              cases pending' with
              | nil => simp at hpending
              | cons first' others' =>
                  simp only [List.map_cons, List.cons.injEq, Prod.ext_iff, Prod.map_fst,
                    Prod.map_snd, id_eq] at hpending
                  obtain ⟨index, closer⟩ := first
                  obtain ⟨b, closer'⟩ := first'
                  obtain ⟨⟨-, rfl⟩, hothers⟩ := hpending
                  simp only [resolveBack]
                  split
                  · exact ih hbefore hothers
                  · simp [Except.mapError, Except.map, hhere]

end Nesting

/-! ## Tokens -/

namespace Neighbourhood

theorem getElem?_all (tokens : List Token) (i : Nat) :
    tokens[i]? = ((all tokens)[i]?).map token := by
  rw [← List.getElem?_map, all, map_token_allFrom]

theorem behind_of_getElem?_allFrom {before tokens : List Token} {i : Nat} {n : Neighbourhood}
    (h : (allFrom before tokens)[i]? = some n) : n.behind = tokens.drop (i + 1) := by
  rw [getElem?_allFrom, Option.map_eq_some_iff] at h
  obtain ⟨t, -, rfl⟩ := h
  rfl

end Neighbourhood

namespace Nesting

open Neighbourhood (all)

variable (g : Grammar) (tokens : List Token)

def namedScope : Except Neighbourhood (NamedScope Neighbourhood) :=
  walkBack (mark g) [] (all tokens).reverse

theorem namedScope_eq_resolve :
    ((namedScope g tokens).mapError some).map (NamedScope.map some) =
      ((resolve g tokens).mapError ((all tokens)[·]?)).map (Scope.named ((all tokens)[·]?)) := by
  rw [resolve, marks, ← List.map_reverse]
  apply walkBack_eq_resolveBack
  · intro n before hsuffix
    obtain ⟨behind, hbehind⟩ := hsuffix
    have hall : all tokens = before.reverse ++ n :: behind.reverse := by
      rw [← List.reverse_reverse (all tokens), ← hbehind]
      simp
    rw [hall]
    simp
  · rfl

theorem walkBack_landmarks :
    walkBack Landmark.mark [] (landmarks g tokens).reverse =
      ((namedScope g tokens).mapError (Neighbourhood.landmark g)).map
        (NamedScope.map (Neighbourhood.landmark g)) := by
  have hspace (n : Neighbourhood) (h : (n.token.kind != .space) = false) :
      mark g n = .neutral := by
    have hkind : n.token.kind = .space := by simpa using h
    simp [mark, hkind]
  rw [landmarks, ← List.map_reverse, Neighbourhood.visible, ← List.filter_reverse]
  have hmarks (n : Neighbourhood) : (n.landmark g).mark = mark g n := rfl
  have hmap := walkBack_map hmarks [] ((all tokens).reverse.filter (·.token.kind != .space))
  rw [List.map_nil, walkBack_filter hspace] at hmap
  exact hmap

theorem namedScope_cases :
    (∃ index n, resolve g tokens = .error index ∧ (all tokens)[index]? = some n ∧
      namedScope g tokens = .error n) ∨
    ∃ scope e, resolve g tokens = .ok scope ∧ namedScope g tokens = .ok e ∧
      e.map some = scope.named ((all tokens)[·]?) := by
  have h := namedScope_eq_resolve g tokens
  cases hwalk : namedScope g tokens with
  | error n =>
      cases hresolve : resolve g tokens with
      | error index =>
          rw [hwalk, hresolve] at h
          exact .inl ⟨index, n, rfl, (Except.error.inj h).symm, rfl⟩
      | ok scope => simp [hwalk, hresolve, Except.mapError, Except.map] at h
  | ok e =>
      cases hresolve : resolve g tokens with
      | error index => simp [hwalk, hresolve, Except.mapError, Except.map] at h
      | ok scope =>
          rw [hwalk, hresolve] at h
          exact .inr ⟨scope, e, rfl, rfl, Except.ok.inj h⟩

end Nesting

end MarkupLayout

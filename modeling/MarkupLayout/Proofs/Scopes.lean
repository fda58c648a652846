import MarkupLayout.Nesting
import MarkupLayout.Proofs.Restart
/-!
# Scopes of a text cut at a line

The marks of tokens look no further than their line, so a token list cut behind a line break has
the marks of its two parts.  The walk back over the marks passes the second part first: what it
finds wrong there stays wrong, and what it leaves unclosed there has to find its opener in the
first part.
-/

namespace MarkupLayout

/-! ## Marks -/

namespace Neighbourhood

theorem allFrom_append (before xs ys : List Token) :
    allFrom before (xs ++ ys) =
      (allFrom before xs).map (fun n => { n with behind := n.behind ++ ys }) ++
        allFrom (xs.reverse ++ before) ys := by
  induction xs generalizing before with
  | nil => rfl
  | cons t xs ih =>
      rw [List.cons_append, allFrom, ih, List.reverse_cons, List.append_assoc]
      rfl

theorem getElem?_allFrom (before tokens : List Token) (i : Nat) :
    (allFrom before tokens)[i]? =
      (tokens[i]?).map fun t => ⟨(tokens.take i).reverse ++ before, t, tokens.drop (i + 1)⟩ := by
  induction tokens generalizing before i with
  | nil => rfl
  | cons t tokens ih =>
      cases i with
      | zero => rfl
      | succ i => simp [allFrom, ih]

theorem eq_of_mem_allFrom {before tokens : List Token} {n : Neighbourhood}
    (h : n ∈ allFrom before tokens) :
    n.before.reverse ++ n.token :: n.behind = before.reverse ++ tokens := by
  induction tokens generalizing before with
  | nil => simp [allFrom] at h
  | cons t more ih =>
      rcases List.mem_cons.mp h with rfl | h
      · rfl
      · simpa using ih h

theorem hasEndlessMarker_append (g : Grammar) {tokens : List Token}
    (h : ∃ t ∈ tokens, t.kind.isLineBreak = true) (depth : Nat) (more : List Token) :
    hasEndlessMarker g depth (tokens ++ more) = hasEndlessMarker g depth tokens := by
  induction tokens generalizing depth with
  | nil => simp at h
  | cons t tokens ih =>
      rw [List.cons_append, hasEndlessMarker, hasEndlessMarker]
      cases hbreak : t.kind.isLineBreak with
      | true => rfl
      | false =>
          have htail : ∃ t ∈ tokens, t.kind.isLineBreak = true := by
            obtain ⟨u, hmem, hu⟩ := h
            rcases List.mem_cons.mp hmem with rfl | hmem
            · simp [hbreak] at hu
            · exact ⟨u, hmem, hu⟩
          simp only [ih htail]

end Neighbourhood

namespace Nesting

open Neighbourhood (allFrom)

variable (g : Grammar)

theorem mark_of_isLineBreak {n : Neighbourhood} (h : n.token.kind.isLineBreak = true) :
    mark g n = .neutral := by
  rw [mark_eq_neutral_iff, Token.isBlockSigil, Token.isCloser]
  cases hkind : n.token.kind <;> simp_all [TokenKind.isLineBreak]

theorem mark_append_behind {n : Neighbourhood}
    (h : n.token.kind.isLineBreak = true ∨ ∃ t ∈ n.behind, t.kind.isLineBreak = true)
    (more : List Token) : mark g { n with behind := n.behind ++ more } = mark g n := by
  rcases h with h | h
  · rw [mark_of_isLineBreak g h]
    exact mark_of_isLineBreak g h
  · simp only [mark, Neighbourhood.opensBlock, Neighbourhood.isEndless,
      Neighbourhood.hasEndlessMarker_append g h]
    rfl

theorem mark_append_before {before far behind : List Token} {lineBreak t : Token}
    (h : lineBreak.kind.isLineBreak = true) :
    mark g ⟨before ++ lineBreak :: far, t, behind⟩ = mark g ⟨before, t, behind⟩ := by
  have hsymbol : Neighbourhood.isSymbol ⟨before ++ lineBreak :: far, t, behind⟩ =
      Neighbourhood.isSymbol ⟨before, t, behind⟩ := by
    unfold Neighbourhood.isSymbol
    cases before with
    | nil =>
        simp only [List.nil_append, List.head?_cons, Option.any_some, List.head?_nil,
          Option.any_none, beq_eq_false_iff_ne]
        intro hkind
        simp [hkind, TokenKind.isLineBreak] at h
    | cons first before => rfl
  have hmodifier : Neighbourhood.isModifier ⟨before ++ lineBreak :: far, t, behind⟩ =
      Neighbourhood.isModifier ⟨before, t, behind⟩ := by
    unfold Neighbourhood.isModifier
    rw [List.takeWhile_append]
    split
    · rename_i hlength
      rw [List.takeWhile_cons_of_neg (by simp [h]), List.append_nil,
        (List.takeWhile_prefix _).eq_of_length hlength]
    · rfl
  unfold mark Neighbourhood.opensBlock
  rw [hsymbol, hmodifier]
  rfl

theorem map_mark_allFrom {before far : List Token} {lineBreak : Token}
    (h : lineBreak.kind.isLineBreak = true) (tokens : List Token) :
    (allFrom (before ++ lineBreak :: far) tokens).map (mark g) =
      (allFrom before tokens).map (mark g) := by
  induction tokens generalizing before with
  | nil => rfl
  | cons t tokens ih =>
      rw [allFrom, List.map_cons, mark_append_before g h, ← List.cons_append, ih]
      rfl

theorem isLineBreak_of_mem_allFrom {before tokens : List Token} {lineBreak : Token}
    (h : lineBreak.kind.isLineBreak = true) {n : Neighbourhood}
    (hmem : n ∈ allFrom before (tokens ++ [lineBreak])) :
    n.token.kind.isLineBreak = true ∨ ∃ t ∈ n.behind, t.kind.isLineBreak = true := by
  induction tokens generalizing before with
  | nil =>
      rw [List.nil_append, allFrom, allFrom, List.mem_singleton] at hmem
      subst hmem
      exact .inl h
  | cons t tokens ih =>
      rcases List.mem_cons.mp hmem with rfl | hmem
      · exact .inr ⟨lineBreak, by simp, h⟩
      · exact ih hmem

/-- Token lists without tokens, or with a line break at their end. -/
def EndsLine (tokens : List Token) : Prop :=
  tokens = [] ∨ ∃ before lineBreak, tokens = before ++ [lineBreak] ∧
    lineBreak.kind.isLineBreak = true

theorem mark_of_mem_all {left : List Token} (h : EndsLine left) {n : Neighbourhood}
    (hmem : n ∈ Neighbourhood.all left) (right : List Token) :
    mark g { n with behind := n.behind ++ right } = mark g n := by
  rcases h with rfl | ⟨before, lineBreak, rfl, hbreak⟩
  · simp [Neighbourhood.all, allFrom] at hmem
  · exact mark_append_behind g (isLineBreak_of_mem_allFrom hbreak hmem) right

theorem endsLine_tokenize_of_closed {g : Grammar} (hg : g.LineEmbedding) {t : Text}
    (ht : t.IsWhole) (hclosed : Literal.isOpenAfter g t = false) (firstLine : Nat) :
    EndsLine (tokenize g t firstLine) := by
  rcases ht with rfl | hlast
  · left
    rw [tokenize, scan, scanFrom_nil]
    rfl
  · obtain ⟨ctx, hrun⟩ := Scans.exists_end g .initial t
    have hframes := Literal.openFrames_of_scans hg hrun
    rw [hclosed] at hframes
    obtain ⟨before, piece, hpieces, hbreak⟩ :=
      hrun.exists_lineBreak hg rfl ScanContext.wellQuoted_initial hlast hframes
    right
    rw [tokenize, scan, hpieces, Token.place_append]
    exact ⟨_, _, rfl, hbreak⟩

theorem endsLine_tokenize {g : Grammar} (hg : g.LineEmbedding) {t : Text} (h : t.Complete g)
    (firstLine : Nat) : EndsLine (tokenize g t firstLine) := by
  apply endsLine_tokenize_of_closed hg h.isWhole
  rw [Literal.isOpenAfter_eq, h.openFrames]
  rfl

theorem marks_append {left : List Token} (h : EndsLine left) (right : List Token) :
    marks g (left ++ right) = marks g left ++ marks g right := by
  rw [marks, Neighbourhood.all, Neighbourhood.allFrom_append, List.map_append, List.map_map,
    List.append_nil]
  congr 1
  · exact List.map_congr_left fun n hmem => mark_of_mem_all g h hmem right
  · rcases h with rfl | ⟨before, lineBreak, rfl, hbreak⟩
    · rfl
    · rw [List.reverse_concat, ← List.nil_append (lineBreak :: before.reverse),
        map_mark_allFrom g hbreak]
      rfl

end Nesting

/-! ## Marks and the sorts of line breaks -/

theorem Token.congr_of_map_blurred {α : Type} {f : List Token → α}
    (hf : ∀ tokens, f (tokens.map Token.blurred) = f tokens) {tokens tokens' : List Token}
    (h : tokens.map Token.blurred = tokens'.map Token.blurred) : f tokens = f tokens' := by
  rw [← hf, h, hf]

namespace TokenKind

variable (kind : TokenKind)

@[simp] theorem isLineBreak_blurred : kind.blurred.isLineBreak = kind.isLineBreak := by
  cases kind <;> rfl

@[simp] theorem mayPrecedeOpener_blurred :
    Neighbourhood.mayPrecedeOpener kind.blurred = Neighbourhood.mayPrecedeOpener kind := by
  cases kind <;> rfl

@[simp] theorem blurred_beq_symbolBegin :
    (kind.blurred == .symbolBegin) = (kind == .symbolBegin) := by
  cases kind <;> rfl

variable {kind} in
theorem blurred_of_not_isLineBreak (h : kind.isLineBreak = false) : kind.blurred = kind := by
  cases kind <;> simp_all [blurred, isLineBreak]

end TokenKind

/-- A change of tokens that keeps what marks depend on: lines, the texts of operators, and kinds up
to the sort of a line break. -/
structure Token.KeepsMarks (f : Token → Token) : Prop where
  line : ∀ t, (f t).line = t.line
  kind : ∀ t, (f t).kind.blurred = t.kind.blurred
  text : ∀ t, t.kind = .operator → (f t).text = t.text

theorem Token.keepsMarks_blurred : Token.KeepsMarks Token.blurred where
  line := fun _ => rfl
  kind := fun t => by
    obtain ⟨line, column, kind, text⟩ := t
    cases kind <;> rfl
  text := fun _ _ => rfl

def Neighbourhood.map (f : Token → Token) (n : Neighbourhood) : Neighbourhood :=
  ⟨n.before.map f, f n.token, n.behind.map f⟩

theorem Neighbourhood.allFrom_map (f : Token → Token) (before tokens : List Token) :
    allFrom (before.map f) (tokens.map f) = (allFrom before tokens).map (Neighbourhood.map f) := by
  induction tokens generalizing before with
  | nil => rfl
  | cons t tokens ih =>
      rw [List.map_cons, allFrom, ← List.map_cons, ih]
      rfl

theorem Neighbourhood.all_map (f : Token → Token) (tokens : List Token) :
    all (tokens.map f) = (all tokens).map (Neighbourhood.map f) :=
  allFrom_map f [] tokens

namespace Token.KeepsMarks

variable {f : Token → Token} (h : KeepsMarks f) (g : Grammar)

include h

theorem isLineBreak (t : Token) : (f t).kind.isLineBreak = t.kind.isLineBreak := by
  rw [← TokenKind.isLineBreak_blurred, h.kind, TokenKind.isLineBreak_blurred]

theorem kind_eq {t : Token} (hbreak : t.kind.isLineBreak = false) : (f t).kind = t.kind := by
  have hchanged : (f t).kind.isLineBreak = false := (h.isLineBreak t).trans hbreak
  rw [← TokenKind.blurred_of_not_isLineBreak hchanged, h.kind,
    TokenKind.blurred_of_not_isLineBreak hbreak]

theorem isSymbol_map (n : Neighbourhood) : (n.map f).isSymbol = n.isSymbol := by
  have hkind (t : Token) : ((f t).kind == .symbolBegin) = (t.kind == .symbolBegin) := by
    rw [← TokenKind.blurred_beq_symbolBegin, h.kind, TokenKind.blurred_beq_symbolBegin]
  rw [Neighbourhood.isSymbol, Neighbourhood.map, List.head?_map, Option.any_map]
  simp only [hkind]
  rfl

theorem isModifier_map (n : Neighbourhood) : (n.map f).isModifier = n.isModifier := by
  have hkind (t : Token) : Neighbourhood.mayPrecedeOpener (f t).kind =
      Neighbourhood.mayPrecedeOpener t.kind := by
    rw [← TokenKind.mayPrecedeOpener_blurred, h.kind, TokenKind.mayPrecedeOpener_blurred]
  simp only [Neighbourhood.isModifier, Neighbourhood.map, List.takeWhile_map, List.any_map,
    Function.comp_def, h.line, h.isLineBreak, hkind]

theorem hasEndlessMarker_map (depth : Nat) (tokens : List Token) :
    Neighbourhood.hasEndlessMarker g depth (tokens.map f) =
      Neighbourhood.hasEndlessMarker g depth tokens := by
  induction tokens generalizing depth with
  | nil => rfl
  | cons t tokens ih =>
      rw [List.map_cons, Neighbourhood.hasEndlessMarker, Neighbourhood.hasEndlessMarker,
        h.isLineBreak]
      cases hbreak : t.kind.isLineBreak with
      | true => rfl
      | false =>
          rw [h.kind_eq hbreak]
          cases hoperator : t.kind <;> simp only [ih]
          rw [h.text t hoperator]

theorem mark_map (n : Neighbourhood) : Nesting.mark g (n.map f) = Nesting.mark g n := by
  cases hbreak : n.token.kind.isLineBreak with
  | true =>
      have hchanged : (n.map f).token.kind.isLineBreak = true := (h.isLineBreak _).trans hbreak
      rw [Nesting.mark_of_isLineBreak g hbreak, Nesting.mark_of_isLineBreak g hchanged]
  | false =>
      have hkind : (n.map f).token.kind = n.token.kind := h.kind_eq hbreak
      have hendless : (n.map f).isEndless g = n.isEndless g := h.hasEndlessMarker_map g 0 n.behind
      unfold Nesting.mark Neighbourhood.opensBlock
      rw [hkind, h.isSymbol_map, h.isModifier_map, hendless]

theorem marks_map (tokens : List Token) :
    Nesting.marks g (tokens.map f) = Nesting.marks g tokens := by
  rw [Nesting.marks, Neighbourhood.all_map, List.map_map]
  exact List.map_congr_left fun n _ => h.mark_map g n

end Token.KeepsMarks

namespace Nesting

theorem marks_map_blurred (g : Grammar) (tokens : List Token) :
    marks g (tokens.map Token.blurred) = marks g tokens :=
  Token.keepsMarks_blurred.marks_map g tokens

/-! ## The walk back -/

variable {g : Grammar}

/-- A scope with an opener has no closers too many, and its indices are those of marks. -/
structure Scope.Valid (scope : Scope) (length : Nat) : Prop where
  opener : ∀ index ∈ scope.opener, index < length
  firstExtraCloser : ∀ index ∈ scope.firstExtraCloser, index < length
  exclusive : scope.opener.isSome = true → scope.firstExtraCloser = none

theorem valid_of_resolveBack {pending : List (Nat × Closer)} {marks : List Mark} {length : Nat}
    {scope : Scope} (h : resolveBack pending marks = .ok scope)
    (hpending : ∀ closer ∈ pending, closer.1 < length) (hlength : marks.length ≤ length) :
    scope.Valid length := by
  fun_induction resolveBack pending marks with
  | case1 pending =>
      obtain rfl := Except.ok.inj h
      refine ⟨by simp [unopened], ?_, by simp [unopened]⟩
      intro index hindex
      obtain ⟨closer, hhead, rfl⟩ := Option.map_eq_some_iff.mp hindex
      exact hpending closer (List.mem_of_mem_filter (List.mem_of_head? hhead))
  | case2 pending before ih => exact ih h hpending (by rw [List.length_cons] at hlength; omega)
  | case3 pending closer before ih =>
      rw [List.length_cons] at hlength
      refine ih h ?_ (by omega)
      intro other hmem
      rcases List.mem_cons.mp hmem with rfl | hmem
      · exact hlength
      · exact hpending other hmem
  | case4 needs before =>
      obtain rfl := Except.ok.inj h
      rw [List.length_cons] at hlength
      exact ⟨by simpa using Nat.lt_of_succ_le hlength, by simp, fun _ => rfl⟩
  | case5 index others needs before ih =>
      rw [List.length_cons] at hlength
      exact ih h (fun closer hmem => hpending closer (by simp [hmem])) (by omega)
  | case6 => simp at h

/-- How the walk back over marks ends: at an opener that no closer was left for, at one that met a
closer of another sort, or at the start, with closers left. -/
inductive WalkEnd where
  | enclosed (index : Nat)
  | crossed (index : Nat)
  | unopened (pending : List (Nat × Closer))
deriving DecidableEq, Repr

def walkEnd (pending : List (Nat × Closer)) : List Mark → WalkEnd
  | [] => .unopened pending
  | .neutral :: before => walkEnd pending before
  | .closes closer :: before => walkEnd ((before.length, closer) :: pending) before
  | .opens needs :: before =>
    match pending with
    | [] => .enclosed before.length
    | (_, closer) :: others =>
      if closer = needs then walkEnd others before else .crossed before.length

def WalkEnd.result : WalkEnd → Except Nat Scope
  | enclosed index => .ok ⟨some index, 0, none⟩
  | crossed index => .error index
  | unopened pending => .ok (Nesting.unopened pending)

theorem resolveBack_eq (pending : List (Nat × Closer)) (marks : List Mark) :
    resolveBack pending marks = (walkEnd pending marks).result := by
  fun_induction walkEnd pending marks with
  | case1 => rfl
  | case2 pending before ih => rw [resolveBack, ih]
  | case3 pending closer before ih => rw [resolveBack, ih]
  | case4 => rfl
  | case5 index others needs before ih => rw [resolveBack, if_pos rfl, ih]
  | case6 needs before index closer others hne =>
      rw [resolveBack, if_neg hne]
      rfl

def shifted (k : Nat) (pending : List (Nat × Closer)) : List (Nat × Closer) :=
  pending.map fun closer => (closer.1 + k, closer.2)

/-- How the walk ends when marks further back follow: it goes on with the closers that are left. -/
def WalkEnd.followedBy (far : List Mark) : WalkEnd → WalkEnd
  | enclosed index => .enclosed (index + far.length)
  | crossed index => .crossed (index + far.length)
  | unopened pending => walkEnd (shifted far.length pending) far

theorem walkEnd_append (pending : List (Nat × Closer)) (near far : List Mark) :
    walkEnd (shifted far.length pending) (near ++ far) =
      (walkEnd pending near).followedBy far := by
  fun_induction walkEnd pending near with
  | case1 => rfl
  | case2 pending before ih => exact ih
  | case3 pending closer before ih =>
      rw [List.cons_append, walkEnd, List.length_append]
      exact ih
  | case4 needs before =>
      rw [List.cons_append, shifted, List.map_nil, walkEnd, List.length_append]
      rfl
  | case5 index others needs before ih =>
      rw [List.cons_append, shifted, List.map_cons, walkEnd, if_pos rfl]
      exact ih
  | case6 needs before index closer others hne =>
      rw [List.cons_append, shifted, List.map_cons, walkEnd, if_neg hne, List.length_append]
      rfl

theorem resolveBack_append_of_error {pending : List (Nat × Closer)} {near : List Mark}
    {index : Nat} (h : resolveBack pending near = .error index) (far : List Mark) :
    resolveBack (shifted far.length pending) (near ++ far) = .error (index + far.length) := by
  rw [resolveBack_eq] at h ⊢
  rw [walkEnd_append]
  cases hend : walkEnd pending near with
  | crossed index =>
      rw [hend] at h
      obtain rfl := Except.error.inj h
      rfl
  | enclosed index => simp [hend, WalkEnd.result] at h
  | unopened left => simp [hend, WalkEnd.result] at h

/-- Where the nearer marks have no opener left, the walk goes on with the closers it keeps. -/
theorem resolveBack_append_of_unopened {pending : List (Nat × Closer)} {near : List Mark}
    {scope : Scope} (h : resolveBack pending near = .ok scope) (hopener : scope.opener = none)
    (far : List Mark) :
    ∃ left, scope = unopened left ∧
      resolveBack (shifted far.length pending) (near ++ far) =
        resolveBack (shifted far.length left) far := by
  rw [resolveBack_eq] at h ⊢
  rw [walkEnd_append]
  cases hend : walkEnd pending near with
  | enclosed index =>
      rw [hend] at h
      obtain rfl := Except.ok.inj h
      simp at hopener
  | crossed index => simp [hend, WalkEnd.result] at h
  | unopened left =>
      rw [hend] at h
      refine ⟨left, (Except.ok.inj h).symm, ?_⟩
      rw [resolveBack_eq]
      rfl

theorem opens_mem_of_resolveBack {pending : List (Nat × Closer)} {marks : List Mark}
    {scope : Scope} (h : resolveBack pending marks = .ok scope)
    (hclosed : scope.firstExtraCloser = none) (hpending : ∃ closer ∈ pending, closer.2 = .block) :
    Mark.opens .block ∈ marks := by
  fun_induction resolveBack pending marks with
  | case1 pending =>
      obtain rfl := Except.ok.inj h
      obtain ⟨closer, hmem, hblock⟩ := hpending
      simp only [unopened, Option.map_eq_none_iff, List.head?_eq_none_iff,
        List.filter_eq_nil_iff] at hclosed
      exact absurd (by simpa using hblock) (hclosed closer hmem)
  | case2 pending before ih => exact List.mem_cons_of_mem _ (ih h hpending)
  | case3 pending closer before ih =>
      obtain ⟨other, hmem, hblock⟩ := hpending
      exact List.mem_cons_of_mem _ (ih h ⟨other, List.mem_cons_of_mem _ hmem, hblock⟩)
  | case4 => simp at hpending
  | case5 index others needs before ih =>
      obtain ⟨closer, hmem, hblock⟩ := hpending
      rcases List.mem_cons.mp hmem with rfl | hmem
      · rw [← hblock]
        exact List.mem_cons_self
      · exact List.mem_cons_of_mem _ (ih h ⟨closer, hmem, hblock⟩)
  | case6 => simp at h

/-! ## Token lists -/

theorem enclosingScope_eq_ok_iff {tokens : List Token} {scope : Scope} :
    enclosingScope g tokens = .ok scope ↔ resolve g tokens = .ok scope := by
  unfold enclosingScope
  split <;> simp_all

theorem exists_enclosingScope_eq_error_iff {tokens : List Token} :
    (∃ mismatch, enclosingScope g tokens = .error mismatch) ↔
      ∃ index, resolve g tokens = .error index := by
  unfold enclosingScope
  split <;> simp_all

theorem getElem?_marks (g : Grammar) (tokens : List Token) (i : Nat) :
    (marks g tokens)[i]? =
      (tokens[i]?).map fun t => mark g ⟨(tokens.take i).reverse, t, tokens.drop (i + 1)⟩ := by
  rw [marks, List.getElem?_map, Neighbourhood.all, Neighbourhood.getElem?_allFrom, Option.map_map]
  simp only [List.append_nil]
  rfl

theorem length_marks (g : Grammar) (tokens : List Token) :
    (marks g tokens).length = tokens.length := by
  have hlength (before tokens : List Token) :
      (Neighbourhood.allFrom before tokens).length = tokens.length := by
    induction tokens generalizing before with
    | nil => rfl
    | cons t tokens ih => simp [Neighbourhood.allFrom, ih]
  rw [marks, List.length_map, Neighbourhood.all, hlength]

theorem valid_of_enclosingScope {tokens : List Token} {scope : Scope}
    (h : enclosingScope g tokens = .ok scope) : scope.Valid tokens.length := by
  refine valid_of_resolveBack (enclosingScope_eq_ok_iff.mp h) (by simp) ?_
  rw [List.length_reverse, length_marks]

theorem resolve_map_blurred (g : Grammar) (tokens : List Token) :
    resolve g (tokens.map Token.blurred) = resolve g tokens := by
  rw [resolve, marks_map_blurred, resolve]

theorem resolve_append {left : List Token} (h : EndsLine left) (right : List Token) :
    resolve g (left ++ right) =
      resolveBack [] ((marks g right).reverse ++ (marks g left).reverse) := by
  rw [resolve, marks_append g h, List.reverse_append]

theorem exists_error_of_append {left right : List Token} (h : EndsLine left) {index : Nat}
    (hright : resolve g right = .error index) :
    ∃ index, resolve g (left ++ right) = .error index := by
  refine ⟨index + (marks g left).reverse.length, ?_⟩
  rw [resolve_append h]
  exact resolveBack_append_of_error hright _

/-- If there are closers too many behind a line break, but none in the whole, then a block is
opened before the line break. -/
theorem exists_opener_of_append {left right : List Token} (h : EndsLine left)
    {inner scope : Scope} (hright : resolve g right = .ok inner)
    (hextra : inner.firstExtraCloser ≠ none) (hwhole : resolve g (left ++ right) = .ok scope)
    (hclosed : scope.firstExtraCloser = none) :
    ∃ n ∈ Neighbourhood.all left, mark g n = .opens .block := by
  have hvalid := valid_of_enclosingScope (enclosingScope_eq_ok_iff.mpr hright)
  have hopener : inner.opener = none := by
    by_contra hsome
    exact hextra (hvalid.exclusive (Option.isSome_iff_ne_none.mpr hsome))
  obtain ⟨kept, rfl, hwalk⟩ :=
    resolveBack_append_of_unopened hright hopener (marks g left).reverse
  have hblock : ∃ closer ∈ shifted (marks g left).reverse.length kept, closer.2 = .block := by
    obtain ⟨first, hfirst⟩ := Option.ne_none_iff_exists'.mp hextra
    obtain ⟨closer, hhead, -⟩ := Option.map_eq_some_iff.mp hfirst
    obtain ⟨hmem, hcloser⟩ := List.mem_filter.mp (List.mem_of_head? hhead)
    exact ⟨_, List.mem_map_of_mem hmem, by simpa using hcloser⟩
  rw [resolve_append h] at hwhole
  have hmem := opens_mem_of_resolveBack (hwalk.symm.trans hwhole) hclosed hblock
  exact List.mem_map.mp (List.mem_reverse.mp hmem)

end Nesting

end MarkupLayout

import MarkupLayout.Proofs.BalancedMarks
import MarkupLayout.Proofs.WellNested
/-!
# Continued lines

Whether a line continues the one above is decided by the last token above it, and behind a comma
also by the opener around it.  The opener is looked for in the span alone.  When the span has none,
because the blocks it opens are closed again, a block or bracket above the anchor may still be open,
and the comma, which separates items of equal rank there, is taken to continue its line.
-/

namespace MarkupLayout

def Nesting.Scope.openerIn (scope : Scope) (tokens : List Token) : Option Token :=
  scope.opener.bind fun index => tokens[index]?

namespace Indentation

variable {g : Grammar} {above : Text}

/-! ## Commas -/

/-- Whether the commas directly behind an opener separate items of equal rank. -/
def separates : (opener : Option Token) → Bool
  | none => false
  | some t =>
    match t.kind with
    | .openBracket kind => kind.isGrouping
    | _ => true

def endsInComma (last : Option Token) : Bool :=
  last.any (·.kind == .comma)

theorem continues_of_comma (g : Grammar) {last : Option Token} (h : endsInComma last = true)
    (opener : Option Token) : continues g last opener = !separates opener := by
  cases last with
  | none => simp [endsInComma] at h
  | some t =>
      have hkind : t.kind = .comma := by simpa [endsInComma] using h
      cases opener with
      | none => simp [continues, hkind, separates]
      | some opener => cases hopener : opener.kind <;> simp [continues, hkind, separates, hopener]

theorem continues_of_not_comma (g : Grammar) {last : Option Token} (h : endsInComma last = false)
    (opener opener' : Option Token) : continues g last opener = continues g last opener' := by
  cases last with
  | none => rfl
  | some t =>
      have hkind : t.kind ≠ .comma := by simpa [endsInComma] using h
      cases hcase : t.kind with
      | comma => exact absurd hcase hkind
      | keyword role => cases role <;> simp [continues, hcase]
      | _ => simp [continues, hcase]

theorem continues_eq_iff (g : Grammar) (last opener opener' : Option Token) :
    continues g last opener = continues g last opener' ↔
      ¬(endsInComma last = true ∧ separates opener ≠ separates opener') := by
  cases h : endsInComma last with
  | true => simp [continues_of_comma g h]
  | false => simp [continues_of_not_comma g h opener opener']

/-! ## Openers in the span -/

theorem separates_map_blurred (opener : Option Token) :
    separates (opener.map Token.blurred) = separates opener := by
  cases opener with
  | none => rfl
  | some t =>
      obtain ⟨line, column, kind, text⟩ := t
      cases kind <;> rfl

theorem separates_openerIn_of_anchor (hv : g.VisibleSigils) (hg : g.SoundEmbedding) {a : Anchor}
    (ha : anchor? g above = some a) (hcode : a.inCode g = false) {inner outer : Nesting.Scope}
    (hinner : Nesting.enclosingScope g (survey g above).tokens = .ok inner)
    (houter : Nesting.enclosingScope g (tokenize g above 1) = .ok outer)
    (hopener : inner.opener ≠ none) :
    separates (inner.openerIn (survey g above).tokens) =
      separates (outer.openerIn (tokenize g above 1)) := by
  obtain ⟨index, hindex⟩ := Option.ne_none_iff_exists'.mp hopener
  obtain ⟨tokens, htokens, hblurred, hresolve⟩ := exists_tokenize_above hv hg ha hcode
  have hline := Nesting.endsLine_tokenize hg.toLineEmbedding
    (complete_of_inCode_eq_false hv ha hcode) 1
  rw [Nesting.enclosingScope_eq_ok_iff] at hinner houter
  have hwhole := Nesting.resolve_append_of_opener hline (hresolve.trans hinner) hindex
  rw [← htokens, houter, Except.ok.injEq] at hwhole
  have hsame : (tokenize g above 1)[(tokenize g a.above 1).length + index]? = tokens[index]? := by
    rw [htokens, List.getElem?_append_right (Nat.le_add_right _ _), Nat.add_sub_cancel_left]
  rw [Nesting.Scope.openerIn, Nesting.Scope.openerIn, hwhole, hindex, Option.bind_some,
    Option.bind_some, hsame, ← separates_map_blurred, ← separates_map_blurred tokens[index]?,
    ← List.getElem?_map, ← List.getElem?_map, hblurred]

theorem separates_openerIn_of_opener_eq_none {scope : Nesting.Scope} (h : scope.opener = none)
    (tokens : List Token) : separates (scope.openerIn tokens) = false := by
  rw [Nesting.Scope.openerIn, h]
  rfl

theorem separates_openerIn_ne_iff (hv : g.VisibleSigils) (hg : g.SoundEmbedding)
    (hanchor : ∀ a, anchor? g above = some a → a.inCode g = false) {inner outer : Nesting.Scope}
    (hinner : Nesting.enclosingScope g (survey g above).tokens = .ok inner)
    (houter : Nesting.enclosingScope g (tokenize g above 1) = .ok outer) :
    separates (inner.openerIn (survey g above).tokens) ≠
        separates (outer.openerIn (tokenize g above 1)) ↔
      inner.opener = none ∧ separates (outer.openerIn (tokenize g above 1)) = true := by
  by_cases hopener : inner.opener = none
  · rw [separates_openerIn_of_opener_eq_none hopener]
    simp [hopener]
  · have hsame : separates (inner.openerIn (survey g above).tokens) =
        separates (outer.openerIn (tokenize g above 1)) := by
      cases ha : anchor? g above with
      | none =>
          rw [survey_tokens_of_anchor?_eq_none ha] at hinner ⊢
          rw [hinner, Except.ok.injEq] at houter
          rw [houter]
      | some a =>
          exact separates_openerIn_of_anchor hv hg ha (hanchor a ha) hinner houter hopener
    simp [hopener, hsame]

end Indentation

namespace Document

open Indentation (anchor? survey continues endsInComma separates)
open Nesting (enclosingScope)

/-- Whether a line continues the one above is the same for the opener in the span and for the one in
the whole text above, except behind a comma that only one of them lets separate.  If the anchor is
outside embedded code, that is a comma which the whole text encloses in a block or in a bracket that
groups, and the span in nothing. -/
theorem continues_span_iff {g : Grammar} (hv : g.VisibleSigils) (hg : g.SoundEmbedding)
    (doc : Document) (line : Nat) (inner outer : Nesting.Scope)
    (hinner : enclosingScope g (survey g (doc.text.above line)).tokens = .ok inner)
    (houter : enclosingScope g (tokenize g (doc.text.above line) 1) = .ok outer) :
    let s := survey g (doc.text.above line)
    let whole := tokenize g (doc.text.above line) 1
    (continues g s.last? (inner.openerIn s.tokens) = continues g s.last? (outer.openerIn whole) ↔
      ¬(endsInComma s.last? = true ∧
        separates (inner.openerIn s.tokens) ≠ separates (outer.openerIn whole))) ∧
    ((∀ a, anchor? g (doc.text.above line) = some a → a.inCode g = false) →
      (continues g s.last? (inner.openerIn s.tokens) = continues g s.last? (outer.openerIn whole) ↔
        ¬(endsInComma s.last? = true ∧ inner.opener = none ∧
          separates (outer.openerIn whole) = true))) := by
  intro s whole
  have hiff := Indentation.continues_eq_iff g s.last? (inner.openerIn s.tokens)
    (outer.openerIn whole)
  refine ⟨hiff, fun hanchor => ?_⟩
  rw [hiff, Indentation.separates_openerIn_ne_iff hv hg hanchor hinner houter]

theorem continues_span_iff_below_item :
    let above := "* a\n  b,\n".toList
    continues .markdown (survey .markdown above).last?
        ((⟨some 0, 0, none⟩ : Nesting.Scope).openerIn (survey .markdown above).tokens) =
      continues .markdown (survey .markdown above).last?
        ((⟨some 0, 0, none⟩ : Nesting.Scope).openerIn (tokenize .markdown above 1)) := by
  intro above
  have habove : (ofText "a" "* a\n  b,\nc".toList .default).text.above 3 = above := by
    decide +kernel
  obtain ⟨-, hiff⟩ := continues_span_iff Grammar.markdown_visibleSigils
    Grammar.markdown_soundEmbedding (ofText "a" "* a\n  b,\nc".toList .default) 3
    ⟨some 0, 0, none⟩ ⟨some 0, 0, none⟩ (by decide +kernel) (by decide +kernel)
  rw [habove] at hiff
  refine (hiff fun a ha => ?_).mpr (by simp)
  have hanchor : anchor? .markdown above = some ⟨[], []⟩ := by decide +kernel
  rw [hanchor, Option.some.injEq] at ha
  subst ha
  decide +kernel

/-- Behind a closed block, the span shows no opener: the comma, which is directly in the item above
the block, continues its line. -/
theorem continues_span_below_closed_block :
    ¬∀ (doc : Document) (line : Nat) (inner outer : Nesting.Scope), 2 ≤ line →
      line ≤ doc.text.lineCount →
      (survey .markdown (doc.text.above line)).endsInLiteral = false →
      enclosingScope .markdown (survey .markdown (doc.text.above line)).tokens = .ok inner →
      enclosingScope .markdown (tokenize .markdown (doc.text.above line) 1) = .ok outer →
      continues .markdown (survey .markdown (doc.text.above line)).last?
          (inner.openerIn (survey .markdown (doc.text.above line)).tokens) =
        continues .markdown (survey .markdown (doc.text.above line)).last?
          (outer.openerIn (tokenize .markdown (doc.text.above line) 1)) := by
  intro h
  have hsame := h (ofText "a" "* a\n  * b\n  end\nx,\ny".toList .default) 5 ⟨none, 0, none⟩
    ⟨some 0, 0, none⟩ (by decide) (by decide) (by decide +kernel) (by decide +kernel)
    (by decide +kernel)
  revert hsame
  decide +kernel

end Document

end MarkupLayout

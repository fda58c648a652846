import Mathlib.Data.List.Basic
import Mathlib.Data.List.Induction
import MarkupLayout.Proofs.StepShape
/-!
# Runs of the scanner

`Scans` relates two places of a text that the scanner passes one after the other, with the pieces
between them and the contexts at both.  The judgement is made with the whole remaining text
present, so a run never cuts a lexeme or a literal in two.
-/

namespace MarkupLayout

open ScanStep (Shape)

/-- From `t`, entered in `ctx`, the scanner comes to `t'` in the context `ctx'`. -/
inductive Scans (g : Grammar) :
    ScanContext → Text → List Piece → ScanContext → Text → Prop
  | here (ctx : ScanContext) (t : Text) : Scans g ctx t [] ctx t
  | step {ctx ctx' : ScanContext} {c : Char} {rest t' : Text} {pieces : List Piece}
      (more : Scans g (ctx.advance (ctx.step g c rest)) (ctx.step g c rest).rest pieces ctx' t') :
      Scans g ctx (c :: rest) ((ctx.step g c rest).pieces ++ pieces) ctx' t'

@[simp] theorem scanFrom_nil (g : Grammar) (ctx : ScanContext) : scanFrom g ctx [] = [] := by
  rw [scanFrom]

theorem scanFrom_cons (g : Grammar) (ctx : ScanContext) (c : Char) (rest : Text) :
    scanFrom g ctx (c :: rest) = (ctx.step g c rest).pieces ++
      scanFrom g (ctx.advance (ctx.step g c rest)) (ctx.step g c rest).rest := by
  rw [scanFrom]

theorem scan_induction (g : Grammar) {motive : ScanContext → Text → Prop}
    (nil : ∀ ctx, motive ctx [])
    (cons : ∀ ctx c rest,
      motive (ctx.advance (ctx.step g c rest)) (ctx.step g c rest).rest → motive ctx (c :: rest))
    (ctx : ScanContext) (t : Text) : motive ctx t := by
  induction hlength : t.length using Nat.strongRecOn generalizing ctx t with
  | ind n ih =>
      cases t with
      | nil => exact nil ctx
      | cons c rest =>
          apply cons
          have hshorter := (ctx.step_cuts g c rest).shorter
          exact ih _ (by omega) _ _ rfl

namespace ScanContext

theorem previous_foldl_pass (pieces : List Piece) (ctx : ScanContext) :
    (pieces.foldl pass ctx).previous =
      (pieces.flatMap Piece.text).getLast?.or ctx.previous := by
  induction pieces generalizing ctx with
  | nil => rfl
  | cons piece more ih =>
      rw [List.foldl_cons, ih, List.flatMap_cons, List.getLast?_append, Option.or_assoc]
      rfl

theorem last_foldl_pass_concat (pieces : List Piece) (piece : Piece) (ctx : ScanContext) :
    ((pieces ++ [piece]).foldl pass ctx).last =
      if piece.kind.isLineBreak then none
      else if piece.kind = .space then (pieces.foldl pass ctx).last
      else some piece := by
  rw [List.foldl_append]
  rfl

theorem last_foldl_pass_congr {ctx ctx' : ScanContext} (pieces : List Piece)
    (h : ctx.last = ctx'.last) :
    (pieces.foldl pass ctx).last = (pieces.foldl pass ctx').last := by
  induction pieces using List.reverseRecOn with
  | nil => exact h
  | append_singleton pieces piece ih =>
      rw [last_foldl_pass_concat, last_foldl_pass_concat, ih]

end ScanContext

namespace Scans

variable {g : Grammar} {ctx ctx' : ScanContext} {t t' : Text} {pieces : List Piece}

theorem scanFrom_eq (h : Scans g ctx t pieces ctx' t') :
    scanFrom g ctx t = pieces ++ scanFrom g ctx' t' := by
  induction h with
  | here => rfl
  | step _ ih => rw [scanFrom_cons, ih, List.append_assoc]

theorem text_append (h : Scans g ctx t pieces ctx' t') :
    pieces.flatMap Piece.text ++ t' = t := by
  induction h with
  | here => rfl
  | @step ctx _ c rest _ _ _ ih =>
      rw [List.flatMap_append, List.append_assoc, ih]
      exact (ctx.step_cuts g c rest).append

theorem previous_eq (h : Scans g ctx t pieces ctx' t') :
    ctx'.previous = (pieces.flatMap Piece.text).getLast?.or ctx.previous := by
  induction h with
  | here => rfl
  | @step ctx _ c rest _ _ _ ih =>
      have hstep := ScanContext.previous_foldl_pass (ctx.step g c rest).pieces ctx
      rw [ih, List.flatMap_append, List.getLast?_append, Option.or_assoc, ← hstep]
      rfl

theorem last_eq (h : Scans g ctx t pieces ctx' t') :
    ctx'.last = (pieces.foldl ScanContext.pass ctx).last := by
  induction h with
  | here => rfl
  | step _ ih =>
      rw [ih, List.foldl_append]
      exact ScanContext.last_foldl_pass_congr _ rfl

theorem wellQuoted (h : Scans g ctx t pieces ctx' t') (hctx : ctx.WellQuoted) :
    ctx'.WellQuoted := by
  induction h with
  | here => exact hctx
  | @step ctx _ c rest _ _ _ ih =>
      obtain ⟨_, hshape⟩ := ctx.step_shape g hctx c rest
      exact ih (hshape.wellQuoted_advance hctx)

theorem exists_end (g : Grammar) (ctx : ScanContext) (t : Text) :
    ∃ ctx', Scans g ctx t (scanFrom g ctx t) ctx' [] := by
  induction ctx, t using scan_induction g with
  | nil ctx =>
      rw [scanFrom_nil]
      exact ⟨ctx, .here ctx []⟩
  | cons ctx c rest ih =>
      obtain ⟨ctx', h⟩ := ih
      rw [scanFrom_cons]
      exact ⟨ctx', .step h⟩

end Scans

theorem flatMap_text_scanFrom (g : Grammar) (ctx : ScanContext) (t : Text) :
    (scanFrom g ctx t).flatMap Piece.text = t := by
  obtain ⟨_, h⟩ := Scans.exists_end g ctx t
  simpa using h.text_append

/-- The scanner comes to the step that yields a piece. -/
theorem Scans.exists_step {g : Grammar} {ctx : ScanContext} {t : Text} {before behind : List Piece}
    {piece : Piece} (h : scanFrom g ctx t = before ++ piece :: behind) :
    ∃ passed ctx' c rest inner more, Scans g ctx t passed ctx' (c :: rest) ∧
      before = passed ++ inner ∧ (ctx'.step g c rest).pieces = inner ++ piece :: more ∧
      behind = more ++
        scanFrom g (ctx'.advance (ctx'.step g c rest)) (ctx'.step g c rest).rest := by
  induction ctx, t using scan_induction g generalizing before with
  | nil ctx => simp at h
  | cons ctx c rest ih =>
      have later (before' : List Piece)
          (hbefore : before = (ctx.step g c rest).pieces ++ before')
          (hmore : scanFrom g (ctx.advance (ctx.step g c rest)) (ctx.step g c rest).rest =
            before' ++ piece :: behind) :
          ∃ passed ctx' c' rest' inner more, Scans g ctx (c :: rest) passed ctx' (c' :: rest') ∧
            before = passed ++ inner ∧ (ctx'.step g c' rest').pieces = inner ++ piece :: more ∧
            behind = more ++
              scanFrom g (ctx'.advance (ctx'.step g c' rest')) (ctx'.step g c' rest').rest := by
        obtain ⟨passed, ctx', c', rest', inner, more, hrun, rfl, hstep⟩ := ih hmore
        exact ⟨_, ctx', c', rest', inner, more, .step hrun, by rw [hbefore, List.append_assoc],
          hstep⟩
      rw [scanFrom_cons] at h
      rcases List.append_eq_append_iff.mp h with ⟨before', hbefore, hmore⟩ | ⟨mid, hpieces, hmore⟩
      · exact later before' hbefore hmore
      · cases mid with
        | nil => exact later [] (by simpa using hpieces.symm) (by simpa using hmore.symm)
        | cons first more =>
            obtain ⟨rfl, hbehind⟩ := List.cons.inj hmore
            exact ⟨[], ctx, c, rest, before, more, .here ctx (c :: rest), rfl, hpieces, hbehind⟩

theorem Scans.getLast?_text_ne_nil {g : Grammar} {ctx ctx' : ScanContext} {t t' : Text}
    {pieces : List Piece} (h : Scans g ctx t pieces ctx' t') (hend : t' = [])
    (hctx : ctx.WellQuoted) : ∀ piece ∈ pieces.getLast?, piece.text ≠ [] := by
  induction h with
  | here => simp
  | @step ctx ctx' c rest t' pieces more ih =>
      obtain ⟨_, hshape⟩ := ctx.step_shape g hctx c rest
      have hmore := ih hend (hshape.wellQuoted_advance hctx)
      have htext := more.text_append
      intro piece hpiece
      cases pieces with
      | nil =>
          rw [List.flatMap_nil, List.nil_append, hend] at htext
          rw [List.append_nil] at hpiece
          exact hshape.text_ne_nil (.inr htext.symm) piece (List.mem_of_getLast? hpiece)
      | cons first pieces =>
          rw [List.getLast?_append_of_ne_nil _ (by simp)] at hpiece
          exact hmore piece hpiece

theorem forall_mem_scanFrom {g : Grammar} {P : Piece → Prop}
    (hstep : ∀ {ctx isOpen step}, Shape g ctx isOpen step → ∀ piece ∈ step.pieces, P piece)
    {ctx : ScanContext} (hctx : ctx.WellQuoted) (t : Text) :
    ∀ piece ∈ scanFrom g ctx t, P piece := by
  induction ctx, t using scan_induction g with
  | nil ctx => simp
  | cons ctx c rest ih =>
      obtain ⟨_, hshape⟩ := ctx.step_shape g hctx c rest
      intro piece hpiece
      rw [scanFrom_cons] at hpiece
      rcases List.mem_append.mp hpiece with hpiece | hpiece
      · exact hstep hshape piece hpiece
      · exact ih (hshape.wellQuoted_advance hctx) piece hpiece

end MarkupLayout

import MarkupLayout.Literal.Open
import MarkupLayout.Proofs.LineCut
import MarkupLayout.Proofs.Run
/-!
# Frames around a place

The frames that the token kinds leave open are those of the scanner: two for each string whose
embedded code is being read, and one more if the text ends inside a literal.  The last kinds tell
whether it does: on whole lines the last one that counts, and elsewhere also the end of embedded
code, behind which its string goes on.
-/

namespace MarkupLayout

open ScanStep (LiteralBody Shape)
open Literal (Frame)

/-- The frames around the code of `n` strings, each of them embedded in the next. -/
def embeddedFrames : Nat → List Frame
  | 0 => []
  | n + 1 => .embedded :: .literal :: embeddedFrames n

def ScanContext.frames (ctx : ScanContext) : List Frame :=
  embeddedFrames ctx.embeddings.length

def literalFrame (isOpen : Bool) : List Frame :=
  if isOpen then [.literal] else []

theorem head?_embeddedFrames_ne (n : Nat) : (embeddedFrames n).head? ≠ some .literal := by
  cases n <;> simp [embeddedFrames]

theorem literalFrame_inj {isOpen isOpen' : Bool} {frames : List Frame}
    (h : literalFrame isOpen ++ frames = literalFrame isOpen' ++ frames) : isOpen = isOpen' := by
  have heq := List.append_cancel_right h
  cases isOpen <;> cases isOpen' <;> simp_all [literalFrame]

theorem embeddedFrames_eq_nil_iff (n : Nat) : embeddedFrames n = [] ↔ n = 0 := by
  cases n <;> simp [embeddedFrames]

/-! ## Frames behind a step -/

theorem Literal.pass_of_isPlain {kind : TokenKind} (h : kind.isPlain = true)
    (frames : List Frame) : Literal.pass frames kind = frames := by
  cases kind <;> simp_all [TokenKind.isPlain, Literal.pass]

theorem Literal.pass_openBracket {kind : OpenKind} (h : kind ≠ .interpolationBegin)
    (frames : List Frame) : Literal.pass frames (.openBracket kind) = frames := by
  cases kind <;> simp_all [Literal.pass]

theorem Literal.pass_closeBracket {kind : OpenKind} (h : kind ≠ .interpolationBegin)
    (frames : List Frame) : Literal.pass frames (.closeBracket kind.closer) = frames := by
  cases kind <;> simp_all [Literal.pass, OpenKind.closer]

theorem foldl_pass_pieceOf {kind : TokenKind} {frames : List Frame}
    (h : Literal.pass frames kind = frames) (text : Text) :
    ((pieceOf kind text).map Piece.kind).foldl Literal.pass frames = frames := by
  unfold pieceOf
  split
  · rfl
  · exact h

namespace ScanStep

variable {g : Grammar} {ctx : ScanContext} {isOpen : Bool} {step : ScanStep}

theorem LiteralBody.foldl_pass {kind : LiteralKind} {embeddings : List Embedding} {depth : Nat}
    (h : LiteralBody g kind embeddings depth isOpen step) :
    (step.pieces.map Piece.kind).foldl Literal.pass
        (.literal :: embeddedFrames embeddings.length) =
      literalFrame isOpen ++ embeddedFrames step.embeddings.length := by
  have content (text : Text) (frames : List Frame) :
      ((pieceOf .literalContent text).map Piece.kind).foldl Literal.pass frames = frames :=
    foldl_pass_pieceOf rfl text
  cases h with
  | unclosed text => exact content text _
  | closed text closing rest _ _ =>
      rw [List.map_append, List.foldl_append, content]
      rfl
  | embeds text rest q _ _ _ =>
      rw [List.map_append, List.foldl_append, content]
      rfl

theorem Shape.foldl_pass (hg : g.LineEmbedding) (h : Shape g ctx isOpen step) :
    (step.pieces.map Piece.kind).foldl Literal.pass ctx.frames =
      literalFrame isOpen ++ (ctx.advance step).frames := by
  change _ = literalFrame isOpen ++ embeddedFrames step.embeddings.length
  cases h with
  | plain piece rest hfits => exact Literal.pass_of_isPlain hfits.plain _
  | opens kind declared c rest embeddings hdeclared hkind _ hquotes =>
      have hlength : embeddings.length = ctx.embeddings.length := by
        simpa using congrArg List.length hquotes
      have hne := Grammar.ne_interpolationBegin_of_opening? hg.only hdeclared hkind
      rw [hlength]
      exact Literal.pass_openBracket hne _
  | closes kind c rest embeddings hdeclared _ hquotes =>
      have hlength : embeddings.length = ctx.embeddings.length := by
        simpa using congrArg List.length hquotes
      have hne := Grammar.ne_interpolationBegin_of_closing? hg.only hdeclared
      rw [hlength]
      exact Literal.pass_closeBracket hne _
  | resumes e outer c body hembeddings _ hbody =>
      rw [ScanContext.frames, hembeddings]
      exact hbody.foldl_pass
  | literal kind blank opening gap body _ _ _ _ hbody =>
      rw [← hbody.foldl_pass, List.map_append, List.foldl_append, foldl_pass_pieceOf rfl,
        List.map_cons, List.foldl_cons, List.map_append, List.foldl_append, foldl_pass_pieceOf rfl]
      rfl

theorem Shape.rest_eq_nil (h : Shape g ctx true step) : step.rest = [] := by
  cases h with
  | resumes _ _ _ _ _ _ hbody =>
      cases hbody
      rfl
  | literal _ _ _ _ _ _ _ _ _ hbody =>
      cases hbody
      rfl

end ScanStep

/-! ## The text behind a step -/

namespace ScanContext

variable (g : Grammar) (ctx : ScanContext) {c : Char} {rest : Text}

theorem isWhole_step_rest (h : Text.IsWhole (c :: rest)) :
    (ctx.step g c rest).rest.IsWhole := by
  rw [← (ctx.step_cuts g c rest).append] at h
  exact h.of_append

theorem flatMap_text_step_ne_nil (c : Char) (rest : Text) :
    (ctx.step g c rest).pieces.flatMap Piece.text ≠ [] := by
  intro hnil
  obtain ⟨happend, hshorter⟩ := ctx.step_cuts g c rest
  rw [hnil, List.nil_append] at happend
  rw [happend] at hshorter
  exact Nat.lt_irrefl _ hshorter

theorem flatMap_text_step (h : (ctx.step g c rest).rest = []) :
    (ctx.step g c rest).pieces.flatMap Piece.text = c :: rest := by
  have happend := (ctx.step_cuts g c rest).append
  rwa [h, List.append_nil] at happend

end ScanContext

/-! ## Frames behind a run -/

theorem Scans.nil_inv {g : Grammar} {ctx ctx' : ScanContext} {pieces : List Piece} {t' : Text}
    (h : Scans g ctx [] pieces ctx' t') : pieces = [] ∧ ctx' = ctx ∧ t' = [] := by
  cases h
  exact ⟨rfl, rfl, rfl⟩

/-- The frames open behind a run are those of its context and, at the end of a text that ends
inside a literal, the frame of that literal. -/
theorem Scans.exists_foldl_pass {g : Grammar} (hg : g.LineEmbedding) {ctx ctx' : ScanContext}
    {t t' : Text} {pieces : List Piece} (h : Scans g ctx t pieces ctx' t')
    (hctx : ctx.WellQuoted) :
    ∃ isOpen, (pieces.map Piece.kind).foldl Literal.pass ctx.frames =
      literalFrame isOpen ++ ctx'.frames ∧ (isOpen = true → t' = []) := by
  induction h with
  | here => exact ⟨false, rfl, by simp⟩
  | @step ctx ctx' c rest t' pieces more ih =>
      obtain ⟨isOpen, hshape⟩ := ctx.step_shape g hctx c rest
      rw [List.map_append, List.foldl_append, hshape.foldl_pass hg]
      cases isOpen with
      | false => exact ih (hshape.wellQuoted_advance hctx)
      | true =>
          rw [hshape.rest_eq_nil] at more
          obtain ⟨rfl, rfl, rfl⟩ := more.nil_inv
          exact ⟨true, rfl, fun _ => rfl⟩

theorem Literal.isOpenAfter_eq (g : Grammar) (t : Text) :
    Literal.isOpenAfter g t =
      ((Literal.openFrames ((scan g t).map Piece.kind)).head? == some .literal) := by
  rw [isOpenAfter, endsInside, tokenize, Token.map_kind_place]

theorem Literal.openFrames_of_scans {g : Grammar} (hg : g.LineEmbedding) {ctx : ScanContext}
    {t : Text} (h : Scans g .initial t (scan g t) ctx []) :
    Literal.openFrames ((scan g t).map Piece.kind) =
      literalFrame (Literal.isOpenAfter g t) ++ ctx.frames := by
  obtain ⟨isOpen, hframes, -⟩ := h.exists_foldl_pass hg ScanContext.wellQuoted_initial
  change Literal.openFrames ((scan g t).map Piece.kind) = _ at hframes
  rw [hframes, Literal.isOpenAfter_eq, hframes]
  cases isOpen with
  | true => rfl
  | false =>
      have hhead := head?_embeddedFrames_ne ctx.embeddings.length
      simp only [literalFrame, ScanContext.frames, Bool.false_eq_true, ↓reduceIte, List.nil_append,
        beq_eq_false_iff_ne.mpr hhead]

/-! ## The last kind that counts -/

def TokenKind.isInLiteral : TokenKind → Bool
  | literalBegin _ | literalContent => true
  | _ => false

/-- Whether the last of the kinds that are not trivia is one of a literal. -/
def endInLiteral (kinds : List TokenKind) : Bool :=
  (kinds.reverse.find? (!·.isTrivia)).any TokenKind.isInLiteral

theorem endInLiteral_concat (kinds : List TokenKind) (kind : TokenKind) :
    endInLiteral (kinds ++ [kind]) =
      if kind.isTrivia then endInLiteral kinds else kind.isInLiteral := by
  rw [endInLiteral, List.reverse_concat, List.find?_cons]
  cases hkind : kind.isTrivia <;> simp [endInLiteral]

theorem endInLiteral_append_of_false {left : List TokenKind} (h : endInLiteral left = false)
    (right : List TokenKind) : endInLiteral (left ++ right) = endInLiteral right := by
  unfold endInLiteral at h ⊢
  rw [List.reverse_append, List.find?_append]
  cases hfound : right.reverse.find? (!·.isTrivia) with
  | none => simpa using h
  | some kind => rfl

/-- Whether the last kinds leave a literal open: the last that is not trivia is one of a literal, or
the very last ends the code embedded in a string, which goes on behind it. -/
def leavesOpen (kinds : List TokenKind) : Bool :=
  endInLiteral kinds || kinds.getLast? == some (.closeBracket .interpolationEnd)

theorem leavesOpen_concat (kinds : List TokenKind) {kind : TokenKind}
    (h : kind.isTrivia = false) : leavesOpen (kinds ++ [kind]) =
      (kind.isInLiteral || kind == .closeBracket .interpolationEnd) := by
  simp [leavesOpen, endInLiteral_concat, h]

theorem leavesOpen_concat_of_isTrivia (kinds : List TokenKind) {kind : TokenKind}
    (h : kind.isTrivia = true) : leavesOpen (kinds ++ [kind]) = endInLiteral kinds := by
  have hne : kind ≠ .closeBracket .interpolationEnd := by
    rintro rfl
    simp [TokenKind.isTrivia] at h
  simp [leavesOpen, endInLiteral_concat, h, hne]

theorem leavesOpen_append {left : List TokenKind} (h : leavesOpen left = false)
    (right : List TokenKind) : leavesOpen (left ++ right) = leavesOpen right := by
  rw [leavesOpen, Bool.or_eq_false_iff] at h
  rw [leavesOpen, leavesOpen, endInLiteral_append_of_false h.1, List.getLast?_append]
  cases right.getLast? with
  | none => rw [Option.none_or, h.2, beq_eq_false_iff_ne.mpr (by simp)]
  | some kind => rfl

theorem leavesOpen_of_isPlain {kind : TokenKind} (h : kind.isPlain = true) :
    leavesOpen [kind] = false := by
  cases kind <;> simp_all [TokenKind.isPlain, leavesOpen, endInLiteral, TokenKind.isTrivia,
    TokenKind.isInLiteral]

namespace ScanStep

variable {g : Grammar} {ctx : ScanContext} {isOpen : Bool} {step : ScanStep}

theorem LiteralBody.leavesOpen_eq {kind : LiteralKind} {embeddings : List Embedding} {depth : Nat}
    (h : LiteralBody g kind embeddings depth isOpen step) (before : List TokenKind)
    (hbefore : leavesOpen before = true) :
    leavesOpen (before ++ step.pieces.map Piece.kind) = isOpen := by
  cases h with
  | unclosed content =>
      by_cases hcontent : content = []
      · simpa [pieceOf, hcontent] using hbefore
      · simp only [pieceOf, if_neg hcontent]
        exact leavesOpen_concat before rfl
  | closed =>
      rw [List.map_append, ← List.append_assoc]
      exact leavesOpen_concat _ rfl
  | embeds =>
      rw [List.map_append, ← List.append_assoc]
      exact leavesOpen_concat _ rfl

theorem leavesOpen_literalBegin (kind : LiteralKind) (blank opening gap : Text) :
    leavesOpen ((pieceOf .space blank ++ ⟨.literalBegin kind, opening⟩ ::
      pieceOf .newline gap).map Piece.kind) = true := by
  rw [List.map_append, List.map_cons, ← List.singleton_append, ← List.append_assoc]
  by_cases hgap : gap = []
  · simp only [pieceOf, if_pos hgap, List.map_nil, List.append_nil]
    exact leavesOpen_concat _ rfl
  · simp only [pieceOf, if_neg hgap, List.map_cons, List.map_nil]
    rw [leavesOpen_concat_of_isTrivia _ rfl]
    exact endInLiteral_concat _ _

theorem Shape.leavesOpen_eq (hg : g.LineEmbedding) (h : Shape g ctx isOpen step) :
    leavesOpen (step.pieces.map Piece.kind) = isOpen := by
  cases h with
  | plain piece rest hfits => exact leavesOpen_of_isPlain hfits.plain
  | opens => rfl
  | closes kind c rest embeddings hdeclared _ _ =>
      have hne := Grammar.ne_interpolationBegin_of_closing? hg.only hdeclared
      have hcloser : kind.closer ≠ .interpolationEnd := by
        cases kind <;> simp_all [OpenKind.closer]
      rw [List.map_singleton, ← List.nil_append [_], leavesOpen_concat [] rfl]
      simpa [TokenKind.isInLiteral] using hcloser
  | resumes e outer c body _ _ hbody =>
      exact hbody.leavesOpen_eq [.closeBracket .interpolationEnd] rfl
  | literal kind blank opening gap body _ _ _ _ hbody =>
      have hend := hbody.leavesOpen_eq _ (leavesOpen_literalBegin kind blank opening gap)
      simpa [List.append_assoc] using hend

theorem Shape.lineFeed_notMem_of_closeBracket (h : Shape g ctx isOpen step) :
    ∀ piece ∈ step.pieces, ∀ kind, piece.kind = .closeBracket kind → '\n' ∉ piece.text := by
  intro piece hpiece kind hkind
  cases h.part hpiece with
  | plain _ _ hfits => simpa [hkind, TokenKind.isPlain] using hfits.plain
  | closes _ c hc => simpa using hc.symm
  | _ => simp at hkind

end ScanStep

theorem Scans.leavesOpen_eq {g : Grammar} (hg : g.LineEmbedding) {ctx ctx' : ScanContext}
    {t t' : Text} {pieces : List Piece} {isOpen : Bool} (h : Scans g ctx t pieces ctx' t')
    (hctx : ctx.WellQuoted)
    (hframes : (pieces.map Piece.kind).foldl Literal.pass ctx.frames =
      literalFrame isOpen ++ ctx'.frames) :
    leavesOpen (pieces.map Piece.kind) = isOpen := by
  induction h with
  | here ctx t =>
      change literalFrame false ++ ctx.frames = _ at hframes
      exact literalFrame_inj hframes
  | @step ctx ctx' c rest t' pieces more ih =>
      obtain ⟨firstOpen, hshape⟩ := ctx.step_shape g hctx c rest
      rw [List.map_append, List.foldl_append, hshape.foldl_pass hg] at hframes
      rw [List.map_append]
      cases firstOpen with
      | true =>
          rw [hshape.rest_eq_nil] at more
          obtain ⟨rfl, rfl, rfl⟩ := more.nil_inv
          rw [← literalFrame_inj hframes, List.map_nil, List.append_nil, hshape.leavesOpen_eq hg]
      | false =>
          rw [leavesOpen_append (hshape.leavesOpen_eq hg)]
          exact ih (hshape.wellQuoted_advance hctx) hframes

namespace Literal

variable {g : Grammar}

theorem leavesOpen_scan (hg : g.LineEmbedding) (t : Text) :
    leavesOpen ((scan g t).map Piece.kind) = isOpenAfter g t := by
  obtain ⟨ctx, h⟩ := Scans.exists_end g .initial t
  exact h.leavesOpen_eq hg ScanContext.wellQuoted_initial (openFrames_of_scans hg h)

theorem getLast?_kind_scan_ne {t : Text} (ht : t.IsWhole) :
    ((scan g t).map Piece.kind).getLast? ≠ some (.closeBracket .interpolationEnd) := by
  intro hlast
  rw [List.getLast?_map] at hlast
  obtain ⟨piece, hpiece, hkind⟩ := Option.map_eq_some_iff.mp hlast
  obtain ⟨before, hsplit⟩ := List.getLast?_eq_some_iff.mp hpiece
  have hline := forall_mem_scanFrom (fun hshape => hshape.lineFeed_notMem_of_closeBracket)
    ScanContext.wellQuoted_initial t piece (List.mem_of_getLast? hpiece) _ hkind
  obtain ⟨ctx, h⟩ := Scans.exists_end g .initial t
  have hne := h.getLast?_text_ne_nil rfl ScanContext.wellQuoted_initial piece hpiece
  have htext := flatMap_text_scanFrom g .initial t
  change (scan g t).flatMap Piece.text = t at htext
  rw [hsplit, List.flatMap_append, List.flatMap_singleton] at htext
  rw [← htext] at ht
  exact hline (List.mem_of_getLast? (ht.of_append.getLast? hne))

/-- On whole lines, the last kind that counts says the same. -/
theorem endInLiteral_scan (hg : g.LineEmbedding) {t : Text} (ht : t.IsWhole) :
    endInLiteral ((scan g t).map Piece.kind) = isOpenAfter g t := by
  rw [← leavesOpen_scan hg, leavesOpen, beq_eq_false_iff_ne.mpr (getLast?_kind_scan_ne ht),
    Bool.or_false]

end Literal

end MarkupLayout

import MarkupLayout.Proofs.IndentedScan
/-!
# Indentation inside literals

At the start of a line inside a literal, the indentation of the line is text of the literal.  The
piece that holds it gets another text when the indentation changes.  All other pieces stay the
same, for what the scanner does next never depends on the text of a literal.
-/

namespace MarkupLayout

/-! ## Contexts that differ in the text of a literal -/

/-- The piece without the text that it may have taken from a literal. -/
def Piece.faded (piece : Piece) : Piece :=
  { piece with text := if piece.kind.isLiteralText then [] else piece.text }

namespace ScanContext

def faded (ctx : ScanContext) : ScanContext :=
  { ctx with last := ctx.last.map Piece.faded }

variable (g : Grammar) (ctx : ScanContext)

theorem lineBreak_faded : ctx.faded.lineBreak g = ctx.lineBreak g := by
  obtain ⟨previous, last, embeddings, depth⟩ := ctx
  cases last with
  | none => rfl
  | some piece =>
      obtain ⟨kind, text⟩ := piece
      cases kind <;> rfl

theorem atLineHead_faded : ctx.faded.atLineHead = ctx.atLineHead :=
  Option.isNone_map

theorem openBracket_faded (kind : OpenKind) (c : Char) (rest : Text) :
    ctx.faded.openBracket g kind c rest = ctx.openBracket g kind c rest := by
  have harrow : (ctx.faded.last.any fun piece =>
      piece.kind == .operator && piece.text == g.lambdaArrow) =
      ctx.last.any fun piece => piece.kind == .operator && piece.text == g.lambdaArrow := by
    obtain ⟨previous, last, embeddings, depth⟩ := ctx
    cases last with
    | none => rfl
    | some piece =>
        obtain ⟨kind, text⟩ := piece
        cases kind <;> rfl
  simp only [openBracket, harrow]
  rfl

theorem lexeme_faded (c : Char) (rest : Text) :
    ctx.faded.lexeme g c rest = ctx.lexeme g c rest := by
  -- Only line breaks, words and opening brackets look at the last piece.
  simp only [lexeme]
  split
  · rfl
  · rw [lineBreak_faded]
    rfl
  · simp only [word, keywordOrPlain, atLineHead_faded]
    rfl
  · rfl
  · rfl
  · rfl
  · rfl
  · rfl
  · rfl
  · simp only [otherChar, openBracket_faded]
    rfl

theorem step_faded (c : Char) (rest : Text) : ctx.faded.step g c rest = ctx.step g c rest := by
  simp only [step, lexeme_faded]
  rfl

theorem last_pass_faded (piece : Piece) :
    (ctx.faded.pass piece.faded).last = (ctx.pass piece).last.map Piece.faded := by
  cases hbreak : piece.kind.isLineBreak with
  | true => simp [pass, Piece.faded, hbreak]
  | false =>
      by_cases hspace : piece.kind = .space
      · simp [pass, Piece.faded, hspace, faded, TokenKind.isLineBreak]
      · simp [pass, Piece.faded, hbreak, hspace]

theorem last_foldl_pass_faded (pieces : List Piece) :
    ((pieces.map Piece.faded).foldl pass ctx.faded).last =
      (pieces.foldl pass ctx).last.map Piece.faded := by
  induction pieces generalizing ctx with
  | nil => rfl
  | cons piece more ih =>
      rw [List.map_cons, List.foldl_cons, List.foldl_cons, ← ih]
      exact last_foldl_pass_congr _ (ctx.last_pass_faded piece)

variable {g ctx}

theorem faded_advance {ctx' : ScanContext} {step step' : ScanStep} (h : ctx.faded = ctx'.faded)
    (hpieces : step.pieces.map Piece.faded = step'.pieces.map Piece.faded)
    (hprevious : (step.pieces.flatMap Piece.text).getLast?.or ctx.previous =
      (step'.pieces.flatMap Piece.text).getLast?.or ctx'.previous)
    (hembeddings : step.embeddings = step'.embeddings) (hdepth : step.depth = step'.depth) :
    (ctx.advance step).faded = (ctx'.advance step').faded := by
  have hlast : (step.pieces.foldl pass ctx).last.map Piece.faded =
      (step'.pieces.foldl pass ctx').last.map Piece.faded := by
    rw [← last_foldl_pass_faded, ← last_foldl_pass_faded, hpieces, h]
  simp only [faded, advance, previous_foldl_pass, hprevious, hlast, hembeddings, hdepth]

end ScanContext

theorem scanFrom_congr_faded (g : Grammar) {ctx ctx' : ScanContext} (h : ctx.faded = ctx'.faded)
    (t : Text) : scanFrom g ctx t = scanFrom g ctx' t := by
  induction ctx, t using scan_induction g generalizing ctx' with
  | nil ctx => rw [scanFrom_nil, scanFrom_nil]
  | cons ctx c rest ih =>
      have hstep : ctx'.step g c rest = ctx.step g c rest := by
        rw [← ctx'.step_faded, ← h, ctx.step_faded]
      have hprevious : ctx.faded.previous = ctx'.faded.previous := by rw [h]
      change ctx.previous = ctx'.previous at hprevious
      rw [scanFrom_cons, scanFrom_cons, hstep]
      congr 1
      apply ih
      exact ScanContext.faded_advance h rfl (by rw [hprevious]) rfl rfl

/-! ## The line -/

namespace Text

variable {g : Grammar} {x r : Text}

/-- Inside literals, the indentation of a line is held by one piece, and the other pieces do not
depend on it. -/
theorem exists_scan_indent_of_open (hg : g.VisibleEmbedding) (hx : x.IsWhole)
    (hopen : Literal.isOpenAfter g x = true) (hr : r ≠ []) :
    ∃ head kind before behind later, kind.isLiteralText = true ∧
      head.flatMap Piece.text ++ before = x ∧ behind ++ later.flatMap Piece.text = r ∧
      ∀ w : Text, w.all isIndentChar = true →
        scan g (x ++ (w ++ r)) = head ++ ⟨kind, before ++ (w ++ behind)⟩ :: later := by
  obtain ⟨ctx, hrun⟩ := Scans.exists_end g .initial x
  have hframes := Literal.openFrames_of_scans hg.toLineEmbedding hrun
  rw [hopen] at hframes
  obtain ⟨passed, reached, c, rest, hreached, hpieces, hovershoots⟩ :=
    hrun.exists_overshoots hg.toLineEmbedding ScanContext.wellQuoted_initial hx hframes
  obtain ⟨head, kind, before, behind, after, hholds⟩ := hovershoots.holdsIndent hg r hr
  have hplain := hholds.readOn [] rfl
  -- Behind the literal, the scanner goes on as it would without indentation.
  have hlater {w : Text} (hw : w.all isIndentChar = true) :
      scanFrom g (reached.advance (reached.step g c (rest ++ (w ++ r)))) after.rest =
        scanFrom g (reached.advance (reached.step g c (rest ++ ([] ++ r)))) after.rest := by
    rcases hholds.visible with hend | hvisible
    · rw [hend, scanFrom_nil, scanFrom_nil]
    · apply scanFrom_congr_faded
      rw [hholds.readOn w hw, hplain]
      apply ScanContext.faded_advance rfl
      · simp [Piece.faded, hholds.literal]
      · have hlast (w : Text) : (head.flatMap Piece.text ++ (before ++ (w ++
            (behind ++ after.pieces.flatMap Piece.text)))).getLast? =
              (behind ++ after.pieces.flatMap Piece.text).getLast? := by
          rw [← List.append_assoc, ← List.append_assoc, List.getLast?_append_of_ne_nil _ hvisible]
        simp only [List.flatMap_append, List.flatMap_cons, List.append_assoc, hlast]
      · rfl
      · rfl
  have hscan (w : Text) (hw : w.all isIndentChar = true) :
      scan g (x ++ (w ++ r)) = (passed ++ head) ++ ⟨kind, before ++ (w ++ behind)⟩ ::
        (after.pieces ++
          scanFrom g (reached.advance (reached.step g c (rest ++ ([] ++ r)))) after.rest) := by
    have hrest : (reached.step g c (rest ++ (w ++ r))).rest = after.rest := by
      rw [hholds.readOn w hw]
    rw [scan, (hreached (w ++ r)).scanFrom_eq, scanFrom_cons, hrest, hlater hw, hholds.readOn w hw]
    simp only [List.append_assoc, List.cons_append]
  have hbefore : (passed ++ head).flatMap Piece.text ++ before = x := by
    rw [List.flatMap_append, List.append_assoc, hholds.cutShort, ← List.flatMap_append, ← hpieces,
      flatMap_text_scanFrom]
  refine ⟨passed ++ head, kind, before, behind, _, hholds.literal, hbefore, ?_, hscan⟩
  have htext : (scan g (x ++ ([] ++ r))).flatMap Piece.text = x ++ ([] ++ r) :=
    flatMap_text_scanFrom g .initial _
  rw [hscan [] rfl, List.flatMap_append, List.flatMap_cons] at htext
  rw [← List.append_assoc, ← List.append_assoc, hbefore, List.append_assoc,
    List.append_cancel_left_eq] at htext
  simpa using htext

end Text

end MarkupLayout

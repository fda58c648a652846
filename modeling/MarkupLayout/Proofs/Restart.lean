import MarkupLayout.Proofs.Extension
import MarkupLayout.Proofs.TokenCoverage
/-!
# Scanning from a line on

A scanner that starts at a line where nothing is open reads the text from there on as the scanner
that comes from above does.  The two differ in the number of brackets they count, and so only in
which line breaks end a logical line.
-/

namespace MarkupLayout

def TokenKind.blurred : TokenKind → TokenKind
  | ignoredNewline => newline
  | kind => kind

def Piece.blurred (piece : Piece) : Piece :=
  { piece with kind := piece.kind.blurred }

def Token.blurred (token : Token) : Token :=
  { token with kind := token.kind.blurred }

/-- What of a step does not depend on the number of open brackets. -/
def ScanStep.blurred (step : ScanStep) : ScanStep :=
  { step with pieces := step.pieces.map Piece.blurred, depth := 0 }

/-- Contexts that agree but for the number of open brackets and in what they need to know of the
character before. -/
structure ScanContext.Alike (ctx ctx' : ScanContext) : Prop where
  atLineStart : ctx.atLineStart = ctx'.atLineStart
  followsWordChar : ctx.followsWordChar = ctx'.followsWordChar
  last : ctx.last = ctx'.last
  embeddings : ctx.embeddings = ctx'.embeddings

/-! ## One step -/

namespace ScanContext.Alike

variable {ctx ctx' : ScanContext} (h : Alike ctx ctx') (g : Grammar)

include h

theorem emit_blurred (kind : TokenKind) (text rest : Text) :
    (ctx.emit kind text rest).blurred = (ctx'.emit kind text rest).blurred := by
  simp only [emit, ScanStep.blurred, h.embeddings]

theorem plainWord_blurred (word rest : Text) :
    (ctx.plainWord word rest).blurred = (ctx'.plainWord word rest).blurred := by
  unfold plainWord
  split
  · split <;> exact h.emit_blurred ..
  · exact h.emit_blurred ..

theorem keywordOrPlain_blurred (word rest : Text) :
    (ctx.keywordOrPlain g word rest).blurred = (ctx'.keywordOrPlain g word rest).blurred := by
  have hhead : ctx.atLineHead = ctx'.atLineHead := by rw [atLineHead, h.last, atLineHead]
  unfold keywordOrPlain
  rw [hhead]
  split
  · split
    · exact h.emit_blurred ..
    · exact h.plainWord_blurred ..
  · exact h.plainWord_blurred ..

theorem word_blurred (text rest : Text) :
    (ctx.word g text rest).blurred = (ctx'.word g text rest).blurred := by
  unfold word
  split
  · split
    · exact h.emit_blurred ..
    · exact h.keywordOrPlain_blurred ..
  · exact h.keywordOrPlain_blurred ..

theorem operator_blurred (text rest : Text) :
    (ctx.operator g text rest).blurred = (ctx'.operator g text rest).blurred := by
  simp only [operator, h.followsWordChar]
  repeat' split
  all_goals exact h.emit_blurred ..

theorem hashes_blurred (text rest : Text) :
    (ctx.hashes g text rest).blurred = (ctx'.hashes g text rest).blurred := by
  unfold hashes
  split <;> exact h.emit_blurred ..

theorem colons_blurred (text rest : Text) :
    (ctx.colons g text rest).blurred = (ctx'.colons g text rest).blurred := by
  simp only [colons, h.followsWordChar]
  repeat' split
  all_goals exact h.emit_blurred ..

theorem codeSpan_blurred (text rest : Text) :
    (ctx.codeSpan g text rest).blurred = (ctx'.codeSpan g text rest).blurred := by
  unfold codeSpan
  split
  · exact h.emit_blurred ..
  · simp only [ScanStep.blurred, h.embeddings]
    split <;> rfl

omit h in
theorem quotedStep_blurred (q : Char) (embeddings : List Embedding) (depth depth' : Nat)
    (t : Text) :
    (quotedStep g q embeddings depth t).blurred =
      (quotedStep g q embeddings depth' t).blurred := by
  simp only [quotedStep]
  split
  · rfl
  · split <;> rfl

omit h in
theorem precededBy_blurred {step step' : ScanStep} (heq : step.blurred = step'.blurred)
    (piece : Piece) : (step.precededBy piece).blurred = (step'.precededBy piece).blurred := by
  simp only [ScanStep.blurred, ScanStep.mk.injEq] at heq
  simp only [ScanStep.precededBy, ScanStep.blurred, List.map_cons, heq]

theorem openBracket_blurred (kind : OpenKind) (c : Char) (rest : Text) :
    (ctx.openBracket g kind c rest).blurred = (ctx'.openBracket g kind c rest).blurred := by
  simp only [openBracket, h.last, h.embeddings, ScanStep.blurred]

theorem closeBracket_blurred (kind : OpenKind) (c : Char) (rest : Text) :
    (ctx.closeBracket g kind c rest).blurred = (ctx'.closeBracket g kind c rest).blurred := by
  simp only [closeBracket, h.embeddings]
  split
  · rfl
  · split
    · exact precededBy_blurred (quotedStep_blurred g _ _ _ _ _) _
    · rfl

theorem quote_blurred (mark : QuoteMark) (c : Char) (rest : Text) :
    (ctx.quote g mark c rest).blurred = (ctx'.quote g mark c rest).blurred := by
  simp only [quote, h.followsWordChar, h.embeddings]
  split
  · exact h.emit_blurred ..
  · exact precededBy_blurred (quotedStep_blurred g _ _ _ _ _) _

theorem otherChar_blurred (c : Char) (rest : Text) :
    (ctx.otherChar g c rest).blurred = (ctx'.otherChar g c rest).blurred := by
  unfold otherChar
  split
  · exact h.openBracket_blurred ..
  · split
    · exact h.closeBracket_blurred ..
    · split
      · exact h.quote_blurred ..
      · exact h.emit_blurred ..

omit h in
theorem lineBreak_blurred (ctx : ScanContext) : (ctx.lineBreak g).blurred = .newline := by
  unfold lineBreak
  repeat' split
  all_goals rfl

theorem lexeme_blurred (c : Char) (rest : Text) :
    (ctx.lexeme g c rest).blurred = (ctx'.lexeme g c rest).blurred := by
  simp only [lexeme]
  split
  · exact h.emit_blurred ..
  · simp only [emit, ScanStep.blurred, h.embeddings, List.map_cons, Piece.blurred,
      lineBreak_blurred, List.map_nil]
  · exact h.word_blurred ..
  · exact h.operator_blurred ..
  · exact h.hashes_blurred ..
  · exact h.emit_blurred ..
  · exact h.colons_blurred ..
  · exact h.emit_blurred ..
  · exact h.codeSpan_blurred ..
  · exact h.otherChar_blurred ..

theorem fenceStep_blurred (f : Char) (info t : Text) :
    (ctx.fenceStep f info t).blurred = (ctx'.fenceStep f info t).blurred := by
  simp only [fenceStep, ScanStep.blurred, h.embeddings]

theorem step_blurred (c : Char) (rest : Text) :
    (ctx.step g c rest).blurred = (ctx'.step g c rest).blurred := by
  simp only [step, h.embeddings, h.atLineStart]
  split
  · rw [fence?_eq, fence?_eq]
    split
    · exact h.lexeme_blurred ..
    · split
      · exact h.fenceStep_blurred ..
      · exact h.lexeme_blurred ..
  · exact h.lexeme_blurred ..

end ScanContext.Alike

/-! ## A whole text -/

theorem Piece.isLineBreak_blurred (piece : Piece) :
    piece.blurred.kind.isLineBreak = piece.kind.isLineBreak := by
  obtain ⟨kind, text⟩ := piece
  cases kind <;> rfl

theorem Piece.blurred_of_not_isLineBreak {piece : Piece} (h : piece.kind.isLineBreak = false) :
    piece.blurred = piece := by
  obtain ⟨kind, text⟩ := piece
  cases kind <;> simp_all [Piece.blurred, TokenKind.blurred, TokenKind.isLineBreak]

theorem ScanContext.last_pass_blurred (ctx : ScanContext) (piece : Piece) :
    (ctx.pass piece.blurred).last = (ctx.pass piece).last := by
  cases hbreak : piece.kind.isLineBreak with
  | true => simp [pass, Piece.isLineBreak_blurred, hbreak]
  | false => rw [Piece.blurred_of_not_isLineBreak hbreak]

theorem ScanContext.last_foldl_pass_blurred (pieces : List Piece) (ctx : ScanContext) :
    ((pieces.map Piece.blurred).foldl pass ctx).last = (pieces.foldl pass ctx).last := by
  induction pieces generalizing ctx with
  | nil => rfl
  | cons piece more ih =>
      rw [List.map_cons, List.foldl_cons, ih, List.foldl_cons]
      exact last_foldl_pass_congr more (ctx.last_pass_blurred piece)

theorem flatMap_text_map_blurred (pieces : List Piece) :
    (pieces.map Piece.blurred).flatMap Piece.text = pieces.flatMap Piece.text := by
  rw [List.flatMap_map]
  rfl

theorem ScanContext.Alike.advance {ctx ctx' : ScanContext} (h : Alike ctx ctx')
    {step step' : ScanStep} (heq : step.blurred = step'.blurred)
    (htext : step.pieces.flatMap Piece.text ≠ []) :
    Alike (ctx.advance step) (ctx'.advance step') := by
  simp only [ScanStep.blurred, ScanStep.mk.injEq, and_true] at heq
  obtain ⟨hpieces, -, hembeddings⟩ := heq
  have hprevious : (ctx.advance step).previous = (ctx'.advance step').previous := by
    have hsame : step'.pieces.flatMap Piece.text = step.pieces.flatMap Piece.text := by
      rw [← flatMap_text_map_blurred, ← hpieces, flatMap_text_map_blurred]
    change (step.pieces.foldl pass ctx).previous = (step'.pieces.foldl pass ctx').previous
    rw [previous_foldl_pass, previous_foldl_pass, hsame,
      List.getLast?_eq_some_getLast htext]
    rfl
  refine ⟨?_, ?_, ?_, hembeddings⟩
  · simp only [ScanContext.atLineStart, hprevious]
  · simp only [ScanContext.followsWordChar, hprevious]
  · change (step.pieces.foldl pass ctx).last = (step'.pieces.foldl pass ctx').last
    rw [← last_foldl_pass_blurred, hpieces, last_foldl_pass_blurred]
    exact last_foldl_pass_congr _ h.last

/-- Entered in alike contexts, a text is cut into the same pieces. -/
theorem scanFrom_blurred (g : Grammar) {ctx ctx' : ScanContext} (h : ctx.Alike ctx') (t : Text) :
    (scanFrom g ctx t).map Piece.blurred = (scanFrom g ctx' t).map Piece.blurred := by
  induction ctx, t using scan_induction g generalizing ctx' with
  | nil ctx => simp
  | cons ctx c rest ih =>
      have hstep := h.step_blurred g c rest
      have hmore := ih (h.advance hstep (ctx.flatMap_text_step_ne_nil g c rest))
      simp only [ScanStep.blurred, ScanStep.mk.injEq, and_true] at hstep
      rw [scanFrom_cons, scanFrom_cons, List.map_append, List.map_append, hstep.1, hmore,
        hstep.2.1]

/-! ## Starting at a line -/

theorem Literal.openFrames_map_blurred (kinds : List TokenKind) :
    Literal.openFrames (kinds.map TokenKind.blurred) = Literal.openFrames kinds := by
  have hpass (frames : List Frame) (kind : TokenKind) :
      pass frames kind.blurred = pass frames kind := by
    cases kind <;> rfl
  simp only [openFrames, List.foldl_map, hpass]

theorem Piece.map_kind_blurred (pieces : List Piece) :
    (pieces.map Piece.blurred).map Piece.kind = (pieces.map Piece.kind).map TokenKind.blurred := by
  rw [List.map_map, List.map_map]
  rfl

theorem Token.map_blurred_place (p : Position) (pieces : List Piece) :
    (place p pieces).map Token.blurred = place p (pieces.map Piece.blurred) := by
  induction pieces generalizing p with
  | nil => rfl
  | cons piece more ih => exact congrArg _ (ih (p.after piece.text))

theorem Position.after_isWhole (line : Nat) {t : Text} (h : t.IsWhole) :
    Position.after ⟨line, 0⟩ t = ⟨line + t.count '\n', 0⟩ := by
  rw [after_eq]
  rcases h with rfl | hlast
  · rfl
  · obtain ⟨before, rfl⟩ := List.getLast?_eq_some_iff.mp hlast
    rw [List.rtakeWhile_concat_neg _ _ _ (by simp)]
    rfl

/-- Whole lines behind which nothing is open. -/
structure Text.Complete (g : Grammar) (t : Text) : Prop where
  isWhole : t.IsWhole
  openFrames : Literal.openFrames ((scan g t).map Piece.kind) = []

namespace Text.Complete

variable {g : Grammar} {t : Text}

theorem exists_end (hg : g.LineEmbedding) (h : t.Complete g) :
    ∃ ctx, Scans g .initial t (scan g t) ctx [] ∧ ctx.embeddings = [] ∧
      ((scan g t).map Piece.kind).foldl Literal.pass ScanContext.initial.frames = ctx.frames := by
  obtain ⟨ctx, hrun⟩ := Scans.exists_end g .initial t
  have hframes := Literal.openFrames_of_scans hg hrun
  rw [h.openFrames] at hframes
  have hctx := (List.append_eq_nil_iff.mp hframes.symm).2
  exact ⟨ctx, hrun, List.eq_nil_of_length_eq_zero ((embeddedFrames_eq_nil_iff _).mp hctx),
    h.openFrames.trans hctx.symm⟩

theorem exists_lineBreak (hg : g.LineEmbedding) (h : t.Complete g)
    (hlast : t.getLast? = some '\n') :
    ∃ before piece, scan g t = before ++ [piece] ∧ piece.kind.isLineBreak = true := by
  obtain ⟨ctx, hrun, -, hclosed⟩ := h.exists_end hg
  exact hrun.exists_lineBreak hg rfl ScanContext.wellQuoted_initial hlast hclosed

theorem exists_scans (hg : g.LineEmbedding) (h : t.Complete g) (r : Text) :
    ∃ ctx, Scans g .initial (t ++ r) (scan g t) ctx r ∧ ctx.Alike .initial := by
  obtain ⟨ctx, hrun, hembeddings, hclosed⟩ := h.exists_end hg
  refine ⟨ctx, hrun.extend hg ScanContext.wellQuoted_initial h.isWhole hclosed r, ?_⟩
  have hprevious := hrun.previous_eq
  rw [scan, flatMap_text_scanFrom] at hprevious
  rcases h.isWhole with rfl | hlast
  · rw [scan, scanFrom_nil] at hrun
    obtain ⟨-, rfl, -⟩ := hrun.nil_inv
    exact ⟨rfl, rfl, rfl, rfl⟩
  · obtain ⟨before, piece, hpieces, hbreak⟩ := h.exists_lineBreak hg hlast
    rw [hlast] at hprevious
    refine ⟨?_, ?_, ?_, hembeddings⟩
    · simp [ScanContext.atLineStart, hprevious, ScanContext.initial]
    · simp only [ScanContext.followsWordChar, hprevious]
      decide +kernel
    · rw [hrun.last_eq, hpieces, ScanContext.last_foldl_pass_concat, if_pos hbreak]
      rfl

/-- What follows complete lines is cut as if it stood alone. -/
theorem exists_scan_append (hg : g.LineEmbedding) (h : t.Complete g) (r : Text) :
    ∃ pieces, scan g (t ++ r) = scan g t ++ pieces ∧
      pieces.map Piece.blurred = (scan g r).map Piece.blurred := by
  obtain ⟨ctx, hrun, halike⟩ := h.exists_scans hg r
  exact ⟨scanFrom g ctx r, hrun.scanFrom_eq, scanFrom_blurred g halike r⟩

theorem isOpenAfter_append (hg : g.LineEmbedding) (h : t.Complete g) (r : Text) :
    Literal.isOpenAfter g (t ++ r) = Literal.isOpenAfter g r := by
  obtain ⟨pieces, hscan, hpieces⟩ := h.exists_scan_append hg r
  have hframes : Literal.openFrames ((scan g (t ++ r)).map Piece.kind) =
      Literal.openFrames ((scan g r).map Piece.kind) := by
    rw [hscan, List.map_append, Literal.openFrames, List.foldl_append]
    change (pieces.map Piece.kind).foldl Literal.pass (Literal.openFrames _) = _
    rw [h.openFrames]
    change Literal.openFrames _ = _
    rw [← Literal.openFrames_map_blurred, ← Piece.map_kind_blurred, hpieces,
      Piece.map_kind_blurred, Literal.openFrames_map_blurred]
  rw [Literal.isOpenAfter_eq, hframes, Literal.isOpenAfter_eq]

theorem exists_tokenize_append (hg : g.LineEmbedding) (h : t.Complete g) (r : Text) :
    ∃ tokens, tokenize g (t ++ r) 1 = tokenize g t 1 ++ tokens ∧
      tokens.map Token.blurred = (tokenize g r t.lastLine).map Token.blurred := by
  obtain ⟨pieces, hscan, hpieces⟩ := h.exists_scan_append hg r
  refine ⟨Token.place ⟨t.lastLine, 0⟩ pieces, ?_, ?_⟩
  · rw [tokenize, hscan, Token.place_append, scan, flatMap_text_scanFrom,
      Position.after_isWhole 1 h.isWhole]
    rfl
  · rw [Token.map_blurred_place, hpieces, ← Token.map_blurred_place]
    rfl

end Text.Complete

end MarkupLayout

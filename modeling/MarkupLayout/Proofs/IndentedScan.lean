import MarkupLayout.Proofs.Extension
import MarkupLayout.Proofs.RegionLines
/-!
# Indentation and what the scanner sees

At the start of a line outside literals, the scanner passes over the indentation of the line, be it
as a space of its own or in front of a fence, and then goes on in the same way however wide it was.
At the start of a line inside a literal, the indentation is content of the literal.  So changing the
indentation of a line keeps the tokens that are not spaces exactly if the line starts outside
literals.
-/

namespace MarkupLayout

/-! ## One line -/

namespace ScanContext

variable {ctx ctx' : ScanContext} {w r : Text}

theorem advance_congr (h : ctx.last = ctx'.last) {step : ScanStep}
    (htext : step.pieces.flatMap Piece.text ≠ []) : ctx.advance step = ctx'.advance step := by
  have hprevious : (step.pieces.foldl pass ctx).previous =
      (step.pieces.foldl pass ctx').previous := by
    rw [previous_foldl_pass, previous_foldl_pass, List.getLast?_eq_some_getLast htext]
    rfl
  simp only [advance, hprevious, last_foldl_pass_congr step.pieces h]

theorem lexeme_congr (g : Grammar) (ctx : ScanContext) {previous : Option Char}
    (h : previous.any isWordChar = ctx.previous.any isWordChar) (c : Char) (rest : Text) :
    ({ ctx with previous := previous } : ScanContext).lexeme g c rest = ctx.lexeme g c rest := by
  -- Only operators, colons and quotes look at the character before.
  have hword : ({ ctx with previous := previous } : ScanContext).followsWordChar =
      ctx.followsWordChar := h
  simp only [lexeme]
  split
  · rfl
  · rfl
  · rfl
  · simp only [operator, hword]
    rfl
  · rfl
  · rfl
  · simp only [colons, hword]
    rfl
  · rfl
  · rfl
  · simp only [otherChar, quote, hword]
    rfl

theorem isWordChar_of_isIndentChar {c : Char} (h : Text.isIndentChar c = true) :
    isWordChar c = false := by
  simp only [Text.isIndentChar, Bool.or_eq_true, beq_iff_eq] at h
  rcases h with rfl | rfl <;> decide +kernel

theorem followsWordChar_of_atLineStart (h : ctx.atLineStart = true) :
    ctx.followsWordChar = false := by
  simp only [atLineStart, Bool.or_eq_true, Option.isNone_iff_eq_none, beq_iff_eq] at h
  rcases h with h | h
  · rw [followsWordChar, h]
    rfl
  · rw [followsWordChar, h]
    decide +kernel

theorem foldl_pass_space (ctx : ScanContext) (w : Text) :
    (pieceOf .space w).foldl pass ctx =
      { ctx with previous := w.getLast?.or ctx.previous } := by
  unfold pieceOf
  split
  · rename_i hw
    simp [hw]
  · rfl

theorem fence?_append_indent (g : Grammar) (ctx : ScanContext) (hw : w.all Text.isIndentChar = true)
    (hr : r.StartsVisibly) :
    ctx.fence? g (w ++ r) = (ctx.fence? g r).map fun step =>
      { step with pieces := pieceOf .space w ++ step.pieces } := by
  have hline := Text.startsVisibly_firstLine hr
  have hleading : r.firstLine.leading = [] :=
    Text.takeWhile_isIndentChar_append (w := []) rfl hline
  have hbody : r.firstLine.dropWhile Text.isIndentChar = r.firstLine :=
    Text.dropWhile_isIndentChar_append (w := []) rfl hline
  rw [fence?_eq, fence?_eq, Text.firstLine_append_indent hw,
    Text.dropWhile_isIndentChar_append hw hline, hbody]
  split
  · rfl
  · rename_i f info _
    split
    · rw [Option.map_some, fenceStep, fenceStep, Text.firstLine_append_indent hw, hleading,
        Text.leading, Text.takeWhile_isIndentChar_append hw hline,
        Text.firstEnding_append_indent hw, Text.afterFirstLine_append_indent hw, pieceOf_nil]
      simp
    · rfl

theorem advance_append_space (ctx : ScanContext) (w : Text) {step : ScanStep}
    (htext : step.pieces.flatMap Piece.text ≠ []) :
    ctx.advance { step with pieces := pieceOf .space w ++ step.pieces } = ctx.advance step := by
  have hpass : ctx.advance { step with pieces := pieceOf .space w ++ step.pieces } =
      ((pieceOf .space w).foldl pass ctx).advance step := by
    simp only [advance, List.foldl_append]
  rw [hpass]
  apply advance_congr _ htext
  rw [foldl_pass_space]

theorem lexeme_of_indent (g : Grammar) (ctx : ScanContext) {d : Char}
    (hw : (d :: w).all Text.isIndentChar = true) (hr : r.StartsVisibly) :
    ctx.lexeme g d (w ++ r) = ctx.emit .space (d :: w) r := by
  simp only [List.all_cons, Bool.and_eq_true] at hw
  have hkind : Lexeme.startKind d (w ++ r) = .whitespace := by
    rw [Lexeme.startKind, if_pos hw.1]
  simp only [lexeme, Lexeme.kind_first, hkind]
  simp only [Lexeme.first, hkind, Lexeme.ofRun, Text.takeWhile_isIndentChar_append hw.2 hr,
    Text.dropWhile_isIndentChar_append hw.2 hr]

theorem step_of_fence?_eq_none (g : Grammar) (ctx : ScanContext) {c : Char} {rest : Text}
    (h : ctx.embeddings.isEmpty = true → ctx.fence? g (c :: rest) = none) :
    ctx.step g c rest = ctx.lexeme g c rest := by
  unfold step
  split
  · rename_i hstart
    rw [Bool.and_eq_true] at hstart
    rw [h hstart.1]
    rfl
  · rfl

theorem step_of_fence?_eq_some (g : Grammar) (ctx : ScanContext) {c : Char} {rest : Text}
    {step : ScanStep} (hempty : ctx.embeddings.isEmpty = true) (hstart : ctx.atLineStart = true)
    (h : ctx.fence? g (c :: rest) = some step) : ctx.step g c rest = step := by
  rw [ScanContext.step, if_pos (by rw [hempty, hstart]; rfl), h]
  rfl

theorem step_of_not_atLineStart (g : Grammar) (ctx : ScanContext) (c : Char) (rest : Text)
    (h : ctx.atLineStart = false) : ctx.step g c rest = ctx.lexeme g c rest := by
  rw [ScanContext.step, if_neg (by simp [h])]

end ScanContext

theorem ScanContext.step_behind_indent (g : Grammar) {ctx : ScanContext}
    (hstart : ctx.atLineStart = true) {e c : Char} {rest : Text}
    (he : Text.isIndentChar e = true)
    (hfence : ctx.embeddings.isEmpty = true → ctx.fence? g (c :: rest) = none) :
    ({ ctx with previous := some e } : ScanContext).step g c rest = ctx.step g c rest := by
  have hword : (some e).any isWordChar = ctx.previous.any isWordChar := by
    calc
      (some e).any isWordChar = false := isWordChar_of_isIndentChar he
      _ = ctx.previous.any isWordChar := (followsWordChar_of_atLineStart hstart).symm
  rw [ctx.step_of_fence?_eq_none g hfence, ← ctx.lexeme_congr g hword]
  apply step_of_not_atLineStart
  simp only [atLineStart, Option.isNone_some, Bool.false_or]
  rw [beq_eq_false_iff_ne]
  intro heq
  rw [Option.some.inj heq] at he
  simp [Text.isIndentChar] at he

theorem scanFrom_behind_indent (g : Grammar) {ctx : ScanContext} (hstart : ctx.atLineStart = true)
    {e : Char} {r : Text} (he : Text.isIndentChar e = true)
    (hfence : ctx.embeddings.isEmpty = true → ctx.fence? g r = none) :
    scanFrom g { ctx with previous := some e } r = scanFrom g ctx r := by
  cases r with
  | nil => rw [scanFrom_nil, scanFrom_nil]
  | cons c rest =>
      rw [scanFrom_cons, scanFrom_cons, ScanContext.step_behind_indent g hstart he hfence]
      congr 2
      apply ScanContext.advance_congr
      · rfl
      · exact ctx.flatMap_text_step_ne_nil g c rest

theorem scanFrom_indent_of_fence?_eq_none (g : Grammar) {ctx : ScanContext}
    (hstart : ctx.atLineStart = true) {w r : Text} (hw : w.all Text.isIndentChar = true)
    (hne : w ≠ []) (hr : r.StartsVisibly)
    (hfence : ctx.embeddings.isEmpty = true → ctx.fence? g r = none) :
    scanFrom g ctx (w ++ r) = pieceOf .space w ++ scanFrom g ctx r := by
  obtain ⟨d, w, rfl⟩ := List.exists_cons_of_ne_nil hne
  have hspace : ctx.step g d (w ++ r) = ctx.emit .space (d :: w) r := by
    rw [← ctx.lexeme_of_indent g hw hr]
    apply ctx.step_of_fence?_eq_none
    intro hempty
    rw [← List.cons_append, ctx.fence?_append_indent g hw hr, hfence hempty]
    rfl
  obtain ⟨e, he⟩ : ∃ e, (d :: w).getLast? = some e := ⟨_, List.getLast?_eq_some_getLast (by simp)⟩
  have hindent : Text.isIndentChar e = true :=
    List.all_eq_true.mp hw e (List.mem_of_getLast? he)
  -- Behind the indentation, the character before has changed and nothing else.
  have hctx : ctx.advance (ctx.emit .space (d :: w) r) = { ctx with previous := some e } := by
    have hpass : ctx.advance (ctx.emit .space (d :: w) r) =
        { ctx with previous := (d :: w).getLast?.or ctx.previous } := rfl
    rw [hpass, he, Option.some_or]
  rw [List.cons_append, scanFrom_cons, hspace, hctx, pieceOf_of_ne_nil _ hne,
    ← scanFrom_behind_indent g hstart hindent hfence]
  rfl

/-- At the start of a line, the scanner passes over indentation and goes on as it would without
it. -/
theorem scanFrom_indent (g : Grammar) {ctx : ScanContext} (hstart : ctx.atLineStart = true)
    {w r : Text} (hw : w.all Text.isIndentChar = true) (hr : r.StartsVisibly) :
    scanFrom g ctx (w ++ r) = pieceOf .space w ++ scanFrom g ctx r := by
  by_cases hne : w = []
  · rw [hne, pieceOf_nil, List.nil_append, List.nil_append]
  · by_cases hfence : ctx.embeddings.isEmpty = true → ctx.fence? g r = none
    · exact scanFrom_indent_of_fence?_eq_none g hstart hw hne hr hfence
    · obtain ⟨hempty, hsome⟩ := Classical.not_imp.mp hfence
      obtain ⟨step, hstep⟩ := Option.ne_none_iff_exists'.mp hsome
      obtain ⟨d, w, rfl⟩ := List.exists_cons_of_ne_nil hne
      cases r with
      | nil => simp [ScanContext.fence?, Text.firstLine, Text.stripReturn] at hstep
      | cons c rest =>
          have hlong := ctx.fence?_append_indent g hw hr
          rw [hstep, Option.map_some, List.cons_append] at hlong
          have hshort := ctx.step_of_fence?_eq_some g hempty hstart hstep
          have htext := ctx.flatMap_text_step_ne_nil g c rest
          rw [hshort] at htext
          rw [List.cons_append, scanFrom_cons, ctx.step_of_fence?_eq_some g hempty hstart hlong,
            scanFrom_cons, hshort, ctx.advance_append_space _ htext, List.append_assoc]

/-! ## Tokens that are not spaces -/

def Token.piece (token : Token) : Piece :=
  ⟨token.kind, token.text⟩

def Token.visible (tokens : List Token) : List Piece :=
  (tokens.map Token.piece).filter (·.kind != .space)

/-- The pieces of a text that are not spaces. -/
def Text.visiblePieces (g : Grammar) (t : Text) : List Piece :=
  (scan g t).filter (·.kind != .space)

theorem Token.map_piece_place (p : Position) (pieces : List Piece) :
    (place p pieces).map Token.piece = pieces := by
  induction pieces generalizing p with
  | nil => rfl
  | cons piece more ih => rw [place, List.map_cons, ih, ofPiece, Token.piece]

theorem Token.visible_tokenize (g : Grammar) (t : Text) (firstLine : Nat) :
    Token.visible (tokenize g t firstLine) = t.visiblePieces g := by
  rw [Token.visible, tokenize, Token.map_piece_place, Text.visiblePieces]

theorem filter_pieceOf_space (w : Text) :
    (pieceOf .space w).filter (·.kind != .space) = [] := by
  unfold pieceOf
  split <;> rfl

namespace Literal

theorem openFrames_filter (pieces : List Piece) :
    openFrames ((pieces.filter (·.kind != .space)).map Piece.kind) =
      openFrames (pieces.map Piece.kind) := by
  have hfold (frames : List Frame) :
      ((pieces.filter (·.kind != .space)).map Piece.kind).foldl pass frames =
        (pieces.map Piece.kind).foldl pass frames := by
    induction pieces generalizing frames with
    | nil => rfl
    | cons piece more ih =>
        obtain ⟨kind, text⟩ := piece
        cases kind <;> exact ih _
  exact hfold []

theorem isOpenAfter_congr {g : Grammar} {s t : Text}
    (h : s.visiblePieces g = t.visiblePieces g) : isOpenAfter g s = isOpenAfter g t := by
  have hframes (t : Text) : openFrames ((t.visiblePieces g).map Piece.kind) =
      openFrames ((scan g t).map Piece.kind) := openFrames_filter (scan g t)
  rw [isOpenAfter_eq, ← hframes, h, hframes, isOpenAfter_eq]

end Literal

namespace Text

variable {g : Grammar} {x w w' r r' : Text}

/-- Outside literals, the indentation of a line is a piece of its own, and the scanner goes on
behind it in a way that does not depend on it. -/
theorem exists_scan_indent_of_closed (hg : g.LineEmbedding) (hx : x.IsWhole)
    (hclosed : Literal.isOpenAfter g x = false) :
    ∃ ctx, ctx.WellQuoted ∧ ctx.last = none ∧
      ∀ w r : Text, w.all isIndentChar = true → r.StartsVisibly →
        scan g (x ++ (w ++ r)) = scan g x ++ (pieceOf .space w ++ scanFrom g ctx r) := by
  obtain ⟨ctx, hend, hrun⟩ := Literal.exists_scan_append_of_closed hg hx hclosed
  have hstart : ctx.atLineStart = true := by
    have hprevious := hend.previous_eq
    rw [scan, flatMap_text_scanFrom] at hprevious
    rcases hx with rfl | hlast
    · rw [ScanContext.atLineStart, hprevious]
      rfl
    · rw [ScanContext.atLineStart, hprevious, hlast]
      rfl
  refine ⟨ctx, hend.wellQuoted ScanContext.wellQuoted_initial,
    hend.last_eq_none_of_closed hg hx hclosed, fun w r hw hr => ?_⟩
  rw [← scanFrom_indent g hstart hw hr]
  exact (hrun (w ++ r)).scanFrom_eq

theorem visiblePieces_indent_of_closed (hg : g.LineEmbedding) (hx : x.IsWhole)
    (hclosed : Literal.isOpenAfter g x = false) (hw : w.all isIndentChar = true)
    (hr : r.StartsVisibly) :
    visiblePieces g (x ++ (w ++ r)) = visiblePieces g (x ++ r) := by
  obtain ⟨ctx, -, -, hscan⟩ := exists_scan_indent_of_closed hg hx hclosed
  have hplain : scan g (x ++ r) = scan g x ++ (pieceOf .space [] ++ scanFrom g ctx r) :=
    hscan [] r rfl hr
  rw [visiblePieces, hscan w r hw hr, visiblePieces, hplain]
  simp only [List.filter_append, filter_pieceOf_space]

/-- Inside a literal, the indentation of a line is what the tokens that are not spaces go on
with. -/
theorem exists_visible_text_of_open (hg : g.SoundEmbedding) (hx : x.IsWhole)
    (hopen : Literal.isOpenAfter g x = true) (hw : w.all isIndentChar = true)
    (hr : r.StartsVisibly) :
    ∃ behind, (visiblePieces g (x ++ (w ++ r))).flatMap Piece.text =
        (visiblePieces g x).flatMap Piece.text ++ behind ∧
      behind.takeWhile isIndentChar = w := by
  obtain ⟨before, content, more, tail, later, hshort, hlong, happend, hspace, hvisible⟩ :=
    Literal.exists_scan_append_of_open hg.toLineEmbedding hx hopen (w ++ r)
  have hcontent (text : Text) : ((pieceOf .literalContent text).filter
      (·.kind != .space)).flatMap Piece.text = text := by
    rw [List.filter_eq_self.mpr, flatMap_text_pieceOf]
    intro piece hpiece
    obtain ⟨rfl, -⟩ := mem_pieceOf hpiece
    rfl
  have htail : tail.filter (·.kind != .space) = tail := by
    rw [List.filter_eq_self]
    intro piece hpiece
    simpa using hspace piece hpiece
  refine ⟨more ++ tail.flatMap Piece.text ++
    (later.filter (·.kind != .space)).flatMap Piece.text, ?_, ?_⟩
  · rw [visiblePieces, hlong, visiblePieces, hshort]
    simp only [List.filter_append, List.flatMap_append, hcontent, htail, List.append_assoc]
  · have hindent : ((more ++ tail.flatMap Piece.text) ++
        later.flatMap Piece.text).takeWhile isIndentChar = w := by
      rw [List.append_assoc, happend, takeWhile_isIndentChar_append hw hr]
    rcases hvisible hg with rfl | ⟨c, hc, hmark⟩
    · simpa using hindent
    · -- The pieces of the literal reach beyond the indentation.
      have hstop (behind : Text) : ((more ++ tail.flatMap Piece.text) ++
          behind).takeWhile isIndentChar =
            (more ++ tail.flatMap Piece.text).takeWhile isIndentChar := by
        rw [List.takeWhile_append, if_neg]
        intro hlength
        have heq := (List.takeWhile_prefix _).eq_of_length hlength
        rw [← heq] at hc
        simpa [hmark] using List.mem_takeWhile_imp hc
      rw [hstop, ← hstop, hindent]

theorem eq_of_visiblePieces_eq_of_open (hg : g.SoundEmbedding) (hx : x.IsWhole)
    (hopen : Literal.isOpenAfter g x = true) (hw : w.all isIndentChar = true)
    (hw' : w'.all isIndentChar = true) (hr : r.StartsVisibly) (hr' : r'.StartsVisibly)
    (h : visiblePieces g (x ++ (w ++ r)) = visiblePieces g (x ++ (w' ++ r'))) : w = w' := by
  obtain ⟨behind, htext, hindent⟩ := exists_visible_text_of_open hg hx hopen hw hr
  obtain ⟨behind', htext', hindent'⟩ := exists_visible_text_of_open hg hx hopen hw' hr'
  rw [h, htext', List.append_cancel_left_eq] at htext
  rw [← hindent, ← htext, hindent']

end Text

end MarkupLayout

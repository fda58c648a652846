import MarkupLayout.Proofs.Anchor
import MarkupLayout.Proofs.IndentedScan
import MarkupLayout.Proofs.Scopes
/-!
# Sigils at the head of a line

A sigil token that has only spaces before it on its line, and a blank or the end of the line
behind it, starts a line that the search for an anchor finds.  The token is a step of the scanner,
and so is the line break before it; the scanner does not pass that line break inside a literal.
-/

namespace MarkupLayout

open ScanStep (LiteralBody Shape)

/-! ## The step of a sigil -/

namespace ScanStep

variable {g : Grammar} {ctx : ScanContext} {isOpen : Bool} {step : ScanStep} {piece : Piece}

theorem Shape.eq_of_isKeyword (h : Shape g ctx isOpen step) {inner more : List Piece}
    (hpieces : step.pieces = inner ++ piece :: more) (hkind : piece.kind.isKeyword = true) :
    inner = [] ∧ more = [] ∧ piece.Fits g step.rest := by
  cases h.part (show piece ∈ step.pieces by simp [hpieces]) with
  | plain _ hsingle hfits =>
      rw [hpieces, List.append_eq_singleton_iff] at hsingle
      rcases hsingle with ⟨hinner, hmore⟩ | ⟨-, hnil⟩
      · exact ⟨hinner, (List.cons.inj hmore).2, hfits⟩
      · simp at hnil
  | _ => simp [TokenKind.isKeyword] at hkind

end ScanStep

theorem Scans.exists_of_isKeyword {g : Grammar} {ctx : ScanContext} (hctx : ctx.WellQuoted)
    {t : Text} {before behind : List Piece} {piece : Piece}
    (h : scanFrom g ctx t = before ++ piece :: behind) (hkind : piece.kind.isKeyword = true) :
    ∃ ctx' rest, Scans g ctx t before ctx' (piece.text ++ rest) ∧ piece.Fits g rest := by
  obtain ⟨passed, ctx', c, rest, inner, more, hrun, rfl, hpieces, -⟩ := exists_step h
  obtain ⟨_, hshape⟩ := ctx'.step_shape g (hrun.wellQuoted hctx) c rest
  obtain ⟨rfl, rfl, hfits⟩ := hshape.eq_of_isKeyword hpieces hkind
  have hcuts := (ctx'.step_cuts g c rest).append
  rw [hpieces, List.nil_append, List.flatMap_singleton] at hcuts
  rw [← hcuts] at hrun
  rw [List.append_nil]
  exact ⟨ctx', _, hrun, hfits⟩

/-! ## The head of a line -/

namespace ScanStep

variable {g : Grammar} {ctx : ScanContext} {step : ScanStep}

theorem LiteralBody.last_ne_none {kind : LiteralKind} {embeddings : List Embedding} {depth : Nat}
    (h : LiteralBody g kind embeddings depth false step) (ctx : ScanContext)
    (before : List Piece) :
    ((before ++ step.pieces).foldl ScanContext.pass ctx).last ≠ none := by
  cases h with
  | closed =>
      rw [← List.append_assoc, ScanContext.last_foldl_pass_concat]
      simp [TokenKind.isLineBreak]
  | embeds =>
      rw [← List.append_assoc, ScanContext.last_foldl_pass_concat]
      simp [TokenKind.isLineBreak]

theorem Shape.eq_of_last_eq_none (h : Shape g ctx false step)
    (hlast : (ctx.advance step).last = none) :
    ∃ piece, step.pieces = [piece] ∧ (piece.text.getLast? = some '\n' ∨
      piece.text.all Text.isIndentChar = true ∧ ctx.last = none) := by
  change (step.pieces.foldl ScanContext.pass ctx).last = none at hlast
  cases h with
  | plain piece rest hfits =>
      refine ⟨piece, rfl, ?_⟩
      rw [← List.nil_append [piece], ScanContext.last_foldl_pass_concat] at hlast
      split at hlast
      · exact .inl (hfits.lineBreak ‹_›)
      · split at hlast
        · exact .inr ⟨hfits.space ‹_›, hlast⟩
        · simp at hlast
  | opens => simp [ScanContext.pass, TokenKind.isLineBreak] at hlast
  | closes => simp [ScanContext.pass, TokenKind.isLineBreak] at hlast
  | resumes e outer c body _ _ hbody =>
      exact absurd hlast (hbody.last_ne_none ctx [⟨.closeBracket .interpolationEnd, [c]⟩])
  | literal kind blank opening gap body _ _ _ _ hbody =>
      refine absurd ?_ (hbody.last_ne_none ctx
        (pieceOf .space blank ++ ⟨.literalBegin kind, opening⟩ :: pieceOf .newline gap))
      simpa [List.append_assoc] using hlast

end ScanStep

theorem Scans.exists_lineStart {g : Grammar} {ctx ctx' : ScanContext} {t t' : Text}
    {pieces : List Piece} (h : Scans g ctx t pieces ctx' t') (hctx : ctx.WellQuoted)
    (hlast : ctx'.last = none) (ht' : t' ≠ []) :
    ∃ before ctx'' blank, Scans g ctx t before ctx'' (blank ++ t') ∧
      blank.all Text.isIndentChar = true ∧
      (before = [] ∧ ctx.last = none ∨ (before.flatMap Piece.text).getLast? = some '\n') := by
  induction h with
  | here ctx t => exact ⟨[], ctx, [], .here ctx t, rfl, .inl ⟨rfl, hlast⟩⟩
  | @step ctx ctx' c rest t' pieces more ih =>
      obtain ⟨isOpen, hshape⟩ := ctx.step_shape g hctx c rest
      obtain ⟨before, ctx'', blank, hrun, hblank, hbefore⟩ :=
        ih (hshape.wellQuoted_advance hctx) hlast ht'
      have hcuts := (ctx.step_cuts g c rest).append
      rcases hbefore with ⟨rfl, hnone⟩ | hbefore
      · -- The line starts here or further up.
        have hrest : blank ++ t' = (ctx.step g c rest).rest := by simpa using hrun.text_append
        cases isOpen with
        | true => exact absurd (hrest.trans hshape.rest_eq_nil) (by simp [ht'])
        | false =>
            obtain ⟨piece, hpieces, hpiece⟩ := hshape.eq_of_last_eq_none hnone
            rcases hpiece with hbreak | ⟨hspace, hhead⟩
            · refine ⟨(ctx.step g c rest).pieces ++ [], ctx'', blank, .step hrun, hblank, .inr ?_⟩
              simpa [hpieces] using hbreak
            · rw [hpieces, List.flatMap_singleton, ← hrest, ← List.append_assoc] at hcuts
              refine ⟨[], ctx, piece.text ++ blank, ?_, ?_, .inl ⟨rfl, hhead⟩⟩
              · rw [hcuts]
                exact .here ctx (c :: rest)
              · rw [List.all_append, hspace, hblank, Bool.and_self]
      · refine ⟨(ctx.step g c rest).pieces ++ before, ctx'', blank, .step hrun, hblank, .inr ?_⟩
        rw [List.flatMap_append, List.getLast?_append, hbefore, Option.some_or]

theorem ScanContext.last_foldl_pass_eq_none {ctx : ScanContext} (hctx : ctx.last = none)
    {pieces : List Piece}
    (h : (pieces.reverse.takeWhile (!·.kind.isLineBreak)).all (·.kind == .space) = true) :
    (pieces.foldl pass ctx).last = none := by
  induction pieces using List.reverseRecOn with
  | nil => exact hctx
  | append_singleton pieces piece ih =>
      rw [last_foldl_pass_concat]
      rw [List.reverse_concat] at h
      cases hbreak : piece.kind.isLineBreak with
      | true => rfl
      | false =>
          rw [List.takeWhile_cons_of_pos (by simp [hbreak]), List.all_cons, Bool.and_eq_true] at h
          rw [if_neg (by simp), if_pos (by simpa using h.1), ih h.2]

/-! ## Tokens -/

/-- Whether nothing but spaces stands before the token on its line, and a blank or the end of the
line behind it. -/
def Neighbourhood.headsLine (n : Neighbourhood) : Bool :=
  (n.before.takeWhile (!·.kind.isLineBreak)).all (·.kind == .space) &&
    (Pattern.sigilTail? (n.behind.flatMap Token.text)).isSome

theorem Token.exists_of_place_append {p : Position} {pieces : List Piece}
    {left right : List Token} (h : place p pieces = left ++ right) :
    ∃ before behind, pieces = before ++ behind ∧ left = place p before ∧
      right = place (p.after (before.flatMap Piece.text)) behind := by
  have hlength := congrArg List.length h
  rw [length_place, List.length_append] at hlength
  refine ⟨pieces.take left.length, pieces.drop left.length, (List.take_append_drop _ _).symm, ?_⟩
  rw [← List.take_append_drop left.length pieces, place_append] at h
  obtain ⟨hleft, hright⟩ := List.append_inj h (by rw [length_place, List.length_take]; omega)
  exact ⟨hleft.symm, hright.symm⟩

theorem Token.exists_of_place_cons {p : Position} {pieces : List Piece} {left right : List Token}
    {token : Token} (h : place p pieces = left ++ token :: right) :
    ∃ before piece behind, pieces = before ++ piece :: behind ∧ left = place p before ∧
      token = ofPiece (p.after (before.flatMap Piece.text)) piece ∧
      right = place ((p.after (before.flatMap Piece.text)).after piece.text) behind := by
  obtain ⟨before, others, hpieces, hleft, hothers⟩ := exists_of_place_append h
  cases others with
  | nil => simp [place] at hothers
  | cons piece behind =>
      obtain ⟨htoken, hright⟩ := List.cons.inj hothers
      exact ⟨before, piece, behind, hpieces, hleft, htoken, hright⟩

/-- The step that yields a token, and the text and the tokens around it. -/
theorem Token.exists_step {g : Grammar} {t : Text} {firstLine : Nat} {left right : List Token}
    {token : Token} (h : tokenize g t firstLine = left ++ token :: right) :
    ∃ passed ctx c rest inner more, Scans g .initial t passed ctx (c :: rest) ∧
      (ctx.step g c rest).pieces = inner ++ token.piece :: more ∧
      left.flatMap Token.text = passed.flatMap Piece.text ++ inner.flatMap Piece.text ∧
      right.map Token.piece = more ++
        scanFrom g (ctx.advance (ctx.step g c rest)) (ctx.step g c rest).rest ∧
      right.flatMap Token.text = more.flatMap Piece.text ++ (ctx.step g c rest).rest ∧
      c :: rest = inner.flatMap Piece.text ++ (token.text ++ right.flatMap Token.text) := by
  obtain ⟨before, piece, behind, hpieces, rfl, rfl, rfl⟩ := exists_of_place_cons h
  obtain ⟨passed, ctx, c, rest, inner, more, hrun, rfl, hstep, rfl⟩ := Scans.exists_step hpieces
  have hbehind : (more ++ scanFrom g (ctx.advance (ctx.step g c rest))
      (ctx.step g c rest).rest).flatMap Piece.text =
        more.flatMap Piece.text ++ (ctx.step g c rest).rest := by
    rw [List.flatMap_append, flatMap_text_scanFrom]
  have hcuts := (ctx.step_cuts g c rest).append
  rw [hstep, List.flatMap_append, List.flatMap_cons, List.append_assoc, List.append_assoc] at hcuts
  refine ⟨passed, ctx, c, rest, inner, more, hrun, hstep, ?_, map_piece_place .., ?_, ?_⟩
  · rw [flatMap_text_place, List.flatMap_append]
  · rw [flatMap_text_place, hbehind]
  · rw [flatMap_text_place, hbehind]
    exact hcuts.symm

theorem Token.all_takeWhile_place (p : Position) (pieces : List Piece) :
    ((place p pieces).reverse.takeWhile (!·.kind.isLineBreak)).all (·.kind == .space) =
      (pieces.reverse.takeWhile (!·.kind.isLineBreak)).all (·.kind == .space) := by
  have hkinds : ((place p pieces).reverse.map Token.kind) = pieces.reverse.map Piece.kind := by
    rw [List.map_reverse, map_kind_place, List.map_reverse]
  have hboth := congrArg (fun kinds : List TokenKind =>
    (kinds.takeWhile (!·.isLineBreak)).all (· == .space)) hkinds
  simpa only [List.takeWhile_map, List.all_map, Function.comp_def] using hboth

theorem Neighbourhood.headsLine_append {n : Neighbourhood}
    (h : (n.behind.flatMap Token.text).getLast? = some '\n') (more : List Token) :
    headsLine { n with behind := n.behind ++ more } = n.headsLine := by
  rw [headsLine, List.flatMap_append, Pattern.sigilTail?_append h, headsLine]

theorem exists_fits_of_isKeyword {g : Grammar} {t : Text} {firstLine : Nat} {token : Token}
    (h : token ∈ tokenize g t firstLine) (hkind : token.kind.isKeyword = true) :
    ∃ piece behind, Piece.Fits g piece behind ∧ piece.kind = token.kind ∧
      piece.text = token.text := by
  obtain ⟨_, _, hsplit⟩ := List.append_of_mem h
  obtain ⟨_, piece, _, hpieces, -, rfl, -⟩ := Token.exists_of_place_cons hsplit
  obtain ⟨_, behind, -, hfits⟩ :=
    Scans.exists_of_isKeyword ScanContext.wellQuoted_initial hpieces hkind
  exact ⟨piece, behind, hfits, rfl, rfl⟩

theorem text_of_isKeyword {g : Grammar} {t : Text} {firstLine : Nat} {token : Token}
    (h : token ∈ tokenize g t firstLine) (hkind : token.kind.isKeyword = true) :
    token.text ≠ [] ∧ '\n' ∉ token.text := by
  obtain ⟨piece, _, hfits, hsame, htext⟩ := exists_fits_of_isKeyword h hkind
  have hbreak : token.kind.isLineBreak = false := by
    cases hcase : token.kind <;> simp_all [TokenKind.isKeyword, TokenKind.isLineBreak]
  rw [← hsame] at hbreak
  rw [← htext]
  exact ⟨hfits.nonempty, hfits.onLine hbreak⟩

theorem getLast?_behind_of_isKeyword {g : Grammar} {t : Text} (ht : t.IsWhole) {firstLine : Nat}
    {n : Neighbourhood} (hmem : n ∈ Neighbourhood.all (tokenize g t firstLine))
    (hkind : n.token.kind.isKeyword = true) :
    (n.behind.flatMap Token.text).getLast? = some '\n' := by
  have hsplit : n.before.reverse ++ n.token :: n.behind = tokenize g t firstLine :=
    Neighbourhood.eq_of_mem_allFrom hmem
  have htoken : n.token ∈ tokenize g t firstLine := by
    rw [← hsplit]
    simp
  obtain ⟨hne, hline⟩ := text_of_isKeyword htoken hkind
  rw [← flatMap_text_tokenize g t firstLine, ← hsplit, List.flatMap_append,
    List.flatMap_cons] at ht
  exact Text.getLast?_of_append (ht.of_append.getLast? (by simp [hne])) hline

namespace Indentation

variable {g : Grammar} {t : Text}

/-- A sigil token that heads its line is found by the search for an anchor. -/
theorem isSome_anchor?_of_headsLine (hv : g.VisibleSigils) (hg : g.SoundEmbedding)
    {n : Neighbourhood} (hmem : n ∈ Neighbourhood.all (tokenize g t 1))
    (hsigil : n.token.kind = .keyword .blockSigil) (hhead : n.headsLine = true) :
    (anchor? g t).isSome = true := by
  obtain ⟨sigils, hpattern, hsigils, hmemSigils⟩ := Pattern.sigilLine_eq hv
  rw [Neighbourhood.headsLine, Bool.and_eq_true] at hhead
  have hsplit := Neighbourhood.eq_of_mem_allFrom hmem
  obtain ⟨before, piece, behind, hpieces, hbefore, htoken, hbehind⟩ :=
    Token.exists_of_place_cons hsplit.symm
  have hkind : piece.kind = .keyword .blockSigil := by
    rw [← hsigil, htoken]
    rfl
  -- The scanner comes to the sigil, and before that to the start of its line.
  obtain ⟨ctx, rest, hrun, hfits⟩ := Scans.exists_of_isKeyword ScanContext.wellQuoted_initial
    hpieces (by rw [hkind]; rfl)
  have hlast : ctx.last = none := by
    rw [hrun.last_eq]
    apply ScanContext.last_foldl_pass_eq_none rfl
    rw [← Token.all_takeWhile_place ⟨1, 0⟩, ← hbefore, List.reverse_reverse]
    exact hhead.1
  obtain ⟨passed, ctx', blank, hline, hblank, hpassed⟩ := hrun.exists_lineStart
    ScanContext.wellQuoted_initial hlast (by simp [hfits.nonempty])
  have hwhole : Text.IsWhole (passed.flatMap Piece.text) := by
    rcases hpassed with ⟨rfl, -⟩ | hpassed
    · exact Text.isWhole_nil
    · exact .inr hpassed
  have htext := hline.text_append
  rw [← htext] at hline
  have hclosed := Literal.isOpenAfter_eq_false hg hline hwhole (by simp [hfits.nonempty])
  -- What follows the sigil in the text follows the token in the list.
  have hrest : rest = n.behind.flatMap Token.text := by
    have hscan : (scan g t).flatMap Piece.text = t := flatMap_text_scanFrom g .initial t
    rw [hpieces, List.flatMap_append, List.flatMap_cons, ← hrun.text_append] at hscan
    rw [hbehind, Token.flatMap_text_place]
    exact (List.append_cancel_left (List.append_cancel_left hscan)).symm
  rw [← hrest] at hhead
  obtain ⟨found, hfound⟩ := Pattern.exists_matchHere? hsigils hblank
    ((hmemSigils _).mpr (List.contains_iff_mem.mp (hfits.sigil hkind).1)) hhead.2
  rw [← htext]
  obtain ⟨a, ha, -⟩ := exists_anchor? hpattern hsigils hwhole hfound hclosed
  rw [ha]
  rfl

end Indentation

end MarkupLayout

import Mathlib.Tactic.TFAE
import MarkupLayout.Outline
import MarkupLayout.Proofs.ColumnFromAbove
import MarkupLayout.Proofs.LeadingBlanks
import MarkupLayout.Proofs.LineHead
import MarkupLayout.Proofs.PlainRows
import MarkupLayout.Proofs.TokensAtLines
/-!
# Sigil lines as patterns and as tokens

A sigil line is recognised twice: by a pattern, which is tried on a single line and on the whole
text, and by the scanner, which cuts off the longest run of marks and asks whether it stands alone.
Where lines end in one of the two usual ways, both say the same of every line outside literals, and
such a line is a definition.
-/

namespace MarkupLayout

/-- Whether carriage returns occur only in front of line feeds. -/
def Text.returnsEndLines : Text → Bool
  | [] => true
  | c :: rest => (c != '\r' || rest.head? == some '\n') && returnsEndLines rest

/-- The text starts with a sigil that stands alone. -/
def Text.StartsWithSigil (g : Grammar) (t : Text) : Prop :=
  ∃ sigil ∈ g.blockSigils, ∃ behind, t = sigil ++ behind ∧ standsAlone behind.head? = true

namespace Text

theorem returnsEndLines_of_append {s t : Text} (h : (s ++ t).returnsEndLines = true) :
    t.returnsEndLines = true := by
  induction s with
  | nil => exact h
  | cons c s ih =>
      rw [List.cons_append, returnsEndLines, Bool.and_eq_true] at h
      exact ih h.2

theorem head?_of_returnsEndLines {t : Text} (h : returnsEndLines ('\r' :: t) = true) :
    t.head? = some '\n' := by
  rw [returnsEndLines, Bool.and_eq_true] at h
  simpa using h.1

theorem exists_stripReturn_append {tail : Text} (htail : tail.takeWhile (· != '\n') = [])
    (body : Text) : ∃ ending, standsAlone ending.head? = true ∧
      body ++ tail = stripReturn body ++ ending := by
  obtain ⟨ending, hbody, rfl | ⟨rfl, -⟩⟩ := exists_eq_stripReturn_append body
  · refine ⟨'\r' :: tail, rfl, ?_⟩
    nth_rewrite 1 [hbody]
    rw [List.append_assoc, List.singleton_append]
  · refine ⟨tail, ?_, by rw [← List.append_nil (stripReturn body), ← hbody]⟩
    cases tail with
    | nil => rfl
    | cons c tail =>
        obtain rfl : c = '\n' := eq_lineFeed_of_takeWhile htail c rfl
        rfl

theorem exists_append_of_lineFeed_notMem {start body tail behind : Text} (hstart : '\n' ∉ start)
    (htail : tail.takeWhile (· != '\n') = []) (h : body ++ tail = start ++ behind) :
    ∃ rest, body = start ++ rest ∧ behind = rest ++ tail := by
  rcases List.append_eq_append_iff.mp h with ⟨part, rfl, rfl⟩ | ⟨rest, rfl, rfl⟩
  · cases part with
    | nil => exact ⟨[], by simp⟩
    | cons c part =>
        have hc : c = '\n' := by
          by_contra hc
          simp [hc] at htail
        simp [hc] at hstart
  · exact ⟨rest, rfl, rfl⟩

end Text

/-! ## The pattern -/

namespace Pattern

theorem standsAlone_of_sigilTail? {behind : Text} (h : (sigilTail? behind).isSome = true) :
    standsAlone behind.head? = true := by
  unfold sigilTail? at h
  split at h <;> simp_all [standsAlone]

theorem isSome_sigilTail?_of_standsAlone {behind : Text} (hreturns : behind.returnsEndLines = true)
    (h : standsAlone behind.head? = true) : (sigilTail? behind).isSome = true := by
  cases behind with
  | nil => rfl
  | cons c behind =>
      simp only [List.head?_cons, standsAlone, Bool.or_eq_true, beq_iff_eq] at h
      rcases h with ((rfl | rfl) | rfl) | rfl
      · rfl
      · rfl
      · -- Behind the carriage return stands a line feed.
        have hnext := Text.head?_of_returnsEndLines hreturns
        cases behind with
        | nil => simp at hnext
        | cons d behind =>
            obtain rfl : d = '\n' := by simpa using hnext
            rfl
      · rfl

variable {g : Grammar} {sigils : List Text} (hmem : ∀ sigil, sigil ∈ sigils ↔ sigil ∈ g.blockSigils)

include hmem

theorem isSome_sigilLength?_iff {t : Text} (ht : t.returnsEndLines = true) :
    (sigilLength? sigils t).isSome = true ↔ t.StartsWithSigil g := by
  constructor
  · intro h
    obtain ⟨n, hn⟩ := Option.isSome_iff_exists.mp h
    obtain ⟨sigil, hsigil, behind, tail, rfl, htail, -⟩ := sigilLength?_eq_some hn
    exact ⟨sigil, (hmem sigil).mp hsigil, behind, rfl,
      standsAlone_of_sigilTail? (by rw [htail]; rfl)⟩
  · rintro ⟨sigil, hsigil, behind, rfl, halone⟩
    exact isSome_sigilLength? ((hmem sigil).mpr hsigil)
      (isSome_sigilTail?_of_standsAlone (Text.returnsEndLines_of_append ht) halone)

theorem isSome_sigilLength?_stripReturn_iff
    (hclean : ∀ sigil ∈ g.blockSigils, '\r' ∉ sigil ∧ '\n' ∉ sigil) {body tail : Text}
    (hbody : '\n' ∉ body) (htail : tail.takeWhile (· != '\n') = [])
    (ht : Text.returnsEndLines (body ++ tail) = true) :
    (sigilLength? sigils (Text.stripReturn body)).isSome = true ↔
      Text.StartsWithSigil g (body ++ tail) := by
  constructor
  · intro h
    obtain ⟨n, hn⟩ := Option.isSome_iff_exists.mp h
    obtain ⟨sigil, hsigil, behind, length, hline, hlength, -⟩ := sigilLength?_eq_some hn
    have halone : standsAlone behind.head? = true := by
      apply standsAlone_of_sigilTail?
      rw [hlength]
      rfl
    obtain ⟨ending, hending, hsplit⟩ := Text.exists_stripReturn_append htail body
    rw [hline, List.append_assoc] at hsplit
    refine ⟨sigil, (hmem sigil).mp hsigil, behind ++ ending, hsplit, ?_⟩
    cases behind with
    | nil => exact hending
    | cons c behind => exact halone
  · rintro ⟨sigil, hsigil, behind, hsplit, halone⟩
    obtain ⟨hreturn, hfeed⟩ := hclean sigil hsigil
    obtain ⟨rest, rfl, rfl⟩ := Text.exists_append_of_lineFeed_notMem hfeed htail hsplit
    rw [List.append_assoc] at ht
    rw [Text.stripReturn_append hreturn]
    apply isSome_sigilLength? ((hmem sigil).mpr hsigil)
    cases rest with
    | nil => rfl
    | cons c rest =>
        simp only [List.cons_append, List.head?_cons, standsAlone, Bool.or_eq_true,
          beq_iff_eq] at halone
        rcases halone with ((rfl | rfl) | rfl) | rfl
        · rw [← List.singleton_append, Text.stripReturn_append (by simp)]
          rfl
        · rw [← List.singleton_append, Text.stripReturn_append (by simp)]
          rfl
        · -- The carriage return belongs to the end of the line.
          have hnext := Text.head?_of_returnsEndLines (Text.returnsEndLines_of_append ht)
          cases rest with
          | nil => rfl
          | cons d rest =>
              obtain rfl : d = '\n' := by simpa using hnext
              simp at hbody
        · simp at hbody

end Pattern

theorem Grammar.markdown_sigils_on_line :
    ∀ sigil ∈ Grammar.markdown.blockSigils, '\r' ∉ sigil ∧ '\n' ∉ sigil := by
  decide

/-! ## The scanner -/

namespace ScanStep

variable {g : Grammar} {ctx : ScanContext} {isOpen : Bool} {step : ScanStep}

theorem Shape.all_isIndentChar_of_space (h : Shape g ctx isOpen step) :
    ∀ piece ∈ step.pieces, piece.kind = .space → piece.text.all Text.isIndentChar = true := by
  intro piece hpiece hspace
  cases h.part hpiece with
  | plain _ _ hfits => exact hfits.space hspace
  | blank _ hblank => exact hblank
  | _ => simp at hspace

end ScanStep

theorem kind_head_scanFrom_ne_space {g : Grammar} (hg : g.interpolationOpen ≠ [])
    {ctx : ScanContext} (hctx : ctx.WellQuoted) {t : Text} (ht : t.StartsVisibly) {piece : Piece}
    {more : List Piece} (h : scanFrom g ctx t = piece :: more) : piece.kind ≠ .space := by
  intro hspace
  have hmem : piece ∈ scanFrom g ctx t := by simp [h]
  have hblank := forall_mem_scanFrom (P := fun piece =>
    piece.kind = .space → piece.text.all Text.isIndentChar = true)
    (fun hshape => hshape.all_isIndentChar_of_space) hctx t piece hmem hspace
  have hne := forall_mem_scanFrom (fun hshape => hshape.text_ne_nil (.inl hg)) hctx t piece hmem
  have htext := flatMap_text_scanFrom g ctx t
  obtain ⟨c, text, hpiece⟩ := List.exists_cons_of_ne_nil hne
  rw [h, List.flatMap_cons, hpiece, List.cons_append] at htext
  rw [hpiece, List.all_cons, Bool.and_eq_true] at hblank
  have hvisible := ht c (by rw [← htext]; rfl)
  rw [hblank.1] at hvisible
  simp at hvisible

/-- The first piece of a text is a sigil exactly if a sigil that stands alone starts the text. -/
theorem kind_head_scanFrom_eq_sigil_iff {ctx : ScanContext} (hctx : ctx.WellQuoted) {t : Text}
    {piece : Piece} {more : List Piece} (h : scanFrom .markdown ctx t = piece :: more) :
    piece.kind = .keyword .blockSigil ↔ t.StartsWithSigil .markdown := by
  constructor
  · intro hkind
    have hfirst : scanFrom .markdown ctx t = [] ++ piece :: more := h
    obtain ⟨ctx', rest, hrun, hfits⟩ := Scans.exists_of_isKeyword hctx hfirst (by rw [hkind]; rfl)
    obtain ⟨hsigil, hend⟩ := hfits.sigil hkind
    have hmem := List.contains_iff_mem.mp hsigil
    exact ⟨piece.text, hmem, rest, hrun.text_append.symm,
      hend.resolve_left (Grammar.markdown_sigils_no_letters _ hmem)⟩
  · rintro ⟨sigil, hmem, behind, rfl, halone⟩
    have hread := ctx.reads_sigil ⟨sigil, hmem⟩ halone
    rw [ScanContext.Reads, List.flatMap_singleton, h] at hread
    rw [(List.cons.inj hread).1]

/-! ## The tokens of a line -/

namespace Neighbourhood

variable {n : Neighbourhood} {spaces left : List Token}

theorem isSymbol_of_endsLine (hbefore : n.before = spaces ++ left.reverse)
    (hspaces : ∀ t ∈ spaces, t.kind = .space) (hleft : Nesting.EndsLine left) :
    n.isSymbol = false := by
  cases spaces with
  | cons t spaces =>
      rw [isSymbol, hbefore, List.cons_append, List.head?_cons, Option.any_some,
        hspaces t (by simp)]
      rfl
  | nil =>
      rcases hleft with rfl | ⟨before, lineBreak, rfl, hbreak⟩
      · rw [isSymbol, hbefore]
        rfl
      · rw [isSymbol, hbefore, List.nil_append, List.reverse_concat, List.head?_cons,
          Option.any_some]
        cases hkind : lineBreak.kind <;> simp_all [TokenKind.isLineBreak]

theorem isModifier_of_endsLine (hbefore : n.before = spaces ++ left.reverse)
    (hspaces : ∀ t ∈ spaces, t.kind = .space) (hleft : Nesting.EndsLine left) :
    n.isModifier = false := by
  -- The walk back over the line ends at the line break at the latest.
  have hline : ∀ t ∈ n.before.takeWhile fun t => t.line == n.token.line && !t.kind.isLineBreak,
      t.kind = .space := by
    intro t ht
    rw [hbefore, List.takeWhile_append] at ht
    split at ht
    · rcases List.mem_append.mp ht with ht | ht
      · exact hspaces t ht
      · rcases hleft with rfl | ⟨before, lineBreak, rfl, hbreak⟩
        · simp at ht
        · simp [hbreak] at ht
    · exact hspaces t ((List.takeWhile_prefix _).subset ht)
  rw [isModifier, List.any_eq_false]
  intro t ht
  rw [hline t ht]
  decide

end Neighbourhood

theorem Outline.mem_definitionLines {g : Grammar} {t : Text} {left spaces behind : List Token}
    {token : Token} (h : tokenize g t 1 = left ++ (spaces ++ token :: behind))
    (hleft : Nesting.EndsLine left) (hspaces : ∀ s ∈ spaces, s.kind = .space)
    (hsigil : token.kind = .keyword .blockSigil) : token.line ∈ definitionLines g t := by
  have hreversed : ∀ s ∈ spaces.reverse, s.kind = .space := by
    intro s hs
    exact hspaces s (List.mem_reverse.mp hs)
  have hmem : (⟨spaces.reverse ++ left.reverse, token, behind⟩ : Neighbourhood) ∈
      Neighbourhood.all (tokenize g t 1) := by
    rw [h, Neighbourhood.all, Neighbourhood.allFrom_append, Neighbourhood.allFrom_append]
    simp [Neighbourhood.allFrom]
  apply List.mem_map.mpr
  refine ⟨_, List.mem_filter.mpr ⟨hmem, ?_⟩, rfl⟩
  rw [Neighbourhood.isDefinition, Neighbourhood.isSymbol_of_endsLine rfl hreversed hleft,
    Neighbourhood.isModifier_of_endsLine rfl hreversed hleft, Token.isBlockSigil, hsigil]
  rfl

/-! ## A line of a text -/

section Line

variable {above w body : Text} (hwhole : above.IsWhole)
  (hclosed : Literal.isOpenAfter .markdown above = false)
  (hw : w.all Text.isIndentChar = true) (hbody : body.StartsVisibly)

include hwhole hclosed hw hbody

theorem exists_tokens_of_line :
    ∃ spaces tokens, tokenize .markdown (above ++ (w ++ body)) 1 =
        tokenize .markdown above 1 ++ (spaces ++ tokens) ∧
      (∀ s ∈ spaces, s.kind = .space) ∧
      ((∃ token, tokens.find? (·.kind != .space) = some token ∧
        token.line = above.lastLine ∧ token.kind = .keyword .blockSigil) ↔
          body.StartsWithSigil .markdown) ∧
      (body.StartsWithSigil .markdown → ∃ token behind, tokens = token :: behind ∧
        token.line = above.lastLine ∧ token.kind = .keyword .blockSigil) := by
  obtain ⟨ctx, hctx, htokens⟩ := exists_tokenize_indent_of_closed
    Grammar.markdown_soundEmbedding.toLineEmbedding hwhole hclosed 1
  refine ⟨_, _, htokens w body hw hbody, ?_, ?_⟩
  · intro s hs
    have hkind := List.mem_map_of_mem (f := Token.kind) hs
    rw [Token.map_kind_place] at hkind
    obtain ⟨piece, hpiece, heq⟩ := List.mem_map.mp hkind
    rw [← heq, (mem_pieceOf hpiece).1]
  · cases hpieces : scanFrom .markdown ctx body with
    | nil =>
        have hempty : ¬body.StartsWithSigil .markdown := by
          rintro ⟨sigil, hmem, behind, rfl, -⟩
          have htext := flatMap_text_scanFrom .markdown ctx (sigil ++ behind)
          rw [hpieces, List.flatMap_nil, eq_comm, List.append_eq_nil_iff] at htext
          exact Sigil.text_ne_nil ⟨sigil, hmem⟩ htext.1
        simp [Token.place, hempty]
    | cons piece more =>
        have hspace := kind_head_scanFrom_ne_space (by decide) hctx hbody hpieces
        have hsigil := kind_head_scanFrom_eq_sigil_iff hctx hpieces
        rw [← hsigil, Token.place, List.find?_cons_of_pos (by simpa [Token.ofPiece] using hspace)]
        simp [Token.ofPiece, Text.lastLine]

theorem exists_first_token_iff :
    (∃ token, (Token.startingFrom above.byteSize
        (tokenize .markdown (above ++ (w ++ body)) 1)).find? (·.kind != .space) = some token ∧
      token.line = above.lastLine ∧ token.kind = .keyword .blockSigil) ↔
        body.StartsWithSigil .markdown := by
  obtain ⟨spaces, tokens, hsplit, hspaces, hfirst, -⟩ :=
    exists_tokens_of_line hwhole hclosed hw hbody
  have hskip : (spaces ++ tokens).find? (·.kind != .space) =
      tokens.find? (·.kind != .space) := by
    rw [List.find?_append, List.find?_eq_none.mpr (by simpa using hspaces), Option.none_or]
  rw [hsplit, Token.startingFrom_append, hskip, hfirst]
  · exact fun entry => Token.lt_of_mem_withOffsets_tokenize
  · rw [flatMap_text_tokenize]

theorem mem_definitionLines_of_startsWithSigil (h : body.StartsWithSigil .markdown) :
    above.lastLine ∈ Outline.definitionLines .markdown (above ++ (w ++ body)) := by
  obtain ⟨spaces, tokens, hsplit, hspaces, -, hsigil⟩ :=
    exists_tokens_of_line hwhole hclosed hw hbody
  obtain ⟨token, behind, rfl, hline, hkind⟩ := hsigil h
  rw [← hline]
  exact Outline.mem_definitionLines hsplit (Nesting.endsLine_tokenize_of_closed
    Grammar.markdown_soundEmbedding.toLineEmbedding hwhole hclosed 1) hspaces hkind

end Line

theorem exists_match_at_line_iff {doc : Document} {above below : Text}
    (htext : doc.text = above ++ below) (hwhole : above.IsWhole)
    (hreturns : doc.text.returnsEndLines = true) :
    (∃ m ∈ Grammar.markdown.sigilLine.allMatches doc.text,
      (Found.ofMatch 0 doc.text m).start = above.byteSize ∧
      doc.capture? (Found.ofMatch 0 doc.text m) 1 = some below.leading) ↔
        Text.StartsWithSigil .markdown (below.dropWhile Text.isIndentChar) := by
  obtain ⟨sigils, hpattern, hsigils, hmem⟩ := Pattern.sigilLine_eq Grammar.markdown_visibleSigils
  have hbody : Text.returnsEndLines (below.dropWhile Text.isIndentChar) = true := by
    rw [htext, ← Text.leading_append below, ← List.append_assoc] at hreturns
    exact Text.returnsEndLines_of_append hreturns
  rw [← Pattern.isSome_sigilLength?_iff hmem hbody, hpattern]
  constructor
  · rintro ⟨m, hm, hstart, -⟩
    obtain ⟨passed, behind, found, hsplit, -, hfound, rfl⟩ :=
      Pattern.exists_of_mem_matchesFrom hsigils hm
    -- The match starts behind as many bytes as the line.
    rw [Found.start_ofMatch, Nat.zero_add, hsplit, List.take_left] at hstart
    obtain ⟨rfl, rfl⟩ := Text.append_inj_of_byteSize (hsplit.symm.trans htext) hstart
    rw [Pattern.matchHere?_sigilLine hsigils] at hfound
    obtain ⟨length, hlength, -⟩ := Option.map_eq_some_iff.mp hfound
    rw [hlength]
    rfl
  · intro h
    obtain ⟨length, hlength⟩ := Option.isSome_iff_exists.mp h
    have hfound : (Pattern.sigilLine sigils).matchHere? true below =
        some ⟨0, below.leading.length + length, some below.leading.length⟩ := by
      rw [Pattern.matchHere?_sigilLine hsigils, hlength]
      rfl
    have hm := Pattern.mem_matchesFrom hsigils 0 true
      ((Pattern.startsLine_true_iff above).mpr hwhole) hfound
    rw [← htext, Nat.zero_add] at hm
    refine ⟨_, hm, ?_, ?_⟩
    · rw [Found.start_ofMatch, htext, List.take_left]
    · have hall : doc.text = doc.text ++ [] := (List.append_nil _).symm
      have hleading : below.take below.leading.length = below.leading :=
        List.prefix_iff_eq_take.mp (List.takeWhile_prefix _) |>.symm
      rw [Found.capture?_ofMatch_of_indent hall rfl, htext, List.drop_left, hleading]

theorem occursIn_stripReturn_iff {content tail : Text} (hcontent : '\n' ∉ content)
    (htail : tail.takeWhile (· != '\n') = [])
    (hreturns : Text.returnsEndLines (content ++ tail) = true) :
    Grammar.markdown.sigilLine.occursIn (Text.stripReturn content) = true ↔
      Text.StartsWithSigil .markdown (content.dropWhile Text.isIndentChar ++ tail) := by
  obtain ⟨sigils, hpattern, hsigils, hmem⟩ := Pattern.sigilLine_eq Grammar.markdown_visibleSigils
  have hbody : '\n' ∉ content.dropWhile Text.isIndentChar := fun h =>
    hcontent ((List.dropWhile_suffix _).subset h)
  have hrest : Text.returnsEndLines (content.dropWhile Text.isIndentChar ++ tail) = true := by
    rw [← Text.leading_append content, List.append_assoc] at hreturns
    exact Text.returnsEndLines_of_append hreturns
  rw [hpattern, Pattern.occursIn_sigilLine hsigils (Text.lineFeed_notMem_stripReturn hcontent),
    Text.stripReturn_dropWhile]
  exact Pattern.isSome_sigilLength?_stripReturn_iff hmem Grammar.markdown_sigils_on_line hbody
    htail hrest

theorem Indentation.anchor_mem_definitionLines {above : Text} {a : Anchor}
    (h : anchor? .markdown above = some a) (habove : above.IsWhole) (below : Text) :
    a.line ∈ Outline.definitionLines .markdown (above ++ below) := by
  obtain ⟨sigils, hpattern, hsigils, hmem⟩ := Pattern.sigilLine_eq Grammar.markdown_visibleSigils
  obtain ⟨behind, found, rfl, hne, hwhole, hclosed, -, hfound⟩ :=
    exists_match_of_anchor? Grammar.markdown_visibleSigils h
  rw [hpattern, ← Pattern.matchHere?_append hsigils (habove.of_append.getLast? hne) below,
    Pattern.matchHere?_sigilLine hsigils] at hfound
  obtain ⟨_, hlength, -⟩ := Option.map_eq_some_iff.mp hfound
  obtain ⟨sigil, hsigil, rest, tail, hsplit, htail, -⟩ := Pattern.sigilLength?_eq_some hlength
  rw [List.append_assoc, ← Text.leading_append (behind ++ below)]
  apply mem_definitionLines_of_startsWithSigil hwhole hclosed
  · simp [Text.leading]
  · exact Text.startsVisibly_dropWhile _
  · exact ⟨sigil, (hmem sigil).mp hsigil, rest, hsplit,
      Pattern.standsAlone_of_sigilTail? (by rw [htail]; rfl)⟩

/-- The pattern of a sigil line and the scanner agree on every line outside literals, as far as
carriage returns only end lines: the pattern matches the line, it matches in the whole text at the
start of the line with the line's indentation as its group, and the first token of the line that is
not a space is a sigil, all of this or nothing.  Such a line is a definition, and so is every anchor
that decides about the column of a line. -/
theorem sigilLine_iff_sigil_token (doc : Document) (hreturns : doc.text.returnsEndLines = true) :
    (∀ line p, doc.text.lineStart? line = some p →
      Literal.isOpenAfter .markdown (doc.text.between 0 p) = false →
      [(doc.text.lineText? line).any Grammar.markdown.sigilLine.occursIn = true,
        ∃ m ∈ Grammar.markdown.sigilLine.allMatches doc.text,
          (Found.ofMatch 0 doc.text m).start = p ∧
          doc.capture? (Found.ofMatch 0 doc.text m) 1 = some (doc.leadingOf line),
        ∃ token, (Token.startingFrom p (tokenize .markdown doc.text 1)).find? (·.kind != .space) =
            some token ∧
          token.line = line ∧ token.kind = .keyword .blockSigil].TFAE ∧
      ((doc.text.lineText? line).any Grammar.markdown.sigilLine.occursIn = true →
        line ∈ Outline.definitionLines .markdown doc.text)) ∧
    ∀ line above below a, doc.text.cutAtLine? line = some (above, below) →
      (Indentation.survey .markdown above).anchor = some a →
      a.line ∈ Outline.definitionLines .markdown doc.text := by
  refine ⟨fun line p hp hclosed => ?_, fun line above below a hcut ha => ?_⟩
  · obtain ⟨ls, content, more, hlines, rfl, rfl⟩ := Text.exists_lines_of_lineStart? hp
    obtain ⟨tail, hmore, htail⟩ := Text.exists_intercalate_cons more
    have hls : ∀ line ∈ ls, '\n' ∉ line := fun line hmem =>
      Text.lineFeed_notMem_of_mem_lines (t := doc.text) (by simp [hlines, hmem])
    have hcontent : '\n' ∉ content :=
      Text.lineFeed_notMem_of_mem_lines (t := doc.text) (by simp [hlines])
    have htext : doc.text = Text.wholeLines ls ++ (content ++ tail) := by
      rw [Text.eq_wholeLines_append hlines, hmore]
    have hwhole := Text.isWhole_wholeLines ls
    -- The indentation of the line, and what stands behind it.
    have hindent : content.leading.all Text.isIndentChar = true := by simp [Text.leading]
    have hvisible := Text.startsVisibly_of_takeWhile htail
    have hbody := Text.startsVisibly_dropWhile_append content hvisible
    have hsplit : content ++ tail =
        content.leading ++ (content.dropWhile Text.isIndentChar ++ tail) := by
      rw [← List.append_assoc, Text.leading_append]
    have hlast : (Text.wholeLines ls).lastLine = ls.length + 1 := by
      rw [Text.lastLine, Text.count_wholeLines hls, Nat.add_comm]
    rw [htext, Text.between_zero_append] at hclosed
    have hreturns' : Text.returnsEndLines (content ++ tail) = true := by
      rw [htext] at hreturns
      exact Text.returnsEndLines_of_append hreturns
    have hpattern := occursIn_stripReturn_iff hcontent htail hreturns'
    have hmatch := exists_match_at_line_iff htext hwhole hreturns
    have htoken := exists_first_token_iff hwhole hclosed hindent hbody
    rw [Text.leading_append_below content hvisible,
      Text.dropWhile_append_below content hvisible] at hmatch
    rw [← hsplit, ← htext, hlast] at htoken
    rw [Document.leadingOf_of_lines hlines, Text.lineText?_of_lines hlines, Option.any_some]
    constructor
    · rw [List.tfae_cons_cons, List.tfae_cons_cons]
      exact ⟨hpattern.trans hmatch.symm, hmatch.trans htoken.symm, List.tfae_singleton _⟩
    · intro hoccurs
      have hmem := mem_definitionLines_of_startsWithSigil hwhole hclosed hindent hbody
        (hpattern.mp hoccurs)
      rwa [← hsplit, ← htext, hlast] at hmem
  · obtain ⟨ls, content, more, hlines, -, rfl, rfl⟩ := Text.exists_lines_of_cutAtLine? hcut
    rw [Indentation.survey_anchor] at ha
    rw [Text.eq_wholeLines_append hlines]
    exact Indentation.anchor_mem_definitionLines ha (Text.isWhole_wholeLines ls) _

theorem sigilLine_iff_sigil_token_item :
    (∃ token, (Token.startingFrom 3 (tokenize .markdown "a\r\n  * b\r\n".toList 1)).find?
        (·.kind != .space) = some token ∧ token.line = 2 ∧ token.kind = .keyword .blockSigil) ∧
    2 ∈ Outline.definitionLines .markdown "a\r\n  * b\r\n".toList := by
  obtain ⟨hlines, -⟩ := sigilLine_iff_sigil_token
    (.ofText "a" "a\r\n  * b\r\n".toList .default) (by decide)
  obtain ⟨hsame, hdefinition⟩ := hlines 2 3 (by decide) (by decide +kernel)
  have hoccurs : ((Document.ofText "a" "a\r\n  * b\r\n".toList .default).text.lineText? 2).any
      Grammar.markdown.sigilLine.occursIn = true := by decide +kernel
  exact ⟨(hsame.out 0 2).mp hoccurs, hdefinition hoccurs⟩

end MarkupLayout

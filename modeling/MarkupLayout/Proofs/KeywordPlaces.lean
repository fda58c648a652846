import MarkupLayout.Proofs.LineHead
import MarkupLayout.Proofs.PlainRows
import MarkupLayout.Proofs.StepCases
import MarkupLayout.Proofs.TokenOffsets
/-!
# Where keywords and line feeds stand

What a keyword or a line break is made of shows in the lexeme at which the scanner yields it, for
strings yield neither and fences only the break behind their first line.  A closer is the first
thing on its line, a sigil stands alone, and line feeds end line breaks or belong to literals.
-/

namespace MarkupLayout

open ScanStep (LiteralBody Shape)

def TokenKind.isStructural (kind : TokenKind) : Bool :=
  kind.isKeyword || kind.isLineBreak

/-! ## Pieces that are keywords or line breaks -/

section Structural

variable {g : Grammar} {ctx : ScanContext} {piece : Piece}

theorem isStructural_of_mem_quotedStep {q : Char} {embeddings : List Embedding} {depth : Nat}
    {t : Text} (hmem : piece ∈ (quotedStep g q embeddings depth t).pieces) :
    piece.kind.isStructural = false := by
  rcases mem_quotedStep hmem with hkind | hkind | rfl
  · rw [hkind]
    rfl
  · rw [hkind]
    rfl
  · rfl

namespace ScanContext

theorem Does.yields_of_isStructural {c : Char} {rest : Text} {step : ScanStep}
    (h : ctx.Does g c rest step) (hmem : piece ∈ step.pieces)
    (hkind : piece.kind.isStructural = true) :
    ctx.Yields g (Lexeme.first c rest).1 piece ∨
      piece = ⟨.newline, Text.firstEnding (c :: rest)⟩ := by
  cases h with
  | plain _ _ hyields =>
      rw [List.mem_singleton.mp hmem]
      exact .inl hyields
  | char =>
      rw [List.mem_singleton.mp hmem] at hkind
      simp [TokenKind.isStructural, TokenKind.isKeyword, TokenKind.isLineBreak] at hkind
  | opens =>
      rw [List.mem_singleton.mp hmem] at hkind
      simp [TokenKind.isStructural, TokenKind.isKeyword, TokenKind.isLineBreak] at hkind
  | closes _ _ _ hpieces =>
      rw [hpieces] at hmem
      rw [List.mem_singleton.mp hmem] at hkind
      simp [TokenKind.isStructural, TokenKind.isKeyword, TokenKind.isLineBreak] at hkind
  | resumes =>
      rcases List.mem_cons.mp hmem with rfl | hmem
      · simp [TokenKind.isStructural, TokenKind.isKeyword, TokenKind.isLineBreak] at hkind
      · simp [isStructural_of_mem_quotedStep hmem] at hkind
  | quote =>
      rcases List.mem_cons.mp hmem with rfl | hmem
      · simp [TokenKind.isStructural, TokenKind.isKeyword, TokenKind.isLineBreak] at hkind
      · simp [isStructural_of_mem_quotedStep hmem] at hkind
  | codeSpan _ _ _ hspan =>
      rcases mem_codeSpan hspan hmem with rfl | hspan | hspan
      all_goals simp_all [TokenKind.isStructural, TokenKind.isKeyword, TokenKind.isLineBreak]
  | fence =>
      rcases mem_fenceStep hmem with rfl | rfl | hgap | hfence | hfence
      · simp [TokenKind.isStructural, TokenKind.isKeyword, TokenKind.isLineBreak] at hkind
      · simp [TokenKind.isStructural, TokenKind.isKeyword, TokenKind.isLineBreak] at hkind
      · exact .inr hgap
      · rw [hfence] at hkind
        simp [TokenKind.isStructural, TokenKind.isKeyword, TokenKind.isLineBreak] at hkind
      · rw [hfence] at hkind
        simp [TokenKind.isStructural, TokenKind.isKeyword, TokenKind.isLineBreak] at hkind

theorem Does.closer {c : Char} {rest : Text} {step : ScanStep} (h : ctx.Does g c rest step)
    (hmem : piece ∈ step.pieces) (hkind : piece.kind = .keyword .closer) :
    piece.text = g.closer ∧ ctx.last = none := by
  rcases h.yields_of_isStructural hmem (by rw [hkind]; rfl) with hyields | rfl
  · exact hyields.closer hkind
  · simp at hkind

end ScanContext

end Structural

/-! ## Line feeds -/

theorem Lexeme.lineFeed_notMem_dropLast_first {c : Char} {rest : Text}
    (h : startKind c rest = .newline) : '\n' ∉ (first c rest).1.text.dropLast := by
  rcases text_first_of_newline h with htext | htext <;> simp [htext]

theorem Text.lineFeed_notMem_dropLast_firstEnding (t : Text) : '\n' ∉ t.firstEnding.dropLast := by
  intro hmem
  have hne : t.firstEnding ≠ [] := by
    intro hnil
    simp [hnil] at hmem
  apply t.lineFeed_notMem_dropLast_firstLine
  rw [List.dropLast_append_of_ne_nil hne]
  exact List.mem_append_right _ hmem

namespace ScanContext

variable {g : Grammar} {ctx : ScanContext} {c : Char} {rest : Text} {piece : Piece}

theorem Does.lineFeed_notMem_dropLast {step : ScanStep} (h : ctx.Does g c rest step)
    (hmem : piece ∈ step.pieces) (hbreak : piece.kind.isLineBreak = true) :
    '\n' ∉ piece.text.dropLast := by
  rcases h.yields_of_isStructural hmem (by simp [TokenKind.isStructural, hbreak]) with
    hyields | rfl
  · obtain ⟨mark, htext, hmark⟩ := hyields.text
    have hkind := hyields.lineBreak hbreak
    rw [Lexeme.kind_first] at hkind
    obtain rfl : mark = [] := hmark.resolve_right (by simp [hkind])
    rw [htext, List.append_nil]
    exact Lexeme.lineFeed_notMem_dropLast_first hkind
  · exact Text.lineFeed_notMem_dropLast_firstEnding _

end ScanContext

namespace ScanStep

variable {g : Grammar} {piece : Piece}

theorem LiteralBody.lineFeed_notMem (hg : g.LineEmbedding) {kind : LiteralKind}
    {embeddings : List Embedding} {depth : Nat} {isOpen : Bool} {body : ScanStep}
    (h : LiteralBody g kind embeddings depth isOpen body) (hmem : piece ∈ body.pieces)
    (hkind : piece.kind ≠ .literalContent) : '\n' ∉ piece.text := by
  have content {text : Text} (hmem : piece ∈ pieceOf .literalContent text) : False := by
    rw [(mem_pieceOf hmem).1] at hkind
    exact hkind rfl
  cases h with
  | unclosed => exact (content hmem).elim
  | closed _ _ _ _ hline =>
      rcases List.mem_append.mp hmem with hmem | hmem
      · exact (content hmem).elim
      · rw [List.mem_singleton.mp hmem]
        exact hline
  | embeds =>
      rcases List.mem_append.mp hmem with hmem | hmem
      · exact (content hmem).elim
      · rw [List.mem_singleton.mp hmem]
        exact hg.onLine

theorem Shape.lineFeed_notMem (hg : g.LineEmbedding) {ctx : ScanContext} {isOpen : Bool}
    {step : ScanStep} (h : Shape g ctx isOpen step) (hmem : piece ∈ step.pieces)
    (hkind : piece.kind ≠ .literalContent) (hbreak : piece.kind.isLineBreak = false) :
    '\n' ∉ piece.text := by
  cases h with
  | plain _ _ hfits =>
      rw [List.mem_singleton.mp hmem] at hbreak ⊢
      exact hfits.onLine hbreak
  | opens _ _ _ _ _ _ _ hc =>
      rw [List.mem_singleton.mp hmem]
      simpa using hc.symm
  | closes _ _ _ _ _ hc =>
      rw [List.mem_singleton.mp hmem]
      simpa using hc.symm
  | resumes _ _ _ _ _ hc hbody =>
      rcases List.mem_cons.mp hmem with rfl | hmem
      · simpa using hc.symm
      · exact hbody.lineFeed_notMem hg hmem hkind
  | literal _ blank _ _ _ _ hline hblank _ hbody =>
      simp only [List.mem_append, List.mem_cons] at hmem
      rcases hmem with hmem | rfl | hmem | hmem
      · rw [(mem_pieceOf hmem).1]
        intro hfeed
        simpa [Text.isIndentChar] using List.all_eq_true.mp hblank _ hfeed
      · exact hline
      · rw [(mem_pieceOf hmem).1] at hbreak
        simp [TokenKind.isLineBreak] at hbreak
      · exact hbody.lineFeed_notMem hg hmem hkind

end ScanStep

/-! ## Tokens -/

/-- A token whose keyword or line feeds are where the grammar has them. -/
structure Token.InPlace (g : Grammar) (left : List Token) (token : Token) (right : List Token) :
    Prop where
  closer : token.kind = .keyword .closer → token.text = g.closer ∧
    ∃ above blank, left.flatMap Token.text = above ++ blank ∧ Text.IsWhole above ∧
      blank.all Text.isIndentChar = true
  sigil : token.kind = .keyword .blockSigil → token.text ∈ g.blockSigils ∧
    standsAlone (right.flatMap Token.text).head? = true
  lineFeed : token.kind ≠ .literalContent → '\n' ∈ token.text →
    token.kind.isLineBreak = true ∧ ∃ text, token.text = text ++ ['\n'] ∧ '\n' ∉ text

theorem Token.inPlace_of_tokenize {g : Grammar} (hg : g.LineEmbedding)
    (hsigils : ∀ sigil ∈ g.blockSigils, ¬sigil.head?.any isWordLetter = true) {t : Text}
    {firstLine : Nat} {left right : List Token} {token : Token}
    (h : tokenize g t firstLine = left ++ token :: right) : InPlace g left token right := by
  obtain ⟨passed, ctx, c, rest, inner, more, hrun, hyields, hleft, -, hright, -⟩ := exists_step h
  have hmem : token.piece ∈ (ctx.step g c rest).pieces := by simp [hyields]
  obtain ⟨_, hshape⟩ := ctx.step_shape g (hrun.wellQuoted ScanContext.wellQuoted_initial) c rest
  constructor
  · intro hkind
    obtain ⟨htext, hlast⟩ := (ctx.step_does g c rest).closer hmem hkind
    obtain ⟨rfl, -⟩ := hshape.eq_of_isKeyword hyields
      (by rw [show token.piece.kind = _ from hkind]; rfl)
    obtain ⟨above, _, blank, hline, hblank, hwhole⟩ :=
      hrun.exists_lineStart ScanContext.wellQuoted_initial hlast (by simp)
    refine ⟨htext, above.flatMap Piece.text, blank, ?_, ?_, hblank⟩
    · have htext := hline.text_append.trans hrun.text_append.symm
      rw [← List.append_assoc] at htext
      rw [hleft, List.flatMap_nil, List.append_nil, List.append_cancel_right htext]
    · rcases hwhole with ⟨rfl, -⟩ | hlast
      · exact Text.isWhole_nil
      · exact .inr hlast
  · intro hkind
    obtain ⟨-, rfl, hfits⟩ := hshape.eq_of_isKeyword hyields
      (by rw [show token.piece.kind = _ from hkind]; rfl)
    obtain ⟨hsigil, hend⟩ := hfits.sigil hkind
    have hmem := List.contains_iff_mem.mp hsigil
    rw [hright, List.flatMap_nil, List.nil_append]
    exact ⟨hmem, hend.resolve_left (hsigils _ hmem)⟩
  · intro hkind hfeed
    have hbreak : token.kind.isLineBreak = true := by
      by_contra hbreak
      rw [Bool.not_eq_true] at hbreak
      exact hshape.lineFeed_notMem hg hmem hkind hbreak hfeed
    have hdrop := (ctx.step_does g c rest).lineFeed_notMem_dropLast hmem hbreak
    have hsplit := List.dropLast_append_getLast (List.ne_nil_of_mem hfeed)
    refine ⟨hbreak, token.text.dropLast, ?_, hdrop⟩
    rw [← hsplit, List.mem_append, List.mem_singleton] at hfeed
    rw [← hfeed.resolve_left hdrop] at hsplit
    exact hsplit.symm

/-! ## Closers at the start of a line -/

theorem ScanContext.lexeme_of_closer {ctx : ScanContext} (hlast : ctx.last = none) {c : Char}
    {rest behind : Text} (hfirst : Lexeme.first c rest = (⟨.word, Grammar.markdown.closer⟩, behind))
    (hlabel : ∀ more, behind = ':' :: more → standsAlone more.head? = false) :
    ctx.lexeme .markdown c rest =
      ctx.emit (.keyword .closer) Grammar.markdown.closer behind := by
  have hkeyword : ctx.keywordOrPlain .markdown Grammar.markdown.closer behind =
      ctx.emit (.keyword .closer) Grammar.markdown.closer behind := by
    have hrole : Grammar.markdown.keywordRole Grammar.markdown.closer = some .closer := by decide
    simp only [keywordOrPlain, hrole, atLineHead, hlast, Option.isNone_none, Bool.or_true,
      ↓reduceIte]
  simp only [lexeme, hfirst, word]
  split
  · rw [hlabel _ rfl, if_neg (by simp), hkeyword]
  · exact hkeyword

theorem exists_scan_of_closer {above blank body : Text} (hwhole : above.IsWhole)
    (hclosed : Literal.isOpenAfter .markdown above = false)
    (hblank : blank.all Text.isIndentChar = true)
    (hword : (Lexeme.all body).head? = some ⟨.word, Grammar.markdown.closer⟩)
    (hlabel : ∀ more, body = Grammar.markdown.closer ++ ':' :: more →
      standsAlone more.head? = false) :
    ∃ more, scan .markdown (above ++ (blank ++ body)) = scan .markdown above ++
      (pieceOf .space blank ++ ⟨.keyword .closer, Grammar.markdown.closer⟩ :: more) := by
  obtain ⟨ctx, -, hlast, hscan⟩ := Text.exists_scan_indent_of_closed
    Grammar.markdown_soundEmbedding.toLineEmbedding hwhole hclosed
  cases body with
  | nil => simp [Lexeme.all] at hword
  | cons c rest =>
      rw [Lexeme.all, List.head?_cons, Option.some.injEq] at hword
      obtain ⟨behind, hfirst⟩ : ∃ behind,
          Lexeme.first c rest = (⟨.word, Grammar.markdown.closer⟩, behind) :=
        ⟨_, Prod.ext hword rfl⟩
      have htext := Lexeme.first_append c rest
      rw [hfirst] at htext
      obtain rfl : 'e' = c := (List.cons.inj htext).1
      have hvisible : Text.isIndentChar 'e' = false := by decide
      have hstep := ctx.step_eq_lexeme (g := .markdown) hvisible (by decide) rest
      rw [ctx.lexeme_of_closer hlast hfirst fun more hmore =>
        hlabel more (by rw [← htext, hmore])] at hstep
      rw [hscan blank _ hblank (Text.startsVisibly_of_not_isIndentChar hvisible rest),
        scanFrom_cons, hstep]
      exact ⟨_, rfl⟩

/-- Keywords and line feeds only stand in their places: a closer is the closing word, with nothing
but spaces and tabs before it on its line; a sigil is one of the grammar, with a space, a line break
or the end of the text behind it; and a line feed outside the contents of literals ends a line
break.  The closing word is a closer on every line outside literals that starts with it, unless it
is a label there. -/
theorem tokenize_keywords_in_place (t : Text) (firstLine : Nat) :
    (∀ left token right, tokenize .markdown t firstLine = left ++ token :: right →
      token.InPlace .markdown left right) ∧
    ∀ p ∈ t.lineStarts, Literal.isOpenAfter .markdown (t.between 0 p) = false →
      ∀ blank body, t.between p t.byteSize = blank ++ body → blank.all Text.isIndentChar = true →
        (Lexeme.all body).head? = some ⟨.word, Grammar.markdown.closer⟩ →
        (∀ more, body = Grammar.markdown.closer ++ ':' :: more → standsAlone more.head? = false) →
        ∃ left token right, tokenize .markdown t firstLine = left ++ token :: right ∧
          left.flatMap Token.text = t.between 0 p ++ blank ∧
          token.kind = .keyword .closer ∧ token.text = Grammar.markdown.closer := by
  constructor
  · intro left token right
    exact Token.inPlace_of_tokenize Grammar.markdown_soundEmbedding.toLineEmbedding
      Grammar.markdown_sigils_no_letters
  · intro p hp hclosed blank body hbelow hblank hword hlabel
    obtain ⟨above, below, rfl, hwhole, rfl⟩ := Text.mem_lineStarts_iff.mp hp
    rw [Text.between_zero_append] at hclosed ⊢
    obtain rfl : below = blank ++ body := by
      rw [← hbelow]
      simpa using (Text.between_append above below []).symm
    obtain ⟨more, hscan⟩ := exists_scan_of_closer hwhole hclosed hblank hword hlabel
    have hbefore : (scan .markdown above ++ pieceOf .space blank).flatMap Piece.text =
        above ++ blank := by
      rw [List.flatMap_append, flatMap_text_pieceOf, scan, flatMap_text_scanFrom]
    rw [tokenize, hscan, ← List.append_assoc, Token.place_append, Token.place]
    exact ⟨_, _, _, rfl, by rw [Token.flatMap_text_place, hbefore], rfl, rfl⟩

theorem tokenize_keywords_in_place_item :
    ∃ left token right, tokenize .markdown "* a\n  end b\n".toList 1 = left ++ token :: right ∧
      left.flatMap Token.text = "* a\n".toList ++ "  ".toList ∧
      token.kind = .keyword .closer ∧ token.text = Grammar.markdown.closer := by
  have habove : Text.between "* a\n  end b\n".toList 0 4 = "* a\n".toList := by decide
  obtain ⟨-, hcloser⟩ := tokenize_keywords_in_place "* a\n  end b\n".toList 1
  rw [← habove]
  refine hcloser 4 (by decide) (by rw [habove]; decide +kernel) "  ".toList "end b\n".toList
    (by decide) (by decide) (by decide +kernel) fun more hmore => ?_
  simp [Grammar.markdown] at hmore

end MarkupLayout

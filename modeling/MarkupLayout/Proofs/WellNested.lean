import MarkupLayout.Proofs.LineHead
import MarkupLayout.Proofs.LiteralLines
/-!
# Indenting below well nested text

Below text whose brackets and blocks pair up, a line gets no column in two cases.  Either its
anchor stands in code embedded in a string, and the span, which starts in the middle of the string,
is misread.  Or the span closes a block that is opened above its anchor, but by a sigil that does
not start a sigil line and so is no anchor itself.
-/

namespace MarkupLayout

namespace Nesting

theorem kind_of_mark_eq_opens {g : Grammar} {n : Neighbourhood} (h : mark g n = .opens .block) :
    n.token.kind = .keyword .blockSigil := by
  rcases mark_eq_opens_iff.mp h with ⟨kind, -, hneeds⟩ | ⟨hsigil, -⟩
  · simp at hneeds
  · exact beq_iff_eq.mp hsigil

end Nesting

namespace Indentation

open Nesting (enclosingScope)

variable {g : Grammar} {above : Text}

/-! ## Where the column of a line fails -/

theorem columnIn_eq_error_iff (g : Grammar) (style : IndentStyle) (above : Text) (sigil : Bool)
    {s : Survey} {scope : Nesting.Scope} (h : scope.Valid s.tokens.length) :
    (∃ mismatch, columnIn g style above sigil s scope = .error mismatch) ↔
      scope.firstExtraCloser ≠ none ∧ s.hasEarlierAnchor g = false := by
  unfold columnIn
  cases hopener : scope.opener with
  | some index =>
      have hindex := h.opener index hopener
      have hextra := h.exclusive (by rw [hopener]; rfl)
      simp only [Option.bind_some, List.getElem?_eq_getElem hindex, hextra, ne_eq, not_true,
        false_and, iff_false, not_exists]
      intro mismatch
      split <;> simp
  | none =>
      cases hextra : scope.firstExtraCloser with
      | none => simp
      | some index =>
          have hindex := h.firstExtraCloser index hextra
          simp only [Option.bind_none, Option.bind_some, List.getElem?_eq_getElem hindex]
          cases s.hasEarlierAnchor g <;> simp

theorem column_eq_error_iff (hv : g.VisibleSigils) (hg : g.SoundEmbedding) (style : IndentStyle)
    (habove : above.IsWhole) (sigil : Bool) :
    (∃ mismatch, column g style above sigil = .error mismatch) ↔
      Literal.isOpenAfter g (span g above) = false ∧
      ((∃ mismatch, enclosingScope g (survey g above).tokens = .error mismatch) ∨
        ∃ inner, enclosingScope g (survey g above).tokens = .ok inner ∧
          inner.firstExtraCloser ≠ none ∧ (survey g above).hasEarlierAnchor g = false) := by
  rw [column, endsInLiteral_survey hv hg habove]
  cases Literal.isOpenAfter g (span g above) with
  | true => simp
  | false =>
      cases hinner : enclosingScope g (survey g above).tokens with
      | error mismatch => simp
      | ok inner =>
          have hcolumn := columnIn_eq_error_iff g style above sigil
            (Nesting.valid_of_enclosingScope hinner)
          simp only [Bool.false_eq_true, ↓reduceIte, reduceCtorEq, exists_false, true_and,
            false_or, Except.ok.injEq, exists_eq_left']
          rw [← hcolumn]
          generalize columnIn g style above sigil (survey g above) inner = result
          cases result <;> simp [Except.map]

/-! ## The span of well nested text -/

variable {scope : Nesting.Scope} {a : Anchor}

theorem survey_tokens_of_anchor (h : anchor? g above = some a) :
    (survey g above).tokens = tokenize g (span g above) a.line := by
  rw [survey_tokens, h]
  rfl

theorem survey_tokens_of_anchor?_eq_none (h : anchor? g above = none) :
    (survey g above).tokens = tokenize g above 1 := by
  rw [survey_tokens, h, span_of_anchor?_eq_none h]
  rfl

theorem hasEarlierAnchor_survey (h : anchor? g above = some a) :
    (survey g above).hasEarlierAnchor g = (anchor? g a.above).isSome := by
  rw [Survey.hasEarlierAnchor, survey_anchor, h]
  rfl

theorem exists_tokenize_above (hv : g.VisibleSigils) (hg : g.SoundEmbedding)
    (h : anchor? g above = some a) (hcode : a.inCode g = false) :
    ∃ tokens, tokenize g above 1 = tokenize g a.above 1 ++ tokens ∧
      tokens.map Token.blurred = (survey g above).tokens.map Token.blurred ∧
      Nesting.resolve g tokens = Nesting.resolve g (survey g above).tokens := by
  obtain ⟨tokens, htokens, hblurred⟩ :=
    (complete_of_inCode_eq_false hv h hcode).exists_tokenize_append hg.toLineEmbedding
      (span g above)
  rw [above_append_span hv h] at htokens
  refine ⟨tokens, htokens, ?_⟩
  rw [survey_tokens_of_anchor h]
  exact ⟨hblurred, Token.congr_of_map_blurred (Nesting.resolve_map_blurred g) hblurred⟩

theorem inCode_of_enclosingScope_eq_error (hv : g.VisibleSigils) (hg : g.SoundEmbedding)
    (hscope : enclosingScope g (tokenize g above 1) = .ok scope) (h : anchor? g above = some a)
    {mismatch : Nesting.Mismatch}
    (herror : enclosingScope g (survey g above).tokens = .error mismatch) :
    a.inCode g = true := by
  by_contra hcode
  rw [Bool.not_eq_true] at hcode
  obtain ⟨tokens, htokens, -, hresolve⟩ := exists_tokenize_above hv hg h hcode
  obtain ⟨index, hindex⟩ := Nesting.exists_enclosingScope_eq_error_iff.mp ⟨mismatch, herror⟩
  have hline := Nesting.endsLine_tokenize hg.toLineEmbedding
    (complete_of_inCode_eq_false hv h hcode) 1
  obtain ⟨index, hindex⟩ := Nesting.exists_error_of_append hline (hresolve.trans hindex)
  rw [← htokens, Nesting.enclosingScope_eq_ok_iff.mp hscope] at hindex
  simp at hindex

theorem isSome_anchor?_of_firstExtraCloser (hv : g.VisibleSigils) (hg : g.SoundEmbedding)
    (hscope : enclosingScope g (tokenize g above 1) = .ok scope)
    (hclosed : scope.firstExtraCloser = none) (h : anchor? g above = some a)
    (hcode : a.inCode g = false) {inner : Nesting.Scope}
    (hinner : enclosingScope g (survey g above).tokens = .ok inner)
    (hextra : inner.firstExtraCloser ≠ none)
    (hheads : ∀ n ∈ Neighbourhood.all (tokenize g above 1),
      Nesting.mark g n = .opens .block → n.headsLine = true) :
    (anchor? g a.above).isSome = true := by
  obtain ⟨tokens, htokens, -, hresolve⟩ := exists_tokenize_above hv hg h hcode
  have hcomplete := complete_of_inCode_eq_false hv h hcode
  have hline := Nesting.endsLine_tokenize hg.toLineEmbedding hcomplete 1
  rw [Nesting.enclosingScope_eq_ok_iff] at hinner hscope
  rw [htokens] at hscope hheads
  obtain ⟨n, hmem, hmark⟩ := Nesting.exists_opener_of_append hline (hresolve.trans hinner)
    hextra hscope hclosed
  have hsigil := Nesting.kind_of_mark_eq_opens hmark
  -- The same token among all tokens above the line.
  have hhead := hheads { n with behind := n.behind ++ tokens } (by
    rw [Neighbourhood.all, Neighbourhood.allFrom_append]
    exact List.mem_append_left _ (List.mem_map_of_mem hmem))
    ((Nesting.mark_of_mem_all g hline hmem tokens).trans hmark)
  rw [Neighbourhood.headsLine_append (getLast?_behind_of_isKeyword hcomplete.isWhole hmem
    (by rw [hsigil]; rfl))] at hhead
  exact isSome_anchor?_of_headsLine hv hg hmem hsigil hhead

theorem column_eq_error_iff_of_wellNested (hv : g.VisibleSigils) (hg : g.SoundEmbedding)
    (style : IndentStyle) (habove : above.IsWhole) (sigil : Bool)
    (hscope : enclosingScope g (tokenize g above 1) = .ok scope)
    (hclosed : scope.firstExtraCloser = none) :
    (∃ mismatch, column g style above sigil = .error mismatch) ↔
      Literal.isOpenAfter g (span g above) = false ∧
      ∃ a, anchor? g above = some a ∧
        ((a.inCode g = true ∧
            ∃ mismatch, enclosingScope g (survey g above).tokens = .error mismatch) ∨
          (anchor? g a.above = none ∧
            ∃ inner, enclosingScope g (survey g above).tokens = .ok inner ∧
              inner.firstExtraCloser ≠ none)) := by
  rw [column_eq_error_iff hv hg style habove]
  refine and_congr_right fun _ => ?_
  cases h : anchor? g above with
  | none =>
      rw [survey_tokens_of_anchor?_eq_none h, hscope]
      simp [hclosed]
  | some a =>
      rw [hasEarlierAnchor_survey h]
      simp only [Option.some.injEq, exists_eq_left', Option.isSome_eq_false_iff,
        Option.isNone_iff_eq_none]
      constructor
      · rintro (⟨mismatch, herror⟩ | ⟨inner, hinner, hextra, hearlier⟩)
        · exact .inl ⟨inCode_of_enclosingScope_eq_error hv hg hscope h herror, mismatch, herror⟩
        · exact .inr ⟨hearlier, inner, hinner, hextra⟩
      · rintro (⟨-, herror⟩ | ⟨hearlier, inner, hinner, hextra⟩)
        · exact .inl herror
        · exact .inr ⟨inner, hinner, hextra, hearlier⟩

end Indentation

namespace Document

theorem exists_columnOf_eq_error_iff (g : Grammar) (doc : Document) (line : Nat) :
    (∃ e, doc.columnOf g line = .error e) ↔
      ∃ mismatch, Indentation.columnOf g doc.style doc.text line = .error mismatch := by
  rw [columnOf]
  cases Indentation.columnOf g doc.style doc.text line <;> simp [Except.mapError]

/-- Below text whose brackets and blocks pair up, a line gets an error exactly if it is not left
alone and, its anchor being in code embedded in a string, its span does not pair up, or its span
closes a block although no sigil line precedes the anchor.  There is no error if the anchor is
outside such code and every sigil that opens a block heads its line. -/
theorem columnOf_error_iff_of_wellNested (doc : Document) (line : Nat) (scope : Nesting.Scope)
    (hline : 2 ≤ line) (hcount : line ≤ doc.text.lineCount)
    (hscope : Nesting.enclosingScope .markdown (tokenize .markdown (doc.text.above line) 1) =
      .ok scope)
    (hclosed : scope.firstExtraCloser = none) :
    ((∃ e, doc.columnOf .markdown line = .error e) ↔
      Literal.isOpenAfter .markdown (Indentation.span .markdown (doc.text.above line)) = false ∧
      ∃ a, Indentation.anchor? .markdown (doc.text.above line) = some a ∧
        ((a.inCode .markdown = true ∧ ∃ mismatch, Nesting.enclosingScope .markdown
            (Indentation.survey .markdown (doc.text.above line)).tokens = .error mismatch) ∨
          (Indentation.anchor? .markdown a.above = none ∧
            ∃ inner, Nesting.enclosingScope .markdown
              (Indentation.survey .markdown (doc.text.above line)).tokens = .ok inner ∧
                inner.firstExtraCloser ≠ none))) ∧
    ((∀ a, Indentation.anchor? .markdown (doc.text.above line) = some a →
        a.inCode .markdown = false) →
      (∀ n ∈ Neighbourhood.all (tokenize .markdown (doc.text.above line) 1),
        Nesting.mark .markdown n = .opens .block → n.headsLine = true) →
      ∀ e, doc.columnOf .markdown line ≠ .error e) := by
  have hexact := exists_columnOf_eq_error_iff .markdown doc line
  obtain ⟨sigil, hcolumn⟩ := Indentation.columnOf_eq_column .markdown doc.style hline hcount
  rw [hcolumn, Indentation.column_eq_error_iff_of_wellNested Grammar.markdown_visibleSigils
    Grammar.markdown_soundEmbedding _ (doc.text.isWhole_above line) _ hscope hclosed] at hexact
  refine ⟨hexact, fun hcode hheads e herror => ?_⟩
  obtain ⟨-, a, ha, hcases⟩ := hexact.mp ⟨e, herror⟩
  rcases hcases with ⟨hinCode, -⟩ | ⟨hnone, inner, hinner, hextra⟩
  · rw [hcode a ha] at hinCode
    simp at hinCode
  · have hsome := Indentation.isSome_anchor?_of_firstExtraCloser Grammar.markdown_visibleSigils
      Grammar.markdown_soundEmbedding hscope hclosed ha (hcode a ha) hinner hextra hheads
    rw [hnone] at hsome
    simp at hsome

theorem columnOf_ne_error_below_closers :
    ¬∃ e, (ofText "a" "* a\n* b\nend\nend\nc".toList .default).columnOf .markdown 5 =
      .error e := by
  have habove : (ofText "a" "* a\n* b\nend\nend\nc".toList .default).text.above 5 =
      "* a\n* b\nend\nend\n".toList := by decide +kernel
  have hanchor : Indentation.anchor? .markdown "* a\n* b\nend\nend\n".toList =
      some ⟨"* a\n".toList, []⟩ := by decide +kernel
  rintro ⟨e, he⟩
  refine (columnOf_error_iff_of_wellNested (ofText "a" "* a\n* b\nend\nend\nc".toList .default) 5
    ⟨none, 0, none⟩ (by decide) (by decide) (by decide +kernel) rfl).2 ?_ (by decide +kernel) e he
  intro a ha
  rw [habove, hanchor, Option.some.injEq] at ha
  subst ha
  decide +kernel

/-- A sigil behind an operator opens a block but starts no sigil line: the closer that ends its
block, behind another block that does start with one, is taken for one too many. -/
theorem columnOf_error_behind_operator :
    ¬∀ (doc : Document) (line : Nat) (scope : Nesting.Scope), 2 ≤ line →
      line ≤ doc.text.lineCount →
      Nesting.enclosingScope .markdown (tokenize .markdown (doc.text.above line) 1) = .ok scope →
      scope.firstExtraCloser = none → ∀ e, doc.columnOf .markdown line ≠ .error e := by
  intro h
  refine h (ofText "a" "> * a\n* b\nend\nend\nx".toList .default) 5 ⟨none, 0, none⟩ (by decide)
    (by decide) (by decide +kernel) rfl ⟨"a", 4, "end".toList⟩ ?_
  decide +kernel

end Document

end MarkupLayout

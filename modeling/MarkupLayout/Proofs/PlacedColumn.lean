import MarkupLayout.Proofs.Placement
/-!
# Columns are measured from their placements

The column of a line is that of its placement among the lines above.  For a line beside the content
of a parenthesis this takes the character column of a token to a width: what stands before the
parenthesis on its line is the indentation of that line and the text that the placement names.
-/

namespace MarkupLayout

open ScanStep (LiteralBody Shape)

/-! ## Parentheses -/

def Grammar.RoundParens (g : Grammar) : Prop :=
  ∀ pair ∈ g.brackets, pair.kind = .paren → pair.opening = '('

theorem Grammar.markdown_roundParens : Grammar.markdown.RoundParens := by
  simp [RoundParens, markdown]

/-- What the layout relies on in a grammar. -/
structure Grammar.PlainLayout (g : Grammar) : Prop where
  visibleSigils : g.VisibleSigils
  visibleEmbedding : g.VisibleEmbedding
  roundParens : g.RoundParens

theorem Grammar.markdown_plainLayout : Grammar.markdown.PlainLayout :=
  ⟨markdown_visibleSigils, markdown_visibleEmbedding, markdown_roundParens⟩

namespace ScanStep

variable {g : Grammar} {ctx : ScanContext} {isOpen : Bool} {step : ScanStep} {piece : Piece}

theorem Shape.text_of_paren (hg : g.RoundParens) (h : Shape g ctx isOpen step) :
    ∀ piece ∈ step.pieces, piece.kind = .openBracket .paren → piece.text = ['('] := by
  intro piece hpiece hparen
  cases h.part hpiece with
  | plain _ _ hfits => simpa [hparen, TokenKind.isPlain] using hfits.plain
  | opens kind declared c hdeclared hkind =>
      obtain rfl := TokenKind.openBracket.inj hparen
      obtain rfl : OpenKind.paren = declared := hkind.resolve_right (by simp)
      obtain ⟨pair, hfind, hpair⟩ := Option.map_eq_some_iff.mp hdeclared
      have hopening := hg pair (List.mem_of_find?_eq_some hfind) hpair
      have hfound := List.find?_some hfind
      rw [hopening, beq_iff_eq] at hfound
      rw [← hfound]
  | _ => simp at hparen

end ScanStep

theorem Token.text_of_paren {g : Grammar} (hg : g.RoundParens) {t : Text} {firstLine : Nat}
    {token : Token} (h : token ∈ tokenize g t firstLine)
    (hkind : token.kind = .openBracket .paren) : token.text = ['('] := by
  have hmem : token.piece ∈ scan g t := by
    rw [← map_piece_place ⟨firstLine, 0⟩ (scan g t)]
    exact List.mem_map_of_mem h
  exact forall_mem_scanFrom (fun hshape => hshape.text_of_paren hg)
    ScanContext.wellQuoted_initial t token.piece hmem hkind

/-! ## Lines by what stands before a place -/

namespace Text

theorem getElem?_of_wholeLines_eq {ls : List Text} (hls : ∀ line ∈ ls, '\n' ∉ line)
    {before behind : Text} (h : wholeLines ls = before ++ behind) (hne : behind ≠ []) :
    ls[before.count '\n']? =
      some (before.rtakeWhile (· != '\n') ++ behind.takeWhile (· != '\n')) := by
  induction ls generalizing before with
  | nil =>
      have hnil := List.append_eq_nil_iff.mp h.symm
      exact absurd hnil.2 hne
  | cons line ls ih =>
      have hline : '\n' ∉ line := hls line (by simp)
      have hconcat : wholeLines (line :: ls) = (line ++ ['\n']) ++ wholeLines ls := by simp
      have hwhole : (line ++ ['\n']).IsWhole := .inr (by simp)
      -- The place is on a line below the first one, or on the first line.
      by_cases hbreak : '\n' ∈ before
      · obtain ⟨later, rfl⟩ : ∃ later, before = (line ++ ['\n']) ++ later := by
          rw [wholeLines_cons] at h
          rcases List.append_eq_append_iff.mp h with ⟨later, rfl, hlater⟩ | ⟨rest, rfl, -⟩
          · cases later with
            | nil => exact absurd (by simpa using hbreak) hline
            | cons c later =>
                obtain rfl := (List.cons.inj hlater).1
                exact ⟨later, by simp⟩
          · exact absurd (List.mem_append_left _ hbreak) hline
        rw [hconcat, List.append_assoc _ later, List.append_cancel_left_eq] at h
        have hcount : ((line ++ ['\n']) ++ later).count '\n' = later.count '\n' + 1 := by
          simp [List.count_eq_zero_of_not_mem hline]
        have hlast : ((line ++ ['\n']) ++ later).rtakeWhile (· != '\n') =
            later.rtakeWhile (· != '\n') := by
          by_cases hlater : '\n' ∈ later
          · exact rtakeWhile_append_of_mem hlater _
          · rw [rtakeWhile_append_of_isWhole hwhole hlater]
            exact (rtakeWhile_append_of_isWhole isWhole_nil hlater).symm
        rw [hcount, List.getElem?_cons_succ, ih (fun other hmem => hls other (by simp [hmem])) h,
          hlast]
      · obtain ⟨rest, rfl⟩ : ∃ rest, line = before ++ rest := by
          rw [wholeLines_cons] at h
          rcases List.append_eq_append_iff.mp h with ⟨later, rfl, hlater⟩ | ⟨rest, rfl, -⟩
          · cases later with
            | nil => exact ⟨[], by simp⟩
            | cons c later =>
                obtain rfl := (List.cons.inj hlater).1
                simp at hbreak
          · exact ⟨rest, rfl⟩
        have hbefore : before.rtakeWhile (· != '\n') = before :=
          rtakeWhile_append_of_isWhole isWhole_nil hbreak
        have hrest : '\n' ∉ rest := fun hmem => hline (List.mem_append_right _ hmem)
        rw [wholeLines_cons, List.append_assoc, List.append_cancel_left_eq] at h
        rw [List.count_eq_zero_of_not_mem hbreak, hbefore, ← h,
          takeWhile_append_of_notMem hrest]
        simp

theorem displayColumn_stripReturn (style : IndentStyle) (before : Text) {t : Text}
    (hne : t ≠ []) (ht : t.StartsVisibly) :
    displayColumn style.tabWidth (stripReturn (before ++ t)) before.length =
      style.indentOf (before ++ t) +
        Text.width style.tabWidth (before.dropWhile isIndentChar) := by
  rw [stripReturn_append_of_ne_nil before hne, displayColumn, List.take_left,
    IndentStyle.indentOf, leading_append_below before ht, ← width_append, leading_append]

end Text

theorem Token.le_line_of_mem_tokenize {g : Grammar} {t : Text} {firstLine : Nat} {token : Token}
    (h : token ∈ tokenize g t firstLine) : firstLine ≤ token.line := by
  obtain ⟨before, behind, hsplit⟩ := List.append_of_mem h
  have hposition := position_of_place hsplit
  rw [Position.after_eq, Position.mk.injEq] at hposition
  omega

theorem Neighbourhood.token_mem_of_mem_all {tokens : List Token} {n : Neighbourhood}
    (h : n ∈ all tokens) : n.token ∈ tokens := by
  have htoken := List.mem_map_of_mem (f := token) h
  rwa [all, map_token_allFrom] at htoken

theorem Neighbourhood.exists_line {g : Grammar} {ls : List Text} (hls : ∀ line ∈ ls, '\n' ∉ line)
    {firstLine : Nat} {n : Neighbourhood}
    (hmem : n ∈ all (tokenize g (Text.wholeLines ls) firstLine)) (hne : n.token.text ≠ []) :
    ∃ before, n.token.column = before.length ∧
      n.inner = before.dropWhile Text.isIndentChar ∧
      ls[n.token.line - firstLine]? =
        some (before ++ (n.token.text ++ n.behind.flatMap Token.text).takeWhile (· != '\n')) := by
  have hsplit : n.before.reverse ++ n.token :: n.behind =
      tokenize g (Text.wholeLines ls) firstLine := eq_of_mem_allFrom hmem
  have htext := flatMap_text_tokenize g (Text.wholeLines ls) firstLine
  rw [← hsplit, List.flatMap_append, List.flatMap_cons] at htext
  have hposition := Token.position_of_place hsplit.symm
  rw [Position.after_eq, Position.mk.injEq] at hposition
  have hfound := Text.getElem?_of_wholeLines_eq hls htext.symm (by simp [hne])
  refine ⟨_, hposition.2, rfl, ?_⟩
  rw [hposition.1, Nat.add_sub_cancel_left, hfound]

namespace Indentation

open Neighbourhood (all)

/-- Beside the content of a parenthesis, the column is the width of the indentation of its line and
of what follows up to the parenthesis. -/
theorem argumentColumn?_eq {g : Grammar} (hg : g.RoundParens) (style : IndentStyle)
    {ls : List Text} (hls : ∀ line ∈ ls, '\n' ∉ line) {i : Nat} {n : Neighbourhood}
    (hmem : n ∈ all (tokenize g (Text.wholeLines (ls.drop i)) (i + 1))) :
    argumentColumn? style (Text.wholeLines ls) n.token n.behind =
      if n.token.kind = .openBracket .paren && n.leads then
        some (style.indentOf (ls.getD (n.token.line - 1) []) +
          Text.width style.tabWidth n.inner + 1)
      else none := by
  by_cases hopener : n.token.kind = .openBracket .paren
  · have htext := Token.text_of_paren hg (Neighbourhood.token_mem_of_mem_all hmem) hopener
    have hline := Token.le_line_of_mem_tokenize (Neighbourhood.token_mem_of_mem_all hmem)
    obtain ⟨before, hcolumn, hinner, hfound⟩ := Neighbourhood.exists_line
      (fun line hline => hls line (List.mem_of_mem_drop hline)) hmem (by simp [htext])
    rw [htext, List.singleton_append, List.takeWhile_cons_of_pos (by decide)] at hfound
    have hindex : i + (n.token.line - (i + 1)) = n.token.line - 1 := by omega
    rw [List.getElem?_drop, hindex] at hfound
    have hlines := Text.lines_wholeLines_append hls []
    rw [List.append_nil] at hlines
    have hlookup : (Text.wholeLines ls).lineText? n.token.line =
        some (Text.stripReturn (before ++ '(' ::
          (n.behind.flatMap Token.text).takeWhile (· != '\n'))) := by
      rw [Text.lineText?, if_neg (by omega), hlines,
        List.getElem?_append_left (List.getElem?_eq_some_iff.mp hfound).1, hfound]
      rfl
    have hwidth := Text.displayColumn_stripReturn style before (List.cons_ne_nil _ _)
      (Text.startsVisibly_of_not_isIndentChar (c := '(') (by decide)
        ((n.behind.flatMap Token.text).takeWhile (· != '\n')))
    rw [argumentColumn?, hlookup, hcolumn, Option.map_some, hwidth, hinner,
      List.getD_eq_getElem?_getD, hfound, Option.getD_some]
    rfl
  · simp [argumentColumn?, hopener]

theorem continues_opener_faded (g : Grammar) (last opener : Option Token) :
    continues g last (opener.map Token.faded) = continues g last opener := by
  have hkind : (opener.map Token.faded).map Token.kind = opener.map Token.kind := by
    rw [Option.map_map]
    rfl
  unfold continues
  rw [hkind]

theorem ofToken_faded {g : Grammar} {n : Neighbourhood} (h : Nesting.mark g n ≠ .neutral) :
    Nesting.Mismatch.ofToken n.token.faded = .ofToken n.token := by
  have hkind : n.token.kind.isLiteralText = false := by
    by_contra hliteral
    apply h
    rw [Nesting.mark_eq_neutral_iff, Token.isBlockSigil, Token.isCloser]
    cases hkind : n.token.kind <;> simp_all [TokenKind.isLiteralText]
  simp [Nesting.Mismatch.ofToken, Token.faded, hkind]

/-! ## The column of a placement -/

theorem adjusted_eq_toColumn (style : IndentStyle) (start : Int) (sigil continued : Bool) :
    adjusted style start sigil continued =
      toColumn (start + extraLevels sigil continued * style.indentWidth) := by
  cases sigil <;> cases continued <;> simp [adjusted, extraLevels]

variable {g : Grammar} {ls : List Text}

theorem exists_tokens_survey (hv : g.VisibleSigils) (hg : g.VisibleEmbedding)
    (hls : ∀ line ∈ ls, '\n' ∉ line) :
    ∃ i, (survey g (Text.wholeLines ls)).tokens =
      tokenize g (Text.wholeLines (ls.drop i)) (i + 1) := by
  rcases survey_flush_cases hv hg hls with ⟨hs, -⟩ | ⟨i, -, hs, -⟩
  · exact ⟨0, by rw [hs]; rfl⟩
  · exact ⟨i, by rw [hs]⟩

theorem base_survey (hv : g.VisibleSigils) (hg : g.VisibleEmbedding) (style : IndentStyle)
    (hls : ∀ line ∈ ls, '\n' ∉ line) :
    (survey g (Text.wholeLines ls)).base style =
      ((survey g (Text.wholeLines ls)).anchor.map (·.line - 1)).elim 0
        fun line => style.indentOf (ls.getD line []) := by
  rcases survey_flush_cases hv hg hls with ⟨hs, -⟩ | ⟨i, hi, hs, -⟩
  · rw [hs]
    rfl
  · have hline : (Text.wholeLines (ls.take i)).lastLine = i + 1 := lastLine_take hls hi.le
    rw [hs]
    simp only [Survey.base, Option.map_some, Option.getD_some, Anchor.line, hline,
      Nat.add_sub_cancel, Option.elim_some]
    rfl

theorem columnIn_of_enclosed (hg : g.PlainLayout) (style : IndentStyle)
    (hls : ∀ line ∈ ls, '\n' ∉ line) (sigil : Bool) {s : Survey}
    (hs : s = survey g (Text.wholeLines ls)) {index : Nat} {n : Neighbourhood}
    (hn : (all s.tokens)[index]? = some n) (extraClosers : Nat) (closer : Option Nat)
    (firstExtraCloser : Option Landmark) :
    columnIn g style (Text.wholeLines ls) sigil s ⟨some index, extraClosers, closer⟩ =
      (placementIn g ls sigil s ⟨some (n.landmark g), extraClosers, firstExtraCloser⟩).map
        (Placement.column style ls) := by
  obtain ⟨i, htokens⟩ := exists_tokens_survey hg.visibleSigils hg.visibleEmbedding hls
  rw [← hs] at htokens
  have htoken : s.tokens[index]? = some n.token := by
    rw [Neighbourhood.getElem?_all, hn]
    rfl
  have hmem := List.mem_of_getElem? hn
  have hbehind := Neighbourhood.behind_of_getElem?_allFrom hn
  have hle : n.token.line ≤ ls.length := by
    apply line_le_of_mem_survey g hls
    rw [← hs]
    exact Neighbourhood.token_mem_of_mem_all hmem
  rw [htokens] at hmem
  have hpos : 0 < n.token.line := by
    have hline := Token.le_line_of_mem_tokenize (Neighbourhood.token_mem_of_mem_all hmem)
    omega
  have hargument := argumentColumn?_eq hg.roundParens style hls hmem
  have hcontinues := continues_opener_faded g s.last? (some n.token)
  rw [Option.map_some] at hcontinues
  simp only [columnIn, placementIn, Option.bind_some, htoken, ← hbehind, hargument,
    openerBase_eq style hls hpos hle, Neighbourhood.landmark, Option.map_some, hcontinues]
  change _ = Except.map _ (if n.token.kind = .openBracket .paren && n.leads then
    .ok (Placement.beside (n.token.line - 1) n.inner) else _)
  by_cases hbeside : (n.token.kind = .openBracket .paren && n.leads) = true
  · rw [if_pos hbeside, if_pos hbeside]
    rfl
  · rw [if_neg hbeside, if_neg hbeside]
    simp only [adjusted_eq_toColumn]
    change _ = Except.ok (toColumn _)
    rw [Int.add_assoc, Int.add_comm style.indentWidth, Int.add_mul, Int.one_mul]
    rfl

theorem columnIn_of_not_enclosed (hg : g.PlainLayout) (style : IndentStyle)
    (hls : ∀ line ∈ ls, '\n' ∉ line) (sigil : Bool) {s : Survey}
    (hs : s = survey g (Text.wholeLines ls)) (extraClosers : Nat) {closer : Option Nat}
    {firstExtraCloser : Option Neighbourhood}
    (hfirst : firstExtraCloser.map some = closer.map ((all s.tokens)[·]?))
    (hmark : ∀ n ∈ firstExtraCloser, Nesting.mark g n ≠ .neutral) :
    columnIn g style (Text.wholeLines ls) sigil s ⟨none, extraClosers, closer⟩ =
      (placementIn g ls sigil s
        ⟨none, extraClosers, firstExtraCloser.map (Neighbourhood.landmark g)⟩).map
          (Placement.column style ls) := by
  have hbase := base_survey hg.visibleSigils hg.visibleEmbedding style hls
  rw [← hs] at hbase
  have hplace (levels : Int) : toColumn (s.base style - extraClosers * style.indentWidth +
        levels * style.indentWidth) =
      (Placement.shifted (s.anchor.map (·.line - 1)) (levels - extraClosers)).column style ls := by
    rw [Placement.column, hbase]
    congr 1
    rw [Int.sub_mul]
    omega
  simp only [columnIn, placementIn, Option.bind_none, Option.map_none, adjusted_eq_toColumn,
    hplace]
  cases closer with
  | none =>
      cases firstExtraCloser with
      | none => rfl
      | some n => simp at hfirst
  | some index =>
      cases firstExtraCloser with
      | none => simp at hfirst
      | some n =>
          simp only [Option.map_some, Option.some.injEq] at hfirst
          simp only [Option.bind_some, Neighbourhood.getElem?_all, ← hfirst, Option.map_some]
          split
          · rfl
          · rw [Neighbourhood.landmark, ofToken_faded (hmark n rfl)]
            rfl

theorem columnIn_eq (hg : g.PlainLayout) (style : IndentStyle) (hls : ∀ line ∈ ls, '\n' ∉ line)
    (sigil : Bool) {s : Survey} (hs : s = survey g (Text.wholeLines ls)) {scope : Nesting.Scope}
    {e : Nesting.NamedScope Neighbourhood} (hscope : e.map some = scope.named ((all s.tokens)[·]?))
    (hmark : ∀ n ∈ e.firstExtraCloser, Nesting.mark g n ≠ .neutral) :
    columnIn g style (Text.wholeLines ls) sigil s scope =
      (placementIn g ls sigil s (e.map (Neighbourhood.landmark g))).map
        (Placement.column style ls) := by
  obtain ⟨opener, extraClosers, firstExtraCloser⟩ := e
  obtain ⟨index, count, closer⟩ := scope
  simp only [Nesting.NamedScope.map, Nesting.Scope.named, Nesting.NamedScope.mk.injEq] at hscope
  obtain ⟨hopener, rfl, hfirst⟩ := hscope
  cases index with
  | some index =>
      cases opener with
      | none => simp at hopener
      | some n =>
          simp only [Option.map_some, Option.some.injEq] at hopener
          exact columnIn_of_enclosed hg style hls sigil hs hopener.symm extraClosers closer _
  | none =>
      cases opener with
      | some n => simp at hopener
      | none => exact columnIn_of_not_enclosed hg style hls sigil hs extraClosers hfirst hmark

theorem column_eq (hg : g.PlainLayout) (style : IndentStyle) (hls : ∀ line ∈ ls, '\n' ∉ line)
    (sigil : Bool) :
    column g style (Text.wholeLines ls) sigil =
      (placement g ls sigil).map (Option.map (Placement.column style ls)) := by
  rw [column, placement]
  generalize hs : survey g (Text.wholeLines ls) = s
  split
  · rfl
  · rw [Nesting.walkBack_landmarks]
    rcases Nesting.namedScope_cases g s.tokens with ⟨index, n, hresolve, hindex, hwalk⟩ |
      ⟨scope, e, hresolve, hwalk, hscope⟩
    · have hmark : Nesting.mark g n ≠ .neutral := Nesting.mark_ne_neutral_of_walkBack_error hwalk
      have htoken := Neighbourhood.getElem?_all s.tokens index
      rw [Nesting.enclosingScope, hresolve, hwalk]
      simp only [htoken, hindex, Option.map_some, Option.getD_some, Except.mapError, Except.map]
      rw [Neighbourhood.landmark, ofToken_faded hmark]
    · have hcloser := Nesting.mark_ne_neutral_of_walkBack_ok (by simp) hwalk
      rw [Nesting.enclosingScope, hresolve, hwalk]
      change (columnIn g style (Text.wholeLines ls) sigil s scope).map some =
        ((placementIn g ls sigil s (e.map (Neighbourhood.landmark g))).map some).map _
      rw [columnIn_eq hg style hls sigil hs.symm hscope hcloser]
      cases placementIn g ls sigil s (e.map (Neighbourhood.landmark g)) <;> rfl

/-- The place of a line of a region.  Blank lines and the first line go to the first column. -/
def placementBelow (g : Grammar) (ls : List Text) (line : Text) :
    Except Nesting.Mismatch (Option Placement) :=
  if line.stripReturn.isBlank || ls.isEmpty then .ok (some (.shifted none 0))
  else placement g ls (g.sigilLine.occursIn line.stripReturn)

theorem placementBelow_flush (hg : g.PlainLayout) (hls : ∀ line ∈ ls, '\n' ∉ line)
    (line : Text) :
    placementBelow g (Text.flush ls) line = placementBelow g ls line := by
  have hempty : (Text.flush ls).isEmpty = ls.isEmpty := by cases ls <;> rfl
  have hplace := placement_flush hg.visibleSigils hg.visibleEmbedding hls
  rw [placementBelow, hempty, hplace, placementBelow]

theorem columnBelow_eq (hg : g.PlainLayout) (style : IndentStyle)
    (hls : ∀ line ∈ ls, '\n' ∉ line) (line : Text) :
    columnBelow g style ls line =
      (placementBelow g ls line).map (Option.map (Placement.column style ls)) := by
  rw [columnBelow, placementBelow]
  split
  · simp [Except.map, Placement.column, toColumn]
  · exact column_eq hg style hls _

end Indentation

end MarkupLayout

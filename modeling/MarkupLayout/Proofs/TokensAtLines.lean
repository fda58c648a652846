import MarkupLayout.Proofs.Scopes
import MarkupLayout.Proofs.TokenOffsets
/-!
# Cutting a text between two lines

The tokens of a text and those of its first lines agree up to the cut, but for the content of a
literal that the cut goes through.  The scanner may also be started at a line: if nothing is open
there, then it finds the tokens that the scanner finds which comes from above, and both token lists
mean the same to everything that reads them.
-/

namespace MarkupLayout

variable {g : Grammar}

/-! ## The tokens above a line -/

theorem exists_tokenize_append_of_closed (hg : g.LineEmbedding) {s : Text} (hs : s.IsWhole)
    (hclosed : Literal.isOpenAfter g s = false) (r : Text) :
    ∃ ctx, tokenize g (s ++ r) 1 =
      tokenize g s 1 ++ Token.place ⟨s.lastLine, 0⟩ (scanFrom g ctx r) := by
  obtain ⟨ctx, -, hrun⟩ := Literal.exists_scan_append_of_closed hg hs hclosed
  refine ⟨ctx, ?_⟩
  rw [tokenize, scan, (hrun r).scanFrom_eq, Token.place_append, scan, flatMap_text_scanFrom,
    Position.after_isWhole 1 hs]
  rfl

theorem startingBefore_tokenize_append_of_closed (hg : g.LineEmbedding) {s : Text}
    (hs : s.IsWhole) (hclosed : Literal.isOpenAfter g s = false) (r : Text) :
    Token.startingBefore s.byteSize (tokenize g (s ++ r) 1) = tokenize g s 1 := by
  obtain ⟨ctx, htokens⟩ := exists_tokenize_append_of_closed hg hs hclosed r
  rw [htokens]
  apply Token.startingBefore_append
  · exact fun entry => Token.lt_of_mem_withOffsets_tokenize
  · rw [flatMap_text_tokenize]

theorem map_kind_startingBefore_of_open (hg : g.LineEmbedding) {s : Text} (hs : s.IsWhole)
    (hopen : Literal.isOpenAfter g s = true) (r : Text) :
    (Token.startingBefore s.byteSize (tokenize g (s ++ r) 1)).map Token.kind =
      (tokenize g s 1).map Token.kind := by
  obtain ⟨before, content, more, tail, later, hshort, hlong, happend, -, -⟩ :=
    Literal.exists_scan_append_of_open hg hs hopen r
  have hsize : Text.byteSize ((tokenize g s 1).flatMap Token.text) = s.byteSize := by
    rw [flatMap_text_tokenize]
  have hbefore : ∀ entry ∈ Token.withOffsets 0 (tokenize g s 1), entry.1 < s.byteSize :=
    fun entry => Token.lt_of_mem_withOffsets_tokenize
  rw [tokenize, hshort] at hsize hbefore
  rw [tokenize, hlong, tokenize, hshort]
  by_cases hcontent : content = []
  · subst hcontent
    rw [pieceOf_nil, List.append_nil] at hsize hbefore ⊢
    rw [Token.place_append, Token.startingBefore_append hbefore hsize.ge]
  · rw [pieceOf_of_ne_nil _ hcontent] at hsize hbefore ⊢
    rw [pieceOf_of_ne_nil _ (by simp [hcontent]), ← List.append_assoc, Token.place_append,
      Token.startingBefore_append ?_ ?_, Token.map_kind_place, Token.map_kind_place,
      List.map_append, List.map_append]
    · rfl
    · rw [Token.place_append] at hbefore ⊢
      exact Token.forall_lt_withOffsets_concat hbefore _
    · rw [Token.flatMap_text_place, List.flatMap_append] at hsize ⊢
      simp only [Text.byteSize_append, List.flatMap_singleton] at hsize ⊢
      omega

/-- The tokens of a text above one of its lines, and the tokens of the text that stands there, agree
on whether a literal is open at the line.  If none is, then the text above has just the first tokens
of the whole, and a token starts at the line unless the text ends there. -/
theorem tokenize_above_line (hg : g.LineEmbedding) (t : Text) (p : Nat) (hp : p ∈ t.lineStarts) :
    Literal.isOpenAfter g (t.between 0 p) =
      Literal.endsInside (Token.startingBefore p (tokenize g t 1)) ∧
    (Literal.isOpenAfter g (t.between 0 p) = false →
      tokenize g (t.between 0 p) 1 <+: tokenize g t 1 ∧
      (p < t.byteSize → ∃ token, (p, token) ∈ Token.withOffsets 0 (tokenize g t 1))) := by
  obtain ⟨above, below, rfl, hwhole, rfl⟩ := Text.mem_lineStarts_iff.mp hp
  rw [Text.between_zero_append]
  constructor
  · cases hopen : Literal.isOpenAfter g above with
    | false =>
        rw [startingBefore_tokenize_append_of_closed hg hwhole hopen]
        exact hopen.symm
    | true =>
        rw [Literal.endsInside, map_kind_startingBefore_of_open hg hwhole hopen]
        exact hopen.symm
  · intro hclosed
    obtain ⟨ctx, htokens⟩ := exists_tokenize_append_of_closed hg hwhole hclosed below
    refine ⟨htokens ▸ List.prefix_append _ _, fun hsize => ?_⟩
    have hbelow : scanFrom g ctx below ≠ [] := by
      intro hnil
      have htext := flatMap_text_scanFrom g ctx below
      rw [hnil, List.flatMap_nil] at htext
      simp [← htext] at hsize
    obtain ⟨piece, pieces, hpieces⟩ := List.exists_cons_of_ne_nil hbelow
    refine ⟨Token.ofPiece ⟨above.lastLine, 0⟩ piece, ?_⟩
    rw [htokens, hpieces, Token.withOffsets_append, flatMap_text_tokenize, Nat.zero_add]
    exact List.mem_append_right _ List.mem_cons_self

theorem tokenize_above_line_below_string :
    6 ∈ Text.lineStarts "\"a\nb\"\n* c\n".toList ∧
    tokenize .markdown "\"a\nb\"\n".toList 1 <+: tokenize .markdown "\"a\nb\"\n* c\n".toList 1 ∧
    ∃ token, (6, token) ∈ Token.withOffsets 0 (tokenize .markdown "\"a\nb\"\n* c\n".toList 1) := by
  have hstart : 6 ∈ Text.lineStarts "\"a\nb\"\n* c\n".toList := by decide
  have habove : Text.between "\"a\nb\"\n* c\n".toList 0 6 = "\"a\nb\"\n".toList := by decide
  obtain ⟨-, hclosed⟩ := tokenize_above_line Grammar.markdown_soundEmbedding.toLineEmbedding
    "\"a\nb\"\n* c\n".toList 6 hstart
  rw [habove] at hclosed
  obtain ⟨hfirst, htoken⟩ := hclosed (by decide +kernel)
  exact ⟨hstart, hfirst, htoken (by decide)⟩

/-! ## The tokens from a line on -/

theorem Nesting.enclosingScope_map_blurred (g : Grammar) (tokens : List Token) :
    enclosingScope g (tokens.map Token.blurred) = enclosingScope g tokens := by
  have hmismatch (index : Nat) : ((tokens.map Token.blurred)[index]?).map Mismatch.ofToken =
      (tokens[index]?).map Mismatch.ofToken := by
    rw [List.getElem?_map, Option.map_map]
    rfl
  simp only [enclosingScope, resolve_map_blurred, hmismatch]

theorem Literal.endsInside_map_blurred (tokens : List Token) :
    endsInside (tokens.map Token.blurred) = endsInside tokens := by
  have hkinds : (tokens.map Token.blurred).map Token.kind =
      (tokens.map Token.kind).map TokenKind.blurred := by
    rw [List.map_map, List.map_map]
    rfl
  rw [endsInside, hkinds, openFrames_map_blurred, endsInside]

theorem Token.lastSignificantIndex?_map_blurred (tokens : List Token) :
    lastSignificantIndex? (tokens.map Token.blurred) = lastSignificantIndex? tokens := by
  have htrivia (token : Token) : token.blurred.kind.isTrivia = token.kind.isTrivia := by
    obtain ⟨line, column, kind, text⟩ := token
    cases kind <;> rfl
  simp only [lastSignificantIndex?, ← List.map_reverse, List.findIdx?_map, List.length_map,
    Function.comp_def, htrivia]

theorem Neighbourhood.map_isDefinition_map_blurred (tokens : List Token) :
    (all (tokens.map Token.blurred)).map isDefinition = (all tokens).map isDefinition := by
  have hdefinition (n : Neighbourhood) : (n.map Token.blurred).isDefinition = n.isDefinition := by
    have hsigil : (n.map Token.blurred).token.isBlockSigil = n.token.isBlockSigil := by
      obtain ⟨before, ⟨line, column, kind, text⟩, behind⟩ := n
      cases kind <;> rfl
    rw [isDefinition, hsigil, Token.keepsMarks_blurred.isSymbol_map,
      Token.keepsMarks_blurred.isModifier_map, isDefinition]
  rw [all_map, List.map_map]
  exact List.map_congr_left fun n _ => hdefinition n

/-- The scanner may be started at any line where neither a literal nor embedded code is open: up to
any later line it finds the tokens of the text from there on, on the same lines and columns and with
the same kinds and texts, but for the sorts of line breaks.  Token lists that differ in nothing but
those have the same scope, the same last significant token and the same definitions, and agree on
whether they end inside a literal. -/
theorem tokenize_from_line (hg : g.LineEmbedding) (t : Text) (a b : Nat) (ha : a ∈ t.lineStarts)
    (hb : b ∈ t.lineStarts) (hab : a ≤ b)
    (hclosed : Literal.openFrames ((tokenize g (t.between 0 a) 1).map Token.kind) = []) :
    (tokenize g (t.between a b) (1 + (t.between 0 a).count '\n')).map Token.blurred =
      (Token.startingFrom a (tokenize g (t.between 0 b) 1)).map Token.blurred ∧
    ∀ tokens tokens' : List Token, tokens.map Token.blurred = tokens'.map Token.blurred →
      Nesting.enclosingScope g tokens = Nesting.enclosingScope g tokens' ∧
      Literal.endsInside tokens = Literal.endsInside tokens' ∧
      Token.lastSignificantIndex? tokens = Token.lastSignificantIndex? tokens' ∧
      (Neighbourhood.all tokens).map Neighbourhood.isDefinition =
        (Neighbourhood.all tokens').map Neighbourhood.isDefinition := by
  constructor
  · obtain ⟨above, below, rfl, hwhole, rfl⟩ := Text.mem_lineStarts_iff.mp ha
    obtain ⟨upTo, behind, hcut, -, rfl⟩ := Text.mem_lineStarts_iff.mp hb
    obtain ⟨inner, rfl, rfl⟩ := Text.exists_eq_append_of_byteSize_le hcut hab
    rw [Text.between_zero_append] at hclosed ⊢
    rw [← List.append_assoc, Text.between_append, Text.between_zero_append]
    have hcomplete : Text.Complete g above := by
      refine ⟨hwhole, ?_⟩
      rwa [tokenize, Token.map_kind_place] at hclosed
    obtain ⟨tokens, htokens, hsame⟩ := hcomplete.exists_tokenize_append hg inner
    rw [htokens, Token.startingFrom_append, hsame]
    · rfl
    · exact fun entry => Token.lt_of_mem_withOffsets_tokenize
    · rw [flatMap_text_tokenize]
  · intro tokens tokens' h
    exact ⟨Token.congr_of_map_blurred (Nesting.enclosingScope_map_blurred g) h,
      Token.congr_of_map_blurred Literal.endsInside_map_blurred h,
      Token.congr_of_map_blurred Token.lastSignificantIndex?_map_blurred h,
      Token.congr_of_map_blurred (f := fun tokens => (Neighbourhood.all tokens).map _)
        Neighbourhood.map_isDefinition_map_blurred h⟩

theorem tokenize_from_line_below_bracket :
    (tokenize .markdown "* b\n".toList 2).map Token.blurred =
      (Token.startingFrom 3 (tokenize .markdown "(a\n* b\n".toList 1)).map Token.blurred ∧
    tokenize .markdown "* b\n".toList 2 ≠
      Token.startingFrom 3 (tokenize .markdown "(a\n* b\n".toList 1) := by
  have habove : Text.between "(a\n* b\n".toList 0 3 = "(a\n".toList := by decide
  have hspan : Text.between "(a\n* b\n".toList 3 7 = "* b\n".toList := by decide
  have hwhole : Text.between "(a\n* b\n".toList 0 7 = "(a\n* b\n".toList := by decide
  obtain ⟨hsame, -⟩ := tokenize_from_line Grammar.markdown_soundEmbedding.toLineEmbedding
    "(a\n* b\n".toList 3 7 (by decide) (by decide) (by decide)
    (by rw [habove]; decide +kernel)
  rw [habove, hspan, hwhole] at hsame
  exact ⟨hsame, by decide +kernel⟩

end MarkupLayout

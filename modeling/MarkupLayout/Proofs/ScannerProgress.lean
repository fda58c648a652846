import MarkupLayout.Proofs.CheckedLiterals
import MarkupLayout.Proofs.LongestLexeme
/-!
# The scanner always moves on

A round of the scanner succeeds at every character of every text, whatever the grammar, and takes
the step that is made there.  Steps are never empty, so the scanner comes to the end of the source.
-/

namespace MarkupLayout

namespace Scanner

open Text (byteSize)

variable {s : Scanner} {passed rest : Text} {c : Char}

/-! ## Other characters -/

theorem At.within (h : s.At passed rest) (embeddings : List Embedding) (depth : Nat) :
    { s with embeddings := embeddings, depth := depth }.At passed rest :=
  ⟨h.source_eq, h.index_eq, h.pos_eq⟩

theorem emit?_char (h : s.At passed (c :: rest)) (embeddings : List Embedding) (depth : Nat)
    (kind : TokenKind) :
    { s with embeddings := embeddings, depth := depth }.emit? s.pos (s.pos + c.utf8Size) kind =
      some (s.take passed ⟨[⟨kind, [c]⟩], rest, embeddings, depth⟩) := by
  have hat : { s with embeddings := embeddings, depth := depth }.At passed ([c] ++ rest) :=
    h.within embeddings depth
  have hemit := emit?_take hat kind
  rwa [Text.byteSize_cons, Text.byteSize_nil, Nat.add_zero] at hemit

theorem stringBehind_eq (h : s.At passed (c :: rest)) (kind : TokenKind) (q : Char) :
    (s.emit? s.pos (s.pos + c.utf8Size) kind).bind (·.stringBody? q) =
      some (s.take passed
        ((quotedStep s.grammar q s.embeddings s.depth rest).precededBy ⟨kind, [c]⟩)) := by
  have hat : (s.advance passed [⟨kind, [c]⟩]).At (passed ++ [c]) rest := At.emit h kind
  have hbody := stringBody?_eq hat q
  rw [s.advance_take passed _ (by simp)] at hbody
  rw [emit?_char h s.embeddings s.depth]
  exact hbody

theorem openBracket?_eq (h : s.At passed (c :: rest)) (kind : OpenKind) :
    s.openBracket? s.pos (s.pos + c.utf8Size) kind =
      some (s.take passed ((s.contextBehind passed).openBracket s.grammar kind c rest)) :=
  emit?_char h ..

theorem closeBracket?_eq (h : s.At passed (c :: rest)) (kind : OpenKind) :
    s.closeBracket? s.pos (s.pos + c.utf8Size) kind =
      some (s.take passed ((s.contextBehind passed).closeBracket s.grammar kind c rest)) := by
  have hcontext : (s.contextBehind passed).embeddings = s.embeddings := rfl
  unfold closeBracket? ScanContext.closeBracket
  rw [hcontext]
  cases hembeddings : s.embeddings with
  | nil =>
      have hclose := emit?_char h s.embeddings (s.depth - 1) (.closeBracket kind.closer)
      rwa [hembeddings] at hclose
  | cons e outer =>
      dsimp only
      split
      · exact stringBehind_eq (h.within outer (s.depth - 1)) ..
      · exact emit?_char h ..

theorem isProse?_eq (h : s.At passed (c :: rest)) (mark : QuoteMark) :
    s.isProse? s.pos (s.pos + c.utf8Size) mark c =
      some (!mark.interpolates &&
        ((s.contextBehind passed).followsWordChar || !Literal.closesOnLine c rest)) := by
  have hcloses := closesOnLine?_eq
    (h.source_eq.trans (by simp) : s.source = (passed ++ [c]) ++ rest) c
  rw [Text.byteSize_append, Text.byteSize_cons, Text.byteSize_nil, Nat.add_zero, ← h.pos_eq]
    at hcloses
  simp only [isProse?, h.charBefore?, hcloses, Option.bind_eq_bind, Option.bind_some,
    ScanContext.followsWordChar]
  cases mark.interpolates <;> cases (s.contextBehind passed).previous.any isWordChar <;> rfl

theorem quote?_eq (h : s.At passed (c :: rest)) (mark : QuoteMark) :
    s.quote? s.pos (s.pos + c.utf8Size) mark c =
      some (s.take passed ((s.contextBehind passed).quote s.grammar mark c rest)) := by
  simp only [quote?, isProse?_eq h, Option.bind_eq_bind, Option.bind_some, ScanContext.quote]
  split
  · exact emit?_char h s.embeddings s.depth .text
  · exact stringBehind_eq h ..

theorem otherChar?_eq (h : s.At passed (c :: rest)) :
    s.otherChar? s.pos (s.pos + c.utf8Size) =
      some (s.take passed ((s.contextBehind passed).otherChar s.grammar c rest)) := by
  have hchar := charAt_eq h.source_eq
  rw [← h.pos_eq] at hchar
  simp only [otherChar?, hchar, List.head?_cons, ScanContext.otherChar]
  cases s.grammar.opening? c with
  | some kind => exact openBracket?_eq h kind
  | none =>
      cases s.grammar.closing? c with
      | some kind => exact closeBracket?_eq h kind
      | none =>
          cases s.grammar.quote? c with
          | some mark => exact quote?_eq h mark
          | none => exact emit?_char h s.embeddings s.depth .text

/-! ## Rounds -/

theorem byteSize_text_first {a : Char} (ha : a.utf8Size = 1)
    (hrun : (Lexeme.first c rest).1.kind.runOf? = some (· == a)) :
    (Lexeme.first c rest).1.text.byteSize = (Lexeme.first c rest).1.text.length := by
  rw [Lexeme.kind_first] at hrun
  obtain ⟨hfirst, hc⟩ := Lexeme.first_of_runOf? hrun
  apply Text.byteSize_eq_length
  rw [hfirst]
  simp only [Lexeme.ofRun, List.forall_mem_cons]
  obtain rfl : c = a := by simpa using hc
  refine ⟨ha, fun d hd => ?_⟩
  obtain rfl : d = c := by simpa using List.mem_takeWhile_imp hd
  exact ha

theorem code?_eq (h : s.At passed (c :: rest)) :
    s.code? = some (s.take passed ((s.contextBehind passed).lexeme s.grammar c rest)) := by
  have hcut := cut?_source h.source_eq
  have hat : s.At passed ((Lexeme.first c rest).1.text ++ (Lexeme.first c rest).2) := by
    rwa [Lexeme.first_append]
  rw [← h.pos_eq] at hcut
  simp only [code?, hcut, Option.bind_eq_bind, Option.bind_some, ScanContext.lexeme]
  cases hkind : (Lexeme.first c rest).1.kind with
  | whitespace => exact emit?_take hat _
  | newline => exact emit?_take hat _
  | word => exact word?_eq hat
  | operator => exact operator?_eq hat
  | hashes => exact hashes?_eq hat
  | dots => exact dots?_eq hat (byteSize_text_first (a := '.') (by decide) (by rw [hkind]; rfl))
  | colons =>
      exact colons?_eq hat (byteSize_text_first (a := ':') (by decide) (by rw [hkind]; rfl))
  | backticks =>
      exact codeSpan?_eq hat (byteSize_text_first (a := '\x60') (by decide) (by rw [hkind]; rfl))
  | comma => exact emit?_take hat _
  | other =>
      rw [Lexeme.kind_first] at hkind
      have htext : (Lexeme.first c rest).1.text = [c] := by simp only [Lexeme.first, hkind]
      have hother := otherChar?_eq h
      simpa [htext] using hother

/-- A round of the scanner is a step. -/
theorem round?_eq (h : s.At passed (c :: rest)) :
    s.round? = some (s.take passed ((s.contextBehind passed).step s.grammar c rest)) := by
  have hcontext : (s.contextBehind passed).embeddings = s.embeddings := rfl
  simp only [round?, ScanContext.step, hcontext, atLineStart?_eq h, fence?_eq h, code?_eq h,
    Option.bind_eq_bind, Option.bind_some, Bool.and_eq_true]
  split
  · split
    · cases (s.contextBehind passed).fence? s.grammar (c :: rest) <;> simp_all
    · simp_all
  · simp_all

theorem At.take (h : s.At passed rest) {step : ScanStep} (hstep : step.Cuts rest) :
    (s.take passed step).At (passed ++ step.pieces.flatMap Piece.text) step.rest :=
  ⟨h.source_eq.trans (by rw [List.append_assoc, hstep.append]), h.index_eq, rfl⟩

theorem lastOnLine_concat (tokens : List Token) (token : Token) :
    lastOnLine (tokens ++ [token]) =
      if token.kind.isLineBreak then none
      else if token.kind = .space then lastOnLine tokens
      else some token := by
  unfold lastOnLine
  rw [List.reverse_append, List.reverse_singleton, List.singleton_append, List.takeWhile_cons]
  cases token.kind.isLineBreak <;> by_cases hspace : token.kind = .space <;> simp [hspace]

theorem lastOnLine_place {tokens : List Token} {ctx : ScanContext}
    (h : (lastOnLine tokens).map (fun token => (⟨token.kind, token.text⟩ : Piece)) = ctx.last)
    (p : Position) (pieces : List Piece) :
    (lastOnLine (tokens ++ Token.place p pieces)).map
        (fun token => (⟨token.kind, token.text⟩ : Piece)) =
      (pieces.foldl ScanContext.pass ctx).last := by
  induction pieces generalizing tokens ctx p with
  | nil => simpa [Token.place] using h
  | cons piece more ih =>
      rw [Token.place, List.append_cons, List.foldl_cons]
      apply ih
      rw [lastOnLine_concat, apply_ite (Option.map _), apply_ite (Option.map _), h]
      rfl

theorem contextBehind_take (s : Scanner) (passed : Text) (step : ScanStep) :
    (s.take passed step).contextBehind (passed ++ step.pieces.flatMap Piece.text) =
      (s.contextBehind passed).advance step := by
  have hprevious := ScanContext.previous_foldl_pass step.pieces (s.contextBehind passed)
  have hlast := lastOnLine_place (rfl : _ = (s.contextBehind passed).last)
    (Position.after ⟨s.firstLine, 0⟩ passed) step.pieces
  unfold ScanContext.advance
  simp only [contextBehind, context, List.getLast?_append] at hprevious hlast ⊢
  rw [hprevious, ← hlast]
  rfl

theorem At.lt_take (h : s.At passed rest) {step : ScanStep} (hstep : step.Cuts rest) :
    s.pos < (s.take passed step).pos ∧ (s.take passed step).pos ≤ s.size := by
  have htaken := h.take hstep
  have hlength : (step.pieces.flatMap Piece.text).length + step.rest.length = rest.length := by
    rw [← List.length_append, hstep.append]
  have hshorter := hstep.shorter
  have hsize := Text.length_le_byteSize (step.pieces.flatMap Piece.text)
  have hsource : s.size = byteSize (passed ++ step.pieces.flatMap Piece.text) +
      step.rest.byteSize := by
    rw [← Text.byteSize_append, ← htaken.source_eq]
    rfl
  rw [htaken.pos_eq, hsource, h.pos_eq, Text.byteSize_append]
  omega

theorem exists_run? {g : Grammar} {ctx : ScanContext} (h : s.At passed rest)
    (hgrammar : s.grammar = g) (hctx : s.contextBehind passed = ctx) :
    ∃ last, s.run? = some last ∧ last.pos = s.size ∧
      last.tokens = s.tokens ++
        Token.place (Position.after ⟨s.firstLine, 0⟩ passed) (scanFrom g ctx rest) := by
  induction ctx, rest using scan_induction g generalizing s passed with
  | nil ctx =>
      have hend : s.pos = s.size := by rw [h.pos_eq, size, h.source_eq, List.append_nil]
      refine ⟨s, ?_, hend, by simp [Token.place]⟩
      rw [run?]
      exact loop?_of_result (by rw [if_neg (by omega)])
  | cons ctx c rest ih =>
      subst hgrammar hctx
      have hcuts := (s.contextBehind passed).step_cuts s.grammar c rest
      obtain ⟨hlt, hle⟩ := h.lt_take hcuts
      have hround := round?_eq h
      have hbehind := s.contextBehind_take passed ((s.contextBehind passed).step s.grammar c rest)
      obtain ⟨last, hlast, hpos, htokens⟩ := ih (h.take hcuts) rfl hbehind
      refine ⟨last, ?_, hpos, ?_⟩
      · rw [← hlast, run?, run?]
        refine loop?_of_next ?_ hlt hle
        rw [if_pos (by omega), hround]
        rfl
      · rw [htokens, scanFrom_cons, Token.place_append, Position.after_append, ← List.append_assoc]
        rfl

/-- Every round moves on.  From any offset at which a character starts, with any tokens, embedded
code and open brackets, a round of the scanner succeeds, and so do the loops in it; it ends
further on, at a character boundary in the source.  A round of a loop in it, in a string, a code
span or a fence, that goes on to another does so further on as well.  The run therefore comes to
the end of the source, with the text's tokens. -/
theorem scanner_always_advances (g : Grammar) (t : Text) (firstLine : Nat) :
    (∀ s : Scanner, s.grammar = g → s.source = t → s.index = t.lineStarts →
      t.isBoundary s.pos = true → s.pos < t.byteSize →
        ∃ next, s.round? = some next ∧ s.pos < next.pos ∧ next.pos ≤ t.byteSize ∧
          t.isBoundary next.pos = true) ∧
      (∀ (s : Scanner) (first offset next : Nat),
        (∃ q, s.stringRound? q first offset = some (.inl next)) ∨
          (∃ run, s.codeSpanRound? run first offset = some (.inl next)) ∨
          (∃ f run, s.fenceRound? f run first offset = some (.inl next)) →
        offset < next ∧ next ≤ s.size) ∧
      ∃ last, (start g t firstLine).run? = some last ∧ last.pos = t.byteSize ∧
        last.tokens = tokenize g t firstLine := by
  refine ⟨?_, ?_, ?_⟩
  · rintro s rfl rfl hindex hboundary hlt
    obtain ⟨passed, rest, hsplit, hsize⟩ := Text.isBoundary_iff.mp hboundary
    have h : s.At passed rest := ⟨hsplit, hindex, hsize.symm⟩
    cases rest with
    | nil =>
        rw [List.append_nil] at hsplit
        rw [← hsize, ← hsplit] at hlt
        exact absurd hlt (Nat.lt_irrefl _)
    | cons c rest =>
        have hcuts := (s.contextBehind passed).step_cuts s.grammar c rest
        obtain ⟨hforward, hinside⟩ := h.lt_take hcuts
        have htaken := h.take hcuts
        exact ⟨_, round?_eq h, hforward, hinside,
          Text.isBoundary_iff.mpr ⟨_, _, htaken.source_eq, htaken.pos_eq.symm⟩⟩
  · rintro s first offset next (⟨q, hround⟩ | ⟨run, hround⟩ | ⟨f, run, hround⟩)
    · exact stringRound?_forward hround
    · exact codeSpanRound?_forward hround
    · exact fenceRound?_forward hround
  · have h : (start g t firstLine).At [] t := ⟨rfl, rfl, rfl⟩
    obtain ⟨last, hlast, hpos, htokens⟩ := exists_run? h rfl rfl
    exact ⟨last, hlast, hpos, htokens⟩

end Scanner

end MarkupLayout

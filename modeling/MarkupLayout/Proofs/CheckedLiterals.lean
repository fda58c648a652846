import MarkupLayout.Proofs.CheckedLexemes
/-!
# Literals in byte offsets

The loops that read strings, code spans and fenced blocks.  Every round of them that goes on stands
further on in the source than the round before, and what they read is the literal's extent.
-/

namespace MarkupLayout

namespace Scanner

open Text (byteSize)

variable {s : Scanner} {before behind passed rest text : Text} {c : Char} {kind : TokenKind}
  {stop : Nat}

/-! ## Rounds -/

/-- A round that goes behind a text that is not empty moves on. -/
theorem loop?_behind {α : Type} {round : Nat → Option (Nat ⊕ α)} {seen : Text} (text : Text)
    (h : s.source = passed ++ (seen ++ (text ++ behind))) (htext : text ≠ [])
    (hround : round (byteSize (passed ++ seen)) =
      some (.inl (byteSize (passed ++ (seen ++ text))))) :
    loop? id s.size round (byteSize (passed ++ seen)) =
      loop? id s.size round (byteSize (passed ++ (seen ++ text))) := by
  have hlength := List.length_pos_iff.mpr htext
  have hsize := text.length_le_byteSize
  apply loop?_of_next hround
  · simp only [id_eq, Text.byteSize_append]
    omega
  · simp only [id_eq, size, h, Text.byteSize_append]
    omega

theorem finish?_advance (hindex : s.index = s.source.lineStarts) (h : s.source = passed ++ text) :
    s.finish? passed.byteSize = some (s.advance passed (pieceOf .literalContent text)) := by
  rw [finish?_eq hindex h]
  simp [advance, pushed, size, h]

theorem source_behind {seen : Text} (h : s.source = passed ++ (seen ++ rest)) :
    s.source = (passed ++ seen) ++ rest :=
  h.trans (List.append_assoc ..).symm

theorem pushEmit?_advance {next : Text} (hindex : s.index = s.source.lineStarts)
    (h : s.source = passed ++ (text ++ (next ++ rest))) (kind nextKind : TokenKind) :
    s.pushEmit? passed.byteSize (byteSize (passed ++ text))
        (byteSize (passed ++ text) + next.byteSize) kind nextKind =
      some (s.advance passed (pieceOf kind text ++ [⟨nextKind, next⟩])) := by
  have hfirst := pushNonempty?_eq hindex h kind
  have hsecond := emit?_eq (s := s.pushed passed (pieceOf kind text)) hindex (source_behind h)
    nextKind
  rw [s.pushed_pushed passed [⟨nextKind, next⟩] (flatMap_text_pieceOf kind text)] at hsecond
  rw [← Text.byteSize_append] at hfirst
  simp only [pushEmit?, hfirst, hsecond, Option.bind_eq_bind, Option.bind_some]
  simp [advance, pushed, Nat.add_assoc]

theorem cut?_behind {seen : Text} (h : s.source = passed ++ (seen ++ rest)) :
    s.source.cut? (byteSize (passed ++ seen)) = some (passed ++ seen, rest) :=
  cut?_source (source_behind h)

theorem size_of_cut? {offset : Nat} (h : s.source.cut? offset = some (before, behind)) :
    s.size = offset + behind.byteSize := by
  obtain ⟨hsplit, hsize⟩ := Text.eq_of_cut?_eq_some h
  rw [size, ← hsplit, Text.byteSize_append, hsize]

/-! ## Strings -/

/-- The step at the end of what `Literal.quoted` takes for the content of a string. -/
def quotedEnd (g : Grammar) (q : Char) (embeddings : List Embedding) (depth : Nat)
    (parts : Text × Text) : ScanStep :=
  match parts.2 with
  | [] => ⟨pieceOf .literalContent parts.1, [], embeddings, depth⟩
  | c :: rest =>
    if c = q then
      ⟨pieceOf .literalContent parts.1 ++ [⟨.literalEnd .quote, [c]⟩], rest, embeddings, depth⟩
    else
      ⟨pieceOf .literalContent parts.1 ++
          [⟨.openBracket .interpolationBegin, g.interpolationOpen⟩],
        (c :: rest).drop g.interpolationOpen.length, ⟨q, 0⟩ :: embeddings, depth + 1⟩

theorem quotedStep_eq_quotedEnd (g : Grammar) (q : Char) (embeddings : List Embedding)
    (depth : Nat) (t : Text) :
    quotedStep g q embeddings depth t = quotedEnd g q embeddings depth (Literal.quoted g q t) :=
  rfl

theorem stringLoop_nil (q : Char) (hindex : s.index = s.source.lineStarts)
    (h : s.source = passed ++ text) :
    loop? id s.size (s.stringRound? q passed.byteSize) (byteSize (passed ++ text)) =
      some (s.take passed (quotedEnd s.grammar q s.embeddings s.depth (text, []))) := by
  have hsource : s.source = passed ++ (text ++ []) := by rw [h, List.append_nil]
  apply loop?_of_result
  rw [stringRound?, cut?_behind hsource]
  simp only [Option.bind_eq_bind, Option.bind_some, finish?_advance hindex h]
  rfl

theorem stringRound?_of_interrupts {q : Char} {seen : Text}
    (hindex : s.index = s.source.lineStarts) (h : s.source = passed ++ (seen ++ c :: rest))
    (hc : c ≠ '\\') (hstops : Literal.interruptsQuoted s.grammar q (c :: rest) = true) :
    s.stringRound? q passed.byteSize (byteSize (passed ++ seen)) = some (.inr (s.take passed
      (quotedEnd s.grammar q s.embeddings s.depth (seen, c :: rest)))) := by
  rw [stringRound?, cut?_behind h]
  simp only [Literal.interruptsQuoted, List.head?_cons, Bool.or_eq_true, beq_iff_eq,
    Option.some.injEq] at hstops
  simp only [Option.bind_eq_bind, Option.bind_some, if_neg hc, quotedEnd]
  by_cases hq : c = q
  · have hsource : s.source = passed ++ (seen ++ ([c] ++ rest)) := h
    have hclose := pushEmit?_advance hindex hsource .literalContent (.literalEnd .quote)
    rw [Text.byteSize_cons, Text.byteSize_nil, Nat.add_zero] at hclose
    simp only [if_pos hq, hclose, Option.bind_some]
    rfl
  · have hopen := hstops.resolve_left hq
    obtain ⟨more, hmore⟩ := List.isPrefixOf_iff_prefix.mp (Bool.and_eq_true_iff.mp hopen).2
    rw [← hmore] at h
    have hclose := pushEmit?_advance
      (s := { s with depth := s.depth + 1, embeddings := ⟨q, 0⟩ :: s.embeddings }) hindex h
      .literalContent (.openBracket .interpolationBegin)
    simp only [if_neg hq, if_pos hopen, hclose, Option.bind_some]
    rw [← hmore, List.drop_left]
    rfl

theorem stringRound?_of_not_interrupts {q : Char} {seen : Text} (first : Nat)
    (h : s.source = passed ++ (seen ++ c :: rest)) (hc : c ≠ '\\')
    (hstops : ¬Literal.interruptsQuoted s.grammar q (c :: rest) = true) :
    s.stringRound? q first (byteSize (passed ++ seen)) =
      some (.inl (byteSize (passed ++ (seen ++ [c])))) := by
  simp only [Literal.interruptsQuoted, List.head?_cons, Bool.or_eq_true, beq_iff_eq,
    Option.some.injEq, not_or] at hstops
  rw [stringRound?, cut?_behind h]
  simp only [Option.bind_eq_bind, Option.bind_some, if_neg hc, if_neg hstops.1, if_neg hstops.2]
  simp [Nat.add_assoc]

theorem stringLoop_eq (q : Char) (hindex : s.index = s.source.lineStarts) (seen : Text)
    (h : s.source = passed ++ (seen ++ rest)) :
    loop? id s.size (s.stringRound? q passed.byteSize) (byteSize (passed ++ seen)) =
      some (s.take passed (quotedEnd s.grammar q s.embeddings s.depth
        (seen ++ (Literal.unescapedSpan (Literal.interruptsQuoted s.grammar q) rest).1,
          (Literal.unescapedSpan (Literal.interruptsQuoted s.grammar q) rest).2))) := by
  fun_induction Literal.unescapedSpan (Literal.interruptsQuoted s.grammar q) rest
    generalizing seen with
  | case1 =>
      rw [List.append_nil] at h ⊢
      exact stringLoop_nil q hindex h
  | case2 =>
      rw [loop?_behind ['\\'] h (by simp), stringLoop_nil q hindex h]
      rw [stringRound?, cut?_behind h]
      simp [Nat.add_assoc]
  | case3 d more parts ih =>
      have hsource : s.source = passed ++ ((seen ++ ['\\', d]) ++ more) := by simpa using h
      rw [loop?_behind ['\\', d] h (by simp), ih _ hsource]
      · simp [parts]
      · rw [stringRound?, cut?_behind h]
        simp [Nat.add_assoc]
  | case4 c rest hc hstops =>
      rw [List.append_nil]
      exact loop?_of_result (stringRound?_of_interrupts hindex h hc hstops)
  | case5 c rest hc hstops parts ih =>
      have hsource : s.source = passed ++ ((seen ++ [c]) ++ rest) := by simpa using h
      have hround := stringRound?_of_not_interrupts passed.byteSize h hc hstops
      rw [loop?_behind [c] h (by simp) hround, ih _ hsource]
      simp [parts]

theorem stringRound?_forward {q : Char} {first offset next : Nat}
    (h : s.stringRound? q first offset = some (.inl next)) : offset < next ∧ next ≤ s.size := by
  obtain ⟨⟨before, behind⟩, hcut, h⟩ := Option.bind_eq_some_iff.mp h
  have hsize := size_of_cut? hcut
  cases behind with
  | nil =>
      obtain ⟨_, -, h⟩ := Option.bind_eq_some_iff.mp h
      cases h
  | cons c rest =>
      have hpos := c.utf8Size_pos
      have hhead : (rest.head?.map Char.utf8Size).getD 0 ≤ byteSize rest := by cases rest <;> simp
      rw [Text.byteSize_cons] at hsize
      dsimp only at h
      split_ifs at h
      · cases h
        omega
      · obtain ⟨_, -, h⟩ := Option.bind_eq_some_iff.mp h
        cases h
      · obtain ⟨_, -, h⟩ := Option.bind_eq_some_iff.mp h
        cases h
      · cases h
        omega

/-- The string's content is read up to its interruption. -/
theorem stringBody?_eq (h : s.At passed rest) (q : Char) :
    s.stringBody? q =
      some (s.take passed (quotedStep s.grammar q s.embeddings s.depth rest)) := by
  have hloop := stringLoop_eq q h.index_eq [] h.source_eq
  rw [List.append_nil, ← h.pos_eq] at hloop
  rw [quotedStep_eq_quotedEnd]
  exact hloop

/-! ## Code spans -/

theorem exists_ticks (h : '\x60' ∈ rest) :
    ∃ skipped more : Text, ∃ k, rest = skipped ++ (List.replicate (k + 1) '\x60' ++ more) ∧
      '\x60' ∉ skipped ∧ more.head? ≠ some '\x60' := by
  obtain ⟨skipped, tail, rfl, hskipped⟩ := List.eq_append_cons_of_mem h
  refine ⟨skipped, tail.dropWhile (· == '\x60'), (tail.takeWhile (· == '\x60')).length, ?_,
    hskipped, ?_⟩
  · rw [List.replicate_succ, ← Text.takeWhile_eq_replicate, List.cons_append,
      List.takeWhile_append_dropWhile]
  · exact Text.head?_dropWhile_ne '\x60' tail

theorem beforeBackticks?_ticks {skipped more : Text} {k : Nat} (n : Nat)
    (hskipped : '\x60' ∉ skipped) (hmore : more.head? ≠ some '\x60') :
    Literal.beforeBackticks? n (skipped ++ (List.replicate (k + 1) '\x60' ++ more)) =
      if k + 1 = n then some (skipped, List.replicate (k + 1) '\x60' ++ more)
      else (Literal.beforeBackticks? n more).map fun parts =>
        (skipped ++ (List.replicate (k + 1) '\x60' ++ parts.1), parts.2) := by
  rw [Literal.beforeBackticks?_append hskipped, List.replicate_succ, List.cons_append,
    Literal.beforeBackticks?, if_pos rfl, Text.takeWhile_replicate_append hmore,
    Text.dropWhile_replicate_append hmore, List.length_replicate]
  split
  · simp
  · rw [Option.map_map]
    rfl

def codeSpanEnd (embeddings : List Embedding) (depth : Nat) (t : Text) :
    Option (Text × Text) → ScanStep
  | none => ⟨pieceOf .literalContent t, [], embeddings, depth⟩
  | some (content, closing) =>
    ⟨pieceOf .literalContent content ++
        [⟨.literalEnd .codeSpan, closing.takeWhile (· == '\x60')⟩],
      closing.dropWhile (· == '\x60'), embeddings, depth⟩

theorem byteSize_ticks (k : Nat) : byteSize (List.replicate k '\x60') = k := by
  rw [Text.byteSize_replicate, show Char.utf8Size '\x60' = 1 by decide, Nat.mul_one]

theorem codeSpanRound?_of_ticks {skipped more : Text} {k : Nat} (run first : Nat)
    (h : s.source = before ++ (skipped ++ (List.replicate (k + 1) '\x60' ++ more)))
    (hskipped : '\x60' ∉ skipped) (hmore : more.head? ≠ some '\x60') :
    s.codeSpanRound? run first before.byteSize =
      if k + 1 = run then
        (s.pushEmit? first (byteSize (before ++ skipped))
          (byteSize (before ++ skipped) + byteSize (List.replicate (k + 1) '\x60'))
          .literalContent (.literalEnd .codeSpan)).map .inr
      else some (.inl (byteSize (before ++ (skipped ++ List.replicate (k + 1) '\x60')))) := by
  have htake : (skipped ++ (List.replicate (k + 1) '\x60' ++ more)).takeWhile (· != '\x60') =
      skipped := by
    rw [Text.takeWhile_append_of_notMem hskipped]
    simp [List.replicate_succ]
  have hfind : Text.find? '\x60' (skipped ++ (List.replicate (k + 1) '\x60' ++ more)) =
      some skipped.byteSize := by
    rw [Text.find?_eq_some (by simp), htake]
  have hwidth : (Text.bytes (List.replicate (k + 1) '\x60' ++ more) |>.takeWhile
      (· == '\x60'.toUInt8)).length = k + 1 := by
    rw [Text.length_takeWhile_bytes (by decide), Text.takeWhile_replicate_append hmore,
      List.length_replicate]
  rw [codeSpanRound?, cut?_source h]
  simp only [Option.bind_eq_bind, Option.bind_some, hfind, ← Text.byteSize_append, cut?_behind h,
    hwidth, sub?_add, byteSize_ticks, Option.map_eq_bind]
  split
  · rfl
  · simp [byteSize_ticks, Nat.add_assoc]

theorem codeSpanRound?_forward {run first offset next : Nat}
    (h : s.codeSpanRound? run first offset = some (.inl next)) :
    offset < next ∧ next ≤ s.size := by
  obtain ⟨⟨before, behind⟩, hcut, hround⟩ := Option.bind_eq_some_iff.mp h
  have hsize := size_of_cut? hcut
  obtain ⟨hsplit, rfl⟩ := Text.eq_of_cut?_eq_some hcut
  by_cases hmem : '\x60' ∈ behind
  · obtain ⟨skipped, more, k, rfl, hskipped, hmore⟩ := exists_ticks hmem
    rw [codeSpanRound?_of_ticks run first hsplit.symm hskipped hmore] at h
    split at h
    · obtain ⟨_, -, h⟩ := Option.map_eq_some_iff.mp h
      cases h
    · cases h
      simp only [Text.byteSize_append, byteSize_ticks] at hsize ⊢
      omega
  · simp only [Text.find?_eq_none hmem] at hround
    obtain ⟨_, -, hround⟩ := Option.bind_eq_some_iff.mp hround
    cases hround

theorem codeSpanLoop_eq (run : Nat) (hindex : s.index = s.source.lineStarts) (seen : Text)
    (h : s.source = passed ++ (seen ++ rest)) :
    loop? id s.size (s.codeSpanRound? run passed.byteSize) (byteSize (passed ++ seen)) =
      some (s.take passed (codeSpanEnd s.embeddings s.depth (seen ++ rest)
        ((Literal.beforeBackticks? run rest).map fun parts => (seen ++ parts.1, parts.2)))) := by
  -- A round passes a whole run of backticks, so the induction is on the length of what is left.
  induction hlength : rest.length using Nat.strongRecOn generalizing rest seen with
  | ind n ih =>
      by_cases hmem : '\x60' ∈ rest
      · obtain ⟨skipped, more, k, rfl, hskipped, hmore⟩ := exists_ticks hmem
        have hround := codeSpanRound?_of_ticks run passed.byteSize (source_behind h) hskipped hmore
        rw [beforeBackticks?_ticks run hskipped hmore]
        split at hround
        · rename_i hrun
          have hsource : s.source =
              passed ++ ((seen ++ skipped) ++ (List.replicate (k + 1) '\x60' ++ more)) := by
            simpa using h
          rw [List.append_assoc, pushEmit?_advance hindex hsource] at hround
          rw [loop?_of_result hround, if_pos hrun]
          simp only [codeSpanEnd, Option.map_some, Text.takeWhile_replicate_append hmore,
            Text.dropWhile_replicate_append hmore]
          rfl
        · rename_i hrun
          rw [List.append_assoc] at hround
          have hbehind : s.source = passed ++
              (seen ++ ((skipped ++ List.replicate (k + 1) '\x60') ++ more)) := by simpa using h
          have hforward := loop?_behind _ hbehind (by simp) hround
          have hshorter : more.length < n := by
            rw [← hlength]
            simp only [List.length_append, List.length_replicate]
            omega
          rw [hforward, ih _ hshorter _ (by simpa using h) rfl, if_neg hrun, Option.map_map]
          simp only [List.append_assoc]
          rfl
      · have hnone := Literal.beforeBackticks?_append (n := run) hmem []
        rw [List.append_nil, Literal.beforeBackticks?, Option.map_none] at hnone
        apply loop?_of_result
        rw [codeSpanRound?, cut?_behind h]
        simp only [Option.bind_eq_bind, Option.bind_some, Text.find?_eq_none hmem, hnone,
          finish?_advance hindex h]
        rfl

theorem codeSpan?_eq (h : s.At passed (text ++ rest)) (hwidth : text.byteSize = text.length) :
    s.codeSpan? s.pos (s.pos + text.byteSize) =
      some (s.take passed ((s.contextBehind passed).codeSpan s.grammar text rest)) := by
  unfold codeSpan? ScanContext.codeSpan
  split
  · exact emit?_take h _
  · have hopened := h.emit (.literalBegin .codeSpan)
    have hloop := codeSpanLoop_eq text.length hopened.index_eq [] hopened.source_eq
    have hstop : byteSize ((passed ++ text) ++ []) = s.pos + text.byteSize := by
      rw [List.append_nil, Text.byteSize_append, h.pos_eq]
    rw [hstop, Text.byteSize_append, ← h.pos_eq] at hloop
    simp only [sub?_add, emit?_take h, take_emit, Option.bind_eq_bind, Option.bind_some]
    rw [hwidth] at hloop ⊢
    refine Eq.trans hloop ?_
    rw [s.advance_take passed _ (by simp)]
    cases Literal.beforeBackticks? text.length rest <;> rfl

/-! ## Fences -/

theorem closesFence?_eq (f : Char) (run : Nat) (line : Text) :
    closesFence? f run line = some (Literal.closesFence f run line) := by
  have hcut := Text.cut?_append ((line.dropWhile Text.isIndentChar).takeWhile (· == f))
    ((line.dropWhile Text.isIndentChar).dropWhile (· == f))
  rw [List.takeWhile_append_dropWhile, Text.byteSize_takeWhile_beq] at hcut
  unfold closesFence? Literal.closesFence
  by_cases hrun : run ≤ ((line.dropWhile Text.isIndentChar).takeWhile (· == f)).length
  · simp [hrun, hcut]
  · simp [hrun]

def fenceEnd (embeddings : List Embedding) (depth : Nat) (parts : Text × Text) : ScanStep :=
  ⟨pieceOf .literalContent parts.1 ++ pieceOf (.literalEnd .fence) parts.2.firstLine,
    parts.2.drop parts.2.firstLine.length, embeddings, depth⟩

theorem fenceRound?_of_lt {f : Char} {run first : Nat} (h : s.source = before ++ behind)
    (hbehind : behind ≠ []) :
    s.fenceRound? f run first before.byteSize =
      if Literal.closesFence f run behind.firstLine then
        (s.pushEmit? first before.byteSize (before.byteSize + byteSize behind.firstLine)
          .literalContent (.literalEnd .fence)).map .inr
      else some (.inl (byteSize (before ++ (behind.firstLine ++ behind.firstEnding)))) := by
  have hlength := List.length_pos_iff.mpr hbehind
  have hsize := behind.length_le_byteSize
  have hline : s.source = before ++ (behind.firstLine ++ behind.drop behind.firstLine.length) := by
    rw [Text.firstLine_append_drop, h]
  rw [fenceRound?, if_pos (by rw [size, h, Text.byteSize_append]; omega)]
  simp only [contentEnd?_eq h, slice?_source hline, closesFence?_eq, lineEnd?_eq h,
    min_lineEnd_eq h, Option.bind_eq_bind, Option.bind_some, Option.map_eq_bind]
  split
  · rfl
  · rw [Text.byteSize_append before]
    rfl

theorem firstLine_append_firstEnding_ne_nil (hbehind : behind ≠ []) :
    behind.firstLine ++ behind.firstEnding ≠ [] := by
  obtain ⟨c, rest, rfl⟩ := List.exists_cons_of_ne_nil hbehind
  have hparts := Text.firstLine_append (c :: rest)
  have hlonger := Text.length_afterFirstLine_lt c rest
  intro hnil
  rw [hnil, List.nil_append] at hparts
  rw [hparts] at hlonger
  exact Nat.lt_irrefl _ hlonger

theorem fenceRound?_forward {f : Char} {run first offset next : Nat}
    (h : s.fenceRound? f run first offset = some (.inl next)) :
    offset < next ∧ next ≤ s.size := by
  have hround := h
  unfold fenceRound? at hround
  split_ifs at hround with hlt
  · obtain ⟨_, hcontent, -⟩ := Option.bind_eq_some_iff.mp hround
    obtain ⟨_, hline, -⟩ := Option.bind_eq_some_iff.mp hcontent
    obtain ⟨⟨before, behind⟩, hcut, -⟩ := Option.bind_eq_some_iff.mp hline
    have hsize := size_of_cut? hcut
    obtain ⟨hsplit, rfl⟩ := Text.eq_of_cut?_eq_some hcut
    have hbehind : behind ≠ [] := by
      rintro rfl
      rw [Text.byteSize_nil] at hsize
      omega
    rw [fenceRound?_of_lt hsplit.symm hbehind] at h
    split at h
    · obtain ⟨_, -, h⟩ := Option.map_eq_some_iff.mp h
      cases h
    · cases h
      have hlength := List.length_pos_iff.mpr (firstLine_append_firstEnding_ne_nil hbehind)
      have hbytes := Text.length_le_byteSize (behind.firstLine ++ behind.firstEnding)
      rw [← behind.firstLine_append, Text.byteSize_append] at hsize
      rw [Text.byteSize_append before]
      omega
  · obtain ⟨_, -, hround⟩ := Option.bind_eq_some_iff.mp hround
    cases hround

theorem fenceLoop_eq {f : Char} {run : Nat} (hrun : 0 < run)
    (hindex : s.index = s.source.lineStarts) (seen : Text)
    (h : s.source = passed ++ (seen ++ rest)) :
    loop? id s.size (s.fenceRound? f run passed.byteSize) (byteSize (passed ++ seen)) =
      some (s.take passed (fenceEnd s.embeddings s.depth
        (seen ++ (Literal.fenced f run rest).1, (Literal.fenced f run rest).2))) := by
  fun_induction Literal.fenced f run rest generalizing seen with
  | case1 =>
      have hsize : s.size = byteSize (passed ++ seen) := by rw [size, h, List.append_nil]
      have hcontent := pushNonempty?_eq hindex h .literalContent
      rw [← Text.byteSize_append] at hcontent
      apply loop?_of_result
      rw [fenceRound?, if_neg (by omega), hcontent]
      simp [take, advance, pushed, fenceEnd, Text.firstLine, Text.stripReturn, pieceOf_nil]
  | case2 c rest hcloses =>
      have hline : Text.firstLine (c :: rest) ≠ [] :=
        List.ne_nil_of_mem (Literal.mem_of_closesFence hrun hcloses)
      have hsource : s.source = passed ++ (seen ++ (Text.firstLine (c :: rest) ++
          (c :: rest).drop (Text.firstLine (c :: rest)).length)) := by
        rw [Text.firstLine_append_drop, h]
      apply loop?_of_result
      rw [fenceRound?_of_lt (source_behind h) (by simp), if_pos hcloses,
        pushEmit?_advance hindex hsource]
      simp only [fenceEnd, pieceOf_of_ne_nil _ hline, List.append_nil, Option.map_some]
      rfl
  | case3 c rest hopen parts ih =>
      have hne := firstLine_append_firstEnding_ne_nil (List.cons_ne_nil c rest)
      have hsource : s.source = passed ++ (seen ++ ((Text.firstLine (c :: rest) ++
          Text.firstEnding (c :: rest)) ++ Text.afterFirstLine (c :: rest))) := by
        rw [Text.firstLine_append, h]
      rw [loop?_behind _ hsource hne, ih _ (by simpa using hsource)]
      · simp [parts]
      · rw [fenceRound?_of_lt (source_behind h) (by simp), if_neg hopen]
        simp

theorem openFence?_eq {leading marks ending : Text}
    (h : s.At passed ((leading ++ marks) ++ (ending ++ rest)))
    (hbelow : s.lineEnd? s.pos = some stop)
    (hmin : min (stop + 1) s.size = s.pos + byteSize ((leading ++ marks) ++ ending)) :
    s.openFence? s.pos leading.byteSize (s.pos + byteSize (leading ++ marks)) =
      some (s.advance passed ((pieceOf .space leading ++ [⟨.literalBegin .fence, marks⟩]) ++
        pieceOf .newline ending)) := by
  have htexts : (pieceOf .space leading ++
      [(⟨.literalBegin .fence, marks⟩ : Piece)]).flatMap Piece.text = leading ++ marks := by simp
  have hopened := pushEmit?_advance h.index_eq
    (by simpa using h.source_eq : s.source = passed ++ (leading ++ (marks ++ (ending ++ rest))))
    .space (.literalBegin .fence)
  have hat := h.advance htexts
  have hbreak := emit?_nonempty hat .newline
  have hstop : byteSize (passed ++ leading) + marks.byteSize =
      s.pos + byteSize (leading ++ marks) := by
    rw [h.pos_eq, Text.byteSize_append, Text.byteSize_append, Nat.add_assoc]
  have hpos := hat.pos_eq
  rw [Text.byteSize_append, ← h.pos_eq] at hpos
  rw [s.advance_advance passed _ htexts, hpos, Nat.add_assoc, ← Text.byteSize_append, ← hmin]
    at hbreak
  rw [hstop, Text.byteSize_append, ← h.pos_eq] at hopened
  simp only [openFence?, hopened, hbelow, Option.bind_eq_bind, Option.bind_some]
  exact hbreak

theorem fenceLines_eq {f : Char} {info : Text} (h : s.At passed rest)
    (hmarks : rest.firstLine.dropWhile Text.isIndentChar = f :: info) :
    ((s.openFence? s.pos (byteSize rest.firstLine.leading) (s.pos + byteSize rest.firstLine)).bind
      fun opened => loop? id s.size (opened.fenceRound? f
        ((f :: info).takeWhile (· == f)).length opened.pos) opened.pos) =
      some (s.take passed ((s.contextBehind passed).fenceStep f info rest)) := by
  have hline := Text.leading_append rest.firstLine
  have hrest := Text.firstLine_append rest
  have hend := lineEnd?_eq h.source_eq
  have hmin := min_lineEnd_eq h.source_eq
  rw [hmarks] at hline
  rw [← hline, List.append_assoc (_ ++ _)] at hrest
  rw [← h.pos_eq] at hend hmin
  rw [← hline] at hmin
  have hopened := openFence?_eq (hrest.symm ▸ h) hend hmin
  rw [hline] at hopened
  have hbehind : s.At passed (((rest.firstLine.leading ++ f :: info) ++ rest.firstEnding) ++
      rest.afterFirstLine) := by
    rwa [List.append_assoc (_ ++ _), hrest]
  have htexts : ((pieceOf .space rest.firstLine.leading ++
      [(⟨.literalBegin .fence, f :: info⟩ : Piece)]) ++ pieceOf .newline rest.firstEnding).flatMap
        Piece.text = (rest.firstLine.leading ++ f :: info) ++ rest.firstEnding := by
    simp
  have hat := hbehind.advance htexts
  have hrun : 0 < ((f :: info).takeWhile (· == f)).length := by simp
  have hloop := fenceLoop_eq (f := f) hrun hat.index_eq [] hat.source_eq
  simp only [hopened, Option.bind_some]
  rw [List.append_nil, ← hat.pos_eq] at hloop
  refine Eq.trans hloop ?_
  rw [s.advance_take passed _ htexts]
  simp only [fenceEnd, ScanContext.fenceStep, List.nil_append, List.append_assoc, List.cons_append]
  rfl

theorem fence?_eq (h : s.At passed rest) :
    s.fence? = some (((s.contextBehind passed).fence? s.grammar rest).map (s.take passed)) := by
  have hsplit := Text.leading_append rest.firstLine
  have hcontent := contentEnd?_eq h.source_eq
  have hline := h.source_eq
  rw [← Text.firstLine_append_drop rest] at hline
  have hslice := slice?_source hline
  have hcut := Text.cut?_append (Text.leading rest.firstLine)
    (rest.firstLine.dropWhile Text.isIndentChar)
  have hleading := Text.slice?_append [] (Text.leading rest.firstLine)
    (rest.firstLine.dropWhile Text.isIndentChar)
  rw [hsplit] at hcut
  simp only [Text.byteSize_nil, Nat.zero_add, List.nil_append, hsplit] at hleading
  rw [← h.pos_eq] at hcontent hslice
  rw [ScanContext.fence?_eq]
  simp only [fence?, hcontent, hslice, hleading, hcut, Option.bind_eq_bind, Option.bind_some]
  cases hmarks : rest.firstLine.dropWhile Text.isIndentChar with
  | nil => rfl
  | cons f info =>
      have hlines := fenceLines_eq h hmarks
      rw [Option.bind_eq_some_iff] at hlines
      obtain ⟨opened, hopened, hclosed⟩ := hlines
      simp only [hopened, hclosed, ScanContext.opensFence, Option.bind_some, Bool.and_eq_true,
        List.contains_iff_mem, decide_eq_true_eq]
      by_cases hchar : f ∈ s.grammar.fenceChars
      · rw [if_neg (not_not.mpr hchar)]
        rcases Nat.lt_or_ge ((f :: info).takeWhile (· == f)).length s.grammar.fenceMin with
          hrun | hrun
        · rw [if_pos hrun, if_neg fun hopens => Nat.not_lt.mpr hopens.2 hrun]
          rfl
        · rw [if_neg (Nat.not_lt.mpr hrun), if_pos ⟨hchar, hrun⟩]
          rfl
      · rw [if_pos hchar, if_neg fun hopens => hchar hopens.1]
        rfl

end Scanner

end MarkupLayout

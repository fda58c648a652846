import MarkupLayout.Proofs.Lines
import MarkupLayout.Proofs.StepShape
/-!
# Reading whole lines with more text behind them

The readers of lexemes and literals look ahead, but never past a line feed that ends what they are
reading.  So they read whole lines in the same way whatever text follows.  A literal that is not
closed on these lines is read on in the text that follows, as if that text were its content.
-/

namespace MarkupLayout

/-- What opens the code that strings embed stands on one line, and nothing else than a string opens
or closes such code. -/
structure Grammar.LineEmbedding (g : Grammar) : Prop where
  onLine : '\n' ∉ g.interpolationOpen
  only : ∀ pair ∈ g.brackets, pair.kind ≠ .interpolationBegin

/-- Moreover, what opens embedded code can be seen. -/
structure Grammar.SoundEmbedding (g : Grammar) : Prop extends g.LineEmbedding where
  visible : ∃ c ∈ g.interpolationOpen, Text.isIndentChar c = false

theorem Grammar.markdown_soundEmbedding : Grammar.markdown.SoundEmbedding where
  onLine := by decide
  only := by decide
  visible := ⟨'#', by decide, by decide⟩

/-- Moreover, it does not start with indentation. -/
structure Grammar.VisibleEmbedding (g : Grammar) : Prop extends g.SoundEmbedding where
  starts : g.interpolationOpen.StartsVisibly

theorem Grammar.markdown_visibleEmbedding : Grammar.markdown.VisibleEmbedding where
  toSoundEmbedding := markdown_soundEmbedding
  starts := by
    intro c hc
    obtain rfl : '#' = c := by simpa [markdown] using hc
    rfl

section Only

variable {g : Grammar} (h : ∀ pair ∈ g.brackets, pair.kind ≠ .interpolationBegin) {c : Char}

include h

theorem Grammar.ne_interpolationBegin_of_opening? {declared kind : OpenKind}
    (hdeclared : g.opening? c = some declared) (hkind : kind = declared ∨ kind = .lambdaBegin) :
    kind ≠ .interpolationBegin := by
  rintro rfl
  rcases hkind with rfl | hkind
  · obtain ⟨pair, hpair, heq⟩ := Option.map_eq_some_iff.mp hdeclared
    exact h pair (List.mem_of_find?_eq_some hpair) heq
  · simp at hkind

theorem Grammar.ne_interpolationBegin_of_closing? {kind : OpenKind}
    (hdeclared : g.closing? c = some kind) : kind ≠ .interpolationBegin := by
  rintro rfl
  obtain ⟨pair, hpair, heq⟩ := Option.map_eq_some_iff.mp hdeclared
  exact h pair (List.mem_of_find?_eq_some hpair) heq

end Only

/-! ## Whole lines -/

namespace Text

variable {s t : Text} {c : Char} {p : Char → Bool}

theorem getLast?_of_cons (h : (c :: s).getLast? = some '\n') (hc : c ≠ '\n') :
    s.getLast? = some '\n' := by
  cases s with
  | nil => simp [hc] at h
  | cons d s => simpa using h

theorem IsWhole.of_cons (h : IsWhole (c :: s)) : s.IsWhole :=
  IsWhole.of_append (s := [c]) h

theorem IsWhole.getLast? (h : s.IsWhole) (hne : s ≠ []) : s.getLast? = some '\n' :=
  h.resolve_left hne

theorem getLast?_of_append (h : (s ++ t).getLast? = some '\n') (hs : '\n' ∉ s) :
    t.getLast? = some '\n' := by
  rcases IsWhole.of_append (s := s) (.inr h) with rfl | ht
  · rw [List.append_nil] at h
    exact absurd (List.mem_of_getLast? h) hs
  · exact ht

theorem takeWhile_append_of_getLast? (h : s.getLast? = some '\n') (hp : p '\n' = false)
    (r : Text) : (s ++ r).takeWhile p = s.takeWhile p := by
  rw [List.takeWhile_append, if_neg]
  intro hlength
  have heq := (List.takeWhile_prefix p (l := s)).eq_of_length hlength
  have hmem : '\n' ∈ s.takeWhile p := heq.symm ▸ List.mem_of_getLast? h
  simpa [hp] using List.mem_takeWhile_imp hmem

theorem getLast?_dropWhile (h : s.getLast? = some '\n') (hp : p '\n' = false) :
    (s.dropWhile p).getLast? = some '\n' := by
  rw [← List.takeWhile_append_dropWhile (p := p) (l := s)] at h
  apply getLast?_of_append h
  intro hmem
  simpa [hp] using List.mem_takeWhile_imp hmem

theorem dropWhile_append_of_getLast? (h : s.getLast? = some '\n') (hp : p '\n' = false)
    (r : Text) : (s ++ r).dropWhile p = s.dropWhile p ++ r := by
  have hne : s.dropWhile p ≠ [] := by
    intro hnil
    simpa [hnil] using getLast?_dropWhile h hp
  rw [List.dropWhile_append, if_neg (by simpa using hne)]

theorem head?_append_of_getLast? (h : s.getLast? = some '\n') (r : Text) :
    (s ++ r).head? = s.head? := by
  cases s with
  | nil => simp at h
  | cons c s => rfl

theorem isPrefixOf_append_of_getLast? (h : s.getLast? = some '\n') (ht : '\n' ∉ t) (r : Text) :
    t.isPrefixOf (s ++ r) = t.isPrefixOf s := by
  rw [Bool.eq_iff_iff, List.isPrefixOf_iff_prefix, List.isPrefixOf_iff_prefix]
  constructor
  · intro hstarts
    rcases List.prefix_or_prefix_of_prefix hstarts (List.prefix_append s r) with hstarts | hstarts
    · exact hstarts
    · exact absurd (hstarts.subset (List.mem_of_getLast? h)) ht
  · intro hstarts
    exact hstarts.trans (List.prefix_append s r)

theorem firstLine_append_of_getLast? (h : s.getLast? = some '\n') (r : Text) :
    firstLine (s ++ r) = s.firstLine := by
  rw [firstLine, takeWhile_append_of_getLast? h (by rfl), firstLine]

theorem getLast?_dropWhile_ne (h : s.getLast? = some '\n') :
    ∃ more, s.dropWhile (· != '\n') = '\n' :: more := by
  have hlast := getLast?_dropWhile (p := (· != '\n')) h (by rfl)
  cases hrest : s.dropWhile (· != '\n') with
  | nil => simp [hrest] at hlast
  | cons d more =>
      have hd := List.head_dropWhile_not (· != '\n') (l := s) (by simp [hrest])
      simp only [hrest, List.head_cons, bne_eq_false_iff_eq] at hd
      exact ⟨more, by rw [hd]⟩

theorem firstEnding_append_of_getLast? (h : s.getLast? = some '\n') (r : Text) :
    firstEnding (s ++ r) = s.firstEnding := by
  obtain ⟨more, hmore⟩ := getLast?_dropWhile_ne h
  rw [firstEnding, firstLine_append_of_getLast? h, takeWhile_append_of_getLast? h (by rfl),
    dropWhile_append_of_getLast? h (by rfl), hmore, firstEnding, hmore]
  rfl

theorem afterFirstLine_append_of_getLast? (h : s.getLast? = some '\n') (r : Text) :
    afterFirstLine (s ++ r) = s.afterFirstLine ++ r := by
  obtain ⟨more, hmore⟩ := getLast?_dropWhile_ne h
  rw [afterFirstLine, dropWhile_append_of_getLast? h (by rfl), hmore, afterFirstLine, hmore]
  rfl

theorem isWhole_afterFirstLine (h : s.IsWhole) : s.afterFirstLine.IsWhole := by
  rw [← s.firstLine_append] at h
  exact h.of_append

end Text

/-! ## Lexemes -/

namespace Lexeme

variable {s : Text} {c : Char}

theorem wordRest_cons_of_isWordLetter (hc : isWordLetter c = true) :
    wordRest (c :: s) = (c :: (wordRest s).1, (wordRest s).2) := by
  cases s <;> simp [wordRest, hc]

theorem wordRest_cons_of_isWordMark (hletter : ¬isWordLetter c = true)
    (hmark : isWordMark c = true) : wordRest (c :: s) = ([c], s) := by
  cases s <;> simp [wordRest, hletter, hmark]

theorem wordRest_append_of_getLast? (h : s.getLast? = some '\n') (r : Text) :
    wordRest (s ++ r) = ((wordRest s).1, (wordRest s).2 ++ r) := by
  fun_induction wordRest s with
  | case1 => simp at h
  | case2 c rest hc parts ih =>
      have hne : c ≠ '\n' := by
        rintro rfl
        simp [isWordLetter_lineFeed] at hc
      rw [List.cons_append, wordRest_cons_of_isWordLetter hc, ih (Text.getLast?_of_cons h hne)]
  | case3 c rest hletter hmark =>
      rw [List.cons_append, wordRest_cons_of_isWordMark hletter hmark]
  | case4 c hletter hmark =>
      obtain rfl : c = '\n' := by simpa using h
      cases r with
      | nil => simp [wordRest, hletter, hmark]
      | cons d r => simp [wordRest, hletter, hmark, isApostrophe]
  | case5 c hletter hmark d more hcd parts ih =>
      have hd : d ≠ '\n' := by
        rintro rfl
        simp [isWordLetter_lineFeed] at hcd
      have hlast := Text.getLast?_of_cons (s := more) (c := d) (by simpa using h) hd
      simp [wordRest, hletter, hmark, hcd, ih hlast, parts]
  | case6 c hletter hmark d more hcd => simp [wordRest, hletter, hmark, hcd]

theorem startKind_append_of_getLast? (h : (c :: s).getLast? = some '\n') (r : Text) :
    startKind c (s ++ r) = startKind c s := by
  by_cases hc : c = '\n'
  · simp [startKind, hc]
  · rw [startKind, Text.head?_append_of_getLast? (Text.getLast?_of_cons h hc), startKind]

theorem first_append_of_getLast? (h : (c :: s).getLast? = some '\n') (r : Text) :
    first c (s ++ r) = ((first c s).1, (first c s).2 ++ r) := by
  have run (kind : LexemeKind) {p : Char → Bool} (hp : p '\n' = false) (hc : c ≠ '\n') :
      ofRun kind p c (s ++ r) = ((ofRun kind p c s).1, (ofRun kind p c s).2 ++ r) := by
    have hs := Text.getLast?_of_cons h hc
    rw [ofRun, Text.takeWhile_append_of_getLast? hs hp, Text.dropWhile_append_of_getLast? hs hp,
      ofRun]
  have hc (hkind : startKind c s ≠ .newline) : c ≠ '\n' := by
    rintro rfl
    exact hkind (by simp [startKind, Text.isIndentChar])
  rw [first, startKind_append_of_getLast? h, first]
  split <;> rename_i hkind <;> rw [hkind] at hc
  · exact run _ rfl (hc (by simp))
  · split
    · rename_i heq
      have hs := Text.getLast?_of_cons h (by simp [heq])
      cases s with
      | nil => simp at hs
      | cons d s => simp
    · simp
  · rw [wordRest_append_of_getLast? (Text.getLast?_of_cons h (hc (by simp)))]
  · exact run _ isOperatorChar_lineFeed (hc (by simp))
  · exact run _ rfl (hc (by simp))
  · exact run _ rfl (hc (by simp))
  · exact run _ rfl (hc (by simp))
  · exact run _ rfl (hc (by simp))

theorem getLast?_first_rest (h : (c :: s).getLast? = some '\n')
    (hkind : startKind c s ≠ .newline) : (first c s).2.getLast? = some '\n' := by
  rw [← first_append c s] at h
  exact Text.getLast?_of_append h (lineFeed_notMem_first hkind)

end Lexeme

/-! ## Literals -/

namespace Literal

variable {s : Text} {g : Grammar} {q : Char} {stops : Text → Bool}

theorem unescapedSpan_cons {c : Char} {rest : Text} (hc : c ≠ '\\')
    (hstops : ¬stops (c :: rest) = true) :
    unescapedSpan stops (c :: rest) =
      (c :: (unescapedSpan stops rest).1, (unescapedSpan stops rest).2) := by
  cases rest <;> simp [unescapedSpan, hc, hstops]

theorem unescapedSpan_cons_of_stops {c : Char} {rest : Text} (hc : c ≠ '\\')
    (hstops : stops (c :: rest) = true) : unescapedSpan stops (c :: rest) = ([], c :: rest) := by
  cases rest <;> simp [unescapedSpan, hc, hstops]

/-- A place at which the span stops is found whatever follows. -/
theorem unescapedSpan_append_of_ne_nil
    (hstops : ∀ t r, t.getLast? = some '\n' → stops (t ++ r) = stops t) (hs : s.IsWhole)
    (h : (unescapedSpan stops s).2 ≠ []) (r : Text) :
    unescapedSpan stops (s ++ r) =
      ((unescapedSpan stops s).1, (unescapedSpan stops s).2 ++ r) := by
  fun_induction unescapedSpan stops s with
  | case1 => simp at h
  | case2 => simp at h
  | case3 d more parts ih =>
      simp only [parts] at h
      simp [unescapedSpan, ih hs.of_cons.of_cons h, parts]
  | case4 c rest hc hstop =>
      rw [List.cons_append, unescapedSpan_cons_of_stops hc]
      rw [← List.cons_append, hstops _ r (hs.getLast? (by simp)), hstop]
  | case5 c rest hc hstop parts ih =>
      simp only [parts] at h
      rw [List.cons_append, unescapedSpan_cons hc, ih hs.of_cons h]
      rw [← List.cons_append, hstops _ r (hs.getLast? (by simp))]
      exact hstop

theorem unescapedSpan_append_of_eq_nil
    (hstops : ∀ t r, t.getLast? = some '\n' → stops (t ++ r) = stops t) (hs : s.IsWhole)
    (h : (unescapedSpan stops s).2 = []) (r : Text) :
    unescapedSpan stops (s ++ r) =
      (s ++ (unescapedSpan stops r).1, (unescapedSpan stops r).2) := by
  fun_induction unescapedSpan stops s with
  | case1 => rfl
  | case2 => simp [Text.IsWhole] at hs
  | case3 d more parts ih =>
      simp only [parts] at h
      simp [unescapedSpan, ih hs.of_cons.of_cons h]
  | case4 c rest hc hstop => simp at h
  | case5 c rest hc hstop parts ih =>
      simp only [parts] at h
      rw [List.cons_append, unescapedSpan_cons hc, ih hs.of_cons h]
      · rfl
      · rw [← List.cons_append, hstops _ r (hs.getLast? (by simp))]
        exact hstop

theorem interruptsQuoted_append (hg : g.LineEmbedding) (q : Char) (t r : Text)
    (h : t.getLast? = some '\n') : interruptsQuoted g q (t ++ r) = interruptsQuoted g q t := by
  rw [interruptsQuoted, Text.head?_append_of_getLast? h,
    Text.isPrefixOf_append_of_getLast? h hg.onLine, interruptsQuoted]

theorem quoted_append_of_ne_nil (hg : g.LineEmbedding) (hs : s.IsWhole)
    (h : (quoted g q s).2 ≠ []) (r : Text) :
    quoted g q (s ++ r) = ((quoted g q s).1, (quoted g q s).2 ++ r) :=
  unescapedSpan_append_of_ne_nil (interruptsQuoted_append hg q) hs h r

theorem quoted_append_of_eq_nil (hg : g.LineEmbedding) (hs : s.IsWhole)
    (h : (quoted g q s).2 = []) (r : Text) :
    quoted g q (s ++ r) = (s ++ (quoted g q r).1, (quoted g q r).2) :=
  unescapedSpan_append_of_eq_nil (interruptsQuoted_append hg q) hs h r

theorem closesOnLine_append (q : Char) (h : s.getLast? = some '\n') (r : Text) :
    closesOnLine q (s ++ r) = closesOnLine q s := by
  rw [closesOnLine, Text.takeWhile_append_of_getLast? h (by rfl), closesOnLine]

theorem beforeBackticks?_append_of_eq_some {n : Nat} {content behind : Text} (hs : s.IsWhole)
    (h : beforeBackticks? n s = some (content, behind)) (r : Text) :
    beforeBackticks? n (s ++ r) = some (content, behind ++ r) := by
  fun_induction beforeBackticks? n s generalizing content behind with
  | case1 => simp at h
  | case2 rest hrun =>
      have hlast := Text.getLast?_of_cons (hs.getLast? (by simp)) (by decide)
      simp only [Option.some.injEq, Prod.mk.injEq] at h
      obtain ⟨rfl, rfl⟩ := h
      rw [List.cons_append, beforeBackticks?, if_pos rfl,
        Text.takeWhile_append_of_getLast? hlast (by rfl), if_pos hrun]
  | case3 rest hrun ih =>
      have hlast := Text.getLast?_of_cons (hs.getLast? (by simp)) (by decide)
      obtain ⟨parts, hparts, heq⟩ := Option.map_eq_some_iff.mp h
      simp only [Prod.mk.injEq] at heq
      obtain ⟨rfl, rfl⟩ := heq
      rw [List.cons_append, beforeBackticks?, if_pos rfl,
        Text.takeWhile_append_of_getLast? hlast (by rfl), if_neg hrun,
        Text.dropWhile_append_of_getLast? hlast (by rfl),
        ih (.inr (Text.getLast?_dropWhile hlast (by rfl))) hparts]
      rfl
  | case4 c rest hc ih =>
      obtain ⟨parts, hparts, heq⟩ := Option.map_eq_some_iff.mp h
      simp only [Prod.mk.injEq] at heq
      obtain ⟨rfl, rfl⟩ := heq
      rw [List.cons_append, beforeBackticks?, if_neg hc, ih hs.of_cons hparts]
      rfl

theorem beforeBackticks?_append_of_eq_none {n : Nat} (hs : s.IsWhole)
    (h : beforeBackticks? n s = none) (r : Text) :
    beforeBackticks? n (s ++ r) =
      (beforeBackticks? n r).map fun parts => (s ++ parts.1, parts.2) := by
  fun_induction beforeBackticks? n s with
  | case1 => simp
  | case2 => simp at h
  | case3 rest hrun ih =>
      have hlast := Text.getLast?_of_cons (hs.getLast? (by simp)) (by decide)
      rw [List.cons_append, beforeBackticks?, if_pos rfl,
        Text.takeWhile_append_of_getLast? hlast (by rfl), if_neg hrun,
        Text.dropWhile_append_of_getLast? hlast (by rfl),
        ih (.inr (Text.getLast?_dropWhile hlast (by rfl))) (Option.map_eq_none_iff.mp h),
        Option.map_map]
      congr 1
      funext parts
      simp [← List.append_assoc]
  | case4 c rest hc ih =>
      rw [List.cons_append, beforeBackticks?, if_neg hc,
        ih hs.of_cons (Option.map_eq_none_iff.mp h), Option.map_map]
      rfl

theorem fenced_append_of_ne_nil {f : Char} {run : Nat} (hs : s.IsWhole)
    (h : (fenced f run s).2 ≠ []) (r : Text) :
    fenced f run (s ++ r) = ((fenced f run s).1, (fenced f run s).2 ++ r) := by
  fun_induction fenced f run s with
  | case1 => simp at h
  | case2 c rest hcloses =>
      have hlast := hs.getLast? (by simp)
      rw [List.cons_append, fenced, ← List.cons_append, Text.firstLine_append_of_getLast? hlast,
        if_pos hcloses]
  | case3 c rest hcloses parts ih =>
      have hlast := hs.getLast? (by simp)
      rw [List.cons_append, fenced, ← List.cons_append, Text.firstLine_append_of_getLast? hlast,
        if_neg hcloses, Text.firstEnding_append_of_getLast? hlast,
        Text.afterFirstLine_append_of_getLast? hlast, ih (Text.isWhole_afterFirstLine hs) h]

theorem fenced_append_of_eq_nil {f : Char} {run : Nat} (hs : s.IsWhole)
    (h : (fenced f run s).2 = []) (r : Text) :
    fenced f run (s ++ r) = (s ++ (fenced f run r).1, (fenced f run r).2) := by
  fun_induction fenced f run s with
  | case1 => rfl
  | case2 => simp at h
  | case3 c rest hcloses parts ih =>
      have hlast := hs.getLast? (by simp)
      rw [List.cons_append, fenced, ← List.cons_append, Text.firstLine_append_of_getLast? hlast,
        if_neg hcloses, Text.firstEnding_append_of_getLast? hlast,
        Text.afterFirstLine_append_of_getLast? hlast, ih (Text.isWhole_afterFirstLine hs) h]
      simp only [← List.append_assoc, Text.firstLine_append]

end Literal

/-! ## Literals that go on with an indented line -/

namespace Literal

variable {w r : Text} {g : Grammar} {q f : Char} {n run : Nat}

theorem interruptsQuoted_of_isIndentChar (hg : g.VisibleEmbedding) (hq : IsMark q) {c : Char}
    (hc : Text.isIndentChar c = true) (t : Text) : interruptsQuoted g q (c :: t) = false := by
  have hquote : c ≠ q := by
    rintro rfl
    simp [hq.isIndentChar_eq] at hc
  have hopen : g.interpolationOpen.isPrefixOf (c :: t) = false := by
    rw [Bool.eq_false_iff, Ne, List.isPrefixOf_iff_prefix]
    rintro ⟨behind, hbehind⟩
    obtain ⟨d, hd, -⟩ := hg.visible
    obtain ⟨first, more, hfirst⟩ := List.exists_cons_of_ne_nil (List.ne_nil_of_mem hd)
    have hmark := hg.starts first (by simp [hfirst])
    rw [hfirst, List.cons_append, List.cons.injEq] at hbehind
    rw [hbehind.1, hc] at hmark
    simp at hmark
  simp [interruptsQuoted, hquote, hopen]

theorem quoted_indent (hg : g.VisibleEmbedding) (hq : IsMark q)
    (hw : w.all Text.isIndentChar = true) (r : Text) :
    quoted g q (w ++ r) = (w ++ (quoted g q r).1, (quoted g q r).2) := by
  induction w with
  | nil => rfl
  | cons c w ih =>
      rw [List.all_cons, Bool.and_eq_true] at hw
      have hescape : c ≠ '\\' := by
        rintro rfl
        simp [Text.isIndentChar] at hw
      have hstops := interruptsQuoted_of_isIndentChar hg hq hw.1 (w ++ r)
      rw [quoted, List.cons_append, unescapedSpan_cons hescape (by simp [hstops])]
      change (c :: (quoted g q (w ++ r)).1, (quoted g q (w ++ r)).2) = _
      rw [ih hw.2]
      rfl

theorem beforeBackticks?_append (h : '\x60' ∉ w) (r : Text) :
    beforeBackticks? n (w ++ r) =
      (beforeBackticks? n r).map fun parts => (w ++ parts.1, parts.2) := by
  induction w with
  | nil => simp
  | cons c w ih =>
      rw [List.mem_cons, not_or] at h
      rw [List.cons_append, beforeBackticks?, if_neg (Ne.symm h.1), ih h.2, Option.map_map]
      rfl

theorem beforeBackticks?_indent (hw : w.all Text.isIndentChar = true) (r : Text) :
    beforeBackticks? n (w ++ r) =
      (beforeBackticks? n r).map fun parts => (w ++ parts.1, parts.2) := by
  refine beforeBackticks?_append (fun hmem => ?_) r
  have hindent := List.all_eq_true.mp hw _ hmem
  simp [Text.isIndentChar] at hindent

theorem closesFence_indent (hw : w.all Text.isIndentChar = true) (line : Text) :
    closesFence f run (w ++ line) = closesFence f run line := by
  simp only [closesFence, List.dropWhile_append_of_pos (List.all_eq_true.mp hw)]

theorem fenced_of_closesFence (hr : r ≠ []) (h : closesFence f run r.firstLine = true) :
    fenced f run r = ([], r) := by
  obtain ⟨c, r, rfl⟩ := List.exists_cons_of_ne_nil hr
  rw [fenced, if_pos h]

theorem fenced_of_not_closesFence (hr : r ≠ []) (h : closesFence f run r.firstLine = false) :
    fenced f run r = (r.firstLine ++ r.firstEnding ++ (fenced f run r.afterFirstLine).1,
      (fenced f run r.afterFirstLine).2) := by
  obtain ⟨c, r, rfl⟩ := List.exists_cons_of_ne_nil hr
  rw [fenced, if_neg (by simp [h])]

theorem fenced_indent (hr : r ≠ []) (h : closesFence f run r.firstLine = false)
    (hw : w.all Text.isIndentChar = true) :
    fenced f run (w ++ r) = (w ++ (fenced f run r).1, (fenced f run r).2) := by
  have hlong : closesFence f run (w ++ r).firstLine = false := by
    rw [Text.firstLine_append_indent hw, closesFence_indent hw, h]
  rw [fenced_of_not_closesFence (by simp [hr]) hlong, fenced_of_not_closesFence hr h,
    Text.firstLine_append_indent hw, Text.firstEnding_append_indent hw,
    Text.afterFirstLine_append_indent hw]
  simp only [List.append_assoc]

end Literal

end MarkupLayout

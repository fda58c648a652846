import MarkupLayout.Grammar
/-!
# Where literals end

Each function of this module splits the text behind the start of a literal into what belongs to
the literal's content and what starts with the delimiter that ends the content.  A literal
without such a delimiter runs to the end of the text.
-/

namespace MarkupLayout.Literal

/-- Splits a text before the first place that is not escaped and at which `stops` holds.  A
backslash escapes the character behind it and never stops. -/
def unescapedSpan (stops : Text → Bool) : Text → Text × Text
  | [] => ([], [])
  | c :: rest =>
    if c = '\\' then
      match rest with
      | [] => ([c], [])
      | d :: more =>
        let parts := unescapedSpan stops more
        (c :: d :: parts.1, parts.2)
    else if stops (c :: rest) then ([], c :: rest)
    else
      let parts := unescapedSpan stops rest
      (c :: parts.1, parts.2)

theorem unescapedSpan_append (stops : Text → Bool) (t : Text) :
    (unescapedSpan stops t).1 ++ (unescapedSpan stops t).2 = t := by
  fun_induction unescapedSpan stops t <;> simp_all +zetaDelta

theorem stops_of_unescapedSpan {stops : Text → Bool} {t rest : Text} {c : Char}
    (h : (unescapedSpan stops t).2 = c :: rest) : stops (c :: rest) = true := by
  fun_induction unescapedSpan stops t with
  | case1 => simp at h
  | case2 => simp at h
  | case3 _ _ _ ih => exact ih h
  | case4 _ _ _ hstops =>
    rw [← h]
    exact hstops
  | case5 _ _ _ _ _ ih => exact ih h

def closesOnLine (q : Char) (t : Text) : Bool :=
  (unescapedSpan (·.head? == some q) (t.takeWhile (· != '\n'))).2 != []

/-- Whether a string quoted with `q` is interrupted at the start of `t`: by its closing quote
or, if it may embed code, by what opens the code. -/
def interruptsQuoted (g : Grammar) (q : Char) (t : Text) : Bool :=
  t.head? == some q || ((g.quote? q).any (·.interpolates) && g.interpolationOpen.isPrefixOf t)

def quoted (g : Grammar) (q : Char) (t : Text) : Text × Text :=
  unescapedSpan (interruptsQuoted g q) t

theorem interpolationOpen_prefix {g : Grammar} {q c : Char} {t rest : Text}
    (h : (quoted g q t).2 = c :: rest) (hc : c ≠ q) : g.interpolationOpen <+: c :: rest := by
  have hstops := stops_of_unescapedSpan h
  simp only [interruptsQuoted, List.head?_cons, Bool.or_eq_true, beq_iff_eq, Option.some.injEq, hc,
    false_or, Bool.and_eq_true] at hstops
  exact List.isPrefixOf_iff_prefix.1 hstops.2

/-- The text before the first run of exactly `n` backticks, and the text from that run on;
`none` if there is no such run. -/
def beforeBackticks? (n : Nat) : Text → Option (Text × Text)
  | [] => none
  | c :: rest =>
    if c = '\x60' then
      if (rest.takeWhile (· == '\x60')).length + 1 = n then some ([], c :: rest)
      else (beforeBackticks? n (rest.dropWhile (· == '\x60'))).map fun parts =>
        (c :: rest.takeWhile (· == '\x60') ++ parts.1, parts.2)
    else (beforeBackticks? n rest).map fun parts => (c :: parts.1, parts.2)
termination_by t => t.length
decreasing_by
  · have := (List.dropWhile_suffix (l := rest) (· == '\x60')).length_le
    simp only [List.length_cons]
    omega
  · simp

theorem eq_of_beforeBackticks?_eq_some {n : Nat} {t content rest : Text}
    (h : beforeBackticks? n t = some (content, rest)) :
    content ++ rest = t ∧ (rest.takeWhile (· == '\x60')).length = n := by
  fun_induction beforeBackticks? n t generalizing content rest with
  | case1 => simp at h
  | case2 more hrun =>
    simp only [Option.some.injEq, Prod.mk.injEq] at h
    obtain ⟨rfl, rfl⟩ := h
    exact ⟨rfl, by simpa using hrun⟩
  | case3 more _ ih =>
    obtain ⟨parts, hparts, heq⟩ := Option.map_eq_some_iff.1 h
    simp only [Prod.mk.injEq] at heq
    obtain ⟨rfl, rfl⟩ := heq
    obtain ⟨happend, hlength⟩ := ih hparts
    refine ⟨?_, hlength⟩
    rw [List.append_assoc, happend]
    rw [List.cons_append, List.takeWhile_append_dropWhile]
  | case4 c more hc ih =>
    obtain ⟨parts, hparts, heq⟩ := Option.map_eq_some_iff.1 h
    simp only [Prod.mk.injEq] at heq
    obtain ⟨rfl, rfl⟩ := heq
    obtain ⟨happend, hlength⟩ := ih hparts
    exact ⟨by rw [List.cons_append, happend], hlength⟩

def closesFence (f : Char) (run : Nat) (line : Text) : Bool :=
  let body := line.dropWhile Text.isIndentChar
  run ≤ (body.takeWhile (· == f)).length && Text.isBlank (body.dropWhile (· == f))

def fenced (f : Char) (run : Nat) : Text → Text × Text
  | [] => ([], [])
  | c :: rest =>
    if closesFence f run (Text.firstLine (c :: rest)) then ([], c :: rest)
    else
      let parts := fenced f run (Text.afterFirstLine (c :: rest))
      (Text.firstLine (c :: rest) ++ Text.firstEnding (c :: rest) ++ parts.1, parts.2)
termination_by t => t.length
decreasing_by exact Text.length_afterFirstLine_lt c rest

theorem fenced_append (f : Char) (run : Nat) (t : Text) :
    (fenced f run t).1 ++ (fenced f run t).2 = t := by
  fun_induction fenced f run t with
  | case1 => rfl
  | case2 => rfl
  | case3 c rest _ parts ih =>
    simp only [parts, List.append_assoc] at ih ⊢
    rw [ih, ← List.append_assoc, Text.firstLine_append]

end MarkupLayout.Literal

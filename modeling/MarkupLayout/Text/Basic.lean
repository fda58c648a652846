import MarkupLayout.Unicode.Blank
/-!
# Text and its byte offsets

A text is the list of its characters.  Positions shown to the outside are byte offsets into
its UTF-8 form, so this module measures texts in bytes and cuts them at byte offsets.
-/

namespace MarkupLayout

abbrev Text := List Char

namespace Text

def byteSize : Text → Nat
  | [] => 0
  | c :: rest => c.utf8Size + byteSize rest

@[simp] theorem byteSize_nil : byteSize [] = 0 := rfl

@[simp] theorem byteSize_cons (c : Char) (t : Text) :
    byteSize (c :: t) = c.utf8Size + byteSize t := rfl

@[simp] theorem byteSize_append (s t : Text) : byteSize (s ++ t) = byteSize s + byteSize t := by
  induction s with
  | nil => simp
  | cons c s ih => simp [ih, Nat.add_assoc]

theorem length_le_byteSize (t : Text) : t.length ≤ byteSize t := by
  induction t with
  | nil => simp
  | cons c t ih =>
    have hpos := c.utf8Size_pos
    simp only [byteSize_cons, List.length_cons]
    omega

theorem bne_of_notMem {c : Char} {t : Text} (h : c ∉ t) : ∀ d ∈ t, (d != c) = true := by
  intro d hd
  rw [bne_iff_ne]
  rintro rfl
  exact h hd

theorem takeWhile_append_of_notMem {c : Char} {s : Text} (h : c ∉ s) (t : Text) :
    (s ++ t).takeWhile (· != c) = s ++ t.takeWhile (· != c) :=
  List.takeWhile_append_of_pos (bne_of_notMem h)

/-- The text before and from a byte offset, or `none` when the offset is inside a character or
past the end. -/
def cut? : Text → Nat → Option (Text × Text)
  | t, 0 => some ([], t)
  | [], _ + 1 => none
  | c :: rest, n + 1 =>
    if c.utf8Size ≤ n + 1 then
      (cut? rest (n + 1 - c.utf8Size)).map fun parts => (c :: parts.1, parts.2)
    else none

theorem cut?_zero (t : Text) : cut? t 0 = some ([], t) := by
  cases t <;> rfl

theorem cut?_append (s t : Text) : cut? (s ++ t) (byteSize s) = some (s, t) := by
  induction s with
  | nil => exact cut?_zero t
  | cons c s ih =>
    have hpos := c.utf8Size_pos
    obtain ⟨n, hn⟩ : ∃ n, byteSize (c :: s) = n + 1 :=
      ⟨byteSize (c :: s) - 1, by rw [byteSize_cons]; omega⟩
    have hle : c.utf8Size ≤ n + 1 := by rw [← hn, byteSize_cons]; omega
    have hrest : n + 1 - c.utf8Size = byteSize s := by rw [← hn, byteSize_cons]; omega
    rw [hn, List.cons_append, cut?, if_pos hle, hrest, ih]
    rfl

theorem eq_of_cut?_eq_some {t before behind : Text} {offset : Nat}
    (h : cut? t offset = some (before, behind)) :
    before ++ behind = t ∧ byteSize before = offset := by
  fun_induction cut? t offset generalizing before with
  | case1 t =>
    simp only [Option.some.injEq, Prod.mk.injEq] at h
    obtain ⟨rfl, rfl⟩ := h
    exact ⟨rfl, rfl⟩
  | case2 => simp at h
  | case3 c rest n hle ih =>
    obtain ⟨parts, hparts, heq⟩ := Option.map_eq_some_iff.1 h
    simp only [Prod.mk.injEq] at heq
    obtain ⟨rfl, rfl⟩ := heq
    obtain ⟨happend, hsize⟩ := ih hparts
    refine ⟨by rw [List.cons_append, happend], ?_⟩
    rw [byteSize_cons, hsize]
    omega
  | case4 => simp at h

/-- The greatest character boundary that is at most the given offset. -/
def snap : Text → Nat → Nat
  | [], _ => 0
  | c :: rest, offset =>
    if c.utf8Size ≤ offset then c.utf8Size + snap rest (offset - c.utf8Size) else 0

theorem snap_le (t : Text) (offset : Nat) : snap t offset ≤ offset := by
  induction t generalizing offset with
  | nil => simp [snap]
  | cons c t ih =>
    unfold snap
    split
    · have := ih (offset - c.utf8Size)
      omega
    · omega

theorem snap_le_byteSize (t : Text) (offset : Nat) : snap t offset ≤ byteSize t := by
  induction t generalizing offset with
  | nil => simp [snap]
  | cons c t ih =>
    unfold snap
    split
    · have := ih (offset - c.utf8Size)
      simp only [byteSize_cons]
      omega
    · omega

def cutSnapped : Text → Nat → Text × Text
  | [], _ => ([], [])
  | c :: rest, offset =>
    if c.utf8Size ≤ offset then
      let parts := cutSnapped rest (offset - c.utf8Size)
      (c :: parts.1, parts.2)
    else ([], c :: rest)

theorem cutSnapped_append (t : Text) (offset : Nat) :
    (cutSnapped t offset).1 ++ (cutSnapped t offset).2 = t := by
  induction t generalizing offset with
  | nil => rfl
  | cons c t ih =>
    unfold cutSnapped
    split
    · simp [ih]
    · rfl

theorem byteSize_cutSnapped (t : Text) (offset : Nat) :
    byteSize (cutSnapped t offset).1 = snap t offset := by
  induction t generalizing offset with
  | nil => rfl
  | cons c t ih =>
    unfold cutSnapped snap
    split
    · simp [ih]
    · rfl

def slice? (t : Text) (start stop : Nat) : Option Text := do
  let (before, _) ← cut? t stop
  let (_, inside) ← cut? before start
  return inside

/-- The text between two byte offsets that may lie anywhere: they are first brought into the
text and into order, and an offset inside a character gives the empty text. -/
def between (t : Text) (start stop : Nat) : Text :=
  let stop := min stop t.byteSize
  (slice? t (min start stop) stop).getD []

def isIndentChar (c : Char) : Bool :=
  c == ' ' || c == '\t'

def leading (t : Text) : Text :=
  t.takeWhile isIndentChar

def isBlank (t : Text) : Bool :=
  t.all Unicode.isBlank

def endsVisiblyWith (c : Char) (t : Text) : Bool :=
  (t.reverse.dropWhile Unicode.isBlank).head? == some c

end Text

end MarkupLayout

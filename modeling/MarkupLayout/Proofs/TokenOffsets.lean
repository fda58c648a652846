import MarkupLayout.Proofs.Lines
import MarkupLayout.Proofs.TokenCoverage
/-!
# Tokens and byte offsets

A token starts behind the bytes of the tokens before it.  This module cuts token lists at byte
offsets, and texts at the offsets of their lines: such an offset parts a text into whole lines and
the rest.
-/

namespace MarkupLayout

/-! ## Texts at the starts of their lines -/

namespace Text

theorem mem_laterStarts_iff {t : Text} {offset p : Nat} :
    p ∈ laterStarts offset t ↔
      ∃ above below, t = above ++ below ∧ above.getLast? = some '\n' ∧
        p = offset + above.byteSize := by
  induction t generalizing offset with
  | nil =>
      simp only [laterStarts, List.not_mem_nil, false_iff, not_exists, not_and]
      intro above below happend hlast
      simp [(List.append_eq_nil_iff.mp happend.symm).1] at hlast
  | cons c t ih =>
      -- A line starts directly behind `c`, or at one of the starts that lie behind `c`.
      have hsplit : p ∈ laterStarts offset (c :: t) ↔
          c = '\n' ∧ p = offset + c.utf8Size ∨ p ∈ laterStarts (offset + c.utf8Size) t := by
        rw [laterStarts]
        split <;> simp_all
      rw [hsplit, ih]
      constructor
      · rintro (⟨rfl, rfl⟩ | ⟨above, below, rfl, hlast, rfl⟩)
        · exact ⟨['\n'], t, rfl, rfl, by simp⟩
        · refine ⟨c :: above, below, rfl, ?_, by simp [Nat.add_assoc]⟩
          rw [List.getLast?_cons, hlast]
          rfl
      · rintro ⟨above, below, happend, hlast, rfl⟩
        cases above with
        | nil => simp at hlast
        | cons d above =>
            rw [List.cons_append, List.cons.injEq] at happend
            obtain ⟨rfl, rfl⟩ := happend
            cases above with
            | nil => exact .inl ⟨by simpa using hlast, by simp⟩
            | cons d above =>
                exact .inr ⟨d :: above, below, rfl, by simpa using hlast, by simp [Nat.add_assoc]⟩

theorem mem_lineStarts_iff {t : Text} {p : Nat} :
    p ∈ t.lineStarts ↔ ∃ above below, t = above ++ below ∧ above.IsWhole ∧ above.byteSize = p := by
  rw [lineStarts, List.mem_cons, mem_laterStarts_iff]
  constructor
  · rintro (rfl | ⟨above, below, rfl, hlast, rfl⟩)
    · exact ⟨[], t, rfl, isWhole_nil, rfl⟩
    · exact ⟨above, below, rfl, .inr hlast, by simp⟩
  · rintro ⟨above, below, rfl, rfl | hlast, rfl⟩
    · exact .inl rfl
    · exact .inr ⟨above, below, rfl, hlast, by simp⟩

theorem between_append (s m r : Text) :
    (s ++ m ++ r).between s.byteSize (s ++ m).byteSize = m := by
  have hle : (s ++ m).byteSize ≤ (s ++ m ++ r).byteSize := by simp
  have hstart : s.byteSize ≤ (s ++ m).byteSize := by simp
  simp only [between, slice?, Nat.min_eq_left hle, Nat.min_eq_left hstart, cut?_append,
    Option.bind_eq_bind, Option.bind_some]
  rfl

theorem between_zero_append (s r : Text) : (s ++ r).between 0 s.byteSize = s :=
  between_append [] s r

theorem exists_eq_append_of_byteSize_le {s s' r r' : Text} (h : s ++ r = s' ++ r')
    (hle : s.byteSize ≤ s'.byteSize) : ∃ m, s' = s ++ m ∧ r = m ++ r' := by
  rcases List.append_eq_append_iff.mp h with ⟨m, hs', hr⟩ | ⟨m, hs, hr'⟩
  · exact ⟨m, hs', hr⟩
  · have hm : m = [] := by
      have hlength := length_le_byteSize m
      rw [hs, byteSize_append] at hle
      exact List.eq_nil_of_length_eq_zero (by omega)
    subst hm
    exact ⟨[], by simpa using hs.symm, by simpa using hr'.symm⟩

theorem append_inj_of_byteSize {s s' r r' : Text} (h : s ++ r = s' ++ r')
    (hsize : s.byteSize = s'.byteSize) : s = s' ∧ r = r' := by
  obtain ⟨m, rfl, rfl⟩ := exists_eq_append_of_byteSize_le h hsize.le
  obtain rfl : m = [] := by
    have hlength := m.length_le_byteSize
    rw [byteSize_append] at hsize
    exact List.eq_nil_of_length_eq_zero (by omega)
  simp

end Text

/-! ## Tokens at offsets -/

namespace Token

/-- Tokens with the byte offsets at which they start, the first of them starting at `offset`. -/
def withOffsets (offset : Nat) : List Token → List (Nat × Token)
  | [] => []
  | t :: more => (offset, t) :: withOffsets (offset + t.text.byteSize) more

def startingBefore (p : Nat) (tokens : List Token) : List Token :=
  ((withOffsets 0 tokens).filter (·.1 < p)).map Prod.snd

def startingFrom (p : Nat) (tokens : List Token) : List Token :=
  ((withOffsets 0 tokens).filter (p ≤ ·.1)).map Prod.snd

theorem withOffsets_append (offset : Nat) (left right : List Token) :
    withOffsets offset (left ++ right) =
      withOffsets offset left ++
        withOffsets (offset + Text.byteSize (left.flatMap Token.text)) right := by
  induction left generalizing offset with
  | nil => rfl
  | cons t left ih =>
      rw [List.cons_append, withOffsets, ih, withOffsets, List.flatMap_cons, Text.byteSize_append,
        Nat.add_assoc, List.cons_append]

theorem map_snd_withOffsets (offset : Nat) (tokens : List Token) :
    (withOffsets offset tokens).map Prod.snd = tokens := by
  induction tokens generalizing offset with
  | nil => rfl
  | cons t tokens ih => rw [withOffsets, List.map_cons, ih]

theorem le_of_mem_withOffsets {offset : Nat} {tokens : List Token} {entry : Nat × Token}
    (h : entry ∈ withOffsets offset tokens) : offset ≤ entry.1 := by
  induction tokens generalizing offset with
  | nil => simp [withOffsets] at h
  | cons t tokens ih =>
      rcases List.mem_cons.mp h with rfl | h
      · exact Nat.le_refl offset
      · exact Nat.le_of_add_right_le (ih h)

theorem lt_of_mem_withOffsets {offset : Nat} {tokens : List Token} {entry : Nat × Token}
    (hlast : ∀ token ∈ tokens.getLast?, token.text ≠ []) (h : entry ∈ withOffsets offset tokens) :
    entry.1 < offset + Text.byteSize (tokens.flatMap Token.text) := by
  induction tokens generalizing offset entry with
  | nil => simp [withOffsets] at h
  | cons t tokens ih =>
      rw [List.flatMap_cons, Text.byteSize_append, ← Nat.add_assoc]
      cases tokens with
      | nil =>
          obtain rfl : entry = (offset, t) := by simpa [withOffsets] using h
          have hpos := List.length_pos_iff.mpr (hlast t rfl)
          have hlength := t.text.length_le_byteSize
          omega
      | cons next tokens =>
          have hlast : ∀ token ∈ (next :: tokens).getLast?, token.text ≠ [] := by
            simpa using hlast
          rcases List.mem_cons.mp h with rfl | h
          · -- The offset of `t` is not behind that of the token after it.
            have hnext := ih hlast (List.mem_cons_self (a := (offset + t.text.byteSize, next)))
            exact Nat.lt_of_le_of_lt (Nat.le_add_right _ _) hnext
          · exact ih hlast h

/-- Where the last token starts does not depend on that token. -/
theorem forall_lt_withOffsets_concat {p offset : Nat} {tokens : List Token} {last : Token}
    (h : ∀ entry ∈ withOffsets offset (tokens ++ [last]), entry.1 < p) (last' : Token) :
    ∀ entry ∈ withOffsets offset (tokens ++ [last']), entry.1 < p := by
  intro entry hentry
  rw [withOffsets_append] at h hentry
  rcases List.mem_append.mp hentry with hentry | hentry
  · exact h entry (List.mem_append_left _ hentry)
  · rw [List.mem_singleton.mp hentry]
    exact h (_, last) (List.mem_append_right _ (List.mem_singleton.mpr rfl))

section Cut

variable {p : Nat} {left right : List Token}

theorem startingBefore_append (hleft : ∀ entry ∈ withOffsets 0 left, entry.1 < p)
    (hright : p ≤ Text.byteSize (left.flatMap Token.text)) :
    startingBefore p (left ++ right) = left := by
  have hnone : (withOffsets (0 + Text.byteSize (left.flatMap Token.text)) right).filter
      (·.1 < p) = [] := by
    rw [List.filter_eq_nil_iff]
    intro entry hentry
    have hle := le_of_mem_withOffsets hentry
    simp only [decide_eq_true_eq, Nat.not_lt]
    omega
  rw [startingBefore, withOffsets_append, List.filter_append, hnone, List.append_nil,
    List.filter_eq_self.mpr (by simpa using hleft), map_snd_withOffsets]

theorem startingFrom_append (hleft : ∀ entry ∈ withOffsets 0 left, entry.1 < p)
    (hright : p ≤ Text.byteSize (left.flatMap Token.text)) :
    startingFrom p (left ++ right) = right := by
  have hnone : (withOffsets 0 left).filter (p ≤ ·.1) = [] := by
    rw [List.filter_eq_nil_iff]
    intro entry hentry
    have hlt := hleft entry hentry
    simp only [decide_eq_true_eq, Nat.not_le]
    exact hlt
  have hall : (withOffsets (0 + Text.byteSize (left.flatMap Token.text)) right).filter
      (p ≤ ·.1) = withOffsets (0 + Text.byteSize (left.flatMap Token.text)) right := by
    rw [List.filter_eq_self]
    intro entry hentry
    have hle := le_of_mem_withOffsets hentry
    simp only [decide_eq_true_eq]
    omega
  rw [startingFrom, withOffsets_append, List.filter_append, hnone, List.nil_append, hall,
    map_snd_withOffsets]

end Cut

theorem getLast?_place (p : Position) (pieces : List Piece) :
    (place p pieces).getLast?.map Token.text = pieces.getLast?.map Piece.text := by
  rw [← List.getLast?_map, map_text_place, List.getLast?_map]

theorem lt_of_mem_withOffsets_tokenize {g : Grammar} {t : Text} {firstLine : Nat}
    {entry : Nat × Token} (h : entry ∈ withOffsets 0 (tokenize g t firstLine)) :
    entry.1 < t.byteSize := by
  have hlast : ∀ token ∈ (tokenize g t firstLine).getLast?, token.text ≠ [] := by
    intro token htoken
    obtain ⟨ctx, hrun⟩ := Scans.exists_end g .initial t
    have hsame := getLast?_place ⟨firstLine, 0⟩ (scan g t)
    rw [tokenize, Option.mem_def] at htoken
    rw [htoken] at hsame
    obtain ⟨piece, hpiece, htext⟩ := Option.map_eq_some_iff.mp hsame.symm
    rw [← htext]
    exact hrun.getLast?_text_ne_nil rfl ScanContext.wellQuoted_initial piece hpiece
  have hlt := lt_of_mem_withOffsets hlast h
  rwa [flatMap_text_tokenize, Nat.zero_add] at hlt

end Token

end MarkupLayout

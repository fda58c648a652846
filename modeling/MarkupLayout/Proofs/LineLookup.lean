import MarkupLayout.Proofs.CheckedScan
/-!
# Looking up lines

The search among the starts of lines counts the line feeds among the bytes below an offset, wherever
the offset is: at the start of a line, on a line feed, inside a character or past the end.  The
lines found in this way are the intervals between the starts, and the content of a line is what
stands in its interval, less the terminator.
-/

namespace MarkupLayout

namespace Text

/-! ## Counting line feeds -/

theorem count_lineFeed_utf8EncodeChar {c : Char} (hc : c ≠ '\n') (n : Nat) :
    ((String.utf8EncodeChar c).take n).count (Char.toUInt8 '\n') = 0 := by
  rw [List.count_eq_zero]
  intro hmem
  exact hc ((eq_toUInt8_iff (by decide) (List.mem_of_mem_take hmem)).mp rfl)

theorem countP_laterStarts (t : Text) (base offset : Nat) :
    (laterStarts base t).countP (· ≤ offset) =
      (t.bytes.take (offset - base)).count (Char.toUInt8 '\n') := by
  induction t generalizing base with
  | nil => simp [laterStarts, bytes]
  | cons c t ih =>
      -- The subtraction stops at zero, so an offset inside `c` needs no case of its own.
      have hsub : offset - base - c.utf8Size = offset - (base + c.utf8Size) := Nat.sub_sub ..
      rw [bytes_cons, List.take_append, List.count_append, String.length_utf8EncodeChar, hsub,
        ← ih, laterStarts]
      by_cases hc : c = '\n'
      · subst hc
        have hfeed : Char.utf8Size '\n' = 1 := by decide
        have hbytes : String.utf8EncodeChar '\n' = [Char.toUInt8 '\n'] :=
          utf8EncodeChar_of_ascii (by decide)
        rw [if_pos rfl, List.countP_cons, hbytes, hfeed, Nat.add_comm]
        congr 1
        cases hoffset : offset - base with
        | zero =>
            have hlt : ¬base + 1 ≤ offset := by omega
            simp [hlt]
        | succ n =>
            have hle : base + 1 ≤ offset := by omega
            simp [hle]
      · rw [if_neg hc, count_lineFeed_utf8EncodeChar hc, Nat.zero_add]

theorem lineAt_eq_count (t : Text) (offset : Nat) :
    t.lineAt offset = 1 + (t.bytes.take offset).count (Char.toUInt8 '\n') := by
  rw [lineAt, lineStarts, List.countP_cons_of_pos (by simp), countP_laterStarts, Nat.sub_zero,
    Nat.add_comm]

/-! ## Lines as intervals -/

theorem lineStart?_succ (t : Text) (n : Nat) : t.lineStart? (n + 1) = t.lineStarts[n]? := by
  rw [lineStart?, if_neg (Nat.succ_ne_zero n), Nat.add_sub_cancel]

theorem exists_succ_of_lineStart? {t : Text} {line start : Nat}
    (h : t.lineStart? line = some start) : ∃ n, line = n + 1 ∧ t.lineStarts[n]? = some start := by
  cases line with
  | zero => simp [lineStart?] at h
  | succ n => exact ⟨n, rfl, by rw [← lineStart?_succ, h]⟩

theorem lineStart?_isSome_iff (t : Text) (line : Nat) :
    (t.lineStart? line).isSome ↔ 1 ≤ line ∧ line ≤ t.lineCount := by
  cases line with
  | zero => simp [lineStart?]
  | succ n =>
      rw [lineStart?_succ, isSome_getElem?, lineCount]
      omega

theorem lineStart?_lt_of_lt {t : Text} {line next start later : Nat} (hlt : line < next)
    (hstart : t.lineStart? line = some start) (hlater : t.lineStart? next = some later) :
    start < later := by
  obtain ⟨n, rfl, hn⟩ := exists_succ_of_lineStart? hstart
  obtain ⟨m, rfl, hm⟩ := exists_succ_of_lineStart? hlater
  obtain ⟨hnlt, rfl⟩ := List.getElem?_eq_some_iff.mp hn
  obtain ⟨hmlt, rfl⟩ := List.getElem?_eq_some_iff.mp hm
  exact List.pairwise_iff_getElem.mp (lineStarts_sorted t) n m hnlt hmlt (by omega)

theorem le_lineAt_iff {t : Text} {line start : Nat} (h : t.lineStart? line = some start)
    (offset : Nat) : line ≤ t.lineAt offset ↔ start ≤ offset := by
  obtain ⟨n, rfl, hn⟩ := exists_succ_of_lineStart? h
  exact lt_countP_iff_of_sorted (lineStarts_sorted t) hn offset

theorem lineAt_le_lineCount (t : Text) (offset : Nat) : t.lineAt offset ≤ t.lineCount :=
  List.countP_le_length

theorem lineAt_eq_iff (t : Text) (offset line : Nat) :
    t.lineAt offset = line ↔ (∃ start ∈ t.lineStart? line, start ≤ offset) ∧
      ∀ next ∈ t.lineStart? (line + 1), offset < next := by
  constructor
  · rintro rfl
    have hpos := lineAt_pos t offset
    obtain ⟨start, hstart⟩ := Option.isSome_iff_exists.mp
      ((lineStart?_isSome_iff t _).mpr ⟨hpos, lineAt_le_lineCount t offset⟩)
    refine ⟨⟨start, hstart, (le_lineAt_iff hstart offset).mp le_rfl⟩, fun next hnext => ?_⟩
    have hiff := le_lineAt_iff hnext offset
    omega
  · rintro ⟨⟨start, hstart, hle⟩, hnext⟩
    have hlower := (le_lineAt_iff hstart offset).mpr hle
    have hcount := lineAt_le_lineCount t offset
    -- A line further down would leave a next line that starts at the offset or before it.
    by_contra hne
    obtain ⟨next, hsome⟩ := Option.isSome_iff_exists.mp
      ((lineStart?_isSome_iff t (line + 1)).mpr ⟨by omega, by omega⟩)
    have hlt := hnext next hsome
    have hiff := le_lineAt_iff hsome offset
    omega

theorem lineAt_snap (t : Text) (offset : Nat) : t.lineAt (t.snap offset) = t.lineAt offset := by
  rw [lineAt, lineAt]
  apply List.countP_congr
  intro start hstart
  obtain ⟨above, below, htext, -, hsize⟩ := mem_lineStarts_iff.mp hstart
  have hboundary : t.isBoundary start = true := isBoundary_iff.mpr ⟨above, below, htext, hsize⟩
  rw [decide_eq_true_eq, decide_eq_true_eq]
  exact ⟨fun hle => Nat.le_trans hle (snap_le t offset), le_snap hboundary⟩

/-! ## The content of a line -/

/-- What stands on the line that starts at an offset: the text up to the next line feed or to the
end, less one carriage return. -/
def ShowsLine (t : Text) (start : Nat) (content : Text) : Prop :=
  ∃ above ending below, t = above ++ (content ++ (ending ++ below)) ∧ above.byteSize = start ∧
    '\n' ∉ content ∧ (∀ c ∈ below.head?, c = '\n') ∧
    (ending = ['\r'] ∨ ending = [] ∧ content.getLast? ≠ some '\r')

theorem showsLine_stripReturn {t content : Text} {ls more : List Text}
    (h : t.lines = ls ++ content :: more) :
    t.ShowsLine (wholeLines ls).byteSize (stripReturn content) := by
  obtain ⟨below, hbelow, hstop⟩ := exists_intercalate_cons more
  obtain ⟨ending, hending, hreturn⟩ := exists_eq_stripReturn_append content
  have hfeed : '\n' ∉ content := lineFeed_notMem_of_mem_lines (t := t) (by simp [h])
  refine ⟨wholeLines ls, ending, below, ?_, rfl, ?_, ?_, hreturn⟩
  · rw [← List.append_assoc (stripReturn content), ← hending, ← hbelow, ← eq_wholeLines_append h]
  · intro hmem
    rw [hending] at hfeed
    exact hfeed (List.mem_append_left _ hmem)
  · exact eq_lineFeed_of_takeWhile hstop

theorem rel_lineText? (t : Text) (line : Nat) :
    Option.Rel t.ShowsLine (t.lineStart? line) (t.lineText? line) := by
  cases hstart : t.lineStart? line with
  | none =>
      rw [Document.lineText?_eq_none hstart]
      exact .none
  | some start =>
      obtain ⟨ls, content, more, hlines, rfl, rfl⟩ := exists_lines_of_lineStart? hstart
      rw [lineText?_of_lines hlines]
      exact .some (showsLine_stripReturn hlines)

end Text

namespace Document

/-- Line lookup is exact.  Halving the starts of lines finds, without going below zero, the line
that counts the line feeds among the bytes below an offset, and it makes no difference whether the
offset is brought to a character boundary first.  Lines start from the first to the last, in rising
order, and the line of an offset is the one whose interval holds it.  Cutting the content of a line
out of the text never fails and gives what stands there up to the line feed or the end, less one
carriage return. -/
theorem line_lookup_exact (doc : Document) :
    (∀ offset, Text.bisectLine? doc.text.lineStarts offset = some (doc.text.lineAt offset) ∧
      doc.lineAt offset = doc.text.lineAt offset ∧
      doc.text.lineAt offset = 1 + (doc.text.bytes.take offset).count (Char.toUInt8 '\n')) ∧
    (∀ line, (doc.text.lineStart? line).isSome ↔ 1 ≤ line ∧ line ≤ doc.text.lineCount) ∧
    (∀ line next, line < next → ∀ start ∈ doc.text.lineStart? line,
      ∀ later ∈ doc.text.lineStart? next, start < later) ∧
    (∀ offset line, doc.text.lineAt offset = line ↔
      (∃ start ∈ doc.text.lineStart? line, start ≤ offset) ∧
        ∀ next ∈ doc.text.lineStart? (line + 1), offset < next) ∧
    ∀ line, doc.buffer.lineText? line = some (doc.text.lineText? line) ∧
      Option.Rel doc.text.ShowsLine (doc.text.lineStart? line) (doc.text.lineText? line) := by
  refine ⟨fun offset => ⟨?_, ?_, ?_⟩, ?_, ?_, ?_, fun line => ⟨?_, ?_⟩⟩
  · exact Text.bisectLine?_lineStarts doc.text offset
  · exact Text.lineAt_snap doc.text offset
  · exact Text.lineAt_eq_count doc.text offset
  · exact Text.lineStart?_isSome_iff doc.text
  · intro line next hlt start hstart later hlater
    exact Text.lineStart?_lt_of_lt hlt hstart hlater
  · exact Text.lineAt_eq_iff doc.text
  · exact doc.lineText?_buffer line
  · exact Text.rel_lineText? doc.text line

theorem line_lookup_exact_inside_letter :
    let text := (ofText "a" "é\r\n\nb".toList .default).text
    Text.bisectLine? text.lineStarts 1 = some 1 ∧ Text.bisectLine? text.lineStarts 99 = some 3 ∧
      text.lineStart? 2 = some 4 ∧ text.lineStart? 3 = some 5 ∧ 4 < 5 ∧ text.lineAt 4 = 2 ∧
      text.ShowsLine 0 ['é'] := by
  obtain ⟨hcount, -, hrising, hinterval, hcontent⟩ :=
    line_lookup_exact (ofText "a" "é\r\n\nb".toList .default)
  have hsecond : (ofText "a" "é\r\n\nb".toList .default).text.lineStart? 2 = some 4 := by decide
  have hthird : (ofText "a" "é\r\n\nb".toList .default).text.lineStart? 3 = some 5 := by decide
  refine ⟨(hcount 1).1, (hcount 99).1, hsecond, hthird, hrising 2 3 (by decide) 4 hsecond 5 hthird,
    (hinterval 4 2).mpr ⟨⟨4, hsecond, le_rfl⟩, fun next hnext => ?_⟩, ?_⟩
  · obtain rfl := Option.some.inj (hthird.symm.trans hnext)
    decide
  · exact Option.rel_some_some.mp (hcontent 1).2

end Document

end MarkupLayout

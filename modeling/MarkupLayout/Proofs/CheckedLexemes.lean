import MarkupLayout.Proofs.CheckedScan
import MarkupLayout.Proofs.LineCut
/-!
# Lexemes in byte offsets

The scanner's look at the source by offsets finds what stands between two parts of the source, and
cuts nothing where no character ends.  `Scanner.At` says at which place the scanner stands,
`Scanner.take` what a step makes of its state.  A round at a lexeme takes the lexeme's step.
-/

namespace MarkupLayout

namespace Scanner

open Text (byteSize)

variable {s : Scanner} {before behind passed rest text : Text} {c : Char} {kind : TokenKind}
  {stop : Nat}

/-! ## The state at a place -/

/-- The scanner stands behind the text `passed`. -/
structure At (s : Scanner) (passed rest : Text) : Prop where
  source_eq : s.source = passed ++ rest
  index_eq : s.index = s.source.lineStarts
  pos_eq : s.pos = passed.byteSize

/-- What the scanner knows of the text it has passed. -/
def contextBehind (s : Scanner) (passed : Text) : ScanContext :=
  { s.context with previous := passed.getLast? }

def pushed (s : Scanner) (before : Text) (pieces : List Piece) : Scanner :=
  { s with tokens := s.tokens ++ Token.place (Position.after ⟨s.firstLine, 0⟩ before) pieces }

def advance (s : Scanner) (passed : Text) (pieces : List Piece) : Scanner :=
  { s.pushed passed pieces with pos := byteSize (passed ++ pieces.flatMap Piece.text) }

def take (s : Scanner) (passed : Text) (step : ScanStep) : Scanner :=
  { s.advance passed step.pieces with embeddings := step.embeddings, depth := step.depth }

theorem pushed_pushed (s : Scanner) (before : Text) {left : List Piece} (right : List Piece)
    (htexts : left.flatMap Piece.text = text) :
    (s.pushed before left).pushed (before ++ text) right = s.pushed before (left ++ right) := by
  subst htexts
  simp only [pushed, Token.place_append, Position.after_append, List.append_assoc]

theorem advance_advance (s : Scanner) (passed : Text) {left : List Piece} (right : List Piece)
    (htexts : left.flatMap Piece.text = text) :
    (s.advance passed left).advance (passed ++ text) right = s.advance passed (left ++ right) := by
  have htokens := s.pushed_pushed passed right htexts
  simp only [pushed, Scanner.mk.injEq, true_and, and_true] at htokens
  simp [advance, pushed, ← htokens, htexts]

theorem advance_take (s : Scanner) (passed : Text) {left : List Piece} (step : ScanStep)
    (htexts : left.flatMap Piece.text = text) :
    (s.advance passed left).take (passed ++ text) step =
      s.take passed { step with pieces := left ++ step.pieces } := by
  rw [take, s.advance_advance passed step.pieces htexts]
  rfl

theorem At.advance (h : s.At passed (text ++ rest)) {pieces : List Piece}
    (htexts : pieces.flatMap Piece.text = text) :
    (s.advance passed pieces).At (passed ++ text) rest :=
  ⟨h.source_eq.trans (List.append_assoc ..).symm, h.index_eq, by rw [Scanner.advance, htexts]⟩

theorem take_emit (s : Scanner) (passed : Text) (kind : TokenKind) (text rest : Text) :
    s.take passed ((s.contextBehind passed).emit kind text rest) =
      s.advance passed [⟨kind, text⟩] :=
  rfl

/-! ## Looking at the source -/

theorem cut?_source (h : s.source = before ++ behind) :
    s.source.cut? before.byteSize = some (before, behind) := by
  rw [h, Text.cut?_append]

theorem slice?_source (h : s.source = before ++ (text ++ behind)) :
    s.source.slice? before.byteSize (before.byteSize + text.byteSize) = some text := by
  rw [h, Text.slice?_append]

theorem charAt_eq (h : s.source = before ++ behind) : s.charAt before.byteSize = behind.head? := by
  rw [charAt, cut?_source h]
  rfl

theorem charBefore?_eq (h : s.source = before ++ behind) :
    s.charBefore? before.byteSize = some before.getLast? := by
  rw [charBefore?, cut?_source h]
  rfl

theorem atLineStart?_eq (h : s.At passed rest) :
    s.atLineStart? = some (s.contextBehind passed).atLineStart := by
  rcases List.eq_nil_or_concat passed with rfl | ⟨before, c, rfl⟩
  · exact if_pos h.pos_eq
  · have hpos := c.utf8Size_pos
    have hsize : s.pos = byteSize before + c.utf8Size := by
      rw [h.pos_eq, List.concat_eq_append, Text.byteSize_append]
      rfl
    obtain ⟨byte, hbyte, hiff⟩ := Text.exists_byte_before (a := '\n') (by decide) before c rest
    have hsource : s.source = before ++ c :: rest := by simpa using h.source_eq
    rw [← hsource, ← hsize] at hbyte
    rw [atLineStart?, if_neg (by omega), sub?_of_le (by omega)]
    have hfeed : (byte == '\n'.toUInt8) = (c == '\n') := by
      rw [Bool.eq_iff_iff, beq_iff_eq, beq_iff_eq, hiff]
    simp only [Option.bind_eq_bind, Option.bind_some, hbyte, hfeed]
    simp [ScanContext.atLineStart, contextBehind]

theorem lineEnd?_eq (h : s.source = before ++ behind) :
    s.lineEnd? before.byteSize =
      some (before.byteSize + byteSize (behind.takeWhile (· != '\n'))) := by
  rw [lineEnd?, cut?_source h]
  by_cases hmem : '\n' ∈ behind
  · simp [Text.find?_eq_some hmem]
  · have hall := List.takeWhile_eq_self_iff.mpr (Text.bne_of_notMem hmem)
    simp [Text.find?_eq_none hmem, hall, size, h]

theorem contentEnd?_eq (h : s.source = before ++ behind) :
    s.contentEnd? before.byteSize = some (before.byteSize + byteSize behind.firstLine) := by
  have hsource := h
  rw [← List.takeWhile_append_dropWhile (p := (· != '\n')) (l := behind)] at hsource
  simp only [contentEnd?, lineEnd?_eq h, Option.bind_eq_bind, Option.bind_some, Text.firstLine]
  generalize behind.takeWhile (· != '\n') = line at hsource ⊢
  rcases List.eq_nil_or_concat line with rfl | ⟨front, c, rfl⟩
  · rw [if_neg (by simp)]
    rfl
  · have hpos := c.utf8Size_pos
    rw [List.concat_eq_append] at hsource ⊢
    obtain ⟨byte, hbyte, hiff⟩ := Text.exists_byte_before (a := '\r') (by decide)
      (before ++ front) c (behind.dropWhile (· != '\n'))
    have hsize : byteSize (front ++ [c]) = byteSize front + c.utf8Size := by simp
    have hline : s.source = (before ++ front) ++ c :: behind.dropWhile (· != '\n') := by
      simpa using hsource
    rw [← hline, Text.byteSize_append, Nat.add_assoc, ← hsize] at hbyte
    rw [if_pos (by omega), sub?_of_le (by omega)]
    simp only [Option.bind_some, hbyte, hiff]
    by_cases hc : c = '\r'
    · subst hc
      have hreturn : Char.utf8Size '\r' = 1 := by decide
      simp [Text.stripReturn, hreturn]
    · simp [Text.stripReturn, hc]

theorem min_lineEnd_eq (h : s.source = before ++ behind) :
    min (before.byteSize + byteSize (behind.takeWhile (· != '\n')) + 1) s.size =
      before.byteSize + byteSize (behind.firstLine ++ behind.firstEnding) := by
  have hfeed : Char.utf8Size '\n' = 1 := by decide
  have hsize : s.size = before.byteSize + byteSize (behind.takeWhile (· != '\n')) +
      byteSize (behind.dropWhile (· != '\n')) := by
    have hsplit := congrArg byteSize
      (List.takeWhile_append_dropWhile (p := (· != '\n')) (l := behind))
    rw [Text.byteSize_append] at hsplit
    rw [size, h, Text.byteSize_append, ← hsplit, Nat.add_assoc]
  have hline : behind.firstLine ++ behind.firstEnding =
      behind.takeWhile (· != '\n') ++ (behind.dropWhile (· != '\n')).take 1 := by
    rw [Text.firstEnding, ← List.append_assoc, Text.firstLine, Text.stripReturn_append_drop]
  rw [hline, Text.byteSize_append, hsize]
  cases hrest : behind.dropWhile (· != '\n') with
  | nil => simp
  | cons c more =>
      have hc := List.head_dropWhile_not (· != '\n') (l := behind) (by simp [hrest])
      obtain rfl : c = '\n' := by simpa [hrest] using hc
      simp only [Text.byteSize_cons, hfeed, List.take_succ_cons, List.take_zero, Text.byteSize_nil]
      omega

theorem closesOnLine?_eq (h : s.source = before ++ behind) (q : Char) :
    s.closesOnLine? before.byteSize q = some (Literal.closesOnLine q behind) := by
  have hsource := h
  rw [← List.takeWhile_append_dropWhile (p := (· != '\n')) (l := behind)] at hsource
  simp only [closesOnLine?, lineEnd?_eq h, slice?_source hsource, Option.bind_eq_bind,
    Option.bind_some]
  rfl

/-! ## Tokens -/

/-- The position that the index gives is the one behind the text before the place. -/
theorem position?_eq (hindex : s.index = s.source.lineStarts) (h : s.source = before ++ behind) :
    s.position? before.byteSize = some (Position.after ⟨s.firstLine, 0⟩ before) := by
  have hsplit := List.rdropWhile_append_rtakeWhile (p := (· != '\n')) (l := before)
  have hwhole : Text.IsWhole (before.rdropWhile (· != '\n')) := by
    by_cases hnil : before.rdropWhile (· != '\n') = []
    · exact .inl hnil
    · have hlast := List.rdropWhile_last_not (· != '\n') before hnil
      exact .inr (by rw [List.getLast?_eq_some_getLast hnil]; simpa using hlast)
  have hcolumn : (before.rtakeWhile (· != '\n')).count '\n' = 0 := by
    rw [List.count_eq_zero]
    intro hmem
    simpa using List.mem_rtakeWhile_imp hmem
  rw [Position.after_eq]
  generalize before.rdropWhile (· != '\n') = above, before.rtakeWhile (· != '\n') = passed
    at hsplit hwhole hcolumn ⊢
  subst hsplit
  have hstart : s.index[above.count '\n']? = some (byteSize above) := by
    have hcut := Text.cutAtLine?_append hwhole (passed ++ behind)
    rw [← List.append_assoc, ← h] at hcut
    have hline := Text.lineStart?_of_cutAtLine? hcut
    rwa [Text.lineStart?, if_neg (by simp [Text.lastLine]), ← hindex, Text.lastLine,
      Nat.add_sub_cancel_left] at hline
  have hline : Text.bisectLine? s.index (byteSize (above ++ passed)) =
      some (1 + above.count '\n') := by
    rw [hindex, Text.bisectLine?_lineStarts, h, Text.lineAt_append, Text.lastLine,
      List.count_append, hcolumn, Nat.add_zero]
  have hslice : s.source.slice? (byteSize above) (byteSize (above ++ passed)) = some passed := by
    rw [Text.byteSize_append]
    exact slice?_source (h.trans (List.append_assoc ..))
  have hnumber : s.firstLine + (1 + above.count '\n') - 1 = s.firstLine + above.count '\n' := by
    omega
  simp only [position?, hline, Option.bind_eq_bind, Option.bind_some,
    sub?_of_le (Nat.le_add_right 1 _), Nat.add_sub_cancel_left, hstart, hslice,
    sub?_of_le (show 1 ≤ s.firstLine + (1 + above.count '\n') by omega), hnumber,
    List.count_append, hcolumn, Nat.add_zero]
  rfl

theorem push?_eq (hindex : s.index = s.source.lineStarts)
    (h : s.source = before ++ (text ++ behind)) (kind : TokenKind) :
    s.push? before.byteSize (before.byteSize + text.byteSize) kind =
      some (s.pushed before [⟨kind, text⟩]) := by
  simp only [push?, position?_eq hindex h, slice?_source h, Option.bind_eq_bind, Option.bind_some]
  rfl

theorem pushNonempty?_eq (hindex : s.index = s.source.lineStarts)
    (h : s.source = before ++ (text ++ behind)) (kind : TokenKind) :
    s.pushNonempty? before.byteSize (before.byteSize + text.byteSize) kind =
      some (s.pushed before (pieceOf kind text)) := by
  unfold pushNonempty?
  split
  · rename_i hlt
    have hne : text ≠ [] := by
      rintro rfl
      simp at hlt
    rw [push?_eq hindex h, pieceOf_of_ne_nil kind hne]
  · rename_i hge
    have hlength := text.length_le_byteSize
    obtain rfl : text = [] := List.length_eq_zero_iff.mp (by omega)
    simp [pushed, pieceOf_nil, Token.place]

theorem emit?_eq (hindex : s.index = s.source.lineStarts)
    (h : s.source = before ++ (text ++ behind)) (kind : TokenKind) :
    s.emit? before.byteSize (before.byteSize + text.byteSize) kind =
      some { s.pushed before [⟨kind, text⟩] with pos := before.byteSize + text.byteSize } := by
  rw [emit?, push?_eq hindex h]
  rfl

theorem finish?_eq (hindex : s.index = s.source.lineStarts) (h : s.source = before ++ text) :
    s.finish? before.byteSize =
      some { s.pushed before (pieceOf .literalContent text) with pos := s.size } := by
  have hsize : s.size = before.byteSize + text.byteSize := by rw [size, h, Text.byteSize_append]
  have hsource : s.source = before ++ (text ++ []) := by rw [h, List.append_nil]
  rw [finish?, hsize, pushNonempty?_eq hindex hsource]
  rfl

/-! ## Lexemes -/

theorem emit?_take (h : s.At passed (text ++ rest)) (kind : TokenKind) :
    s.emit? s.pos (s.pos + text.byteSize) kind =
      some (s.take passed ((s.contextBehind passed).emit kind text rest)) := by
  rw [h.pos_eq, emit?_eq h.index_eq h.source_eq, take_emit]
  simp [advance, pushed]

theorem At.emit (h : s.At passed (text ++ rest)) (kind : TokenKind) :
    (s.advance passed [⟨kind, text⟩]).At (passed ++ text) rest :=
  h.advance (by simp)

theorem emit?_nonempty (h : s.At passed (text ++ rest)) (kind : TokenKind) :
    (if s.pos < s.pos + text.byteSize then s.emit? s.pos (s.pos + text.byteSize) kind
      else some s) =
      some (s.advance passed (pieceOf kind text)) := by
  split
  · rename_i hlt
    have hne : text ≠ [] := by
      rintro rfl
      simp at hlt
    rw [emit?_take h, take_emit, pieceOf_of_ne_nil kind hne]
  · rename_i hge
    have hlength := text.length_le_byteSize
    obtain rfl : text = [] := List.length_eq_zero_iff.mp (by omega)
    simp [advance, pushed, pieceOf_nil, Token.place, ← h.pos_eq]

theorem emit?_take_concat (h : s.At passed (text ++ c :: rest)) (hc : c.utf8Size = 1)
    (kind : TokenKind) : s.emit? s.pos (s.pos + text.byteSize + 1) kind =
      some (s.take passed ((s.contextBehind passed).emit kind (text ++ [c]) rest)) := by
  have hconcat : s.At passed ((text ++ [c]) ++ rest) := by simpa using h
  have hsize : s.pos + text.byteSize + 1 = s.pos + byteSize (text ++ [c]) := by
    simp [hc, Nat.add_assoc]
  rw [hsize, emit?_take hconcat]

theorem At.charAt_behind (h : s.At passed (text ++ rest)) :
    s.charAt (s.pos + text.byteSize) = rest.head? := by
  rw [h.pos_eq, ← Text.byteSize_append]
  exact charAt_eq (h.source_eq.trans (List.append_assoc ..).symm)

theorem At.charAt_next (h : s.At passed (text ++ c :: rest)) (hc : c.utf8Size = 1) :
    s.charAt (s.pos + text.byteSize + 1) = rest.head? := by
  have hconcat : s.At passed ((text ++ [c]) ++ rest) := by simpa using h
  have hsize : s.pos + text.byteSize + 1 = s.pos + byteSize (text ++ [c]) := by
    simp [hc, Nat.add_assoc]
  rw [hsize, hconcat.charAt_behind]

theorem At.slice? (h : s.At passed (text ++ rest)) :
    s.source.slice? s.pos (s.pos + text.byteSize) = some text := by
  rw [h.pos_eq, slice?_source h.source_eq]

theorem At.charBefore? (h : s.At passed rest) :
    s.charBefore? s.pos = some (s.contextBehind passed).previous := by
  rw [h.pos_eq, charBefore?_eq h.source_eq]
  rfl

theorem plainWord?_eq (h : s.At passed (text ++ rest)) :
    s.plainWord? s.pos (s.pos + text.byteSize) =
      some (s.take passed ((s.contextBehind passed).plainWord text rest)) := by
  rw [plainWord?, h.charAt_behind]
  by_cases hdot : rest.head? = some '.'
  · obtain ⟨more, rfl⟩ := List.head?_eq_some_iff.mp hdot
    rw [h.charAt_next (by decide), ScanContext.plainWord]
    split
    · rename_i halone
      rw [if_pos halone.2, emit?_take_concat h (by decide)]
    · rename_i halone
      rw [if_neg fun hmore => halone ⟨hdot, hmore⟩, emit?_take h]
  · rw [if_neg fun hboth => hdot hboth.1, emit?_take h]
    unfold ScanContext.plainWord
    split
    · simp at hdot
    · rfl

theorem keywordOrPlain?_eq (h : s.At passed (text ++ rest)) :
    s.keywordOrPlain? s.pos (s.pos + text.byteSize) =
      some (s.take passed ((s.contextBehind passed).keywordOrPlain s.grammar text rest)) := by
  simp only [keywordOrPlain?, h.slice?, Option.bind_eq_bind, Option.bind_some,
    ScanContext.keywordOrPlain]
  cases s.grammar.keywordRole text with
  | none => exact plainWord?_eq h
  | some role =>
      have hhead : s.context.atLineHead = (s.contextBehind passed).atLineHead := rfl
      simp only [hhead]
      split
      · exact emit?_take h _
      · exact plainWord?_eq h

theorem word?_eq (h : s.At passed (text ++ rest)) :
    s.word? s.pos (s.pos + text.byteSize) =
      some (s.take passed ((s.contextBehind passed).word s.grammar text rest)) := by
  rw [word?, h.charAt_behind]
  by_cases hcolon : rest.head? = some ':'
  · obtain ⟨more, rfl⟩ := List.head?_eq_some_iff.mp hcolon
    have hsecond (halone : standsAlone more.head? = true) : more.head? ≠ some ':' := by
      intro hhead
      rw [hhead] at halone
      exact absurd halone (by decide)
    rw [h.charAt_next (by decide), ScanContext.word]
    split
    · rename_i halone
      rw [if_pos halone.2.2, emit?_take_concat h (by decide)]
    · rename_i halone
      rw [if_neg fun hmore => halone ⟨hcolon, hsecond hmore, hmore⟩, keywordOrPlain?_eq h]
  · rw [if_neg fun hall => hcolon hall.1, keywordOrPlain?_eq h]
    unfold ScanContext.word
    split
    · simp at hcolon
    · rfl

theorem keywordRole_eq_blockSigil_iff (g : Grammar) (text : Text) :
    g.keywordRole text = some .blockSigil ↔ g.isBlockSigil text = true := by
  refine ⟨Grammar.isBlockSigil_of_keywordRole, fun h => ?_⟩
  unfold Grammar.isBlockSigil at h
  rw [Grammar.keywordRole, if_pos h]

theorem operator?_eq (h : s.At passed (text ++ rest)) :
    s.operator? s.pos (s.pos + text.byteSize) =
      some (s.take passed ((s.contextBehind passed).operator s.grammar text rest)) := by
  simp only [operator?, h.slice?, h.charBefore?, h.charAt_behind, Option.bind_eq_bind,
    Option.bind_some, keywordRole_eq_blockSigil_iff, ScanContext.operator,
    ScanContext.followsWordChar, Bool.and_eq_true]
  rw [emit?_take h, emit?_take h]
  split_ifs <;> simp_all only [↓reduceIte, Bool.false_eq_true]

theorem hashes?_eq (h : s.At passed (text ++ rest)) :
    s.hashes? s.pos (s.pos + text.byteSize) =
      some (s.take passed ((s.contextBehind passed).hashes s.grammar text rest)) := by
  simp only [hashes?, h.slice?, h.charAt_behind, Option.bind_eq_bind, Option.bind_some,
    keywordRole_eq_blockSigil_iff, ScanContext.hashes, Bool.and_eq_true]
  split <;> exact emit?_take h _

theorem sub?_add (a b : Nat) : sub? (a + b) a = some b := by
  rw [sub?_of_le (Nat.le_add_right ..), Nat.add_sub_cancel_left]

theorem dots?_eq (h : s.At passed (text ++ rest)) (hwidth : text.byteSize = text.length) :
    s.dots? s.pos (s.pos + text.byteSize) =
      some (s.take passed ((s.contextBehind passed).emit
        (if text.length = 1 then .period else .text) text rest)) := by
  simp only [dots?, sub?_add, Option.bind_eq_bind, Option.bind_some, emit?_take h]
  rw [hwidth]

theorem colons?_eq (h : s.At passed (text ++ rest)) (hwidth : text.byteSize = text.length) :
    s.colons? s.pos (s.pos + text.byteSize) =
      some (s.take passed ((s.contextBehind passed).colons s.grammar text rest)) := by
  simp only [colons?, h.charBefore?, h.charAt_behind, sub?_add, Option.bind_eq_bind,
    Option.bind_some, ScanContext.colons, ScanContext.followsWordChar, emit?_take h]
  rw [hwidth]
  split_ifs <;> simp_all only [↓reduceIte, Bool.false_eq_true]

end Scanner

end MarkupLayout

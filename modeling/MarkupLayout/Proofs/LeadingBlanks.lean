import MarkupLayout.Proofs.IndentedScan
import MarkupLayout.Proofs.Restart
import MarkupLayout.Proofs.TokenOffsets
/-!
# Other indentation, same tokens

Giving a line outside literals another indentation moves the tokens of this line to other columns,
and may add or remove a space.  Nothing else happens to the tokens of the document: those that are
not spaces keep their kinds, texts and lines, and those of the other lines keep their columns too.
-/

namespace MarkupLayout

/-! ## Positions on one line -/

namespace Position

theorem after_congr {p q : Position} (h : p.line = q.line) {t : Text} (ht : '\n' ∈ t) :
    p.after t = q.after t := by
  induction t generalizing p q with
  | nil => simp at ht
  | cons c t ih =>
      rw [after_cons, after_cons, next, next, h]
      by_cases hc : c = '\n'
      · simp only [hc, ↓reduceIte]
      · simp only [hc, ↓reduceIte]
        exact ih rfl (by simpa [Ne.symm hc] using ht)

end Position

namespace Token

def forgetColumn (token : Token) : Token :=
  { token with column := 0 }

variable {p q : Position}

theorem map_forgetColumn_place_congr (h : p.line = q.line) (pieces : List Piece) :
    (place p pieces).map forgetColumn = (place q pieces).map forgetColumn := by
  induction pieces generalizing p q with
  | nil => rfl
  | cons piece more ih =>
      have hnext : (p.after piece.text).line = (q.after piece.text).line := by
        rw [Position.line_after, Position.line_after, h]
      have hhead : (ofPiece p piece).forgetColumn = (ofPiece q piece).forgetColumn := by
        simp only [forgetColumn, ofPiece, h]
      rw [place, place, List.map_cons, List.map_cons, hhead, ih hnext]

theorem filter_place_congr (h : p.line = q.line) (pieces : List Piece) :
    (place p pieces).filter (·.line != p.line) = (place q pieces).filter (·.line != p.line) := by
  induction pieces generalizing p q with
  | nil => rfl
  | cons piece more ih =>
      have hp : ((ofPiece p piece).line != p.line) = false := by simp [ofPiece]
      have hq : ((ofPiece q piece).line != p.line) = false := by simp [ofPiece, h]
      rw [place, place, List.filter_cons_of_neg (by simp [hp]),
        List.filter_cons_of_neg (by simp [hq])]
      -- The piece either stays on the line or brings both to the same place.
      by_cases hbreak : '\n' ∈ piece.text
      · rw [Position.after_congr h hbreak]
      · have hstay (p : Position) : (p.after piece.text).line = p.line := by
          rw [Position.line_after, List.count_eq_zero.mpr hbreak, Nat.add_zero]
        have hrest := ih (p := p.after piece.text) (q := q.after piece.text)
          (by rw [hstay, hstay, h])
        rwa [hstay] at hrest

theorem map_forgetColumn_filter (tokens : List Token) :
    (tokens.filter (·.kind != .space)).map forgetColumn =
      (tokens.map forgetColumn).filter (·.kind != .space) := by
  rw [List.filter_map]
  rfl

theorem filter_place_pieceOf_space (p : Position) (w : Text) :
    (place p (pieceOf .space w)).filter (·.kind != .space) = [] := by
  unfold pieceOf
  split <;> rfl

theorem filter_line_place_pieceOf (p : Position) (kind : TokenKind) (w : Text) :
    (place p (pieceOf kind w)).filter (·.line != p.line) = [] := by
  unfold pieceOf
  split
  · rfl
  · simp [place, ofPiece]

end Token

/-! ## Replacing an indentation -/

def Document.replaceLeading (doc : Document) (p : Nat) (w : Text) : Document :=
  doc.replace p (p + (doc.text.between p doc.size).leading.byteSize) w

theorem Document.text_replaceLeading (doc : Document) {above below : Text} (w : Text)
    (h : doc.text = above ++ below) :
    (doc.replaceLeading above.byteSize w).text =
      above ++ (w ++ below.dropWhile Text.isIndentChar) := by
  have hbelow : doc.text.between above.byteSize doc.size = below := by
    have hbetween := Text.between_append above below []
    rw [List.append_nil] at hbetween
    rw [size, h, hbetween]
  rw [replaceLeading, hbelow]
  apply text_replace
  rw [h, Text.leading_append]

/-- Outside literals, the tokens of a text with an indented line are those above the line, at most
one space, and pieces that are moved along the line. -/
theorem exists_tokenize_indent_of_closed {g : Grammar} (hg : g.LineEmbedding) {above : Text}
    (hwhole : above.IsWhole) (hclosed : Literal.isOpenAfter g above = false) (firstLine : Nat) :
    ∃ ctx, ctx.WellQuoted ∧ ∀ w r : Text, w.all Text.isIndentChar = true → r.StartsVisibly →
      tokenize g (above ++ (w ++ r)) firstLine = tokenize g above firstLine ++
        (Token.place ⟨firstLine + above.count '\n', 0⟩ (pieceOf .space w) ++
          Token.place ⟨firstLine + above.count '\n', w.length⟩ (scanFrom g ctx r)) := by
  obtain ⟨ctx, hctx, -, hscan⟩ := Text.exists_scan_indent_of_closed hg hwhole hclosed
  refine ⟨ctx, hctx, fun w r hw hr => ?_⟩
  have hline : Position.after ⟨firstLine + above.count '\n', 0⟩ w =
      ⟨firstLine + above.count '\n', w.length⟩ := by
    have hall : ∀ c ∈ w, (c != '\n') = true := Text.bne_lineFeed_of_isIndentChar hw
    rw [Position.after_eq, Text.count_of_isIndentChar hw, List.rtakeWhile_eq_self_iff.mpr hall,
      Nat.add_zero]
  rw [tokenize, hscan w r hw hr, Token.place_append, Token.place_append, flatMap_text_pieceOf,
    scan, flatMap_text_scanFrom, Position.after_isWhole firstLine hwhole, hline]
  rfl

/-- The indentation of a line outside literals has no lexical meaning: with other spaces and tabs in
its place, the tokens that are not spaces have the same kinds, texts and lines, and the tokens that
start on other lines are the same. -/
theorem Document.tokenize_replaceLeading {g : Grammar} (hg : g.LineEmbedding) (doc : Document)
    (p : Nat) (hp : p ∈ doc.text.lineStarts)
    (hclosed : Literal.isOpenAfter g (doc.text.between 0 p) = false) (w : Text)
    (hw : w.all Text.isIndentChar = true) (firstLine : Nat) :
    ((tokenize g (doc.replaceLeading p w).text firstLine).filter (·.kind != .space)).map
        Token.forgetColumn =
      ((tokenize g doc.text firstLine).filter (·.kind != .space)).map Token.forgetColumn ∧
    (tokenize g (doc.replaceLeading p w).text firstLine).filter
        (·.line != firstLine + (doc.text.between 0 p).count '\n') =
      (tokenize g doc.text firstLine).filter
        (·.line != firstLine + (doc.text.between 0 p).count '\n') := by
  obtain ⟨above, below, htext, hwhole, rfl⟩ := Text.mem_lineStarts_iff.mp hp
  have habove : doc.text.between 0 above.byteSize = above := by
    rw [htext, Text.between_zero_append]
  rw [habove] at hclosed ⊢
  obtain ⟨ctx, -, htokens⟩ := exists_tokenize_indent_of_closed hg hwhole hclosed firstLine
  have hbody := Text.startsVisibly_dropWhile below
  have hold := htokens below.leading _ (by simp [Text.leading]) hbody
  have hnew := htokens w _ hw hbody
  rw [Text.leading_append, ← htext] at hold
  rw [← doc.text_replaceLeading w htext] at hnew
  rw [hnew, hold]
  have hmoved (line : Nat) : (⟨line, w.length⟩ : Position).line =
      (⟨line, below.leading.length⟩ : Position).line := rfl
  constructor
  · simp only [List.filter_append, List.map_append, Token.filter_place_pieceOf_space,
      Token.map_forgetColumn_filter, Token.map_forgetColumn_place_congr (hmoved _)]
  · have hspace (w : Text) := Token.filter_line_place_pieceOf
      ⟨firstLine + above.count '\n', 0⟩ .space w
    rw [List.filter_append, List.filter_append, hspace, Token.filter_place_congr (hmoved _),
      List.filter_append, List.filter_append, hspace]

theorem Document.tokenize_replaceLeading_in_bracket :
    ((tokenize .markdown "(a\n\t* b)\n".toList 1).filter (·.kind != .space)).map
        Token.forgetColumn =
      ((tokenize .markdown "(a\n  * b)\n".toList 1).filter (·.kind != .space)).map
        Token.forgetColumn ∧
    (tokenize .markdown "(a\n\t* b)\n".toList 1).filter (·.line != 2) =
      (tokenize .markdown "(a\n  * b)\n".toList 1).filter (·.line != 2) := by
  have habove : Text.between "(a\n  * b)\n".toList 0 3 = "(a\n".toList := by decide
  have hedited : (Document.replaceLeading (.ofText "a" "(a\n  * b)\n".toList .default) 3
      ['\t']).text = "(a\n\t* b)\n".toList := by decide
  have hsame := Document.tokenize_replaceLeading Grammar.markdown_soundEmbedding.toLineEmbedding
    (.ofText "a" "(a\n  * b)\n".toList .default) 3 (by decide)
    (by simp only [ofText, habove]; decide +kernel) ['\t'] (by decide) 1
  rw [hedited] at hsame
  simp only [ofText, habove] at hsame
  exact hsame

end MarkupLayout

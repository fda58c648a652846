import MarkupLayout.Proofs.IndentInLiterals
import MarkupLayout.Proofs.LeadingBlanks
import MarkupLayout.Proofs.Scopes
/-!
# Landmarks

What the tokens of a text say about its layout, apart from how its lines are indented: their kinds,
lines and marks, what stands before them on their lines behind the indentation, and whether
something stands behind them.  Two texts whose lines agree behind the indentation have the same
landmarks, be the lines in literals or not.
-/

namespace MarkupLayout

open Nesting (Mark mark marks)

/-! ## Definitions -/

/-- The token without its column, and without the text it may have taken from a literal. -/
def Token.faded (token : Token) : Token :=
  { token with column := 0, text := if token.kind.isLiteralText then [] else token.text }

/-- What stands on the last line of a text behind the indentation. -/
def Text.lastBody (t : Text) : Text :=
  (t.rtakeWhile (· != '\n')).dropWhile isIndentChar

namespace Neighbourhood

def inner (n : Neighbourhood) : Text :=
  Text.lastBody (n.before.reverse.flatMap Token.text)

def leads (n : Neighbourhood) : Bool :=
  (n.behind.takeWhile (!·.kind.isLineBreak)).any (!·.kind.isTrivia)

end Neighbourhood

/-- What a token says about the layout, however the lines are indented. -/
structure Landmark where
  token : Token
  inner : Text
  leads : Bool
  mark : Mark
deriving DecidableEq, Repr

def Neighbourhood.landmark (g : Grammar) (n : Neighbourhood) : Landmark :=
  ⟨n.token.faded, n.inner, n.leads, mark g n⟩

def Neighbourhood.visible (tokens : List Token) : List Neighbourhood :=
  (all tokens).filter (·.token.kind != .space)

def landmarks (g : Grammar) (tokens : List Token) : List Landmark :=
  (Neighbourhood.visible tokens).map (Neighbourhood.landmark g)

theorem Token.keepsMarks_faded : Token.KeepsMarks Token.faded where
  line := fun _ => rfl
  kind := fun _ => rfl
  text := fun t h => by simp [Token.faded, h, TokenKind.isLiteralText]

/-! ## Landmarks by their parts -/

namespace Neighbourhood

theorem map_token_allFrom (before tokens : List Token) :
    (allFrom before tokens).map token = tokens := by
  induction tokens generalizing before with
  | nil => rfl
  | cons t tokens ih => rw [allFrom, List.map_cons, ih]

theorem map_token_visible (tokens : List Token) :
    (visible tokens).map token = tokens.filter (·.kind != .space) := by
  rw [visible, ← map_token_allFrom [] tokens, List.filter_map, map_token_allFrom]
  rfl

def leadsTo (kinds : List TokenKind) : Bool :=
  (kinds.takeWhile (!·.isLineBreak)).any (!·.isTrivia)

def leadsFrom : List TokenKind → List Bool
  | [] => []
  | _ :: kinds => leadsTo kinds :: leadsFrom kinds

theorem leadsTo_filter (tokens : List Token) :
    leadsTo ((tokens.filter (·.kind != .space)).map Token.kind) =
      (tokens.takeWhile (!·.kind.isLineBreak)).any (!·.kind.isTrivia) := by
  induction tokens with
  | nil => rfl
  | cons t tokens ih =>
      by_cases hspace : t.kind = .space
      · rw [List.filter_cons_of_neg (by simp [hspace]), ih, List.takeWhile_cons_of_pos
          (by simp [hspace, TokenKind.isLineBreak])]
        simp [hspace, TokenKind.isTrivia]
      · rw [List.filter_cons_of_pos (by simpa using hspace), List.map_cons, List.takeWhile_cons]
        cases hbreak : t.kind.isLineBreak with
        | true => simp [leadsTo, hbreak]
        | false =>
            rw [leadsTo] at ih
            simp [leadsTo, hbreak, ih]

theorem map_leads_visible (tokens : List Token) :
    (visible tokens).map leads =
      leadsFrom ((tokens.filter (·.kind != .space)).map Token.kind) := by
  have hfrom (before : List Token) :
      ((allFrom before tokens).filter (·.token.kind != .space)).map leads =
        leadsFrom ((tokens.filter (·.kind != .space)).map Token.kind) := by
    induction tokens generalizing before with
    | nil => rfl
    | cons t tokens ih =>
        rw [allFrom]
        by_cases hspace : t.kind = .space
        · rw [List.filter_cons_of_neg (by simp [hspace]), List.filter_cons_of_neg
            (by simp [hspace]), ih]
        · rw [List.filter_cons_of_pos (by simpa using hspace), List.filter_cons_of_pos
            (by simpa using hspace), List.map_cons, List.map_cons, ih, leadsFrom, leadsTo_filter]
          rfl
  exact hfrom []

/-- What stands on their lines before the pieces that are not spaces, `t` being the text before the
first of them. -/
def innersFrom (t : Text) : List Piece → List Text
  | [] => []
  | piece :: more =>
    if piece.kind = .space then innersFrom (t ++ piece.text) more
    else t.lastBody :: innersFrom (t ++ piece.text) more

theorem map_inner_visible (tokens : List Token) :
    (visible tokens).map inner = innersFrom [] (tokens.map Token.piece) := by
  have hfrom (before : List Token) :
      ((allFrom before tokens).filter (·.token.kind != .space)).map inner =
        innersFrom (before.reverse.flatMap Token.text) (tokens.map Token.piece) := by
    induction tokens generalizing before with
    | nil => rfl
    | cons t tokens ih =>
        have hmore := ih (t :: before)
        rw [List.reverse_cons, List.flatMap_append, List.flatMap_singleton] at hmore
        rw [allFrom, List.map_cons, innersFrom]
        by_cases hspace : t.piece.kind = .space
        · rw [List.filter_cons_of_neg (by simpa [Token.piece] using hspace), if_pos hspace]
          exact hmore
        · rw [List.filter_cons_of_pos (by simpa [Token.piece] using hspace), if_neg hspace,
            List.map_cons, hmore]
          rfl
  exact hfrom []

def visibleMarks (g : Grammar) (tokens : List Token) : List Mark :=
  (((tokens.map Token.kind).zip (marks g tokens)).filter (·.1 != .space)).map Prod.snd

theorem map_mark_visible (g : Grammar) (tokens : List Token) :
    (visible tokens).map (mark g) = visibleMarks g tokens := by
  have hzip : (tokens.map Token.kind).zip (marks g tokens) =
      (all tokens).map fun n => (n.token.kind, mark g n) := by
    have hkinds : tokens.map Token.kind = (all tokens).map (·.token.kind) := by
      rw [← Function.comp_def Token.kind token, ← List.map_map, all, map_token_allFrom]
    rw [hkinds, marks, List.zip_map']
  rw [visible, visibleMarks, hzip, List.filter_map, List.map_map]
  rfl

theorem map_landmark_congr {g : Grammar} {ns ns' : List Neighbourhood}
    (htoken : ns.map (·.token.faded) = ns'.map (·.token.faded))
    (hinner : ns.map inner = ns'.map inner) (hleads : ns.map leads = ns'.map leads)
    (hmark : ns.map (mark g) = ns'.map (mark g)) :
    ns.map (landmark g) = ns'.map (landmark g) := by
  induction ns generalizing ns' with
  | nil =>
      obtain rfl : ns' = [] := List.map_eq_nil_iff.mp htoken.symm
      rfl
  | cons n ns ih =>
      cases ns' with
      | nil => simp at htoken
      | cons n' ns' =>
          simp only [List.map_cons, List.cons.injEq] at htoken hinner hleads hmark ⊢
          refine ⟨?_, ih htoken.2 hinner.2 hleads.2 hmark.2⟩
          rw [landmark, htoken.1, hinner.1, hleads.1, hmark.1, landmark]

end Neighbourhood

/-! ## Another indentation -/

namespace Text

variable {x w p : Text}

theorem rtakeWhile_append_of_mem (h : '\n' ∈ p) (y : Text) :
    (y ++ p).rtakeWhile (· != '\n') = p.rtakeWhile (· != '\n') := by
  simp only [List.rtakeWhile, List.reverse_append]
  rw [List.takeWhile_append, if_neg]
  intro hlength
  have heq := (List.takeWhile_prefix (· != '\n') (l := p.reverse)).eq_of_length hlength
  rw [← List.mem_reverse, ← heq] at h
  simpa using List.mem_takeWhile_imp h

theorem rtakeWhile_append_of_isWhole (hx : x.IsWhole) (h : '\n' ∉ p) :
    (x ++ p).rtakeWhile (· != '\n') = p := by
  have hp : '\n' ∉ p.reverse := fun hmem => h (List.mem_reverse.mp hmem)
  have hend : x.reverse.takeWhile (· != '\n') = [] := by
    rcases hx with rfl | hlast
    · rfl
    · obtain ⟨before, rfl⟩ := List.getLast?_eq_some_iff.mp hlast
      simp
  rw [List.rtakeWhile, List.reverse_append, Text.takeWhile_append_of_notMem hp, hend,
    List.append_nil, List.reverse_reverse]

theorem lastBody_indent (hx : x.IsWhole) (hw : w.all isIndentChar = true)
    (hp : p.StartsVisibly) : lastBody (x ++ (w ++ p)) = lastBody (x ++ p) := by
  by_cases hbreak : '\n' ∈ p
  · rw [lastBody, ← List.append_assoc, rtakeWhile_append_of_mem hbreak, lastBody,
      rtakeWhile_append_of_mem hbreak]
  · have hindent : '\n' ∉ w := fun hmem => by
      simpa using bne_lineFeed_of_isIndentChar hw _ hmem
    have hlong : '\n' ∉ w ++ p := by simp [hbreak, hindent]
    rw [lastBody, rtakeWhile_append_of_isWhole hx hlong, dropWhile_isIndentChar_append hw hp,
      lastBody, rtakeWhile_append_of_isWhole hx hbreak]
    exact (dropWhile_isIndentChar_append (w := []) rfl hp).symm

theorem StartsVisibly.of_append {s t : Text} (h : StartsVisibly (s ++ t)) : s.StartsVisibly := by
  intro c hc
  apply h
  rw [List.head?_append, Option.mem_def.mp hc]
  rfl

end Text

namespace Neighbourhood

theorem innersFrom_append (t : Text) (left right : List Piece) :
    innersFrom t (left ++ right) =
      innersFrom t left ++ innersFrom (t ++ left.flatMap Piece.text) right := by
  induction left generalizing t with
  | nil => simp [innersFrom]
  | cons piece left ih =>
      rw [List.cons_append, innersFrom, innersFrom, ih, List.flatMap_cons, List.append_assoc]
      split <;> rfl

theorem innersFrom_indent {x w p : Text} (hx : x.IsWhole) (hw : w.all Text.isIndentChar = true)
    {pieces : List Piece} (hp : Text.StartsVisibly (p ++ pieces.flatMap Piece.text)) :
    innersFrom (x ++ (w ++ p)) pieces = innersFrom (x ++ p) pieces := by
  induction pieces generalizing p with
  | nil => rfl
  | cons piece pieces ih =>
      rw [List.flatMap_cons, ← List.append_assoc] at hp
      have hmore := ih hp
      rw [innersFrom, innersFrom, Text.lastBody_indent hx hw hp.of_append.of_append]
      simp only [List.append_assoc] at hmore ⊢
      rw [hmore]

theorem innersFrom_pieceOf_space (t w : Text) : innersFrom t (pieceOf .space w) = [] := by
  unfold pieceOf
  split
  · rfl
  · simp [innersFrom]

end Neighbourhood

namespace Nesting

variable (g : Grammar) {space : Token}

theorem mark_concat_space (h : space.kind = .space) (before : List Token) (t : Token)
    (behind : List Token) : mark g ⟨before ++ [space], t, behind⟩ = mark g ⟨before, t, behind⟩ := by
  have hsymbol : Neighbourhood.isSymbol ⟨before ++ [space], t, behind⟩ =
      Neighbourhood.isSymbol ⟨before, t, behind⟩ := by
    unfold Neighbourhood.isSymbol
    cases before with
    | nil => simp [h]
    | cons first before => rfl
  have hmodifier : Neighbourhood.isModifier ⟨before ++ [space], t, behind⟩ =
      Neighbourhood.isModifier ⟨before, t, behind⟩ := by
    simp only [Neighbourhood.isModifier]
    rw [List.takeWhile_append]
    split
    · rename_i hlength
      have hspace : ([space].takeWhile fun u => u.line == t.line && !u.kind.isLineBreak).any
          (!Neighbourhood.mayPrecedeOpener ·.kind) = false := by
        rw [List.takeWhile_cons]
        split <;> simp [h, Neighbourhood.mayPrecedeOpener, TokenKind.isTrivia]
      rw [List.any_append, hspace, Bool.or_false, (List.takeWhile_prefix _).eq_of_length hlength]
    · rfl
  unfold mark Neighbourhood.opensBlock
  rw [hsymbol, hmodifier]
  rfl

theorem marks_cons_space (h : space.kind = .space) (tokens : List Token) :
    marks g (space :: tokens) = .neutral :: marks g tokens := by
  have hfrom (before : List Token) : (Neighbourhood.allFrom (before ++ [space]) tokens).map
      (mark g) = (Neighbourhood.allFrom before tokens).map (mark g) := by
    induction tokens generalizing before with
    | nil => rfl
    | cons t tokens ih =>
        rw [Neighbourhood.allFrom, List.map_cons, mark_concat_space g h, ← List.cons_append, ih]
        rfl
  have hspace : mark g ⟨[], space, tokens⟩ = .neutral := by simp [mark, h]
  rw [marks, Neighbourhood.all, Neighbourhood.allFrom, List.map_cons, hspace]
  exact congrArg _ (hfrom [])

end Nesting

namespace Neighbourhood

variable (g : Grammar)

theorem visibleMarks_append {left : List Token} (h : Nesting.EndsLine left) (right : List Token) :
    visibleMarks g (left ++ right) = visibleMarks g left ++ visibleMarks g right := by
  have hlength : (left.map Token.kind).length = (marks g left).length := by
    rw [List.length_map, Nesting.length_marks]
  rw [visibleMarks, Nesting.marks_append g h, List.map_append, List.zip_append hlength,
    List.filter_append, List.map_append]
  rfl

theorem visibleMarks_space (p : Position) (w : Text) (tokens : List Token) :
    visibleMarks g (Token.place p (pieceOf .space w) ++ tokens) = visibleMarks g tokens := by
  unfold pieceOf
  split
  · rfl
  · rw [Token.place, Token.place, List.singleton_append, visibleMarks,
      Nesting.marks_cons_space g rfl]
    rfl

theorem visibleMarks_congr {tokens tokens' : List Token}
    (h : tokens.map Token.faded = tokens'.map Token.faded) :
    visibleMarks g tokens = visibleMarks g tokens' := by
  have hkinds (tokens : List Token) :
      (tokens.map Token.faded).map Token.kind = tokens.map Token.kind := by
    rw [List.map_map]
    rfl
  rw [visibleMarks, ← hkinds, ← Token.keepsMarks_faded.marks_map, h, hkinds,
    Token.keepsMarks_faded.marks_map, visibleMarks]

end Neighbourhood

theorem landmarks_congr {g : Grammar} {tokens tokens' : List Token}
    (htokens : (tokens.filter (·.kind != .space)).map Token.faded =
      (tokens'.filter (·.kind != .space)).map Token.faded)
    (hinners : Neighbourhood.innersFrom [] (tokens.map Token.piece) =
      Neighbourhood.innersFrom [] (tokens'.map Token.piece))
    (hmarks : Neighbourhood.visibleMarks g tokens = Neighbourhood.visibleMarks g tokens') :
    landmarks g tokens = landmarks g tokens' := by
  have hkinds (tokens : List Token) : (tokens.filter (·.kind != .space)).map Token.kind =
      ((tokens.filter (·.kind != .space)).map Token.faded).map Token.kind := by
    rw [List.map_map]
    rfl
  have hfaded (tokens : List Token) : (Neighbourhood.visible tokens).map (·.token.faded) =
      (tokens.filter (·.kind != .space)).map Token.faded := by
    rw [← Neighbourhood.map_token_visible, List.map_map]
    rfl
  apply Neighbourhood.map_landmark_congr
  · rw [hfaded, hfaded, htokens]
  · rw [Neighbourhood.map_inner_visible, Neighbourhood.map_inner_visible, hinners]
  · rw [Neighbourhood.map_leads_visible, Neighbourhood.map_leads_visible, hkinds, htokens,
      ← hkinds]
  · rw [Neighbourhood.map_mark_visible, Neighbourhood.map_mark_visible, hmarks]

/-! ## The lines of a text -/

variable {g : Grammar} {x w r : Text}

theorem Token.map_faded_place_congr {p q : Position} (h : p.line = q.line) (pieces : List Piece) :
    (place p pieces).map faded = (place q pieces).map faded := by
  have hfaded (p : Position) : (place p pieces).map faded =
      ((place p pieces).map forgetColumn).map faded := by
    rw [List.map_map]
    rfl
  rw [hfaded, map_forgetColumn_place_congr h, ← hfaded]

theorem Token.map_faded_filter (tokens : List Token) :
    (tokens.filter (·.kind != .space)).map faded =
      (tokens.map faded).filter (·.kind != .space) := by
  rw [List.filter_map]
  rfl

theorem landmarks_indent_of_closed (hg : g.LineEmbedding) (hx : x.IsWhole)
    (hclosed : Literal.isOpenAfter g x = false) (hw : w.all Text.isIndentChar = true)
    (hr : r.StartsVisibly) (firstLine : Nat) :
    landmarks g (tokenize g (x ++ (w ++ r)) firstLine) =
      landmarks g (tokenize g (x ++ r) firstLine) := by
  obtain ⟨ctx, -, hscan⟩ := exists_tokenize_indent_of_closed hg hx hclosed firstLine
  have hlong := hscan w r hw hr
  have hshort := hscan [] r rfl hr
  rw [List.nil_append] at hshort
  have hmoved := Token.map_faded_place_congr
    (p := ⟨firstLine + x.count '\n', w.length⟩) (q := ⟨firstLine + x.count '\n', 0⟩) rfl
    (scanFrom g ctx r)
  have hspace : ([] : Text).length = 0 := rfl
  rw [hlong, hshort, hspace]
  apply landmarks_congr
  · simp only [List.filter_append, List.map_append, Token.filter_place_pieceOf_space,
      Token.map_faded_filter, hmoved]
  · have hpieces : (tokenize g x firstLine).map Token.piece = scan g x := Token.map_piece_place ..
    have htext : (scan g x).flatMap Piece.text = x := flatMap_text_scanFrom ..
    have hvisible : Text.StartsVisibly ([] ++ (scanFrom g ctx r).flatMap Piece.text) := by
      rwa [List.nil_append, flatMap_text_scanFrom]
    have hindent := Neighbourhood.innersFrom_indent hx hw hvisible
    simp only [List.map_append, Token.map_piece_place, hpieces, Neighbourhood.innersFrom_append,
      Neighbourhood.innersFrom_pieceOf_space, flatMap_text_pieceOf, List.nil_append, htext]
    rw [List.append_nil] at hindent
    rw [hindent]
  · rw [Neighbourhood.visibleMarks_append g (Nesting.endsLine_tokenize_of_closed hg hx hclosed _),
      Neighbourhood.visibleMarks_append g (Nesting.endsLine_tokenize_of_closed hg hx hclosed _),
      Neighbourhood.visibleMarks_space, Neighbourhood.visibleMarks_space,
      Neighbourhood.visibleMarks_congr g hmoved]

theorem landmarks_indent_of_open (hg : g.VisibleEmbedding) (hx : x.IsWhole)
    (hopen : Literal.isOpenAfter g x = true) (hw : w.all Text.isIndentChar = true)
    (hne : r ≠ []) (hr : r.StartsVisibly) (firstLine : Nat) :
    landmarks g (tokenize g (x ++ (w ++ r)) firstLine) =
      landmarks g (tokenize g (x ++ r) firstLine) := by
  obtain ⟨head, kind, before, behind, later, hkind, hbefore, hbehind, hscan⟩ :=
    Text.exists_scan_indent_of_open hg hx hopen hne
  have hlong := hscan w hw
  have hshort := hscan [] rfl
  rw [List.nil_append] at hshort
  -- The piece that holds the indentation fades, and those behind it stay on their lines.
  have hfaded : (tokenize g (x ++ (w ++ r)) firstLine).map Token.faded =
      (tokenize g (x ++ r) firstLine).map Token.faded := by
    have hcount : (before ++ (w ++ behind)).count '\n' = (before ++ behind).count '\n' := by
      rw [List.count_append, List.count_append, List.count_append, Text.count_of_isIndentChar hw,
        Nat.zero_add]
    have hlater := Token.map_faded_place_congr
      (p := ((⟨firstLine, 0⟩ : Position).after (head.flatMap Piece.text)).after
        (before ++ (w ++ behind)))
      (q := ((⟨firstLine, 0⟩ : Position).after (head.flatMap Piece.text)).after (before ++ behind))
      (by simp only [Position.line_after, hcount]) later
    rw [tokenize, hlong, tokenize, hshort, List.nil_append]
    simp only [Token.place_append, Token.place, List.map_append, List.map_cons, hlater]
    simp [Token.faded, Token.ofPiece, hkind]
  apply landmarks_congr
  · rw [Token.map_faded_filter, hfaded, ← Token.map_faded_filter]
  · have hspace : kind ≠ .space := by
      rintro rfl
      simp [TokenKind.isLiteralText] at hkind
    have hinners (w : Text) : Neighbourhood.innersFrom []
        (head ++ ⟨kind, before ++ (w ++ behind)⟩ :: later) =
          Neighbourhood.innersFrom [] head ++ Text.lastBody (head.flatMap Piece.text) ::
            Neighbourhood.innersFrom (x ++ (w ++ behind)) later := by
      rw [Neighbourhood.innersFrom_append, Neighbourhood.innersFrom, if_neg hspace,
        List.nil_append, ← List.append_assoc, hbefore]
    have hindent := Neighbourhood.innersFrom_indent hx hw (hbehind.symm ▸ hr)
    rw [tokenize, Token.map_piece_place, hlong, hinners, hindent, tokenize, Token.map_piece_place,
      hshort, hinners, List.nil_append]
  · exact Neighbourhood.visibleMarks_congr g hfaded

/-- Whether a line is in a literal or not, its indentation does not show in the landmarks. -/
theorem landmarks_indent (hg : g.VisibleEmbedding) (hx : x.IsWhole)
    (hw : w.all Text.isIndentChar = true) (hne : r ≠ []) (hr : r.StartsVisibly)
    (firstLine : Nat) :
    landmarks g (tokenize g (x ++ (w ++ r)) firstLine) =
      landmarks g (tokenize g (x ++ r) firstLine) := by
  cases hopen : Literal.isOpenAfter g x with
  | true => exact landmarks_indent_of_open hg hx hopen hw hne hr firstLine
  | false => exact landmarks_indent_of_closed hg.toLineEmbedding hx hopen hw hr firstLine

/-- The lines with their indentation taken away. -/
def Text.flush (ls : List Text) : List Text :=
  ls.map (·.dropWhile isIndentChar)

theorem landmarks_flush (hg : g.VisibleEmbedding) (ls : List Text) (firstLine : Nat) :
    landmarks g (tokenize g (Text.wholeLines ls) firstLine) =
      landmarks g (tokenize g (Text.wholeLines (Text.flush ls)) firstLine) := by
  have hbelow (above : List Text) : landmarks g
      (tokenize g (Text.wholeLines (above ++ ls)) firstLine) =
        landmarks g (tokenize g (Text.wholeLines (above ++ Text.flush ls)) firstLine) := by
    induction ls generalizing above with
    | nil => rfl
    | cons line ls ih =>
        have hfeed : Text.StartsVisibly ('\n' :: Text.wholeLines ls) := by
          intro c hc
          obtain rfl : '\n' = c := by simpa using hc
          rfl
        have hline := landmarks_indent hg (Text.isWhole_wholeLines above)
          (Text.all_isIndentChar_leading line) (by simp)
          (Text.startsVisibly_dropWhile_append line hfeed) firstLine
        have hmore := ih (above ++ [line.dropWhile Text.isIndentChar])
        simp only [Text.wholeLines_append, Text.wholeLines_cons, List.append_assoc,
          Text.flush, List.map_cons, ← List.append_assoc line.leading, Text.leading_append,
          List.cons_append, List.nil_append] at hline hmore ⊢
        rw [hline, hmore]
  exact hbelow []

theorem Literal.isOpenAfter_congr_landmarks {s t : Text}
    (h : landmarks g (tokenize g s 1) = landmarks g (tokenize g t 1)) :
    Literal.isOpenAfter g s = Literal.isOpenAfter g t := by
  have hkinds (t : Text) : (landmarks g (tokenize g t 1)).map (·.token.kind) =
      ((scan g t).filter (·.kind != .space)).map Piece.kind := by
    rw [← Token.map_piece_place ⟨1, 0⟩ (scan g t), List.filter_map, List.map_map, landmarks,
      List.map_map]
    change (Neighbourhood.visible (tokenize g t 1)).map (Token.kind ∘ Neighbourhood.token) = _
    rw [← List.map_map, Neighbourhood.map_token_visible]
    rfl
  rw [isOpenAfter_eq, ← openFrames_filter, ← hkinds, h, hkinds, openFrames_filter, isOpenAfter_eq]

end MarkupLayout

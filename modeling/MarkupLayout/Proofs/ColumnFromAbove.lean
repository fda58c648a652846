import MarkupLayout.Document.Search
import MarkupLayout.Proofs.LiteralLines
import MarkupLayout.Proofs.RegionLines
import MarkupLayout.Proofs.TokenOffsets
/-!
# Nothing below a line has a part in its column

The column of a line can be found by looks into the whole document: searches back from an offset,
texts between offsets, and lines by their numbers.  This module shows that all these looks go to the
text above the line, so that two documents which agree there give the line the same column, or the
same error.
-/

namespace MarkupLayout

/-! ## Looks into the whole document -/

namespace Document

/-- The nearest sigil line outside literals that starts before an offset. -/
def searchAnchor? (g : Grammar) (doc : Document) (limit : Nat) : Option Found :=
  match doc.searchBackward g.sigilLine limit with
  | none => none
  | some found =>
    if Literal.isOpenAfter g (doc.text.between 0 found.start) then
      if found.start < limit then doc.searchAnchor? g found.start else none
    else some found
termination_by limit

/-- The span that decides about the line which starts at an offset. -/
def surveyBefore (g : Grammar) (doc : Document) (start : Nat) : Indentation.Survey :=
  match doc.searchAnchor? g start with
  | some found =>
    ⟨some ⟨doc.text.between 0 found.start, (doc.capture? found 1).getD []⟩,
      tokenize g (doc.text.between found.start start) (doc.lineAt found.start)⟩
  | none => ⟨none, tokenize g (doc.text.between 0 start) 1⟩

/-- The column of a line, by looks into the whole document. -/
def lookUpColumn (g : Grammar) (doc : Document) (line : Nat) :
    Except MalformedNesting (Option Nat) :=
  if line ≤ 1 then .ok (some 0)
  else
    match doc.text.lineStart? line with
    | none => .ok none
    | some start =>
      let sigil := (doc.text.lineText? line).any g.sigilLine.occursIn
      let s := doc.surveyBefore g start
      if s.endsInLiteral then .ok none
      else
        match Nesting.enclosingScope g s.tokens with
        | .error mismatch => .error ⟨doc.name, mismatch.line, mismatch.token⟩
        | .ok scope =>
          ((Indentation.columnIn g doc.style doc.text sigil s scope).map some).mapError
            fun mismatch => ⟨doc.name, mismatch.line, mismatch.token⟩

end Document

/-! ## The anchor -/

namespace Text

theorem slice?_append (s m r : Text) :
    (s ++ (m ++ r)).slice? s.byteSize (s.byteSize + m.byteSize) = some m := by
  rw [← List.append_assoc, ← byteSize_append]
  simp only [slice?, cut?_append, Option.bind_eq_bind, Option.bind_some]
  rfl

theorem laterStarts_append (offset : Nat) (s t : Text) :
    laterStarts offset (s ++ t) = laterStarts offset s ++ laterStarts (offset + s.byteSize) t := by
  induction s generalizing offset with
  | nil => rfl
  | cons c s ih =>
      simp only [List.cons_append, laterStarts, ih, byteSize_cons, Nat.add_assoc]
      split <;> rfl

theorem length_laterStarts_eq_count (offset : Nat) (t : Text) :
    (laterStarts offset t).length = t.count '\n' := by
  induction t generalizing offset with
  | nil => rfl
  | cons c t ih =>
      rw [laterStarts]
      by_cases hc : c = '\n'
      · rw [if_pos hc, List.length_cons, ih, hc, List.count_cons_self]
      · rw [if_neg hc, ih, List.count_cons_of_ne hc]

theorem lineAt_append (s t : Text) : (s ++ t).lineAt s.byteSize = s.lastLine := by
  have hbefore : (laterStarts 0 s).countP (· ≤ s.byteSize) = s.count '\n' := by
    rw [← length_laterStarts_eq_count 0, List.countP_eq_length]
    intro p hp
    obtain ⟨above, below, rfl, -, rfl⟩ := mem_laterStarts_iff.mp hp
    simp
  have hbehind : (laterStarts (0 + s.byteSize) t).countP (· ≤ s.byteSize) = 0 := by
    rw [List.countP_eq_zero]
    intro p hp
    obtain ⟨above, below, rfl, hlast, rfl⟩ := mem_laterStarts_iff.mp hp
    have hpos : 0 < above.length := List.length_pos_iff.mpr fun hnil => by simp [hnil] at hlast
    have hsize := above.length_le_byteSize
    simp only [decide_eq_true_eq]
    omega
  rw [lineAt, lineStarts, laterStarts_append, List.countP_cons_of_pos (by simp),
    List.countP_append, hbefore, hbehind, lastLine]
  omega

theorem byteSize_take_lt_iff (t : Text) (n : Nat) :
    byteSize (t.take n) < t.byteSize ↔ n < t.length := by
  have hsplit := congrArg byteSize (List.take_append_drop n t)
  rw [byteSize_append] at hsplit
  have hdrop := length_le_byteSize (t.drop n)
  rw [List.length_drop] at hdrop
  constructor
  · intro hlt
    by_contra hge
    rw [List.take_of_length_le (by omega)] at hlt
    omega
  · intro hlt
    omega

end Text

namespace Found

variable {t : Text} {m : Match}

theorem start_ofMatch (t : Text) (m : Match) :
    (ofMatch 0 t m).start = Text.byteSize (t.take m.start) :=
  Nat.zero_add _

theorem capture?_ofMatch_of_indent {doc : Document} {above below : Text}
    (h : doc.text = above ++ below) {m : Match} {indent : Nat} (hindent : m.indent = some indent) :
    doc.capture? (ofMatch 0 above m) 1 = some ((above.drop m.start).take indent) := by
  have htext : doc.text = above.take m.start ++ ((above.drop m.start).take indent ++
      ((above.drop m.start).drop indent ++ below)) := by
    rw [← List.append_assoc ((above.drop m.start).take indent), List.take_append_drop,
      ← List.append_assoc, List.take_append_drop, h]
  have hslice := Text.slice?_append (above.take m.start) ((above.drop m.start).take indent)
    ((above.drop m.start).drop indent ++ below)
  rw [← htext] at hslice
  simp [Document.capture?, ofMatch, hindent, hslice]

theorem capture?_ofMatch {doc : Document} {above below : Text} (h : doc.text = above ++ below)
    (m : Match) : (doc.capture? (ofMatch 0 above m) 1).getD [] =
      (above.drop m.start).take (m.indent.getD 0) := by
  cases hindent : m.indent with
  | none => simp [Document.capture?, ofMatch, hindent]
  | some indent =>
      rw [capture?_ofMatch_of_indent h hindent]
      rfl

end Found

theorem Indentation.anchor?_prefix {g : Grammar} {t : Text} {a : Anchor}
    (h : anchor? g t = some a) : a.above <+: t := by
  fun_induction anchor? g t with
  | case1 => simp at h
  | case2 t m _ _ _ ih => exact (ih h).trans (List.take_prefix _ _)
  | case3 => simp at h
  | case4 t m _ _ =>
      obtain rfl := Option.some.inj h
      exact List.take_prefix _ _

namespace Document

variable {doc : Document} {above below : Text}

theorem searchAnchor?_cases (g : Grammar) (h : doc.text = above ++ below) :
    (doc.searchAnchor? g above.byteSize = none ∧ Indentation.anchor? g above = none) ∨
    ∃ found a, doc.searchAnchor? g above.byteSize = some found ∧
      Indentation.anchor? g above = some a ∧ found.start = a.above.byteSize ∧
      (doc.capture? found 1).getD [] = a.indent := by
  induction hlength : above.length using Nat.strongRecOn generalizing above below with
  | ind n ih =>
      have hbefore : doc.text.between 0 above.byteSize = above := by
        rw [h, Text.between_zero_append]
      rw [searchAnchor?, Indentation.anchor?, searchBackward, hbefore]
      cases hlast : g.sigilLine.last? above with
      | none => exact .inl ⟨rfl, rfl⟩
      | some m =>
          have htext : doc.text = above.take m.start ++ (above.drop m.start ++ below) := by
            rw [← List.append_assoc, List.take_append_drop, h]
          have hpassed : doc.text.between 0 (Text.byteSize (above.take m.start)) =
              above.take m.start := by
            rw [htext, Text.between_zero_append]
          simp only [Option.map_some, Found.start_ofMatch, hpassed, Text.byteSize_take_lt_iff]
          cases hopen : Literal.isOpenAfter g (above.take m.start) with
          | false =>
              exact .inr ⟨_, _, rfl, rfl, Found.start_ofMatch above m, Found.capture?_ofMatch h m⟩
          | true =>
              simp only [↓reduceIte]
              split
              · apply ih (above.take m.start).length _ htext rfl
                rw [List.length_take]
                omega
              · exact .inl ⟨rfl, rfl⟩

theorem surveyBefore_eq (g : Grammar) (h : doc.text = above ++ below) :
    doc.surveyBefore g above.byteSize = Indentation.survey g above := by
  rcases searchAnchor?_cases g h with ⟨hfound, ha⟩ | ⟨found, a, hfound, ha, hstart, hindent⟩
  · rw [surveyBefore, hfound, Indentation.survey, ha, h, Text.between_zero_append]
  · obtain ⟨behind, rfl⟩ := Indentation.anchor?_prefix ha
    have hpassed : doc.text.between 0 a.above.byteSize = a.above := by
      rw [h, List.append_assoc, Text.between_zero_append]
    have hspan : doc.text.between a.above.byteSize (a.above ++ behind).byteSize = behind := by
      rw [h, Text.between_append]
    have hline : doc.lineAt a.above.byteSize = a.line := by
      rw [lineAt, h, List.append_assoc, Text.snap_byteSize, Text.lineAt_append,
        Indentation.Anchor.line]
    rw [surveyBefore, hfound, Indentation.survey, ha]
    simp only [hstart, hindent, hpassed, hspan, hline, List.drop_left]

end Document

/-! ## Lines by their numbers -/

theorem Token.line_lt_of_mem_tokenize {g : Grammar} {t : Text} (ht : t.IsWhole) {firstLine : Nat}
    {token : Token} (h : token ∈ tokenize g t firstLine) :
    token.line < firstLine + t.count '\n' := by
  obtain ⟨before, behind, hsplit⟩ := List.append_of_mem h
  have hposition := position_of_place hsplit
  rw [Position.after_eq, Position.mk.injEq] at hposition
  have htext := flatMap_text_tokenize g t firstLine
  rw [hsplit, List.flatMap_append] at htext
  -- The token starts before the end of the text, where a line feed stands.
  have hentry : (Text.byteSize (before.flatMap Token.text), token) ∈
      withOffsets 0 (tokenize g t firstLine) := by
    rw [hsplit, withOffsets_append, Nat.zero_add]
    exact List.mem_append_right _ List.mem_cons_self
  have hoffset := lt_of_mem_withOffsets_tokenize hentry
  have hbreak : '\n' ∈ (token :: behind).flatMap Token.text := by
    rw [← htext] at ht hoffset
    rcases ht.of_append with hnil | hlast
    · simp [hnil] at hoffset
    · exact List.mem_of_getLast? hlast
  have hcount := List.count_pos_iff.mpr hbreak
  rw [hposition.1, ← htext, List.count_append]
  omega

namespace Indentation

variable {ls : List Text} {n : Nat} {style : IndentStyle}

theorem openerBase_wholeLines (hls : ∀ line ∈ ls, '\n' ∉ line) (hn : n ≤ ls.length) (t : Text) :
    openerBase style (Text.wholeLines ls ++ t) n = openerBase style (Text.wholeLines ls) n := by
  have htake (t : Text) : (Text.wholeLines ls ++ t).lines.take n = ls.take n := by
    rw [Text.lines_wholeLines_append hls, List.take_append_of_le_length hn]
  have hnil := htake []
  rw [List.append_nil] at hnil
  rw [openerBase, htake, openerBase, hnil]

theorem argumentColumn?_wholeLines (hls : ∀ line ∈ ls, '\n' ∉ line) {opener : Token}
    (hopener : opener.line ≤ ls.length) (behind : List Token) (t : Text) :
    argumentColumn? style (Text.wholeLines ls ++ t) opener behind =
      argumentColumn? style (Text.wholeLines ls) opener behind := by
  have hline (t : Text) : (Text.wholeLines ls ++ t).lineText? opener.line =
      if opener.line = 0 then none else (ls[opener.line - 1]?).map Text.stripReturn := by
    rw [Text.lineText?, Text.lines_wholeLines_append hls]
    split
    · rfl
    · rw [List.getElem?_append_left (by omega)]
  have hnil := hline []
  rw [List.append_nil] at hnil
  rw [argumentColumn?, hline, argumentColumn?, hnil]

theorem columnIn_wholeLines (g : Grammar) (hls : ∀ line ∈ ls, '\n' ∉ line) (sigil : Bool)
    {s : Survey} (hs : ∀ token ∈ s.tokens, token.line ≤ ls.length) (scope : Nesting.Scope)
    (t : Text) :
    columnIn g style (Text.wholeLines ls ++ t) sigil s scope =
      columnIn g style (Text.wholeLines ls) sigil s scope := by
  unfold columnIn
  cases scope.opener with
  | none => rfl
  | some index =>
      cases htoken : s.tokens[index]? with
      | none => simp only [Option.bind_some, htoken]
      | some token =>
          have hline := hs token (List.mem_of_getElem? htoken)
          simp only [Option.bind_some, htoken, argumentColumn?_wholeLines hls hline,
            openerBase_wholeLines hls hline]

theorem line_le_of_mem_survey (g : Grammar) (hls : ∀ line ∈ ls, '\n' ∉ line) {token : Token}
    (h : token ∈ (survey g (Text.wholeLines ls)).tokens) : token.line ≤ ls.length := by
  have hwhole := Text.isWhole_wholeLines ls
  have hcount := Text.count_wholeLines hls
  unfold survey at h
  split at h
  · rename_i a ha
    obtain ⟨behind, habove⟩ := anchor?_prefix ha
    rw [← habove, List.drop_left] at h
    rw [← habove] at hwhole hcount
    have hline := Token.line_lt_of_mem_tokenize hwhole.of_append h
    rw [Anchor.line, Text.lastLine] at hline
    rw [List.count_append] at hcount
    omega
  · have hline := Token.line_lt_of_mem_tokenize hwhole h
    omega

end Indentation

/-! ## The column -/

theorem Text.exists_lines_of_lineStart? {t : Text} {line start : Nat}
    (h : t.lineStart? line = some start) :
    ∃ ls content more, t.lines = ls ++ content :: more ∧ line = ls.length + 1 ∧
      start = (wholeLines ls).byteSize := by
  have hline : 1 ≤ line ∧ line ≤ t.lineCount := by
    by_contra hnone
    rw [lineStart?_eq_none (by omega)] at h
    simp at h
  obtain ⟨below, hcut⟩ := cutAtLine?_above hline.1 hline.2
  obtain ⟨ls, content, more, hlines, hnumber, habove, -⟩ := exists_lines_of_cutAtLine? hcut
  rw [lineStart?_of_cutAtLine? hcut, habove, Option.some.injEq] at h
  exact ⟨ls, content, more, hlines, hnumber, h.symm⟩

namespace Document

theorem columnOf_of_lineStart? (g : Grammar) (doc : Document) {line start : Nat}
    (hline : 2 ≤ line) (hstart : doc.text.lineStart? line = some start) :
    doc.columnOf g line =
      (Indentation.column g doc.style (doc.text.between 0 start)
        ((doc.text.lineText? line).any g.sigilLine.occursIn)).mapError
          fun mismatch => ⟨doc.name, mismatch.line, mismatch.token⟩ := by
  obtain ⟨ls, content, more, hlines, rfl, rfl⟩ := Text.exists_lines_of_lineStart? hstart
  have hbefore : doc.text.between 0 (Text.wholeLines ls).byteSize = Text.wholeLines ls := by
    rw [Text.eq_wholeLines_append hlines, Text.between_zero_append]
  have hempty : ls.isEmpty = false := by
    cases ls with
    | nil => simp at hline
    | cons first ls => rfl
  rw [columnOf, indentationColumnOf_of_lines g hlines, hempty, hbefore,
    Text.lineText?_of_lines hlines]
  rfl

theorem lookUpColumn_eq_columnOf (g : Grammar) (doc : Document) (line : Nat) :
    doc.lookUpColumn g line = doc.columnOf g line := by
  by_cases hfirst : line ≤ 1
  · rw [lookUpColumn, if_pos hfirst, columnOf, Indentation.columnOf, if_pos hfirst]
    rfl
  rw [lookUpColumn, if_neg hfirst]
  cases hstart : doc.text.lineStart? line with
  | none =>
      have hcount : doc.text.lineCount < line := by
        by_contra hle
        obtain ⟨below, hcut⟩ := Text.cutAtLine?_above (by omega) (Nat.le_of_not_lt hle)
        rw [Text.lineStart?_of_cutAtLine? hcut] at hstart
        simp at hstart
      rw [columnOf, Indentation.columnOf_of_lineCount_lt g doc.style (by omega) hcount]
      rfl
  | some start =>
      rw [columnOf_of_lineStart? g doc (by omega) hstart]
      obtain ⟨ls, content, more, hlines, rfl, rfl⟩ := Text.exists_lines_of_lineStart? hstart
      have hls (first : Text) (hmem : first ∈ ls) : '\n' ∉ first :=
        Text.lineFeed_notMem_of_mem_lines (t := doc.text) (by simp [hlines, hmem])
      have htext := Text.eq_wholeLines_append hlines
      have hbefore : doc.text.between 0 (Text.wholeLines ls).byteSize = Text.wholeLines ls := by
        rw [htext, Text.between_zero_append]
      have hcolumn (sigil : Bool) (scope : Nesting.Scope) :
          Indentation.columnIn g doc.style doc.text sigil
              (Indentation.survey g (Text.wholeLines ls)) scope =
            Indentation.columnIn g doc.style (Text.wholeLines ls) sigil
              (Indentation.survey g (Text.wholeLines ls)) scope := by
        rw [htext]
        apply Indentation.columnIn_wholeLines g hls
        intro token htoken
        exact Indentation.line_le_of_mem_survey g hls htoken
      simp only [surveyBefore_eq g htext, hbefore, Indentation.column, hcolumn]
      split
      · rfl
      · cases Nesting.enclosingScope g (Indentation.survey g (Text.wholeLines ls)).tokens <;> rfl

/-- Two documents of one name that agree up to the start of a line give the line the same column,
`none` or the same error, if both or neither have a sigil line there, also where the column is
looked up in the whole document. -/
theorem columnOf_congr_above (g : Grammar) (style : IndentStyle) (doc doc' : Document)
    (line start : Nat) (hline : 2 ≤ line) (hname : doc.name = doc'.name)
    (hstart : doc.text.lineStart? line = some start)
    (hstart' : doc'.text.lineStart? line = some start)
    (habove : doc.text.between 0 start = doc'.text.between 0 start)
    (hsigil : (doc.text.lineText? line).any g.sigilLine.occursIn =
      (doc'.text.lineText? line).any g.sigilLine.occursIn) :
    ({ doc with style := style } : Document).columnOf g line =
      ({ doc' with style := style } : Document).columnOf g line ∧
    ({ doc with style := style } : Document).lookUpColumn g line =
      ({ doc' with style := style } : Document).lookUpColumn g line := by
  have hcolumn : ({ doc with style := style } : Document).columnOf g line =
      ({ doc' with style := style } : Document).columnOf g line := by
    rw [columnOf_of_lineStart? g { doc with style := style } hline hstart,
      columnOf_of_lineStart? g { doc' with style := style } hline hstart']
    simp only [hname, habove, hsigil]
  refine ⟨hcolumn, ?_⟩
  rw [lookUpColumn_eq_columnOf, hcolumn, lookUpColumn_eq_columnOf]

theorem columnOf_congr_above_below_item :
    (ofText "a" "* a\nb\nend".toList .default).columnOf .markdown 2 =
      (ofText "a" "* a\nc\n* d".toList .default).columnOf .markdown 2 := by
  obtain ⟨hcolumn, -⟩ := columnOf_congr_above .markdown .default
    (ofText "a" "* a\nb\nend".toList .default) (ofText "a" "* a\nc\n* d".toList .default) 2 4
    (by decide) (by simp only [ofText]) (by decide) (by decide) (by decide) (by decide +kernel)
  exact hcolumn

end Document

end MarkupLayout

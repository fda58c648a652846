import MarkupLayout.Proofs.RowScopes
import MarkupLayout.Proofs.StableLayout
/-!
# The layout of nested blocks

A forest of lines and blocks, written without any indentation, is laid out by its nesting: what
stands in `d` blocks goes to level `d`, and the closer of a block goes where its content goes.

The column of a line is computed from the nearest sigil line alone, from the indentation that was
written there and the closers behind it.  `Leads` counts the blocks that are open behind given rows;
this is the level of the last sigil, plus one, minus the closers since.
-/

namespace MarkupLayout

inductive Forest where
  | nil
  | line (phrase : Phrase) (more : Forest)
  | block (sigil : Sigil) (title : Phrase) (children more : Forest)

def Forest.outline (depth : Nat) : Forest → List (Nat × Row)
  | nil => []
  | line phrase more => (depth, .words phrase) :: more.outline depth
  | block sigil title children more =>
    (depth, .opens sigil title) ::
      (children.outline (depth + 1) ++ (depth + 1, .closes) :: more.outline depth)

/-! ## Levels -/

/-- The number of open blocks behind a row, from the number of those before it.  A closer needs
one. -/
def Row.levelBehind? : Row → Nat → Option Nat
  | words _, level => some level
  | opens _ _, level => some (level + 1)
  | closes, 0 => none
  | closes, level + 1 => some level

/-- The rows have the levels of their nesting, and behind them that many blocks are open. -/
inductive Leads : List (Nat × Row) → Nat → Prop
  | nil : Leads [] 0
  | concat {rows : List (Nat × Row)} {row : Row} {level next : Nat} (h : Leads rows level)
      (hnext : row.levelBehind? level = some next) : Leads (rows ++ [(level, row)]) next

namespace Leads

variable {rows more : List (Nat × Row)} {level : Nat}

theorem of_concat {line : Nat × Row} (h : Leads (rows ++ [line]) level) : Leads rows line.1 := by
  generalize hrows : rows ++ [line] = all at h
  cases h with
  | nil => simp at hrows
  | concat h hnext =>
      obtain ⟨rfl, hline⟩ := List.append_inj' hrows rfl
      obtain rfl := (List.cons.inj hline).1
      exact h

theorem eq_zero (h : Leads [] level) : level = 0 := by
  generalize hrows : ([] : List (Nat × Row)) = rows at h
  cases h with
  | nil => rfl
  | concat h hnext => simp at hrows

theorem of_append {line : Nat × Row} (h : Leads (rows ++ line :: more) level) :
    Leads rows line.1 := by
  induction more using List.reverseRecOn generalizing level with
  | nil => exact h.of_concat
  | append_singleton more last ih =>
      rw [← List.cons_append, ← List.append_assoc] at h
      exact ih h.of_concat

theorem append_outline (h : Leads rows level) (forest : Forest) :
    Leads (rows ++ forest.outline level) level := by
  induction forest generalizing rows level with
  | nil =>
      rw [Forest.outline, List.append_nil]
      exact h
  | line phrase more ih =>
      have hline : Leads (rows ++ [(level, .words phrase)]) level := h.concat rfl
      have hmore := ih hline
      rw [List.append_assoc] at hmore
      exact hmore
  | block sigil title children more ihchildren ihmore =>
      have hopener : Leads (rows ++ [(level, .opens sigil title)]) (level + 1) := h.concat rfl
      have hcloser : Leads (rows ++ [(level, .opens sigil title)] ++ children.outline (level + 1) ++
          [(level + 1, .closes)]) level := (ihchildren hopener).concat rfl
      have hmore := ihmore hcloser
      simp only [List.append_assoc, List.singleton_append] at hmore
      exact hmore

/-- The number of open blocks follows from the last opener and the closers behind it. -/
theorem exists_last_opener (h : Leads rows level) :
    (level = 0 ∧ ∀ line ∈ rows, line.2.isOpener = false ∧ line.2.isCloser = false) ∨
    ∃ above depth sigil title rest, rows = above ++ (depth, .opens sigil title) :: rest ∧
      Leads above depth ∧ (∀ line ∈ rest, line.2.isOpener = false) ∧
      level + rest.countP (·.2.isCloser) = depth + 1 := by
  induction h with
  | nil => exact .inl ⟨rfl, by simp⟩
  | @concat rows row level next h hnext ih =>
      cases row with
      | words phrase =>
          obtain rfl := Option.some.inj hnext
          rcases ih with
            ⟨rfl, hrows⟩ | ⟨above, depth, sigil, title, rest, rfl, habove, hrest, hlevel⟩
          · exact .inl ⟨rfl, List.forall_mem_append.mpr
              ⟨hrows, List.forall_mem_singleton.mpr ⟨rfl, rfl⟩⟩⟩
          · refine .inr ⟨above, depth, sigil, title, rest ++ [(level, .words phrase)], by simp,
              habove, List.forall_mem_append.mpr ⟨hrest, List.forall_mem_singleton.mpr rfl⟩, ?_⟩
            rw [List.countP_append]
            exact hlevel
      | opens sigil title =>
          obtain rfl := Option.some.inj hnext
          exact .inr ⟨rows, level, sigil, title, [], rfl, h, by simp, rfl⟩
      | closes =>
          cases level with
          | zero => simp [Row.levelBehind?] at hnext
          | succ level =>
              obtain rfl := Option.some.inj hnext
              rcases ih with
                ⟨hzero, -⟩ | ⟨above, depth, sigil, title, rest, rfl, habove, hrest, hlevel⟩
              · simp at hzero
              · refine .inr ⟨above, depth, sigil, title, rest ++ [(level + 1, .closes)], by simp,
                  habove, List.forall_mem_append.mpr ⟨hrest, List.forall_mem_singleton.mpr rfl⟩, ?_⟩
                have hone : [(level + 1, Row.closes)].countP (·.2.isCloser) = 1 := rfl
                rw [List.countP_append, hone]
                omega

end Leads

/-! ## The column below laid out rows -/

theorem toNat_of_isAlpha {c : Char} (h : c.isAlpha = true) : 65 ≤ c.toNat ∧ c.toNat ≤ 122 := by
  have hletter : (c.isUpper || c.isLower) = true := h
  rcases Bool.or_eq_true_iff.mp hletter with hupper | hlower
  · have hrange : 'A'.toNat ≤ c.toNat ∧ c.toNat ≤ 'Z'.toNat := of_decide_eq_true hupper
    exact ⟨hrange.1, hrange.2.trans (by decide)⟩
  · have hrange : 'a'.toNat ≤ c.toNat ∧ c.toNat ≤ 'z'.toNat := by
      simpa [UInt32.le_iff_toNat_le] using Bool.and_eq_true_iff.mp hlower
    exact ⟨le_trans (by decide) hrange.1, hrange.2⟩

theorem Unicode.isBlank_of_isAlpha {c : Char} (h : c.isAlpha = true) : isBlank c = false := by
  have hspace : c ≠ ' ' := ne_of_isAlpha h (by decide)
  have hcode := toNat_of_isAlpha h
  have hcontrol : ¬c.toNat ≤ 0xd := by omega
  have htable : inRanges c.toNat blankRanges = false := by
    rw [blankRanges, inRanges_cons_of_le _ (by omega), decide_eq_false_iff_not]
    omega
  simp [isBlank, hspace, hcontrol, htable]

theorem IndentStyle.exists_last_letter (style : IndentStyle) (line : Nat × Row) :
    ∃ before c, style.lay line = before ++ [c] ∧ c.isAlpha = true := by
  obtain ⟨before, c, htext, hletter⟩ := line.2.exists_last_letter
  refine ⟨style.write (line.1 * style.indentWidth) ++ before, c, ?_, hletter⟩
  rw [lay, htext, List.append_assoc]

namespace Text

variable {before : Text} {c : Char}

theorem stripReturn_of_letter (hc : c.isAlpha = true) :
    stripReturn (before ++ [c]) = before ++ [c] := by
  have hne : c ≠ '\r' := ne_of_isAlpha hc (by decide)
  simp [stripReturn, hne]

theorem isBlank_of_letter (hc : c.isAlpha = true) : isBlank (before ++ [c]) = false := by
  simp [isBlank, Unicode.isBlank_of_isAlpha hc]

theorem endsVisiblyWith_of_letter (hc : c.isAlpha = true) :
    endsVisiblyWith ',' (before ++ [c]) = false := by
  have hne : c ≠ ',' := ne_of_isAlpha hc (by decide)
  simp [endsVisiblyWith, Unicode.isBlank_of_isAlpha hc, hne]

end Text

namespace Indentation

variable {style : IndentStyle}

theorem indentOf_lay (style : IndentStyle) (line : Nat × Row) :
    style.indentOf (style.lay line) = line.1 * style.indentWidth := by
  have hvisible := line.2.startsVisibly_append []
  rw [List.append_nil] at hvisible
  rw [IndentStyle.indentOf, Text.leading, IndentStyle.lay,
    Text.takeWhile_isIndentChar_append (style.all_isIndentChar_write _) hvisible, style.width_write]

theorem stripReturn_lay (style : IndentStyle) (line : Nat × Row) :
    Text.stripReturn (style.lay line) = style.lay line := by
  obtain ⟨before, c, htext, hletter⟩ := style.exists_last_letter line
  rw [htext, Text.stripReturn_of_letter hletter]

theorem openerBase_laid (style : IndentStyle) (above rest : List (Nat × Row)) (line : Nat × Row) :
    openerBase style (Text.wholeLines ((above ++ line :: rest).map style.lay)) (above.length + 1) =
      line.1 * style.indentWidth := by
  have hlines : (Text.wholeLines ((above ++ line :: rest).map style.lay)).lines =
      (above ++ line :: rest).map style.lay ++ [[]] := by
    have hfeed := style.lineFeed_notMem_of_mem (above ++ line :: rest)
    have hsplit := Text.lines_wholeLines_append hfeed []
    rwa [List.append_nil] at hsplit
  have hstrip (rows : List (Nat × Row)) :
      (rows.map style.lay).map Text.stripReturn = rows.map style.lay := by
    rw [List.map_map]
    exact List.map_congr_left fun line _ => stripReturn_lay style line
  have htake : ((above ++ line :: rest).map style.lay ++ [[]]).take (above.length + 1) =
      (above ++ [line]).map style.lay := by
    have hlength : above.length + 1 = ((above ++ [line]).map style.lay).length := by simp
    have happend : (above ++ line :: rest).map style.lay ++ [[]] =
        (above ++ [line]).map style.lay ++ (rest.map style.lay ++ [[]]) := by simp
    rw [hlength, happend, List.take_left]
  rw [openerBase, hlines, htake, hstrip, List.map_append, List.reverse_append]
  change listBase style (style.lay line) (above.map style.lay).reverse = _
  rw [← indentOf_lay]
  cases hnearest : (above.map style.lay).reverse with
  | nil => rfl
  | cons previous earlier =>
      have hprevious : previous ∈ above.map style.lay := by
        rw [← List.mem_reverse, hnearest]
        exact List.mem_cons_self
      obtain ⟨other, -, rfl⟩ := List.mem_map.mp hprevious
      obtain ⟨before, c, htext, hletter⟩ := style.exists_last_letter other
      -- The line before ends with a letter and not with a comma.
      rw [listBase, htext, Text.isBlank_of_letter hletter, Text.endsVisiblyWith_of_letter hletter]
      rfl

theorem isOfRow_of_mem_survey {s : Survey} {p : Position} {rows : List (Nat × Row)}
    (hs : s.tokens = Token.place p (rows.flatMap style.layPieces)) :
    ∀ t ∈ s.tokens, t.kind.isOfRow = true := by
  intro t ht
  rw [hs] at ht
  obtain ⟨piece, hpiece, hkind⟩ := Token.exists_of_mem_place ht
  rw [← hkind]
  exact IndentStyle.isOfRow_of_mem hpiece

theorem last?_of_isOfRow {s : Survey} (h : ∀ t ∈ s.tokens, t.kind.isOfRow = true) :
    s.endsInLiteral = false ∧ ∀ opener, continues .markdown s.last? opener = false := by
  cases hlast : s.last? with
  | none => exact ⟨by rw [Survey.endsInLiteral, hlast]; rfl, fun _ => rfl⟩
  | some t =>
      have hrow : t.kind.isOfRow = true := by
        apply h
        rw [Survey.last?, Token.lastSignificant?] at hlast
        exact List.mem_reverse.mp (List.mem_of_find?_eq_some hlast)
      rw [Survey.endsInLiteral, hlast]
      unfold continues
      cases hkind : t.kind with
      | keyword role =>
        rw [hkind] at hrow
        cases role <;> simp_all [TokenKind.isOfRow, TokenKind.isQuiet]
      | _ => simp_all [TokenKind.isOfRow, TokenKind.isQuiet]

theorem adjusted_eq (style : IndentStyle) (sigil : Bool) {start : Int} {column : Nat}
    (hstart : start = column) (h : column < 0x8000000000000000) :
    adjusted style start sigil false = column := by
  have hcolumn : toColumn start = column := by
    rw [hstart, toColumn_of_lt (by omega) (by omega)]
    rfl
  cases sigil with
  | false => exact hcolumn
  | true =>
      have hsame : start - style.indentWidth + style.indentWidth = start := by omega
      calc
        adjusted style start true false =
            toColumn (start - style.indentWidth + style.indentWidth) := rfl
        _ = column := by rw [hsame, hcolumn]

variable {s : Survey} {scope : Nesting.Scope} {above : Text} {sigil : Bool}

theorem columnIn_of_sigil {index : Nat} {t : Token} (hopener : scope.opener = some index)
    (ht : s.tokens[index]? = some t) (hkind : t.kind = .keyword .blockSigil)
    (hlast : ∀ opener, continues .markdown s.last? opener = false) :
    columnIn .markdown style above sigil s scope =
      .ok (adjusted style (openerBase style above t.line + style.indentWidth) sigil false) := by
  have hargument (behind : List Token) : argumentColumn? style above t behind = none := by
    simp [argumentColumn?, hkind]
  simp only [columnIn, hopener, Option.bind_some, ht, hargument, hlast]

theorem columnIn_of_unopened (hopener : scope.opener = none)
    (hclosers : scope.firstExtraCloser = none ∨ s.hasEarlierAnchor .markdown = true)
    (hlast : ∀ opener, continues .markdown s.last? opener = false) :
    columnIn .markdown style above sigil s scope =
      .ok (adjusted style (s.base style - scope.extraClosers * style.indentWidth) sigil false) := by
  simp only [columnIn, hopener, Option.bind_none, hlast]
  split
  · rename_i t ht
    rcases hclosers with hnone | hearlier
    · rw [hnone] at ht
      simp at ht
    · rw [if_pos hearlier]
  · rfl

theorem survey_laid_of_no_opener (style : IndentStyle) {rows : List (Nat × Row)}
    (hrows : ∀ line ∈ rows, line.2.isOpener = false) :
    survey .markdown (Text.wholeLines (rows.map style.lay)) =
      ⟨none, Token.place ⟨1, 0⟩ (rows.flatMap style.layPieces)⟩ := by
  rw [survey, anchor?_laid_eq_none hrows, tokenize, scan_laid]

theorem survey_laid_opener (style : IndentStyle) (above : List (Nat × Row)) (depth : Nat)
    (mark : Sigil) (title : Phrase) {rest : List (Nat × Row)}
    (hrest : ∀ line ∈ rest, line.2.isOpener = false) :
    survey .markdown (Text.wholeLines
        ((above ++ (depth, .opens mark title) :: rest).map style.lay)) =
      ⟨some ⟨Text.wholeLines (above.map style.lay), style.write (depth * style.indentWidth)⟩,
        Token.place ⟨above.length + 1, 0⟩
          (((depth, .opens mark title) :: rest).flatMap style.layPieces)⟩ := by
  have hspan : (Text.wholeLines ((above ++ (depth, .opens mark title) :: rest).map style.lay)).drop
      (Text.wholeLines (above.map style.lay)).length =
        Text.wholeLines (((depth, .opens mark title) :: rest).map style.lay) := by
    rw [List.map_append, Text.wholeLines_append, List.drop_left]
  have hline : (Text.wholeLines (above.map style.lay)).lastLine = above.length + 1 := by
    rw [Text.lastLine, Text.count_wholeLines (style.lineFeed_notMem_of_mem above), List.length_map,
      Nat.add_comm]
  rw [survey, anchor?_laid_opener above depth mark title hrest]
  simp only [Anchor.line, hline, hspan, tokenize, scan_laid]

theorem isSome_anchor?_laid {rows : List (Nat × Row)} {level : Nat} (h : Leads rows (level + 1)) :
    (anchor? .markdown (Text.wholeLines (rows.map style.lay))).isSome = true := by
  rcases h.exists_last_opener with ⟨hzero, -⟩ | ⟨above, depth, mark, title, rest, rfl, -, hrest, -⟩
  · simp at hzero
  · rw [anchor?_laid_opener above depth mark title hrest]
    rfl

theorem column_eq_of_survey (htokens : ∀ t ∈ (survey .markdown above).tokens, t.kind.isOfRow = true)
    (hscope : Nesting.resolve .markdown (survey .markdown above).tokens = .ok scope) {width : Nat}
    (hcolumn : columnIn .markdown style above sigil (survey .markdown above) scope = .ok width) :
    column .markdown style above sigil = .ok (some width) := by
  rw [column]
  simp only [(last?_of_isOfRow htokens).1, Nesting.enclosingScope_eq_ok_iff.mpr hscope, hcolumn]
  rfl

section Rows

variable {rows above rest : List (Nat × Row)} {depth level : Nat} {mark : Sigil} {title : Phrase}

theorem column_laid_of_no_opener
    (hrows : ∀ line ∈ rows, line.2.isOpener = false ∧ line.2.isCloser = false) (sigil : Bool) :
    column .markdown style (Text.wholeLines (rows.map style.lay)) sigil = .ok (some 0) := by
  have hplain : ∀ line ∈ rows, line.2.isOpener = false := fun line hline => (hrows line hline).1
  have hsurvey := survey_laid_of_no_opener style hplain
  have htokens := isOfRow_of_mem_survey (congrArg Survey.tokens hsurvey)
  have hscope : Nesting.resolve .markdown (Token.place ⟨1, 0⟩ (rows.flatMap style.layPieces)) =
      .ok ⟨none, 0, none⟩ := by
    have hcount : rows.countP (·.2.isCloser) = 0 := by
      rw [List.countP_eq_zero]
      intro line hline
      simp [(hrows line hline).2]
    obtain ⟨closers, hlength, -, hwalk⟩ := style.owes_rows ⟨1, 0⟩ hplain [] []
    obtain rfl : closers = [] := List.eq_nil_of_length_eq_zero (hlength.trans hcount)
    rw [List.append_nil] at hwalk
    exact hwalk
  apply column_eq_of_survey htokens (by rw [hsurvey, hscope])
  rw [columnIn_of_unopened rfl (.inl rfl) (last?_of_isOfRow htokens).2, hsurvey]
  apply congrArg Except.ok
  apply adjusted_eq
  · simp [Survey.base]
  · omega

theorem column_laid_in_block (hrest : ∀ line ∈ rest, line.2.isOpener = false)
    (hcount : rest.countP (·.2.isCloser) = 0)
    (hfits : (depth + 1) * style.indentWidth < 0x8000000000000000) (sigil : Bool) :
    column .markdown style (Text.wholeLines
        ((above ++ (depth, .opens mark title) :: rest).map style.lay)) sigil =
      .ok (some ((depth + 1) * style.indentWidth)) := by
  have hsurvey := survey_laid_opener style above depth mark title hrest
  have htokens := isOfRow_of_mem_survey (congrArg Survey.tokens hsurvey)
  obtain ⟨index, key, hscope, hkey, hline, hkind⟩ :=
    (style.resolve_laid _ depth mark title hrest (congrArg Survey.tokens hsurvey)).1 hcount
  apply column_eq_of_survey htokens hscope
  rw [columnIn_of_sigil rfl hkey hkind (last?_of_isOfRow htokens).2, hline, openerBase_laid]
  apply congrArg Except.ok
  apply adjusted_eq style sigil _ hfits
  rw [Nat.add_mul, Nat.one_mul]
  rfl

/-- Behind closers, the line goes one level left of the anchor for each of them but the first. -/
theorem column_laid_behind_closers (habove : Leads above depth)
    (hrest : ∀ line ∈ rest, line.2.isOpener = false) {k : Nat}
    (hcount : rest.countP (·.2.isCloser) = k + 1) (hlevel : level + k = depth)
    (hfits : level * style.indentWidth < 0x8000000000000000) (sigil : Bool) :
    column .markdown style (Text.wholeLines
        ((above ++ (depth, .opens mark title) :: rest).map style.lay)) sigil =
      .ok (some (level * style.indentWidth)) := by
  have hsurvey := survey_laid_opener style above depth mark title hrest
  have htokens := isOfRow_of_mem_survey (congrArg Survey.tokens hsurvey)
  obtain ⟨first, hscope, hfirst⟩ :=
    (style.resolve_laid _ depth mark title hrest (congrArg Survey.tokens hsurvey)).2 k hcount
  have hclosers : first = none ∨ (survey .markdown (Text.wholeLines
      ((above ++ (depth, .opens mark title) :: rest).map style.lay))).hasEarlierAnchor .markdown =
        true := by
    -- More closers than openers are an error, unless there is an opener above the anchor.
    cases k with
    | zero => exact .inl (hfirst rfl)
    | succ k =>
        obtain ⟨outer, rfl⟩ : ∃ outer, depth = outer + 1 := ⟨level + k, by omega⟩
        rw [hsurvey]
        exact .inr (isSome_anchor?_laid habove)
  have hbase : (survey .markdown (Text.wholeLines
      ((above ++ (depth, .opens mark title) :: rest).map style.lay))).base style =
        depth * style.indentWidth := by
    rw [hsurvey]
    exact style.width_write _
  apply column_eq_of_survey htokens hscope
  rw [columnIn_of_unopened rfl hclosers (last?_of_isOfRow htokens).2, hbase]
  apply congrArg Except.ok
  apply adjusted_eq style sigil _ hfits
  rw [← hlevel, Nat.add_mul]
  simp

theorem column_laid (h : Leads rows level)
    (hfits : level * style.indentWidth < 0x8000000000000000) (sigil : Bool) :
    column .markdown style (Text.wholeLines (rows.map style.lay)) sigil =
      .ok (some (level * style.indentWidth)) := by
  rcases h.exists_last_opener with
    ⟨rfl, hrows⟩ | ⟨above, depth, mark, title, rest, rfl, habove, hrest, hlevel⟩
  · rw [Nat.zero_mul]
    exact column_laid_of_no_opener hrows sigil
  · cases hcount : rest.countP (·.2.isCloser) with
    | zero =>
        obtain rfl : level = depth + 1 := by omega
        exact column_laid_in_block hrest hcount hfits sigil
    | succ k => exact column_laid_behind_closers habove hrest hcount (by omega) hfits sigil

theorem columnBelow_laid (h : Leads rows level)
    (hfits : level * style.indentWidth < 0x8000000000000000) (row : Row) :
    columnBelow .markdown style (rows.map style.lay) row.text =
      .ok (some (level * style.indentWidth)) := by
  have hblank : (Text.stripReturn row.text).isBlank = false := by
    obtain ⟨before, c, htext, hletter⟩ := row.exists_last_letter
    rw [htext, Text.stripReturn_of_letter hletter, Text.isBlank_of_letter hletter]
  rw [columnBelow, hblank, Bool.false_or]
  split
  · rename_i hempty
    obtain rfl : rows = [] := by simpa using hempty
    rw [h.eq_zero, Nat.zero_mul]
  · exact column_laid h hfits _

theorem exists_indents_laid {more : List (Nat × Row)} (h : Leads (rows ++ more) level)
    (hfits : ∀ line ∈ more, line.1 * style.indentWidth < 0x8000000000000000) :
    ∃ outcomes, Indents .markdown style (rows.map style.lay) (more.map (·.2.text))
      (more.map style.lay) outcomes := by
  -- The induction is on the rows that are still to come: one that is laid out joins those above.
  induction more generalizing rows with
  | nil => exact ⟨[], .nil _⟩
  | cons line more ih =>
      have hcolumn := columnBelow_laid h.of_append (hfits line (by simp)) line.2
      have hline : style.reindented line.2.text (some (line.1 * style.indentWidth)) =
          style.lay line := by
        have hvisible := line.2.startsVisibly_append []
        rw [List.append_nil] at hvisible
        rw [IndentStyle.reindented, IndentStyle.lay]
        exact congrArg _ (Text.dropWhile_isIndentChar_append (w := []) rfl hvisible)
      rw [← List.singleton_append, ← List.append_assoc] at h
      obtain ⟨outcomes, hmore⟩ := ih h fun other hother => hfits other (by simp [hother])
      rw [List.map_append, List.map_singleton, ← hline] at hmore
      have hindents := Indents.cons hcolumn hmore
      rw [hline] at hindents
      exact ⟨_, hindents⟩

end Rows

theorem exists_indents_empty (g : Grammar) (style : IndentStyle) (above : List Text) (n : Nat) :
    ∃ outcomes, Indents g style above (List.replicate n []) (List.replicate n []) outcomes := by
  induction n generalizing above with
  | zero => exact ⟨[], .nil above⟩
  | succ n ih =>
      have hcolumn : columnBelow g style above [] = .ok (some 0) := rfl
      have hline : style.reindented [] (some 0) = [] := by
        simp [IndentStyle.reindented, IndentStyle.write]
      obtain ⟨outcomes, hmore⟩ := ih (above ++ [style.reindented [] (some 0)])
      have hindents := Indents.cons hcolumn hmore
      rw [hline] at hindents
      exact ⟨_, hindents⟩

end Indentation

/-- Indenting the text of a forest, written without any indentation and with any number of empty
lines behind it, succeeds and lays the forest out: the lines and the sigils that stand in `d` blocks
are indented by `d` levels, and the closer of such a block by `d + 1`.  Nothing else of a line is
changed. -/
theorem Document.reindent_forest (forest : Forest) (name : String) (style : IndentStyle) (n : Nat)
    (hfits : ∀ line ∈ forest.outline 0, line.1 * style.indentWidth < 0x8000000000000000) :
    ∃ outcomes, Command.reindent .markdown (ofText name (['\n'].intercalate
        ((forest.outline 0).map (·.2.text) ++ List.replicate n [])) style) =
      .ok (['\n'].intercalate ((forest.outline 0).map style.lay ++ List.replicate n []),
        outcomes) := by
  have hleads : Leads ([] ++ forest.outline 0) 0 := Leads.nil.append_outline forest
  obtain ⟨outcomes, hrows⟩ := Indentation.exists_indents_laid hleads hfits
  obtain ⟨others, hempty⟩ := Indentation.exists_indents_empty .markdown style
    ([] ++ (forest.outline 0).map style.lay) n
  have hindents := hrows.append hempty
  by_cases hnil : (forest.outline 0).map (·.2.text) ++ List.replicate n [] = []
  · -- An empty text has one line, which is empty.
    obtain ⟨hnone, hzero⟩ := List.append_eq_nil_iff.mp hnil
    rw [List.map_eq_nil_iff.mp hnone, hzero]
    obtain ⟨outcomes, hindents⟩ := Indentation.exists_indents_empty .markdown style [] 1
    have hline : Indentation.Indents .markdown (ofText name [] style).style []
        (ofText name [] style).text.lines [[]] outcomes := hindents
    have hreindent := reindent_of_indents hline
    exact ⟨_, hreindent⟩
  · have hlines : (ofText name (['\n'].intercalate
        ((forest.outline 0).map (·.2.text) ++ List.replicate n [])) style).text.lines =
          (forest.outline 0).map (·.2.text) ++ List.replicate n [] := by
      apply Text.lines_intercalate hnil
      intro line hline
      rcases List.mem_append.mp hline with hline | hline
      · obtain ⟨row, -, rfl⟩ := List.mem_map.mp hline
        exact row.2.lineFeed_notMem
      · rw [List.eq_of_mem_replicate hline]
        simp
    rw [← hlines] at hindents
    exact ⟨_, reindent_of_indents hindents⟩

def Forest.item : Forest :=
  .block ⟨['*'], by decide⟩ ⟨⟨['a'], by decide, by decide, by decide⟩, []⟩
    (.line ⟨⟨['b'], by decide, by decide, by decide⟩, []⟩
      (.block ⟨['#', '#'], by decide⟩ ⟨⟨['c'], by decide, by decide, by decide⟩,
        [⟨['d'], by decide, by decide, by decide⟩]⟩ .nil .nil))
    (.line ⟨⟨['e'], by decide, by decide, by decide⟩, []⟩ .nil)

theorem Document.reindent_forest_item :
    ∃ outcomes, Command.reindent .markdown
        (ofText "a" "* a\nb\n## c d\nend\nend\ne\n".toList .default) =
      .ok ("* a\n  b\n  ## c d\n    end\n  end\ne\n".toList, outcomes) := by
  have hflat : ['\n'].intercalate ((Forest.item.outline 0).map (·.2.text) ++ List.replicate 1 []) =
      "* a\nb\n## c d\nend\nend\ne\n".toList := by decide
  have hlaid : ['\n'].intercalate ((Forest.item.outline 0).map IndentStyle.default.lay ++
      List.replicate 1 []) = "* a\n  b\n  ## c d\n    end\n  end\ne\n".toList := by decide
  have hreindent := reindent_forest Forest.item "a" .default 1 (by decide)
  rw [hflat, hlaid] at hreindent
  exact hreindent

end MarkupLayout

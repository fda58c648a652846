import Mathlib.Data.List.Basic
import MarkupLayout.Proofs.Frames
/-!
# Scanning whole lines with more text behind them

A step in whole lines that leaves no literal open is the same step whatever follows.  A step that
leaves one open runs on into the text that follows.  So a run over whole lines passes their end,
when more text follows, exactly if no literal is open there.
-/

namespace MarkupLayout

open ScanStep (LiteralBody Shape)

def ScanStep.extend (step : ScanStep) (r : Text) : ScanStep :=
  { step with rest := step.rest ++ r }

/-- A literal that is left open goes on with `r` behind it: its content, cut short before, takes in
`more` of what follows, and the pieces of `tail` stand behind the content. -/
structure ScanStep.RunsOn (g : Grammar) (r : Text) (short long : ScanStep) (head : List Piece)
    (content more : Text) (tail : List Piece) : Prop where
  cutShort : short.pieces = head ++ pieceOf .literalContent content
  readOn : long.pieces = head ++ (pieceOf .literalContent (content ++ more) ++ tail)
  append : more ++ (tail.flatMap Piece.text ++ long.rest) = r
  noSpace : ∀ piece ∈ tail, piece.kind ≠ .space
  visible : g.SoundEmbedding →
    long.rest = [] ∨ ∃ c ∈ more ++ tail.flatMap Piece.text, Text.isIndentChar c = false

def TokenKind.isLiteralText : TokenKind → Bool
  | literalContent | literalEnd _ => true
  | _ => false

/-- A literal that is left open holds the indentation of the next line, which goes on with `r`, in
one piece: between `before` and `behind`, whatever the indentation is. -/
structure ScanStep.HoldsIndent (r : Text) (short : ScanStep) (long : Text → ScanStep)
    (head : List Piece) (kind : TokenKind) (before behind : Text) (after : ScanStep) : Prop where
  literal : kind.isLiteralText = true
  cutShort : head.flatMap Piece.text ++ before = short.pieces.flatMap Piece.text
  visible : after.rest = [] ∨ behind ++ after.pieces.flatMap Piece.text ≠ []
  readOn : ∀ w : Text, w.all Text.isIndentChar = true → long (w ++ r) =
    { after with pieces := head ++ ⟨kind, before ++ (w ++ behind)⟩ :: after.pieces }

/-- A literal is left open, and read on in the text that follows. -/
structure ScanStep.Overshoots (g : Grammar) (short : ScanStep) (long : Text → ScanStep) :
    Prop where
  runsOn : ∀ r, ∃ head content more tail, RunsOn g r short (long r) head content more tail
  holdsIndent : g.VisibleEmbedding → ∀ r : Text, r ≠ [] →
    ∃ head kind before behind after, HoldsIndent r short long head kind before behind after

inductive ScanStep.Extends (g : Grammar) (ctx : ScanContext) :
    (short : ScanStep) → (long : Text → ScanStep) → Prop
  | closed {short : ScanStep} {long : Text → ScanStep} (hshape : Shape g ctx false short)
      (heq : ∀ r, long r = short.extend r) : Extends g ctx short long
  | overshoots {short : ScanStep} {long : Text → ScanStep} (hshape : Shape g ctx true short)
      (hruns : Overshoots g short long) : Extends g ctx short long

namespace ScanStep.RunsOn

variable {g : Grammar} {r content more : Text} {short long : ScanStep} {head tail : List Piece}

theorem precededBy (h : RunsOn g r short long head content more tail) (piece : Piece) :
    RunsOn g r (short.precededBy piece) (long.precededBy piece) (piece :: head) content more
      tail where
  cutShort := congrArg (piece :: ·) h.cutShort
  readOn := congrArg (piece :: ·) h.readOn
  append := h.append
  noSpace := h.noSpace
  visible := h.visible

theorem length_rest_lt (h : RunsOn g r short long head content more tail)
    (hg : g.SoundEmbedding) (hr : r ≠ []) : long.rest.length < r.length := by
  rcases h.visible hg with hrest | ⟨c, hc, -⟩
  · rw [hrest]
    exact List.length_pos_iff.mpr hr
  · have hpos := List.length_pos_of_mem hc
    have hlength := congrArg List.length h.append
    simp only [List.length_append] at hpos hlength
    omega

end ScanStep.RunsOn

theorem ScanStep.HoldsIndent.precededBy {r : Text} {short : ScanStep} {long : Text → ScanStep}
    {head : List Piece} {kind : TokenKind} {before behind : Text} {after : ScanStep}
    (h : HoldsIndent r short long head kind before behind after) (piece : Piece) :
    HoldsIndent r (short.precededBy piece) (fun r => (long r).precededBy piece) (piece :: head)
      kind before behind after where
  literal := h.literal
  cutShort := by
    simp only [ScanStep.precededBy, List.flatMap_cons, List.append_assoc, h.cutShort]
  visible := h.visible
  readOn := fun w hw => congrArg (ScanStep.precededBy piece) (h.readOn w hw)

theorem ScanStep.Overshoots.precededBy {g : Grammar} {short : ScanStep} {long : Text → ScanStep}
    (h : Overshoots g short long) (piece : Piece) :
    Overshoots g (short.precededBy piece) (fun r => (long r).precededBy piece) where
  runsOn := fun r => by
    obtain ⟨head, content, more, tail, hruns⟩ := h.runsOn r
    exact ⟨_, content, more, tail, hruns.precededBy piece⟩
  holdsIndent := fun hg r hr => by
    obtain ⟨head, kind, before, behind, after, hholds⟩ := h.holdsIndent hg r hr
    exact ⟨_, kind, before, behind, after, hholds.precededBy piece⟩

/-! ## Plain pieces -/

namespace ScanContext

variable {s : Text} (g : Grammar) (ctx : ScanContext)

theorem plainWord_append (word : Text) (h : s.getLast? = some '\n') (r : Text) :
    ctx.plainWord word (s ++ r) = (ctx.plainWord word s).extend r := by
  cases s with
  | nil => simp at h
  | cons c s =>
      rw [List.cons_append]
      by_cases hc : c = '.'
      · subst hc
        have hs := Text.getLast?_of_cons h (by decide)
        simp only [plainWord, Text.head?_append_of_getLast? hs]
        split <;> rfl
      · simp [plainWord, hc, emit, ScanStep.extend]

theorem keywordOrPlain_append (word : Text) (h : s.getLast? = some '\n') (r : Text) :
    ctx.keywordOrPlain g word (s ++ r) = (ctx.keywordOrPlain g word s).extend r := by
  unfold keywordOrPlain
  split
  · split
    · rfl
    · exact ctx.plainWord_append word h r
  · exact ctx.plainWord_append word h r

theorem word_append (text : Text) (h : s.getLast? = some '\n') (r : Text) :
    ctx.word g text (s ++ r) = (ctx.word g text s).extend r := by
  cases s with
  | nil => simp at h
  | cons c s =>
      have hplain := ctx.keywordOrPlain_append g text h r
      rw [List.cons_append] at hplain ⊢
      by_cases hc : c = ':'
      · subst hc
        have hs := Text.getLast?_of_cons h (by decide)
        simp only [word, Text.head?_append_of_getLast? hs]
        split
        · rfl
        · exact hplain
      · simp only [word, hc, List.cons.injEq, false_and, imp_self, implies_true]
        exact hplain

theorem operator_append (text : Text) (h : s.getLast? = some '\n') (r : Text) :
    ctx.operator g text (s ++ r) = (ctx.operator g text s).extend r := by
  simp only [operator, Text.head?_append_of_getLast? h]
  repeat' split
  all_goals rfl

theorem hashes_append (text : Text) (h : s.getLast? = some '\n') (r : Text) :
    ctx.hashes g text (s ++ r) = (ctx.hashes g text s).extend r := by
  simp only [hashes, Text.head?_append_of_getLast? h]
  split <;> rfl

theorem colons_append (text : Text) (h : s.getLast? = some '\n') (r : Text) :
    ctx.colons g text (s ++ r) = (ctx.colons g text s).extend r := by
  simp only [colons, Text.head?_append_of_getLast? h]
  repeat' split
  all_goals rfl

end ScanContext

/-! ## Literals -/

theorem quotedStep_append_of_ne_nil {g : Grammar} (hg : g.LineEmbedding) {q : Char}
    (embeddings : List Embedding) (depth : Nat) {s : Text} (hs : s.IsWhole)
    (h : (Literal.quoted g q s).2 ≠ []) (r : Text) :
    quotedStep g q embeddings depth (s ++ r) = (quotedStep g q embeddings depth s).extend r := by
  obtain ⟨c, rest, hfound⟩ := List.exists_cons_of_ne_nil h
  have happend := Literal.quoted_append_of_ne_nil hg hs h r
  rw [hfound] at happend
  simp only [quotedStep, happend, hfound, List.cons_append]
  split
  · rfl
  · rename_i hc
    have hopen := Literal.interpolationOpen_prefix hfound hc
    simp only [ScanStep.extend, ← List.cons_append, List.drop_append_of_le_length hopen.length_le]

theorem quotedStep_runsOn {g : Grammar} (hg : g.LineEmbedding) {q : Char} (hq : IsMark q)
    (embeddings : List Embedding) (depth : Nat) {s : Text} (hs : s.IsWhole)
    (h : (Literal.quoted g q s).2 = []) (r : Text) :
    ∃ more tail, ScanStep.RunsOn g r (quotedStep g q embeddings depth s)
      (quotedStep g q embeddings depth (s ++ r)) [] s more tail := by
  have hcontent : (Literal.quoted g q s).1 = s := by
    have happend := Literal.unescapedSpan_append (Literal.interruptsQuoted g q) s
    change (Literal.quoted g q s).1 ++ (Literal.quoted g q s).2 = s at happend
    rwa [h, List.append_nil] at happend
  have hr : (Literal.quoted g q r).1 ++ (Literal.quoted g q r).2 = r :=
    Literal.unescapedSpan_append _ r
  have hshort : (quotedStep g q embeddings depth s).pieces = pieceOf .literalContent s := by
    simp only [quotedStep, h, hcontent]
  have happend := Literal.quoted_append_of_eq_nil hg hs h r
  cases hnext : (Literal.quoted g q r).2 with
  | nil =>
      rw [hnext, List.append_nil] at hr
      refine ⟨r, [], hshort, ?_, ?_, by simp, fun _ => .inl ?_⟩
      all_goals simp [quotedStep, happend, hnext, hr]
  | cons c rest =>
      rw [hnext] at hr
      by_cases hc : c = q
      · refine ⟨(Literal.quoted g q r).1, [⟨.literalEnd .quote, [c]⟩], hshort, ?_, ?_, by simp,
          fun _ => .inr ⟨c, by simp, hc ▸ hq.isIndentChar_eq⟩⟩
        · simp [quotedStep, happend, hnext, hc]
        · simpa [quotedStep, happend, hnext, hc] using hr
      · have hopen := List.prefix_iff_eq_append.mp (Literal.interpolationOpen_prefix hnext hc)
        refine ⟨(Literal.quoted g q r).1, [⟨.openBracket .interpolationBegin, g.interpolationOpen⟩],
          hshort, ?_, ?_, by simp, fun hsound => .inr ?_⟩
        · simp [quotedStep, happend, hnext, hc]
        · simpa [quotedStep, happend, hnext, hc, hopen] using hr
        · obtain ⟨d, hd, hvisible⟩ := hsound.visible
          exact ⟨d, by simp [hd], hvisible⟩

theorem quotedStep_holdsIndent {g : Grammar} (hg : g.VisibleEmbedding) {q : Char} (hq : IsMark q)
    (embeddings : List Embedding) (depth : Nat) {s : Text} (hs : s.getLast? = some '\n')
    (h : (Literal.quoted g q s).2 = []) (r : Text) :
    ∃ behind after, ScanStep.HoldsIndent r (quotedStep g q embeddings depth s)
      (fun r => quotedStep g q embeddings depth (s ++ r)) [] .literalContent s behind after := by
  have htext := quotedStep_append g q embeddings depth s
  have hrest : (quotedStep g q embeddings depth s).rest = [] := by simp only [quotedStep, h]
  rw [hrest, List.append_nil] at htext
  have happend {w : Text} (hw : w.all Text.isIndentChar = true) :
      Literal.quoted g q (s ++ (w ++ r)) =
        (s ++ (w ++ (Literal.quoted g q r).1), (Literal.quoted g q r).2) := by
    rw [Literal.quoted_append_of_eq_nil hg.toLineEmbedding (.inr hs) h,
      Literal.quoted_indent hg hq hw]
  have hne (behind : Text) : s ++ behind ≠ [] := by
    rintro hnil
    simp [(List.append_eq_nil_iff.mp hnil).1] at hs
  cases hnext : (Literal.quoted g q r).2 with
  | nil =>
      refine ⟨(Literal.quoted g q r).1, ⟨[], [], embeddings, depth⟩, rfl, htext.symm, .inl rfl, ?_⟩
      intro w hw
      simp only [quotedStep, happend hw, hnext, pieceOf_of_ne_nil _ (hne _)]
      rfl
  | cons c rest =>
      by_cases hc : c = q
      · refine ⟨(Literal.quoted g q r).1,
          ⟨[⟨.literalEnd .quote, [c]⟩], rest, embeddings, depth⟩, rfl, htext.symm,
          .inr (by simp), ?_⟩
        intro w hw
        simp only [quotedStep, happend hw, hnext, pieceOf_of_ne_nil _ (hne _), if_pos hc]
        rfl
      · obtain ⟨d, hd, -⟩ := hg.visible
        refine ⟨(Literal.quoted g q r).1,
          ⟨[⟨.openBracket .interpolationBegin, g.interpolationOpen⟩],
            (c :: rest).drop g.interpolationOpen.length, ⟨q, 0⟩ :: embeddings, depth + 1⟩, rfl,
          htext.symm, .inr (by simp [List.ne_nil_of_mem hd]), ?_⟩
        intro w hw
        simp only [quotedStep, happend hw, hnext, pieceOf_of_ne_nil _ (hne _), if_neg hc]
        rfl

namespace ScanStep.Extends

variable {g : Grammar} {ctx : ScanContext}

theorem of_quotedStep (hg : g.LineEmbedding) {q : Char} (hq : IsMark q)
    {embeddings : List Embedding} {depth : Nat} {s : Text} (hs : s.getLast? = some '\n')
    (piece : Piece) (hshape : ∀ {isOpen body}, LiteralBody g .quote embeddings depth isOpen body →
      Shape g ctx isOpen (body.precededBy piece)) :
    Extends g ctx ((quotedStep g q embeddings depth s).precededBy piece)
      (fun r => (quotedStep g q embeddings depth (s ++ r)).precededBy piece) := by
  have hbody := quotedStep_body g hq embeddings depth s
  by_cases hfound : (Literal.quoted g q s).2 = []
  · have hruns : Overshoots g (quotedStep g q embeddings depth s)
        (fun r => quotedStep g q embeddings depth (s ++ r)) := by
      constructor
      · intro r
        obtain ⟨more, tail, hruns⟩ := quotedStep_runsOn hg hq embeddings depth (.inr hs) hfound r
        exact ⟨_, _, more, tail, hruns⟩
      · intro hvisible r _
        obtain ⟨behind, after, hholds⟩ :=
          quotedStep_holdsIndent hvisible hq embeddings depth hs hfound r
        exact ⟨_, _, _, behind, after, hholds⟩
    rw [hfound] at hbody
    exact .overshoots (hshape hbody) (hruns.precededBy piece)
  · rw [List.isEmpty_eq_false_iff.mpr hfound] at hbody
    refine .closed (hshape hbody) fun r => ?_
    rw [quotedStep_append_of_ne_nil hg embeddings depth (.inr hs) hfound]
    rfl

end ScanStep.Extends

namespace ScanContext

open ScanStep (Extends)

variable {g : Grammar} {ctx : ScanContext} {s : Text} {c : Char}

theorem quote_extends (hg : g.LineEmbedding) (mark : QuoteMark) (hc : IsMark c)
    (h : s.getLast? = some '\n') :
    Extends g ctx (ctx.quote g mark c s) (fun r => ctx.quote g mark c (s ++ r)) := by
  have hline : '\n' ∉ [c] := by simpa using hc.ne_lineFeed.symm
  simp only [quote, Literal.closesOnLine_append c h]
  split
  · exact .closed (ctx.emit_shape (Piece.fits_of_onLine g s rfl (by simp) rfl (by simp) (by simp)
      hline)) fun _ => rfl
  · exact .of_quotedStep hg hc h _ fun hbody =>
      .literal .quote [] [c] [] _ (by simp) hline rfl (.inr ⟨rfl, rfl⟩) hbody

theorem closeBracket_extends (hg : g.LineEmbedding) (hctx : ctx.WellQuoted) {kind : OpenKind}
    (hkind : g.closing? c = some kind) (hc : c ≠ '\n') (h : s.getLast? = some '\n') :
    Extends g ctx (ctx.closeBracket g kind c s) (fun r => ctx.closeBracket g kind c (s ++ r)) := by
  unfold closeBracket
  split
  · rename_i hnil
    exact .closed (.closes kind c s [] hkind hc (by simp [hnil])) fun _ => rfl
  · rename_i e outer hcons
    have he : IsMark e.quote := hctx e.quote (by simp [hcons])
    split
    · exact .of_quotedStep hg he h _ fun hbody => .resumes e outer c _ hcons hc hbody
    · exact .closed (.closes kind c s _ hkind hc (by simp [hcons])) fun _ => rfl

theorem otherChar_extends (hg : g.LineEmbedding) (hctx : ctx.WellQuoted) (hc : IsMark c)
    (h : s.getLast? = some '\n') :
    Extends g ctx (ctx.otherChar g c s) (fun r => ctx.otherChar g c (s ++ r)) := by
  unfold otherChar
  split
  · rename_i kind hkind
    exact .closed (ctx.openBracket_shape g s hkind hc.ne_lineFeed) fun _ => rfl
  · split
    · rename_i kind hkind
      exact closeBracket_extends hg hctx hkind hc.ne_lineFeed h
    · split
      · exact quote_extends hg _ hc h
      · exact .closed (ctx.emit_shape (Piece.fits_of_onLine g s rfl (by simp) rfl (by simp)
          (by simp) (by simpa using hc.ne_lineFeed.symm))) fun _ => rfl

theorem codeSpan_runsOn (g : Grammar) (ctx : ScanContext) (hspan : g.codeSpan = some '\x60')
    {text : Text} (htext : text ≠ []) (h : s.getLast? = some '\n')
    (hfound : Literal.beforeBackticks? text.length s = none) (r : Text) :
    ∃ more tail, ScanStep.RunsOn g r (ctx.codeSpan g text s) (ctx.codeSpan g text (s ++ r))
      [⟨.literalBegin .codeSpan, text⟩] s more tail := by
  have happend := Literal.beforeBackticks?_append_of_eq_none (.inr h) hfound r
  have hshort : (ctx.codeSpan g text s).pieces =
      [⟨.literalBegin .codeSpan, text⟩] ++ pieceOf .literalContent s := by
    simp [codeSpan, hspan, hfound]
  cases hnext : Literal.beforeBackticks? text.length r with
  | none =>
      refine ⟨r, [], hshort, ?_, ?_, by simp, fun _ => .inl ?_⟩
      all_goals simp [codeSpan, hspan, happend, hnext]
  | some parts =>
      obtain ⟨content, closing⟩ := parts
      obtain ⟨hr, hlength⟩ := Literal.eq_of_beforeBackticks?_eq_some hnext
      refine ⟨content, [⟨.literalEnd .codeSpan, closing.takeWhile (· == '\x60')⟩], hshort, ?_, ?_,
        by simp, fun _ => .inr ?_⟩
      · simp [codeSpan, hspan, happend, hnext]
      · simpa [codeSpan, hspan, happend, hnext, List.takeWhile_append_dropWhile] using hr
      · have hne : closing.takeWhile (· == '\x60') ≠ [] := by
          intro hnil
          rw [hnil] at hlength
          exact htext (List.eq_nil_of_length_eq_zero hlength.symm)
        obtain ⟨c, hc⟩ := List.exists_mem_of_ne_nil _ hne
        obtain rfl : c = '\x60' := by simpa using List.mem_takeWhile_imp hc
        exact ⟨'\x60', by simp [hc], rfl⟩

theorem codeSpan_holdsIndent (g : Grammar) (ctx : ScanContext) (hspan : g.codeSpan = some '\x60')
    {text : Text} (htext : text ≠ []) (h : s.getLast? = some '\n')
    (hfound : Literal.beforeBackticks? text.length s = none) (r : Text) :
    ∃ behind after, ScanStep.HoldsIndent r (ctx.codeSpan g text s)
      (fun r => ctx.codeSpan g text (s ++ r)) [⟨.literalBegin .codeSpan, text⟩] .literalContent s
      behind after := by
  have hshort : [⟨.literalBegin .codeSpan, text⟩].flatMap Piece.text ++ s =
      (ctx.codeSpan g text s).pieces.flatMap Piece.text := by
    simp [codeSpan, hspan, hfound]
  have happend {w : Text} (hw : w.all Text.isIndentChar = true) :
      Literal.beforeBackticks? text.length (s ++ (w ++ r)) =
        (Literal.beforeBackticks? text.length r).map fun parts =>
          (s ++ (w ++ parts.1), parts.2) := by
    rw [Literal.beforeBackticks?_append_of_eq_none (.inr h) hfound,
      Literal.beforeBackticks?_indent hw, Option.map_map]
    rfl
  have hne (behind : Text) : s ++ behind ≠ [] := by
    rintro hnil
    simp [(List.append_eq_nil_iff.mp hnil).1] at h
  cases hnext : Literal.beforeBackticks? text.length r with
  | none =>
      refine ⟨r, ⟨[], [], ctx.embeddings, ctx.depth⟩, rfl, hshort, .inl rfl, ?_⟩
      intro w hw
      simp [codeSpan, hspan, happend hw, hnext, pieceOf_of_ne_nil _ (hne _)]
  | some parts =>
      obtain ⟨content, closing⟩ := parts
      obtain ⟨-, hlength⟩ := Literal.eq_of_beforeBackticks?_eq_some hnext
      have hclosing : closing.takeWhile (· == '\x60') ≠ [] := by
        intro hnil
        rw [hnil] at hlength
        exact htext (List.eq_nil_of_length_eq_zero hlength.symm)
      refine ⟨content, ⟨[⟨.literalEnd .codeSpan, closing.takeWhile (· == '\x60')⟩],
        closing.dropWhile (· == '\x60'), ctx.embeddings, ctx.depth⟩, rfl, hshort,
        .inr (by simp [hclosing]), ?_⟩
      intro w hw
      simp [codeSpan, hspan, happend hw, hnext, pieceOf_of_ne_nil _ (hne _)]

theorem codeSpan_extends (g : Grammar) (ctx : ScanContext) {text : Text} (htext : text ≠ [])
    (hline : '\n' ∉ text) (h : s.getLast? = some '\n') :
    Extends g ctx (ctx.codeSpan g text s) (fun r => ctx.codeSpan g text (s ++ r)) := by
  have hshape := ctx.codeSpan_shape g s htext hline
  by_cases hspan : g.codeSpan = some '\x60'
  · cases hfound : Literal.beforeBackticks? text.length s with
    | some parts =>
        obtain ⟨content, closing⟩ := parts
        obtain ⟨happend, hlength⟩ := Literal.eq_of_beforeBackticks?_eq_some hfound
        have hclosing : closing.getLast? = some '\n' := by
          rcases Text.IsWhole.of_append (s := content) (t := closing) (.inr (happend ▸ h)) with
            rfl | hclosing
          · exact absurd (List.eq_nil_of_length_eq_zero hlength.symm) htext
          · exact hclosing
        rw [hspan, hfound] at hshape
        refine .closed hshape fun r => ?_
        rw [codeSpan, if_neg (by simp [hspan]), codeSpan, if_neg (by simp [hspan]), hfound,
          Literal.beforeBackticks?_append_of_eq_some (.inr h) hfound]
        simp only [Text.takeWhile_append_of_getLast? hclosing (p := (· == '\x60')) (by rfl),
          Text.dropWhile_append_of_getLast? hclosing (p := (· == '\x60')) (by rfl)]
        rfl
    | none =>
        rw [hspan, hfound] at hshape
        refine .overshoots hshape ⟨fun r => ?_, fun _ r _ => ?_⟩
        · obtain ⟨more, tail, hruns⟩ := codeSpan_runsOn g ctx hspan htext h hfound r
          exact ⟨_, _, more, tail, hruns⟩
        · obtain ⟨behind, after, hholds⟩ := codeSpan_holdsIndent g ctx hspan htext h hfound r
          exact ⟨_, _, _, behind, after, hholds⟩
  · rw [beq_eq_false_iff_ne.mpr hspan, Bool.false_and] at hshape
    refine .closed hshape fun r => ?_
    rw [codeSpan, if_pos hspan, codeSpan, if_pos hspan]
    rfl

theorem lexeme_append (hbackticks : Lexeme.startKind c s ≠ .backticks)
    (hother : Lexeme.startKind c s ≠ .other) (h : (c :: s).getLast? = some '\n') (r : Text) :
    ctx.lexeme g c (s ++ r) = (ctx.lexeme g c s).extend r := by
  have hrest := Lexeme.getLast?_first_rest h
  simp only [lexeme, Lexeme.first_append_of_getLast? h, Lexeme.kind_first]
  split <;> rename_i hkind <;> rw [hkind] at hrest
  · rfl
  · rfl
  · exact ctx.word_append g _ (hrest (by simp)) r
  · exact ctx.operator_append g _ (hrest (by simp)) r
  · exact ctx.hashes_append g _ (hrest (by simp)) r
  · rfl
  · exact ctx.colons_append g _ (hrest (by simp)) r
  · rfl
  · contradiction
  · contradiction

theorem lexeme_extends (hg : g.LineEmbedding) (hctx : ctx.WellQuoted)
    (h : (c :: s).getLast? = some '\n') :
    Extends g ctx (ctx.lexeme g c s) (fun r => ctx.lexeme g c (s ++ r)) := by
  have hkind (r : Text) := Lexeme.startKind_append_of_getLast? h r
  by_cases hbackticks : Lexeme.startKind c s = .backticks
  · obtain ⟨tail, htail, -⟩ := Lexeme.text_first_eq_cons c s
    simp only [lexeme_of_backticks g ctx hbackticks,
      lexeme_of_backticks g ctx ((hkind _).trans hbackticks), Lexeme.first_append_of_getLast? h]
    exact codeSpan_extends g ctx (by simp [htail])
      (Lexeme.lineFeed_notMem_first (by simp [hbackticks]))
      (Lexeme.getLast?_first_rest h (by simp [hbackticks]))
  · by_cases hother : Lexeme.startKind c s = .other
    · have hc := Lexeme.isMark_of_startKind hother
      simp only [lexeme_of_other g ctx hother, lexeme_of_other g ctx ((hkind _).trans hother)]
      exact otherChar_extends hg hctx hc (Text.getLast?_of_cons h hc.ne_lineFeed)
    · exact .closed (ctx.lexeme_shape_of_plain g hbackticks hother)
        (lexeme_append hbackticks hother h)

theorem fenceStep_runsOn (g : Grammar) (ctx : ScanContext) {f : Char} {info t : Text}
    (hline : t.firstLine.dropWhile Text.isIndentChar = f :: info) (h : t.getLast? = some '\n')
    (hfound : (Literal.fenced f ((f :: info).takeWhile (· == f)).length t.afterFirstLine).2 = [])
    (r : Text) :
    ∃ head content more tail, ScanStep.RunsOn g r (ctx.fenceStep f info t)
      (ctx.fenceStep f info (t ++ r)) head content more tail := by
  have hwhole := Text.isWhole_afterFirstLine (.inr h)
  have hrun : 0 < ((f :: info).takeWhile (· == f)).length := by simp
  have hf : Text.isIndentChar f = false := by
    have hhead := List.head_dropWhile_not Text.isIndentChar (l := t.firstLine) (by simp [hline])
    simpa [hline] using hhead
  simp only [fenceStep, Text.firstLine_append_of_getLast? h, Text.firstEnding_append_of_getLast? h,
    Text.afterFirstLine_append_of_getLast? h]
  generalize ((f :: info).takeWhile (· == f)).length = run at hfound hrun ⊢
  have hcontent : (Literal.fenced f run t.afterFirstLine).1 = t.afterFirstLine := by
    have happend := Literal.fenced_append f run t.afterFirstLine
    rwa [hfound, List.append_nil] at happend
  rw [Literal.fenced_append_of_eq_nil hwhole hfound r]
  refine ⟨pieceOf .space t.firstLine.leading ++ ⟨.literalBegin .fence, f :: info⟩ ::
      pieceOf .newline t.firstEnding, t.afterFirstLine, (Literal.fenced f run r).1,
    pieceOf (.literalEnd .fence) (Literal.fenced f run r).2.firstLine, ?_, ?_, ?_, ?_, fun _ => ?_⟩
  · simp [hfound, hcontent, pieceOf, Text.firstLine, Text.stripReturn]
  · simp
  · simp only [flatMap_text_pieceOf, Text.firstLine_append_drop]
    exact Literal.fenced_append f run r
  · intro piece hpiece
    obtain ⟨rfl, -⟩ := mem_pieceOf hpiece
    simp
  · cases hnext : (Literal.fenced f run r).2 with
    | nil => exact .inl (by simp)
    | cons d behind =>
        have hmem := Literal.mem_of_closesFence hrun (Literal.closesFence_of_fenced hnext)
        exact .inr ⟨f, by simp [hmem], hf⟩

theorem fenceStep_holdsIndent (ctx : ScanContext) {f : Char} {info t : Text}
    (h : t.getLast? = some '\n')
    (hfound : (Literal.fenced f ((f :: info).takeWhile (· == f)).length t.afterFirstLine).2 = [])
    {r : Text} (hr : r ≠ []) :
    ∃ head kind before behind after, ScanStep.HoldsIndent r (ctx.fenceStep f info t)
      (fun r => ctx.fenceStep f info (t ++ r)) head kind before behind after := by
  have hwhole := Text.isWhole_afterFirstLine (.inr h)
  have hrun : 0 < ((f :: info).takeWhile (· == f)).length := by simp
  simp only [fenceStep, Text.firstLine_append_of_getLast? h, Text.firstEnding_append_of_getLast? h,
    Text.afterFirstLine_append_of_getLast? h]
  generalize ((f :: info).takeWhile (· == f)).length = run at hfound hrun ⊢
  generalize pieceOf .space t.firstLine.leading ++ ⟨.literalBegin .fence, f :: info⟩ ::
    pieceOf .newline t.firstEnding = opening
  have hcontent : (Literal.fenced f run t.afterFirstLine).1 = t.afterFirstLine := by
    have happend := Literal.fenced_append f run t.afterFirstLine
    rwa [hfound, List.append_nil] at happend
  have hempty : Text.firstLine [] = [] := rfl
  simp only [Literal.fenced_append_of_eq_nil hwhole hfound, hfound, hcontent]
  cases hcloses : Literal.closesFence f run r.firstLine with
  | true =>
      -- The next line closes the fence, with its indentation.
      have hline := Literal.mem_of_closesFence hrun hcloses
      refine ⟨opening ++ pieceOf .literalContent t.afterFirstLine, .literalEnd .fence, [],
        r.firstLine, ⟨[], r.drop r.firstLine.length, ctx.embeddings, ctx.depth⟩, rfl, ?_,
        .inr (by simp [List.ne_nil_of_mem hline]), ?_⟩
      · simp [hempty]
      · intro w hw
        have hlong : Literal.closesFence f run (w ++ r).firstLine = true := by
          rw [Text.firstLine_append_indent hw, Literal.closesFence_indent hw, hcloses]
        have hne : w ++ r.firstLine ≠ [] := by simp [List.ne_nil_of_mem hline]
        rw [Literal.fenced_of_closesFence (by simp [hr]) hlong, Text.firstLine_append_indent hw,
          pieceOf_of_ne_nil _ hne]
        simp
  | false =>
      have hne : (Literal.fenced f run r).1 ≠ [] := by
        have hshorter : r.afterFirstLine.length < r.length := by
          obtain ⟨c, r, rfl⟩ := List.exists_cons_of_ne_nil hr
          exact Text.length_afterFirstLine_lt c r
        have hlength := congrArg List.length r.firstLine_append
        rw [Literal.fenced_of_not_closesFence hr hcloses, ← List.length_pos_iff]
        simp only [List.length_append] at hlength ⊢
        omega
      refine ⟨opening, .literalContent, t.afterFirstLine, (Literal.fenced f run r).1,
        ⟨pieceOf (.literalEnd .fence) (Literal.fenced f run r).2.firstLine,
          (Literal.fenced f run r).2.drop (Literal.fenced f run r).2.firstLine.length,
          ctx.embeddings, ctx.depth⟩, rfl, ?_, .inr (by simp [hne]), ?_⟩
      · simp [hempty]
      · intro w hw
        rw [Literal.fenced_indent hr hcloses hw, pieceOf_of_ne_nil _ (by simp [hne])]
        simp

theorem fenceStep_extends (g : Grammar) (ctx : ScanContext) {f : Char} {info t : Text}
    (hline : t.firstLine.dropWhile Text.isIndentChar = f :: info) (h : t.getLast? = some '\n') :
    Extends g ctx (ctx.fenceStep f info t) (fun r => ctx.fenceStep f info (t ++ r)) := by
  have hshape := ctx.fenceStep_shape g hline
  have hwhole := Text.isWhole_afterFirstLine (.inr h)
  cases hfound :
    (Literal.fenced f ((f :: info).takeWhile (· == f)).length t.afterFirstLine).2 with
  | cons d behind =>
      have hbehind : (d :: behind).getLast? = some '\n' := by
        have happend := Literal.fenced_append f ((f :: info).takeWhile (· == f)).length
          t.afterFirstLine
        rw [hfound] at happend
        rw [← happend] at hwhole
        exact hwhole.of_append.getLast? (by simp)
      have hlength := congrArg List.length (Text.firstLine_append_drop (d :: behind))
      have happend := Literal.fenced_append_of_ne_nil hwhole (by rw [hfound]; simp)
      rw [hfound] at hshape
      refine .closed hshape fun r => ?_
      simp only [fenceStep, Text.firstLine_append_of_getLast? h,
        Text.firstEnding_append_of_getLast? h, Text.afterFirstLine_append_of_getLast? h,
        happend, hfound]
      rw [Text.firstLine_append_of_getLast? hbehind, List.drop_append_of_le_length]
      · rfl
      · simp only [List.length_append] at hlength
        omega
  | nil =>
      rw [hfound] at hshape
      exact .overshoots hshape ⟨fenceStep_runsOn g ctx hline h hfound,
        fun _ r hr => ctx.fenceStep_holdsIndent h hfound hr⟩

/-- Every step in whole lines is either the same with more text behind, or overshoots. -/
theorem step_extends (hg : g.LineEmbedding) (hctx : ctx.WellQuoted)
    (h : (c :: s).getLast? = some '\n') :
    Extends g ctx (ctx.step g c s) (fun r => ctx.step g c (s ++ r)) := by
  unfold step
  split
  · simp only [fence?_eq, ← List.cons_append, Text.firstLine_append_of_getLast? h]
    split
    · exact lexeme_extends hg hctx h
    · rename_i f info hline
      split
      · exact fenceStep_extends g ctx hline h
      · exact lexeme_extends hg hctx h
  · exact lexeme_extends hg hctx h

end ScanContext

/-! ## Runs -/

namespace Scans

variable {g : Grammar} {ctx ctx' : ScanContext} {s t r : Text} {pieces : List Piece}

theorem extend (hg : g.LineEmbedding) (h : Scans g ctx s pieces ctx' t) (hctx : ctx.WellQuoted)
    (hs : s.IsWhole)
    (hframes : (pieces.map Piece.kind).foldl Literal.pass ctx.frames = ctx'.frames) (r : Text) :
    Scans g ctx (s ++ r) pieces ctx' (t ++ r) := by
  induction h with
  | here ctx t => exact .here ctx (t ++ r)
  | @step ctx ctx' c rest t pieces more ih =>
      rw [List.map_append, List.foldl_append] at hframes
      cases ScanContext.step_extends hg hctx (hs.getLast? (by simp)) with
      | closed hshape heq =>
          rw [hshape.foldl_pass hg] at hframes
          have hmore := ih (hshape.wellQuoted_advance hctx) (ctx.isWhole_step_rest g hs) hframes
          have hstep := @Scans.step g ctx ctx' c (rest ++ r) (t ++ r) pieces (heq r ▸ hmore)
          rwa [heq] at hstep
      | overshoots hshape _ =>
          rw [hshape.foldl_pass hg] at hframes
          rw [hshape.rest_eq_nil] at more
          obtain ⟨rfl, rfl, rfl⟩ := more.nil_inv
          have hfalse : true = false := literalFrame_inj hframes
          simp at hfalse

/-- A run over whole lines that leaves a literal open comes to the step that opens this literal
whatever follows, and the step runs on. -/
theorem exists_overshoots (hg : g.LineEmbedding) (h : Scans g ctx s pieces ctx' t)
    (hctx : ctx.WellQuoted) (hs : s.IsWhole)
    (hframes : (pieces.map Piece.kind).foldl Literal.pass ctx.frames =
      literalFrame true ++ ctx'.frames) :
    ∃ before reached c rest, (∀ r, Scans g ctx (s ++ r) before reached (c :: (rest ++ r))) ∧
      pieces = before ++ (reached.step g c rest).pieces ∧
      ScanStep.Overshoots g (reached.step g c rest) fun r => reached.step g c (rest ++ r) := by
  induction h with
  | here ctx t =>
      have hfalse : false = true := literalFrame_inj hframes
      simp at hfalse
  | @step ctx ctx' c rest t pieces more ih =>
      rw [List.map_append, List.foldl_append] at hframes
      cases ScanContext.step_extends hg hctx (hs.getLast? (by simp)) with
      | closed hshape heq =>
          rw [hshape.foldl_pass hg] at hframes
          obtain ⟨before, reached, d, left, hrun, rfl, hruns⟩ :=
            ih (hshape.wellQuoted_advance hctx) (ctx.isWhole_step_rest g hs) hframes
          refine ⟨_, reached, d, left, fun r => ?_, (List.append_assoc ..).symm, hruns⟩
          have hstep := @Scans.step g ctx reached c (rest ++ r) (d :: (left ++ r)) before
            (heq r ▸ hrun r)
          rwa [heq] at hstep
      | overshoots hshape hruns =>
          rw [hshape.rest_eq_nil] at more
          obtain ⟨rfl, -, -⟩ := more.nil_inv
          exact ⟨[], ctx, c, rest, fun r => .here _ _, by simp, hruns⟩

theorem of_append (hg : g.SoundEmbedding) (h : Scans g ctx (s ++ r) pieces ctx' r)
    (hctx : ctx.WellQuoted) (hs : s.IsWhole) (hr : r ≠ []) :
    Scans g ctx s pieces ctx' [] ∧
      (pieces.map Piece.kind).foldl Literal.pass ctx.frames = ctx'.frames := by
  generalize ht : s ++ r = t at h
  induction h generalizing s with
  | here ctx t =>
      obtain rfl : s = [] := List.append_left_eq_self.mp ht
      exact ⟨.here ctx [], rfl⟩
  | @step ctx ctx' c rest r pieces more ih =>
      have hlength := congrArg List.length more.text_append
      rw [List.length_append] at hlength
      cases s with
      | nil =>
          have hshorter := (ctx.step_cuts g c rest).shorter
          have hsame := congrArg List.length ht
          rw [List.nil_append] at hsame
          omega
      | cons d s =>
          simp only [List.cons_append, List.cons.injEq] at ht
          obtain ⟨rfl, rfl⟩ := ht
          cases ScanContext.step_extends hg.toLineEmbedding hctx (hs.getLast? (by simp)) with
          | overshoots _ hovershoots =>
              obtain ⟨_, _, _, _, hruns⟩ := hovershoots.runsOn r
              have hrest := hruns.length_rest_lt hg hr
              omega
          | closed hshape heq =>
              rw [heq] at more ih ⊢
              obtain ⟨hrun, hframes⟩ := ih (hshape.wellQuoted_advance hctx)
                (ctx.isWhole_step_rest g hs) hr rfl
              refine ⟨.step hrun, ?_⟩
              rw [List.map_append, List.foldl_append]
              exact (congrArg ((pieces.map Piece.kind).foldl Literal.pass ·)
                (hshape.foldl_pass hg.toLineEmbedding)).trans hframes

end Scans

/-- The pieces of whole lines at whose end no literal is open are the first ones of every longer
text. -/
theorem Literal.exists_scan_append_of_closed {g : Grammar} (hg : g.LineEmbedding) {s : Text}
    (hs : s.IsWhole) (hclosed : Literal.isOpenAfter g s = false) :
    ∃ ctx, Scans g .initial s (scan g s) ctx [] ∧
      ∀ r, Scans g .initial (s ++ r) (scan g s) ctx r := by
  obtain ⟨ctx, hrun⟩ := Scans.exists_end g .initial s
  have hframes := Literal.openFrames_of_scans hg hrun
  rw [hclosed] at hframes
  exact ⟨ctx, hrun, hrun.extend hg ScanContext.wellQuoted_initial hs hframes⟩

/-- Whole lines at whose end a literal is open end with the start of its content, which takes in
`more` of a longer text. -/
theorem Literal.exists_scan_append_of_open {g : Grammar} (hg : g.LineEmbedding) {s : Text}
    (hs : s.IsWhole) (hopen : Literal.isOpenAfter g s = true) (r : Text) :
    ∃ before content more tail later,
      scan g s = before ++ pieceOf .literalContent content ∧
      scan g (s ++ r) = before ++ (pieceOf .literalContent (content ++ more) ++ (tail ++ later)) ∧
      more ++ (tail.flatMap Piece.text ++ later.flatMap Piece.text) = r ∧
      (∀ piece ∈ tail, piece.kind ≠ .space) ∧
      (g.SoundEmbedding →
        later = [] ∨ ∃ c ∈ more ++ tail.flatMap Piece.text, Text.isIndentChar c = false) := by
  obtain ⟨ctx, hrun⟩ := Scans.exists_end g .initial s
  have hframes := Literal.openFrames_of_scans hg hrun
  rw [hopen] at hframes
  obtain ⟨before, reached, c, rest, hreached, hpieces, hovershoots⟩ :=
    hrun.exists_overshoots hg ScanContext.wellQuoted_initial hs hframes
  obtain ⟨head, content, more, tail, hruns⟩ := hovershoots.runsOn r
  refine ⟨before ++ head, content, more, tail,
    scanFrom g (reached.advance (reached.step g c (rest ++ r))) (reached.step g c (rest ++ r)).rest,
    ?_, ?_, ?_, hruns.noSpace, fun hsound => (hruns.visible hsound).imp_left ?_⟩
  · rw [scan, hpieces, hruns.cutShort, List.append_assoc]
  · rw [scan, (hreached r).scanFrom_eq, scanFrom_cons, hruns.readOn]
    simp only [List.append_assoc]
  · rw [flatMap_text_scanFrom]
    exact hruns.append
  · intro hend
    rw [hend, scanFrom_nil]

theorem Literal.isOpenAfter_eq_false {g : Grammar} (hg : g.SoundEmbedding) {ctx : ScanContext}
    {s r : Text} {pieces : List Piece} (h : Scans g .initial (s ++ r) pieces ctx r)
    (hs : s.IsWhole) (hr : r ≠ []) : Literal.isOpenAfter g s = false := by
  obtain ⟨hrun, hframes⟩ := h.of_append hg ScanContext.wellQuoted_initial hs hr
  have hscan : scan g s = pieces := by
    rw [scan, hrun.scanFrom_eq, scanFrom_nil, List.append_nil]
  rw [Literal.isOpenAfter_eq, hscan, Literal.openFrames, beq_eq_false_iff_ne]
  exact fun hhead => head?_embeddedFrames_ne _ ((congrArg List.head? hframes).symm.trans hhead)

/-! ## The end of whole lines -/

theorem ScanStep.LiteralBody.getLast?_text_ne {g : Grammar} (hg : g.LineEmbedding)
    {kind : LiteralKind} {embeddings : List Embedding} {depth : Nat} {step : ScanStep}
    (h : LiteralBody g kind embeddings depth false step) (hend : step.rest = [])
    (before : Text) :
    (before ++ step.pieces.flatMap Piece.text).getLast? ≠ some '\n' := by
  intro hlast
  cases h with
  | closed content closing rest hclosing hline =>
      rw [List.flatMap_append, List.flatMap_singleton, ← List.append_assoc,
        List.getLast?_append_of_ne_nil _ hclosing] at hlast
      exact hline (List.mem_of_getLast? hlast)
  | embeds content rest q _ _ hrest =>
      obtain rfl : rest = [] := hend
      rw [List.append_nil] at hrest
      rw [List.flatMap_append, List.flatMap_singleton, ← List.append_assoc,
        List.getLast?_append_of_ne_nil _ hrest] at hlast
      exact hg.onLine (List.mem_of_getLast? hlast)

theorem ScanStep.Shape.isLineBreak_of_getLast? {g : Grammar} (hg : g.LineEmbedding)
    {ctx : ScanContext} {step : ScanStep} (h : Shape g ctx false step)
    (hend : step.rest = []) (hlast : (step.pieces.flatMap Piece.text).getLast? = some '\n') :
    ∃ piece, step.pieces = [piece] ∧ piece.kind.isLineBreak = true := by
  cases h with
  | plain piece rest hfits =>
      refine ⟨piece, rfl, ?_⟩
      by_contra hbreak
      rw [Bool.not_eq_true] at hbreak
      rw [List.flatMap_singleton] at hlast
      exact hfits.onLine hbreak (List.mem_of_getLast? hlast)
  | opens _ _ c _ _ _ _ hc _ => exact absurd (by simpa using hlast) hc
  | closes _ c _ _ _ hc _ => exact absurd (by simpa using hlast) hc
  | resumes e outer c body _ _ hbody => exact absurd hlast (hbody.getLast?_text_ne hg hend [c])
  | literal kind blank opening gap body _ _ _ _ hbody =>
      have hne := hbody.getLast?_text_ne hg hend
        ((pieceOf .space blank ++ ⟨.literalBegin kind, opening⟩ :: pieceOf .newline gap).flatMap
          Piece.text)
      refine absurd ?_ hne
      simpa [List.append_assoc] using hlast

theorem Scans.exists_lineBreak {g : Grammar} (hg : g.LineEmbedding) {ctx ctx' : ScanContext}
    {t t' : Text} {pieces : List Piece} (h : Scans g ctx t pieces ctx' t') (hend : t' = [])
    (hctx : ctx.WellQuoted) (ht : t.getLast? = some '\n')
    (hframes : (pieces.map Piece.kind).foldl Literal.pass ctx.frames = ctx'.frames) :
    ∃ before piece, pieces = before ++ [piece] ∧ piece.kind.isLineBreak = true := by
  induction h with
  | here ctx t => simp [hend] at ht
  | @step ctx ctx' c rest t' pieces more ih =>
      obtain ⟨isOpen, hshape⟩ := ctx.step_shape g hctx c rest
      rw [List.map_append, List.foldl_append, hshape.foldl_pass hg] at hframes
      by_cases hrest : (ctx.step g c rest).rest = []
      · have htext := ctx.flatMap_text_step g hrest
        rw [hrest] at more
        obtain ⟨rfl, rfl, -⟩ := more.nil_inv
        obtain rfl : isOpen = false := literalFrame_inj hframes
        rw [List.append_nil]
        obtain ⟨piece, hpieces, hbreak⟩ := hshape.isLineBreak_of_getLast? hg hrest (htext ▸ ht)
        exact ⟨[], piece, hpieces, hbreak⟩
      · cases isOpen with
        | true => exact absurd hshape.rest_eq_nil hrest
        | false =>
            have hwhole := ctx.isWhole_step_rest g (.inr ht)
            obtain ⟨before, piece, hpieces, hbreak⟩ := ih hend (hshape.wellQuoted_advance hctx)
              (hwhole.getLast? hrest) hframes
            exact ⟨(ctx.step g c rest).pieces ++ before, piece,
              by rw [hpieces, List.append_assoc], hbreak⟩

theorem Scans.last_eq_none_of_closed {g : Grammar} (hg : g.LineEmbedding) {ctx : ScanContext}
    {s : Text} (h : Scans g .initial s (scan g s) ctx []) (hs : s.IsWhole)
    (hclosed : Literal.isOpenAfter g s = false) : ctx.last = none := by
  rw [h.last_eq]
  rcases hs with rfl | hlast
  · rw [scan, scanFrom_nil]
    rfl
  · have hframes := Literal.openFrames_of_scans hg h
    rw [hclosed] at hframes
    obtain ⟨before, piece, hpieces, hbreak⟩ :=
      h.exists_lineBreak hg rfl ScanContext.wellQuoted_initial hlast hframes
    rw [hpieces, ScanContext.last_foldl_pass_concat, if_pos hbreak]

end MarkupLayout

import MarkupLayout.Proofs.IndentedScan
import MarkupLayout.Proofs.LineHead
import MarkupLayout.Proofs.LiteralExtent
/-!
# Literals end where they should

The tokens behind the start of a literal are its content, up to the first place that ends it, and
the end; or just the content, if no place ends it.  A code span looks for a run of as many
backticks, a fence for a closing line, a double-quoted string for its quote or for embedded code,
and a single quote only starts a string that ends on its line.
-/

namespace MarkupLayout

open Text (FirstPlace SplitsAt)

/-! ## Content and end -/

namespace Literal

/-- The pieces behind the start of a literal: the content up to the first place of the text with a
property and the piece that ends it there, or all of the text if there is no such place. -/
inductive EndsFirst (P : Text → Text → Prop) (stop : Text → Piece) (t : Text) : List Piece → Prop
  | ends {content rest : Text} (more : List Piece) (h : FirstPlace P t content rest) :
      EndsFirst P stop t (pieceOf .literalContent content ++ stop rest :: more)
  | runsOn (h : ∀ a b, a ++ b = t → ¬P a b) : EndsFirst P stop t (pieceOf .literalContent t)

variable {P Q : Text → Text → Prop} {stop : Text → Piece} {t : Text} {pieces : List Piece}

theorem EndsFirst.congr (h : EndsFirst P stop t pieces)
    (hPQ : ∀ a b, a ++ b = t → (P a b ↔ Q a b)) :
    EndsFirst Q stop t pieces := by
  cases h with
  | ends more h =>
      exact .ends more ⟨h.append, (hPQ _ _ h.append).mp h.holds,
        fun a b hsplit hab => h.first a b hsplit ((hPQ a b hsplit).mpr hab)⟩
  | runsOn h => exact .runsOn fun a b hsplit hab => h a b hsplit ((hPQ a b hsplit).mpr hab)

theorem endsFirst_of_splitsAt {parts : Text × Text} (h : SplitsAt P t parts) (hend : ∀ a, ¬P a [])
    (hnil : parts.2 = [] → pieces = pieceOf .literalContent parts.1)
    (hcons : parts.2 ≠ [] →
      ∃ more, pieces = pieceOf .literalContent parts.1 ++ stop parts.2 :: more) :
    EndsFirst P stop t pieces := by
  rcases h with h | ⟨rfl, hnever⟩
  · obtain ⟨more, rfl⟩ := hcons fun hrest => hend _ (hrest ▸ h.holds)
    exact .ends more h
  · rw [hnil rfl]
    exact .runsOn hnever

end Literal

/-! ## Where a body starts -/

/-- Kinds of the pieces behind which the body of a literal starts. -/
def TokenKind.startsBody : TokenKind → Bool
  | literalBegin _ | closeBracket .interpolationEnd => true
  | _ => false

theorem startsBody_of_mem_pieceOf {kind : TokenKind} {text : Text} {piece : Piece}
    (hkind : kind.startsBody = false) (hmem : piece ∈ pieceOf kind text) :
    piece.kind.startsBody = false := by
  rw [(mem_pieceOf hmem).1]
  exact hkind

theorem startsBody_of_isPlain {kind : TokenKind} (h : kind.isPlain = true) :
    kind.startsBody = false := by
  cases kind <;> simp_all [TokenKind.isPlain, TokenKind.startsBody]

theorem startsBody_of_mem_quotedStep {g : Grammar} {q : Char} {embeddings : List Embedding}
    {depth : Nat} {t : Text} {piece : Piece}
    (hmem : piece ∈ (quotedStep g q embeddings depth t).pieces) :
    piece.kind.startsBody = false := by
  rcases mem_quotedStep hmem with hkind | hkind | rfl
  · rw [hkind]
    rfl
  · rw [hkind]
    rfl
  · rfl

theorem eq_of_startsBody (left : List Piece) {tail inner more : List Piece} {head piece : Piece}
    (h : left ++ head :: tail = inner ++ piece :: more) (hpiece : piece.kind.startsBody = true)
    (hleft : ∀ p ∈ left, p.kind.startsBody = false)
    (htail : ∀ p ∈ tail, p.kind.startsBody = false) :
    left = inner ∧ head = piece ∧ tail = more := by
  have hnot {l : List Piece} (hl : ∀ p ∈ l, p.kind.startsBody = false) : piece ∉ l := fun hmem => by
    simp [hl piece hmem] at hpiece
  exact (List.append_cons_inj_of_notMem (hnot hleft) (hnot htail)).mp h

/-! ## Quoted strings -/

namespace Literal

/-- Reading a double-quoted string comes to its end or to embedded code. -/
def DoubleQuoteEnds (before behind : Text) : Prop :=
  Units before ∧ (behind.head? = some '\x22' ∨ ['#', '\x7b'] <+: behind)

/-- Reading a single-quoted string comes to its end on the line of its start. -/
def SingleQuoteEnds (before behind : Text) : Prop :=
  Units before ∧ '\n' ∉ before ∧ behind.head? = some '\x27'

def doubleQuoteStop (behind : Text) : Piece :=
  if behind.head? = some '\x22' then ⟨.literalEnd .quote, ['\x22']⟩
  else ⟨.openBracket .interpolationBegin, ['#', '\x7b']⟩

theorem interruptsQuoted_doubleQuote_iff (t : Text) :
    interruptsQuoted .markdown '\x22' t = true ↔
      t.head? = some '\x22' ∨ ['#', '\x7b'] <+: t := by
  have hmark : Grammar.markdown.quote? '\x22' = some ⟨'\x22', true⟩ := by decide
  rw [interruptsQuoted, hmark, Option.any_some, Bool.true_and, Bool.or_eq_true, beq_iff_eq,
    List.isPrefixOf_iff_prefix]
  rfl

theorem interruptsQuoted_singleQuote_iff (t : Text) :
    interruptsQuoted .markdown '\x27' t = true ↔ t.head? = some '\x27' := by
  have hmark : Grammar.markdown.quote? '\x27' = some ⟨'\x27', false⟩ := by decide
  rw [interruptsQuoted, hmark, Option.any_some, Bool.false_and, Bool.or_false, beq_iff_eq]

theorem quoted_splitsAt_doubleQuote (t : Text) :
    SplitsAt DoubleQuoteEnds t (quoted .markdown '\x22' t) := by
  have hspan := unescapedSpan_splitsAt (interruptsQuoted .markdown '\x22') (by decide)
    (fun t => by simp [← Bool.not_eq_true, interruptsQuoted_doubleQuote_iff]) t
  simp only [interruptsQuoted_doubleQuote_iff] at hspan
  exact hspan

theorem closesOnLine_singleQuote_iff (t : Text) :
    closesOnLine '\x27' t = true ↔ ∃ a b, a ++ b = t ∧ SingleQuoteEnds a b := by
  rw [closesOnLine_iff (by decide) (by decide)]
  constructor
  · rintro ⟨content, rest, hsplit, hunits, hline⟩
    exact ⟨content, _, hsplit, hunits, hline, rfl⟩
  · rintro ⟨content, behind, hsplit, hunits, hline, hquote⟩
    obtain ⟨rest, rfl⟩ := List.head?_eq_some_iff.mp hquote
    exact ⟨content, rest, hsplit, hunits, hline⟩

theorem quoted_singleQuote {t : Text} (h : closesOnLine '\x27' t = true) :
    FirstPlace SingleQuoteEnds t (quoted .markdown '\x27' t).1 (quoted .markdown '\x27' t).2 := by
  obtain ⟨a, b, hsplit, hunits, hline, hquote⟩ := (closesOnLine_singleQuote_iff t).mp h
  have hspan := unescapedSpan_splitsAt (interruptsQuoted .markdown '\x27') (by decide)
    (fun t => by simp [← Bool.not_eq_true, interruptsQuoted_singleQuote_iff]) t
  simp only [interruptsQuoted_singleQuote_iff] at hspan
  rcases hspan with hfirst | ⟨-, hnever⟩
  · refine ⟨hfirst.append, ⟨hfirst.holds.1, fun hmem => hline ?_, hfirst.holds.2⟩,
      fun a b hsplit hab => hfirst.first a b hsplit ⟨hab.1, hab.2.2⟩⟩
    -- The content is no longer than the text up to a quote on the line.
    exact (List.prefix_of_prefix_length_le ⟨_, hfirst.append⟩ ⟨b, hsplit⟩
      (hfirst.first a b hsplit ⟨hunits, hquote⟩)).subset hmem
  · exact absurd ⟨hunits, hquote⟩ (hnever a b hsplit)

end Literal

theorem quotedStep_doubleQuote_endsFirst (embeddings : List Embedding) (depth : Nat) (t : Text)
    (ctx : ScanContext) :
    Literal.EndsFirst Literal.DoubleQuoteEnds Literal.doubleQuoteStop t
      ((quotedStep .markdown '\x22' embeddings depth t).pieces ++
        scanFrom .markdown ctx (quotedStep .markdown '\x22' embeddings depth t).rest) := by
  refine Literal.endsFirst_of_splitsAt (Literal.quoted_splitsAt_doubleQuote t) ?_ ?_ ?_
  · simp [Literal.DoubleQuoteEnds]
  · intro hnil
    simp only [quotedStep, hnil, scanFrom_nil, List.append_nil]
  · intro hne
    obtain ⟨c, rest, hcons⟩ := List.exists_cons_of_ne_nil hne
    simp only [quotedStep, hcons, Literal.doubleQuoteStop, List.head?_cons, Option.some.injEq]
    split
    · rename_i hc
      exact ⟨_, by rw [hc, List.append_assoc]; rfl⟩
    · exact ⟨_, by rw [List.append_assoc]; rfl⟩

theorem quotedStep_singleQuote {t : Text} (h : Literal.closesOnLine '\x27' t = true)
    (embeddings : List Embedding) (depth : Nat) :
    ∃ content rest, FirstPlace Literal.SingleQuoteEnds t content rest ∧
      (quotedStep .markdown '\x27' embeddings depth t).pieces =
        pieceOf .literalContent content ++ [⟨.literalEnd .quote, ['\x27']⟩] := by
  have hfirst := Literal.quoted_singleQuote h
  obtain ⟨rest, hcons⟩ := List.head?_eq_some_iff.mp hfirst.holds.2.2
  refine ⟨_, _, hfirst, ?_⟩
  simp only [quotedStep, hcons, ↓reduceIte]

/-! ## Code spans and fences -/

theorem codeSpan_endsFirst {n : Nat} (hn : 0 < n) (ctx ctx' : ScanContext) (t : Text) :
    ∃ pieces, (ctx.codeSpan .markdown (List.replicate n '\x60') t).pieces =
        ⟨.literalBegin .codeSpan, List.replicate n '\x60'⟩ :: pieces ∧
      (∀ p ∈ pieces, p.kind.startsBody = false) ∧
      Literal.EndsFirst (Literal.RunOf n)
        (fun _ => ⟨.literalEnd .codeSpan, List.replicate n '\x60'⟩) t (pieces ++
          scanFrom .markdown ctx' (ctx.codeSpan .markdown (List.replicate n '\x60') t).rest) := by
  have hspan : Grammar.markdown.codeSpan = some '\x60' := rfl
  have hsplits := Literal.beforeBackticks?_splitsAt hn t
  have hend (a : Text) : ¬Literal.RunOf n a [] := fun h => by simpa using h.head?_behind hn
  simp only [ScanContext.codeSpan, hspan, ne_eq, not_true_eq_false, ↓reduceIte,
    List.length_replicate]
  cases hfound : Literal.beforeBackticks? n t with
  | none =>
      refine ⟨_, rfl, fun _ => startsBody_of_mem_pieceOf rfl, ?_⟩
      rw [hfound] at hsplits
      rw [scanFrom_nil, List.append_nil]
      exact Literal.endsFirst_of_splitsAt hsplits hend (fun _ => rfl) fun hne => absurd rfl hne
  | some parts =>
      obtain ⟨content, closing⟩ := parts
      rw [hfound] at hsplits
      obtain ⟨-, hlength⟩ := Literal.eq_of_beforeBackticks?_eq_some hfound
      have hclosing : closing.takeWhile (· == '\x60') = List.replicate n '\x60' := by
        rw [Text.takeWhile_eq_replicate, hlength]
      refine ⟨pieceOf .literalContent content ++
        [⟨.literalEnd .codeSpan, List.replicate n '\x60'⟩], by rw [← hclosing]; rfl, ?_,
        Literal.endsFirst_of_splitsAt hsplits hend ?_ ?_⟩
      · exact List.forall_mem_append.mpr
          ⟨fun _ => startsBody_of_mem_pieceOf rfl, by simp [TokenKind.startsBody]⟩
      · intro hnil
        simp only [Option.getD_some] at hnil
        simp only [hnil, List.takeWhile_nil, List.length_nil] at hlength
        omega
      · intro _
        rw [List.append_assoc]
        exact ⟨_, rfl⟩

theorem Grammar.isBlank_of_mem_fenceChars :
    ∀ f ∈ Grammar.markdown.fenceChars, Unicode.isBlank f = false := by
  have hall : Grammar.markdown.fenceChars.all (!Unicode.isBlank ·) = true := by decide
  simpa using hall

theorem Text.eq_firstEnding_append {t behind : Text} (h : t.firstLine ++ behind = t) :
    behind = t.firstEnding ++ behind.afterFirstLine ∧
      behind.afterFirstLine = t.afterFirstLine := by
  have hall := bne_of_notMem t.lineFeed_notMem_firstLine
  have hafter : behind.afterFirstLine = t.afterFirstLine := by
    conv_rhs => rw [← h, afterFirstLine, List.dropWhile_append_of_pos hall]
    rfl
  have hlines := t.firstLine_append
  rw [List.append_assoc] at hlines
  rw [hafter]
  exact ⟨List.append_cancel_left (h.trans hlines.symm), rfl⟩

theorem fenceStep_endsFirst {f : Char} {info : Text}
    (hopens : ScanContext.opensFence .markdown f info = true) (ctx ctx' : ScanContext) (t : Text) :
    ∃ pieces, (ctx.fenceStep f info t).pieces = pieceOf .space t.firstLine.leading ++
        ⟨.literalBegin .fence, f :: info⟩ :: (pieceOf .newline t.firstEnding ++ pieces) ∧
      (∀ p ∈ pieces, p.kind.startsBody = false) ∧
      Literal.EndsFirst (Literal.ClosesAt f ((f :: info).takeWhile (· == f)).length)
        (fun rest => ⟨.literalEnd .fence, rest.firstLine⟩) t.afterFirstLine
        (pieces ++ scanFrom .markdown ctx' (ctx.fenceStep f info t).rest) := by
  rw [ScanContext.opensFence, Bool.and_eq_true, List.contains_iff_mem] at hopens
  have hrun : 0 < ((f :: info).takeWhile (· == f)).length := by simp
  have hsplits := Literal.fenced_splitsAt (Grammar.isBlank_of_mem_fenceChars f hopens.1) hrun
    t.afterFirstLine
  refine ⟨pieceOf .literalContent
      (Literal.fenced f ((f :: info).takeWhile (· == f)).length t.afterFirstLine).1 ++
    pieceOf (.literalEnd .fence)
      (Literal.fenced f ((f :: info).takeWhile (· == f)).length t.afterFirstLine).2.firstLine,
    ?_, ?_, ?_⟩
  · simp only [ScanContext.fenceStep, List.append_assoc, List.cons_append]
  · exact List.forall_mem_append.mpr
      ⟨fun _ => startsBody_of_mem_pieceOf rfl, fun _ => startsBody_of_mem_pieceOf rfl⟩
  · refine Literal.endsFirst_of_splitsAt hsplits
      (fun a => Literal.not_closesAt_nil hrun) (fun hnil => ?_) fun hne => ?_
    · have hrest : (ctx.fenceStep f info t).rest = [] := by
        simp only [ScanContext.fenceStep, hnil, List.drop_nil]
      have hclosing : Text.firstLine [] = [] := rfl
      rw [hrest, scanFrom_nil, hnil, hclosing, pieceOf_nil, List.append_nil, List.append_nil]
    · obtain ⟨c, rest, hcons⟩ := List.exists_cons_of_ne_nil hne
      have hcloses := Literal.closesFence_of_fenced hcons
      have hclosing := List.ne_nil_of_mem (Literal.mem_of_closesFence hrun hcloses)
      rw [hcons, pieceOf_of_ne_nil _ hclosing, List.append_assoc]
      exact ⟨_, rfl⟩

/-! ## Embedded code -/

theorem Grammar.markdown_quote_cases {c : Char} {mark : QuoteMark}
    (h : Grammar.markdown.quote? c = some mark) :
    c = '\x22' ∧ mark.interpolates = true ∨ c = '\x27' ∧ mark.interpolates = false := by
  have hmem := List.mem_of_find?_eq_some h
  have hchar := List.find?_some h
  rw [beq_iff_eq] at hchar
  simp only [markdown, List.mem_cons, List.not_mem_nil, or_false] at hmem
  rcases hmem with rfl | rfl
  · exact .inl ⟨hchar.symm, rfl⟩
  · exact .inr ⟨hchar.symm, rfl⟩

theorem Grammar.eq_doubleQuote_of_interpolates {c : Char}
    (h : (Grammar.markdown.quote? c).any (·.interpolates) = true) : c = '\x22' := by
  rw [Option.any_eq_true] at h
  obtain ⟨mark, hmark, hinterpolates⟩ := h
  rcases markdown_quote_cases hmark with ⟨hc, -⟩ | ⟨-, hplain⟩
  · exact hc
  · simp [hplain] at hinterpolates

def ScanContext.EmbedsSoundly (g : Grammar) (ctx : ScanContext) : Prop :=
  ∀ q ∈ ctx.embeddings.map Embedding.quote, (g.quote? q).any (·.interpolates) = true

theorem embeddings_quotedStep (g : Grammar) (q : Char) (embeddings : List Embedding) (depth : Nat)
    (t : Text) :
    (quotedStep g q embeddings depth t).embeddings = embeddings ∨
      (quotedStep g q embeddings depth t).embeddings = ⟨q, 0⟩ :: embeddings ∧
        (g.quote? q).any (·.interpolates) = true := by
  simp only [quotedStep]
  split
  · exact .inl rfl
  · rename_i c rest hcons
    split
    · exact .inl rfl
    · rename_i hc
      have hstops := Literal.stops_of_unescapedSpan hcons
      simp only [Literal.interruptsQuoted, List.head?_cons, Bool.or_eq_true, beq_iff_eq,
        Option.some.injEq, hc, false_or, Bool.and_eq_true] at hstops
      exact .inr ⟨rfl, hstops.1⟩

namespace ScanContext

variable {g : Grammar} {ctx ctx' : ScanContext} {c : Char} {rest : Text} {step : ScanStep}

theorem Does.embedsSoundly (h : ctx.Does g c rest step) (hctx : ctx.EmbedsSoundly g) :
    (ctx.advance step).EmbedsSoundly g := by
  have body (q : Char) {embeddings : List Embedding} (depth : Nat) (first : Piece)
      (hall : ∀ q ∈ embeddings.map Embedding.quote, (g.quote? q).any (·.interpolates) = true) :
      (ctx.advance ((quotedStep g q embeddings depth rest).precededBy first)).EmbedsSoundly g := by
    intro q' hmem
    change q' ∈ (quotedStep g q embeddings depth rest).embeddings.map Embedding.quote at hmem
    rcases embeddings_quotedStep g q embeddings depth rest with hsame | ⟨hmore, hq⟩
    · exact hall q' (hsame ▸ hmem)
    · rw [hmore, List.map_cons] at hmem
      rcases List.mem_cons.mp hmem with rfl | hmem
      · exact hq
      · exact hall q' hmem
  cases h with
  | plain => exact hctx
  | char => exact hctx
  | opens =>
      unfold EmbedsSoundly at hctx ⊢
      simp only [advance, openBracket]
      cases hembeddings : ctx.embeddings with
      | nil => simp
      | cons e outer => simpa [hembeddings] using hctx
  | closes _ _ _ _ hquotes =>
      unfold EmbedsSoundly at hctx ⊢
      rw [← hquotes] at hctx
      exact hctx
  | resumes e outer hembeddings =>
      rw [EmbedsSoundly, hembeddings] at hctx
      exact body _ _ _ (List.forall_mem_cons.mp hctx).2
  | quote => exact body _ _ _ hctx
  | codeSpan n _ behind =>
      unfold EmbedsSoundly
      simp only [advance, ScanContext.codeSpan]
      split
      · exact hctx
      · split <;> exact hctx
  | fence => exact hctx

end ScanContext

theorem Scans.embedsSoundly {g : Grammar} {ctx ctx' : ScanContext} {t t' : Text}
    {pieces : List Piece} (h : Scans g ctx t pieces ctx' t') (hctx : ctx.EmbedsSoundly g) :
    ctx'.EmbedsSoundly g := by
  induction h with
  | here => exact hctx
  | @step ctx _ c rest _ _ _ ih => exact ih ((ctx.step_does g c rest).embedsSoundly hctx)

/-! ## The extent of a literal -/

namespace Literal

/-- The pieces behind the one with which a literal starts, or goes on behind embedded code, hold the
literal up to where it should end. -/
structure Extent (before : Text) (piece : Piece) (behind : Text) (pieces : List Piece) : Prop where
  codeSpan : piece.kind = .literalBegin .codeSpan →
    ∃ n, 0 < n ∧ piece.text = List.replicate n '\x60' ∧
      EndsFirst (fun a b => RunOf n (before ++ (piece.text ++ a)) b)
        (fun _ => ⟨.literalEnd .codeSpan, piece.text⟩) behind pieces
  fence : piece.kind = .literalBegin .fence →
    ∃ f n info ending body, piece.text = List.replicate n f ++ info ∧ info.head? ≠ some f ∧
      f ∈ Grammar.markdown.fenceChars ∧ Grammar.markdown.fenceMin ≤ n ∧
      behind = ending ++ behind.afterFirstLine ∧ pieces = pieceOf .newline ending ++ body ∧
      EndsFirst (ClosesAt f n) (fun rest => ⟨.literalEnd .fence, rest.firstLine⟩)
        behind.afterFirstLine body
  quote : piece.kind = .literalBegin .quote → piece.text = ['\x22'] ∨ piece.text = ['\x27']
  doubleQuote : piece.kind = .literalBegin .quote ∧ piece.text = ['\x22'] ∨
      piece.kind = .closeBracket .interpolationEnd →
    EndsFirst DoubleQuoteEnds doubleQuoteStop behind pieces
  singleQuote : piece.kind = .literalBegin .quote ∧ piece.text = ['\x27'] →
    ∃ content rest more, FirstPlace SingleQuoteEnds behind content rest ∧
      pieces = pieceOf .literalContent content ++ ⟨.literalEnd .quote, ['\x27']⟩ :: more

variable {before behind : Text} {pieces : List Piece}

theorem runOf_append_iff {n : Nat} (hn : 0 < n) (hbehind : behind.head? ≠ some '\x60')
    {a b : Text} (hsplit : a ++ b = behind) :
    RunOf n a b ↔ RunOf n (before ++ (List.replicate n '\x60' ++ a)) b := by
  cases a with
  | nil =>
      rw [← hsplit] at hbehind
      exact iff_of_false (fun h => hbehind (h.head?_behind hn)) fun h => hbehind (h.head?_behind hn)
  | cons c a =>
      rw [← List.append_assoc, RunOf, RunOf,
        List.getLast?_append_of_ne_nil _ (List.cons_ne_nil c a)]

theorem extent_of_codeSpan {n : Nat} (hn : 0 < n) (hbehind : behind.head? ≠ some '\x60')
    (h : EndsFirst (RunOf n) (fun _ => ⟨.literalEnd .codeSpan, List.replicate n '\x60'⟩) behind
      pieces) :
    Extent before ⟨.literalBegin .codeSpan, List.replicate n '\x60'⟩ behind pieces where
  codeSpan _ := by
    exact ⟨n, hn, rfl, h.congr fun a b hsplit => runOf_append_iff hn hbehind hsplit⟩
  fence hkind := by simp at hkind
  quote hkind := by simp at hkind
  doubleQuote hkind := by simp at hkind
  singleQuote hkind := by simp at hkind

theorem extent_of_fence {f : Char} {info ending : Text} {body : List Piece}
    (hopens : ScanContext.opensFence .markdown f info = true)
    (hbehind : behind = ending ++ behind.afterFirstLine)
    (hpieces : pieces = pieceOf .newline ending ++ body)
    (h : EndsFirst (ClosesAt f ((f :: info).takeWhile (· == f)).length)
      (fun rest => ⟨.literalEnd .fence, rest.firstLine⟩) behind.afterFirstLine body) :
    Extent before ⟨.literalBegin .fence, f :: info⟩ behind pieces where
  codeSpan hkind := by simp at hkind
  fence _ := by
    rw [ScanContext.opensFence, Bool.and_eq_true, List.contains_iff_mem,
      decide_eq_true_eq] at hopens
    refine ⟨f, _, (f :: info).dropWhile (· == f), ending, body, ?_, Text.head?_dropWhile_ne f _,
      hopens.1, hopens.2, hbehind, hpieces, h⟩
    rw [← Text.takeWhile_eq_replicate, List.takeWhile_append_dropWhile]
  quote hkind := by simp at hkind
  doubleQuote hkind := by simp at hkind
  singleQuote hkind := by simp at hkind

theorem extent_of_doubleQuote {kind : TokenKind}
    (hkind : kind = .literalBegin .quote ∨ kind = .closeBracket .interpolationEnd) {c : Char}
    (hc : kind = .literalBegin .quote → c = '\x22')
    (h : EndsFirst DoubleQuoteEnds doubleQuoteStop behind pieces) :
    Extent before ⟨kind, [c]⟩ behind pieces where
  codeSpan hspan := by simp [show kind = _ from hspan] at hkind
  fence hfence := by simp [show kind = _ from hfence] at hkind
  quote hquote := .inl (by rw [hc hquote])
  doubleQuote _ := h
  singleQuote hsingle := by simp [hc hsingle.1] at hsingle

theorem extent_of_singleQuote {content rest : Text} {more : List Piece}
    (h : FirstPlace SingleQuoteEnds behind content rest)
    (hpieces : pieces =
      pieceOf .literalContent content ++ ⟨.literalEnd .quote, ['\x27']⟩ :: more) :
    Extent before ⟨.literalBegin .quote, ['\x27']⟩ behind pieces where
  codeSpan hkind := by simp at hkind
  fence hkind := by simp at hkind
  quote _ := .inr rfl
  doubleQuote hkind := by simp at hkind
  singleQuote _ := ⟨content, rest, more, h, hpieces⟩

end Literal

namespace ScanContext

variable {ctx : ScanContext} {c : Char} {rest : Text} {step : ScanStep}

theorem Does.extent (h : ctx.Does .markdown c rest step) (hctx : ctx.EmbedsSoundly .markdown)
    (hcuts : step.Cuts (c :: rest)) {inner more : List Piece} {piece : Piece}
    (hpieces : step.pieces = inner ++ piece :: more) (hpiece : piece.kind.startsBody = true)
    (before : Text) :
    Literal.Extent before piece (more.flatMap Piece.text ++ step.rest)
      (more ++ scanFrom .markdown (ctx.advance step) step.rest) := by
  have single {first : Piece} (hfirst : first.kind.startsBody = false)
      (hpieces : [first] = inner ++ piece :: more) : False := by
    have hmem : piece ∈ [first] := by simp [hpieces]
    rw [List.mem_singleton.mp hmem, hfirst] at hpiece
    simp at hpiece
  have body_append (q : Char) (embeddings : List Embedding) (depth : Nat) (first : Piece) :
      (quotedStep .markdown q embeddings depth rest).pieces.flatMap Piece.text ++
        ((quotedStep .markdown q embeddings depth rest).precededBy first).rest = rest :=
    quotedStep_append ..
  have htext := hcuts.append
  cases h with
  | plain _ _ hyields => exact (single (startsBody_of_isPlain hyields.plain) hpieces).elim
  | char => exact (single rfl hpieces).elim
  | opens => exact (single rfl hpieces).elim
  | closes declared hdeclared _ hstep =>
      have honly := Grammar.ne_interpolationBegin_of_closing?
        Grammar.markdown_soundEmbedding.only hdeclared
      refine (single ?_ (hstep.symm.trans hpieces)).elim
      cases declared <;> first | rfl | contradiction
  | resumes e outer hembeddings =>
      obtain ⟨rfl, rfl, rfl⟩ := eq_of_startsBody [] hpieces hpiece (by simp)
        fun _ => startsBody_of_mem_quotedStep
      have hquote : e.quote = '\x22' := Grammar.eq_doubleQuote_of_interpolates
        (hctx e.quote (by simp [hembeddings]))
      rw [hquote, body_append]
      exact Literal.extent_of_doubleQuote (.inr rfl) (by simp)
        (quotedStep_doubleQuote_endsFirst _ _ _ _)
  | quote mark hmark hopens =>
      obtain ⟨rfl, rfl, rfl⟩ := eq_of_startsBody [] hpieces hpiece (by simp)
        fun _ => startsBody_of_mem_quotedStep
      rw [body_append]
      rcases Grammar.markdown_quote_cases hmark with ⟨rfl, -⟩ | ⟨rfl, hplain⟩
      · exact Literal.extent_of_doubleQuote (.inl rfl) (fun _ => rfl)
          (quotedStep_doubleQuote_endsFirst _ _ _ _)
      · obtain ⟨content, behind, hfirst, hquoted⟩ := quotedStep_singleQuote (hopens hplain).2
          ctx.embeddings ctx.depth
        rw [hquoted, List.append_assoc]
        exact Literal.extent_of_singleQuote hfirst rfl
  | codeSpan n hn behind _ hrun hbehind =>
      obtain ⟨pieces, hspan, hplain, hends⟩ := codeSpan_endsFirst hn ctx
        (ctx.advance (ctx.codeSpan .markdown (List.replicate n '\x60') behind)) behind
      rw [hspan] at hpieces
      obtain ⟨rfl, rfl, rfl⟩ := eq_of_startsBody [] hpieces hpiece (by simp) hplain
      rw [hspan, List.flatMap_cons, List.append_assoc, hrun, List.append_cancel_left_eq] at htext
      rw [htext]
      exact Literal.extent_of_codeSpan hn hbehind hends
  | fence f info hline hopens =>
      obtain ⟨pieces, hfence, hplain, hends⟩ := fenceStep_endsFirst hopens ctx
        (ctx.advance (ctx.fenceStep f info (c :: rest))) (c :: rest)
      rw [hfence] at hpieces
      obtain ⟨rfl, rfl, rfl⟩ := eq_of_startsBody _ hpieces hpiece
        (fun _ => startsBody_of_mem_pieceOf rfl)
        (List.forall_mem_append.mpr ⟨fun _ => startsBody_of_mem_pieceOf rfl, hplain⟩)
      -- What stands behind the first line starts with its line break.
      have hfirst : (Text.firstLine (c :: rest)).leading ++ f :: info =
          Text.firstLine (c :: rest) := by
        rw [← hline]
        exact Text.leading_append _
      rw [hfence, List.flatMap_append, List.flatMap_cons, flatMap_text_pieceOf,
        List.append_assoc, List.append_assoc, ← List.append_assoc, hfirst] at htext
      obtain ⟨hbehind, hafter⟩ := Text.eq_firstEnding_append htext
      rw [← hafter] at hends
      rw [List.append_assoc (pieceOf _ _)]
      exact Literal.extent_of_fence hopens hbehind rfl hends

end ScanContext

/-! ## Tokens -/

namespace Literal

theorem extent_of_not_startsBody {before behind : Text} {piece : Piece} {pieces : List Piece}
    (h : piece.kind.startsBody = false) : Extent before piece behind pieces where
  codeSpan hkind := by simp [hkind, TokenKind.startsBody] at h
  fence hkind := by simp [hkind, TokenKind.startsBody] at h
  quote hkind := by simp [hkind, TokenKind.startsBody] at h
  doubleQuote hkind := by
    rcases hkind with ⟨hkind, -⟩ | hkind <;> simp [hkind, TokenKind.startsBody] at h
  singleQuote hkind := by simp [hkind.1, TokenKind.startsBody] at h

theorem extent_of_tokenize {t : Text} {firstLine : Nat} {left right : List Token} {token : Token}
    (h : tokenize .markdown t firstLine = left ++ token :: right) :
    Extent (left.flatMap Token.text) token.piece (right.flatMap Token.text)
      (right.map Token.piece) := by
  obtain ⟨passed, ctx, c, rest, inner, more, hrun, hstep, -, hpieces, hright, -⟩ :=
    Token.exists_step h
  rw [hpieces, hright]
  cases hpiece : token.kind.startsBody with
  | false => exact extent_of_not_startsBody hpiece
  | true =>
      have hctx := hrun.embedsSoundly (by simp [ScanContext.EmbedsSoundly, ScanContext.initial])
      exact (ctx.step_does .markdown c rest).extent hctx (ctx.step_cuts .markdown c rest) hstep
        hpiece _

end Literal

end MarkupLayout

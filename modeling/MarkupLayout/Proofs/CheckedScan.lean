import MarkupLayout.Proofs.CheckedEdits
import MarkupLayout.Proofs.StepCases
import MarkupLayout.Proofs.TokenCoverage
/-!
# The scanner in byte offsets

The scanner once more, as a machine whose state is a byte offset and that takes every piece of text
it looks at out of the source by offsets.  Cutting the source inside a character, reading a byte
past its end, subtracting below zero and going round a loop without moving on are failures here.
Decisions that need no offset, such as the role of a word or the kind of a line break, are those
of the scanner's steps.
-/

namespace MarkupLayout

/-! ## Loops -/

/-- Repeats a round until it gives a result.  The loop fails where a round does, and behind a round
that does not move on or that moves past the end. -/
def loop? {σ α : Type} (offset : σ → Nat) (stop : Nat) (round : σ → Option (σ ⊕ α)) (s : σ) :
    Option α :=
  match round s with
  | none => none
  | some (.inr result) => some result
  | some (.inl next) =>
    if offset s < offset next ∧ offset next ≤ stop then loop? offset stop round next else none
termination_by stop - offset s

section Loop

variable {σ α : Type} {offset : σ → Nat} {stop : Nat} {round : σ → Option (σ ⊕ α)} {s next : σ}

theorem loop?_of_result {result : α} (h : round s = some (.inr result)) :
    loop? offset stop round s = some result := by
  rw [loop?, h]

theorem loop?_of_next (h : round s = some (.inl next)) (hlt : offset s < offset next)
    (hle : offset next ≤ stop) : loop? offset stop round s = loop? offset stop round next := by
  rw [loop?, h]
  exact if_pos ⟨hlt, hle⟩

end Loop

/-! ## Bytes -/

namespace Text

def bytes (t : Text) : List UInt8 :=
  t.flatMap String.utf8EncodeChar

@[simp] theorem bytes_append (s t : Text) : (s ++ t).bytes = s.bytes ++ t.bytes :=
  List.flatMap_append

theorem bytes_cons (c : Char) (t : Text) : bytes (c :: t) = String.utf8EncodeChar c ++ t.bytes :=
  List.flatMap_cons

theorem length_bytes (t : Text) : t.bytes.length = t.byteSize := by
  induction t with
  | nil => rfl
  | cons c t ih =>
      rw [bytes_cons, List.length_append, String.length_utf8EncodeChar, byteSize_cons, ih]

theorem utf8EncodeChar_of_ascii {a : Char} (ha : a.toNat < 128) :
    String.utf8EncodeChar a = [a.toUInt8] :=
  String.utf8EncodeChar_eq_singleton
    (Char.utf8Size_eq_one_iff.mpr (UInt32.le_iff_toNat_le.mpr (Nat.le_of_lt_succ ha)))

theorem toNat_toUInt8_of_ascii {a : Char} (ha : a.toNat < 128) : a.toUInt8.toNat = a.toNat :=
  (UInt32.toNat_toUInt8 a.val).trans (Nat.mod_eq_of_lt (Nat.lt_trans ha (by decide)))

theorem le_of_mem_utf8EncodeChar {c : Char} (hc : 128 ≤ c.toNat) :
    ∀ byte ∈ String.utf8EncodeChar c, 128 ≤ byte.toNat := by
  have hval : c.val.toNat = c.toNat := rfl
  unfold String.utf8EncodeChar
  simp only [hval]
  rw [if_neg (by omega)]
  repeat' split
  all_goals
    simp only [List.forall_mem_cons, List.not_mem_nil, false_imp_iff, implies_true, and_true,
      UInt8.toNat_ofNat']
    omega

theorem eq_toUInt8_iff {a c : Char} (ha : a.toNat < 128) {byte : UInt8}
    (hbyte : byte ∈ String.utf8EncodeChar c) : byte = a.toUInt8 ↔ c = a := by
  have hval := toNat_toUInt8_of_ascii ha
  constructor
  · rintro rfl
    rcases Nat.lt_or_ge c.toNat 128 with hc | hc
    · rw [utf8EncodeChar_of_ascii hc, List.mem_singleton] at hbyte
      rw [hbyte, toNat_toUInt8_of_ascii hc] at hval
      exact Char.toNat_inj.mp hval
    · have hle := le_of_mem_utf8EncodeChar hc _ hbyte
      omega
  · rintro rfl
    rwa [utf8EncodeChar_of_ascii ha, List.mem_singleton] at hbyte

/-- The byte before a place, which tells ASCII characters. -/
theorem exists_byte_before {a : Char} (ha : a.toNat < 128) (before : Text) (c : Char)
    (behind : Text) :
    ∃ byte, (before ++ c :: behind).bytes[before.byteSize + c.utf8Size - 1]? = some byte ∧
      (byte = a.toUInt8 ↔ c = a) := by
  have hpos := c.utf8Size_pos
  have hlength := String.length_utf8EncodeChar c
  obtain ⟨byte, hbyte⟩ : ∃ byte, (String.utf8EncodeChar c)[c.utf8Size - 1]? = some byte :=
    ⟨_, List.getElem?_eq_getElem (by omega)⟩
  refine ⟨byte, ?_, eq_toUInt8_iff ha (List.mem_of_getElem? hbyte)⟩
  have hindex : before.byteSize + c.utf8Size - 1 - before.byteSize = c.utf8Size - 1 := by omega
  rw [bytes_append, bytes_cons, List.getElem?_append_right (by rw [length_bytes]; omega),
    length_bytes, hindex, List.getElem?_append_left (by omega), hbyte]

theorem length_takeWhile_bytes {a : Char} (ha : a.toNat < 128) (t : Text) :
    (t.bytes.takeWhile (· == a.toUInt8)).length = (t.takeWhile (· == a)).length := by
  induction t with
  | nil => rfl
  | cons c t ih =>
      rw [bytes_cons, List.takeWhile_cons]
      by_cases hc : c = a
      · subst hc
        rw [utf8EncodeChar_of_ascii ha, List.singleton_append, List.takeWhile_cons]
        simp [ih]
      · obtain ⟨byte, more, hbytes⟩ :=
          List.exists_cons_of_ne_nil (String.utf8EncodeChar_ne_nil (c := c))
        have hbyte : byte ≠ a.toUInt8 := fun heq =>
          hc ((eq_toUInt8_iff ha (by simp [hbytes])).mp heq)
        simp [hbytes, hbyte, hc]

theorem byteSize_eq_length {t : Text} (h : ∀ c ∈ t, c.utf8Size = 1) : t.byteSize = t.length := by
  induction t with
  | nil => rfl
  | cons c t ih =>
      rw [byteSize_cons, List.length_cons, h c (by simp), ih fun d hd => h d (by simp [hd]),
        Nat.add_comm]

theorem byteSize_replicate (n : Nat) (c : Char) :
    byteSize (List.replicate n c) = n * c.utf8Size := by
  induction n with
  | zero => simp
  | succ n ih => rw [List.replicate_succ, byteSize_cons, ih, Nat.succ_mul, Nat.add_comm]

theorem byteSize_takeWhile_beq (c : Char) (t : Text) :
    byteSize (t.takeWhile (· == c)) = (t.takeWhile (· == c)).length * c.utf8Size := by
  rw [takeWhile_eq_replicate, byteSize_replicate, List.length_replicate]

def find? (c : Char) (t : Text) : Option Nat :=
  if c ∈ t then some (byteSize (t.takeWhile (· != c))) else none

theorem find?_eq_none {c : Char} {t : Text} (h : c ∉ t) : t.find? c = none :=
  if_neg h

theorem find?_eq_some {c : Char} {t : Text} (h : c ∈ t) :
    t.find? c = some (byteSize (t.takeWhile (· != c))) :=
  if_pos h

end Text

/-! ## The state -/

structure Scanner where
  grammar : Grammar
  source : Text
  index : List Nat
  firstLine : Nat
  pos : Nat
  tokens : List Token
  embeddings : List Embedding
  depth : Nat

namespace Scanner

def start (g : Grammar) (t : Text) (firstLine : Nat) : Scanner :=
  ⟨g, t, t.lineStarts, firstLine, 0, [], [], 0⟩

variable (s : Scanner)

def size : Nat :=
  s.source.byteSize

/-! ## Looking at the source -/

def atLineStart? : Option Bool :=
  if s.pos = 0 then some true
  else do
    let last ← sub? s.pos 1
    let byte ← s.source.bytes[last]?
    return byte == '\n'.toUInt8

def charBefore? (offset : Nat) : Option (Option Char) := do
  let (before, _) ← s.source.cut? offset
  return before.getLast?

def charAt (offset : Nat) : Option Char := do
  let (_, behind) ← s.source.cut? offset
  behind.head?

def lineEnd? (offset : Nat) : Option Nat := do
  let (_, behind) ← s.source.cut? offset
  return ((behind.find? '\n').map (offset + ·)).getD s.size

/-- End of a line's content, in front of a carriage return. -/
def contentEnd? (offset : Nat) : Option Nat := do
  let stop ← s.lineEnd? offset
  if offset < stop then do
    let last ← sub? stop 1
    let byte ← s.source.bytes[last]?
    return if byte = '\r'.toUInt8 then last else stop
  else return stop

def closesOnLine? (offset : Nat) (q : Char) : Option Bool := do
  let stop ← s.lineEnd? offset
  let line ← s.source.slice? offset stop
  return (Literal.unescapedSpan (·.head? == some q) line).2 != []

def lastOnLine (tokens : List Token) : Option Token :=
  (tokens.reverse.takeWhile (!·.kind.isLineBreak)).find? (·.kind != .space)

/-- What the scanner knows of the text it has passed, except for the character before it. -/
def context : ScanContext :=
  ⟨none, (lastOnLine s.tokens).map fun token => ⟨token.kind, token.text⟩, s.embeddings, s.depth⟩

/-! ## Tokens -/

def position? (offset : Nat) : Option Position := do
  let line ← Text.bisectLine? s.index offset
  let above ← sub? line 1
  let start ← s.index[above]?
  let passed ← s.source.slice? start offset
  let number ← sub? (s.firstLine + line) 1
  return ⟨number, passed.length⟩

def push? (start stop : Nat) (kind : TokenKind) : Option Scanner := do
  let position ← s.position? start
  let text ← s.source.slice? start stop
  return { s with tokens := s.tokens ++ [⟨position.line, position.column, kind, text⟩] }

def pushNonempty? (start stop : Nat) (kind : TokenKind) : Option Scanner :=
  if start < stop then s.push? start stop kind else some s

def emit? (start stop : Nat) (kind : TokenKind) : Option Scanner := do
  let pushed ← s.push? start stop kind
  return { pushed with pos := stop }

/-- Adds a token that starts at `first`, unless it is empty, and the one behind it. -/
def pushEmit? (first start stop : Nat) (kind next : TokenKind) : Option Scanner := do
  let pushed ← s.pushNonempty? first start kind
  pushed.emit? start stop next

def finish? (first : Nat) : Option Scanner := do
  let pushed ← s.pushNonempty? first s.size .literalContent
  return { pushed with pos := s.size }

/-! ## Lexemes -/

def plainWord? (start stop : Nat) : Option Scanner :=
  if s.charAt stop = some '.' ∧ standsAlone (s.charAt (stop + 1)) then
    s.emit? start (stop + 1) .text
  else s.emit? start stop .text

def keywordOrPlain? (start stop : Nat) : Option Scanner := do
  let word ← s.source.slice? start stop
  match s.grammar.keywordRole word with
  | some role =>
    if role ≠ .closer || s.context.atLineHead then s.emit? start stop (.keyword role)
    else s.plainWord? start stop
  | none => s.plainWord? start stop

def word? (start stop : Nat) : Option Scanner :=
  if s.charAt stop = some ':' ∧ s.charAt (stop + 1) ≠ some ':' ∧
      standsAlone (s.charAt (stop + 1)) then
    s.emit? start (stop + 1) .label
  else s.keywordOrPlain? start stop

def operator? (start stop : Nat) : Option Scanner := do
  let marks ← s.source.slice? start stop
  if s.grammar.keywordRole marks = some .blockSigil ∧ standsAlone (s.charAt stop) then
    s.emit? start stop (.keyword .blockSigil)
  else do
    let previous ← s.charBefore? start
    let glued := previous.any isWordChar || (s.charAt stop).any isWordChar
    s.emit? start stop (if glued then .text else .operator)

def hashes? (start stop : Nat) : Option Scanner := do
  let marks ← s.source.slice? start stop
  if s.grammar.keywordRole marks = some .blockSigil ∧ standsAlone (s.charAt stop) then
    s.emit? start stop (.keyword .blockSigil)
  else s.emit? start stop .text

def dots? (start stop : Nat) : Option Scanner := do
  let width ← sub? stop start
  s.emit? start stop (if width = 1 then .period else .text)

def colons? (start stop : Nat) : Option Scanner := do
  let previous ← s.charBefore? start
  let next := s.charAt stop
  let width ← sub? stop start
  if width = 1 && !previous.any isWordChar
      && next.any (fun c => isWordChar c || s.grammar.startsSigil c) then
    s.emit? start stop .symbolBegin
  else if previous.any isWordChar || next.any isWordChar then s.emit? start stop .text
  else s.emit? start stop .operator

/-! ## Literals -/

def stringRound? (q : Char) (first offset : Nat) : Option (Nat ⊕ Scanner) := do
  let (_, behind) ← s.source.cut? offset
  match behind with
  | [] => do
    let finished ← s.finish? first
    return .inr finished
  | c :: rest =>
    if c = '\\' then return .inl (offset + c.utf8Size + (rest.head?.map Char.utf8Size).getD 0)
    else if c = q then do
      let closed ← s.pushEmit? first offset (offset + c.utf8Size) .literalContent
        (.literalEnd .quote)
      return .inr closed
    else if (s.grammar.quote? q).any (·.interpolates) &&
        s.grammar.interpolationOpen.isPrefixOf behind then do
      let entered := { s with depth := s.depth + 1, embeddings := ⟨q, 0⟩ :: s.embeddings }
      let opened ← entered.pushEmit? first offset (offset + s.grammar.interpolationOpen.byteSize)
        .literalContent (.openBracket .interpolationBegin)
      return .inr opened
    else return .inl (offset + c.utf8Size)

def stringBody? (q : Char) : Option Scanner :=
  loop? id s.size (s.stringRound? q s.pos) s.pos

/-- A round in a code span between runs of `run` backticks, whose content starts at `first`. -/
def codeSpanRound? (run first search : Nat) : Option (Nat ⊕ Scanner) := do
  let (_, behind) ← s.source.cut? search
  match behind.find? '\x60' with
  | none => do
    let finished ← s.finish? first
    return .inr finished
  | some distance => do
    let closeStart := search + distance
    let (_, closing) ← s.source.cut? closeStart
    let closeEnd := closeStart + (closing.bytes.takeWhile (· == '\x60'.toUInt8)).length
    let width ← sub? closeEnd closeStart
    if width = run then do
      let closed ← s.pushEmit? first closeStart closeEnd .literalContent (.literalEnd .codeSpan)
      return .inr closed
    else return .inl closeEnd

def codeSpan? (start stop : Nat) : Option Scanner :=
  if s.grammar.codeSpan ≠ some '\x60' then s.emit? start stop .text
  else do
    let run ← sub? stop start
    let opened ← s.emit? start stop (.literalBegin .codeSpan)
    loop? id s.size (opened.codeSpanRound? run stop) stop

def closesFence? (f : Char) (run : Nat) (line : Text) : Option Bool :=
  let body : Text := line.dropWhile Text.isIndentChar
  let closing := (body.takeWhile (· == f)).length
  if run ≤ closing then do
    let (_, behind) ← body.cut? (closing * f.utf8Size)
    return behind.isBlank
  else some false

def fenceRound? (f : Char) (run first offset : Nat) : Option (Nat ⊕ Scanner) :=
  if offset < s.size then do
    let stop ← s.contentEnd? offset
    let line ← s.source.slice? offset stop
    if ← closesFence? f run line then do
      let closed ← s.pushEmit? first offset stop .literalContent (.literalEnd .fence)
      return .inr closed
    else do
      let lineEnd ← s.lineEnd? offset
      return .inl (min (lineEnd + 1) s.size)
  else do
    let pushed ← s.pushNonempty? first offset .literalContent
    return .inr { pushed with pos := offset }

def openFence? (first indent stop : Nat) : Option Scanner := do
  let opened ← s.pushEmit? first (first + indent) stop .space (.literalBegin .fence)
  let lineEnd ← s.lineEnd? first
  let below := min (lineEnd + 1) s.size
  if stop < below then opened.emit? stop below .newline else return opened

/-- The fenced block that starts on the current line, if there is one. -/
def fence? : Option (Option Scanner) := do
  let stop ← s.contentEnd? s.pos
  let line ← s.source.slice? s.pos stop
  let leading ← line.slice? 0 line.leading.byteSize
  let (_, marks) ← line.cut? leading.byteSize
  match marks with
  | [] => return none
  | f :: info =>
    let run := ((f :: info).takeWhile (· == f)).length
    if f ∉ s.grammar.fenceChars then return none
    else if run < s.grammar.fenceMin then return none
    else do
      let opened ← s.openFence? s.pos leading.byteSize stop
      let closed ← loop? id s.size (opened.fenceRound? f run opened.pos) opened.pos
      return some closed

/-! ## Other characters -/

def openBracket? (start stop : Nat) (kind : OpenKind) : Option Scanner :=
  let behindArrow := s.context.last.any fun piece =>
    piece.kind == .operator && piece.text == s.grammar.lambdaArrow
  let kind := if kind = .brace && behindArrow then .lambdaBegin else kind
  let embeddings := match s.embeddings with
    | [] => []
    | e :: outer => { e with depth := e.depth + 1 } :: outer
  let entered := { s with depth := s.depth + 1, embeddings := embeddings }
  entered.emit? start stop (.openBracket kind)

def closeBracket? (start stop : Nat) (kind : OpenKind) : Option Scanner :=
  let left := { s with depth := s.depth - 1 }
  match s.embeddings with
  | [] => left.emit? start stop (.closeBracket kind.closer)
  | e :: outer =>
    if e.depth = 0 && kind = .brace then do
      let closed ← { left with embeddings := outer }.emit? start stop
        (.closeBracket .interpolationEnd)
      closed.stringBody? e.quote
    else
      { left with embeddings := { e with depth := e.depth - 1 } :: outer }.emit? start stop
        (.closeBracket kind.closer)

def isProse? (start stop : Nat) (mark : QuoteMark) (c : Char) : Option Bool :=
  if mark.interpolates then some false
  else do
    let previous ← s.charBefore? start
    if previous.any isWordChar then return true
    else do
      let closes ← s.closesOnLine? stop c
      return !closes

def quote? (start stop : Nat) (mark : QuoteMark) (c : Char) : Option Scanner := do
  if ← s.isProse? start stop mark c then s.emit? start stop .text
  else do
    let opened ← s.emit? start stop (.literalBegin .quote)
    opened.stringBody? c

def otherChar? (start stop : Nat) : Option Scanner :=
  match s.charAt start with
  | none => some { s with pos := stop }
  | some c =>
    match s.grammar.opening? c with
    | some kind => s.openBracket? start stop kind
    | none =>
      match s.grammar.closing? c with
      | some kind => s.closeBracket? start stop kind
      | none =>
        match s.grammar.quote? c with
        | some mark => s.quote? start stop mark c
        | none => s.emit? start stop .text

/-! ## Rounds -/

def code? : Option Scanner := do
  let start := s.pos
  let (_, behind) ← s.source.cut? start
  match behind with
  | [] => return { s with pos := s.size }
  | c :: rest =>
    let found := (Lexeme.first c rest).1
    let stop := start + found.text.byteSize
    match found.kind with
    | .whitespace => s.emit? start stop .space
    | .newline => s.emit? start stop (s.context.lineBreak s.grammar)
    | .word => s.word? start stop
    | .operator => s.operator? start stop
    | .hashes => s.hashes? start stop
    | .dots => s.dots? start stop
    | .colons => s.colons? start stop
    | .comma => s.emit? start stop .comma
    | .backticks => s.codeSpan? start stop
    | .other => s.otherChar? start stop

def round? : Option Scanner :=
  if s.embeddings.isEmpty then do
    if ← s.atLineStart? then do
      match ← s.fence? with
      | some fenced => return fenced
      | none => s.code?
    else s.code?
  else s.code?

def run? : Option Scanner :=
  loop? pos s.size
    (fun s => if s.pos < s.size then s.round?.map .inl else some (.inr s)) s

end Scanner

end MarkupLayout

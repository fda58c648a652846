import MarkupLayout.Lexeme
import MarkupLayout.Literal.Extent
/-!
# Steps of the scanner

The scanner walks through a text once.  At each place it cuts off one lexeme, or one literal up to
its end or to the code embedded in it, and classifies it.  What a marker means depends on little
context: the character before it, what already stands on its line, the open brackets, and the
strings whose embedded code is being read.
-/

namespace MarkupLayout

/-- Code embedded in a string: the string's quote and the brackets open inside the code. -/
structure Embedding where
  quote : Char
  depth : Nat
deriving DecidableEq, Repr

/-- What the scanner remembers of the text it has passed: the character just passed, the last piece
on the current line that is not a space, the embedded code being read, innermost first, and the
number of open brackets. -/
structure ScanContext where
  previous : Option Char
  last : Option Piece
  embeddings : List Embedding
  depth : Nat
deriving DecidableEq, Repr

structure ScanStep where
  pieces : List Piece
  rest : Text
  embeddings : List Embedding
  depth : Nat
deriving DecidableEq, Repr

def standsAlone : Option Char → Bool
  | none => true
  | some c => c == ' ' || c == '\t' || c == '\r' || c == '\n'

namespace ScanContext

def initial : ScanContext := ⟨none, none, [], 0⟩

def pass (ctx : ScanContext) (piece : Piece) : ScanContext :=
  { ctx with
    previous := piece.text.getLast?.or ctx.previous
    last :=
      if piece.kind.isLineBreak then none
      else if piece.kind = .space then ctx.last
      else some piece }

def advance (ctx : ScanContext) (step : ScanStep) : ScanContext :=
  { step.pieces.foldl pass ctx with embeddings := step.embeddings, depth := step.depth }

def atLineStart (ctx : ScanContext) : Bool :=
  ctx.previous.isNone || ctx.previous == some '\n'

def atLineHead (ctx : ScanContext) : Bool :=
  ctx.last.isNone

def followsWordChar (ctx : ScanContext) : Bool :=
  ctx.previous.any isWordChar

def emit (ctx : ScanContext) (kind : TokenKind) (text rest : Text) : ScanStep :=
  ⟨[⟨kind, text⟩], rest, ctx.embeddings, ctx.depth⟩

/-- The kind of a line break.  It ends a logical line unless a bracket is open, the line is
empty, or the line ends with something that has to be continued. -/
def lineBreak (g : Grammar) (ctx : ScanContext) : TokenKind :=
  if 0 < ctx.depth then .ignoredNewline
  else match ctx.last with
    | none => .ignoredNewline
    | some piece =>
      match piece.kind with
      | .operator => if g.isContinuationExempt piece.text then .newline else .ignoredNewline
      | .comma | .period | .keyword .connective | .openBracket _ | .symbolBegin => .ignoredNewline
      | _ => .newline

def plainWord (ctx : ScanContext) (word rest : Text) : ScanStep :=
  match rest with
  | '.' :: more =>
    if standsAlone more.head? then ctx.emit .text (word ++ ['.']) more
    else ctx.emit .text word rest
  | _ => ctx.emit .text word rest

def keywordOrPlain (g : Grammar) (ctx : ScanContext) (word rest : Text) : ScanStep :=
  match g.keywordRole word with
  | some role =>
    if role ≠ .closer || ctx.atLineHead then ctx.emit (.keyword role) word rest
    else ctx.plainWord word rest
  | none => ctx.plainWord word rest

def word (g : Grammar) (ctx : ScanContext) (text rest : Text) : ScanStep :=
  match rest with
  | ':' :: more =>
    if standsAlone more.head? then ctx.emit .label (text ++ [':']) more
    else ctx.keywordOrPlain g text rest
  | _ => ctx.keywordOrPlain g text rest

def operator (g : Grammar) (ctx : ScanContext) (text rest : Text) : ScanStep :=
  if g.isBlockSigil text && standsAlone rest.head? then ctx.emit (.keyword .blockSigil) text rest
  else if ctx.followsWordChar || rest.head?.any isWordChar then ctx.emit .text text rest
  else ctx.emit .operator text rest

def hashes (g : Grammar) (ctx : ScanContext) (text rest : Text) : ScanStep :=
  if g.isBlockSigil text && standsAlone rest.head? then ctx.emit (.keyword .blockSigil) text rest
  else ctx.emit .text text rest

def colons (g : Grammar) (ctx : ScanContext) (text rest : Text) : ScanStep :=
  if text.length = 1 && !ctx.followsWordChar
      && rest.head?.any (fun c => isWordChar c || g.startsSigil c) then
    ctx.emit .symbolBegin text rest
  else if ctx.followsWordChar || rest.head?.any isWordChar then ctx.emit .text text rest
  else ctx.emit .operator text rest

end ScanContext

def pieceOf (kind : TokenKind) (text : Text) : List Piece :=
  if text = [] then [] else [⟨kind, text⟩]

@[simp] theorem flatMap_text_pieceOf (kind : TokenKind) (text : Text) :
    (pieceOf kind text).flatMap Piece.text = text := by
  unfold pieceOf
  split <;> simp_all

def ScanContext.codeSpan (g : Grammar) (ctx : ScanContext) (text rest : Text) : ScanStep :=
  if g.codeSpan ≠ some '\x60' then ctx.emit .text text rest
  else
    let opening : Piece := ⟨.literalBegin .codeSpan, text⟩
    match Literal.beforeBackticks? text.length rest with
    | none =>
      ⟨opening :: pieceOf .literalContent rest, [], ctx.embeddings, ctx.depth⟩
    | some (content, closing) =>
      ⟨opening :: pieceOf .literalContent content ++
          [⟨.literalEnd .codeSpan, closing.takeWhile (· == '\x60')⟩],
        closing.dropWhile (· == '\x60'), ctx.embeddings, ctx.depth⟩

/-- Reads a string quoted with `q` from inside, up to its end or to code embedded in it. -/
def quotedStep (g : Grammar) (q : Char) (embeddings : List Embedding) (depth : Nat) (t : Text) :
    ScanStep :=
  let parts := Literal.quoted g q t
  match parts.2 with
  | [] => ⟨pieceOf .literalContent parts.1, [], embeddings, depth⟩
  | c :: rest =>
    if c = q then
      ⟨pieceOf .literalContent parts.1 ++ [⟨.literalEnd .quote, [c]⟩], rest, embeddings, depth⟩
    else
      ⟨pieceOf .literalContent parts.1 ++
          [⟨.openBracket .interpolationBegin, g.interpolationOpen⟩],
        (c :: rest).drop g.interpolationOpen.length, ⟨q, 0⟩ :: embeddings, depth + 1⟩

def ScanStep.precededBy (piece : Piece) (step : ScanStep) : ScanStep :=
  { step with pieces := piece :: step.pieces }

namespace ScanContext

def openBracket (g : Grammar) (ctx : ScanContext) (kind : OpenKind) (c : Char) (rest : Text) :
    ScanStep :=
  let behindArrow := ctx.last.any fun piece =>
    piece.kind == .operator && piece.text == g.lambdaArrow
  let kind := if kind = .brace && behindArrow then .lambdaBegin else kind
  let embeddings := match ctx.embeddings with
    | [] => []
    | e :: outer => { e with depth := e.depth + 1 } :: outer
  ⟨[⟨.openBracket kind, [c]⟩], rest, embeddings, ctx.depth + 1⟩

/-- A closing bracket.  A brace that closes no bracket of the embedded code ends that code. -/
def closeBracket (g : Grammar) (ctx : ScanContext) (kind : OpenKind) (c : Char) (rest : Text) :
    ScanStep :=
  let depth := ctx.depth - 1
  match ctx.embeddings with
  | [] => ⟨[⟨.closeBracket kind.closer, [c]⟩], rest, [], depth⟩
  | e :: outer =>
    if e.depth = 0 && kind = .brace then
      (quotedStep g e.quote outer depth rest).precededBy
        ⟨.closeBracket .interpolationEnd, [c]⟩
    else
      ⟨[⟨.closeBracket kind.closer, [c]⟩], rest, { e with depth := e.depth - 1 } :: outer, depth⟩

/-- A quote.  One that cannot embed code is an apostrophe if it follows a word character or is
not closed on its line. -/
def quote (g : Grammar) (ctx : ScanContext) (mark : QuoteMark) (c : Char) (rest : Text) :
    ScanStep :=
  if !mark.interpolates && (ctx.followsWordChar || !Literal.closesOnLine c rest) then
    ctx.emit .text [c] rest
  else
    (quotedStep g c ctx.embeddings ctx.depth rest).precededBy ⟨.literalBegin .quote, [c]⟩

def otherChar (g : Grammar) (ctx : ScanContext) (c : Char) (rest : Text) : ScanStep :=
  match g.opening? c with
  | some kind => ctx.openBracket g kind c rest
  | none =>
    match g.closing? c with
    | some kind => ctx.closeBracket g kind c rest
    | none =>
      match g.quote? c with
      | some mark => ctx.quote g mark c rest
      | none => ctx.emit .text [c] rest

def lexeme (g : Grammar) (ctx : ScanContext) (c : Char) (rest : Text) : ScanStep :=
  let found := Lexeme.first c rest
  let text := found.1.text
  let behind := found.2
  match found.1.kind with
  | .whitespace => ctx.emit .space text behind
  | .newline => ctx.emit (ctx.lineBreak g) text behind
  | .word => ctx.word g text behind
  | .operator => ctx.operator g text behind
  | .hashes => ctx.hashes g text behind
  | .dots => ctx.emit (if text.length = 1 then .period else .text) text behind
  | .colons => ctx.colons g text behind
  | .comma => ctx.emit .comma text behind
  | .backticks => ctx.codeSpan g text behind
  | .other => ctx.otherChar g c rest

def fence? (g : Grammar) (ctx : ScanContext) (t : Text) : Option ScanStep :=
  let line := t.firstLine
  match line.dropWhile Text.isIndentChar with
  | [] => none
  | f :: info =>
    let run := ((f :: info).takeWhile (· == f)).length
    if g.fenceChars.contains f && g.fenceMin ≤ run then
      let head := pieceOf .space line.leading ++
        ⟨.literalBegin .fence, f :: info⟩ :: pieceOf .newline t.firstEnding
      let parts := Literal.fenced f run t.afterFirstLine
      let closing := parts.2.firstLine
      let pieces := head ++ pieceOf .literalContent parts.1 ++
        pieceOf (.literalEnd .fence) closing
      some ⟨pieces, parts.2.drop closing.length, ctx.embeddings, ctx.depth⟩
    else none

def step (g : Grammar) (ctx : ScanContext) (c : Char) (rest : Text) : ScanStep :=
  if ctx.embeddings.isEmpty && ctx.atLineStart then
    (ctx.fence? g (c :: rest)).getD (ctx.lexeme g c rest)
  else ctx.lexeme g c rest

end ScanContext

end MarkupLayout

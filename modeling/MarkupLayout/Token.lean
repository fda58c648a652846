import MarkupLayout.Text.Line
/-!
# Tokens

A token is a piece of the source with a kind and the position at which it starts.  The kinds are
just fine enough to find the structure of a document: a keyword carries the role the grammar
gives it and not its spelling.
-/

namespace MarkupLayout

inductive OpenKind where
  | paren
  | bracket
  | brace
  | lambdaBegin
  | interpolationBegin
deriving DecidableEq, Repr

inductive CloseKind where
  | paren
  | bracket
  | brace
  | interpolationEnd
deriving DecidableEq, Repr

namespace OpenKind

def closer : OpenKind → CloseKind
  | paren => .paren
  | bracket => .bracket
  | brace => .brace
  | lambdaBegin => .brace
  | interpolationBegin => .interpolationEnd

def isGrouping : OpenKind → Bool
  | paren | bracket | brace => true
  | lambdaBegin | interpolationBegin => false

end OpenKind

inductive KeywordRole where
  | blockSigil
  | closer
  | connective
  | other
deriving DecidableEq, Repr

inductive LiteralKind where
  | quote
  | fence
  | codeSpan
deriving DecidableEq, Repr

inductive TokenKind where
  | keyword (role : KeywordRole)
  | operator
  | openBracket (kind : OpenKind)
  | closeBracket (kind : CloseKind)
  | comma
  | period
  | label
  | literalBegin (kind : LiteralKind)
  | literalEnd (kind : LiteralKind)
  | literalContent
  /-- A line break that ends a logical line. -/
  | newline
  /-- A line break in the middle of a logical line. -/
  | ignoredNewline
  | space
  /-- A colon that makes a symbol of what follows it. -/
  | symbolBegin
  | text
deriving DecidableEq, Repr

namespace TokenKind

def isLineBreak : TokenKind → Bool
  | newline | ignoredNewline => true
  | _ => false

def isTrivia : TokenKind → Bool
  | space | newline | ignoredNewline => true
  | _ => false

def isKeyword : TokenKind → Bool
  | keyword _ => true
  | _ => false

end TokenKind

/-- A token whose position is not known yet. -/
structure Piece where
  kind : TokenKind
  text : Text
deriving DecidableEq, Repr

structure Token where
  line : Nat
  column : Nat
  kind : TokenKind
  text : Text
deriving DecidableEq, Repr

namespace Token

def isBlockSigil (t : Token) : Bool :=
  t.kind == .keyword .blockSigil

def isCloser (t : Token) : Bool :=
  t.kind == .keyword .closer

def ofPiece (p : Position) (piece : Piece) : Token :=
  ⟨p.line, p.column, piece.kind, piece.text⟩

/-- Gives consecutive pieces their positions, the first of them starting at `p`. -/
def place (p : Position) : List Piece → List Token
  | [] => []
  | piece :: more => ofPiece p piece :: place (p.after piece.text) more

theorem map_text_place (p : Position) (pieces : List Piece) :
    (place p pieces).map Token.text = pieces.map Piece.text := by
  induction pieces generalizing p with
  | nil => rfl
  | cons piece more ih => simp [place, ofPiece, ih]

theorem map_kind_place (p : Position) (pieces : List Piece) :
    (place p pieces).map Token.kind = pieces.map Piece.kind := by
  induction pieces generalizing p with
  | nil => rfl
  | cons piece more ih => simp [place, ofPiece, ih]

@[simp] theorem length_place (p : Position) (pieces : List Piece) :
    (place p pieces).length = pieces.length := by
  simpa using congrArg List.length (map_kind_place p pieces)

theorem place_append (p : Position) (left right : List Piece) :
    place p (left ++ right) =
      place p left ++ place (p.after (left.flatMap Piece.text)) right := by
  induction left generalizing p with
  | nil => simp [place]
  | cons piece more ih => simp [place, ih]

def lastSignificant? (tokens : List Token) : Option Token :=
  tokens.reverse.find? (!·.kind.isTrivia)

def lastSignificantIndex? (tokens : List Token) : Option Nat :=
  (tokens.reverse.findIdx? (!·.kind.isTrivia)).map (tokens.length - 1 - ·)

end Token

end MarkupLayout

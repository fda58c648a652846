import MarkupLayout.Token.Scan
/-!
# Open literals

A place is inside a literal when the tokens before it leave one open.  Code embedded in a string
is tracked as a frame of its own: it is not literal, although a string is open around it.
-/

namespace MarkupLayout.Literal

inductive Frame where
  | literal
  | embedded
deriving DecidableEq, Repr

/-- The open frames behind a token, innermost first.  An end that does not fit is ignored. -/
def pass (frames : List Frame) (kind : TokenKind) : List Frame :=
  match kind with
  | .literalBegin _ => .literal :: frames
  | .literalEnd _ => if frames.head? = some .literal then frames.tail else frames
  | .openBracket .interpolationBegin => .embedded :: frames
  | .closeBracket .interpolationEnd =>
    if frames.head? = some .embedded then frames.tail else frames
  | _ => frames

def openFrames (kinds : List TokenKind) : List Frame :=
  kinds.foldl pass []

def endsInside (tokens : List Token) : Bool :=
  (openFrames (tokens.map Token.kind)).head? == some .literal

def isOpenAfter (g : Grammar) (t : Text) : Bool :=
  endsInside (tokenize g t 1)

end MarkupLayout.Literal

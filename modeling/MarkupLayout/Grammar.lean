import MarkupLayout.Token
/-!
# Grammars

The facts about a markup dialect that its analysis depends on, as plain data: brackets, the
sigils that open blocks and the word that closes them, other keywords, and how literals are
delimited.  `Grammar.markdown` is the default dialect.
-/

namespace MarkupLayout

structure BracketPair where
  opening : Char
  closing : Char
  kind : OpenKind
deriving DecidableEq, Repr

structure QuoteMark where
  char : Char
  interpolates : Bool
deriving DecidableEq, Repr

structure Grammar where
  brackets : List BracketPair
  blockSigils : List Text
  closer : Text
  connectives : List Text
  keywords : List Text
  /-- The operator that makes a sigil's line a definition without a block. -/
  endlessMarker : Option Text
  /-- Operators that may end a logical line. -/
  continuationExempt : List Text
  lambdaArrow : Text
  quotes : List QuoteMark
  interpolationOpen : Text
  fenceChars : List Char
  fenceMin : Nat
  codeSpan : Option Char
deriving DecidableEq, Repr

namespace Grammar

/-- Lists and headings open blocks, which a line that starts with `end` closes. -/
def markdown : Grammar where
  brackets := [⟨'(', ')', .paren⟩, ⟨'[', ']', .bracket⟩, ⟨'\x7b', '\x7d', .brace⟩]
  blockSigils := [['*'], ['#'], ['#', '#'], ['#', '#', '#'], ['#', '#', '#', '#'],
    ['#', '#', '#', '#', '#'], ['#', '#', '#', '#', '#', '#']]
  closer := ['e', 'n', 'd']
  connectives := [['a', 'n', 'd'], ['o', 'r']]
  keywords := [['n', 'o', 't']]
  endlessMarker := some ['=']
  continuationExempt := [['|']]
  lambdaArrow := ['-', '>']
  quotes := [⟨'\x22', true⟩, ⟨'\x27', false⟩]
  interpolationOpen := ['#', '\x7b']
  fenceChars := ['\x60', '~']
  fenceMin := 3
  codeSpan := some '\x60'

def keywordRole (g : Grammar) (text : Text) : Option KeywordRole :=
  if g.blockSigils.contains text then some .blockSigil
  else if g.closer = text then some .closer
  else if g.connectives.contains text then some .connective
  else if g.keywords.contains text then some .other
  else none

def isBlockSigil (g : Grammar) (text : Text) : Bool :=
  g.blockSigils.contains text

def startsSigil (g : Grammar) (c : Char) : Bool :=
  g.blockSigils.any (·.head? == some c)

def opening? (g : Grammar) (c : Char) : Option OpenKind :=
  (g.brackets.find? (·.opening == c)).map (·.kind)

def closing? (g : Grammar) (c : Char) : Option OpenKind :=
  (g.brackets.find? (·.closing == c)).map (·.kind)

def quote? (g : Grammar) (c : Char) : Option QuoteMark :=
  g.quotes.find? (·.char == c)

def isEndlessMarker (g : Grammar) (text : Text) : Bool :=
  g.endlessMarker == some text

def isContinuationExempt (g : Grammar) (text : Text) : Bool :=
  g.continuationExempt.contains text

end Grammar

end MarkupLayout

import MarkupLayout.Text.Quoted
import MarkupLayout.Token
/-!
# Written tokens

A token list can be written in two formats: one line per token, or an indented JSON array.
-/

namespace MarkupLayout

def OpenKind.name : OpenKind → String
  | .paren => "Paren"
  | .bracket => "Bracket"
  | .brace => "Brace"
  | .lambdaBegin => "LambdaBegin"
  | .interpolationBegin => "InterpolationBegin"

def CloseKind.name : CloseKind → String
  | .paren => "Paren"
  | .bracket => "Bracket"
  | .brace => "Brace"
  | .interpolationEnd => "InterpolationEnd"

def KeywordRole.name : KeywordRole → String
  | .blockSigil => "BlockSigil"
  | .closer => "Closer"
  | .connective => "Connective"
  | .other => "Other"

def LiteralKind.name : LiteralKind → String
  | .quote => "Quote"
  | .fence => "Heredoc"
  | .codeSpan => "Regex"

def TokenKind.names : TokenKind → String × Option String
  | .keyword role => ("Keyword", some role.name)
  | .operator => ("OperatorOrPunct", none)
  | .openBracket kind => ("OpenBracket", some kind.name)
  | .closeBracket kind => ("CloseBracket", some kind.name)
  | .comma => ("Comma", none)
  | .period => ("Period", none)
  | .label => ("Label", none)
  | .literalBegin kind => ("StringBoundaryBegin", some kind.name)
  | .literalEnd kind => ("StringBoundaryEnd", some kind.name)
  | .literalContent => ("StringContent", none)
  | .newline => ("Newline", none)
  | .ignoredNewline => ("IgnoredNewline", none)
  | .space => ("Space", none)
  | .symbolBegin => ("SymbolBegin", none)
  | .text => ("Text", none)

def TokenKind.name (kind : TokenKind) : String :=
  match kind.names with
  | (name, none) => name
  | (name, some variant) => name ++ "(" ++ variant ++ ")"

namespace Token

def describe (t : Token) : Text :=
  Text.ofNat t.line ++ [':'] ++ Text.ofNat t.column ++ [' '] ++ t.kind.name.toList ++ [' '] ++
    t.text.quotedPlain

def dumpSimple (tokens : List Token) : Text :=
  tokens.flatMap fun t => t.describe ++ ['\n']

/-- A kind as a JSON value: its name, or an object that maps the name to the variant. -/
def kindJson (kind : TokenKind) : Text :=
  match kind.names with
  | (name, none) => Text.quotedJson name.toList
  | (name, some variant) =>
    "\x7b\n      ".toList ++ Text.quotedJson name.toList ++ ": ".toList ++
      Text.quotedJson variant.toList ++ "\n    \x7d".toList

/-- A token as a JSON object, indented as an element of the array. -/
def json (t : Token) : Text :=
  "  \x7b\n    \x22line\x22: ".toList ++ Text.ofNat t.line ++
    ",\n    \x22column\x22: ".toList ++ Text.ofNat t.column ++
    ",\n    \x22kind\x22: ".toList ++ kindJson t.kind ++
    ",\n    \x22text\x22: ".toList ++ Text.quotedJson t.text ++ "\n  \x7d".toList

def dumpJson : List Token → Text
  | [] => "[]\n".toList
  | tokens => "[\n".toList ++ ",\n".toList.intercalate (tokens.map json) ++ "\n]\n".toList

end Token

inductive DumpFormat where
  | json
  | simple
deriving DecidableEq, Repr

namespace DumpFormat

def all : List DumpFormat := [json, simple]

def name : DumpFormat → String
  | json => "json"
  | simple => "simple"

def ofName? (name : String) : Option DumpFormat :=
  all.find? (·.name == name)

def dump : DumpFormat → List Token → Text
  | json => Token.dumpJson
  | simple => Token.dumpSimple

end DumpFormat

end MarkupLayout

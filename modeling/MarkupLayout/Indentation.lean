import MarkupLayout.IndentStyle
import MarkupLayout.Literal.Open
import MarkupLayout.Nesting
import MarkupLayout.Pattern
/-!
# Indentation of a line

The column of a line follows from the text above it.

* The anchor is the nearest line above that starts with a sigil outside any literal; without one
  the top of the text takes its place.
* If the text from the anchor on ends inside a literal, the line keeps its indentation.
* Inside an opener, the line goes one level right of the opener's line; with no opener, each
  closer keyword too many takes it one level left of the anchor.
* A line behind something that has to be continued goes one level further right.
* Behind a parenthesis with content on its own line, the line is aligned with that content.

Levels are added and taken away in signed words of 64 bits.  `toColumn_of_lt` says that this makes
no difference to columns that fit into such a word.  Nothing else is wrapped: widths, and the
columns that `argumentColumn?` reads off a line, are natural numbers, meant for the range that
`IndentStyle` gives, in which sums of unsigned words do not overflow.
-/

namespace MarkupLayout.Indentation

structure Anchor where
  above : Text
  indent : Text
deriving DecidableEq, Repr

def Anchor.line (a : Anchor) : Nat :=
  a.above.lastLine

def anchor? (g : Grammar) (t : Text) : Option Anchor :=
  match g.sigilLine.last? t with
  | none => none
  | some m =>
    if Literal.isOpenAfter g (t.take m.start) then
      if m.start < t.length then anchor? g (t.take m.start) else none
    else some ⟨t.take m.start, (t.drop m.start).take (m.indent.getD 0)⟩
termination_by t.length
decreasing_by
  rw [List.length_take]
  omega

structure Survey where
  anchor : Option Anchor
  tokens : List Token
deriving DecidableEq, Repr

def survey (g : Grammar) (above : Text) : Survey :=
  match anchor? g above with
  | some a => ⟨some a, tokenize g (above.drop a.above.length) a.line⟩
  | none => ⟨none, tokenize g above 1⟩

namespace Survey

def base (style : IndentStyle) (s : Survey) : Nat :=
  (s.anchor.map fun a => Text.width style.tabWidth a.indent).getD 0

def last? (s : Survey) : Option Token :=
  Token.lastSignificant? s.tokens

def endsInLiteral (s : Survey) : Bool :=
  s.last?.any fun t =>
    match t.kind with
    | .literalBegin _ | .literalContent => true
    | _ => false

def hasEarlierAnchor (g : Grammar) (s : Survey) : Bool :=
  s.anchor.any fun a => (anchor? g a.above).isSome

end Survey

/-- Column of the content behind a parenthesis on its own line, `above` holding that line. -/
def argumentColumn? (style : IndentStyle) (above : Text) (opener : Token) (behind : List Token) :
    Option Nat :=
  let onLine := behind.takeWhile (!·.kind.isLineBreak)
  if opener.kind = .openBracket .paren && onLine.any (!·.kind.isTrivia) then
    (above.lineText? opener.line).map fun line =>
      Text.displayColumn style.tabWidth line opener.column + 1
  else none

/-- Indentation of a line, or of the line at which a list that leads up to it by commas starts.
The lines above it come nearest first; blank ones are passed over. -/
def listBase (style : IndentStyle) (line : Text) : (earlier : List Text) → Nat
  | [] => style.indentOf line
  | previous :: earlier =>
    if previous.isBlank then listBase style line earlier
    else if previous.endsVisiblyWith ',' then listBase style previous earlier
    else style.indentOf line

def openerBase (style : IndentStyle) (above : Text) (line : Nat) : Nat :=
  match ((above.lines.take line).map Text.stripReturn).reverse with
  | [] => 0
  | nearest :: earlier => listBase style nearest earlier

/-- Whether a line behind `last` continues it.  A comma continues only where no bracket that
groups and no block makes the items equal. -/
def continues (g : Grammar) (last opener : Option Token) : Bool :=
  match last with
  | none => false
  | some t =>
    match t.kind with
    | .operator => !g.isContinuationExempt t.text
    | .keyword .connective | .period | .label => true
    | .comma =>
      match opener.map Token.kind with
      | none => true
      | some (.openBracket kind) => !kind.isGrouping
      | some _ => false
    | _ => false

/-- The column that a number stands for as a signed word.  Negative words stand for the first
column. -/
def toColumn (x : Int) : Nat :=
  (x.bmod UInt64.size).toNat

theorem toColumn_of_lt {x : Int} (low : -0x8000000000000000 ≤ x)
    (high : x < 0x8000000000000000) : toColumn x = x.toNat := by
  have hsize : UInt64.size = 0x10000000000000000 := rfl
  rw [toColumn, Int.bmod_eq_of_le (by omega) (by omega)]

def adjusted (style : IndentStyle) (start : Int) (sigil continued : Bool) : Nat :=
  let start := if sigil then start - style.indentWidth else start
  let start := if sigil || continued then start + style.indentWidth else start
  toColumn start

def columnIn (g : Grammar) (style : IndentStyle) (above : Text) (sigil : Bool) (s : Survey)
    (scope : Nesting.Scope) : Except Nesting.Mismatch Nat :=
  let opener := scope.opener.bind fun index => s.tokens[index]?
  let continued := continues g s.last? opener
  match scope.opener, opener with
  | some index, some t =>
    match argumentColumn? style above t (s.tokens.drop (index + 1)) with
    | some column => .ok column
    | none =>
      .ok (adjusted style (openerBase style above t.line + style.indentWidth) sigil continued)
  | _, _ =>
    let start : Int := s.base style - scope.extraClosers * style.indentWidth
    match scope.firstExtraCloser.bind fun index => s.tokens[index]? with
    | some t =>
      if s.hasEarlierAnchor g then .ok (adjusted style start sigil continued)
      else .error (.ofToken t)
    | none => .ok (adjusted style start sigil continued)

def column (g : Grammar) (style : IndentStyle) (above : Text) (sigil : Bool) :
    Except Nesting.Mismatch (Option Nat) :=
  let s := survey g above
  if s.endsInLiteral then .ok none
  else
    match Nesting.enclosingScope g s.tokens with
    | .error mismatch => .error mismatch
    | .ok scope => (columnIn g style above sigil s scope).map some

def columnOf (g : Grammar) (style : IndentStyle) (t : Text) (line : Nat) :
    Except Nesting.Mismatch (Option Nat) :=
  if line ≤ 1 then .ok (some 0)
  else
    match t.cutAtLine? line with
    | none => .ok none
    | some (above, below) => column g style above (g.sigilLine.occursIn below.firstLine)

end MarkupLayout.Indentation

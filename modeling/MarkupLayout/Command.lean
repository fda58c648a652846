import MarkupLayout.Document.Indent
import MarkupLayout.Document.Jump
import MarkupLayout.Dump
/-!
# Commands

What the program can be asked to do with a named text.  A command gives the text to print, or says
why it cannot be carried out.
-/

namespace MarkupLayout

inductive CommandError where
  | noLine (document : String) (line : Nat)
  | malformed (e : MalformedNesting)
  | unknownFormat (name : String)
deriving DecidableEq, Repr

def CommandError.message : CommandError → String
  | .noLine document line => document ++ ": no line " ++ toString line
  | .malformed e => e.message
  | .unknownFormat name =>
    "Unknown token format \x27" ++ name ++ "\x27 (available: " ++
      ", ".intercalate (DumpFormat.all.map DumpFormat.name) ++ ")"

namespace Command

def requireLine (doc : Document) (line : Nat) : Except CommandError Unit :=
  if line = 0 ∨ doc.text.lineCount < line then .error (.noLine doc.name line) else .ok ()

/-- The column of a line, or `none` inside a literal. -/
def indent (g : Grammar) (doc : Document) (line : Nat) : Except CommandError String := do
  requireLine doc line
  match ← (doc.columnOf g line).mapError .malformed with
  | some column => return toString column ++ "\n"
  | none => return "none\n"

def reindent (g : Grammar) (doc : Document) :
    Except CommandError (Text × List (Nat × IndentOutcome)) :=
  match doc.indentRegion g 1 doc.text.lineCount with
  | (_, .error e) => .error (.malformed e)
  | (indented, .ok outcomes) => .ok (indented.text, outcomes)

def changedLines (outcomes : List (Nat × IndentOutcome)) : Nat :=
  outcomes.countP (·.2.isReindented)

def jump (g : Grammar) (doc : Document) (line count : Nat) (backward : Bool) :
    Except CommandError (Document × Outline.Destination) := do
  requireLine doc line
  let start := doc.gotoLine line
  return if backward then start.backward g count else start.forward g count

/-- The line of the `count`-th definition before or behind a line. -/
def definition (g : Grammar) (doc : Document) (line count : Nat) (backward : Bool) :
    Except CommandError String := do
  match (← jump g doc line count backward).2 with
  | .line number => return toString number ++ "\n"
  | .start => return "start\n"
  | .stop => return "end\n"

def tokens (g : Grammar) (t : Text) (format : String) : Except CommandError Text :=
  match DumpFormat.ofName? format with
  | some format => .ok (format.dump (tokenize g t 1))
  | none => .error (.unknownFormat format)

end Command

end MarkupLayout

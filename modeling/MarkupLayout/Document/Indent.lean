import MarkupLayout.Document.Basic
import MarkupLayout.Indentation
/-!
# Indenting a document

The commands that compute columns and write them into the text.  A line without a column, which is
taken to start inside a literal, is left as it is; the blank lines of a region become empty without
a look at what stands above them.  A failing command leaves the lines from the failing one on as
they were.

The widths that are compared and reported here are natural numbers, as those of `IndentStyle` are,
and meant for the range given there.
-/

namespace MarkupLayout

structure MalformedNesting where
  document : String
  line : Nat
  token : Text
deriving DecidableEq, Repr

def MalformedNesting.message (e : MalformedNesting) : String :=
  e.document ++ ":" ++ toString e.line ++ ": Unmatched " ++ String.ofList e.token

inductive IndentOutcome where
  /-- Its indentation was rewritten; the widths are those before and after. -/
  | reindented (before after : Nat)
  | unchanged
  | suppressed
deriving DecidableEq, Repr

def IndentOutcome.isReindented : IndentOutcome → Bool
  | reindented _ _ => true
  | _ => false

namespace Document

def columnOf (g : Grammar) (doc : Document) (line : Nat) :
    Except MalformedNesting (Option Nat) :=
  (Indentation.columnOf g doc.style doc.text line).mapError fun mismatch =>
    ⟨doc.name, mismatch.line, mismatch.token⟩

def leadingOf (doc : Document) (line : Nat) : Text :=
  ((doc.text.lineText? line).getD []).leading

/-- Gives a line an indentation of the given width.  If asked to, takes a cursor in the old
indentation to the end of the new one. -/
def setIndent (doc : Document) (line width : Nat) (moveCursor : Bool) :
    Document × IndentOutcome :=
  match doc.text.lineStart? line with
  | none => (doc, .unchanged)
  | some start =>
    let current := doc.leadingOf line
    let desired := doc.style.write width
    let inIndent := decide (start ≤ doc.cursor ∧ doc.cursor ≤ start + current.byteSize)
    let (edited, outcome) :=
      if current = desired then (doc, .unchanged)
      else
        (doc.replace start (start + current.byteSize) desired,
          .reindented (Text.width doc.style.tabWidth current) width)
    if moveCursor && inIndent then (edited.setCursor (start + desired.byteSize), outcome)
    else (edited, outcome)

def applyColumn (doc : Document) (line : Nat) (column : Option Nat) (moveCursor : Bool) :
    Document × IndentOutcome :=
  match column with
  | none => (doc, .suppressed)
  | some width => doc.setIndent line width moveCursor

def indentLine (g : Grammar) (doc : Document) :
    Except MalformedNesting (Document × IndentOutcome) := do
  let line := doc.currentLine
  let column ← doc.columnOf g line
  return doc.applyColumn line column true

def isBlankLine (doc : Document) (line : Nat) : Bool :=
  ((doc.text.lineText? line).map Text.isBlank).getD true

def indentInRegion (g : Grammar) (doc : Document) (line : Nat) :
    Except MalformedNesting (Document × IndentOutcome) := do
  if doc.isBlankLine line then return doc.setIndent line 0 false
  else
    let column ← doc.columnOf g line
    return doc.applyColumn line column false

def indentLines (g : Grammar) (doc : Document) :
    List Nat → Document × Except MalformedNesting (List (Nat × IndentOutcome))
  | [] => (doc, .ok [])
  | line :: more =>
    match doc.indentInRegion g line with
    | .error e => (doc, .error e)
    | .ok (edited, outcome) =>
      let (last, outcomes) := edited.indentLines g more
      (last, outcomes.map ((line, outcome) :: ·))

def regionLines (doc : Document) (first last : Nat) : List Nat :=
  let first := max first 1
  List.range' first (min last doc.text.lineCount + 1 - first)

def indentRegion (g : Grammar) (doc : Document) (first last : Nat) :
    Document × Except MalformedNesting (List (Nat × IndentOutcome)) :=
  doc.indentLines g (doc.regionLines first last)

/-- The lines that are neither blank nor in a literal and have another indentation than they
should have, with both widths. -/
def unstableLines (g : Grammar) (doc : Document) :
    Except MalformedNesting (List (Nat × Nat × Nat)) := do
  let lines := (doc.regionLines 1 doc.text.lineCount).filter (!doc.isBlankLine ·)
  let checked ← lines.mapM fun line => do
    let current := Text.width doc.style.tabWidth (doc.leadingOf line)
    let column ← doc.columnOf g line
    return column.bind fun width =>
      if width = current then none else some (line, current, width)
  return checked.filterMap id

end Document

end MarkupLayout

import MarkupLayout.Document.Indent
import MarkupLayout.Document.Jump
import MarkupLayout.Document.Search
/-!
# Sessions

A session applies a list of actions to a document.  Each action gives a result and the document
behind it; an action that fails is part of the session like any other.
-/

namespace MarkupLayout.Document

inductive Action where
  | setCursor (offset : Nat)
  | gotoLine (line : Nat)
  | replace (start stop : Nat) (new : Text)
  | indentLine
  | indentRegion (first last : Nat)
  | columnOf (line : Nat)
  | forward (count : Nat)
  | backward (count : Nat)
  | lineText (line : Nat)
  | lineStart (line : Nat)
  | lineAt (offset : Nat)
  | lineCount
  | between (start stop : Nat)
  | searchBackward (pattern : Pattern) (offset : Nat)
  | searchForward (pattern : Pattern) (offset : Nat)
  | lookingAt (pattern : Pattern) (offset : Nat)
  | excursion (actions : List Action)

inductive Result where
  | nothing
  | failed (e : MalformedNesting)
  | outcome (outcome : IndentOutcome)
  | outcomes (outcomes : List (Nat × IndentOutcome))
  | destination (destination : Outline.Destination)
  | number (n : Option Nat)
  | text (t : Option Text)
  | found (found : Option (Found × List (Option Text)))
  | flag (b : Bool)
  | entries (entries : List (Result × Document))

def captures (doc : Document) (found : Found) : Found × List (Option Text) :=
  (found, (List.range found.ranges.length).map (doc.capture? found))

mutual

def perform (g : Grammar) (doc : Document) : Action → Document × Result
  | .setCursor offset => (doc.setCursor offset, .nothing)
  | .gotoLine line => (doc.gotoLine line, .nothing)
  | .replace start stop new => (doc.replace start stop new, .nothing)
  | .indentLine =>
    match doc.indentLine g with
    | .error e => (doc, .failed e)
    | .ok (edited, outcome) => (edited, .outcome outcome)
  | .indentRegion first last =>
    match doc.indentRegion g first last with
    | (edited, .error e) => (edited, .failed e)
    | (edited, .ok outcomes) => (edited, .outcomes outcomes)
  | .columnOf line =>
    match doc.columnOf g line with
    | .error e => (doc, .failed e)
    | .ok column => (doc, .number column)
  | .forward count =>
    let (moved, destination) := doc.forward g count
    (moved, .destination destination)
  | .backward count =>
    let (moved, destination) := doc.backward g count
    (moved, .destination destination)
  | .lineText line => (doc, .text (doc.text.lineText? line))
  | .lineStart line => (doc, .number (doc.text.lineStart? line))
  | .lineAt offset => (doc, .number (doc.lineAt offset))
  | .lineCount => (doc, .number doc.text.lineCount)
  | .between start stop => (doc, .text (doc.text.between start stop))
  | .searchBackward pattern offset =>
    (doc, .found ((doc.searchBackward pattern offset).map doc.captures))
  | .searchForward pattern offset =>
    (doc, .found ((doc.searchForward pattern offset).map doc.captures))
  | .lookingAt pattern offset => (doc, .flag (doc.lookingAt pattern offset))
  | .excursion actions =>
    let (moved, entries) := doc.excursion fun inner => performAll g inner actions
    (moved, .entries entries)

/-- Performs actions one after the other and pairs each result with the document behind it. -/
def performAll (g : Grammar) (doc : Document) : List Action → Document × List (Result × Document)
  | [] => (doc, [])
  | action :: more =>
    let (next, result) := perform g doc action
    let (last, entries) := performAll g next more
    (last, (result, next) :: entries)

end

end MarkupLayout.Document

import MarkupLayout.Command
import MarkupLayout.Log
/-!
# Traces

What the commands log about their work, in the order in which the work is done.
-/

namespace MarkupLayout.Trace

/-- An optional number in a logged record. -/
def optional : Option Nat → String
  | none => "None"
  | some n => "Some(" ++ toString n ++ ")"

def record (name : String) (fields : List (String × String)) : String :=
  name ++ " \x7b " ++ ", ".intercalate (fields.map fun (key, value) => key ++ ": " ++ value) ++
    " \x7d"

def outcome : IndentOutcome → String
  | .reindented before after =>
    record "Reindented" [("from", toString before), ("to", toString after)]
  | .unchanged => "Unchanged"
  | .suppressed => "Suppressed"

def destination : Outline.Destination → String
  | .line number => "Line(" ++ toString number ++ ")"
  | .start => "DocumentStart"
  | .stop => "DocumentEnd"

def tokenized (t : Text) (firstLine : Nat) (tokens : List Token) : LogEntry :=
  ⟨.trace, "tokenized " ++ toString t.byteSize ++ " bytes from line " ++ toString firstLine ++
    " into " ++ toString tokens.length ++ " tokens"⟩

/-- The search for an anchor: the text before each candidate is examined, and candidates inside
a literal are passed over. -/
def anchor (g : Grammar) (t : Text) : List LogEntry :=
  match g.sigilLine.last? t with
  | none => []
  | some m =>
    let above := t.take m.start
    let tokens := tokenize g above 1
    tokenized above 1 tokens ::
      if Literal.endsInside tokens then
        ⟨.trace, "anchor candidate at " ++ toString (Text.byteSize above) ++
          " is inside a literal"⟩ ::
          if m.start < t.length then anchor g above else []
      else []
termination_by t.length
decreasing_by
  rw [List.length_take]
  omega

/-- The sigils passed over on the way back from the end to a place. -/
def idleSigils (g : Grammar) (tokens : List Token) (place : Option Nat) : List LogEntry :=
  let visited := (Neighbourhood.all tokens).reverse.takeWhile fun n =>
    place.all (· < n.before.length)
  (visited.filter (·.isIdleSigil g)).map fun n =>
    ⟨.trace, "skipping non-opening sigil at " ++ String.ofList n.token.describe⟩

/-- What is known about a line when its scope is found. -/
def context (style : IndentStyle) (line : Nat) (s : Indentation.Survey) (scope : Nesting.Scope) :
    LogEntry :=
  let start := record "IndentationContext" [
    ("base_indentation", toString (s.base style)),
    ("anchor_line", optional (s.anchor.map (·.line))),
    ("anchor_offset", toString ((s.anchor.map (·.above.byteSize)).getD 0)),
    ("extra_pending_closers", toString scope.extraClosers)]
  let found := record "EnclosingScope" [
    ("opener", optional scope.opener),
    ("extra_pending_closers", toString scope.extraClosers),
    ("first_unmatched_closer", optional scope.firstExtraCloser)]
  ⟨.debug, "line " ++ toString line ++ ": " ++ start ++ ", " ++ found⟩

def columnBelow (g : Grammar) (style : IndentStyle) (line : Nat) (above : Text) :
    List LogEntry :=
  let s := Indentation.survey g above
  let span := (s.anchor.map fun a => above.drop a.above.length).getD above
  let firstLine := (s.anchor.map (·.line)).getD 1
  anchor g above ++ tokenized span firstLine s.tokens ::
    if s.endsInLiteral then
      [⟨.debug, "line " ++ toString line ++ " starts inside a literal"⟩]
    else
      match Nesting.resolve g s.tokens with
      | .error place => idleSigils g s.tokens (some place)
      | .ok scope =>
        idleSigils g s.tokens scope.opener ++ context style line s scope ::
          match scope.firstExtraCloser, s.anchor with
          | some _, some a => anchor g a.above
          | _, _ => []

def column (g : Grammar) (doc : Document) (line : Nat) : List LogEntry :=
  if line ≤ 1 then []
  else
    match doc.text.cutAtLine? line with
    | none => []
    | some (above, _) => columnBelow g doc.style line above

def indentLines (g : Grammar) (doc : Document) : List Nat → List LogEntry
  | [] => []
  | line :: more =>
    let computed := if doc.isBlankLine line then [] else column g doc line
    match doc.indentInRegion g line with
    | .error _ => computed
    | .ok (edited, result) =>
      computed ++ ⟨.debug, "line " ++ toString line ++ ": " ++ outcome result⟩ ::
        indentLines g edited more

def indent (g : Grammar) (doc : Document) (line : Nat) : List LogEntry :=
  match Command.requireLine doc line with
  | .error _ => []
  | .ok _ => column g doc line

def reindent (g : Grammar) (doc : Document) : List LogEntry :=
  indentLines g doc (doc.regionLines 1 doc.text.lineCount) ++
    match Command.reindent g doc with
    | .error _ => []
    | .ok (_, outcomes) =>
      [⟨.info, doc.name ++ ": reindented " ++ toString (Command.changedLines outcomes) ++ " of " ++
        toString outcomes.length ++ " lines"⟩]

def definition (g : Grammar) (doc : Document) (line count : Nat) (backward : Bool) :
    List LogEntry :=
  match Command.jump g doc line count backward with
  | .error _ => []
  | .ok (moved, found) =>
    [tokenized doc.text 1 (tokenize g doc.text 1),
      ⟨.debug, doc.name ++ ": " ++ destination found ++ " at offset " ++ toString moved.cursor⟩]

def tokens (g : Grammar) (t : Text) : List LogEntry :=
  [tokenized t 1 (tokenize g t 1)]

end MarkupLayout.Trace

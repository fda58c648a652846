import MarkupLayout.Toml.Item
import MarkupLayout.Toml.Number
/-!
# Documents of TOML

Arrays, inline tables and whole documents.  Values and keys may nest less than eighty levels deep.
-/

namespace MarkupLayout.Toml

open Settings (Value)

def isBareKeyChar (c : Char) : Bool :=
  c.isAlphanum || c == '_' || c == '-'

def simpleKey? : Reader Text
  | '\x22' :: rest => basicBody? rest
  | '\x27' :: rest => literalBody? rest
  | t =>
    let name := t.takeWhile isBareKeyChar
    if name.isEmpty then none else some (name, t.dropWhile isBareKeyChar)

def keyParts? (t : Text) : Option (List Text × Text) :=
  match simpleKey? (skipSpace t) with
  | none => none
  | some (name, rest) =>
    match skipSpace rest with
    | '.' :: more =>
      if more.length < t.length then
        (keyParts? more).map fun (names, rest) => (name :: names, rest)
      else none
    | behind => some ([name], behind)
termination_by t.length

def key? (t : Text) : Option ((List Text × Text) × Text) := do
  let (names, rest) ← keyParts? t
  let name ← names.getLast?
  if names.length < 80 then return ((names.dropLast, name), rest) else none

def items? (value? : Reader Value) (t : Text) : Option (List Value × Text) :=
  match skipGaps t with
  | ']' :: rest => some ([], rest)
  | start =>
    match value? start with
    | none => none
    | some (v, behind) =>
      match skipGaps behind with
      | ']' :: rest => some ([v], rest)
      | ',' :: more =>
        if more.length < t.length then
          (items? value? more).map fun (vs, rest) => (v :: vs, rest)
        else none
      | _ => none
termination_by t.length

def fields? (value? : Reader Value) (entries : Entries) (t : Text) : Option (Entries × Text) :=
  match key? t with
  | some ((path, key), '=' :: start) =>
    match value? (skipSpace start) with
    | none => none
    | some (v, behind) =>
      match entries.addDotted key v path, skipSpace behind with
      | some entries, '\x7d' :: rest => some (entries, rest)
      | some entries, ',' :: more =>
        if more.length < t.length then fields? value? entries more else none
      | _, _ => none
  | _ => none
termination_by t.length

def inlineTable? (value? : Reader Value) (t : Text) : Option (Value × Text) :=
  match skipSpace t with
  | '\x7d' :: rest => some (.table [], rest)
  | start =>
    (fields? value? [] start).map fun (entries, rest) => (.table (valuesOfEntries entries), rest)

/-- Reads a value in which arrays and inline tables nest at most `depth` deep. -/
def value? : (depth : Nat) → Reader Value
  | 0 => scalar?
  | depth + 1 => fun t =>
    match t with
    | '[' :: rest => (items? (value? depth) rest).map fun (vs, rest) => (.array vs, rest)
    | '\x7b' :: rest => inlineTable? (value? depth) rest
    | _ => scalar? t

/-- A document being read: all its tables, and the way to the table that entries go to. -/
structure State where
  root : Entries
  current : List Text

def State.initial : State := ⟨[], []⟩

def entryLine? (s : State) (t : Text) : Option (State × Text) :=
  match key? t with
  | some ((path, key), '=' :: start) => do
    let (v, behind) ← value? 79 (skipSpace start)
    let rest ← lineEnd? behind
    let root ← s.root.change (Entries.addDotted key v path) s.current
    return ({ s with root := root }, rest)
  | _ => none

def tableLine? (s : State) (t : Text) : Option (State × Text) :=
  match key? t with
  | some ((path, key), ']' :: behind) => do
    let rest ← lineEnd? behind
    let root ← s.root.change (Entries.startTable key) path
    return (⟨root, path ++ [key]⟩, rest)
  | _ => none

def elementLine? (s : State) (t : Text) : Option (State × Text) :=
  match key? t with
  | some ((path, key), ']' :: ']' :: behind) => do
    let rest ← lineEnd? behind
    let root ← s.root.change (Entries.startElement key) path
    return (⟨root, path ++ [key]⟩, rest)
  | _ => none

def line? (s : State) (t : Text) : Option (State × Text) :=
  match t with
  | [] => some (s, [])
  | '#' :: _ | '\n' :: _ | '\r' :: _ => (lineEnd? t).map fun rest => (s, rest)
  | '[' :: '[' :: rest => elementLine? s rest
  | '[' :: rest => tableLine? s rest
  | _ => entryLine? s t

def lines? (s : State) (t : Text) : Option State :=
  match line? s (skipSpace t) with
  | none => none
  | some (s, []) => some s
  | some (s, rest) => if rest.length < t.length then lines? s rest else none
termination_by t.length

/-- The key that makes a date of a table that starts with it. -/
def dateKey : Text := "$__toml_private_datetime".toList

def dateOf? : Value → Option Value
  | .text t => if spellsDate t then some (.date t) else none
  | _ => none

mutual

/-- Replaces the tables that stand for dates.  What such a table holds behind its first entry is
ignored. -/
def withDates? : Value → Option Value
  | .table entries =>
    match entries.head? with
    | none => some (.table [])
    | some (key, v) =>
      if key = dateKey then dateOf? v else (entriesWithDates? entries).map .table
  | .array items => (itemsWithDates? items).map .array
  | v => some v

def entriesWithDates? : List (Text × Value) → Option (List (Text × Value))
  | [] => some []
  | (key, v) :: more => do return (key, ← withDates? v) :: (← entriesWithDates? more)

def itemsWithDates? : List Value → Option (List Value)
  | [] => some []
  | v :: more => do return (← withDates? v) :: (← itemsWithDates? more)

end

def parse? (t : Text) : Option (List (Text × Value)) := do
  let t := if t.head? = some '\ufeff' then t.drop 1 else t
  let s ← lines? .initial t
  match ← withDates? (.table (valuesOfEntries s.root)) with
  | .table entries => return entries
  | _ => none

end MarkupLayout.Toml

import MarkupLayout.Settings.Value
/-!
# Tables of TOML under construction

A table can be written in several places, but it must not be defined twice.  So while a document
is read, each table remembers how it came about.
-/

namespace MarkupLayout.Toml

open Settings (Value)

/-- How a table came about: by a header of its own, on the way of a header, or on the way of a
dotted key. -/
inductive Origin where
  | header
  | passed
  | dotted
deriving DecidableEq, Repr

inductive Item where
  | value (v : Value)
  | table (origin : Origin) (entries : List (Text × Item))
  | tables (elements : List (List (Text × Item)))

abbrev Entries := List (Text × Item)

namespace Entries

def changeLast (f : Entries → Option Entries) : List Entries → Option (List Entries)
  | [] => none
  | [last] => (f last).map ([·])
  | first :: more => (changeLast f more).map (first :: ·)

/-- Changes the table that a path of a header leads to.  Tables on the way are made if they are
missing, and of an array of tables the last one is entered. -/
def change (f : Entries → Option Entries) : List Text → Entries → Option Entries
  | [], entries => f entries
  | key :: rest, entries =>
    match entries.lookup key with
    | none => (change f rest []).map fun inner => Keyed.put entries key (.table .passed inner)
    | some (.table origin inner) =>
      (change f rest inner).map fun inner => Keyed.put entries key (.table origin inner)
    | some (.tables elements) =>
      (changeLast (change f rest) elements).map fun elements =>
        Keyed.put entries key (.tables elements)
    | some (.value _) => none

def add (key : Text) (v : Value) (entries : Entries) : Option Entries :=
  match entries.lookup key with
  | none => some (Keyed.put entries key (.value v))
  | some _ => none

/-- Adds an entry under a dotted key.  Tables on the way must not have a header, and the last of
them has to come from a dotted key as well. -/
def addDotted (key : Text) (v : Value) : List Text → Entries → Option Entries
  | [], entries => entries.add key v
  | first :: rest, entries =>
    match entries.lookup first with
    | none =>
      (addDotted key v rest []).map fun inner => Keyed.put entries first (.table .dotted inner)
    | some (.table .dotted inner) =>
      (addDotted key v rest inner).map fun inner => Keyed.put entries first (.table .dotted inner)
    | some (.table .passed inner) =>
      if rest.isEmpty then none
      else
        (addDotted key v rest inner).map fun inner => Keyed.put entries first (.table .passed inner)
    | some (.tables elements) =>
      if rest.isEmpty then none
      else (changeLast (addDotted key v rest) elements).map fun elements =>
        Keyed.put entries first (.tables elements)
    | some (.table .header _) => none
    | some (.value _) => none

/-- Starts a table with a header.  One that stood on the way of an earlier header is taken up again
and moves behind the other entries. -/
def startTable (key : Text) (entries : Entries) : Option Entries :=
  match entries.lookup key with
  | none => some (Keyed.put entries key (.table .header []))
  | some (.table .passed inner) =>
    some (entries.filter (·.1 != key) ++ [(key, .table .header inner)])
  | some _ => none

def startElement (key : Text) (entries : Entries) : Option Entries :=
  match entries.lookup key with
  | none => some (Keyed.put entries key (.tables [[]]))
  | some (.tables elements) => some (Keyed.put entries key (.tables (elements ++ [[]])))
  | some _ => none

end Entries

mutual

def Item.toValue : Item → Value
  | .value v => v
  | .table _ entries => .table (valuesOfEntries entries)
  | .tables elements => .array (valuesOfElements elements)

def valuesOfEntries : List (Text × Item) → List (Text × Value)
  | [] => []
  | (key, item) :: more => (key, item.toValue) :: valuesOfEntries more

def valuesOfElements : List (List (Text × Item)) → List Value
  | [] => []
  | entries :: more => .table (valuesOfEntries entries) :: valuesOfElements more

end

end MarkupLayout.Toml

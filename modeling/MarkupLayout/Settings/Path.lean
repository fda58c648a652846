import MarkupLayout.Settings.Value
import MarkupLayout.Text.Number
/-!
# Paths into configuration values

A path names an entry of nested tables: keys joined by full stops, each with array positions in
square brackets if need be.
-/

namespace MarkupLayout.Settings

inductive Segment where
  | key (name : Text)
  /-- A place in an array; negative ones count from the end. -/
  | index (place : Int)
deriving DecidableEq, Repr

namespace Segment

def isKeyChar (c : Char) : Bool :=
  c.isAlphanum || c == ' ' || c == '_' || c == '-'

def index? (t : Text) : Option (Int × Text) :=
  let t := t.dropWhile Text.isIndentChar
  let negative := t.head? = some '-'
  let t := if negative then t.drop 1 else t
  let digits := t.takeWhile Char.isDigit
  match (t.dropWhile Char.isDigit).dropWhile Text.isIndentChar with
  | ']' :: rest =>
    let n := Text.numberIn 10 digits
    let place : Int := if negative then -n else n
    if digits.isEmpty ∨ place < -0x8000000000000000 ∨ 0x8000000000000000 ≤ place then none
    else some (place, rest)
  | _ => none

def restOfPath? : Text → Option (List Segment)
  | [] => some []
  | '.' :: more =>
    let name := more.takeWhile isKeyChar
    if name.isEmpty then none
    else (restOfPath? (more.dropWhile isKeyChar)).map (.key name :: ·)
  | '[' :: more =>
    match index? more with
    | none => none
    | some (place, rest) =>
      if rest.length ≤ more.length then (restOfPath? rest).map (.index place :: ·) else none
  | _ => none
termination_by t => t.length
decreasing_by
  · have := (List.dropWhile_suffix (l := more) isKeyChar).length_le
    simp only [List.length_cons]
    omega
  · simp only [List.length_cons]
    omega

def path? (t : Text) : Option (List Segment) :=
  let name := t.takeWhile isKeyChar
  if name.isEmpty then none
  else (restOfPath? (t.dropWhile isKeyChar)).map (.key name :: ·)

end Segment

def placeIn (length : Nat) (place : Int) : Nat :=
  if place < 0 then length - place.natAbs else place.natAbs

def modifyItem (items : List Value) (place : Nat) (f : Value → Value) : List Value :=
  let filled := items ++ List.replicate (place + 1 - items.length) .absent
  filled.modify place f

/-- Sets the part of a value that a path leads to.  On its way it makes tables and arrays of what
is neither. -/
def setPath (target : Value) (path : List Segment) (v : Value) : Value :=
  match path with
  | [] => v
  | [.key name] => setEntry target name v
  | .key name :: rest =>
    let name := lower name
    let old := (target.entry? name).getD .absent
    .table (Keyed.put target.entries name (setPath old rest v))
  | .index place :: rest =>
    .array (modifyItem target.items (placeIn target.items.length place) (setPath · rest v))

end MarkupLayout.Settings

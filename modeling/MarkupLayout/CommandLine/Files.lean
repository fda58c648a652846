import MarkupLayout.Text.Basic
/-!
# Files

The files of a working directory, and how a path finds one of them: it is followed part by part,
and each part needs a directory to start from.
-/

namespace MarkupLayout.CommandLine

inductive ReadError where
  | notFound
  | notDirectory
  | isDirectory
  | nameTooLong
  | other (reason : String)
deriving DecidableEq, Repr

namespace ReadError

def message : ReadError → String
  | notFound => "No such file or directory (os error 2)"
  | notDirectory => "Not a directory (os error 20)"
  | isDirectory => "Is a directory (os error 21)"
  | nameTooLong => "File name too long (os error 36)"
  | other reason => reason

def ofCode? (code : Nat) : Option ReadError :=
  if code = 2 then some notFound
  else if code = 20 then some notDirectory
  else if code = 21 then some isDirectory
  else if code = 36 then some nameTooLong
  else none

end ReadError

abbrev FileReader := Text → Except ReadError Text

def maxNameSize : Nat := 255

def maxPathSize : Nat := 4095

def pathParts (path : Text) : List Text :=
  path.splitOn '/'

def staysPut (part : Text) : Bool :=
  part == [] || part == ['.']

def parentPart : Text := ['.', '.']

/-- The parts that lead to a file whose name may hold slashes. -/
def wayTo (name : Text) : List Text :=
  (pathParts name).filter (!staysPut ·)

inductive Place where
  | inside (way : List Text)
  /-- A directory outside the working directory; nothing is known to be in it. -/
  | outside
  | file (name : Text)
deriving DecidableEq, Repr

namespace Place

def enter (files : List (Text × Text)) (way : List Text) (name : Text) :
    Except ReadError Place :=
  let way := way ++ [name]
  match files.find? (wayTo ·.1 == way) with
  | some (found, _) => .ok (file found)
  | none => if files.any (way.isPrefixOf <| wayTo ·.1) then .ok (inside way) else .error .notFound

def step (files : List (Text × Text)) (place : Place) (part : Text) : Except ReadError Place :=
  match place with
  | file _ => .error .notDirectory
  | outside =>
    if staysPut part || part == parentPart then .ok outside
    else .error (if maxNameSize < part.byteSize then .nameTooLong else .notFound)
  | inside way =>
    if staysPut part then .ok (inside way)
    else if part = parentPart then .ok (if way = [] then outside else inside way.dropLast)
    else if maxNameSize < part.byteSize then .error .nameTooLong
    else enter files way part

/-- Follows a path from a working directory that holds the given files and nothing else. -/
def locate (files : List (Text × Text)) (path : Text) : Except ReadError Place :=
  let start := if path.head? = some '/' then outside else inside []
  if path = [] then .error .notFound
  else if maxPathSize < path.byteSize then .error .nameTooLong
  else (pathParts path).foldlM (step files) start

end Place

def readFrom (files : List (Text × Text)) : FileReader := fun path =>
  match Place.locate files path with
  | .error e => .error e
  | .ok (.file name) => ((files.lookup name).map .ok).getD (.error .notFound)
  | .ok (.inside _) | .ok .outside => .error .isDirectory

def changedFiles (files : List (Text × Text)) (path content : Text) : List (Text × Text) :=
  match Place.locate files path with
  | .ok (.file name) =>
    (files.filter fun (other, old) => other == name && old != content).map fun (other, _) =>
      (other, content)
  | _ => []

end MarkupLayout.CommandLine

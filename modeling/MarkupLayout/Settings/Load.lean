import MarkupLayout.IndentStyle
import MarkupLayout.Log
import MarkupLayout.Settings.Path
import MarkupLayout.Toml.Document
/-!
# Settings

The settings of the program.  They start from built-in values, over which configuration files are
laid in order, and then single overrides.  Values are converted where that makes sense: a number
may be written as a text or a truth value, and a truth value as a number or a word.
-/

namespace MarkupLayout

structure Settings where
  style : IndentStyle
  level : LogLevel
deriving DecidableEq, Repr

namespace Settings

inductive LoadError where
  | badKey
  | missingFile
  | notToml
  | wrongType
  | malformed
deriving DecidableEq, Repr

structure Layer where
  content : Option Text
  optional : Bool
deriving DecidableEq, Repr

def builtIn : Value :=
  .table [
    ("indentation".toList, .table [
      ("indent_width".toList, .integer IndentStyle.default.indentWidth),
      ("tab_width".toList, .integer IndentStyle.default.tabWidth),
      ("indent_tabs_mode".toList, .bool IndentStyle.default.useTabs)]),
    ("logging".toList, .table [("level".toList, .text "warn".toList)])]

/-- Lays the entries of a file over a value.  A key at the top that is a path counts as one. -/
def overlay (root : Value) (entries : List (Text × Value)) : Value :=
  entries.foldl (fun root (key, v) => setPath root ((Segment.path? key).getD [.key key]) v) root

def applyLayer (root : Value) (layer : Layer) : Except LoadError Value :=
  match layer.content with
  | none => if layer.optional then .ok root else .error .missingFile
  | some t =>
    match Toml.parse? t with
    | none => .error .notToml
    | some entries => .ok (overlay root entries)

def wordBool? (t : Text) : Option Bool :=
  let t := lower t
  if ["true", "on", "yes"].any (·.toList == t) then some true
  else if ["false", "off", "no"].any (·.toList == t) then some false
  else none

def wordOfText? (t : Text) : Option Nat :=
  let digits := if t.head? = some '+' then t.drop 1 else t
  let n := Text.numberIn 10 digits
  if !digits.isEmpty && digits.all Char.isDigit && n < UInt64.size then some n else none

/-- A value as a number of columns.  Fractions are rounded, halves away from zero, and negative
fractions become zero. -/
def asNat : Value → Except LoadError Nat
  | .bool b => .ok b.toNat
  | .integer n => if n < 0 then .error .wrongType else .ok n.toNat
  | .float x => .ok x.round.toUInt64.toNat
  | .text t =>
    match ((wordBool? t).map Bool.toNat).or (wordOfText? t) with
    | some n => .ok n
    | none => .error .wrongType
  | .absent | .date _ | .array _ | .table _ => .error .wrongType

def asBool : Value → Except LoadError Bool
  | .bool b => .ok b
  | .integer n => .ok (n != 0)
  | .float x => .ok (x != 0)
  | .text t =>
    if t = ['1'] then .ok true
    else if t = ['0'] then .ok false
    else match wordBool? t with
      | some b => .ok b
      | none => .error .wrongType
  | .absent | .date _ | .array _ | .table _ => .error .wrongType

def levelOfName (name : Text) : Except LoadError LogLevel :=
  match LogLevel.ofName? (String.ofList (lower name)) with
  | some level => .ok level
  | none => .error .malformed

def asLevel : Value → Except LoadError LogLevel
  | .text name => levelOfName name
  | .table [(name, _)] => levelOfName name
  | _ => .error .malformed

def orDefault (convert : Value → Except LoadError α) (default : α) :
    Option Value → Except LoadError α
  | none => .ok default
  | some v => convert v

/-- A value as a style of indentation: a table, or an array of the fields in order.  What is
missing has its default. -/
def asStyle (v : Value) : Except LoadError IndentStyle := do
  let d := IndentStyle.default
  let style (width tab tabs : Option Value) : Except LoadError IndentStyle := do
    let width ← orDefault asNat d.indentWidth width
    let tab ← orDefault asNat d.tabWidth tab
    let tabs ← orDefault asBool d.useTabs tabs
    return ⟨width, tab, tabs⟩
  match v with
  | .table _ =>
    style (v.entry? "indent_width".toList) (v.entry? "tab_width".toList)
      (v.entry? "indent_tabs_mode".toList)
  | .array items => style items[0]? items[1]? items[2]?
  | _ => .error .malformed

def asLogging (v : Value) : Except LoadError LogLevel :=
  match v with
  | .table _ => ((v.entry? "level".toList).map asLevel).getD (.error .malformed)
  | .array (level :: _) => asLevel level
  | _ => .error .malformed

def ofValue (root : Value) : Except LoadError Settings := do
  let style ← asStyle ((root.entry? "indentation".toList).getD .absent)
  let level ← asLogging ((root.entry? "logging".toList).getD .absent)
  return ⟨style, level⟩

def overridePath (key : Text) : Except LoadError (List Segment) :=
  match Segment.path? key with
  | some path => .ok path
  | none => .error .badKey

def load (layers : List Layer) (overrides : List (Text × Value)) : Except LoadError Settings := do
  let paths ← overrides.mapM fun (key, v) => return (← overridePath key, v)
  let root ← layers.foldlM applyLayer builtIn
  ofValue (paths.foldl (fun root (path, v) => setPath root path v) root)

end Settings

end MarkupLayout

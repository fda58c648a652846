import MarkupLayout.Keyed
/-!
# Configuration values

The values that configuration files and overrides hold, before it is known what they are for, and
how they are put together: tables are merged entry by entry, and everything else replaces what was
there before.  Keys do not distinguish between upper and lower case.
-/

namespace MarkupLayout.Settings

inductive Value where
  | absent
  | bool (b : Bool)
  | integer (n : Int)
  | float (x : Float)
  | text (t : Text)
  | date (t : Text)
  | array (items : List Value)
  | table (entries : List (Text × Value))

namespace Value

def entries : Value → List (Text × Value)
  | table entries => entries
  | _ => []

def items : Value → List Value
  | array items => items
  | _ => []

def entry? (v : Value) (key : Text) : Option Value :=
  v.entries.lookup key

end Value

/-- A text with the capital letters of ASCII in lower case.  The keys and words that mean something
are made of small letters, none of which is the lower case of a letter outside ASCII. -/
def lower (t : Text) : Text :=
  t.map Char.toLower

mutual

/-- Sets the entry of a table under a key.  A value that is no table becomes one.  A table is
merged into the entry that is there already. -/
def setEntry (target : Value) (key : Text) : Value → Value
  | .table incoming =>
    let key := lower key
    let old := (target.entry? key).getD (.table [])
    .table (Keyed.put target.entries key (mergeEntries old incoming))
  | .absent => .table (Keyed.put target.entries (lower key) .absent)
  | .bool b => .table (Keyed.put target.entries (lower key) (.bool b))
  | .integer n => .table (Keyed.put target.entries (lower key) (.integer n))
  | .float x => .table (Keyed.put target.entries (lower key) (.float x))
  | .text t => .table (Keyed.put target.entries (lower key) (.text t))
  | .date t => .table (Keyed.put target.entries (lower key) (.date t))
  | .array items => .table (Keyed.put target.entries (lower key) (.array items))

def mergeEntries (target : Value) : List (Text × Value) → Value
  | [] => target
  | (key, v) :: more => mergeEntries (setEntry target key v) more

end

end MarkupLayout.Settings

import MarkupLayout.Text.Basic
/-!
# Entries under keys

A list of entries in the order in which their keys first appeared.  An entry put under a key that
is there already takes the place of the old one.
-/

namespace MarkupLayout.Keyed

def put (entries : List (Text × α)) (key : Text) (a : α) : List (Text × α) :=
  match entries with
  | [] => [(key, a)]
  | (other, old) :: more =>
    if other = key then (key, a) :: more else (other, old) :: put more key a

end MarkupLayout.Keyed

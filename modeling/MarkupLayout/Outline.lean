import MarkupLayout.Nesting
import MarkupLayout.Token.Scan
/-!
# Outline

The definitions of a text are the sigils that start a block on their line.  One can jump from a
line to the definitions behind and before it.
-/

namespace MarkupLayout.Outline

def definitionLines (g : Grammar) (t : Text) : List Nat :=
  ((Neighbourhood.all (tokenize g t 1)).filter (·.isDefinition)).map (·.token.line)

/-- Where a jump ends: on a line, or at the start or the end of the text if there are too few
definitions on the way there. -/
inductive Destination where
  | line (number : Nat)
  | start
  | stop
deriving DecidableEq, Repr

/-- The `count`-th of the lines behind `line`, given lines in increasing order. -/
def nextLine (lines : List Nat) (line : Nat) : (count : Nat) → Destination
  | 0 => .line line
  | count + 1 =>
    match lines.dropWhile (· ≤ line) with
    | [] => .stop
    | found :: others => nextLine others found count

def previousLine (lines : List Nat) (line : Nat) : (count : Nat) → Destination
  | 0 => .line line
  | count + 1 =>
    match lines.dropWhile (line ≤ ·) with
    | [] => .start
    | found :: others => previousLine others found count

def forward (g : Grammar) (t : Text) (line count : Nat) : Destination :=
  nextLine (definitionLines g t) line count

def backward (g : Grammar) (t : Text) (line count : Nat) : Destination :=
  previousLine (definitionLines g t).reverse line count

end MarkupLayout.Outline

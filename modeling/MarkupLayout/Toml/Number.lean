import MarkupLayout.Settings.Value
import MarkupLayout.Toml.Date
import MarkupLayout.Toml.Quoted
/-!
# Numbers and other scalars of TOML

Integers are 64-bit words.
-/

namespace MarkupLayout.Toml

open Settings (Value)

/-- Splits off digits, between any two of which one underscore may stand. -/
def moreDigits (isDigit : Char → Bool) : Text → Text × Text
  | [] => ([], [])
  | c :: rest =>
    if isDigit c then
      let parts := moreDigits isDigit rest
      (c :: parts.1, parts.2)
    else
      match rest with
      | [] => ([], [c])
      | d :: more =>
        if c = '_' && isDigit d then
          let parts := moreDigits isDigit more
          (d :: parts.1, parts.2)
        else ([], c :: d :: more)

def digits? (isDigit : Char → Bool) : Reader Text
  | [] => none
  | c :: rest =>
    if isDigit c then
      let parts := moreDigits isDigit rest
      some (c :: parts.1, parts.2)
    else none

/-- Reads a signed number in base ten, which starts with zero only if it is zero. -/
def decimal? (t : Text) : Option ((Bool × Text) × Text) :=
  let (negative, t) := t.sign
  match t with
  | '0' :: rest => some ((negative, ['0']), rest)
  | _ => (digits? Char.isDigit t).map fun (digits, rest) => ((negative, digits), rest)

def integerOf? (negative : Bool) (n : Nat) : Option Value :=
  if n < 0x8000000000000000 ∨ (negative ∧ n = 0x8000000000000000) then
    some (.integer (if negative then -n else n))
  else none

def based? (base : Nat) (t : Text) : Option (Value × Text) := do
  let isDigit (c : Char) := (Text.digitValue? c).any (· < base)
  let (digits, rest) ← digits? isDigit t
  return (← integerOf? false (Text.numberIn base digits), rest)

def integer? : Reader Value
  | '0' :: 'x' :: rest => based? 16 rest
  | '0' :: 'o' :: rest => based? 8 rest
  | '0' :: 'b' :: rest => based? 2 rest
  | t => do
    let ((negative, digits), rest) ← decimal? t
    return (← integerOf? negative (Text.numberIn 10 digits), rest)

def fraction? : Reader Text
  | '.' :: rest => digits? Char.isDigit rest
  | _ => none

def exponent? : Reader Int
  | c :: rest => do
    if c = 'e' ∨ c = 'E' then
      let (negative, rest) := Text.sign rest
      let (digits, rest) ← digits? Char.isDigit rest
      let n := Text.numberIn 10 digits
      return (if negative then -n else n, rest)
    else none
  | [] => none

/-- The floating-point number nearest to `n * 10 ^ exponent`.  Numbers beyond all that can be
represented are recognised by their order of magnitude. -/
def scientific (n : Nat) (exponent : Int) : Float :=
  let magnitude := exponent + (Nat.toDigits 10 n).length
  if n = 0 ∨ magnitude < -400 then 0
  else if 400 < magnitude then 1 / 0
  else Float.ofScientific n (decide (exponent < 0)) exponent.natAbs

def float? (t : Text) : Option (Value × Text) := do
  let ((negative, whole), behind) ← decimal? t
  let fraction := fraction? behind
  let (places, behind) := fraction.getD ([], behind)
  let exponent := exponent? behind
  if fraction.isNone && exponent.isNone then none
  else
    let (power, rest) := exponent.getD (0, behind)
    let x := scientific (Text.numberIn 10 (whole ++ places)) (power - places.length)
    if !negative && x.isInf then none
    else return (.float (if negative then -x else x), rest)

def specialFloat? (t : Text) : Option (Value × Text) :=
  let (negative, t) := t.sign
  match t with
  | 'i' :: 'n' :: 'f' :: rest =>
    some (.float (if negative then -(1 / 0) else 1 / 0), rest)
  | 'n' :: 'a' :: 'n' :: rest => some (.float (0 / 0), rest)
  | _ => none

def bool? : Reader Value
  | 't' :: 'r' :: 'u' :: 'e' :: rest => some (.bool true, rest)
  | 'f' :: 'a' :: 'l' :: 's' :: 'e' :: rest => some (.bool false, rest)
  | _ => none

def moment? (t : Text) : Option (Value × Text) :=
  (dateTime? t).map fun rest => (.date (t.take (t.length - rest.length)), rest)

def scalar? (t : Text) : Option (Value × Text) :=
  ((string? t).map fun (s, rest) => (.text s, rest))
    |>.or (bool? t) |>.or (moment? t) |>.or (float? t) |>.or (specialFloat? t) |>.or (integer? t)

end MarkupLayout.Toml

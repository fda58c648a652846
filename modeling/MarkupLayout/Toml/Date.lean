import MarkupLayout.Text.Number
import MarkupLayout.Toml.Basic
/-!
# Dates and times of TOML

Dates and times are only checked and kept as they are written.
-/

namespace MarkupLayout.Toml

/-- Reads a number of exactly `count` digits between two bounds. -/
def fixed? (count low high : Nat) (t : Text) : Option (Nat × Text) :=
  let digits := t.take count
  let n := Text.numberIn 10 digits
  if digits.length = count && digits.all Char.isDigit && low ≤ n && n ≤ high then
    some (n, t.drop count)
  else none

def expect? (c : Char) : Text → Option Text
  | d :: rest => if c = d then some rest else none
  | [] => none

def daysIn (year month : Nat) : Nat :=
  if month = 2 then
    if year % 4 = 0 ∧ (year % 100 ≠ 0 ∨ year % 400 = 0) then 29 else 28
  else if month = 4 ∨ month = 6 ∨ month = 9 ∨ month = 11 then 30
  else 31

def date? (t : Text) : Option Text := do
  let (year, t) ← fixed? 4 0 9999 t
  let (month, t) ← fixed? 2 1 12 (← expect? '-' t)
  let (_, t) ← fixed? 2 1 (daysIn year month) (← expect? '-' t)
  return t

/-- The text behind a time of day, whose seconds may be those of a leap second. -/
def time? (t : Text) : Option Text := do
  let (_, t) ← fixed? 2 0 23 t
  let (_, t) ← fixed? 2 0 59 (← expect? ':' t)
  let (_, t) ← fixed? 2 0 60 (← expect? ':' t)
  match t with
  | '.' :: rest =>
    let behind := rest.dropWhile Char.isDigit
    return if behind.length < rest.length then behind else t
  | _ => return t

def offset? : Text → Option Text
  | [] => none
  | c :: rest => do
    if c = 'Z' ∨ c = 'z' then return rest
    else if c = '+' ∨ c = '-' then
      let (_, t) ← fixed? 2 0 23 rest
      let (_, t) ← fixed? 2 0 59 (← expect? ':' t)
      return t
    else none

def joinsTime (c : Char) : Bool :=
  c == 'T' || c == 't' || c == ' '

def timeBehindDate (t : Text) : Text :=
  match t with
  | c :: rest =>
    if joinsTime c then
      match time? rest with
      | some behind => (offset? behind).getD behind
      | none => t
    else t
  | [] => t

def dateTime? (t : Text) : Option Text :=
  ((date? t).map timeBehindDate).or (time? t)

def spellsDate (t : Text) : Bool :=
  dateTime? t == some []

end MarkupLayout.Toml

import MarkupLayout.Text.Basic
/-!
# Numbers in texts

Natural numbers are written and read in bases up to sixteen.  Reading what was written gives the
number back.
-/

namespace MarkupLayout.Text

def ofNat (n : Nat) : Text :=
  Nat.toDigits 10 n

def ofNatHex (n : Nat) : Text :=
  Nat.toDigits 16 n

def digitValue? (c : Char) : Option Nat :=
  if c.isDigit then some (c.toNat - '0'.toNat)
  else if 'a' ≤ c && c ≤ 'f' then some (c.toNat - 'a'.toNat + 10)
  else if 'A' ≤ c && c ≤ 'F' then some (c.toNat - 'A'.toNat + 10)
  else none

def numberIn (base : Nat) (digits : Text) : Nat :=
  digits.foldl (fun n c => base * n + (digitValue? c).getD 0) 0

/-- Takes off an optional sign and says whether it is a minus. -/
def sign (t : Text) : Bool × Text :=
  match t with
  | '+' :: rest => (false, rest)
  | '-' :: rest => (true, rest)
  | _ => (false, t)

theorem digitValue?_digitChar : ∀ {d : Nat}, d < 16 → digitValue? d.digitChar = some d := by
  decide

theorem numberIn_toDigits {base : Nat} (hbase : 1 < base) (hle : base ≤ 16) (n : Nat) :
    numberIn base (Nat.toDigits base n) = n := by
  induction n using Nat.strongRecOn with
  | ind n ih =>
    by_cases hlt : n < base
    · have hdigit := digitValue?_digitChar (show n < 16 by omega)
      rw [Nat.toDigits_of_lt_base hlt]
      simp [numberIn, hdigit]
    · have hrest := ih (n / base) (Nat.div_lt_self (by omega) hbase)
      have hmod := Nat.mod_lt n (show 0 < base by omega)
      have hdigit := digitValue?_digitChar (show n % base < 16 by omega)
      have hsplit := Nat.div_add_mod n base
      rw [Nat.toDigits_of_base_le hbase (by omega)]
      unfold numberIn at hrest ⊢
      rw [List.foldl_append, hrest]
      simp [hdigit, hsplit]

theorem numberIn_ofNat (n : Nat) : numberIn 10 (ofNat n) = n :=
  numberIn_toDigits (by decide) (by decide) n

theorem numberIn_ofNatHex (n : Nat) : numberIn 16 (ofNatHex n) = n :=
  numberIn_toDigits (by decide) (by decide) n

end MarkupLayout.Text

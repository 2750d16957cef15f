/-!
# Numerals

Natural numbers are written in decimal or, where they are addresses, in
hexadecimal with a prefix.

## Main results

* `Numeral.decimal?_toDigits`: the decimal digits of a number read as that
  number.
-/

namespace FirmwareSymbols

namespace Numeral

/-- The value of a hexadecimal digit, in either case. -/
def hexValue? (c : Char) : Option Nat :=
  if c.isDigit then some (c.toNat - '0'.toNat)
  else if 'a' ≤ c ∧ c ≤ 'f' then some (c.toNat - 'a'.toNat + 10)
  else if 'A' ≤ c ∧ c ≤ 'F' then some (c.toNat - 'A'.toNat + 10)
  else none

/-- The value of some decimal digits, of which there must be at least one. -/
def decimal? (digits : List Char) : Option Nat :=
  if !digits.isEmpty && digits.all Char.isDigit then
    some (Nat.ofDigitChars 10 digits 0)
  else
    none

/-- The value of some hexadecimal digits, of which there must be at least one. -/
def hexadecimal? (digits : List Char) : Option Nat :=
  if digits.isEmpty then none
  else digits.foldlM (fun value c => (hexValue? c).map (value * 16 + ·)) 0

/-- Reads a numeral that may have one plus sign in front. -/
def signed? (read : List Char → Option Nat) : List Char → Option Nat
  | '+' :: digits => read digits
  | digits => read digits

/-- A value if it is below a bound. -/
def below? (bound value : Nat) : Option Nat := if value < bound then some value else none

/-- A number in hexadecimal, as addresses and offsets are shown. -/
def hex (n : Nat) : String := "0x" ++ String.ofList (Nat.toDigits 16 n)

/-- The decimal digits of a number read as that number. -/
theorem decimal?_toDigits (n : Nat) : decimal? (Nat.toDigits 10 n) = some n := by
  have digits : (Nat.toDigits 10 n).all Char.isDigit = true :=
    List.all_eq_true.2 fun c hc => Nat.isDigit_of_mem_toDigits (by decide) (by decide) hc
  have nonempty : (Nat.toDigits 10 n).isEmpty = false := by
    have := Nat.length_toDigits_pos (b := 10) (n := n)
    cases h : Nat.toDigits 10 n with
    | nil => simp [h] at this
    | cons => rfl
  simp [decimal?, digits, nonempty, Nat.ofDigitChars_ten_toDigits]

end Numeral

end FirmwareSymbols

import PlainForm.Failure

/-!
# Numerals

How numbers are written (decimal, hexadecimal, octal, `U+` form, with grouped digits) and how the
digits of a character number are read. Decimal numerals beyond 4300 digits are neither written nor
read.
-/

namespace PlainForm

def decimalDigitLimit : Nat := 4300

/-! ## Writing -/

namespace CharNumber

/-- The digits of a number, letters as capitals. -/
def digits (base n : Nat) : Text := (Nat.toDigits base n).map fun c => .ofChar c.toUpper

/-- A minus sign comes before the digits of a negative number. -/
def signed (n : Int) (digits : Text) : Text := if n < 0 then ('-' : CodePoint) :: digits else digits

def decimal (n : Int) : Text := signed n (digits 10 n.natAbs)

def hexadecimal (n : Int) : Text := signed n (digits 16 n.natAbs)

def octal (n : Int) : Text := signed n (digits 8 n.natAbs)

/-- A decimal numeral, if it is not too long to be written. -/
def decimal? (n : Int) : Except Failure Text :=
  if (digits 10 n.natAbs).length ≤ decimalDigitLimit then .ok (decimal n) else .error .longNumeral

def padded (width : Nat) (digits : Text) : Text :=
  List.replicate (width - digits.length) ('0' : CodePoint) ++ digits

/-- At least four hexadecimal digits; a minus sign takes the place of one. -/
def fourDigits (n : Int) : Text :=
  signed n (padded (if n < 0 then 3 else 4) (digits 16 n.natAbs))

def unicode (n : Int) : Text := "U+" ++ fourDigits n

/-- Commas between groups of three digits, counted from the right. -/
def grouped : Text → Text
  | [] => []
  | d :: rest =>
    if rest ≠ [] ∧ rest.length % 3 = 0 then d :: (',' : CodePoint) :: grouped rest
    else d :: grouped rest

/-- A decimal numeral with its digits in groups, as in `1,234`. -/
def groupedDecimal (n : Int) : Text := signed n (grouped (digits 10 n.natAbs))

end CharNumber

/-! ## Reading -/

inductive Radix where
  | decimal
  | hexadecimal
deriving DecidableEq

def Radix.base : Radix → Nat
  | decimal => 10
  | hexadecimal => 16

/-- The digits of a character number as they stand in a text. -/
structure Numeral where
  radix : Radix
  digits : Text
deriving DecidableEq

namespace Numeral

def valueOf (base : Nat) (digits : Text) : Nat :=
  digits.foldl (fun value d => value * base + d.digitValue) 0

def value (numeral : Numeral) : Nat := valueOf numeral.radix.base numeral.digits

def significantDigits (numeral : Numeral) : Text := numeral.digits.dropWhile (· = '0')

/-- More significant digits than this are too many for any character number. -/
def significantDigitLimit : Nat := 9

/-- Stands for numbers that are too large to matter. It is no code point. -/
def tooLarge : Nat := 0xBADABAD

def number (numeral : Numeral) : Except Failure Nat :=
  if numeral.significantDigits.length > significantDigitLimit then .ok tooLarge
  else if numeral.radix = .decimal ∧ numeral.digits.length > decimalDigitLimit then
    .error .longNumeral
  else .ok numeral.value

end Numeral

end PlainForm

import PlainForm.Numeral
import PlainForm.Text.DecimalDigit

/-!
# Integers in text

An integer that a user types: decimal digits of any script, perhaps with a sign before them and
blanks around them. A single underscore may stand between two digits.
-/

namespace PlainForm.Text

/-- ASCII blanks, and the spaces and line separators beyond ASCII. -/
def isSpace (c : CodePoint) : Bool :=
  c.isBlank || (0x2000 ≤ c.val && c.val ≤ 0x200A) ||
    [0x85, 0xA0, 0x1680, 0x2028, 0x2029, 0x202F, 0x205F, 0x3000].contains c.val

def trimmed (t : Text) : Text := ((t.dropWhile isSpace).reverse.dropWhile isSpace).reverse

def digits? : Text → Option (List Nat)
  | [] => none
  | [c] => c.decimalDigit?.map ([·])
  | c :: next :: rest => do
    let digit ← c.decimalDigit?
    let others ← if next = '_' then digits? rest else digits? (next :: rest)
    return digit :: others

/-- An unsigned integer that is not too long to be read. -/
def natural? (t : Text) : Option Nat := do
  let digits ← digits? t
  if digits.length ≤ decimalDigitLimit then
    return digits.foldl (fun value digit => value * 10 + digit) 0
  else none

def integer? (t : Text) : Option Int :=
  match trimmed t with
  | [] => none
  | sign :: rest =>
    if sign = '-' then (natural? rest).map fun n => -n
    else if sign = '+' then (natural? rest).map fun n => n
    else (natural? (sign :: rest)).map fun n => n

/-- A minus sign before decimal digits, the last of which may follow a point. A line feed may end
the text. -/
def isNegativeNumber (t : Text) : Bool :=
  let isDigit := fun c : CodePoint => c.decimalDigit?.isSome
  let body := if t.getLast? = some ('\n' : CodePoint) then t.dropLast else t
  match body with
  | [] => false
  | sign :: rest =>
    sign = '-' &&
      match rest.dropWhile isDigit with
      | [] => rest != []
      | point :: fraction => point = '.' && fraction != [] && fraction.all isDigit

end PlainForm.Text

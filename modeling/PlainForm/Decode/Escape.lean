import PlainForm.Decode.Step

/-!
# Backslash escapes

A letter or mark (`\n`, `\"`), four hexadecimal digits (`\u2021`), or up to three octal ones
(`\101`). A doubled `u` loses one of the two, so that `\uu2021` spells out `\u2021`.
-/

namespace PlainForm.Escape

def backslash : CodePoint := '\\'

/-- What a letter or mark behind a backslash stands for. -/
def letters : List (CodePoint × CodePoint) :=
  [('"', '"'), ('\'', '\''), ('\\', '\\'), ('b', '\x08'), ('f', '\x0c'), ('n', '\n'), ('r', '\r'),
    ('t', '\t')]

def octalDigitLimit : Nat := 3

def octalLimit : Nat := 0xFF

def hexadecimal? (rest : Text) : Option Step :=
  let digits := rest.take 4
  if digits.length = 4 ∧ digits.all CodePoint.isHexDigit then
    (CodePoint.ofNat? (Numeral.valueOf 16 digits)).map fun char => { char, tail := 5 }
  else none

def octal? (rest : Text) : Option Step :=
  let digits := (rest.take octalDigitLimit).takeWhile CodePoint.isOctalDigit
  let value := Numeral.valueOf 8 digits
  if digits ≠ [] ∧ value ≤ octalLimit then
    (CodePoint.ofNat? value).map fun char => { char, tail := digits.length }
  else none

def read? : Text → Option Step
  | [] => none
  | c :: rest =>
    match letters.lookup c with
    | some char => some { char, tail := 1 }
    | none =>
      if c = 'u' then
        if rest.head? = some ('u' : CodePoint) then some { char := backslash, tail := 1 }
        else hexadecimal? rest
      else octal? (c :: rest)

/-- What is told about a backslash that begins no escape, given what follows it. -/
def problem (rest : Text) : Problem :=
  let context := Step.shownContext (backslash :: rest)
  if rest.head? = some ('u' : CodePoint) then .invalidHexEscape context else .unknownEscape context

def unread (rest : Text) : Step := .asIs backslash (problem rest)

def step (rest : Text) : Step := (read? rest).getD (unread rest)

end PlainForm.Escape

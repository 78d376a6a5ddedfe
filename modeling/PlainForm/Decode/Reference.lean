import PlainForm.Decode.Step

/-!
# XML character references

`&amp;` and four more by name, `&#8225;` in decimal and `&#x2021;` in hexadecimal.
-/

namespace PlainForm.Reference

def ampersand : CodePoint := '&'

def entities : List (Text × CodePoint) :=
  [("amp", '&'), ("apos", '\''), ("gt", '>'), ("lt", '<'), ("quot", '"')]

def named? (rest : Text) : Option Step :=
  entities.findSome? fun (name, char) =>
    if (name ++ ";" : Text).isPrefixOf rest then some { char, tail := name.length + 1 } else none

def digits? (isDigit : CodePoint → Bool) (t : Text) : Option Text :=
  let digits := t.takeWhile isDigit
  if digits ≠ [] ∧ (t.drop digits.length).head? = some (';' : CodePoint) then some digits else none

/-- The numeral that stands behind an ampersand, and how many units the reference takes there. -/
def numeral? : Text → Option (Numeral × Nat)
  | mark :: letter :: body =>
    if mark ≠ '#' then none
    else if letter = 'x' ∨ letter = 'X' then
      (digits? CodePoint.isHexDigit body).map fun digits =>
        (⟨.hexadecimal, digits⟩, digits.length + 3)
    else
      (digits? CodePoint.isDigit (letter :: body)).map fun digits =>
        (⟨.decimal, digits⟩, digits.length + 2)
  | _ => none

/-- What is told about an ampersand that begins no reference, given what follows it. -/
def problem (rest : Text) : Problem :=
  let context := Step.shownContext (ampersand :: rest)
  if rest.head? = some ('#' : CodePoint) then .invalidReference context else .unknownEntity context

def unread (rest : Text) : Step := .asIs ampersand (problem rest)

def step (rest : Text) : Except Failure Step :=
  match named? rest, numeral? rest with
  | some s, _ => .ok s
  | none, none => .ok (unread rest)
  | none, some (numeral, tail) => do
    match CodePoint.ofNat? (← numeral.number) with
    | some char => return { char, tail }
    | none => return unread rest

end PlainForm.Reference

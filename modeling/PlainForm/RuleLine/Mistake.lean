import PlainForm.Numeral

/-!
# Mistakes in rule lines

Why a line of rules is not a rule.
-/

namespace PlainForm

inductive Mistake where
  | missingVerb
  | unknownVerb (word : Text)
  | missingSpace
  | invalidRange (low high : Nat)
  | beyondUnicode
  | reservedSurrogate (number : Nat)
  | missingLeft
  | emptyLeft
  | unexpected (rest : Text)
  | unknownSpecialAction (word : Text)
  | missingRight
deriving DecidableEq

def Mistake.message : Mistake → Text
  | missingVerb => "missing command keyword or verb"
  | unknownVerb word => "unknown command keyword or verb: " ++ word
  | missingSpace => "missing space after command keyword or verb"
  | invalidRange low high =>
    "invalid low-high range from " ++ CharNumber.unicode low ++ " to " ++ CharNumber.unicode high
  | beyondUnicode => "maximum Unicode character number is " ++ CharNumber.unicode 0x10FFFF
  | reservedSurrogate number =>
    "UTF-16 surrogate characters are reserved: " ++ CharNumber.unicode number
  | missingLeft => "missing character number, range, or quoted string"
  | emptyLeft => "first parameter or left side may not be empty"
  | unexpected rest => "syntax error or unexpected input: " ++ rest
  | unknownSpecialAction word => "unknown replace special action: " ++ word
  | missingRight => "missing character number or quoted string"

end PlainForm

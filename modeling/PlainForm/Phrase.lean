import PlainForm.Numeral

/-!
# Phrases

How quantities are told to the user, as in `one change` or `1,234 characters`.
-/

namespace PlainForm.Phrase

/-- The smallest numbers are spelt out; the others have grouped digits. -/
def count (n : Int) : Text :=
  if n = 0 then "zero"
  else if n = 1 then "one"
  else if n = 2 then "two"
  else CharNumber.groupedDecimal n

/-- A number of things. Only the number one takes the singular. -/
def quantity (n : Int) (singular plural : Text) : Text :=
  count n ++ " " ++ (if n = 1 then singular else plural)

def pluralOf (singular : Text) : Text := singular ++ "s"

end PlainForm.Phrase

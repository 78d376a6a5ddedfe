import PlainForm.Diagnostic
import PlainForm.Text.Units

/-!
# Steps of a scan

Decoding reads units from the left, one code point at a step: the unit itself, or what a notation
that starts there stands for. A notation that cannot be read leaves its first unit as it is.
-/

namespace PlainForm

structure Notations where
  backslash : Bool := false
  xml : Bool := false
deriving DecidableEq

structure Step where
  char : CodePoint
  /-- How many units the step takes besides its first. -/
  tail : Nat := 0
  /-- What is wrong with the notation, if it is left as it is. -/
  problem : Option Problem := none
deriving DecidableEq

namespace Step

/-- The part of `units` that a note about a notation at its start quotes. Surrogates that stand
alone there, also halves of a pair at the limit, show as U+FFFD. -/
def shownContext (units : Text) : Text := (units.context).join .replacement

def asIs (char : CodePoint) (problem : Problem) : Step := { char, problem := some problem }

end Step

end PlainForm

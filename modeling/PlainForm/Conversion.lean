import PlainForm.Decode
import PlainForm.Substitution

/-!
# Conversion

A text is decoded, a table is applied to its code points, and the outcome is encoded again.
-/

namespace PlainForm

structure Conversion where
  text : Text
  changes : Nat
  problems : List Problem
  log : List Text

namespace Conversion

def dividerWidth : Nat := 48

def divider (mark : CodePoint) (label : Text) : Text := List.replicate dividerWidth mark ++ label

def comparison (before : Text) (changes : Nat) (after : Text) : List Text :=
  [divider '<' " BEFORE", before,
    divider '=' (" (" ++ CharNumber.decimal changes ++ " change(s))"), after,
    divider '>' " AFTER"]

end Conversion

/-- Converts a text. The notations are those that are decoded in it. -/
def Table.convert (table : Table) (notations : Notations) (t : Text)
    (renderer : Option Renderer := none) : Except Failure Conversion := do
  let decoded ← t.decode notations
  let substitution ← table.substitute decoded.value.numbers renderer
  let encoded := encode substitution.numbers
  return {
    text := encoded.value
    changes := substitution.changes
    problems := decoded.problems ++ substitution.problems ++ encoded.problems
    log := substitution.log ++ Conversion.comparison t substitution.changes encoded.value }

end PlainForm

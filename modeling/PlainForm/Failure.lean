import PlainForm.Text

/-!
# Failures

What makes an operation give up. Bad rules and bad input texts are no failures: they are reported as
diagnostics next to a result.
-/

namespace PlainForm

inductive Failure where
  /-- A rule was added to a table that is in use. -/
  | tableCommitted
  /-- A table was applied that is still being built. -/
  | tableUncommitted
  /-- A range was applied that does not have exactly two bounds. -/
  | brokenRange
  /-- A decimal numeral has too many digits to be read or written. -/
  | longNumeral
  /-- A range was tried where there is no character. -/
  | pastTheEnd
  /-- A file was named by a text that holds U+0000. -/
  | impossibleName
  /-- A file is to be used to which no name was given. -/
  | namelessFile
deriving DecidableEq

def Failure.message : Failure → Text
  | tableCommitted => "error: cannot call `add_rule(...)` after `commit()`"
  | tableUncommitted => "error: cannot call `substitute(...)` with an uncommitted rule table"
  | brokenRange => "a range has two bounds"
  | longNumeral => "a decimal numeral has at most 4300 digits"
  | pastTheEnd => "list index out of range"
  | impossibleName => "a file name does not hold U+0000"
  | namelessFile => "a file is used by its name"

/-! ## Giving up and going on -/

namespace Failure

variable {α β : Type} {x : Except Failure α} {next : α → Except Failure β}

@[simp] theorem ok_bind (a : α) : (Except.ok a >>= next) = next a := rfl

@[simp] theorem error_bind (f : Failure) :
    ((.error f : Except Failure α) >>= next) = .error f := rfl

@[simp] theorem pure_eq (a : α) : (pure a : Except Failure α) = .ok a := rfl

theorem bind_eq_ok {b : β} : x >>= next = .ok b ↔ ∃ a, x = .ok a ∧ next a = .ok b := by
  cases x <;> simp

theorem bind_eq_error {f : Failure} :
    x >>= next = .error f ↔ x = .error f ∨ ∃ a, x = .ok a ∧ next a = .error f := by
  cases x <;> simp

theorem map_eq_ok {f : α → β} {b : β} : x.map f = .ok b ↔ ∃ a, x = .ok a ∧ f a = b := by
  cases x <;> simp [Except.map]

end Failure

end PlainForm

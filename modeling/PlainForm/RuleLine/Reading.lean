import PlainForm.Diagnostic

/-!
# Readings

What reading a part of a rule line comes to: a result or the reason why there is none, and the
problems met on the way. Problems met before a mistake are kept.
-/

namespace PlainForm

inductive Stop where
  /-- The line is no rule. -/
  | mistake (mistake : Mistake)
  /-- Reading gives up altogether. -/
  | failure (failure : Failure)
deriving DecidableEq

structure Reading (α : Type) where
  outcome : Except Stop α
  problems : List Problem := []

namespace Reading

variable {α β : Type}

protected def pure (a : α) : Reading α := { outcome := .ok a }

protected def bind (r : Reading α) (f : α → Reading β) : Reading β :=
  match r.outcome with
  | .error stop => ⟨.error stop, r.problems⟩
  | .ok a => ⟨(f a).outcome, r.problems ++ (f a).problems⟩

instance : Monad Reading where
  pure := Reading.pure
  bind := Reading.bind

def wrong (m : Mistake) : Reading α := { outcome := .error (.mistake m) }

def ofExcept : Except Failure α → Reading α
  | .ok a => .pure a
  | .error f => { outcome := .error (.failure f) }

def ofNoted (noted : Noted α) : Reading α := ⟨.ok noted.value, noted.problems⟩

/-! ## Outcome and problems of the steps -/

@[simp] theorem outcome_pure (a : α) : (pure a : Reading α).outcome = .ok a := rfl

@[simp] theorem problems_pure (a : α) : (pure a : Reading α).problems = [] := rfl

theorem bind_of_ok {r : Reading α} {a : α} (h : r.outcome = .ok a) (f : α → Reading β) :
    r >>= f = ⟨(f a).outcome, r.problems ++ (f a).problems⟩ := by
  show Reading.bind r f = _
  simp [Reading.bind, h]

theorem bind_of_error {r : Reading α} {stop : Stop} (h : r.outcome = .error stop)
    (f : α → Reading β) : r >>= f = ⟨.error stop, r.problems⟩ := by
  show Reading.bind r f = _
  simp [Reading.bind, h]

@[simp] theorem pure_bind (a : α) (f : α → Reading β) : (pure a : Reading α) >>= f = f a := by
  rw [bind_of_ok (outcome_pure a)]
  simp

end Reading

end PlainForm

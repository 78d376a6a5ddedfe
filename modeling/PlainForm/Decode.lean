import PlainForm.Decode.Escape
import PlainForm.Decode.Reference

/-!
# Decoding

A text is decoded in one pass over its units. A step reads a unit, or a notation that begins there,
and what it gives takes part in pairing like a unit that stands for itself. A high surrogate waits
for the next step: a low surrogate completes it, and anything else leaves it alone. A surrogate that
pairs with none becomes a question mark.
-/

namespace PlainForm.Decode

def step (notations : Notations) (unit : CodePoint) (rest : Text) : Except Failure Step :=
  if unit = Reference.ampersand ∧ notations.xml then Reference.step rest
  else if unit = Escape.backslash ∧ notations.backslash then .ok (Escape.step rest)
  else .ok { char := unit }

/-! ## Pairing -/

/-- What a step settles, and the high surrogate that waits for the next one. -/
structure Settled where
  chars : Text := []
  problems : List Problem := []
  pending : Option CodePoint := none

/-- What a high surrogate comes to when `next` is no low one. -/
def unpaired (pending : Option CodePoint) (next : Option CodePoint) : Noted Text :=
  match pending with
  | none => ⟨[], []⟩
  | some high => ⟨[.questionMark], [.unpairedHighSurrogate high next]⟩

/-- What a code point comes to that completes no pair. -/
def settleAlone (char : CodePoint) : Settled :=
  if char.isHighSurrogate then { pending := some char }
  else if char.isLowSurrogate then
    { chars := [.questionMark], problems := [.unpairedLowSurrogate char] }
  else { chars := [char] }

/-- What a step comes to behind the high surrogate `pending`. Problems are told in the order in
which they show: that of a notation before that of the surrogate in front of it. -/
def settle (pending : Option CodePoint) (s : Step) : Settled :=
  match pending.bind (CodePoint.ofPair? · s.char) with
  | some char => { chars := [char], problems := s.problem.toList }
  | none =>
    let before := unpaired pending (some s.char)
    let here := settleAlone s.char
    { chars := before.value ++ here.chars
      problems := s.problem.toList ++ before.problems ++ here.problems
      pending := here.pending }

/-! ## The pass -/

/-- Decodes units. `pending` is a high surrogate read just before them. -/
def run (notations : Notations) (pending : Option CodePoint) : Text → Except Failure (Noted Text)
  | [] => .ok (unpaired pending none)
  | unit :: rest => do
    let s ← step notations unit rest
    let settled := settle pending s
    let later ← run notations settled.pending (rest.drop s.tail)
    return ⟨settled.chars ++ later.value, settled.problems ++ later.problems⟩
termination_by units => units.length
decreasing_by simp only [List.length_cons, List.length_drop]; omega

section

variable {notations : Notations} {pending : Option CodePoint} {unit : CodePoint} {rest : Text}

theorem run_cons_eq_ok {noted : Noted Text} : run notations pending (unit :: rest) = .ok noted ↔
    ∃ s later, step notations unit rest = .ok s ∧
      run notations (settle pending s).pending (rest.drop s.tail) = .ok later ∧
      noted = ⟨(settle pending s).chars ++ later.value,
        (settle pending s).problems ++ later.problems⟩ := by
  rw [run]
  simp only [Failure.bind_eq_ok, Failure.pure_eq, Except.ok.injEq]
  constructor
  · rintro ⟨s, hs, later, hl, rfl⟩
    exact ⟨s, later, hs, hl, rfl⟩
  · rintro ⟨s, later, hs, hl, rfl⟩
    exact ⟨s, hs, later, hl, rfl⟩

theorem run_cons_eq_error {f : Failure} : run notations pending (unit :: rest) = .error f ↔
    step notations unit rest = .error f ∨ ∃ s, step notations unit rest = .ok s ∧
      run notations (settle pending s).pending (rest.drop s.tail) = .error f := by
  rw [run]
  simp [Failure.bind_eq_error]

end

end PlainForm.Decode

namespace PlainForm

/-- The code points of a text, with notations decoded and surrogates paired up. -/
def Text.decode (notations : Notations) (t : Text) : Except Failure (Noted Text) :=
  Decode.run notations none t.units

end PlainForm

import Mathlib.Control.Monad.Basic
import PlainForm.Proofs.Decode.Spec
import PlainForm.RuleLine.Reading

/-!
# Results and contracts of readings

How a reading of several steps comes to its result, and what holds of a reading whatever it comes
to. A contract of the whole follows from contracts of the steps.
-/

namespace PlainForm.Reading

deriving instance DecidableEq for Reading

variable {α β : Type} {a : α} {b : β} {ps : List Problem} {r : Reading α} {f : α → Reading β}

/-! ## Results -/

theorem pure_eq_ok {a' : α} : (pure a' : Reading α) = ⟨.ok a, ps⟩ ↔ a = a' ∧ ps = [] := by
  show Reading.pure a' = _ ↔ _
  simp only [Reading.pure, Reading.mk.injEq, Except.ok.injEq]
  rw [eq_comm, eq_comm (a := ([] : List Problem))]

theorem bind_eq_ok : r >>= f = ⟨.ok b, ps⟩ ↔
    ∃ a before after, r = ⟨.ok a, before⟩ ∧ f a = ⟨.ok b, after⟩ ∧ ps = before ++ after := by
  obtain ⟨outcome, before⟩ := r
  cases outcome with
  | error stop => simp [bind_of_error (r := ⟨.error stop, before⟩) rfl]
  | ok a =>
    rw [bind_of_ok (r := ⟨.ok a, before⟩) rfl]
    constructor
    · intro h
      obtain ⟨houtcome, hproblems⟩ := Reading.mk.inj h
      exact ⟨a, before, (f a).problems, rfl, by rw [← houtcome], hproblems.symm⟩
    · rintro ⟨a', before', after, hr, hf, rfl⟩
      obtain ⟨ha, rfl⟩ := Reading.mk.inj hr
      obtain rfl := Except.ok.inj ha
      rw [hf]

theorem wrong_ne_ok {m : Mistake} : (wrong m : Reading α) ≠ ⟨.ok a, ps⟩ := by
  intro h
  cases h

theorem ite_wrong_eq_ok {p : Prop} [Decidable p] {m : Mistake} :
    (if p then wrong m else r) = ⟨.ok a, ps⟩ ↔ ¬ p ∧ r = ⟨.ok a, ps⟩ := by
  split <;> simp [*, wrong_ne_ok]

theorem ofExcept_eq_ok {e : Except Failure α} : ofExcept e = ⟨.ok a, ps⟩ ↔ e = .ok a ∧ ps = [] := by
  cases e with
  | error f => simp [ofExcept]
  | ok a' =>
    show pure a' = _ ↔ _
    rw [pure_eq_ok, Except.ok.injEq, eq_comm]

theorem ofNoted_eq_ok {noted : Noted α} :
    ofNoted noted = ⟨.ok a, ps⟩ ↔ a = noted.value ∧ ps = noted.problems := by
  simp only [ofNoted, Reading.mk.injEq, Except.ok.injEq]
  rw [eq_comm, eq_comm (a := ps)]

theorem bind_congr {g : α → Reading β} (h : ∀ a, r.outcome = .ok a → f a = g a) :
    r >>= f = r >>= g := by
  cases hr : r.outcome with
  | error stop => rw [bind_of_error hr, bind_of_error hr]
  | ok a => rw [bind_of_ok hr, bind_of_ok hr, h a hr]

theorem bind_assoc {γ : Type} (r : Reading α) (f : α → Reading β) (g : β → Reading γ) :
    r >>= f >>= g = r >>= fun a => f a >>= g := by
  cases hr : r.outcome with
  | error stop => rw [bind_of_error hr, bind_of_error hr, bind_of_error rfl]
  | ok a =>
    rw [bind_of_ok hr, bind_of_ok hr]
    cases hf : (f a).outcome with
    | error stop => rw [bind_of_error rfl, bind_of_error hf]
    | ok b => rw [bind_of_ok rfl, bind_of_ok hf, List.append_assoc]

/-! ## Contracts -/

/-- A result is as `value` says, only decoding has told problems, and reading gives up only as
`failure` says. -/
structure Meets (r : Reading α) (value : α → Prop) (failure : Failure → Prop) : Prop where
  value : ∀ a, r.outcome = .ok a → value a
  problems : ∀ p ∈ r.problems, p.isDecoding
  failure : ∀ f, r.outcome = .error (.failure f) → failure f

variable {value value' : α → Prop} {result : β → Prop} {failure failure' : Failure → Prop}

theorem meets_pure (h : value a) : (pure a : Reading α).Meets value failure where
  value := by
    intro a' ha
    rw [outcome_pure] at ha
    exact Except.ok.inj ha ▸ h
  problems := by simp
  failure := by
    intro f hf
    cases hf

theorem meets_wrong (m : Mistake) : (wrong m : Reading α).Meets value failure where
  value := by
    intro a ha
    cases ha
  problems := by simp [wrong]
  failure := by
    intro f hf
    cases hf

theorem Meets.bind (hr : r.Meets value failure) (hf : ∀ a, value a → (f a).Meets result failure) :
    (r >>= f).Meets result failure := by
  obtain ⟨outcome, problems⟩ := r
  cases outcome with
  | error stop =>
    rw [bind_of_error (r := ⟨.error stop, problems⟩) rfl]
    refine ⟨?_, hr.problems, ?_⟩
    · intro b hb
      cases hb
    · intro failed hfailed
      cases hfailed
      exact hr.failure failed rfl
  | ok a =>
    have ha := hf a (hr.value a rfl)
    rw [bind_of_ok (r := ⟨.ok a, problems⟩) rfl]
    refine ⟨ha.value, ?_, ha.failure⟩
    intro p hp
    rcases List.mem_append.1 hp with hp | hp
    · exact hr.problems p hp
    · exact ha.problems p hp

theorem Meets.mono (h : r.Meets value failure) (hvalue : ∀ a, value a → value' a)
    (hfailure : ∀ f, failure f → failure' f) : r.Meets value' failure' where
  value a ha := hvalue a (h.value a ha)
  problems := h.problems
  failure f hf := hfailure f (h.failure f hf)

theorem meets_ofExcept {e : Except Failure α} (hvalue : ∀ a, e = .ok a → value a)
    (hfailure : ∀ f, e = .error f → failure f) : (ofExcept e).Meets value failure := by
  cases e with
  | ok a => exact meets_pure (hvalue a rfl)
  | error f =>
    refine ⟨?_, by simp [ofExcept], ?_⟩
    · intro a ha
      cases ha
    · intro f' hf
      cases hf
      exact hfailure f rfl

theorem meets_ofNoted {noted : Noted α} (hvalue : value noted.value)
    (hproblems : ∀ p ∈ noted.problems, p.isDecoding) : (ofNoted noted).Meets value failure where
  value := by
    intro a ha
    cases ha
    exact hvalue
  problems := hproblems
  failure := by
    intro f hf
    cases hf

end PlainForm.Reading

import PlainForm.Proofs.Decode.Notations
import PlainForm.Proofs.Numeral

/-!
# Texts without long numerals

Too many decimal digits in a row are all that keeps a text from being decoded.
-/

namespace PlainForm

/-! ## Runs of digits -/

namespace Text

variable {run s t : Text}

/-- No more decimal digits stand in a row than a numeral may have. -/
def HasShortRuns (t : Text) : Prop :=
  ∀ run, run <:+: t → (∀ d ∈ run, d.isDigit) → run.length ≤ decimalDigitLimit

theorem HasShortRuns.of_infix (h : t.HasShortRuns) (hs : s <:+: t) : s.HasShortRuns :=
  fun run hrun hall => h run (hrun.trans hs) hall

theorem hasShortRuns_of_length (h : t.length ≤ decimalDigitLimit) : t.HasShortRuns :=
  fun _ hrun _ => Nat.le_trans hrun.length_le h

theorem units_cons (c : CodePoint) (t : Text) : Text.units (c :: t) = c.units ++ t.units :=
  List.flatMap_cons

theorem units_of_le {c : CodePoint} (h : c.val ≤ 0xFFFF) : c.units = [c] := if_pos h

theorem units_of_lt {c : CodePoint} (h : ¬ c.val ≤ 0xFFFF) :
    ∃ high low, c.units = [high, low] ∧ ¬ high.isDigit ∧ ¬ low.isDigit := by
  refine ⟨_, _, if_neg h, ?_, ?_⟩ <;>
    simp only [CodePoint.isDigit, Bool.and_eq_true, decide_eq_true_eq] <;> omega

theorem prefix_nil_of_cons {c : CodePoint} (hall : ∀ d ∈ run, d.isDigit) (hc : ¬ c.isDigit)
    (h : run <+: c :: t) : run = [] := by
  cases run with
  | nil => rfl
  | cons d run => exact absurd ((List.cons_prefix_cons.1 h).1 ▸ hall d List.mem_cons_self) hc

theorem infix_of_cons {c : CodePoint} (hall : ∀ d ∈ run, d.isDigit) (hc : ¬ c.isDigit)
    (h : run <:+: c :: t) : run <:+: t := by
  rcases List.infix_cons_iff.1 h with h | h
  · rw [prefix_nil_of_cons hall hc h]
    exact List.nil_infix
  · exact h

theorem prefix_of_units (hall : ∀ d ∈ run, d.isDigit) (h : run <+: Text.units t) : run <+: t := by
  induction t generalizing run with
  | nil => exact h
  | cons c t ih =>
    rw [units_cons] at h
    by_cases hc : c.val ≤ 0xFFFF
    · rw [units_of_le hc] at h
      cases run with
      | nil => exact List.nil_prefix
      | cons d run =>
        obtain ⟨hd, hrun⟩ := List.cons_prefix_cons.1 h
        exact List.cons_prefix_cons.2
          ⟨hd, ih (fun e he => hall e (List.mem_cons_of_mem _ he)) hrun⟩
    · obtain ⟨high, low, hunits, hhigh, -⟩ := units_of_lt hc
      rw [hunits] at h
      rw [prefix_nil_of_cons hall hhigh h]
      exact List.nil_prefix

theorem infix_of_units (hall : ∀ d ∈ run, d.isDigit) (h : run <:+: Text.units t) : run <:+: t := by
  induction t with
  | nil => exact h
  | cons c t ih =>
    by_cases hc : c.val ≤ 0xFFFF
    · have hunits : Text.units (c :: t) = c :: Text.units t := by
        rw [units_cons, units_of_le hc]
        rfl
      rw [hunits] at h
      rcases List.infix_cons_iff.1 h with hp | hi
      · exact (prefix_of_units hall (hunits ▸ hp)).isInfix
      · exact List.infix_cons (ih hi)
    · obtain ⟨high, low, hunits, hhigh, hlow⟩ := units_of_lt hc
      rw [units_cons, hunits] at h
      exact List.infix_cons (ih (infix_of_cons hall hlow (infix_of_cons hall hhigh h)))

theorem HasShortRuns.units (h : t.HasShortRuns) : HasShortRuns (Text.units t) :=
  fun run hrun hall => h run (infix_of_units hall hrun) hall

end Text

/-! ## Decoding -/

namespace Decode

variable {notations : Notations} {t rest : Text}

theorem exists_reference (h : rest.HasShortRuns) : ∃ s, Reference.step rest = .ok s := by
  unfold Reference.step
  split
  · exact ⟨_, rfl⟩
  · exact ⟨_, rfl⟩
  · next numeral tail _ hn =>
    obtain ⟨body, tail, rfl, hwrites⟩ := Reference.writes_of_numeral? hn
    have hshort : numeral.IsShort := by
      intro hradix
      cases hwrites with
      | @decimal digits hne hall =>
        refine h digits ⟨[('#' : CodePoint)], (';' : CodePoint) :: tail, ?_⟩ hall
        simp
      | hexadecimal => cases hradix
    obtain ⟨n, hn⟩ := Numeral.exists_number hshort
    rw [hn, Failure.ok_bind]
    split
    · exact ⟨_, rfl⟩
    · exact ⟨_, rfl⟩

theorem exists_step (notations : Notations) (unit : CodePoint) (h : rest.HasShortRuns) :
    ∃ s, step notations unit rest = .ok s := by
  unfold step
  split
  · exact exists_reference h
  · split
    · exact ⟨_, rfl⟩
    · exact ⟨_, rfl⟩

theorem exists_run (pending : Option CodePoint) (h : t.HasShortRuns) :
    ∃ noted, run notations pending t = .ok noted := by
  induction pending, t using run.induct with
  | case1 pending =>
    rw [run]
    exact ⟨_, rfl⟩
  | case2 pending unit rest ih =>
    have hrest : Text.HasShortRuns rest := h.of_infix (List.suffix_cons unit rest).isInfix
    obtain ⟨s, hs⟩ := exists_step notations unit hrest
    obtain ⟨later, hl⟩ := ih s (hrest.of_infix (List.drop_suffix s.tail rest).isInfix)
    exact ⟨_, run_cons_eq_ok.2 ⟨s, later, hs, hl, rfl⟩⟩

theorem step_eq_error {unit : CodePoint} {f : Failure} (h : step notations unit rest = .error f) :
    f = .longNumeral := by
  unfold step at h
  split at h
  · unfold Reference.step at h
    split at h
    · cases h
    · cases h
    · next numeral tail _ _ =>
      cases hn : numeral.number with
      | error f' =>
        rw [hn] at h
        cases h
        exact (Numeral.number_eq_error hn).1
      | ok n =>
        rw [hn] at h
        simp only [Failure.ok_bind] at h
        split at h <;> cases h
  · split at h <;> cases h

theorem run_eq_error {pending : Option CodePoint} {f : Failure}
    (h : run notations pending t = .error f) : f = .longNumeral := by
  induction pending, t using run.induct with
  | case1 pending =>
    rw [run] at h
    cases h
  | case2 pending unit rest ih =>
    rcases run_cons_eq_error.1 h with hs | ⟨s, -, hl⟩
    · exact step_eq_error hs
    · exact ih s hl

theorem xml_of_step_eq_error {unit : CodePoint} {f : Failure}
    (h : step notations unit rest = .error f) : notations.xml := by
  unfold step at h
  split at h
  · next hreference => exact hreference.2
  · split at h <;> cases h

theorem xml_of_run_eq_error {pending : Option CodePoint} {f : Failure}
    (h : run notations pending t = .error f) : notations.xml := by
  induction pending, t using run.induct with
  | case1 pending =>
    rw [run] at h
    cases h
  | case2 pending unit rest ih =>
    rcases run_cons_eq_error.1 h with hs | ⟨s, -, hl⟩
    · exact xml_of_step_eq_error hs
    · exact ih s hl

end Decode

namespace Text

variable {t : Text}

theorem HasShortRuns.exists_decode (notations : Notations) (h : t.HasShortRuns) :
    ∃ noted, t.decode notations = .ok noted :=
  Decode.exists_run none h.units

theorem decode_eq_error {notations : Notations} {f : Failure}
    (h : t.decode notations = .error f) : f.IsLongUnless t.HasShortRuns := by
  refine ⟨Decode.run_eq_error h, ?_⟩
  intro ht
  obtain ⟨noted, hn⟩ := ht.exists_decode notations
  rw [hn] at h
  cases h

theorem exists_decode (t : Text) : ∃ decoded, t.decode {} = .ok decoded := by
  cases hdecode : t.decode {} with
  | ok decoded => exact ⟨decoded, rfl⟩
  | error f => exact absurd (Decode.xml_of_run_eq_error hdecode) (by decide)

end Text

end PlainForm

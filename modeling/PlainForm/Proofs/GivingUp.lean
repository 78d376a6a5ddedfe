import PlainForm.Proofs.Contribution
import PlainForm.Proofs.PlainOutput
import PlainForm.Proofs.Utf16

/-!
# What makes loading and converting give up

Bad rules and bad texts stop nothing. All that does is a decimal numeral with too many digits, in
the rules or, where references are decoded, in the text.
-/

namespace PlainForm

variable {notations : Notations} {file line t rest : Text} {f : Failure}

/-! ## Loading -/

theorem Entry.read_eq_error {lineNumber : Nat} (h : read notations lineNumber line = .error f) :
    f = .longNumeral := by
  unfold read at h
  dsimp only at h
  split at h
  · cases h
  · cases h
  · next failed hfailed =>
    cases h
    exact ((RuleLine.read_meets notations line).failure f hfailed).1

namespace Rulebook

variable {book : Rulebook}

theorem readLine_open (file line : Text) (number : Nat) (hopen : book.table.committed = false) :
    (∀ f, (book.readLine file line number).failure = some f → f = .longNumeral) ∧
      (book.readLine file line number).book.table.committed = false := by
  unfold readLine
  split
  · next entry hentry =>
    obtain ⟨hfailure, hbook⟩ := enter_open file (.inl hopen)
    rw [hfailure, hbook, committed_grown]
    exact ⟨by simp, hopen⟩
  · next failed hfailed =>
    refine ⟨?_, hopen⟩
    rintro f ⟨⟩
    exact Entry.read_eq_error hfailed

theorem readLines_eq_failure {lines : List (Text × Nat)} (hopen : book.table.committed = false)
    (h : (book.readLines file lines).failure = some f) : f = .longNumeral := by
  induction lines generalizing book with
  | nil => cases h
  | cons numbered lines ih =>
    obtain ⟨line, number⟩ := numbered
    obtain ⟨hlong, hstays⟩ := readLine_open file line number hopen
    cases hfailure : (book.readLine file line number).failure with
    | none =>
      rw [(readLines_cons hfailure lines).1] at h
      exact ih hstays h
    | some failed =>
      rw [(readLines_stop hfailure lines).1] at h
      exact hlong f (hfailure.trans h)

end Rulebook

theorem load_eq_error {rules : Option Text} (h : load notations file rules = .error f) :
    f = .longNumeral ∧ ∃ text ∈ rules, ¬ text.HasShortRuns := by
  have hfailure : (Rulebook.read { notations } file rules).failure = some f := by
    unfold load at h
    dsimp only at h
    split at h
    · next failed hfailed =>
      cases h
      exact hfailed
    · cases h
  refine ⟨Rulebook.readLines_eq_failure rfl hfailure, ?_⟩
  by_contra hlong
  have hshort : ∀ text ∈ rules, text.HasShortRuns := by
    intro text htext
    by_contra hshort
    exact hlong ⟨text, htext, hshort⟩
  rw [(Rulebook.read_open file hshort (.inl rfl)).1] at hfailure
  cases hfailure

/-! ## Converting -/

theorem Loaded.convert_eq_error {loading : Notations} {rules : Option Text} {loaded : Loaded}
    (hload : load loading file rules = .ok loaded)
    (h : loaded.table.convert notations t = .error f) : t.decode notations = .error f := by
  obtain ⟨hcommitted, hwell⟩ := Loaded.wellFormed hload
  cases hdecode : t.decode notations with
  | error failed =>
    unfold Table.convert at h
    rw [hdecode, Failure.error_bind] at h
    exact congrArg Except.error (Except.error.inj h)
  | ok decoded =>
    obtain ⟨-, s, -, hs, -⟩ := Table.substitute_eq hcommitted
      (fun rule hrule => (hwell rule hrule).target.isComplete) decoded.value none
    rw [Table.convert_eq_ok.2 ⟨decoded, s, hdecode, hs, rfl⟩] at h
    cases h

/-- A reference with so many zeros in front of its semicolon. -/
def zerosReference (count : Nat) : Text :=
  Reference.ampersand :: '#' :: (List.replicate count ('0' : CodePoint) ++ [(';' : CodePoint)])

theorem units_zerosReference (count : Nat) :
    (zerosReference count).units = zerosReference count := by
  refine Text.units_of_forall_le fun c hc => ?_
  simp only [zerosReference, List.mem_cons, List.mem_append, List.mem_replicate, List.not_mem_nil,
    or_false] at hc
  rcases hc with rfl | rfl | ⟨-, rfl⟩ | rfl <;> decide

theorem number_zeros {count : Nat} (h : decimalDigitLimit < count) :
    Numeral.number ⟨.decimal, List.replicate count '0'⟩ = .error .longNumeral := by
  have hzeros : Numeral.significantDigits ⟨.decimal, List.replicate count '0'⟩ = [] := by
    simp [Numeral.significantDigits]
  rw [Numeral.number, hzeros, if_neg (by decide), if_pos ⟨rfl, by simpa using h⟩]

theorem decode_zerosReference (on : notations.xml) {count : Nat} (h : decimalDigitLimit < count)
    (t : Text) : Text.decode notations (zerosReference count ++ t) = .error .longNumeral := by
  have hunits : Text.units (zerosReference count ++ t) = zerosReference count ++ t.units := by
    rw [Text.units, List.flatMap_append]
    exact congrArg (· ++ t.units) (units_zerosReference count)
  have hwrites :
      Reference.Writes ⟨.decimal, List.replicate count '0'⟩ (zerosReference count).tail := by
    refine .decimal ?_ fun d hd => ?_
    · rw [Ne, List.replicate_eq_nil_iff]
      omega
    · rw [List.eq_of_mem_replicate hd]
      rfl
  have hstep : Reference.step ((zerosReference count).tail ++ t.units) = .error .longNumeral := by
    unfold Reference.step
    rw [Reference.named?_of_writes hwrites, Reference.numeral?_of_writes hwrites]
    dsimp only
    rw [number_zeros h, Failure.error_bind]
  rw [Text.decode, hunits]
  exact Decode.run_cons_eq_error.2 (.inl ((Decode.step_ampersand on).trans hstep))

theorem Text.ofUnits_context (h : rest <:+ t.units) :
    ofUnits rest.context.numbers = .ok (Step.shownContext rest) := by
  have hunits : ∀ c ∈ rest.context, c.val ≤ 0xFFFF := by
    intro c hc
    have htake : c ∈ rest.take contextLimit := (List.takeWhile_sublist _).mem hc
    exact le_of_mem_units (h.mem (List.mem_of_mem_take htake))
  rw [ofUnits, unitsOfNumbers_numbers hunits]
  rfl

/-- Loading any rules gives a table, and a table that was loaded converts any text, unless too many
decimal digits stand in a row. Whatever is packed into units on the way can be packed and joined. -/
theorem only_long_numerals_fail (loading : Notations) (file : Text) (rules : Option Text) :
    ((∃ loaded, load loading file rules = .ok loaded) ∨
      load loading file rules = .error .longNumeral ∧ ∃ text ∈ rules, ¬ text.HasShortRuns) ∧
    (∀ loaded, load loading file rules = .ok loaded → ∀ (notations : Notations) (t : Text),
      (∃ conversion, loaded.table.convert notations t = .ok conversion) ∨
        loaded.table.convert notations t = .error .longNumeral ∧ notations.xml ∧
          ¬ t.HasShortRuns) ∧
    (∀ numbers : List Int,
      Text.ofUnitsStrict (numbers.flatMap CharNumber.utf16) = .ok (encode numbers).value) ∧
    ∀ t rest : Text, rest <:+ t.units →
      Text.ofUnits rest.context.numbers = .ok (Step.shownContext rest) := by
  refine ⟨?_, ?_, Encode.join_utf16, fun t rest => Text.ofUnits_context⟩
  · cases hload : load loading file rules with
    | ok loaded => exact .inl ⟨loaded, rfl⟩
    | error f =>
      obtain ⟨rfl, hlong⟩ := load_eq_error hload
      exact .inr ⟨rfl, hlong⟩
  · intro loaded hload notations t
    cases hconvert : loaded.table.convert notations t with
    | ok conversion => exact .inl ⟨conversion, rfl⟩
    | error f =>
      have hdecode := Loaded.convert_eq_error hload hconvert
      obtain ⟨rfl, hlong⟩ := Text.decode_eq_error hdecode
      exact .inr ⟨rfl, Decode.xml_of_run_eq_error hdecode, hlong⟩

/-- A table whose rules are bad but for one, and a numeral with one zero too many, in a text where
references are decoded and in one where they are not. -/
theorem only_long_numerals_fail_zeros :
    let rules : Text := "replace 65 =\nreplace 66 = 67\naccept \"\\ud800\" 0x110000"
    let t : Text := zerosReference 4301 ++ "B"
    ∃ loaded, load { backslash := true } "rules.txt" (some rules) = .ok loaded ∧
      loaded.table = ⟨[⟨.replace, .sequence [66], some "C"⟩], true⟩ ∧
      loaded.table.convert { xml := true } t = .error .longNumeral ∧ ¬ t.HasShortRuns ∧
      ∃ conversion, loaded.table.convert { backslash := true } t = .ok conversion := by
  intro rules t
  obtain ⟨-, hconvert, -, -⟩ :=
    only_long_numerals_fail { backslash := true } "rules.txt" (some rules)
  have hrules : (load { backslash := true } "rules.txt" (some rules)).map Loaded.table =
      .ok ⟨[⟨.replace, .sequence [66], some "C"⟩], true⟩ := by decide +kernel
  obtain ⟨loaded, hload, htable⟩ := Failure.map_eq_ok.1 hrules
  have hdecode : t.decode { xml := true } = .error .longNumeral :=
    decode_zerosReference rfl (by decide) "B"
  refine ⟨loaded, hload, htable, ?_⟩
  rcases hconvert loaded hload { xml := true } t with ⟨conversion, h⟩ | ⟨hlong, -, hruns⟩
  · obtain ⟨decoded, -, hok, -⟩ := Table.convert_eq_ok.1 h
    rw [hdecode] at hok
    cases hok
  · refine ⟨hlong, hruns, ?_⟩
    rcases hconvert loaded hload { backslash := true } t with h | ⟨-, hxml, -⟩
    · exact h
    · cases hxml

end PlainForm

import PlainForm.Proofs.Decode.Pass

/-!
# What a step at an ampersand comes to

A reference is read as a whole and to its exact value, whatever zeros stand in front. Anything else
leaves the ampersand as it is and is told, except for a numeral that is small but has too many
digits: there decoding gives up.
-/

namespace PlainForm

namespace Reference

variable {rest : Text} {f : Failure} {s : Step}

/-- A decimal reference at the start, with so many zeros that it has more than 4300 digits. At most
nine digits follow the zeros. -/
def IsOverlong (units : Text) : Prop :=
  ∃ (zeros : Nat) (digits tail : Text),
    units = "&#" ++ (List.replicate zeros ('0' : CodePoint) ++ digits) ++ ";" ++ tail ∧
      (∀ d ∈ digits, d.isDigit) ∧ digits.length ≤ 9 ∧ 4300 < zeros + digits.length

/-! ## Giving up -/

theorem step_eq_error : step rest = .error f ↔
    named? rest = none ∧ ∃ numeral size, numeral? rest = some (numeral, size) ∧
      numeral.number = .error f := by
  unfold step
  split
  · next hnamed => simp [hnamed]
  · next hnamed hnumeral => simp [hnumeral]
  · next numeral size hnamed hnumeral =>
    simp only [hnamed, hnumeral, true_and, Option.some.injEq, Prod.mk.injEq]
    cases hnumber : numeral.number with
    | error g =>
      constructor
      · intro h
        cases h
        exact ⟨numeral, size, ⟨rfl, rfl⟩, hnumber⟩
      · rintro ⟨_, _, ⟨rfl, rfl⟩, h⟩
        rw [hnumber] at h
        cases h
        rfl
    | ok n =>
      constructor
      · intro h
        rw [Failure.ok_bind] at h
        split at h <;> cases h
      · rintro ⟨_, _, ⟨rfl, rfl⟩, h⟩
        rw [hnumber] at h
        cases h

theorem step_eq_error_iff : step rest = .error f ↔
    f = .longNumeral ∧ IsOverlong (ampersand :: rest) := by
  rw [step_eq_error]
  constructor
  · rintro ⟨-, numeral, size, hnumeral, hnumber⟩
    obtain ⟨body, tail, rfl, hwrites⟩ := writes_of_numeral? hnumeral
    cases hwrites with
    | @decimal digits _ hall =>
      obtain ⟨rfl, -, hmany, hfew⟩ := Numeral.number_eq_error_iff.1 hnumber
      obtain ⟨zeros, others, rfl, hfew'⟩ := Numeral.length_significantDigits_le_iff.1 hfew
      refine ⟨rfl, zeros, others, tail, by simp [Text.ofString, ampersand], ?_, hfew', ?_⟩
      · exact fun d hd => hall d (List.mem_append_right _ hd)
      · rwa [List.length_append, List.length_replicate] at hmany
    | hexadecimal _ _ _ =>
      exact absurd (Numeral.isShort_hexadecimal _) (Numeral.number_eq_error hnumber).2
  · rintro ⟨rfl, zeros, digits, tail, hunits, hall, hfew, hmany⟩
    have hlength : (List.replicate zeros ('0' : CodePoint) ++ digits).length =
        zeros + digits.length := by simp
    have hne : List.replicate zeros ('0' : CodePoint) ++ digits ≠ [] := by
      intro h
      rw [h, List.length_nil] at hlength
      omega
    have hdigits : ∀ d ∈ List.replicate zeros ('0' : CodePoint) ++ digits, d.isDigit := by
      refine List.forall_mem_append.2 ⟨fun d hd => ?_, hall⟩
      rw [List.eq_of_mem_replicate hd]
      rfl
    have hwrites := Writes.decimal hne hdigits
    have hrest : rest = ('#' : CodePoint) :: (List.replicate zeros ('0' : CodePoint) ++ digits ++
        [(';' : CodePoint)]) ++ tail := by simpa [Text.ofString, ampersand] using hunits
    have hfew' := Numeral.length_significantDigits_le_iff.2 ⟨zeros, digits, rfl, hfew⟩
    rw [hrest]
    exact ⟨named?_of_writes hwrites, _, _, numeral?_of_writes hwrites,
      Numeral.number_eq_error_iff.2 ⟨rfl, rfl, hlength ▸ hmany, hfew'⟩⟩

/-! ## Reading and leaving alone -/

theorem step_takes {written tail : Text} {char : CodePoint} (h : step rest = .ok s)
    (hwritten : ampersand :: rest = written ++ tail) (hspells : Spells written char) :
    s.tail + 1 = written.length ∧ 0 < s.tail ∧ s.char = char ∧ s.problem = none := by
  obtain ⟨body, rfl⟩ := hspells.exists_body
  obtain rfl : rest = body ++ tail := (List.cons.inj hwritten).2
  obtain rfl := step_of_spells hspells h
  exact ⟨rfl, hspells.length_pos, rfl, rfl⟩

theorem step_leaves (h : step rest = .ok s)
    (hnone : ¬ ∃ written tail char, ampersand :: rest = written ++ tail ∧ Spells written char) :
    s = unread rest := by
  refine step_of_not_spells (fun body tail char hrest hspells => ?_) h
  exact hnone ⟨_, tail, char, by rw [hrest, List.cons_append], hspells⟩

theorem tail_pos_iff (h : step rest = .ok s) :
    0 < s.tail ↔ ∃ written tail char, ampersand :: rest = written ++ tail ∧
      Spells written char := by
  constructor
  · intro htail
    by_contra hnone
    rw [step_leaves h hnone] at htail
    exact absurd htail (Nat.lt_irrefl 0)
  · rintro ⟨written, tail, char, hwritten, hspells⟩
    exact (step_takes h hwritten hspells).2.1

theorem problem_eq (rest : Text) : problem rest =
    if ("&#" : Text) <+: ampersand :: rest then
      .invalidReference (Step.shownContext (ampersand :: rest))
    else .unknownEntity (Step.shownContext (ampersand :: rest)) := by
  have hstart : ("&#" : Text) <+: ampersand :: rest ↔ rest.head? = some ('#' : CodePoint) := by
    show [ampersand, '#'] <+: ampersand :: rest ↔ _
    cases rest <;> simp [List.cons_prefix_cons, eq_comm]
  simp only [problem, hstart]

end Reference

/-- Where references are decoded, a step at an ampersand gives up exactly when an overlong reference
begins there. Otherwise it takes more than the ampersand exactly when a reference begins there, and
then it takes the reference as a whole, gives the character that it stands for and tells nothing. If
none begins there, the ampersand is left as it is, and one problem is told, which is that of a
numeric reference exactly when a number sign follows. -/
theorem step_at_ampersand (notations : Notations) (on : notations.xml) (units : Text) (index : Nat)
    (here : units[index]? = some Reference.ampersand) :
    (∀ f, Decode.step notations Reference.ampersand (units.drop (index + 1)) = .error f ↔
      f = .longNumeral ∧ Reference.IsOverlong (units.drop index)) ∧
    ∀ s, Decode.step notations Reference.ampersand (units.drop (index + 1)) = .ok s →
      (0 < s.tail ↔ ∃ written rest char, units.drop index = written ++ rest ∧
        Reference.Spells written char) ∧
      (∀ written rest char, units.drop index = written ++ rest → Reference.Spells written char →
        s.tail + 1 = written.length ∧ s.char = char ∧ s.problem = none) ∧
      (s.tail = 0 → s.char = Reference.ampersand ∧ s.problem = some
        (if ("&#" : Text) <+: units.drop index then
          .invalidReference (Step.shownContext (units.drop index))
        else .unknownEntity (Step.shownContext (units.drop index)))) := by
  obtain ⟨hindex, hunit⟩ := List.getElem?_eq_some_iff.1 here
  have hdrop : units.drop index = Reference.ampersand :: units.drop (index + 1) := by
    rw [List.drop_eq_getElem_cons hindex, hunit]
  rw [hdrop, Decode.step_ampersand on]
  generalize units.drop (index + 1) = rest
  refine ⟨fun f => Reference.step_eq_error_iff, fun s hs => ⟨Reference.tail_pos_iff hs, ?_, ?_⟩⟩
  · intro written tail char hwritten hspells
    obtain ⟨hlength, -, hchar, hproblem⟩ := Reference.step_takes hs hwritten hspells
    exact ⟨hlength, hchar, hproblem⟩
  · intro htail
    have hnone := mt (Reference.tail_pos_iff hs).2 (Nat.not_lt.2 htail.le)
    rw [Reference.step_leaves hs hnone, ← Reference.problem_eq]
    exact ⟨rfl, rfl⟩

/-- A reference to the last code point with zeros in front, and one to the number behind it. -/
theorem step_at_ampersand_last_code_point :
    let notations : Notations := { xml := true }
    let units : Text := "q&#x000010FFFF;&#1114112;"
    let context : Text := "&#1114112;"
    units[1]? = some Reference.ampersand ∧ units[15]? = some Reference.ampersand ∧
      (∃ s, Decode.step notations Reference.ampersand (units.drop 2) = .ok s ∧
        s.tail + 1 = 14 ∧ s.char.val = 0x10FFFF ∧ s.problem = none) ∧
      ∃ s, Decode.step notations Reference.ampersand (units.drop 16) = .ok s ∧
        s.tail = 0 ∧ s.char = Reference.ampersand ∧
          s.problem = some (.invalidReference context) := by
  intro notations units context
  have hfirst : units[1]? = some Reference.ampersand := by decide
  have hsecond : units[15]? = some Reference.ampersand := by decide
  have hread : Decode.step notations Reference.ampersand (units.drop 2) =
      .ok { char := ⟨0x10FFFF, by decide⟩, tail := 13 } := rfl
  have hleft : Decode.step notations Reference.ampersand (units.drop 16) =
      .ok (Reference.unread (units.drop 16)) := rfl
  let digits : Text := "000010FFFF"
  have hwritten : Reference.Writes ⟨.hexadecimal, digits⟩ _ :=
    Reference.Writes.hexadecimal (.inl rfl) (by decide : digits ≠ []) (by decide)
  have hvalue : Numeral.value ⟨.hexadecimal, digits⟩ = 0x10FFFF := by decide
  obtain ⟨-, hspells, -⟩ := (step_at_ampersand notations rfl units 1 hfirst).2 _ hread
  obtain ⟨-, -, hunread⟩ := (step_at_ampersand notations rfl units 15 hsecond).2 _ hleft
  obtain ⟨hlength, hchar, hnone⟩ := hspells _ (units.drop 15) ⟨0x10FFFF, by decide⟩ (by decide)
    (.numeric hwritten hvalue)
  obtain ⟨hampersand, hproblem⟩ := hunread rfl
  exact ⟨hfirst, hsecond, ⟨_, hread, hlength, congrArg CodePoint.val hchar, hnone⟩,
    _, hleft, rfl, hampersand, hproblem⟩

end PlainForm

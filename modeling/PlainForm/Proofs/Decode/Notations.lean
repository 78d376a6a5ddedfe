import PlainForm.Proofs.Decode.Spec
import PlainForm.Proofs.Numeral
import PlainForm.Proofs.Runs

/-!
# Notations are read as they are spelt

A step at an ampersand or a backslash reads the reference or escape that begins there, and leaves
the unit as it is exactly when none does.
-/

namespace PlainForm

open Text (StopsRun stopsRun_cons takeWhile_run exists_run)

/-! ## References -/

namespace Reference

variable {numeral : Numeral} {body rest tail : Text} {char : CodePoint} {s : Step}

theorem digits?_eq_some {inClass : CodePoint → Bool} (hclass : inClass ';' = false)
    {t digits : Text} : digits? inClass t = some digits ↔ digits ≠ [] ∧
      (∀ d ∈ digits, inClass d) ∧ ∃ rest, t = digits ++ (';' : CodePoint) :: rest := by
  constructor
  · intro h
    obtain ⟨run, rest, rfl, hall, hstop⟩ := exists_run inClass t
    simp only [digits?, takeWhile_run hall hstop, List.drop_left, Option.ite_none_right_eq_some,
      Option.some.injEq] at h
    obtain ⟨⟨hne, hhead⟩, rfl⟩ := h
    obtain ⟨rest, rfl⟩ := List.head?_eq_some_iff.1 hhead
    exact ⟨hne, hall, rest, rfl⟩
  · rintro ⟨hne, hall, rest, rfl⟩
    have hstop : StopsRun inClass ((';' : CodePoint) :: rest) := by simp [stopsRun_cons, hclass]
    simp [digits?, takeWhile_run hall hstop, hne]

theorem numeral?_of_writes (h : Writes numeral body) :
    numeral? (body ++ tail) = some (numeral, body.length) := by
  cases h with
  | @decimal digits hne hall =>
    obtain ⟨d, digits, rfl⟩ := List.exists_cons_of_ne_nil hne
    have hd := hall d List.mem_cons_self
    have hx : ¬ (d = 'x' ∨ d = 'X') := by
      rintro (rfl | rfl) <;> revert hd <;> decide
    have hdigits : digits? CodePoint.isDigit (d :: (digits ++ (';' : CodePoint) :: tail)) =
        some (d :: digits) :=
      (digits?_eq_some (by decide)).2 ⟨hne, hall, tail, rfl⟩
    simp [numeral?, hx, hdigits]
  | @hexadecimal mark digits hmark hne hall =>
    have hdigits : digits? CodePoint.isHexDigit (digits ++ (';' : CodePoint) :: tail) =
        some digits :=
      (digits?_eq_some (by decide)).2 ⟨hne, hall, tail, rfl⟩
    simp [numeral?, hmark, hdigits]

theorem writes_of_numeral? {size : Nat} (h : numeral? rest = some (numeral, size)) :
    ∃ body tail, rest = body ++ tail ∧ Writes numeral body := by
  unfold numeral? at h
  split at h
  · next mark letter t =>
    split at h
    · cases h
    · next hmark =>
      obtain rfl : mark = '#' := Decidable.not_not.1 hmark
      split at h
      · next hletter =>
        obtain ⟨digits, hd, h⟩ := Option.map_eq_some_iff.1 h
        obtain ⟨hne, hall, tail, ht⟩ := (digits?_eq_some (by decide)).1 hd
        cases h
        rw [ht]
        exact ⟨_, tail, by simp, .hexadecimal hletter hne hall⟩
      · obtain ⟨digits, hd, h⟩ := Option.map_eq_some_iff.1 h
        obtain ⟨hne, hall, tail, ht⟩ := (digits?_eq_some (by decide)).1 hd
        cases h
        rw [ht]
        exact ⟨_, tail, by simp, .decimal hne hall⟩
  · cases h

theorem named?_of_entity {name : Text} (h : (name, char) ∈ entities) :
    named? (name ++ (';' : CodePoint) :: tail) = some { char, tail := name.length + 1 } := by
  simp only [entities, List.mem_cons, Prod.mk.injEq, List.not_mem_nil, or_false] at h
  rcases h with ⟨rfl, rfl⟩ | ⟨rfl, rfl⟩ | ⟨rfl, rfl⟩ | ⟨rfl, rfl⟩ | ⟨rfl, rfl⟩ <;> rfl

theorem entity_of_named? (h : named? rest = some s) :
    ∃ name tail, (name, s.char) ∈ entities ∧ rest = name ++ (';' : CodePoint) :: tail := by
  unfold named? at h
  obtain ⟨before, ⟨name, char⟩, after, hsplit, hs, -⟩ := List.findSome?_eq_some_iff.1 h
  simp only [Option.ite_none_right_eq_some, Option.some.injEq] at hs
  obtain ⟨hp, rfl⟩ := hs
  obtain ⟨tail, rfl⟩ := List.isPrefixOf_iff_prefix.1 hp
  exact ⟨name, tail, by simp [hsplit], by simp; rfl⟩

theorem named?_of_writes (h : Writes numeral body) : named? (body ++ tail) = none := by
  obtain ⟨t, ht⟩ : ∃ t, body ++ tail = ('#' : CodePoint) :: t := by
    cases h <;> exact ⟨_, rfl⟩
  rw [ht]
  rfl

theorem step_of_spells (h : Spells (ampersand :: body) char) (hs : step (body ++ tail) = .ok s) :
    s = { char, tail := body.length } := by
  cases h with
  | named hentity =>
    rw [List.append_assoc] at hs
    simp only [step, List.singleton_append, named?_of_entity hentity] at hs
    cases hs
    simp
  | numeric hwritten hvalue =>
    simp only [step, named?_of_writes hwritten, numeral?_of_writes hwritten] at hs
    cases hn : Numeral.number _ with
    | error f => rw [hn] at hs; cases hs
    | ok n =>
      have hchar := (Numeral.ofNat?_number_eq_some hn).2 hvalue
      simp only [hn, Failure.ok_bind, hchar] at hs
      cases hs
      rfl

theorem step_of_not_spells (h : ∀ body tail char, rest = body ++ tail →
    ¬ Spells (ampersand :: body) char) (hs : step rest = .ok s) : s = unread rest := by
  have hnamed : named? rest = none := by
    cases hn : named? rest with
    | none => rfl
    | some s' =>
      obtain ⟨name, tail, hentity, rfl⟩ := entity_of_named? hn
      exact absurd (.named hentity) (h (name ++ [(';' : CodePoint)]) tail _ (by simp))
  cases hm : numeral? rest with
  | none =>
    simp only [step, hnamed, hm] at hs
    cases hs
    rfl
  | some found =>
    obtain ⟨numeral, size⟩ := found
    obtain ⟨body, tail, rfl, hwritten⟩ := writes_of_numeral? hm
    simp only [step, hnamed, hm] at hs
    cases hn : numeral.number with
    | error f => rw [hn] at hs; cases hs
    | ok n =>
      cases hc : CodePoint.ofNat? n with
      | none =>
        simp only [hn, Failure.ok_bind, hc] at hs
        cases hs
        rfl
      | some char =>
        have hvalue := (Numeral.ofNat?_number_eq_some hn).1 hc
        exact absurd (.numeric hwritten hvalue) (h body tail char rfl)

end Reference

/-! ## Escapes -/

namespace Escape

variable {body digits rest tail : Text} {char : CodePoint} {s : Step}

theorem hexadecimal?_eq_some : hexadecimal? rest = some s ↔ ∃ digits tail, rest = digits ++ tail ∧
    digits.length = 4 ∧ (∀ d ∈ digits, d.isHexDigit) ∧
      Numeral.valueOf 16 digits = s.char.val ∧ s = { char := s.char, tail := 5 } := by
  simp only [hexadecimal?, Option.ite_none_right_eq_some, List.all_eq_true, Option.map_eq_some_iff,
    CodePoint.ofNat?_eq_some]
  constructor
  · rintro ⟨⟨hlen, hall⟩, char, hvalue, rfl⟩
    exact ⟨rest.take 4, rest.drop 4, by simp, hlen, hall, hvalue, rfl⟩
  · rintro ⟨digits, tail, rfl, hlen, hall, hvalue, hs⟩
    rw [List.take_left' hlen]
    exact ⟨⟨hlen, hall⟩, s.char, hvalue, hs.symm⟩

/-- Digits are octal as far as they go, up to three of them. -/
def IsOctalRun (digits tail : Text) : Prop :=
  (∀ d ∈ digits, d.isOctalDigit) ∧
    (digits.length = 3 ∨ digits.length < 3 ∧ StopsRun CodePoint.isOctalDigit tail)

theorem takeWhile_take_octal (h : IsOctalRun digits tail) :
    ((digits ++ tail).take octalDigitLimit).takeWhile CodePoint.isOctalDigit = digits := by
  obtain ⟨hall, hthree | ⟨hlen, hstop⟩⟩ := h
  · rw [List.take_left' (show digits.length = octalDigitLimit from hthree)]
    exact List.takeWhile_eq_self_iff.2 hall
  · rw [List.take_append, List.take_of_length_le (by unfold octalDigitLimit; omega)]
    refine takeWhile_run hall fun c hc => hstop c ?_
    obtain ⟨k, hk⟩ : ∃ k, octalDigitLimit - digits.length = k + 1 :=
      ⟨2 - digits.length, by unfold octalDigitLimit; omega⟩
    rw [hk] at hc
    cases tail with
    | nil => simp at hc
    | cons d tail => simpa using hc

theorem exists_octalRun (t : Text) :
    ∃ digits tail, t = digits ++ tail ∧ IsOctalRun digits tail := by
  obtain ⟨run, rest, rfl, hall, hstop⟩ := exists_run CodePoint.isOctalDigit t
  by_cases hlen : run.length < 3
  · exact ⟨run, rest, rfl, hall, .inr ⟨hlen, hstop⟩⟩
  · refine ⟨run.take 3, run.drop 3 ++ rest, by rw [← List.append_assoc, List.take_append_drop],
      fun d hd => hall d (List.mem_of_mem_take hd), .inl ?_⟩
    rw [List.length_take]
    omega

theorem octal?_eq_some : octal? rest = some s ↔ ∃ digits tail, rest = digits ++ tail ∧
    digits ≠ [] ∧ IsOctalRun digits tail ∧ Numeral.valueOf 8 digits ≤ octalLimit ∧
      Numeral.valueOf 8 digits = s.char.val ∧ s = { char := s.char, tail := digits.length } := by
  constructor
  · intro h
    obtain ⟨digits, tail, rfl, hrun⟩ := exists_octalRun rest
    simp only [octal?, takeWhile_take_octal hrun, Option.ite_none_right_eq_some,
      Option.map_eq_some_iff, CodePoint.ofNat?_eq_some] at h
    obtain ⟨⟨hne, hsmall⟩, char, hvalue, rfl⟩ := h
    exact ⟨digits, tail, rfl, hne, hrun, hsmall, hvalue, rfl⟩
  · rintro ⟨digits, tail, rfl, hne, hrun, hsmall, hvalue, hs⟩
    simp only [octal?, takeWhile_take_octal hrun, Option.ite_none_right_eq_some,
      Option.map_eq_some_iff, CodePoint.ofNat?_eq_some]
    exact ⟨⟨hne, hsmall⟩, s.char, hvalue, hs.symm⟩

theorem lookup_octalDigit {d : CodePoint} (h : d.isOctalDigit) : letters.lookup d = none := by
  rw [List.lookup_eq_none_iff]
  intro p hp
  rw [bne_iff_ne]
  rintro rfl
  revert p
  decide

theorem lookup_letter {letter : CodePoint} (h : (letter, char) ∈ letters) :
    letters.lookup letter = some char := by
  simp only [letters, List.mem_cons, Prod.mk.injEq, List.not_mem_nil, or_false] at h
  rcases h with ⟨rfl, rfl⟩ | ⟨rfl, rfl⟩ | ⟨rfl, rfl⟩ | ⟨rfl, rfl⟩ | ⟨rfl, rfl⟩ | ⟨rfl, rfl⟩ |
    ⟨rfl, rfl⟩ | ⟨rfl, rfl⟩ <;> rfl

theorem read?_of_spells (h : Spells (backslash :: body) tail char) :
    read? (body ++ tail) = some { char, tail := body.length } := by
  have hu : letters.lookup ('u' : CodePoint) = none := by decide
  cases h with
  | letter hknown => simp [read?, lookup_letter hknown]
  | doubled => simp [read?, hu]
  | @hexadecimal digits _ _ hlen hall hvalue =>
    have hhex := hexadecimal?_eq_some (s := { char, tail := 5 }).2
      ⟨digits, tail, rfl, hlen, hall, hvalue, rfl⟩
    have hhead : (digits ++ tail).head? ≠ some ('u' : CodePoint) := by
      obtain ⟨d, digits, rfl⟩ := List.exists_cons_of_length_pos (by omega : 0 < digits.length)
      have hd := hall d List.mem_cons_self
      simp only [List.cons_append, List.head?_cons, ne_eq, Option.some.injEq]
      rintro rfl
      revert hd
      decide
    simp only [List.cons_append, read?, hu]
    rw [if_pos trivial, if_neg hhead, hhex]
    simp [hlen]
  | octal hne hall hgreedy hsmall hvalue =>
    have hoctal := octal?_eq_some (s := { char, tail := body.length }).2
      ⟨body, tail, rfl, hne, ⟨hall, hgreedy⟩, hsmall, hvalue, rfl⟩
    obtain ⟨d, digits, rfl⟩ := List.exists_cons_of_ne_nil hne
    have hd := hall d List.mem_cons_self
    have hdu : d ≠ 'u' := by
      rintro rfl
      revert hd
      decide
    simpa [read?, lookup_octalDigit hd, hdu] using hoctal

theorem spells_of_read? (h : read? rest = some s) :
    ∃ body tail, rest = body ++ tail ∧ Spells (backslash :: body) tail s.char := by
  unfold read? at h
  split at h
  · cases h
  · next c rest =>
    split at h
    · next char hc =>
      obtain ⟨before, after, hsplit, -⟩ := List.lookup_eq_some_iff.1 hc
      cases h
      exact ⟨[c], rest, rfl, .letter (by simp [hsplit])⟩
    · split at h
      · next hcu =>
        subst hcu
        split at h
        · next hhead =>
          obtain ⟨rest, rfl⟩ := List.head?_eq_some_iff.1 hhead
          cases h
          exact ⟨['u'], _, rfl, .doubled⟩
        · obtain ⟨digits, tail, rfl, hlen, hall, hvalue, -⟩ := hexadecimal?_eq_some.1 h
          exact ⟨'u' :: digits, tail, rfl, .hexadecimal hlen hall hvalue⟩
      · obtain ⟨digits, tail, ht, hne, ⟨hall, hgreedy⟩, hsmall, hvalue, -⟩ := octal?_eq_some.1 h
        exact ⟨digits, tail, ht, .octal hne hall hgreedy hsmall hvalue⟩

end Escape

end PlainForm

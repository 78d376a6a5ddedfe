import Mathlib.Algebra.Group.Nat.Defs
import PlainForm.Proofs.Numeral

/-!
# Written numbers

The digits that a number is written with are digits of its base, and their value is the number.
Zeros in front of them change neither.
-/

namespace PlainForm.CharNumber

/-! ## Digits -/

/-- The digit that stands for a number below sixteen, as a capital if it is a letter. -/
def digit (d : Nat) : CodePoint := .ofChar (Nat.digitChar d).toUpper

theorem digitValue_digit : ∀ {d : Nat}, d < 16 → (digit d).digitValue = d := by decide

theorem isHexDigit_digit : ∀ {d : Nat}, d < 16 → (digit d).isHexDigit := by decide

theorem isDigit_digit : ∀ {d : Nat}, d < 10 → (digit d).isDigit := by decide

theorem exists_digitChar {base n : Nat} (hb : 1 < base) :
    ∀ c ∈ Nat.toDigits base n, ∃ d < base, c = Nat.digitChar d := by
  induction n using Nat.strongRecOn with
  | _ n ih =>
    intro c hc
    by_cases h : n < base
    · rw [Nat.toDigits_of_lt_base h, List.mem_singleton] at hc
      exact ⟨n, h, hc⟩
    · have hle : base ≤ n := Nat.le_of_not_lt h
      rw [Nat.toDigits_of_base_le hb hle] at hc
      rcases List.mem_append.1 hc with hc | hc
      · exact ih (n / base) (Nat.div_lt_self (by omega) hb) c hc
      · exact ⟨n % base, Nat.mod_lt n (by omega), List.mem_singleton.1 hc⟩

theorem exists_digit {base n : Nat} (hb : 1 < base) :
    ∀ c ∈ digits base n, ∃ d < base, c = digit d := by
  intro c hc
  obtain ⟨char, hchar, rfl⟩ := List.mem_map.1 hc
  obtain ⟨d, hd, rfl⟩ := exists_digitChar hb char hchar
  exact ⟨d, hd, rfl⟩

theorem isHexDigit_digits {base n : Nat} (hb : 1 < base) (h16 : base ≤ 16) :
    ∀ c ∈ digits base n, c.isHexDigit := by
  intro c hc
  obtain ⟨d, hd, rfl⟩ := exists_digit hb c hc
  exact isHexDigit_digit (by omega)

theorem isDigit_digits {n : Nat} : ∀ c ∈ digits 10 n, c.isDigit := by
  intro c hc
  obtain ⟨d, hd, rfl⟩ := exists_digit (by decide) c hc
  exact isDigit_digit hd

theorem digits_ne_nil (base n : Nat) : digits base n ≠ [] := by
  rw [digits, ne_eq, List.map_eq_nil_iff]
  exact Nat.toDigits_ne_nil

theorem length_digits_le {base n k : Nat} (hb : 1 < base) (hk : 0 < k) (h : n < base ^ k) :
    (digits base n).length ≤ k := by
  rw [digits, List.length_map]
  exact (Nat.length_toDigits_le_iff hb hk).2 h

/-! ## Their value -/

theorem valueOf_append (base : Nat) (t : Text) (c : CodePoint) :
    Numeral.valueOf base (t ++ [c]) = Numeral.valueOf base t * base + c.digitValue := by
  simp [Numeral.valueOf]

/-- Capitals or small letters: all that counts is the value of each digit. -/
theorem valueOf_toDigits {write : Char → CodePoint}
    (hwrite : ∀ d < 16, (write (Nat.digitChar d)).digitValue = d) {base : Nat} (hb : 1 < base)
    (h16 : base ≤ 16) (n : Nat) :
    Numeral.valueOf base ((Nat.toDigits base n).map write) = n := by
  induction n using Nat.strongRecOn with
  | _ n ih =>
    by_cases h : n < base
    · rw [Nat.toDigits_of_lt_base h]
      simp [Numeral.valueOf, hwrite n (by omega)]
    · have hle : base ≤ n := Nat.le_of_not_lt h
      have hmod : n % base < base := Nat.mod_lt n (by omega)
      rw [Nat.toDigits_of_base_le hb hle, List.map_append, List.map_singleton, valueOf_append,
        ih _ (Nat.div_lt_self (by omega) hb), hwrite _ (by omega), Nat.mul_comm]
      exact Nat.div_add_mod n base

theorem valueOf_digits {base : Nat} (hb : 1 < base) (h16 : base ≤ 16) (n : Nat) :
    Numeral.valueOf base (digits base n) = n :=
  valueOf_toDigits (fun _ => digitValue_digit) hb h16 n

/-! ## Zeros in front -/

theorem valueOf_padded (base width : Nat) (t : Text) :
    Numeral.valueOf base (padded width t) = Numeral.valueOf base t := by
  unfold padded
  induction width - t.length with
  | zero => rfl
  | succ k ih =>
    rw [List.replicate_succ, List.cons_append, Numeral.valueOf_cons, Numeral.digitValue_zero, ih]
    simp

theorem isHexDigit_padded {width : Nat} {t : Text} (h : ∀ c ∈ t, c.isHexDigit) :
    ∀ c ∈ padded width t, c.isHexDigit := by
  intro c hc
  rcases List.mem_append.1 hc with hc | hc
  · rw [List.eq_of_mem_replicate hc]
    decide
  · exact h c hc

theorem length_padded {width : Nat} {t : Text} (h : t.length ≤ width) :
    (padded width t).length = width := by
  simp [padded]
  omega

theorem padded_ne_nil {width : Nat} {t : Text} (h : t ≠ []) : padded width t ≠ [] := by
  simp [padded, h]

/-! ## Numbers that are not negative -/

theorem signed_natCast (n : Nat) (t : Text) : signed n t = t := if_neg (by omega)

theorem decimal_natCast (n : Nat) : decimal n = digits 10 n := signed_natCast n _

theorem hexadecimal_natCast (n : Nat) : hexadecimal n = digits 16 n := signed_natCast n _

theorem fourDigits_natCast (n : Nat) : fourDigits n = padded 4 (digits 16 n) := by
  rw [fourDigits, signed_natCast, if_neg (by omega), Int.natAbs_natCast]

theorem isHexDigit_fourDigits (n : Nat) : ∀ c ∈ fourDigits n, c.isHexDigit := by
  rw [fourDigits_natCast]
  exact isHexDigit_padded (isHexDigit_digits (by decide) (by decide))

theorem valueOf_fourDigits (n : Nat) : Numeral.valueOf 16 (fourDigits n) = n := by
  rw [fourDigits_natCast, valueOf_padded, valueOf_digits (by decide) (by decide)]

theorem length_fourDigits {n : Nat} (h : n ≤ 0xFFFF) : (fourDigits n).length = 4 := by
  have hlt : n < 16 ^ 4 := Nat.lt_of_le_of_lt h (by decide)
  rw [fourDigits_natCast, length_padded (length_digits_le (by decide) (by decide) hlt)]

/-! ## Signs -/

theorem mem_signed {n : Int} {t : Text} {c : CodePoint} (h : c ∈ signed n t) :
    c = '-' ∨ c ∈ t := by
  unfold signed at h
  split at h
  · exact List.mem_cons.1 h
  · exact .inr h

theorem minus_not_mem {t : Text} (h : ∀ c ∈ t, c.isHexDigit) : ('-' : CodePoint) ∉ t :=
  fun hmem => absurd (h _ hmem) (by decide)

theorem signed_inj {m n : Int} {t t' : Text} (ht : ∀ c ∈ t, c.isHexDigit)
    (ht' : ∀ c ∈ t', c.isHexDigit) (h : signed m t = signed n t') : (m < 0 ↔ n < 0) ∧ t = t' := by
  unfold signed at h
  by_cases hm : m < 0
  · by_cases hn : n < 0
    · simp only [hm, hn, if_true] at h
      exact ⟨by simp [hm, hn], (List.cons.inj h).2⟩
    · simp only [hm, hn, if_true, if_false] at h
      exact absurd (h ▸ List.mem_cons_self) (minus_not_mem ht')
  · by_cases hn : n < 0
    · simp only [hm, hn, if_true, if_false] at h
      exact absurd (h ▸ List.mem_cons_self) (minus_not_mem ht)
    · simp only [hm, hn, if_false] at h
      exact ⟨by simp [hm, hn], h⟩

theorem signed_digits_inj {base : Nat} (hb : 1 < base) (h16 : base ≤ 16) {m n : Int}
    (h : signed m (digits base m.natAbs) = signed n (digits base n.natAbs)) : m = n := by
  obtain ⟨hsign, hdigits⟩ :=
    signed_inj (isHexDigit_digits hb h16) (isHexDigit_digits hb h16) h
  have habs := congrArg (Numeral.valueOf base) hdigits
  rw [valueOf_digits hb h16, valueOf_digits hb h16] at habs
  omega

theorem not_mem_signed_digits {c : CodePoint} (hc : ¬ c.isHexDigit) (hminus : c ≠ '-') {base : Nat}
    (hb : 1 < base) (h16 : base ≤ 16) (n : Int) (k : Nat) : c ∉ signed n (digits base k) := by
  intro hmem
  rcases mem_signed hmem with rfl | hmem
  · exact hminus rfl
  · exact hc (isHexDigit_digits hb h16 c hmem)

/-! ## The `U+` form -/

theorem padded_digits_inj {width width' m n : Nat}
    (h : padded width (digits 16 m) = padded width' (digits 16 n)) : m = n := by
  have hvalue := congrArg (Numeral.valueOf 16) h
  rw [valueOf_padded, valueOf_padded, valueOf_digits (by decide) (by decide),
    valueOf_digits (by decide) (by decide)] at hvalue
  exact hvalue

theorem fourDigits_inj {m n : Int} (h : fourDigits m = fourDigits n) : m = n := by
  have hhex : ∀ width k, ∀ c ∈ padded width (digits 16 k), c.isHexDigit := fun _ _ =>
    isHexDigit_padded (isHexDigit_digits (by decide) (by decide))
  obtain ⟨hsign, hdigits⟩ := signed_inj (hhex _ _) (hhex _ _) h
  have habs := padded_digits_inj hdigits
  omega

theorem unicode_inj {m n : Int} : unicode m = unicode n ↔ m = n := by
  constructor
  · intro h
    exact fourDigits_inj (List.append_cancel_left h)
  · rintro rfl
    rfl

theorem unicode_ne_nil (n : Int) : unicode n ≠ [] := List.cons_ne_nil _ _

theorem mem_unicode {n : Int} {c : CodePoint} (h : c ∈ unicode n) :
    c ∈ Text.ofString "U+-" ∨ c.isHexDigit := by
  have hdigits : ∀ width, c ∈ padded width (digits 16 n.natAbs) → c.isHexDigit := fun _ hmem =>
    isHexDigit_padded (isHexDigit_digits (by decide) (by decide)) c hmem
  rcases List.mem_append.1 h with h | h
  · exact .inl (List.mem_append_left (Text.ofString "-") h)
  · rcases mem_signed h with rfl | h
    · exact .inl (by decide)
    · exact .inr (hdigits _ h)

end PlainForm.CharNumber

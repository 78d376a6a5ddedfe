import Mathlib.Algebra.Group.Nat.Defs
import Mathlib.Data.List.TakeWhile
import PlainForm.Numeral

/-!
# The numbers of numerals

A numeral that can be read has its value for a number, or else both are beyond Unicode. Only the
decimal digits of a numeral can be too many to be read.
-/

namespace PlainForm

/-- Giving up on a numeral that has too many digits. -/
def Failure.IsLongUnless (short : Prop) (f : Failure) : Prop := f = .longNumeral ∧ ¬ short

theorem Failure.IsLongUnless.mono {short short' : Prop} {f : Failure} (hf : f.IsLongUnless short)
    (h : short' → short) : f.IsLongUnless short' :=
  ⟨hf.1, fun hshort => hf.2 (h hshort)⟩

namespace Numeral

/-! ## Place values -/

theorem foldl_digits (base start : Nat) (digits : Text) :
    digits.foldl (fun value d => value * base + d.digitValue) start =
      start * base ^ digits.length + valueOf base digits := by
  induction digits generalizing start with
  | nil => simp [valueOf]
  | cons d digits ih =>
    rw [valueOf, List.foldl_cons, List.foldl_cons, ih, ih (0 * base + d.digitValue),
      List.length_cons, Nat.pow_succ, Nat.add_mul, Nat.mul_assoc, Nat.mul_comm base]
    simp [Nat.add_assoc]

theorem valueOf_cons (base : Nat) (d : CodePoint) (digits : Text) :
    valueOf base (d :: digits) = d.digitValue * base ^ digits.length + valueOf base digits := by
  rw [valueOf, List.foldl_cons, foldl_digits]
  simp

theorem digitValue_zero : ('0' : CodePoint).digitValue = 0 := by decide

theorem digitValue_pos {d : CodePoint} (h : d ≠ '0') : 0 < d.digitValue := by
  have hv : d.val ≠ 0x30 := fun he => h (by cases d; simp at he; subst he; rfl)
  unfold CodePoint.digitValue
  split
  · next hd =>
    simp only [CodePoint.isDigit, Bool.and_eq_true, decide_eq_true_eq] at hd
    omega
  · split <;> omega

theorem valueOf_dropWhile_zero (base : Nat) (digits : Text) :
    valueOf base (digits.dropWhile (· = '0')) = valueOf base digits := by
  induction digits with
  | nil => rfl
  | cons d digits ih =>
    rw [List.dropWhile_cons]
    split
    · next hd =>
      rw [ih, valueOf_cons, of_decide_eq_true hd, digitValue_zero]
      simp
    · rfl

theorem head_significantDigits_ne_zero {numeral : Numeral} {d : CodePoint}
    (h : numeral.significantDigits.head? = some d) : d ≠ '0' := by
  have hhead := List.head?_dropWhile_not (fun c : CodePoint => decide (c = '0')) numeral.digits
  rw [← significantDigits, h] at hhead
  simpa using hhead

theorem pow_le_value {numeral : Numeral} {k : Nat} (h : k < numeral.significantDigits.length) :
    numeral.radix.base ^ k ≤ numeral.value := by
  rw [value, ← valueOf_dropWhile_zero, ← significantDigits]
  cases hs : numeral.significantDigits with
  | nil => simp [hs] at h
  | cons d digits =>
    have hd : d ≠ '0' := head_significantDigits_ne_zero (by rw [hs, List.head?_cons])
    have hbase : 0 < numeral.radix.base := by cases numeral.radix <;> decide
    have hk : k ≤ digits.length := by rw [hs] at h; simp at h; omega
    rw [valueOf_cons]
    calc numeral.radix.base ^ k
        ≤ numeral.radix.base ^ digits.length := Nat.pow_le_pow_right hbase hk
      _ ≤ d.digitValue * numeral.radix.base ^ digits.length :=
        Nat.le_mul_of_pos_left _ (digitValue_pos hd)
      _ ≤ _ := Nat.le_add_right _ _

/-! ## Reading -/

/-- Few of the digits count, but all of them are too many. -/
def IsOverlong (numeral : Numeral) : Prop :=
  numeral.radix = .decimal ∧ 4300 < numeral.digits.length ∧ numeral.significantDigits.length ≤ 9

instance (numeral : Numeral) : Decidable numeral.IsOverlong :=
  inferInstanceAs (Decidable (_ ∧ _))

/-- A numeral of which more than nine digits count is not read digit by digit, so that it cannot be
overlong. -/
theorem number_eq (numeral : Numeral) : numeral.number =
    if numeral.IsOverlong then .error .longNumeral
    else .ok (if numeral.significantDigits.length ≤ 9 then numeral.value else 0xBADABAD) := by
  unfold number
  by_cases hfew : numeral.significantDigits.length ≤ 9
  · have hlimit : ¬ numeral.significantDigits.length > significantDigitLimit := Nat.not_lt.2 hfew
    have hlong : numeral.IsOverlong ↔
        numeral.radix = .decimal ∧ numeral.digits.length > decimalDigitLimit :=
      and_congr_right fun _ => and_iff_left hfew
    rw [if_neg hlimit, if_pos hfew]
    simp only [hlong]
  · have hlimit : numeral.significantDigits.length > significantDigitLimit := Nat.not_le.1 hfew
    have hread : ¬ numeral.IsOverlong := fun hlong => hfew hlong.2.2
    rw [if_pos hlimit, if_neg hread, if_neg hfew, tooLarge]

theorem number_eq_ok_iff {numeral : Numeral} {n : Nat} : numeral.number = .ok n ↔
    ¬ numeral.IsOverlong ∧
      n = if numeral.significantDigits.length ≤ 9 then numeral.value else 0xBADABAD := by
  rw [number_eq]
  split
  · next hlong => simp [hlong]
  · next hread => simp [hread, eq_comm]

theorem number_eq_error_iff {numeral : Numeral} {f : Failure} :
    numeral.number = .error f ↔ f = .longNumeral ∧ numeral.IsOverlong := by
  rw [number_eq]
  split
  · next hlong => simp [hlong, eq_comm]
  · next hread => simp [hread]

theorem number_eq_ok {numeral : Numeral} {n : Nat} (h : numeral.number = .ok n) :
    n = numeral.value ∨ 0x10FFFF < n ∧ 0x10FFFF < numeral.value := by
  obtain ⟨-, rfl⟩ := number_eq_ok_iff.1 h
  split
  · exact .inl rfl
  · next hmany =>
    have hpow := pow_le_value (Nat.not_le.1 hmany)
    have hbig : 0x10FFFF < numeral.radix.base ^ 9 := by cases numeral.radix <;> decide
    exact .inr ⟨by decide, hbig.trans_le hpow⟩

theorem ofNat?_number_eq_some {numeral : Numeral} {n : Nat} (h : numeral.number = .ok n)
    {c : CodePoint} : CodePoint.ofNat? n = some c ↔ numeral.value = c.val := by
  rw [CodePoint.ofNat?_eq_some]
  have := c.val_le
  rcases number_eq_ok h with rfl | ⟨hn, hv⟩
  · rfl
  · omega

def IsShort (numeral : Numeral) : Prop :=
  numeral.radix = .decimal → numeral.digits.length ≤ decimalDigitLimit

theorem isShort_hexadecimal (digits : Text) : IsShort ⟨.hexadecimal, digits⟩ := by
  intro hradix
  cases hradix

theorem IsShort.not_isOverlong {numeral : Numeral} (h : numeral.IsShort) :
    ¬ numeral.IsOverlong :=
  fun hlong => Nat.not_le.2 hlong.2.1 (h hlong.1)

theorem exists_number {numeral : Numeral} (h : numeral.IsShort) :
    ∃ n, numeral.number = .ok n :=
  ⟨_, number_eq_ok_iff.2 ⟨h.not_isOverlong, rfl⟩⟩

theorem number_eq_error {numeral : Numeral} {f : Failure} (h : numeral.number = .error f) :
    f.IsLongUnless numeral.IsShort := by
  obtain ⟨rfl, hlong⟩ := number_eq_error_iff.1 h
  exact ⟨rfl, fun hshort => hshort.not_isOverlong hlong⟩

theorem length_significantDigits_le_iff {digits : Text} {k : Nat} :
    (significantDigits ⟨.decimal, digits⟩).length ≤ k ↔ ∃ (zeros : Nat) (others : Text),
      digits = List.replicate zeros ('0' : CodePoint) ++ others ∧ others.length ≤ k := by
  constructor
  · intro h
    let zeros := digits.takeWhile fun d : CodePoint => d = '0'
    have hzeros : zeros = List.replicate zeros.length ('0' : CodePoint) := by
      rw [List.eq_replicate_iff]
      exact ⟨rfl, fun d hd => by simpa using List.mem_takeWhile_imp hd⟩
    refine ⟨zeros.length, significantDigits ⟨.decimal, digits⟩, ?_, h⟩
    rw [← hzeros]
    exact List.takeWhile_append_dropWhile.symm
  · rintro ⟨zeros, others, rfl, h⟩
    rw [significantDigits, List.dropWhile_append_of_pos (by simp)]
    exact (List.dropWhile_suffix _).length_le.trans h

end Numeral

end PlainForm

import Mathlib.Data.Nat.Digits.Defs
import PlainForm.Proofs.Numeral

/-!
# Numbers that are too large

What a numeral stands for is a matter of arithmetic: each digit counts for a power of the base. The
digits that are left without zeros in front are the digits of that value, so a numeral of many of
them stands for no character, and the number that takes the place of its value is none either.
-/

namespace PlainForm

/-! ## Digits -/

def Radix.isDigit : Radix → CodePoint → Bool
  | decimal => CodePoint.isDigit
  | hexadecimal => CodePoint.isHexDigit

theorem Radix.one_lt_base (radix : Radix) : 1 < radix.base := by cases radix <;> decide

theorem Radix.digitValue_lt {radix : Radix} {d : CodePoint} (h : radix.isDigit d) :
    d.digitValue < radix.base := by
  cases radix with
  | decimal =>
    have hd : d.isDigit := h
    simp only [CodePoint.digitValue, hd, if_true, Radix.base]
    simp only [CodePoint.isDigit, Bool.and_eq_true, decide_eq_true_eq] at hd
    omega
  | hexadecimal =>
    have hd : d.isHexDigit := h
    simp only [CodePoint.isHexDigit, CodePoint.isDigit, Bool.or_eq_true, Bool.and_eq_true,
      decide_eq_true_eq] at hd
    simp only [CodePoint.digitValue, CodePoint.isDigit, CodePoint.isUpper, Radix.base,
      Bool.and_eq_true, decide_eq_true_eq]
    split
    · omega
    · split <;> omega

namespace Numeral

/-- One digit or more, all of them of the base. -/
structure IsProper (numeral : Numeral) : Prop where
  ne_nil : numeral.digits ≠ []
  isDigit : ∀ d ∈ numeral.digits, numeral.radix.isDigit d

/-- The last digit counts once, each one before it as many times more as the base says. -/
def placeValue (numeral : Numeral) : Nat :=
  Nat.ofDigits numeral.radix.base (numeral.digits.reverse.map CodePoint.digitValue)

/-! ## Values -/

theorem valueOf_eq_ofDigits (base : Nat) (digits : Text) :
    valueOf base digits = Nat.ofDigits base (digits.reverse.map CodePoint.digitValue) := by
  induction digits with
  | nil => rfl
  | cons d digits ih =>
    rw [valueOf_cons, ih, List.reverse_cons, List.map_append, List.map_singleton,
      Nat.ofDigits_append, Nat.ofDigits_singleton, List.length_map, List.length_reverse]
    ring

theorem value_eq_placeValue (numeral : Numeral) : numeral.value = numeral.placeValue :=
  valueOf_eq_ofDigits _ _

theorem significantDigits_eq_digits {numeral : Numeral} (h : numeral.IsProper) :
    numeral.significantDigits.map CodePoint.digitValue =
      (Nat.digits numeral.radix.base numeral.placeValue).reverse := by
  have hvalue : numeral.placeValue = Nat.ofDigits numeral.radix.base
      (numeral.significantDigits.reverse.map CodePoint.digitValue) := by
    rw [← value_eq_placeValue, value, ← valueOf_dropWhile_zero, valueOf_eq_ofDigits,
      significantDigits]
  rw [hvalue, Nat.digits_ofDigits _ numeral.radix.one_lt_base, List.map_reverse,
    List.reverse_reverse]
  · intro value hmem
    obtain ⟨d, hd, rfl⟩ := List.mem_map.1 hmem
    have hsuffix : numeral.significantDigits <:+ numeral.digits := List.dropWhile_suffix _
    exact Radix.digitValue_lt (h.isDigit d (hsuffix.subset (List.mem_reverse.1 hd)))
  · intro hne
    have hne' : numeral.significantDigits ≠ [] := by simpa using hne
    have hhead := head_significantDigits_ne_zero (List.head?_eq_some_head hne')
    have hpos := digitValue_pos hhead
    simp only [List.map_reverse, List.getLast_reverse, List.head_map]
    omega

end Numeral

/-- What is given up on is a decimal numeral of too many digits, if no more than nine of them count.
Any other numeral has its value for a number, or `0xBADABAD` if more than nine digits count, so a
number up to the last code point is always the value. -/
theorem number_never_aliases {numeral : Numeral} (h : numeral.IsProper) :
    numeral.significantDigits.map CodePoint.digitValue =
      (Nat.digits numeral.radix.base numeral.placeValue).reverse ∧
    (∀ f, numeral.number = .error f ↔ f = .longNumeral ∧ numeral.radix = .decimal ∧
      4300 < numeral.digits.length ∧ numeral.significantDigits.length ≤ 9) ∧
    (∀ n, numeral.number = .ok n ↔
      ¬ (numeral.radix = .decimal ∧ 4300 < numeral.digits.length ∧
        numeral.significantDigits.length ≤ 9) ∧
      n = if numeral.significantDigits.length ≤ 9 then numeral.placeValue else 0xBADABAD) ∧
    ∀ n, numeral.number = .ok n →
      (n ≤ 0x10FFFF ↔ numeral.placeValue ≤ 0x10FFFF) ∧
        (n ≤ 0x10FFFF → n = numeral.placeValue) := by
  refine ⟨Numeral.significantDigits_eq_digits h, ?_⟩
  rw [← Numeral.value_eq_placeValue]
  refine ⟨fun _ => Numeral.number_eq_error_iff, fun _ => Numeral.number_eq_ok_iff, fun n hn => ?_⟩
  rcases Numeral.number_eq_ok hn with rfl | ⟨hlarge, hvalue⟩
  · exact ⟨Iff.rfl, fun _ => rfl⟩
  · exact ⟨by omega, by omega⟩

theorem number_never_aliases_zeros_and_overflow :
    (Numeral.IsProper ⟨.decimal, List.replicate 4300 ('0' : CodePoint) ++ "65"⟩ ∧
      Numeral.number ⟨.decimal, List.replicate 4300 ('0' : CodePoint) ++ "65"⟩ =
        .error .longNumeral) ∧
    Numeral.IsProper ⟨.hexadecimal, "0010000000041"⟩ ∧
      Numeral.number ⟨.hexadecimal, "0010000000041"⟩ = .ok 0xBADABAD ∧
      0x10FFFF < Numeral.placeValue ⟨.hexadecimal, "0010000000041"⟩ := by
  have hzeros : Numeral.IsProper ⟨.decimal, List.replicate 4300 ('0' : CodePoint) ++ "65"⟩ := by
    refine ⟨List.append_ne_nil_of_right_ne_nil _ (by decide), ?_⟩
    refine List.forall_mem_append.2 ⟨fun d hd => ?_, by decide⟩
    rw [List.eq_of_mem_replicate hd]
    rfl
  have hoverflow : Numeral.IsProper ⟨.hexadecimal, "0010000000041"⟩ := ⟨by decide, by decide⟩
  obtain ⟨-, hfails, -, -⟩ := number_never_aliases hzeros
  obtain ⟨-, -, hreads, hvalue⟩ := number_never_aliases hoverflow
  have hlarge := (hreads 0xBADABAD).2 ⟨by decide, by decide⟩
  refine ⟨⟨hzeros, (hfails _).2 ⟨rfl, rfl, ?_, ?_⟩⟩, hoverflow, hlarge, ?_⟩
  · rw [List.length_append, List.length_replicate]
    decide
  · exact Numeral.length_significantDigits_le_iff.2 ⟨4300, "65", rfl, by decide⟩
  · exact Nat.not_le.1 (mt (hvalue _ hlarge).1.2 (by decide))

end PlainForm

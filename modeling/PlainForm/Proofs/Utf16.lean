import PlainForm.Proofs.Decode.Spelling
import PlainForm.Proofs.WellFormed

/-!
# Numbers in 16-bit units

Encoding writes a number in one unit or in two. The units join to a text in which no surrogate
stands alone, and that text decodes to the numbers, with a question mark in place of each that is no
scalar value.
-/

namespace PlainForm

/-! ## The units of a number -/

namespace CharNumber

/-- The numbers below the surrogates, and those above them up to the last code point. -/
def IsScalarValue (n : Int) : Prop := 0 ≤ n ∧ n < 0xD800 ∨ 0xDFFF < n ∧ n ≤ 0x10FFFF

instance (n : Int) : Decidable (IsScalarValue n) :=
  inferInstanceAs (Decidable (0 ≤ n ∧ n < 0xD800 ∨ 0xDFFF < n ∧ n ≤ 0x10FFFF))

/-- What is written for a number: itself, or a question mark. -/
def orMark (n : Int) : Int := if IsScalarValue n then n else 0x3F

/-- The units of what is written for a number. Beyond 16 bits they are a high surrogate with the
upper ten bits of the offset and a low one with the lower ten. -/
def utf16 (n : Int) : List Int :=
  if orMark n ≤ 0xFFFF then [orMark n]
  else
    let offset := (n - 0x10000).toNat
    [(0xD800 + (offset >>> 10) : Nat), (0xDC00 + (offset &&& 0x3FF) : Nat)]

variable {n : Int}

theorem isScalar_iff_isScalarValue : isScalar n ↔ IsScalarValue n := by
  rw [isScalar_iff, IsScalarValue]
  omega

theorem orMark_of_scalar (h : IsScalarValue n) : orMark n = n := if_pos h

theorem orMark_of_not_scalar (h : ¬ IsScalarValue n) : orMark n = 0x3F := if_neg h

theorem isScalarValue_orMark (n : Int) : IsScalarValue (orMark n) := by
  by_cases h : IsScalarValue n
  · rwa [orMark_of_scalar h]
  · rw [orMark_of_not_scalar h]
    decide

end CharNumber

open CharNumber (IsScalarValue orMark utf16)

/-! ## The text of numbers -/

namespace Encode

variable {n : Int}

theorem number_char (n : Int) : ((char? n).getD .questionMark).number = orMark n := by
  by_cases h : IsScalarValue n
  · rw [char?, dif_pos (CharNumber.isScalar_iff_isScalarValue.2 h), CharNumber.orMark_of_scalar h,
      Option.getD_some]
    unfold IsScalarValue at h
    simp only [CodePoint.number]
    omega
  · rw [char?, dif_neg (mt CharNumber.isScalar_iff_isScalarValue.1 h),
      CharNumber.orMark_of_not_scalar h]
    rfl

theorem numbers_text (numbers : List Int) : (text numbers).numbers = numbers.map orMark := by
  simp [text, Text.numbers, number_char]

theorem isScalar_text (numbers : List Int) : (text numbers).IsScalar := by
  intro c hc
  obtain ⟨n, -, rfl⟩ := List.mem_map.1 hc
  have hscalar := CharNumber.isScalarValue_orMark n
  rw [← number_char n, IsScalarValue, CodePoint.number] at hscalar
  rw [CodePoint.isSurrogate_iff]
  omega

theorem problems_eq (numbers : List Int) :
    problems numbers = (numbers.filter (¬ IsScalarValue ·)).map .invalidCharNumber := by
  have hclass : ∀ n : Int, CharNumber.isScalar n = decide (IsScalarValue n) := fun n =>
    Bool.eq_iff_iff.2 (CharNumber.isScalar_iff_isScalarValue.trans decide_eq_true_iff.symm)
  simp only [problems, hclass, decide_not]

theorem units_char (n : Int) :
    Text.numbers ((char? n).getD .questionMark).units = utf16 n := by
  have hnumber := number_char n
  generalize (char? n).getD .questionMark = c at hnumber
  unfold utf16 CodePoint.units
  rw [← hnumber]
  by_cases hle : c.val ≤ 0xFFFF
  · have hle' : c.number ≤ 0xFFFF := by simp only [CodePoint.number]; omega
    rw [if_pos hle, if_pos hle']
    rfl
  · have hle' : ¬ c.number ≤ 0xFFFF := by simp only [CodePoint.number]; omega
    have hscalar : IsScalarValue n := by
      by_contra hn
      rw [CharNumber.orMark_of_not_scalar hn] at hnumber
      omega
    rw [CharNumber.orMark_of_scalar hscalar] at hnumber
    have hoffset : (n - 0x10000).toNat = c.val - 0x10000 := by
      simp only [CodePoint.number] at hnumber
      omega
    have hmask : (c.val - 0x10000) &&& 0x3FF = (c.val - 0x10000) % 0x400 :=
      Nat.and_two_pow_sub_one_eq_mod _ 10
    rw [if_neg hle, if_neg hle']
    simp only [hoffset, hmask, Nat.shiftRight_eq_div_pow]
    rfl

theorem units_text (numbers : List Int) :
    (text numbers).units.numbers = numbers.flatMap utf16 := by
  rw [text, Text.units, Text.numbers, List.flatMap_map, List.map_flatMap]
  exact congrArg numbers.flatMap (funext units_char)

end Encode

/-! ## Joining the units again -/

namespace Text

variable {t : Text}

theorem paired_units_char {c : CodePoint} (h : ¬ c.isSurrogate) (rest : Text) :
    paired (c.units ++ rest) = c :: paired rest := by
  by_cases hle : c.val ≤ 0xFFFF
  · rw [units_of_le hle]
    exact paired_alone fun _ _ hpair => h (CodePoint.isSurrogate_iff_high_or_low.2 (.inl hpair.1))
  · obtain ⟨high, low, hunits, hpair⟩ := CodePoint.units_eq_pair hle
    rw [hunits]
    exact paired_pair hpair rest

theorem paired_units (h : t.IsScalar) : paired t.units = t := by
  induction t with
  | nil => rfl
  | cons c t ih =>
    rw [units_cons, paired_units_char (h c List.mem_cons_self),
      ih fun d hd => h d (List.mem_cons_of_mem _ hd)]

theorem unit?_number {c : CodePoint} (h : c.val ≤ 0xFFFF) : unit? c.number = some c := by
  have hbounds : 0 ≤ c.number ∧ c.number ≤ 0xFFFF := by
    simp only [CodePoint.number]
    omega
  rw [unit?, dif_pos hbounds]
  rfl

theorem unitsOfNumbers_numbers (h : ∀ c ∈ t, c.val ≤ 0xFFFF) :
    unitsOfNumbers t.numbers = .ok t := by
  have hunits : t.numbers.mapM unit? = some t := by
    induction t with
    | nil => rfl
    | cons c t ih =>
      have hlater := ih fun d hd => h d (List.mem_cons_of_mem _ hd)
      rw [numbers, List.map_cons, List.mapM_cons, unit?_number (h c List.mem_cons_self),
        ← numbers, hlater]
      rfl
  rw [unitsOfNumbers, hunits]

theorem IsScalar.ofUnitsStrict (h : t.IsScalar) : ofUnitsStrict t.units.numbers = .ok t := by
  have hjoin : join? t.units = some t := by
    have hnone : t.any CodePoint.isSurrogate = false := by
      rw [List.any_eq_false]
      exact h
    rw [join?, paired_units h, hnone]
    rfl
  rw [Text.ofUnitsStrict, unitsOfNumbers_numbers fun c hc => le_of_mem_units hc]
  simp only [Except.bind, bind, hjoin]

end Text

theorem Encode.join_utf16 (numbers : List Int) :
    Text.ofUnitsStrict (numbers.flatMap utf16) = .ok (encode numbers).value := by
  rw [← units_text]
  exact (isScalar_text numbers).ofUnitsStrict

/-! ## There and back -/

/-- All numbers can be encoded: their units join to a text without surrogates, and each number that
is no scalar value is told, in order. The text decodes to the numbers, with question marks for
those, and there is nothing to be told. A text without surrogates decodes to numbers that encode to
it again. -/
theorem encode_decode_inverse :
    (∀ numbers : List Int,
      (encode numbers).value.units.numbers = numbers.flatMap utf16 ∧
      Text.ofUnitsStrict (numbers.flatMap utf16) = .ok (encode numbers).value ∧
      (encode numbers).value.IsScalar ∧
      (encode numbers).problems =
        (numbers.filter (¬ IsScalarValue ·)).map .invalidCharNumber ∧
      ∃ decoded, (encode numbers).value.decode {} = .ok decoded ∧
        decoded.value.numbers = numbers.map orMark ∧ decoded.problems = []) ∧
    ∀ t : Text, t.IsScalar → ∃ decoded, t.decode {} = .ok decoded ∧ decoded.problems = [] ∧
      encode decoded.value.numbers = ⟨t, []⟩ := by
  constructor
  · intro numbers
    have hunits := Encode.units_text numbers
    have hscalar := Encode.isScalar_text numbers
    exact ⟨hunits, Encode.join_utf16 numbers, hscalar, Encode.problems_eq numbers, _,
      hscalar.decode, Encode.numbers_text numbers, rfl⟩
  · intro t hscalar
    exact ⟨⟨t, []⟩, hscalar.decode, rfl, hscalar.encode⟩

/-- Numbers below and beyond the code points, the halves of a pair one after the other, and a text
with a character beyond 16 bits next to the last one within. -/
theorem encode_decode_inverse_mixed :
    let numbers : List Int := [-1, 0x41, 0xD83D, 0xDE00, 0x1F600, 0xFFFF, 0x110000]
    let t : Text := "\uFFFF😀?"
    Text.ofUnitsStrict [0x3F, 0x41, 0x3F, 0x3F, 0xD83D, 0xDE00, 0xFFFF, 0x3F] =
        .ok (encode numbers).value ∧
      (encode numbers).problems = [.invalidCharNumber (-1), .invalidCharNumber 0xD83D,
        .invalidCharNumber 0xDE00, .invalidCharNumber 0x110000] ∧
      t.IsScalar ∧ ∃ decoded, t.decode {} = .ok decoded ∧ decoded.problems = [] ∧
        encode decoded.value.numbers = ⟨t, []⟩ := by
  intro numbers t
  have hscalar : t.IsScalar := by decide
  obtain ⟨-, hjoin, -, hproblems, -⟩ := encode_decode_inverse.1 numbers
  exact ⟨hjoin, hproblems, hscalar, encode_decode_inverse.2 t hscalar⟩

end PlainForm

import PlainForm.Proofs.Decode.Unread
import PlainForm.Proofs.Utf16

/-!
# Surrogates that stand alone

Units spell a text exactly if all of them fit 16 bits and every surrogate among them is half of a
pair. Then they are the units of that text, and decoding has nothing to tell of it.
-/

namespace PlainForm

/-! ## Pairs by their places -/

namespace CharNumber

/-- A high surrogate stands at the index, and a low one right behind it. No number is both, so that
pairing up from the left takes just these. -/
def IsPairAt (units : List Int) (index : Nat) : Prop :=
  units[index]?.any isHighSurrogate ∧ units[index + 1]?.any isLowSurrogate

instance (units : List Int) (index : Nat) : Decidable (IsPairAt units index) :=
  inferInstanceAs (Decidable (_ ∧ _))

/-- The surrogate at the index is neither the first nor the second half of a pair. -/
def IsLoneAt (units : List Int) (index : Nat) : Prop :=
  units[index]?.any isSurrogate ∧ ¬ IsPairAt units index ∧
    ¬ (0 < index ∧ IsPairAt units (index - 1))

instance (units : List Int) (index : Nat) : Decidable (IsLoneAt units index) :=
  inferInstanceAs (Decidable (_ ∧ _))

variable {u v : Int} {rest : List Int} {index : Nat}

theorem isPairAt_zero : IsPairAt (u :: v :: rest) 0 ↔ isHighSurrogate u ∧ isLowSurrogate v :=
  Iff.rfl

theorem isPairAt_succ : IsPairAt (u :: rest) (index + 1) ↔ IsPairAt rest index := Iff.rfl

theorem not_isPairAt_low (h : isLowSurrogate u) : ¬ IsPairAt (u :: rest) 0 := by
  rintro ⟨hhigh, -⟩
  have hhigh : isHighSurrogate u := hhigh
  rw [isHighSurrogate_iff] at hhigh
  rw [isLowSurrogate_iff] at h
  omega

/-! ### Units that begin no pair -/

theorem isLoneAt_zero (h : ¬ IsPairAt (u :: rest) 0) :
    IsLoneAt (u :: rest) 0 ↔ isSurrogate u := by
  simp [IsLoneAt, h]

theorem isLoneAt_succ (h : ¬ IsPairAt (u :: rest) 0) :
    IsLoneAt (u :: rest) (index + 1) ↔ IsLoneAt rest index := by
  cases index with
  | zero => simp [IsLoneAt, isPairAt_succ, h]
  | succ index => simp [IsLoneAt, isPairAt_succ]

theorem exists_isLoneAt_alone (h : ¬ IsPairAt (u :: rest) 0) :
    (∃ index, IsLoneAt (u :: rest) index) ↔ isSurrogate u ∨ ∃ index, IsLoneAt rest index := by
  constructor
  · rintro ⟨index, hlone⟩
    cases index with
    | zero => exact .inl ((isLoneAt_zero h).1 hlone)
    | succ index => exact .inr ⟨index, (isLoneAt_succ h).1 hlone⟩
  · rintro (hu | ⟨index, hlone⟩)
    · exact ⟨0, (isLoneAt_zero h).2 hu⟩
    · exact ⟨index + 1, (isLoneAt_succ h).2 hlone⟩

/-! ### Pairs -/

theorem not_isLoneAt_first (h : IsPairAt (u :: v :: rest) 0) : ¬ IsLoneAt (u :: v :: rest) 0 :=
  fun hlone => hlone.2.1 h

theorem not_isLoneAt_second (h : IsPairAt (u :: v :: rest) 0) : ¬ IsLoneAt (u :: v :: rest) 1 :=
  fun hlone => hlone.2.2 ⟨Nat.one_pos, h⟩

theorem isLoneAt_behind (h : IsPairAt (u :: v :: rest) 0) :
    IsLoneAt (u :: v :: rest) (index + 2) ↔ IsLoneAt rest index := by
  have hfirst : IsLoneAt (u :: v :: rest) (index + 2) ↔ IsLoneAt (v :: rest) (index + 1) := by
    simp [IsLoneAt, IsPairAt]
  exact hfirst.trans (isLoneAt_succ (not_isPairAt_low (isPairAt_zero.1 h).2))

theorem exists_isLoneAt_pair (h : IsPairAt (u :: v :: rest) 0) :
    (∃ index, IsLoneAt (u :: v :: rest) index) ↔ ∃ index, IsLoneAt rest index := by
  constructor
  · rintro ⟨index, hlone⟩
    match index with
    | 0 => exact absurd hlone (not_isLoneAt_first h)
    | 1 => exact absurd hlone (not_isLoneAt_second h)
    | index + 2 => exact ⟨index, (isLoneAt_behind h).1 hlone⟩
  · rintro ⟨index, hlone⟩
    exact ⟨index + 2, (isLoneAt_behind h).2 hlone⟩

end CharNumber

open CharNumber (IsPairAt IsLoneAt)

theorem CodePoint.lonelyProblems_eq_nil {c : CodePoint} {next : Option CodePoint} :
    c.lonelyProblems next = [] ↔ ¬ c.isSurrogate := by
  rw [lonelyProblems, isSurrogate_iff_high_or_low]
  split <;> simp_all

/-! ## Pairing up from the left -/

namespace Text

variable {units t : Text} {u v c : CodePoint} {rest : Text}

theorem numbers_cons (c : CodePoint) (t : Text) : numbers (c :: t) = c.number :: t.numbers := rfl

/-- Pairing takes two units that make a pair, or else one unit. -/
theorem pairing_induction {motive : Text → Prop} (nil : motive [])
    (pair : ∀ u v c rest, CodePoint.ofPair? u v = some c →
      IsPairAt (numbers (u :: v :: rest)) 0 → motive rest → motive (u :: v :: rest))
    (alone : ∀ u rest, (∀ v ∈ rest.head?, ¬ (u.isHighSurrogate ∧ v.isLowSurrogate)) →
      ¬ IsPairAt (numbers (u :: rest)) 0 → motive rest → motive (u :: rest))
    (units : Text) : motive units := by
  induction units using paired.induct with
  | case1 => exact nil
  | case2 u => exact alone u [] (by simp) (by simp [IsPairAt, numbers]) nil
  | case3 u v rest c hpair ih => exact pair u v c rest hpair (CodePoint.halves_of_ofPair? hpair) ih
  | case4 u v rest hpair ih =>
    have hhalves := CodePoint.ofPair?_eq_none.1 hpair
    exact alone u (v :: rest) (by simpa using hhalves) hhalves ih

theorem units_ofPair? (h : CodePoint.ofPair? u v = some c) : c.units = [u, v] := by
  have hhalves := CodePoint.halves_of_ofPair? h
  rw [CodePoint.ofPair?, dif_pos hhalves] at h
  obtain rfl := Option.some.inj h
  obtain ⟨u, hu⟩ := u
  obtain ⟨v, hv⟩ := v
  simp only [CodePoint.isHighSurrogate_iff, CodePoint.isLowSurrogate_iff] at hhalves
  rw [CodePoint.units, if_neg (by dsimp only; omega)]
  simp only [List.cons.injEq, CodePoint.mk.injEq, and_true]
  omega

theorem units_paired (h : ∀ u ∈ units, u.val ≤ 0xFFFF) : (paired units).units = units := by
  induction units using pairing_induction with
  | nil => rfl
  | pair u v c rest hpair _ ih =>
    rw [paired_pair hpair, units_cons, units_ofPair? hpair,
      ih fun w hw => h w (List.mem_cons_of_mem _ (List.mem_cons_of_mem _ hw))]
    rfl
  | alone u rest halone _ ih =>
    rw [paired_alone halone, units_cons, units_of_le (h u List.mem_cons_self),
      ih fun w hw => h w (List.mem_cons_of_mem _ hw)]
    rfl

theorem any_isSurrogate_paired (units : Text) :
    (paired units).any CodePoint.isSurrogate ↔ ∃ index, IsLoneAt units.numbers index := by
  induction units using pairing_induction with
  | nil => simp [paired, IsLoneAt, numbers]
  | pair u v c rest hpair hat ih =>
    rw [paired_pair hpair, List.any_cons, CodePoint.isSurrogate_of_ofPair? hpair, Bool.false_or, ih]
    exact (CharNumber.exists_isLoneAt_pair hat).symm
  | alone u rest halone hat ih =>
    rw [paired_alone halone, List.any_cons, Bool.or_eq_true, ih]
    exact (CharNumber.exists_isLoneAt_alone hat).symm

theorem lonelyProblems_eq_nil (units : Text) :
    units.lonelyProblems = [] ↔ ¬ ∃ index, IsLoneAt units.numbers index := by
  induction units using pairing_induction with
  | nil => simp [lonelyProblems, IsLoneAt, numbers]
  | pair u v c rest hpair hat ih =>
    rw [lonelyProblems_pair hat, ih]
    exact not_congr (CharNumber.exists_isLoneAt_pair hat).symm
  | alone u rest halone hat ih =>
    rw [lonelyProblems_alone halone, List.append_eq_nil_iff, ih]
    refine Iff.trans ?_ (not_congr (CharNumber.exists_isLoneAt_alone hat).symm)
    rw [not_or, CodePoint.lonelyProblems_eq_nil]
    rfl

theorem join_eq_paired (h : units.lonelyProblems = []) (substitute : CodePoint) :
    units.join substitute = paired units := by
  have hnone : ∀ c ∈ paired units, ¬ c.isSurrogate := by
    rw [lonelyProblems_eq_nil, ← any_isSurrogate_paired, Bool.not_eq_true, List.any_eq_false] at h
    exact h
  have hsame : (paired units).map id = paired units := List.map_id _
  rw [join, ← hsame, List.map_map]
  exact List.map_congr_left fun c hc => if_neg (hnone c hc)

end Text

/-! ## Numbers that spell a text -/

namespace CharNumber

def FitsUnit (n : Int) : Prop := 0 ≤ n ∧ n ≤ 0xFFFF

instance (n : Int) : Decidable (FitsUnit n) := inferInstanceAs (Decidable (_ ∧ _))

end CharNumber

open CharNumber (FitsUnit)

namespace Text

variable {units t : Text} {numbers : List Int}

theorem exists_units (h : ∀ n ∈ numbers, FitsUnit n) :
    ∃ units : Text, units.numbers = numbers ∧ ∀ u ∈ units, u.val ≤ 0xFFFF := by
  induction numbers with
  | nil => exact ⟨[], rfl, by simp⟩
  | cons n numbers ih =>
    obtain ⟨units, rfl, hle⟩ := ih fun m hm => h m (List.mem_cons_of_mem _ hm)
    obtain ⟨hnonneg, hmax⟩ := h n List.mem_cons_self
    obtain ⟨k, rfl⟩ := Int.eq_ofNat_of_zero_le hnonneg
    exact ⟨⟨k, by omega⟩ :: units, rfl, List.forall_mem_cons.2 ⟨by dsimp only; omega, hle⟩⟩

theorem unit?_eq_none {n : Int} (h : ¬ FitsUnit n) : unit? n = none := dif_neg h

theorem unitsOfNumbers_eq_error (h : ¬ ∀ n ∈ numbers, FitsUnit n) :
    unitsOfNumbers numbers = .error .notAUnit := by
  have hnone : numbers.mapM unit? = none := by
    induction numbers with
    | nil => exact absurd (by simp) h
    | cons n numbers ih =>
      rw [List.mapM_cons]
      by_cases hn : FitsUnit n
      · rw [ih fun hlater => h (List.forall_mem_cons.2 ⟨hn, hlater⟩)]
        cases unit? n <;> rfl
      · rw [unit?_eq_none hn]
        rfl
  rw [unitsOfNumbers, hnone]

theorem ofUnitsStrict_numbers (h : ∀ u ∈ units, u.val ≤ 0xFFFF) :
    ofUnitsStrict units.numbers =
      if units.lonelyProblems = [] then .ok (paired units) else .error .loneSurrogate := by
  have hany : (paired units).any CodePoint.isSurrogate ↔ ¬ units.lonelyProblems = [] := by
    rw [any_isSurrogate_paired, lonelyProblems_eq_nil, not_not]
  rw [ofUnitsStrict, unitsOfNumbers_numbers h]
  simp only [Except.bind, bind, join?, hany]
  by_cases hnone : units.lonelyProblems = []
  · rw [if_neg (not_not.2 hnone), if_pos hnone]
  · rw [if_pos hnone, if_neg hnone]

theorem ofUnitsStrict_cases (numbers : List Int) :
    (ofUnitsStrict numbers = .error .notAUnit ∧ ¬ ∀ n ∈ numbers, FitsUnit n) ∨
    (ofUnitsStrict numbers = .error .loneSurrogate ∧ (∀ n ∈ numbers, FitsUnit n) ∧
      ∃ index, IsLoneAt numbers index) ∨
    ∃ t, ofUnitsStrict numbers = .ok t ∧ (∀ n ∈ numbers, FitsUnit n) ∧
      (∀ index, ¬ IsLoneAt numbers index) ∧ t.IsScalar ∧ t.units.numbers = numbers := by
  by_cases hfits : ∀ n ∈ numbers, FitsUnit n
  · obtain ⟨units, rfl, hle⟩ := exists_units hfits
    rw [ofUnitsStrict_numbers hle]
    by_cases hnone : units.lonelyProblems = []
    · have hnever := (lonelyProblems_eq_nil units).1 hnone
      have hscalar : (paired units).IsScalar := by
        rw [← join_eq_paired hnone .questionMark]
        exact isScalar_join (by decide) units
      exact .inr (.inr ⟨paired units, if_pos hnone, hfits, not_exists.1 hnever, hscalar,
        by rw [units_paired hle]⟩)
    · have hlone := not_not.1 (mt (lonelyProblems_eq_nil units).2 hnone)
      exact .inr (.inl ⟨if_neg hnone, hfits, hlone⟩)
  · refine .inl ⟨?_, hfits⟩
    rw [ofUnitsStrict, unitsOfNumbers_eq_error hfits]
    rfl

theorem ofUnitsStrict_eq_notAUnit :
    ofUnitsStrict numbers = .error .notAUnit ↔ ∃ n ∈ numbers, ¬ FitsUnit n := by
  obtain ⟨hjoin, hfits⟩ | ⟨hjoin, hfits, -⟩ | ⟨t, hjoin, hfits, -⟩ :=
    ofUnitsStrict_cases numbers <;> simpa [hjoin] using hfits

theorem ofUnitsStrict_eq_loneSurrogate : ofUnitsStrict numbers = .error .loneSurrogate ↔
    (∀ n ∈ numbers, FitsUnit n) ∧ ∃ index, IsLoneAt numbers index := by
  obtain ⟨hjoin, hfits⟩ | ⟨hjoin, hfits, hlone⟩ | ⟨t, hjoin, hfits, hlone, -⟩ :=
    ofUnitsStrict_cases numbers
  · rw [hjoin]
    exact iff_of_false (by simp) fun h => hfits h.1
  · exact iff_of_true hjoin ⟨hfits, hlone⟩
  · rw [hjoin]
    exact iff_of_false (by simp) fun h => not_exists.2 hlone h.2

theorem ofUnitsStrict_eq_ok :
    ofUnitsStrict numbers = .ok t ↔ t.IsScalar ∧ t.units.numbers = numbers := by
  constructor
  · intro hok
    obtain ⟨hjoin, -⟩ | ⟨hjoin, -⟩ | ⟨t', hjoin, -, -, hspells⟩ := ofUnitsStrict_cases numbers
    · cases hok.symm.trans hjoin
    · cases hok.symm.trans hjoin
    · cases hok.symm.trans hjoin
      exact hspells
  · rintro ⟨hscalar, rfl⟩
    exact hscalar.ofUnitsStrict

theorem ofUnitsStrict_units (t : Text) : ∃ decoded, t.decode {} = .ok decoded ∧
    ofUnitsStrict t.units.numbers =
      if decoded.problems = [] then .ok decoded.value else .error .loneSurrogate := by
  obtain ⟨decoded, hdecode⟩ := t.exists_decode
  refine ⟨decoded, hdecode, ?_⟩
  rw [ofUnitsStrict_numbers fun u hu => le_of_mem_units hu, problems_decode_plain hdecode]
  by_cases hnone : t.units.lonelyProblems = []
  · obtain ⟨hvalue, -⟩ := decode_of_nothingBegins (Decode.nothingBegins_plain _) hdecode
    rw [if_pos hnone, if_pos hnone, hvalue, join_eq_paired hnone]
  · rw [if_neg hnone, if_neg hnone]

end Text

/-- Numbers are the units of a text if all of them fit 16 bits and none is a surrogate that stands
alone. The text has no surrogates, and no other text without surrogates has these units. Where the
units of a text join to one, it is what the text decodes to with nothing to be told; where they do
not, decoding has something to tell. -/
theorem strict_join_inverse :
    (∀ numbers : List Int,
      (Text.ofUnitsStrict numbers = .error .notAUnit ↔ ∃ n ∈ numbers, ¬ FitsUnit n) ∧
      (Text.ofUnitsStrict numbers = .error .loneSurrogate ↔
        (∀ n ∈ numbers, FitsUnit n) ∧ ∃ index, IsLoneAt numbers index) ∧
      ((∃ t, Text.ofUnitsStrict numbers = .ok t) ↔
        (∀ n ∈ numbers, FitsUnit n) ∧ ∀ index, ¬ IsLoneAt numbers index) ∧
      ∀ t, Text.ofUnitsStrict numbers = .ok t ↔ t.IsScalar ∧ t.units.numbers = numbers) ∧
    ∀ t : Text, ∃ decoded, t.decode {} = .ok decoded ∧
      Text.ofUnitsStrict t.units.numbers =
        if decoded.problems = [] then .ok decoded.value else .error .loneSurrogate := by
  refine ⟨fun numbers => ⟨Text.ofUnitsStrict_eq_notAUnit, Text.ofUnitsStrict_eq_loneSurrogate, ?_,
    fun t => Text.ofUnitsStrict_eq_ok⟩, Text.ofUnitsStrict_units⟩
  obtain ⟨hjoin, hfits⟩ | ⟨hjoin, hfits, hlone⟩ | ⟨t, hjoin, hfits, hlone, -⟩ :=
    Text.ofUnitsStrict_cases numbers
  · rw [hjoin]
    exact iff_of_false (by simp) fun h => hfits h.1
  · rw [hjoin]
    exact iff_of_false (by simp) fun h => not_exists.2 h.2 hlone
  · exact iff_of_true ⟨t, hjoin⟩ ⟨hfits, hlone⟩

/-- The halves of a pair in the wrong order, one half too many in front of a pair, a number beyond
16 bits behind a lone half, and a text of two code points whose units are those of one character. -/
theorem strict_join_inverse_halves :
    let halves : Text := [⟨0xD83D, by decide⟩, ⟨0xDE00, by decide⟩]
    Text.ofUnitsStrict [0xDE00, 0xD83D] = .error .loneSurrogate ∧
      Text.ofUnitsStrict [0xD83D, 0xD83D, 0xDE00] = .error .loneSurrogate ∧
      Text.ofUnitsStrict [0xD83D, 0x10000] = .error .notAUnit ∧
      Text.ofUnitsStrict [0xD83D, 0xDE00] = .ok "😀" ∧
      ∃ decoded, halves.decode {} = .ok decoded ∧ Text.ofUnitsStrict halves.units.numbers =
        if decoded.problems = [] then .ok decoded.value else .error .loneSurrogate := by
  intro halves
  obtain ⟨-, horder, -⟩ := strict_join_inverse.1 [0xDE00, 0xD83D]
  obtain ⟨-, hfirst, -⟩ := strict_join_inverse.1 [0xD83D, 0xD83D, 0xDE00]
  obtain ⟨hbeyond, -⟩ := strict_join_inverse.1 [0xD83D, 0x10000]
  obtain ⟨-, -, -, hjoin⟩ := strict_join_inverse.1 [0xD83D, 0xDE00]
  exact ⟨horder.2 ⟨by decide, 0, by decide⟩, hfirst.2 ⟨by decide, 0, by decide⟩,
    hbeyond.2 ⟨0x10000, by decide⟩, (hjoin "😀").2 ⟨by decide, by decide⟩,
    strict_join_inverse.2 halves⟩

end PlainForm

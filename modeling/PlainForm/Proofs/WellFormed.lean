import PlainForm.Encode
import PlainForm.Proofs.Cut
import PlainForm.Proofs.Decode.Spec

/-!
# Well-formed rules

What a rule is like that was read from a line, or stands in the fallback table.
-/

namespace PlainForm

/-! ## Rules -/

def Target.WellFormed : Target → Prop
  | range low high => 0 ≤ low ∧ low ≤ high ∧ high ≤ 0x10FFFF
  | sequence numbers => numbers ≠ [] ∧ ∀ n ∈ numbers, CharNumber.isScalar n
  | brokenRange .. => False

theorem Target.WellFormed.isComplete {target : Target} (h : target.WellFormed) :
    target.IsComplete := by
  rintro bounds not_two rfl
  exact h

structure Rule.WellFormed (rule : Rule) : Prop where
  target : rule.target.WellFormed
  right : ∀ text ∈ rule.right, text.IsScalar
  accept : rule.action = .accept → rule.right = none
  replace : rule.action = .replace → rule.right ≠ none

/-! ## Scalar values -/

theorem CodePoint.isScalar_number {c : CodePoint} (h : ¬ c.isSurrogate) :
    CharNumber.isScalar c.number := by
  have hle := c.val_le
  rw [isSurrogate_iff] at h
  rw [CharNumber.isScalar_iff, number]
  omega

namespace Text

variable {t t' : Text}

instance (t : Text) : Decidable t.IsScalar :=
  inferInstanceAs (Decidable (∀ c ∈ t, ¬ c.isSurrogate))

theorem isScalar_nil : IsScalar [] := by simp [IsScalar]

theorem IsScalar.append (h : t.IsScalar) (h' : t'.IsScalar) : IsScalar (t ++ t') := by
  intro c hc
  rcases List.mem_append.1 hc with hc | hc
  · exact h c hc
  · exact h' c hc

theorem IsScalar.take (h : t.IsScalar) (length : Nat) : IsScalar (t.take length) :=
  fun c hc => h c (List.mem_of_mem_take hc)

theorem IsScalar.numbers (h : t.IsScalar) : ∀ n ∈ t.numbers, CharNumber.isScalar n := by
  intro n hn
  obtain ⟨c, hc, rfl⟩ := List.mem_map.1 hn
  exact CodePoint.isScalar_number (h c hc)

theorem exists_numbers {numbers : List Int} (h : ∀ n ∈ numbers, CharNumber.isScalar n) :
    ∃ t : Text, numbers = t.numbers ∧ t.IsScalar := by
  induction numbers with
  | nil => exact ⟨[], rfl, isScalar_nil⟩
  | cons n numbers ih =>
    obtain ⟨t, rfl, ht⟩ := ih fun m hm => h m (List.mem_cons_of_mem _ hm)
    have hn := CharNumber.isScalar_iff.1 (h n List.mem_cons_self)
    obtain ⟨k, rfl⟩ := Int.eq_ofNat_of_zero_le hn.1
    refine ⟨⟨k, by omega⟩ :: t, rfl, List.forall_mem_cons.2 ⟨?_, ht⟩⟩
    rw [CodePoint.isSurrogate_iff]
    dsimp only
    omega

theorem char?_number {c : CodePoint} (h : ¬ c.isSurrogate) : Encode.char? c.number = some c := by
  rw [Encode.char?, dif_pos (CodePoint.isScalar_number h)]
  simp

theorem isScalar_encode (numbers : List Int) : (encode numbers).value.IsScalar := by
  intro c hc
  obtain ⟨n, -, rfl⟩ := List.mem_map.1 hc
  by_cases hn : CharNumber.isScalar n
  · rw [Encode.char?, dif_pos hn, Option.getD_some, CodePoint.isSurrogate_iff]
    rw [CharNumber.isScalar_iff] at hn
    dsimp only
    omega
  · rw [Encode.char?, dif_neg hn]
    decide

theorem IsScalar.encode (h : t.IsScalar) : encode t.numbers = ⟨t, []⟩ := by
  have htext : Encode.text t.numbers = t := by
    have hchar : ∀ c ∈ t, (Encode.char? c.number).getD .questionMark = id c := by
      intro c hc
      simp only [char?_number (h c hc), Option.getD_some, id]
    unfold Encode.text Text.numbers
    rw [List.map_map]
    exact (List.map_congr_left hchar).trans (List.map_id t)
  have hproblems : Encode.problems t.numbers = [] := by
    unfold Encode.problems
    rw [List.filter_eq_nil_iff.2, List.map_nil]
    intro n hn
    simp [h.numbers n hn]
  rw [PlainForm.encode, htext, hproblems]

end Text

/-! ## The fallback -/

theorem Table.wellFormed_fallback : ∀ rule ∈ Table.fallback.rules, rule.WellFormed := by
  intro rule hrule
  obtain ⟨⟨number, plain⟩, hpair, rfl⟩ := List.mem_map.1 hrule
  have hall : ∀ pair ∈ Table.fallbackPairs,
      CharNumber.isScalar pair.1 ∧ ∀ c ∈ pair.2, ¬ c.isSurrogate := by decide
  obtain ⟨hscalar, hplain⟩ := hall _ hpair
  exact
    { target := by simpa [Target.WellFormed] using hscalar
      right := by simpa [Text.IsScalar] using hplain
      accept := by simp
      replace := by simp }

end PlainForm

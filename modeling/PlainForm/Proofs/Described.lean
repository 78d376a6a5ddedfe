import Mathlib.Data.List.Basic
import PlainForm.Proofs.Cut
import PlainForm.Proofs.Digits
import PlainForm.Proofs.Joined

/-!
# Different targets have different forms

The numbers of a target can be read off its `U+` forms, and what stands between them tells a range
from a sequence.
-/

namespace PlainForm.Target

theorem IsComplete.describe?_eq {target : Target} (h : target.IsComplete) :
    target.describe? = .ok target.describe := by
  cases target with
  | range | sequence => rfl
  | brokenRange bounds not_two => exact absurd rfl (h bounds not_two)

theorem mem_describe {target : Target} {c : CodePoint} (h : c ∈ target.describe) :
    c ∈ Text.ofString "U+- ." ∨ c.isHexDigit := by
  have hseparator : ∀ c ∈ if target.isRange then Text.ofString ".." else Text.ofString " ",
      c ∈ Text.ofString "U+- ." := by
    split <;> decide
  rcases Text.mem_joined h with h | ⟨form, hform, h⟩
  · exact .inl (hseparator c h)
  · obtain ⟨n, -, rfl⟩ := List.mem_map.1 hform
    exact (CharNumber.mem_unicode h).imp (List.mem_append_left (Text.ofString " .")) id

theorem describe_range (low high : Int) : (range low high).describe =
    Text.joined [('.' : CodePoint)] [CharNumber.unicode low, [], CharNumber.unicode high] := by
  have hperiods : Text.ofString ".." = [('.' : CodePoint)] ++ [('.' : CodePoint)] := rfl
  simp [describe, isRange, numbers, Text.joined_cons, hperiods]

theorem describe_sequence (numbers : List Int) : (sequence numbers).describe =
    Text.joined [(' ' : CodePoint)] (numbers.map CharNumber.unicode) := rfl

theorem period_not_mem_unicode (n : Int) : ('.' : CodePoint) ∉ CharNumber.unicode n :=
  fun h => absurd (CharNumber.mem_unicode h) (by decide)

theorem space_not_mem_unicode (n : Int) : (' ' : CodePoint) ∉ CharNumber.unicode n :=
  fun h => absurd (CharNumber.mem_unicode h) (by decide)

theorem period_mem_describe_range (low high : Int) :
    ('.' : CodePoint) ∈ (range low high).describe := by
  rw [describe_range, Text.joined_cons _ _ (List.cons_ne_nil _ _)]
  simp

theorem period_not_mem_describe_sequence (numbers : List Int) :
    ('.' : CodePoint) ∉ (sequence numbers).describe := by
  intro hmem
  rw [describe_sequence] at hmem
  rcases Text.mem_joined hmem with hmem | ⟨piece, hpiece, hmem⟩
  · revert hmem
    decide
  · obtain ⟨n, -, rfl⟩ := List.mem_map.1 hpiece
    exact period_not_mem_unicode n hmem

theorem describe_sequence_ne_nil {numbers : List Int} (h : numbers ≠ []) :
    (sequence numbers).describe ≠ [] := by
  obtain ⟨n, numbers, rfl⟩ := List.exists_cons_of_ne_nil h
  rw [describe_sequence, List.map_cons]
  cases numbers with
  | nil =>
    rw [List.map_nil, Text.joined_singleton]
    exact CharNumber.unicode_ne_nil n
  | cons m numbers =>
    rw [Text.joined_cons _ _ (by simp)]
    exact List.append_ne_nil_of_left_ne_nil (CharNumber.unicode_ne_nil n) _

theorem describe_range_inj {low high low' high' : Int}
    (h : (range low high).describe = (range low' high').describe) :
    range low high = range low' high' := by
  rw [describe_range, describe_range] at h
  have hpieces := Text.joined_inj (List.cons_ne_nil _ _) (List.cons_ne_nil _ _)
    (by simp [period_not_mem_unicode]) (by simp [period_not_mem_unicode]) h
  simp only [List.cons.injEq, CharNumber.unicode_inj, and_true, true_and] at hpieces
  rw [hpieces.1, hpieces.2]

theorem describe_sequence_inj {numbers others : List Int}
    (h : (sequence numbers).describe = (sequence others).describe) : numbers = others := by
  by_cases hnil : numbers = []
  · subst hnil
    by_contra hne
    exact describe_sequence_ne_nil (Ne.symm hne) h.symm
  · have hnil' : others ≠ [] := by
      rintro rfl
      exact describe_sequence_ne_nil hnil h
    have hspace : ∀ ns : List Int, ∀ piece ∈ ns.map CharNumber.unicode,
        (' ' : CodePoint) ∉ piece := by
      intro ns piece hpiece
      obtain ⟨n, -, rfl⟩ := List.mem_map.1 hpiece
      exact space_not_mem_unicode n
    have hpieces := Text.joined_inj (by simpa using hnil) (by simpa using hnil') (hspace numbers)
      (hspace others) h
    exact (List.map_inj_right fun _ _ => CharNumber.unicode_inj.1).1 hpieces

theorem describe_inj {a b : Target} {left : Text} (ha : a.describe? = .ok left)
    (hb : b.describe? = .ok left) : a = b := by
  cases a with
  | brokenRange => cases ha
  | range low high =>
    obtain rfl := Except.ok.inj ha
    cases b with
    | brokenRange => cases hb
    | range low' high' => exact describe_range_inj (Except.ok.inj hb).symm
    | sequence others =>
      have hmem := period_mem_describe_range low high
      rw [← Except.ok.inj hb] at hmem
      exact absurd hmem (period_not_mem_describe_sequence others)
  | sequence numbers =>
    obtain rfl := Except.ok.inj ha
    cases b with
    | brokenRange => cases hb
    | range low high =>
      have hmem := period_mem_describe_range low high
      rw [Except.ok.inj hb] at hmem
      exact absurd hmem (period_not_mem_describe_sequence numbers)
    | sequence others => rw [describe_sequence_inj (Except.ok.inj hb).symm]

end PlainForm.Target

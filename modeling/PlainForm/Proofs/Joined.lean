import PlainForm.Text

/-!
# Joined pieces

Pieces that stand one after the other with a separator between neighbours.
-/

namespace PlainForm.Text

variable {separator piece : Text} {pieces : List Text} {c : CodePoint}

@[simp] theorem joined_nil (separator : Text) : joined separator [] = [] := rfl

@[simp] theorem joined_singleton (separator piece : Text) : joined separator [piece] = piece := by
  simp [joined]

theorem joined_cons (separator piece : Text) (hne : pieces ≠ []) :
    joined separator (piece :: pieces) = piece ++ (separator ++ joined separator pieces) := by
  obtain ⟨next, pieces, rfl⟩ := List.exists_cons_of_ne_nil hne
  simp [joined]

theorem mem_joined (h : c ∈ joined separator pieces) :
    c ∈ separator ∨ ∃ piece ∈ pieces, c ∈ piece := by
  induction pieces with
  | nil => cases h
  | cons piece pieces ih =>
    by_cases hne : pieces = []
    · subst hne
      rw [joined_singleton] at h
      exact .inr ⟨piece, List.mem_cons_self, h⟩
    · rw [joined_cons separator piece hne] at h
      rcases List.mem_append.1 h with h | h
      · exact .inr ⟨piece, List.mem_cons_self, h⟩
      · rcases List.mem_append.1 h with h | h
        · exact .inl h
        · rcases ih h with h | ⟨other, hother, h⟩
          · exact .inl h
          · exact .inr ⟨other, List.mem_cons_of_mem _ hother, h⟩

theorem joined_inj {others : List Text} (hne : pieces ≠ []) (hne' : others ≠ [])
    (h : ∀ piece ∈ pieces, c ∉ piece) (h' : ∀ piece ∈ others, c ∉ piece)
    (heq : joined [c] pieces = joined [c] others) : pieces = others := by
  have hsplit : (joined [c] pieces).splitOn c = pieces := List.splitOn_intercalate c h hne
  have hsplit' : (joined [c] others).splitOn c = others := List.splitOn_intercalate c h' hne'
  rw [← hsplit, heq, hsplit']

end PlainForm.Text

import PlainForm.Proofs.LineEnds
import PlainForm.Proofs.ShortRuns

/-!
# Lines stand in their text

Cutting a text into lines takes parts out of it and changes none of them. What holds of every part
of a text, such as having no long run of digits, holds of its lines.
-/

namespace PlainForm.Text

variable {t line : Text}

theorem dropLineFeed_suffix (t : Text) : dropLineFeed t <:+ t := by
  cases t with
  | nil => exact List.suffix_rfl
  | cons c rest =>
    rw [dropLineFeed]
    split
    · exact List.suffix_cons c rest
    · exact List.suffix_rfl

theorem dropMark_suffix (t : Text) : dropMark t <:+ t := by
  cases t with
  | nil => exact List.suffix_rfl
  | cons c rest =>
    rw [dropMark]
    split
    · exact List.suffix_cons c rest
    · exact List.suffix_rfl

/-- Pieces of the text. The first stands at its start, so that a further character may be put in
front of both. -/
def AreParts (pieces : List Text) (t : Text) : Prop :=
  ∃ first others, pieces = first :: others ∧ first <+: t ∧ ∀ piece ∈ others, piece <:+: t

theorem AreParts.lineEnd {pieces : List Text} {rest : Text} (h : AreParts pieces rest)
    (hrest : rest <:+ t) : AreParts ([] :: pieces) t := by
  obtain ⟨first, others, rfl, hfirst, hothers⟩ := h
  refine ⟨[], first :: others, rfl, List.nil_prefix, List.forall_mem_cons.2 ⟨?_, ?_⟩⟩
  · exact hfirst.isInfix.trans hrest.isInfix
  · exact fun piece hpiece => (hothers piece hpiece).trans hrest.isInfix

theorem AreParts.cons {pieces : List Text} (h : AreParts pieces t) (c : CodePoint) :
    AreParts (pieces.modifyHead (c :: ·)) (c :: t) := by
  obtain ⟨first, others, rfl, hfirst, hothers⟩ := h
  refine ⟨c :: first, others, rfl, List.cons_prefix_cons.2 ⟨rfl, hfirst⟩, ?_⟩
  exact fun piece hpiece => (hothers piece hpiece).trans (List.suffix_cons c t).isInfix

theorem areParts_pieces (t : Text) : AreParts (pieces t) t := by
  fun_induction pieces t with
  | case1 => exact ⟨[], [], rfl, List.prefix_rfl, by simp⟩
  | case2 rest ih => exact ih.lineEnd ((dropLineFeed_suffix rest).trans (List.suffix_cons _ rest))
  | case3 rest _ ih => exact ih.lineEnd (List.suffix_cons _ rest)
  | case4 c rest _ _ ih => exact ih.cons c

theorem infix_of_mem_lines (h : line ∈ t.lines) : line <:+: t := by
  have hpiece := mem_pieces_of_mem_lines h
  obtain ⟨first, others, heq, hfirst, hothers⟩ := areParts_pieces t.dropMark
  have hinfix : line <:+: t.dropMark := by
    rw [heq] at hpiece
    rcases List.mem_cons.1 hpiece with rfl | hmem
    · exact hfirst.isInfix
    · exact hothers line hmem
  exact hinfix.trans (dropMark_suffix t).isInfix

theorem HasShortRuns.of_mem_lines (h : t.HasShortRuns) (hline : line ∈ t.lines) :
    line.HasShortRuns :=
  h.of_infix (infix_of_mem_lines hline)

theorem getElem?_of_mem_zipIdx {lines : List Text} {number : Nat}
    (h : (line, number) ∈ lines.zipIdx 1) :
    1 ≤ number ∧ number ≤ lines.length ∧ lines[number - 1]? = some line := by
  obtain ⟨hle, hget⟩ := List.mk_mem_zipIdx_iff_le_and_getElem?_sub.1 h
  obtain ⟨hlt, -⟩ := List.getElem?_eq_some_iff.1 hget
  exact ⟨hle, by omega, hget⟩

end PlainForm.Text

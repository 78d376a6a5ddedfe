import Mathlib.Data.List.Basic

/-!
# Codes

Items are written one behind the other, each in a form of its own. If no form begins another one's,
then what was written can be cut up in one way only.
-/

namespace PlainForm

variable {α β : Type} {form : α → List β} {p : α → Prop} {xs ys : List α} {rest later : List β}

/-- Among the items with a property, what begins with the form of one does not begin with that of
another. -/
def IsCode (p : α → Prop) (form : α → List β) : Prop :=
  ∀ a b, p a → p b → ∀ x y, form a ++ x = form b ++ y → a = b

theorem append_mark_inj {mark : β} {front front' : List β} (h : mark ∉ front) (h' : mark ∉ front')
    (heq : front ++ mark :: rest = front' ++ mark :: later) : front = front' ∧ rest = later := by
  rcases List.append_eq_append_iff.1 heq with ⟨between, rfl, hbetween⟩ | ⟨between, rfl, hbetween⟩
  all_goals cases between with
  | nil => simpa [eq_comm] using hbetween
  | cons b between =>
    obtain ⟨rfl, -⟩ := List.cons.inj hbetween
    simp at h h'

theorem IsCode.of_delimited (front : List β) {mark : β} {body : α → List β}
    (hmark : ∀ a, mark ∉ body a) (hinj : ∀ a b, body a = body b → a = b) :
    IsCode p fun a => front ++ body a ++ [mark] := by
  intro a b _ _ x y h
  simp only [List.append_assoc, List.singleton_append] at h
  exact hinj a b (append_mark_inj (hmark a) (hmark b) (List.append_cancel_left h)).1

/-- Two readings of the same agree as far as one of them goes, if the other one stops where no form
begins. -/
theorem IsCode.prefix_of_flatMap (hcode : IsCode p form) (hx : ∀ a ∈ xs, p a) (hy : ∀ b ∈ ys, p b)
    (hrest : ∀ b ∈ ys, ¬ form b <+: rest) (h : xs.flatMap form ++ rest = ys.flatMap form ++ later) :
    ys <+: xs := by
  induction ys generalizing xs with
  | nil => exact List.nil_prefix
  | cons b ys ih =>
    obtain ⟨hb, hys⟩ := List.forall_mem_cons.1 hy
    obtain ⟨hbrest, hrests⟩ := List.forall_mem_cons.1 hrest
    cases xs with
    | nil =>
      rw [List.flatMap_nil, List.nil_append, List.flatMap_cons, List.append_assoc] at h
      exact absurd ⟨_, h.symm⟩ hbrest
    | cons a xs =>
      obtain ⟨ha, hxs⟩ := List.forall_mem_cons.1 hx
      rw [List.flatMap_cons, List.flatMap_cons, List.append_assoc, List.append_assoc] at h
      obtain rfl := hcode a b ha hb _ _ h
      exact List.cons_prefix_cons.2 ⟨rfl, ih hxs hys hrests (List.append_cancel_left h)⟩

theorem IsCode.flatMap_inj (hcode : IsCode p form) (hx : ∀ a ∈ xs, p a) (hy : ∀ b ∈ ys, p b)
    (hstop : ∀ a ∈ xs, ¬ form a <+: later) (hrest : ∀ b ∈ ys, ¬ form b <+: rest)
    (h : xs.flatMap form ++ rest = ys.flatMap form ++ later) : xs = ys :=
  (hcode.prefix_of_flatMap hy hx hstop h.symm).eq_of_length_le
    (hcode.prefix_of_flatMap hx hy hrest h).length_le

end PlainForm

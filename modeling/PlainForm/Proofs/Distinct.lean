import PlainForm.Proofs.Codes
import PlainForm.Proofs.Escaping
import PlainForm.Proofs.Utf16

/-!
# Notations that tell numbers apart

A notation writes each number between marks, or in such a way that it can be decoded. Either way
different numbers are written differently, also where the digits of one could be taken for those of
another.
-/

namespace PlainForm

open CharNumber (IsShort IsScalarValue)

/-- The actions that write number by number, with the same marks around each. -/
def Action.notations : List Action :=
  [.decimal, .hexadecimal, .octal, .unicode, .xmlDecimal, .xmlHexadecimal]

variable {action : Action} {numbers others : List Int}

/-! ## Marked numbers -/

namespace Render

/-- Short numbers are written one by one, and their forms are a code. -/
def IsCoded (action : Action) : Prop :=
  ∃ form : Int → Text, IsCode (fun _ => True) form ∧ (∀ n, form n ≠ []) ∧
    ∀ target right numbers, (∀ n ∈ numbers, IsShort n) →
      builtin ⟨action, target, right⟩ numbers = .ok { text := numbers.flatMap form }

variable {mark : CodePoint}

theorem isCoded_of_marks (front : Text) (body : Int → Text) (haction : action ≠ .accept)
    (hmakes : ∀ target right numbers, (∀ n ∈ numbers, IsShort n) →
      Rule.Makes ⟨action, target, right⟩ numbers
        { text := numbers.flatMap fun n => front ++ body n ++ [mark] })
    (hmark : ∀ n, mark ∉ body n) (hinj : ∀ m n, body m = body n → m = n) : IsCoded action := by
  refine ⟨fun n => front ++ body n ++ [mark], .of_delimited front hmark hinj, by simp, ?_⟩
  intro target right numbers hshort
  exact (builtin_eq_ok_iff haction).2 (hmakes target right numbers hshort)

theorem isCoded_of_digits (front : Text) {base : Nat} (hbase : 1 < base ∧ base ≤ 16)
    (hmark : ¬ mark.isHexDigit ∧ mark ≠ '-') (haction : action ≠ .accept)
    (hmakes : ∀ target right numbers, (∀ n ∈ numbers, IsShort n) →
      Rule.Makes ⟨action, target, right⟩ numbers ⟨numbers.flatMap fun n =>
        front ++ CharNumber.signed n (CharNumber.digits base n.natAbs) ++ [mark], []⟩) :
    IsCoded action :=
  isCoded_of_marks front _ haction hmakes
    (fun n => CharNumber.not_mem_signed_digits hmark.1 hmark.2 hbase.1 hbase.2 n _)
    fun _ _ => CharNumber.signed_digits_inj hbase.1 hbase.2

theorem isCoded (h : action ∈ Action.notations) : IsCoded action := by
  have hgreater : ¬ CodePoint.isHexDigit '>' ∧ ('>' : CodePoint) ≠ '-' := by decide
  have hsemicolon : ¬ CodePoint.isHexDigit ';' ∧ (';' : CodePoint) ≠ '-' := by decide
  cases action with
  | decimal =>
    refine isCoded_of_digits "<" (by decide : 1 < 10 ∧ 10 ≤ 16) hgreater (by decide) ?_
    intro target right numbers hshort
    exact ⟨hshort, rfl⟩
  | xmlDecimal =>
    refine isCoded_of_digits "&#" (by decide : 1 < 10 ∧ 10 ≤ 16) hsemicolon (by decide) ?_
    intro target right numbers hshort
    exact ⟨hshort, rfl⟩
  | octal =>
    exact isCoded_of_digits "<" (by decide : 1 < 8 ∧ 8 ≤ 16) hgreater (by decide)
      fun _ _ _ _ => rfl
  | hexadecimal =>
    exact isCoded_of_digits "<" (by decide : 1 < 16 ∧ 16 ≤ 16) hgreater (by decide)
      fun _ _ _ _ => rfl
  | xmlHexadecimal =>
    exact isCoded_of_digits "&#x" (by decide : 1 < 16 ∧ 16 ≤ 16) hsemicolon (by decide)
      fun _ _ _ _ => rfl
  | unicode =>
    refine isCoded_of_marks "<" CharNumber.unicode (by decide) (fun _ _ _ _ => rfl) ?_
      fun _ _ => CharNumber.unicode_inj.1
    intro n hmem
    rcases CharNumber.mem_unicode hmem with hmem | hmem
    · exact absurd hmem (by decide)
    · exact hgreater.1 hmem
  | accept | replace | custom | utf16 => exact absurd h (by decide)

end Render

theorem Escapes.unique {written : List Int} (h : Escapes numbers written)
    (h' : Escapes others written) : numbers = others := by
  obtain ⟨t, out, rfl, rfl, -, hspells⟩ := h
  obtain ⟨t', out', rfl, hout, -, hspells'⟩ := h'
  obtain rfl : out = out' := Text.numbers_inj.1 hout
  have hread := hspells.decode.symm.trans hspells'.decode
  rw [(Noted.mk.inj (Except.ok.inj hread)).1]

/-! ## Renderings -/

namespace Render

def Differ (rule other : Rule) (numbers others : List Int) : Prop :=
  ∃ fragment fragment', builtin rule numbers = .ok fragment ∧
    builtin other others = .ok fragment' ∧ fragment.text ≠ fragment'.text

variable {rule other : Rule}

theorem differ_of_notation (h : rule.action ∈ Action.notations)
    (hsame : rule.action = other.action) (hne : numbers ≠ others)
    (hnumbers : ∀ n ∈ numbers, IsShort n) (hothers : ∀ n ∈ others, IsShort n) :
    Differ rule other numbers others := by
  obtain ⟨action, target, right⟩ := rule
  obtain ⟨action', target', right'⟩ := other
  obtain rfl : action = action' := hsame
  obtain ⟨form, hcode, hfilled, hrender⟩ := isCoded h
  refine ⟨_, _, hrender target right numbers hnumbers, hrender target' right' others hothers, ?_⟩
  intro htext
  have hempty : ∀ n, ¬ form n <+: [] := fun n hnil => hfilled n (List.prefix_nil.1 hnil)
  refine hne (hcode.flatMap_inj (fun _ _ => trivial) (fun _ _ => trivial) (fun n _ => hempty n)
    (fun n _ => hempty n) ?_)
  rw [List.append_nil, List.append_nil]
  exact htext

theorem differ_of_units (h : rule.action = .utf16) (hsame : rule.action = other.action)
    (hne : numbers ≠ others) (hnumbers : ∀ n ∈ numbers, IsScalarValue n)
    (hothers : ∀ n ∈ others, IsScalarValue n) : Differ rule other numbers others := by
  have hescapes : ∀ {rule : Rule} {numbers : List Int}, rule.action = .utf16 →
      (∀ n ∈ numbers, IsScalarValue n) →
      ∃ fragment, builtin rule numbers = .ok fragment ∧ Escapes numbers fragment.text.numbers := by
    intro rule numbers haction hscalars
    obtain ⟨t, rfl, hscalar⟩ := Text.exists_numbers fun n hn =>
      CharNumber.isScalar_iff_isScalarValue.2 (hscalars n hn)
    have haccept : rule.action ≠ .accept := by rw [haction]; decide
    obtain ⟨fragment, hmakes⟩ := Rule.exists_makes haccept t.isShort_numbers
    exact ⟨fragment, (builtin_eq_ok_iff haccept).2 hmakes,
      .of_makes (by rw [haction]; decide) hscalar hmakes⟩
  obtain ⟨fragment, hfragment, hwritten⟩ := hescapes h hnumbers
  obtain ⟨fragment', hfragment', hwritten'⟩ := hescapes (hsame ▸ h) hothers
  refine ⟨fragment, fragment', hfragment, hfragment', fun htext => hne ?_⟩
  rw [htext] at hwritten
  exact hwritten.unique hwritten'

end Render

/-- Two rules with the same notation never render different numbers alike, be the numbers negative,
surrogates or beyond Unicode, and however many there are. The escapes of 16-bit units tell scalar
values apart; all other numbers are question marks to them. -/
theorem renderings_differ (rule other : Rule) (hsame : rule.action = other.action)
    (numbers others : List Int) (hne : numbers ≠ others) :
    (rule.action ∈ Action.notations → (∀ n ∈ numbers ++ others, IsShort n) →
      Render.Differ rule other numbers others) ∧
    (rule.action = .utf16 → (∀ n ∈ numbers ++ others, IsScalarValue n) →
      Render.Differ rule other numbers others) := by
  constructor
  · intro haction hshort
    obtain ⟨hnumbers, hothers⟩ := List.forall_mem_append.1 hshort
    exact Render.differ_of_notation haction hsame hne hnumbers hothers
  · intro haction hscalar
    obtain ⟨hnumbers, hothers⟩ := List.forall_mem_append.1 hscalar
    exact Render.differ_of_units haction hsame hne hnumbers hothers

/-- The same digits in the same order, once with the sign of -1 and once with that of -0x12; and the
same characters, one of which has two units, in another order. -/
theorem renderings_differ_same_digits :
    let hexadecimal : Rule := ⟨.hexadecimal, .range (-0x12) 0x23, none⟩
    let utf16 : Rule := ⟨.utf16, .sequence [], some "x"⟩
    (∀ n ∈ [-1, 0x23] ++ [-0x12, 3], IsShort n) ∧
      Render.Differ hexadecimal hexadecimal [-1, 0x23] [-0x12, 3] ∧
      (∀ n ∈ [0x1F600, 0x31] ++ [0x31, 0x1F600], IsScalarValue n) ∧
      Render.Differ utf16 utf16 [0x1F600, 0x31] [0x31, 0x1F600] := by
  intro hexadecimal utf16
  have hshort : ∀ n ∈ [-1, 0x23] ++ [-0x12, 3], IsShort n := by
    intro n hn
    have h3 : n.natAbs < 10 ^ 3 := by simp at hn; omega
    exact Nat.lt_of_lt_of_le h3 (Nat.pow_le_pow_right (by decide) (by decide))
  have hscalar : ∀ n ∈ [0x1F600, 0x31] ++ [0x31, 0x1F600], IsScalarValue n := by decide
  exact ⟨hshort,
    (renderings_differ hexadecimal hexadecimal rfl _ _ (by decide)).1 (by decide) hshort, hscalar,
    (renderings_differ utf16 utf16 rfl _ _ (by decide)).2 rfl hscalar⟩

end PlainForm

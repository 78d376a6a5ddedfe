import PlainForm.Proofs.Digits
import PlainForm.Proofs.Joined
import PlainForm.Substitution

/-!
# Plain renderings

Numbers are written in printable ASCII, in whatever form. So is all that is put in place of a match,
but for the right side of the rule.
-/

namespace PlainForm

/-! ## Printable ASCII -/

namespace CodePoint

def isPlain (c : CodePoint) : Bool := 0x20 ≤ c.val && c.val ≤ 0x7E

theorem isPlain_of_isHexDigit {c : CodePoint} (h : c.isHexDigit) : c.isPlain := by
  simp only [isHexDigit, isDigit, isPlain, Bool.or_eq_true, Bool.and_eq_true,
    decide_eq_true_eq] at *
  omega

theorem not_isSurrogate_of_isPlain {c : CodePoint} (h : c.isPlain) : ¬ c.isSurrogate := by
  rw [isSurrogate_iff]
  simp only [isPlain, Bool.and_eq_true, decide_eq_true_eq] at h
  omega

end CodePoint

namespace Text

variable {t t' : Text}

def IsPlain (t : Text) : Prop := ∀ c ∈ t, c.isPlain

instance (t : Text) : Decidable t.IsPlain := inferInstanceAs (Decidable (∀ c ∈ t, c.isPlain))

theorem isPlain_singleton {c : CodePoint} (h : c.isPlain) : IsPlain [c] := by
  simpa [IsPlain] using h

theorem isPlain_of_hexDigits (h : ∀ c ∈ t, c.isHexDigit) : t.IsPlain :=
  fun c hc => CodePoint.isPlain_of_isHexDigit (h c hc)

theorem IsPlain.append (h : t.IsPlain) (h' : t'.IsPlain) : IsPlain (t ++ t') := by
  intro c hc
  rcases List.mem_append.1 hc with hc | hc
  · exact h c hc
  · exact h' c hc

theorem isPlain_flatMap {write : CodePoint → Text} (h : ∀ c ∈ t, (write c).IsPlain) :
    IsPlain (t.flatMap write) := by
  intro c hc
  obtain ⟨d, hd, hc⟩ := List.mem_flatMap.1 hc
  exact h d hd c hc

end Text

namespace CharNumber

open Text (IsPlain isPlain_singleton isPlain_of_hexDigits)

theorem isPlain_signed (n : Int) {t : Text} (h : t.IsPlain) : (signed n t).IsPlain := by
  unfold signed
  split
  · exact (isPlain_singleton (c := '-') (by decide)).append h
  · exact h

theorem isPlain_digits {base : Nat} (hb : 1 < base) (h16 : base ≤ 16) (n : Nat) :
    (digits base n).IsPlain :=
  isPlain_of_hexDigits (isHexDigit_digits hb h16)

theorem isPlain_decimal (n : Int) : (decimal n).IsPlain :=
  isPlain_signed n (isPlain_digits (by decide) (by decide) _)

theorem isPlain_of_decimal? {n : Int} {t : Text} (h : decimal? n = .ok t) : t.IsPlain := by
  unfold decimal? at h
  split at h
  · cases h
    exact isPlain_decimal n
  · cases h

theorem isPlain_hexadecimal (n : Int) : (hexadecimal n).IsPlain :=
  isPlain_signed n (isPlain_digits (by decide) (by decide) _)

theorem isPlain_octal (n : Int) : (octal n).IsPlain :=
  isPlain_signed n (isPlain_digits (by decide) (by decide) _)

theorem isPlain_fourDigits (n : Int) : (fourDigits n).IsPlain :=
  isPlain_signed n (isPlain_of_hexDigits
    (isHexDigit_padded (isHexDigit_digits (by decide) (by decide))))

theorem isPlain_unicode (n : Int) : (unicode n).IsPlain :=
  IsPlain.append (by decide) (isPlain_fourDigits n)

end CharNumber

/-! ## Renderings -/

namespace Render

open Text (IsPlain)

theorem isPlain_bracketed {form : Text} (h : form.IsPlain) : (bracketed form).IsPlain :=
  (IsPlain.append (by decide) h).append (by decide)

theorem isPlain_each {write : Int → Except Failure Text} {numbers : List Int} {t : Text}
    (hwrite : ∀ n form, write n = .ok form → form.IsPlain) (h : each write numbers = .ok t) :
    t.IsPlain := by
  induction numbers generalizing t with
  | nil =>
    cases h
    simp [IsPlain]
  | cons n numbers ih =>
    rw [each] at h
    obtain ⟨form, hform, h⟩ := Failure.bind_eq_ok.1 h
    obtain ⟨later, hlater, h⟩ := Failure.bind_eq_ok.1 h
    cases h
    exact (hwrite n form hform).append (ih hlater)

theorem isPlain_fragment {write : Int → Except Failure Text} {numbers : List Int}
    {fragment : Fragment} (hwrite : ∀ n form, write n = .ok form → form.IsPlain)
    (h : (return { text := ← each write numbers } : Except Failure Fragment) = .ok fragment) :
    fragment.text.IsPlain := by
  obtain ⟨t, ht, h⟩ := Failure.bind_eq_ok.1 h
  cases h
  exact isPlain_each hwrite ht

theorem isPlain_utf16 (numbers : List Int) : (utf16 numbers).text.IsPlain :=
  Text.isPlain_flatMap fun _ _ => IsPlain.append (by decide) (CharNumber.isPlain_fourDigits _)

theorem mem_custom {numbers : List Int} {right : Text} {c : CodePoint}
    (h : c ∈ custom numbers right) : c.isPlain ∨ c ∈ right := by
  rcases List.mem_append.1 h with h | h
  · rcases List.mem_append.1 h with h | h
    · exact .inl ((show Text.IsPlain "<" by decide) c h)
    · rcases Text.mem_joined h with h | ⟨piece, hpiece, h⟩
      · exact .inl ((show Text.IsPlain " " by decide) c h)
      · rcases List.mem_append.1 hpiece with hpiece | hpiece
        · obtain ⟨n, -, rfl⟩ := List.mem_map.1 hpiece
          exact .inl (CharNumber.isPlain_unicode n c h)
        · split at hpiece
          · cases hpiece
          · exact .inr (List.mem_singleton.1 hpiece ▸ h)
  · exact .inl ((show Text.IsPlain ">" by decide) c h)

/-- What is put in place of a match is printable ASCII but for the right side of the rule. -/
theorem mem_builtin {rule : Rule} {numbers : List Int} {fragment : Fragment} {c : CodePoint}
    (h : builtin rule numbers = .ok fragment) (hc : c ∈ fragment.text) :
    c.isPlain ∨ ∃ right ∈ rule.right, c ∈ right := by
  have hright : c ∈ rule.right.getD [] → ∃ right ∈ rule.right, c ∈ right := by
    cases rule.right with
    | none => simp
    | some right => simp
  unfold builtin at h
  cases haction : rule.action <;> rw [haction] at h
  case accept =>
    cases h
    cases hc
  case replace =>
    cases h
    exact .inr (hright hc)
  case custom =>
    cases h
    exact (mem_custom hc).imp id hright
  case utf16 =>
    cases h
    exact .inl (isPlain_utf16 numbers c hc)
  -- The others write number by number, in a form of their own.
  all_goals
    refine .inl (isPlain_fragment ?_ h c hc)
    intro n form hform
  case decimal =>
    obtain ⟨t, ht, hform⟩ := Failure.bind_eq_ok.1 hform
    cases hform
    exact isPlain_bracketed (CharNumber.isPlain_of_decimal? ht)
  case xmlDecimal =>
    obtain ⟨t, ht, hform⟩ := Failure.bind_eq_ok.1 hform
    cases hform
    exact (IsPlain.append (by decide) (CharNumber.isPlain_of_decimal? ht)).append (by decide)
  case hexadecimal =>
    cases hform
    exact isPlain_bracketed (CharNumber.isPlain_hexadecimal n)
  case octal =>
    cases hform
    exact isPlain_bracketed (CharNumber.isPlain_octal n)
  case unicode =>
    cases hform
    exact isPlain_bracketed (CharNumber.isPlain_unicode n)
  case xmlHexadecimal =>
    cases hform
    exact (IsPlain.append (by decide) (CharNumber.isPlain_hexadecimal n)).append (by decide)

end Render

end PlainForm

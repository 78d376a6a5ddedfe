import PlainForm.Proofs.Codes
import PlainForm.Proofs.Plain
import PlainForm.Text.Quoted

/-!
# Quoted texts are plain and faithful

Whatever a text holds, quoted in ASCII it is printable ASCII. And nothing is lost: the character
that was quoted first can be read off, and so can all of them up to the mark at the end.
-/

namespace PlainForm.Text

variable {mark c : CodePoint} {asciiOnly : Bool} {t t' : Text}

def IsQuotationMark (mark : CodePoint) : Prop := mark = '\'' ∨ mark = '"'

theorem isQuotationMark_quotationMark (t : Text) : IsQuotationMark (quotationMark t) := by
  unfold quotationMark
  split
  · exact .inr rfl
  · exact .inl rfl

/-! ## Hexadecimal escapes -/

theorem digitValue_digitChar :
    ∀ d < 16, (CodePoint.ofChar (Nat.digitChar d)).digitValue = d := by decide

theorem isHexDigit_hexEscape {n : Nat} :
    ∀ c ∈ (Nat.toDigits 16 n).map CodePoint.ofChar, c.isHexDigit := by
  have hdigit : ∀ d < 16, (CodePoint.ofChar (Nat.digitChar d)).isHexDigit := by decide
  intro c hc
  obtain ⟨char, hchar, rfl⟩ := List.mem_map.1 hc
  obtain ⟨d, hd, rfl⟩ := CharNumber.exists_digitChar (by decide) char hchar
  exact hdigit d hd

theorem valueOf_hexEscape {width n : Nat} (hwidth : 0 < width) (hn : n < 16 ^ width)
    (rest : Text) : Numeral.valueOf 16 ((CharNumber.padded width
      ((Nat.toDigits 16 n).map CodePoint.ofChar) ++ rest).take width) = n := by
  have hlength := (Nat.length_toDigits_le_iff (b := 16) (by decide) hwidth).2 hn
  rw [List.take_left' (CharNumber.length_padded (by rwa [List.length_map])),
    CharNumber.valueOf_padded,
    CharNumber.valueOf_toDigits digitValue_digitChar (by decide) (by decide)]

/-! ## Printable ASCII -/

theorem isPlain_hexEscape {letter : CodePoint} (hletter : letter.isPlain) (width : Nat) :
    (hexEscape letter width c).IsPlain := by
  refine List.forall_mem_cons.2 ⟨by decide, List.forall_mem_cons.2 ⟨hletter, ?_⟩⟩
  exact isPlain_of_hexDigits (CharNumber.isHexDigit_padded isHexDigit_hexEscape)

theorem isPlain_escape (c : CodePoint) : (escape c).IsPlain := by
  unfold escape
  split_ifs
  · decide
  · decide
  · decide
  · exact isPlain_hexEscape (by decide) 2
  · exact isPlain_hexEscape (by decide) 4
  · exact isPlain_hexEscape (by decide) 8

theorem isPlain_quotedChar (hmark : IsQuotationMark mark) : (quotedChar mark true c).IsPlain := by
  unfold quotedChar
  split
  · next hself =>
    have hc : c.isPlain := by
      rcases Bool.or_eq_true_iff.1 hself with h | h
      · rw [of_decide_eq_true h]
        rcases hmark with rfl | rfl <;> decide
      · rw [of_decide_eq_true h]
        decide
    exact List.forall_mem_cons.2 ⟨by decide, isPlain_singleton hc⟩
  · split
    · next hprintable =>
      obtain ⟨hprintable, hascii⟩ := Bool.and_eq_true_iff.1 hprintable
      have hlt : c.val < 0x80 := by simpa using hascii
      rw [CodePoint.isPrintable, if_pos hlt] at hprintable
      exact isPlain_singleton hprintable
    · exact isPlain_escape c

theorem isPlain_quotedAscii (t : Text) : t.quotedAscii.IsPlain := by
  have hmark := isQuotationMark_quotationMark t
  have hplain : IsPlain [quotationMark t] := by
    rcases hmark with h | h <;> rw [h] <;> decide
  exact (hplain.append (isPlain_flatMap fun _ _ => isPlain_quotedChar hmark)).append hplain

/-! ## Reading back -/

/-- The character that a letter behind a backslash stands for, with digits behind it or without. -/
def escapeValue (letter : CodePoint) (rest : Text) : Nat :=
  if letter = 't' then 0x9
  else if letter = 'n' then 0xA
  else if letter = 'r' then 0xD
  else if letter = 'x' then Numeral.valueOf 16 (rest.take 2)
  else if letter = 'u' then Numeral.valueOf 16 (rest.take 4)
  else if letter = 'U' then Numeral.valueOf 16 (rest.take 8)
  else letter.val

/-- The character that the beginning of a quoted text stands for. -/
def leadingValue : Text → Option Nat
  | [] => none
  | c :: rest =>
    if c = '\\' then rest.head?.map fun letter => escapeValue letter rest.tail else some c.val

theorem leadingValue_self (h : c ≠ '\\') (rest : Text) : leadingValue (c :: rest) = some c.val :=
  if_neg h

theorem leadingValue_backslash (letter : CodePoint) (rest : Text) :
    leadingValue ('\\' :: letter :: rest) = some (escapeValue letter rest) := by
  rw [leadingValue, if_pos rfl]
  rfl

theorem leadingValue_escape (c : CodePoint) (rest : Text) :
    leadingValue (escape c ++ rest) = some c.val := by
  have hc := c.val_le
  unfold escape
  split_ifs with htab hfeed hreturn hbyte hunit
  · subst htab
    exact leadingValue_backslash 't' rest
  · subst hfeed
    exact leadingValue_backslash 'n' rest
  · subst hreturn
    exact leadingValue_backslash 'r' rest
  · exact (leadingValue_backslash 'x' _).trans
      (congrArg some (valueOf_hexEscape (by decide) (by omega) rest))
  · exact (leadingValue_backslash 'u' _).trans
      (congrArg some (valueOf_hexEscape (by decide) (by omega) rest))
  · exact (leadingValue_backslash 'U' _).trans
      (congrArg some (valueOf_hexEscape (by decide) (by omega) rest))

theorem leadingValue_quotedChar (hmark : IsQuotationMark mark) (c : CodePoint) (rest : Text) :
    leadingValue (quotedChar mark asciiOnly c ++ rest) = some c.val := by
  unfold quotedChar
  split
  · next hself =>
    have hletter : escapeValue c rest = c.val := by
      rcases Bool.or_eq_true_iff.1 hself with h | h
      · rw [of_decide_eq_true h]
        rcases hmark with rfl | rfl <;> rfl
      · rw [of_decide_eq_true h]
        rfl
    exact (leadingValue_backslash c rest).trans (congrArg some hletter)
  · next hself =>
    split
    · exact leadingValue_self (by simp_all) rest
    · exact leadingValue_escape c rest

theorem isCode_quotedChar (hmark : IsQuotationMark mark) :
    IsCode (fun _ => True) (quotedChar mark asciiOnly) := by
  intro c d _ _ x y h
  have hvalue := congrArg leadingValue h
  rw [leadingValue_quotedChar hmark, leadingValue_quotedChar hmark] at hvalue
  exact CodePoint.val_inj.1 (Option.some.inj hvalue)

theorem not_quotedChar_prefix_mark (hmark : IsQuotationMark mark) :
    ¬ quotedChar mark asciiOnly c <+: [mark] := by
  rintro ⟨rest, h⟩
  have hne : mark ≠ '\\' := by
    rcases hmark with rfl | rfl <;> decide
  have hvalue : leadingValue (quotedChar mark asciiOnly c ++ rest) = some c.val :=
    leadingValue_quotedChar hmark c rest
  rw [h, leadingValue_self hne] at hvalue
  obtain rfl : mark = c := CodePoint.val_inj.1 (Option.some.inj hvalue)
  rw [quotedChar, if_pos (by simp)] at h
  exact hne (List.cons.inj h).1.symm

theorem quotedWith_inj (h : quotedWith asciiOnly t = quotedWith asciiOnly t') : t = t' := by
  obtain ⟨hsame, hrest⟩ := List.cons.inj h
  have hmark := isQuotationMark_quotationMark t
  rw [← hsame] at hrest
  exact (isCode_quotedChar hmark).flatMap_inj (fun _ _ => trivial) (fun _ _ => trivial)
    (fun _ _ => not_quotedChar_prefix_mark hmark) (fun _ _ => not_quotedChar_prefix_mark hmark)
    hrest

end PlainForm.Text

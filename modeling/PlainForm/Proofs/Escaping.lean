import PlainForm.Proofs.Conversion
import PlainForm.Proofs.Decode.Spelling
import PlainForm.Proofs.Plain
import PlainForm.Proofs.WellFormed

/-!
# Escaping

A table that writes characters as escapes and references, and leaves no ampersand and no backslash
as it is, loses nothing. What it puts out decodes to what was put in: no fragment takes part in a
notation that begins in another.
-/

namespace PlainForm

open Decode (IsStep Spells)

/-! ## Tables that escape -/

/-- The actions that write what can be decoded. -/
def Action.escapes : List Action := [.utf16, .xmlDecimal, .xmlHexadecimal]

def Notations.all : Notations := { backslash := true, xml := true }

def Notations.marks : List CodePoint := [Reference.ampersand, Escape.backslash]

/-- The table writes escapes and references, keeps no mark, and has a rule for each of them. -/
structure Table.IsEscaping (table : Table) : Prop where
  committed : table.committed
  complete : ∀ rule ∈ table.rules, rule.target.IsComplete
  action : ∀ rule ∈ table.rules, rule.action = .accept ∨ rule.action ∈ Action.escapes
  accept : ∀ rule ∈ table.rules, rule.action = .accept →
    rule.target.MatchesOnly {c | c ∉ Notations.marks}
  catches : ∀ c ∈ Notations.marks, ∃ rule ∈ table.rules, rule.target.Takes [c.number] 1

/-! ## Written characters -/

variable {t out : Text} {c : CodePoint}

theorem Text.IsPlain.units (h : t.IsPlain) : t.units = t := by
  refine Text.units_of_forall_le fun c hc => ?_
  have hplain := h c hc
  simp only [CodePoint.isPlain, Bool.and_eq_true, decide_eq_true_eq] at hplain
  omega

theorem Text.IsPlain.isScalar (h : t.IsPlain) : t.IsScalar :=
  fun c hc => CodePoint.not_isSurrogate_of_isPlain (h c hc)

theorem isStep_decimal (c : CodePoint) :
    IsStep .all ("&#" ++ CharNumber.decimal c.number ++ ";") c := by
  have hwritten : ("&#" ++ CharNumber.decimal c.number ++ ";" : Text) =
      Reference.ampersand :: '#' :: (CharNumber.digits 10 c.val ++ [(';' : CodePoint)]) := by
    rw [CodePoint.number, CharNumber.decimal_natCast]
    rfl
  have hvalue : Numeral.valueOf 10 (CharNumber.digits 10 c.val) = c.val :=
    CharNumber.valueOf_digits (by decide) (by decide) _
  have hlen : (CharNumber.digits 10 c.val).length ≤ decimalDigitLimit :=
    CharNumber.length_digits_le (by decide) (by decide) c.isShort_number
  rw [hwritten]
  exact Decode.isStep_reference rfl
    (.decimal (CharNumber.digits_ne_nil _ _) CharNumber.isDigit_digits) (fun _ => hlen) hvalue

theorem isStep_hexadecimal (c : CodePoint) :
    IsStep .all ("&#x" ++ CharNumber.hexadecimal c.number ++ ";") c := by
  have hwritten : ("&#x" ++ CharNumber.hexadecimal c.number ++ ";" : Text) =
      Reference.ampersand :: '#' :: 'x' ::
        (CharNumber.digits 16 c.val ++ [(';' : CodePoint)]) := by
    rw [CodePoint.number, CharNumber.hexadecimal_natCast]
    rfl
  have hvalue : Numeral.valueOf 16 (CharNumber.digits 16 c.val) = c.val :=
    CharNumber.valueOf_digits (by decide) (by decide) _
  rw [hwritten]
  exact Decode.isStep_reference rfl
    (.hexadecimal (.inl rfl) (CharNumber.digits_ne_nil _ _)
      (CharNumber.isHexDigit_digits (by decide) (by decide)))
    (Numeral.isShort_hexadecimal _) hvalue

theorem isStep_fourDigits (h : c.val ≤ 0xFFFF) :
    IsStep .all ("\\u" ++ CharNumber.fourDigits c.number) c :=
  Decode.isStep_escape rfl fun _ => .hexadecimal (CharNumber.length_fourDigits h)
    (CharNumber.isHexDigit_fourDigits _) (CharNumber.valueOf_fourDigits _)

/-! ## Spans -/

/-- What is written for numbers decodes to them, wherever it stands. -/
def Escapes (numbers written : List Int) : Prop :=
  ∃ t out : Text, numbers = t.numbers ∧ written = out.numbers ∧ out.IsScalar ∧
    Spells .all out.units t

namespace Escapes

theorem nil : Escapes [] [] := ⟨[], [], rfl, rfl, Text.isScalar_nil, Decode.spells_nil⟩

theorem append {a b a' b' : List Int} (h : Escapes a b) (h' : Escapes a' b') :
    Escapes (a ++ a') (b ++ b') := by
  obtain ⟨t, out, rfl, rfl, hscalar, hspells⟩ := h
  obtain ⟨t', out', rfl, rfl, hscalar', hspells'⟩ := h'
  refine ⟨t ++ t', out ++ out', List.map_append.symm, List.map_append.symm,
    hscalar.append hscalar', ?_⟩
  rw [Text.units, List.flatMap_append]
  exact hspells.append hspells'

theorem self (hscalar : t.IsScalar) (hmarks : ∀ c ∈ t, c ∉ Notations.marks) :
    Escapes t.numbers t.numbers := by
  have hscalars : ∀ mark ∈ Notations.marks, ¬ mark.isSurrogate := by decide
  have hunits : ∀ mark ∈ Notations.marks, mark ∉ t.units := by
    intro mark hmark hmem
    exact hmarks mark (Text.mem_of_mem_units hmem (hscalars mark hmark)) hmark
  exact ⟨t, t, rfl, rfl, hscalar, Decode.spells_self hscalar
    (fun _ => hunits _ (by decide)) (fun _ => hunits _ (by decide))⟩

theorem of_plain (hplain : out.IsPlain) (h : Spells .all out t) :
    Escapes t.numbers out.numbers :=
  ⟨t, out, rfl, rfl, hplain.isScalar, hplain.units.symm ▸ h⟩

theorem of_form {form : CodePoint → Text} (hplain : ∀ c, (form c).IsPlain)
    (hstep : ∀ c, IsStep .all (form c) c) (hscalar : t.IsScalar) :
    Escapes t.numbers (Text.numbers (t.flatMap form)) :=
  of_plain (Text.isPlain_flatMap fun c _ => hplain c)
    (Decode.spells_flatMap fun c hc => (hstep c).spells (hscalar c hc))

theorem of_makes {rule : Rule} {fragment : Fragment} (haction : rule.action ∈ Action.escapes)
    (hscalar : t.IsScalar) (h : rule.Makes t.numbers fragment) :
    Escapes t.numbers fragment.text.numbers := by
  unfold Rule.Makes at h
  cases hrule : rule.action <;> rw [hrule] at h haction
  case utf16 =>
    subst h
    refine of_plain (Render.isPlain_utf16 _) ?_
    simp only [hscalar.encode]
    exact Decode.spells_units hscalar fun unit hunit =>
      isStep_fourDigits (Text.le_of_mem_units hunit)
  case xmlDecimal =>
    obtain ⟨-, rfl⟩ := h
    rw [Text.numbers, List.flatMap_map]
    refine of_form (fun c => ?_) isStep_decimal hscalar
    exact (Text.IsPlain.append (by decide) (CharNumber.isPlain_decimal _)).append (by decide)
  case xmlHexadecimal =>
    subst h
    rw [Text.numbers, List.flatMap_map]
    refine of_form (fun c => ?_) isStep_hexadecimal hscalar
    exact (Text.IsPlain.append (by decide) (CharNumber.isPlain_hexadecimal _)).append (by decide)
  -- No other action escapes.
  all_goals exact absurd haction (by decide)

end Escapes

/-! ## Conversions -/

namespace Table

variable {table : Table} {rest : Text} {span : Span}

/-- No mark is left as it is: one that no rule takes with others is taken alone. -/
theorem IsEscaping.escapes_kept (h : table.IsEscaping) (hchosen : table.Chooses rest.numbers span)
    (hne : rest ≠ []) (hscalar : rest.IsScalar) (hkept : span.change? = none) :
    Escapes span.numbers span.numbers := by
  rcases hchosen.of_kept hkept with ⟨hit, hfirst, haccept, hnumbers⟩ | ⟨hno, hnumbers⟩
  · have honly := h.accept _ hfirst.mem haccept rest hit.length hscalar hfirst.takes
    rw [hnumbers, Text.numbers, ← List.map_take]
    exact Escapes.self (hscalar.take _) honly
  · obtain ⟨c, rest, rfl⟩ := List.exists_cons_of_ne_nil hne
    have hmark : c ∉ Notations.marks := by
      intro hc
      obtain ⟨rule, hrule, htakes⟩ := h.catches c hc
      exact hno rule hrule 1 (htakes.append (Text.numbers rest))
    rw [hnumbers, Text.numbers, ← List.map_take]
    exact Escapes.self (hscalar.take 1) (by simpa using hmark)

theorem IsEscaping.escapes_changed (h : table.IsEscaping)
    (hchosen : table.Chooses rest.numbers span) (hscalar : rest.IsScalar) {hit : Hit}
    (hchange : span.change? = some hit) {fragment : Fragment}
    (hfragment : Render.builtin hit.rule span.numbers = .ok fragment) :
    Escapes span.numbers fragment.text.numbers := by
  obtain ⟨hfirst, hne, hnumbers⟩ := hchosen.of_change hchange
  have haction := (h.action _ hfirst.mem).resolve_left hne
  rw [hnumbers, Text.numbers, ← List.map_take] at hfragment ⊢
  exact Escapes.of_makes haction (hscalar.take _) ((Render.builtin_eq_ok_iff hne).1 hfragment)

end Table

/-- Escaping loses nothing: what an escaping table puts out for a text decodes to the text, with
nothing to be told. -/
theorem decode_convert_escaping (table : Table) (h : table.IsEscaping) (t : Text)
    (hscalar : t.IsScalar) :
    ∃ conversion, table.convert {} t = .ok conversion ∧
      conversion.text.decode { backslash := true, xml := true } = .ok ⟨t, []⟩ := by
  obtain ⟨spans, outcome, hcut, houtcome, hrendering, -⟩ :=
    Table.substitute_eq h.committed h.complete t none
  have hescapes : Escapes (spans.flatMap Span.numbers) outcome.numbers := by
    refine hrendering.relate Escapes.nil Escapes.append ?_ ?_
    · intro span hspan hkept
      obtain ⟨rest, hsuffix, hne, hchosen⟩ := hcut.exists_suffix hspan
      exact h.escapes_kept hchosen hne (fun c hc => hscalar c (hsuffix.mem hc)) hkept
    · intro span hspan hit told fragment hchange hfragment
      obtain ⟨rest, hsuffix, -, hchosen⟩ := hcut.exists_suffix hspan
      rw [Render.fragment_none] at hfragment
      exact h.escapes_changed hchosen (fun c hc => hscalar c (hsuffix.mem hc)) hchange hfragment
  rw [hcut.whole] at hescapes
  obtain ⟨t', out, ht, hout, hscalar', hspells⟩ := hescapes
  obtain rfl : t = t' := Text.numbers_inj.1 ht
  refine ⟨_, Table.convert_eq_ok.2 ⟨_, _, hscalar.decode, houtcome, rfl⟩, ?_⟩
  simp only [hout, hscalar'.encode]
  exact hspells.decode

/-- An ampersand behind a letter, one alone, a backslash and a surrogate pair, in four ways. -/
theorem decode_convert_escaping_mixed :
    let table : Table := ⟨[⟨.accept, .range 0x20 0x25, none⟩,
      ⟨.xmlDecimal, .sequence [0x61, 0x26], none⟩, ⟨.xmlHexadecimal, .range 0x26 0x26, none⟩,
      ⟨.utf16, .range 0x5C 0x10FFFF, none⟩], true⟩
    let t : Text := "a&a & #38;\u0041😀"
    table.IsEscaping ∧ t.IsScalar ∧ ∃ conversion, table.convert {} t = .ok conversion ∧
      conversion.text.decode { backslash := true, xml := true } = .ok ⟨t, []⟩ := by
  intro table t
  have hescaping : table.IsEscaping :=
    { committed := rfl
      complete := by simp [table, Target.IsComplete]
      action := by simp [table, Action.escapes]
      accept := by
        simp only [table, List.forall_mem_cons, reduceCtorEq, false_imp_iff, true_imp_iff,
          and_true, List.not_mem_nil, implies_true]
        refine Target.matchesOnly_range fun c _ hhigh hmark => ?_
        revert hhigh
        have hmarks : ∀ mark ∈ Notations.marks, ¬ mark.number ≤ 0x25 := by decide
        exact hmarks c hmark
      catches := by
        simp only [Notations.marks, List.forall_mem_cons, List.not_mem_nil, false_imp_iff,
          implies_true, and_true]
        exact ⟨⟨⟨.xmlHexadecimal, .range 0x26 0x26, none⟩, by decide, rfl, _, rfl, by decide⟩,
          ⟨.utf16, .range 0x5C 0x10FFFF, none⟩, by decide, rfl, _, rfl, by decide⟩ }
  have hscalar : t.IsScalar := by decide
  exact ⟨hescaping, hscalar, decode_convert_escaping table hescaping t hscalar⟩

end PlainForm

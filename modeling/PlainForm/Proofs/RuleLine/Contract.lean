import PlainForm.Proofs.Decode.Pass
import PlainForm.Proofs.Reading
import PlainForm.Proofs.RuleLine.Parts
import PlainForm.Proofs.WellFormed

/-!
# What is read from a line

One contract per function that reads. What they add up to: a rule that is read is well-formed, only
decoding tells problems, and only a long run of digits makes reading give up.
-/

namespace PlainForm.RuleLine

open Reading (Meets meets_pure meets_wrong meets_ofExcept meets_ofNoted)

theorem meets_of_part {α : Type} {r : Reading α} {value : α → Prop} {short short' : Prop}
    (h : r.Meets value (Failure.IsLongUnless short)) (hs : short' → short) :
    r.Meets value (Failure.IsLongUnless short') :=
  h.mono (fun _ ha => ha) fun _ hf => hf.mono hs

/-! ## Items -/

theorem number_meets (numeral : Numeral) : (Reading.ofExcept numeral.number).Meets
    (fun n => numeral.number = .ok n) (Failure.IsLongUnless numeral.IsShort) := by
  apply meets_ofExcept
  · intro n hn
    exact hn
  · intro f hf
    exact Numeral.number_eq_error hf

theorem readCharacter_meets (numeral : Numeral) : (readCharacter numeral).Meets
    (fun c => ¬ c.isSurrogate) (Failure.IsLongUnless numeral.IsShort) := by
  unfold readCharacter
  refine (number_meets numeral).bind ?_
  intro n _
  split
  · exact meets_wrong _
  · next c _ =>
    split
    · exact meets_wrong _
    · next hs => exact meets_pure hs

theorem readItem_meets (notations : Notations) (item : Token.Item) :
    (readItem notations item).Meets Text.IsScalar (Failure.IsLongUnless item.IsShort) := by
  cases item with
  | number numeral =>
    refine (readCharacter_meets numeral).bind ?_
    intro c hc
    apply meets_pure
    simpa [Text.IsScalar] using hc
  | quoted content =>
    have hdecode : (Reading.ofExcept (content.decode notations)).Meets
        (fun noted => content.decode notations = .ok noted)
        (Failure.IsLongUnless content.HasShortRuns) := by
      apply meets_ofExcept
      · intro noted hnoted
        exact hnoted
      · intro f hf
        exact Text.decode_eq_error hf
    refine hdecode.bind ?_
    intro noted hnoted
    exact meets_ofNoted (Text.isScalar_decode hnoted) (Text.isDecoding_decode hnoted)

theorem readAll_meets (notations : Notations) (items : List Token.Item) :
    (readAll notations items).Meets Text.IsScalar
      (Failure.IsLongUnless (∀ item ∈ items, item.IsShort)) := by
  induction items with
  | nil => exact meets_pure Text.isScalar_nil
  | cons item items ih =>
    have hitem := meets_of_part (readItem_meets notations item)
      fun h : ∀ i ∈ item :: items, i.IsShort => h item List.mem_cons_self
    have hitems := meets_of_part ih
      fun (h : ∀ i ∈ item :: items, i.IsShort) i hi => h i (List.mem_cons_of_mem item hi)
    refine hitem.bind fun t ht => hitems.bind fun t' ht' => ?_
    exact meets_pure (ht.append ht')

/-! ## Rows -/

section Rows

variable {notations : Notations} {spaced : Bool} {t start rest : Text} {item : Token.Item}

theorem readRow_nil (h : Token.items notations.backslash spaced t = ([], rest)) :
    readRow notations spaced t = pure ⟨[], 0, rest⟩ := by
  unfold readRow
  rw [h]
  rfl

theorem readRow_item (hstart : Token.itemStart? spaced t = some start)
    (hitem : Token.item? notations.backslash start = some (item, rest)) :
    readRow notations spaced t = readItem notations item >>= fun characters =>
      readRow notations true rest >>= fun row =>
        pure ⟨characters ++ row.characters, row.itemCount + 1, row.rest⟩ := by
  unfold readRow
  rw [Token.items_cons hstart hitem]
  simp only [readAll, Reading.bind_assoc, Reading.pure_bind, List.length_cons]

end Rows

theorem readRow_meets (notations : Notations) (spaced : Bool) (t : Text) :
    (readRow notations spaced t).Meets
      (fun row => row.characters.IsScalar ∧ row.rest <:+ t)
      (Failure.IsLongUnless t.HasShortRuns) := by
  obtain ⟨hsuffix, hparts⟩ := Token.items_part notations.backslash spaced t
  have hall := meets_of_part
    (readAll_meets notations (Token.items notations.backslash spaced t).1)
    fun (hs : t.HasShortRuns) item hmem => (hparts item hmem).isShort hs
  refine hall.bind ?_
  intro characters hc
  exact meets_pure ⟨hc, hsuffix⟩

/-! ## The left side -/

theorem readRange_meets (low high : Numeral) : (readRange low high).Meets
    Target.WellFormed (Failure.IsLongUnless (low.IsShort ∧ high.IsShort)) := by
  have hlow := meets_of_part (number_meets low) fun h : low.IsShort ∧ high.IsShort => h.1
  have hhigh := meets_of_part (number_meets high) fun h : low.IsShort ∧ high.IsShort => h.2
  refine hlow.bind fun l _ => hhigh.bind fun h _ => ?_
  split
  · next hbounds =>
    apply meets_pure
    unfold Target.WellFormed
    omega
  · exact meets_wrong _

theorem readLeft_meets (notations : Notations) (t : Text) : (readLeft notations t).Meets
    (fun left => left.1.WellFormed ∧ left.2 <:+ t) (Failure.IsLongUnless t.HasShortRuns) := by
  unfold readLeft
  split
  · next low high rest hr =>
    obtain ⟨hsuffix, hshort⟩ := Token.range?_part hr
    refine (meets_of_part (readRange_meets low high) hshort).bind ?_
    intro target htarget
    exact meets_pure ⟨htarget, hsuffix⟩
  · refine (readRow_meets notations false t).bind ?_
    rintro row ⟨hscalar, hsuffix⟩
    split
    · exact meets_wrong _
    · split
      · exact meets_wrong _
      · next hne =>
        apply meets_pure
        refine ⟨⟨?_, hscalar.numbers⟩, hsuffix⟩
        simpa [Text.numbers] using hne

/-! ## The right side -/

structure Effect.WellFormed (effect : Effect) : Prop where
  right : ∀ text ∈ effect.right, text.IsScalar
  accept : effect.action = .accept → effect.right = none
  replace : effect.action = .replace → effect.right ≠ none

theorem encode_meets {failure : Failure → Prop} {t : Text} (h : t.IsScalar) :
    (Reading.ofNoted (encode t.numbers)).Meets Text.IsScalar failure := by
  rw [h.encode]
  exact meets_ofNoted h (by simp)

theorem readReplacement_meets (notations : Notations) (t : Text) :
    (readReplacement notations t).Meets Effect.WellFormed
      (Failure.IsLongUnless t.HasShortRuns) := by
  unfold readReplacement
  refine (readRow_meets notations false t).bind ?_
  rintro row ⟨hscalar, -⟩
  split
  · exact meets_wrong _
  · refine (encode_meets hscalar).bind ?_
    intro text htext
    exact meets_pure ⟨by simpa using htext, by simp, by simp⟩

theorem mem_specials_of_special? {word : Text} {action : Action}
    (h : Action.special? word = some action) : action ≠ .accept ∧ action ≠ .replace := by
  have hmem : action ∈ Action.specials := List.mem_of_find?_eq_some h
  constructor <;> rintro rfl <;> revert hmem <;> decide

theorem readSpecial_meets (notations : Notations) (word rest : Text) :
    (readSpecial notations word rest).Meets Effect.WellFormed
      (Failure.IsLongUnless rest.HasShortRuns) := by
  unfold readSpecial
  split
  · exact meets_wrong _
  · next action hspecial =>
    obtain ⟨haccept, hreplace⟩ := mem_specials_of_special? hspecial
    refine (readRow_meets notations true rest).bind ?_
    rintro row ⟨hscalar, -⟩
    split
    · exact meets_pure ⟨by simp, by simp, fun h => absurd h hreplace⟩
    · refine (encode_meets hscalar).bind ?_
      intro text htext
      exact meets_pure ⟨by simpa using htext, fun h => absurd h haccept, by simp⟩

theorem readRight_meets (notations : Notations) (t : Text) :
    (readRight notations t).Meets Effect.WellFormed (Failure.IsLongUnless t.HasShortRuns) := by
  unfold readRight
  split
  · exact meets_wrong _
  · next body hbody =>
    have hsuffix := Token.equals?_suffix hbody
    split
    · next word rest hword =>
      have hrest := (Token.keyword?_suffix hword).trans hsuffix
      apply meets_of_part (readSpecial_meets notations word.toLower rest)
      intro h
      exact h.of_infix hrest.isInfix
    · apply meets_of_part (readReplacement_meets notations body)
      intro h
      exact h.of_infix hsuffix.isInfix

theorem readEffect_meets (notations : Notations) (verb : Verb) (t : Text) :
    (readEffect notations verb t).Meets Effect.WellFormed
      (Failure.IsLongUnless t.HasShortRuns) := by
  cases verb with
  | accept => exact meets_pure ⟨by simp [Verb.right], by simp [Verb.right], by simp [Verb.action]⟩
  | delete =>
    exact meets_pure
      ⟨by simp [Verb.right, Text.isScalar_nil], by simp [Verb.action], by simp [Verb.right]⟩
  | replace => exact readRight_meets notations t

/-! ## The line -/

theorem readVerb_meets {failure : Failure → Prop} (line : Text) :
    (readVerb line).Meets (fun verb => verb.2 <:+ line) failure := by
  unfold readVerb
  split
  · exact meets_wrong _
  · next word rest hword =>
    split
    · exact meets_wrong _
    · split
      · exact meets_wrong _
      · next left hleft =>
        exact meets_pure ((Token.space?_suffix hleft).trans (Token.keyword?_suffix hword))

theorem read_meets (notations : Notations) (line : Text) :
    (read notations line).Meets Rule.WellFormed (Failure.IsLongUnless line.HasShortRuns) := by
  unfold read
  refine (readVerb_meets line).bind ?_
  rintro ⟨verb, t⟩ ht
  have hleft := meets_of_part (readLeft_meets notations t)
    fun h : line.HasShortRuns => h.of_infix ht.isInfix
  refine hleft.bind ?_
  rintro ⟨target, t'⟩ ⟨htarget, ht'⟩
  have heffect := meets_of_part (readEffect_meets notations verb t')
    fun h : line.HasShortRuns => h.of_infix (ht'.trans ht).isInfix
  refine heffect.bind ?_
  intro effect heffect
  split
  · exact meets_pure ⟨htarget, heffect.right, heffect.accept, heffect.replace⟩
  · exact meets_wrong _

end PlainForm.RuleLine

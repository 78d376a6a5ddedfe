import PlainForm.Proofs.RuleLine.Contract

/-!
# What is told of a line

Whether a line is read as a rule or not, what is told of it before its mistake comes from decoding
its quoted strings, one after the other from the left.
-/

namespace PlainForm

variable {notations : Notations} {s t rest left gap written word content : Text}
  {problems problems' : List Problem} {numeral low high : Numeral}

/-! ## Quoted strings from the left -/

/-- Outside of quoted strings. -/
def Text.NoMark (t : Text) : Prop := ('"' : CodePoint) ∉ t

instance (t : Text) : Decidable t.NoMark := inferInstanceAs (Decidable (('"' : CodePoint) ∉ t))

/-- The problems are those of decoding the first quoted strings of `t`, and `left` begins behind
them. -/
inductive Told (notations : Notations) : (t : Text) → List Problem → (left : Text) → Prop where
  | nothing {gap left : Text} (unquoted : gap.NoMark) : Told notations (gap ++ left) [] left
  | quoted {gap t content rest left : Text} {noted problems} (unquoted : gap.NoMark)
      (string : Token.quoted? notations.backslash t = some (content, rest))
      (decoded : content.decode notations = .ok noted) (later : Told notations rest problems left) :
      Told notations (gap ++ t) (noted.problems ++ problems) left

theorem Text.noMark_nil : NoMark [] := List.not_mem_nil

theorem Text.NoMark.append {t' : Text} (h : t.NoMark) (h' : t'.NoMark) : NoMark (t ++ t') := by
  intro hmem
  rcases List.mem_append.1 hmem with hmem | hmem
  · exact h hmem
  · exact h' hmem

theorem Text.noMark_of_class {inClass : CodePoint → Bool} (h : ∀ c ∈ t, inClass c)
    (hmark : inClass '"' = false) : t.NoMark := by
  intro hmem
  rw [h _ hmem] at hmark
  cases hmark

namespace Told

theorem here (t : Text) : Told notations t [] t := nothing Text.noMark_nil

theorem behind (h : Told notations t problems left) (hgap : gap.NoMark) :
    Told notations (gap ++ t) problems left := by
  cases h with
  | nothing hgap' =>
    rw [← List.append_assoc]
    exact nothing (hgap.append hgap')
  | quoted hgap' string decoded later =>
    rw [← List.append_assoc]
    exact quoted (hgap.append hgap') string decoded later

theorem trans (h : Told notations s problems t) (h' : Told notations t problems' left) :
    Told notations s (problems ++ problems') left := by
  induction h with
  | nothing hgap => exact h'.behind hgap
  | quoted hgap string decoded _ ih =>
    rw [List.append_assoc]
    exact quoted hgap string decoded (ih h')

end Told

/-! ## Tokens without quotation marks -/

namespace Grammar

theorem Blanks.noMark (h : Blanks gap) : gap.NoMark :=
  Text.noMark_of_class h.isOutside (by decide)

theorem WrittenNumber.noMark (h : WrittenNumber written numeral) : written.NoMark :=
  Text.noMark_of_class h.isOutside (by decide)

theorem WrittenLeft.noMark_range (h : WrittenLeft written (.range low high)) : written.NoMark :=
  Text.noMark_of_class h.isOutside_range (by decide)

end Grammar

namespace Token

/-- What is left of `t` behind some text without quotation marks. -/
def LeavesBehind (t rest : Text) : Prop := ∃ gap : Text, t = gap ++ rest ∧ gap.NoMark

theorem LeavesBehind.refl (t : Text) : LeavesBehind t t := ⟨[], rfl, Text.noMark_nil⟩

theorem LeavesBehind.told (h : LeavesBehind t rest) : Told notations t [] rest := by
  obtain ⟨gap, rfl, hgap⟩ := h
  exact .nothing hgap

theorem leavesBehind_space? (h : space? t = some rest) : LeavesBehind t rest := by
  obtain ⟨gap, ht, -, hblanks, -⟩ := space?_eq_some.1 h
  exact ⟨gap, ht, hblanks.noMark⟩

theorem leavesBehind_keyword? (h : keyword? t = some (word, rest)) : LeavesBehind t rest := by
  obtain ⟨gap, ht, hblanks, hword, -⟩ := keyword?_eq_some.1 h
  refine ⟨gap ++ word, by rw [ht, List.append_assoc], hblanks.noMark.append ?_⟩
  exact Text.noMark_of_class hword.all (by decide)

theorem leavesBehind_equals? (h : equals? t = some rest) : LeavesBehind t rest := by
  obtain ⟨gap, ht, hblanks⟩ := equals?_eq_some.1 h
  exact ⟨gap ++ [('=' : CodePoint)], by simp [ht], hblanks.noMark.append (by decide)⟩

theorem leavesBehind_number? (h : number? t = some (numeral, rest)) : LeavesBehind t rest := by
  obtain ⟨gap, written, ht, hblanks, hw⟩ := number?_sound h
  exact ⟨gap ++ written, by rw [ht, List.append_assoc], hblanks.noMark.append hw.noMark⟩

theorem leavesBehind_range? (h : range? t = some (low, high, rest)) : LeavesBehind t rest := by
  obtain ⟨gap, written, ht, hblanks, hw⟩ := range?_sound h
  exact ⟨gap ++ written, by rw [ht, List.append_assoc], hblanks.noMark.append hw.noMark_range⟩

theorem leavesBehind_itemStart? {spaced : Bool} (h : itemStart? spaced t = some rest) :
    LeavesBehind t rest := by
  cases spaced with
  | false =>
    obtain rfl := Option.some.inj h
    exact .refl t
  | true => exact leavesBehind_space? h

end Token

/-! ## Readings -/

namespace Reading

variable {α β : Type} {a : α} {r : Reading α} {f : α → Reading β} {after : α → Text → Prop}
  {after' : β → Text → Prop}

/-- The reading tells of the first quoted strings of `t`. A result goes with what is left of `t`
behind them. -/
structure Tells (notations : Notations) (t : Text) (r : Reading α) (after : α → Text → Prop) :
    Prop where
  ok : ∀ a, r.outcome = .ok a → ∃ left, after a left ∧ Told notations t r.problems left
  error : ∀ stop, r.outcome = .error stop → ∃ left, Told notations t r.problems left

theorem Tells.told (h : r.Tells notations t after) :
    ∃ left, Told notations t r.problems left := by
  cases ho : r.outcome with
  | error stop => exact h.error stop ho
  | ok a =>
    obtain ⟨left, -, htold⟩ := h.ok a ho
    exact ⟨left, htold⟩

theorem tells_pure (ha : after a left) (h : Token.LeavesBehind t left) :
    (pure a : Reading α).Tells notations t after where
  ok := by
    intro a' ho
    obtain rfl := Except.ok.inj ho
    exact ⟨left, ha, h.told⟩
  error := by
    intro stop ho
    cases ho

theorem tells_of_silent (hproblems : r.problems = [])
    (h : ∀ a, r.outcome = .ok a → ∃ left, after a left ∧ Token.LeavesBehind t left) :
    r.Tells notations t after where
  ok := by
    intro a ho
    obtain ⟨left, ha, hleft⟩ := h a ho
    exact ⟨left, ha, hproblems ▸ hleft.told⟩
  error := fun _ _ => ⟨t, hproblems ▸ .here t⟩

theorem tells_wrong (m : Mistake) (t : Text) : (wrong m : Reading α).Tells notations t after :=
  tells_of_silent rfl fun a ho => by cases ho

theorem Tells.bind (hr : r.Tells notations t after)
    (hf : ∀ a left, r.outcome = .ok a → after a left → (f a).Tells notations left after') :
    (r >>= f).Tells notations t after' := by
  cases ho : r.outcome with
  | error stop =>
    rw [bind_of_error ho]
    refine ⟨?_, fun _ _ => hr.error stop ho⟩
    intro b hb
    cases hb
  | ok a =>
    rw [bind_of_ok ho]
    obtain ⟨left, ha, htold⟩ := hr.ok a ho
    have hlater := hf a left ho ha
    constructor
    · intro b hb
      obtain ⟨left', hb', htold'⟩ := hlater.ok b hb
      exact ⟨left', hb', htold.trans htold'⟩
    · intro stop hstop
      obtain ⟨left', htold'⟩ := hlater.error stop hstop
      exact ⟨left', htold.trans htold'⟩

theorem Tells.behind (h : r.Tells notations rest after) (hbehind : Token.LeavesBehind t rest) :
    r.Tells notations t after := by
  obtain ⟨gap, rfl, hgap⟩ := hbehind
  constructor
  · intro a ho
    obtain ⟨left, ha, htold⟩ := h.ok a ho
    exact ⟨left, ha, htold.behind hgap⟩
  · intro stop ho
    obtain ⟨left, htold⟩ := h.error stop ho
    exact ⟨left, htold.behind hgap⟩

theorem problems_ofExcept (e : Except Failure α) : (ofExcept e).problems = [] := by
  cases e <;> rfl

theorem Tells.bind_silent (hproblems : r.problems = [])
    (hf : ∀ a, r.outcome = .ok a → (f a).Tells notations t after') :
    (r >>= f).Tells notations t after' := by
  have hr : r.Tells notations t fun _ left => left = t :=
    tells_of_silent hproblems fun _ _ => ⟨t, rfl, .refl t⟩
  refine hr.bind ?_
  rintro a _ ho rfl
  exact hf a ho

end Reading

namespace RuleLine

open Reading (Tells tells_pure tells_wrong tells_of_silent problems_ofExcept)

/-! ## Items -/

theorem readCharacter_tells (h : Token.LeavesBehind t rest) :
    (readCharacter numeral).Tells notations t fun _ left => left = rest := by
  unfold readCharacter
  refine Tells.bind_silent (problems_ofExcept _) fun n _ => ?_
  split
  · exact tells_wrong _ t
  · split
    · exact tells_wrong _ t
    · exact tells_pure rfl h

theorem decoded_tells (h : Token.quoted? notations.backslash t = some (content, rest))
    {noted : Noted Text} (hdecode : content.decode notations = .ok noted) :
    (Reading.ofNoted noted).Tells notations t fun _ left => left = rest where
  ok := by
    intro a _
    refine ⟨rest, rfl, ?_⟩
    have htold := Told.quoted Text.noMark_nil h hdecode (.here rest)
    rwa [List.append_nil] at htold
  error := by
    intro stop ho
    cases ho

theorem readItem_tells {item : Token.Item}
    (h : Token.item? notations.backslash t = some (item, rest)) :
    (readItem notations item).Tells notations t fun _ left => left = rest := by
  unfold Token.item? at h
  split at h
  · next numeral rest' hn =>
    cases h
    refine (readCharacter_tells (Token.leavesBehind_number? hn)).bind ?_
    rintro c _ _ rfl
    exact tells_pure rfl (.refl _)
  · obtain ⟨⟨content, rest'⟩, hq, h⟩ := Option.map_eq_some_iff.1 h
    cases h
    refine Tells.bind_silent (problems_ofExcept _) fun noted ho => ?_
    cases hdecode : content.decode notations with
    | error f =>
      rw [hdecode] at ho
      cases ho
    | ok noted' =>
      rw [hdecode] at ho
      obtain rfl := Except.ok.inj ho
      exact decoded_tells hq hdecode

theorem readAll_tells (notations : Notations) (spaced : Bool) (t : Text) :
    (readAll notations (Token.items notations.backslash spaced t).1).Tells notations t
      fun _ left => left = (Token.items notations.backslash spaced t).2 := by
  generalize hescapes : notations.backslash = escapes
  fun_induction Token.items escapes spaced t with
  | case1 spaced t hs => exact tells_pure rfl (.refl t)
  | case2 spaced t start hs hi => exact tells_pure rfl (Token.leavesBehind_itemStart? hs)
  | case3 spaced t start hs item rest hi hlt more left hmore ih =>
    rw [hmore] at ih
    rw [← hescapes] at hi
    have hitem := (readItem_tells hi).behind (Token.leavesBehind_itemStart? hs)
    refine hitem.bind ?_
    rintro characters _ _ rfl
    refine ih.bind ?_
    rintro others _ _ rfl
    exact tells_pure rfl (.refl _)

theorem readRow_tells (notations : Notations) (spaced : Bool) (t : Text) :
    (readRow notations spaced t).Tells notations t fun row left => left = row.rest := by
  refine (readAll_tells notations spaced t).bind ?_
  rintro characters _ _ rfl
  exact tells_pure rfl (.refl _)

/-! ## The left side -/

theorem problems_readRange (low high : Numeral) : (readRange low high).problems = [] := by
  unfold readRange
  cases low.number with
  | error f => rfl
  | ok l =>
    cases high.number with
    | error f => rfl
    | ok h =>
      show (if l ≤ h ∧ h ≤ 0x10FFFF then _ else _ : Reading Target).problems = []
      split <;> rfl

theorem readLeft_tells (notations : Notations) (t : Text) :
    (readLeft notations t).Tells notations t fun read left => left = read.2 := by
  unfold readLeft
  split
  · next low high rest hr =>
    refine Tells.bind_silent (problems_readRange low high) fun target _ => ?_
    exact tells_pure rfl (Token.leavesBehind_range? hr)
  · refine (readRow_tells notations false t).bind ?_
    rintro row _ _ rfl
    split
    · exact tells_wrong _ _
    · split
      · exact tells_wrong _ _
      · exact tells_pure rfl (.refl _)

/-! ## The right side -/

theorem problems_encode_row {row : Row} {spaced : Bool}
    (h : (readRow notations spaced t).outcome = .ok row) :
    (Reading.ofNoted (encode row.characters.numbers)).problems = [] := by
  have hscalar := ((readRow_meets notations spaced t).value row h).1
  rw [hscalar.encode]
  rfl

theorem readReplacement_tells (notations : Notations) (t : Text) :
    (readReplacement notations t).Tells notations t fun effect left => left = effect.rest := by
  unfold readReplacement
  refine (readRow_tells notations false t).bind ?_
  rintro row _ hrow rfl
  split
  · exact tells_wrong _ _
  · exact Tells.bind_silent (problems_encode_row hrow) fun _ _ => tells_pure rfl (.refl _)

theorem readSpecial_tells (notations : Notations) (word t : Text) :
    (readSpecial notations word t).Tells notations t fun effect left => left = effect.rest := by
  unfold readSpecial
  split
  · exact tells_wrong _ _
  · refine (readRow_tells notations true t).bind ?_
    rintro row _ hrow rfl
    split
    · exact tells_pure rfl (.refl _)
    · exact Tells.bind_silent (problems_encode_row hrow) fun _ _ => tells_pure rfl (.refl _)

theorem readRight_tells (notations : Notations) (t : Text) :
    (readRight notations t).Tells notations t fun effect left => left = effect.rest := by
  unfold readRight
  split
  · exact tells_wrong _ _
  · next body hbody =>
    have hequals := Token.leavesBehind_equals? hbody
    split
    · next word rest hword =>
      have hspecial := (readSpecial_tells notations word.toLower rest).behind
        (Token.leavesBehind_keyword? hword)
      exact hspecial.behind hequals
    · exact (readReplacement_tells notations body).behind hequals

/-! ## The line -/

theorem readVerb_tells (notations : Notations) (line : Text) :
    (readVerb line).Tells notations line fun read left => left = read.2 := by
  unfold readVerb
  split
  · exact tells_wrong _ _
  · next word rest hword =>
    have hkeyword := Token.leavesBehind_keyword? hword
    split
    · exact tells_wrong _ _
    · split
      · exact tells_wrong _ _
      · next left hleft =>
        refine Tells.behind ?_ hkeyword
        exact tells_pure rfl (Token.leavesBehind_space? hleft)

theorem readEffect_tells (notations : Notations) (verb : Verb) (t : Text) :
    (readEffect notations verb t).Tells notations t fun effect left => left = effect.rest := by
  cases verb with
  | accept => exact tells_pure rfl (.refl t)
  | delete => exact tells_pure rfl (.refl t)
  | replace => exact readRight_tells notations t

/-- All that is told of a line are the problems of its first quoted strings; of all of them that
stand in front of a comment, if the line is a rule. -/
theorem read_tells (notations : Notations) (line : Text) :
    (read notations line).Tells notations line fun _ left => Token.endsHere left := by
  unfold read
  refine (readVerb_tells notations line).bind ?_
  rintro ⟨verb, _⟩ t _ rfl
  refine (readLeft_tells notations t).bind ?_
  rintro ⟨target, _⟩ t' _ rfl
  refine (readEffect_tells notations verb t').bind ?_
  rintro effect _ _ rfl
  split
  · next hends => exact tells_pure hends (.refl _)
  · exact tells_wrong _ _

end RuleLine

end PlainForm

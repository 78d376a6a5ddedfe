import PlainForm.Proofs.RuleLine.Contract

/-!
# The sides of a rule are read as the grammar says

A left or right side that is read is one of the grammar, with blanks around it, and comes to what it
denotes. A side of the grammar is read to its end if nothing follows it that could go on with it.
-/

namespace PlainForm.RuleLine

open Grammar Reading
open Token (Item)

variable {xml spaced : Bool} {gap t rest written characters : Text} {ps : List Problem}
  {numeral : Numeral} {items : List Item}

/-! ## What items denote -/

theorem readCharacter_eq_ok {c : CodePoint} (hs : numeral.IsShort) :
    readCharacter numeral = ⟨.ok c, ps⟩ ↔
      numeral.value = c.val ∧ ¬ c.isSurrogate ∧ ps = [] := by
  obtain ⟨n, hn⟩ := Numeral.exists_number hs
  have hpure : Reading.ofExcept (.ok n) = pure n := rfl
  unfold readCharacter
  rw [hn, hpure, Reading.pure_bind, ← Numeral.ofNat?_number_eq_some hn]
  cases hc : CodePoint.ofNat? n with
  | none => simp [wrong_ne_ok]
  | some d =>
    simp only [Option.some.injEq]
    split
    · next hsur =>
      simp only [wrong_ne_ok, false_iff]
      rintro ⟨rfl, hnot, -⟩
      exact hnot hsur
    · next hsur =>
      rw [pure_eq_ok]
      constructor
      · rintro ⟨rfl, rfl⟩
        exact ⟨rfl, hsur, rfl⟩
      · rintro ⟨rfl, -, rfl⟩
        exact ⟨rfl, rfl⟩

theorem readItem_number_eq_ok : readItem { xml } (.number numeral) = ⟨.ok t, ps⟩ ↔
    ∃ c, readCharacter numeral = ⟨.ok c, ps⟩ ∧ t = [c] := by
  unfold readItem
  rw [bind_eq_ok]
  constructor
  · rintro ⟨c, before, after, hc, ht, rfl⟩
    obtain ⟨rfl, rfl⟩ := pure_eq_ok.1 ht
    exact ⟨c, by rw [hc, List.append_nil], rfl⟩
  · rintro ⟨c, hc, rfl⟩
    exact ⟨c, ps, [], hc, rfl, (List.append_nil ps).symm⟩

theorem readItem_quoted_eq_ok {content : Text} :
    readItem { xml } (.quoted content) = ⟨.ok t, ps⟩ ↔
      ∃ noted, content.decode { xml } = .ok noted ∧ t = noted.value ∧ ps = noted.problems := by
  unfold readItem
  rw [bind_eq_ok]
  constructor
  · rintro ⟨noted, before, after, hdecode, hnoted, rfl⟩
    obtain ⟨hok, rfl⟩ := ofExcept_eq_ok.1 hdecode
    obtain ⟨rfl, rfl⟩ := ofNoted_eq_ok.1 hnoted
    exact ⟨noted, hok, rfl, rfl⟩
  · rintro ⟨noted, hdecode, rfl, rfl⟩
    exact ⟨noted, [], noted.problems, ofExcept_eq_ok.2 ⟨hdecode, rfl⟩, rfl, rfl⟩

theorem readAll_cons_eq_ok {item : Item} :
    readAll { xml } (item :: items) = ⟨.ok characters, ps⟩ ↔
      ∃ first others before after, readItem { xml } item = ⟨.ok first, before⟩ ∧
        readAll { xml } items = ⟨.ok others, after⟩ ∧ characters = first ++ others ∧
        ps = before ++ after := by
  rw [readAll, bind_eq_ok]
  constructor
  · rintro ⟨first, before, later, hfirst, hlater, rfl⟩
    obtain ⟨others, after, last, hothers, hlast, rfl⟩ := bind_eq_ok.1 hlater
    obtain ⟨rfl, rfl⟩ := pure_eq_ok.1 hlast
    exact ⟨first, others, before, after, hfirst, hothers, rfl, by rw [List.append_nil]⟩
  · rintro ⟨first, others, before, after, hfirst, hothers, rfl, rfl⟩
    refine ⟨first, before, after, hfirst, bind_eq_ok.2 ?_, rfl⟩
    exact ⟨others, after, [], hothers, rfl, (List.append_nil after).symm⟩

theorem readAll_eq_ok (hs : ShortNumbers items) :
    readAll { xml } items = ⟨.ok characters, ps⟩ ↔ Denotes xml items characters ps := by
  induction items generalizing characters ps with
  | nil =>
    rw [readAll, pure_eq_ok]
    constructor
    · rintro ⟨rfl, rfl⟩
      exact .nil
    · intro h
      cases h
      exact ⟨rfl, rfl⟩
  | cons item items ih =>
    have hitems : ∀ {c p}, readAll { xml } items = ⟨.ok c, p⟩ ↔ Denotes xml items c p :=
      ih fun i hi => hs i (List.mem_cons_of_mem _ hi)
    rw [readAll_cons_eq_ok]
    constructor
    · rintro ⟨first, others, before, after, hfirst, hothers, rfl, rfl⟩
      have hlater := hitems.1 hothers
      cases item with
      | number numeral =>
        obtain ⟨c, hc, rfl⟩ := readItem_number_eq_ok.1 hfirst
        have hshort := hs numeral List.mem_cons_self
        obtain ⟨hvalue, hscalar, rfl⟩ := (readCharacter_eq_ok hshort).1 hc
        exact .number hvalue hscalar hlater
      | quoted content =>
        obtain ⟨noted, hdecode, rfl, rfl⟩ := readItem_quoted_eq_ok.1 hfirst
        exact .quoted hdecode hlater
    · intro h
      cases h with
      | @number numeral _ others _ c hvalue hscalar hlater =>
        have hshort := hs numeral List.mem_cons_self
        have hc := (readCharacter_eq_ok hshort).2 ⟨hvalue, hscalar, rfl⟩
        exact ⟨[c], others, [], ps, readItem_number_eq_ok.2 ⟨c, hc, rfl⟩, hitems.2 hlater,
          rfl, rfl⟩
      | @quoted _ _ others after noted hdecode hlater =>
        exact ⟨noted.value, others, noted.problems, after,
          readItem_quoted_eq_ok.2 ⟨noted, hdecode, rfl, rfl⟩, hitems.2 hlater, rfl, rfl⟩

/-! ## Rows -/

theorem readRow_eq_ok {row : Row} (hshort : ShortNumbers (Token.items false spaced t).1) :
    readRow { xml } spaced t = ⟨.ok row, ps⟩ ↔
      ∃ items, Token.items false spaced t = (items, row.rest) ∧ items.length = row.itemCount ∧
        Denotes xml items row.characters ps := by
  unfold readRow
  rw [bind_eq_ok]
  constructor
  · rintro ⟨characters, before, after, hall, hrow, rfl⟩
    obtain ⟨rfl, rfl⟩ := pure_eq_ok.1 hrow
    rw [List.append_nil]
    exact ⟨_, rfl, rfl, (readAll_eq_ok hshort).1 hall⟩
  · rintro ⟨items, hitems, hcount, hdenotes⟩
    have hfirst : (Token.items false spaced t).1 = items := by rw [hitems]
    have hrest : (Token.items false spaced t).2 = row.rest := by rw [hitems]
    refine ⟨row.characters, ps, [], (readAll_eq_ok hshort).2 ?_, ?_, (List.append_nil ps).symm⟩
    · exact hfirst ▸ hdenotes
    · rw [pure_eq_ok]
      exact ⟨by rw [hfirst, hrest, hcount], rfl⟩

theorem shortNumbers_items (spaced : Bool) (hs : t.HasShortRuns) :
    ShortNumbers (Token.items false spaced t).1 :=
  fun _ hmem => ((Token.items_part false spaced t).2 _ hmem).isShort hs

/-- A row that is written comes to what it denotes, and is not taken for an absent one. -/
theorem readRow_written (spaced : Bool) (hs : ShortNumbers items)
    (hblanks : Blanks gap) (hne : spaced → gap ≠ []) (hw : WrittenRow written items)
    (hend : EndsRow rest)
    (hdenotes : Denotes xml items characters ps) :
    readRow { xml } spaced (gap ++ (written ++ rest)) =
        ⟨.ok ⟨characters, items.length, rest.skipBlanks⟩, ps⟩ ∧ items.length ≠ 0 := by
  have hitems : Token.items false spaced (gap ++ (written ++ rest)) = (items, rest.skipBlanks) :=
    Token.items_written hw hblanks hne hend
  have hshort : ShortNumbers (Token.items false spaced (gap ++ (written ++ rest))).1 := by
    rw [hitems]
    exact hs
  refine ⟨(readRow_eq_ok hshort).2 ⟨items, hitems, rfl, hdenotes⟩, ?_⟩
  cases hw <;> simp

/-! ## The left side -/

theorem readRange_eq_ok {low high : Numeral} {target : Target} (hlow : low.IsShort)
    (hhigh : high.IsShort) : readRange low high = ⟨.ok target, ps⟩ ↔
      Left.Denotes xml (.range low high) target ps := by
  obtain ⟨l, hl⟩ := Numeral.exists_number hlow
  obtain ⟨h, hh⟩ := Numeral.exists_number hhigh
  have hstep : readRange low high =
      if l ≤ h ∧ h ≤ 0x10FFFF then pure (.range l h) else wrong (.invalidRange l h) := by
    unfold readRange
    rw [hl, hh]
    rfl
  have hvalues : l ≤ h ∧ h ≤ 0x10FFFF ↔ (low.value ≤ high.value ∧ high.value ≤ 0x10FFFF) ∧
      l = low.value ∧ h = high.value := by
    rcases Numeral.number_eq_ok hl with hl | hl <;> rcases Numeral.number_eq_ok hh with hh | hh <;>
      omega
  rw [hstep]
  constructor
  · intro hr
    split at hr
    · next hbounds =>
      obtain ⟨⟨hordered, hwithin⟩, rfl, rfl⟩ := hvalues.1 hbounds
      obtain ⟨rfl, rfl⟩ := pure_eq_ok.1 hr
      exact .range hordered hwithin
    · exact absurd hr wrong_ne_ok
  · intro hr
    cases hr with
    | range hordered hwithin =>
      have hbounds : l ≤ h ∧ h ≤ 0x10FFFF := by
        rcases Numeral.number_eq_ok hl with hl | hl <;>
          rcases Numeral.number_eq_ok hh with hh | hh <;> omega
      obtain ⟨-, rfl, rfl⟩ := hvalues.1 hbounds
      rw [if_pos hbounds, pure_eq_ok]
      exact ⟨rfl, rfl⟩

theorem readLeft_eq_ok {notations : Notations} {target : Target} :
    readLeft notations t = ⟨.ok (target, rest), ps⟩ ↔
      (∃ low high, Token.range? t = some (low, high, rest) ∧
        readRange low high = ⟨.ok target, ps⟩) ∨
      (Token.range? t = none ∧ ∃ row, readRow notations false t = ⟨.ok row, ps⟩ ∧
        row.itemCount ≠ 0 ∧ row.characters ≠ [] ∧
        target = .sequence row.characters.numbers ∧ rest = row.rest) := by
  unfold readLeft
  cases hrange : Token.range? t with
  | some found =>
    obtain ⟨low, high, behind⟩ := found
    simp only [bind_eq_ok, pure_eq_ok, Prod.mk.injEq, Option.some.injEq, reduceCtorEq, false_and,
      or_false]
    constructor
    · rintro ⟨target', before, after, hread, ⟨⟨rfl, rfl⟩, rfl⟩, rfl⟩
      exact ⟨low, high, ⟨rfl, rfl, rfl⟩, by rw [hread, List.append_nil]⟩
    · rintro ⟨_, _, ⟨rfl, rfl, rfl⟩, hread⟩
      exact ⟨target, ps, [], hread, ⟨⟨rfl, rfl⟩, rfl⟩, (List.append_nil ps).symm⟩
  | none =>
    simp only [bind_eq_ok, ite_wrong_eq_ok, pure_eq_ok, Prod.mk.injEq, reduceCtorEq, false_and,
      exists_false, false_or, true_and]
    constructor
    · rintro ⟨row, before, after, hrow, ⟨hcount, hne, ⟨rfl, rfl⟩, rfl⟩, rfl⟩
      exact ⟨row, by rw [hrow, List.append_nil], hcount, hne, rfl, rfl⟩
    · rintro ⟨row, hrow, hcount, hne, rfl, rfl⟩
      exact ⟨row, ps, [], hrow, ⟨hcount, hne, ⟨rfl, rfl⟩, rfl⟩, (List.append_nil ps).symm⟩

theorem readLeft_sound {target : Target} (hs : t.HasShortRuns)
    (h : readLeft { xml } t = ⟨.ok (target, rest), ps⟩) :
    ∃ gap written gap' left, t = gap ++ (written ++ (gap' ++ rest)) ∧ Blanks gap ∧ Blanks gap' ∧
      WrittenLeft written left ∧ left.Denotes xml target ps := by
  rcases readLeft_eq_ok.1 h with ⟨low, high, hrange, hread⟩ |
    ⟨-, row, hrow, hitem, hne, rfl, rfl⟩
  · obtain ⟨gap, written, ht, hblanks, hw⟩ := Token.range?_sound hrange
    obtain ⟨hlow, hhigh⟩ := (Token.range?_part hrange).2 hs
    exact ⟨gap, written, [], _, ht, hblanks, blanks_nil, hw,
      (readRange_eq_ok hlow hhigh).1 hread⟩
  · obtain ⟨items, hitems, hcount, hdenotes⟩ := (readRow_eq_ok (shortNumbers_items _ hs)).1 hrow
    rcases Token.items_sound hitems with ⟨rfl, -⟩ |
      ⟨gap, written, gap', ht, hblanks, hblanks', hw, -⟩
    · exact absurd hcount.symm hitem
    · exact ⟨gap, written, gap', _, ht, hblanks, hblanks', .row hw, .row hdenotes hne⟩

theorem readLeft_written {left : Left} {target : Target} (hs : left.IsShort)
    (hw : WrittenLeft written left) (hdenotes : left.Denotes xml target ps)
    (hend : EndsRow rest) :
    ∃ rest', rest'.skipBlanks = rest.skipBlanks ∧
      readLeft { xml } (written ++ rest) = ⟨.ok (target, rest'), ps⟩ := by
  cases left with
  | range low high =>
    have hrange : Token.range? (written ++ rest) = some (low, high, rest) :=
      Token.range?_written blanks_nil hw hend.stopsRun
    exact ⟨rest, rfl, readLeft_eq_ok.2
      (.inl ⟨low, high, hrange, (readRange_eq_ok hs.1 hs.2).2 hdenotes⟩)⟩
  | row items =>
    cases hw with
    | row hw =>
      cases hdenotes with
      | @row _ characters _ hdenotes hne =>
        have hrange : Token.range? (written ++ rest) = none :=
          Token.range?_row hw blanks_nil hend
        obtain ⟨hrow, hcount⟩ := readRow_written false hs blanks_nil (by simp) hw hend hdenotes
        exact ⟨rest.skipBlanks, skipBlanks_skipBlanks rest,
          readLeft_eq_ok.2 (.inr ⟨hrange, _, hrow, hcount, hne, rfl, rfl⟩)⟩

/-! ## Words -/

theorem continues_toLower (c : CodePoint) :
    c.toLower.isLetter = c.isLetter ∧ Token.continues c.toLower = Token.continues c := by
  unfold Token.continues CodePoint.toLower
  split
  · next h =>
    have hupper : 0x41 ≤ c.val ∧ c.val ≤ 0x5A := by simpa [CodePoint.isUpper] using h
    have hlower : CodePoint.isLetter ⟨c.val + 0x20, by omega⟩ = true := by
      simp [CodePoint.isLetter, CodePoint.isUpper, CodePoint.isLower]
      omega
    have hletter : c.isLetter = true := by simp [CodePoint.isLetter, h]
    simp only [hlower, hletter, Bool.true_or, and_self]
  · exact ⟨rfl, rfl⟩

theorem isWord_of_toLower {word known : Text} (h : Text.toLower word = known)
    (hk : Token.IsWord known) : Token.IsWord word := by
  subst h
  obtain ⟨hfirst, hlong, hall⟩ := hk
  refine ⟨?_, by simpa [Text.toLower] using hlong, ?_⟩
  · intro c hc
    rw [← (continues_toLower c).1]
    apply hfirst
    simpa [Text.toLower] using ⟨c, hc, rfl⟩
  · intro c hc
    have hlower := hall c.toLower (List.mem_map_of_mem hc)
    exact (continues_toLower c).2.symm.trans hlower

theorem isWord_verb (verb : Verb) : Token.IsWord verb.word := by
  cases verb <;> exact ⟨by simp [Verb.word]; decide, by decide, by decide⟩

theorem isWord_special {action : Action} (h : action ∈ Action.specials) :
    Token.IsWord action.keyword := by
  simp only [Action.specials, List.mem_cons, List.not_mem_nil, or_false] at h
  rcases h with rfl | rfl | rfl | rfl | rfl | rfl | rfl | rfl <;>
    exact ⟨by decide, by decide, by decide⟩

theorem special?_eq_some {word : Text} {action : Action} :
    Action.special? word = some action ↔ action ∈ Action.specials ∧ word = action.keyword := by
  constructor
  · intro h
    have hfound := List.find?_some h
    simp only [decide_eq_true_eq] at hfound
    exact ⟨List.mem_of_find?_eq_some h, hfound.symm⟩
  · rintro ⟨hmem, rfl⟩
    revert action
    decide

theorem ofWord?_eq_some {word : Text} {verb : Verb} :
    Verb.ofWord? word = some verb ↔ word = verb.word := by
  constructor
  · intro h
    have hfound := List.find?_some h
    simp only [decide_eq_true_eq] at hfound
    exact hfound.symm
  · rintro rfl
    cases verb <;> decide

/-! ## The right side -/

variable {effect : Effect} {action : Action}

theorem effect_eq_ok (hscalar : characters.IsScalar) :
    (do return ⟨action, some (← ofNoted (encode characters.numbers)), rest⟩ : Reading Effect) =
        ⟨.ok effect, ps⟩ ↔ effect = ⟨action, some characters, rest⟩ ∧ ps = [] := by
  rw [hscalar.encode, bind_eq_ok]
  constructor
  · rintro ⟨text, before, after, htext, heffect, rfl⟩
    obtain ⟨rfl, rfl⟩ := ofNoted_eq_ok.1 htext
    obtain ⟨rfl, rfl⟩ := pure_eq_ok.1 heffect
    exact ⟨rfl, rfl⟩
  · rintro ⟨rfl, rfl⟩
    exact ⟨characters, [], [], rfl, rfl, rfl⟩

section Results

variable {notations : Notations} {word : Text}

theorem isScalar_of_readRow {row : Row} (h : readRow notations spaced t = ⟨.ok row, ps⟩) :
    row.characters.IsScalar :=
  ((readRow_meets notations spaced t).value row (by rw [h])).1

theorem readReplacement_eq_ok : readReplacement notations t = ⟨.ok effect, ps⟩ ↔
    ∃ row, readRow notations false t = ⟨.ok row, ps⟩ ∧ row.itemCount ≠ 0 ∧
      effect = ⟨.replace, some row.characters, row.rest⟩ := by
  unfold readReplacement
  rw [bind_eq_ok]
  constructor
  · rintro ⟨row, before, after, hrow, hlater, rfl⟩
    obtain ⟨hcount, hlater⟩ := ite_wrong_eq_ok.1 hlater
    obtain ⟨rfl, rfl⟩ := (effect_eq_ok (isScalar_of_readRow hrow)).1 hlater
    exact ⟨row, by rw [hrow, List.append_nil], hcount, rfl⟩
  · rintro ⟨row, hrow, hcount, rfl⟩
    refine ⟨row, ps, [], hrow, ite_wrong_eq_ok.2 ⟨hcount, ?_⟩, (List.append_nil ps).symm⟩
    exact (effect_eq_ok (isScalar_of_readRow hrow)).2 ⟨rfl, rfl⟩

theorem readSpecial_eq_ok : readSpecial notations word t = ⟨.ok effect, ps⟩ ↔
    ∃ action row, Action.special? word = some action ∧
      readRow notations true t = ⟨.ok row, ps⟩ ∧
      effect = ⟨action, if row.itemCount = 0 then none else some row.characters, row.rest⟩ := by
  unfold readSpecial
  constructor
  · intro h
    split at h
    · exact absurd h wrong_ne_ok
    · next action hspecial =>
      obtain ⟨row, before, after, hrow, hlater, rfl⟩ := bind_eq_ok.1 h
      refine ⟨action, row, hspecial, ?_⟩
      split at hlater
      · next hcount =>
        obtain ⟨rfl, rfl⟩ := pure_eq_ok.1 hlater
        exact ⟨by rw [hrow, List.append_nil], by rw [if_pos hcount]⟩
      · next hcount =>
        obtain ⟨rfl, rfl⟩ := (effect_eq_ok (isScalar_of_readRow hrow)).1 hlater
        exact ⟨by rw [hrow, List.append_nil], by rw [if_neg hcount]⟩
  · rintro ⟨action, row, hspecial, hrow, rfl⟩
    rw [hspecial]
    refine bind_eq_ok.2 ⟨row, ps, [], hrow, ?_, (List.append_nil ps).symm⟩
    split
    · rfl
    · exact (effect_eq_ok (isScalar_of_readRow hrow)).2 ⟨rfl, rfl⟩

theorem readRight_eq_ok : readRight notations t = ⟨.ok effect, ps⟩ ↔
    ∃ body, Token.equals? t = some body ∧
      ((∃ word rest, Token.keyword? body = some (word, rest) ∧
          readSpecial notations word.toLower rest = ⟨.ok effect, ps⟩) ∨
        (Token.keyword? body = none ∧ readReplacement notations body = ⟨.ok effect, ps⟩)) := by
  unfold readRight
  cases Token.equals? t with
  | none => simp [wrong_ne_ok]
  | some body =>
    constructor
    · intro h
      dsimp only at h
      refine ⟨body, rfl, ?_⟩
      split at h
      · next word rest hword => exact .inl ⟨word, rest, hword, h⟩
      · next hword => exact .inr ⟨hword, h⟩
    · rintro ⟨_, hbody, ⟨word, rest, hword, h⟩ | ⟨hword, h⟩⟩
      · obtain rfl := Option.some.inj hbody
        simpa only [hword] using h
      · obtain rfl := Option.some.inj hbody
        simpa only [hword] using h

end Results

theorem readReplacement_sound (hs : t.HasShortRuns)
    (h : readReplacement { xml } t = ⟨.ok effect, ps⟩) :
    ∃ written gap right, t = written ++ (gap ++ effect.rest) ∧ Blanks gap ∧
      WrittenRight written right ∧ right.Denotes xml effect.action effect.right ps := by
  obtain ⟨row, hrow, hitem, rfl⟩ := readReplacement_eq_ok.1 h
  obtain ⟨items, hitems, hcount, hdenotes⟩ := (readRow_eq_ok (shortNumbers_items _ hs)).1 hrow
  rcases Token.items_sound hitems with ⟨rfl, -⟩ | ⟨gap, written, gap', ht, hg, hg', hw, -⟩
  · exact absurd hcount.symm hitem
  · exact ⟨gap ++ written, gap', .row items, by rw [ht, List.append_assoc], hg', .row hg hw,
      .row hdenotes⟩

theorem readReplacement_written (hs : ShortNumbers items) (hblanks : Blanks gap)
    (hw : WrittenRow written items) (hend : EndsRow rest)
    (hdenotes : Denotes xml items characters ps) :
    readReplacement { xml } (gap ++ (written ++ rest)) =
      ⟨.ok ⟨.replace, some characters, rest.skipBlanks⟩, ps⟩ := by
  obtain ⟨hrow, hcount⟩ := readRow_written false hs hblanks (by simp) hw hend hdenotes
  exact readReplacement_eq_ok.2 ⟨_, hrow, hcount, rfl⟩

theorem readSpecial_sound {word : Text} (hs : rest.HasShortRuns) (hblanks : Blanks gap)
    (h : readSpecial { xml } (Text.toLower word) rest = ⟨.ok effect, ps⟩) :
    ∃ written gap' right, gap ++ (word ++ rest) = written ++ (gap' ++ effect.rest) ∧
      Blanks gap' ∧ WrittenRight written right ∧
      right.Denotes xml effect.action effect.right ps := by
  obtain ⟨action, ⟨characters, count, left⟩, hspecial, hrow, rfl⟩ := readSpecial_eq_ok.1 h
  obtain ⟨hknown, hword⟩ := special?_eq_some.1 hspecial
  obtain ⟨items, hitems, rfl, hdenotes⟩ := (readRow_eq_ok (shortNumbers_items _ hs)).1 hrow
  split
  · next hnone =>
    obtain rfl := List.length_eq_zero_iff.1 hnone
    cases hdenotes
    rcases Token.items_sound hitems with ⟨-, gap', rfl, hg⟩ | ⟨_, _, _, _, _, _, hw, _⟩
    · exact ⟨gap ++ word, gap', _, by simp, hg, .special hblanks hknown hword, .special⟩
    · cases hw
  · next hsome =>
    rcases Token.items_sound hitems with ⟨rfl, -⟩ | ⟨gap', written, last, rfl, hg, hlast, hw, hne⟩
    · exact absurd rfl hsome
    · exact ⟨gap ++ (word ++ (gap' ++ written)), last, _, by simp, hlast,
        .specialRow hblanks hknown hword hg (hne rfl) hw,
        .specialRow (by rintro rfl; exact hsome rfl) hdenotes⟩

theorem readSpecial_none (hknown : action ∈ Action.specials)
    (hend : EndsRow rest) : readSpecial { xml } action.keyword rest =
      ⟨.ok ⟨action, none, rest.skipBlanks⟩, []⟩ := by
  have hrow : readRow { xml } true rest = ⟨.ok ⟨[], 0, rest.skipBlanks⟩, []⟩ :=
    readRow_nil (Token.items_eq_nil hend)
  exact readSpecial_eq_ok.2 ⟨action, _, special?_eq_some.2 ⟨hknown, rfl⟩, hrow, rfl⟩

theorem readSpecial_written (hs : ShortNumbers items) (hknown : action ∈ Action.specials)
    (hblanks : Blanks gap) (hne : gap ≠ [])
    (hw : WrittenRow written items) (hend : EndsRow rest)
    (hdenotes : Denotes xml items characters ps) :
    readSpecial { xml } action.keyword (gap ++ (written ++ rest)) =
      ⟨.ok ⟨action, some characters, rest.skipBlanks⟩, ps⟩ := by
  obtain ⟨hrow, hcount⟩ := readRow_written true hs hblanks (fun _ => hne) hw hend hdenotes
  refine readSpecial_eq_ok.2 ⟨action, _, special?_eq_some.2 ⟨hknown, rfl⟩, hrow, ?_⟩
  rw [if_neg hcount]

theorem readRight_sound (hs : t.HasShortRuns) (h : readRight { xml } t = ⟨.ok effect, ps⟩) :
    ∃ gap written gap' right,
      t = gap ++ ('=' : CodePoint) :: (written ++ (gap' ++ effect.rest)) ∧ Blanks gap ∧
        Blanks gap' ∧ WrittenRight written right ∧
        right.Denotes xml effect.action effect.right ps := by
  obtain ⟨body, hbody, hread⟩ := readRight_eq_ok.1 h
  obtain ⟨gap, rfl, hblanks⟩ := Token.equals?_eq_some.1 hbody
  have hsbody : body.HasShortRuns := hs.of_infix (Token.equals?_suffix hbody).isInfix
  rcases hread with ⟨word, rest, hword, hspecial⟩ | ⟨-, hreplacement⟩
  · have hsrest : rest.HasShortRuns := hsbody.of_infix (Token.keyword?_suffix hword).isInfix
    obtain ⟨gap', rfl, hblanks', -, -⟩ := Token.keyword?_eq_some.1 hword
    obtain ⟨written, last, right, hsplit, hlast, hw, hdenotes⟩ :=
      readSpecial_sound hsrest hblanks' hspecial
    exact ⟨gap, written, last, right, by rw [hsplit], hblanks, hlast, hw, hdenotes⟩
  · obtain ⟨written, last, right, rfl, hlast, hw, hdenotes⟩ :=
      readReplacement_sound hsbody hreplacement
    exact ⟨gap, written, last, right, rfl, hblanks, hlast, hw, hdenotes⟩

theorem readRight_written {right : Right} {text : Option Text}
    (hequals : Token.equals? t = some (written ++ rest)) (hs : right.IsShort)
    (hw : WrittenRight written right) (hdenotes : right.Denotes xml action text ps)
    (hend : EndsRow rest) :
    readRight { xml } t = ⟨.ok ⟨action, text, rest.skipBlanks⟩, ps⟩ := by
  refine readRight_eq_ok.2 ⟨_, hequals, ?_⟩
  cases hw with
  | @row gap' written items hblanks' hw =>
    cases hdenotes with
    | row hdenotes =>
      rw [List.append_assoc]
      exact .inr ⟨Token.keyword?_row hw hblanks',
        readReplacement_written hs hblanks' hw hend hdenotes⟩
  | @special gap' word _ hblanks' hknown hword =>
    have hkeyword : Token.keyword? (gap' ++ word ++ rest) = some (word, rest) := by
      rw [List.append_assoc]
      exact Token.keyword?_eq_some.2
        ⟨gap', rfl, hblanks', isWord_of_toLower hword (isWord_special hknown), hend.stopsRun⟩
    cases hdenotes with
    | special => exact .inl ⟨word, rest, hkeyword, hword ▸ readSpecial_none hknown hend⟩
    | specialRow hne _ => exact absurd rfl hne
  | @specialRow gap' word gap'' written _ items hblanks' hknown hword hg hne hw =>
    have hkeyword : Token.keyword? (gap' ++ (word ++ (gap'' ++ written)) ++ rest) =
        some (word, gap'' ++ (written ++ rest)) := by
      simp only [List.append_assoc]
      exact Token.keyword?_eq_some.2 ⟨gap', rfl, hblanks',
        isWord_of_toLower hword (isWord_special hknown), hg.stopsRun hne _⟩
    cases hdenotes with
    | special => cases hw
    | specialRow _ hdenotes =>
      exact .inl ⟨word, _, hkeyword, hword ▸ readSpecial_written hs hknown hg hne hw hend hdenotes⟩

end PlainForm.RuleLine

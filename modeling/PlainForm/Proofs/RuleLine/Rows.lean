import PlainForm.Proofs.RuleLine.Tokens

/-!
# Rows are read as they are written

`Token.items` takes a row of the grammar off a line, and the blanks on both sides of it. It takes a
row as a whole when an equals sign, a comment or nothing comes next. There the range that is tried
in front of a row is not found.
-/

namespace PlainForm

open Text (StopsRun stopsRun_cons stopsRun_nil)

namespace Grammar

variable {gap t rest : Text}

/-- Blanks and then an equals sign, a comment or nothing: what may stand behind a row. -/
def EndsRow (rest : Text) : Prop :=
  ∃ gap tail, rest = gap ++ tail ∧ Blanks gap ∧ ∀ c ∈ tail.head?, c = '=' ∨ c = '#'

theorem endsRow_of_writtenEnd (h : WrittenEnd rest) : EndsRow rest := by
  cases h with
  | @blank gap hblanks => exact ⟨rest, [], (List.append_nil _).symm, hblanks, by simp⟩
  | @comment gap text hblanks =>
    exact ⟨gap, ('#' : CodePoint) :: text, rfl, hblanks, by simp⟩

theorem endsRow_equals (hblanks : Blanks gap) (t : Text) :
    EndsRow (gap ++ ('=' : CodePoint) :: t) :=
  ⟨gap, ('=' : CodePoint) :: t, rfl, hblanks, by simp⟩

theorem EndsRow.skipBlanks (h : EndsRow rest) :
    ∀ c ∈ (Text.skipBlanks rest).head?, c = '=' ∨ c = '#' := by
  obtain ⟨gap, tail, rfl, hblanks, htail⟩ := h
  have hstop : StopsRun CodePoint.isBlank tail := by
    intro c hc
    rcases htail c hc with rfl | rfl <;> decide
  rw [skipBlanks_append hblanks hstop]
  exact htail

theorem EndsRow.stopsRun (h : EndsRow rest) : StopsRun Token.continues rest := by
  obtain ⟨gap, tail, rfl, hblanks, htail⟩ := h
  cases gap with
  | nil =>
    intro c hc
    rcases htail c hc with rfl | rfl <;> decide
  | cons b gap =>
    exact stopsRun_cons.2 fun hb => Token.not_blank_of_continues hb (hblanks b List.mem_cons_self)

theorem Blanks.stopsRun (h : Blanks gap) (hne : gap ≠ []) (t : Text) :
    StopsRun Token.continues (gap ++ t) := by
  obtain ⟨b, gap, rfl⟩ := List.exists_cons_of_ne_nil hne
  exact stopsRun_cons.2 fun hb => Token.not_blank_of_continues hb (h b List.mem_cons_self)

theorem written_row_cons {written : Text} {items : List Token.Item} (h : WrittenRow written items) :
    ∃ c more, written = c :: more ∧ Token.startsItem c := by
  cases h with
  | single hfirst => exact Token.written_item_cons hfirst
  | cons hfirst _ _ _ =>
    obtain ⟨c, more, rfl, hc⟩ := Token.written_item_cons hfirst
    exact ⟨c, _, rfl, hc⟩

end Grammar

namespace Token

open Grammar

variable {gap t rest written after content start : Text} {item : Item} {row : List Item}
  {escapes spaced : Bool}

/-! ## Items -/

/-- The item that a text begins with, and what is left behind it. -/
inductive FirstItem (escapes : Bool) : Text → Item → Text → Prop where
  | number {gap written rest : Text} {numeral : Numeral} (blanks : Blanks gap)
      (number : WrittenNumber written numeral) :
      FirstItem escapes (gap ++ (written ++ rest)) (.number numeral) rest
  | quoted {gap after content rest : Text} (blanks : Blanks gap)
      (closed : (if escapes then closeEscaped? after else close? after) = some (content, rest)) :
      FirstItem escapes (gap ++ ('"' : CodePoint) :: after) (.quoted content) rest

theorem firstItem (h : item? escapes t = some (item, rest)) : FirstItem escapes t item rest := by
  unfold item? at h
  split at h
  · next numeral rest' hn =>
    cases h
    obtain ⟨gap, written, rfl, hblanks, hw⟩ := number?_sound hn
    exact .number hblanks hw
  · obtain ⟨⟨content, rest'⟩, hq, h⟩ := Option.map_eq_some_iff.1 h
    cases h
    obtain ⟨gap, after, rfl, hblanks, hclose⟩ := quoted?_eq_some.1 hq
    exact .quoted hblanks hclose

theorem item?_sound (h : item? false t = some (item, rest)) :
    ∃ gap written, t = gap ++ (written ++ rest) ∧ Blanks gap ∧ WrittenItem written item := by
  cases firstItem h with
  | number hblanks hw => exact ⟨_, _, rfl, hblanks, .number hw⟩
  | quoted hblanks hclose =>
    obtain ⟨rfl, hinner⟩ := close?_eq_some.1 hclose
    exact ⟨_, _, by simp, hblanks, .quoted hinner⟩

theorem number?_eq_none (h : StopsRun continues t.skipBlanks) : number? t = none :=
  numeralThen_eq_none h

theorem number?_quoted (hblanks : Blanks gap) (t : Text) :
    number? (gap ++ ('"' : CodePoint) :: t) = none := by
  apply number?_eq_none
  rw [skipBlanks_cons hblanks (by decide)]
  exact stopsRun_cons.2 (by decide)

theorem item?_quoted (hblanks : Blanks gap)
    (hclose : (if escapes then closeEscaped? after else close? after) = some (content, rest)) :
    item? escapes (gap ++ ('"' : CodePoint) :: after) = some (.quoted content, rest) := by
  rw [item?, number?_quoted hblanks, quoted?_eq_some.2 ⟨gap, after, rfl, hblanks, hclose⟩]
  rfl

theorem item?_written (hblanks : Blanks gap) (h : WrittenItem written item)
    (hstop : StopsRun continues rest) :
    item? false (gap ++ (written ++ rest)) = some (item, rest) := by
  cases h with
  | number hw => rw [item?, number?_written hblanks hw hstop]
  | @quoted content hinner =>
    rw [List.cons_append, List.append_assoc]
    exact item?_quoted hblanks (close?_eq_some.2 ⟨rfl, hinner⟩)

theorem item?_eq_none (h : EndsRow t) : item? escapes t = none := by
  have hhead := h.skipBlanks
  have hnumber : number? t = none := by
    refine number?_eq_none fun c hc => ?_
    rcases hhead c hc with rfl | rfl <;> decide
  have hquoted : quoted? escapes t = none := by
    unfold quoted?
    split
    · rfl
    · next c r hr =>
      refine if_neg ?_
      rcases hhead c (by rw [hr]; rfl) with rfl | rfl <;> decide
  rw [item?, hnumber]
  simp only [hquoted, Option.map_none]

/-! ## Rows -/

theorem itemStart?_sound (h : itemStart? spaced t = some start) :
    ∃ gap, t = gap ++ start ∧ Blanks gap ∧ (spaced → gap ≠ []) := by
  cases spaced with
  | false =>
    obtain rfl := Option.some.inj h
    exact ⟨[], rfl, blanks_nil, by simp⟩
  | true =>
    obtain ⟨gap, ht, hne, hblanks, -⟩ := space?_eq_some.1 h
    exact ⟨gap, ht, hblanks, fun _ => hne⟩

theorem items_sound (h : items false spaced t = (row, rest)) :
    (row = [] ∧ ∃ gap, t = gap ++ rest ∧ Blanks gap) ∨
      ∃ gap written gap', t = gap ++ (written ++ (gap' ++ rest)) ∧ Blanks gap ∧ Blanks gap' ∧
        WrittenRow written row ∧ (spaced → gap ≠ []) := by
  fun_induction items false spaced t generalizing row rest with
  | case1 spaced t hs =>
    cases h
    exact .inl ⟨rfl, [], rfl, blanks_nil⟩
  | case2 spaced t start hs hi =>
    cases h
    obtain ⟨gap, ht, hblanks, -⟩ := itemStart?_sound hs
    exact .inl ⟨rfl, gap, ht, hblanks⟩
  | case3 spaced t start hs item after hi hlt more left hmore ih =>
    cases h
    obtain ⟨gap, rfl, hblanks, hne⟩ := itemStart?_sound hs
    obtain ⟨gap', written, rfl, hblanks', hw⟩ := item?_sound hi
    have hgap : Blanks (gap ++ gap') ∧ (spaced → gap ++ gap' ≠ []) :=
      ⟨hblanks.append hblanks', fun hs => by simp [hne hs]⟩
    rcases ih hmore with ⟨rfl, gap'', rfl, hblanks''⟩ |
      ⟨gap'', others, last, rfl, hblanks'', hlast, hothers, hne''⟩
    · exact .inr ⟨gap ++ gap', written, gap'', by simp, hgap.1, hblanks'', .single hw, hgap.2⟩
    · refine .inr ⟨gap ++ gap', written ++ (gap'' ++ others), last, by simp, hgap.1, hlast,
        .cons hw hblanks'' (hne'' rfl) hothers, hgap.2⟩

theorem items_eq (escapes spaced : Bool) (t : Text) : items escapes spaced t =
    match itemStart? spaced t with
    | none => ([], t)
    | some start =>
      match item? escapes start with
      | none => ([], start)
      | some (item, rest) =>
        (item :: (items escapes true rest).1, (items escapes true rest).2) := by
  rw [items]
  split
  · next hs => simp only [hs]
  · next start hs =>
    split
    · next hi => simp only [hs, hi]
    · next hi => simp only [hs, hi]

theorem items_cons (hs : itemStart? spaced t = some start)
    (hi : item? escapes start = some (item, rest)) :
    items escapes spaced t =
      (item :: (items escapes true rest).1, (items escapes true rest).2) := by
  rw [items_eq, hs]
  dsimp only
  rw [hi]

theorem items_unspaced (hs : itemStart? spaced t = none) : items escapes spaced t = ([], t) := by
  rw [items_eq, hs]

theorem items_itemless (hs : itemStart? spaced t = some start)
    (hi : item? escapes start = none) : items escapes spaced t = ([], start) := by
  rw [items_eq, hs]
  dsimp only
  rw [hi]

theorem items_eq_nil (h : EndsRow rest) : items escapes true rest = ([], rest.skipBlanks) := by
  cases hs : itemStart? true rest with
  | none => rw [items_unspaced hs, space?_eq_none hs]
  | some start =>
    obtain ⟨gap, rfl, hne, hblanks, hstop⟩ := space?_eq_some.1 hs
    have hskip : Text.skipBlanks (gap ++ start) = start := skipBlanks_append hblanks hstop
    have hstart : EndsRow start := ⟨[], start, rfl, blanks_nil, hskip ▸ h.skipBlanks⟩
    rw [items_itemless hs (item?_eq_none hstart), hskip]

theorem itemStart?_written (hblanks : Blanks gap) (hne : spaced → gap ≠ [])
    (hstop : StopsRun CodePoint.isBlank t) :
    ∃ gap', itemStart? spaced (gap ++ t) = some (gap' ++ t) ∧ Blanks gap' := by
  cases spaced with
  | false => exact ⟨gap, rfl, hblanks⟩
  | true =>
    exact ⟨[], space?_eq_some.2 ⟨gap, rfl, hne rfl, hblanks, hstop⟩, blanks_nil⟩

theorem items_written (h : WrittenRow written row) (hblanks : Blanks gap)
    (hne : spaced → gap ≠ []) (hend : EndsRow rest) :
    items false spaced (gap ++ (written ++ rest)) = (row, rest.skipBlanks) := by
  induction h generalizing gap spaced with
  | @single written item hfirst =>
    obtain ⟨c, more, hw, hc⟩ := written_item_cons hfirst
    obtain ⟨gap', hs, hblanks'⟩ :=
      itemStart?_written hblanks hne (stopsRun_of_startsItem hc hw rest)
    rw [items_cons hs (item?_written hblanks' hfirst hend.stopsRun), items_eq_nil hend]
  | @cons written gap'' later item row hfirst hblanks'' hne'' hothers ih =>
    obtain ⟨c, more, hw, hc⟩ := written_item_cons hfirst
    simp only [List.append_assoc]
    obtain ⟨gap', hs, hblanks'⟩ := itemStart?_written hblanks hne
      (stopsRun_of_startsItem hc hw (gap'' ++ (later ++ rest)))
    rw [items_cons hs (item?_written hblanks' hfirst (hblanks''.stopsRun hne'' _)),
      ih hblanks'' fun _ => hne'']

/-! ## Rows are no ranges and no words -/

theorem range?_number {numeral : Numeral} (h : WrittenNumber written numeral)
    (hblanks : Blanks gap) (hstop : StopsRun continues rest) (hn : separator? rest = none) :
    range? (gap ++ (written ++ rest)) = none := by
  obtain ⟨c, more, hw, hc⟩ := written_number_cons h
  rw [range?, skipBlanks_append hblanks (stopsRun_of_startsItem hc hw rest)]
  refine numeralThen_written_eq_none h hstop (by rw [hn, Option.bind_none]) fun d t hd => ?_
  rw [separator?_inside hd, Option.bind_none]

theorem range?_quoted {content : Text} (hblanks : Blanks gap) :
    range? (gap ++ ('"' : CodePoint) :: content) = none := by
  rw [range?, skipBlanks_append hblanks (stopsRun_cons.2 (by decide))]
  exact numeralThen_eq_none (stopsRun_cons.2 (by decide))

theorem separator?_endsRow (h : EndsRow rest) : separator? rest = none := by
  have hhead := h.skipBlanks
  unfold separator?
  split
  · rfl
  · next c r hr =>
    rcases hhead c (by rw [hr]; rfl) with rfl | rfl <;> rfl

theorem range?_row (h : WrittenRow written row) (hblanks : Blanks gap) (hend : EndsRow rest) :
    range? (gap ++ (written ++ rest)) = none := by
  cases h with
  | single hfirst =>
    cases hfirst with
    | number hw => exact range?_number hw hblanks hend.stopsRun (separator?_endsRow hend)
    | quoted => exact range?_quoted hblanks
  | @cons _ gap' later _ _ hfirst hblanks' hne hothers =>
    cases hfirst with
    | number hw =>
      obtain ⟨c, more, rfl, hc⟩ := written_row_cons hothers
      simp only [List.append_assoc]
      exact range?_number hw hblanks (hblanks'.stopsRun hne _) (separator?_eq_none hblanks' hc)
    | quoted => exact range?_quoted hblanks

theorem keyword?_quoted (hblanks : Blanks gap) (t : Text) :
    keyword? (gap ++ ('"' : CodePoint) :: t) = none := by
  unfold keyword?
  rw [skipBlanks_cons hblanks (by decide)]
  simp [show ¬ ('"' : CodePoint).isLetter by decide]

theorem keyword?_item (h : WrittenItem written item) (hblanks : Blanks gap) :
    keyword? (gap ++ (written ++ rest)) = none := by
  cases h with
  | number hn =>
    obtain ⟨c, more, hw, hc⟩ := written_number_cons hn
    unfold keyword?
    rw [skipBlanks_append hblanks (stopsRun_of_startsItem hc hw rest)]
    cases hn with
    | decimal hne hall =>
      obtain ⟨d, digits, rfl⟩ := List.exists_cons_of_ne_nil hne
      have hd : d.isDigit := hall d List.mem_cons_self
      have hletter : ¬ d.isLetter := by
        simp only [CodePoint.isDigit, CodePoint.isLetter, CodePoint.isUpper, CodePoint.isLower,
          Bool.or_eq_true, Bool.and_eq_true, decide_eq_true_eq] at *
        omega
      simp [hletter]
    | unicode hmark =>
      have hplus : ¬ (('+' : CodePoint).isLetter || ('+' : CodePoint).isDigit) := by decide
      simp [hplus]
    | hexadecimal hmark => simp [show ¬ ('0' : CodePoint).isLetter by decide]
  | quoted => exact keyword?_quoted hblanks _

theorem keyword?_row (h : WrittenRow written row) (hblanks : Blanks gap) :
    keyword? (gap ++ (written ++ rest)) = none := by
  cases h with
  | single hfirst => exact keyword?_item hfirst hblanks
  | cons hfirst _ _ _ =>
    rw [List.append_assoc]
    exact keyword?_item hfirst hblanks

end Token

end PlainForm

import PlainForm.Proofs.RuleLine.Spec
import PlainForm.Proofs.Runs

/-!
# Tokens are read as they are written

What a token function takes off a line is a token of the grammar, with blanks in front of it. And a
token of the grammar is taken as a whole when what follows it cannot go on with it.
-/

namespace PlainForm

open Text (StopsRun stopsRun_cons stopsRun_nil takeWhile_run dropWhile_run exists_run)

/-! ## Blanks -/

namespace Grammar

variable {gap gap' rest : Text}

theorem blanks_nil : Blanks [] := by simp [Blanks]

theorem blanks_space : Blanks " " :=
  show ∀ c ∈ Text.ofString " ", c.isBlank by decide

theorem Blanks.append (h : Blanks gap) (h' : Blanks gap') : Blanks (gap ++ gap') := by
  intro c hc
  rcases List.mem_append.1 hc with hc | hc
  · exact h c hc
  · exact h' c hc

theorem exists_blanks (t : Text) :
    ∃ gap, t = gap ++ t.skipBlanks ∧ Blanks gap ∧ StopsRun CodePoint.isBlank t.skipBlanks := by
  obtain ⟨gap, rest, rfl, hall, hstop⟩ := exists_run CodePoint.isBlank t
  rw [Text.skipBlanks, dropWhile_run hall hstop]
  exact ⟨gap, rfl, hall, hstop⟩

theorem skipBlanks_append (h : Blanks gap) (hstop : StopsRun CodePoint.isBlank rest) :
    Text.skipBlanks (gap ++ rest) = rest :=
  dropWhile_run h hstop

theorem skipBlanks_cons {c : CodePoint} (h : Blanks gap) (hc : ¬ c.isBlank) (t : Text) :
    Text.skipBlanks (gap ++ c :: t) = c :: t :=
  skipBlanks_append h (stopsRun_cons.2 hc)

theorem skipBlanks_skipBlanks (t : Text) : t.skipBlanks.skipBlanks = t.skipBlanks := by
  obtain ⟨gap, ht, hblanks, hstop⟩ := exists_blanks t
  exact skipBlanks_append blanks_nil hstop

end Grammar

namespace Token

open Grammar

variable {gap t rest word : Text} {numeral low high : Numeral}

theorem space?_eq_some : space? t = some rest ↔
    ∃ gap, t = gap ++ rest ∧ gap ≠ [] ∧ Blanks gap ∧ StopsRun CodePoint.isBlank rest := by
  constructor
  · intro h
    cases t with
    | nil => cases h
    | cons c t =>
      simp only [space?, Option.ite_none_right_eq_some, Option.some.injEq] at h
      obtain ⟨hc, rfl⟩ := h
      obtain ⟨gap, hgap, hblanks, hstop⟩ := exists_blanks t
      refine ⟨c :: gap, by rw [List.cons_append, ← hgap], by simp, ?_, hstop⟩
      simpa [Blanks, hc] using hblanks
  · rintro ⟨gap, rfl, hne, hblanks, hstop⟩
    obtain ⟨c, gap, rfl⟩ := List.exists_cons_of_ne_nil hne
    have hc : c.isBlank := hblanks c List.mem_cons_self
    have hgap : Blanks gap := fun d hd => hblanks d (List.mem_cons_of_mem _ hd)
    rw [List.cons_append, space?, if_pos hc, skipBlanks_append hgap hstop]

theorem space?_eq_none (h : space? t = none) : t.skipBlanks = t := by
  cases t with
  | nil => rfl
  | cons c t =>
    simp only [space?, ite_eq_right_iff, reduceCtorEq, imp_false] at h
    rw [Text.skipBlanks, List.dropWhile_cons_of_neg h]

/-! ## Words -/

/-- A letter and at least one more letter or digit. -/
structure IsWord (word : Text) : Prop where
  first : ∀ c ∈ word.head?, c.isLetter
  long : 1 < word.length
  all : ∀ c ∈ word, (c.isLetter || c.isDigit)

/-- Letters and digits, which go on with a word or a number. -/
def continues (c : CodePoint) : Bool := c.isLetter || c.isDigit

theorem not_blank_of_continues {c : CodePoint} (h : continues c) : ¬ c.isBlank := by
  simp only [continues, CodePoint.isLetter, CodePoint.isUpper, CodePoint.isLower, CodePoint.isDigit,
    CodePoint.isBlank, Bool.or_eq_true, Bool.and_eq_true, decide_eq_true_eq, beq_iff_eq] at *
  omega

theorem keyword?_eq_some : keyword? t = some (word, rest) ↔
    ∃ gap, t = gap ++ (word ++ rest) ∧ Blanks gap ∧ IsWord word ∧ StopsRun continues rest := by
  constructor
  · intro h
    obtain ⟨gap, ht, hblanks, -⟩ := exists_blanks t
    unfold keyword? at h
    split at h
    · cases h
    · next c r hr =>
      obtain ⟨run, after, rfl, hall, hstop⟩ := exists_run continues r
      have hrun : (run ++ after).takeWhile (fun d => d.isLetter || d.isDigit) = run :=
        takeWhile_run hall hstop
      simp only [hrun, List.drop_left, Option.ite_none_right_eq_some, Option.some.injEq,
        Prod.mk.injEq] at h
      obtain ⟨⟨hc, hne⟩, rfl, rfl⟩ := h
      refine ⟨gap, by rw [ht, hr]; rfl, hblanks, ⟨by simpa using hc, ?_, ?_⟩, hstop⟩
      · have := List.length_pos_iff.2 hne
        rw [List.length_cons]
        omega
      · intro d hd
        rcases List.mem_cons.1 hd with rfl | hd
        · simp [hc]
        · exact hall d hd
  · rintro ⟨gap, rfl, hblanks, ⟨hfirst, hlong, hall⟩, hstop⟩
    obtain ⟨c, more, rfl⟩ := List.exists_cons_of_length_pos (by omega : 0 < word.length)
    have hc : c.isLetter := hfirst c rfl
    have hblank : ¬ c.isBlank := not_blank_of_continues (by simp [continues, hc])
    have hmore : (more ++ rest).takeWhile (fun d => d.isLetter || d.isDigit) = more :=
      takeWhile_run (fun d hd => hall d (List.mem_cons_of_mem _ hd)) hstop
    have hne : more ≠ [] := by
      rintro rfl
      simp at hlong
    unfold keyword?
    rw [List.cons_append, skipBlanks_cons hblanks hblank]
    dsimp only
    rw [hmore, if_pos ⟨hc, hne⟩, List.drop_left]

theorem equals?_eq_some : equals? t = some rest ↔
    ∃ gap, t = gap ++ (('=' : CodePoint) :: rest) ∧ Blanks gap := by
  constructor
  · intro h
    obtain ⟨gap, ht, hblanks, -⟩ := exists_blanks t
    unfold equals? at h
    split at h
    · cases h
    · next c r hr =>
      simp only [Option.ite_none_right_eq_some, Option.some.injEq] at h
      obtain ⟨rfl, rfl⟩ := h
      exact ⟨gap, by rw [ht, hr], hblanks⟩
  · rintro ⟨gap, rfl, hblanks⟩
    unfold equals?
    rw [skipBlanks_cons hblanks (by decide)]
    exact if_pos rfl

theorem endsHere_iff (h : ('\n' : CodePoint) ∉ t) : endsHere t ↔ WrittenEnd t := by
  constructor
  · intro he
    obtain ⟨gap, ht, hblanks, -⟩ := exists_blanks t
    unfold endsHere at he
    split at he
    · next hr =>
      rw [hr, List.append_nil] at ht
      exact ht ▸ .blank hblanks
    · next c r hr =>
      simp only [Bool.and_eq_true, decide_eq_true_eq] at he
      obtain ⟨rfl, -⟩ := he
      rw [ht, hr]
      exact .comment hblanks
  · intro he
    cases he with
    | blank hblanks =>
      have hskip := skipBlanks_append hblanks (stopsRun_nil _)
      rw [List.append_nil] at hskip
      simp [endsHere, hskip]
    | @comment gap text hblanks =>
      unfold endsHere
      rw [skipBlanks_cons hblanks (by decide)]
      simp only [decide_true, Bool.true_and, List.all_eq_true, decide_eq_true_eq]
      rintro c hc rfl
      exact h (List.mem_append_right _ (List.mem_cons_of_mem _ hc))

/-! ## Numbers -/

section Runs

variable {α : Type} {inClass : CodePoint → Bool} {next : Text → Option α} {run : Text} {a : α}

theorem runThen_eq_none (h : StopsRun inClass t) : runThen inClass next t = none := by
  cases t with
  | nil => rfl
  | cons c t => rw [runThen, if_neg (stopsRun_cons.1 h)]

theorem runThen_run (hne : run ≠ []) (hall : ∀ c ∈ run, inClass c) (hstop : StopsRun inClass rest)
    (hn : next rest = some a) : runThen inClass next (run ++ rest) = some (run, a) := by
  induction run with
  | nil => exact absurd rfl hne
  | cons c run ih =>
    have hc := hall c List.mem_cons_self
    cases run with
    | nil => simp [runThen, hc, runThen_eq_none hstop, hn]
    | cons d run =>
      have htail := ih (by simp) fun e he => hall e (List.mem_cons_of_mem _ he)
      rw [List.cons_append, runThen, if_pos hc, htail]

/-- There is no shorter run to fall back on if `next` cannot go on inside one. -/
theorem runThen_run_eq_none (hall : ∀ c ∈ run, inClass c) (hstop : StopsRun inClass rest)
    (hn : next rest = none) (hinside : ∀ c t, inClass c → next (c :: t) = none) :
    runThen inClass next (run ++ rest) = none := by
  induction run with
  | nil => exact runThen_eq_none hstop
  | cons c run ih =>
    have htail := ih fun e he => hall e (List.mem_cons_of_mem _ he)
    have hnext : next (run ++ rest) = none := by
      cases run with
      | nil => exact hn
      | cons d run => exact hinside d _ (hall d (by simp))
    rw [List.cons_append, runThen, htail, hnext]
    simp

theorem continues_of_isDigit {c : CodePoint} (h : c.isDigit) : continues c := by
  simp [continues, h]

theorem continues_of_isHexDigit {c : CodePoint} (h : c.isHexDigit) : continues c := by
  simp only [continues, CodePoint.isHexDigit, CodePoint.isLetter, CodePoint.isUpper,
    CodePoint.isLower, CodePoint.isDigit, Bool.or_eq_true, Bool.and_eq_true,
    decide_eq_true_eq] at *
  omega

theorem stopsRun_digits (h : StopsRun continues rest) : StopsRun CodePoint.isDigit rest :=
  fun c hc hd => h c hc (continues_of_isDigit hd)

theorem stopsRun_hexDigits (h : StopsRun continues rest) : StopsRun CodePoint.isHexDigit rest :=
  fun c hc hd => h c hc (continues_of_isHexDigit hd)

theorem continues_of_isLetterX {c : CodePoint} (h : isLetterX c) : continues c := by
  simp only [isLetterX, Bool.or_eq_true, decide_eq_true_eq] at h
  rcases h with rfl | rfl <;> decide

theorem any_isLetterX_eq_false : rest.head?.any isLetterX = false ↔ StopsRun isLetterX rest := by
  cases rest <;> simp [StopsRun]

theorem unlessX_eq (h : StopsRun isLetterX rest) : unlessX next rest = next rest := by
  rw [unlessX, any_isLetterX_eq_false.2 h]
  rfl

theorem unlessX_of_stops (h : StopsRun continues rest) : unlessX next rest = next rest :=
  unlessX_eq fun c hc hx => h c hc (continues_of_isLetterX hx)

theorem hexMark?_eq_some : hexMark? t = some rest ↔
    (∃ mark : CodePoint, (mark = 'U' ∨ mark = 'u') ∧ t = mark :: ('+' : CodePoint) :: rest) ∨
      ∃ mark : CodePoint, (mark = 'x' ∨ mark = 'X') ∧ t = ('0' : CodePoint) :: mark :: rest := by
  constructor
  · intro h
    unfold hexMark? at h
    split at h
    · next x y after =>
      simp only [Bool.or_eq_true, Bool.and_eq_true, decide_eq_true_eq, isLetterX,
        Option.ite_none_right_eq_some, Option.some.injEq] at h
      obtain ⟨⟨hx, hy⟩ | ⟨hx, hy⟩, rfl⟩ := h
      · exact .inl ⟨x, hx, by rw [hy]⟩
      · exact .inr ⟨y, hy, by rw [hx]⟩
    · cases h
  · rintro (⟨mark, hmark, rfl⟩ | ⟨mark, hmark, rfl⟩) <;> simp [hexMark?, isLetterX, hmark]

theorem numeralThen_sound (h : numeralThen next t = some (numeral, a)) :
    ∃ written rest, t = written ++ rest ∧ WrittenNumber written numeral ∧ next rest = some a := by
  simp only [numeralThen] at h
  split at h
  · next digits b hr =>
    simp only [Option.some.injEq, Prod.mk.injEq] at h
    obtain ⟨rfl, rfl⟩ := h
    obtain ⟨hne, hall, rest, rfl, hn⟩ := runThen_eq_some hr
    simp only [unlessX, Option.ite_none_left_eq_some] at hn
    exact ⟨digits, rest, rfl, .decimal hne hall, hn.2⟩
  · obtain ⟨⟨digits, b⟩, hb, h⟩ := Option.map_eq_some_iff.1 h
    obtain ⟨body, hbody, hr⟩ := Option.bind_eq_some_iff.1 hb
    simp only [Prod.mk.injEq] at h
    obtain ⟨rfl, rfl⟩ := h
    obtain ⟨hne, hall, rest, rfl, hn⟩ := runThen_eq_some hr
    rcases hexMark?_eq_some.1 hbody with ⟨mark, hmark, rfl⟩ | ⟨mark, hmark, rfl⟩
    · exact ⟨mark :: ('+' : CodePoint) :: digits, rest, rfl, .unicode hmark hne hall, hn⟩
    · exact ⟨('0' : CodePoint) :: mark :: digits, rest, rfl, .hexadecimal hmark hne hall, hn⟩

theorem runThen_hexMark (next : Text → Option α) (rest : Text) {digits written : Text}
    (h : WrittenNumber written ⟨.hexadecimal, digits⟩) :
    runThen CodePoint.isDigit (unlessX next) (written ++ rest) = none ∧
      hexMark? (written ++ rest) = some (digits ++ rest) := by
  cases h with
  | @unicode mark _ hmark _ _ =>
    refine ⟨runThen_eq_none (stopsRun_cons.2 ?_), hexMark?_eq_some.2 (.inl ⟨mark, hmark, rfl⟩)⟩
    rcases hmark with rfl | rfl <;> decide
  | @hexadecimal mark _ hmark _ _ =>
    refine ⟨?_, hexMark?_eq_some.2 (.inr ⟨mark, hmark, rfl⟩)⟩
    have hstop : StopsRun CodePoint.isDigit (mark :: (digits ++ rest)) := by
      refine stopsRun_cons.2 ?_
      rcases hmark with rfl | rfl <;> decide
    have hnext : unlessX next (mark :: (digits ++ rest)) = none := by
      refine if_pos ?_
      rcases hmark with rfl | rfl <;> rfl
    rw [List.cons_append, List.cons_append, runThen, runThen_eq_none hstop, hnext]
    simp

theorem numeralThen_written {written : Text} (h : WrittenNumber written numeral)
    (hstop : StopsRun continues rest) (hn : next rest = some a) :
    numeralThen next (written ++ rest) = some (numeral, a) := by
  obtain ⟨radix, digits⟩ := numeral
  cases radix with
  | decimal =>
    cases h with
    | decimal hne hall =>
      have hx : unlessX next rest = some a := by rw [unlessX_of_stops hstop, hn]
      simp only [numeralThen, runThen_run hne hall (stopsRun_digits hstop) hx]
  | hexadecimal =>
    obtain ⟨hdecimal, hmark⟩ := runThen_hexMark next rest h
    have hr : runThen CodePoint.isHexDigit next (digits ++ rest) = some (digits, a) := by
      cases h <;> exact runThen_run ‹_› ‹_› (stopsRun_hexDigits hstop) hn
    simp only [numeralThen, hdecimal, hmark, Option.bind_some, hr, Option.map_some]

theorem hexMark?_eq_none {digits : Text} (hne : digits ≠ []) (hall : ∀ d ∈ digits, d.isDigit)
    (hstop : StopsRun continues rest) : hexMark? (digits ++ rest) = none := by
  rw [Option.eq_none_iff_forall_not_mem]
  intro body hm
  obtain ⟨d, digits, rfl⟩ := List.exists_cons_of_ne_nil hne
  have hd : d.isDigit := hall d List.mem_cons_self
  rw [List.cons_append] at hm
  rcases hexMark?_eq_some.1 hm with ⟨mark, hmark, ht⟩ | ⟨mark, hmark, ht⟩
  · obtain ⟨rfl, -⟩ := List.cons.inj ht
    rcases hmark with rfl | rfl <;> exact absurd hd (by decide)
  · replace ht := (List.cons.inj ht).2
    have hletter : continues mark ∧ ¬ mark.isDigit := by
      rcases hmark with rfl | rfl <;> decide
    cases digits with
    | nil =>
      rw [List.nil_append] at ht
      exact absurd hletter.1 (stopsRun_cons.1 (ht ▸ hstop))
    | cons e digits =>
      obtain ⟨rfl, -⟩ := List.cons.inj ht
      exact absurd (hall e (by simp)) hletter.2

/-- No part of a number is taken if `next` can go on neither behind it nor inside it. -/
theorem numeralThen_written_eq_none {written : Text} (h : WrittenNumber written numeral)
    (hstop : StopsRun continues rest) (hn : next rest = none)
    (hinside : ∀ c t, continues c → next (c :: t) = none) :
    numeralThen next (written ++ rest) = none := by
  obtain ⟨radix, digits⟩ := numeral
  cases radix with
  | decimal =>
    cases h with
    | decimal hne hall =>
      have hr : runThen CodePoint.isDigit (unlessX next) (written ++ rest) = none := by
        refine runThen_run_eq_none hall (stopsRun_digits hstop) (by simp [unlessX, hn]) ?_
        intro c t hc
        simp [unlessX, hinside c t (continues_of_isDigit hc)]
      simp only [numeralThen, hr, hexMark?_eq_none hne hall hstop, Option.bind_none,
        Option.map_none]
  | hexadecimal =>
    obtain ⟨hdecimal, hmark⟩ := runThen_hexMark next rest h
    have hr : runThen CodePoint.isHexDigit next (digits ++ rest) = none := by
      cases h <;> exact runThen_run_eq_none ‹_› (stopsRun_hexDigits hstop) hn
        fun c t hc => hinside c t (continues_of_isHexDigit hc)
    simp only [numeralThen, hdecimal, hmark, Option.bind_some, hr, Option.map_none]

theorem numeralThen_eq_none (h : StopsRun continues t) : numeralThen next t = none := by
  have hmark : hexMark? t = none := by
    rw [Option.eq_none_iff_forall_not_mem]
    intro body hm
    rcases hexMark?_eq_some.1 hm with ⟨mark, hmark, rfl⟩ | ⟨mark, hmark, rfl⟩
    · refine stopsRun_cons.1 h ?_
      rcases hmark with rfl | rfl <;> decide
    · exact stopsRun_cons.1 h (by decide)
  simp only [numeralThen, runThen_eq_none (stopsRun_digits h), hmark, Option.bind_none,
    Option.map_none]

end Runs

/-- Begins a number or a quoted string, or is inside a number. -/
def startsItem (c : CodePoint) : Bool := continues c || c = '"'

theorem startsItem_of_continues {c : CodePoint} (h : continues c) : startsItem c := by
  simp [startsItem, h]

theorem not_blank_of_startsItem {c : CodePoint} (h : startsItem c) : ¬ c.isBlank := by
  simp only [startsItem, Bool.or_eq_true, decide_eq_true_eq] at h
  rcases h with h | rfl
  · exact not_blank_of_continues h
  · decide

section Written

variable {written : Text} {item : Item}

theorem written_number_cons (h : WrittenNumber written numeral) :
    ∃ c more, written = c :: more ∧ startsItem c := by
  cases h with
  | decimal hne hall =>
    obtain ⟨d, digits, rfl⟩ := List.exists_cons_of_ne_nil hne
    have hd : d.isDigit := hall d List.mem_cons_self
    exact ⟨d, digits, rfl, startsItem_of_continues (continues_of_isDigit hd)⟩
  | unicode hmark =>
    refine ⟨_, _, rfl, ?_⟩
    rcases hmark with rfl | rfl <;> decide
  | hexadecimal => exact ⟨_, _, rfl, by decide⟩

theorem written_item_cons (h : WrittenItem written item) :
    ∃ c more, written = c :: more ∧ startsItem c := by
  cases h with
  | number h => exact written_number_cons h
  | quoted => exact ⟨_, _, rfl, by decide⟩

theorem stopsRun_of_startsItem {c : CodePoint} {more : Text} (hc : startsItem c)
    (hw : written = c :: more) (rest : Text) : StopsRun CodePoint.isBlank (written ++ rest) := by
  rw [hw, List.cons_append]
  exact stopsRun_cons.2 (not_blank_of_startsItem hc)

theorem number?_sound (h : number? t = some (numeral, rest)) :
    ∃ gap written, t = gap ++ (written ++ rest) ∧ Blanks gap ∧ WrittenNumber written numeral := by
  obtain ⟨gap, ht, hblanks, -⟩ := exists_blanks t
  obtain ⟨written, rest', hskip, hw, hn⟩ := numeralThen_sound h
  obtain rfl := Option.some.inj hn
  exact ⟨gap, written, by rw [ht, hskip], hblanks, hw⟩

theorem number?_written (hblanks : Blanks gap) (h : WrittenNumber written numeral)
    (hstop : StopsRun continues rest) :
    number? (gap ++ (written ++ rest)) = some (numeral, rest) := by
  obtain ⟨c, more, hw, hc⟩ := written_number_cons h
  rw [number?, skipBlanks_append hblanks (stopsRun_of_startsItem hc hw rest)]
  exact numeralThen_written h hstop rfl

/-! ## Ranges -/

theorem separator?_eq_some : separator? t = some rest ↔
    ∃ gap separator : Text, t = gap ++ (separator ++ rest) ∧ Blanks gap ∧
      (separator = ".." ∨ separator = ":") := by
  constructor
  · intro h
    obtain ⟨gap, ht, hblanks, -⟩ := exists_blanks t
    unfold separator? at h
    split at h
    · cases h
    · next c r hr =>
      split at h
      · next hc =>
        obtain rfl := Option.some.inj h
        exact ⟨gap, ":", by rw [ht, hr, hc]; rfl, hblanks, .inr rfl⟩
      · split at h
        · next hc =>
          obtain ⟨rfl, hd⟩ := hc
          obtain rfl := Option.some.inj h
          obtain ⟨more, rfl⟩ := List.head?_eq_some_iff.1 hd
          exact ⟨gap, "..", by rw [ht, hr]; rfl, hblanks, .inl rfl⟩
        · cases h
  · rintro ⟨gap, separator, rfl, hblanks, hs⟩
    unfold separator?
    rcases hs with rfl | rfl
    · have hskip : Text.skipBlanks (gap ++ ((".." : Text) ++ rest)) =
          ('.' : CodePoint) :: ('.' : CodePoint) :: rest :=
        skipBlanks_cons hblanks (by decide) _
      rw [hskip]
      rfl
    · have hskip : Text.skipBlanks (gap ++ ((":" : Text) ++ rest)) = (':' : CodePoint) :: rest :=
        skipBlanks_cons hblanks (by decide) rest
      rw [hskip]
      rfl

theorem separator?_eq_none {c : CodePoint} (hblanks : Blanks gap) (hc : startsItem c) :
    separator? (gap ++ c :: t) = none := by
  have hcolon : c ≠ ':' := fun he => absurd (he ▸ hc) (by decide)
  have hperiod : c ≠ '.' := fun he => absurd (he ▸ hc) (by decide)
  unfold separator?
  rw [skipBlanks_cons hblanks (not_blank_of_startsItem hc)]
  simp [hcolon, hperiod]

theorem separator?_inside {c : CodePoint} (h : continues c) (t : Text) :
    separator? (c :: t) = none :=
  separator?_eq_none blanks_nil (startsItem_of_continues h)

theorem range?_sound (h : range? t = some (low, high, rest)) :
    ∃ gap written, t = gap ++ (written ++ rest) ∧ Blanks gap ∧
      WrittenLeft written (.range low high) := by
  obtain ⟨gap, ht, hblanks, -⟩ := exists_blanks t
  obtain ⟨before, tail, hskip, hlow, hn⟩ := numeralThen_sound h
  obtain ⟨tail', hseparator, hnumber⟩ := Option.bind_eq_some_iff.1 hn
  obtain ⟨gap', separator, rfl, hblanks', hs⟩ := separator?_eq_some.1 hseparator
  obtain ⟨gap'', after, rfl, hblanks'', hhigh⟩ := number?_sound hnumber
  refine ⟨gap, before ++ (gap' ++ (separator ++ (gap'' ++ after))), ?_, hblanks,
    .range hlow hblanks' hs hblanks'' hhigh⟩
  rw [ht, hskip]
  simp only [List.append_assoc]

theorem range?_written (hblanks : Blanks gap) (h : WrittenLeft written (.range low high))
    (hstop : StopsRun continues rest) :
    range? (gap ++ (written ++ rest)) = some (low, high, rest) := by
  cases h with
  | @range before after gap' gap'' _ _ separator hlow hblanks' hs hblanks'' hhigh =>
    obtain ⟨c, more, hw, hc⟩ := written_number_cons hlow
    simp only [List.append_assoc]
    rw [range?, skipBlanks_append hblanks (stopsRun_of_startsItem hc hw _)]
    refine numeralThen_written hlow ?_ ?_
    · have hstart : ∀ t, StopsRun continues (separator ++ t) := by
        rcases hs with rfl | rfl <;> exact fun t => stopsRun_cons.2 (by decide)
      cases gap' with
      | nil => exact hstart _
      | cons d gap' =>
        exact stopsRun_cons.2 fun hd => not_blank_of_continues hd (hblanks' d List.mem_cons_self)
    · rw [separator?_eq_some.2 ⟨gap', separator, rfl, hblanks', hs⟩]
      exact number?_written hblanks'' hhigh hstop

/-! ## Quoted strings -/

theorem close?_eq_some {content : Text} : close? t = some (content, rest) ↔
    t = content ++ ('"' : CodePoint) :: rest ∧ ('"' : CodePoint) ∉ content := by
  have hmark : ∀ {run : Text}, (∀ c ∈ run, decide (c ≠ ('"' : CodePoint)) = true) ↔
      ('"' : CodePoint) ∉ run := by
    intro run
    simp only [decide_eq_true_eq]
    exact ⟨fun h hm => h _ hm rfl, fun h c hc he => h (he ▸ hc)⟩
  constructor
  · intro h
    obtain ⟨run, after, rfl, hall, hstop⟩ := exists_run (fun c : CodePoint => c ≠ '"') t
    have hrun : (run ++ after).takeWhile (fun c : CodePoint => c ≠ '"') = run :=
      takeWhile_run hall hstop
    simp only [close?, hrun, List.drop_left] at h
    split at h
    · cases h
    · next c after =>
      simp only [Option.some.injEq, Prod.mk.injEq] at h
      obtain ⟨rfl, rfl⟩ := h
      have hc : c = '"' := by simpa using stopsRun_cons.1 hstop
      exact ⟨by rw [hc], hmark.1 hall⟩
  · rintro ⟨rfl, hinner⟩
    have hrun : (content ++ ('"' : CodePoint) :: rest).takeWhile (fun c : CodePoint => c ≠ '"') =
        content := takeWhile_run (hmark.2 hinner) (stopsRun_cons.2 (by decide))
    simp only [close?, hrun, List.drop_left]

theorem quoted?_eq_some {escapes : Bool} {content : Text} :
    quoted? escapes t = some (content, rest) ↔
      ∃ gap after, t = gap ++ ('"' : CodePoint) :: after ∧ Blanks gap ∧
        (if escapes then closeEscaped? after else close? after) = some (content, rest) := by
  constructor
  · intro h
    obtain ⟨gap, ht, hblanks, -⟩ := exists_blanks t
    unfold quoted? at h
    split at h
    · cases h
    · next c after hafter =>
      simp only [Option.ite_none_right_eq_some] at h
      obtain ⟨rfl, hclose⟩ := h
      exact ⟨gap, after, by rw [ht, hafter], hblanks, hclose⟩
  · rintro ⟨gap, after, rfl, hblanks, hclose⟩
    unfold quoted?
    rw [skipBlanks_cons hblanks (by decide)]
    exact (if_pos rfl).trans hclose

end Written

end Token

/-! ## Outside of quoted strings -/

/-- The characters of rules, outside of quoted strings. -/
def Token.isOutside (c : CodePoint) : Bool :=
  c.isBlank || continues c || c = '+' || c = '.' || c = ':' || c = '='

theorem Token.isOutside_of_continues {c : CodePoint} (h : continues c) : isOutside c := by
  simp [isOutside, h]

namespace Grammar

open Token (isOutside_of_continues continues_of_isDigit continues_of_isHexDigit)

variable {gap written : Text} {numeral low high : Numeral}

theorem Blanks.isOutside (h : Blanks gap) : ∀ c ∈ gap, Token.isOutside c := by
  intro c hc
  simp [Token.isOutside, h c hc]

theorem WrittenNumber.isOutside (h : WrittenNumber written numeral) :
    ∀ c ∈ written, Token.isOutside c := by
  have hhex : ∀ {digits : Text}, (∀ d ∈ digits, d.isHexDigit) → ∀ d ∈ digits, Token.isOutside d :=
    fun hall d hd => isOutside_of_continues (continues_of_isHexDigit (hall d hd))
  cases h with
  | decimal _ hall =>
    exact fun d hd => isOutside_of_continues (continues_of_isDigit (hall d hd))
  | unicode hmark _ hall =>
    refine List.forall_mem_cons.2 ⟨?_, List.forall_mem_cons.2 ⟨by decide, hhex hall⟩⟩
    rcases hmark with rfl | rfl <;> decide
  | hexadecimal hmark _ hall =>
    refine List.forall_mem_cons.2 ⟨by decide, List.forall_mem_cons.2 ⟨?_, hhex hall⟩⟩
    rcases hmark with rfl | rfl <;> decide

theorem WrittenLeft.isOutside_range (h : WrittenLeft written (.range low high)) :
    ∀ c ∈ written, Token.isOutside c := by
  cases h with
  | @range before after gap gap' _ _ separator hlow hgap hseparator hgap' hhigh =>
    have hmiddle : ∀ c ∈ separator, Token.isOutside c := by
      rcases hseparator with rfl | rfl <;> decide
    simp only [List.forall_mem_append]
    exact ⟨hlow.isOutside, hgap.isOutside, hmiddle, hgap'.isOutside, hhigh.isOutside⟩

end Grammar

end PlainForm

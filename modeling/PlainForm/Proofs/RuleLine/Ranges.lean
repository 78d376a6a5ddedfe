import Mathlib.Data.List.Basic
import PlainForm.Proofs.RuleLine.Tokens

/-!
# Numbers and ranges

A number can be taken in many ways, since a row of digits may be left off early, and a range in many
more. The ways are tried in a fixed order, and the first one that works is taken. For a number that
is all of its digits, or all but the last if an `x` follows. A range is two numbers, each taken as
it would be alone: no other way to take the first leaves a separator behind it.
-/

namespace PlainForm

open Text (StopsRun stopsRun_cons exists_run)
open Grammar

namespace Token

/-! ## The ways to take a number and a range -/

/-- The ways to take a row of a class and what each leaves, the longest row first. -/
def runWays (inClass : CodePoint → Bool) : Text → List (Text × Text)
  | [] => []
  | c :: rest =>
    if inClass c then (runWays inClass rest).map (fun (run, r) => (c :: run, r)) ++ [([c], rest)]
    else []

/-- Rows of decimal digits that no `x` follows are tried first, then those of hexadecimal digits
behind a mark. -/
def numeralWays (t : Text) : List (Numeral × Text) :=
  ((runWays CodePoint.isDigit t).filter fun (_, rest) => !rest.head?.any isLetterX).map
      (fun (digits, rest) => (⟨.decimal, digits⟩, rest)) ++
    ((hexMark? t).toList.flatMap (runWays CodePoint.isHexDigit)).map
      fun (digits, rest) => (⟨.hexadecimal, digits⟩, rest)

/-- The ways to skip blanks, as many of which as possible are skipped first. -/
def blankWays : Text → List Text
  | [] => [[]]
  | c :: rest => (if c.isBlank then blankWays rest else []) ++ [c :: rest]

def numberWays (t : Text) : List (Numeral × Text) := (blankWays t).flatMap numeralWays

/-- What two periods or a colon at the start leave. -/
def separatorWay (t : Text) : List Text :=
  (t.dropPrefix? (".." : Text)).toList ++ (t.dropPrefix? (":" : Text)).toList

def separatorWays (t : Text) : List Text := (blankWays t).flatMap separatorWay

def rangeWays (t : Text) : List (Numeral × Numeral × Text) :=
  (numberWays t).flatMap fun (low, behind) =>
    (separatorWays behind).flatMap fun start =>
      (numberWays start).map fun (high, rest) => (low, high, rest)

/-! ## What is taken -/

/-- The number that a text begins with, and what is left behind it. If an `x` follows the decimal
digits, then the last of them is left as well. -/
inductive TakesNumber : Text → Numeral → Text → Prop where
  | whole {digits rest : Text} (number : WrittenNumber digits ⟨.decimal, digits⟩)
      (maximal : StopsRun CodePoint.isDigit rest) (no_x : StopsRun isLetterX rest) :
      TakesNumber (digits ++ rest) ⟨.decimal, digits⟩ rest
  | shortened {digits rest : Text} {last x : CodePoint}
      (number : WrittenNumber digits ⟨.decimal, digits⟩) (last_digit : last.isDigit)
      (letter_x : isLetterX x) :
      TakesNumber (digits ++ last :: x :: rest) ⟨.decimal, digits⟩ (last :: x :: rest)
  | hexadecimal {written digits rest : Text}
      (number : WrittenNumber written ⟨.hexadecimal, digits⟩)
      (maximal : StopsRun CodePoint.isHexDigit rest) :
      TakesNumber (written ++ rest) ⟨.hexadecimal, digits⟩ rest

/-- Blanks and a separator in front of what is left. -/
def Separates (t rest : Text) : Prop :=
  ∃ gap separator : Text, t = gap ++ (separator ++ rest) ∧ Blanks gap ∧
    (separator = ".." ∨ separator = ":")

variable {α : Type} {inClass : CodePoint → Bool} {next : Text → Option α}
  {t rest run written behind start : Text} {c last x : CodePoint} {numeral low high : Numeral}
  {a : α}

/-! ## Rows -/

theorem exists_of_not_stopsRun {p : CodePoint → Bool} (h : ¬ StopsRun p t) :
    ∃ c rest, t = c :: rest ∧ p c := by
  cases t with
  | nil => exact absurd (Text.stopsRun_nil p) h
  | cons c rest => exact ⟨c, rest, rfl, Decidable.not_not.1 fun hc => h (stopsRun_cons.2 hc)⟩

theorem unlessX_letter (h : isLetterX x) (rest : Text) : unlessX next (x :: rest) = none := by
  simp [unlessX, h]

theorem runThen_shortened (hne : run ≠ []) (hall : ∀ c ∈ run, inClass c) (hlast : inClass last)
    (hstop : StopsRun inClass rest) (hn : next rest = none)
    (hnlast : next (last :: rest) = some a) :
    runThen inClass next (run ++ last :: rest) = some (run, a) := by
  have htail : runThen inClass next (last :: rest) = none := by
    rw [runThen, if_pos hlast, runThen_eq_none hstop, hn]
    rfl
  induction run with
  | nil => exact absurd rfl hne
  | cons c run ih =>
    have hc := hall c List.mem_cons_self
    rw [List.cons_append, runThen, if_pos hc]
    cases run with
    | nil => rw [List.nil_append, htail, hnlast]; rfl
    | cons d run => rw [ih (by simp) fun e he => hall e (List.mem_cons_of_mem _ he)]

theorem runThen_eq_findSome? (inClass : CodePoint → Bool) (next : Text → Option α) (t : Text) :
    runThen inClass next t =
      (runWays inClass t).findSome? fun way => (next way.2).map (way.1, ·) := by
  induction t with
  | nil => rfl
  | cons c t ih =>
    have hlonger : (fun way : Text × Text => (next way.2).map (c :: way.1, ·)) =
        Option.map (fun row : Text × α => (c :: row.1, row.2)) ∘
          fun way : Text × Text => (next way.2).map (way.1, ·) := by
      funext way
      simp [Function.comp_def]
    rw [runThen, runWays]
    split
    · rw [List.findSome?_append, List.findSome?_map]
      show _ = ((runWays inClass t).findSome? fun way => (next way.2).map (c :: way.1, ·)).or _
      rw [hlonger, ← List.map_findSome?, ← ih]
      cases runThen inClass next t <;> simp
    · rfl

theorem mem_runWays {way : Text × Text} (h : way ∈ runWays inClass t) :
    t = way.1 ++ way.2 ∧ way.1 ≠ [] ∧ ∀ c ∈ way.1, inClass c := by
  induction t generalizing way with
  | nil => cases h
  | cons c t ih =>
    rw [runWays] at h
    split at h
    · next hc =>
      rcases List.mem_append.1 h with h | h
      · obtain ⟨shorter, hshorter, rfl⟩ := List.mem_map.1 h
        obtain ⟨rfl, -, hall⟩ := ih hshorter
        exact ⟨rfl, by simp, by simpa [hc] using hall⟩
      · obtain rfl := List.mem_singleton.1 h
        exact ⟨rfl, by simp, by simpa using hc⟩
    · cases h

/-! ## Numbers -/

theorem numeralThen_eq_findSome? (next : Text → Option α) (t : Text) : numeralThen next t =
    (numeralWays t).findSome? fun way => (next way.2).map (way.1, ·) := by
  have hdecimal :
      ((runWays CodePoint.isDigit t).filter fun way => !way.2.head?.any isLetterX).findSome?
          (fun way => (next way.2).map ((⟨.decimal, way.1⟩ : Numeral), ·)) =
        (runThen CodePoint.isDigit (unlessX next) t).map fun row => (⟨.decimal, row.1⟩, row.2) := by
    rw [← List.head?_filterMap, List.filterMap_filter, List.head?_filterMap,
      runThen_eq_findSome?, List.map_findSome?]
    congr 1
    funext way
    simp only [unlessX, Function.comp_apply]
    cases way.2.head?.any isLetterX <;> simp [Function.comp_def]
  have hhex : ((hexMark? t).toList.flatMap (runWays CodePoint.isHexDigit)).findSome?
        (fun way => (next way.2).map ((⟨.hexadecimal, way.1⟩ : Numeral), ·)) =
      ((hexMark? t).bind (runThen CodePoint.isHexDigit next)).map
        fun row => (⟨.hexadecimal, row.1⟩, row.2) := by
    cases hexMark? t with
    | none => rfl
    | some body =>
      simp [runThen_eq_findSome?, List.map_findSome?, Function.comp_def]
  rw [numeralWays, List.findSome?_append, List.findSome?_map, List.findSome?_map]
  refine Eq.trans ?_ (congrArg₂ Option.or hdecimal hhex).symm
  rw [Token.numeralThen]
  cases runThen CodePoint.isDigit (unlessX next) t <;> rfl

theorem mem_numeralWays (h : (numeral, rest) ∈ numeralWays t) :
    ∃ written, t = written ++ rest ∧ WrittenNumber written numeral ∧
      (numeral.radix = .decimal → StopsRun isLetterX rest) := by
  rcases List.mem_append.1 h with h | h
  · obtain ⟨⟨digits, behind⟩, hway, hnumeral⟩ := List.mem_map.1 h
    obtain ⟨hrun, hx⟩ := List.mem_filter.1 hway
    obtain ⟨rfl, hne, hall⟩ := mem_runWays hrun
    cases hnumeral
    exact ⟨digits, rfl, .decimal hne hall, fun _ => any_isLetterX_eq_false.1 (by simpa using hx)⟩
  · obtain ⟨⟨digits, behind⟩, hway, hnumeral⟩ := List.mem_map.1 h
    obtain ⟨body, hbody, hrun⟩ := List.mem_flatMap.1 hway
    obtain ⟨rfl, hne, hall⟩ := mem_runWays hrun
    cases hnumeral
    rcases hexMark?_eq_some.1 (Option.mem_toList.1 hbody) with
      ⟨mark, hmark, rfl⟩ | ⟨mark, hmark, rfl⟩
    · exact ⟨mark :: ('+' : CodePoint) :: digits, rfl, .unicode hmark hne hall, nofun⟩
    · exact ⟨('0' : CodePoint) :: mark :: digits, rfl, .hexadecimal hmark hne hall, nofun⟩

theorem not_isDigit_of_isLetterX (h : isLetterX x) : ¬ x.isDigit := by
  simp only [isLetterX, Bool.or_eq_true, decide_eq_true_eq] at h
  rcases h with rfl | rfl <;> decide

theorem TakesNumber.numeralThen (h : TakesNumber t numeral rest) :
    numeralThen some t = some (numeral, rest) := by
  cases h with
  | whole number maximal no_x =>
    cases number with
    | decimal hne hall =>
      simp only [Token.numeralThen, runThen_run hne hall maximal (unlessX_eq no_x)]
  | @shortened digits rest last x number last_digit letter_x =>
    cases number with
    | decimal hne hall =>
      have hstop : StopsRun CodePoint.isDigit (x :: rest) :=
        stopsRun_cons.2 (not_isDigit_of_isLetterX letter_x)
      have hlast : unlessX some (last :: x :: rest) = some (last :: x :: rest) :=
        unlessX_eq (stopsRun_cons.2 fun hx => not_isDigit_of_isLetterX hx last_digit)
      simp only [Token.numeralThen,
        runThen_shortened hne hall last_digit hstop (unlessX_letter letter_x rest) hlast]
  | @hexadecimal written digits rest number maximal =>
    obtain ⟨hdecimal, hmark⟩ := runThen_hexMark some rest number
    have hr : runThen CodePoint.isHexDigit some (digits ++ rest) = some (digits, rest) := by
      cases number <;> exact runThen_run ‹_› ‹_› maximal rfl
    simp only [Token.numeralThen, hdecimal, hmark, Option.bind_some, hr, Option.map_some]

theorem exists_takesNumber (h : WrittenNumber written numeral)
    (hx : numeral.radix = .decimal → StopsRun isLetterX rest) :
    ∃ taken behind, TakesNumber (written ++ rest) taken behind := by
  obtain ⟨radix, digits⟩ := numeral
  cases radix with
  | decimal =>
    cases h with
    | decimal hne hall =>
      obtain ⟨more, behind, rfl, hmore, hstop⟩ := exists_run CodePoint.isDigit rest
      by_cases hbehind : StopsRun isLetterX behind
      · have hlonger : WrittenNumber (written ++ more) ⟨.decimal, written ++ more⟩ :=
          .decimal (by simp [hne]) (List.forall_mem_append.2 ⟨hall, hmore⟩)
        rw [← List.append_assoc]
        exact ⟨_, _, .whole hlonger hstop hbehind⟩
      · obtain ⟨x, after, rfl, hletter⟩ := exists_of_not_stopsRun hbehind
        rcases List.eq_nil_or_concat' more with rfl | ⟨others, last, rfl⟩
        · exact absurd (hx rfl) hbehind
        · obtain ⟨hothers, hlast⟩ := List.forall_mem_append.1 hmore
          have hlonger : WrittenNumber (written ++ others) ⟨.decimal, written ++ others⟩ :=
            .decimal (by simp [hne]) (List.forall_mem_append.2 ⟨hall, hothers⟩)
          have hsplit : written ++ (others ++ [last] ++ x :: after) =
              (written ++ others) ++ last :: x :: after := by simp
          rw [hsplit]
          exact ⟨_, _, .shortened hlonger (hlast last List.mem_cons_self) hletter⟩
  | hexadecimal =>
    obtain ⟨more, behind, rfl, hmore, hstop⟩ := exists_run CodePoint.isHexDigit rest
    have hlonger : WrittenNumber (written ++ more) ⟨.hexadecimal, digits ++ more⟩ := by
      cases h with
      | unicode hmark hne hall =>
        exact .unicode hmark (by simp [hne]) (List.forall_mem_append.2 ⟨hall, hmore⟩)
      | hexadecimal hmark hne hall =>
        exact .hexadecimal hmark (by simp [hne]) (List.forall_mem_append.2 ⟨hall, hmore⟩)
    rw [← List.append_assoc]
    exact ⟨_, _, .hexadecimal hlonger hstop⟩

theorem numeralThen_some_iff :
    numeralThen some t = some (numeral, rest) ↔ TakesNumber t numeral rest := by
  constructor
  · intro h
    have hways := numeralThen_eq_findSome? some t
    obtain ⟨way, hway, hfound⟩ := List.exists_of_findSome?_eq_some (hways.symm.trans h)
    obtain ⟨written, rfl, hw, hx⟩ := mem_numeralWays hway
    obtain ⟨taken, behind, htakes⟩ := exists_takesNumber hw hx
    obtain ⟨rfl, rfl⟩ := Prod.mk.inj (Option.some.inj (htakes.numeralThen.symm.trans h))
    exact htakes
  · exact TakesNumber.numeralThen

/-- What `next` goes on from is left by the number that is taken alone, if `next` can go on from no
letter or digit. -/
theorem numeralThen_eq_some_iff (hinside : ∀ c t, continues c → next (c :: t) = none) :
    numeralThen next t = some (numeral, a) ↔
      ∃ rest, numeralThen some t = some (numeral, rest) ∧ next rest = some a := by
  have hstops : ∀ {rest}, next rest = some a → StopsRun continues rest := by
    rintro (_ | ⟨c, rest⟩) hn
    · exact Text.stopsRun_nil _
    · refine stopsRun_cons.2 fun hc => ?_
      rw [hinside c rest hc] at hn
      cases hn
  constructor
  · intro h
    obtain ⟨written, rest, rfl, hw, hn⟩ := numeralThen_sound h
    exact ⟨rest, numeralThen_written hw (hstops hn) rfl, hn⟩
  · rintro ⟨rest, h, hn⟩
    obtain ⟨written, behind, rfl, hw, hbehind⟩ := numeralThen_sound h
    obtain rfl := Option.some.inj hbehind
    exact numeralThen_written hw (hstops hn) hn

/-! ## Ways behind blanks -/

/-- Where there is no way from a blank, only skipping all blanks leads on. -/
theorem flatMap_blankWays {ways : Text → List α} (h : ∀ c t, c.isBlank → ways (c :: t) = [])
    (t : Text) : (blankWays t).flatMap ways = ways t.skipBlanks := by
  induction t with
  | nil => simp [blankWays, Text.skipBlanks]
  | cons c t ih =>
    rw [blankWays, List.flatMap_append]
    by_cases hc : c.isBlank
    · have hskip : Text.skipBlanks (c :: t) = Text.skipBlanks t := List.dropWhile_cons_of_pos hc
      rw [if_pos hc, ih, hskip]
      simp [h c t hc]
    · have hskip : Text.skipBlanks (c :: t) = c :: t := List.dropWhile_cons_of_neg hc
      rw [if_neg hc, hskip]
      simp

theorem numberWays_eq (t : Text) : numberWays t = numeralWays t.skipBlanks := by
  refine flatMap_blankWays (fun c t hc => ?_) t
  rw [List.eq_nil_iff_forall_not_mem]
  rintro ⟨numeral, rest⟩ hway
  obtain ⟨written, ht, hw, -⟩ := mem_numeralWays hway
  obtain ⟨d, more, rfl, hd⟩ := written_number_cons hw
  obtain ⟨rfl, -⟩ := List.cons.inj ht
  exact not_blank_of_startsItem hd hc

theorem separatorWay_skipBlanks (t : Text) :
    separatorWay t.skipBlanks = (separator? t).toList := by
  have hperiods : (".." : Text) = [('.' : CodePoint), ('.' : CodePoint)] := rfl
  have hcolon : (":" : Text) = [(':' : CodePoint)] := rfl
  have hne : (':' : CodePoint) ≠ '.' := by decide
  unfold separatorWay separator?
  rw [hperiods, hcolon]
  rcases t.skipBlanks with _ | ⟨c, _ | ⟨d, rest⟩⟩
  · rfl
  · simp [List.dropPrefix?]
  · by_cases hc : c = ':'
    · simp [List.dropPrefix?, hc, hne]
    · simp [List.dropPrefix?, hc, ite_and]

theorem separatorWays_eq (t : Text) : separatorWays t = (separator? t).toList := by
  rw [← separatorWay_skipBlanks]
  refine flatMap_blankWays (fun c t hc => ?_) t
  have hcolon : c ≠ ':' := fun he => absurd (he ▸ hc) (by decide)
  have hperiod : c ≠ '.' := fun he => absurd (he ▸ hc) (by decide)
  have hperiods : (".." : Text) = [('.' : CodePoint), ('.' : CodePoint)] := rfl
  have hcolon' : (":" : Text) = [(':' : CodePoint)] := rfl
  rw [separatorWay, hperiods, hcolon']
  simp [List.dropPrefix?, hcolon, hperiod]

theorem number?_eq_head (t : Text) : number? t = (numberWays t).head? := by
  rw [number?, numberWays_eq, numeralThen_eq_findSome?]
  cases numeralWays t.skipBlanks <;> rfl

/-! ## Ranges -/

theorem range?_eq_head (t : Text) : range? t = (rangeWays t).head? := by
  rw [range?, rangeWays, numberWays_eq, numeralThen_eq_findSome?, List.head?_flatMap]
  congr 1
  funext way
  obtain ⟨low, behind⟩ := way
  dsimp only
  rw [separatorWays_eq]
  cases separator? behind with
  | none => rfl
  | some start => simp [number?_eq_head]

theorem number?_eq_some_iff : number? t = some (numeral, rest) ↔
    TakesNumber t.skipBlanks numeral rest :=
  numeralThen_some_iff

theorem range?_eq_some_iff : range? t = some (low, high, rest) ↔
    ∃ behind start, number? t = some (low, behind) ∧ Separates behind start ∧
      number? start = some (high, rest) := by
  have hinside : ∀ c t, continues c → ((separator? (c :: t)).bind number?) = none := by
    intro c t hc
    rw [separator?_inside hc]
    rfl
  rw [range?, numeralThen_eq_some_iff hinside]
  simp only [Option.bind_eq_some_iff, separator?_eq_some]
  constructor
  · rintro ⟨behind, hlow, start, hseparator, hhigh⟩
    exact ⟨behind, start, hlow, hseparator, hhigh⟩
  · rintro ⟨behind, start, hlow, hseparator, hhigh⟩
    exact ⟨behind, hlow, start, hseparator, hhigh⟩

theorem number?_of_separates (h : (low, behind) ∈ numberWays t) (hs : Separates behind start) :
    number? t = some (low, behind) := by
  rw [numberWays_eq] at h
  obtain ⟨written, ht, hw, -⟩ := mem_numeralWays h
  have hstop : StopsRun continues behind := by
    by_contra hgoes
    obtain ⟨c, rest, rfl, hc⟩ := exists_of_not_stopsRun hgoes
    have hnone := separator?_inside hc rest
    rw [separator?_eq_some.2 hs] at hnone
    cases hnone
  rw [number?, ht]
  exact numeralThen_written hw hstop rfl

theorem mem_rangeWays : (low, high, rest) ∈ rangeWays t ↔
    ∃ behind start, number? t = some (low, behind) ∧ Separates behind start ∧
      (high, rest) ∈ numberWays start := by
  constructor
  · intro h
    obtain ⟨⟨low', behind⟩, hlow, hways⟩ := List.mem_flatMap.1 h
    obtain ⟨start, hstart, hhighs⟩ := List.mem_flatMap.1 hways
    obtain ⟨⟨high', rest'⟩, hhigh, hrange⟩ := List.mem_map.1 hhighs
    cases hrange
    rw [separatorWays_eq, Option.mem_toList] at hstart
    have hseparates : Separates behind start := separator?_eq_some.1 hstart
    exact ⟨behind, start, number?_of_separates hlow hseparates, hseparates, hhigh⟩
  · rintro ⟨behind, start, hlow, hseparates, hhigh⟩
    rw [number?_eq_head] at hlow
    refine List.mem_flatMap.2 ⟨_, List.mem_of_mem_head? hlow, List.mem_flatMap.2 ⟨start, ?_, ?_⟩⟩
    · rw [separatorWays_eq, Option.mem_toList]
      exact separator?_eq_some.2 hseparates
    · exact List.mem_map.2 ⟨_, hhigh, rfl⟩

end Token

/-- Of all ways to take a number or a range the first is taken. For a number that is the longest row
of decimal digits if no `x` follows it, all but its last digit if an `x` does, and otherwise the
longest row of hexadecimal digits behind `U+` or `0x`. A range is the number at its place, a
separator behind it, and the number behind that. No way to take a range begins with another number
or with less of this one. -/
theorem numbers_and_ranges_are_first_ways (t : Text) :
    (Token.number? t = (Token.numberWays t).head? ∧
      ∀ numeral rest, Token.number? t = some (numeral, rest) ↔
        Token.TakesNumber t.skipBlanks numeral rest) ∧
    (Token.range? t = (Token.rangeWays t).head? ∧
      ∀ low high rest, Token.range? t = some (low, high, rest) ↔
        ∃ behind start, Token.number? t = some (low, behind) ∧ Token.Separates behind start ∧
          Token.number? start = some (high, rest)) ∧
    ∀ low high rest, (low, high, rest) ∈ Token.rangeWays t ↔
      ∃ behind start, Token.number? t = some (low, behind) ∧ Token.Separates behind start ∧
        (high, rest) ∈ Token.numberWays start :=
  ⟨⟨Token.number?_eq_head t, fun _ _ => Token.number?_eq_some_iff⟩,
    ⟨Token.range?_eq_head t, fun _ _ _ => Token.range?_eq_some_iff⟩,
    fun _ _ _ => Token.mem_rangeWays⟩

/-- The `x` leaves one digit of the number behind, so that no range begins here. -/
example : Token.number? " 12x:5" = some (⟨.decimal, "1"⟩, ("2x:5" : Text)) ∧
    Token.range? " 12x:5" = none := by decide +kernel

end PlainForm

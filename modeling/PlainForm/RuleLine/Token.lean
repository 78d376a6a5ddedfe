import PlainForm.Numeral

/-!
# Tokens of rule lines

Each function looks for a token at the start of what is left of a line. It gives the token and what
is left behind it, or nothing. All of them but `space?` skip blanks in front of the token.
-/

namespace PlainForm.Token

/-! ## Marks, words and comments -/

/-- Nothing is left but blanks and perhaps a comment. -/
def endsHere (t : Text) : Bool :=
  match t.skipBlanks with
  | [] => true
  | c :: rest => c = '#' && rest.all (· ≠ '\n')

def space? : Text → Option Text
  | [] => none
  | c :: rest => if c.isBlank then some (Text.skipBlanks rest) else none

def equals? (t : Text) : Option Text :=
  match t.skipBlanks with
  | [] => none
  | c :: rest => if c = '=' then some rest else none

/-- A letter and at least one more letter or digit, so that the `U` of `U+0041` is no word. -/
def keyword? (t : Text) : Option (Text × Text) :=
  match t.skipBlanks with
  | [] => none
  | c :: rest =>
    let more := rest.takeWhile fun d => d.isLetter || d.isDigit
    if c.isLetter ∧ more ≠ [] then some (c :: more, rest.drop more.length) else none

/-! ## Character numbers -/

/-- A row of at least one character of a class, and what `next` makes of what is left behind it. Of
the rows that `next` can go on from, the longest is taken. -/
def runThen {α : Type} (inClass : CodePoint → Bool) (next : Text → Option α) :
    Text → Option (Text × α)
  | [] => none
  | c :: rest =>
    if inClass c then
      match runThen inClass next rest with
      | some (run, a) => some (c :: run, a)
      | none => (next rest).map fun a => ([c], a)
    else none

def isLetterX (c : CodePoint) : Bool := c = 'x' || c = 'X'

/-- `U+` or `0x` in front of hexadecimal digits, in either case. -/
def hexMark? : Text → Option Text
  | a :: b :: rest =>
    if ((a = 'U' || a = 'u') && b = '+') || (a = '0' && isLetterX b) then some rest else none
  | _ => none

/-- Goes on with `next`, but not in front of an `x`. -/
def unlessX {α : Type} (next : Text → Option α) (rest : Text) : Option α :=
  if rest.head?.any isLetterX then none else next rest

/-- A character number from which `next` can go on. Decimal digits with an `x` behind them are none,
lest the `0` of `0x41` count as a number. -/
def numeralThen {α : Type} (next : Text → Option α) (t : Text) : Option (Numeral × α) :=
  match runThen CodePoint.isDigit (unlessX next) t with
  | some (digits, a) => some (⟨.decimal, digits⟩, a)
  | none =>
    ((hexMark? t).bind (runThen CodePoint.isHexDigit next)).map fun (digits, a) =>
      (⟨.hexadecimal, digits⟩, a)

def number? (t : Text) : Option (Numeral × Text) := numeralThen some t.skipBlanks

/-- Two periods or a colon, between the bounds of a range. -/
def separator? (t : Text) : Option Text :=
  match t.skipBlanks with
  | [] => none
  | c :: rest =>
    if c = ':' then some rest
    else if c = '.' ∧ rest.head? = some ('.' : CodePoint) then some (rest.drop 1)
    else none

def range? (t : Text) : Option (Numeral × Numeral × Text) :=
  numeralThen (fun rest => (separator? rest).bind number?) t.skipBlanks

/-! ## Quoted strings -/

def close? (t : Text) : Option (Text × Text) :=
  let content := t.takeWhile fun c : CodePoint => c ≠ '"'
  match t.drop content.length with
  | [] => none
  | _ :: rest => some (content, rest)

/-- The content up to a quotation mark that is not behind a backslash. If there is none, the last
quotation mark ends the content all the same, together with the backslash in front of it. -/
def closeEscaped? : Text → Option (Text × Text)
  | [] => none
  | c :: rest =>
    if c = '"' then some ([], rest)
    else if c = '\\' then
      match rest with
      | [] => none
      | d :: more =>
        if d = '\n' then (closeEscaped? (d :: more)).map fun (content, r) => (c :: content, r)
        else
          match closeEscaped? more with
          | some (content, r) => some (c :: d :: content, r)
          | none => if d = '"' then some ([c], more) else none
    else (closeEscaped? rest).map fun (content, r) => (c :: content, r)

def quoted? (escapes : Bool) (t : Text) : Option (Text × Text) :=
  match t.skipBlanks with
  | [] => none
  | c :: rest => if c = '"' then if escapes then closeEscaped? rest else close? rest else none

/-! ## What is left gets shorter -/

theorem length_space?_lt {t rest : Text} (h : space? t = some rest) : rest.length < t.length := by
  cases t with
  | nil => simp [space?] at h
  | cons c r =>
    simp only [space?] at h
    split at h
    · have := Text.length_skipBlanks_le r
      simp at h
      simp [← h]
      omega
    · simp at h

/-- What a row is, what is left behind it, and that nothing else was read. -/
theorem runThen_eq_some {α : Type} {inClass : CodePoint → Bool} {next : Text → Option α}
    {t run : Text} {a : α} (h : runThen inClass next t = some (run, a)) :
    run ≠ [] ∧ (∀ c ∈ run, inClass c) ∧ ∃ rest, t = run ++ rest ∧ next rest = some a := by
  induction t generalizing run with
  | nil => simp [runThen] at h
  | cons c r ih =>
    simp only [runThen] at h
    split at h
    · next hc =>
      split at h
      · rename_i run' a' hr
        simp only [Option.some.injEq, Prod.mk.injEq] at h
        obtain ⟨rfl, rfl⟩ := h
        obtain ⟨-, hall, rest, rfl, hn⟩ := ih hr
        exact ⟨by simp, by simpa [hc] using hall, rest, by simp, hn⟩
      · simp only [Option.map_eq_some_iff, Prod.mk.injEq] at h
        obtain ⟨b, hb, rfl, rfl⟩ := h
        exact ⟨by simp, by simpa using hc, r, by simp, hb⟩
    · simp at h

theorem length_hexMark?_lt {t rest : Text} (h : hexMark? t = some rest) :
    rest.length < t.length := by
  unfold hexMark? at h
  split at h
  · split at h
    · simp at h; subst h; simp only [List.length_cons]; omega
    · simp at h
  · simp at h

/-- Behind a number `next` goes on from a part of the text that is shorter. -/
theorem numeralThen_eq_some {α : Type} {next : Text → Option α} {t : Text} {numeral : Numeral}
    {a : α} (h : numeralThen next t = some (numeral, a)) :
    ∃ rest : Text, rest.length < t.length ∧ next rest = some a := by
  simp only [numeralThen] at h
  split at h
  · rename_i digits b hr
    simp only [Option.some.injEq, Prod.mk.injEq] at h
    obtain ⟨-, rfl⟩ := h
    obtain ⟨hne, -, rest, rfl, hn⟩ := runThen_eq_some hr
    have := List.length_pos_iff.2 hne
    refine ⟨rest, by simp; omega, ?_⟩
    rw [unlessX] at hn
    split at hn
    · simp at hn
    · exact hn
  · simp only [Option.map_eq_some_iff, Option.bind_eq_some_iff, Prod.mk.injEq] at h
    obtain ⟨⟨digits, b⟩, ⟨body, hb, hr⟩, -, rfl⟩ := h
    obtain ⟨-, -, rest, rfl, hn⟩ := runThen_eq_some hr
    have := length_hexMark?_lt hb
    exact ⟨rest, by simp at this; omega, hn⟩

theorem length_number?_lt {t rest : Text} {numeral : Numeral}
    (h : number? t = some (numeral, rest)) : rest.length < t.length := by
  obtain ⟨r, hlt, hr⟩ := numeralThen_eq_some h
  have := Text.length_skipBlanks_le t
  simp only [Option.some.injEq] at hr
  subst hr
  omega

theorem length_close?_lt {t content rest : Text} (h : close? t = some (content, rest)) :
    rest.length < t.length := by
  simp only [close?] at h
  split at h
  · simp at h
  · rename_i c r hd
    simp only [Option.some.injEq, Prod.mk.injEq] at h
    obtain ⟨-, rfl⟩ := h
    have := congrArg List.length hd
    simp at this
    omega

theorem length_closeEscaped?_lt {t content rest : Text}
    (h : closeEscaped? t = some (content, rest)) : rest.length < t.length := by
  fun_induction closeEscaped? t generalizing content rest <;>
    simp only [Option.some.injEq, Prod.mk.injEq, Option.map_eq_some_iff, Prod.exists, reduceCtorEq,
      List.length_cons] at * <;> grind

theorem length_quoted?_lt {escapes : Bool} {t content rest : Text}
    (h : quoted? escapes t = some (content, rest)) : rest.length < t.length := by
  have hle := Text.length_skipBlanks_le t
  simp only [quoted?] at h
  split at h
  · simp at h
  · rename_i c r hr
    rw [hr, List.length_cons] at hle
    split at h
    · split at h
      · have := length_closeEscaped?_lt h; omega
      · have := length_close?_lt h; omega
    · simp at h

/-! ## Items -/

inductive Item where
  | number (numeral : Numeral)
  | quoted (content : Text)
deriving DecidableEq

def item? (escapes : Bool) (t : Text) : Option (Item × Text) :=
  match number? t with
  | some (numeral, rest) => some (.number numeral, rest)
  | none => (quoted? escapes t).map fun (content, rest) => (.quoted content, rest)

theorem length_item?_lt {escapes : Bool} {t rest : Text} {item : Item}
    (h : item? escapes t = some (item, rest)) : rest.length < t.length := by
  simp only [item?] at h
  split at h
  · rename_i hn
    simp only [Option.some.injEq, Prod.mk.injEq] at h
    obtain ⟨-, rfl⟩ := h
    exact length_number?_lt hn
  · simp only [Option.map_eq_some_iff, Prod.mk.injEq] at h
    obtain ⟨⟨content, r⟩, hq, -, rfl⟩ := h
    exact length_quoted?_lt hq

/-- Where the next item may begin: behind a space, if one is needed. -/
def itemStart? (spaced : Bool) (t : Text) : Option Text := if spaced then space? t else some t

theorem length_itemStart?_le {spaced : Bool} {t start : Text}
    (h : itemStart? spaced t = some start) : start.length ≤ t.length := by
  cases spaced with
  | false => simp [itemStart?] at h; simp [h]
  | true => have := length_space?_lt h; omega

/-- The items at the start, with spaces between them, and what is left. The first item needs a space
in front only if `spaced`. A space that no item follows is taken as well. -/
def items (escapes spaced : Bool) (t : Text) : List Item × Text :=
  match hs : itemStart? spaced t with
  | none => ([], t)
  | some start =>
    match hi : item? escapes start with
    | none => ([], start)
    | some (item, rest) =>
      have : rest.length < t.length :=
        Nat.lt_of_lt_of_le (length_item?_lt hi) (length_itemStart?_le hs)
      let (more, left) := items escapes true rest
      (item :: more, left)
termination_by t.length

end PlainForm.Token

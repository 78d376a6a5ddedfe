import PlainForm.Decode

/-!
# What decoding means

Decoding in two passes, as a relation and two functions. First the units are scanned: each notation
that can be read gives its one code point, and every other unit stands for itself. Then `Text.join`
pairs up what the scan gave, and `Text.lonelyProblems` tells what paired with nothing. `Pass.lean`
shows that the one pass of `Text.decode` comes to the same.
-/

namespace PlainForm

/-! ## References -/

namespace Reference

/-- A numeral as it stands behind an ampersand, with its semicolon. -/
inductive Writes : Numeral → Text → Prop where
  | decimal {digits} (nonempty : digits ≠ []) (all : ∀ d ∈ digits, d.isDigit) :
      Writes ⟨.decimal, digits⟩ ('#' :: (digits ++ [(';' : CodePoint)]))
  | hexadecimal {mark : CodePoint} {digits} (mark_eq : mark = 'x' ∨ mark = 'X')
      (nonempty : digits ≠ []) (all : ∀ d ∈ digits, d.isHexDigit) :
      Writes ⟨.hexadecimal, digits⟩ ('#' :: mark :: (digits ++ [(';' : CodePoint)]))

/-- A reference and the character it stands for. No character has a number beyond Unicode. -/
inductive Spells : Text → CodePoint → Prop where
  | named {name char} (entity : (name, char) ∈ entities) :
      Spells (ampersand :: (name ++ [(';' : CodePoint)])) char
  | numeric {numeral body char} (written : Writes numeral body)
      (value : numeral.value = char.val) : Spells (ampersand :: body) char

end Reference

/-! ## Escapes -/

/-- An escape, what follows it, and the character it stands for. Octal digits are taken as far as
they go, up to three of them, and a doubled `u` keeps its second one for what follows. -/
inductive Escape.Spells : (written rest : Text) → CodePoint → Prop where
  | letter {letter char rest} (known : (letter, char) ∈ Escape.letters) :
      Spells [backslash, letter] rest char
  | doubled {rest} : Spells [backslash, 'u'] ('u' :: rest) backslash
  | hexadecimal {digits rest char} (four : digits.length = 4) (all : ∀ d ∈ digits, d.isHexDigit)
      (value : Numeral.valueOf 16 digits = char.val) :
      Spells (backslash :: 'u' :: digits) rest char
  | octal {digits rest char} (nonempty : digits ≠ []) (all : ∀ d ∈ digits, d.isOctalDigit)
      (greedy : digits.length = 3 ∨ digits.length < 3 ∧ ∀ d ∈ rest.head?, ¬ d.isOctalDigit)
      (small : Numeral.valueOf 8 digits ≤ 0xFF) (value : Numeral.valueOf 8 digits = char.val) :
      Spells (backslash :: digits) rest char

/-! ## The scan -/

def Reference.Begins (notations : Notations) (units : Text) : Prop :=
  notations.xml ∧ ∃ written rest char, units = written ++ rest ∧ Reference.Spells written char

def Escape.Begins (notations : Notations) (units : Text) : Prop :=
  notations.backslash ∧
    ∃ written rest char, units = written ++ rest ∧ Escape.Spells written rest char

/-- Units, the numbers that a scan of them gives, and what is told about the notations in them that
cannot be read. -/
inductive Scan (notations : Notations) : (units numbers : Text) → List Problem → Prop where
  | nil : Scan notations [] [] []
  | reference {written rest char numbers problems} (on : notations.xml)
      (spells : Reference.Spells written char) (later : Scan notations rest numbers problems) :
      Scan notations (written ++ rest) (char :: numbers) problems
  | escape {written rest char numbers problems} (on : notations.backslash)
      (spells : Escape.Spells written rest char) (later : Scan notations rest numbers problems) :
      Scan notations (written ++ rest) (char :: numbers) problems
  | noReference {rest numbers problems} (on : notations.xml)
      (unread : ¬ Reference.Begins notations (Reference.ampersand :: rest))
      (later : Scan notations rest numbers problems) :
      Scan notations (Reference.ampersand :: rest) (Reference.ampersand :: numbers)
        (Reference.problem rest :: problems)
  | noEscape {rest numbers problems} (on : notations.backslash)
      (unread : ¬ Escape.Begins notations (Escape.backslash :: rest))
      (later : Scan notations rest numbers problems) :
      Scan notations (Escape.backslash :: rest) (Escape.backslash :: numbers)
        (Escape.problem rest :: problems)
  | literal {unit rest numbers problems}
      (no_reference : notations.xml → unit ≠ Reference.ampersand)
      (no_escape : notations.backslash → unit ≠ Escape.backslash)
      (later : Scan notations rest numbers problems) :
      Scan notations (unit :: rest) (unit :: numbers) problems

/-! ## Surrogates that stand alone -/

def Text.IsScalar (t : Text) : Prop := ∀ c ∈ t, ¬ c.isSurrogate

/-- What is told about a number that pairs with nothing: only a surrogate is worth a note. -/
def CodePoint.lonelyProblems (c : CodePoint) (next : Option CodePoint) : List Problem :=
  if c.isHighSurrogate then [.unpairedHighSurrogate c next]
  else if c.isLowSurrogate then [.unpairedLowSurrogate c]
  else []

def Text.lonelyProblems : Text → List Problem
  | [] => []
  | [u] => u.lonelyProblems none
  | u :: v :: rest =>
    if u.isHighSurrogate ∧ v.isLowSurrogate then lonelyProblems rest
    else u.lonelyProblems (some v) ++ lonelyProblems (v :: rest)

namespace Problem

def isUnpaired : Problem → Bool
  | unpairedHighSurrogate .. | unpairedLowSurrogate _ => true
  | _ => false

def isNotation : Problem → Bool
  | invalidReference _ | unknownEntity _ | invalidHexEscape _ | unknownEscape _ => true
  | _ => false

/-- Decoding tells no other problems. -/
def isDecoding (p : Problem) : Bool := p.isNotation || p.isUnpaired

end Problem

end PlainForm

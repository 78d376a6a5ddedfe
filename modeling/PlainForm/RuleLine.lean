import PlainForm.Decode
import PlainForm.Encode
import PlainForm.Rule
import PlainForm.RuleLine.Reading
import PlainForm.RuleLine.Token

/-!
# Rule lines

A rule is `accept «left»`, `delete «left»` or `replace «left» = «right»`. The left side is a range
or one or more items; the right side is a row of items, or the word for a special action and
perhaps some items. A comment may follow.
-/

namespace PlainForm.RuleLine

/-! ## Verbs -/

inductive Verb where
  | accept
  | delete
  | replace
deriving DecidableEq

namespace Verb

def word : Verb → Text
  | accept => "accept"
  | delete => "delete"
  | replace => "replace"

def ofWord? (word : Text) : Option Verb := [accept, delete, replace].find? (·.word = word)

/-- The action of a rule, as far as the verb settles it. -/
def action : Verb → Action
  | accept => .accept
  | delete | replace => .replace

def right : Verb → Option Text
  | accept | replace => none
  | delete => some []

end Verb

/-- The verb, in letters of either case, and the space behind it. -/
def readVerb (line : Text) : Reading (Verb × Text) :=
  match Token.keyword? line with
  | none => .wrong .missingVerb
  | some (word, rest) =>
    match Verb.ofWord? word.toLower with
    | none => .wrong (.unknownVerb word.toLower)
    | some verb =>
      match Token.space? rest with
      | none => .wrong .missingSpace
      | some left => pure (verb, left)

/-! ## Items -/

/-- A character that is named by its number. Surrogates are reserved. -/
def readCharacter (numeral : Numeral) : Reading CodePoint := do
  match CodePoint.ofNat? (← .ofExcept numeral.number) with
  | none => .wrong .beyondUnicode
  | some c => if c.isSurrogate then .wrong (.reservedSurrogate c.val) else return c

def readItem (notations : Notations) : Token.Item → Reading Text
  | .number numeral => return [← readCharacter numeral]
  | .quoted content => do .ofNoted (← .ofExcept (content.decode notations))

def readAll (notations : Notations) : List Token.Item → Reading Text
  | [] => return []
  | item :: items => return (← readItem notations item) ++ (← readAll notations items)

structure Row where
  characters : Text
  itemCount : Nat
  /-- What is left of the line. -/
  rest : Text

/-- Reads items for as long as there are any. What comes behind them is left to the caller. -/
def readRow (notations : Notations) (spaced : Bool) (t : Text) : Reading Row := do
  let (items, rest) := Token.items notations.backslash spaced t
  return ⟨← readAll notations items, items.length, rest⟩

/-! ## The two sides -/

/-- A range. Its bounds may be surrogates. -/
def readRange (low high : Numeral) : Reading Target := do
  let low ← .ofExcept low.number
  let high ← .ofExcept high.number
  if low ≤ high ∧ high ≤ 0x10FFFF then return .range low high
  else .wrong (.invalidRange low high)

def readLeft (notations : Notations) (t : Text) : Reading (Target × Text) := do
  match Token.range? t with
  | some (low, high, rest) => return (← readRange low high, rest)
  | none =>
    let row ← readRow notations false t
    if row.itemCount = 0 then .wrong .missingLeft
    else if row.characters = [] then .wrong .emptyLeft
    else return (.sequence row.characters.numbers, row.rest)

structure Effect where
  action : Action
  right : Option Text
  /-- What is left of the line. -/
  rest : Text

def readReplacement (notations : Notations) (t : Text) : Reading Effect := do
  let row ← readRow notations false t
  if row.itemCount = 0 then .wrong .missingRight
  else return ⟨.replace, some (← .ofNoted (encode row.characters.numbers)), row.rest⟩

def readSpecial (notations : Notations) (word rest : Text) : Reading Effect := do
  match Action.special? word with
  | none => .wrong (.unknownSpecialAction word)
  | some action =>
    let row ← readRow notations true rest
    if row.itemCount = 0 then return ⟨action, none, row.rest⟩
    else return ⟨action, some (← .ofNoted (encode row.characters.numbers)), row.rest⟩

/-- The right side of a replace rule, from the equals sign on. -/
def readRight (notations : Notations) (t : Text) : Reading Effect :=
  match Token.equals? t with
  | none => .wrong (.unexpected t)
  | some body =>
    match Token.keyword? body with
    | some (word, rest) => readSpecial notations word.toLower rest
    | none => readReplacement notations body

/-! ## The line -/

def readEffect (notations : Notations) (verb : Verb) (t : Text) : Reading Effect :=
  match verb with
  | .replace => readRight notations t
  | .accept | .delete => return ⟨verb.action, verb.right, t⟩

def read (notations : Notations) (line : Text) : Reading Rule := do
  let (verb, t) ← readVerb line
  let (target, t) ← readLeft notations t
  let effect ← readEffect notations verb t
  if Token.endsHere effect.rest then return ⟨effect.action, target, effect.right⟩
  else .wrong (.unexpected effect.rest)

end PlainForm.RuleLine

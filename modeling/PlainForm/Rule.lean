import PlainForm.Numeral

/-!
# Rules

A rule says which character numbers it matches (its target) and what becomes of them (its action).
-/

namespace PlainForm

/-! ## Actions -/

inductive Action where
  /-- Leave the match as it is. -/
  | accept
  /-- Put the right side in place of the match. -/
  | replace
  /-- Put whatever a renderer of the caller's choice makes of the match. -/
  | custom
  | decimal
  | hexadecimal
  | utf16
  | octal
  | unicode
  | xmlDecimal
  | xmlHexadecimal
deriving DecidableEq

namespace Action

def keyword : Action → Text
  | accept => "accept"
  | replace => "replace"
  | custom => "custom"
  | decimal => "decnum"
  | hexadecimal => "hexnum"
  | utf16 => "java16"
  | octal => "octnum"
  | unicode => "uninum"
  | xmlDecimal => "xmldec"
  | xmlHexadecimal => "xmlhex"

/-- The actions that are named on the right side of a rule. -/
def specials : List Action :=
  [custom, decimal, hexadecimal, utf16, octal, unicode, xmlDecimal, xmlHexadecimal]

def special? (word : Text) : Option Action := specials.find? (·.keyword = word)

end Action

/-! ## Targets -/

inductive Target where
  /-- Any one number between two bounds, both included. -/
  | range (low high : Int)
  /-- Exactly these numbers one after the other. -/
  | sequence (numbers : List Int)
  /-- A range with too few or too many bounds. It can be kept but not matched. -/
  | brokenRange (bounds : List Int) (not_two : bounds.length ≠ 2)
deriving DecidableEq

namespace Target

def ofBounds (bounds : List Int) : Target :=
  if h : bounds.length = 2 then .range bounds[0] bounds[1] else .brokenRange bounds h

def isRange : Target → Bool
  | range .. | brokenRange .. => true
  | sequence _ => false

def numbers : Target → List Int
  | range low high => [low, high]
  | sequence numbers => numbers
  | brokenRange bounds _ => bounds

/-- How much of `rest` the target matches at its start; zero if it does not match. -/
def matchLength (target : Target) (rest : List Int) : Except Failure Nat :=
  match target, rest with
  | range .., [] => .error .pastTheEnd
  | range low high, n :: _ => .ok (if low ≤ n ∧ n ≤ high then 1 else 0)
  | sequence numbers, rest => .ok (if numbers.isPrefixOf rest then numbers.length else 0)
  | brokenRange .., _ => .error .brokenRange

/-- The `U+` forms of the numbers, as they may stand in a rule. -/
def describe (target : Target) : Text :=
  Text.joined (if target.isRange then ".." else " ") (target.numbers.map CharNumber.unicode)

def describe? (target : Target) : Except Failure Text :=
  match target with
  | brokenRange .. => .error .brokenRange
  | _ => .ok target.describe

end Target

structure Rule where
  action : Action
  target : Target
  /-- The right side. -/
  right : Option Text := none
deriving DecidableEq

/-! ## Matching at a position -/

/-- The place of an index among so many items. A negative index counts from the end. -/
def position? (length : Nat) (index : Int) : Option Nat :=
  if 0 ≤ index then if index < length then some index.toNat else none
  else if -index ≤ length then some (length - index.natAbs) else none

namespace Target

/-- How much the target matches at an index. A sequence matches nothing outside the numbers, and at
an index from the end it must end before the last number. -/
def matchLengthAt (target : Target) (numbers : List Int) (index : Int) : Except Failure Nat :=
  match position? numbers.length index, target with
  | some place, sequence items =>
    if index < 0 ∧ -index ≤ items.length then .ok 0
    else (sequence items).matchLength (numbers.drop place)
  | some place, target => target.matchLength (numbers.drop place)
  | none, target => target.matchLength []

end Target

end PlainForm

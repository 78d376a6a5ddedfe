import PlainForm.Text

/-!
# 16-bit units

UTF-16 spells a character beyond U+FFFF as a high surrogate followed by a low one. A sequence of
units is a text whose code points all fit 16 bits.
-/

namespace PlainForm

/-! ## Surrogate pairs -/

namespace CodePoint

def ofPair? (high low : CodePoint) : Option CodePoint :=
  if h : high.isHighSurrogate ∧ low.isLowSurrogate then
    some ⟨0x10000 + (high.val - 0xD800) * 0x400 + (low.val - 0xDC00), by
      rw [isHighSurrogate_iff, isLowSurrogate_iff] at h; omega⟩
  else none

/-- One unit, or a high and a low surrogate. -/
def units (c : CodePoint) : Text :=
  if c.val ≤ 0xFFFF then [c]
  else
    [⟨0xD800 + (c.val - 0x10000) / 0x400, by have := c.val_le; omega⟩,
      ⟨0xDC00 + (c.val - 0x10000) % 0x400, by omega⟩]

end CodePoint

/-- Why numbers are not the units of a text. -/
inductive UnitError where
  | notAUnit
  | loneSurrogate
deriving DecidableEq

namespace Text

/-- The units that spell the text; a surrogate is its own unit. -/
def units (t : Text) : Text := t.flatMap CodePoint.units

/-- Every high surrogate followed by a low one becomes their character, read from the left. -/
def paired : Text → Text
  | [] => []
  | [u] => [u]
  | u :: v :: rest =>
    match CodePoint.ofPair? u v with
    | some c => c :: paired rest
    | none => u :: paired (v :: rest)

/-- The text of some units. A surrogate that pairs with none becomes `substitute`. -/
def join (substitute : CodePoint) (units : Text) : Text :=
  (paired units).map fun c => if c.isSurrogate then substitute else c

/-- The text of some units, provided that all surrogates pair up. -/
def join? (units : Text) : Option Text :=
  if (paired units).any CodePoint.isSurrogate then none else some (paired units)

/-! ## Numbers as units -/

def unit? (n : Int) : Option CodePoint :=
  if h : 0 ≤ n ∧ n ≤ 0xFFFF then some ⟨n.toNat, by omega⟩ else none

def unitsOfNumbers (numbers : List Int) : Except UnitError Text :=
  match numbers.mapM unit? with
  | some units => .ok units
  | none => .error .notAUnit

/-- The text of some units; U+FFFD stands for each lone surrogate. -/
def ofUnits (numbers : List Int) : Except UnitError Text :=
  (unitsOfNumbers numbers).map (join .replacement)

/-- The text of some units, in which no surrogate may stand alone. -/
def ofUnitsStrict (numbers : List Int) : Except UnitError Text := do
  match join? (← unitsOfNumbers numbers) with
  | some t => .ok t
  | none => .error .loneSurrogate

end Text

end PlainForm

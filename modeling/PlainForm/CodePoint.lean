/-!
# Code points and character numbers

A code point is a value up to U+10FFFF, surrogates included. A character number is any integer that
stands where a code point is expected: rules and conversions take all integers, and only the scalar
values among them can be written as text. `CharNumber` holds the classes of such integers.
-/

namespace PlainForm

namespace CharNumber

/-! ## Surrogates -/

def isHighSurrogate (n : Int) : Bool := 0xD800 ≤ n && n ≤ 0xDBFF

def isLowSurrogate (n : Int) : Bool := 0xDC00 ≤ n && n ≤ 0xDFFF

def isSurrogate (n : Int) : Bool := isHighSurrogate n || isLowSurrogate n

/-- Scalar values are the code points that are not surrogates. -/
def isScalar (n : Int) : Bool := 0 ≤ n && n ≤ 0x10FFFF && !isSurrogate n

theorem isHighSurrogate_iff {n : Int} : isHighSurrogate n ↔ 0xD800 ≤ n ∧ n ≤ 0xDBFF := by
  simp [isHighSurrogate]

theorem isLowSurrogate_iff {n : Int} : isLowSurrogate n ↔ 0xDC00 ≤ n ∧ n ≤ 0xDFFF := by
  simp [isLowSurrogate]

theorem isSurrogate_iff {n : Int} : isSurrogate n ↔ 0xD800 ≤ n ∧ n ≤ 0xDFFF := by
  simp only [isSurrogate, Bool.or_eq_true, isHighSurrogate_iff, isLowSurrogate_iff]
  omega

theorem isScalar_iff {n : Int} :
    isScalar n ↔ 0 ≤ n ∧ n ≤ 0x10FFFF ∧ (n < 0xD800 ∨ 0xDFFF < n) := by
  have h := isSurrogate_iff (n := n)
  cases hs : isSurrogate n <;> simp only [hs, isScalar, Bool.and_eq_true, decide_eq_true_eq,
    Bool.not_false, Bool.not_true, and_true, and_false, true_iff, false_iff,
    Bool.false_eq_true] at h ⊢ <;> omega

end CharNumber

/-- A Unicode code point; the surrogates count as code points. -/
structure CodePoint where
  val : Nat
  val_le : val ≤ 0x10FFFF
deriving DecidableEq

namespace CodePoint

theorem val_inj {c d : CodePoint} : c.val = d.val ↔ c = d := by
  cases c
  cases d
  simp

theorem char_le (c : Char) : c.toNat ≤ 0x10FFFF := by
  have h := c.valid
  simp only [UInt32.isValidChar, Nat.isValidChar, Char.toNat] at *
  omega

def ofChar (c : Char) : CodePoint := ⟨c.toNat, char_le c⟩

instance : Coe Char CodePoint := ⟨ofChar⟩

@[simp] theorem val_ofChar (c : Char) : (ofChar c).val = c.toNat := rfl

def ofNat? (n : Nat) : Option CodePoint :=
  if h : n ≤ 0x10FFFF then some ⟨n, h⟩ else none

theorem ofNat?_eq_some {n : Nat} {c : CodePoint} : ofNat? n = some c ↔ n = c.val := by
  have := c.val_le
  unfold ofNat?
  cases c
  split <;> simp
  omega

abbrev number (c : CodePoint) : Int := c.val

def isHighSurrogate (c : CodePoint) : Bool := CharNumber.isHighSurrogate c.number

def isLowSurrogate (c : CodePoint) : Bool := CharNumber.isLowSurrogate c.number

def isSurrogate (c : CodePoint) : Bool := CharNumber.isSurrogate c.number

theorem isHighSurrogate_iff {c : CodePoint} :
    c.isHighSurrogate ↔ 0xD800 ≤ c.val ∧ c.val ≤ 0xDBFF := by
  rw [isHighSurrogate, CharNumber.isHighSurrogate_iff, number]; omega

theorem isLowSurrogate_iff {c : CodePoint} :
    c.isLowSurrogate ↔ 0xDC00 ≤ c.val ∧ c.val ≤ 0xDFFF := by
  rw [isLowSurrogate, CharNumber.isLowSurrogate_iff, number]; omega

theorem isSurrogate_iff {c : CodePoint} : c.isSurrogate ↔ 0xD800 ≤ c.val ∧ c.val ≤ 0xDFFF := by
  rw [isSurrogate, CharNumber.isSurrogate_iff, number]; omega

/-- The character of a code point; a surrogate has none. -/
def toChar? (c : CodePoint) : Option Char :=
  if h : c.val.isValidChar then some (.ofNatAux c.val h) else none

/-- The question mark that stands for what cannot be written. -/
def questionMark : CodePoint := '?'

/-- U+FFFD, for what could not be read. -/
def replacement : CodePoint := ⟨0xFFFD, by decide⟩

def byteOrderMark : CodePoint := ⟨0xFEFF, by decide⟩

/-! ## Classes

All of them are ASCII classes, except the control characters, which reach up to U+009F. -/

/-- A space, tab, line feed, vertical tab, form feed or carriage return. -/
def isBlank (c : CodePoint) : Bool := c.val == 0x20 || (0x09 ≤ c.val && c.val ≤ 0x0D)

def isControl (c : CodePoint) : Bool := c.val ≤ 0x1F || (0x7F ≤ c.val && c.val ≤ 0x9F)

def isDigit (c : CodePoint) : Bool := 0x30 ≤ c.val && c.val ≤ 0x39

def isOctalDigit (c : CodePoint) : Bool := 0x30 ≤ c.val && c.val ≤ 0x37

def isUpper (c : CodePoint) : Bool := 0x41 ≤ c.val && c.val ≤ 0x5A

def isLower (c : CodePoint) : Bool := 0x61 ≤ c.val && c.val ≤ 0x7A

def isLetter (c : CodePoint) : Bool := c.isUpper || c.isLower

def isHexDigit (c : CodePoint) : Bool :=
  c.isDigit || (0x41 ≤ c.val && c.val ≤ 0x46) || (0x61 ≤ c.val && c.val ≤ 0x66)

/-- The value of a digit, letters counting on from ten in either case. -/
def digitValue (c : CodePoint) : Nat :=
  if c.isDigit then c.val - 0x30
  else if c.isUpper then c.val - 0x41 + 10
  else c.val - 0x61 + 10

/-- The small letter of an ASCII capital; anything else is itself. -/
def toLower (c : CodePoint) : CodePoint :=
  if h : c.isUpper then ⟨c.val + 0x20, by simp [isUpper] at h; omega⟩ else c

end CodePoint

end PlainForm

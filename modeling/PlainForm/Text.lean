import PlainForm.CodePoint

/-!
# Text

A text is a sequence of code points. It may hold surrogates that stand alone, and two adjacent
surrogates are not the character they would pair up to.
-/

namespace PlainForm

abbrev Text := List CodePoint

namespace Text

def ofString (s : String) : Text := s.toList.map CodePoint.ofChar

instance : Coe String Text := ⟨ofString⟩

/-- The text as a string; none if it holds a surrogate. -/
def toString? (t : Text) : Option String := (t.mapM CodePoint.toChar?).map String.ofList

def numbers (t : Text) : List Int := t.map CodePoint.number

def toLower (t : Text) : Text := t.map CodePoint.toLower

def skipBlanks (t : Text) : Text := t.dropWhile CodePoint.isBlank

theorem length_skipBlanks_le (t : Text) : (skipBlanks t).length ≤ t.length := by
  induction t with
  | nil => simp [skipBlanks]
  | cons c r ih =>
    simp only [skipBlanks, List.dropWhile_cons] at *
    split
    · simp; omega
    · simp

/-- The pieces one after the other, with `separator` between neighbours. -/
def joined (separator : Text) (pieces : List Text) : Text :=
  List.flatten (pieces.intersperse separator)

/-! ## The context of a notation -/

def contextLimit : Nat := 25

/-- What a note quotes of the text from some place on: a few characters, none of them a control. -/
def context (t : Text) : Text := (t.take contextLimit).takeWhile (!·.isControl)

end Text

end PlainForm

import PlainForm.Diagnostic
import PlainForm.Text.Units

/-!
# Encoding

Character numbers become text. One that is no scalar value becomes a question mark, and the user is
told.
-/

namespace PlainForm.Encode

/-- The character of a number; only scalar values have one. -/
def char? (n : Int) : Option CodePoint :=
  if h : CharNumber.isScalar n then
    some ⟨n.toNat, by rw [CharNumber.isScalar_iff] at h; omega⟩
  else none

def text (numbers : List Int) : Text := numbers.map fun n => (char? n).getD .questionMark

def problems (numbers : List Int) : List Problem :=
  (numbers.filter (!CharNumber.isScalar ·)).map .invalidCharNumber

end PlainForm.Encode

namespace PlainForm

def encode (numbers : List Int) : Noted Text := ⟨Encode.text numbers, Encode.problems numbers⟩

end PlainForm

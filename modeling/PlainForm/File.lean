import PlainForm.Diagnostic
import PlainForm.Text.Utf8

/-!
# Files

What a run sees of the files around it, and the texts they hold.
-/

namespace PlainForm

abbrev Bytes := List UInt8

/-- The files of a system, seen from a working directory. -/
structure Files where
  workingDirectory : Text
  read : Text → Except SystemError Bytes
  /-- Whether a file of some name can be written. -/
  accepts : Text → Except SystemError Unit

namespace File

/-- The text of a file. Ill-formed bytes become U+FFFD, and the first of them is told. -/
def text (name : Text) (bytes : Bytes) : Noted Text :=
  let pieces := Utf8.pieces bytes
  ⟨Utf8.text pieces, (Utf8.firstIllFormed? pieces).toList.map (.malformedUtf8 name)⟩

end File

end PlainForm

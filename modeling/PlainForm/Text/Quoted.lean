import PlainForm.Numeral
import PlainForm.Text.Printable

/-!
# Quoted texts

A quoted text stands between quotation marks on one line, with escapes for what is not printable.
Quoting can be limited to ASCII.
-/

namespace PlainForm.Text

/-- Single quotation marks, unless the text holds some and no double ones. -/
def quotationMark (t : Text) : CodePoint :=
  if t.any (· = '\'') && !t.any (· = '"') then '"' else '\''

/-- A hexadecimal escape with as many digits as its letter asks for. -/
def hexEscape (letter : CodePoint) (width : Nat) (c : CodePoint) : Text :=
  ('\\' : CodePoint) :: letter ::
    CharNumber.padded width ((Nat.toDigits 16 c.val).map CodePoint.ofChar)

def escape (c : CodePoint) : Text :=
  if c = '\t' then "\\t"
  else if c = '\n' then "\\n"
  else if c = '\r' then "\\r"
  else if c.val ≤ 0xFF then hexEscape 'x' 2 c
  else if c.val ≤ 0xFFFF then hexEscape 'u' 4 c
  else hexEscape 'U' 8 c

def quotedChar (mark : CodePoint) (asciiOnly : Bool) (c : CodePoint) : Text :=
  if c = mark || c = '\\' then ['\\', c]
  else if c.isPrintable && (!asciiOnly || c.val < 0x80) then [c]
  else escape c

def quotedWith (asciiOnly : Bool) (t : Text) : Text :=
  let mark := quotationMark t
  mark :: t.flatMap (quotedChar mark asciiOnly) ++ [mark]

/-- The text in quotation marks; printable characters stand for themselves. -/
def quoted (t : Text) : Text := quotedWith false t

/-- The text in quotation marks, in printable ASCII only. -/
def quotedAscii (t : Text) : Text := quotedWith true t

end PlainForm.Text

import PlainForm.Text

/-!
# UTF-8

Well-formed sequences give one character each. What is ill-formed is cut into the longest beginnings
of well-formed sequences, and each such piece counts as one unreadable character.
-/

namespace PlainForm.Utf8

/-! ## Reading -/

/-- The bytes allowed at one place of a sequence. -/
structure ByteRange where
  low : Nat
  high : Nat

def ByteRange.has (r : ByteRange) (b : UInt8) : Bool := r.low ≤ b.toNat && b.toNat ≤ r.high

def anyTail : ByteRange := ⟨0x80, 0xBF⟩

/-- What a first byte adds to the value, and the bytes that may follow it. -/
def lead? (b : UInt8) : Option (Nat × List ByteRange) :=
  let n := b.toNat
  if n < 0x80 then some (n, [])
  else if n < 0xC2 then none
  else if n < 0xE0 then some (n - 0xC0, [anyTail])
  else if n = 0xE0 then some (0, [⟨0xA0, 0xBF⟩, anyTail])
  else if n = 0xED then some (0xD, [⟨0x80, 0x9F⟩, anyTail])
  else if n < 0xF0 then some (n - 0xE0, [anyTail, anyTail])
  else if n = 0xF0 then some (0, [⟨0x90, 0xBF⟩, anyTail, anyTail])
  else if n < 0xF4 then some (n - 0xF0, [anyTail, anyTail, anyTail])
  else if n = 0xF4 then some (4, [⟨0x80, 0x8F⟩, anyTail, anyTail])
  else none

/-- Reads the bytes that must follow: the value if all are there, and how many were taken. -/
def readTail (value : Nat) : List ByteRange → List UInt8 → Option Nat × Nat
  | [], _ => (some value, 0)
  | _ :: _, [] => (none, 0)
  | r :: ranges, b :: rest =>
    if r.has b then
      let (result, taken) := readTail (value * 0x40 + (b.toNat - 0x80)) ranges rest
      (result, taken + 1)
    else (none, 0)

/-- A piece of the input: its character, none if it is ill-formed, and its length in bytes. -/
structure Piece where
  char : Option CodePoint
  size : Nat

/-- The piece that a first byte and the bytes behind it begin with. -/
def readPiece (first : UInt8) (rest : List UInt8) : Piece :=
  match lead? first with
  | none => ⟨none, 1⟩
  | some (value, ranges) =>
    let (result, taken) := readTail value ranges rest
    ⟨result.bind CodePoint.ofNat?, taken + 1⟩

theorem readPiece_size_pos (first : UInt8) (rest : List UInt8) :
    0 < (readPiece first rest).size := by
  unfold readPiece
  split <;> simp

def pieces : List UInt8 → List Piece
  | [] => []
  | first :: rest =>
    let piece := readPiece first rest
    piece :: pieces (rest.drop (piece.size - 1))
termination_by bytes => bytes.length
decreasing_by simp only [List.length_cons, List.length_drop]; omega

/-- The length of what stands before the first ill-formed piece, if there is one. -/
def firstIllFormed? : List Piece → Option Nat
  | [] => none
  | piece :: rest =>
    match piece.char with
    | none => some 0
    | some _ => (firstIllFormed? rest).map (piece.size + ·)

/-- The text of some bytes; U+FFFD stands for each ill-formed piece. -/
def text (pieces : List Piece) : Text := pieces.map (·.char.getD .replacement)

/-! ## Writing -/

def byte (n : Nat) : UInt8 := UInt8.ofNat n

def encodeChar (c : CodePoint) : List UInt8 :=
  let n := c.val
  if n < 0x80 then [byte n]
  else if n < 0x800 then [byte (0xC0 + n / 0x40), byte (0x80 + n % 0x40)]
  else if n < 0x10000 then
    [byte (0xE0 + n / 0x1000), byte (0x80 + n / 0x40 % 0x40), byte (0x80 + n % 0x40)]
  else
    [byte (0xF0 + n / 0x40000), byte (0x80 + n / 0x1000 % 0x40), byte (0x80 + n / 0x40 % 0x40),
      byte (0x80 + n % 0x40)]

def encode (t : Text) : List UInt8 := t.flatMap encodeChar

end PlainForm.Utf8

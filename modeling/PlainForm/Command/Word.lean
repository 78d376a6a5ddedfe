import PlainForm.Command.Switch

/-!
# Words of a command line

Each word is an operand or the use of a switch. After two dashes that stand alone all words are
operands.
-/

namespace PlainForm.Command

/-- A word that begins with the name of a switch. -/
structure Use where
  switch : Switch
  isLong : Bool
  /-- What is written behind the name in the same word. An equals sign between the two is no part
  of it. -/
  attached : Option Text := none
deriving DecidableEq

inductive Word where
  | operand (text : Text)
  /-- The two dashes that end the switches. -/
  | separator
  | use (use : Use)
  | unknown (text : Text)
deriving DecidableEq

namespace Word

/-- Operands and the separator. -/
def isOperand : Word → Bool
  | operand _ | separator => true
  | use _ | unknown _ => false

def operand? : Word → Option Text
  | operand text => some text
  | _ => none

/-! ## Classes -/

/-- A word that starts with a dash but names no switch. -/
def ofStranger (text : Text) : Word :=
  if text.isNegativeNumber || text.contains ' ' then .operand text else .unknown text

/-- What stands before the first equals sign, and what stands behind it, if there is one. -/
def splitEquals (text : Text) : Text × Option Text :=
  let front := text.takeWhile fun c : CodePoint => c != '='
  (front, if front.length < text.length then some (text.drop (front.length + 1)) else none)

/-- Long switches may be shortened as long as only one can be meant. -/
def ofShortened (text : Text) : Except Stop Word :=
  let (front, value) := splitEquals text
  match Switch.all.filter (front.isPrefixOf ·.long) with
  | [] => .ok (ofStranger text)
  | [switch] => .ok (.use ⟨switch, true, value⟩)
  | candidates => .error (.refused (.ambiguous text candidates))

/-- A word that is a dash, another character, and perhaps more. -/
def ofDashed (next : CodePoint) (rest : Text) : Except Stop Word :=
  let text := ('-' : CodePoint) :: next :: rest
  let isLong : Bool := next = '-'
  let (front, value) := splitEquals text
  match Switch.ofWord? text, Switch.ofWord? front, value with
  | some switch, _, _ => .ok (.use ⟨switch, isLong, none⟩)
  | none, some switch, some value => .ok (.use ⟨switch, isLong, some value⟩)
  | none, _, _ =>
    if isLong then ofShortened text
    else .ok <| match Switch.ofLetter? next with
      | some switch => .use ⟨switch, false, some rest⟩
      | none => ofStranger text

def ofText (text : Text) : Except Stop Word :=
  match text with
  | dash :: next :: rest => if dash = '-' then ofDashed next rest else .ok (.operand text)
  | _ => .ok (.operand text)

end Word

def words : List Text → Except Stop (List Word)
  | [] => .ok []
  | text :: rest =>
    if text = "--" then .ok (.separator :: rest.map .operand)
    else return (← Word.ofText text) :: (← words rest)

end PlainForm.Command

import PlainForm.Encode
import PlainForm.Table
import PlainForm.Text.Quoted

/-!
# Substitution

The numbers are cut into spans from the left: what the first matching rule takes, or one number if
no rule matches. Then the spans of rules other than accept are rendered, and the others are copied.
What is put in place of a match is not matched again.
-/

namespace PlainForm

/-! ## Spans -/

/-- A part of the input, where it starts, and the rule that matches it, if one does. -/
structure Span where
  start : Nat
  numbers : List Int
  hit : Option Hit
deriving DecidableEq

namespace Span

/-- The hit of a span that is not left as it is. -/
def change? (span : Span) : Option Hit := span.hit.filter (·.rule.action ≠ .accept)

end Span

/-- Cuts numbers that begin at index `start` into spans. -/
def Table.cut (table : Table) (start : Nat) : List Int → Except Failure (List Span)
  | [] => .ok []
  | n :: rest => do
    let hit ← table.hit (n :: rest)
    let tail := hit.elim 0 (·.length - 1)
    return ⟨start, n :: rest.take tail, hit⟩ :: (← table.cut (start + tail + 1) (rest.drop tail))
termination_by numbers => numbers.length
decreasing_by simp only [List.length_cons, List.length_drop]; omega

/-! ## Rendering -/

/-- What is put in place of a match, and problems to be told. -/
structure Fragment where
  text : Text
  problems : List Problem := []

/-- Renders the numbers of a match, given the rule and the problems told so far. A renderer is a
function of these: it keeps no state, always returns, and tells problems by adding to those told. -/
abbrev Renderer := List Int → Rule → List Problem → Fragment

namespace Render

def each (write : Int → Except Failure Text) : List Int → Except Failure Text
  | [] => .ok []
  | n :: ns => return (← write n) ++ (← each write ns)

def bracketed (form : Text) : Text := "<" ++ form ++ ">"

/-- The numbers in `U+` form and the right side, if there is one, between angle brackets. -/
def custom (numbers : List Int) (right : Text) : Text :=
  bracketed (Text.joined " " (numbers.map CharNumber.unicode ++ if right = [] then [] else [right]))

def utf16 (numbers : List Int) : Fragment :=
  let encoded := encode numbers
  ⟨encoded.value.units.flatMap fun unit => "\\u" ++ CharNumber.fourDigits unit.number,
    encoded.problems⟩

/-- What each action makes of a match. Accept rules are not rendered. -/
def builtin (rule : Rule) (numbers : List Int) : Except Failure Fragment :=
  match rule.action with
  | .accept => .ok { text := [] }
  | .replace => .ok { text := rule.right.getD [] }
  | .custom => .ok { text := custom numbers (rule.right.getD []) }
  | .utf16 => .ok (utf16 numbers)
  | .decimal =>
    return { text := ← each (fun n => return bracketed (← CharNumber.decimal? n)) numbers }
  | .hexadecimal =>
    return { text := ← each (fun n => return bracketed (CharNumber.hexadecimal n)) numbers }
  | .octal =>
    return { text := ← each (fun n => return bracketed (CharNumber.octal n)) numbers }
  | .unicode =>
    return { text := ← each (fun n => return bracketed (CharNumber.unicode n)) numbers }
  | .xmlDecimal =>
    return { text := ← each (fun n => return "&#" ++ (← CharNumber.decimal? n) ++ ";") numbers }
  | .xmlHexadecimal =>
    return { text := ← each (fun n => return "&#x" ++ CharNumber.hexadecimal n ++ ";") numbers }

/-- A renderer of the caller's choice takes the place of the built-in one for custom rules. -/
def fragment (renderer : Option Renderer) (rule : Rule) (numbers : List Int) (told : List Problem) :
    Except Failure Fragment :=
  match rule.action, renderer with
  | .custom, some render => .ok (render numbers rule told)
  | _, _ => builtin rule numbers

end Render

/-! ## Pieces of the result -/

/-- A span and what is put in its place; none if it is left as it is. -/
structure Piece where
  span : Span
  fragment : Option Fragment

namespace Piece

def numbers (piece : Piece) : List Int :=
  match piece.fragment with
  | some fragment => fragment.text.numbers
  | none => piece.span.numbers

def isChange (piece : Piece) : Bool := piece.fragment.isSome

def problems (piece : Piece) : List Problem := piece.fragment.elim [] (·.problems)

def log (piece : Piece) : List Text :=
  match piece.span.hit, piece.fragment with
  | some hit, some fragment =>
    ["rule " ++ CharNumber.decimal hit.number ++ " (" ++ hit.rule.action.keyword ++ ") at index " ++
      CharNumber.decimal piece.span.start ++ ": " ++ hit.rule.target.describe ++ " --> " ++
      fragment.text.quotedAscii]
  | _, _ => []

end Piece

namespace Render

/-- Renders spans one after the other. `told` are the problems told before them. -/
def pieces (renderer : Option Renderer) (told : List Problem) :
    List Span → Except Failure (List Piece)
  | [] => .ok []
  | span :: spans => do
    match span.change? with
    | none => return ⟨span, none⟩ :: (← pieces renderer told spans)
    | some hit =>
      let fragment ← fragment renderer hit.rule span.numbers told
      return ⟨span, some fragment⟩ :: (← pieces renderer (told ++ fragment.problems) spans)

end Render

/-! ## The result -/

structure Substitution where
  pieces : List Piece

namespace Substitution

def numbers (s : Substitution) : List Int := s.pieces.flatMap Piece.numbers

def changes (s : Substitution) : Nat := s.pieces.countP Piece.isChange

def problems (s : Substitution) : List Problem := s.pieces.flatMap Piece.problems

def log (s : Substitution) : List Text := s.pieces.flatMap Piece.log

end Substitution

def Table.substitute (table : Table) (numbers : List Int) (renderer : Option Renderer := none) :
    Except Failure Substitution :=
  if table.committed then do
    return ⟨← Render.pieces renderer [] (← table.cut 0 numbers)⟩
  else .error .tableUncommitted

end PlainForm

import PlainForm.Decode.Step
import PlainForm.Text.Integer

/-!
# Switches

What can be set on the command line, and by which words.
-/

namespace PlainForm.Command

/-! ## Levels -/

structure Level where
  rules : Bool := false
  input : Bool := false
deriving DecidableEq

namespace Level

/-- The level of a switch that is used without one: rules only. -/
def usual : Level := { rules := true }

/-- From zero to three, with one for the rules and two for the input. -/
def ofNumber? (n : Int) : Option Level :=
  if 0 ≤ n ∧ n ≤ 3 then some ⟨n % 2 = 1, 2 ≤ n⟩ else none

end Level

/-! ## Switches -/

inductive Switch where
  | help
  | version
  | rules
  | backslash
  | xml
  | output
  | verbose
deriving DecidableEq

/-- What one use of a switch asks for. Levels are kept as they were typed. -/
inductive Setting where
  | help
  | version
  | verbose
  | rules (file : Option Text)
  | output (file : Option Text)
  | backslash (level : Option Text)
  | xml (level : Option Text)
deriving DecidableEq

namespace Switch

def all : List Switch := [help, version, rules, backslash, xml, output, verbose]

def letter : Switch → CodePoint
  | help => 'h'
  | version => 'v'
  | rules => 'd'
  | backslash => 'j'
  | xml => 'm'
  | output => 'o'
  | verbose => 'x'

def short (switch : Switch) : Text := ['-', switch.letter]

def long : Switch → Text
  | help => "--help"
  | version => "--version"
  | rules => "--data"
  | backslash => "--backslash"
  | xml => "--xml"
  | output => "--output"
  | verbose => "--verbose"

def name (switch : Switch) : Text := switch.short ++ "/" ++ switch.long

def ofLetter? (letter : CodePoint) : Option Switch := all.find? (·.letter = letter)

def ofWord? (word : Text) : Option Switch :=
  all.find? fun switch => switch.short = word || switch.long = word

/-- How a switch is used: alone, with a level or without, or with the name of a file. -/
inductive Usage where
  | alone (setting : Setting)
  | level (setting : Option Text → Setting)
  | file (setting : Option Text → Setting)

def usage : Switch → Usage
  | help => .alone .help
  | version => .alone .version
  | rules => .file .rules
  | backslash => .level .backslash
  | xml => .level .xml
  | output => .file .output
  | verbose => .alone .verbose

end Switch

/-! ## Refusals -/

inductive Refusal where
  | ambiguous (word : Text) (candidates : List Switch)
  | missingValue (switch : Switch)
  /-- Behind a switch that takes no value there is something that is no switch either. -/
  | needlessValue (switch : Switch) (value : Text)
  | noInteger (switch : Switch) (value : Text)
  | noLevel (switch : Switch) (number : Int)
  | unrecognized (words : List Text)
deriving DecidableEq

namespace Refusal

def aboutSwitch (switch : Switch) (message : Text) : Text :=
  "argument " ++ switch.name ++ ": " ++ message

def message : Refusal → Text
  | ambiguous word candidates =>
    "ambiguous option: " ++ word ++ " could match " ++ Text.joined ", " (candidates.map Switch.long)
  | missingValue switch => aboutSwitch switch "expected one argument"
  | needlessValue switch value => aboutSwitch switch ("ignored explicit argument " ++ value.quoted)
  | noInteger switch value => aboutSwitch switch ("invalid int value: " ++ value.quoted)
  | noLevel switch number =>
    aboutSwitch switch
      ("invalid choice: " ++ CharNumber.decimal number ++ " (choose from 0, 1, 2, 3)")
  | unrecognized words => "unrecognized arguments: " ++ Text.joined " " words

end Refusal

/-- Why a command line does not lead to a conversion. -/
inductive Stop where
  | help
  | version
  | refused (refusal : Refusal)
deriving DecidableEq

end PlainForm.Command

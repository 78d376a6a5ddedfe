import PlainForm.RuleLine.Mistake
import PlainForm.Text.Quoted

/-!
# Diagnostics

Problems found while rules are loaded or texts are converted. They are handed to the user next to
the result and stop nothing. A diagnostic about a line of rules says where the line is.
-/

namespace PlainForm

/-- Why the system does not give or take the contents of a file. -/
inductive SystemError where
  | notFound
  | inputOutput
  | denied
  | notADirectory
  | isADirectory
  | nameTooLong
  /-- The name holds U+0000, so that no file can have it. -/
  | impossibleName
deriving DecidableEq

namespace SystemError

def number : SystemError → Nat
  | notFound => 2
  | inputOutput => 5
  | denied => 13
  | notADirectory => 20
  | isADirectory => 21
  | impossibleName => 22
  | nameTooLong => 36

def explanation : SystemError → Text
  | notFound => "No such file or directory"
  | inputOutput => "Input/output error"
  | denied => "Permission denied"
  | notADirectory => "Not a directory"
  | isADirectory => "Is a directory"
  | impossibleName => "Invalid argument"
  | nameTooLong => "File name too long"

def message (error : SystemError) (name : Text) : Text :=
  "[Errno " ++ CharNumber.decimal error.number ++ "] " ++ error.explanation ++ ": " ++ name.quoted

end SystemError

inductive Problem where
  | invalidReference (context : Text)
  | unknownEntity (context : Text)
  | invalidHexEscape (context : Text)
  | unknownEscape (context : Text)
  /-- No low surrogate follows; `next` is what follows, if anything does. -/
  | unpairedHighSurrogate (unit : CodePoint) (next : Option CodePoint)
  | unpairedLowSurrogate (unit : CodePoint)
  | invalidCharNumber (number : Int)
  | mistake (mistake : Mistake)
  | malformedUtf8 (file : Text) (byte : Nat)
  | rulesNotFound (file : Text)
  | rulesUnreadable (file : Text)
  | workingDirectory (directory : Text)
  | systemError (error : SystemError) (file : Text)
  | remark (message : Text)
deriving DecidableEq

def Problem.message : Problem → Text
  | invalidReference context => "Invalid XML numeric character reference: " ++ context
  | unknownEntity context => "Unknown XML character entity reference: " ++ context
  | invalidHexEscape context => "Invalid Java backslash hexadecimal number: " ++ context
  | unknownEscape context => "Unknown Java backslash notation: " ++ context
  | unpairedHighSurrogate unit (some next) =>
    "Unpaired UTF-16 high surrogate: " ++ CharNumber.unicode unit.number ++ " followed by " ++
      CharNumber.unicode next.number
  | unpairedHighSurrogate unit none =>
    "Unpaired UTF-16 high surrogate: " ++ CharNumber.unicode unit.number ++ " at end of input"
  | unpairedLowSurrogate unit =>
    "Unpaired UTF-16 low surrogate: " ++ CharNumber.unicode unit.number
  | invalidCharNumber number =>
    "Invalid Unicode character number: 0x" ++ CharNumber.hexadecimal number
  | mistake m => m.message
  | malformedUtf8 file byte =>
    "Malformed UTF-8 in `" ++ file ++ "` at byte " ++ CharNumber.groupedDecimal byte ++
      " (malformed bytes replaced by U+FFFD)"
  | rulesNotFound file => "Configuration data file not found: " ++ file
  | rulesUnreadable file => "Unable to read configuration data file: " ++ file
  | workingDirectory directory => "in current working directory " ++ directory
  | systemError error file => error.message file
  | remark message => message

/-- A problem and, for a line of rules, where it was found. -/
structure Diagnostic where
  problem : Problem
  file : Option Text := none
  lineNumber : Option Int := none
  line : Option Text := none
deriving DecidableEq

namespace Diagnostic

def message (d : Diagnostic) : Text := d.problem.message

def locate (d : Diagnostic) (file : Text) (lineNumber : Int) (line : Text) : Diagnostic :=
  { d with file := some file, lineNumber := some lineNumber, line := some line }

/-- What an absent part of a place is called. -/
def absent : Text := "None"

def text (d : Diagnostic) : Text :=
  match d.lineNumber with
  | none => d.message
  | some n =>
    "`" ++ d.file.getD absent ++ "`, line " ++ CharNumber.decimal n ++ ": " ++ d.message ++
      "\n    " ++ d.line.getD absent

end Diagnostic

/-- A result and the problems met on the way to it. -/
structure Noted (α : Type) where
  value : α
  problems : List Problem
deriving DecidableEq

end PlainForm

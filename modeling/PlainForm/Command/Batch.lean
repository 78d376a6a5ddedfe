import PlainForm.Command.Settings
import PlainForm.Conversion
import PlainForm.Phrase
import PlainForm.RulesFile

/-!
# Batches

The input files of a run are converted one after the other, each on its own. The first one that
cannot be read ends the batch.
-/

namespace PlainForm.Command

def note (d : Diagnostic) : Text := "note: " ++ d.text

/-- Problems that belong to no line of rules. -/
def notes (problems : List Problem) : List Text := problems.map fun p => note { problem := p }

/-- What is told about a converted text: how many UTF-16 units it has, and how much was changed. -/
def summary (text : Text) (changes : Int) : Text :=
  "Text has " ++ Phrase.quantity text.units.length "character" "characters" ++ " with " ++
    Phrase.quantity changes "change" "changes" ++ "."

inductive Trouble where
  | inputNotFound (file : Text)
  | inputUnreadable (file : Text)
  | outputUnwritable (file : Text)
deriving DecidableEq

namespace Trouble

def message : Trouble → Text
  | inputNotFound file => "error: argument `" ++ file ++ "`: file not found"
  | inputUnreadable file => "error: cannot read from `" ++ file ++ "`"
  | outputUnwritable file => "error: cannot write to `" ++ file ++ "`"

def exitCode : Trouble → Nat
  | inputNotFound _ => 2
  | inputUnreadable _ | outputUnwritable _ => 1

end Trouble

/-! ## Input -/

def dash : Text := "-"

def standardInputName : Text := "<stdin>"

/-- The text of an input file, or of what is left of standard input. -/
def readInput (files : Files) (stdin : Bytes) (name : Text) :
    Except Failure (Except Trouble (Noted Text)) :=
  if name = dash then .ok (.ok (File.text standardInputName stdin))
  else
    match files.read name with
    | .ok bytes => .ok (.ok (File.text name bytes))
    | .error .impossibleName => .error .impossibleName
    | .error .notFound => .ok (.error (.inputNotFound name))
    | .error _ => .ok (.error (.inputUnreadable name))

/-- What is left of standard input after an input file has been read. -/
def restOfInput (stdin : Bytes) (name : Text) : Bytes := if name = dash then [] else stdin

/-! ## Conversion -/

/-- How far the input files have been converted, and what stopped it, if anything did. -/
structure Batch where
  texts : List Text := []
  log : List Text := []
  notes : List Text := []
  trouble : Option Trouble := none
deriving DecidableEq

namespace Batch

def ofConversion (read : Noted Text) (c : Conversion) : Batch where
  texts := [c.text]
  log := c.log
  notes := Command.notes (read.problems ++ c.problems) ++ [summary c.text c.changes]

def append (first later : Batch) : Batch where
  texts := first.texts ++ later.texts
  log := first.log ++ later.log
  notes := first.notes ++ later.notes
  trouble := later.trouble

end Batch

def convertInputs (table : Table) (notations : Notations) (files : Files) (stdin : Bytes) :
    List Text → Except Failure Batch
  | [] => .ok {}
  | name :: names => do
    match ← readInput files stdin name with
    | .error trouble => return { trouble := some trouble }
    | .ok read =>
      let conversion ← table.convert notations read.value
      let later ← convertInputs table notations files (restOfInput stdin name) names
      return (Batch.ofConversion read conversion).append later

end PlainForm.Command

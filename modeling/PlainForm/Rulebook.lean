import PlainForm.RuleLine
import PlainForm.Table
import PlainForm.Text.Lines

/-!
# Rulebooks

A rulebook takes in rules texts line by line and builds a table. A line with a mistake is left out
as a whole and told; it does not keep the other lines from being read.
-/

namespace PlainForm

/-! ## Entries -/

/-- What a line contributes: perhaps a rule, and the problems met in the line. -/
structure Entry where
  lineNumber : Nat
  line : Text
  problems : List Problem
  rule : Option Rule
deriving DecidableEq

namespace Entry

/-- Lines that hold no more than a comment. -/
def isIgnorable (line : Text) : Bool := Token.endsHere line

/-- A mistake is the last problem of its line. -/
def read (notations : Notations) (lineNumber : Nat) (line : Text) : Except Failure Entry :=
  let r := RuleLine.read notations line
  match r.outcome with
  | .ok rule => .ok ⟨lineNumber, line, r.problems, some rule⟩
  | .error (.mistake m) => .ok ⟨lineNumber, line, r.problems ++ [.mistake m], none⟩
  | .error (.failure f) => .error f

def diagnostics (file : Text) (entry : Entry) : List Diagnostic :=
  entry.problems.map fun p => Diagnostic.locate { problem := p } file entry.lineNumber entry.line

def log (entry : Entry) : List Text :=
  match entry.rule with
  | none => []
  | some rule =>
    ["line " ++ CharNumber.decimal entry.lineNumber ++ ": " ++ entry.line,
      "  action = " ++ rule.action.keyword ++ ", range = " ++
        (if rule.target.isRange then "True" else "False" : Text),
      "  left side = " ++ rule.target.describe,
      "  right side = " ++ (rule.right.map Text.quoted).getD "None"]

end Entry

/-- The lines of a rules text that are not ignorable, with their numbers from one on. -/
def ruleLines (rules : Text) : List (Text × Nat) :=
  (rules.lines.zipIdx 1).filter fun (line, _) => !Entry.isIgnorable line

/-! ## The book -/

/-- What has been read so far. Printing in verbose mode is kept as a log by the side and cannot
fail. -/
structure Rulebook where
  notations : Notations := {}
  table : Table := {}
  diagnostics : List Diagnostic := []
deriving DecidableEq

/-- How far a rulebook came with a rules text, and why it gave up, if it did. -/
structure Progress where
  book : Rulebook
  failure : Option Failure := none
  log : List Text := []

namespace Rulebook

def report (book : Rulebook) (d : Diagnostic) : Rulebook :=
  { book with diagnostics := book.diagnostics ++ [d] }

/-- Tells the problems of an entry, then adds its rule. -/
def enter (book : Rulebook) (file : Text) (entry : Entry) : Progress :=
  let told := { book with diagnostics := book.diagnostics ++ entry.diagnostics file }
  match entry.rule with
  | none => { book := told }
  | some rule =>
    match book.table.add rule with
    | .ok table => { book := { told with table }, log := entry.log }
    | .error f => { book := told, failure := some f }

def readLine (book : Rulebook) (file line : Text) (lineNumber : Nat) : Progress :=
  match Entry.read book.notations lineNumber line with
  | .ok entry => book.enter file entry
  | .error f => { book, failure := some f }

def readLines (book : Rulebook) (file : Text) : List (Text × Nat) → Progress
  | [] => { book }
  | (line, lineNumber) :: rest =>
    let first := book.readLine file line lineNumber
    match first.failure with
    | some f => { first with failure := some f }
    | none =>
      let later := first.book.readLines file rest
      { later with log := first.log ++ later.log }

def read (book : Rulebook) (file : Text) (rules : Option Text) : Progress :=
  book.readLines file (rules.elim [] ruleLines)

/-- The table to apply from now on. A book without rules stays open and gives the fallback. -/
def enact (book : Rulebook) : Rulebook × Table :=
  if book.table.rules = [] then (book, .fallback)
  else ({ book with table := book.table.commit }, book.table.commit)

end Rulebook

/-! ## Loading -/

/-- A table ready to be applied, and what was told while its rules were read. -/
structure Loaded where
  table : Table
  diagnostics : List Diagnostic
  log : List Text

/-- The table of a rules text; the fallback if there is no text or no rule in it. -/
def load (notations : Notations) (file : Text) (rules : Option Text) : Except Failure Loaded :=
  let progress := Rulebook.read { notations } file rules
  match progress.failure with
  | some f => .error f
  | none =>
    let (book, table) := progress.book.enact
    .ok ⟨table, book.diagnostics, progress.log⟩

end PlainForm

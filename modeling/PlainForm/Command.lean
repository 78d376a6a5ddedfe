import PlainForm.Command.Batch
import PlainForm.FileTree

/-!
# The command

A run loads a table of rules, converts the input files with it, and writes the converted texts one
after the other, to a file or to standard output. A run that fails writes no file.
-/

namespace PlainForm.Command

def programName : Text := "plaintext"

def versionLine : Text := programName ++ " version v3.0.0"

/-- The usage, laid out for a terminal of 80 columns like the rest of the help. -/
def usage : List Text :=
  ["usage: plaintext [-h] [-v] [-d FILE] [-j [\x7b0,1,2,3\x7d]] [-m [\x7b0,1,2,3\x7d]]",
    "                 [-o FILE] [-x]",
    "                 [file ...]"]

def argumentsHelp : List Text :=
  ["",
    "    Convert Unicode text to plain text, according to rules in a rules file.",
    "",
    "positional arguments:",
    "  file                  name of UTF-8 input file to be converted (`-` or none",
    "                        for standard input); malformed UTF-8 is replaced by",
    "                        U+FFFD, with a note",
    "",
    "options:",
    "  -h, --help            show this help message and exit",
    "  -v, --version         show program's version number and exit",
    "  -d FILE, --data FILE  name of rules file (default `PlainText3.txt`, silently",
    "                        skipped if absent; without rules, smart punctuation is",
    "                        converted to plain ASCII)",
    "  -j [\x7b0,1,2,3\x7d], --backslash [\x7b0,1,2,3\x7d]",
    "                        decode Java backslash notation (`\\n`, `\\u2021`, etc.)",
    "                        in 0: nothing, 1: rules file (default if level",
    "                        omitted), 2: input text, 3: both",
    "  -m [\x7b0,1,2,3\x7d], --xml [\x7b0,1,2,3\x7d]",
    "                        decode XML character references (`&amp;`, `&#x2021;`,",
    "                        etc.) in 0: nothing, 1: rules file (default if level",
    "                        omitted), 2: input text, 3: both",
    "  -o FILE, --output FILE",
    "                        name of file to write the converted text to (default",
    "                        standard output)",
    "  -x, --verbose         run in verbose mode (prints every rule loaded and",
    "                        every rule applied to standard output, so use with",
    "                        `-o` to keep the converted text separate)",
    ""]

def rulesSyntax : List Text :=
  ["In PlainText rules syntax, a line must be one of the following:",
    "(1) whitespace-only;",
    "(2) a comment (beginning with `#`);",
    "(3) an accept rule (`accept «left»`);",
    "(4) a delete rule (`delete «left»`);",
    "(5) a replace rule (`replace «left» = «right»`).",
    "- «left» is a range (`«number» .. «number»` or `«number» : «number»`)",
    "  or one or more whitespace-separated items.",
    "- An item is a character number (decimal, `U+«hex»`, or `0x«hex»`)",
    "  or a double-quoted string.",
    "- «right» is zero or more items, optionally preceded by one of the",
    "  special actions `custom`, `decnum`, `hexnum`, `java16`, `octnum`,",
    "  `uninum`, `xmldec`, `xmlhex`.",
    "- A comment may follow any rule."]

def help : List Text := usage ++ argumentsHelp ++ rulesSyntax

/-! ## Outcomes -/

structure Outcome where
  exitCode : Nat := 0
  output : Text := []
  errors : Text := []
  /-- A file that the run writes, and its new contents. -/
  written : Option (Text × Bytes) := none
deriving DecidableEq

namespace Outcome

/-- The usage lines that may stand in front of a refusal are left out. -/
def ofStop : Stop → Outcome
  | .help => { output := Text.ofLines help }
  | .version => { output := Text.ofLines [versionLine] }
  | .refused refusal =>
    { exitCode := 2, errors := Text.ofLines [programName ++ ": error: " ++ refusal.message] }

/-- A run that ends early keeps the lines printed before. -/
def ofTrouble (log notes : List Text) (trouble : Trouble) : Outcome where
  exitCode := trouble.exitCode
  output := Text.ofLines log
  errors := Text.ofLines (notes ++ [trouble.message])

def ofText (files : Files) (output : Option Text) (log notes : List Text) (text : Text) :
    Except Failure Outcome :=
  match output with
  | none => .ok { output := Text.ofLines log ++ text, errors := Text.ofLines notes }
  | some file =>
    match files.accepts file with
    | .ok () => .ok
        { output := Text.ofLines log, errors := Text.ofLines notes,
          written := some (file, Utf8.encode text) }
    | .error .impossibleName => .error .impossibleName
    | .error _ => .ok (ofTrouble log notes (.outputUnwritable file))

end Outcome

/-! ## Runs -/

namespace Settings

/-- Without input files, standard input is converted. -/
def inputsOrDash (s : Settings) : List Text := if s.inputs = [] then [dash] else s.inputs

def run (s : Settings) (files : Files) (stdin : Bytes) : Except Failure Outcome := do
  let loaded ← RulesFile.load files (← s.rules.name?) s.rulesNotations
  let batch ← convertInputs loaded.table s.inputNotations files stdin s.inputsOrDash
  let log := if s.verbose then loaded.log ++ batch.log else []
  let notes := loaded.diagnostics.map note ++ batch.notes
  match batch.trouble with
  | some trouble => return .ofTrouble log notes trouble
  | none => Outcome.ofText files (← s.output.name?) log notes batch.texts.flatten

end Settings

def run (files : Files) (stdin : Bytes) (arguments : List Text) : Except Failure Outcome :=
  match Settings.ofArguments arguments with
  | .error stop => .ok (.ofStop stop)
  | .ok settings => settings.run files stdin

def Outcome.applyTo (outcome : Outcome) (tree : FileTree) : FileTree :=
  match outcome.written with
  | none => tree
  | some (name, bytes) => (tree.write name bytes).toOption.getD tree

end PlainForm.Command

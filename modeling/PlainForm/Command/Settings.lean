import PlainForm.Command.Word

/-!
# Settings

What a command line asks for. Its words are carried out from the left; where a switch is used twice,
the later use counts. The first row of operands names the input files, and operands beyond it are
left over.
-/

namespace PlainForm.Command

/-- The file for a purpose. A switch whose value is two dashes leaves it without a name. -/
inductive FileChoice where
  | usual
  | named (name : Text)
  | nameless
deriving DecidableEq

namespace FileChoice

def ofValue : Option Text → FileChoice
  | some name => named name
  | none => nameless

/-- The name that was chosen; none for the usual file. -/
def name? : FileChoice → Except Failure (Option Text)
  | usual => .ok none
  | named name => .ok (some name)
  | nameless => .error .namelessFile

end FileChoice

structure Settings where
  rules : FileChoice := .usual
  backslash : Level := {}
  xml : Level := {}
  /-- The file to be written; usually standard output. -/
  output : FileChoice := .usual
  verbose : Bool := false
  /-- The input files; a dash stands for standard input. -/
  inputs : List Text := []
deriving DecidableEq

namespace Settings

def rulesNotations (s : Settings) : Notations := ⟨s.backslash.rules, s.xml.rules⟩

def inputNotations (s : Settings) : Notations := ⟨s.backslash.input, s.xml.input⟩

end Settings

def readLevel (switch : Switch) : Option Text → Except Stop Level
  | none => .ok .usual
  | some text =>
    match text.integer? with
    | none => .error (.refused (.noInteger switch text))
    | some n =>
      match Level.ofNumber? n with
      | none => .error (.refused (.noLevel switch n))
      | some level => .ok level

def Settings.set (s : Settings) : Setting → Except Stop Settings
  | .help => .error .help
  | .version => .error .version
  | .verbose => .ok { s with verbose := true }
  | .rules file => .ok { s with rules := .ofValue file }
  | .output file => .ok { s with output := .ofValue file }
  | .backslash level => return { s with backslash := ← readLevel .backslash level }
  | .xml level => return { s with xml := ← readLevel .xml level }

/-! ## Uses of switches -/

structure Demand where
  settings : List Setting := []
  /-- The word behind is the value of the last switch. -/
  takesNext : Bool := false

namespace Demand

/-- A switch with nothing behind it in its word. `next` is the operand behind the word, if there is
one. -/
def ofSwitch (next : Option Text) (switch : Switch) : Except Stop Demand :=
  match switch.usage, next with
  | .alone setting, _ => .ok { settings := [setting] }
  | .level setting, _ => .ok { settings := [setting next], takesNext := next.isSome }
  | .file _, none => .error (.refused (.missingValue switch))
  | .file setting, some _ => .ok { settings := [setting next], takesNext := true }

def after (setting : Setting) (demand : Demand) : Demand :=
  { demand with settings := setting :: demand.settings }

/-- A value written behind its switch. Two dashes count as no value, as in argparse up to 3.11.8 and
3.12.2; later versions take them for the value. -/
def writtenValue (value : Text) : Option Text := if value = "--" then none else some value

/-- A switch with something behind it in its word. Behind a short switch that takes no value stand
the letters of more switches. This follows argparse up to 3.11.8 and 3.12.2; later versions read
letters behind such a switch, with or without an equals sign, in another way. -/
def ofAttached (next : Option Text) (switch : Switch) (isLong : Bool) (value : Text) :
    Except Stop Demand :=
  match switch.usage, value with
  | .level setting, _ | .file setting, _ => .ok { settings := [setting (writtenValue value)] }
  | .alone _, [] => .error (.refused (.needlessValue switch []))
  | .alone setting, c :: rest =>
    match (if isLong then none else Switch.ofLetter? c) with
    | none => .error (.refused (.needlessValue switch (c :: rest)))
    | some other =>
      after setting <$>
        if rest = [] then ofSwitch next other else ofAttached next other false rest

def ofUse (next : Option Text) (use : Use) : Except Stop Demand :=
  match use.attached with
  | none => ofSwitch next use.switch
  | some value => ofAttached next use.switch use.isLong value

end Demand

/-! ## The command line -/

structure Reader where
  settings : Settings := {}
  hasInputs : Bool := false
  leftOver : List Text := []

namespace Reader

def takeOperands (r : Reader) (operands : List Word) : Reader :=
  if r.hasInputs then
    { r with leftOver := r.leftOver ++ operands.map fun word => word.operand?.getD "--" }
  else
    { r with settings.inputs := operands.filterMap Word.operand?, hasInputs := true }

def readWords (r : Reader) : List Word → Except Stop Reader
  | [] => .ok r
  | .use use :: rest => do
    let demand ← Demand.ofUse (rest.head?.bind Word.operand?) use
    let settings ← demand.settings.foldlM Settings.set r.settings
    readWords { r with settings } (rest.drop (if demand.takesNext then 1 else 0))
  | .unknown text :: rest => readWords { r with leftOver := r.leftOver ++ [text] } rest
  | word :: rest =>
    (r.takeOperands (word :: rest.takeWhile Word.isOperand)).readWords
      (rest.dropWhile Word.isOperand)
termination_by words => words.length
decreasing_by
  · simp only [List.length_cons, List.length_drop]; omega
  · simp
  · have := (List.dropWhile_suffix (l := rest) Word.isOperand).length_le
    simp; omega

end Reader

def Settings.ofArguments (arguments : List Text) : Except Stop Settings := do
  let r ← Reader.readWords {} (← words arguments)
  if r.leftOver = [] then return r.settings else throw (.refused (.unrecognized r.leftOver))

end PlainForm.Command

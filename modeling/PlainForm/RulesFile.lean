import PlainForm.File
import PlainForm.Rulebook

/-!
# Rules files

Rules are loaded from a file, or from a file of the usual name in the working directory if no other
is named. A rules file that cannot be read is told, and the fallback takes its place.
-/

namespace PlainForm.RulesFile

def usualName : Text := "PlainText3.txt"

/-- The rules in a file; none if it cannot be read. That the usual file is absent is not told. -/
def read (files : Files) (name : Text) : Except Failure (Noted (Option Text)) :=
  match files.read name with
  | .ok bytes =>
    let rules := File.text name bytes
    .ok ⟨some rules.value, rules.problems⟩
  | .error .impossibleName => .error .impossibleName
  | .error .notFound =>
    .ok ⟨none, if name = usualName then []
      else [.rulesNotFound name, .workingDirectory files.workingDirectory]⟩
  | .error error =>
    .ok ⟨none, [.rulesUnreadable name, .workingDirectory files.workingDirectory,
      .systemError error name]⟩

/-- The table of a rules file. The problems with the file are told before those with its lines. -/
def load (files : Files) (name : Option Text) (notations : Notations) : Except Failure Loaded := do
  let name := name.getD usualName
  let rules ← read files name
  let loaded ← PlainForm.load notations name rules.value
  let told : List Diagnostic := rules.problems.map fun p => { problem := p }
  return { loaded with diagnostics := told ++ loaded.diagnostics }

end PlainForm.RulesFile

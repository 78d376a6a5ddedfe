import PlainForm.Command

/-!
# The program

Reads what a run may need, carries the run out, and hands over what it leaves behind.
-/

namespace PlainForm.Program

open Command

/-! ## Files -/

def systemError : IO.Error → SystemError
  | .noFileOrDirectory .. => .notFound
  | .permissionDenied .. => .denied
  | .inappropriateType _ code _ => if code = 21 then .isADirectory else .notADirectory
  | .invalidArgument _ code _ => if code = 22 then .impossibleName else .nameTooLong
  | _ => .inputOutput

def fileName (name : Text) : String := name.toString?.getD ""

def toByteArray (bytes : Bytes) : ByteArray := ⟨bytes.toArray⟩

def readFile (name : Text) : IO (Except SystemError Bytes) := do
  try return .ok (← IO.FS.readBinFile (fileName name)).toList
  catch error => return .error (systemError error)

partial def readToEnd (stream : IO.FS.Stream) (before : ByteArray) : IO ByteArray := do
  let bytes ← stream.read 65536
  if bytes.isEmpty then return before else readToEnd stream (before ++ bytes)

/-- The files that a run reads. That its output can be written is taken for granted. -/
def filesFor (settings : Settings) : IO Files := do
  let rules := settings.rules.name?.toOption.join.getD RulesFile.usualName
  let names := rules :: settings.inputs.filter (· ≠ dash)
  let contents ← names.mapM fun name => return (name, ← readFile name)
  return {
    workingDirectory := (← IO.currentDir).toString
    read := fun name => (contents.lookup name).getD (.error .notFound)
    accepts := fun _ => .ok () }

def standardInputFor (settings : Settings) : IO Bytes := do
  if settings.inputsOrDash.any (· = dash) then
    return (← readToEnd (← IO.getStdin) .empty).toList
  else return []

/-! ## Runs -/

def print (stream : IO.FS.Stream) (text : Text) : IO Unit := do
  stream.write (toByteArray (Utf8.encode text))
  stream.flush

def handOver : Except Failure Outcome → IO UInt32
  | .error failure => do
    print (← IO.getStderr) (Text.ofLines [failure.message])
    return 1
  | .ok outcome => do
    print (← IO.getStderr) outcome.errors
    print (← IO.getStdout) outcome.output
    return outcome.exitCode.toUInt32

/-- Carries out a run. If its file cannot be written, it becomes the run that expects so. -/
def carryOut (settings : Settings) : IO UInt32 := do
  let files ← filesFor settings
  let stdin ← standardInputFor settings
  let result := settings.run files stdin
  match result with
  | .ok { written := some (name, bytes), .. } =>
    try IO.FS.writeBinFile (fileName name) (toByteArray bytes)
    catch error =>
      let files := { files with accepts := fun _ => .error (systemError error) }
      return ← handOver (settings.run files stdin)
    handOver result
  | _ => handOver result

end PlainForm.Program

def main (arguments : List String) : IO UInt32 :=
  match PlainForm.Command.Settings.ofArguments (arguments.map PlainForm.Text.ofString) with
  | .error stop => PlainForm.Program.handOver (.ok (.ofStop stop))
  | .ok settings => PlainForm.Program.carryOut settings

import PlainForm.Proofs.Command.GivingUp

/-!
# Failed runs

A run fails if its command line is refused, if an input file cannot be read, or if its output file
cannot be written. Whatever it has read, converted and noted until then, it leaves all files as they
were, and nothing is printed but the log of a verbose run.
-/

namespace PlainForm.Command

/-- Why a run fails, and its exit code. The output file is tried only when all input files have been
read. -/
inductive Fails (files : Files) (arguments : List Text) : Nat → Prop where
  | refused {refusal} (stop : Settings.ofArguments arguments = .error (.refused refusal)) :
      Fails files arguments 2
  | input {settings trouble} (understood : Settings.ofArguments arguments = .ok settings)
      (stops : StopsIn files settings.inputsOrDash trouble) :
      Fails files arguments trouble.exitCode
  | output {settings name error} (understood : Settings.ofArguments arguments = .ok settings)
      (readable : ∀ input ∈ settings.inputsOrDash, IsReadable files input)
      (named : settings.output = .named name) (refused : files.accepts name = .error error) :
      Fails files arguments 1

variable {files : Files} {stdin bytes : Bytes} {output : FileChoice} {batch : Batch}
  {log notes arguments : List Text} {outcome : Outcome} {name : Text} {code : Nat}

/-! ## Ends -/

namespace Ends

theorem exitCode_eq (h : Ends files output batch log notes outcome) (hcode : code ≠ 0) :
    outcome.exitCode = code ↔
      (∃ trouble, batch.trouble = some trouble ∧ trouble.exitCode = code) ∨
      batch.trouble = none ∧ (∃ name error, output = .named name ∧
        files.accepts name = .error error) ∧ code = 1 := by
  cases h with
  | stopped stopped => simp [stopped, Outcome.ofTrouble]
  | printed through unnamed => simp [through, unnamed, hcode.symm]
  | unwritable through named _ refused =>
    simp [through, named, refused, Outcome.ofTrouble, Trouble.exitCode, eq_comm]
  | written through named accepted => simp [through, named, accepted, hcode.symm]

theorem of_failed (h : Ends files output batch log notes outcome) (hfailed : outcome.exitCode ≠ 0) :
    outcome.written = none ∧ outcome.output = Text.ofLines log := by
  cases h with
  | stopped | unwritable => exact ⟨rfl, rfl⟩
  | printed | written => exact absurd rfl hfailed

theorem of_written (h : Ends files output batch log notes outcome)
    (hwritten : outcome.written = some (name, bytes)) :
    outcome.exitCode = 0 ∧ output = .named name ∧ files.accepts name = .ok () ∧
      bytes = Utf8.encode batch.texts.flatten := by
  cases h with
  | stopped | printed | unwritable => cases hwritten
  | written through named accepted =>
    cases hwritten
    exact ⟨rfl, named, accepted, rfl⟩

end Ends

/-! ## Runs -/

theorem Settings.exitCode_run {settings : Settings} (h : settings.run files stdin = .ok outcome)
    (hcode : code ≠ 0) :
    outcome.exitCode = code ↔
      (∃ trouble, StopsIn files settings.inputsOrDash trouble ∧ trouble.exitCode = code) ∨
      (∀ input ∈ settings.inputsOrDash, IsReadable files input) ∧ (∃ name error,
        settings.output = .named name ∧ files.accepts name = .error error) ∧ code = 1 := by
  obtain ⟨-, loaded, batch, -, -, hbatch, hends⟩ := Settings.run_eq_ok.1 h
  rw [hends.exitCode_eq hcode, trouble_eq_none hbatch]
  simp only [trouble_eq_some hbatch]

theorem exitCode_run (h : run files stdin arguments = .ok outcome) (hcode : code ≠ 0) :
    outcome.exitCode = code ↔ Fails files arguments code := by
  rcases run_eq_ok.1 h with ⟨stop, hstop, rfl⟩ | ⟨settings, hsettings, h⟩
  · constructor
    · intro hexit
      cases stop with
      | help | version => exact absurd hexit.symm hcode
      | refused refusal =>
        cases hexit
        exact .refused hstop
    · rintro (hrefused | understood | understood)
      · obtain rfl := Except.error.inj (hstop.symm.trans hrefused)
        rfl
      · simp [hstop] at understood
      · simp [hstop] at understood
  · rw [Settings.exitCode_run h hcode]
    constructor
    · rintro (⟨trouble, hstops, rfl⟩ | ⟨hreadable, ⟨name, error, hnamed, hrefused⟩, rfl⟩)
      · exact .input hsettings hstops
      · exact .output hsettings hreadable hnamed hrefused
    · rintro (hrefused | ⟨understood, stops⟩ | ⟨understood, readable, named, refused⟩)
      · simp [hsettings] at hrefused
      · obtain rfl := Except.ok.inj (hsettings.symm.trans understood)
        exact .inl ⟨_, stops, rfl⟩
      · obtain rfl := Except.ok.inj (hsettings.symm.trans understood)
        exact .inr ⟨readable, ⟨_, _, named, refused⟩, rfl⟩

theorem run_failed (h : run files stdin arguments = .ok outcome) (hfailed : outcome.exitCode ≠ 0) :
    outcome.written = none ∧ (outcome.output ≠ [] →
      ∃ settings, Settings.ofArguments arguments = .ok settings ∧ settings.verbose) := by
  rcases run_eq_ok.1 h with ⟨stop, -, rfl⟩ | ⟨settings, hsettings, h⟩
  · cases stop with
    | help | version => exact absurd rfl hfailed
    | refused refusal => exact ⟨rfl, fun houtput => absurd rfl houtput⟩
  · obtain ⟨-, loaded, batch, -, -, -, hends⟩ := Settings.run_eq_ok.1 h
    obtain ⟨hwritten, houtput⟩ := hends.of_failed hfailed
    refine ⟨hwritten, fun hprinted => ⟨settings, hsettings, ?_⟩⟩
    by_contra hquiet
    rw [houtput, if_neg hquiet] at hprinted
    exact hprinted rfl

/-- A run that writes a file has succeeded. The file can be written, and so can the text: nothing in
it is a surrogate. -/
theorem run_written (h : run files stdin arguments = .ok outcome)
    (hwritten : outcome.written = some (name, bytes)) :
    outcome.exitCode = 0 ∧ files.accepts name = .ok () ∧
      ∃ settings t, Settings.ofArguments arguments = .ok settings ∧
        settings.output = .named name ∧ t.IsScalar ∧ bytes = Utf8.encode t := by
  rcases run_eq_ok.1 h with ⟨stop, -, rfl⟩ | ⟨settings, hsettings, h⟩
  · cases stop <;> cases hwritten
  · obtain ⟨-, loaded, batch, -, -, hbatch, hends⟩ := Settings.run_eq_ok.1 h
    obtain ⟨hexit, hnamed, haccepted, hbytes⟩ := hends.of_written hwritten
    refine ⟨hexit, haccepted, settings, batch.texts.flatten, hsettings, hnamed, ?_, hbytes⟩
    intro c hc
    obtain ⟨t, ht, hc⟩ := List.mem_flatten.1 hc
    exact isScalar_texts hbatch t ht c hc

/-- A run comes to an outcome, unless it gives up on a name or on a numeral. It fails for one of the
reasons, with its exit code, and never for another; it then leaves the tree as it was, and prints
nothing unless it is verbose. The one file that a run may write is the one it was asked to write, in
a run that succeeds. -/
theorem failed_run_changes_nothing (tree : FileTree) (workingDirectory : Text) (stdin : Bytes)
    (arguments : List Text) :
    (∀ f, run (tree.view workingDirectory) stdin arguments = .error f →
      ∃ settings, Settings.ofArguments arguments = .ok settings ∧
        GivesUp (tree.view workingDirectory) stdin settings f) ∧
    ∀ outcome, run (tree.view workingDirectory) stdin arguments = .ok outcome →
      (∀ code, code ≠ 0 →
        (outcome.exitCode = code ↔ Fails (tree.view workingDirectory) arguments code)) ∧
      (outcome.exitCode ≠ 0 → outcome.applyTo tree = tree ∧ (outcome.output ≠ [] →
        ∃ settings, Settings.ofArguments arguments = .ok settings ∧ settings.verbose)) ∧
      ∀ name bytes, outcome.written = some (name, bytes) → outcome.exitCode = 0 ∧
        ∃ settings t path, Settings.ofArguments arguments = .ok settings ∧
          settings.output = .named name ∧ t.IsScalar ∧ bytes = Utf8.encode t ∧
          tree.target name = .ok path ∧ outcome.applyTo tree = tree.put path bytes := by
  refine ⟨fun f => run_eq_error, ?_⟩
  intro outcome h
  refine ⟨fun code hcode => exitCode_run h hcode, ?_, ?_⟩
  · intro hfailed
    obtain ⟨hwritten, houtput⟩ := run_failed h hfailed
    exact ⟨Outcome.applyTo_of_none hwritten, houtput⟩
  · intro name bytes hwritten
    obtain ⟨hexit, haccepts, settings, t, hsettings, hnamed, hscalar, hbytes⟩ :=
      run_written h hwritten
    obtain ⟨path, htarget⟩ := FileTree.accepts_view.1 haccepts
    exact ⟨hexit, settings, t, path, hsettings, hnamed, hscalar, hbytes, htarget,
      Outcome.applyTo_of_some hwritten htarget⟩

/-- An ill-formed file that is also the output, then standard input, then a file that is not there:
the first two are converted in vain. -/
theorem failed_run_changes_nothing_third_input :
    let tree : FileTree := { directories := [["d"]], files := [(["a.txt"], [0x61, 0xE2])] }
    let arguments : List Text := ["-oa.txt", "a.txt", "-", "d/b.txt"]
    let outcome : Outcome := {
      exitCode := 2
      errors := Text.ofLines [
        "note: Malformed UTF-8 in `a.txt` at byte 1 (malformed bytes replaced by U+FFFD)",
        "Text has two characters with zero changes.", "Text has one character with zero changes.",
        "error: argument `d/b.txt`: file not found"] }
    run (tree.view "/") [0x62] arguments = .ok outcome ∧
      Fails (tree.view "/") arguments 2 ∧ outcome.applyTo tree = tree := by
  intro tree arguments outcome
  have hrun : run (tree.view "/") [0x62] arguments = .ok outcome := by decide +kernel
  obtain ⟨hexit, hfailed, -⟩ :=
    (failed_run_changes_nothing tree "/" [0x62] arguments).2 outcome hrun
  exact ⟨hrun, (hexit 2 (by decide)).1 rfl, (hfailed (by decide)).1⟩

end PlainForm.Command

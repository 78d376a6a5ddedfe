import PlainForm.Command
import PlainForm.Proofs.Conversion
import PlainForm.Proofs.FileTree
import PlainForm.Proofs.WellFormed

/-!
# How a run ends

A batch stops at the first input file that cannot be read. A run that has come through its batch
prints the converted texts, writes them to a file, or finds that it cannot. What a batch does with
one input file, and each way for a run to end, is said once here, with all that it takes.
-/

namespace PlainForm

theorem RulesFile.load_eq_ok {files : Files} {name : Option Text} {notations : Notations}
    {loaded : Loaded} (h : RulesFile.load files name notations = .ok loaded) :
    ∃ file rules fromText, PlainForm.load notations file rules = .ok fromText ∧
      loaded.table = fromText.table := by
  obtain ⟨rules, -, h⟩ := Failure.bind_eq_ok.1 h
  obtain ⟨fromText, hload, h⟩ := Failure.bind_eq_ok.1 h
  cases h
  exact ⟨_, _, fromText, hload, rfl⟩

namespace Command

/-! ## Input files -/

/-- Standard input can be read, and a file if it is there. -/
def IsReadable (files : Files) (name : Text) : Prop :=
  name = dash ∨ ∃ bytes, files.read name = .ok bytes

/-- An input file cannot be read. -/
inductive Stops (files : Files) : Text → Trouble → Prop where
  | absent {name} (noDash : name ≠ dash) (missing : files.read name = .error .notFound) :
      Stops files name (.inputNotFound name)
  | unreadable {name error} (noDash : name ≠ dash) (found : error ≠ .notFound)
      (possible : error ≠ .impossibleName) (refused : files.read name = .error error) :
      Stops files name (.inputUnreadable name)

/-- An input file cannot be read, and those before it can. -/
inductive StopsIn (files : Files) : List Text → Trouble → Prop where
  | here {name names trouble} (stops : Stops files name trouble) :
      StopsIn files (name :: names) trouble
  | later {name names trouble} (readable : IsReadable files name)
      (stops : StopsIn files names trouble) : StopsIn files (name :: names) trouble

variable {table : Table} {notations : Notations} {files : Files} {stdin bytes : Bytes}
  {name : Text} {names : List Text} {batch : Batch} {trouble : Trouble} {read : Noted Text}

theorem Stops.not_isReadable (h : Stops files name trouble) : ¬ IsReadable files name := by
  rintro (hdash | ⟨bytes, hbytes⟩)
  · cases h <;> contradiction
  · cases h with
    | absent _ missing => simp [missing] at hbytes
    | unreadable _ _ _ refused => simp [refused] at hbytes

theorem Stops.unique {other : Trouble} (h : Stops files name trouble)
    (h' : Stops files name other) : trouble = other := by
  cases h <;> cases h' <;> simp_all

theorem readInput_file (noDash : name ≠ dash) (h : files.read name = .ok bytes) :
    readInput files stdin name = .ok (.ok (File.text name bytes)) := by
  rw [readInput, if_neg noDash, h]

theorem isReadable_of_readInput (h : readInput files stdin name = .ok (.ok read)) :
    IsReadable files name := by
  by_cases hdash : name = dash
  · exact .inl hdash
  · rw [readInput, if_neg hdash] at h
    cases hread : files.read name with
    | ok bytes => exact .inr ⟨bytes, hread⟩
    | error error =>
      rw [hread] at h
      cases error <;> cases h

theorem stops_of_readInput (h : readInput files stdin name = .ok (.error trouble)) :
    Stops files name trouble := by
  by_cases hdash : name = dash
  · rw [readInput, if_pos hdash] at h
    cases h
  · rw [readInput, if_neg hdash] at h
    cases hread : files.read name with
    | ok bytes =>
      rw [hread] at h
      cases h
    | error error =>
      rw [hread] at h
      cases error with
      | notFound =>
        cases h
        exact .absent hdash hread
      | impossibleName => cases h
      | _ =>
        cases h
        exact .unreadable hdash (by simp) (by simp) hread

/-! ## Batches -/

/-- An input file ends the batch, or its text is converted and the batch goes on with what is left
of standard input. -/
theorem convertInputs_cons :
    convertInputs table notations files stdin (name :: names) = .ok batch ↔
      (∃ trouble, readInput files stdin name = .ok (.error trouble) ∧
        batch = { trouble := some trouble }) ∨
      ∃ read conversion later, readInput files stdin name = .ok (.ok read) ∧
        table.convert notations read.value = .ok conversion ∧
        convertInputs table notations files (restOfInput stdin name) names = .ok later ∧
        batch = (Batch.ofConversion read conversion).append later := by
  rw [convertInputs, Failure.bind_eq_ok]
  constructor
  · rintro ⟨trouble | read, hread, h⟩
    · cases h
      exact .inl ⟨trouble, hread, rfl⟩
    · obtain ⟨conversion, hconvert, h⟩ := Failure.bind_eq_ok.1 h
      obtain ⟨later, hlater, h⟩ := Failure.bind_eq_ok.1 h
      cases h
      exact .inr ⟨read, conversion, later, hread, hconvert, hlater, rfl⟩
  · rintro (⟨trouble, hread, rfl⟩ | ⟨read, conversion, later, hread, hconvert, hlater, rfl⟩)
    · exact ⟨.error trouble, hread, rfl⟩
    · refine ⟨.ok read, hread, ?_⟩
      simp only [hconvert, hlater, Failure.ok_bind, Failure.pure_eq]

theorem trouble_eq_some (h : convertInputs table notations files stdin names = .ok batch) :
    batch.trouble = some trouble ↔ StopsIn files names trouble := by
  induction names generalizing stdin batch with
  | nil =>
    cases h
    constructor
    · rintro ⟨⟩
    · rintro ⟨⟩
  | cons name names ih =>
    rcases convertInputs_cons.1 h with
      ⟨other, hread, rfl⟩ | ⟨read, conversion, later, hread, -, hlater, rfl⟩
    · have hstops := stops_of_readInput hread
      constructor
      · rintro ⟨⟩
        exact .here hstops
      · rintro (hother | ⟨hreadable, -⟩)
        · rw [hstops.unique hother]
        · exact absurd hreadable hstops.not_isReadable
    · have hreadable := isReadable_of_readInput hread
      refine (ih hlater).trans ⟨.later hreadable, ?_⟩
      rintro (hstops | ⟨-, hstops⟩)
      · exact absurd hreadable hstops.not_isReadable
      · exact hstops

theorem StopsIn.exists_not_isReadable (h : StopsIn files names trouble) :
    ∃ name ∈ names, ¬ IsReadable files name := by
  induction h with
  | here stops => exact ⟨_, List.mem_cons_self, stops.not_isReadable⟩
  | later _ _ ih =>
    obtain ⟨name, hmem, hname⟩ := ih
    exact ⟨name, List.mem_cons_of_mem _ hmem, hname⟩

theorem trouble_eq_none (h : convertInputs table notations files stdin names = .ok batch) :
    batch.trouble = none ↔ ∀ name ∈ names, IsReadable files name := by
  constructor
  · intro hthrough
    induction names generalizing stdin batch with
    | nil => simp
    | cons name names ih =>
      rcases convertInputs_cons.1 h with
        ⟨other, -, rfl⟩ | ⟨read, conversion, later, hread, -, hlater, rfl⟩
      · cases hthrough
      · exact List.forall_mem_cons.2 ⟨isReadable_of_readInput hread, ih hlater hthrough⟩
  · intro hreadable
    cases htrouble : batch.trouble with
    | none => rfl
    | some trouble =>
      obtain ⟨name, hmem, hname⟩ := ((trouble_eq_some h).1 htrouble).exists_not_isReadable
      exact absurd (hreadable name hmem) hname

theorem isScalar_texts (h : convertInputs table notations files stdin names = .ok batch) :
    ∀ t ∈ batch.texts, t.IsScalar := by
  induction names generalizing stdin batch with
  | nil =>
    cases h
    simp
  | cons name names ih =>
    rcases convertInputs_cons.1 h with
      ⟨other, -, rfl⟩ | ⟨read, conversion, later, -, hconvert, hlater, rfl⟩
    · simp
    · obtain ⟨decoded, s, -, -, rfl⟩ := Table.convert_eq_ok.1 hconvert
      exact List.forall_mem_cons.2 ⟨Text.isScalar_encode s.numbers, ih hlater⟩

/-! ## Ends -/

/-- How a run ends with a batch, given the lines it prints for the user. -/
inductive Ends (files : Files) (output : FileChoice) (batch : Batch) (log notes : List Text) :
    Outcome → Prop where
  | stopped {trouble : Trouble} (stopped : batch.trouble = some trouble) :
      Ends files output batch log notes (.ofTrouble log notes trouble)
  | printed (through : batch.trouble = none) (unnamed : output = .usual) :
      Ends files output batch log notes {
        output := Text.ofLines log ++ batch.texts.flatten
        errors := Text.ofLines notes }
  | unwritable {name : Text} {error : SystemError} (through : batch.trouble = none)
      (named : output = .named name) (possible : error ≠ .impossibleName)
      (refused : files.accepts name = .error error) :
      Ends files output batch log notes (.ofTrouble log notes (.outputUnwritable name))
  | written {name : Text} (through : batch.trouble = none) (named : output = .named name)
      (accepted : files.accepts name = .ok ()) :
      Ends files output batch log notes {
        output := Text.ofLines log
        errors := Text.ofLines notes
        written := some (name, Utf8.encode batch.texts.flatten) }

variable {output : FileChoice} {log notes arguments : List Text} {outcome : Outcome}

theorem ends_of_ofText {name : Option Text} (through : batch.trouble = none)
    (hname : output.name? = .ok name)
    (h : Outcome.ofText files name log notes batch.texts.flatten = .ok outcome) :
    Ends files output batch log notes outcome := by
  cases output with
  | nameless => cases hname
  | usual =>
    cases hname
    cases h
    exact .printed through rfl
  | named name =>
    cases hname
    unfold Outcome.ofText at h
    dsimp only at h
    cases haccepts : files.accepts name with
    | ok =>
      rw [haccepts] at h
      cases h
      exact .written through rfl haccepts
    | error error =>
      rw [haccepts] at h
      cases error with
      | impossibleName => cases h
      | _ =>
        cases h
        exact .unwritable through rfl (by simp) haccepts

theorem Settings.run_eq_ok {settings : Settings} :
    settings.run files stdin = .ok outcome ↔
      ∃ name loaded batch, settings.rules.name? = .ok name ∧
        RulesFile.load files name settings.rulesNotations = .ok loaded ∧
        convertInputs loaded.table settings.inputNotations files stdin settings.inputsOrDash =
          .ok batch ∧
        Ends files settings.output batch (if settings.verbose then loaded.log ++ batch.log else [])
          (loaded.diagnostics.map note ++ batch.notes) outcome := by
  constructor
  · intro h
    obtain ⟨name, hname, h⟩ := Failure.bind_eq_ok.1 h
    obtain ⟨loaded, hload, h⟩ := Failure.bind_eq_ok.1 h
    obtain ⟨batch, hbatch, h⟩ := Failure.bind_eq_ok.1 h
    refine ⟨name, loaded, batch, hname, hload, hbatch, ?_⟩
    cases htrouble : batch.trouble with
    | some trouble =>
      rw [htrouble] at h
      cases h
      exact .stopped htrouble
    | none =>
      rw [htrouble] at h
      obtain ⟨output, houtput, h⟩ := Failure.bind_eq_ok.1 h
      exact ends_of_ofText htrouble houtput h
  · rintro ⟨name, loaded, batch, hname, hload, hbatch, hends⟩
    simp only [run, hname, hload, hbatch, Failure.ok_bind]
    cases hends with
    | stopped stopped =>
      rw [stopped]
      rfl
    | printed through unnamed =>
      rw [through, unnamed]
      rfl
    | unwritable through named possible refused =>
      rw [through, named]
      simp only [FileChoice.name?, Failure.ok_bind, Outcome.ofText, refused]
    | written through named accepted =>
      rw [through, named]
      simp only [FileChoice.name?, Failure.ok_bind, Outcome.ofText, accepted]

theorem run_eq_ok : run files stdin arguments = .ok outcome ↔
    (∃ stop, Settings.ofArguments arguments = .error stop ∧ outcome = .ofStop stop) ∨
      ∃ settings, Settings.ofArguments arguments = .ok settings ∧
        settings.run files stdin = .ok outcome := by
  unfold run
  cases Settings.ofArguments arguments with
  | error stop => simp [eq_comm]
  | ok settings => simp

/-! ## Trees -/

variable {tree : FileTree} {path : Path}

theorem Outcome.applyTo_of_none (h : outcome.written = none) : outcome.applyTo tree = tree := by
  rw [applyTo, h]

theorem Outcome.applyTo_of_some (h : outcome.written = some (name, bytes))
    (htarget : tree.target name = .ok path) : outcome.applyTo tree = tree.put path bytes := by
  rw [applyTo, h]
  simp only [FileTree.write_eq htarget, Except.toOption, Option.getD_some]

end Command

end PlainForm

import PlainForm.Proofs.Command.Ending
import PlainForm.Proofs.GivingUp

/-!
# What makes a run give up

A run comes to an outcome, be it a failed one, unless a file is to be used that has no name or none
that a file can have, or unless too many decimal digits stand in a row in what the run reads.
-/

namespace PlainForm

inductive Command.GivesUp (files : Files) (stdin : Bytes) (settings : Settings) :
    Failure → Prop where
  | nameless (choice : settings.rules = .nameless ∨ settings.output = .nameless) :
      GivesUp files stdin settings .namelessFile
  | impossible {name} (refused : files.read name = .error .impossibleName ∨
      files.accepts name = .error .impossibleName) : GivesUp files stdin settings .impossibleName
  | numeral {name bytes} (held : bytes = stdin ∨ files.read name = .ok bytes)
      (long : ¬ (File.text name bytes).value.HasShortRuns) :
      GivesUp files stdin settings .longNumeral

open Command

variable {files : Files} {stdin bytes : Bytes} {settings : Settings} {notations : Notations}
  {table : Table} {name text : Text} {names arguments : List Text} {f : Failure}

/-! ## Rules files -/

namespace RulesFile

theorem read_eq_error (h : RulesFile.read files name = .error f) :
    f = .impossibleName ∧ files.read name = .error .impossibleName := by
  unfold RulesFile.read at h
  split at h
  · cases h
  · next hread =>
    cases h
    exact ⟨rfl, hread⟩
  · cases h
  · cases h

theorem read_eq_ok {rules : Noted (Option Text)} (h : RulesFile.read files name = .ok rules)
    (htext : text ∈ rules.value) :
    ∃ bytes, files.read name = .ok bytes ∧ text = (File.text name bytes).value := by
  unfold RulesFile.read at h
  split at h
  · next bytes hread =>
    cases h
    cases htext
    exact ⟨bytes, hread, rfl⟩
  · cases h
  · cases h
    cases htext
  · cases h
    cases htext

theorem load_eq_error {choice : Option Text}
    (h : RulesFile.load files choice notations = .error f) : GivesUp files stdin settings f := by
  rcases Failure.bind_eq_error.1 h with h | ⟨rules, hread, h⟩
  · obtain ⟨rfl, hread⟩ := read_eq_error h
    exact .impossible (.inl hread)
  · rcases Failure.bind_eq_error.1 h with h | ⟨fromText, -, h⟩
    · obtain ⟨rfl, text, htext, hlong⟩ := PlainForm.load_eq_error h
      obtain ⟨bytes, hbytes, rfl⟩ := read_eq_ok hread htext
      exact .numeral (.inr hbytes) hlong
    · cases h

end RulesFile

namespace Command

/-! ## Batches -/

theorem readInput_eq_error (h : readInput files stdin name = .error f) :
    f = .impossibleName ∧ files.read name = .error .impossibleName := by
  unfold readInput at h
  split at h
  · cases h
  · split at h
    · cases h
    · next hread =>
      cases h
      exact ⟨rfl, hread⟩
    · cases h
    · cases h

theorem exists_bytes_of_readInput {read : Noted Text}
    (h : readInput files stdin name = .ok (.ok read)) :
    ∃ held bytes, (bytes = stdin ∨ files.read held = .ok bytes) ∧ read = File.text held bytes := by
  unfold readInput at h
  split at h
  · cases h
    exact ⟨standardInputName, stdin, .inl rfl, rfl⟩
  · split at h
    · next bytes hread =>
      cases h
      exact ⟨name, bytes, .inr hread, rfl⟩
    · cases h
    · cases h
    · cases h

theorem GivesUp.of_rest (h : GivesUp files (restOfInput stdin name) settings f) :
    GivesUp files stdin settings f := by
  cases h with
  | nameless choice => exact .nameless choice
  | impossible refused => exact .impossible refused
  | numeral held long =>
    rcases held with rfl | hread
    · by_cases hdash : name = dash
      · have hempty : ∀ held, (File.text held []).value = [] := by
          simp [File.text, Utf8.pieces, Utf8.text]
        rw [restOfInput, if_pos hdash, hempty] at long
        exact absurd (Text.hasShortRuns_of_length (Nat.zero_le _)) long
      · rw [restOfInput, if_neg hdash] at long
        exact .numeral (.inl rfl) long
    · exact .numeral (.inr hread) long

theorem convertInputs_eq_error
    (hconverts : ∀ t f, table.convert notations t = .error f → t.decode notations = .error f)
    (h : convertInputs table notations files stdin names = .error f) :
    GivesUp files stdin settings f := by
  induction names generalizing stdin with
  | nil => cases h
  | cons name names ih =>
    rw [convertInputs, Failure.bind_eq_error] at h
    rcases h with h | ⟨trouble | read, hread, h⟩
    · obtain ⟨rfl, hread⟩ := readInput_eq_error h
      exact .impossible (.inl hread)
    · cases h
    · rcases Failure.bind_eq_error.1 h with h | ⟨conversion, -, h⟩
      · obtain ⟨held, bytes, hheld, rfl⟩ := exists_bytes_of_readInput hread
        obtain ⟨rfl, hlong⟩ := Text.decode_eq_error (hconverts _ _ h)
        exact .numeral hheld hlong
      · rcases Failure.bind_eq_error.1 h with h | ⟨later, -, h⟩
        · exact (ih h).of_rest
        · cases h

/-! ## Runs -/

theorem FileChoice.name?_eq_error {choice : FileChoice} (h : choice.name? = .error f) :
    f = .namelessFile ∧ choice = .nameless := by
  cases choice <;> cases h
  exact ⟨rfl, rfl⟩

theorem ofText_eq_error {output : Option Text} {log notes : List Text}
    (h : Outcome.ofText files output log notes text = .error f) :
    GivesUp files stdin settings f := by
  unfold Outcome.ofText at h
  split at h
  · cases h
  · split at h
    · cases h
    · next hrefused =>
      cases h
      exact .impossible (.inr hrefused)
    · cases h

theorem Settings.run_eq_error (h : settings.run files stdin = .error f) :
    GivesUp files stdin settings f := by
  rcases Failure.bind_eq_error.1 h with h | ⟨rules, -, h⟩
  · obtain ⟨rfl, hrules⟩ := FileChoice.name?_eq_error h
    exact .nameless (.inl hrules)
  rcases Failure.bind_eq_error.1 h with h | ⟨loaded, hload, h⟩
  · exact RulesFile.load_eq_error h
  obtain ⟨file, text, fromText, hfromText, htable⟩ := RulesFile.load_eq_ok hload
  rcases Failure.bind_eq_error.1 h with h | ⟨batch, -, h⟩
  · refine convertInputs_eq_error ?_ h
    rw [htable]
    exact fun t f => Loaded.convert_eq_error hfromText
  cases htrouble : batch.trouble with
  | some trouble =>
    rw [htrouble] at h
    cases h
  | none =>
    rw [htrouble] at h
    rcases Failure.bind_eq_error.1 h with h | ⟨output, -, h⟩
    · obtain ⟨rfl, houtput⟩ := FileChoice.name?_eq_error h
      exact .nameless (.inr houtput)
    · exact ofText_eq_error h

theorem run_eq_error (h : run files stdin arguments = .error f) :
    ∃ settings, Settings.ofArguments arguments = .ok settings ∧
      GivesUp files stdin settings f := by
  cases hsettings : Settings.ofArguments arguments with
  | error stop =>
    rw [run, hsettings] at h
    cases h
  | ok settings =>
    rw [run, hsettings] at h
    exact ⟨settings, rfl, Settings.run_eq_error h⟩

end Command

end PlainForm

import Mathlib.Data.List.TakeWhile
import PlainForm.Command

/-!
# Options

What a run that prints its outcome can be asked for. Whatever the files are called, there is a
command line that asks for it.
-/

namespace PlainForm.Command

/-- One bit of a number from zero to three is for the rules, and one for the input. -/
def Level.ofBits (n : Nat) : Level := ⟨n.testBit 0, n.testBit 1⟩

/-- A rules file, if it is not the usual one, and the levels of both notations. -/
structure Options where
  rules : Option Text := none
  backslash : Fin 4 := 0
  xml : Fin 4 := 0

namespace Options

def settings (o : Options) (inputs : List Text) : Settings where
  rules := o.rules.elim .usual .named
  backslash := .ofBits o.backslash
  xml := .ofBits o.xml
  inputs := inputs

def rulesNotations (o : Options) : Notations := ⟨o.backslash.val.testBit 0, o.xml.val.testBit 0⟩

def inputNotations (o : Options) : Notations := ⟨o.backslash.val.testBit 1, o.xml.val.testBit 1⟩

/-- The command line asks for the options and the input files, and for nothing else. -/
def AskedBy (o : Options) (inputs arguments : List Text) : Prop :=
  Settings.ofArguments arguments = .ok (o.settings inputs)

def written (switch : Switch) (value : Text) : Text := switch.long ++ ('=' : CodePoint) :: value

/-- A command line with the input files behind two dashes. -/
def line (o : Options) (inputs : List Text) : List Text :=
  o.rules.toList.map (written .rules) ++
    written .backslash (CharNumber.decimal o.backslash) ::
    written .xml (CharNumber.decimal o.xml) :: "--" :: inputs

end Options

/-! ## Words -/

variable {text front rest value : Text} {switch : Switch}

theorem Word.splitEquals_append (h : ('=' : CodePoint) ∉ front) :
    splitEquals (front ++ ('=' : CodePoint) :: rest) = (front, some rest) := by
  have htake : (front ++ ('=' : CodePoint) :: rest).takeWhile (fun c : CodePoint => c != '=') =
      front := by
    rw [List.takeWhile_append_of_pos, List.takeWhile_cons_of_neg]
    · exact List.append_nil front
    · simp
    · intro c hc
      simpa using fun heq : c = '=' => h (heq ▸ hc)
  unfold splitEquals
  rw [htake]
  simp

theorem Switch.equals_not_mem (switch : Switch) :
    ('=' : CodePoint) ∉ switch.short ∧ ('=' : CodePoint) ∉ switch.long := by
  cases switch <;> decide

theorem Switch.ofWord?_long (switch : Switch) : ofWord? switch.long = some switch := by
  cases switch <;> decide

theorem Switch.ofWord?_eq_none (h : ('=' : CodePoint) ∈ text) : ofWord? text = none := by
  rw [ofWord?, List.find?_eq_none]
  intro switch _ hname
  obtain ⟨hshort, hlong⟩ := switch.equals_not_mem
  rcases Bool.or_eq_true_iff.1 hname with hname | hname
  · exact hshort (of_decide_eq_true hname ▸ h)
  · exact hlong (of_decide_eq_true hname ▸ h)

theorem Word.ofText_written (switch : Switch) (value : Text) :
    ofText (Options.written switch value) = .ok (.use ⟨switch, true, some value⟩) := by
  obtain ⟨name, hname⟩ : ∃ name : Text,
      switch.long = ('-' : CodePoint) :: ('-' : CodePoint) :: name := by
    cases switch <;> exact ⟨_, rfl⟩
  have hnone : Switch.ofWord? (Options.written switch value) = none :=
    Switch.ofWord?_eq_none (by simp [Options.written])
  have hsplit : splitEquals (Options.written switch value) = (switch.long, some value) :=
    splitEquals_append switch.equals_not_mem.2
  have hlong := switch.ofWord?_long
  unfold Options.written at hnone hsplit ⊢
  rw [hname] at hnone hsplit hlong ⊢
  simp only [List.cons_append] at hnone hsplit ⊢
  simp [ofText, ofDashed, hnone, hsplit, hlong]

theorem Options.written_ne (switch : Switch) (value : Text) : written switch value ≠ "--" := by
  intro h
  have hmem : ('=' : CodePoint) ∈ written switch value := by simp [written]
  rw [h] at hmem
  exact absurd hmem (by decide)

theorem words_written {others : List Text} {later : List Word} (h : words others = .ok later)
    (switch : Switch) (value : Text) : words (Options.written switch value :: others) =
      .ok (.use ⟨switch, true, some value⟩ :: later) := by
  rw [words, if_neg (Options.written_ne _ _), Word.ofText_written, h]
  rfl

/-! ## Settings -/

namespace Reader

variable {r : Reader} {words : List Word}

theorem readWords_separator (h : r.hasInputs = false) (inputs : List Text) :
    r.readWords (.separator :: inputs.map .operand) =
      .ok { r with settings.inputs := inputs, hasInputs := true } := by
  have hall : ∀ word ∈ inputs.map Word.operand, word.isOperand := by
    intro word hword
    obtain ⟨text, -, rfl⟩ := List.mem_map.1 hword
    rfl
  have hinputs : (Word.separator :: inputs.map Word.operand).filterMap Word.operand? = inputs := by
    rw [List.filterMap_cons_none rfl, List.filterMap_map]
    exact List.filterMap_some
  rw [readWords, List.takeWhile_eq_self_iff.2 hall, List.dropWhile_eq_nil_iff.2 hall, readWords]
  · simp [takeOperands, h, hinputs]
  · simp
  · simp

theorem readWords_written {setting : Option Text → Setting} {settings : Settings} {last : Reader}
    (husage : switch.usage = .level setting ∨ switch.usage = .file setting)
    (hset : r.settings.set (setting (Demand.writtenValue value)) = .ok settings)
    (hlater : readWords { r with settings } words = .ok last) :
    r.readWords (.use ⟨switch, true, some value⟩ :: words) = .ok last := by
  have hdemand : ∀ next, Demand.ofUse next ⟨switch, true, some value⟩ =
      .ok { settings := [setting (Demand.writtenValue value)] } := by
    intro next
    rcases husage with husage | husage <;> simp [Demand.ofUse, Demand.ofAttached, husage]
  rw [readWords, hdemand]
  simpa [bind, Except.bind, hset, pure, Except.pure] using hlater

end Reader

namespace Settings

theorem readLevel_written (switch : Switch) (n : Fin 4) :
    readLevel switch (Demand.writtenValue (CharNumber.decimal n)) = .ok (.ofBits n) :=
  match n with
  | 0 | 1 | 2 | 3 => rfl

theorem set_backslash (s : Settings) (n : Fin 4) :
    s.set (.backslash (Demand.writtenValue (CharNumber.decimal n))) =
      .ok { s with backslash := .ofBits n } := by
  rw [set, readLevel_written]
  rfl

theorem set_xml (s : Settings) (n : Fin 4) :
    s.set (.xml (Demand.writtenValue (CharNumber.decimal n))) =
      .ok { s with xml := .ofBits n } := by
  rw [set, readLevel_written]
  rfl

theorem set_rules {name : Text} (h : name ≠ "--") (s : Settings) :
    s.set (.rules (Demand.writtenValue name)) = .ok { s with rules := .named name } := by
  rw [set, Demand.writtenValue, if_neg h]
  rfl

end Settings

theorem Reader.readWords_levels {r : Reader} (h : r.hasInputs = false) (backslash xml : Fin 4)
    (inputs : List Text) :
    r.readWords (.use ⟨.backslash, true, some (CharNumber.decimal backslash)⟩ ::
      .use ⟨.xml, true, some (CharNumber.decimal xml)⟩ ::
      .separator :: inputs.map .operand) =
    .ok { r with
      settings.backslash := .ofBits backslash
      settings.xml := .ofBits xml
      settings.inputs := inputs
      hasInputs := true } := by
  refine readWords_written (.inl rfl) (Settings.set_backslash _ backslash) ?_
  refine readWords_written (.inl rfl) (Settings.set_xml _ xml) ?_
  refine readWords_separator ?_ inputs
  exact h

theorem Settings.ofArguments_eq_ok {arguments : List Text} {words : List Word} {r : Reader}
    (hwords : Command.words arguments = .ok words) (hread : Reader.readWords {} words = .ok r)
    (hleft : r.leftOver = []) : ofArguments arguments = .ok r.settings := by
  simp [ofArguments, hwords, hread, hleft, bind, Except.bind, pure, Except.pure]

/-- All options can be written on a command line, but for a rules file whose name is two dashes. -/
theorem Options.askedBy_line {o : Options} (h : o.rules ≠ some ("--" : Text))
    (inputs : List Text) : o.AskedBy inputs (o.line inputs) := by
  obtain ⟨rules, backslash, xml⟩ := o
  have hinputs : words ("--" :: inputs) = .ok (.separator :: inputs.map .operand) := by
    rw [words, if_pos rfl]
  have hlevels := words_written (words_written hinputs .xml (CharNumber.decimal xml)) .backslash
    (CharNumber.decimal backslash)
  cases rules with
  | none =>
    exact Settings.ofArguments_eq_ok hlevels (Reader.readWords_levels rfl backslash xml inputs) rfl
  | some name =>
    have hname : name ≠ "--" := fun heq => h (congrArg some heq)
    have hread := Reader.readWords_levels (r := { settings := { rules := .named name } }) rfl
      backslash xml inputs
    exact Settings.ofArguments_eq_ok (words_written hlevels .rules name)
      (Reader.readWords_written (.inr rfl) (Settings.set_rules hname {}) hread) rfl

end PlainForm.Command

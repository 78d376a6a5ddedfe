import Mathlib.Data.List.Forall2
import PlainForm.Proofs.Command.Ending
import PlainForm.Proofs.Command.Options

/-!
# A run is its conversions

A run that prints its outcome loads its table once and converts each of its input files on its own.
What it prints is what the conversions give, one behind the other, and so it does not matter whether
the files are converted in one run or in several.
-/

namespace PlainForm.Command

/-! ## Results -/

/-- What was read from an input file, and what became of it. -/
structure Result where
  read : Noted Text
  conversion : Conversion

/-- The problems with reading are told before those with converting, and then how it ended. -/
def Result.notes (result : Result) : List Text :=
  Command.notes result.read.problems ++ Command.notes result.conversion.problems ++
    [summary result.conversion.text result.conversion.changes]

/-- The text of the file, and nothing else, is converted. -/
structure IsResult (files : Files) (table : Table) (notations : Notations) (name : Text)
    (result : Result) : Prop where
  read : ∃ bytes, files.read name = .ok bytes ∧ result.read = File.text name bytes
  converted : table.convert notations result.read.value = .ok result.conversion

def Batch.ofResults (results : List Result) : Batch where
  texts := results.map (·.conversion.text)
  log := results.flatMap (·.conversion.log)
  notes := results.flatMap Result.notes

variable {files : Files} {table : Table} {notations : Notations} {stdin : Bytes} {name : Text}
  {names : List Text} {batch : Batch} {read : Noted Text} {result : Result} {results : List Result}

theorem Batch.ofResults_cons : ofResults (result :: results) =
    (ofConversion result.read result.conversion).append (ofResults results) := by
  simp [ofResults, ofConversion, append, Result.notes, Command.notes]

theorem readInput_eq_ok (noDash : name ≠ dash) :
    readInput files stdin name = .ok (.ok read) ↔
      ∃ bytes, files.read name = .ok bytes ∧ read = File.text name bytes := by
  constructor
  · intro h
    obtain hdash | ⟨bytes, hbytes⟩ := isReadable_of_readInput h
    · exact absurd hdash noDash
    · rw [readInput_file noDash hbytes] at h
      exact ⟨bytes, hbytes, (Except.ok.inj (Except.ok.inj h)).symm⟩
  · rintro ⟨bytes, hbytes, rfl⟩
    exact readInput_file noDash hbytes

theorem convertInputs_through (noDash : dash ∉ names) :
    convertInputs table notations files stdin names = .ok batch ∧ batch.trouble = none ↔
      ∃ results, List.Forall₂ (IsResult files table notations) names results ∧
        batch = .ofResults results := by
  induction names generalizing stdin batch with
  | nil =>
    constructor
    · rintro ⟨h, -⟩
      exact ⟨[], .nil, (Except.ok.inj h).symm⟩
    · rintro ⟨results, hresults, rfl⟩
      cases hresults
      exact ⟨rfl, rfl⟩
  | cons name names ih =>
    have hname : name ≠ dash := fun h => noDash (h ▸ List.mem_cons_self)
    have hlater : dash ∉ names := fun h => noDash (List.mem_cons_of_mem _ h)
    constructor
    · rintro ⟨h, hthrough⟩
      rcases convertInputs_cons.1 h with
        ⟨trouble, -, rfl⟩ | ⟨read, conversion, later, hread, hconvert, hbatch, rfl⟩
      · cases hthrough
      · obtain ⟨results, hresults, rfl⟩ := (ih hlater).1 ⟨hbatch, hthrough⟩
        refine ⟨⟨read, conversion⟩ :: results, .cons ⟨?_, hconvert⟩ hresults, ?_⟩
        · exact (readInput_eq_ok hname).1 hread
        · rw [Batch.ofResults_cons]
    · rintro ⟨results, hresults, rfl⟩
      cases hresults with
      | @cons _ result _ results hresult hresults =>
        obtain ⟨hbatch, -⟩ := (ih hlater).2 ⟨results, hresults, rfl⟩
        refine ⟨convertInputs_cons.2 (.inr ⟨result.read, result.conversion, _, ?_,
          hresult.converted, hbatch, Batch.ofResults_cons⟩), rfl⟩
        exact (readInput_eq_ok hname).2 hresult.read

/-! ## Runs -/

def Succeeds (files : Files) (stdin : Bytes) (arguments : List Text) (outcome : Outcome) : Prop :=
  run files stdin arguments = .ok outcome ∧ outcome.exitCode = 0

def Outcome.ofResults (loaded : Loaded) (results : List Result) : Outcome where
  output := (results.map (·.conversion.text)).flatten
  errors := Text.ofLines (loaded.diagnostics.map note ++ results.flatMap Result.notes)

variable {o : Options} {inputs arguments : List Text} {outcome : Outcome}

theorem Options.name?_rules (o : Options) (inputs : List Text) :
    (o.settings inputs).rules.name? = .ok o.rules := by
  cases o with
  | mk rules backslash xml => cases rules <;> rfl

theorem Ends.usual {log notes : List Text} :
    Ends files .usual batch log notes outcome ∧ outcome.exitCode = 0 ↔ batch.trouble = none ∧
      outcome = {
        output := Text.ofLines log ++ batch.texts.flatten
        errors := Text.ofLines notes } := by
  constructor
  · rintro ⟨hends, hexit⟩
    cases hends with
    | @stopped trouble _ => cases trouble <;> cases hexit
    | printed through _ => exact ⟨through, rfl⟩
    | unwritable _ named => cases named
    | written _ named => cases named
  · rintro ⟨through, rfl⟩
    exact ⟨.printed through rfl, rfl⟩

theorem succeeds_iff (hasked : o.AskedBy inputs arguments) (hfilled : inputs ≠ [])
    (noDash : dash ∉ inputs) : Succeeds files stdin arguments outcome ↔
      ∃ loaded results, RulesFile.load files o.rules o.rulesNotations = .ok loaded ∧
        List.Forall₂ (IsResult files loaded.table o.inputNotations) inputs results ∧
        outcome = .ofResults loaded results := by
  have hinputs : (o.settings inputs).inputsOrDash = inputs := if_neg hfilled
  constructor
  · rintro ⟨hrun, hexit⟩
    rcases run_eq_ok.1 hrun with ⟨stop, hstop, -⟩ | ⟨settings, hsettings, hrun⟩
    · rw [hasked] at hstop
      cases hstop
    obtain rfl := Except.ok.inj (hasked.symm.trans hsettings)
    obtain ⟨name, loaded, batch, hname, hload, hbatch, hends⟩ := Settings.run_eq_ok.1 hrun
    obtain rfl := Except.ok.inj ((o.name?_rules inputs).symm.trans hname)
    rw [hinputs] at hbatch
    obtain ⟨hthrough, rfl⟩ := Ends.usual.1 ⟨hends, hexit⟩
    obtain ⟨results, hresults, rfl⟩ := (convertInputs_through noDash).1 ⟨hbatch, hthrough⟩
    exact ⟨loaded, results, hload, hresults, rfl⟩
  · rintro ⟨loaded, results, hload, hresults, rfl⟩
    obtain ⟨hbatch, hthrough⟩ := (convertInputs_through noDash).2 ⟨results, hresults, rfl⟩
    rw [← hinputs] at hbatch
    refine ⟨run_eq_ok.2 (.inr ⟨_, hasked, Settings.run_eq_ok.2
      ⟨o.rules, loaded, _, o.name?_rules inputs, hload, hbatch, ?_⟩⟩), rfl⟩
    exact .printed hthrough rfl

theorem ofLines_append (lines others : List Text) :
    Text.ofLines (lines ++ others) = Text.ofLines lines ++ Text.ofLines others :=
  List.flatMap_append

/-- A run succeeds just if both of its parts do. It prints what they print, one behind the other,
and tells what they tell, but it tells of loading once. -/
structure IsJoinedRun (files : Files) (stdin : Bytes) (whole first later : List Text) : Prop where
  parts : ∀ outcome, Succeeds files stdin whole outcome → ∃ a b loading errors errors',
    Succeeds files stdin first a ∧ Succeeds files stdin later b ∧
    outcome.output = a.output ++ b.output ∧ a.errors = loading ++ errors ∧
    b.errors = loading ++ errors' ∧ outcome.errors = loading ++ errors ++ errors'
  whole : ∀ a b, Succeeds files stdin first a → Succeeds files stdin later b →
    ∃ outcome, Succeeds files stdin whole outcome

theorem isJoinedRun_of_askedBy {first later arguments₁ arguments₂ : List Text}
    (hasked : o.AskedBy (first ++ later) arguments) (hfirst : o.AskedBy first arguments₁)
    (hlater : o.AskedBy later arguments₂) (hne : first ≠ []) (hne' : later ≠ [])
    (noDash : dash ∉ first ++ later) :
    IsJoinedRun files stdin arguments arguments₁ arguments₂ := by
  rw [List.mem_append, not_or] at noDash
  have hfilled : first ++ later ≠ [] := by simp [hne]
  have hdash : dash ∉ first ++ later := by simp [noDash]
  constructor
  · intro outcome houtcome
    obtain ⟨loaded, results, hload, hresults, rfl⟩ :=
      (succeeds_iff hasked hfilled hdash).1 houtcome
    have htake := List.forall₂_take first.length hresults
    have hdrop := List.forall₂_drop first.length hresults
    rw [List.take_left] at htake
    rw [List.drop_left] at hdrop
    refine ⟨_, _, Text.ofLines (loaded.diagnostics.map note), _, _,
      (succeeds_iff hfirst hne noDash.1).2 ⟨loaded, _, hload, htake, rfl⟩,
      (succeeds_iff hlater hne' noDash.2).2 ⟨loaded, _, hload, hdrop, rfl⟩, ?_,
      ofLines_append _ _, ofLines_append _ _, ?_⟩
    · simp only [Outcome.ofResults]
      rw [← List.flatten_append, ← List.map_append, List.take_append_drop]
    · simp only [Outcome.ofResults]
      rw [List.append_assoc, ← ofLines_append, ← ofLines_append, ← List.flatMap_append,
        List.take_append_drop]
  · intro a b ha hb
    obtain ⟨loaded, results, hload, hresults, rfl⟩ := (succeeds_iff hfirst hne noDash.1).1 ha
    obtain ⟨loaded', results', hload', hresults', rfl⟩ := (succeeds_iff hlater hne' noDash.2).1 hb
    obtain rfl := Except.ok.inj (hload.symm.trans hload')
    exact ⟨_, (succeeds_iff hasked hfilled hdash).2
      ⟨loaded, results ++ results', hload, List.rel_append hresults hresults', rfl⟩⟩

/-- The input files of a run are converted one by one, each as it stands: their notations are those
of the second bits, and the table is loaded with those of the first bits. The converted texts are
printed in order, and all problems are told, those with the rules first. So the files can as well be
converted in two runs. Files with any names can be asked for. -/
theorem run_prints_conversions (files : Files) (o : Options) (inputs : List Text)
    (hfilled : inputs ≠ []) (noDash : dash ∉ inputs) :
    (o.rules ≠ some ("--" : Text) → o.AskedBy inputs (o.line inputs)) ∧
    (∀ stdin arguments outcome, o.AskedBy inputs arguments →
      (Succeeds files stdin arguments outcome ↔
        ∃ loaded results, RulesFile.load files o.rules o.rulesNotations = .ok loaded ∧
          List.Forall₂ (IsResult files loaded.table o.inputNotations) inputs results ∧
          outcome = .ofResults loaded results)) ∧
    ∀ stdin first later arguments arguments₁ arguments₂, inputs = first ++ later →
      first ≠ [] → later ≠ [] → o.AskedBy inputs arguments → o.AskedBy first arguments₁ →
      o.AskedBy later arguments₂ → IsJoinedRun files stdin arguments arguments₁ arguments₂ := by
  refine ⟨fun h => Options.askedBy_line h inputs,
    fun _ _ _ hasked => succeeds_iff hasked hfilled noDash, ?_⟩
  rintro stdin first later arguments arguments₁ arguments₂ rfl hne hne' hasked hfirst hlater
  exact isJoinedRun_of_askedBy hasked hfirst hlater hne hne' noDash

/-- Backslash notation in the rules and XML notation in the input. A match, a reference and the
bytes of a character would go on in the second file, the name of which begins like a switch. -/
theorem run_prints_conversions_at_boundary :
    let tree : FileTree := { files := [
      (["a.txt"], Utf8.encode "&#97;&#9" ++ [0xC3]), (["-b"], 0xA9 :: Utf8.encode "8;b&#97;b\\n"),
      (["r.txt"], Utf8.encode "replace \"\\u0061b\" = \"&amp;\"")] }
    let files := tree.view "/"
    let o : Options := { rules := some "r.txt", backslash := 1, xml := 2 }
    let outcome : Outcome := {
      output := "a&#9\uFFFD\uFFFD8;b&amp;\\n"
      errors := Text.ofLines [
        "note: Malformed UTF-8 in `a.txt` at byte 8 (malformed bytes replaced by U+FFFD)",
        "note: Invalid XML numeric character reference: &#9\uFFFD",
        "Text has 5 characters with zero changes.",
        "note: Malformed UTF-8 in `-b` at byte 0 (malformed bytes replaced by U+FFFD)",
        "Text has 11 characters with one change."] }
    Succeeds files [] (o.line ["a.txt", "-b"]) outcome ∧
      (∃ loaded results, RulesFile.load files o.rules o.rulesNotations = .ok loaded ∧
        List.Forall₂ (IsResult files loaded.table o.inputNotations) ["a.txt", "-b"] results ∧
        outcome = .ofResults loaded results) ∧
      IsJoinedRun files [] (o.line ["a.txt", "-b"]) (o.line ["a.txt"]) (o.line ["-b"]) := by
  intro tree files o outcome
  have hrules : o.rules ≠ some ("--" : Text) := by decide
  have hrun : (o.settings ["a.txt", "-b"]).run files [] = .ok outcome := by decide +kernel
  obtain ⟨hline, hruns, hjoined⟩ :=
    run_prints_conversions files o ["a.txt", "-b"] (List.cons_ne_nil _ _) (by decide)
  have hasked := hline hrules
  have hsucceeds : Succeeds files [] (o.line ["a.txt", "-b"]) outcome :=
    ⟨run_eq_ok.2 (.inr ⟨_, hasked, hrun⟩), rfl⟩
  exact ⟨hsucceeds, (hruns _ _ _ hasked).1 hsucceeds,
    hjoined [] ["a.txt"] ["-b"] _ _ _ rfl (List.cons_ne_nil _ _) (List.cons_ne_nil _ _) hasked
      (Options.askedBy_line hrules _) (Options.askedBy_line hrules _)⟩

end PlainForm.Command

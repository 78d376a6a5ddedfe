import PlainForm.Proofs.Command.Ending
import PlainForm.Proofs.Decode.Spelling
import PlainForm.Proofs.DecodingOnly
import PlainForm.Proofs.FileTree
import PlainForm.Proofs.Utf8

/-!
# Runs that copy

With accept rules only, each layer of a run is an identity: texts are read from their bytes as they
are, cut into spans that are all kept, encoded again, and written one after the other. So the output
file comes to hold the bytes of the input files.
-/

namespace PlainForm

/-! ## Conversions that change nothing -/

namespace Rendering

variable {told problems : List Problem} {spans : List Span} {numbers : List Int}

theorem of_kept {renderer : Option Renderer} (h : Rendering renderer told spans numbers problems)
    (hkept : ∀ span ∈ spans, span.change? = none) :
    numbers = spans.flatMap Span.numbers ∧ problems = [] := by
  have hchanged : ∀ span ∈ spans, ∀ hit, span.change? ≠ some hit := by
    intro span hspan hit hchange
    simp [hkept span hspan] at hchange
  constructor
  · refine (h.relate (R := Eq) rfl (fun h h' => by rw [h, h']) (fun _ _ _ => rfl) ?_).symm
    intro span hspan hit _ _ hchange
    exact absurd hchange (hchanged span hspan hit)
  · refine h.problems_eq_nil ?_
    intro span hspan hit _ _ hchange
    exact absurd hchange (hchanged span hspan hit)

end Rendering

namespace Table

variable {table : Table} {t : Text}

theorem substitute_accepting (hcommitted : table.committed)
    (hcomplete : ∀ rule ∈ table.rules, rule.target.IsComplete)
    (haccept : ∀ rule ∈ table.rules, rule.action = .accept) (t : Text) :
    ∃ s, table.substitute t.numbers = .ok s ∧ s.numbers = t.numbers ∧ s.changes = 0 ∧
      s.problems = [] := by
  obtain ⟨spans, s, hcut, hs, hrendering, hchanges⟩ := substitute_eq hcommitted hcomplete t none
  have hkept : ∀ span ∈ spans, span.change? = none := by
    intro span hspan
    obtain ⟨rest, -, -, hchosen⟩ := hcut.exists_suffix hspan
    rw [Option.eq_none_iff_forall_ne_some]
    intro hit hchange
    obtain ⟨hfirst, hrule, -⟩ := hchosen.of_change hchange
    exact hrule (haccept _ hfirst.mem)
  obtain ⟨hnumbers, hproblems⟩ := hrendering.of_kept hkept
  refine ⟨s, hs, hnumbers.trans hcut.whole, ?_, hproblems⟩
  rw [hchanges, List.countP_eq_zero]
  intro span hspan
  simp [Span.isChange_eq, hkept span hspan]

theorem convert_accepting (hcommitted : table.committed)
    (hcomplete : ∀ rule ∈ table.rules, rule.target.IsComplete)
    (haccept : ∀ rule ∈ table.rules, rule.action = .accept) (hscalar : t.IsScalar) :
    ∃ conversion, table.convert {} t = .ok conversion ∧ conversion.text = t ∧
      conversion.changes = 0 ∧ conversion.problems = [] := by
  obtain ⟨s, hs, hnumbers, hchanges, hproblems⟩ :=
    substitute_accepting hcommitted hcomplete haccept t
  refine ⟨_, convert_eq_ok.2 ⟨⟨t, []⟩, s, hscalar.decode, hs, rfl⟩, ?_, hchanges, ?_⟩
  · simp only [hnumbers, hscalar.encode]
  · simp only [hnumbers, hscalar.encode, hproblems, List.append_nil]

end Table

namespace Command

/-! ## Batches -/

variable {table : Table} (files : Files) (stdin : Bytes)

theorem summary_zero (t : Text) :
    summary t 0 = "Text has " ++ Phrase.quantity t.units.length "character" "characters" ++
      " with zero changes." := by
  have hchanges : Phrase.quantity 0 "change" "changes" = "zero changes" := by decide
  rw [summary, hchanges]
  simp only [List.append_assoc]
  rfl

theorem convertInputs_accepting (hcommitted : table.committed)
    (hcomplete : ∀ rule ∈ table.rules, rule.target.IsComplete)
    (haccept : ∀ rule ∈ table.rules, rule.action = .accept) {names texts : List Text}
    (hfiles : dash ∉ names)
    (hinputs : List.Forall₂ (fun name t => t.IsScalar ∧ files.read name = .ok (Utf8.encode t))
      names texts) :
    ∃ batch, convertInputs table {} files stdin names = .ok batch ∧ batch.texts = texts ∧
      batch.notes = texts.map (summary · 0) ∧ batch.trouble = none := by
  induction hinputs with
  | nil => exact ⟨{}, rfl, rfl, rfl, rfl⟩
  | @cons name t names texts hinput _ ih =>
    obtain ⟨hscalar, hread⟩ := hinput
    have hname : name ≠ dash := fun h => hfiles (h ▸ List.mem_cons_self)
    obtain ⟨conversion, hconvert, htext, hchanges, hproblems⟩ :=
      Table.convert_accepting hcommitted hcomplete haccept hscalar
    obtain ⟨later, hlater, htexts, hnotes, hthrough⟩ :=
      ih fun h => hfiles (List.mem_cons_of_mem _ h)
    have hread : readInput files stdin name = .ok (.ok ⟨t, []⟩) := by
      rw [readInput_file hname hread, File.text_encode hscalar]
    have hrest : restOfInput stdin name = stdin := if_neg hname
    rw [← hrest] at hlater
    refine ⟨_, convertInputs_cons.2 (.inr ⟨_, _, _, hread, hconvert, hlater, rfl⟩), ?_, ?_, ?_⟩
    · simp [Batch.append, Batch.ofConversion, htext, htexts]
    · simp [Batch.append, Batch.ofConversion, htext, hchanges, hproblems, hnotes, Command.notes]
    · exact hthrough

/-! ## Runs -/

/-- A run with accept rules only, and without notations in its input, writes the bytes of its input
files one after the other, and tells zero changes of each. Any file that can be written may take
them, an input file as well. -/
theorem accepting_run_copies (tree : FileTree) (workingDirectory : Text) (stdin : Bytes)
    (arguments : List Text) (settings : Settings) (rules : Option Text) (loaded : Loaded)
    (texts : List Text) (output : Text) (path : Path)
    (hsettings : Settings.ofArguments arguments = .ok settings)
    (hrules : settings.rules.name? = .ok rules)
    (hload : RulesFile.load (tree.view workingDirectory) rules settings.rulesNotations = .ok loaded)
    (haccept : ∀ rule ∈ loaded.table.rules, rule.action = .accept)
    (hoff : settings.inputNotations = {}) (hfilled : settings.inputs ≠ [])
    (hfiles : dash ∉ settings.inputs)
    (hinputs : List.Forall₂ (fun name t => t.IsScalar ∧ tree.read name = .ok (Utf8.encode t))
      settings.inputs texts)
    (houtput : settings.output = .named output) (htarget : tree.target output = .ok path) :
    ∃ outcome, run (tree.view workingDirectory) stdin arguments = .ok outcome ∧
      outcome.exitCode = 0 ∧
      outcome.written = some (output, (texts.map Utf8.encode).flatten) ∧
      (outcome.applyTo tree).read output = .ok (texts.map Utf8.encode).flatten ∧
      outcome.errors = Text.ofLines (loaded.diagnostics.map note ++ texts.map fun t =>
        "Text has " ++ Phrase.quantity t.units.length "character" "characters" ++
          " with zero changes.") := by
  obtain ⟨file, text, fromText, htext, htable⟩ := RulesFile.load_eq_ok hload
  obtain ⟨hcommitted, hwell⟩ := Loaded.wellFormed htext
  rw [← htable] at hcommitted hwell
  obtain ⟨batch, hbatch, htexts, hnotes, hthrough⟩ :=
    convertInputs_accepting (tree.view workingDirectory) stdin hcommitted
      (fun rule hrule => (hwell rule hrule).target.isComplete) haccept hfiles hinputs
  have hinput : settings.inputsOrDash = settings.inputs := if_neg hfilled
  have hrun : ∃ outcome, run (tree.view workingDirectory) stdin arguments = .ok outcome ∧
      outcome.exitCode = 0 ∧ outcome.written = some (output, Utf8.encode batch.texts.flatten) ∧
      outcome.errors = Text.ofLines (loaded.diagnostics.map note ++ batch.notes) := by
    refine ⟨_, run_eq_ok.2 (.inr ⟨settings, hsettings, Settings.run_eq_ok.2 ⟨rules, loaded, batch,
      hrules, hload, ?_, .written hthrough houtput ?_⟩⟩), rfl, rfl, rfl⟩
    · rw [hoff, hinput]
      exact hbatch
    · exact FileTree.accepts_view.2 ⟨path, htarget⟩
  obtain ⟨outcome, hrun, hexit, hwritten, herrors⟩ := hrun
  rw [htexts, Utf8.encode_flatten] at hwritten
  refine ⟨outcome, hrun, hexit, hwritten, ?_, ?_⟩
  · rw [Outcome.applyTo_of_some hwritten htarget]
    exact FileTree.read_write (FileTree.write_eq htarget _)
  · rw [herrors, hnotes]
    simp only [summary_zero]

/-- A byte order mark and CR LF, then CR and characters of two and four bytes. The output file is
the first input file. -/
theorem accepting_run_copies_over_input :
    let tree : FileTree := { files := [(["a.txt"], [0xEF, 0xBB, 0xBF, 0x0D, 0x0A]),
      (["b.txt"], [0xC3, 0xA9, 0x0D, 0xF0, 0x9F, 0x98, 0x80]),
      (["r.txt"], Utf8.encode "accept 13 10\naccept 0..0x10FFFF")] }
    let arguments : List Text := ["a.txt", "b.txt", "-dr.txt", "-oa.txt"]
    let bytes : Bytes :=
      [0xEF, 0xBB, 0xBF, 0x0D, 0x0A, 0xC3, 0xA9, 0x0D, 0xF0, 0x9F, 0x98, 0x80]
    ∃ outcome, run (tree.view "/") [] arguments = .ok outcome ∧ outcome.exitCode = 0 ∧
      outcome.written = some (("a.txt" : Text), bytes) ∧
      (outcome.applyTo tree).read "a.txt" = .ok bytes ∧
      outcome.errors = Text.ofLines ["Text has 3 characters with zero changes.",
        "Text has 4 characters with zero changes."] := by
  intro tree arguments bytes
  let settings : Settings := {
    rules := .named "r.txt", output := .named "a.txt", inputs := ["a.txt", "b.txt"] }
  have hsettings : Settings.ofArguments arguments = .ok settings := by decide +kernel
  have hloaded : (RulesFile.load (tree.view "/") (some "r.txt") {}).map
      (fun loaded => (loaded.table.rules, loaded.diagnostics)) =
        .ok ([⟨.accept, .sequence [0x0D, 0x0A], none⟩,
          ⟨.accept, .range 0 0x10FFFF, none⟩], []) := by decide +kernel
  obtain ⟨loaded, hload, hpair⟩ := Failure.map_eq_ok.1 hloaded
  obtain ⟨hrules, hdiagnostics⟩ := Prod.mk.inj hpair
  let texts : List Text := ["\uFEFF\r\n", "é\r😀"]
  have hinputs : List.Forall₂
      (fun name t => t.IsScalar ∧ tree.read name = .ok (Utf8.encode t)) settings.inputs texts :=
    .cons ⟨by decide, by decide +kernel⟩ (.cons ⟨by decide, by decide +kernel⟩ .nil)
  obtain ⟨outcome, hrun, hexit, hwritten, hread, herrors⟩ := accepting_run_copies tree "/" []
    arguments settings (some "r.txt") loaded texts "a.txt" ["a.txt"] hsettings rfl hload
    (by rw [hrules]; decide) rfl (by decide) (by decide) hinputs rfl (by decide +kernel)
  have hbytes : (texts.map Utf8.encode).flatten = bytes := by decide
  rw [hbytes] at hwritten hread
  rw [hdiagnostics] at herrors
  exact ⟨outcome, hrun, hexit, hwritten, hread, herrors.trans (by decide +kernel)⟩

end Command

end PlainForm

import PlainForm.Proofs.Lines
import PlainForm.Proofs.RuleLine.Contract
import PlainForm.Rulebook

/-!
# What lines contribute

What a line contributes to a rulebook depends on nothing but the line. A book that can still take
rules grows by what all the lines contribute. A book whose table is in use grows by what is told of
the lines up to the first one that is a rule, and gives up there.
-/

namespace PlainForm

variable {notations : Notations} {line : Text} {lines before later : List (Text × Nat)}
  {rule : Rule} {number : Nat}

/-! ## One line -/

/-- A rule, if the line is one, and the problems that are told of the line. -/
structure Contribution where
  rule : Option Rule := none
  problems : List Problem := []

namespace Contribution

/-- Nothing more is told of a line at which reading gives up. -/
def ofReading (r : Reading Rule) : Contribution :=
  match r.outcome with
  | .ok rule => ⟨some rule, r.problems⟩
  | .error (.mistake m) => ⟨none, r.problems ++ [.mistake m]⟩
  | .error (.failure _) => ⟨none, r.problems⟩

def ofLine (notations : Notations) (line : Text) : Contribution :=
  if Entry.isIgnorable line then {} else ofReading (RuleLine.read notations line)

def entry (notations : Notations) (numbered : Text × Nat) : Entry :=
  let c := ofLine notations numbered.1
  ⟨numbered.2, numbered.1, c.problems, c.rule⟩

theorem ofLine_ignorable (h : Entry.isIgnorable line) : ofLine notations line = {} := if_pos h

theorem ofLine_worded (h : ¬ Entry.isIgnorable line) :
    ofLine notations line = ofReading (RuleLine.read notations line) := if_neg h

theorem rule_ofReading {r : Reading Rule} :
    (ofReading r).rule = some rule ↔ r.outcome = .ok rule := by
  unfold ofReading
  split <;> simp_all

end Contribution

theorem Token.keyword?_of_endsHere (h : endsHere line) : keyword? line = none := by
  unfold endsHere at h
  unfold keyword?
  split at h
  · rfl
  · simp only [Bool.and_eq_true, decide_eq_true_eq] at h
    obtain ⟨rfl, -⟩ := h
    rfl

theorem RuleLine.read_of_ignorable (h : Entry.isIgnorable line) :
    (read notations line).outcome = .error (.mistake .missingVerb) := by
  have hverb : readVerb line = .wrong .missingVerb := by
    unfold readVerb
    rw [Token.keyword?_of_endsHere h]
  unfold read
  rw [hverb, Reading.bind_of_error rfl]

theorem RuleLine.read_rule_or_mistake (notations : Notations) (h : line.HasShortRuns) :
    (∃ rule, (read notations line).outcome = .ok rule) ∨
      ∃ m, (read notations line).outcome = .error (.mistake m) := by
  cases houtcome : (read notations line).outcome with
  | ok rule => exact .inl ⟨rule, rfl⟩
  | error stop =>
    cases stop with
    | mistake m => exact .inr ⟨m, rfl⟩
    | failure f => exact absurd h ((read_meets notations line).failure f houtcome).2

theorem Contribution.rule_ofLine : (ofLine notations line).rule = some rule ↔
    (RuleLine.read notations line).outcome = .ok rule := by
  by_cases hline : Entry.isIgnorable line
  · rw [ofLine_ignorable hline, RuleLine.read_of_ignorable hline]
    simp
  · rw [ofLine_worded hline, rule_ofReading]

theorem Entry.read_of_short (hshort : line.HasShortRuns) (hline : ¬ isIgnorable line) :
    read notations number line = .ok (Contribution.entry notations (line, number)) := by
  unfold Contribution.entry
  rw [Contribution.ofLine_worded hline]
  unfold Entry.read Contribution.ofReading
  dsimp only
  rcases RuleLine.read_rule_or_mistake notations hshort with ⟨rule, houtcome⟩ | ⟨m, houtcome⟩
  · rw [houtcome]
  · rw [houtcome]

/-! ## Many lines -/

namespace Contribution

def rules (notations : Notations) (lines : List (Text × Nat)) : List Rule :=
  lines.filterMap fun numbered => (entry notations numbered).rule

def diagnostics (notations : Notations) (file : Text) (lines : List (Text × Nat)) :
    List Diagnostic :=
  lines.flatMap fun numbered => (entry notations numbered).diagnostics file

@[simp] theorem rules_nil : rules notations [] = [] := rfl

@[simp] theorem diagnostics_nil (file : Text) : diagnostics notations file [] = [] := rfl

theorem rules_cons (numbered : Text × Nat) : rules notations (numbered :: lines) =
    (entry notations numbered).rule.toList ++ rules notations lines := by
  unfold rules
  rw [List.filterMap_cons]
  cases (entry notations numbered).rule <;> rfl

theorem diagnostics_cons (file : Text) (numbered : Text × Nat) :
    diagnostics notations file (numbered :: lines) =
      (entry notations numbered).diagnostics file ++ diagnostics notations file lines :=
  List.flatMap_cons

theorem diagnostics_append (file : Text) : diagnostics notations file (before ++ later) =
    diagnostics notations file before ++ diagnostics notations file later := List.flatMap_append

end Contribution

def Text.numberedLines (t : Text) : List (Text × Nat) := t.lines.zipIdx 1

theorem Text.HasShortRuns.of_mem_numberedLines {t : Text} (h : t.HasShortRuns)
    {numbered : Text × Nat} (hmem : numbered ∈ t.numberedLines) : numbered.1.HasShortRuns := by
  obtain ⟨-, -, hget⟩ := Text.getElem?_of_mem_zipIdx hmem
  exact h.of_mem_lines (List.mem_of_getElem? hget)

def worded (lines : List (Text × Nat)) : List (Text × Nat) :=
  lines.filter fun numbered => !Entry.isIgnorable numbered.1

namespace Contribution

theorem entry_ignorable {numbered : Text × Nat} (h : Entry.isIgnorable numbered.1) :
    entry notations numbered = ⟨numbered.2, numbered.1, [], none⟩ := by
  unfold entry
  rw [ofLine_ignorable h]

theorem rules_worded (lines : List (Text × Nat)) :
    rules notations (worded lines) = rules notations lines := by
  induction lines with
  | nil => rfl
  | cons numbered lines ih =>
    rw [worded, List.filter_cons, rules_cons, ← ih]
    cases hline : Entry.isIgnorable numbered.1 with
    | true =>
      rw [entry_ignorable hline]
      rfl
    | false => exact rules_cons numbered

theorem diagnostics_worded (file : Text) (lines : List (Text × Nat)) :
    diagnostics notations file (worded lines) = diagnostics notations file lines := by
  induction lines with
  | nil => rfl
  | cons numbered lines ih =>
    rw [worded, List.filter_cons, diagnostics_cons, ← ih]
    cases hline : Entry.isIgnorable numbered.1 with
    | true =>
      rw [entry_ignorable hline]
      rfl
    | false => exact diagnostics_cons file numbered

end Contribution

/-! ## Books -/

namespace Rulebook

variable {book : Rulebook} {file : Text} {entry : Entry}

def grown (book : Rulebook) (rules : List Rule) (diagnostics : List Diagnostic) : Rulebook :=
  { book with
    table := { book.table with rules := book.table.rules ++ rules }
    diagnostics := book.diagnostics ++ diagnostics }

@[simp] theorem grown_nil (book : Rulebook) : book.grown [] [] = book := by simp [grown]

@[simp] theorem notations_grown (book : Rulebook) (rules : List Rule)
    (diagnostics : List Diagnostic) :
    (book.grown rules diagnostics).notations = book.notations := rfl

@[simp] theorem committed_grown (book : Rulebook) (rules : List Rule)
    (diagnostics : List Diagnostic) :
    (book.grown rules diagnostics).table.committed = book.table.committed := rfl

theorem grown_grown (book : Rulebook) (rules rules' : List Rule)
    (diagnostics diagnostics' : List Diagnostic) :
    (book.grown rules diagnostics).grown rules' diagnostics' =
      book.grown (rules ++ rules') (diagnostics ++ diagnostics') := by
  simp [grown, List.append_assoc]

/-! ### Steps -/

theorem enter_open (file : Text) (h : book.table.committed = false ∨ entry.rule = none) :
    (book.enter file entry).failure = none ∧
      (book.enter file entry).book = book.grown entry.rule.toList (entry.diagnostics file) := by
  unfold enter
  split
  · next hrule => simp [hrule, grown]
  · next rule hrule =>
    have hopen : book.table.committed = false := by simpa [hrule] using h
    simp [Table.add, hopen, hrule, grown]

theorem enter_committed (file : Text) (hcommitted : book.table.committed)
    (hrule : entry.rule = some rule) :
    (book.enter file entry).failure = some .tableCommitted ∧
      (book.enter file entry).book = book.grown [] (entry.diagnostics file) := by
  unfold enter
  rw [hrule]
  dsimp only
  rw [Table.add, if_pos hcommitted]
  simp [grown]

/-- Lines that hold more than a comment and can be read. -/
def Readable (lines : List (Text × Nat)) : Prop :=
  ∀ numbered ∈ lines, numbered.1.HasShortRuns ∧ ¬ Entry.isIgnorable numbered.1

theorem readLine_of_short (hshort : line.HasShortRuns) (hline : ¬ Entry.isIgnorable line) :
    book.readLine file line number =
      book.enter file (Contribution.entry book.notations (line, number)) := by
  unfold readLine
  rw [Entry.read_of_short hshort hline]

theorem readLines_cons (h : (book.readLine file line number).failure = none)
    (lines : List (Text × Nat)) :
    (book.readLines file ((line, number) :: lines)).failure =
        ((book.readLine file line number).book.readLines file lines).failure ∧
      (book.readLines file ((line, number) :: lines)).book =
        ((book.readLine file line number).book.readLines file lines).book := by
  rw [readLines]
  dsimp only
  rw [h]
  exact ⟨rfl, rfl⟩

theorem readLines_stop {f : Failure} (h : (book.readLine file line number).failure = some f)
    (lines : List (Text × Nat)) :
    (book.readLines file ((line, number) :: lines)).failure = some f ∧
      (book.readLines file ((line, number) :: lines)).book =
        (book.readLine file line number).book := by
  rw [readLines]
  dsimp only
  rw [h]
  exact ⟨rfl, rfl⟩

theorem readLines_append (h : (book.readLines file before).failure = none)
    (later : List (Text × Nat)) :
    (book.readLines file (before ++ later)).failure =
        ((book.readLines file before).book.readLines file later).failure ∧
      (book.readLines file (before ++ later)).book =
        ((book.readLines file before).book.readLines file later).book := by
  induction before generalizing book with
  | nil => exact ⟨rfl, rfl⟩
  | cons numbered before ih =>
    obtain ⟨line, number⟩ := numbered
    cases hline : (book.readLine file line number).failure with
    | some f =>
      rw [(readLines_stop hline before).1] at h
      cases h
    | none =>
      obtain ⟨hfailure, hbook⟩ := readLines_cons hline before
      rw [hfailure] at h
      obtain ⟨hfailure', hbook'⟩ := readLines_cons hline (before ++ later)
      rw [List.cons_append, hfailure', hbook', hbook]
      exact ih h

/-! ### Runs -/

theorem readLines_open (file : Text) (hlines : Readable lines)
    (h : book.table.committed = false ∨ Contribution.rules book.notations lines = []) :
    (book.readLines file lines).failure = none ∧
      (book.readLines file lines).book = book.grown (Contribution.rules book.notations lines)
        (Contribution.diagnostics book.notations file lines) := by
  induction lines generalizing book with
  | nil => simp [readLines]
  | cons numbered lines ih =>
    obtain ⟨line, number⟩ := numbered
    obtain ⟨⟨hshort, hline⟩, hrest⟩ := List.forall_mem_cons.1 hlines
    rw [Contribution.rules_cons, List.append_eq_nil_iff, Option.toList_eq_nil_iff] at h
    have hread : book.readLine file line number =
        book.enter file (Contribution.entry book.notations (line, number)) :=
      readLine_of_short hshort hline
    obtain ⟨hfailure, hbook⟩ := enter_open file (h.imp_right And.left)
    rw [← hread] at hfailure hbook
    have hstays : (book.readLine file line number).book.table.committed = false ∨
        Contribution.rules (book.readLine file line number).book.notations lines = [] := by
      rw [hbook]
      exact h.imp_right And.right
    have hlater := ih hrest hstays
    obtain ⟨hf, hb⟩ := readLines_cons hfailure lines
    rw [hf, hb, hlater.1, hlater.2, hbook, grown_grown, Contribution.rules_cons,
      Contribution.diagnostics_cons]
    exact ⟨rfl, rfl⟩

theorem readLines_committed (file : Text)
    (hlines : Readable (before ++ (line, number) :: later))
    (hcommitted : book.table.committed) (hbefore : Contribution.rules book.notations before = [])
    (hrule : (Contribution.ofLine book.notations line).rule = some rule) :
    (book.readLines file (before ++ (line, number) :: later)).failure = some .tableCommitted ∧
      (book.readLines file (before ++ (line, number) :: later)).book =
        book.grown [] (Contribution.diagnostics book.notations file
          (before ++ [(line, number)])) := by
  obtain ⟨hreadable, hothers⟩ := List.forall_mem_append.1 hlines
  obtain ⟨⟨hshort, hline⟩, -⟩ := List.forall_mem_cons.1 hothers
  obtain ⟨hopen, hgrown⟩ := readLines_open file hreadable (.inr hbefore)
  obtain ⟨hf, hb⟩ := readLines_append hopen ((line, number) :: later)
  rw [hf, hb, hgrown, hbefore]
  generalize htold : Contribution.diagnostics book.notations file before = told
  -- The book has read everything before the line and is still in use when it comes to the line.
  have hread : (book.grown [] told).readLine file line number =
      (book.grown [] told).enter file (Contribution.entry book.notations (line, number)) :=
    readLine_of_short hshort hline
  have hstays : (book.grown [] told).table.committed := hcommitted
  have hentry : (Contribution.entry book.notations (line, number)).rule = some rule := hrule
  obtain ⟨hfailure, hbook⟩ := enter_committed file hstays hentry
  rw [← hread] at hfailure hbook
  obtain ⟨hf', hb'⟩ := readLines_stop hfailure later
  rw [hf', hb', hbook, grown_grown, Contribution.diagnostics_append, Contribution.diagnostics_cons,
    htold]
  simp

/-! ### Texts -/

def linesOf (rules : Option Text) : List (Text × Nat) := rules.elim [] Text.numberedLines

variable {rules : Option Text}

theorem read_eq (book : Rulebook) (file : Text) (rules : Option Text) :
    book.read file rules = book.readLines file (worded (linesOf rules)) := by
  cases rules <;> rfl

theorem readable_of_short (h : ∀ numbered ∈ lines, numbered.1.HasShortRuns) :
    Readable (worded lines) := by
  intro numbered hmem
  obtain ⟨hmem, hline⟩ := List.mem_filter.1 hmem
  exact ⟨h numbered hmem, by simpa using hline⟩

theorem readable_worded (h : ∀ text ∈ rules, text.HasShortRuns) :
    Readable (worded (linesOf rules)) := by
  refine readable_of_short fun numbered hmem => ?_
  cases rules with
  | none => cases hmem
  | some text => exact (h text rfl).of_mem_numberedLines hmem

theorem read_open (file : Text) (hshort : ∀ text ∈ rules, text.HasShortRuns)
    (h : book.table.committed = false ∨ Contribution.rules book.notations (linesOf rules) = []) :
    (book.read file rules).failure = none ∧
      (book.read file rules).book = book.grown (Contribution.rules book.notations (linesOf rules))
        (Contribution.diagnostics book.notations file (linesOf rules)) := by
  rw [← Contribution.rules_worded, ← Contribution.diagnostics_worded, read_eq] at *
  exact readLines_open file (readable_worded hshort) h

/-- Of a text with a rule, a book whose table is in use takes what is told up to that rule. -/
theorem read_committed (file : Text) (hshort : ∀ text ∈ rules, text.HasShortRuns)
    (hcommitted : book.table.committed)
    (hlines : linesOf rules = before ++ (line, number) :: later)
    (hbefore : Contribution.rules book.notations before = [])
    (hrule : (Contribution.ofLine book.notations line).rule = some rule) :
    (book.read file rules).failure = some .tableCommitted ∧
      (book.read file rules).book = book.grown []
        (Contribution.diagnostics book.notations file (before ++ [(line, number)])) := by
  have hline : Entry.isIgnorable line = false := by
    by_contra hline
    rw [Contribution.ofLine_ignorable (by simpa using hline)] at hrule
    cases hrule
  have hworded : worded (linesOf rules) = worded before ++ (line, number) :: worded later := by
    rw [hlines]
    simp [worded, hline]
  have hreadable := readable_worded hshort
  rw [read_eq]
  rw [hworded] at *
  rw [← Contribution.rules_worded] at hbefore
  obtain ⟨hfailure, hbook⟩ := readLines_committed file hreadable hcommitted hbefore hrule
  rw [hfailure, hbook, Contribution.diagnostics_append, Contribution.diagnostics_worded,
    ← Contribution.diagnostics_append]
  exact ⟨rfl, rfl⟩

end Rulebook

end PlainForm

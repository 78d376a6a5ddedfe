import PlainForm.Proofs.Contribution

/-!
# The life of a rulebook

Until an enacting finds a rule, a book takes in rules and enacting gives the fallback. From then on
the table of the book is in use and stays as it is. Diagnostics are only ever added at the end.
-/

namespace PlainForm

variable {notations : Notations} {line : Text} {lines : List (Text × Nat)}

/-! ## Lines that are rules -/

def IsRule (notations : Notations) (line : Text) : Prop :=
  ∃ rule, (RuleLine.read notations line).outcome = .ok rule

namespace Contribution

theorem isSome_rule_ofLine : (∃ rule, (ofLine notations line).rule = some rule) ↔
    IsRule notations line := exists_congr fun _ => rule_ofLine

theorem rules_eq_nil : rules notations lines = [] ↔
    ∀ numbered ∈ lines, ¬ IsRule notations numbered.1 := by
  rw [rules, List.filterMap_eq_nil_iff]
  refine forall₂_congr fun numbered _ => ?_
  rw [← isSome_rule_ofLine, ← Option.ne_none_iff_exists', not_not]
  rfl

theorem exists_first (h : ∃ numbered ∈ lines, IsRule notations numbered.1) :
    ∃ before line number later, lines = before ++ (line, number) :: later ∧
      (∀ numbered ∈ before, ¬ IsRule notations numbered.1) ∧ IsRule notations line := by
  induction lines with
  | nil => simp at h
  | cons numbered lines ih =>
    by_cases hrule : IsRule notations numbered.1
    · exact ⟨[], numbered.1, numbered.2, lines, rfl, by simp, hrule⟩
    · obtain ⟨before, line, number, later, rfl, hbefore, hline⟩ := ih (by simpa [hrule] using h)
      exact ⟨numbered :: before, line, number, later, rfl,
        List.forall_mem_cons.2 ⟨hrule, hbefore⟩, hline⟩

end Contribution

/-! ## Deeds -/

inductive Deed where
  | read (file : Text) (rules : Option Text)
  | report (d : Diagnostic)
  | consult
  | enact

inductive Answer where
  | done
  | gaveUp (failure : Failure)
  | told (diagnostics : List Diagnostic)
  | gave (table : Table)

namespace Deed

/-- The deed reads no text with a long numeral. -/
def IsShort : Deed → Prop
  | read _ rules => ∀ text ∈ rules, text.HasShortRuns
  | _ => True

def rules (notations : Notations) : Deed → List Rule
  | read _ rules => Contribution.rules notations (Rulebook.linesOf rules)
  | _ => []

end Deed

namespace Rulebook

variable {book : Rulebook} {deed : Deed} {deeds earlier later : List Deed}

def perform (book : Rulebook) : Deed → Rulebook × Answer
  | .read file rules =>
    let progress := book.read file rules
    (progress.book, progress.failure.elim .done .gaveUp)
  | .report d => (book.report d, .done)
  | .consult => (book, .told book.diagnostics)
  | .enact =>
    let (book, table) := book.enact
    (book, .gave table)

def after (book : Rulebook) (deeds : List Deed) : Rulebook :=
  deeds.foldl (fun book deed => (book.perform deed).1) book

theorem after_cons (book : Rulebook) (deed : Deed) (deeds : List Deed) :
    book.after (deed :: deeds) = (book.perform deed).1.after deeds := rfl

theorem after_append (book : Rulebook) (earlier later : List Deed) :
    book.after (earlier ++ later) = (book.after earlier).after later := List.foldl_append

/-! ### One deed -/

theorem perform_read_open {file : Text} {rules : Option Text}
    (hshort : ∀ text ∈ rules, text.HasShortRuns)
    (h : book.table.committed = false ∨ Contribution.rules book.notations (linesOf rules) = []) :
    book.perform (.read file rules) =
      (book.grown (Contribution.rules book.notations (linesOf rules))
        (Contribution.diagnostics book.notations file (linesOf rules)), .done) := by
  obtain ⟨hfailure, hbook⟩ := read_open file hshort h
  rw [perform, hfailure, hbook]
  rfl

theorem perform_read_through {file : Text} {rules : Option Text}
    (hshort : ∀ text ∈ rules, text.HasShortRuns)
    (hnone : ∀ numbered ∈ linesOf rules, ¬ IsRule book.notations numbered.1) :
    book.perform (.read file rules) =
      (book.grown [] (Contribution.diagnostics book.notations file (linesOf rules)), .done) := by
  have hrules := Contribution.rules_eq_nil.2 hnone
  rw [perform_read_open hshort (.inr hrules), hrules]

theorem perform_read_up_to {file : Text} {rules : Option Text} {number : Nat}
    {before later : List (Text × Nat)} (hshort : ∀ text ∈ rules, text.HasShortRuns)
    (hcommitted : book.table.committed)
    (hlines : linesOf rules = before ++ (line, number) :: later)
    (hbefore : ∀ numbered ∈ before, ¬ IsRule book.notations numbered.1)
    (hline : IsRule book.notations line) :
    book.perform (.read file rules) =
      (book.grown [] (Contribution.diagnostics book.notations file (before ++ [(line, number)])),
        .gaveUp .tableCommitted) := by
  obtain ⟨rule, hrule⟩ := Contribution.isSome_rule_ofLine.2 hline
  have hnone := Contribution.rules_eq_nil.2 hbefore
  obtain ⟨hfailure, hbook⟩ := read_committed file hshort hcommitted hlines hnone hrule
  rw [perform, hfailure, hbook]
  rfl

theorem perform_enact_empty (h : book.table.rules = []) :
    book.perform .enact = (book, .gave .fallback) := by
  rw [perform, enact, if_pos h]

theorem perform_enact (h : book.table.rules ≠ []) :
    book.perform .enact = ({ book with table := book.table.commit }, .gave book.table.commit) := by
  rw [perform, enact, if_neg h]

theorem perform_enact_again {rules : List Rule} (h : book.table = ⟨rules, true⟩)
    (hne : rules ≠ []) : book.perform .enact = (book, .gave ⟨rules, true⟩) := by
  obtain ⟨notations, table, diagnostics⟩ := book
  obtain rfl : table = ⟨rules, true⟩ := h
  exact perform_enact hne

/-- What a deed does to a book: enacting puts a table with rules to use, and any other deed adds
what it tells and, to a table that is not in use, the rules that it reads. -/
theorem perform_cases (book : Rulebook) (hshort : deed.IsShort) :
    (deed = .enact ∧ book.table.rules ≠ [] ∧
        (book.perform deed).1 = { book with table := book.table.commit }) ∨
      (deed = .enact → book.table.rules = []) ∧ ∃ told, (book.perform deed).1 =
        book.grown (if book.table.committed then [] else deed.rules book.notations) told := by
  cases deed with
  | read file rules =>
    refine .inr ⟨by simp, ?_⟩
    cases hcommitted : book.table.committed with
    | false =>
      rw [perform_read_open hshort (.inl hcommitted)]
      exact ⟨_, rfl⟩
    | true =>
      -- How far a book in use comes depends on whether there is a rule to stop it.
      by_cases hrule : ∃ numbered ∈ linesOf rules, IsRule book.notations numbered.1
      · obtain ⟨before, line, number, later, hlines, hbefore, hline⟩ :=
          Contribution.exists_first hrule
        rw [perform_read_up_to hshort hcommitted hlines hbefore hline]
        exact ⟨_, rfl⟩
      · rw [perform_read_through hshort fun numbered hmem hline => hrule ⟨numbered, hmem, hline⟩]
        exact ⟨_, rfl⟩
  | report d =>
    refine .inr ⟨by simp, [d], ?_⟩
    simp [perform, Rulebook.report, grown, Deed.rules]
  | consult =>
    refine .inr ⟨by simp, [], ?_⟩
    simp [perform, Deed.rules]
  | enact =>
    by_cases hrules : book.table.rules = []
    · refine .inr ⟨fun _ => hrules, [], ?_⟩
      simp [perform_enact_empty hrules, Deed.rules]
    · exact .inl ⟨rfl, hrules, by rw [perform_enact hrules]⟩

theorem notations_perform (hshort : deed.IsShort) :
    (book.perform deed).1.notations = book.notations := by
  rcases book.perform_cases hshort with ⟨-, -, heq⟩ | ⟨-, told, heq⟩
  · rw [heq]
  · rw [heq, notations_grown]

theorem diagnostics_perform (hshort : deed.IsShort) :
    book.diagnostics <+: (book.perform deed).1.diagnostics := by
  rcases book.perform_cases hshort with ⟨-, -, heq⟩ | ⟨-, told, heq⟩
  · have hkept : (book.perform deed).1.diagnostics = book.diagnostics := by rw [heq]
    exact hkept ▸ List.prefix_rfl
  · rw [heq]
    exact List.prefix_append book.diagnostics told

theorem table_perform_open (hshort : deed.IsShort) (hopen : book.table.committed = false)
    (henact : deed = .enact → book.table.rules = []) :
    (book.perform deed).1.table = ⟨book.table.rules ++ deed.rules book.notations, false⟩ := by
  rcases book.perform_cases hshort with ⟨hdeed, hrules, -⟩ | ⟨-, told, heq⟩
  · exact absurd (henact hdeed) hrules
  · rw [heq, hopen]
    simp [grown, hopen]

theorem table_perform_committed (hshort : deed.IsShort) (hcommitted : book.table.committed) :
    (book.perform deed).1.table = book.table := by
  rcases book.perform_cases hshort with ⟨-, -, heq⟩ | ⟨-, told, heq⟩
  · rw [heq, Table.commit, ← hcommitted]
  · rw [heq, if_pos hcommitted]
    simp [grown]

/-! ### Many deeds -/

theorem notations_after (hshort : ∀ deed ∈ deeds, deed.IsShort) :
    (book.after deeds).notations = book.notations := by
  induction deeds generalizing book with
  | nil => rfl
  | cons deed deeds ih =>
    obtain ⟨hdeed, hdeeds⟩ := List.forall_mem_cons.1 hshort
    rw [after_cons, ih hdeeds, notations_perform hdeed]

theorem diagnostics_after (hshort : ∀ deed ∈ deeds, deed.IsShort) :
    book.diagnostics <+: (book.after deeds).diagnostics := by
  induction deeds generalizing book with
  | nil => exact List.prefix_rfl
  | cons deed deeds ih =>
    obtain ⟨hdeed, hdeeds⟩ := List.forall_mem_cons.1 hshort
    exact (diagnostics_perform hdeed).trans (ih hdeeds)

theorem table_after_committed (hshort : ∀ deed ∈ deeds, deed.IsShort)
    (hcommitted : book.table.committed) : (book.after deeds).table = book.table := by
  induction deeds generalizing book with
  | nil => rfl
  | cons deed deeds ih =>
    obtain ⟨hdeed, hdeeds⟩ := List.forall_mem_cons.1 hshort
    have htable := table_perform_committed hdeed hcommitted
    rw [after_cons, ih hdeeds (htable ▸ hcommitted), htable]

/-- Whenever a book was enacted, its table was empty. -/
def FindsNoRule (book : Rulebook) (deeds : List Deed) : Prop :=
  ∀ earlier later, deeds = earlier ++ .enact :: later → (book.after earlier).table.rules = []

def rulesRead (notations : Notations) (deeds : List Deed) : List Rule :=
  deeds.flatMap (Deed.rules notations)

theorem table_after_open (hshort : ∀ deed ∈ deeds, deed.IsShort)
    (hopen : book.table.committed = false) (hnone : book.FindsNoRule deeds) :
    (book.after deeds).table = ⟨book.table.rules ++ rulesRead book.notations deeds, false⟩ := by
  induction deeds generalizing book with
  | nil => simp [after, rulesRead, ← hopen]
  | cons deed deeds ih =>
    obtain ⟨hdeed, hdeeds⟩ := List.forall_mem_cons.1 hshort
    have htable := table_perform_open hdeed hopen fun henact => hnone [] deeds (henact ▸ rfl)
    rw [after_cons, ih hdeeds (by rw [htable]) ?_, htable, notations_perform hdeed]
    · simp [rulesRead]
    · rintro earlier later rfl
      exact hnone (deed :: earlier) later rfl

/-! ## The two times of life -/

/-- The book holds the rules and takes more. Enacting it without rules changes nothing. -/
structure TakesRules (book : Rulebook) (rules : List Rule) : Prop where
  table : book.table = ⟨rules, false⟩
  enact : rules = [] → book.perform .enact = (book, .gave .fallback)
  read : ∀ file text, (∀ t ∈ text, Text.HasShortRuns t) → book.perform (.read file text) =
    (book.grown (Contribution.rules book.notations (linesOf text))
      (Contribution.diagnostics book.notations file (linesOf text)), .done)

/-- The book holds the rules and takes no more. It gives up at the first line that is a rule, and
what stands behind that line is not read. -/
structure IsInUse (book : Rulebook) (rules : List Rule) : Prop where
  table : book.table = ⟨rules, true⟩
  enact : book.perform .enact = (book, .gave ⟨rules, true⟩)
  gives_up : ∀ file text, (∀ t ∈ text, Text.HasShortRuns t) →
    ((book.perform (.read file text)).2 = .gaveUp .tableCommitted ↔
      ∃ numbered ∈ linesOf text, IsRule book.notations numbered.1)
  read_up_to : ∀ file text before line number later, (∀ t ∈ text, Text.HasShortRuns t) →
    linesOf text = before ++ (line, number) :: later →
    (∀ numbered ∈ before, ¬ IsRule book.notations numbered.1) → IsRule book.notations line →
    (book.perform (.read file text)).1 =
      book.grown [] (Contribution.diagnostics book.notations file (before ++ [(line, number)]))
  read_through : ∀ file text, (∀ t ∈ text, Text.HasShortRuns t) →
    (∀ numbered ∈ linesOf text, ¬ IsRule book.notations numbered.1) →
    book.perform (.read file text) =
      (book.grown [] (Contribution.diagnostics book.notations file (linesOf text)), .done)

theorem takesRules_of_table {rules : List Rule} (h : book.table = ⟨rules, false⟩) :
    book.TakesRules rules where
  table := h
  enact := by
    intro hnone
    exact perform_enact_empty (by rw [h]; exact hnone)
  read := by
    intro file text hshort
    exact perform_read_open hshort (.inl (by rw [h]))

theorem isInUse_of_table {rules : List Rule} (h : book.table = ⟨rules, true⟩) (hne : rules ≠ []) :
    book.IsInUse rules := by
  have hcommitted : book.table.committed = true := by rw [h]
  refine ⟨h, perform_enact_again h hne, ?_, ?_, fun _ _ => perform_read_through⟩
  · intro file text hshort
    constructor
    · intro hanswer
      by_contra hrule
      rw [perform_read_through hshort fun numbered hmem hline => hrule ⟨numbered, hmem, hline⟩]
        at hanswer
      cases hanswer
    · intro hrule
      obtain ⟨before, line, number, later, hlines, hbefore, hline⟩ :=
        Contribution.exists_first hrule
      rw [perform_read_up_to hshort hcommitted hlines hbefore hline]
  · intro file text before line number later hshort hlines hbefore hline
    rw [perform_read_up_to hshort hcommitted hlines hbefore hline]

/-! ### The whole life -/

/-- Diagnostics only grow at their end. Until an enacting finds a rule the book takes rules, all
those that are read. From then on it is in use, with the rules that enacting found, whatever is done
later. -/
theorem life_cycle (notations : Notations) (deeds : List Deed)
    (hshort : ∀ deed ∈ deeds, deed.IsShort) :
    let book := after { notations } deeds
    book.notations = notations ∧
    (∀ before later, deeds = before ++ later →
      (after { notations } before).diagnostics <+: book.diagnostics) ∧
    (FindsNoRule { notations } deeds → book.TakesRules (rulesRead notations deeds)) ∧
    (∀ before later, deeds = before ++ .enact :: later → FindsNoRule { notations } before →
      (after { notations } before).table.rules ≠ [] →
      ((after { notations } before).perform .enact).2 = .gave ⟨rulesRead notations before, true⟩ ∧
        book.IsInUse (rulesRead notations before)) := by
  refine ⟨notations_after hshort, ?_, ?_, ?_⟩
  · rintro before later rfl
    rw [after_append]
    exact diagnostics_after fun deed hmem => hshort deed (List.mem_append_right before hmem)
  · intro hnone
    have htable := table_after_open hshort rfl hnone
    exact takesRules_of_table htable
  · rintro before later rfl hnone hne
    obtain ⟨hbefore, hothers⟩ := List.forall_mem_append.1 hshort
    obtain ⟨-, hlater⟩ := List.forall_mem_cons.1 hothers
    have htable : (after { notations } before).table = ⟨rulesRead notations before, false⟩ :=
      table_after_open hbefore rfl hnone
    have henact := perform_enact hne
    -- The rules are those of the table that is put to use, which no later deed changes.
    rw [htable] at hne
    refine ⟨by rw [henact, htable]; rfl, isInUse_of_table ?_ hne⟩
    have hcommitted : ((after { notations } before).perform .enact).1.table =
        ⟨rulesRead notations before, true⟩ := by
      rw [henact, htable]
      rfl
    rw [after_append, after_cons, table_after_committed hlater (by rw [hcommitted]), hcommitted]

/-- A book that is enacted too early, put to use with one rule, and given another one too late. -/
theorem life_cycle_too_early_and_too_late :
    let before : List Deed := [.enact, .read "a" (some "accept 65\nbogus"),
      .report { problem := .remark "note" }]
    let later : List Deed := [.read "b" (some "bogus\naccept 66\nbogus"), .consult]
    let book := after {} (before ++ .enact :: later)
    (∀ deed ∈ before ++ .enact :: later, deed.IsShort) ∧ FindsNoRule {} before ∧
      ((after {} before).perform .enact).2 = .gave ⟨[⟨.accept, .sequence [65], none⟩], true⟩ ∧
      book.IsInUse [⟨.accept, .sequence [65], none⟩] ∧
      book.diagnostics.map (fun d => (d.file, d.lineNumber)) =
        ([(some "a", some 2), (none, none), (some "b", some 1)] :
          List (Option Text × Option Int)) := by
  intro before later book
  have hshort : ∀ deed ∈ before ++ .enact :: later, deed.IsShort := by
    simp only [before, later, List.cons_append, List.nil_append, List.forall_mem_cons]
    refine ⟨trivial, ?_, trivial, trivial, ?_, trivial, by simp⟩
    · rintro text ⟨⟩
      exact Text.hasShortRuns_of_length (by decide)
    · rintro text ⟨⟩
      exact Text.hasShortRuns_of_length (by decide)
  have hnone : FindsNoRule {} before := by
    -- The first deed is the only enacting.
    intro earlier later h
    rcases earlier with _ | ⟨_, _ | ⟨_, _ | ⟨_, _⟩⟩⟩
    · rfl
    · simp [before] at h
    · simp [before] at h
    · simp [before] at h
  have hrules : rulesRead {} before = [⟨.accept, .sequence [65], none⟩] := by decide +kernel
  have hne : (after {} before).table.rules ≠ [] := by
    rw [table_after_open (List.forall_mem_append.1 hshort).1 rfl hnone]
    exact hrules ▸ List.cons_ne_nil _ _
  obtain ⟨-, -, -, hinUse⟩ := life_cycle {} (before ++ .enact :: later) hshort
  obtain ⟨hanswer, huse⟩ := hinUse before later rfl hnone hne
  rw [hrules] at hanswer huse
  refine ⟨hshort, hnone, hanswer, huse, ?_⟩
  decide +kernel

end Rulebook

end PlainForm

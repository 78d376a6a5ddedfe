import PlainForm.Proofs.Contribution
import PlainForm.Proofs.RuleLine.Told

/-!
# Mistakes do not spread

Every line that holds more than a comment gives one rule or tells one mistake. What is told names
the line, and a mistake in one line changes nothing in what comes of the others.
-/

namespace PlainForm

variable {notations : Notations} {line file : Text} {lines : List (Text × Nat)}

/-! ## What is told of a line -/

namespace Problem

def isMistake : Problem → Bool
  | mistake _ => true
  | _ => false

theorem not_mistake_of_decoding {p : Problem} (h : p.isDecoding) : ¬ p.isMistake := by
  cases p with
  | mistake => cases h
  | _ => simp [isMistake]

end Problem

theorem Told.isDecoding {t left : Text} {problems : List Problem}
    (h : Told notations t problems left) : ∀ p ∈ problems, p.isDecoding := by
  induction h with
  | nothing => simp
  | quoted _ _ decoded _ ih =>
    intro p hp
    rcases List.mem_append.1 hp with hp | hp
    · exact Text.isDecoding_decode decoded p hp
    · exact ih p hp

theorem Told.countP_isMistake {t left : Text} {problems : List Problem}
    (h : Told notations t problems left) : problems.countP Problem.isMistake = 0 :=
  List.countP_eq_zero.2 fun p hp => Problem.not_mistake_of_decoding (h.isDecoding p hp)

/-- How a line comes out. Besides a mistake, which is told last, only the problems of its quoted
strings are told. -/
inductive Contribution.IsOf (notations : Notations) (line : Text) : Contribution → Prop where
  | nothing (ignorable : Entry.isIgnorable line) : IsOf notations line {}
  | rule {rule problems left} (worded : ¬ Entry.isIgnorable line)
      (read : (RuleLine.read notations line).outcome = .ok rule)
      (told : Told notations line problems left) (ends : Token.endsHere left) :
      IsOf notations line ⟨some rule, problems⟩
  | mistake {m problems left} (worded : ¬ Entry.isIgnorable line)
      (read : (RuleLine.read notations line).outcome = .error (.mistake m))
      (told : Told notations line problems left) :
      IsOf notations line ⟨none, problems ++ [.mistake m]⟩

namespace Contribution

theorem isOf_ofLine (notations : Notations) (hshort : line.HasShortRuns) :
    (ofLine notations line).IsOf notations line := by
  by_cases hline : Entry.isIgnorable line
  · rw [ofLine_ignorable hline]
    exact .nothing hline
  · rw [ofLine_worded hline, ofReading]
    have htells := RuleLine.read_tells notations line
    rcases RuleLine.read_rule_or_mistake notations hshort with ⟨rule, houtcome⟩ | ⟨m, houtcome⟩
    · obtain ⟨left, hends, htold⟩ := htells.ok rule houtcome
      rw [houtcome]
      exact .rule hline houtcome htold hends
    · obtain ⟨left, htold⟩ := htells.error _ houtcome
      rw [houtcome]
      exact .mistake hline houtcome htold

/-- A line that is not ignorable gives a rule or tells a mistake, and never both. -/
theorem IsOf.count {c : Contribution} (h : c.IsOf notations line) :
    c.rule.toList.length + c.problems.countP Problem.isMistake =
      if Entry.isIgnorable line then 0 else 1 := by
  cases h with
  | nothing hline => simp [hline]
  | rule hline _ htold _ => simp [hline, htold.countP_isMistake]
  | mistake hline _ htold => simp [hline, htold.countP_isMistake, Problem.isMistake]

/-! ## What is told of a text -/

theorem count_worded (hshort : ∀ numbered ∈ lines, numbered.1.HasShortRuns) :
    (rules notations lines).length +
        (diagnostics notations file lines).countP (·.problem.isMistake) =
      lines.countP fun numbered => !Entry.isIgnorable numbered.1 := by
  induction lines with
  | nil => rfl
  | cons numbered lines ih =>
    obtain ⟨hline, hlines⟩ := List.forall_mem_cons.1 hshort
    have hcount := (isOf_ofLine notations hline).count
    have hmistakes : ((entry notations numbered).diagnostics file).countP (·.problem.isMistake) =
        (ofLine notations numbered.1).problems.countP Problem.isMistake := List.countP_map
    have hrule : (entry notations numbered).rule = (ofLine notations numbered.1).rule := rfl
    rw [rules_cons, diagnostics_cons, List.length_append, List.countP_append, hmistakes, hrule,
      List.countP_cons, ← ih hlines]
    cases hignorable : Entry.isIgnorable numbered.1 <;>
      simp only [hignorable, Bool.not_true, Bool.not_false, Bool.false_eq_true, ite_true,
        ite_false] at hcount ⊢ <;> omega

theorem mem_diagnostics {d : Diagnostic} (h : d ∈ diagnostics notations file lines) :
    ∃ numbered ∈ lines, d.file = some file ∧ d.lineNumber = some (numbered.2 : Int) ∧
      d.line = some numbered.1 := by
  obtain ⟨numbered, hmem, hd⟩ := List.mem_flatMap.1 h
  obtain ⟨p, -, rfl⟩ := List.mem_map.1 hd
  exact ⟨numbered, hmem, rfl, rfl, rfl⟩

theorem lineNumber_le {a b : Text × Nat} (h : a.2 ≤ b.2) {d e : Diagnostic}
    (hd : d ∈ (entry notations a).diagnostics file)
    (he : e ∈ (entry notations b).diagnostics file) :
    ∀ m ∈ d.lineNumber, ∀ n ∈ e.lineNumber, m ≤ n := by
  obtain ⟨p, -, rfl⟩ := List.mem_map.1 hd
  obtain ⟨q, -, rfl⟩ := List.mem_map.1 he
  rintro m ⟨⟩ n ⟨⟩
  exact Int.ofNat_le.2 h

theorem pairwise_diagnostics (h : lines.Pairwise fun a b => a.2 ≤ b.2) :
    (diagnostics notations file lines).Pairwise fun d e =>
      ∀ m ∈ d.lineNumber, ∀ n ∈ e.lineNumber, m ≤ n := by
  refine List.pairwise_flatMap.2 ⟨fun a _ => ?_, h.imp fun hab d hd e he => lineNumber_le hab hd he⟩
  exact List.pairwise_of_forall_mem_list fun d hd e he => lineNumber_le (Nat.le_refl a.2) hd he

end Contribution

namespace Text

theorem pairwise_numberedLines (t : Text) : t.numberedLines.Pairwise fun a b => a.2 ≤ b.2 := by
  have hnumbers : t.numberedLines.map Prod.snd = List.range' 1 t.lines.length :=
    List.zipIdx_map_snd 1 t.lines
  have hrange : (List.range' 1 t.lines.length).Pairwise (· ≤ ·) :=
    List.pairwise_le_range'
  rw [← hnumbers] at hrange
  exact List.pairwise_map.1 hrange

theorem map_fst_numberedLines (t : Text) : t.numberedLines.map Prod.fst = t.lines :=
  List.zipIdx_map_fst 1 t.lines

end Text

/-! ## The book -/

/-- A book that is not in use reads any text to its end. It takes the rules of the good lines, in
the order of the lines, and tells of every other line what is wrong with it. What a line contributes
is found without looking at the book or at other lines. -/
theorem Rulebook.read_recovers (book : Rulebook) (file rules : Text)
    (hopen : book.table.committed = false) (hshort : rules.HasShortRuns) :
    let added := Contribution.rules book.notations rules.numberedLines
    let told := Contribution.diagnostics book.notations file rules.numberedLines
    (book.read file (some rules)).failure = none ∧
      (book.read file (some rules)).book =
        { book with
          table := ⟨book.table.rules ++ added, false⟩
          diagnostics := book.diagnostics ++ told } ∧
      (∀ line ∈ rules.lines, (Contribution.ofLine book.notations line).IsOf book.notations line) ∧
      added.length + told.countP (·.problem.isMistake) =
        rules.lines.countP (fun line => !Entry.isIgnorable line) ∧
      (∀ d ∈ told, d.file = some file ∧ ∃ number : Nat, d.lineNumber = some (number : Int) ∧
        1 ≤ number ∧ number ≤ rules.lines.length ∧ d.line = rules.lines[number - 1]?) ∧
      told.Pairwise (fun d e => ∀ m ∈ d.lineNumber, ∀ n ∈ e.lineNumber, m ≤ n) := by
  intro added told
  have hrules : ∀ text ∈ some rules, text.HasShortRuns := by
    intro text htext
    exact Option.some.inj htext ▸ hshort
  obtain ⟨hfailure, hbook⟩ := read_open file hrules (.inl hopen)
  have hlines : ∀ numbered ∈ rules.numberedLines, numbered.1.HasShortRuns := fun _ hmem =>
    hshort.of_mem_numberedLines hmem
  refine ⟨hfailure, ?_, ?_, ?_, ?_, ?_⟩
  · rw [hbook, ← hopen]
    rfl
  · exact fun line hline => Contribution.isOf_ofLine book.notations (hshort.of_mem_lines hline)
  · rw [Contribution.count_worded hlines, ← Text.map_fst_numberedLines rules, List.countP_map]
    rfl
  · intro d hd
    obtain ⟨⟨line, number⟩, hmem, hfile, hnumber, hline⟩ := Contribution.mem_diagnostics hd
    obtain ⟨hpos, hle, hget⟩ := Text.getElem?_of_mem_zipIdx hmem
    exact ⟨hfile, number, hnumber, hpos, hle, hline.trans hget.symm⟩
  · exact Contribution.pairwise_diagnostics rules.pairwise_numberedLines

/-- Two good lines and two mistakes, each with words, an empty line or a quoted string near it. -/
theorem Rulebook.read_recovers_two_mistakes :
    let book : Rulebook := ⟨⟨true, true⟩, ⟨[⟨.accept, .range 0x20 0x40, none⟩], false⟩,
      [{ problem := .remark "before" }]⟩
    let rules : Text := "# words\ndelete \"\\q\" 65\nbogus 65\n\naccept \"&no;\" = 3\n" ++
      "accept 0x41..90 # capitals"
    book.table.committed = false ∧ rules.HasShortRuns ∧
      (book.read "rules.txt" (some rules)).failure = none ∧
      (book.read "rules.txt" (some rules)).book =
        { book with
          table := ⟨book.table.rules ++ [⟨.replace, .sequence [0x5C, 0x71, 65], some []⟩,
            ⟨.accept, .range 0x41 90, none⟩], false⟩
          diagnostics := book.diagnostics ++ [
            ⟨.unknownEscape "\\q", some "rules.txt", some 2, some "delete \"\\q\" 65"⟩,
            ⟨.mistake (.unknownVerb "bogus"), some "rules.txt", some 3, some "bogus 65"⟩,
            ⟨.unknownEntity "&no;", some "rules.txt", some 5, some "accept \"&no;\" = 3"⟩,
            ⟨.mistake (.unexpected "= 3"), some "rules.txt", some 5,
              some "accept \"&no;\" = 3"⟩] } := by
  intro book rules
  have hshort : rules.HasShortRuns := Text.hasShortRuns_of_length (by decide)
  obtain ⟨hfailure, hbook, -⟩ := Rulebook.read_recovers book "rules.txt" rules rfl hshort
  refine ⟨rfl, hshort, hfailure, hbook.trans ?_⟩
  decide +kernel

end PlainForm

import PlainForm.Proofs.Decode.Notations
import PlainForm.Proofs.Decode.Pairing

/-!
# One pass is a scan and then pairing

A step of the pass is a step of the scan, and the scan has no other. So the numbers that the pass
goes through are those of the one scan of its units, and what it settles is their pairing.
-/

namespace PlainForm

/-! ## Where a notation begins -/

theorem Reference.Spells.exists_body {written : Text} {char : CodePoint}
    (h : Reference.Spells written char) : ∃ body, written = Reference.ampersand :: body := by
  cases h <;> exact ⟨_, rfl⟩

theorem Escape.Spells.exists_body {written rest : Text} {char : CodePoint}
    (h : Escape.Spells written rest char) : ∃ body, written = Escape.backslash :: body := by
  cases h <;> exact ⟨_, rfl⟩

theorem Reference.Spells.length_pos {body : Text} {char : CodePoint}
    (h : Reference.Spells (Reference.ampersand :: body) char) : 0 < body.length := by
  cases h with
  | named => simp
  | numeric hwrites => cases hwrites <;> simp

theorem Escape.Spells.length_pos {body rest : Text} {char : CodePoint}
    (h : Escape.Spells (Escape.backslash :: body) rest char) : 0 < body.length := by
  cases h with
  | letter | doubled | hexadecimal => simp
  | octal nonempty => exact List.length_pos_iff.2 nonempty

namespace Decode

variable {notations : Notations} {unit : CodePoint} {rest : Text} {s : Step}

theorem step_ampersand (on : notations.xml) :
    step notations Reference.ampersand rest = Reference.step rest := by
  rw [step, if_pos ⟨rfl, on⟩]

theorem step_backslash (on : notations.backslash) :
    step notations Escape.backslash rest = .ok (Escape.step rest) := by
  rw [step, if_neg (fun h => absurd h.1 (by decide)), if_pos ⟨rfl, on⟩]

theorem step_literal (no_reference : notations.xml → unit ≠ Reference.ampersand)
    (no_escape : notations.backslash → unit ≠ Escape.backslash) :
    step notations unit rest = .ok { char := unit } := by
  rw [step, if_neg (fun h => no_reference h.2 h.1), if_neg (fun h => no_escape h.2 h.1)]

theorem step_of_not_begins (on : notations.xml)
    (h : ¬ Reference.Begins notations (Reference.ampersand :: rest))
    (hs : Reference.step rest = .ok s) : s = Reference.unread rest := by
  refine Reference.step_of_not_spells ?_ hs
  rintro body tail char rfl hspells
  exact h ⟨on, Reference.ampersand :: body, tail, char, rfl, hspells⟩

theorem escape_of_not_begins (on : notations.backslash)
    (h : ¬ Escape.Begins notations (Escape.backslash :: rest)) :
    Escape.step rest = Escape.unread rest := by
  unfold Escape.step
  cases hr : Escape.read? rest with
  | none => rfl
  | some s =>
    obtain ⟨body, tail, rfl, hspells⟩ := Escape.spells_of_read? hr
    exact absurd ⟨on, Escape.backslash :: body, tail, s.char, rfl, hspells⟩ h

/-! ## Steps of the scan -/

theorem scan_cons (h : step notations unit rest = .ok s) {numbers : Text} {problems : List Problem}
    (later : Scan notations (rest.drop s.tail) numbers problems) :
    Scan notations (unit :: rest) (s.char :: numbers) (s.problem.toList ++ problems) := by
  by_cases hx : notations.xml ∧ unit = Reference.ampersand
  · obtain ⟨on, rfl⟩ := hx
    rw [step_ampersand on] at h
    by_cases hb : Reference.Begins notations (Reference.ampersand :: rest)
    · obtain ⟨-, written, tail, char, hw, hspells⟩ := hb
      obtain ⟨body, rfl⟩ := hspells.exists_body
      obtain rfl : rest = body ++ tail := (List.cons.inj hw).2
      obtain rfl := Reference.step_of_spells hspells h
      rw [List.drop_left] at later
      exact .reference on hspells later
    · obtain rfl := step_of_not_begins on hb h
      exact .noReference on hb later
  · by_cases he : notations.backslash ∧ unit = Escape.backslash
    · obtain ⟨on, rfl⟩ := he
      rw [step_backslash on] at h
      injection h with h
      subst h
      by_cases hb : Escape.Begins notations (Escape.backslash :: rest)
      · obtain ⟨-, written, tail, char, hw, hspells⟩ := hb
        obtain ⟨body, rfl⟩ := hspells.exists_body
        obtain rfl : rest = body ++ tail := (List.cons.inj hw).2
        rw [Escape.step, Escape.read?_of_spells hspells, Option.getD_some] at later ⊢
        rw [List.drop_left] at later
        exact .escape on hspells later
      · rw [escape_of_not_begins on hb] at later ⊢
        exact .noEscape on hb later
    · have hliteral : step notations unit rest = .ok { char := unit } :=
        step_literal (fun on hu => hx ⟨on, hu⟩) fun on hu => he ⟨on, hu⟩
      rw [hliteral] at h
      injection h with h
      subst h
      exact .literal (fun on hu => hx ⟨on, hu⟩) (fun on hu => he ⟨on, hu⟩) later

theorem scan_cons_inv {units numbers : Text} {problems : List Problem}
    (h : Scan notations units numbers problems) (hu : units = unit :: rest)
    (hs : step notations unit rest = .ok s) :
    ∃ numbers' problems', numbers = s.char :: numbers' ∧ problems = s.problem.toList ++ problems' ∧
      Scan notations (rest.drop s.tail) numbers' problems' := by
  cases h with
  | nil => cases hu
  | @reference _ tail _ _ _ on hspells later =>
    obtain ⟨body, rfl⟩ := hspells.exists_body
    obtain rfl : Reference.ampersand = unit := (List.cons.inj hu).1
    obtain rfl : body ++ tail = rest := (List.cons.inj hu).2
    rw [step_ampersand on] at hs
    obtain rfl := Reference.step_of_spells hspells hs
    exact ⟨_, _, rfl, rfl, by rw [List.drop_left]; exact later⟩
  | @escape _ tail _ _ _ on hspells later =>
    obtain ⟨body, rfl⟩ := hspells.exists_body
    obtain rfl : Escape.backslash = unit := (List.cons.inj hu).1
    obtain rfl : body ++ tail = rest := (List.cons.inj hu).2
    rw [step_backslash on, Escape.step, Escape.read?_of_spells hspells] at hs
    cases hs
    exact ⟨_, _, rfl, rfl, by rw [Option.getD_some, List.drop_left]; exact later⟩
  | noReference on hb later =>
    obtain ⟨rfl, rfl⟩ := List.cons.inj hu
    rw [step_ampersand on] at hs
    obtain rfl := step_of_not_begins on hb hs
    exact ⟨_, _, rfl, rfl, later⟩
  | noEscape on hb later =>
    obtain ⟨rfl, rfl⟩ := List.cons.inj hu
    rw [step_backslash on, escape_of_not_begins on hb] at hs
    cases hs
    exact ⟨_, _, rfl, rfl, later⟩
  | literal no_reference no_escape later =>
    obtain ⟨rfl, rfl⟩ := List.cons.inj hu
    rw [step_literal no_reference no_escape] at hs
    cases hs
    exact ⟨_, _, rfl, rfl, later⟩

theorem scan_nil_inv {units numbers : Text} {problems : List Problem}
    (h : Scan notations units numbers problems) (hu : units = []) :
    numbers = [] ∧ problems = [] := by
  cases h with
  | nil => exact ⟨rfl, rfl⟩
  | reference _ hspells _ | escape _ hspells _ =>
    obtain ⟨body, rfl⟩ := hspells.exists_body
    cases hu
  | noReference _ _ _ | noEscape _ _ _ | literal _ _ _ => cases hu

theorem scan_problems {units numbers : Text} {problems : List Problem}
    (h : Scan notations units numbers problems) : ∀ p ∈ problems, p.isNotation := by
  have hreference : ∀ rest, (Reference.problem rest).isNotation := by
    intro rest
    unfold Reference.problem
    dsimp only
    split <;> rfl
  have hescape : ∀ rest, (Escape.problem rest).isNotation := by
    intro rest
    unfold Escape.problem
    dsimp only
    split <;> rfl
  induction h with
  | nil => simp
  | reference _ _ _ ih | escape _ _ _ ih | literal _ _ _ ih => exact ih
  | noReference _ _ _ ih => simpa [hreference] using ih
  | noEscape _ _ _ ih => simpa [hescape] using ih

theorem not_unpaired_of_notation {p : Problem} (h : p.isNotation) : p.isUnpaired = false := by
  cases p <;> first | rfl | cases h

/-! ## The pass -/

theorem run_congr {notations' : Notations} {pending : Option CodePoint} {units : Text}
    (h : ∀ unit ∈ units, ∀ rest, step notations unit rest = step notations' unit rest) :
    run notations pending units = run notations' pending units := by
  fun_induction run notations pending units with
  | case1 pending => rw [run]
  | case2 pending unit rest ih =>
    rw [run.eq_2, h unit List.mem_cons_self]
    refine congrArg _ (funext fun s => ?_)
    dsimp only
    rw [ih s fun v hv => h v (List.mem_cons_of_mem _ (List.mem_of_mem_drop hv))]

/-- The high surrogate that waits is the first of the numbers to be paired. -/
theorem run_eq_scan_then_pair (pending : Option CodePoint) {units : Text} {noted : Noted Text}
    (hw : CanWait pending) (h : run notations pending units = .ok noted) :
    ∃ numbers problems, (∀ numbers' problems', Scan notations units numbers' problems' ↔
        numbers' = numbers ∧ problems' = problems) ∧
      noted.value = Text.join .questionMark (pending.toList ++ numbers) ∧
      noted.problems.filter Problem.isUnpaired = Text.lonelyProblems (pending.toList ++ numbers) ∧
      noted.problems.filter (!·.isUnpaired) = problems := by
  induction pending, units using run.induct generalizing noted with
  | case1 pending =>
    rw [run] at h
    cases h
    refine ⟨[], [], fun numbers' problems' => ⟨fun hscan => scan_nil_inv hscan rfl, ?_⟩, ?_⟩
    · rintro ⟨rfl, rfl⟩
      exact .nil
    · cases pending with
      | none => exact ⟨rfl, rfl, rfl⟩
      | some high =>
        have hhigh := hw high rfl
        have hsur : high.isSurrogate := CodePoint.isSurrogate_iff_high_or_low.2 (.inl hhigh)
        simp [unpaired, Text.join, Text.paired, hsur, Text.lonelyProblems,
          CodePoint.lonelyProblems, hhigh, Problem.isUnpaired]
  | case2 pending unit rest ih =>
    obtain ⟨s, later, hs, hl, rfl⟩ := run_cons_eq_ok.1 h
    obtain ⟨numbers, problems, hscan, hvalue, hlonely, hrest⟩ :=
      ih s (canWait_settle pending s) hl
    have hlater := scan_cons hs ((hscan _ _).2 ⟨rfl, rfl⟩)
    obtain ⟨lonely, hproblems, hsplit, hlone⟩ := problems_settle hw s numbers
    have hown : ∀ p ∈ s.problem.toList, p.isUnpaired = false := by
      intro p hp
      exact not_unpaired_of_notation (scan_problems hlater p (List.mem_append_left _ hp))
    refine ⟨s.char :: numbers, s.problem.toList ++ problems, ?_, ?_, ?_, ?_⟩
    · intro numbers' problems'
      constructor
      · intro h'
        obtain ⟨n, ps, rfl, rfl, hn⟩ := scan_cons_inv h' rfl hs
        obtain ⟨rfl, rfl⟩ := (hscan n ps).1 hn
        exact ⟨rfl, rfl⟩
      · rintro ⟨rfl, rfl⟩
        exact hlater
    · rw [join_settle hw, hvalue]
    · rw [hsplit, ← hlonely, hproblems, List.filter_append, List.filter_append,
        List.filter_eq_nil_iff.2 (by simpa using hown), List.filter_eq_self.2 hlone,
        List.nil_append]
    · rw [hproblems, List.filter_append, List.filter_append, hrest,
        List.filter_eq_self.2 (by simpa using hown),
        List.filter_eq_nil_iff.2 (by simpa using hlone), List.append_nil]

/-! ## What decoding gives -/

theorem isDecoding_of_run {pending : Option CodePoint} {units : Text} {noted : Noted Text}
    (hw : CanWait pending) (h : run notations pending units = .ok noted) :
    ∀ p ∈ noted.problems, p.isDecoding := by
  obtain ⟨numbers, problems, hscan, -, -, hrest⟩ := run_eq_scan_then_pair pending hw h
  intro p hp
  cases hu : p.isUnpaired with
  | true => simp [Problem.isDecoding, hu]
  | false =>
    have hmem : p ∈ noted.problems.filter (!·.isUnpaired) := by simp [hp, hu]
    rw [hrest] at hmem
    simp [Problem.isDecoding, scan_problems ((hscan _ _).2 ⟨rfl, rfl⟩) p hmem]

end Decode

namespace Text

variable {notations : Notations} {t : Text} {noted : Noted Text}

theorem isScalar_join {substitute : CodePoint} (h : ¬ substitute.isSurrogate) (units : Text) :
    (units.join substitute).IsScalar := by
  intro c hc
  obtain ⟨d, -, rfl⟩ := List.mem_map.1 hc
  split
  · exact h
  · assumption

theorem isScalar_decode (h : t.decode notations = .ok noted) : noted.value.IsScalar := by
  obtain ⟨numbers, problems, -, hvalue, -⟩ :=
    Decode.run_eq_scan_then_pair none (by simp [Decode.CanWait]) h
  rw [hvalue]
  exact isScalar_join (by decide) numbers

theorem isDecoding_decode (h : t.decode notations = .ok noted) :
    ∀ p ∈ noted.problems, p.isDecoding :=
  Decode.isDecoding_of_run (by simp [Decode.CanWait]) h

end Text

/-- A text that can be decoded has one scan. Its code points are those of the scan, paired up; the
surrogates of the scan that stand alone are told, each with what follows it; and so is each notation
that the scan could not read. -/
theorem decode_eq_scan_then_pair (notations : Notations) (t : Text) (noted : Noted Text)
    (h : t.decode notations = .ok noted) :
    ∃ numbers problems, (∀ numbers' problems', Scan notations t.units numbers' problems' ↔
        numbers' = numbers ∧ problems' = problems) ∧
      noted.value = numbers.join .questionMark ∧
      noted.problems.filter Problem.isUnpaired = numbers.lonelyProblems ∧
      noted.problems.filter (!·.isUnpaired) = problems :=
  Decode.run_eq_scan_then_pair none (by simp [Decode.CanWait]) h

/-- A literal high surrogate that a reference completes, an escape that cannot be read, and an
escaped high surrogate in front of another. -/
theorem decode_eq_scan_then_pair_mixed_halves :
    let t : Text := ⟨0xD83D, by decide⟩ :: ("&#xDE00;\\q\\uD800\\uD801" : Text)
    let noted : Noted Text := ⟨[⟨0x1F600, by decide⟩, '\\', 'q', '?', '?'],
      [.unknownEscape "\\q\\uD800\\uD801",
        .unpairedHighSurrogate ⟨0xD800, by decide⟩ (some ⟨0xD801, by decide⟩),
        .unpairedHighSurrogate ⟨0xD801, by decide⟩ none]⟩
    t.decode { backslash := true, xml := true } = .ok noted ∧
      ∃ numbers problems, (∀ numbers' problems',
          Scan { backslash := true, xml := true } t.units numbers' problems' ↔
            numbers' = numbers ∧ problems' = problems) ∧
        noted.value = numbers.join .questionMark ∧
        noted.problems.filter Problem.isUnpaired = numbers.lonelyProblems ∧
        noted.problems.filter (!·.isUnpaired) = problems := by
  intro t noted
  have h : t.decode { backslash := true, xml := true } = .ok noted := by decide +kernel
  exact ⟨h, decode_eq_scan_then_pair _ t noted h⟩

end PlainForm

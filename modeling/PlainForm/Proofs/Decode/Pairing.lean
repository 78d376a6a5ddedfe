import PlainForm.Proofs.Decode.Spec

/-!
# Pairing step by step

The high surrogate that waits in the pass is the first of the numbers that are still to be paired.
What a step settles is then what pairing gives for the numbers up to it.
-/

namespace PlainForm

/-! ## Pairs -/

namespace CodePoint

theorem ofPair?_eq_none {u v : CodePoint} :
    ofPair? u v = none ↔ ¬ (u.isHighSurrogate ∧ v.isLowSurrogate) := by
  unfold ofPair?
  split <;> simp_all

theorem halves_of_ofPair? {u v c : CodePoint} (h : ofPair? u v = some c) :
    u.isHighSurrogate ∧ v.isLowSurrogate := by
  unfold ofPair? at h
  split at h
  · assumption
  · cases h

theorem isSurrogate_of_ofPair? {u v c : CodePoint} (h : ofPair? u v = some c) :
    c.isSurrogate = false := by
  unfold ofPair? at h
  split at h
  · next hs =>
    simp only [isHighSurrogate_iff, isLowSurrogate_iff] at hs
    injection h with h
    subst h
    rw [Bool.eq_false_iff, ne_eq, isSurrogate_iff]
    dsimp only
    omega
  · cases h

theorem isSurrogate_iff_high_or_low {c : CodePoint} :
    c.isSurrogate ↔ c.isHighSurrogate ∨ c.isLowSurrogate := by
  rw [isSurrogate_iff, isHighSurrogate_iff, isLowSurrogate_iff]
  omega

end CodePoint

/-! ## Joining and lonely surrogates, number by number -/

namespace Text

theorem paired_pair {u v c : CodePoint} (h : CodePoint.ofPair? u v = some c) (rest : Text) :
    paired (u :: v :: rest) = c :: paired rest := by
  rw [paired, h]

theorem paired_alone {u : CodePoint} {rest : Text}
    (h : ∀ v ∈ rest.head?, ¬ (u.isHighSurrogate ∧ v.isLowSurrogate)) :
    paired (u :: rest) = u :: paired rest := by
  cases rest with
  | nil => rfl
  | cons v rest => simp [paired, CodePoint.ofPair?_eq_none.2 (h v rfl)]

theorem join_pair {u v c : CodePoint} (h : CodePoint.ofPair? u v = some c) (substitute : CodePoint)
    (rest : Text) : join substitute (u :: v :: rest) = c :: join substitute rest := by
  simp [join, paired_pair h, CodePoint.isSurrogate_of_ofPair? h]

theorem join_alone {u : CodePoint} (substitute : CodePoint) {rest : Text}
    (h : ∀ v ∈ rest.head?, ¬ (u.isHighSurrogate ∧ v.isLowSurrogate)) :
    join substitute (u :: rest) = (if u.isSurrogate then substitute else u) ::
      join substitute rest := by
  rw [join, paired_alone h]
  rfl

theorem lonelyProblems_pair {u v : CodePoint} (h : u.isHighSurrogate ∧ v.isLowSurrogate)
    (rest : Text) : lonelyProblems (u :: v :: rest) = lonelyProblems rest := by
  rw [lonelyProblems, if_pos h]

theorem lonelyProblems_alone {u : CodePoint} {rest : Text}
    (h : ∀ v ∈ rest.head?, ¬ (u.isHighSurrogate ∧ v.isLowSurrogate)) :
    lonelyProblems (u :: rest) = u.lonelyProblems rest.head? ++ lonelyProblems rest := by
  cases rest with
  | nil => simp [lonelyProblems]
  | cons v rest => rw [lonelyProblems, if_neg (h v rfl)]; rfl

end Text

/-! ## What a step settles -/

namespace Decode

/-- Only high surrogates wait. -/
def CanWait (pending : Option CodePoint) : Prop := ∀ high ∈ pending, high.isHighSurrogate

theorem settle_pair {high char : CodePoint} {s : Step}
    (h : CodePoint.ofPair? high s.char = some char) :
    settle (some high) s = { chars := [char], problems := s.problem.toList } := by
  simp [settle, h]

theorem settle_alone {pending : Option CodePoint} {s : Step}
    (h : ∀ high ∈ pending, CodePoint.ofPair? high s.char = none) :
    settle pending s = {
      chars := (unpaired pending (some s.char)).value ++ (settleAlone s.char).chars
      problems := s.problem.toList ++ (unpaired pending (some s.char)).problems ++
        (settleAlone s.char).problems
      pending := (settleAlone s.char).pending } := by
  have hb : pending.bind (CodePoint.ofPair? · s.char) = none := by
    cases pending with
    | none => rfl
    | some high => exact h high rfl
  simp [settle, hb]

theorem canWait_settle (pending : Option CodePoint) (s : Step) :
    CanWait (settle pending s).pending := by
  have halone : CanWait (settleAlone s.char).pending := by
    unfold settleAlone CanWait
    split <;> simp_all
    split <;> simp
  unfold settle
  split
  · simp [CanWait]
  · exact halone

theorem join_settleAlone (char : CodePoint) (rest : Text) :
    Text.join .questionMark (char :: rest) = (settleAlone char).chars ++
      Text.join .questionMark ((settleAlone char).pending.toList ++ rest) := by
  unfold settleAlone
  split
  · rfl
  · next hhigh =>
    rw [Text.join_alone _ fun v _ h => hhigh h.1]
    by_cases hlow : char.isLowSurrogate <;>
      simp [CodePoint.isSurrogate_iff_high_or_low, hhigh, hlow]

theorem lonelyProblems_settleAlone (char : CodePoint) (rest : Text) :
    Text.lonelyProblems (char :: rest) = (settleAlone char).problems ++
      Text.lonelyProblems ((settleAlone char).pending.toList ++ rest) := by
  unfold settleAlone
  split
  · rfl
  · next hhigh =>
    rw [Text.lonelyProblems_alone fun v _ h => hhigh h.1]
    by_cases hlow : char.isLowSurrogate <;> simp [CodePoint.lonelyProblems, hhigh, hlow]

theorem join_settle {pending : Option CodePoint} (hw : CanWait pending) (s : Step) (rest : Text) :
    Text.join .questionMark (pending.toList ++ s.char :: rest) = (settle pending s).chars ++
      Text.join .questionMark ((settle pending s).pending.toList ++ rest) := by
  cases pending with
  | none => simpa [settle_alone, unpaired] using join_settleAlone s.char rest
  | some high =>
    have hhigh := hw high rfl
    cases hp : CodePoint.ofPair? high s.char with
    | some char => simp [settle_pair hp, Text.join_pair hp]
    | none =>
      have hlow := CodePoint.ofPair?_eq_none.1 hp
      have hsur : high.isSurrogate := CodePoint.isSurrogate_iff_high_or_low.2 (.inl hhigh)
      rw [settle_alone (by simpa using hp)]
      simp only [Option.toList_some, List.cons_append, List.nil_append]
      rw [Text.join_alone _ (by simpa using hlow), join_settleAlone, if_pos hsur]
      rfl

/-- The problem of a step's notation is told before those of surrogates that stand alone. -/
theorem problems_settle {pending : Option CodePoint} (hw : CanWait pending) (s : Step)
    (rest : Text) : ∃ lonely, (settle pending s).problems = s.problem.toList ++ lonely ∧
      Text.lonelyProblems (pending.toList ++ s.char :: rest) = lonely ++
        Text.lonelyProblems ((settle pending s).pending.toList ++ rest) ∧
      ∀ p ∈ lonely, p.isUnpaired := by
  have halone : ∀ p ∈ (settleAlone s.char).problems, p.isUnpaired := by
    unfold settleAlone
    split
    · simp
    · split <;> simp [Problem.isUnpaired]
  cases pending with
  | none =>
    rw [settle_alone (by simp)]
    exact ⟨(settleAlone s.char).problems, by simp [unpaired],
      lonelyProblems_settleAlone s.char rest, halone⟩
  | some high =>
    have hhigh := hw high rfl
    cases hp : CodePoint.ofPair? high s.char with
    | some char =>
      have hpair := CodePoint.halves_of_ofPair? hp
      rw [settle_pair hp]
      exact ⟨[], by simp, by simpa using Text.lonelyProblems_pair hpair rest, by simp⟩
    | none =>
      have hlow := CodePoint.ofPair?_eq_none.1 hp
      rw [settle_alone (by simpa using hp)]
      refine ⟨.unpairedHighSurrogate high (some s.char) :: (settleAlone s.char).problems,
        by simp [unpaired], ?_, ?_⟩
      · simp only [Option.toList_some, List.cons_append, List.nil_append]
        rw [Text.lonelyProblems_alone (by simpa using hlow), lonelyProblems_settleAlone]
        simp [CodePoint.lonelyProblems, hhigh]
      · simpa [Problem.isUnpaired] using halone

end Decode

end PlainForm

import PlainForm.Proofs.Alike
import PlainForm.Proofs.Conversion
import PlainForm.Proofs.WellFormed

/-!
# The order of rules

Where an earlier rule matches, a later one is not tried. So a rule that matches only where an
earlier one does is of no use, and two neighbours that never match at the same place may stand in
either order.
-/

namespace PlainForm

/-! ## One target against another -/

namespace Target

/-- The first target matches wherever the second one does. -/
inductive Shadows : Target → Target → Prop where
  | ranges {low high low' high'} (lower : low ≤ low') (upper : high' ≤ high) :
      Shadows (range low high) (range low' high')
  | rangeSequence {low high n numbers} (lower : low ≤ n) (upper : n ≤ high) :
      Shadows (range low high) (sequence (n :: numbers))
  | sequences {numbers others} (nonempty : numbers ≠ []) (part : numbers <+: others) :
      Shadows (sequence numbers) (sequence others)
  | point {n} : Shadows (sequence [n]) (range n n)

/-- The two targets never match at the same place. An empty sequence is part of every other one. -/
inductive Excludes : Target → Target → Prop where
  | ranges {low high low' high'} (disjoint : ∀ n, low ≤ n → n ≤ high → low' ≤ n → ¬ n ≤ high') :
      Excludes (range low high) (range low' high')
  | rangeSequence {low high n numbers} (outside : ¬ (low ≤ n ∧ n ≤ high)) :
      Excludes (range low high) (sequence (n :: numbers))
  | sequenceRange {low high n numbers} (outside : ¬ (low ≤ n ∧ n ≤ high)) :
      Excludes (sequence (n :: numbers)) (range low high)
  | sequences {numbers others} (no_part : ¬ numbers <+: others) (no_part' : ¬ others <+: numbers) :
      Excludes (sequence numbers) (sequence others)

variable {a b : Target} {rest numbers : List Int} {low high n : Int} {length : Nat}

theorem takes_range_cons : (range low high).Takes (n :: rest) length ↔
    length = 1 ∧ low ≤ n ∧ n ≤ high := by
  simp [Takes]

theorem takes_self (h : numbers ≠ []) : (sequence numbers).Takes numbers numbers.length :=
  ⟨h, rfl, List.prefix_rfl⟩

theorem Takes.exists_cons (h : (range low high).Takes rest length) :
    ∃ n more, rest = n :: more ∧ low ≤ n ∧ n ≤ high := by
  obtain ⟨-, n, hn, hbounds⟩ := h
  obtain ⟨more, rfl⟩ := List.head?_eq_some_iff.1 hn
  exact ⟨n, more, rfl, hbounds⟩

/-! ### Shadows -/

theorem Shadows.takes (h : a.Shadows b) (hb : b.Takes rest length) : ∃ m, a.Takes rest m := by
  cases h with
  | ranges lower upper =>
    obtain ⟨n, more, rfl, hlow, hhigh⟩ := hb.exists_cons
    exact ⟨1, takes_range_cons.2 ⟨rfl, Int.le_trans lower hlow, Int.le_trans hhigh upper⟩⟩
  | rangeSequence lower upper =>
    obtain ⟨-, -, more, rfl⟩ := hb
    exact ⟨1, takes_range_cons.2 ⟨rfl, lower, upper⟩⟩
  | sequences nonempty part =>
    obtain ⟨-, -, hpart⟩ := hb
    exact ⟨_, nonempty, rfl, part.trans hpart⟩
  | point =>
    obtain ⟨n, more, rfl, hlow, hhigh⟩ := hb.exists_cons
    obtain rfl := Int.le_antisymm hlow hhigh
    exact ⟨1, List.cons_ne_nil _ _, rfl, List.prefix_append [_] more⟩

theorem Shadows.isComplete (h : a.Shadows b) : a.IsComplete ∧ b.IsComplete := by
  cases h <;> simp [IsComplete]

/-- For well-formed targets there are no other shadows. -/
theorem shadows_iff (ha : a.WellFormed) (hb : b.WellFormed) :
    a.Shadows b ↔ ∀ rest length, b.Takes rest length → ∃ m, a.Takes rest m := by
  refine ⟨fun h rest length => h.takes, fun h => ?_⟩
  cases a with
  | brokenRange => exact ha.elim
  | range low high =>
    cases b with
    | brokenRange => exact hb.elim
    | range low' high' =>
      -- Both bounds of the second range lie in the first one.
      obtain ⟨-, hordered, -⟩ := hb
      obtain ⟨m, hlow⟩ := h [low'] 1 (takes_range_cons.2 ⟨rfl, Int.le_refl _, hordered⟩)
      obtain ⟨m', hhigh⟩ := h [high'] 1 (takes_range_cons.2 ⟨rfl, hordered, Int.le_refl _⟩)
      exact .ranges (takes_range_cons.1 hlow).2.1 (takes_range_cons.1 hhigh).2.2
    | sequence numbers =>
      obtain ⟨n, numbers, rfl⟩ := List.exists_cons_of_ne_nil hb.1
      obtain ⟨m, hm⟩ := h _ _ (takes_self hb.1)
      exact .rangeSequence (takes_range_cons.1 hm).2.1 (takes_range_cons.1 hm).2.2
  | sequence numbers =>
    cases b with
    | brokenRange => exact hb.elim
    | range low high =>
      -- The sequence is the lower bound alone, and the upper bound alone, too.
      obtain ⟨-, hordered, -⟩ := hb
      obtain ⟨m, hne, -, hlow⟩ := h [low] 1 (takes_range_cons.2 ⟨rfl, Int.le_refl _, hordered⟩)
      obtain ⟨m', -, -, hhigh⟩ := h [high] 1 (takes_range_cons.2 ⟨rfl, hordered, Int.le_refl _⟩)
      obtain ⟨n, numbers, rfl⟩ := List.exists_cons_of_ne_nil hne
      obtain ⟨rfl, hnil⟩ := List.cons_prefix_cons.1 hlow
      obtain ⟨rfl, -⟩ := List.cons_prefix_cons.1 hhigh
      obtain rfl := List.prefix_nil.1 hnil
      exact .point
    | sequence others =>
      obtain ⟨m, hne, -, hpart⟩ := h _ _ (takes_self hb.1)
      exact .sequences hne hpart

/-! ### Exclusion -/

theorem Excludes.not_takes (h : a.Excludes b) {m : Nat} (ha : a.Takes rest m) :
    ¬ b.Takes rest length := by
  intro hb
  cases h with
  | ranges disjoint =>
    obtain ⟨n, more, rfl, hlow, hhigh⟩ := ha.exists_cons
    obtain ⟨-, hlow', hhigh'⟩ := takes_range_cons.1 hb
    exact disjoint n hlow hhigh hlow' hhigh'
  | rangeSequence outside =>
    obtain ⟨-, -, more, rfl⟩ := hb
    exact outside (takes_range_cons.1 ha).2
  | sequenceRange outside =>
    obtain ⟨-, -, more, rfl⟩ := ha
    exact outside (takes_range_cons.1 hb).2
  | sequences no_part no_part' =>
    rcases List.prefix_or_prefix_of_prefix ha.2.2 hb.2.2 with hpart | hpart
    · exact no_part hpart
    · exact no_part' hpart

theorem Excludes.isComplete (h : a.Excludes b) : a.IsComplete ∧ b.IsComplete := by
  cases h <;> simp [IsComplete]

/-- For well-formed targets nothing else keeps both from matching at the same place. -/
theorem excludes_iff (ha : a.WellFormed) (hb : b.WellFormed) :
    a.Excludes b ↔ ∀ rest m length, a.Takes rest m → ¬ b.Takes rest length := by
  refine ⟨fun h rest m length => h.not_takes, fun h => ?_⟩
  cases a with
  | brokenRange => exact ha.elim
  | range low high =>
    cases b with
    | brokenRange => exact hb.elim
    | range low' high' =>
      refine .ranges fun n hlow hhigh hlow' hhigh' => ?_
      exact h [n] 1 1 (takes_range_cons.2 ⟨rfl, hlow, hhigh⟩)
        (takes_range_cons.2 ⟨rfl, hlow', hhigh'⟩)
    | sequence numbers =>
      obtain ⟨n, numbers, rfl⟩ := List.exists_cons_of_ne_nil hb.1
      exact .rangeSequence fun hn =>
        h _ 1 _ (takes_range_cons.2 ⟨rfl, hn⟩) (takes_self hb.1)
  | sequence numbers =>
    cases b with
    | brokenRange => exact hb.elim
    | range low high =>
      obtain ⟨n, numbers, rfl⟩ := List.exists_cons_of_ne_nil ha.1
      exact .sequenceRange fun hn =>
        h _ _ 1 (takes_self ha.1) (takes_range_cons.2 ⟨rfl, hn⟩)
    | sequence others =>
      exact .sequences (fun hpart => h others _ _ ⟨ha.1, rfl, hpart⟩ (takes_self hb.1))
        fun hpart => h numbers _ _ (takes_self ha.1) ⟨hb.1, rfl, hpart⟩

/-! ### Lengths -/

theorem matchLength_eq_zero (hc : a.IsComplete) (hne : rest ≠ []) :
    a.matchLength rest = .ok 0 ↔ ∀ length, ¬ a.Takes rest length := by
  obtain ⟨k, hk, htakes, hnone⟩ := matchLength_eq hc hne
  constructor
  · intro h
    exact hnone (Except.ok.inj (hk.symm.trans h))
  · intro h
    by_cases hzero : k = 0
    · rw [hk, hzero]
    · exact absurd (htakes hzero) (h k)

theorem Shadows.matchLength (h : a.Shadows b) (hne : rest ≠ [])
    (ha : a.matchLength rest = .ok 0) : b.matchLength rest = .ok 0 := by
  refine (matchLength_eq_zero h.isComplete.2 hne).2 fun length hb => ?_
  obtain ⟨m, hm⟩ := h.takes hb
  exact (matchLength_eq_zero h.isComplete.1 hne).1 ha m hm

theorem Excludes.matchLength (h : a.Excludes b) (hne : rest ≠ []) :
    a.matchLength rest = .ok 0 ∨ b.matchLength rest = .ok 0 := by
  rw [matchLength_eq_zero h.isComplete.1 hne, matchLength_eq_zero h.isComplete.2 hne]
  by_cases hno : ∀ m, ¬ a.Takes rest m
  · exact .inl hno
  · obtain ⟨m, hm⟩ := Classical.not_forall_not.1 hno
    exact .inr fun length => h.not_takes hm

end Target

/-! ## Rows of rules -/

section

variable {length : Rule → Except Failure Nat} {earlier later : Rule}

theorem firstRule_without (h : length earlier = .ok 0 → length later = .ok 0)
    (between after : List Rule) :
    firstRule length (earlier :: (between ++ later :: after)) =
      firstRule length (earlier :: (between ++ after)) := by
  rw [firstRule_cons, firstRule_cons]
  cases hlength : length earlier with
  | error f => rfl
  | ok n =>
    rw [Failure.ok_bind, Failure.ok_bind]
    by_cases hn : n = 0
    · subst hn
      rw [if_pos rfl, if_pos rfl]
      exact firstRule_append between (firstRule_skip (h hlength))
    · rw [if_neg hn, if_neg hn]

theorem firstRule_swap (h : length earlier = .ok 0 ∨ length later = .ok 0) (after : List Rule) :
    firstRule length (earlier :: later :: after) =
      firstRule length (later :: earlier :: after) := by
  rcases h with h | h
  · exact (firstRule_skip h).trans (firstRule_append [later] (firstRule_skip h)).symm
  · exact (firstRule_append [earlier] (firstRule_skip h)).trans (firstRule_skip h).symm

end

/-! ## Tables -/

theorem Table.substitutes_short {table : Table} (hcommitted : table.committed)
    (hcomplete : ∀ rule ∈ table.rules, rule.target.IsComplete) (numbers : List Int)
    (hshort : ∀ n ∈ numbers, CharNumber.IsShort n) (renderer : Option Renderer) :
    ∃ s, table.substitute numbers renderer = .ok s := by
  obtain ⟨_, -, hrenders⟩ := exists_substitute hcommitted hcomplete hshort
  obtain ⟨s, hs, -⟩ := hrenders renderer
  exact ⟨s, hs⟩

/-- A rule that is shadowed by an earlier one is dead: without it every input, at its end, too,
comes to the same. All short numbers come to something. -/
theorem substitute_without_shadowed (before between after : List Rule) (shadowing shadowed : Rule)
    (h : shadowing.target.Shadows shadowed.target) :
    let table : Table := ⟨before ++ shadowing :: (between ++ shadowed :: after), true⟩
    let without : Table := ⟨before ++ shadowing :: (between ++ after), true⟩
    table.SubstitutesLike without ∧
      ((∀ rule ∈ table.rules, rule.target.IsComplete) → ∀ numbers : List Int,
        (∀ n ∈ numbers, CharNumber.IsShort n) → ∀ renderer,
          ∃ s, table.substitute numbers renderer = .ok s) := by
  intro table without
  have hlike : table.MatchesLike without := fun rest hne =>
    firstRule_append before (firstRule_without (h.matchLength hne) between after)
  exact ⟨hlike.substitutesLike rfl rfl, Table.substitutes_short rfl⟩

/-- A longer sequence behind its own beginning, which also stands at the end of the input, where the
longer one does not fit any more. -/
theorem substitute_without_shadowed_longer :
    let shadowing : Rule := ⟨.replace, .sequence [0x61], some "bc"⟩
    let between : Rule := ⟨.utf16, .range 0x62 0x62, none⟩
    let shadowed : Rule := ⟨.decimal, .sequence [0x61, 0x62], none⟩
    let after : Rule := ⟨.accept, .range 0x61 0x63, none⟩
    let table : Table := ⟨[shadowing, between, shadowed, after], true⟩
    let without : Table := ⟨[shadowing, between, after], true⟩
    let numbers := Text.numbers "caba"
    shadowing.target.Shadows shadowed.target ∧
      (∀ rule ∈ table.rules, rule.target.IsComplete) ∧ (∀ n ∈ numbers, CharNumber.IsShort n) ∧
      table.SubstitutesLike without ∧ ∃ s, table.substitute numbers = .ok s := by
  intro shadowing between shadowed after table without numbers
  have hshadows : shadowing.target.Shadows shadowed.target := .sequences (by decide) (by decide)
  have hcomplete : ∀ rule ∈ table.rules, rule.target.IsComplete := by
    simp [table, shadowing, between, shadowed, after, Target.IsComplete]
  have hshort : ∀ n ∈ numbers, CharNumber.IsShort n := Text.isShort_numbers _
  obtain ⟨hlike, hexists⟩ :=
    substitute_without_shadowed [] [between] [after] shadowing shadowed hshadows
  exact ⟨hshadows, hcomplete, hshort, hlike, hexists hcomplete numbers hshort none⟩

/-- Neighbours that exclude each other may be swapped: every input comes to the same. All short
numbers come to something. -/
theorem substitute_after_swap (before after : List Rule) (earlier later : Rule)
    (h : earlier.target.Excludes later.target) :
    let table : Table := ⟨before ++ earlier :: later :: after, true⟩
    let swapped : Table := ⟨before ++ later :: earlier :: after, true⟩
    table.SubstitutesLike swapped ∧
      ((∀ rule ∈ table.rules, rule.target.IsComplete) → ∀ numbers : List Int,
        (∀ n ∈ numbers, CharNumber.IsShort n) → ∀ renderer,
          ∃ s, table.substitute numbers renderer = .ok s) := by
  intro table swapped
  have hlike : table.MatchesLike swapped := fun rest hne =>
    firstRule_append before (firstRule_swap (h.matchLength hne) after)
  exact ⟨hlike.substitutesLike rfl rfl, Table.substitutes_short rfl⟩

/-- Two sequences that part after the same beginning, with which the input also ends. -/
theorem substitute_after_swap_branching :
    let earlier : Rule := ⟨.replace, .sequence [0x61, 0x62], some "x"⟩
    let later : Rule := ⟨.hexadecimal, .sequence [0x61, 0x63], none⟩
    let table : Table := ⟨[earlier, later, ⟨.octal, .range 0x61 0x63, none⟩], true⟩
    let swapped : Table := ⟨[later, earlier, ⟨.octal, .range 0x61 0x63, none⟩], true⟩
    let numbers := Text.numbers "acaba"
    earlier.target.Excludes later.target ∧
      (∀ rule ∈ table.rules, rule.target.IsComplete) ∧ (∀ n ∈ numbers, CharNumber.IsShort n) ∧
      table.SubstitutesLike swapped ∧ ∃ s, table.substitute numbers = .ok s := by
  intro earlier later table swapped numbers
  have hexcludes : earlier.target.Excludes later.target := .sequences (by decide) (by decide)
  have hcomplete : ∀ rule ∈ table.rules, rule.target.IsComplete := by
    simp [table, earlier, later, Target.IsComplete]
  have hshort : ∀ n ∈ numbers, CharNumber.IsShort n := Text.isShort_numbers _
  obtain ⟨hlike, hexists⟩ := substitute_after_swap [] [⟨.octal, .range 0x61 0x63, none⟩]
    earlier later hexcludes
  exact ⟨hexcludes, hcomplete, hshort, hlike, hexists hcomplete numbers hshort none⟩

end PlainForm

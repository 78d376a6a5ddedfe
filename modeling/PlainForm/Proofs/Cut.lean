import PlainForm.Substitution

/-!
# The cut of a substitution

A table whose ranges have two bounds cuts every input in exactly one way: at each place the first
rule that matches takes its numbers, and where no rule matches one number stands alone.
-/

namespace PlainForm

/-! ## What a cut is -/

/-- The target matches the first `length` numbers of `rest`, and at least one. -/
def Target.Takes (target : Target) (rest : List Int) (length : Nat) : Prop :=
  match target with
  | .range low high => length = 1 ∧ ∃ n, rest.head? = some n ∧ low ≤ n ∧ n ≤ high
  | .sequence numbers => numbers ≠ [] ∧ length = numbers.length ∧ numbers <+: rest
  | .brokenRange .. => False

/-- A range has exactly two bounds. Sequences have none and may even be empty. -/
def Target.IsComplete (target : Target) : Prop :=
  ∀ bounds not_two, target ≠ .brokenRange bounds not_two

/-- The hit is the first rule of the table that matches at the start of `rest`. -/
structure Table.FirstMatch (table : Table) (rest : List Int) (hit : Hit) : Prop where
  number_pos : 0 < hit.number
  rule_eq : table.rules[hit.number - 1]? = some hit.rule
  takes : hit.rule.target.Takes rest hit.length
  earlier : ∀ k rule, k + 1 < hit.number → table.rules[k]? = some rule →
    ∀ length, ¬ rule.target.Takes rest length

/-- The span is what the table makes of the start of `rest`. -/
def Table.Chooses (table : Table) (rest : List Int) (span : Span) : Prop :=
  match span.hit with
  | some hit => table.FirstMatch rest hit ∧ span.numbers = rest.take hit.length
  | none => (∀ rule ∈ table.rules, ∀ length, ¬ rule.target.Takes rest length) ∧
      span.numbers = rest.take 1

/-- The spans are a cut of numbers that begin at index `start`. -/
structure Table.IsCut (table : Table) (start : Nat) (numbers : List Int) (spans : List Span) :
    Prop where
  whole : spans.flatMap Span.numbers = numbers
  filled : ∀ span ∈ spans, span.numbers ≠ []
  chosen : ∀ before span after, spans = before ++ span :: after →
    span.start = start + (before.flatMap Span.numbers).length ∧
      table.Chooses (numbers.drop (before.flatMap Span.numbers).length) span

/-! ## Matches -/

theorem Target.Takes.length_pos {target : Target} {rest : List Int} {length : Nat}
    (h : target.Takes rest length) : 0 < length := by
  cases target with
  | range low high => obtain ⟨rfl, -⟩ := h; omega
  | sequence numbers =>
    obtain ⟨hne, rfl, -⟩ := h
    exact List.length_pos_iff.2 hne
  | brokenRange bounds not_two => exact h.elim

theorem Target.Takes.length_le {target : Target} {rest : List Int} {length : Nat}
    (h : target.Takes rest length) : length ≤ rest.length := by
  cases target with
  | range low high =>
    obtain ⟨rfl, n, hn, -⟩ := h
    cases rest with
    | nil => simp at hn
    | cons m rest => simp
  | sequence numbers =>
    obtain ⟨-, rfl, hp⟩ := h
    exact hp.length_le
  | brokenRange bounds not_two => exact h.elim

theorem Target.Takes.unique {target : Target} {rest : List Int} {m n : Nat}
    (hm : target.Takes rest m) (hn : target.Takes rest n) : m = n := by
  cases target with
  | range low high => exact hm.1.trans hn.1.symm
  | sequence numbers => exact hm.2.1.trans hn.2.1.symm
  | brokenRange bounds not_two => exact hm.elim

theorem Target.Takes.append {target : Target} {rest : List Int} {length : Nat}
    (h : target.Takes rest length) (more : List Int) : target.Takes (rest ++ more) length := by
  cases target with
  | range low high =>
    obtain ⟨rfl, n, hn, hbounds⟩ := h
    exact ⟨rfl, n, by rw [List.head?_append, hn]; rfl, hbounds⟩
  | sequence numbers =>
    obtain ⟨hne, rfl, hp⟩ := h
    exact ⟨hne, rfl, hp.trans (List.prefix_append rest more)⟩
  | brokenRange bounds not_two => exact h.elim

theorem Target.Takes.of_append {target : Target} {rest more : List Int} {length : Nat}
    (h : target.Takes (rest ++ more) length) (hle : length ≤ rest.length) :
    target.Takes rest length := by
  cases target with
  | range low high =>
    obtain ⟨rfl, n, hn, hbounds⟩ := h
    obtain ⟨m, rest, rfl⟩ := List.exists_cons_of_length_pos hle
    exact ⟨rfl, n, by simpa using hn, hbounds⟩
  | sequence numbers =>
    obtain ⟨hne, rfl, hp⟩ := h
    exact ⟨hne, rfl, List.prefix_of_prefix_length_le hp (List.prefix_append rest more) hle⟩
  | brokenRange bounds not_two => exact h.elim

theorem Target.matchLength_eq {target : Target} (hc : target.IsComplete) {rest : List Int}
    (hne : rest ≠ []) : ∃ k, target.matchLength rest = .ok k ∧
      (k ≠ 0 → target.Takes rest k) ∧ (k = 0 → ∀ length, ¬ target.Takes rest length) := by
  obtain ⟨n, rest, rfl⟩ := List.exists_cons_of_ne_nil hne
  cases target with
  | range low high =>
    refine ⟨_, rfl, ?_, ?_⟩
    · intro hk
      split at hk
      · next hn => rw [if_pos hn]; exact ⟨rfl, n, rfl, hn⟩
      · exact absurd rfl hk
    · rintro hk length ⟨-, m, hm, hb⟩
      simp only [List.head?_cons, Option.some.injEq] at hm
      subst hm
      rw [if_pos hb] at hk
      omega
  | sequence numbers =>
    refine ⟨_, rfl, ?_, ?_⟩
    · intro hk
      split at hk
      · next hp =>
        rw [if_pos hp]
        exact ⟨List.length_pos_iff.1 (by omega), rfl, List.isPrefixOf_iff_prefix.1 hp⟩
      · exact absurd rfl hk
    · rintro hk length ⟨hnn, -, hp⟩
      rw [if_pos (List.isPrefixOf_iff_prefix.2 hp)] at hk
      exact hnn (List.eq_nil_of_length_eq_zero hk)
  | brokenRange bounds not_two => exact absurd rfl (hc bounds not_two)

/-! ## The first match -/

theorem firstHit_eq {rest : List Int} (hne : rest ≠ []) (rules : List Rule) (number : Nat)
    (hc : ∀ rule ∈ rules, rule.target.IsComplete) :
    ∃ found, firstHit (·.target.matchLength rest) number rules = .ok found ∧
      match found with
      | none => ∀ rule ∈ rules, ∀ length, ¬ rule.target.Takes rest length
      | some hit => ∃ place, hit.number = number + place ∧ rules[place]? = some hit.rule ∧
          hit.rule.target.Takes rest hit.length ∧
          ∀ k rule, k < place → rules[k]? = some rule →
            ∀ length, ¬ rule.target.Takes rest length := by
  induction rules generalizing number with
  | nil => exact ⟨none, rfl, by simp⟩
  | cons rule rules ih =>
    obtain ⟨k, hk, htakes, hnone⟩ :=
      Target.matchLength_eq (hc rule List.mem_cons_self) hne
    by_cases hz : k = 0
    · obtain ⟨found, hf, hspec⟩ := ih (number + 1) fun r hr => hc r (List.mem_cons_of_mem _ hr)
      refine ⟨found, ?_, ?_⟩
      · simp [firstHit, hk, hz, hf]
      · cases found with
        | none =>
          intro r hr
          rcases List.mem_cons.1 hr with rfl | hr
          · exact hnone hz
          · exact hspec r hr
        | some hit =>
          obtain ⟨place, hplace, hrule, ht, hearlier⟩ := hspec
          refine ⟨place + 1, by omega, by simpa using hrule, ht, ?_⟩
          intro j r hj hr
          cases j with
          | zero =>
            simp only [List.getElem?_cons_zero, Option.some.injEq] at hr
            exact hr ▸ hnone hz
          | succ j => exact hearlier j r (by omega) (by simpa using hr)
    · refine ⟨some ⟨number, rule, k⟩, ?_, 0, rfl, rfl, htakes hz, by omega⟩
      simp [firstHit, hk, hz]

theorem Table.hit_eq {table : Table} (hc : ∀ rule ∈ table.rules, rule.target.IsComplete)
    {rest : List Int} (hne : rest ≠ []) : ∃ found, table.hit rest = .ok found ∧
      match found with
      | none => ∀ rule ∈ table.rules, ∀ length, ¬ rule.target.Takes rest length
      | some hit => table.FirstMatch rest hit := by
  obtain ⟨found, hf, hspec⟩ := firstHit_eq hne table.rules 1 hc
  refine ⟨found, hf, ?_⟩
  cases found with
  | none => exact hspec
  | some hit =>
    obtain ⟨place, hplace, hrule, ht, hearlier⟩ := hspec
    have hp : hit.number - 1 = place := by omega
    exact ⟨by omega, hp ▸ hrule, ht, fun k rule hk => hearlier k rule (by omega)⟩

/-- Two first matches are the same, since neither may stand before the other. -/
theorem Table.FirstMatch.unique {table : Table} {rest : List Int} {a b : Hit}
    (ha : table.FirstMatch rest a) (hb : table.FirstMatch rest b) : a = b := by
  have hle : ∀ {x y : Hit}, table.FirstMatch rest x → table.FirstMatch rest y →
      x.number ≤ y.number := by
    intro x y hx hy
    have hy0 := hy.number_pos
    rcases Nat.lt_or_ge y.number x.number with hlt | hge
    · exact absurd hy.takes (hx.earlier (y.number - 1) _ (by omega) hy.rule_eq _)
    · exact hge
  have hn : a.number = b.number := Nat.le_antisymm (hle ha hb) (hle hb ha)
  have hr : a.rule = b.rule := by
    have h := ha.rule_eq
    rw [hn, hb.rule_eq] at h
    simpa using h.symm
  have hl : a.length = b.length := Target.Takes.unique ha.takes (hr ▸ hb.takes)
  cases a
  cases b
  simp_all

/-! ## Spans -/

theorem Table.Chooses.unique {table : Table} {rest : List Int} {a b : Span}
    (ha : table.Chooses rest a) (hb : table.Chooses rest b) :
    a.hit = b.hit ∧ a.numbers = b.numbers := by
  unfold Table.Chooses at ha hb
  cases hah : a.hit with
  | none =>
    cases hbh : b.hit with
    | none =>
      rw [hah] at ha
      rw [hbh] at hb
      exact ⟨rfl, ha.2.trans hb.2.symm⟩
    | some hit =>
      rw [hah] at ha
      rw [hbh] at hb
      exact absurd hb.1.takes (ha.1 _ (List.mem_of_getElem? hb.1.rule_eq) _)
  | some hit =>
    cases hbh : b.hit with
    | none =>
      rw [hah] at ha
      rw [hbh] at hb
      exact absurd ha.1.takes (hb.1 _ (List.mem_of_getElem? ha.1.rule_eq) _)
    | some hit' =>
      rw [hah] at ha
      rw [hbh] at hb
      obtain rfl := ha.1.unique hb.1
      exact ⟨rfl, ha.2.trans hb.2.symm⟩

theorem Table.isCut_nil_iff {table : Table} {start : Nat} {spans : List Span} :
    table.IsCut start [] spans ↔ spans = [] := by
  constructor
  · intro h
    cases spans with
    | nil => rfl
    | cons span spans =>
      have hw := h.whole
      rw [List.flatMap_cons, List.append_eq_nil_iff] at hw
      exact absurd hw.1 (h.filled span List.mem_cons_self)
  · rintro rfl
    exact ⟨rfl, by simp, by simp⟩

theorem Table.isCut_cons_iff {table : Table} {start : Nat} {numbers : List Int} {span : Span}
    {spans : List Span} : table.IsCut start numbers (span :: spans) ↔
      span.start = start ∧ span.numbers ≠ [] ∧ table.Chooses numbers span ∧
        ∃ rest, numbers = span.numbers ++ rest ∧
          table.IsCut (start + span.numbers.length) rest spans := by
  constructor
  · intro h
    have hw := h.whole
    rw [List.flatMap_cons] at hw
    obtain ⟨hstart, hchosen⟩ := h.chosen [] span spans rfl
    refine ⟨by simpa using hstart, h.filled span List.mem_cons_self, by simpa using hchosen,
      spans.flatMap Span.numbers, hw.symm, rfl, fun s hs => h.filled s (List.mem_cons_of_mem _ hs),
      ?_⟩
    rintro before s after rfl
    obtain ⟨hs, hc⟩ := h.chosen (span :: before) s after rfl
    rw [← hw, List.flatMap_cons, List.length_append, List.drop_length_add_append] at hc
    refine ⟨?_, hc⟩
    rw [hs, List.flatMap_cons, List.length_append, Nat.add_assoc]
  · rintro ⟨hstart, hne, hchosen, rest, rfl, h⟩
    refine ⟨by rw [List.flatMap_cons, h.whole], ?_, ?_⟩
    · intro s hs
      rcases List.mem_cons.1 hs with rfl | hs
      · exact hne
      · exact h.filled s hs
    · intro before s after hs
      cases before with
      | nil =>
        simp only [List.nil_append, List.cons.injEq] at hs
        obtain ⟨rfl, -⟩ := hs
        exact ⟨by simpa using hstart, by simpa using hchosen⟩
      | cons b before =>
        simp only [List.cons_append, List.cons.injEq] at hs
        obtain ⟨rfl, hs⟩ := hs
        obtain ⟨hst, hc⟩ := h.chosen before s after hs
        rw [List.flatMap_cons, List.length_append, List.drop_length_add_append]
        exact ⟨by rw [hst, Nat.add_assoc], hc⟩

theorem Table.IsCut.unique {table : Table} {start : Nat} {numbers : List Int}
    {spans others : List Span} (h : table.IsCut start numbers spans)
    (ho : table.IsCut start numbers others) : spans = others := by
  induction spans generalizing start numbers others with
  | nil =>
    obtain rfl : [] = numbers := h.whole
    exact (Table.isCut_nil_iff.1 ho).symm
  | cons span spans ih =>
    obtain ⟨hstart, hne, hchosen, rest, rfl, hrest⟩ := Table.isCut_cons_iff.1 h
    cases others with
    | nil =>
      have hw : [] = span.numbers ++ rest := ho.whole
      exact absurd (List.append_eq_nil_iff.1 hw.symm).1 hne
    | cons other others =>
      obtain ⟨hstart', -, hchosen', rest', hr, hrest'⟩ := Table.isCut_cons_iff.1 ho
      obtain ⟨hhit, hnum⟩ := hchosen.unique hchosen'
      have hspan : span = other := by
        cases span
        cases other
        simp_all
      subst hspan
      obtain rfl : rest = rest' := List.append_cancel_left hr
      rw [ih hrest hrest']

/-! ## The cut is made -/

theorem Table.cut_eq {table : Table} (hc : ∀ rule ∈ table.rules, rule.target.IsComplete)
    (start : Nat) (numbers : List Int) :
    ∃ spans, table.cut start numbers = .ok spans ∧ table.IsCut start numbers spans := by
  fun_induction Table.cut table start numbers with
  | case1 start => exact ⟨[], rfl, Table.isCut_nil_iff.2 rfl⟩
  | case2 start n rest ih =>
    obtain ⟨found, hf, hspec⟩ := Table.hit_eq hc (List.cons_ne_nil n rest)
    obtain ⟨spans, hs, hcut⟩ := ih found
    refine ⟨⟨start, n :: rest.take (found.elim 0 (·.length - 1)), found⟩ :: spans, ?_, ?_⟩
    · simp [hf, hs]
    · refine Table.isCut_cons_iff.2
        ⟨rfl, by simp, ?_, rest.drop (found.elim 0 (·.length - 1)), by simp, ?_⟩
      · unfold Table.Chooses
        cases found with
        | none => exact ⟨hspec, by simp⟩
        | some hit =>
          have hpos := hspec.takes.length_pos
          refine ⟨hspec, ?_⟩
          obtain ⟨k, hk⟩ : ∃ k, hit.length = k + 1 := ⟨hit.length - 1, by omega⟩
          simp [hk]
      · have hle : found.elim 0 (·.length - 1) ≤ rest.length := by
          cases found with
          | none => simp
          | some hit =>
            have := hspec.takes.length_le
            simp at this ⊢
            omega
        have hlen : (n :: rest.take (found.elim 0 (·.length - 1))).length =
            found.elim 0 (·.length - 1) + 1 := by
          simp; omega
        rw [hlen, ← Nat.add_assoc]
        exact hcut

end PlainForm

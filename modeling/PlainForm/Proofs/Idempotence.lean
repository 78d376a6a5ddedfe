import PlainForm.Proofs.Decode.Spelling
import PlainForm.Proofs.DecodingOnly
import PlainForm.Proofs.Resuming
import PlainForm.Proofs.ShortRuns

/-!
# Substituting again

What is put in place of a match is not matched again, but a second substitution may well match it.
If the rules leave what they put in as it is, a second substitution changes nothing any more.
-/

namespace PlainForm

/-! ## Tables that settle -/

/-- The rules accept or replace single numbers. A character that one of them puts in is accepted by
the first rule that matches it, if there is one. -/
structure Table.IsSettling (table : Table) : Prop where
  committed : table.committed
  single : ∀ rule ∈ table.rules, rule.target.IsSingle
  action : ∀ rule ∈ table.rules, rule.action = .accept ∨ rule.action = .replace
  right : ∀ rule ∈ table.rules, ∀ right ∈ rule.right, ∀ c ∈ right, ∀ hit,
    table.FirstMatch [c.number] hit → hit.rule.action = .accept

/-- A substitution changes nothing in the numbers, and has nothing to tell. -/
def Table.Keeps (table : Table) (numbers : List Int) : Prop :=
  ∃ s, table.substitute numbers = .ok s ∧ s.numbers = numbers ∧ s.changes = 0 ∧ s.problems = []

/-- A substitution that has nothing to tell makes of the numbers what a second one keeps. -/
def Table.Settles (table : Table) (numbers : List Int) : Prop :=
  ∃ s, table.substitute numbers = .ok s ∧ s.problems = [] ∧ table.Keeps s.numbers

theorem Target.IsSingle.isComplete {target : Target} (h : target.IsSingle) : target.IsComplete := by
  rintro bounds not_two rfl
  exact h

variable {table : Table} {first later : List Int} {n : Int}

theorem Table.IsSettling.isComplete (h : table.IsSettling) :
    ∀ rule ∈ table.rules, rule.target.IsComplete :=
  fun rule hrule => (h.single rule hrule).isComplete

theorem Table.Keeps.settles {numbers : List Int} (h : table.Keeps numbers) :
    table.Settles numbers := by
  obtain ⟨s, hs, hnumbers, hchanges, hproblems⟩ := h
  refine ⟨s, hs, hproblems, ?_⟩
  rw [hnumbers]
  exact ⟨s, hs, hnumbers, hchanges, hproblems⟩

/-! ## One number -/

theorem Table.substitute_singleton (hcommitted : table.committed)
    (hcomplete : ∀ rule ∈ table.rules, rule.target.IsComplete) (n : Int) :
    table.Keeps [n] ∨ ∃ hit, table.FirstMatch [n] hit ∧ hit.rule.action ≠ .accept ∧
      table.substitute [n] =
        (fun fragment => ⟨[⟨⟨0, [n], some hit⟩, some fragment⟩]⟩) <$>
          Render.builtin hit.rule [n] := by
  obtain ⟨found, hfound, hspec⟩ := hit_eq hcomplete (List.cons_ne_nil n [])
  have hcut : table.cut 0 [n] = .ok [⟨0, [n], found⟩] := by
    rw [cut, hfound, Failure.ok_bind]
    simp only [List.take_nil, List.drop_nil, cut]
    rfl
  have hs : table.substitute [n] = do return ⟨[← Render.piece ⟨0, [n], found⟩]⟩ := by
    rw [substitute, if_pos hcommitted, hcut, Failure.ok_bind, Render.pieces_none]
    simp only [List.mapM_cons, List.mapM_nil, bind_assoc, pure_bind]
  rw [Render.piece] at hs
  cases hchange : Span.change? ⟨0, [n], found⟩ with
  | none =>
    rw [hchange] at hs
    exact .inl ⟨_, hs, rfl, rfl, rfl⟩
  | some hit =>
    obtain ⟨rfl, haction⟩ := Span.change?_eq_some.1 hchange
    rw [hchange] at hs
    refine .inr ⟨hit, hspec, haction, ?_⟩
    simpa only [bind_assoc, pure_bind, map_eq_pure_bind] using hs

theorem Table.keeps_singleton (hcommitted : table.committed)
    (hcomplete : ∀ rule ∈ table.rules, rule.target.IsComplete)
    (h : ∀ hit, table.FirstMatch [n] hit → hit.rule.action = .accept) : table.Keeps [n] := by
  rcases substitute_singleton hcommitted hcomplete n with hkeeps | ⟨hit, hfirst, haction, -⟩
  · exact hkeeps
  · exact absurd (h hit hfirst) haction

/-! ## Numbers one after the other -/

theorem Table.isJoined_append (hcommitted : table.committed)
    (hsingle : ∀ rule ∈ table.rules, rule.target.IsSingle) (first later : List Int) :
    Substitution.IsJoined (table.substitute (first ++ later)) (table.substitute first)
      (table.substitute later) := by
  have hcomplete : ∀ rule ∈ table.rules, rule.target.IsComplete :=
    fun rule hrule => (hsingle rule hrule).isComplete
  obtain ⟨before, after, hbefore, hafter, hwhole⟩ :=
    cut_of_visits hcomplete (visits_of_single hcomplete hsingle first later)
  rw [List.take_left] at hbefore
  rw [List.drop_left] at hafter
  exact isJoined_of_cut hcommitted hbefore hafter hwhole

theorem Table.keeps_nil (hcommitted : table.committed) : table.Keeps [] := by
  refine ⟨⟨[]⟩, ?_, rfl, rfl, rfl⟩
  rw [substitute, if_pos hcommitted, cut]
  rfl

namespace Table.IsSettling

variable (h : table.IsSettling)

include h

theorem keeps_append (hfirst : table.Keeps first) (hlater : table.Keeps later) :
    table.Keeps (first ++ later) := by
  obtain ⟨a, ha, hnumbers, hchanges, hproblems⟩ := hfirst
  obtain ⟨b, hb, hnumbers', hchanges', hproblems'⟩ := hlater
  obtain ⟨s, hs, hsnumbers, hschanges, hsproblems⟩ :=
    (isJoined_append h.committed h.single first later).exists_whole ha hb
  refine ⟨s, hs, ?_, ?_, ?_⟩
  · rw [hsnumbers, hnumbers, hnumbers']
  · rw [hschanges, hchanges, hchanges']
  · rw [hsproblems, hproblems, hproblems', List.append_nil]

theorem settles_append (hfirst : table.Settles first) (hlater : table.Settles later) :
    table.Settles (first ++ later) := by
  obtain ⟨a, ha, hproblems, hkeeps⟩ := hfirst
  obtain ⟨b, hb, hproblems', hkeeps'⟩ := hlater
  obtain ⟨s, hs, hsnumbers, -, hsproblems⟩ :=
    (isJoined_append h.committed h.single first later).exists_whole ha hb
  refine ⟨s, hs, ?_, ?_⟩
  · rw [hsproblems, hproblems, hproblems', List.append_nil]
  · rw [hsnumbers]
    exact h.keeps_append hkeeps hkeeps'

theorem keeps_right {rule : Rule} (hrule : rule ∈ table.rules) :
    table.Keeps (rule.right.getD []).numbers := by
  have hkeeps : ∀ t : Text, (∀ c ∈ t, table.Keeps [c.number]) → table.Keeps t.numbers := by
    intro t hchars
    induction t with
    | nil => exact keeps_nil h.committed
    | cons c t ih =>
      obtain ⟨hc, ht⟩ := List.forall_mem_cons.1 hchars
      exact h.keeps_append hc (ih ht)
  cases hright : rule.right with
  | none => exact keeps_nil h.committed
  | some right =>
    refine hkeeps right fun c hc => keeps_singleton h.committed h.isComplete fun hit hfirst => ?_
    exact h.right rule hrule right hright c hc hit hfirst

theorem settles_singleton (n : Int) : table.Settles [n] := by
  rcases substitute_singleton h.committed h.isComplete n with hkeeps | ⟨hit, hfirst, haction, hs⟩
  · exact hkeeps.settles
  · have hreplace := (h.action _ hfirst.mem).resolve_left haction
    rw [Render.builtin, hreplace] at hs
    refine ⟨_, hs, rfl, ?_⟩
    have hright := h.keeps_right hfirst.mem
    simpa [Substitution.numbers, Piece.numbers] using hright

theorem settles (numbers : List Int) : table.Settles numbers := by
  induction numbers with
  | nil => exact (keeps_nil h.committed).settles
  | cons n numbers ih => exact h.settles_append (h.settles_singleton n) ih

end Table.IsSettling

/-! ## Renderers -/

theorem Render.pieces_of_no_custom {renderer : Option Renderer} {told : List Problem}
    {spans : List Span}
    (h : ∀ span ∈ spans, ∀ hit, span.change? = some hit → hit.rule.action ≠ .custom) :
    pieces renderer told spans = pieces none told spans := by
  induction spans generalizing told with
  | nil => rfl
  | cons span spans ih =>
    obtain ⟨hspan, hspans⟩ := List.forall_mem_cons.1 h
    rw [pieces, pieces]
    cases hchange : span.change? with
    | none => simp only [ih hspans]
    | some hit =>
      have hfragment : fragment renderer hit.rule span.numbers told =
          fragment none hit.rule span.numbers told := by
        unfold fragment
        cases haction : hit.rule.action with
        | custom => exact absurd haction (hspan hit hchange)
        | _ => rfl
      simp only [hfragment, ih hspans]

theorem Table.substitute_of_no_custom (hcomplete : ∀ rule ∈ table.rules, rule.target.IsComplete)
    (h : ∀ rule ∈ table.rules, rule.action ≠ .custom) (numbers : List Int)
    (renderer : Option Renderer) :
    table.substitute numbers renderer = table.substitute numbers := by
  obtain ⟨spans, hspans, hcut⟩ := cut_eq hcomplete 0 numbers
  have hpieces : Render.pieces renderer [] spans = Render.pieces none [] spans := by
    refine Render.pieces_of_no_custom fun span hspan hit hchange => ?_
    obtain ⟨before, after, hsplit⟩ := List.append_of_mem hspan
    obtain ⟨-, hchosen⟩ := hcut.chosen before span after hsplit
    exact h _ (hchosen.of_change hchange).1.mem
  unfold substitute
  rw [hspans, Failure.ok_bind, Failure.ok_bind, hpieces]

theorem Table.IsSettling.substitute (h : table.IsSettling) (numbers : List Int)
    (renderer : Option Renderer) :
    table.substitute numbers renderer = table.substitute numbers := by
  refine substitute_of_no_custom h.isComplete (fun rule hrule hcustom => ?_) numbers renderer
  rcases h.action rule hrule with haction | haction <;> simp [haction] at hcustom

/-! ## Conversions -/

theorem Table.IsSettling.convert (h : table.IsSettling)
    (hwell : ∀ rule ∈ table.rules, rule.WellFormed) (t : Text)
    (renderer renderer' : Option Renderer) :
    ∃ conversion again, table.convert {} t renderer = .ok conversion ∧
      table.convert {} conversion.text renderer' = .ok again ∧
      again.text = conversion.text ∧ again.changes = 0 ∧ again.problems = [] := by
  obtain ⟨decoded, hdecode⟩ := t.exists_decode
  obtain ⟨s, after, hs, hnumbers, hafter, -⟩ :=
    substitute_isScalar h.committed hwell (Text.isScalar_decode hdecode)
  obtain ⟨s', hs', -, again, hagain, hsame, hchanges, hproblems⟩ := h.settles decoded.value.numbers
  obtain rfl : s = s' := Except.ok.inj (hs.symm.trans hs')
  rw [hnumbers] at hagain hsame
  have hencode : encode s.numbers = ⟨after, []⟩ := by rw [hnumbers, hafter.encode]
  refine ⟨_, _, Table.convert_eq_ok.2 ⟨decoded, s, hdecode, ?_, rfl⟩,
    Table.convert_eq_ok.2 ⟨⟨after, []⟩, again, ?_, ?_, rfl⟩, ?_, hchanges, ?_⟩
  · rw [h.substitute, hs]
  · simpa only [hencode] using hafter.decode
  · rw [h.substitute, hagain]
  · simp only [hsame, hencode, hafter.encode]
  · simp only [hsame, hafter.encode, hproblems, List.append_nil]

/-- The fallback puts in hyphens and straight quotation marks, which none of its rules match. -/
theorem Table.isSettling_fallback : Table.fallback.IsSettling where
  committed := rfl
  single := by
    intro rule hrule
    obtain ⟨pair, -, rfl⟩ := List.mem_map.1 hrule
    rfl
  action := by decide
  right := by
    have hno : ∀ pair ∈ fallbackPairs, ∀ c ∈ pair.2, ∀ other ∈ fallbackPairs,
        other.1 ≠ c.number := by decide
    intro rule hrule right hright c hc hit hfirst
    obtain ⟨pair, hpair, rfl⟩ := List.mem_map.1 hrule
    obtain rfl := Option.some.inj hright
    obtain ⟨other, hother, hhit⟩ := List.mem_map.1 hfirst.mem
    obtain ⟨-, -, hpart⟩ := hhit ▸ hfirst.takes
    exact absurd (List.cons_prefix_cons.1 hpart).1 (hno pair hpair c hc other hother)

/-- A table that settles changes nothing in what comes out of it. The fallback is one, and converts
whatever it made of a text, lone surrogates included, to itself with nothing to tell. -/
theorem substitute_idempotent :
    (∀ table : Table, table.IsSettling → ∀ numbers renderer renderer', ∃ s again,
      table.substitute numbers renderer = .ok s ∧
        table.substitute s.numbers renderer' = .ok again ∧
        again.numbers = s.numbers ∧ again.changes = 0) ∧
    Table.fallback.IsSettling ∧
    ∀ t renderer renderer', ∃ conversion again,
      Table.fallback.convert {} t renderer = .ok conversion ∧
        Table.fallback.convert {} conversion.text renderer' = .ok again ∧
        again.text = conversion.text ∧ again.changes = 0 ∧ again.problems = [] := by
  refine ⟨?_, Table.isSettling_fallback,
    Table.isSettling_fallback.convert Table.wellFormed_fallback⟩
  intro table h numbers renderer renderer'
  obtain ⟨s, hs, -, again, hagain, hnumbers, hchanges, -⟩ := h.settles numbers
  exact ⟨s, again, (h.substitute numbers renderer).trans hs,
    (h.substitute s.numbers renderer').trans hagain, hnumbers, hchanges⟩

/-- A letter that is put in and that a later rule would replace if an earlier one did not accept it,
and another one that no rule matches. -/
theorem substitute_idempotent_overlapping :
    let table : Table := ⟨[⟨.accept, .sequence [0x62], none⟩,
      ⟨.replace, .range 0x61 0x63, some "b"⟩, ⟨.replace, .sequence [0x64], some "bx"⟩], true⟩
    let numbers : List Int := [0x64, 0x61, 0x62, 0xD800, -1]
    table.IsSettling ∧ ∃ s again, table.substitute numbers = .ok s ∧
      table.substitute s.numbers = .ok again ∧ again.numbers = s.numbers ∧ again.changes = 0 := by
  intro table numbers
  have hputs : ∀ rule ∈ table.rules, ∀ right ∈ rule.right, ∀ c ∈ right, c = 'b' ∨ c = 'x' := by
    decide
  have hb : table.FirstMatch [0x62] ⟨1, ⟨.accept, .sequence [0x62], none⟩, 1⟩ := by
    refine ⟨by decide, rfl, ⟨by decide, rfl, List.prefix_rfl⟩, fun k rule hk => ?_⟩
    exact absurd hk (by simp)
  have hx : ∀ rule ∈ table.rules, ∀ length, ¬ rule.target.Takes [0x78] length := by
    simp [table, Target.Takes]
  have hsettling : table.IsSettling := by
    refine ⟨rfl, by simp [table, Target.IsSingle], by simp [table], ?_⟩
    intro rule hrule right hright c hc hit hfirst
    rcases hputs rule hrule right hright c hc with rfl | rfl
    · exact hfirst.unique hb ▸ rfl
    · exact absurd hfirst.takes (hx _ hfirst.mem _)
  exact ⟨hsettling, substitute_idempotent.1 table hsettling numbers none none⟩

end PlainForm

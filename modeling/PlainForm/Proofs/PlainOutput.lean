import Mathlib.Data.Set.Operations
import PlainForm.Proofs.Conversion
import PlainForm.Proofs.Loading
import PlainForm.Proofs.Plain

/-!
# Plain output

The purpose of a table that catches every character: what comes out of a conversion is what the
rules let through or put in themselves, and printable ASCII. No rendering brings anything else in.
-/

namespace PlainForm

theorem Encode.mem_text {numbers : List Int} {c : CodePoint} (h : c ∈ Encode.text numbers) :
    c = .questionMark ∨ c.number ∈ numbers := by
  obtain ⟨n, hn, rfl⟩ := List.mem_map.1 h
  unfold Encode.char?
  split
  · next hscalar =>
    rw [CharNumber.isScalar_iff] at hscalar
    have hnumber : ((n.toNat : Nat) : Int) = n := by omega
    exact .inr (by simpa [hnumber] using hn)
  · exact .inl rfl

namespace Table

variable {table : Table} {rest : Text} {span : Span} {rule : Rule} {s : Set CodePoint}

theorem takes_all (hne : rest ≠ []) : (Target.range 0 0x10FFFF).Takes rest.numbers 1 := by
  obtain ⟨c, rest, rfl⟩ := List.exists_cons_of_ne_nil hne
  refine ⟨rfl, c.number, rfl, ?_⟩
  have := c.val_le
  simp only [CodePoint.number]
  omega

theorem Chooses.mem_of_kept (h : table.Chooses rest.numbers span) (hne : rest ≠ [])
    (hscalar : rest.IsScalar) (hrule : rule ∈ table.rules) (hall : rule.target = .range 0 0x10FFFF)
    (haccept : ∀ rule ∈ table.rules, rule.action = .accept → rule.target.MatchesOnly s)
    (hkept : span.change? = none) : ∀ n ∈ span.numbers, ∃ c ∈ s, c.number = n := by
  rcases h.of_kept hkept with ⟨hit, hfirst, haction, htake⟩ | ⟨hno, -⟩
  · have honly := haccept hit.rule hfirst.mem haction
    intro n hn
    rw [htake, Text.numbers, ← List.map_take] at hn
    obtain ⟨c, hc, rfl⟩ := List.mem_map.1 hn
    exact ⟨c, honly rest hit.length hscalar hfirst.takes c hc, rfl⟩
  · exact absurd (hall ▸ takes_all hne) (hno rule hrule 1)

end Table

/-- What a loaded table with a rule for all code points puts out is let through by an accept rule,
put in by a right side, or printable ASCII: it stays in every set that holds all three. Such a table
converts every text that can be decoded. -/
theorem convert_stays_plain (s : Set CodePoint) (hplain : ∀ c : CodePoint, c.isPlain → c ∈ s)
    (loading : Notations) (file : Text) (rules : Option Text) (loaded : Loaded)
    (hload : load loading file rules = .ok loaded)
    (hall : ∃ rule ∈ loaded.table.rules, rule.target = .range 0 0x10FFFF)
    (haccept : ∀ rule ∈ loaded.table.rules, rule.action = .accept → rule.target.MatchesOnly s)
    (hright : ∀ rule ∈ loaded.table.rules, ∀ right ∈ rule.right, ∀ c ∈ right, c ∈ s)
    (notations : Notations) (t : Text) :
    (∀ decoded, t.decode notations = .ok decoded →
      ∃ conversion, loaded.table.convert notations t = .ok conversion) ∧
    ∀ conversion, loaded.table.convert notations t = .ok conversion →
      ∀ c ∈ conversion.text, c ∈ s := by
  obtain ⟨hcommitted, hwell⟩ := Loaded.wellFormed hload
  have hcomplete : ∀ rule ∈ loaded.table.rules, rule.target.IsComplete :=
    fun rule hrule => (hwell rule hrule).target.isComplete
  constructor
  · intro decoded hdecode
    obtain ⟨-, outcome, -, houtcome, -⟩ :=
      Table.substitute_eq hcommitted hcomplete decoded.value none
    exact ⟨_, Table.convert_eq_ok.2 ⟨decoded, outcome, hdecode, houtcome, rfl⟩⟩
  · intro conversion hconvert
    obtain ⟨decoded, outcome, hdecode, houtcome, rfl⟩ := Table.convert_eq_ok.1 hconvert
    obtain ⟨spans, outcome', hcut, houtcome', hrendering, -⟩ :=
      Table.substitute_eq hcommitted hcomplete decoded.value none
    obtain rfl : outcome = outcome' := Except.ok.inj (houtcome.symm.trans houtcome')
    have hscalar := Text.isScalar_decode hdecode
    obtain ⟨rule, hrule, htarget⟩ := hall
    have hnumbers : ∀ n ∈ outcome.numbers, ∃ c ∈ s, c.number = n := by
      refine hrendering.forall_numbers ?_ ?_
      · intro span hspan hkept
        obtain ⟨rest, hsuffix, hne, hchosen⟩ := hcut.exists_suffix hspan
        exact hchosen.mem_of_kept hne (fun c hc => hscalar c (hsuffix.mem hc)) hrule htarget
          haccept hkept
      · intro span hspan hit told fragment hchange hfragment n hn
        obtain ⟨rest, -, -, hchosen⟩ := hcut.exists_suffix hspan
        rw [Render.fragment_none] at hfragment
        obtain ⟨c, hc, rfl⟩ := List.mem_map.1 hn
        rcases Render.mem_builtin hfragment hc with hc | ⟨right, hmem, hc⟩
        · exact ⟨c, hplain c hc, rfl⟩
        · exact ⟨c, hright _ ((hchosen.of_change hchange).1.mem) right hmem c hc, rfl⟩
    intro c hc
    rcases Encode.mem_text hc with rfl | hmem
    · exact hplain _ (by decide)
    · obtain ⟨d, hd, hn⟩ := hnumbers _ hmem
      exact CodePoint.number_inj.1 hn ▸ hd

/-- An accepted letter beyond ASCII, which also stands in a right side, and a lone surrogate. -/
theorem convert_stays_plain_one_accent :
    let rules : Text := "accept U+E9\nreplace \"ab\" = custom 233\nreplace 0:0x10FFFF=uninum"
    let table : Table := ⟨[⟨.accept, .sequence [0xE9], none⟩,
      ⟨.custom, .sequence [0x61, 0x62], some "é"⟩, ⟨.unicode, .range 0 0x10FFFF, none⟩], true⟩
    let s : Set CodePoint := {c | c.isPlain ∨ c = 'é'}
    let t : Text := ⟨0xD800, by decide⟩ :: ("éabc" : Text)
    ∃ loaded, load {} "rules.txt" (some rules) = .ok loaded ∧ loaded.table = table ∧
      (∀ c : CodePoint, c.isPlain → c ∈ s) ∧
      (∃ rule ∈ loaded.table.rules, rule.target = .range 0 0x10FFFF) ∧
      (∀ rule ∈ loaded.table.rules, rule.action = .accept → rule.target.MatchesOnly s) ∧
      (∀ rule ∈ loaded.table.rules, ∀ right ∈ rule.right, ∀ c ∈ right, c ∈ s) ∧
      (∀ decoded, t.decode {} = .ok decoded →
        ∃ conversion, loaded.table.convert {} t = .ok conversion) ∧
      ∀ conversion, loaded.table.convert {} t = .ok conversion → ∀ c ∈ conversion.text, c ∈ s := by
  intro rules table s t
  have hmap : (load {} "rules.txt" (some rules)).map Loaded.table = .ok table := by decide +kernel
  obtain ⟨loaded, hload, htable⟩ := Failure.map_eq_ok.1 hmap
  have hplain : ∀ c : CodePoint, c.isPlain → c ∈ s := fun c hc => .inl hc
  have hall : ∃ rule ∈ loaded.table.rules, rule.target = .range 0 0x10FFFF := by
    rw [htable]
    exact ⟨⟨.unicode, .range 0 0x10FFFF, none⟩, by decide, rfl⟩
  have haccept : ∀ rule ∈ loaded.table.rules, rule.action = .accept →
      rule.target.MatchesOnly s := by
    simp only [htable, table, List.forall_mem_cons, reduceCtorEq, false_imp_iff, true_imp_iff,
      and_true, List.not_mem_nil, implies_true]
    refine Target.matchesOnly_sequence fun c hc => .inr (CodePoint.number_inj.1 ?_)
    exact List.mem_singleton.1 hc
  have hright : ∀ rule ∈ loaded.table.rules, ∀ right ∈ rule.right, ∀ c ∈ right, c ∈ s := by
    simp [htable, table, s, Text.ofString]
  exact ⟨loaded, hload, htable, hplain, hall, haccept, hright,
    convert_stays_plain s hplain {} "rules.txt" (some rules) loaded hload hall haccept hright {} t⟩

end PlainForm

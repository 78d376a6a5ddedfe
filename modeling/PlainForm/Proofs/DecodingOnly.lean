import PlainForm.Proofs.PlainOutput

/-!
# Only decoding has something to tell

A table that was loaded writes scalar values for scalar values, so that neither a rendering nor the
encoding of the outcome has anything to tell. What a conversion tells is what decoding tells, and
its text holds the numbers that the substitution gave, one character each.
-/

namespace PlainForm

variable {rule : Rule} {numbers : List Int} {fragment : Fragment} {t : Text}

/-! ## Renderings -/

/-- Only escapes in 16-bit units have something to tell: the numbers that cannot be encoded. -/
theorem Render.problems_builtin (h : builtin rule numbers = .ok fragment) :
    fragment.problems = if rule.action = .utf16 then Encode.problems numbers else [] := by
  unfold builtin at h
  cases haction : rule.action <;> rw [haction] at h
  case accept | replace | custom | utf16 =>
    cases h
    rfl
  all_goals
    obtain ⟨written, -, h⟩ := Failure.bind_eq_ok.1 h
    cases h
    rfl

theorem Text.IsScalar.encode_problems (h : t.IsScalar) : Encode.problems t.numbers = [] :=
  congrArg Noted.problems h.encode

theorem Rule.WellFormed.renders (h : rule.WellFormed) (hscalar : t.IsScalar)
    (hfragment : Render.builtin rule t.numbers = .ok fragment) :
    fragment.text.IsScalar ∧ fragment.problems = [] := by
  constructor
  · intro c hc
    rcases Render.mem_builtin hfragment hc with hplain | ⟨right, hright, hc⟩
    · exact CodePoint.not_isSurrogate_of_isPlain hplain
    · exact h.right right hright c hc
  · rw [Render.problems_builtin hfragment, hscalar.encode_problems]
    simp

theorem Rendering.problems_eq_nil {renderer : Option Renderer} {told problems : List Problem}
    {spans : List Span} (h : Rendering renderer told spans numbers problems)
    (hchanged : ∀ span ∈ spans, ∀ hit told fragment, span.change? = some hit →
      Render.fragment renderer hit.rule span.numbers told = .ok fragment →
        fragment.problems = []) :
    problems = [] := by
  induction h using Rendering.induction_on_change with
  | nil => rfl
  | kept _ _ ih => exact ih fun span hspan => hchanged span (List.mem_cons_of_mem _ hspan)
  | changed change rendered _ ih =>
    rw [hchanged _ List.mem_cons_self _ _ _ change rendered,
      ih fun span hspan => hchanged span (List.mem_cons_of_mem _ hspan)]
    rfl

/-! ## Substitution -/

namespace Table

variable {table : Table} {span : Span} {hit : Hit}

theorem Chooses.exists_numbers {rest : Text} (h : table.Chooses rest.numbers span) :
    ∃ part : Text, part <+: rest ∧ span.numbers = part.numbers := by
  have htake : ∀ length, rest.numbers.take length = Text.numbers (rest.take length) :=
    fun length => List.map_take.symm
  unfold Chooses at h
  split at h
  · exact ⟨rest.take _, List.take_prefix _ _, h.2.trans (htake _)⟩
  · exact ⟨rest.take 1, List.take_prefix _ _, h.2.trans (htake 1)⟩

theorem IsCut.exists_numbers {spans : List Span} (h : table.IsCut 0 t.numbers spans)
    (hscalar : t.IsScalar) (hspan : span ∈ spans) :
    ∃ part : Text, part.IsScalar ∧ span.numbers = part.numbers := by
  obtain ⟨rest, hsuffix, -, hchosen⟩ := h.exists_suffix hspan
  obtain ⟨part, hpart, hnumbers⟩ := hchosen.exists_numbers
  exact ⟨part, fun c hc => hscalar c (hsuffix.mem (hpart.mem hc)), hnumbers⟩

theorem substitute_isScalar (hcommitted : table.committed)
    (hwell : ∀ rule ∈ table.rules, rule.WellFormed) (hscalar : t.IsScalar) :
    ∃ s after, table.substitute t.numbers = .ok s ∧ s.numbers = Text.numbers after ∧
      after.IsScalar ∧ s.problems = [] := by
  obtain ⟨spans, s, hcut, hs, hrendering, -⟩ := substitute_eq hcommitted
    (fun rule hrule => (hwell rule hrule).target.isComplete) t none
  have hfragments : ∀ span ∈ spans, ∀ hit told fragment, span.change? = some hit →
      Render.fragment none hit.rule span.numbers told = .ok fragment →
        fragment.text.IsScalar ∧ fragment.problems = [] := by
    intro span hspan hit told fragment hchange hfragment
    obtain ⟨rest, -, -, hchosen⟩ := hcut.exists_suffix hspan
    obtain ⟨part, hpart, hnumbers⟩ := hcut.exists_numbers hscalar hspan
    rw [Render.fragment_none, hnumbers] at hfragment
    exact (hwell _ (hchosen.of_change hchange).1.mem).renders hpart hfragment
  have hnumbers : ∀ n ∈ s.numbers, CharNumber.isScalar n := by
    refine hrendering.forall_numbers (p := (CharNumber.isScalar ·)) ?_ ?_
    · intro span hspan _
      obtain ⟨part, hpart, hnumbers⟩ := hcut.exists_numbers hscalar hspan
      rw [hnumbers]
      exact hpart.numbers
    · intro span hspan hit told fragment hchange hfragment
      exact (hfragments span hspan hit told fragment hchange hfragment).1.numbers
  obtain ⟨after, hafter, hafterScalar⟩ := Text.exists_numbers hnumbers
  refine ⟨s, after, hs, hafter, hafterScalar, hrendering.problems_eq_nil ?_⟩
  intro span hspan hit told fragment hchange hfragment
  exact (hfragments span hspan hit told fragment hchange hfragment).2

end Table

/-! ## Conversion -/

/-- A loaded table converts every text that can be decoded. What it tells is what decoding tells:
neither the substitution nor the encoding of its outcome adds anything. The text holds no surrogate,
and its characters are the numbers that the substitution gave. -/
theorem convert_tells_decoding (loading : Notations) (file : Text) (rules : Option Text)
    (loaded : Loaded) (hload : load loading file rules = .ok loaded) (notations : Notations)
    (t : Text) :
    (∀ decoded, t.decode notations = .ok decoded →
      ∃ conversion, loaded.table.convert notations t = .ok conversion) ∧
    ∀ conversion, loaded.table.convert notations t = .ok conversion →
      ∃ decoded s, t.decode notations = .ok decoded ∧
        loaded.table.substitute decoded.value.numbers = .ok s ∧
        s.problems = [] ∧ (encode s.numbers).problems = [] ∧
        conversion.problems = decoded.problems ∧ conversion.text.IsScalar ∧
        conversion.text.numbers = s.numbers := by
  obtain ⟨hcommitted, hwell⟩ := Loaded.wellFormed hload
  have hconverts : ∀ decoded, t.decode notations = .ok decoded →
      ∃ s after, loaded.table.substitute decoded.value.numbers = .ok s ∧
        s.numbers = Text.numbers after ∧ after.IsScalar ∧ s.problems = [] :=
    fun decoded hdecode =>
      Table.substitute_isScalar hcommitted hwell (Text.isScalar_decode hdecode)
  constructor
  · intro decoded hdecode
    obtain ⟨s, -, hs, -⟩ := hconverts decoded hdecode
    exact ⟨_, Table.convert_eq_ok.2 ⟨decoded, s, hdecode, hs, rfl⟩⟩
  · intro conversion hconvert
    obtain ⟨decoded, s, hdecode, hs, rfl⟩ := Table.convert_eq_ok.1 hconvert
    obtain ⟨s', after, hs', hnumbers, hafter, hproblems⟩ := hconverts decoded hdecode
    obtain rfl : s = s' := Except.ok.inj (hs.symm.trans hs')
    have hencode : encode s.numbers = ⟨after, []⟩ := by rw [hnumbers, hafter.encode]
    refine ⟨decoded, s, hdecode, hs, hproblems, by rw [hencode], ?_, ?_, ?_⟩
    · simp [hproblems, hencode]
    · simpa only [hencode] using hafter
    · rw [hencode, hnumbers]

/-- A rule for all surrogates, halves of a pair in two notations behind a surrogate that stands
alone, and a reference that cannot be read. -/
theorem convert_tells_decoding_lone_half :
    let rules : Text := "replace U+D800..U+DFFF = java16\nreplace \"ab\" = custom 0x1F600\n" ++
      "replace 0x10000:0x10FFFF = java16"
    let notations : Notations := { backslash := true, xml := true }
    let t : Text := ⟨0xD800, by decide⟩ :: ("\\ud83d&#xDE00;ab&c" : Text)
    let decoded : Noted Text := ⟨[⟨0x3F, by decide⟩, ⟨0x1F600, by decide⟩, 'a', 'b', '&', 'c'],
      [.unpairedHighSurrogate ⟨0xD800, by decide⟩ (some ⟨0xD83D, by decide⟩),
        .unknownEntity "&c"]⟩
    ∃ loaded, load {} "rules.txt" (some rules) = .ok loaded ∧
      t.decode notations = .ok decoded ∧
      ∃ conversion s, loaded.table.convert notations t = .ok conversion ∧
        loaded.table.substitute decoded.value.numbers = .ok s ∧
        conversion.problems = decoded.problems ∧ conversion.text.IsScalar ∧
        conversion.text.numbers = s.numbers := by
  intro rules notations t decoded
  have hrules : (load {} "rules.txt" (some rules)).map Loaded.table =
      .ok ⟨[⟨.utf16, .range 0xD800 0xDFFF, none⟩, ⟨.custom, .sequence [0x61, 0x62], some "😀"⟩,
        ⟨.utf16, .range 0x10000 0x10FFFF, none⟩], true⟩ := by decide +kernel
  obtain ⟨loaded, hload, -⟩ := Failure.map_eq_ok.1 hrules
  have hdecode : t.decode notations = .ok decoded := by decide +kernel
  obtain ⟨hconverts, htells⟩ :=
    convert_tells_decoding {} "rules.txt" (some rules) loaded hload notations t
  obtain ⟨conversion, hconvert⟩ := hconverts decoded hdecode
  obtain ⟨decoded', s, hdecode', hs, -, -, hproblems, hscalar, hnumbers⟩ :=
    htells conversion hconvert
  obtain rfl : decoded = decoded' := Except.ok.inj (hdecode.symm.trans hdecode')
  exact ⟨loaded, hload, hdecode, conversion, s, hconvert, hs, hproblems, hscalar, hnumbers⟩

end PlainForm

import PlainForm.Proofs.RuleLine.Contract
import PlainForm.Rulebook

/-!
# Loaded tables

Whatever text rules are loaded from, the table that comes of it can be applied, and its rules are
well-formed. A rulebook keeps this from line to line.
-/

namespace PlainForm

/-! ## What is told while rules are read -/

namespace Problem

/-- Decoding tells it, or it is a mistake in a line. -/
def OfRules (p : Problem) : Prop := p.isDecoding ∨ ∃ m, p = mistake m

/-- What is told about a number that cannot be written begins with these words. -/
def invalidNumberWords : Text := "Invalid Unicode character number"

theorem not_prefix_append {a b : Text} (h : ¬ (a <+: b ∨ b <+: a)) (t : Text) : ¬ a <+: b ++ t :=
  fun hp => h (List.prefix_or_prefix_of_prefix hp (List.prefix_append b t))

theorem message_of_mistake (m : Mistake) : ¬ invalidNumberWords <+: m.message := by
  cases m <;> simp only [Mistake.message, List.append_assoc]
  case missingVerb | missingSpace | missingLeft | emptyLeft | missingRight => decide
  all_goals exact not_prefix_append (by decide) _

theorem message_of_decoding {p : Problem} (h : p.isDecoding) :
    ¬ invalidNumberWords <+: p.message := by
  cases p with
  | invalidReference | unknownEntity | invalidHexEscape | unknownEscape | unpairedLowSurrogate =>
    exact not_prefix_append (by decide) _
  | unpairedHighSurrogate unit next =>
    cases next <;> simp only [message, List.append_assoc] <;> exact not_prefix_append (by decide) _
  | _ => cases h

theorem OfRules.message {p : Problem} (h : p.OfRules) : ¬ invalidNumberWords <+: p.message := by
  rcases h with h | ⟨m, rfl⟩
  · exact message_of_decoding h
  · exact message_of_mistake m

end Problem

/-! ## Entries -/

theorem Entry.read_sound {notations : Notations} {lineNumber : Nat} {line : Text} {entry : Entry}
    (h : Entry.read notations lineNumber line = .ok entry) :
    (∀ rule ∈ entry.rule, rule.WellFormed) ∧
      ∀ p ∈ entry.problems, p.OfRules := by
  have hmeets := RuleLine.read_meets notations line
  unfold Entry.read at h
  dsimp only at h
  split at h
  · next rule hrule =>
    cases h
    refine ⟨?_, fun p hp => .inl (hmeets.problems p hp)⟩
    intro rule' hmem
    obtain rfl := Option.some.inj hmem
    exact hmeets.value rule hrule
  · next m hm =>
    cases h
    refine ⟨by simp, ?_⟩
    intro p hp
    rcases List.mem_append.1 hp with hp | hp
    · exact .inl (hmeets.problems p hp)
    · obtain rfl := List.mem_singleton.1 hp
      exact .inr ⟨m, rfl⟩
  · cases h

/-! ## The book -/

namespace Rulebook

/-- What holds of a book whatever it has read. -/
structure Sound (book : Rulebook) : Prop where
  rules : ∀ rule ∈ book.table.rules, rule.WellFormed
  diagnostics : ∀ d ∈ book.diagnostics, d.problem.OfRules

variable {book : Rulebook}

theorem sound_new (notations : Notations) : Sound { notations } where
  rules := by simp
  diagnostics := by simp

theorem Sound.tell (h : book.Sound) (file : Text) {entry : Entry}
    (hp : ∀ p ∈ entry.problems, p.OfRules) :
    Sound { book with diagnostics := book.diagnostics ++ entry.diagnostics file } where
  rules := h.rules
  diagnostics := by
    intro d hd
    rcases List.mem_append.1 hd with hd | hd
    · exact h.diagnostics d hd
    · obtain ⟨p, hmem, rfl⟩ := List.mem_map.1 hd
      exact hp p hmem

theorem Sound.enter (h : book.Sound) (file : Text) {entry : Entry}
    (hrule : ∀ rule ∈ entry.rule, rule.WellFormed)
    (hp : ∀ p ∈ entry.problems, p.OfRules) :
    (book.enter file entry).book.Sound := by
  have htold := h.tell file hp
  unfold Rulebook.enter
  split
  · exact htold
  · next rule hr =>
    split
    · next table htable =>
      refine ⟨?_, htold.diagnostics⟩
      unfold Table.add at htable
      split at htable
      · cases htable
      · cases htable
        intro r hmem
        rcases List.mem_append.1 hmem with hmem | hmem
        · exact h.rules r hmem
        · obtain rfl := List.mem_singleton.1 hmem
          exact hrule r hr
    · exact htold

/-- A line keeps the book sound, also one that makes it give up. -/
theorem Sound.readLine (h : book.Sound) (file line : Text) (lineNumber : Nat) :
    (book.readLine file line lineNumber).book.Sound := by
  unfold Rulebook.readLine
  split
  · next entry hentry =>
    obtain ⟨hrule, hp⟩ := Entry.read_sound hentry
    exact h.enter file hrule hp
  · exact h

theorem Sound.readLines (h : book.Sound) (file : Text) (lines : List (Text × Nat)) :
    (book.readLines file lines).book.Sound := by
  induction lines generalizing book with
  | nil => exact h
  | cons first lines ih =>
    obtain ⟨line, lineNumber⟩ := first
    have hfirst := h.readLine file line lineNumber
    unfold Rulebook.readLines
    dsimp only
    split
    · exact hfirst
    · exact ih hfirst

end Rulebook

/-! ## Loading -/

theorem Loaded.wellFormed {notations : Notations} {file : Text} {rules : Option Text}
    {loaded : Loaded} (h : load notations file rules = .ok loaded) :
    loaded.table.committed ∧ ∀ rule ∈ loaded.table.rules, rule.WellFormed := by
  have hsound : (Rulebook.read { notations } file rules).book.Sound :=
    (Rulebook.sound_new notations).readLines file _
  unfold load at h
  dsimp only at h
  split at h
  · cases h
  · unfold Rulebook.enact at h
    split at h
    · cases h
      exact ⟨rfl, Table.wellFormed_fallback⟩
    · cases h
      exact ⟨rfl, hsound.rules⟩

/-- A table that is loaded can be applied and has rules, all of them well-formed. Nothing is told of
numbers that cannot be written. -/
theorem load_wellFormed (notations : Notations) (file : Text) (rules : Option Text)
    (loaded : Loaded) (h : load notations file rules = .ok loaded) :
    loaded.table.committed ∧ loaded.table.rules ≠ [] ∧
      (∀ rule ∈ loaded.table.rules, rule.WellFormed) ∧
      ∀ d ∈ loaded.diagnostics, ¬ Problem.invalidNumberWords <+: d.message := by
  have hsound : (Rulebook.read { notations } file rules).book.Sound :=
    (Rulebook.sound_new notations).readLines file _
  have htold : ∀ d ∈ (Rulebook.read { notations } file rules).book.diagnostics,
      ¬ Problem.invalidNumberWords <+: d.message := by
    intro d hd
    exact (hsound.diagnostics d hd).message
  unfold load at h
  dsimp only at h
  split at h
  · cases h
  · unfold Rulebook.enact at h
    split at h
    · cases h
      exact ⟨rfl, List.cons_ne_nil _ _, Table.wellFormed_fallback, htold⟩
    · next hne =>
      cases h
      exact ⟨rfl, hne, hsound.rules, htold⟩

/-- Halves of a pair in two notations, a range of surrogates, a special action with no right side,
and a line with a mistake. -/
theorem load_wellFormed_three_rules :
    let notations : Notations := { backslash := true, xml := true }
    let rules : Text := "delete \"\\ud83d&#xDE00;\" 65\nreplace U+D800..57343 = OCTNUM\nbogus\n"
    let table : Table := ⟨[⟨.replace, .sequence [0x1F600, 65], some []⟩,
      ⟨.octal, .range 0xD800 0xDFFF, none⟩], true⟩
    ∃ loaded, load notations "rules.txt" (some rules) = .ok loaded ∧ loaded.table = table ∧
      loaded.table.committed ∧ loaded.table.rules ≠ [] ∧
      (∀ rule ∈ loaded.table.rules, rule.WellFormed) ∧
      ∀ d ∈ loaded.diagnostics, ¬ Problem.invalidNumberWords <+: d.message := by
  intro notations rules table
  have htable : (load notations "rules.txt" (some rules)).map Loaded.table = .ok table := by
    decide +kernel
  obtain ⟨loaded, hload, htable⟩ := Failure.map_eq_ok.1 htable
  exact ⟨loaded, hload, htable, load_wellFormed notations "rules.txt" (some rules) loaded hload⟩

end PlainForm

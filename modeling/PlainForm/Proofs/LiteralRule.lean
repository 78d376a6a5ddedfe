import PlainForm.Proofs.Conversion
import PlainForm.Proofs.Decode.Spelling
import PlainForm.Proofs.LineEnds
import PlainForm.Proofs.RuleLine.Accepts
import PlainForm.Rulebook

/-!
# One literal rule

A rules text of a single line that puts one text in place of another. Its table is plain text
replacement: occurrences are found from the left and do not overlap, and what is put in is not
looked at again.
-/

namespace PlainForm

variable {old new x after : Text} {count : Nat}

/-! ## Text replacement -/

namespace Text

/-- `after` is `before` with the occurrences of `old` replaced by `new` from the left, and `count`
is how many there are. Behind an occurrence the search goes on with what follows it. -/
inductive Replaces (old new : Text) : (before after : Text) → (count : Nat) → Prop where
  | done : Replaces old new [] [] 0
  | replaced {rest after count} (later : Replaces old new rest after count) :
      Replaces old new (old ++ rest) (new ++ after) (count + 1)
  | copied {c rest after count} (absent : ¬ old <+: c :: rest)
      (later : Replaces old new rest after count) :
      Replaces old new (c :: rest) (c :: after) count

theorem Replaces.of_occurrence {rest : Text} (hne : old ≠ [])
    (h : Replaces old new (old ++ rest) after count) :
    ∃ after' count', after = new ++ after' ∧ count = count' + 1 ∧
      Replaces old new rest after' count' := by
  generalize hx : old ++ rest = x at h
  cases h with
  | done => exact absurd (List.append_eq_nil_iff.1 hx).1 hne
  | replaced later =>
    obtain rfl := List.append_cancel_left hx
    exact ⟨_, _, rfl, rfl, later⟩
  | copied absent => exact absurd ⟨rest, hx⟩ absent

theorem Replaces.of_absent {c : CodePoint} {rest : Text} (absent : ¬ old <+: c :: rest)
    (h : Replaces old new (c :: rest) after count) :
    ∃ after', after = c :: after' ∧ Replaces old new rest after' count := by
  generalize hx : c :: rest = x at h absent
  cases h with
  | done => cases hx
  | replaced => exact absurd (List.prefix_append _ _) absent
  | copied _ later =>
    obtain ⟨rfl, rfl⟩ := List.cons.inj hx
    exact ⟨_, rfl, later⟩

theorem Replaces.unique (hne : old ≠ []) {after' : Text} {count' : Nat}
    (h : Replaces old new x after count) (h' : Replaces old new x after' count') :
    after = after' ∧ count = count' := by
  induction h generalizing after' count' with
  | done =>
    generalize hx : ([] : Text) = x at h'
    cases h' with
    | done => exact ⟨rfl, rfl⟩
    | replaced => exact absurd (List.append_eq_nil_iff.1 hx.symm).1 hne
    | copied => cases hx
  | replaced _ ih =>
    obtain ⟨_, _, rfl, rfl, hlater⟩ := h'.of_occurrence hne
    obtain ⟨rfl, rfl⟩ := ih hlater
    exact ⟨rfl, rfl⟩
  | copied absent _ ih =>
    obtain ⟨_, rfl, hlater⟩ := h'.of_absent absent
    obtain ⟨rfl, rfl⟩ := ih hlater
    exact ⟨rfl, rfl⟩

theorem Replaces.isScalar (h : Replaces old new x after count) (hnew : new.IsScalar)
    (hx : x.IsScalar) : after.IsScalar := by
  induction h with
  | done => exact isScalar_nil
  | replaced _ ih => exact hnew.append (ih fun c hc => hx c (List.mem_append_right _ hc))
  | copied _ _ ih =>
    exact List.forall_mem_cons.2
      ⟨hx _ List.mem_cons_self, ih fun c hc => hx c (List.mem_cons_of_mem _ hc)⟩

end Text

/-! ## Substitution -/

def literalRule (old new : Text) : Rule := ⟨.replace, .sequence old.numbers, some new⟩

def literalTable (old new : Text) : Table := ⟨[literalRule old new], true⟩

open Text (Replaces)

namespace Table

variable {rest : Text} {span : Span} {hit : Hit}

theorem takes_literalRule {length : Nat} : (literalRule old new).target.Takes x.numbers length ↔
    old ≠ [] ∧ length = old.length ∧ old <+: x := by
  have hpart : old.numbers <+: x.numbers ↔ old <+: x := by
    rw [List.prefix_iff_eq_take, List.prefix_iff_eq_take, Text.numbers, Text.numbers,
      List.length_map, ← List.map_take]
    exact Text.numbers_inj
  show old.numbers ≠ [] ∧ length = old.numbers.length ∧ old.numbers <+: x.numbers ↔ _
  rw [hpart, Text.numbers, List.length_map, ne_eq, List.map_eq_nil_iff]

theorem Chooses.literal_kept (hne : old ≠ []) (h : (literalTable old new).Chooses x.numbers span)
    (hfilled : span.numbers ≠ []) (hkept : span.change? = none) :
    ∃ c rest, x = c :: rest ∧ span.numbers = [c.number] ∧ ¬ old <+: x := by
  have hx : x ≠ [] := by
    rintro rfl
    exact h.rest_ne_nil hfilled rfl
  obtain ⟨c, rest, rfl⟩ := List.exists_cons_of_ne_nil hx
  rcases h.of_kept hkept with ⟨hit, hfirst, haccept, -⟩ | ⟨hno, hnumbers⟩
  · rw [List.mem_singleton.1 hfirst.mem] at haccept
    cases haccept
  · refine ⟨c, rest, rfl, hnumbers, fun hpart => ?_⟩
    exact hno _ List.mem_cons_self old.length (takes_literalRule.2 ⟨hne, rfl, hpart⟩)

theorem Chooses.literal_changed (h : (literalTable old new).Chooses x.numbers span)
    (hchange : span.change? = some hit) {told : List Problem} {fragment : Fragment}
    (hfragment : Render.fragment none hit.rule span.numbers told = .ok fragment) :
    (∃ rest, x = old ++ rest) ∧ span.numbers = old.numbers ∧ fragment = { text := new } := by
  obtain ⟨hfirst, -, hnumbers⟩ := h.of_change hchange
  have hrule : hit.rule = literalRule old new := List.mem_singleton.1 hfirst.mem
  have htakes := hfirst.takes
  rw [hrule] at htakes hfragment
  obtain ⟨-, hlength, rest, rfl⟩ := takes_literalRule.1 htakes
  refine ⟨⟨rest, rfl⟩, ?_, (Except.ok.inj hfragment).symm⟩
  rw [hnumbers, hlength, Text.numbers, ← List.map_take, List.take_left]
  rfl

theorem replaces_of_rendering (hne : old ≠ []) {start : Nat} {spans : List Span}
    {told problems : List Problem} {numbers : List Int}
    (hcut : (literalTable old new).IsCut start x.numbers spans)
    (hrendering : Rendering none told spans numbers problems) :
    problems = [] ∧ ∃ after, numbers = after.numbers ∧
      Replaces old new x after (spans.countP Span.isChange) := by
  -- What is left of the text behind a span has the rest of the spans for its cut.
  induction hrendering using Rendering.induction_on_change generalizing start x with
  | nil =>
    obtain rfl : [] = x := Text.numbers_inj.1 hcut.whole
    exact ⟨rfl, [], rfl, .done⟩
  | @kept _ span spans _ _ hkept _ ih =>
    obtain ⟨-, hfilled, hchosen, rest', hsplit, hcut'⟩ := isCut_cons_iff.1 hcut
    obtain ⟨c, rest, rfl, hnumbers, habsent⟩ := hchosen.literal_kept hne hfilled hkept
    rw [hnumbers] at hsplit ⊢
    obtain rfl : Text.numbers rest = rest' := (List.cons.inj hsplit).2
    obtain ⟨rfl, after, rfl, hreplaces⟩ := ih hcut'
    have hcount : Span.isChange span = false := by simp [Span.isChange_eq, hkept]
    rw [List.countP_cons_of_neg (by simp [hcount])]
    exact ⟨rfl, c :: after, rfl, .copied habsent hreplaces⟩
  | @changed _ span spans _ _ hit fragment hchange hfragment _ ih =>
    obtain ⟨-, hfilled, hchosen, rest', hsplit, hcut'⟩ := isCut_cons_iff.1 hcut
    obtain ⟨⟨rest, rfl⟩, hnumbers, rfl⟩ := hchosen.literal_changed hchange hfragment
    rw [hnumbers, Text.numbers, List.map_append] at hsplit
    obtain rfl : Text.numbers rest = rest' := List.append_cancel_left hsplit
    obtain ⟨rfl, after, rfl, hreplaces⟩ := ih hcut'
    have hcount : Span.isChange span := by simp [Span.isChange_eq, hchange]
    rw [List.countP_cons_of_pos hcount]
    exact ⟨rfl, new ++ after, List.map_append.symm, .replaced hreplaces⟩

theorem convert_literalTable (hne : old ≠ []) (hnew : new.IsScalar) (hx : x.IsScalar) :
    ∃ conversion, (literalTable old new).convert {} x = .ok conversion ∧
      Replaces old new x conversion.text conversion.changes ∧ conversion.problems = [] := by
  have hcomplete : ∀ rule ∈ (literalTable old new).rules, rule.target.IsComplete := by
    simp [literalTable, literalRule, Target.IsComplete]
  obtain ⟨spans, s, hcut, hs, hrendering, hchanges⟩ := substitute_eq rfl hcomplete x none
  obtain ⟨hproblems, after, hnumbers, hreplaces⟩ := replaces_of_rendering hne hcut hrendering
  refine ⟨_, convert_eq_ok.2 ⟨⟨x, []⟩, s, hx.decode, hs, rfl⟩, ?_⟩
  have hafter := hreplaces.isScalar hnew hx
  simp only [hnumbers, hproblems, hafter.encode, hchanges]
  exact ⟨hreplaces, rfl⟩

end Table

/-! ## Loading a single line -/

namespace Text

theorem lines_eq_singleton {t : Text} (hne : t ≠ []) (hmark : t.head? ≠ some .byteOrderMark)
    (hreturn : ('\r' : CodePoint) ∉ t) (hfeed : ('\n' : CodePoint) ∉ t) : t.lines = [t] := by
  have hline : t.IsLine := fun c hc => ⟨fun h => hreturn (h ▸ hc), fun h => hfeed (h ▸ hc)⟩
  have hpieces : pieces t.dropMark = [] ++ [t] := by
    rw [dropMark_of_head hmark]
    exact pieces_line hline
  rw [lines_of_pieces hpieces, if_neg hne]
  rfl

end Text

theorem load_line {notations : Notations} {line : Text} {rule : Rule}
    (hlines : line.lines = [line]) (hrule : Entry.isIgnorable line = false)
    (hread : RuleLine.read notations line = ⟨.ok rule, []⟩) (file : Text) :
    ∃ loaded, load notations file (some line) = .ok loaded ∧ loaded.table = ⟨[rule], true⟩ ∧
      loaded.diagnostics = [] := by
  have hruleLines : ruleLines line = [(line, 1)] := by
    rw [ruleLines, hlines]
    simp [hrule]
  have hentry : Entry.read notations 1 line = .ok ⟨1, line, [], some rule⟩ := by
    rw [Entry.read, hread]
  refine ⟨⟨⟨[rule], true⟩, [], Entry.log ⟨1, line, [], some rule⟩⟩, ?_, rfl, rfl⟩
  simp [load, Rulebook.read, hruleLines, Rulebook.readLines, Rulebook.readLine, hentry,
    Rulebook.enter, Entry.diagnostics, Table.add, Rulebook.enact, Table.commit]

/-! ## The literal line -/

def literalLine (old new : Text) : Text := "replace \"" ++ old ++ "\" = \"" ++ new ++ "\""

/-- No quotation mark and no end of a line. -/
def Text.IsQuotable (t : Text) : Prop := ∀ c ∈ t, c ≠ '"' ∧ c ≠ '\r' ∧ c ≠ '\n'

instance (t : Text) : Decidable t.IsQuotable :=
  inferInstanceAs (Decidable (∀ c ∈ t, c ≠ '"' ∧ c ≠ '\r' ∧ c ≠ '\n'))

theorem not_mem_literalLine {c : CodePoint} (hc : c = '\r' ∨ c = '\n') (hold : old.IsQuotable)
    (hnew : new.IsQuotable) : c ∉ literalLine old new := by
  have hinner : ∀ {t : Text}, t.IsQuotable → c ∉ t := by
    intro t ht hmem
    rcases hc with rfl | rfl
    · exact (ht _ hmem).2.1 rfl
    · exact (ht _ hmem).2.2 rfl
  have hmarks : c ∉ Text.ofString "replace \"" ∧ c ∉ Text.ofString "\" = \"" ∧
      c ∉ Text.ofString "\"" := by
    rcases hc with rfl | rfl <;> decide
  simp only [literalLine, List.mem_append, not_or]
  exact ⟨⟨⟨⟨hmarks.1, hinner hold⟩, hmarks.2.1⟩, hinner hnew⟩, hmarks.2.2⟩

theorem read_literalLine (hne : old ≠ []) (hold : old.IsScalar) (hold' : old.IsQuotable)
    (hnew : new.IsScalar) (hnew' : new.IsQuotable) :
    RuleLine.read {} (literalLine old new) = ⟨.ok (literalRule old new), []⟩ := by
  have hquoted : ∀ {t : Text}, t.IsQuotable →
      Grammar.WrittenRow ('"' :: (t ++ [('"' : CodePoint)])) [.quoted t] :=
    fun ht => .single (.quoted fun hmem => (ht _ hmem).1 rfl)
  have hdenotes : ∀ {t : Text}, t.IsScalar → Grammar.Denotes false [.quoted t] t [] := by
    intro t ht
    have hrow := Grammar.Denotes.quoted ht.decode .nil
    simpa using hrow
  have hline : literalLine old new = RuleLine.Verb.replace.word ++ Text.ofString " " ++
      (('"' : CodePoint) :: (old ++ [('"' : CodePoint)]) ++ (Text.ofString " " ++
        ('=' : CodePoint) ::
          (Text.ofString " " ++ ('"' : CodePoint) :: (new ++ [('"' : CodePoint)]) ++ []))) := by
    simp only [literalLine, List.append_assoc, List.cons_append, List.append_nil]
    rfl
  have hwritten := Grammar.WrittenLine.replace (Grammar.writtenVerb .replace)
    (.row (hquoted hold')) Grammar.blanks_space
    (.row Grammar.blanks_space (hquoted hnew')) (.blank Grammar.blanks_nil)
  rw [← hline] at hwritten
  have hrule := Grammar.Line.Denotes.replace (.row (hdenotes hold) hne) (.row (hdenotes hnew))
  have hfeed := not_mem_literalLine (.inr rfl) hold' hnew'
  have hshort : ∀ t : Text, Grammar.ShortNumbers [.quoted t] := by simp [Grammar.ShortNumbers]
  have hl : (Grammar.Line.replace (.row [.quoted old]) (.row [.quoted new])).IsShort :=
    ⟨hshort old, hshort new⟩
  exact RuleLine.read_written_of_isShort hfeed hl hwritten hrule

/-- Loading the line gives the one rule, and conversion with it is text replacement: the outcome and
the number of changes are those of `Replaces`, and there is nothing to be told. Neither text needs
to be short, and nothing in them is taken for a part of the line. -/
theorem convert_literalLine (old new : Text) (hne : old ≠ []) (hold : old.IsScalar)
    (hnew : new.IsScalar) (hold' : old.IsQuotable) (hnew' : new.IsQuotable) (file : Text) :
    ∃ loaded, load {} file (some (literalLine old new)) = .ok loaded ∧
      loaded.table = literalTable old new ∧ loaded.diagnostics = [] ∧
      ∀ x : Text, x.IsScalar → ∃ conversion, loaded.table.convert {} x = .ok conversion ∧
        (∀ after count, Replaces old new x after count ↔
          after = conversion.text ∧ count = conversion.changes) ∧
        conversion.problems = [] := by
  have hlines : (literalLine old new).lines = [literalLine old new] :=
    Text.lines_eq_singleton (List.cons_ne_nil _ _)
      (show some ('r' : CodePoint) ≠ some .byteOrderMark by decide)
      (not_mem_literalLine (.inl rfl) hold' hnew') (not_mem_literalLine (.inr rfl) hold' hnew')
  obtain ⟨loaded, hload, htable, hdiagnostics⟩ :=
    load_line hlines rfl (read_literalLine hne hold hold' hnew hnew') file
  refine ⟨loaded, hload, htable, hdiagnostics, fun x hx => ?_⟩
  obtain ⟨conversion, hconvert, hreplaces, hproblems⟩ :=
    Table.convert_literalTable (x := x) hne hnew hx
  refine ⟨conversion, htable ▸ hconvert, fun after count => ⟨fun h => ?_, ?_⟩, hproblems⟩
  · exact h.unique hne hreplaces
  · rintro ⟨rfl, rfl⟩
    exact hreplaces

/-- Occurrences that overlap, one that is only there after replacement, and one at the end. -/
theorem convert_literalLine_overlap :
    let old : Text := "aa"
    let new : Text := "a# = .. &amp;\\n7"
    let x : Text := "aaabaa"
    old ≠ [] ∧ old.IsScalar ∧ new.IsScalar ∧ old.IsQuotable ∧ new.IsQuotable ∧ x.IsScalar ∧
      ∃ loaded, load {} "rules.txt" (some (literalLine old new)) = .ok loaded ∧
        loaded.table = literalTable old new ∧ loaded.diagnostics = [] ∧
        ∃ conversion, loaded.table.convert {} x = .ok conversion ∧
          conversion.text = new ++ ("ab" ++ new) ∧ conversion.changes = 2 ∧
          conversion.problems = [] := by
  intro old new x
  have hne : old ≠ [] := by decide
  have hold : old.IsScalar := by decide
  have hnew : new.IsScalar := by decide
  have hold' : old.IsQuotable := by decide
  have hnew' : new.IsQuotable := by decide
  have hx : x.IsScalar := by decide
  have hreplaces : Replaces old new x (new ++ ("ab" ++ new)) 2 := by
    have hend : Replaces old new "aa" (new ++ []) 1 := .replaced .done
    rw [List.append_nil] at hend
    exact .replaced (.copied (by decide) (.copied (by decide) hend))
  obtain ⟨loaded, hload, htable, hdiagnostics, hall⟩ :=
    convert_literalLine old new hne hold hnew hold' hnew' "rules.txt"
  obtain ⟨conversion, hconvert, hiff, hproblems⟩ := hall x hx
  obtain ⟨htext, hchanges⟩ := (hiff _ _).1 hreplaces
  exact ⟨hne, hold, hnew, hold', hnew', hx, loaded, hload, htable, hdiagnostics, conversion,
    hconvert, htext.symm, hchanges.symm, hproblems⟩

end PlainForm

import PlainForm.Proofs.Conversion

/-!
# Resuming a substitution

A substitution that is cut off where a span ends and taken up again there comes to the same as one
that was never cut off. The numbers behind the end of a span have no part in the match, and a rule
that they keep from matching does not match without them either.
-/

namespace PlainForm

/-! ## What is looked at -/

/-- The table looks for a match at the index, or the index is the end of the numbers. -/
def Table.Visits (table : Table) (numbers : List Int) (index : Nat) : Prop :=
  ∃ spans, table.cut 0 numbers = .ok spans ∧
    (index = numbers.length ∨ ∃ span ∈ spans, span.start = index)

/-- The target matches no more than one number. -/
def Target.IsSingle : Target → Prop
  | range .. => True
  | sequence numbers => numbers.length = 1
  | brokenRange .. => False

/-- Both parts give a result if the whole does, and the other way around. Then the numbers and the
problems of the whole are those of the parts one after the other, and the changes add up. -/
structure Substitution.IsJoined (whole first later : Except Failure Substitution) : Prop where
  parts : ∀ s, whole = .ok s → ∃ a b, first = .ok a ∧ later = .ok b ∧
    s.numbers = a.numbers ++ b.numbers ∧ s.changes = a.changes + b.changes ∧
    s.problems = a.problems ++ b.problems
  whole : ∀ a b, first = .ok a → later = .ok b → ∃ s, whole = .ok s

theorem Substitution.IsJoined.exists_whole {whole first later : Except Failure Substitution}
    (h : IsJoined whole first later) {a b : Substitution} (ha : first = .ok a)
    (hb : later = .ok b) : ∃ s, whole = .ok s ∧ s.numbers = a.numbers ++ b.numbers ∧
      s.changes = a.changes + b.changes ∧ s.problems = a.problems ++ b.problems := by
  obtain ⟨s, hs⟩ := h.whole a b ha hb
  obtain ⟨a', b', ha', hb', hjoined⟩ := h.parts s hs
  obtain rfl : a = a' := Except.ok.inj (ha.symm.trans ha')
  obtain rfl : b = b' := Except.ok.inj (hb.symm.trans hb')
  exact ⟨s, hs, hjoined⟩

theorem Target.Takes.eq_one {target : Target} {rest : List Int} {length : Nat}
    (h : target.Takes rest length) (hsingle : target.IsSingle) : length = 1 := by
  cases target with
  | range low high => exact h.1
  | sequence numbers => exact h.2.1.trans hsingle
  | brokenRange bounds not_two => exact h.elim

theorem Span.length_flatMap {spans : List Span} (h : ∀ span ∈ spans, span.numbers.length = 1) :
    (spans.flatMap numbers).length = spans.length := by
  induction spans with
  | nil => rfl
  | cons span spans ih =>
    obtain ⟨hspan, hspans⟩ := List.forall_mem_cons.1 h
    rw [List.flatMap_cons, List.length_append, hspan, ih hspans, List.length_cons, Nat.add_comm]

/-! ## Spans and pieces further on -/

def Span.shift (distance : Nat) (span : Span) : Span := { span with start := distance + span.start }

def Piece.shift (distance : Nat) (piece : Piece) : Piece :=
  { piece with span := piece.span.shift distance }

section

variable {distance : Nat} {pieces : List Piece}

theorem Piece.numbers_shift : (pieces.map (shift distance)).flatMap numbers =
    pieces.flatMap numbers := by
  rw [List.flatMap_map]
  rfl

theorem Piece.problems_shift : (pieces.map (shift distance)).flatMap problems =
    pieces.flatMap problems := by
  rw [List.flatMap_map]
  rfl

theorem Piece.countP_shift : (pieces.map (shift distance)).countP isChange =
    pieces.countP isChange := by
  rw [List.countP_map]
  rfl

end

/-! ## Cutting off -/

namespace Table

variable {table : Table} {start : Nat} {numbers first later : List Int} {span : Span}
  {spans before after : List Span}

theorem Chooses.of_append (h : table.Chooses (first ++ later) span) (hpart : span.numbers <+: first)
    (hfilled : span.numbers ≠ []) : table.Chooses first span := by
  have hpos : 0 < first.length :=
    Nat.lt_of_lt_of_le (List.length_pos_iff.2 hfilled) hpart.length_le
  unfold Chooses at *
  cases hhit : span.hit with
  | none =>
    rw [hhit] at h
    obtain ⟨hno, htake⟩ := h
    refine ⟨fun rule hrule length htakes => hno rule hrule length (htakes.append later), ?_⟩
    rw [htake, List.take_append_of_le_length hpos]
  | some hit =>
    rw [hhit] at h
    obtain ⟨hfirst, htake⟩ := h
    have hle : hit.length ≤ first.length := by
      have hlength := hpart.length_le
      rw [htake, List.length_take, Nat.min_eq_left hfirst.takes.length_le] at hlength
      exact hlength
    refine ⟨⟨hfirst.number_pos, hfirst.rule_eq, hfirst.takes.of_append hle, ?_⟩, ?_⟩
    · intro k rule hk hrule length htakes
      exact hfirst.earlier k rule hk hrule length (htakes.append later)
    · rw [htake, List.take_append_of_le_length hle]

theorem IsCut.split (h : table.IsCut start numbers (before ++ after)) :
    ∃ first later, numbers = first ++ later ∧ before.flatMap Span.numbers = first ∧
      table.IsCut start first before ∧ table.IsCut (start + first.length) later after := by
  induction before generalizing start numbers with
  | nil => exact ⟨[], numbers, rfl, rfl, isCut_nil_iff.2 rfl, h⟩
  | cons span before ih =>
    obtain ⟨hstart, hfilled, hchosen, rest, rfl, hrest⟩ := isCut_cons_iff.1 h
    obtain ⟨first, later, rfl, hwhole, hbefore, hafter⟩ := ih hrest
    rw [← List.append_assoc] at hchosen
    refine ⟨span.numbers ++ first, later, by simp, by simp [hwhole], ?_, ?_⟩
    · exact isCut_cons_iff.2 ⟨hstart, hfilled, hchosen.of_append (List.prefix_append _ _) hfilled,
        first, rfl, hbefore⟩
    · simpa [Nat.add_assoc] using hafter

theorem Chooses.length_of_single (hsingle : ∀ rule ∈ table.rules, rule.target.IsSingle)
    (h : table.Chooses numbers span) (hfilled : span.numbers ≠ []) : span.numbers.length = 1 := by
  have hpos : 0 < numbers.length := List.length_pos_iff.2 (h.rest_ne_nil hfilled)
  unfold Chooses at h
  split at h
  · next hit _ =>
    obtain ⟨hfirst, htake⟩ := h
    rw [htake, hfirst.takes.eq_one (hsingle _ hfirst.mem), List.length_take]
    omega
  · rw [h.2, List.length_take]
    omega

theorem IsCut.length_of_single (h : table.IsCut start numbers spans)
    (hsingle : ∀ rule ∈ table.rules, rule.target.IsSingle) :
    ∀ span ∈ spans, span.numbers.length = 1 := by
  intro span hspan
  obtain ⟨before, after, hsplit⟩ := List.append_of_mem hspan
  obtain ⟨-, hchosen⟩ := h.chosen before span after hsplit
  exact hchosen.length_of_single hsingle (h.filled span hspan)

theorem IsCut.shift (h : table.IsCut start numbers spans) (distance : Nat) :
    table.IsCut (distance + start) numbers (spans.map (Span.shift distance)) := by
  induction spans generalizing start numbers with
  | nil =>
    obtain rfl : [] = numbers := h.whole
    exact isCut_nil_iff.2 rfl
  | cons span spans ih =>
    obtain ⟨hstart, hfilled, hchosen, rest, rfl, hrest⟩ := isCut_cons_iff.1 h
    refine isCut_cons_iff.2 ⟨?_, hfilled, hchosen, rest, rfl, ?_⟩
    · simp [Span.shift, hstart]
    · simpa [Span.shift, Nat.add_assoc] using ih hrest

variable (hcomplete : ∀ rule ∈ table.rules, rule.target.IsComplete)

include hcomplete

theorem cut_of_visits {index : Nat} (h : table.Visits numbers index) :
    ∃ before after, table.cut 0 (numbers.take index) = .ok before ∧
      table.cut 0 (numbers.drop index) = .ok after ∧
      table.cut 0 numbers = .ok (before ++ after.map (Span.shift (numbers.take index).length)) := by
  obtain ⟨spans, hspans, hvisit⟩ := h
  obtain ⟨spans', hspans', hcut⟩ := cut_eq hcomplete 0 numbers
  obtain rfl : spans = spans' := Except.ok.inj (hspans.symm.trans hspans')
  have hsplit : ∃ before after, spans = before ++ after ∧
      index = (before.flatMap Span.numbers).length := by
    rcases hvisit with rfl | ⟨span, hspan, rfl⟩
    · exact ⟨spans, [], by simp, by rw [hcut.whole]⟩
    · obtain ⟨before, after, rfl⟩ := List.append_of_mem hspan
      obtain ⟨hstart, -⟩ := hcut.chosen before span after rfl
      exact ⟨before, span :: after, rfl, by simpa using hstart⟩
  obtain ⟨before, after, rfl, hindex⟩ := hsplit
  obtain ⟨first, later, rfl, hwhole, hbefore, hafter⟩ := hcut.split
  rw [hwhole] at hindex
  rw [hindex, List.take_left, List.drop_left]
  obtain ⟨spans, hfirst, hspans⟩ := cut_eq hcomplete 0 first
  obtain ⟨others, hlater, hothers⟩ := cut_eq hcomplete 0 later
  obtain rfl := hspans.unique hbefore
  have hshift := hothers.shift first.length
  rw [Nat.add_comm] at hshift
  obtain rfl := hshift.unique hafter
  exact ⟨spans, others, hfirst, hlater, hspans'⟩

theorem visits_zero (numbers : List Int) : table.Visits numbers 0 := by
  obtain ⟨spans, hspans, hcut⟩ := cut_eq hcomplete 0 numbers
  refine ⟨spans, hspans, ?_⟩
  cases spans with
  | nil =>
    obtain rfl : [] = numbers := hcut.whole
    exact .inl rfl
  | cons span spans => exact .inr ⟨span, List.mem_cons_self, (isCut_cons_iff.1 hcut).1⟩

theorem visits_length (numbers : List Int) : table.Visits numbers numbers.length := by
  obtain ⟨spans, hspans, -⟩ := cut_eq hcomplete 0 numbers
  exact ⟨spans, hspans, .inl rfl⟩

theorem visits_of_single (hsingle : ∀ rule ∈ table.rules, rule.target.IsSingle)
    (first later : List Int) : table.Visits (first ++ later) first.length := by
  obtain ⟨spans, hspans, hcut⟩ := cut_eq hcomplete 0 (first ++ later)
  have hone := hcut.length_of_single hsingle
  refine ⟨spans, hspans, ?_⟩
  cases later with
  | nil => simp
  | cons n later =>
    -- As many spans come before the index as numbers.
    have hlt : first.length < spans.length := by
      rw [← Span.length_flatMap hone, hcut.whole, List.length_append, List.length_cons]
      omega
    have hsplit : spans =
        spans.take first.length ++ spans[first.length] :: spans.drop (first.length + 1) := by
      rw [← List.drop_eq_getElem_cons hlt, List.take_append_drop]
    obtain ⟨hstart, -⟩ := hcut.chosen _ _ _ hsplit
    refine .inr ⟨spans[first.length], List.getElem_mem hlt, ?_⟩
    rw [hstart, Span.length_flatMap fun span hspan => hone span (List.mem_of_mem_take hspan),
      List.length_take]
    omega

end Table

namespace Render

def piece (span : Span) : Except Failure Piece :=
  match span.change? with
  | none => .ok ⟨span, none⟩
  | some hit => do return ⟨span, some (← builtin hit.rule span.numbers)⟩

theorem pieces_none (told : List Problem) (spans : List Span) :
    pieces none told spans = spans.mapM piece := by
  induction spans generalizing told with
  | nil => rfl
  | cons span spans ih =>
    rw [pieces, List.mapM_cons, piece]
    cases hchange : span.change? with
    | none => simp only [ih, Failure.ok_bind]
    | some hit => simp only [ih, fragment_none, bind_assoc, pure_bind]

theorem piece_shift (distance : Nat) (span : Span) :
    piece (span.shift distance) = Piece.shift distance <$> piece span := by
  have hchange : (span.shift distance).change? = span.change? := rfl
  unfold piece
  rw [hchange]
  cases span.change? with
  | none => rfl
  | some hit =>
    simp only [map_bind, map_pure]
    rfl

theorem mapM_piece_shift (distance : Nat) (spans : List Span) :
    (spans.map (Span.shift distance)).mapM piece =
      List.map (Piece.shift distance) <$> spans.mapM piece := by
  induction spans with
  | nil => rfl
  | cons span spans ih =>
    rw [List.map_cons, List.mapM_cons, List.mapM_cons, piece_shift, ih]
    simp only [map_bind, map_pure, bind_map_left, List.map_cons]

end Render

/-! ## Resuming -/

theorem Table.substitute_none_eq_ok {table : Table} (hcommitted : table.committed)
    {numbers : List Int} {s : Substitution} : table.substitute numbers = .ok s ↔
      ∃ spans, table.cut 0 numbers = .ok spans ∧ spans.mapM Render.piece = .ok s.pieces := by
  simp only [substitute_eq_ok hcommitted, Render.pieces_none]

/-- A cut that falls into cuts of two parts makes the substitution fall into those of the parts. -/
theorem Table.isJoined_of_cut {table : Table} (hcommitted : table.committed)
    {numbers first later : List Int} {before after : List Span} {distance : Nat}
    (hfirst : table.cut 0 first = .ok before) (hlater : table.cut 0 later = .ok after)
    (hwhole : table.cut 0 numbers = .ok (before ++ after.map (Span.shift distance))) :
    Substitution.IsJoined (table.substitute numbers) (table.substitute first)
      (table.substitute later) := by
  have hpieces : ∀ pieces,
      (before ++ after.map (Span.shift distance)).mapM Render.piece = .ok pieces ↔
      ∃ a b, before.mapM Render.piece = .ok a ∧ after.mapM Render.piece = .ok b ∧
        pieces = a ++ b.map (Piece.shift distance) := by
    intro pieces
    rw [List.mapM_append, Render.mapM_piece_shift]
    simp only [Failure.bind_eq_ok, Failure.pure_eq, Except.ok.injEq, map_eq_pure_bind]
    grind
  constructor
  · intro s hs
    obtain ⟨spans, hspans, hs⟩ := (substitute_none_eq_ok hcommitted).1 hs
    obtain rfl := Except.ok.inj (hwhole.symm.trans hspans)
    obtain ⟨a, b, ha, hb, hpieces⟩ := (hpieces _).1 hs
    refine ⟨⟨a⟩, ⟨b⟩, (substitute_none_eq_ok hcommitted).2 ⟨before, hfirst, ha⟩,
      (substitute_none_eq_ok hcommitted).2 ⟨after, hlater, hb⟩, ?_, ?_, ?_⟩
    · simp only [Substitution.numbers, hpieces, List.flatMap_append, Piece.numbers_shift]
    · simp only [Substitution.changes, hpieces, List.countP_append, Piece.countP_shift]
    · simp only [Substitution.problems, hpieces, List.flatMap_append, Piece.problems_shift]
  · intro a b ha hb
    obtain ⟨spans, hspans, ha⟩ := (substitute_none_eq_ok hcommitted).1 ha
    obtain rfl := Except.ok.inj (hfirst.symm.trans hspans)
    obtain ⟨others, hothers, hb⟩ := (substitute_none_eq_ok hcommitted).1 hb
    obtain rfl := Except.ok.inj (hlater.symm.trans hothers)
    exact ⟨⟨_⟩, (substitute_none_eq_ok hcommitted).2
      ⟨_, hwhole, (hpieces _).2 ⟨_, _, ha, hb, rfl⟩⟩⟩

/-- A substitution, which all short numbers have, can be resumed wherever it looks for a match, at
the beginning and the end, too. A table that takes one number at a time looks everywhere, so that it
substitutes in two inputs one after the other as it does in each of them. -/
theorem substitute_resumes (table : Table) (hcommitted : table.committed)
    (hcomplete : ∀ rule ∈ table.rules, rule.target.IsComplete) :
    (∀ numbers : List Int, (∀ n ∈ numbers, CharNumber.IsShort n) →
      ∃ s, table.substitute numbers = .ok s) ∧
    (∀ numbers, table.Visits numbers 0 ∧ table.Visits numbers numbers.length) ∧
    (∀ numbers index, table.Visits numbers index →
      Substitution.IsJoined (table.substitute numbers) (table.substitute (numbers.take index))
        (table.substitute (numbers.drop index))) ∧
    ((∀ rule ∈ table.rules, rule.target.IsSingle) → ∀ first later,
      Substitution.IsJoined (table.substitute (first ++ later)) (table.substitute first)
        (table.substitute later)) := by
  have hresumes : ∀ numbers index, table.Visits numbers index →
      Substitution.IsJoined (table.substitute numbers) (table.substitute (numbers.take index))
        (table.substitute (numbers.drop index)) := by
    intro numbers index hvisits
    obtain ⟨before, after, hbefore, hafter, hwhole⟩ := Table.cut_of_visits hcomplete hvisits
    exact Table.isJoined_of_cut hcommitted hbefore hafter hwhole
  refine ⟨?_, fun numbers => ⟨Table.visits_zero hcomplete numbers,
    Table.visits_length hcomplete numbers⟩, hresumes, ?_⟩
  · intro numbers hshort
    obtain ⟨_, -, hrenders⟩ := Table.exists_substitute hcommitted hcomplete hshort
    obtain ⟨s, hs, -⟩ := hrenders none
    exact ⟨s, hs⟩
  · intro hsingle first later
    have hjoined := hresumes _ _ (Table.visits_of_single hcomplete hsingle first later)
    rwa [List.take_left, List.drop_left] at hjoined

/-- A rule that would match across the index if the range in front of it did not, and a surrogate
that is told; then a table of ranges and single numbers. -/
theorem substitute_resumes_between_overlaps :
    let table : Table := ⟨[⟨.decimal, .range 0x61 0x62, none⟩,
      ⟨.replace, .sequence [0x62, 0x62, 0x63], some "1"⟩,
      ⟨.utf16, .sequence [0x63, 0xD800], none⟩], true⟩
    let single : Table := ⟨[⟨.utf16, .range 0xD800 0xDFFF, none⟩,
      ⟨.replace, .sequence [0x61], some []⟩], true⟩
    let numbers : List Int := [0x61, 0x62, 0x62, 0x63, 0xD800]
    table.Visits numbers 2 ∧
      Substitution.IsJoined (table.substitute numbers) (table.substitute [0x61, 0x62])
        (table.substitute [0x62, 0x63, 0xD800]) ∧
      (∀ rule ∈ single.rules, rule.target.IsSingle) ∧
      Substitution.IsJoined (single.substitute ([0xD83D, 0x61] ++ [0xDE00]))
        (single.substitute [0xD83D, 0x61]) (single.substitute [0xDE00]) := by
  intro table single numbers
  have hcomplete : ∀ rule ∈ table.rules, rule.target.IsComplete := by
    simp [table, Target.IsComplete]
  have hcomplete' : ∀ rule ∈ single.rules, rule.target.IsComplete := by
    simp [single, Target.IsComplete]
  have hvisits : table.Visits numbers 2 := by
    refine ⟨[⟨0, [0x61], some ⟨1, ⟨.decimal, .range 0x61 0x62, none⟩, 1⟩⟩,
      ⟨1, [0x62], some ⟨1, ⟨.decimal, .range 0x61 0x62, none⟩, 1⟩⟩,
      ⟨2, [0x62], some ⟨1, ⟨.decimal, .range 0x61 0x62, none⟩, 1⟩⟩,
      ⟨3, [0x63, 0xD800], some ⟨3, ⟨.utf16, .sequence [0x63, 0xD800], none⟩, 2⟩⟩], ?_, ?_⟩
    · decide +kernel
    · simp
  have hsingle : ∀ rule ∈ single.rules, rule.target.IsSingle := by
    simp [single, Target.IsSingle]
  obtain ⟨-, -, hresumes, -⟩ := substitute_resumes table rfl hcomplete
  obtain ⟨-, -, -, hdistributes⟩ := substitute_resumes single rfl hcomplete'
  exact ⟨hvisits, hresumes numbers 2 hvisits, hsingle, hdistributes hsingle _ _⟩

end PlainForm

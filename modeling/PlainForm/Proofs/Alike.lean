import PlainForm.Proofs.Rendering

/-!
# Tables that match alike

A substitution sees of a table no more than the first rule that matches at each place. Tables in
which the same rules come first substitute alike, even if a rule has another number in each of them:
rules may be left out, or take each other's place, as long as that holds.
-/

namespace PlainForm

/-! ## Without the numbers of rules -/

def Hit.unnumbered (hit : Hit) : Hit := { hit with number := 0 }

def Span.unnumbered (span : Span) : Span := { span with hit := span.hit.map Hit.unnumbered }

def Piece.unnumbered (piece : Piece) : Piece := { piece with span := piece.span.unnumbered }

theorem Span.change?_unnumbered (span : Span) :
    span.unnumbered.change? = span.change?.map Hit.unnumbered := by
  unfold change?
  cases hhit : span.hit with
  | none => simp [unnumbered, hhit]
  | some hit =>
    by_cases haccept : hit.rule.action = .accept <;>
      simp [unnumbered, hhit, haccept, Hit.unnumbered, Option.filter]

/-! ## The first of some rules -/

section

variable {length : Rule → Except Failure Nat} {rules others : List Rule}

/-- The first rule that matches, and how much it matches, whatever its number. -/
def firstRule (length : Rule → Except Failure Nat) (rules : List Rule) :
    Except Failure (Option Hit) :=
  Option.map Hit.unnumbered <$> firstHit length 1 rules

theorem firstHit_unnumbered (length : Rule → Except Failure Nat) (number : Nat)
    (rules : List Rule) :
    Option.map Hit.unnumbered <$> firstHit length number rules = firstRule length rules := by
  unfold firstRule
  generalize 1 = number'
  induction rules generalizing number number' with
  | nil => rfl
  | cons rule rules ih =>
    rw [firstHit, firstHit, map_bind, map_bind]
    refine congrArg _ (funext fun n => ?_)
    split
    · exact ih (number + 1) (number' + 1)
    · rfl

theorem firstRule_cons (length : Rule → Except Failure Nat) (rule : Rule) (rules : List Rule) :
    firstRule length (rule :: rules) = do
      let n ← length rule
      if n = 0 then firstRule length rules else return some ⟨0, rule, n⟩ := by
  rw [firstRule, firstHit, map_bind]
  refine congrArg _ (funext fun n => ?_)
  split
  · exact firstHit_unnumbered length 2 rules
  · rfl

theorem firstRule_skip {rule : Rule} (h : length rule = .ok 0) :
    firstRule length (rule :: rules) = firstRule length rules := by
  rw [firstRule_cons, h]
  rfl

theorem firstRule_append (before : List Rule)
    (h : firstRule length rules = firstRule length others) :
    firstRule length (before ++ rules) = firstRule length (before ++ others) := by
  induction before with
  | nil => exact h
  | cons rule before ih =>
    rw [List.cons_append, List.cons_append, firstRule_cons, firstRule_cons, ih]

end

/-! ## Alike -/

/-- Wherever numbers are left, the same rule of both tables comes first. -/
def Table.MatchesLike (table other : Table) : Prop :=
  ∀ rest : List Int, rest ≠ [] →
    firstRule (·.target.matchLength rest) table.rules =
      firstRule (·.target.matchLength rest) other.rules

namespace Substitution

/-- All that a substitution comes to but its log, in which rules go by their numbers. -/
structure Outcome where
  numbers : List Int
  changes : Nat
  problems : List Problem
deriving DecidableEq

def outcome (s : Substitution) : Outcome := ⟨s.numbers, s.changes, s.problems⟩

theorem outcome_unnumbered (pieces : List Piece) :
    outcome ⟨pieces.map Piece.unnumbered⟩ = outcome ⟨pieces⟩ := by
  simp only [outcome, numbers, changes, problems, List.flatMap_map, List.countP_map]
  rfl

end Substitution

/-- With both tables every input comes to the same, or to the same failure. -/
def Table.SubstitutesLike (table other : Table) : Prop :=
  ∀ numbers renderer, Substitution.outcome <$> table.substitute numbers renderer =
    Substitution.outcome <$> other.substitute numbers renderer

/-! ## What matches alike substitutes alike -/

variable {table other : Table}

theorem Table.cut_unnumbered (table : Table) (start : Nat) (n : Int) (rest : List Int) :
    List.map Span.unnumbered <$> table.cut start (n :: rest) = do
      let hit ← firstRule (·.target.matchLength (n :: rest)) table.rules
      let tail := hit.elim 0 (·.length - 1)
      let later ← List.map Span.unnumbered <$> table.cut (start + tail + 1) (rest.drop tail)
      return ⟨start, n :: rest.take tail, hit⟩ :: later := by
  rw [Table.cut, hit, firstRule, map_bind, bind_map_left]
  refine congrArg _ (funext fun hit => ?_)
  have htail : (hit.map Hit.unnumbered).elim 0 (·.length - 1) = hit.elim 0 (·.length - 1) := by
    cases hit <;> rfl
  simp only [htail, map_bind, bind_map_left, map_pure, List.map_cons]
  rfl

theorem Table.MatchesLike.cut (h : table.MatchesLike other) (start : Nat) (numbers : List Int) :
    List.map Span.unnumbered <$> table.cut start numbers =
      List.map Span.unnumbered <$> other.cut start numbers := by
  induction start, numbers using Table.cut.induct with
  | case1 start => rw [Table.cut, Table.cut]
  | case2 start n rest ih =>
    rw [cut_unnumbered, cut_unnumbered, h _ (List.cons_ne_nil n rest)]
    simp only [ih]

theorem Render.pieces_unnumbered (renderer : Option Renderer) (told : List Problem)
    (spans : List Span) :
    pieces renderer told (spans.map Span.unnumbered) =
      List.map Piece.unnumbered <$> pieces renderer told spans := by
  induction spans generalizing told with
  | nil => rfl
  | cons span spans ih =>
    have hnumbers : span.unnumbered.numbers = span.numbers := rfl
    rw [List.map_cons, pieces, pieces, Span.change?_unnumbered, hnumbers]
    cases span.change? with
    | none =>
      simp only [Option.map_none, ih, bind_map_left, map_bind, map_pure, List.map_cons]
      rfl
    | some hit =>
      have hrule : hit.unnumbered.rule = hit.rule := rfl
      simp only [Option.map_some, hrule, ih, bind_map_left, map_bind, map_pure, List.map_cons]
      rfl

/-- What a substitution comes to is the rendering of a cut without numbers. -/
theorem Table.outcome_substitute (hcommitted : table.committed) (numbers : List Int)
    (renderer : Option Renderer) :
    Substitution.outcome <$> table.substitute numbers renderer = (do
      let spans ← List.map Span.unnumbered <$> table.cut 0 numbers
      return Substitution.outcome ⟨← Render.pieces renderer [] spans⟩) := by
  unfold substitute
  rw [if_pos hcommitted]
  simp only [Render.pieces_unnumbered, map_bind, bind_map_left, map_pure,
    Substitution.outcome_unnumbered]

theorem Table.MatchesLike.substitutesLike (h : table.MatchesLike other)
    (hcommitted : table.committed) (hcommitted' : other.committed) :
    table.SubstitutesLike other := by
  intro numbers renderer
  rw [outcome_substitute hcommitted, outcome_substitute hcommitted', h.cut]

end PlainForm

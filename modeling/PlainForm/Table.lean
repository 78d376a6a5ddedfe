import PlainForm.Rule

/-!
# Rule tables

A table holds rules in the order in which they were declared. Rules are added while the table is
built. Once it is committed it can be applied, and no longer be changed.
-/

namespace PlainForm

structure Table where
  rules : List Rule := []
  committed : Bool := false
deriving DecidableEq

namespace Table

def add (table : Table) (rule : Rule) : Except Failure Table :=
  if table.committed then .error .tableCommitted
  else .ok { table with rules := table.rules ++ [rule] }

def commit (table : Table) : Table := { table with committed := true }

/-- The rule at an index. A negative index counts from the end. -/
def rule (table : Table) (index : Int) : Except Failure Rule :=
  match (position? table.rules.length index).bind (table.rules[·]?) with
  | some rule => .ok rule
  | none => .error .pastTheEnd

end Table

/-! ## The first rule that matches -/

/-- A rule that matches, its number in the table counted from one, and how much it matches. -/
structure Hit where
  number : Nat
  rule : Rule
  length : Nat
deriving DecidableEq

/-- The first of some rules that matches at all. Later rules are not tried, even if they would match
more. The rules are numbered from `number` on. -/
def firstHit (length : Rule → Except Failure Nat) (number : Nat) :
    List Rule → Except Failure (Option Hit)
  | [] => .ok none
  | rule :: rules => do
    let n ← length rule
    if n = 0 then firstHit length (number + 1) rules else return some ⟨number, rule, n⟩

namespace Table

def hit (table : Table) (rest : List Int) : Except Failure (Option Hit) :=
  firstHit (·.target.matchLength rest) 1 table.rules

def hitAt (table : Table) (numbers : List Int) (index : Int) : Except Failure (Option Hit) :=
  firstHit (·.target.matchLengthAt numbers index) 1 table.rules

/-! ## The fallback -/

/-- Dashes and quotation marks, and what to write for them in plain ASCII. -/
def fallbackPairs : List (Int × Text) :=
  [(0x2013, "-"), (0x2014, "--"), (0x2018, "'"), (0x2019, "'"), (0x201A, "'"), (0x201C, "\""),
    (0x201D, "\""), (0x201E, "\"")]

def fallback : Table where
  rules := fallbackPairs.map fun (number, plain) => ⟨.replace, .sequence [number], some plain⟩
  committed := true

end Table

end PlainForm

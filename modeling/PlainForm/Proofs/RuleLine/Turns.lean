import PlainForm.Proofs.RuleLine.Contract

/-!
# Items are read in turns

A row of items can be read turn by turn: a space if one is needed, then a number or a quoted string.
Each turn that goes on takes some of the line, so that there is a last one, and what has been
collected by then is the row that `RuleLine.readRow` reads. Where on a line the row stands does not
matter.
-/

namespace PlainForm

namespace RuleLine

open Reading

/-! ## Turns -/

/-- What has been collected of a row, and how far the line has been read. -/
structure Collected where
  characters : Text := []
  itemCount : Nat := 0
  position : Nat
  problems : List Problem := []
deriving DecidableEq

inductive Ending where
  | complete (c : Collected)
  | broken (stop : Stop) (problems : List Problem)
deriving DecidableEq

inductive Turn where
  | next (c : Collected)
  | ends (ending : Ending)
deriving DecidableEq

namespace Collected

/-- The position where `rest` begins, which is an end of the line. -/
def movedTo (c : Collected) (line rest : Text) : Collected :=
  { c with position := line.length - rest.length }

def add (c : Collected) (item : Reading Text) : Turn :=
  match item.outcome with
  | .ok characters =>
    .next { c with
      characters := c.characters ++ characters
      itemCount := c.itemCount + 1
      problems := c.problems ++ item.problems }
  | .error stop => .ends (.broken stop (c.problems ++ item.problems))

def takeItem (notations : Notations) (line : Text) (c : Collected) : Turn :=
  match Token.number? (line.drop c.position) with
  | some (numeral, rest) => (c.movedTo line rest).add (readItem notations (.number numeral))
  | none =>
    match Token.quoted? notations.backslash (line.drop c.position) with
    | some (content, rest) => (c.movedTo line rest).add (readItem notations (.quoted content))
    | none => .ends (.complete c)

/-- A space is needed in front of all items but the first, and in front of that if `spaced`. -/
def needsSpace (spaced : Bool) (c : Collected) : Bool := spaced || decide (0 < c.itemCount)

def turn (notations : Notations) (spaced : Bool) (line : Text) (c : Collected) : Turn :=
  if c.needsSpace spaced then
    match Token.space? (line.drop c.position) with
    | none => .ends (.complete c)
    | some start => (c.movedTo line start).takeItem notations line
  else c.takeItem notations line

end Collected

/-- From what has been collected so many turns lead to the ending. -/
inductive EndsIn (notations : Notations) (spaced : Bool) (line : Text) :
    Collected → Nat → Ending → Prop where
  | last {c ending} (ends : c.turn notations spaced line = .ends ending) :
      EndsIn notations spaced line c 1 ending
  | next {c c' turns ending} (next : c.turn notations spaced line = .next c')
      (later : EndsIn notations spaced line c' turns ending) :
      EndsIn notations spaced line c (turns + 1) ending

/-- What an ending comes to for the reader of the line. -/
def Ending.reading (line : Text) : Ending → Reading Row
  | .complete c => ⟨.ok ⟨c.characters, c.itemCount, line.drop c.position⟩, c.problems⟩
  | .broken stop problems => ⟨.error stop, problems⟩

/-! ## What a turn can do -/

inductive Goes (notations : Notations) (spaced : Bool) (line : Text) (c : Collected) :
    Turn → Prop where
  | unspaced (none : Token.itemStart? (c.needsSpace spaced) (line.drop c.position) = none) :
      Goes notations spaced line c (.ends (.complete c))
  | itemless {start : Text}
      (start_eq : Token.itemStart? (c.needsSpace spaced) (line.drop c.position) = some start)
      (none : Token.item? notations.backslash start = none) :
      Goes notations spaced line c (.ends (.complete (c.movedTo line start)))
  | read {start rest characters : Text} {item : Token.Item} {problems : List Problem}
      (start_eq : Token.itemStart? (c.needsSpace spaced) (line.drop c.position) = some start)
      (item_eq : Token.item? notations.backslash start = some (item, rest))
      (reading : readItem notations item = ⟨.ok characters, problems⟩) :
      Goes notations spaced line c (.next
        ⟨c.characters ++ characters, c.itemCount + 1, line.length - rest.length,
          c.problems ++ problems⟩)
  | broken {start rest : Text} {item : Token.Item} {stop : Stop} {problems : List Problem}
      (start_eq : Token.itemStart? (c.needsSpace spaced) (line.drop c.position) = some start)
      (item_eq : Token.item? notations.backslash start = some (item, rest))
      (reading : readItem notations item = ⟨.error stop, problems⟩) :
      Goes notations spaced line c (.ends (.broken stop (c.problems ++ problems)))

variable {notations : Notations} {spaced : Bool} {line t start rest : Text} {c c' : Collected}
  {item : Token.Item} {turns k : Nat} {ending : Ending}

theorem goes_add
    (hstart : Token.itemStart? (c.needsSpace spaced) (line.drop c.position) = some start)
    (hitem : Token.item? notations.backslash start = some (item, rest)) :
    Goes notations spaced line c ((c.movedTo line rest).add (readItem notations item)) := by
  cases hreading : readItem notations item with
  | mk outcome problems =>
    cases outcome with
    | ok characters => exact .read hstart hitem hreading
    | error stop => exact .broken hstart hitem hreading

theorem goes_takeItem (notations : Notations)
    (hstart : Token.itemStart? (c.needsSpace spaced) (line.drop c.position) = some start)
    (hsuffix : start <:+ line) :
    Goes notations spaced line c ((c.movedTo line start).takeItem notations line) := by
  have hdrop : line.drop (c.movedTo line start).position = start :=
    (List.suffix_iff_eq_drop.1 hsuffix).symm
  unfold Collected.takeItem
  rw [hdrop]
  cases hnumber : Token.number? start with
  | some found => exact goes_add hstart (by rw [Token.item?, hnumber])
  | none =>
    cases hquoted : Token.quoted? notations.backslash start with
    | some found => exact goes_add hstart (by rw [Token.item?, hnumber, hquoted]; rfl)
    | none => exact .itemless hstart (by rw [Token.item?, hnumber, hquoted]; rfl)

theorem goes_turn (notations : Notations) (spaced : Bool) (h : c.position ≤ line.length) :
    Goes notations spaced line c (c.turn notations spaced line) := by
  have hsuffix : line.drop c.position <:+ line := List.drop_suffix _ _
  unfold Collected.turn
  cases hneeds : c.needsSpace spaced with
  | false =>
    have hhere : c.movedTo line (line.drop c.position) = c := by
      simp only [Collected.movedTo, List.length_drop, Nat.sub_sub_self h]
    have hstart : Token.itemStart? (c.needsSpace spaced) (line.drop c.position) =
        some (line.drop c.position) := by rw [hneeds]; rfl
    have hgoes := goes_takeItem notations hstart hsuffix
    rw [hhere] at hgoes
    exact hgoes
  | true =>
    cases hspace : Token.space? (line.drop c.position) with
    | none => exact .unspaced (by rw [hneeds]; exact hspace)
    | some start =>
      have hstart : Token.itemStart? (c.needsSpace spaced) (line.drop c.position) = some start := by
        rw [hneeds]
        exact hspace
      exact goes_takeItem notations hstart ((Token.space?_suffix hspace).trans hsuffix)

/-! ## The end -/

/-- An item takes a character, and the space in front of it another. -/
theorem length_item_le
    (hstart : Token.itemStart? (c.needsSpace spaced) (line.drop c.position) = some start)
    (hitem : Token.item? notations.backslash start = some (item, rest)) :
    rest.length + 1 + (c.needsSpace spaced).toNat ≤ line.length - c.position := by
  have hlt := Token.length_item?_lt hitem
  rw [← List.length_drop]
  cases hneeds : c.needsSpace spaced with
  | false =>
    rw [hneeds] at hstart
    obtain rfl := Option.some.inj hstart
    exact hlt
  | true =>
    rw [hneeds] at hstart
    have := Token.length_space?_lt hstart
    simp only [Bool.toNat_true]
    omega

theorem position_lt_of_next (h : c.position ≤ line.length)
    (hnext : c.turn notations spaced line = .next c') :
    c.position < c'.position ∧ c'.position ≤ line.length := by
  have hgoes := goes_turn notations spaced h
  rw [hnext] at hgoes
  cases hgoes with
  | read hstart hitem =>
    have := length_item_le hstart hitem
    dsimp only
    omega

/-- The less of the line is left, the fewer turns can follow. -/
theorem exists_endsIn (notations : Notations) (spaced : Bool) (h : c.position ≤ line.length) :
    ∃ turns ending, EndsIn notations spaced line c turns ending ∧
      turns ≤ line.length - c.position + 1 := by
  induction hleft : line.length - c.position using Nat.strong_induction_on generalizing c with
  | _ left ih =>
    cases hturn : c.turn notations spaced line with
    | ends ending => exact ⟨1, ending, .last hturn, by omega⟩
    | next c' =>
      obtain ⟨hlt, hle⟩ := position_lt_of_next h hturn
      obtain ⟨turns, ending, hends, hturns⟩ := ih _ (by omega) hle rfl
      exact ⟨turns + 1, ending, .next hturn hends, by omega⟩

/-! ## What the turns come to -/

def Collected.followedBy (c : Collected) (r : Reading Row) : Reading Row where
  outcome := r.outcome.map fun row =>
    ⟨c.characters ++ row.characters, c.itemCount + row.itemCount, row.rest⟩
  problems := c.problems ++ r.problems

theorem Collected.followedBy_start (position : Nat) (r : Reading Row) :
    Collected.followedBy { position } r = r := by
  obtain ⟨_ | row, problems⟩ := r <;> simp [Collected.followedBy, Except.map]

theorem Ending.reading_complete (h : line.drop c.position = rest) :
    (Ending.complete c).reading line = c.followedBy (pure ⟨[], 0, rest⟩) := by
  simp [Ending.reading, Collected.followedBy, Except.map, h]

theorem EndsIn.reading_eq (h : EndsIn notations spaced line c turns ending)
    (hc : c.position ≤ line.length) : ending.reading line =
      c.followedBy (readRow notations (c.needsSpace spaced) (line.drop c.position)) := by
  induction h with
  | @last c ending hturn =>
    have hgoes := goes_turn notations spaced hc
    rw [hturn] at hgoes
    cases hgoes with
    | unspaced hnone =>
      rw [readRow_nil (Token.items_unspaced hnone), Ending.reading_complete rfl]
    | @itemless start hstart hnone =>
      have hsuffix := (Token.itemStart?_suffix hstart).trans (List.drop_suffix c.position line)
      have hdrop : line.drop (c.movedTo line start).position = start :=
        (List.suffix_iff_eq_drop.1 hsuffix).symm
      rw [readRow_nil (Token.items_itemless hstart hnone), Ending.reading_complete hdrop]
      rfl
    | broken hstart hitem hreading =>
      rw [readRow_item hstart hitem, bind_of_error (by rw [hreading]), hreading]
      rfl
  | @next c c' turns ending hturn _ ih =>
    have hgoes := goes_turn notations spaced hc
    have hle := (position_lt_of_next hc hturn).2
    rw [hturn] at hgoes
    cases hgoes with
    | @read start rest characters item problems hstart hitem hreading =>
      have hsuffix := (Token.item?_part hitem).1.trans
        ((Token.itemStart?_suffix hstart).trans (List.drop_suffix c.position line))
      have hneeds : Collected.needsSpace spaced ⟨c.characters ++ characters, c.itemCount + 1,
          line.length - rest.length, c.problems ++ problems⟩ = true := by
        simp [Collected.needsSpace]
      rw [ih hle, hneeds, ← List.suffix_iff_eq_drop.1 hsuffix, readRow_item hstart hitem,
        bind_of_ok (by rw [hreading]), hreading]
      obtain ⟨_ | row, told⟩ := readRow notations true rest
      · rw [bind_of_error rfl]
        simp [Collected.followedBy, Except.map]
      · rw [bind_of_ok rfl]
        simp [Collected.followedBy, Except.map, Nat.add_comm, Nat.add_left_comm]

/-! ## What is collected -/

def requiredSpaces (spaced : Bool) (itemCount : Nat) : Nat :=
  if spaced then itemCount else itemCount - 1

/-- What can have been collected from the position `start` of a line on. -/
structure Collected.FromPosition (spaced : Bool) (line : Text) (start : Nat) (c : Collected) :
    Prop where
  start_le : start ≤ c.position
  position_le : c.position ≤ line.length
  spent : c.itemCount + requiredSpaces spaced c.itemCount ≤ c.position - start
  scalar : c.characters.IsScalar

theorem requiredSpaces_succ (spaced : Bool) (c : Collected) :
    requiredSpaces spaced (c.itemCount + 1) =
      requiredSpaces spaced c.itemCount + (c.needsSpace spaced).toNat := by
  unfold requiredSpaces Collected.needsSpace
  cases spaced with
  | true => rfl
  | false => cases c.itemCount <;> rfl

theorem fromPosition_start (spaced : Bool) (h : k ≤ line.length) :
    Collected.FromPosition spaced line k { position := k } where
  start_le := Nat.le_refl k
  position_le := h
  spent := by simp [requiredSpaces]
  scalar := Text.isScalar_nil

theorem Collected.FromPosition.next (h : c.FromPosition spaced line k)
    (hturn : c.turn notations spaced line = .next c') : c'.FromPosition spaced line k := by
  have hgoes := goes_turn notations spaced h.position_le
  obtain ⟨hstart, hline, hspent, hscalar⟩ := h
  rw [hturn] at hgoes
  cases hgoes with
  | @read start rest characters item problems hspace hitem hreading =>
    have htaken := length_item_le hspace hitem
    have hcharacters : characters.IsScalar :=
      (readItem_meets notations item).value characters (by rw [hreading])
    refine ⟨?_, Nat.sub_le _ _, ?_, hscalar.append hcharacters⟩
    · dsimp only
      omega
    · rw [requiredSpaces_succ]
      dsimp only
      omega

theorem Collected.FromPosition.complete (h : c.FromPosition spaced line k)
    (hturn : c.turn notations spaced line = .ends (.complete c')) :
    c'.FromPosition spaced line k := by
  have hgoes := goes_turn notations spaced h.position_le
  obtain ⟨hstart, hline, hspent, hscalar⟩ := h
  rw [hturn] at hgoes
  cases hgoes with
  | unspaced => exact ⟨hstart, hline, hspent, hscalar⟩
  | @itemless start hspace =>
    have hle := (Token.itemStart?_suffix hspace).length_le
    rw [List.length_drop] at hle
    refine ⟨?_, Nat.sub_le _ _, ?_, hscalar⟩
    · dsimp only [Collected.movedTo]
      omega
    · dsimp only [Collected.movedTo]
      omega

theorem EndsIn.fromPosition (h : EndsIn notations spaced line c turns (.complete c'))
    (hc : c.FromPosition spaced line k) : c'.FromPosition spaced line k := by
  generalize hending : Ending.complete c' = ending at h
  induction h with
  | last hturn => exact hc.complete (hending ▸ hturn)
  | next hturn _ ih => exact ih (hc.next hturn) hending

/-! ## Another position -/

/-- The same, counted from a position that lies so much further on. -/
def Collected.back (c : Collected) (k : Nat) : Collected := { c with position := c.position - k }

def Ending.back (k : Nat) : Ending → Ending
  | .complete c => .complete (c.back k)
  | .broken stop problems => .broken stop problems

def Turn.back (k : Nat) : Turn → Turn
  | .next c => .next (c.back k)
  | .ends ending => .ends (ending.back k)

theorem drop_back (hk : k ≤ c.position) :
    (line.drop k).drop (c.back k).position = line.drop c.position := by
  rw [List.drop_drop, Collected.back, Nat.add_sub_cancel' hk]

theorem movedTo_back (c : Collected) (line rest : Text) (k : Nat) :
    (c.back k).movedTo (line.drop k) rest = (c.movedTo line rest).back k := by
  simp only [Collected.movedTo, Collected.back, List.length_drop, Nat.sub_right_comm]

theorem add_back (c : Collected) (item : Reading Text) (k : Nat) :
    (c.back k).add item = (c.add item).back k := by
  unfold Collected.add
  cases item.outcome <;> rfl

theorem takeItem_back (hk : k ≤ c.position) :
    (c.back k).takeItem notations (line.drop k) = (c.takeItem notations line).back k := by
  unfold Collected.takeItem
  rw [drop_back hk]
  split
  · rw [movedTo_back, add_back]
  · split
    · rw [movedTo_back, add_back]
    · rfl

theorem turn_back (hk : k ≤ c.position) :
    (c.back k).turn notations spaced (line.drop k) = (c.turn notations spaced line).back k := by
  have hneeds : (c.back k).needsSpace spaced = c.needsSpace spaced := rfl
  unfold Collected.turn
  rw [hneeds, drop_back hk]
  split
  · split
    · rfl
    · next start hspace =>
      have hlt := Token.length_space?_lt hspace
      rw [List.length_drop] at hlt
      rw [movedTo_back, takeItem_back]
      show k ≤ line.length - start.length
      omega
  · exact takeItem_back hk

theorem EndsIn.back (h : EndsIn notations spaced line c turns ending) (hk : k ≤ c.position)
    (hc : c.position ≤ line.length) :
    EndsIn notations spaced (line.drop k) (c.back k) turns (ending.back k) := by
  induction h with
  | last hturn => exact .last (by rw [turn_back hk, hturn]; rfl)
  | next hturn _ ih =>
    obtain ⟨hlt, hle⟩ := position_lt_of_next hc hturn
    exact .next (by rw [turn_back hk, hturn]; rfl) (ih (by omega) hle)

end RuleLine

open RuleLine

/-- Reading a row of items turn by turn comes to an end, which is what reading the row at once comes
to, and a row stands the same wherever the line begins. What is complete takes at least a character
for each item and each space that is required, and all characters of it are scalar values. -/
theorem row_is_collected_in_turns (notations : Notations) (spaced : Bool) {line : Text}
    {position : Nat} (h : position ≤ line.length) :
    (∃ turns ending, EndsIn notations spaced line { position } turns ending ∧
      turns ≤ line.length - position + 1) ∧
    ∀ turns ending, EndsIn notations spaced line { position } turns ending →
      readRow notations spaced (line.drop position) = ending.reading line ∧
      EndsIn notations spaced (line.drop position) { position := 0 } turns (ending.back position) ∧
      ∀ c, ending = .complete c →
        (position ≤ c.position ∧ c.position ≤ line.length) ∧
        c.itemCount + requiredSpaces spaced c.itemCount ≤ c.position - position ∧
        ∀ n ∈ c.characters.numbers, CharNumber.isScalar n := by
  refine ⟨exists_endsIn notations spaced h, fun turns ending hends => ⟨?_, ?_, ?_⟩⟩
  · have hneeds : Collected.needsSpace spaced { position } = spaced := Bool.or_false spaced
    have hreading := hends.reading_eq h
    rw [hreading, hneeds, Collected.followedBy_start]
  · have hback := hends.back (Nat.le_refl position) h
    simpa [Collected.back] using hback
  · rintro c rfl
    have hfrom := hends.fromPosition (fromPosition_start spaced h)
    exact ⟨⟨hfrom.start_le, hfrom.position_le⟩, hfrom.spent, hfrom.scalar.numbers⟩

/-- An escape and a reference are read in the quoted string, and the space in front of the comment
is taken although no item follows. -/
theorem row_is_collected_in_turns_up_to_comment :
    7 ≤ ("accept 65 \"\\u0062&#99;\"  U+44 #" : Text).length ∧
      EndsIn ⟨true, true⟩ false "accept 65 \"\\u0062&#99;\"  U+44 #" { position := 7 } 4
        (.complete ⟨"AbcD", 3, 30, []⟩) ∧
      readRow ⟨true, true⟩ false "65 \"\\u0062&#99;\"  U+44 #" = ⟨.ok ⟨"AbcD", 3, "#"⟩, []⟩ ∧
      EndsIn ⟨true, true⟩ false "65 \"\\u0062&#99;\"  U+44 #" { position := 0 } 4
        (.complete ⟨"AbcD", 3, 23, []⟩) := by
  have hposition : 7 ≤ ("accept 65 \"\\u0062&#99;\"  U+44 #" : Text).length := by decide
  have hends : EndsIn ⟨true, true⟩ false "accept 65 \"\\u0062&#99;\"  U+44 #" { position := 7 } 4
      (.complete ⟨"AbcD", 3, 30, []⟩) := by
    refine .next (show _ = Turn.next ⟨"A", 1, 9, []⟩ by decide +kernel) ?_
    refine .next (show _ = Turn.next ⟨"Abc", 2, 23, []⟩ by decide +kernel) ?_
    refine .next (show _ = Turn.next ⟨"AbcD", 3, 29, []⟩ by decide +kernel) ?_
    exact .last (by decide +kernel)
  obtain ⟨-, hrow⟩ := row_is_collected_in_turns ⟨true, true⟩ false hposition
  obtain ⟨hreading, hback, -⟩ := hrow 4 _ hends
  exact ⟨hposition, hends, hreading, hback⟩

end PlainForm

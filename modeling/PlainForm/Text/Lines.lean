import PlainForm.Text

/-!
# Lines

A line ends at a line feed, a carriage return, or the two in this order. No other character ends a
line.
-/

namespace PlainForm.Text

/-- A line feed right after a carriage return belongs to the same line end. -/
def dropLineFeed : Text → Text
  | [] => []
  | c :: rest => if c = '\n' then rest else c :: rest

theorem length_dropLineFeed_le (t : Text) : (dropLineFeed t).length ≤ t.length := by
  cases t with
  | nil => simp [dropLineFeed]
  | cons c rest => rw [dropLineFeed]; split <;> simp

/-- What stands before, between and after the line ends: one piece more than line ends. -/
def pieces : Text → List Text
  | [] => [[]]
  | c :: rest =>
    if c = '\r' then [] :: pieces (dropLineFeed rest)
    else if c = '\n' then [] :: pieces rest
    else (pieces rest).modifyHead (c :: ·)
termination_by t => t.length
decreasing_by
  · have := length_dropLineFeed_le rest; simp; omega
  · simp
  · simp

/-- A byte order mark in front is no part of the text. -/
def dropMark : Text → Text
  | [] => []
  | c :: rest => if c = .byteOrderMark then rest else c :: rest

/-- The lines of a text. What follows the last line end is a line only if it is not empty. -/
def lines (t : Text) : List Text :=
  let all := pieces t.dropMark
  if all.getLast? = some [] then all.dropLast else all

/-- Lines one below the other, each ended by a line feed. -/
def ofLines (lines : List Text) : Text := lines.flatMap (· ++ "\n")

end PlainForm.Text

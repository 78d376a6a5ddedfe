import PlainForm.Proofs.Contribution
import PlainForm.Proofs.LineEnds

/-!
# Texts one behind the other

Behind a line feed a text can be cut in two: its lines are those of both parts. So a rulebook reads
the parts one after the other as it would the whole text, and only counts the lines of the second
part from one again.
-/

namespace PlainForm

/-! ## Lines -/

namespace Text

variable {rest : Text}

theorem exists_pieces_append (t : Text) : ∃ first others, ∀ rest : Text,
    pieces (t ++ ('\n' : CodePoint) :: rest) = first :: (others ++ pieces rest) := by
  fun_induction pieces t with
  | case1 => exact ⟨[], [], pieces_lineFeed⟩
  | case2 later ih =>
    obtain ⟨first, others, hpieces⟩ := ih
    cases later with
    | nil => exact ⟨[], [], fun rest => pieces_return ('\n' :: rest)⟩
    | cons c later =>
      refine ⟨[], first :: others, fun rest => ?_⟩
      have hdrop : dropLineFeed (c :: later ++ ('\n' : CodePoint) :: rest) =
          dropLineFeed (c :: later) ++ ('\n' : CodePoint) :: rest := by
        simp only [List.cons_append, dropLineFeed]
        split <;> rfl
      rw [List.cons_append, pieces_return, hdrop, hpieces]
      rfl
  | case3 later _ ih =>
    obtain ⟨first, others, hpieces⟩ := ih
    refine ⟨[], first :: others, fun rest => ?_⟩
    rw [List.cons_append, pieces_lineFeed, hpieces]
    rfl
  | case4 c later hreturn hfeed ih =>
    obtain ⟨first, others, hpieces⟩ := ih
    refine ⟨c :: first, others, fun rest => ?_⟩
    rw [List.cons_append, pieces_cons hreturn hfeed, hpieces]
    rfl

theorem dropMark_append_lineFeed (t rest : Text) :
    dropMark (t ++ ('\n' : CodePoint) :: rest) = dropMark t ++ ('\n' : CodePoint) :: rest := by
  cases t with
  | nil => rfl
  | cons c t =>
    simp only [List.cons_append, dropMark]
    split <;> rfl

theorem lines_append {before after : Text} (hend : before.getLast? = some ('\n' : CodePoint))
    (hmark : after.head? ≠ some .byteOrderMark) :
    Text.lines (before ++ after) = before.lines ++ after.lines := by
  obtain ⟨t, rfl⟩ := List.getLast?_eq_some_iff.1 hend
  obtain ⟨first, others, hpieces⟩ := exists_pieces_append (dropMark t)
  obtain ⟨all, last, hall⟩ := (pieces after).eq_nil_or_concat'.resolve_left (pieces_ne_nil after)
  have hafter : pieces (dropMark after) = all ++ [last] := by
    rw [dropMark_of_head hmark, hall]
  have hbefore : pieces (dropMark (t ++ [('\n' : CodePoint)])) = first :: others ++ [[]] := by
    rw [dropMark_append_lineFeed, hpieces, pieces_nil]
    rfl
  have hwhole : pieces (dropMark (t ++ [('\n' : CodePoint)] ++ after)) =
      first :: others ++ all ++ [last] := by
    rw [List.append_assoc, List.singleton_append, dropMark_append_lineFeed, hpieces, hall]
    simp
  rw [lines_of_pieces hwhole, lines_of_pieces hbefore, lines_of_pieces hafter]
  by_cases hlast : last = [] <;> simp [hlast]

end Text

/-! ## What the lines contribute -/

/-- The diagnostic, told of a place so many lines further down. -/
def Diagnostic.movedDown (count : Nat) (d : Diagnostic) : Diagnostic :=
  { d with lineNumber := d.lineNumber.map (· + count) }

namespace Contribution

variable {notations : Notations}

theorem rules_zipIdx (lines : List Text) (start : Nat) :
    rules notations (lines.zipIdx start) =
      lines.filterMap fun line => (ofLine notations line).rule := by
  conv => rhs; rw [← List.zipIdx_map_fst start lines]
  rw [List.filterMap_map]
  rfl

theorem diagnostics_zipIdx (file : Text) (lines : List Text) (start count : Nat) :
    diagnostics notations file (lines.zipIdx (start + count)) =
      (diagnostics notations file (lines.zipIdx start)).map (Diagnostic.movedDown count) := by
  have hentry : ∀ numbered : Text × Nat,
      (entry notations (Prod.map id (· + count) numbered)).diagnostics file =
        ((entry notations numbered).diagnostics file).map (Diagnostic.movedDown count) := by
    intro numbered
    simp [Entry.diagnostics, Diagnostic.locate, Diagnostic.movedDown, entry]
  rw [Nat.add_comm, ← List.map_snd_add_zipIdx_eq_zipIdx]
  simp only [diagnostics, List.flatMap_map, List.map_flatMap, hentry]

variable {whole before after : Text}

theorem rules_numberedLines_append (h : whole.lines = before.lines ++ after.lines) :
    rules notations whole.numberedLines =
      rules notations before.numberedLines ++ rules notations after.numberedLines := by
  simp only [Text.numberedLines, rules_zipIdx, h, List.filterMap_append]

theorem diagnostics_numberedLines_append (file : Text)
    (h : whole.lines = before.lines ++ after.lines) :
    diagnostics notations file whole.numberedLines =
      diagnostics notations file before.numberedLines ++
        (diagnostics notations file after.numberedLines).map
          (Diagnostic.movedDown before.lines.length) := by
  rw [Text.numberedLines, h, List.zipIdx_append, diagnostics_append, diagnostics_zipIdx]
  rfl

end Contribution

/-! ## Books -/

namespace Rulebook

variable {book : Rulebook} {t : Text}

theorem read_lines_open (file : Text) (hopen : book.table.committed = false)
    (hshort : ∀ line ∈ t.lines, line.HasShortRuns) :
    (book.read file (some t)).failure = none ∧
      (book.read file (some t)).book =
        book.grown (Contribution.rules book.notations t.numberedLines)
          (Contribution.diagnostics book.notations file t.numberedLines) := by
  have hreadable : Readable (worded t.numberedLines) :=
    readable_of_short fun _ hmem => hshort _ (List.fst_mem_of_mem_zipIdx hmem)
  rw [← Contribution.rules_worded, ← Contribution.diagnostics_worded, read_eq]
  exact readLines_open file hreadable (.inl hopen)

/-- A book that reads two texts, the first of which ends with a line feed, comes to the table that
it gets from both in one. It is told the same, too, but for the numbers of the lines of the second
text, which are counted on from those of the first if both are in one. -/
theorem read_append (book : Rulebook) (file before after : Text)
    (hopen : book.table.committed = false) (hbefore : before.HasShortRuns)
    (hafter : after.HasShortRuns) (hend : before.getLast? = some ('\n' : CodePoint))
    (hmark : after.head? ≠ some .byteOrderMark) :
    let whole := book.read file (some (before ++ after))
    let first := book.read file (some before)
    let second := first.book.read file (some after)
    whole.failure = none ∧ first.failure = none ∧ second.failure = none ∧
      whole.book.table = second.book.table ∧
      ∃ told, second.book.diagnostics = first.book.diagnostics ++ told ∧
        whole.book.diagnostics =
          first.book.diagnostics ++ told.map (Diagnostic.movedDown before.lines.length) := by
  intro whole first second
  have hlines := Text.lines_append hend hmark
  have hshort : ∀ line ∈ Text.lines (before ++ after), line.HasShortRuns := by
    rw [hlines]
    exact List.forall_mem_append.2
      ⟨fun _ hline => hbefore.of_mem_lines hline, fun _ hline => hafter.of_mem_lines hline⟩
  obtain ⟨hwhole, hwholeBook⟩ := read_lines_open file hopen hshort
  obtain ⟨hfirst, hfirstBook⟩ :=
    read_lines_open file hopen fun _ hline => hbefore.of_mem_lines hline
  -- What was read first leaves the book open and its notations as they were.
  have hstays : first.book.table.committed = false := by
    rw [hfirstBook]
    exact hopen
  have hnotations : first.book.notations = book.notations := by
    rw [hfirstBook]
    rfl
  obtain ⟨hsecond, hsecondBook⟩ :=
    read_lines_open file hstays fun _ hline => hafter.of_mem_lines hline
  rw [hnotations] at hsecondBook
  refine ⟨hwhole, hfirst, hsecond, ?_, _, congrArg diagnostics hsecondBook, ?_⟩
  · have htable := congrArg table hsecondBook
    rw [hwholeBook, htable, hfirstBook, grown_grown, Contribution.rules_numberedLines_append hlines]
    rfl
  · rw [hwholeBook, hfirstBook, Contribution.diagnostics_numberedLines_append file hlines]
    exact (List.append_assoc ..).symm

/-- A first text with a byte order mark and an empty line at its end, and a second one that begins
with a line end and has none at its end. -/
theorem read_appended_at_empty_lines :
    let book : Rulebook := ⟨⟨true, false⟩, {}, []⟩
    let before : Text := .byteOrderMark :: ("bogus\r\naccept 65\n\n" : Text)
    let after : Text := "\rdelete \"\\q\"\rmore"
    let whole := book.read "rules.txt" (some (before ++ after))
    let first := book.read "rules.txt" (some before)
    let second := first.book.read "rules.txt" (some after)
    before.HasShortRuns ∧ after.HasShortRuns ∧ before.getLast? = some ('\n' : CodePoint) ∧
      after.head? ≠ some .byteOrderMark ∧ whole.book.table = second.book.table ∧
      (∃ told, second.book.diagnostics = first.book.diagnostics ++ told ∧
        whole.book.diagnostics =
          first.book.diagnostics ++ told.map (Diagnostic.movedDown before.lines.length)) ∧
      second.book.diagnostics.map Diagnostic.lineNumber = [some 1, some 2, some 3] ∧
      whole.book.diagnostics.map Diagnostic.lineNumber = [some 1, some 5, some 6] := by
  intro book before after whole first second
  have hbefore : before.HasShortRuns := Text.hasShortRuns_of_length (by decide)
  have hafter : after.HasShortRuns := Text.hasShortRuns_of_length (by decide)
  have hend : before.getLast? = some ('\n' : CodePoint) := by decide
  have hmark : after.head? ≠ some .byteOrderMark := by decide
  obtain ⟨-, -, -, htable, htold⟩ :=
    read_append book "rules.txt" before after rfl hbefore hafter hend hmark
  refine ⟨hbefore, hafter, hend, hmark, htable, htold, ?_, ?_⟩
  · decide +kernel
  · decide +kernel

end Rulebook

end PlainForm

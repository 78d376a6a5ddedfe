import Mathlib.Data.List.Chain
import PlainForm.Text.Lines

/-!
# Lines and their ends

Cutting a text into lines undoes writing them, however each of them is ended. The one thing that
cannot be written is an empty line that a line feed ends, right behind a line that a carriage return
ends: the two ends are read as one.
-/

namespace PlainForm

/-! ## Pieces -/

namespace Text

variable {t line rest : Text} {c : CodePoint}

def IsLine (t : Text) : Prop := ∀ c ∈ t, c ≠ '\r' ∧ c ≠ '\n'

instance (t : Text) : Decidable t.IsLine :=
  inferInstanceAs (Decidable (∀ c ∈ t, c ≠ '\r' ∧ c ≠ '\n'))

@[simp] theorem pieces_nil : pieces [] = [[]] := by rw [pieces]

@[simp] theorem pieces_lineFeed (rest : Text) : pieces ('\n' :: rest) = [] :: pieces rest := by
  rw [pieces, if_neg (by decide), if_pos rfl]

theorem pieces_return (rest : Text) :
    pieces ('\r' :: rest) = [] :: pieces (dropLineFeed rest) := by
  rw [pieces, if_pos rfl]

theorem pieces_cons (hreturn : c ≠ '\r') (hfeed : c ≠ '\n') (rest : Text) :
    pieces (c :: rest) = (pieces rest).modifyHead (c :: ·) := by
  rw [pieces, if_neg hreturn, if_neg hfeed]

theorem dropLineFeed_of_head (h : rest.head? ≠ some ('\n' : CodePoint)) :
    dropLineFeed rest = rest := by
  cases rest with
  | nil => rfl
  | cons c rest => exact if_neg fun hc => h (congrArg some hc)

theorem pieces_ne_nil (t : Text) : pieces t ≠ [] := by
  fun_induction pieces t with
  | case1 | case2 | case3 => simp
  | case4 c rest _ _ ih =>
    obtain ⟨piece, others, hpieces⟩ := List.exists_cons_of_ne_nil ih
    simp [hpieces]

theorem isLine_of_mem_pieces : ∀ piece ∈ pieces t, piece.IsLine := by
  fun_induction pieces t with
  | case1 => simp [IsLine]
  | case2 rest ih | case3 rest _ ih => exact List.forall_mem_cons.2 ⟨by simp [IsLine], ih⟩
  | case4 c rest hreturn hfeed ih =>
    obtain ⟨piece, others, hpieces⟩ := List.exists_cons_of_ne_nil (pieces_ne_nil rest)
    rw [hpieces] at ih ⊢
    obtain ⟨hpiece, hothers⟩ := List.forall_mem_cons.1 ih
    refine List.forall_mem_cons.2 ⟨?_, hothers⟩
    exact List.forall_mem_cons.2 ⟨⟨hreturn, hfeed⟩, hpiece⟩

theorem pieces_line_append (h : line.IsLine) (rest : Text) :
    pieces (line ++ rest) = (pieces rest).modifyHead (line ++ ·) := by
  induction line with
  | nil => exact (congrFun List.modifyHead_id (pieces rest)).symm
  | cons c line ih =>
    obtain ⟨⟨hreturn, hfeed⟩, hline⟩ := List.forall_mem_cons.1 h
    rw [List.cons_append, pieces_cons hreturn hfeed, ih hline, List.modifyHead_modifyHead]
    rfl

theorem pieces_line (h : line.IsLine) : pieces line = [line] := by
  simpa using pieces_line_append h []

theorem dropMark_of_head (h : t.head? ≠ some .byteOrderMark) : dropMark t = t := by
  cases t with
  | nil => rfl
  | cons c rest => exact if_neg fun hc => h (congrArg some hc)

@[simp] theorem dropMark_mark (t : Text) : dropMark (.byteOrderMark :: t) = t := by
  rw [dropMark, if_pos rfl]

theorem lines_of_pieces {all : List Text} {last : Text} (h : pieces t.dropMark = all ++ [last]) :
    t.lines = if last = [] then all else all ++ [last] := by
  unfold lines
  simp [h]

theorem mem_pieces_of_mem_lines (h : line ∈ t.lines) : line ∈ pieces t.dropMark := by
  unfold lines at h
  dsimp only at h
  split at h
  · exact List.dropLast_subset _ h
  · exact h

theorem isLine_of_mem_lines (h : line ∈ t.lines) : line.IsLine :=
  isLine_of_mem_pieces line (mem_pieces_of_mem_lines h)

end Text

/-! ## Writing lines -/

inductive LineEnd where
  | lineFeed
  | carriageReturn
  | both
deriving DecidableEq

def LineEnd.text : LineEnd → Text
  | lineFeed => "\n"
  | carriageReturn => "\r"
  | both => "\r\n"

/-- Lines one behind the other, each with its end. -/
def Text.ofEndedLines (lines : List (Text × LineEnd)) : Text :=
  lines.flatMap fun (line, lineEnd) => line ++ lineEnd.text

/-- The ends of two lines, one right behind the other, are not read as one. -/
def LineEnd.KeepsApart (first second : Text × LineEnd) : Prop :=
  ¬ (first.2 = .carriageReturn ∧ second.1 = [] ∧ second.2 = .lineFeed)

instance (first second : Text × LineEnd) : Decidable (LineEnd.KeepsApart first second) :=
  inferInstanceAs (Decidable (¬ _))

namespace Text

variable {t line rest last : Text} {lines : List (Text × LineEnd)} {lineEnd : LineEnd}

@[simp] theorem ofEndedLines_nil : ofEndedLines [] = [] := rfl

theorem ofEndedLines_cons (line : Text) (lineEnd : LineEnd) (lines : List (Text × LineEnd)) :
    ofEndedLines ((line, lineEnd) :: lines) = line ++ (lineEnd.text ++ ofEndedLines lines) := by
  simp [ofEndedLines]

/-- A line end ends a line, unless its carriage return is taken together with a line feed behind
it. -/
theorem pieces_end (h : lineEnd = .carriageReturn → rest.head? ≠ some ('\n' : CodePoint)) :
    pieces (lineEnd.text ++ rest) = [] :: pieces rest := by
  cases lineEnd with
  | lineFeed => exact pieces_lineFeed rest
  | carriageReturn =>
    have hdrop := dropLineFeed_of_head (h rfl)
    exact (pieces_return rest).trans (by rw [hdrop])
  | both => exact pieces_return ('\n' :: rest)

theorem pieces_ended_line (hline : line.IsLine)
    (h : lineEnd = .carriageReturn → rest.head? ≠ some ('\n' : CodePoint)) :
    pieces (line ++ (lineEnd.text ++ rest)) = line :: pieces rest := by
  rw [pieces_line_append hline, pieces_end h]
  simp

theorem head_ofEndedLines {c : CodePoint}
    (h : c ∈ (ofEndedLines ((line, lineEnd) :: lines) ++ last).head?) :
    c ∈ line.head? ∨ line = [] ∧ c ∈ lineEnd.text.head? := by
  rw [ofEndedLines_cons] at h
  cases line with
  | nil =>
    refine .inr ⟨rfl, ?_⟩
    cases lineEnd <;> exact h
  | cons d line => exact .inl h

theorem head_ne_lineFeed (hlines : ∀ written ∈ lines, written.1.IsLine) (hlast : last.IsLine)
    (h : ∀ next ∈ lines.head?, ¬ (next.1 = [] ∧ next.2 = .lineFeed)) :
    (ofEndedLines lines ++ last).head? ≠ some ('\n' : CodePoint) := by
  intro hhead
  cases lines with
  | nil => exact (hlast _ (List.mem_of_mem_head? hhead)).2 rfl
  | cons next lines =>
    obtain ⟨line, lineEnd⟩ := next
    rcases head_ofEndedLines hhead with hline | ⟨hempty, hend⟩
    · exact (hlines _ List.mem_cons_self _ (List.mem_of_mem_head? hline)).2 rfl
    · refine h _ rfl ⟨hempty, ?_⟩
      cases lineEnd with
      | lineFeed => rfl
      | carriageReturn | both => exact absurd hend (by decide)

theorem head_ne_mark
    (h : ∀ first ∈ (lines.map Prod.fst ++ [last]).head?, first.head? ≠ some .byteOrderMark) :
    (ofEndedLines lines ++ last).head? ≠ some .byteOrderMark := by
  intro hhead
  cases lines with
  | nil => exact h last rfl hhead
  | cons next lines =>
    obtain ⟨line, lineEnd⟩ := next
    rcases head_ofEndedLines hhead with hline | ⟨-, hend⟩
    · exact h line rfl hline
    · cases lineEnd <;> exact absurd hend (by decide)

theorem pieces_ofEndedLines (hlines : ∀ written ∈ lines, written.1.IsLine)
    (hapart : lines.IsChain LineEnd.KeepsApart) (hlast : last.IsLine) :
    pieces (ofEndedLines lines ++ last) = lines.map Prod.fst ++ [last] := by
  induction lines with
  | nil => simpa using pieces_line hlast
  | cons written lines ih =>
    obtain ⟨line, lineEnd⟩ := written
    obtain ⟨hline, hrest⟩ := List.forall_mem_cons.1 hlines
    obtain ⟨hnext, hlater⟩ := List.isChain_cons.1 hapart
    have hhead : lineEnd = .carriageReturn →
        (ofEndedLines lines ++ last).head? ≠ some ('\n' : CodePoint) :=
      fun hreturn => head_ne_lineFeed hrest hlast fun next hmem hfeed =>
        hnext next hmem ⟨hreturn, hfeed⟩
    rw [ofEndedLines_cons, List.append_assoc, List.append_assoc, pieces_ended_line hline hhead,
      ih hrest hlater]
    rfl

theorem dropMark_append {mark : Text} (hmark : mark = [] ∨ mark = [.byteOrderMark])
    (h : t.head? ≠ some .byteOrderMark) : dropMark (mark ++ t) = t := by
  rcases hmark with rfl | rfl
  · exact dropMark_of_head h
  · exact dropMark_mark t

theorem lines_ofEndedLines {mark : Text} (hmark : mark = [] ∨ mark = [.byteOrderMark])
    (hlines : ∀ written ∈ lines, written.1.IsLine) (hapart : lines.IsChain LineEnd.KeepsApart)
    (hlast : last.IsLine)
    (hfirst : ∀ first ∈ (lines.map Prod.fst ++ [last]).head?, first.head? ≠ some .byteOrderMark) :
    Text.lines (mark ++ (ofEndedLines lines ++ last)) =
      if last = [] then lines.map Prod.fst else lines.map Prod.fst ++ [last] := by
  apply lines_of_pieces
  rw [dropMark_append hmark (head_ne_mark hfirst)]
  exact pieces_ofEndedLines hlines hapart hlast

end Text

/-! ## One kind of end -/

namespace Text

/-- Every carriage return right before a line feed is left out. -/
def pairsToFeeds : Text → Text
  | [] => []
  | [c] => [c]
  | c :: d :: rest =>
    if c = '\r' ∧ d = '\n' then '\n' :: pairsToFeeds rest else c :: pairsToFeeds (d :: rest)

def returnsToFeeds (t : Text) : Text :=
  t.map fun c : CodePoint => if c = '\r' then ('\n' : CodePoint) else c

/-- Every line end becomes a line feed: first both characters together, then carriage returns. -/
def withLineFeeds (t : Text) : Text := returnsToFeeds (pairsToFeeds t)

variable {c d : CodePoint} {rest : Text}

theorem withLineFeeds_pair (rest : Text) :
    withLineFeeds ('\r' :: '\n' :: rest) = ('\n' : CodePoint) :: withLineFeeds rest := by
  simp [withLineFeeds, returnsToFeeds, pairsToFeeds]

theorem withLineFeeds_cons (h : c = '\r' → rest.head? ≠ some ('\n' : CodePoint)) :
    withLineFeeds (c :: rest) =
      (if c = '\r' then ('\n' : CodePoint) else c) :: withLineFeeds rest := by
  cases rest with
  | nil => simp [withLineFeeds, returnsToFeeds, pairsToFeeds]
  | cons d rest =>
    have hpair : ¬ (c = '\r' ∧ d = '\n') := fun ⟨hc, hd⟩ => h hc (congrArg some hd)
    simp [withLineFeeds, returnsToFeeds, pairsToFeeds, hpair]

theorem pieces_withLineFeeds (t : Text) : pieces (withLineFeeds t) = pieces t := by
  fun_induction pieces t with
  | case1 => exact pieces_nil
  | case2 rest ih =>
    by_cases h : rest.head? = some ('\n' : CodePoint)
    · obtain ⟨rest, rfl⟩ := List.head?_eq_some_iff.1 h
      rw [withLineFeeds_pair, pieces_lineFeed]
      exact congrArg _ ih
    · rw [dropLineFeed_of_head h] at ih ⊢
      rw [withLineFeeds_cons fun _ => h, if_pos rfl, pieces_lineFeed, ih]
  | case3 rest hne ih =>
    rw [withLineFeeds_cons fun hc => absurd hc hne, if_neg hne, pieces_lineFeed, ih]
  | case4 c rest hreturn hfeed ih =>
    rw [withLineFeeds_cons fun hc => absurd hc hreturn, if_neg hreturn, pieces_cons hreturn hfeed,
      ih]

theorem head_withLineFeeds (c : CodePoint) (rest : Text) :
    (withLineFeeds (c :: rest)).head? = some (if c = '\r' then ('\n' : CodePoint) else c) := by
  by_cases hpair : c = '\r' ∧ rest.head? = some ('\n' : CodePoint)
  · obtain ⟨rfl, hhead⟩ := hpair
    obtain ⟨rest, rfl⟩ := List.head?_eq_some_iff.1 hhead
    rw [withLineFeeds_pair]
    rfl
  · rw [withLineFeeds_cons fun hc hhead => hpair ⟨hc, hhead⟩]
    rfl

theorem dropMark_withLineFeeds (t : Text) :
    dropMark (withLineFeeds t) = withLineFeeds (dropMark t) := by
  cases t with
  | nil => rfl
  | cons c rest =>
    by_cases hc : c = .byteOrderMark
    · subst hc
      have hmark : CodePoint.byteOrderMark ≠ '\r' := by decide
      rw [dropMark_mark, withLineFeeds_cons fun h => absurd h hmark, if_neg hmark, dropMark_mark]
    · have hhead : (withLineFeeds (c :: rest)).head? ≠ some .byteOrderMark := by
        rw [head_withLineFeeds]
        split
        · decide
        · simpa using hc
      rw [dropMark_of_head hhead, dropMark_of_head (by simpa using hc)]

theorem lines_withLineFeeds (t : Text) : (withLineFeeds t).lines = t.lines := by
  unfold lines
  rw [dropMark_withLineFeeds, pieces_withLineFeeds]

end Text

/-! ## Lines undo writing -/

/-- Lines that can be told apart when they are written. -/
structure LineEnd.AreWritable (lines : List (Text × LineEnd)) : Prop where
  isLine : ∀ written ∈ lines, written.1.IsLine
  no_mark : ∀ first ∈ lines.head?, first.1.head? ≠ some .byteOrderMark
  apart : lines.IsChain LineEnd.KeepsApart

/-- What is written of lines, each with any end, has these lines, with or without a byte order mark
in front. The end of the last line may be left out if the line is not empty. The lines of any text
hold no line end, and they stay the same if all line ends of the text become line feeds. -/
theorem lines_undo_writing :
    (∀ lines : List (Text × LineEnd), LineEnd.AreWritable lines →
      ∀ mark : Text, mark = [] ∨ mark = [.byteOrderMark] →
        Text.lines (mark ++ Text.ofEndedLines lines) = lines.map Prod.fst ∧
        ∀ before last lineEnd, lines = before ++ [(last, lineEnd)] → last ≠ [] →
          Text.lines (mark ++ (Text.ofEndedLines before ++ last)) = lines.map Prod.fst) ∧
    ∀ t : Text, (∀ line ∈ t.lines, line.IsLine) ∧ t.withLineFeeds.lines = t.lines := by
  constructor
  · intro lines hlines mark hmark
    constructor
    · have hhead : ∀ first ∈ (lines.map Prod.fst ++ [[]]).head?,
          first.head? ≠ some .byteOrderMark := by
        have hmark := hlines.no_mark
        cases lines with
        | nil => simp
        | cons written lines => simpa using hmark
      have hempty : Text.IsLine [] := by decide
      simpa using Text.lines_ofEndedLines hmark hlines.isLine hlines.apart hempty hhead
    · rintro before last lineEnd rfl hne
      have hhead : ∀ first ∈ (before.map Prod.fst ++ [last]).head?,
          first.head? ≠ some .byteOrderMark := by
        have hmark := hlines.no_mark
        cases before with
        | nil => simpa using hmark
        | cons written before => simpa using hmark
      obtain ⟨hbefore, hlast⟩ := List.forall_mem_append.1 hlines.isLine
      have h := Text.lines_ofEndedLines hmark hbefore hlines.apart.left_of_append
        (hlast _ (List.mem_singleton_self _)) hhead
      simpa [hne] using h
  · exact fun t => ⟨fun _ => Text.isLine_of_mem_lines, Text.lines_withLineFeeds t⟩

/-- Each kind of end, with empty lines at the start, in the middle and behind a carriage return, and
a byte order mark within. -/
theorem lines_undo_writing_each_end :
    let lines : List (Text × LineEnd) := [([], .carriageReturn), ("a", .lineFeed), ([], .lineFeed),
      (.byteOrderMark :: ("b" : Text), .both), ([], .carriageReturn), ("# c", .carriageReturn)]
    let mark : Text := [.byteOrderMark]
    let t : Text := "\r\r\n\n\r"
    LineEnd.AreWritable lines ∧
      Text.lines (mark ++ Text.ofEndedLines lines) = lines.map Prod.fst ∧
      Text.lines (mark ++ (Text.ofEndedLines lines.dropLast ++ "# c")) = lines.map Prod.fst ∧
      t.withLineFeeds = "\n\n\n\n" ∧ t.withLineFeeds.lines = t.lines := by
  intro lines mark t
  have hlines : LineEnd.AreWritable lines := ⟨by decide, by decide, by decide⟩
  obtain ⟨hended, hopen⟩ := lines_undo_writing.1 lines hlines mark (.inr rfl)
  have hlast := hopen lines.dropLast "# c" .carriageReturn rfl (by decide)
  exact ⟨hlines, hended, hlast, by decide, (lines_undo_writing.2 t).2⟩

end PlainForm

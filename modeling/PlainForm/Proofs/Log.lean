import PlainForm.Proofs.Conversion
import PlainForm.Proofs.Described
import PlainForm.Proofs.LineEnds
import PlainForm.Proofs.Quoting

/-!
# What a substitution tells

A substitution that tells what it does writes a line for each rule that it applies. All of the line
is printable ASCII, so that nothing in a fragment can pass for another line, and the line can be
read in one way only. Telling changes nothing about what comes out.
-/

namespace PlainForm

/-! ## Reports -/

/-- What is told of a rule that was applied. -/
structure Report where
  number : Nat
  action : Action
  index : Nat
  target : Target
  fragment : Text
deriving DecidableEq

theorem Action.keyword_inj {a b : Action} (h : a.keyword = b.keyword) : a = b := by
  cases a <;> cases b <;> first | rfl | exact absurd h (by decide)

namespace Report

def ofHit (index : Nat) (hit : Hit) (fragment : Text) : Report :=
  ⟨hit.number, hit.rule.action, index, hit.rule.target, fragment⟩

def line (report : Report) : Text :=
  "rule " ++ CharNumber.decimal report.number ++ " (" ++ report.action.keyword ++ ") at index " ++
    CharNumber.decimal report.index ++ ": " ++ report.target.describe ++ " --> " ++
    report.fragment.quotedAscii

theorem isPlain_describe (target : Target) : target.describe.IsPlain := by
  intro c hc
  rcases Target.mem_describe hc with hc | hc
  · exact (by decide : ∀ c ∈ Text.ofString "U+- .", c.isPlain) c hc
  · exact CodePoint.isPlain_of_isHexDigit hc

theorem isPlain_line (report : Report) : report.line.IsPlain := by
  have hkeyword : report.action.keyword.IsPlain := by
    cases report.action <;> decide
  have hrule : Text.IsPlain ("rule " ++ CharNumber.decimal report.number ++ " (" ++
      report.action.keyword ++ ") at index ") :=
    (((Text.IsPlain.append (by decide) (CharNumber.isPlain_decimal _)).append (by decide)).append
      hkeyword).append (by decide)
  have hplace : Text.IsPlain (CharNumber.decimal report.index ++ ": " ++
      report.target.describe ++ " --> ") :=
    (((CharNumber.isPlain_decimal _).append (by decide)).append (isPlain_describe _)).append
      (by decide)
  have hline := hrule.append (hplace.append (Text.isPlain_quotedAscii report.fragment))
  simpa only [line, List.append_assoc] using hline

theorem line_eq (report : Report) : report.line = Text.ofString "rule " ++
    (CharNumber.decimal report.number ++ (' ' : CodePoint) :: (Text.ofString "(" ++
    (report.action.keyword ++ (')' : CodePoint) :: (Text.ofString " at index " ++
    (CharNumber.decimal report.index ++ (':' : CodePoint) :: (Text.ofString " " ++
    (report.target.describe ++ Text.ofString " --" ++ ('>' : CodePoint) :: (Text.ofString " " ++
    report.fragment.quotedAscii)))))))) := by
  simp [line, Text.ofString]

theorem decimal_inj {m n : Nat} (h : CharNumber.decimal m = CharNumber.decimal n) : m = n :=
  Int.ofNat_inj.1 (CharNumber.signed_digits_inj (by decide) (by decide) h)

/-- What a line says can be read off the line, if the target can be matched at all. -/
theorem line_inj {report other : Report} (hcomplete : report.target.IsComplete)
    (hcomplete' : other.target.IsComplete) (h : report.line = other.line) : report = other := by
  have hdecimal : ∀ n : Int, ∀ c : CodePoint, ¬ c.isHexDigit → c ≠ '-' →
      c ∉ CharNumber.decimal n := fun n c hc hminus =>
    CharNumber.not_mem_signed_digits hc hminus (by decide) (by decide) n _
  have hkeyword : ∀ action : Action, (')' : CodePoint) ∉ action.keyword := by
    intro action
    cases action <;> decide
  have htarget : ∀ target : Target, ('>' : CodePoint) ∉ target.describe ++ Text.ofString " --" := by
    intro target hmem
    rcases List.mem_append.1 hmem with hmem | hmem
    · exact absurd (Target.mem_describe hmem) (by decide)
    · exact absurd hmem (by decide)
  rw [line_eq, line_eq] at h
  obtain ⟨hnumber, h⟩ := append_mark_inj (hdecimal _ _ (by decide) (by decide))
    (hdecimal _ _ (by decide) (by decide)) (List.append_cancel_left h)
  obtain ⟨haction, h⟩ := append_mark_inj (hkeyword _) (hkeyword _) (List.append_cancel_left h)
  obtain ⟨hindex, h⟩ := append_mark_inj (hdecimal _ _ (by decide) (by decide))
    (hdecimal _ _ (by decide) (by decide)) (List.append_cancel_left h)
  obtain ⟨hdescribe, h⟩ := append_mark_inj (htarget _) (htarget _) (List.append_cancel_left h)
  have hfragment := Text.quotedWith_inj (List.append_cancel_left h)
  have htargets : report.target = other.target := by
    refine Target.describe_inj hcomplete.describe?_eq ?_
    rw [List.append_cancel_right hdescribe]
    exact hcomplete'.describe?_eq
  cases report
  cases other
  simp only [mk.injEq]
  exact ⟨decimal_inj hnumber, Action.keyword_inj haction, decimal_inj hindex, htargets, hfragment⟩

theorem map_line_inj {reports others : List Report}
    (hreports : ∀ report ∈ reports, report.target.IsComplete)
    (hothers : ∀ report ∈ others, report.target.IsComplete)
    (h : reports.map line = others.map line) : reports = others := by
  induction reports generalizing others with
  | nil => exact (List.map_eq_nil_iff.1 h.symm).symm
  | cons report reports ih =>
    cases others with
    | nil => cases h
    | cons other others =>
      obtain ⟨hreport, hreports⟩ := List.forall_mem_cons.1 hreports
      obtain ⟨hother, hothers⟩ := List.forall_mem_cons.1 hothers
      obtain ⟨hline, hlines⟩ := List.cons.inj h
      rw [line_inj hreport hother hline, ih hreports hothers hlines]

end Report

/-! ## The reports of a substitution -/

/-- A rule other than accept is the first one that matches at the index, and the fragment is what it
puts in place of the match. -/
def Report.IsTrue (report : Report) (table : Table) (renderer : Option Renderer)
    (numbers : List Int) : Prop :=
  ∃ hit told fragment, table.FirstMatch (numbers.drop report.index) hit ∧
    hit.rule.action ≠ .accept ∧
    hit.rule.Puts ((numbers.drop report.index).take hit.length) told renderer fragment ∧
    report = .ofHit report.index hit fragment.text

namespace Piece

def report? (piece : Piece) : Option Report :=
  match piece.span.hit, piece.fragment with
  | some hit, some fragment => some (.ofHit piece.span.start hit fragment.text)
  | _, _ => none

theorem log_eq (piece : Piece) : piece.log = (piece.report?.map Report.line).toList := by
  unfold log report?
  split <;> simp_all [Report.ofHit, Report.line]

end Piece

/-! ## One walk -/

structure Walk where
  numbers : List Int := []
  changes : Nat := 0
  problems : List Problem := []
  printed : List Text := []

namespace Walk

def copy (walk : Walk) (matched : List Int) : Walk :=
  { walk with numbers := walk.numbers ++ matched }

def put (walk : Walk) (verbose : Bool) (index : Nat) (hit : Hit) (fragment : Fragment) : Walk where
  numbers := walk.numbers ++ fragment.text.numbers
  changes := walk.changes + 1
  problems := walk.problems ++ fragment.problems
  printed := walk.printed ++ if verbose then [(Report.ofHit index hit fragment.text).line] else []

end Walk

/-- At each place a rule is looked for, applied and, if that is asked for, told of before the next
place is looked at. -/
def Table.walk (table : Table) (renderer : Option Renderer) (verbose : Bool) (walk : Walk)
    (index : Nat) : List Int → Except Failure Walk
  | [] => .ok walk
  | n :: rest => do
    match ← table.hit (n :: rest) with
    | none => table.walk renderer verbose (walk.copy [n]) (index + 1) rest
    | some hit =>
      let matched := n :: rest.take (hit.length - 1)
      let behind := rest.drop (hit.length - 1)
      if hit.rule.action = .accept then
        table.walk renderer verbose (walk.copy matched) (index + hit.length) behind
      else
        let fragment ← Render.fragment renderer hit.rule matched walk.problems
        table.walk renderer verbose (walk.put verbose index hit fragment) (index + hit.length)
          behind
termination_by numbers => numbers.length
decreasing_by all_goals (simp only [List.length_cons, List.length_drop]; omega)

namespace Walk

def through (walk : Walk) (verbose : Bool) (pieces : List Piece) : Walk where
  numbers := walk.numbers ++ pieces.flatMap Piece.numbers
  changes := walk.changes + pieces.countP Piece.isChange
  problems := walk.problems ++ pieces.flatMap Piece.problems
  printed := walk.printed ++ if verbose then pieces.flatMap Piece.log else []

/-- A walk that goes on through spans, as they come to pieces. -/
def render (walk : Walk) (renderer : Option Renderer) (verbose : Bool) (spans : List Span) :
    Except Failure Walk :=
  return walk.through verbose (← Render.pieces renderer walk.problems spans)

variable {walk : Walk} {renderer : Option Renderer} {verbose : Bool} {span : Span}
  {spans : List Span} {hit : Hit} {fragment : Fragment} {pieces : List Piece}

@[simp] theorem render_nil : walk.render renderer verbose [] = .ok walk := by
  simp [render, Render.pieces, through]

theorem through_kept : walk.through verbose (⟨span, none⟩ :: pieces) =
    (walk.copy span.numbers).through verbose pieces := by
  have hlog : Piece.log ⟨span, none⟩ = [] := by
    cases h : span.hit <;> simp [Piece.log, h]
  simp [through, copy, Piece.numbers, Piece.isChange, Piece.problems, hlog]

theorem through_changed (hhit : span.hit = some hit) :
    walk.through verbose (⟨span, some fragment⟩ :: pieces) =
      (walk.put verbose span.start hit fragment).through verbose pieces := by
  have hlog : Piece.log ⟨span, some fragment⟩ =
      [(Report.ofHit span.start hit fragment.text).line] := by
    simp [Piece.log_eq, Piece.report?, hhit]
  cases verbose <;>
    simp [through, put, Piece.numbers, Piece.isChange, Piece.problems, hlog, List.countP_cons,
      Nat.add_comm, Nat.add_left_comm]

theorem render_kept (h : span.change? = none) : walk.render renderer verbose (span :: spans) =
    (walk.copy span.numbers).render renderer verbose spans := by
  rw [render, Render.pieces]
  simp only [h, bind_assoc, pure_bind, through_kept]
  rfl

theorem render_changed (h : span.change? = some hit) :
    walk.render renderer verbose (span :: spans) =
      (Render.fragment renderer hit.rule span.numbers walk.problems >>= fun fragment =>
        (walk.put verbose span.start hit fragment).render renderer verbose spans) := by
  rw [render, Render.pieces]
  simp only [h, bind_assoc, pure_bind, through_changed (Span.change?_eq_some.1 h).1]
  rfl

end Walk

/-- One walk comes to the same as cutting first and then rendering. -/
theorem Table.walk_eq {table : Table} (hcomplete : ∀ rule ∈ table.rules, rule.target.IsComplete)
    (renderer : Option Renderer) (verbose : Bool) (walk : Walk) (start : Nat)
    (numbers : List Int) : table.walk renderer verbose walk start numbers =
      (table.cut start numbers >>= walk.render renderer verbose) := by
  fun_induction Table.cut table start numbers generalizing walk with
  | case1 start => simp [Table.walk]
  | case2 start n rest ih =>
    obtain ⟨found, hfound, hspec⟩ := hit_eq hcomplete (List.cons_ne_nil n rest)
    obtain ⟨spans, hspans, -⟩ := cut_eq hcomplete (start + found.elim 0 (·.length - 1) + 1)
      (rest.drop (found.elim 0 (·.length - 1)))
    have hlater := ih found
    simp only [hspans, Failure.ok_bind] at hlater
    rw [Table.walk]
    simp only [hfound, hspans, Failure.ok_bind, Failure.pure_eq]
    cases found with
    | none =>
      rw [Walk.render_kept rfl]
      exact hlater _
    | some hit =>
      have hpos := hspec.takes.length_pos
      have hindex : start + (hit.length - 1) + 1 = start + hit.length := by omega
      simp only [Option.elim_some, hindex] at hlater ⊢
      split
      · next haccept =>
        rw [hlater, Walk.render_kept (by simp [Span.change?, haccept])]
      · next hchange =>
        rw [Walk.render_changed (Span.change?_eq_some.2 ⟨rfl, hchange⟩)]
        simp only [hlater]

theorem Table.walk_eq_substitute {table : Table} (hcommitted : table.committed)
    (hcomplete : ∀ rule ∈ table.rules, rule.target.IsComplete) (renderer : Option Renderer)
    (verbose : Bool) (numbers : List Int) : table.walk renderer verbose {} 0 numbers =
      (table.substitute numbers renderer).map fun s =>
        ⟨s.numbers, s.changes, s.problems, if verbose then s.log else []⟩ := by
  obtain ⟨spans, hspans, -⟩ := cut_eq hcomplete 0 numbers
  rw [walk_eq hcomplete, substitute, if_pos hcommitted, hspans, Failure.ok_bind, Failure.ok_bind,
    Walk.render]
  cases Render.pieces renderer [] spans with
  | error f => rfl
  | ok pieces => simp [Walk.through, Substitution.numbers, Substitution.changes,
      Substitution.problems, Substitution.log, Except.map]

/-! ## What is told -/

/-- What a span comes to when it is rendered: nothing of its own if it is kept. -/
inductive Piece.Renders (renderer : Option Renderer) : Span → Piece → Prop where
  | kept {span} (unchanged : span.change? = none) : Renders renderer span ⟨span, none⟩
  | changed {span hit told fragment} (change : span.change? = some hit)
      (rendered : Render.fragment renderer hit.rule span.numbers told = .ok fragment) :
      Renders renderer span ⟨span, some fragment⟩

section

variable {renderer : Option Renderer} {told : List Problem} {spans : List Span}
  {pieces : List Piece}

theorem Render.forall₂_pieces (h : Render.pieces renderer told spans = .ok pieces) :
    List.Forall₂ (Piece.Renders renderer) spans pieces := by
  induction spans generalizing told pieces with
  | nil =>
    obtain rfl := Except.ok.inj h
    exact .nil
  | cons span spans ih =>
    rw [Render.pieces] at h
    cases hchange : span.change? with
    | none =>
      simp only [hchange, Failure.bind_eq_ok, Failure.pure_eq, Except.ok.injEq] at h
      obtain ⟨later, hlater, rfl⟩ := h
      exact .cons (.kept hchange) (ih hlater)
    | some hit =>
      simp only [hchange, Failure.bind_eq_ok, Failure.pure_eq, Except.ok.injEq] at h
      obtain ⟨fragment, hfragment, later, hlater, rfl⟩ := h
      exact .cons (.changed hchange hfragment) (ih hlater)

namespace Piece

theorem report?_kept {span : Span} : report? ⟨span, none⟩ = none := by
  cases h : span.hit <;> simp [report?, h]

theorem report?_changed {span : Span} {hit : Hit} {fragment : Fragment}
    (h : span.change? = some hit) :
    report? ⟨span, some fragment⟩ = some (.ofHit span.start hit fragment.text) := by
  simp [report?, (Span.change?_eq_some.1 h).1]

theorem flatMap_log (pieces : List Piece) :
    pieces.flatMap log = (pieces.filterMap report?).map Report.line := by
  induction pieces with
  | nil => rfl
  | cons piece pieces ih =>
    rw [List.flatMap_cons, ih, log_eq]
    cases h : piece.report? <;> simp [h]

theorem Renders.countP (h : List.Forall₂ (Renders renderer) spans pieces) :
    pieces.countP isChange = spans.countP Span.isChange := by
  induction h with
  | nil => rfl
  | cons hpiece _ ih =>
    cases hpiece with
    | kept unchanged => simp [ih, isChange, Span.isChange_eq, unchanged]
    | changed change _ => simp [ih, List.countP_cons, isChange, Span.isChange_eq, change]

theorem Renders.map_index (h : List.Forall₂ (Renders renderer) spans pieces) :
    (pieces.filterMap report?).map Report.index = (spans.filter Span.isChange).map Span.start := by
  induction h with
  | nil => rfl
  | cons hpiece _ ih =>
    cases hpiece with
    | kept unchanged => simp [ih, report?_kept, Span.isChange_eq, unchanged]
    | changed change _ =>
      simp [ih, report?_changed change, Span.isChange_eq, change, Report.ofHit]

theorem Renders.exists_hit (h : List.Forall₂ (Renders renderer) spans pieces) :
    ∀ report ∈ pieces.filterMap report?, ∃ span ∈ spans, ∃ hit told fragment,
      span.change? = some hit ∧
      Render.fragment renderer hit.rule span.numbers told = .ok fragment ∧
      report = .ofHit span.start hit fragment.text := by
  induction h with
  | nil => simp
  | cons hpiece _ ih =>
    cases hpiece with
    | kept unchanged =>
      simp only [List.filterMap_cons, report?_kept]
      intro report hreport
      obtain ⟨span, hspan, hrest⟩ := ih report hreport
      exact ⟨span, List.mem_cons_of_mem _ hspan, hrest⟩
    | changed change rendered =>
      simp only [List.filterMap_cons, report?_changed change]
      intro report hreport
      rcases List.mem_cons.1 hreport with rfl | hreport
      · exact ⟨_, List.mem_cons_self, _, _, _, change, rendered, rfl⟩
      · obtain ⟨span, hspan, hrest⟩ := ih report hreport
        exact ⟨span, List.mem_cons_of_mem _ hspan, hrest⟩

end Piece

end

namespace Table

variable {table : Table} {start : Nat} {numbers : List Int} {spans : List Span}

theorem IsCut.chooses_at (h : table.IsCut 0 numbers spans) {span : Span} (hspan : span ∈ spans) :
    table.Chooses (numbers.drop span.start) span := by
  obtain ⟨before, after, hsplit⟩ := List.append_of_mem hspan
  obtain ⟨hstart, hchosen⟩ := h.chosen before span after hsplit
  rw [hstart, Nat.zero_add]
  exact hchosen

theorem IsCut.le_start (h : table.IsCut start numbers spans) :
    ∀ span ∈ spans, start ≤ span.start := by
  intro span hspan
  obtain ⟨before, after, hsplit⟩ := List.append_of_mem hspan
  obtain ⟨hstart, -⟩ := h.chosen before span after hsplit
  omega

theorem IsCut.pairwise_start (h : table.IsCut start numbers spans) :
    spans.Pairwise fun first later => first.start < later.start := by
  induction spans generalizing start numbers with
  | nil => exact .nil
  | cons span spans ih =>
    obtain ⟨hstart, hfilled, -, rest, -, hrest⟩ := isCut_cons_iff.1 h
    refine .cons (fun later hlater => ?_) (ih hrest)
    have hpos := List.length_pos_iff.2 hfilled
    have hle := hrest.le_start later hlater
    omega

end Table

theorem Text.lines_ofLines {lines : List Text} (h : ∀ line ∈ lines, line.IsPlain) :
    (Text.ofLines lines).lines = lines := by
  let written := lines.map fun line => (line, LineEnd.lineFeed)
  have hlines : ∀ line ∈ written, line.1.IsLine := by
    intro line hline
    obtain ⟨line, hmem, rfl⟩ := List.mem_map.1 hline
    intro c hc
    have hplain := h line hmem c hc
    constructor <;> rintro rfl <;> exact absurd hplain (by decide)
  have hapart : written.IsChain LineEnd.KeepsApart := by
    rw [List.isChain_map]
    exact List.Pairwise.isChain (List.pairwise_of_forall fun _ _ hfeed => nomatch hfeed.1)
  have hfirst : ∀ first ∈ (written.map Prod.fst ++ [[]]).head?,
      first.head? ≠ some .byteOrderMark := by
    intro first hfirst hmark
    have hmem := List.mem_of_mem_head? hfirst
    simp only [written, List.map_map, List.mem_append, List.mem_singleton] at hmem
    rcases hmem with hmem | rfl
    · have hline : first ∈ lines := by simpa [Function.comp_def] using hmem
      exact absurd (h first hline _ (List.mem_of_mem_head? hmark)) (by decide)
    · cases hmark
  have hread := lines_ofEndedLines (.inl rfl) hlines hapart (by decide : IsLine []) hfirst
  have hwritten : ofEndedLines written = ofLines lines := List.flatMap_map ..
  simpa [hwritten, written, Function.comp_def] using hread

/-- The log of a substitution has one line of printable ASCII for each change, whatever the
fragments hold. The lines report the changes in order, where the cut has them, each with the first
rule that matches there and what it puts in place, and they can be read in no other way. A walk that
prints these lines comes to the same as one that prints nothing. -/
theorem log_tells_changes (table : Table) (hcommitted : table.committed)
    (hcomplete : ∀ rule ∈ table.rules, rule.target.IsComplete) (renderer : Option Renderer)
    (numbers : List Int) (s : Substitution) (h : table.substitute numbers renderer = .ok s) :
    (∀ verbose, table.walk renderer verbose {} 0 numbers =
      .ok ⟨s.numbers, s.changes, s.problems, if verbose then s.log else []⟩) ∧
    s.log.length = s.changes ∧ (∀ line ∈ s.log, line.IsPlain) ∧
    (Text.ofLines s.log).lines = s.log ∧
    ∃ spans reports, table.IsCut 0 numbers spans ∧ s.log = reports.map Report.line ∧
      reports.map Report.index = (spans.filter Span.isChange).map Span.start ∧
      (reports.map Report.index).Pairwise (· < ·) ∧
      (∀ report ∈ reports, report.IsTrue table renderer numbers) ∧
      ∀ others : List Report, (∀ report ∈ others, report.target.IsComplete) →
        s.log = others.map Report.line → others = reports := by
  have hwalk : ∀ verbose, table.walk renderer verbose {} 0 numbers =
      .ok ⟨s.numbers, s.changes, s.problems, if verbose then s.log else []⟩ := fun verbose => by
    rw [Table.walk_eq_substitute hcommitted hcomplete, h]
    rfl
  obtain ⟨spans, hspans, hpieces⟩ := (Table.substitute_eq_ok hcommitted).1 h
  obtain ⟨_, hcut_eq, hcut⟩ := Table.cut_eq hcomplete 0 numbers
  obtain rfl := Except.ok.inj (hspans.symm.trans hcut_eq)
  have hrenders := Render.forall₂_pieces hpieces
  let reports := s.pieces.filterMap Piece.report?
  have hlog : s.log = reports.map Report.line := Piece.flatMap_log s.pieces
  have hindexes : reports.map Report.index = (spans.filter Span.isChange).map Span.start :=
    Piece.Renders.map_index hrenders
  have hlength : s.log.length = s.changes := by
    rw [hlog, List.length_map, ← List.length_map Report.index, hindexes, List.length_map,
      ← List.countP_eq_length_filter]
    exact (Piece.Renders.countP hrenders).symm
  have hplain : ∀ line ∈ s.log, line.IsPlain := by
    rw [hlog]
    exact List.forall_mem_map.2 fun report _ => report.isPlain_line
  have htrue : ∀ report ∈ reports, report.IsTrue table renderer numbers := by
    intro report hreport
    obtain ⟨span, hspan, hit, told, fragment, hchange, hfragment, rfl⟩ :=
      Piece.Renders.exists_hit hrenders report hreport
    obtain ⟨hfirst, haction, htake⟩ := (hcut.chooses_at hspan).of_change hchange
    rw [htake] at hfragment
    exact ⟨hit, told, fragment, hfirst, haction, (Rule.puts_iff haction).2 hfragment, rfl⟩
  refine ⟨hwalk, hlength, hplain, Text.lines_ofLines hplain, spans, reports, hcut, hlog, hindexes,
    ?_, htrue, ?_⟩
  · rw [hindexes]
    exact List.pairwise_map.2 (hcut.pairwise_start.filter _)
  · intro others hothers hsame
    have hreports : ∀ report ∈ reports, report.target.IsComplete := by
      intro report hreport
      obtain ⟨hit, told, fragment, hfirst, -, -, heq⟩ := htrue report hreport
      rw [heq]
      exact hcomplete _ hfirst.mem
    exact Report.map_line_inj hothers hreports (hsame.symm.trans hlog)

/-- A right side with a line feed and what looks like another line, an accepted letter, and a
renderer that puts in quotation marks, a backslash and a lone surrogate. -/
theorem log_tells_changes_forged_line :
    let forged : Text := "\nrule 1 (accept) at index 0: U+0061 --> 'a'"
    let table : Table := ⟨[⟨.accept, .sequence [0x61], none⟩, ⟨.custom, .range 0x80 0xFFFF, none⟩,
      ⟨.replace, .sequence [0x62, 0x63], some forged⟩], true⟩
    let renderer : Option Renderer :=
      some fun _ _ _ => { text := ⟨0xD800, by decide⟩ :: ("'\"\\" : Text) }
    let numbers : List Int := [0x61, 0xE9, 0x62, 0x63, 0x64, 0xDFFF]
    let custom : Text := "U+0080..U+FFFF --> '\\ud800\\'\"\\\\'"
    let log : List Text := ["rule 2 (custom) at index 1: " ++ custom,
      "rule 3 (replace) at index 2: U+0062 U+0063 --> " ++
        "\"\\nrule 1 (accept) at index 0: U+0061 --> 'a'\"",
      "rule 2 (custom) at index 5: " ++ custom]
    table.committed ∧ (∀ rule ∈ table.rules, rule.target.IsComplete) ∧
    ∃ s, table.substitute numbers renderer = .ok s ∧ s.log = log ∧
      (∀ verbose, table.walk renderer verbose {} 0 numbers =
        .ok ⟨s.numbers, s.changes, s.problems, if verbose then log else []⟩) ∧
      s.changes = 3 ∧ (Text.ofLines log).lines = log := by
  intro forged table renderer numbers custom log
  have hcomplete : ∀ rule ∈ table.rules, rule.target.IsComplete := by
    simp [table, Target.IsComplete]
  have hmap : (table.substitute numbers renderer).map Substitution.log = .ok log := by
    decide +kernel
  obtain ⟨s, hs, hlog⟩ := Failure.map_eq_ok.1 hmap
  obtain ⟨hwalk, hlength, -, hlines, -⟩ :=
    log_tells_changes table rfl hcomplete renderer numbers s hs
  rw [hlog] at hwalk hlength hlines
  exact ⟨rfl, hcomplete, s, hs, hlog, hwalk, hlength.symm, hlines⟩

end PlainForm

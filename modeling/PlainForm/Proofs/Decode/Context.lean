import PlainForm.Proofs.LoneSurrogates
import PlainForm.Proofs.Plain

/-!
# What decoding shows of a text

Each problem of decoding is told on one line. A notation that cannot be read is quoted from its
first unit on, as far as 25 units and no control character go. The limit may cut a pair, so that
what is shown is not always a part of the text.
-/

namespace PlainForm

open CharNumber (IsLoneAt)
open Reference (ampersand)
open Escape (backslash)

/-! ## The run that is quoted -/

/-- The longest run at the start of the units that has at most 25 of them and no control
character. -/
structure Text.IsContext (units run : Text) : Prop where
  starts : run <+: units
  short : run.length ≤ 25
  clean : ∀ unit ∈ run, ¬ unit.isControl
  longest : ∀ other, other <+: units → other.length ≤ 25 → (∀ unit ∈ other, ¬ unit.isControl) →
    other.length ≤ run.length

/-- The units of the text are the run, with U+FFFD in place of each surrogate that stands alone
there. -/
structure Text.Shows (shown run : Text) : Prop where
  isScalar : shown.IsScalar
  units : shown.units = run.mapIdx fun index unit =>
    if IsLoneAt run.numbers index then .replacement else unit

namespace Text

variable {units run shown t t' : Text}

theorem isContext_context (units : Text) : IsContext units units.context where
  starts := (List.takeWhile_prefix _).trans (List.take_prefix _ _)
  short := (List.takeWhile_prefix _).length_le.trans (List.length_take_le _ _)
  clean unit hunit := by simpa using List.mem_takeWhile_imp hunit
  longest other hother hshort hclean := by
    obtain ⟨rest, hrest⟩ := List.prefix_take_iff.2 ⟨hother, hshort⟩
    have hall : ∀ unit ∈ other, !unit.isControl := by simpa using hclean
    rw [context, contextLimit, ← hrest, List.takeWhile_append_of_pos hall, List.length_append]
    exact Nat.le_add_right _ _

theorem units_join (h : ∀ unit ∈ run, unit.val ≤ 0xFFFF) :
    (run.join .replacement).units = run.mapIdx fun index unit =>
      if IsLoneAt run.numbers index then .replacement else unit := by
  induction run using pairing_induction with
  | nil => rfl
  | pair u v c rest hpair hat ih =>
    have hlater := ih fun w hw => h w (List.mem_cons_of_mem _ (List.mem_cons_of_mem _ hw))
    rw [join_pair hpair, units_cons, units_ofPair? hpair, hlater]
    simp only [numbers_cons] at hat ⊢
    simp only [List.mapIdx_cons, CharNumber.not_isLoneAt_first hat,
      CharNumber.not_isLoneAt_second hat, CharNumber.isLoneAt_behind hat, if_false]
    rfl
  | alone u rest halone hat ih =>
    have hlater := ih fun w hw => h w (List.mem_cons_of_mem _ hw)
    have hle : ∀ c : CodePoint, c = .replacement ∨ c = u → c.units = [c] := by
      rintro c (rfl | rfl)
      · rfl
      · exact units_of_le (h c List.mem_cons_self)
    rw [join_alone _ halone, units_cons, hle _ (by split <;> simp), hlater]
    simp only [numbers_cons] at hat ⊢
    simp only [List.mapIdx_cons, CharNumber.isLoneAt_zero hat, CharNumber.isLoneAt_succ hat]
    rfl

theorem shows_shownContext (h : ∀ unit ∈ units, unit.val ≤ 0xFFFF) :
    (Step.shownContext units).Shows units.context where
  isScalar := isScalar_join (by decide) _
  units := units_join fun unit hunit => h unit ((isContext_context units).starts.subset hunit)

/-! ## Legible texts -/

/-- No control character and no surrogate is in the text. -/
def IsLegible (t : Text) : Prop := ∀ c ∈ t, ¬ c.isControl ∧ ¬ c.isSurrogate

theorem IsPlain.isLegible (h : t.IsPlain) : t.IsLegible := by
  intro c hc
  refine ⟨?_, CodePoint.not_isSurrogate_of_isPlain (h c hc)⟩
  have hplain := h c hc
  simp only [CodePoint.isPlain, CodePoint.isControl, Bool.and_eq_true, Bool.or_eq_true,
    decide_eq_true_eq] at hplain ⊢
  omega

theorem IsLegible.append (h : t.IsLegible) (h' : t'.IsLegible) : IsLegible (t ++ t') :=
  fun c hc => (List.mem_append.1 hc).elim (h c) (h' c)

/-- A control character would be a unit of its own. -/
theorem Shows.isLegible (h : Shows shown run) (clean : ∀ unit ∈ run, ¬ unit.isControl) :
    shown.IsLegible := by
  intro c hc
  refine ⟨fun hcontrol => ?_, h.isScalar c hc⟩
  have hle : c.val ≤ 0xFFFF := by
    simp only [CodePoint.isControl, Bool.and_eq_true, Bool.or_eq_true, decide_eq_true_eq] at *
    omega
  have hunit : c ∈ shown.units :=
    List.mem_flatMap.2 ⟨c, hc, by rw [units_of_le hle]; exact List.mem_singleton_self c⟩
  rw [h.units] at hunit
  obtain ⟨index, hindex, rfl⟩ := List.mem_mapIdx.1 hunit
  split at hcontrol
  · exact absurd hcontrol (by decide)
  · exact clean _ (List.getElem_mem hindex) hcontrol

end Text

/-! ## The problems -/

namespace Problem

/-- The problem is about a notation at the start of the units that cannot be read. -/
inductive Quotes (notations : Notations) : Problem → Text → Prop where
  | reference {rest run shown problem} (on : notations.xml)
      (unread : ¬ Reference.Begins notations (ampersand :: rest))
      (context : Text.IsContext (ampersand :: rest) run) (shows : Text.Shows shown run)
      (told : problem = if rest.head? = some ('#' : CodePoint) then .invalidReference shown
        else .unknownEntity shown) :
      Quotes notations problem (ampersand :: rest)
  | escape {rest run shown problem} (on : notations.backslash)
      (unread : ¬ Escape.Begins notations (backslash :: rest))
      (context : Text.IsContext (backslash :: rest) run) (shows : Text.Shows shown run)
      (told : problem = if rest.head? = some ('u' : CodePoint) then .invalidHexEscape shown
        else .unknownEscape shown) :
      Quotes notations problem (backslash :: rest)

variable {notations : Notations} {problem : Problem} {place : Text}

theorem Quotes.isLegible (h : problem.Quotes notations place) : problem.message.IsLegible := by
  cases h with
  | reference on unread context shows told =>
    rw [told]
    have hshown := shows.isLegible context.clean
    split <;> exact Text.IsLegible.append (Text.IsPlain.isLegible (by decide)) hshown
  | escape on unread context shows told =>
    rw [told]
    have hshown := shows.isLegible context.clean
    split <;> exact Text.IsLegible.append (Text.IsPlain.isLegible (by decide)) hshown

theorem isLegible_of_unpaired (h : problem.isUnpaired) : problem.message.IsLegible := by
  have hunicode := CharNumber.isPlain_unicode
  apply Text.IsPlain.isLegible
  cases problem with
  | unpairedHighSurrogate unit next =>
    cases next with
    | none => exact (Text.IsPlain.append (by decide) (hunicode _)).append (by decide)
    | some next =>
      exact ((Text.IsPlain.append (by decide) (hunicode _)).append (by decide)).append (hunicode _)
  | unpairedLowSurrogate unit => exact Text.IsPlain.append (by decide) (hunicode _)
  | _ => cases h

theorem isLegible_of_quotes {problems : List Problem} {places : List Text}
    (h : List.Forall₂ (Quotes notations) problems places) :
    ∀ problem ∈ problems, problem.message.IsLegible := by
  induction h with
  | nil => simp
  | cons hquotes _ ih => exact List.forall_mem_cons.2 ⟨hquotes.isLegible, ih⟩

end Problem

/-! ## Places from the left -/

/-- A scan of the units comes to the place: before it stand notations that can be read, and units at
which none begins. -/
inductive Scan.Reaches (notations : Notations) : (units place : Text) → Prop where
  | here {units} : Reaches notations units units
  | reference {written rest char place} (on : notations.xml)
      (spells : Reference.Spells written char) (later : Reaches notations rest place) :
      Reaches notations (written ++ rest) place
  | escape {written rest char place} (on : notations.backslash)
      (spells : Escape.Spells written rest char) (later : Reaches notations rest place) :
      Reaches notations (written ++ rest) place
  | unit {unit rest place} (no_reference : ¬ Reference.Begins notations (unit :: rest))
      (no_escape : ¬ Escape.Begins notations (unit :: rest))
      (later : Reaches notations rest place) : Reaches notations (unit :: rest) place

section

variable {notations : Notations} {unit : CodePoint} {units numbers rest : Text}

theorem Reference.Begins.head_eq (h : Reference.Begins notations (unit :: rest)) :
    unit = ampersand := by
  obtain ⟨-, written, tail, char, hunits, hspells⟩ := h
  obtain ⟨body, rfl⟩ := hspells.exists_body
  exact (List.cons.inj hunits).1

theorem Escape.Begins.head_eq (h : Escape.Begins notations (unit :: rest)) : unit = backslash := by
  obtain ⟨-, written, tail, char, hunits, hspells⟩ := h
  obtain ⟨body, rfl⟩ := hspells.exists_body
  exact (List.cons.inj hunits).1

theorem tails_sublist_append (before t : Text) : t.tails.Sublist (before ++ t).tails := by
  induction before with
  | nil => exact List.Sublist.refl _
  | cons c before ih =>
    rw [List.cons_append, List.tails_cons]
    exact ih.cons _

theorem Scan.exists_places {problems : List Problem} (h : Scan notations units numbers problems)
    (hle : ∀ unit ∈ units, unit.val ≤ 0xFFFF) :
    ∃ places, places.Sublist units.tails ∧
      (∀ place ∈ places, Scan.Reaches notations units place) ∧
      List.Forall₂ (Problem.Quotes notations) problems places := by
  induction h with
  | nil => exact ⟨[], List.nil_sublist _, by simp, .nil⟩
  | reference on spells later ih =>
    obtain ⟨places, hplaces, hreached, hquotes⟩ := ih (List.forall_mem_append.1 hle).2
    exact ⟨places, hplaces.trans (tails_sublist_append _ _),
      fun place hplace => .reference on spells (hreached place hplace), hquotes⟩
  | escape on spells later ih =>
    obtain ⟨places, hplaces, hreached, hquotes⟩ := ih (List.forall_mem_append.1 hle).2
    exact ⟨places, hplaces.trans (tails_sublist_append _ _),
      fun place hplace => .escape on spells (hreached place hplace), hquotes⟩
  | noReference on unread later ih =>
    obtain ⟨places, hplaces, hreached, hquotes⟩ := ih (List.forall_mem_cons.1 hle).2
    refine ⟨_ :: places, by rw [List.tails_cons]; exact hplaces.cons_cons _,
      List.forall_mem_cons.2 ⟨.here, fun place hplace => ?_⟩, .cons ?_ hquotes⟩
    · exact .unit unread (fun h => absurd h.head_eq (by decide)) (hreached place hplace)
    · exact .reference on unread (Text.isContext_context _) (Text.shows_shownContext hle) rfl
  | noEscape on unread later ih =>
    obtain ⟨places, hplaces, hreached, hquotes⟩ := ih (List.forall_mem_cons.1 hle).2
    refine ⟨_ :: places, by rw [List.tails_cons]; exact hplaces.cons_cons _,
      List.forall_mem_cons.2 ⟨.here, fun place hplace => ?_⟩, .cons ?_ hquotes⟩
    · exact .unit (fun h => absurd h.head_eq (by decide)) unread (hreached place hplace)
    · exact .escape on unread (Text.isContext_context _) (Text.shows_shownContext hle) rfl
  | literal no_reference no_escape later ih =>
    obtain ⟨places, hplaces, hreached, hquotes⟩ := ih (List.forall_mem_cons.1 hle).2
    exact ⟨places, by rw [List.tails_cons]; exact hplaces.cons _, fun place hplace =>
      .unit (fun h => no_reference h.1 h.head_eq) (fun h => no_escape h.1 h.head_eq)
        (hreached place hplace), hquotes⟩

end

/-- Whatever a text holds, all that decoding tells of it is told on one line. Each notation that is
told of is quoted from its place on, one place to the right of the other. -/
theorem decode_told_on_one_line {notations : Notations} {t : Text} {noted : Noted Text}
    (h : t.decode notations = .ok noted) :
    (∀ problem ∈ noted.problems, problem.message.IsLegible) ∧
    ∃ places, places.Sublist t.units.tails ∧
      (∀ place ∈ places, Scan.Reaches notations t.units place) ∧
      List.Forall₂ (Problem.Quotes notations) (noted.problems.filter Problem.isNotation)
        places := by
  obtain ⟨numbers, problems, hscan, -, -, hproblems⟩ :=
    Decode.run_eq_scan_then_pair none (by simp [Decode.CanWait]) h
  obtain ⟨places, hplaces, hreached, hquotes⟩ :=
    ((hscan _ _).2 ⟨rfl, rfl⟩).exists_places fun unit hunit => Text.le_of_mem_units hunit
  rw [← hproblems, ← Text.filter_isNotation_decode h] at hquotes
  refine ⟨fun problem hproblem => ?_, places, hplaces, hreached, hquotes⟩
  have hdecoding := Text.isDecoding_decode h problem hproblem
  rcases Bool.or_eq_true_iff.1 hdecoding with hnotation | hunpaired
  · have hmem := List.mem_filter.2 ⟨hproblem, hnotation⟩
    exact Problem.isLegible_of_quotes hquotes problem hmem
  · exact Problem.isLegible_of_unpaired hunpaired

/-- A backslash before a surrogate that stands alone and a line feed, and a pair that the limit
cuts. -/
theorem decode_told_on_one_line_cut_pair :
    let t : Text :=
      ('\\' : CodePoint) :: ⟨0xDC00, by decide⟩ :: ("\n&xxxxxxxxxxxxxxxxxxxxxxx😀" : Text)
    let notations : Notations := { backslash := true, xml := true }
    let noted : Noted Text := ⟨"\\?\n&xxxxxxxxxxxxxxxxxxxxxxx😀",
      [.unknownEscape "\\\uFFFD", .unpairedLowSurrogate ⟨0xDC00, by decide⟩,
        .unknownEntity "&xxxxxxxxxxxxxxxxxxxxxxx\uFFFD"]⟩
    t.decode notations = .ok noted ∧
      (∀ problem ∈ noted.problems, problem.message.IsLegible) ∧
      ∃ places, places.Sublist t.units.tails ∧
        (∀ place ∈ places, Scan.Reaches notations t.units place) ∧
        List.Forall₂ (Problem.Quotes notations) (noted.problems.filter Problem.isNotation)
          places := by
  intro t notations noted
  have h : t.decode notations = .ok noted := by decide +kernel
  exact ⟨h, decode_told_on_one_line h⟩

end PlainForm

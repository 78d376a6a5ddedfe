import Mathlib.Data.List.Infix
import PlainForm.Proofs.Decode.Spelling

/-!
# Texts in which nothing can be read

Where no reference and no escape begins, decoding comes to what it would without notations. Each
ampersand and each backslash stays as it is, and one problem tells of it.
-/

namespace PlainForm

open Reference (ampersand)
open Escape (backslash)

namespace Decode

variable {notations : Notations} {unit : CodePoint} {rest units : Text} {s : Step}

/-! ## Nothing begins -/

/-- No notation that can be read begins anywhere in the units. -/
def NothingBegins (notations : Notations) (units : Text) : Prop :=
  ∀ index, ¬ Reference.Begins notations (units.drop index) ∧
    ¬ Escape.Begins notations (units.drop index)

theorem NothingBegins.tail (h : NothingBegins notations (unit :: rest)) :
    NothingBegins notations rest := fun index => h (index + 1)

theorem nothingBegins_plain (units : Text) : NothingBegins {} units :=
  fun _ => ⟨fun h => Bool.false_ne_true h.1, fun h => Bool.false_ne_true h.1⟩

theorem NothingBegins.nil : NothingBegins notations [] := by
  intro index
  rw [List.drop_nil]
  constructor
  · rintro ⟨-, written, rest, char, hunits, hspells⟩
    obtain ⟨body, rfl⟩ := hspells.exists_body
    cases hunits
  · rintro ⟨-, written, rest, char, hunits, hspells⟩
    obtain ⟨body, rfl⟩ := hspells.exists_body
    cases hunits

theorem NothingBegins.cons (h : step notations unit rest = .ok s) (htail : s.tail = 0)
    (later : NothingBegins notations rest) : NothingBegins notations (unit :: rest) := by
  rintro (_ | index)
  · constructor
    · rintro ⟨on, written, tail, char, hunits, hspells⟩
      obtain ⟨body, rfl⟩ := hspells.exists_body
      obtain rfl : unit = ampersand := (List.cons.inj hunits).1
      obtain rfl : rest = body ++ tail := (List.cons.inj hunits).2
      rw [step_ampersand on] at h
      obtain rfl := Reference.step_of_spells hspells h
      exact absurd htail hspells.length_pos.ne'
    · rintro ⟨on, written, tail, char, hunits, hspells⟩
      obtain ⟨body, rfl⟩ := hspells.exists_body
      obtain rfl : unit = backslash := (List.cons.inj hunits).1
      obtain rfl : rest = body ++ tail := (List.cons.inj hunits).2
      rw [step_backslash on, Escape.step, Escape.read?_of_spells hspells] at h
      cases h
      exact absurd htail hspells.length_pos.ne'
  · exact later index

/-! ## What is told then -/

/-- What is told about the first of the units if no notation can be read there. -/
def unread? (notations : Notations) : Text → Option Problem
  | [] => none
  | unit :: rest =>
    if unit = ampersand ∧ notations.xml then some (Reference.problem rest)
    else if unit = backslash ∧ notations.backslash then some (Escape.problem rest)
    else none

/-- One problem for each place at which a notation is attempted, from the left. -/
def unreadProblems (notations : Notations) (units : Text) : List Problem :=
  units.tails.filterMap (unread? notations)

theorem unreadProblems_cons (notations : Notations) (unit : CodePoint) (rest : Text) :
    unreadProblems notations (unit :: rest) =
      (unread? notations (unit :: rest)).toList ++ unreadProblems notations rest := by
  rw [unreadProblems, List.tails_cons, List.filterMap_cons]
  cases unread? notations (unit :: rest) <;> rfl

theorem unreadProblems_plain (units : Text) : unreadProblems {} units = [] := by
  refine List.filterMap_eq_nil_iff.2 fun suffix _ => ?_
  cases suffix <;> simp [unread?]

theorem NothingBegins.scan (h : NothingBegins notations units) :
    Scan notations units units (unreadProblems notations units) := by
  induction units with
  | nil => exact .nil
  | cons unit rest ih =>
    have hlater := ih h.tail
    obtain ⟨hreference, hescape⟩ := h 0
    rw [unreadProblems_cons]
    by_cases hx : unit = ampersand ∧ notations.xml
    · rw [unread?, if_pos hx]
      obtain ⟨rfl, on⟩ := hx
      exact .noReference on hreference hlater
    · by_cases hb : unit = backslash ∧ notations.backslash
      · rw [unread?, if_neg hx, if_pos hb]
        obtain ⟨rfl, on⟩ := hb
        exact .noEscape on hescape hlater
      · rw [unread?, if_neg hx, if_neg hb]
        exact .literal (fun on hu => hx ⟨hu, on⟩) (fun on hu => hb ⟨hu, on⟩) hlater

end Decode

/-! ## Decoding -/

namespace Text

variable {notations : Notations} {t : Text} {noted : Noted Text}

theorem filter_isNotation_decode (h : t.decode notations = .ok noted) :
    noted.problems.filter Problem.isNotation = noted.problems.filter (!·.isUnpaired) := by
  refine List.filter_congr fun p hp => ?_
  have hdecoding := isDecoding_decode h p hp
  cases hnotation : p.isNotation with
  | true => rw [Decode.not_unpaired_of_notation hnotation]; rfl
  | false =>
    rw [Problem.isDecoding, hnotation, Bool.false_or] at hdecoding
    rw [hdecoding]
    rfl

theorem decode_of_nothingBegins (hn : Decode.NothingBegins notations t.units)
    (h : t.decode notations = .ok noted) :
    noted.value = t.units.join .questionMark ∧
      noted.problems.filter Problem.isNotation = Decode.unreadProblems notations t.units ∧
      noted.problems.filter Problem.isUnpaired = t.units.lonelyProblems := by
  obtain ⟨numbers, problems, hscan, hvalue, hlonely, hproblems⟩ :=
    Decode.run_eq_scan_then_pair none (by simp [Decode.CanWait]) h
  obtain ⟨rfl, rfl⟩ := (hscan _ _).1 hn.scan
  exact ⟨hvalue, (filter_isNotation_decode h).trans hproblems, hlonely⟩

theorem problems_decode_plain (h : t.decode {} = .ok noted) :
    noted.problems = t.units.lonelyProblems := by
  obtain ⟨-, hnotation, hlonely⟩ := decode_of_nothingBegins (Decode.nothingBegins_plain _) h
  rw [filter_isNotation_decode h, Decode.unreadProblems_plain, List.filter_eq_nil_iff] at hnotation
  rw [← hlonely, List.filter_eq_self.2 fun p hp => by simpa using hnotation p hp]

theorem decode_mark_free (notations : Notations) (no_reference : ampersand ∉ t)
    (no_escape : backslash ∉ t) : t.decode notations = t.decode {} := by
  refine Decode.run_congr fun unit hunit rest => ?_
  have hx : unit ≠ ampersand := fun h => no_reference (mem_of_mem_units (h ▸ hunit) (by decide))
  have hb : unit ≠ backslash := fun h => no_escape (mem_of_mem_units (h ▸ hunit) (by decide))
  rw [Decode.step_literal (fun _ => hx) (fun _ => hb),
    Decode.step_literal (fun _ => hx) (fun _ => hb)]

end Text

/-- Where no notation that can be read begins, decoding gives the code points that it gives without
notations. One problem tells of each ampersand and each backslash that is taken for a notation, from
the left, and lonely surrogates are told as they are without notations. A text that has neither
character decodes alike under all notations. -/
theorem decode_unread (notations : Notations) (t : Text) :
    (t.HasShortRuns → Decode.NothingBegins notations t.units →
      ∃ noted plain, t.decode notations = .ok noted ∧ t.decode {} = .ok plain ∧
        noted.value = plain.value ∧
        noted.problems.filter Problem.isNotation = Decode.unreadProblems notations t.units ∧
        noted.problems.filter Problem.isUnpaired = plain.problems) ∧
    (ampersand ∉ t → backslash ∉ t → t.decode notations = t.decode {}) := by
  refine ⟨fun hshort hnothing => ?_, Text.decode_mark_free notations⟩
  obtain ⟨noted, hnoted⟩ := hshort.exists_decode notations
  obtain ⟨plain, hplain⟩ := hshort.exists_decode {}
  obtain ⟨hvalue, hnotation, hlonely⟩ := Text.decode_of_nothingBegins hnothing hnoted
  obtain ⟨hvalue', -⟩ := Text.decode_of_nothingBegins (Decode.nothingBegins_plain _) hplain
  exact ⟨noted, plain, hnoted, hplain, hvalue.trans hvalue'.symm, hnotation,
    hlonely.trans (Text.problems_decode_plain hplain).symm⟩

/-- A high surrogate in front of three notations, each of which begins in the one that fails before
it. -/
theorem decode_unread_overlapping :
    let t : Text := ⟨0xD83D, by decide⟩ :: ("&\\&#;" : Text)
    let notations : Notations := { backslash := true, xml := true }
    let told : List Problem :=
      [.unknownEntity "&\\&#;", .unknownEscape "\\&#;", .invalidReference "&#;"]
    t.HasShortRuns ∧ Decode.NothingBegins notations t.units ∧
      ∃ noted plain, t.decode notations = .ok noted ∧ t.decode {} = .ok plain ∧
        noted.value = plain.value ∧
        noted.problems.filter Problem.isNotation = told ∧
        noted.problems.filter Problem.isUnpaired = plain.problems := by
  intro t notations told
  have hshort : t.HasShortRuns := Text.hasShortRuns_of_length (by decide)
  have hnothing : Decode.NothingBegins notations t.units := by
    refine .cons rfl rfl (.cons rfl rfl (.cons rfl rfl (.cons rfl rfl ?_)))
    exact .cons rfl rfl (.cons rfl rfl .nil)
  exact ⟨hshort, hnothing, (decode_unread notations t).1 hshort hnothing⟩

end PlainForm

import Mathlib.Data.List.Forall2
import PlainForm.Proofs.Decode.Pass
import PlainForm.Proofs.ShortRuns

/-!
# Spellings

Units that decode to some characters wherever they stand, without anything to be told. Spellings can
be put one behind the other, since none of them hangs on what follows it.
-/

namespace PlainForm

/-! ## The units of a character -/

theorem CodePoint.units_eq_pair {c : CodePoint} (h : ¬ c.val ≤ 0xFFFF) :
    ∃ high low, c.units = [high, low] ∧ ofPair? high low = some c := by
  have hle := c.val_le
  refine ⟨_, _, if_neg h, ?_⟩
  unfold ofPair?
  rw [dif_pos ⟨isHighSurrogate_iff.2 (by dsimp only; omega),
    isLowSurrogate_iff.2 (by dsimp only; omega)⟩]
  obtain ⟨n, hn⟩ := c
  simp only [Option.some.injEq, CodePoint.mk.injEq]
  dsimp only at h
  omega

theorem Text.units_of_forall_le {t : Text} (h : ∀ c ∈ t, c.val ≤ 0xFFFF) : t.units = t := by
  induction t with
  | nil => rfl
  | cons c t ih =>
    rw [units_cons, units_of_le (h c List.mem_cons_self),
      ih fun d hd => h d (List.mem_cons_of_mem _ hd)]
    rfl

theorem Text.mem_units {t : Text} {unit : CodePoint} (h : unit ∈ t.units) :
    unit ∈ t ∧ unit.val ≤ 0xFFFF ∨ unit.isSurrogate := by
  obtain ⟨c, hc, h⟩ := List.mem_flatMap.1 h
  by_cases hle : c.val ≤ 0xFFFF
  · rw [units_of_le hle, List.mem_singleton] at h
    exact .inl (h ▸ ⟨hc, hle⟩)
  · obtain ⟨high, low, hunits, hpair⟩ := CodePoint.units_eq_pair hle
    have hhalves := CodePoint.halves_of_ofPair? hpair
    rw [hunits, List.mem_cons, List.mem_singleton] at h
    rw [CodePoint.isSurrogate_iff_high_or_low]
    rcases h with rfl | rfl
    · exact .inr (.inl hhalves.1)
    · exact .inr (.inr hhalves.2)

theorem Text.mem_of_mem_units {t : Text} {unit : CodePoint} (h : unit ∈ t.units)
    (hunit : ¬ unit.isSurrogate) : unit ∈ t :=
  ((mem_units h).resolve_right hunit).1

theorem Text.le_of_mem_units {t : Text} {unit : CodePoint} (h : unit ∈ t.units) :
    unit.val ≤ 0xFFFF := by
  rcases mem_units h with ⟨-, hle⟩ | hsurrogate
  · exact hle
  · have hbounds := CodePoint.isSurrogate_iff.1 hsurrogate
    omega

namespace Decode

variable {notations : Notations} {written written' chars chars' body : Text}
  {unit char high low : CodePoint}

/-! ## One step -/

/-- Units that are read in one step, whatever follows them. -/
def IsStep (notations : Notations) (written : Text) (char : CodePoint) : Prop :=
  ∃ unit body, written = unit :: body ∧
    ∀ rest, step notations unit (body ++ rest) = .ok { char, tail := body.length }

theorem isStep_literal (no_reference : notations.xml → unit ≠ Reference.ampersand)
    (no_escape : notations.backslash → unit ≠ Escape.backslash) : IsStep notations [unit] unit :=
  ⟨unit, [], rfl, fun _ => step_literal no_reference no_escape⟩

theorem isStep_reference (on : notations.xml) {numeral : Numeral}
    (hw : Reference.Writes numeral body) (hs : numeral.IsShort) (hv : numeral.value = char.val) :
    IsStep notations (Reference.ampersand :: body) char := by
  refine ⟨_, body, rfl, fun rest => ?_⟩
  obtain ⟨n, hn⟩ := Numeral.exists_number hs
  have hchar := (Numeral.ofNat?_number_eq_some hn).2 hv
  rw [step_ampersand on]
  simp only [Reference.step, Reference.named?_of_writes hw, Reference.numeral?_of_writes hw, hn,
    Failure.ok_bind, hchar]
  rfl

theorem isStep_escape (on : notations.backslash)
    (h : ∀ rest, Escape.Spells (Escape.backslash :: body) rest char) :
    IsStep notations (Escape.backslash :: body) char := by
  refine ⟨_, body, rfl, fun rest => ?_⟩
  rw [step_backslash on, Escape.step, Escape.read?_of_spells (h rest)]
  rfl

/-! ## Spellings of texts -/

/-- Units that decode to the characters, whatever follows them. -/
def Spells (notations : Notations) (written chars : Text) : Prop :=
  ∀ rest later, run notations none rest = .ok later →
    run notations none (written ++ rest) = .ok ⟨chars ++ later.value, later.problems⟩

theorem spells_nil : Spells notations [] [] := fun _ _ h => h

theorem Spells.append (h : Spells notations written chars) (h' : Spells notations written' chars') :
    Spells notations (written ++ written') (chars ++ chars') := by
  intro rest later hlater
  have hread := h _ _ (h' rest later hlater)
  simpa only [List.append_assoc] using hread

theorem Spells.decode {t : Text} (h : Spells notations t.units chars) :
    t.decode notations = .ok ⟨chars, []⟩ := by
  have hread := h [] ⟨[], []⟩ (by rw [run]; rfl)
  rw [List.append_nil, List.append_nil] at hread
  exact hread

/-- A step on its way: what it settles, then what is read behind it. -/
theorem IsStep.run (h : IsStep notations written char) {pending : Option CodePoint}
    {settled : Settled} (hsettle : ∀ tail, settle pending { char, tail } = settled) {rest : Text}
    {later : Noted Text} (hlater : run notations settled.pending rest = .ok later) :
    run notations pending (written ++ rest) =
      .ok ⟨settled.chars ++ later.value, settled.problems ++ later.problems⟩ := by
  obtain ⟨unit, body, rfl, hstep⟩ := h
  rw [← hsettle body.length] at hlater ⊢
  refine run_cons_eq_ok.2 ⟨_, later, hstep rest, ?_, rfl⟩
  have hdrop : (body ++ rest).drop body.length = rest := List.drop_left
  exact hdrop.symm ▸ hlater

theorem settle_scalar (h : ¬ char.isSurrogate) (tail : Nat) :
    settle none { char, tail } = { chars := [char] } := by
  rw [CodePoint.isSurrogate_iff_high_or_low, not_or] at h
  simp [settle, settleAlone, unpaired, h]

theorem settle_high (h : char.isHighSurrogate) (tail : Nat) :
    settle none { char, tail } = { pending := some char } := by
  simp [settle, settleAlone, unpaired, h]

theorem IsStep.spells (h : IsStep notations written char) (hc : ¬ char.isSurrogate) :
    Spells notations written [char] :=
  fun _ _ hlater => h.run (settle_scalar hc) hlater

theorem IsStep.spells_pair (h : IsStep notations written high) (h' : IsStep notations written' low)
    (hpair : CodePoint.ofPair? high low = some char) :
    Spells notations (written ++ written') [char] := by
  intro rest later hlater
  have hhigh := (CodePoint.halves_of_ofPair? hpair).1
  have hpaired : ∀ tail, settle (some high) { char := low, tail } = { chars := [char] } :=
    fun _ => settle_pair hpair
  -- The high half waits while the low half is read.
  rw [List.append_assoc]
  exact h.run (settle_high hhigh) (h'.run hpaired hlater)

theorem spells_flatMap {write : CodePoint → Text} {t : Text}
    (hwrite : ∀ c ∈ t, Spells notations (write c) [c]) :
    Spells notations (t.flatMap write) t := by
  induction t with
  | nil => exact spells_nil
  | cons c t ih =>
    have hlater := ih fun d hd => hwrite d (List.mem_cons_of_mem _ hd)
    exact (hwrite c List.mem_cons_self).append hlater

theorem spells_parts {parts : List Text} (hc : ¬ char.isSurrogate)
    (h : List.Forall₂ (IsStep notations) parts char.units) :
    Spells notations parts.flatten [char] := by
  by_cases hle : char.val ≤ 0xFFFF
  · rw [Text.units_of_le hle] at h
    obtain ⟨part, none, hpart, hnone, rfl⟩ := List.forall₂_cons_right_iff.1 h
    obtain rfl := List.forall₂_nil_right_iff.1 hnone
    simpa using hpart.spells hc
  · obtain ⟨high, low, hunits, hpair⟩ := CodePoint.units_eq_pair hle
    rw [hunits] at h
    obtain ⟨part, parts, hhigh, hparts, rfl⟩ := List.forall₂_cons_right_iff.1 h
    obtain ⟨part', none, hlow, hnone, rfl⟩ := List.forall₂_cons_right_iff.1 hparts
    obtain rfl := List.forall₂_nil_right_iff.1 hnone
    simpa using hhigh.spells_pair hlow hpair

theorem spells_units_char {write : CodePoint → Text} (hc : ¬ char.isSurrogate)
    (hwrite : ∀ unit ∈ char.units, IsStep notations (write unit) unit) :
    Spells notations (char.units.flatMap write) [char] := by
  rw [List.flatMap_def]
  exact spells_parts hc (List.forall₂_map_left_iff.2 (List.forall₂_same.2 hwrite))

theorem spells_units {write : CodePoint → Text} {t : Text} (hscalar : t.IsScalar)
    (hwrite : ∀ unit ∈ t.units, IsStep notations (write unit) unit) :
    Spells notations (t.units.flatMap write) t := by
  rw [Text.units, List.flatMap_assoc]
  refine spells_flatMap fun c hc => spells_units_char (hscalar c hc) fun unit hunit => ?_
  exact hwrite unit (List.mem_flatMap.2 ⟨c, hc, hunit⟩)

theorem spells_self {t : Text} (hscalar : t.IsScalar)
    (no_reference : notations.xml → Reference.ampersand ∉ t.units)
    (no_escape : notations.backslash → Escape.backslash ∉ t.units) :
    Spells notations t.units t := by
  have hunits : t.units.flatMap (fun unit => [unit]) = t.units := by simp
  rw [← hunits]
  refine spells_units hscalar fun unit hunit => ?_
  apply isStep_literal
  · rintro on rfl
    exact no_reference on hunit
  · rintro on rfl
    exact no_escape on hunit

end Decode

theorem Text.IsScalar.decode {t : Text} (h : t.IsScalar) : t.decode {} = .ok ⟨t, []⟩ :=
  (Decode.spells_self h (by simp) (by simp)).decode

end PlainForm

import Mathlib.Data.Set.Defs
import PlainForm.Conversion
import PlainForm.Proofs.Decode.Pass
import PlainForm.Proofs.Rendering

/-!
# What a conversion comes to

A conversion is the decoding of a text, the one cut of what it gives with its rendering, and the
encoding of the outcome. A table of complete rules converts every text that can be decoded.
-/

namespace PlainForm

/-! ## Numbers of code points -/

namespace CodePoint

theorem number_inj {c d : CodePoint} : c.number = d.number ↔ c = d :=
  Int.ofNat_inj.trans val_inj

theorem isShort_number (c : CodePoint) : CharNumber.IsShort c.number := by
  have hc : c.number.natAbs < 10 ^ 7 := by
    have := c.val_le
    simp only [CodePoint.number, Int.natAbs_natCast]
    omega
  exact Nat.lt_of_lt_of_le hc (Nat.pow_le_pow_right (by decide) (by decide))

end CodePoint

theorem Text.isShort_numbers (t : Text) : ∀ n ∈ t.numbers, CharNumber.IsShort n := by
  intro n hn
  obtain ⟨c, -, rfl⟩ := List.mem_map.1 hn
  exact c.isShort_number

theorem Text.numbers_inj {t t' : Text} : t.numbers = t'.numbers ↔ t = t' :=
  List.map_inj_right fun _ _ => CodePoint.number_inj.1

/-! ## Renderings -/

theorem Render.fragment_none (rule : Rule) (numbers : List Int) (told : List Problem) :
    Render.fragment none rule numbers told = Render.builtin rule numbers := by
  unfold Render.fragment
  cases rule.action <;> rfl

namespace Rendering

variable {renderer : Option Renderer} {told problems : List Problem} {spans : List Span}
  {numbers : List Int}

/-- What holds between the numbers of every span and what it comes to holds between the whole input
and the whole outcome, if it may be put together. -/
theorem relate {R : List Int → List Int → Prop} (hnil : R [] [])
    (happend : ∀ {a b a' b'}, R a b → R a' b' → R (a ++ a') (b ++ b'))
    (h : Rendering renderer told spans numbers problems)
    (hkept : ∀ span ∈ spans, span.change? = none → R span.numbers span.numbers)
    (hchanged : ∀ span ∈ spans, ∀ hit told fragment, span.change? = some hit →
      Render.fragment renderer hit.rule span.numbers told = .ok fragment →
        R span.numbers fragment.text.numbers) :
    R (spans.flatMap Span.numbers) numbers := by
  induction h using induction_on_change with
  | nil => exact hnil
  | kept unchanged _ ih =>
    exact happend (hkept _ List.mem_cons_self unchanged)
      (ih (fun s hs => hkept s (List.mem_cons_of_mem _ hs))
        fun s hs => hchanged s (List.mem_cons_of_mem _ hs))
  | changed change rendered _ ih =>
    exact happend (hchanged _ List.mem_cons_self _ _ _ change rendered)
      (ih (fun s hs => hkept s (List.mem_cons_of_mem _ hs))
        fun s hs => hchanged s (List.mem_cons_of_mem _ hs))

theorem forall_numbers {p : Int → Prop} (h : Rendering renderer told spans numbers problems)
    (hkept : ∀ span ∈ spans, span.change? = none → ∀ n ∈ span.numbers, p n)
    (hchanged : ∀ span ∈ spans, ∀ hit told fragment, span.change? = some hit →
      Render.fragment renderer hit.rule span.numbers told = .ok fragment →
        ∀ n ∈ fragment.text.numbers, p n) :
    ∀ n ∈ numbers, p n :=
  relate (R := fun _ outcome => ∀ n ∈ outcome, p n) (by simp)
    (fun h h' => by simpa only [List.forall_mem_append] using ⟨h, h'⟩) h hkept hchanged

end Rendering

/-! ## Spans of a text -/

/-- Whatever the target matches in a text, it matches characters of the set only. Decoded texts hold
no surrogates, so that other texts do not matter. -/
def Target.MatchesOnly (target : Target) (s : Set CodePoint) : Prop :=
  ∀ (rest : Text) (length : Nat), rest.IsScalar → target.Takes rest.numbers length →
    ∀ c ∈ rest.take length, c ∈ s

theorem Target.matchesOnly_range {low high : Int} {s : Set CodePoint}
    (h : ∀ c : CodePoint, low ≤ c.number → c.number ≤ high → c ∈ s) :
    (range low high).MatchesOnly s := by
  rintro rest length - ⟨rfl, n, hn, hlow, hhigh⟩ c hc
  cases rest with
  | nil => cases hc
  | cons d rest =>
    obtain rfl : c = d := List.mem_singleton.1 hc
    obtain rfl : c.number = n := Option.some.inj hn
    exact h c hlow hhigh

theorem Target.matchesOnly_sequence {numbers : List Int} {s : Set CodePoint}
    (h : ∀ c : CodePoint, c.number ∈ numbers → c ∈ s) : (sequence numbers).MatchesOnly s := by
  rintro rest length - ⟨-, rfl, hpart⟩ c hc
  have hmem : c.number ∈ rest.numbers.take numbers.length := by
    rw [Text.numbers, ← List.map_take]
    exact List.mem_map_of_mem hc
  rw [← List.prefix_iff_eq_take.1 hpart] at hmem
  exact h c hmem

namespace Table

variable {table : Table} {spans : List Span} {t : Text} {rest : List Int} {span : Span}

theorem Chooses.rest_ne_nil (h : table.Chooses rest span) (hfilled : span.numbers ≠ []) :
    rest ≠ [] := by
  rintro rfl
  unfold Chooses at h
  split at h <;> exact hfilled (by rw [h.2, List.take_nil])

theorem IsCut.exists_suffix (h : table.IsCut 0 t.numbers spans) (hspan : span ∈ spans) :
    ∃ rest : Text, rest <:+ t ∧ rest ≠ [] ∧ table.Chooses rest.numbers span := by
  obtain ⟨before, after, hsplit⟩ := List.append_of_mem hspan
  obtain ⟨-, hchosen⟩ := h.chosen before span after hsplit
  have hdrop : t.numbers.drop (before.flatMap Span.numbers).length =
      Text.numbers (t.drop (before.flatMap Span.numbers).length) := List.map_drop.symm
  rw [hdrop] at hchosen
  refine ⟨t.drop (before.flatMap Span.numbers).length, List.drop_suffix _ t, ?_, hchosen⟩
  intro hnil
  exact hchosen.rest_ne_nil (h.filled span hspan) (by rw [hnil]; rfl)

theorem Chooses.of_change {hit : Hit} (h : table.Chooses rest span)
    (hchange : span.change? = some hit) : table.FirstMatch rest hit ∧
      hit.rule.action ≠ .accept ∧ span.numbers = rest.take hit.length := by
  obtain ⟨hhit, haction⟩ := Span.change?_eq_some.1 hchange
  unfold Chooses at h
  rw [hhit] at h
  exact ⟨h.1, haction, h.2⟩

theorem Chooses.of_kept (h : table.Chooses rest span) (hkept : span.change? = none) :
    (∃ hit, table.FirstMatch rest hit ∧ hit.rule.action = .accept ∧
      span.numbers = rest.take hit.length) ∨
    (∀ rule ∈ table.rules, ∀ length, ¬ rule.target.Takes rest length) ∧
      span.numbers = rest.take 1 := by
  unfold Chooses at h
  cases hhit : span.hit with
  | none =>
    rw [hhit] at h
    exact .inr h
  | some hit =>
    rw [hhit] at h
    exact .inl ⟨hit, h.1, Span.action_of_change?_eq_none hkept hhit, h.2⟩

theorem FirstMatch.mem {hit : Hit} (h : table.FirstMatch rest hit) : hit.rule ∈ table.rules :=
  List.mem_of_getElem? h.rule_eq

end Table

/-! ## Conversions -/

namespace Table

variable {table : Table} {notations : Notations} {t : Text}

theorem substitute_eq (hcommitted : table.committed)
    (hcomplete : ∀ rule ∈ table.rules, rule.target.IsComplete) (t : Text)
    (renderer : Option Renderer) :
    ∃ spans s, table.IsCut 0 t.numbers spans ∧ table.substitute t.numbers renderer = .ok s ∧
      Rendering renderer [] spans s.numbers s.problems ∧
      s.changes = spans.countP Span.isChange := by
  obtain ⟨spans, hcut, hrenders⟩ := table.exists_substitute hcommitted hcomplete t.isShort_numbers
  obtain ⟨s, hs, hrendering, hchanges⟩ := hrenders renderer
  exact ⟨spans, s, hcut, hs, hrendering, hchanges⟩

theorem convert_eq_ok {renderer : Option Renderer} {conversion : Conversion} :
    table.convert notations t renderer = .ok conversion ↔
      ∃ decoded s, t.decode notations = .ok decoded ∧
        table.substitute decoded.value.numbers renderer = .ok s ∧
        conversion = {
          text := (encode s.numbers).value
          changes := s.changes
          problems := decoded.problems ++ s.problems ++ (encode s.numbers).problems
          log := s.log ++ Conversion.comparison t s.changes (encode s.numbers).value } := by
  unfold convert
  simp only [Failure.bind_eq_ok, Failure.pure_eq, Except.ok.injEq]
  constructor
  · rintro ⟨decoded, hd, s, hs, rfl⟩
    exact ⟨decoded, s, hd, hs, rfl⟩
  · rintro ⟨decoded, s, hd, hs, rfl⟩
    exact ⟨decoded, hd, s, hs, rfl⟩

end Table

end PlainForm

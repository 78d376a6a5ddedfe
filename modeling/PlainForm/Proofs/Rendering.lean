import Mathlib.Algebra.Group.Nat.Defs
import PlainForm.Proofs.Cut

/-!
# What a substitution comes to

A substitution renders the spans of the one cut of its input, from the left: what accept rules take
and what no rule matches stays, and everything else is replaced. It never gives up on numbers that
are short enough to be written, and only what is put in place of custom rules hangs on the renderer
of the caller's choice.
-/

namespace PlainForm

/-! ## What is put in place of a match -/

/-- The number has no more decimal digits than a numeral may have. -/
def CharNumber.IsShort (n : Int) : Prop := n.natAbs < 10 ^ decimalDigitLimit

/-- What a rule makes of the numbers it takes when nobody chooses a renderer. Decimal forms are made
of short numbers only. -/
def Rule.Makes (rule : Rule) (numbers : List Int) (fragment : Fragment) : Prop :=
  match rule.action with
  | .accept => False
  | .replace => fragment = { text := rule.right.getD [] }
  | .custom =>
    fragment = { text := "<" ++ Text.joined " " (numbers.map CharNumber.unicode ++
      (rule.right.filter (· ≠ [])).toList) ++ ">" }
  | .decimal => (∀ n ∈ numbers, CharNumber.IsShort n) ∧
      fragment = { text := numbers.flatMap fun n => "<" ++ CharNumber.decimal n ++ ">" }
  | .hexadecimal =>
    fragment = { text := numbers.flatMap fun n => "<" ++ CharNumber.hexadecimal n ++ ">" }
  | .utf16 =>
    fragment = ⟨(encode numbers).value.units.flatMap fun unit =>
      "\\u" ++ CharNumber.fourDigits unit.number, (encode numbers).problems⟩
  | .octal => fragment = { text := numbers.flatMap fun n => "<" ++ CharNumber.octal n ++ ">" }
  | .unicode => fragment = { text := numbers.flatMap fun n => "<" ++ CharNumber.unicode n ++ ">" }
  | .xmlDecimal => (∀ n ∈ numbers, CharNumber.IsShort n) ∧
      fragment = { text := numbers.flatMap fun n => "&#" ++ CharNumber.decimal n ++ ";" }
  | .xmlHexadecimal =>
    fragment = { text := numbers.flatMap fun n => "&#x" ++ CharNumber.hexadecimal n ++ ";" }

/-- What is put in place of the numbers that a rule takes. `told` are the problems told before. -/
inductive Rule.Puts (rule : Rule) (numbers : List Int) (told : List Problem) :
    Option Renderer → Fragment → Prop where
  | chosen {render} (custom : rule.action = .custom) :
      Puts rule numbers told (some render) (render numbers rule told)
  | builtIn {renderer fragment} (not_chosen : rule.action = .custom → renderer = none)
      (made : rule.Makes numbers fragment) : Puts rule numbers told renderer fragment

/-! ## Renderings -/

/-- A rule other than an accept rule takes the span. -/
def Span.isChange (span : Span) : Bool := span.hit.any (·.rule.action ≠ .accept)

/-- What spans come to when they are rendered from the left: numbers, and problems that are told. -/
inductive Rendering (renderer : Option Renderer) :
    (told : List Problem) → List Span → List Int → List Problem → Prop where
  | nil {told} : Rendering renderer told [] [] []
  | unmatched {told span spans numbers problems} (no_hit : span.hit = none)
      (later : Rendering renderer told spans numbers problems) :
      Rendering renderer told (span :: spans) (span.numbers ++ numbers) problems
  | accepted {told span spans numbers problems hit} (hit_eq : span.hit = some hit)
      (accept : hit.rule.action = .accept)
      (later : Rendering renderer told spans numbers problems) :
      Rendering renderer told (span :: spans) (span.numbers ++ numbers) problems
  | changed {told span spans numbers problems hit fragment} (hit_eq : span.hit = some hit)
      (not_accept : hit.rule.action ≠ .accept)
      (put : hit.rule.Puts span.numbers told renderer fragment)
      (later : Rendering renderer (told ++ fragment.problems) spans numbers problems) :
      Rendering renderer told (span :: spans) (fragment.text.numbers ++ numbers)
        (fragment.problems ++ problems)

/-! ## Renderers that write number by number -/

theorem CharNumber.decimal?_eq_ok_iff {n : Int} {t : Text} :
    decimal? n = .ok t ↔ IsShort n ∧ t = decimal n := by
  have hlength : (digits 10 n.natAbs).length ≤ decimalDigitLimit ↔ IsShort n := by
    rw [digits, List.length_map]
    exact Nat.length_toDigits_le_iff (by decide) (by decide)
  unfold decimal?
  split
  · next hn => simp [← hlength, hn, eq_comm]
  · next hn => simp [← hlength, hn]

namespace Render

variable {write : Int → Except Failure Text} {form : Int → Text} {p : Int → Prop}
  {numbers : List Int} {rule : Rule} {fragment : Fragment}

theorem each_eq_ok_iff (hwrite : ∀ n t, write n = .ok t ↔ p n ∧ t = form n) {t : Text} :
    each write numbers = .ok t ↔ (∀ n ∈ numbers, p n) ∧ t = numbers.flatMap form := by
  induction numbers generalizing t with
  | nil => simp [each, eq_comm]
  | cons n numbers ih =>
    simp only [each, Failure.bind_eq_ok, Failure.pure_eq, Except.ok.injEq, hwrite, ih,
      List.forall_mem_cons, List.flatMap_cons]
    constructor
    · rintro ⟨first, ⟨hn, rfl⟩, others, ⟨hnumbers, rfl⟩, rfl⟩
      exact ⟨⟨hn, hnumbers⟩, rfl⟩
    · rintro ⟨⟨hn, hnumbers⟩, rfl⟩
      exact ⟨_, ⟨hn, rfl⟩, _, ⟨hnumbers, rfl⟩, rfl⟩

theorem each_fragment_eq_ok_iff (hwrite : ∀ n t, write n = .ok t ↔ p n ∧ t = form n) :
    (return { text := ← each write numbers } : Except Failure Fragment) = .ok fragment ↔
      (∀ n ∈ numbers, p n) ∧ fragment = { text := numbers.flatMap form } := by
  simp only [Failure.bind_eq_ok, Failure.pure_eq, Except.ok.injEq, each_eq_ok_iff hwrite]
  constructor
  · rintro ⟨t, ⟨hnumbers, rfl⟩, rfl⟩
    exact ⟨hnumbers, rfl⟩
  · rintro ⟨hnumbers, rfl⟩
    exact ⟨_, ⟨hnumbers, rfl⟩, rfl⟩

theorem each_decimal_eq_ok_iff (wrap : Text → Text) :
    (return { text := ← each (fun n => return wrap (← CharNumber.decimal? n)) numbers } :
      Except Failure Fragment) = .ok fragment ↔ (∀ n ∈ numbers, CharNumber.IsShort n) ∧
        fragment = { text := numbers.flatMap fun n => wrap (CharNumber.decimal n) } := by
  refine each_fragment_eq_ok_iff fun n t => ?_
  simp only [Failure.bind_eq_ok, Failure.pure_eq, Except.ok.injEq, CharNumber.decimal?_eq_ok_iff]
  constructor
  · rintro ⟨_, ⟨hn, rfl⟩, rfl⟩
    exact ⟨hn, rfl⟩
  · rintro ⟨hn, rfl⟩
    exact ⟨_, ⟨hn, rfl⟩, rfl⟩

theorem each_form_eq_ok_iff (form : Int → Text) :
    (return { text := ← each (fun n => return form n) numbers } : Except Failure Fragment) =
      .ok fragment ↔ fragment = { text := numbers.flatMap form } := by
  have hwrite : ∀ n t, (return form n : Except Failure Text) = .ok t ↔ True ∧ t = form n := by
    intro n t
    simp [eq_comm]
  rw [each_fragment_eq_ok_iff hwrite]
  simp

/-! ## The built-in renderers -/

theorem builtin_eq_ok_iff (h : rule.action ≠ .accept) :
    builtin rule numbers = .ok fragment ↔ rule.Makes numbers fragment := by
  unfold builtin Rule.Makes
  cases haction : rule.action with
  | accept => exact absurd haction h
  | replace => simp only [Except.ok.injEq, eq_comm]
  | custom =>
    have hright : (if rule.right.getD [] = [] then [] else [rule.right.getD []]) =
        (rule.right.filter (· ≠ [])).toList := by
      cases rule.right with
      | none => rfl
      | some right => by_cases hright : right = [] <;> simp [Option.filter_some, hright]
    rw [custom, bracketed, hright, Except.ok.injEq]
    exact eq_comm
  | utf16 => simp only [utf16, Except.ok.injEq, eq_comm]
  | decimal => exact each_decimal_eq_ok_iff bracketed
  | xmlDecimal => exact each_decimal_eq_ok_iff fun form => "&#" ++ form ++ ";"
  | hexadecimal | octal | unicode | xmlHexadecimal => exact each_form_eq_ok_iff _

end Render

theorem Rule.exists_makes {rule : Rule} (h : rule.action ≠ .accept) {numbers : List Int}
    (hshort : ∀ n ∈ numbers, CharNumber.IsShort n) : ∃ fragment, rule.Makes numbers fragment := by
  unfold Rule.Makes
  cases haction : rule.action with
  | accept => exact absurd haction h
  | decimal | xmlDecimal => exact ⟨_, hshort, rfl⟩
  | replace | custom | utf16 | hexadecimal | octal | unicode | xmlHexadecimal => exact ⟨_, rfl⟩

theorem Render.builtin_eq_ok (rule : Rule) {numbers : List Int}
    (h : ∀ n ∈ numbers, CharNumber.IsShort n) : ∃ f, Render.builtin rule numbers = .ok f := by
  by_cases haccept : rule.action = .accept
  · exact ⟨{ text := [] }, by rw [builtin, haccept]⟩
  · obtain ⟨fragment, hmakes⟩ := Rule.exists_makes haccept h
    exact ⟨fragment, (builtin_eq_ok_iff haccept).2 hmakes⟩

theorem Render.fragment_eq_ok (renderer : Option Renderer) (rule : Rule) {numbers : List Int}
    (h : ∀ n ∈ numbers, CharNumber.IsShort n) (told : List Problem) :
    ∃ f, Render.fragment renderer rule numbers told = .ok f := by
  unfold Render.fragment
  split
  · exact ⟨_, rfl⟩
  · exact builtin_eq_ok rule h

theorem Rule.puts_iff {rule : Rule} (h : rule.action ≠ .accept) {numbers : List Int}
    {told : List Problem} {renderer : Option Renderer} {fragment : Fragment} :
    rule.Puts numbers told renderer fragment ↔
      Render.fragment renderer rule numbers told = .ok fragment := by
  constructor
  · intro hputs
    cases hputs with
    | chosen custom => simp [Render.fragment, custom]
    | builtIn not_chosen made =>
      rw [← Render.builtin_eq_ok_iff h] at made
      unfold Render.fragment
      split
      · next hcustom => cases not_chosen hcustom
      · exact made
  · intro hfragment
    unfold Render.fragment at hfragment
    split at hfragment
    · next hcustom =>
      cases hfragment
      exact .chosen hcustom
    · next hbuiltin =>
      refine .builtIn (fun hcustom => ?_) ((Render.builtin_eq_ok_iff h).1 hfragment)
      exact Option.eq_none_iff_forall_ne_some.2 fun render => hbuiltin render hcustom

/-! ## Spans that are kept and changed -/

theorem Span.change?_eq_some {span : Span} {hit : Hit} :
    span.change? = some hit ↔ span.hit = some hit ∧ hit.rule.action ≠ .accept := by
  simp [Span.change?, Option.filter_eq_some_iff]

theorem Span.action_of_change?_eq_none {span : Span} {hit : Hit} (h : span.change? = none)
    (hhit : span.hit = some hit) : hit.rule.action = .accept := by
  simpa [Span.change?, hhit] using h

theorem Span.isChange_eq (span : Span) : span.isChange = span.change?.isSome := by
  unfold Span.isChange Span.change?
  cases span.hit with
  | none => rfl
  | some hit => by_cases h : hit.rule.action = .accept <;> simp [Option.filter_some, h]

namespace Rendering

variable {renderer : Option Renderer} {told problems : List Problem} {span : Span}
  {spans : List Span} {numbers : List Int} {hit : Hit} {fragment : Fragment}

theorem cons_kept (unchanged : span.change? = none)
    (later : Rendering renderer told spans numbers problems) :
    Rendering renderer told (span :: spans) (span.numbers ++ numbers) problems := by
  cases hhit : span.hit with
  | none => exact .unmatched hhit later
  | some hit => exact .accepted hhit (Span.action_of_change?_eq_none unchanged hhit) later

theorem cons_changed (change : span.change? = some hit)
    (rendered : Render.fragment renderer hit.rule span.numbers told = .ok fragment)
    (later : Rendering renderer (told ++ fragment.problems) spans numbers problems) :
    Rendering renderer told (span :: spans) (fragment.text.numbers ++ numbers)
      (fragment.problems ++ problems) := by
  obtain ⟨hhit, haccept⟩ := Span.change?_eq_some.1 change
  exact .changed hhit haccept ((Rule.puts_iff haccept).2 rendered) later

/-- The two kinds of spans that rendering tells apart. -/
@[elab_as_elim]
theorem induction_on_change
    {motive : ∀ told spans numbers problems,
      Rendering renderer told spans numbers problems → Prop}
    {told spans numbers problems} (h : Rendering renderer told spans numbers problems)
    (nil : ∀ {told}, motive told [] [] [] .nil)
    (kept : ∀ {told span spans numbers problems} (unchanged : span.change? = none)
      (later : Rendering renderer told spans numbers problems),
        motive told spans numbers problems later →
          motive told (span :: spans) (span.numbers ++ numbers) problems
            (later.cons_kept unchanged))
    (changed : ∀ {told span spans numbers problems hit fragment}
      (change : span.change? = some hit)
      (rendered : Render.fragment renderer hit.rule span.numbers told = .ok fragment)
      (later : Rendering renderer (told ++ fragment.problems) spans numbers problems),
        motive (told ++ fragment.problems) spans numbers problems later →
          motive told (span :: spans) (fragment.text.numbers ++ numbers)
            (fragment.problems ++ problems) (cons_changed change rendered later)) :
    motive told spans numbers problems h := by
  induction h with
  | nil => exact nil
  | unmatched no_hit later ih => exact kept (by rw [Span.change?, no_hit]; rfl) later ih
  | accepted hit_eq accept later ih => exact kept (by simp [Span.change?, hit_eq, accept]) later ih
  | changed hit_eq not_accept put later ih =>
    exact changed (Span.change?_eq_some.2 ⟨hit_eq, not_accept⟩) ((Rule.puts_iff not_accept).1 put)
      later ih

end Rendering

theorem Render.pieces_eq_ok (renderer : Option Renderer) {spans : List Span}
    (h : ∀ span ∈ spans, ∀ n ∈ span.numbers, CharNumber.IsShort n) (told : List Problem) :
    ∃ pieces, Render.pieces renderer told spans = .ok pieces ∧
      Rendering renderer told spans (pieces.flatMap Piece.numbers)
        (pieces.flatMap Piece.problems) ∧
      pieces.countP Piece.isChange = spans.countP Span.isChange := by
  induction spans generalizing told with
  | nil => exact ⟨[], rfl, .nil, rfl⟩
  | cons span spans ih =>
    have hrest : ∀ s ∈ spans, ∀ n ∈ s.numbers, CharNumber.IsShort n :=
      fun s hs => h s (List.mem_cons_of_mem _ hs)
    cases hc : span.change? with
    | none =>
      obtain ⟨pieces, hp, hr, hn⟩ := ih hrest told
      refine ⟨⟨span, none⟩ :: pieces, ?_, .cons_kept hc hr, ?_⟩
      · simp [Render.pieces, hc, hp]
      · simp [hn, Piece.isChange, Span.isChange_eq, hc]
    | some hit =>
      obtain ⟨f, hf⟩ := Render.fragment_eq_ok renderer hit.rule (h span List.mem_cons_self) told
      obtain ⟨pieces, hp, hr, hn⟩ := ih hrest (told ++ f.problems)
      refine ⟨⟨span, some f⟩ :: pieces, ?_, .cons_changed hc hf hr, ?_⟩
      · simp [Render.pieces, hc, hf, hp]
      · simp [List.countP_cons, hn, Piece.isChange, Span.isChange_eq, hc]

/-! ## Substitution -/

theorem Table.substitute_eq_ok {table : Table} (hcommitted : table.committed)
    {numbers : List Int} {renderer : Option Renderer} {s : Substitution} :
    table.substitute numbers renderer = .ok s ↔
      ∃ spans, table.cut 0 numbers = .ok spans ∧
        Render.pieces renderer [] spans = .ok s.pieces := by
  unfold substitute
  simp only [hcommitted, ↓reduceIte, Failure.bind_eq_ok, Failure.pure_eq, Except.ok.injEq]
  constructor
  · rintro ⟨spans, hspans, pieces, hpieces, rfl⟩
    exact ⟨spans, hspans, hpieces⟩
  · rintro ⟨spans, hspans, hpieces⟩
    exact ⟨spans, hspans, s.pieces, hpieces, rfl⟩

theorem Table.exists_substitute {table : Table} (hcommitted : table.committed)
    (hcomplete : ∀ rule ∈ table.rules, rule.target.IsComplete) {numbers : List Int}
    (hshort : ∀ n ∈ numbers, CharNumber.IsShort n) :
    ∃ spans, table.IsCut 0 numbers spans ∧
      ∀ renderer, ∃ s, table.substitute numbers renderer = .ok s ∧
        Rendering renderer [] spans s.numbers s.problems ∧
        s.changes = spans.countP Span.isChange := by
  obtain ⟨spans, hspans, hcut⟩ := Table.cut_eq hcomplete 0 numbers
  have hspan : ∀ span ∈ spans, ∀ n ∈ span.numbers, CharNumber.IsShort n := by
    intro span hs n hn
    exact hshort n (hcut.whole ▸ List.mem_flatMap.2 ⟨span, hs, hn⟩)
  refine ⟨spans, hcut, fun renderer => ?_⟩
  obtain ⟨pieces, hpieces, hrendering, hchanges⟩ := Render.pieces_eq_ok renderer hspan []
  exact ⟨⟨pieces⟩, (substitute_eq_ok hcommitted).2 ⟨spans, hspans, hpieces⟩, hrendering, hchanges⟩

/-- A committed table of complete rules substitutes in all short numbers, and what comes out is the
rendering of the one cut of its input. The cut and the number of changes are the same for all
renderers. -/
theorem substitute_renders_unique_cut (table : Table) (hcommitted : table.committed)
    (hcomplete : ∀ rule ∈ table.rules, rule.target.IsComplete) (numbers : List Int)
    (hshort : ∀ n ∈ numbers, CharNumber.IsShort n) :
    ∃ spans, (∀ others, table.IsCut 0 numbers others ↔ others = spans) ∧
      ∀ renderer, ∃ s, table.substitute numbers renderer = .ok s ∧
        Rendering renderer [] spans s.numbers s.problems ∧
        s.changes = spans.countP Span.isChange := by
  obtain ⟨spans, hcut, hrenders⟩ := table.exists_substitute hcommitted hcomplete hshort
  refine ⟨spans, fun others => ?_, hrenders⟩
  constructor
  · intro hothers
    exact hothers.unique hcut
  · rintro rfl
    exact hcut

/-- An empty sequence, a range before a longer sequence that begins like it, an accepted letter, and
a sequence that runs past the end; first with the built-in renderers, then with another one. -/
theorem substitute_renders_overlapping_rules :
    let custom : Rule := ⟨.custom, .sequence [0x63, 0x64], some "x"⟩
    let decimal : Rule := ⟨.decimal, .range 0x61 0x62, none⟩
    let accept : Rule := ⟨.accept, .sequence [0x64], none⟩
    let table : Table := ⟨[⟨.accept, .sequence [], none⟩, custom, decimal,
      ⟨.replace, .sequence [0x61, 0x62], some "y"⟩, accept], true⟩
    let numbers : List Int := [0x61, 0x62, 0x63, 0x64, 0x64, 0x63]
    let spans : List Span := [⟨0, [0x61], some ⟨3, decimal, 1⟩⟩, ⟨1, [0x62], some ⟨3, decimal, 1⟩⟩,
      ⟨2, [0x63, 0x64], some ⟨2, custom, 2⟩⟩, ⟨4, [0x64], some ⟨5, accept, 1⟩⟩, ⟨5, [0x63], none⟩]
    let mark : Renderer := fun _ _ _ => ⟨"!", [.invalidCharNumber 0xD800]⟩
    table.committed ∧ (∀ rule ∈ table.rules, rule.target.IsComplete) ∧
      (∀ n ∈ numbers, CharNumber.IsShort n) ∧
      (∀ others, table.IsCut 0 numbers others ↔ others = spans) ∧
      (∃ s, table.substitute numbers none = .ok s ∧
        Rendering none [] spans s.numbers s.problems ∧ s.changes = 3 ∧
        s.numbers = Text.numbers "<97><98><U+0063 U+0064 x>dc" ∧ s.problems = []) ∧
      ∃ s, table.substitute numbers (some mark) = .ok s ∧
        Rendering (some mark) [] spans s.numbers s.problems ∧ s.changes = 3 ∧
        s.numbers = Text.numbers "<97><98>!dc" ∧ s.problems = [.invalidCharNumber 0xD800] := by
  intro custom decimal accept table numbers spans mark
  have hcomplete : ∀ rule ∈ table.rules, rule.target.IsComplete := by
    simp [table, custom, decimal, accept, Target.IsComplete]
  have hshort : ∀ n ∈ numbers, CharNumber.IsShort n := by
    intro n hn
    have h3 : n.natAbs < 10 ^ 3 := by simp [numbers] at hn; omega
    exact Nat.lt_of_lt_of_le h3 (Nat.pow_le_pow_right (by decide) (by decide))
  have hspans : table.cut 0 numbers = .ok spans := by
    unfold table numbers spans custom decimal accept
    cbv
  obtain ⟨cut, hunique, hrenders⟩ :=
    substitute_renders_unique_cut table rfl hcomplete numbers hshort
  obtain rfl : spans = cut := by
    obtain ⟨made, hmade, hcut⟩ := Table.cut_eq hcomplete 0 numbers
    obtain rfl : spans = made := Except.ok.inj (hspans.symm.trans hmade)
    exact (hunique spans).1 hcut
  refine ⟨rfl, hcomplete, hshort, hunique, ?_, ?_⟩
  · obtain ⟨s, hs, hrendering, hchanges⟩ := hrenders none
    have houtcome : (table.substitute numbers none).map (fun s => (s.numbers, s.problems)) =
        .ok (Text.numbers "<97><98><U+0063 U+0064 x>dc", []) := by
      rw [Table.substitute, if_pos rfl, hspans]
      rfl
    rw [hs] at houtcome
    exact ⟨s, hs, hrendering, hchanges, Prod.mk.inj (Except.ok.inj houtcome)⟩
  · obtain ⟨s, hs, hrendering, hchanges⟩ := hrenders (some mark)
    have houtcome : (table.substitute numbers (some mark)).map (fun s => (s.numbers, s.problems)) =
        .ok (Text.numbers "<97><98>!dc", [.invalidCharNumber 0xD800]) := by
      rw [Table.substitute, if_pos rfl, hspans]
      rfl
    rw [hs] at houtcome
    exact ⟨s, hs, hrendering, hchanges, Prod.mk.inj (Except.ok.inj houtcome)⟩

end PlainForm

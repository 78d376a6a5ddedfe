import PlainForm.Proofs.Conversion
import PlainForm.Proofs.Described
import PlainForm.Proofs.RuleLine.Accepts
import PlainForm.Proofs.RuleLine.Backslash

/-!
# Rules written as lines

A rule can be written as a line in which all characters stand in `U+` form. Whatever notations are
on, the line is read as the rule.
-/

namespace PlainForm

open Grammar
open Token (Item)

/-! ## The line of a rule -/

theorem Target.WellFormed.describe?_eq {target : Target} (h : target.WellFormed) :
    target.describe? = .ok target.describe := h.isComplete.describe?_eq

theorem Action.toLower_keyword (action : Action) :
    Text.toLower action.keyword = action.keyword := by
  cases action <;> decide

namespace Rule

/-- What stands for a right side: its characters in `U+` form, or empty quotation marks. -/
def rightWords (right : Text) : List Text :=
  if right = [] then ["\"\""] else right.numbers.map CharNumber.unicode

theorem rightWords_ne_nil (right : Text) : rightWords right ≠ [] := by
  unfold rightWords
  split
  · exact List.cons_ne_nil _ _
  · next h => simpa [Text.numbers] using h

def words (rule : Rule) : List Text :=
  (if rule.action ∈ Action.specials then [rule.action.keyword] else []) ++
    rule.right.elim [] rightWords

def line (rule : Rule) : Text :=
  if rule.action = .accept then "accept " ++ rule.target.describe
  else "replace " ++ rule.target.describe ++ " = " ++ Text.joined " " rule.words

end Rule

namespace Grammar

variable {xml : Bool} {t : Text}

/-! ### Characters in `U+` form -/

def unicodeNumeral (n : Int) : Numeral := ⟨.hexadecimal, CharNumber.fourDigits n⟩

theorem value_unicodeNumeral (n : Nat) : (unicodeNumeral n).value = n :=
  CharNumber.valueOf_fourDigits n

theorem isShort_unicodeNumeral (n : Int) : (unicodeNumeral n).IsShort :=
  Numeral.isShort_hexadecimal _

theorem writtenNumber_unicode (n : Nat) :
    WrittenNumber (CharNumber.unicode n) (unicodeNumeral n) := by
  refine .unicode (.inl rfl) ?_ (CharNumber.isHexDigit_fourDigits n)
  rw [CharNumber.fourDigits_natCast]
  exact CharNumber.padded_ne_nil (CharNumber.digits_ne_nil _ _)

def unicodeItem (c : CodePoint) : Item := .number (unicodeNumeral c.number)

theorem writtenRow_unicode (hne : t ≠ []) :
    WrittenRow (Text.joined " " (t.numbers.map CharNumber.unicode)) (t.map unicodeItem) := by
  induction t with
  | nil => exact absurd rfl hne
  | cons c t ih =>
    have hfirst : WrittenItem (CharNumber.unicode c.number) (unicodeItem c) :=
      .number (writtenNumber_unicode c.val)
    by_cases ht : t = []
    · subst ht
      simpa [Text.numbers] using WrittenRow.single hfirst
    · rw [Text.numbers, List.map_cons, List.map_cons, Text.joined_cons _ _ (by simpa using ht)]
      exact .cons hfirst blanks_space (by decide) (ih ht)

theorem denotes_unicode (hscalar : t.IsScalar) : Denotes xml (t.map unicodeItem) t [] := by
  induction t with
  | nil => exact .nil
  | cons c t ih =>
    exact .number (value_unicodeNumeral c.val) (hscalar c List.mem_cons_self)
      (ih fun d hd => hscalar d (List.mem_cons_of_mem _ hd))

theorem shortNumbers_unicode (t : Text) : ShortNumbers (t.map unicodeItem) := by
  intro numeral hmem
  obtain ⟨c, -, hc⟩ := List.mem_map.1 hmem
  cases hc
  exact isShort_unicodeNumeral _

/-! ### The two sides -/

theorem exists_left (xml : Bool) {target : Target} (h : target.WellFormed) :
    ∃ left, WrittenLeft target.describe left ∧ left.Denotes xml target [] ∧ left.IsShort := by
  cases target with
  | range low high =>
    obtain ⟨hlow, hordered, hhigh⟩ := h
    obtain ⟨low, rfl⟩ := Int.eq_ofNat_of_zero_le hlow
    obtain ⟨high, rfl⟩ := Int.eq_ofNat_of_zero_le (Int.le_trans hlow hordered)
    have hdescribe : (Target.range low high).describe =
        CharNumber.unicode low ++
          ([] ++ (Text.ofString ".." ++ ([] ++ CharNumber.unicode high))) := by
      simp [Target.describe, Target.isRange, Target.numbers, Text.joined_cons]
    have hdenotes : Left.Denotes xml (.range (unicodeNumeral low) (unicodeNumeral high))
        (.range (unicodeNumeral low).value (unicodeNumeral high).value) [] := by
      apply Left.Denotes.range <;> simp only [value_unicodeNumeral] <;> omega
    rw [value_unicodeNumeral, value_unicodeNumeral] at hdenotes
    refine ⟨_, ?_, hdenotes, isShort_unicodeNumeral _, isShort_unicodeNumeral _⟩
    rw [hdescribe]
    exact .range (writtenNumber_unicode low) blanks_nil (.inl rfl) blanks_nil
      (writtenNumber_unicode high)
  | sequence numbers =>
    obtain ⟨hne, hscalars⟩ := h
    obtain ⟨t, rfl, hscalar⟩ := Text.exists_numbers hscalars
    have ht : t ≠ [] := by
      rintro rfl
      exact hne rfl
    exact ⟨.row (t.map unicodeItem), .row (writtenRow_unicode ht),
      .row (denotes_unicode hscalar) ht, shortNumbers_unicode t⟩
  | brokenRange => exact h.elim

theorem exists_row (hscalar : t.IsScalar) :
    ∃ items, WrittenRow (Text.joined " " (Rule.rightWords t)) items ∧ Denotes xml items t [] ∧
      ShortNumbers items ∧ items ≠ [] := by
  unfold Rule.rightWords
  split
  · next ht =>
    subst ht
    have hdecode : Text.decode { xml } [] = .ok ⟨[], []⟩ := Decode.spells_nil.decode
    exact ⟨[.quoted []], .single (.quoted List.not_mem_nil), .quoted hdecode .nil,
      by simp [ShortNumbers], by simp⟩
  · next ht =>
    exact ⟨t.map unicodeItem, writtenRow_unicode ht, denotes_unicode hscalar,
      shortNumbers_unicode t, by simpa using ht⟩

theorem exists_right (xml : Bool) {rule : Rule} (h : rule.WellFormed)
    (haccept : rule.action ≠ .accept) :
    ∃ right, WrittenRight (" " ++ Text.joined " " rule.words) right ∧
      right.Denotes xml rule.action rule.right [] ∧ right.IsShort := by
  have hspecials : rule.action ∈ Action.specials ↔ rule.action ≠ .replace := by
    revert haccept
    cases rule.action <;> decide
  unfold Rule.words
  by_cases hreplace : rule.action = .replace
  · obtain ⟨text, htext⟩ := Option.ne_none_iff_exists'.1 (h.replace hreplace)
    obtain ⟨items, hw, hdenotes, hshort, -⟩ := exists_row (h.right text htext)
    rw [if_neg (fun hmem => hspecials.1 hmem hreplace), htext, hreplace]
    exact ⟨.row items, .row blanks_space hw, .row hdenotes, hshort⟩
  · have hknown := hspecials.2 hreplace
    rw [if_pos hknown]
    cases hright : rule.right with
    | none =>
      refine ⟨.special rule.action [], ?_, .special, by simp [Right.IsShort, ShortNumbers]⟩
      simpa using WrittenRight.special blanks_space hknown (Action.toLower_keyword rule.action)
    | some text =>
      obtain ⟨items, hw, hdenotes, hshort, hne⟩ := exists_row (h.right text hright)
      have hwords : Text.joined " " ([rule.action.keyword] ++ Rule.rightWords text) =
          rule.action.keyword ++ (" " ++ Text.joined " " (Rule.rightWords text)) :=
        Text.joined_cons _ _ (Rule.rightWords_ne_nil text)
      refine ⟨.special rule.action items, ?_, .specialRow hne hdenotes, hshort⟩
      rw [Option.elim_some, hwords]
      exact .specialRow blanks_space hknown (Action.toLower_keyword rule.action) blanks_space
        (by decide) hw

theorem exists_line (xml : Bool) {rule : Rule} (h : rule.WellFormed) :
    ∃ l, WrittenLine rule.line l ∧ l.Denotes xml rule [] ∧ l.IsShort := by
  obtain ⟨left, hleft, hdenotes, hshort⟩ := exists_left xml h.target
  have hend : WrittenEnd [] := .blank blanks_nil
  unfold Rule.line
  by_cases haccept : rule.action = .accept
  · obtain ⟨action, target, right⟩ := rule
    obtain rfl : action = .accept := haccept
    obtain rfl : right = none := h.accept rfl
    refine ⟨.accept left, ?_, .accept hdenotes, hshort⟩
    have hwritten := WrittenLine.accept (writtenVerb .accept) hleft hend
    rw [List.append_nil] at hwritten
    exact hwritten
  · obtain ⟨right, hright, hdenotes', hshort'⟩ := exists_right xml h haccept
    refine ⟨.replace left right, ?_, .replace hdenotes hdenotes', hshort, hshort'⟩
    have hwritten := WrittenLine.replace (writtenVerb .replace) hleft blanks_space hright hend
    rw [List.append_nil] at hwritten
    rw [if_neg haccept, List.append_assoc, List.append_assoc]
    exact hwritten

end Grammar

/-! ## The line is read as the rule -/

def CodePoint.isBare (c : CodePoint) : Bool := c ≠ '\n' && c ≠ '\\'

theorem CodePoint.isBare_of_isHexDigit {c : CodePoint} (h : c.isHexDigit) : c.isBare := by
  have hne : ∀ d : CodePoint, d.isHexDigit = false → c ≠ d := by
    rintro d hd rfl
    exact absurd h (by simp [hd])
  simp [isBare, hne '\n' (by decide), hne '\\' (by decide)]

theorem CharNumber.isBare_unicode (n : Int) : ∀ c ∈ unicode n, c.isBare := by
  intro c hc
  rcases mem_unicode hc with hc | hc
  · exact (by decide : ∀ c ∈ Text.ofString "U+-", c.isBare) c hc
  · exact CodePoint.isBare_of_isHexDigit hc

theorem Target.isBare_describe (target : Target) : ∀ c ∈ target.describe, c.isBare := by
  intro c hc
  rcases mem_describe hc with hc | hc
  · exact (by decide : ∀ c ∈ Text.ofString "U+- .", c.isBare) c hc
  · exact CodePoint.isBare_of_isHexDigit hc

theorem Rule.isBare_words (rule : Rule) : ∀ c ∈ Text.joined " " rule.words, c.isBare := by
  intro c hc
  rcases Text.mem_joined hc with hc | ⟨word, hword, hc⟩
  · exact (by decide : ∀ c ∈ Text.ofString " ", c.isBare) c hc
  · unfold words at hword
    rcases List.mem_append.1 hword with hword | hword
    · have hkeyword : ∀ action : Action, ∀ c ∈ action.keyword, c.isBare := by
        intro action
        cases action <;> decide
      split at hword
      · exact hkeyword _ c (List.mem_singleton.1 hword ▸ hc)
      · cases hword
    · cases hright : rule.right with
      | none => rw [hright] at hword; cases hword
      | some right =>
        rw [hright, Option.elim_some] at hword
        unfold rightWords at hword
        split at hword
        · rw [List.mem_singleton.1 hword] at hc
          exact (by decide : ∀ c ∈ Text.ofString "\"\"", c.isBare) c hc
        · obtain ⟨n, -, rfl⟩ := List.mem_map.1 hword
          exact CharNumber.isBare_unicode n c hc

theorem Rule.isBare_line (rule : Rule) : ∀ c ∈ rule.line, c.isBare := by
  unfold line
  split
  · refine List.forall_mem_append.2 ⟨by decide, rule.target.isBare_describe⟩
  · simp only [List.forall_mem_append]
    exact ⟨⟨⟨by decide, rule.target.isBare_describe⟩, by decide⟩, rule.isBare_words⟩

/-- The line of a well-formed rule is read as the rule, with nothing to be told, whatever notations
are on. The form of a target, which stands in it, is the form of no other target. -/
theorem read_line_of_rule (notations : Notations) :
    (∀ rule : Rule, rule.WellFormed →
      rule.target.describe? = .ok rule.target.describe ∧
        RuleLine.read notations rule.line = ⟨.ok rule, []⟩) ∧
    ∀ (a b : Target) (left : Text), a.describe? = .ok left → b.describe? = .ok left → a = b := by
  refine ⟨fun rule h => ⟨h.target.describe?_eq, ?_⟩, fun a b left => Target.describe_inj⟩
  obtain ⟨l, hwritten, hdenotes, hshort⟩ := Grammar.exists_line notations.xml h
  have hbare := rule.isBare_line
  have hfeed : ('\n' : CodePoint) ∉ rule.line := fun hmem => absurd (hbare _ hmem) (by decide)
  have hbackslash : Escape.backslash ∉ rule.line :=
    fun hmem => absurd (hbare _ hmem) (by decide)
  rw [RuleLine.read_backslash_free notations hbackslash]
  exact RuleLine.read_written_of_isShort hfeed hshort hwritten hdenotes

/-- A special action with a right side that holds a backslash, and a range of surrogates. -/
theorem read_line_of_rule_special :
    let rule : Rule := ⟨.unicode, .sequence [0x41, 0x1F600], some "\\é"⟩
    let line : Text := "replace U+0041 U+1F600 = uninum U+005C U+00E9"
    let range : Target := .ofBounds [0xD800, 0xDFFF]
    rule.WellFormed ∧ rule.line = line ∧
      rule.target.describe? = .ok rule.target.describe ∧
      RuleLine.read { backslash := true, xml := true } rule.line = ⟨.ok rule, []⟩ ∧
      range.describe? = .ok "U+D800..U+DFFF" ∧
      (Target.range 0xD800 0xDFFF).describe? = .ok "U+D800..U+DFFF" ∧
      range = .range 0xD800 0xDFFF := by
  intro rule line range
  have hrule : rule.WellFormed :=
    { target := ⟨by decide, by decide⟩
      right := by
        intro text htext
        obtain rfl := Option.some.inj htext
        decide
      accept := by simp [rule]
      replace := by simp [rule] }
  have hline : rule.line = line := by decide
  have hrange : range.describe? = .ok "U+D800..U+DFFF" := by decide
  have hrange' : (Target.range 0xD800 0xDFFF).describe? = .ok "U+D800..U+DFFF" := by decide
  obtain ⟨hread, hinj⟩ := read_line_of_rule { backslash := true, xml := true }
  exact ⟨hrule, hline, (hread rule hrule).1, (hread rule hrule).2, hrange, hrange',
    hinj range _ _ hrange hrange'⟩

end PlainForm

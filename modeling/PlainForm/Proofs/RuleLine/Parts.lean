import PlainForm.Proofs.RuleLine.Rows
import PlainForm.Proofs.ShortRuns

/-!
# Tokens are parts of the line

Whatever notations are decoded, a token function leaves an end of the text it was given, and what it
takes stands in that text.
-/

namespace PlainForm

open Grammar

def Token.Item.IsShort : Token.Item → Prop
  | .number numeral => numeral.IsShort
  | .quoted content => content.HasShortRuns

namespace Grammar

/-- The numbers among the items can be read. -/
def ShortNumbers (items : List Token.Item) : Prop :=
  ∀ numeral, .number numeral ∈ items → numeral.IsShort

def Left.IsShort : Left → Prop
  | .range low high => low.IsShort ∧ high.IsShort
  | .row items => ShortNumbers items

def Right.IsShort : Right → Prop
  | .row items | .special _ items => ShortNumbers items

def Line.IsShort : Line → Prop
  | .accept left | .delete left => left.IsShort
  | .replace left right => left.IsShort ∧ right.IsShort

end Grammar

namespace Token

variable {escapes spaced : Bool} {t rest start word written content : Text} {numeral : Numeral}
  {item : Item}

theorem suffix_of_eq {gap : Text} (h : t = gap ++ (written ++ rest)) : rest <:+ t :=
  ⟨gap ++ written, by rw [h, List.append_assoc]⟩

theorem infix_of_eq {gap : Text} (h : t = gap ++ (written ++ rest)) : written <:+: t :=
  ⟨gap, rest, by rw [h, List.append_assoc]⟩

theorem space?_suffix (h : space? t = some rest) : rest <:+ t := by
  obtain ⟨gap, rfl, -⟩ := space?_eq_some.1 h
  exact List.suffix_append gap rest

theorem keyword?_suffix (h : keyword? t = some (word, rest)) : rest <:+ t := by
  obtain ⟨gap, ht, -⟩ := keyword?_eq_some.1 h
  exact suffix_of_eq ht

theorem equals?_suffix (h : equals? t = some rest) : rest <:+ t := by
  obtain ⟨gap, ht, -⟩ := equals?_eq_some.1 h
  have htail : rest <:+ ('=' : CodePoint) :: rest := List.suffix_cons _ _
  rw [ht]
  exact htail.trans (List.suffix_append gap _)

/-! ## Numbers -/

theorem isShort_of_written (h : WrittenNumber written numeral) (hs : written.HasShortRuns) :
    numeral.IsShort := by
  intro hradix
  cases h with
  | decimal hne hall => exact hs _ List.infix_rfl hall
  | unicode => cases hradix
  | hexadecimal => cases hradix

theorem isShort_of_writtenRange {low high : Numeral} (h : WrittenLeft written (.range low high))
    (hs : written.HasShortRuns) : low.IsShort ∧ high.IsShort := by
  cases h with
  | @range before after gap gap' _ _ separator hlow _ _ _ hhigh =>
    have hbefore : before <:+: before ++ (gap ++ (separator ++ (gap' ++ after))) :=
      (List.prefix_append _ _).isInfix
    have hafter : after <:+: before ++ (gap ++ (separator ++ (gap' ++ after))) :=
      ⟨before ++ (gap ++ (separator ++ gap')), [], by simp⟩
    exact ⟨isShort_of_written hlow (hs.of_infix hbefore),
      isShort_of_written hhigh (hs.of_infix hafter)⟩

theorem range?_part {low high : Numeral} (h : range? t = some (low, high, rest)) :
    rest <:+ t ∧ (t.HasShortRuns → low.IsShort ∧ high.IsShort) := by
  obtain ⟨gap, written, ht, -, hw⟩ := range?_sound h
  exact ⟨suffix_of_eq ht, fun hs => isShort_of_writtenRange hw (hs.of_infix (infix_of_eq ht))⟩

/-! ## Quoted strings -/

/-- Also a quotation mark behind a backslash can end the content. -/
theorem closeEscaped?_split (h : closeEscaped? t = some (content, rest)) :
    t = content ++ ('"' : CodePoint) :: rest := by
  fun_induction closeEscaped? t generalizing content rest with
  | case1 => cases h
  | case2 more =>
    cases h
    rfl
  | case3 => cases h
  | case4 more _ ih =>
    obtain ⟨⟨content', rest'⟩, hclose, h⟩ := Option.map_eq_some_iff.1 h
    cases h
    rw [ih hclose]
    rfl
  | case5 d more _ content' rest' hclose _ ih =>
    cases h
    rw [ih hclose]
    rfl
  | case6 more hclose =>
    cases h
    rfl
  | case7 => cases h
  | case8 c more _ _ ih =>
    obtain ⟨⟨content', rest'⟩, hclose, h⟩ := Option.map_eq_some_iff.1 h
    cases h
    rw [ih hclose]
    rfl

theorem closed_split
    (h : (if escapes then closeEscaped? t else close? t) = some (content, rest)) :
    t = content ++ ('"' : CodePoint) :: rest := by
  cases escapes with
  | true => exact closeEscaped?_split h
  | false => exact (close?_eq_some.1 h).1

/-! ## Items -/

def Item.IsPart (t : Text) : Item → Prop
  | .number numeral => ∃ written, written <:+: t ∧ WrittenNumber written numeral
  | .quoted content => content <:+: t

theorem Item.IsPart.mono {s : Text} (h : item.IsPart s) (hs : s <:+: t) : item.IsPart t := by
  cases item with
  | number numeral =>
    obtain ⟨written, hpart, hw⟩ := h
    exact ⟨written, hpart.trans hs, hw⟩
  | quoted content => exact List.IsInfix.trans h hs

theorem Item.IsPart.isShort (h : item.IsPart t) (hs : t.HasShortRuns) : item.IsShort := by
  cases item with
  | number numeral =>
    obtain ⟨written, hpart, hw⟩ := h
    exact isShort_of_written hw (hs.of_infix hpart)
  | quoted content => exact hs.of_infix h

theorem item?_part (h : item? escapes t = some (item, rest)) : rest <:+ t ∧ item.IsPart t := by
  cases firstItem h with
  | number _ hw => exact ⟨suffix_of_eq rfl, _, infix_of_eq rfl, hw⟩
  | @quoted gap after content _ _ hclose =>
    obtain rfl := closed_split hclose
    constructor
    · exact ⟨gap ++ (('"' : CodePoint) :: (content ++ [('"' : CodePoint)])), by simp⟩
    · exact ⟨gap ++ [('"' : CodePoint)], ('"' : CodePoint) :: rest, by simp⟩

theorem itemStart?_suffix (h : itemStart? spaced t = some start) : start <:+ t := by
  obtain ⟨gap, rfl, -, -⟩ := itemStart?_sound h
  exact List.suffix_append gap start

theorem items_part (escapes spaced : Bool) (t : Text) : (items escapes spaced t).2 <:+ t ∧
    ∀ item ∈ (items escapes spaced t).1, item.IsPart t := by
  fun_induction items escapes spaced t with
  | case1 spaced t hs => exact ⟨List.suffix_rfl, by simp⟩
  | case2 spaced t start hs hi => exact ⟨itemStart?_suffix hs, by simp⟩
  | case3 spaced t start hs item rest hi hlt more left hmore ih =>
    rw [hmore] at ih
    obtain ⟨hrest, hitem⟩ := item?_part hi
    have hsuffix : rest <:+ t := hrest.trans (itemStart?_suffix hs)
    refine ⟨ih.1.trans hsuffix, ?_⟩
    intro i hi
    rcases List.mem_cons.1 hi with rfl | hi
    · exact hitem.mono (itemStart?_suffix hs).isInfix
    · exact (ih.2 i hi).mono hsuffix.isInfix

end Token

/-! ## Lines -/

namespace Grammar

variable {written : Text} {items : List Token.Item}

theorem WrittenRow.shortNumbers (h : WrittenRow written items) (hs : written.HasShortRuns) :
    ShortNumbers items := by
  induction h with
  | single hfirst =>
    intro numeral hmem
    obtain rfl := List.mem_singleton.1 hmem
    cases hfirst with
    | number hnumber => exact Token.isShort_of_written hnumber hs
  | @cons written gap later item items hfirst _ _ _ ih =>
    intro numeral hmem
    rcases List.mem_cons.1 hmem with rfl | hmem
    · cases hfirst with
      | number hnumber =>
        exact Token.isShort_of_written hnumber (hs.of_infix (List.prefix_append _ _).isInfix)
    · have hlater : later <:+ written ++ (gap ++ later) := ⟨written ++ gap, by simp⟩
      exact ih (hs.of_infix hlater.isInfix) numeral hmem

theorem WrittenLeft.isShort {left : Left} (h : WrittenLeft written left)
    (hs : written.HasShortRuns) : left.IsShort := by
  cases left with
  | range low high => exact Token.isShort_of_writtenRange h hs
  | row items =>
    cases h with
    | row hw => exact hw.shortNumbers hs

theorem WrittenRight.isShort {right : Right} (h : WrittenRight written right)
    (hs : written.HasShortRuns) : right.IsShort := by
  cases h with
  | row _ hw => exact hw.shortNumbers (hs.of_infix (List.suffix_append _ _).isInfix)
  | special => exact fun _ hmem => absurd hmem List.not_mem_nil
  | @specialRow gap word gap' row _ _ _ _ _ _ _ hw =>
    have hrow : row <:+ gap ++ (word ++ (gap' ++ row)) := ⟨gap ++ (word ++ gap'), by simp⟩
    exact hw.shortNumbers (hs.of_infix hrow.isInfix)

theorem WrittenLine.isShort {line : Line} (h : WrittenLine written line)
    (hs : written.HasShortRuns) : line.IsShort := by
  cases h with
  | @accept verb left last _ _ hl _ | @delete verb left last _ _ hl _ =>
    exact hl.isShort (hs.of_infix ⟨verb, last, by simp⟩)
  | @replace verb left gap right last _ _ _ hl _ hr _ =>
    exact ⟨hl.isShort (hs.of_infix ⟨verb, gap ++ ('=' : CodePoint) :: (right ++ last), by simp⟩),
      hr.isShort (hs.of_infix ⟨verb ++ (left ++ (gap ++ [('=' : CodePoint)])), last, by simp⟩)⟩

end Grammar

end PlainForm

import PlainForm.Proofs.RuleLine.Accepts
import PlainForm.Proofs.RuleLine.ClosingMark

/-!
# A comment behind a rule

A comment may follow every rule, and it does not change how the rule is read. The one exception
comes with backslash notation: a string whose closing quotation mark is behind a backslash is read
on to a quotation mark in the comment.
-/

namespace PlainForm

open Text (StopsRun stopsRun_cons)

def Text.withComment (t comment : Text) : Text :=
  t ++ (' ' : CodePoint) :: ('#' : CodePoint) :: comment

/-! ## Strings that are closed -/

namespace Token

/-- The quoted strings of the text, up to its comment, are closed by lone quotation marks. -/
inductive StringsClosed : Text → Prop where
  | nil : StringsClosed []
  | comment {text : Text} : StringsClosed (('#' : CodePoint) :: text)
  | char {c : CodePoint} {rest} (unquoted : c ≠ '"') (later : StringsClosed rest) :
      StringsClosed (c :: rest)
  | string {content rest left : Text} (closed : closeEscaped? rest = some (content, left))
      (lone : loneMark ∈ strides rest) (later : StringsClosed left) :
      StringsClosed (('"' : CodePoint) :: rest)

variable {gap t rest after content : Text}

theorem stringsClosed_append (hgap : ∀ c ∈ gap, isOutside c) :
    StringsClosed (gap ++ t) ↔ StringsClosed t := by
  induction gap with
  | nil => exact Iff.rfl
  | cons c gap ih =>
    obtain ⟨hc, hgap⟩ := List.forall_mem_cons.1 hgap
    rw [List.cons_append, ← ih hgap]
    constructor
    · intro h
      cases h with
      | comment => exact absurd hc (by decide)
      | char _ later => exact later
      | string => exact absurd hc (by decide)
    · refine .char ?_
      rintro rfl
      exact absurd hc (by decide)

theorem StringsClosed.of_string (h : StringsClosed (('"' : CodePoint) :: after))
    (hclose : closeEscaped? after = some (content, rest)) :
    loneMark ∈ strides after ∧ StringsClosed rest := by
  cases h with
  | char unquoted _ => exact absurd rfl unquoted
  | string closed lone later =>
    rw [hclose] at closed
    cases closed
    exact ⟨lone, later⟩

end Token

theorem Grammar.WrittenVerb.isOutside {written : Text} {verb : RuleLine.Verb}
    (h : WrittenVerb written verb) : ∀ c ∈ written, Token.isOutside c := by
  cases h with
  | @intro gap word gap' _ hgap hword hgap' _ =>
    have hword' := (RuleLine.isWord_of_toLower hword (RuleLine.isWord_verb verb)).all
    simp only [List.forall_mem_append]
    exact ⟨hgap.isOutside, fun c hc => Token.isOutside_of_continues (hword' c hc),
      hgap'.isOutside⟩

/-! ## More text behind a token -/

namespace Text

variable {t t' rest comment : Text} {c : CodePoint}

theorem withComment_append (gap t comment : Text) :
    Text.withComment (gap ++ t) comment = gap ++ t.withComment comment := List.append_assoc _ _ _

theorem StopsRun.withComment {inClass : CodePoint → Bool} (h : StopsRun inClass t)
    (hspace : inClass ' ' = false) (comment : Text) :
    StopsRun inClass (t.withComment comment) := by
  cases t with
  | nil => exact stopsRun_cons.2 (by simp [hspace])
  | cons c t => exact stopsRun_cons.2 (stopsRun_cons.1 h)

theorem skipBlanks_withComment_nil (h : t.skipBlanks = []) (comment : Text) :
    (t.withComment comment).skipBlanks = ('#' : CodePoint) :: comment := by
  unfold Text.skipBlanks at h
  simp only [withComment, Text.skipBlanks, List.dropWhile_append, h]
  rfl

theorem skipBlanks_withComment_cons (h : t.skipBlanks = c :: rest) (comment : Text) :
    (t.withComment comment).skipBlanks = c :: rest.withComment comment := by
  unfold Text.skipBlanks at h
  simp only [withComment, Text.skipBlanks, List.dropWhile_append, h]
  rfl

theorem skipBlanks_withComment (h : t.skipBlanks = t'.skipBlanks) (comment : Text) :
    (t.withComment comment).skipBlanks = (t'.withComment comment).skipBlanks := by
  cases ht : t.skipBlanks with
  | nil => rw [skipBlanks_withComment_nil ht, skipBlanks_withComment_nil (h ▸ ht)]
  | cons c rest => rw [skipBlanks_withComment_cons ht, skipBlanks_withComment_cons (h ▸ ht)]

end Text

namespace Grammar

variable {gap t comment : Text}

theorem endsRow_of_skipBlanks (h : ∀ c ∈ t.skipBlanks.head?, c = '=' ∨ c = '#') : EndsRow t := by
  obtain ⟨gap, ht, hblanks, -⟩ := exists_blanks t
  exact ⟨gap, _, ht, hblanks, h⟩

theorem EndsRow.prepend (h : EndsRow t) (hblanks : Blanks gap) : EndsRow (gap ++ t) := by
  obtain ⟨gap', tail, rfl, hblanks', htail⟩ := h
  exact ⟨gap ++ gap', tail, (List.append_assoc _ _ _).symm, hblanks.append hblanks', htail⟩

theorem EndsRow.withComment (h : EndsRow t) (comment : Text) : EndsRow (t.withComment comment) := by
  refine endsRow_of_skipBlanks ?_
  have hhead := h.skipBlanks
  cases ht : t.skipBlanks with
  | nil => simp [Text.skipBlanks_withComment_nil ht]
  | cons c rest =>
    rw [ht] at hhead
    rw [Text.skipBlanks_withComment_cons ht]
    exact hhead

end Grammar

namespace Token

open Grammar

variable {t comment : Text}

theorem endsRow_of_endsHere (h : endsHere t) : EndsRow t := by
  refine endsRow_of_skipBlanks fun c hc => ?_
  obtain ⟨rest, hrest⟩ := List.head?_eq_some_iff.1 hc
  simp only [endsHere, hrest, Bool.and_eq_true, decide_eq_true_eq] at h
  exact .inr h.1

theorem endsHere_withComment (h : endsHere t) (hcomment : ('\n' : CodePoint) ∉ comment) :
    endsHere (t.withComment comment) := by
  have hall : ∀ c ∈ comment, c ≠ ('\n' : CodePoint) := fun c hc he => hcomment (he ▸ hc)
  unfold endsHere at h ⊢
  cases ht : t.skipBlanks with
  | nil =>
    rw [Text.skipBlanks_withComment_nil ht]
    simpa using hall
  | cons c rest =>
    rw [ht] at h
    simp only [Bool.and_eq_true, decide_eq_true_eq, List.all_eq_true] at h
    rw [Text.skipBlanks_withComment_cons ht]
    simp only [Text.withComment, Bool.and_eq_true, decide_eq_true_eq, List.all_eq_true,
      List.forall_mem_append, List.forall_mem_cons]
    exact ⟨h.1, h.2, by decide, by decide, hall⟩

/-! ## Tokens in front of a comment -/

variable {gap rest after word content start left : Text} {low high : Numeral} {item : Item}
  {row : List Item} {escapes spaced : Bool}

theorem space?_withComment (h : space? t = some rest) (hne : rest ≠ []) (comment : Text) :
    space? (t.withComment comment) = some (rest.withComment comment) := by
  obtain ⟨gap, rfl, hgap, hblanks, hstop⟩ := space?_eq_some.1 h
  obtain ⟨c, more, rfl⟩ := List.exists_cons_of_ne_nil hne
  rw [Text.withComment_append]
  exact space?_eq_some.2 ⟨gap, rfl, hgap, hblanks, stopsRun_cons.2 (stopsRun_cons.1 hstop)⟩

theorem keyword?_withComment (h : keyword? t = some (word, rest)) (comment : Text) :
    keyword? (t.withComment comment) = some (word, rest.withComment comment) := by
  obtain ⟨gap, rfl, hblanks, hword, hstop⟩ := keyword?_eq_some.1 h
  rw [Text.withComment_append, Text.withComment_append]
  exact keyword?_eq_some.2 ⟨gap, rfl, hblanks, hword, hstop.withComment (by decide) comment⟩

theorem equals?_withComment (h : equals? t = some rest) (comment : Text) :
    equals? (t.withComment comment) = some (rest.withComment comment) := by
  obtain ⟨gap, rfl, hblanks⟩ := equals?_eq_some.1 h
  rw [Text.withComment_append]
  exact equals?_eq_some.2 ⟨gap, rfl, hblanks⟩

theorem range?_withComment (h : range? t = some (low, high, rest))
    (hstop : StopsRun continues rest) (comment : Text) :
    range? (t.withComment comment) = some (low, high, rest.withComment comment) := by
  obtain ⟨gap, written, rfl, hblanks, hw⟩ := range?_sound h
  rw [Text.withComment_append, Text.withComment_append]
  exact range?_written hblanks hw (hstop.withComment (by decide) comment)

/-! ## Items -/

/-- Quotation marks in the comment do not matter for the strings of the text. -/
def IsApart (escapes : Bool) (t comment : Text) : Prop :=
  escapes → ('"' : CodePoint) ∈ comment → StringsClosed t

theorem IsApart.of_append (h : IsApart escapes (gap ++ t) comment)
    (hgap : ∀ c ∈ gap, isOutside c) : IsApart escapes t comment :=
  fun hescapes hmark => (stringsClosed_append hgap).1 (h hescapes hmark)

theorem closed_withComment
    (h : (if escapes then closeEscaped? after else close? after) = some (content, rest))
    (hapart : IsApart escapes (('"' : CodePoint) :: after) comment) :
    (if escapes then closeEscaped? (after.withComment comment)
      else close? (after.withComment comment)) = some (content, rest.withComment comment) ∧
      IsApart escapes rest comment := by
  cases escapes with
  | false =>
    obtain ⟨rfl, hinner⟩ := close?_eq_some.1 h
    refine ⟨close?_eq_some.2 ⟨?_, hinner⟩, fun hescapes => absurd hescapes Bool.false_ne_true⟩
    rw [Text.withComment_append]
    rfl
  | true =>
    refine ⟨(closeEscaped?_append_iff h).2 ?_, fun _ hmark => ((hapart rfl hmark).of_string h).2⟩
    by_cases hmark : ('"' : CodePoint) ∈ comment
    · exact .inl ((hapart rfl hmark).of_string h).1
    · refine .inr ?_
      simp only [List.mem_cons, not_or]
      exact ⟨by decide, by decide, hmark⟩

theorem item?_withComment (h : item? escapes t = some (item, rest))
    (hstop : StopsRun continues rest) (hapart : IsApart escapes t comment) :
    item? escapes (t.withComment comment) = some (item, rest.withComment comment) ∧
      IsApart escapes rest comment := by
  cases firstItem h with
  | @number gap written _ _ hblanks hw =>
    rw [Text.withComment_append, Text.withComment_append, item?,
      number?_written hblanks hw (hstop.withComment (by decide) comment)]
    exact ⟨rfl, (hapart.of_append hblanks.isOutside).of_append hw.isOutside⟩
  | @quoted gap after content _ hblanks hclose =>
    obtain ⟨hclosed, hrest⟩ := closed_withComment hclose (hapart.of_append hblanks.isOutside)
    rw [Text.withComment_append]
    exact ⟨item?_quoted hblanks hclosed, hrest⟩

/-! ## Rows -/

theorem stopsRun_of_items (h : items escapes true t = (row, left)) (hend : EndsRow left) :
    StopsRun continues t := by
  rw [items_eq] at h
  cases hs : itemStart? true t with
  | none =>
    rw [hs] at h
    cases h
    exact hend.stopsRun
  | some start =>
    obtain ⟨gap, rfl, hblanks, hne⟩ := itemStart?_sound hs
    exact hblanks.stopsRun (hne rfl) start

theorem blanks_of_items (h : items escapes true t = ([], left)) :
    ∃ gap, t = gap ++ left ∧ Blanks gap := by
  rw [items_eq] at h
  cases hs : itemStart? true t with
  | none =>
    rw [hs] at h
    cases h
    exact ⟨[], rfl, blanks_nil⟩
  | some start =>
    obtain ⟨gap, ht, hblanks, -⟩ := itemStart?_sound hs
    cases hi : item? escapes start with
    | none =>
      simp only [hs, hi] at h
      cases h
      exact ⟨gap, ht, hblanks⟩
    | some found =>
      simp only [hs, hi] at h
      cases h

theorem items_end_withComment (escapes : Bool) (hblanks : Blanks gap) (hend : EndsRow left)
    (comment : Text) : ∃ left', items escapes true ((gap ++ left).withComment comment) =
      ([], left') ∧ left'.skipBlanks = (left.withComment comment).skipBlanks := by
  have hskip : Text.skipBlanks (gap ++ left) = left.skipBlanks :=
    List.dropWhile_append_of_pos hblanks
  refine ⟨_, items_eq_nil ((hend.prepend hblanks).withComment comment), ?_⟩
  rw [skipBlanks_skipBlanks, Text.skipBlanks_withComment hskip]

theorem itemStart?_withComment (h : itemStart? spaced t = some start) (hne : start ≠ [])
    (comment : Text) :
    itemStart? spaced (t.withComment comment) = some (start.withComment comment) := by
  cases spaced with
  | false =>
    obtain rfl := Option.some.inj h
    rfl
  | true => exact space?_withComment h hne comment

/-- A row is read alike in front of a comment. What is left behind it may begin with other
blanks. -/
theorem items_withComment (h : items escapes spaced t = (row, left)) (hrow : spaced ∨ row ≠ [])
    (hend : EndsRow left) (hapart : IsApart escapes t comment) :
    IsApart escapes left comment ∧ ∃ left', items escapes spaced (t.withComment comment) =
      (row, left') ∧ left'.skipBlanks = (left.withComment comment).skipBlanks := by
  fun_induction items escapes spaced t generalizing row left with
  | case1 spaced t hs =>
    cases h
    obtain rfl : spaced = true := by simpa using hrow
    exact ⟨hapart, items_end_withComment escapes blanks_nil hend comment⟩
  | case2 spaced t start hs hi =>
    cases h
    obtain rfl : spaced = true := by simpa using hrow
    obtain ⟨gap, rfl, hblanks, -⟩ := itemStart?_sound hs
    exact ⟨hapart.of_append hblanks.isOutside, items_end_withComment escapes hblanks hend comment⟩
  | case3 spaced t start hs item rest hi hlt more last hmore ih =>
    cases h
    have hne : start ≠ [] := by
      rintro rfl
      cases hi
    have hstart : IsApart escapes start comment := by
      obtain ⟨gap, rfl, hblanks, -⟩ := itemStart?_sound hs
      exact hapart.of_append hblanks.isOutside
    obtain ⟨hi', hrest⟩ := item?_withComment hi (stopsRun_of_items hmore hend) hstart
    obtain ⟨hleft, left', hitems, hskip⟩ := ih hmore (.inl rfl) hend hrest
    refine ⟨hleft, left', ?_, hskip⟩
    rw [items_cons (itemStart?_withComment hs hne comment) hi', hitems]

/-! ## Rows are still no ranges and no words -/

theorem FirstItem.exists_cons (h : FirstItem escapes t item rest) :
    ∃ gap c more, t = gap ++ c :: more ∧ Blanks gap ∧ startsItem c := by
  cases h with
  | number hblanks hw =>
    obtain ⟨c, more, rfl, hc⟩ := written_number_cons hw
    exact ⟨_, c, _, rfl, hblanks, hc⟩
  | quoted hblanks _ => exact ⟨_, '"', _, rfl, hblanks, by decide⟩

theorem exists_firstItem (h : items escapes spaced t = (row, left)) (hne : row ≠ []) :
    ∃ start item rest more, itemStart? spaced t = some start ∧
      FirstItem escapes start item rest ∧ items escapes true rest = (more, left) := by
  rw [items_eq] at h
  cases hs : itemStart? spaced t with
  | none =>
    rw [hs] at h
    cases h
    exact absurd rfl hne
  | some start =>
    cases hi : item? escapes start with
    | none =>
      simp only [hs, hi] at h
      cases h
      exact absurd rfl hne
    | some found =>
      simp only [hs, hi] at h
      cases h
      exact ⟨start, _, _, _, rfl, firstItem hi, rfl⟩

theorem separator?_of_items (h : items escapes true t = (row, left)) (hend : EndsRow left)
    (comment : Text) : separator? (t.withComment comment) = none := by
  by_cases hrow : row = []
  · subst hrow
    obtain ⟨gap, rfl, hblanks⟩ := blanks_of_items h
    exact separator?_endsRow ((hend.prepend hblanks).withComment comment)
  · obtain ⟨start, item, rest, more, hs, hfirst, -⟩ := exists_firstItem h hrow
    obtain ⟨gap, rfl, hblanks, -⟩ := itemStart?_sound hs
    obtain ⟨gap', c, t, rfl, hblanks', hc⟩ := hfirst.exists_cons
    rw [← List.append_assoc, Text.withComment_append]
    exact separator?_eq_none (hblanks.append hblanks') hc

theorem range?_of_items (h : items escapes false t = (row, left)) (hne : row ≠ [])
    (hend : EndsRow left) (comment : Text) : range? (t.withComment comment) = none := by
  obtain ⟨start, item, rest, more, hs, hfirst, hmore⟩ := exists_firstItem h hne
  obtain rfl := Option.some.inj hs
  have hstop := (stopsRun_of_items hmore hend).withComment (by decide) comment
  cases hfirst with
  | number hblanks hw =>
    rw [Text.withComment_append, Text.withComment_append]
    exact range?_number hw hblanks hstop (separator?_of_items hmore hend comment)
  | quoted hblanks _ =>
    rw [Text.withComment_append]
    exact range?_quoted hblanks

theorem keyword?_of_items (h : items escapes false t = (row, left)) (hne : row ≠ [])
    (comment : Text) : keyword? (t.withComment comment) = none := by
  obtain ⟨start, item, rest, more, hs, hfirst, -⟩ := exists_firstItem h hne
  obtain rfl := Option.some.inj hs
  cases hfirst with
  | number hblanks hw =>
    rw [Text.withComment_append, Text.withComment_append]
    exact keyword?_item (.number hw) hblanks
  | quoted hblanks _ =>
    rw [Text.withComment_append]
    exact keyword?_quoted hblanks _

end Token

/-! ## Sides in front of a comment -/

namespace RuleLine

open Grammar Reading
open Token (IsApart)

variable {notations : Notations} {t t' rest comment word : Text} {ps : List Problem} {spaced : Bool}
  {target : Target} {effect : Effect}

theorem readRow_withComment {row : Row} (h : readRow notations spaced t = ⟨.ok row, ps⟩)
    (hrow : spaced ∨ row.itemCount ≠ 0) (hend : EndsRow row.rest)
    (hapart : IsApart notations.backslash t comment) :
    IsApart notations.backslash row.rest comment ∧ ∃ rest',
      readRow notations spaced (t.withComment comment) = ⟨.ok { row with rest := rest' }, ps⟩ ∧
        rest'.skipBlanks = (row.rest.withComment comment).skipBlanks := by
  obtain ⟨characters, before, after, hread, hpure, rfl⟩ := bind_eq_ok.1 h
  obtain ⟨rfl, rfl⟩ := pure_eq_ok.1 hpure
  have hitem := hrow.imp_right fun hne hnil => hne (List.length_eq_zero_iff.2 hnil)
  obtain ⟨hleft, rest', hitems, hskip⟩ := Token.items_withComment rfl hitem hend hapart
  refine ⟨hleft, rest', ?_, hskip⟩
  unfold readRow
  rw [hitems]
  exact bind_eq_ok.2 ⟨characters, before, [], hread, rfl, rfl⟩

theorem exists_items {row : Row} (h : readRow notations spaced t = ⟨.ok row, ps⟩)
    (hcount : row.itemCount ≠ 0) :
    ∃ items, Token.items notations.backslash spaced t = (items, row.rest) ∧ items ≠ [] := by
  obtain ⟨characters, before, after, hread, hpure, rfl⟩ := bind_eq_ok.1 h
  obtain ⟨rfl, rfl⟩ := pure_eq_ok.1 hpure
  exact ⟨_, rfl, fun hnil => hcount (List.length_eq_zero_iff.2 hnil)⟩

theorem readLeft_withComment (h : readLeft notations t = ⟨.ok (target, rest), ps⟩)
    (hend : EndsRow rest) (hapart : IsApart notations.backslash t comment) :
    IsApart notations.backslash rest comment ∧ ∃ rest',
      readLeft notations (t.withComment comment) = ⟨.ok (target, rest'), ps⟩ ∧
        rest'.skipBlanks = (rest.withComment comment).skipBlanks := by
  rcases readLeft_eq_ok.1 h with ⟨low, high, hrange, hread⟩ |
    ⟨-, row, hrow, hcount, hne, rfl, rfl⟩
  · have hafter : IsApart notations.backslash rest comment := by
      obtain ⟨gap, written, rfl, hblanks, hw⟩ := Token.range?_sound hrange
      exact (hapart.of_append hblanks.isOutside).of_append hw.isOutside_range
    have hrange' := Token.range?_withComment hrange hend.stopsRun comment
    exact ⟨hafter, _, readLeft_eq_ok.2 (.inl ⟨low, high, hrange', hread⟩), rfl⟩
  · obtain ⟨hafter, rest', hread, hskip⟩ := readRow_withComment hrow (.inr hcount) hend hapart
    obtain ⟨items, hitems, hitem⟩ := exists_items hrow hcount
    have hrange := Token.range?_of_items hitems hitem hend comment
    exact ⟨hafter, rest',
      readLeft_eq_ok.2 (.inr ⟨hrange, _, hread, hcount, hne, rfl, rfl⟩), hskip⟩

theorem readReplacement_withComment (h : readReplacement notations t = ⟨.ok effect, ps⟩)
    (hend : EndsRow effect.rest) (hapart : IsApart notations.backslash t comment) :
    Token.keyword? (t.withComment comment) = none ∧ ∃ rest',
      readReplacement notations (t.withComment comment) = ⟨.ok { effect with rest := rest' }, ps⟩ ∧
        rest'.skipBlanks = (effect.rest.withComment comment).skipBlanks := by
  obtain ⟨row, hrow, hcount, rfl⟩ := readReplacement_eq_ok.1 h
  obtain ⟨items, hitems, hitem⟩ := exists_items hrow hcount
  obtain ⟨-, rest', hread, hskip⟩ := readRow_withComment hrow (.inr hcount) hend hapart
  exact ⟨Token.keyword?_of_items hitems hitem comment, rest',
    readReplacement_eq_ok.2 ⟨_, hread, hcount, rfl⟩, hskip⟩

theorem readSpecial_withComment (h : readSpecial notations word t = ⟨.ok effect, ps⟩)
    (hend : EndsRow effect.rest) (hapart : IsApart notations.backslash t comment) : ∃ rest',
      readSpecial notations word (t.withComment comment) =
        ⟨.ok { effect with rest := rest' }, ps⟩ ∧
        rest'.skipBlanks = (effect.rest.withComment comment).skipBlanks := by
  obtain ⟨action, row, hspecial, hrow, rfl⟩ := readSpecial_eq_ok.1 h
  obtain ⟨-, rest', hread, hskip⟩ := readRow_withComment hrow (.inl rfl) hend hapart
  exact ⟨rest', readSpecial_eq_ok.2 ⟨action, _, hspecial, hread, rfl⟩, hskip⟩

theorem readRight_withComment (h : readRight notations t = ⟨.ok effect, ps⟩)
    (hend : EndsRow effect.rest) (hapart : IsApart notations.backslash t comment)
    (hskip : t'.skipBlanks = (t.withComment comment).skipBlanks) : ∃ rest',
      readRight notations t' = ⟨.ok { effect with rest := rest' }, ps⟩ ∧
        rest'.skipBlanks = (effect.rest.withComment comment).skipBlanks := by
  obtain ⟨body, hbody, hread⟩ := readRight_eq_ok.1 h
  have hequals : Token.equals? t' = some (body.withComment comment) :=
    (equals?_congr hskip).trans (Token.equals?_withComment hbody comment)
  have hapart' : IsApart notations.backslash body comment := by
    obtain ⟨gap, rfl, hblanks⟩ := Token.equals?_eq_some.1 hbody
    have hsign : ∀ c ∈ [('=' : CodePoint)], Token.isOutside c := by decide
    have hrest := hapart.of_append hblanks.isOutside
    rw [← List.singleton_append] at hrest
    exact hrest.of_append hsign
  rcases hread with ⟨word, rest, hword, hspecial⟩ | ⟨-, hreplacement⟩
  · have hword' := Token.keyword?_withComment hword comment
    obtain ⟨gap, rfl, hblanks, hw, -⟩ := Token.keyword?_eq_some.1 hword
    have hafter := (hapart'.of_append hblanks.isOutside).of_append
      fun c hc => Token.isOutside_of_continues (hw.all c hc)
    obtain ⟨rest', hread, hskip'⟩ := readSpecial_withComment hspecial hend hafter
    exact ⟨rest', readRight_eq_ok.2 ⟨_, hequals, .inl ⟨word, _, hword', hread⟩⟩, hskip'⟩
  · obtain ⟨hkeyword, rest', hread, hskip'⟩ :=
      readReplacement_withComment hreplacement hend hapart'
    exact ⟨rest', readRight_eq_ok.2 ⟨_, hequals, .inr ⟨hkeyword, hread⟩⟩, hskip'⟩

theorem readEffect_withComment {verb : Verb} (h : readEffect notations verb t = ⟨.ok effect, ps⟩)
    (hend : EndsRow effect.rest) (hapart : IsApart notations.backslash t comment)
    (hskip : t'.skipBlanks = (t.withComment comment).skipBlanks) : ∃ rest',
      readEffect notations verb t' = ⟨.ok { effect with rest := rest' }, ps⟩ ∧
        rest'.skipBlanks = (effect.rest.withComment comment).skipBlanks := by
  cases verb with
  | replace => exact readRight_withComment h hend hapart hskip
  | accept | delete =>
    obtain ⟨rfl, rfl⟩ := pure_eq_ok.1 h
    exact ⟨t', rfl, hskip⟩

theorem readLeft_nil (notations : Notations) : readLeft notations [] = wrong .missingLeft := by
  unfold readLeft readRow
  rw [Token.items_eq]
  cases notations.backslash <;> rfl

theorem endsRow_of_readEffect {verb : Verb} (h : readEffect notations verb t = ⟨.ok effect, ps⟩)
    (hend : EndsRow effect.rest) : EndsRow t := by
  cases verb with
  | replace =>
    obtain ⟨body, hbody, -⟩ := readRight_eq_ok.1 h
    obtain ⟨gap, rfl, hblanks⟩ := Token.equals?_eq_some.1 hbody
    exact endsRow_equals hblanks body
  | accept | delete =>
    obtain ⟨rfl, rfl⟩ := pure_eq_ok.1 h
    exact hend

theorem readVerb_withComment {verb : Verb} (h : readVerb t = ⟨.ok (verb, rest), ps⟩)
    (hne : rest ≠ []) (comment : Text) :
    readVerb (t.withComment comment) = ⟨.ok (verb, rest.withComment comment), ps⟩ := by
  obtain ⟨rfl, written, rfl, hw, hstop⟩ := readVerb_eq_ok.1 h
  obtain ⟨c, more, rfl⟩ := List.exists_cons_of_ne_nil hne
  rw [Text.withComment_append]
  exact readVerb_eq_ok.2 ⟨rfl, written, rfl, hw, stopsRun_cons.2 (stopsRun_cons.1 hstop)⟩

end RuleLine

/-- A rule is read alike, and the same is told of it, with a comment behind it. With backslash
notation either the comment has no quotation marks, or the strings of the line are closed by lone
ones. -/
theorem read_withComment (notations : Notations) (line comment : Text) (rule : Rule)
    (problems : List Problem) (hcomment : ('\n' : CodePoint) ∉ comment)
    (hclosed : notations.backslash → ('"' : CodePoint) ∈ comment → Token.StringsClosed line)
    (hread : RuleLine.read notations line = ⟨.ok rule, problems⟩) :
    RuleLine.read notations (line.withComment comment) = ⟨.ok rule, problems⟩ := by
  obtain ⟨verb, t, target, rest, effect, before, after, hverb, hleft, heffect, hends, rfl, rfl⟩ :=
    RuleLine.read_eq_ok.1 hread
  have hend := Token.endsRow_of_endsHere hends
  have hne : t ≠ [] := by
    rintro rfl
    exact absurd (RuleLine.readLeft_nil notations ▸ hleft) Reading.wrong_ne_ok
  have hapart : Token.IsApart notations.backslash t comment := by
    obtain ⟨-, written, rfl, hw, -⟩ := RuleLine.readVerb_eq_ok.1 hverb
    exact Token.IsApart.of_append hclosed hw.isOutside
  obtain ⟨hapart', rest', hleft', hskip⟩ := RuleLine.readLeft_withComment hleft
    (RuleLine.endsRow_of_readEffect heffect hend) hapart
  obtain ⟨last, heffect', hskip'⟩ := RuleLine.readEffect_withComment heffect hend hapart' hskip
  refine RuleLine.read_eq_ok.2 ⟨verb, _, target, rest', _, before, after,
    RuleLine.readVerb_withComment hverb hne comment, hleft', heffect', ?_, rfl, rfl⟩
  rw [RuleLine.endsHere_congr hskip']
  exact Token.endsHere_withComment hends hcomment

/-- The closing quotation mark is behind an escaped backslash, and the comment holds one behind a
backslash. -/
theorem read_withComment_escaped_backslash :
    let line : Text := "delete \"\\\\\""
    let comment : Text := " also \"/\" and \\\""
    let rule : Rule := ⟨.replace, .sequence [0x5C], some []⟩
    ('\n' : CodePoint) ∉ comment ∧ Token.StringsClosed line ∧
      RuleLine.read { backslash := true } line = ⟨.ok rule, []⟩ ∧
      RuleLine.read { backslash := true } (line.withComment comment) = ⟨.ok rule, []⟩ := by
  intro line comment rule
  have hcomment : ('\n' : CodePoint) ∉ comment := by decide
  have hclose : Token.closeEscaped? ("\\\\\"" : Text) = some (("\\\\" : Text), []) := by
    decide +kernel
  have hstring : Token.StringsClosed ('"' :: ("\\\\\"" : Text)) :=
    .string hclose (by decide) .nil
  have hverb : ∀ c ∈ ("delete " : Text), Token.isOutside c := by decide
  have hclosed : Token.StringsClosed line := (Token.stringsClosed_append hverb).2 hstring
  have hread : RuleLine.read { backslash := true } line = ⟨.ok rule, []⟩ := by decide +kernel
  exact ⟨hcomment, hclosed, hread,
    read_withComment _ line comment rule [] hcomment (fun _ _ => hclosed) hread⟩

/-- The only quotation mark that can close the string is behind a backslash, and the rule is another
one with a comment that holds a quotation mark. -/
theorem read_withComment_closing_in_comment :
    let line : Text := "delete \"a\\\""
    let comment : Text := "\""
    let rule : Rule := ⟨.replace, .sequence [0x61, 0x5C], some []⟩
    let told := [Problem.unknownEscape "\\"]
    ('\n' : CodePoint) ∉ line ∧ ('\n' : CodePoint) ∉ comment ∧
      RuleLine.read { backslash := true } line = ⟨.ok rule, told⟩ ∧
      RuleLine.read { backslash := true } (line.withComment comment) =
        ⟨.ok ⟨.replace, .sequence [0x61, 0x22, 0x20, 0x23], some []⟩, []⟩ := by
  intro line comment rule told
  refine ⟨by decide, by decide, ?_, ?_⟩
  · decide +kernel
  · decide +kernel

end PlainForm

import PlainForm.Proofs.RuleLine.Parts

/-!
# The closing quotation mark

With backslash notation a quoted string can be read in many ways, since a backslash may take the
next character with it or stand alone. The ways are tried in a fixed order, and the first one that
works is taken. It is found in one scan: a lone quotation mark ends the string, and if there is
none, then the last quotation mark of the line does.
-/

namespace PlainForm

open Grammar

namespace Token

variable {t s rest content : Text} {c d : CodePoint}

/-! ## The ways to read a quoted string -/

/-- The ways to read content and a closing quotation mark, in the order in which they are tried. A
backslash first takes the next character with it, unless that is a line feed. Then it stands alone,
as other characters do. The content ends at a quotation mark. -/
def contentWays : Text → List (Text × Text)
  | [] => []
  | c :: rest =>
    let pair := match rest with
      | [] => []
      | d :: more =>
        if c = '\\' ∧ d ≠ '\n' then
          (contentWays more).map fun (content, r) => (c :: d :: content, r)
        else []
    let alone :=
      if c ≠ '"' then (contentWays rest).map fun (content, r) => (c :: content, r) else []
    let closing := if c = '"' then [([], rest)] else []
    pair ++ alone ++ closing

/-- The ways to read a quoted string behind blanks, as many of which as possible are taken first. -/
def quotedWays : Text → List (Text × Text)
  | [] => []
  | c :: rest =>
    (if c.isBlank then quotedWays rest else []) ++ if c = '"' then contentWays rest else []

/-! ## The scan -/

/-- The units of the scan: a backslash with the next character, unless that is a line feed, and each
other character alone. -/
def strides : Text → List Text
  | [] => []
  | [c] => [[c]]
  | c :: d :: rest =>
    if c = '\\' ∧ d ≠ '\n' then [c, d] :: strides rest else [c] :: strides (d :: rest)

def loneMark : Text := [('"' : CodePoint)]

/-- A quotation mark at the index, with nothing but blanks in front of it from the position on. -/
structure OpensAt (text : Text) (position index : Nat) : Prop where
  le : position ≤ index
  blanks : ∀ i c, position ≤ i → i < index → text[i]? = some c → c.isBlank
  here : text[index]? = some ('"' : CodePoint)

/-- Where the string is closed that a quotation mark at `opening` begins. -/
inductive ClosesAt (text : Text) (opening : Nat) : Nat → Prop where
  | lone {before after} (split : strides (text.drop (opening + 1)) = before ++ loneMark :: after)
      (first : loneMark ∉ before) : ClosesAt text opening (opening + 1 + before.flatten.length)
  | last {index} (no_lone : loneMark ∉ strides (text.drop (opening + 1)))
      (behind : opening < index) (here : text[index]? = some ('"' : CodePoint))
      (last : ∀ later, index < later → text[later]? ≠ some ('"' : CodePoint)) :
      ClosesAt text opening index

/-! ## Step by step -/

/-- The character makes no pair with what follows it. -/
def StandsAlone (c : CodePoint) (rest : Text) : Prop :=
  c = '\\' → ∀ d ∈ rest.head?, d = ('\n' : CodePoint)

theorem standsAlone_of_ne (h : c ≠ '\\') (rest : Text) : StandsAlone c rest :=
  fun hc => absurd hc h

theorem standsAlone_mark : StandsAlone '"' rest := standsAlone_of_ne (by decide) rest

theorem closeEscaped?_mark (rest : Text) :
    closeEscaped? (('"' : CodePoint) :: rest) = some ([], rest) := by
  rw [closeEscaped?.eq_def]
  rfl

theorem closeEscaped?_alone (hc : c ≠ '"') (h : StandsAlone c rest) :
    closeEscaped? (c :: rest) = (closeEscaped? rest).map fun (content, r) => (c :: content, r) := by
  rw [closeEscaped?.eq_def]
  simp only [hc, if_false]
  split
  · next hb =>
    cases rest with
    | nil => rfl
    | cons d more =>
      obtain rfl := h hb d rfl
      rfl
  · rfl

theorem closeEscaped?_pair (hd : d ≠ '\n') (more : Text) :
    closeEscaped? (('\\' : CodePoint) :: d :: more) =
      ((closeEscaped? more).map fun (content, r) => (('\\' : CodePoint) :: d :: content, r)).or
        (if d = '"' then some ([('\\' : CodePoint)], more) else none) := by
  have hmark : ('\\' : CodePoint) ≠ '"' := by decide
  rw [closeEscaped?.eq_def]
  simp only [hmark, hd, if_false, if_true]
  cases closeEscaped? more <;> rfl

theorem strides_alone (h : StandsAlone c rest) : strides (c :: rest) = [c] :: strides rest := by
  cases rest with
  | nil => rfl
  | cons d more =>
    rw [strides, if_neg]
    rintro ⟨hc, hd⟩
    exact hd (h hc d rfl)

theorem strides_pair (hd : d ≠ '\n') (more : Text) :
    strides (('\\' : CodePoint) :: d :: more) = [('\\' : CodePoint), d] :: strides more := by
  rw [strides, if_pos ⟨rfl, hd⟩]

theorem lone_mem_mark (rest : Text) : loneMark ∈ strides (('"' : CodePoint) :: rest) := by
  rw [strides_alone standsAlone_mark]
  exact List.mem_cons_self

theorem lone_mem_alone (hc : c ≠ '"') (h : StandsAlone c rest) :
    loneMark ∈ strides (c :: rest) ↔ loneMark ∈ strides rest := by
  rw [strides_alone h, List.mem_cons]
  simp [loneMark, Ne.symm hc]

theorem lone_mem_pair (hd : d ≠ '\n') (more : Text) :
    loneMark ∈ strides (('\\' : CodePoint) :: d :: more) ↔ loneMark ∈ strides more := by
  rw [strides_pair hd, List.mem_cons]
  simp [loneMark]

theorem contentWays_mark (rest : Text) :
    contentWays (('"' : CodePoint) :: rest) = [([], rest)] := by
  have hb : ('"' : CodePoint) ≠ '\\' := by decide
  cases rest <;> simp [contentWays, hb]

theorem contentWays_alone (hc : c ≠ '"') (h : StandsAlone c rest) :
    contentWays (c :: rest) = (contentWays rest).map fun (content, r) => (c :: content, r) := by
  cases rest with
  | nil => simp [contentWays, hc]
  | cons d more =>
    have hpair : ¬ (c = '\\' ∧ d ≠ '\n') := fun hp => hp.2 (h hp.1 d rfl)
    rw [contentWays]
    simp [hc, hpair]

theorem contentWays_pair (hd : d ≠ '\n') (more : Text) :
    contentWays (('\\' : CodePoint) :: d :: more) =
      ((contentWays more).map fun (content, r) => (('\\' : CodePoint) :: d :: content, r)) ++
        (contentWays (d :: more)).map fun (content, r) => (('\\' : CodePoint) :: content, r) := by
  have hmark : ('\\' : CodePoint) ≠ '"' := by decide
  rw [contentWays]
  simp [hd, hmark]

/-- What a step of the search can meet: a quotation mark, a character that stands alone, or a
pair. -/
@[elab_as_elim]
theorem search_induction {motive : Text → Prop} (nil : motive [])
    (mark : ∀ rest, motive rest → motive (('"' : CodePoint) :: rest))
    (alone : ∀ c rest, c ≠ ('"' : CodePoint) → StandsAlone c rest → motive rest →
      motive (c :: rest))
    (pair : ∀ d more, d ≠ ('\n' : CodePoint) → motive (d :: more) → motive more →
      motive (('\\' : CodePoint) :: d :: more)) (t : Text) : motive t := by
  induction hlength : t.length using Nat.strong_induction_on generalizing t with
  | _ n ih =>
    subst hlength
    cases t with
    | nil => exact nil
    | cons c rest =>
      have hrest : motive rest := ih _ (by simp) rest rfl
      by_cases hc : c = '"'
      · exact hc ▸ mark rest hrest
      · by_cases h : StandsAlone c rest
        · exact alone c rest hc h hrest
        · simp only [StandsAlone, Classical.not_imp, not_forall] at h
          obtain ⟨rfl, d, hd, hfeed⟩ := h
          obtain ⟨more, rfl⟩ := List.head?_eq_some_iff.1 hd
          exact pair d more hfeed hrest (ih _ (by simp only [List.length_cons]; omega) more rfl)

/-! ## The first way -/

theorem closeEscaped?_eq_none : closeEscaped? t = none ↔ ('"' : CodePoint) ∉ t := by
  constructor
  · induction t using search_induction with
    | nil => simp
    | mark rest => simp [closeEscaped?_mark]
    | alone c rest hc h ih =>
      rw [closeEscaped?_alone hc h, Option.map_eq_none_iff, List.mem_cons, not_or]
      exact fun hnone => ⟨Ne.symm hc, ih hnone⟩
    | pair d more hd _ ih =>
      rw [closeEscaped?_pair hd]
      cases hmore : closeEscaped? more with
      | some found => simp
      | none =>
        simp only [Option.map_none, Option.none_or, ite_eq_right_iff, reduceCtorEq, imp_false,
          List.mem_cons, not_or]
        exact fun hmark => ⟨by decide, Ne.symm hmark, ih hmore⟩
  · intro hmark
    cases hclose : closeEscaped? t with
    | none => rfl
    | some found =>
      obtain ⟨content, rest⟩ := found
      exact absurd (closeEscaped?_split hclose ▸ by simp) hmark

theorem contentWays_eq_nil (h : ('"' : CodePoint) ∉ t) : contentWays t = [] := by
  induction t using search_induction with
  | nil => rfl
  | mark rest => exact absurd List.mem_cons_self h
  | alone c rest hc hs ih =>
    rw [List.mem_cons, not_or] at h
    rw [contentWays_alone hc hs, ih h.2, List.map_nil]
  | pair d more hd ih ih' =>
    rw [List.mem_cons, not_or] at h
    have hmore := h.2
    rw [List.mem_cons, not_or] at hmore
    rw [contentWays_pair hd, ih h.2, ih' hmore.2]
    rfl

theorem closeEscaped?_eq_head (t : Text) : closeEscaped? t = (contentWays t).head? := by
  induction t using search_induction with
  | nil => rfl
  | mark rest _ => rw [closeEscaped?_mark, contentWays_mark, List.head?_cons]
  | alone c rest hc hs ih =>
    rw [closeEscaped?_alone hc hs, contentWays_alone hc hs, List.head?_map, ih]
  | pair d more hd _ ih =>
    rw [closeEscaped?_pair hd, contentWays_pair hd, List.head?_append, List.head?_map,
      List.head?_map, ← ih]
    cases hmore : closeEscaped? more with
    | some found => rfl
    | none =>
      -- Nothing closes the content behind the pair, so that only its own mark is left.
      have hmark := closeEscaped?_eq_none.1 hmore
      by_cases hd' : d = '"'
      · subst hd'
        rw [contentWays_mark]
        rfl
      · have hways : contentWays (d :: more) = [] :=
          contentWays_eq_nil (by simp [hmark, Ne.symm hd'])
        rw [hways, if_neg hd']
        rfl

theorem quoted?_eq_head (t : Text) : quoted? true t = (quotedWays t).head? := by
  induction t with
  | nil => rfl
  | cons c rest ih =>
    have hblank : ('"' : CodePoint).isBlank = false := by decide
    rw [quotedWays]
    by_cases hc : c.isBlank
    · have hmark : c ≠ '"' := by
        rintro rfl
        rw [hblank] at hc
        cases hc
      have hskip : Text.skipBlanks (c :: rest) = Text.skipBlanks rest :=
        List.dropWhile_cons_of_pos hc
      rw [if_pos hc, if_neg hmark, List.append_nil, ← ih, quoted?, quoted?, hskip]
    · have hskip : Text.skipBlanks (c :: rest) = c :: rest := List.dropWhile_cons_of_neg hc
      rw [if_neg hc, List.nil_append, quoted?, hskip]
      dsimp only
      rw [if_pos rfl, closeEscaped?_eq_head]
      split <;> rfl

/-! ## Where the scan ends -/

theorem flatten_strides (t : Text) : (strides t).flatten = t := by
  induction t using search_induction with
  | nil => rfl
  | mark rest ih => rw [strides_alone standsAlone_mark, List.flatten_cons, ih]; rfl
  | alone c rest hc hs ih => rw [strides_alone hs, List.flatten_cons, ih]; rfl
  | pair d more hd _ ih => rw [strides_pair hd, List.flatten_cons, ih]; rfl

theorem closeEscaped?_of_lone {before after : List Text}
    (split : strides t = before ++ loneMark :: after) (first : loneMark ∉ before) :
    closeEscaped? t = some (before.flatten, after.flatten) := by
  induction t using search_induction generalizing before with
  | nil => simp [strides] at split
  | mark rest _ =>
    rw [strides_alone standsAlone_mark] at split
    cases before with
    | nil =>
      obtain ⟨-, rfl⟩ := List.cons.inj split
      rw [closeEscaped?_mark, flatten_strides]
      rfl
    | cons stride before =>
      exact absurd ((List.cons.inj split).1 ▸ List.mem_cons_self) first
  | alone c rest hc hs ih =>
    rw [strides_alone hs] at split
    cases before with
    | nil => exact absurd (List.cons.inj (List.cons.inj split).1).1 hc
    | cons stride before =>
      obtain ⟨rfl, hrest⟩ := List.cons.inj split
      rw [closeEscaped?_alone hc hs, ih hrest fun h => first (List.mem_cons_of_mem _ h)]
      rfl
  | pair d more hd _ ih =>
    rw [strides_pair hd] at split
    cases before with
    | nil => cases (List.cons.inj split).1
    | cons stride before =>
      obtain ⟨rfl, hrest⟩ := List.cons.inj split
      rw [closeEscaped?_pair hd, ih hrest fun h => first (List.mem_cons_of_mem _ h)]
      rfl

theorem mark_not_mem_of_no_lone (no_lone : loneMark ∉ strides t)
    (h : closeEscaped? t = some (content, rest)) : ('"' : CodePoint) ∉ rest := by
  induction t using search_induction generalizing content with
  | nil => cases h
  | mark more _ => exact absurd (lone_mem_mark more) no_lone
  | alone c _ hc hs ih =>
    rw [lone_mem_alone hc hs] at no_lone
    rw [closeEscaped?_alone hc hs, Option.map_eq_some_iff] at h
    obtain ⟨⟨content, rest'⟩, hclose, h⟩ := h
    cases h
    exact ih no_lone hclose
  | pair d more hd _ ih =>
    rw [lone_mem_pair hd] at no_lone
    rw [closeEscaped?_pair hd] at h
    cases hmore : closeEscaped? more with
    | some found =>
      rw [hmore] at h
      cases h
      exact ih no_lone hmore
    | none =>
      rw [hmore] at h
      simp only [Option.map_none, Option.none_or, Option.ite_none_right_eq_some, Option.some.injEq,
        Prod.mk.injEq] at h
      exact h.2.2 ▸ closeEscaped?_eq_none.1 hmore

/-! ## More text behind the string -/

theorem mark_mem_of_lone (h : loneMark ∈ strides t) : ('"' : CodePoint) ∈ t := by
  rw [← flatten_strides t]
  exact List.mem_flatten.2 ⟨loneMark, h, List.mem_singleton_self _⟩

theorem StandsAlone.append (h : StandsAlone c rest) (hne : rest ≠ []) (s : Text) :
    StandsAlone c (rest ++ s) := by
  obtain ⟨d, more, rfl⟩ := List.exists_cons_of_ne_nil hne
  exact h

/-- What follows a string does not matter exactly if a lone quotation mark closes it, or if there
are no more quotation marks. -/
theorem closeEscaped?_append_iff (h : closeEscaped? t = some (content, rest)) :
    closeEscaped? (t ++ s) = some (content, rest ++ s) ↔
      loneMark ∈ strides t ∨ ('"' : CodePoint) ∉ s := by
  induction t using search_induction generalizing content with
  | nil => cases h
  | mark more _ =>
    rw [closeEscaped?_mark] at h
    cases h
    exact iff_of_true (closeEscaped?_mark _) (.inl (lone_mem_mark _))
  | alone c t hc halone ih =>
    rw [closeEscaped?_alone hc halone] at h
    obtain ⟨⟨content, rest⟩, hclose, h⟩ := Option.map_eq_some_iff.1 h
    cases h
    have hne : t ≠ [] := by
      rintro rfl
      cases hclose
    rw [List.cons_append, closeEscaped?_alone hc (halone.append hne s), lone_mem_alone hc halone,
      ← ih hclose]
    cases closeEscaped? (t ++ s) <;> simp [Prod.ext_iff]
  | pair d more hd _ ih =>
    rw [closeEscaped?_pair hd] at h
    rw [List.cons_append, List.cons_append, closeEscaped?_pair hd, lone_mem_pair hd]
    cases hmore : closeEscaped? more with
    | some found =>
      rw [hmore] at h
      cases h
      rw [← ih hmore]
      cases closeEscaped? (more ++ s) <;> simp [Prod.ext_iff]
    | none =>
      rw [hmore] at h
      simp only [Option.map_none, Option.none_or, Option.ite_none_right_eq_some, Option.some.injEq,
        Prod.mk.injEq] at h
      obtain ⟨rfl, rfl, rfl⟩ := h
      -- The pair is where the content ends, so that no other mark may come behind it.
      have hmark := closeEscaped?_eq_none.1 hmore
      have hlone : loneMark ∉ strides more := fun hlone => hmark (mark_mem_of_lone hlone)
      have hbehind : ('"' : CodePoint) ∉ s ↔ closeEscaped? (more ++ s) = none := by
        rw [closeEscaped?_eq_none, List.mem_append, not_or]
        exact (and_iff_right hmark).symm
      rw [hbehind, or_iff_right hlone]
      cases closeEscaped? (more ++ s) <;> simp

/-! ## Where the string stands -/

section

variable {text : Text} {position opening index : Nat}

theorem eq_of_drop (h : text.drop (opening + 1) = content ++ ('"' : CodePoint) :: rest) :
    content = (text.take (opening + 1 + content.length)).drop (opening + 1) ∧
      rest = text.drop (opening + 1 + content.length + 1) := by
  constructor
  · rw [List.drop_take, Nat.add_sub_cancel_left, h, List.take_left]
  · rw [Nat.add_assoc (opening + 1), ← List.drop_drop, h, ← List.drop_drop, List.drop_left]
    rfl

theorem getElem?_of_drop (h : text.drop (opening + 1) = content ++ ('"' : CodePoint) :: rest) :
    text[opening + 1 + content.length]? = some ('"' : CodePoint) := by
  rw [← List.getElem?_drop, h, List.getElem?_append_right (Nat.le_refl _), Nat.sub_self]
  rfl

theorem ClosesAt.close (h : ClosesAt text opening index) :
    closeEscaped? (text.drop (opening + 1)) =
      some ((text.take index).drop (opening + 1), text.drop (index + 1)) := by
  cases h with
  | @lone before after split first =>
    have hflat := congrArg List.flatten split
    rw [flatten_strides, List.flatten_append, List.flatten_cons, loneMark,
      List.singleton_append] at hflat
    obtain ⟨hcontent, hrest⟩ := eq_of_drop hflat
    rw [closeEscaped?_of_lone split first, ← hcontent, ← hrest]
  | last no_lone behind here last =>
    have hmem : ('"' : CodePoint) ∈ text.drop (opening + 1) := by
      refine List.mem_of_getElem? (i := index - (opening + 1)) ?_
      rw [List.getElem?_drop, Nat.add_sub_cancel' behind, here]
    cases hclose : closeEscaped? (text.drop (opening + 1)) with
    | none => exact absurd hmem (closeEscaped?_eq_none.1 hclose)
    | some found =>
      obtain ⟨content, rest⟩ := found
      have hsplit := closeEscaped?_split hclose
      obtain ⟨hcontent, hrest⟩ := eq_of_drop hsplit
      have hindex : index = opening + 1 + content.length := by
        rcases Nat.lt_trichotomy index (opening + 1 + content.length) with hlt | heq | hgt
        · exact absurd (getElem?_of_drop hsplit) (last _ hlt)
        · exact heq
        · refine absurd (List.mem_of_getElem? (i := index - (opening + 1 + content.length + 1)) ?_)
            (mark_not_mem_of_no_lone no_lone hclose)
          rw [hrest, List.getElem?_drop, Nat.add_sub_cancel' hgt, here]
      rw [hindex, ← hcontent, ← hrest]

theorem exists_closesAt (h : closeEscaped? (text.drop (opening + 1)) = some (content, rest)) :
    ∃ index, ClosesAt text opening index := by
  by_cases hlone : loneMark ∈ strides (text.drop (opening + 1))
  · obtain ⟨before, after, split, first⟩ := List.eq_append_cons_of_mem hlone
    exact ⟨_, .lone split first⟩
  · have hsplit := closeEscaped?_split h
    have hmark := mark_not_mem_of_no_lone hlone h
    refine ⟨_, .last hlone (by omega) (getElem?_of_drop hsplit) fun later hlater hlast => ?_⟩
    refine hmark (List.mem_of_getElem? (i := later - (opening + 1 + content.length + 1)) ?_)
    rw [(eq_of_drop hsplit).2, List.getElem?_drop, Nat.add_sub_cancel' hlater, hlast]

theorem opensAt_iff : OpensAt text position opening ↔ ∃ gap, Blanks gap ∧
    text.drop position = gap ++ ('"' : CodePoint) :: text.drop (opening + 1) ∧
      opening = position + gap.length := by
  constructor
  · rintro ⟨hle, hblanks, here⟩
    obtain ⟨hlt, hmark⟩ := List.getElem?_eq_some_iff.1 here
    have hdrop : text.drop opening = ('"' : CodePoint) :: text.drop (opening + 1) := by
      rw [List.drop_eq_getElem_cons hlt, hmark]
    refine ⟨(text.take opening).drop position, ?_, ?_, ?_⟩
    · intro c hc
      obtain ⟨i, hi⟩ := List.mem_iff_getElem?.1 hc
      rw [List.getElem?_drop, List.getElem?_take, Option.ite_none_right_eq_some] at hi
      exact hblanks _ c (Nat.le_add_right position i) hi.1 hi.2
    · have hsplit := congrArg (List.drop position) (List.take_append_drop opening text)
      rw [List.drop_append_of_le_length (by rw [List.length_take]; omega)] at hsplit
      rw [← hsplit, hdrop]
    · rw [List.length_drop, List.length_take]
      omega
  · rintro ⟨gap, hblanks, hdrop, rfl⟩
    have hget : ∀ i, text[position + i]? =
        (gap ++ ('"' : CodePoint) :: text.drop (position + gap.length + 1))[i]? := by
      intro i
      rw [← hdrop, List.getElem?_drop]
    refine ⟨Nat.le_add_right _ _, fun i c hle hlt hi => ?_, ?_⟩
    · obtain ⟨k, rfl⟩ := Nat.exists_eq_add_of_le hle
      rw [hget, List.getElem?_append_left (by omega)] at hi
      exact hblanks c (List.mem_of_getElem? hi)
    · rw [hget, List.getElem?_append_right (Nat.le_refl _), Nat.sub_self]
      rfl

end

end Token

/-- With backslash notation, of all ways to read a quoted string at a position of a line the first
is taken. The string begins behind blanks, and what it reads up to is the first lone quotation mark
of the scan or, if there is none, the last quotation mark of the line. -/
theorem quoted_string_is_first_way (text : Text) (position : Nat) :
    Token.quoted? true (text.drop position) = (Token.quotedWays (text.drop position)).head? ∧
      ∀ content rest, Token.quoted? true (text.drop position) = some (content, rest) ↔
        ∃ opening closing, Token.OpensAt text position opening ∧
          Token.ClosesAt text opening closing ∧
          content = (text.take closing).drop (opening + 1) ∧ rest = text.drop (closing + 1) := by
  refine ⟨Token.quoted?_eq_head _, fun content rest => ?_⟩
  rw [Token.quoted?_eq_some]
  simp only [if_true]
  constructor
  · rintro ⟨gap, after, hdrop, hblanks, hclose⟩
    have hafter : after = text.drop (position + gap.length + 1) := by
      rw [Nat.add_assoc, ← List.drop_drop, hdrop, ← List.drop_drop, List.drop_left]
      rfl
    subst hafter
    obtain ⟨closing, hcloses⟩ := Token.exists_closesAt hclose
    rw [hcloses.close, Option.some.injEq, Prod.mk.injEq] at hclose
    exact ⟨_, closing, Token.opensAt_iff.2 ⟨gap, hblanks, hdrop, rfl⟩, hcloses, hclose.1.symm,
      hclose.2.symm⟩
  · rintro ⟨opening, closing, hopens, hcloses, rfl, rfl⟩
    obtain ⟨gap, hblanks, hdrop, -⟩ := Token.opensAt_iff.1 hopens
    exact ⟨gap, _, hdrop, hblanks, hcloses.close⟩

/-- The only quotation mark is behind a backslash, so that the backslash is left in the content. -/
example : Token.quoted? true " \"a\\\" b" = some (("a\\" : Text), (" b" : Text)) := by
  decide +kernel

end PlainForm

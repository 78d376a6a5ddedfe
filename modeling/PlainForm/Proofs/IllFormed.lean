import Mathlib.Data.List.Forall2
import Mathlib.Order.Bounds.Defs
import PlainForm.Proofs.Codes
import PlainForm.Proofs.Utf8

/-!
# Reading any bytes as UTF-8

The first bytes and the ranges behind them describe the bytes of the scalar values and nothing else:
no overlong forms, no surrogates, nothing beyond U+10FFFF. So an ill-formed piece is as long as the
beginning of a well-formed sequence can be, and the first one stands where the longest well-formed
beginning of the bytes ends.
-/

namespace PlainForm.Utf8

variable {n value : Nat} {first : UInt8} {rest tail : List UInt8} {ranges : List ByteRange}

/-! ## Sequences -/

/-- Each byte is allowed at its place. -/
abbrev Fits (ranges : List ByteRange) (tail : List UInt8) : Prop :=
  List.Forall₂ (fun r b => r.has b = true) ranges tail

theorem byte_eq {b : UInt8} (h : n = b.toNat) : byte n = b := by
  rw [h]
  exact UInt8.ofNat_toNat

/-- The first bytes, by the number of bytes that follow them. The second byte keeps overlong forms,
surrogates and values beyond Unicode out. -/
theorem lead?_eq_some (h : lead? first = some (value, ranges)) :
    (first.toNat < 0x80 ∧ value = first.toNat ∧ ranges = []) ∨
    (0xC2 ≤ first.toNat ∧ first.toNat < 0xE0 ∧ value = first.toNat - 0xC0 ∧ ranges = [anyTail]) ∨
    (0xE0 ≤ first.toNat ∧ first.toNat < 0xF0 ∧ value = first.toNat - 0xE0 ∧
      ∃ r, ranges = [r, anyTail] ∧ r.low ≤ r.high ∧ 0x80 ≤ r.low ∧ r.high ≤ 0xBF ∧
        (first.toNat = 0xE0 → 0xA0 ≤ r.low) ∧ (first.toNat = 0xED → r.high ≤ 0x9F)) ∨
    (0xF0 ≤ first.toNat ∧ first.toNat < 0xF5 ∧ value = first.toNat - 0xF0 ∧
      ∃ r, ranges = [r, anyTail, anyTail] ∧ r.low ≤ r.high ∧ 0x80 ≤ r.low ∧ r.high ≤ 0xBF ∧
        (first.toNat = 0xF0 → 0x90 ≤ r.low) ∧ (first.toNat = 0xF4 → r.high ≤ 0x8F)) := by
  unfold lead? at h
  grind [anyTail]

theorem exists_encodeChar (hlead : lead? first = some (value, ranges)) (hfits : Fits ranges tail) :
    ∃ c : CodePoint, ¬ c.isSurrogate ∧ encodeChar c = first :: tail := by
  have hany : ∀ {b : UInt8}, anyTail.has b = true → 0x80 ≤ b.toNat ∧ b.toNat ≤ 0xBF := has_iff.1
  have hscalar : ∀ {n : Nat} (h : n ≤ 0x10FFFF), n < 0xD800 ∨ 0xDFFF < n →
      ¬ (CodePoint.mk n h).isSurrogate := fun _ hn => by
    rw [CodePoint.isSurrogate_iff]
    dsimp only
    omega
  rcases lead?_eq_some hlead with ⟨hfirst, -, rfl⟩ | ⟨hlow, hhigh, -, rfl⟩ |
    ⟨hlow, hhigh, -, r, rfl, hr⟩ | ⟨hlow, hhigh, -, r, rfl, hr⟩
  · cases hfits
    refine ⟨⟨first.toNat, by omega⟩, hscalar _ (by omega), ?_⟩
    unfold encodeChar
    dsimp only
    rw [if_pos hfirst, byte_eq rfl]
  · obtain ⟨b, _, hb, hnil, rfl⟩ := List.forall₂_cons_left_iff.1 hfits
    cases hnil
    have hb := hany hb
    refine ⟨⟨(first.toNat - 0xC0) * 0x40 + (b.toNat - 0x80), by omega⟩, hscalar _ (by omega), ?_⟩
    unfold encodeChar
    dsimp only
    rw [if_neg (by omega), if_pos (by omega)]
    simp only [List.cons.injEq, and_true]
    exact ⟨byte_eq (by omega), byte_eq (by omega)⟩
  · obtain ⟨b, _, hb, htail, rfl⟩ := List.forall₂_cons_left_iff.1 hfits
    obtain ⟨d, _, hd, hnil, rfl⟩ := List.forall₂_cons_left_iff.1 htail
    cases hnil
    have hb := has_iff.1 hb
    have hd := hany hd
    refine ⟨⟨((first.toNat - 0xE0) * 0x40 + (b.toNat - 0x80)) * 0x40 + (d.toNat - 0x80), by omega⟩,
      hscalar _ (by omega), ?_⟩
    unfold encodeChar
    dsimp only
    rw [if_neg (by omega), if_neg (by omega), if_pos (by omega)]
    simp only [List.cons.injEq, and_true]
    exact ⟨byte_eq (by omega), byte_eq (by omega), byte_eq (by omega)⟩
  · obtain ⟨b, _, hb, htail, rfl⟩ := List.forall₂_cons_left_iff.1 hfits
    obtain ⟨d, _, hd, hlast, rfl⟩ := List.forall₂_cons_left_iff.1 htail
    obtain ⟨e, _, he, hnil, rfl⟩ := List.forall₂_cons_left_iff.1 hlast
    cases hnil
    have hb := has_iff.1 hb
    have hd := hany hd
    have he := hany he
    refine ⟨⟨(((first.toNat - 0xF0) * 0x40 + (b.toNat - 0x80)) * 0x40 + (d.toNat - 0x80)) * 0x40 +
      (e.toNat - 0x80), by omega⟩, hscalar _ (by omega), ?_⟩
    unfold encodeChar
    dsimp only
    rw [if_neg (by omega), if_neg (by omega), if_neg (by omega)]
    simp only [List.cons.injEq, and_true]
    exact ⟨byte_eq (by omega), byte_eq (by omega), byte_eq (by omega), byte_eq (by omega)⟩

/-! ## Tails -/

theorem fits_of_readTail_eq_some (h : (readTail value ranges rest).1 = some n) :
    ∃ tail later, rest = tail ++ later ∧ Fits ranges tail ∧
      (readTail value ranges rest).2 = tail.length := by
  fun_induction readTail value ranges rest with
  | case1 value rest => exact ⟨[], rest, rfl, .nil, rfl⟩
  | case2 => cases h
  | case3 value r ranges b rest hb result taken heq ih =>
    rw [heq] at ih
    obtain ⟨tail, later, rfl, hfits, htaken⟩ := ih h
    exact ⟨b :: tail, later, rfl, .cons hb hfits, congrArg (· + 1) htaken⟩
  | case4 => cases h

theorem fits_of_readTail_eq_none (h : (readTail value ranges rest).1 = none) :
    ∃ before r after tail later, ranges = before ++ r :: after ∧ rest = tail ++ later ∧
      Fits before tail ∧ (readTail value ranges rest).2 = tail.length ∧
      ∀ b ∈ later.head?, ¬ r.has b := by
  fun_induction readTail value ranges rest with
  | case1 => cases h
  | case2 value r ranges => exact ⟨[], r, ranges, [], [], rfl, rfl, .nil, rfl, by simp⟩
  | case3 value r ranges b rest hb result taken heq ih =>
    rw [heq] at ih
    obtain ⟨before, s, after, tail, later, rfl, rfl, hfits, htaken, hnext⟩ := ih h
    exact ⟨r :: before, s, after, b :: tail, later, rfl, rfl, .cons hb hfits,
      congrArg (· + 1) htaken, hnext⟩
  | case4 value r ranges b rest hb =>
    exact ⟨[], r, ranges, [], b :: rest, rfl, rfl, .nil, rfl, by simpa using hb⟩

/-! ## Pieces -/

theorem readPiece_of_lead (h : lead? first = some (value, ranges)) : readPiece first rest =
    ⟨(readTail value ranges rest).1.bind CodePoint.ofNat?, (readTail value ranges rest).2 + 1⟩ := by
  simp [readPiece, h]

theorem readPiece_encodeChar {c : CodePoint} (hc : ¬ c.isSurrogate)
    (h : encodeChar c = first :: tail) (later : List UInt8) :
    readPiece first (tail ++ later) = ⟨some c, tail.length + 1⟩ := by
  obtain ⟨first', tail', hbytes, hpiece⟩ := exists_readPiece hc later
  obtain ⟨rfl, rfl⟩ := List.cons.inj (h.symm.trans hbytes)
  exact hpiece

theorem exists_lead {c : CodePoint} (hc : ¬ c.isSurrogate) (h : encodeChar c = first :: tail) :
    ∃ value ranges, lead? first = some (value, ranges) ∧ Fits ranges tail := by
  have hpiece := readPiece_encodeChar hc h []
  cases hlead : lead? first with
  | none => simp [readPiece, hlead] at hpiece
  | some lead =>
    obtain ⟨value, ranges⟩ := lead
    rw [readPiece_of_lead hlead, List.append_nil] at hpiece
    obtain ⟨hchar, hsize⟩ := Piece.mk.inj hpiece
    obtain ⟨n, hn, -⟩ := Option.bind_eq_some_iff.1 hchar
    obtain ⟨fitting, later, rfl, hfits, htaken⟩ := fits_of_readTail_eq_some hn
    have hlater : later.length = 0 := by
      rw [List.length_append] at hsize
      omega
    rw [List.eq_nil_of_length_eq_zero hlater, List.append_nil]
    exact ⟨value, ranges, rfl, hfits⟩

theorem fits_encodeChar {c : CodePoint} (hlead : lead? first = some (value, ranges))
    (hc : ¬ c.isSurrogate) (h : encodeChar c = first :: tail) : Fits ranges tail := by
  obtain ⟨value', ranges', hlead', hfits⟩ := exists_lead hc h
  obtain ⟨-, rfl⟩ := Prod.mk.inj (Option.some.inj (hlead.symm.trans hlead'))
  exact hfits

theorem readPiece_eq_some {c : CodePoint} (h : (readPiece first rest).char = some c) :
    ¬ c.isSurrogate ∧ ∃ later, first :: rest = encodeChar c ++ later ∧
      (readPiece first rest).size = (encodeChar c).length := by
  cases hlead : lead? first with
  | none => simp [readPiece, hlead] at h
  | some lead =>
    obtain ⟨value, ranges⟩ := lead
    have hchar := h
    rw [readPiece_of_lead hlead] at hchar
    obtain ⟨n, hn, -⟩ := Option.bind_eq_some_iff.1 hchar
    obtain ⟨tail, later, rfl, hfits, -⟩ := fits_of_readTail_eq_some hn
    obtain ⟨d, hd, hbytes⟩ := exists_encodeChar hlead hfits
    have hpiece := readPiece_encodeChar hd hbytes later
    rw [hpiece] at h ⊢
    obtain rfl : d = c := Option.some.inj h
    exact ⟨hd, later, by rw [hbytes]; rfl, by rw [hbytes]; rfl⟩

/-- The bytes of a scalar value begin with these bytes. -/
def Begins (part : List UInt8) : Prop := ∃ c : CodePoint, ¬ c.isSurrogate ∧ part <+: encodeChar c

/-- The part is one unreadable piece: no scalar value can be read, and the part is as long as the
beginning of one can be, or a single byte. -/
structure IsMaximalSubpart (part later : List UInt8) : Prop where
  unreadable : ∀ c : CodePoint, ¬ c.isSurrogate → ¬ encodeChar c <+: part ++ later
  begins : part.length = 1 ∨ part ≠ [] ∧ Begins part
  longest : ∀ other, other <+: part ++ later → Begins other → other.length ≤ part.length

theorem Begins.exists_tail (hlead : lead? first = some (value, ranges))
    (h : Begins (first :: tail)) : ∃ more, Fits ranges (tail ++ more) := by
  obtain ⟨c, hc, more, hbytes⟩ := h
  exact ⟨more, fits_encodeChar hlead hc hbytes.symm⟩

theorem exists_fits (h : lead? first = some (value, ranges)) {before after : List ByteRange}
    (hranges : ranges = before ++ after) : ∃ more, Fits after more := by
  have hlow : ∀ r ∈ ranges, r.low ≤ r.high ∧ r.low < 0x100 := by
    have hany : anyTail.low ≤ anyTail.high ∧ anyTail.low < 0x100 := by decide
    rcases lead?_eq_some h with ⟨-, -, rfl⟩ | ⟨-, -, -, rfl⟩ | ⟨-, -, -, r, rfl, hr⟩ |
      ⟨-, -, -, r, rfl, hr⟩
    · simp
    · simpa using hany
    · have hr : r.low ≤ r.high ∧ r.low < 0x100 := by omega
      simpa using ⟨hr, hany⟩
    · have hr : r.low ≤ r.high ∧ r.low < 0x100 := by omega
      simpa using ⟨hr, hany⟩
  refine ⟨after.map fun r => byte r.low, List.forall₂_map_right_iff.2 (List.forall₂_same.2 ?_)⟩
  intro r hr
  obtain ⟨hle, hlt⟩ := hlow r (hranges ▸ List.mem_append_right _ hr)
  rw [has_iff, toNat_byte hlt]
  exact ⟨Nat.le_refl _, hle⟩

section

variable {before after : List ByteRange} {r : ByteRange} {later other : List UInt8}

theorem Begins.length_le (hlead : lead? first = some (value, before ++ r :: after))
    (hfits : Fits before tail) (hnext : ∀ b ∈ later.head?, ¬ r.has b) (h : Begins other)
    (hother : other <+: first :: tail ++ later) : other.length ≤ tail.length + 1 := by
  cases other with
  | nil => exact Nat.zero_le _
  | cons b other =>
    obtain ⟨rfl, hfront⟩ := List.cons_prefix_cons.1 hother
    obtain ⟨more, hfits'⟩ := h.exists_tail hlead
    have hlength := hfits.length_eq
    by_contra hlt
    have hle : tail.length ≤ other.length := by
      rw [List.length_cons] at hlt
      omega
    obtain ⟨further, rfl⟩ :=
      List.prefix_of_prefix_length_le (List.prefix_append tail later) hfront hle
    cases further with
    | nil => simp at hlt
    | cons next further =>
      -- The byte behind the tail would have to be allowed at its place.
      have hdrop := List.forall₂_drop tail.length hfits'
      rw [← hlength, List.drop_left, hlength, List.append_assoc, List.drop_left] at hdrop
      cases hdrop with
      | cons hhas _ =>
        obtain ⟨others, rfl⟩ := (List.prefix_append_right_inj tail).1 hfront
        exact hnext next rfl hhas

theorem isMaximalSubpart_of_fits (hlead : lead? first = some (value, before ++ r :: after))
    (hfits : Fits before tail) (hnext : ∀ b ∈ later.head?, ¬ r.has b) :
    IsMaximalSubpart (first :: tail) later := by
  refine ⟨fun c hc hfront => ?_, .inr ⟨List.cons_ne_nil _ _, ?_⟩,
    fun other hfront hbegins => hbegins.length_le hlead hfits hnext hfront⟩
  · have hbegins : Begins (encodeChar c) := ⟨c, hc, List.prefix_rfl⟩
    have hle := hbegins.length_le hlead hfits hnext hfront
    obtain ⟨b, bytes, hbytes, -⟩ := exists_readPiece hc []
    rw [hbytes] at hle hfront
    obtain ⟨rfl, -⟩ := List.cons_prefix_cons.1 hfront
    -- All the ranges are filled by a character, so it is longer than the part.
    have hall := (fits_encodeChar hlead hc hbytes).length_eq
    have hlength := hfits.length_eq
    simp only [List.length_append, List.length_cons] at hall hle
    omega
  · obtain ⟨more, hmore⟩ := exists_fits hlead rfl
    obtain ⟨c, hc, hbytes⟩ := exists_encodeChar hlead (List.rel_append hfits hmore)
    exact ⟨c, hc, more, hbytes.symm⟩

end

theorem isMaximalSubpart_singleton (hlead : lead? first = none) :
    IsMaximalSubpart [first] rest := by
  have hnil : ∀ other, other <+: first :: rest → Begins other → other = [] := by
    rintro (_ | ⟨b, other⟩) hother ⟨c, hc, more, hbytes⟩
    · rfl
    · obtain ⟨rfl, -⟩ := List.cons_prefix_cons.1 hother
      obtain ⟨value, ranges, hlead', -⟩ := exists_lead hc hbytes.symm
      rw [hlead] at hlead'
      cases hlead'
  refine ⟨fun c hc hfront => ?_, .inl rfl, fun other hother hbegins => ?_⟩
  · obtain ⟨b, bytes, hbytes, -⟩ := exists_readPiece hc []
    have hempty := hnil _ hfront ⟨c, hc, List.prefix_rfl⟩
    rw [hbytes] at hempty
    cases hempty
  · simp [hnil other hother hbegins]

theorem readPiece_eq_none (h : (readPiece first rest).char = none) :
    ∃ part later, first :: rest = part ++ later ∧ (readPiece first rest).size = part.length ∧
      IsMaximalSubpart part later := by
  cases hlead : lead? first with
  | none => exact ⟨[first], rest, rfl, by simp [readPiece, hlead], isMaximalSubpart_singleton hlead⟩
  | some lead =>
    obtain ⟨value, ranges⟩ := lead
    rw [readPiece_of_lead hlead] at h ⊢
    cases htail : (readTail value ranges rest).1 with
    | none =>
      obtain ⟨before, r, after, tail, later, rfl, rfl, hfits, htaken, hnext⟩ :=
        fits_of_readTail_eq_none htail
      exact ⟨first :: tail, later, rfl, congrArg (· + 1) htaken,
        isMaximalSubpart_of_fits hlead hfits hnext⟩
    | some n =>
      -- A tail that fits makes a scalar value, so that there would be a character.
      obtain ⟨tail, later, rfl, hfits, -⟩ := fits_of_readTail_eq_some htail
      obtain ⟨c, hc, hbytes⟩ := exists_encodeChar hlead hfits
      have hpiece := readPiece_encodeChar hc hbytes later
      rw [readPiece_of_lead hlead] at hpiece
      rw [(Piece.mk.inj hpiece).1] at h
      cases h

/-! ## Reading -/

/-- The text of some bytes: a character where one can be read, and U+FFFD for each maximal subpart
of what cannot be read. -/
inductive Reads : List UInt8 → Text → Prop where
  | nil : Reads [] []
  | char {c rest t} (scalar : ¬ c.isSurrogate) (later : Reads rest t) :
      Reads (encodeChar c ++ rest) (c :: t)
  | unreadable {part rest t} (maximal : IsMaximalSubpart part rest) (later : Reads rest t) :
      Reads (part ++ rest) (.replacement :: t)

variable {part part' later later' bytes : List UInt8} {t : Text}

theorem IsMaximalSubpart.ne_nil (h : IsMaximalSubpart part later) : part ≠ [] := by
  rcases h.begins with hone | ⟨hne, -⟩
  · rintro rfl
    cases hone
  · exact hne

theorem IsMaximalSubpart.length_le (h : IsMaximalSubpart part later)
    (h' : IsMaximalSubpart part' later') (heq : part ++ later = part' ++ later') :
    part.length ≤ part'.length := by
  rcases h.begins with hone | ⟨-, hbegins⟩
  · rw [hone]
    exact List.length_pos_iff.2 h'.ne_nil
  · exact h'.longest part (heq ▸ List.prefix_append part later) hbegins

theorem IsMaximalSubpart.unique (h : IsMaximalSubpart part later)
    (h' : IsMaximalSubpart part' later') (heq : part ++ later = part' ++ later') :
    part = part' ∧ later = later' :=
  List.append_inj heq (Nat.le_antisymm (h.length_le h' heq) (h'.length_le h heq.symm))

theorem pieces_part (h : IsMaximalSubpart part later) :
    pieces (part ++ later) = ⟨none, part.length⟩ :: pieces later := by
  obtain ⟨first, tail, rfl⟩ := List.exists_cons_of_ne_nil h.ne_nil
  have hnone : (readPiece first (tail ++ later)).char = none := by
    by_contra hsome
    obtain ⟨c, hc⟩ := Option.ne_none_iff_exists'.1 hsome
    obtain ⟨hscalar, rest, hbytes, -⟩ := readPiece_eq_some hc
    exact h.unreadable c hscalar ⟨rest, hbytes.symm⟩
  obtain ⟨part, rest, heq, hsize, hpart⟩ := readPiece_eq_none hnone
  obtain ⟨rfl, rfl⟩ := h.unique hpart heq
  have hpiece : readPiece first (tail ++ later) = ⟨none, (first :: tail).length⟩ := by
    rw [← hnone, ← hsize]
  rw [List.cons_append, pieces, hpiece]
  simp

theorem reads_pieces (bytes : List UInt8) : Reads bytes (text (pieces bytes)) := by
  induction hlength : bytes.length using Nat.strongRecOn generalizing bytes with
  | _ length ih =>
    cases bytes with
    | nil =>
      rw [pieces]
      exact .nil
    | cons first rest =>
      have hpos := readPiece_size_pos first rest
      cases hchar : (readPiece first rest).char with
      | none =>
        obtain ⟨part, later, hbytes, hsize, hpart⟩ := readPiece_eq_none hchar
        rw [hbytes, List.length_append] at hlength
        rw [hbytes, pieces_part hpart]
        exact .unreadable hpart (ih later.length (by omega) later rfl)
      | some c =>
        obtain ⟨hscalar, later, hbytes, hsize⟩ := readPiece_eq_some hchar
        rw [hbytes, List.length_append] at hlength
        rw [hbytes, pieces_encodeChar hscalar]
        exact .char hscalar (ih later.length (by omega) later rfl)

theorem reads_iff : Reads bytes t ↔ t = text (pieces bytes) := by
  constructor
  · intro h
    induction h with
    | nil =>
      rw [pieces]
      rfl
    | char scalar _ ih =>
      rw [pieces_encodeChar scalar, ih]
      rfl
    | unreadable maximal _ ih =>
      rw [pieces_part maximal, ih]
      rfl
  · rintro rfl
    exact reads_pieces bytes

theorem Reads.isScalar (h : Reads bytes t) : t.IsScalar := by
  induction h with
  | nil => exact Text.isScalar_nil
  | char scalar _ ih => exact List.forall_mem_cons.2 ⟨scalar, ih⟩
  | unreadable _ _ ih => exact List.forall_mem_cons.2 ⟨by decide, ih⟩

/-! ## Well-formed bytes -/

def IsWellFormed (bytes : List UInt8) : Prop := ∃ t : Text, t.IsScalar ∧ encode t = bytes

theorem isCode_encodeChar : IsCode (fun c : CodePoint => ¬ c.isSurrogate) encodeChar := by
  intro c d hc hd x y h
  have hpieces := congrArg pieces h
  rw [pieces_encodeChar hc, pieces_encodeChar hd] at hpieces
  exact Option.some.inj (Piece.mk.inj (List.cons.inj hpieces).1).1

/-- The bytes are those of a text as far as it goes, and then there is an unreadable part. -/
structure BreaksOff (bytes : List UInt8) (t later : Text) : Prop where
  scalar : t.IsScalar
  breaks : ∃ part rest, IsMaximalSubpart part rest ∧ bytes = encode t ++ (part ++ rest)
  told : firstIllFormed? (pieces bytes) = some (encode t).length
  read : text (pieces bytes) = t ++ .replacement :: later

theorem Reads.wellFormed_or_breaksOff (h : Reads bytes t) :
    (encode t = bytes ∧ firstIllFormed? (pieces bytes) = none) ∨
      ∃ first later, BreaksOff bytes first later := by
  induction h with
  | nil =>
    rw [pieces]
    exact .inl ⟨rfl, rfl⟩
  | @char c rest t scalar later ih =>
    rcases ih with ⟨hbytes, htold⟩ | ⟨first, later, hbreaks⟩
    · refine .inl ⟨by rw [← hbytes]; rfl, ?_⟩
      rw [pieces_encodeChar scalar]
      simp [firstIllFormed?, htold]
    · refine .inr ⟨c :: first, later, List.forall_mem_cons.2 ⟨scalar, hbreaks.scalar⟩, ?_, ?_, ?_⟩
      · obtain ⟨part, others, hpart, rfl⟩ := hbreaks.breaks
        exact ⟨part, others, hpart, by simp [encode]⟩
      · rw [pieces_encodeChar scalar]
        simp [firstIllFormed?, hbreaks.told, encode]
      · rw [pieces_encodeChar scalar]
        exact congrArg (c :: ·) hbreaks.read
  | @unreadable part rest t maximal later ih =>
    refine .inr ⟨[], text (pieces rest), Text.isScalar_nil, ⟨part, rest, maximal, rfl⟩, ?_, ?_⟩
    · rw [pieces_part maximal]
      rfl
    · rw [pieces_part maximal]
      rfl

theorem BreaksOff.reaches {first later : Text} (h : BreaksOff bytes first later)
    (ht : t.IsScalar) (hfront : encode t <+: bytes) : t <+: first := by
  obtain ⟨part, rest, hpart, rfl⟩ := h.breaks
  obtain ⟨others, heq⟩ := hfront
  exact isCode_encodeChar.prefix_of_flatMap h.scalar ht
    (fun c hc => hpart.unreadable c (ht c hc)) heq.symm

theorem BreaksOff.not_isWellFormed {first later : Text} (h : BreaksOff bytes first later) :
    ¬ IsWellFormed bytes := by
  rintro ⟨t, ht, hbytes⟩
  have htold := h.told
  rw [← hbytes, firstIllFormed?_encode ht] at htold
  cases htold

theorem BreaksOff.isGreatest {first later : Text} (h : BreaksOff bytes first later) :
    encode first = bytes.take (encode first).length ∧
      IsGreatest {n | n ≤ bytes.length ∧ IsWellFormed (bytes.take n)} (encode first).length := by
  obtain ⟨part, rest, -, hbytes⟩ := h.breaks
  have htake : encode first = bytes.take (encode first).length := by
    rw [hbytes, List.take_left]
  refine ⟨htake, ⟨?_, first, h.scalar, htake⟩, ?_⟩
  · rw [hbytes, List.length_append]
    exact Nat.le_add_right _ _
  · rintro n ⟨hle, t, ht, hn⟩
    obtain ⟨others, rfl⟩ := h.reaches ht (hn ▸ List.take_prefix n bytes)
    have hlength := congrArg List.length hn
    rw [List.length_take, Nat.min_eq_left hle] at hlength
    rw [← hlength, encode, encode, List.flatMap_append, List.length_append]
    exact Nat.le_add_right _ _

end PlainForm.Utf8

namespace PlainForm

/-- All bytes can be read in one way, and what is read holds no surrogates. Nothing is told if they
are the bytes of some text, which then is what is read, with all line ends and byte order marks.
Otherwise the index is told at which the longest well-formed beginning ends, and behind the text of
that beginning stands U+FFFD. -/
theorem bytes_read_as_text (name : Text) (bytes : Bytes) :
    (∀ t, Utf8.Reads bytes t ↔ t = (File.text name bytes).value) ∧
    (File.text name bytes).value.IsScalar ∧
    ((File.text name bytes).problems = [] ↔ Utf8.IsWellFormed bytes) ∧
    (∀ t : Text, t.IsScalar → Utf8.encode t = bytes → File.text name bytes = ⟨t, []⟩) ∧
    (¬ Utf8.IsWellFormed bytes → ∃ n t later,
      IsGreatest {m | m ≤ bytes.length ∧ Utf8.IsWellFormed (bytes.take m)} n ∧
      t.IsScalar ∧ Utf8.encode t = bytes.take n ∧
      File.text name bytes = ⟨t ++ .replacement :: later, [.malformedUtf8 name n]⟩) := by
  have hreads := Utf8.reads_pieces bytes
  refine ⟨fun t => Utf8.reads_iff, hreads.isScalar, ?_, ?_, ?_⟩
  · rcases hreads.wellFormed_or_breaksOff with ⟨hbytes, htold⟩ | ⟨first, later, hbreaks⟩
    · exact iff_of_true (by simp [File.text, htold]) ⟨_, hreads.isScalar, hbytes⟩
    · exact iff_of_false (by simp [File.text, hbreaks.told]) hbreaks.not_isWellFormed
  · rintro t ht rfl
    exact File.text_encode ht name
  · intro hill
    rcases hreads.wellFormed_or_breaksOff with ⟨hbytes, -⟩ | ⟨first, later, hbreaks⟩
    · exact absurd ⟨_, hreads.isScalar, hbytes⟩ hill
    · obtain ⟨htake, hgreatest⟩ := hbreaks.isGreatest
      refine ⟨_, first, later, hgreatest, hbreaks.scalar, htake, ?_⟩
      simp [File.text, hbreaks.told, hbreaks.read]

/-- A byte order mark, a letter and a line end before a sequence that another letter cuts off, and
the three bytes of a surrogate. -/
theorem bytes_read_as_text_broken_sequences :
    let bytes : Bytes :=
      [0xEF, 0xBB, 0xBF, 0x61, 0x0D, 0x0A, 0xE2, 0x82, 0x41, 0xED, 0xA0, 0x80]
    let first : Text := .byteOrderMark :: ("a\r\n" : Text)
    let t : Text := first ++ .replacement ::
      ('A' : CodePoint) :: .replacement :: .replacement :: [.replacement]
    File.text "a.txt" bytes = ⟨t, [.malformedUtf8 "a.txt" 6]⟩ ∧ Utf8.Reads bytes t ∧
      ¬ Utf8.IsWellFormed bytes ∧
      IsGreatest {m | m ≤ bytes.length ∧ Utf8.IsWellFormed (bytes.take m)} 6 ∧
      File.text "a.txt" (Utf8.encode first) = ⟨first, []⟩ := by
  intro bytes first t
  have hread : File.text "a.txt" bytes = ⟨t, [.malformedUtf8 "a.txt" 6]⟩ := by decide +kernel
  obtain ⟨hreads, -, htold, -, hbreaks⟩ := bytes_read_as_text "a.txt" bytes
  obtain ⟨-, -, -, hencoded, -⟩ := bytes_read_as_text "a.txt" (Utf8.encode first)
  have hill : ¬ Utf8.IsWellFormed bytes := by
    rw [← htold, hread]
    exact List.cons_ne_nil _ _
  obtain ⟨n, _, _, hgreatest, -, -, hsame⟩ := hbreaks hill
  rw [hread] at hsame hreads
  obtain rfl : 6 = n := by simpa using congrArg Noted.problems hsame
  exact ⟨hread, (hreads t).2 rfl, hill, hgreatest, hencoded first (by decide) rfl⟩

end PlainForm

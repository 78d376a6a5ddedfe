import PlainForm.File
import PlainForm.Proofs.WellFormed

/-!
# Reading what was written in UTF-8

The bytes of a scalar value are one piece, whatever follows them. So a text without surrogates is
read back from its bytes, with nothing to be told.
-/

namespace PlainForm.Utf8

variable {n value : Nat} {first : UInt8} {rest : List UInt8} {ranges : List ByteRange}

/-! ## Single bytes -/

theorem toNat_byte (h : n < 0x100) : (byte n).toNat = n := UInt8.toNat_ofNat_of_lt h

theorem has_iff {r : ByteRange} {b : UInt8} : r.has b ↔ r.low ≤ b.toNat ∧ b.toNat ≤ r.high := by
  simp [ByteRange.has]

theorem has_tail (n : Nat) : anyTail.has (byte (0x80 + n % 0x40)) := by
  rw [has_iff, toNat_byte (by omega)]
  simp only [anyTail]
  omega

theorem readTail_nil : readTail value [] rest = (some value, 0) := by
  rw [readTail]

theorem readTail_cons {r : ByteRange} {b : UInt8} (h : r.has b) :
    readTail value (r :: ranges) (b :: rest) =
      ((readTail (value * 0x40 + (b.toNat - 0x80)) ranges rest).1,
        (readTail (value * 0x40 + (b.toNat - 0x80)) ranges rest).2 + 1) := by
  rw [readTail, if_pos h]

theorem readTail_byte {r : ByteRange} (h : r.has (byte (0x80 + n % 0x40))) :
    readTail (n / 0x40) (r :: ranges) (byte (0x80 + n % 0x40) :: rest) =
      ((readTail n ranges rest).1, (readTail n ranges rest).2 + 1) := by
  have hvalue : n / 0x40 * 0x40 + (0x80 + n % 0x40 - 0x80) = n := by omega
  rw [readTail_cons h, toNat_byte (by omega), hvalue]

/-! ## First bytes -/

theorem lead?_one (h : n < 0x80) : lead? (byte n) = some (n, []) := by
  unfold lead?
  rw [toNat_byte (by omega)]
  simp only [h, ↓reduceIte]

theorem lead?_two (hlow : 0x80 ≤ n) (hhigh : n < 0x800) :
    lead? (byte (0xC0 + n / 0x40)) = some (n / 0x40, [anyTail]) := by
  unfold lead?
  rw [toNat_byte (by omega)]
  grind

/-- Which second bytes may follow hangs on the first one; a scalar value has one of them. -/
theorem lead?_three (hlow : 0x800 ≤ n) (hhigh : n < 0x10000) (hscalar : n < 0xD800 ∨ 0xDFFF < n) :
    ∃ r, lead? (byte (0xE0 + n / 0x1000)) = some (n / 0x40 / 0x40, [r, anyTail]) ∧
      r.has (byte (0x80 + n / 0x40 % 0x40)) := by
  have hdiv : n / 0x40 / 0x40 = n / 0x1000 := Nat.div_div_eq_div_mul n 0x40 0x40
  unfold lead?
  simp only [has_iff, hdiv]
  rw [toNat_byte (by omega), toNat_byte (by omega)]
  by_cases hzero : n / 0x1000 = 0
  · refine ⟨⟨0xA0, 0xBF⟩, by simp [hzero], ?_⟩
    dsimp only
    omega
  by_cases hd : n / 0x1000 = 0xD
  · refine ⟨⟨0x80, 0x9F⟩, by simp [hd], ?_⟩
    dsimp only
    omega
  · refine ⟨anyTail, ?_, ?_⟩
    · grind
    · simp only [anyTail]
      omega

theorem lead?_four (hlow : 0x10000 ≤ n) (hhigh : n ≤ 0x10FFFF) :
    ∃ r, lead? (byte (0xF0 + n / 0x40000)) = some (n / 0x40 / 0x40 / 0x40, [r, anyTail, anyTail]) ∧
      r.has (byte (0x80 + n / 0x1000 % 0x40)) := by
  have hdiv : n / 0x40 / 0x40 / 0x40 = n / 0x40000 := by
    rw [Nat.div_div_eq_div_mul, Nat.div_div_eq_div_mul]
  unfold lead?
  simp only [has_iff, hdiv]
  rw [toNat_byte (by omega), toNat_byte (by omega)]
  by_cases hzero : n / 0x40000 = 0
  · refine ⟨⟨0x90, 0xBF⟩, by simp [hzero], ?_⟩
    dsimp only
    omega
  by_cases hlast : n / 0x40000 = 4
  · refine ⟨⟨0x80, 0x8F⟩, by simp [hlast], ?_⟩
    dsimp only
    omega
  · refine ⟨anyTail, ?_, ?_⟩
    · grind
    · simp only [anyTail]
      omega

/-! ## Pieces -/

theorem ofNat?_val (c : CodePoint) : CodePoint.ofNat? c.val = some c :=
  CodePoint.ofNat?_eq_some.2 rfl

theorem exists_readPiece {c : CodePoint} (hc : ¬ c.isSurrogate) (rest : List UInt8) :
    ∃ first tail, encodeChar c = first :: tail ∧
      readPiece first (tail ++ rest) = ⟨some c, tail.length + 1⟩ := by
  have hle := c.val_le
  rw [CodePoint.isSurrogate_iff] at hc
  unfold encodeChar readPiece
  dsimp only
  split
  · next h1 =>
    refine ⟨_, _, rfl, ?_⟩
    rw [lead?_one h1]
    simp [readTail_nil, ofNat?_val]
  split
  · next h2 =>
    refine ⟨_, _, rfl, ?_⟩
    rw [lead?_two (by omega) h2]
    simp [readTail_byte (has_tail c.val), readTail_nil, ofNat?_val]
  split
  · next h3 =>
    obtain ⟨r, hlead, hhas⟩ := lead?_three (by omega) h3 (by omega)
    refine ⟨_, _, rfl, ?_⟩
    rw [hlead]
    simp [readTail_byte hhas, readTail_byte (has_tail c.val), readTail_nil, ofNat?_val]
  · obtain ⟨r, hlead, hhas⟩ := lead?_four (by omega) hle
    have hdiv : c.val / 0x1000 = c.val / 0x40 / 0x40 := (Nat.div_div_eq_div_mul _ 0x40 0x40).symm
    refine ⟨_, _, rfl, ?_⟩
    rw [hdiv] at hhas ⊢
    rw [hlead]
    simp [readTail_byte hhas, readTail_byte (has_tail (c.val / 0x40)),
      readTail_byte (has_tail c.val), readTail_nil, ofNat?_val]

theorem pieces_encodeChar {c : CodePoint} (hc : ¬ c.isSurrogate) (rest : List UInt8) :
    pieces (encodeChar c ++ rest) = ⟨some c, (encodeChar c).length⟩ :: pieces rest := by
  obtain ⟨first, tail, hbytes, hpiece⟩ := exists_readPiece hc rest
  rw [hbytes, List.cons_append, pieces, hpiece]
  simp

theorem pieces_encode {t : Text} (h : t.IsScalar) :
    pieces (encode t) = t.map fun c => ⟨some c, (encodeChar c).length⟩ := by
  induction t with
  | nil => rw [encode, List.flatMap_nil, pieces, List.map_nil]
  | cons c t ih =>
    obtain ⟨hc, ht⟩ := List.forall_mem_cons.1 h
    rw [encode, List.flatMap_cons, pieces_encodeChar hc, ← encode, ih ht, List.map_cons]

theorem encode_flatten (texts : List Text) :
    encode texts.flatten = (texts.map encode).flatten := by
  simp only [encode, List.flatMap_def, List.map_flatten, List.flatten_flatten, List.map_map]
  rfl

theorem text_encode {t : Text} (h : t.IsScalar) : text (pieces (encode t)) = t := by
  rw [pieces_encode h, text, List.map_map]
  exact List.map_id t

theorem firstIllFormed?_encode {t : Text} (h : t.IsScalar) :
    firstIllFormed? (pieces (encode t)) = none := by
  rw [pieces_encode h]
  clear h
  induction t with
  | nil => rfl
  | cons c t ih => simp [firstIllFormed?, ih]

end PlainForm.Utf8

namespace PlainForm

theorem File.text_encode {t : Text} (h : t.IsScalar) (name : Text) :
    File.text name (Utf8.encode t) = ⟨t, []⟩ := by
  unfold File.text
  dsimp only
  rw [Utf8.text_encode h, Utf8.firstIllFormed?_encode h]
  rfl

end PlainForm

import PlainForm.Proofs.Digits
import PlainForm.Proofs.LiteralRule
import PlainForm.Proofs.RuleLine.ClosingMark

/-!
# Escapes between quotation marks

With backslash notation every text without surrogates can stand in a rule line. Its characters are
written one by one, each in a way of its own. The search for the closing quotation mark and the
decoding of what stands in front of it both go through the line in these steps.
-/

namespace PlainForm

open Escape (backslash)

/-! ## How a text is written -/

namespace Grammar

/-- `\u` and the four digits of a unit, in letters of either case. -/
inductive EscapedUnit : Text → CodePoint → Prop where
  | intro {digits} {unit : CodePoint} (four : digits.length = 4) (all : ∀ d ∈ digits, d.isHexDigit)
      (value : Numeral.valueOf 16 digits = unit.val) :
      EscapedUnit (backslash :: 'u' :: digits) unit

/-- A character as it is, behind a backslash, or as the escapes of its one or two units. -/
inductive EscapedChar : Text → CodePoint → Prop where
  | raw {c : CodePoint} (no_mark : c ≠ '"' ∧ c ≠ backslash) (no_end : c ≠ '\r' ∧ c ≠ '\n') :
      EscapedChar [c] c
  | mark {c : CodePoint} (mark : c = '"' ∨ c = backslash) : EscapedChar [backslash, c] c
  | units {parts} {c : CodePoint} (units : List.Forall₂ EscapedUnit parts c.units) :
      EscapedChar parts.flatten c

inductive EscapedText : Text → Text → Prop where
  | nil : EscapedText [] []
  | cons {written c others t} (first : EscapedChar written c) (later : EscapedText others t) :
      EscapedText (written ++ others) (c :: t)

theorem EscapedText.append {written written' t t' : Text} (h : EscapedText written t)
    (h' : EscapedText written' t') : EscapedText (written ++ written') (t ++ t') := by
  induction h with
  | nil => exact h'
  | cons hfirst _ ih =>
    rw [List.append_assoc]
    exact .cons hfirst ih

theorem EscapedText.self {t : Text} (h : t.IsQuotable) (hb : backslash ∉ t) : EscapedText t t := by
  induction t with
  | nil => exact .nil
  | cons c t ih =>
    obtain ⟨⟨hquote, hreturn, hfeed⟩, ht⟩ := List.forall_mem_cons.1 h
    rw [List.mem_cons, not_or] at hb
    exact .cons (.raw ⟨hquote, Ne.symm hb.1⟩ ⟨hreturn, hfeed⟩) (ih ht hb.2)

/-- Every text can be written, if need be in escapes alone. -/
theorem exists_escapedText (t : Text) : ∃ written, EscapedText written t := by
  induction t with
  | nil => exact ⟨[], .nil⟩
  | cons c t ih =>
    obtain ⟨others, hothers⟩ := ih
    have hescape : ∀ unit ∈ c.units,
        EscapedUnit (backslash :: 'u' :: CharNumber.fourDigits unit.number) unit := by
      intro unit hunit
      have hle : unit.val ≤ 0xFFFF := by
        apply Text.le_of_mem_units (t := [c])
        simpa [Text.units] using hunit
      exact .intro (CharNumber.length_fourDigits hle) (CharNumber.isHexDigit_fourDigits _)
        (CharNumber.valueOf_fourDigits _)
    have hunits := List.forall₂_map_left_iff.2 (List.forall₂_same.2 hescape)
    exact ⟨_, .cons (.units hunits) hothers⟩

end Grammar

open Grammar

variable {written t : Text} {c : CodePoint}

/-! ## The closing quotation mark -/

namespace Token

variable {before after : Text}

/-- The search for the closing quotation mark goes on behind `written`. -/
def Passes (written : Text) : Prop :=
  ∀ t content rest, closeEscaped? t = some (content, rest) →
    closeEscaped? (written ++ t) = some (written ++ content, rest)

theorem passes_nil : Passes [] := fun _ _ _ h => h

theorem Passes.append (h : Passes before) (h' : Passes after) : Passes (before ++ after) := by
  intro t content rest hclose
  rw [List.append_assoc, List.append_assoc]
  exact h _ _ _ (h' _ _ _ hclose)

theorem passes_char (h : c ≠ '"' ∧ c ≠ backslash) : Passes [c] := by
  intro t content rest hclose
  rw [List.singleton_append, closeEscaped?_alone h.1 (standsAlone_of_ne h.2 t), hclose]
  rfl

theorem passes_pair (h : c ≠ '\n') : Passes [backslash, c] := by
  intro t content rest hclose
  show closeEscaped? ('\\' :: c :: t) = _
  rw [closeEscaped?_pair h, hclose]
  rfl

theorem passes_of_forall (h : ∀ c ∈ written, c ≠ '"' ∧ c ≠ backslash) : Passes written := by
  induction written with
  | nil => exact passes_nil
  | cons c written ih =>
    obtain ⟨hc, hwritten⟩ := List.forall_mem_cons.1 h
    exact (passes_char hc).append (ih hwritten)

theorem Passes.close (h : Passes written) (rest : Text) :
    closeEscaped? (written ++ ('"' : CodePoint) :: rest) = some (written, rest) := by
  have hclose := h (('"' : CodePoint) :: rest) [] rest (closeEscaped?_mark rest)
  rwa [List.append_nil] at hclose

end Token

namespace Grammar

theorem EscapedUnit.passes (h : EscapedUnit written c) : Token.Passes written := by
  cases h with
  | @intro digits _ _ hall _ =>
    refine (Token.passes_pair (c := 'u') (by decide)).append (Token.passes_of_forall fun d hd => ?_)
    have hdigit := hall d hd
    constructor <;>
    · rintro rfl
      revert hdigit
      decide

theorem passes_units {parts : List Text} {units : Text} (h : List.Forall₂ EscapedUnit parts units) :
    Token.Passes parts.flatten := by
  induction h with
  | nil => exact Token.passes_nil
  | cons hfirst _ ih => exact hfirst.passes.append ih

theorem EscapedChar.passes (h : EscapedChar written c) : Token.Passes written := by
  cases h with
  | raw no_mark => exact Token.passes_char no_mark
  | mark mark =>
    refine Token.passes_pair ?_
    rcases mark with rfl | rfl <;> decide
  | units units => exact passes_units units

theorem EscapedText.passes (h : EscapedText written t) : Token.Passes written := by
  induction h with
  | nil => exact Token.passes_nil
  | cons hfirst _ ih => exact hfirst.passes.append ih

/-! ## What it decodes to -/

theorem EscapedUnit.isStep (h : EscapedUnit written c) :
    Decode.IsStep { backslash := true } written c := by
  cases h with
  | intro four all value => exact Decode.isStep_escape rfl fun _ => .hexadecimal four all value

theorem EscapedUnit.le (h : EscapedUnit written c) : ∀ d ∈ written, d.val ≤ 0xFFFF := by
  cases h with
  | @intro digits _ _ all _ =>
    have hdigits : ∀ d ∈ digits, d.val ≤ 0xFFFF := by
      intro d hd
      have hdigit := all d hd
      simp only [CodePoint.isHexDigit, CodePoint.isDigit, Bool.or_eq_true, Bool.and_eq_true,
        decide_eq_true_eq] at hdigit
      omega
    exact List.forall_mem_cons.2 ⟨by decide, List.forall_mem_cons.2 ⟨by decide, hdigits⟩⟩

theorem units_parts {parts : List Text} {units : Text} (h : List.Forall₂ EscapedUnit parts units) :
    Text.units parts.flatten = parts.flatten := by
  induction h with
  | nil => rfl
  | cons hfirst _ ih =>
    rw [List.flatten_cons, Text.units, List.flatMap_append, ← Text.units, ← Text.units, ih,
      Text.units_of_forall_le hfirst.le]

theorem EscapedChar.spells (h : EscapedChar written c) (hc : ¬ c.isSurrogate) :
    Decode.Spells { backslash := true } written.units [c] := by
  cases h with
  | raw no_mark =>
    refine Decode.spells_self (by simpa [Text.IsScalar] using hc) (by simp) fun _ hmem => ?_
    exact no_mark.2 (List.mem_singleton.1 (Text.mem_of_mem_units hmem (by decide))).symm
  | mark mark =>
    have hunits : Text.units [backslash, c] = [backslash, c] := by
      rcases mark with rfl | rfl <;> rfl
    rw [hunits]
    refine (Decode.isStep_escape rfl fun _ => .letter ?_).spells hc
    rcases mark with rfl | rfl <;> decide
  | units units =>
    rw [units_parts units]
    exact Decode.spells_parts hc (units.imp fun _ _ h => h.isStep)

theorem EscapedText.decode (h : EscapedText written t) (ht : t.IsScalar) :
    written.decode { backslash := true } = .ok ⟨t, []⟩ := by
  refine Decode.Spells.decode ?_
  induction h with
  | nil => exact Decode.spells_nil
  | cons hfirst _ ih =>
    obtain ⟨hc, hlater⟩ := List.forall_mem_cons.1 ht
    rw [Text.units, List.flatMap_append]
    exact (hfirst.spells hc).append (ih hlater)

end Grammar

/-! ## The line -/

namespace RuleLine

open Reading

variable {gap rest : Text}

theorem readRow_escaped (h : EscapedText written t) (ht : t.IsScalar) (hblanks : Blanks gap)
    (hend : EndsRow rest) :
    readRow { backslash := true } false
        (gap ++ ('"' : CodePoint) :: (written ++ ('"' : CodePoint) :: rest)) =
      ⟨.ok ⟨t, 1, rest.skipBlanks⟩, []⟩ := by
  have hitem : Token.item? true
      (gap ++ ('"' : CodePoint) :: (written ++ ('"' : CodePoint) :: rest)) =
        some (.quoted written, rest) := Token.item?_quoted hblanks (h.passes.close rest)
  have hread : readItem { backslash := true } (.quoted written) = ⟨.ok t, []⟩ := by
    rw [readItem, h.decode ht]
    rfl
  have hlast : readRow { backslash := true } true rest = ⟨.ok ⟨[], 0, rest.skipBlanks⟩, []⟩ :=
    readRow_nil (Token.items_eq_nil hend)
  rw [readRow_item rfl hitem]
  refine bind_eq_ok.2 ⟨t, [], [], hread, bind_eq_ok.2 ⟨_, [], [], hlast, ?_, rfl⟩, rfl⟩
  rw [List.append_nil]
  rfl

theorem readLeft_escaped (h : EscapedText written t) (ht : t.IsScalar) (hne : t ≠ [])
    (hend : EndsRow rest) :
    readLeft { backslash := true } ('"' :: (written ++ ('"' : CodePoint) :: rest)) =
      ⟨.ok (.sequence t.numbers, rest.skipBlanks), []⟩ := by
  have hrange : Token.range? ('"' :: (written ++ ('"' : CodePoint) :: rest)) = none :=
    Token.range?_quoted blanks_nil
  have hrow := readRow_escaped h ht blanks_nil hend
  exact readLeft_eq_ok.2 (.inr ⟨hrange, _, hrow, Nat.one_ne_zero, hne, rfl, rfl⟩)

theorem readReplacement_escaped (h : EscapedText written t) (ht : t.IsScalar)
    (hblanks : Blanks gap) (hend : EndsRow rest) :
    readReplacement { backslash := true }
        (gap ++ ('"' : CodePoint) :: (written ++ ('"' : CodePoint) :: rest)) =
      ⟨.ok ⟨.replace, some t, rest.skipBlanks⟩, []⟩ :=
  readReplacement_eq_ok.2 ⟨_, readRow_escaped h ht hblanks hend, Nat.one_ne_zero, rfl⟩

end RuleLine

/-- With backslash notation a replace rule can name every text without surrogates, in every way of
writing its characters between quotation marks: the quotation marks that end the two strings are
found, both are decoded to the texts, and there is nothing to be told. -/
theorem read_escaped (s t : Text) (hne : s ≠ []) (hs : s.IsScalar) (ht : t.IsScalar)
    (left right : Text) (hleft : EscapedText left s) (hright : EscapedText right t) :
    RuleLine.read { backslash := true } (literalLine left right) =
      ⟨.ok (literalRule s t), []⟩ := by
  let last : Text := '"' :: (right ++ [('"' : CodePoint)])
  let rest : Text := " " ++ ('=' : CodePoint) :: (" " ++ last)
  have hline : literalLine left right =
      RuleLine.Verb.replace.word ++ " " ++
        ('"' : CodePoint) :: (left ++ ('"' : CodePoint) :: rest) := by
    simp only [literalLine, List.append_assoc]
    rfl
  have hskip : Text.skipBlanks rest = ('=' : CodePoint) :: (" " ++ last) :=
    skipBlanks_cons blanks_space (by decide) _
  have hequals : Token.equals? (Text.skipBlanks rest) = some (" " ++ last) :=
    Token.equals?_eq_some.2 ⟨[], hskip, blanks_nil⟩
  have heffect : RuleLine.readRight { backslash := true } (Text.skipBlanks rest) =
      ⟨.ok ⟨.replace, some t, []⟩, []⟩ := by
    unfold RuleLine.readRight
    rw [hequals]
    dsimp only
    rw [Token.keyword?_quoted blanks_space]
    exact RuleLine.readReplacement_escaped hright ht blanks_space
      (endsRow_of_writtenEnd (.blank blanks_nil))
  have hverb : RuleLine.readVerb (literalLine left right) =
      ⟨.ok (.replace, ('"' : CodePoint) :: (left ++ ('"' : CodePoint) :: rest)), []⟩ :=
    RuleLine.readVerb_eq_ok.2
      ⟨rfl, _, hline, writtenVerb .replace, Text.stopsRun_cons.2 (by decide)⟩
  have hend : EndsRow rest := endsRow_equals blanks_space _
  exact RuleLine.read_eq_ok.2 ⟨.replace, _, _, _, _, [], [], hverb,
    RuleLine.readLeft_escaped hleft hs hne hend, heffect, rfl, rfl, rfl⟩

/-- A raw `u0041` behind an escaped backslash, escapes of the halves of a pair and of a line feed,
and an escaped quotation mark in front of the closing one. -/
theorem read_escaped_mixed :
    let s : Text := "a\"\\u0041😀"
    let t : Text := "\n\\\""
    let left : Text := "a\\\"\\\\u0041\\uD83d\\uDe00"
    let right : Text := "\\u000a\\\\\\\""
    s ≠ [] ∧ s.IsScalar ∧ t.IsScalar ∧ EscapedText left s ∧ EscapedText right t ∧
      RuleLine.read { backslash := true } (literalLine left right) =
        ⟨.ok (literalRule s t), []⟩ := by
  intro s t left right
  have hne : s ≠ [] := by decide
  have hs : s.IsScalar := by decide
  have ht : t.IsScalar := by decide
  have hquote : EscapedChar "\\\"" '"' := .mark (by decide)
  have hbackslash : EscapedChar "\\\\" '\\' := .mark (by decide)
  have hhigh : EscapedUnit "\\uD83d" ⟨0xD83D, by decide⟩ :=
    .intro (by decide) (by decide) (by decide)
  have hlow : EscapedUnit "\\uDe00" ⟨0xDE00, by decide⟩ :=
    .intro (by decide) (by decide) (by decide)
  have hpair : EscapedChar (List.flatten [("\\uD83d" : Text), "\\uDe00"]) '😀' :=
    .units (.cons hhigh (.cons hlow .nil))
  have hfeed : EscapedChar (List.flatten [("\\u000a" : Text)]) '\n' :=
    .units (.cons (.intro (by decide) (by decide) (by decide)) .nil)
  have hletter : EscapedText "a" "a" := .self (by decide) (by decide)
  have hraw : EscapedText "u0041" "u0041" := .self (by decide) (by decide)
  have hleft := hletter.append (.cons hquote (.cons hbackslash (hraw.append (.cons hpair .nil))))
  have hright := EscapedText.cons hfeed (.cons hbackslash (.cons hquote .nil))
  exact ⟨hne, hs, ht, hleft, hright, read_escaped s t hne hs ht left right hleft hright⟩

end PlainForm

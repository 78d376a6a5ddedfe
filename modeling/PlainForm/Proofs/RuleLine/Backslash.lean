import PlainForm.Proofs.Decode.Spelling
import PlainForm.Proofs.RuleLine.ClosingMark
import PlainForm.Proofs.RuleLine.Contract

/-!
# Lines without backslashes

Backslash notation makes a difference only where there is a backslash. A line without one is read
alike whether the notation is on or off.
-/

namespace PlainForm

open Escape (backslash)

/-! ## Decoding -/

namespace Decode

theorem step_backslash_free (notations : Notations) {unit : CodePoint} (h : unit ≠ backslash)
    (rest : Text) :
    step notations unit rest = step { xml := notations.xml } unit rest := by
  simp [step, h]

end Decode

theorem Text.decode_backslash_free (notations : Notations) {t : Text} (h : backslash ∉ t) :
    t.decode notations = t.decode { xml := notations.xml } := by
  refine Decode.run_congr fun unit hunit rest => Decode.step_backslash_free notations ?_ rest
  rintro rfl
  exact h (mem_of_mem_units hunit (by decide))

/-! ## Tokens -/

namespace Token

variable {t content rest : Text} {spaced : Bool}

theorem close?_cons {c : CodePoint} (h : c ≠ '"') (t : Text) :
    close? (c :: t) = (close? t).map fun (content, rest) => (c :: content, rest) := by
  have htake : (c :: t).takeWhile (fun c : CodePoint => c ≠ '"') =
      c :: t.takeWhile fun c : CodePoint => c ≠ '"' :=
    List.takeWhile_cons_of_pos (by simpa using h)
  simp only [close?, htake, List.length_cons, List.drop_succ_cons]
  split <;> rfl

theorem closeEscaped?_backslash_free (h : backslash ∉ t) : closeEscaped? t = close? t := by
  induction t with
  | nil => rfl
  | cons c t ih =>
    rw [List.mem_cons, not_or] at h
    by_cases hc : c = '"'
    · subst hc
      exact closeEscaped?_mark t
    · have halone : StandsAlone c t := standsAlone_of_ne (Ne.symm h.1) t
      rw [closeEscaped?_alone hc halone, ih h.2, close?_cons hc]

theorem item?_backslash_free (escapes : Bool) (h : backslash ∉ t) :
    item? escapes t = item? false t := by
  have hquoted : quoted? escapes t = quoted? false t := by
    have hskip : backslash ∉ t.skipBlanks := fun hmem => h ((List.dropWhile_suffix _).mem hmem)
    unfold quoted?
    split
    · rfl
    · next c rest hrest =>
      rw [hrest, List.mem_cons, not_or] at hskip
      rw [closeEscaped?_backslash_free hskip.2]
      cases escapes <;> rfl
  rw [item?, item?, hquoted]

theorem items_backslash_free (escapes : Bool) (h : backslash ∉ t) :
    items escapes spaced t = items false spaced t := by
  fun_induction items escapes spaced t with
  | case1 spaced t hs => rw [items_unspaced hs]
  | case2 spaced t start hs hi =>
    have hstart : backslash ∉ start := fun hmem => h ((itemStart?_suffix hs).mem hmem)
    rw [item?_backslash_free escapes hstart] at hi
    rw [items_itemless hs hi]
  | case3 spaced t start hs item rest hi hlt more left hmore ih =>
    have hstart : backslash ∉ start := fun hmem => h ((itemStart?_suffix hs).mem hmem)
    have hrest : backslash ∉ rest := fun hmem => hstart ((item?_part hi).1.mem hmem)
    rw [item?_backslash_free escapes hstart] at hi
    rw [items_cons hs hi, ← ih hrest, hmore]

end Token

/-! ## Reading -/

namespace RuleLine

variable {t : Text}

theorem readAll_backslash_free (notations : Notations) {items : List Token.Item}
    (h : ∀ content, .quoted content ∈ items → backslash ∉ content) :
    readAll notations items = readAll { xml := notations.xml } items := by
  induction items with
  | nil => rfl
  | cons item items ih =>
    have hitem : readItem notations item = readItem { xml := notations.xml } item := by
      cases item with
      | number numeral => rfl
      | quoted content =>
        rw [readItem, readItem,
          Text.decode_backslash_free notations (h content List.mem_cons_self)]
    rw [readAll, readAll, hitem, ih fun content hmem => h content (List.mem_cons_of_mem _ hmem)]

theorem readRow_backslash_free (notations : Notations) (spaced : Bool) (h : backslash ∉ t) :
    readRow notations spaced t = readRow { xml := notations.xml } spaced t := by
  have hparts := (Token.items_part false spaced t).2
  have hall := readAll_backslash_free notations fun content hmem hb =>
    h ((hparts (.quoted content) hmem : content <:+: t).mem hb)
  unfold readRow
  rw [Token.items_backslash_free notations.backslash h]
  dsimp only
  rw [hall]

theorem readLeft_backslash_free (notations : Notations) (h : backslash ∉ t) :
    readLeft notations t = readLeft { xml := notations.xml } t := by
  unfold readLeft
  rw [readRow_backslash_free notations false h]

theorem readRight_backslash_free (notations : Notations) (h : backslash ∉ t) :
    readRight notations t = readRight { xml := notations.xml } t := by
  unfold readRight
  split
  · rfl
  · next body hbody =>
    have hbody' : backslash ∉ body := fun hb => h ((Token.equals?_suffix hbody).mem hb)
    split
    · next word rest hword =>
      have hrest : backslash ∉ rest := fun hb => hbody' ((Token.keyword?_suffix hword).mem hb)
      rw [readSpecial, readSpecial, readRow_backslash_free notations true hrest]
    · rw [readReplacement, readReplacement, readRow_backslash_free notations false hbody']

theorem readEffect_backslash_free (notations : Notations) (verb : Verb) (h : backslash ∉ t) :
    readEffect notations verb t = readEffect { xml := notations.xml } verb t := by
  cases verb with
  | accept | delete => rfl
  | replace => exact readRight_backslash_free notations h

/-- A line without backslashes is read alike with and without backslash notation. -/
theorem read_backslash_free (notations : Notations) {line : Text} (h : backslash ∉ line) :
    read notations line = read { xml := notations.xml } line := by
  have hverb : (readVerb line).Meets _ (fun _ => True) := readVerb_meets line
  refine Reading.bind_congr fun ⟨verb, t⟩ ht => ?_
  have hleft : backslash ∉ t := fun hb => h ((hverb.value _ ht).mem hb)
  dsimp only
  rw [readLeft_backslash_free notations hleft]
  refine Reading.bind_congr fun ⟨target, t'⟩ ht' => ?_
  have hsuffix := ((readLeft_meets _ t).value _ ht').2
  dsimp only
  rw [readEffect_backslash_free notations verb fun hb => hleft (hsuffix.mem hb)]

end RuleLine

end PlainForm

import PlainForm.Proofs.RuleLine.Sides

/-!
# A line is a rule if the grammar says so

Without backslash notation, `RuleLine.read` takes the lines of the grammar and no others. Each comes
to the rule that it denotes, and tells what the decoding of its quoted strings tells.
-/

namespace PlainForm

namespace Grammar

variable {gap t written : Text}

theorem writtenVerb (verb : RuleLine.Verb) : WrittenVerb (verb.word ++ " ") verb := by
  have hlower : Text.toLower verb.word = verb.word := by cases verb <;> decide
  exact .intro blanks_nil hlower blanks_space (by decide)

theorem WrittenVerb.append {verb : RuleLine.Verb} (h : WrittenVerb written verb)
    (hblanks : Blanks gap) : WrittenVerb (written ++ gap) verb := by
  cases h with
  | @intro g word g' _ hg hword hg' hne =>
    have hsplit : g ++ (word ++ g') ++ gap = g ++ (word ++ (g' ++ gap)) := by simp
    rw [hsplit]
    exact .intro hg hword (hg'.append hblanks) (by simp [hne])

theorem WrittenEnd.prepend (h : WrittenEnd t) (hblanks : Blanks gap) : WrittenEnd (gap ++ t) := by
  cases h with
  | blank h => exact .blank (hblanks.append h)
  | comment h =>
    rw [← List.append_assoc]
    exact .comment (hblanks.append h)

theorem written_left_cons {left : Left} (h : WrittenLeft written left) :
    ∃ c more, written = c :: more ∧ Token.startsItem c := by
  cases h with
  | range hlow =>
    obtain ⟨c, more, rfl, hc⟩ := Token.written_number_cons hlow
    exact ⟨c, _, rfl, hc⟩
  | row hw => exact written_row_cons hw

end Grammar

namespace RuleLine

open Grammar Reading
open Text (StopsRun)

variable {xml : Bool} {line gap t t' rest written : Text} {ps : List Problem}

/-! ## Verbs -/

theorem readVerb_eq_ok {verb : Verb} : readVerb line = ⟨.ok (verb, t), ps⟩ ↔
    ps = [] ∧ ∃ written, line = written ++ t ∧ WrittenVerb written verb ∧
      StopsRun CodePoint.isBlank t := by
  constructor
  · intro h
    unfold readVerb at h
    split at h
    · exact absurd h wrong_ne_ok
    · next word rest hword =>
      split at h
      · exact absurd h wrong_ne_ok
      · next verb' hverb =>
        split at h
        · exact absurd h wrong_ne_ok
        · next left hleft =>
          obtain ⟨hpair, rfl⟩ := pure_eq_ok.1 h
          obtain ⟨rfl, rfl⟩ := Prod.mk.inj hpair
          obtain ⟨gap, rfl, hg, -, -⟩ := Token.keyword?_eq_some.1 hword
          obtain ⟨gap', rfl, hne, hg', hstop⟩ := Token.space?_eq_some.1 hleft
          exact ⟨rfl, gap ++ (word ++ gap'), by simp,
            .intro hg (ofWord?_eq_some.1 hverb) hg' hne, hstop⟩
  · rintro ⟨rfl, written, rfl, hw, hstop⟩
    cases hw with
    | @intro gap word gap' _ hg hword hg' hne =>
      have hkeyword : Token.keyword? (gap ++ (word ++ gap') ++ t) = some (word, gap' ++ t) := by
        simp only [List.append_assoc]
        exact Token.keyword?_eq_some.2
          ⟨gap, rfl, hg, isWord_of_toLower hword (isWord_verb verb), hg'.stopsRun hne t⟩
      have hspace : Token.space? (gap' ++ t) = some t :=
        Token.space?_eq_some.2 ⟨gap', rfl, hne, hg', hstop⟩
      unfold readVerb
      simp only [hkeyword, ofWord?_eq_some.2 hword, hspace]
      rfl

theorem readVerb_written {verb left : Text} {v : Verb} {l : Left} (hv : WrittenVerb verb v)
    (hl : WrittenLeft left l) :
    readVerb (verb ++ (left ++ rest)) = ⟨.ok (v, left ++ rest), []⟩ := by
  obtain ⟨c, more, hcons, hc⟩ := written_left_cons hl
  exact readVerb_eq_ok.2 ⟨rfl, verb, rfl, hv, Token.stopsRun_of_startsItem hc hcons rest⟩

/-! ## Ends -/

theorem endsHere_congr (h : t.skipBlanks = t'.skipBlanks) :
    Token.endsHere t = Token.endsHere t' := by
  unfold Token.endsHere
  rw [h]

theorem equals?_congr (h : t.skipBlanks = t'.skipBlanks) :
    Token.equals? t = Token.equals? t' := by
  unfold Token.equals?
  rw [h]

/-! ## Lines -/

theorem read_eq_ok {notations : Notations} {rule : Rule} :
    read notations line = ⟨.ok rule, ps⟩ ↔
    ∃ verb t target t' effect before after, readVerb line = ⟨.ok (verb, t), []⟩ ∧
      readLeft notations t = ⟨.ok (target, t'), before⟩ ∧
      readEffect notations verb t' = ⟨.ok effect, after⟩ ∧ Token.endsHere effect.rest ∧
      rule = ⟨effect.action, target, effect.right⟩ ∧ ps = before ++ after := by
  unfold read
  constructor
  · intro h
    obtain ⟨⟨verb, t⟩, none, later, hverb, h1, rfl⟩ := bind_eq_ok.1 h
    obtain ⟨⟨target, t'⟩, before, later', hleft, h2, rfl⟩ := bind_eq_ok.1 h1
    obtain ⟨effect, after, last, heffect, h3, rfl⟩ := bind_eq_ok.1 h2
    obtain ⟨rfl, -⟩ := readVerb_eq_ok.1 hverb
    split at h3
    · next hends =>
      obtain ⟨rfl, rfl⟩ := pure_eq_ok.1 h3
      exact ⟨verb, t, target, t', effect, before, after, hverb, hleft, heffect, hends, rfl,
        by simp⟩
    · exact absurd h3 wrong_ne_ok
  · rintro ⟨verb, t, target, t', effect, before, after, hverb, hleft, heffect, hends, rfl, rfl⟩
    refine bind_eq_ok.2 ⟨(verb, t), [], _, hverb, ?_, rfl⟩
    refine bind_eq_ok.2 ⟨(target, t'), before, after, hleft, ?_, rfl⟩
    refine bind_eq_ok.2 ⟨effect, after, [], heffect, ?_, (List.append_nil after).symm⟩
    rw [if_pos hends]
    rfl

theorem writtenEnd_of_endsHere {last : Text} (hline : ('\n' : CodePoint) ∉ line)
    (hsuffix : last <:+ line) (h : Token.endsHere last) : WrittenEnd last := by
  apply (Token.endsHere_iff ?_).1 h
  intro hmem
  exact hline (hsuffix.mem hmem)

theorem endsHere_of_skipBlanks {last : Text} (hskip : t.skipBlanks = last.skipBlanks)
    (hlast : WrittenEnd last) (hline : ('\n' : CodePoint) ∉ last) : Token.endsHere t := by
  rw [endsHere_congr hskip]
  exact (Token.endsHere_iff hline).2 hlast

theorem readEffect_eq_ok {verb : Verb} {effect : Effect} (hverb : verb ≠ .replace) :
    readEffect { xml } verb t = ⟨.ok effect, ps⟩ ↔
      effect = ⟨verb.action, verb.right, t⟩ ∧ ps = [] := by
  cases verb with
  | replace => exact absurd rfl hverb
  | accept | delete => exact pure_eq_ok

theorem read_sound {rule : Rule} (hline : ('\n' : CodePoint) ∉ line) (hs : line.HasShortRuns)
    (h : read { xml } line = ⟨.ok rule, ps⟩) :
    ∃ l, WrittenLine line l ∧ l.Denotes xml rule ps := by
  obtain ⟨verb, t, target, t', effect, before, after, hverb, hleft, heffect, hends, rfl, rfl⟩ :=
    read_eq_ok.1 h
  obtain ⟨-, written, rfl, hw, -⟩ := readVerb_eq_ok.1 hverb
  have hst : t.HasShortRuns := hs.of_infix (List.suffix_append written t).isInfix
  obtain ⟨gap, left, gap', l, rfl, hg, hg', hl, hdenotes⟩ := readLeft_sound hst hleft
  have hwg := hw.append hg
  have hsuffix : t' <:+ written ++ (gap ++ (left ++ (gap' ++ t'))) :=
    ⟨written ++ (gap ++ (left ++ gap')), by simp⟩
  by_cases hreplace : verb = .replace
  · subst hreplace
    have hst' : t'.HasShortRuns := hs.of_infix hsuffix.isInfix
    obtain ⟨gap'', right, last, r, rfl, hg'', hlast, hr, hdenotes'⟩ :=
      readRight_sound hst' heffect
    have hrest : effect.rest <:+ gap'' ++ ('=' : CodePoint) :: (right ++ (last ++ effect.rest)) :=
      ⟨gap'' ++ ('=' : CodePoint) :: (right ++ last), by simp⟩
    have hend := (writtenEnd_of_endsHere hline (hrest.trans hsuffix) hends).prepend hlast
    refine ⟨.replace l r, ?_, .replace hdenotes hdenotes'⟩
    have hwritten := WrittenLine.replace hwg hl (hg'.append hg'') hr hend
    simpa using hwritten
  · obtain ⟨rfl, rfl⟩ := (readEffect_eq_ok hreplace).1 heffect
    have hend := (writtenEnd_of_endsHere hline hsuffix hends).prepend hg'
    rw [List.append_nil]
    cases verb with
    | accept =>
      refine ⟨.accept l, ?_, .accept hdenotes⟩
      have hwritten := WrittenLine.accept hwg hl hend
      simpa using hwritten
    | delete =>
      refine ⟨.delete l, ?_, .delete hdenotes⟩
      have hwritten := WrittenLine.delete hwg hl hend
      simpa using hwritten
    | replace => exact absurd rfl hreplace

theorem read_left_written {verb : Verb} {before left last : Text} {l : Left} {target : Target}
    (hreplace : verb ≠ .replace) (hline : ('\n' : CodePoint) ∉ before ++ (left ++ last))
    (hs : l.IsShort) (hv : WrittenVerb before verb)
    (hl : WrittenLeft left l) (hlast : WrittenEnd last) (hdenotes : l.Denotes xml target ps) :
    read { xml } (before ++ (left ++ last)) = ⟨.ok ⟨verb.action, target, verb.right⟩, ps⟩ := by
  obtain ⟨rest, hskip, hleft⟩ := readLeft_written hs hl hdenotes (endsRow_of_writtenEnd hlast)
  have heffect : readEffect { xml } verb rest = ⟨.ok ⟨verb.action, verb.right, rest⟩, []⟩ :=
    (readEffect_eq_ok hreplace).2 ⟨rfl, rfl⟩
  have hends := endsHere_of_skipBlanks hskip hlast fun h => hline (by simp [h])
  exact read_eq_ok.2 ⟨verb, left ++ last, target, rest, _, ps, [], readVerb_written hv hl, hleft,
    heffect, hends, rfl, (List.append_nil ps).symm⟩

/-- What stands in quotation marks may hold long runs of digits, as far as it can be decoded. -/
theorem read_written_of_isShort {l : Line} {rule : Rule} (hline : ('\n' : CodePoint) ∉ line)
    (hs : l.IsShort) (hw : WrittenLine line l) (hdenotes : l.Denotes xml rule ps) :
    read { xml } line = ⟨.ok rule, ps⟩ := by
  cases hw with
  | accept hv hl hlast =>
    cases hdenotes with
    | accept hdenotes => exact read_left_written (by decide) hline hs hv hl hlast hdenotes
  | delete hv hl hlast =>
    cases hdenotes with
    | delete hdenotes => exact read_left_written (by decide) hline hs hv hl hlast hdenotes
  | @replace verb left gap right last l r hv hl hg hr hlast =>
    cases hdenotes with
    | @replace _ target before _ action text after hdenotes hdenotes' =>
      obtain ⟨rest, hskip, hleft⟩ := readLeft_written hs.1 hl hdenotes (endsRow_equals hg _)
      have hequals : Token.equals? rest = some (right ++ last) := by
        rw [equals?_congr hskip]
        exact Token.equals?_eq_some.2 ⟨gap, rfl, hg⟩
      have hright := readRight_written hequals hs.2 hr hdenotes' (endsRow_of_writtenEnd hlast)
      have hends := endsHere_of_skipBlanks (skipBlanks_skipBlanks last) hlast
        fun h => hline (by simp [h])
      exact read_eq_ok.2 ⟨.replace, _, target, rest, ⟨action, text, last.skipBlanks⟩, before,
        after, readVerb_written hv hl, hleft, hright, hends, rfl, rfl⟩

theorem read_written {l : Line} {rule : Rule} (hline : ('\n' : CodePoint) ∉ line)
    (hs : line.HasShortRuns) (hw : WrittenLine line l) (hdenotes : l.Denotes xml rule ps) :
    read { xml } line = ⟨.ok rule, ps⟩ :=
  read_written_of_isShort hline (hw.isShort hs) hw hdenotes

end RuleLine

/-! ## Lines and their rules -/

/-- On a line without line feeds and without long runs of digits, reading comes to a rule exactly
when the line can be written so that it denotes the rule, and tells what that denotation tells.
Otherwise the line has a mistake: reading does not give up, since all that stands in quotation marks
on such a line can be decoded. -/
theorem read_iff_written (xml : Bool) (line : Text) (hline : ('\n' : CodePoint) ∉ line)
    (hshort : line.HasShortRuns) :
    (∀ rule problems, RuleLine.read { xml } line = ⟨.ok rule, problems⟩ ↔
      ∃ l, Grammar.WrittenLine line l ∧ l.Denotes xml rule problems) ∧
    (∀ f, (RuleLine.read { xml } line).outcome ≠ .error (.failure f)) ∧
    ∀ content : Text, content <:+: line → ∃ noted, content.decode { xml } = .ok noted := by
  refine ⟨?_, ?_, ?_⟩
  · intro rule problems
    constructor
    · exact RuleLine.read_sound hline hshort
    · rintro ⟨l, hw, hdenotes⟩
      exact RuleLine.read_written hline hshort hw hdenotes
  · intro f hf
    exact ((RuleLine.read_meets { xml } line).failure f hf).2 hshort
  · intro content hcontent
    exact (hshort.of_infix hcontent).exists_decode { xml }

/-- A reference that is unknown, a special action in capitals with a right side, and a comment. -/
theorem read_iff_written_special :
    let line : Text := " Replace \"&q\" u+E9 = UNINUM 65 # note"
    let rule : Rule := ⟨.unicode, .sequence [0x26, 0x71, 0xE9], some "A"⟩
    let problems := [Problem.unknownEntity "&q"]
    ('\n' : CodePoint) ∉ line ∧ line.HasShortRuns ∧
      RuleLine.read { xml := true } line = ⟨.ok rule, problems⟩ ∧
      ∃ l, Grammar.WrittenLine line l ∧ l.Denotes true rule problems := by
  intro line rule problems
  have hline : ('\n' : CodePoint) ∉ line := by decide
  have hshort : line.HasShortRuns := Text.hasShortRuns_of_length (by decide)
  have hread : RuleLine.read { xml := true } line = ⟨.ok rule, problems⟩ := by decide +kernel
  exact ⟨hline, hshort, hread, ((read_iff_written true line hline hshort).1 rule problems).1 hread⟩

end PlainForm

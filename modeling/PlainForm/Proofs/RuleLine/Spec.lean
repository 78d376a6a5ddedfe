import PlainForm.RuleLine

/-!
# The grammar of rule lines

How rule lines are written when backslash notation is off, and which rules they denote.
`Accepts.lean` shows that `RuleLine.read` takes exactly these lines for these rules.
-/

namespace PlainForm.Grammar

open Token (Item)

/-! ## Derivations -/

inductive Left where
  | range (low high : Numeral)
  | row (items : List Item)

inductive Right where
  | row (items : List Item)
  | special (action : Action) (items : List Item)

inductive Line where
  | accept (left : Left)
  | delete (left : Left)
  | replace (left : Left) (right : Right)

/-! ## How they are written -/

def Blanks (gap : Text) : Prop := ∀ c ∈ gap, c.isBlank

/-- Decimal digits, or hexadecimal digits behind `U+` or `0x`. -/
inductive WrittenNumber : Text → Numeral → Prop where
  | decimal {digits} (nonempty : digits ≠ []) (all : ∀ d ∈ digits, d.isDigit) :
      WrittenNumber digits ⟨.decimal, digits⟩
  | unicode {mark : CodePoint} {digits} (mark_eq : mark = 'U' ∨ mark = 'u')
      (nonempty : digits ≠ []) (all : ∀ d ∈ digits, d.isHexDigit) :
      WrittenNumber (mark :: '+' :: digits) ⟨.hexadecimal, digits⟩
  | hexadecimal {mark : CodePoint} {digits} (mark_eq : mark = 'x' ∨ mark = 'X')
      (nonempty : digits ≠ []) (all : ∀ d ∈ digits, d.isHexDigit) :
      WrittenNumber ('0' :: mark :: digits) ⟨.hexadecimal, digits⟩

inductive WrittenItem : Text → Item → Prop where
  | number {written numeral} (number : WrittenNumber written numeral) :
      WrittenItem written (.number numeral)
  | quoted {content : Text} (inner : ('"' : CodePoint) ∉ content) :
      WrittenItem ('"' :: (content ++ [('"' : CodePoint)])) (.quoted content)

/-- Items with blanks between them. -/
inductive WrittenRow : Text → List Item → Prop where
  | single {written item} (first : WrittenItem written item) : WrittenRow written [item]
  | cons {written gap later item items} (first : WrittenItem written item) (blanks : Blanks gap)
      (nonempty : gap ≠ []) (others : WrittenRow later items) :
      WrittenRow (written ++ (gap ++ later)) (item :: items)

inductive WrittenLeft : Text → Left → Prop where
  | range {before after gap gap' : Text} {low high} {separator : Text}
      (low_written : WrittenNumber before low) (blanks : Blanks gap)
      (separator_eq : separator = ".." ∨ separator = ":") (blanks' : Blanks gap')
      (high_written : WrittenNumber after high) :
      WrittenLeft (before ++ (gap ++ (separator ++ (gap' ++ after)))) (.range low high)
  | row {written items} (row : WrittenRow written items) : WrittenLeft written (.row items)

/-- A right side. Special actions are named in letters of either case. -/
inductive WrittenRight : Text → Right → Prop where
  | row {gap written items} (blanks : Blanks gap) (row : WrittenRow written items) :
      WrittenRight (gap ++ written) (.row items)
  | special {gap word action} (blanks : Blanks gap) (known : action ∈ Action.specials)
      (word_eq : Text.toLower word = action.keyword) :
      WrittenRight (gap ++ word) (.special action [])
  | specialRow {gap word gap' written action items} (blanks : Blanks gap)
      (known : action ∈ Action.specials) (word_eq : Text.toLower word = action.keyword)
      (blanks' : Blanks gap') (nonempty : gap' ≠ []) (row : WrittenRow written items) :
      WrittenRight (gap ++ (word ++ (gap' ++ written))) (.special action items)

/-- Blanks, and perhaps a comment. -/
inductive WrittenEnd : Text → Prop where
  | blank {gap} (blanks : Blanks gap) : WrittenEnd gap
  | comment {gap text : Text} (blanks : Blanks gap) : WrittenEnd (gap ++ ('#' : CodePoint) :: text)

/-- What stands in front of a left side: a verb in letters of either case, and blanks. -/
inductive WrittenVerb : Text → RuleLine.Verb → Prop where
  | intro {gap word gap' verb} (blanks : Blanks gap) (word_eq : Text.toLower word = verb.word)
      (blanks' : Blanks gap') (nonempty : gap' ≠ []) : WrittenVerb (gap ++ (word ++ gap')) verb

inductive WrittenLine : Text → Line → Prop where
  | accept {verb left last l} (verb_written : WrittenVerb verb .accept)
      (left_written : WrittenLeft left l) (end_written : WrittenEnd last) :
      WrittenLine (verb ++ (left ++ last)) (.accept l)
  | delete {verb left last l} (verb_written : WrittenVerb verb .delete)
      (left_written : WrittenLeft left l) (end_written : WrittenEnd last) :
      WrittenLine (verb ++ (left ++ last)) (.delete l)
  | replace {verb left gap right last : Text} {l r} (verb_written : WrittenVerb verb .replace)
      (left_written : WrittenLeft left l) (blanks : Blanks gap)
      (right_written : WrittenRight right r) (end_written : WrittenEnd last) :
      WrittenLine (verb ++ (left ++ (gap ++ ('=' : CodePoint) :: (right ++ last)))) (.replace l r)

/-! ## What they denote -/

/-- The characters of some items, one after the other, and what is told about the quoted strings
among them. A number must be a scalar value. -/
inductive Denotes (xml : Bool) : List Item → Text → List Problem → Prop where
  | nil : Denotes xml [] [] []
  | number {numeral items characters problems} {c : CodePoint} (value : numeral.value = c.val)
      (scalar : ¬ c.isSurrogate) (others : Denotes xml items characters problems) :
      Denotes xml (.number numeral :: items) (c :: characters) problems
  | quoted {content items characters problems} {noted : Noted Text}
      (decoded : content.decode { xml } = .ok noted)
      (others : Denotes xml items characters problems) :
      Denotes xml (.quoted content :: items) (noted.value ++ characters)
        (noted.problems ++ problems)

/-- The target of a left side. Bounds are in order, and a row has at least one character. -/
inductive Left.Denotes (xml : Bool) : Left → Target → List Problem → Prop where
  | range {low high : Numeral} (ordered : low.value ≤ high.value)
      (within : high.value ≤ 0x10FFFF) :
      Left.Denotes xml (.range low high) (.range low.value high.value) []
  | row {items characters problems} (row : Grammar.Denotes xml items characters problems)
      (nonempty : characters ≠ []) :
      Left.Denotes xml (.row items) (.sequence characters.numbers) problems

/-- The action and the right side of a rule. A special action alone has no right side. -/
inductive Right.Denotes (xml : Bool) : Right → Action → Option Text → List Problem → Prop where
  | row {items characters problems} (row : Grammar.Denotes xml items characters problems) :
      Right.Denotes xml (.row items) .replace (some characters) problems
  | special {action} : Right.Denotes xml (.special action []) action none []
  | specialRow {action items characters problems} (nonempty : items ≠ [])
      (row : Grammar.Denotes xml items characters problems) :
      Right.Denotes xml (.special action items) action (some characters) problems

inductive Line.Denotes (xml : Bool) : Line → Rule → List Problem → Prop where
  | accept {left target problems} (left_denotes : Left.Denotes xml left target problems) :
      Line.Denotes xml (.accept left) ⟨.accept, target, none⟩ problems
  | delete {left target problems} (left_denotes : Left.Denotes xml left target problems) :
      Line.Denotes xml (.delete left) ⟨.replace, target, some []⟩ problems
  | replace {left target problems right action text problems'}
      (left_denotes : Left.Denotes xml left target problems)
      (right_denotes : Right.Denotes xml right action text problems') :
      Line.Denotes xml (.replace left right) ⟨action, target, text⟩ (problems ++ problems')

end PlainForm.Grammar

import HomeAutomaton.Rule.Template
import Mathlib.Data.List.Basic

/-!
# Event names survive quoting

The condition of a rule holds the name of its event as a literal between single quotes, inside the text of a
template. Any character can stand in a name, quotes and backslashes too, and a literal that ends early would
leave the rest of the name to be taken for a part of the expression.

A reader goes through the literal from its opening quote and takes the character behind a backslash as it is.
Where it stops does not depend on what follows: the quote that closes a literal is the first one that no
backslash takes (`literalRest?_eq_some_iff`). So what is read is known from the spelling alone, and so is that
no part of the literal is a literal.

* `Spells` says which characters between quotes stand for which text.
* `replaceChar_replaceChar` says that a name is spelt by putting backslashes before backslashes first and
  before quotes then.
* `eventCondition_literal` is the result.
-/

namespace HomeAutomaton

/-! ### Reading literals -/

/-- The characters between the quotes of a literal, and the text that they stand for: a backslash stands for
the character behind it, and any other character but a quote for itself. -/
inductive Spells : List Char → List Char → Prop
  | nil : Spells [] []
  | plain {c : Char} {body text : List Char} : c ≠ '\'' → c ≠ '\\' → Spells body text →
      Spells (c :: body) (c :: text)
  | escaped {body text : List Char} (c : Char) : Spells body text →
      Spells ('\\' :: c :: body) (c :: text)

/-- The character behind a backslash is taken as it is. -/
theorem literalRest?_escaping (c : Char) (cs : List Char) :
    literalRest? ('\\' :: c :: cs) = (literalRest? cs).map fun read => (c :: read.1, read.2) := by
  rw [literalRest?]

/-- Other characters stand for themselves. -/
theorem literalRest?_plain {c : Char} (hquote : c ≠ '\'') (hbackslash : c ≠ '\\') (cs : List Char) :
    literalRest? (c :: cs) = (literalRest? cs).map fun read => (c :: read.1, read.2) := by
  rw [literalRest?]
  · exact hquote
  · exact fun _ _ h _ => hbackslash h

/-- A literal is read up to the quote behind its spelling. -/
theorem Spells.literalRest?_eq {body text : List Char} (h : Spells body text) (rest : List Char) :
    literalRest? (body ++ '\'' :: rest) = some (text, rest) := by
  induction h with
  | nil => rw [List.nil_append, literalRest?]
  | plain hquote hbackslash _ ih => rw [List.cons_append, literalRest?_plain hquote hbackslash, ih]; rfl
  | escaped c _ ih => rw [List.cons_append, List.cons_append, literalRest?_escaping, ih]; rfl

/-- **Where a literal ends.** What is read of characters is what their start spells, up to a quote that is not
part of the spelling. -/
theorem literalRest?_eq_some_iff {cs text rest : List Char} :
    literalRest? cs = some (text, rest) ↔ ∃ body, Spells body text ∧ cs = body ++ '\'' :: rest := by
  constructor
  · intro h
    -- along the reader: at the end, at a quote, at a backslash with its character, and at any other character
    fun_induction literalRest? cs generalizing text with
    | case1 => cases h
    | case2 cs =>
      obtain ⟨rfl, rfl⟩ := Prod.mk.inj (Option.some.inj h)
      exact ⟨[], .nil, rfl⟩
    | case3 c cs ih =>
      obtain ⟨⟨read, left⟩, hread, heq⟩ := Option.map_eq_some_iff.mp h
      obtain ⟨rfl, rfl⟩ := Prod.mk.inj heq
      obtain ⟨body, hspells, rfl⟩ := ih hread
      exact ⟨'\\' :: c :: body, .escaped c hspells, rfl⟩
    | case4 c cs hquote hescape ih =>
      obtain ⟨⟨read, left⟩, hread, heq⟩ := Option.map_eq_some_iff.mp h
      obtain ⟨rfl, rfl⟩ := Prod.mk.inj heq
      obtain ⟨body, hspells, rfl⟩ := ih hread
      have hbackslash : c ≠ '\\' := by
        rintro rfl
        -- something follows, if only the closing quote
        cases body with
        | nil => exact hescape _ _ rfl rfl
        | cons d body => exact hescape _ _ rfl rfl
      exact ⟨c :: body, .plain hquote hbackslash hspells, rfl⟩
  · rintro ⟨body, hspells, rfl⟩
    exact hspells.literalRest?_eq rest

/-- What comes behind a literal is not read. -/
theorem unquoteEvent?_append {cs text rest : List Char} (h : unquoteEvent? cs = some (text, rest))
    (more : List Char) : unquoteEvent? (cs ++ more) = some (text, rest ++ more) := by
  revert h
  fun_cases unquoteEvent? cs with
  | case1 cs =>
    intro h
    obtain ⟨body, hspells, rfl⟩ := literalRest?_eq_some_iff.mp h
    rw [List.cons_append, unquoteEvent?, List.append_assoc, List.cons_append]
    exact hspells.literalRest?_eq _
  | case2 => exact nofun

/-! ### Writing literals -/

/-- Every occurrence of a character is replaced. -/
def replaceChar (c : Char) (replacement : List Char) (cs : List Char) : List Char :=
  cs.flatMap fun d => if d = c then replacement else [d]

/-- A name is spelt in two steps. The backslashes that the second one puts before quotes are not doubled. -/
theorem replaceChar_replaceChar (cs : List Char) :
    replaceChar '\'' ['\\', '\''] (replaceChar '\\' ['\\', '\\'] cs) = cs.flatMap escapeEventChar := by
  rw [replaceChar, replaceChar, List.flatMap_assoc]
  refine List.flatMap_congr fun c _ => ?_
  by_cases hbackslash : c = '\\'
  · subst hbackslash
    rfl
  · rw [if_neg hbackslash, List.flatMap_singleton, escapeEventChar]
    by_cases hquote : c = '\''
    · subst hquote
      rfl
    · rw [if_neg hquote, if_neg (not_or.mpr ⟨hbackslash, hquote⟩)]

/-- An escaped name is a spelling of the name. -/
theorem spells_flatMap_escapeEventChar (cs : List Char) : Spells (cs.flatMap escapeEventChar) cs := by
  induction cs with
  | nil => exact .nil
  | cons c cs ih =>
    rw [List.flatMap_cons, escapeEventChar]
    split
    next => exact .escaped c ih
    next hplain =>
      obtain ⟨hbackslash, hquote⟩ := not_or.mp hplain
      exact .plain hquote hbackslash ih

/-! ### The condition -/

/-- What the template of a condition on the event starts with. -/
def eventTemplateStart : List Char := "\x7b\x7b trigger.event.data.event == ".toList

/-- What it ends with. -/
def eventTemplateEnd : List Char := " \x7d\x7d".toList

/-- The condition whose template holds a literal with this spelling. -/
def literalCondition (body : List Char) : Data :=
  .ofFields [("condition", .str "template"),
    ("value_template", .str (String.ofList
      (eventTemplateStart ++ '\'' :: body ++ '\'' :: eventTemplateEnd)))]

/-- The condition holds the literal of the escaped name. -/
theorem eventCondition_eq (event : String) :
    eventCondition event = literalCondition (event.toList.flatMap escapeEventChar) := by
  have hstart : eventTemplateStart = "\x7b\x7b ".toList ++ "trigger.event.data.event == ".toList := by decide
  have htext : templateText (eventExpression event) = String.ofList
      (eventTemplateStart ++ '\'' :: event.toList.flatMap escapeEventChar ++ '\'' :: eventTemplateEnd) := by
    apply String.toList_inj.mp
    rw [String.toList_ofList, hstart]
    unfold templateText eventExpression quoteEvent eventTemplateEnd
    simp only [String.toList_append, String.toList_ofList]
    generalize "\x7b\x7b ".toList = braces
    generalize "trigger.event.data.event == ".toList = comparison
    simp
  rw [eventCondition, templateCondition, htext, literalCondition]

/-- The spelling is told by the condition. -/
theorem literalCondition_injective {body body' : List Char}
    (h : literalCondition body = literalCondition body') : body = body' := by
  rw [literalCondition, literalCondition] at h
  -- which texts stand around the literal does not matter
  generalize eventTemplateStart = start at h
  generalize eventTemplateEnd = stop at h
  simp only [Data.ofFields, List.map_cons, List.map_nil, Data.map.injEq, List.cons.injEq, Prod.mk.injEq,
    Data.str.injEq, String.ofList_inj, true_and, and_true, List.append_left_inj] at h
  exact (List.cons.inj (List.append_cancel_left h)).2

/-- **Event names survive quoting.** The template of a condition is one literal between two texts that are
always the same. The literal spells the name: it is made by putting backslashes before backslashes and then
before quotes. Read from its opening quote, it ends at its last quote, whatever follows, and gives the name.
Nothing that it starts with is a literal: any quote that is read as its end is its last character. Conditions
of different events are different. -/
theorem eventCondition_literal (event : String) :
    ∃ body, eventCondition event = literalCondition body ∧ Spells body event.toList ∧
      body = replaceChar '\'' ['\\', '\''] (replaceChar '\\' ['\\', '\\'] event.toList) ∧
      (∀ rest, unquoteEvent? ('\'' :: body ++ '\'' :: rest) = some (event.toList, rest)) ∧
      (∀ start more, '\'' :: body ++ ['\''] = start ++ more → more ≠ [] → unquoteEvent? start = none) ∧
      ∀ other, eventCondition other = eventCondition event ↔ other = event := by
  have hspells := spells_flatMap_escapeEventChar event.toList
  have hread : ∀ rest, unquoteEvent? ('\'' :: event.toList.flatMap escapeEventChar ++ '\'' :: rest) =
      some (event.toList, rest) := by
    intro rest
    rw [List.cons_append, unquoteEvent?, hspells.literalRest?_eq]
  -- no part of the literal is one, and equal conditions are for equal names
  refine ⟨event.toList.flatMap escapeEventChar, eventCondition_eq event, hspells,
    (replaceChar_replaceChar _).symm, hread, fun start more hsplit hmore => ?_, fun other => ⟨fun h => ?_, ?_⟩⟩
  · by_contra hsome
    obtain ⟨⟨text, rest⟩, hstart⟩ := Option.ne_none_iff_exists'.mp hsome
    -- the whole literal would be read in the same way, and then something of it were left
    have hearly := unquoteEvent?_append hstart more
    rw [← hsplit, hread []] at hearly
    obtain ⟨-, hleft⟩ := Prod.mk.inj (Option.some.inj hearly)
    exact hmore (List.append_eq_nil_iff.mp hleft.symm).2
  · rw [eventCondition_eq, eventCondition_eq] at h
    have hsame := (spells_flatMap_escapeEventChar other.toList).literalRest?_eq []
    rw [literalCondition_injective h, hspells.literalRest?_eq] at hsame
    obtain ⟨htext, -⟩ := Prod.mk.inj (Option.some.inj hsame)
    exact (String.toList_inj.mp htext).symm
  · rintro rfl
    rfl

example : quoteEvent "it's \\'" = "'it\\'s \\\\\\''" := by decide

end HomeAutomaton

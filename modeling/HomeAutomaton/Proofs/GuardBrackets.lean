import HomeAutomaton.Proofs.ChoiceGraph
import Mathlib.Data.List.DropRight
import Mathlib.Data.List.Infix

/-!
# The brackets around guards

A diagram shows a guard in brackets, and the predicate of a guard is what stands between them. Brackets also
belong to expressions, and a guard need not stand in brackets at all: `doors[0]` ends with a bracket that is part
of it. The two ends of a guard are looked at one by one. If there are brackets at both ends, or at neither, the
predicate is what it should be (`Unwraps`). A bracket at one end alone (`LoneBracket`) is lost, and then a guard
that is not in brackets does not keep its text, and if its brackets were balanced they no longer are.

* `Text.exists_blanks_around`, `Text.not_isBlank_of_trimChars_eq_cons` and
  `Text.not_isBlank_of_trimChars_eq_concat` are all that is needed to know of trimming.
* `bracket_cases` says which brackets there may be at the ends of a text.
* `guardPredicate_unwraps` is about a single guard.
* `Scope.exists_decision_of_inside` says of which choice a decision is, at any depth of a resolved transition, and
  `Scope.alternatives_unwrapped` is the result. `Scope.index_guard_cut` is a garage whose doors are counted.
-/

namespace HomeAutomaton

/-! ### Trimming -/

namespace Text

variable {cs us : List Char} {c : Char}

/-- Nothing but blanks is trimmed. -/
theorem exists_blanks_around (cs : List Char) :
    ∃ before after, (∀ c ∈ before, isBlank c = true) ∧ (∀ c ∈ after, isBlank c = true) ∧
      cs = before ++ trimChars cs ++ after := by
  refine ⟨cs.takeWhile isBlank, (trimStart cs).rtakeWhile isBlank, ?_, ?_, ?_⟩
  · exact fun c hc => List.mem_takeWhile_imp hc
  · exact fun c hc => List.mem_rtakeWhile_imp hc
  · have hend : trimChars cs ++ (trimStart cs).rtakeWhile isBlank = trimStart cs :=
      List.rdropWhile_append_rtakeWhile
    rw [List.append_assoc, hend]
    exact List.takeWhile_append_dropWhile.symm

/-- Nothing is left of a text of blanks. -/
theorem trimChars_eq_nil_iff : trimChars cs = [] ↔ ∀ c ∈ cs, isBlank c = true := by
  constructor
  · intro hnil
    obtain ⟨before, after, hbefore, hafter, hcs⟩ := exists_blanks_around cs
    rw [hcs, hnil, List.append_nil]
    exact List.forall_mem_append.mpr ⟨hbefore, hafter⟩
  · intro hblank
    have hstart : trimStart cs = [] := List.dropWhile_eq_nil_iff.mpr hblank
    rw [trimChars, hstart]
    rfl

/-- A trimmed text does not start with a blank. -/
theorem not_isBlank_of_trimChars_eq_cons (h : trimChars cs = c :: us) : isBlank c = false := by
  -- it starts where the text starts behind its leading blanks
  have hhead : (cs.dropWhile isBlank).head? = some c := by
    obtain ⟨after, hafter⟩ : trimChars cs <+: trimStart cs := List.rdropWhile_prefix isBlank _
    change (trimStart cs).head? = some c
    rw [← hafter, h]
    rfl
  have hnot := List.head?_dropWhile_not isBlank cs
  rw [hhead] at hnot
  exact hnot

/-- A trimmed text does not end with a blank. -/
theorem not_isBlank_of_trimChars_eq_concat (h : trimChars cs = us ++ [c]) : isBlank c = false := by
  have hagain : (trimChars cs).rdropWhile isBlank = trimChars cs := List.rdropWhile_idempotent _ _
  by_contra hblank
  rw [h, List.rdropWhile_concat_pos _ _ _ (by simpa using hblank)] at hagain
  -- nothing that is left of the rest is longer than it
  have hlength := (List.rdropWhile_prefix isBlank us).length_le
  rw [hagain, List.length_append, List.length_singleton] at hlength
  omega

/-- A text without blanks at its ends is trimmed. -/
theorem trimChars_eq_self (hhead : ∀ c ∈ cs.head?, isBlank c = false)
    (hlast : ∀ hne : cs ≠ [], isBlank (cs.getLast hne) = false) : trimChars cs = cs := by
  have hstart : trimStart cs = cs := by
    cases cs with
    | nil => rfl
    | cons c cs => exact List.dropWhile_cons_of_neg (by simp [hhead c rfl])
  rw [trimChars, hstart]
  exact List.rdropWhile_eq_self_iff.mpr fun hne => by simp [hlast hne]

theorem trimChars_trimChars (cs : List Char) : trimChars (trimChars cs) = trimChars cs := by
  apply trimChars_eq_self
  · intro c hc
    obtain ⟨us, hus⟩ := List.head?_eq_some_iff.mp hc
    exact not_isBlank_of_trimChars_eq_cons hus
  · intro hne
    exact not_isBlank_of_trimChars_eq_concat (List.dropLast_append_getLast hne).symm

/-- What is no blank occurs as often after trimming. -/
theorem count_trimChars (hc : isBlank c = false) : (trimChars cs).count c = cs.count c := by
  obtain ⟨before, after, hbefore, hafter, hcs⟩ := exists_blanks_around cs
  have hnone : ∀ blanks : List Char, (∀ d ∈ blanks, isBlank d = true) → blanks.count c = 0 := by
    intro blanks hblanks
    refine List.count_eq_zero.mpr fun hmem => ?_
    rw [hblanks c hmem] at hc
    cases hc
  conv_rhs => rw [hcs]
  rw [List.count_append, List.count_append, hnone before hbefore, hnone after hafter, Nat.zero_add,
    Nat.add_zero]

end Text

open Text

/-! ### One guard -/

variable {cs us : List Char}

/-- The text stands in brackets. -/
def Enclosed (cs : List Char) : Prop := ∃ us, cs = '[' :: us ++ [']']

/-- There is a bracket at one end of the text and none at the other, and this is left without it. -/
inductive LoneBracket : List Char → List Char → Prop where
  | opening {us : List Char} (hlast : us.getLast? ≠ some ']') : LoneBracket ('[' :: us) us
  | closing {us : List Char} (hhead : us.head? ≠ some '[') : LoneBracket (us ++ [']']) us

/-- Without a bracket at the start nothing is dropped there. -/
theorem dropOpening_of_head?_ne (h : cs.head? ≠ some '[') : dropOpening cs = cs := by
  unfold dropOpening
  split
  next => exact absurd rfl h
  next => rfl

/-- A bracket at the end is dropped. -/
theorem dropClosing_concat (us : List Char) : dropClosing (us ++ [']']) = us := by
  rw [dropClosing, if_pos List.getLast?_concat, List.dropLast_concat]

/-- Of a text in brackets what stands between them is left. -/
theorem dropBrackets_enclosed (us : List Char) : dropClosing (dropOpening ('[' :: us ++ [']'])) = us :=
  dropClosing_concat us

/-- A lone bracket is dropped like two. -/
theorem LoneBracket.dropBrackets (h : LoneBracket cs us) : dropClosing (dropOpening cs) = us := by
  cases h with
  | opening hlast => exact if_neg hlast
  | closing hhead =>
    have hopening : (us ++ [']']).head? ≠ some '[' := by
      cases us with
      | nil => decide
      | cons c us => exact hhead
    rw [dropOpening_of_head?_ne hopening, dropClosing_concat]

/-- Where there is a bracket at one end alone, there are not two. -/
theorem LoneBracket.not_enclosed (h : LoneBracket cs us) : ¬ Enclosed cs := by
  rintro ⟨inner, hinner⟩
  cases h with
  | opening hlast =>
    obtain ⟨-, rfl⟩ := List.cons.inj hinner
    exact hlast List.getLast?_concat
  | closing hhead =>
    obtain ⟨rfl, -⟩ := List.append_inj' hinner rfl
    exact hhead rfl

/-- Every text is of one of the four forms: with two brackets, with one or the other, and with none. -/
theorem bracket_cases (cs : List Char) :
    Enclosed cs ∨ (∃ us, LoneBracket cs us) ∨ cs.head? ≠ some '[' ∧ cs.getLast? ≠ some ']' := by
  -- both ends are looked at; a single bracket is not at both
  by_cases hhead : cs.head? = some '['
  · obtain ⟨rest, rfl⟩ := List.head?_eq_some_iff.mp hhead
    by_cases hlast : rest.getLast? = some ']'
    · obtain ⟨us, rfl⟩ := List.getLast?_eq_some_iff.mp hlast
      exact .inl ⟨us, rfl⟩
    · exact .inr (.inl ⟨rest, .opening hlast⟩)
  · by_cases hlast : cs.getLast? = some ']'
    · obtain ⟨us, rfl⟩ := List.getLast?_eq_some_iff.mp hlast
      refine .inr (.inl ⟨us, .closing fun hus => hhead ?_⟩)
      rw [List.head?_append, hus]
      rfl
    · exact .inr (.inr ⟨hhead, hlast⟩)

/-- No part of the text from its start closes more brackets than it opens, and the whole text closes as many as
it opens. -/
def Balanced (cs : List Char) : Prop :=
  (∀ start ∈ cs.inits, start.count ']' ≤ start.count '[') ∧ cs.count '[' = cs.count ']'

instance (cs : List Char) : Decidable (Balanced cs) := inferInstanceAs (Decidable (_ ∧ _))

/-- A text and what is left of it without a lone bracket are not both balanced. -/
theorem LoneBracket.not_balanced (h : LoneBracket cs us) (hcs : Balanced cs) : ¬ Balanced (trimChars us) := by
  rintro ⟨-, hus⟩
  rw [count_trimChars (by decide), count_trimChars (by decide)] at hus
  have hcount := hcs.2
  cases h with
  | opening => simp [hus] at hcount
  | closing => simp [hus] at hcount

/-- Something is missing without a lone bracket. -/
theorem LoneBracket.trimChars_ne (h : LoneBracket cs us) : trimChars us ≠ cs := by
  intro heq
  -- trimming would not lose the bracket
  have hcount : ∀ c, isBlank c = false → us.count c = cs.count c := by
    intro c hc
    rw [← heq, count_trimChars hc]
  cases h with
  | opening =>
    have hmore := hcount '[' (by decide)
    rw [List.count_cons_self] at hmore
    omega
  | closing =>
    have hmore := hcount ']' (by decide)
    rw [List.count_append, List.count_singleton_self] at hmore
    omega

/-- **How a predicate comes from the text of a guard**, the text without the blanks around it. Between brackets
stands the predicate. A lone bracket is dropped too. A text that does not stand in brackets is kept, and its
brackets stay balanced if they were, exactly if there is no lone bracket. -/
structure Unwraps (text predicate : List Char) : Prop where
  enclosed : ∀ us, text = '[' :: us ++ [']'] → predicate = trimChars us
  lone : ∀ us, LoneBracket text us → predicate = trimChars us
  kept_iff : ¬ Enclosed text → (predicate = text ↔ ∀ us, ¬ LoneBracket text us)
  balanced_iff : ¬ Enclosed text → Balanced text → (Balanced predicate ↔ ∀ us, ¬ LoneBracket text us)

theorem toList_guardPredicate (guard : String) : (guardPredicate guard).toList
    = trimChars (dropClosing (dropOpening (trimChars guard.toList))) := String.toList_ofList

/-- **The predicate of a guard is its text without brackets.** -/
theorem guardPredicate_unwraps (guard : String) :
    Unwraps (trimChars guard.toList) (guardPredicate guard).toList := by
  have hagain := trimChars_trimChars guard.toList
  rw [toList_guardPredicate]
  generalize trimChars guard.toList = text at hagain ⊢
  have hlone : ∀ us, LoneBracket text us → trimChars (dropClosing (dropOpening text)) = trimChars us :=
    fun us h => by rw [h.dropBrackets]
  -- where there are no brackets nothing is dropped
  have hkept : ¬ Enclosed text → (∀ us, ¬ LoneBracket text us) →
      trimChars (dropClosing (dropOpening text)) = text := by
    intro hopen hnone
    rcases bracket_cases text with h | ⟨us, h⟩ | ⟨hhead, hlast⟩
    · exact absurd h hopen
    · exact absurd h (hnone us)
    · rw [dropOpening_of_head?_ne hhead, dropClosing, if_neg hlast, hagain]
  refine ⟨?_, hlone, fun hopen => ⟨fun heq us h => ?_, hkept hopen⟩,
    fun hopen hbalanced => ⟨fun hleft us h => ?_, fun hnone => ?_⟩⟩
  · rintro us rfl
    rw [dropBrackets_enclosed]
  · rw [hlone us h] at heq
    exact h.trimChars_ne heq
  · rw [hlone us h] at hleft
    exact h.not_balanced hbalanced hleft
  · rw [hkept hopen hnone]
    exact hbalanced

/-! ### The guards of a decision -/

/-- The expressions of the conditions of an alternative, as it is written. -/
def Data.expressions (d : Data) : List (Option String) := d.conditions.map conditionExpression?

/-- What holds of each transition and its alternative holds of the alternative as it is written: its only
condition is a template, and the expression in it is the predicate. -/
theorem forall₂_optionsData (machineId : String) {R : Transition → String × List Action → Prop}
    {S : Transition → Data → Prop} {bs : List Transition} {options : List (String × List Action)}
    (h : List.Forall₂ R bs options)
    (hwritten : ∀ b o d, R b o → d.expressions = [some o.1] → S b d) :
    List.Forall₂ S bs (Action.optionsData machineId options) := by
  induction h with
  | nil => exact .nil
  | @cons b o _ _ hbo _ ih =>
    rw [Action.optionsData]
    refine .cons (hwritten b o _ hbo ?_) ih
    change [conditionExpression? (templateCondition o.1)] = [some o.1]
    rw [conditionExpression?_templateCondition]

namespace Scope

variable {scope : Scope}

/-- Every decision in a resolved transition, at any depth, is made at the choice that the transition of its list
leads to. -/
theorem exists_decision_of_inside {t : Transition} {actions inner : List Action}
    {predicates : List (Option String)} {options : List (String × List Action)}
    {default? : Option (List Action)} (hactions : (scope.resolve t).result = .ok actions)
    (hinside : Action.Inside actions predicates inner) (hdecision : .choose options default? ∈ inner) :
    ∃ turns last choice, scope.Leads t actions turns last inner ∧ turns.map (·.predicate?) = predicates ∧
      scope.ComesTo last choice ∧
      scope.DecidedAt (visitedAfter [] turns) choice options default? := by
  rw [resolve_eq] at hactions
  obtain ⟨turns, last, hleads, hpredicates⟩ := exists_leads_of_inside [] hactions hinside
  obtain ⟨resolved, hinner, hresolved⟩ := descend_of_leads [] hactions hleads
  rw [hinner] at hdecision
  obtain ⟨choice, hfind, hdecided⟩ := decidedAt_of_choose _ hresolved hdecision
  exact ⟨turns, last, choice, hleads, hpredicates, ⟨hfind, hdecided.kind⟩, hdecided⟩

/-- The alternatives of a decision are written in the order of the transitions with a guard out of its choice,
each under the predicate of the guard. -/
theorem DecidedAt.alternatives_written {visited : List Data} {choice : Node}
    {options : List (String × List Action)} {default? : Option (List Action)}
    (h : scope.DecidedAt visited choice options default?) (machineId : String) :
    List.Forall₂ (fun b d => ∃ guard, b.attr? "Guard" = some guard ∧
        d.expressions = [some (guardPredicate guard)])
      (scope.guardedArms choice) (Action.optionsData machineId options) := by
  -- the alternatives are those of transitions with a guard
  have hguards : ∀ b ∈ scope.guardedArms choice, (b.attr? "Guard").isSome = true :=
    fun b hb => (List.mem_filter.mp hb).2
  refine forall₂_optionsData machineId ((List.forall₂_and_left _ _).mpr ⟨hguards, h.alternatives⟩) ?_
  rintro b o d ⟨hsome, hpredicate, -⟩ hd
  obtain ⟨guard, hguard⟩ := Option.isSome_iff_exists.mp hsome
  refine ⟨guard, hguard, ?_⟩
  rw [hd, hpredicate, predicateOf, hguard, Option.getD_some]

/-- **What is left of guards.** Every decision in a resolved transition, at any depth, has the transitions with a
guard out of its choice for its alternatives, in their order. The only condition of an alternative is a template,
and the expression in it is what stands in the brackets around the guard. If there are none around it, then it is
the guard as it is, unless there is a bracket at one end, which is dropped. -/
theorem alternatives_unwrapped (scope : Scope) {t : Transition} {actions inner : List Action}
    {predicates : List (Option String)} {options : List (String × List Action)}
    {default? : Option (List Action)} (hactions : (scope.resolve t).result = .ok actions)
    (hinside : Action.Inside actions predicates inner) (hdecision : .choose options default? ∈ inner)
    (machineId : String) :
    ∃ turns last choice, scope.Leads t actions turns last inner ∧ turns.map (·.predicate?) = predicates ∧
      scope.ComesTo last choice ∧
      List.Forall₂ (fun b d => ∃ guard predicate, b.attr? "Guard" = some guard ∧
          d.expressions = [some predicate] ∧ Unwraps (trimChars guard.toList) predicate.toList)
        (scope.guardedArms choice) (Action.optionsData machineId options) := by
  obtain ⟨turns, last, choice, hleads, hpredicates, hto, hdecided⟩ :=
    exists_decision_of_inside hactions hinside hdecision
  refine ⟨turns, last, choice, hleads, hpredicates, hto, ?_⟩
  refine (hdecided.alternatives_written machineId).imp ?_
  rintro b d ⟨guard, hguard, hd⟩
  exact ⟨guard, _, hguard, hd, guardPredicate_unwraps guard⟩

/-! ### A garage -/

/-- What is asked when somebody pushes the button of a garage. -/
def askChoice : Node := { kind := .choice, path := .str "/ask" }

/-- The button is pushed. -/
def garagePush : Transition := { kind := .external, src := .str "/shut", dst := .str "/ask" }

/-- The garage is opened, under a guard. -/
def liftArm (guard : String) : Transition where
  kind := .external
  src := .str "/ask"
  dst := .str "/open"
  attributes := [(.str "Guard", .str guard)]

/-- The garage stays shut. -/
def stayArm : Transition := { kind := .external, src := .str "/ask", dst := .str "/shut" }

/-- A garage that is opened under a guard, and otherwise stays shut. -/
def garageScope (guard : String) : Scope where
  machine :=
    { nodes := [{ kind := .stateMachine, path := .str "/garage", name := "Garage" },
        { kind := .state, path := .str "/shut" }, { kind := .state, path := .str "/open" }, askChoice]
      distinct := by simp [DistinctPaths, askChoice]
      transitions := [garagePush, liftArm guard, stayArm] }
  identifiers := [(.str "/shut", "shut"), (.str "/open", "open")]

/-- A push comes to one decision, under the predicate of the guard. -/
theorem resolve_garagePush (guard predicate : String)
    (h : ((((garageScope guard).resolve garagePush).result.toOption.map fun actions =>
      loneOption? actions == some predicate) = some true)) :
    ∃ lift stay, ((garageScope guard).resolve garagePush).result
      = .ok [.choose [(predicate, lift)] (some stay)] := by
  obtain ⟨actions, hactions, hlone⟩ := Returns.of_check h
  obtain ⟨lift, stay, rfl⟩ := eq_of_loneOption? (eq_of_beq hlone)
  exact ⟨lift, stay, hactions⟩

/-- A guard in brackets loses these and keeps the ones in it. -/
theorem alternatives_unwrapped_garage :
    ∃ lift stay, ((garageScope " [doors[0]]").resolve garagePush).result
        = .ok [.choose [("doors[0]", lift)] (some stay)] ∧
      Action.Inside [.choose [("doors[0]", lift)] (some stay)] [] [.choose [("doors[0]", lift)] (some stay)] ∧
      ∃ turns last choice, (garageScope " [doors[0]]").Leads garagePush
          [.choose [("doors[0]", lift)] (some stay)] turns last [.choose [("doors[0]", lift)] (some stay)] ∧
        turns.map (·.predicate?) = [] ∧ (garageScope " [doors[0]]").ComesTo last choice ∧
        List.Forall₂ (fun b d => ∃ guard predicate, b.attr? "Guard" = some guard ∧
            d.expressions = [some predicate] ∧ Unwraps (trimChars guard.toList) predicate.toList)
          ((garageScope " [doors[0]]").guardedArms choice)
          (Action.optionsData "garage" [("doors[0]", lift)]) := by
  obtain ⟨lift, stay, hpush⟩ :=
    resolve_garagePush " [doors[0]]" "doors[0]" (by decide +kernel)
  exact ⟨lift, stay, hpush, .here _,
    alternatives_unwrapped _ hpush (.here _) List.mem_cons_self "garage"⟩

/-- A guard that ends with an index, and is not in brackets, loses the bracket behind the index. -/
theorem index_guard_cut :
    ∃ lift stay, ((garageScope "doors[0]").resolve garagePush).result
        = .ok [.choose [("doors[0", lift)] (some stay)] ∧
      (garageScope "doors[0]").guardedArms askChoice = [liftArm "doors[0]"] ∧
      ¬ Enclosed (trimChars "doors[0]".toList) ∧ Balanced (trimChars "doors[0]".toList) ∧
      trimChars "doors[0]".toList ≠ "doors[0".toList ∧ ¬ Balanced "doors[0".toList := by
  obtain ⟨lift, stay, hpush⟩ :=
    resolve_garagePush "doors[0]" "doors[0" (by decide +kernel)
  refine ⟨lift, stay, hpush, rfl, ?_, by decide +kernel, by decide +kernel, by decide +kernel⟩
  rintro ⟨us, hus⟩
  have hhead : (trimChars "doors[0]".toList).head? ≠ some '[' := by decide +kernel
  rw [hus] at hhead
  exact hhead rfl

end Scope

end HomeAutomaton

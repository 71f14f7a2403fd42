import HomeAutomaton.Data.Lists
import HomeAutomaton.Proofs.GuardBrackets
import HomeAutomaton.Proofs.NormalForm

/-!
# Guards of which nothing is left

Whether a transition out of a choice has a guard is decided by the text of the guard as it stands: it has one
unless the text is missing or blank. The predicate is what is left without brackets. The two do not agree on a
guard that has nothing but brackets, and perhaps blanks in them: its transition counts as one with a guard, under
a predicate that is blank, and does not become the default even if it is the first that could be.

* `Hollow` says which texts these are, and `isBlankText_guardPredicate_iff` that no other predicate is blank.
* `Scope.SplitsByPredicate` is the split that goes by the predicates, and `Scope.splitsByPredicate_iff` says at
  which choices it is made.
* `Scope.alternatives_filled_iff` is the result. `Scope.hollow_guard_kept` is a garage with an empty guard.
-/

namespace HomeAutomaton

open Text

variable {cs us : List Char} {guard : String}

/-! ### What is left of a guard -/

/-- There is nothing in the text but a bracket, or two brackets with blanks between them. -/
inductive Hollow : List Char → Prop where
  | opening : Hollow ['[']
  | closing : Hollow [']']
  | both {us : List Char} (hblank : ∀ c ∈ us, isBlank c = true) : Hollow ('[' :: us ++ [']'])

/-- Between two brackets there are blanks. -/
theorem hollow_enclosed_iff : Hollow ('[' :: us ++ [']']) ↔ ∀ c ∈ us, isBlank c = true := by
  constructor
  · intro h
    generalize hcs : '[' :: us ++ [']'] = cs at h
    cases h with
    | opening => simp at hcs
    | closing => simp at hcs
    | @both vs hblank =>
      obtain rfl : us = vs := List.append_inj_left' (List.cons.inj hcs).2 rfl
      exact hblank
  · exact .both

/-- A hollow text has a bracket at one end at least. -/
theorem Hollow.bracket (h : Hollow cs) : cs.head? = some '[' ∨ cs.getLast? = some ']' := by
  cases h with
  | opening => exact .inl rfl
  | closing => exact .inr rfl
  | both => exact .inl rfl

theorem LoneBracket.ne_nil (h : LoneBracket cs us) : cs ≠ [] := by
  cases h with
  | opening => exact List.cons_ne_nil _ _
  | closing => exact List.concat_ne_nil _ _

/-- With a lone bracket, a trimmed text is hollow if there is nothing else in it but blanks. -/
theorem LoneBracket.hollow_iff (h : LoneBracket (trimChars cs) us) :
    Hollow (trimChars cs) ↔ ∀ c ∈ us, isBlank c = true := by
  generalize htext : trimChars cs = text at h ⊢
  constructor
  · intro hhollow
    have hus := h.dropBrackets
    cases hhollow with
    | opening =>
      obtain rfl : [] = us := hus
      exact List.forall_mem_nil _
    | closing =>
      obtain rfl : [] = us := hus
      exact List.forall_mem_nil _
    | @both vs => exact absurd ⟨vs, rfl⟩ h.not_enclosed
  · intro hblank
    -- the blanks would stand at an end of the text, which is trimmed, so there are none
    cases h with
    | opening =>
      rcases List.eq_nil_or_concat' us with rfl | ⟨vs, c, rfl⟩
      · exact .opening
      · have hc := not_isBlank_of_trimChars_eq_concat (htext.trans (List.cons_append ..).symm)
        rw [hblank c (by simp)] at hc
        cases hc
    | closing =>
      cases us with
      | nil => exact .closing
      | cons c vs =>
        have hc := not_isBlank_of_trimChars_eq_cons (htext.trans (List.cons_append ..))
        rw [hblank c List.mem_cons_self] at hc
        cases hc

/-- A text is blank if all its characters are. -/
theorem isBlankText_iff {s : String} : isBlankText s = true ↔ ∀ c ∈ s.toList, isBlank c = true := by
  rw [isBlankText, List.all_eq_true]

/-- **Which predicates are blank**: those of blank guards and of hollow ones. -/
theorem isBlankText_guardPredicate_iff :
    isBlankText (guardPredicate guard) = true ↔
      isBlankText guard = true ∨ Hollow (trimChars guard.toList) := by
  have hleft : isBlankText (guardPredicate guard) = true ↔
      ∀ c ∈ dropClosing (dropOpening (trimChars guard.toList)), isBlank c = true := by
    rw [isBlankText_iff, ← trimChars_eq_nil_iff, toList_guardPredicate, trimChars_trimChars,
      trimChars_eq_nil_iff]
  have hguard : isBlankText guard = true ↔ trimChars guard.toList = [] := by
    rw [isBlankText_iff, trimChars_eq_nil_iff]
  rw [hleft, hguard]
  -- brackets at both ends, at one end, or at none
  rcases bracket_cases (trimChars guard.toList) with ⟨us, h⟩ | ⟨us, h⟩ | ⟨hhead, hlast⟩
  · rw [h, dropBrackets_enclosed, hollow_enclosed_iff]
    simp
  · rw [h.dropBrackets, h.hollow_iff, or_iff_right h.ne_nil]
  · -- without brackets the whole text is left
    have hnot : ¬ Hollow (trimChars guard.toList) := by
      intro h
      rcases h.bracket with h | h
      · exact hhead h
      · exact hlast h
    rw [dropOpening_of_head?_ne hhead, dropClosing, if_neg hlast, or_iff_left hnot, ← trimChars_eq_nil_iff,
      trimChars_trimChars]

namespace Scope

variable {scope : Scope} {choice : Node}

/-! ### The split at a choice -/

/-- The transitions out of a choice are split by what is left of their guards: those of whose guard something is
left are the alternatives, and the first of the others is the default. -/
structure SplitsByPredicate (scope : Scope) (choice : Node) : Prop where
  alternatives : scope.guardedArms choice =
    (scope.machine.outgoing choice.path (some [.external])).filter fun b => !isBlankText (predicateOf b)
  default : scope.defaultArm? choice =
    (scope.machine.outgoing choice.path (some [.external])).find? fun b => isBlankText (predicateOf b)

/-- No transition out of the choice has a hollow guard. -/
def NoneHollow (scope : Scope) (choice : Node) : Prop :=
  ∀ b ∈ scope.machine.outgoing choice.path (some [.external]), ∀ guard, b.attr? "Guard" = some guard →
    ¬ Hollow (trimChars guard.toList)

/-- The predicate of a guard is blank if the guard is hollow. A guard that is there is not blank itself. -/
theorem isBlankText_predicateOf_iff {b : Transition} (h : b.attr? "Guard" = some guard) :
    isBlankText (predicateOf b) = true ↔ Hollow (trimChars guard.toList) := by
  have hfilled : ¬ isBlankText guard = true := by
    rw [not_isBlankText_of_textAttribute? h]
    exact Bool.false_ne_true
  rw [predicateOf, h, Option.getD_some, isBlankText_guardPredicate_iff, or_iff_right hfilled]

/-- Of a transition without a guard the predicate is blank. -/
theorem isBlankText_predicateOf_of_none {b : Transition} (h : b.attr? "Guard" = none) :
    isBlankText (predicateOf b) = true := by
  rw [predicateOf, h]
  rfl

/-- **The split goes by the predicates** exactly where no guard is hollow. -/
theorem splitsByPredicate_iff (scope : Scope) (choice : Node) :
    scope.SplitsByPredicate choice ↔ scope.NoneHollow choice := by
  constructor
  · intro hsplit b hb guard hguard hhollow
    -- it has a guard, and so would have to have a predicate
    have hmem : b ∈ scope.guardedArms choice := List.mem_filter.mpr ⟨hb, by rw [hguard]; rfl⟩
    rw [hsplit.alternatives] at hmem
    have hfilled := (List.mem_filter.mp hmem).2
    rw [(isBlankText_predicateOf_iff hguard).mpr hhollow] at hfilled
    cases hfilled
  · intro hnone
    have hagree : ∀ b ∈ scope.machine.outgoing choice.path (some [.external]),
        (b.attr? "Guard").isSome = !isBlankText (predicateOf b) := by
      intro b hb
      cases hguard : b.attr? "Guard" with
      | none => rw [isBlankText_predicateOf_of_none hguard]; rfl
      | some guard =>
        have hfilled := mt (isBlankText_predicateOf_iff hguard).mp (hnone b hb guard hguard)
        rw [Bool.eq_false_iff.mpr hfilled]
        rfl
    refine ⟨List.filter_congr hagree, List.find?_congr fun b hb => ?_⟩
    rw [isNone_guard_eq, hagree b hb, Bool.not_not]

/-- All alternatives of a choice have something left of their guards exactly if no guard is hollow. -/
theorem forall_guardedArms_iff (scope : Scope) (choice : Node) :
    (∀ b ∈ scope.guardedArms choice, ∀ guard, b.attr? "Guard" = some guard →
      ¬ Hollow (trimChars guard.toList)) ↔ scope.NoneHollow choice := by
  constructor
  · intro harms b hb guard hguard
    exact harms b (List.mem_filter.mpr ⟨hb, by rw [hguard]; rfl⟩) guard hguard
  · intro hnone b hb
    exact hnone b (List.mem_filter.mp hb).1

/-! ### Decisions -/

/-- **Where alternatives have predicates.** Every decision in a resolved transition, at any depth, has the
transitions out of its choice that have a guard for its alternatives, and the first of the others for its
default. The predicate of an alternative is blank exactly if the guard is hollow. So all predicates are there
exactly if the choice has no transition with a hollow guard, and these are the choices, of all that there are, at
which the transitions are split by their predicates. -/
theorem alternatives_filled_iff (scope : Scope) {t : Transition} {actions inner : List Action}
    {predicates : List (Option String)} {options : List (String × List Action)}
    {default? : Option (List Action)} (hactions : (scope.resolve t).result = .ok actions)
    (hinside : Action.Inside actions predicates inner) (hdecision : .choose options default? ∈ inner)
    (machineId : String) :
    (∃ turns last choice, scope.Leads t actions turns last inner ∧ turns.map (·.predicate?) = predicates ∧
      scope.ComesTo last choice ∧ scope.DecidedAt (visitedAfter [] turns) choice options default? ∧
      List.Forall₂ (fun b d => ∃ guard predicate, b.attr? "Guard" = some guard ∧
          d.expressions = [some predicate] ∧
          (isBlankText predicate = true ↔ Hollow (trimChars guard.toList)))
        (scope.guardedArms choice) (Action.optionsData machineId options) ∧
      ((∀ d ∈ Action.optionsData machineId options, ∃ predicate,
          d.expressions = [some predicate] ∧ isBlankText predicate = false) ↔ scope.NoneHollow choice)) ∧
    ∀ choice, scope.SplitsByPredicate choice ↔ scope.NoneHollow choice := by
  obtain ⟨turns, last, choice, hleads, hpredicates, hto, hdecided⟩ :=
    exists_decision_of_inside hactions hinside hdecision
  -- the predicate of an alternative is what is left of its guard
  have hwritten : List.Forall₂ (fun b d => ∃ guard predicate, b.attr? "Guard" = some guard ∧
      d.expressions = [some predicate] ∧ (isBlankText predicate = true ↔ Hollow (trimChars guard.toList)))
      (scope.guardedArms choice) (Action.optionsData machineId options) := by
    refine (hdecided.alternatives_written machineId).imp ?_
    rintro b d ⟨guard, hguard, hd⟩
    refine ⟨guard, _, hguard, hd, ?_⟩
    have hiff := isBlankText_predicateOf_iff hguard
    rwa [predicateOf, hguard, Option.getD_some] at hiff
  refine ⟨⟨turns, last, choice, hleads, hpredicates, hto, hdecided, hwritten, ?_⟩,
    splitsByPredicate_iff scope⟩
  rw [← forall_guardedArms_iff]
  constructor
  -- an alternative and its transition are found at one place
  · intro hall b hb guard hguard hhollow
    obtain ⟨d, hd, guard', predicate, hguard', hexpressions, hiff⟩ := exists_of_mem_right hwritten.flip hb
    obtain ⟨filled, hfilled, hnot⟩ := hall d hd
    obtain rfl := Option.some.inj (hguard.symm.trans hguard')
    obtain rfl := Option.some.inj (List.singleton_inj.mp (hexpressions.symm.trans hfilled))
    rw [hiff.mpr hhollow] at hnot
    cases hnot
  · intro hall d hd
    obtain ⟨b, hb, guard, predicate, hguard, hexpressions, hiff⟩ := exists_of_mem_right hwritten hd
    exact ⟨predicate, hexpressions, Bool.eq_false_iff.mpr (mt hiff.mp (hall b hb guard hguard))⟩

/-- At a garage with an index as its guard, all alternatives have predicates. -/
theorem alternatives_filled_garage :
    ∃ lift stay, ((garageScope "[doors[0]]").resolve garagePush).result
        = .ok [.choose [("doors[0]", lift)] (some stay)] ∧
      Action.Inside [.choose [("doors[0]", lift)] (some stay)] [] [.choose [("doors[0]", lift)] (some stay)] ∧
      (garageScope "[doors[0]]").NoneHollow askChoice ∧
      (garageScope "[doors[0]]").SplitsByPredicate askChoice ∧
      ∀ d ∈ Action.optionsData "garage" [("doors[0]", lift)], ∃ predicate,
        d.expressions = [some predicate] ∧ isBlankText predicate = false := by
  obtain ⟨lift, stay, hpush⟩ := resolve_garagePush "[doors[0]]" "doors[0]" (by decide +kernel)
  obtain ⟨⟨turns, last, choice, hleads, hpredicates, hto, -, -, hfilled⟩, hsplit⟩ :=
    alternatives_filled_iff _ hpush (.here _) List.mem_cons_self "garage"
  -- no turn leads on to the decision, which is made where the push leads
  obtain rfl : turns = [] := List.map_eq_nil_iff.mp hpredicates
  have hnone : (garageScope "[doors[0]]").NoneHollow askChoice := by
    have harms : (garageScope "[doors[0]]").guardedArms askChoice = [liftArm "[doors[0]]"] := rfl
    rw [← forall_guardedArms_iff, harms]
    intro b hb guard hguard
    obtain rfl := List.mem_singleton.mp hb
    rw [← isBlankText_predicateOf_iff hguard]
    decide +kernel
  cases hleads with
  | here =>
    obtain rfl : askChoice = choice := Option.some.inj hto.find
    exact ⟨lift, stay, hpush, .here _, hnone, (hsplit askChoice).mpr hnone, hfilled.mpr hnone⟩

/-- A guard of brackets with a blank between them makes an alternative with a blank predicate, in the place of
the default. -/
theorem hollow_guard_kept :
    ∃ lift stay, ((garageScope "[ ]").resolve garagePush).result
        = .ok [.choose [("", lift)] (some stay)] ∧ isBlankText "" = true ∧
      (garageScope "[ ]").guardedArms askChoice = [liftArm "[ ]"] ∧
      (garageScope "[ ]").defaultArm? askChoice = some stayArm ∧
      ((garageScope "[ ]").machine.outgoing askChoice.path (some [.external])).find?
        (fun b => isBlankText (predicateOf b)) = some (liftArm "[ ]") := by
  obtain ⟨lift, stay, hpush⟩ := resolve_garagePush "[ ]" "" (by decide +kernel)
  exact ⟨lift, stay, hpush, rfl, rfl, rfl, rfl⟩

end Scope

end HomeAutomaton

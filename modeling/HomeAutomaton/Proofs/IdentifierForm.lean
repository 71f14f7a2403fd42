import HomeAutomaton.Proofs.Identifier
import HomeAutomaton.Proofs.NumberTexts
import HomeAutomaton.Proofs.Slugs

/-!
# Which identifiers can be used

An identifier is chosen as an option and written into rules, so it should be a slug. It is one as soon as the
name or the path of the state has a letter from `a` to `z` or a digit in its lower-case form, whatever number
has to be put behind it. A machine has a word of its own to fall back on. A state has none: where name and path
have no such character its base is empty, the first of these states gets the empty text as its identifier, and
the others get numbers behind a lone underscore.

* `Node.isSlug_machineIdentifier` is about machines, `Node.isSlug_identifierBase` about the bases of states.
* `allotted_unspelt` says which identifiers are given where there is no base.
* `identifiersOf_form` is the result. `unspelt_not_usable` is a lamp whose states are named in another script.
-/

namespace HomeAutomaton

open Text

/-! ### Bases -/

namespace Node

/-- Has the name or the path a letter from `a` to `z` or a digit, when it is lower-cased? -/
def isSpelt (n : Node) : Bool :=
  (lowercase n.name.toList).any isSlugChar || (lowercase n.path.text.toList).any isSlugChar

/-- The identifier of a machine is a slug. -/
theorem isSlug_machineIdentifier (n : Node) : IsSlug n.machineIdentifier.toList := by
  rw [machineIdentifier]
  split
  next =>
    have hstate : IsRun "state".toList :=
      ⟨by decide +kernel, List.all_eq_true.mp (by decide +kernel)⟩
    have hmachine : IsRun "machine".toList :=
      ⟨by decide +kernel, List.all_eq_true.mp (by decide +kernel)⟩
    exact .join hstate (.run hmachine)
  next hne => exact isSlug_slug hne

theorem slugOf_str (s : String) : slugOf (.str s) = slug s := by
  by_cases hs : s = ""
  · subst hs
    decide +kernel
  · simp [slugOf, Data.nameText, hs]

/-- A slug is empty exactly if there is no character for it. -/
theorem slug_eq_empty_iff_any (s : String) :
    slug s = "" ↔ (lowercase s.toList).any isSlugChar = false := by
  rw [slug_eq_empty_iff, List.any_eq_false]
  simp

variable {n : Node}

/-- A base is empty exactly if there is nothing to spell it with. -/
theorem identifierBase_eq_empty_iff (hpath : n.path.IsText) :
    n.identifierBase = "" ↔ n.isSpelt = false := by
  obtain ⟨path, hpath⟩ := hpath
  rw [identifierBase, isSpelt, Bool.or_eq_false_iff, ← slug_eq_empty_iff_any, hpath, slugOf_str,
    Data.text_str, ← slug_eq_empty_iff_any, joinNonEmpty_pair]
  split
  next hname => simp [hname]
  next hname =>
    split
    next => simp [hname]
    next => simp [hname, String.append_eq_empty_iff]

theorem isSlug_identifierBase (hpath : n.path.IsText) (h : n.identifierBase ≠ "") :
    IsSlug n.identifierBase.toList := by
  obtain ⟨path, hpath⟩ := hpath
  rw [identifierBase, hpath, slugOf_str] at h ⊢
  refine isSlug_joinNonEmpty isSlug_slug isSlug_slug fun ⟨hname, hpath⟩ => h ?_
  rw [hname, hpath]
  rfl

end Node

/-! ### Numbers behind a base -/

/-- A decimal is a run of digits. -/
theorem isRun_decimal (n : ℕ) : IsRun (decimal n).toList := by
  have hdecimal : (decimal n).toList = digitsOf n := by
    rw [decimal, if_neg (by omega), String.toList_ofList, Int.natAbs_natCast]
  rw [hdecimal]
  refine ⟨Nat.toDigits_ne_nil, fun c hc => ?_⟩
  rw [isSlugChar, Bool.or_eq_true]
  exact .inr (allDigits_digitsOf n c hc)

/-- A number behind a slug makes it another slug. -/
theorem isSlug_numberedIdentifier {base : String} (h : IsSlug base.toList) (n : ℕ) :
    IsSlug (numberedIdentifier base n).toList := by
  rw [numberedIdentifier, String.toList_append, String.toList_append, List.append_assoc]
  exact h.append (.run (isRun_decimal n))

/-- A number behind nothing is no slug, and nothing without a number is none. -/
theorem not_isSlug_candidate (n : ℕ) : ¬ IsSlug (identifierCandidate "" n).toList := by
  cases n with
  | zero => exact not_isSlug_nil
  | succ n =>
    rw [identifierCandidate_succ, numberedIdentifier, String.toList_append, String.toList_append]
    exact not_isSlug_underscore _

/-- What is made of a slug is a slug. -/
theorem IsFresh.isSlug {taken : List String} {base identifier : String}
    (h : IsFresh taken base identifier) (hbase : IsSlug base.toList) : IsSlug identifier.toList := by
  rcases h with ⟨-, rfl⟩ | ⟨-, n, -, rfl, -, -⟩
  · exact hbase
  · exact isSlug_numberedIdentifier hbase n

/-! ### States without a base -/

/-- The identifiers made of an empty base are taken up to a number, and none of those behind it. -/
def TakenUpTo (taken : List String) (k : ℕ) : Prop :=
  ∀ n, identifierCandidate "" n ∈ taken ↔ n < k

namespace TakenUpTo

variable {taken : List String} {k : ℕ} {identifier : String}

theorem nil : TakenUpTo [] 0 := fun n => by simp

/-- The next state without a base gets the next of them. -/
theorem freshIdentifier_eq (h : TakenUpTo taken k) :
    freshIdentifier "" taken = identifierCandidate "" k := by
  have hfresh := freshIdentifier_isFresh "" taken
  -- it is one of them that is not taken, and those before it are
  obtain ⟨n, hn, hnew, hbefore⟩ : ∃ n, freshIdentifier "" taken = identifierCandidate "" n ∧
      identifierCandidate "" n ∉ taken ∧ ∀ m < n, identifierCandidate "" m ∈ taken := by
    rcases hfresh with ⟨hnew, heq⟩ | ⟨hbase, n, hn, heq, hnew, hbefore⟩
    · exact ⟨0, heq, hnew, fun m hm => absurd hm (Nat.not_lt_zero m)⟩
    · obtain ⟨n, rfl⟩ : ∃ m, n = m + 2 := ⟨n - 2, by omega⟩
      rw [heq] at hnew
      refine ⟨n + 1, heq, hnew, fun m hm => ?_⟩
      cases m with
      | zero => exact hbase
      | succ m => exact hbefore (m + 2) (by omega) (by omega)
  have hle : k ≤ n := Nat.not_lt.mp fun hlt => hnew ((h n).mpr hlt)
  have hge : n ≤ k := Nat.not_lt.mp fun hlt => (Nat.lt_irrefl k) ((h k).mp (hbefore k hlt))
  rw [hn, Nat.le_antisymm hge hle]

/-- The next one is taken by the state that gets it. -/
theorem next (h : TakenUpTo taken k) : TakenUpTo (identifierCandidate "" k :: taken) (k + 1) := by
  intro n
  rw [List.mem_cons, h n, (identifierCandidate_injective "").eq_iff]
  omega

/-- A slug is none of them. -/
theorem cons_of_isSlug (h : TakenUpTo taken k) (hslug : IsSlug identifier.toList) :
    TakenUpTo (identifier :: taken) k := by
  intro n
  rw [List.mem_cons, h n, or_iff_right]
  rintro rfl
  exact not_isSlug_candidate n hslug

end TakenUpTo

/-- The states without a base get the empty text and then numbers behind an underscore, one after the other:
each the one whose number is how many of them stand before it. -/
theorem allotted_unspelt {taken : List String} {k : ℕ} {states : List Node} (htaken : TakenUpTo taken k)
    (hpaths : ∀ s ∈ states, s.path.IsText) {i : ℕ} {state : Node} (hstate : states[i]? = some state)
    (hspelt : state.isSpelt = false) :
    (allotted taken states)[i]? =
      some (identifierCandidate "" (k + (states.take i).countP (!·.isSpelt))) := by
  -- along the states in front; those without a base use up a number, the others do not
  induction states generalizing taken k i with
  | nil => cases hstate
  | cons first rest ih =>
    obtain ⟨hpath, hpaths⟩ := List.forall_mem_cons.mp hpaths
    rw [allotted]
    cases i with
    | zero =>
      obtain rfl := Option.some.inj hstate
      rw [(Node.identifierBase_eq_empty_iff hpath).mpr hspelt, htaken.freshIdentifier_eq]
      rfl
    | succ i =>
      rw [List.getElem?_cons_succ, List.take_succ_cons, List.countP_cons]
      cases hfirst : first.isSpelt with
      | false =>
        rw [(Node.identifierBase_eq_empty_iff hpath).mpr hfirst, htaken.freshIdentifier_eq,
          ih htaken.next hpaths hstate]
        simp only [Bool.not_false, if_true]
        congr 2
        omega
      | true =>
        have hbase : first.identifierBase ≠ "" := fun hempty => by
          rw [(Node.identifierBase_eq_empty_iff hpath).mp hempty] at hfirst
          cases hfirst
        -- an identifier of the first one is a slug, so it takes none of the numbers
        have hslug := (freshIdentifier_isFresh first.identifierBase taken).isSlug
          (Node.isSlug_identifierBase hpath hbase)
        rw [ih (htaken.cons_of_isSlug hslug) hpaths hstate]
        simp

theorem allotted_spelt {taken : List String} {states : List Node} (hpaths : ∀ s ∈ states, s.path.IsText)
    {i : ℕ} {state : Node} {identifier : String} (hstate : states[i]? = some state)
    (hid : (allotted taken states)[i]? = some identifier) (hspelt : state.isSpelt = true) :
    IsSlug identifier.toList := by
  have hpath := hpaths state (List.mem_of_getElem? hstate)
  have hbase : state.identifierBase ≠ "" := fun hempty => by
    rw [(Node.identifierBase_eq_empty_iff hpath).mp hempty] at hspelt
    cases hspelt
  exact (allotted_isFresh hstate hid).isSlug (Node.isSlug_identifierBase hpath hbase)

/-! ### The table of identifiers -/

/-- The state stands at a place of the list, and no state behind it has its path. -/
def IsLastAt (states : List Node) (i : ℕ) (state : Node) : Prop :=
  states[i]? = some state ∧ ∀ later ∈ states.drop (i + 1), later.path ≠ state.path

/-- Every path of the list is that of a last state. -/
theorem exists_isLastAt {states : List Node} {path : Data} (h : path ∈ states.map (·.path)) :
    ∃ i state, IsLastAt states i state ∧ state.path = path := by
  induction states with
  | nil => cases h
  | cons first rest ih =>
    by_cases hrest : path ∈ rest.map (·.path)
    · obtain ⟨i, state, ⟨hstate, hlast⟩, hpath⟩ := ih hrest
      exact ⟨i + 1, state, ⟨hstate, hlast⟩, hpath⟩
    · rw [List.map_cons, List.mem_cons, or_iff_left hrest] at h
      subst h
      refine ⟨0, first, ⟨rfl, fun later hlater heq => hrest ?_⟩, rfl⟩
      exact heq ▸ List.mem_map_of_mem hlater

/-- **What the identifiers of a table look like.** -/
structure Formed (states : List Node) (table : Table String) : Prop where
  /-- Under the path of a state that is spelt there is a slug, if no later state has the path. -/
  spelt : ∀ i state, IsLastAt states i state → state.isSpelt = true →
    ∃ identifier, table.get? state.path = some identifier ∧ IsSlug identifier.toList
  /-- Under that of one that is not there is the empty text, or an underscore and a number. -/
  unspelt : ∀ i state, IsLastAt states i state → state.isSpelt = false →
    table.get? state.path =
      some (identifierCandidate "" ((states.take i).countP (!·.isSpelt)))
  /-- So all identifiers are slugs exactly if all states are spelt that the table is about. -/
  usable : (∀ identifier ∈ table.map (·.2), IsSlug identifier.toList) ↔
    ∀ i state, IsLastAt states i state → state.isSpelt = true

/-- **The table of identifiers has this form.** -/
theorem identifierTable_formed {states : List Node} (hpaths : ∀ s ∈ states, s.path.IsText) :
    Formed states (identifierTable states) := by
  have hall := allotment hpaths
  -- what is found under a path is the identifier of the last state that has it
  have hget : ∀ {i state}, IsLastAt states i state → ∃ identifier,
      (allotted [] states)[i]? = some identifier ∧
        (identifierTable states).get? state.path = some identifier := by
    rintro i state ⟨hstate, hlast⟩
    have hlt : i < (allotted [] states).length := by
      rw [allotted_length]
      exact (List.getElem?_eq_some_iff.mp hstate).1
    have hid := List.getElem?_eq_getElem hlt
    exact ⟨_, hid, hall.found i state _ hstate hid hlast⟩
  have hspelt : ∀ i state, IsLastAt states i state → state.isSpelt = true →
      ∃ identifier, (identifierTable states).get? state.path = some identifier ∧
        IsSlug identifier.toList := by
    intro i state hlast hspelt
    obtain ⟨identifier, hid, hfound⟩ := hget hlast
    exact ⟨identifier, hfound, allotted_spelt hpaths hlast.1 hid hspelt⟩
  have hunspelt : ∀ i state, IsLastAt states i state → state.isSpelt = false →
      (identifierTable states).get? state.path =
        some (identifierCandidate "" ((states.take i).countP (!·.isSpelt))) := by
    intro i state hlast hspelt
    obtain ⟨identifier, hid, hfound⟩ := hget hlast
    rw [allotted_unspelt .nil hpaths hlast.1 hspelt, Nat.zero_add] at hid
    rw [hfound, hid]
  refine ⟨hspelt, hunspelt, fun hslugs i state hlast => ?_, fun hstates identifier hid => ?_⟩
  -- a last state that is not spelt would have one of the numbers
  · by_contra hnot
    have hfound := hunspelt i state hlast (Bool.eq_false_iff.mpr hnot)
    have hmem := Table.mem_of_get? (hpaths state (List.mem_of_getElem? hlast.1)) hfound
    exact not_isSlug_candidate _ (hslugs _ (List.mem_map_of_mem (f := (·.2)) hmem))
  · obtain ⟨e, he, rfl⟩ := List.mem_map.mp hid
    obtain ⟨i, state, hlast, hpath⟩ :=
      exists_isLastAt ((hall.keys e.1).mp (List.mem_map_of_mem (f := (·.1)) he))
    obtain ⟨identifier, hfound, hslug⟩ := hspelt i state hlast (hstates i state hlast)
    have hmem := Table.mem_of_get? (hpaths state (List.mem_of_getElem? hlast.1)) hfound
    -- no key is stored twice, so it is the same entry
    have heq := List.inj_on_of_nodup_map hall.keysDistinct he hmem hpath.symm
    rw [heq]
    exact hslug

/-- **Which identifiers can be used.** Every machine has a slug as its identifier. A state has one exactly if
its name or its path has a letter from `a` to `z` or a digit when it is lower-cased. The other states of the
list have the empty text and numbers behind an underscore as theirs, in their order. -/
theorem identifiersOf_form {states : List Node} (hpaths : ∀ s ∈ states, s.path.IsText) :
    (∀ machine : Node, IsSlug machine.machineIdentifier.toList) ∧
      ∃ table log, identifiersOf states = ⟨.ok table, log⟩ ∧ Formed states table :=
  ⟨Node.isSlug_machineIdentifier, _, _, identifiersOf_eq hpaths, identifierTable_formed hpaths⟩

/-- The states of a lamp, of which two are named in a script without letters from `a` to `z`. -/
def lanternStates : List Node :=
  [{ kind := .state, path := .str "/点灯", name := "点灯" },
    { kind := .state, path := .str "/夜", name := "Night" },
    { kind := .state, path := .str "/消灯", name := "消灯" }]

/-- So it is for the lamp. -/
theorem identifiersOf_form_lantern :
    (∀ s ∈ lanternStates, s.path.IsText) ∧
    (∀ machine : Node, IsSlug machine.machineIdentifier.toList) ∧
    ∃ table log, identifiersOf lanternStates = ⟨.ok table, log⟩ ∧ Formed lanternStates table := by
  have hpaths : ∀ s ∈ lanternStates, s.path.IsText := by
    simp [lanternStates]
  exact ⟨hpaths, identifiersOf_form hpaths⟩

/-- **An identifier may be empty or start with an underscore.** The paths of the states are not empty, and
neither are their names. -/
theorem unspelt_not_usable :
    (∀ s ∈ lanternStates, ∃ path, path ≠ "" ∧ s.path = .str path) ∧
    ∃ table log, identifiersOf lanternStates = ⟨.ok table, log⟩ ∧
      table.map (·.2) = ["", "night", "_2"] ∧ ¬ IsSlug "".toList ∧ ¬ IsSlug "_2".toList := by
  have hpaths : ∀ s ∈ lanternStates, s.path.IsText := by
    simp [lanternStates]
  refine ⟨?_, _, _, identifiersOf_eq hpaths, by decide +kernel, not_isSlug_nil, ?_⟩
  · simp [lanternStates]
  · exact not_isSlug_underscore ['2']

end HomeAutomaton

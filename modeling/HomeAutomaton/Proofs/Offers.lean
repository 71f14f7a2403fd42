import HomeAutomaton.Proofs.Collecting
import HomeAutomaton.Proofs.Lookups

/-!
# What a machine takes of what it is offered

A machine is filled by offers, nodes and transitions in any order, and of those that are told apart by the
same it takes the first. A node is told apart by its path. A transition is told apart by the key that is chosen
for it, or else by its path, or else by being the object that it is; chosen keys and paths are not told apart
from each other. What is taken is put behind what is there, and what is not taken leaves no trace; so what is
the first of its kind stays so.

* `Offer.slot` says what an offer is told apart by, without regard to how machines keep their keys.
* `Machine.offer_cases` says what one offer does, and `Machine.offerAll_collects` what a sequence does.
* `Machine.Classifies` is about start markers: when all is collected, transitions out of them become initial.
* `Machine.offers_collected` is the result.
-/

namespace HomeAutomaton

/-- What is offered to a machine. -/
inductive Offer where
  | node (n : Node)
  /-- A transition, with the key that is chosen for it, if one is, and its number as an object. -/
  | transition (t : Transition) (key? : Option String) (object : Nat)

/-- What offers are told apart by. -/
inductive Slot where
  /-- The path of a node. -/
  | path (path : String)
  /-- The key or the path of a transition. -/
  | key (key : String)
  /-- The transition itself. -/
  | object (number : Nat)
  deriving DecidableEq

namespace Offer

/-- What the offer is told apart by. -/
def slot : Offer → Slot
  | node n => .path (n.path.str?.getD "")
  | transition _ (some key) _ => .key key
  | transition t none object =>
    match t.path with
    | .str path => if path = "" then .object object else .key path
    | _ => .object object

/-- The node that is offered. -/
def node? : Offer → Option Node
  | node n => some n
  | transition .. => none

/-- The transition that is offered. -/
def transition? : Offer → Option Transition
  | node _ => none
  | transition t .. => some t

/-- Paths and sources are texts. Those of transitions may be missing. -/
def HasTexts : Offer → Prop
  | node n => n.path.IsText
  | transition t _ _ => t.path.IsTextOrNull ∧ t.src.IsTextOrNull

end Offer

namespace Machine

/-- What is offered is added, unless the machine has something with its path or key. -/
def offer (m : Machine) : Offer → Except Fault (Bool × Machine)
  | .node n => m.addNode n
  | .transition t (some key) _ => m.addTransition t (.path (.str key))
  | .transition t none object => m.addTransition t (.ofPath t.path (.record object))

/-- One offer after the other, with the answers to them. -/
def offerAll (m : Machine) : List Offer → Except Fault (List Bool × Machine)
  | [] => .ok ([], m)
  | o :: rest => do
    let (added, m) ← m.offer o
    let (answers, m) ← m.offerAll rest
    .ok (added :: answers, m)

/-! ### One offer -/

end Machine

namespace Slot

/-- The key of a machine that stands for it. There is none for the path of a node. -/
def transitionKey? : Slot → Option TransitionKey
  | path _ => none
  | key text => some (.path (.str text))
  | object number => some (.record number)

variable {slot slot' : Slot} {key : TransitionKey}

/-- Slots with one key are one. -/
theorem eq_of_transitionKey? (h : slot.transitionKey? = some key)
    (h' : slot'.transitionKey? = some key) : slot' = slot := by
  cases slot <;> cases slot' <;> cases h <;> cases h' <;> rfl

/-- The key of a slot can be looked up. -/
theorem isKey_of_transitionKey? (h : slot.transitionKey? = some key) : key.isKey = true := by
  cases slot with
  | path path => cases h
  | key text =>
    obtain rfl := Option.some.inj h
    exact Data.isKey_str text
  | object number =>
    obtain rfl := Option.some.inj h
    rfl

/-- It is the same as itself alone. -/
theorem same_of_transitionKey? (h : slot.transitionKey? = some key) (known : TransitionKey) :
    key.same known = true ↔ known = key := by
  -- chosen keys are compared as texts, and objects by their numbers
  cases slot with
  | path path => cases h
  | key text =>
    obtain rfl := Option.some.inj h
    cases known with
    | path d =>
      rw [TransitionKey.same, Data.same_iff (Data.isText_str text), TransitionKey.path.injEq, eq_comm]
    | record label => simp [TransitionKey.same]
    | unique => simp [TransitionKey.same]
  | object number =>
    obtain rfl := Option.some.inj h
    cases known with
    | record label => simp [TransitionKey.same, @eq_comm _ label]
    | path d => simp [TransitionKey.same]
    | unique => simp [TransitionKey.same]

end Slot

namespace Machine

/-- The machine has something that is told apart by this. -/
def Holds (m : Machine) (slot : Slot) : Prop :=
  (∃ n ∈ m.nodes, ∃ path, n.path = .str path ∧ slot = .path path) ∨
    ∃ key ∈ m.keys, slot.transitionKey? = some key

/-- The second machine is the first one with what is offered at its end. -/
structure Gains (m : Machine) (o : Offer) (m' : Machine) : Prop where
  nodes : m'.nodes = m.nodes ++ o.node?.toList
  transitions : m'.transitions = m.transitions ++ o.transition?.toList
  holds : ∀ slot, m'.Holds slot ↔ m.Holds slot ∨ slot = o.slot

variable {m m' : Machine} {o : Offer}

/-- A path is held by a node that has it. -/
theorem holds_path {path : String} : m.Holds (.path path) ↔ ∃ n ∈ m.nodes, n.path = .str path := by
  simp [Holds, Slot.transitionKey?]

/-- The slot of a transition is held if its key is known. -/
theorem holds_of_transitionKey? {slot : Slot} {key : TransitionKey}
    (h : slot.transitionKey? = some key) : m.Holds slot ↔ key ∈ m.keys := by
  cases slot <;> simp_all [Holds, Slot.transitionKey?]

/-- A node is told apart by its path. -/
theorem slot_node {n : Node} {path : String} (h : n.path = .str path) :
    (Offer.node n).slot = .path path := by
  rw [Offer.slot, h]
  rfl

/-- A node is added unless the machine has one with its path. -/
theorem addNode_cases {n : Node} {path : String} (hpath : n.path = .str path) :
    (m.Holds (.path path) ∧ m.addNode n = .ok (false, m)) ∨
      (¬ m.Holds (.path path) ∧ ∃ m', m.addNode n = .ok (true, m') ∧ m.Gains (.node n) m') := by
  have hkey : (!n.path.isKey) = false := by rw [hpath, Data.isKey_str]; rfl
  -- what is looked for is a node with the path of the slot
  have hany : (m.nodes.any fun other => other.path.same n.path) = true ↔ m.Holds (.path path) := by
    rw [List.any_eq_true, holds_path, hpath]
    simp only [Data.same_iff' (Data.isText_str path)]
  rw [addNode, hkey]
  by_cases hholds : m.Holds (.path path)
  · exact .inl ⟨hholds, dif_pos (hany.mpr hholds)⟩
  · refine .inr ⟨hholds, _, dif_neg fun h => hholds (hany.mp h), rfl, (List.append_nil _).symm,
      fun slot => ?_⟩
    rw [slot_node hpath]
    simp only [Holds, List.mem_append, List.mem_singleton, or_and_right, exists_or, exists_eq_left, hpath,
      Data.str.injEq, exists_eq_left']
    exact or_right_comm

/-- A transition is added unless its key is known. -/
theorem addTransition_cases {t : Transition} {key? : Option String} {object : Nat} {key : TransitionKey}
    (hslot : (Offer.transition t key? object).slot.transitionKey? = some key) :
    (m.Holds (Offer.transition t key? object).slot ∧ m.addTransition t key = .ok (false, m)) ∨
      (¬ m.Holds (Offer.transition t key? object).slot ∧
        ∃ m', m.addTransition t key = .ok (true, m') ∧ m.Gains (.transition t key? object) m') := by
  have hkey : (!key.isKey) = false := by rw [Slot.isKey_of_transitionKey? hslot]; rfl
  -- what is looked for is the key of the slot
  have hany : m.keys.any key.same = true ↔ m.Holds (Offer.transition t key? object).slot := by
    rw [List.any_eq_true, holds_of_transitionKey? hslot]
    simp only [Slot.same_of_transitionKey? hslot, exists_eq_right]
  rw [addTransition, hkey]
  by_cases hholds : m.Holds (Offer.transition t key? object).slot
  · exact .inl ⟨hholds, if_pos (hany.mpr hholds)⟩
  · refine .inr ⟨hholds, _, if_neg fun h => hholds (hany.mp h), (List.append_nil _).symm, rfl,
      fun slot => ?_⟩
    have hnew : slot.transitionKey? = some key ↔ slot = (Offer.transition t key? object).slot :=
      ⟨fun h => Slot.eq_of_transitionKey? hslot h, fun h => h ▸ hslot⟩
    simp only [Holds, List.mem_append, List.mem_singleton, or_and_right, exists_or, exists_eq_left, hnew,
      or_assoc]

/-- The key that a transition is added with is that of its slot. -/
theorem transitionKey?_slot {t : Transition} (h : t.path.IsTextOrNull) (object : Nat) :
    (Offer.transition t none object).slot.transitionKey? = some (.ofPath t.path (.record object)) := by
  rw [Offer.slot, TransitionKey.ofPath]
  rcases h with hnull | ⟨path, hpath⟩
  · rw [hnull]
    rfl
  · rw [hpath]
    by_cases hempty : path = ""
    · simp [hempty, Slot.transitionKey?]
    · simp [hempty, Slot.transitionKey?]

/-- **What one offer does.** Either the machine has something of the same slot and is left as it is, or what
is offered is put at its end. -/
theorem offer_cases (m : Machine) (ho : o.HasTexts) :
    (m.Holds o.slot ∧ m.offer o = .ok (false, m)) ∨
      (¬ m.Holds o.slot ∧ ∃ m', m.offer o = .ok (true, m') ∧ m.Gains o m') := by
  cases o with
  | node n =>
    obtain ⟨path, hpath⟩ := ho
    rw [slot_node hpath]
    exact addNode_cases hpath
  | transition t key? object =>
    cases key? with
    | some key => exact addTransition_cases rfl
    | none => exact addTransition_cases (transitionKey?_slot ho.1 object)

/-! ### A sequence of offers -/

/-- What was offered and added. -/
def added (offers : List Offer) (answers : List Bool) : List Offer :=
  ((offers.zip answers).filter (·.2)).map (·.1)

/-- What a sequence of offers does to a machine that was offered others before. -/
structure Collects (m : Machine) (before offers : List Offer) (answers : List Bool) (m' : Machine) :
    Prop where
  length : answers.length = offers.length
  answer : ∀ i o, offers[i]? = some o →
    (answers[i]? = some true ↔ ∀ earlier ∈ before ++ offers.take i, earlier.slot ≠ o.slot)
  nodes : m'.nodes = m.nodes ++ (added offers answers).filterMap Offer.node?
  transitions : m'.transitions = m.transitions ++ (added offers answers).filterMap Offer.transition?
  holds : ∀ slot, m'.Holds slot ↔ ∃ o ∈ before ++ offers, o.slot = slot

namespace Collects

variable {before rest : List Offer} {answer : Bool} {answers : List Bool} {m₁ : Machine}

theorem cons (hfirst : m.Collects before [o] [answer] m₁)
    (hrest : m₁.Collects (before ++ [o]) rest answers m') :
    m.Collects before (o :: rest) (answer :: answers) m' where
  length := by rw [List.length_cons, List.length_cons, hrest.length]
  -- the first answer is that of the first step, the others are those of the rest
  answer := fun i other hother => by
    cases i with
    | zero => simpa using hfirst.answer 0 other hother
    | succ i =>
      rw [List.getElem?_cons_succ, List.take_succ_cons, hrest.answer i other hother, List.append_assoc,
        List.singleton_append]
  nodes := by
    rw [hrest.nodes, hfirst.nodes, List.append_assoc, ← List.filterMap_append]
    cases answer <;> rfl
  transitions := by
    rw [hrest.transitions, hfirst.transitions, List.append_assoc, ← List.filterMap_append]
    cases answer <;> rfl
  holds := fun slot => by rw [hrest.holds, List.append_assoc, List.singleton_append]

end Collects

variable {before : List Offer}

/-- One offer. The machine has something of its slot if one was offered before. -/
theorem offer_collects (hbefore : ∀ slot, m.Holds slot ↔ ∃ o ∈ before, o.slot = slot)
    (ho : o.HasTexts) :
    ∃ answer m', m.offer o = .ok (answer, m') ∧ m.Collects before [o] [answer] m' := by
  -- an offer is answered by whether its slot is held
  have hanswer : ∀ {answer : Bool}, (answer = true ↔ ¬ m.Holds o.slot) → ∀ i o', [o][i]? = some o' →
      ([answer][i]? = some true ↔ ∀ earlier ∈ before ++ [o].take i, earlier.slot ≠ o'.slot) := by
    intro answer h i o' ho'
    obtain ⟨rfl, rfl⟩ : i = 0 ∧ o = o' := by
      cases i with
      | zero => exact ⟨rfl, Option.some.inj ho'⟩
      | succ i => cases ho'
    rw [hbefore] at h
    simpa using h
  -- held afterwards is what was held before, and the slot of the offer
  have hslots : ∀ slot, (∃ o' ∈ before ++ [o], o'.slot = slot) ↔ m.Holds slot ∨ slot = o.slot := by
    intro slot
    rw [hbefore]
    simp only [List.mem_append, List.mem_singleton, or_and_right, exists_or, exists_eq_left,
      eq_comm (b := o.slot)]
  rcases m.offer_cases ho with ⟨hthere, hoffer⟩ | ⟨hmissing, m', hoffer, hgains⟩
  · refine ⟨false, m, hoffer, rfl, hanswer (by simp [hthere]), (List.append_nil _).symm,
      (List.append_nil _).symm, fun slot => ?_⟩
    rw [hslots]
    refine ⟨.inl, ?_⟩
    rintro (h | rfl)
    · exact h
    · exact hthere
  · refine ⟨true, m', hoffer, rfl, hanswer (by simp [hmissing]), ?_, ?_, fun slot => ?_⟩
    · rw [hgains.nodes]
      cases o <;> rfl
    · rw [hgains.transitions]
      cases o <;> rfl
    · rw [hgains.holds, hslots]

/-- **What a sequence of offers does.** Every one of them is answered, and it is added if none of the same slot
was offered before. -/
theorem offerAll_collects {offers : List Offer}
    (hbefore : ∀ slot, m.Holds slot ↔ ∃ o ∈ before, o.slot = slot)
    (hoffers : ∀ o ∈ offers, o.HasTexts) :
    ∃ answers m', m.offerAll offers = .ok (answers, m') ∧ m.Collects before offers answers m' := by
  -- along the offers; what is held is always what was offered before
  induction offers generalizing m before with
  | nil =>
    refine ⟨[], m, rfl, rfl, fun i o h => ?_, (List.append_nil _).symm, (List.append_nil _).symm, ?_⟩
    · cases h
    · rwa [List.append_nil]
  | cons o rest ih =>
    obtain ⟨ho, hrest⟩ := List.forall_mem_cons.mp hoffers
    obtain ⟨answer, m₁, hoffer, hfirst⟩ := offer_collects hbefore ho
    obtain ⟨answers, m', hrestOffers, hcollects⟩ := ih hfirst.holds hrest
    refine ⟨answer :: answers, m', ?_, hfirst.cons hcollects⟩
    rw [offerAll, hoffer, ok_bind]
    dsimp only
    rw [hrestOffers]
    rfl

/-- The first offers, and then the others. -/
theorem offerAll_append {offers more : List Offer} {answers moreAnswers : List Bool} {m₁ : Machine}
    (h : m.offerAll offers = .ok (answers, m₁)) (hmore : m₁.offerAll more = .ok (moreAnswers, m')) :
    m.offerAll (offers ++ more) = .ok (answers ++ moreAnswers, m') := by
  -- along the first offers
  induction offers generalizing m answers with
  | nil =>
    obtain ⟨rfl, rfl⟩ := Prod.mk.inj (Except.ok.inj h)
    exact hmore
  | cons o rest ih =>
    rw [offerAll] at h
    obtain ⟨⟨answer, m₂⟩, hfirst, h⟩ := bind_eq_ok.mp h
    obtain ⟨⟨answers', m₃⟩, hrest, h⟩ := bind_eq_ok.mp h
    obtain ⟨rfl, rfl⟩ := Prod.mk.inj (Except.ok.inj h)
    rw [List.cons_append, offerAll, hfirst, ok_bind]
    dsimp only
    rw [ih hrest, ok_bind]
    rfl

/-! ### Start markers -/

/-- The transition leaves a start marker of the machine. -/
def LeavesMarker (m : Machine) (t : Transition) : Prop :=
  ∃ n ∈ m.nodes, n.kind = .initial ∧ n.path = t.src

/-- The second machine is the first one with start markers taken into account: transitions that leave one are
initial, and nothing else is different. -/
structure Classifies (m m' : Machine) : Prop where
  nodes : m'.nodes = m.nodes
  keys : m'.keys = m.keys
  length : m'.transitions.length = m.transitions.length
  ofMarker : ∀ (i : ℕ) (t : Transition), m.transitions[i]? = some t → m.LeavesMarker t →
    m'.transitions[i]? = some { t with kind := .initial }
  ofOther : ∀ (i : ℕ) (t : Transition), m.transitions[i]? = some t → ¬ m.LeavesMarker t →
    m'.transitions[i]? = some t

/-- Where paths are texts, every node is found under its own path, and nothing under another one. -/
theorem find?_eq_some_iff (hpaths : ∀ n ∈ m.nodes, n.path.IsText) {path : Data} {n : Node} :
    m.find? path = some n ↔ n ∈ m.nodes ∧ n.path = path := by
  constructor
  · intro h
    obtain ⟨hmem, hsame⟩ := find?_eq_some h
    exact ⟨hmem, (Data.same_iff (hpaths n hmem)).mp hsame⟩
  · rintro ⟨hmem, rfl⟩
    have htext := hpaths n hmem
    obtain ⟨found, hfound⟩ : ∃ found, m.nodes.find? (fun other => other.path.same n.path) = some found :=
      Option.isSome_iff_exists.mp (List.find?_isSome.mpr ⟨n, hmem, Data.same_self _⟩)
    have hsame : found.path.same n.path = true := by simpa using List.find?_some hfound
    -- no other node has this path
    obtain rfl := m.distinct.eq_of_same (fun other hother => (hpaths other hother).isKey) htext.isKey
      (List.mem_of_find?_eq_some hfound) hmem hsame (Data.same_self _)
    obtain ⟨path, hpath⟩ := htext
    rw [hpath] at hfound ⊢
    exact hfound

/-- A transition is marked if it leaves a start marker. -/
theorem marked_of_leavesMarker (hpaths : ∀ n ∈ m.nodes, n.path.IsText) {t : Transition}
    (h : m.LeavesMarker t) : m.marked t = { t with kind := .initial } := by
  obtain ⟨n, hn, hkind, hpath⟩ := h
  rw [marked, (find?_eq_some_iff hpaths).mpr ⟨hn, hpath⟩]
  exact if_pos hkind

/-- Any other one is left as it is. -/
theorem marked_of_not_leavesMarker (hpaths : ∀ n ∈ m.nodes, n.path.IsText) {t : Transition}
    (h : ¬ m.LeavesMarker t) : m.marked t = t := by
  unfold marked
  split
  next n hfind =>
    obtain ⟨hn, hpath⟩ := (find?_eq_some_iff hpaths).mp hfind
    exact if_neg fun hkind => h ⟨n, hn, hkind, hpath⟩
  next => rfl

/-- Marking it twice is marking it once. -/
theorem marked_marked (m : Machine) (t : Transition) : m.marked (m.marked t) = m.marked t := by
  have hsource : m.find? (m.marked t).src = m.find? t.src := by rw [marked_src]
  rw [marked, hsource]
  unfold marked
  cases m.find? t.src with
  | none => rfl
  | some source => by_cases hkind : source.kind = .initial <;> simp [hkind]

/-- Taking start markers into account does what it should, and doing it again changes nothing. -/
theorem markInitial_classifies (hpaths : ∀ n ∈ m.nodes, n.path.IsText)
    (hsources : ∀ t ∈ m.transitions, t.src.IsTextOrNull) :
    ∃ m', m.markInitial = .ok m' ∧ m.Classifies m' ∧ m'.markInitial = .ok m' := by
  have hmarked : ∀ (i : ℕ) (t : Transition), m.transitions[i]? = some t →
      (m.transitions.map m.marked)[i]? = some (m.marked t) := fun i t h => by
    rw [List.getElem?_map, h]
    rfl
  refine ⟨_, markInitial_eq_ok.mpr ⟨fun t ht => (hsources t ht).isKey, rfl⟩,
    ⟨rfl, rfl, List.length_map _, fun i t h hleaves => ?_, fun i t h hnot => ?_⟩, ?_⟩
  · rw [hmarked i t h, marked_of_leavesMarker hpaths hleaves]
  · rw [hmarked i t h, marked_of_not_leavesMarker hpaths hnot]
  · refine markInitial_eq_ok.mpr ⟨fun t ht => ?_, ?_⟩
    · obtain ⟨unmarked, hmem, rfl⟩ := List.mem_map.mp ht
      rw [marked_src]
      exact (hsources unmarked hmem).isKey
    · -- the nodes are the same, so the same transitions are marked
      change { m with transitions := (m.transitions.map m.marked).map m.marked } = _
      rw [List.map_map]
      exact congrArg (fun ts => { m with transitions := ts })
        (List.map_congr_left fun t _ => m.marked_marked t)

/-! ### All together -/

/-- **What a machine has collected** of a sequence of offers that were answered so. -/
structure Collected (offers : List Offer) (answers : List Bool) (m : Machine) : Prop where
  length : answers.length = offers.length
  /-- An offer is added exactly if it is the first of its slot. -/
  answer : ∀ i o, offers[i]? = some o →
    (answers[i]? = some true ↔ ∀ earlier ∈ offers.take i, earlier.slot ≠ o.slot)
  /-- What is added stands in the order of the offers, and nothing else is there. -/
  nodes : m.nodes = (added offers answers).filterMap Offer.node?
  transitions : m.transitions = (added offers answers).filterMap Offer.transition?
  /-- Every node is found under its own path, and under no other one. -/
  found : ∀ path n, m.find? path = some n ↔ n ∈ m.nodes ∧ n.path = path

/-- What is added was offered. -/
theorem mem_of_mem_added {offers : List Offer} {answers : List Bool} {o : Offer}
    (h : o ∈ added offers answers) : o ∈ offers := by
  obtain ⟨e, he, rfl⟩ := List.mem_map.mp h
  exact (List.of_mem_zip (List.mem_of_mem_filter he)).1

/-- The nodes that are collected are among those offered. -/
theorem isText_of_mem_nodes {offers : List Offer} {answers : List Bool}
    (hoffers : ∀ o ∈ offers, o.HasTexts) (h : m.nodes = (added offers answers).filterMap Offer.node?) :
    ∀ n ∈ m.nodes, n.path.IsText := by
  intro n hn
  rw [h] at hn
  obtain ⟨o, ho, hnode⟩ := List.mem_filterMap.mp hn
  have htexts := hoffers o (mem_of_mem_added ho)
  cases o with
  | node n' =>
    obtain rfl := Option.some.inj hnode
    exact htexts
  | transition t key? object => cases hnode

theorem source_of_mem_transitions {offers : List Offer} {answers : List Bool}
    (hoffers : ∀ o ∈ offers, o.HasTexts)
    (h : m.transitions = (added offers answers).filterMap Offer.transition?) :
    ∀ t ∈ m.transitions, t.src.IsTextOrNull := by
  intro t ht
  rw [h] at ht
  obtain ⟨o, ho, htransition⟩ := List.mem_filterMap.mp ht
  have htexts := hoffers o (mem_of_mem_added ho)
  cases o with
  | node n => cases htransition
  | transition t' key? object =>
    obtain rfl := Option.some.inj htransition
    exact htexts.2

/-- What comes first stays first when more is put behind it. -/
theorem find?_append_of_some {α : Type} {p : α → Bool} {xs : List α} {a : α} (h : xs.find? p = some a)
    (ys : List α) : (xs ++ ys).find? p = some a := by
  rw [List.find?_append, h]
  rfl

/-- **A machine collects the first of every slot**, in the order of the offers and whatever they are. One
more offer is either put behind what is there or changes nothing. What is once the node that stands for the
machine or the transition that says where it starts stays it, however much is offered later. When start markers
are taken into account, the transitions out of them become initial and nothing else changes, and doing so twice
is doing so once. -/
theorem offers_collected (offers : List Offer) (hoffers : ∀ o ∈ offers, o.HasTexts) :
    ∃ answers m, offerAll {} offers = .ok (answers, m) ∧ Collected offers answers m ∧
      (∀ o : Offer, o.HasTexts →
        m.offer o = .ok (false, m) ∨ ∃ m', m.offer o = .ok (true, m') ∧ m.Gains o m') ∧
      (∀ more : List Offer, (∀ o ∈ more, o.HasTexts) → ∃ moreAnswers m',
        offerAll {} (offers ++ more) = .ok (answers ++ moreAnswers, m') ∧
        m.offerAll more = .ok (moreAnswers, m') ∧
        (∀ root, m.root? = some root → m'.root? = some root) ∧
        ∀ t, m.initialTransition? = some t → m'.initialTransition? = some t) ∧
      ∃ m', m.markInitial = .ok m' ∧ m.Classifies m' ∧ m'.markInitial = .ok m' := by
  -- at first a machine holds nothing, and nothing was offered
  have hnone : ∀ slot, Holds {} slot ↔ ∃ o ∈ ([] : List Offer), o.slot = slot := by
    simp [Holds]
  obtain ⟨answers, m, hrun, hcollects⟩ := offerAll_collects hnone hoffers
  have hpaths := isText_of_mem_nodes hoffers hcollects.nodes
  refine ⟨answers, m, hrun, ?_, fun o ho => ?_, fun more hmore => ?_, ?_⟩
  · exact
      { length := hcollects.length
        answer := hcollects.answer
        nodes := hcollects.nodes
        transitions := hcollects.transitions
        found := fun path n => find?_eq_some_iff hpaths }
  · rcases m.offer_cases ho with ⟨-, hoffer⟩ | ⟨-, hgains⟩
    · exact .inl hoffer
    · exact .inr hgains
  · obtain ⟨moreAnswers, m', hrunMore, hmoreCollects⟩ := offerAll_collects hcollects.holds hmore
    refine ⟨moreAnswers, m', offerAll_append hrun hrunMore, hrunMore, fun root hroot => ?_, fun t ht => ?_⟩
    -- later nodes and transitions stand behind the ones that were found
    · rw [root?, hmoreCollects.nodes]
      exact find?_append_of_some hroot _
    · rw [initialTransition?, hmoreCollects.transitions]
      exact find?_append_of_some ht _
  · exact markInitial_classifies hpaths (source_of_mem_transitions hoffers hcollects.transitions)

/-- Offers of which every second one comes too late: a node whose path is taken, a transition whose chosen key
is the path of another one, and an object that was offered before. -/
def lampOffers : List Offer :=
  [.node { kind := .initial, path := .str "/start" },
    .node { kind := .state, path := .str "/start" },
    .transition { kind := .external, src := .str "/start", path := .str "/go" } none 0,
    .transition { kind := .internal, src := .str "/on" } (some "/go") 1,
    .transition { kind := .external, src := .str "/on", path := .str "" } none 2,
    .transition { kind := .external, src := .str "/on", path := .str "" } none 2]

/-- Every second one of these is not taken. -/
theorem offers_collected_lamp :
    (∀ o ∈ lampOffers, o.HasTexts) ∧
    ∃ answers m, offerAll {} lampOffers = .ok (answers, m) ∧
      answers = [true, false, true, false, true, false] ∧ Collected lampOffers answers m ∧
      ∃ m', m.markInitial = .ok m' ∧ m.Classifies m' ∧ m'.markInitial = .ok m' := by
  have htexts : ∀ o ∈ lampOffers, o.HasTexts := by
    simp [lampOffers, Offer.HasTexts, Data.IsTextOrNull]
  obtain ⟨answers, m, hrun, hcollected, -, -, hmarked⟩ := offers_collected lampOffers htexts
  have hanswers : (offerAll {} lampOffers).toOption.map (·.1) =
      some [true, false, true, false, true, false] := by decide +kernel
  rw [hrun] at hanswers
  exact ⟨htexts, answers, m, hrun, Option.some.inj hanswers, hcollected, hmarked⟩

end Machine

end HomeAutomaton

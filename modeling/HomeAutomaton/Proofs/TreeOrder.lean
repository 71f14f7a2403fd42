import HomeAutomaton.Proofs.Traversal
import Mathlib.Logic.Relation

/-!
# Each record once, and in which order

The walk of a tree visits a record of the graph in each step, and never one twice, so it ends. The nodes
come in two parts: first those of the records that stand below the root, through lists of children alone,
and then those of the records that only transitions lead to. The reason is that a visit covers whatever
stands below what it starts from (`Tour.Covers`): the first visit leaves nothing below the root for later.

* `Machine.Walk.Run` is a run of the walk, with the records that it visits.
* `Tour.Visits.covers` is about one visit and `Tour.extends_of_drain` about all that come after the first.
* `Machine.ofTree_eq_traverse` is the whole.
-/

namespace HomeAutomaton

/-! ### Runs -/

namespace Machine

variable {g : Graph}

/-- A run of the walk: the records visited, in order, and where it has come to. -/
inductive Walk.Run (g : Graph) : Walk → List Record → Walk → Prop where
  | stay {w : Walk} : Walk.Run g w [] w
  | step {w w' w₁ last : Walk} {r : Record} {rs : List Record} : w.next? = some (r, w') →
      (visit g r w').result = .ok w₁ → Walk.Run g w₁ rs last → Walk.Run g w (r :: rs) last

/-- A run visits records that were not visited before, none of them twice, and not more of them than
there are left. -/
theorem Walk.Run.nodup {w last : Walk} {rs : List Record} (h : Walk.Run g w rs last)
    (hin : w.IsIn g) :
    (rs.map (·.label)).Nodup ∧ (∀ r ∈ rs, r.label ∉ w.seen) ∧
      rs.length ≤ (Tour.unseen g w.seen).length := by
  -- along the run; each step visits one of the records left
  induction h with
  | stay => exact ⟨List.nodup_nil, fun r hr => absurd hr List.not_mem_nil, Nat.zero_le _⟩
  | step hnext hvisit _ ih =>
    obtain ⟨hnew, hin₁, hseen, hlt⟩ := visit_eq_ok hin hnext hvisit
    obtain ⟨hnodup, hlater, hlength⟩ := ih hin₁
    rw [hseen] at hlater
    refine ⟨List.nodup_cons.mpr ⟨fun hmem => ?_, hnodup⟩, List.forall_mem_cons.mpr ⟨hnew, ?_⟩, ?_⟩
    · obtain ⟨r', hr', hsame⟩ := List.mem_map.mp hmem
      exact hlater r' hr' (hsame ▸ List.mem_cons_self)
    · exact fun r' hr' hold => hlater r' hr' (List.mem_cons_of_mem _ hold)
    · rw [List.length_cons]
      omega

/-- A walk with a result has run until nothing was left to visit. -/
theorem exists_run_of_finish {k : Nat} {w : Walk} {m : Machine} (hin : w.IsIn g)
    (hk : (Tour.unseen g w.seen).length ≤ k) (h : (walk g k w).result = .ok m) :
    ∃ rs last, Walk.Run g w rs last ∧ last.next? = none ∧ last.machine = m := by
  -- on the steps left, which are no fewer than the records left
  induction k generalizing w with
  | zero => exact ⟨[], w, .stay, Walk.next?_eq_none hin (Nat.le_zero.mp hk), Except.ok.inj h⟩
  | succ k ih =>
    rw [walk] at h
    split at h
    next hnone => exact ⟨[], w, .stay, hnone, Except.ok.inj h⟩
    next r w' hnext =>
      obtain ⟨w₁, hvisit, h⟩ := Logged.bind_eq_ok.mp h
      obtain ⟨-, hin₁, -, hlt⟩ := visit_eq_ok hin hnext hvisit
      obtain ⟨rs, last, hrun, hlast⟩ := ih hin₁ (by omega) h
      exact ⟨r :: rs, last, .step hnext hvisit hrun, hlast⟩

end Machine

/-! ### What a visit covers -/

/-- The record stands below another one, through lists of children alone. -/
def Record.Below (g : Graph) (top r : Record) : Prop := Relation.ReflTransGen (Record.HasChild g) top r

namespace Tour

variable {g : Graph} {s s' s₁ : Tour} {rs : List Record} {r : Record}

/-- Whatever the record asks for is done: its children are visited, and a node with the path of its own
is there. -/
structure Settled (g : Graph) (s : Tour) (r : Record) : Prop where
  children : ∀ c, r.HasChild g c → c.label ∈ s.seen
  node : ∀ n, r.StandsFor g n → ∃ other ∈ s.machine.nodes, other.path.same n.path = true

/-- The second tour goes on from the first one: the nodes that it adds are those of records that were
not visited, and that have a property. -/
structure Extends (g : Graph) (p : Record → Prop) (s s' : Tour) : Prop where
  seen : s.seen ⊆ s'.seen
  nodes : ∃ added, s'.machine.nodes = s.machine.nodes ++ added ∧
    ∀ n ∈ added, ∃ r, r.IsIn g ∧ r.label ∉ s.seen ∧ p r ∧ r.StandsFor g n

namespace Extends

variable {p q : Record → Prop}

theorem refl : Extends g p s s :=
  ⟨fun _ h => h, [], (List.append_nil _).symm, fun _ hn => absurd hn List.not_mem_nil⟩

theorem mono (h : Extends g p s s') (himp : ∀ r, p r → q r) : Extends g q s s' := by
  obtain ⟨hseen, added, hnodes, hadded⟩ := h
  refine ⟨hseen, added, hnodes, fun n hn => ?_⟩
  obtain ⟨r, hr, hnew, hp, hstands⟩ := hadded n hn
  exact ⟨r, hr, hnew, himp r hp, hstands⟩

theorem trans (h : Extends g p s s₁) (h' : Extends g p s₁ s') : Extends g p s s' := by
  obtain ⟨hseen, first, hnodes, hfirst⟩ := h
  obtain ⟨hseen', second, hnodes', hsecond⟩ := h'
  refine ⟨fun l hl => hseen' (hseen hl), first ++ second, ?_, ?_⟩
  · rw [hnodes', hnodes, List.append_assoc]
  · refine List.forall_mem_append.mpr ⟨hfirst, fun n hn => ?_⟩
    obtain ⟨r, hr, hnew, hp, hstands⟩ := hsecond n hn
    exact ⟨r, hr, fun hold => hnew (hseen hold), hp, hstands⟩

theorem mem_nodes (h : Extends g p s s') {n : Node} (hn : n ∈ s.machine.nodes) :
    n ∈ s'.machine.nodes := by
  obtain ⟨added, hnodes, -⟩ := h.nodes
  rw [hnodes]
  exact List.mem_append_left added hn

/-- What is done stays done. -/
theorem settled (h : Extends g p s s') (hr : s.Settled g r) : s'.Settled g r := by
  refine ⟨fun c hc => h.seen (hr.children c hc), fun n hn => ?_⟩
  obtain ⟨other, hother, hsame⟩ := hr.node n hn
  exact ⟨other, h.mem_nodes hother, hsame⟩

/-- Reading a record adds at most its own node. -/
theorem of_enter (hin : r.IsIn g) (hfresh : s.IsFresh g r) {found : Record.Found}
    (hentered : r.Entered g s.machine found) : Extends g (· = r) s (s.enter r found) := by
  refine ⟨fun l hl => List.mem_cons_of_mem _ hl, ?_⟩
  rcases hentered.nodes with hsame | ⟨n, hn, hnodes⟩
  · exact ⟨[], by rw [List.append_nil]; exact hsame, fun _ hn => absurd hn List.not_mem_nil⟩
  · exact ⟨[n], hnodes, List.forall_mem_singleton.mpr ⟨r, hin, hfresh.2, rfl, hn⟩⟩

end Extends

/-- **What a visit covers.** It adds nodes of records below those it starts from; these are visited
afterwards, and every record that was visited on the way is settled. -/
structure Covers (g : Graph) (s : Tour) (rs : List Record) (s' : Tour) : Prop where
  extended : Extends g (fun r => ∃ top ∈ rs, Record.Below g top r) s s'
  tops : ∀ r ∈ rs, r.label ∈ s'.seen
  settled : ∀ r, r.IsIn g → r.label ∈ s'.seen → r.label ∈ s.seen ∨ s'.Settled g r

/-- **A visit covers what it starts from.** -/
theorem Visits.covers (h : Visits g s rs s') (hrs : ∀ r ∈ rs, r.IsIn g) : Covers g s rs s' := by
  -- on the visit: nothing left, a record passed over, or one that is read before its children
  induction h with
  | nil => exact ⟨.refl, fun r hr => absurd hr List.not_mem_nil, fun r _ hr => .inl hr⟩
  | @pass s s' r rest hfresh _ ih =>
    obtain ⟨hr, hrest⟩ := List.forall_mem_cons.mp hrs
    have hcovers := ih hrest
    -- what is passed over was seen before
    have hseen : r.label ∈ s.seen := by
      by_contra hnew
      exact hfresh ⟨hr.label_lt, hnew⟩
    refine ⟨hcovers.extended.mono fun x ⟨top, htop, hbelow⟩ =>
      ⟨top, List.mem_cons_of_mem r htop, hbelow⟩, ?_, hcovers.settled⟩
    exact List.forall_mem_cons.mpr ⟨hcovers.extended.seen hseen, hcovers.tops⟩
  | @enter s s₁ s' r rest found hfresh hfound _ _ ihc ihr =>
    obtain ⟨hr, hrest⟩ := List.forall_mem_cons.mp hrs
    have hentered := Record.entered_of_enter hfound
    have hchildren := ihc hentered.childrenIn
    have hlater := ihr hrest
    have hown := Extends.of_enter hr hfresh hentered
    have hbelow : Extends g (fun x => ∃ top ∈ r :: rest, Record.Below g top x) (s.enter r found) s₁ :=
      hchildren.extended.mono fun x ⟨c, hc, hx⟩ =>
        ⟨r, List.mem_cons_self, .head ((hentered.children c).mp hc) hx⟩
    have hbeside : Extends g (fun x => ∃ top ∈ r :: rest, Record.Below g top x) s₁ s' :=
      hlater.extended.mono fun x ⟨top, htop, hx⟩ => ⟨top, List.mem_cons_of_mem r htop, hx⟩
    -- its children are visited and its node is there, whatever comes after
    have hself : s'.Settled g r := by
      refine hbeside.settled ⟨fun c hc => hchildren.tops c ((hentered.children c).mpr hc), ?_⟩
      intro n hn
      obtain ⟨other, hother, hsame⟩ := hentered.node n hn
      exact ⟨other, hbelow.mem_nodes hother, hsame⟩
    refine ⟨(hown.mono fun x hx => ⟨r, List.mem_cons_self, hx ▸ .refl⟩).trans
      (hbelow.trans hbeside), ?_, fun x hx hseen => ?_⟩
    · refine List.forall_mem_cons.mpr ⟨?_, hlater.tops⟩
      exact hbeside.seen (hbelow.seen List.mem_cons_self)
    -- a record was visited after the children, among them, now, or before
    · rcases hlater.settled x hx hseen with hseen | hsettled
      · rcases hchildren.settled x hx hseen with hseen | hsettled
        · rcases List.mem_cons.mp hseen with hlabel | hseen
          · exact .inr (hx.eq_of_label hr hlabel ▸ hself)
          · exact .inl hseen
        · exact .inr (hbeside.settled hsettled)
      · exact .inr hsettled

/-- What is visited later adds nodes of records that were not visited before. -/
theorem extends_of_drain (hqueue : ∀ d ∈ s.queue, d.IsIn g) (h : (s.drain g).result = .ok s') :
    Extends g (fun _ => True) s s' := by
  induction s using Tour.drain.induct g with
  | case1 s hnil =>
    rw [drain_of_nil hnil] at h
    obtain rfl := Except.ok.inj h
    exact .refl
  | case2 s r queue hcons ih =>
    have hall : ∀ d ∈ r :: queue, d.IsIn g := hcons ▸ hqueue
    obtain ⟨hr, hrest⟩ := List.forall_mem_cons.mp hall
    rw [drain_of_cons hcons] at h
    obtain ⟨s₁, hs₁, h⟩ := Logged.bind_eq_ok.mp h
    have hvisits := visits_of_visit hs₁
    have hfirst := (hvisits.covers (List.forall_mem_singleton.mpr hr)).extended
    have hlater := ih s₁ (progress_of_visit hs₁) (hvisits.isIn_of_mem_queue hrest) h
    -- taking a record from the queue changes neither the nodes nor what was visited
    have hfirst' : Extends g (fun _ => True) s s₁ :=
      ⟨hfirst.seen, (hfirst.mono fun _ _ => trivial).nodes⟩
    exact hfirst'.trans hlater

end Tour

/-! ### Trees -/

namespace Machine

variable {g : Graph} {root : Record}

/-- The order of the nodes of a tree: the early ones are those of the records below the root, each
path of which is among them, and the late ones those of other records. -/
structure ChildrenFirst (g : Graph) (root : Record) (early late : List Node) : Prop where
  fromBelow : ∀ n ∈ early, ∃ r, Record.Below g root r ∧ r.StandsFor g n
  complete : ∀ r n, Record.Below g root r → r.StandsFor g n →
    ∃ other ∈ early, other.path.same n.path = true
  fromOthers : ∀ n ∈ late, ∃ r, r.IsIn g ∧ ¬ Record.Below g root r ∧ r.StandsFor g n

/-- The first visit settles whatever stands below the root, so all nodes that come later are those of
other records. -/
theorem childrenFirst_of_traverse (hroot : root.IsIn g) {m : Machine}
    (h : (traverse g root).result = .ok m) :
    ∃ early late, m.nodes = early ++ late ∧ ChildrenFirst g root early late := by
  obtain ⟨s, hs, h⟩ := Logged.bind_eq_ok.mp h
  obtain ⟨s', hs', h⟩ := Logged.bind_eq_ok.mp h
  obtain rfl := Except.ok.inj h
  have hvisits := Tour.visits_of_visit hs
  have hcovers := hvisits.covers (List.forall_mem_singleton.mpr hroot)
  have hsettled : ∀ r, r.IsIn g → r.label ∈ s.seen → s.Settled g r := fun r hr hseen =>
    (hcovers.settled r hr hseen).resolve_left List.not_mem_nil
  -- below the root everything is visited, child by child, since what is visited is settled
  have hbelow : ∀ r, Record.Below g root r → r.IsIn g ∧ r.label ∈ s.seen := by
    intro r hr
    induction hr with
    | refl => exact ⟨hroot, hcovers.tops root List.mem_cons_self⟩
    | tail _ hchild ih =>
      obtain ⟨-, cs, hcs, hc⟩ := id hchild
      exact ⟨Record.isIn_of_mem_childrenIn hcs _ hc, (hsettled _ ih.1 ih.2).children _ hchild⟩
  obtain ⟨early, hearly, hfrom⟩ := hcovers.extended.nodes
  obtain ⟨late, hlate, hrest⟩ :=
    (Tour.extends_of_drain (hvisits.isIn_of_mem_queue fun d hd => absurd hd List.not_mem_nil) hs').nodes
  refine ⟨early, late, by rw [hlate, hearly]; rfl, fun n hn => ?_, fun r n hr hn => ?_, fun n hn => ?_⟩
  · obtain ⟨r, -, -, ⟨top, htop, hr⟩, hstands⟩ := hfrom n hn
    exact ⟨r, List.mem_singleton.mp htop ▸ hr, hstands⟩
  · obtain ⟨hin, hseen⟩ := hbelow r hr
    have hnode := (hsettled r hin hseen).node n hn
    rwa [hearly] at hnode
  · obtain ⟨r, hin, hnew, -, hstands⟩ := hrest n hn
    exact ⟨r, hin, fun hr => hnew (hbelow r hr).2, hstands⟩

/-- **Collecting a tree is the recursive traversal of its records.** Whatever the graph, records shared
and in circles included: the walk does the same as the recursion, reports and faults included; it visits
no record twice, and as many steps as there are objects are enough; from well-typed records it gives a
machine, unless it meets a type that cannot be written; and the nodes of records below the root come
before those of all others. -/
theorem ofTree_eq_traverse {v : Value} (hroot : g.record? v = some root) :
    ofTree g root = traverse g root ∧
    (∀ rs last, Walk.Run g { pending := [root] } rs last →
      (rs.map (·.label)).Nodup ∧ rs.length ≤ g.cells.size) ∧
    (∀ k, g.cells.size ≤ k → walk g k { pending := [root] } = ofTree g root) ∧
    ((∀ r, Record.Reachable g root r → r.WellTyped g ∧ r.WellGrown g) →
      (ofTree g root).Ends (Fault.Mistyped g (Record.Met g root)) fun _ => True) ∧
    ∀ m, (ofTree g root).result = .ok m →
      (∃ rs last, Walk.Run g { pending := [root] } rs last ∧ last.next? = none ∧
        last.machine = m) ∧
      ∃ early late, m.nodes = early ++ late ∧ ChildrenFirst g root early late := by
  have hin : root.IsIn g := Record.isIn_of_record? hroot
  have hstart : Walk.IsIn g { pending := [root] } :=
    ⟨List.forall_mem_singleton.mpr hin, fun d hd => absurd hd List.not_mem_nil⟩
  -- no record is visited twice, so there are no more steps than objects
  have henough := Tour.unseen_length_le g []
  refine ⟨ofTree_eq hin, fun rs last hrun => ?_, fun k hk => ?_, fun htyped => ?_, fun m hm => ?_⟩
  · obtain ⟨hnodup, -, hlength⟩ := hrun.nodup hstart
    exact ⟨hnodup, Nat.le_trans hlength henough⟩
  · exact walk_congr hstart (Nat.le_trans henough hk) (Nat.le_succ_of_le henough)
  · exact (ofTree_wellTyped htyped).mono fun _ _ _ => trivial
  · refine ⟨exists_run_of_finish hstart (Nat.le_succ_of_le henough) hm, ?_⟩
    exact childrenFirst_of_traverse hin (ofTree_eq hin ▸ hm)

/-- A machine full of circles: `/b` stands in its own list of children, with `/a`; `/c` is no child, but
a transition of `/a` leads to its record, and one of `/c` leads back. -/
def circleGraph : Graph :=
  { cells := #[
      .map [(.str "type", .str "State Machine"), (.str "path", .str "/m"), (.str "State_list", .ref 1)],
      .list [.ref 2, .ref 3],
      .map [(.str "type", .str "State"), (.str "path", .str "/a"), (.str "ExternalTransitions", .ref 4)],
      .map [(.str "type", .str "State"), (.str "path", .str "/b"), (.str "children", .ref 1)],
      .list [.ref 5],
      .map [(.str "path", .str "/t"), (.str "dst", .ref 6)],
      .map [(.str "type", .str "State"), (.str "path", .str "/c"), (.str "ExternalTransitions", .ref 7)],
      .list [.ref 8],
      .map [(.str "path", .str "/u"), (.str "dst", .ref 2)]] }

/-- The record of the machine. -/
def circleRoot : Record :=
  ⟨0, [(.str "type", .str "State Machine"), (.str "path", .str "/m"), (.str "State_list", .ref 1)]⟩

/-- The walk goes round no circle, and the record that is no child comes last. -/
theorem ofTree_eq_traverse_circle :
    circleGraph.record? (.ref 0) = some circleRoot ∧
    ofTree circleGraph circleRoot = traverse circleGraph circleRoot ∧
    (ofTree circleGraph circleRoot).result.toOption.map
      (fun m => (m.nodes.map (·.path.text), m.transitions.map (·.path.text))) =
        some (["/m", "/a", "/b", "/c"], ["/t", "/u"]) :=
  have hroot : circleGraph.record? (.ref 0) = some circleRoot := rfl
  ⟨hroot, (ofTree_eq_traverse hroot).1, by decide +kernel⟩

end Machine

end HomeAutomaton

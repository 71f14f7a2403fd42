import HomeAutomaton.Proofs.ScalarTexts
import Mathlib.Data.List.Count

/-!
# What becomes of the nodes of a document

While the value of a document is built, entries are moved from mapping to mapping, and a key `=` becomes a text.
That changes no scalar and makes none of a mapping, and it makes no links. So what is found of a node later on
is true of the nodes as they were.

A mapping may take over the entries of one that takes over those of the first. This comes to an end, since an
entry `<<` is dropped before it is followed: each mapping that is entered from another one finds fewer of them
than the other did.

* `Yaml.Nodes.Derived` says what nodes can become.
* `Yaml.Nodes.pending` counts the entries `<<`.
* `Yaml.Nodes.takeOver_ends` is the result: the nodes become nothing else, and there is an end to it.
-/

namespace HomeAutomaton.Yaml

open Building Relation

/-! ### Nodes that change -/

/-- The content may be what the content has become: only the entries of a mapping change. -/
inductive Content.Becomes : Content → Content → Prop
  | scalar (text : String) : Becomes (.scalar text) (.scalar text)
  | sequence (items : List Nat) : Becomes (.sequence items) (.sequence items)
  | mapping (entries entries' : List (Nat × Nat)) : Becomes (.mapping entries) (.mapping entries')

theorem Content.Becomes.refl (content : Content) : content.Becomes content := by
  cases content <;> constructor

theorem Content.Becomes.trans {c c' c'' : Content} (h : c.Becomes c') (h' : c'.Becomes c'') :
    c.Becomes c'' := by
  cases h <;> cases h' <;> constructor

/-- A scalar stays what it is, and nothing becomes one. -/
theorem Content.Becomes.eq_scalar_iff {c c' : Content} (h : c.Becomes c') {text : String} :
    c' = .scalar text ↔ c = .scalar text := by
  cases h with
  | scalar | sequence => exact Iff.rfl
  | mapping => exact ⟨nofun, nofun⟩

/-- A mapping stays a mapping, and nothing else becomes one. -/
theorem Content.Becomes.exists_mapping_iff {c c' : Content} (h : c.Becomes c') :
    (∃ entries, c' = .mapping entries) ↔ ∃ entries, c = .mapping entries := by
  cases h with
  | scalar | sequence => exact Iff.rfl
  | mapping entries entries' => exact ⟨fun _ => ⟨entries, rfl⟩, fun _ => ⟨entries', rfl⟩⟩

/-- The node may be what the node has become. A key `=` becomes a text. -/
structure Node.Becomes (n n' : Node) : Prop where
  tag : n'.tag = n.tag ∨ n.tag = .value ∧ n'.tag = .str
  content : n.content.Becomes n'.content

theorem Node.Becomes.trans {n n' n'' : Node} (h : n.Becomes n') (h' : n'.Becomes n'') : n.Becomes n'' := by
  refine ⟨?_, h.content.trans h'.content⟩
  rcases h'.tag with hsame | ⟨hvalue, hstr⟩
  · rcases h.tag with hsame' | ⟨hvalue, hstr⟩
    · exact .inl (hsame.trans hsame')
    · exact .inr ⟨hvalue, hsame.trans hstr⟩
  · rcases h.tag with hsame' | ⟨-, hstr'⟩
    · exact .inr ⟨hsame'.symm.trans hvalue, hstr⟩
    · rw [hstr'] at hvalue
      cases hvalue

/-- The keys `<<` stay, and there are no new ones. -/
theorem Node.Becomes.tag_merge_iff {n n' : Node} (h : n.Becomes n') : n'.tag = .merge ↔ n.tag = .merge := by
  rcases h.tag with hsame | ⟨hbefore, hafter⟩
  · rw [hsame]
  · rw [hbefore, hafter]
    exact ⟨nofun, nofun⟩

/-- A key that is `=` still was so before. -/
theorem Node.Becomes.tag_of_value {n n' : Node} (h : n.Becomes n') (hvalue : n'.tag = .value) :
    n.tag = .value := by
  rcases h.tag with hsame | ⟨hbefore, -⟩
  · exact hsame.symm.trans hvalue
  · exact hbefore

namespace Nodes

variable {nodes nodes' nodes'' : Array Node} {number other : Nat}

/-- The nodes are what the nodes have become. No links were added. -/
structure Derived (nodes nodes' : Array Node) : Prop where
  becomes : ∀ number, (nodes.getD number default).Becomes (nodes'.getD number default)
  leads : Leads nodes' ≤ Leads nodes

namespace Derived

theorem refl (nodes : Array Node) : Derived nodes nodes :=
  ⟨fun _ => ⟨.inl rfl, .refl _⟩, le_refl _⟩

/-- Changes of nodes can follow one another. -/
theorem trans (h : Derived nodes nodes') (h' : Derived nodes' nodes'') : Derived nodes nodes'' :=
  ⟨fun number => (h.becomes number).trans (h'.becomes number),
    h'.leads.trans h.leads⟩

/-- Mappings stay mappings, and nothing else becomes one. -/
theorem isMapping_iff (h : Derived nodes nodes') : IsMapping nodes' number ↔ IsMapping nodes number :=
  (h.becomes number).content.exists_mapping_iff

/-- The texts of scalars stay. -/
theorem scalar_iff (h : Derived nodes nodes') {text : String} :
    (nodes'.getD number default).content = .scalar text ↔
      (nodes.getD number default).content = .scalar text := (h.becomes number).content.eq_scalar_iff

/-- Apart from texts, a node is of the type that it was of. -/
theorem tag_eq (h : Derived nodes nodes') (htag : (nodes'.getD number default).tag ≠ .str) :
    (nodes.getD number default).tag = (nodes'.getD number default).tag := by
  rcases (h.becomes number).tag with hsame | ⟨-, hstr⟩
  · exact hsame.symm
  · exact absurd hstr htag

/-- What text a node has was there before. -/
theorem hasText (h : Derived nodes nodes') {text : String} (htext : HasText nodes' number text) :
    HasText nodes number text := by
  obtain ⟨other, hway, hscalar⟩ := htext
  exact ⟨other, ReflTransGen.mono h.leads _ _ hway, h.scalar_iff.mp hscalar⟩

theorem circles (h : Derived nodes nodes') (hcircles : Circles nodes' number) : Circles nodes number := by
  obtain ⟨other, hway, hround⟩ := hcircles
  exact ⟨other, ReflTransGen.mono h.leads _ _ hway, TransGen.mono h.leads _ _ hround⟩

end Derived

/-- A change of one node is one of that node alone. -/
theorem getD_modify (change : Node → Node) :
    (nodes.modify number change).getD other default =
      if number = other ∧ other < nodes.size then change (nodes.getD other default)
      else nodes.getD other default := by
  simp only [Array.getD_eq_getD_getElem?, Array.getElem?_modify]
  by_cases heq : number = other
  · subst heq
    by_cases hlt : number < nodes.size <;> simp [hlt]
  · simp [heq]

/-- A key `=` becomes a text. -/
theorem derived_modify_tag (htag : (nodes.getD number default).tag = .value) :
    Derived nodes (nodes.modify number fun node => { node with tag := .str }) := by
  constructor
  · intro other
    rw [getD_modify]
    split
    next heq =>
      obtain ⟨rfl, -⟩ := heq
      exact ⟨.inr ⟨htag, rfl⟩, .refl _⟩
    next => exact ⟨.inl rfl, .refl _⟩
  -- the key that became a text is no link any more
  · rintro number' other ⟨entries, key, hcontent, hentry, hvalue⟩
    refine ⟨entries, key, ?_, hentry, ?_⟩
    · rw [getD_modify] at hcontent
      split at hcontent <;> exact hcontent
    · rw [getD_modify] at hvalue
      split at hvalue
      next => cases hvalue
      next => exact hvalue

/-- Nothing is left to be done for the entries: none is a link, and none stands for entries elsewhere. -/
def Settled (nodes : Array Node) (entries : List (Nat × Nat)) : Prop :=
  ∀ e ∈ entries, (nodes.getD e.1 default).tag ≠ .value ∧ (nodes.getD e.1 default).tag ≠ .merge

/-- Without entries there is nothing to be done. -/
theorem Settled.nil : Settled nodes [] := fun _ h => absurd h List.not_mem_nil

theorem Settled.append {es es' : List (Nat × Nat)} (h : Settled nodes es) (h' : Settled nodes es') :
    Settled nodes (es ++ es') :=
  List.forall_mem_append.mpr ⟨h, h'⟩

/-- What is settled stays settled. -/
theorem Derived.settled (h : Derived nodes nodes') {entries : List (Nat × Nat)}
    (hsettled : Settled nodes entries) : Settled nodes' entries := by
  intro e he
  have hbecomes := h.becomes e.1
  exact ⟨fun hvalue => (hsettled e he).1 (hbecomes.tag_of_value hvalue),
    fun hmerge => (hsettled e he).2 (hbecomes.tag_merge_iff.mp hmerge)⟩

/-- The entries of a mapping change, and those that are links were so before. -/
theorem derived_setEntries (hmapping : IsMapping nodes number) {entries : List (Nat × Nat)}
    (hlinks : ∀ e ∈ entries, (nodes.getD e.1 default).tag = .value → Leads nodes number e.2) :
    Derived nodes (setEntries nodes number entries) := by
  obtain ⟨before, hbefore⟩ := hmapping
  -- no tag changes
  have htag : ∀ key, ((setEntries nodes number entries).getD key default).tag
      = (nodes.getD key default).tag := by
    intro key
    rw [setEntries, getD_modify]
    split <;> rfl
  constructor
  · intro other
    refine ⟨.inl (htag other), ?_⟩
    rw [setEntries, getD_modify]
    split
    next heq =>
      obtain ⟨rfl, -⟩ := heq
      rw [hbefore]
      exact .mapping _ _
    next => exact .refl _
  -- a link in the mapping is one of the new entries, any other one was there before
  · rintro number' other ⟨entries', key, hcontent, hentry, hvalue⟩
    rw [htag] at hvalue
    rw [setEntries, getD_modify] at hcontent
    split at hcontent
    next heq =>
      obtain ⟨rfl, -⟩ := heq
      obtain rfl := Content.mapping.inj hcontent
      exact hlinks _ hentry hvalue
    next => exact ⟨entries', key, hcontent, hentry, hvalue⟩

/-- Settled entries may be put into any mapping. -/
theorem derived_setEntries_settled (hmapping : IsMapping nodes number) {entries : List (Nat × Nat)}
    (hsettled : Settled nodes entries) : Derived nodes (setEntries nodes number entries) :=
  derived_setEntries hmapping fun e he hvalue => absurd hvalue (hsettled e he).1

/-- An entry of a mapping is dropped. -/
theorem derived_dropEntry (hmapping : IsMapping nodes number) (entry : Nat × Nat) :
    Derived nodes
      (setEntries nodes number (((entriesOf? nodes number).getD []).erase entry)) := by
  refine derived_setEntries hmapping fun e he hvalue => ?_
  obtain ⟨entries, hcontent⟩ := hmapping
  have hentries : entriesOf? nodes number = some entries := by rw [entriesOf?, hcontent]
  rw [hentries] at he
  exact ⟨entries, e.1, hcontent, List.mem_of_mem_erase he, hvalue⟩

/-- What has entries is a mapping. -/
theorem isMapping_of_entriesOf? (h : (entriesOf? nodes number).isNone = false) : IsMapping nodes number := by
  rw [entriesOf?] at h
  split at h
  next entries hcontent => exact ⟨entries, hcontent⟩
  next => cases h

/-! ### Entries that are to be taken over -/

/-- The entry stands for entries elsewhere. -/
def isMerge (nodes : Array Node) (entry : Nat × Nat) : Bool :=
  (nodes.getD entry.1 default).tag == .merge

/-- How many entries `<<` all mappings have. -/
def pending (nodes : Array Node) : Nat := (allEntries nodes).countP (isMerge nodes)

/-- There are no more entries `<<` than entries. -/
theorem pending_le_length (nodes : Array Node) : pending nodes ≤ (allEntries nodes).length :=
  List.countP_le_length

/-- Changes leave the entries `<<` what they are. -/
theorem Derived.isMerge_eq (h : Derived nodes nodes') : isMerge nodes' = isMerge nodes := by
  funext entry
  rw [isMerge, isMerge, Bool.eq_iff_iff, beq_iff_eq, beq_iff_eq]
  exact (h.becomes entry.1).tag_merge_iff

/-- Settled entries do not count. -/
theorem Settled.countP_eq_zero {entries : List (Nat × Nat)} (h : Settled nodes entries) :
    entries.countP (isMerge nodes) = 0 :=
  List.countP_eq_zero.mpr fun e he hmerge => (h e he).2 (eq_of_beq hmerge)

/-- Where one of several lists is changed, what is counted in all of them changes by as much as in that one. -/
theorem countP_flatMap_modify {α β : Type} (p : β → Bool) (items : α → List β) (change : α → α) {as : List α}
    {i : Nat} (h : i < as.length) :
    ((as.modify i change).flatMap items).countP p + (items as[i]).countP p =
      (as.flatMap items).countP p + (items (change as[i])).countP p := by
  induction as generalizing i with
  | nil => exact absurd h (Nat.not_lt_zero i)
  | cons a as ih =>
    cases i with
    | zero =>
      simp only [List.modify_zero_cons, List.flatMap_cons, List.countP_append, List.getElem_cons_zero]
      omega
    | succ i =>
      have hrest := ih (Nat.lt_of_succ_lt_succ h)
      simp only [List.modify_succ_cons, List.flatMap_cons, List.countP_append, List.getElem_cons_succ]
      omega

/-- Other entries for a mapping change the count by as many as they have more. -/
theorem pending_setEntries {before : List (Nat × Nat)}
    (hbefore : (nodes.getD number default).content = .mapping before) {entries : List (Nat × Nat)}
    (h : Derived nodes (setEntries nodes number entries)) :
    pending (setEntries nodes number entries) + before.countP (isMerge nodes) =
      pending nodes + entries.countP (isMerge nodes) := by
  have hlt := lt_size_of_mapping hbefore
  rw [Array.getD_eq_getD_getElem?, Array.getElem?_eq_getElem hlt, Option.getD_some] at hbefore
  rw [pending, h.isMerge_eq, allEntries, setEntries, Array.toList_modify, pending, allEntries]
  have hcount := countP_flatMap_modify (isMerge nodes) (fun node : Node => node.content.entries)
    (fun node => { node with content := .mapping entries }) hlt
  rw [Array.getElem_toList, hbefore] at hcount
  exact hcount

/-- A key that becomes a text does not count. -/
theorem pending_modify_tag (h : Derived nodes (nodes.modify number fun node => { node with tag := .str })) :
    pending (nodes.modify number fun node => { node with tag := .str }) = pending nodes := by
  rw [pending, h.isMerge_eq, allEntries, Array.toList_modify, pending, allEntries]
  by_cases hlt : number < nodes.toList.length
  · have hcount := countP_flatMap_modify (isMerge nodes) (fun node : Node => node.content.entries)
      (fun node => { node with tag := .str }) hlt
    exact Nat.add_right_cancel hcount
  · rw [List.modify_eq_self (Nat.le_of_not_lt hlt)]

/-- Dropping an entry that is there leaves fewer, and dropping one that is not leaves no more. -/
theorem pending_dropEntry (hmapping : IsMapping nodes number) {entry : Nat × Nat}
    (hmerge : isMerge nodes entry = true) :
    pending (setEntries nodes number (((entriesOf? nodes number).getD []).erase entry)) +
      (if entry ∈ (entriesOf? nodes number).getD [] then 1 else 0) ≤ pending nodes := by
  have hderived := derived_dropEntry hmapping entry
  obtain ⟨entries, hcontent⟩ := hmapping
  have hentries : (entriesOf? nodes number).getD [] = entries := by rw [entriesOf?, hcontent, Option.getD_some]
  rw [hentries] at hderived ⊢
  have hcount := pending_setEntries hcontent hderived
  rw [List.countP_erase] at hcount
  -- an entry that was dropped before is not there to be dropped again
  by_cases hentry : entry ∈ entries
  · have hpos : 0 < entries.countP (isMerge nodes) := List.countP_pos_iff.mpr ⟨entry, hentry, hmerge⟩
    rw [if_pos ⟨hentry, hmerge⟩] at hcount
    rw [if_pos hentry]
    omega
  · rw [if_neg fun h => hentry h.1] at hcount
    rw [if_neg hentry]
    omega

/-- What is settled adds nothing to the count. -/
theorem pending_setEntries_settled (hmapping : IsMapping nodes number) {entries : List (Nat × Nat)}
    (hsettled : Settled nodes entries) : pending (setEntries nodes number entries) ≤ pending nodes := by
  have hderived := derived_setEntries_settled hmapping hsettled
  obtain ⟨before, hbefore⟩ := hmapping
  have hcount := pending_setEntries hbefore hderived
  rw [hsettled.countP_eq_zero] at hcount
  omega

/-! ### Taking entries over -/

/-- What is known of entries that were taken over: the nodes are what they can have become, no more entries
are pending, and nothing is left to be done for those that were taken. -/
structure Sound (nodes : Array Node) (taken : Taken) : Prop where
  derived : Derived nodes taken.2
  pending_le : pending taken.2 ≤ pending nodes
  settled : Settled taken.2 taken.1

/-- What is known while the entries of a mapping are gone through. As long as none was taken over, they are
what they were; afterwards fewer are pending than before. -/
structure Midway (number : Nat) (nodes : Array Node) (state : Taking) : Prop where
  derived : Derived nodes state.nodes
  underway : (entriesOf? state.nodes number = entriesOf? nodes number ∧ pending state.nodes = pending nodes) ∨
    pending state.nodes < pending nodes
  own : Settled state.nodes state.own
  taken : Settled state.nodes state.taken

/-- There are never more pending entries than at first. -/
theorem Midway.pending_le {state : Taking} (h : Midway number nodes state) :
    pending state.nodes ≤ pending nodes := by
  rcases h.underway with ⟨-, hsame⟩ | hless
  · exact hsame.le
  · exact hless.le

/-- A key that becomes a text leaves all entries as they are. -/
theorem entriesOf?_modify_tag {key : Nat} :
    entriesOf? (nodes.modify key fun node => { node with tag := .str }) number = entriesOf? nodes number := by
  have hcontent : ((nodes.modify key fun node => { node with tag := .str }).getD number default).content =
      (nodes.getD number default).content := by
    rw [getD_modify]
    split <;> rfl
  rw [entriesOf?, entriesOf?, hcontent]

/-- Once an entry is dropped, fewer are pending. -/
theorem Midway.dropEntry {state : Taking} (h : Midway number nodes state) (hmapping : IsMapping nodes number)
    {entry : Nat × Nat} (hentry : entry ∈ (entriesOf? nodes number).getD [])
    (hmerge : (state.nodes.getD entry.1 default).tag = .merge) :
    pending (setEntries state.nodes number (((entriesOf? state.nodes number).getD []).erase entry)) <
      pending nodes := by
  have hdropped := pending_dropEntry (h.derived.isMapping_iff.mpr hmapping) (beq_iff_eq.mpr hmerge)
  rcases h.underway with ⟨hsame, hpending⟩ | hless
  · rw [if_pos (hsame ▸ hentry)] at hdropped
    omega
  · omega

section Steps

variable {limit : Nat} {take : Array Node → Nat → Except LoadError Taken}
  (htake : ∀ {nodes number}, IsMapping nodes number → pending nodes < limit →
    Ends (· = .malformed) (take nodes number) (Sound nodes))

include htake

/-- The entries of several mappings are taken over one mapping after the other. -/
theorem takeAll_ends (hlimit : pending nodes < limit) (sources : List Nat) :
    Ends (· = .malformed) (takeAll take nodes sources) (Sound nodes) := by
  rw [takeAll]
  refine (Ends.foldlM (fun state => (Derived nodes state.2 ∧ pending state.2 ≤ pending nodes) ∧
    ∀ es ∈ state.1, Settled state.2 es) ⟨⟨.refl _, le_rfl⟩, fun _ h => absurd h List.not_mem_nil⟩
    fun source _ state hstate => ?_).bind fun state hstate => Ends.ok ?_
  · obtain ⟨lists, nodes'⟩ := state
    obtain ⟨⟨hderived, hpending⟩, hlists⟩ := hstate
    dsimp only at hderived hpending hlists ⊢
    -- a mapping is needed to take entries from
    split
    next => exact rfl
    next hsource =>
      rw [Bool.not_eq_true] at hsource
      have hless := hpending.trans_lt hlimit
      refine (htake (isMapping_of_entriesOf? hsource) hless).bind fun more hmore => Ends.ok ?_
      refine ⟨⟨hderived.trans hmore.derived, hmore.pending_le.trans hpending⟩,
        List.forall_mem_cons.mpr ⟨hmore.settled, fun es hes => ?_⟩⟩
      exact hmore.derived.settled (hlists es hes)
  · obtain ⟨⟨hderived, hpending⟩, hlists⟩ := hstate
    refine ⟨hderived, hpending, fun e he => ?_⟩
    obtain ⟨es, hes, he⟩ := List.mem_flatten.mp he
    exact hlists es hes e he

/-- What stands behind a key `<<` is a mapping or several of them, or it is malformed. -/
theorem takeFrom_ends (hlimit : pending nodes < limit) (number : Nat) :
    Ends (· = .malformed) (takeFrom take nodes number) (Sound nodes) := by
  rw [takeFrom]
  split
  next entries hcontent => exact htake ⟨entries, hcontent⟩ hlimit
  next sources _ => exact takeAll_ends htake hlimit sources
  next => exact rfl

/-- **One entry more** keeps up what is known. -/
theorem takeStep_ends (hmapping : IsMapping nodes number) (hlimit : pending nodes ≤ limit) {state : Taking}
    (h : Midway number nodes state) {entry : Nat × Nat} (hentry : entry ∈ (entriesOf? nodes number).getD []) :
    Ends (· = .malformed) (takeStep take number state entry) (Midway number nodes) := by
  rw [takeStep]
  split
  next hmerge =>
    -- the entry is dropped, and the entries that it stands for are taken
    have hdropped := derived_dropEntry (h.derived.isMapping_iff.mpr hmapping) entry
    have hless := h.dropEntry hmapping hentry hmerge
    refine (takeFrom_ends htake (hless.trans_le hlimit) entry.2).bind fun more hmore => Ends.ok ?_
    have hlater := hdropped.trans hmore.derived
    exact ⟨h.derived.trans hlater, .inr (hmore.pending_le.trans_lt hless), hlater.settled h.own,
      (hlater.settled h.taken).append hmore.settled⟩
  next htag =>
    -- the key becomes a text, and the entry is no link any more
    have hlater := derived_modify_tag htag
    refine Ends.ok ⟨h.derived.trans hlater, ?_, (hlater.settled h.own).append ?_, hlater.settled h.taken⟩
    · rw [entriesOf?_modify_tag, pending_modify_tag hlater]
      exact h.underway
    · refine List.forall_mem_singleton.mpr ?_
      rw [getD_modify]
      split
      next => exact ⟨nofun, nofun⟩
      next hbeyond =>
        -- beyond the last node there is no key `=`
        rw [Array.getD_eq_getD_getElem?, Array.getElem?_eq_none (by omega)] at htag
        cases htag
  next hmerge hvalue =>
    exact Ends.ok
      ⟨h.derived, h.underway, h.own.append (List.forall_mem_singleton.mpr ⟨hvalue, hmerge⟩), h.taken⟩

end Steps

/-- **Entries that are taken over** change nothing else, and nothing is left to be done for them. There is an
end to it where the depth allows for all that are pending. -/
theorem takeOver_ends {depth : Nat} (hmapping : IsMapping nodes number) (hdepth : pending nodes < depth) :
    Ends (· = .malformed) (takeOver depth nodes number) (Sound nodes) := by
  induction depth generalizing number nodes with
  | zero => exact absurd hdepth (Nat.not_lt_zero _)
  | succ depth ih =>
    rw [takeOver]
    refine Ends.bind (Ends.foldlM (Midway number nodes) ⟨.refl _, .inl ⟨rfl, rfl⟩, .nil, .nil⟩
      fun entry hentry state hstate =>
        takeStep_ends ih hmapping (Nat.le_of_lt_succ hdepth) hstate hentry) fun state hstate => Ends.ok ?_
    -- when all entries are gone through, they are written into the mapping
    have hmapping' := hstate.derived.isMapping_iff.mpr hmapping
    have hsettled := hstate.taken.append hstate.own
    have hlast := derived_setEntries_settled hmapping' hsettled
    have hpending := pending_setEntries_settled hmapping' hsettled
    exact ⟨hstate.derived.trans hlast, hpending.trans hstate.pending_le, hlast.settled hsettled⟩

end Nodes

end HomeAutomaton.Yaml

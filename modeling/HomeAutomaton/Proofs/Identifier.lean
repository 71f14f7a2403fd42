import HomeAutomaton.Data.Table
import HomeAutomaton.Machine.Identifier
import Mathlib.Data.List.Nodup

/-!
# Identifiers are never given twice

The identifiers of a list of states are allotted one after the other, and what a state gets depends on
all that were given before it: a base that looks like a numbered one may be taken by an earlier state
whose own base was taken, and so on. The invariant is the whole list of those given so far.

* `IsFresh` says what a base becomes when some identifiers are given: itself, or else the base with the
  least number from 2 on that makes it a new one. The search for it always comes to an end, since the
  candidates are all different (`identifierCandidate_injective`).
* `allotted` lists the identifiers in the order of the states; `identifiersFrom_eq` reads table and
  reports of `identifiersFrom` off it.
* `Allotment` gathers what is to be said about identifiers, and `identifiersOf_allotment` says it.
-/

namespace HomeAutomaton

/-! ### A fresh identifier -/

/-- A base with a number. -/
def numberedIdentifier (base : String) (n : Nat) : String := base ++ "_" ++ Text.decimal n

/-- The identifier that a base becomes when those in `taken` are given. -/
def IsFresh (taken : List String) (base identifier : String) : Prop :=
  (base ∉ taken ∧ identifier = base) ∨
  (base ∈ taken ∧ ∃ n, 2 ≤ n ∧ identifier = numberedIdentifier base n ∧ identifier ∉ taken ∧
    ∀ m, 2 ≤ m → m < n → numberedIdentifier base m ∈ taken)

namespace IsFresh

variable {taken taken' : List String} {base identifier : String}

/-- What is fresh is new. -/
theorem not_mem (h : IsFresh taken base identifier) : identifier ∉ taken := by
  rcases h with ⟨hbase, rfl⟩ | ⟨-, n, -, -, hnew, -⟩
  · exact hbase
  · exact hnew

/-- Only which identifiers are taken counts, and not their order. -/
theorem congr (hmem : ∀ x, x ∈ taken ↔ x ∈ taken') (h : IsFresh taken base identifier) :
    IsFresh taken' base identifier := by
  simp only [IsFresh, ← hmem]
  exact h

end IsFresh

/-- Numbers with one decimal are one number. -/
theorem decimal_natCast_injective : Function.Injective fun n : Nat => Text.decimal n := by
  intro m n h
  have hm : ¬ (m : Int) < 0 := by omega
  have hn : ¬ (n : Int) < 0 := by omega
  have hdigits : Text.digitsOf m = Text.digitsOf n := by
    simpa [Text.decimal, hm, hn, String.ofList_inj] using h
  -- the digits of a number can be read back as the number
  rw [← Nat.ofDigitChars_ten_toDigits (n := m), ← Nat.ofDigitChars_ten_toDigits (n := n)]
  exact congrArg (Nat.ofDigitChars 10 · 0) hdigits

/-- A number behind a base changes it. -/
theorem numberedIdentifier_ne_base (base : String) (n : Nat) : numberedIdentifier base n ≠ base := by
  intro h
  -- the underscore makes it longer
  have hlength := congrArg String.length h
  have hpos : "_".length = 1 := rfl
  simp only [numberedIdentifier, String.length_append] at hlength
  omega

/-- The candidates after the base itself are numbered from 2 on. -/
theorem identifierCandidate_succ (base : String) (n : Nat) :
    identifierCandidate base (n + 1) = numberedIdentifier base (n + 2) := rfl

/-- No two candidates for an identifier are equal. -/
theorem identifierCandidate_injective (base : String) :
    Function.Injective (identifierCandidate base) := by
  intro m n h
  -- candidate 0 is the base itself, all others have a number
  rcases m with _ | m <;> rcases n with _ | n
  · rfl
  · exact absurd h.symm (numberedIdentifier_ne_base base (n + 2))
  · exact absurd h (numberedIdentifier_ne_base base (m + 2))
  · have hdecimal : Text.decimal ((m + 2 : Nat) : Int) = Text.decimal ((n + 2 : Nat) : Int) := by
      simpa [identifierCandidate_succ, numberedIdentifier] using h
    have := decimal_natCast_injective hdecimal
    omega

/-- Among one candidate more than there are identifiers taken, one is free. -/
theorem exists_candidate_not_mem (base : String) (taken : List String) :
    ∃ n < taken.length + 1, identifierCandidate base n ∉ taken := by
  -- pigeonhole: otherwise the candidates are more different texts than there are in `taken`
  by_contra hall
  have hsub : (List.range (taken.length + 1)).map (identifierCandidate base) ⊆ taken := by
    intro x hx
    obtain ⟨n, hn, rfl⟩ := List.mem_map.mp hx
    by_contra hnot
    exact hall ⟨n, List.mem_range.mp hn, hnot⟩
  have hnodup : ((List.range (taken.length + 1)).map (identifierCandidate base)).Nodup :=
    List.nodup_range.map (identifierCandidate_injective base)
  have hle := hnodup.length_le_of_subset hsub
  rw [List.length_map, List.length_range] at hle
  omega

/-- The search for a fresh identifier finds it. -/
theorem freshIdentifier_isFresh (base : String) (taken : List String) :
    IsFresh taken base (freshIdentifier base taken) := by
  rw [freshIdentifier]
  cases hfind : (List.range (taken.length + 1)).find? fun n =>
      !taken.contains (identifierCandidate base n) with
  | none =>
    -- this cannot be: a free candidate is within the range that is searched
    obtain ⟨n, hn, hnew⟩ := exists_candidate_not_mem base taken
    have := List.find?_eq_none.mp hfind n (List.mem_range.mpr hn)
    simp [hnew] at this
  | some n =>
    -- the first free candidate: all before it are taken, the base among them
    obtain ⟨hnew, -, hbefore⟩ := List.find?_range_eq_some.mp hfind
    simp only [List.contains_eq_mem, Bool.not_eq_true', decide_eq_false_iff_not,
      Bool.not_not, decide_eq_true_eq] at hnew hbefore
    rcases n with _ | n
    · exact .inl ⟨hnew, rfl⟩
    · refine .inr ⟨hbefore 0 (Nat.succ_pos n), n + 2, by omega, rfl, hnew, fun m hm hlt => ?_⟩
      obtain ⟨k, rfl⟩ : ∃ k, m = k + 2 := ⟨m - 2, by omega⟩
      exact hbefore (k + 1) (by omega)

/-! ### One state after the other -/

/-- The identifiers of the states in their order, when those in `taken` are given already. -/
def allotted (taken : List String) : List Node → List String
  | [] => []
  | state :: rest =>
    let identifier := freshIdentifier state.identifierBase taken
    identifier :: allotted (identifier :: taken) rest

@[simp] theorem allotted_length (taken : List String) (states : List Node) :
    (allotted taken states).length = states.length := by
  induction states generalizing taken with
  | nil => rfl
  | cons state rest ih => rw [allotted, List.length_cons, List.length_cons, ih]

/-- Every identifier is fresh after those given before it. -/
theorem allotted_isFresh {taken : List String} {states : List Node} {i : Nat} {state : Node}
    {identifier : String} (hstate : states[i]? = some state)
    (hid : (allotted taken states)[i]? = some identifier) :
    IsFresh (taken ++ (allotted taken states).take i) state.identifierBase identifier := by
  induction states generalizing taken i with
  | nil => cases hstate
  | cons first rest ih =>
    have hfresh := freshIdentifier_isFresh first.identifierBase taken
    cases i with
    | zero =>
      obtain rfl := Option.some.inj hstate
      obtain rfl := Option.some.inj hid
      rwa [List.take_zero, List.append_nil]
    | succ i =>
      -- the identifier given first is in `taken` on one side and heads the list on the other
      refine (ih hstate hid).congr fun x => ?_
      simp only [allotted, List.take_succ_cons, List.mem_append, List.mem_cons]
      rw [or_assoc, or_left_comm]

/-- No identifier is given twice, and none of those taken. -/
theorem allotted_nodup (taken : List String) (states : List Node) :
    (allotted taken states).Nodup ∧ ∀ identifier ∈ allotted taken states, identifier ∉ taken := by
  induction states generalizing taken with
  | nil => exact ⟨List.nodup_nil, fun _ h => absurd h List.not_mem_nil⟩
  | cons state rest ih =>
    have hfresh := (freshIdentifier_isFresh state.identifierBase taken).not_mem
    -- the rest is allotted with this identifier taken, so none of it is given again
    obtain ⟨hnodup, hnew⟩ := ih (freshIdentifier state.identifierBase taken :: taken)
    refine ⟨List.nodup_cons.mpr ⟨fun h => hnew _ h List.mem_cons_self, hnodup⟩, ?_⟩
    intro identifier hmem
    rcases List.mem_cons.mp hmem with rfl | hmem
    · exact hfresh
    · exact fun h => hnew _ hmem (List.mem_cons_of_mem _ h)

/-- What is reported of a state that gets an identifier. -/
def renamed? (e : Node × String) : Option Diagnostic :=
  if e.2 = e.1.identifierBase then none
  else some (.identifierTaken e.1.identifierBase e.1.path e.2)

/-- Table and reports are read off the list of identifiers. -/
theorem identifiersFrom_eq {table : Table String} {taken : List String} {states : List Node}
    (hpaths : ∀ s ∈ states, s.path.IsText) :
    identifiersFrom table taken states
      = ⟨.ok (table.putAll ((states.map (·.path)).zip (allotted taken states))),
          (states.zip (allotted taken states)).filterMap renamed?⟩ := by
  induction states generalizing table taken with
  | nil => rfl
  | cons state rest ih =>
    have hpath := hpaths state List.mem_cons_self
    have hrest := fun identifier => @ih (table.put state.path identifier) (identifier :: taken)
      fun s hs => hpaths s (List.mem_cons_of_mem _ hs)
    rw [identifiersFrom, hpath.hasLongNumber, hpath.isKey, allotted]
    dsimp only
    generalize freshIdentifier state.identifierBase taken = identifier
    -- only a changed base is reported
    by_cases hbase : identifier = state.identifierBase
    · subst hbase
      simp [hrest, Table.putAll, renamed?]
    · simp [hbase, hrest, Table.putAll, renamed?]
      rfl

/-- **What is to be said about identifiers.** The `ids` of the `states`, the table that holds them, and
what is reported. -/
structure Allotment (states : List Node) (ids : List String) (table : Table String)
    (log : List Diagnostic) : Prop where
  length : ids.length = states.length
  distinct : ids.Nodup
  /-- Every identifier is the one its state is to get after those of the states before it. -/
  fresh : ∀ i state identifier, states[i]? = some state → ids[i]? = some identifier →
    IsFresh (ids.take i) state.identifierBase identifier
  keys : ∀ key, key ∈ table.map (·.1) ↔ key ∈ states.map (·.path)
  keysDistinct : (table.map (·.1)).Nodup
  valuesDistinct : (table.map (·.2)).Nodup
  /-- Under its path a state finds its identifier, unless a later state has the same path. -/
  found : ∀ i state identifier, states[i]? = some state → ids[i]? = some identifier →
    (∀ later ∈ states.drop (i + 1), later.path ≠ state.path) →
    table.get? state.path = some identifier
  /-- One report for every state whose identifier is not its base, in their order. -/
  reported : log = (states.zip ids).filterMap renamed?
  warned : ∀ d ∈ log, d.level = .warning

/-- The table of the identifiers of the states. -/
def identifierTable (states : List Node) : Table String :=
  Table.putAll [] ((states.map (·.path)).zip (allotted [] states))

/-- For the identifiers of a machine none are given before. -/
theorem identifiersOf_eq {states : List Node} (hpaths : ∀ s ∈ states, s.path.IsText) :
    identifiersOf states
      = ⟨.ok (identifierTable states), (states.zip (allotted [] states)).filterMap renamed?⟩ :=
  identifiersFrom_eq hpaths

/-- **The identifiers that are allotted are as they should be.** -/
theorem allotment {states : List Node} (hpaths : ∀ s ∈ states, s.path.IsText) :
    Allotment states (allotted [] states) (identifierTable states)
      ((states.zip (allotted [] states)).filterMap renamed?) := by
  have hlength : (states.map (·.path)).length = (allotted [] states).length := by simp
  -- all keys of the table are paths of states, so they are texts
  have hkeys : ∀ e ∈ (states.map (·.path)).zip (allotted [] states), e.1.IsText := by
    intro e he
    obtain ⟨s, hs, hpath⟩ := List.mem_map.mp (List.of_mem_zip he).1
    exact hpath ▸ hpaths s hs
  constructor
  case length => exact allotted_length [] states
  case distinct => exact (allotted_nodup [] states).1
  case fresh => exact fun i state identifier hstate hid => allotted_isFresh hstate hid
  case keys =>
    intro key
    rw [identifierTable, Table.mem_keys_putAll hkeys, List.map_fst_zip (Nat.le_of_eq hlength)]
    simp
  case keysDistinct => exact Table.keys_putAll_nodup hkeys List.nodup_nil
  case valuesDistinct =>
    refine Table.values_putAll_nodup List.nodup_nil ?_ fun _ _ => List.not_mem_nil
    rw [List.map_snd_zip (Nat.le_of_eq hlength.symm)]
    exact (allotted_nodup [] states).1
  case found =>
    intro i state identifier hstate hid hlast
    -- the last state with a path decides what is found at the path
    refine Table.get?_putAll hkeys [] (i := i) ?_ fun later hlater => ?_
    · rw [List.getElem?_zip_eq_some, List.getElem?_map, hstate, hid]
      exact ⟨rfl, rfl⟩
    · rw [List.zip, List.drop_zipWith, ← List.zip, ← List.map_drop] at hlater
      obtain ⟨s, hs, hpath⟩ := List.mem_map.mp (List.of_mem_zip hlater).1
      exact hpath ▸ hlast s hs
  case reported => rfl
  case warned =>
    intro d hd
    obtain ⟨e, -, hrenamed⟩ := List.mem_filterMap.mp hd
    rw [renamed?] at hrenamed
    split at hrenamed
    · cases hrenamed
    · rw [← Option.some.inj hrenamed]
      rfl

/-- Under its path every state finds its identifier, if the paths are all different. -/
theorem get?_identifierTable {states : List Node} (hpaths : ∀ s ∈ states, s.path.IsText)
    (hdistinct : (states.map (·.path)).Nodup) {i : Nat} {state : Node}
    (hstate : states[i]? = some state) :
    (identifierTable states).get? state.path = (allotted [] states)[i]? := by
  obtain ⟨hi, rfl⟩ := List.getElem?_eq_some_iff.mp hstate
  have hid : i < (allotted [] states).length := by rwa [allotted_length]
  rw [List.getElem?_eq_getElem hid]
  refine (allotment hpaths).found i _ _ hstate (List.getElem?_eq_getElem hid) fun later hlater heq => ?_
  rw [← List.take_append_drop (i + 1) states, List.map_append, List.nodup_append] at hdistinct
  -- a later state with the same path would be a second one with it
  refine hdistinct.2.2 _ (List.mem_map_of_mem ?_) _ (List.mem_map_of_mem hlater) heq.symm
  exact List.mem_take_iff_getElem.mpr ⟨i, by omega, rfl⟩

/-- Every state has an identifier. -/
theorem exists_get?_identifierTable {states : List Node} (hpaths : ∀ s ∈ states, s.path.IsText)
    (hdistinct : (states.map (·.path)).Nodup) {state : Node} (hstate : state ∈ states) :
    ∃ identifier ∈ allotted [] states,
      (identifierTable states).get? state.path = some identifier := by
  obtain ⟨i, hi, rfl⟩ := List.getElem_of_mem hstate
  have hid : i < (allotted [] states).length := by rwa [allotted_length]
  refine ⟨_, List.getElem_mem hid, ?_⟩
  rw [get?_identifierTable hpaths hdistinct (List.getElem?_eq_getElem hi),
    List.getElem?_eq_getElem hid]

/-- Looking up all paths one after the other gives the identifiers in their order. -/
theorem map_get?_identifierTable {states : List Node} (hpaths : ∀ s ∈ states, s.path.IsText)
    (hdistinct : (states.map (·.path)).Nodup) :
    states.map (fun s => (identifierTable states).get? s.path) = (allotted [] states).map some := by
  refine List.ext_getElem? fun i => ?_
  rw [List.getElem?_map, List.getElem?_map]
  -- a place in the list of states or behind its end
  cases hstate : states[i]? with
  | none =>
    have hlength := List.getElem?_eq_none_iff.mp hstate
    rw [List.getElem?_eq_none_iff.mpr (by rwa [allotted_length])]
    rfl
  | some s =>
    have hi := (List.getElem?_eq_some_iff.mp hstate).1
    rw [Option.map_some, get?_identifierTable hpaths hdistinct hstate,
      List.getElem?_eq_getElem (by rwa [allotted_length])]
    rfl

/-- The identifiers found under the paths of the states, one after the other, are those allotted. -/
theorem mapM_identifierAt {states : List Node} (hpaths : ∀ s ∈ states, s.path.IsText)
    (hdistinct : (states.map (·.path)).Nodup) :
    states.mapM (fun s => identifierAt (identifierTable states) s.path)
      = .ok (allotted [] states) := by
  -- if every lookup is successful, so are all of them together
  have hmapM : ∀ {f : Node → Except Fault String} {as : List Node} {ids : List String},
      List.Forall₂ (fun s id => f s = .ok id) as ids → as.mapM f = .ok ids := by
    intro f as ids h
    induction h with
    | nil => rfl
    | cons hhead _ ih => rw [List.mapM_cons, hhead, ih]; rfl
  refine hmapM (List.forall₂_iff_get.mpr ⟨(allotted_length [] states).symm, fun i hi hid => ?_⟩)
  have hget := get?_identifierTable hpaths hdistinct (List.getElem?_eq_getElem hi)
  rw [List.getElem?_eq_getElem hid] at hget
  simp only [identifierAt, List.get_eq_getElem, hget]

/-- Two states with one identifier have one path. -/
theorem path_eq_of_get?_eq {states : List Node} (hpaths : ∀ s ∈ states, s.path.IsText)
    {path path' : Data} {identifier : String} (hpath : path.IsText) (hpath' : path'.IsText)
    (h : (identifierTable states).get? path = some identifier)
    (h' : (identifierTable states).get? path' = some identifier) : path = path' :=
  Table.eq_of_get?_eq (allotment hpaths).valuesDistinct hpath hpath' h h'

/-! ### Paths of any type

A path that is no text can be the same as another value. Of a machine no two paths are the same, which
is all that the table needs to hold an identifier for every state. -/

/-- A state gets an identifier if its path can be written and looked up, whether a change of its base is
reported or not. -/
theorem identifiersFrom_cons_result (table : Table String) (taken : List String) (state : Node)
    (rest : List Node) :
    (identifiersFrom table taken (state :: rest)).result =
      if state.path.hasLongNumber then .error .numberTooLong
      else if state.path.isKey then
        (identifiersFrom (table.put state.path (freshIdentifier state.identifierBase taken))
          (freshIdentifier state.identifierBase taken :: taken) rest).result
      else .error .notKey := by
  rw [identifiersFrom]
  cases state.path.hasLongNumber with
  | true => rfl
  | false =>
    -- the report of a change does not bear on the table
    by_cases hbase : freshIdentifier state.identifierBase taken = state.identifierBase <;>
      cases state.path.isKey <;> simp [hbase, Logged.bind_of_ok (Logged.report_result _)]

/-- So identifiers are given if the first state gets one and the others do. -/
theorem identifiersFrom_cons_eq_ok {table table' : Table String} {taken : List String} {state : Node}
    {rest : List Node} :
    (identifiersFrom table taken (state :: rest)).result = .ok table' ↔
      state.path.hasLongNumber = false ∧ state.path.isKey = true ∧
        (identifiersFrom (table.put state.path (freshIdentifier state.identifierBase taken))
          (freshIdentifier state.identifierBase taken :: taken) rest).result = .ok table' := by
  rw [identifiersFrom_cons_result]
  cases state.path.hasLongNumber <;> cases state.path.isKey <;> simp

/-- The table holds the identifiers in the order of the states, after those that it held before. -/
theorem table_of_identifiersFrom {table table' : Table String} {taken : List String}
    {states : List Node} (hdistinct : DistinctPaths states)
    (hnew : ∀ e ∈ table, ∀ s ∈ states, e.1.same s.path = false)
    (h : (identifiersFrom table taken states).result = .ok table') :
    table' = table ++ (states.map (·.path)).zip (allotted taken states) := by
  induction states generalizing table taken with
  | nil =>
    obtain rfl := Except.ok.inj h
    simp
  | cons state rest ih =>
    obtain ⟨hfirst, hrest⟩ := List.pairwise_cons.mp hdistinct
    obtain ⟨-, -, h⟩ := identifiersFrom_cons_eq_ok.mp h
    rw [Table.put_of_new fun e he => hnew e he state List.mem_cons_self] at h
    -- what is stored now is this path and those before, and none of them comes again
    have hnew' : ∀ e ∈ table ++ [(state.path, freshIdentifier state.identifierBase taken)],
        ∀ s ∈ rest, e.1.same s.path = false := by
      intro e he s hs
      rcases List.mem_append.mp he with he | he
      · exact hnew e he s (List.mem_cons_of_mem _ hs)
      · rw [List.mem_singleton.mp he]
        exact hfirst s hs
    rw [ih hrest hnew' h, allotted, List.map_cons, List.zip_cons_cons, List.append_assoc,
      List.singleton_append]

/-- Under its path every state finds its identifier. -/
theorem get?_zip_allotted {states : List Node} {ids : List String} (hdistinct : DistinctPaths states)
    (hlength : ids.length = states.length) {i : Nat} {state : Node}
    (hstate : states[i]? = some state) :
    Table.get? ((states.map (·.path)).zip ids) state.path = ids[i]? := by
  -- along the states; no later one has the path of the first
  induction states generalizing ids i with
  | nil => cases hstate
  | cons first rest ih =>
    obtain ⟨hfirst, hrest⟩ := List.pairwise_cons.mp hdistinct
    obtain ⟨id, ids, rfl⟩ := List.exists_cons_of_length_eq_add_one hlength
    rw [List.map_cons, List.zip_cons_cons, Table.get?_cons]
    cases i with
    | zero =>
      obtain rfl := Option.some.inj hstate
      rw [if_pos (Data.same_self _)]
      rfl
    | succ i =>
      have hother : ¬ first.path.same state.path = true := by
        rw [hfirst state (List.mem_of_getElem? hstate)]
        exact Bool.false_ne_true
      rw [if_neg hother]
      exact ih hrest (Nat.succ.inj hlength) hstate

/-- Where all states get identifiers, each of them is found under the path of its state. -/
theorem get?_of_identifiersOf {states : List Node} {table : Table String}
    (hdistinct : DistinctPaths states) (h : (identifiersOf states).result = .ok table) {i : Nat}
    {state : Node} (hstate : states[i]? = some state) :
    table.get? state.path = (allotted [] states)[i]? := by
  obtain rfl : table = (states.map (·.path)).zip (allotted [] states) :=
    table_of_identifiersFrom hdistinct (fun _ he => absurd he List.not_mem_nil) h
  exact get?_zip_allotted hdistinct (allotted_length [] states) hstate

theorem exists_get?_of_identifiersOf {states : List Node} {table : Table String}
    (hdistinct : DistinctPaths states) (h : (identifiersOf states).result = .ok table)
    {state : Node} (hstate : state ∈ states) :
    ∃ identifier ∈ allotted [] states, table.get? state.path = some identifier := by
  obtain ⟨i, hi⟩ := List.mem_iff_getElem?.mp hstate
  have hlt : i < (allotted [] states).length := by
    rw [allotted_length]
    exact (List.getElem?_eq_some_iff.mp hi).1
  refine ⟨(allotted [] states)[i], List.getElem_mem hlt, ?_⟩
  rw [get?_of_identifiersOf hdistinct h hi, List.getElem?_eq_getElem hlt]

/-- Two states with one identifier are one state. -/
theorem eq_of_identified {states : List Node} {table : Table String} {identifier : String}
    (hdistinct : DistinctPaths states) (h : (identifiersOf states).result = .ok table)
    {s s' : Node} (hs : s ∈ states) (hs' : s' ∈ states)
    (hid : table.get? s.path = some identifier) (hid' : table.get? s'.path = some identifier) :
    s = s' := by
  obtain ⟨i, hi⟩ := List.mem_iff_getElem?.mp hs
  obtain ⟨j, hj⟩ := List.mem_iff_getElem?.mp hs'
  rw [get?_of_identifiersOf hdistinct h hi] at hid
  rw [get?_of_identifiersOf hdistinct h hj] at hid'
  -- no identifier is given at two places
  obtain ⟨hlt, hid⟩ := List.getElem?_eq_some_iff.mp hid
  have hsame : (allotted [] states)[i]? = (allotted [] states)[j]? := by
    rw [hid', List.getElem?_eq_getElem hlt, hid]
  have hij : i = j := (List.getElem?_inj hlt (allotted_nodup [] states).1).mp hsame
  subst hij
  exact Option.some.inj (hi.symm.trans hj)

/-- **Identifiers are allotted without collision.** Whatever the names and paths of the states, every
one of them gets its base or else the base with the least number that makes it new, no identifier is
given twice, the table holds them under the paths, and every change of a base is reported, once. -/
theorem identifiersOf_allotment {states : List Node} (hpaths : ∀ s ∈ states, s.path.IsText) :
    ∃ table log, identifiersOf states = ⟨.ok table, log⟩ ∧
      Allotment states (allotted [] states) table log :=
  ⟨_, _, identifiersOf_eq hpaths, allotment hpaths⟩

/-- Three states whose bases are so alike that a numbered one is met as a base. -/
def collidingStates : List Node :=
  [{ kind := .state, path := .str "p", name := "a" }, { kind := .state, path := .str "/p", name := "a" },
    { kind := .state, path := .str "p/2", name := "a" }]

/-- The second state takes the base of the third, which is numbered once more. -/
theorem identifiersOf_allotment_colliding :
    (∀ s ∈ collidingStates, s.path.IsText) ∧
    ∃ table log, identifiersOf collidingStates = ⟨.ok table, log⟩ ∧
      Allotment collidingStates ["a_p", "a_p_2", "a_p_2_2"] table log := by
  have hpaths : ∀ s ∈ collidingStates, s.path.IsText := by
    simp [collidingStates]
  have hids : allotted [] collidingStates = ["a_p", "a_p_2", "a_p_2_2"] := by decide +kernel
  exact ⟨hpaths, hids ▸ identifiersOf_allotment hpaths⟩

end HomeAutomaton

import HomeAutomaton.Data.Text
import Mathlib.Data.List.Nodup

/-!
# Tables with texts as keys

Sameness of values is a relation of its own, and tables are searched with it. Between a text and any
other value it is equality; so a table that is only ever given texts as keys holds each of them once,
and gives back the value that was stored last.

* `Data.IsText` says that a value is a text, `Data.same_iff` that it is then the same as itself alone.
* `Table.get?_put_self` and `Table.get?_put_of_ne` say what is found after storing.
* `Table.mem_keys_put`, `Table.keys_put_nodup` and `Table.values_put_nodup` say what the keys and the
  values are.
* `Table.putAll` stores a list of pairs one after the other; the same is said of it.
-/

namespace HomeAutomaton

namespace Data

/-- The value is a text. -/
def IsText (d : Data) : Prop := ∃ s, d = str s

@[simp] theorem isText_str (s : String) : IsText (str s) := ⟨s, rfl⟩

theorem eq_str_of_str? {d : Data} {s : String} (h : d.str? = some s) : d = .str s := by
  cases d with
  | str t => rw [Option.some.inj h]
  | _ => cases h

/-- A text is the same as itself alone. -/
theorem same_iff {d e : Data} (h : d.IsText) : d.same e = true ↔ d = e := by
  obtain ⟨s, rfl⟩ := h
  cases e <;> simp [same, sameScalar, toInt?]

theorem same_iff' {d e : Data} (h : e.IsText) : d.same e = true ↔ d = e := by
  obtain ⟨s, rfl⟩ := h
  cases d <;> simp [same, sameScalar, toInt?]

theorem IsText.isKey {d : Data} (h : d.IsText) : d.isKey = true := by
  obtain ⟨s, rfl⟩ := h
  exact isKey_str s

theorem IsText.hasLongNumber {d : Data} (h : d.IsText) : d.hasLongNumber = false := by
  obtain ⟨s, rfl⟩ := h
  rw [Data.hasLongNumber]
  all_goals simp

end Data

namespace Table

variable {α : Type} {key : Data}

theorem get?_cons (e : Data × α) (rest : Table α) (key : Data) :
    get? (e :: rest) key = if e.1.same key then some e.2 else get? rest key := by
  rw [get?, List.find?_cons]
  cases e.1.same key <;> rfl

/-- What is stored under a text is found there. -/
theorem get?_put_self (hkey : key.IsText) (table : Table α) (value : α) :
    (table.put key value).get? key = some value := by
  induction table with
  | nil => rw [put, get?_cons, if_pos ((Data.same_iff hkey).mpr rfl)]
  | cons e rest ih =>
    rw [put]
    split
    next h => rw [get?_cons, if_pos h]
    next h => rw [get?_cons, if_neg h, ih]

/-- Under another text is found what was found there before. -/
theorem get?_put_of_ne {other : Data} (hkey : key.IsText) (hne : key ≠ other) (table : Table α)
    (value : α) : (table.put key value).get? other = table.get? other := by
  have hnot : ¬ key.same other = true := fun h => hne ((Data.same_iff hkey).mp h)
  induction table with
  | nil => rw [put, get?_cons, if_neg hnot]
  | cons e rest ih =>
    rw [put]
    split
    -- the value of this key is replaced, which is not the one looked for
    next h =>
      obtain rfl := (Data.same_iff' hkey).mp h
      rw [get?_cons, get?_cons, if_neg hnot, if_neg hnot]
    next => rw [get?_cons, get?_cons, ih]

/-- A key that is the same as none of those stored comes last. -/
theorem put_of_new {table : Table α} (hnew : ∀ e ∈ table, e.1.same key = false) (value : α) :
    table.put key value = table ++ [(key, value)] := by
  induction table with
  | nil => rfl
  | cons e rest ih =>
    have he : ¬ e.1.same key = true := by simp [hnew e List.mem_cons_self]
    rw [put, if_neg he, ih fun e he => hnew e (List.mem_cons_of_mem _ he), List.cons_append]

theorem mem_keys_put (hkey : key.IsText) (table : Table α) (value : α) (other : Data) :
    other ∈ (table.put key value).map (·.1) ↔ other = key ∨ other ∈ table.map (·.1) := by
  induction table with
  | nil => simp [put]
  | cons e rest ih =>
    rw [put]
    split
    next h =>
      obtain rfl := (Data.same_iff' hkey).mp h
      simp
    next => rw [List.map_cons, List.map_cons, List.mem_cons, List.mem_cons, ih, or_left_comm]

/-- No key is stored twice. -/
theorem keys_put_nodup (hkey : key.IsText) {table : Table α} (h : (table.map (·.1)).Nodup)
    (value : α) : ((table.put key value).map (·.1)).Nodup := by
  induction table with
  | nil => simp [put]
  | cons e rest ih =>
    rw [List.map_cons, List.nodup_cons] at h
    rw [put]
    split
    next => rwa [List.map_cons, List.nodup_cons]
    next hne =>
      rw [List.map_cons, List.nodup_cons, mem_keys_put hkey]
      refine ⟨?_, ih h.2⟩
      rintro (heq | hmem)
      · exact hne ((Data.same_iff' hkey).mpr heq)
      · exact h.1 hmem

theorem mem_values_put {table : Table α} {value other : α}
    (h : other ∈ (table.put key value).map (·.2)) : other = value ∨ other ∈ table.map (·.2) := by
  induction table with
  | nil =>
    rw [put, List.map_singleton, List.mem_singleton] at h
    exact .inl h
  | cons e rest ih =>
    rw [put] at h
    split at h
    next =>
      rw [List.map_cons, List.mem_cons] at h
      exact h.imp_right (List.mem_cons_of_mem _)
    next =>
      rw [List.map_cons, List.mem_cons] at h
      rcases h with rfl | h
      · exact .inr List.mem_cons_self
      · exact (ih h).imp_right (List.mem_cons_of_mem _)

/-- What holds of all keys and of all values holds with one pair more. -/
theorem forall_put {P : Data → Prop} {Q : α → Prop} {table : Table α} {value : α} (hkey : P key)
    (hvalue : Q value) (h : ∀ e ∈ table, P e.1 ∧ Q e.2) :
    ∀ e ∈ table.put key value, P e.1 ∧ Q e.2 := by
  induction table with
  | nil => exact List.forall_mem_singleton.mpr ⟨hkey, hvalue⟩
  | cons first rest ih =>
    obtain ⟨hfirst, hrest⟩ := List.forall_mem_cons.mp h
    rw [put]
    split
    next => exact List.forall_mem_cons.mpr ⟨⟨hfirst.1, hvalue⟩, hrest⟩
    next => exact List.forall_mem_cons.mpr ⟨hfirst, ih hrest⟩

theorem forall_ofPairs {P : Data → Prop} {Q : α → Prop} {pairs : List (Data × α)}
    (h : ∀ e ∈ pairs, P e.1 ∧ Q e.2) : ∀ e ∈ ofPairs pairs, P e.1 ∧ Q e.2 := by
  have hfold : ∀ table : Table α, (∀ e ∈ table, P e.1 ∧ Q e.2) →
      ∀ e ∈ pairs.foldl (fun table e => table.put e.1 e.2) table, P e.1 ∧ Q e.2 := by
    induction pairs with
    | nil => exact fun table htable => htable
    | cons first pairs ih =>
      intro table htable
      obtain ⟨hfirst, hpairs⟩ := List.forall_mem_cons.mp h
      exact ih hpairs (table.put first.1 first.2) (forall_put hfirst.1 hfirst.2 htable)
  exact hfold [] fun _ he => absurd he List.not_mem_nil

/-- A value that is not among those stored keeps them all different. -/
theorem values_put_nodup {table : Table α} {value : α} (h : (table.map (·.2)).Nodup)
    (hnew : value ∉ table.map (·.2)) : ((table.put key value).map (·.2)).Nodup := by
  induction table with
  | nil => simp [put]
  | cons e rest ih =>
    rw [List.map_cons, List.nodup_cons] at h
    rw [List.map_cons, List.mem_cons, not_or] at hnew
    rw [put]
    split
    next => exact List.nodup_cons.mpr ⟨hnew.2, h.2⟩
    next =>
      refine List.nodup_cons.mpr ⟨fun hmem => ?_, ih h.2 hnew.2⟩
      rcases mem_values_put hmem with heq | hmem
      · exact hnew.1 heq.symm
      · exact h.1 hmem

theorem mem_of_get? {table : Table α} {value : α} (hkey : key.IsText)
    (h : table.get? key = some value) : (key, value) ∈ table := by
  obtain ⟨e, hfind, rfl⟩ := Option.map_eq_some_iff.mp h
  have hsame : e.1.same key = true := (List.find?_eq_some_iff_append.mp hfind).1
  obtain rfl := (Data.same_iff' hkey).mp hsame
  exact List.mem_of_find?_eq_some hfind

/-- Where no value is stored twice, it is found under one key alone. -/
theorem eq_of_get?_eq {table : Table α} {other : Data} {value : α}
    (hvalues : (table.map (·.2)).Nodup) (hkey : key.IsText) (hother : other.IsText)
    (h : table.get? key = some value) (h' : table.get? other = some value) : key = other := by
  -- two pairs with one value are one pair
  have heq := List.inj_on_of_nodup_map hvalues (mem_of_get? hkey h) (mem_of_get? hother h') rfl
  exact congrArg (·.1) heq

/-! ### One pair after the other -/

/-- The pairs are stored, one after the other. -/
def putAll (table : Table α) (pairs : List (Data × α)) : Table α :=
  pairs.foldl (fun table e => table.put e.1 e.2) table

theorem putAll_cons (table : Table α) (e : Data × α) (pairs : List (Data × α)) :
    putAll table (e :: pairs) = putAll (table.put e.1 e.2) pairs := rfl

theorem mem_keys_putAll {pairs : List (Data × α)} (hkeys : ∀ e ∈ pairs, e.1.IsText)
    (table : Table α) (key : Data) :
    key ∈ (putAll table pairs).map (·.1) ↔ key ∈ table.map (·.1) ∨ key ∈ pairs.map (·.1) := by
  induction pairs generalizing table with
  | nil => simp [putAll]
  | cons e rest ih =>
    rw [putAll_cons, ih fun e he => hkeys e (List.mem_cons_of_mem _ he),
      mem_keys_put (hkeys e List.mem_cons_self), List.map_cons, List.mem_cons, or_assoc,
      or_left_comm]

theorem keys_putAll_nodup {pairs : List (Data × α)} (hkeys : ∀ e ∈ pairs, e.1.IsText)
    {table : Table α} (h : (table.map (·.1)).Nodup) : ((putAll table pairs).map (·.1)).Nodup := by
  induction pairs generalizing table with
  | nil => exact h
  | cons e rest ih =>
    rw [putAll_cons]
    exact ih (fun e he => hkeys e (List.mem_cons_of_mem _ he))
      (keys_put_nodup (hkeys e List.mem_cons_self) h e.2)

/-- Values that are all different, and not among those stored, keep them all different. -/
theorem values_putAll_nodup {table : Table α} {pairs : List (Data × α)}
    (h : (table.map (·.2)).Nodup) (hpairs : (pairs.map (·.2)).Nodup)
    (hnew : ∀ value ∈ pairs.map (·.2), value ∉ table.map (·.2)) :
    ((putAll table pairs).map (·.2)).Nodup := by
  induction pairs generalizing table with
  | nil => exact h
  | cons e rest ih =>
    rw [List.map_cons, List.nodup_cons] at hpairs
    rw [putAll_cons]
    refine ih (values_put_nodup h (hnew e.2 List.mem_cons_self)) hpairs.2 fun value hvalue hmem => ?_
    rcases mem_values_put hmem with rfl | hmem
    · exact hpairs.1 hvalue
    · exact hnew value (List.mem_cons_of_mem _ hvalue) hmem

theorem get?_putAll_of_not_mem {pairs : List (Data × α)} (hkeys : ∀ e ∈ pairs, e.1.IsText)
    (table : Table α) (hnot : key ∉ pairs.map (·.1)) :
    (putAll table pairs).get? key = table.get? key := by
  induction pairs generalizing table with
  | nil => rfl
  | cons e rest ih =>
    rw [List.map_cons, List.mem_cons, not_or] at hnot
    rw [putAll_cons, ih (fun e he => hkeys e (List.mem_cons_of_mem _ he)) _ hnot.2,
      get?_put_of_ne (hkeys e List.mem_cons_self) (Ne.symm hnot.1)]

/-- Under a key is found the value of its last pair. -/
theorem get?_putAll {pairs : List (Data × α)} (hkeys : ∀ e ∈ pairs, e.1.IsText) (table : Table α)
    {i : Nat} {value : α} (hi : pairs[i]? = some (key, value))
    (hlast : ∀ later ∈ pairs.drop (i + 1), later.1 ≠ key) :
    (putAll table pairs).get? key = some value := by
  induction pairs generalizing table i with
  | nil => cases hi
  | cons e rest ih =>
    have hrest := fun e he => hkeys e (List.mem_cons_of_mem _ he)
    rw [putAll_cons]
    cases i with
    | zero =>
      obtain rfl := Option.some.inj hi
      -- the pair is the last with this key, so what follows leaves it alone
      have hnot : key ∉ rest.map (·.1) := by
        intro hmem
        obtain ⟨later, hlater, rfl⟩ := List.mem_map.mp hmem
        exact hlast later hlater rfl
      rw [get?_putAll_of_not_mem hrest _ hnot, get?_put_self (hkeys _ List.mem_cons_self)]
    | succ i => exact ih hrest _ hi hlast

end Table

end HomeAutomaton

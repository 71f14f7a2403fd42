import Mathlib.Data.List.Forall2

/-!
# Lists item by item

What is written item by item, with separators between or behind the items, is taken apart at the separators
and read item by item. Lists that are related item by item hand properties over to one another.

* `splitOn_flatMap` and `intercalate_concat` are about separators, `mapM_map_eq_some` is about reading.
* `exists_of_mem_right` and `forall_mem_of_forall₂` are about related lists.
-/

namespace HomeAutomaton

/-! ### Separators -/

/-- What has a separator behind every item is split into the items, with nothing behind the last one. -/
theorem splitOn_flatMap {α : Type} [BEq α] [LawfulBEq α] {sep : α} {items : List (List α)}
    (h : ∀ item ∈ items, sep ∉ item) :
    (items.flatMap fun item => item ++ [sep]).splitOn sep = items ++ [[]] := by
  induction items with
  | nil => rfl
  | cons item items ih =>
    rw [List.forall_mem_cons] at h
    have hitem : ∀ a ∈ item, (a == sep) = false := by
      intro a ha
      rw [beq_eq_false_iff_ne]
      rintro rfl
      exact h.1 ha
    have hrest := ih h.2
    rw [List.splitOn_eq_splitOnP] at hrest ⊢
    rw [List.flatMap_cons, List.append_assoc, List.singleton_append,
      List.splitOnP_append_cons_of_forall_mem hitem sep BEq.rfl, hrest, List.cons_append]

/-- Between the items and behind the last of them stands the same. -/
theorem intercalate_concat {α : Type} (sep last : List α) (items : List (List α)) :
    sep.intercalate (items ++ [last]) = (items.flatMap fun item => item ++ sep) ++ last := by
  induction items with
  | nil => simp
  | cons item items ih =>
    have hcons : ∃ first rest, items ++ [last] = first :: rest := by
      cases items with
      | nil => exact ⟨last, [], rfl⟩
      | cons first rest => exact ⟨first, rest ++ [last], rfl⟩
    obtain ⟨first, rest, hrest⟩ := hcons
    rw [List.cons_append, hrest, List.intercalate_cons_cons, ← hrest, ih, List.flatMap_cons,
      ← List.append_assoc]

/-- What is written item by item is read item by item. -/
theorem mapM_map_eq_some {α β γ : Type} {write : α → β} {read : β → Option γ} {meaning : α → γ}
    {as : List α} (h : ∀ a ∈ as, read (write a) = some (meaning a)) :
    (as.map write).mapM read = some (as.map meaning) := by
  induction as with
  | nil => rfl
  | cons a as ih =>
    rw [List.forall_mem_cons] at h
    rw [List.map_cons, List.mapM_cons, h.1, ih h.2]
    rfl

/-- Items with a property, and behind them items without it, are told apart. -/
theorem span_append {α : Type} {p : α → Bool} {as bs : List α} (h : ∀ a ∈ as, p a = true)
    (h' : ∀ b ∈ bs, p b = false) :
    (as ++ bs).takeWhile p = as ∧ (as ++ bs).dropWhile p = bs := by
  rw [List.takeWhile_append_of_pos h, List.dropWhile_append_of_pos h]
  cases bs with
  | nil => simp
  | cons b bs => simp [h' b List.mem_cons_self]

/-! ### Related lists -/

/-- What holds of everything that is related to something holds of a related list. -/
theorem forall_mem_of_forall₂ {α β : Type} {R : α → β → Prop} {p : β → Prop} {xs : List α}
    {ys : List β} (h : List.Forall₂ R xs ys) (hp : ∀ x y, R x y → p y) : ∀ y ∈ ys, p y := by
  induction h with
  | nil => exact fun y hy => absurd hy List.not_mem_nil
  | cons hxy _ ih => exact List.forall_mem_cons.mpr ⟨hp _ _ hxy, ih⟩

theorem exists_of_mem_right {α β : Type} {related : α → β → Prop} {as : List α} {bs : List β}
    (h : List.Forall₂ related as bs) {b : β} (hb : b ∈ bs) : ∃ a ∈ as, related a b := by
  induction h with
  | nil => exact absurd hb List.not_mem_nil
  | cons hab _ ih =>
    rcases List.mem_cons.mp hb with rfl | hb
    · exact ⟨_, List.mem_cons_self, hab⟩
    · obtain ⟨a, ha, hrelated⟩ := ih hb
      exact ⟨a, List.mem_cons_of_mem _ ha, hrelated⟩

end HomeAutomaton

import HomeAutomaton.Text.Slug
import Mathlib.Data.List.Basic

/-!
# The form of slugs

A slug is made of the runs of letters and digits of a lower-cased text, and nothing but one underscore
stands between two of them. So it neither starts nor ends with an underscore and has no two in a row; it is
empty exactly if the lower-cased text has no letter from `a` to `z` and no digit. That says more than it
seems to: a name in another script has no slug at all.

* `Text.IsSlug` is the grammar, and `Text.isSlug_slug` says that slugs follow it unless they are empty.
* `Text.slug_eq_empty_iff` says which texts have an empty slug.
* `Text.isSlug_joinNonEmpty` says the same of two slugs that are joined.
-/

namespace HomeAutomaton.Text

/-- A run of letters from `a` to `z` and digits, of one character at least. -/
def IsRun (cs : List Char) : Prop := cs ≠ [] ∧ ∀ c ∈ cs, isSlugChar c = true

/-- Runs with single underscores between them, that is `[a-z0-9]+(_[a-z0-9]+)*`. -/
inductive IsSlug : List Char → Prop where
  | run {cs : List Char} (h : IsRun cs) : IsSlug cs
  | join {cs rest : List Char} (h : IsRun cs) (hrest : IsSlug rest) : IsSlug (cs ++ '_' :: rest)

namespace IsSlug

variable {cs ds : List Char}

/-- A slug starts with a letter or a digit. -/
theorem exists_head (h : IsSlug cs) : ∃ c rest, cs = c :: rest ∧ isSlugChar c = true := by
  have hrun (run rest : List Char) (h : IsRun run) :
      ∃ c rest', run ++ rest = c :: rest' ∧ isSlugChar c = true := by
    obtain ⟨hne, hall⟩ := h
    cases run with
    | nil => exact absurd rfl hne
    | cons c run => exact ⟨c, run ++ rest, rfl, hall c List.mem_cons_self⟩
  cases h with
  | run h => simpa using hrun cs [] h
  | join h => exact hrun _ _ h

/-- A slug has a character. -/
theorem ne_nil (h : IsSlug cs) : cs ≠ [] := by
  obtain ⟨c, rest, rfl, -⟩ := h.exists_head
  exact List.cons_ne_nil c rest

/-- Two slugs are joined to one by an underscore. -/
theorem append (h : IsSlug cs) (h' : IsSlug ds) : IsSlug (cs ++ '_' :: ds) := by
  induction h with
  | run h => exact .join h h'
  | join h _ ih =>
    rw [List.append_assoc, List.cons_append]
    exact .join h ih

end IsSlug

/-- Nothing that starts with an underscore is a slug. -/
theorem not_isSlug_underscore (cs : List Char) : ¬ IsSlug ('_' :: cs) := by
  intro h
  obtain ⟨c, rest, heq, hc⟩ := h.exists_head
  obtain ⟨rfl, -⟩ := List.cons.inj heq
  cases hc

/-- The empty text is none. -/
theorem not_isSlug_nil : ¬ IsSlug [] := fun h => h.ne_nil rfl

/-! ### Runs -/

/-- A run is closed as one, unless nothing of it has been read. -/
theorem isRun_of_mem_closeRun {run : List Char} (hrun : ∀ c ∈ run, isSlugChar c = true) :
    ∀ r ∈ closeRun run, IsRun r := by
  cases run with
  | nil => exact List.forall_mem_nil _
  | cons c cs =>
    intro r hr
    obtain rfl := List.mem_singleton.mp hr
    exact ⟨List.cons_ne_nil c cs, hrun⟩

/-- A text is cut into runs of letters and digits, with whatever has been read before it. -/
theorem isRun_of_mem_slugRunsFrom {run cs : List Char} (hrun : ∀ c ∈ run, isSlugChar c = true) :
    ∀ r ∈ slugRunsFrom run cs, IsRun r := by
  induction cs generalizing run with
  | nil => exact isRun_of_mem_closeRun hrun
  | cons c cs ih =>
    rw [slugRunsFrom]
    split
    next hc => exact ih (List.forall_mem_append.mpr ⟨hrun, by simpa using hc⟩)
    next =>
      exact List.forall_mem_append.mpr ⟨isRun_of_mem_closeRun hrun, ih (List.forall_mem_nil _)⟩

/-- There is no run exactly if there is no character that a slug keeps. -/
theorem slugRunsFrom_eq_nil_iff {run cs : List Char} :
    slugRunsFrom run cs = [] ↔ run = [] ∧ ∀ c ∈ cs, isSlugChar c = false := by
  have hclose : ∀ run : List Char, closeRun run = [] ↔ run = [] := by
    rintro (_ | ⟨c, cs⟩) <;> simp [closeRun]
  induction cs generalizing run with
  | nil => simp [slugRunsFrom, hclose]
  | cons c cs ih =>
    rw [slugRunsFrom, List.forall_mem_cons]
    cases hc : isSlugChar c with
    | true => simp [ih]
    | false => simp [ih, hclose]

/-- Runs are joined to a slug. -/
theorem isSlug_joinRuns {runs : List (List Char)} (hne : runs ≠ []) (hruns : ∀ r ∈ runs, IsRun r) :
    IsSlug (joinRuns runs) := by
  fun_induction joinRuns runs with
  | case1 => exact absurd rfl hne
  | case2 run => exact .run (hruns run List.mem_cons_self)
  | case3 run next rest ih =>
    obtain ⟨hrun, hrest⟩ := List.forall_mem_cons.mp hruns
    exact .join hrun (ih (List.cons_ne_nil _ _) hrest)

/-! ### Slugs -/

/-- A slug is empty because no character is kept, or follows the grammar because one is. -/
theorem slug_cases (s : String) :
    (slug s = "" ∧ ∀ c ∈ lowercase s.toList, isSlugChar c = false) ∨
      (IsSlug (slug s).toList ∧ ∃ c ∈ lowercase s.toList, isSlugChar c = true) := by
  by_cases hruns : slugRuns (lowercase s.toList) = []
  · exact .inl ⟨by rw [slug, hruns]; rfl, (slugRunsFrom_eq_nil_iff.mp hruns).2⟩
  · refine .inr ⟨?_, ?_⟩
    · rw [slug, String.toList_ofList]
      exact isSlug_joinRuns hruns (isRun_of_mem_slugRunsFrom (List.forall_mem_nil _))
    · by_contra hnone
      refine hruns (slugRunsFrom_eq_nil_iff.mpr ⟨rfl, fun c hc => ?_⟩)
      exact Bool.eq_false_iff.mpr fun hkept => hnone ⟨c, hc, hkept⟩

/-- **A slug follows the grammar of slugs**, unless it is empty. -/
theorem isSlug_slug {s : String} (h : slug s ≠ "") : IsSlug (slug s).toList := by
  rcases slug_cases s with ⟨hempty, -⟩ | ⟨hslug, -⟩
  · exact absurd hempty h
  · exact hslug

/-- A text has an empty slug if no letter and no digit is left when it is lower-cased. -/
theorem slug_eq_empty_iff (s : String) :
    slug s = "" ↔ ∀ c ∈ lowercase s.toList, isSlugChar c = false := by
  rcases slug_cases s with ⟨hempty, hnone⟩ | ⟨hslug, c, hc, hkept⟩
  · exact iff_of_true hempty hnone
  · refine iff_of_false (fun hempty => hslug.ne_nil (by rw [hempty]; rfl)) fun hnone => ?_
    rw [hnone c hc] at hkept
    cases hkept

/-- An underscore stands between two texts, where neither of them is empty. -/
theorem joinNonEmpty_pair (a b : String) :
    joinNonEmpty [a, b] = if a = "" then b else if b = "" then a else a ++ "_" ++ b := by
  have hone : ∀ c, String.intercalate "_" [c] = c := fun _ => rfl
  have htwo : String.intercalate "_" [a, b] = a ++ "_" ++ b := rfl
  by_cases ha : a = "" <;> by_cases hb : b = "" <;> simp [joinNonEmpty, ha, hb, hone, htwo]

/-- Two slugs are joined to one, of which nothing is left only if both are empty. -/
theorem isSlug_joinNonEmpty {a b : String} (ha : a ≠ "" → IsSlug a.toList)
    (hb : b ≠ "" → IsSlug b.toList) (h : ¬ (a = "" ∧ b = "")) :
    IsSlug (joinNonEmpty [a, b]).toList := by
  rw [joinNonEmpty_pair]
  split
  next hempty => exact hb fun hb => h ⟨hempty, hb⟩
  next hfilled =>
    split
    next => exact ha hfilled
    next hfilled' =>
      rw [String.toList_append, String.toList_append, List.append_assoc]
      exact (ha hfilled).append (hb hfilled')

end HomeAutomaton.Text

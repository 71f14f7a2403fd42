import HomeAutomaton.Proofs.IdentifierForm
import Mathlib.Data.List.DropRight

/-!
# Slugs as normal forms

A slug is what is left of a text that is lower-cased, has everything between letters and digits collapsed to
single underscores, and is stripped of the underscores at its ends. That makes slugs the normal forms of texts:
a text that already has the form of a slug is its own slug, and no other text but the empty one is. It also makes
taking the slug commute with joining: a character that leaves no letter and no digit when it is lower-cased ends
every run before it and starts none, so the runs of a text are those on its left and those on its right.

Lower case depends on more than the single character in one place: which small sigma a capital one becomes is
decided by the letters around it. Neither is kept by a slug. So the laws hold whatever rule decides
(`Text.slugBy_eq`), and a text may be cut into parts that are lower-cased apart.

* `Text.slugRunsFrom_append_cons` is the reason for everything: what the runs of a text are if a separator stands
  in it.
* `Text.stripUnderscores_collapse` says that collapsing and stripping gives the runs with underscores between
  them.
* `Text.slug_normalForm` is about the single text, `Text.slug_joined` about two texts with a separator between
  them, which is what the name and the path of a state are.
-/

namespace HomeAutomaton.Text

variable {run cs ds seps : List Char} {c : Char}

/-! ### The runs of a text in parts -/

/-- A separator ends the run before it, and what follows is read from its start. -/
theorem slugRunsFrom_append_cons (hc : isSlugChar c = false) :
    slugRunsFrom run (cs ++ c :: ds) = slugRunsFrom run cs ++ slugRuns ds := by
  induction cs generalizing run with
  | nil => simp [slugRunsFrom, slugRuns, hc]
  | cons d cs ih =>
    rw [List.cons_append, slugRunsFrom, slugRunsFrom]
    cases isSlugChar d with
    | true => simpa using ih
    | false => simp [ih]

/-- Separators before a text add no run to it. -/
theorem slugRuns_append_of_separators (hseps : ∀ c ∈ seps, isSlugChar c = false) :
    slugRuns (seps ++ ds) = slugRuns ds := by
  induction seps with
  | nil => rfl
  | cons c seps ih =>
    obtain ⟨hc, hseps⟩ := List.forall_mem_cons.mp hseps
    have hcut : slugRunsFrom [] ([] ++ c :: (seps ++ ds)) = slugRunsFrom [] [] ++ slugRuns (seps ++ ds) :=
      slugRunsFrom_append_cons hc
    rw [List.cons_append, ← ih hseps]
    exact hcut

/-- Where there are separators between two texts, the runs are those of the one and those of the other. -/
theorem slugRuns_between (hne : seps ≠ []) (hseps : ∀ c ∈ seps, isSlugChar c = false) :
    slugRuns (cs ++ (seps ++ ds)) = slugRuns cs ++ slugRuns ds := by
  obtain ⟨c, rest, rfl⟩ := List.exists_cons_of_ne_nil hne
  obtain ⟨hc, hrest⟩ := List.forall_mem_cons.mp hseps
  calc slugRuns (cs ++ (c :: rest ++ ds))
      = slugRuns cs ++ slugRuns (rest ++ ds) := slugRunsFrom_append_cons hc
    _ = slugRuns cs ++ slugRuns ds := by rw [slugRuns_append_of_separators hrest]

/-- What is kept goes on with the run before it. -/
theorem slugRunsFrom_of_kept (hcs : ∀ c ∈ cs, isSlugChar c = true) :
    slugRunsFrom run cs = closeRun (run ++ cs) := by
  induction cs generalizing run with
  | nil => rw [slugRunsFrom, List.append_nil]
  | cons c cs ih =>
    obtain ⟨hc, hcs⟩ := List.forall_mem_cons.mp hcs
    rw [slugRunsFrom, if_pos hc, ih hcs, List.append_assoc, List.singleton_append]

theorem slugRuns_of_isRun (h : IsRun cs) : slugRuns cs = [cs] := by
  obtain ⟨c, rest, rfl⟩ := List.exists_cons_of_ne_nil h.1
  exact slugRunsFrom_of_kept h.2

/-- The runs depend on the characters that are kept and on the places of the others, not on what the others
are. -/
theorem slugRunsFrom_congr
    (h : List.Forall₂ (fun c d => c = d ∨ isSlugChar c = false ∧ isSlugChar d = false) cs ds) :
    slugRunsFrom run cs = slugRunsFrom run ds := by
  induction h generalizing run with
  | nil => rfl
  | @cons c d _ _ hcd _ ih =>
    rcases hcd with rfl | ⟨hc, hd⟩
    · rw [slugRunsFrom, slugRunsFrom, ih, ih]
    · simp [slugRunsFrom, hc, hd, ih]

/-! ### Joining runs -/

theorem joinRuns_cons {runs : List (List Char)} (hne : runs ≠ []) :
    joinRuns (run :: runs) = run ++ '_' :: joinRuns runs := by
  obtain ⟨next, rest, rfl⟩ := List.exists_cons_of_ne_nil hne
  rw [joinRuns]

theorem joinRuns_append {runs more : List (List Char)} (hruns : runs ≠ []) (hmore : more ≠ []) :
    joinRuns (runs ++ more) = joinRuns runs ++ '_' :: joinRuns more := by
  induction runs with
  | nil => exact absurd rfl hruns
  | cons run rest ih =>
    by_cases hrest : rest = []
    · subst hrest
      exact joinRuns_cons hmore
    · rw [List.cons_append, joinRuns_cons (List.append_ne_nil_of_left_ne_nil hrest more),
        joinRuns_cons hrest, ih hrest, List.append_assoc, List.cons_append]

/-- Nothing is left of runs only if there are none. -/
theorem joinRuns_slugRuns_eq_nil_iff : joinRuns (slugRuns cs) = [] ↔ slugRuns cs = [] := by
  constructor
  · intro hnil
    by_contra hruns
    have hslug := isSlug_joinRuns hruns (isRun_of_mem_slugRunsFrom (List.forall_mem_nil _))
    exact hslug.ne_nil hnil
  · intro hruns
    rw [hruns]
    rfl

/-- The text of runs and of more runs is joined of the two texts, of which either may be empty. -/
theorem joinRuns_slugRuns_append :
    String.ofList (joinRuns (slugRuns cs ++ slugRuns ds))
      = joinNonEmpty [String.ofList (joinRuns (slugRuns cs)), String.ofList (joinRuns (slugRuns ds))] := by
  have hempty : ∀ es, String.ofList (joinRuns (slugRuns es)) = "" ↔ slugRuns es = [] := by
    intro es
    rw [← joinRuns_slugRuns_eq_nil_iff, ← String.toList_inj, String.toList_ofList]
    rfl
  rw [joinNonEmpty_pair]
  -- no underscore is put beside a text that is empty
  by_cases hcs : slugRuns cs = []
  · rw [if_pos ((hempty cs).mpr hcs), hcs, List.nil_append]
  · rw [if_neg (mt (hempty cs).mp hcs)]
    by_cases hds : slugRuns ds = []
    · rw [if_pos ((hempty ds).mpr hds), hds, List.append_nil]
    · rw [if_neg (mt (hempty ds).mp hds), joinRuns_append hcs hds, ← String.toList_inj]
      simp

/-! ### Lower case -/

/-- What a slug keeps, and the underscore, are in lower case. -/
theorem lowercaseChar_of_slug (h : isSlugChar c = true ∨ c = '_') : lowercaseChar c = [c] := by
  have hcode : c.toNat < 0x80 ∧ ¬ ('A' ≤ c ∧ c ≤ 'Z') := by
    rcases h with h | rfl
    · simp only [isSlugChar, Bool.or_eq_true, Bool.and_eq_true, decide_eq_true_eq, Char.le_def,
        UInt32.le_iff_toNat_le] at h ⊢
      change (97 ≤ c.toNat ∧ c.toNat ≤ 122) ∨ (48 ≤ c.toNat ∧ c.toNat ≤ 57) at h
      change c.toNat < 0x80 ∧ ¬ (65 ≤ c.toNat ∧ c.toNat ≤ 90)
      omega
    · decide
  rw [lowercaseChar, if_pos hcode.1, if_neg hcode.2]

/-- Something is left of every character. -/
theorem lowercaseChar_ne_nil (c : Char) : lowercaseChar c ≠ [] := by
  unfold lowercaseChar
  repeat' split
  all_goals exact List.cons_ne_nil _ _

/-- The lower-case form of a text where `isFinal` says of a capital sigma, by what stands before it and behind
it, whether the small one is that of the end of a word. -/
def lowercaseBy (isFinal : List Char → List Char → Bool) (before : List Char) : List Char → List Char
  | [] => []
  | c :: cs =>
    (if c = 'Σ' then [if isFinal before cs then 'ς' else 'σ'] else lowercaseChar c)
      ++ lowercaseBy isFinal (before ++ [c]) cs

/-- Whatever the rule, the characters that are kept are the same, at the same places. -/
theorem forall₂_lowercaseBy (isFinal : List Char → List Char → Bool) (before : List Char) :
    List.Forall₂ (fun c d => c = d ∨ isSlugChar c = false ∧ isSlugChar d = false)
      (lowercaseBy isFinal before cs) (lowercase cs) := by
  -- along the text; only a capital sigma depends on what is around it
  induction cs generalizing before with
  | nil => exact .nil
  | cons c cs ih =>
    rw [lowercaseBy, lowercase_cons]
    refine List.rel_append ?_ (ih _)
    by_cases hsigma : c = 'Σ'
    · subst hsigma
      have hmedial : lowercaseChar 'Σ' = ['σ'] := by decide +kernel
      rw [if_pos rfl, hmedial]
      cases isFinal before cs
      · exact .cons (.inl rfl) .nil
      · exact .cons (.inr (by decide)) .nil
    · rw [if_neg hsigma]
      exact List.forall₂_same.mpr fun _ _ => .inl rfl

/-! ### Collapsing and stripping -/

/-- Every run of characters that a slug does not keep becomes one underscore. -/
def collapse : List Char → List Char
  | [] => []
  | c :: cs =>
    if isSlugChar c then c :: collapse cs else '_' :: collapse (cs.dropWhile fun d => !isSlugChar d)
termination_by cs => cs.length
decreasing_by
  · exact Nat.lt_succ_self _
  · exact Nat.lt_succ_of_le (List.dropWhile_suffix _).length_le

/-- The text without the underscores at its end. -/
def stripEnd (cs : List Char) : List Char := cs.rdropWhile (· == '_')

/-- The text without the underscores at either end. -/
def stripUnderscores (cs : List Char) : List Char := stripEnd (cs.dropWhile (· == '_'))

/-- What is kept is no underscore. -/
theorem ne_underscore_of_kept (hc : isSlugChar c = true) : (c == '_') = false := by
  rw [beq_eq_false_iff_ne]
  rintro rfl
  cases hc

/-- A run ends without an underscore. -/
theorem stripEnd_of_kept (hcs : ∀ c ∈ cs, isSlugChar c = true) : stripEnd cs = cs := by
  refine List.rdropWhile_eq_self_iff.mpr fun hne => ?_
  rw [ne_underscore_of_kept (hcs _ (List.getLast_mem hne))]
  exact Bool.false_ne_true

/-- Two texts, one behind the other; the first loses its end only if nothing is left of the second. -/
theorem stripEnd_append (cs ds : List Char) :
    stripEnd (cs ++ ds) = if stripEnd ds = [] then stripEnd cs else cs ++ stripEnd ds := by
  have hnil : (ds.reverse.dropWhile (· == '_')).isEmpty = true ↔ stripEnd ds = [] := by
    rw [stripEnd, List.rdropWhile, List.isEmpty_iff, List.reverse_eq_nil_iff]
  unfold stripEnd List.rdropWhile at hnil ⊢
  rw [List.reverse_append, List.dropWhile_append]
  by_cases h : (ds.reverse.dropWhile (· == '_')).isEmpty = true
  · rw [if_pos h, if_pos (hnil.mp h)]
  · rw [if_neg h, if_neg (mt hnil.mpr h), List.reverse_append, List.reverse_reverse]

/-- An underscore behind a run is lost with the underscores at the end if nothing else follows. -/
theorem stripEnd_append_underscore (hrun : ∀ c ∈ run, isSlugChar c = true) (cs : List Char) :
    stripEnd (run ++ '_' :: cs) = if stripEnd cs = [] then run else run ++ '_' :: stripEnd cs := by
  have hunderscore : stripEnd ['_'] = [] := rfl
  rw [← List.singleton_append, stripEnd_append, stripEnd_append, hunderscore]
  by_cases hcs : stripEnd cs = []
  · rw [if_pos hcs, if_pos hcs, if_pos rfl, stripEnd_of_kept hrun]
  · rw [if_neg hcs, if_neg hcs, if_neg (List.append_ne_nil_of_left_ne_nil (List.cons_ne_nil _ _) _),
      List.singleton_append]

/-- Separators at the start of a text make no difference to its runs. -/
theorem slugRuns_dropWhile (cs : List Char) :
    slugRuns (cs.dropWhile fun d => !isSlugChar d) = slugRuns cs := by
  conv_rhs => rw [← List.takeWhile_append_dropWhile (p := fun d => !isSlugChar d) (l := cs)]
  refine (slugRuns_append_of_separators fun d hd => ?_).symm
  simpa using List.mem_takeWhile_imp hd

/-- Behind the first separators a run starts. -/
theorem isSlugChar_of_head?_dropWhile :
    ∀ d ∈ (cs.dropWhile fun d => !isSlugChar d).head?, isSlugChar d = true := by
  intro d hd
  have hnot := List.head?_dropWhile_not (fun d => !isSlugChar d) cs
  rw [Option.mem_def.mp hd] at hnot
  simpa using hnot

/-- **Collapsing gives runs.** If a run has been read, or the text starts with one, then collapsing the text gives
its runs with underscores between them, and possibly one behind them. -/
theorem stripEnd_collapse (hrun : ∀ c ∈ run, isSlugChar c = true)
    (hhead : run = [] → ∀ c ∈ cs.head?, isSlugChar c = true) :
    stripEnd (run ++ collapse cs) = joinRuns (slugRunsFrom run cs) := by
  -- along `collapse`: at the end, at a character that is kept, and at separators
  induction cs using collapse.induct generalizing run with
  | case1 =>
    rw [collapse, List.append_nil, stripEnd_of_kept hrun, slugRunsFrom]
    cases run <;> rfl
  | case2 c cs hc ih =>
    have hlonger : ∀ d ∈ run ++ [c], isSlugChar d = true :=
      List.forall_mem_append.mpr ⟨hrun, by simpa using hc⟩
    rw [collapse, if_pos hc, slugRunsFrom, if_pos hc, List.append_cons]
    exact ih hlonger fun hnil => absurd hnil (by simp)
  | case3 c cs hc ih =>
    -- something of a run has been read, since the text does not start with one
    have hne : run ≠ [] := fun hnil => hc (hhead hnil c rfl)
    have hclose : closeRun run = [run] := by
      obtain ⟨first, rest, rfl⟩ := List.exists_cons_of_ne_nil hne
      rfl
    have hrest := ih (List.forall_mem_nil _) fun _ => isSlugChar_of_head?_dropWhile
    have hdropped : slugRunsFrom [] (cs.dropWhile fun d => !isSlugChar d) = slugRuns cs :=
      slugRuns_dropWhile cs
    rw [List.nil_append, hdropped] at hrest
    rw [collapse, if_neg hc, stripEnd_append_underscore hrun, hrest, slugRunsFrom, if_neg hc, hclose]
    -- the underscore stays if there is another run behind it
    by_cases hruns : slugRuns cs = []
    · have hnone : slugRunsFrom [] cs = [] := hruns
      rw [if_pos (joinRuns_slugRuns_eq_nil_iff.mpr hruns), hnone]
      rfl
    · rw [if_neg (mt joinRuns_slugRuns_eq_nil_iff.mp hruns)]
      exact (joinRuns_cons hruns).symm

/-- A text that is collapsed and stripped is made of its runs, with underscores between them. -/
theorem stripUnderscores_collapse (cs : List Char) :
    stripUnderscores (collapse cs) = joinRuns (slugRuns cs) := by
  -- a text that starts with a run, or is empty, has no underscore to lose at its start
  have hstart : ∀ ds : List Char, (∀ d ∈ ds.head?, isSlugChar d = true) →
      stripUnderscores (collapse ds) = joinRuns (slugRuns ds) := by
    intro ds hds
    have hkept : (collapse ds).dropWhile (· == '_') = collapse ds := by
      cases ds with
      | nil => rw [collapse, List.dropWhile_nil]
      | cons d ds =>
        have hd : isSlugChar d = true := hds d rfl
        rw [collapse, if_pos hd, List.dropWhile_cons_of_neg]
        simp [ne_underscore_of_kept hd]
    rw [stripUnderscores, hkept]
    exact stripEnd_collapse (List.forall_mem_nil _) fun _ => hds
  by_cases hhead : ∀ d ∈ cs.head?, isSlugChar d = true
  · exact hstart cs hhead
  -- otherwise it starts with separators, which leave one underscore that is stripped
  · cases cs with
    | nil => exact absurd (by simp) hhead
    | cons c cs =>
      have hc : ¬ isSlugChar c = true := fun hc => hhead fun d hd => Option.some.inj hd ▸ hc
      have hseparator : ∀ d ∈ [c], isSlugChar d = false := by simpa using hc
      have hruns : slugRuns (c :: cs) = slugRuns cs := slugRuns_append_of_separators hseparator
      have hrest := hstart (cs.dropWhile fun d => !isSlugChar d) isSlugChar_of_head?_dropWhile
      rw [slugRuns_dropWhile, ← hruns] at hrest
      rw [← hrest, collapse, if_neg hc, stripUnderscores, List.dropWhile_cons_of_pos rfl, stripUnderscores]

/-- The slug of a text in the steps in which it is taken: the text is lower-cased, with any rule for the small
sigmas, collapsed and stripped. -/
def slugBy (isFinal : List Char → List Char → Bool) (s : String) : String :=
  String.ofList (stripUnderscores (collapse (lowercaseBy isFinal [] s.toList)))

/-- **No rule for the small sigmas makes a difference.** -/
theorem slugBy_eq (isFinal : List Char → List Char → Bool) (s : String) : slugBy isFinal s = slug s := by
  rw [slugBy, stripUnderscores_collapse, slug, slugRuns, slugRunsFrom_congr (forall₂_lowercaseBy isFinal [])]
  rfl

/-! ### One text -/

/-- A slug is made of what is kept and of underscores. -/
theorem IsSlug.kept_or_underscore (h : IsSlug cs) : ∀ c ∈ cs, isSlugChar c = true ∨ c = '_' := by
  induction h with
  | run hrun => exact fun c hc => .inl (hrun.2 c hc)
  | join hrun _ ih =>
    intro c hc
    rcases List.mem_append.mp hc with hc | hc
    · exact .inl (hrun.2 c hc)
    · rcases List.mem_cons.mp hc with rfl | hc
      · exact .inr rfl
      · exact ih c hc

/-- A slug is in lower case. -/
theorem IsSlug.lowercase_eq (h : IsSlug cs) : lowercase cs = cs := by
  have hkept := h.kept_or_underscore
  calc lowercase cs = cs.flatMap fun c => [c] :=
        List.flatMap_congr fun c hc => lowercaseChar_of_slug (hkept c hc)
    _ = cs := List.flatMap_singleton' cs

/-- The runs of a slug, joined, are the slug. -/
theorem IsSlug.joinRuns_slugRuns (h : IsSlug cs) : joinRuns (slugRuns cs) = cs := by
  -- on the form: a single run, or one in front of an underscore and a slug
  induction h with
  | run hrun =>
    rw [slugRuns_of_isRun hrun]
    rfl
  | @join cs rest hrun hrest ih =>
    have hsplit : slugRuns (cs ++ '_' :: rest) = cs :: slugRuns rest := by
      calc slugRuns (cs ++ '_' :: rest) = slugRuns cs ++ slugRuns rest :=
            slugRunsFrom_append_cons (by decide)
        _ = cs :: slugRuns rest := by rw [slugRuns_of_isRun hrun, List.singleton_append]
    have hne : slugRuns rest ≠ [] := by
      intro hnil
      rw [hnil] at ih
      exact hrest.ne_nil ih.symm
    rw [hsplit, joinRuns_cons hne, ih]

/-- What has the form of a slug is its own slug, and so is the empty text. Nothing else is. -/
theorem slug_eq_self_iff (s : String) : slug s = s ↔ s = "" ∨ IsSlug s.toList := by
  constructor
  · intro h
    by_cases hs : s = ""
    · exact .inl hs
    · exact .inr (h ▸ isSlug_slug (by rwa [h]))
  · rintro (rfl | hslug)
    · rfl
    · rw [slug, hslug.lowercase_eq, hslug.joinRuns_slugRuns, String.ofList_toList]

/-- **Slugs are normal forms.** A slug is made by lower-casing, collapsing and stripping, whatever rule there is
for the small sigmas. It is empty or has the form of a slug, and the texts that are their own slugs are the empty
text and those of this form; so the slug of a slug is the slug. The identifier of a machine is of this form, and
not empty, whatever its name. -/
theorem slug_normalForm (s : String) :
    (∀ isFinal, slugBy isFinal s = slug s) ∧ (slug s = "" ∨ IsSlug (slug s).toList) ∧
      (slug s = s ↔ s = "" ∨ IsSlug s.toList) ∧ slug (slug s) = slug s ∧
      ∀ machine : Node, machine.machineIdentifier ≠ "" ∧ IsSlug machine.machineIdentifier.toList := by
  have hform : slug s = "" ∨ IsSlug (slug s).toList := by
    by_cases h : slug s = ""
    · exact .inl h
    · exact .inr (isSlug_slug h)
  refine ⟨fun isFinal => slugBy_eq isFinal s, hform, slug_eq_self_iff s, (slug_eq_self_iff _).mpr hform, ?_⟩
  intro machine
  have hmachine := machine.isSlug_machineIdentifier
  refine ⟨?_, hmachine⟩
  intro hempty
  rw [hempty] at hmachine
  exact not_isSlug_nil hmachine

/-! ### Two texts -/

/-- A separator between two texts parts their slugs. -/
theorem slug_append_separator (hc : ∀ d ∈ lowercaseChar c, isSlugChar d = false) (a b : String) :
    slug (a ++ String.singleton c ++ b) = joinNonEmpty [slug a, slug b] := by
  have hruns : slugRuns (lowercase (a ++ String.singleton c ++ b).toList)
      = slugRuns (lowercase a.toList) ++ slugRuns (lowercase b.toList) := by
    rw [← slugRuns_between (lowercaseChar_ne_nil c) hc]
    simp [String.toList_append]
  rw [slug, hruns, joinRuns_slugRuns_append]
  rfl

/-- **Taking the slug commutes with joining**, exactly at those characters of which no letter from `a` to `z` and
no digit is left in lower case, whatever rule there is for the small sigmas. The slash is one of them. So the
base of a state's identifier is the slug of its name and its path with a slash between them, and two states have
the same base exactly if these texts have the same slug. -/
theorem slug_joined :
    (∀ c : Char, (∀ a b : String, slug (a ++ String.singleton c ++ b) = joinNonEmpty [slug a, slug b]) ↔
      ∀ d ∈ lowercaseChar c, isSlugChar d = false) ∧
    (∀ isFinal s, slugBy isFinal s = slug s) ∧
    (∀ (n : Node) (path : String),
      Node.identifierBase { n with path := .str path } = slug (n.name ++ "/" ++ path)) ∧
    ∀ (m n : Node) (path path' : String),
      Node.identifierBase { m with path := .str path } = Node.identifierBase { n with path := .str path' } ↔
        slug (m.name ++ "/" ++ path) = slug (n.name ++ "/" ++ path') := by
  -- a slash is a separator, so it joins the slugs of name and path
  have hbase : ∀ (n : Node) (path : String),
      Node.identifierBase { n with path := .str path } = slug (n.name ++ "/" ++ path) := by
    intro n path
    have hlower : lowercaseChar '/' = ['/'] := by decide +kernel
    have hslash : ∀ d ∈ lowercaseChar '/', isSlugChar d = false := by
      rw [hlower]
      exact List.forall_mem_singleton.mpr rfl
    rw [Node.identifierBase, Node.slugOf_str]
    exact (slug_append_separator hslash n.name path).symm
  refine ⟨fun c => ⟨fun h => ?_, fun hc => slug_append_separator hc⟩, slugBy_eq, hbase,
    fun m n path path' => ?_⟩
  · -- between two empty texts nothing is left of the character
    have hempty : slug (String.singleton c) = "" := by
      have hbetween := h "" ""
      rw [String.empty_append, String.append_empty] at hbetween
      rw [hbetween]
      rfl
    rw [slug_eq_empty_iff] at hempty
    intro d hd
    exact hempty d (by simpa using hd)
  · rw [hbase, hbase]

-- the sign for kelvins is a small letter in lower case, and parts nothing
example : slug "4 \u212a" = "4_k" ∧ slug "4\u212a" = "4k" := by decide +kernel

end HomeAutomaton.Text

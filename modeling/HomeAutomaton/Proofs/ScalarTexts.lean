import HomeAutomaton.Returns
import HomeAutomaton.Yaml.Value
import Mathlib.Data.List.Chain
import Mathlib.Data.List.Nodup
import Mathlib.Logic.Relation

/-!
# Where a node has its text

A scalar has its own text. A mapping can be read as a scalar as well; its text is then that of the node behind
its key `=`, which may be a mapping again. So reading follows links from mapping to mapping, and if one of them
leads back, it never comes to an end. The reader allows for one step more than there are nodes, and this is
enough: as many steps visit some node twice.

* `Yaml.Nodes.Leads` is a link, `Yaml.Nodes.HasText` says what texts a node can have, and
  `Yaml.Nodes.Circles` that reading it can go on for ever.
* `Yaml.Nodes.circles_of_endless` is the argument by counting nodes.
* `Yaml.Nodes.scalarText_ends` is the result.
-/

namespace HomeAutomaton.Yaml

open Building Relation

/-! ### Links -/

namespace Nodes

variable {nodes nodes' nodes'' : Array Node} {number other : Nat}

/-- The node is a mapping. -/
def IsMapping (nodes : Array Node) (number : Nat) : Prop :=
  ∃ entries, (nodes.getD number default).content = .mapping entries

/-- The node is a mapping, and behind one of its keys `=` stands the other node. -/
def Leads (nodes : Array Node) (number other : Nat) : Prop :=
  ∃ entries key, (nodes.getD number default).content = .mapping entries ∧ (key, other) ∈ entries ∧
    (nodes.getD key default).tag = .value

/-- The node can be read as a scalar with this text: it leads to one. -/
def HasText (nodes : Array Node) (number : Nat) (text : String) : Prop :=
  ∃ other, ReflTransGen (Leads nodes) number other ∧ (nodes.getD other default).content = .scalar text

/-- The node leads to one that leads back to itself. -/
def Circles (nodes : Array Node) (number : Nat) : Prop :=
  ∃ other, ReflTransGen (Leads nodes) number other ∧ TransGen (Leads nodes) other other

/-- A scalar has its own text. -/
theorem HasText.of_scalar {text : String} (h : (nodes.getD number default).content = .scalar text) :
    HasText nodes number text :=
  ⟨number, .refl, h⟩

/-- A text is found behind a link. -/
theorem HasText.head {text : String} (hleads : Leads nodes number other) (h : HasText nodes other text) :
    HasText nodes number text := by
  obtain ⟨last, hway, hscalar⟩ := h
  exact ⟨last, .head hleads hway, hscalar⟩

/-- What is no scalar itself has the text of another node. -/
theorem HasText.isMapping {text : String} (h : HasText nodes number text)
    (hnone : (nodes.getD number default).content ≠ .scalar text) : IsMapping nodes number := by
  obtain ⟨other, hway, hscalar⟩ := h
  rcases ReflTransGen.cases_head hway with rfl | ⟨next, ⟨entries, -, hcontent, -⟩, -⟩
  · exact absurd hscalar hnone
  · exact ⟨entries, hcontent⟩

/-- Beyond the last number there is no mapping. -/
theorem lt_size_of_mapping {entries : List (Nat × Nat)}
    (h : (nodes.getD number default).content = .mapping entries) : number < nodes.size := by
  by_contra hbeyond
  rw [Array.getD_eq_getD_getElem?, Array.getElem?_eq_none (Nat.le_of_not_lt hbeyond)] at h
  cases h

/-- The entry at which a mapping is read leads on. -/
theorem leads_of_find? {entries : List (Nat × Nat)} {entry : Nat × Nat}
    (hcontent : (nodes.getD number default).content = .mapping entries)
    (hfind : (entries.find? fun e => (nodes.getD e.1 default).tag == .value) = some entry) :
    Leads nodes number entry.2 := by
  have htag := List.find?_some hfind
  exact ⟨entries, entry.1, hcontent, List.mem_of_find?_eq_some hfind, eq_of_beq htag⟩

/-- If reading a node takes more than so many steps, as many nodes lead to one another. -/
theorem exists_path_of_endless {steps : Nat} (h : scalarText nodes steps number = .error .endless) :
    ∃ path : List Nat, path.length = steps ∧ path.IsChain (Leads nodes) ∧
      (∀ n ∈ path, n < nodes.size) ∧ ∀ n ∈ path.head?, n = number := by
  -- by induction on the steps: the node in front, and then the way from the one that it leads to
  induction steps generalizing number with
  | zero => exact ⟨[], rfl, .nil, nofun, nofun⟩
  | succ steps ih =>
    rw [scalarText] at h
    split at h
    next => cases h
    next => cases h
    next entries hcontent =>
      split at h
      next key v hfind =>
        obtain ⟨path, hlength, hchain, hwithin, hstart⟩ := ih h
        refine ⟨number :: path, by rw [List.length_cons, hlength], ?_, ?_, ?_⟩
        · refine hchain.cons fun n hn => ?_
          rw [hstart n hn]
          exact leads_of_find? hcontent hfind
        · exact List.forall_mem_cons.mpr ⟨lt_size_of_mapping hcontent, hwithin⟩
        · rintro n ⟨⟩
          rfl
      next => cases h

/-- **More steps than nodes go round in a circle.** -/
theorem circles_of_endless (h : scalarText nodes (nodes.size + 1) number = .error .endless) :
    Circles nodes number := by
  obtain ⟨path, hlength, hchain, hwithin, hstart⟩ := exists_path_of_endless h
  by_contra hnone
  -- each node leads to all that come after it, and the first one leads to all
  have hpairs : path.Pairwise (TransGen (Leads nodes)) := (hchain.imp fun _ _ => .single).pairwise
  have hreached : ∀ n ∈ path, ReflTransGen (Leads nodes) number n := by
    intro n hn
    obtain ⟨first, rest, rfl⟩ := List.exists_cons_of_ne_nil (List.ne_nil_of_mem hn)
    obtain rfl := hstart first rfl
    rcases List.mem_cons.mp hn with rfl | hn
    · exact .refl
    · exact ((List.pairwise_cons.mp hpairs).1 n hn).to_reflTransGen
  -- a node that is met twice leads back to itself
  have hnodup : path.Nodup := by
    refine hpairs.imp_of_mem fun {n n'} hn _ hway heq => ?_
    subst heq
    exact hnone ⟨n, hreached n hn, hway⟩
  -- so all of them differ, and there are more than there can be
  have hcount := hnodup.length_le_of_subset fun n hn => List.mem_range.mpr (hwithin n hn)
  rw [hlength, List.length_range] at hcount
  omega

/-- **Reading a node** gives a text that it leads to. It fails if there is none, or goes on for ever if the
node leads to a circle. -/
theorem scalarText_ends (nodes : Array Node) (number : Nat) :
    Ends (fun e => e = .malformed ∨ e = .endless ∧ Circles nodes number)
      (scalarText nodes (nodes.size + 1) number) (HasText nodes number) := by
  -- for fewer steps nothing is said of the circle, which is found by the number of steps
  have hread : ∀ steps number, Ends (fun e => e = .malformed ∨ e = .endless)
      (scalarText nodes steps number) (HasText nodes number) := by
    intro steps
    induction steps with
    | zero => exact fun number => .error (.inr rfl)
    | succ steps ih =>
      intro number
      rw [scalarText]
      split
      next text hcontent => exact .ok (.of_scalar hcontent)
      next => exact .error (.inl rfl)
      next entries hcontent =>
        split
        next key v hfind =>
          exact (ih v).mono fun text _ htext => .head (leads_of_find? hcontent hfind) htext
        next => exact .error (.inl rfl)
  cases hresult : scalarText nodes (nodes.size + 1) number with
  | ok text =>
    have hends := hread (nodes.size + 1) number
    rwa [hresult] at hends
  | error e =>
    rcases (hread _ _).blame_of_error hresult with rfl | rfl
    · exact .error (.inl rfl)
    · exact .error (.inr ⟨rfl, circles_of_endless hresult⟩)

end Nodes

end HomeAutomaton.Yaml

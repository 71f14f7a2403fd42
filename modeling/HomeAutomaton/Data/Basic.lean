import HomeAutomaton.Calendar
import HomeAutomaton.Machine.Kind
import HomeAutomaton.Number.Binary64

/-!
# Data

Values as they stand in a model, an action fragment or a document: scalars, sequences and mappings,
written out as a tree. Identity plays no part here (`HomeAutomaton.Graph` has it); a container that
is met inside itself is cut off and replaced by a leaf `up n`, which points to the `n`th container
around it.

* `Data.isFilled` separates values from the empty ones that count as missing.
* `Data.same` says when two values are the same, as keys of a mapping have to be told apart: numbers
  compare across their types, mappings whatever their order.
* `Data.equal` is equality of values. It is the same except that not-a-number equals nothing.
* `Data.isKey` says which values can be keys of a mapping: those without a list, set or mapping in
  them.
-/

namespace HomeAutomaton

/-- A value written out as a tree. -/
inductive Data where
  | null
  | bool (b : Bool)
  | int (n : Int)
  | float (x : Binary64)
  | str (s : String)
  | bytes (bs : List UInt8)
  | date (d : Date)
  | dateTime (t : DateTime)
  | kind (k : NodeKind)
  | list (items : List Data)
  | tuple (items : List Data)
  | set (items : List Data)
  | map (entries : List (Data × Data))
  | object (label : Nat) (attributes : List (String × Data))
  /-- The `n`th container around this place, the nearest one being the first. -/
  | up (n : Nat)
  deriving BEq, Repr, Inhabited

namespace Data

/-- Is the value something other than null, false, zero or empty? -/
def isFilled : Data → Bool
  | null => false
  | bool b => b
  | int n => n != 0
  | float x => !x.isZero
  | str s => s != ""
  | bytes bs => !bs.isEmpty
  | list items | tuple items | set items => !items.isEmpty
  | map entries => !entries.isEmpty
  | date _ | dateTime _ | kind _ | object .. | up _ => true

/-- The integer a number stands for; truth values count as zero and one. -/
def toInt? : Data → Option Int
  | bool b => some (if b then 1 else 0)
  | int n => some n
  | float x => x.toInt?
  | _ => none

/-- Sameness of values that are not containers. -/
def sameScalar : Data → Data → Bool
  | null, null => true
  | str s, str t => s == t
  | bytes s, bytes t => s == t
  | date s, date t => s == t
  | dateTime s, dateTime t => s.same t
  | kind s, kind t => s == t
  | object l _, object m _ => l == m
  | up m, up n => m == n
  | float x, float y => x.same y
  | x, y =>
    match x.toInt?, y.toInt? with
    | some m, some n => m == n
    | _, _ => false

mutual

/-- Are the two values the same? -/
def same : Data → Data → Bool
  | list xs, list ys => sameItems xs ys
  | tuple xs, tuple ys => sameItems xs ys
  | set xs, set ys => xs.length == ys.length && allAmong xs ys
  | map xs, map ys => xs.length == ys.length && allEntriesAmong xs ys
  | x, y => sameScalar x y
termination_by structural x => x

/-- Sameness item by item. -/
def sameItems : List Data → List Data → Bool
  | [], [] => true
  | x :: xs, y :: ys => same x y && sameItems xs ys
  | _, _ => false
termination_by structural x => x

/-- Does every item have the same one among the others? -/
def allAmong : List Data → List Data → Bool
  | [], _ => true
  | x :: xs, ys => ys.any (same x) && allAmong xs ys
termination_by structural x => x

/-- Does every entry have the same one among the others? -/
def allEntriesAmong : List (Data × Data) → List (Data × Data) → Bool
  | [], _ => true
  | (k, v) :: xs, ys => ys.any (fun e => same k e.1 && same v e.2) && allEntriesAmong xs ys
termination_by structural x => x

end

/-- Are the two values equal? -/
def equal (x y : Data) : Bool :=
  match x with
  | float v => !v.isNaN && same x y
  | x => same x y

mutual

/-- Can the value be a key? -/
def isKey : Data → Bool
  | list _ | set _ | map _ | up _ => false
  | tuple items => allKeys items
  | _ => true

/-- Can every one of the values be a key? -/
def allKeys : List Data → Bool
  | [] => true
  | x :: xs => isKey x && allKeys xs

end

/-- The text, if the value is one. -/
def str? : Data → Option String
  | str s => some s
  | _ => none

@[simp] theorem same_str (s t : String) : same (str s) (str t) = (s == t) := by
  simp [same, sameScalar]

@[simp] theorem equal_str (s t : String) : equal (str s) (str t) = (s == t) := same_str s t

@[simp] theorem isKey_str (s : String) : isKey (str s) = true := by simp [isKey]

@[simp] theorem isFilled_str (s : String) : isFilled (str s) = (s != "") := rfl

/-! ### Sameness with itself -/

theorem allAmong_of_mem {xs ys : List Data} (h : ∀ x ∈ xs, ys.any (same x) = true) :
    allAmong xs ys = true := by
  induction xs with
  | nil => rw [allAmong]
  | cons x xs ih =>
    rw [allAmong, h x List.mem_cons_self, ih fun y hy => h y (List.mem_cons_of_mem x hy)]
    rfl

theorem allEntriesAmong_of_mem {xs ys : List (Data × Data)}
    (h : ∀ k v, (k, v) ∈ xs → ys.any (fun e => same k e.1 && same v e.2) = true) :
    allEntriesAmong xs ys = true := by
  induction xs with
  | nil => rw [allEntriesAmong]
  | cons x xs ih =>
    rw [allEntriesAmong, h x.1 x.2 List.mem_cons_self,
      ih fun k v he => h k v (List.mem_cons_of_mem x he)]
    rfl

theorem sizeOf_entry_lt {k v : Data} {es : List (Data × Data)} (h : (k, v) ∈ es) :
    sizeOf k < sizeOf es ∧ sizeOf v < sizeOf es := by
  have hlt := List.sizeOf_lt_of_mem h
  simp only [Prod.mk.sizeOf_spec] at hlt
  omega

mutual

/-- A value is the same as itself, not-a-number included. -/
theorem same_self : ∀ d : Data, same d d = true
  | .list xs | .tuple xs => by rw [same]; exact sameItems_self xs
  | .set xs => by
    rw [same, BEq.rfl, Bool.true_and]
    exact allAmong_of_mem fun x hx => List.any_eq_true.mpr ⟨x, hx, same_self x⟩
  | .map es => by
    rw [same, BEq.rfl, Bool.true_and]
    refine allEntriesAmong_of_mem fun k v he => List.any_eq_true.mpr ⟨(k, v), he, ?_⟩
    have hlt := sizeOf_entry_lt he
    rw [same_self k, same_self v]
    rfl
  | .dateTime t => by cases h : t.offset <;> simp [same, sameScalar, DateTime.same, h]
  | .null | .str _ | .bytes _ | .date _ | .kind _ | .object .. | .up _ => by
    simp [same, sameScalar]
  | .bool _ | .int _ => by simp [same, sameScalar, toInt?]
  | .float x => by simp [same, sameScalar, Binary64.same]

theorem sameItems_self : ∀ ds : List Data, sameItems ds ds = true
  | [] => by rw [sameItems]
  | d :: ds => by rw [sameItems, same_self d, sameItems_self ds]; rfl

end

end Data

/-! ### Tables in order of arrival -/

/-- A table of values by key, in the order in which the keys arrived. -/
abbrev Table (α : Type) := List (Data × α)

namespace Table

variable {α : Type}

/-- The value stored under a key. -/
def get? (table : Table α) (key : Data) : Option α :=
  (table.find? fun e => e.1.same key).map (·.2)

/-- The value is stored under the key. A key that is there already keeps its place. -/
def put : Table α → Data → α → Table α
  | [], key, value => [(key, value)]
  | e :: rest, key, value =>
    if e.1.same key then (e.1, value) :: rest else e :: put rest key value

/-- The table of a list of pairs, of which later ones win. -/
def ofPairs (pairs : List (Data × α)) : Table α :=
  pairs.foldl (fun table e => table.put e.1 e.2) []

end Table

end HomeAutomaton

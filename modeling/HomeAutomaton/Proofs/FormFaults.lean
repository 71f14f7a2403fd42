import HomeAutomaton.Proofs.Displacement
import HomeAutomaton.Returns
import HomeAutomaton.Yaml.Load

/-!
# What the form of a text can be wrong in

Before any scalar of a text gets a value, the text is split into tokens, these are put together to a tree,
and its nodes are numbered. A text with which that fails is not well formed, with three exceptions: the
number of a version that has too many digits, and escapes for codes that no character has. These are found
in splitting the text, and only the end of the tokens is there to tell.

* `Yaml.LoadError.OfForm` are the failures of form.
* `Yaml.Scan.next_scans` says that reading a piece has no others, and `Yaml.Token.failure_ofForm` that
  splitting a text has none.
* `Yaml.Composes` says that a text is well formed, and what its nodes are. `Model.ofYaml_error` says what
  can happen to a text that has no value.
-/

namespace HomeAutomaton.Yaml

/-- The text is not well formed, or it has the number of a version or the code of a character that is out of
bounds. -/
inductive LoadError.OfForm : LoadError → Prop
  | malformed : OfForm .malformed
  | versionTooLong : OfForm .versionTooLong
  | noSuchCharacter : OfForm .noSuchCharacter
  | characterTooLarge : OfForm .characterTooLarge

/-- If the computation fails, then for the form of the text. -/
def Scans {α : Type} (x : Except LoadError α) : Prop := Ends LoadError.OfForm x fun _ => True

namespace Scans

variable {α β : Type} {x y : Except LoadError α}

theorem ok (a : α) : Scans (.ok a : Except LoadError α) := trivial

theorem malformed : Scans (.error .malformed : Except LoadError α) := LoadError.OfForm.malformed

theorem bind {f : α → Except LoadError β} (h : Scans x) (hf : ∀ a, Scans (f a)) : Scans (x >>= f) :=
  Ends.bind h fun a _ => hf a

theorem ite {p : Prop} [Decidable p] (hx : Scans x) (hy : Scans y) : Scans (if p then x else y) := by
  split
  next => exact hx
  next => exact hy

/-- A computation that is refused under a condition. -/
theorem refused {p : Prop} [Decidable p] (h : Scans x) : Scans (if p then .error .malformed else x) :=
  malformed.ite h

theorem ofForm {e : LoadError} (h : Scans x) (hx : x = .error e) : e.OfForm := by
  rw [hx] at h
  exact h

end Scans

variable (c : Cursor)

/-- Behind what a line is for there may stand a comment, and nothing else. -/
theorem Cursor.endOfLine_scans : Scans c.endOfLine := by
  rw [endOfLine]
  split
  next => exact .ok _
  next => exact (Scans.ok _).ite .malformed

/-! ### Names -/

/-- A name is not empty, and ends where a word may end. -/
theorem anchorName_scans : Scans (anchorName c) := Scans.refused (.ok _)

/-- An escape in a tag is two hexadecimal digits. -/
theorem escapedBytes_scans (cs : List Char) : Scans (escapedBytes cs) := by
  fun_induction escapedBytes cs with
  | case1 => exact .malformed
  | case2 a b rest n hn ih => exact ih.bind fun _ => .ok _
  | case3 => exact .malformed
  | case4 => exact .ok _

/-- The escaped bytes of a tag have to be those of a text. -/
theorem tagRestFrom_scans (steps : Nat) (text : List Char) : Scans (tagRestFrom steps text c) := by
  induction steps generalizing text c with
  | zero => exact .ok _
  | succ steps ih =>
    rw [tagRestFrom]
    split
    next =>
      refine (escapedBytes_scans _).bind fun bytes => ?_
      split
      next => exact .malformed
      next => exact ih _ _
    next => exact (ih _ _).ite (.ok _)

/-- What is left of a tag is not empty. -/
theorem tagRest_scans : Scans (tagRest c) := by
  refine (tagRestFrom_scans c _ _).bind ?_
  rintro ⟨text, next⟩
  exact Scans.refused (.ok _)

/-- A handle ends as it starts. -/
theorem tagHandle_scans : Scans (tagHandle c) := by
  refine Scans.refused ((Scans.ok _).ite ?_)
  exact (Scans.ok _).ite .malformed

/-- A tag is malformed if one of its parts is. -/
theorem tagToken_scans : Scans (tagToken c) := by
  -- behind every tag there has to be the end of a word
  have hend : ∀ read : Token × Cursor, Scans (if endsWord read.2.peek then .ok (read.1, read.2)
      else .error .malformed : Except LoadError (Token × Cursor)) := fun _ => (Scans.ok _).ite .malformed
  rw [tagToken]
  refine Scans.ite ((tagRest_scans _).bind fun read => ?_) (Scans.ite ((Scans.ok _).bind hend) ?_)
  · exact ((Scans.ok _).bind hend).ite (Scans.malformed.bind hend)
  · have hrest : ∀ handle : String × Cursor, Scans (tagRest handle.2 >>= fun rest =>
        Except.ok (Token.tag (some handle.1) rest.1, rest.2) >>= fun read =>
          if endsWord read.2.peek then .ok (read.1, read.2) else .error .malformed) :=
      fun handle => (tagRest_scans _).bind fun rest => (Scans.ok _).bind hend
    exact Scans.ite ((tagHandle_scans _).bind hrest) ((Scans.ok _).bind hrest)

/-! ### Directives -/

/-- **A number of a version** may be malformed, or have more digits than are accepted. -/
theorem directiveNumber_scans : Scans (directiveNumber c) := by
  refine Scans.ite LoadError.OfForm.versionTooLong ?_
  split
  next => exact .ok _
  next => exact .malformed

/-- A directive fails for its parts, or for what stands behind it in its line. -/
theorem directiveToken_scans : Scans (directiveToken c) := by
  -- behind every directive there has to be the end of a line
  have hend : ∀ read : Token × Cursor,
      Scans (read.2.endOfLine >>= fun c => Except.ok (read.1, c)) :=
    fun _ => (Cursor.endOfLine_scans _).bind fun _ => .ok _
  rw [directiveToken]
  generalize "YAML".toList = version
  generalize "TAG".toList = handles
  generalize c.advance.takeWhile isNameChar = read
  obtain ⟨name, c⟩ := read
  refine Scans.refused (Scans.ite ?_ (Scans.ite ?_ ((Scans.ok _).bind hend)))
  · refine (directiveNumber_scans _).bind fun major => Scans.ite (Scans.malformed.bind hend) ?_
    refine (directiveNumber_scans _).bind fun minor => ?_
    exact ((Scans.ok _).bind hend).ite (Scans.malformed.bind hend)
  · refine (tagHandle_scans _).bind fun handle => Scans.ite (Scans.malformed.bind hend) ?_
    refine (tagRest_scans _).bind fun rest => ?_
    exact ((Scans.ok _).bind hend).ite (Scans.malformed.bind hend)

/-! ### Scalars -/

/-- **A code** may be that of no character, in two ways. -/
theorem charOfCode_scans (n : Nat) : Scans (charOfCode n) :=
  (Scans.ok _).ite (Scans.ite LoadError.OfForm.noSuchCharacter LoadError.OfForm.characterTooLarge)

/-- A quoted scalar does not go over the marker of a document. -/
theorem quotedBreaks_scans (steps : Nat) (breaks : List Char) : Scans (quotedBreaks steps breaks c) := by
  induction steps generalizing breaks c with
  | zero => exact .ok _
  | succ steps ih =>
    rw [quotedBreaks]
    refine Scans.refused ?_
    dsimp only
    split
    next => exact .ok _
    next => exact ih _ _

/-- And it does not go over the end of the text. -/
theorem quotedGap_scans : Scans (quotedGap c) := by
  rw [quotedGap]
  dsimp only
  split
  next => exact (quotedBreaks_scans _ _ _).bind fun _ => .ok _
  next => exact Scans.refused (.ok _)

/-- An escape is known and complete, and its code is that of a character. -/
theorem quotedEscape_scans : Scans (quotedEscape c) := by
  rw [quotedEscape]
  split
  next => exact .ok _
  next =>
    split
    next =>
      dsimp only
      split
      next => exact .malformed
      next => exact Scans.refused ((charOfCode_scans _).bind fun _ => .ok _)
    next =>
      split
      next => exact quotedBreaks_scans _ _ _
      next => exact .malformed

/-- A quoted scalar has an end. -/
theorem quotedFrom_scans (double : Bool) (steps : Nat) (text : List Char) :
    Scans (quotedFrom double steps text c) := by
  induction steps generalizing text c with
  | zero => exact .malformed
  | succ steps ih =>
    rw [quotedFrom]
    refine Scans.ite (Scans.ite (ih _ _) (.ok _)) (Scans.ite ?_ (Scans.ite ?_ (ih _ _)))
    · exact (quotedEscape_scans _).bind fun _ => ih _ _
    · exact (quotedGap_scans _).bind fun _ => ih _ _

/-- A quoted scalar fails for its gaps and its escapes. -/
theorem quotedScalar_scans (double : Bool) : Scans (quotedScalar double c) := quotedFrom_scans _ _ _ _

/-- The indentation of a block scalar is not zero. -/
theorem blockIndent?_scans (ch : Char) : Scans (blockIndent? ch) :=
  Scans.refused ((Scans.ok _).ite (.ok _))

/-- Behind the marks of a block scalar a word ends. -/
theorem blockHeader_scans : Scans (blockHeader c) := by
  have hend : ∀ read : Chomping × Option Nat × Cursor,
      Scans (if endsWord read.2.2.peek then .ok (read.1, read.2.1, read.2.2) else .error .malformed) :=
    fun _ => (Scans.ok _).ite .malformed
  rw [blockHeader]
  split
  -- either mark may come first
  next => exact (blockIndent?_scans _).bind fun _ => (Scans.ok _).bind hend
  next =>
    refine (blockIndent?_scans _).bind fun indent => ?_
    split
    next => exact (Scans.ok _).bind hend
    next =>
      dsimp only
      split
      next => exact (Scans.ok _).bind hend
      next => exact (Scans.ok _).bind hend

/-- A block scalar fails for its header alone: its lines may be any. -/
theorem blockScalar_scans (folded : Bool) (outer : Int) : Scans (blockScalar folded outer c) :=
  (blockHeader_scans _).bind fun _ => (Cursor.endOfLine_scans _).bind fun _ => .ok _

/-! ### Pieces -/

namespace Scan

variable (s : Scan)

/-- A required key that is stale is refused. -/
theorem dropStale_scans : Scans s.dropStale := Scans.refused (.ok _)

/-- A required key that has no value is refused. -/
theorem dropKey_scans : Scans s.dropKey := Scans.refused (.ok _)

/-- Where a key may start the one before it is dropped. -/
theorem markKey_scans : Scans s.markKey :=
  Scans.ite ((dropKey_scans s).bind fun _ => .ok _) (.ok _)

/-- At the end of the text no required key may be open. -/
theorem finish_scans : Scans s.finish := (dropKey_scans _).bind fun _ => .ok _

/-- A directive fails for its own form, or for a key that is left open. -/
theorem directive_scans : Scans s.directive :=
  (dropKey_scans _).bind fun _ => (directiveToken_scans _).bind fun _ => .ok _

theorem documentMarker_scans (t : Token) : Scans (s.documentMarker t) :=
  (dropKey_scans _).bind fun _ => .ok _

/-- An opening bracket fails for a key that is left open. -/
theorem openFlow_scans (t : Token) : Scans (s.openFlow t) := (markKey_scans s).bind fun _ => .ok _

/-- A closing bracket without an opening one is refused. -/
theorem closeFlow_scans (t : Token) : Scans (s.closeFlow t) := by
  refine (dropKey_scans s).bind fun s => ?_
  split
  next => exact .malformed
  next => exact .ok _

/-- A comma fails for a key that is left open. -/
theorem flowEntry_scans : Scans s.flowEntry := (dropKey_scans s).bind fun _ => .ok _

/-- An item of a block stands where a block may be. -/
theorem blockEntry_scans : Scans s.blockEntry :=
  Scans.refused ((dropKey_scans _).bind fun _ => .ok _)

theorem explicitKey_scans : Scans s.explicitKey :=
  Scans.refused ((dropKey_scans _).bind fun _ => .ok _)

/-- A value in a block belongs to a key, or stands where a block may be. -/
theorem mappingValue_scans : Scans s.mappingValue := by
  rw [mappingValue]
  split
  next => exact .ok _
  next => exact Scans.refused (.ok _)

/-- A piece that may be a key fails for its own form, or for a key that is left open. -/
theorem keyLike_scans {read : Cursor → Except LoadError (Token × Cursor)} (h : ∀ c, Scans (read c)) :
    Scans (s.keyLike read) :=
  (markKey_scans s).bind fun _ => (h _).bind fun _ => .ok _

/-- A quoted scalar as a piece. -/
theorem quoted_scans (double : Bool) : Scans (s.quoted double) :=
  s.keyLike_scans fun c => (quotedScalar_scans c double).bind fun _ => .ok _

/-- A block scalar as a piece. -/
theorem block_scans (folded : Bool) : Scans (s.block folded) :=
  (dropKey_scans s).bind fun _ => (blockScalar_scans _ _ _).bind fun _ => .ok _

/-- A plain scalar fails for a key that is left open alone. -/
theorem plain_scans : Scans s.plain := (markKey_scans s).bind fun _ => .ok _

/-- **Reading a piece** fails for the form of the text alone. -/
theorem next_scans : Scans s.next := by
  have hname : ∀ (make : String → Token) (c : Cursor), Scans (anchorName c >>= fun read =>
      Except.ok (make read.1, read.2)) := fun _ c => (anchorName_scans c).bind fun _ => .ok _
  rw [next]
  refine (dropStale_scans _).bind fun s => ?_
  generalize Scan.unwind s _ = s
  -- what is tried follows the order of the reader: markers, brackets, marks, names, scalars
  refine Scans.ite (finish_scans _) (Scans.ite (directive_scans _) ?_)
  refine Scans.ite (documentMarker_scans _ _) (Scans.ite (documentMarker_scans _ _) ?_)
  refine Scans.ite (openFlow_scans _ _) (Scans.ite (openFlow_scans _ _) ?_)
  refine Scans.ite (closeFlow_scans _ _) (Scans.ite (closeFlow_scans _ _) ?_)
  refine Scans.ite (flowEntry_scans _) (Scans.ite (blockEntry_scans _) ?_)
  refine Scans.ite (explicitKey_scans _) (Scans.ite (mappingValue_scans _) ?_)
  refine Scans.ite (keyLike_scans _ (hname _)) (Scans.ite (keyLike_scans _ (hname _)) ?_)
  refine Scans.ite (keyLike_scans _ tagToken_scans) ?_
  refine Scans.ite (block_scans _ _) (Scans.ite (block_scans _ _) ?_)
  refine Scans.ite (quoted_scans _ _) (Scans.ite (quoted_scans _ _) ?_)
  exact (plain_scans _).ite .malformed

theorem run_ofForm {steps : Nat} {e : LoadError} (h : (s.run steps).2 = some e) : e.OfForm := by
  induction steps generalizing s with
  | zero =>
    -- a text without an end of its own is not read on
    obtain rfl : .malformed = e := Option.some.inj h
    exact .malformed
  | succ steps ih =>
    cases hdone : s.done with
    | true =>
      rw [run_of_done hdone] at h
      cases h
    | false =>
      rw [run_of_next hdone] at h
      cases hnext : s.next with
      | ok t =>
        rw [hnext] at h
        exact ih t h
      | error e' =>
        rw [hnext] at h
        obtain rfl := Option.some.inj h
        exact (next_scans s).ofForm hnext

end Scan

/-- **The tokens of a text end early** for its form alone. -/
theorem Token.failure_ofForm {text : String} {e : LoadError} (h : (Token.ofText text).2 = some e) :
    e.OfForm := by
  rw [Token.ofText] at h
  dsimp only at h
  split at h
  next =>
    generalize text.toList.length + 2 = steps at h
    exact Scan.run_ofForm _ h
  next =>
    obtain rfl := Option.some.inj h
    exact .malformed

/-! ### Trees and nodes -/

/-- Where the tokens end early, the tree fails for the failure that ended them; where they do not fit together
it is malformed. -/
theorem Tree.ofTokens_error {tokens : List Token} {failure : Option LoadError} {e : LoadError}
    (h : ofTokens tokens failure = .error e) : e = .malformed ∨ failure = some e := by
  -- only the parser that is stuck at the end of the tokens reports what ended them
  have hrefuse : ∀ stuck : List Token,
      (if stuck.isEmpty then failure.getD .malformed else .malformed) = e →
        e = .malformed ∨ failure = some e := by
    rintro stuck rfl
    split
    next =>
      cases failure with
      | none => exact .inl rfl
      | some e => exact .inr rfl
    next => exact .inl rfl
  rw [ofTokens] at h
  dsimp only at h
  split at h
  next stuck _ => exact hrefuse stuck (Except.error.inj h)
  next =>
    split at h
    next stuck _ => exact hrefuse stuck (Except.error.inj h)
    next => cases h

namespace Nodes

/-- A node is refused for an anchor that is given already. -/
theorem add_error (ns : Nodes) (properties : Properties) (node : Node) :
    Ends (· = .malformed) (ns.add properties node) fun _ => True := by
  rw [add]
  split
  next => exact trivial
  next =>
    split
    next => exact rfl
    next => exact trivial

mutual

/-- Numbering the nodes of a tree fails for anchors alone. -/
theorem ofTreeFrom_error : ∀ (tree : Tree) (ns : Nodes),
    Ends (· = .malformed) (ns.ofTreeFrom tree) fun _ => True
  | .alias name, ns => by
    rw [ofTreeFrom]
    -- a name that was not given before is refused
    split
    next => exact trivial
    next => exact rfl
  | .scalar properties plain text, ns => by
    rw [ofTreeFrom]
    exact add_error _ _ _
  | .sequence properties items, ns => by
    rw [ofTreeFrom]
    refine (add_error _ _ _).bind fun added _ => ?_
    exact (itemsFrom_error items _).bind fun _ _ => trivial
  | .mapping properties entries, ns => by
    rw [ofTreeFrom]
    refine (add_error _ _ _).bind fun added _ => ?_
    exact (entriesFrom_error entries _).bind fun _ _ => trivial

/-- The items of a sequence, one after the other. -/
theorem itemsFrom_error : ∀ (items : List Tree) (ns : Nodes),
    Ends (· = .malformed) (ns.itemsFrom items) fun _ => True
  | [], ns => by
    rw [itemsFrom]
    exact trivial
  | item :: rest, ns => by
    rw [itemsFrom]
    refine (ofTreeFrom_error item ns).bind fun added _ => ?_
    exact (itemsFrom_error rest _).bind fun _ _ => trivial

/-- The entries of a mapping, each key before its value. -/
theorem entriesFrom_error : ∀ (entries : List (Tree × Tree)) (ns : Nodes),
    Ends (· = .malformed) (ns.entriesFrom entries) fun _ => True
  | [], ns => by
    rw [entriesFrom]
    exact trivial
  | (key, value) :: rest, ns => by
    rw [entriesFrom]
    refine (ofTreeFrom_error key ns).bind fun added _ => ?_
    refine (ofTreeFrom_error value _).bind fun added _ => ?_
    exact (entriesFrom_error rest _).bind fun _ _ => trivial

end

theorem ofTree_error {tree : Tree} {e : LoadError} (h : ofTree tree = .error e) : e = .malformed := by
  have hends : Ends (· = .malformed) (ofTree tree) fun _ => True :=
    (ofTreeFrom_error tree {}).bind fun _ _ => trivial
  rw [h] at hends
  exact hends

end Nodes

/-- The text is a well-formed document with these nodes, the root having this number. -/
def Composes (text : String) (root : Nat) (nodes : Array Node) : Prop :=
  ∃ tree, Tree.ofTokens (Token.ofText text).1 (Token.ofText text).2 = .ok (some tree) ∧
    Nodes.ofTree tree = .ok (root, nodes)

end HomeAutomaton.Yaml

namespace HomeAutomaton

open Yaml

/-- **If a text has no value**, then for its form, or it is well formed and building the value of its nodes
fails. -/
theorem Model.ofYaml_error {text : String} {e : LoadError}
    (h : Model.ofYaml text = .error e) :
    e = .malformed ∨ ((Token.ofText text).2 = some e ∧ e.OfForm) ∨
      ∃ root nodes, Composes text root nodes ∧ modelOfNodes root nodes = .error e := by
  -- the tree comes first, then the numbers of its nodes, and then their values
  rw [Model.ofYaml] at h
  dsimp only at h
  split at h
  next e' htree =>
    obtain rfl := Except.error.inj h
    refine (Tree.ofTokens_error htree).imp_right fun hfailure => .inl ⟨hfailure, ?_⟩
    exact Token.failure_ofForm hfailure
  next => cases h
  next tree htree =>
    split at h
    next e' hnodes =>
      obtain rfl := Except.error.inj h
      exact .inl (Nodes.ofTree_error hnodes)
    next root nodes hnodes => exact .inr (.inr ⟨root, nodes, ⟨tree, htree, hnodes⟩, h⟩)

end HomeAutomaton

import HomeAutomaton.CommandLine.Input
import HomeAutomaton.Proofs.JsonReading

/-!
# Exports

The export of a model holds every object once, so it is a tree, and a tree is exported as it is. Exporting
twice is exporting once. A model that was read from a JSON text is a tree; its export is a text that is read
as the same model.

There is one exception. Keys of every type become texts, and an integer that is too long has none. A model
that has such a key in a place that is written out has no export at all.

* `Model.exported_of_isJson` says what is exported of a model whose copy can stand in a JSON text.
* `Model.once_retracts` is the result. `Model.long_key_kept` is a model with a key that is too long.
-/

namespace HomeAutomaton

namespace Data

/-- What can stand in a JSON text holds no integer that is too long. -/
theorem IsJson.hasLongNumber {d : Data} (h : d.IsJson) : d.hasLongNumber = false := by
  induction h with
  | null | bool | float | str => rfl
  | int hshort => rwa [Data.hasLongNumber]
  | list _ ih => rwa [Data.hasLongNumber, anyLongNumber_eq_false]
  | map htext _ _ ih =>
    rw [Data.hasLongNumber, anyLongEntry_eq_false]
    exact fun e he => ⟨(htext e he).hasLongNumber, ih e he⟩

end Data

namespace Model

/-- If the copy can stand in a JSON text, the export is this text, and is read as the copy. -/
theorem exported_of_isJson {model : Model} (h : model.once.IsJson) (indent : Option Nat) :
    model.exported indent = .ok (Json.print indent model.once) ∧
      Json.read (Json.print indent model.once) = .ok model.once := by
  refine ⟨?_, Json.read_print h indent⟩
  rw [exported, h.hasLongNumber]
  rfl

/-- A copy that is no tree is not exported. -/
theorem exported_of_not_isTree {model : Model} (h : ¬ model.once.IsTree) (indent : Option Nat) :
    model.exported indent = .error .numberTooLong := by
  have hlong : model.once.hasLongNumber = true := by
    by_contra hshort
    rw [Bool.not_eq_true] at hshort
    exact h (Graph.isTree_once_of_hasLongKey (Data.hasLongKey_of_hasLongNumber _ hshort))
  rw [exported, hlong]
  rfl

/-- **Exports are plain trees, and plain trees are exported as they are.** In the copy of a model no object
is written out twice. The copy is a tree, except if an entry is in it whose key has no text; then nothing is
exported. The copy of a model that is a tree, of which no part stands in two places, is this tree, and so the
copy of a copy is the same copy. A model that was read from a JSON text is the copy of itself; it has an
export, which is read as the same model. -/
theorem once_retracts (model : Model) :
    (∃ copy ids, model.graph.Copied Cell.copy model.root [] model.root copy ids ∧ ids.Nodup ∧
      copy.getD .null = model.once) ∧
    (model.once.IsTree ↔
      ∀ route key, model.graph.Keeps model.root route key → key.hasLongNumber = false) ∧
    (¬ model.once.IsTree → ∀ indent, model.exported indent = .error .numberTooLong) ∧
    (∀ d, d.IsTree → model.graph.Unfolds model.root d → model.graph.Unshared model.root → model.once = d) ∧
    (model.once.IsTree → (ofData model.once).once = model.once) ∧
    ∀ text, CommandLine.valueOfJson text = .ok model →
      Json.read text = .ok model.once ∧
      ∀ indent, ∃ out, model.exported indent = .ok out ∧ CommandLine.valueOfJson out = .ok model := by
  refine ⟨?_, Graph.isTree_once_iff, exported_of_not_isTree,
    fun d hd hunfolds hunshared => Graph.once_eq_of_unshared hd hunfolds hunshared, once_ofData,
    fun text hread => ?_⟩
  · obtain ⟨ids, -, hcopied, hnodup, -⟩ := model.graph.visits_root model.root (Nat.lt_succ_self _)
    exact ⟨_, ids, hcopied, hnodup, rfl⟩
  · -- the model is the graph of the value that was read
    obtain ⟨d, hd, rfl⟩ : ∃ d, Json.read text = .ok d ∧ ofData d = model := by
      rw [CommandLine.valueOfJson] at hread
      split at hread
      next d hd => exact ⟨d, hd, Except.ok.inj hread⟩
      all_goals cases hread
    have hjson : d.IsJson := Json.isJson_of_read hd
    have honce : (ofData d).once = d := once_ofData hjson.isTree
    refine ⟨by rw [honce, hd], fun indent => ?_⟩
    have hcopy : (ofData d).once.IsJson := honce.symm ▸ hjson
    obtain ⟨hexported, hback⟩ := exported_of_isJson hcopy indent
    refine ⟨_, hexported, ?_⟩
    rw [CommandLine.valueOfJson, hback, honce]

/-- A cellar that knows its lamps. Its keys are of several types, and it contains itself. -/
def cellar : Model where
  graph := { cells := #[
    .map [(.str "lamps", .ref 1), (.int 7, .ref 2), (.null, .ref 0), (.tuple [.bool true], .ref 3)],
    .list [.ref 2, .ref 1, .kind .state, .ref 4],
    .object [("name", .str "bulb"), ("_on", .bool true), ("room", .ref 0), ("tags", .ref 5)],
    .date { year := 2024, month := 1, day := 2 },
    .tuple [.int 1, .ref 3],
    .set [.str "old"]] }
  root := .ref 0

/-- The cellar is exported, and a list with a mapping in it is read back. -/
theorem once_retracts_cellar : cellar.once.IsTree ∧ (ofData cellar.once).once = cellar.once ∧
    ∃ model, CommandLine.valueOfJson "[7, \x7b\"on\": [true, null]\x7d]" = .ok model ∧
      ∃ out, model.exported = .ok out ∧ CommandLine.valueOfJson out = .ok model := by
  have htree : cellar.once.IsTree := Graph.isTree_once_of_hasLongKey (by decide +kernel)
  obtain ⟨-, -, -, -, hagain, -⟩ := once_retracts cellar
  refine ⟨htree, hagain htree, ?_⟩
  let d : Data := .list [.int 7, .map [(.str "on", .list [.bool true, .null])]]
  -- the text is that of a value that can stand in it
  have hjson : d.IsJson := by
    have hseven : Text.isTooLong 7 = false := by decide +kernel
    have hlist : (Data.list [.bool true, .null]).IsJson :=
      .list (List.forall_mem_cons.mpr ⟨.bool true, List.forall_mem_singleton.mpr .null⟩)
    refine .list (List.forall_mem_cons.mpr ⟨.int hseven, List.forall_mem_singleton.mpr ?_⟩)
    exact .map (List.forall_mem_singleton.mpr (Data.isText_str "on")) (List.nodup_singleton _)
      (List.forall_mem_singleton.mpr hlist)
  have htext : Json.print none d = "[7, \x7b\"on\": [true, null]\x7d]" := by decide +kernel
  have hread : CommandLine.valueOfJson "[7, \x7b\"on\": [true, null]\x7d]" = .ok (ofData d) := by
    rw [CommandLine.valueOfJson, ← htext, Json.read_print hjson]
  obtain ⟨-, -, -, -, -, hback⟩ := once_retracts (ofData d)
  exact ⟨ofData d, hread, (hback _ hread).2 (some 2)⟩

example : Json.print none cellar.once =
    "\x7b\"lamps\": [\x7b\"name\": \"bulb\", \"tags\": [\"old\"]\x7d, null, \"State\", [1, \"2024-01-02\"]]\x7d" := by
  decide +kernel

/-- A mapping whose key is the least integer that is too long is not copied to a tree, and has no export. -/
theorem long_key_kept : ∃ model : Model,
    model.graph.cells = #[.map [(.int (Nat.pow 10 Text.digitLimit), .null)]] ∧ model.root = .ref 0 ∧
      ¬ model.once.IsTree ∧ ∀ indent, model.exported indent = .error .numberTooLong := by
  let key : Data := .int (Nat.pow 10 Text.digitLimit)
  let model : Model := ⟨⟨#[.map [(key, .null)]]⟩, .ref 0⟩
  have hlong : key.hasLongNumber = true := by
    rw [Data.hasLongNumber, Text.isTooLong, decide_eq_true_iff, Int.natAbs_natCast]
  -- the root has no earlier route, and so the key stays
  have hkeeps : model.graph.Keeps model.root [] key := by
    refine ⟨⟨_, ⟨0, _, [], .here, rfl, rfl, List.nodup_singleton _⟩, fun _ _ => List.not_lt_nil _⟩, ?_⟩
    refine ⟨0, [], _, 0, .null, .here, rfl, rfl, ?_⟩
    intro _ h
    cases h
  have htree : ¬ model.once.IsTree := by
    intro htree
    have hshort := Graph.isTree_once_iff.mp htree [] key hkeeps
    rw [hlong] at hshort
    cases hshort
  exact ⟨model, rfl, rfl, htree, exported_of_not_isTree htree⟩

end Model

end HomeAutomaton

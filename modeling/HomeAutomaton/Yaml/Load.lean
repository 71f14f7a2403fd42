import HomeAutomaton.Yaml.Token.Scan
import HomeAutomaton.Yaml.Value

/-!
# Reading YAML

`Model.ofYaml` gives the value of a text that is one YAML document, through its tokens, its tree and
its nodes. The whole text has to be well formed before any scalar in it gets a value.
-/

namespace HomeAutomaton

/-- The value of a YAML text that is one document. A text without a document has the value null. -/
def Model.ofYaml (text : String) : Except Yaml.LoadError Model :=
  let (tokens, failure) := Yaml.Token.ofText text
  match Yaml.Tree.ofTokens tokens failure with
  | .error e => .error e
  | .ok none => .ok ⟨{}, .null⟩
  | .ok (some tree) =>
    match Yaml.Nodes.ofTree tree with
    | .error e => .error e
    | .ok (root, nodes) => Yaml.modelOfNodes root nodes

end HomeAutomaton

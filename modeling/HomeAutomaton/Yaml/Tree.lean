import HomeAutomaton.Yaml.Error
import HomeAutomaton.Yaml.Token.Basic

/-!
# The tree of a YAML document

How tokens nest: scalars, sequences and mappings with their anchors and tags, and aliases where an
anchored node is meant again. Which way a collection is written, in a block or between brackets, is
forgotten here. An alias must come after the start of the node with its anchor, and no two nodes may have
the same anchor.

Each function of the grammar takes the tokens that are left and gives a tree and the rest. A failure is
the list of tokens at which reading got stuck, the first being the last token that was looked at; so it
is empty if a token was wanted and there was none. The first argument of each bounds the number of
steps; a token takes at most four.

* `Tree.ofTokens` gives the tree of the only document of a text, if there is one.
-/

namespace HomeAutomaton.Yaml

/-- What may stand before a node. -/
structure Properties where
  anchor : Option String := none
  /-- The tag with its handle resolved; `!` alone is a tag of its own. -/
  tag : Option String := none
  deriving DecidableEq, Repr

/-- A node of a document, as it is written. -/
inductive Tree where
  | alias (name : String)
  | scalar (properties : Properties) (plain : Bool) (text : String)
  | sequence (properties : Properties) (items : List Tree)
  | mapping (properties : Properties) (entries : List (Tree × Tree))
  deriving Repr, Inhabited

namespace Tree

/-- The node that is left out. -/
def missing : Tree := .scalar {} true ""

/-- What was read and the tokens that are left, or the tokens at which reading got stuck. -/
abbrev Parse (α : Type) := Except (List Token) (α × List Token)

/-- What the tag handles of a document stand for. -/
abbrev Handles := List (String × String)

/-- The handles that every document has. -/
def standardHandles : Handles := [("!", "!"), ("!!", "tag:yaml.org,2002:")]

/-- The tag that a token stands for, if its handle is known. -/
def resolveTag? (handles : Handles) : Option String → String → Option String
  | none, rest => some rest
  | some handle, rest => (handles.lookup handle).map (· ++ rest)

/-- What the nodes of a document are read with. -/
structure Setting where
  handles : Handles
  /-- All tokens of the text. -/
  tokens : List Token

/-- The anchor that a token gives. -/
def anchorOf? : Token → Option String
  | .anchor name => some name
  | _ => none

/-- The anchors given before the tokens that are left. -/
def Setting.anchorsBefore (setting : Setting) (left : List Token) : List String :=
  (setting.tokens.take (setting.tokens.length - left.length)).filterMap anchorOf?

/-- The properties at the start of the tokens: an anchor and a tag, in either order. Behind a tag an
anchor is looked for before the handle of the tag is resolved. -/
def properties (handles : Handles) : List Token → Parse Properties
  | .anchor name :: .tag handle suffix :: rest =>
    match resolveTag? handles handle suffix with
    | some tag => .ok (⟨some name, some tag⟩, rest)
    | none => .error (.tag handle suffix :: rest)
  | .anchor name :: rest => .ok (⟨some name, none⟩, rest)
  | .tag handle suffix :: rest =>
    match resolveTag? handles handle suffix, rest with
    | none, rest => .error rest
    | some tag, .anchor name :: rest => .ok (⟨some name, some tag⟩, rest)
    | some tag, rest => .ok (⟨none, some tag⟩, rest)
  | tokens => .ok ({}, tokens)

/-- Is one of the tokens next? -/
def isNext (tokens : List Token) (among : List Token) : Bool :=
  match tokens with
  | t :: _ => among.contains t
  | [] => false

mutual

/-- A node. In a block it may be a block collection; as the value of a block mapping also a sequence
that is not indented further than the mapping. -/
def node (setting : Setting) (block indentless : Bool) : Nat → List Token → Parse Tree
  | 0, tokens => .error tokens
  | _, .alias name :: rest =>
    if (setting.anchorsBefore (.alias name :: rest)).contains name then .ok (.alias name, rest)
    else .error (.alias name :: rest)
  | steps + 1, start =>
    match properties setting.handles start with
    | .error stuck => .error stuck
    | .ok (properties, tokens) =>
      if tokens.isEmpty || properties.anchor.any (setting.anchorsBefore start).contains then
        .error tokens
      else
        let withItems (read : Parse (List Tree)) : Parse Tree :=
          read.map fun (items, rest) => (.sequence properties items, rest)
        let withEntries (read : Parse (List (Tree × Tree))) : Parse Tree :=
          read.map fun (entries, rest) => (.mapping properties entries, rest)
        match tokens with
        | .scalar plain text :: rest => .ok (.scalar properties plain text, rest)
        | .flowSequenceStart :: rest => withItems (flowItems setting steps true [] rest)
        | .flowMappingStart :: rest => withEntries (flowEntries setting steps true [] rest)
        | tokens =>
          if indentless && isNext tokens [.blockEntry] then
            withItems (indentlessItems setting steps [] tokens)
          else if block && isNext tokens [.blockSequenceStart] then
            withItems (blockItems setting steps [] (tokens.drop 1))
          else if block && isNext tokens [.blockMappingStart] then
            withEntries (blockEntries setting steps [] (tokens.drop 1))
          else if properties.anchor.isSome || properties.tag.isSome then
            .ok (.scalar properties true "", tokens)
          else .error tokens

/-- The rest of a block sequence; `read` holds the items before it, backwards. -/
def blockItems (setting : Setting) : Nat → List Tree → List Token → Parse (List Tree)
  | 0, _, tokens => .error tokens
  | steps + 1, read, .blockEntry :: rest =>
    if isNext rest [.blockEntry, .blockEnd] then blockItems setting steps (missing :: read) rest
    else
      match node setting true false steps rest with
      | .error stuck => .error stuck
      | .ok (item, rest) => blockItems setting steps (item :: read) rest
  | _, read, .blockEnd :: rest => .ok (read.reverse, rest)
  | _, _, tokens => .error tokens

/-- The rest of a block sequence that is not indented further than the mapping around it. -/
def indentlessItems (setting : Setting) : Nat → List Tree → List Token → Parse (List Tree)
  | 0, _, tokens => .error tokens
  | steps + 1, read, .blockEntry :: rest =>
    if isNext rest [.blockEntry, .key, .value, .blockEnd] then
      indentlessItems setting steps (missing :: read) rest
    else
      match node setting true false steps rest with
      | .error stuck => .error stuck
      | .ok (item, rest) => indentlessItems setting steps (item :: read) rest
  | _, read, tokens => .ok (read.reverse, tokens)

/-- A key or value of a block mapping, which may be left out. -/
def blockPart (setting : Setting) : Nat → List Token → Parse Tree
  | 0, tokens => .error tokens
  | steps + 1, tokens =>
    if isNext tokens [.key, .value, .blockEnd] then .ok (missing, tokens)
    else node setting true true steps tokens

/-- The rest of a block mapping; `read` holds the entries before it, backwards. -/
def blockEntries (setting : Setting) :
    Nat → List (Tree × Tree) → List Token → Parse (List (Tree × Tree))
  | 0, _, tokens => .error tokens
  | steps + 1, read, .key :: rest =>
    match blockPart setting steps rest with
    | .error stuck => .error stuck
    | .ok (key, .value :: rest) =>
      match blockPart setting steps rest with
      | .error stuck => .error stuck
      | .ok (value, rest) => blockEntries setting steps ((key, value) :: read) rest
    | .ok (key, rest) => blockEntries setting steps ((key, missing) :: read) rest
  | _, read, .blockEnd :: rest => .ok (read.reverse, rest)
  | _, _, tokens => .error tokens

/-- A key or value between brackets, which may be left out before one of the tokens. -/
def flowPart (setting : Setting) (ends : List Token) : Nat → List Token → Parse Tree
  | 0, tokens => .error tokens
  | steps + 1, tokens =>
    if isNext tokens ends then .ok (missing, tokens) else node setting false false steps tokens

/-- An entry between brackets, behind the token that starts its key. -/
def flowEntry (setting : Setting) (closing : Token) : Nat → List Token → Parse (Tree × Tree)
  | 0, tokens => .error tokens
  | steps + 1, tokens =>
    match flowPart setting [.value, .flowEntry, closing] steps tokens with
    | .error stuck => .error stuck
    | .ok (key, .value :: rest) =>
      match flowPart setting [.flowEntry, closing] steps rest with
      | .error stuck => .error stuck
      | .ok (value, rest) => .ok ((key, value), rest)
    | .ok (key, rest) => .ok ((key, missing), rest)

/-- The rest of a sequence between brackets; `first` when nothing was read of it. An entry stands for
a mapping that holds only this entry. -/
def flowItems (setting : Setting) : Nat → Bool → List Tree → List Token → Parse (List Tree)
  | 0, _, _, tokens => .error tokens
  | _, _, read, .flowSequenceEnd :: rest => .ok (read.reverse, rest)
  | steps + 1, false, read, tokens =>
    match tokens with
    | .flowEntry :: rest => flowItems setting steps true read rest
    | tokens => .error tokens
  | steps + 1, true, read, .key :: rest =>
    match flowEntry setting .flowSequenceEnd steps rest with
    | .error stuck => .error stuck
    | .ok (entry, rest) => flowItems setting steps false (.mapping {} [entry] :: read) rest
  | steps + 1, true, read, tokens =>
    match node setting false false steps tokens with
    | .error stuck => .error stuck
    | .ok (item, rest) => flowItems setting steps false (item :: read) rest

/-- The rest of a mapping between brackets; `first` when nothing was read of it. A node without a key
in front is a key without a value. -/
def flowEntries (setting : Setting) :
    Nat → Bool → List (Tree × Tree) → List Token → Parse (List (Tree × Tree))
  | 0, _, _, tokens => .error tokens
  | _, _, read, .flowMappingEnd :: rest => .ok (read.reverse, rest)
  | steps + 1, false, read, tokens =>
    match tokens with
    | .flowEntry :: rest => flowEntries setting steps true read rest
    | tokens => .error tokens
  | steps + 1, true, read, .key :: rest =>
    match flowEntry setting .flowMappingEnd steps rest with
    | .error stuck => .error stuck
    | .ok (entry, rest) => flowEntries setting steps false (entry :: read) rest
  | steps + 1, true, read, tokens =>
    match node setting false false steps tokens with
    | .error stuck => .error stuck
    | .ok (key, rest) => flowEntries setting steps false ((key, missing) :: read) rest

end

/-! ### Documents -/

/-- The directives at the start of the tokens: the handles they declare, after those declared before,
and whether a version was named. -/
def directives : Bool → Handles → List Token → Parse Handles
  | versioned, handles, .versionDirective major :: rest =>
    if versioned || major ≠ 1 then .error (.versionDirective major :: rest)
    else directives true handles rest
  | versioned, handles, .tagDirective handle start :: rest =>
    if (handles.lookup handle).isSome then .error (.tagDirective handle start :: rest)
    else directives versioned (handles ++ [(handle, start)]) rest
  | versioned, handles, .otherDirective :: rest => directives versioned handles rest
  | _, handles, tokens => .ok (handles ++ standardHandles, tokens)

/-- The number of steps that suffices for the tokens. -/
def enoughSteps (tokens : List Token) : Nat := 4 * tokens.length + 4

/-- Is the token a directive? -/
def isDirective : Token → Bool
  | .versionDirective _ | .tagDirective .. | .otherDirective => true
  | _ => false

/-- The root of the first document and the tokens behind it; without a document there is no root. -/
def firstDocument (tokens : List Token) : Parse (Option Tree) :=
  match tokens with
  | .streamEnd :: _ => .ok (none, tokens)
  | tokens =>
    let body (handles : Handles) (left : List Token) : Parse (Option Tree) :=
      (node ⟨handles, tokens⟩ true false (enoughSteps left) left).map fun (root, rest) =>
        (some root, rest)
    if isNext tokens [.documentStart] || tokens.head?.any isDirective then
      match directives false [] tokens with
      | .error stuck => .error stuck
      | .ok (handles, .documentStart :: rest) =>
        if isNext rest [.documentStart, .documentEnd, .streamEnd] || rest.head?.any isDirective then
          .ok (some missing, rest)
        else body handles rest
      | .ok (_, tokens) => .error tokens
    else body standardHandles tokens

/-- The tokens must be the end of the text, behind any number of markers that end a document. Anything
else is looked at as the start of another document. -/
def endOfStream : List Token → Parse Unit
  | .documentEnd :: rest => endOfStream rest
  | .streamEnd :: rest => .ok ((), rest)
  | tokens =>
    match directives false [] tokens with
    | .error stuck => .error stuck
    | .ok (_, rest) => .error rest

/-- The root of the only document of a text, given its tokens and the failure that ended them early.
Without a document there is no root. -/
def ofTokens (tokens : List Token) (failure : Option LoadError) :
    Except LoadError (Option Tree) :=
  let refuse (stuck : List Token) : Except LoadError (Option Tree) :=
    .error (if stuck.isEmpty then failure.getD .malformed else .malformed)
  match firstDocument tokens with
  | .error stuck => refuse stuck
  | .ok (root, rest) =>
    match endOfStream rest with
    | .error stuck => refuse stuck
    | .ok _ => .ok root

end Tree

end HomeAutomaton.Yaml

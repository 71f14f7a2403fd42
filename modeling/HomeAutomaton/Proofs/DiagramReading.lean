import HomeAutomaton.Data.Lists
import HomeAutomaton.Diagram.Reader
import HomeAutomaton.Proofs.Drawing

/-!
# A diagram can be read back

Texts from a model stand between quotes in a diagram, with a backslash in front of every quote and every
backslash. A reader that comes to such a text from outside of quotes is outside of quotes again behind it,
and has read that text and nothing else, whatever it is made of. All other characters of a diagram are
known, or are those of a word. So the tokens of a diagram are known as well, and with them its statements.

* `Diagram.Scans` says that characters are the given tokens, wherever they stand; its pieces are put
  together with `Scans.append`.
* `Diagram.statements?_text` says which statements a diagram is made of.
* `Diagram.read?_text` is the result.
-/

namespace HomeAutomaton.Diagram

/-! ### Scanning -/

/-- Characters are scanned in two parts, the second from where the first ends. -/
theorem scan_append (mode : Mode) (cs ds : List Char) :
    scan mode (cs ++ ds) = (scan mode cs).bind fun first =>
      (scan first.2 ds).map fun second => (first.1 ++ second.1, second.2) := by
  -- along the first part; what has been started in it goes on in the second
  induction cs generalizing mode with
  | nil => simp [scan]
  | cons c cs ih =>
    rw [List.cons_append, scan, scan]
    cases step mode c with
    | none => rfl
    | some next =>
      obtain ⟨tokens, next⟩ := next
      dsimp only
      rw [ih]
      cases scan next cs with
      | none => rfl
      | some first => cases hds : scan first.2 ds <;> simp [hds]

/-- The characters are these tokens. Before them and behind them nothing is started. -/
def Scans (cs : List Char) (tokens : List Token) : Prop := scan .between cs = some (tokens, .between)

instance (cs : List Char) (tokens : List Token) : Decidable (Scans cs tokens) :=
  inferInstanceAs (Decidable (_ = _))

theorem Scans.nil : Scans [] [] := rfl

/-- Pieces of a text are scanned one after the other. -/
theorem Scans.append {cs ds : List Char} {ts us : List Token} (h : Scans cs ts) (h' : Scans ds us) :
    Scans (cs ++ ds) (ts ++ us) := by
  unfold Scans at h h' ⊢
  rw [scan_append, h, Option.bind_some, h', Option.map_some]

theorem Scans.flatMap {α : Type} {chars : α → List Char} {tokens : α → List Token} {items : List α}
    (h : ∀ a ∈ items, Scans (chars a) (tokens a)) : Scans (items.flatMap chars) (items.flatMap tokens) := by
  induction items with
  | nil => exact .nil
  | cons a items ih =>
    rw [List.flatMap_cons, List.flatMap_cons]
    exact (h a List.mem_cons_self).append (ih fun b hb => h b (List.mem_cons_of_mem a hb))

/-- Characters are read as their tokens. -/
theorem Scans.tokens? {cs : List Char} {ts : List Token} (h : Scans cs ts) : tokens? cs = some ts := by
  unfold Diagram.tokens?
  rw [show scan .between cs = some (ts, .between) from h]
  simp [finish?]

/-- A text between quotes is read to its end. What is carried along is what was read of it before. -/
theorem scan_quoted (read cs : List Char) :
    scan (.quoted read) ((cs.flatMap fun c => if c = '\\' ∨ c = '"' then ['\\', c] else [c]) ++ ['"']) =
      some ([.quoted (read.reverse ++ cs)], .between) := by
  -- along the text; each character is read behind those before it
  induction cs generalizing read with
  | nil => simp [scan, step]
  | cons c cs ih =>
    rw [List.flatMap_cons, List.append_assoc]
    split
    next hescaped =>
      -- the backslash is taken for what it says about the next character, and that one is taken as it is
      have hrest := ih (c :: read)
      rw [List.cons_append, List.singleton_append, scan, step, if_neg (by decide), if_pos rfl]
      dsimp only
      rw [scan, step]
      dsimp only
      rw [hrest]
      simp
    next hplain =>
      rw [not_or] at hplain
      have hrest := ih (c :: read)
      rw [List.singleton_append, scan, step, if_neg hplain.2, if_neg hplain.1]
      dsimp only
      rw [hrest]
      simp

/-- **A quoted text is one token**, whatever it holds. -/
theorem scans_dotString (s : String) : Scans (dotString s).toList [.quoted s.toList] := by
  have hbody := scan_quoted [] s.toList
  rw [dotString, String.toList_ofList, Scans, List.cons_append, scan]
  change (scan (.quoted []) _).map _ = _
  rw [hbody]
  rfl

/-- The text is a word of the language. -/
def IsWord (s : String) : Prop := s ≠ "" ∧ ∀ c ∈ s.toList, isWordChar c = true

/-- Characters of a word are read into it. -/
theorem scan_word {cs : List Char} (h : ∀ c ∈ cs, isWordChar c = true) (read : List Char) :
    scan (.word read) cs = some ([], .word (cs.reverse ++ read)) := by
  induction cs generalizing read with
  | nil => rfl
  | cons c cs ih =>
    rw [List.forall_mem_cons] at h
    rw [scan, step, if_pos h.1]
    dsimp only
    rw [ih h.2]
    simp

/-- A character of words is no blank and no mark. -/
theorem begin?_of_isWordChar {c : Char} (h : isWordChar c = true) : begin? c = some ([], .word [c]) := by
  have hspace : isSpace c = false := by
    by_contra hspace
    simp only [Bool.not_eq_false, isSpace, Bool.or_eq_true, beq_iff_eq] at hspace
    rcases hspace with ((rfl | rfl) | rfl) | rfl <;> simp [isWordChar] at h
  have hmark : isMark c = false := by
    by_contra hmark
    simp only [Bool.not_eq_false, isMark, List.contains_iff_mem, List.mem_cons, List.not_mem_nil,
      or_false] at hmark
    rcases hmark with rfl | rfl | rfl | rfl | rfl | rfl | rfl <;> simp [isWordChar] at h
  simp [begin?, hspace, hmark, h]

/-- A word with a blank behind it is one token. -/
theorem IsWord.scans {s : String} (h : IsWord s) : Scans (s.toList ++ [' ']) [.word s.toList] := by
  obtain ⟨hne, hchars⟩ := h
  cases hs : s.toList with
  | nil => exact absurd (String.toList_eq_nil_iff.mp hs) hne
  | cons c cs =>
    rw [hs, List.forall_mem_cons] at hchars
    -- the first character starts the word, and the blank ends it
    rw [Scans, List.cons_append, scan, step, begin?_of_isWordChar hchars.1]
    dsimp only
    rw [scan_append, scan_word hchars.2]
    simp [scan, step, isWordChar, begin?, isSpace]

/-! ### Attributes -/

/-- The tokens of attributes, with commas between them. -/
def attributeTokens (parts : List (List Token)) : List Token := [Token.mark ','].intercalate parts

/-- The tokens of an attribute with a text between quotes. -/
def quotedAttribute (name value : String) : List Token :=
  [.word name.toList, .mark '=', .quoted value.toList]

/-- The tokens of an attribute with a word. -/
def wordAttribute (name value : String) : List Token :=
  [.word name.toList, .mark '=', .word value.toList]

/-- The tokens of the attributes that make up a style. -/
def styleParts (kind : NodeKind) : List (List Token) :=
  (((vertexStyle? kind).bind fun style => tokens? style.toList).getD []).splitOn (.mark ',')

/-- An attribute is read back with its text. -/
theorem attribute?_quotedAttribute (name value : String) :
    attribute? (quotedAttribute name value) = some (name, value) := by
  simp [quotedAttribute, attribute?, Token.text?]

theorem attribute?_wordAttribute (name value : String) :
    attribute? (wordAttribute name value) = some (name, value) := by
  simp [wordAttribute, attribute?, Token.text?]

/-- The only mark in an attribute is the sign between name and text. -/
theorem mark_not_mem_quotedAttribute {c : Char} (hne : c ≠ '=') (name value : String) :
    Token.mark c ∉ quotedAttribute name value := by
  simp [quotedAttribute, hne]

/-- Attributes are read one by one, if there is no comma in any of them. -/
theorem attributes?_attributeTokens {parts : List (List Token)} (hne : parts ≠ [])
    (h : ∀ part ∈ parts, Token.mark ',' ∉ part) :
    attributes? (attributeTokens parts) = parts.mapM attribute? := by
  rw [attributes?, attributeTokens, List.splitOn_intercalate _ h hne]

/-- A bracket closes what stands before it. -/
theorem closedBy?_concat (c : Char) (tokens : List Token) :
    closedBy? c (tokens ++ [.mark c]) = some tokens := by
  simp [closedBy?]

/-- Attributes have commas between them, and no other marks than their own. -/
theorem mark_not_mem_attributeTokens {c : Char} {parts : List (List Token)} (hne : c ≠ ',')
    (h : ∀ part ∈ parts, Token.mark c ∉ part) : Token.mark c ∉ attributeTokens parts := by
  induction parts with
  | nil => simp [attributeTokens]
  | cons part parts ih =>
    rw [List.forall_mem_cons] at h
    have hrest := ih h.2
    cases parts with
    | nil => simpa [attributeTokens] using h.1
    | cons next parts =>
      rw [attributeTokens, List.intercalate_cons_cons, ← attributeTokens]
      simp [hne, h.1, hrest]

/-- The styles are written without a semicolon, and commas separate their attributes. -/
theorem mark_not_mem_styleParts (kind : NodeKind) :
    ∀ part ∈ styleParts kind, Token.mark ',' ∉ part ∧ Token.mark ';' ∉ part := by
  cases kind <;> decide

/-- A style is read as its attributes, which tell its kind. -/
theorem exists_styleAttributes {kind : NodeKind} (h : kind ≠ .stateMachine) :
    ∃ style, styleAttributes? kind = some style ∧ (styleParts kind).mapM attribute? = some style ∧
      kindOfStyle? style = some kind := by
  cases kind with
  | stateMachine => exact absurd rfl h
  | state => exact ⟨_, rfl, rfl, by decide⟩
  | endState => exact ⟨_, rfl, rfl, by decide⟩
  | choice => exact ⟨_, rfl, rfl, by decide⟩
  | initial => exact ⟨_, rfl, rfl, by decide⟩

/-- The tokens of a style, up to the end of its statement. -/
theorem scans_style {kind : NodeKind} (h : kind ≠ .stateMachine) :
    Scans (((vertexStyle? kind).getD "").toList ++ "];".toList)
      (attributeTokens (styleParts kind) ++ [.mark ']', .mark ';']) := by
  cases kind with
  | stateMachine => exact absurd rfl h
  | state => decide +kernel
  | endState => decide +kernel
  | choice => decide +kernel
  | initial => decide +kernel

/-! ### Lines -/

/-- The attributes of a vertex. -/
def vertexParts (v : Vertex) : List (List Token) :=
  quotedAttribute "label" v.label :: quotedAttribute "tooltip" v.tooltip :: styleParts v.kind

/-- The tokens of the statement of a vertex. -/
def vertexTokens (v : Vertex) : List Token :=
  .word v.id.toList :: .mark '[' :: (attributeTokens (vertexParts v) ++ [.mark ']'])

/-- The attributes of an edge. -/
def edgeParts (e : Edge) : List (List Token) :=
  quotedAttribute "label" e.label :: wordAttribute "fontsize" "10" ::
    (if e.dashed then [wordAttribute "style" "dashed"] else [])

/-- The tokens of the statement of an edge. -/
def edgeTokens (e : Edge) : List Token :=
  .word e.source.toList :: .arrow :: .word e.destination.toList :: .mark '[' ::
    (attributeTokens (edgeParts e) ++ [.mark ']'])

/-- The statements about fonts: that of the graph, and those of vertices and edges. -/
def fontTokens : List (List Token) :=
  let font := quotedAttribute "fontname" "Arial"
  [font, .word "node".toList :: .mark '[' :: (font ++ [.mark ']']),
    .word "edge".toList :: .mark '[' :: (font ++ [.mark ']'])]

/-- The vertex has a name that is a word, and is of a kind that is drawn. -/
structure ProperVertex (v : Vertex) : Prop where
  id : IsWord v.id
  kind : v.kind ≠ .stateMachine

/-- The ends of the edge have names that are words. -/
structure ProperEdge (e : Edge) : Prop where
  source : IsWord e.source
  destination : IsWord e.destination

/-- The tokens of a statement have a semicolon behind them. -/
def closed (tokens : List Token) : List Token := tokens ++ [.mark ';']

/-- **The line of a vertex** has the tokens of its statement. -/
theorem ProperVertex.scans {v : Vertex} (h : ProperVertex v) :
    Scans (v.text.toList ++ ['\n']) (closed (vertexTokens v)) := by
  -- the fixed pieces of the line are computed, the texts are quoted tokens
  have hindent : Scans "    ".toList [] := by decide +kernel
  have hlabel : Scans "[label=".toList [.mark '[', .word "label".toList, .mark '='] := by decide +kernel
  have htooltip : Scans ", tooltip=".toList [.mark ',', .word "tooltip".toList, .mark '='] := by decide +kernel
  have hcomma : Scans ", ".toList [.mark ','] := by decide +kernel
  have hnewline : Scans ['\n'] [] := by decide +kernel
  have hline := hindent.append <| h.id.scans.append <| hlabel.append <|
    (scans_dotString v.label).append <| htooltip.append <| (scans_dotString v.tooltip).append <|
    hcomma.append <| (scans_style h.kind).append hnewline
  have hstyle : styleParts v.kind ≠ [] := by cases v.kind <;> decide
  obtain ⟨first, rest, hparts⟩ := List.exists_cons_of_ne_nil hstyle
  convert hline using 1
  · simp [Vertex.text]
  · simp [closed, vertexTokens, vertexParts, attributeTokens, quotedAttribute, hparts]

/-- **The line of an edge** has the tokens of its statement. -/
theorem ProperEdge.scans {e : Edge} (h : ProperEdge e) :
    Scans (e.text.toList ++ ['\n']) (closed (edgeTokens e)) := by
  have hindent : Scans "    ".toList [] := by decide +kernel
  have harrow : Scans "-> ".toList [.arrow] := by decide +kernel
  have hlabel : Scans "[label=".toList [.mark '[', .word "label".toList, .mark '='] := by decide +kernel
  -- what follows the label, with a dashed line or without
  have hend : ∀ dashed : Bool, Scans
      (", fontsize=10".toList ++ ((if dashed then ", style=dashed" else "").toList ++ ("];".toList ++ ['\n'])))
      ([.mark ',', .word "fontsize".toList, .mark '=', .word "10".toList] ++
        ((if dashed then [.mark ',', .word "style".toList, .mark '=', .word "dashed".toList] else []) ++
          [.mark ']', .mark ';'])) := by decide +kernel
  have hline := hindent.append <| h.source.scans.append <| harrow.append <|
    h.destination.scans.append <| hlabel.append <| (scans_dotString e.label).append (hend e.dashed)
  convert hline using 1
  · simp [Edge.text]
  · cases hdashed : e.dashed <;>
      simp [closed, edgeTokens, edgeParts, attributeTokens, quotedAttribute, wordAttribute, hdashed]

/-- The lines about the title and about fonts. -/
theorem scans_head (title : String) :
    Scans ("    label=".toList ++ ((dotString title).toList ++
        "; fontname=\"Arial\"; node [fontname=\"Arial\"]; edge [fontname=\"Arial\"];\n".toList))
      ((quotedAttribute "label" title :: fontTokens).flatMap closed) := by
  have hlabel : Scans "    label=".toList [.word "label".toList, .mark '='] := by decide +kernel
  have hrest : Scans "; fontname=\"Arial\"; node [fontname=\"Arial\"]; edge [fontname=\"Arial\"];\n".toList
      (.mark ';' :: fontTokens.flatMap closed) := by decide +kernel
  exact hlabel.append ((scans_dotString title).append hrest)

/-! ### Whole diagrams -/

/-- All of its vertices and edges are proper ones. -/
structure Proper (d : Diagram) : Prop where
  vertices : ∀ v ∈ d.vertices, ProperVertex v
  edges : ∀ e ∈ d.edges, ProperEdge e

/-- The tokens of the statements of a diagram. -/
def parts (d : Diagram) : List (List Token) :=
  quotedAttribute "label" d.title :: fontTokens ++ d.vertices.map vertexTokens ++ d.edges.map edgeTokens

/-- The tokens of a diagram are those of its statements, each with a semicolon behind it. -/
theorem Proper.tokens?_text {d : Diagram} (h : d.Proper) :
    tokens? d.text.toList = some (.word "digraph".toList :: .word "StateMachine".toList :: .mark '\x7b' ::
      (d.parts.flatMap closed ++ [.mark '\x7d'])) := by
  have hopening : Scans "digraph StateMachine \x7b\n".toList
      [.word "digraph".toList, .word "StateMachine".toList, .mark '\x7b'] := by decide +kernel
  have hstates : Scans "    // --- States ---\n".toList [] := by decide +kernel
  have htransitions : Scans "    // --- Transitions ---\n".toList [] := by decide +kernel
  have hclosing : Scans "\x7d".toList [.mark '\x7d'] := by decide +kernel
  have hvertices := Scans.flatMap fun v hv => (h.vertices v hv).scans
  have hedges := Scans.flatMap fun e he => (h.edges e he).scans
  -- all lines one after the other
  have htext := hopening.append <| (scans_head d.title).append <| hstates.append <| hvertices.append <|
    htransitions.append <| hedges.append hclosing
  refine Eq.trans (congrArg _ ?_) (htext.tokens?.trans (congrArg _ ?_))
  · rw [text, String.toList_intercalate, lines, List.map_append, List.map_singleton, intercalate_concat]
    simp [List.flatMap_map]
  · simp [parts, List.flatMap_map]

/-! ### Statements -/

/-- The statement of a vertex. -/
def vertexStatement (v : Vertex) : Statement :=
  .vertex v.id
    (("label", v.label) :: ("tooltip", v.tooltip) :: (styleAttributes? v.kind).getD [])

/-- The statement of an edge. -/
def edgeStatement (e : Edge) : Statement :=
  .edge e.source e.destination
    (("label", e.label) :: ("fontsize", "10") :: (if e.dashed then [("style", "dashed")] else []))

/-- The statements of a diagram, those about fonts included. -/
def statements (d : Diagram) : List Statement :=
  .setting "label" d.title :: .setting "fontname" "Arial" :: .vertex "node" [("fontname", "Arial")] ::
    .vertex "edge" [("fontname", "Arial")] :: (d.vertices.map vertexStatement ++ d.edges.map edgeStatement)

/-- Neither a comma nor a semicolon is a token of an attribute of a vertex. -/
theorem mark_not_mem_vertexParts {c : Char} (hc : c = ',' ∨ c = ';') (v : Vertex) :
    ∀ part ∈ vertexParts v, Token.mark c ∉ part := by
  have hne : c ≠ '=' := by rcases hc with rfl | rfl <;> decide
  rw [vertexParts, List.forall_mem_cons, List.forall_mem_cons]
  refine ⟨mark_not_mem_quotedAttribute hne _ _, mark_not_mem_quotedAttribute hne _ _, ?_⟩
  intro part hpart
  rcases hc with rfl | rfl
  · exact (mark_not_mem_styleParts v.kind part hpart).1
  · exact (mark_not_mem_styleParts v.kind part hpart).2

theorem mark_not_mem_edgeParts {c : Char} (hc : c = ',' ∨ c = ';') (e : Edge) :
    ∀ part ∈ edgeParts e, Token.mark c ∉ part := by
  have hne : c ≠ '=' := by rcases hc with rfl | rfl <;> decide
  rw [edgeParts, List.forall_mem_cons]
  refine ⟨mark_not_mem_quotedAttribute hne _ _, ?_⟩
  cases e.dashed <;> simp [wordAttribute, hne]

/-- The tokens of a vertex are read as its statement. -/
theorem ProperVertex.statement? {v : Vertex} (h : ProperVertex v) :
    statement? (vertexTokens v) = some (vertexStatement v) := by
  obtain ⟨style, hstyle, hread, -⟩ := exists_styleAttributes h.kind
  have hparts : (vertexParts v).mapM attribute? =
      some (("label", v.label) :: ("tooltip", v.tooltip) :: style) := by
    simp [vertexParts, List.mapM_cons, attribute?_quotedAttribute, hread]
  have hattributes := attributes?_attributeTokens (by simp [vertexParts])
    (mark_not_mem_vertexParts (.inl rfl) v)
  rw [vertexTokens, Diagram.statement?, closedBy?_concat]
  simp [hattributes, hparts, vertexStatement, hstyle]

/-- Those of an edge are as well. -/
theorem statement?_edgeTokens (e : Edge) : statement? (edgeTokens e) = some (edgeStatement e) := by
  have hparts : (edgeParts e).mapM attribute? = some (("label", e.label) :: ("fontsize", "10") ::
      (if e.dashed then [("style", "dashed")] else [])) := by
    cases hdashed : e.dashed <;>
      simp [edgeParts, List.mapM_cons, attribute?_quotedAttribute, attribute?_wordAttribute, hdashed]
  have hattributes := attributes?_attributeTokens (by simp [edgeParts])
    (mark_not_mem_edgeParts (.inl rfl) e)
  rw [edgeTokens, Diagram.statement?, closedBy?_concat]
  simp [hattributes, hparts, edgeStatement]

/-- No statement has a semicolon in it. -/
theorem mark_not_mem_parts (d : Diagram) : ∀ part ∈ d.parts, Token.mark ';' ∉ part := by
  have hfonts : ∀ part ∈ fontTokens, Token.mark ';' ∉ part := by decide +kernel
  rw [parts, List.cons_append, List.cons_append, List.forall_mem_cons, List.forall_mem_append,
    List.forall_mem_append, List.forall_mem_map, List.forall_mem_map]
  refine ⟨mark_not_mem_quotedAttribute (by decide) _ _, ⟨hfonts, fun v _ => ?_⟩, fun e _ => ?_⟩
  · have hparts := mark_not_mem_attributeTokens (by decide) (mark_not_mem_vertexParts (.inr rfl) v)
    simp [vertexTokens, hparts]
  · have hparts := mark_not_mem_attributeTokens (by decide) (mark_not_mem_edgeParts (.inr rfl) e)
    simp [edgeTokens, hparts]

/-- The statements of a diagram are read one by one. -/
theorem Proper.statements?_parts {d : Diagram} (h : d.Proper) :
    d.parts.mapM statement? = some d.statements := by
  have hfonts : fontTokens.mapM statement? = some [.setting "fontname" "Arial",
      .vertex "node" [("fontname", "Arial")], .vertex "edge" [("fontname", "Arial")]] := by decide +kernel
  have htitle : statement? (quotedAttribute "label" d.title) = some (.setting "label" d.title) := by
    simp [quotedAttribute, statement?, attribute?, Token.text?]
  have hvertices := mapM_map_eq_some fun v hv => (h.vertices v hv).statement?
  have hedges := mapM_map_eq_some fun e (_ : e ∈ d.edges) => statement?_edgeTokens e
  rw [parts, List.cons_append, List.cons_append, List.mapM_cons, htitle, List.mapM_append,
    List.mapM_append, hfonts, hvertices, hedges]
  rfl

/-- **The statements of a diagram** are those about the graph and about fonts, a statement for each vertex
and one for each edge: no text that stands in it makes another one. -/
theorem Proper.statements?_text {d : Diagram} (h : d.Proper) :
    (tokens? d.text.toList).bind statements? = some d.statements := by
  have hsplit := splitOn_flatMap d.mark_not_mem_parts
  rw [h.tokens?_text, Option.bind_some, Diagram.statements?, closedBy?_concat]
  change (if _ then _ else _) = _
  rw [show d.parts.flatMap closed = d.parts.flatMap fun part => part ++ [.mark ';'] from rfl, hsplit,
    if_pos ⟨rfl, List.getLast?_concat⟩, List.dropLast_concat]
  exact h.statements?_parts

/-- The statement of a vertex describes it. -/
theorem ProperVertex.vertex? {v : Vertex} (h : ProperVertex v) :
    vertex? (vertexStatement v) = some v := by
  obtain ⟨style, hstyle, -, hkind⟩ := exists_styleAttributes h.kind
  rw [vertexStatement, hstyle]
  simp [Diagram.vertex?, hkind]

/-- That of an edge describes the edge. -/
theorem edge?_edgeStatement (e : Edge) : edge? (edgeStatement e) = some e := by
  obtain ⟨source, destination, label, dashed⟩ := e
  cases dashed <;> rfl

/-- Statements that a diagram is made of describe it. -/
theorem Proper.ofStatements? {d : Diagram} (h : d.Proper) : ofStatements? d.statements = some d := by
  have hvertex : ∀ s ∈ d.vertices.map vertexStatement, (!s.isEdge) = true :=
    List.forall_mem_map.mpr fun _ _ => rfl
  have hedge : ∀ s ∈ d.edges.map edgeStatement, (!s.isEdge) = false :=
    List.forall_mem_map.mpr fun _ _ => rfl
  -- the first edge ends the vertices
  obtain ⟨htake, hdrop⟩ := span_append hvertex hedge
  have hvertices := mapM_map_eq_some fun v hv => (h.vertices v hv).vertex?
  have hedges := mapM_map_eq_some fun e (_ : e ∈ d.edges) => edge?_edgeStatement e
  rw [List.map_id'] at hvertices hedges
  rw [statements, Diagram.ofStatements?, htake, hdrop, hvertices, hedges]
  rfl

/-! ### The diagram of a machine -/

/-- The name of a vertex is a word, whatever the path. -/
theorem isWord_vertexName (path : String) : IsWord (vertexName path) := by
  rw [vertexName, IsWord]
  dsimp only
  refine ⟨?_, ?_⟩
  · intro hempty
    have hlist := congrArg String.toList hempty
    simp at hlist
  · rw [String.toList_ofList, List.forall_mem_cons, List.forall_mem_map]
    refine ⟨by decide, fun c _ => ?_⟩
    -- what is no letter and no digit has become an underscore
    split
    next hplain =>
      simp only [Bool.or_eq_true, decide_eq_true_eq] at hplain
      simp only [isWordChar, Bool.or_eq_true]
      exact .inl (hplain.imp_right beq_iff_eq.mpr)
    next => decide +kernel

/-- So is the name of every node that has one. -/
theorem isWord_of_vertexId {path : Data} {id : String} (h : vertexId path = .ok id) : IsWord id := by
  unfold vertexId at h
  split at h
  next s =>
    obtain rfl := Except.ok.inj h
    exact isWord_vertexName s
  next =>
    split at h
    next => cases h
    next =>
      obtain rfl := Except.ok.inj h
      exact isWord_vertexName ""

/-- What is drawn of a machine can be written and read. -/
theorem Draws.proper {m : Machine} {identifiers : Table String} {d : Diagram}
    (h : d.Draws m identifiers) : d.Proper := by
  refine ⟨fun v hv => ?_, fun e he => ?_⟩
  · obtain ⟨n, hn, hvertex⟩ := exists_of_mem_right h.vertices hv
    have hkind : n.kind ≠ .stateMachine := by simpa using List.of_mem_filter hn
    exact ⟨isWord_of_vertexId hvertex.id, hvertex.kind ▸ hkind⟩
  · obtain ⟨t, -, hedge⟩ := exists_of_mem_right h.edges he
    exact ⟨isWord_of_vertexId hedge.source, isWord_of_vertexId hedge.destination⟩

/-- **A diagram can be read back.** A machine whose paths and events are texts has a diagram. Whatever stands
in its names, its paths, the texts of its transitions and the identifiers of its states, the text of the
diagram consists of the statements of its vertices and edges behind those about the graph and about fonts,
and the diagram is read from it again: the name of the machine, the drawn nodes and the drawn transitions,
each in their order. -/
theorem read?_text (m : Machine) (identifiers : Table String) :
    (m.WellFormed → ∃ d, ofMachine m identifiers = .ok d) ∧
    ∀ d, ofMachine m identifiers = .ok d →
      d.Draws m identifiers ∧ (tokens? d.text.toList).bind statements? = some d.statements ∧
        read? d.text = some d := by
  refine ⟨fun h => ofMachine_returns_iff.mpr h.drawable, fun d hd => ?_⟩
  have hdraws := ofMachine_draws hd
  have hproper := hdraws.proper
  have hstatements := hproper.statements?_text
  refine ⟨hdraws, hstatements, ?_⟩
  have hdiagram := hproper.ofStatements?
  rw [read?]
  change (tokens? d.text.toList).bind (fun ts => (Diagram.statements? ts).bind Diagram.ofStatements?) = _
  rw [← Option.bind_assoc, hstatements, Option.bind_some, hdiagram]

/-- A hall whose names, paths and guards are full of quotes, backslashes, brackets and comment marks. -/
def hallMachine : Machine where
  nodes := [{ kind := .stateMachine, path := .str "/hall", name := "Hall\\\"; x [label=\"" },
    { kind := .state, path := .str "/hall/\"dim\"];", name := "// dim \\" },
    { kind := .choice, path := .str "/hall/\n?" }]
  distinct := by simp [DistinctPaths]
  transitions := [{
    kind := .internal, src := .str "/hall/\"dim\"];", dst := .str "/hall/\n?", path := .str "/t"
    attributes := [(.str "Guard", .str "a == \"\\\"] -> x"), (.str "Action", .str "- \"ring\"\n- stop")]
    eventName := .str "\"press\"" }]

theorem hallMachine_wellFormed : hallMachine.WellFormed where
  paths := by simp [hallMachine]
  sources := by simp [hallMachine, Data.IsTextOrNull]
  destinations := by simp [hallMachine, Data.IsTextOrNull]
  eventNames := by simp [hallMachine, Data.IsTextOrNull]

/-- The diagram of the hall is read back, with its title. -/
theorem read?_text_hall : hallMachine.WellFormed ∧ ∃ d, ofMachine hallMachine [] = .ok d ∧
    d.title = "Hall\\\"; x [label=\"" ∧ read? d.text = some d := by
  obtain ⟨hreturns, hread⟩ := read?_text hallMachine []
  obtain ⟨d, hd⟩ := hreturns hallMachine_wellFormed
  obtain ⟨hdraws, -, hback⟩ := hread d hd
  exact ⟨hallMachine_wellFormed, d, hd, hdraws.title, hback⟩

end HomeAutomaton.Diagram

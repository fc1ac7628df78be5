import DecisionGraph.Graph.Document
import DecisionGraph.Proofs.Content.Reread

/-!
# Documents are read back

A graph is read again from the value that it is written as, whatever its nodes hold, if all of them have a
place (`Position.Finite`). It does not matter whether members are written in their usual order or in that of
their names. The same goes for what nodes hold, once it has been read (`documents_reread`).

What is read of a record is what stands under each name. A member that is left out is read as missing only if
nothing else stands under its name, so a value holds the members of a record (`Json.Holds`) if it has the same
under every name and not only under the names that were written.
-/

namespace DecisionGraph

/-! ## Members in any order -/

namespace Json

/-- The value is an object with the members, in whatever order. -/
def Holds (value : Json) (members : Keyed Json) : Prop :=
  ∃ others, value = .object others ∧ ∀ name, Keyed.get? name others = Keyed.get? name members

variable {value : Json} {members : Keyed Json}

theorem holds_self (members : Keyed Json) : (object members).Holds members := ⟨members, rfl, fun _ => rfl⟩

theorem Holds.part?_eq (h : value.Holds members) (name : String) (position : Nat) :
    Record.part? name position value = Keyed.get? name members := by
  obtain ⟨others, rfl, hget⟩ := h
  exact hget name

theorem Holds.items?_eq {α : Type} {items : List Json} {name : String} (h : value.Holds members)
    (hmember : Keyed.get? name members = some (.array items)) (position : Nat) (read : Json → Option α) :
    Record.items? name position read value = items.mapM read := by
  unfold Record.items?
  rw [h.part?_eq, hmember]

theorem sortedItems_eq_map (items : List Json) : sortedItems items = items.map sorted := by
  induction items with
  | nil => rfl
  | cons item rest ih => rw [sortedItems, List.map_cons, ih]

/-- Members whose values are in order keep them. -/
theorem sortedMembers_eq_self (h : ∀ entry ∈ members, entry.2.sorted = entry.2) :
    sortedMembers members = members := by
  induction members with
  | nil => rfl
  | cons entry rest ih =>
      obtain ⟨hentry, hrest⟩ := List.forall_mem_cons.mp h
      rw [sortedMembers, hentry, ih hrest]

/-- An object that is put in order holds its members still, if their values are in order. -/
theorem holds_sorted (hdistinct : (Keyed.names members).Nodup)
    (h : ∀ entry ∈ members, entry.2.sorted = entry.2) : (object members).sorted.Holds members := by
  refine ⟨Keyed.ofList members, ?_, Keyed.get?_ofList hdistinct⟩
  rw [sorted, sortedMembers_eq_self h]

end Json

/-! ## Places -/

/-- Both coordinates are finite. -/
def Position.Finite (position : Position) : Prop := position.x.isFinite = true ∧ position.y.isFinite = true

instance (position : Position) : Decidable position.Finite := inferInstanceAs (Decidable (_ ∧ _))

theorem Json.double?_ofDouble (value : Double) :
    (Json.ofDouble value).double? = if value.isFinite then some value else none := by
  unfold ofDouble
  split <;> rfl

/-- **A place is read again if it is finite**, and else there is none. -/
theorem Position.ofJson?_toJson (position : Position) :
    ofJson? position.toJson = if position.Finite then some position else none := by
  have hx : Record.part? "x" 0 position.toJson = some (.ofDouble position.x) := rfl
  have hy : Record.part? "y" 1 position.toJson = some (.ofDouble position.y) := rfl
  unfold ofJson? Finite
  rw [hx, hy, Option.bind_some, Option.bind_some, Json.double?_ofDouble, Json.double?_ofDouble]
  by_cases hfinite : position.x.isFinite <;> by_cases hfinite' : position.y.isFinite <;> simp [hfinite, hfinite']

theorem Json.sorted_ofDouble (value : Double) : (Json.ofDouble value).sorted = Json.ofDouble value := by
  unfold ofDouble
  split <;> rfl

theorem Position.sorted_toJson (position : Position) : position.toJson.sorted = position.toJson := by
  unfold toJson
  rw [Json.sorted, Json.sortedMembers_eq_self, Keyed.Ordered.ofList_eq]
  · exact List.pairwise_pair.mpr (show "x" < "y" by decide)
  · simp [Json.sorted_ofDouble]

/-! ## Nodes and edges -/

/-- **A node is read again if its place is finite**, whatever its content is. -/
theorem Node.ofJson?_of_holds {node : Node} {value : Json} (h : value.Holds node.toMembers) :
    ofJson? value = some node ↔ node.position.Finite := by
  -- all but the place is read in any case
  have hread : ofJson? value
      = (Position.ofJson? node.position.toJson).map fun position => { node with position } := by
    unfold ofJson? Record.text?
    simp only [h.part?_eq]
    exact Option.map_eq_bind.symm
  rw [hread, Position.ofJson?_toJson]
  split
  · rename_i hfinite
    exact ⟨fun _ => hfinite, fun _ => rfl⟩
  · rename_i hinfinite
    exact ⟨nofun, fun h => absurd h hinfinite⟩

/-- **An edge is read again**, with its handles or without them. -/
theorem Edge.ofJson?_of_holds {edge : Edge} {value : Json} (h : value.Holds edge.toMembers) :
    ofJson? value = some edge := by
  obtain ⟨id, source, target, sourceHandle, targetHandle⟩ := edge
  unfold ofJson? Record.text? Record.optionalText?
  simp only [h.part?_eq]
  -- a handle that is not set has no member, and nothing else stands under its name
  cases sourceHandle <;> cases targetHandle <;> rfl

theorem Node.sorted_holds {node : Node} (h : node.content.sorted = node.content) :
    node.toJson.sorted.Holds node.toMembers := by
  refine Json.holds_sorted ?_ ?_
  · simp [toMembers, Keyed.names]
  · simp [toMembers, Json.sorted, h, Position.sorted_toJson]

theorem Edge.sorted_holds (edge : Edge) : edge.toJson.sorted.Holds edge.toMembers := by
  obtain ⟨id, source, target, sourceHandle, targetHandle⟩ := edge
  refine Json.holds_sorted ?_ ?_
  · cases sourceHandle <;> cases targetHandle <;> simp [toMembers, Keyed.names]
  · cases sourceHandle <;> cases targetHandle <;> simp [toMembers, Json.sorted]

/-! ## Graphs -/

/-- Items are read again if each of them is. -/
theorem mapM_map_eq_some {α β : Type} {write : α → β} {read : β → Option α} {items : List α} :
    (items.map write).mapM read = some items ↔ ∀ item ∈ items, read (write item) = some item := by
  induction items with
  | nil => simp
  | cons item rest ih =>
      rw [List.map_cons, List.mapM_cons, List.forall_mem_cons, ← ih]
      cases read (write item) with
      | none => exact ⟨nofun, fun h => (nomatch h.1)⟩
      | some found =>
          cases (rest.map write).mapM read with
          | none => exact ⟨nofun, fun h => (nomatch h.2)⟩
          | some others => simp

/-- **A graph is read again if the places of its nodes are finite**, in whatever order members are written. -/
theorem Graph.ofJson?_of_holds {graph : Graph} {value : Json} (writeNode : Node → Json)
    (writeEdge : Edge → Json) (hnodes : ∀ node ∈ graph.nodes, (writeNode node).Holds node.toMembers)
    (hedges : ∀ edge ∈ graph.edges, (writeEdge edge).Holds edge.toMembers)
    (h : value.Holds
      [("nodes", .array (graph.nodes.map writeNode)), ("edges", .array (graph.edges.map writeEdge))]) :
    ofJson? value = some graph ↔ ∀ node ∈ graph.nodes, node.position.Finite := by
  have hrecord : Record.isRecord value = true := by
    obtain ⟨_, rfl, _⟩ := h
    rfl
  have hreadNodes : (graph.nodes.map writeNode).mapM Node.ofJson? = some graph.nodes
      ↔ ∀ node ∈ graph.nodes, node.position.Finite :=
    mapM_map_eq_some.trans (forall₂_congr fun node hnode => Node.ofJson?_of_holds (hnodes node hnode))
  have hreadEdges : (graph.edges.map writeEdge).mapM Edge.ofJson? = some graph.edges :=
    mapM_map_eq_some.mpr fun edge hedge => Edge.ofJson?_of_holds (hedges edge hedge)
  -- so it is the nodes that decide, one by one
  have hread : ofJson? value
      = ((graph.nodes.map writeNode).mapM Node.ofJson?).map fun nodes => { graph with nodes } := by
    unfold ofJson?
    rw [if_pos hrecord, h.items?_eq rfl, h.items?_eq rfl, hreadEdges]
    exact Option.map_eq_bind.symm
  rw [hread, ← hreadNodes, Option.map_eq_some_iff]
  constructor
  · intro ⟨nodes, hnodes, heq⟩
    rw [hnodes, ← heq]
  · exact fun h => ⟨_, h, rfl⟩

theorem Graph.ofJson?_toJson (graph : Graph) :
    ofJson? graph.toJson = some graph ↔ ∀ node ∈ graph.nodes, node.position.Finite :=
  ofJson?_of_holds Node.toJson Edge.toJson (fun node _ => Json.holds_self node.toMembers)
    (fun edge _ => Json.holds_self edge.toMembers) (Json.holds_self _)

/-- The same with all members in the order of their names, those within contents included. -/
theorem Graph.ofJson?_sorted_toJson {graph : Graph}
    (h : ∀ node ∈ graph.nodes, node.content.sorted = node.content) :
    ofJson? graph.toJson.sorted = some graph ↔ ∀ node ∈ graph.nodes, node.position.Finite := by
  refine ofJson?_of_holds (fun node => node.toJson.sorted) (fun edge => edge.toJson.sorted)
    (fun node hnode => Node.sorted_holds (h node hnode)) (fun edge _ => edge.sorted_holds) ?_
  -- each node and each edge is put in order; that the two lists change places does not matter
  have hmembers : Json.sortedMembers
      [("nodes", .array (graph.nodes.map Node.toJson)), ("edges", .array (graph.edges.map Edge.toJson))]
      = [("nodes", .array (graph.nodes.map fun node => node.toJson.sorted)),
        ("edges", .array (graph.edges.map fun edge => edge.toJson.sorted))] := by
    simp [Json.sortedMembers, Json.sorted, Json.sortedItems_eq_map]
  refine ⟨_, rfl, ?_⟩
  rw [hmembers]
  exact Keyed.get?_ofList (by simp [Keyed.names])

/--
**What has been written is read again.**

A graph is read again from the value that it is written as if and only if all of its nodes have finite places.
What its nodes hold does not matter, nor does it whether edges have handles. Members can be written in their usual
order or, where those of contents are in the order of their names, in that order as well.

Content of each known kind, once it has been read, is written as content that is read in the same way, whatever
its form was: an object or a list, with members that were unknown, `null` or missing. Every view can be read from
some content, but for a custom node whose configuration is `null`.
-/
theorem documents_reread :
    (∀ graph : Graph,
      Graph.ofJson? graph.toJson = some graph ↔ ∀ node ∈ graph.nodes, node.position.Finite)
    ∧ (∀ graph : Graph, (∀ node ∈ graph.nodes, node.content.sorted = node.content) →
      (Graph.ofJson? graph.toJson.sorted = some graph ↔ ∀ node ∈ graph.nodes, node.position.Finite))
    ∧ SchemaContent.decode.Rereads SchemaContent.toJson (fun _ => True)
    ∧ ExpressionContent.decode.Rereads ExpressionContent.toJson (fun _ => True)
    ∧ DecisionTableContent.decode.Rereads DecisionTableContent.toJson (fun _ => True)
    ∧ SwitchContent.decode.Rereads SwitchContent.toJson (fun _ => True)
    ∧ FunctionContent.decode.Rereads FunctionContent.toJson (fun _ => True)
    ∧ DecisionContent.decode.Rereads DecisionContent.toJson (fun _ => True)
    ∧ CustomContent.decode.Rereads CustomContent.toJson (fun content => content.config ≠ some .null) := by
  refine ⟨Graph.ofJson?_toJson, fun graph h => Graph.ofJson?_sorted_toJson h, ?_, ?_, ?_, ?_, ?_, ?_, ?_⟩
  · exact SchemaContent.decode_reads.rereads fun view => nofun
  · exact ExpressionContent.decode_reads.rereads fun view => nofun
  · exact DecisionTableContent.decode_reads.rereads fun view => nofun
  · exact SwitchContent.decode_reads.rereads fun view => nofun
  · exact FunctionContent.decode_reads.rereads fun view => by cases view <;> nofun
  · exact DecisionContent.decode_reads.rereads fun view => nofun
  · refine Decoder.rereads_of (fun view => nofun) ?_ ?_
    · exact fun view hview => CustomContent.decode_toJson hview
    · exact fun value view hview => CustomContent.config_ne_null hview

/-- Two nodes of which one is placed at a negative zero, an edge with one handle, a decision without content, a
table that is filled in only in part and a switch that is a list. -/
theorem documents_reread_partial :
    let content : Json := .object [("b", .array [.null, .object []]), ("ß", .number (.double .zero))]
    let first : Node := ⟨"a", "custom", "", content, ⟨⟨true, 0⟩, .zero⟩⟩
    let second : Node := ⟨"a", "", "A", .null, .origin⟩
    let graph : Graph := ⟨[first, second], [⟨"e", "a", "b", some "out", none⟩]⟩
    let table : Json := .object [
      ("executionMode", .object [("loop", .object [])]), ("hitPolicy", .null),
      ("inputs", .array [.array [.text "in", .null, .text "x"], .object [("id", .text "")]]),
      ("passThrough", .boolean false), ("rules", .array [.object [("in", .number (.integer 1))]]),
      ("zoom", .text "50 %")]
    let read : DecisionTableContent := ⟨none, [⟨"in", none, some "x"⟩, ⟨"", none, none⟩], [],
      [[("in", .number (.integer 1))]], ⟨none, none, some false, some .loop⟩⟩
    let switch : Json := .array [.text "collect", .array [.array [.text "s"], .object [("id", .text "t")]]]
    let readSwitch : SwitchContent := ⟨some .collect, [⟨"s", none⟩, ⟨"t", none⟩]⟩
    let readDecision : DecisionContent := ⟨none, ⟨none, none, none, none⟩⟩
    Graph.ofJson? graph.toJson = some graph ∧ Graph.ofJson? graph.toJson.sorted = some graph
      ∧ decodeContent "table" DecisionTableContent.decode table = .ok read
      ∧ decodeContent "table" DecisionTableContent.decode read.toJson = .ok read
      ∧ decodeContent "switch" SwitchContent.decode switch = .ok readSwitch
      ∧ decodeContent "switch" SwitchContent.decode readSwitch.toJson = .ok readSwitch
      ∧ decodeContent "decision" DecisionContent.decode .null = .ok readDecision
      ∧ decodeContent "decision" DecisionContent.decode readDecision.toJson = .ok readDecision := by
  intro content first second graph table read switch readSwitch readDecision
  obtain ⟨hgraph, hsorted, -, -, htable, hswitch, -, hdecision, -⟩ := documents_reread
  have hplaced : ∀ node ∈ graph.nodes, node.position.Finite := by decide
  have hread : decodeContent "table" DecisionTableContent.decode table = .ok read := rfl
  have hreadSwitch : decodeContent "switch" SwitchContent.decode switch = .ok readSwitch := rfl
  have hordered : Keyed.Ordered [("b", Json.array [.null, .object []]), ("ß", .number (.double .zero))] :=
    List.pairwise_pair.mpr (show "b" < "ß" by decide)
  have hcontent : content.sorted = content := congrArg Json.object hordered.ofList_eq
  have hcontents : ∀ node ∈ graph.nodes, node.content.sorted = node.content :=
    List.forall_mem_cons.mpr ⟨hcontent, List.forall_mem_singleton.mpr rfl⟩
  exact ⟨(hgraph graph).mpr hplaced, (hsorted graph hcontents).mpr hplaced,
    hread, htable.again _ table read hread, hreadSwitch, hswitch.again _ switch readSwitch hreadSwitch,
    rfl, hdecision.again _ .null readDecision rfl⟩

end DecisionGraph

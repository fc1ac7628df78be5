import DecisionGraph.Proofs.Issue
import DecisionGraph.Proofs.Topology.Schedule
import DecisionGraph.Propagation

/-!
# Propagation solves the equations of the flow of data

A propagation visits nodes in the order of a schedule and writes one entry for each. Since a node is
visited when all its sources have their final entries, and no entry is ever written twice, what it
was computed from at the time is also what stands in the result: the result solves a system of
equations, one for each node (`Environment.Solves`, `propagate_solves`). Nothing in these equations
mentions an order.

An earlier result comes in at one place only, `Environment.shapesFor`: the shapes that a node gets for
an input are those it keeps, or else those its kind makes of it.
-/

namespace DecisionGraph

namespace Progress

/-- Everything but the names of the recomputed nodes stays in order. -/
def Ordered (progress : Progress) : Prop := Keyed.Ordered progress.nodes

/-- The input of a node depends on the entries of its sources alone. -/
theorem inputOf_congr {progress progress' : Progress} {topology : Topology} {id : String}
    (h : ∀ source, topology.Linked source id →
      Keyed.get? source progress.nodes = Keyed.get? source progress'.nodes) :
    progress.inputOf topology id = progress'.inputOf topology id := by
  have hmap : (topology.predecessors id).map progress.output
      = (topology.predecessors id).map progress'.output := by
    refine List.map_congr_left fun source hs => ?_
    unfold output
    rw [h source (Topology.mem_predecessors.mp hs)]
  unfold inputOf
  rw [hmap]

theorem get?_addCycle (progress : Progress) (cycle : List String) (id : String) :
    Keyed.get? id (progress.addCycle cycle).nodes
      = if id ∈ cycle then some NodeShapes.unknown else Keyed.get? id progress.nodes := by
  have key : ∀ nodes : Keyed NodeShapes,
      Keyed.get? id (cycle.foldl (fun nodes id => Keyed.insert id NodeShapes.unknown nodes) nodes)
        = if id ∈ cycle then some NodeShapes.unknown else Keyed.get? id nodes := by
    induction cycle with
    | nil => intro nodes; simp
    | cons first rest ih =>
        intro nodes
        rw [List.foldl_cons, ih, Keyed.get?_insert]
        by_cases hr : id ∈ rest
        · rw [if_pos hr, if_pos (List.mem_cons_of_mem _ hr)]
        · rw [if_neg hr]
          by_cases hf : first = id
          · rw [if_pos hf, if_pos (by simp [hf])]
          · rw [if_neg hf, if_neg (by simp [Ne.symm hf, hr])]
  exact key progress.nodes

/-- Recording cycles writes the entries of their nodes and leaves the rest alone. -/
theorem addCycles_spec (progress : Progress) (cycles : List (List String)) (id : String) :
    Keyed.get? id (cycles.foldl addCycle progress).nodes
        = (if id ∈ cycles.flatten then some NodeShapes.unknown else Keyed.get? id progress.nodes)
      ∧ (cycles.foldl addCycle progress).bases = progress.bases := by
  induction cycles generalizing progress with
  | nil => exact ⟨by simp, rfl⟩
  | cons cycle rest ih =>
      obtain ⟨h1, h2⟩ := ih (progress.addCycle cycle)
      refine ⟨?_, h2⟩
      rw [List.foldl_cons, h1, get?_addCycle, List.flatten_cons]
      by_cases hr : id ∈ rest.flatten
      · rw [if_pos hr, if_pos (List.mem_append_right _ hr)]
      · rw [if_neg hr]
        exact if_congr (by simp [hr]) rfl rfl

theorem Ordered.addCycles {progress : Progress} (h : progress.Ordered) (cycles : List (List String)) :
    (cycles.foldl addCycle progress).Ordered := by
  have hinsert : ∀ (cycle : List String) (nodes : Keyed NodeShapes), Keyed.Ordered nodes →
      Keyed.Ordered
        (cycle.foldl (fun nodes id => Keyed.insert id NodeShapes.unknown nodes) nodes) := by
    intro cycle
    induction cycle with
    | nil => exact fun _ h => h
    | cons id rest ih => exact fun nodes h => ih _ (h.insert id _)
  induction cycles generalizing progress with
  | nil => exact h
  | cons cycle rest ih => exact ih (hinsert cycle progress.nodes h)

end Progress

namespace Environment

variable {environment : Environment} {topology : Topology} {changed : List String}
  {previous : Option Propagation}

/-- The shapes that a node gets for an input: those it keeps, or else those its kind makes. -/
def shapesFor (environment : Environment) (changed : List String) (previous : Option Propagation)
    (node : Node) (input : Shape) : NodeShapes :=
  (environment.kept? changed previous node (environment.basisOf node input)).getD
    (environment.compute node input)

theorem shapesFor_none (changed : List String) (node : Node) (input : Shape) :
    environment.shapesFor changed none node input = environment.compute node input := rfl

/--
**When a node keeps its shapes.**

An earlier result remembers what the node was computed from, nothing of that has changed, and the
node is not said to be changed.
-/
theorem kept?_eq_some {node : Node} {basis : NodeBasis} {shapes : NodeShapes} :
    environment.kept? changed previous node basis = some shapes
      ↔ ∃ result before, previous = some result ∧ node.id ∉ changed
        ∧ Keyed.get? node.id result.bases = some before
        ∧ environment.isStale node.kind before basis = false
        ∧ result.node? node.id = some shapes := by
  unfold kept?
  cases previous with
  | none => simp
  | some result =>
      by_cases hc : node.id ∈ changed
      · simp [hc]
      · simp [hc, Option.bind_eq_some_iff]

variable (environment topology changed previous)

/-- A visit writes the entry of one node. -/
theorem addNode_spec (progress : Progress) {id : String} {node : Node}
    (h : topology.node? id = some node) :
    (environment.addNode topology changed previous progress id).nodes
        = Keyed.insert id (environment.shapesFor changed previous node (progress.inputOf topology id))
            progress.nodes
      ∧ (environment.addNode topology changed previous progress id).bases
        = Keyed.insert id (environment.basisOf node (progress.inputOf topology id))
            progress.bases := by
  unfold addNode shapesFor
  rw [h]
  dsimp only
  split <;> rename_i hk <;> rw [hk] <;> exact ⟨rfl, rfl⟩

theorem addNode_ordered {progress : Progress} (h : progress.Ordered) (id : String) :
    (environment.addNode topology changed previous progress id).Ordered := by
  unfold addNode Progress.Ordered
  split
  · exact h
  · dsimp only
    split <;> exact Keyed.Ordered.insert h _ _

theorem run_ordered {progress : Progress} (h : progress.Ordered) (batch : List String) :
    (batch.foldl (environment.addNode topology changed previous) progress).Ordered := by
  induction batch generalizing progress with
  | nil => exact h
  | cons id rest ih => exact ih (addNode_ordered environment topology changed previous h id)

/-- A visit leaves the entries of all other nodes alone. -/
theorem addNode_of_ne (progress : Progress) {id other : String} (h : id ≠ other) :
    Keyed.get? other (environment.addNode topology changed previous progress id).nodes
        = Keyed.get? other progress.nodes
      ∧ Keyed.get? other (environment.addNode topology changed previous progress id).bases
        = Keyed.get? other progress.bases := by
  cases hn : topology.node? id with
  | none => unfold addNode; rw [hn]; exact ⟨rfl, rfl⟩
  | some node =>
      obtain ⟨hnodes, hbases⟩ := addNode_spec environment topology changed previous progress hn
      rw [hnodes, hbases]
      exact ⟨Keyed.get?_insert_of_ne h .., Keyed.get?_insert_of_ne h ..⟩

/-- A run leaves the entries of all other nodes alone. -/
theorem run_of_not_mem (progress : Progress) {batch : List String} {id : String} (h : id ∉ batch) :
    Keyed.get? id (batch.foldl (environment.addNode topology changed previous) progress).nodes
        = Keyed.get? id progress.nodes
      ∧ Keyed.get? id (batch.foldl (environment.addNode topology changed previous) progress).bases
        = Keyed.get? id progress.bases := by
  induction batch generalizing progress with
  | nil => exact ⟨rfl, rfl⟩
  | cons first rest ih =>
      rw [List.mem_cons, not_or] at h
      obtain ⟨h1, h2⟩ := ih (environment.addNode topology changed previous progress first) h.2
      obtain ⟨h3, h4⟩ :=
        addNode_of_ne environment topology changed previous progress (Ne.symm h.1)
      exact ⟨h1.trans h3, h2.trans h4⟩

/--
**A run computes every node from the final entries of its sources.**

At the time of the visit the sources are settled, and no later visit of the run writes a settled
node's entry.
-/
theorem run_spec {settled batch : List String} (h : topology.Runs settled batch)
    (progress : Progress) {id : String} {node : Node} (hid : id ∈ batch)
    (hnode : topology.node? id = some node) :
    let final := batch.foldl (environment.addNode topology changed previous) progress
    Keyed.get? id final.nodes
        = some (environment.shapesFor changed previous node (final.inputOf topology id))
      ∧ Keyed.get? id final.bases
        = some (environment.basisOf node (final.inputOf topology id)) := by
  induction batch generalizing settled progress with
  | nil => simp at hid
  | cons first rest ih =>
      obtain ⟨_, hout, hsources, hrest⟩ := h
      rw [List.foldl_cons]
      rcases List.mem_cons.mp hid with heq | hid
      · subst heq
        have hnot : id ∉ rest := hrest.not_mem (List.mem_cons_self ..)
        obtain ⟨h1, h2⟩ := run_of_not_mem environment topology changed previous
          (environment.addNode topology changed previous progress id) hnot
        obtain ⟨h3, h4⟩ := addNode_spec environment topology changed previous progress hnode
        -- the sources keep the entries that they have at the time of the visit
        have hinput : (rest.foldl (environment.addNode topology changed previous)
            (environment.addNode topology changed previous progress id)).inputOf topology id
              = progress.inputOf topology id := by
          refine Progress.inputOf_congr fun source hlink => ?_
          have hs := hsources source hlink
          have hne : id ≠ source := fun heq => hout (heq ▸ hs)
          have hsrest : source ∉ rest := hrest.not_mem (List.mem_cons_of_mem _ hs)
          exact (run_of_not_mem _ _ _ _ _ hsrest).1.trans (addNode_of_ne _ _ _ _ progress hne).1
        dsimp only
        rw [hinput, h1, h2, h3, h4]
        exact ⟨Keyed.get?_insert_self .., Keyed.get?_insert_self ..⟩
      · exact ih hrest _ hid

end Environment

/-! ## The result -/

/-- The merged outputs of the nodes that feed a node, the empty object if there are none. -/
def Propagation.inputAt (result : Propagation) (graph : Graph) (id : String) : Shape :=
  (Shape.mergeAll? ((graph.sources id).map fun source =>
    ((result.node? source).map NodeShapes.output).getD .any)).getD .empty

/-- What a result says of the nodes of a graph, node by node. -/
structure Environment.Solves (environment : Environment) (graph : Graph) (changed : List String)
    (previous : Option Propagation) (result : Propagation) : Prop where
  /-- Nothing is known about a node on a cycle, and it is remembered by nothing. -/
  cyclic : ∀ {id : String}, graph.OnCycle id →
    result.node? id = some .unknown ∧ Keyed.get? id result.bases = none
  /-- Any other node gets its shapes from what it is fed. -/
  acyclic : ∀ {id : String} {node : Node}, graph.node? id = some node → ¬graph.OnCycle id →
    result.node? id
        = some (environment.shapesFor changed previous node (result.inputAt graph id))
      ∧ Keyed.get? id result.bases
        = some (environment.basisOf node (result.inputAt graph id))
  /-- There are no entries but those of the nodes. -/
  outside : ∀ {id : String}, id ∉ graph.nodeIds →
    result.node? id = none ∧ Keyed.get? id result.bases = none

namespace Environment

variable {environment : Environment} {graph : Graph} {changed : List String}
  {previous : Option Propagation}

theorem inputAt_eq {result : Propagation} {progress : Progress} (h : result.nodes = progress.nodes)
    (id : String) :
    result.inputAt graph id = progress.inputOf (Topology.ofGraph graph) id := by
  unfold Propagation.inputAt Progress.inputOf Progress.output Propagation.node?
  rw [Topology.ofGraph_predecessors, h]

/-- The input of a node is made of the outputs of the nodes that feed it. -/
theorem inputAt_congr {result other : Propagation} {id : String}
    (h : ∀ source, graph.Feeds source id →
      (result.node? source).map NodeShapes.output = (other.node? source).map NodeShapes.output) :
    result.inputAt graph id = other.inputAt graph id := by
  unfold Propagation.inputAt
  rw [List.map_congr_left fun source hsource => ?_]
  rw [h source (Graph.mem_sources.mp hsource)]

/-- Of the graph, nothing but the sources of the node goes into its input. -/
theorem inputAt_of_sources {result : Propagation} {other : Graph} {id : String}
    (h : graph.sources id = other.sources id) : result.inputAt graph id = result.inputAt other id := by
  unfold Propagation.inputAt
  rw [h]

/-- **A propagation solves the equations of its graph.** -/
theorem propagate_solves (environment : Environment) (graph : Graph) (changed : List String)
    (previous : Option Propagation) :
    environment.Solves graph changed previous
      (environment.propagate graph changed previous) := by
  have hs := Topology.schedule_sound (Topology.ofGraph_wellFormed graph)
  have hcycle : ∀ {id : String},
      id ∈ (Topology.ofGraph graph).schedule.cycles.flatten ↔ graph.OnCycle id :=
    Topology.mem_scheduled_cycles
  -- the three phases
  let visit := environment.addNode (Topology.ofGraph graph) changed previous
  let before := (Topology.ofGraph graph).schedule.before.foldl visit Progress.start
  let resumed := (Topology.ofGraph graph).schedule.cycles.foldl Progress.addCycle before
  let final := (Topology.ofGraph graph).schedule.after.foldl visit resumed
  have hnodes : (environment.propagate graph changed previous).nodes = final.nodes := rfl
  have hbases : (environment.propagate graph changed previous).bases = final.bases := rfl
  have hresumed := before.addCycles_spec (Topology.ofGraph graph).schedule.cycles
  -- what the last phase does not visit keeps its entries, and so does what is on no cycle before
  have hlate : ∀ {id : String}, id ∉ (Topology.ofGraph graph).schedule.after →
      Keyed.get? id final.nodes = Keyed.get? id resumed.nodes
        ∧ Keyed.get? id final.bases = Keyed.get? id before.bases := by
    intro id h
    obtain ⟨h1, h2⟩ := run_of_not_mem environment _ changed previous resumed h
    exact ⟨h1, h2.trans (congrArg (Keyed.get? id) (hresumed id).2)⟩
  have hearly : ∀ {id : String}, id ∉ (Topology.ofGraph graph).schedule.after → ¬graph.OnCycle id →
      Keyed.get? id final.nodes = Keyed.get? id before.nodes := by
    intro id h hc
    have h1 := (hresumed id).1
    rw [if_neg fun hmem => hc (hcycle.mp hmem)] at h1
    exact (hlate h).1.trans h1
  have hfirst : ∀ {id : String}, id ∈ (Topology.ofGraph graph).schedule.before →
      id ∉ (Topology.ofGraph graph).schedule.after ∧ ¬graph.OnCycle id := by
    intro id h
    refine ⟨hs.after.not_mem (List.mem_append_right _ h), fun hc => hs.apart id h ?_⟩
    rw [Topology.ofGraph_linked]
    exact hc
  refine ⟨?_, ?_, ?_⟩
  · intro id hc
    have hafter := hs.after.not_mem (List.mem_append_left _ (hcycle.mpr hc))
    have hbefore : id ∉ (Topology.ofGraph graph).schedule.before := fun h => (hfirst h).2 hc
    have h1 := (hresumed id).1
    rw [if_pos (hcycle.mpr hc)] at h1
    exact ⟨(hlate hafter).1.trans h1,
      (hlate hafter).2.trans (run_of_not_mem _ _ _ _ Progress.start hbefore).2⟩
  · intro id node hnode hc
    have hnode' : (Topology.ofGraph graph).node? id = some node := by
      rw [Topology.ofGraph_node?, hnode]
    have hid : id ∈ (Topology.ofGraph graph).ids :=
      Topology.mem_ofGraph_ids.mpr (Graph.mem_of_node? hnode)
    rw [inputAt_eq hnodes id]
    rcases hs.complete id hid with h | h | h
    · -- the entries of the node and of its sources date from the first phase
      obtain ⟨hafter, _⟩ := hfirst h
      have hinput : final.inputOf (Topology.ofGraph graph) id
          = before.inputOf (Topology.ofGraph graph) id := by
        refine Progress.inputOf_congr fun source hlink => ?_
        have hsource := (hs.before.source_mem h hlink).resolve_left List.not_mem_nil
        exact hearly (hfirst hsource).1 (hfirst hsource).2
      obtain ⟨h1, h2⟩ :=
        run_spec environment _ changed previous hs.before Progress.start h hnode'
      rw [hinput]
      exact ⟨(hearly hafter hc).trans h1, (hlate hafter).2.trans h2⟩
    · exact absurd (hcycle.mp h) hc
    · exact run_spec _ _ _ _ hs.after resumed h hnode'
  · intro id hid
    have hunknown : id ∉ (Topology.ofGraph graph).ids :=
      fun h => hid (Topology.mem_ofGraph_ids.mp h)
    have hafter : id ∉ (Topology.ofGraph graph).schedule.after :=
      fun h => hunknown (hs.after.known id h)
    have hbefore : id ∉ (Topology.ofGraph graph).schedule.before :=
      fun h => hunknown (hs.before.known id h)
    obtain ⟨h1, h2⟩ := run_of_not_mem environment _ changed previous Progress.start hbefore
    exact ⟨(hearly hafter fun hc => hid hc.mem).trans h1, (hlate hafter).2.trans h2⟩

theorem propagate_ordered (environment : Environment) (graph : Graph) (changed : List String)
    (previous : Option Propagation) :
    Keyed.Ordered (environment.propagate graph changed previous).nodes := by
  have hstart : Progress.start.Ordered := Keyed.ordered_nil
  exact run_ordered _ _ _ _ ((run_ordered _ _ _ _ hstart _).addCycles _) _

/-- The nodes of the graph have an entry, and nothing else has one. -/
theorem propagate_node?_isSome {id : String} :
    ((environment.propagate graph changed previous).node? id).isSome ↔ id ∈ graph.nodeIds := by
  have hsolves := environment.propagate_solves graph changed previous
  constructor
  · intro hsome
    refine Classical.byContradiction fun hid => ?_
    rw [(hsolves.outside hid).1] at hsome
    exact Bool.noConfusion hsome
  · intro hid
    rcases Classical.em (graph.OnCycle id) with hc | hc
    · rw [(hsolves.cyclic hc).1]; rfl
    · obtain ⟨node, hnode⟩ := Graph.exists_node? hid
      rw [(hsolves.acyclic hnode hc).1]; rfl

/-- **An entry is that of a node on a cycle, or it holds the shapes that its node gets for its input.** -/
theorem propagate_node?_cases {id : String} {shapes : NodeShapes}
    (h : (environment.propagate graph changed previous).node? id = some shapes) :
    graph.OnCycle id ∧ shapes = .unknown
      ∨ ∃ node, graph.node? id = some node ∧ ¬graph.OnCycle id
        ∧ shapes = environment.shapesFor changed previous node
          ((environment.propagate graph changed previous).inputAt graph id) := by
  have hsolves := environment.propagate_solves graph changed previous
  rcases Classical.em (graph.OnCycle id) with hc | hc
  · rw [(hsolves.cyclic hc).1] at h
    exact Or.inl ⟨hc, (Option.some.inj h).symm⟩
  · obtain ⟨node, hnode⟩ :=
      Graph.exists_node? (propagate_node?_isSome.mp (Option.isSome_iff_exists.mpr ⟨shapes, h⟩))
    rw [(hsolves.acyclic hnode hc).1] at h
    exact Or.inr ⟨node, hnode, hc, (Option.some.inj h).symm⟩

/-- **There is one entry for each id.** -/
theorem names_propagate_perm (environment : Environment) (graph : Graph) (changed : List String)
    (previous : Option Propagation) :
    (Keyed.names (environment.propagate graph changed previous).nodes).Perm
      graph.nodeIds.eraseDups := by
  have hnd := (environment.propagate_ordered graph changed previous).nodup_names
  refine (List.perm_ext_iff_of_nodup hnd (nodup_eraseDups _)).mpr fun id => ?_
  rw [Keyed.mem_names, List.mem_eraseDups]
  exact propagate_node?_isSome

/-- **An issue is reported if it is a cycle of the schedule or a node has it.** -/
theorem mem_issues {issue : Issue} :
    issue ∈ (environment.propagate graph changed previous).issues
      ↔ (∃ cycle ∈ (Topology.ofGraph graph).schedule.cycles, .cyclicDependency cycle = issue)
        ∨ ∃ id shapes, (environment.propagate graph changed previous).node? id = some shapes
          ∧ issue ∈ shapes.issues := by
  have hordered := environment.propagate_ordered graph changed previous
  refine Issue.mem_report.trans (List.mem_append.trans (or_congr List.mem_map ?_))
  rw [List.mem_flatMap]
  constructor
  · intro ⟨shapes, hvalue, hmem⟩
    obtain ⟨id, hentry⟩ := hordered.mem_values.mp hvalue
    exact ⟨id, shapes, hentry, hmem⟩
  · intro ⟨id, shapes, hentry, hmem⟩
    exact ⟨shapes, hordered.mem_values.mpr ⟨id, hentry⟩, hmem⟩

end Environment

end DecisionGraph

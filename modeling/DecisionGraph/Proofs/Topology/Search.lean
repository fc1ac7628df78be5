import DecisionGraph.Proofs.Keyed
import DecisionGraph.Proofs.Topology.Reach
import DecisionGraph.Topology.Search

/-!
# The search finds the cycles

The numbers of the nodes are what the proof is about. On the stack they fall from the top down, the
path is a part of the stack, and so the nodes that wait fall into sections, one for each node of the
path: those with a number that is not lower, up to the next node of the path. `Searching` is the
invariant. What it says of the numbers is this:

* from a node of the path links lead to every node above it on the stack (`reaches`), and from every
  node on the stack links lead to a node of the path that is not above it (`returns`);
* what is noted as the lowest number of a node of the path is the number of a node on the stack that
  links lead to (`attained`), and no link out of its section that has been looked at ends at a lower
  one than is noted for the section or for one above (`noted`).

When the last node of the path has no links left and leads to no lower number than its own, its
section is closed under links but for nodes with complete components: it is the component of the
node (`Searching.section_eq`). Otherwise it leads to a node below it, and its section joins the one
before.
-/

namespace DecisionGraph

open Relation

namespace Search

variable {topology : Topology} {settled : List String}

/-! ## What the operations do -/

theorem visit_discover (search : Search) (id other : String) :
    (search.discover topology id).visit other
      = if id = other then .computing else search.visit other := by
  unfold visit discover
  rw [Keyed.get?_insert]
  split <;> rfl

theorem number_discover (search : Search) (id other : String) :
    (search.discover topology id).number other
      = if id = other then search.next else search.number other := by
  unfold number discover
  rw [Keyed.get?_insert]
  split <;> rfl

theorem low_discover (search : Search) (id other : String) :
    (search.discover topology id).low other
      = if id = other then search.next else search.low other := by
  unfold low discover
  rw [Keyed.get?_insert]
  split <;> rfl

theorem low_lower (search : Search) (id : String) (number : Nat) (other : String) :
    (search.lower id number).low other
      = if id = other then min (search.low id) number else search.low other := by
  unfold low lower
  rw [Keyed.get?_insert]
  split <;> rfl

theorem low_lower_le (search : Search) (id : String) (number : Nat) (other : String) :
    (search.lower id number).low other ≤ search.low other := by
  rw [low_lower]
  by_cases heq : id = other
  · rw [if_pos heq, heq]
    exact Nat.min_le_left ..
  · rw [if_neg heq]

/-- The visits after a component is complete. -/
theorem visit_complete (search : Search) (id other : String) :
    (search.complete topology id).visit other
      = if other ∈ (popTo id search.stack).1 then .fresh else search.visit other := by
  have key : ∀ (component : List String) (visits : Keyed Visit),
      (Keyed.get? other (component.foldl (fun visits id => Keyed.insert id .fresh visits) visits)).getD
          .stale
        = if other ∈ component then .fresh else (Keyed.get? other visits).getD .stale := by
    intro component
    induction component with
    | nil => intro visits; simp
    | cons first rest ih =>
        intro visits
        rw [List.foldl_cons, ih, Keyed.get?_insert]
        by_cases hr : other ∈ rest
        · rw [if_pos hr, if_pos (List.mem_cons_of_mem _ hr)]
        · rw [if_neg hr]
          by_cases hf : first = other
          · rw [if_pos hf, if_pos (by simp [hf])]
            rfl
          · rw [if_neg hf, if_neg (by simp [Ne.symm hf, hr])]
  exact key _ _

/-- On a stack whose numbers fall, what is popped down to a node are the nodes whose numbers are not
lower. -/
theorem popTo_eq (number : String → Nat) {id : String} {stack : List String}
    (hordered : stack.Pairwise fun a b => number b < number a) (hid : id ∈ stack) :
    popTo id stack = (stack.filter fun other => number id ≤ number other,
      stack.filter fun other => number other < number id) := by
  induction stack with
  | nil => cases hid
  | cons top rest ih =>
      obtain ⟨htop, hrest⟩ := List.pairwise_cons.mp hordered
      unfold popTo
      by_cases heq : top = id
      · -- everything below has a lower number, so only the node itself is popped
        subst heq
        have hnone : rest.filter (fun other => number top ≤ number other) = [] := by
          refine List.filter_eq_nil_iff.mpr fun other hother => ?_
          have := htop other hother
          simp only [decide_eq_true_eq]
          omega
        have hall : rest.filter (fun other => number other < number top) = rest :=
          List.filter_eq_self.mpr fun other hother => by simpa using htop other hother
        rw [if_pos rfl, List.filter_cons_of_pos (by simp), List.filter_cons_of_neg (by simp), hnone,
          hall]
      · have hmem : id ∈ rest := (List.mem_cons.mp hid).resolve_left (Ne.symm heq)
        have hlt := htop id hmem
        rw [if_neg heq, ih hrest hmem, List.filter_cons_of_pos (by simpa using hlt.le),
          List.filter_cons_of_neg (by simpa using hlt.le)]

/-- The nodes of the path, the last one first. -/
def onPath (search : Search) : List String := search.path.map Frame.node

/-- A link has not been looked at, or another one with the same ends has not. -/
def Pending (search : Search) (id target : String) : Prop :=
  ∃ frame ∈ search.path, frame.node = id ∧ target ∈ frame.left

theorem Pending.onPath {search : Search} {id target : String} (h : search.Pending id target) :
    id ∈ search.onPath := by
  obtain ⟨frame, hframe, hnode, _⟩ := h
  exact List.mem_map.mpr ⟨frame, hframe, hnode⟩

end Search

/-! ## The invariant -/

/-- The stack, the numbers on it, and the path. -/
structure Stacked (topology : Topology) (settled : List String) (search : Search) : Prop where
  /-- The nodes on the stack are those that wait. -/
  computing : ∀ id, search.visit id = .computing ↔ id ∈ search.stack
  /-- They are nodes that are not settled. -/
  known : ∀ id ∈ search.stack, id ∈ topology.ids ∧ id ∉ settled
  /-- The next number has not been used. -/
  bounded : ∀ id ∈ search.stack, search.number id < search.next
  /-- The numbers fall from the top down. -/
  ordered : search.stack.Pairwise fun a b => search.number b < search.number a
  /-- The path is a part of the stack. -/
  part : search.onPath.Sublist search.stack

/-- The links that have been looked at. -/
structure Explored (topology : Topology) (search : Search) : Prop where
  /-- What is left to look at are links. -/
  links : ∀ {id target}, search.Pending id target → topology.Linked id target
  /-- Looking at a link discovers its target. -/
  seen : ∀ {id target}, id ∈ search.stack → topology.Linked id target → ¬search.Pending id target →
    search.visit target ≠ .stale
  /-- No link leads out of the complete components. -/
  closed : ∀ {id target}, search.visit id = .fresh → topology.Linked id target →
    search.visit target = .fresh

/-- What the numbers tell about where links lead. -/
structure Numbered (topology : Topology) (search : Search) : Prop where
  /-- Links lead from a node of the path to everything above it. -/
  reaches : ∀ id ∈ search.onPath, ∀ other ∈ search.stack, search.number id ≤ search.number other →
    ReflTransGen topology.Linked id other
  /-- Links lead from everything on the stack to a node of the path that is not above it. -/
  returns : ∀ id ∈ search.stack, ∃ other ∈ search.onPath, search.number other ≤ search.number id
    ∧ ReflTransGen topology.Linked id other
  /-- The noted number is that of a node that links lead to. -/
  attained : ∀ id ∈ search.onPath, search.low id ≤ search.number id
    ∧ ∃ other ∈ search.stack, search.number other = search.low id
      ∧ ReflTransGen topology.Linked id other
  /-- A link that has been looked at is noted somewhere between. -/
  noted : ∀ id ∈ search.onPath, ∀ other ∈ search.stack, search.number id ≤ search.number other →
    ∀ target ∈ search.stack, topology.Linked other target → ¬search.Pending other target →
      ∃ between ∈ search.onPath, search.number id ≤ search.number between
        ∧ search.number between ≤ search.number other
        ∧ search.low between ≤ search.number target

/-- The cycles found so far. -/
structure Collected (topology : Topology) (search : Search) : Prop where
  /-- They are the components of the nodes on cycles whose components are complete. -/
  cycles : ∀ cycle, cycle ∈ search.cycles ↔ ∃ id, search.visit id = .fresh
    ∧ TransGen topology.Linked id id ∧ topology.component id = cycle
  /-- None has been found twice. -/
  distinct : search.cycles.Nodup

/-- **The invariant of the search.** -/
structure Searching (topology : Topology) (settled : List String) (search : Search) : Prop
    extends Stacked topology settled search, Explored topology search, Numbered topology search,
      Collected topology search

theorem searching_start : Searching topology settled Search.start where
  computing := by intro id; simp [Search.start, Search.visit]
  known := by intro id h; cases h
  bounded := by intro id h; cases h
  ordered := List.Pairwise.nil
  part := List.Sublist.slnil
  links := by intro id target ⟨frame, hframe, _⟩; cases hframe
  seen := by intro id target h; cases h
  closed := by intro id target h; cases h
  reaches := by intro id h; cases h
  returns := by intro id h; cases h
  attained := by intro id h; cases h
  noted := by intro id h; cases h
  cycles := by
    intro cycle
    constructor
    · intro h; cases h
    · intro ⟨id, hfresh, _⟩; cases hfresh
  distinct := List.nodup_nil

/-! ## Discovering a node -/

section Discover

variable {topology : Topology} {settled : List String} {search : Search} {id : String}

theorem Stacked.discover (h : Stacked topology settled search) (hstale : search.visit id = .stale)
    (hid : id ∈ topology.ids) (hout : id ∉ settled) :
    Stacked topology settled (search.discover topology id) := by
  have hnew : ∀ other ∈ search.stack, id ≠ other := by
    intro other hother heq
    rw [← h.computing, ← heq, hstale] at hother
    cases hother
  have hnumber : ∀ other ∈ search.stack,
      (search.discover topology id).number other = search.number other :=
    fun other hother => by rw [Search.number_discover, if_neg (hnew other hother)]
  have hself : (search.discover topology id).number id = search.next := by
    rw [Search.number_discover, if_pos rfl]
  refine ⟨?_, ?_, ?_, ?_, h.part.cons_cons id⟩
  · intro other
    rw [Search.visit_discover]
    by_cases heq : id = other
    · rw [if_pos heq]
      exact iff_of_true rfl (heq ▸ List.mem_cons_self ..)
    · rw [if_neg heq, h.computing]
      exact (List.mem_cons.trans (or_iff_right (Ne.symm heq))).symm
  · intro other hother
    rcases List.mem_cons.mp hother with heq | hold
    · exact heq ▸ ⟨hid, hout⟩
    · exact h.known other hold
  · intro other hother
    rcases List.mem_cons.mp hother with heq | hold
    · rw [heq, hself]
      exact Nat.lt_succ_self _
    · rw [hnumber other hold]
      exact Nat.lt_succ_of_lt (h.bounded other hold)
  · refine List.pairwise_cons.mpr ⟨?_, ?_⟩
    · intro other hother
      rw [hself, hnumber other hother]
      exact h.bounded other hother
    · refine h.ordered.imp_of_mem fun ha hb hlt => ?_
      rw [hnumber _ ha, hnumber _ hb]
      exact hlt

theorem pending_discover {other target : String} :
    (search.discover topology id).Pending other target
      ↔ (id = other ∧ topology.Linked id target) ∨ search.Pending other target := by
  constructor
  · intro ⟨frame, hframe, hnode, hleft⟩
    rcases List.mem_cons.mp hframe with heq | hold
    · subst heq
      exact Or.inl ⟨hnode, Topology.mem_successors.mp hleft⟩
    · exact Or.inr ⟨frame, hold, hnode, hleft⟩
  · intro hcase
    rcases hcase with ⟨heq, hlink⟩ | ⟨frame, hframe, hnode, hleft⟩
    · exact ⟨_, List.mem_cons_self .., heq, Topology.mem_successors.mpr hlink⟩
    · exact ⟨frame, List.mem_cons_of_mem _ hframe, hnode, hleft⟩

theorem Explored.discover (h : Explored topology search) (hstale : search.visit id = .stale) :
    Explored topology (search.discover topology id) := by
  have hvisit : ∀ other, id ≠ other →
      (search.discover topology id).visit other = search.visit other :=
    fun other hne => by rw [Search.visit_discover, if_neg hne]
  have hself : (search.discover topology id).visit id = .computing := by
    rw [Search.visit_discover, if_pos rfl]
  refine ⟨?_, ?_, ?_⟩
  · intro other target hpending
    rcases pending_discover.mp hpending with ⟨heq, hlink⟩ | hold
    · exact heq ▸ hlink
    · exact h.links hold
  · -- all links of the new node are pending, so the one in question starts at an old node
    intro other target hother hlink hlooked
    have hne : id ≠ other := fun heq =>
      hlooked (pending_discover.mpr (Or.inl ⟨heq, heq ▸ hlink⟩))
    have hold := (List.mem_cons.mp hother).resolve_left (Ne.symm hne)
    have hseen := h.seen hold hlink fun hp => hlooked (pending_discover.mpr (Or.inr hp))
    rw [hvisit target fun heq => hseen (heq ▸ hstale)]
    exact hseen
  · intro other target hfresh hlink
    have hne : id ≠ other := by
      intro heq
      rw [← heq, hself] at hfresh
      cases hfresh
    rw [hvisit other hne] at hfresh
    have htarget := h.closed hfresh hlink
    have hne' : id ≠ target := by
      intro heq
      rw [← heq, hstale] at htarget
      cases htarget
    rw [hvisit target hne']
    exact htarget

/-- A new node has the highest number, and links lead to it from every node of the path. -/
theorem Numbered.discover (h : Numbered topology search) (hs : Stacked topology settled search)
    (he : Explored topology search) (hstale : search.visit id = .stale)
    (hpath : ∀ other ∈ search.onPath, ReflTransGen topology.Linked other id) :
    Numbered topology (search.discover topology id) := by
  have hnew : ∀ other ∈ search.stack, id ≠ other := by
    intro other hother heq
    rw [← hs.computing, ← heq, hstale] at hother
    cases hother
  have hnumber : ∀ other ∈ search.stack,
      (search.discover topology id).number other = search.number other :=
    fun other hother => by rw [Search.number_discover, if_neg (hnew other hother)]
  have hself : (search.discover topology id).number id = search.next := by
    rw [Search.number_discover, if_pos rfl]
  have hlow : ∀ other ∈ search.onPath,
      (search.discover topology id).low other = search.low other :=
    fun other hother => by rw [Search.low_discover, if_neg (hnew other (hs.part.subset hother))]
  -- nothing old has a number that is not lower than the new one
  have habove : ∀ other ∈ search.stack, ¬(search.discover topology id).number id
      ≤ (search.discover topology id).number other := by
    intro other hother
    rw [hself, hnumber other hother]
    exact Nat.not_le.mpr (hs.bounded other hother)
  refine ⟨?_, ?_, ?_, ?_⟩
  · intro first hfirst other hother hle
    rcases List.mem_cons.mp hfirst with heq | hfirst
    · subst heq
      rcases List.mem_cons.mp hother with heq' | hother
      · rw [heq']
      · exact absurd hle (habove other hother)
    · rcases List.mem_cons.mp hother with heq' | hother
      · exact heq' ▸ hpath first hfirst
      · rw [hnumber first (hs.part.subset hfirst), hnumber other hother] at hle
        exact h.reaches first hfirst other hother hle
  · intro other hother
    rcases List.mem_cons.mp hother with heq | hother
    · exact ⟨other, heq ▸ List.mem_cons_self .., Nat.le_refl _, .refl⟩
    · obtain ⟨first, hfirst, hle, hpath⟩ := h.returns other hother
      refine ⟨first, List.mem_cons_of_mem _ hfirst, ?_, hpath⟩
      rw [hnumber first (hs.part.subset hfirst), hnumber other hother]
      exact hle
  · intro first hfirst
    rcases List.mem_cons.mp hfirst with heq | hfirst
    · subst heq
      have hlow' : (search.discover topology first).low first = search.next := by
        rw [Search.low_discover, if_pos rfl]
      exact ⟨by rw [hlow', hself], first, List.mem_cons_self .., by rw [hlow', hself], .refl⟩
    · obtain ⟨hle, other, hother, heq, hpath⟩ := h.attained first hfirst
      rw [hlow first hfirst, hnumber first (hs.part.subset hfirst)]
      exact ⟨hle, other, List.mem_cons_of_mem _ hother, by rw [hnumber other hother, heq], hpath⟩
  · intro first hfirst other hother hle target htarget hlink hlooked
    have hne : id ≠ other := fun heq =>
      hlooked (pending_discover.mpr (Or.inl ⟨heq, heq ▸ hlink⟩))
    have hold := (List.mem_cons.mp hother).resolve_left (Ne.symm hne)
    have hlooked' : ¬search.Pending other target :=
      fun hp => hlooked (pending_discover.mpr (Or.inr hp))
    -- nor does it end at the new node, which nobody had seen
    have htarget' := (List.mem_cons.mp htarget).resolve_left fun heq =>
      he.seen hold hlink hlooked' (heq ▸ hstale)
    rcases List.mem_cons.mp hfirst with heq | hfirst
    · subst heq
      exact absurd hle (habove other hold)
    · rw [hnumber first (hs.part.subset hfirst), hnumber other hold] at hle
      obtain ⟨between, hbetween, hge, hle', hlow'⟩ :=
        h.noted first hfirst other hold hle target htarget' hlink hlooked'
      refine ⟨between, List.mem_cons_of_mem _ hbetween, ?_⟩
      rw [hnumber first (hs.part.subset hfirst), hnumber between (hs.part.subset hbetween),
        hnumber other hold, hlow between hbetween, hnumber target htarget']
      exact ⟨hge, hle', hlow'⟩

theorem Collected.discover (h : Collected topology search) (hstale : search.visit id = .stale) :
    Collected topology (search.discover topology id) := by
  refine ⟨fun cycle => (h.cycles cycle).trans (exists_congr fun other => ?_), h.distinct⟩
  rw [Search.visit_discover]
  by_cases heq : id = other
  · subst heq
    rw [if_pos rfl, hstale]
    exact iff_of_false (fun hf => by cases hf.1) fun hf => by cases hf.1
  · rw [if_neg heq]

/-- **Discovering a node keeps the invariant** if links lead to it from every node of the path. -/
theorem Searching.discover (h : Searching topology settled search)
    (hstale : search.visit id = .stale) (hid : id ∈ topology.ids) (hout : id ∉ settled)
    (hpath : ∀ other ∈ search.onPath, ReflTransGen topology.Linked other id) :
    Searching topology settled (search.discover topology id) :=
  { h.toStacked.discover hstale hid hout, h.toExplored.discover hstale,
    h.toNumbered.discover h.toStacked h.toExplored hstale hpath,
    h.toCollected.discover hstale with }

end Discover

/-! ## Looking at a link -/

section Look

variable {topology : Topology} {settled : List String} {search : Search}

/-- **Noting a number keeps the invariant** if links lead to a node on the stack that has it. -/
theorem Searching.lower (h : Searching topology settled search) {id other : String}
    (hid : id ∈ search.onPath) (hother : other ∈ search.stack)
    (hpath : ReflTransGen topology.Linked id other) :
    Searching topology settled (search.lower id (search.number other)) :=
  { h.toStacked, h.toExplored, h.toCollected with
    reaches := h.reaches
    returns := h.returns
    attained := by
      intro first hfirst
      refine ⟨(Search.low_lower_le ..).trans (h.attained first hfirst).1, ?_⟩
      rw [Search.low_lower]
      by_cases heq : id = first
      · subst heq
        rw [if_pos rfl]
        rcases Nat.le_total (search.low id) (search.number other) with hle | hle
        · rw [Nat.min_eq_left hle]
          exact (h.attained id hid).2
        · rw [Nat.min_eq_right hle]
          exact ⟨other, hother, rfl, hpath⟩
      · rw [if_neg heq]
        exact (h.attained first hfirst).2
    noted := by
      intro first hfirst other hother hle target htarget hlink hlooked
      obtain ⟨between, hbetween, hge, hle', hlow⟩ :=
        h.noted first hfirst other hother hle target htarget hlink hlooked
      exact ⟨between, hbetween, hge, hle', (Search.low_lower_le ..).trans hlow⟩ }

/-- A link that is taken off the path was pending, and no other link is affected. -/
theorem pending_look {above path : List Frame} {id target : String} {left : List String}
    (hpath : search.path = above ++ ⟨id, target :: left⟩ :: path) {source other : String} :
    search.Pending source other ↔ (id = source ∧ other = target)
      ∨ ({ search with path := above ++ ⟨id, left⟩ :: path } : Search).Pending source other := by
  unfold Search.Pending
  simp only [hpath, List.mem_append, List.mem_cons, or_and_right, exists_or, exists_eq_left]
  constructor
  · intro hcase
    rcases hcase with h | ⟨hnode, heq | hleft⟩ | h
    · exact Or.inr (Or.inl h)
    · exact Or.inl ⟨hnode, heq⟩
    · exact Or.inr (Or.inr (Or.inl ⟨hnode, hleft⟩))
    · exact Or.inr (Or.inr (Or.inr h))
  · intro hcase
    rcases hcase with ⟨hnode, heq⟩ | h | ⟨hnode, hleft⟩ | h
    · exact Or.inr (Or.inl ⟨hnode, Or.inl heq⟩)
    · exact Or.inl h
    · exact Or.inr (Or.inl ⟨hnode, Or.inr hleft⟩)
    · exact Or.inr (Or.inr h)

/--
**Taking a link off the path keeps the invariant** if it has been looked at.

Its target has been discovered, and it is noted if it waits on the stack.
-/
theorem Searching.look (h : Searching topology settled search) (above : List Frame)
    {path : List Frame} {id target : String} {left : List String}
    (hpath : search.path = above ++ ⟨id, target :: left⟩ :: path)
    (hseen : search.visit target ≠ .stale)
    (hnoted : target ∈ search.stack → search.low id ≤ search.number target) :
    Searching topology settled { search with path := above ++ ⟨id, left⟩ :: path } := by
  have honPath : ({ search with path := above ++ ⟨id, left⟩ :: path } : Search).onPath
      = search.onPath := by
    unfold Search.onPath
    simp [hpath]
  refine { h.toCollected with
    computing := h.computing
    known := h.known
    bounded := h.bounded
    ordered := h.ordered
    part := honPath ▸ h.part
    links := fun hpending => h.links ((pending_look hpath).mpr (Or.inr hpending))
    seen := ?_
    closed := h.closed
    reaches := honPath ▸ h.reaches
    returns := honPath ▸ h.returns
    attained := honPath ▸ h.attained
    noted := ?_ }
  · intro source other hsource hlink hnot
    by_cases hpending : search.Pending source other
    · exact ((pending_look hpath).mp hpending).resolve_right hnot |>.2 ▸ hseen
    · exact h.seen hsource hlink hpending
  · rw [honPath]
    intro first hfirst source hsource hle other hother hlink hnot
    by_cases hpending : search.Pending source other
    · obtain ⟨hnode, heq⟩ := ((pending_look hpath).mp hpending).resolve_right hnot
      subst hnode heq
      exact ⟨id, hpending.onPath, hle, Nat.le_refl _, hnoted hother⟩
    · exact h.noted first hfirst source hsource hle other hother hlink hpending

/-- On a path, every node but the last one has a lower number than it. -/
theorem Stacked.lt_last (h : Stacked topology settled search) {last : Frame} {path : List Frame}
    (hpath : search.path = last :: path) :
    last.node ∈ search.stack ∧ ∀ id ∈ path.map Frame.node, search.number id < search.number last.node
      := by
  have honPath : search.onPath = last.node :: path.map Frame.node := by
    unfold Search.onPath
    rw [hpath, List.map_cons]
  have hfalls := h.ordered.sublist h.part
  rw [honPath] at hfalls
  refine ⟨h.part.subset ?_, (List.pairwise_cons.mp hfalls).1⟩
  rw [honPath]
  exact List.mem_cons_self ..

theorem Stacked.le_last (h : Stacked topology settled search) {last : Frame} {path : List Frame}
    (hpath : search.path = last :: path) {id : String} (hid : id ∈ search.onPath) :
    search.number id ≤ search.number last.node := by
  unfold Search.onPath at hid
  rw [hpath, List.map_cons] at hid
  rcases List.mem_cons.mp hid with heq | hbefore
  · rw [heq]
  · exact ((h.lt_last hpath).2 id hbefore).le

end Look

/-! ## Leaving a node -/

section Leave

variable {topology : Topology} {settled : List String} {search : Search} {id : String}
  {path : List Frame}

/-- A node without links left has nothing pending. -/
theorem pending_leave (hpath : search.path = ⟨id, []⟩ :: path) {other target : String} :
    search.Pending other target ↔ ({ search with path } : Search).Pending other target := by
  constructor
  · intro ⟨frame, hframe, hnode, hleft⟩
    rw [hpath] at hframe
    rcases List.mem_cons.mp hframe with heq | hframe
    · subst heq
      cases hleft
    · exact ⟨frame, hframe, hnode, hleft⟩
  · intro ⟨frame, hframe, hnode, hleft⟩
    exact ⟨frame, hpath ▸ List.mem_cons_of_mem _ hframe, hnode, hleft⟩

theorem onPath_leave (hpath : search.path = ⟨id, []⟩ :: path) :
    search.onPath = id :: ({ search with path } : Search).onPath := by
  unfold Search.onPath
  rw [hpath, List.map_cons]

/-- The nodes of the path but the last one are the nodes of the path with lower numbers. -/
theorem Stacked.mem_leave (h : Stacked topology settled search)
    (hpath : search.path = ⟨id, []⟩ :: path) {other : String} :
    other ∈ ({ search with path } : Search).onPath
      ↔ other ∈ search.onPath ∧ search.number other < search.number id := by
  rw [onPath_leave hpath]
  constructor
  · intro hother
    exact ⟨List.mem_cons_of_mem _ hother, (h.lt_last hpath).2 other hother⟩
  · intro ⟨hother, hlt⟩
    refine (List.mem_cons.mp hother).resolve_left fun heq => ?_
    rw [heq] at hlt
    exact Nat.lt_irrefl _ hlt

/--
**Leaving a node that leads below itself keeps the invariant.**

Its section joins the one of the node before, which has noted what the node leads to.
-/
theorem Searching.leave (h : Searching topology settled search)
    (hpath : search.path = ⟨id, []⟩ :: path) (hlow : search.low id < search.number id)
    (hparent : ∀ parent more, path = parent :: more → search.low parent.node ≤ search.low id) :
    Searching topology settled { search with path } := by
  have hpart : ({ search with path } : Search).onPath.Sublist search.onPath := by
    rw [onPath_leave hpath]
    exact List.sublist_cons_self ..
  have hid : id ∈ search.onPath := by
    rw [onPath_leave hpath]
    exact List.mem_cons_self ..
  refine { h.toCollected with
    computing := h.computing
    known := h.known
    bounded := h.bounded
    ordered := h.ordered
    part := hpart.trans h.part
    links := fun hpending => h.links ((pending_leave hpath).mpr hpending)
    seen := fun hother hlink hnot => h.seen hother hlink fun hp => hnot ((pending_leave hpath).mp hp)
    closed := h.closed
    reaches := fun other hother => h.reaches other (hpart.subset hother)
    returns := ?_
    attained := fun other hother => h.attained other (hpart.subset hother)
    noted := ?_ }
  · intro other hother
    obtain ⟨first, hfirst, hle, hreach⟩ := h.returns other hother
    by_cases heq : search.number first < search.number id
    · exact ⟨first, (h.mem_leave hpath).mpr ⟨hfirst, heq⟩, hle, hreach⟩
    · -- the way back led to the node that is left, and leads on to where its noted number is
      have hlast : first = id := by
        have hbefore : first ∉ ({ search with path } : Search).onPath :=
          fun hmem => heq ((h.mem_leave hpath).mp hmem).2
        rw [onPath_leave hpath] at hfirst
        exact (List.mem_cons.mp hfirst).resolve_right hbefore
      subst hlast
      obtain ⟨_, below, hbelow, hnumber, hreach'⟩ := h.attained first hid
      obtain ⟨second, hsecond, hle', hreach''⟩ := h.returns below hbelow
      refine ⟨second, (h.mem_leave hpath).mpr ⟨hsecond, by omega⟩, ?_, ?_⟩
      · show search.number second ≤ search.number other
        omega
      · exact hreach.trans (hreach'.trans hreach'')
  · intro first hfirst other hother hle target htarget hlink hnot
    obtain ⟨between, hbetween, hge, hle', hlow'⟩ :=
      h.noted first (hpart.subset hfirst) other hother hle target htarget hlink
        fun hp => hnot ((pending_leave hpath).mp hp)
    rw [onPath_leave hpath] at hbetween
    rcases List.mem_cons.mp hbetween with heq | hbefore
    · -- what was noted for the node that is left is noted for the node before it
      subst heq
      cases path with
      | nil => cases hfirst
      | cons parent more =>
          have hmem : parent.node ∈ ({ search with path := parent :: more } : Search).onPath :=
            List.mem_cons_self ..
          have hlt := ((h.mem_leave hpath).mp hmem).2
          have hnext : Stacked topology settled { search with path := parent :: more } :=
            ⟨h.computing, h.known, h.bounded, h.ordered, hpart.trans h.part⟩
          have hfirst' : search.number first ≤ search.number parent.node := hnext.le_last rfl hfirst
          refine ⟨parent.node, hmem, hfirst', hlt.le.trans hle', ?_⟩
          exact (hparent parent more rfl).trans hlow'
    · exact ⟨between, hbefore, hge, hle', hlow'⟩

end Leave

end DecisionGraph

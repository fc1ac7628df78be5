import DecisionGraph.Proofs.Topology.Search

/-!
# All cycles are found

The second half of the proof about the search. When a component is complete, the invariant goes on
to hold without it (`Searching.complete`), so it holds after every step (`Searching.step`). Each step
uses up one of the links and nodes that are ahead (`Search.ahead`), hence every walk ends, with an
empty path and so with an empty stack. Each node that is not settled has then been completed, and
`Topology.findCycles_perm` says that the cycles found are the cycles of the topology.
-/

namespace DecisionGraph

open Relation

/-! ## Completing a component -/

section Complete

variable {topology : Topology} {settled : List String} {search : Search} {id : String}
  {path : List Frame}

/-- Links lead from complete components to complete components. -/
theorem Explored.fresh_of_reaches (h : Explored topology search) {first other : String}
    (hfresh : search.visit first = .fresh) (hpath : ReflTransGen topology.Linked first other) :
    search.visit other = .fresh := by
  induction hpath with
  | refl => exact hfresh
  | tail _ hlink ih => exact h.closed ih hlink

/-- Nothing in the section of the last node has links that are left to look at. -/
theorem Stacked.not_pending (h : Stacked topology settled search)
    (hpath : search.path = ⟨id, []⟩ :: path) {other target : String}
    (hle : search.number id ≤ search.number other) : ¬search.Pending other target := by
  intro hpending
  have hbefore := ((pending_leave hpath).mp hpending).onPath
  have hlt := ((h.mem_leave hpath).mp hbefore).2
  omega

/--
**The section of a node that leads to nothing below itself is closed,** but for complete components.

A link to a node that waits is noted for a node of the path that is not below, and there is only the
last one.
-/
theorem Searching.section_closed (h : Searching topology settled search)
    (hpath : search.path = ⟨id, []⟩ :: path) (hlow : search.low id = search.number id)
    {other target : String} (hother : other ∈ search.stack)
    (hle : search.number id ≤ search.number other) (hlink : topology.Linked other target) :
    (target ∈ search.stack ∧ search.number id ≤ search.number target)
      ∨ search.visit target = .fresh := by
  have hid : id ∈ search.onPath := by
    rw [onPath_leave hpath]
    exact List.mem_cons_self ..
  have hlooked : ¬search.Pending other target := h.not_pending hpath hle
  cases hvisit : search.visit target with
  | stale => exact absurd hvisit (h.seen hother hlink hlooked)
  | fresh => exact Or.inr rfl
  | computing =>
      have htarget := (h.computing target).mp hvisit
      obtain ⟨between, hbetween, hge, _, hnoted⟩ :=
        h.noted id hid other hother hle target htarget hlink hlooked
      have hlast : between = id := by
        rw [onPath_leave hpath] at hbetween
        refine (List.mem_cons.mp hbetween).resolve_right fun hbefore => ?_
        have hlt := ((h.mem_leave hpath).mp hbefore).2
        omega
      rw [hlast, hlow] at hnoted
      exact Or.inl ⟨htarget, hnoted⟩

/-- **The section is the component of the node.** -/
theorem Searching.section_eq (h : Searching topology settled search)
    (hpath : search.path = ⟨id, []⟩ :: path) (hlow : search.low id = search.number id)
    (other : String) :
    (other ∈ search.stack ∧ search.number id ≤ search.number other)
      ↔ topology.Together id other := by
  have hid : id ∈ search.onPath := by
    rw [onPath_leave hpath]
    exact List.mem_cons_self ..
  have hwaits := h.part.subset hid
  constructor
  · intro ⟨hother, hle⟩
    refine ⟨h.reaches id hid other hother hle, ?_⟩
    -- the way back leads to a node of the path, from where links lead to the last one
    obtain ⟨first, hfirst, _, hback⟩ := h.returns other hother
    exact hback.trans (h.reaches first hfirst id hwaits (h.le_last hpath hfirst))
  · intro ⟨hto, hback⟩
    have hreached : (other ∈ search.stack ∧ search.number id ≤ search.number other)
        ∨ search.visit other = .fresh := by
      clear hback
      induction hto with
      | refl => exact Or.inl ⟨hwaits, Nat.le_refl _⟩
      | tail _ hlink ih =>
          rcases ih with ⟨hmem, hle⟩ | hfresh
          · exact h.section_closed hpath hlow hmem hle hlink
          · exact Or.inr (h.closed hfresh hlink)
    refine hreached.resolve_right fun hfresh => ?_
    have hcomplete := h.fresh_of_reaches hfresh hback
    rw [(h.computing id).mpr hwaits] at hcomplete
    cases hcomplete

/-- What is popped off the stack is the component. -/
theorem Searching.mem_popped (h : Searching topology settled search)
    (hpath : search.path = ⟨id, []⟩ :: path) (hlow : search.low id = search.number id)
    (other : String) : other ∈ (Search.popTo id search.stack).1 ↔ topology.Together id other := by
  rw [Search.popTo_eq search.number h.ordered (h.lt_last hpath).1, List.mem_filter,
    decide_eq_true_eq]
  exact h.section_eq hpath hlow other

/-- What is left on the stack are the nodes below. -/
theorem Stacked.mem_left (h : Stacked topology settled search)
    (hpath : search.path = ⟨id, []⟩ :: path) (other : String) :
    other ∈ (Search.popTo id search.stack).2
      ↔ other ∈ search.stack ∧ search.number other < search.number id := by
  rw [Search.popTo_eq search.number h.ordered (h.lt_last hpath).1, List.mem_filter,
    decide_eq_true_eq]

theorem Searching.visit_complete (h : Searching topology settled search)
    (hpath : search.path = ⟨id, []⟩ :: path) (hlow : search.low id = search.number id)
    (other : String) :
    (topology.Together id other
        ∧ (({ search with path } : Search).complete topology id).visit other = .fresh)
      ∨ (¬topology.Together id other
        ∧ (({ search with path } : Search).complete topology id).visit other
          = search.visit other) := by
  rw [Search.visit_complete]
  by_cases hmem : other ∈ (Search.popTo id search.stack).1
  · exact Or.inl ⟨(h.mem_popped hpath hlow other).mp hmem, if_pos hmem⟩
  · exact Or.inr ⟨fun ht => hmem ((h.mem_popped hpath hlow other).mpr ht), if_neg hmem⟩

theorem Searching.stacked_complete (h : Searching topology settled search)
    (hpath : search.path = ⟨id, []⟩ :: path) (hlow : search.low id = search.number id) :
    Stacked topology settled (({ search with path } : Search).complete topology id) := by
  have hleft := h.mem_left hpath
  refine ⟨?_, ?_, ?_, ?_, ?_⟩
  · intro other
    refine Iff.trans ?_ (hleft other).symm
    rcases h.visit_complete hpath hlow other with ⟨htogether, hvisit⟩ | ⟨hapart, hvisit⟩
    · have hle := ((h.section_eq hpath hlow other).mpr htogether).2
      rw [hvisit]
      exact iff_of_false (fun heq => by cases heq) fun hmem => Nat.not_le.mpr hmem.2 hle
    · rw [hvisit, h.computing]
      refine ⟨fun hmem => ⟨hmem, Nat.lt_of_not_le fun hle => ?_⟩, And.left⟩
      exact hapart ((h.section_eq hpath hlow other).mp ⟨hmem, hle⟩)
  · exact fun other hother => h.known other ((hleft other).mp hother).1
  · exact fun other hother => h.bounded other ((hleft other).mp hother).1
  · show (Search.popTo id search.stack).2.Pairwise _
    rw [Search.popTo_eq search.number h.ordered (h.lt_last hpath).1]
    exact h.ordered.filter _
  · -- the rest of the path is the part of the path that is below
    have hbelow : search.onPath.filter (fun other => search.number other < search.number id)
        = ({ search with path } : Search).onPath := by
      rw [onPath_leave hpath, List.filter_cons_of_neg (by simp)]
      refine List.filter_eq_self.mpr fun other hother => ?_
      simpa using ((h.mem_leave hpath).mp hother).2
    show ({ search with path } : Search).onPath.Sublist (Search.popTo id search.stack).2
    rw [Search.popTo_eq search.number h.ordered (h.lt_last hpath).1, ← hbelow]
    exact h.part.filter _

theorem Searching.explored_complete (h : Searching topology settled search)
    (hpath : search.path = ⟨id, []⟩ :: path) (hlow : search.low id = search.number id) :
    Explored topology (({ search with path } : Search).complete topology id) := by
  have hvisit := h.visit_complete hpath hlow
  refine ⟨fun hpending => h.links ((pending_leave hpath).mpr hpending), ?_, ?_⟩
  · intro other target hother hlink hnot
    have hseen := h.seen ((h.mem_left hpath other).mp hother).1 hlink
      fun hp => hnot ((pending_leave hpath).mp hp)
    rcases hvisit target with ⟨_, hfresh⟩ | ⟨_, hsame⟩
    · rw [hfresh]
      exact fun heq => by cases heq
    · rw [hsame]
      exact hseen
  · -- a link out of the section stays in it or leads to a component that is complete already
    intro other target hfresh hlink
    rcases hvisit target with ⟨_, htarget⟩ | ⟨hapart, htarget⟩
    · exact htarget
    · rw [htarget]
      rcases hvisit other with ⟨htogether, _⟩ | ⟨_, hsame⟩
      · obtain ⟨hmem, hle⟩ := (h.section_eq hpath hlow other).mpr htogether
        refine (h.section_closed hpath hlow hmem hle hlink).resolve_left fun hsection => ?_
        exact hapart ((h.section_eq hpath hlow target).mp hsection)
      · exact h.closed (hsame ▸ hfresh) hlink

theorem Searching.numbered_complete (h : Searching topology settled search)
    (hpath : search.path = ⟨id, []⟩ :: path) :
    Numbered topology (({ search with path } : Search).complete topology id) := by
  have hleft := h.mem_left hpath
  have hbelow := fun other => (h.mem_leave hpath : other ∈ _ ↔ _)
  refine ⟨?_, ?_, ?_, ?_⟩
  · intro first hfirst other hother
    exact h.reaches first ((hbelow first).mp hfirst).1 other ((hleft other).mp hother).1
  · intro other hother
    obtain ⟨hmem, hlt⟩ := (hleft other).mp hother
    obtain ⟨first, hfirst, hle, hback⟩ := h.returns other hmem
    exact ⟨first, (hbelow first).mpr ⟨hfirst, hle.trans_lt hlt⟩, hle, hback⟩
  · intro first hfirst
    obtain ⟨hmem, hlt⟩ := (hbelow first).mp hfirst
    obtain ⟨hle, other, hother, hnumber, hreach⟩ := h.attained first hmem
    -- the noted number is no higher than that of `first`, so its node is left on the stack
    refine ⟨hle, other, (hleft other).mpr ⟨hother, ?_⟩, hnumber, hreach⟩
    rw [hnumber]
    exact hle.trans_lt hlt
  · intro first hfirst other hother hle target htarget hlink hnot
    obtain ⟨hmem, hlt⟩ := (hleft other).mp hother
    obtain ⟨between, hbetween, hge, hle', hnoted⟩ :=
      h.noted first ((hbelow first).mp hfirst).1 other hmem hle target ((hleft target).mp htarget).1
        hlink fun hp => hnot ((pending_leave hpath).mp hp)
    exact ⟨between, (hbelow between).mpr ⟨hbetween, hle'.trans_lt hlt⟩, hge, hle', hnoted⟩

/-- A component is a cycle if it has several nodes or a link from its node to itself. -/
theorem Searching.isCycle_iff (h : Searching topology settled search)
    (hpath : search.path = ⟨id, []⟩ :: path) (hlow : search.low id = search.number id) :
    (1 < (Search.popTo id search.stack).1.length ∨ id ∈ topology.successors id)
      ↔ TransGen topology.Linked id id := by
  have hmem := h.mem_popped hpath hlow
  have hnodup : (Search.popTo id search.stack).1.Nodup := by
    rw [Search.popTo_eq search.number h.ordered (h.lt_last hpath).1]
    exact (h.ordered.imp fun hlt heq => by rw [heq] at hlt; exact Nat.lt_irrefl _ hlt).filter _
  constructor
  · intro hcase
    rcases hcase with hseveral | hself
    · have hone : (Search.popTo id search.stack).1 ≠ [id] := fun heq => by simp [heq] at hseveral
      have hnil : (Search.popTo id search.stack).1 ≠ [] := fun heq => by simp [heq] at hseveral
      obtain ⟨other, hother, hne⟩ := ((hnodup.ne_singleton_iff id).mp hone).resolve_left hnil
      obtain ⟨hto, hback⟩ := (hmem other).mp hother
      rcases reflTransGen_iff_eq_or_transGen.mp hto with heq | htrans
      · exact absurd heq hne
      · exact htrans.trans_left hback
    · exact .single (Topology.mem_successors.mp hself)
  · intro hcycle
    obtain ⟨source, hlink, htogether⟩ := Topology.exists_linked_together hcycle
    by_cases heq : source = id
    · exact Or.inr (Topology.mem_successors.mpr (heq ▸ hlink))
    · have hsub : [source, id] ⊆ (Search.popTo id search.stack).1 := by
        intro other hother
        rcases List.mem_cons.mp hother with heq' | hother
        · exact heq' ▸ (hmem source).mpr htogether
        · exact List.mem_singleton.mp hother ▸ (hmem id).mpr (.refl id)
      exact Or.inl (List.subperm_of_subset (by simpa using heq) hsub).length_le

/-- The cycle that is found is the component of the node. -/
theorem Searching.filter_popped (h : Searching topology settled search) (hw : topology.WellFormed)
    (hpath : search.path = ⟨id, []⟩ :: path) (hlow : search.low id = search.number id) :
    topology.ids.filter (· ∈ (Search.popTo id search.stack).1) = topology.component id := by
  have hid := (h.known id (h.lt_last hpath).1).1
  have hmem := fun other => (Topology.mem_component hw hid : other ∈ _ ↔ _)
  unfold Topology.component at hmem ⊢
  refine List.filter_congr fun other hother => decide_eq_decide.mpr ?_
  rw [h.mem_popped hpath hlow]
  simpa [hother] using (hmem other).symm

theorem Searching.collected_complete (h : Searching topology settled search)
    (hw : topology.WellFormed) (hpath : search.path = ⟨id, []⟩ :: path)
    (hlow : search.low id = search.number id) :
    Collected topology (({ search with path } : Search).complete topology id) := by
  have hvisit := h.visit_complete hpath hlow
  have hwaits := (h.lt_last hpath).1
  have hid := (h.known id hwaits).1
  have hold : ∀ other, search.visit other = .fresh →
      (({ search with path } : Search).complete topology id).visit other = .fresh := by
    intro other hfresh
    rcases hvisit other with ⟨_, hnew⟩ | ⟨_, hsame⟩
    · exact hnew
    · rw [hsame, hfresh]
  by_cases hcycle : TransGen topology.Linked id id
  · have hcycles : (({ search with path } : Search).complete topology id).cycles
        = search.cycles ++ [topology.component id] := by
      rw [← h.filter_popped hw hpath hlow]
      exact if_pos ((h.isCycle_iff hpath hlow).mpr hcycle)
    constructor
    · intro cycle
      rw [hcycles, List.mem_append, List.mem_singleton, h.cycles]
      constructor
      · intro hcase
        rcases hcase with ⟨other, hfresh, hon, heq⟩ | heq
        · exact ⟨other, hold other hfresh, hon, heq⟩
        · have hfresh := (hvisit id).resolve_right fun hapart => hapart.1 (.refl id)
          exact ⟨id, hfresh.2, hcycle, heq.symm⟩
      · intro ⟨other, hfresh, hon, heq⟩
        rcases hvisit other with ⟨htogether, _⟩ | ⟨_, hsame⟩
        · refine Or.inr (heq ▸ ?_)
          exact (htogether.component_eq hw hid (Topology.mem_ids_of_onCycle hw hon)).symm
        · exact Or.inl ⟨other, hsame ▸ hfresh, hon, heq⟩
    · rw [hcycles]
      refine List.nodup_append.mpr ⟨h.distinct, List.nodup_singleton _, ?_⟩
      intro cycle hmem cycle' hmem' heq
      rw [heq, List.mem_singleton.mp hmem', h.cycles] at hmem
      obtain ⟨other, hfresh, hon, hsame⟩ := hmem
      -- the component would have been complete, but its node waits
      have hself := (Topology.mem_component hw hid).mpr ⟨hid, .refl id⟩
      rw [← hsame, Topology.mem_component hw (Topology.mem_ids_of_onCycle hw hon)] at hself
      have hcomplete := h.fresh_of_reaches hfresh hself.2.1
      rw [(h.computing id).mpr hwaits] at hcomplete
      cases hcomplete
  · have hcycles : (({ search with path } : Search).complete topology id).cycles = search.cycles :=
      if_neg (mt (h.isCycle_iff hpath hlow).mp hcycle)
    constructor
    · intro cycle
      rw [hcycles, h.cycles]
      refine exists_congr fun other => ⟨fun hmem => ⟨hold other hmem.1, hmem.2⟩, fun hmem => ?_⟩
      rcases hvisit other with ⟨htogether, _⟩ | ⟨_, hsame⟩
      · exact absurd (htogether.symm.onCycle hmem.2.1) hcycle
      · exact ⟨hsame ▸ hmem.1, hmem.2⟩
    · rw [hcycles]
      exact h.distinct

/-- **Leaving a node that leads to nothing below itself keeps the invariant.** -/
theorem Searching.complete (h : Searching topology settled search) (hw : topology.WellFormed)
    (hpath : search.path = ⟨id, []⟩ :: path) (hlow : search.low id = search.number id) :
    Searching topology settled (({ search with path } : Search).complete topology id) :=
  { h.stacked_complete hpath hlow, h.explored_complete hpath hlow, h.numbered_complete hpath,
    h.collected_complete hw hpath hlow with }

end Complete

/-! ## Steps -/

namespace Search

variable {topology : Topology} {settled : List String}

theorem look_stale (search : Search) {source target : String} (hout : target ∉ settled)
    (hvisit : search.visit target = .stale) :
    look topology settled search source target = search.discover topology target := by
  unfold look
  rw [if_neg hout, hvisit]

theorem look_computing (search : Search) {source target : String} (hout : target ∉ settled)
    (hvisit : search.visit target = .computing) :
    look topology settled search source target = search.lower source (search.number target) := by
  unfold look
  rw [if_neg hout, hvisit]

theorem look_fresh (search : Search) {source target : String} (hout : target ∉ settled)
    (hvisit : search.visit target = .fresh) :
    look topology settled search source target = search := by
  unfold look
  rw [if_neg hout, hvisit]

end Search

section Step

variable {topology : Topology} {settled : List String} {search : Search} {id : String}
  {path : List Frame}

/-- **Looking at a link keeps the invariant.** Links from nodes that are not settled do not lead to
settled ones. -/
theorem Searching.step_look (h : Searching topology settled search) (hw : topology.WellFormed)
    (hsettled : ∀ {source target}, topology.Linked source target → target ∈ settled →
      source ∈ settled) {target : String} {left : List String}
    (hpath : search.path = ⟨id, target :: left⟩ :: path) :
    Searching topology settled
      (Search.look topology settled { search with path := ⟨id, left⟩ :: path } id target) := by
  have hwaits := (h.lt_last hpath).1
  have hid : id ∈ search.onPath := by
    unfold Search.onPath
    rw [hpath]
    exact List.mem_cons_self ..
  have hlink : topology.Linked id target :=
    h.links ⟨_, hpath ▸ List.mem_cons_self .., rfl, List.mem_cons_self ..⟩
  have hout : target ∉ settled := fun hin => (h.known id hwaits).2 (hsettled hlink hin)
  cases hvisit : search.visit target with
  | stale =>
      -- the link counts as looked at only when its target has been discovered, so that comes first
      rw [Search.look_stale { search with path := ⟨id, left⟩ :: path } hout hvisit]
      have hnew := h.discover hvisit (hw.target_mem hlink) hout fun other hother =>
        (h.reaches other hother id hwaits (h.le_last hpath hother)).tail hlink
      have hpath' : (search.discover topology target).path
          = [⟨target, topology.successors target⟩] ++ ⟨id, target :: left⟩ :: path := by
        show _ :: search.path = _
        rw [hpath]
        rfl
      refine hnew.look [_] hpath' ?_ fun _ => ?_
      · rw [Search.visit_discover, if_pos rfl]
        exact fun heq => by cases heq
      · have hne : target ≠ id := by
          intro heq
          rw [heq, (h.computing id).mpr hwaits] at hvisit
          cases hvisit
        rw [Search.low_discover, if_neg hne, Search.number_discover, if_pos rfl]
        exact (h.attained id hid).1.trans (h.bounded id hwaits).le
  | computing =>
      -- likewise the number of the target is noted first
      rw [Search.look_computing { search with path := ⟨id, left⟩ :: path } hout hvisit]
      have htarget := (h.computing target).mp hvisit
      have hlower := h.lower hid htarget (.single hlink)
      refine hlower.look [] hpath ?_ fun _ => ?_
      · show search.visit target ≠ .stale
        rw [hvisit]
        exact fun heq => by cases heq
      · rw [Search.low_lower, if_pos rfl]
        exact Nat.min_le_right ..
  | fresh =>
      rw [Search.look_fresh { search with path := ⟨id, left⟩ :: path } hout hvisit]
      refine h.look [] hpath ?_ fun htarget => ?_
      · rw [hvisit]
        exact fun heq => by cases heq
      · rw [← h.computing, hvisit] at htarget
        cases htarget

/-- **Leaving a node keeps the invariant.** -/
theorem Searching.step_leave (h : Searching topology settled search) (hw : topology.WellFormed)
    (hpath : search.path = ⟨id, []⟩ :: path) :
    Searching topology settled (Search.leave topology { search with path } id) := by
  have hid : id ∈ search.onPath := by
    rw [onPath_leave hpath]
    exact List.mem_cons_self ..
  obtain ⟨hle, other, hother, hnumber, hreach⟩ := h.attained id hid
  unfold Search.leave
  cases path with
  | nil =>
      show Searching topology settled (if search.low id = search.number id then _ else _)
      by_cases hlow : search.low id = search.number id
      · rw [if_pos hlow]
        exact h.complete hw hpath hlow
      · rw [if_neg hlow]
        exact h.leave hpath (lt_of_le_of_ne hle hlow) fun _ _ hnil => by cases hnil
  | cons parent more =>
      -- first the node before notes what the node leads to
      obtain ⟨hmem, hlt⟩ := (h.mem_leave hpath).mp (List.mem_cons_self .. : parent.node ∈ _)
      have hdown := h.reaches parent.node hmem id (h.lt_last hpath).1 hlt.le
      have hlower := h.lower hmem hother (hdown.trans hreach)
      rw [hnumber] at hlower
      have hne : parent.node ≠ id := fun heq => by
        rw [heq] at hlt
        exact Nat.lt_irrefl _ hlt
      have hsame : (search.lower parent.node (search.low id)).low id = search.low id := by
        rw [Search.low_lower, if_neg hne]
      show Searching topology settled
        (if (search.lower parent.node (search.low id)).low id = search.number id then _ else _)
      by_cases hlow : search.low id = search.number id
      · rw [if_pos (hsame.trans hlow)]
        exact hlower.complete hw hpath (hsame.trans hlow)
      · rw [if_neg fun heq => hlow (hsame.symm.trans heq)]
        have hbelow := hsame.trans_lt (lt_of_le_of_ne hle hlow)
        refine hlower.leave hpath hbelow fun parent' more' heq => ?_
        cases heq
        rw [hsame, Search.low_lower, if_pos rfl]
        exact Nat.min_le_right ..

/-- **Every step keeps the invariant.** -/
theorem Searching.step (h : Searching topology settled search) (hw : topology.WellFormed)
    (hsettled : ∀ {source target}, topology.Linked source target → target ∈ settled →
      source ∈ settled) : Searching topology settled (Search.step topology settled search) := by
  unfold Search.step
  split
  · exact h
  · rename_i id path hpath
    exact h.step_leave hw hpath
  · rename_i id target left path hpath
    exact h.step_look hw hsettled hpath

end Step

/-! ## Runs -/

namespace Search

variable {topology : Topology} {settled : List String}

/-- The rounds that are ahead: one for each link out of a node that has not been discovered and for
each such node, and for each link that is left on the path and each node there. -/
def ahead (topology : Topology) (search : Search) : Nat :=
  topology.links.countP (fun link => search.visit link.source = .stale)
    + topology.ids.countP (fun id => search.visit id = .stale)
    + ((search.path.flatMap Frame.left).length + search.path.length)

/-- The last node of the path takes a round for each link that is left, and one for leaving it. -/
theorem length_path {search : Search} {last : Frame} {path : List Frame}
    (hpath : search.path = last :: path) :
    (search.path.flatMap Frame.left).length + search.path.length
      = (path.flatMap Frame.left).length + path.length + (last.left.length + 1) := by
  rw [hpath, List.flatMap_cons, List.length_append, List.length_cons]
  omega

theorem ahead_cons {search : Search} {last : Frame} {path : List Frame}
    (hpath : search.path = last :: path) :
    search.ahead topology
      = ({ search with path } : Search).ahead topology + (last.left.length + 1) := by
  unfold ahead
  rw [length_path hpath, ← Nat.add_assoc]
  rfl

/-- What is counted for a node stops being counted when the node is discovered. -/
theorem countP_discover {α : Type} (topology : Topology) {search : Search} {id : String}
    (hstale : search.visit id = .stale) (node : α → String) (items : List α) :
    items.countP (fun item => search.visit (node item) = .stale)
      = items.countP (fun item => (search.discover topology id).visit (node item) = .stale)
        + items.countP fun item => node item = id := by
  induction items with
  | nil => rfl
  | cons item rest ih =>
      rw [List.countP_cons, List.countP_cons, List.countP_cons, ih, visit_discover]
      by_cases heq : id = node item
      · simp [← heq, hstale, Nat.add_assoc]
      · simp [heq, Ne.symm heq, Nat.add_right_comm]

/-- Discovering a node only moves its rounds to the path. -/
theorem ahead_discover (hw : topology.WellFormed) (search : Search) {id : String}
    (hid : id ∈ topology.ids) (hstale : search.visit id = .stale) :
    (search.discover topology id).ahead topology = search.ahead topology := by
  have hlinks := countP_discover topology hstale Link.source topology.links
  have hids : topology.ids.countP (fun other => search.visit other = .stale)
      = topology.ids.countP (fun other => (search.discover topology id).visit other = .stale)
        + topology.ids.countP fun other => other = id :=
    countP_discover topology hstale (fun other => other) topology.ids
  have hout : (topology.links.countP fun link => link.source = id)
      = (topology.successors id).length := by
    unfold Topology.successors
    rw [List.length_map, List.countP_eq_length_filter]
  have hone : (topology.ids.countP fun other => other = id) = 1 :=
    List.count_eq_one_of_mem hw.distinct hid
  have hdiscovered : (search.discover topology id).path
      = ⟨id, topology.successors id⟩ :: search.path := rfl
  have hpath := length_path hdiscovered
  dsimp only at hpath
  unfold ahead
  omega

/-- Completing a component discovers nothing. -/
theorem ahead_complete (search : Search) (id : String) :
    (search.complete topology id).ahead topology ≤ search.ahead topology := by
  have hseen : ∀ other, (search.complete topology id).visit other = .stale →
      search.visit other = .stale := by
    intro other hstale
    rw [visit_complete] at hstale
    by_cases hmem : other ∈ (popTo id search.stack).1
    · rw [if_pos hmem] at hstale
      cases hstale
    · rwa [if_neg hmem] at hstale
  refine Nat.add_le_add_right (Nat.add_le_add ?_ ?_) _
  · exact List.countP_mono_left fun link _ h => by simpa using hseen _ (by simpa using h)
  · exact List.countP_mono_left fun other _ h => by simpa using hseen _ (by simpa using h)

theorem ahead_leave (search : Search) (id : String) :
    (search.leave topology id).ahead topology ≤ search.ahead topology := by
  unfold leave
  cases search.path with
  | nil =>
      dsimp only
      split
      · exact ahead_complete search id
      · exact Nat.le_refl _
  | cons parent more =>
      dsimp only
      split
      · exact ahead_complete (search.lower parent.node (search.low id)) id
      · exact Nat.le_refl _

theorem ahead_look (hw : topology.WellFormed) (search : Search) (source : String) {target : String}
    (htarget : target ∈ topology.ids) :
    (look topology settled search source target).ahead topology = search.ahead topology := by
  unfold look
  split
  · rfl
  · split
    · rename_i hstale
      exact ahead_discover hw search htarget hstale
    · rfl
    · rfl

/-- What has been discovered once stays so. -/
theorem seen_discover (search : Search) {id other : String} (h : search.visit other ≠ .stale) :
    (search.discover topology id).visit other ≠ .stale := by
  rw [visit_discover]
  by_cases heq : id = other
  · rw [if_pos heq]
    exact fun heq => by cases heq
  · rw [if_neg heq]
    exact h

theorem seen_complete (search : Search) {id other : String} (h : search.visit other ≠ .stale) :
    (search.complete topology id).visit other ≠ .stale := by
  rw [visit_complete]
  by_cases hmem : other ∈ (popTo id search.stack).1
  · rw [if_pos hmem]
    exact fun heq => by cases heq
  · rw [if_neg hmem]
    exact h

theorem seen_step (search : Search) {other : String} (h : search.visit other ≠ .stale) :
    (step topology settled search).visit other ≠ .stale := by
  unfold step
  split
  · exact h
  · unfold leave
    dsimp only
    split
    · split
      · exact seen_complete { search with path := [] } h
      · exact h
    · split
      · exact seen_complete (lower { search with path := _ :: _ } _ _) h
      · exact h
  · rename_i id target left path _
    unfold look
    split
    · exact h
    · split
      · exact seen_discover { search with path := ⟨id, left⟩ :: path } h
      · exact h
      · exact h

end Search

section Run

variable {topology : Topology} {settled : List String} {search : Search}

/-- **A step uses up one of the rounds that are ahead.** -/
theorem Searching.ahead_step (h : Searching topology settled search) (hw : topology.WellFormed)
    (hpath : search.path ≠ []) :
    (Search.step topology settled search).ahead topology + 1 ≤ search.ahead topology := by
  unfold Search.step
  split
  · rename_i hnil
    exact absurd hnil hpath
  · rename_i id path hpath
    rw [Search.ahead_cons hpath]
    exact Nat.add_le_add_right (Search.ahead_leave _ id) 1
  · rename_i id target left path hpath
    have hlink : topology.Linked id target :=
      h.links ⟨_, hpath ▸ List.mem_cons_self .., rfl, List.mem_cons_self ..⟩
    have hless : ({ search with path := ⟨id, left⟩ :: path } : Search).ahead topology
        = ({ search with path } : Search).ahead topology + (left.length + 1) := by
      have hpath' : ({ search with path := ⟨id, left⟩ :: path } : Search).path
          = ⟨id, left⟩ :: path := rfl
      exact Search.ahead_cons hpath'
    rw [Search.ahead_look hw _ _ (hw.target_mem hlink), Search.ahead_cons hpath, hless,
      List.length_cons, Nat.add_assoc]

/-- **A walk ends with an empty path** if it has as many rounds as are ahead. -/
theorem Searching.run (hw : topology.WellFormed)
    (hsettled : ∀ {source target}, topology.Linked source target → target ∈ settled →
      source ∈ settled) (room : Nat) (h : Searching topology settled search)
    (hroom : search.ahead topology ≤ room) :
    Searching topology settled (Search.run topology settled room search)
      ∧ (Search.run topology settled room search).path = []
      ∧ ∀ id, search.visit id ≠ .stale →
        (Search.run topology settled room search).visit id ≠ .stale := by
  induction room generalizing search with
  | zero =>
      refine ⟨h, Classical.byContradiction fun hpath => ?_, fun _ hseen => hseen⟩
      have hstep := h.ahead_step hw hpath
      omega
  | succ room ih =>
      unfold Search.run
      by_cases hpath : search.path = []
      · rw [if_pos (by rw [hpath]; rfl)]
        exact ⟨h, hpath, fun _ hseen => hseen⟩
      · have hstep := h.ahead_step hw hpath
        rw [if_neg (by simpa using hpath)]
        obtain ⟨hend, hnil, hseen⟩ := ih (h.step hw hsettled) (by omega)
        exact ⟨hend, hnil, fun id hid => hseen id (search.seen_step hid)⟩

/-- A search with an empty path has completed all that it has discovered. -/
theorem Searching.fresh (h : Searching topology settled search) (hpath : search.path = [])
    {id : String} (hseen : search.visit id ≠ .stale) : search.visit id = .fresh := by
  cases hvisit : search.visit id with
  | stale => exact absurd hvisit hseen
  | fresh => rfl
  | computing =>
      obtain ⟨other, hother, _⟩ := h.returns id ((h.computing id).mp hvisit)
      unfold Search.onPath at hother
      rw [hpath] at hother
      cases hother

/-- A search that starts with an empty path has all the rounds that it needs. -/
theorem Search.ahead_le_rounds (hpath : search.path = []) :
    search.ahead topology ≤ topology.rounds := by
  unfold Search.ahead Topology.rounds
  rw [hpath, List.flatMap_nil, List.length_nil, List.length_nil, Nat.add_zero]
  exact Nat.add_le_add List.countP_le_length List.countP_le_length

theorem Searching.searchFrom (h : Searching topology settled search) (hw : topology.WellFormed)
    (hsettled : ∀ {source target}, topology.Linked source target → target ∈ settled →
      source ∈ settled) (hpath : search.path = []) {root : String} (hroot : root ∈ topology.ids) :
    Searching topology settled (topology.searchFrom settled search root)
      ∧ (topology.searchFrom settled search root).path = []
      ∧ ∀ id, search.visit id ≠ .stale ∨ id = root ∧ root ∉ settled →
        (topology.searchFrom settled search root).visit id ≠ .stale := by
  unfold Topology.searchFrom
  by_cases hskip : root ∈ settled ∨ search.visit root ≠ .stale
  · rw [if_pos hskip]
    refine ⟨h, hpath, fun id hid => ?_⟩
    rcases hid with hseen | ⟨heq, hout⟩
    · exact hseen
    · exact heq ▸ hskip.resolve_left hout
  · -- with an empty path nothing is asked of the new node
    rw [if_neg hskip]
    obtain ⟨hout, hstale⟩ := not_or.mp hskip
    rw [not_not] at hstale
    have hroom : (search.discover topology root).ahead topology ≤ topology.rounds :=
      (Search.ahead_discover hw search hroot hstale).trans_le (Search.ahead_le_rounds hpath)
    have hstart := h.discover hstale hroot hout fun other hother => by
      unfold Search.onPath at hother
      rw [hpath] at hother
      cases hother
    obtain ⟨hend, hnil, hseen⟩ := hstart.run hw hsettled topology.rounds hroom
    refine ⟨hend, hnil, fun id hid => hseen id ?_⟩
    rcases hid with hid | ⟨heq, _⟩
    · exact search.seen_discover hid
    · rw [heq, Search.visit_discover, if_pos rfl]
      exact fun heq => by cases heq

/-- **Searching from some nodes completes them,** unless they are settled. -/
theorem Searching.searches (h : Searching topology settled search) (hw : topology.WellFormed)
    (hsettled : ∀ {source target}, topology.Linked source target → target ∈ settled →
      source ∈ settled) (hpath : search.path = []) (roots : List String)
    (hroots : ∀ root ∈ roots, root ∈ topology.ids) :
    Searching topology settled (roots.foldl (topology.searchFrom settled) search)
      ∧ ∀ id, search.visit id ≠ .stale ∨ id ∈ roots ∧ id ∉ settled →
        (roots.foldl (topology.searchFrom settled) search).visit id = .fresh := by
  induction roots generalizing search with
  | nil => exact ⟨h, fun id hid => h.fresh hpath (hid.resolve_right fun hmem => by cases hmem.1)⟩
  | cons root rest ih =>
      obtain ⟨hnext, hnil, hseen⟩ :=
        h.searchFrom hw hsettled hpath (hroots root (List.mem_cons_self ..))
      obtain ⟨hend, hfresh⟩ :=
        ih hnext hnil fun other hother => hroots other (List.mem_cons_of_mem _ hother)
      refine ⟨hend, fun id hid => hfresh id ?_⟩
      rcases hid with hid | ⟨hmem, hout⟩
      · exact Or.inl (hseen id (Or.inl hid))
      · rcases List.mem_cons.mp hmem with heq | hrest
        · exact Or.inl (hseen id (Or.inr ⟨heq, heq ▸ hout⟩))
        · exact Or.inr ⟨hrest, hout⟩

/--
**The search finds the cycles of the topology,** when no link leads from a node that is not settled
to one that is, and no node on a cycle is settled.
-/
theorem Topology.findCycles_perm (hw : topology.WellFormed)
    (hsettled : ∀ {source target}, topology.Linked source target → target ∈ settled →
      source ∈ settled)
    (hcycle : ∀ id, TransGen topology.Linked id id → id ∉ settled) :
    (topology.findCycles settled).Perm topology.cycles := by
  obtain ⟨hend, hfresh⟩ := searching_start.searches hw hsettled rfl topology.ids fun _ hid => hid
  refine (List.mergeSort_perm _ _).trans ?_
  refine (List.perm_ext_iff_of_nodup hend.distinct (nodup_cycles topology)).mpr fun cycle => ?_
  rw [hend.cycles, mem_cycles hw]
  refine exists_congr fun id => and_iff_right_of_imp fun h => ?_
  exact hfresh id (Or.inr ⟨mem_ids_of_onCycle hw h.1, hcycle id h.1⟩)

end Run

end DecisionGraph

import DecisionGraph.Issue
import Mathlib.Data.List.Perm.Subperm

/-!
# Reports of issues

A report is a set in order: it has the issues that it was made of, and each of them once. The second
half is where the order matters, since `Issue.insert` looks for a repetition only up to the place
where the issue belongs.
-/

namespace DecisionGraph.Issue

/-- The key of an issue tells everything about it. -/
theorem key_injective {a b : Issue} (h : a.key = b.key) : a = b := by
  cases a <;> cases b <;> simp_all [key]

instance : Std.TransCmp Issue.compare :=
  inferInstanceAs (Std.TransCmp (compareLex (compareOn fun issue : Issue => issue.key.1)
    (compareOn fun issue : Issue => issue.key.2)))

theorem compare_eq_iff {a b : Issue} : compare a b = .eq ↔ a = b := by
  constructor
  · intro h
    obtain ⟨hform, hparts⟩ := Ordering.then_eq_eq.mp h
    exact key_injective (Prod.ext (Std.LawfulEqOrd.eq_of_compare hform)
      (Std.LawfulEqOrd.eq_of_compare hparts))
  · intro heq
    rw [heq]
    exact Std.ReflCmp.compare_self

theorem mem_insert {issue other : Issue} {issues : List Issue} :
    other ∈ insert issue issues ↔ other = issue ∨ other ∈ issues := by
  induction issues with
  | nil => simp [insert]
  | cons first rest ih =>
      unfold insert
      split
      · exact List.mem_cons
      · -- nothing is added, since the issue is there already
        rename_i heq
        rw [compare_eq_iff] at heq
        subst heq
        simp
      · rw [List.mem_cons, ih, List.mem_cons]
        exact or_left_comm

/-- The issues of a list stand in ascending order, so each stands once. -/
def Ascending (issues : List Issue) : Prop := issues.Pairwise fun a b => compare a b = .lt

theorem Ascending.insert {issues : List Issue} (h : Ascending issues) (issue : Issue) :
    Ascending (Issue.insert issue issues) := by
  induction issues with
  | nil => exact List.pairwise_singleton _ _
  | cons first rest ih =>
      obtain ⟨hfirst, hrest⟩ := List.pairwise_cons.mp h
      unfold Issue.insert
      split
      · rename_i hlt
        refine List.pairwise_cons.mpr ⟨?_, h⟩
        intro other hmem
        rcases List.mem_cons.mp hmem with heq | hmem
        · rw [heq]; exact hlt
        · exact Std.TransCmp.lt_trans hlt (hfirst other hmem)
      · exact h
      · -- the new issue comes in further down, but behind the first one all the same
        rename_i hgt
        refine List.pairwise_cons.mpr ⟨?_, ih hrest⟩
        intro other hmem
        rcases mem_insert.mp hmem with heq | hmem
        · rw [heq]; exact Std.OrientedCmp.lt_of_gt hgt
        · exact hfirst other hmem

/-- A report has the issues that it was made of. -/
theorem mem_report {issue : Issue} {issues : List Issue} : issue ∈ report issues ↔ issue ∈ issues := by
  have key : ∀ reported : List Issue,
      issue ∈ issues.foldl (fun reported issue => insert issue reported) reported
        ↔ issue ∈ reported ∨ issue ∈ issues := by
    induction issues with
    | nil => intro reported; simp
    | cons first rest ih =>
        intro reported
        rw [List.foldl_cons, ih, mem_insert, List.mem_cons, or_assoc]
        exact or_left_comm
  simpa [report] using key []

theorem ascending_report (issues : List Issue) : Ascending (report issues) := by
  have key : ∀ reported : List Issue, Ascending reported →
      Ascending (issues.foldl (fun reported issue => insert issue reported) reported) := by
    induction issues with
    | nil => exact fun _ h => h
    | cons first rest ih => exact fun reported h => ih _ (h.insert first)
  exact key [] List.Pairwise.nil

/-- In an ascending list each issue stands once. -/
theorem Ascending.nodup {issues : List Issue} (h : Ascending issues) : issues.Nodup := by
  refine List.Pairwise.imp ?_ h
  intro a b hlt heq
  rw [compare_eq_iff.mpr heq] at hlt
  cases hlt

/-- There is one way only to put issues in order. -/
theorem Ascending.ext {first second : List Issue} (h : Ascending first) (h' : Ascending second)
    (hmem : ∀ issue, issue ∈ first ↔ issue ∈ second) : first = second := by
  refine List.Perm.eq_of_pairwise ?_ h h' ((List.perm_ext_iff_of_nodup h.nodup h'.nodup).mpr hmem)
  intro a b _ _ hlt hgt
  rw [Std.OrientedCmp.gt_of_lt hgt] at hlt
  cases hlt

/-- Reports of the same issues are one report. -/
theorem report_congr {first second : List Issue} (h : ∀ issue, issue ∈ first ↔ issue ∈ second) :
    report first = report second :=
  (ascending_report first).ext (ascending_report second) fun issue => by
    rw [mem_report, mem_report, h]

/-- **A report has each issue once.** -/
theorem nodup_report (issues : List Issue) : (report issues).Nodup := (ascending_report issues).nodup

end DecisionGraph.Issue

/-
# An OR of equalities on one column

The binder turns `c = a OR c = b OR c IN (…)` on one column into one IN predicate
(`sameColumnMembership`), so that it can be pushed down.  Whether that is the same condition depends
on how a single predicate is read.  What the rewriting relies on is little: only column, alias,
operator and values matter, `= v` is `IN (v)`, and an IN over two lists is TRUE where one of the two
is (`ReadsInAsOr`).  Under every such reading the rewritten predicate is TRUE exactly where the OR
is (`sameColumnMembership_truth`).
-/
import MldpDriver.Query.LogicalPlanner

namespace MldpDriver.Query.LogicalPlanner

open Binder List

/-! ## 1. Cells -/

theorem truth_beq_ofBool (b : Bool) : (Truth.ofBool b == .trueValue) = b := by
  cases b <;> rfl

/-- `= v` is `IN (v)`. -/
theorem scalarMatches_eq (cell : Cell) (column : String) (v : Literal) :
    scalarMatchesPredicate cell ⟨column, .EQ, [v]⟩ =
      scalarMatchesPredicate cell ⟨column, .IN, [v]⟩ := by
  simp only [scalarMatchesPredicate, any_cons, any_nil, Bool.or_false]

theorem scalarMatches_append (cell : Cell) (column : String) (vs ws : List Literal) :
    scalarMatchesPredicate cell ⟨column, .IN, vs ++ ws⟩ =
      (scalarMatchesPredicate cell ⟨column, .IN, vs⟩ ||
        scalarMatchesPredicate cell ⟨column, .IN, ws⟩) := by
  simp only [scalarMatchesPredicate]
  split <;> simp

theorem listContains_eq (cell : Cell) (column : String) (v : Literal) :
    listContainsPredicateValue cell ⟨column, .EQ, [v]⟩ =
      listContainsPredicateValue cell ⟨column, .IN, [v]⟩ := by
  cases cell with
  | scalar => rfl
  | list values => simp only [listContainsPredicateValue, scalarMatches_eq]

theorem listContains_append (cell : Cell) (column : String) (vs ws : List Literal) :
    listContainsPredicateValue cell ⟨column, .IN, vs ++ ws⟩ =
      (listContainsPredicateValue cell ⟨column, .IN, vs⟩ ||
        listContainsPredicateValue cell ⟨column, .IN, ws⟩) := by
  cases cell with
  | scalar => rfl
  | list values =>
    simp only [listContainsPredicateValue, scalarMatches_append]
    induction values with
    | nil => rfl
    | cons v values ih =>
      simp only [any_cons, ih]
      ac_rfl

/-! ## 2. Readings of a predicate -/

/-- A leaf that says `=` has one value. -/
def SingleValued (p : PlannerPredicate) : Prop := p.op = .EQ → ∃ v, p.values = [v]

/-- **A reading under which IN is an OR of equalities.** -/
structure ReadsInAsOr (truth : PlannerPredicate → Truth) : Prop where
  congr : ∀ {p q : PlannerPredicate}, p.tableAlias = q.tableAlias →
    p.toExecutable = q.toExecutable → truth p = truth q
  eq_in : ∀ (p : PlannerPredicate) (v : Literal), p.op = .EQ → p.values = [v] →
    (truth p == .trueValue) = (truth { p with op := .IN } == .trueValue)
  append : ∀ (p : PlannerPredicate) (vs ws : List Literal), p.op = .IN →
    (truth { p with values := vs ++ ws } == .trueValue) =
      ((truth { p with values := vs } == .trueValue) ||
        (truth { p with values := ws } == .trueValue))

section Reading

variable {truth : PlannerPredicate → Truth}

/-- What the merged IN says so far. -/
def mergedTrue (truth : PlannerPredicate → Truth) (merged : Option PlannerPredicate) : Bool :=
  merged.any fun p => truth p == .trueValue

/-- The merged predicate is an IN under the alias of one of the leaves. -/
def MergedFrom (aliases : List String) (merged : Option PlannerPredicate) : Prop :=
  ∀ m, merged = some m → m.op = .IN ∧ m.tableAlias ∈ aliases

theorem ReadsInAsOr.as_in (h : ReadsInAsOr truth) {p : PlannerPredicate}
    (hop : p.op = .EQ ∨ p.op = .IN) (hp : SingleValued p) :
    (truth p == .trueValue) = (truth { p with op := .IN } == .trueValue) := by
  rcases hop with hop | hop
  · obtain ⟨v, hv⟩ := hp hop
    exact h.eq_in p v hop hv
  · rw [← hop]

variable {aliases : List String}

theorem mergeMember_truth (h : ReadsInAsOr truth) {merged merged' : Option PlannerPredicate}
    {child : PlannerPredicateGroup}
    (hleaf : ∀ p ∈ child.leaves, SingleValued p ∧ p.tableAlias ∈ aliases)
    (hm : MergedFrom aliases merged) (hmerge : mergeMember merged child = some merged') :
    MergedFrom aliases merged' ∧
      mergedTrue truth merged' =
        (mergedTrue truth merged || (groupTruth truth child == .trueValue)) := by
  cases child with
  | leaf leaf =>
    obtain ⟨hsingle, halias⟩ := hleaf leaf (by simp [PlannerPredicateGroup.leaves])
    simp only [mergeMember] at hmerge
    split at hmerge
    · rename_i hop
      have hin := h.as_in hop hsingle
      split at hmerge
      · obtain rfl := Option.some.inj hmerge
        refine ⟨fun m hm' => ?_, ?_⟩
        · obtain rfl := Option.some.inj hm'
          exact ⟨rfl, halias⟩
        · rw [groupTruth, hin]
          rfl
      · rename_i m
        split at hmerge
        · rename_i hsame
          obtain rfl := Option.some.inj hmerge
          obtain ⟨hmop, hmalias⟩ := hm m rfl
          refine ⟨fun m' hm' => ?_, ?_⟩
          · obtain rfl := Option.some.inj hm'
            exact ⟨hmop, hmalias⟩
          · have hleaf' : truth { leaf with op := .IN } = truth { m with values := leaf.values } :=
              h.congr hsame.2 (by simp only [PlannerPredicate.toExecutable, hsame.1, hmop])
            rw [groupTruth, hin, hleaf']
            exact h.append m m.values leaf.values hmop
        · simp at hmerge
    · simp at hmerge
  | not child | and children | or children => simp [mergeMember] at hmerge

theorem mergeMembers_truth (h : ReadsInAsOr truth) :
    ∀ {children : List PlannerPredicateGroup} {merged merged' : Option PlannerPredicate},
      (∀ p ∈ leavesOf children, SingleValued p ∧ p.tableAlias ∈ aliases) →
        MergedFrom aliases merged → children.foldlM mergeMember merged = some merged' →
          MergedFrom aliases merged' ∧
            mergedTrue truth merged' = (mergedTrue truth merged ||
              children.any fun child => groupTruth truth child == .trueValue)
  | [], merged, merged', _, hm, hmerge => by
    obtain rfl := Option.some.inj hmerge
    exact ⟨hm, by simp⟩
  | child :: rest, merged, merged', hleaf, hm, hmerge => by
    rw [foldlM_cons] at hmerge
    obtain ⟨next, hnext, hmerge⟩ := Option.bind_eq_some_iff.mp hmerge
    have hstep := mergeMember_truth h
      (fun p hp => hleaf p (mem_append_left _ hp)) hm hnext
    have hrest := mergeMembers_truth h
      (fun p hp => hleaf p (mem_append_right _ hp)) hstep.1 hmerge
    refine ⟨hrest.1, ?_⟩
    rw [hrest.2, hstep.2, any_cons, Bool.or_assoc]

theorem groupTruths_eq_map (f : PlannerPredicate → Truth) (groups : List PlannerPredicateGroup) :
    groupTruths f groups = groups.map (groupTruth f) := by
  induction groups with
  | nil => rfl
  | cons g groups ih => rw [groupTruths, ih, map_cons]

theorem connect_or_true (values : List Truth) :
    (connect .trueValue .falseValue values == .trueValue) = values.contains .trueValue := by
  unfold connect
  split
  · rename_i h
    rw [h]
    rfl
  · rename_i h
    rw [Bool.not_eq_true] at h
    rw [h]
    split <;> rfl

theorem groupTruth_or (truth : PlannerPredicate → Truth) (children : List PlannerPredicateGroup) :
    (groupTruth truth (.or children) == .trueValue) =
      children.any fun child => groupTruth truth child == .trueValue := by
  rw [groupTruth, groupTruths_eq_map, connect_or_true, Bool.eq_iff_iff]
  simp only [contains_iff_mem, mem_map, any_eq_true, beq_iff_eq]

/-- **An OR of equalities on one column is TRUE where its IN is.** -/
theorem sameColumnMembership_truth (h : ReadsInAsOr truth) {group : PlannerPredicateGroup}
    {p : PlannerPredicate} (hleaf : ∀ q ∈ group.leaves, SingleValued q ∧ q.tableAlias ∈ aliases)
    (hsame : sameColumnMembership group = some p) :
    (p.op = .IN ∧ p.tableAlias ∈ aliases) ∧
      (groupTruth truth group == .trueValue) = (truth p == .trueValue) := by
  cases group with
  | or children =>
    simp only [sameColumnMembership] at hsame
    obtain ⟨merged, hmerged, hrest⟩ := Option.bind_eq_some_iff.mp hsame
    obtain ⟨m, rfl, hif⟩ := Option.bind_eq_some_iff.mp hrest
    split at hif
    · obtain rfl := Option.some.inj hif
      have hspec := mergeMembers_truth h hleaf (by intro m hm; simp at hm) hmerged
      refine ⟨hspec.1 m rfl, ?_⟩
      rw [groupTruth_or]
      simpa [mergedTrue] using hspec.2.symm
    · simp at hif
  | leaf _ | not _ | and _ => simp [sameColumnMembership] at hsame

end Reading

end MldpDriver.Query.LogicalPlanner

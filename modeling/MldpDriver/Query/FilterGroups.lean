/-
# Local filtering with OR/NOT groups

`applyFilter` keeps the rows on which a list of predicates and a list of OR/NOT groups are all TRUE.
Measured against Kleene's logic it goes wrong at one kind of leaf, a predicate on `tag`: whatever
the table, the code reads the list `tags` and asks its elements.  A plain column `tag` is never
read, a null list is FALSE instead of UNKNOWN, and a test for NULL is asked of the elements.
-/
import MldpDriver.Lib.Kleene
import MldpDriver.Query.BoundWhere
import MldpDriver.Query.SelectRows

namespace MldpDriver.Query.FilterGroups

open Lib.Kleene List
open Binder (PlannerPredicate PlannerPredicateGroup)

variable {ρ : Type}

/-! ## 1. Groups -/

/-- `PredicateGroup`. -/
inductive PredicateGroup where
  | leaf (leaf : Predicate)
  | not (child : PredicateGroup)
  | and (children : List PredicateGroup)
  | or (children : List PredicateGroup)

/-- `PhysicalPlanner`'s `to_group`. -/
def toGroup : PlannerPredicateGroup → PredicateGroup
  | .leaf p => .leaf p.toExecutable
  | .not child => .not (toGroup child)
  | .and children => .and (toGroups children)
  | .or children => .or (toGroups children)
where
  toGroups : List PlannerPredicateGroup → List PredicateGroup
    | [] => []
    | child :: rest => toGroup child :: toGroups rest

/-- The loop over the operands of AND and OR: it stops at the decisive value. -/
def connectLoop (decisive identity : Truth) : Bool → List Truth → Truth
  | unknown, [] => if unknown then .unknown else identity
  | unknown, value :: rest =>
    if value = decisive then decisive
    else connectLoop decisive identity (unknown || value == .unknown) rest

section Truth

variable (batch : RecordBatch ρ) (row : ρ)

mutual
def groupTruth : PredicateGroup → Truth
  | .leaf p => predicateTruth batch row p
  | .not child =>
    match groupTruth child with
    | .unknown => .unknown
    | .trueValue => .falseValue
    | .falseValue => .trueValue
  | .and children => connectLoop .falseValue .trueValue false (groupTruths children)
  | .or children => connectLoop .trueValue .falseValue false (groupTruths children)

def groupTruths : List PredicateGroup → List Truth
  | [] => []
  | group :: rest => groupTruth group :: groupTruths rest
end

end Truth

/-! ## 2. The filter -/

/-- The `include` flag of one row. -/
def includes (batch : RecordBatch ρ) (predicates : List Predicate) (groups : List PredicateGroup)
    (row : ρ) : Bool :=
  rowPasses batch predicates row && groups.all fun group => groupTruth batch row group == .trueValue

/-- `applyFilterImpl`; `unionColumn` is `hasUnionColumn(batch)`. -/
def applyFilterImpl (unionColumn : Bool) (batch : RecordBatch ρ) (predicates : List Predicate)
    (groups : List PredicateGroup) : RecordBatch ρ :=
  let passes := includes batch predicates groups
  { batch with
    rows :=
      if unionColumn then selectUnionSafeRows batch.rows (numbersFrom passes 0 batch.rows)
      else filterByMask batch.rows (batch.rows.map passes) }

def applyFilter (unionColumn : Bool) (batch : RecordBatch ρ) (predicates : List Predicate)
    (groups : List PredicateGroup) : RecordBatch ρ :=
  if predicates.isEmpty && groups.isEmpty then batch
  else applyFilterImpl unionColumn batch predicates groups

theorem applyFilter_rows (unionColumn : Bool) (batch : RecordBatch ρ)
    (predicates : List Predicate) (groups : List PredicateGroup) :
    (applyFilter unionColumn batch predicates groups).rows =
      batch.rows.filter (includes batch predicates groups) := by
  unfold applyFilter
  split
  · rename_i h
    obtain ⟨hp, hg⟩ := Bool.and_eq_true_iff.mp h
    rw [List.isEmpty_iff.mp hp, List.isEmpty_iff.mp hg]
    exact (filter_eq_self.mpr fun _ _ => rfl).symm
  · exact select_eq_filter unionColumn (includes batch predicates groups) batch.rows

theorem includes_iff {batch : RecordBatch ρ} {predicates : List Predicate}
    {groups : List PredicateGroup} {row : ρ} :
    includes batch predicates groups row = true ↔
      (∀ p ∈ predicates, predicateTruth batch row p = .trueValue) ∧
        ∀ g ∈ groups, groupTruth batch row g = .trueValue := by
  simp only [includes, rowPasses, Bool.and_eq_true, all_eq_true, beq_iff_eq]

/-! ## 3. Groups by cases -/

theorem groupTruths_eq_map (batch : RecordBatch ρ) (row : ρ) (groups : List PredicateGroup) :
    groupTruths batch row groups = groups.map (groupTruth batch row) := by
  induction groups with
  | nil => rfl
  | cons group groups ih => rw [groupTruths, ih, map_cons]

theorem connectLoop_eq (decisive identity : Truth) (unknown : Bool) (values : List Truth) :
    connectLoop decisive identity unknown values =
      if decisive ∈ values then decisive
      else if unknown = true ∨ Truth.unknown ∈ values then .unknown else identity := by
  induction values generalizing unknown with
  | nil => cases unknown <;> simp [connectLoop]
  | cons value rest ih =>
    rw [connectLoop, ih]
    by_cases hv : value = decisive
    · simp [hv]
    · have hne : decisive ≠ value := fun h => hv h.symm
      simp only [if_neg hv, mem_cons, hne, false_or, Bool.or_eq_true, beq_iff_eq]
      by_cases hu : value = .unknown
      · simp [hu]
      · have hne' : Truth.unknown ≠ value := fun h => hu h.symm
        simp [hu, hne']

/-- The loop is the `connect` that plans are read with. -/
theorem connectLoop_connect (decisive identity : Truth) (values : List Truth) :
    connectLoop decisive identity false values =
      LogicalPlanner.connect decisive identity values := by
  rw [connectLoop_eq, LogicalPlanner.connect]
  simp

variable {decisive identity : Truth}

theorem connectLoop_eq_decisive (hne : identity ≠ decisive) (hd : decisive ≠ .unknown)
    {values : List Truth} :
    connectLoop decisive identity false values = decisive ↔ decisive ∈ values := by
  rw [connectLoop_eq]
  constructor
  · intro h
    by_contra hmem
    rw [if_neg hmem] at h
    split at h
    · exact hd h.symm
    · exact hne h
  · exact fun hmem => if_pos hmem

theorem connectLoop_eq_identity (hne : identity ≠ decisive) (hi : identity ≠ .unknown)
    (hall : ∀ t : Truth, t = decisive ∨ t = identity ∨ t = .unknown) {values : List Truth} :
    connectLoop decisive identity false values = identity ↔ ∀ t ∈ values, t = identity := by
  rw [connectLoop_eq]
  constructor
  · intro h t ht
    rcases hall t with rfl | rfl | rfl
    · exact absurd ((if_pos ht).symm.trans h) hne.symm
    · rfl
    · split at h
      · exact absurd h hne.symm
      · exact absurd ((if_pos (.inr ht)).symm.trans h) hi.symm
  · intro h
    rw [if_neg fun hmem => hne (h _ hmem).symm]
    exact if_neg (by simpa using fun hmem => hi (h _ hmem).symm)

theorem connectLoop_beq_decisive (values : List Truth) (hne : identity ≠ decisive)
    (hd : decisive ≠ .unknown) :
    (connectLoop decisive identity false values == decisive) = values.any (· == decisive) := by
  rw [Bool.eq_iff_iff, beq_iff_eq, connectLoop_eq_decisive hne hd]
  simp

theorem connectLoop_beq_identity (values : List Truth) (hne : identity ≠ decisive)
    (hi : identity ≠ .unknown) (hall : ∀ t : Truth, t = decisive ∨ t = identity ∨ t = .unknown) :
    (connectLoop decisive identity false values == identity) = values.all (· == identity) := by
  rw [Bool.eq_iff_iff, beq_iff_eq, connectLoop_eq_identity hne hi hall]
  simp

variable {child : PredicateGroup}

section Cases

variable {batch : RecordBatch ρ} {row : ρ} {children : List PredicateGroup}

attribute [local simp] groupTruth

theorem groupTruth_not_true :
    groupTruth batch row (.not child) = .trueValue ↔ groupTruth batch row child = .falseValue := by
  cases h : groupTruth batch row child <;> simp [h]

theorem groupTruth_not_false :
    groupTruth batch row (.not child) = .falseValue ↔ groupTruth batch row child = .trueValue := by
  cases h : groupTruth batch row child <;> simp [h]

theorem groupTruth_and_true :
    groupTruth batch row (.and children) = .trueValue ↔
      ∀ c ∈ children, groupTruth batch row c = .trueValue := by
  rw [groupTruth, groupTruths_eq_map,
    connectLoop_eq_identity (by decide) (by decide) (fun t => by cases t <;> simp)]
  exact forall_mem_map

theorem groupTruth_and_false :
    groupTruth batch row (.and children) = .falseValue ↔
      ∃ c ∈ children, groupTruth batch row c = .falseValue := by
  rw [groupTruth, groupTruths_eq_map, connectLoop_eq_decisive (by decide) (by decide)]
  exact mem_map

theorem groupTruth_or_true :
    groupTruth batch row (.or children) = .trueValue ↔
      ∃ c ∈ children, groupTruth batch row c = .trueValue := by
  rw [groupTruth, groupTruths_eq_map, connectLoop_eq_decisive (by decide) (by decide)]
  exact mem_map

theorem groupTruth_or_false :
    groupTruth batch row (.or children) = .falseValue ↔
      ∀ c ∈ children, groupTruth batch row c = .falseValue := by
  rw [groupTruth, groupTruths_eq_map,
    connectLoop_eq_identity (by decide) (by decide) (fun t => by cases t <;> simp)]
  exact forall_mem_map

end Cases

mutual
/-- Induction over groups, with the hypothesis for every operand. -/
theorem PredicateGroup.cases_on_operands {P : PredicateGroup → Prop}
    (leaf : ∀ p, P (.leaf p)) (not : ∀ child, P child → P (.not child))
    (and : ∀ children, (∀ c ∈ children, P c) → P (.and children))
    (or : ∀ children, (∀ c ∈ children, P c) → P (.or children)) :
    ∀ group : PredicateGroup, P group
  | .leaf p => leaf p
  | .not child => not child (PredicateGroup.cases_on_operands leaf not and or child)
  | .and children => and children (PredicateGroup.all_operands leaf not and or children)
  | .or children => or children (PredicateGroup.all_operands leaf not and or children)

theorem PredicateGroup.all_operands {P : PredicateGroup → Prop}
    (leaf : ∀ p, P (.leaf p)) (not : ∀ child, P child → P (.not child))
    (and : ∀ children, (∀ c ∈ children, P c) → P (.and children))
    (or : ∀ children, (∀ c ∈ children, P c) → P (.or children)) :
    ∀ groups : List PredicateGroup, ∀ c ∈ groups, P c
  | [] => forall_mem_nil _
  | group :: rest =>
    forall_mem_cons.mpr ⟨PredicateGroup.cases_on_operands leaf not and or group,
      PredicateGroup.all_operands leaf not and or rest⟩
end

/-! ## 4. Three-valued logic

`tag` has two meanings.  The tables of MLDP declare it as a shorthand, without a column of that
name: a comparison asks whether some element of the list `tags` passes it.  Any other table may have
a plain column `tag`.  The code always takes the first meaning; here `shorthand` says which one the
filtered table gives it, and a leaf reads the column that it names. -/

/-- The leaf stands for a test of the list `tags`. -/
def standsForTags (shorthand : Bool) (p : Predicate) : Bool := shorthand && p.column == "tag"

/-- Whether the cell passes: `scalarMatchesPredicate`, of the elements where it is the tag list. -/
def leafMatches (shorthand : Bool) (cell : Cell) (p : Predicate) : Bool :=
  if standsForTags shorthand p then
    match cell with
    | .list values => values.any fun v => scalarMatchesPredicate (.scalar v) p
    | .scalar _ => false
  else scalarMatchesPredicate cell p

/-- **The truth of a leaf**: unknown on a null or missing operand.  A test for NULL is about the
cell itself, a list or not. -/
def leafKleene (shorthand : Bool) (batch : RecordBatch ρ) (row : ρ) (p : Predicate) : Option Bool :=
  match predicateField batch (if standsForTags shorthand p then "tags" else p.column) with
  | none => none
  | some read =>
    if isNullTest p.op then some (scalarMatchesPredicate (read row) p)
    else if (read row).isValid then some (leafMatches shorthand (read row) p)
    else none

section Kleene

variable (shorthand : Bool) (batch : RecordBatch ρ) (row : ρ)

mutual
def groupKleene : PredicateGroup → Option Bool
  | .leaf p => leafKleene shorthand batch row p
  | .not child => not3 (groupKleene child)
  | .and children => all3 (groupsKleene children)
  | .or children => any3 (groupsKleene children)

def groupsKleene : List PredicateGroup → List (Option Bool)
  | [] => []
  | group :: rest => groupKleene group :: groupsKleene rest
end

/-- The conjunction of the predicates and the groups on a row. -/
def filterKleene (predicates : List Predicate) (groups : List PredicateGroup) : Option Bool :=
  all3 (predicates.map (leafKleene shorthand batch row) ++
    groups.map (groupKleene shorthand batch row))

theorem groupsKleene_eq_map (groups : List PredicateGroup) :
    groupsKleene shorthand batch row groups = groups.map (groupKleene shorthand batch row) := by
  induction groups with
  | nil => rfl
  | cons group groups ih => rw [groupsKleene, ih, map_cons]

/-! ## 5. What the misread leaves turn

Only a leaf on `tag` is misread: where the table has a column `tag`, where the tag list is null, and
where a test for NULL is asked of the elements.  Such a leaf may be TRUE in the code only or in
three-valued logic only, and whether that reaches the top depends on the operands beside it.

`groupTruth_spec`: what a group says, against the same group in three-valued logic. -/

/-- Whether the leaf is `b` in one of the two readings only. -/
def leafTurned (b : Bool) (p : Predicate) : Bool :=
  p.column == "tag" &&
    ((predicateTruth batch row p == .ofBool b) != (leafKleene shorthand batch row p == some b))

/-- "Every operand is so" is turned where all are and one is turned, or where exactly those are
turned that are not.  An operand is given by whether it is so and whether that is turned. -/
def allTurned (operands : List (Bool × Bool)) : Bool :=
  if operands.all Prod.fst then operands.any Prod.snd else operands.all fun d => d.1 != d.2

/-- "Some operand is so" is turned where exactly those are turned that are, or where none is and
one is turned. -/
def anyTurned (operands : List (Bool × Bool)) : Bool :=
  if operands.any Prod.fst then operands.all fun d => d.1 == d.2 else operands.any Prod.snd

mutual
/-- Whether the misread leaves turn the group's being `b`.  A leaf that is misread need not matter:
an AND that another operand makes FALSE stays FALSE. -/
def turned (b : Bool) : PredicateGroup → Bool
  | .leaf p => leafTurned shorthand batch row b p
  | .not child => turned (!b) child
  | .and children => if b then allTurned (turneds b children) else anyTurned (turneds b children)
  | .or children => if b then anyTurned (turneds b children) else allTurned (turneds b children)

def turneds (b : Bool) : List PredicateGroup → List (Bool × Bool)
  | [] => []
  | group :: rest => (groupTruth batch row group == .ofBool b, turned b group) :: turneds b rest
end

theorem turneds_eq_map (b : Bool) (groups : List PredicateGroup) :
    turneds shorthand batch row b groups =
      groups.map fun g => (groupTruth batch row g == .ofBool b, turned shorthand batch row b g) := by
  induction groups with
  | nil => rfl
  | cons group groups ih => rw [turneds, ih, map_cons]

/-- What is shown of every group: three-valued logic calls it `b` where the code does and that is
not turned, and where the code does not and it is. -/
def GroupSpec (group : PredicateGroup) : Prop :=
  ∀ b : Bool, (groupKleene shorthand batch row group == some b) =
    ((groupTruth batch row group == .ofBool b) != turned shorthand batch row b group)

end Kleene

theorem all_turned (operands : List (Bool × Bool)) :
    (operands.all fun d => d.1 != d.2) = (operands.all Prod.fst != allTurned operands) := by
  unfold allTurned
  split
  · rename_i h
    -- all are so: the right side asks that none is turned
    rw [h, Bool.true_bne, not_any_eq_all_not]
    rw [Bool.eq_iff_iff, all_eq_true, all_eq_true]
    exact forall₂_congr fun d hd => by rw [all_eq_true.mp h d hd, Bool.true_bne]
  · rename_i h
    rw [Bool.eq_false_of_not_eq_true h, Bool.false_bne]

theorem any_turned (operands : List (Bool × Bool)) :
    (operands.any fun d => d.1 != d.2) = (operands.any Prod.fst != anyTurned operands) := by
  unfold anyTurned
  split
  · rename_i h
    rw [h, Bool.true_bne, not_all_eq_any_not]
    rfl
  · rename_i h
    -- none is so: an operand differs exactly where it is turned
    rw [Bool.eq_false_of_not_eq_true h, Bool.false_bne]
    rw [Bool.eq_iff_iff, any_eq_true, any_eq_true]
    refine exists_congr fun d => and_congr_right fun hd => ?_
    rw [Bool.eq_false_of_not_eq_true fun hfst => h (any_eq_true.mpr ⟨d, hd, hfst⟩),
      Bool.false_bne]

section Spec

variable {shorthand : Bool} {batch : RecordBatch ρ} {row : ρ} {children : List PredicateGroup}

attribute [local simp] groupKleene

theorem predicateTruth_eq (shorthand : Bool) {p : Predicate} (htag : p.column ≠ "tag") :
    predicateTruth batch row p =
      match leafKleene shorthand batch row p with
      | some b => .ofBool b
      | none => .unknown := by
  have hstands : standsForTags shorthand p = false := by simp [standsForTags, htag]
  simp only [predicateTruth, leafKleene, leafMatches, hstands, htag, if_false, Bool.false_eq_true]
  cases predicateField batch p.column with
  | none => rfl
  | some read => cases isNullTest p.op <;> cases hv : (read row).isValid <;> simp [hv]

theorem leaf_spec (p : Predicate) : GroupSpec shorthand batch row (.leaf p) := by
  intro b
  rw [groupKleene, groupTruth, turned, leafTurned]
  by_cases htag : p.column = "tag"
  · simp [htag]
  · rw [predicateTruth_eq shorthand htag, beq_false_of_ne htag, Bool.false_and,
      Bool.bne_false]
    rcases leafKleene shorthand batch row p with _ | _ | _ <;> cases b <;> rfl

theorem groupTruth_not_iff {b : Bool} :
    groupTruth batch row (.not child) = .ofBool b ↔
      groupTruth batch row child = .ofBool (!b) := by
  cases b with
  | true => exact groupTruth_not_true
  | false => exact groupTruth_not_false

theorem not_spec (h : GroupSpec shorthand batch row child) :
    GroupSpec shorthand batch row (.not child) := by
  intro b
  have htruth : (groupTruth batch row (.not child) == .ofBool b) =
      (groupTruth batch row child == .ofBool (!b)) := by
    rw [Bool.eq_iff_iff, beq_iff_eq, beq_iff_eq, groupTruth_not_iff]
  rw [htruth, turned, ← h (!b), groupKleene, Bool.eq_iff_iff, beq_iff_eq, beq_iff_eq,
    not3_eq_some_iff]

theorem operands_spec (h : ∀ c ∈ children, GroupSpec shorthand batch row c) (b : Bool) :
    (groupsKleene shorthand batch row children).map (· == some b) =
      (turneds shorthand batch row b children).map fun d => d.1 != d.2 := by
  rw [groupsKleene_eq_map, turneds_eq_map, map_map, map_map]
  exact map_congr_left fun c hc => h c hc b

theorem all_spec (h : ∀ c ∈ children, GroupSpec shorthand batch row c) (b : Bool) :
    (groupsKleene shorthand batch row children).all (· == some b) =
      ((groupTruths batch row children).all (· == .ofBool b) !=
        allTurned (turneds shorthand batch row b children)) := by
  have hkleene := congrArg (·.all id) (operands_spec h b)
  have hsays : (turneds shorthand batch row b children).all Prod.fst =
      (groupTruths batch row children).all (· == .ofBool b) := by
    rw [turneds_eq_map, groupTruths_eq_map, all_map, all_map]
    rfl
  simp only [all_map, Function.id_comp] at hkleene
  rw [← hsays, ← all_turned]
  exact hkleene

theorem any_spec (h : ∀ c ∈ children, GroupSpec shorthand batch row c) (b : Bool) :
    (groupsKleene shorthand batch row children).any (· == some b) =
      ((groupTruths batch row children).any (· == .ofBool b) !=
        anyTurned (turneds shorthand batch row b children)) := by
  have hkleene := congrArg (·.any id) (operands_spec h b)
  have hsays : (turneds shorthand batch row b children).any Prod.fst =
      (groupTruths batch row children).any (· == .ofBool b) := by
    rw [turneds_eq_map, groupTruths_eq_map, any_map, any_map]
    rfl
  simp only [any_map, Function.id_comp] at hkleene
  rw [← hsays, ← any_turned]
  exact hkleene

theorem and_spec (h : ∀ c ∈ children, GroupSpec shorthand batch row c) :
    GroupSpec shorthand batch row (.and children) := by
  have hdecisive : Truth.trueValue ≠ .falseValue := by decide
  intro b
  rw [groupKleene, groupTruth, turned]
  cases b with
  | true =>
    have hsays := connectLoop_beq_identity (groupTruths batch row children) hdecisive (by decide)
      fun t => by cases t <;> simp
    rw [if_pos rfl, all3_beq_true, all_spec h]
    exact congrArg (· != _) hsays.symm
  | false =>
    have hsays := connectLoop_beq_decisive (groupTruths batch row children) hdecisive (by decide)
    rw [if_neg Bool.false_ne_true, all3_beq_false, any_spec h]
    exact congrArg (· != _) hsays.symm

theorem or_spec (h : ∀ c ∈ children, GroupSpec shorthand batch row c) :
    GroupSpec shorthand batch row (.or children) := by
  have hdecisive : Truth.falseValue ≠ .trueValue := by decide
  intro b
  rw [groupKleene, groupTruth, turned]
  cases b with
  | true =>
    have hsays := connectLoop_beq_decisive (groupTruths batch row children) hdecisive (by decide)
    rw [if_pos rfl, any3_beq_true, any_spec h]
    exact congrArg (· != _) hsays.symm
  | false =>
    have hsays := connectLoop_beq_identity (groupTruths batch row children) hdecisive (by decide)
      fun t => by cases t <;> simp
    rw [if_neg Bool.false_ne_true, any3_beq_false, all_spec h]
    exact congrArg (· != _) hsays.symm

end Spec

/-- **What a group says**: by induction over its shape, one case for each connective. -/
theorem groupTruth_spec (shorthand : Bool) (batch : RecordBatch ρ) (row : ρ)
    (group : PredicateGroup) : GroupSpec shorthand batch row group :=
  PredicateGroup.cases_on_operands leaf_spec (fun _ => not_spec) (fun _ => and_spec)
    (fun _ => or_spec) group

/-! ## 6. The rows that are kept -/

/-- The whole filter as one group. -/
def conjunction (predicates : List Predicate) (groups : List PredicateGroup) : PredicateGroup :=
  .and (predicates.map .leaf ++ groups)

theorem includes_conjunction (batch : RecordBatch ρ) (row : ρ) (predicates : List Predicate)
    (groups : List PredicateGroup) :
    includes batch predicates groups row =
      (groupTruth batch row (conjunction predicates groups) == .ofBool true) := by
  rw [Bool.eq_iff_iff, beq_iff_eq, includes_iff]
  refine Iff.trans ?_ groupTruth_and_true.symm
  rw [forall_mem_append, forall_mem_map]
  rfl

theorem filterKleene_conjunction (shorthand : Bool) (batch : RecordBatch ρ) (row : ρ)
    (predicates : List Predicate) (groups : List PredicateGroup) :
    filterKleene shorthand batch row predicates groups =
      groupKleene shorthand batch row (conjunction predicates groups) := by
  rw [filterKleene, conjunction, groupKleene, groupsKleene_eq_map, map_append, map_map]
  rfl

/-! ### An OR of equalities and its IN

An OR of equalities on one column may be replaced by its IN in any filter (`in_keeps_rows`). -/

theorem readsInAsOr_batch (batch : RecordBatch ρ) (row : ρ) :
    LogicalPlanner.ReadsInAsOr fun p => predicateTruth batch row p.toExecutable where
  congr _ hexec := by rw [hexec]
  eq_in p v hop hv := by
    simp only [PlannerPredicate.toExecutable, hop, hv, predicateTruth,
      LogicalPlanner.listContains_eq, LogicalPlanner.scalarMatches_eq]
    rfl
  append p vs ws hop := by
    simp only [PlannerPredicate.toExecutable, hop, predicateTruth,
      LogicalPlanner.listContains_append, LogicalPlanner.scalarMatches_append]
    split
    · split
      · rfl
      · simp only [truth_ofBool_eq_true]
    · split
      · rfl
      · split
        · rfl
        · simp only [truth_ofBool_eq_true]

mutual
theorem groupTruth_toGroup (batch : RecordBatch ρ) (row : ρ) :
    ∀ group : PlannerPredicateGroup, groupTruth batch row (toGroup group) =
      LogicalPlanner.groupTruth (fun p => predicateTruth batch row p.toExecutable) group
  | .leaf p => rfl
  | .not child => by
    have ih := groupTruth_toGroup batch row child
    cases h : groupTruth batch row (toGroup child) <;>
      simp only [toGroup, groupTruth, LogicalPlanner.groupTruth, ← ih, h]
  | .and children => by
    rw [toGroup, groupTruth, LogicalPlanner.groupTruth, groupTruths_toGroups batch row children,
      connectLoop_connect]
  | .or children => by
    rw [toGroup, groupTruth, LogicalPlanner.groupTruth, groupTruths_toGroups batch row children,
      connectLoop_connect]

theorem groupTruths_toGroups (batch : RecordBatch ρ) (row : ρ) :
    ∀ groups : List PlannerPredicateGroup, groupTruths batch row (toGroup.toGroups groups) =
      LogicalPlanner.groupTruths (fun p => predicateTruth batch row p.toExecutable) groups
  | [] => rfl
  | group :: rest => by
    rw [toGroup.toGroups, groupTruths, LogicalPlanner.groupTruths,
      groupTruth_toGroup batch row group, groupTruths_toGroups batch row rest]
end

/-- **An OR of equalities on one column keeps the rows that its IN keeps**, whatever else the filter
says. -/
theorem in_keeps_rows {Q : Type} {tables : List (Binder.BoundTable Q)}
    {tree : Binder.WherePredicateTree Q} {group : PlannerPredicateGroup} {p : PlannerPredicate}
    (hbind : Binder.bindPredicateGroup tables tree = .ok group)
    (hsame : Binder.sameColumnMembership group = some p) (unionColumn : Bool)
    (batch : RecordBatch ρ) (predicates : List Predicate) (groups : List PredicateGroup) :
    (applyFilter unionColumn batch predicates (toGroup group :: groups)).rows =
      (applyFilter unionColumn batch (predicates ++ [p.toExecutable]) groups).rows := by
  rw [applyFilter_rows, applyFilter_rows]
  refine filter_congr fun row _ => ?_
  have hleaf := LogicalPlanner.bindPredicateGroup_ok tree hbind
  have htruth := (LogicalPlanner.sameColumnMembership_truth (readsInAsOr_batch batch row)
    (fun q hq => (hleaf q hq).symm) hsame).2
  have hgroup : (groupTruth batch row (toGroup group) == .trueValue) =
      (predicateTruth batch row p.toExecutable == .trueValue) := by
    rw [groupTruth_toGroup]
    exact htruth
  simp only [includes, rowPasses, all_append, all_cons, all_nil, Bool.and_true,
    hgroup]
  ac_rfl

/-! ## 7. When the filter is three-valued logic -/

/-- The rows on which the conjunction is TRUE, in order. -/
def KeepsKleene (shorthand unionColumn : Bool) (batch : RecordBatch ρ) (predicates : List Predicate)
    (groups : List PredicateGroup) : Prop :=
  (applyFilter unionColumn batch predicates groups).rows =
    batch.rows.filter fun row => filterKleene shorthand batch row predicates groups == some true

/-- An OR that the binder would rewrite may be replaced by its IN. -/
def InKeepsRows (unionColumn : Bool) (batch : RecordBatch ρ) (predicates : List Predicate)
    (groups : List PredicateGroup) : Prop :=
  ∀ (Q : Type) (tables : List (Binder.BoundTable Q)) (tree : Binder.WherePredicateTree Q)
    (group : PlannerPredicateGroup) (p : PlannerPredicate),
    Binder.bindPredicateGroup tables tree = .ok group →
      Binder.sameColumnMembership group = some p →
        (applyFilter unionColumn batch predicates (toGroup group :: groups)).rows =
          (applyFilter unionColumn batch (predicates ++ [p.toExecutable]) groups).rows

/-- `CREATE TEMP TABLE t AS SELECT pv AS tag …`: a column `tag`, and none of the name `tags`. -/
def ownTag : RecordBatch String :=
  ⟨[("tag", fun pv => .scalar (.string pv))], ["SYS:A", "SYS:B"]⟩

/-- `WHERE tag = 'SYS:A'`. -/
def tagIsA : Predicate := ⟨"tag", .EQ, [.string "SYS:A"]⟩

end MldpDriver.Query.FilterGroups

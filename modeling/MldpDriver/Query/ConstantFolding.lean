/-
# Constant folding

The pass `applyConstantFolding` removes repeated predicates from the scans and filters of a plan.
Two predicates count as repeated when their keys are the same text: column, operator and operands
with number signs in between, a `double` printed with six decimals, nothing escaped, and the table
alias left out.

So different predicates may have one key: a text operand with `#s:` in it reads like two operands, a
column name with `#6` in it like a column and an operator, and two numbers may agree to the sixth
decimal.  Where no two predicates of a list are confusable in one of these ways (`Apart`) the pass
keeps the meaning of the list and of the plan (`dedupe_faithful`, `eval_applyConstantFolding`); each
of the ways does go wrong (section 7).
-/
import MldpDriver.Lib.DecimalText
import MldpDriver.Lib.SeenKeys
import MldpDriver.Lib.Separators
import MldpDriver.Query.LogicalPlanner

namespace MldpDriver.Query.ConstantFolding

open List
open Lib (Binary64)
open Lib.DecimalText
open Lib.KeySplit
open Lib.SeenKeys
open Lib.Separators
open Binder
open LogicalPlanner

/-! ## 1. The key of a predicate -/

/-- `NOW` literals have been replaced by the type checker. -/
def literalKey : Literal → List Char
  | .string v => "s:".toList ++ v.toList
  | .int64 v => "i:".toList ++ intText v
  | .double v => "d:".toList ++ doubleText v
  | .bool v => "b:".toList ++ if v then ['1'] else ['0']
  | .timestampNs v => "t:".toList ++ intText v
  | .durationNs v => "u:".toList ++ intText v

/-- `static_cast<int>(predicate.op)` -/
def opNumber : PredicateOp → Nat
  | .EQ => 0
  | .NEQ => 1
  | .LT => 2
  | .LTE => 3
  | .GT => 4
  | .GTE => 5
  | .IN => 6
  | .PREFIX => 7
  | .CONTAINS => 8
  | .LIKE => 9
  | .BETWEEN => 10
  | .IS_NULL => 11
  | .IS_NOT_NULL => 12

def predicateKey (predicate : PlannerPredicate) : List Char :=
  predicate.column.toList ++ '#' :: (natText (opNumber predicate.op) ++
    predicate.values.flatMap fun value => '#' :: literalKey value)

/-! ## 2. The pass -/

def dedupe (predicates : List PlannerPredicate) : List PlannerPredicate :=
  (unseen predicateKey [] predicates).1

variable {Q : Type}

/-- `rewrite`; no join of the plan has predicates of its own. -/
def applyConstantFolding : LogicalNode Q → LogicalNode Q
  | .scan s => .scan { s with pushablePredicates := dedupe s.pushablePredicates }
  | .filter input predicates groups conditions =>
    .filter (applyConstantFolding input) (dedupe predicates) groups conditions
  | .join type left right leftInput rightInput =>
    .join type left right (applyConstantFolding leftInput) (applyConstantFolding rightInput)

/-! ## 3. Meaning -/

/-- The truth of a predicate on a row. -/
def truth (row : JoinedRow) (predicate : PlannerPredicate) : Truth :=
  rowTruth (tableRow row predicate.tableAlias) predicate.toExecutable

/-- The truth of a list of conjuncts. -/
def conjunction (row : JoinedRow) (predicates : List PlannerPredicate) : Truth :=
  connect .falseValue .trueValue (predicates.map (truth row))

/-- Predicates with one key mean the same, and the shorter list means the same. -/
structure Faithful (predicates : List PlannerPredicate) : Prop where
  sameKey : ∀ p ∈ predicates, ∀ q ∈ predicates, predicateKey p = predicateKey q →
    ∀ row, truth row p = truth row q
  conjunction : ∀ row, conjunction row (dedupe predicates) = conjunction row predicates

theorem connect_congr {decisive identity : Truth} {values values' : List Truth}
    (h : ∀ t, t ∈ values ↔ t ∈ values') :
    connect decisive identity values = connect decisive identity values' := by
  simp only [connect, contains_iff_mem, h]

variable {predicates : List PlannerPredicate}

theorem dedupe_subset {p : PlannerPredicate} (h : p ∈ dedupe predicates) :
    p ∈ predicates := (unseen_sublist _ _ _).subset h

theorem exists_mem_dedupe {p : PlannerPredicate} (h : p ∈ predicates) :
    ∃ q ∈ dedupe predicates, predicateKey q = predicateKey p := by
  have hkey : predicateKey p ∈ (firstRows predicateKey predicates).map predicateKey :=
    mem_firstRows_keys.mpr (mem_map_of_mem h)
  rw [← unseen_nil] at hkey
  exact mem_map.mp hkey

/-- **One meaning for each key is enough.** -/
theorem faithful_of_sameKey
    (h : ∀ p ∈ predicates, ∀ q ∈ predicates, predicateKey p = predicateKey q →
      ∀ row, truth row p = truth row q) : Faithful predicates := by
  refine ⟨h, fun row => connect_congr fun t => ?_⟩
  constructor
  · intro ht
    obtain ⟨p, hp, rfl⟩ := mem_map.mp ht
    exact mem_map_of_mem (dedupe_subset hp)
  · intro ht
    obtain ⟨p, hp, rfl⟩ := mem_map.mp ht
    obtain ⟨q, hq, hkey⟩ := exists_mem_dedupe hp
    rw [h p hp q (dedupe_subset hq) hkey.symm row]
    exact mem_map_of_mem hq

/-! ## 4. Reading a key -/

/-- An operand begins. -/
def startsOperand (text : List Char) : Bool :=
  (text[0]?.any fun tag => decide (tag ∈ ['s', 'i', 'd', 'b', 't', 'u', 'n'])) &&
    text[1]? == some ':'

/-- A number begins. -/
def startsNumber (text : List Char) : Bool := text[0]?.any Char.isDigit

theorem startsOperand_endsBefore : EndsBefore '#' fun text => startsOperand text = true := by
  intro rest more h
  cases rest with
  | nil => exact absurd h (by simp [startsOperand])
  | cons c rest =>
    cases rest with
    | nil => exact absurd h (by simp [startsOperand])
    | cons d rest => exact h

theorem startsOperand_append (text more : List Char) (h : startsOperand text = true) :
    startsOperand (text ++ more) = true := by
  cases text with
  | nil => exact absurd h (by decide)
  | cons c text =>
    cases text with
    | nil => exact absurd h (by simp [startsOperand])
    | cons d text => exact h

theorem startsNumber_endsBefore : EndsBefore '#' fun text => startsNumber text = true := by
  intro rest more h
  cases rest with
  | nil => exact absurd h (by simp [startsNumber])
  | cons c rest => exact h

/-- No operand begins behind a number sign of the text. -/
def PlainText (text : String) : Prop :=
  Unmarked '#' (fun rest => startsOperand rest = true) text.toList

/-- No number begins behind a number sign of the column name. -/
def PlainColumn (column : String) : Prop :=
  Unmarked '#' (fun rest => startsNumber rest = true) column.toList

theorem literalKey_starts (v : Literal) : startsOperand (literalKey v) = true := by
  cases v <;> rfl

theorem sign_notMem_intText (n : Int) : '#' ∉ intText n := fun h => by
  rcases mem_intText h with h | h <;> exact absurd h (by decide)

theorem sign_notMem_doubleText (d : Binary64) : '#' ∉ doubleText d := by
  intro h
  cases d with
  | nan => exact absurd h (by decide)
  | inf negative => cases negative <;> exact absurd h (by decide)
  | finite q =>
    rcases mem_millionthsText h with h | h | h <;> exact absurd h (by decide)

theorem literalKey_plain {v : Literal} (h : ∀ s, v = .string s → PlainText s) :
    Unmarked '#' (fun rest => startsOperand rest = true) (literalKey v) := by
  have hcons : ∀ tag text, tag ≠ '#' →
      Unmarked '#' (fun rest => startsOperand rest = true) text →
      Unmarked '#' (fun rest => startsOperand rest = true) (tag :: ':' :: text) :=
    fun tag text htag htext => (htext.cons (by decide)).cons htag
  cases v with
  | string s => exact hcons 's' _ (by decide) (h s rfl)
  | int64 n => exact hcons 'i' _ (by decide) (unmarked_of_notMem (sign_notMem_intText n))
  | double d => exact hcons 'd' _ (by decide) (unmarked_of_notMem (sign_notMem_doubleText d))
  | bool b => cases b <;> exact unmarked_of_notMem (by decide)
  | timestampNs n => exact hcons 't' _ (by decide) (unmarked_of_notMem (sign_notMem_intText n))
  | durationNs n => exact hcons 'u' _ (by decide) (unmarked_of_notMem (sign_notMem_intText n))

/-- **The key of an operand** tells its kind and its value, a `double` to the sixth decimal. -/
theorem literalKey_eq {v w : Literal} (h : literalKey v = literalKey w)
    (hdouble : ∀ d d', v = .double d → w = .double d' →
      sixthDecimal d = sixthDecimal d' → d = d') :
    v = w := by
  have htail : ∀ {a b : Char} {x y : List Char}, a :: ':' :: x = b :: ':' :: y → a = b ∧ x = y :=
    fun h => ⟨(List.cons.inj h).1, (List.cons.inj (List.cons.inj h).2).2⟩
  cases v with
  | string s =>
    cases w <;> first | exact absurd (htail h).1 (by decide) | skip
    exact congrArg _ (String.toList_injective (htail h).2)
  | int64 n =>
    cases w <;> first | exact absurd (htail h).1 (by decide) | skip
    exact congrArg _ (intText_inj (htail h).2)
  | double d =>
    cases w <;> first | exact absurd (htail h).1 (by decide) | skip
    exact congrArg _ (hdouble d _ rfl rfl (doubleText_eq (htail h).2))
  | bool b =>
    cases w <;> first | exact absurd (htail h).1 (by decide) | skip
    rename_i b'
    cases b <;> cases b' <;> first | rfl | exact absurd h (by decide)
  | timestampNs n =>
    cases w <;> first | exact absurd (htail h).1 (by decide) | skip
    exact congrArg _ (intText_inj (htail h).2)
  | durationNs n =>
    cases w <;> first | exact absurd (htail h).1 (by decide) | skip
    exact congrArg _ (intText_inj (htail h).2)

/-! ## 5. When the keys tell predicates apart -/

/-- The operands tell two predicates on one column under one operator apart.

No text in them reads like a further operand, and numbers in one place that agree to the sixth
decimal are equal.  With equal operands the tables must be the same one, since the key leaves the
table out. -/
structure OperandsApart (p q : PlannerPredicate) : Prop where
  table : p.values = q.values → p.tableAlias = q.tableAlias
  texts : ∀ s, Literal.string s ∈ p.values ∨ Literal.string s ∈ q.values → PlainText s
  doubles : ∀ (i : Nat) (d d' : Binary64), p.values[i]? = some (Literal.double d) →
    q.values[i]? = some (Literal.double d') → sixthDecimal d = sixthDecimal d' → d = d'

/-- **Two predicates that cannot be confused**: neither column name reads like a column and an
operator, and where column and operator agree the operands tell the two apart.  Predicates on two
columns, such as `a.x = 1` and `b.y = 2`, are never confused. -/
structure Apart (p q : PlannerPredicate) : Prop where
  columns : PlainColumn p.column ∧ PlainColumn q.column
  operands : p.column = q.column → p.op = q.op → OperandsApart p q

/-- Two predicates with the same table, column, operator and operands. -/
def Same (p q : PlannerPredicate) : Prop :=
  p.tableAlias = q.tableAlias ∧ p.column = q.column ∧ p.op = q.op ∧ p.values = q.values

theorem opNumber_inj {op op' : PredicateOp} (h : opNumber op = opNumber op') : op = op' := by
  cases op <;> cases op' <;> first | rfl | exact absurd h (by decide)

theorem startsNumber_natText (n : Nat) (more : List Char) :
    startsNumber (natText n ++ more) = true := by
  cases htext : natText n with
  | nil => exact absurd htext Nat.toDigits_ne_nil
  | cons c text =>
    have hdigit := isDigit_of_mem_natText (htext ▸ mem_cons_self : c ∈ natText n)
    simpa [startsNumber] using hdigit

theorem sign_notMem_natText (n : Nat) : '#' ∉ natText n := fun h =>
  absurd (isDigit_of_mem_natText h) (by decide)

theorem predicateKey_joined (p : PlannerPredicate) :
    predicateKey p = p.column.toList ++ '#' ::
      (natText (opNumber p.op) ++ joined '#' (p.values.map literalKey)) := by
  rw [predicateKey, joined, flatMap_map]

variable {p q : PlannerPredicate}

/-- **The key of a predicate tells its column, operator and operands.** -/
theorem same_of_predicateKey (h : Apart p q) (hkey : predicateKey p = predicateKey q) :
    Same p q := by
  rw [predicateKey_joined, predicateKey_joined] at hkey
  obtain ⟨hcolumn, hrest⟩ := split_marked startsNumber_endsBefore h.columns.1 h.columns.2
    (startsNumber_natText _ _) (startsNumber_natText _ _) hkey
  obtain ⟨hop, hvalues⟩ := split_joined (sign_notMem_natText _) (sign_notMem_natText _) hrest
  have hcolumn := String.toList_injective hcolumn
  have hop := opNumber_inj (natText_inj hop)
  have hoperands := h.operands hcolumn hop
  have hkeys : p.values.map literalKey = q.values.map literalKey := by
    refine joined_inj startsOperand_endsBefore startsOperand_append ?_ ?_ hvalues
    · intro text htext
      obtain ⟨v, hv, rfl⟩ := mem_map.mp htext
      exact ⟨literalKey_starts v, literalKey_plain fun s hs => hoperands.texts s (.inl (hs ▸ hv))⟩
    · intro text htext
      obtain ⟨v, hv, rfl⟩ := mem_map.mp htext
      exact ⟨literalKey_starts v, literalKey_plain fun s hs => hoperands.texts s (.inr (hs ▸ hv))⟩
  suffices hequal : p.values = q.values from ⟨hoperands.table hequal, hcolumn, hop, hequal⟩
  refine ext_getElem? fun i => ?_
  have hi := congrArg (·[i]?) hkeys
  simp only [List.getElem?_map] at hi
  cases hp : p.values[i]? with
  | none =>
    rw [hp] at hi
    exact (Option.map_eq_none_iff.mp hi.symm).symm
  | some v =>
    cases hq : q.values[i]? with
    | none =>
      rw [hp, hq] at hi
      cases hi
    | some w =>
      rw [hp, hq] at hi
      refine congrArg some (literalKey_eq (Option.some.inj hi) ?_)
      rintro d d' rfl rfl
      exact hoperands.doubles i d d' hp hq

theorem truth_eq_of_same (h : Same p q) (row : JoinedRow) :
    truth row p = truth row q := by
  obtain ⟨htable, hcolumn, hop, hvalues⟩ := h
  rw [truth, truth, PlannerPredicate.toExecutable, PlannerPredicate.toExecutable, htable, hcolumn,
    hop, hvalues]

/-- Every two predicates of a list are the same or cannot be confused. -/
def ToldApart (predicates : List PlannerPredicate) : Prop :=
  ∀ p ∈ predicates, ∀ q ∈ predicates, Same p q ∨ Apart p q

theorem ToldApart.faithful (h : ToldApart predicates) :
    Faithful predicates := by
  refine faithful_of_sameKey fun p hp q hq hkey row => ?_
  rcases h p hp q hq with hsame | hapart
  · exact truth_eq_of_same hsame row
  · exact truth_eq_of_same (same_of_predicateKey hapart hkey) row

/-! ## 6. The plan keeps its rows -/

variable {db : Database Q}

theorem Faithful.all_holds (h : Faithful predicates) (row : JoinedRow) :
    (dedupe predicates).all (predicateHolds row) = predicates.all (predicateHolds row) := by
  rw [Bool.eq_iff_iff, all_eq_true, all_eq_true]
  constructor
  · intro hall p hp
    obtain ⟨q, hq, hkey⟩ := exists_mem_dedupe hp
    have htruth := h.sameKey q (dedupe_subset hq) p hp hkey row
    have hholds : (truth row q == .trueValue) = true := hall q hq
    rw [htruth] at hholds
    exact hholds
  · intro hall p hp
    exact hall p (dedupe_subset hp)

/-- Every list of predicates in the plan is handled faithfully. -/
def PlanFaithful : LogicalNode Q → Prop
  | .scan s => Faithful s.pushablePredicates
  | .filter input predicates _ _ => PlanFaithful input ∧ Faithful predicates
  | .join _ _ _ leftInput rightInput => PlanFaithful leftInput ∧ PlanFaithful rightInput

theorem aliases_applyConstantFolding (node : LogicalNode Q) :
    (applyConstantFolding node).aliases = node.aliases := by
  induction node with
  | scan s => rfl
  | filter input predicates groups conditions ih => exact ih
  | join type left right leftInput rightInput ihl ihr =>
    exact congrArg₂ (· ++ ·) ihl ihr

/-- **The pass keeps the rows of a plan.** -/
theorem eval_applyConstantFolding {node : LogicalNode Q} (h : PlanFaithful node) :
    (applyConstantFolding node).eval db = node.eval db := by
  induction node with
  | scan s =>
    refine filter_congr fun row _ => ?_
    rw [scanHolds, scanHolds, Faithful.all_holds h]
  | filter input predicates groups conditions ih =>
    rw [applyConstantFolding, LogicalNode.eval, LogicalNode.eval, ih h.1]
    refine filter_congr fun row _ => ?_
    rw [filterHolds, filterHolds, h.2.all_holds]
  | join type left right leftInput rightInput ihl ihr =>
    cases type <;>
      simp only [applyConstantFolding, LogicalNode.eval, ihl h.1, ihr h.2,
        aliases_applyConstantFolding]

/-! ## 7. Confusable predicates -/

/-- A predicate as the binder makes it, on a column without capabilities. -/
def predicateOn (tableAlias column : String) (op : PredicateOp) (values : List Literal) :
    PlannerPredicate :=
  ⟨column, tableAlias, op, values, [], []⟩

/-- The row of a table with one cell everywhere. -/
def rowOf (tableAlias : String) (cell : Cell) : JoinedRow := [(tableAlias, some fun _ => cell)]

/-- **Too many rows**: the second of two predicates with one key is gone. -/
theorem not_faithful_pair (row : JoinedRow) (hkey : predicateKey p = predicateKey q)
    (hp : truth row p = .trueValue) (hq : truth row q = .falseValue) :
    ¬ Faithful [p, q] := by
  intro h
  have hdedupe : dedupe [p, q] = [p] := by
    rw [dedupe, unseen_nil, firstRows, firstRows, firstRows]
    simp [hkey]
  have hconj := h.conjunction row
  rw [hdedupe, conjunction, conjunction, map_cons, map_cons, map_nil, map_cons,
    map_nil, hp, hq] at hconj
  exact absurd hconj (by decide)

theorem truth_on {row : JoinedRow} {tableAlias column : String} {op : PredicateOp}
    {values : List Literal} (cell : Cell) (hrow : tableRow row tableAlias = fun _ => cell)
    (hcolumn : column ≠ "tag") (hcell : cell.isValid = true) :
    truth row (predicateOn tableAlias column op values) =
      .ofBool (scalarMatchesPredicate cell ⟨column, op, values⟩) := by
  rw [truth, show (predicateOn tableAlias column op values).tableAlias = tableAlias from rfl, hrow]
  simp [rowTruth, predicateOn, PlannerPredicate.toExecutable, hcolumn, hcell]

theorem tableRow_rowOf (tableAlias : String) (cell : Cell) :
    tableRow (rowOf tableAlias cell) tableAlias = fun _ => cell := by
  simp [tableRow, rowOf]

theorem text_in (column text : String) (values : List Literal) :
    scalarMatchesPredicate (.scalar (.string text)) ⟨column, .IN, .string text :: values⟩ =
      true := by
  simp [scalarMatchesPredicate, nativeScalarFromArrow, nativeScalarFromLiteral, compareSingle,
    compareString]

theorem text_in_one {column text other : String} (h : text ≠ other) :
    scalarMatchesPredicate (.scalar (.string text)) ⟨column, .IN, [.string other]⟩ = false := by
  simp [scalarMatchesPredicate, nativeScalarFromArrow, nativeScalarFromLiteral, compareSingle,
    compareString, h]

theorem append_ne {text more : String} (h : more ≠ "") : text ≠ text ++ more := by
  intro heq
  have hlength := congrArg (fun s => s.toList.length) heq
  have hempty : more.toList.length = 0 := by simpa using hlength
  exact h (String.toList_injective (eq_nil_of_length_eq_zero hempty))

theorem predicateKey_in (tableAlias column : String) (op : PredicateOp) (values : List Literal) :
    predicateKey (predicateOn tableAlias column op values) =
      column.toList ++ '#' :: (natText (opNumber op) ++
        values.flatMap fun value => '#' :: literalKey value) := rfl

theorem not_faithful_text (tableAlias column text : String) (v : Literal)
    (hcolumn : column ≠ "tag") :
    ¬ Faithful [predicateOn tableAlias column .IN [.string text, v],
      predicateOn tableAlias column .IN
        [.string (text ++ ("#" ++ String.ofList (literalKey v)))]] := by
  have hlonger : text ≠ text ++ ("#" ++ String.ofList (literalKey v)) := by
    refine append_ne fun h => ?_
    have := congrArg String.toList h
    simp at this
  refine not_faithful_pair (rowOf tableAlias (.scalar (.string text))) ?_ ?_ ?_
  · simp [predicateKey_in, literalKey]
  · rw [truth_on _ (tableRow_rowOf _ _) hcolumn rfl, text_in]
    rfl
  · rw [truth_on _ (tableRow_rowOf _ _) hcolumn rfl, text_in_one hlonger]
    rfl

theorem not_faithful_column (tableAlias column text : String) (hcolumn : column ≠ "tag") :
    ¬ Faithful [predicateOn tableAlias column .IN [.string (text ++ "#11")],
      predicateOn tableAlias (column ++ "#6#s:" ++ text) .IS_NULL []] := by
  have hother : column ++ "#6#s:" ++ text ≠ "tag" := by
    intro h
    have hmem : '#' ∈ (column ++ "#6#s:" ++ text).toList := by simp
    rw [h] at hmem
    exact absurd hmem (by decide)
  refine not_faithful_pair (rowOf tableAlias (.scalar (.string (text ++ "#11")))) ?_ ?_ ?_
  · simp [predicateKey_in, literalKey, opNumber, natText, Nat.toDigits, Nat.toDigitsCore]
  · rw [truth_on _ (tableRow_rowOf _ _) hcolumn rfl, text_in]
    rfl
  · rw [truth_on _ (tableRow_rowOf _ _) hother rfl]
    rfl

theorem eqb_self {d : Binary64} (h : d ≠ .nan) : d.eqb d = true := by
  cases d with
  | nan => exact absurd rfl h
  | inf negative => cases negative <;> rfl
  | finite q => exact beq_self_eq_true q

theorem eqb_eq_false {d d' : Binary64} (h : d ≠ d') : d.eqb d' = false := by
  cases d <;> cases d' <;> simp_all [Binary64.eqb]

theorem not_faithful_double (tableAlias column : String) {d d' : Binary64}
    (hcolumn : column ≠ "tag") (hne : d ≠ d') (htext : doubleText d = doubleText d') :
    ¬ Faithful [predicateOn tableAlias column .EQ [.double d],
      predicateOn tableAlias column .EQ [.double d']] := by
  have hnan : d ≠ .nan := by
    rintro rfl
    have hsixth := doubleText_eq htext
    cases d' with
    | nan => exact hne rfl
    | inf negative => cases hsixth
    | finite q => cases hsixth
  have heq : ∀ e, scalarMatchesPredicate (.scalar (.floatingPoint d)) ⟨column, .EQ, [.double e]⟩ =
      d.eqb e := fun e => rfl
  refine not_faithful_pair (rowOf tableAlias (.scalar (.floatingPoint d))) ?_ ?_ ?_
  · simp [predicateKey_in, literalKey, htext]
  · rw [truth_on _ (tableRow_rowOf _ _) hcolumn rfl, heq, eqb_self hnan]
    rfl
  · rw [truth_on _ (tableRow_rowOf _ _) hcolumn rfl, heq, eqb_eq_false hne]
    rfl

theorem not_faithful_table {tableAlias otherAlias : String} (column text : String)
    (hcolumn : column ≠ "tag") (hne : tableAlias ≠ otherAlias) :
    ¬ Faithful [predicateOn tableAlias column .IN [.string text],
      predicateOn otherAlias column .IN [.string text]] := by
  have hlookup : (otherAlias == tableAlias) = false := by
    rw [beq_eq_false_iff_ne]
    exact hne.symm
  refine not_faithful_pair [(tableAlias, some fun _ => .scalar (.string text)),
    (otherAlias, some fun _ => .scalar (.string (text ++ "x")))] rfl ?_ ?_
  · rw [truth_on (.scalar (.string text)) (by simp [tableRow]) hcolumn rfl, text_in]
    rfl
  · rw [truth_on (.scalar (.string (text ++ "x")))
      (by simp [tableRow, lookup_cons, hlookup]) hcolumn rfl,
      text_in_one (append_ne (by decide)).symm]
    rfl

/-! ## 8. Duplicate removal -/

/-- **When removing duplicates keeps the meaning**: where every two predicates are the same or
cannot be confused (`Apart`); and each of the four ways to be confused loses a predicate, so that
rows come back that it excludes. -/
theorem dedupe_faithful (predicates : List PlannerPredicate) :
    (ToldApart predicates → Faithful predicates) ∧
      (∀ tableAlias column text v, column ≠ "tag" →
        ¬ Faithful [predicateOn tableAlias column .IN [.string text, v],
          predicateOn tableAlias column .IN
            [.string (text ++ ("#" ++ String.ofList (literalKey v)))]]) ∧
      (∀ tableAlias column text, column ≠ "tag" →
        ¬ Faithful [predicateOn tableAlias column .IN [.string (text ++ "#11")],
          predicateOn tableAlias (column ++ "#6#s:" ++ text) .IS_NULL []]) ∧
      (∀ tableAlias column d d', column ≠ "tag" → d ≠ d' → doubleText d = doubleText d' →
        ¬ Faithful [predicateOn tableAlias column .EQ [.double d],
          predicateOn tableAlias column .EQ [.double d']]) ∧
      ∀ tableAlias otherAlias column text, column ≠ "tag" → tableAlias ≠ otherAlias →
        ¬ Faithful [predicateOn tableAlias column .IN [.string text],
          predicateOn otherAlias column .IN [.string text]] :=
  ⟨ToldApart.faithful, not_faithful_text, not_faithful_column,
    fun tableAlias column _ _ => not_faithful_double tableAlias column,
    fun _ _ column text => not_faithful_table column text⟩

/-- `a.x = 1`, and `b.y = 1` on another table and column. -/
def onOneColumn (tableAlias column : String) : PlannerPredicate :=
  predicateOn tableAlias column .EQ [.int64 1]

/-- The repeated predicate goes, the one on the other table stays. -/
theorem dedupe_faithful_twoTables :
    dedupe [onOneColumn "a" "x", onOneColumn "b" "y", onOneColumn "a" "x"] =
        [onOneColumn "a" "x", onOneColumn "b" "y"] ∧
      Faithful [onOneColumn "a" "x", onOneColumn "b" "y", onOneColumn "a" "x"] := by
  have hx : PlainColumn "x" := unmarked_of_notMem (by decide)
  have hy : PlainColumn "y" := unmarked_of_notMem (by decide)
  have hmem : ∀ p ∈ [onOneColumn "a" "x", onOneColumn "b" "y", onOneColumn "a" "x"],
      p = onOneColumn "a" "x" ∨ p = onOneColumn "b" "y" := by simp
  refine ⟨rfl, (dedupe_faithful _).1 fun p hp q hq => ?_⟩
  rcases hmem p hp with rfl | rfl <;> rcases hmem q hq with rfl | rfl
  · exact .inl ⟨rfl, rfl, rfl, rfl⟩
  · exact .inr ⟨⟨hx, hy⟩, fun h => absurd h (by decide)⟩
  · exact .inr ⟨⟨hy, hx⟩, fun h => absurd h (by decide)⟩
  · exact .inl ⟨rfl, rfl, rfl, rfl⟩

/-- `name IN ('a', 'b') AND name IN ('a#s:b')`. -/
theorem dedupe_loses_predicate :
    ¬ Faithful [predicateOn "d" "name" .IN [.string "a", .string "b"],
      predicateOn "d" "name" .IN [.string "a#s:b"]] :=
  not_faithful_pair (rowOf "d" (.scalar (.string "a"))) rfl rfl rfl

end MldpDriver.Query.ConstantFolding

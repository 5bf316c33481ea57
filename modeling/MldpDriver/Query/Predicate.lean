/-
# Executable predicates and their evaluation on one cell

The query engine filters Arrow batches with `Predicate`s: a column name, an operator and bound
literals.  This module is the data and the evaluation on ONE cell (`scalarMatchesPredicate`),
with the two conversions it goes through (`nativeScalarFromArrow`, `nativeScalarFromLiteral`).
-/
import Mathlib.Data.List.Infix
import MldpDriver.Lib.Binary64

namespace MldpDriver.Query

open Lib (Binary64)

/-! ## 1. Operators, literals, predicates -/

inductive PredicateOp where
  | EQ | NEQ | LT | LTE | GT | GTE | IN | PREFIX | CONTAINS | LIKE | BETWEEN | IS_NULL
  | IS_NOT_NULL
  deriving DecidableEq

/-- `ExecutableLiteralValue`. -/
inductive Literal where
  | string (value : String)
  | int64 (value : Int)
  | double (value : Binary64)
  | bool (value : Bool)
  | timestampNs (value : Int)
  | durationNs (value : Int)

/-- The string alternative of the variant, when it holds one. -/
def Literal.string? : Literal → Option String
  | string s => some s
  | _ => none

structure Predicate where
  column : String
  op : PredicateOp
  values : List Literal

/-! ## 2. Cells -/

/-- `NativeScalar`: the kind and the payload in one. -/
inductive NativeScalar where
  | null
  | string (value : String)
  | boolean (value : Bool)
  | signedInteger (value : Int)
  | unsignedInteger (value : Nat)
  | floatingPoint (value : Binary64)
  | timestamp (ns : Int)
  | duration (ns : Int)
  | unsupported
  deriving DecidableEq

/-- One cell of a batch: a scalar (a union cell is the scalar its active child holds) or a list
of scalars. -/
inductive Cell where
  | scalar (value : NativeScalar)
  | list (values : List NativeScalar)
  deriving DecidableEq

/-- `scalar && scalar->is_valid`. -/
def Cell.isValid : Cell → Bool
  | .scalar .null => false
  | _ => true

def nativeScalarFromArrow : Cell → NativeScalar
  | .scalar value => value
  | .list _ => .unsupported

def nativeScalarFromLiteral : Literal → NativeScalar
  | .string s => .string s
  | .int64 n => .signedInteger n
  | .double d => .floatingPoint d
  | .bool b => .boolean b
  | .timestampNs n => .timestamp n
  | .durationNs n => .duration n

/-! ## 3. LIKE -/

/-- The bytes of a `std::string`. -/
def bytes (s : String) : List UInt8 := s.toUTF8.data.toList

inductive PatternToken where
  | literal (value : UInt8)
  | any
  | single
  deriving DecidableEq

/-- The token loop of `matchesLikePattern`: a backslash takes the next byte literally, a trailing
backslash is itself a literal. -/
def likeTokens : List UInt8 → List PatternToken
  | [] => []
  | [c] => [plain c]
  | c :: d :: rest =>
    if c = 92 then .literal d :: likeTokens rest
    else plain c :: likeTokens (d :: rest)
where
  plain (c : UInt8) : PatternToken :=
    if c = 37 ∨ c = 42 then .any else if c = 95 then .single else .literal c

/-- `std::tolower` in the C locale. -/
def toLower (c : UInt8) : UInt8 := if 65 ≤ c ∧ c ≤ 90 then c + 32 else c

def equalIgnoreCase (lhs rhs : UInt8) : Bool := toLower lhs == toLower rhs

structure LikeState where
  valueIndex : Nat
  tokenIndex : Nat
  /-- `wildcard_token` and `wildcard_value`; `none` is `std::string::npos`. -/
  wildcard : Option (Nat × Nat)

/-- The token at the cursor consumes the byte at the cursor. -/
def consumes (token : Option PatternToken) (byte : Option UInt8) : Bool :=
  match token, byte with
  | some .single, some _ => true
  | some (.literal c), some b => equalIgnoreCase c b
  | _, _ => false

/-- One iteration of the matching loop, entered while `value_index < value.size()`. -/
def likeStep (value : List UInt8) (tokens : List PatternToken) (s : LikeState) :
    Option LikeState :=
  if consumes tokens[s.tokenIndex]? value[s.valueIndex]? then
    some { s with tokenIndex := s.tokenIndex + 1, valueIndex := s.valueIndex + 1 }
  else if tokens[s.tokenIndex]? = some .any then
    some { s with tokenIndex := s.tokenIndex + 1, wildcard := some (s.tokenIndex, s.valueIndex) }
  else
    match s.wildcard with
    | some (token, mark) =>
      some { valueIndex := mark + 1, tokenIndex := token + 1, wildcard := some (token, mark + 1) }
    | none => none

/-- The matching loop and the trailing wildcards; `none` when the fuel runs out. -/
def likeLoop (value : List UInt8) (tokens : List PatternToken) : Nat → LikeState → Option Bool
  | 0, _ => none
  | fuel + 1, s =>
    if s.valueIndex < value.length then
      match likeStep value tokens s with
      | some s' => likeLoop value tokens fuel s'
      | none => some false
    else some ((tokens.drop s.tokenIndex).all (· == .any))

/-- Every restart moves the mark forward, and between restarts a cursor moves forward. -/
def likeFuel (value : List UInt8) (tokens : List PatternToken) : Nat :=
  (value.length + 2) * (value.length + tokens.length + 1)

def matchesLikePattern (value pattern : String) : Bool :=
  let tokens := likeTokens (bytes pattern)
  (likeLoop (bytes value) tokens (likeFuel (bytes value) tokens) ⟨0, 0, none⟩).getD false

/-- What is left of the work of the loop at a state. -/
def likeMeasure (value : List UInt8) (tokens : List PatternToken) (s : LikeState) : Nat :=
  (match s.wildcard with
    | none => value.length + 1
    | some (_, mark) => value.length - mark) * (value.length + tokens.length + 1)
    + (value.length - s.valueIndex) + (tokens.length - s.tokenIndex)

/-- The mark never overtakes the cursor, and the wildcard token is behind the token cursor. -/
def LikeState.Ok (s : LikeState) : Prop :=
  ∀ token mark, s.wildcard = some (token, mark) → mark ≤ s.valueIndex ∧ token < s.tokenIndex

theorem likeStep_ok {value : List UInt8} {tokens : List PatternToken} {s s' : LikeState}
    (h : likeStep value tokens s = some s') (hok : s.Ok) : s'.Ok := by
  unfold likeStep at h
  split at h
  · obtain rfl := Option.some.inj h
    intro token mark hw
    have := hok token mark hw
    simp only
    omega
  · split at h
    · obtain rfl := Option.some.inj h
      intro token mark hw
      obtain ⟨rfl, rfl⟩ := Prod.mk.inj (Option.some.inj hw)
      simp
    · split at h
      · obtain rfl := Option.some.inj h
        intro token mark hw
        obtain ⟨rfl, rfl⟩ := Prod.mk.inj (Option.some.inj hw)
        simp
      · simp at h

theorem likeStep_measure {value : List UInt8} {tokens : List PatternToken} {s s' : LikeState}
    (hv : s.valueIndex < value.length) (h : likeStep value tokens s = some s') (hok : s.Ok) :
    likeMeasure value tokens s' < likeMeasure value tokens s := by
  unfold likeStep at h
  split at h
  · obtain rfl := Option.some.inj h
    simp only [likeMeasure]
    omega
  · split at h
    · -- a wildcard: the mark moves up to the cursor
      rename_i hany
      obtain rfl := Option.some.inj h
      have ht : s.tokenIndex < tokens.length := (List.getElem?_eq_some_iff.mp hany).1
      have hA : value.length - s.valueIndex ≤
          (match s.wildcard with
            | none => value.length + 1
            | some (_, mark) => value.length - mark) := by
        cases hw : s.wildcard with
        | none => simp only; omega
        | some p => have := hok p.1 p.2 hw; simp only; omega
      have hmul := Nat.mul_le_mul_right (value.length + tokens.length + 1) hA
      simp only [likeMeasure]
      omega
    · split at h
      · -- a restart: the mark moves forward by one byte
        rename_i token mark hw
        obtain rfl := Option.some.inj h
        have hm := hok token mark hw
        have hA : value.length - mark = value.length - (mark + 1) + 1 := by omega
        simp only [likeMeasure, hw]
        rw [hA, Nat.add_mul]
        omega
      · simp at h

/-- **The matching loop terminates**: with more fuel than work left it returns an answer. -/
theorem likeLoop_isSome (value : List UInt8) (tokens : List PatternToken) :
    ∀ (fuel : Nat) (s : LikeState), s.Ok → likeMeasure value tokens s < fuel →
      (likeLoop value tokens fuel s).isSome
  | 0, _, _, h => absurd h (Nat.not_lt_zero _)
  | fuel + 1, s, hok, h => by
    simp only [likeLoop]
    split
    · rename_i hv
      cases hs : likeStep value tokens s with
      | none => rfl
      | some s' =>
        have := likeStep_measure hv hs hok
        exact likeLoop_isSome value tokens fuel s' (likeStep_ok hs hok) (by omega)
    · rfl

theorem likeMeasure_start (value : List UInt8) (tokens : List PatternToken) :
    likeMeasure value tokens ⟨0, 0, none⟩ < likeFuel value tokens := by
  simp only [likeMeasure, likeFuel]
  have : (value.length + 2) * (value.length + tokens.length + 1)
      = (value.length + 1) * (value.length + tokens.length + 1)
        + (value.length + tokens.length + 1) := by ring
  omega

/-! ## 4. One comparison

The comparison `compareNumeric` takes `double` parameters.  The timestamp branches call it with
`int64_t` nanoseconds, so a timestamp comparison is a comparison of rounded values; nothing else
about it is approximate. -/

/-- The `compareNumeric` lambda: its parameters are `double`s. -/
def compareNumeric (lhs rhs : Binary64) : PredicateOp → Bool
  | .EQ => lhs.eqb rhs
  | .NEQ => !lhs.eqb rhs
  | .LT => lhs.ltb rhs
  | .LTE => lhs.leb rhs
  | .GT => rhs.ltb lhs
  | .GTE => rhs.leb lhs
  | _ => false

def compareString (lhs rhs : String) : PredicateOp → Bool
  | .EQ => lhs == rhs
  | .NEQ => lhs != rhs
  | .PREFIX => decide (bytes rhs <+: bytes lhs)
  | .CONTAINS => decide (bytes rhs <:+: bytes lhs)
  | .LIKE => matchesLikePattern lhs rhs
  | .LT => decide (bytes lhs < bytes rhs)
  | .LTE => !decide (bytes rhs < bytes lhs)
  | .GT => decide (bytes rhs < bytes lhs)
  | .GTE => !decide (bytes lhs < bytes rhs)
  | _ => false

def compareBool (lhs rhs : Bool) : PredicateOp → Bool
  | .EQ => lhs == rhs
  | .NEQ => lhs != rhs
  | _ => false

/-- The `as_double` lambda, on the numeric kinds. -/
def NativeScalar.asDouble? : NativeScalar → Option Binary64
  | .signedInteger n => some (.ofInt n)
  | .unsignedInteger n => some (.ofInt n)
  | .floatingPoint d => some d
  | _ => none

/-- The nanoseconds of a second. -/
def nsPerSecond : Int := 1000000000

/-- The `compareSingle` lambda.  A timestamp against an integer literal compares whole seconds
(C++ division truncates towards zero); a timestamp against a timestamp compares nanoseconds. -/
def compareSingle (native : NativeScalar) (literal : Literal) (op : PredicateOp) : Bool :=
  match native, nativeScalarFromLiteral literal with
  | .timestamp ns, .signedInteger n => compareNumeric (.ofInt (ns.tdiv nsPerSecond)) (.ofInt n) op
  | .timestamp lhs, .timestamp rhs => compareNumeric (.ofInt lhs) (.ofInt rhs) op
  | .duration lhs, .duration rhs => compareNumeric (.ofInt lhs) (.ofInt rhs) op
  | .string lhs, .string rhs => compareString lhs rhs op
  | .boolean lhs, .boolean rhs => compareBool lhs rhs op
  | lhs, rhs =>
    match lhs.asDouble?, rhs.asDouble? with
    | some l, some r => compareNumeric l r op
    | _, _ => false

/-- The BETWEEN branch: both bounds temporal of the cell's kind, or all three numeric. -/
def matchesBetween (native : NativeScalar) (values : List Literal) : Bool :=
  match values with
  | [lo, hi] =>
    match native, lo, hi with
    | .timestamp ns, .timestampNs l, .timestampNs h => decide (l ≤ ns) && decide (ns ≤ h)
    | .duration ns, .durationNs l, .durationNs h => decide (l ≤ ns) && decide (ns ≤ h)
    | _, _, _ =>
      match native.asDouble?, (nativeScalarFromLiteral lo).asDouble?,
          (nativeScalarFromLiteral hi).asDouble? with
      | some v, some l, some h => l.leb v && v.leb h
      | _, _, _ => false
  | _ => false

def scalarMatchesPredicate (cell : Cell) (predicate : Predicate) : Bool :=
  match predicate.op with
  | .IS_NULL => !cell.isValid
  | .IS_NOT_NULL => cell.isValid
  | op =>
    match nativeScalarFromArrow cell with
    | .null => false
    | .unsupported => false
    | native =>
      match op, predicate.values with
      | .IN, values => values.any (compareSingle native · .EQ)
      | .BETWEEN, values => matchesBetween native values
      | _, [] => false
      | op, value :: _ => compareSingle native value op

end MldpDriver.Query

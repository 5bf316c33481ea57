/-
# Overrides of the configuration

An override `PATH=VALUE` walks the tree from its root, makes the maps that are missing, and sets a
scalar.  An error leaves what was made until then, and the overrides before it.
-/
import Mathlib.Algebra.Group.Nat.Defs
import Mathlib.Data.List.Basic

namespace MldpDriver.Config

open List Option

/-! ## 1. Paths -/

structure PathSegment where
  key : String
  index : Option Nat

structure ConfigOverride where
  path : String
  value : String

/-- The number that digits spell. -/
def natOfDigits (digits : List Char) : Nat := digits.foldl (fun n c => 10 * n + (c.toNat - 48)) 0

/-- The index behind a key, if there is one, and what comes after it; `std::stoull` throws from 2^64
on. -/
def parseIndex (path : String) : List Char → Except String (Option Nat × List Char)
  | '[' :: rest =>
    let digits := rest.takeWhile Char.isDigit
    match digits, rest.dropWhile Char.isDigit with
    | _ :: _, ']' :: rest =>
      if natOfDigits digits < 2 ^ 64 then .ok (some (natOfDigits digits), rest) else .error "stoull"
    | _, _ => .error ("config override path has an invalid sequence index: '" ++ path ++ "'")
  | rest => .ok (none, rest)

/-- `parsePath`, from a key on; every key takes a character, so there are no more of them. -/
def parseSegments (path : String) : Nat → List Char → Except String (List PathSegment)
  | 0, _ => .error ("config override path contains an empty segment: '" ++ path ++ "'")
  | n + 1, rest => do
    let inKey := fun c => c ≠ '.' && c ≠ '['
    let key := rest.takeWhile inKey
    if key.isEmpty then
      .error ("config override path contains an empty segment: '" ++ path ++ "'")
    else
      let (index, rest) ← parseIndex path (rest.dropWhile inKey)
      match rest with
      | [] => .ok [⟨String.ofList key, index⟩]
      | ['.'] => .error ("config override path must not end with '.': '" ++ path ++ "'")
      | '.' :: rest => .ok (⟨String.ofList key, index⟩ :: (← parseSegments path n rest))
      | _ => .error ("config override path has invalid syntax: '" ++ path ++ "'")

def parsePath (path : String) : Except String (List PathSegment) :=
  if path.isEmpty then .error "config override path must not be empty"
  else parseSegments path path.toList.length path.toList

def parseConfigOverride (arg : String) : Except String ConfigOverride :=
  let path := arg.toList.takeWhile (· ≠ '=')
  match arg.toList.dropWhile (· ≠ '=') with
  | [] => .error ("config override must use PATH=VALUE syntax: '" ++ arg ++ "'")
  | _ :: value =>
    if path.isEmpty then .error "config override path must not be empty"
    else .ok ⟨String.ofList path, String.ofList value⟩

def describeSegment (s : PathSegment) : String :=
  match s.index with
  | some k => s.key ++ "[" ++ toString k ++ "]"
  | none => s.key

/-- `describePathPrefix`. -/
def describePath (segments : List PathSegment) (endExclusive : Nat) : String :=
  ".".intercalate ((segments.take endExclusive).map describeSegment)

/-! ## 2. The tree -/

/-- A node of the configuration; the children of a map in their order. -/
inductive Node
  | scalar (value : String)
  | map (children : List (String × Node))
  | seq (items : List Node)

/-- The first child with the key, and where it is. -/
def findChild : List (String × Node) → String → Option (Nat × Node)
  | [], _ => none
  | (k, c) :: children, key =>
    if k = key then some (0, c) else (findChild children key).map fun f => (f.1 + 1, f.2)

section Walk

variable (o : ConfigOverride) (segments : List PathSegment)

def mismatch (endExclusive : Nat) : String :=
  "config override path '" ++ o.path ++ "' does not match the current configuration at '" ++
    describePath segments endExclusive ++ "'"

/-- What is done with a child that exists; `go` is the rest of the walk. -/
def enter (i : Nat) (isLast : Bool) (go : Node → Node × Option String) : Node → Node × Option String
  | .scalar v =>
    if isLast then (.scalar o.value, none) else (.scalar v, some (mismatch o segments (i + 1)))
  | .map children =>
    if isLast then (.map children, some ("config override path '" ++ o.path ++
      "' points to a non-scalar node and cannot be replaced with a scalar value"))
    else go (.map children)
  | .seq items =>
    if isLast then (.seq items, some ("config override path '" ++ o.path ++
      "' points to a non-scalar node and cannot be replaced with a scalar value"))
    else match items with
      | [] => (.seq [(go (.map [])).1], (go (.map [])).2)
      | [item] => (.seq [(go item).1], (go item).2)
      | _ => (.seq items, some ("config override path '" ++ o.path ++ "' is ambiguous at '" ++
          describePath segments (i + 1) ++
          "' because the sequence has multiple entries; use an explicit [index]"))

/-- `applyConfigOverrideImpl` from segment `i` on: the node after it, and the error. -/
def walk : Nat → List PathSegment → Node → Node × Option String
  | _, [], node => (node, none)
  | i, s :: rest, .map children =>
    match findChild children s.key, s.index with
    | none, some _ => (.map children, some (mismatch o segments (i + 1)))
    | none, none =>
      let r := if rest.isEmpty then (.scalar o.value, none) else walk (i + 1) rest (.map [])
      (.map (children ++ [(s.key, r.1)]), r.2)
    | some (j, c), none =>
      let r := enter o segments i rest.isEmpty (walk (i + 1) rest) c
      (.map (children.set j (s.key, r.1)), r.2)
    | some (j, .seq items), some k =>
      match items[k]? with
      | none => (.map children, some ("config override path '" ++ o.path ++
          "' uses out-of-range index " ++ toString k))
      | some item =>
        let r := enter o segments i rest.isEmpty (walk (i + 1) rest) item
        (.map (children.set j (s.key, .seq (items.set k r.1))), r.2)
    | some _, some _ => (.map children, some (mismatch o segments (i + 1)))
  | i, _ :: _, node => (node, some (mismatch o segments i))

end Walk

/-- `applyConfigOverride`; there is no tree in an invalid configuration. -/
def applyConfigOverride (cfg : Option Node) (o : ConfigOverride) : Option Node × Option String :=
  match cfg with
  | none => (none, some "cannot apply config override to an invalid configuration")
  | some root =>
    match parsePath o.path with
    | .error e => (some root, some e)
    | .ok segments => (some (walk o segments 0 segments root).1, (walk o segments 0 segments root).2)

/-- A pass of the loop of `applyConfigOverrides`. -/
def applyRaw (cfg : Option Node) (raw : String) : Option Node × Option String :=
  match parseConfigOverride raw with
  | .error e => (cfg, some e)
  | .ok o => applyConfigOverride cfg o

def applyConfigOverrides (cfg : Option Node) : List String → Option Node × Option String
  | [] => (cfg, none)
  | raw :: raws =>
    match applyRaw cfg raw with
    | (cfg, none) => applyConfigOverrides cfg raws
    | failed => failed

/-! ## 3. What an override should do -/

inductive Shape
  | scalar (value : String)
  | map
  | seq

/-- A position: at each node the number of the child, and its key in a map. -/
abbrev Position := List (Nat × String)

def shapeAt : Position → Node → Option Shape
  | [], .scalar v => some (.scalar v)
  | [], .map _ => some .map
  | [], .seq _ => some .seq
  | (j, key) :: p, .map children =>
    children[j]?.bind fun c => if c.1 = key then shapeAt p c.2 else none
  | (j, key) :: p, .seq items => if key = "" then items[j]?.bind (shapeAt p) else none
  | _ :: _, .scalar _ => none

/-- The position of a child that is not the last one of a path, in it or its only item. -/
def within (isLast : Bool) (go : Node → Option Position) (c : Node) : Option Position :=
  if isLast then some [] else match c with
    | .seq [item] => (go item).map ((0, "") :: ·)
    | c => go c

/-- Where a path leads to. -/
def resolve : List PathSegment → Node → Option Position
  | s :: rest, .map children =>
    match findChild children s.key, s.index with
    | some (j, c), none => (within rest.isEmpty (resolve rest) c).map ((j, s.key) :: ·)
    | some (j, .seq items), some k =>
      items[k]?.bind fun item =>
        (within rest.isEmpty (resolve rest) item).map ((j, s.key) :: (k, "") :: ·)
    | _, _ => none
  | _, _ => none

/-- The scalar that is read at a path. -/
def readPath (segments : List PathSegment) (node : Node) : Option String :=
  (resolve segments node).bind fun p => match shapeAt p node with
    | some (.scalar v) => some v
    | _ => none

/-- The scalar at a position is set; what else is new are the nodes that lead to it. -/
structure Put (old new : Position → Option Shape) (p : Position) (v : String) : Prop where
  set : new p = some (.scalar v)
  frame : ∀ q, q ≠ p → new q = old q ∨ old q = none ∧ q <+: p

/-- **An override that succeeds** sets what is read at its path, and nothing else. -/
def Assigned (old new : Node) (segments : List PathSegment) (v : String) : Prop :=
  ∃ p, resolve segments new = some p ∧ Put (shapeAt · old) (shapeAt · new) p v

/-- **What goes wrong**: a map is made, or an item of an empty sequence, and a later segment has an
index. -/
def spoilsIn (rest : List PathSegment) (go : Node → Bool) : Node → Bool
  | .seq [] => rest.any fun s => s.index.isSome
  | .seq [item] => !rest.isEmpty && go item
  | .map children => !rest.isEmpty && go (.map children)
  | _ => false

def spoils : List PathSegment → Node → Bool
  | s :: rest, .map children =>
    match findChild children s.key, s.index with
    | none, none => rest.any fun s => s.index.isSome
    | some (_, c), none => spoilsIn rest (spoils rest) c
    | some (_, .seq items), some k => items[k]?.any (spoilsIn rest (spoils rest))
    | _, _ => false
  | _, _ => false

/-! ## 4. One step into the tree -/

/-- Nothing that was there is gone, and something is new. -/
structure Grown (old new : Position → Option Shape) : Prop where
  kept : ∀ q, old q ≠ none → new q ≠ none
  made : ∃ q, old q = none ∧ new q ≠ none

/-- Two nodes that differ in one child. -/
structure Below (old new oldChild newChild : Position → Option Shape) (step : Nat × String) :
    Prop where
  here : new [] = old []
  before : ∀ q, old (step :: q) = oldChild q
  after : ∀ q, new (step :: q) = newChild q
  beside : ∀ s q, s ≠ step → new (s :: q) = old (s :: q)

section Below

variable {old new oldChild newChild : Position → Option Shape} {step : Nat × String}

theorem Below.put {p : Position} {v : String} (h : Below old new oldChild newChild step)
    (hput : Put oldChild newChild p v) : Put old new (step :: p) v where
  set := (h.after p).trans hput.set
  frame q hq := by
    cases q with
    | nil => exact .inl h.here
    | cons s q =>
      by_cases hs : s = step
      · subst hs
        rw [h.before, h.after]
        refine (hput.frame q fun he => hq (he ▸ rfl)).imp_right fun hout => ⟨hout.1, ?_⟩
        exact cons_prefix_cons.mpr ⟨rfl, hout.2⟩
      · exact .inl (h.beside s q hs)

theorem Below.grown (h : Below old new oldChild newChild step) (hgrown : Grown oldChild newChild) :
    Grown old new where
  kept q hq := by
    cases q with
    | nil => exact h.here ▸ hq
    | cons s q =>
      by_cases hs : s = step
      · subst hs
        rw [h.before] at hq
        rw [h.after]
        exact hgrown.kept q hq
      · rwa [h.beside s q hs]
  made := by
    obtain ⟨q, hold, hnew⟩ := hgrown.made
    exact ⟨step :: q, (h.before q).trans hold, by rwa [h.after]⟩

end Below

attribute [local simp] shapeAt

variable {children : List (String × Node)}
variable {key : String}

theorem below_child {j : Nat} {c : Node} (hc : children[j]? = some (key, c)) (c' : Node) :
    Below (shapeAt · (.map children)) (shapeAt · (.map (children.set j (key, c')))) (shapeAt · c)
      (shapeAt · c') (j, key) where
  here := rfl
  before q := by simp [hc]
  after q := by simp [(List.getElem?_eq_some_iff.mp hc).1]
  beside s q hs := by
    obtain ⟨i, k⟩ := s
    rcases eq_or_ne i j with rfl | hij
    · have hk : ¬ key = k := fun hk => hs (hk ▸ rfl)
      simp only [shapeAt, hc, List.getElem?_set_self (List.getElem?_eq_some_iff.mp hc).1,
        bind_some, if_neg hk]
    · simp [List.getElem?_set_ne hij.symm]

theorem below_new (children : List (String × Node)) (key : String) (c' : Node) :
    Below (shapeAt · (.map children)) (shapeAt · (.map (children ++ [(key, c')]))) (fun _ => none)
      (shapeAt · c') (children.length, key) where
  here := rfl
  before q := by simp
  after q := by simp
  beside s q hs := by
    obtain ⟨i, k⟩ := s
    rcases Nat.lt_trichotomy i children.length with hi | rfl | hi
    · simp [List.getElem?_append_left hi]
    · have hk : ¬ key = k := fun hk => hs (hk ▸ rfl)
      simp [hk]
    · have hlength : (children ++ [(key, c')]).length ≤ i := by
        rw [length_append]
        exact hi
      simp only [shapeAt, List.getElem?_eq_none hlength, List.getElem?_eq_none (Nat.le_of_lt hi)]

theorem below_item {items : List Node} {k : Nat} {item : Node} (hitem : items[k]? = some item)
    (c' : Node) : Below (shapeAt · (.seq items)) (shapeAt · (.seq (items.set k c'))) (shapeAt · item)
      (shapeAt · c') (k, "") where
  here := rfl
  before q := by simp [hitem]
  after q := by simp [(List.getElem?_eq_some_iff.mp hitem).1]
  beside s q hs := by
    obtain ⟨i, key⟩ := s
    by_cases hkey : key = ""
    · have hi : k ≠ i := fun hi => hs (by rw [hi, hkey])
      simp [List.getElem?_set_ne hi]
    · simp [hkey]

theorem below_first (c' : Node) :
    Below (shapeAt · (.seq [])) (shapeAt · (.seq [c'])) (fun _ => none) (shapeAt · c') (0, "") where
  here := rfl
  before q := by simp
  after q := by simp
  beside s q hs := by
    obtain ⟨i, key⟩ := s
    by_cases hkey : key = ""
    · have hi : i ≠ 0 := fun hi => hs (by rw [hi, hkey])
      obtain ⟨i, rfl⟩ := Nat.exists_eq_succ_of_ne_zero hi
      simp
    · simp [hkey]

theorem getElem?_of_findChild {j : Nat} {c : Node} (h : findChild children key = some (j, c)) :
    children[j]? = some (key, c) := by
  induction children generalizing j with
  | nil => cases h
  | cons child children ih =>
    obtain ⟨k, d⟩ := child
    rw [findChild] at h
    split at h
    · next hk =>
      obtain ⟨rfl, rfl⟩ := Prod.mk.inj (some.inj h)
      rw [hk]
      rfl
    · obtain ⟨⟨i, d'⟩, hfind, heq⟩ := map_eq_some_iff.mp h
      obtain ⟨rfl, rfl⟩ := Prod.mk.inj heq
      exact ih hfind

theorem findChild_set {j : Nat} {c : Node} (h : findChild children key = some (j, c)) (c' : Node) :
    findChild (children.set j (key, c')) key = some (j, c') := by
  induction children generalizing j with
  | nil => cases h
  | cons child children ih =>
    obtain ⟨k, d⟩ := child
    rw [findChild] at h
    split at h
    · obtain ⟨rfl, rfl⟩ := Prod.mk.inj (some.inj h)
      rw [set_cons_zero, findChild, if_pos rfl]
    · next hk =>
      obtain ⟨⟨i, d'⟩, hfind, heq⟩ := map_eq_some_iff.mp h
      obtain ⟨rfl, rfl⟩ := Prod.mk.inj heq
      rw [set_cons_succ, findChild, if_neg hk, ih hfind]
      rfl

theorem findChild_snoc (h : findChild children key = none) (c : Node) :
    findChild (children ++ [(key, c)]) key = some (children.length, c) := by
  induction children with
  | nil => simp [findChild]
  | cons child children ih =>
    obtain ⟨k, d⟩ := child
    rw [findChild] at h
    split at h
    · cases h
    · next hk =>
      rw [cons_append, findChild, if_neg hk, ih (map_eq_none_iff.mp h)]
      rfl

/-! ## 5. The walk -/

/-- **What comes of a walk**: it sets the scalar, or fails and leaves the node, or fails having made
nodes. -/
def Outcome (old new : Position → Option Shape) (same : Prop) (error : Option String) (spoilt : Bool)
    (position : Option Position) (v : String) : Prop :=
  error = none ∧ spoilt = false ∧ (∃ p, position = some p ∧ Put old new p v) ∨
    error.isSome ∧ spoilt = false ∧ same ∨ error.isSome ∧ spoilt = true ∧ Grown old new

theorem Outcome.below {old new oldChild newChild : Position → Option Shape} {step : Nat × String}
    {same same' : Prop} {error : Option String} {spoilt : Bool} {position : Option Position}
    {v : String} (h : Outcome oldChild newChild same error spoilt position v)
    (hbelow : Below old new oldChild newChild step) (hsame : same → same') :
    Outcome old new same' error spoilt (position.map (step :: ·)) v := by
  rcases h with ⟨herror, hspoilt, p, hp, hput⟩ | ⟨herror, hspoilt, h⟩ | ⟨herror, hspoilt, hgrown⟩
  · exact .inl ⟨herror, hspoilt, step :: p, by rw [hp]; rfl, hbelow.put hput⟩
  · exact .inr (.inl ⟨herror, hspoilt, hsame h⟩)
  · exact .inr (.inr ⟨herror, hspoilt, hbelow.grown hgrown⟩)

section Spec

variable (o : ConfigOverride) (segments : List PathSegment)

theorem walk_map (i : Nat) (rest : List PathSegment) (children : List (String × Node)) :
    ∃ children', (walk o segments i rest (.map children)).1 = .map children' := by
  cases rest with
  | nil => exact ⟨children, rfl⟩
  | cons s rest =>
    rw [walk]
    split
    · exact ⟨_, rfl⟩
    · exact ⟨_, rfl⟩
    · exact ⟨_, rfl⟩
    · split <;> exact ⟨_, rfl⟩
    · exact ⟨_, rfl⟩

theorem walk_empty_error (i : Nat) (rest : List PathSegment) :
    (walk o segments i rest (.map [])).2.isSome = rest.any fun s => s.index.isSome := by
  induction rest generalizing i with
  | nil => rfl
  | cons s rest ih =>
    rw [walk, any_cons]
    cases hindex : s.index with
    | some k => rfl
    | none =>
      cases rest with
      | nil => rfl
      | cons s' rest => exact ih (i + 1)

/-- The rest of a walk does what it should, and so do the steps before it. -/
theorem fresh_spec {i : Nat} {rest : List PathSegment}
    (h : Outcome (shapeAt · (.map [])) (shapeAt · (walk o segments i rest (.map [])).1)
      ((walk o segments i rest (.map [])).1 = .map []) (walk o segments i rest (.map [])).2
      (spoils rest (.map [])) (resolve rest (walk o segments i rest (.map [])).1) o.value) :
    Outcome (fun _ => none) (shapeAt · (walk o segments i rest (.map [])).1) False
      (walk o segments i rest (.map [])).2 (rest.any fun s => s.index.isSome)
      (resolve rest (walk o segments i rest (.map [])).1) o.value := by
  have herror := walk_empty_error o segments i rest
  obtain ⟨children, hmap⟩ := walk_map o segments i rest []
  have hroot : shapeAt [] (walk o segments i rest (.map [])).1 ≠ none := by
    rw [hmap]
    exact some_ne_none _
  rcases h with ⟨hnone, -, p, hp, hput⟩ | ⟨hsome, -⟩ | ⟨hsome, -⟩
  · refine .inl ⟨hnone, by rw [← herror, hnone]; rfl, p, hp, hput.set, fun q hq => ?_⟩
    cases q with
    | nil => exact .inr ⟨rfl, nil_prefix⟩
    | cons s q =>
      refine (hput.frame (s :: q) hq).imp (fun heq => heq.trans ?_) fun hout => ⟨rfl, hout.2⟩
      simp [shapeAt]
  · exact .inr (.inr ⟨hsome, herror ▸ hsome, fun _ h => absurd rfl h, [], rfl, hroot⟩)
  · exact .inr (.inr ⟨hsome, herror ▸ hsome, fun _ h => absurd rfl h, [], rfl, hroot⟩)

theorem enter_spec {i : Nat} {rest : List PathSegment}
    (ih : rest ≠ [] → ∀ c, Outcome (shapeAt · c) (shapeAt · (walk o segments (i + 1) rest c).1)
      ((walk o segments (i + 1) rest c).1 = c) (walk o segments (i + 1) rest c).2 (spoils rest c)
      (resolve rest (walk o segments (i + 1) rest c).1) o.value) (c : Node) :
    let r := enter o segments i rest.isEmpty (walk o segments (i + 1) rest) c
    Outcome (shapeAt · c) (shapeAt · r.1) (r.1 = c) r.2 (spoilsIn rest (spoils rest) c)
      (within rest.isEmpty (resolve rest) r.1) o.value := by
  cases rest with
  | nil =>
    cases c with
    | scalar v =>
      refine .inl ⟨rfl, rfl, [], rfl, rfl, fun q hq => .inl ?_⟩
      cases q with
      | nil => exact absurd rfl hq
      | cons s q => simp [shapeAt, enter]
    | map children => exact .inr (.inl ⟨rfl, rfl, rfl⟩)
    | seq items =>
      refine .inr (.inl ⟨rfl, ?_, rfl⟩)
      rcases items with _ | ⟨item, _ | ⟨item', items⟩⟩ <;> rfl
  | cons s rest =>
    have ih := ih (cons_ne_nil s rest)
    cases c with
    | scalar v => exact .inr (.inl ⟨rfl, rfl, rfl⟩)
    | map children =>
      obtain ⟨children', hmap⟩ := walk_map o segments (i + 1) (s :: rest) children
      have hwithin : within false (resolve (s :: rest))
          (walk o segments (i + 1) (s :: rest) (.map children)).1 =
          resolve (s :: rest) (walk o segments (i + 1) (s :: rest) (.map children)).1 := by
        rw [hmap]
        rfl
      have h := ih (.map children)
      rw [← hwithin] at h
      exact h
    | seq items =>
      rcases items with _ | ⟨item, _ | ⟨item', items⟩⟩
      · exact (fresh_spec o segments (ih (.map []))).below (below_first _)
          False.elim
      · have hbelow : Below (shapeAt · (.seq [item]))
            (shapeAt · (.seq [(walk o segments (i + 1) (s :: rest) item).1])) (shapeAt · item)
            (shapeAt · (walk o segments (i + 1) (s :: rest) item).1) (0, "") :=
          below_item (k := 0) rfl _
        exact (ih item).below hbelow fun h => congrArg (fun c => Node.seq [c]) h
      · exact .inr (.inl ⟨rfl, rfl, rfl⟩)

theorem set_same {α : Type} {l : List α} {i : Nat} {a : α} (h : l[i]? = some a) : l.set i a = l := by
  obtain ⟨hi, rfl⟩ := List.getElem?_eq_some_iff.mp h
  exact set_getElem_self hi

theorem walk_spec (rest : List PathSegment) (hrest : rest ≠ []) (i : Nat) (node : Node) :
    Outcome (shapeAt · node) (shapeAt · (walk o segments i rest node).1)
      ((walk o segments i rest node).1 = node) (walk o segments i rest node).2 (spoils rest node)
      (resolve rest (walk o segments i rest node).1) o.value := by
  induction rest generalizing i node with
  | nil => exact absurd rfl hrest
  | cons s rest ih =>
    have henter := fun c => enter_spec o segments (i := i) (fun hne => ih hne (i + 1)) c
    cases node with
    | scalar v => exact .inr (.inl ⟨rfl, rfl, rfl⟩)
    | seq items => exact .inr (.inl ⟨rfl, rfl, rfl⟩)
    | map children =>
      cases hfind : findChild children s.key with
      | none =>
        cases hindex : s.index with
        | some k =>
          simp only [walk, spoils, resolve, hfind, hindex]
          exact .inr (.inl ⟨rfl, rfl, trivial⟩)
        | none =>
          have hresolve := fun c => findChild_snoc hfind c
          simp only [walk, spoils, resolve, hfind, hindex, hresolve]
          cases rest with
          | nil =>
            have hput : Put (fun _ => none) (shapeAt · (.scalar o.value)) [] o.value := by
              refine ⟨rfl, fun q hq => .inl ?_⟩
              cases q with
              | nil => exact absurd rfl hq
              | cons s q => simp [shapeAt]
            exact .inl ⟨rfl, rfl, _, rfl, (below_new children s.key _).put hput⟩
          | cons s' rest =>
            have hfresh := fresh_spec o segments
              (ih (cons_ne_nil s' rest) (i + 1) (.map []))
            obtain ⟨children', hmap⟩ := walk_map o segments (i + 1) (s' :: rest) []
            have hwithin : within false (resolve (s' :: rest))
                (walk o segments (i + 1) (s' :: rest) (.map [])).1 =
                resolve (s' :: rest) (walk o segments (i + 1) (s' :: rest) (.map [])).1 := by
              rw [hmap]
              rfl
            rw [← hwithin] at hfresh
            exact hfresh.below (below_new children s.key _) False.elim
      | some found =>
        obtain ⟨j, c⟩ := found
        have hc := getElem?_of_findChild hfind
        have hresolve := fun c => findChild_set hfind c
        have hset : ∀ c', c' = c → children.set j (s.key, c') = children := by
          rintro c' rfl
          exact set_same hc
        cases hindex : s.index with
        | none =>
          simp only [walk, spoils, resolve, hfind, hindex, hresolve]
          exact (henter c).below (below_child hc _) fun h => congrArg Node.map (hset _ h)
        | some k =>
          cases c with
          | scalar v =>
            simp only [walk, spoils, resolve, hfind, hindex]
            exact .inr (.inl ⟨rfl, rfl, trivial⟩)
          | map cs =>
            simp only [walk, spoils, resolve, hfind, hindex]
            exact .inr (.inl ⟨rfl, rfl, trivial⟩)
          | seq items =>
            cases hitem : items[k]? with
            | none =>
              simp only [walk, spoils, resolve, hfind, hindex, hitem]
              exact .inr (.inl ⟨rfl, rfl, trivial⟩)
            | some item =>
              have hlt := (List.getElem?_eq_some_iff.mp hitem).1
              have hsame : ∀ c', c' = item → items.set k c' = items := by
                rintro c' rfl
                exact set_same hitem
              have h := ((henter item).below (below_item hitem _) fun h =>
                congrArg Node.seq (hsame _ h)).below (below_child hc _) fun h =>
                  congrArg Node.map (hset _ h)
              rw [Option.map_map] at h
              simp only [walk, spoils, resolve, hfind, hindex, hresolve, hitem,
                List.getElem?_set_self hlt]
              exact h

end Spec

/-! ## 6. Lists of overrides -/

theorem parseSegments_ne_nil {path : String} {n : Nat} {rest : List Char}
    {segments : List PathSegment} (h : parseSegments path n rest = .ok segments) : segments ≠ [] := by
  cases n with
  | zero => cases h
  | succ n =>
    rw [parseSegments] at h
    dsimp only at h
    split at h
    · cases h
    · cases hindex : parseIndex path (rest.dropWhile fun c => c ≠ '.' && c ≠ '[') with
      | error e =>
        rw [hindex] at h
        cases h
      | ok r =>
        obtain ⟨index, rest'⟩ := r
        simp only [hindex, bind, Except.bind] at h
        split at h
        · cases h
          exact cons_ne_nil _ _
        · cases h
        · next rest'' _ =>
          cases hrest : parseSegments path n rest'' with
          | error e =>
            rw [hrest] at h
            cases h
          | ok segments' =>
            rw [hrest] at h
            cases h
            exact cons_ne_nil _ _
        · cases h

theorem parsePath_ne_nil {path : String} {segments : List PathSegment}
    (h : parsePath path = .ok segments) : segments ≠ [] := by
  rw [parsePath] at h
  split at h
  · cases h
  · exact parseSegments_ne_nil h

def shapeOf (cfg : Option Node) (q : Position) : Option Shape := cfg.bind (shapeAt q)

/-- An override that has made nodes when it fails. -/
def spoilsRaw (cfg : Option Node) (raw : String) : Bool :=
  match parseConfigOverride raw with
  | .error _ => false
  | .ok o => match cfg with
    | none => false
    | some root => match parsePath o.path with
      | .error _ => false
      | .ok segments => spoils segments root

/-- The override has set the scalar at its path, which is read there now, and nothing else. -/
def Sets (cfg : Option Node) (raw : String) (cfg' : Option Node) : Prop :=
  ∃ o segments old new, parseConfigOverride raw = .ok o ∧ parsePath o.path = .ok segments ∧
    cfg = some old ∧ cfg' = some new ∧ Assigned old new segments o.value ∧
    readPath segments new = some o.value

theorem applyRaw_spec (cfg : Option Node) (raw : String) :
    ((applyRaw cfg raw).2 = none ∧ Sets cfg raw (applyRaw cfg raw).1 ∧
        ∀ q, shapeOf cfg q ≠ none → shapeOf (applyRaw cfg raw).1 q ≠ none) ∨
      ((applyRaw cfg raw).2.isSome ∧ spoilsRaw cfg raw = false ∧ (applyRaw cfg raw).1 = cfg) ∨
      (applyRaw cfg raw).2.isSome ∧ spoilsRaw cfg raw = true ∧
        Grown (shapeOf cfg) (shapeOf (applyRaw cfg raw).1) := by
  rw [applyRaw, spoilsRaw, Sets]
  cases hraw : parseConfigOverride raw with
  | error e => exact .inr (.inl ⟨rfl, rfl, rfl⟩)
  | ok o =>
    cases cfg with
    | none => exact .inr (.inl ⟨rfl, rfl, rfl⟩)
    | some root =>
      cases hpath : parsePath o.path with
      | error e =>
        simp only [applyConfigOverride, hpath]
        exact .inr (.inl ⟨rfl, trivial, trivial⟩)
      | ok segments =>
        simp only [applyConfigOverride, hpath]
        rcases walk_spec o segments segments (parsePath_ne_nil hpath) 0 root with
          ⟨herror, -, p, hp, hput⟩ | ⟨herror, hspoilt, hsame⟩ | ⟨herror, hspoilt, hgrown⟩
        · refine .inl ⟨herror, ⟨o, segments, root, _, rfl, hpath, rfl, rfl, ⟨p, hp, hput⟩, ?_⟩,
            fun q hq => ?_⟩
          · have hset : shapeAt p (walk o segments 0 segments root).1 = _ := hput.set
            rw [readPath, hp, bind_some, hset]
          · by_cases hqp : q = p
            · subst hqp
              exact fun h => some_ne_none _ (hput.set.symm.trans h)
            · rcases hput.frame q hqp with heq | ⟨hnone, -⟩
              · exact fun h => hq (heq.symm.trans h)
              · exact absurd hnone hq
        · exact .inr (.inl ⟨herror, hspoilt, congrArg some hsame⟩)
        · exact .inr (.inr ⟨herror, hspoilt, hgrown⟩)

/-- Every override of the list that is applied and succeeds does what it should. -/
def AllSet : Option Node → List String → Prop
  | _, [] => True
  | cfg, raw :: raws =>
    (applyRaw cfg raw).2 = none →
      Sets cfg raw (applyRaw cfg raw).1 ∧ AllSet (applyRaw cfg raw).1 raws

/-- **A list that fails leaves the configuration as it was**, and what succeeds sets its scalar. -/
def Intact (cfg : Option Node) (raws : List String) : Prop :=
  ((applyConfigOverrides cfg raws).2.isSome → (applyConfigOverrides cfg raws).1 = cfg) ∧
    AllSet cfg raws

/-- **The first override that fails** has made nothing, and those before it have changed nothing.
Maps on the way are made before an index is found to fail, and stay. -/
def Unspoilt (original : Option Node) : Option Node → List String → Prop
  | _, [] => True
  | cfg, raw :: raws =>
    if (applyRaw cfg raw).2 = none then Unspoilt original (applyRaw cfg raw).1 raws
    else spoilsRaw cfg raw = false ∧ cfg = original

theorem applyConfigOverrides_cons (cfg : Option Node) (raw : String) (raws : List String) :
    applyConfigOverrides cfg (raw :: raws) =
      if (applyRaw cfg raw).2 = none then applyConfigOverrides (applyRaw cfg raw).1 raws
      else applyRaw cfg raw := by
  rw [applyConfigOverrides]
  rcases applyRaw cfg raw with ⟨cfg', _ | e⟩
  · rfl
  · rfl

theorem allSet (cfg : Option Node) (raws : List String) : AllSet cfg raws := by
  induction raws generalizing cfg with
  | nil => trivial
  | cons raw raws ih =>
    intro hnone
    rcases applyRaw_spec cfg raw with ⟨-, hsets, -⟩ | ⟨hsome, -⟩ | ⟨hsome, -⟩
    · exact ⟨hsets, ih _⟩
    · rw [hnone] at hsome
      cases hsome
    · rw [hnone] at hsome
      cases hsome

/-- **When a list of overrides leaves nothing behind**: one that fails leaves the tree as it was
exactly if the overrides before the one that fails change nothing together, and no segment of that
one has an index behind a map that it makes.  One that succeeds sets the scalar at its path and
changes nothing else (`walk_spec`). -/
theorem overrides_intact_iff (cfg : Option Node) (raws : List String) :
    Intact cfg raws ↔ Unspoilt cfg cfg raws := by
  rw [Intact, and_iff_left (allSet cfg raws)]
  suffices h : ∀ original, (∀ q, shapeOf original q ≠ none → shapeOf cfg q ≠ none) →
      (((applyConfigOverrides cfg raws).2.isSome → (applyConfigOverrides cfg raws).1 = original) ↔
        Unspoilt original cfg raws) from h cfg fun _ h => h
  intro original hkept
  induction raws generalizing cfg with
  | nil => exact iff_of_true (fun h => by cases h) trivial
  | cons raw raws ih =>
    rw [applyConfigOverrides_cons, Unspoilt]
    rcases applyRaw_spec cfg raw with ⟨hnone, -, hmore⟩ | ⟨hsome, hspoilt, hsame⟩ |
      ⟨hsome, hspoilt, hgrown⟩
    · rw [if_pos hnone, if_pos hnone]
      exact ih _ fun q hq => hmore q (hkept q hq)
    · have hne : (applyRaw cfg raw).2 ≠ none := isSome_iff_ne_none.mp hsome
      rw [if_neg hne, if_neg hne, hsame]
      exact ⟨fun h => ⟨hspoilt, h hsome⟩, fun h _ => h.2⟩
    · have hne : (applyRaw cfg raw).2 ≠ none := isSome_iff_ne_none.mp hsome
      rw [if_neg hne, if_neg hne, hspoilt]
      refine iff_of_false (fun h => ?_) fun h => absurd h.1 (by decide)
      obtain ⟨q, hold, hnew⟩ := hgrown.made
      rw [h hsome] at hnew
      exact hkept q hnew hold

/-- **A map is made, and the index behind it fails.** -/
theorem emptyMap_not_intact : ¬ Intact (some (.map [])) ["a.b[0]=1"] := by
  rintro ⟨hsame, -⟩
  have hresult : (applyConfigOverrides (some (.map [])) ["a.b[0]=1"]).1 =
      some (.map [("a", .map [])]) := rfl
  have hsome : (applyConfigOverrides (some (.map [])) ["a.b[0]=1"]).2.isSome = true := rfl
  rw [hresult] at hsame
  have hmap := some.inj (hsame hsome)
  injection hmap with hchildren
  cases hchildren

end MldpDriver.Config

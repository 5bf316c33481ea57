/-
# Named windows

`OVER (w ORDER BY ..)` extends the window that the WINDOW clause names `w`, which may itself extend
another one.  `resolveWindowSpec` follows the names; a guard on the depth stops it where a window is
defined in terms of itself.  What it should return is said without it, of the chain of
specifications: `compose`, where the chain is `Composable`.
-/
import Mathlib.Data.List.Forall2
import Mathlib.Data.List.Nodup
import Mathlib.Data.List.Perm.Subperm
import Mathlib.Data.List.Range
import Mathlib.Logic.Relation
import MldpDriver.Lib.Loop

namespace MldpDriver.Query.NamedWindows

open Lib.Loop List

/-! ## 1. Specifications -/

inductive SortDirection where
  | ascending | descending

inductive WindowFrameUnit where
  | rows | range

inductive WindowBoundKind where
  | unboundedPreceding | preceding | currentRow | following | unboundedFollowing

structure OrderByItem (ε : Type) where
  expression : ε
  direction : SortDirection

structure WindowFrameBound (ε : Type) where
  kind : WindowBoundKind
  offset : Option ε

structure WindowFrame (ε : Type) where
  unit : WindowFrameUnit
  start : WindowFrameBound ε
  stop : WindowFrameBound ε

structure WindowSpec (ε : Type) where
  baseName : Option String
  partitionBy : List ε
  orderBy : List (OrderByItem ε)
  frame : Option (WindowFrame ε)

structure NamedWindow (ε : Type) where
  name : String
  spec : WindowSpec ε

/-- A call that may throw; `none` is out of fuel. -/
abbrev Run := ExceptT String Option

variable {ε : Type}

/-! ## 2. `resolveWindowSpec` -/

/-- The checks on a specification that extends the resolved window `base`, and the result. -/
def extend (name : String) (spec base : WindowSpec ε) : Except String (WindowSpec ε) :=
  if !spec.partitionBy.isEmpty then
    .error ("Window '" ++ name ++ "' cannot be given a new PARTITION BY")
  else if !spec.orderBy.isEmpty && !base.orderBy.isEmpty then
    .error ("Window '" ++ name ++ "' already has an ORDER BY")
  else if base.frame.isSome && (!spec.orderBy.isEmpty || spec.frame.isSome) then
    .error ("Window '" ++ name ++ "' has a frame and cannot be extended")
  else
    .ok { base with
      orderBy := if !spec.orderBy.isEmpty then spec.orderBy else base.orderBy
      frame := if spec.frame.isSome then spec.frame else base.frame
      baseName := none }

/-- `std::find_if` over the WINDOW clause. -/
def findWindow (named : List (NamedWindow ε)) (name : String) : Option (NamedWindow ε) :=
  named.find? (·.name = name)

def resolveWindowSpec (named : List (NamedWindow ε)) :
    Nat → WindowSpec ε → Nat → Run (WindowSpec ε)
  | 0, _, _ => .mk none
  | fuel + 1, spec, depth =>
    match spec.baseName with
    | none => pure spec
    | some name =>
      match findWindow named name with
      | none => throw ("Unknown window '" ++ name ++ "'")
      | some found =>
        if named.length < depth then
          throw ("Window '" ++ name ++ "' is defined in terms of itself")
        else do
          let base ← resolveWindowSpec named fuel found.spec (depth + 1)
          .mk (some (extend name spec base))

/-! ## 3. Composed specifications

What a specification comes to is said of its chain: itself, the one its base name stands for, the
one that extends, down to one without a base name.  A chain may not exist, for two reasons, and what
does exist may not be composed. -/

/-- `name` stands for the first window of the WINDOW clause that carries it. -/
def Names (named : List (NamedWindow ε)) (name : String) (window : NamedWindow ε) : Prop :=
  ∃ front back, named = front ++ window :: back ∧ window.name = name ∧
    ∀ earlier ∈ front, earlier.name ≠ name

/-- The one specification extends the other. -/
def Extends (named : List (NamedWindow ε)) (spec base : WindowSpec ε) : Prop :=
  ∃ name window, spec.baseName = some name ∧ Names named name window ∧ window.spec = base

/-- The specifications from one to the end of its base names. -/
inductive Chain (named : List (NamedWindow ε)) : WindowSpec ε → List (WindowSpec ε) → Prop
  | own {spec : WindowSpec ε} (h : spec.baseName = none) : Chain named spec [spec]
  | extends {spec base : WindowSpec ε} {specs : List (WindowSpec ε)} (h : Extends named spec base)
      (hbase : Chain named base specs) : Chain named spec (spec :: specs)

/-- **What may be composed**: only the last partitions, at most one orders, and what has a frame may
be given neither an order nor a frame by a nearer one. -/
structure Composable (specs : List (WindowSpec ε)) : Prop where
  partition : ∀ spec ∈ specs.dropLast, spec.partitionBy = []
  order : specs.Pairwise fun nearer farther => nearer.orderBy = [] ∨ farther.orderBy = []
  frame : specs.Pairwise fun nearer farther =>
    nearer.orderBy = [] ∧ nearer.frame = none ∨ farther.frame = none

/-- The partition of the last, the order and the frame of whichever has one. -/
def compose (specs : List (WindowSpec ε)) : WindowSpec ε where
  baseName := none
  partitionBy := specs.getLast?.elim [] (·.partitionBy)
  orderBy := specs.flatMap (·.orderBy)
  frame := specs.findSome? (·.frame)

def Composed (named : List (NamedWindow ε)) (spec out : WindowSpec ε) : Prop :=
  ∃ specs, Chain named spec specs ∧ Composable specs ∧ out = compose specs

/-! ### The three errors -/

/-- The base names lead to one that no window carries. -/
def Unknown (named : List (NamedWindow ε)) (spec : WindowSpec ε) : Prop :=
  ∃ last name, Relation.ReflTransGen (Extends named) spec last ∧ last.baseName = some name ∧
    ∀ window ∈ named, window.name ≠ name

/-- The base names lead to a window that is defined in terms of itself. -/
def Cyclic (named : List (NamedWindow ε)) (spec : WindowSpec ε) : Prop :=
  ∃ window ∈ named, Relation.TransGen (Extends named) spec window.spec ∧
    Relation.TransGen (Extends named) window.spec window.spec

/-- There is a chain and it may not be composed. -/
def Forbidden (named : List (NamedWindow ε)) (spec : WindowSpec ε) : Prop :=
  ∃ specs, Chain named spec specs ∧ ¬ Composable specs

variable {named : List (NamedWindow ε)} {spec base out : WindowSpec ε}
  {specs specs' : List (WindowSpec ε)} {name : String}

/-! ### Chains -/

theorem findWindow_iff {window : NamedWindow ε} :
    findWindow named name = some window ↔ Names named name window := by
  rw [findWindow, List.find?_eq_some_iff_append]
  constructor
  · rintro ⟨hname, front, back, rfl, hfront⟩
    exact ⟨front, back, rfl, by simpa using hname, fun w hw => by simpa using hfront w hw⟩
  · rintro ⟨front, back, rfl, hname, hfront⟩
    exact ⟨by simpa using hname, front, back, rfl, fun w hw => by simpa using hfront w hw⟩

theorem Names.mem {window : NamedWindow ε} (h : Names named name window) : window ∈ named :=
  List.mem_of_find?_eq_some (findWindow_iff.mpr h)

theorem Names.unique {window window' : NamedWindow ε} (h : Names named name window)
    (h' : Names named name window') : window = window' :=
  Option.some.inj ((findWindow_iff.mpr h).symm.trans (findWindow_iff.mpr h'))

theorem Extends.unique {base' : WindowSpec ε} (h : Extends named spec base)
    (h' : Extends named spec base') : base = base' := by
  obtain ⟨name, window, hname, hnames, rfl⟩ := h
  obtain ⟨name', window', hname', hnames', rfl⟩ := h'
  obtain rfl : name = name' := Option.some.inj (hname.symm.trans hname')
  rw [hnames.unique hnames']

theorem Extends.baseName_ne (h : Extends named spec base) : spec.baseName ≠ none := by
  obtain ⟨name, _, hname, -⟩ := h
  rw [hname]
  exact Option.some_ne_none name

theorem Chain.of_extends (h : Chain named spec specs) (hbase : Extends named spec base) :
    ∃ tail, specs = spec :: tail ∧ Chain named base tail := by
  cases h with
  | own h => exact absurd h hbase.baseName_ne
  | «extends» h htail =>
    rw [hbase.unique h]
    exact ⟨_, rfl, htail⟩

theorem Chain.ne_nil (h : Chain named spec specs) : specs ≠ [] := by
  cases h <;> exact cons_ne_nil _ _

theorem Chain.unique (h : Chain named spec specs) (h' : Chain named spec specs') :
    specs = specs' := by
  induction h generalizing specs' with
  | own h =>
    cases h' with
    | own => rfl
    | «extends» hbase => exact absurd h hbase.baseName_ne
  | «extends» hbase _ ih =>
    obtain ⟨tail, rfl, htail⟩ := h'.of_extends hbase
    rw [ih htail]

theorem Composed.unique {out' : WindowSpec ε} (h : Composed named spec out)
    (h' : Composed named spec out') : out = out' := by
  obtain ⟨specs, hchain, -, rfl⟩ := h
  obtain ⟨specs', hchain', -, rfl⟩ := h'
  rw [hchain.unique hchain']

theorem Chain.exists_shorter (h : Chain named spec specs) :
    ∀ k, k + 1 < specs.length → ∃ window ∈ named, ∃ tail,
      Chain named window.spec tail ∧ tail.length = k + 1 := by
  induction h with
  | own =>
    intro k hk
    rw [length_singleton] at hk
    omega
  | @«extends» spec base specs hbase hchain ih =>
    intro k hk
    rw [length_cons] at hk
    rcases Nat.lt_or_eq_of_le (Nat.le_of_lt_succ hk) with hk | hk
    · exact ih k hk
    · obtain ⟨_, window, -, hnames, rfl⟩ := hbase
      exact ⟨window, hnames.mem, specs, hchain, hk.symm⟩

theorem length_le_named {named windows : List (NamedWindow ε)} (hne : windows.Pairwise (· ≠ ·))
    (hsub : windows ⊆ named) : windows.length ≤ named.length :=
  (subperm_of_subset hne hsub).length_le

/-- **No specification extends more windows than there are**: their chains have distinct lengths. -/
theorem Chain.length_le (h : Chain named spec specs) : specs.length ≤ named.length + 1 := by
  have hlower : ∀ k < specs.length - 1, ∃ window ∈ named, ∃ tail,
      Chain named window.spec tail ∧ tail.length = k + 1 :=
    fun k hk => h.exists_shorter k (by omega)
  choose window hmem tail hchain hlength using hlower
  have hne : ((List.range (specs.length - 1)).attach.map
      fun k => window k.1 (mem_range.mp k.2)).Pairwise (· ≠ ·) := by
    refine pairwise_map.mpr
      ((nodup_attach.mpr nodup_range).imp fun {j k} hjk heq => ?_)
    have hj := hchain j.1 (mem_range.mp j.2)
    rw [heq] at hj
    have hsame := congrArg List.length (hj.unique (hchain k.1 (mem_range.mp k.2)))
    rw [hlength, hlength] at hsame
    exact hjk (Subtype.ext (Nat.succ.inj hsame))
  have hsub : ((List.range (specs.length - 1)).attach.map
      fun k => window k.1 (mem_range.mp k.2)) ⊆ named := by
    intro w hw
    obtain ⟨k, -, rfl⟩ := mem_map.mp hw
    exact hmem k.1 (mem_range.mp k.2)
  have hle := length_le_named hne hsub
  rw [length_map, length_attach, length_range] at hle
  omega

/-! ### Composing one more

`extend_compose`: the code's checks on one extension are those of the chain. -/

theorem composable_singleton (spec : WindowSpec ε) : Composable [spec] :=
  ⟨fun _ h => absurd h not_mem_nil, pairwise_singleton _ _, pairwise_singleton _ _⟩

theorem compose_singleton (h : spec.baseName = none) : compose [spec] = spec := by
  obtain ⟨baseName, partitionBy, orderBy, frame⟩ := spec
  obtain rfl : baseName = none := h
  cases frame <;> simp [compose]

theorem compose_orderBy_nil : (compose specs).orderBy = [] ↔ ∀ s ∈ specs, s.orderBy = [] :=
  flatMap_eq_nil_iff

theorem compose_frame_none : (compose specs).frame = none ↔ ∀ s ∈ specs, s.frame = none :=
  List.findSome?_eq_none_iff

theorem all_or {α : Type} {p : Prop} {q : α → Prop} {l : List α} :
    (∀ a ∈ l, p ∨ q a) ↔ p ∨ ∀ a ∈ l, q a := by
  by_cases hp : p
  · exact iff_of_true (fun _ _ => .inl hp) (.inl hp)
  · simp only [hp, false_or]

/-- What `resolveWindowSpec` checks of a specification against its composed base is what the chain
asks of it. -/
theorem composable_cons (spec : WindowSpec ε) (hne : specs ≠ []) :
    Composable (spec :: specs) ↔ Composable specs ∧ spec.partitionBy = [] ∧
      (spec.orderBy = [] ∨ (compose specs).orderBy = []) ∧
      (spec.orderBy = [] ∧ spec.frame = none ∨ (compose specs).frame = none) := by
  rw [compose_orderBy_nil, compose_frame_none, ← all_or, ← all_or]
  constructor
  · rintro ⟨hpart, hord, hfr⟩
    rw [dropLast_cons_of_ne_nil hne] at hpart
    obtain ⟨hpart, hparts⟩ := forall_mem_cons.mp hpart
    obtain ⟨hord, hords⟩ := pairwise_cons.mp hord
    obtain ⟨hfr, hfrs⟩ := pairwise_cons.mp hfr
    exact ⟨⟨hparts, hords, hfrs⟩, hpart, hord, hfr⟩
  · rintro ⟨⟨hparts, hords, hfrs⟩, hpart, hord, hfr⟩
    refine ⟨?_, pairwise_cons.mpr ⟨hord, hords⟩, pairwise_cons.mpr ⟨hfr, hfrs⟩⟩
    rw [dropLast_cons_of_ne_nil hne]
    exact forall_mem_cons.mpr ⟨hpart, hparts⟩

theorem compose_cons (h : Composable (spec :: specs)) (hne : specs ≠ []) :
    compose (spec :: specs) =
      { compose specs with
        orderBy := if !spec.orderBy.isEmpty then spec.orderBy else (compose specs).orderBy
        frame := if spec.frame.isSome then spec.frame else (compose specs).frame
        baseName := none } := by
  obtain ⟨-, -, hord, -⟩ := (composable_cons spec hne).mp h
  have hlast : (spec :: specs).getLast? = specs.getLast? := by
    obtain ⟨first, rest, rfl⟩ := exists_cons_of_ne_nil hne
    exact List.getLast?_cons_cons
  have horder : (compose (spec :: specs)).orderBy =
      if !spec.orderBy.isEmpty then spec.orderBy else (compose specs).orderBy := by
    rw [compose, flatMap_cons]
    rcases hord with hord | hord
    · simp [hord, compose]
    · rw [show specs.flatMap (·.orderBy) = [] from hord, append_nil, hord]
      cases spec.orderBy <;> rfl
  have hframe : (compose (spec :: specs)).frame =
      if spec.frame.isSome then spec.frame else (compose specs).frame := by
    cases hf : spec.frame <;> simp [compose, hf]
  rw [← horder, ← hframe]
  simp only [compose, hlast]

/-- **The code's checks and its result are those of the chain** with one more specification. -/
theorem extend_compose (name : String) (spec : WindowSpec ε) (hcomposable : Composable specs)
    (hne : specs ≠ []) :
    (Composable (spec :: specs) ∧
        extend name spec (compose specs) = .ok (compose (spec :: specs))) ∨
      (¬ Composable (spec :: specs) ∧ ∃ message,
        extend name spec (compose specs) = .error message) := by
  have hcons := composable_cons spec hne
  unfold extend
  split
  · rename_i hpart
    refine .inr ⟨fun h => ?_, _, rfl⟩
    simp [(hcons.mp h).2.1] at hpart
  · rename_i hpart
    split
    · rename_i hord
      refine .inr ⟨fun h => ?_, _, rfl⟩
      rcases (hcons.mp h).2.2.1 with h | h <;> simp [h] at hord
    · rename_i hord
      split
      · rename_i hfr
        refine .inr ⟨fun h => ?_, _, rfl⟩
        rcases (hcons.mp h).2.2.2 with h | h <;> simp [h] at hfr
      · rename_i hfr
        have h : Composable (spec :: specs) := by
          refine hcons.mpr ⟨hcomposable, by simpa using hpart, ?_, ?_⟩
          · simpa [or_iff_not_imp_left] using hord
          · by_cases hframe : (compose specs).frame = none
            · exact .inr hframe
            · have hsome := Option.isSome_iff_ne_none.mpr hframe
              exact .inl (by simpa [hsome] using hfr)
        exact .inl ⟨h, congrArg Except.ok (compose_cons h hne).symm⟩

/-! ### No chain

`no_composed_iff`: there is nothing to return for an unknown name, a cycle or a forbidden
extension, and only then. -/

/-- Where there is a chain, every specification along the way has one, a shorter one. -/
theorem Chain.of_transGen (h : Chain named spec specs)
    (hpath : Relation.TransGen (Extends named) spec base) :
    ∃ tail, Chain named base tail ∧ tail.length < specs.length := by
  induction hpath with
  | single hext =>
    obtain ⟨tail, rfl, htail⟩ := h.of_extends hext
    exact ⟨tail, htail, Nat.lt_succ_self _⟩
  | tail _ hext ih =>
    obtain ⟨specs', hchain, hlt⟩ := ih
    obtain ⟨tail, rfl, htail⟩ := hchain.of_extends hext
    exact ⟨tail, htail, (Nat.lt_succ_self _).trans hlt⟩

theorem Chain.not_unknown (h : Chain named spec specs) : ¬ Unknown named spec := by
  rintro ⟨last, name, hpath, hname, hnone⟩
  obtain ⟨specs', hchain⟩ : ∃ specs', Chain named last specs' := by
    rcases Relation.reflTransGen_iff_eq_or_transGen.mp hpath with rfl | hpath
    · exact ⟨specs, h⟩
    · exact (h.of_transGen hpath).imp fun _ h => h.1
  cases hchain with
  | own h => rw [h] at hname; cases hname
  | «extends» hext =>
    obtain ⟨name', window, hname', hnames, -⟩ := hext
    obtain rfl : name = name' := Option.some.inj (hname.symm.trans hname')
    obtain ⟨_, _, rfl, heq, -⟩ := hnames
    exact hnone window (by simp) heq

theorem Chain.not_cyclic (h : Chain named spec specs) : ¬ Cyclic named spec := by
  rintro ⟨window, -, hpath, hcycle⟩
  obtain ⟨specs', hchain, -⟩ := h.of_transGen hpath
  obtain ⟨specs'', hchain', hlt⟩ := hchain.of_transGen hcycle
  rw [hchain'.unique hchain] at hlt
  exact Nat.lt_irrefl _ hlt

/-- Without a chain and without an unknown name there is always another window to follow. -/
theorem endless (hchain : ¬ ∃ specs, Chain named spec specs) (hknown : ¬ Unknown named spec)
    (k : Nat) : ∃ windows : List (NamedWindow ε), windows.length = k ∧ windows ⊆ named ∧
      (∀ w ∈ windows, Relation.TransGen (Extends named) spec w.spec) ∧
      windows.Pairwise fun v w => Relation.TransGen (Extends named) v.spec w.spec := by
  induction k generalizing spec with
  | zero => exact ⟨[], rfl, nil_subset _, forall_mem_nil _, .nil⟩
  | succ k ih =>
    obtain ⟨name, hname⟩ : ∃ name, spec.baseName = some name :=
      Option.ne_none_iff_exists'.mp fun h => hchain ⟨_, .own h⟩
    obtain ⟨window, hfound⟩ : ∃ window, findWindow named name = some window := by
      refine Option.ne_none_iff_exists'.mp fun h => hknown ⟨spec, name, .refl, hname, ?_⟩
      simpa [findWindow] using h
    have hext : Extends named spec window.spec := ⟨name, window, hname, findWindow_iff.mp hfound, rfl⟩
    obtain ⟨windows, hlength, hsub, hreach, hpairs⟩ := @ih window.spec
      (fun ⟨_, h⟩ => hchain ⟨_, .extends hext h⟩)
      fun ⟨last, name, hpath, h⟩ => hknown ⟨last, name, hpath.head hext, h⟩
    refine ⟨window :: windows, by rw [length_cons, hlength], ?_, ?_,
      pairwise_cons.mpr ⟨hreach, hpairs⟩⟩
    · exact cons_subset.mpr ⟨(findWindow_iff.mp hfound).mem, hsub⟩
    · exact forall_mem_cons.mpr ⟨.single hext, fun w hw => (hreach w hw).head hext⟩

/-- **Why there is no chain**: more windows than there are cannot be distinct. -/
theorem no_chain_iff : (¬ ∃ specs, Chain named spec specs) ↔
    Unknown named spec ∨ Cyclic named spec := by
  constructor
  · intro hchain
    refine or_iff_not_imp_left.mpr fun hknown => ?_
    by_contra hcyclic
    obtain ⟨windows, hlength, hsub, hreach, hpairs⟩ := endless hchain hknown (named.length + 1)
    have hne : windows.Pairwise (· ≠ ·) := by
      refine hpairs.imp_of_mem fun {v w} hv _ hpath heq => hcyclic ?_
      subst heq
      exact ⟨v, hsub hv, hreach v hv, hpath⟩
    have := length_le_named hne hsub
    omega
  · rintro (h | h) ⟨specs, hchain⟩
    · exact hchain.not_unknown h
    · exact hchain.not_cyclic h

/-- **Why nothing is composed.** -/
theorem no_composed_iff : (¬ ∃ out, Composed named spec out) ↔
    Unknown named spec ∨ Cyclic named spec ∨ Forbidden named spec := by
  rw [← or_assoc, ← no_chain_iff]
  constructor
  · intro h
    refine or_iff_not_imp_left.mpr fun hchain => ?_
    obtain ⟨specs, hchain⟩ := not_not.mp hchain
    exact ⟨specs, hchain, fun hcomposable => h ⟨_, specs, hchain, hcomposable, rfl⟩⟩
  · rintro (h | ⟨specs, hchain, hnot⟩) ⟨out, specs', hchain', hcomposable, -⟩
    · exact h ⟨specs', hchain'⟩
    · exact hnot (hchain.unique hchain' ▸ hcomposable)

/-! ## 4. Termination

`resolveWindowSpec_ends`: with fuel for one call more than there are named windows it ends, in the
composed specification if there is one and in an error otherwise. -/

/-- **At every depth**: where the guard stops, nothing can be composed. -/
theorem resolveWindowSpec_ends_at (fuel : Nat) (spec : WindowSpec ε) (depth : Nat)
    (hfuel : named.length + 2 ≤ fuel + depth) (hdepth : depth ≤ named.length + 1)
    (hshort : ∀ specs, Chain named spec specs → specs.length + depth ≤ named.length + 1) :
    Ends (resolveWindowSpec named fuel spec depth) (Composed named spec)
      (¬ ∃ out, Composed named spec out) := by
  induction fuel generalizing spec depth with
  | zero => omega
  | succ fuel ih =>
    rw [resolveWindowSpec]
    cases hname : spec.baseName with
    | none =>
      exact .ok ⟨[spec], .own hname, composable_singleton spec, (compose_singleton hname).symm⟩
    | some name =>
      simp only
      cases hfound : findWindow named name with
      | none =>
        refine .error (no_composed_iff.mpr (.inl ⟨spec, name, .refl, hname, ?_⟩))
        simpa [findWindow] using hfound
      | some found =>
        have hext : Extends named spec found.spec :=
          ⟨name, found, hname, findWindow_iff.mp hfound, rfl⟩
        simp only
        split
        -- the guard: so many windows have been followed that a chain would be too long
        · next hdeep =>
          refine .error fun ⟨out, specs, hchain, _⟩ => ?_
          have := hshort specs hchain
          have := length_pos_of_ne_nil hchain.ne_nil
          omega
        · refine ((ih found.spec (depth + 1) (by omega) (by omega) fun specs hspecs => ?_).mono
            (fun _ h => h) fun h ⟨out, specs, hchain, hcomposable, _⟩ => ?_).bind
              fun base ⟨specs, hchain, hcomposable, hbase⟩ => ?_
          · have := hshort _ (.extends hext hspecs)
            rw [length_cons] at this
            omega
          · rw [hbase]
            have hchain' := Chain.extends hext hchain
            rcases extend_compose name spec hcomposable hchain.ne_nil with
              ⟨hallowed, hok⟩ | ⟨hnot, message, herror⟩
            · rw [hok]
              exact .ok ⟨_, hchain', hallowed, rfl⟩
            · rw [herror]
              exact .error (no_composed_iff.mpr (.inr (.inr ⟨_, hchain', hnot⟩)))
          · obtain ⟨tail, rfl, htail⟩ := hchain.of_extends hext
            exact h ⟨_, tail, htail, ((composable_cons spec htail.ne_nil).mp hcomposable).1, rfl⟩

theorem resolveWindowSpec_ends {fuel : Nat} (hfuel : named.length + 2 ≤ fuel)
    (spec : WindowSpec ε) :
    Ends (resolveWindowSpec named fuel spec 0) (Composed named spec)
      (¬ ∃ out, Composed named spec out) :=
  resolveWindowSpec_ends_at fuel spec 0 (by omega) (by omega) fun _ h => h.length_le

/-! ## 5. Statements

`resolveStatementWindows_ends`: so do the statements. -/

/-- A parsed expression; `leaf` is a literal or a column. -/
inductive Expression (α : Type) where
  | leaf (value : α)
  | function (name : String) (arguments : List (Expression α)) (star distinct : Bool)
      (clause : Option (WindowSpec (Expression α)))
  | unary (operator : String) (operand : Expression α)
  | binary (operator : String) (left right : Expression α)

/-- What the resolution reads and writes of a `SelectStatement`. -/
structure SelectStatement (α : Type) where
  selectItems : List (Expression α)
  orderBy : List (Option (Expression α))
  namedWindows : List (NamedWindow (Expression α))

variable {α : Type}

section Resolve

variable (named : List (NamedWindow (Expression α))) (fuel : Nat)

/-- `if (copy.over)` -/
def resolveOver : Option (WindowSpec (Expression α)) → Run (Option (WindowSpec (Expression α)))
  | none => pure none
  | some spec => some <$> resolveWindowSpec named fuel spec 0

mutual
def resolveNamedWindows : Expression α → Run (Expression α)
  | .leaf value => pure (.leaf value)
  | .function name arguments star distinct clause => do
    let arguments ← resolveArguments arguments
    let clause ← resolveOver named fuel clause
    pure (.function name arguments star distinct clause)
  | .unary operator operand => do
    let operand ← resolveNamedWindows operand
    pure (.unary operator operand)
  | .binary operator left right => do
    let left ← resolveNamedWindows left
    let right ← resolveNamedWindows right
    pure (.binary operator left right)

def resolveArguments : List (Expression α) → Run (List (Expression α))
  | [] => pure []
  | argument :: rest => do
    let argument ← resolveNamedWindows argument
    let rest ← resolveArguments rest
    pure (argument :: rest)
end

/-- `if (item.expression)` -/
def resolveOrderBy : Option (Expression α) → Run (Option (Expression α))
  | none => pure none
  | some expression => some <$> resolveNamedWindows named fuel expression

/-- The loop over the WINDOW clause; `names` are those seen so far. -/
def checkWindows : List String → List (NamedWindow (Expression α)) → Run Unit
  | _, [] => pure ()
  | names, window :: rest =>
    if window.name ∈ names then
      throw ("Window '" ++ window.name ++ "' is defined more than once")
    else do
      let _ ← resolveWindowSpec named fuel window.spec 0
      checkWindows (window.name :: names) rest

end Resolve

def resolveStatementWindows (fuel : Nat) (statement : SelectStatement α) :
    Run (SelectStatement α) := do
  checkWindows statement.namedWindows fuel [] statement.namedWindows
  let selectItems ← statement.selectItems.mapM (resolveNamedWindows statement.namedWindows fuel)
  let orderBy ← statement.orderBy.mapM (resolveOrderBy statement.namedWindows fuel)
  pure { statement with selectItems, orderBy }

mutual
/-- The OVER clauses of an expression. -/
def overs : Expression α → List (WindowSpec (Expression α))
  | .leaf _ => []
  | .function _ arguments _ _ clause => argumentOvers arguments ++ clause.toList
  | .unary _ operand => overs operand
  | .binary _ left right => overs left ++ overs right

def argumentOvers : List (Expression α) → List (WindowSpec (Expression α))
  | [] => []
  | argument :: rest => overs argument ++ argumentOvers rest
end

/-- The OVER clauses of a statement. -/
def SelectStatement.overs (statement : SelectStatement α) : List (WindowSpec (Expression α)) :=
  statement.selectItems.flatMap NamedWindows.overs ++
    statement.orderBy.flatMap fun item => item.toList.flatMap NamedWindows.overs

/-- One of the specifications comes to nothing. -/
def Unresolved (named : List (NamedWindow ε)) (specs : List (WindowSpec ε)) : Prop :=
  ∃ spec ∈ specs, ¬ ∃ out, Composed named spec out

theorem Unresolved.mono {specs specs' : List (WindowSpec ε)} (h : Unresolved named specs)
    (hsub : specs ⊆ specs') : Unresolved named specs' :=
  h.imp fun _ h => ⟨hsub h.1, h.2⟩

section Ends

variable {named : List (NamedWindow (Expression α))} {fuel : Nat}

theorem resolveOver_ends (hfuel : named.length + 2 ≤ fuel)
    (clause : Option (WindowSpec (Expression α))) :
    Ends (resolveOver named fuel clause)
      (fun out => List.Forall₂ (Composed named) clause.toList out.toList)
      (Unresolved named clause.toList) := by
  cases clause with
  | none => exact .ok .nil
  | some spec =>
    rw [resolveOver, map_eq_pure_bind]
    refine ((resolveWindowSpec_ends hfuel spec).mono (fun _ h => h) fun h =>
      ⟨spec, mem_singleton_self spec, h⟩).bind fun out hout => .ok ?_
    exact .cons hout .nil

mutual
theorem resolveNamedWindows_ends (hfuel : named.length + 2 ≤ fuel) : (expression : Expression α) →
    Ends (resolveNamedWindows named fuel expression)
      (fun out => List.Forall₂ (Composed named) (overs expression) (overs out))
      (Unresolved named (overs expression))
  | .leaf _ => .ok .nil
  | .function name arguments star distinct clause => by
    refine ((resolveArguments_ends hfuel arguments).mono (fun _ h => h) fun h =>
      h.mono (subset_append_left _ _)).bind fun arguments' harguments => ?_
    refine ((resolveOver_ends hfuel clause).mono (fun _ h => h) fun h =>
      h.mono (subset_append_right _ _)).bind fun clause' hover => .ok ?_
    exact rel_append harguments hover
  | .unary _ operand => by
    refine (resolveNamedWindows_ends hfuel operand).bind fun operand' hoperand => .ok ?_
    exact hoperand
  | .binary _ left right => by
    refine ((resolveNamedWindows_ends hfuel left).mono (fun _ h => h) fun h =>
      h.mono (subset_append_left _ _)).bind fun left' hleft => ?_
    refine ((resolveNamedWindows_ends hfuel right).mono (fun _ h => h) fun h =>
      h.mono (subset_append_right _ _)).bind fun right' hright => .ok ?_
    exact rel_append hleft hright

theorem resolveArguments_ends (hfuel : named.length + 2 ≤ fuel) : (arguments : List (Expression α)) →
    Ends (resolveArguments named fuel arguments)
      (fun out => List.Forall₂ (Composed named) (argumentOvers arguments) (argumentOvers out))
      (Unresolved named (argumentOvers arguments))
  | [] => .ok .nil
  | argument :: rest => by
    refine ((resolveNamedWindows_ends hfuel argument).mono (fun _ h => h) fun h =>
      h.mono (subset_append_left _ _)).bind fun argument' hargument => ?_
    refine ((resolveArguments_ends hfuel rest).mono (fun _ h => h) fun h =>
      h.mono (subset_append_right _ _)).bind fun rest' hrest => .ok ?_
    exact rel_append hargument hrest
end

theorem resolveOrderBy_ends (hfuel : named.length + 2 ≤ fuel) (item : Option (Expression α)) :
    Ends (resolveOrderBy named fuel item)
      (fun out => List.Forall₂ (Composed named) (item.toList.flatMap overs)
        (out.toList.flatMap overs))
      (Unresolved named (item.toList.flatMap overs)) := by
  cases item with
  | none => exact .ok .nil
  | some expression =>
    rw [resolveOrderBy, map_eq_pure_bind]
    simp only [Option.toList_some, flatMap_singleton]
    exact (resolveNamedWindows_ends hfuel expression).bind fun out hout => .ok (by simpa using hout)

theorem checkWindows_ends (hfuel : named.length + 2 ≤ fuel) (names : List String)
    (windows : List (NamedWindow (Expression α))) :
    Ends (checkWindows named fuel names windows)
      (fun _ => (∀ window ∈ windows, window.name ∉ names) ∧ (windows.map NamedWindow.name).Nodup ∧
        ¬ Unresolved named (windows.map NamedWindow.spec))
      ((∃ window ∈ windows, window.name ∈ names) ∨ ¬ (windows.map NamedWindow.name).Nodup ∨
        Unresolved named (windows.map NamedWindow.spec)) := by
  induction windows generalizing names with
  | nil => exact .ok ⟨by simp, by simp, fun ⟨_, h, _⟩ => absurd h not_mem_nil⟩
  | cons window rest ih =>
    rw [checkWindows]
    split
    · next hseen => exact .error (.inl ⟨window, mem_cons_self, hseen⟩)
    · next hnew =>
      refine ((resolveWindowSpec_ends hfuel window.spec).mono (fun _ h => h) fun h =>
        .inr (.inr ⟨_, mem_cons_self, h⟩)).bind fun out hout => ?_
      refine (ih (window.name :: names)).mono ?_ ?_
      · rintro - ⟨hnames, hnodup, hresolved⟩
        simp only [mem_cons, not_or] at hnames
        refine ⟨forall_mem_cons.mpr ⟨hnew, fun w hw => (hnames w hw).2⟩, ?_, ?_⟩
        · rw [map_cons, nodup_cons]
          refine ⟨fun hmem => ?_, hnodup⟩
          obtain ⟨w, hw, heq⟩ := mem_map.mp hmem
          exact (hnames w hw).1 heq
        · rintro ⟨spec, hspec, hnone⟩
          rcases mem_cons.mp hspec with rfl | hspec
          · exact hnone ⟨out, hout⟩
          · exact hresolved ⟨spec, hspec, hnone⟩
      · rintro (⟨w, hw, hmem⟩ | hdup | h)
        · rcases mem_cons.mp hmem with heq | hmem
          · refine .inr (.inl fun hnodup => ?_)
            rw [map_cons, nodup_cons] at hnodup
            exact hnodup.1 (heq ▸ mem_map_of_mem hw)
          · exact .inl ⟨w, mem_cons_of_mem _ hw, hmem⟩
        · exact .inr (.inl fun hnodup => hdup hnodup.tail)
        · exact .inr (.inr (h.mono (subset_cons_self _ _)))

end Ends

theorem forall₂_flatMap {β γ δ : Type} {R : β → γ → Prop} {S : δ → δ → Prop} {f : β → List δ}
    {g : γ → List δ} (h : ∀ b c, R b c → List.Forall₂ S (f b) (g c)) {bs : List β} {cs : List γ}
    (hbs : List.Forall₂ R bs cs) : List.Forall₂ S (bs.flatMap f) (cs.flatMap g) := by
  induction hbs with
  | nil => exact .nil
  | cons hbc _ ih => exact rel_append (h _ _ hbc) ih

/-- **Resolving the windows of a statement** ends.  It throws when a name is defined twice, or when
a named window or an OVER clause comes to nothing; otherwise each OVER clause is replaced by what
it comes to. -/
theorem resolveStatementWindows_ends (statement : SelectStatement α) {fuel : Nat}
    (hfuel : statement.namedWindows.length + 2 ≤ fuel) :
    Ends (resolveStatementWindows fuel statement)
      (fun out => List.Forall₂ (Composed statement.namedWindows) statement.overs out.overs ∧
        (statement.namedWindows.map NamedWindow.name).Nodup ∧
        ¬ Unresolved statement.namedWindows (statement.namedWindows.map NamedWindow.spec))
      (¬ (statement.namedWindows.map NamedWindow.name).Nodup ∨
        Unresolved statement.namedWindows
          (statement.namedWindows.map NamedWindow.spec ++ statement.overs)) := by
  have hsplit : ∀ {specs}, specs ⊆ statement.overs → Unresolved statement.namedWindows specs →
      Unresolved statement.namedWindows
        (statement.namedWindows.map NamedWindow.spec ++ statement.overs) :=
    fun hsub h => h.mono (List.Subset.trans hsub (subset_append_right _ _))
  refine ((checkWindows_ends hfuel [] statement.namedWindows).mono (fun _ h => h.2) ?_).bind
    fun _ hchecked => ?_
  · rintro (⟨_, _, h⟩ | h | h)
    · exact absurd h not_mem_nil
    · exact .inl h
    · exact .inr (h.mono (subset_append_left _ _))
  refine ((Ends.mapM fun item _ => resolveNamedWindows_ends hfuel item).mono (fun _ h => h) ?_).bind
    fun selectItems hitems => ?_
  · rintro ⟨item, hitem, h⟩
    exact .inr (hsplit (subset_append_left _ _)
      (h.mono fun spec hspec => mem_flatMap.mpr ⟨item, hitem, hspec⟩))
  refine ((Ends.mapM fun item _ => resolveOrderBy_ends hfuel item).mono (fun _ h => h) ?_).bind
    fun orderBy horder => .ok ⟨?_, hchecked⟩
  · rintro ⟨item, hitem, h⟩
    exact .inr (hsplit (subset_append_right _ _)
      (h.mono fun spec hspec => mem_flatMap.mpr ⟨item, hitem, hspec⟩))
  · exact rel_append (forall₂_flatMap (fun _ _ h => h) hitems)
      (forall₂_flatMap (fun _ _ h => h) horder)

/-- **Resolving named windows terminates**, whatever refers to what: it returns the composed
specification, or an error for an unknown name, for a cycle or for an extension that is not
allowed.  Windows that nobody refers to are followed as well, so one cycle anywhere is an error. -/
theorem resolveWindowSpec_terminates (statement : SelectStatement α) :
    ∃ bound, ∀ fuel, bound ≤ fuel →
      (∃ out, (resolveStatementWindows fuel statement).run = some out) ∧
      ∀ spec, ∃ result,
        (resolveWindowSpec statement.namedWindows fuel spec 0).run = some result ∧
          (∀ out, result = .ok out ↔ Composed statement.namedWindows spec out) ∧
          ((∃ message, result = .error message) ↔
            Unknown statement.namedWindows spec ∨ Cyclic statement.namedWindows spec ∨
              Forbidden statement.namedWindows spec) := by
  refine ⟨statement.namedWindows.length + 2, fun fuel hfuel => ⟨?_, fun spec => ?_⟩⟩
  · obtain ⟨out, hout, -⟩ := resolveStatementWindows_ends statement hfuel
    exact ⟨out, hout⟩
  · obtain ⟨result, hresult, houtcome⟩ :=
      resolveWindowSpec_ends hfuel spec
    refine ⟨result, hresult, fun out => ?_, Iff.trans
      (houtcome.error_iff fun out h hnone => hnone ⟨out, h⟩) no_composed_iff⟩
    rcases houtcome with ⟨out', rfl, hout'⟩ | ⟨⟨message, rfl⟩, hnone⟩
    · rw [Except.ok.injEq]
      exact ⟨fun h => h ▸ hout', fun h => hout'.unique h⟩
    · exact ⟨nofun, fun h => absurd ⟨out, h⟩ hnone⟩

/-- Two windows that extend each other. -/
def circular : List (NamedWindow String) :=
  [⟨"u", ⟨some "v", [], [], none⟩⟩, ⟨"v", ⟨some "u", [], [], none⟩⟩]

example : (resolveWindowSpec circular 4 ⟨some "u", [], [], none⟩ 0).run =
    some (.error "Window 'v' is defined in terms of itself") := rfl

end MldpDriver.Query.NamedWindows

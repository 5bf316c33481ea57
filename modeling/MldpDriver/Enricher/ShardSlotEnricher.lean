/-
# One slot for each column, whichever instance sees it

Any number of `ShardSlotEnricher` instances, in one process or in several, share a database of
slots.  An instance looks a column up in its own cache; a column that is new to it gets a slot from
the next shard, which is inserted if the database has no row for the column, and the row is read
back.  Lookup, insert and reload are steps of their own, between which the other instances go on.
-/
import Mathlib.Algebra.Group.Int.Defs
import Mathlib.Data.List.TakeWhile
import MldpDriver.Lib.Directory
import MldpDriver.Lib.Replace
import MldpDriver.Lib.Run

namespace MldpDriver.Enricher

open Lib.Directory Lib.Replace Lib.Run List

/-! ## 1. The database -/

/-- What SQLite takes of a name that is bound, or read, up to its terminator. -/
def cString (name : String) : String :=
  String.ofList (name.toList.takeWhile fun c => decide (c ≠ '\x00'))

/-- `static_cast<uint16_t>`. -/
def toSlot (value : Int) : Nat := (value % 65536).toNat

/-- The table `shard_slots`, in the order of its rows; `source_name` is its primary key. -/
structure ShardSlots where
  rows : List (String × Int)
  primaryKey : (rows.map Prod.fst).Nodup
  terminated : ∀ row ∈ rows, cString row.1 = row.1

theorem cString_cString (name : String) : cString (cString name) = cString name := by
  simp only [cString, String.toList_ofList, takeWhile_idem]

section Insert

variable {db : ShardSlots} {name : String}

theorem primaryKey_insert (h : db.rows.lookup (cString name) = none) (slot : Int) :
    ((db.rows ++ [(cString name, slot)]).map Prod.fst).Nodup := by
  rw [map_append, List.nodup_append]
  refine ⟨db.primaryKey, nodup_singleton _, ?_⟩
  rintro key hkey key' hkey' rfl
  obtain ⟨row, hrow, rfl⟩ := mem_map.mp hkey
  have hname : row.1 = cString name := mem_singleton.mp hkey'
  simpa [hname] using lookup_eq_none_iff.mp h row hrow

theorem terminated_insert (slot : Int) :
    ∀ row ∈ db.rows ++ [(cString name, slot)], cString row.1 = row.1 := by
  intro row hrow
  rcases mem_append.mp hrow with hrow | hrow
  · exact db.terminated row hrow
  · rw [mem_singleton.mp hrow]
    exact cString_cString name

end Insert

/-- `INSERT OR IGNORE`. -/
def insertOrIgnore (db : ShardSlots) (name : String) (slot : Nat) : ShardSlots :=
  match hrow : db.rows.lookup (cString name) with
  | some _ => db
  | none => ⟨db.rows ++ [(cString name, (slot : Int))], primaryKey_insert hrow _,
      terminated_insert _⟩

/-- `SELECT slot FROM shard_slots WHERE source_name=?`. -/
def storedSlot (db : ShardSlots) (name : String) : Option Nat :=
  (db.rows.lookup (cString name)).map toSlot

/-- **A row never changes.** -/
theorem storedSlot_insert {db : ShardSlots} {name : String} {slot : Nat}
    (h : storedSlot db name = some slot) (inserted : String) (value : Nat) :
    storedSlot (insertOrIgnore db inserted value) name = some slot := by
  rw [insertOrIgnore]
  split
  · exact h
  · obtain ⟨row, hrow, rfl⟩ := Option.map_eq_some_iff.mp h
    rw [storedSlot, lookup_append, hrow, Option.some_or, Option.map_some]

/-! ## 2. The instances

`step` runs all instances against the database; `Carried` is what a column leaves with. -/

/-- Where an instance is with a column: `slot` is what the new entry of the cache holds. -/
inductive Pc
  | idle
  | inserting (name : String) (slot : Nat)
  | selecting (name : String) (slot : Nat)
  deriving DecidableEq

structure Instance where
  numShards : Nat
  nextShard : Nat := 0
  slots : Files String Nat
  pc : Pc := .idle

/-- `configure`: the rows that could be read are the cache. -/
def configure (numShards : Nat) (rows : List (String × Int)) : Instance where
  numShards := numShards
  slots := rows.foldl (fun slots row => put slots row.1 (toSlot row.2)) []

/-- The slots of a shard. -/
def inShard (numShards shard slot : Nat) : Bool :=
  decide (65536 * shard / numShards ≤ slot) && decide (slot ≤ 65536 * (shard + 1) / numShards - 1)

/-- `%05u`. -/
def formatSlot (slot : Nat) : String :=
  String.ofList ((Nat.toDigits 10 slot).leftpad 5 '0')

/-- A column that an instance is done with: the slot it carries, and whether this instance
attached it or the column had it already. -/
structure Carried where
  by_ : Nat
  name : String
  slot : String
  attached : Bool
  deriving DecidableEq

structure State where
  db : ShardSlots
  instances : List Instance := []
  history : List Carried := []

/-- An instance is configured and reads so many rows; one takes the next column, which has a slot
or not, and draws a slot in case it is new; one inserts; one reads back. -/
inductive Action
  | configure (numShards loaded : Nat)
  | column (i : Nat) (name : String) (shardSlot : Option String) (drawn : Nat)
  | insert (i : Nat) (ok : Bool)
  | select (i : Nat) (ok : Bool)

/-- The slot after the reload. -/
def reload (db : ShardSlots) (name : String) (slot : Nat) (ok : Bool) : Nat :=
  if ok then (storedSlot db name).getD slot else slot

/-- `enrich`, for one column. -/
def takeColumn (s : State) (i : Nat) (x : Instance) (name : String) (shardSlot : Option String)
    (drawn : Nat) : Option State :=
  match shardSlot with
  | some slot => some { s with history := s.history ++ [⟨i, name, slot, false⟩] }
  | none =>
    match x.slots.lookup name with
    | some slot => some { s with history := s.history ++ [⟨i, name, formatSlot slot, true⟩] }
    | none =>
      if inShard x.numShards (x.nextShard % x.numShards) drawn then
        some { s with
          instances := s.instances.set i
            { x with nextShard := x.nextShard + 1, pc := .inserting name drawn } }
      else none

/-- One step. -/
def step (s : State) : Action → Option State
  | .configure numShards loaded =>
    if 1 ≤ numShards ∧ numShards ≤ 65536 then
      some { s with instances := s.instances ++ [configure numShards (s.db.rows.take loaded)] }
    else none
  | .column i name shardSlot drawn =>
    match s.instances[i]? with
    | some x => if x.pc = .idle then takeColumn s i x name shardSlot drawn else none
    | none => none
  | .insert i ok =>
    match s.instances[i]? with
    | some x =>
      match x.pc with
      | .inserting name slot =>
        some { s with
          db := if ok then insertOrIgnore s.db name slot else s.db
          instances := s.instances.set i { x with pc := .selecting name slot } }
      | _ => none
    | none => none
  | .select i ok =>
    match s.instances[i]? with
    | some x =>
      match x.pc with
      | .selecting name slot =>
        some { s with
          instances := s.instances.set i
            { x with slots := put x.slots name (reload s.db name slot ok), pc := .idle }
          history := s.history ++ [⟨i, name, formatSlot (reload s.db name slot ok), true⟩] }
      | _ => none
    | none => none

/-! ## 3. Agreement

`Agree` says that a column keeps the slot that was once attached to it, on every instance. -/

/-- **All instances attach one slot to a column, and what was attached is carried from then on.** -/
structure Agree (history : List Carried) : Prop where
  sameSlot : ∀ e ∈ history, ∀ e' ∈ history, e.attached = true → e'.attached = true →
    e'.name = e.name → e'.slot = e.slot
  carriedOn : history.Pairwise fun e e' =>
    e.attached = true → e'.name = e.name → e'.slot = e.slot

/-- A column that comes with a slot has the one attached before, if any; a new column has a row
when it is read back, which is read or has the slot drawn. -/
def reloaded (s : State) : Action → Bool
  | .column _ name (some slot) _ =>
    s.history.all fun e => decide (e.attached = true → e.name = name → slot = e.slot)
  | .select i ok =>
    match s.instances[i]?.map Instance.pc with
    | some (.selecting name slot) =>
      match storedSlot s.db name with
      | some row => ok || decide (slot = row)
      | none => false
    | _ => true
  | _ => true

/-! ## 4. The invariant

Whatever an instance knows, the database holds; a row is never changed once it is there. -/

/-- The caches, and what was attached, are what the database holds. -/
structure Inv (s : State) : Prop where
  cached : ∀ x ∈ s.instances, ∀ name slot, x.slots.lookup name = some slot →
    storedSlot s.db name = some slot
  attached : ∀ e ∈ s.history, e.attached = true →
    (storedSlot s.db e.name).map formatSlot = some e.slot
  carriedOn : s.history.Pairwise fun e e' =>
    e.attached = true → e'.name = e.name → e'.slot = e.slot

section Steps

variable {s s' : State}

theorem Inv.attach (h : Inv s) {i : Nat} {name : String} {slot : Nat}
    (hrow : storedSlot s.db name = some slot) :
    Inv { s with history := s.history ++ [⟨i, name, formatSlot slot, true⟩] } where
  cached := h.cached
  attached e he hattached := by
    rcases mem_append.mp he with he | he
    · exact h.attached e he hattached
    · obtain rfl := mem_singleton.mp he
      exact congrArg (Option.map formatSlot) hrow
  carriedOn := by
    refine pairwise_append.mpr ⟨h.carriedOn, pairwise_singleton _ _, ?_⟩
    intro e he e' he' hattached hname
    obtain rfl := mem_singleton.mp he'
    have hslot := h.attached e he hattached
    rw [← hname, hrow, Option.map_some] at hslot
    exact Option.some.inj hslot

theorem Inv.pass (h : Inv s) {i : Nat} {name slot : String}
    (hslot : ∀ e ∈ s.history, e.attached = true → e.name = name → slot = e.slot) :
    Inv { s with history := s.history ++ [⟨i, name, slot, false⟩] } where
  cached := h.cached
  attached e he hattached := by
    rcases mem_append.mp he with he | he
    · exact h.attached e he hattached
    · obtain rfl := mem_singleton.mp he
      cases hattached
  carriedOn := by
    refine pairwise_append.mpr ⟨h.carriedOn, pairwise_singleton _ _, ?_⟩
    intro e he e' he' hattached hname
    obtain rfl := mem_singleton.mp he'
    exact hslot e he hattached hname.symm

theorem Inv.move (h : Inv s) {i : Nat} {y : Instance}
    (hy : ∀ name slot, y.slots.lookup name = some slot → storedSlot s.db name = some slot) :
    Inv { s with instances := s.instances.set i y } where
  cached x hx := by
    rcases mem_replace hx with rfl | hx
    · exact hy
    · exact h.cached x hx
  attached := h.attached
  carriedOn := h.carriedOn

theorem Inv.store (h : Inv s) (name : String) (slot : Nat) :
    Inv { s with db := insertOrIgnore s.db name slot } where
  cached x hx column stored hcached :=
    storedSlot_insert (h.cached x hx column stored hcached) name slot
  attached e he hattached := by
    obtain ⟨stored, hstored, hformat⟩ := Option.map_eq_some_iff.mp (h.attached e he hattached)
    rw [storedSlot_insert hstored name slot, Option.map_some, hformat]
  carriedOn := h.carriedOn

theorem lookup_foldl_put {rows : List (String × Int)} (hrows : (rows.map Prod.fst).Nodup)
    (slots : Files String Nat) (name : String) :
    (rows.foldl (fun slots row => put slots row.1 (toSlot row.2)) slots).lookup name =
      ((rows.lookup name).map toSlot).or (slots.lookup name) := by
  induction rows generalizing slots with
  | nil => rfl
  | cons row rows ih =>
    obtain ⟨hrow, hrest⟩ := nodup_cons.mp hrows
    rw [foldl_cons, ih hrest, lookup_put]
    by_cases hname : name = row.1
    · subst hname
      have hnone : rows.lookup row.1 = none := by
        rw [lookup_eq_none_iff]
        intro r hr
        have hne : row.1 ≠ r.1 := fun he => hrow (he ▸ mem_map_of_mem hr)
        simpa using hne
      rw [hnone, if_pos rfl, lookup_cons_self, Option.map_none, Option.none_or,
        Option.map_some, Option.some_or]
    · rw [if_neg hname, lookup_cons_of_ne hname]

theorem lookup_configure {db : ShardSlots} {numShards loaded slot : Nat} {name : String}
    (h : (configure numShards (db.rows.take loaded)).slots.lookup name = some slot) :
    storedSlot db name = some slot := by
  have hsub : (db.rows.take loaded).Sublist db.rows := take_sublist _ _
  rw [configure, lookup_foldl_put (db.primaryKey.sublist (hsub.map _)), lookup_nil,
    Option.or_none] at h
  obtain ⟨row, hrow, rfl⟩ := Option.map_eq_some_iff.mp h
  have hmem := hsub.subset (mem_of_lookup hrow)
  have hname : cString name = name := db.terminated _ hmem
  rw [storedSlot, hname, (lookup_eq_some_iff db.primaryKey).mpr hmem, Option.map_some]

/-- **A step that leaves a new column with the slot of its row keeps the invariant.** -/
theorem Inv.step (h : Inv s) {a : Action} (hok : reloaded s a = true)
    (ha : step s a = some s') : Inv s' := by
  cases a with
  | configure numShards loaded =>
    obtain ⟨-, ha⟩ := Option.ite_none_right_eq_some.mp ha
    obtain rfl := Option.some.inj ha
    refine ⟨fun x hx => ?_, h.attached, h.carriedOn⟩
    rcases mem_append.mp hx with hx | hx
    · exact h.cached x hx
    · obtain rfl := mem_singleton.mp hx
      intro name slot hslot
      exact lookup_configure hslot
  | column i name shardSlot drawn =>
    simp only [Enricher.step] at ha
    cases hx : s.instances[i]? with
    | none => simp [hx] at ha
    | some x =>
      have hcached := h.cached x (mem_of_getElem? hx)
      simp only [hx, Option.ite_none_right_eq_some] at ha
      obtain ⟨-, ha⟩ := ha
      cases shardSlot with
      | some slot =>
        obtain rfl := Option.some.inj ha
        refine h.pass fun e he => ?_
        exact of_decide_eq_true (all_eq_true.mp hok e he)
      | none =>
        cases hlookup : x.slots.lookup name with
        | some slot =>
          simp only [takeColumn, hlookup, Option.some.injEq] at ha
          subst ha
          exact h.attach (hcached name slot hlookup)
        | none =>
          simp only [takeColumn, hlookup, Option.ite_none_right_eq_some, Option.some.injEq] at ha
          obtain ⟨-, rfl⟩ := ha
          exact h.move hcached
  | insert i ok =>
    simp only [Enricher.step] at ha
    cases hx : s.instances[i]? with
    | none => simp [hx] at ha
    | some x =>
      cases hpc : x.pc with
      | idle => simp [hx, hpc] at ha
      | selecting name slot => simp [hx, hpc] at ha
      | inserting name slot =>
        simp only [hx, hpc, Option.some.injEq] at ha
        subst ha
        have hstored : Inv { s with db := if ok then insertOrIgnore s.db name slot else s.db } := by
          cases ok with
          | false => exact h
          | true => exact h.store name slot
        exact hstored.move (hstored.cached x (mem_of_getElem? hx))
  | select i ok =>
    simp only [Enricher.step] at ha
    cases hx : s.instances[i]? with
    | none => simp [hx] at ha
    | some x =>
      cases hpc : x.pc with
      | idle => simp [hx, hpc] at ha
      | inserting name slot => simp [hx, hpc] at ha
      | selecting name slot =>
        simp only [hx, hpc, Option.some.injEq] at ha
        subst ha
        have hrow : storedSlot s.db name = some (reload s.db name slot ok) := by
          simp only [reloaded, hx, Option.map_some, hpc] at hok
          cases hstored : storedSlot s.db name with
          | none => simp [hstored] at hok
          | some row =>
            cases ok with
            | true => simp [reload, hstored]
            | false =>
              have hslot : slot = row := by simpa [hstored] using hok
              simp [reload, hslot]
        refine (h.attach (i := i) hrow).move ?_
        intro column stored hcached
        rw [lookup_put] at hcached
        by_cases hcolumn : column = name
        · rw [if_pos hcolumn] at hcached
          rw [hcolumn, ← hcached]
          exact hrow
        · rw [if_neg hcolumn] at hcached
          exact h.cached x (mem_of_getElem? hx) column stored hcached

end Steps

theorem Inv.agree {s : State} (h : Inv s) : Agree s.history where
  sameSlot e he e' he' hattached hattached' hname := by
    have hslot := h.attached e he hattached
    rw [← hname, h.attached e' he' hattached'] at hslot
    exact Option.some.inj hslot
  carriedOn := h.carriedOn

/-! ## 5. Every run -/

/-- An empty database. -/
def emptyDb : ShardSlots := ⟨[], nodup_nil, fun _ h => absurd h not_mem_nil⟩

/-- Two instances meet a column at the same time; the second insert is ignored. -/
def sampleActions : List Action :=
  [.configure 1 0, .configure 6 0, .column 0 "BPM:X" none 7, .column 1 "BPM:X" none 9,
    .insert 0 true, .insert 1 true, .select 1 true, .select 0 false, .column 1 "BPM:X" none 0]

/-- **All instances attach one slot to a column, and it is carried from then on, in every run that
leaves each new column with the slot of its row.** An insert or a reload that fails leaves the
instance with the slot it proposed, which may be stored nowhere (`agree_fails`). -/
theorem agree_of_reloaded (db : ShardSlots) {s : State}
    (hrun : Runs step (fun s a => reloaded s a = true) ⟨db, [], []⟩ s) : Agree s.history := by
  have hstart : Inv ⟨db, [], []⟩ := by
    refine ⟨?_, ?_, List.Pairwise.nil⟩
    · intro x hx
      cases hx
    · intro e he
      cases he
  have hinv : Inv s := hrun.keeps (fun _ _ _ h hok ha => h.step hok ha) hstart
  exact hinv.agree

/-- The slot that was stored is attached by both. -/
theorem sampleActions_agree :
    ∃ s, Runs step (fun s a => reloaded s a = true) ⟨emptyDb, [], []⟩ s ∧ Agree s.history ∧
      s.history.map (fun e => (e.by_, e.slot)) = [(1, "00007"), (0, "00007"), (1, "00007")] := by
  have hexec : ((exec step (fun s a => reloaded s a = true) ⟨emptyDb, [], []⟩ sampleActions).map
      fun s => s.history.map fun e => (e.by_, e.slot)) =
        some [(1, "00007"), (0, "00007"), (1, "00007")] := by decide +kernel
  obtain ⟨s, hs, hslots⟩ := Option.map_eq_some_iff.mp hexec
  have hrun := Runs.of_exec sampleActions hs
  exact ⟨s, hrun, agree_of_reloaded emptyDb hrun, hslots⟩

/-- An insert that fails because the database is busy. -/
def busyActions : List Action :=
  [.configure 1 0, .configure 1 0, .column 0 "BPM:X" none 7, .insert 0 false, .select 0 true,
    .column 1 "BPM:X" none 9, .insert 1 true, .select 1 true]

/-- **A slot that was attached without being stored stays with its instance.** -/
theorem agree_fails :
    ∃ s, Runs step anyStep ⟨emptyDb, [], []⟩ s ∧ ¬ Agree s.history ∧
      s.history.map (fun e => (e.by_, e.slot)) = [(0, "00007"), (1, "00009")] := by
  have hexec : ((exec step anyStep ⟨emptyDb, [], []⟩ busyActions).map State.history) =
      some [⟨0, "BPM:X", "00007", true⟩, ⟨1, "BPM:X", "00009", true⟩] := by decide +kernel
  obtain ⟨s, hs, hhistory⟩ := Option.map_eq_some_iff.mp hexec
  refine ⟨s, Runs.of_exec busyActions hs, ?_, by rw [hhistory]; rfl⟩
  rw [hhistory]
  intro h
  exact absurd (h.sameSlot ⟨0, "BPM:X", "00007", true⟩ (by simp) ⟨1, "BPM:X", "00009", true⟩
    (by simp) rfl rfl rfl) (by decide)

end MldpDriver.Enricher

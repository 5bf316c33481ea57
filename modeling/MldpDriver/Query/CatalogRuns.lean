/-
# Creating and dropping tables, one fault at a time

A run creates and drops tables in any order, with at most one failing call in each operation, from
any contents of the managed folder.  `live` keeps the tables successfully created and not dropped
since, with their batches.  In a run whose faults meet `clean` the catalog is `Whole` in every
state, and an operation that does not succeed changes nothing that is visible
(`catalog_of_clean`).

A fault is not `clean` in three places.

* The last call of `create` asks for the size of the data file of a persistent table, which is
  already published: the status is an error and the table is there.
* `drop` deletes the data file of a persistent table, then its metadata: when that fails, the status
  is an error and the table is gone.
* `find` takes a call that fails for a table that is not there, so `create` goes on and replaces it.
-/
import MldpDriver.Query.QueryTableCatalog

namespace MldpDriver.Query.TableCatalog

open Lib.Directory Lib.Run List

section Model

variable {S B : Type}

/-! ## 1. What an operation does to the published files -/

/-- Nothing that `find` or `read` looks at has changed. -/
structure Alike (s s' : Catalog S B) : Prop where
  sessionTables : s'.sessionTables = s.sessionTables
  files : ∀ {p}, Published p → s'.files.lookup p = s.files.lookup p

/-- The files of the other tables have not changed. -/
def Elsewhere (name : Name) (s s' : Catalog S B) : Prop :=
  ∀ p, Published p → p ≠ tablePath name → p ≠ metadataPath name → p ≠ sessionPath name →
    s'.files.lookup p = s.files.lookup p

/-- The table that `create` makes. -/
def newTable (ipc : Ipc S B) (name : Name) (lifetime : TableLifetime) (schema : S)
    (batches : List B) : CatalogTable S where
  name := name
  lifetime := lifetime
  path := pathOf lifetime name
  schema := schema
  rowCount := totalRows ipc batches
  byteCount := ipc.size (.table schema batches)

/-- The schema that all batches of a stream share. -/
def oneSchema [DecidableEq S] (ipc : Ipc S B) : List B → Option S
  | [] => none
  | first :: rest =>
    if rest.all fun b => decide (ipc.schema b = ipc.schema first) then some (ipc.schema first)
    else none

/-- How `create` leaves the catalog once the data is written. -/
inductive Outcome (ipc : Ipc S B) (fault : Fault) (s s' : Catalog S B) (name : Name)
    (schema : S) (batches : List B) : TableLifetime → Status → Prop
  | withdrawn (hsession : s'.sessionTables = s.sessionTables) (helse : Elsewhere name s s')
      (hdata : s'.files.lookup (tablePath name) = none) :
      Outcome ipc fault s s' name schema batches .persistent (.failed .moveMetadata)
  | persistent {status : Status} (hsession : s'.sessionTables = s.sessionTables)
      (helse : Elsewhere name s s')
      (hdata : s'.files.lookup (tablePath name) = some (.table schema batches))
      (hmeta : (s'.files.lookup (metadataPath name)).isSome = true)
      (hstatus : status = .ok ∨ fault = some .infoData) :
      Outcome ipc fault s s' name schema batches .persistent status
  | unlisted (hsession : s'.sessionTables = s.sessionTables) (helse : Elsewhere name s s')
      (hdata : s'.files.lookup (tablePath name) = s.files.lookup (tablePath name))
      (hmeta : s'.files.lookup (metadataPath name) = s.files.lookup (metadataPath name)) :
      Outcome ipc fault s s' name schema batches .session (.failed .infoData)
  | session
      (hsession : s'.sessionTables = s.sessionTables ++ [newTable ipc name .session schema batches])
      (helse : Elsewhere name s s')
      (hdata : s'.files.lookup (tablePath name) = s.files.lookup (tablePath name))
      (hmeta : s'.files.lookup (metadataPath name) = s.files.lookup (metadataPath name))
      (hfile : s'.files.lookup (sessionPath name) = some (.table schema batches)) :
      Outcome ipc fault s s' name schema batches .session .ok

variable {ipc : Ipc S B} {fault : Fault} {s s' written : Catalog S B} {name : Name}
  {schema : S} {batches : List B}

theorem Alike.refl (s : Catalog S B) : Alike s s := ⟨rfl, fun _ => rfl⟩

theorem Alike.put {path : Path} (halike : Alike s s') (hpath : Published path)
    (content : Content S B) :
    Alike s { s' with files := put s'.files (temporaryPath path) content } :=
  ⟨halike.sessionTables, fun hp =>
    (lookup_put_of_ne (temporaryPath_ne hpath hp)).trans (halike.files hp)⟩

theorem writeBatches_none [DecidableEq S] {k : Nat}
    (h : writeBatches ipc fault schema k batches = none) :
    ∀ b ∈ batches, ipc.schema b = schema := by
  induction batches generalizing k with
  | nil => simp
  | cons b bs ih =>
    unfold writeBatches at h
    split at h
    · cases h
    · rename_i hschema
      split at h
      · cases h
      · exact forall_mem_cons.mpr ⟨not_not.mp hschema, ih h⟩

theorem writeBatches_ne_ok [DecidableEq S] {k : Nat} :
    writeBatches ipc fault schema k batches ≠ some .ok := by
  induction batches generalizing k with
  | nil => exact fun h => nomatch h
  | cons b bs ih =>
    intro h
    unfold writeBatches at h
    split at h
    · cases h
    · split at h
      · cases h
      · exact ih h

theorem pathOf_published (lifetime : TableLifetime) (name : Name) :
    Published (pathOf lifetime name) := by
  cases lifetime
  · exact .session name
  · exact .table name

theorem temporaryPath_metadata_ne (name : Name) :
    temporaryPath (metadataPath name) ≠ temporaryPath (tablePath name) := fun h =>
  absurd (fileName_inj ((append_assoc ..).symm.trans
    ((congrArg Path.file h).trans (append_assoc ..)))).2 (by decide)

theorem lookup_move_published {files : Files Path (Content S B)} {path p : Path}
    (hpath : Published path) (hp : Published p) (hne : p ≠ path) :
    (move files (temporaryPath path) path).lookup p = files.lookup p :=
  lookup_move_of_ne (temporaryPath_ne hpath hp) hne

variable {status : Status}

/-- **Publishing a persistent table** fails with nothing visible changed, or is withdrawn, or puts
both files where `find` looks. -/
theorem publishPersistent_outcome (halike : Alike s written)
    (hfile : written.files.lookup (temporaryPath (tablePath name)) = some (.table schema batches))
    (h : publishPersistent ipc fault written name schema batches = (status, s')) :
    (status ≠ .ok ∧ Alike s s') ∨
      Outcome ipc fault s s' name schema batches .persistent status := by
  have hd := Published.table name
  have hm := Published.metadata name
  unfold publishPersistent at h
  dsimp only at h
  -- the metadata at its temporary path, then the data moved, then the metadata moved
  generalize htext : Content.metadata name (totalRows ipc batches) (ipc.size _) = text at h
  have hput := halike.put hm text
  generalize hfiles : put written.files (temporaryPath (metadataPath name)) text = files at h hput
  have hpartial : files.lookup (temporaryPath (metadataPath name)) = some text :=
    hfiles ▸ lookup_put_self
  have hdata : files.lookup (temporaryPath (tablePath name)) = some (.table schema batches) :=
    hfiles ▸ (lookup_put_of_ne (temporaryPath_metadata_ne name).symm).trans hfile
  generalize hmoved : move files (temporaryPath (tablePath name)) (tablePath name) = moved at h
  have hmovedData : moved.lookup (tablePath name) = some (.table schema batches) :=
    hmoved ▸ lookup_move_target hdata
  have hmovedText : moved.lookup (temporaryPath (metadataPath name)) = some text :=
    hmoved ▸ (lookup_move_of_ne (temporaryPath_metadata_ne name)
      (temporaryPath_ne hm hd).symm).trans hpartial
  have helse {p : Path} (hp : Published p) (hne : p ≠ tablePath name) :
      moved.lookup p = s.files.lookup p :=
    hmoved ▸ (lookup_move_published hd hp hne).trans (hput.files hp)
  split at h
  · obtain ⟨rfl, rfl⟩ := Prod.mk.inj h
    exact .inl ⟨nofun, halike⟩
  · split at h
    · obtain ⟨rfl, rfl⟩ := Prod.mk.inj h
      exact .inl ⟨nofun, halike.put hm _⟩
    · split at h
      · obtain ⟨rfl, rfl⟩ := Prod.mk.inj h
        exact .inl ⟨nofun, hput⟩
      · split at h
        · -- the metadata is not moved: the data is deleted again
          rename_i hmove
          have hundo : fails fault .undoData = false := by
            have := of_decide_eq_true hmove
            simp [fails, this]
          obtain ⟨rfl, rfl⟩ := Prod.mk.inj h
          rw [hundo]
          exact .inr (.withdrawn halike.sessionTables
            (fun _ hp hd' _ _ => (lookup_remove_of_ne hd').trans (helse hp hd')) lookup_remove_self)
        · have hboth : s'.files = move moved (temporaryPath (metadataPath name))
              (metadataPath name) → s'.sessionTables = written.sessionTables →
              (status = .ok ∨ fault = some .infoData) →
              Outcome ipc fault s s' name schema batches .persistent status := by
            intro hfiles' hsession hstatus
            refine .persistent (hsession.trans halike.sessionTables) ?_ ?_ ?_ hstatus
            · intro p hp hd' hm' _
              rw [hfiles', lookup_move_published hm hp hm', helse hp hd']
            · rw [hfiles', lookup_move_published hm hd (tablePath_ne_metadataPath name name),
                hmovedData]
            · rw [hfiles', lookup_move_target hmovedText]
              rfl
          split at h
          · rename_i hinfo
            obtain ⟨rfl, rfl⟩ := Prod.mk.inj h
            exact .inr (hboth rfl rfl (.inr (of_decide_eq_true hinfo)))
          · obtain ⟨rfl, rfl⟩ := Prod.mk.inj h
            exact .inr (hboth rfl rfl (.inl rfl))

/-- **Publishing a session table** fails with nothing visible changed, or leaves a file that no
entry names, or adds the entry. -/
theorem publishSession_outcome (halike : Alike s written)
    (hfile : written.files.lookup (temporaryPath (sessionPath name)) = some (.table schema batches))
    (h : publishSession ipc fault written name schema batches = (status, s')) :
    (status ≠ .ok ∧ Alike s s') ∨
      Outcome ipc fault s s' name schema batches .session status := by
  have hs := Published.session name
  unfold publishSession at h
  dsimp only at h
  generalize hmoved : move written.files (temporaryPath (sessionPath name)) (sessionPath name) =
    moved at h
  have hmovedData : moved.lookup (sessionPath name) = some (.table schema batches) :=
    hmoved ▸ lookup_move_target hfile
  have helse {p : Path} (hp : Published p) (hne : p ≠ sessionPath name) :
      moved.lookup p = s.files.lookup p :=
    hmoved ▸ (lookup_move_published hs hp hne).trans (halike.files hp)
  have hd : tablePath name ≠ sessionPath name := fun h => nomatch congrArg Path.folder h
  have hm : metadataPath name ≠ sessionPath name := fun h => nomatch congrArg Path.folder h
  split at h
  · obtain ⟨rfl, rfl⟩ := Prod.mk.inj h
    exact .inl ⟨nofun, halike⟩
  · split at h
    · obtain ⟨rfl, rfl⟩ := Prod.mk.inj h
      exact .inr (.unlisted halike.sessionTables (fun _ hp _ _ hne => helse hp hne)
        (helse (.table name) hd) (helse (.metadata name) hm))
    · obtain ⟨rfl, rfl⟩ := Prod.mk.inj h
      exact .inr (.session (congrArg (· ++ _) halike.sessionTables)
        (fun _ hp _ _ hne => helse hp hne) (helse (.table name) hd) (helse (.metadata name) hm)
        hmovedData)

variable {lifetime : TableLifetime}

/-- **What `create` can do.** -/
theorem create_outcome [DecidableEq S] (h : create ipc fault s name lifetime batches = (status,
    s')) :
    (status ≠ .ok ∧ Alike s s') ∨
      (name ≠ [] ∧ findUnder ipc fault s name = none ∧ ∃ schema,
        oneSchema ipc batches = some schema ∧
          Outcome ipc fault s s' name schema batches lifetime status) := by
  have hpath := pathOf_published lifetime name
  have hsame := Alike.refl s
  unfold create at h
  dsimp only at h
  split at h
  · obtain ⟨rfl, rfl⟩ := Prod.mk.inj h
    exact .inl ⟨nofun, hsame⟩
  rename_i hname
  split at h
  · obtain ⟨rfl, rfl⟩ := Prod.mk.inj h
    exact .inl ⟨nofun, hsame⟩
  rename_i hfind
  split at h
  · obtain ⟨rfl, rfl⟩ := Prod.mk.inj h
    exact .inl ⟨nofun, hsame⟩
  cases batches with
  | nil =>
    obtain ⟨rfl, rfl⟩ := Prod.mk.inj h
    exact .inl ⟨nofun, hsame⟩
  | cons first rest =>
    dsimp only at h
    split at h
    · obtain ⟨rfl, rfl⟩ := Prod.mk.inj h
      exact .inl ⟨nofun, hsame⟩
    split at h
    · obtain ⟨rfl, rfl⟩ := Prod.mk.inj h
      exact .inl ⟨nofun, hsame.put hpath _⟩
    split at h
    · rename_i hwrite
      obtain ⟨rfl, rfl⟩ := Prod.mk.inj h
      exact .inl ⟨fun hok => writeBatches_ne_ok (hok ▸ hwrite), hsame.put hpath _⟩
    rename_i hwrite
    split at h
    · obtain ⟨rfl, rfl⟩ := Prod.mk.inj h
      exact .inl ⟨nofun, hsame.put hpath _⟩
    split at h
    · obtain ⟨rfl, rfl⟩ := Prod.mk.inj h
      exact .inl ⟨nofun, hsame.put hpath _⟩
    have hschema : oneSchema ipc (first :: rest) = some (ipc.schema first) := by
      rw [oneSchema, if_pos]
      exact all_eq_true.mpr fun b hb =>
        decide_eq_true (writeBatches_none hwrite b (mem_cons_of_mem _ hb))
    have hnone : findUnder ipc fault s name = none := by simpa using hfind
    have halike := hsame.put hpath (.table (ipc.schema first) (first :: rest))
    cases lifetime with
    | persistent =>
      exact (publishPersistent_outcome halike lookup_put_self h).imp_right fun hout =>
        ⟨hname, hnone, _, hschema, hout⟩
    | session =>
      exact (publishSession_outcome halike lookup_put_self h).imp_right fun hout =>
        ⟨hname, hnone, _, hschema, hout⟩

/-- **What `drop` can do.** -/
theorem drop_outcome (h : drop ipc fault s name = (status, s')) :
    (status ≠ .ok ∧ Alike s s') ∨ ∃ t, findUnder ipc fault s name = some t ∧
      ((t.lifetime = .persistent ∧ fault = some .deleteMetadata) ∨
        (status = .ok ∧ s'.sessionTables = s.sessionTables.filter (fun t => decide (t.name ≠ name)) ∧
          s'.files.lookup t.path = none ∧
          ∀ p, p ≠ t.path → (t.lifetime = .persistent → p ≠ metadataPath name) →
            s'.files.lookup p = s.files.lookup p)) := by
  unfold drop at h
  split at h
  · obtain ⟨rfl, rfl⟩ := Prod.mk.inj h
    exact .inl ⟨nofun, .refl s⟩
  rename_i t hfind
  split at h
  · obtain ⟨rfl, rfl⟩ := Prod.mk.inj h
    exact .inl ⟨nofun, .refl s⟩
  refine .inr ⟨t, hfind, ?_⟩
  dsimp only at h
  split at h
  · rename_i hmeta
    exact .inl ⟨hmeta.1, of_decide_eq_true hmeta.2⟩
  · obtain ⟨rfl, rfl⟩ := Prod.mk.inj h
    refine .inr ⟨rfl, rfl, ?_, fun p hp hm => ?_⟩
    · dsimp only
      split
      · rw [lookup_remove]
        split
        · rfl
        · exact lookup_remove_self
      · exact lookup_remove_self
    · dsimp only
      split
      · rename_i hlife
        rw [lookup_remove_of_ne (hm hlife), lookup_remove_of_ne hp]
      · exact lookup_remove_of_ne hp

/-! ## 2. The catalog between operations -/

/-- `find` finds the table, and `read` reads its batches. -/
def Visible (ipc : Ipc S B) (s : Catalog S B) (t : CatalogTable S) (batches : List B) : Prop :=
  find ipc s t.name = some t ∧ read s t = some batches

/-- What the entries in memory are. -/
structure Sound (ipc : Ipc S B) (s : Catalog S B) : Prop where
  nodup : (s.sessionTables.map (·.name)).Nodup
  lifetime : ∀ t ∈ s.sessionTables, t.lifetime = .session
  path : ∀ t ∈ s.sessionTables, t.path = sessionPath t.name
  readable : ∀ t ∈ s.sessionTables, (read s t).isSome = true
  alone : ∀ t ∈ s.sessionTables, findPersistent ipc none s.files t.name = none

theorem findSession_none_iff :
    (s.sessionTables.find? fun t => decide (t.name = name)) = none ↔
      ∀ t ∈ s.sessionTables, t.name ≠ name := by
  simp [List.find?_eq_none]

theorem find_none_iff : find ipc s name = none ↔
    (∀ t ∈ s.sessionTables, t.name ≠ name) ∧ findPersistent ipc none s.files name = none := by
  rw [← findSession_none_iff, find, findUnder]
  cases s.sessionTables.find? fun t => decide (t.name = name) with
  | none => simp
  | some t => simp

variable {t : CatalogTable S}

theorem find_cases (h : find ipc s name = some t) :
    t ∈ s.sessionTables ∨ (∀ u ∈ s.sessionTables, u.name ≠ name) ∧
      findPersistent ipc none s.files name = some t := by
  rw [← findSession_none_iff]
  rw [find, findUnder] at h
  cases hfound : s.sessionTables.find? fun t => decide (t.name = name) with
  | none => exact .inr ⟨rfl, by rwa [hfound] at h⟩
  | some u =>
    rw [hfound] at h
    exact .inl (Option.some.inj h ▸ List.mem_of_find?_eq_some hfound)

theorem find_of_findUnder (h : findUnder ipc fault s name = some t) :
    find ipc s name = some t := by
  rw [find]
  rw [findUnder] at h ⊢
  cases hfound : s.sessionTables.find? fun t => decide (t.name = name) with
  | some u =>
    rw [hfound] at h
    exact h
  | none =>
    rw [hfound] at h
    obtain ⟨hmeta, schema, batches, hdata, rfl⟩ := findPersistent_name h
    have hmeta : (s.files.lookup (metadataPath name)).isNone = false := by simpa using hmeta
    simp [findPersistent, hmeta, hdata, fails]

theorem findPersistent_congr {files files' : Files Path (Content S B)}
    (hdata : files'.lookup (tablePath name) = files.lookup (tablePath name))
    (hmeta : files'.lookup (metadataPath name) = files.lookup (metadataPath name)) :
    findPersistent ipc fault files' name = findPersistent ipc fault files name := by
  rw [findPersistent, findPersistent, hdata, hmeta]

theorem read_congr (h : s'.files.lookup t.path = s.files.lookup t.path) :
    read s' t = read s t := by
  rw [read, read, h]

theorem Sound.find_path (hsound : Sound ipc s) (h : find ipc s t.name = some t) :
    t.path = tablePath t.name ∨ t.path = sessionPath t.name := by
  rcases find_cases h with ht | ⟨-, hfind⟩
  · exact .inr (hsound.path t ht)
  · obtain ⟨-, schema, batches, -, ht⟩ := findPersistent_name hfind
    exact .inl (by rw [ht]; rfl)

theorem Sound.read_isSome (hsound : Sound ipc s) (h : find ipc s t.name = some t) :
    (read s t).isSome = true := by
  rcases find_cases h with ht | ⟨-, hfind⟩
  · exact hsound.readable t ht
  · obtain ⟨-, schema, batches, hdata, ht⟩ := findPersistent_name hfind
    have hpath : t.path = tablePath t.name := by rw [ht]; rfl
    rw [read, hpath, hdata]
    rfl

theorem Alike.find_eq (halike : Alike s s') : find ipc s' name = find ipc s name := by
  rw [find, find, findUnder, findUnder, halike.sessionTables,
    findPersistent_congr (halike.files (.table name)) (halike.files (.metadata name))]

theorem Sound.alike (hsound : Sound ipc s) (halike : Alike s s') : Sound ipc s' where
  nodup := halike.sessionTables ▸ hsound.nodup
  lifetime := halike.sessionTables ▸ hsound.lifetime
  path := halike.sessionTables ▸ hsound.path
  readable := by
    rw [halike.sessionTables]
    intro t ht
    rw [read_congr (halike.files (hsound.path t ht ▸ .session t.name))]
    exact hsound.readable t ht
  alone := by
    rw [halike.sessionTables]
    intro t ht
    rw [findPersistent_congr (halike.files (.table t.name)) (halike.files (.metadata t.name))]
    exact hsound.alone t ht

theorem Sound.visible_alike (hsound : Sound ipc s) (halike : Alike s s') {b : List B} :
    Visible ipc s' t b ↔ Visible ipc s t b := by
  rw [Visible, Visible, halike.find_eq]
  refine and_congr_right fun hfind => ?_
  have hpath : Published t.path := by
    rcases hsound.find_path hfind with h | h <;> rw [h] <;> constructor
  rw [read_congr (halike.files hpath)]

/-! ### The other tables -/

theorem Elsewhere.table {n : Name} (helse : Elsewhere name s s') (hne : n ≠ name) :
    s'.files.lookup (tablePath n) = s.files.lookup (tablePath n) :=
  helse _ (.table n) (fun h => hne (tablePath_inj h)) (tablePath_ne_metadataPath n name)
    fun h => nomatch congrArg Path.folder h

theorem Elsewhere.metadata {n : Name} (helse : Elsewhere name s s') (hne : n ≠ name) :
    s'.files.lookup (metadataPath n) = s.files.lookup (metadataPath n) :=
  helse _ (.metadata n) (tablePath_ne_metadataPath name n).symm (fun h => hne (metadataPath_inj h))
    fun h => nomatch congrArg Path.folder h

theorem Elsewhere.session {n : Name} (helse : Elsewhere name s s') (hne : n ≠ name) :
    s'.files.lookup (sessionPath n) = s.files.lookup (sessionPath n) :=
  helse _ (.session n) (fun h => nomatch congrArg Path.folder h)
    (fun h => nomatch congrArg Path.folder h) fun h => hne (sessionPath_inj h)

/-- An operation on `name` touches the files and the entries of `name` only. -/
structure Frame (name : Name) (s s' : Catalog S B) : Prop where
  files : Elsewhere name s s'
  entries : ∀ t : CatalogTable S, t.name ≠ name → (t ∈ s'.sessionTables ↔ t ∈ s.sessionTables)

/-- The entries of `name` are what is left to check. -/
theorem Frame.sound (hframe : Frame name s s') (hsound : Sound ipc s)
    (hnodup : (s'.sessionTables.map (·.name)).Nodup)
    (hname : ∀ t ∈ s'.sessionTables, t.name = name → t.lifetime = .session ∧
      t.path = sessionPath name ∧ (read s' t).isSome = true ∧
        findPersistent ipc none s'.files name = none) : Sound ipc s' := by
  have hold {t : CatalogTable S} (ht : t ∈ s'.sessionTables) (hne : t.name ≠ name) :=
    (hframe.entries t hne).mp ht
  refine ⟨hnodup, fun t ht => ?_, fun t ht => ?_, fun t ht => ?_, fun t ht => ?_⟩
  all_goals by_cases hn : t.name = name
  · exact (hname t ht hn).1
  · exact hsound.lifetime t (hold ht hn)
  · rw [hn]
    exact (hname t ht hn).2.1
  · exact hsound.path t (hold ht hn)
  · exact (hname t ht hn).2.2.1
  · rw [read_congr (hsound.path t (hold ht hn) ▸ hframe.files.session hn)]
    exact hsound.readable t (hold ht hn)
  · rw [hn]
    exact (hname t ht hn).2.2.2
  · rw [findPersistent_congr (hframe.files.table hn) (hframe.files.metadata hn)]
    exact hsound.alone t (hold ht hn)

theorem Sound.find_iff (hsound : Sound ipc s) :
    find ipc s t.name = some t ↔ t ∈ s.sessionTables ∨
      (∀ u ∈ s.sessionTables, u.name ≠ t.name) ∧
        findPersistent ipc none s.files t.name = some t := by
  refine ⟨find_cases, fun h => ?_⟩
  rcases h with ht | ⟨hnone, hfind⟩
  · exact find_session hsound.nodup ht none
  · rw [find, findUnder, findSession_none_iff.mpr hnone]
    exact hfind

theorem Frame.visible (hframe : Frame name s s') (hsound : Sound ipc s) (hsound' : Sound ipc s')
    {b : List B} (hne : t.name ≠ name) :
    Visible ipc s' t b ↔ Visible ipc s t b := by
  have hentries : (∀ u ∈ s'.sessionTables, u.name ≠ t.name) ↔
      ∀ u ∈ s.sessionTables, u.name ≠ t.name := by
    constructor
    · intro h u hu hut
      exact h u ((hframe.entries u (hut ▸ hne)).mpr hu) hut
    · intro h u hu hut
      exact h u ((hframe.entries u (hut ▸ hne)).mp hu) hut
  have hfind : find ipc s' t.name = some t ↔ find ipc s t.name = some t := by
    rw [hsound.find_iff, hsound'.find_iff, hframe.entries t hne, hentries,
      findPersistent_congr (hframe.files.table hne) (hframe.files.metadata hne)]
  rw [Visible, Visible, hfind]
  refine and_congr_right fun hfound => ?_
  have hpath : s'.files.lookup t.path = s.files.lookup t.path := by
    rcases hsound.find_path hfound with h | h <;> rw [h]
    · exact hframe.files.table hne
    · exact hframe.files.session hne
  rw [read_congr hpath]

theorem visible_of_find {t u : CatalogTable S} {b c : List B} (hfind : find ipc s u.name = some u)
    (hread : read s u = some c) (hname : t.name = u.name) :
    Visible ipc s t b ↔ t = u ∧ b = c := by
  constructor
  · rintro ⟨hfound, hb⟩
    obtain rfl : u = t := Option.some.inj (hfind.symm.trans (hname ▸ hfound))
    exact ⟨rfl, Option.some.inj (hb.symm.trans hread)⟩
  · rintro ⟨rfl, rfl⟩
    exact ⟨hfind, hread⟩

theorem not_visible_of_find {b : List B} (hfind : find ipc s name = none) (hname : t.name = name) :
    ¬ Visible ipc s t b := by
  rintro ⟨hfound, -⟩
  rw [hname, hfind] at hfound
  cases hfound

/-! ## 3. One operation -/

/-- What is visible after an operation with this status. -/
structure Kept (ipc : Ipc S B) (s s' : Catalog S B) (status : Status)
    (after : CatalogTable S → List B → Prop) : Prop where
  sound : Sound ipc s'
  failed : status ≠ .ok → ∀ t b, Visible ipc s' t b ↔ Visible ipc s t b
  succeeded : status = .ok → ∀ t b, Visible ipc s' t b ↔ after t b

variable {after : CatalogTable S → List B → Prop}

theorem Kept.of_alike (hsound : Sound ipc s) (hstatus : status ≠ .ok) (halike : Alike s s') :
    Kept ipc s s' status after where
  sound := hsound.alike halike
  failed := fun _ _ _ => hsound.visible_alike halike
  succeeded := fun hok => absurd hok hstatus

theorem Kept.of_invisible (hsound : Sound ipc s) (hsound' : Sound ipc s') (hstatus : status ≠ .ok)
    (hframe : Frame name s s') (hnone : find ipc s name = none) (hnone' : find ipc s' name = none) :
    Kept ipc s s' status after where
  sound := hsound'
  failed := by
    intro _ t b
    by_cases hn : t.name = name
    · exact iff_of_false (not_visible_of_find hnone' hn) (not_visible_of_find hnone hn)
    · exact hframe.visible hsound hsound' hn
  succeeded := fun hok => absurd hok hstatus

theorem Kept.of_new (hsound : Sound ipc s) (hsound' : Sound ipc s') (hframe : Frame t.name s s')
    (hnone : find ipc s t.name = none) (hfind : find ipc s' t.name = some t)
    (hread : read s' t = some batches) :
    Kept ipc s s' .ok fun u b => Visible ipc s u b ∨ u = t ∧ b = batches where
  sound := hsound'
  failed := fun hstatus => absurd rfl hstatus
  succeeded := by
    intro _ u b
    by_cases hn : u.name = t.name
    · rw [visible_of_find hfind hread hn, or_iff_right (not_visible_of_find hnone hn)]
    · rw [hframe.visible hsound hsound' hn, or_iff_left fun h => hn (congrArg CatalogTable.name h.1)]

theorem Kept.of_gone (hsound : Sound ipc s) (hsound' : Sound ipc s') (hframe : Frame name s s')
    (hnone' : find ipc s' name = none) :
    Kept ipc s s' .ok fun u b => Visible ipc s u b ∧ u.name ≠ name where
  sound := hsound'
  failed := fun hstatus => absurd rfl hstatus
  succeeded := by
    intro _ u b
    by_cases hn : u.name = name
    · exact iff_of_false (not_visible_of_find hnone' hn) fun h => h.2 hn
    · rw [hframe.visible hsound hsound' hn, and_iff_left hn]

/-- **A `create` that may publish keeps the rest**: it fails with nothing visible changed, or the
new table is there. -/
theorem Outcome.kept (hout : Outcome ipc fault s s' name schema batches lifetime status)
    (hsound : Sound ipc s) (hnone : find ipc s name = none)
    (hfault : lifetime = .persistent → fault ≠ some .infoData) :
    Kept ipc s s' status fun u b =>
      Visible ipc s u b ∨ u = newTable ipc name lifetime schema batches ∧ b = batches := by
  obtain ⟨hentries, hpersistent⟩ := find_none_iff.mp hnone
  -- with the entries as they were, the catalog is sound again
  have hsame (hsession : s'.sessionTables = s.sessionTables) (helse : Elsewhere name s s') :
      Frame name s s' ∧ Sound ipc s' := by
    have hframe : Frame name s s' := ⟨helse, fun t _ => by rw [hsession]⟩
    refine ⟨hframe, hframe.sound hsound (hsession ▸ hsound.nodup) fun t ht hn => ?_⟩
    exact absurd hn (hentries t (hsession ▸ ht))
  have hentries' (hsession : s'.sessionTables = s.sessionTables) :
      ∀ t ∈ s'.sessionTables, t.name ≠ name := hsession ▸ hentries
  cases hout with
  | withdrawn hsession helse hdata =>
    obtain ⟨hframe, hsound'⟩ := hsame hsession helse
    refine .of_invisible hsound hsound' nofun hframe hnone
      (find_none_iff.mpr ⟨hentries' hsession, ?_⟩)
    simp [findPersistent, hdata]
  | persistent hsession helse hdata hmeta hstatus =>
    obtain ⟨hframe, hsound'⟩ := hsame hsession helse
    obtain rfl := hstatus.resolve_right (hfault rfl)
    have hread : read s' (newTable ipc name .persistent schema batches) = some batches := by
      simp only [read, newTable, pathOf, hdata]
    refine .of_new (t := newTable ipc name .persistent schema batches) hsound hsound' hframe hnone
      (hsound'.find_iff.mpr (.inr ⟨hentries' hsession, ?_⟩)) hread
    have hmeta : (s'.files.lookup (metadataPath name)).isNone = false := by simpa using hmeta
    show findPersistent ipc none s'.files name = _
    simp [findPersistent, hmeta, hdata, fails]
    rfl
  | unlisted hsession helse hdata hmeta =>
    obtain ⟨hframe, hsound'⟩ := hsame hsession helse
    refine .of_invisible hsound hsound' nofun hframe hnone
      (find_none_iff.mpr ⟨hentries' hsession, ?_⟩)
    rw [findPersistent_congr hdata hmeta]
    exact hpersistent
  | session hsession helse hdata hmeta hfile =>
    have hread : read s' (newTable ipc name .session schema batches) = some batches := by
      simp only [read, newTable, pathOf, hfile]
    have hmem {t : CatalogTable S} : t ∈ s'.sessionTables ↔
        t ∈ s.sessionTables ∨ t = newTable ipc name .session schema batches := by
      rw [hsession, mem_append, mem_singleton]
    have hframe : Frame name s s' :=
      ⟨helse, fun t hn => hmem.trans (or_iff_left fun h => hn (congrArg CatalogTable.name h))⟩
    have hnodup : (s'.sessionTables.map (·.name)).Nodup := by
      rw [hsession, map_append]
      refine List.nodup_append.mpr ⟨hsound.nodup, nodup_singleton _, ?_⟩
      intro a ha c hc hac
      obtain ⟨t, ht, rfl⟩ := mem_map.mp ha
      exact hentries t ht (hac.trans (mem_singleton.mp hc))
    have hsound' : Sound ipc s' := hframe.sound hsound hnodup fun t ht hn => by
      obtain rfl := (hmem.mp ht).resolve_left fun h => hentries t h hn
      refine ⟨rfl, rfl, by rw [hread]; rfl, ?_⟩
      rw [findPersistent_congr hdata hmeta]
      exact hpersistent
    exact .of_new (t := newTable ipc name .session schema batches) hsound hsound' hframe hnone
      (hsound'.find_iff.mpr (.inl (hmem.mpr (.inr rfl)))) hread

/-- The table that a `create` makes of its stream, if it can. -/
def created [DecidableEq S] (ipc : Ipc S B) (name : Name) (lifetime : TableLifetime)
    (stream : List B) : Option (CatalogTable S) :=
  if name = [] then none else (oneSchema ipc stream).map fun schema =>
    newTable ipc name lifetime schema stream

/-- **A `create` keeps the rest**: it fails with nothing visible changed, or its table is there. -/
theorem create_kept [DecidableEq S] (hsound : Sound ipc s)
    (hclean : (created ipc name lifetime batches).isSome = true →
      ((find ipc s name).isSome = true → (findUnder ipc fault s name).isSome = true) ∧
        (find ipc s name = none → lifetime = .persistent → fault ≠ some .infoData))
    (h : create ipc fault s name lifetime batches = (status, s')) :
    Kept ipc s s' status fun u b =>
      Visible ipc s u b ∨ created ipc name lifetime batches = some u ∧ b = batches := by
  rcases create_outcome h with ⟨hstatus, halike⟩ | ⟨hname, hunder, schema, hschema, hout⟩
  · exact .of_alike hsound hstatus halike
  have hcreated : created ipc name lifetime batches =
      some (newTable ipc name lifetime schema batches) := by
    rw [created, if_neg hname, hschema]
    rfl
  obtain ⟨hhidden, hinfo⟩ := hclean (hcreated ▸ rfl)
  have hnone : find ipc s name = none := by
    rw [hunder] at hhidden
    simpa using hhidden
  have hkept := hout.kept hsound hnone (hinfo hnone)
  refine ⟨hkept.sound, hkept.failed, fun hok u b => (hkept.succeeded hok u b).trans ?_⟩
  rw [hcreated, Option.some.injEq, eq_comm (a := u)]

/-- **A `drop` keeps the rest**: it fails with nothing visible changed, or the table is gone. -/
theorem drop_kept (hsound : Sound ipc s)
    (hfault : ∀ t, find ipc s name = some t → t.lifetime = .persistent →
      fault ≠ some .deleteMetadata) (h : drop ipc fault s name = (status, s')) :
    Kept ipc s s' status fun u b => Visible ipc s u b ∧ u.name ≠ name := by
  rcases drop_outcome h with ⟨hstatus, halike⟩ | ⟨t, hunder, hout⟩
  · exact .of_alike hsound hstatus halike
  have hfind := find_of_findUnder hunder
  have htname : t.name = name := find_name hunder
  obtain ⟨rfl, hsession, hgone, hfiles⟩ := hout.resolve_left fun h => hfault t hfind h.1 h.2
  have hpath : t.path = tablePath name ∨ t.path = sessionPath name :=
    htname ▸ hsound.find_path (htname ▸ hfind)
  have hframe : Frame name s s' := by
    refine ⟨fun p _ hd hm hs => hfiles p ?_ fun _ => hm, fun u hn => ?_⟩
    · rcases hpath with h | h <;> rw [h]
      · exact hd
      · exact hs
    · rw [hsession, mem_filter, and_iff_left (decide_eq_true hn)]
  have hnodup : (s'.sessionTables.map (·.name)).Nodup :=
    hsession ▸ hsound.nodup.sublist (filter_sublist.map _)
  have hentries : ∀ u ∈ s'.sessionTables, u.name ≠ name := by
    intro u hu
    rw [hsession] at hu
    exact of_decide_eq_true (mem_filter.mp hu).2
  have hsound' : Sound ipc s' :=
    hframe.sound hsound hnodup fun u hu hn => absurd hn (hentries u hu)
  refine .of_gone hsound hsound' hframe (find_none_iff.mpr ⟨hentries, ?_⟩)
  rcases find_cases hfind with ht | ⟨-, hpersistent⟩
  · -- a session table has no persistent one behind it
    have hne : t.path ≠ tablePath name := by
      rw [hsound.path t ht]
      exact fun h => nomatch congrArg Path.folder h
    have hlife : t.lifetime ≠ .persistent := by
      rw [hsound.lifetime t ht]
      exact nofun
    rw [findPersistent_congr (hfiles _ hne.symm fun h => absurd h hlife)
      (hfiles _ (fun h => ?_) fun h => absurd h hlife), ← htname]
    · exact hsound.alone t ht
    · rw [hsound.path t ht] at h
      exact nomatch congrArg Path.folder h
  · obtain ⟨-, schema, batches, -, rfl⟩ := findPersistent_name hpersistent
    have hgone : s'.files.lookup (tablePath name) = none := hgone
    simp [findPersistent, hgone]

/-! ## 4. Runs -/

/-- The catalog, and the tables successfully created and not dropped since. -/
structure State (S B : Type) where
  catalog : Catalog S B
  live : List (CatalogTable S × List B)

inductive Action (B : Type)
  | create (name : Name) (lifetime : TableLifetime) (stream : List B) (fault : Fault)
  | drop (name : Name) (fault : Fault)

/-- A catalog just built over a root directory. -/
def start (ipc : Ipc S B) (files : Files Path (Content S B)) : State S B :=
  let catalog : Catalog S B := { files := files }
  { catalog := catalog
    live := (tables ipc catalog).filterMap fun t => (read catalog t).map (t, ·) }

/-- The catalog shows the live tables with their batches, and nothing else. -/
structure Whole (ipc : Ipc S B) (s : State S B) : Prop where
  agree : ∀ t, t ∈ tables ipc s.catalog ↔ find ipc s.catalog t.name = some t
  nodup : ((tables ipc s.catalog).map (·.name)).Nodup
  readable : ∀ t ∈ tables ipc s.catalog, (read s.catalog t).isSome = true
  live : ∀ t b, (t, b) ∈ s.live ↔ t ∈ tables ipc s.catalog ∧ read s.catalog t = some b

structure Inv (ipc : Ipc S B) (s : State S B) : Prop where
  sound : Sound ipc s.catalog
  live : ∀ t b, (t, b) ∈ s.live ↔ Visible ipc s.catalog t b

theorem Inv.whole {s : State S B} (hinv : Inv ipc s) : Whole ipc s := by
  obtain ⟨hnodup, hagree⟩ := @tables_agree _ _ ipc _ hinv.sound.nodup
  refine ⟨hagree, hnodup, fun t ht => hinv.sound.read_isSome ((hagree t).mp ht), fun t b => ?_⟩
  rw [hinv.live, Visible, hagree]

theorem inv_start (ipc : Ipc S B) (files : Files Path (Content S B)) :
    Inv ipc (start ipc files) := by
  have hsound : Sound ipc (start ipc files).catalog :=
    ⟨nodup_nil, forall_mem_nil _, forall_mem_nil _, forall_mem_nil _,
      forall_mem_nil _⟩
  refine ⟨hsound, fun t b => ?_⟩
  have hmem : (t, b) ∈ (start ipc files).live ↔
      t ∈ tables ipc (start ipc files).catalog ∧
        read (start ipc files).catalog t = some b := by
    constructor
    · intro h
      obtain ⟨u, hu, hread⟩ := mem_filterMap.mp h
      obtain ⟨c, hc, heq⟩ := Option.map_eq_some_iff.mp hread
      obtain ⟨rfl, rfl⟩ := Prod.mk.inj heq
      exact ⟨hu, hc⟩
    · rintro ⟨ht, hread⟩
      exact mem_filterMap.mpr ⟨t, ht, Option.map_eq_some_iff.mpr ⟨b, hread, rfl⟩⟩
  rw [hmem, Visible, (tables_agree hsound.nodup).2]

section Steps

variable [DecidableEq S]

def perform (ipc : Ipc S B) (s : Catalog S B) : Action B → Status × Catalog S B
  | .create name lifetime stream fault => create ipc fault s name lifetime stream
  | .drop name fault => drop ipc fault s name

/-- The live tables after an operation that succeeded. -/
def record (ipc : Ipc S B) (live : List (CatalogTable S × List B)) :
    Action B → List (CatalogTable S × List B)
  | .create name lifetime stream _ =>
    match created ipc name lifetime stream with
    | some t => live ++ [(t, stream)]
    | none => live
  | .drop name _ => live.filter fun x => decide (x.1.name ≠ name)

def step (ipc : Ipc S B) (s : State S B) (a : Action B) : Option (State S B) :=
  let result := perform ipc s.catalog a
  some
    { catalog := result.2
      live := if result.1 = .ok then record ipc s.live a else s.live }

/-- **The faults the catalog copes with**: in `create`, no failing call hides the table from `find`
and the size of a persistent table is read; in `drop`, the metadata of a persistent table is
deleted. -/
def clean (ipc : Ipc S B) (s : State S B) : Action B → Prop
  | .create name lifetime stream fault =>
    (created ipc name lifetime stream).isSome = true →
      ((find ipc s.catalog name).isSome = true →
        (findUnder ipc fault s.catalog name).isSome = true) ∧
      (find ipc s.catalog name = none → lifetime = .persistent → fault ≠ some .infoData)
  | .drop name fault =>
    (find ipc s.catalog name).map (·.lifetime) = some .persistent → fault ≠ some .deleteMetadata

instance (ipc : Ipc S B) (s : State S B) : DecidablePred (clean ipc s)
  | .create .. => inferInstanceAs (Decidable (_ → _))
  | .drop .. => inferInstanceAs (Decidable (_ → _))

/-- **One operation.** -/
theorem Inv.perform_kept {s : State S B} {a : Action B} (hinv : Inv ipc s) (hclean : clean ipc s a) :
    Kept ipc s.catalog (perform ipc s.catalog a).2 (perform ipc s.catalog a).1
      fun t b => (t, b) ∈ record ipc s.live a := by
  cases a with
  | create name lifetime stream fault =>
    have hkept := create_kept hinv.sound hclean rfl
    refine ⟨hkept.sound, hkept.failed, fun hok t b => (hkept.succeeded hok t b).trans ?_⟩
    rw [record, ← hinv.live]
    cases created ipc name lifetime stream with
    | none => simp
    | some u => simp [eq_comm (a := u)]
  | drop name fault =>
    have hkept := drop_kept hinv.sound (fun t ht hlife => hclean (by rw [ht, ← hlife]; rfl)) rfl
    refine ⟨hkept.sound, hkept.failed, fun hok t b => (hkept.succeeded hok t b).trans ?_⟩
    rw [record, mem_filter, hinv.live, decide_eq_true_iff]

theorem Inv.step {s s' : State S B} {a : Action B} (hinv : Inv ipc s) (hclean : clean ipc s a)
    (h : step ipc s a = some s') : Inv ipc s' := by
  have hkept := hinv.perform_kept hclean
  obtain rfl := Option.some.inj h
  refine ⟨hkept.sound, fun t b => ?_⟩
  by_cases hok : (perform ipc s.catalog a).1 = .ok
  · show (t, b) ∈ (if _ then _ else _) ↔ _
    rw [if_pos hok]
    exact (hkept.succeeded hok t b).symm
  · show (t, b) ∈ (if _ then _ else _) ↔ _
    rw [if_neg hok]
    exact (hinv.live t b).trans (hkept.failed hok t b).symm

/-- **The catalog under faults.** After any run of clean operations the catalog shows exactly the
tables created and not dropped, and a clean operation that does not succeed changes nothing that is
visible. -/
theorem catalog_of_clean (ipc : Ipc S B) (files : Files Path (Content S B)) {s : State S B}
    (hrun : Runs (step ipc) (clean ipc) (start ipc files) s) :
    Whole ipc s ∧ ∀ a, clean ipc s a → (perform ipc s.catalog a).1 ≠ .ok →
      ∀ t b, Visible ipc (perform ipc s.catalog a).2 t b ↔ Visible ipc s.catalog t b := by
  have hinv : Inv ipc s :=
    hrun.keeps (fun _ _ _ hinv hclean h => hinv.step hclean h) (inv_start ipc files)
  exact ⟨hinv.whole, fun a hclean => (hinv.perform_kept hclean).failed⟩

end Steps

end Model

/-- Batches that are numbers of rows. -/
def sampleIpc : Ipc Unit Nat := { schema := fun _ => (), numRows := fun b => b, size := fun _ => 0 }

/-- A failing call of each operation, and a table created after the one of its name. -/
def sampleRun : List (Action Nat) :=
  [.create [0x61] .persistent [1] none, .create [0x62] .session [2, 3] (some .infoData),
    .drop [0x61] (some .deleteData), .create [0x61] .persistent [4] none,
    .create [0x63] .persistent [5] (some .moveMetadata), .drop [0x61] none,
    .create [0x61] .session [6] none]

theorem sampleRun_clean : ∃ s, exec (step sampleIpc) (clean sampleIpc) (start sampleIpc []) sampleRun =
    some s ∧ Whole sampleIpc s ∧ s.live.map (·.1.name) = [[0x61]] := by
  obtain ⟨s, hs⟩ : ∃ s, exec (step sampleIpc) (clean sampleIpc) (start sampleIpc []) sampleRun =
      some s := ⟨_, rfl⟩
  refine ⟨s, hs, (catalog_of_clean sampleIpc [] (.of_exec _ hs)).1, ?_⟩
  have hlive : (exec (step sampleIpc) (clean sampleIpc) (start sampleIpc []) sampleRun).map
      (fun s => s.live.map (·.1.name)) = some [[0x61]] := by decide +kernel
  rw [hs] at hlive
  exact Option.some.inj hlive

/-- **The three faults.** `drop` fails and the table is gone; `create` fails and the table is there;
`create` takes the place of a table that `find` did not see. -/
theorem catalog_fails :
    (∃ s, exec (step sampleIpc) anyStep (start sampleIpc [])
        [.create [0x61] .persistent [1] none, .drop [0x61] (some .deleteMetadata)] = some s ∧
          ¬ Whole sampleIpc s) ∧
      (∃ s, exec (step sampleIpc) anyStep (start sampleIpc [])
        [.create [0x61] .persistent [1] (some .infoData)] = some s ∧ ¬ Whole sampleIpc s) ∧
      ∃ s, exec (step sampleIpc) anyStep (start sampleIpc [])
        [.create [0x61] .persistent [1] none,
          .create [0x61] .persistent [2] (some (.find .infoMetadata))] = some s ∧
            ¬ Whole sampleIpc s := by
  have hdiffer : ∀ (s : State Unit Nat) (b : List Nat),
      let t := newTable sampleIpc [0x61] .persistent () b
      ¬ ((t, b) ∈ s.live ↔ t ∈ tables sampleIpc s.catalog ∧ read s.catalog t = some b) →
        ¬ Whole sampleIpc s := fun _ _ h hwhole => h (hwhole.live _ _)
  refine ⟨⟨_, rfl, hdiffer _ [1] ?_⟩, ⟨_, rfl, hdiffer _ [1] ?_⟩, ⟨_, rfl, hdiffer _ [1] ?_⟩⟩
  all_goals decide +kernel

end MldpDriver.Query.TableCatalog

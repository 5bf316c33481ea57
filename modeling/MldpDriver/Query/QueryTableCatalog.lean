/-
# The catalog of query tables

`QueryTableCatalog` stores query results as Arrow IPC files.  A persistent table is a data file and
a metadata file in the managed folder, named after the table in hexadecimal; a session table is a
data file in the folder of the session and an entry in memory.  `create` writes the data under a
temporary name, then moves it; `drop` deletes the files.  Each call of the file system may fail.

Directories inside the managed folder and tables of other processes are outside the model.
-/
import Mathlib.Algebra.Group.Nat.Defs
import Mathlib.Data.List.Nodup
import MldpDriver.Lib.Directory
import MldpDriver.Lib.Run

namespace MldpDriver.Query.TableCatalog

open Lib.Directory List

/-! ## 1. Names -/

/-- A `std::string` that names a table. -/
abbrev Name := List UInt8

/-- `safeName`. -/
def safeName (name : Name) : List Char :=
  name.flatMap fun b => [Nat.digitChar (b.toNat / 16), Nat.digitChar (b.toNat % 16)]

/-- The value of a hexadecimal digit. -/
def hexDigit (c : Char) : Option Nat :=
  if '0' ≤ c ∧ c ≤ '9' then some (c.toNat - 48)
  else if 'a' ≤ c ∧ c ≤ 'f' then some (c.toNat - 87)
  else if 'A' ≤ c ∧ c ≤ 'F' then some (c.toNat - 55)
  else none

/-- `isspace`. -/
def isSpace (c : Char) : Bool := [' ', '\t', '\n', '\x0b', '\x0c', '\r'].contains c

/-- What `input >> std::hex >> value` reads from two characters, as a `char`: white space is
skipped, a sign or `0x` may come first, and a character that is no digit ends the number. -/
def readHex (a b : Char) : Option UInt8 :=
  if isSpace a || a == '+' then (hexDigit b).map UInt8.ofNat
  else if a = '-' then (hexDigit b).map fun v => UInt8.ofNat (256 - v)
  else
    match hexDigit a with
    | none => none
    | some x =>
      if a = '0' ∧ (b = 'x' ∨ b = 'X') then none
      else
        match hexDigit b with
        | some y => some (UInt8.ofNat (16 * x + y))
        | none => some (UInt8.ofNat x)

/-- `unsafeName`. -/
def unsafeName : List Char → Option Name
  | [] => some []
  | [_] => none
  | a :: b :: rest =>
    match readHex a b with
    | none => none
    | some x => (unsafeName rest).map (x :: ·)

/-- The folders the catalog works in. -/
inductive Folder
  | queryTables
  | session
  deriving DecidableEq

structure Path where
  folder : Folder
  file : List Char
  deriving DecidableEq

def tablePath (name : Name) : Path := ⟨.queryTables, safeName name ++ ".arrow".toList⟩

def metadataPath (name : Name) : Path := ⟨.queryTables, safeName name ++ ".meta".toList⟩

/-- The data file of a session table. -/
def sessionPath (name : Name) : Path := ⟨.session, safeName name ++ ".arrow".toList⟩

/-- `path + ".partial"`. -/
def temporaryPath (path : Path) : Path := { path with file := path.file ++ ".partial".toList }

/-! ## 2. The catalog

`findUnder`, `create` and `drop` follow the code call by call; a fault names the call that fails.

`tables` lists what `find` finds (`tables_agree`). -/

section Model

variable {S B : Type}

inductive TableLifetime
  | session
  | persistent
  deriving DecidableEq

/-- `CatalogTable`. -/
structure CatalogTable (S : Type) where
  name : Name
  lifetime : TableLifetime
  path : Path
  schema : S
  rowCount : Int
  byteCount : Int
  deriving DecidableEq

/-- What a file holds: an Arrow IPC file, a metadata text, or a file that was not written to its
end. -/
inductive Content (S B : Type)
  | table (schema : S) (batches : List B)
  | metadata (name : Name) (rows bytes : Int)
  | torn

/-- What the catalog takes from Arrow. -/
structure Ipc (S B : Type) where
  schema : B → S
  numRows : B → Int
  size : Content S B → Int

/-- The files, and `session_tables_`. -/
structure Catalog (S B : Type) where
  files : Files Path (Content S B) := []
  sessionTables : List (CatalogTable S) := []

/-- The calls of `find`. -/
inductive FindCall
  | infoMetadata
  | infoData
  | openData
  | openReader
  | readBatch (k : Nat)
  deriving DecidableEq

/-- The calls of `create` and `drop`. -/
inductive Call
  | find (call : FindCall)
  | createDir
  | openData
  | makeWriter
  | writeBatch (k : Nat)
  | closeWriter
  | closeData
  | infoTemporary
  | openMetadata
  | writeMetadata
  | closeMetadata
  | moveData
  | moveMetadata
  | undoData
  | infoData
  | deleteData
  | deleteMetadata
  deriving DecidableEq

/-- The call that fails, if one does. -/
abbrev Fault := Option Call

def fails (fault : Fault) (call : Call) : Bool := decide (fault = some call)

/-- The status an operation returns. -/
inductive Status
  | ok
  | emptyName
  | alreadyExists
  | emptyResults
  | mixedSchemas
  | unknownTable
  | failed (call : Call)
  deriving DecidableEq

def totalRows (ipc : Ipc S B) (batches : List B) : Int :=
  batches.foldl (fun rows b => rows + ipc.numRows b) 0

/-- A persistent table as `find` describes it. -/
def persistentTable (ipc : Ipc S B) (name : Name) (schema : S) (batches : List B) :
    CatalogTable S where
  name := name
  lifetime := .persistent
  path := tablePath name
  schema := schema
  rowCount := totalRows ipc batches
  byteCount := ipc.size (.table schema batches)

/-- The part of `find` that looks at the files. -/
def findPersistent (ipc : Ipc S B) (fault : Fault) (files : Files Path (Content S B))
    (name : Name) : Option (CatalogTable S) :=
  if fails fault (.find .infoMetadata) || (files.lookup (metadataPath name)).isNone then none
  else if fails fault (.find .infoData) then none
  else
    match files.lookup (tablePath name) with
    | some (.table schema batches) =>
      if fails fault (.find .openData) || fails fault (.find .openReader) ||
          (List.range batches.length).any fun k => fails fault (.find (.readBatch k)) then none
      else some (persistentTable ipc name schema batches)
    | _ => none

/-- `find`, with the call that fails. -/
def findUnder (ipc : Ipc S B) (fault : Fault) (s : Catalog S B) (name : Name) :
    Option (CatalogTable S) :=
  match s.sessionTables.find? fun t => decide (t.name = name) with
  | some t => some t
  | none => findPersistent ipc fault s.files name

/-- `find`. -/
def find (ipc : Ipc S B) (s : Catalog S B) (name : Name) : Option (CatalogTable S) :=
  findUnder ipc none s name

/-- The name that a file of the managed folder is the metadata of. -/
def metadataName (path : Path) : Option Name :=
  if path.folder = .queryTables ∧ ".meta".toList <:+ path.file then
    unsafeName (path.file.take (path.file.length - 5))
  else none

/-- `tables`. -/
def tables (ipc : Ipc S B) (s : Catalog S B) : List (CatalogTable S) :=
  (s.files.filterMap fun x => metadataName x.1).foldl
    (fun result name =>
      if result.any fun t => decide (t.name = name) then result
      else
        match find ipc s name with
        | some t => result ++ [t]
        | none => result)
    s.sessionTables

/-- The batches of a table. -/
def read (s : Catalog S B) (t : CatalogTable S) : Option (List B) :=
  match s.files.lookup t.path with
  | some (.table _ batches) => some batches
  | _ => none

/-! ## 3. Creating and dropping -/

/-- The loop over the batches: the status it ends with before the last of them. -/
def writeBatches [DecidableEq S] (ipc : Ipc S B) (fault : Fault) (schema : S) :
    Nat → List B → Option Status
  | _, [] => none
  | k, b :: bs =>
    if ipc.schema b ≠ schema then some .mixedSchemas
    else if fails fault (.writeBatch k) then some (.failed (.writeBatch k))
    else writeBatches ipc fault schema (k + 1) bs

/-- The first of the calls that fails. -/
def firstFailure (fault : Fault) (calls : List Call) : Option Call :=
  calls.find? fun call => fails fault call

/-- `create` of a persistent table, once its data is at the temporary path. -/
def publishPersistent (ipc : Ipc S B) (fault : Fault) (s : Catalog S B) (name : Name) (schema : S)
    (batches : List B) : Status × Catalog S B :=
  let path := tablePath name
  let metadata := metadataPath name
  let text : Content S B :=
    .metadata name (totalRows ipc batches) (ipc.size (.table schema batches))
  if fails fault .openMetadata then (.failed .openMetadata, s)
  else
    match firstFailure fault [.writeMetadata, .closeMetadata] with
    | some call => (.failed call, { s with files := put s.files (temporaryPath metadata) .torn })
    | none =>
      let files := put s.files (temporaryPath metadata) text
      if fails fault .moveData then (.failed .moveData, { s with files := files })
      else
        let files := move files (temporaryPath path) path
        if fails fault .moveMetadata then
          (.failed .moveMetadata,
            { s with files := if fails fault .undoData then files else remove files path })
        else
          let files := move files (temporaryPath metadata) metadata
          if fails fault .infoData then (.failed .infoData, { s with files := files })
          else (.ok, { s with files := files })

/-- `create` of a session table, once its data is at the temporary path. -/
def publishSession (ipc : Ipc S B) (fault : Fault) (s : Catalog S B) (name : Name) (schema : S)
    (batches : List B) : Status × Catalog S B :=
  let path := sessionPath name
  if fails fault .moveData then (.failed .moveData, s)
  else
    let files := move s.files (temporaryPath path) path
    if fails fault .infoData then (.failed .infoData, { s with files := files })
    else
      let table : CatalogTable S :=
        { name := name, lifetime := .session, path := path, schema := schema
          rowCount := totalRows ipc batches, byteCount := ipc.size (.table schema batches) }
      (.ok, { files := files, sessionTables := s.sessionTables ++ [table] })

/-- The path of a table. -/
def pathOf : TableLifetime → Name → Path
  | .persistent => tablePath
  | .session => sessionPath

/-- `create`; the stream gives its batches one by one. -/
def create [DecidableEq S] (ipc : Ipc S B) (fault : Fault) (s : Catalog S B) (name : Name)
    (lifetime : TableLifetime) (stream : List B) : Status × Catalog S B :=
  if name = [] then (.emptyName, s)
  else if (findUnder ipc fault s name).isSome then (.alreadyExists, s)
  else if fails fault .createDir then (.failed .createDir, s)
  else
    match stream with
    | [] => (.emptyResults, s)
    | first :: rest =>
      let temporary := temporaryPath (pathOf lifetime name)
      let schema := ipc.schema first
      let torn := { s with files := put s.files temporary .torn }
      if fails fault .openData then (.failed .openData, s)
      else if fails fault .makeWriter then (.failed .makeWriter, torn)
      else
        match writeBatches ipc fault schema 0 (first :: rest) with
        | some status => (status, torn)
        | none =>
          match firstFailure fault [.closeWriter, .closeData] with
          | some call => (.failed call, torn)
          | none =>
            let written := { s with files := put s.files temporary (.table schema (first :: rest)) }
            if fails fault .infoTemporary then (.failed .infoTemporary, written)
            else
              match lifetime with
              | .persistent => publishPersistent ipc fault written name schema (first :: rest)
              | .session => publishSession ipc fault written name schema (first :: rest)

/-- `drop`. -/
def drop (ipc : Ipc S B) (fault : Fault) (s : Catalog S B) (name : Name) : Status × Catalog S B :=
  match findUnder ipc fault s name with
  | none => (.unknownTable, s)
  | some t =>
    -- a file that is not there cannot be deleted
    if fails fault .deleteData || (s.files.lookup t.path).isNone then (.failed .deleteData, s)
    else
      let files := remove s.files t.path
      if t.lifetime = .persistent ∧ fails fault .deleteMetadata = true then
        (.failed .deleteMetadata, { s with files := files })
      else
        (.ok,
          { files := if t.lifetime = .persistent then remove files (metadataPath name) else files
            sessionTables := s.sessionTables.filter fun t => decide (t.name ≠ name) })

end Model

/-! ## 4. Names and paths -/

theorem readHex_byte (b : UInt8) :
    readHex (Nat.digitChar (b.toNat / 16)) (Nat.digitChar (b.toNat % 16)) = some b := by
  have hall : ∀ n < 256, readHex (Nat.digitChar (n / 16)) (Nat.digitChar (n % 16)) =
      some (UInt8.ofNat n) := by decide +kernel
  rw [hall b.toNat b.toNat_lt, UInt8.ofNat_toNat]

/-- **A name is read back from its file.** -/
theorem unsafeName_safeName (name : Name) : unsafeName (safeName name) = some name := by
  induction name with
  | nil => rfl
  | cons b name ih =>
    have hcons : safeName (b :: name) =
        Nat.digitChar (b.toNat / 16) :: Nat.digitChar (b.toNat % 16) :: safeName name := rfl
    rw [hcons, unsafeName, readHex_byte, ih]
    rfl

theorem dot_notMem_safeName (name : Name) : '.' ∉ safeName name := by
  have hall : ∀ n < 16, Nat.digitChar n ≠ '.' := by decide
  intro h
  obtain ⟨b, -, hb⟩ := mem_flatMap.mp h
  have hlt := b.toNat_lt
  rcases mem_cons.mp hb with hb | hb
  · exact hall (b.toNat / 16) (by omega) hb.symm
  · exact hall (b.toNat % 16) (by omega) (mem_singleton.mp hb).symm

variable {a b : Name}

theorem fileName_inj {x y : List Char} (h : safeName a ++ '.' :: x = safeName b ++ '.' :: y) :
    a = b ∧ x = y := by
  obtain ⟨hab, hxy⟩ := split_unique (dot_notMem_safeName a) (dot_notMem_safeName b) h
  have := congrArg unsafeName hab
  rw [unsafeName_safeName, unsafeName_safeName] at this
  exact ⟨Option.some.inj this, hxy⟩

theorem tablePath_inj (h : tablePath a = tablePath b) : a = b :=
  (fileName_inj (congrArg Path.file h)).1

theorem metadataPath_inj (h : metadataPath a = metadataPath b) : a = b :=
  (fileName_inj (congrArg Path.file h)).1

theorem sessionPath_inj (h : sessionPath a = sessionPath b) : a = b :=
  (fileName_inj (congrArg Path.file h)).1

theorem tablePath_ne_metadataPath (a b : Name) : tablePath a ≠ metadataPath b := fun h =>
  absurd (fileName_inj (congrArg Path.file h)).2 (by decide)

/-- The paths that `find` and `read` look at. -/
inductive Published : Path → Prop
  | table (name : Name) : Published (tablePath name)
  | metadata (name : Name) : Published (metadataPath name)
  | session (name : Name) : Published (sessionPath name)

/-- **Nobody looks at a temporary path.** -/
theorem temporaryPath_ne {p q : Path} (hp : Published p) (hq : Published q) :
    q ≠ temporaryPath p := by
  intro h
  have hfile := congrArg Path.file h
  cases hp <;> cases hq <;>
    exact absurd (fileName_inj (hfile.trans (append_assoc ..))).2 (by decide)

/-! ## 5. What is found is listed -/

section Find

variable {S B : Type} {ipc : Ipc S B} {s : Catalog S B}
variable {t : CatalogTable S}

theorem findPersistent_name {fault : Fault} {files : Files Path (Content S B)} {name : Name}
    (h : findPersistent ipc fault files name = some t) :
    (files.lookup (metadataPath name)).isSome = true ∧ ∃ schema batches,
      files.lookup (tablePath name) = some (.table schema batches) ∧
        t = persistentTable ipc name schema batches := by
  unfold findPersistent at h
  split at h
  · cases h
  · rename_i hmeta
    split at h
    · cases h
    · split at h
      · rename_i schema batches hdata
        split at h
        · cases h
        · refine ⟨?_, schema, batches, hdata, (Option.some.inj h).symm⟩
          simp only [Bool.or_eq_true, not_or, Bool.not_eq_true, Option.isNone_eq_false_iff] at hmeta
          exact hmeta.2
      · cases h

theorem find_name {fault : Fault} {name : Name} (h : findUnder ipc fault s name = some t) :
    t.name = name := by
  unfold findUnder at h
  split at h
  · rename_i t' hfound
    obtain rfl := Option.some.inj h
    simpa using List.find?_some hfound
  · obtain ⟨-, schema, batches, -, rfl⟩ := findPersistent_name h
    rfl

theorem find_session (hnd : (s.sessionTables.map (·.name)).Nodup) (ht : t ∈ s.sessionTables)
    (fault : Fault) : findUnder ipc fault s t.name = some t := by
  obtain ⟨t', hfound⟩ : ∃ t', s.sessionTables.find? (fun u => decide (u.name = t.name)) =
      some t' := Option.isSome_iff_exists.mp (List.find?_isSome.mpr ⟨t, ht, by simp⟩)
  have hname : t'.name = t.name := by simpa using List.find?_some hfound
  obtain rfl := inj_on_of_nodup_map hnd (List.mem_of_find?_eq_some hfound) ht hname
  rw [findUnder, hfound]

theorem listed_of_find {name : Name} (h : find ipc s name = some t) :
    t ∈ s.sessionTables ∨ name ∈ s.files.filterMap fun x => metadataName x.1 := by
  unfold find findUnder at h
  split at h
  · rename_i t' hfound
    obtain rfl := Option.some.inj h
    exact .inl (List.mem_of_find?_eq_some hfound)
  · obtain ⟨hmeta, -⟩ := findPersistent_name h
    obtain ⟨content, hcontent⟩ := Option.isSome_iff_exists.mp hmeta
    refine .inr (mem_filterMap.mpr ⟨_, mem_of_lookup hcontent, ?_⟩)
    have hlength : (metadataPath name).file.length - 5 = (safeName name).length := by
      simp [metadataPath]
    rw [metadataName, if_pos ⟨rfl, suffix_append ..⟩, hlength]
    show unsafeName ((safeName name ++ _).take _) = _
    rw [take_left, unsafeName_safeName]

/-- **`tables` lists what `find` finds**, once each. -/
theorem tables_agree (hnd : (s.sessionTables.map (·.name)).Nodup) :
    ((tables ipc s).map (·.name)).Nodup ∧
      ∀ t, t ∈ tables ipc s ↔ find ipc s t.name = some t := by
  -- the loop keeps a list of distinct tables that are found, and misses none of its names
  have hloop : ∀ (names : List Name) (result : List (CatalogTable S)),
      (result.map (·.name)).Nodup → (∀ t ∈ result, find ipc s t.name = some t) →
      let after := names.foldl (fun result name =>
        if result.any fun t => decide (t.name = name) then result
        else
          match find ipc s name with
          | some t => result ++ [t]
          | none => result) result
      (after.map (·.name)).Nodup ∧ (∀ t ∈ after, find ipc s t.name = some t) ∧
        (∀ t ∈ result, t ∈ after) ∧
        ∀ name ∈ names, ∀ t, find ipc s name = some t → t ∈ after := by
    intro names
    induction names with
    | nil => exact fun result hnd hfound => ⟨hnd, hfound, fun _ => id, by simp⟩
    | cons name names ih =>
      intro result hnd hfound
      rw [foldl_cons]
      by_cases hany : (result.any fun t => decide (t.name = name)) = true
      · rw [if_pos hany]
        obtain ⟨hnd', hfound', hkeep, hnames⟩ := ih result hnd hfound
        refine ⟨hnd', hfound', hkeep, fun n hn t ht => ?_⟩
        rcases mem_cons.mp hn with rfl | hn
        · obtain ⟨t', ht', hn'⟩ := any_eq_true.mp hany
          have hsame := hfound t' ht'
          rw [of_decide_eq_true hn', ht] at hsame
          exact hkeep t (Option.some.inj hsame ▸ ht')
        · exact hnames n hn t ht
      · rw [if_neg hany]
        cases hfind : find ipc s name with
        | none =>
          obtain ⟨hnd', hfound', hkeep, hnames⟩ := ih result hnd hfound
          refine ⟨hnd', hfound', hkeep, fun n hn t ht => ?_⟩
          rcases mem_cons.mp hn with rfl | hn
          · rw [hfind] at ht
            cases ht
          · exact hnames n hn t ht
        | some t =>
          have hname := find_name hfind
          have hnew : (result ++ [t]).map (·.name) = result.map (·.name) ++ [name] := by
            simp [hname]
          obtain ⟨hnd', hfound', hkeep, hnames⟩ := ih (result ++ [t])
            (by
              rw [hnew]
              refine List.nodup_append.mpr ⟨hnd, by simp, fun a ha b hb hab => hany ?_⟩
              obtain ⟨u, hu, rfl⟩ := mem_map.mp ha
              exact any_eq_true.mpr
                ⟨u, hu, decide_eq_true (hab.trans (mem_singleton.mp hb))⟩)
            (fun u hu => (mem_append.mp hu).elim (hfound u) fun hu => by
              rw [mem_singleton.mp hu, hname]
              exact hfind)
          refine ⟨hnd', hfound', fun u hu => hkeep u (mem_append_left _ hu),
            fun n hn u hu => ?_⟩
          rcases mem_cons.mp hn with rfl | hn
          · obtain rfl := Option.some.inj (hfind.symm.trans hu)
            exact hkeep t (mem_append_right _ (mem_singleton.mpr rfl))
          · exact hnames n hn u hu
  obtain ⟨hnd', hfound, hkeep, hnames⟩ := hloop
    (s.files.filterMap fun x => metadataName x.1) s.sessionTables hnd
    fun t ht => find_session hnd ht none
  exact ⟨hnd', fun t => ⟨hfound t, fun ht =>
    (listed_of_find ht).elim (hkeep t) fun hn => hnames _ hn t ht⟩⟩

end Find

end MldpDriver.Query.TableCatalog

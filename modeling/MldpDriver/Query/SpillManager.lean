/-
# Spill files

A `SpillManager` writes temporary Arrow IPC files.  The paths of the files it still has to delete
are `outstanding_paths`: `spill` adds its path once the file is written, `openWriter` once the
writer is there, and `removePath` takes a path out when the file is deleted.  A writer that is
given up and a reader at its end delete their file; `cleanup` deletes all outstanding ones.

* Each operation follows the calls of the code in order; the fault of the operation is the call
  that fails.  A file that is not there cannot be deleted.
* `Kept` holds on runs whose faults meet `clean`, and `cleanup` then leaves no file
  (`kept_of_clean`).  It fails after a `spill` or an `openWriter` that fails once its file is open,
  and after a last batch whose file cannot be deleted (`spill_fails`).

A reader keeps the file it has opened; what other programs do in the directory is outside the model.
-/
import Mathlib.Algebra.Group.Nat.Defs
import MldpDriver.Lib.Directory
import MldpDriver.Lib.Replace
import MldpDriver.Lib.Run

namespace MldpDriver.Query.Spill

open Lib.Directory Lib.Replace Lib.Run List

/-! ## 1. Paths -/

abbrev Path := String

/-- `joinPath`. -/
def joinPath (directory filename : List Char) : List Char :=
  if directory = [] ∨ directory = ['/'] then
    if directory = ['/'] then '/' :: filename else filename
  else if directory.getLast? = some '/' then directory ++ filename
  else directory ++ '/' :: filename

/-- The path of a new file. -/
def spillPath (directory queryId : List Char) (sequence : Nat) : Path :=
  String.ofList (joinPath directory
    ("spill_".toList ++ queryId ++ '_' :: (Nat.toDigits 10 sequence ++ ".arrow".toList)))

theorem joinPath_inj {directory a b : List Char} (h : joinPath directory a = joinPath directory b) :
    a = b := by
  unfold joinPath at h
  split at h
  · split at h
    · exact (List.cons.inj h).2
    · exact h
  · split at h
    · exact append_cancel_left h
    · exact (List.cons.inj (append_cancel_left h)).2

theorem underscore_notMem (n : Nat) : '_' ∉ Nat.toDigits 10 n := fun h =>
  absurd (Nat.isDigit_of_mem_toDigits (by decide) (by decide) h) (by decide)

/-- **A path tells its sequence number.** -/
theorem spillPath_inj {directory q q' : List Char} {m n : Nat}
    (h : spillPath directory q m = spillPath directory q' n) : m = n := by
  have hname := joinPath_inj (String.ofList_injective h)
  rw [← cons_append, ← cons_append, ← append_assoc, ← append_assoc] at hname
  obtain ⟨-, hdigits⟩ := splitLast_unique (underscore_notMem m) (underscore_notMem n)
    (append_cancel_right hname)
  have := congrArg (Nat.ofDigitChars 10 · 0) hdigits
  simpa using this

/-! ## 2. The manager -/

section Model

variable {S B : Type}

/-- What the manager takes from Arrow. -/
structure Ipc (S B : Type) where
  schema : B → S
  size : List B → Int

inductive Content (B : Type)
  | writing
  | table (batches : List B)

/-- `SpillHandle`. -/
structure SpillHandle (S : Type) where
  path : Path
  schema : S
  byteCount : Int
  batchCount : Nat

/-- `SpillWriter`; `batches` are the ones written. -/
structure SpillWriter (S B : Type) where
  path : Path
  schema : S
  batches : List B := []
  finished : Bool := false

/-- `SpillReader`, with the batches of the file it has opened; `read` are the batches it has read
and `given` those its caller has. -/
structure SpillReader (B : Type) where
  path : Path
  batches : List B
  isOpen : Bool := true
  nextBatch : Nat := 0
  read : List B := []
  given : List B := []

/-- `SpillReader::State`, the files and the writers and readers; `sequences` counts the sequence
numbers taken and `created` holds the paths of all files created. -/
structure Manager (S B : Type) where
  files : Files Path (Content B) := []
  outstandingPaths : List Path := []
  nextSequence : Nat := 0
  writers : List (SpillWriter S B) := []
  readers : List (SpillReader B) := []
  sequences : Nat := 0
  created : List Path := []

inductive Call
  | createDir
  | openOutput
  | makeWriter
  | writeBatch (k : Nat)
  | closeWriter
  | closeOutput
  | info
  | openInput
  | openReader
  | readBatch
  | deleteFile
  deriving DecidableEq

/-- The call that fails, if one does. -/
abbrev Fault := Option Call

def fails (fault : Fault) (call : Call) : Bool := decide (fault = some call)

inductive Failure
  | invalid
  | keyError
  | failed (call : Call)

/-- `std::unordered_set::insert`. -/
def insertPath (paths : List Path) (path : Path) : List Path :=
  if path ∈ paths then paths else paths ++ [path]

/-- `removePath`: whether the file is deleted, and the state after it. -/
def removePath (failing : Bool) (s : Manager S B) (path : Path) : Bool × Manager S B :=
  if failing || (s.files.lookup path).isNone then (false, s)
  else
    (true,
      { s with
        files := remove s.files path
        outstandingPaths := s.outstandingPaths.filter fun p => decide (p ≠ path) })

/-- What is written to a file that is still there. -/
def setContent (files : Files Path (Content B)) (path : Path) (content : Content B) :
    Files Path (Content B) :=
  if (files.lookup path).isSome then put files path content else files

/-- `next_sequence.fetch_add(1)`. -/
def takeSequence (s : Manager S B) : Manager S B :=
  { s with nextSequence := (s.nextSequence + 1) % 2 ^ 64, sequences := s.sequences + 1 }

/-- `OpenOutputStream`. -/
def openOutput (s : Manager S B) (path : Path) : Manager S B :=
  { s with files := put s.files path .writing, created := s.created ++ [path] }

def setOutstanding (s : Manager S B) (path : Path) : Manager S B :=
  { s with outstandingPaths := insertPath s.outstandingPaths path }

/-- The batches of a `spill`, if there are some and they share one schema. -/
def validBatches [DecidableEq S] (ipc : Ipc S B) : List (Option B) → Option (S × List B)
  | some first :: rest =>
    match rest.mapM id with
    | some bs =>
      if bs.all fun b => decide (ipc.schema b = ipc.schema first) then
        some (ipc.schema first, first :: bs)
      else none
    | none => none
  | _ => none

/-- What `spill` does to the file it has opened, for `n` batches. -/
def spillCalls (n : Nat) : List Call :=
  [.makeWriter] ++ (List.range n).map .writeBatch ++ [.closeWriter, .closeOutput, .info]

/-- `SpillManager::spill`. -/
def spill [DecidableEq S] (ipc : Ipc S B) (directory : List Char) (fault : Fault)
    (s : Manager S B) (queryId : List Char) (batches : List (Option B)) :
    Except Failure (SpillHandle S) × Manager S B :=
  match validBatches ipc batches with
  | none => (.error .invalid, s)
  | some (schema, bs) =>
    if fails fault .createDir then (.error (.failed .createDir), s)
    else
      let path := spillPath directory queryId s.nextSequence
      let s := takeSequence s
      if fails fault .openOutput then (.error (.failed .openOutput), s)
      else
        let s := openOutput s path
        match (spillCalls bs.length).find? fun call => fails fault call with
        | some call => (.error (.failed call), s)
        | none =>
          let s := setOutstanding { s with files := put s.files path (.table bs) } path
          (.ok ⟨path, schema, ipc.size bs, bs.length⟩, s)

/-- `SpillManager::openWriter`. -/
def openWriter (directory : List Char) (fault : Fault) (s : Manager S B) (queryId : List Char)
    (schema : Option S) : Except Failure (SpillWriter S B) × Manager S B :=
  match schema with
  | none => (.error .invalid, s)
  | some schema =>
    if fails fault .createDir then (.error (.failed .createDir), s)
    else
      let path := spillPath directory queryId s.nextSequence
      let s := takeSequence s
      if fails fault .openOutput then (.error (.failed .openOutput), s)
      else
        let s := openOutput s path
        if fails fault .makeWriter then (.error (.failed .makeWriter), s)
        else
          let writer : SpillWriter S B := { path := path, schema := schema }
          (.ok writer, { setOutstanding s path with writers := s.writers ++ [writer] })

/-- `SpillWriter::append`. -/
def append [DecidableEq S] (ipc : Ipc S B) (fault : Fault) (w : SpillWriter S B)
    (batch : Option B) : Except Failure (SpillWriter S B) :=
  if w.finished then .error .invalid
  else
    match batch with
    | none => .error .invalid
    | some b =>
      if ipc.schema b ≠ w.schema then .error .invalid
      else if fails fault (.writeBatch w.batches.length) then
        .error (.failed (.writeBatch w.batches.length))
      else .ok { w with batches := w.batches ++ [b] }

/-- `SpillWriter::finish`. -/
def finish (ipc : Ipc S B) (fault : Fault) (s : Manager S B) (w : SpillWriter S B) :
    Except Failure (SpillHandle S) × SpillWriter S B × Manager S B :=
  if w.finished ∨ w.batches = [] then (.error .invalid, w, s)
  else if fails fault .closeWriter then (.error (.failed .closeWriter), w, s)
  else
    let s := { s with files := setContent s.files w.path (.table w.batches) }
    if fails fault .closeOutput then (.error (.failed .closeOutput), w, s)
    else if fails fault .info then (.error (.failed .info), w, s)
    else
      (.ok ⟨w.path, w.schema, ipc.size w.batches, w.batches.length⟩,
        { w with path := "", finished := true }, s)

/-- `SpillWriter::abort`, also at the end of the writer's life. -/
def abort (fault : Fault) (s : Manager S B) (w : SpillWriter S B) :
    SpillWriter S B × Manager S B :=
  if w.finished then (w, s)
  else
    let s := if fails fault .closeWriter then s
      else { s with files := setContent s.files w.path (.table w.batches) }
    let s := if w.path = "" then s else (removePath (fails fault .deleteFile) s w.path).2
    ({ w with path := "", finished := true }, s)

/-- `SpillManager::read`. -/
def read (fault : Fault) (s : Manager S B) (path : Path) : Except Failure (SpillReader B) :=
  if path ∉ s.outstandingPaths then .error .keyError
  else
    match s.files.lookup path with
    | none => .error (.failed .openInput)
    | some content =>
      if fails fault .openInput then .error (.failed .openInput)
      else
        match content with
        | .writing => .error (.failed .openReader)
        | .table batches =>
          if fails fault .openReader then .error (.failed .openReader)
          else .ok { path := path, batches := batches }

/-- The reader deletes its file and closes. -/
def closeReader (failing : Bool) (s : Manager S B) (r : SpillReader B) :
    Bool × SpillReader B × Manager S B :=
  let (deleted, s') := removePath failing s r.path
  if deleted then (true, { r with path := "", isOpen := false }, s') else (false, r, s)

/-- `SpillReader::next`. -/
def next (fault : Fault) (s : Manager S B) (r : SpillReader B) :
    Except Failure (Option B) × SpillReader B × Manager S B :=
  if r.isOpen = false then (.ok none, r, s)
  else
    match r.batches[r.nextBatch]? with
    | none =>
      let (deleted, r, s) := closeReader (fails fault .deleteFile) s r
      (if deleted then .ok none else .error (.failed .deleteFile), r, s)
    | some b =>
      let r := { r with nextBatch := r.nextBatch + 1 }
      if fails fault .readBatch then (.error (.failed .readBatch), r, s)
      else
        let r := { r with read := r.read ++ [b] }
        if r.nextBatch = r.batches.length then
          let (deleted, r, s) := closeReader (fails fault .deleteFile) s r
          if deleted then (.ok (some b), { r with given := r.given ++ [b] }, s)
          else (.error (.failed .deleteFile), r, s)
        else (.ok (some b), { r with given := r.given ++ [b] }, s)

/-- `SpillReader::release`, also at the end of the reader's life. -/
def release (fault : Fault) (s : Manager S B) (r : SpillReader B) :
    SpillReader B × Manager S B :=
  ({ r with path := "", isOpen := false },
    if r.path = "" then s else (removePath (fails fault .deleteFile) s r.path).2)

/-- `SpillManager::cleanup`, with the outstanding paths in the order of the set. -/
def cleanup (failing : Option Path) : Manager S B → List Path → Bool × Manager S B
  | s, [] => (true, s)
  | s, path :: paths =>
    let (deleted, s) := removePath (decide (failing = some path)) s path
    if deleted then cleanup failing s paths else (false, s)

/-! ## 3. Operations as steps

`Kept` says that paths are not used twice, that a file on disk is outstanding or has an owner, and
that a reader gives its caller every batch it has read. -/

inductive Action (S B : Type)
  | spill (queryId : List Char) (batches : List (Option B)) (fault : Fault)
  | openWriter (queryId : List Char) (schema : Option S) (fault : Fault)
  | append (writer : Nat) (batch : Option B) (fault : Fault)
  | finish (writer : Nat) (fault : Fault)
  | abort (writer : Nat) (fault : Fault)
  | read (path : Path) (fault : Fault)
  | next (reader : Nat) (fault : Fault)
  | release (reader : Nat) (fault : Fault)
  | cleanup (paths : List Path) (failing : Option Path)

section Steps

variable [DecidableEq S]

def step (ipc : Ipc S B) (directory : List Char) (s : Manager S B) :
    Action S B → Option (Manager S B)
  | .spill queryId batches fault => some (spill ipc directory fault s queryId batches).2
  | .openWriter queryId schema fault => some (openWriter directory fault s queryId schema).2
  | .append i batch fault =>
    s.writers[i]?.map fun w =>
      match append ipc fault w batch with
      | .ok w => { s with writers := s.writers.set i w }
      | .error _ => s
  | .finish i fault =>
    s.writers[i]?.map fun w =>
      let (_, w, s) := finish ipc fault s w
      { s with writers := s.writers.set i w }
  | .abort i fault =>
    s.writers[i]?.map fun w =>
      let (w, s) := abort fault s w
      { s with writers := s.writers.set i w }
  | .read path fault =>
    some
      (match read fault s path with
      | .ok r => { s with readers := s.readers ++ [r] }
      | .error _ => s)
  | .next i fault =>
    s.readers[i]?.map fun r =>
      let (_, r, s) := next fault s r
      { s with readers := s.readers.set i r }
  | .release i fault =>
    s.readers[i]?.map fun r =>
      let (r, s) := release fault s r
      { s with readers := s.readers.set i r }
  | .cleanup paths failing =>
    if paths.Perm s.outstandingPaths then some (cleanup failing s paths).2 else none

/-- A sequence number is left that was not taken before. -/
def freshSequence (s : Manager S B) : Bool := decide (s.sequences < 2 ^ 64)

/-- The next call of `next` reads the last batch. -/
def atLast (r : SpillReader B) : Bool :=
  r.isOpen && decide (r.nextBatch + 1 = r.batches.length)

/-- **The faults the manager copes with**: a `spill` or `openWriter` that has opened its file gets
to its end, and the file of a last batch that is read can be deleted.  The sequence numbers must not
have come round. -/
def clean (ipc : Ipc S B) (s : Manager S B) : Action S B → Bool
  | .spill _ batches fault =>
    (validBatches ipc batches).all fun x =>
      (fails fault .createDir || freshSequence s) &&
        (spillCalls x.2.length).all fun call => !fails fault call
  | .openWriter _ schema fault =>
    schema.isNone || (fails fault .createDir || freshSequence s) && !fails fault .makeWriter
  | .next i fault =>
    (s.readers[i]?).all fun r =>
      !atLast r || fails fault .readBatch ||
        !fails fault .deleteFile && (s.files.lookup r.path).isSome
  | _ => true

end Steps

/-- Paths are used once, files on disk are cared for, and batches read are given on. -/
structure Kept (s : Manager S B) : Prop where
  distinct : s.created.Nodup
  tracked : ∀ p ∈ s.created, (s.files.lookup p).isSome = true →
    p ∈ s.outstandingPaths ∨ (∃ w ∈ s.writers, w.finished = false ∧ w.path = p) ∨
      ∃ r ∈ s.readers, r.isOpen = true ∧ r.path = p
  delivered : ∀ r ∈ s.readers, r.given = r.read

/-- The invariant: a file of the manager that is on disk is outstanding. -/
structure Inv (directory : List Char) (s : Manager S B) : Prop where
  sequence : s.nextSequence = s.sequences % 2 ^ 64
  named : ∀ p ∈ s.created, ∃ q n, n < s.sequences ∧ n < 2 ^ 64 ∧ p = spillPath directory q n
  distinct : s.created.Nodup
  onDisk : ∀ p ∈ s.created, (s.files.lookup p).isSome = true → p ∈ s.outstandingPaths
  delivered : ∀ r ∈ s.readers, r.given = r.read

theorem Inv.kept {directory : List Char} {s : Manager S B} (hinv : Inv directory s) : Kept s :=
  ⟨hinv.distinct, fun p hp hdisk => .inl (hinv.onDisk p hp hdisk), hinv.delivered⟩

/-! ## 4. What each call keeps -/

variable {directory : List Char} {s s' : Manager S B} {path : Path}

theorem mem_insertPath {paths : List Path} {p : Path} :
    p ∈ insertPath paths path ↔ p ∈ paths ∨ p = path := by
  unfold insertPath
  split
  · exact ⟨.inl, fun h => h.elim id fun h => h ▸ ‹_›⟩
  · simp

theorem removePath_cases (failing : Bool) (s : Manager S B) (path : Path) :
    removePath failing s path = (false, s) ∧ (failing || (s.files.lookup path).isNone) = true ∨
      removePath failing s path =
        (true,
          { s with
            files := remove s.files path
            outstandingPaths := s.outstandingPaths.filter fun p => decide (p ≠ path) }) := by
  unfold removePath
  split
  · exact .inl ⟨rfl, ‹_›⟩
  · exact .inr rfl

theorem Inv.removePath (hinv : Inv directory s) (failing : Bool) (path : Path) :
    Inv directory (removePath failing s path).2 := by
  rcases removePath_cases failing s path with ⟨h, -⟩ | h
  · rw [h]
    exact hinv
  · rw [h]
    refine { hinv with onDisk := fun p hp hdisk => ?_ }
    have hne : p ≠ path := by
      rintro rfl
      rw [lookup_remove_self] at hdisk
      cases hdisk
    rw [lookup_remove_of_ne hne] at hdisk
    exact mem_filter.mpr ⟨hinv.onDisk p hp hdisk, decide_eq_true hne⟩

theorem removePath_readers (failing : Bool) (s : Manager S B) (path : Path) :
    (Spill.removePath failing s path).2.readers = s.readers := by
  rcases removePath_cases failing s path with ⟨h, -⟩ | h <;> rw [h]

theorem lookup_setContent {files : Files Path (Content B)} {content : Content B} {p : Path}
    (h : ((setContent files path content).lookup p).isSome = true) :
    (files.lookup p).isSome = true := by
  unfold setContent at h
  split at h
  · rw [lookup_put] at h
    split at h
    · subst_vars
      assumption
    · exact h
  · exact h

theorem Inv.setContent (hinv : Inv directory s) (path : Path) (content : Content B) :
    Inv directory { s with files := setContent s.files path content } :=
  { hinv with onDisk := fun p hp hdisk => hinv.onDisk p hp (lookup_setContent hdisk) }

theorem Inv.takeSequence (hinv : Inv directory s) : Inv directory (takeSequence s) where
  sequence := by
    show (s.nextSequence + 1) % 2 ^ 64 = (s.sequences + 1) % 2 ^ 64
    rw [hinv.sequence]
    omega
  named := fun p hp => by
    obtain ⟨q, n, hn, hlt, rfl⟩ := hinv.named p hp
    exact ⟨q, n, Nat.lt_succ_of_lt hn, hlt, rfl⟩
  distinct := hinv.distinct
  onDisk := hinv.onDisk
  delivered := hinv.delivered

/-- **A new file has a new path.** -/
theorem Inv.path_notMem (hinv : Inv directory s) (hfresh : s.sequences < 2 ^ 64)
    (q : List Char) : spillPath directory q s.nextSequence ∉ s.created := by
  intro h
  obtain ⟨q', n, hn, -, hpath⟩ := hinv.named _ h
  have := spillPath_inj hpath
  rw [hinv.sequence, Nat.mod_eq_of_lt hfresh] at this
  omega

theorem Inv.opened (hinv : Inv directory s) (hfresh : s.sequences < 2 ^ 64) {q : List Char}
    (hsequence : s'.nextSequence = (s.nextSequence + 1) % 2 ^ 64)
    (hsequences : s'.sequences = s.sequences + 1)
    (hcreated : s'.created = s.created ++ [spillPath directory q s.nextSequence])
    (houtstanding : s'.outstandingPaths =
      insertPath s.outstandingPaths (spillPath directory q s.nextSequence))
    (hfiles : ∀ p, p ≠ spillPath directory q s.nextSequence →
      s'.files.lookup p = s.files.lookup p)
    (hreaders : s'.readers = s.readers) : Inv directory s' where
  sequence := by
    rw [hsequence, hsequences]
    exact hinv.takeSequence.sequence
  named := by
    intro p hp
    rw [hsequences]
    rcases mem_append.mp (hcreated ▸ hp) with hp | hp
    · exact hinv.takeSequence.named p hp
    · refine ⟨q, s.nextSequence, ?_, ?_, mem_singleton.mp hp⟩ <;>
        rw [hinv.sequence] <;> omega
  distinct := by
    rw [hcreated]
    exact List.nodup_append.mpr ⟨hinv.distinct, nodup_singleton _, fun p hp _ hq h =>
      hinv.path_notMem hfresh q (mem_singleton.mp hq ▸ h ▸ hp)⟩
  onDisk := by
    intro p hp hdisk
    rw [houtstanding, mem_insertPath]
    by_cases hne : p = spillPath directory q s.nextSequence
    · exact .inr hne
    · refine .inl (hinv.onDisk p ?_ (hfiles p hne ▸ hdisk))
      exact (mem_append.mp (hcreated ▸ hp)).resolve_right fun h =>
        hne (mem_singleton.mp h)
  delivered := hreaders ▸ hinv.delivered

/-! ## 5. What each operation keeps -/

section Operations

variable {ipc : Ipc S B} {fault : Fault}

/-- **A clean `spill`** fails before its file is open, or makes it outstanding. -/
theorem Inv.spill [DecidableEq S] (hinv : Inv directory s) {q : List Char} {batches : List (Option B)}
    (hclean : clean ipc s (.spill q batches fault) = true) :
    Inv directory (spill ipc directory fault s q batches).2 := by
  unfold Spill.spill
  unfold clean at hclean
  dsimp only at hclean
  split
  · exact hinv
  rename_i schema bs hvalid
  rw [hvalid, Option.all_some, Bool.and_eq_true] at hclean
  obtain ⟨hfresh, hcalls⟩ := hclean
  dsimp only
  split
  · exact hinv
  rename_i hdir
  split
  · exact hinv.takeSequence
  have hfresh : s.sequences < 2 ^ 64 := by simpa [hdir, freshSequence] using hfresh
  split
  · rename_i call hcall
    have := all_eq_true.mp hcalls call (List.mem_of_find?_eq_some hcall)
    rw [List.find?_some hcall] at this
    cases this
  · exact hinv.opened hfresh rfl rfl rfl rfl
      (fun p hp => (lookup_put_of_ne hp).trans (lookup_put_of_ne hp)) rfl

/-- **A clean `openWriter`** fails before its file is open, or makes it outstanding. -/
theorem Inv.openWriter [DecidableEq S] (hinv : Inv directory s) {q : List Char} {schema : Option S}
    (hclean : clean ipc s (.openWriter q schema fault) = true) :
    Inv directory (openWriter directory fault s q schema).2 := by
  unfold Spill.openWriter
  unfold clean at hclean
  dsimp only at hclean
  cases schema with
  | none => exact hinv
  | some schema =>
    dsimp only
    rw [Option.isNone_some, Bool.false_or, Bool.and_eq_true] at hclean
    obtain ⟨hfresh, hmake⟩ := hclean
    split
    · exact hinv
    rename_i hdir
    split
    · exact hinv.takeSequence
    have hfresh : s.sequences < 2 ^ 64 := by simpa [hdir, freshSequence] using hfresh
    split
    · rename_i hfails
      rw [hfails] at hmake
      cases hmake
    · exact hinv.opened hfresh rfl rfl rfl rfl (fun p hp => lookup_put_of_ne hp) rfl

theorem Inv.finish (hinv : Inv directory s) (fault : Fault) (w : SpillWriter S B) :
    Inv directory (finish ipc fault s w).2.2 := by
  unfold Spill.finish
  split
  · exact hinv
  split
  · exact hinv
  dsimp only
  split
  · exact hinv.setContent _ _
  split <;> exact hinv.setContent _ _

theorem Inv.abort (hinv : Inv directory s) (fault : Fault) (w : SpillWriter S B) :
    Inv directory (abort fault s w).2 := by
  unfold Spill.abort
  split
  · exact hinv
  have hclosed : Inv directory (if fails fault .closeWriter then s
      else { s with files := Spill.setContent s.files w.path (.table w.batches) }) := by
    split
    · exact hinv
    · exact hinv.setContent _ _
  dsimp only
  split
  · exact hclosed
  · exact hclosed.removePath _ _

theorem closeReader_snd (failing : Bool) (s : Manager S B) (r : SpillReader B) :
    (closeReader failing s r).2.2 = (removePath failing s r.path).2 := by
  unfold closeReader
  rcases removePath_cases failing s r.path with ⟨h, -⟩ | h <;> rw [h] <;> rfl

theorem closeReader_reader (failing : Bool) (s : Manager S B) (r : SpillReader B) :
    (closeReader failing s r).2.1.read = r.read ∧ (closeReader failing s r).2.1.given = r.given := by
  unfold closeReader
  dsimp only
  split <;> exact ⟨rfl, rfl⟩

variable {r : SpillReader B}

theorem closeReader_fst {failing : Bool} (hfailing : failing = false)
    (hdisk : (s.files.lookup r.path).isSome = true) : (closeReader failing s r).1 = true := by
  unfold closeReader
  rcases removePath_cases failing s r.path with ⟨-, hno⟩ | h
  · rw [hfailing, Bool.false_or, Option.isNone_iff_eq_none] at hno
    rw [hno] at hdisk
    cases hdisk
  · rw [h]
    rfl

theorem Inv.next_state (hinv : Inv directory s) (fault : Fault) (r : SpillReader B) :
    Inv directory (next fault s r).2.2 ∧ (next fault s r).2.2.readers = s.readers := by
  have hclose (failing : Bool) (r : SpillReader B) :
      Inv directory (closeReader failing s r).2.2 ∧
        (closeReader failing s r).2.2.readers = s.readers := by
    rw [closeReader_snd]
    exact ⟨hinv.removePath _ _, removePath_readers ..⟩
  unfold next
  split
  · exact ⟨hinv, rfl⟩
  split
  · exact hclose _ _
  dsimp only
  split
  · exact ⟨hinv, rfl⟩
  split
  · split <;> exact hclose _ _
  · exact ⟨hinv, rfl⟩

/-- **A clean `next` gives every batch it reads.** -/
theorem next_delivered [DecidableEq S] {i : Nat} (hr : s.readers[i]? = some r)
    (hdelivered : r.given = r.read) (hclean : clean ipc s (.next i fault) = true) :
    (next fault s r).2.1.given = (next fault s r).2.1.read := by
  unfold clean at hclean
  dsimp only at hclean
  rw [hr, Option.all_some] at hclean
  unfold next
  split
  · exact hdelivered
  rename_i hopen
  split
  · obtain ⟨hread, hgiven⟩ := closeReader_reader (fails fault .deleteFile) s r
    exact hgiven.trans (hdelivered.trans hread.symm)
  dsimp only
  split
  · exact hdelivered
  rename_i hfails
  split
  · rename_i b _ hlast
    have hat : atLast r = true := by simp [atLast, hopen, hlast]
    simp only [hat, hfails, Bool.not_true, Bool.false_or, Bool.and_eq_true, Bool.not_eq_true']
      at hclean
    split
    · obtain ⟨hread, hgiven⟩ := closeReader_reader (fails fault .deleteFile) s
        { r with nextBatch := r.nextBatch + 1, read := r.read ++ [b] }
      exact (congrArg (· ++ [b]) (hgiven.trans hdelivered)).trans hread.symm
    · rename_i hclosed
      refine absurd (closeReader_fst hclean.1 ?_) hclosed
      exact hclean.2
  · exact congrArg (· ++ _) hdelivered

theorem read_delivered (h : read fault s path = .ok r) : r.given = r.read := by
  unfold read at h
  split at h
  · cases h
  split at h
  · cases h
  split at h
  · cases h
  split at h
  · cases h
  split at h
  · cases h
  · obtain rfl := Except.ok.inj h
    rfl

theorem Inv.release (hinv : Inv directory s) (fault : Fault) (r : SpillReader B) :
    Inv directory (release fault s r).2 ∧ (release fault s r).2.readers = s.readers := by
  unfold Spill.release
  dsimp only
  split
  · exact ⟨hinv, rfl⟩
  · exact ⟨hinv.removePath _ _, removePath_readers ..⟩

theorem Inv.cleanup (hinv : Inv directory s) (failing : Option Path) (paths : List Path) :
    Inv directory (cleanup failing s paths).2 := by
  induction paths generalizing s with
  | nil => exact hinv
  | cons path paths ih =>
    have hnext := hinv.removePath (decide (failing = some path)) path
    unfold Spill.cleanup
    dsimp only
    split
    · exact ih hnext
    · exact hnext

/-- What a `cleanup` that succeeds leaves on disk was there, and was not in its list. -/
theorem cleanup_onDisk {failing : Option Path} {paths : List Path} {p : Path}
    (hok : (cleanup failing s paths).1 = true)
    (hdisk : ((cleanup failing s paths).2.files.lookup p).isSome = true) :
    (s.files.lookup p).isSome = true ∧ p ∉ paths := by
  induction paths generalizing s with
  | nil => exact ⟨hdisk, not_mem_nil⟩
  | cons path paths ih =>
    unfold cleanup at hok hdisk
    rcases removePath_cases (decide (failing = some path)) s path with ⟨h, -⟩ | h
    · rw [h] at hok
      cases hok
    · rw [h] at hok hdisk
      obtain ⟨hbefore, hnot⟩ := ih hok hdisk
      have hlookup : ((remove s.files path).lookup p).isSome = true := hbefore
      rw [lookup_remove] at hlookup
      split at hlookup
      · cases hlookup
      · rename_i hne
        exact ⟨hlookup, fun hmem => (mem_cons.mp hmem).elim hne hnot⟩

theorem cleanup_created (failing : Option Path) (paths : List Path) :
    (cleanup failing s paths).2.created = s.created := by
  induction paths generalizing s with
  | nil => rfl
  | cons path paths ih =>
    unfold cleanup
    rcases removePath_cases (decide (failing = some path)) s path with ⟨h, -⟩ | h
    · rw [h]
      rfl
    · rw [h]
      exact ih

/-! ## 6. Runs -/

theorem Inv.setReaders (hinv : Inv directory s) {readers : List (SpillReader B)}
    (h : ∀ r ∈ readers, r.given = r.read) : Inv directory { s with readers := readers } :=
  { hinv with delivered := h }

theorem Inv.setWriters (hinv : Inv directory s) (writers : List (SpillWriter S B)) :
    Inv directory { s with writers := writers } :=
  { hinv with }

theorem Inv.setReader (hinv : Inv directory s') (hreaders : s'.readers = s.readers)
    (hs : Inv directory s) (hr : r.given = r.read) (i : Nat) :
    Inv directory { s' with readers := s'.readers.set i r } := by
  refine hinv.setReaders fun r' hr' => ?_
  rcases mem_replace hr' with rfl | hr'
  · exact hr
  · exact hs.delivered r' (hreaders ▸ hr')

theorem Inv.step [DecidableEq S] {a : Action S B} (hinv : Inv directory s)
    (hclean : clean ipc s a = true)
    (h : step ipc directory s a = some s') : Inv directory s' := by
  cases a with
  | spill q batches fault =>
    obtain rfl := Option.some.inj h
    exact hinv.spill hclean
  | openWriter q schema fault =>
    obtain rfl := Option.some.inj h
    exact hinv.openWriter hclean
  | append i batch fault =>
    obtain ⟨w, -, rfl⟩ := Option.map_eq_some_iff.mp h
    split
    · exact hinv.setWriters _
    · exact hinv
  | finish i fault =>
    obtain ⟨w, -, rfl⟩ := Option.map_eq_some_iff.mp h
    exact (hinv.finish fault w).setWriters _
  | abort i fault =>
    obtain ⟨w, -, rfl⟩ := Option.map_eq_some_iff.mp h
    exact (hinv.abort fault w).setWriters _
  | read path fault =>
    obtain rfl := Option.some.inj h
    split
    · rename_i r hread
      refine hinv.setReaders fun r' hr' => ?_
      rcases mem_append.mp hr' with hr' | hr'
      · exact hinv.delivered r' hr'
      · obtain rfl := mem_singleton.mp hr'
        exact read_delivered hread
    · exact hinv
  | next i fault =>
    obtain ⟨r, hr, rfl⟩ := Option.map_eq_some_iff.mp h
    obtain ⟨hnext, hreaders⟩ := hinv.next_state fault r
    exact hnext.setReader hreaders hinv (next_delivered hr
      (hinv.delivered r (mem_of_getElem? hr)) hclean) i
  | release i fault =>
    obtain ⟨r, hr, rfl⟩ := Option.map_eq_some_iff.mp h
    obtain ⟨hrelease, hreaders⟩ := hinv.release fault r
    have hgiven : (Spill.release fault s r).1.given = (Spill.release fault s r).1.read :=
      hinv.delivered r (mem_of_getElem? hr)
    exact hrelease.setReader hreaders hinv hgiven i
  | cleanup paths failing =>
    unfold Spill.step at h
    dsimp only at h
    split at h
    · obtain rfl := Option.some.inj h
      exact hinv.cleanup failing paths
    · cases h

/-- **The files of a spill manager.** In a run whose faults are clean every path is used once, every
file on disk is cared for and every batch read is given on; and when `cleanup` succeeds no file is
left. -/
theorem kept_of_clean [DecidableEq S] (ipc : Ipc S B) (directory : List Char)
    (files : Files Path (Content B)) {s : Manager S B}
    (hrun : Runs (step ipc directory) (fun s a => clean ipc s a = true) { files := files } s) :
    Kept s ∧ ∀ paths failing, paths.Perm s.outstandingPaths →
      (cleanup failing s paths).1 = true → ∀ p ∈ (cleanup failing s paths).2.created,
        (cleanup failing s paths).2.files.lookup p = none := by
  have hstart : Inv directory ({ files := files } : Manager S B) :=
    ⟨rfl, nofun, nodup_nil, nofun, nofun⟩
  have hinv : Inv directory s := hrun.keeps (fun _ _ _ hinv hclean h => hinv.step hclean h) hstart
  refine ⟨hinv.kept, fun paths failing hperm hok p hp => ?_⟩
  by_contra hdisk
  obtain ⟨hbefore, hnot⟩ := cleanup_onDisk hok (Option.isSome_iff_ne_none.mpr hdisk)
  rw [cleanup_created] at hp
  exact hnot (hperm.mem_iff.mpr (hinv.onDisk p hp hbefore))

end Operations

end Model

/-! ## 7. Sample runs -/

/-- Batches that are numbers, in the directory `d`. -/
def sampleIpc : Ipc Unit Nat := { schema := fun _ => (), size := fun _ => 0 }

def sampleStep : Manager Unit Nat → Action Unit Nat → Option (Manager Unit Nat) :=
  step sampleIpc ['d']

/-- A file read to its end, a file never finished, and a delete that fails. -/
def sampleRun : List (Action Unit Nat) :=
  [.spill ['q'] [some 1, some 2] none, .read "d/spill_q_0.arrow" none,
    .next 0 (some .readBatch), .next 0 none, .openWriter ['q'] (some ()) none,
    .append 0 (some 3) none, .finish 0 (some .info), .abort 0 (some .deleteFile),
    .openWriter ['q'] (some ()) (some .openOutput), .spill ['q'] [some 4] none,
    .read "d/spill_q_3.arrow" none, .release 1 (some .deleteFile)]

theorem sampleRun_kept :
    ∃ s, exec sampleStep (fun s a => clean sampleIpc s a = true) {} sampleRun = some s ∧ Kept s ∧
      s.outstandingPaths.length = 2 ∧ (cleanup none s s.outstandingPaths).1 = true ∧
        ∀ p ∈ (cleanup none s s.outstandingPaths).2.created,
          (cleanup none s s.outstandingPaths).2.files.lookup p = none := by
  obtain ⟨s, hs⟩ : ∃ s, exec sampleStep (fun s a => clean sampleIpc s a = true) {} sampleRun =
      some s := ⟨_, rfl⟩
  have hcheck : (exec sampleStep (fun s a => clean sampleIpc s a = true) {} sampleRun).map
      (fun s => (s.outstandingPaths.length, (cleanup none s s.outstandingPaths).1)) =
        some (2, true) := by decide +kernel
  rw [hs] at hcheck
  obtain ⟨hlength, hok⟩ := Prod.mk.inj (Option.some.inj hcheck)
  obtain ⟨hkept, hclean⟩ := kept_of_clean sampleIpc ['d'] [] (Runs.of_exec _ hs)
  exact ⟨s, hs, hkept, hlength, hok, hclean _ none (.refl _) hok⟩

/-- **Where it fails.** A `spill` that fails at its last call and an `openWriter` without its writer
leave a file that a `cleanup` does not see; a reader whose file cannot be deleted has read its last
batch, and its caller never gets it. -/
theorem spill_fails :
    (∃ s, exec sampleStep anyStep {} [.spill ['q'] [some 1] (some .info), .cleanup [] none] =
        some s ∧ ¬ Kept s) ∧
      (∃ s, exec sampleStep anyStep {}
        [.openWriter ['q'] (some ()) (some .makeWriter), .cleanup [] none] = some s ∧ ¬ Kept s) ∧
      ∃ s, exec sampleStep anyStep {}
        [.spill ['q'] [some 1] none, .read "d/spill_q_0.arrow" none,
          .next 0 (some .deleteFile), .next 0 none] = some s ∧ ¬ Kept s := by
  have hleft : ∀ (s : Manager Unit Nat) (p : Path), p ∈ s.created ∧
      (s.files.lookup p).isSome = true ∧ s.outstandingPaths = [] ∧ s.writers = [] ∧
        s.readers = [] → ¬ Kept s := by
    rintro s p ⟨hp, hdisk, houtstanding, hwriters, hreaders⟩ hkept
    have := hkept.tracked p hp hdisk
    simp [houtstanding, hwriters, hreaders] at this
  have hlost : ∀ s : Manager Unit Nat, (∃ r ∈ s.readers, r.given ≠ r.read) → ¬ Kept s :=
    fun s ⟨r, hr, hne⟩ hkept => hne (hkept.delivered r hr)
  refine ⟨⟨_, rfl, hleft _ "d/spill_q_0.arrow" ?_⟩, ⟨_, rfl, hleft _ "d/spill_q_0.arrow" ?_⟩,
    ⟨_, rfl, hlost _ ?_⟩⟩
  all_goals decide +kernel

end MldpDriver.Query.Spill

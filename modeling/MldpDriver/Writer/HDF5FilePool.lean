/-
# The pool of HDF5 files

`HDF5FilePool` keeps one file open for each source.  A file is written under a hidden name and gets
its visible name when it is closed, by a rotation or at the end.  Both names are made of the source,
sanitised, and of the clock, in seconds; the file is opened with truncation, and a rename replaces
what is there.

Names are relative to the base path.  The thresholds decide only whether a file is due.
-/
import Mathlib.Algebra.Group.Int.Defs
import Mathlib.Algebra.Group.Nat.Defs
import Mathlib.Data.List.Nodup
import MldpDriver.Lib.Directory
import MldpDriver.Lib.Run

namespace MldpDriver.Writer.FilePool

open Lib.Directory Lib.Run List

/-! ## 1. Names -/

/-- `std::isalnum` in the C locale. -/
def isalnum (c : Char) : Bool := c.isAlphanum

/-- `safeName`; a character of several bytes becomes as many underscores. -/
def safeName (source : String) : String :=
  String.ofList (source.toList.flatMap fun c =>
    if !isalnum c && c != '.' && c != '-' then List.replicate c.utf8Size '_' else [c])

/-- Year, month and day of a day counted from 1970-01-01. -/
def civil (days : Int) : Int × Int × Int :=
  let z := days + 719468
  let era := z / 146097
  let doe := z % 146097
  let yoe := (doe - doe / 1460 + doe / 36524 - doe / 146096) / 365
  let doy := doe - (365 * yoe + yoe / 4 - yoe / 100)
  let mp := (5 * doy + 2) / 153
  let month := if mp < 10 then mp + 3 else mp - 9
  (yoe + era * 400 + (if month ≤ 2 then 1 else 0), month, doy - (153 * mp + 2) / 5 + 1)

/-- Decimal digits, padded with zeros. -/
def digits (width : Nat) (n : Int) : String :=
  let text := toString n
  String.ofList (List.replicate (width - text.length) '0') ++ text

/-- `nowUtcFileSuffix` at a clock reading in seconds. -/
def utcFileSuffix (now : Int) : String :=
  let (year, month, day) := civil (now / 86400)
  digits 4 year ++ digits 2 month ++ digits 2 day ++ "T" ++ digits 2 (now % 86400 / 3600) ++
    digits 2 (now % 3600 / 60) ++ digits 2 (now % 60) ++ "Z"

/-- What the two names of a file share. -/
def stem (source : String) (now : Int) : String := safeName source ++ "_" ++ utcFileSuffix now

/-- `tempFilePath`. -/
def tempFilePath (stem : String) : String := "." ++ stem ++ ".hdf5"

/-- `finalFilePath`. -/
def finalFilePath (stem : String) : String := stem ++ ".hdf5"

/-! ## 2. The pool

`step` is `acquire` and a turn of `closeAll`, for any clock and any failures of the library. -/

/-- `FileEntry`; `content` tells the files apart that were opened. -/
structure FileEntry where
  path : String
  finalPath : String
  content : Nat

/-- The pool and the directory; `finished` are the files that were closed, each with its path then,
`opened` the stems of all files that were opened. -/
structure State where
  entries : List (String × FileEntry) := []
  directory : Files String Nat := []
  finished : List (String × Nat) := []
  opened : List String := []

/-- How closing goes: `close()` throws, the rename fails, the rename succeeds. -/
inductive CloseOutcome
  | threw
  | kept
  | renamed

/-- `file.close()` and `finalizeClosedFile`. -/
def closeFile (s : State) (e : FileEntry) : CloseOutcome → State
  | .threw => s
  | .kept => { s with finished := s.finished ++ [(e.path, e.content)] }
  | .renamed =>
    { s with
      directory := move s.directory e.path e.finalPath
      finished := s.finished ++ [(e.finalPath, e.content)] }

/-- `entries_.erase`. -/
def eraseEntry (s : State) (source : String) : State :=
  { s with entries := s.entries.filter fun x => decide (x.1 ≠ source) }

/-- `openFile`, and the new entry; nothing when the library throws. -/
def openFile (s : State) (source : String) (now : Int) (opens : Bool) : State :=
  if opens then
    let st := stem source now
    { s with
      entries := (source, ⟨tempFilePath st, finalFilePath st, s.opened.length⟩) :: s.entries
      directory := put s.directory (tempFilePath st) s.opened.length
      opened := s.opened ++ [st] }
  else s

/-- `acquire`, with what `needsRotation` says, how the old file is closed and whether the new one
is opened; a turn of the loop of `closeAll`. -/
inductive Action
  | acquire (source : String) (now : Int) (due : Bool) (closing : CloseOutcome) (opens : Bool)
  | close (source : String) (closing : CloseOutcome)

/-- One operation on the pool. -/
def step (s : State) : Action → Option State
  | .acquire source now due closing opens =>
    match s.entries.lookup source with
    | some e =>
      if due then some (openFile (eraseEntry (closeFile s e closing) source) source now opens)
      else some s
    | none => some (openFile s source now opens)
  | .close source closing =>
    (s.entries.lookup source).map fun e => eraseEntry (closeFile s e closing) source

/-! ## 3. What the pool is for

`Kept` says that open files have names of their own and that a finished file stays as it is. -/

/-- **Open files have names of their own, and finished files stay.** A finished file stays as long
as its name leads to it, so one that another file has replaced does not. -/
structure Kept (s : State) : Prop where
  apart : ∀ x ∈ s.entries, ∀ y ∈ s.entries, x.1 ≠ y.1 → x.2.path ≠ y.2.path
  stays : ∀ x ∈ s.finished, s.directory.lookup x.1 = some x.2

/-! ## 4. The condition -/

/-- The names made of one stem are not among those made of the other. -/
def Apart (a b : String) : Prop := a ≠ b ∧ a ≠ "." ++ b ∧ "." ++ a ≠ b

instance (a b : String) : Decidable (Apart a b) := inferInstanceAs (Decidable (_ ∧ _ ∧ _))

/-- A file is opened under a stem apart from those of all files before. -/
def fresh (s : State) : Action → Prop
  | .acquire source now due _ opens =>
    opens = true → ((s.entries.lookup source).isSome = true → due = true) →
      ∀ st ∈ s.opened, Apart (stem source now) st
  | .close _ _ => True

instance (s : State) (a : Action) : Decidable (fresh s a) :=
  match a with
  | .acquire _ _ _ _ _ => inferInstanceAs (Decidable (_ → _ → ∀ _ ∈ _, _))
  | .close _ _ => isTrue trivial

/-! ## 5. Paths -/

variable {a b : String}

theorem finalFilePath_inj (h : finalFilePath a = finalFilePath b) : a = b :=
  String.append_left_inj _ |>.mp h

theorem finalFilePath_ne_tempFilePath (h : a ≠ "." ++ b) :
    finalFilePath a ≠ tempFilePath b := fun he => h (String.append_left_inj _ |>.mp he)

theorem tempFilePath_inj (h : tempFilePath a = tempFilePath b) : a = b :=
  String.append_right_inj "." |>.mp (String.append_left_inj _ |>.mp h)

theorem Apart.symm (h : Apart a b) : Apart b a :=
  ⟨h.1.symm, h.2.2.symm, h.2.1.symm⟩

/-- The path is one of the two names of a stem. -/
def NameOf (st path : String) : Prop := path = tempFilePath st ∨ path = finalFilePath st

/-- **Stems that are apart share no name.** -/
theorem Apart.names_ne {a b p q : String} (h : Apart a b) (hp : NameOf a p) (hq : NameOf b q) :
    p ≠ q := by
  rintro rfl
  rcases hp with rfl | rfl
  · rcases hq with hq | hq
    · exact h.1 (tempFilePath_inj hq)
    · exact finalFilePath_ne_tempFilePath h.2.2.symm hq.symm
  · rcases hq with hq | hq
    · exact finalFilePath_ne_tempFilePath h.2.1 hq
    · exact h.1 (finalFilePath_inj hq)

/-! ## 6. The invariant

Names are compared by the stems they are made of (`stems`), so that a name in the directory tells
which file was opened under it. -/

/-- The invariant of runs with fresh stems: every file, open or finished, is at a name of its own
stem. -/
structure Inv (s : State) : Prop where
  keys : (s.entries.map (·.1)).Nodup
  entry : ∀ x ∈ s.entries, ∃ st, s.opened[x.2.content]? = some st ∧
    x.2.path = tempFilePath st ∧ x.2.finalPath = finalFilePath st ∧
    s.directory.lookup x.2.path = some x.2.content
  done : ∀ x ∈ s.finished, ∃ st, s.opened[x.2]? = some st ∧ NameOf st x.1 ∧
    s.directory.lookup x.1 = some x.2
  contents : (s.entries.map (·.2.content) ++ s.finished.map (·.2)).Nodup
  stems : ∀ (i j : Nat) (a b : String), s.opened[i]? = some a → s.opened[j]? = some b → i ≠ j →
    Apart a b

variable {s s' : State}

theorem inv_initial (directory : Files String Nat) : Inv { directory := directory } where
  keys := nodup_nil
  entry := by simp
  done := by simp
  contents := nodup_nil
  stems := by simp

variable {source : String}

theorem mem_erased {entries : List (String × FileEntry)} {x : String × FileEntry} :
    x ∈ entries.filter (fun y => decide (y.1 ≠ source)) ↔ x ∈ entries ∧ x.1 ≠ source := by
  simp

theorem Inv.contents_erased (h : Inv s) {e : FileEntry} (he : (source, e) ∈ s.entries) :
    (((s.entries.filter fun y => decide (y.1 ≠ source)).map (·.2.content) ++
      s.finished.map (·.2)) ++ [e.content]).Nodup := by
  obtain ⟨before, after, hsplit⟩ := append_of_mem he
  have hkeys := h.keys
  rw [hsplit, map_append, map_cons, nodup_middle, nodup_cons] at hkeys
  have hother : ∀ y ∈ before ++ after, y.1 ≠ source := fun y hy hys =>
    hkeys.1 (map_append ▸ mem_map.mpr ⟨y, hy, hys⟩)
  have hfilter : s.entries.filter (fun y => decide (y.1 ≠ source)) = before ++ after := by
    rw [hsplit, filter_append, filter_cons_of_neg (by simp), ← filter_append]
    exact filter_eq_self.mpr fun y hy => by simpa using hother y hy
  have hcontents := h.contents
  rw [hsplit] at hcontents
  rw [hfilter]
  refine (List.Perm.nodup_iff ?_).mp hcontents
  simp only [map_append, map_cons, append_assoc, cons_append]
  refine perm_middle.trans ?_
  simpa only [append_assoc] using (perm_append_singleton e.content
    (before.map (·.2.content) ++ (after.map (·.2.content) ++ s.finished.map (·.2)))).symm

/-! ## 7. Operations -/

theorem Inv.close (h : Inv s) {e : FileEntry} (he : (source, e) ∈ s.entries)
    (closing : CloseOutcome) : Inv (eraseEntry (closeFile s e closing) source) := by
  have hcontents := h.contents_erased he
  have hkeys : ((s.entries.filter fun y => decide (y.1 ≠ source)).map (·.1)).Nodup :=
    h.keys.sublist (filter_sublist.map _)
  obtain ⟨st, hst, hpath, hfinal, hat⟩ := h.entry _ he
  have hleft : ((s.entries.filter fun y => decide (y.1 ≠ source)).map (·.2.content) ++
      s.finished.map (·.2)).Nodup := (List.nodup_append.mp hcontents).1
  cases closing with
  | threw =>
    exact
      { h with
        keys := hkeys
        entry := fun x hx => h.entry x (mem_erased.mp hx).1
        contents := hleft }
  | kept =>
    exact
      { h with
        keys := hkeys
        entry := fun x hx => h.entry x (mem_erased.mp hx).1
        done := fun x hx => by
          rcases mem_append.mp hx with hx | hx
          · exact h.done x hx
          · rw [mem_singleton.mp hx]
            exact ⟨st, hst, .inl hpath, hat⟩
        contents := by
          show (_ ++ (s.finished ++ [(e.path, e.content)]).map (·.2)).Nodup
          rwa [map_append, ← append_assoc] }
  | renamed =>
    -- the two names of the file are not those of another
    have hothers : ∀ (c : Nat) (a p : String), s.opened[c]? = some a → NameOf a p →
        c ≠ e.content → (move s.directory e.path e.finalPath).lookup p = s.directory.lookup p := by
      intro c a p ha hp hc
      have hapart := h.stems c e.content a st ha hst hc
      exact lookup_move_of_ne (hapart.names_ne hp (.inl hpath)) (hapart.names_ne hp (.inr hfinal))
    have hnot : ∀ c, c ∈ (s.entries.filter fun y => decide (y.1 ≠ source)).map (·.2.content) ++
        s.finished.map (·.2) → c ≠ e.content := fun c hc he =>
      (List.nodup_append.mp hcontents).2.2 c hc _ (mem_singleton.mpr rfl) he
    exact
      { h with
        keys := hkeys
        entry := fun x hx => by
          obtain ⟨a, ha, hxpath, hxfinal, hxat⟩ := h.entry x (mem_erased.mp hx).1
          refine ⟨a, ha, hxpath, hxfinal, ?_⟩
          have hc := hnot _ (mem_append_left _ (mem_map_of_mem hx))
          exact (hothers _ a _ ha (.inl hxpath) hc).trans hxat
        done := fun x hx => by
          rcases mem_append.mp hx with hx | hx
          · obtain ⟨a, ha, hname, hxat⟩ := h.done x hx
            have hc := hnot _ (mem_append_right _ (mem_map_of_mem hx))
            exact ⟨a, ha, hname, (hothers _ a _ ha hname hc).trans hxat⟩
          · rw [mem_singleton.mp hx]
            exact ⟨st, hst, .inr hfinal, lookup_move_target hat⟩
        contents := by
          show (_ ++ (s.finished ++ [(e.finalPath, e.content)]).map (·.2)).Nodup
          rwa [map_append, ← append_assoc] }

theorem Inv.openFile (h : Inv s) {now : Int} {opens : Bool} (hnew : ∀ x ∈ s.entries, x.1 ≠ source)
    (hfresh : opens = true → ∀ st ∈ s.opened, Apart (stem source now) st) :
    Inv (FilePool.openFile s source now opens) := by
  unfold FilePool.openFile
  split
  · rename_i hopens
    have hfresh := hfresh hopens
    have hlast : (s.opened ++ [stem source now])[s.opened.length]? = some (stem source now) := by
      simp
    have hold : ∀ (c : Nat) (a : String), s.opened[c]? = some a →
        (s.opened ++ [stem source now])[c]? = some a := fun c a ha => by
      rw [List.getElem?_append_left (List.getElem?_eq_some_iff.mp ha).1]
      exact ha
    have hothers : ∀ (c : Nat) (a p : String), s.opened[c]? = some a → NameOf a p →
        (put s.directory (tempFilePath (stem source now)) s.opened.length).lookup p =
          s.directory.lookup p :=
      fun c a p ha hp => lookup_put_of_ne
        ((hfresh a (mem_of_getElem? ha)).symm.names_ne hp (.inl rfl))
    have hbound : ∀ c ∈ s.entries.map (·.2.content) ++ s.finished.map (·.2),
        c < s.opened.length := by
      intro c hc
      rcases mem_append.mp hc with hc | hc
      · obtain ⟨x, hx, rfl⟩ := mem_map.mp hc
        obtain ⟨a, ha, -⟩ := h.entry x hx
        exact (List.getElem?_eq_some_iff.mp ha).1
      · obtain ⟨x, hx, rfl⟩ := mem_map.mp hc
        obtain ⟨a, ha, -⟩ := h.done x hx
        exact (List.getElem?_eq_some_iff.mp ha).1
    exact
      { keys := by
          rw [map_cons, nodup_cons]
          refine ⟨fun hin => ?_, h.keys⟩
          obtain ⟨x, hx, hxs⟩ := mem_map.mp hin
          exact hnew x hx hxs
        entry := fun x hx => by
          rcases mem_cons.mp hx with rfl | hx
          · exact ⟨_, hlast, rfl, rfl, lookup_put_self⟩
          · obtain ⟨a, ha, hpath, hfinal, hat⟩ := h.entry x hx
            exact ⟨a, hold _ a ha, hpath, hfinal, (hothers _ a _ ha (.inl hpath)).trans hat⟩
        done := fun x hx => by
          obtain ⟨a, ha, hname, hat⟩ := h.done x hx
          exact ⟨a, hold _ a ha, hname, (hothers _ a _ ha hname).trans hat⟩
        contents := by
          rw [map_cons, cons_append, nodup_cons]
          exact ⟨fun hin => Nat.lt_irrefl _ (hbound _ hin), h.contents⟩
        stems := fun i j a b ha hb hij => by
          rcases Nat.lt_or_ge i s.opened.length with hi | hi
          · rw [List.getElem?_append_left hi] at ha
            rcases Nat.lt_or_ge j s.opened.length with hj | hj
            · rw [List.getElem?_append_left hj] at hb
              exact h.stems i j a b ha hb hij
            · rw [List.getElem?_append_right hj, List.getElem?_singleton] at hb
              split at hb
              · obtain rfl := Option.some.inj hb
                exact (hfresh a (mem_of_getElem? ha)).symm
              · cases hb
          · rw [List.getElem?_append_right hi, List.getElem?_singleton] at ha
            split at ha
            · obtain rfl := Option.some.inj ha
              rcases Nat.lt_or_ge j s.opened.length with hj | hj
              · rw [List.getElem?_append_left hj] at hb
                exact hfresh b (mem_of_getElem? hb)
              · rw [List.getElem?_append_right hj, List.getElem?_singleton] at hb
                split at hb
                · omega
                · cases hb
            · cases ha }
  · exact h

/-- **An operation with a fresh stem keeps the invariant.** -/
theorem Inv.step (h : Inv s) (a : Action) (hfresh : fresh s a) (hs : FilePool.step s a = some s') :
    Inv s' := by
  cases a with
  | acquire source now due closing opens =>
    simp only [FilePool.step] at hs
    simp only [fresh] at hfresh
    cases hlook : s.entries.lookup source with
    | none =>
      simp only [hlook] at hs hfresh
      obtain rfl := Option.some.inj hs
      refine h.openFile (fun x hx hxs => ?_) fun hopens => hfresh hopens fun hf => by cases hf
      exact lookup_eq_none_iff.mp hlook x hx |> fun hne => by simp [hxs] at hne
    | some e =>
      simp only [hlook] at hs hfresh
      split at hs
      · rename_i hdue
        obtain rfl := Option.some.inj hs
        refine (h.close (mem_of_lookup hlook) closing).openFile
          (fun x hx => (mem_erased.mp hx).2) fun hopens st hst => ?_
        refine hfresh hopens (fun _ => hdue) st ?_
        cases closing <;> exact hst
      · obtain rfl := Option.some.inj hs
        exact h
  | close source closing =>
    obtain ⟨e, hlook, rfl⟩ := Option.map_eq_some_iff.mp hs
    exact h.close (mem_of_lookup hlook) closing

/-! ## 8. Runs -/

theorem Inv.kept (h : Inv s) : Kept s where
  apart := fun x hx y hy hne => by
    obtain ⟨a, ha, hxpath, -⟩ := h.entry x hx
    obtain ⟨b, hb, hypath, -⟩ := h.entry y hy
    have hcontents : x.2.content ≠ y.2.content := fun he => by
      have hnd := (List.nodup_append.mp h.contents).1
      exact hne (congrArg Prod.fst (inj_on_of_nodup_map hnd hx hy he))
    exact (h.stems _ _ a b ha hb hcontents).names_ne (.inl hxpath) (.inl hypath)
  stays := fun x hx => (h.done x hx).choose_spec.2.2

/-- **With fresh stems, open files have names of their own and finished files stay.** Two files
opened under one stem share the hidden name or the visible one: the second truncates the first
while it is written, or replaces it once it is finished (`kept_fails`). -/
theorem kept_of_fresh (directory : Files String Nat) {s : State}
    (hrun : Runs step fresh { directory := directory } s) : Kept s :=
  (hrun.keeps (fun _ a _ h hok hs => h.step a hok hs) (inv_initial directory)).kept

/-- Two sources with names that sanitise to the same text, a second apart, and a rotation. -/
def apartActions : List Action :=
  [.acquire "a:b" 0 false .renamed true, .acquire "a_b" 1 false .renamed true,
    .acquire "a:b" 2 true .renamed true, .close "a_b" .renamed]

theorem kept_of_fresh_two : ∃ s, exec step fresh {} apartActions = some s ∧
    s.finished = [("a_b_19700101T000000Z.hdf5", 0), ("a_b_19700101T000001Z.hdf5", 1)] ∧
      Kept s := by
  obtain ⟨s, hs, hfinished⟩ : ∃ s, exec step fresh {} apartActions = some s ∧
      s.finished = [("a_b_19700101T000000Z.hdf5", 0), ("a_b_19700101T000001Z.hdf5", 1)] := by
    refine ⟨_, rfl, ?_⟩
    decide +kernel
  exact ⟨s, hs, hfinished, kept_of_fresh _ (Runs.of_exec _ hs)⟩

/-! ## 9. One second -/

/-- A rotation within the second in which the file was opened. -/
def rotatedActions : List Action :=
  [.acquire "a" 0 false .renamed true, .acquire "a" 0 true .renamed true, .close "a" .renamed]

/-- Two sources with names that sanitise to the same text, one after the other. -/
def namesakeActions : List Action :=
  [.acquire "a:b" 0 false .renamed true, .close "a:b" .renamed,
    .acquire "a_b" 0 false .renamed true, .close "a_b" .renamed]

/-- **A finished file is replaced by the next of its second**, of the same source or of another. -/
theorem kept_fails :
    (∃ s, exec step anyStep {} rotatedActions = some s ∧ ¬ Kept s) ∧
      ∃ s, exec step anyStep {} namesakeActions = some s ∧ ¬ Kept s := by
  have hlost : ∀ s : State, (∃ path, (path, 0) ∈ s.finished ∧ s.directory.lookup path = some 1) →
      ¬ Kept s := by
    rintro s ⟨path, hdone, hat⟩ h
    have := h.stays _ hdone
    rw [hat] at this
    cases this
  refine ⟨⟨_, rfl, hlost _ ⟨"a_19700101T000000Z.hdf5", ?_, ?_⟩⟩,
    ⟨_, rfl, hlost _ ⟨"a_b_19700101T000000Z.hdf5", ?_, ?_⟩⟩⟩
  all_goals decide +kernel

end MldpDriver.Writer.FilePool

/-
# Updates that keep what they do not mention

`MLDPConfigurationWriter` and `MLDPPVMetadataWriter` update a record in three steps: fetch it,
merge the update into it, save the result in its place.
-/
import MldpDriver.Lib.Directory
import MldpDriver.Writer.MLDPPVMetadataWriter

namespace MldpDriver.Writer

open Lib.Directory
open PvMetadata (SourceMetadataEntry Record assign nonEmpty merge)

/-! ## 1. The writer of configurations -/

/-- `ConfigurationPayload`; the attributes in the order the map is gone through. -/
structure ConfigurationPayload where
  configurationName : String
  category : String
  description : Option String := none
  parentConfigurationName : Option String := none
  tags : Option (List String) := none
  attributes : List (String × String) := []
  modifiedBy : Option String := none

/-- A configuration of the service, and the request that saves it. -/
structure Configuration where
  category : String := ""
  description : Option String := none
  parentConfigurationName : Option String := none
  tags : List String := []
  attributes : List (String × String) := []
  modifiedBy : Option String := none

/-- The request `doSaveConfiguration` builds; `iterate` is the order of the merged map. -/
def mergeConfiguration (iterate : List (String × String) → List (String × String))
    (existing : Option Configuration) (cfg : ConfigurationPayload) : Configuration :=
  match existing with
  | some existing =>
    { category := cfg.category
      description := some (cfg.description.getD (existing.description.getD ""))
      parentConfigurationName := some
        (cfg.parentConfigurationName.getD (existing.parentConfigurationName.getD ""))
      tags := cfg.tags.getD existing.tags
      attributes := iterate (cfg.attributes.foldl assign (existing.attributes.foldl assign []))
      modifiedBy := some (cfg.modifiedBy.getD (existing.modifiedBy.getD "")) }
  | none =>
    { category := cfg.category
      description := cfg.description
      parentConfigurationName := cfg.parentConfigurationName
      tags := cfg.tags.getD []
      attributes := cfg.attributes
      modifiedBy := cfg.modifiedBy }

/-! ## 2. An update

`afterUpdate` is what the service holds after an update, for every way the fetch and the save can
end.

`ConfigurationKept` and `PvMetadataKept` say that the fields an update does not mention are
unchanged. -/

/-- How a fetch ends: the service answers with what it holds, or an exception, a bad status or a
response without a result. -/
inductive FetchEnd
  | answered
  | exception
  | rpcError
  | noResult

/-- `fetchExistingConfiguration` and `fetchExistingPvMetadata`. -/
def fetchExisting {R : Type} (stored : Option R) : FetchEnd → Option R
  | .answered => stored
  | _ => none

/-- How an update ends: no connection was to be had, or the fetch ended so and the service has
applied the save or not. -/
inductive UpdateEnd
  | noConnection
  | done (fetch : FetchEnd) (applied : Bool)

/-- What the service holds after an update that merges so. -/
def afterUpdate {R : Type} (mergeInto : Option R → R) (stored : Option R) : UpdateEnd → Option R
  | .noConnection => stored
  | .done fetch applied =>
    if applied then some (mergeInto (fetchExisting stored fetch)) else stored

/-- The value of an attribute: the last one given. -/
def valueOf (attributes : List (String × String)) (name : String) : Option String :=
  attributes.reverse.lookup name

def Mentioned (attributes : List (String × String)) (name : String) : Prop :=
  name ∈ attributes.map Prod.fst

/-- The fields that an update of a configuration does not mention are unchanged. -/
structure ConfigurationKept (cfg : ConfigurationPayload) (r r' : Configuration) : Prop where
  description : cfg.description = none → r'.description.getD "" = r.description.getD ""
  parentConfigurationName : cfg.parentConfigurationName = none →
    r'.parentConfigurationName.getD "" = r.parentConfigurationName.getD ""
  tags : cfg.tags = none → r'.tags = r.tags
  modifiedBy : cfg.modifiedBy = none → r'.modifiedBy.getD "" = r.modifiedBy.getD ""
  attributes : ∀ name, ¬ Mentioned cfg.attributes name →
    valueOf r'.attributes name = valueOf r.attributes name

/-- The fields that an update of the metadata of a PV does not mention are unchanged. -/
structure PvMetadataKept (entry : SourceMetadataEntry) (r r' : Record) : Prop where
  aliases : entry.aliases = none → r'.aliases = r.aliases
  tags : entry.tags = none → r'.tags = r.tags
  description : entry.description = none → r'.description.getD "" = r.description.getD ""
  modifiedBy : entry.modifiedBy = none → r'.modifiedBy.getD "" = r.modifiedBy.getD ""
  attributes : ∀ name, ¬ Mentioned entry.attributes name →
    valueOf r'.attributes name = valueOf r.attributes name

/-- A stored record is still there, and kept so. -/
def StillKept {R : Type} (kept : R → R → Prop) (stored : R) (after : Option R) : Prop :=
  ∃ r', after = some r' ∧ kept stored r'

/-! ## 3. The condition -/

/-- The configuration has nothing that the update does not mention. -/
structure ConfigurationBare (cfg : ConfigurationPayload) (r : Configuration) : Prop where
  description : cfg.description = none → r.description.getD "" = ""
  parentConfigurationName :
    cfg.parentConfigurationName = none → r.parentConfigurationName.getD "" = ""
  tags : cfg.tags = none → r.tags = []
  modifiedBy : cfg.modifiedBy = none → r.modifiedBy.getD "" = ""
  attributes : ∀ name, Mentioned r.attributes name → Mentioned cfg.attributes name

/-- The metadata of the PV have nothing that the update does not mention. -/
structure PvMetadataBare (entry : SourceMetadataEntry) (r : Record) : Prop where
  aliases : entry.aliases = none → r.aliases = []
  tags : entry.tags = none → r.tags = []
  description : entry.description = none → r.description.getD "" = ""
  modifiedBy : entry.modifiedBy = none → r.modifiedBy.getD "" = ""
  attributes : ∀ name, Mentioned r.attributes name → Mentioned entry.attributes name

/-- Every attribute that the update does not mention has a value. -/
def Valued (entry : SourceMetadataEntry) (r : Record) : Prop :=
  ∀ name, ¬ Mentioned entry.attributes name → valueOf r.attributes name ≠ some ""

/-- The save is not applied, or the fetch is answered, or there is nothing to lose.  An unanswered
fetch is merged with an empty record, and a save that fails writes nothing. -/
def configurationSafe (cfg : ConfigurationPayload) (r : Configuration) : UpdateEnd → Prop
  | .done .answered true => True
  | .done _ true => ConfigurationBare cfg r
  | _ => True

/-- As `configurationSafe`; the merged attributes without a value are left out. -/
def pvMetadataSafe (entry : SourceMetadataEntry) (r : Record) : UpdateEnd → Prop
  | .done .answered true => Valued entry r
  | .done _ true => PvMetadataBare entry r
  | _ => True

/-! ## 4. Attributes -/

variable {l l' merged attributes : List (String × String)} {name value : String}

theorem valueOf_cons (kv : String × String) (l : List (String × String)) (name : String) :
    valueOf (kv :: l) name = (valueOf l name).or (if name = kv.1 then some kv.2 else none) := by
  rw [valueOf, valueOf, List.reverse_cons, List.lookup_append]
  by_cases h : name = kv.1
  · rw [if_pos h, h, List.lookup_cons_self]
  · rw [if_neg h, lookup_cons_of_ne h, List.lookup_nil]

theorem valueOf_eq_none_iff : valueOf attributes name = none ↔ ¬ Mentioned attributes name := by
  induction attributes with
  | nil => simp [valueOf, Mentioned]
  | cons kv attributes ih =>
    rw [valueOf_cons, Option.or_eq_none_iff, ih]
    by_cases h : name = kv.1 <;> simp [Mentioned, h]

theorem lookup_reassign (merged : List (String × String)) (kv : String × String) (name : String) :
    (merged.map fun x => if x.1 = kv.1 then kv else x).lookup name =
      if name = kv.1 then (merged.lookup name).map fun _ => kv.2 else merged.lookup name := by
  induction merged with
  | nil => simp
  | cons x merged ih =>
    rw [List.map_cons]
    by_cases hx : name = x.1
    · subst hx
      by_cases hkv : x.1 = kv.1
      · rw [if_pos hkv, if_pos hkv, hkv, List.lookup_cons_self, ← hkv, List.lookup_cons_self,
          Option.map_some]
      · rw [if_neg hkv, if_neg hkv, List.lookup_cons_self, List.lookup_cons_self]
    · have hx' : name ≠ (if x.1 = kv.1 then kv else x).1 := by
        by_cases hkv : x.1 = kv.1
        · rw [if_pos hkv, ← hkv]
          exact hx
        · rw [if_neg hkv]
          exact hx
      rw [lookup_cons_of_ne hx', lookup_cons_of_ne hx, ih]

/-- **What is assigned last stands.** -/
theorem lookup_assign (merged : List (String × String)) (kv : String × String) (name : String) :
    (assign merged kv).lookup name = if name = kv.1 then some kv.2 else merged.lookup name := by
  rw [assign]
  by_cases hany : merged.any (fun x => decide (x.1 = kv.1)) = true
  · rw [if_pos hany, lookup_reassign]
    by_cases hname : name = kv.1
    · obtain ⟨x, hx, hkey⟩ := List.any_eq_true.mp hany
      have hne : merged.lookup name ≠ none := by
        rw [Ne, List.lookup_eq_none_iff]
        intro h
        simpa [hname, of_decide_eq_true hkey] using h x hx
      obtain ⟨v, hv⟩ := Option.ne_none_iff_exists'.mp hne
      rw [if_pos hname, if_pos hname, hv, Option.map_some]
    · rw [if_neg hname, if_neg hname]
  · rw [if_neg hany, List.lookup_append]
    by_cases hname : name = kv.1
    · have hnone : merged.lookup name = none := by
        rw [List.lookup_eq_none_iff]
        intro x hx
        have hkey : x.1 ≠ kv.1 := fun h => hany (List.any_eq_true.mpr ⟨x, hx, decide_eq_true h⟩)
        simpa [hname] using hkey.symm
      rw [if_pos hname, hnone, hname, List.lookup_cons_self, Option.none_or]
    · rw [if_neg hname, lookup_cons_of_ne hname, List.lookup_nil, Option.or_none]

/-- **A map filled from a list has the last value of each name.** -/
theorem lookup_foldl_assign (l merged : List (String × String)) (name : String) :
    (l.foldl assign merged).lookup name = (valueOf l name).or (merged.lookup name) := by
  induction l generalizing merged with
  | nil => rfl
  | cons kv l ih =>
    rw [List.foldl_cons, ih, lookup_assign, valueOf_cons]
    by_cases h : name = kv.1
    · rw [if_pos h, if_pos h, Option.or_assoc, Option.some_or]
    · rw [if_neg h, if_neg h, Option.or_none]

theorem nodup_assign (h : (merged.map Prod.fst).Nodup) (kv : String × String) :
    ((assign merged kv).map Prod.fst).Nodup := by
  rw [assign]
  by_cases hany : merged.any (fun x => decide (x.1 = kv.1)) = true
  · rw [if_pos hany, List.map_map]
    have hkeys : Prod.fst ∘ (fun x => if x.1 = kv.1 then kv else x) = @Prod.fst String String := by
      funext x
      by_cases hx : x.1 = kv.1
      · simp [hx]
      · simp [hx]
    rwa [hkeys]
  · rw [if_neg hany, List.map_append, List.nodup_append]
    refine ⟨h, by simp, ?_⟩
    rintro a ha b hb rfl
    obtain ⟨x, hx, rfl⟩ := List.mem_map.mp ha
    have hkey : x.1 = kv.1 := by simpa using hb
    exact hany (List.any_eq_true.mpr ⟨x, hx, decide_eq_true hkey⟩)

theorem nodup_foldl_assign (h : (merged.map Prod.fst).Nodup) (l : List (String × String)) :
    ((l.foldl assign merged).map Prod.fst).Nodup := by
  induction l generalizing merged with
  | nil => exact h
  | cons kv l ih => exact ih (nodup_assign h kv)

/-- **Where each name stands once, the order does not matter.** -/
theorem valueOf_of_perm (h : (l.map Prod.fst).Nodup) (hperm : l'.Perm l) (name : String) :
    valueOf l' name = l.lookup name := by
  have h' : (l'.reverse.map Prod.fst).Nodup :=
    ((l'.reverse_perm.trans hperm).map Prod.fst).nodup_iff.mpr h
  refine Option.ext fun value => ?_
  rw [valueOf, lookup_eq_some_iff h', List.mem_reverse, hperm.mem_iff, lookup_eq_some_iff h]

theorem nodup_nonEmpty (h : (l.map Prod.fst).Nodup) : ((nonEmpty l).map Prod.fst).Nodup :=
  h.sublist (List.filter_sublist.map Prod.fst)

theorem valueOf_eq_some_iff (h : (l.map Prod.fst).Nodup) :
    valueOf l name = some value ↔ (name, value) ∈ l := by
  rw [valueOf_of_perm h (List.Perm.refl l), lookup_eq_some_iff h]

theorem valueOf_nonEmpty (h : (l.map Prod.fst).Nodup) (name : String) :
    valueOf (nonEmpty l) name = (valueOf l name).filter fun v => decide (v ≠ "") := by
  refine Option.ext fun value => ?_
  rw [valueOf_eq_some_iff (nodup_nonEmpty h), Option.filter_eq_some_iff, valueOf_eq_some_iff h,
    nonEmpty, List.mem_filter]

theorem not_mentioned_nonEmpty (h : ¬ Mentioned l name) : ¬ Mentioned (nonEmpty l) name :=
  fun hm => h ((List.filter_sublist.map Prod.fst).subset hm)

section Merged

variable {iterate : List (String × String) → List (String × String)}

/-- The attributes of a record, then those of an update. -/
def mergedAttributes (stored update : List (String × String)) : List (String × String) :=
  update.foldl assign (stored.foldl assign [])

theorem nodup_mergedAttributes (stored update : List (String × String)) :
    ((mergedAttributes stored update).map Prod.fst).Nodup := by
  have hnil : (([] : List (String × String)).map Prod.fst).Nodup := List.nodup_nil
  exact nodup_foldl_assign (nodup_foldl_assign hnil stored) update

theorem nodup_iterate (hiterate : ∀ l, (iterate l).Perm l)
    (stored update : List (String × String)) :
    ((iterate (mergedAttributes stored update)).map Prod.fst).Nodup :=
  ((hiterate _).map Prod.fst).nodup_iff.mpr (nodup_mergedAttributes stored update)

/-- **A name that the update does not mention keeps its value.** -/
theorem valueOf_iterate (hiterate : ∀ l, (iterate l).Perm l)
    {stored update : List (String × String)} (h : ¬ Mentioned update name) :
    valueOf (iterate (mergedAttributes stored update)) name = valueOf stored name := by
  rw [valueOf_of_perm (nodup_mergedAttributes stored update) (hiterate _), mergedAttributes,
    lookup_foldl_assign, valueOf_eq_none_iff.mpr h, Option.none_or, lookup_foldl_assign,
    List.lookup_nil, Option.or_none]

end Merged

/-! ## 5. Both writers -/

section Answered

variable {iterate : List (String × String) → List (String × String)} {r : Configuration}
  {cfg : ConfigurationPayload}

theorem mergeConfiguration_kept (hiterate : ∀ l, (iterate l).Perm l) :
    ConfigurationKept cfg r (mergeConfiguration iterate (some r) cfg) where
  description h := by simp [mergeConfiguration, h]
  parentConfigurationName h := by simp [mergeConfiguration, h]
  tags h := by simp [mergeConfiguration, h]
  modifiedBy h := by simp [mergeConfiguration, h]
  attributes _ h := valueOf_iterate hiterate h

theorem mergeConfiguration_none_kept_iff :
    ConfigurationKept cfg r (mergeConfiguration iterate none cfg) ↔ ConfigurationBare cfg r := by
  constructor
  · intro h
    refine ⟨fun hd => ?_, fun hp => ?_, fun ht => ?_, fun hm => ?_, fun name => ?_⟩
    · simpa [mergeConfiguration, hd] using (h.description hd).symm
    · simpa [mergeConfiguration, hp] using (h.parentConfigurationName hp).symm
    · simpa [mergeConfiguration, ht] using (h.tags ht).symm
    · simpa [mergeConfiguration, hm] using (h.modifiedBy hm).symm
    · intro hname
      by_contra hnot
      have hnone : valueOf cfg.attributes name = none := valueOf_eq_none_iff.mpr hnot
      exact valueOf_eq_none_iff.mp ((h.attributes name hnot).symm.trans hnone) hname
  · intro h
    refine ⟨fun hd => ?_, fun hp => ?_, fun ht => ?_, fun hm => ?_, fun name hname => ?_⟩
    · simp [mergeConfiguration, hd, h.description hd]
    · simp [mergeConfiguration, hp, h.parentConfigurationName hp]
    · simp [mergeConfiguration, ht, h.tags ht]
    · simp [mergeConfiguration, hm, h.modifiedBy hm]
    · have hnot : ¬ Mentioned r.attributes name := fun hm => hname (h.attributes name hm)
      rw [valueOf_eq_none_iff.mpr hnot]
      exact valueOf_eq_none_iff.mpr hname

end Answered

section PvMetadata

variable {env : PvMetadata.Env} {r : Record} {entry : SourceMetadataEntry}

theorem merge_kept_iff (hiterate : ∀ l, (env.iterate l).Perm l) :
    PvMetadataKept entry r (merge env (some r) entry) ↔ Valued entry r := by
  have hvalue : ∀ name, ¬ Mentioned entry.attributes name →
      valueOf (merge env (some r) entry).attributes name =
        (valueOf r.attributes name).filter fun v => decide (v ≠ "") := by
    intro name hname
    have h := valueOf_nonEmpty (nodup_iterate hiterate r.attributes entry.attributes) name
    rwa [valueOf_iterate hiterate hname] at h
  constructor
  · intro h name hname hempty
    have hkept := h.attributes name hname
    rw [hvalue name hname, hempty] at hkept
    cases hkept
  · intro h
    refine ⟨fun ha => ?_, fun ht => ?_, fun hd => ?_, fun hm => ?_, fun name hname => ?_⟩
    · simp [merge, ha]
    · simp [merge, ht]
    · simp [merge, hd]
    · simp [merge, hm]
    · rw [hvalue name hname]
      cases hv : valueOf r.attributes name with
      | none => rfl
      | some v =>
        have hv' : v ≠ "" := fun hempty => h name hname (hv.trans (congrArg some hempty))
        rw [Option.filter_some, if_pos (decide_eq_true hv')]

theorem merge_none_kept_iff :
    PvMetadataKept entry r (merge env none entry) ↔ PvMetadataBare entry r := by
  constructor
  · intro h
    refine ⟨fun ha => ?_, fun ht => ?_, fun hd => ?_, fun hm => ?_, fun name => ?_⟩
    · simpa [merge, ha] using (h.aliases ha).symm
    · simpa [merge, ht] using (h.tags ht).symm
    · simpa [merge, hd] using (h.description hd).symm
    · simpa [merge, hm] using (h.modifiedBy hm).symm
    · intro hname
      by_contra hnot
      have hnone : valueOf (nonEmpty entry.attributes) name = none :=
        valueOf_eq_none_iff.mpr (not_mentioned_nonEmpty hnot)
      exact valueOf_eq_none_iff.mp ((h.attributes name hnot).symm.trans hnone) hname
  · intro h
    refine ⟨fun ha => ?_, fun ht => ?_, fun hd => ?_, fun hm => ?_, fun name hname => ?_⟩
    · simp [merge, ha, h.aliases ha]
    · simp [merge, ht, h.tags ht]
    · simp [merge, hd, h.description hd]
    · simp [merge, hm, h.modifiedBy hm]
    · have hnot : ¬ Mentioned r.attributes name := fun hm => hname (h.attributes name hm)
      rw [valueOf_eq_none_iff.mpr hnot]
      exact valueOf_eq_none_iff.mpr (not_mentioned_nonEmpty hname)

end PvMetadata

theorem stillKept_some {R : Type} {kept : R → R → Prop} {stored r' : R} :
    StillKept kept stored (some r') ↔ kept stored r' := by
  simp [StillKept]

theorem stillKept_self {R : Type} {kept : R → R → Prop} {stored : R} (h : kept stored stored) :
    StillKept kept stored (some stored) := ⟨stored, rfl, h⟩

theorem configurationKept_refl (cfg : ConfigurationPayload) (r : Configuration) :
    ConfigurationKept cfg r r :=
  ⟨fun _ => rfl, fun _ => rfl, fun _ => rfl, fun _ => rfl, fun _ _ => rfl⟩

theorem pvMetadataKept_refl (entry : SourceMetadataEntry) (r : Record) :
    PvMetadataKept entry r r :=
  ⟨fun _ => rfl, fun _ => rfl, fun _ => rfl, fun _ => rfl, fun _ _ => rfl⟩

/-- **A configuration keeps what its update does not mention exactly when the save is not applied,
the fetch is answered, or there is nothing to lose; so do the metadata of a PV, whose attributes
must also have values.** A fetch that fails is taken for "no record", and the save then erases what
the update leaves out (`updates_fail`). -/
theorem updates_keep_iff (env : PvMetadata.Env) (hiterate : ∀ l, (env.iterate l).Perm l) :
    (∀ (cfg : ConfigurationPayload) (r : Configuration) (e : UpdateEnd),
      StillKept (ConfigurationKept cfg) r
          (afterUpdate (fun existing => mergeConfiguration env.iterate existing cfg) (some r) e) ↔
        configurationSafe cfg r e) ∧
    ∀ (entry : SourceMetadataEntry) (r : Record) (e : UpdateEnd),
      StillKept (PvMetadataKept entry) r
          (afterUpdate (fun existing => merge env existing entry) (some r) e) ↔
        pvMetadataSafe entry r e := by
  constructor
  · intro cfg r e
    have hself := stillKept_self (configurationKept_refl cfg r)
    cases e with
    | noConnection => exact iff_of_true hself trivial
    | done fetch applied =>
      cases applied with
      | false => cases fetch <;> exact iff_of_true hself trivial
      | true =>
        cases fetch with
        | answered =>
          exact iff_of_true (stillKept_some.mpr (mergeConfiguration_kept hiterate)) trivial
        | exception => exact stillKept_some.trans mergeConfiguration_none_kept_iff
        | rpcError => exact stillKept_some.trans mergeConfiguration_none_kept_iff
        | noResult => exact stillKept_some.trans mergeConfiguration_none_kept_iff
  · intro entry r e
    have hself := stillKept_self (pvMetadataKept_refl entry r)
    cases e with
    | noConnection => exact iff_of_true hself trivial
    | done fetch applied =>
      cases applied with
      | false => cases fetch <;> exact iff_of_true hself trivial
      | true =>
        cases fetch with
        | answered => exact stillKept_some.trans (merge_kept_iff hiterate)
        | exception => exact stillKept_some.trans merge_none_kept_iff
        | rpcError => exact stillKept_some.trans merge_none_kept_iff
        | noResult => exact stillKept_some.trans merge_none_kept_iff

/-! ## 6. A fetch that fails -/

/-- A stored record with a tag, an attribute and a description. -/
def sampleRecord : Record where
  tags := ["bpm"]
  attributes := [("unit", "mm")]
  description := some "a position monitor"

/-- An update of one attribute. -/
def sampleEntry : SourceMetadataEntry where
  attributes := [("area", "LTUH")]

/-- A map gone through in the order it was filled. -/
def sampleEnv : PvMetadata.Env where
  threadPool := 1
  hash _ := 0
  iterate l := l
  getPvMetadata store name := store.lookup name

/-- With an answer the update is kept apart from the rest of the record. -/
theorem sample_kept :
    (∀ l, (sampleEnv.iterate l).Perm l) ∧
      (StillKept (PvMetadataKept sampleEntry) sampleRecord
          (afterUpdate (fun existing => merge sampleEnv existing sampleEntry) (some sampleRecord)
            (.done .answered true)) ↔
        pvMetadataSafe sampleEntry sampleRecord (.done .answered true)) :=
  ⟨fun l => List.Perm.refl l,
    (updates_keep_iff sampleEnv fun l => List.Perm.refl l).2 sampleEntry sampleRecord _⟩

/-- **A fetch that fails erases the tag, the attribute and the description.** -/
theorem updates_fail :
    afterUpdate (fun existing => merge sampleEnv existing sampleEntry) (some sampleRecord)
        (.done .rpcError true) = some { attributes := [("area", "LTUH")] } ∧
      ¬ StillKept (PvMetadataKept sampleEntry) sampleRecord
        (afterUpdate (fun existing => merge sampleEnv existing sampleEntry) (some sampleRecord)
          (.done .rpcError true)) := by
  refine ⟨by decide +kernel, ?_⟩
  rintro ⟨r', hr', hkept⟩
  cases hr'
  exact absurd (hkept.tags rfl) (by decide +kernel)

end MldpDriver.Writer

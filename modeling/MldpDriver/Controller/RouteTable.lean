/-
# The route table: which reader feeds which writer

`RouteTable::build` turns the configured routing entries into a table from target names to routes;
`accepts` and `acceptsSource` are asked before every dispatch.  No entries at all mean all-to-all.
-/
import Mathlib.Data.List.Basic

namespace MldpDriver.Controller

/-! ## 1. The table

`build` only VALIDATES the names it is given: when it succeeds, the table depends on the entries
alone (`build_eq`). -/

/-- A configured routing entry. -/
structure RouteFilterEntry where
  writerName : String
  fromReaders : List String
  includePatterns : List String := []
  excludePatterns : List String := []

/-- `RouteTable::WriterRoute`. -/
structure WriterRoute where
  readers : List String := []
  acceptAll : Bool := false
  includePatterns : List String := []
  excludePatterns : List String := []

/-- `RouteTable`; a default-constructed one is all-to-all. -/
structure RouteTable where
  table : List (String × WriterRoute) := []
  allToAll : Bool := true

/-- The loop over `from_readers`. -/
def addReaders (knownReaders : List String) (writerName : String) :
    List String → WriterRoute → Except String WriterRoute
  | [], wr => .ok wr
  | reader :: rest, wr =>
    if reader = "all" then addReaders knownReaders writerName rest { wr with acceptAll := true }
    else if knownReaders.contains reader then
      addReaders knownReaders writerName rest { wr with readers := wr.readers ++ [reader] }
    else .error
      ("Route for writer '" ++ writerName ++ "' references unknown reader '" ++ reader ++ "'")

/-- `unordered_map::emplace`: an entry that is already there stays. -/
def emplace (table : List (String × WriterRoute)) (name : String) (wr : WriterRoute) :
    List (String × WriterRoute) :=
  if (table.lookup name).isSome then table else table ++ [(name, wr)]

/-- The loop over the entries. -/
def addEntries (knownReaders knownWriters : List String) :
    List RouteFilterEntry → RouteTable → Except String RouteTable
  | [], rt => .ok rt
  | entry :: rest, rt =>
    if knownWriters.contains entry.writerName then
      match addReaders knownReaders entry.writerName entry.fromReaders {} with
      | .error e => .error e
      | .ok wr =>
        let wr' : WriterRoute :=
          { wr with
            includePatterns := entry.includePatterns, excludePatterns := entry.excludePatterns }
        addEntries knownReaders knownWriters rest
          { rt with table := emplace rt.table entry.writerName wr' }
    else .error ("Route references unknown writer '" ++ entry.writerName ++ "'")

/-- `RouteTable::build`. -/
def RouteTable.build (routes : List RouteFilterEntry) (knownReaders knownWriters : List String) :
    Except String RouteTable :=
  match routes with
  | [] => .ok {}
  | entry :: rest =>
    addEntries knownReaders knownWriters (entry :: rest) { table := [], allToAll := false }

/-- `RouteTable::accepts`. -/
def RouteTable.accepts (rt : RouteTable) (writerName readerName : String) : Bool :=
  if rt.allToAll then true
  else
    match rt.table.lookup writerName with
    | none => false
    | some wr => wr.acceptAll || wr.readers.contains readerName

/-- The include and exclude patterns of a route; `fnmatch pattern source` says that the source
matches. -/
def sourcePasses (fnmatch : String → String → Bool) (includePatterns excludePatterns : List String)
    (rootSource : String) : Bool :=
  (includePatterns.isEmpty || includePatterns.any (fnmatch · rootSource)) &&
    !excludePatterns.any (fnmatch · rootSource)

/-- `RouteTable::acceptsSource`. -/
def RouteTable.acceptsSource (fnmatch : String → String → Bool) (rt : RouteTable)
    (writerName rootSource : String) : Bool :=
  if rt.allToAll then true
  else
    match rt.table.lookup writerName with
    | none => false
    | some wr => sourcePasses fnmatch wr.includePatterns wr.excludePatterns rootSource

/-! ## 2. What the entries say -/

/-- A routing entry accepts a reader and a source. -/
def RouteFilterEntry.admits (fnmatch : String → String → Bool) (e : RouteFilterEntry)
    (readerName rootSource : String) : Bool :=
  (e.fromReaders.contains "all" || e.fromReaders.contains readerName) &&
    sourcePasses fnmatch e.includePatterns e.excludePatterns rootSource

/-- The configured routes let a target have a batch: there are none, or one of its entries accepts
it. -/
def routesAdmit (fnmatch : String → String → Bool) (routes : List RouteFilterEntry)
    (name readerName rootSource : String) : Bool :=
  routes.isEmpty || routes.any fun e => decide (e.writerName = name) &&
    e.admits fnmatch readerName rootSource

/-- The first entry of a target accepts whatever a later one does. -/
def FirstCovers (fnmatch : String → String → Bool) (routes : List RouteFilterEntry) : Prop :=
  ∀ e ∈ routes, ∀ first, routes.find? (fun f => decide (f.writerName = e.writerName)) = some first →
    ∀ readerName rootSource, e.admits fnmatch readerName rootSource = true →
      first.admits fnmatch readerName rootSource = true

/-! ## 3. The table of a list of entries

The table keeps the FIRST entry of a target (`table_.emplace`), so it agrees with the entries
exactly when no later entry of a target accepts more (`takes_ofRoutes`). -/

/-- The route of an entry whose names are all known. -/
def RouteFilterEntry.route (e : RouteFilterEntry) : WriterRoute where
  readers := e.fromReaders.filter (fun r => decide (r ≠ "all"))
  acceptAll := e.fromReaders.contains "all"
  includePatterns := e.includePatterns
  excludePatterns := e.excludePatterns

/-- The table of the entries, without the validation. -/
def RouteTable.ofRoutes (routes : List RouteFilterEntry) : RouteTable where
  table := routes.foldl (fun table e => emplace table e.writerName e.route) []
  allToAll := routes.isEmpty

theorem addReaders_ok {knownReaders : List String} {writerName : String} :
    ∀ {rs : List String} {wr wr' : WriterRoute},
      addReaders knownReaders writerName rs wr = .ok wr' →
        wr' = { wr with
          readers := wr.readers ++ rs.filter (fun r => decide (r ≠ "all"))
          acceptAll := wr.acceptAll || rs.contains "all" }
  | [], wr, wr', h => by
    simp only [addReaders, Except.ok.injEq] at h
    simp [h]
  | r :: rs, wr, wr', h => by
    simp only [addReaders] at h
    split at h
    · rename_i hall
      rw [addReaders_ok h]
      simp [hall]
    · rename_i hall
      split at h
      · rw [addReaders_ok h]
        have hne : ¬ "all" = r := fun he => hall he.symm
        simp [hall, hne]
      · cases h

variable {knownReaders knownWriters : List String}

theorem addEntries_ok :
    ∀ {es : List RouteFilterEntry} {rt rt' : RouteTable},
      addEntries knownReaders knownWriters es rt = .ok rt' →
        rt' = { rt with table := es.foldl (fun t e => emplace t e.writerName e.route) rt.table }
  | [], rt, rt', h => by
    simp only [addEntries, Except.ok.injEq] at h
    simp [h]
  | e :: es, rt, rt', h => by
    simp only [addEntries] at h
    split at h
    · split at h
      · cases h
      · rename_i wr hwr
        rw [addEntries_ok h, addReaders_ok hwr]
        simp [RouteFilterEntry.route]
    · cases h

variable {routes : List RouteFilterEntry}

/-- **A table that was built depends on the entries alone.** -/
theorem build_eq {rt : RouteTable} (h : RouteTable.build routes knownReaders knownWriters = .ok
    rt) :
    rt = RouteTable.ofRoutes routes := by
  cases routes with
  | nil =>
    simp only [RouteTable.build, Except.ok.injEq] at h
    simp [← h, RouteTable.ofRoutes]
  | cons e es =>
    rw [addEntries_ok h]
    rfl

theorem lookup_emplace (table : List (String × WriterRoute)) (name key : String)
    (wr : WriterRoute) :
    (emplace table name wr).lookup key =
      (table.lookup key).or (if name = key then some wr else none) := by
  unfold emplace
  split
  · rename_i hsome
    split
    · rename_i hkey
      subst hkey
      obtain ⟨x, hx⟩ := Option.isSome_iff_exists.mp hsome
      simp [hx]
    · simp
  · rw [List.lookup_append]
    congr 1
    by_cases hkey : name = key
    · simp [hkey]
    · simp [hkey, Ne.symm hkey]

theorem lookup_foldl_emplace (key : String) :
    ∀ (es : List RouteFilterEntry) (table : List (String × WriterRoute)),
      (es.foldl (fun t e => emplace t e.writerName e.route) table).lookup key =
        (table.lookup key).or
          ((es.find? (fun e => decide (e.writerName = key))).map RouteFilterEntry.route)
  | [], table => by simp
  | e :: es, table => by
    rw [List.foldl_cons, lookup_foldl_emplace key es, lookup_emplace, Option.or_assoc]
    congr 1
    by_cases hkey : e.writerName = key
    · simp [hkey]
    · simp [hkey]

theorem route_admits (fnmatch : String → String → Bool) (e : RouteFilterEntry)
    (readerName rootSource : String) :
    ((e.route.acceptAll || e.route.readers.contains readerName) &&
      sourcePasses fnmatch e.route.includePatterns e.route.excludePatterns rootSource) =
        e.admits fnmatch readerName rootSource := by
  have hmem : (e.route.acceptAll || e.route.readers.contains readerName) =
      (e.fromReaders.contains "all" || e.fromReaders.contains readerName) := by
    rw [Bool.eq_iff_iff]
    by_cases hall : readerName = "all"
    · simp [RouteFilterEntry.route, hall]
    · simp [RouteFilterEntry.route, hall]
  rw [hmem]
  rfl

/-- What `accepts` and `acceptsSource` say together. -/
def RouteTable.takes (fnmatch : String → String → Bool) (rt : RouteTable)
    (name readerName rootSource : String) : Bool :=
  rt.accepts name readerName && rt.acceptsSource fnmatch name rootSource

theorem takes_ofRoutes_eq (fnmatch : String → String → Bool) (hne : routes.isEmpty = false)
    (name readerName rootSource : String) :
    (RouteTable.ofRoutes routes).takes fnmatch name readerName rootSource =
      match routes.find? (fun e => decide (e.writerName = name)) with
      | none => false
      | some e => e.admits fnmatch readerName rootSource := by
  have hlookup : (RouteTable.ofRoutes routes).table.lookup name =
      (routes.find? (fun e => decide (e.writerName = name))).map RouteFilterEntry.route := by
    simpa [RouteTable.ofRoutes] using lookup_foldl_emplace name routes []
  have hall : (RouteTable.ofRoutes routes).allToAll = false := hne
  simp only [RouteTable.takes, RouteTable.accepts, RouteTable.acceptsSource, hall, hlookup,
    Bool.false_eq_true, if_false]
  cases routes.find? (fun e => decide (e.writerName = name)) with
  | none => rfl
  | some e => exact route_admits fnmatch e readerName rootSource

/-- **The table agrees with the entries where the first entry of each target covers the others.** -/
theorem takes_ofRoutes {fnmatch : String → String → Bool} (hcov : FirstCovers fnmatch routes)
    (name readerName rootSource : String) :
    (RouteTable.ofRoutes routes).takes fnmatch name readerName rootSource =
      routesAdmit fnmatch routes name readerName rootSource := by
  cases hempty : routes.isEmpty with
  | true =>
    simp [RouteTable.takes, RouteTable.accepts, RouteTable.acceptsSource, RouteTable.ofRoutes,
      routesAdmit, hempty]
  | false =>
    rw [takes_ofRoutes_eq fnmatch hempty, routesAdmit, hempty, Bool.false_or, Bool.eq_iff_iff,
      List.any_eq_true]
    cases hfind : routes.find? (fun e => decide (e.writerName = name)) with
    | none =>
      have hnone := List.find?_eq_none.mp hfind
      constructor
      · intro h
        cases h
      · rintro ⟨e, he, h⟩
        have hname := (Bool.and_eq_true _ _ ▸ h).1
        exact absurd hname (hnone e he)
    | some first =>
      have hmem := List.mem_of_find?_eq_some hfind
      have hname : first.writerName = name := by simpa using List.find?_some hfind
      constructor
      · intro h
        exact ⟨first, hmem, by simpa [hname] using h⟩
      · rintro ⟨e, he, h⟩
        rw [Bool.and_eq_true, decide_eq_true_eq] at h
        exact hcov e he first (h.1 ▸ hfind) readerName rootSource h.2

end MldpDriver.Controller

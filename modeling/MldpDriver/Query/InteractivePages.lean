/-
# Pages of an interactive query

In the REPL the LIMIT of a query is the size of a PAGE.  The stream of the result is wrapped into
one that gives the rows of a page and keeps the rest of the batch it is in; when a page is full the
stream is stored under a new token, and the same query with that PAGE TOKEN goes on with it.
Tokens are checked against the FINGERPRINT of the query, its text before the first ` PAGE TOKEN `.

What the parser finds in a text is given: the text before the clause (the QUERY), the rest, the
limit and the token.  A stream is the batches it gives; `none` is where it throws.  Tokens are
random, so the next one is part of an action.  A session also has its history: for each query that
was executed (a CURSOR) its result and the pages that came from its stream.  -/
import MldpDriver.Lib.Directory
import MldpDriver.Lib.Replace
import MldpDriver.Lib.Run

namespace MldpDriver.Query.InteractivePages

open Lib.Directory Lib.Replace Lib.Run List Option

variable {Row : Type}

/-! ## 1. The stream of a page -/

/-- A stream: its batches, `none` where it throws. -/
abbrev Source (Row : Type) := List (Option (List Row))

/-- The rows of a stream, up to where it throws. -/
def sourceRows : Source Row → List Row
  | [] => []
  | none :: _ => []
  | some batch :: rest => batch ++ sourceRows rest

/-- `InteractivePageStream`. -/
structure PageStream (Row : Type) where
  input : Source Row
  pending : Option (List Row) := none
  offset : Nat := 0
  remaining : Nat

def PageStream.reset (s : PageStream Row) (limit : Nat) : PageStream Row :=
  { s with remaining := limit }

def PageStream.pageFull (s : PageStream Row) : Bool := s.remaining == 0

/-- The next rows of the pending batch. -/
def PageStream.slice (s : PageStream Row) (batch : List Row) : List Row × PageStream Row :=
  let count := min (batch.length - s.offset) s.remaining
  let result := (batch.drop s.offset).take count
  if s.offset + count = batch.length then
    (result, { s with pending := none, offset := 0, remaining := s.remaining - count })
  else
    (result, { s with
      pending := some batch, offset := s.offset + count, remaining := s.remaining - count })

/-- `next`; none if the input throws. -/
def PageStream.next (s : PageStream Row) : Option (Option (List Row) × PageStream Row) :=
  if s.remaining = 0 then some (none, s)
  else
    match s.pending, s.input with
    | some batch, _ => some (some (s.slice batch).1, (s.slice batch).2)
    | none, [] => some (none, s)
    | none, none :: _ => none
    | none, some batch :: rest =>
      let s := { s with input := rest }
      some (some (s.slice batch).1, (s.slice batch).2)

/-- The loop of the formatter over a stream: all rows and the stream after them. -/
def PageStream.drain : Nat → PageStream Row → Option (List Row × PageStream Row)
  | 0, _ => none
  | fuel + 1, s =>
    match s.next with
    | none => none
    | some (none, s) => some ([], s)
    | some (some rows, s) => (drain fuel s).map fun r => (rows ++ r.1, r.2)

/-- The rows of the page, or none if the stream throws. -/
def PageStream.page (s : PageStream Row) : Option (List Row × PageStream Row) :=
  s.drain (s.input.length + 2)

/-! ## 2. Statements -/

/-- The first place at which a text has a pattern: `std::string::find`. -/
def findText (pattern : List Char) : List Char → Option Nat
  | [] => if pattern.isEmpty then some 0 else none
  | c :: text =>
    if pattern.isPrefixOf (c :: text) then some 0 else (findText pattern text).map (· + 1)

def pageTokenWords : List Char := " PAGE TOKEN ".toList

/-- `queryFingerprint`. -/
def queryFingerprint (sql : List Char) : List Char :=
  match findText pageTokenWords (sql.map Char.toUpper) with
  | none => sql
  | some page => sql.take page

/-- A statement as the parser sees it: its text before the PAGE TOKEN clause and from there on. -/
structure Statement where
  query : List Char
  clause : List Char := []
  limit : Option Nat := none
  pageToken : Option String := none

def Statement.sql (stmt : Statement) : List Char := stmt.query ++ stmt.clause

/-! ## 3. The registry -/

/-- `Entry`, with the number of the cursor whose stream it has. -/
structure Entry (Row : Type) where
  fingerprint : List Char
  stream : PageStream Row
  expiresAt : Nat
  cursor : Nat

abbrev Registry (Row : Type) := Files String (Entry Row)

/-- `cleanupExpired`. -/
def cleanupExpired (now : Nat) (entries : Registry Row) : Registry Row :=
  entries.filter fun x => decide (now < x.2.expiresAt)

/-- `take`: the entry, or the text of the error. -/
def takeEntry (now : Nat) (entries : Registry Row) (token : String) (fingerprint : List Char) :
    Except String (Entry Row × Registry Row) :=
  let entries := cleanupExpired now entries
  match entries.lookup token with
  | none =>
    .error "PAGE TOKEN is invalid, expired, or has already been consumed in this REPL session"
  | some entry =>
    if entry.fingerprint ≠ fingerprint then
      .error "PAGE TOKEN does not match this query in the current REPL session"
    else .ok (entry, remove entries token)

/-! ## 4. The session -/

/-- A page as the user got it. -/
structure Page (Row : Type) where
  query : List Char
  token : Option String
  rows : List Row
  issued : Option String

/-- A query that was executed: its result, and the pages that came from its stream. -/
structure Cursor (Row : Type) where
  result : List Row
  pages : List (Page Row)

/-- A REPL session; an entry is kept for `idleTimeout`. -/
structure Session (Row : Type) where
  idleTimeout : Nat
  now : Nat := 0
  entries : Registry Row := []
  cursors : List (Cursor Row) := []

inductive Action (Row : Type)
  /-- A statement is run.  Its stream would be `source`, the next random token is `token`, and
  `cancelled` says that the run is cancelled before its page is complete. -/
  | run (stmt : Statement) (source : Source Row) (token : String) (cancelled : Bool)
  | tick (now : Nat)

/-- A page of cursor `i`. -/
def addPage (cursors : List (Cursor Row)) (i : Nat) (p : Page Row) : List (Cursor Row) :=
  match cursors[i]? with
  | some c => cursors.set i { c with pages := c.pages ++ [p] }
  | none => cursors

/-- The page of a stream: it is stored under a new token if it is full. -/
def Session.deliver (s : Session Row) (stmt : Statement) (stream : PageStream Row) (i : Nat)
    (token : String) (cancelled : Bool) : Option (Session Row) :=
  match if cancelled then none else stream.page with
  | none => some s
  | some (rows, stream) =>
    if stream.pageFull then
      let entries := cleanupExpired s.now s.entries
      -- a token that is taken is not used; another is drawn
      if (entries.lookup token).isSome then none
      else
        some { s with
          entries := put entries token
            { fingerprint := queryFingerprint stmt.sql, stream := stream
              expiresAt := s.now + s.idleTimeout, cursor := i }
          cursors := addPage s.cursors i ⟨stmt.query, stmt.pageToken, rows, some token⟩ }
    else some { s with cursors := addPage s.cursors i ⟨stmt.query, stmt.pageToken, rows, none⟩ }

/-- All rows of a stream; none if it throws. -/
def drainSource : Source Row → Option (List Row)
  | [] => some []
  | none :: _ => none
  | some batch :: rest => (drainSource rest).map (batch ++ ·)

/-- `QueryRunner::run` with the registry of a session; a run that throws gives no page. -/
def Session.run (s : Session Row) (stmt : Statement) (source : Source Row) (token : String)
    (cancelled : Bool) : Option (Session Row) :=
  match stmt.limit, stmt.pageToken with
  | some limit, some pageToken =>
    match takeEntry s.now s.entries pageToken (queryFingerprint stmt.sql) with
    | .error _ => some { s with entries := cleanupExpired s.now s.entries }
    | .ok (entry, entries) =>
      let resumed : Session Row := { s with entries := entries }
      resumed.deliver stmt (entry.stream.reset limit) entry.cursor token cancelled
  | some limit, none =>
    let executed : Session Row := { s with cursors := s.cursors ++ [⟨sourceRows source, []⟩] }
    executed.deliver stmt { input := source, remaining := limit } s.cursors.length token cancelled
  | none, pageToken =>
    -- without LIMIT the statement is not paged
    match if cancelled then none else drainSource source with
    | none => some s
    | some rows =>
      let page : Page Row := ⟨stmt.query, pageToken, rows, none⟩
      some { s with cursors := s.cursors ++ [⟨rows, [page]⟩] }

def step (s : Session Row) : Action Row → Option (Session Row)
  | .run stmt source token cancelled => s.run stmt source token cancelled
  | .tick now => if s.now ≤ now then some { s with now := now } else none

/-! ## 5. Sound cursors and used tokens -/

/-- The rows of pages, one after another. -/
def pageRows (pages : List (Page Row)) : List Row := pages.flatMap (·.rows)

/-- Each page is the answer to the token that the page before it issued. -/
def Linked : Option String → List (Page Row) → Prop
  | _, [] => True
  | token, p :: pages => p.token = token ∧ (pages ≠ [] → p.issued ≠ none) ∧ Linked p.issued pages

/-- **Who follows the tokens gets the result.**  The pages are linked and for one query; their rows
are the first rows of the result, and all of it when the last page issues no token; a page that
issues one has rows, so there are no more pages than rows and one. -/
structure Cursor.Sound (c : Cursor Row) : Prop where
  linked : Linked none c.pages
  sameQuery : ∀ p ∈ c.pages, ∀ q ∈ c.pages, p.query = q.query
  delivered : pageRows c.pages <+: c.result
  complete : ∀ p, c.pages.getLast? = some p → p.issued = none → pageRows c.pages = c.result
  progress : ∀ p ∈ c.pages, p.issued ≠ none → p.rows ≠ []

/-- The tokens that pages were got with. -/
def Session.used (s : Session Row) : List String :=
  s.cursors.flatMap fun c => c.pages.filterMap (·.token)

/-- The tokens that pages issued. -/
def Session.issued (s : Session Row) : List String :=
  s.cursors.flatMap fun c => c.pages.filterMap (·.issued)

/-- The fingerprint is the query: the first ` PAGE TOKEN ` is where the clause begins. -/
def Statement.plain (stmt : Statement) : Prop :=
  findText pageTokenWords (stmt.sql.map Char.toUpper) =
      (if stmt.pageToken.isSome then some stmt.query.length else none) ∧
    (stmt.pageToken = none → stmt.clause = [])

instance (stmt : Statement) : Decidable stmt.plain := inferInstanceAs (Decidable (_ ∧ _))

/-- A token that is kept is taken by its query: the run gives the next page of its cursor. -/
def Session.Follows (s : Session Row) (token : String) (entry : Entry Row) : Prop :=
  ∃ c p, s.cursors[entry.cursor]? = some c ∧ c.pages.getLast? = some p ∧ p.issued = some token ∧
    ∀ stmt limit source fresh, stmt.plain → stmt.query = p.query → stmt.limit = some limit →
      stmt.pageToken = some token → s.entries.lookup fresh = none →
      ∃ s' rows issued, s.run stmt source fresh false = some s' ∧
        s'.cursors = addPage s.cursors entry.cursor ⟨stmt.query, some token, rows, issued⟩

/-- **The pages of a session.** -/
structure Session.Sound (s : Session Row) : Prop where
  cursors : ∀ c ∈ s.cursors, c.Sound
  once : s.used.Nodup
  issuedOnce : s.issued.Nodup
  follows : ∀ token entry, (cleanupExpired s.now s.entries).lookup token = some entry →
    none ∉ entry.stream.input → s.Follows token entry

/-- A plain statement, with a LIMIT if it has a token, no LIMIT 0, and a token that was not issued
before. -/
def orderly (s : Session Row) : Action Row → Prop
  | .run stmt _ token _ =>
    stmt.plain ∧ (stmt.pageToken.isSome = true → stmt.limit.isSome = true) ∧
      stmt.limit ≠ some 0 ∧ token ∉ s.issued
  | .tick _ => True

instance (s : Session Row) : DecidablePred (orderly s) := fun a =>
  match a with
  | .run _ _ _ _ => inferInstanceAs (Decidable (_ ∧ _))
  | .tick _ => isTrue trivial

/-! ## 6. What a page has -/

section Page

variable {s s' : PageStream Row} {rows : List Row}

/-- The rows that the stream has left. -/
def PageStream.rest (s : PageStream Row) : List Row :=
  (s.pending.getD []).drop s.offset ++ sourceRows s.input

/-- The offset is inside the pending batch. -/
def PageStream.Wf (s : PageStream Row) : Prop :=
  s.offset ≤ (s.pending.getD []).length

/-- How often the stream can still be asked for the next batch. -/
def PageStream.batches (s : PageStream Row) : Nat := s.input.length + s.pending.toList.length

theorem slice_spec (s : PageStream Row) (batch : List Row) (hoff : s.offset ≤ batch.length) :
    (s.slice batch).2.Wf ∧ (s.slice batch).2.input = s.input ∧
      (s.slice batch).1 ++ ((s.slice batch).2.pending.getD []).drop (s.slice batch).2.offset =
        batch.drop s.offset ∧
      (s.slice batch).2.remaining + (s.slice batch).1.length = s.remaining ∧
      ((s.slice batch).2.pending = none ∨ (s.slice batch).2.remaining = 0) := by
  have hcount : min (batch.length - s.offset) s.remaining ≤ batch.length - s.offset :=
    Nat.min_le_left _ _
  by_cases hall : s.offset + min (batch.length - s.offset) s.remaining = batch.length
  · rw [PageStream.slice, if_pos hall]
    refine ⟨Nat.zero_le _, rfl, ?_, ?_, .inl rfl⟩
    · have htake : (batch.drop s.offset).length ≤ min (batch.length - s.offset) s.remaining := by
        rw [length_drop]
        omega
      rw [take_of_length_le htake]
      exact append_nil _
    · simp only [List.length_take, length_drop]
      omega
  · rw [PageStream.slice, if_neg hall]
    refine ⟨?_, rfl, ?_, ?_, .inr ?_⟩
    · show s.offset + _ ≤ batch.length
      omega
    · show (batch.drop s.offset).take _ ++ batch.drop (s.offset + _) = batch.drop s.offset
      rw [← drop_drop, take_append_drop]
    · simp only [List.length_take, length_drop]
      omega
    · show s.remaining - _ = 0
      omega

/-- What `next` gives are the first rows that are left; the batch is done or the page is full. -/
theorem next_some (hwf : s.Wf) (h : s.next = some (some rows, s')) :
    s'.Wf ∧ rows ++ s'.rest = s.rest ∧ s'.remaining + rows.length = s.remaining ∧
      (s'.batches < s.batches ∨ s'.remaining = 0) ∧ (none ∉ s.input → none ∉ s'.input) := by
  rw [PageStream.next] at h
  split at h
  · cases h
  · cases hp : s.pending with
    | some batch =>
      rw [hp] at h
      simp only [Option.some.injEq, Prod.mk.injEq] at h
      obtain ⟨rfl, rfl⟩ := h
      have hoff : s.offset ≤ batch.length := by simpa [PageStream.Wf, hp] using hwf
      obtain ⟨hwf', hinput, hrest, hcount, hdone⟩ := slice_spec s batch hoff
      refine ⟨hwf', ?_, hcount, hdone.imp (fun hnone => ?_) id, fun hin => hinput ▸ hin⟩
      · rw [PageStream.rest, PageStream.rest, hp, hinput, ← append_assoc, hrest]
        rfl
      · rw [PageStream.batches, PageStream.batches, hp, hnone, hinput]
        exact Nat.lt_succ_self _
    | none =>
      obtain ⟨input, pending, offset, remaining⟩ := s
      obtain rfl : pending = none := hp
      obtain rfl : offset = 0 := Nat.le_zero.mp hwf
      cases input with
      | nil => cases h
      | cons x rest =>
        cases x with
        | none => cases h
        | some batch =>
          simp only [Option.some.injEq, Prod.mk.injEq] at h
          obtain ⟨rfl, rfl⟩ := h
          obtain ⟨hwf', hinput, hrest, hcount, hdone⟩ :=
            slice_spec ⟨rest, none, 0, remaining⟩ batch (Nat.zero_le _)
          refine ⟨hwf', ?_, hcount, hdone.imp (fun hnone => ?_) id, fun hin => ?_⟩
          · rw [PageStream.rest, PageStream.rest, hinput, ← append_assoc, hrest]
            rfl
          · rw [PageStream.batches, PageStream.batches, hnone, hinput]
            exact Nat.lt_succ_self _
          · rw [hinput]
            exact fun hmem => hin (mem_cons_of_mem _ hmem)

theorem next_none (h : s.next = some (none, s')) :
    s' = s ∧ (s.remaining = 0 ∨ s.rest = []) := by
  rw [PageStream.next] at h
  split at h
  · rename_i hfull
    simp only [Option.some.injEq, Prod.mk.injEq, true_and] at h
    exact ⟨h.symm, .inl hfull⟩
  · cases hp : s.pending with
    | some batch =>
      rw [hp] at h
      simp at h
    | none =>
      rw [hp] at h
      cases hin : s.input with
      | nil =>
        rw [hin] at h
        simp only [Option.some.injEq, Prod.mk.injEq, true_and] at h
        refine ⟨h.symm, .inr ?_⟩
        rw [PageStream.rest, hp, hin]
        exact append_nil _ ▸ drop_nil
      | cons x rest =>
        rw [hin] at h
        cases x <;> simp at h

/-- **A page has the first rows that are left, and all of them if it is not full.** -/
theorem drain_spec {fuel : Nat} (hwf : s.Wf) (h : s.drain fuel = some (rows, s')) :
    s'.Wf ∧ rows ++ s'.rest = s.rest ∧ s'.remaining + rows.length = s.remaining ∧
      (s'.remaining = 0 ∨ s'.rest = []) := by
  induction fuel generalizing s rows with
  | zero => cases h
  | succ fuel ih =>
    rw [PageStream.drain] at h
    cases hnext : s.next with
    | none =>
      rw [hnext] at h
      cases h
    | some r =>
      obtain ⟨r, m⟩ := r
      cases r with
      | none =>
        rw [hnext] at h
        obtain ⟨rfl, hdone⟩ := next_none hnext
        simp only [Option.some.injEq, Prod.mk.injEq] at h
        obtain ⟨rfl, rfl⟩ := h
        exact ⟨hwf, rfl, rfl, hdone⟩
      | some first =>
        rw [hnext] at h
        obtain ⟨hwf', hrest, hcount, -, -⟩ := next_some hwf hnext
        simp only [map_eq_some_iff, Prod.mk.injEq] at h
        obtain ⟨⟨more, m'⟩, hdrain, rfl, rfl⟩ := h
        obtain ⟨hwf'', hrest', hcount', hdone⟩ := ih hwf' hdrain
        refine ⟨hwf'', ?_, ?_, hdone⟩
        · rw [append_assoc, hrest', hrest]
        · have hlength : (first ++ more).length = first.length + more.length := length_append
          exact hlength ▸ by omega

theorem drain_isSome {fuel : Nat} (hwf : s.Wf) (hin : none ∉ s.input)
    (hfuel : s.batches < fuel ∨ s.remaining = 0 ∧ 0 < fuel) : (s.drain fuel).isSome := by
  induction fuel generalizing s with
  | zero => omega
  | succ fuel ih =>
    rw [PageStream.drain]
    cases hnext : s.next with
    | none =>
      rw [PageStream.next] at hnext
      split at hnext
      · cases hnext
      · cases hp : s.pending with
        | some batch =>
          rw [hp] at hnext
          cases hnext
        | none =>
          rw [hp] at hnext
          cases hinput : s.input with
          | nil =>
            rw [hinput] at hnext
            cases hnext
          | cons x rest =>
            rw [hinput] at hnext hin
            cases x with
            | none => exact absurd mem_cons_self hin
            | some batch => cases hnext
    | some r =>
      obtain ⟨r, m⟩ := r
      cases r with
      | none => rfl
      | some first =>
        obtain ⟨hwf', -, hcount, hless, hin'⟩ := next_some hwf hnext
        have hopen : s.remaining ≠ 0 := by
          intro hfull
          rw [PageStream.next, if_pos hfull] at hnext
          cases hnext
        have hbatches : s.batches < fuel + 1 := by omega
        have hsome : 0 < s.batches := by
          by_contra hzero
          have hnone : s.pending = none ∧ s.input = [] := by
            have hz : s.input.length + s.pending.toList.length = 0 := by
              have := hzero
              rw [PageStream.batches] at this
              omega
            refine ⟨?_, length_eq_zero_iff.mp (by omega)⟩
            cases hp : s.pending with
            | none => rfl
            | some batch => simp [hp] at hz
          rw [PageStream.next, if_neg hopen, hnone.1, hnone.2] at hnext
          cases hnext
        have hmore := ih hwf' (hin' hin) (by omega)
        rw [isSome_map]
        exact hmore

theorem page_isSome (hwf : s.Wf) (hin : none ∉ s.input) : s.page.isSome := by
  refine drain_isSome hwf hin (.inl ?_)
  rw [PageStream.batches]
  cases s.pending with
  | none => exact Nat.lt_add_of_pos_right Nat.two_pos
  | some batch => exact Nat.lt_succ_self _

end Page

/-! ## 7. The invariant -/

section Invariant

variable {s s' : Session Row} {stmt : Statement} {i : Nat} {c : Cursor Row} {p : Page Row}
  {token : String}

theorem fingerprint_plain (h : stmt.plain) : queryFingerprint stmt.sql = stmt.query := by
  obtain ⟨hfind, hclause⟩ := h
  rw [queryFingerprint, hfind]
  cases htoken : stmt.pageToken with
  | none => exact (congrArg (stmt.query ++ ·) (hclause htoken)).trans (append_nil _)
  | some token => exact take_left

theorem addPage_eq (h : s.cursors[i]? = some c) (p : Page Row) :
    addPage s.cursors i p = s.cursors.set i { c with pages := c.pages ++ [p] } := by
  rw [addPage, h]

theorem linked_append {pages : List (Page Row)} {first : Option String} {q : Page Row}
    (h : Linked first pages) (hlast : pages.getLast? = some q) (hq : q.issued ≠ none)
    (hp : p.token = q.issued) : Linked first (pages ++ [p]) := by
  induction pages generalizing first with
  | nil => cases hlast
  | cons x pages ih =>
    obtain ⟨hx, hmore, hrest⟩ := h
    cases pages with
    | nil =>
      obtain rfl := some.inj hlast
      exact ⟨hx, fun _ => hq, hp, fun hne => absurd rfl hne, trivial⟩
    | cons y pages =>
      rw [List.getLast?_cons_cons] at hlast
      exact ⟨hx, fun _ => hmore (cons_ne_nil _ _), ih hrest hlast⟩

/-- What an entry has: the rest of the stream of its cursor, whose last page issued its token. -/
def EntryOk (cursors : List (Cursor Row)) (token : String) (entry : Entry Row) : Prop :=
  ∃ c p, cursors[entry.cursor]? = some c ∧ c.pages.getLast? = some p ∧ p.issued = some token ∧
    entry.fingerprint = p.query ∧ pageRows c.pages ++ entry.stream.rest = c.result ∧
    entry.stream.Wf

/-- What holds in every state of an orderly session. -/
structure Inv (s : Session Row) : Prop where
  cursors : ∀ c ∈ s.cursors, c.Sound
  entries : ∀ x ∈ s.entries, EntryOk s.cursors x.1 x.2
  unused : ∀ x ∈ s.entries, x.1 ∉ s.used
  usedIssued : ∀ t ∈ s.used, t ∈ s.issued
  once : s.used.Nodup
  issuedOnce : s.issued.Nodup

theorem Inv.forget (h : Inv s) {entries : Registry Row} (hsub : entries ⊆ s.entries) :
    Inv { s with entries := entries } :=
  ⟨h.cursors, fun x hx => h.entries x (hsub hx), fun x hx => h.unused x (hsub hx), h.usedIssued,
    h.once, h.issuedOnce⟩

variable {entry : Entry Row}

theorem EntryOk.issued {cursors : List (Cursor Row)} (h : EntryOk cursors token entry) :
    token ∈ cursors.flatMap fun c => c.pages.filterMap (·.issued) := by
  obtain ⟨c, p, hc, hp, hissued, -⟩ := h
  exact mem_flatMap.mpr ⟨c, mem_of_getElem? hc,
    mem_filterMap.mpr ⟨p, mem_of_getLast? hp, hissued⟩⟩

theorem Inv.execute (h : Inv s) (hc : c.Sound) (hused : c.pages.filterMap (·.token) = [])
    (hissued : c.pages.filterMap (·.issued) = []) :
    Inv { s with cursors := s.cursors ++ [c] } := by
  have husedEq : Session.used { s with cursors := s.cursors ++ [c] } = s.used := by
    simp [Session.used, hused]
  have hissuedEq : Session.issued { s with cursors := s.cursors ++ [c] } = s.issued := by
    simp [Session.issued, hissued]
  refine ⟨fun d hd => ?_, fun x hx => ?_, fun x hx => ?_, ?_, ?_, ?_⟩
  · rcases mem_append.mp hd with hd | hd
    · exact h.cursors d hd
    · exact mem_singleton.mp hd ▸ hc
  · obtain ⟨d, p, hd, hrest⟩ := h.entries x hx
    exact ⟨d, p, List.getElem?_append_left (List.getElem?_eq_some_iff.mp hd).1 ▸ hd, hrest⟩
  · exact husedEq ▸ h.unused x hx
  · rw [husedEq, hissuedEq]
    exact h.usedIssued
  · exact husedEq ▸ h.once
  · exact hissuedEq ▸ h.issuedOnce

theorem flatMap_addPage {f : Page Row → Option String} (hc : s.cursors[i]? = some c) :
    ((addPage s.cursors i p).flatMap fun c => c.pages.filterMap f).Perm
      ((s.cursors.flatMap fun c => c.pages.filterMap f) ++ (f p).toList) := by
  have hset := flatMap_replace hc { c with pages := c.pages ++ [p] }
    fun c : Cursor Row => c.pages.filterMap f
  rw [addPage_eq hc]
  refine (perm_append_right_iff (c.pages.filterMap f)).mp (hset.trans ?_)
  have hpages : (c.pages ++ [p]).filterMap f = c.pages.filterMap f ++ (f p).toList := by
    rw [filterMap_append]
    cases hfp : f p <;> simp [hfp]
  rw [hpages, append_assoc]
  exact perm_append_comm.append_left _

/-- **A page of a cursor**, whose entry is gone. -/
theorem Inv.addPage (h : Inv s) (hc : s.cursors[i]? = some c)
    (hsound : Cursor.Sound { c with pages := c.pages ++ [p] })
    (htoken : ∀ t, p.token = some t → t ∉ s.used ∧ t ∈ s.issued ∧ ∀ x ∈ s.entries, x.1 ≠ t)
    (hissued : ∀ t, p.issued = some t → t ∉ s.issued) (hfree : ∀ x ∈ s.entries, x.2.cursor ≠ i) :
    Inv { s with cursors := addPage s.cursors i p } := by
  have hused : Session.used { s with cursors := InteractivePages.addPage s.cursors i p } |>.Perm
      (s.used ++ p.token.toList) := flatMap_addPage hc
  have hissuedPerm :
      Session.issued { s with cursors := InteractivePages.addPage s.cursors i p } |>.Perm
        (s.issued ++ p.issued.toList) := flatMap_addPage hc
  refine ⟨fun d hd => ?_, fun x hx => ?_, fun x hx hmem => ?_, fun t ht => ?_, ?_, ?_⟩
  · rw [addPage_eq hc] at hd
    rcases mem_or_eq_of_mem_set hd with hd | rfl
    · exact h.cursors d hd
    · exact hsound
  · obtain ⟨d, q, hd, hrest⟩ := h.entries x hx
    refine ⟨d, q, ?_, hrest⟩
    show (InteractivePages.addPage s.cursors i p)[x.2.cursor]? = some d
    rw [addPage_eq hc, List.getElem?_set_ne (Ne.symm (hfree x hx))]
    exact hd
  · rcases mem_append.mp (hused.mem_iff.mp hmem) with hmem | hmem
    · exact h.unused x hx hmem
    · exact (htoken x.1 (mem_toList.mp hmem)).2.2 x hx rfl
  · rw [hissuedPerm.mem_iff]
    rcases mem_append.mp (hused.mem_iff.mp ht) with ht | ht
    · exact mem_append_left _ (h.usedIssued t ht)
    · exact mem_append_left _ (htoken t (mem_toList.mp ht)).2.1
  · rw [hused.nodup_iff, List.nodup_append]
    refine ⟨h.once, ?_, fun a ha b hb hab => ?_⟩
    · cases p.token <;> simp
    · exact (htoken b (mem_toList.mp hb)).1 (hab ▸ ha)
  · rw [hissuedPerm.nodup_iff, List.nodup_append]
    refine ⟨h.issuedOnce, ?_, fun a ha b hb hab => ?_⟩
    · cases p.issued <;> simp
    · exact hissued b (mem_toList.mp hb) (hab ▸ ha)

theorem Inv.store (h : Inv s) (hok : EntryOk s.cursors token entry) (hunused : token ∉ s.used) :
    Inv { s with entries := put s.entries token entry } := by
  have hcases : ∀ x ∈ put s.entries token entry, x = (token, entry) ∨ x ∈ s.entries := by
    intro x hx
    rcases mem_cons.mp hx with rfl | hx
    · exact .inl rfl
    · exact .inr (mem_of_mem_filter hx)
  refine ⟨h.cursors, fun x hx => ?_, fun x hx => ?_, h.usedIssued, h.once, h.issuedOnce⟩
  · rcases hcases x hx with rfl | hx
    · exact hok
    · exact h.entries x hx
  · rcases hcases x hx with rfl | hx
    · exact hunused
    · exact h.unused x hx

/-- **The next page of a cursor**: the first rows that were left. -/
theorem Cursor.Sound.next (h : c.Sound) {rest : List Row}
    (hrest : pageRows c.pages ++ (p.rows ++ rest) = c.result)
    (hdone : p.issued = none → rest = []) (hprogress : p.issued ≠ none → p.rows ≠ [])
    (hlink : c.pages = [] ∧ p.token = none ∨ ∃ q, c.pages.getLast? = some q ∧ q.issued ≠ none ∧
      p.token = q.issued ∧ p.query = q.query) :
    Cursor.Sound { c with pages := c.pages ++ [p] } := by
  have hpages : pageRows (c.pages ++ [p]) = pageRows c.pages ++ p.rows := by
    simp [pageRows]
  refine ⟨?_, fun a ha b hb => ?_, ?_, fun q hq hnone => ?_, fun q hq hsome => ?_⟩
  · rcases hlink with ⟨hnil, htoken⟩ | ⟨q, hlast, hq, htoken, -⟩
    · rw [hnil]
      exact ⟨htoken, fun hne => absurd rfl hne, trivial⟩
    · exact linked_append h.linked hlast hq htoken
  · have hquery : ∀ a ∈ c.pages ++ [p], a.query = p.query := by
      intro a ha
      rcases mem_append.mp ha with ha | ha
      · rcases hlink with ⟨hnil, -⟩ | ⟨q, hlast, -, -, hquery⟩
        · rw [hnil] at ha
          cases ha
        · exact (h.sameQuery a ha q (mem_of_getLast? hlast)).trans hquery.symm
      · rw [mem_singleton.mp ha]
    exact (hquery a ha).trans (hquery b hb).symm
  · rw [hpages]
    exact ⟨rest, by rw [append_assoc, hrest]⟩
  · rw [List.getLast?_concat] at hq
    obtain rfl := some.inj hq
    rw [hpages, ← hrest, hdone hnone, append_nil]
  · rcases mem_append.mp hq with hq | hq
    · exact h.progress q hq hsome
    · obtain rfl := mem_singleton.mp hq
      exact hprogress hsome

/-- **A page is delivered.** -/
theorem Inv.deliver (h : Inv s) (hplain : stmt.plain) {stream : PageStream Row}
    {cancelled : Bool} (hc : s.cursors[i]? = some c)
    (hrest : pageRows c.pages ++ stream.rest = c.result) (hwf : stream.Wf)
    (hopen : stream.remaining ≠ 0)
    (hlink : c.pages = [] ∧ stmt.pageToken = none ∨ ∃ q, c.pages.getLast? = some q ∧
      q.issued ≠ none ∧ stmt.pageToken = q.issued ∧ stmt.query = q.query)
    (htoken : ∀ t, stmt.pageToken = some t →
      t ∉ s.used ∧ t ∈ s.issued ∧ ∀ x ∈ s.entries, x.1 ≠ t)
    (hfree : ∀ x ∈ s.entries, x.2.cursor ≠ i) (hfresh : token ∉ s.issued)
    (hs : s.deliver stmt stream i token cancelled = some s') : Inv s' := by
  rw [Session.deliver] at hs
  cases hpage : (if cancelled then none else stream.page) with
  | none =>
    rw [hpage] at hs
    exact some.inj hs ▸ h
  | some r =>
    obtain ⟨rows, left⟩ := r
    rw [hpage] at hs
    have hdrain : stream.page = some (rows, left) := by
      cases cancelled with
      | true => cases hpage
      | false => exact hpage
    obtain ⟨hwf', hrows, hcount, hdone⟩ := drain_spec hwf hdrain
    by_cases hfull : left.pageFull
    · simp only [hfull, if_true] at hs
      split at hs
      · cases hs
      · obtain rfl := some.inj hs
        have hzero : left.remaining = 0 := by simpa [PageStream.pageFull] using hfull
        have hne : rows ≠ [] := by
          rintro rfl
          exact hopen (hcount.symm.trans hzero)
        have hforget := h.forget (fun x hx => mem_of_mem_filter hx :
          cleanupExpired s.now s.entries ⊆ s.entries)
        have hnext : Cursor.Sound { c with
            pages := c.pages ++ [⟨stmt.query, stmt.pageToken, rows, some token⟩] } :=
          (h.cursors c (mem_of_getElem? hc)).next (hrows ▸ hrest) (fun hn => by cases hn)
            (fun _ => hne) hlink
        have hadd := hforget.addPage hc hnext
          (fun t ht => ⟨(htoken t ht).1, (htoken t ht).2.1, fun x hx =>
            (htoken t ht).2.2 x (mem_of_mem_filter hx)⟩)
          (fun t ht => some.inj ht ▸ hfresh)
          (fun x hx => hfree x (mem_of_mem_filter hx))
        refine hadd.store ⟨{ c with pages := c.pages ++ [_] },
          ⟨stmt.query, stmt.pageToken, rows, some token⟩, ?_, List.getLast?_concat, rfl,
          fingerprint_plain hplain, ?_, hwf'⟩ fun hused => ?_
        · show (InteractivePages.addPage s.cursors i _)[i]? = _
          rw [addPage_eq hc, List.getElem?_set_self (List.getElem?_eq_some_iff.mp hc).1]
        · rw [← hrest, ← hrows]
          simp [pageRows]
        · have hperm := (flatMap_addPage (f := (·.token)) hc).mem_iff.mp hused
          rcases mem_append.mp hperm with hused | htaken
          · exact hfresh (h.usedIssued token hused)
          · exact hfresh (htoken token (mem_toList.mp htaken)).2.1
    · simp only [hfull] at hs
      obtain rfl := some.inj hs
      have hleft : left.rest = [] := by
        refine hdone.resolve_left fun hzero => hfull ?_
        simpa [PageStream.pageFull] using hzero
      have hnext : Cursor.Sound { c with
          pages := c.pages ++ [⟨stmt.query, stmt.pageToken, rows, none⟩] } :=
        (h.cursors c (mem_of_getElem? hc)).next (hrows ▸ hrest) (fun _ => hleft)
          (fun hn => absurd rfl hn) hlink
      exact h.addPage hc hnext htoken (fun t ht => by cases ht) hfree

theorem takeEntry_ok {now : Nat} {entries left : Registry Row} {fingerprint : List Char}
    (h : takeEntry now entries token fingerprint = .ok (entry, left)) :
    (token, entry) ∈ entries ∧ entry.fingerprint = fingerprint ∧
      left = remove (cleanupExpired now entries) token := by
  simp only [takeEntry] at h
  cases hfound : (cleanupExpired now entries).lookup token with
  | none =>
    rw [hfound] at h
    cases h
  | some found =>
    rw [hfound] at h
    simp only [ne_eq, ite_not] at h
    split at h
    · rename_i hsame
      obtain ⟨rfl, rfl⟩ := Prod.mk.inj (Except.ok.inj h)
      exact ⟨mem_of_mem_filter (mem_of_lookup hfound), hsame, rfl⟩
    · cases h

/-- **An orderly step keeps the invariant.** -/
theorem Inv.step {a : Action Row} (h : Inv s) (hok : orderly s a) (hs : step s a = some s') :
    Inv s' := by
  cases a with
  | tick now =>
    rw [InteractivePages.step] at hs
    split at hs
    · obtain rfl := some.inj hs
      exact ⟨h.cursors, h.entries, h.unused, h.usedIssued, h.once, h.issuedOnce⟩
    · cases hs
  | run stmt source token cancelled =>
    obtain ⟨hplain, hlimited, hlimit, hfresh⟩ := hok
    rw [InteractivePages.step, Session.run] at hs
    cases hl : stmt.limit with
    | some limit =>
      have hopen : limit ≠ 0 := fun hzero => hlimit (hl.trans (congrArg some hzero))
      cases ht : stmt.pageToken with
      | some pageToken =>
        rw [hl, ht] at hs
        simp only at hs
        cases htake : takeEntry s.now s.entries pageToken (queryFingerprint stmt.sql) with
        | error message =>
          rw [htake] at hs
          obtain rfl := some.inj hs
          exact h.forget fun x hx => mem_of_mem_filter hx
        | ok r =>
          obtain ⟨entry, left⟩ := r
          rw [htake] at hs
          obtain ⟨hentry, hprint, rfl⟩ := takeEntry_ok htake
          obtain ⟨c, p, hc, hlast, hissued, hquery, hrest, hwf⟩ := h.entries _ hentry
          have hleft : ∀ x ∈ remove (cleanupExpired s.now s.entries) pageToken,
              x ∈ s.entries ∧ x.1 ≠ pageToken := by
            intro x hx
            obtain ⟨hx, hne⟩ := mem_filter.mp hx
            exact ⟨mem_of_mem_filter hx, of_decide_eq_true hne⟩
          have hreset : pageRows c.pages ++ (entry.stream.reset limit).rest = c.result := hrest
          refine (h.forget fun x hx => (hleft x hx).1).deliver hplain hc hreset hwf hopen
            (.inr ⟨p, hlast, hissued ▸ some_ne_none _, ht.trans hissued.symm, ?_⟩)
            (fun t htok => ?_) (fun x hx hsame => ?_) hfresh hs
          · rw [← hquery, hprint, fingerprint_plain hplain]
          · obtain rfl := some.inj (ht.symm.trans htok)
            exact ⟨h.unused _ hentry, (h.entries _ hentry).issued, fun x hx => (hleft x hx).2⟩
          · -- two entries of one cursor have the token of its last page
            obtain ⟨d, q, hd, hq, hqi, -⟩ := h.entries x (hleft x hx).1
            rw [hsame, hc] at hd
            obtain rfl := some.inj hd
            obtain rfl := some.inj (hlast.symm.trans hq)
            exact (hleft x hx).2 (some.inj (hqi.symm.trans hissued))
      | none =>
        rw [hl, ht] at hs
        simp only at hs
        have hnew : Cursor.Sound (⟨sourceRows source, []⟩ : Cursor Row) :=
          ⟨trivial, fun p hp => absurd hp not_mem_nil, nil_prefix,
            fun p hp => absurd hp (some_ne_none p).symm,
            fun p hp => absurd hp not_mem_nil⟩
        refine (h.execute hnew rfl rfl).deliver hplain (List.getElem?_concat_length) rfl
          (Nat.le_refl _) hopen (.inl ⟨rfl, ht⟩) (fun t htok => ?_) (fun x hx hsame => ?_) ?_ hs
        · rw [ht] at htok
          cases htok
        · obtain ⟨d, q, hd, -⟩ := h.entries x hx
          rw [hsame, List.getElem?_eq_none (Nat.le_refl _)] at hd
          cases hd
        · simpa [Session.issued] using hfresh
    | none =>
      cases ht : stmt.pageToken with
      | some pageToken =>
        have := hlimited (by rw [ht]; rfl)
        rw [hl] at this
        cases this
      | none =>
        rw [hl, ht] at hs
        simp only at hs
        split at hs
        · exact some.inj hs ▸ h
        · rename_i rows hrows
          obtain rfl := some.inj hs
          refine h.execute ⟨⟨rfl, fun hne => absurd rfl hne, trivial⟩, fun p hp q hq => ?_, ?_,
            fun p hp _ => ?_, fun p hp hsome => ?_⟩ rfl rfl
          · rw [mem_singleton.mp hp, mem_singleton.mp hq]
          · simp [pageRows]
          · simp [pageRows]
          · rw [mem_singleton.mp hp] at hsome
            exact absurd rfl hsome

theorem Inv.follows (h : Inv s)
    (hlookup : (cleanupExpired s.now s.entries).lookup token = some entry)
    (hin : none ∉ entry.stream.input) : s.Follows token entry := by
  have hmem : (token, entry) ∈ s.entries := mem_of_mem_filter (mem_of_lookup hlookup)
  obtain ⟨c, p, hc, hlast, hissued, hquery, -, hwf⟩ := h.entries _ hmem
  refine ⟨c, p, hc, hlast, hissued, fun stmt limit source fresh hplain hsame hlimit htok hnew => ?_⟩
  have htake : takeEntry s.now s.entries token (queryFingerprint stmt.sql) =
      .ok (entry, remove (cleanupExpired s.now s.entries) token) := by
    have hprint : entry.fingerprint = queryFingerprint stmt.sql := by
      rw [fingerprint_plain hplain, hsame, hquery]
    simp only [takeEntry, hlookup, hprint, ne_eq, not_true_eq_false, if_false]
  have hreset : (entry.stream.reset limit).Wf := hwf
  obtain ⟨⟨rows, left⟩, hpage⟩ := isSome_iff_exists.mp (page_isSome hreset hin)
  have hfree : (cleanupExpired s.now
      (remove (cleanupExpired s.now s.entries) token)).lookup fresh = none := by
    rw [lookup_eq_none_iff] at hnew ⊢
    exact fun x hx => hnew x (mem_of_mem_filter (mem_of_mem_filter
      (mem_of_mem_filter hx)))
  rw [Session.run, hlimit, htok]
  simp only [htake, Session.deliver, Bool.false_eq_true, if_false, hpage, hfree, isSome_none]
  cases left.pageFull with
  | true => exact ⟨_, rows, some fresh, rfl, by rw [htok]⟩
  | false => exact ⟨_, rows, none, rfl, by rw [htok]⟩

theorem inv_new (idleTimeout : Nat) : Inv ({ idleTimeout := idleTimeout } : Session Row) :=
  ⟨fun _ hc => absurd hc not_mem_nil, fun _ hx => absurd hx not_mem_nil,
    fun _ hx => absurd hx not_mem_nil, fun _ ht => absurd ht not_mem_nil, nodup_nil,
    nodup_nil⟩

/-! ## 8. Sessions -/

/-- **The pages of an orderly session are sound**: what a user gets who follows the tokens.  The
fingerprint must cut every statement at its clause, a statement with a token must have a LIMIT, and
none a LIMIT 0; otherwise a token gives the rows of another query, a used token gives rows, or a
result never comes (`pages_not_sound`). -/
theorem pages_of_orderly (idleTimeout : Nat) {s : Session Row}
    (hrun : Runs InteractivePages.step orderly { idleTimeout := idleTimeout } s) : s.Sound := by
  have hinv : Inv s := hrun.keeps (fun _ _ _ h hok hs => h.step hok hs) (inv_new idleTimeout)
  exact ⟨hinv.cursors, hinv.once, hinv.issuedOnce, fun _ _ hlookup hin => hinv.follows hlookup hin⟩

end Invariant

/-- A statement of the REPL: a query with a LIMIT, and maybe a token. -/
def statement (query : String) (limit : Nat) (pageToken : Option String) : Statement :=
  { query := query.toList
    clause := pageToken.elim [] fun token => (" PAGE TOKEN '" ++ token ++ "'").toList
    limit := some limit, pageToken := pageToken }

/-- Three rows come in two pages, the second by the token of the first. -/
theorem pages_followed : ∃ s : Session Nat,
    Runs step orderly { idleTimeout := 300 } s ∧ s.Sound ∧
      (s.cursors.map fun c => (c.result, pageRows c.pages)) = [([1, 2, 3], [1, 2, 3])] := by
  have hrun : Runs step orderly ({ idleTimeout := 300 } : Session Nat) _ := Runs.of_exec
    [.run (statement "SELECT a FROM t LIMIT 2" 2 none) [some [1], some [2, 3]] "p9:1" false,
      .run (statement "SELECT a FROM t LIMIT 2" 2 (some "p9:1")) [] "p9:2" false] rfl
  exact ⟨_, hrun, pages_of_orderly 300 hrun, rfl⟩

/-- **Not in every session**: the words of the clause inside a literal hide the rest of a query from
its fingerprint, a statement without LIMIT does not look at its token, and with LIMIT 0 every page
is full and empty. -/
theorem pages_not_sound :
    (∃ s : Session Nat, Runs step anyStep { idleTimeout := 300 } s ∧
      ∃ c ∈ s.cursors, ∃ p ∈ c.pages, ∃ q ∈ c.pages, p.query ≠ q.query) ∧
    (∃ s : Session Nat, Runs step anyStep { idleTimeout := 300 } s ∧ ¬ s.used.Nodup) ∧
    ∃ s : Session Nat, Runs step anyStep { idleTimeout := 300 } s ∧
      ∃ c ∈ s.cursors, ∃ p ∈ c.pages, p.issued ≠ none ∧ p.rows = [] := by
  refine ⟨⟨_, Runs.of_exec
      [.run (statement "SELECT a FROM t WHERE b = 'x PAGE TOKEN y' LIMIT 1" 1 none)
          [some [1, 2]] "p9:1" false,
        .run (statement "SELECT a FROM t WHERE b = 'x PAGE TOKEN z' LIMIT 1" 1 (some "p9:1"))
          [] "p9:2" false] rfl, ?_⟩,
    ⟨_, Runs.of_exec
      [.run { statement "SELECT a FROM t" 1 (some "p9:1") with limit := none }
          [some [1]] "p9:2" false,
        .run { statement "SELECT a FROM t" 1 (some "p9:1") with limit := none }
          [some [1]] "p9:3" false] rfl, by decide⟩,
    ⟨_, Runs.of_exec [.run (statement "SELECT a FROM t LIMIT 0" 0 none) [some [1]] "p9:1" false]
      rfl, ?_⟩⟩
  · exact ⟨_, mem_singleton_self _, _, mem_cons_self, _,
      mem_cons_of_mem _ mem_cons_self, by decide⟩
  · exact ⟨_, mem_singleton_self _, _, mem_singleton_self _,
      some_ne_none _, rfl⟩

end MldpDriver.Query.InteractivePages

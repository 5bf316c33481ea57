/-
# Paged scans of the annotation service

The tables `mldp.pv_metadata`, `mldp.configuration` and `mldp.configuration_activation` are read
page by page.  A page is one RPC; the service answers with records and the token of the next page.
`queryAllPages` collects all pages before it builds a batch, `AnnotationPagedRecordBatchStream`
builds a batch for each page.
-/
import Mathlib.Algebra.Group.Nat.Defs
import Mathlib.Data.List.Basic

namespace MldpDriver.Query.Annotation

open List Option

/-! ## 1. The service

The answers of the service and the cancellation of the query are given by a `Backend`, call by
call.  A batch is modelled by the records it is built from. -/

section Model

variable {R : Type}

structure PageRequest where
  limit : Nat
  pageToken : String

/-- How an RPC ends: with an exception before it is made, with a status that is not OK, with a
response that holds no result, or with a page. -/
inductive Reply (R : Type)
  | exception (what : String)
  | rpcError (message : String)
  | noResult
  | page (records : List R) (nextPageToken : String)

/-- An RPC, and whether the query is found cancelled right after it and by the loop. -/
structure Turn (R : Type) where
  reply : Reply R
  cancelledDuring : Bool := false
  cancelledAfter : Bool := false

/-- What the `n`-th turn of the loop meets: whether the query is cancelled before it, and the
RPC. -/
structure Backend (R : Type) where
  cancelled : Nat → Bool
  serve : Nat → PageRequest → Turn R

inductive Failure
  | cancelled
  | exception (what : String)
  deriving DecidableEq

/-- What the client makes of an RPC: the records and the token of the next page. -/
def pageResult (turn : Turn R) : Except Failure (List R × String) :=
  match turn.reply with
  | .exception what => if turn.cancelledDuring then .error (.exception what) else .ok ([], "")
  | .rpcError _ => if turn.cancelledDuring then .error .cancelled else .ok ([], "")
  | .noResult => if turn.cancelledDuring then .error .cancelled else .ok ([], "")
  | .page records token =>
    if turn.cancelledDuring then .error .cancelled else .ok (records, token)

/-- The line it logs. -/
def pageLog (name : String) (turn : Turn R) : Option String :=
  if turn.cancelledDuring then none
  else
    match turn.reply with
    | .exception what => some (name ++ " exception: " ++ what)
    | .rpcError message => some (name ++ " failed: " ++ message)
    | _ => none

/-- The shape of the three query functions. -/
def queryPage (name : String) (turn : Turn R) :
    Except Failure (List R × String) × Option String :=
  (pageResult turn, pageLog name turn)

def queryPvMetadata (turn : Turn R) := queryPage "queryPvMetadata" turn

def queryConfigurations (turn : Turn R) := queryPage "queryConfigurations" turn

def queryConfigurationActivations (turn : Turn R) :=
  queryPage "queryConfigurationActivations" turn

/-- The tables that are scanned in pages. -/
inductive Table
  | pvMetadata
  | configuration
  | configurationActivation

def Table.query : Table → Turn R → Except Failure (List R × String)
  | .pvMetadata, turn => (queryPvMetadata turn).1
  | .configuration, turn => (queryConfigurations turn).1
  | .configurationActivation, turn => (queryConfigurationActivations turn).1

/-! ## 2. The two loops -/

/-- `pageRequestLimit`. -/
def pageRequestLimit (pageSize remaining : Nat) : Nat :=
  if remaining = 0 then pageSize
  else min (if pageSize ≠ 0 then min pageSize remaining else remaining) (2 ^ 32 - 1)

/-- What a scan takes from its `ExecutionContext` and its projection hint. -/
structure ScanContext where
  joinBatchSize : Nat
  scanRowLimit : Nat
  scanProjectionExplicit : Bool
  projectionHint : List String

/-- The request of a page, after `got` rows. -/
def pageRequest (context : ScanContext) (token : String) (got : Nat) : PageRequest where
  limit := pageRequestLimit context.joinBatchSize
    (if context.scanRowLimit ≠ 0 then context.scanRowLimit - got else 0)
  pageToken := token

/-- The row limit is reached. -/
def Full (context : ScanContext) (got : Nat) : Prop :=
  context.scanRowLimit ≠ 0 ∧ context.scanRowLimit ≤ got

instance (context : ScanContext) (got : Nat) : Decidable (Full context got) :=
  inferInstanceAs (Decidable (_ ∧ _))

/-- `queryAllPages`, for at most `fuel` turns. -/
def queryAllPages (query : Turn R → Except Failure (List R × String)) (backend : Backend R)
    (context : ScanContext) : Nat → Nat → String → List R → Option (Except Failure (List R))
  | 0, _, _, _ => none
  | fuel + 1, n, token, records =>
    if backend.cancelled n then some (.error .cancelled)
    else
      let turn := backend.serve n (pageRequest context token records.length)
      match query turn with
      | .error e => some (.error e)
      | .ok (page, nextPageToken) =>
        if turn.cancelledAfter then some (.error .cancelled)
        else
          let records := records ++ page
          if Full context records.length then some (.ok (records.take context.scanRowLimit))
          else if nextPageToken = "" then some (.ok records)
          else queryAllPages query backend context fuel (n + 1) nextPageToken records

/-- The state of an `AnnotationPagedRecordBatchStream`; `turns` counts the turns of its loop. -/
structure PagedStream where
  turns : Nat := 0
  pageToken : String := ""
  emitted : Nat := 0
  done : Bool := false

/-- What is left of a page under the row limit. -/
def resize (context : ScanContext) (emitted : Nat) (page : List R) : List R :=
  if context.scanRowLimit ≠ 0 ∧ context.scanRowLimit < emitted + page.length then
    page.take (context.scanRowLimit - emitted)
  else page

/-- `AnnotationPagedRecordBatchStream::next`, for at most `fuel` turns. -/
def next (query : Turn R → Except Failure (List R × String)) (backend : Backend R)
    (context : ScanContext) :
    Nat → PagedStream → Option (Except Failure (Option (List R)) × PagedStream)
  | 0, _ => none
  | fuel + 1, s =>
    if s.done then some (.ok none, s)
    else if backend.cancelled s.turns then some (.error .cancelled, s)
    else if Full context s.emitted then some (.ok none, { s with done := true })
    else
      let turn := backend.serve s.turns (pageRequest context s.pageToken s.emitted)
      match query turn with
      | .error e => some (.error e, s)
      | .ok (page, nextPageToken) =>
        if turn.cancelledAfter then some (.error .cancelled, s)
        else
          let page := resize context s.emitted page
          let s := { s with
            turns := s.turns + 1
            pageToken := if nextPageToken = "" then s.pageToken else nextPageToken
            emitted := s.emitted + page.length
            done := decide (nextPageToken = "") }
          if page = [] then next query backend context fuel s else some (.ok (some page), s)

/-- What the consumer of a stream makes of one `next`; `rest` are the calls after it. -/
def consume (rest : PagedStream → Option (Except Failure (List (List R)))) :
    Except Failure (Option (List R)) × PagedStream → Option (Except Failure (List (List R)))
  | (.error e, _) => some (.error e)
  | (.ok none, _) => some (.ok [])
  | (.ok (some page), s) => (rest s).map (Except.map (page :: ·))

/-- The batches that the consumer of a stream gets, until the stream ends or fails. -/
def drain (query : Turn R → Except Failure (List R × String)) (backend : Backend R)
    (context : ScanContext) (fuel : Nat) :
    Nat → PagedStream → Option (Except Failure (List (List R)))
  | 0, _ => none
  | k + 1, s =>
    (next query backend context fuel s).bind (consume (drain query backend context fuel k))

/-- `runAnnotationScan`: the batches of the scan. -/
def runAnnotationScan (table : Table) (backend : Backend R) (context : ScanContext) (fuel : Nat) :
    Option (Except Failure (List (List R))) :=
  if context.scanProjectionExplicit && !context.projectionHint.contains "attributes" then
    drain table.query backend context fuel fuel {}
  else (queryAllPages table.query backend context fuel 0 "" []).map (Except.map ([·]))

/-! ## 3. The conversation

`Talk` is the conversation with the service, apart from both loops: its pages and how it ends. -/

/-- The RPC gives no page. -/
def Reply.failed : Reply R → Bool
  | .page .. => false
  | _ => true

/-- How a conversation ends: with its last page or at the row limit, with a failed RPC, or by a
cancellation. -/
inductive Ending
  | complete
  | failed
  | cancelled

/-- Nobody cancels the query around this turn. -/
structure Calm (backend : Backend R) (context : ScanContext) (n : Nat) (token : String)
    (got : Nat) : Prop where
  before : backend.cancelled n = false
  during : (backend.serve n (pageRequest context token got)).cancelledDuring = false
  after : (backend.serve n (pageRequest context token got)).cancelledAfter = false

/-- The pages of the conversation from its `n`-th turn, `got` rows in, and its end. -/
inductive Talk (backend : Backend R) (context : ScanContext) :
    Nat → String → Nat → List (List R) → Ending → Prop
  | cancelled {n : Nat} {token : String} {got : Nat}
      (hcancelled : ¬ Calm backend context n token got) :
      Talk backend context n token got [] .cancelled
  | failed {n : Nat} {token : String} {got : Nat} (hcalm : Calm backend context n token got)
      (hreply : (backend.serve n (pageRequest context token got)).reply.failed = true) :
      Talk backend context n token got [] .failed
  | last {n : Nat} {token : String} {got : Nat} {page : List R} {nextPageToken : String}
      (hcalm : Calm backend context n token got)
      (hreply : (backend.serve n (pageRequest context token got)).reply =
        .page page nextPageToken)
      (hlast : Full context (got + page.length) ∨ nextPageToken = "") :
      Talk backend context n token got [page] .complete
  | more {n : Nat} {token : String} {got : Nat} {page : List R} {nextPageToken : String}
      {pages : List (List R)} {ending : Ending} (hcalm : Calm backend context n token got)
      (hreply : (backend.serve n (pageRequest context token got)).reply =
        .page page nextPageToken)
      (hmore : ¬ Full context (got + page.length)) (htoken : nextPageToken ≠ "")
      (hrest : Talk backend context (n + 1) nextPageToken (got + page.length) pages ending) :
      Talk backend context n token got (page :: pages) ending

/-- The rows of a conversation that the row limit leaves, after `got` rows. -/
def budget (context : ScanContext) (got : Nat) (rows : List R) : List R :=
  if context.scanRowLimit ≠ 0 then rows.take (context.scanRowLimit - got) else rows

variable {backend : Backend R} {context : ScanContext} {n : Nat} {token : String} {got : Nat}
  {pages pages' : List (List R)} {ending ending' : Ending}

/-- **There is one conversation.** -/
theorem Talk.unique (h : Talk backend context n token got pages ending)
    (h' : Talk backend context n token got pages' ending') : ending = ending' := by
  induction h generalizing pages' with
  | cancelled hcancelled =>
    cases h' with
    | cancelled => rfl
    | failed hcalm | last hcalm | more hcalm => exact absurd hcalm hcancelled
  | failed hcalm hreply =>
    cases h' with
    | cancelled hcancelled => exact absurd hcalm hcancelled
    | failed => rfl
    | last _ hpage | more _ hpage =>
      rw [hpage] at hreply
      cases hreply
  | last hcalm hreply hlast =>
    cases h' with
    | cancelled hcancelled => exact absurd hcalm hcancelled
    | failed _ hfailed =>
      rw [hreply] at hfailed
      cases hfailed
    | last => rfl
    | more _ hpage hmore htoken =>
      obtain ⟨rfl, rfl⟩ := Reply.page.inj (hreply.symm.trans hpage)
      exact absurd hlast fun h => h.elim hmore htoken
  | more hcalm hreply hmore htoken _ ih =>
    cases h' with
    | cancelled hcancelled => exact absurd hcalm hcancelled
    | failed _ hfailed =>
      rw [hreply] at hfailed
      cases hfailed
    | last _ hpage hlast =>
      obtain ⟨rfl, rfl⟩ := Reply.page.inj (hreply.symm.trans hpage)
      exact absurd hlast fun h => h.elim hmore htoken
    | more _ hpage _ _ hrest =>
      obtain ⟨rfl, rfl⟩ := Reply.page.inj (hreply.symm.trans hpage)
      exact ih hrest

theorem Table.query_eq (table : Table) (turn : Turn R) : table.query turn = pageResult turn := by
  cases table <;> rfl

theorem pageResult_cancelled {turn : Turn R} (h : turn.cancelledDuring = true) :
    ∃ e, pageResult turn = .error e := by
  unfold pageResult
  split <;> rw [if_pos h] <;> exact ⟨_, rfl⟩

theorem pageResult_failed {turn : Turn R} (h : turn.cancelledDuring = false)
    (hreply : turn.reply.failed = true) : pageResult turn = .ok ([], "") := by
  unfold pageResult
  split
  case h_4 heq =>
    rw [heq] at hreply
    cases hreply
  all_goals rw [h, if_neg Bool.false_ne_true]

theorem pageResult_page {turn : Turn R} (h : turn.cancelledDuring = false) {page : List R}
    {nextPageToken : String} (hreply : turn.reply = .page page nextPageToken) :
    pageResult turn = .ok (page, nextPageToken) := by
  rw [pageResult, hreply, h]
  rfl

/-- **One turn**: it is cancelled, its RPC fails, or it has a page. -/
theorem turn_cases (backend : Backend R) (context : ScanContext) (n : Nat) (token : String)
    (got : Nat) :
    ¬ Calm backend context n token got ∨
      Calm backend context n token got ∧
        ((backend.serve n (pageRequest context token got)).reply.failed = true ∨
          ∃ page nextPageToken, (backend.serve n (pageRequest context token got)).reply =
            .page page nextPageToken) := by
  by_cases hcalm : Calm backend context n token got
  · refine .inr ⟨hcalm, ?_⟩
    cases (backend.serve n (pageRequest context token got)).reply with
    | page records nextPageToken => exact .inr ⟨records, nextPageToken, rfl⟩
    | exception | rpcError | noResult => exact .inl rfl
  · exact .inl hcalm

theorem budget_of_not_full {page : List R} (h : ¬ Full context (got + page.length)) :
    budget context got page = page := by
  unfold budget
  split
  · rename_i hlimit
    refine take_of_length_le ?_
    by_contra hlt
    exact h ⟨hlimit, by omega⟩
  · rfl

theorem budget_append {page rows : List R} (h : ¬ Full context (got + page.length)) :
    budget context got (page ++ rows) = page ++ budget context (got + page.length) rows := by
  unfold budget
  split
  · rename_i hlimit
    have hle : got + page.length < context.scanRowLimit := by
      by_contra hle
      exact h ⟨hlimit, by omega⟩
    rw [take_append, take_of_length_le (by omega), Nat.sub_sub]
  · rfl

/-! ## 4. The loop that collects the pages

Both loops end when the conversation does, and what they return follows from it
(`queryAllPages_talk`, `drain_talk`). -/

variable {fuel : Nat}

section Collect

variable {table : Table}

theorem cancelledAfter_of_not_calm (table : Table) {got : Nat} {page : List R × String}
    (h : ¬ Calm backend context n token got) (hbefore : ¬ backend.cancelled n = true)
    (hquery : table.query (backend.serve n (pageRequest context token got)) = .ok page) :
    (backend.serve n (pageRequest context token got)).cancelledAfter = true := by
  by_contra hafter
  refine h ⟨by simpa using hbefore, ?_, by simpa using hafter⟩
  by_contra hduring
  obtain ⟨e, he⟩ := pageResult_cancelled (by simpa using hduring)
  rw [Table.query_eq, he] at hquery
  cases hquery

theorem queryAllPages_cancelled (table : Table) {records : List R} (fuel : Nat)
    (h : ¬ Calm backend context n token records.length) :
    ∃ e, queryAllPages table.query backend context (fuel + 1) n token records =
      some (.error e) := by
  unfold queryAllPages
  split
  · exact ⟨_, rfl⟩
  rename_i hbefore
  dsimp only
  split
  · exact ⟨_, rfl⟩
  · rename_i page nextPageToken hquery
    rw [if_pos (cancelledAfter_of_not_calm table h hbefore hquery)]
    exact ⟨_, rfl⟩

/-- A turn that is not cancelled goes on with what the client makes of the RPC. -/
theorem queryAllPages_calm {records page : List R} {nextPageToken : String} (fuel : Nat)
    (h : Calm backend context n token records.length)
    (hpage : pageResult (backend.serve n (pageRequest context token records.length)) =
      .ok (page, nextPageToken)) :
    queryAllPages table.query backend context (fuel + 1) n token records =
      if Full context (records ++ page).length then
        some (.ok ((records ++ page).take context.scanRowLimit))
      else if nextPageToken = "" then some (.ok (records ++ page))
      else queryAllPages table.query backend context fuel (n + 1) nextPageToken
        (records ++ page) := by
  rw [queryAllPages, h.before, if_neg Bool.false_ne_true]
  simp only [Table.query_eq, hpage, h.after, if_neg Bool.false_ne_true]

theorem take_append_budget {records page : List R} (hfull : Full context (records ++ page).length)
    (hnot : ¬ Full context records.length) :
    (records ++ page).take context.scanRowLimit =
      records ++ budget context records.length page := by
  have hlt : records.length < context.scanRowLimit := by
    by_contra hlt
    exact hnot ⟨hfull.1, by omega⟩
  rw [budget, if_pos hfull.1, take_append, take_of_length_le (by omega)]

/-- **What the collecting loop returns** follows from the conversation. -/
theorem queryAllPages_talk {records : List R} {r : Except Failure (List R)}
    (hfull : ¬ Full context records.length)
    (h : queryAllPages table.query backend context fuel n token records = some r) :
    ∃ pages ending, Talk backend context n token records.length pages ending ∧
      (ending = .cancelled → ∃ e, r = .error e) ∧
      (ending ≠ .cancelled → r = .ok (records ++ budget context records.length pages.flatten)) := by
  induction fuel generalizing n token records with
  | zero => cases h
  | succ fuel ih =>
    rcases turn_cases backend context n token records.length with
      hcancelled | ⟨hcalm, hfailed | ⟨page, nextPageToken, hreply⟩⟩
    · obtain ⟨e, he⟩ := queryAllPages_cancelled table fuel hcancelled
      obtain rfl := some.inj (he.symm.trans h)
      exact ⟨[], .cancelled, .cancelled hcancelled, fun _ => ⟨e, rfl⟩, fun h => absurd rfl h⟩
    · rw [queryAllPages_calm fuel hcalm (pageResult_failed hcalm.during hfailed), append_nil,
        if_neg hfull, if_pos rfl] at h
      obtain rfl := some.inj h
      refine ⟨[], .failed, .failed hcalm hfailed, nofun, fun _ => ?_⟩
      simp [budget]
    · rw [queryAllPages_calm fuel hcalm (pageResult_page hcalm.during hreply)] at h
      have hlength : (records ++ page).length = records.length + page.length :=
        length_append
      split at h
      · rename_i hlast
        obtain rfl := some.inj h
        refine ⟨[page], .complete, .last hcalm hreply (.inl (hlength ▸ hlast)), nofun, fun _ => ?_⟩
        rw [take_append_budget hlast hfull, flatten_singleton]
      rename_i hmore
      split at h
      · rename_i hend
        obtain rfl := some.inj h
        refine ⟨[page], .complete, .last hcalm hreply (.inr hend), nofun, fun _ => ?_⟩
        rw [flatten_singleton, budget_of_not_full (hlength ▸ hmore)]
      · rename_i htoken
        obtain ⟨pages, ending, htalk, herror, hok⟩ := ih hmore h
        rw [hlength] at htalk hmore
        refine ⟨page :: pages, ending, .more hcalm hreply hmore htoken htalk, herror, fun h => ?_⟩
        rw [hok h, hlength, flatten_cons, budget_append hmore, append_assoc]

/-- **The collecting loop ends with the conversation.** -/
theorem Talk.queryAllPages_ends (table : Table) {records : List R}
    (h : Talk backend context n token got pages ending) (hgot : got = records.length) :
    ∃ fuel r, queryAllPages table.query backend context fuel n token records = some r := by
  induction h generalizing records with
  | cancelled hcancelled =>
    subst hgot
    obtain ⟨e, he⟩ := queryAllPages_cancelled table 0 hcancelled
    exact ⟨1, _, he⟩
  | failed hcalm hfailed =>
    subst hgot
    refine ⟨1, ?_⟩
    rw [queryAllPages_calm 0 hcalm (pageResult_failed hcalm.during hfailed)]
    split
    · exact ⟨_, rfl⟩
    · exact ⟨_, if_pos rfl⟩
  | last hcalm hreply hlast =>
    subst hgot
    refine ⟨1, ?_⟩
    rw [queryAllPages_calm 0 hcalm (pageResult_page hcalm.during hreply), length_append]
    split
    · exact ⟨_, rfl⟩
    · rename_i hmore
      exact ⟨_, if_pos (hlast.resolve_left hmore)⟩
  | @more n token got page _ _ _ hcalm hreply hmore htoken _ ih =>
    subst hgot
    have hlength : records.length + page.length = (records ++ page).length :=
      length_append.symm
    obtain ⟨fuel, r, hr⟩ := ih hlength
    refine ⟨fuel + 1, r, ?_⟩
    rw [queryAllPages_calm fuel hcalm (pageResult_page hcalm.during hreply), length_append,
      if_neg hmore, if_neg htoken, hr]

end Collect

/-! ## 5. The stream of pages -/

section Stream

variable {table : Table} {s : PagedStream}

/-- The stream after a page. -/
def PagedStream.after (s : PagedStream) (rows : Nat) (nextPageToken : String) : PagedStream where
  turns := s.turns + 1
  pageToken := if nextPageToken = "" then s.pageToken else nextPageToken
  emitted := s.emitted + rows
  done := decide (nextPageToken = "")

theorem next_cancelled (table : Table) (fuel : Nat) (hdone : s.done = false)
    (hfull : ¬ Full context s.emitted)
    (h : ¬ Calm backend context s.turns s.pageToken s.emitted) :
    ∃ e, next table.query backend context (fuel + 1) s = some (.error e, s) := by
  unfold next
  rw [hdone, if_neg Bool.false_ne_true]
  split
  · exact ⟨_, rfl⟩
  rename_i hbefore
  dsimp only
  split
  · exact ⟨_, rfl⟩
  · rename_i page nextPageToken hquery
    rw [if_pos (cancelledAfter_of_not_calm table h hbefore hquery)]
    exact ⟨_, rfl⟩

theorem next_calm {page : List R} {nextPageToken : String} (fuel : Nat) (hdone : s.done = false)
    (hfull : ¬ Full context s.emitted)
    (h : Calm backend context s.turns s.pageToken s.emitted)
    (hpage : pageResult (backend.serve s.turns (pageRequest context s.pageToken s.emitted)) =
      .ok (page, nextPageToken)) :
    next table.query backend context (fuel + 1) s =
      if resize context s.emitted page = [] then
        next table.query backend context fuel
          (s.after (resize context s.emitted page).length nextPageToken)
      else some (.ok (some (resize context s.emitted page)),
        s.after (resize context s.emitted page).length nextPageToken) := by
  rw [next, hdone, if_neg Bool.false_ne_true, h.before, if_neg Bool.false_ne_true, if_neg hfull]
  simp only [Table.query_eq, hpage, h.after, if_neg Bool.false_ne_true]
  rfl

/-- The stream is at its end. -/
def Finished (context : ScanContext) (s : PagedStream) : Prop :=
  s.done = true ∨ Full context s.emitted

theorem next_finished (table : Table) (backend : Backend R) (fuel : Nat) (h : Finished context s) :
    ∃ s', next table.query backend context (fuel + 1) s = some (.ok none, s') ∨
      next table.query backend context (fuel + 1) s = some (.error .cancelled, s') := by
  unfold next
  split
  · exact ⟨_, .inl rfl⟩
  · rename_i hdone
    have hfull : Full context s.emitted := h.resolve_left hdone
    split
    · exact ⟨_, .inr rfl⟩
    · exact ⟨_, .inl rfl⟩

attribute [local simp] next

theorem next_done (fuel : Nat) (h : s.done = true) :
    next table.query backend context (fuel + 1) s = some (.ok none, s) := by
  simp [h]

variable {x : Except Failure (Option (List R)) × PagedStream}

theorem next_ended (hdone : s.done = true) (h : next table.query backend context fuel s = some x) :
    x = (.ok none, s) := by
  cases fuel with
  | zero => cases h
  | succ fuel => exact some.inj (h.symm.trans (next_done fuel hdone))

theorem next_mono (h : next table.query backend context fuel s = some x) :
    next table.query backend context (fuel + 1) s = some x := by
  induction fuel generalizing s with
  | zero => cases h
  | succ fuel ih =>
    rw [next] at h ⊢
    by_cases hdone : s.done = true
    · rwa [if_pos hdone] at h ⊢
    rw [if_neg hdone] at h ⊢
    by_cases hbefore : backend.cancelled s.turns = true
    · rwa [if_pos hbefore] at h ⊢
    rw [if_neg hbefore] at h ⊢
    by_cases hfull : Full context s.emitted
    · rwa [if_pos hfull] at h ⊢
    rw [if_neg hfull] at h ⊢
    dsimp only at h ⊢
    cases hquery : table.query (backend.serve s.turns
      (pageRequest context s.pageToken s.emitted)) with
    | error e => rwa [hquery] at h
    | ok page =>
      rw [hquery] at h
      dsimp only at h ⊢
      by_cases hafter : (backend.serve s.turns
        (pageRequest context s.pageToken s.emitted)).cancelledAfter = true
      · rwa [if_pos hafter] at h ⊢
      rw [if_neg hafter] at h ⊢
      by_cases hempty : resize context s.emitted page.1 = []
      · rw [if_pos hempty] at h ⊢
        exact ih h
      · rwa [if_neg hempty] at h ⊢

variable {r : Except Failure (List (List R))}

theorem consume_mono {rest rest' : PagedStream → Option (Except Failure (List (List R)))}
    (hrest : ∀ s r, rest s = some r → rest' s = some r) (h : consume rest x = some r) :
    consume rest' x = some r := by
  match x, h with
  | (.error e, _), h => exact h
  | (.ok none, _), h => exact h
  | (.ok (some page), s'), h =>
    obtain ⟨r', hr', rfl⟩ := map_eq_some_iff.mp h
    exact map_eq_some_iff.mpr ⟨r', hrest s' r' hr', rfl⟩

variable {fuel k : Nat}

theorem drain_mono (h : drain table.query backend context fuel k s = some r) :
    drain table.query backend context (fuel + 1) k s = some r := by
  induction k generalizing s r with
  | zero => cases h
  | succ k ih =>
    obtain ⟨x, hx, hr⟩ := bind_eq_some_iff.mp h
    exact bind_eq_some_iff.mpr ⟨x, next_mono hx, consume_mono (fun _ _ => ih) hr⟩

theorem resize_eq_budget (context : ScanContext) (got : Nat) (page : List R) :
    resize context got page = budget context got page := by
  unfold resize budget
  by_cases hlimit : context.scanRowLimit ≠ 0
  · rw [if_pos hlimit]
    split
    · rfl
    · rename_i hle
      have : ¬ context.scanRowLimit < got + page.length := fun h => hle ⟨hlimit, h⟩
      exact (take_of_length_le (by omega)).symm
  · rw [if_neg hlimit, if_neg fun h => hlimit h.1]

theorem full_budget {page : List R} (h : ¬ Full context got) :
    Full context (got + (budget context got page).length) ↔ Full context (got + page.length) := by
  unfold budget
  split
  · rename_i hlimit
    have hlt : got < context.scanRowLimit := by
      by_contra hlt
      exact h ⟨hlimit, by omega⟩
    rw [List.length_take]
    unfold Full
    omega
  · rfl

@[simp] theorem budget_nil : budget context got ([] : List R) = [] := by
  simp [budget]

@[simp] theorem resize_nil : resize context got ([] : List R) = [] := by
  simp [resize]

theorem resize_eq_nil {page : List R} (h : ¬ Full context got) :
    resize context got page = [] ↔ page = [] := by
  constructor
  · intro hempty
    rw [resize_eq_budget] at hempty
    have hfull : Full context (got + (budget context got page).length) ↔ _ := full_budget h
    rw [hempty, length_nil, Nat.add_zero] at hfull
    rwa [budget_of_not_full fun hpage => h (hfull.mpr hpage)] at hempty
  · rintro rfl
    exact resize_nil

/-- What the consumer of a stream has at the end of a conversation. -/
def Streamed (ending : Ending) (rows : List R) (r : Except Failure (List (List R))) : Prop :=
  match ending with
  | .cancelled => ∃ e, r = .error e
  | .failed => ∃ batches, r = .ok batches ∧ batches.flatten = rows
  | .complete => (∃ batches, r = .ok batches ∧ batches.flatten = rows) ∨ ∃ e, r = .error e

theorem drain_finished (h : drain table.query backend context fuel k s = some r)
    (hfinished : Finished context s) :
    r = .ok [] ∨ ∃ e, r = .error e := by
  cases k with
  | zero => cases h
  | succ k =>
    obtain ⟨x, hx, hr⟩ := bind_eq_some_iff.mp h
    cases fuel with
    | zero => cases hx
    | succ fuel =>
      obtain ⟨s', hok | herror⟩ := next_finished table backend fuel hfinished
      · obtain rfl := some.inj (hok.symm.trans hx)
        exact .inl (some.inj hr).symm
      · obtain rfl := some.inj (herror.symm.trans hx)
        exact .inr ⟨_, (some.inj hr).symm⟩

theorem Streamed.cons {rows batch : List R} (h : Streamed ending rows r) :
    Streamed ending (batch ++ rows) (r.map (batch :: ·)) := by
  cases ending with
  | cancelled =>
    obtain ⟨e, rfl⟩ := h
    exact ⟨e, rfl⟩
  | failed =>
    obtain ⟨batches, rfl, rfl⟩ := h
    exact ⟨batch :: batches, rfl, rfl⟩
  | complete =>
    rcases h with ⟨batches, rfl, rfl⟩ | ⟨e, rfl⟩
    · exact .inl ⟨batch :: batches, rfl, rfl⟩
    · exact .inr ⟨e, rfl⟩

/-- **What the consumer of the stream has** follows from the conversation. -/
theorem drain_talk (hdone : s.done = false) (hfull : ¬ Full context s.emitted)
    (h : drain table.query backend context fuel k s = some r) :
    ∃ pages ending, Talk backend context s.turns s.pageToken s.emitted pages ending ∧
      Streamed ending (budget context s.emitted pages.flatten) r := by
  induction k generalizing s r with
  | zero => cases h
  | succ k ih =>
    obtain ⟨x, hx, hr⟩ := bind_eq_some_iff.mp h
    clear h
    -- the turns of one `next`: each is the last of the conversation or comes before the rest of it
    suffices hnext : ∀ f, next table.query backend context f s = some x →
        ∃ pages ending, Talk backend context s.turns s.pageToken s.emitted pages ending ∧
          Streamed ending (budget context s.emitted pages.flatten) r from hnext fuel hx
    intro f
    clear hx
    induction f generalizing s with
    | zero => exact fun h => nomatch h
    | succ f ihf =>
      intro hx
      rcases turn_cases backend context s.turns s.pageToken s.emitted with
        hcancelled | ⟨hcalm, hfailed | ⟨page, nextPageToken, hreply⟩⟩
      · obtain ⟨e, he⟩ := next_cancelled table f hdone hfull hcancelled
        obtain rfl := some.inj (he.symm.trans hx)
        exact ⟨[], .cancelled, .cancelled hcancelled, e, (some.inj hr).symm⟩
      · rw [next_calm f hdone hfull hcalm (pageResult_failed hcalm.during hfailed),
          resize_nil, if_pos rfl] at hx
        obtain rfl := next_ended rfl hx
        obtain rfl := some.inj hr
        exact ⟨[], .failed, .failed hcalm hfailed, [], rfl, budget_nil.symm⟩
      rw [next_calm f hdone hfull hcalm (pageResult_page hcalm.during hreply)] at hx
      by_cases hempty : page = []
      · subst hempty
        rw [resize_nil, if_pos rfl] at hx
        by_cases htoken : nextPageToken = ""
        · subst htoken
          obtain rfl := next_ended rfl hx
          obtain rfl := some.inj hr
          exact ⟨[[]], .complete, .last hcalm hreply (.inr rfl), .inl ⟨[], rfl, budget_nil.symm⟩⟩
        · obtain ⟨pages, ending, htalk, hstreamed⟩ :=
            ihf (s := s.after 0 nextPageToken) (decide_eq_false htoken) hfull hx
          rw [PagedStream.after, if_neg htoken] at htalk
          exact ⟨[] :: pages, ending, .more hcalm hreply hfull htoken htalk, hstreamed⟩
      · rw [if_neg fun h => hempty ((resize_eq_nil hfull).mp h)] at hx
        obtain rfl := some.inj hx
        obtain ⟨r', hr', rfl⟩ := map_eq_some_iff.mp hr
        rw [resize_eq_budget] at hr' ⊢
        by_cases hlast : Full context (s.emitted + page.length) ∨ nextPageToken = ""
        · refine ⟨[page], .complete, .last hcalm hreply hlast, ?_⟩
          rw [flatten_singleton]
          rcases drain_finished hr' (hlast.symm.imp decide_eq_true (full_budget hfull).mpr) with
            rfl | ⟨e, rfl⟩
          · exact .inl ⟨_, rfl, flatten_singleton⟩
          · exact .inr ⟨e, rfl⟩
        · obtain ⟨hmore, htoken⟩ := not_or.mp hlast
          rw [budget_of_not_full hmore] at hr' ⊢
          obtain ⟨pages, ending, htalk, hstreamed⟩ :=
            ih (s := s.after page.length nextPageToken) (decide_eq_false htoken) hmore hr'
          rw [PagedStream.after, if_neg htoken] at htalk
          refine ⟨page :: pages, ending, .more hcalm hreply hmore htoken htalk, ?_⟩
          rw [flatten_cons, budget_append hmore]
          exact hstreamed.cons

theorem drain_succ (h : next table.query backend context fuel s = some x) :
    drain table.query backend context fuel (k + 1) s =
      consume (drain table.query backend context fuel k) x := by
  rw [drain, h, bind_some]

theorem drain_finished_ends (table : Table) (backend : Backend R) (fuel k : Nat)
    (h : Finished context s) :
    ∃ r, drain table.query backend context (fuel + 1) (k + 1) s = some r := by
  obtain ⟨s', hnext | hnext⟩ := next_finished table backend fuel h
  · exact ⟨_, drain_succ hnext⟩
  · exact ⟨_, drain_succ hnext⟩

/-- **The stream ends with the conversation.** -/
theorem Talk.drain_ends (table : Table) (h : Talk backend context n token got pages ending)
    (hn : s.turns = n) (htoken : s.pageToken = token) (hgot : s.emitted = got)
    (hdone : s.done = false) (hfull : ¬ Full context s.emitted) :
    ∃ bound, ∀ fuel k, ∃ r,
      drain table.query backend context (bound + fuel) (bound + k) s = some r := by
  induction h generalizing s with
  | cancelled hcancelled =>
    subst hn htoken hgot
    refine ⟨1, fun fuel k => ?_⟩
    rw [Nat.add_comm 1 fuel, Nat.add_comm 1 k]
    obtain ⟨e, he⟩ := next_cancelled table fuel hdone hfull hcancelled
    exact ⟨_, drain_succ he⟩
  | failed hcalm hfailed =>
    subst hn htoken hgot
    refine ⟨2, fun fuel k => ?_⟩
    rw [show 2 + fuel = fuel + 1 + 1 by omega, show 2 + k = k + 1 + 1 by omega]
    have hstep : next table.query backend context (fuel + 1 + 1) s =
        some (.ok none, s.after 0 "") := by
      rw [next_calm _ hdone hfull hcalm (pageResult_failed hcalm.during hfailed), resize_nil,
        if_pos rfl]
      exact next_done _ rfl
    exact ⟨_, drain_succ hstep⟩
  | @last n token got page nextPageToken hcalm hreply hlast =>
    subst hn htoken hgot
    refine ⟨2, fun fuel k => ?_⟩
    rw [show 2 + fuel = fuel + 1 + 1 by omega, show 2 + k = k + 1 + 1 by omega, drain,
      next_calm _ hdone hfull hcalm (pageResult_page hcalm.during hreply)]
    split
    · rename_i hempty
      obtain rfl := (resize_eq_nil hfull).mp hempty
      obtain rfl := hlast.resolve_left hfull
      rw [next_done _ rfl]
      exact ⟨_, rfl⟩
    · rw [resize_eq_budget, bind_some]
      obtain ⟨r, hr⟩ := drain_finished_ends table backend (fuel + 1) k
        (s := s.after (budget context s.emitted page).length nextPageToken)
        (hlast.symm.imp decide_eq_true (full_budget hfull).mpr)
      exact ⟨_, map_eq_some_iff.mpr ⟨r, hr, rfl⟩⟩
  | @more n token got page nextPageToken _ _ hcalm hreply hmore htoken _ ih =>
    subst hn htoken hgot
    obtain ⟨bound, hbound⟩ := ih (s := s.after page.length nextPageToken) rfl (if_neg htoken) rfl
      (decide_eq_false htoken) hmore
    refine ⟨bound + 1, fun fuel k => ?_⟩
    rw [show bound + 1 + fuel = bound + fuel + 1 by omega,
      show bound + 1 + k = bound + k + 1 by omega]
    have hresize : resize context s.emitted page = page := by
      rw [resize_eq_budget, budget_of_not_full hmore]
    have hstep := @next_calm _ _ _ table _ _ _ (bound + fuel) hdone hfull hcalm
      (pageResult_page hcalm.during hreply)
    rw [hresize] at hstep
    by_cases hempty : page = []
    · -- the page is skipped: the same `next` goes on
      subst hempty
      rw [if_pos rfl] at hstep
      obtain ⟨r, hr⟩ := hbound fuel (k + 1)
      obtain ⟨x, hx, hconsume⟩ := bind_eq_some_iff.mp hr
      exact ⟨r, (drain_succ (hstep.trans hx)).trans (consume_mono (fun _ _ => drain_mono) hconsume)⟩
    · rw [if_neg hempty] at hstep
      obtain ⟨r, hr⟩ := hbound (fuel + 1) k
      exact ⟨_, (drain_succ hstep).trans (map_eq_some_iff.mpr ⟨r, hr, rfl⟩)⟩

end Stream

/-! ## 6. Scans -/

theorem not_full_zero : ¬ Full context 0 := fun h => h.1 (Nat.le_zero.mp h.2)

/-- **What a scan returns** follows from the conversation, in both loops. -/
theorem scan_talk {table : Table} {r : Except Failure (List (List R))}
    (h : runAnnotationScan table backend context fuel = some r) :
    ∃ pages ending, Talk backend context 0 "" 0 pages ending ∧
      Streamed ending (budget context 0 pages.flatten) r := by
  unfold runAnnotationScan at h
  split at h
  · exact drain_talk rfl not_full_zero h
  · obtain ⟨collected, hcollected, rfl⟩ := map_eq_some_iff.mp h
    obtain ⟨pages, ending, htalk, herror, hok⟩ := queryAllPages_talk not_full_zero hcollected
    refine ⟨pages, ending, htalk, ?_⟩
    cases ending with
    | cancelled =>
      obtain ⟨e, rfl⟩ := herror rfl
      exact ⟨e, rfl⟩
    | failed =>
      rw [hok nofun]
      exact ⟨_, rfl, flatten_singleton⟩
    | complete =>
      rw [hok nofun]
      exact .inl ⟨_, rfl, flatten_singleton⟩

/-- **A scan ends with the conversation.** -/
theorem Talk.scan_ends (h : Talk backend context 0 "" 0 pages ending) (table : Table) :
    ∃ fuel r, runAnnotationScan table backend context fuel = some r := by
  unfold runAnnotationScan
  split
  · obtain ⟨bound, hbound⟩ := h.drain_ends table (s := {}) rfl rfl rfl rfl not_full_zero
    exact ⟨bound, hbound 0 0⟩
  · have hnone : 0 = ([] : List R).length := length_nil.symm
    obtain ⟨fuel, r, hr⟩ := h.queryAllPages_ends table hnone
    exact ⟨fuel, _, map_eq_some_iff.mpr ⟨r, hr, rfl⟩⟩

/-- The batches hold the rows of all pages of the scan, up to the row limit. -/
def Whole (backend : Backend R) (context : ScanContext) (batches : List (List R)) : Prop :=
  ∃ pages, Talk backend context 0 "" 0 pages .complete ∧
    batches.flatten = budget context 0 pages.flatten

/-- **A scan ends when its conversation does, and its success is to be believed exactly when no RPC
of it fails.** A page whose RPC fails is handed on as an empty last page, so the scan returns the
pages before it as if they were all (`scan_fails`). -/
theorem scan_whole_iff (table : Table) (backend : Backend R) (context : ScanContext) :
    ((∃ pages ending, Talk backend context 0 "" 0 pages ending) →
      ∃ fuel r, runAnnotationScan table backend context fuel = some r) ∧
    ((∀ fuel batches, runAnnotationScan table backend context fuel = some (.ok batches) →
      Whole backend context batches) ↔ ∀ pages, ¬ Talk backend context 0 "" 0 pages .failed) := by
  refine ⟨fun ⟨_, _, htalk⟩ => htalk.scan_ends table, fun hwhole pages hfailed => ?_,
    fun hnone fuel batches h => ?_⟩
  · obtain ⟨fuel, r, hr⟩ := hfailed.scan_ends table
    obtain ⟨_, ending, htalk, hstreamed⟩ := scan_talk hr
    obtain rfl := htalk.unique hfailed
    obtain ⟨batches, rfl, -⟩ := hstreamed
    obtain ⟨_, hcomplete, -⟩ := hwhole fuel batches hr
    exact nomatch hcomplete.unique hfailed
  · obtain ⟨pages, ending, htalk, hstreamed⟩ := scan_talk h
    cases ending with
    | cancelled =>
      obtain ⟨e, he⟩ := hstreamed
      cases he
    | failed => exact absurd htalk (hnone pages)
    | complete =>
      rcases hstreamed with ⟨_, heq, hflatten⟩ | ⟨e, he⟩
      · obtain rfl := Except.ok.inj heq
        exact ⟨pages, htalk, hflatten⟩
      · cases he

end Model

/-- A page of two records, and a second page whose RPC fails. -/
def cutBackend : Backend Nat where
  cancelled := fun _ => false
  serve := fun n _ => match n with
    | 0 => { reply := .page [1, 2] "next" }
    | _ => { reply := .rpcError "unavailable" }

/-- **A scan cut short**: both loops end successfully with the first page. -/
theorem scan_fails :
    (runAnnotationScan .pvMetadata cutBackend ⟨100, 0, false, []⟩ 3 = some (.ok [[1, 2]]) ∧
        ¬ Whole cutBackend ⟨100, 0, false, []⟩ [[1, 2]]) ∧
      runAnnotationScan .configuration cutBackend ⟨100, 0, true, ["name"]⟩ 3 =
          some (.ok [[1, 2]]) ∧
        ¬ Whole cutBackend ⟨100, 0, true, ["name"]⟩ [[1, 2]] := by
  have hcut : ∀ context : ScanContext, ¬ Full context 2 →
      ¬ Whole cutBackend context [[1, 2]] := by
    rintro context hmore ⟨_, hcomplete, -⟩
    have hfailed : Talk cutBackend context 0 "" 0 [[1, 2]] .failed :=
      .more ⟨rfl, rfl, rfl⟩ rfl hmore (by decide) (.failed ⟨rfl, rfl, rfl⟩ rfl)
    exact nomatch hcomplete.unique hfailed
  exact ⟨⟨by decide +kernel, hcut _ (by decide)⟩, by decide +kernel, hcut _ (by decide)⟩

end MldpDriver.Query.Annotation

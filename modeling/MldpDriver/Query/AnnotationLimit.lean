/-
# The row limit of a paged scan

`AnnotationPages.lean` says that a scan returns the rows of its conversation.  Here the conversation
is given: a sequence of pages of any sizes, the last one without a token.  The service promises to
answer with the next page a request for it that asks for no more records than remain, and nothing
else, so a scan that asks for more, or asks once more at the limit, has no answer to rely on.

A row limit of 0 means no limit.
-/
import MldpDriver.Query.AnnotationPages

namespace MldpDriver.Query.Annotation

open List

variable {R : Type}

/-! ## 1. The promise of the service -/

/-- A request for the page behind `token`, after `got` records, for no more than remain. -/
structure Proper (limit : Nat) (token : String) (got : Nat) (request : PageRequest) : Prop where
  pageToken : request.pageToken = token
  limited : limit ≠ 0 → 0 < request.limit ∧ request.limit ≤ limit - got

/-- The token that comes with a page, before the pages `rest`. -/
def nextToken : List (String × List R) → String
  | [] => ""
  | (token, _) :: _ => token

/-- Asked properly, the service answers the `n`-th turn with `page`, and then with the pages `rest`,
each behind the token given here. -/
def Serves (backend : Backend R) (limit : Nat) :
    Nat → String → Nat → List R → List (String × List R) → Prop
  | n, token, got, page, rest =>
    (∀ request, Proper limit token got request →
      backend.serve n request = { reply := .page page (nextToken rest) }) ∧
    match rest with
    | [] => True
    | (next, page') :: rest' =>
      next ≠ "" ∧ Serves backend limit (n + 1) next (got + page.length) page' rest'

/-- The records of all pages. -/
def pageRows (page : List R) (rest : List (String × List R)) : List R :=
  page ++ rest.flatMap Prod.snd

variable {backend : Backend R} {context : ScanContext} {n : Nat} {token : String} {got : Nat}
  {page : List R} {rest : List (String × List R)} {table : Table}

theorem pageRequest_proper (hfull : ¬ Full context got) :
    Proper context.scanRowLimit token got (pageRequest context token got) where
  pageToken := rfl
  limited hlimit := by
    have hlt : got < context.scanRowLimit := by
      by_contra hlt
      exact hfull ⟨hlimit, by omega⟩
    simp only [pageRequest, pageRequestLimit, if_pos hlimit]
    rw [if_neg (by omega)]
    split <;> omega

section Served

variable (hserves : Serves backend context.scanRowLimit n token got page rest)
  (hcalm : ∀ n, backend.cancelled n = false) (hfull : ¬ Full context got)

include hserves hfull

theorem Serves.reply :
    backend.serve n (pageRequest context token got) = { reply := .page page (nextToken rest) } := by
  cases rest <;> exact hserves.1 _ (pageRequest_proper hfull)

theorem Serves.pageResult :
    pageResult (backend.serve n (pageRequest context token got)) = .ok (page, nextToken rest) := by
  rw [hserves.reply hfull]
  rfl

include hcalm in
theorem Serves.calm : Calm backend context n token got := by
  have hreply := hserves.reply hfull
  exact ⟨hcalm n, by rw [hreply], by rw [hreply]⟩

end Served

theorem pageRows_cons {next : String × List R} :
    pageRows page (next :: rest) = page ++ pageRows next.2 rest := rfl

theorem budget_append_of_full {rows : List R} (h : Full context (got + page.length)) :
    budget context got (page ++ rows) = budget context got page := by
  have hle := h.2
  rw [budget, budget, if_pos h.1, if_pos h.1, take_append_of_le_length (by omega)]

/-! ## 2. The two loops

`queryAllPages_serves`, `drain_serves`: what the two loops return, by induction on the pages. -/

section Loops

variable (hcalm : ∀ n, backend.cancelled n = false)

include hcalm

/-- **The collecting loop** returns the rows of the pages. -/
theorem queryAllPages_serves {records : List R} {fuel : Nat} (hfuel : rest.length < fuel)
    (hserves : Serves backend context.scanRowLimit n token records.length page rest)
    (hfull : ¬ Full context records.length) :
    queryAllPages table.query backend context fuel n token records =
      some (.ok (records ++ budget context records.length (pageRows page rest))) := by
  induction rest generalizing n token records page fuel with
  | nil =>
    obtain ⟨fuel, rfl⟩ := Nat.exists_eq_succ_of_ne_zero (Nat.ne_of_gt hfuel)
    rw [queryAllPages_calm fuel (hserves.calm hcalm hfull) (hserves.pageResult hfull),
      nextToken, if_pos rfl, pageRows, flatMap_nil, append_nil]
    split
    · next hlast => rw [take_append_budget hlast hfull]
    · next hmore => rw [budget_of_not_full (by rwa [length_append] at hmore)]
  | cons next rest ih =>
    obtain ⟨fuel, rfl⟩ := Nat.exists_eq_succ_of_ne_zero (Nat.ne_of_gt (Nat.zero_lt_of_lt hfuel))
    rw [queryAllPages_calm fuel (hserves.calm hcalm hfull) (hserves.pageResult hfull)]
    obtain ⟨-, htoken, hrest⟩ := hserves
    have hlength : (records ++ page).length = records.length + page.length := length_append
    split
    · next hlast =>
      rw [take_append_budget hlast hfull, pageRows_cons, budget_append_of_full (hlength ▸ hlast)]
    · next hmore =>
      rw [nextToken, if_neg htoken, ih (by simpa using hfuel) (by rwa [hlength]) hmore, hlength,
        pageRows_cons, budget_append (hlength ▸ hmore), append_assoc]

theorem drain_at_end {s : PagedStream} (fuel k : Nat) (h : Finished context s) :
    drain table.query backend context (fuel + 1) (k + 1) s = some (.ok []) := by
  rw [drain, next]
  by_cases hdone : s.done = true
  · rw [if_pos hdone]
    rfl
  · rw [if_neg hdone, hcalm, if_neg Bool.false_ne_true, if_pos (h.resolve_left hdone)]
    rfl

/-- The last `next` with a page: the limit is reached, or no token is left. -/
theorem drain_last {s : PagedStream} (fuel k : Nat)
    (hserves : Serves backend context.scanRowLimit s.turns s.pageToken s.emitted page rest)
    (hdone : s.done = false) (hfull : ¬ Full context s.emitted)
    (hlast : Full context (s.emitted + page.length) ∨ rest = []) :
    ∃ batches, drain table.query backend context (fuel + 2) (k + 2) s = some (.ok batches) ∧
      batches.flatten = budget context s.emitted (pageRows page rest) := by
  have hrows : budget context s.emitted (pageRows page rest) = budget context s.emitted page := by
    rcases hlast with hlast | rfl
    · exact budget_append_of_full hlast
    · rw [pageRows, flatMap_nil, append_nil]
  rw [drain, next_calm (fuel + 1) hdone hfull (hserves.calm hcalm hfull)
    (hserves.pageResult hfull), resize_eq_budget, hrows]
  split
  · next hempty =>
    obtain rfl := (resize_eq_nil hfull).mp ((resize_eq_budget context s.emitted page).trans hempty)
    obtain rfl := hlast.resolve_left hfull
    rw [next_done _ rfl]
    exact ⟨[], rfl, budget_nil.symm⟩
  · refine ⟨[budget context s.emitted page], ?_, flatten_singleton⟩
    rw [Option.bind_some, consume, drain_at_end hcalm (fuel + 1) k]
    · rfl
    · refine hlast.symm.imp ?_ (full_budget hfull).mpr
      rintro rfl
      rfl

/-- **The stream** returns the rows of the pages, in batches. -/
theorem drain_serves {s : PagedStream} (fuel k : Nat)
    (hserves : Serves backend context.scanRowLimit s.turns s.pageToken s.emitted page rest)
    (hdone : s.done = false) (hfull : ¬ Full context s.emitted) :
    ∃ batches,
      drain table.query backend context (rest.length + fuel + 2) (rest.length + k + 2) s =
        some (.ok batches) ∧
      batches.flatten = budget context s.emitted (pageRows page rest) := by
  induction rest generalizing s page fuel k with
  | nil => exact drain_last hcalm _ _ hserves hdone hfull (.inr rfl)
  | cons head rest ih =>
    by_cases hlast : Full context (s.emitted + page.length)
    · exact drain_last hcalm _ _ hserves hdone hfull (.inl hlast)
    obtain ⟨-, htoken, hrest⟩ := id hserves
    have hresize : resize context s.emitted page = page := by
      rw [resize_eq_budget, budget_of_not_full hlast]
    have hstep := @next_calm _ _ _ table _ _ _ (rest.length + fuel + 2) hdone hfull
      (hserves.calm hcalm hfull) (hserves.pageResult hfull)
    rw [hresize, nextToken] at hstep
    have hnext : Serves backend context.scanRowLimit (s.after page.length head.1).turns
        (s.after page.length head.1).pageToken (s.after page.length head.1).emitted head.2 rest := by
      rw [PagedStream.after, if_neg htoken]
      exact hrest
    rw [pageRows_cons, budget_append hlast, length_cons,
      show rest.length + 1 + fuel + 2 = rest.length + fuel + 2 + 1 by omega]
    by_cases hempty : page = []
    -- the page is skipped: the same `next` goes on
    · subst hempty
      rw [if_pos rfl] at hstep
      obtain ⟨batches, hbatches, hflatten⟩ :=
        ih fuel (k + 1) hnext (decide_eq_false htoken) hlast
      obtain ⟨x, hx, hconsume⟩ := Option.bind_eq_some_iff.mp hbatches
      refine ⟨batches, ?_, hflatten⟩
      rw [show rest.length + 1 + k + 2 = rest.length + k + 2 + 1 by omega, drain_succ (hstep.trans hx)]
      exact consume_mono (fun _ _ => drain_mono) hconsume
    · rw [if_neg hempty] at hstep
      obtain ⟨batches, hbatches, hflatten⟩ :=
        ih (fuel + 1) k hnext (decide_eq_false htoken) hlast
      refine ⟨page :: batches, ?_, by rw [flatten_cons, hflatten]; rfl⟩
      rw [show rest.length + 1 + k + 2 = rest.length + k + 2 + 1 by omega, drain_succ hstep, consume,
        show rest.length + fuel + 2 + 1 = rest.length + (fuel + 1) + 2 by omega, hbatches]
      rfl

/-! ## 3. The scan -/

/-- What a scan with a row limit returns of the rows. -/
def limitRows (limit : Nat) (rows : List R) : List R := if limit = 0 then rows else rows.take limit

theorem scan_serves (table : Table) (context : ScanContext) {fuel : Nat}
    (hserves : Serves backend context.scanRowLimit 0 "" 0 page rest)
    (hfuel : rest.length + 2 ≤ fuel) :
    ∃ batches, runAnnotationScan table backend context fuel = some (.ok batches) ∧
      batches.flatten = limitRows context.scanRowLimit (pageRows page rest) := by
  have hrows : limitRows context.scanRowLimit (pageRows page rest) =
      budget context 0 (pageRows page rest) := by
    simp only [limitRows, budget, Nat.sub_zero, ne_eq, ite_not]
  rw [hrows, runAnnotationScan]
  split
  · obtain ⟨extra, rfl⟩ := Nat.exists_eq_add_of_le hfuel
    rw [show rest.length + 2 + extra = rest.length + extra + 2 by omega]
    exact drain_serves hcalm (s := {}) extra extra hserves rfl not_full_zero
  · have hcollect := @queryAllPages_serves _ _ context _ _ _ _ table hcalm [] fuel (by omega) hserves
      not_full_zero
    rw [hcollect]
    exact ⟨_, rfl, flatten_singleton⟩

end Loops

/-- **The row limit of a paged scan.**  Over any sequence of pages, for a limit that is not 0, the
scan returns the first records up to the limit, whether it collects the pages or streams them; for 0
it returns all.  It relies on answers only to requests for no more records than remain. -/
theorem scan_limited (backend : Backend R) (limit : Nat) (page : List R)
    (rest : List (String × List R)) (hcalm : ∀ n, backend.cancelled n = false)
    (hserves : Serves backend limit 0 "" 0 page rest) :
    ∃ bound, ∀ fuel, bound ≤ fuel → ∀ table joinBatchSize explicit hint, ∃ batches,
      runAnnotationScan table backend ⟨joinBatchSize, limit, explicit, hint⟩ fuel =
        some (.ok batches) ∧
      batches.flatten = limitRows limit (pageRows page rest) :=
  ⟨rest.length + 2, fun _ hfuel table joinBatchSize explicit hint =>
    scan_serves hcalm table ⟨joinBatchSize, limit, explicit, hint⟩ hserves hfuel⟩

/-- Pages of two, none and two records; a request that is not proper is cancelled. -/
def threePages (limit : Nat) : Backend Nat where
  cancelled _ := false
  serve n request :=
    if request.limit ≤ limit - 2 * ((n + 1) / 2) ∨ limit = 0 then
      match n with
      | 0 => { reply := .page [1, 2] "a" }
      | 1 => { reply := .page [] "b" }
      | _ => { reply := .page [3, 4] "" }
    else { reply := .exception "too many", cancelledDuring := true }

theorem threePages_serves (limit : Nat) :
    Serves (threePages limit) limit 0 "" 0 [1, 2] [("a", []), ("b", [3, 4])] := by
  refine ⟨fun request h => ?_, by decide, fun request h => ?_, by decide, fun request h => ?_,
    trivial⟩ <;>
  · have := h.limited
    refine if_pos ?_
    simp at *
    omega

theorem scan_limited_three :
    ∃ bound, ∀ fuel, bound ≤ fuel → ∀ table joinBatchSize explicit hint, ∃ batches,
      runAnnotationScan table (threePages 3) ⟨joinBatchSize, 3, explicit, hint⟩ fuel =
        some (.ok batches) ∧ batches.flatten = [1, 2, 3] :=
  scan_limited (threePages 3) 3 [1, 2] [("a", []), ("b", [3, 4])] (fun _ => rfl)
    (threePages_serves 3)

/-- A row limit of 0 is no limit: all four records are returned. -/
theorem scan_unlimited :
    ¬ ∀ (backend : Backend Nat) (limit : Nat) (page : List Nat) (rest : List (String × List Nat)),
      (∀ n, backend.cancelled n = false) → Serves backend limit 0 "" 0 page rest →
      ∃ bound, ∀ fuel, bound ≤ fuel → ∃ batches,
        runAnnotationScan .pvMetadata backend ⟨100, limit, false, []⟩ fuel = some (.ok batches) ∧
        batches.flatten = (pageRows page rest).take limit := by
  intro h
  obtain ⟨bound, hbound⟩ := h (threePages 0) 0 [1, 2] [("a", []), ("b", [3, 4])] (fun _ => rfl)
    (threePages_serves 0)
  obtain ⟨batches, hbatches, hflatten⟩ := hbound (bound + 4) (by omega)
  obtain ⟨batches', hbatches', hflatten'⟩ := scan_serves (fun _ => rfl) .pvMetadata
    ⟨100, 0, false, []⟩ (threePages_serves 0) (show 4 ≤ bound + 4 by omega)
  obtain rfl := Except.ok.inj (Option.some.inj (hbatches.symm.trans hbatches'))
  rw [hflatten'] at hflatten
  cases hflatten

end MldpDriver.Query.Annotation

/-
# Who wakes a sleeping push

A push falls asleep while the counter is at the capacity.  It is owed a wake-up as long as somebody
is on the way to one: an item is counted, a worker has lowered the counter and not notified, a push
is awake and tests the predicate again, or one is past the wait and brings an item.  Every step of
an orderly run hands this debt on (`Books.sleepers`): nothing is lost between the test and the
falling asleep, as the counter does not move while a push dozes.

From the debt a run of the threads at work is built that wakes the push (section 4).  Section 6 has
three runs that break the promise of back-pressure.
-/
import MldpDriver.Writer.QueuedItems

namespace MldpDriver.Writer

open Lib.Run Lib.Replace List

namespace Backpressure

variable {Batch Item : Type} {setup : Setup Item} {s s' : Backpressure Batch Item}

/-! ## 1. The form of a state -/

/-- The place holds `backpressureMutex_`. -/
def holds : WaitAt → Bool
  | .testing | .dozing | .lastTest => true
  | _ => false

/-- What holds of the waiting whatever the order of the steps. -/
structure Form (setup : Setup Item) (s : Backpressure Batch Item) : Prop where
  shape : Shape setup s.writer
  waits : s.waits.length = s.writer.pushes.length
  owing : s.owing.length = s.writer.workers.length
  inWait : ∀ (p : Nat) (at' : WaitAt), s.waits[p]? = some at' → at' ≠ .arriving →
    ∃ q, s.writer.pushes[p]? = some q ∧ q.pc = .waiting
  holder : ∀ p : Nat, s.mutex = some p → (∃ at', s.waits[p]? = some at' ∧ holds at' = true) ∨
    ∃ q, s.writer.pushes[p]? = some q ∧ q.pc = .woken
  stopOwes : s.stopOwes = true → s.writer.stopper = .shutting 0

theorem form_started (setup : Setup Item) :
    Form setup (started setup.cfg : Backpressure Batch Item) where
  shape := shape_started setup
  waits := rfl
  owing := by simp [started, Writer.started]
  inWait := by simp [started]
  holder := by simp [started]
  stopOwes := by simp [started]

variable {q : Push Batch Item}
variable {p : Nat}
variable {at' : WaitAt}

/-- A push outside the wait is at the place `arriving`. -/
theorem Form.arriving (h : Form setup s) (hq : s.writer.pushes[p]? = some q) (hpc : q.pc ≠ .waiting)
    (hat : s.waits[p]? = some at') :
    at' = .arriving := by
  by_contra hne
  obtain ⟨x, hx, hxpc⟩ := h.inWait p at' hat hne
  rw [hq] at hx
  obtain rfl := Option.some.inj hx
  exact hpc hxpc

variable {w : State Batch Item}

theorem Form.setWriter (h : Form setup s) {owing : List Bool} {forceOwes : Nat} {stopOwes : Bool}
    {b : Int} (hw : Shape setup w) (hpushes : w.pushes = s.writer.pushes)
    (howing : owing.length = s.writer.workers.length)
    (hworkers : w.workers.length = s.writer.workers.length)
    (hstop : stopOwes = true → w.stopper = .shutting 0) :
    Form setup { s with
      writer := w, owing := owing, forceOwes := forceOwes, stopOwes := stopOwes
      balance := b } where
  shape := hw
  waits := hpushes ▸ h.waits
  owing := howing.trans hworkers.symm
  inWait := hpushes ▸ h.inWait
  holder := hpushes ▸ h.holder
  stopOwes := hstop

variable {m : Option Nat}
variable {q q' : Push Batch Item}

theorem Form.setPush (h : Form setup s) {b : Int} (hq : s.writer.pushes[p]? = some q)
    (hpc : q.pc ≠ .waiting) (hw : Shape setup w) (hpushes : w.pushes = s.writer.pushes.set p q')
    (hworkers : w.workers = s.writer.workers) (hstopper : w.stopper = s.writer.stopper)
    (hmutex : m = none ∨ m = s.mutex ∧ q.pc ≠ .woken) :
    Form setup { s with writer := w, balance := b, mutex := m } where
  shape := hw
  waits := by rw [hpushes, length_set]; exact h.waits
  owing := by rw [hworkers]; exact h.owing
  inWait := fun p' at' hat hne => by
    obtain ⟨x, hx, hxpc⟩ := h.inWait p' at' hat hne
    have hp : p' ≠ p := by
      rintro rfl
      exact hne (h.arriving hq hpc hat)
    exact ⟨x, by rw [hpushes, getElem?_replace hq, if_neg hp]; exact hx, hxpc⟩
  holder := fun p' hp' => by
    rcases hmutex with hnone | ⟨hsame, hwoken⟩
    · rw [hnone] at hp'
      cases hp'
    · rw [hsame] at hp'
      rcases h.holder p' hp' with hat | ⟨x, hx, hxpc⟩
      · exact .inl hat
      · have hp : p' ≠ p := by
          rintro rfl
          rw [hq] at hx
          obtain rfl := Option.some.inj hx
          exact hwoken hxpc
        exact .inr ⟨x, by rw [hpushes, getElem?_replace hq, if_neg hp]; exact hx, hxpc⟩
  stopOwes := fun ho => hstopper.trans (h.stopOwes ho)

theorem Form.setWait (h : Form setup s) {old new : WaitAt} {owing : List Bool}
    (hq : s.writer.pushes[p]? = some q) (hpc : q.pc = .waiting) (hat : s.waits[p]? = some old)
    (howing : owing.length = s.writer.workers.length)
    (hmutex : m = none ∨ m = some p ∧ holds new = true ∨
      m = s.mutex ∧ (holds old = true → holds new = true)) :
    Form setup { s.setWait p new with mutex := m, owing := owing } where
  shape := h.shape
  waits := by simpa [Backpressure.setWait] using h.waits
  owing := howing
  inWait := fun p' at' hat' hne => by
    simp only [Backpressure.setWait, getElem?_replace hat] at hat'
    split at hat'
    · rename_i hp
      exact ⟨q, hp ▸ hq, hpc⟩
    · exact h.inWait p' at' hat' hne
  holder := fun p' hp' => by
    simp only [Backpressure.setWait, getElem?_replace hat]
    rcases hmutex with hnone | ⟨hself, hnew⟩ | ⟨hsame, hkeep⟩
    · rw [hnone] at hp'
      cases hp'
    · rw [hself] at hp'
      obtain rfl := Option.some.inj hp'
      exact .inl ⟨new, if_pos rfl, hnew⟩
    · rw [hsame] at hp'
      rcases h.holder p' hp' with ⟨at', hat', hholds⟩ | hwoken
      · by_cases hp : p' = p
        · rw [hp, hat] at hat'
          obtain rfl := Option.some.inj hat'
          exact .inl ⟨new, if_pos hp, hkeep hholds⟩
        · exact .inl ⟨at', (if_neg hp).trans hat', hholds⟩
      · exact .inr hwoken
  stopOwes := h.stopOwes

theorem Form.leave (h : Form setup s) {old : WaitAt} (hq : s.writer.pushes[p]? = some q)
    (hat : s.waits[p]? = some old) (hw : Shape setup (s.writer.setPush p q'))
    (hmutex : m = none ∨ m = s.mutex ∧ q'.pc = .woken) :
    Form setup { s.setWait p .arriving with
      writer := s.writer.setPush p q', mutex := m } where
  shape := hw
  waits := by simpa [Backpressure.setWait, State.setPush] using h.waits
  owing := h.owing
  inWait := fun p' at' hat' hne => by
    simp only [Backpressure.setWait, getElem?_replace hat] at hat'
    split at hat'
    · exact absurd (Option.some.inj hat').symm hne
    · rename_i hp
      simp only [State.setPush, getElem?_replace hq, if_neg hp]
      exact h.inWait p' at' hat' hne
  holder := fun p' hp' => by
    simp only [Backpressure.setWait, State.setPush, getElem?_replace hq, getElem?_replace hat]
    rcases hmutex with hnone | ⟨hsame, hwoken⟩
    · rw [hnone] at hp'
      cases hp'
    · by_cases hp : p' = p
      · exact .inr ⟨q', if_pos hp, hwoken⟩
      · rw [hsame] at hp'
        simp only [if_neg hp]
        exact h.holder p' hp'
  stopOwes := h.stopOwes

/-- `notify_all()`. -/
theorem Form.wakeAll (h : Form setup s) {stopOwes : Bool} {forceOwes : Nat}
    (hstop : stopOwes = true → s.stopOwes = true) :
    Form setup { s with
      waits := s.waits.map wake, stopOwes := stopOwes, forceOwes := forceOwes } where
  shape := h.shape
  waits := by simpa using h.waits
  owing := h.owing
  inWait := fun p at' hat hne => by
    rw [List.getElem?_map, Option.map_eq_some_iff] at hat
    obtain ⟨old, hold, rfl⟩ := hat
    refine h.inWait p old hold fun he => hne ?_
    rw [he]
    rfl
  holder := fun p hp => (h.holder p hp).imp_left fun ⟨at', hat, hholds⟩ =>
    ⟨wake at', by rw [List.getElem?_map, hat]; rfl, by cases at' <;> first | rfl | cases hholds⟩
  stopOwes := fun ho => h.stopOwes (hstop ho)

/-! ## 2. The debt -/

/-- The push is awake in the wait and tests the predicate again. -/
def retrying : WaitAt → Bool
  | .testing | .notified | .expired | .lastTest => true
  | _ => false

/-- The predicate was true for the push, and it has not counted its item. -/
def admitted (q : Push Batch Item) : Bool :=
  q.pc matches .woken | .passed | .routed _ | .appended _ | .notified

/-- Who is on the way to a wake-up. -/
def pending (s : Backpressure Batch Item) : Nat :=
  s.writer.queuedItems + s.waits.countP retrying + s.writer.pushes.countP admitted +
    s.owing.countP id

/-- The predicate of the wait is false. -/
def Full (setup : Setup Item) (s : State Batch Item) : Prop :=
  s.running = true ∧ s.forceQuit = false ∧ toSize setup.cfg.queueCapacity ≤ s.queuedItems

/-- The sleepers are owed a wake-up. -/
def Awaited (setup : Setup Item) (s : Backpressure Batch Item) : Prop :=
  s.stopOwes = true ∨ s.writer.running = true ∧
    (0 < s.forceOwes ∨
      s.writer.forceQuit = false ∧ toSize setup.cfg.queueCapacity ≤ s.pending)

theorem full_iff (s : State Batch Item) : mayProceed setup.cfg s = false ↔ Full setup s := by
  cases hr : s.running <;> cases hf : s.forceQuit <;> simp [mayProceed, Full, hr, hf]

theorem Full.awaited (h : Full setup s.writer) : Awaited setup s :=
  .inr ⟨h.1, .inr ⟨h.2.1, by unfold pending; have := h.2.2; omega⟩⟩

theorem Awaited.keep (h : Awaited setup s) (hstop : s'.stopOwes = s.stopOwes)
    (hforce : s'.forceOwes = s.forceOwes) (hr : s'.writer.running = s.writer.running)
    (hf : s'.writer.forceQuit = s.writer.forceQuit)
    (hp : s.writer.running = true → s.writer.forceQuit = false → s.pending ≤ s'.pending) :
    Awaited setup s' := by
  unfold Awaited at h ⊢
  rw [hstop, hforce, hr, hf]
  refine h.imp_right fun ⟨hrun, hrest⟩ => ⟨hrun, hrest.imp_right fun ⟨hquit, hle⟩ =>
    ⟨hquit, Nat.le_trans hle (hp hrun hquit)⟩⟩

/-- **The invariant of orderly runs.** -/
structure Books (setup : Setup Item) (s : Backpressure Batch Item) : Prop where
  form : Form setup s
  accounts : Accounts setup s.writer
  balance : s.balance = s.writer.queuedItems
  dozing : .dozing ∈ s.waits → Full setup s.writer
  sleepers : .asleep ∈ s.waits → Awaited setup s

theorem books_started (setup : Setup Item) :
    Books setup (started setup.cfg : Backpressure Batch Item) where
  form := form_started setup
  accounts := accounts_started setup
  balance := by simp [started, Writer.started]
  dozing := by simp [started]
  sleepers := by simp [started]

/-! ## 3. Steps -/

theorem Books.setWait (h : Books setup s) {old new : WaitAt} (hq : s.writer.pushes[p]? = some q)
    (hpc : q.pc = .waiting) (hat : s.waits[p]? = some old)
    (hmutex : m = none ∨ m = some p ∧ holds new = true ∨
      m = s.mutex ∧ (holds old = true → holds new = true))
    (hdoze : new = .dozing → Full setup s.writer) (hsleep : new = .asleep → old = .dozing)
    (hretry : retrying old = true → retrying new = true ∨ Full setup s.writer) :
    Books setup { s.setWait p new with mutex := m } where
  form := h.form.setWait hq hpc hat h.form.owing hmutex
  accounts := h.accounts
  balance := h.balance
  dozing := fun hd => (mem_replace hd).elim (fun he => hdoze he.symm) h.dozing
  sleepers := fun hs => by
    rcases mem_replace hs with he | hs
    · have hfull := h.dozing (hsleep he.symm ▸ mem_of_getElem? hat)
      exact Full.awaited hfull
    · by_cases hold : retrying old = true
      · rcases hretry hold with hnew | hfull
        · refine (h.sleepers hs).keep rfl rfl rfl rfl fun _ _ => Nat.le_of_eq ?_
          simp only [pending, Backpressure.setWait, countP_replace_same hat (hnew.trans hold.symm)]
        · exact Full.awaited hfull
      · refine (h.sleepers hs).keep rfl rfl rfl rfl fun _ _ => ?_
        have hcount := countP_replace hat new retrying
        rw [Bool.eq_false_iff.mpr hold, Bool.toNat_false] at hcount
        simp only [pending, Backpressure.setWait]
        omega

/-- A push leaves the wait; it is past it now, or the predicate was false. -/
theorem Books.leave (h : Books setup s) {pc : PushAt} {old : WaitAt}
    (hq : s.writer.pushes[p]? = some q) (hpc : q.pc = .waiting) (hat : s.waits[p]? = some old)
    (hw : Shape setup (s.writer.setPush p { q with pc := pc }))
    (hu : uncounted { q with pc := pc } = false) (hunder : underWay { q with pc := pc } = false)
    (hmutex : m = none ∨ m = s.mutex ∧ pc = .woken) (hnext : pc = .woken ∨ Full setup s.writer) :
    Books setup { s.setWait p .arriving with
      writer := s.writer.setPush p { q with pc := pc }, mutex := m } where
  form := h.form.leave hq hat hw hmutex
  accounts := h.accounts.moved (n := s.writer.nextChannel) hq
    (hu.trans (by simp [uncounted, hpc])) (hunder.trans (by simp [underWay, hpc]))
  balance := h.balance
  dozing := fun hd => (mem_replace hd).elim (fun he => by cases he) h.dozing
  sleepers := fun hs => by
    rcases mem_replace hs with he | hin
    · cases he
    · rcases hnext with rfl | hfull
      · refine (h.sleepers hin).keep rfl rfl rfl rfl fun _ _ => ?_
        have hwaits := countP_replace hat .arriving retrying
        have hpush := countP_replace hq { q with pc := .woken } admitted
        have hold : admitted q = false := by simp [admitted, hpc]
        have hnew : admitted { q with pc := .woken } = true := rfl
        have harr : retrying .arriving = false := rfl
        rw [hold, hnew, Bool.toNat_true, Bool.toNat_false] at hpush
        rw [harr, Bool.toNat_false] at hwaits
        have := Bool.toNat_le (retrying old)
        simp only [pending, Backpressure.setWait, State.setPush]
        omega
      · exact Full.awaited hfull

/-- The writer moves and the sleepers stay: nothing changes that they wait for. -/
theorem Books.setWriter (h : Books setup s) {b : Int}
    (hform : Form setup { s with writer := w, balance := b, mutex := m })
    (haccounts : Accounts setup w) (hbalance : b = w.queuedItems)
    (hr : w.running = s.writer.running) (hf : w.forceQuit = s.writer.forceQuit)
    (hc : Full setup s.writer → s.writer.queuedItems ≤ w.queuedItems)
    (hp : s.writer.running = true → s.writer.forceQuit = false →
      s.writer.queuedItems + s.writer.pushes.countP admitted ≤
        w.queuedItems + w.pushes.countP admitted) :
    Books setup { s with writer := w, balance := b, mutex := m } where
  form := hform
  accounts := haccounts
  balance := hbalance
  dozing := fun hd => by
    have hfull := h.dozing hd
    exact ⟨hr.trans hfull.1, hf.trans hfull.2.1, Nat.le_trans hfull.2.2 (hc hfull)⟩
  sleepers := fun hs => (h.sleepers hs).keep rfl rfl hr hf fun hrun hquit => by
    have := hp hrun hquit
    simp only [pending]
    omega

/-- A push moves on the way from the wait to the counter. -/
theorem Books.setPush (h : Books setup s) (hq : s.writer.pushes[p]? = some q)
    (hpc : q.pc ≠ .waiting) (hshape : Shape setup w) (haccounts : Accounts setup w)
    (hpushes : w.pushes = s.writer.pushes.set p q') (hworkers : w.workers = s.writer.workers)
    (hstopper : w.stopper = s.writer.stopper) (hr : w.running = s.writer.running)
    (hf : w.forceQuit = s.writer.forceQuit) (hc : w.queuedItems = s.writer.queuedItems)
    (hadmitted : s.writer.running = true → s.writer.forceQuit = false → admitted q' = admitted q)
    (hmutex : m = none ∨ m = s.mutex ∧ q.pc ≠ .woken) :
    Books setup { s with writer := w, balance := s.balance, mutex := m } := by
  refine h.setWriter (h.form.setPush hq hpc hshape hpushes hworkers hstopper hmutex) haccounts
    (hc ▸ h.balance) hr hf (fun _ => Nat.le_of_eq hc.symm) fun hrun hquit => ?_
  refine Nat.le_of_eq ?_
  rw [hc, hpushes, countP_replace_same hq (hadmitted hrun hquit)]

/-- **A push outside the wait moves.** -/
theorem Books.pushMove (h : Books setup s) (hq : s.writer.pushes[p]? = some q)
    (hpc : q.pc ≠ .waiting) (hm : PushMove setup s.writer p q w)
    (hroom : q.pc = .woken → s.writer.running = true → s.writer.forceQuit = false →
      s.writer.queuedItems + s.writer.pushes.countP underWay < toSize setup.cfg.queueCapacity) :
    Books setup { s with
      writer := w
      balance := if q.pc = .notified then s.balance + 1 else s.balance
      mutex := if q.pc = .woken then none else s.mutex } := by
  have hshape := h.form.shape.pushMove hq hm
  have haccounts := h.accounts.pushMove hq hm hroom
  cases hm with
  | woke hpc' _ => exact absurd hpc' hpc
  | turnedAway hpc' hstop =>
    simp only [hpc', if_true, reduceCtorEq, if_false]
    refine h.setPush hq hpc hshape haccounts rfl rfl rfl rfl rfl rfl (fun hr hf => ?_) (.inl rfl)
    rcases hstop with hstop | hstop
    · rw [hr] at hstop
      cases hstop
    · rw [hf] at hstop
      cases hstop
  | passed hpc' hr hf =>
    simp only [hpc', if_true, reduceCtorEq, if_false]
    exact h.setPush hq hpc hshape haccounts rfl rfl rfl rfl rfl rfl
      (fun _ _ => by simp [admitted, hpc']) (.inl rfl)
  | routed hpc' idx n hidx =>
    simp only [hpc', reduceCtorEq, if_false]
    exact h.setPush hq hpc hshape haccounts rfl rfl rfl rfl rfl rfl
      (fun _ _ => by simp [admitted, hpc']) (.inr ⟨rfl, by simp [hpc']⟩)
  | appended idx hpc' ch item hch hitem =>
    simp only [hpc', reduceCtorEq, if_false]
    exact h.setPush hq hpc hshape haccounts rfl rfl rfl rfl rfl rfl
      (fun _ _ => by simp [admitted, hpc']) (.inr ⟨rfl, by simp [hpc']⟩)
  | notified idx hpc' =>
    simp only [hpc', reduceCtorEq, if_false]
    exact h.setPush hq hpc hshape haccounts rfl rfl rfl rfl rfl rfl
      (fun _ _ => by simp [admitted, hpc']) (.inr ⟨rfl, by simp [hpc']⟩)
  | counted hpc' =>
    simp only [hpc', if_true, reduceCtorEq, if_false]
    obtain ⟨hlt, -⟩ := h.accounts.count (c := if q.sent < q.items.length then .waiting
      else .returned true) hq hpc' (by split <;> rfl) (by split <;> rfl)
    have hadmitted := countP_replace hq { q with
      pc := if q.sent < q.items.length then .waiting else .returned true } admitted
    have hold : admitted q = true := by simp [admitted, hpc']
    have hnew : admitted { q with
        pc := if q.sent < q.items.length then .waiting else .returned true } = false := by
      split <;> rfl
    rw [hold, hnew, Bool.toNat_true, Bool.toNat_false] at hadmitted
    have hmod : (s.writer.queuedItems + 1) % sizeRange = s.writer.queuedItems + 1 :=
      Nat.mod_eq_of_lt hlt
    refine h.setWriter (h.form.setPush hq hpc hshape rfl rfl rfl (.inr ⟨rfl, by simp [hpc']⟩))
      haccounts ?_ rfl rfl (fun _ => ?_) fun _ _ => ?_
    · change s.balance + 1 = (((s.writer.queuedItems + 1) % sizeRange : Nat) : Int)
      rw [hmod, h.balance]
      rfl
    · change _ ≤ (s.writer.queuedItems + 1) % sizeRange
      omega
    · change _ ≤ (s.writer.queuedItems + 1) % sizeRange + List.countP admitted
        (s.writer.pushes.set p _)
      omega
  | faulted f hpc' hgone =>
    have hself : s.writer.pushes = s.writer.pushes.set p q := by
      obtain ⟨hlt, rfl⟩ := List.getElem?_eq_some_iff.mp hq
      exact (set_getElem_self hlt).symm
    have hne : q.pc ≠ .woken ∧ q.pc ≠ .notified := by
      constructor <;> intro he <;> simp [inFlight, he] at hpc'
    simp only [hne.1, hne.2, if_false]
    exact h.setPush hq hpc hshape haccounts hself rfl rfl rfl rfl rfl (fun _ _ => rfl)
      (.inr ⟨rfl, hne.1⟩)

/-- **A worker moves.**  The one that lowers the counter owes a notify from then on. -/
theorem Books.workerMove (h : Books setup s) {w : Nat} {x : Worker Item} {y : State Batch Item}
    (hw : s.writer.workers[w]? = some x) (ho : s.owing[w]? = some false)
    (hm : WorkerMove s.writer w x y)
    (hok : ∀ t, x = .taken t → counted s.writer.pushes t = true ∧ .dozing ∉ s.waits) :
    Books setup { s with
      writer := y
      owing := if isTaken x then s.owing.set w true else s.owing
      balance := if isTaken x then s.balance - 1 else s.balance } := by
  have hshape := h.form.shape.workerMove hm
  have haccounts := h.accounts.workerMove hw hm fun t ht => (hok t ht).1
  have hquiet : ∀ {y : State Batch Item}, Shape setup y → Accounts setup y →
      y.workers.length = s.writer.workers.length → y.pushes = s.writer.pushes →
      y.stopper = s.writer.stopper → y.running = s.writer.running →
      y.forceQuit = s.writer.forceQuit → y.queuedItems = s.writer.queuedItems →
      Books setup { s with writer := y, owing := s.owing, balance := s.balance } := by
    intro y hshape haccounts hworkers hpushes hstopper hr hf hc
    exact h.setWriter (h.form.setWriter hshape hpushes h.form.owing hworkers fun hs =>
      hstopper.trans (h.form.stopOwes hs)) haccounts (hc ▸ h.balance) hr hf
      (fun _ => Nat.le_of_eq hc.symm) fun _ _ =>
        Nat.le_of_eq (by rw [hc, hpushes])
  cases hm with
  | left ch hch hstop =>
    exact hquiet hshape haccounts (by simp [State.setWorker]) rfl rfl rfl rfl rfl
  | idled => exact h
  | took ch hch t rest hitems =>
    exact hquiet hshape haccounts (by simp [State.setWorker]) rfl rfl rfl rfl rfl
  | done t => exact hquiet hshape haccounts (by simp [State.setWorker]) rfl rfl rfl rfl rfl
  | lowered t =>
    obtain ⟨hcounted, hdozing⟩ := hok t rfl
    obtain ⟨hpos, -⟩ := h.accounts.lower hw hcounted
    have howing := countP_replace ho true id
    simp only [id, Bool.toNat_true, Bool.toNat_false] at howing
    rw [h.accounts.lowered_eq hpos] at hshape haccounts ⊢
    simp only [isTaken, if_true]
    exact
      { form := h.form.setWriter hshape rfl (by simpa using h.form.owing)
          (by simp [State.setWorker]) h.form.stopOwes
        accounts := haccounts
        balance := by
          rw [h.balance]
          simp only
          omega
        dozing := fun hd => absurd hd hdozing
        sleepers := fun hs => (h.sleepers hs).keep rfl rfl rfl rfl fun _ _ => by
          simp only [pending, State.setWorker]
          omega }

/-- **A notify wakes a sleeper**, if one sleeps. -/
theorem Books.notifyNext (h : Books setup s) {w : Nat} {sleeper : Option Nat}
    (ho : s.owing[w]? = some true) (hs : s.notifyNext w sleeper = some s') : Books setup s' := by
  have howing := countP_replace ho false id
  simp only [id, Bool.toNat_true, Bool.toNat_false] at howing
  have hlength : (s.owing.set w false).length = s.writer.workers.length := by
    simpa using h.form.owing
  cases sleeper with
  | none =>
    simp only [Backpressure.notifyNext] at hs
    split at hs
    · cases hs
    · rename_i hnone
      cases hs
      exact
        { form := h.form.setWriter h.form.shape rfl hlength rfl h.form.stopOwes
          accounts := h.accounts
          balance := h.balance
          dozing := h.dozing
          sleepers := fun hs => absurd hs hnone }
  | some p =>
    simp only [Backpressure.notifyNext] at hs
    split at hs
    · rename_i hat
      cases hs
      obtain ⟨q, hq, hpc⟩ := h.form.inWait p _ hat (by simp)
      have hwaits := countP_replace hat .notified retrying
      simp only [retrying, Bool.toNat_true, Bool.toNat_false] at hwaits
      exact
        { form := h.form.setWait (m := s.mutex) hq hpc hat hlength
            (.inr (.inr ⟨rfl, fun hh => by cases hh⟩))
          accounts := h.accounts
          balance := h.balance
          dozing := fun hd => (mem_replace hd).elim (fun he => by cases he) h.dozing
          sleepers := fun hs => by
            refine (h.sleepers ?_).keep rfl rfl rfl rfl fun _ _ => ?_
            · exact (mem_replace hs).elim (fun he => by cases he) id
            · simp only [pending, Backpressure.setWait]
              omega }
    · cases hs

theorem asleep_not_mem_wake (waits : List WaitAt) : .asleep ∉ waits.map wake := by
  intro hmem
  obtain ⟨at', -, he⟩ := mem_map.mp hmem
  unfold wake at he
  split at he
  · cases he
  · rename_i hne
    exact hne he

theorem dozing_mem_wake {waits : List WaitAt} (h : .dozing ∈ waits.map wake) :
    .dozing ∈ waits := by
  obtain ⟨at', hmem, he⟩ := mem_map.mp h
  unfold wake at he
  split at he
  · cases he
  · exact he ▸ hmem

/-- **`notify_all()` wakes all sleepers.** -/
theorem Books.wakeAll (h : Books setup s) {stopOwes : Bool} {forceOwes : Nat}
    (hstop : stopOwes = true → s.stopOwes = true) :
    Books setup { s with
      waits := s.waits.map wake, stopOwes := stopOwes, forceOwes := forceOwes } where
  form := h.form.wakeAll hstop
  accounts := h.accounts
  balance := h.balance
  dozing := fun hd => h.dozing (dozing_mem_wake hd)
  sleepers := fun hs => absurd hs (asleep_not_mem_wake _)

/-- A new call of `push()`. -/
theorem Books.enter (h : Books setup s) (hq : Placed setup q)
    (hpc : underWay q = false ∧ admitted q = false) :
    Books setup { s with
      writer := { s.writer with pushes := s.writer.pushes ++ [q] }
      waits := s.waits ++ [.arriving] } where
  form :=
    { shape := h.form.shape.enter hq
      waits := by simp [h.form.waits]
      owing := h.form.owing
      inWait := fun p at' hat hne => by
        rcases Nat.lt_or_ge p s.waits.length with hlt | hge
        · rw [List.getElem?_append_left hlt] at hat
          rw [List.getElem?_append_left (h.form.waits ▸ hlt)]
          exact h.form.inWait p at' hat hne
        · rw [List.getElem?_append_right hge] at hat
          exact absurd (mem_singleton.mp (mem_of_getElem? hat)) hne
      holder := fun p hp => by
        rcases h.form.holder p hp with ⟨at', hat, hholds⟩ | ⟨x, hx, hxpc⟩
        · exact .inl ⟨at', List.getElem?_append_left (List.getElem?_eq_some_iff.mp hat).1 ▸ hat,
            hholds⟩
        · exact .inr ⟨x, List.getElem?_append_left (List.getElem?_eq_some_iff.mp hx).1 ▸ hx, hxpc⟩
      stopOwes := h.form.stopOwes }
  accounts := h.accounts.enter hpc.1
  balance := h.balance
  dozing := fun hd => h.dozing (by simpa using hd)
  sleepers := fun hs => (h.sleepers (by simpa using hs)).keep rfl rfl rfl rfl fun _ _ => by
    simp [pending, hpc.2, retrying]

/-- **A step of a push.** -/
theorem Books.pushNext (h : Books setup s) (hq : s.writer.pushes[p]? = some q)
    (hat : s.waits[p]? = some at')
    (hok : q.pc = .woken → s.writer.running = true → s.writer.forceQuit = false →
      s.writer.queuedItems + s.writer.pushes.countP underWay < toSize setup.cfg.queueCapacity)
    (hs : s.pushNext setup p q at' = some s') : Books setup s' := by
  by_cases hpc : q.pc = .waiting
  · simp only [Backpressure.pushNext, hpc] at hs
    have hleave : mayProceed setup.cfg s.writer = true →
        s.leave setup p = some s' → Books setup s' := fun hmay hs => by
      obtain ⟨w, hw, rfl⟩ := Option.map_eq_some_iff.mp hs
      cases pushMove_of_step hq hw with
      | woke _ _ =>
        exact h.leave hq hpc hat (h.form.shape.pushMove hq (.woke hpc hmay)) rfl rfl
          (.inr ⟨rfl, rfl⟩) (.inl rfl)
      | _ => simp_all [inFlight]
    cases at' with
    | arriving | notified =>
      simp only [Backpressure.waitNext] at hs
      split at hs
      · cases hs
        exact h.setWait hq hpc hat (.inr (.inl ⟨rfl, rfl⟩)) (by simp) (by simp) (by simp [retrying])
      · cases hs
    | testing =>
      simp only [Backpressure.waitNext] at hs
      split at hs
      · rename_i hmay
        exact hleave hmay hs
      · rename_i hmay
        cases hs
        have hfull := (full_iff _).mp (Bool.eq_false_iff.mpr hmay)
        exact h.setWait (m := s.mutex) hq hpc hat (.inr (.inr ⟨rfl, fun _ => rfl⟩))
          (fun _ => hfull) (by simp) fun _ => .inr hfull
    | dozing =>
      cases hs
      exact h.setWait hq hpc hat (.inl rfl) (by simp) (fun _ => rfl) (by simp [retrying])
    | asleep => cases hs
    | expired =>
      simp only [Backpressure.waitNext] at hs
      split at hs
      · cases hs
        exact h.setWait hq hpc hat (.inr (.inl ⟨rfl, rfl⟩)) (by simp) (by simp) (by simp [retrying])
      · cases hs
    | lastTest =>
      simp only [Backpressure.waitNext] at hs
      split at hs
      · rename_i hmay
        exact hleave hmay hs
      · rename_i hmay
        have hfull := (full_iff _).mp (Bool.eq_false_iff.mpr hmay)
        obtain ⟨w, hw, rfl⟩ := Option.map_eq_some_iff.mp hs
        cases stepMove_of_step hw with
        | timedOut hq' _ =>
          obtain rfl := Option.some.inj (hq.symm.trans hq')
          exact h.leave hq hpc hat (h.form.shape.setPush (n := s.writer.nextChannel)
            (m := s.writer.queuedItems) (placed_of_pc (by simp) (.inr (by simp)) (by simp)
              (by simp [uncounted]))) rfl rfl (.inl rfl) (.inr hfull)
  · have hmove : ∀ w, Writer.step setup s.writer (.push p) = some w →
        Books setup { s with
          writer := w
          balance := if q.pc = .notified then s.balance + 1 else s.balance
          mutex := if q.pc = .woken then none else s.mutex } := fun w hw =>
      h.pushMove hq hpc (pushMove_of_step hq hw) hok
    unfold Backpressure.pushNext at hs
    split at hs
    · rename_i hpc'
      exact absurd hpc' hpc
    · rename_i hpc'
      obtain ⟨w, hw, rfl⟩ := Option.map_eq_some_iff.mp hs
      simpa only [hpc', if_true, reduceCtorEq, if_false] using hmove w hw
    · rename_i hpc'
      obtain ⟨w, hw, rfl⟩ := Option.map_eq_some_iff.mp hs
      simpa only [hpc', if_true, reduceCtorEq, if_false] using hmove w hw
    · rename_i hwaiting hwoken hnotified
      obtain ⟨w, hw, rfl⟩ := Option.map_eq_some_iff.mp hs
      have := hmove w hw
      rwa [if_neg hwoken, if_neg hnotified] at this

/-- **A step of `stop()`.**  Its first one leaves a `notify_all()` to come. -/
theorem Books.stopNext (h : Books setup s) (howes : s.stopOwes = false)
    (hs : Writer.stopNext s.writer = some w) (hok : (s.writer.running = true → .dozing ∉ s.waits) ∧
      (clearing s.writer = true → ∀ ch ∈ s.writer.channels, ch.items = [])) :
    Books setup { s with writer := w, stopOwes := s.writer.running && !w.running } := by
  have hshape := h.form.shape.stopNext hs
  have haccounts := h.accounts.stopNext hs hok.2
  have hoff : s.writer.stopper ≠ .idle → s.writer.running = false := fun hne =>
    Bool.eq_false_iff.mpr fun hr => hne (h.form.shape.idle.mp hr)
  have hsame : w.pushes = s.writer.pushes ∧ w.workers = s.writer.workers ∧
      w.queuedItems = s.writer.queuedItems ∧ w.forceQuit = s.writer.forceQuit ∧
      ((w.running = false ∧ w.stopper = .shutting 0) ∨ s.writer.running = false) := by
    unfold Writer.stopNext at hs
    split at hs
    · split at hs
      · cases hs
        exact ⟨rfl, rfl, rfl, rfl, .inl ⟨rfl, rfl⟩⟩
      · rename_i hr
        cases hs
        exact ⟨rfl, rfl, rfl, rfl, .inr (Bool.eq_false_iff.mpr hr)⟩
    · rename_i i hshut
      have hr := hoff (by simp [hshut])
      split at hs
      · cases hs
        exact ⟨rfl, rfl, rfl, rfl, .inr hr⟩
      · split at hs
        · cases hs
          exact ⟨rfl, rfl, rfl, rfl, .inr hr⟩
        · cases hs
    · rename_i hcleared
      cases hs
      exact ⟨rfl, rfl, rfl, rfl, .inr (hoff (by simp [hcleared]))⟩
    · cases hs
  obtain ⟨hpushes, hworkers, hc, hf, hon⟩ := hsame
  have hform : Form setup { s with
      writer := w, stopOwes := s.writer.running && !w.running } :=
    h.form.setWriter hshape hpushes h.form.owing (by rw [hworkers]) fun ho => by
      rcases hon with ⟨-, hstopper⟩ | hr
      · exact hstopper
      · simp [hr] at ho
  have hnobody : s.writer.running = false → .asleep ∉ s.waits := fun hr hs => by
    rcases h.sleepers hs with ho | ⟨hrun, -⟩
    · rw [howes] at ho
      cases ho
    · rw [hr] at hrun
      cases hrun
  exact
    { form := hform
      accounts := haccounts
      balance := hc ▸ h.balance
      dozing := fun hd => by
        have hrun := (h.dozing hd).1
        exact absurd hd (hok.1 hrun)
      sleepers := fun hs => by
        rcases hon with ⟨hoff', -⟩ | hr
        · cases hrun : s.writer.running with
          | true => exact .inl (by simp [hoff'])
          | false => exact absurd hs (hnobody hrun)
        · exact absurd hs (hnobody hr) }

theorem Books.prepare (h : Books setup s) {enrichers : List (Batch → Enriched Batch)}
    {toItems : Batch → Option (List Item)}
    (hw : Writer.step setup s.writer (.prepare p enrichers toItems) = some w) :
    Books setup { s with writer := w } := by
  have hentered : ∃ q, s.writer.pushes[p]? = some q ∧ q.pc = .entered := by
    cases stepMove_of_step hw with
    | refused hq hpc _ => exact ⟨_, hq, hpc⟩
    | ready hq hpc _ => exact ⟨_, hq, hpc⟩
  obtain ⟨q, hq, hpc⟩ := hentered
  obtain ⟨hshape, q', rfl, hu, hsent, hunder, hwoken⟩ := h.form.shape.prepared hq hpc hw
  have hold : underWay q = false ∧ admitted q = false ∧ uncounted q = false := by
    simp [underWay, admitted, uncounted, hpc]
  have hnew : admitted q' = false := by
    cases hpc' : q'.pc <;> simp_all [admitted, underWay]
  have haccounts : Accounts setup (s.writer.setPush p q') :=
    h.accounts.setPush hq hsent (hu.trans hold.2.2.symm)
      (by simpa only [countP_replace_same hq (hunder.trans hold.1.symm)] using h.accounts.reserve)
  exact h.setPush hq (by simp [hpc]) hshape haccounts rfl rfl rfl rfl rfl rfl
    (fun _ _ => hnew.trans hold.2.1.symm) (.inr ⟨rfl, by simp [hpc]⟩)

/-- `forceStop()` leaves a `notify_all()` to come. -/
theorem Books.forceStop (h : Books setup s) (hw : Writer.step setup s.writer .forceStop = some w)
    (hdozing : .dozing ∉ s.waits) :
    Books setup { s with writer := w, forceOwes := s.forceOwes + 1 } := by
  cases stepMove_of_step hw
  have hshape : Shape setup { s.writer with forceQuit := true } :=
    { h.form.shape with alive := fun _ hquit => by cases hquit }
  exact
    { form := h.form.setWriter hshape rfl h.form.owing rfl h.form.stopOwes
      accounts := h.accounts.rearrange (List.Perm.refl _) rfl rfl
      balance := h.balance
      dozing := fun hd => absurd hd hdozing
      sleepers := fun hs => (h.sleepers hs).imp_right
        (And.imp_right fun _ => .inl (Nat.succ_pos _)) }

theorem orderly_worker {w : Nat} (hok : orderly setup s (.writer (.worker w)) = true)
    (t : Ticket Item) (hw : s.writer.workers[w]? = some (.taken t)) :
    counted s.writer.pushes t = true ∧ .dozing ∉ s.waits := by
  simpa only [orderly, hw, Bool.and_eq_true, decide_eq_true_eq] using hok

theorem orderly_push (hok : orderly setup s (.writer (.push p)) = true)
    (hq : s.writer.pushes[p]? = some q) (hpc : q.pc = .woken) (hr : s.writer.running = true)
    (hf : s.writer.forceQuit = false) :
    s.writer.queuedItems + s.writer.pushes.countP underWay < toSize setup.cfg.queueCapacity := by
  simpa [orderly, hq, hpc, hr, hf] using hok

theorem orderly_stop (hok : orderly setup s (.writer .stop) = true) :
    (s.writer.running = true → .dozing ∉ s.waits) ∧
      (clearing s.writer = true → ∀ ch ∈ s.writer.channels, ch.items = []) := by
  simp only [orderly, Bool.and_eq_true, Bool.or_eq_true, Bool.not_eq_true', decide_eq_true_eq,
    all_eq_true, List.isEmpty_iff] at hok
  refine ⟨fun hr => hok.1.resolve_left ?_, fun hc => hok.2.resolve_left ?_⟩
  · rw [hr]
    exact Bool.noConfusion
  · rw [hc]
    exact Bool.noConfusion

/-- A worker goes on; when it has taken an item it lowers the counter and owes a notification. -/
theorem Books.worker (h : Books setup s) {w : Nat}
    (hok : orderly setup s (.writer (.worker w)) = true)
    (hs : writerNext setup s (.worker w) = some s') : Books setup s' := by
  simp only [writerNext] at hs
  split at hs
  · rename_i x hx
    split at hs
    · rename_i ho
      have hmove : ∀ y, Writer.step setup s.writer (.worker w) = some y →
          Books setup { s with
            writer := y
            owing := if isTaken x then s.owing.set w true else s.owing
            balance := if isTaken x then s.balance - 1 else s.balance } := fun y hy =>
        h.workerMove hx ho (workerMove_of_step hx hy) fun t ht => orderly_worker hok t (ht ▸ hx)
      unfold Backpressure.workerNext at hs
      split at hs
      · obtain ⟨y, hy, rfl⟩ := Option.map_eq_some_iff.mp hs
        exact hmove y hy
      · rename_i hnot
        obtain ⟨y, hy, rfl⟩ := Option.map_eq_some_iff.mp hs
        have htaken : isTaken x = false := by
          cases x with
          | taken t => exact absurd rfl (hnot t)
          | _ => rfl
        simpa [htaken] using hmove y hy
    · cases hs
  · cases hs

theorem Books.writer (h : Books setup s) {a : Writer.Action Batch Item}
    (hok : orderly setup s (.writer a) = true) (hs : writerNext setup s a = some s') :
    Books setup s' := by
  cases a with
  | enter batch =>
    obtain ⟨w, hw, rfl⟩ := Option.map_eq_some_iff.mp hs
    cases stepMove_of_step hw
    refine h.enter ?_ ?_
    · cases s.writer.running <;>
        exact
          { fresh := by simp, more := by simp, target := by simp, sent := by simp [uncounted] }
    · cases s.writer.running <;> exact ⟨rfl, rfl⟩
  | prepare p enrichers toItems =>
    obtain ⟨w, hw, rfl⟩ := Option.map_eq_some_iff.mp hs
    exact h.prepare hw
  | timeout p =>
    simp only [Backpressure.writerNext] at hs
    split at hs
    · rename_i hcond
      cases hs
      obtain ⟨-, hat | hat⟩ := hcond
      all_goals
        obtain ⟨q, hq, hpc⟩ := h.form.inWait p _ hat (by simp)
        exact h.setWait (m := s.mutex) hq hpc hat
          (.inr (.inr ⟨rfl, fun hh => by cases hh⟩)) (by simp) (by simp) (by simp [retrying])
    · cases hs
  | push p =>
    simp only [Backpressure.writerNext] at hs
    split at hs
    · rename_i q at' hq hat
      exact h.pushNext hq hat (orderly_push hok hq) hs
    · cases hs
  | worker w => exact h.worker hok hs
  | stop =>
    simp only [Backpressure.writerNext] at hs
    split at hs
    · cases hs
    · rename_i howes
      obtain ⟨w, hw, rfl⟩ := Option.map_eq_some_iff.mp hs
      exact h.stopNext (Bool.eq_false_iff.mpr howes) (stopNext_of_step hw) (orderly_stop hok)
  | forceStop =>
    obtain ⟨w, hw, rfl⟩ := Option.map_eq_some_iff.mp hs
    exact h.forceStop hw (of_decide_eq_true hok)

/-- **The step lemma.**  An orderly step keeps the books. -/
theorem Books.step (h : Books setup s) {a : Action Batch Item} (hok : orderly setup s a = true)
    (hs : Backpressure.step setup s a = some s') : Books setup s' := by
  unfold Backpressure.step at hs
  split at hs
  · cases hs
  cases a with
  | writer a => exact h.writer hok hs
  | notify w sleeper =>
    simp only at hs
    split at hs
    · rename_i ho
      exact h.notifyNext ho hs
    · cases hs
  | notifyAllOfStop =>
    simp only at hs
    split at hs
    · cases hs
      exact h.wakeAll fun ho => by cases ho
    · cases hs
  | notifyAllOfForceStop =>
    simp only at hs
    split at hs
    · cases hs
      exact h.wakeAll id
    · cases hs
  | spurious p =>
    simp only at hs
    split at hs
    · rename_i hat
      cases hs
      obtain ⟨q, hq, hpc⟩ := h.form.inWait p _ hat (by simp)
      exact h.setWait (m := s.mutex) hq hpc hat (.inr (.inr ⟨rfl, fun hh => by cases hh⟩))
        (by simp) (by simp) (by simp [retrying])
    · cases hs

/-- **The run lemma.** -/
theorem Books.run (hrun : Runs (Backpressure.step setup) (orderly setup · ·) s s')
    (h : Books setup s) : Books setup s' :=
  hrun.keeps (fun _ _ _ h hok hs => h.step hok hs) h

/-! ## 4. A way to the wake-up -/

/-- The threads at work can wake the push. -/
def Wakes (setup : Setup Item) (s : Backpressure Batch Item) (p : Nat) : Prop :=
  ∃ s', Runs (step setup) ownStep s s' ∧ s'.waits[p]? ≠ some .asleep

theorem not_blocked_iff : ¬ s.BlockedForEver setup p ↔ Wakes setup s p := by
  simp only [BlockedForEver, Wakes, not_forall, exists_prop]

theorem Wakes.after {a : Action Batch Item} (hs : step setup s a = some s') (hown : ownStep s a)
    (h : Wakes setup s' p) : Wakes setup s p := by
  obtain ⟨s'', hrun, hawake⟩ := h
  exact ⟨s'', Relation.ReflTransGen.head ⟨a, hown, hs⟩ hrun, hawake⟩

theorem wakes_of_awake (h : s.waits[p]? ≠ some .asleep) : Wakes setup s p :=
  ⟨s, Relation.ReflTransGen.refl, h⟩

/-- The writer is on. -/
structure Live (setup : Setup Item) (s : Backpressure Batch Item) : Prop where
  form : Form setup s
  running : s.writer.running = true
  calm : s.writer.forceQuit = false

section Wake

variable {p : Nat}

theorem Live.noFault (h : Live setup s) : s.writer.fault.isSome = false := by
  cases hf : s.writer.fault with
  | none => rfl
  | some f =>
    exact absurd (h.form.shape.fault (by simp [hf])) (h.form.shape.not_cleared h.running)

theorem Live.channels (h : Live setup s) :
    s.writer.channels.length = setup.cfg.channelCount :=
  h.form.shape.channels (h.form.shape.not_cleared h.running)

theorem Live.owing (h : Live setup s) {w : Nat} (ho : s.owing[w]? = some true) :
    Wakes setup s p := by
  by_cases hp : s.waits[p]? = some .asleep
  · have hs : step setup s (.notify w (some p)) =
        some { s.setWait p .notified with owing := s.owing.set w false } := by
      simp [step, h.noFault, ho, notifyNext, hp]
    refine Wakes.after hs trivial (wakes_of_awake ?_)
    simp [Backpressure.setWait, getElem?_replace hp]
  · exact wakes_of_awake hp

variable {y : State Batch Item}

theorem Live.workerMove (h : Live setup s) {w : Nat} {x : Worker Item} {owing : List Bool} {b : Int}
    (hm : WorkerMove s.writer w x y) (howing : owing.length = s.owing.length) :
    Live setup { s with writer := y, owing := owing, balance := b } := by
  obtain ⟨hpushes, hworkers, hstopper, hr, hf⟩ := hm.frame
  exact
    { form := h.form.setWriter (h.form.shape.workerMove hm) hpushes
        (howing.trans h.form.owing) hworkers fun ho => hstopper.trans (h.form.stopOwes ho)
      running := hr.trans h.running
      calm := hf.trans h.calm }

theorem Live.worked (h : Live setup s) {w : Nat} {x : Worker Item}
    (hw : s.writer.workers[w]? = some x) (hy : Writer.workerNext setup.cfg s.writer w x = some y)
    (hnext : ∀ s' : Backpressure Batch Item, Live setup s' → s'.writer = y →
      (∀ t, x = .taken t → s'.owing[w]? = some true) → Wakes setup s' p) :
    Wakes setup s p := by
  have hlt : w < s.owing.length := h.form.owing ▸ (List.getElem?_eq_some_iff.mp hw).1
  cases ho : s.owing[w] with
  | true => exact h.owing (List.getElem?_eq_some_iff.mpr ⟨hlt, ho⟩)
  | false =>
    have ho' : s.owing[w]? = some false := List.getElem?_eq_some_iff.mpr ⟨hlt, ho⟩
    have hstep : Writer.step setup s.writer (.worker w) = some y := by
      simp only [Writer.step, h.noFault, Bool.false_eq_true, if_false, hw, Option.bind_some, hy]
    have hs : step setup s (.writer (.worker w)) = s.workerNext setup w x := by
      simp only [step, h.noFault, Bool.false_eq_true, if_false, writerNext, hw, ho', if_true]
    have hm := workerMove_of_workerNext hy
    cases x with
    | taken t =>
      rw [Backpressure.workerNext, hstep] at hs
      refine Wakes.after hs trivial (hnext _ (h.workerMove hm (by simp)) rfl fun _ _ => ?_)
      simp [getElem?_replace ho']
    | _ =>
      rw [Backpressure.workerNext, hstep] at hs
      · exact Wakes.after hs trivial (hnext _ (h.workerMove hm rfl) rfl fun _ ht => by cases ht)
      · exact fun _ ht => by cases ht

theorem Live.taken (h : Live setup s) {w : Nat} {t : Ticket Item}
    (hw : s.writer.workers[w]? = some (.taken t)) : Wakes setup s p :=
  h.worked hw rfl fun _ hlive _ howes => hlive.owing (howes t rfl)

theorem Live.waiting (h : Live setup s) {w : Nat} {ch : WorkerChannel Item} {t : Ticket Item}
    {rest : List (Ticket Item)} (hw : s.writer.workers[w]? = some .waiting)
    (hch : s.writer.channels[w]? = some ch) (hitems : ch.items = t :: rest) :
    Wakes setup s p := by
  have hy : Writer.workerNext setup.cfg s.writer w .waiting =
      some { s.writer.setWorker w (.taken t) with
        channels := s.writer.channels.set w { ch with items := rest } } := by
    simp only [Writer.workerNext, hch, h.calm, Bool.false_eq_true, if_false, hitems]
  refine h.worked hw hy fun s' hlive hwriter _ => hlive.taken (w := w) (t := t) ?_
  simp [hwriter, State.setWorker, getElem?_replace hw]

/-- **An item in a queue.** -/
theorem Live.queued (h : Live setup s) {w : Nat} {ch : WorkerChannel Item}
    (hch : s.writer.channels[w]? = some ch) (hne : ch.items ≠ []) : Wakes setup s p := by
  obtain ⟨t, rest, hitems⟩ := exists_cons_of_ne_nil hne
  have hlt : w < s.writer.workers.length := by
    have := (List.getElem?_eq_some_iff.mp hch).1
    rwa [h.channels, ← h.form.shape.workers] at this
  have hw : s.writer.workers[w]? = some s.writer.workers[w] := List.getElem?_eq_getElem hlt
  cases hx : s.writer.workers[w] with
  | waiting => exact h.waiting (hx ▸ hw) hch hitems
  | taken t' => exact h.taken (hx ▸ hw)
  | exited =>
    exact absurd hx (h.form.shape.alive h.running h.calm _ (getElem_mem hlt))
  | processing t' =>
    rw [hx] at hw
    refine h.worked hw rfl fun s' hlive hwriter _ => hlive.waiting (w := w) ?_ (hwriter ▸ hch) hitems
    simp [hwriter, State.setWorker, getElem?_replace hw]

/-- **A held item.** -/
theorem Live.held (h : Live setup s) {t : Ticket Item} (ht : t ∈ Writer.held s.writer) :
    Wakes setup s p := by
  rcases mem_append.mp ht with hqueued | htaken
  · obtain ⟨ch, hch, hmem⟩ := mem_flatMap.mp hqueued
    obtain ⟨w, hw⟩ := List.getElem?_of_mem hch
    exact h.queued hw (ne_nil_of_mem hmem)
  · obtain ⟨x, hx, hmem⟩ := mem_flatMap.mp htaken
    obtain ⟨w, hw⟩ := List.getElem?_of_mem hx
    cases x with
    | taken t' => exact h.taken hw
    | _ => cases hmem

theorem Live.counter (h : Live setup s) (haccounts : Accounts setup s.writer)
    (hc : 0 < s.writer.queuedItems) : Wakes setup s p := by
  rw [haccounts.counter] at hc
  obtain ⟨t, ht, -⟩ := countP_pos_iff.mp hc
  exact h.held ht

variable {i : Nat}

theorem Live.pushMove (h : Live setup s) {m : Option Nat} (hq : s.writer.pushes[i]? = some q)
    (hpc : q.pc ≠ .waiting) (hm : PushMove setup s.writer i q y)
    (hpushes : y.pushes = s.writer.pushes.set i q') (hworkers : y.workers = s.writer.workers)
    (hstopper : y.stopper = s.writer.stopper) (hr : y.running = s.writer.running)
    (hf : y.forceQuit = s.writer.forceQuit) (hmutex : m = none ∨ m = s.mutex ∧ q.pc ≠ .woken) :
    Live setup { s with writer := y, mutex := m } where
  form := h.form.setPush (b := s.balance) hq hpc (h.form.shape.pushMove hq hm) hpushes
    hworkers hstopper hmutex
  running := hr.trans h.running
  calm := hf.trans h.calm

variable {q : Push Batch Item}

theorem Live.push_step (h : Live setup s) (hq : s.writer.pushes[i]? = some q)
    (hpc : q.pc ≠ .waiting ∧ q.pc ≠ .woken ∧ q.pc ≠ .notified)
    (hy : Writer.pushNext setup s.writer i q = some y) :
    PushMove setup s.writer i q y ∧
      step setup s (.writer (.push i)) = some { s with writer := y } := by
  have hlt : i < s.waits.length := h.form.waits ▸ (List.getElem?_eq_some_iff.mp hq).1
  have hat : s.waits[i]? = some s.waits[i] := List.getElem?_eq_getElem hlt
  refine ⟨pushMove_of_pushNext hy, ?_⟩
  have hstep : Writer.step setup s.writer (.push i) = some y := by
    simp only [Writer.step, h.noFault, Bool.false_eq_true, if_false, hq, Option.bind_some, hy]
  simp only [step, h.noFault, Bool.false_eq_true, if_false, writerNext, hq, hat]
  unfold Backpressure.pushNext
  split
  · rename_i he
    exact absurd he hpc.1
  · rename_i he
    exact absurd he hpc.2.1
  · rename_i he
    exact absurd he hpc.2.2
  · rw [hstep]
    rfl

theorem Live.routed (h : Live setup s) {i idx : Nat} (hq : s.writer.pushes[i]? = some q)
    (hpc : q.pc = .routed idx) : Wakes setup s p := by
  have hok := h.form.shape.pushes q (mem_of_getElem? hq)
  have hsent : q.sent < q.items.length := hok.more (.inr (.inr (.inr ⟨idx, hpc⟩)))
  have hidx : idx < s.writer.channels.length := h.channels ▸ hok.target idx (.inl hpc)
  have hitem : q.items[q.sent]? = some q.items[q.sent] := List.getElem?_eq_getElem hsent
  have hch : s.writer.channels[idx]? = some s.writer.channels[idx] :=
    List.getElem?_eq_getElem hidx
  have hy : Writer.pushNext setup s.writer i q =
      some { s.writer.setPush i { q with pc := .appended idx, sent := q.sent + 1 } with
        channels := s.writer.channels.set idx { s.writer.channels[idx] with
          items := s.writer.channels[idx].items ++ [⟨i, q.sent, q.items[q.sent]⟩] }
        history := s.writer.history ++ [.enqueued idx ⟨i, q.sent, q.items[q.sent]⟩] } := by
    simp only [Writer.pushNext, hpc, hch, hitem]
  obtain ⟨hm, hs⟩ := h.push_step hq (by simp [hpc]) hy
  have hlive := h.pushMove (m := s.mutex) hq (by simp [hpc]) hm rfl rfl rfl rfl rfl
    (.inr ⟨rfl, by simp [hpc]⟩)
  exact Wakes.after hs trivial (hlive.queued (w := idx)
    ((getElem?_replace hch _ idx).trans (if_pos rfl)) (by simp))

theorem Live.passed (h : Live setup s) (hq : s.writer.pushes[i]? = some q) (hpc : q.pc = .passed) :
    Wakes setup s p := by
  have hok := h.form.shape.pushes q (mem_of_getElem? hq)
  have hsent : q.sent < q.items.length := hok.more (.inr (.inr (.inl hpc)))
  have hitem : q.items[q.sent]? = some q.items[q.sent] := List.getElem?_eq_getElem hsent
  have hpos : s.writer.channels.length ≠ 0 := by
    have := setup.cfg.channelCount_pos
    rw [h.channels]
    omega
  have hy : Writer.pushNext setup s.writer i q =
      some { s.writer.setPush i { q with pc := .routed (route setup s.writer q.items[q.sent]).1 }
        with nextChannel := (route setup s.writer q.items[q.sent]).2 } := by
    simp only [Writer.pushNext, hpc, hitem, if_neg hpos]
  obtain ⟨hm, hs⟩ := h.push_step hq (by simp [hpc]) hy
  have hlive := h.pushMove (m := s.mutex) hq (by simp [hpc]) hm rfl rfl rfl rfl rfl
    (.inr ⟨rfl, by simp [hpc]⟩)
  exact Wakes.after hs trivial (hlive.routed (i := i)
    ((getElem?_replace hq _ i).trans (if_pos rfl)) rfl)

theorem Live.woken (h : Live setup s) (hq : s.writer.pushes[i]? = some q) (hpc : q.pc = .woken) :
    Wakes setup s p := by
  have hlt : i < s.waits.length := h.form.waits ▸ (List.getElem?_eq_some_iff.mp hq).1
  have hat : s.waits[i]? = some s.waits[i] := List.getElem?_eq_getElem hlt
  have hstep : Writer.step setup s.writer (.push i) =
      some (s.writer.setPush i { q with pc := .passed }) := by
    simp only [Writer.step, h.noFault, Bool.false_eq_true, if_false, hq, Option.bind_some,
      Writer.pushNext, hpc, h.running, h.calm, Bool.not_true, Bool.or_false]
  have hs : step setup s (.writer (.push i)) =
      some { s with writer := s.writer.setPush i { q with pc := .passed }, mutex := none } := by
    simp only [step, h.noFault, Bool.false_eq_true, if_false, writerNext, hq, hat,
      Backpressure.pushNext, hpc, hstep, Option.map_some]
  have hlive := h.pushMove (m := none) hq (by simp [hpc]) (pushMove_of_step hq hstep) rfl rfl
    rfl rfl rfl (.inl rfl)
  exact Wakes.after hs trivial (hlive.passed (i := i)
    ((getElem?_replace hq _ i).trans (if_pos rfl)) rfl)

/-- A push that tests the predicate with the mutex: it goes on, or the counter is at the
capacity. -/
theorem Live.testing (h : Live setup s) (haccounts : Accounts setup s.writer)
    (hcap : 0 < toSize setup.cfg.queueCapacity) (hat : s.waits[i]? = some at')
    (htest : at' = .testing ∨ at' = .lastTest) :
    Wakes setup s p := by
  obtain ⟨q, hq, hpc⟩ := h.form.inWait i at' hat (by rcases htest with rfl | rfl <;> simp)
  by_cases hmay : mayProceed setup.cfg s.writer = true
  · have hstep : Writer.step setup s.writer (.push i) =
        some (s.writer.setPush i { q with pc := .woken }) := by
      simp only [Writer.step, h.noFault, Bool.false_eq_true, if_false, hq, Option.bind_some,
        Writer.pushNext, hpc, hmay, if_true]
    have hs : step setup s (.writer (.push i)) = some { s.setWait i .arriving with
        writer := s.writer.setPush i { q with pc := .woken } } := by
      rcases htest with rfl | rfl <;>
        simp only [step, h.noFault, Bool.false_eq_true, if_false, writerNext, hq, hat,
          Backpressure.pushNext, hpc, waitNext, hmay, if_true, Backpressure.leave, hstep,
          Option.map_some]
    have hshape := h.form.shape.pushMove hq (.woke hpc hmay)
    have hlive : Live setup { s.setWait i .arriving with
        writer := s.writer.setPush i { q with pc := .woken } } :=
      { form := h.form.leave hq hat hshape (.inr ⟨rfl, rfl⟩)
        running := h.running
        calm := h.calm }
    exact Wakes.after hs trivial (hlive.woken (i := i)
      ((getElem?_replace hq _ i).trans (if_pos rfl)) rfl)
  · have hfull := (full_iff _).mp (Bool.eq_false_iff.mpr hmay)
    exact h.counter haccounts (Nat.lt_of_lt_of_le hcap hfull.2.2)

theorem Books.retrying (h : Books setup s) (hlive : Live setup s)
    (hcap : 0 < toSize setup.cfg.queueCapacity) (hat : s.waits[i]? = some at')
    (hretry : Backpressure.retrying at' = true) :
    Wakes setup s p := by
  have htake : ∀ new, (new = .testing ∨ new = .lastTest) →
      (s.mutex = none → Backpressure.step setup s (.writer (.push i)) =
        some { s.setWait i new with mutex := some i }) → Wakes setup s p := by
    intro new hnew hstep
    cases hm : s.mutex with
    | none =>
      obtain ⟨q, hq, hpc⟩ := h.form.inWait i at' hat (by rintro rfl; cases hretry)
      have hform : Form setup { s.setWait i new with mutex := some i } :=
        h.form.setWait hq hpc hat h.form.owing
          (.inr (.inl ⟨rfl, by rcases hnew with rfl | rfl <;> rfl⟩))
      have hlive' : Live setup { s.setWait i new with mutex := some i } :=
        { form := hform, running := hlive.running, calm := hlive.calm }
      exact Wakes.after (hstep hm) trivial (hlive'.testing h.accounts hcap
        ((getElem?_replace hat _ i).trans (if_pos rfl)) hnew)
    | some j =>
      rcases h.form.holder j hm with ⟨at'', hat'', hholds⟩ | ⟨q, hq, hpc⟩
      · cases at'' with
        | testing => exact hlive.testing h.accounts hcap hat'' (.inl rfl)
        | lastTest => exact hlive.testing h.accounts hcap hat'' (.inr rfl)
        | dozing =>
          have hfull := h.dozing (mem_of_getElem? hat'')
          exact hlive.counter h.accounts (Nat.lt_of_lt_of_le hcap hfull.2.2)
        | _ => cases hholds
      · exact hlive.woken hq hpc
  cases at' with
  | testing => exact hlive.testing h.accounts hcap hat (.inl rfl)
  | lastTest => exact hlive.testing h.accounts hcap hat (.inr rfl)
  | notified =>
    obtain ⟨q, hq, hpc⟩ := h.form.inWait i _ hat (by simp)
    exact htake .testing (.inl rfl) fun hm => by
      simp only [Backpressure.step, hlive.noFault, Bool.false_eq_true, if_false, writerNext, hq,
        hat, Backpressure.pushNext, hpc, waitNext, hm, if_true]
  | expired =>
    obtain ⟨q, hq, hpc⟩ := h.form.inWait i _ hat (by simp)
    exact htake .lastTest (.inr rfl) fun hm => by
      simp only [Backpressure.step, hlive.noFault, Bool.false_eq_true, if_false, writerNext, hq,
        hat, Backpressure.pushNext, hpc, waitNext, hm, if_true]
  | _ => cases hretry

theorem Books.admitted (h : Books setup s) (hlive : Live setup s)
    (hq : s.writer.pushes[i]? = some q) (hadmitted : Backpressure.admitted q = true) :
    Wakes setup s p := by
  have hpresent : uncounted q = true → Wakes setup s p := fun hu => by
    obtain ⟨t, ht, -⟩ := h.accounts.present i q hq hu
    exact hlive.held ht
  cases hpc : q.pc with
  | woken => exact hlive.woken hq hpc
  | passed => exact hlive.passed hq hpc
  | routed idx => exact hlive.routed hq hpc
  | appended idx => exact hpresent (by simp [uncounted, hpc])
  | notified => exact hpresent (by simp [uncounted, hpc])
  | _ => simp [Backpressure.admitted, hpc] at hadmitted

theorem step_notifyAllOfStop (hf : s.writer.fault.isSome = false) (ho : s.stopOwes = true) :
    step setup s .notifyAllOfStop =
      some { s with waits := s.waits.map wake, stopOwes := false } := by
  simp [step, hf, ho]

theorem step_notifyAllOfForceStop (hf : s.writer.fault.isSome = false) (ho : 0 < s.forceOwes) :
    step setup s .notifyAllOfForceStop =
      some { s with waits := s.waits.map wake, forceOwes := s.forceOwes - 1 } := by
  simp [step, hf, ho]

/-- **A sleeper can be woken by the threads at work.** -/
theorem Books.wakes (h : Books setup s) (hcap : 0 < toSize setup.cfg.queueCapacity) (p : Nat) :
    Wakes setup s p := by
  by_cases hp : s.waits[p]? = some .asleep
  · have hawake : ∀ {stopOwes : Bool} {forceOwes : Nat}, Wakes setup { s with
        waits := s.waits.map wake, stopOwes := stopOwes, forceOwes := forceOwes } p :=
      wakes_of_awake fun hs => asleep_not_mem_wake s.waits (mem_of_getElem? hs)
    rcases h.sleepers (mem_of_getElem? hp) with ho | ⟨hr, ho | ⟨hquit, hpending⟩⟩
    · have hf : s.writer.fault.isSome = false := by
        cases hf : s.writer.fault with
        | none => rfl
        | some f =>
          have hstopper := h.form.stopOwes ho
          rcases h.form.shape.fault (by simp [hf]) with hc | hc <;> rw [hstopper] at hc <;> cases hc
      exact Wakes.after (step_notifyAllOfStop hf ho) trivial hawake
    · have hf : s.writer.fault.isSome = false := by
        cases hf : s.writer.fault with
        | none => rfl
        | some f =>
          exact absurd (h.form.shape.fault (by simp [hf])) (h.form.shape.not_cleared hr)
      exact Wakes.after (step_notifyAllOfForceStop hf ho) trivial hawake
    · have hlive : Live setup s := { form := h.form, running := hr, calm := hquit }
      unfold pending at hpending
      have hsome : 0 < s.writer.queuedItems ∨ 0 < s.waits.countP Backpressure.retrying ∨
          0 < s.writer.pushes.countP Backpressure.admitted ∨ 0 < s.owing.countP id := by
        omega
      rcases hsome with hc | hc | hc | hc
      · exact hlive.counter h.accounts hc
      · obtain ⟨at', hmem, hretry⟩ := countP_pos_iff.mp hc
        obtain ⟨i, hi⟩ := List.getElem?_of_mem hmem
        exact h.retrying hlive hcap hi hretry
      · obtain ⟨q, hmem, hadmitted⟩ := countP_pos_iff.mp hc
        obtain ⟨i, hi⟩ := List.getElem?_of_mem hmem
        exact h.admitted hlive hi hadmitted
      · obtain ⟨o, hmem, ho⟩ := countP_pos_iff.mp hc
        obtain ⟨w, hw⟩ := List.getElem?_of_mem hmem
        exact hlive.owing (hw.trans (congrArg some ho))
  · exact wakes_of_awake hp

end Wake

/-! ## 5. Orderly runs -/

theorem Books.counts (h : Books setup s) (hrest : s.AtRest) :
    s.writer.queuedItems = s.queueLength := by
  have hworkers : s.writer.workers.flatMap lowering = [] :=
    flatMap_eq_nil_iff.mpr fun x hx => by
      have := hrest.2 x hx
      cases x <;> first | rfl | cases this
  have hcounted : ∀ t ∈ held s.writer, counted s.writer.pushes t = true := fun t ht => by
    obtain ⟨q, hq, -⟩ := h.accounts.known t ht
    exact counted_other hq (.inr (hrest.1 q (mem_of_getElem? hq)))
  rw [h.accounts.counter, countP_eq_length.mpr hcounted, held, hworkers, append_nil,
    length_flatMap, queueLength]

/-- **The counter is right and nobody sleeps on**, in every state an orderly run reaches.  A worker
must not count an item down before its push has counted it up, or the counter wraps; not while a
push dozes, or the notify is lost; and no push may go past the wait when those before it fill the
queue. -/
theorem regulated_of_orderly (setup : Setup Item) {s : Backpressure Batch Item}
    (hrun : Runs (step setup) (orderly setup · ·) (started setup.cfg) s) : Regulated setup s := by
  have h := Books.run hrun (books_started setup)
  refine ⟨h.counts, by rw [h.balance]; exact Int.natCast_nonneg _, ?_, fun hroom p => ?_⟩
  · exact Nat.le_trans (Nat.le_add_right ..) h.accounts.reserve
  · exact not_blocked_iff.mpr (h.wakes (Nat.lt_of_le_of_lt (Nat.zero_le _) hroom) p)

/-- One worker, room for one item. -/
def oneSlot : Setup Unit where
  cfg := { queueCapacity := 1, workerCount := 1 }
  itemRoutingKey := fun _ => ""
  hash := fun _ => 0

/-- A call of `push()` with one item. -/
def call (p : Nat) : List (Action Unit Unit) :=
  [.writer (.enter ()), .writer (.prepare p [] fun _ => some [()])]

def pushSteps (p n : Nat) : List (Action Unit Unit) := List.replicate n (.writer (.push p))

def workerSteps (n : Nat) : List (Action Unit Unit) := List.replicate n (.writer (.worker 0))

/-- Push 1 finds the queue full and sleeps; the worker takes the item of push 0 and wakes it. -/
def orderlyActions : List (Action Unit Unit) :=
  call 0 ++ call 1 ++ pushSteps 0 7 ++ pushSteps 1 3 ++ workerSteps 2 ++ [.notify 0 (some 1)] ++
    pushSteps 1 7 ++ workerSteps 3 ++ [.notify 0 none] ++ workerSteps 1

theorem regulated_of_orderly_oneSlot :
    ∃ s, exec (step oneSlot) (orderly oneSlot · ·) (started oneSlot.cfg) orderlyActions = some s ∧
      processed s.writer.history = [(0, ⟨0, 0, ()⟩), (0, ⟨1, 0, ()⟩)] ∧ Regulated oneSlot s := by
  have hrun : (exec (step oneSlot) (orderly oneSlot · ·) (started oneSlot.cfg)
      orderlyActions).map (fun s => processed s.writer.history) = some _ := rfl
  obtain ⟨s, hs, hend⟩ := Option.map_eq_some_iff.mp hrun
  exact ⟨s, hs, hend, regulated_of_orderly oneSlot (Runs.of_exec _ hs)⟩

/-! ## 6. Three races -/

/-- The item is taken before it is counted. -/
def wrapActions : List (Action Unit Unit) := call 0 ++ pushSteps 0 5 ++ workerSteps 2

/-- The counter stands at `SIZE_MAX`. -/
def wrappedState : Backpressure Unit Unit where
  writer :=
    { channels := [{}]
      nextChannel := 1
      queuedItems := sizeRange - 1
      pushes := [⟨.appended 0, (), [()], 1⟩]
      workers := [.processing ⟨0, 0, ()⟩]
      history := [.enqueued 0 ⟨0, 0, ()⟩] }
  waits := [.arriving]
  owing := [true]
  balance := -1

/-- Two pushes are past the wait before one of them counts. -/
def overshootActions : List (Action Unit Unit) :=
  call 0 ++ call 1 ++ pushSteps 0 3 ++ pushSteps 1 3 ++ pushSteps 0 4 ++ pushSteps 1 4

/-- Two items in a queue for one. -/
def overshotState : Backpressure Unit Unit where
  writer :=
    { channels := [{ items := [⟨0, 0, ()⟩, ⟨1, 0, ()⟩] }]
      nextChannel := 2
      queuedItems := 2
      pushes := [⟨.returned true, (), [()], 1⟩, ⟨.returned true, (), [()], 1⟩]
      workers := [.waiting]
      history := [.enqueued 0 ⟨0, 0, ()⟩, .enqueued 0 ⟨1, 0, ()⟩] }
  waits := [.arriving, .arriving]
  owing := [false]
  balance := 2

/-- The worker lowers the counter and notifies while push 1 dozes. -/
def lostActions : List (Action Unit Unit) :=
  call 0 ++ call 1 ++ pushSteps 0 7 ++ pushSteps 1 2 ++ workerSteps 2 ++ [.notify 0 none] ++
    workerSteps 1 ++ pushSteps 1 1

/-- Push 1 sleeps, the queue is empty and the worker waits. -/
def lostState : Backpressure Unit Unit where
  writer :=
    { channels := [{}]
      nextChannel := 1
      queuedItems := 0
      pushes := [⟨.returned true, (), [()], 1⟩, ⟨.waiting, (), [()], 0⟩]
      workers := [.waiting]
      history := [.enqueued 0 ⟨0, 0, ()⟩, .processed 0 ⟨0, 0, ()⟩] }
  waits := [.arriving, .asleep]
  owing := [false]

theorem lostState_stuck (a : Action Unit Unit) (hown : ownStep lostState a) :
    step oneSlot lostState a = none := by
  cases a with
  | writer a =>
    cases a with
    | push p =>
      match p with
      | 0 => rfl
      | 1 => rfl
      | _ + 2 => rfl
    | worker w =>
      match w with
      | 0 => rfl
      | _ + 1 => rfl
    | _ => cases hown
  | notify w sleeper =>
    match w with
    | 0 => rfl
    | _ + 1 => rfl
  | notifyAllOfStop => rfl
  | notifyAllOfForceStop => rfl
  | spurious p => cases hown

theorem lostState_blocked : lostState.BlockedForEver oneSlot 1 := by
  intro s' hrun
  have hstep : ∀ s a s', s = lostState → ownStep s a → step oneSlot s a = some s' →
      s' = lostState := by
    rintro s a s' rfl hown hs
    rw [lostState_stuck a hown] at hs
    cases hs
  have hstay : s' = lostState := hrun.keeps hstep rfl
  rw [hstay]
  rfl

/-- **The counter wraps, the queue overflows, and a push sleeps on beside an empty queue.** -/
theorem regulated_fails :
    (Runs (step oneSlot) anyStep (started oneSlot.cfg) wrappedState ∧
      ¬ Regulated oneSlot wrappedState) ∧
    (Runs (step oneSlot) anyStep (started oneSlot.cfg) overshotState ∧
      ¬ Regulated oneSlot overshotState) ∧
    Runs (step oneSlot) anyStep (started oneSlot.cfg) lostState ∧
      ¬ Regulated oneSlot lostState := by
  have hwrap : exec (step oneSlot) anyStep (started oneSlot.cfg) wrapActions =
      some wrappedState := by decide +kernel
  have hover : exec (step oneSlot) anyStep (started oneSlot.cfg) overshootActions =
      some overshotState := by decide +kernel
  have hlost : exec (step oneSlot) anyStep (started oneSlot.cfg) lostActions =
      some lostState := by decide +kernel
  refine ⟨⟨Runs.of_exec _ hwrap, fun h => ?_⟩, ⟨Runs.of_exec _ hover, fun h => ?_⟩,
    Runs.of_exec _ hlost, fun h => ?_⟩
  · exact absurd h.nonneg (by decide)
  · exact absurd h.capacity (by decide)
  · exact h.wakes (by decide) 1 lostState_blocked

end Backpressure

end MldpDriver.Writer

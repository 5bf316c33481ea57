/-
# The search for a cycle, depth first

A graph is given by the list of each node's successors.  The search marks the nodes it is visiting,
which stand on its stack, and those it is done with; it stops when it meets a node it is visiting.
-/
import Mathlib.Data.Finset.Card
import Mathlib.Logic.Relation
import MldpDriver.Lib.Loop

namespace Lib.DepthFirst

open Lib.Loop List
open Relation (TransGen ReflTransGen)

variable {α β : Type}

/-! ## 1. Cycles

`twoCycle_iff`: a cycle of a relation without its loops is one through two distinct elements. -/

def Cyclic (r : α → α → Prop) : Prop := ∃ a, TransGen r a a

/-- A cycle that meets two elements. -/
def TwoCycle (r : α → α → Prop) : Prop := ∃ a b, a ≠ b ∧ TransGen r a b ∧ TransGen r b a

variable {r : α → α → Prop}

theorem reflTransGen_loopless {a b : α} (h : ReflTransGen r a b) :
    ReflTransGen (fun a b => a ≠ b ∧ r a b) a b := by
  induction h with
  | refl => exact .refl
  | @tail b c _ hstep ih =>
    by_cases hbc : b = c
    · rwa [← hbc]
    · exact ih.tail ⟨hbc, hstep⟩

theorem TransGen.loopless {a b : α} (h : TransGen r a b) (hne : a ≠ b) :
    TransGen (fun a b => a ≠ b ∧ r a b) a b :=
  (Relation.reflTransGen_iff_eq_or_transGen.mp (reflTransGen_loopless h.to_reflTransGen)).resolve_left
    (Ne.symm hne)

theorem twoCycle_iff : TwoCycle r ↔ Cyclic fun a b => a ≠ b ∧ r a b := by
  constructor
  · rintro ⟨a, b, hne, hab, hba⟩
    exact ⟨a, (TransGen.loopless hab hne).trans (TransGen.loopless hba hne.symm)⟩
  · rintro ⟨a, h⟩
    obtain ⟨b, ⟨hne, hab⟩, hba⟩ := TransGen.head'_iff.mp h
    have hba := (Relation.ReflTransGen.mono fun _ _ h => h.2) _ _ hba
    refine ⟨a, b, hne, .single hab, ?_⟩
    exact (Relation.reflTransGen_iff_eq_or_transGen.mp hba).resolve_left hne

theorem TwoCycle.map {s : β → β → Prop} {f : α → β} (hf : ∀ a b, r a b → s (f a) (f b))
    (hinj : ∀ a b, TransGen r a b → f a = f b → a = b) (h : TwoCycle r) : TwoCycle s := by
  obtain ⟨a, b, hne, hab, hba⟩ := h
  exact ⟨f a, f b, fun heq => hne (hinj a b hab heq), hab.lift f hf, hba.lift f hf⟩

/-! ## 2. The search -/

inductive VisitState where
  | notVisited | visiting | visited
  deriving DecidableEq

structure Search (α : Type) where
  state : α → VisitState
  stack : List α

/-- The search goes on, or it has met a node again; `none` is out of fuel. -/
abbrev Result (α : Type) := Option (Except (List α × α) (Search α))

variable [DecidableEq α]

def Search.enter (s : Search α) (node : α) : Search α :=
  ⟨Function.update s.state node .visiting, s.stack ++ [node]⟩

def Search.leave (s : Search α) (node : α) : Search α :=
  ⟨Function.update s.state node .visited, s.stack.dropLast⟩

/-- The loop over the successors of a node. -/
def explore (visit : α → Search α → Result α) : List α → Search α → Result α
  | [], s => some (.ok s)
  | next :: rest, s =>
    match s.state next with
    | .visiting => some (.error (s.stack, next))
    | .visited => explore visit rest s
    | .notVisited =>
      match visit next s with
      | some (.ok s') => explore visit rest s'
      | other => other

variable (succ : α → List α)

def visit : Nat → α → Search α → Result α
  | 0, _, _ => none
  | fuel + 1, node, s =>
    match explore (visit fuel) (succ node) (s.enter node) with
    | some (.ok s') => some (.ok (s'.leave node))
    | other => other

/-- The loop over the roots. -/
def visitAll (fuel : Nat) : List α → Search α → Result α
  | [], s => some (.ok s)
  | root :: rest, s =>
    if s.state root = .notVisited then
      match visit succ fuel root s with
      | some (.ok s') => visitAll fuel rest s'
      | other => other
    else visitAll fuel rest s

def search (fuel : Nat) (roots : List α) : Result α :=
  visitAll succ fuel roots ⟨fun _ => .notVisited, []⟩

/-! ## 3. What the search keeps -/

def Edge (a b : α) : Prop := b ∈ succ a

/-- The nodes being visited stand on the stack, and no cycle meets the visited ones. -/
structure Inv (s : Search α) : Prop where
  onStack : ∀ a, s.state a = .visiting ↔ a ∈ s.stack
  closed : ∀ a, s.state a = .visited → ∀ b ∈ succ a, s.state b = .visited
  acyclic : ∀ a, s.state a = .visited → ¬ TransGen (Edge succ) a a

/-- The search has gone on, with the stack it had. -/
structure After (s s' : Search α) : Prop where
  inv : Inv succ s'
  stack : s'.stack = s.stack
  visited : ∀ a, s.state a = .visited → s'.state a = .visited

/-- The step ends, and either goes on as it should or has found a cycle. -/
def Ends (out : Result α) (good : Search α → Prop) : Prop :=
  ∃ x, out = some x ∧ Outcome x good (Cyclic (Edge succ))

variable {succ} {s s' : Search α} {node : α}

omit [DecidableEq α] in
theorem Inv.visited_of_reaches (h : Inv succ s) {a b : α} (ha : s.state a = .visited)
    (hab : ReflTransGen (Edge succ) a b) : s.state b = .visited := by
  induction hab with
  | refl => exact ha
  | tail _ hstep ih => exact h.closed _ ih _ hstep

omit [DecidableEq α] in
theorem After.refl (h : Inv succ s) : After succ s s := ⟨h, rfl, fun _ ha => ha⟩

omit [DecidableEq α] in
theorem After.trans {s'' : Search α} (h : After succ s s') (h' : After succ s' s'') :
    After succ s s'' :=
  ⟨h'.inv, h'.stack.trans h.stack, fun a ha => h'.visited a (h.visited a ha)⟩

omit [DecidableEq α] in
theorem After.unvisited (h : After succ s s') (hs : Inv succ s) {a : α}
    (ha : s'.state a = .notVisited) : s.state a = .notVisited := by
  cases hstate : s.state a with
  | notVisited => rfl
  | visiting =>
    have := (h.inv.onStack a).mpr (by rw [h.stack]; exact (hs.onStack a).mp hstate)
    rw [ha] at this
    cases this
  | visited =>
    have := h.visited a hstate
    rw [ha] at this
    cases this

@[simp] theorem enter_state (a : α) :
    (s.enter node).state a = if a = node then .visiting else s.state a := by
  simp [Search.enter, Function.update_apply]

@[simp] theorem leave_state (a : α) :
    (s.leave node).state a = if a = node then .visited else s.state a := by
  simp [Search.leave, Function.update_apply]

theorem Inv.enter (h : Inv succ s) (hnode : s.state node = .notVisited) :
    Inv succ (s.enter node) where
  onStack a := by
    rw [enter_state, Search.enter, mem_append, mem_singleton, ← h.onStack a]
    split
    · next heq => simp [heq]
    · next hne => simp [hne]
  closed a ha b hb := by
    rw [enter_state] at ha ⊢
    split at ha
    · cases ha
    · have hb := h.closed a ha b hb
      rw [if_neg, hb]
      rintro rfl
      rw [hnode] at hb
      cases hb
  acyclic a ha := by
    rw [enter_state] at ha
    split at ha
    · cases ha
    · exact h.acyclic a ha

/-- **A node whose successors are all visited is done with.** -/
theorem After.leave (hs : Inv succ s) (hnode : s.state node = .notVisited)
    (h : After succ (s.enter node) s') (hsucc : ∀ b ∈ succ node, s'.state b = .visited) :
    After succ s (s'.leave node) := by
  have hvisiting : s'.state node = .visiting :=
    (h.inv.onStack node).mpr (by rw [h.stack]; simp [Search.enter])
  have hstack : (s'.leave node).stack = s.stack := by
    rw [Search.leave, h.stack, Search.enter, dropLast_concat]
  have hstays : ∀ b, s'.state b = .visited → (s'.leave node).state b = .visited := by
    intro b hb
    rw [leave_state, hb, ite_self]
  refine ⟨⟨fun a => ?_, fun a ha b hb => ?_, fun a ha hcycle => ?_⟩, hstack, fun a ha => ?_⟩
  · rw [leave_state, hstack, ← hs.onStack a]
    split
    · next heq => simp [heq, hnode]
    · next hne =>
      rw [h.inv.onStack a, h.stack, Search.enter, mem_append, hs.onStack a]
      simp [hne]
  · rw [leave_state] at ha
    split at ha
    · next heq => exact hstays b (hsucc b (by rwa [heq] at hb))
    · exact hstays b (h.inv.closed a ha b hb)
  · rw [leave_state] at ha
    split at ha
    -- the cycle would lead back to the node, which was not visited yet, from a visited one
    · next heq =>
      rw [heq] at hcycle
      obtain ⟨b, hb, hback⟩ := TransGen.head'_iff.mp hcycle
      have := h.inv.visited_of_reaches (hsucc b hb) hback
      rw [hvisiting] at this
      cases this
    · exact h.inv.acyclic a ha hcycle
  · refine hstays a (h.visited a ?_)
    rw [enter_state, if_neg, ha]
    rintro rfl
    rw [hnode] at ha
    cases ha

/-! ## 4. The search is right

`search_outcome`: given fuel for every node, it stops exactly on a graph with a cycle. -/

/-- How many of the nodes are still to be visited. -/
def unvisited (nodes : Finset α) (s : Search α) : Nat :=
  (nodes.filter fun a => s.state a = .notVisited).card

omit [DecidableEq α] in
theorem unvisited_after {nodes : Finset α} (hs : Inv succ s) (h : After succ s s') :
    unvisited nodes s' ≤ unvisited nodes s :=
  Finset.card_le_card fun a ha => by
    rw [Finset.mem_filter] at ha ⊢
    exact ⟨ha.1, h.unvisited hs ha.2⟩

theorem unvisited_enter {nodes : Finset α} (hmem : node ∈ nodes)
    (hnode : s.state node = .notVisited) : unvisited nodes (s.enter node) < unvisited nodes s := by
  refine Finset.card_lt_card ((Finset.ssubset_iff_of_subset fun a ha => ?_).mpr ⟨node, ?_, ?_⟩)
  · rw [Finset.mem_filter, enter_state] at ha
    split at ha
    · cases ha.2
    · exact Finset.mem_filter.mpr ha
  · exact Finset.mem_filter.mpr ⟨hmem, hnode⟩
  · simp

section Search

variable {nodes : Finset α} (hnodes : ∀ a ∈ nodes, ∀ b ∈ succ a, b ∈ nodes)

/-- One visit, for as many nodes as are still to be visited. -/
def VisitOk (nodes : Finset α) (succ : α → List α) (n : Nat)
    (visit : α → Search α → Result α) : Prop :=
  ∀ next s, Inv succ s → s.state next = .notVisited → next ∈ nodes →
    (∀ a ∈ s.stack, ReflTransGen (Edge succ) a next) → unvisited nodes s < n →
    Ends succ (visit next s) fun s' => After succ s s' ∧ s'.state next = .visited

omit [DecidableEq α] in
theorem explore_ends {n : Nat} {visit : α → Search α → Result α} (hvisit : VisitOk nodes succ n visit)
    {nexts : List α} (hnexts : ∀ next ∈ nexts, next ∈ nodes ∧ Edge succ node next) (s : Search α)
    (hs : Inv succ s) (hstack : ∀ a ∈ s.stack, ReflTransGen (Edge succ) a node)
    (hn : unvisited nodes s < n) :
    Ends succ (explore visit nexts s) fun s' =>
      After succ s s' ∧ ∀ next ∈ nexts, s'.state next = .visited := by
  induction nexts generalizing s with
  | nil => exact ⟨_, rfl, .ok ⟨.refl hs, by simp⟩⟩
  | cons next rest ih =>
    obtain ⟨⟨hmem, hedge⟩, hrest⟩ := forall_mem_cons.mp hnexts
    -- the rest of the loop, from any state in which this successor is visited
    have hgo : ∀ s', After succ s s' → s'.state next = .visited →
        Ends succ (explore visit rest s') fun s'' =>
          After succ s s'' ∧ ∀ b ∈ next :: rest, s''.state b = .visited := by
      intro s' hafter hvisited
      obtain ⟨x, hx, hout⟩ := ih hrest s' hafter.inv (by rw [hafter.stack]; exact hstack)
        (lt_of_le_of_lt (unvisited_after hs hafter) hn)
      exact ⟨x, hx, hout.mono (fun s'' h => ⟨hafter.trans h.1,
        forall_mem_cons.mpr ⟨h.1.visited next hvisited, h.2⟩⟩) id⟩
    rw [explore]
    cases hstate : s.state next with
    | visiting =>
      have hreach := hstack next ((hs.onStack next).mp hstate)
      exact ⟨_, rfl, .error ⟨next, TransGen.tail' hreach hedge⟩⟩
    | visited => exact hgo s (.refl hs) hstate
    | notVisited =>
      obtain ⟨x, hx, hout⟩ := hvisit next s hs hstate hmem
        (fun a ha => (hstack a ha).tail hedge) hn
      rcases hout with ⟨s', rfl, hafter, hvisited⟩ | ⟨⟨e, rfl⟩, hcycle⟩
      · simp only [hx]
        exact hgo s' hafter hvisited
      · simp only [hx]
        exact ⟨_, rfl, .error hcycle⟩

include hnodes

/-- **A visit** ends, and leaves its node visited unless it finds a cycle. -/
theorem visit_ends (fuel : Nat) : VisitOk nodes succ fuel (visit succ fuel) := by
  induction fuel with
  | zero => exact fun next s _ _ _ _ h => absurd h (Nat.not_lt_zero _)
  | succ fuel ih =>
    intro next s hs hstate hmem hstack hn
    have hless := unvisited_enter hmem hstate
    have hnexts : ∀ b ∈ succ next, b ∈ nodes ∧ Edge succ next b := fun b hb =>
      ⟨hnodes next hmem b hb, hb⟩
    obtain ⟨x, hx, hout⟩ := explore_ends ih hnexts (s.enter next) (hs.enter hstate)
      (fun a ha => by
        rcases mem_append.mp ha with ha | ha
        · exact hstack a ha
        · rw [mem_singleton.mp ha])
      (by omega)
    rw [visit]
    rcases hout with ⟨s', rfl, hafter, hsucc⟩ | ⟨⟨e, rfl⟩, hcycle⟩
    · simp only [hx]
      exact ⟨_, rfl, .ok ⟨.leave hs hstate hafter hsucc, by simp⟩⟩
    · simp only [hx]
      exact ⟨_, rfl, .error hcycle⟩

theorem visitAll_ends {fuel : Nat} {roots : List α} (hroots : ∀ a ∈ roots, a ∈ nodes)
    (s : Search α) (hs : Inv succ s) (hstack : s.stack = []) (hn : unvisited nodes s < fuel) :
    Ends succ (visitAll succ fuel roots s) fun s' =>
      After succ s s' ∧ ∀ a ∈ roots, s'.state a = .visited := by
  induction roots generalizing s with
  | nil => exact ⟨_, rfl, .ok ⟨.refl hs, by simp⟩⟩
  | cons root rest ih =>
    obtain ⟨hmem, hrest⟩ := forall_mem_cons.mp hroots
    have hgo : ∀ s', After succ s s' → s'.state root = .visited →
        Ends succ (visitAll succ fuel rest s') fun s'' =>
          After succ s s'' ∧ ∀ b ∈ root :: rest, s''.state b = .visited := by
      intro s' hafter hvisited
      obtain ⟨x, hx, hout⟩ := ih hrest s' hafter.inv (hafter.stack.trans hstack)
        (lt_of_le_of_lt (unvisited_after hs hafter) hn)
      exact ⟨x, hx, hout.mono (fun s'' h => ⟨hafter.trans h.1,
        forall_mem_cons.mpr ⟨h.1.visited root hvisited, h.2⟩⟩) id⟩
    rw [visitAll]
    split
    · next hstate =>
      obtain ⟨x, hx, hout⟩ := visit_ends hnodes fuel root s hs hstate hmem (by simp [hstack]) hn
      rcases hout with ⟨s', rfl, hafter, hvisited⟩ | ⟨⟨e, rfl⟩, hcycle⟩
      · simp only [hx]
        exact hgo s' hafter hvisited
      · simp only [hx]
        exact ⟨_, rfl, .error hcycle⟩
    · next hstate =>
      refine hgo s (.refl hs) ?_
      cases hroot : s.state root with
      | notVisited => exact absurd hroot hstate
      | visiting => simpa [hstack] using (hs.onStack root).mp hroot
      | visited => rfl

/-- **The search** from every node that has a successor ends, and it stops exactly when the graph
has a cycle. -/
theorem search_outcome {fuel : Nat} {roots : List α} (hroots : ∀ a ∈ roots, a ∈ nodes)
    (hall : ∀ a, succ a ≠ [] → a ∈ roots) (hfuel : nodes.card < fuel) :
    ∃ x, search succ fuel roots = some x ∧
      ((∃ e, x = .error e) ↔ Cyclic (Edge succ)) := by
  have hinit : Inv succ ⟨fun _ => VisitState.notVisited, []⟩ := ⟨by simp, by simp, by simp⟩
  obtain ⟨x, hx, hout⟩ := visitAll_ends hnodes hroots _ hinit rfl
    (lt_of_le_of_lt (Finset.card_filter_le _ _) hfuel)
  refine ⟨x, hx, hout.error_iff ?_⟩
  rintro s' ⟨hafter, hvisited⟩ ⟨a, hcycle⟩
  obtain ⟨b, hb, -⟩ := TransGen.head'_iff.mp hcycle
  exact hafter.inv.acyclic a (hvisited a (hall a (ne_nil_of_mem hb))) hcycle

end Search

end Lib.DepthFirst

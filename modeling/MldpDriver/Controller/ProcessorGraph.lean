/-
# The graph of the processors

Before it starts its processors the controller looks for a cycle among them: a processor that
consumes what another one produces comes after it.  The search keys the processors by their names;
`emplace` keeps the outputs of the first processor of a name, and edges within a name are skipped.
-/
import MldpDriver.Lib.DepthFirst

namespace MldpDriver.Controller.Processors

open Lib.DepthFirst List
open Relation (TransGen)

/-! ## 1. The check -/

/-- What the check reads of an `IChannelProcessor`. -/
structure Processor where
  name : String
  inputSourceNames : List String
  outputSourceNames : List String

/-- `describeCycle` -/
def describeCycle (stack : List String) (name : String) : String :=
  match stack.dropWhile (· ≠ name) with
  | [] => name
  | cycle => " -> ".intercalate cycle ++ " -> " ++ name

/-- `outputs_by_processor`: `emplace` does not replace. -/
def outputsByProcessor (processors : List Processor) (name : String) : List String :=
  ((processors.find? (·.name = name)).map Processor.outputSourceNames).getD []

/-- `depends_on_producer` -/
def dependsOn (producerOutputs : List String) (consumer : Processor) : Bool :=
  consumer.inputSourceNames.any producerOutputs.contains

/-- `graph`: the names an edge leads to. -/
def graph (processors : List Processor) (name : String) : List String :=
  (processors.filter (·.name = name)).flatMap fun producer =>
    (processors.filter fun consumer => producer.name ≠ consumer.name ∧
      dependsOn (outputsByProcessor processors producer.name) consumer).map Processor.name

/-- `validateProcessorGraphAcyclic`; `none` is out of fuel for the recursion. -/
def validateProcessorGraphAcyclic (fuel : Nat) (processors : List Processor) :
    Option (Except String Unit) :=
  (search (graph processors) fuel (processors.map Processor.name)).map fun
    | .ok _ => .ok ()
    | .error (stack, next) =>
      .error ("Controller: processor cycle detected: " ++ describeCycle stack next)

/-! ## 2. Two relations

`validateProcessorGraphAcyclic_throws_iff`: it throws exactly on a cycle of the names. -/

/-- Processor `j` consumes what processor `i` produces. -/
def Feeds (processors : List Processor) (i j : Nat) : Prop :=
  ∃ p q, processors[i]? = some p ∧ processors[j]? = some q ∧
    ∃ source ∈ q.inputSourceNames, source ∈ p.outputSourceNames

/-- A processor of name `b` consumes what the first processor of name `a` produces. -/
def NameFeeds (processors : List Processor) (a b : String) : Prop :=
  ∃ q ∈ processors, q.name = b ∧
    ∃ source ∈ q.inputSourceNames, source ∈ outputsByProcessor processors a

/-- A cycle through two or more processors. -/
def ProcessorCycle (processors : List Processor) : Prop := TwoCycle (Feeds processors)

/-- A cycle through two or more names. -/
def NameCycle (processors : List Processor) : Prop := TwoCycle (NameFeeds processors)

variable {processors : List Processor}

theorem find?_isSome_of_output {a source : String}
    (h : source ∈ outputsByProcessor processors a) :
    ∃ p, processors.find? (·.name = a) = some p ∧ source ∈ p.outputSourceNames := by
  unfold outputsByProcessor at h
  cases hfind : processors.find? (·.name = a) with
  | none => simp [hfind] at h
  | some p => exact ⟨p, rfl, by simpa [hfind] using h⟩

/-- **The edges** are those between two names. -/
theorem edge_graph_iff {a b : String} :
    Edge (graph processors) a b ↔ a ≠ b ∧ NameFeeds processors a b := by
  simp only [Edge, graph, mem_flatMap, mem_filter, mem_map, decide_eq_true_eq]
  constructor
  · rintro ⟨producer, ⟨-, rfl⟩, consumer, ⟨hconsumer, hne, hdepends⟩, rfl⟩
    refine ⟨hne, consumer, hconsumer, rfl, ?_⟩
    simpa [dependsOn] using hdepends
  · rintro ⟨hne, consumer, hconsumer, rfl, source, hin, hout⟩
    obtain ⟨producer, hfind, -⟩ := find?_isSome_of_output hout
    obtain rfl : producer.name = a := by simpa using List.find?_some hfind
    refine ⟨producer, ⟨List.mem_of_find?_eq_some hfind, rfl⟩, consumer, ⟨hconsumer, hne, ?_⟩, rfl⟩
    simpa [dependsOn] using ⟨source, hin, hout⟩

theorem cyclic_graph_iff : Cyclic (Edge (graph processors)) ↔ NameCycle processors := by
  have : Edge (graph processors) = fun a b => a ≠ b ∧ NameFeeds processors a b :=
    funext₂ fun _ _ => propext edge_graph_iff
  rw [this, NameCycle, twoCycle_iff]

theorem graph_subset {a b : String} (h : b ∈ graph processors a) :
    a ∈ processors.map Processor.name ∧ b ∈ processors.map Processor.name := by
  obtain ⟨-, q, hq, rfl, source, -, hout⟩ := edge_graph_iff.mp h
  obtain ⟨p, hfind, -⟩ := find?_isSome_of_output hout
  refine ⟨?_, mem_map_of_mem hq⟩
  rw [← show p.name = a by simpa using List.find?_some hfind]
  exact mem_map_of_mem (List.mem_of_find?_eq_some hfind)

/-- **The check ends, and throws exactly on a cycle of the names.** -/
theorem validateProcessorGraphAcyclic_throws_iff {fuel : Nat} (hfuel : processors.length < fuel) :
    ∃ out, validateProcessorGraphAcyclic fuel processors = some out ∧
      ((∃ message, out = .error message) ↔ NameCycle processors) := by
  have hnodes : ∀ a ∈ (processors.map Processor.name).toFinset, ∀ b ∈ graph processors a,
      b ∈ (processors.map Processor.name).toFinset :=
    fun a _ b hb => mem_toFinset.mpr (graph_subset hb).2
  have hall : ∀ a, graph processors a ≠ [] → a ∈ processors.map Processor.name := by
    intro a ha
    obtain ⟨b, hb⟩ := exists_mem_of_ne_nil _ ha
    exact (graph_subset hb).1
  have hcard : (processors.map Processor.name).toFinset.card < fuel :=
    lt_of_le_of_lt (toFinset_card_le _) (by rwa [length_map])
  obtain ⟨x, hx, hiff⟩ := search_outcome hnodes (fun a ha => mem_toFinset.mpr ha) hall hcard
  rw [cyclic_graph_iff] at hiff
  rw [validateProcessorGraphAcyclic, hx]
  refine ⟨_, rfl, ?_⟩
  rw [← hiff]
  cases x with
  | ok s => simp
  | error e => simp

/-! ## 3. Distinct names -/

variable {p : Processor}

theorem find?_name_eq (hnames : (processors.map Processor.name).Nodup) (hmem : p ∈ processors) :
    processors.find? (·.name = p.name) = some p := by
  obtain ⟨q, hfind⟩ : ∃ q, processors.find? (·.name = p.name) = some q := by
    rw [← Option.isSome_iff_exists, List.find?_isSome]
    exact ⟨p, hmem, by simp⟩
  have hname : q.name = p.name := by simpa using List.find?_some hfind
  rw [hfind, inj_on_of_nodup_map hnames (List.mem_of_find?_eq_some hfind) hmem hname]

theorem outputsByProcessor_eq (hnames : (processors.map Processor.name).Nodup)
    (hmem : p ∈ processors) : outputsByProcessor processors p.name = p.outputSourceNames := by
  rw [outputsByProcessor, find?_name_eq hnames hmem]
  rfl

/-- The name of the processor at a position. -/
def nameAt (processors : List Processor) (i : Nat) : String :=
  ((processors[i]?).map Processor.name).getD ""

theorem nameAt_eq {i : Nat} (hp : processors[i]? = some p) :
    nameAt processors i = p.name := by
  simp [nameAt, hp]

theorem nameAt_inj (hnames : (processors.map Processor.name).Nodup) {i j : Nat} {p q : Processor}
    (hp : processors[i]? = some p) (hq : processors[j]? = some q)
    (h : nameAt processors i = nameAt processors j) : i = j := by
  rw [nameAt_eq hp, nameAt_eq hq] at h
  have hi : (processors.map Processor.name)[i]? = some p.name := by simp [hp]
  have hj : (processors.map Processor.name)[j]? = some p.name := by simp [hq, h]
  exact (List.getElem?_inj (by simpa using (List.getElem?_eq_some_iff.mp hp).1) hnames).mp
    (hi.trans hj.symm)

theorem feeds_path_ends {i j : Nat} (h : TransGen (Feeds processors) i j) :
    (∃ p, processors[i]? = some p) ∧ ∃ q, processors[j]? = some q := by
  induction h with
  | single h =>
    obtain ⟨p, q, hp, hq, -⟩ := h
    exact ⟨⟨p, hp⟩, q, hq⟩
  | tail _ h ih =>
    obtain ⟨-, q, -, hq, -⟩ := h
    exact ⟨ih.1, q, hq⟩

/-- The position of the first processor of a name. -/
def positionOf (processors : List Processor) (a : String) : Nat :=
  processors.findIdx (·.name = a)

theorem getElem?_positionOf (hnames : (processors.map Processor.name).Nodup) {p : Processor}
    (hmem : p ∈ processors) : processors[positionOf processors p.name]? = some p := by
  have hlt : positionOf processors p.name < processors.length :=
    findIdx_lt_length_of_exists ⟨p, hmem, by simp⟩
  have hname : (processors[positionOf processors p.name]).name = p.name :=
    of_decide_eq_true (findIdx_getElem (w := hlt))
  rw [List.getElem?_eq_getElem hlt,
    inj_on_of_nodup_map hnames (getElem_mem hlt) hmem hname]

theorem nameFeeds_path_ends {a b : String} (h : TransGen (NameFeeds processors) a b) :
    (∃ p ∈ processors, p.name = a) ∧ ∃ q ∈ processors, q.name = b := by
  have hfrom : ∀ {b c}, NameFeeds processors b c → ∃ p ∈ processors, p.name = b := by
    rintro b c ⟨-, -, -, source, -, hout⟩
    obtain ⟨p, hfind, -⟩ := find?_isSome_of_output hout
    exact ⟨p, List.mem_of_find?_eq_some hfind, by simpa using List.find?_some hfind⟩
  induction h with
  | single h =>
    obtain ⟨q, hq, hname, -⟩ := id h
    exact ⟨hfrom h, q, hq, hname⟩
  | tail _ h ih =>
    obtain ⟨q, hq, hname, -⟩ := h
    exact ⟨ih.1, q, hq, hname⟩

/-- **With distinct names** the two relations have their cycles together. -/
theorem nameCycle_iff_of_nodup (hnames : (processors.map Processor.name).Nodup) :
    NameCycle processors ↔ ProcessorCycle processors := by
  constructor
  · refine TwoCycle.map (f := positionOf processors) ?_ ?_
    · rintro a b ⟨q, hq, rfl, source, hin, hout⟩
      obtain ⟨p, hfind, hsource⟩ := find?_isSome_of_output hout
      obtain rfl : p.name = a := by simpa using List.find?_some hfind
      exact ⟨p, q, getElem?_positionOf hnames (List.mem_of_find?_eq_some hfind),
        getElem?_positionOf hnames hq, source, hin, hsource⟩
    · intro a b hab heq
      obtain ⟨⟨p, hp, rfl⟩, q, hq, rfl⟩ := nameFeeds_path_ends hab
      have hsame := getElem?_positionOf hnames hp
      rw [heq, getElem?_positionOf hnames hq] at hsame
      rw [Option.some.inj hsame]
  · refine TwoCycle.map (f := nameAt processors) ?_ ?_
    · rintro i j ⟨p, q, hp, hq, source, hin, hout⟩
      rw [nameAt_eq hp, nameAt_eq hq]
      refine ⟨q, mem_of_getElem? hq, rfl, source, hin, ?_⟩
      rwa [outputsByProcessor_eq hnames (mem_of_getElem? hp)]
    · intro i j hij heq
      obtain ⟨⟨p, hp⟩, q, hq⟩ := feeds_path_ends hij
      exact nameAt_inj hnames hp hq heq

/-! ## 4. What the check rejects -/

/-- The check throws. -/
def Throws (fuel : Nat) (processors : List Processor) : Prop :=
  ∃ message, validateProcessorGraphAcyclic fuel processors = some (.error message)

/-- **The check of the processor graph.** It always ends.  It throws exactly on a cycle through two
or more processors if and only if the cycles by name and by processor go together, as they do when
the names are distinct.  Of two processors with one name the search follows the outputs of the
first. -/
theorem validateProcessorGraphAcyclic_exact (processors : List Processor) (fuel : Nat)
    (hfuel : processors.length < fuel) :
    (∃ out, validateProcessorGraphAcyclic fuel processors = some out) ∧
      ((Throws fuel processors ↔ ProcessorCycle processors) ↔
        (NameCycle processors ↔ ProcessorCycle processors)) ∧
      ((processors.map Processor.name).Nodup →
        (NameCycle processors ↔ ProcessorCycle processors)) := by
  obtain ⟨out, hout, hiff⟩ := validateProcessorGraphAcyclic_throws_iff hfuel
  have hthrows : Throws fuel processors ↔ NameCycle processors := by
    rw [Throws, hout, ← hiff]
    simp
  exact ⟨⟨out, hout⟩, by rw [hthrows], nameCycle_iff_of_nodup⟩

/-- The second processor named `a` closes the loop; the first one produces nothing. -/
def shadowed : List Processor :=
  [⟨"a", ["x"], ["unused"]⟩, ⟨"a", ["y"], ["x2"]⟩, ⟨"b", ["x2"], ["y"]⟩]

theorem validateProcessorGraphAcyclic_exact_three :
    (∃ out, validateProcessorGraphAcyclic 4 (shadowed.drop 1) = some out) ∧
      (NameCycle (shadowed.drop 1) ↔ ProcessorCycle (shadowed.drop 1)) :=
  have h := validateProcessorGraphAcyclic_exact (shadowed.drop 1) 4 (by decide)
  ⟨h.1, h.2.2 (by decide)⟩

/-- `a` and `b` feed each other, and the check passes. -/
theorem validateProcessorGraphAcyclic_misses :
    ¬ ∀ processors : List Processor, ∀ fuel, processors.length < fuel →
      (Throws fuel processors ↔ ProcessorCycle processors) := by
  intro h
  have hcycle : ProcessorCycle shadowed := by
    refine ⟨1, 2, by decide, .single ?_, .single ?_⟩
    · exact ⟨_, _, rfl, rfl, "x2", by decide, by decide⟩
    · exact ⟨_, _, rfl, rfl, "y", by decide, by decide⟩
  obtain ⟨message, hthrows⟩ := (h shadowed 4 (by decide)).mpr hcycle
  have hpasses : validateProcessorGraphAcyclic 4 shadowed = some (.ok ()) := by decide
  rw [hpasses] at hthrows
  cases hthrows

/-- The check joins what the one `a` produces to what the other one consumes. -/
example : validateProcessorGraphAcyclic 4 [⟨"a", ["x"], ["p"]⟩, ⟨"a", ["q"], []⟩, ⟨"b", ["p"], ["q"]⟩] =
    some (.error "Controller: processor cycle detected: a -> b -> a") := by decide

end MldpDriver.Controller.Processors

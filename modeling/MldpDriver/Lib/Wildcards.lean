/-
# Wildcard patterns and matching with one mark

A wildcard pattern is a list of elements: `none` stands for any sequence, `some p` for one
element of the class `p`.  A matcher that walks along a pattern and a text needs to remember only
its LAST wildcard: whatever an earlier wildcard could take, the last one can take as well
(`accepts_commit`).  This module is the language of a pattern and the lemmas that such a matcher is
verified with: what one element does, when a mark moves to a later wildcard, when it moves forward
by one, and what is left at the end of the text.
-/
import Mathlib.Data.List.Forall2

namespace Lib.Wildcards

open List

variable {β : Type}

/-- One element of a wildcard pattern: any sequence, or one element of a class. -/
abbrev Wildcard (β : Type) := Option (β → Bool)

/-! ## 1. The language of a pattern -/

/-- The text is in the language of the pattern. -/
inductive Accepts : List (Wildcard β) → List β → Prop
  | nil : Accepts [] []
  | one {p : β → Bool} {b : β} {pattern : List (Wildcard β)} {text : List β} :
      p b = true → Accepts pattern text → Accepts (some p :: pattern) (b :: text)
  | leave {pattern : List (Wildcard β)} {text : List β} :
      Accepts pattern text → Accepts (none :: pattern) text
  | take {b : β} {pattern : List (Wildcard β)} {text : List β} :
      Accepts (none :: pattern) text → Accepts (none :: pattern) (b :: text)

variable {text : List β}

theorem accepts_nil_iff : Accepts [] text ↔ text = [] := by
  constructor
  · intro h
    cases h
    rfl
  · rintro rfl
    exact .nil

variable {pattern : List (Wildcard β)}

theorem accepts_one_cons_iff {p : β → Bool} {b : β} :
    Accepts (some p :: pattern) (b :: text) ↔ p b = true ∧ Accepts pattern text := by
  constructor
  · intro h
    cases h with
    | one hp h => exact ⟨hp, h⟩
  · rintro ⟨hp, h⟩
    exact .one hp h

theorem not_accepts_one_nil {p : β → Bool} :
    ¬ Accepts (some p :: pattern) [] := by
  intro h
  cases h

theorem Accepts.prepend (taken : List β) (h : Accepts (none :: pattern) text) :
    Accepts (none :: pattern) (taken ++ text) := by
  induction taken with
  | nil => exact h
  | cons b taken ih => exact .take ih

theorem accepts_any_iff :
    Accepts (none :: pattern) text ↔
      ∃ taken rest, text = taken ++ rest ∧ Accepts pattern rest := by
  constructor
  · intro h
    generalize hfull : none :: pattern = full at h
    induction h with
    | nil => cases hfull
    | one => cases hfull
    | leave h =>
      cases hfull
      exact ⟨[], _, rfl, h⟩
    | @take b _ _ _ ih =>
      obtain ⟨taken, rest, rfl, h⟩ := ih hfull
      exact ⟨b :: taken, rest, rfl, h⟩
  · rintro ⟨taken, rest, rfl, h⟩
    exact (Accepts.leave h).prepend taken

/-! ## 2. A stretch without wildcards -/

/-- The classes take the elements one by one. -/
def Fits (classes : List (β → Bool)) (text : List β) : Prop :=
  List.Forall₂ (fun p b => p b = true) classes text

/-- The pattern of a stretch without wildcards. -/
def stretch (classes : List (β → Bool)) : List (Wildcard β) := classes.map some

variable {classes : List (β → Bool)}

theorem Fits.length_eq (h : Fits classes text) :
    classes.length = text.length :=
  List.Forall₂.length_eq h

theorem Fits.concat {classes : List (β → Bool)} {p : β → Bool} {b : β} (h : Fits classes text)
    (hp : p b = true) : Fits (classes ++ [p]) (text ++ [b]) :=
  rel_append h (.cons hp .nil)

theorem accepts_stretch_iff :
    Accepts (stretch classes ++ pattern) text ↔
      ∃ taken rest, text = taken ++ rest ∧ Fits classes taken ∧ Accepts pattern rest := by
  induction classes generalizing text with
  | nil =>
    constructor
    · intro h
      exact ⟨[], text, rfl, .nil, h⟩
    · rintro ⟨taken, rest, rfl, hfits, h⟩
      cases hfits
      exact h
  | cons p classes ih =>
    constructor
    · intro h
      cases h with
      | one hp h =>
        obtain ⟨taken, rest, rfl, hfits, h⟩ := ih.mp h
        exact ⟨_ :: taken, rest, rfl, .cons hp hfits, h⟩
    · rintro ⟨taken, rest, rfl, hfits, h⟩
      cases hfits with
      | cons hp hfits => exact .one hp (ih.mpr ⟨_, rest, rfl, hfits, h⟩)

theorem accepts_fitted_iff {taken rest : List β} (hfits : Fits classes taken) :
    Accepts (stretch classes ++ pattern) (taken ++ rest) ↔ Accepts pattern rest := by
  rw [accepts_stretch_iff]
  constructor
  · rintro ⟨taken', rest', heq, hfits', h⟩
    have hlen : taken.length = taken'.length := by rw [← hfits.length_eq, hfits'.length_eq]
    obtain ⟨rfl, rfl⟩ := append_inj heq hlen
    exact h
  · intro h
    exact ⟨taken, rest, rfl, hfits, h⟩

/-! ## 3. Moving the mark -/

/-- **The last wildcard is enough**: when the stretch after a wildcard fits at the mark, the next
wildcard may start right behind it. -/
theorem accepts_commit {taken rest : List β} (hfits : Fits classes taken) :
    Accepts (none :: (stretch classes ++ none :: pattern)) (taken ++ rest) ↔
      Accepts (none :: pattern) rest := by
  constructor
  · intro h
    obtain ⟨skipped, behind, heq, h⟩ := accepts_any_iff.mp h
    obtain ⟨taken', rest', rfl, hfits', h⟩ := accepts_stretch_iff.mp h
    -- what is left behind the later fit is a suffix of `rest`: the wildcard takes the difference
    have hlen : taken.length ≤ (skipped ++ taken').length := by
      rw [length_append, ← hfits.length_eq, ← hfits'.length_eq]
      omega
    have hpre : taken ++ rest = (skipped ++ taken') ++ rest' := by rw [heq, append_assoc]
    obtain ⟨more, hmore, hrest⟩ : ∃ more, skipped ++ taken' = taken ++ more ∧
        rest = more ++ rest' := by
      rcases append_eq_append_iff.mp hpre with ⟨more, h1, h2⟩ | ⟨more, h1, h2⟩
      · exact ⟨more, h1, h2⟩
      · have : more = [] := by
          have hl := congrArg List.length h1
          rw [length_append] at hl
          exact length_eq_zero_iff.mp (by omega)
        subst this
        exact ⟨[], by simpa using h1.symm, by simpa using h2.symm⟩
    rw [hrest]
    exact h.prepend more
  · intro h
    exact .leave ((accepts_fitted_iff hfits).mpr h)

/-- The mark moves forward when the rest of the pattern is not in the text at the mark. -/
theorem accepts_forward {b : β} (h : ¬ Accepts pattern (b :: text)) :
    Accepts (none :: pattern) (b :: text) ↔ Accepts (none :: pattern) text := by
  constructor
  · intro hany
    cases hany with
    | leave hpat => exact absurd hpat h
    | take hany => exact hany
  · exact .take

/-! ## 4. The end of the text -/

/-- The number of elements that a text needs at least. -/
def needs (pattern : List (Wildcard β)) : Nat := pattern.countP (·.isSome)

theorem Accepts.needs_le (h : Accepts pattern text) :
    needs pattern ≤ text.length := by
  induction h with
  | nil => exact Nat.zero_le _
  | one _ _ ih =>
    rw [needs, countP_cons_of_pos (by rfl), length_cons]
    exact Nat.succ_le_succ ih
  | leave _ ih =>
    rw [needs, countP_cons_of_neg (by simp)]
    exact ih
  | take _ ih =>
    rw [length_cons]
    exact Nat.le_succ_of_le ih

theorem needs_stretch (classes : List (β → Bool)) (pattern : List (Wildcard β)) :
    needs (stretch classes ++ pattern) = classes.length + needs pattern := by
  have hall : ∀ element ∈ stretch classes, element.isSome = true := by
    intro element hmem
    obtain ⟨p, _, rfl⟩ := mem_map.mp hmem
    rfl
  rw [needs, countP_append, countP_eq_length.mpr hall, stretch, length_map]
  rfl

theorem accepts_end_iff :
    Accepts pattern [] ↔ pattern.all (·.isNone) = true := by
  induction pattern with
  | nil => exact iff_of_true .nil rfl
  | cons element pattern ih =>
    cases element with
    | some p => exact iff_of_false not_accepts_one_nil (by simp)
    | none =>
      rw [all_cons, Option.isNone_none, Bool.true_and, ← ih]
      constructor
      · intro h
        cases h with
        | leave h => exact h
      · intro h
        exact .leave h

theorem all_isNone_of_needs (h : needs pattern = 0) :
    pattern.all (·.isNone) = true := by
  rw [all_eq_true]
  intro element hmem
  have := countP_eq_zero.mp h element hmem
  simpa using this

/-- At the end of the text the marked wildcard cannot help: what follows the fitted stretch must
be wildcards. -/
theorem accepts_marked_end {taken : List β} (hfits : Fits classes taken) :
    Accepts (none :: (stretch classes ++ pattern)) taken ↔
      pattern.all (·.isNone) = true := by
  constructor
  · intro h
    have hneeds := h.needs_le
    rw [needs, countP_cons_of_neg (by simp), ← needs, needs_stretch, hfits.length_eq] at hneeds
    exact all_isNone_of_needs (by omega)
  · intro h
    have hnil : Accepts (stretch classes ++ pattern) (taken ++ []) :=
      (accepts_fitted_iff hfits).mpr (accepts_end_iff.mpr h)
    rw [append_nil] at hnil
    exact .leave hnil

end Lib.Wildcards

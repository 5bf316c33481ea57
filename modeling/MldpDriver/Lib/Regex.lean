/-
# Sequences of classes between anchors

The part of the regular expressions that has no alternatives and no groups: a list of anchors,
classes and stretches of a class.  An expression matches a text when it matches somewhere in it
(`Matches`); between `start` and `stop` that is the whole text, and the expression is a wildcard
pattern (`matches_anchored_iff`).
-/
import MldpDriver.Lib.Wildcards

namespace Lib.Regex

open Lib.Wildcards

variable {β : Type}

/-! ## 1. Matching -/

/-- `start` and `stop` are the anchors, `one` an element of a class, `many` a stretch of them. -/
inductive Item (β : Type) where
  | start
  | stop
  | one (p : β → Bool)
  | many (p : β → Bool)

/-- The items match the text from a place on; `before` is what stands before it, reversed. -/
inductive MatchesFrom : List (Item β) → List β → List β → Prop
  | nil {before rest : List β} : MatchesFrom [] before rest
  | start {items : List (Item β)} {rest : List β} :
      MatchesFrom items [] rest → MatchesFrom (.start :: items) [] rest
  | stop {items : List (Item β)} {before : List β} :
      MatchesFrom items before [] → MatchesFrom (.stop :: items) before []
  | one {p : β → Bool} {items : List (Item β)} {b : β} {before rest : List β} :
      p b = true → MatchesFrom items (b :: before) rest →
        MatchesFrom (.one p :: items) before (b :: rest)
  | leave {p : β → Bool} {items : List (Item β)} {before rest : List β} :
      MatchesFrom items before rest → MatchesFrom (.many p :: items) before rest
  | take {p : β → Bool} {items : List (Item β)} {b : β} {before rest : List β} :
      p b = true → MatchesFrom (.many p :: items) (b :: before) rest →
        MatchesFrom (.many p :: items) before (b :: rest)

/-- The items match somewhere in the text. -/
def Matches (items : List (Item β)) (text : List β) : Prop :=
  ∃ before rest, text = before.reverse ++ rest ∧ MatchesFrom items before rest

/-! ## 2. Anchored expressions -/

/-- A wildcard as an item: any sequence is a stretch of `dot`. -/
def ofWildcard (dot : β → Bool) : Wildcard β → Item β
  | none => .many dot
  | some p => .one p

theorem matchesFrom_stop_iff {before rest : List β} :
    MatchesFrom [.stop] before rest ↔ rest = [] := by
  constructor
  · intro h
    cases h
    rfl
  · rintro rfl
    exact .stop .nil

variable {dot : β → Bool}

theorem matchesFrom_of_accepts {pattern : List (Wildcard β)} {text : List β}
    (h : Accepts pattern text) (hdot : ∀ b ∈ text, dot b = true) :
    ∀ before, MatchesFrom (pattern.map (ofWildcard dot) ++ [.stop]) before text := by
  induction h with
  | nil => exact fun _ => matchesFrom_stop_iff.mpr rfl
  | one hp _ ih =>
    exact fun before => .one hp (ih (fun b hb => hdot b (List.mem_cons_of_mem _ hb)) _)
  | leave _ ih => exact fun before => .leave (ih hdot before)
  | take _ ih =>
    exact fun before => .take (hdot _ List.mem_cons_self)
      (ih (fun b hb => hdot b (List.mem_cons_of_mem _ hb)) _)

theorem accepts_of_matchesFrom {items : List (Item β)} {before text : List β}
    (h : MatchesFrom items before text) :
    ∀ {pattern : List (Wildcard β)}, items = pattern.map (ofWildcard dot) ++ [.stop] →
      Accepts pattern text := by
  have hnone : ∀ {item : Item β} {items : List (Item β)}, item ≠ .stop →
      (∀ p, item ≠ .one p) → (∀ p, item ≠ .many p) →
      ∀ {pattern : List (Wildcard β)}, item :: items ≠ pattern.map (ofWildcard dot) ++ [.stop] := by
    intro item items hstop hone hmany pattern heq
    cases pattern with
    | nil => exact hstop (List.cons.inj heq).1
    | cons w pattern =>
      cases w with
      | none => exact hmany _ (List.cons.inj heq).1
      | some p => exact hone _ (List.cons.inj heq).1
  induction h with
  | nil =>
    intro pattern heq
    exact absurd heq.symm (by simp)
  | start _ _ =>
    intro pattern heq
    exact absurd heq (hnone (by simp) (by simp) (by simp))
  | stop _ _ =>
    intro pattern heq
    cases pattern with
    | nil => exact .nil
    | cons w pattern => cases w <;> exact absurd (List.cons.inj heq).1 (by simp [ofWildcard])
  | one hp _ ih =>
    intro pattern heq
    cases pattern with
    | nil => exact absurd (List.cons.inj heq).1 (by simp)
    | cons w pattern =>
      cases w with
      | none => exact absurd (List.cons.inj heq).1 (by simp [ofWildcard])
      | some q =>
        obtain ⟨hitem, hrest⟩ := List.cons.inj heq
        obtain rfl := Item.one.inj hitem
        exact .one hp (ih hrest)
  | leave _ ih =>
    intro pattern heq
    cases pattern with
    | nil => exact absurd (List.cons.inj heq).1 (by simp)
    | cons w pattern =>
      cases w with
      | none => exact .leave (ih (List.cons.inj heq).2)
      | some q => exact absurd (List.cons.inj heq).1 (by simp [ofWildcard])
  | take _ _ ih =>
    intro pattern heq
    cases pattern with
    | nil => exact absurd (List.cons.inj heq).1 (by simp)
    | cons w pattern =>
      cases w with
      | none => exact .take (ih heq)
      | some q => exact absurd (List.cons.inj heq).1 (by simp [ofWildcard])

/-- **Between the anchors an expression is a wildcard pattern**, where the text has no element
outside `dot`. -/
theorem matches_anchored_iff {pattern : List (Wildcard β)} {text : List β}
    (hdot : ∀ b ∈ text, dot b = true) :
    Matches (.start :: (pattern.map (ofWildcard dot) ++ [.stop])) text ↔
      Accepts pattern text := by
  constructor
  · rintro ⟨before, rest, rfl, h⟩
    cases h with
    | start h => exact accepts_of_matchesFrom h rfl
  · intro h
    exact ⟨[], text, rfl, .start (matchesFrom_of_accepts h hdot [])⟩

end Lib.Regex

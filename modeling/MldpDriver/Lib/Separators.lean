/-
# Texts joined by a separator

Texts are written one after the other, each behind a separator.  Where a text may contain the
separator itself, reading back needs a mark: a new text begins where the separator is followed by a
mark, and no separator inside a text is (`Unmarked`).  Then the joined texts can be told apart
(`split_marked`, `joined_inj`).
-/
import Mathlib.Data.List.Basic

namespace Lib.Separators

open List

variable {α : Type} {separator : α} {Mark : List α → Prop}

/-- No separator in the text stands before a mark. -/
def Unmarked (separator : α) (Mark : List α → Prop) (text : List α) : Prop :=
  ∀ front rest, text = front ++ separator :: rest → ¬ Mark rest

/-- What is marked in a longer text is marked by what stands before the next separator. -/
def EndsBefore (separator : α) (Mark : List α → Prop) : Prop :=
  ∀ rest more, Mark (rest ++ separator :: more) → Mark rest

theorem Unmarked.tail {c : α} {text : List α} (h : Unmarked separator Mark (c :: text)) :
    Unmarked separator Mark text := by
  intro front rest heq
  refine h (c :: front) rest ?_
  rw [heq]
  rfl

theorem unmarked_of_notMem {text : List α} (h : separator ∉ text) :
    Unmarked separator Mark text := by
  intro front rest heq
  refine absurd ?_ h
  rw [heq]
  exact mem_append_right _ mem_cons_self

theorem Unmarked.cons {c : α} {text : List α} (hc : c ≠ separator)
    (h : Unmarked separator Mark text) : Unmarked separator Mark (c :: text) := by
  intro front rest heq
  cases front with
  | nil => exact absurd (List.cons.inj heq).1 hc
  | cons d front => exact h front rest (List.cons.inj heq).2

/-- **The text before the first marked separator is determined.** -/
theorem split_marked (hMark : EndsBefore separator Mark) {front front' rest rest' : List α}
    (h : Unmarked separator Mark front) (h' : Unmarked separator Mark front') (hrest : Mark rest)
    (hrest' : Mark rest') (heq : front ++ separator :: rest = front' ++ separator :: rest') :
    front = front' ∧ rest = rest' := by
  induction front generalizing front' with
  | nil =>
    cases front' with
    | nil => exact ⟨rfl, (List.cons.inj heq).2⟩
    | cons c front' =>
      obtain ⟨rfl, htail⟩ := List.cons.inj heq
      rw [htail] at hrest
      exact absurd (hMark _ _ hrest) (h' [] front' rfl)
  | cons c front ih =>
    cases front' with
    | nil =>
      obtain ⟨rfl, htail⟩ := List.cons.inj heq
      rw [← show front ++ c :: rest = rest' from htail] at hrest'
      exact absurd (hMark _ _ hrest') (h [] front rfl)
    | cons c' front' =>
      obtain ⟨rfl, htail⟩ := List.cons.inj heq
      obtain ⟨rfl, hrests⟩ := ih h.tail h'.tail htail
      exact ⟨rfl, hrests⟩

/-- The texts, each behind a separator. -/
def joined (separator : α) (texts : List (List α)) : List α :=
  texts.flatMap fun text => separator :: text

theorem joined_cons (text : List α) (texts : List (List α)) :
    joined separator (text :: texts) = separator :: (text ++ joined separator texts) := by
  rw [joined, flatMap_cons, cons_append]
  rfl

theorem split_joined {front front' : List α} {texts texts' : List (List α)}
    (h : separator ∉ front) (h' : separator ∉ front')
    (heq : front ++ joined separator texts = front' ++ joined separator texts') :
    front = front' ∧ joined separator texts = joined separator texts' := by
  cases texts with
  | nil =>
    cases texts' with
    | nil => exact ⟨by simpa [joined] using heq, rfl⟩
    | cons text' texts' =>
      rw [joined_cons, show joined separator ([] : List (List α)) = [] from rfl,
        append_nil] at heq
      exact absurd (heq ▸ mem_append_right _ mem_cons_self) h
  | cons text texts =>
    cases texts' with
    | nil =>
      rw [joined_cons, show joined separator ([] : List (List α)) = [] from rfl,
        append_nil] at heq
      exact absurd (heq ▸ mem_append_right _ mem_cons_self) h'
    | cons text' texts' =>
      rw [joined_cons, joined_cons] at heq ⊢
      have hends : EndsBefore separator fun _ => True := fun _ _ _ => trivial
      obtain ⟨rfl, hrest⟩ := split_marked hends (unmarked_of_notMem h) (unmarked_of_notMem h')
        trivial trivial heq
      exact ⟨rfl, congrArg _ hrest⟩

/-- **Joined texts can be told apart**, if each begins with a mark and has no marked separator. -/
theorem joined_inj (hMark : EndsBefore separator Mark)
    (happend : ∀ text more, Mark text → Mark (text ++ more)) {texts texts' : List (List α)}
    (h : ∀ text ∈ texts, Mark text ∧ Unmarked separator Mark text)
    (h' : ∀ text ∈ texts', Mark text ∧ Unmarked separator Mark text)
    (heq : joined separator texts = joined separator texts') : texts = texts' := by
  induction texts generalizing texts' with
  | nil =>
    cases texts' with
    | nil => rfl
    | cons text' texts' => cases heq
  | cons text texts ih =>
    cases texts' with
    | nil => cases heq
    | cons text' texts' =>
      have ih := fun heq => @ih texts' (fun t ht => h t (mem_cons_of_mem _ ht))
        (fun t ht => h' t (mem_cons_of_mem _ ht)) heq
      obtain ⟨-, htext⟩ := h text mem_cons_self
      obtain ⟨-, htext'⟩ := h' text' mem_cons_self
      rw [joined_cons, joined_cons] at heq
      have htail := (List.cons.inj heq).2
      cases texts with
      | nil =>
        cases texts' with
        | nil =>
          rw [show text = text' by simpa [joined] using htail]
        | cons next' texts' =>
          obtain ⟨hnext', -⟩ := h' next' (mem_cons_of_mem _ mem_cons_self)
          rw [joined_cons, show joined separator ([] : List (List α)) = [] from rfl,
            append_nil] at htail
          exact absurd (happend _ _ hnext') (htext _ _ htail)
      | cons next texts =>
        obtain ⟨hnext, -⟩ := h next (mem_cons_of_mem _ mem_cons_self)
        cases texts' with
        | nil =>
          rw [joined_cons, show joined separator ([] : List (List α)) = [] from rfl,
            append_nil] at htail
          exact absurd (happend _ _ hnext) (htext' _ _ htail.symm)
        | cons next' texts' =>
          obtain ⟨hnext', -⟩ := h' next' (mem_cons_of_mem _ mem_cons_self)
          rw [joined_cons, joined_cons] at htail
          obtain ⟨rfl, hrest⟩ := split_marked hMark htext htext' (happend _ _ hnext)
            (happend _ _ hnext') htail
          rw [ih (by rw [joined_cons, joined_cons, hrest])]

end Lib.Separators

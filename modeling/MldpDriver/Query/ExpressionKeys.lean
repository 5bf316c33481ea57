/-
# Expressions matched by their texts

GROUP BY keys, aggregate calls and windows are looked up by their canonical texts (`reuse`).  What
is found has the same values on every row where the expressions are plain and none has an integer
where the other has a timestamp (`Faithful.of_plain`).
-/
import Mathlib.Data.List.Forall2
import MldpDriver.Query.CanonicalExpression

namespace MldpDriver.Query.Evaluator

open Lib.DecimalText List

/-! ## 1. The same value -/

/-- The same scalar, or an error in both; the texts of the errors may differ. -/
def SameValue (x y : Except String Scalar) : Prop := x.toOption = y.toOption

theorem SameValue.cases {x y : Except String Scalar} (h : SameValue x y) :
    (∃ scalar, x = .ok scalar ∧ y = .ok scalar) ∨ ∃ m m', x = .error m ∧ y = .error m' := by
  cases x with
  | ok scalar =>
    cases y with
    | ok scalar' => exact .inl ⟨scalar, rfl, congrArg _ (Option.some.inj h).symm⟩
    | error message => exact nomatch (h : some scalar = none)
  | error message =>
    cases y with
    | ok scalar => exact nomatch (h : none = some scalar)
    | error message' => exact .inr ⟨message, message', rfl, rfl⟩

theorem SameValue.refl (x : Except String Scalar) : SameValue x x := rfl

theorem SameValue.bind {x y : Except String Scalar} (h : SameValue x y)
    {f g : Scalar → Except String Scalar} (hfg : ∀ scalar, SameValue (f scalar) (g scalar)) :
    SameValue (x >>= f) (y >>= g) := by
  rcases h.cases with ⟨scalar, rfl, rfl⟩ | ⟨m, m', rfl, rfl⟩
  · exact hfg scalar
  · rfl

variable (lib : ScalarLib)
variable {values values' : List (Except String Scalar)}

theorem coalesceLoop_sameValue (h : List.Forall₂ SameValue values values') :
    ∀ first, SameValue (coalesceLoop lib first values) (coalesceLoop lib first values') := by
  induction h with
  | nil => exact fun first => .refl _
  | cons hvalue _ ih =>
    intro first
    rcases hvalue.cases with ⟨scalar, rfl, rfl⟩ | ⟨m, m', rfl, rfl⟩
    · simp only [coalesceLoop]
      split
      · exact ih _
      · exact .refl _
    · rfl

theorem fromUtc_sameValue (h : List.Forall₂ SameValue values values') :
    SameValue (fromUtc lib values) (fromUtc lib values') := by
  cases h with
  | nil => exact .refl _
  | cons htime h =>
    cases h with
    | nil => exact htime.bind fun _ => .refl _
    | cons hzone h =>
      cases h with
      | nil => exact htime.bind fun _ => hzone.bind fun _ => .refl _
      | cons _ _ => exact .refl _

theorem callFunction_sameValue {name name' : String} (hname : lower name = lower name')
    (h : List.Forall₂ SameValue values values') :
    SameValue (callFunction lib name values) (callFunction lib name' values') := by
  rw [callFunction, callFunction, hname]
  split
  · exact coalesceLoop_sameValue lib h none
  · split
    · exact fromUtc_sameValue lib h
    · rfl

/-! ## 2. Literals -/

/-- An integer that prints like a timestamp. -/
def literalsMix : LiteralValue → LiteralValue → Bool
  | .int64 n, .timestampNs n' => n == n'
  | .timestampNs n, .int64 n' => n == n'
  | _, _ => false

mutual
/-- At some place one expression has an integer where the other has the timestamp that prints
alike. -/
def mixes : Expression → Expression → Bool
  | .literal value, .literal value' => literalsMix value value'
  | .function _ arguments _ _, .function _ arguments' _ _ => mixesAny arguments arguments'
  | .unary _ operand, .unary _ operand' => mixes operand operand'
  | .binary _ left right, .binary _ left' right' => mixes left left' || mixes right right'
  | _, _ => false

def mixesAny : List Expression → List Expression → Bool
  | argument :: rest, argument' :: rest' => mixes argument argument' || mixesAny rest rest'
  | _, _ => false
end

/-- The kinds of a literal that its text tells apart: booleans, durations, what has no value in an
expression, and integers. -/
def textKind (text : List Char) : Nat :=
  if 'e' ∈ text then 0 else if 's' ∈ text then 1 else if 'n' ∈ text ∨ '.' ∈ text then 2 else 3

def literalKind : LiteralValue → Nat
  | .bool _ => 0
  | .durationNs _ => 1
  | .double _ => 2
  | .now _ => 2
  | .int64 _ => 3
  | .timestampNs _ => 3
  | .string _ => 4

theorem letter_notMem_intText {c : Char} (hminus : c ≠ '-') (hdigit : c.isDigit = false) (n : Int) :
    c ∉ intText n := by
  intro hc
  rcases mem_intText hc with h | h
  · exact hminus h
  · rw [hdigit] at h
    exact absurd h (by decide)

theorem textKind_intText (n : Int) : textKind (intText n) = 3 := by
  rw [textKind, if_neg (letter_notMem_intText (by decide) (by decide) n),
    if_neg (letter_notMem_intText (by decide) (by decide) n), if_neg]
  rintro (h | h)
  · exact letter_notMem_intText (by decide) (by decide) n h
  · exact letter_notMem_intText (by decide) (by decide) n h

theorem textKind_duration (n : Int) : textKind (intText n ++ "ns".toList) = 1 := by
  rw [textKind, if_neg, if_pos (mem_append_right _ (by decide))]
  intro h
  rcases mem_append.mp h with h | h
  · exact letter_notMem_intText (by decide) (by decide) n h
  · exact absurd h (by decide)

theorem textKind_doubleText (d : Lib.Binary64) : textKind (doubleText d) = 2 := by
  cases d with
  | nan => decide
  | inf negative => cases negative <;> decide
  | finite q =>
    have hletter : ∀ c : Char, c ≠ '-' → c ≠ '.' → c.isDigit = false →
        c ∉ millionthsText (decide (q < 0)) (millionths q) := by
      intro c hminus hpoint hdigit hc
      rcases mem_millionthsText hc with h | h | h
      · exact hminus h
      · exact hpoint h
      · rw [hdigit] at h
        exact absurd h (by decide)
    rw [textKind, doubleText, if_neg (hletter 'e' (by decide) (by decide) (by decide)),
      if_neg (hletter 's' (by decide) (by decide) (by decide)),
      if_pos (.inr (point_mem_millionthsText _ _))]

theorem textKind_renderLiteral {value : LiteralValue} (h : ∀ s, value ≠ .string s) :
    textKind (renderLiteral value) = literalKind value := by
  cases value with
  | string s => exact absurd rfl (h s)
  | int64 n => exact textKind_intText n
  | timestampNs n => exact textKind_intText n
  | durationNs n => exact textKind_duration n
  | double d => exact textKind_doubleText d
  | bool b => cases b <;> decide
  | now offset => exact show textKind "now".toList = 2 by decide

theorem literalScalar_sameValue {value value' : LiteralValue} (h : ∀ s, value ≠ .string s)
    (h' : ∀ s, value' ≠ .string s) (hmix : literalsMix value value' = false)
    (htext : renderLiteral value = renderLiteral value') :
    SameValue (literalScalar value) (literalScalar value') := by
  have hkind : literalKind value = literalKind value' := by
    rw [← textKind_renderLiteral h, htext, textKind_renderLiteral h']
  cases value with
  | string s => exact absurd rfl (h s)
  | int64 n =>
    cases value' with
    | int64 n' => rw [intText_inj htext]; rfl
    | timestampNs n' =>
      obtain rfl := intText_inj htext
      exact absurd hmix (by simp [literalsMix])
    | _ => exact absurd hkind (by simp [literalKind])
  | timestampNs n =>
    cases value' with
    | timestampNs n' => rw [intText_inj htext]; rfl
    | int64 n' =>
      obtain rfl := intText_inj htext
      exact absurd hmix (by simp [literalsMix])
    | _ => exact absurd hkind (by simp [literalKind])
  | durationNs n =>
    cases value' with
    | durationNs n' => rw [intText_inj (append_cancel_right htext)]; rfl
    | _ => exact absurd hkind (by simp [literalKind])
  | bool b =>
    cases value' with
    | bool b' => cases b <;> cases b' <;> first | rfl | exact absurd htext (by decide)
    | _ => exact absurd hkind (by simp [literalKind])
  | double d =>
    cases value' with
    | double d' => rfl
    | now offset' => rfl
    | _ => exact absurd hkind (by simp [literalKind])
  | now offset =>
    cases value' with
    | double d' => rfl
    | now offset' => rfl
    | _ => exact absurd hkind (by simp [literalKind])

/-! ## 3. Alike expressions -/

variable {ρ : Type} (batch : Batch ρ) (row : ρ)

mutual
/-- **Alike expressions have one value on every row.** -/
theorem sameValue_of_alike : ∀ (e : Expression) {e' : Expression}, Alike e e' →
    mixes e e' = false →
      SameValue (evaluateExpression lib batch row e) (evaluateExpression lib batch row e')
  | .column name, e', h, _ => by
    cases e' with
    | column name' =>
      obtain rfl : name = name' := h
      rfl
    | _ => exact absurd h (by simp [Alike])
  | .literal value, e', h, hmix => by
    cases e' with
    | literal value' =>
      by_cases hstring : ∃ s, value = .string s
      · obtain ⟨s, rfl⟩ := hstring
        cases value' with
        | string s' =>
          obtain rfl : s = s' := h
          rfl
        | _ => exact absurd h (by simp [Alike])
      · have hnot : ∀ s, value ≠ .string s := fun s hs => hstring ⟨s, hs⟩
        have hnot' : ∀ s, value' ≠ .string s := by
          rintro s rfl
          cases value <;> first | exact absurd rfl (hnot _) | exact h
        rw [mixes] at hmix
        exact literalScalar_sameValue hnot hnot' hmix ((alike_literal hnot hnot').mp h)
    | _ => exact absurd h (by cases value <;> simp [Alike])
  | .unary operator operand, e', h, hmix => by
    cases e' with
    | unary operator' operand' =>
      obtain ⟨rfl, h⟩ := h
      rw [mixes] at hmix
      exact (sameValue_of_alike operand h hmix).bind fun _ => .refl _
    | _ => exact absurd h (by simp [Alike])
  | .binary operator left right, e', h, hmix => by
    cases e' with
    | binary operator' left' right' =>
      obtain ⟨rfl, hleft, hright⟩ := h
      rw [mixes, Bool.or_eq_false_iff] at hmix
      exact (sameValue_of_alike left hleft hmix.1).bind fun _ =>
        (sameValue_of_alike right hright hmix.2).bind fun _ => .refl _
    | _ => exact absurd h (by simp [Alike])
  | .function name arguments star distinct, e', h, hmix => by
    cases e' with
    | function name' arguments' star' distinct' =>
      obtain ⟨hname, -, -, h⟩ := h
      rw [mixes] at hmix
      exact callFunction_sameValue lib hname (sameValues_of_alike arguments h hmix)
    | _ => exact absurd h (by simp [Alike])

theorem sameValues_of_alike : ∀ (arguments : List Expression) {arguments' : List Expression},
    AllAlike arguments arguments' → mixesAny arguments arguments' = false →
      List.Forall₂ SameValue (evaluateArguments lib batch row arguments)
        (evaluateArguments lib batch row arguments')
  | [], arguments', h, _ => by
    cases arguments' with
    | nil => exact .nil
    | cons argument' rest' => exact h.elim
  | argument :: rest, arguments', h, hmix => by
    cases arguments' with
    | nil => exact h.elim
    | cons argument' rest' =>
      rw [mixesAny, Bool.or_eq_false_iff] at hmix
      exact .cons (sameValue_of_alike argument h.1 hmix.1) (sameValues_of_alike rest h.2 hmix.2)
end

/-- The text tells the value: expressions that read alike have one value on every row. -/
def Faithful (e e' : Expression) : Prop :=
  canonicalExpression e = canonicalExpression e' →
    ∀ (lib : ScalarLib) (ρ : Type) (batch : Batch ρ) (row : ρ),
      SameValue (evaluateExpression lib batch row e) (evaluateExpression lib batch row e')

theorem Faithful.of_plain {e e' : Expression} (h : Plain e) (h' : Plain e')
    (hmix : mixes e e' = false) : Faithful e e' := fun heq lib _ batch row =>
  sameValue_of_alike lib batch row e (canonicalExpression_alike h h' heq) hmix

/-! ## 4. Reuse by text -/

section Reuse

variable {α : Type}

/-- What is kept under a text, or a new entry: `key_index_`, `aggregate_index_`, `group_index_`. -/
def reuse (index : List (List Char × α)) (text : List Char) (entry : α) :
    List (List Char × α) × α :=
  match index.lookup text with
  | some found => (index, found)
  | none => (index ++ [(text, entry)], entry)

/-- Every entry is kept under its own text. -/
def Indexed (textOf : α → List Char) (index : List (List Char × α)) : Prop :=
  ∀ entry ∈ index, entry.1 = textOf entry.2

theorem mem_of_lookup {text : List Char} {found : α} :
    ∀ {index : List (List Char × α)}, index.lookup text = some found → (text, found) ∈ index
  | [], h => nomatch h
  | (key, entry) :: index, h => by
    rw [lookup_cons] at h
    cases hkey : text == key with
    | true =>
      rw [hkey] at h
      rw [eq_of_beq hkey, ← Option.some.inj h]
      exact mem_cons_self
    | false =>
      rw [hkey] at h
      exact mem_cons_of_mem _ (mem_of_lookup h)

/-- **What is reused reads like what was asked for**, and the index stays in order. -/
theorem Indexed.reuse {textOf : α → List Char} {index : List (List Char × α)}
    (h : Indexed textOf index) (entry : α) :
    Indexed textOf (reuse index (textOf entry) entry).1 ∧
      textOf (reuse index (textOf entry) entry).2 = textOf entry := by
  rw [Evaluator.reuse]
  cases hfound : index.lookup (textOf entry) with
  | some found => exact ⟨h, (h _ (mem_of_lookup hfound)).symm⟩
  | none =>
    refine ⟨fun kept hkept => ?_, rfl⟩
    rcases mem_append.mp hkept with hkept | hkept
    · exact h kept hkept
    · rw [mem_singleton.mp hkept]

/-- The entries added one after another. -/
def addAll (textOf : α → List Char) (entries : List α) : List (List Char × α) :=
  entries.foldl (fun index entry => (Evaluator.reuse index (textOf entry) entry).1) []

theorem indexed_addAll (textOf : α → List Char) (entries : List α) :
    Indexed textOf (addAll textOf entries) := by
  have hrun : ∀ index, Indexed textOf index →
      Indexed textOf (entries.foldl
        (fun index entry => (Evaluator.reuse index (textOf entry) entry).1) index) := by
    induction entries with
    | nil => exact fun _ h => h
    | cons entry rest ih => exact fun _ h => ih _ (h.reuse entry).1
  exact hrun [] fun _ h => nomatch h

theorem mem_reuse {index : List (List Char × α)} {text : List Char} {entry kept : α}
    (h : kept ∈ (Evaluator.reuse index text entry).1.map Prod.snd) :
    kept ∈ index.map Prod.snd ∨ kept = entry := by
  rw [Evaluator.reuse] at h
  cases hfound : index.lookup text with
  | some found =>
    rw [hfound] at h
    exact .inl h
  | none =>
    rw [hfound, map_append, mem_append] at h
    exact h.imp_right mem_singleton.mp

theorem mem_addAll {textOf : α → List Char} {entries : List α} {kept : α}
    (h : kept ∈ (addAll textOf entries).map Prod.snd) : kept ∈ entries := by
  have hrun : ∀ index, kept ∈ (entries.foldl
      (fun index entry => (Evaluator.reuse index (textOf entry) entry).1) index).map Prod.snd →
      kept ∈ index.map Prod.snd ∨ kept ∈ entries := by
    clear h
    induction entries with
    | nil => exact fun _ h => .inl h
    | cons entry rest ih =>
      intro index h
      rcases ih _ h with h | h
      · rcases mem_reuse h with h | rfl
        · exact .inl h
        · exact .inr mem_cons_self
      · exact .inr (mem_cons_of_mem _ h)
  rcases hrun [] h with h | h
  · exact absurd h (not_mem_nil)
  · exact h

/-- What an entry is matched with: itself, or an entry added before that has its text. -/
theorem reuse_addAll (textOf : α → List Char) (entries : List α) (asked : α) :
    ((reuse (addAll textOf entries) (textOf asked) asked).2 = asked ∨
        (reuse (addAll textOf entries) (textOf asked) asked).2 ∈ entries) ∧
      textOf (reuse (addAll textOf entries) (textOf asked) asked).2 = textOf asked := by
  refine ⟨?_, ((indexed_addAll textOf entries).reuse asked).2⟩
  rw [Evaluator.reuse]
  cases hfound : (addAll textOf entries).lookup (textOf asked) with
  | some found => exact .inr (mem_addAll (mem_map_of_mem (mem_of_lookup hfound)))
  | none => exact .inl rfl

end Reuse

/-! ### Aggregate calls and windows -/

/-- An aggregate call with its bound argument; `COUNT(*)` has none. -/
structure AggregateCall where
  function : String
  arguments : List Expression
  star : Bool
  distinct : Bool

def AggregateCall.text (call : AggregateCall) : List Char :=
  canonicalExpression (.function call.function call.arguments call.star call.distinct)

/-- A window's PARTITION BY, and its ORDER BY with the descending flags. -/
structure WindowGroup where
  partitionBy : List Expression
  orderBy : List (Expression × Bool)

def partitionText (partitionBy : List Expression) : List Char :=
  partitionBy.flatMap fun e => canonicalExpression e ++ [',']

def orderText (orderBy : List (Expression × Bool)) : List Char :=
  orderBy.flatMap fun item =>
    canonicalExpression item.1 ++ if item.2 then " desc,".toList else [',']

/-- The key of `group`. -/
def WindowGroup.text (group : WindowGroup) : List Char :=
  partitionText group.partitionBy ++ '|' :: orderText group.orderBy

def PlainOrder (orderBy : List (Expression × Bool)) : Prop := ∀ item ∈ orderBy, Plain item.1

theorem delimited_comma (rest : List Char) : Delimited (',' :: rest) := fun _ _ h =>
  .inr (.inl (List.cons.inj h).1.symm)

theorem canonical_ne_bar {e : Expression} (h : Plain e) {rest rest' : List Char} :
    canonicalExpression e ++ rest ≠ '|' :: rest' := by
  obtain ⟨c, tail, htext, hmark⟩ := canonical_head h
  rw [htext]
  intro heq
  obtain rfl := (List.cons.inj heq).1
  exact hmark (by decide)

theorem partition_alike : ∀ {partitionBy partitionBy' : List Expression}, PlainAll partitionBy →
    PlainAll partitionBy' → ∀ {rest rest' : List Char},
      partitionText partitionBy ++ '|' :: rest = partitionText partitionBy' ++ '|' :: rest' →
      AllAlike partitionBy partitionBy' ∧ rest = rest'
  | [], [], _, _, _, _, heq => ⟨trivial, (List.cons.inj heq).2⟩
  | [], e' :: _, _, h', _, _, heq => by
    rw [partitionText, partitionText, flatMap_cons, append_assoc, append_assoc]
      at heq
    exact absurd heq.symm (canonical_ne_bar h'.1)
  | e :: _, [], h, _, _, _, heq => by
    rw [partitionText, partitionText, flatMap_cons, append_assoc, append_assoc]
      at heq
    exact absurd heq (canonical_ne_bar h.1)
  | e :: more, e' :: more', h, h', rest, rest', heq => by
    simp only [partitionText, flatMap_cons, append_assoc, cons_append,
      nil_append] at heq
    obtain ⟨halike, htext⟩ :=
      alike_of_append e h.1 h'.1 (delimited_comma _) (delimited_comma _) heq
    obtain ⟨hall, htail⟩ := partition_alike h.2 h'.2 (List.cons.inj htext).2
    exact ⟨⟨halike, hall⟩, htail⟩

/-- The same direction, and alike. -/
def ItemAlike (item item' : Expression × Bool) : Prop :=
  item.2 = item'.2 ∧ Alike item.1 item'.1

theorem delimited_direction (descending : Bool) (rest : List Char) :
    Delimited ((if descending then " desc,".toList else [',']) ++ rest) := by
  cases descending with
  | true => exact delimited_blank _
  | false => exact delimited_comma _

theorem order_alike : ∀ {orderBy orderBy' : List (Expression × Bool)}, PlainOrder orderBy →
    PlainOrder orderBy' → orderText orderBy = orderText orderBy' →
      List.Forall₂ ItemAlike orderBy orderBy'
  | [], [], _, _, _ => .nil
  | [], item' :: _, _, h', heq => by
    obtain ⟨c, tail, htext, -⟩ := canonical_head (h' item' mem_cons_self)
    rw [orderText, orderText, flatMap_cons, htext] at heq
    exact absurd heq.symm (cons_ne_nil c _)
  | item :: _, [], h, _, heq => by
    obtain ⟨c, tail, htext, -⟩ := canonical_head (h item mem_cons_self)
    rw [orderText, orderText, flatMap_cons, htext] at heq
    exact absurd heq (cons_ne_nil c _)
  | item :: more, item' :: more', h, h', heq => by
    simp only [orderText, flatMap_cons, append_assoc] at heq
    obtain ⟨halike, htext⟩ := alike_of_append item.1 (h item mem_cons_self)
      (h' item' mem_cons_self) (delimited_direction _ _) (delimited_direction _ _) heq
    have hitems : item.2 = item'.2 ∧ orderText more = orderText more' := by
      cases hdirection : item.2 <;> cases hdirection' : item'.2 <;>
        rw [hdirection, hdirection'] at htext
      · exact ⟨rfl, (List.cons.inj htext).2⟩
      · exact absurd (List.cons.inj htext).1 (by decide)
      · exact absurd (List.cons.inj htext).1 (by decide)
      · exact ⟨rfl, append_cancel_left htext⟩
    exact .cons ⟨hitems.1, halike⟩ (order_alike
      (fun item hitem => h item (mem_cons_of_mem _ hitem))
      (fun item hitem => h' item (mem_cons_of_mem _ hitem)) hitems.2)

/-! ## 5. What is matched -/

/-- A kind of entry with its text, and when two entries are the same on a row. -/
structure Kind (α : Type) where
  text : α → List Char
  plain : α → Prop
  mix : α → α → Bool
  same : ScalarLib → {ρ : Type} → Batch ρ → ρ → α → α → Prop
  same_self : ∀ lib {ρ} (batch : Batch ρ) row a, same lib batch row a a
  /-- Plain entries with one text are the same on every row. -/
  same_of_text : ∀ {a b}, plain a → plain b → mix a b = false → text a = text b →
    ∀ lib {ρ} (batch : Batch ρ) row, same lib batch row a b

theorem sameValues_self (arguments : List Expression) :
    List.Forall₂ SameValue (evaluateArguments lib batch row arguments)
      (evaluateArguments lib batch row arguments) :=
  List.forall₂_same.mpr fun _ _ => .refl _

/-- GROUP BY keys. -/
def groupKeys : Kind Expression where
  text := canonicalExpression
  plain := Plain
  mix := mixes
  same lib _ batch row e e' :=
    SameValue (evaluateExpression lib batch row e) (evaluateExpression lib batch row e')
  same_self _ _ _ _ _ := .refl _
  same_of_text h h' hmix htext lib _ batch row := Faithful.of_plain h h' hmix htext lib _ batch row

/-- One function of one value: the arguments agree on the row. -/
def SameCall (lib : ScalarLib) {ρ : Type} (batch : Batch ρ) (row : ρ)
    (call call' : AggregateCall) : Prop :=
  lower call.function = lower call'.function ∧ call.star = call'.star ∧
    call.distinct = call'.distinct ∧
    List.Forall₂ SameValue (evaluateArguments lib batch row call.arguments)
      (evaluateArguments lib batch row call'.arguments)

def aggregateCalls : Kind AggregateCall where
  text := AggregateCall.text
  plain call := Plain (.function call.function call.arguments call.star call.distinct)
  mix call call' := mixesAny call.arguments call'.arguments
  same := SameCall
  same_self lib _ batch row call := ⟨rfl, rfl, rfl, sameValues_self lib batch row call.arguments⟩
  same_of_text h h' hmix htext lib _ batch row := by
    obtain ⟨hname, hstar, hdistinct, hall⟩ := canonicalExpression_alike h h' htext
    exact ⟨hname, hstar, hdistinct, sameValues_of_alike lib batch row _ hall hmix⟩

/-- The partition keys and the sort keys agree on the row, and the directions. -/
def SameWindow (lib : ScalarLib) {ρ : Type} (batch : Batch ρ) (row : ρ)
    (group group' : WindowGroup) : Prop :=
  List.Forall₂ SameValue (evaluateArguments lib batch row group.partitionBy)
      (evaluateArguments lib batch row group'.partitionBy) ∧
    List.Forall₂ (fun item item' : Expression × Bool => item.2 = item'.2 ∧
      SameValue (evaluateExpression lib batch row item.1)
        (evaluateExpression lib batch row item'.1)) group.orderBy group'.orderBy

theorem sameItems_of_alike {orderBy orderBy' : List (Expression × Bool)}
    (h : List.Forall₂ ItemAlike orderBy orderBy')
    (hmix : mixesAny (orderBy.map Prod.fst) (orderBy'.map Prod.fst) = false) :
    List.Forall₂ (fun item item' : Expression × Bool => item.2 = item'.2 ∧
      SameValue (evaluateExpression lib batch row item.1)
        (evaluateExpression lib batch row item'.1)) orderBy orderBy' := by
  induction h with
  | nil => exact .nil
  | cons hitem _ ih =>
    rw [map_cons, map_cons, mixesAny, Bool.or_eq_false_iff] at hmix
    exact .cons ⟨hitem.1, sameValue_of_alike lib batch row _ hitem.2 hmix.1⟩ (ih hmix.2)

def windowGroups : Kind WindowGroup where
  text := WindowGroup.text
  plain group := PlainAll group.partitionBy ∧ PlainOrder group.orderBy
  mix group group' := mixesAny group.partitionBy group'.partitionBy ||
    mixesAny (group.orderBy.map Prod.fst) (group'.orderBy.map Prod.fst)
  same := SameWindow
  same_self lib _ batch row group := ⟨sameValues_self lib batch row group.partitionBy,
    List.forall₂_same.mpr fun _ _ => ⟨rfl, .refl _⟩⟩
  same_of_text h h' hmix htext lib _ batch row := by
    rw [Bool.or_eq_false_iff] at hmix
    obtain ⟨hpartition, horder⟩ := partition_alike h.1 h'.1 htext
    exact ⟨sameValues_of_alike lib batch row _ hpartition hmix.1,
      sameItems_of_alike lib batch row (order_alike h.2 h'.2 horder) hmix.2⟩

/-- The entries and what is asked for are plain, and no entry mixes integers and timestamps with
it. -/
def Kind.Clear {α : Type} (kind : Kind α) (entries : List α) (asked : α) : Prop :=
  kind.plain asked ∧ ∀ entry ∈ entries, kind.plain entry ∧ kind.mix entry asked = false

/-- What is found for an entry is the same on every row. -/
def Kind.Sound {α : Type} (kind : Kind α) (entries : List α) (asked : α) : Prop :=
  ∀ (lib : ScalarLib) (ρ : Type) (batch : Batch ρ) (row : ρ),
    kind.same lib batch row (reuse (addAll kind.text entries) (kind.text asked) asked).2 asked

/-- **Reuse by text substitutes nothing different.** -/
theorem Kind.Clear.sound {α : Type} {kind : Kind α} {entries : List α} {asked : α}
    (h : kind.Clear entries asked) : kind.Sound entries asked := by
  intro lib ρ batch row
  obtain ⟨hwhere, htext⟩ := reuse_addAll kind.text entries asked
  rcases hwhere with hself | hmem
  · rw [hself]
    exact kind.same_self lib batch row asked
  · obtain ⟨hplain, hmix⟩ := h.2 _ hmem
    exact kind.same_of_text hplain h.1 hmix htext lib batch row

/-! ## 6. Texts that do not tell -/

/-- The evaluator's library is not needed in the examples below. -/
def emptyLib : ScalarLib where
  boolOf _ := false
  int64Of _ := 0
  castTo _ _ := .error "no cast"
  fromUtcLocal _ _ := .error "no time zones"
  fromUtc _ _ _ := .error "no time zones"

def coalesce (arguments : List Expression) : Expression :=
  .function "coalesce" arguments false false

theorem canonical_coalesce (arguments : List Expression) :
    canonicalExpression (coalesce arguments) =
      "coalesce(".toList ++ (canonicalArguments [] arguments ++ [')']) := by
  rw [coalesce, canonicalExpression, show lower "coalesce" = "coalesce".toList by decide]
  rfl

theorem evaluate_coalesce (arguments : List Expression) :
    evaluateExpression lib batch row (coalesce arguments) =
      coalesceLoop lib none (evaluateArguments lib batch row arguments) := by
  rw [coalesce, evaluateExpression, callFunction, if_pos (by decide)]

/-- A batch with one row. -/
def oneRow (columns : List (String × Scalar)) : Batch Unit where
  columns := columns.map fun c => ⟨c.1, c.2.type, fun _ => c.2, fun _ => rfl⟩
  rows := [()]

theorem append_ne_self (a b : String) {separator : String} (h : separator ≠ "") :
    a ++ separator ++ b ≠ a := by
  intro heq
  have hlength := congrArg String.length heq
  have hpos : separator.length ≠ 0 := fun hzero => h (String.length_eq_zero_iff.mp hzero)
  simp only [String.length_append] at hlength
  omega

theorem not_faithful_text (column a b : String) :
    ¬ Faithful (coalesce [.column column, .literal (.string a), .literal (.string b)])
      (coalesce [.column column, .literal (.string (a ++ "','" ++ b))]) := by
  intro h
  have hvalue := h (by
    simp only [canonical_coalesce, canonicalArguments, canonicalExpression, String.toList_append,
      append_assoc, cons_append, nil_append]
    rfl) emptyLib Unit (oneRow [(column, .null .string)]) ()
  have hread : readColumn (oneRow [(column, .null .string)]) () column = .ok (.null .string) := by
    simp [readColumn, Batch.field, oneRow]
  have htext : (some (Scalar.string a) : Option Scalar) = some (.string (a ++ "','" ++ b)) := by
    simpa [SameValue, evaluate_coalesce, evaluateArguments, evaluateExpression, hread, coalesceLoop,
      literalScalar, Scalar.isValid, Scalar.type, Except.toOption] using hvalue
  exact append_ne_self a b (by decide) (Scalar.string.inj (Option.some.inj htext)).symm

theorem not_faithful_name (a b : String) :
    ¬ Faithful (coalesce [.column a, .column b]) (coalesce [.column (a ++ ",col:" ++ b)]) := by
  intro h
  have hne : a ++ ",col:" ++ b ≠ a := append_ne_self a b (by decide)
  have hvalue := h (by
    simp only [canonical_coalesce, canonicalArguments, canonicalExpression, String.toList_append,
      append_assoc, cons_append, nil_append]
    rfl) emptyLib Unit (oneRow [(a, .int64 0), (a ++ ",col:" ++ b, .int64 1)]) ()
  have hfirst : readColumn (oneRow [(a, .int64 0), (a ++ ",col:" ++ b, .int64 1)]) () a =
      .ok (.int64 0) := by
    simp [readColumn, Batch.field, oneRow, hne]
  have hsecond : readColumn (oneRow [(a, .int64 0), (a ++ ",col:" ++ b, .int64 1)]) ()
      (a ++ ",col:" ++ b) = .ok (.int64 1) := by
    simp [readColumn, Batch.field, oneRow, hne.symm]
  simp [SameValue, evaluate_coalesce, evaluateArguments, evaluateExpression, hfirst, hsecond,
    coalesceLoop, Scalar.isValid, Scalar.type, Except.toOption] at hvalue

theorem not_faithful_integer (n : Int) :
    ¬ Faithful (.literal (.int64 n)) (.literal (.timestampNs n)) := by
  intro h
  have hvalue := h rfl emptyLib Unit (oneRow []) ()
  rw [SameValue, evaluateExpression, evaluateExpression] at hvalue
  exact nomatch Option.some.inj hvalue

/-! ## 7. Matching by text -/

/-- **When the text tells the value**: for plain expressions, but for integers in the place of
timestamps; then GROUP BY keys, aggregates and windows are matched rightly.  A quote in a text, a
comma in a column's name and an integer for a timestamp each have a pair with one text, and what is
found for it has other values. -/
theorem canonicalExpression_faithful (e e' : Expression) :
    ((Plain e → Plain e' → mixes e e' = false → Faithful e e') ∧
      (∀ keys asked, groupKeys.Clear keys asked → groupKeys.Sound keys asked) ∧
      (∀ calls asked, aggregateCalls.Clear calls asked → aggregateCalls.Sound calls asked) ∧
      ∀ groups asked, windowGroups.Clear groups asked → windowGroups.Sound groups asked) ∧
    (∀ column a b,
      ¬ Faithful (coalesce [.column column, .literal (.string a), .literal (.string b)])
        (coalesce [.column column, .literal (.string (a ++ "','" ++ b))])) ∧
    (∀ a b,
      ¬ Faithful (coalesce [.column a, .column b]) (coalesce [.column (a ++ ",col:" ++ b)])) ∧
    ∀ n, ¬ Faithful (.literal (.int64 n)) (.literal (.timestampNs n)) :=
  ⟨⟨Faithful.of_plain, fun _ _ => Kind.Clear.sound, fun _ _ => Kind.Clear.sound,
    fun _ _ => Kind.Clear.sound⟩, not_faithful_text, not_faithful_name, not_faithful_integer⟩

/-- `SELECT COALESCE(name, 'x')` with `GROUP BY pv, coalesce(name, 'x')`: the second key is read in
its place. -/
theorem canonicalExpression_faithful_upper :
    canonicalExpression (.function "COALESCE" [.column "name", .literal (.string "x")] false false) =
        canonicalExpression (coalesce [.column "name", .literal (.string "x")]) ∧
      groupKeys.Sound [.column "pv", coalesce [.column "name", .literal (.string "x")]]
        (.function "COALESCE" [.column "name", .literal (.string "x")] false false) := by
  have hplain : PlainAll [.column "name", .literal (.string "x")] :=
    ⟨by simpa only [Plain] using word_of_all (by decide), by simp only [Plain]; decide, trivial⟩
  refine ⟨?_, (canonicalExpression_faithful (.column "pv") (.column "pv")).1.2.1 _ _
    ⟨⟨⟨by decide, all_eq_true.mp rfl⟩, hplain⟩, ?_⟩⟩
  · rw [canonical_coalesce, canonicalExpression, show lower "COALESCE" = "coalesce".toList by decide]
    rfl
  · intro entry hentry
    rcases mem_cons.mp hentry with rfl | hentry
    · exact ⟨by simpa only [groupKeys, Plain] using word_of_all (by decide), rfl⟩
    · obtain rfl := mem_singleton.mp hentry
      exact ⟨⟨⟨by decide, all_eq_true.mp rfl⟩, hplain⟩, rfl⟩

/-- `SELECT coalesce(name, "a','b")` with `GROUP BY coalesce(name, 'a', 'b')`. -/
theorem key_substitutes_expression :
    ¬ groupKeys.Sound [coalesce [.column "name", .literal (.string "a"), .literal (.string "b")]]
      (coalesce [.column "name", .literal (.string "a','b")]) := by
  intro h
  have hvalue : SameValue (.ok (.string "a")) (.ok (.string "a','b")) :=
    h emptyLib Unit (oneRow [("name", .null .string)]) ()
  exact absurd (Scalar.string.inj (Option.some.inj hvalue)) (by decide)

end MldpDriver.Query.Evaluator

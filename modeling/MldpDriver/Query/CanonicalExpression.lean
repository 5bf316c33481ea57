/-
# Canonical texts of expressions

The binder matches a select expression to a GROUP BY key, and reuses aggregates and windows, by the
text `canonicalExpression` gives.  The text of a literal is not escaped, so two different lists of
arguments may read alike, and integers and timestamps print alike.
-/
import MldpDriver.Lib.DecimalText
import MldpDriver.Query.ExpressionEvaluator

namespace MldpDriver.Query.Evaluator

open List
open Lib (Binary64)
open Lib.DecimalText
open Lib.Directory (split_unique)

/-! ## 1. The text -/

/-- `renderExpression` of a literal. -/
def renderLiteral : LiteralValue → List Char
  | .int64 value => intText value
  | .string value => value.toList
  | .double value => doubleText value
  | .bool value => if value then "true".toList else "false".toList
  | .durationNs value => intText value ++ "ns".toList
  | .timestampNs value => intText value
  | .now _ => "now".toList

mutual
def canonicalExpression : Expression → List Char
  | .function name arguments star distinct =>
    lower name ++ '(' ::
      ((if distinct then "distinct ".toList else []) ++ ((if star then ['*'] else []) ++
        (canonicalArguments [] arguments ++ [')'])))
  | .literal (.string value) => '\'' :: (value.toList ++ ['\''])
  | .literal value => renderLiteral value
  | .unary operator operand =>
    '(' :: (operator.text.toList ++ ' ' :: (canonicalExpression operand ++ [')']))
  | .binary operator left right =>
    '(' :: (canonicalExpression left ++ ' ' :: (operator.text.toList ++ ' ' ::
      (canonicalExpression right ++ [')'])))
  | .column name => "col:".toList ++ name.toList

/-- The loop over the arguments; all but the first follow a comma. -/
def canonicalArguments : List Char → List Expression → List Char
  | _, [] => []
  | comma, argument :: rest =>
    comma ++ (canonicalExpression argument ++ canonicalArguments [','] rest)
end

/-! ## 2. Plain expressions

For expressions whose texts and column names keep clear of the punctuation (`Plain`) the text tells
the structure (`canonicalExpression_alike`). -/

/-- The punctuation around the parts of a text. -/
def isStop (c : Char) : Bool := c == ' ' || c == ',' || c == '(' || c == ')'

/-- A character of a function name. -/
def isNameChar (c : Char) : Bool := c.isAlphanum || c == '_'

mutual
/-- No text literal has a quote, no column name a space, a comma or a parenthesis. -/
def Plain : Expression → Prop
  | .function name arguments _ _ =>
    (name.toList ≠ [] ∧ ∀ c ∈ name.toList, isNameChar c = true) ∧ PlainAll arguments
  | .literal (.string value) => '\'' ∉ value.toList
  | .literal _ => True
  | .unary _ operand => Plain operand
  | .binary _ left right => Plain left ∧ Plain right
  | .column name => ∀ c ∈ name.toList, isStop c = false

def PlainAll : List Expression → Prop
  | [] => True
  | argument :: rest => Plain argument ∧ PlainAll rest
end

mutual
/-- The same structure; literals that print alike, and function names up to their case. -/
def Alike : Expression → Expression → Prop
  | .function name arguments star distinct, .function name' arguments' star' distinct' =>
    lower name = lower name' ∧ star = star' ∧ distinct = distinct' ∧
      AllAlike arguments arguments'
  | .literal (.string value), .literal (.string value') => value = value'
  | .literal (.string _), _ => False
  | .literal _, .literal (.string _) => False
  | .literal value, .literal value' => renderLiteral value = renderLiteral value'
  | .unary operator operand, .unary operator' operand' =>
    operator = operator' ∧ Alike operand operand'
  | .binary operator left right, .binary operator' left' right' =>
    operator = operator' ∧ Alike left left' ∧ Alike right right'
  | .column name, .column name' => name = name'
  | _, _ => False

def AllAlike : List Expression → List Expression → Prop
  | [], [] => True
  | argument :: rest, argument' :: rest' => Alike argument argument' ∧ AllAlike rest rest'
  | _, _ => False
end

/-! ## 3. Words -/

/-- A text that ends, or goes on with punctuation other than an opening parenthesis. -/
def Delimited (text : List Char) : Prop :=
  ∀ c rest, text = c :: rest → c = ' ' ∨ c = ',' ∨ c = ')'

/-- A text that ends, or goes on with punctuation. -/
def Stops (text : List Char) : Prop := ∀ c rest, text = c :: rest → isStop c = true

theorem Delimited.stops {text : List Char} (h : Delimited text) : Stops text := by
  intro c rest heq
  rcases h c rest heq with rfl | rfl | rfl <;> rfl

theorem word_of_all {text : List Char} (h : text.all (fun c => !isStop c) = true) :
    ∀ c ∈ text, isStop c = false := by
  intro c hc
  have hstop := all_eq_true.mp h c hc
  rwa [Bool.not_eq_true'] at hstop

/-- The word in front of a text, and what follows it. -/
def frontWord (text : List Char) : List Char := text.takeWhile fun c => !isStop c

def afterWord (text : List Char) : List Char := text.dropWhile fun c => !isStop c

variable {word rest : List Char}

theorem frontWord_append (hword : ∀ c ∈ word, isStop c = false) (hrest : Stops rest) :
    frontWord (word ++ rest) = word ∧ afterWord (word ++ rest) = rest := by
  induction word with
  | nil =>
    cases rest with
    | nil => exact ⟨rfl, rfl⟩
    | cons c rest =>
      have hc := hrest c rest rfl
      exact ⟨by simp [frontWord, hc], by simp [afterWord, hc]⟩
  | cons c word ih =>
    have hc := hword c mem_cons_self
    obtain ⟨hfront, hafter⟩ := ih fun d hd => hword d (mem_cons_of_mem _ hd)
    constructor
    · rw [cons_append, frontWord, takeWhile_cons_of_pos (by simp [hc])]
      exact congrArg _ hfront
    · rw [cons_append, afterWord, dropWhile_cons_of_pos (by simp [hc])]
      exact hafter

/-- **The word before the punctuation is determined.** -/
theorem split_word {word word' rest rest' : List Char} (hword : ∀ c ∈ word, isStop c = false)
    (hword' : ∀ c ∈ word', isStop c = false) (hrest : Stops rest) (hrest' : Stops rest')
    (h : word ++ rest = word' ++ rest') : word = word' ∧ rest = rest' := by
  obtain ⟨hfront, hafter⟩ := frontWord_append hword hrest
  obtain ⟨hfront', hafter'⟩ := frontWord_append hword' hrest'
  rw [h] at hfront hafter
  exact ⟨hfront.symm.trans hfront', hafter.symm.trans hafter'⟩

/-! ### The words of names and literals -/

theorem nameChar_lower {c : Char} (h : isNameChar c = true) :
    isStop c.toLower = false ∧ c.toLower ∉ ['\'', '*', '|'] := by
  have hall : ∀ n < 123, isNameChar (Char.ofNat n) = true →
      isStop (Char.ofNat n).toLower = false ∧ (Char.ofNat n).toLower ∉ ['\'', '*', '|'] := by
    decide +kernel
  have hlt : c.toNat < 123 := by
    have hparts : (((c.isUpper || c.isLower) || c.isDigit) || c == '_') = true := h
    simp only [Bool.or_eq_true, beq_iff_eq] at hparts
    rcases hparts with ((hupper | hlower) | hdigit) | rfl
    · have hle := (of_decide_eq_true hupper).2
      exact Nat.lt_of_le_of_lt (UInt32.le_iff_toNat_le.mp hle) (by decide)
    · have hle := of_decide_eq_true (Bool.and_eq_true_iff.mp hlower).2
      exact Nat.lt_of_le_of_lt (UInt32.le_iff_toNat_le.mp hle) (by decide)
    · have hle := of_decide_eq_true (Bool.and_eq_true_iff.mp hdigit).2
      exact Nat.lt_of_le_of_lt (UInt32.le_iff_toNat_le.mp hle) (by decide)
    · decide
  have hc := hall c.toNat hlt
  rw [Char.ofNat_toNat] at hc
  exact hc h

theorem lower_word {name : String} (h : ∀ c ∈ name.toList, isNameChar c = true) :
    ∀ c ∈ lower name, isStop c = false ∧ c ∉ ['\'', '*', '|'] := by
  intro c hc
  obtain ⟨d, hd, rfl⟩ := mem_map.mp hc
  exact nameChar_lower (h d hd)

theorem not_stop_of_isDigit {c : Char} (h : c.isDigit = true) : isStop c = false := by
  cases hc : isStop c with
  | false => rfl
  | true =>
    simp only [isStop, Bool.or_eq_true, beq_iff_eq] at hc
    rcases hc with ((rfl | rfl) | rfl) | rfl <;> exact absurd h (by decide)

theorem intText_word (n : Int) : ∀ c ∈ intText n, isStop c = false := by
  intro c hc
  rcases mem_intText hc with rfl | h
  · rfl
  · exact not_stop_of_isDigit h

theorem doubleText_word (d : Binary64) : ∀ c ∈ doubleText d, isStop c = false := by
  cases d with
  | nan => exact word_of_all (by decide)
  | inf negative => cases negative <;> exact word_of_all (by decide)
  | finite q =>
    intro c hc
    rcases mem_millionthsText hc with rfl | rfl | h
    · rfl
    · rfl
    · exact not_stop_of_isDigit h

variable {value : LiteralValue}

theorem renderLiteral_word (h : ∀ s, value ≠ .string s) :
    ∀ c ∈ renderLiteral value, isStop c = false := by
  cases value with
  | string s => exact absurd rfl (h s)
  | int64 n => exact intText_word n
  | double d => exact doubleText_word d
  | bool b => cases b <;> exact word_of_all (by decide)
  | timestampNs n => exact intText_word n
  | durationNs n =>
    intro c hc
    rcases mem_append.mp hc with hc | hc
    · exact intText_word n c hc
    · have hns : ∀ c ∈ "ns".toList, isStop c = false := word_of_all (by decide)
      exact hns c hc
  | now offset => exact word_of_all (show "now".toList.all _ = true by decide)

/-- A literal other than a string begins with a sign, a digit or one of five letters. -/
theorem renderLiteral_head (h : ∀ s, value ≠ .string s) :
    ∃ c rest, renderLiteral value = c :: rest ∧
      (c = '-' ∨ c.isDigit = true ∨ c ∈ ['t', 'f', 'n', 'i']) ∧ (c = '-' → rest ≠ []) := by
  have hint : ∀ n : Int, ∃ c rest, intText n = c :: rest ∧ (c = '-' ∨ c.isDigit = true) ∧
      (c = '-' → rest ≠ []) := by
    intro n
    cases n with
    | ofNat n =>
      cases htext : natText n with
      | nil => exact absurd htext Nat.toDigits_ne_nil
      | cons c rest =>
        have hdigit := isDigit_of_mem_natText (htext ▸ mem_cons_self : c ∈ natText n)
        refine ⟨c, rest, htext, .inr hdigit, ?_⟩
        rintro rfl
        exact absurd hdigit (by decide)
    | negSucc n => exact ⟨'-', natText (n + 1), rfl, .inl rfl, fun _ => Nat.toDigits_ne_nil⟩
  have hdigits : ∀ n : Int, ∃ c rest, intText n = c :: rest ∧
      (c = '-' ∨ c.isDigit = true ∨ c ∈ ['t', 'f', 'n', 'i']) ∧ (c = '-' → rest ≠ []) := by
    intro n
    obtain ⟨c, rest, htext, hc, hrest⟩ := hint n
    exact ⟨c, rest, htext, hc.imp id .inl, hrest⟩
  cases value with
  | string s => exact absurd rfl (h s)
  | int64 n => exact hdigits n
  | timestampNs n => exact hdigits n
  | durationNs n =>
    obtain ⟨c, rest, htext, hc, -⟩ := hdigits n
    exact ⟨c, rest ++ "ns".toList, by rw [renderLiteral, htext]; rfl, hc,
      fun _ => append_ne_nil_of_right_ne_nil _ (by decide)⟩
  | bool b => cases b <;> exact ⟨_, _, rfl, by decide, by decide⟩
  | now offset => exact ⟨'n', "ow".toList, rfl, by decide, by decide⟩
  | double d =>
    cases d with
    | nan => exact ⟨'n', "an".toList, rfl, by decide, by decide⟩
    | inf negative => cases negative <;> exact ⟨_, _, rfl, by decide, by decide⟩
    | finite q =>
      show ∃ c rest, millionthsText (decide (q < 0)) (millionths q) = c :: rest ∧ _ ∧ _
      cases hsign : decide (q < 0) with
      | true =>
        exact ⟨'-', _, rfl, .inl rfl, fun _ => append_ne_nil_of_right_ne_nil _ (by simp)⟩
      | false =>
        cases htext : natText (millionths q / 1000000) with
        | nil => exact absurd htext Nat.toDigits_ne_nil
        | cons c rest =>
          have hdigit := isDigit_of_mem_natText
            (htext ▸ mem_cons_self : c ∈ natText (millionths q / 1000000))
          refine ⟨c, _, by rw [millionthsText, htext]; rfl, .inr (.inl hdigit), ?_⟩
          rintro rfl
          exact absurd hdigit (by decide)

/-! ## 4. Shapes -/

/-- A unary operator and a blank. -/
def unaryText (text : List Char) : Bool :=
  decide (frontWord text ∈ ["IS".toList, "NOT".toList, ['+'], ['-']]) &&
    (afterWord text).head? == some ' '

/-- What a text begins with: a unary or a binary expression, a string, a call, or a word. -/
def shape (text : List Char) : Nat :=
  if text.head? = some '(' then if unaryText text.tail then 0 else 1
  else if text.head? = some '\'' then 2
  else if (afterWord text).head? = some '(' then 3
  else 4

def shapeOf : Expression → Nat
  | .unary _ _ => 0
  | .binary _ _ _ => 1
  | .literal (.string _) => 2
  | .function _ _ _ _ => 3
  | .literal _ => 4
  | .column _ => 4

attribute [local simp] canonicalExpression

theorem canonical_literal (h : ∀ s, value ≠ .string s) :
    canonicalExpression (.literal value) = renderLiteral value := by
  cases value <;> first | rfl | exact absurd rfl (h _)

theorem shapeOf_literal (h : ∀ s, value ≠ .string s) :
    shapeOf (.literal value) = 4 := by
  cases value <;> first | rfl | exact absurd rfl (h _)

theorem stops_open (rest : List Char) : Stops ('(' :: rest) := by
  intro c tail h
  rw [← (List.cons.inj h).1]
  rfl

theorem stops_blank (rest : List Char) : Stops (' ' :: rest) := by
  intro c tail h
  rw [← (List.cons.inj h).1]
  rfl

theorem unaryText_operator (operator : UnaryOperator) (rest : List Char) :
    unaryText (operator.text.toList ++ ' ' :: rest) = true := by
  have hword : ∀ word more, (∀ c ∈ word, isStop c = false) →
      word ∈ ["IS".toList, "NOT".toList, ['+'], ['-']] →
      unaryText (word ++ ' ' :: more) = true := by
    intro word more hstop hmem
    obtain ⟨hfront, hafter⟩ := frontWord_append hstop (stops_blank more)
    rw [unaryText, hfront, hafter, decide_eq_true hmem]
    rfl
  cases operator with
  | isNull =>
    exact hword "IS".toList ("NULL".toList ++ ' ' :: rest) (word_of_all (by decide)) (by decide)
  | isNotNull =>
    exact hword "IS".toList ("NOT NULL".toList ++ ' ' :: rest) (word_of_all (by decide))
      (by decide)
  | not => exact hword "NOT".toList rest (word_of_all (by decide)) (by decide)
  | plus => exact hword ['+'] rest (word_of_all (by decide)) (by decide)
  | minus => exact hword ['-'] rest (word_of_all (by decide)) (by decide)

theorem unaryText_eq_false (hword : ∀ c ∈ word, isStop c = false) (hrest : Stops rest)
    (h : word ∉ ["IS".toList, "NOT".toList, ['+'], ['-']]) :
    unaryText (word ++ rest) = false := by
  rw [unaryText, (frontWord_append hword hrest).1, decide_eq_false h]
  rfl

theorem renderLiteral_notMem (h : ∀ s, value ≠ .string s) :
    renderLiteral value ∉ ["IS".toList, "NOT".toList, ['+'], ['-']] := by
  obtain ⟨c, rest, htext, hc, hrest⟩ := renderLiteral_head h
  rw [htext]
  intro hmem
  simp only [mem_cons, not_mem_nil, or_false] at hmem
  have hhead : c = 'I' ∨ c = 'N' ∨ c = '+' ∨ (c = '-' ∧ rest = []) := by
    rcases hmem with h | h | h | h
    · exact .inl (List.cons.inj h).1
    · exact .inr (.inl (List.cons.inj h).1)
    · exact .inr (.inr (.inl (List.cons.inj h).1))
    · exact .inr (.inr (.inr (List.cons.inj h)))
  rcases hhead with rfl | rfl | rfl | ⟨rfl, hnil⟩
  · exact absurd hc (by decide)
  · exact absurd hc (by decide)
  · exact absurd hc (by decide)
  · exact hrest rfl hnil

theorem column_word {name : String} (h : Plain (.column name)) :
    ∀ c ∈ "col:".toList ++ name.toList, isStop c = false := by
  have hcol : ∀ c ∈ "col:".toList, isStop c = false := word_of_all (by decide)
  intro c hc
  rcases mem_append.mp hc with hc | hc
  · exact hcol c hc
  · exact h c hc

variable {e : Expression}

theorem unaryText_canonical (h : Plain e) (rest : List Char) :
    unaryText (canonicalExpression e ++ ' ' :: rest) = false := by
  have hopen : ∀ text, unaryText ('(' :: text) = false := fun text => by
    rw [unaryText, show frontWord ('(' :: text) = [] from rfl]
    rfl
  cases e with
  | unary operator operand => exact hopen _
  | binary operator left right => exact hopen _
  | column name =>
    refine unaryText_eq_false (column_word h) (stops_blank rest) ?_
    intro hmem
    have hhead : ∀ word ∈ ["IS".toList, "NOT".toList, ['+'], ['-']], word.head? ≠ some 'c' := by
      decide
    exact hhead _ hmem rfl
  | function name arguments star distinct =>
    obtain ⟨⟨-, hname⟩, -⟩ := h
    have hword := fun c hc => (lower_word hname c hc).1
    rw [canonicalExpression, append_assoc, cons_append, unaryText,
      (frontWord_append hword (stops_open _)).2, Bool.and_eq_false_iff]
    exact .inr rfl
  | literal value =>
    by_cases hstring : ∃ s, value = .string s
    · obtain ⟨s, rfl⟩ := hstring
      have hquote : ∀ word ∈ ["IS".toList, "NOT".toList, ['+'], ['-']],
          word.head? ≠ some '\'' := by decide
      rw [unaryText, Bool.and_eq_false_iff]
      exact .inl (decide_eq_false fun hmem => hquote _ hmem rfl)
    · have hnot : ∀ s, value ≠ .string s := fun s hs => hstring ⟨s, hs⟩
      rw [canonical_literal hnot]
      exact unaryText_eq_false (renderLiteral_word hnot) (stops_blank rest)
        (renderLiteral_notMem hnot)

theorem shape_word (hword : ∀ c ∈ word, isStop c = false)
    (hhead : ∃ c tail, word = c :: tail ∧ c ≠ '\'') (hrest : Stops rest) :
    shape (word ++ rest) = if rest.head? = some '(' then 3 else 4 := by
  obtain ⟨c, tail, hcons, hquote⟩ := hhead
  have hafter := (frontWord_append hword hrest).2
  have hopen : c ≠ '(' := by
    rintro rfl
    exact absurd (hword '(' (hcons ▸ mem_cons_self)) (by decide)
  have hc : (word ++ rest).head? = some c := by rw [hcons]; rfl
  rw [shape, hc, hafter, if_neg (by simpa using hopen), if_neg (by simpa using hquote)]

theorem Delimited.not_open {text : List Char} (h : Delimited text) : text.head? ≠ some '(' := by
  cases text with
  | nil => exact fun h => nomatch h
  | cons c rest =>
    intro hc
    obtain rfl := Option.some.inj hc
    rcases h '(' rest rfl with h | h | h <;> exact absurd h (by decide)

theorem lower_head {name : String} (hne : name.toList ≠ [])
    (h : ∀ c ∈ name.toList, isNameChar c = true) :
    ∃ c tail, lower name = c :: tail ∧ c ≠ '\'' := by
  cases hname : name.toList with
  | nil => exact absurd hname hne
  | cons c tail =>
    refine ⟨c.toLower, tail.map Char.toLower, by rw [lower, hname]; rfl, fun hquote => ?_⟩
    exact (nameChar_lower (h c (hname ▸ mem_cons_self))).2 (hquote ▸ mem_cons_self)

theorem renderLiteral_head_quote (h : ∀ s, value ≠ .string s) :
    ∃ c tail, renderLiteral value = c :: tail ∧ c ≠ '\'' := by
  obtain ⟨c, tail, htext, hc, -⟩ := renderLiteral_head h
  refine ⟨c, tail, htext, ?_⟩
  rintro rfl
  exact absurd hc (by decide)

/-- **A text begins with the shape of its expression.** -/
theorem shape_canonical (h : Plain e) {rest : List Char} (hrest : Delimited rest) :
    shape (canonicalExpression e ++ rest) = shapeOf e := by
  cases e with
  | unary operator operand =>
    rw [canonicalExpression, cons_append, shape, List.head?_cons, if_pos rfl, tail_cons,
      append_assoc, cons_append, unaryText_operator]
    rfl
  | binary operator left right =>
    rw [canonicalExpression, cons_append, shape, List.head?_cons, if_pos rfl, tail_cons,
      append_assoc, cons_append, unaryText_canonical h.1]
    rfl
  | column name =>
    rw [canonicalExpression, shape_word (column_word h) ⟨'c', _, rfl, by decide⟩ hrest.stops,
      if_neg hrest.not_open]
    rfl
  | function name arguments star distinct =>
    obtain ⟨⟨hne, hname⟩, -⟩ := h
    rw [canonicalExpression, append_assoc, cons_append,
      shape_word (fun c hc => (lower_word hname c hc).1) (lower_head hne hname) (stops_open _),
      List.head?_cons, if_pos rfl]
    rfl
  | literal value =>
    by_cases hstring : ∃ s, value = .string s
    · obtain ⟨s, rfl⟩ := hstring
      rfl
    · have hnot : ∀ s, value ≠ .string s := fun s hs => hstring ⟨s, hs⟩
      rw [canonical_literal hnot, shape_word (renderLiteral_word hnot)
        (renderLiteral_head_quote hnot) hrest.stops, if_neg hrest.not_open, shapeOf_literal hnot]

theorem canonical_head (h : Plain e) :
    ∃ c rest, canonicalExpression e = c :: rest ∧ c ∉ ['*', '|', ',', ')'] := by
  have hne : ∀ c : Char, isStop c = false → c ∉ ['\'', '*', '|'] → c ∉ ['*', '|', ',', ')'] := by
    intro c hstop hmark hmem
    simp only [mem_cons, not_mem_nil, or_false] at hmem
    rcases hmem with rfl | rfl | rfl | rfl
    · exact hmark (by decide)
    · exact hmark (by decide)
    · exact absurd hstop (by decide)
    · exact absurd hstop (by decide)
  cases e with
  | unary operator operand => exact ⟨'(', _, rfl, by decide⟩
  | binary operator left right => exact ⟨'(', _, rfl, by decide⟩
  | column name => exact ⟨'c', _, rfl, by decide⟩
  | function name arguments star distinct =>
    obtain ⟨⟨hnil, hname⟩, -⟩ := h
    obtain ⟨c, tail, hlower, -⟩ := lower_head hnil hname
    obtain ⟨hstop, hmark⟩ := lower_word hname c (hlower ▸ mem_cons_self)
    exact ⟨c, _, by rw [canonicalExpression, hlower]; rfl, hne c hstop hmark⟩
  | literal value =>
    by_cases hstring : ∃ s, value = .string s
    · obtain ⟨s, rfl⟩ := hstring
      exact ⟨'\'', _, rfl, by decide⟩
    · have hnot : ∀ s, value ≠ .string s := fun s hs => hstring ⟨s, hs⟩
      obtain ⟨c, tail, htext, hc, -⟩ := renderLiteral_head hnot
      refine ⟨c, tail, by rw [canonical_literal hnot, htext], hne c ?_ ?_⟩
      · exact renderLiteral_word hnot c (htext ▸ mem_cons_self)
      · intro hmark
        simp only [mem_cons, not_mem_nil, or_false] at hmark
        rcases hmark with rfl | rfl | rfl <;> exact absurd hc (by decide)

/-- No text reads `distinct ` where an argument stands. -/
theorem canonical_ne_distinct {e : Expression} (h : Plain e) {rest more : List Char}
    (hrest : ∀ c tail, rest = c :: tail → c = ',' ∨ c = ')') :
    canonicalExpression e ++ rest ≠ "distinct ".toList ++ more := by
  intro heq
  have hdelimited : Delimited rest := fun c tail hcons => .inr (hrest c tail hcons)
  have hdistinct : ∀ c ∈ "distinct".toList, isStop c = false := word_of_all (by decide)
  have hword : ∀ word : List Char, (∀ c ∈ word, isStop c = false) → ∀ tail, Stops tail →
      word ++ tail = "distinct ".toList ++ more → word = "distinct".toList ∧ tail = ' ' :: more :=
    fun word hword tail htail heq =>
      split_word hword hdistinct htail (stops_blank more) heq
  have hblank : rest ≠ ' ' :: more := fun hcons => by
    rcases hrest _ _ hcons with h | h <;> exact absurd h (by decide)
  cases e with
  | unary operator operand => exact absurd (List.cons.inj heq).1 (by decide)
  | binary operator left right => exact absurd (List.cons.inj heq).1 (by decide)
  | column name => exact hblank (hword _ (column_word h) rest hdelimited.stops heq).2
  | function name arguments star distinct =>
    obtain ⟨⟨-, hname⟩, -⟩ := h
    rw [canonicalExpression, append_assoc, cons_append] at heq
    have hopen := (hword _ (fun c hc => (lower_word hname c hc).1) _ (stops_open _) heq).2
    exact absurd (List.cons.inj hopen).1 (by decide)
  | literal value =>
    by_cases hstring : ∃ s, value = .string s
    · obtain ⟨s, rfl⟩ := hstring
      exact absurd (List.cons.inj heq).1 (by decide)
    · have hnot : ∀ s, value ≠ .string s := fun s hs => hstring ⟨s, hs⟩
      rw [canonical_literal hnot] at heq
      exact hblank (hword _ (renderLiteral_word hnot) rest hdelimited.stops heq).2

/-! ## 5. Reading a text -/

variable {rest rest' : List Char}

theorem unary_operator_eq {operator operator' : UnaryOperator}
    (h : operator.text.toList ++ ' ' :: rest = operator'.text.toList ++ ' ' :: rest') :
    operator = operator' ∧ rest = rest' := by
  cases operator <;> cases operator' <;>
    first
      | exact ⟨rfl, (List.cons.inj (append_cancel_left h)).2⟩
      | (simp [UnaryOperator.text] at h)

theorem binary_operator_eq {operator operator' : BinaryOperator}
    (h : operator.text.toList ++ ' ' :: rest = operator'.text.toList ++ ' ' :: rest') :
    operator = operator' ∧ rest = rest' := by
  have hword : ∀ o : BinaryOperator, ' ' ∉ o.text.toList := by
    intro o
    cases o <;> decide
  obtain ⟨htext, hrest⟩ := split_unique (hword operator) (hword operator') h
  refine ⟨?_, hrest⟩
  cases operator <;> cases operator' <;> first | rfl | exact absurd htext (by decide)

theorem delimited_nil : Delimited [] := fun _ _ h => nomatch h

theorem delimited_blank (rest : List Char) : Delimited (' ' :: rest) := fun _ _ h =>
  .inl (List.cons.inj h).1.symm

theorem delimited_close (rest : List Char) : Delimited (')' :: rest) := fun _ _ h =>
  .inr (.inr (List.cons.inj h).1.symm)

theorem arguments_follow (arguments : List Expression) (rest : List Char) :
    ∀ c tail, canonicalArguments [','] arguments ++ ')' :: rest = c :: tail →
      c = ',' ∨ c = ')' := by
  intro c tail h
  cases arguments with
  | nil => exact .inr (List.cons.inj h).1.symm
  | cons argument arguments =>
    rw [canonicalArguments, append_assoc] at h
    exact .inl (List.cons.inj h).1.symm

theorem flags_eq {star star' distinct distinct' : Bool} {arguments arguments' : List Expression}
    (h : PlainAll arguments) (h' : PlainAll arguments') {rest rest' : List Char}
    (heq : (if distinct then "distinct ".toList else []) ++ ((if star then ['*'] else []) ++
        (canonicalArguments [] arguments ++ ')' :: rest)) =
      (if distinct' then "distinct ".toList else []) ++ ((if star' then ['*'] else []) ++
        (canonicalArguments [] arguments' ++ ')' :: rest'))) :
    star = star' ∧ distinct = distinct' ∧
      canonicalArguments [] arguments ++ ')' :: rest =
        canonicalArguments [] arguments' ++ ')' :: rest' := by
  have hhead : ∀ {as : List Expression} {r : List Char}, PlainAll as →
      ∃ c tail, canonicalArguments [] as ++ ')' :: r = c :: tail ∧ c ≠ '*' := by
    intro as r has
    cases as with
    | nil => exact ⟨')', r, rfl, by decide⟩
    | cons a as =>
      obtain ⟨c, tail, htext, hmark⟩ := canonical_head has.1
      refine ⟨c, tail ++ (canonicalArguments [','] as ++ ')' :: r), ?_, ?_⟩
      swap
      · rintro rfl
        exact hmark (by decide)
      rw [canonicalArguments, nil_append, append_assoc, htext, cons_append]
  have hdistinct : ∀ {as : List Expression} {r more : List Char} (b : Bool), PlainAll as →
      (if b then ['*'] else []) ++ (canonicalArguments [] as ++ ')' :: r) ≠
        "distinct ".toList ++ more := by
    intro as r more b has heq
    cases b with
    | true => exact absurd (List.cons.inj heq).1 (by decide)
    | false =>
      cases as with
      | nil => exact absurd (List.cons.inj heq).1 (by decide)
      | cons a as =>
        rw [if_neg (by decide), nil_append, canonicalArguments, nil_append,
          append_assoc] at heq
        exact canonical_ne_distinct has.1 (arguments_follow as r) heq
  have hstars : ∀ {r r' : List Char}, (if star then ['*'] else []) ++
        (canonicalArguments [] arguments ++ ')' :: r) =
      (if star' then ['*'] else []) ++ (canonicalArguments [] arguments' ++ ')' :: r') →
      star = star' ∧ canonicalArguments [] arguments ++ ')' :: r =
        canonicalArguments [] arguments' ++ ')' :: r' := by
    intro r r' heq
    obtain ⟨c, tail, hcons, hc⟩ := @hhead arguments r h
    obtain ⟨c', tail', hcons', hc'⟩ := @hhead arguments' r' h'
    cases star <;> cases star'
    · exact ⟨rfl, heq⟩
    · rw [if_neg (by decide), nil_append, hcons] at heq
      exact absurd (List.cons.inj heq).1 hc
    · rw [if_neg (by decide : ¬ (false = true)), nil_append, hcons'] at heq
      exact absurd (List.cons.inj heq).1.symm hc'
    · exact ⟨rfl, (List.cons.inj heq).2⟩
  cases distinct <;> cases distinct'
  · obtain ⟨hstar, hrest⟩ := hstars heq
    exact ⟨hstar, rfl, hrest⟩
  · exact absurd heq (hdistinct star h)
  · exact absurd heq.symm (hdistinct star' h')
  · obtain ⟨hstar, hrest⟩ := hstars (append_cancel_left heq)
    exact ⟨hstar, rfl, hrest⟩

/-! ## 6. Two texts -/

theorem unary_of_shape (h : shapeOf e = 0) :
    ∃ operator operand, e = .unary operator operand := by
  cases e with
  | unary operator operand => exact ⟨operator, operand, rfl⟩
  | literal value => cases value <;> exact absurd h (by simp [shapeOf])
  | binary _ _ _ | column _ | function _ _ _ _ => exact absurd h (by simp [shapeOf])

theorem binary_of_shape (h : shapeOf e = 1) :
    ∃ operator left right, e = .binary operator left right := by
  cases e with
  | binary operator left right => exact ⟨operator, left, right, rfl⟩
  | literal value => cases value <;> exact absurd h (by simp [shapeOf])
  | unary _ _ | column _ | function _ _ _ _ => exact absurd h (by simp [shapeOf])

theorem string_of_shape (h : shapeOf e = 2) :
    ∃ s, e = .literal (.string s) := by
  cases e with
  | literal value =>
    cases value with
    | string s => exact ⟨s, rfl⟩
    | _ => exact absurd h (by simp [shapeOf])
  | unary _ _ | binary _ _ _ | column _ | function _ _ _ _ => exact absurd h (by simp [shapeOf])

theorem function_of_shape (h : shapeOf e = 3) :
    ∃ name arguments star distinct, e = .function name arguments star distinct := by
  cases e with
  | function name arguments star distinct => exact ⟨name, arguments, star, distinct, rfl⟩
  | literal value => cases value <;> exact absurd h (by simp [shapeOf])
  | unary _ _ | binary _ _ _ | column _ => exact absurd h (by simp [shapeOf])

theorem word_of_shape (h : shapeOf e = 4) :
    (∃ name, e = .column name) ∨ ∃ value, e = .literal value ∧ ∀ s, value ≠ .string s := by
  cases e with
  | column name => exact .inl ⟨name, rfl⟩
  | literal value =>
    refine .inr ⟨value, rfl, ?_⟩
    rintro s rfl
    exact absurd h (by simp [shapeOf])
  | unary _ _ | binary _ _ _ | function _ _ _ _ => exact absurd h (by simp [shapeOf])

theorem column_ne_literal (h : ∀ s, value ≠ .string s) (name : String) :
    "col:".toList ++ name.toList ≠ renderLiteral value := by
  obtain ⟨c, rest, htext, hc, -⟩ := renderLiteral_head h
  intro heq
  rw [htext] at heq
  obtain rfl := (List.cons.inj heq).1
  exact absurd hc (by decide)

theorem alike_literal {value value' : LiteralValue} (h : ∀ s, value ≠ .string s)
    (h' : ∀ s, value' ≠ .string s) :
    Alike (.literal value) (.literal value') ↔ renderLiteral value = renderLiteral value' := by
  cases value <;> first | exact absurd rfl (h _) | skip
  all_goals cases value' <;> first | exact absurd rfl (h' _) | simp only [Alike]

theorem word_alike {e e' : Expression} (h : Plain e) (h' : Plain e') (hshape : shapeOf e = 4)
    (hshape' : shapeOf e' = 4) (hrest : Delimited rest) (hrest' : Delimited rest')
    (heq : canonicalExpression e ++ rest = canonicalExpression e' ++ rest') :
    Alike e e' ∧ rest = rest' := by
  have hword : ∀ {e : Expression}, Plain e → shapeOf e = 4 →
      ∀ c ∈ canonicalExpression e, isStop c = false := by
    intro e he hshape
    rcases word_of_shape hshape with ⟨name, rfl⟩ | ⟨value, rfl, hvalue⟩
    · exact column_word he
    · rw [canonical_literal hvalue]
      exact renderLiteral_word hvalue
  obtain ⟨htext, htail⟩ :=
    split_word (hword h hshape) (hword h' hshape') hrest.stops hrest'.stops heq
  refine ⟨?_, htail⟩
  rcases word_of_shape hshape with ⟨name, rfl⟩ | ⟨value, rfl, hvalue⟩ <;>
    rcases word_of_shape hshape' with ⟨name', rfl⟩ | ⟨value', rfl, hvalue'⟩
  · exact String.toList_inj.mp (append_cancel_left htext)
  · rw [canonical_literal hvalue'] at htext
    exact absurd htext (column_ne_literal hvalue' name)
  · rw [canonical_literal hvalue] at htext
    exact absurd htext.symm (column_ne_literal hvalue name')
  · rw [canonical_literal hvalue, canonical_literal hvalue'] at htext
    exact (alike_literal hvalue hvalue').mpr htext

theorem delimited_arguments (arguments : List Expression) (rest : List Char) :
    Delimited (canonicalArguments [','] arguments ++ ')' :: rest) := fun c tail h =>
  .inr (arguments_follow arguments rest c tail h)

theorem arguments_ne_close {comma : List Char} (hcomma : comma = [] ∨ comma = [','])
    {argument : Expression} (h : Plain argument) {more : List Expression} :
    canonicalArguments comma (argument :: more) ++ rest ≠ ')' :: rest' := by
  obtain ⟨c, tail, htext, hmark⟩ := canonical_head h
  rw [canonicalArguments, htext]
  intro heq
  rcases hcomma with rfl | rfl
  · obtain rfl := (List.cons.inj heq).1
    exact hmark (by decide)
  · exact absurd (List.cons.inj heq).1 (by decide)

mutual
/-- **One text, one structure**, whatever punctuation follows. -/
theorem alike_of_append : ∀ (e : Expression) {e' : Expression}, Plain e → Plain e' →
    ∀ {rest rest' : List Char}, Delimited rest → Delimited rest' →
      canonicalExpression e ++ rest = canonicalExpression e' ++ rest' → Alike e e' ∧ rest = rest'
  | .unary operator operand, e', h, h', rest, rest', hrest, hrest', heq => by
    have hshape := (shape_canonical h' hrest').symm.trans
      ((congrArg shape heq.symm).trans (shape_canonical h hrest))
    obtain ⟨operator', operand', rfl⟩ := unary_of_shape hshape
    simp only [canonicalExpression, cons_append, append_assoc, nil_append] at heq
    obtain ⟨rfl, htext⟩ := unary_operator_eq (List.cons.inj heq).2
    have hoperand' : Plain operand' := h'
    obtain ⟨halike, hclose⟩ :=
      alike_of_append operand h hoperand' (delimited_close _) (delimited_close _) htext
    exact ⟨⟨rfl, halike⟩, (List.cons.inj hclose).2⟩
  | .binary operator left right, e', h, h', rest, rest', hrest, hrest', heq => by
    have hshape := (shape_canonical h' hrest').symm.trans
      ((congrArg shape heq.symm).trans (shape_canonical h hrest))
    obtain ⟨operator', left', right', rfl⟩ := binary_of_shape hshape
    simp only [canonicalExpression, cons_append, append_assoc, nil_append] at heq
    obtain ⟨hleft, htext⟩ := alike_of_append left h.1 h'.1 (delimited_blank _) (delimited_blank _)
      (List.cons.inj heq).2
    obtain ⟨rfl, hoperand⟩ := binary_operator_eq (List.cons.inj htext).2
    obtain ⟨hright, hclose⟩ :=
      alike_of_append right h.2 h'.2 (delimited_close _) (delimited_close _) hoperand
    exact ⟨⟨rfl, hleft, hright⟩, (List.cons.inj hclose).2⟩
  | .column name, e', h, h', rest, rest', hrest, hrest', heq => by
    have hshape := (shape_canonical h' hrest').symm.trans
      ((congrArg shape heq.symm).trans (shape_canonical h hrest))
    exact word_alike h h' rfl hshape hrest hrest' heq
  | .literal value, e', h, h', rest, rest', hrest, hrest', heq => by
    have hshape := (shape_canonical h' hrest').symm.trans
      ((congrArg shape heq.symm).trans (shape_canonical h hrest))
    by_cases hstring : ∃ s, value = .string s
    · obtain ⟨s, rfl⟩ := hstring
      obtain ⟨s', rfl⟩ := string_of_shape hshape
      simp only [canonicalExpression, cons_append, append_assoc, nil_append] at heq
      obtain ⟨htext, htail⟩ := split_unique h h' (List.cons.inj heq).2
      exact ⟨String.toList_inj.mp htext, htail⟩
    · have hnot : ∀ s, value ≠ .string s := fun s hs => hstring ⟨s, hs⟩
      rw [shapeOf_literal hnot] at hshape
      exact word_alike h h' (shapeOf_literal hnot) hshape hrest hrest' heq
  | .function name arguments star distinct, e', h, h', rest, rest', hrest, hrest', heq => by
    have hshape := (shape_canonical h' hrest').symm.trans
      ((congrArg shape heq.symm).trans (shape_canonical h hrest))
    obtain ⟨name', arguments', star', distinct', rfl⟩ := function_of_shape hshape
    simp only [canonicalExpression, cons_append, append_assoc, nil_append] at heq
    obtain ⟨⟨-, hname⟩, hargs⟩ := h
    obtain ⟨⟨-, hname'⟩, hargs'⟩ := h'
    obtain ⟨hlower, htext⟩ := split_word (fun c hc => (lower_word hname c hc).1)
      (fun c hc => (lower_word hname' c hc).1) (stops_open _) (stops_open _) heq
    obtain ⟨hstar, hdistinct, htext⟩ := flags_eq hargs hargs' (List.cons.inj htext).2
    obtain ⟨hall, htail⟩ := allAlike_of_append arguments hargs hargs' (.inl rfl) htext
    exact ⟨⟨hlower, hstar, hdistinct, hall⟩, htail⟩

/-- The arguments of a call, up to the parenthesis that closes it. -/
theorem allAlike_of_append : ∀ (arguments : List Expression) {arguments' : List Expression},
    PlainAll arguments → PlainAll arguments' → ∀ {comma : List Char}, comma = [] ∨ comma = [','] →
      ∀ {rest rest' : List Char}, canonicalArguments comma arguments ++ ')' :: rest =
        canonicalArguments comma arguments' ++ ')' :: rest' →
      AllAlike arguments arguments' ∧ rest = rest'
  | [], arguments', _, h', comma, hcomma, rest, rest', heq => by
    cases arguments' with
    | nil => exact ⟨trivial, (List.cons.inj heq).2⟩
    | cons argument' more' => exact absurd heq.symm (arguments_ne_close hcomma h'.1)
  | argument :: more, arguments', h, h', comma, hcomma, rest, rest', heq => by
    cases arguments' with
    | nil => exact absurd heq (arguments_ne_close hcomma h.1)
    | cons argument' more' =>
      simp only [canonicalArguments, append_assoc] at heq
      obtain ⟨halike, htext⟩ := alike_of_append argument h.1 h'.1
        (delimited_arguments more rest) (delimited_arguments more' rest')
        (append_cancel_left heq)
      obtain ⟨hall, htail⟩ := allAlike_of_append more h.2 h'.2 (.inr rfl) htext
      exact ⟨⟨halike, hall⟩, htail⟩
end

/-- **Plain expressions with one text have one structure.** -/
theorem canonicalExpression_alike {e e' : Expression} (h : Plain e) (h' : Plain e')
    (heq : canonicalExpression e = canonicalExpression e') : Alike e e' :=
  (alike_of_append e h h' delimited_nil delimited_nil (congrArg (· ++ []) heq)).1

end MldpDriver.Query.Evaluator

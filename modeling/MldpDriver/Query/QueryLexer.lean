/-
# The lexer of queries

The rules of the lexer, of which the longest match counts: blanks, operators, durations, numbers,
words and quoted strings; a backslash in a string takes the next character with it, and neither it
nor the string reaches over the end of a line.  Any other character is an error and ends the text.
There are no comments.

A text is a list of characters, one for each byte; the offset of a token is its place in the text.
Lines and columns, which only the messages of errors use, are left out.
-/
import Mathlib.Data.List.Basic

namespace MldpDriver.Query.Lexer

open List Option

/-! ## 1. Tokens -/

/-- `TokenType`; a keyword with its word. -/
inductive TokenType
  | neq
  | lte
  | gte
  | eq
  | lt
  | gt
  | star
  | slash
  | comma
  | semicolon
  | dot
  | lparen
  | rparen
  | plus
  | minus
  | duration
  | number
  | keyword (word : String)
  | identifier
  | string
  deriving DecidableEq

structure Token where
  type : TokenType
  lexeme : List Char
  offset : Nat

/-- `kKeywords`. -/
def keywords : List String :=
  ["SELECT", "FROM", "WHERE", "IS", "AND", "OR", "NOT", "NULL", "IN", "LIKE", "BETWEEN", "LIMIT",
    "PAGE", "TOKEN", "SHOW", "TABLES", "FUNCTIONS", "OPERATORS", "DESCRIBE", "EXPLAIN", "AS",
    "INNER", "LEFT", "OUTER", "JOIN", "ON", "NOW", "PREFIX", "CONTAINS", "ORDER", "DISTINCT",
    "GROUP", "HAVING", "BY", "ASC", "DESC", "OVER", "PARTITION", "WINDOW", "ROWS", "RANGE",
    "UNBOUNDED", "PRECEDING", "FOLLOWING", "CURRENT", "ROW", "UNION", "ALL", "TRUE", "FALSE",
    "TIMESTAMP_NS", "DURATION_NS"]

/-- The type of a word. -/
def wordType (word : List Char) : TokenType :=
  let upper := String.ofList (word.map Char.toUpper)
  if keywords.contains upper then .keyword upper else .identifier

/-! ## 2. The rules -/

def isBlank (c : Char) : Bool := c == ' ' || c == '\t' || c == '\r' || c == '\n'

def isDigit (c : Char) : Bool := c.isDigit

def isWordStart (c : Char) : Bool := c.isAlpha || c == '_'

def isWordPart (c : Char) : Bool := isWordStart c || isDigit c

def isUnit (c : Char) : Bool := "sSmMhHdD".toList.contains c

/-- The operators of one character. -/
def operatorType : Char → Option TokenType
  | '=' => some .eq
  | '<' => some .lt
  | '>' => some .gt
  | '*' => some .star
  | '/' => some .slash
  | ',' => some .comma
  | ';' => some .semicolon
  | '.' => some .dot
  | '(' => some .lparen
  | ')' => some .rparen
  | '+' => some .plus
  | '-' => some .minus
  | _ => none

/-- The operators that end with `=`. -/
def comparisonType : Char → Option TokenType
  | '!' => some .neq
  | '<' => some .lte
  | '>' => some .gte
  | _ => none

/-- The rest of a string after its opening quote: what is before the closing quote, and after it. -/
def quotedText (quote : Char) : List Char → Option (List Char × List Char)
  | [] => none
  | '\\' :: [] => none
  | '\\' :: c :: text =>
    if c = '\n' then none
    else (quotedText quote text).map fun r => ('\\' :: c :: r.1, r.2)
  | c :: text =>
    if c = quote then some ([], text)
    else if c = '\n' then none
    else (quotedText quote text).map fun r => (c :: r.1, r.2)

/-- `unescapeQuoted`: what is between the quotes; the wildcards keep their backslash. -/
def unescapeQuoted : List Char → List Char
  | [] => []
  | '\\' :: c :: text =>
    if c == '%' || c == '*' || c == '_' || c == '\\' then '\\' :: c :: unescapeQuoted text
    else c :: unescapeQuoted text
  | c :: text => c :: unescapeQuoted text

/-- A match of a rule: its text, the token if it makes one, and the text after it. -/
structure LexMatch where
  text : List Char
  token : Option (TokenType × List Char)
  rest : List Char

/-- The longest match at a character, if there is one. -/
def lexMatch (c : Char) (text : List Char) : Option LexMatch :=
  if isBlank c then
    some ⟨c :: text.takeWhile isBlank, none, text.dropWhile isBlank⟩
  else if isDigit c then
    let digits := c :: text.takeWhile isDigit
    match text.dropWhile isDigit with
    | [] => some ⟨digits, some (.number, digits), []⟩
    | u :: rest =>
      if isUnit u then some ⟨digits ++ [u], some (.duration, digits ++ [u]), rest⟩
      else some ⟨digits, some (.number, digits), u :: rest⟩
  else if isWordStart c then
    let word := c :: text.takeWhile isWordPart
    some ⟨word, some (wordType word, word), text.dropWhile isWordPart⟩
  else if c = '\'' ∨ c = '"' then
    (quotedText c text).map fun r =>
      ⟨c :: (r.1 ++ [c]), some (.string, unescapeQuoted r.1), r.2⟩
  else if text.head? = some '=' ∧ (comparisonType c).isSome then
    (comparisonType c).map fun type => ⟨[c, '='], some (type, [c, '=']), text.tail⟩
  else (operatorType c).map fun type => ⟨[c], some (type, [c]), text⟩

/-- The tokens from an offset on, and where the lexer fails if it does. -/
def lexFrom : Nat → Nat → List Char → List Token × Option Nat
  | 0, _, _ => ([], none)
  | _ + 1, _, [] => ([], none)
  | fuel + 1, offset, c :: text =>
    match lexMatch c text with
    | none => ([], some offset)
    | some m =>
      let r := lexFrom fuel (offset + m.text.length) m.rest
      (m.token.toList.map (fun t => ⟨t.1, t.2, offset⟩) ++ r.1, r.2)

/-- `tokenize`; every match takes a character. -/
def tokenize (text : List Char) : List Token × Option Nat := lexFrom (text.length + 1) 0 text

/-! ## 3. What a match takes -/

section Match

variable {c : Char} {text : List Char} {m : LexMatch}

theorem quotedText_eq {quote : Char} {body rest : List Char}
    (h : quotedText quote text = some (body, rest)) : text = body ++ quote :: rest := by
  fun_induction quotedText quote text generalizing body rest with
  | case1 => cases h
  | case2 => cases h
  | case3 => cases h
  | case4 c text hc ih =>
    simp only [map_eq_some_iff, Prod.mk.injEq] at h
    obtain ⟨⟨inner, after⟩, hinner, rfl, rfl⟩ := h
    rw [ih hinner]
    rfl
  | case5 text => simp_all
  | case6 => cases h
  | case7 c text hend hescape hquote hline ih =>
    simp only [map_eq_some_iff, Prod.mk.injEq] at h
    obtain ⟨⟨inner, after⟩, hinner, rfl, rfl⟩ := h
    rw [ih hinner]
    rfl

theorem lexMatch_eq (h : lexMatch c text = some m) :
    c :: text = m.text ++ m.rest ∧ m.text ≠ [] := by
  rw [lexMatch] at h
  split at h
  · obtain rfl := some.inj h
    exact ⟨congrArg (c :: ·) (takeWhile_append_dropWhile).symm, cons_ne_nil _ _⟩
  · split at h
    · have hdigits : text = text.takeWhile isDigit ++ text.dropWhile isDigit :=
        (takeWhile_append_dropWhile).symm
      cases hrest : text.dropWhile isDigit with
      | nil =>
        rw [hrest] at h hdigits
        obtain rfl := some.inj h
        exact ⟨congrArg (c :: ·) hdigits, cons_ne_nil _ _⟩
      | cons u rest =>
        rw [hrest] at h hdigits
        simp only at h
        split at h
        · obtain rfl := some.inj h
          refine ⟨?_, cons_ne_nil _ _⟩
          rw [append_assoc]
          exact congrArg (c :: ·) hdigits
        · obtain rfl := some.inj h
          exact ⟨congrArg (c :: ·) hdigits, cons_ne_nil _ _⟩
    · split at h
      · obtain rfl := some.inj h
        exact ⟨congrArg (c :: ·) (takeWhile_append_dropWhile).symm, cons_ne_nil _ _⟩
      · split at h
        · simp only [map_eq_some_iff] at h
          obtain ⟨⟨body, rest⟩, hbody, rfl⟩ := h
          refine ⟨?_, cons_ne_nil _ _⟩
          rw [quotedText_eq hbody]
          simp
        · split at h
          · rename_i hequals
            simp only [map_eq_some_iff] at h
            obtain ⟨type, -, rfl⟩ := h
            exact ⟨congrArg (c :: ·) (List.cons_head?_tail hequals.1).symm, cons_ne_nil _ _⟩
          · simp only [map_eq_some_iff] at h
            obtain ⟨type, -, rfl⟩ := h
            exact ⟨rfl, cons_ne_nil _ _⟩

end Match

end MldpDriver.Query.Lexer

/-
# Where the REPL ends a statement

The REPL collects lines in a buffer until it finds a `;`.  It does not use the lexer for that: it
looks for the first `;` outside of quotes and parentheses with a scanner of its own, which knows
quotes and backslashes, and counts parentheses.

A line that ends with `\G` ends the statement by itself, without a scan.  Of the other lines some
are commands of the REPL, and which ones depends on the buffer: with nothing buffered every line
that begins with a dot is one, with a statement begun such a line is SQL unless it is a command
that the REPL knows, and that one is refused.  The lines that are SQL are ORDINARY.

What the REPL runs for a statement, and what its commands do, is left out; `sent` are the statements
it runs.
-/
import MldpDriver.Query.QueryLexer
import Mathlib.Data.List.TakeWhile

namespace MldpDriver.Query.Repl

open Lexer List

/-! ## 1. The scanner -/

structure ScanState where
  quote : Option Char := none
  escaped : Bool := false
  parentheses : Nat := 0

/-- One character; none if it ends the statement. -/
def scanChar (s : ScanState) (c : Char) : Option ScanState :=
  match s.quote with
  | some quote =>
    if s.escaped then some { s with escaped := false }
    else if c = '\\' then some { s with escaped := true }
    else if c = quote then some { s with quote := none }
    else some s
  | none =>
    if c = '\'' ∨ c = '"' then some { s with quote := some c }
    else if c = '(' then some { s with parentheses := s.parentheses + 1 }
    else if c = ')' ∧ s.parentheses ≠ 0 then some { s with parentheses := s.parentheses - 1 }
    else if c = ';' ∧ s.parentheses = 0 then none
    else some s

def scanFrom (s : ScanState) (index : Nat) : List Char → Option Nat
  | [] => none
  | c :: text =>
    match scanChar s c with
    | none => some index
    | some s => scanFrom s (index + 1) text

/-- `statementTerminator`. -/
def statementTerminator (line : List Char) : Option Nat := scanFrom {} 0 line

/-! ## 2. The lines -/

/-- `trim`. -/
def trim (text : List Char) : List Char :=
  ((text.dropWhile isBlank).reverse.dropWhile isBlank).reverse

def isReplCommand (command : List Char) : Bool :=
  [".help", ".clear", ".format", ".pager", ".history", "history", "\\x", "\\expanded", ".table-fit",
      ".color", ".quit", ".exit"].any (fun word => word.toList == command) ||
    [".help ", ".help\t", ".format ", ".format\t", ".pager ", ".pager\t", "\\expanded ",
      ".table-fit ", ".color "].any fun word => word.toList.isPrefixOf command

/-- What the REPL takes for a command when nothing is buffered; all that begins with a dot. -/
def isCommand (command : List Char) : Bool :=
  command.head? == some '.' || command == "history".toList || command == "\\x".toList ||
    command == "\\expanded".toList || "\\expanded ".toList.isPrefixOf command

/-- The text before the first `\G` of a line. -/
def beforeMarker : List Char → Option (List Char × List Char)
  | [] => none
  | c :: text =>
    if "\\G".toList.isPrefixOf (c :: text) then some ([], text.drop 1)
    else (beforeMarker text).map fun r => (c :: r.1, r.2)

structure ReplState where
  buffer : List Char := []
  sent : List (List Char) := []

/-- The buffer and a line. -/
def ReplState.pending (s : ReplState) (line : List Char) : List Char :=
  if s.buffer.isEmpty then line else s.buffer ++ '\n' :: line

/-- A statement is complete; an empty one is an error. -/
def ReplState.send (s : ReplState) (buffer : List Char) : ReplState :=
  let sql := trim buffer
  if sql.isEmpty then { s with buffer := [] } else { buffer := [], sent := s.sent ++ [sql] }

/-- The line without its `\G` marker, if it ends with one. -/
def expandedLine (line : List Char) : Option (List Char) :=
  match beforeMarker line with
  | some (before, after) =>
    if (trim after).isEmpty then
      let line := trim (before ++ after)
      some (if line.getLast? = some ';' then line.dropLast else line)
    else none
  | none => none

/-- Where a line ends the statement, as a place in the buffer with the line. -/
def ReplState.terminator (s : ReplState) (line : List Char) : Option Nat :=
  match statementTerminator (s.pending line) with
  | some index => if (s.pending line).length - line.length ≤ index then some index else none
  | none => none

/-- `runRepl`: the next line. -/
def ReplState.feed (s : ReplState) (line : List Char) : ReplState :=
  let command := trim line
  if command = ".clear".toList then { s with buffer := [] }
  else if !s.buffer.isEmpty && isReplCommand command then s
  else if s.buffer.isEmpty && isCommand command then s
  else
    match expandedLine line with
    | some line => s.send (s.pending line)
    | none =>
      match s.terminator line with
      | some index =>
        -- more than blanks after the end is an error
        if (trim ((s.pending line).drop (index + 1))).isEmpty then
          s.send ((s.pending line).take index)
        else { s with buffer := [] }
      | none => { s with buffer := s.pending line }

/-- A line that is SQL where it comes: no command at this buffer, and without a `\G` marker. -/
def ReplState.ordinary (s : ReplState) (line : List Char) : Bool :=
  !isReplCommand (trim line) && !(s.buffer.isEmpty && isCommand (trim line)) &&
    (expandedLine line).isNone

/-- Every line is SQL where it comes. -/
def ReplState.Ordinary (s : ReplState) : List (List Char) → Prop
  | [] => True
  | line :: lines => s.ordinary line = true ∧ (s.feed line).Ordinary lines

/-! ## 3. Semicolons and parentheses of the lexer

The reference is the list of tokens.  A `;` in a string is part of a string token, and the lexer
has no comments; parentheses are counted, and a closing one too many is passed over, as in the
scanner. -/

/-- The open parentheses after a token. -/
def nestingAfter (n : Nat) : Option TokenType → Nat
  | some .lparen => n + 1
  | some .rparen => n - 1
  | _ => n

/-- The first `;` that is a token outside of parentheses, `n` of which are open. -/
def firstSemicolon (n : Nat) : List Token → Option Nat
  | [] => none
  | t :: tokens =>
    if t.type = .semicolon ∧ n = 0 then some t.offset
    else firstSemicolon (nestingAfter n (some t.type)) tokens

/-- The parentheses that tokens leave open. -/
def nesting (n : Nat) (tokens : List Token) : Nat :=
  tokens.foldl (fun n t => nestingAfter n (some t.type)) n

/-- All parentheses are closed and every `;` is inside. -/
structure Enclosed (tokens : List Token) : Prop where
  inside : firstSemicolon 0 tokens = none
  closed : nesting 0 tokens = 0

/-- Lines as one text. -/
def joinLines : List (List Char) → List Char
  | [] => []
  | [line] => line
  | line :: lines => line ++ '\n' :: joinLines lines

/-! ## 4. The scanner over a match -/

section Scan

variable {n index k : Nat} {text : List Char}

/-- The scanner outside of quotes. -/
abbrev outside (n : Nat) : ScanState := { parentheses := n }

/-- The scanner inside quotes. -/
abbrev inside (quote : Char) (n : Nat) : ScanState := { quote := some quote, parentheses := n }

/-- Characters that mean nothing to the scanner. -/
def plainChar (c : Char) : Bool :=
  !(c == '\'' || c == '"' || c == '(' || c == ')' || c == ';')

theorem scanChar_plain {c : Char} (h : plainChar c = true) :
    scanChar (outside n) c = some (outside n) := by
  simp only [plainChar, Bool.not_eq_true', Bool.or_eq_false_iff, beq_eq_false_iff_ne] at h
  obtain ⟨⟨⟨⟨hsingle, hdouble⟩, hopen⟩, hclose⟩, hsemi⟩ := h
  simp [scanChar, hsingle, hdouble, hopen, hclose, hsemi]

theorem scanFrom_plain {run : List Char} (h : ∀ c ∈ run, plainChar c = true) (rest : List Char) :
    scanFrom (outside n) index (run ++ rest) =
      scanFrom (outside n) (index + run.length) rest := by
  induction run generalizing index with
  | nil => rfl
  | cons c run ih =>
    rw [cons_append, scanFrom, scanChar_plain (h c mem_cons_self)]
    simp only [length_cons]
    rw [ih fun c hc => h c (mem_cons_of_mem _ hc)]
    congr 1
    omega

theorem scanFrom_quoted {quote : Char} (hquote : quote ≠ '\\') {body after : List Char}
    (h : quotedText quote text = some (body, after)) (rest : List Char) :
    scanFrom (inside quote n) index (body ++ quote :: rest) =
      scanFrom (outside n) (index + body.length + 1) rest := by
  fun_induction quotedText quote text generalizing body after index with
  | case1 => cases h
  | case2 => cases h
  | case3 => cases h
  | case4 c text hc ih =>
    simp only [Option.map_eq_some_iff, Prod.mk.injEq] at h
    obtain ⟨⟨inner, after⟩, hinner, rfl, rfl⟩ := h
    simp only [cons_append, scanFrom, scanChar, Bool.false_eq_true, if_false, if_true]
    rw [ih hinner]
    simp only [length_cons]
    congr 1
    omega
  | case5 text =>
    obtain ⟨rfl, rfl⟩ := Prod.mk.inj (Option.some.inj h)
    simp [scanFrom, scanChar, hquote]
  | case6 => cases h
  | case7 c text hend hescape hne hline ih =>
    simp only [Option.map_eq_some_iff, Prod.mk.injEq] at h
    obtain ⟨⟨inner, after⟩, hinner, rfl, rfl⟩ := h
    have hslash : c ≠ '\\' := by
      rintro rfl
      cases text with
      | nil => exact hend rfl rfl
      | cons d text => exact hescape d text rfl rfl
    simp only [cons_append, scanFrom, scanChar, Bool.false_eq_true, if_false, hslash, hne]
    rw [ih hinner]
    simp only [length_cons]
    congr 1
    omega

theorem plain_of_blank {c : Char} (h : isBlank c = true) : plainChar c = true := by
  simp only [isBlank, Bool.or_eq_true, beq_iff_eq] at h
  rcases h with ((rfl | rfl) | rfl) | rfl <;> rfl

theorem plain_of_class {p : Char → Bool} (hp : ['\'', '"', '(', ')', ';'].any p = false)
    {c : Char} (h : p c = true) : plainChar c = true := by
  have hne : ∀ d ∈ ['\'', '"', '(', ')', ';'], c ≠ d := by
    rintro d hd rfl
    exact any_eq_false.mp hp c hd h
  simp only [mem_cons, not_mem_nil, or_false, forall_eq_or_imp, forall_eq] at hne
  simp [plainChar, hne]

theorem plain_of_digit {c : Char} (h : isDigit c = true) : plainChar c = true :=
  plain_of_class (by decide) h

theorem plain_of_word {c : Char} (h : isWordPart c = true) : plainChar c = true :=
  plain_of_class (by decide) h

theorem plain_of_unit {c : Char} (h : isUnit c = true) : plainChar c = true :=
  plain_of_class (by decide) h

theorem wordType_ne (word : List Char) (n : Nat) :
    wordType word ≠ .semicolon ∧ nestingAfter n (some (wordType word)) = n := by
  rw [wordType]
  split <;> exact ⟨TokenType.noConfusion, rfl⟩

theorem comparisonType_plain {c : Char} {type : TokenType} (h : comparisonType c = some type) :
    plainChar c = true ∧ type ≠ .semicolon ∧ nestingAfter n (some type) = n := by
  unfold comparisonType at h
  split at h <;> cases h <;> exact ⟨rfl, TokenType.noConfusion, rfl⟩

theorem operatorType_cases {c : Char} {type : TokenType} (h : operatorType c = some type) :
    (plainChar c = true ∧ type ≠ .semicolon ∧ nestingAfter n (some type) = n) ∨
      (c = '(' ∧ type = .lparen) ∨ (c = ')' ∧ type = .rparen) ∨ (c = ';' ∧ type = .semicolon) := by
  unfold operatorType at h
  split at h
  case h_7 => exact .inr (.inr (.inr ⟨rfl, (Option.some.inj h).symm⟩))
  case h_9 => exact .inr (.inl ⟨rfl, (Option.some.inj h).symm⟩)
  case h_10 => exact .inr (.inr (.inl ⟨rfl, (Option.some.inj h).symm⟩))
  all_goals cases h <;> exact .inl ⟨rfl, TokenType.noConfusion, rfl⟩

theorem scan_match_plain {m : LexMatch} (hplain : ∀ c ∈ m.text, plainChar c = true)
    (htype : ∀ t, m.token = some t → t.1 ≠ .semicolon ∧ nestingAfter n (some t.1) = n)
    (rest : List Char) :
    scanFrom (outside n) index (m.text ++ rest) =
      if (m.token.map Prod.fst) = some .semicolon ∧ n = 0 then some index
      else
        scanFrom (outside (nestingAfter n (m.token.map Prod.fst))) (index + m.text.length) rest := by
  rw [scanFrom_plain hplain]
  cases htoken : m.token with
  | none => simp [nestingAfter]
  | some t =>
    obtain ⟨hsemi, hnest⟩ := htype t htoken
    simp [hsemi, hnest]

/-- **A match of the lexer moves the scanner over its text**, or ends the statement at its `;`. -/
theorem scan_match {c : Char} {m : LexMatch} (h : lexMatch c text = some m) (rest : List Char) :
    scanFrom (outside n) index (m.text ++ rest) =
      if (m.token.map Prod.fst) = some .semicolon ∧ n = 0 then some index
      else
        scanFrom (outside (nestingAfter n (m.token.map Prod.fst))) (index + m.text.length) rest := by
  rw [lexMatch] at h
  split at h
  · rename_i hblank
    obtain rfl := Option.some.inj h
    refine scan_match_plain (fun d hd => ?_) (fun t ht => by cases ht) rest
    rcases mem_cons.mp hd with rfl | hd
    · exact plain_of_blank hblank
    · exact plain_of_blank (mem_takeWhile_imp hd)
  · split at h
    · rename_i hdigit
      have hdigits : ∀ d ∈ c :: text.takeWhile isDigit, plainChar d = true := by
        intro d hd
        rcases mem_cons.mp hd with rfl | hd
        · exact plain_of_digit hdigit
        · exact plain_of_digit (mem_takeWhile_imp hd)
      have hnumber : ∀ t, some (TokenType.number, c :: text.takeWhile isDigit) = some t →
          t.1 ≠ .semicolon ∧ nestingAfter n (some t.1) = n := by
        intro t ht
        obtain rfl := Option.some.inj ht
        exact ⟨TokenType.noConfusion, rfl⟩
      cases hrest : text.dropWhile isDigit with
      | nil =>
        rw [hrest] at h
        obtain rfl := Option.some.inj h
        exact scan_match_plain hdigits hnumber rest
      | cons u after =>
        rw [hrest] at h
        simp only at h
        split at h
        · rename_i hunit
          obtain rfl := Option.some.inj h
          refine scan_match_plain (fun d hd => ?_) (fun t ht => ?_) rest
          · rcases mem_append.mp hd with hd | hd
            · exact hdigits d hd
            · exact mem_singleton.mp hd ▸ plain_of_unit hunit
          · obtain rfl := Option.some.inj ht
            exact ⟨TokenType.noConfusion, rfl⟩
        · obtain rfl := Option.some.inj h
          exact scan_match_plain hdigits hnumber rest
    · split at h
      · rename_i hword
        obtain rfl := Option.some.inj h
        refine scan_match_plain (fun d hd => ?_) (fun t ht => ?_) rest
        · rcases mem_cons.mp hd with rfl | hd
          · exact plain_of_word (by rw [isWordPart, hword]; rfl)
          · exact plain_of_word (mem_takeWhile_imp hd)
        · obtain rfl := Option.some.inj ht
          exact wordType_ne _ n
      · split at h
        · rename_i hquote
          simp only [Option.map_eq_some_iff] at h
          obtain ⟨⟨body, after⟩, hbody, rfl⟩ := h
          have hslash : c ≠ '\\' := by
            rcases hquote with rfl | rfl <;> decide
          have hopen : scanChar (outside n) c = some (inside c n) := by
            rw [scanChar]
            simp [hquote]
          rw [cons_append, scanFrom, hopen]
          simp only [append_assoc, singleton_append, Option.map_some]
          rw [scanFrom_quoted hslash hbody]
          simp only [nestingAfter, length_cons, length_append, length_nil]
          rw [if_neg (by simp)]
          congr 1
          omega
        · split at h
          · simp only [Option.map_eq_some_iff] at h
            obtain ⟨type, htype, rfl⟩ := h
            obtain ⟨hplain, hne, hnest⟩ := comparisonType_plain htype
            refine scan_match_plain (fun d hd => ?_) (fun t ht => ?_) rest
            · rcases mem_cons.mp hd with rfl | hd
              · exact hplain
              · exact mem_singleton.mp hd ▸ rfl
            · obtain rfl := Option.some.inj ht
              exact ⟨hne, hnest⟩
          · simp only [Option.map_eq_some_iff] at h
            obtain ⟨type, htype, rfl⟩ := h
            rcases operatorType_cases htype with ⟨hplain, hne, hnest⟩ | ⟨rfl, rfl⟩ | ⟨rfl, rfl⟩ |
              ⟨rfl, rfl⟩
            · refine scan_match_plain (fun d hd => ?_) (fun t ht => ?_) rest
              · exact mem_singleton.mp hd ▸ hplain
              · obtain rfl := Option.some.inj ht
                exact ⟨hne, hnest⟩
            · rfl
            · cases n <;> rfl
            · cases n <;> rfl

/-- What the scanner finds is a `;` of the text. -/
theorem scanFrom_getElem {s : ScanState} (h : scanFrom s index text = some k) :
    index ≤ k ∧ text[k - index]? = some ';' := by
  induction text generalizing s index with
  | nil => cases h
  | cons c text ih =>
    rw [scanFrom] at h
    cases hscan : scanChar s c with
    | none =>
      rw [hscan] at h
      obtain rfl := Option.some.inj h
      have hsemi : c = ';' := by
        by_contra hne
        have hsome : scanChar s c ≠ none := by
          simp only [scanChar, hne, false_and, if_false]
          cases s.quote <;> simp only <;> split_ifs <;> exact Option.some_ne_none _
        exact hsome hscan
      refine ⟨Nat.le_refl _, ?_⟩
      rw [Nat.sub_self, hsemi]
      rfl
    | some s' =>
      rw [hscan] at h
      obtain ⟨hle, hget⟩ := ih h
      refine ⟨Nat.le_of_succ_le hle, ?_⟩
      rw [show k - index = (k - (index + 1)) + 1 by omega]
      exact hget

/-- The lexer does not fail at a `;`. -/
theorem lexMatch_semicolon (text : List Char) : lexMatch ';' text ≠ none := by
  have hblank : isBlank ';' = false := rfl
  have hdigit : isDigit ';' = false := rfl
  have hword : isWordStart ';' = false := rfl
  simp [lexMatch, hblank, hdigit, hword, comparisonType, operatorType]

theorem firstSemicolon_match (token : Option (TokenType × List Char)) (tokens : List Token) :
    firstSemicolon n (token.toList.map (fun t => ⟨t.1, t.2, index⟩) ++ tokens) =
      if (token.map Prod.fst) = some .semicolon ∧ n = 0 then some index
      else firstSemicolon (nestingAfter n (token.map Prod.fst)) tokens := by
  cases token with
  | none => rfl
  | some t => simp [firstSemicolon]

theorem nesting_match (token : Option (TokenType × List Char)) (tokens : List Token) :
    nesting n (token.toList.map (fun t => ⟨t.1, t.2, index⟩) ++ tokens) =
      nesting (nestingAfter n (token.map Prod.fst)) tokens := by
  cases token <;> rfl

/-- **The scanner and the lexer see the same end**, and without an end the scanner is outside of
quotes where the lexer is done. -/
theorem scan_lexFrom {fuel : Nat} (hfuel : text.length < fuel) :
    (∀ k, firstSemicolon n (lexFrom fuel index text).1 = some k →
      scanFrom (outside n) index text = some k) ∧
    (firstSemicolon n (lexFrom fuel index text).1 = none →
      (∀ k, scanFrom (outside n) index text = some k →
        ∃ e, (lexFrom fuel index text).2 = some e ∧ e < k) ∧
      ((lexFrom fuel index text).2 = none → ∀ rest,
        scanFrom (outside n) index (text ++ rest) =
          scanFrom (outside (nesting n (lexFrom fuel index text).1)) (index + text.length)
            rest)) := by
  induction fuel generalizing n index text with
  | zero => omega
  | succ fuel ih =>
    cases text with
    | nil =>
      refine ⟨fun k hk => ?_, fun _ => ⟨fun k hk => ?_, fun _ rest => rfl⟩⟩
      · cases hk
      · cases hk
    | cons c text =>
      rw [lexFrom]
      cases hmatch : lexMatch c text with
      | none =>
        refine ⟨fun k hk => ?_, fun _ => ⟨fun k hk => ⟨index, rfl, ?_⟩, fun herr => ?_⟩⟩
        · cases hk
        · obtain ⟨hle, hget⟩ := scanFrom_getElem hk
          refine Nat.lt_of_le_of_ne hle ?_
          rintro rfl
          rw [Nat.sub_self] at hget
          exact lexMatch_semicolon text (Option.some.inj hget ▸ hmatch)
        · cases herr
      | some m =>
        obtain ⟨htext, hne⟩ := lexMatch_eq hmatch
        have hlength : text.length + 1 = m.text.length + m.rest.length := by
          rw [← length_append, ← htext]
          rfl
        have hpos : 0 < m.text.length := length_pos_iff.mpr hne
        have hscan := fun rest => @scan_match n index text c m hmatch rest
        obtain ⟨hfound, hnone⟩ :=
          @ih (nestingAfter n (m.token.map Prod.fst)) (index + m.text.length) m.rest
            (by simp only [length_cons] at hfuel; omega)
        simp only [firstSemicolon_match, nesting_match]
        rw [htext]
        simp only [append_assoc, hscan]
        split
        · -- the match is the end
          exact ⟨fun k hk => hk, fun hk => by cases hk⟩
        · refine ⟨hfound, fun hk => ⟨(hnone hk).1, fun herr rest => ?_⟩⟩
          rw [(hnone hk).2 herr rest, length_append, Nat.add_assoc]

end Scan

/-! ## 5. Where a statement ends -/

section Ends

variable {text : List Char} {k : Nat}

theorem terminator_of_token (h : firstSemicolon 0 (tokenize text).1 = some k) :
    statementTerminator text = some k :=
  (scan_lexFrom (Nat.lt_succ_self _)).1 k h

theorem token_of_terminator (h : statementTerminator text = some k) :
    firstSemicolon 0 (tokenize text).1 = some k ∨ ∃ e, (tokenize text).2 = some e ∧ e < k := by
  cases hfirst : firstSemicolon 0 (tokenize text).1 with
  | some j => exact .inl ((terminator_of_token hfirst).symm.trans h ▸ rfl)
  | none => exact .inr (((scan_lexFrom (Nat.lt_succ_self _)).2 hfirst).1 k h)

/-- After a statement that the lexer reads the REPL takes the next `;`. -/
theorem terminator_enclosed (herr : (tokenize text).2 = none) (h : Enclosed (tokenize text).1) :
    statementTerminator (text ++ [';']) = some text.length := by
  have hscan := ((scan_lexFrom (Nat.lt_succ_self _)).2 h.inside).2 herr [';']
  rw [statementTerminator]
  refine hscan.trans ?_
  have hclosed : nesting 0 (lexFrom (text.length + 1) 0 text).1 = 0 := h.closed
  rw [hclosed, Nat.zero_add]
  rfl

theorem scanFrom_append {s : ScanState} {index : Nat} {before : List Char}
    (h : scanFrom s index before = some k) (after : List Char) :
    scanFrom s index (before ++ after) = some k := by
  induction before generalizing s index with
  | nil => cases h
  | cons c before ih =>
    rw [scanFrom] at h
    rw [cons_append, scanFrom]
    cases hscan : scanChar s c with
    | none =>
      rw [hscan] at h
      exact h
    | some s' =>
      rw [hscan] at h
      exact ih h

theorem scanFrom_behind {s : ScanState} {index : Nat} {before after : List Char}
    (hbefore : scanFrom s index before = none) (h : scanFrom s index (before ++ after) = some k) :
    index + before.length ≤ k := by
  induction before generalizing s index with
  | nil => exact (scanFrom_getElem h).1
  | cons c before ih =>
    rw [scanFrom] at hbefore
    rw [cons_append, scanFrom] at h
    cases hscan : scanChar s c with
    | none =>
      rw [hscan] at hbefore
      cases hbefore
    | some s' =>
      rw [hscan] at hbefore h
      have hle := ih hbefore h
      rw [length_cons]
      omega

theorem scanFrom_shift (s : ScanState) (index d : Nat) (text : List Char) :
    scanFrom s (index + d) text = (scanFrom s index text).map (· + d) := by
  induction text generalizing s index with
  | nil => rfl
  | cons c text ih =>
    rw [scanFrom, scanFrom]
    cases scanChar s c with
    | none => rfl
    | some s' =>
      have hstep := ih s' (index + 1)
      rw [Nat.add_right_comm] at hstep
      exact hstep

theorem terminator_take (h : statementTerminator text = some k) :
    statementTerminator (text.take k) = none := by
  cases hbefore : statementTerminator (text.take k) with
  | none => rfl
  | some j =>
    have hwhole := scanFrom_append hbefore (text.drop k)
    rw [take_append_drop] at hwhole
    obtain rfl := Option.some.inj (hwhole.symm.trans h)
    have hlt := (List.getElem?_eq_some_iff.mp (scanFrom_getElem hbefore).2).1
    rw [List.length_take] at hlt
    omega

theorem scanFrom_blanks {blanks : List Char} (h : ∀ c ∈ blanks, isBlank c = true)
    (text : List Char) :
    statementTerminator (blanks ++ text) = (statementTerminator text).map (· + blanks.length) := by
  rw [statementTerminator]
  refine (scanFrom_plain (fun c hc => plain_of_blank (h c hc)) text).trans ?_
  exact scanFrom_shift _ 0 blanks.length text

theorem terminator_trim (h : statementTerminator text = none) :
    statementTerminator (trim text) = none := by
  have hsplit := takeWhile_append_dropWhile (p := isBlank) (l := text)
  have hfront : statementTerminator (text.dropWhile isBlank) = none := by
    rw [← hsplit, scanFrom_blanks fun c hc => mem_takeWhile_imp hc] at h
    exact Option.map_eq_none_iff.mp h
  rw [trim]
  generalize text.dropWhile isBlank = front at hfront
  obtain ⟨blanks, hblanks⟩ := dropWhile_suffix isBlank (l := front.reverse)
  have hback : front = (front.reverse.dropWhile isBlank).reverse ++ blanks.reverse := by
    rw [← reverse_append, hblanks, reverse_reverse]
  cases hend : statementTerminator (front.reverse.dropWhile isBlank).reverse with
  | none => rfl
  | some j =>
    have hwhole := scanFrom_append hend blanks.reverse
    rw [← hback] at hwhole
    exact absurd (hwhole.symm.trans hfront) (Option.some_ne_none j)

theorem trim_blanks {blanks : List Char} (h : ∀ c ∈ blanks, isBlank c = true)
    (text : List Char) : trim (blanks ++ text) = trim text := by
  rw [trim, trim, dropWhile_append_of_pos h]

end Ends

/-! ## 6. The session -/

section Session

variable {s : ReplState} {line text : List Char} {k : Nat}

/-- Nothing in the buffer ends a statement, nor in what was sent. -/
structure Inv (s : ReplState) : Prop where
  buffer : statementTerminator s.buffer = none
  sent : ∀ sql ∈ s.sent, statementTerminator sql = none

theorem feed_ordinary (h : s.ordinary line = true) :
    s.feed line =
      match s.terminator line with
      | some index =>
        if (trim ((s.pending line).drop (index + 1))).isEmpty then
          s.send ((s.pending line).take index)
        else { s with buffer := [] }
      | none => { s with buffer := s.pending line } := by
  simp only [ReplState.ordinary, Bool.and_eq_true, Bool.not_eq_true', Option.isNone_iff_eq_none] at h
  obtain ⟨⟨hrepl, hcommand⟩, hexpanded⟩ := h
  have hclear : trim line ≠ ".clear".toList := by
    intro hclear
    rw [hclear] at hrepl
    exact absurd hrepl (by decide)
  rw [ReplState.feed, if_neg hclear, if_neg (by simp [hrepl]), if_neg (by simp [hcommand]),
    hexpanded]

theorem terminator_eq (h : statementTerminator s.buffer = none) (line : List Char) :
    s.terminator line = statementTerminator (s.pending line) := by
  rw [ReplState.terminator]
  cases hend : statementTerminator (s.pending line) with
  | none => rfl
  | some k =>
    refine if_pos ?_
    rw [ReplState.pending] at hend ⊢
    split at hend
    · simp_all
    · rename_i hne
      rw [if_neg hne]
      have hbehind := scanFrom_behind h hend
      have hget := (scanFrom_getElem hend).2
      have hnewline : k ≠ s.buffer.length := by
        rintro rfl
        simp at hget
      rw [length_append, length_cons]
      omega

theorem send_sent (s : ReplState) (text : List Char) :
    ∀ sql ∈ (s.send text).sent, sql ∈ s.sent ∨ sql = trim text := by
  intro sql hsql
  simp only [ReplState.send] at hsql
  split at hsql
  · exact .inl hsql
  · exact (mem_append.mp hsql).imp id mem_singleton.mp

theorem send_buffer (s : ReplState) (text : List Char) : (s.send text).buffer = [] := by
  simp only [ReplState.send]
  split <;> rfl

/-- **A line without a `\G` marker keeps the invariant**, also when it is a command: that one clears
the buffer or changes nothing. -/
theorem Inv.feed (h : Inv s) (hline : expandedLine line = none) : Inv (s.feed line) := by
  simp only [ReplState.feed, hline]
  split
  · exact ⟨rfl, h.sent⟩
  split
  · exact h
  split
  · exact h
  rw [terminator_eq h.buffer]
  cases hend : statementTerminator (s.pending line) with
  | none => exact ⟨hend, h.sent⟩
  | some k =>
    simp only
    split
    · refine ⟨by rw [send_buffer]; rfl, fun sql hsql => ?_⟩
      rcases send_sent s _ sql hsql with hsql | rfl
      · exact h.sent sql hsql
      · exact terminator_trim (terminator_take hend)
    · exact ⟨rfl, h.sent⟩

/-- **Every session without such a marker keeps the invariant.** -/
theorem Inv.session (h : Inv s) {lines : List (List Char)}
    (hlines : ∀ line ∈ lines, expandedLine line = none) : Inv (lines.foldl ReplState.feed s) := by
  induction lines generalizing s with
  | nil => exact h
  | cons line lines ih =>
    exact ih (h.feed (hlines line mem_cons_self))
      fun l hl => hlines l (mem_cons_of_mem _ hl)

/-- The buffer after lines that do not end a statement. -/
def bufferAfter (s : ReplState) : List (List Char) → List Char
  | [] => s.buffer
  | line :: lines => bufferAfter { s with buffer := s.pending line } lines

theorem bufferAfter_of_ne (hne : s.buffer ≠ []) {lines : List (List Char)} (hlines : lines ≠ []) :
    bufferAfter s lines = s.buffer ++ '\n' :: joinLines lines := by
  have hempty : s.buffer.isEmpty = false := by simpa using hne
  induction lines generalizing s with
  | nil => exact absurd rfl hlines
  | cons line lines ih =>
    have hpending : s.pending line = s.buffer ++ '\n' :: line := by
      simp [ReplState.pending, hempty]
    cases lines with
    | nil => exact hpending
    | cons next lines =>
      have hmore : s.pending line ≠ [] := by simp [hpending]
      rw [bufferAfter, @ih { s with buffer := s.pending line } hmore (cons_ne_nil _ _)
        (by simpa using hmore)]
      simp [hpending, joinLines]

theorem bufferAfter_of_nil (hnil : s.buffer = []) (lines : List (List Char)) :
    ∃ blanks, (∀ c ∈ blanks, c = '\n') ∧ joinLines lines = blanks ++ bufferAfter s lines := by
  induction lines generalizing s with
  | nil => exact ⟨[], fun c hc => absurd hc not_mem_nil, hnil.symm⟩
  | cons line lines ih =>
    have hpending : s.pending line = line := by simp [ReplState.pending, hnil]
    cases lines with
    | nil => exact ⟨[], fun c hc => absurd hc not_mem_nil, hpending.symm⟩
    | cons next lines =>
      by_cases hline : line = []
      · obtain ⟨blanks, hblanks, hjoin⟩ :=
          @ih { s with buffer := s.pending line } (hpending.trans hline)
        refine ⟨'\n' :: blanks, fun c hc => ?_, ?_⟩
        · rcases mem_cons.mp hc with rfl | hc
          · rfl
          · exact hblanks c hc
        · have hafter : bufferAfter s (line :: next :: lines) =
              bufferAfter { s with buffer := s.pending line } (next :: lines) := rfl
          rw [hafter, cons_append, ← hjoin, hline]
          rfl
      · refine ⟨[], fun c hc => absurd hc not_mem_nil, ?_⟩
        have hne : ({ s with buffer := s.pending line } : ReplState).buffer ≠ [] := by
          rw [hpending]
          exact hline
        rw [bufferAfter, bufferAfter_of_ne hne (cons_ne_nil _ _), hpending, joinLines]
        · rfl
        · exact fun h => by cases h

/-- Lines whose text ends with the first end are sent with the last of them. -/
theorem feed_lines (hbuffer : statementTerminator s.buffer = none) {lines : List (List Char)}
    (hlines : s.Ordinary lines) (hne : lines ≠ [])
    (hend : statementTerminator (bufferAfter s lines) = some k)
    (hlast : k + 1 = (bufferAfter s lines).length) :
    lines.foldl ReplState.feed s = s.send ((bufferAfter s lines).take k) := by
  induction lines generalizing s with
  | nil => exact absurd rfl hne
  | cons line lines ih =>
    obtain ⟨hline, hlines⟩ := hlines
    rw [foldl_cons]
    rw [feed_ordinary hline, terminator_eq hbuffer] at hlines ⊢
    cases lines with
    | nil =>
      have hpending : bufferAfter s [line] = s.pending line := rfl
      rw [hpending] at hend hlast ⊢
      rw [hend]
      simp only [foldl_nil]
      rw [drop_of_length_le (Nat.le_of_eq hlast.symm)]
      rfl
    | cons next lines =>
      have hnone : statementTerminator (s.pending line) = none := by
        cases hpending : statementTerminator (s.pending line) with
        | none => rfl
        | some j =>
          have hsome : s.pending line ≠ [] := by
            intro hnil
            rw [hnil] at hpending
            cases hpending
          have hafter : bufferAfter s (line :: next :: lines) =
              s.pending line ++ '\n' :: joinLines (next :: lines) :=
            @bufferAfter_of_ne { s with buffer := s.pending line } hsome _ (cons_ne_nil _ _)
          have hwhole := scanFrom_append hpending ('\n' :: joinLines (next :: lines))
          rw [← hafter] at hwhole
          obtain rfl := Option.some.inj (hwhole.symm.trans hend)
          have hlt := (List.getElem?_eq_some_iff.mp (scanFrom_getElem hpending).2).1
          rw [hafter, length_append, length_cons] at hlast
          omega
      rw [hnone] at hlines ⊢
      exact @ih { s with buffer := s.pending line } hnone hlines (cons_ne_nil _ _) hend hlast

/-- **A statement that the parser accepts is sent whole**, whatever its lines are. -/
theorem feed_enclosed (hnil : s.buffer = []) {lines : List (List Char)}
    (hlines : s.Ordinary lines) (herr : (tokenize text).2 = none)
    (h : Enclosed (tokenize text).1) (hjoin : joinLines lines = text ++ [';']) :
    lines.foldl ReplState.feed s = s.send text := by
  obtain ⟨blanks, hblanks, hafter⟩ := bufferAfter_of_nil hnil lines
  have hblank : ∀ c ∈ blanks, isBlank c = true := fun c hc => hblanks c hc ▸ rfl
  have hne : lines ≠ [] := by
    rintro rfl
    simp [joinLines] at hjoin
  -- the last character is not one of the blank lines
  obtain ⟨front, hfront⟩ : ∃ front, bufferAfter s lines = front ++ [';'] := by
    rcases eq_nil_or_concat (bufferAfter s lines) with hempty | ⟨front, c, hc⟩
    · rw [hempty, append_nil, hjoin] at hafter
      have hmem : ';' ∈ blanks := hafter ▸ mem_append_right _ (mem_singleton_self _)
      exact absurd (hblanks _ hmem) (by decide)
    · rw [concat_eq_append] at hc
      rw [hc, hjoin, ← append_assoc] at hafter
      obtain ⟨-, hlast⟩ := append_inj' hafter rfl
      exact ⟨front, hc.trans (hlast ▸ rfl)⟩
  have htext : text = blanks ++ front := by
    rw [hjoin, hfront, ← append_assoc] at hafter
    exact (append_inj' hafter rfl).1
  have hend : statementTerminator (bufferAfter s lines) = some front.length := by
    have hwhole := terminator_enclosed herr h
    rw [htext, append_assoc, scanFrom_blanks hblank, ← hfront] at hwhole
    obtain ⟨j, hj, hsum⟩ := Option.map_eq_some_iff.mp hwhole
    rw [hj]
    rw [length_append] at hsum
    exact congrArg some (by omega)
  rw [feed_lines (hnil ▸ rfl) hlines hne hend (by rw [hfront]; simp), hfront, take_left]
  rw [ReplState.send, ReplState.send, htext, trim_blanks hblank]

/-! ## 7. Statements -/

/-- **The REPL ends a statement at the first `;` that the lexer sees outside of parentheses.**

The lines before may be anything but lines with a `\G` marker, commands included; the next line is
SQL where it comes.  The two scanners agree as far as the lexer reads the text: behind a character
that the lexer refuses the REPL goes on counting quotes.  No statement that was sent has the end of
another one in it, and one that the parser accepts is sent whole, however it is split into lines
that are SQL where they come. -/
theorem repl_statements (accepts : List Token → Prop)
    (haccepts : ∀ tokens, accepts tokens → Enclosed tokens) (lines : List (List Char))
    (hlines : ∀ line ∈ lines, expandedLine line = none) :
    (∀ line, (lines.foldl ReplState.feed {}).ordinary line = true →
      (∀ k, firstSemicolon 0 (tokenize ((lines.foldl ReplState.feed {}).pending line)).1 = some k →
        (lines.foldl ReplState.feed {}).terminator line = some k) ∧
      ∀ k, (lines.foldl ReplState.feed {}).terminator line = some k →
        firstSemicolon 0 (tokenize ((lines.foldl ReplState.feed {}).pending line)).1 = some k ∨
          ∃ e, (tokenize ((lines.foldl ReplState.feed {}).pending line)).2 = some e ∧ e < k) ∧
    (∀ sql ∈ (lines.foldl ReplState.feed {}).sent, firstSemicolon 0 (tokenize sql).1 = none) ∧
    ((lines.foldl ReplState.feed {}).buffer = [] → ∀ text more, (tokenize text).2 = none →
      accepts (tokenize text).1 → (lines.foldl ReplState.feed {}).Ordinary more →
      joinLines more = text ++ [';'] →
      more.foldl ReplState.feed (lines.foldl ReplState.feed {}) =
        (lines.foldl ReplState.feed {}).send text) := by
  have hinv : Inv (lines.foldl ReplState.feed {}) :=
    Inv.session ⟨rfl, fun sql hsql => absurd hsql not_mem_nil⟩ hlines
  refine ⟨fun line _ => ?_, fun sql hsql => ?_, fun hnil text more herr hacc hmore hjoin => ?_⟩
  · rw [terminator_eq hinv.buffer]
    exact ⟨fun k => terminator_of_token, fun k => token_of_terminator⟩
  · cases hfirst : firstSemicolon 0 (tokenize sql).1 with
    | none => rfl
    | some k =>
      exact absurd ((terminator_of_token hfirst).symm.trans (hinv.sent sql hsql))
        (Option.some_ne_none k)
  · exact feed_enclosed hnil hmore herr (haccepts _ hacc) hjoin

end Session

/-- After a command and another statement: a line that begins with a dot is SQL when the statement
has begun, and the `;` inside the parentheses does not end it. -/
theorem window_sent :
    ["SELECT t".toList, ".a FROM t WHERE window IN (0, 9;".toList, "slice 5s);".toList].foldl
      ReplState.feed ([".color on".toList, "SHOW TABLES;".toList].foldl ReplState.feed {}) =
        ([".color on".toList, "SHOW TABLES;".toList].foldl ReplState.feed {}).send
          "SELECT t\n.a FROM t WHERE window IN (0, 9;\nslice 5s)".toList :=
  (repl_statements (Enclosed ·) (fun _ h => h) [".color on".toList, "SHOW TABLES;".toList]
    (by decide +kernel)).2.2
    (by decide +kernel) "SELECT t\n.a FROM t WHERE window IN (0, 9;\nslice 5s)".toList
    ["SELECT t".toList, ".a FROM t WHERE window IN (0, 9;".toList, "slice 5s);".toList]
    (by decide +kernel) ⟨by decide +kernel, by decide +kernel⟩
    ⟨by decide +kernel, by decide +kernel, by decide +kernel, trivial⟩ (by decide +kernel)

/-- **Not at every `;`**: the lexer sees one inside the parentheses, which the REPL passes over. -/
theorem not_every_semicolon :
    ¬ ∀ text k, statementTerminator text = some k ↔
      ((tokenize text).1.find? fun t => t.type == .semicolon).map (·.offset) = some k := by
  intro hall
  have hend := (hall "w IN (0; slice 5s)".toList 7).mpr (by decide +kernel)
  exact absurd hend (by decide +kernel)

end MldpDriver.Query.Repl

/-
# String literals and their values

A string token is what stands between a quote and the next quote that no backslash takes with it
(`QuotedBody`), and its value is that text without the backslashes (`unescapeQuoted`).  The
backslashes before `%`, `*`, `_` and before a backslash stay in the value, for LIKE to see; so a
value has no other backslashes, and no line breaks (`Paired`).
-/
import MldpDriver.Query.QueryLexer

namespace MldpDriver.Query.Lexer

/-! ## 1. What stands between quotes -/

/-- Neither the quote nor a line break, but any other character behind a backslash. -/
inductive QuotedBody (quote : Char) : List Char → Prop
  | nil : QuotedBody quote []
  | escaped {c : Char} {body : List Char} (hline : c ≠ '\n') (h : QuotedBody quote body) :
      QuotedBody quote ('\\' :: c :: body)
  | plain {c : Char} {body : List Char} (hescape : c ≠ '\\') (hquote : c ≠ quote) (hline : c ≠ '\n')
      (h : QuotedBody quote body) : QuotedBody quote (c :: body)

/-- The characters that keep their backslash. -/
def keepsBackslash (c : Char) : Bool := c == '%' || c == '*' || c == '_' || c == '\\'

/-- No line break, and every backslash in front of a character that keeps it. -/
inductive Paired : List Char → Prop
  | nil : Paired []
  | kept {c : Char} {text : List Char} (hc : keepsBackslash c = true) (h : Paired text) :
      Paired ('\\' :: c :: text)
  | plain {c : Char} {text : List Char} (hescape : c ≠ '\\') (hline : c ≠ '\n') (h : Paired text) :
      Paired (c :: text)

variable {quote c : Char} {text body rest s : List Char}

theorem quotedText_plain (hc : c ≠ '\\') : quotedText quote (c :: text) =
    if c = quote then some ([], text)
    else if c = '\n' then none
    else (quotedText quote text).map fun r => (c :: r.1, r.2) := by
  rw [quotedText.eq_def]
  split <;> simp_all

theorem unescapeQuoted_escaped : unescapeQuoted ('\\' :: c :: text) =
    if keepsBackslash c then '\\' :: c :: unescapeQuoted text else c :: unescapeQuoted text := rfl

theorem unescapeQuoted_plain (hc : c ≠ '\\') :
    unescapeQuoted (c :: text) = c :: unescapeQuoted text := by
  rw [unescapeQuoted.eq_def]
  split <;> simp_all

/-- **The scanner stops at the first quote without a backslash, and finds every such quote.** -/
theorem quotedText_iff (hquote : quote ≠ '\\') : quotedText quote text = some (body, rest) ↔
    QuotedBody quote body ∧ text = body ++ quote :: rest := by
  constructor
  · intro h
    refine ⟨?_, quotedText_eq h⟩
    fun_induction quotedText quote text generalizing body rest with
    | case1 => cases h
    | case2 => cases h
    | case3 => cases h
    | case4 c text hline ih =>
      simp only [Option.map_eq_some_iff, Prod.mk.injEq] at h
      obtain ⟨⟨inner, after⟩, hinner, rfl, rfl⟩ := h
      exact .escaped hline (ih hinner)
    | case5 text => simp_all [QuotedBody.nil]
    | case6 => cases h
    | case7 c text hend hescape hne hline ih =>
      simp only [Option.map_eq_some_iff, Prod.mk.injEq] at h
      obtain ⟨⟨inner, after⟩, hinner, rfl, rfl⟩ := h
      refine .plain ?_ hne hline (ih hinner)
      intro hc
      cases text with
      | nil => exact hend hc rfl
      | cons d text => exact hescape d text hc rfl
  · rintro ⟨h, rfl⟩
    induction h with
    | nil => simp [quotedText_plain hquote]
    | escaped hline h ih => simp [quotedText, hline, ih]
    | plain hescape hne hline h ih => simp [quotedText_plain hescape, hne, hline, ih]

theorem paired_unescape (h : QuotedBody quote body) : Paired (unescapeQuoted body) := by
  induction h with
  | nil => exact .nil
  | @escaped c body hline h ih =>
    rw [unescapeQuoted_escaped]
    split
    · rename_i hc
      exact .kept hc ih
    · rename_i hc
      refine .plain ?_ hline ih
      rintro rfl
      exact hc rfl
  | plain hescape hne hline h ih =>
    rw [unescapeQuoted_plain hescape]
    exact .plain hescape hline ih

/-! ## 2. Writing a value -/

/-- A value between quotes: the quotes in it escaped, the backslashes as they are. -/
def writeQuoted (quote : Char) : List Char → List Char
  | [] => []
  | '\\' :: c :: text => '\\' :: c :: writeQuoted quote text
  | c :: text => if c = quote then '\\' :: c :: writeQuoted quote text
    else c :: writeQuoted quote text

/-- The quotes of the two kinds of literals. -/
def quoteChar (double : Bool) : Char := if double then '"' else '\''

/-- A value as a literal. -/
def literal (double : Bool) (s : List Char) : List Char :=
  quoteChar double :: (writeQuoted (quoteChar double) s ++ [quoteChar double])

theorem quoteChar_ne (double : Bool) : quoteChar double ≠ '\\' ∧ quoteChar double ≠ '\n' ∧
    keepsBackslash (quoteChar double) = false := by
  cases double <;> decide

theorem write_spec (double : Bool) (h : Paired s) :
    QuotedBody (quoteChar double) (writeQuoted (quoteChar double) s) ∧
      unescapeQuoted (writeQuoted (quoteChar double) s) = s := by
  obtain ⟨hescape, hline, hkeeps⟩ := quoteChar_ne double
  induction h with
  | nil => exact ⟨.nil, rfl⟩
  | @kept c text hc h ih =>
    refine ⟨.escaped ?_ ih.1, ?_⟩
    · rintro rfl
      cases hc
    · rw [writeQuoted, unescapeQuoted_escaped, ih.2, if_pos hc]
  | @plain c text hc hnewline h ih =>
    have hwrite : writeQuoted (quoteChar double) (c :: text) =
        if c = quoteChar double then '\\' :: c :: writeQuoted (quoteChar double) text
        else c :: writeQuoted (quoteChar double) text := by
      rw [writeQuoted.eq_def]
      split <;> simp_all
    rw [hwrite]
    split
    · rename_i heq
      refine ⟨.escaped hnewline ih.1, ?_⟩
      rw [unescapeQuoted_escaped, ih.2, heq, hkeeps]
      rfl
    · rename_i hne
      exact ⟨.plain hc hne hnewline ih.1, by rw [unescapeQuoted_plain hc, ih.2]⟩

/-! ## 3. Literals among the tokens -/

theorem lexMatch_quote (double : Bool) : lexMatch (quoteChar double) text =
    (quotedText (quoteChar double) text).map fun r =>
      ⟨quoteChar double :: (r.1 ++ [quoteChar double]), some (.string, unescapeQuoted r.1), r.2⟩ := by
  cases double <;> rfl

theorem lexMatch_string {m : LexMatch} (h : lexMatch c text = some m)
    (hm : m.token = some (.string, s)) : ∃ double, c = quoteChar double := by
  rw [lexMatch] at h
  split at h
  · obtain rfl := Option.some.inj h
    cases hm
  · split at h
    · split at h
      · obtain rfl := Option.some.inj h
        cases hm
      · split at h <;> (obtain rfl := Option.some.inj h; cases hm)
    · split at h
      · obtain rfl := Option.some.inj h
        have hword := congrArg Prod.fst (Option.some.inj hm)
        simp only [wordType] at hword
        split at hword <;> cases hword
      · split at h
        · rename_i hquote
          exact hquote.elim (fun hc => ⟨false, hc⟩) fun hc => ⟨true, hc⟩
        · split at h
          · obtain ⟨type, htype, rfl⟩ := Option.map_eq_some_iff.mp h
            obtain rfl : type = .string := congrArg Prod.fst (Option.some.inj hm)
            rw [comparisonType.eq_def] at htype
            split at htype <;> cases htype
          · obtain ⟨type, htype, rfl⟩ := Option.map_eq_some_iff.mp h
            obtain rfl : type = .string := congrArg Prod.fst (Option.some.inj hm)
            rw [operatorType.eq_def] at htype
            split at htype <;> cases htype

/-- The token is a literal of the text, from its quote to its closing quote. -/
def Stands (text : List Char) (offset : Nat) (t : Token) : Prop :=
  ∃ double before body rest, text = before ++ quoteChar double :: (body ++ quoteChar double :: rest) ∧
    t.offset = offset + before.length ∧ QuotedBody (quoteChar double) body ∧
    t.lexeme = unescapeQuoted body

theorem stands_of_mem {fuel offset : Nat} {t : Token} (ht : t ∈ (lexFrom fuel offset text).1)
    (hs : t.type = .string) : Stands text offset t := by
  induction fuel generalizing offset text with
  | zero => cases ht
  | succ fuel ih =>
    cases text with
    | nil => cases ht
    | cons c text =>
      rw [lexFrom] at ht
      cases hm : lexMatch c text with
      | none => simp [hm] at ht
      | some m =>
        simp only [hm, List.mem_append, List.mem_map, Option.mem_toList] at ht
        rcases ht with ⟨⟨type, lexeme⟩, htoken, rfl⟩ | ht
        · obtain rfl : type = .string := hs
          obtain ⟨double, rfl⟩ := lexMatch_string hm htoken
          rw [lexMatch_quote, Option.map_eq_some_iff] at hm
          obtain ⟨⟨body, rest⟩, hbody, rfl⟩ := hm
          obtain ⟨hquoted, rfl⟩ := (quotedText_iff (quoteChar_ne double).1).mp hbody
          exact ⟨double, [], body, rest, rfl, rfl, hquoted,
            (congrArg Prod.snd (Option.some.inj htoken)).symm⟩
        · obtain ⟨double, before, body, rest, htext, hoffset, hquoted, hlexeme⟩ := ih ht
          refine ⟨double, m.text ++ before, body, rest, ?_, ?_, hquoted, hlexeme⟩
          · rw [(lexMatch_eq hm).1, htext, List.append_assoc]
          · rw [hoffset, List.length_append, Nat.add_assoc]

theorem paired_of_stands {offset : Nat} {t : Token} (h : Stands text offset t) :
    Paired t.lexeme := by
  obtain ⟨double, before, body, rest, -, -, hquoted, hlexeme⟩ := h
  exact hlexeme ▸ paired_unescape hquoted

theorem tokenize_literal (double : Bool) (h : Paired s) :
    tokenize (literal double s) = ([⟨.string, s, 0⟩], none) := by
  obtain ⟨hquoted, hvalue⟩ := write_spec double h
  have hscan := (quotedText_iff (quoteChar_ne double).1).mpr
    ⟨hquoted, (rfl : _ = writeQuoted (quoteChar double) s ++ quoteChar double :: [])⟩
  rw [tokenize, literal, lexFrom, lexMatch_quote, hscan]
  simp [lexFrom, hvalue]

/-- **A text can be written as a literal when its backslashes are pairs and it has no line break,
and only then**, and `literal` writes it; every string token is a literal that ends at its closing
quote, and a quote that is not closed is an error. -/
theorem literal_iff (double : Bool) (s : List Char) :
    (tokenize (literal double s) = ([⟨.string, s, 0⟩], none) ↔ Paired s) ∧
      ((∃ text, ∃ t ∈ (tokenize text).1, t.type = .string ∧ t.lexeme = s) ↔ Paired s) ∧
      (∀ text, ∀ t ∈ (tokenize text).1, t.type = .string → Stands text 0 t) ∧
      ∀ text, (¬ ∃ body rest, QuotedBody (quoteChar double) body ∧
          text = body ++ quoteChar double :: rest) →
        tokenize (quoteChar double :: text) = ([], some 0) := by
  have hpaired : (∃ text, ∃ t ∈ (tokenize text).1, t.type = .string ∧ t.lexeme = s) → Paired s := by
    rintro ⟨text, t, ht, hs, rfl⟩
    exact paired_of_stands (stands_of_mem ht hs)
  have htoken : tokenize (literal double s) = ([⟨.string, s, 0⟩], none) →
      ∃ text, ∃ t ∈ (tokenize text).1, t.type = .string ∧ t.lexeme = s := by
    intro h
    exact ⟨literal double s, ⟨.string, s, 0⟩, by rw [h]; exact List.mem_singleton.mpr rfl, rfl, rfl⟩
  refine ⟨⟨fun h => hpaired (htoken h), tokenize_literal double⟩,
    ⟨hpaired, fun h => htoken (tokenize_literal double h)⟩, fun text t ht hs => stands_of_mem ht hs, ?_⟩
  intro text hopen
  have hnone : quotedText (quoteChar double) text = none := by
    cases hscan : quotedText (quoteChar double) text with
    | none => rfl
    | some r => exact absurd ⟨r.1, r.2, (quotedText_iff (quoteChar_ne double).1).mp hscan⟩ hopen
  rw [tokenize, lexFrom, lexMatch_quote, hnone]
  rfl

/-- A single backslash and a line break are the value of no literal. -/
theorem backslash_unwritable :
    (¬ ∃ text, ∃ t ∈ (tokenize text).1, t.type = .string ∧ t.lexeme = ['\\']) ∧
      ¬ ∃ text, ∃ t ∈ (tokenize text).1, t.type = .string ∧ t.lexeme = ['\n'] := by
  constructor
  · rintro ⟨text, t, ht, hs, h⟩
    have hpaired := h ▸ paired_of_stands (stands_of_mem ht hs)
    cases hpaired
    contradiction
  · rintro ⟨text, t, ht, hs, h⟩
    have hpaired := h ▸ paired_of_stands (stands_of_mem ht hs)
    cases hpaired
    contradiction

end MldpDriver.Query.Lexer

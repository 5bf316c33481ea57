/-
# The regular expression of a PV-name pattern

`pvNameRegex` turns a PREFIX, CONTAINS or LIKE predicate into the expression that the backend
searches PV names with.  The source works on bytes and the backend reads characters; the functions
are written for any alphabet with the ASCII characters in it, and the expression of the bytes is the
encoding of the expression of the characters (`utf8_pvNameRegex`).
-/
import MldpDriver.Lib.Regex
import MldpDriver.Lib.Utf8
import MldpDriver.Query.LikeLanguage

namespace MldpDriver.Query.PvName

open List
open Lib.Regex (Item Matches ofWildcard matches_anchored_iff)
open Lib.Utf8
open Lib.Wildcards

/-! ## 1. The expression -/

/-- The characters that `escapeRegex` escapes. -/
def metacharacters : List Char := "\\^$.|?*+()[]{}".toList

section Alphabet

variable {β : Type} [DecidableEq β] (ascii : Char → β)

def escapeRegex (text : List β) : List β :=
  text.flatMap fun character =>
    if character ∈ metacharacters.map ascii then [ascii '\\', character] else [character]

/-- A character of a LIKE pattern that no backslash stands before. -/
def likeRegexCharacter (character : β) : List β :=
  if character = ascii '%' ∨ character = ascii '*' then [ascii '.', ascii '*']
  else if character = ascii '_' then [ascii '.']
  else escapeRegex ascii [character]

/-- The loop of `pvNameRegex` over a LIKE pattern. -/
def likeRegex : List β → List β
  | [] => []
  | [c] => likeRegexCharacter ascii c
  | c :: d :: rest =>
    if c = ascii '\\' then escapeRegex ascii [d] ++ likeRegex rest
    else likeRegexCharacter ascii c ++ likeRegex (d :: rest)

def pvNameRegex (op : PredicateOp) (pattern : List β) : List β :=
  match op with
  | .PREFIX => ascii '^' :: (escapeRegex ascii pattern ++ [ascii '.', ascii '*', ascii '$'])
  | .CONTAINS =>
    ascii '^' :: ascii '.' :: ascii '*' ::
      (escapeRegex ascii pattern ++ [ascii '.', ascii '*', ascii '$'])
  | _ => "(?i)^".toList.map ascii ++ (likeRegex ascii pattern ++ [ascii '$'])

/-! ### Tokens -/

inductive NameToken (β : Type) where
  | literal (character : β)
  | any
  | single

def nameToken (character : β) : NameToken β :=
  if character = ascii '%' ∨ character = ascii '*' then .any
  else if character = ascii '_' then .single
  else .literal character

def nameTokens : List β → List (NameToken β)
  | [] => []
  | [c] => [nameToken ascii c]
  | c :: d :: rest =>
    if c = ascii '\\' then .literal d :: nameTokens rest
    else nameToken ascii c :: nameTokens (d :: rest)

/-- The tokens of a predicate's pattern. -/
def opTokens (op : PredicateOp) (pattern : List β) : List (NameToken β) :=
  match op with
  | .PREFIX => pattern.map .literal ++ [.any]
  | .CONTAINS => .any :: (pattern.map .literal ++ [.any])
  | _ => nameTokens ascii pattern

def NameToken.regex : NameToken β → List β
  | .literal character => escapeRegex ascii [character]
  | .any => [ascii '.', ascii '*']
  | .single => [ascii '.']

theorem escapeRegex_cons (c : β) (text : List β) :
    escapeRegex ascii (c :: text) = escapeRegex ascii [c] ++ escapeRegex ascii text := by
  simp [escapeRegex]

theorem escapeRegex_literals (text : List β) :
    escapeRegex ascii text = (text.map NameToken.literal).flatMap (NameToken.regex ascii) := by
  induction text with
  | nil => rfl
  | cons c text ih =>
    rw [escapeRegex_cons, ih]
    rfl

theorem likeRegexCharacter_eq (c : β) :
    likeRegexCharacter ascii c = (nameToken ascii c).regex ascii := by
  rw [likeRegexCharacter, nameToken]
  split
  · rfl
  · split <;> rfl

theorem likeRegex_tokens : ∀ pattern : List β,
    likeRegex ascii pattern = (nameTokens ascii pattern).flatMap (NameToken.regex ascii)
  | [] => rfl
  | [c] => by
    rw [likeRegex, nameTokens, flatMap_singleton, likeRegexCharacter_eq]
  | c :: d :: rest => by
    rw [likeRegex, nameTokens]
    split
    · rw [likeRegex_tokens rest]
      rfl
    · rw [likeRegex_tokens (d :: rest), likeRegexCharacter_eq]
      rfl

/-- The flag in front of the expression of a LIKE pattern. -/
def caseFlag (op : PredicateOp) : List β :=
  if op = .PREFIX ∨ op = .CONTAINS then [] else "(?i)".toList.map ascii

/-- **The expression is that of the tokens**, between the anchors. -/
theorem pvNameRegex_tokens (op : PredicateOp) (pattern : List β) :
    pvNameRegex ascii op pattern = caseFlag ascii op ++ ascii '^' ::
      ((opTokens ascii op pattern).flatMap (NameToken.regex ascii) ++ [ascii '$']) := by
  cases op <;>
    simp [pvNameRegex, opTokens, caseFlag, escapeRegex_literals, likeRegex_tokens, NameToken.regex]

theorem nameTokens_escape (d : β) (rest : List β) :
    nameTokens ascii (ascii '\\' :: d :: rest) = .literal d :: nameTokens ascii rest := by
  rw [nameTokens, if_pos rfl]

theorem nameTokens_plain {c : β} (hc : c ≠ ascii '\\') (rest : List β) :
    nameTokens ascii (c :: rest) = nameToken ascii c :: nameTokens ascii rest := by
  cases rest with
  | nil => rfl
  | cons d rest => rw [nameTokens, if_neg hc]

end Alphabet

/-! ## 2. Bytes and characters -/

/-- The byte of an ASCII character. -/
def byteOf (c : Char) : UInt8 := UInt8.ofNat c.toNat

theorem byteOf_inj {c d : Char} (hc : c.toNat < 128) (hd : d.toNat < 128)
    (h : byteOf c = byteOf d) : c = d := by
  have hencode : encode c = encode d := by
    rw [encode_ascii hc, encode_ascii hd]
    exact congrArg (fun b => [b]) h
  exact encode_inj hencode

theorem ne_byteOf {b : UInt8} (hb : 128 ≤ b.toNat) {c : Char} (hc : c.toNat < 128) :
    b ≠ byteOf c := by
  rintro rfl
  rw [byteOf, UInt8.toNat_ofNat'] at hb
  omega

/-- The tokens of a character's bytes. -/
def NameToken.bytes : NameToken Char → List (NameToken UInt8)
  | .literal c => (encode c).map .literal
  | .any => [.any]
  | .single => [.single]

theorem metacharacters_ascii : ∀ c ∈ metacharacters, c.toNat < 128 := by
  have hall : metacharacters.all (fun c => decide (c.toNat < 128)) = true := by decide
  intro c hc
  exact of_decide_eq_true (all_eq_true.mp hall c hc)

theorem escapeRegex_character (c : Char) :
    escapeRegex id [c] = if c ∈ metacharacters then ['\\', c] else [c] := by
  rw [escapeRegex, map_id]
  exact flatMap_singleton _ _

theorem escapeRegex_encode (c : Char) :
    escapeRegex byteOf (encode c) = utf8 (escapeRegex id [c]) := by
  by_cases hc : c.toNat < 128
  · have hmem : UInt8.ofNat c.toNat ∈ metacharacters.map byteOf ↔ c ∈ metacharacters := by
      constructor
      · intro h
        obtain ⟨d, hd, hdc⟩ := mem_map.mp h
        rwa [← byteOf_inj (metacharacters_ascii d hd) hc hdc]
      · exact fun h => mem_map_of_mem h
    rw [escapeRegex_character, encode_ascii hc, escapeRegex, flatMap_singleton, apply_ite utf8]
    simp only [hmem, utf8_cons, utf8_nil, append_nil, encode_ascii hc]
    rfl
  · rw [Nat.not_lt] at hc
    have hnot : c ∉ metacharacters := fun h =>
      absurd (metacharacters_ascii c h) (Nat.not_lt.mpr hc)
    have hbytes : ∀ bs : List UInt8, (∀ b ∈ bs, 128 ≤ b.toNat) → escapeRegex byteOf bs = bs := by
      intro bs
      induction bs with
      | nil => exact fun _ => rfl
      | cons b bs ih =>
        intro h
        have hb : b ∉ metacharacters.map byteOf := by
          intro hmem
          obtain ⟨d, hd, hdb⟩ := mem_map.mp hmem
          exact ne_byteOf (h b mem_cons_self) (metacharacters_ascii d hd) hdb.symm
        rw [escapeRegex_cons, ih fun x hx => h x (mem_cons_of_mem _ hx), escapeRegex,
          flatMap_singleton, if_neg hb]
        rfl
    rw [hbytes _ (encode_wide hc).2, escapeRegex_character, if_neg hnot, utf8_cons, utf8_nil,
      append_nil]

theorem escapeRegex_utf8 (text : List Char) :
    escapeRegex byteOf (utf8 text) = utf8 (escapeRegex id text) := by
  have happend : ∀ a b : List UInt8,
      escapeRegex byteOf (a ++ b) = escapeRegex byteOf a ++ escapeRegex byteOf b := fun a b =>
    flatMap_append
  induction text with
  | nil => rfl
  | cons c text ih =>
    rw [utf8_cons, happend, escapeRegex_encode, ih, escapeRegex_cons id c text, utf8_append]

theorem nameTokens_wide {bs : List UInt8} (h : ∀ b ∈ bs, 128 ≤ b.toNat) (rest : List UInt8) :
    nameTokens byteOf (bs ++ rest) = bs.map NameToken.literal ++ nameTokens byteOf rest := by
  induction bs with
  | nil => rfl
  | cons b bs ih =>
    have hne : ∀ c : Char, c.toNat < 128 → b ≠ byteOf c := fun c hc =>
      ne_byteOf (h b mem_cons_self) hc
    rw [cons_append, nameTokens_plain byteOf (hne '\\' (by decide)),
      ih fun x hx => h x (mem_cons_of_mem _ hx), nameToken,
      if_neg (not_or.mpr ⟨hne '%' (by decide), hne '*' (by decide)⟩),
      if_neg (hne '_' (by decide))]
    rfl

theorem nameToken_ascii {c : Char} (hc : c.toNat < 128) :
    [nameToken byteOf (UInt8.ofNat c.toNat)] = (nameToken id c).bytes := by
  have hiff : ∀ d : Char, d.toNat < 128 → (UInt8.ofNat c.toNat = byteOf d ↔ c = d) :=
    fun d hd => ⟨byteOf_inj hc hd, fun h => h ▸ rfl⟩
  simp only [nameToken, hiff '%' (by decide), hiff '*' (by decide), hiff '_' (by decide), id]
  split
  · rfl
  · split
    · rfl
    · rw [NameToken.bytes, encode_ascii hc]
      rfl

theorem nameTokens_character {c : Char} (hc : c ≠ '\\') (rest : List UInt8) :
    nameTokens byteOf (encode c ++ rest) =
      (nameToken id c).bytes ++ nameTokens byteOf rest := by
  by_cases hascii : c.toNat < 128
  · have hne : UInt8.ofNat c.toNat ≠ byteOf '\\' := fun h =>
      hc (byteOf_inj hascii (by decide) h)
    rw [encode_ascii hascii, singleton_append, nameTokens_plain byteOf hne,
      ← nameToken_ascii hascii]
    rfl
  · rw [Nat.not_lt] at hascii
    have hne : ∀ d : Char, d.toNat < 128 → c ≠ d := by
      rintro d hd rfl
      exact absurd hd (Nat.not_lt.mpr hascii)
    rw [nameTokens_wide (encode_wide hascii).2, nameToken]
    simp only [id, hne '%' (by decide), hne '*' (by decide), hne '_' (by decide), or_self,
      if_false, NameToken.bytes]

theorem nameTokens_escaped (d : Char) (rest : List UInt8) :
    nameTokens byteOf (byteOf '\\' :: (encode d ++ rest)) =
      (encode d).map NameToken.literal ++ nameTokens byteOf rest := by
  by_cases hascii : d.toNat < 128
  · rw [encode_ascii hascii, singleton_append, nameTokens_escape]
    rfl
  · rw [Nat.not_lt] at hascii
    obtain ⟨hlength, hwide⟩ := encode_wide hascii
    cases hencode : encode d with
    | nil => exact absurd hencode (encode_ne_nil d)
    | cons b bs =>
      rw [hencode] at hwide
      rw [cons_append, nameTokens_escape,
        nameTokens_wide fun x hx => hwide x (mem_cons_of_mem _ hx)]
      rfl

/-- **The tokens of the bytes are the bytes of the tokens.** -/
theorem nameTokens_utf8 : ∀ text : List Char,
    nameTokens byteOf (utf8 text) = (nameTokens id text).flatMap NameToken.bytes
  | [] => rfl
  | [c] => by
    by_cases hc : c = '\\'
    · subst hc
      rfl
    · rw [utf8_cons, nameTokens_character hc]
      simp [nameTokens]
  | c :: d :: rest => by
    by_cases hc : c = '\\'
    · subst hc
      have htokens : nameTokens id ('\\' :: d :: rest) = .literal d :: nameTokens id rest :=
        nameTokens_escape id d rest
      rw [utf8_cons, utf8_cons, encode_ascii (by decide), singleton_append,
        show UInt8.ofNat ('\\'.toNat) = byteOf '\\' from rfl, nameTokens_escaped,
        nameTokens_utf8 rest, htokens]
      rfl
    · rw [utf8_cons, nameTokens_character hc, nameTokens_utf8 (d :: rest),
        nameTokens_plain id hc (d :: rest)]
      rfl

theorem regex_bytes (token : NameToken Char) :
    token.bytes.flatMap (NameToken.regex byteOf) = utf8 (token.regex id) := by
  cases token with
  | literal c =>
    rw [NameToken.bytes, ← escapeRegex_literals, escapeRegex_encode]
    rfl
  | any => rfl
  | single => rfl

theorem likeRegex_utf8 (text : List Char) :
    likeRegex byteOf (utf8 text) = utf8 (likeRegex id text) := by
  rw [likeRegex_tokens, nameTokens_utf8, likeRegex_tokens, flatMap_assoc]
  simp only [regex_bytes]
  exact (flatMap_assoc ..).symm

/-- **What is sent is the encoding of the expression of the characters.** -/
theorem utf8_pvNameRegex (op : PredicateOp) (pattern : List Char) :
    pvNameRegex byteOf op (utf8 pattern) = utf8 (pvNameRegex id op pattern) := by
  cases op with
  | PREFIX | CONTAINS =>
    simp only [pvNameRegex, escapeRegex_utf8, id, utf8_cons, utf8_append]
    rfl
  | _ =>
    simp only [pvNameRegex, likeRegex_utf8, id, utf8_append, map_id]
    rfl

/-! ## 3. Reading the expression

The backend is taken to know anchors, `.`, `.*`, escaped punctuation and `(?i)` (`readRegex`); an
expression with anything else in it matches nothing here. -/

/-- What `.` does not match. -/
def lineBreaks : List Char := ['\n', '\r', '\u000B', '\u000C', '\u0085', '\u2028', '\u2029']

def dot (c : Char) : Bool := decide (c ∉ lineBreaks)

/-- The same character; with `fold`, ASCII letters without case. -/
def sameCharacter (fold : Bool) (c d : Char) : Bool :=
  if fold then c.toLower == d.toLower else c == d

/-- A character that no backslash stands before. -/
def readCharacter (fold : Bool) (c : Char) : Option (Item Char) :=
  if c = '^' then some .start
  else if c = '$' then some .stop
  else if c = '.' then some (.one dot)
  else if c ∈ metacharacters then none
  else some (.one (sameCharacter fold c))

def readEscaped (fold : Bool) (c : Char) : Option (Item Char) :=
  if c ∈ metacharacters then some (.one (sameCharacter fold c)) else none

def readItems (fold : Bool) : List Char → Option (List (Item Char))
  | [] => some []
  | [c] => (readCharacter fold c).map fun item => [item]
  | c :: d :: rest =>
    if c = '.' ∧ d = '*' then (readItems fold rest).map (Item.many dot :: ·)
    else if c = '\\' then
      (readEscaped fold d).bind fun item => (readItems fold rest).map (item :: ·)
    else (readCharacter fold c).bind fun item => (readItems fold (d :: rest)).map (item :: ·)

/-- An expression, with `(?i)` in front or without. -/
def readRegex (text : List Char) : Option (List (Item Char)) :=
  if "(?i)".toList <+: text then readItems true (text.drop 4) else readItems false text

/-- The expression matches somewhere in the name. -/
def regexMatches (text name : List Char) : Prop :=
  ∃ items, readRegex text = some items ∧ Matches items name

/-- The backend reads the bytes it is sent as characters. -/
def backendMatches (regex : List UInt8) (name : String) : Prop :=
  ∃ text, utf8 text = regex ∧ regexMatches text name.toList

/-! ### The expression of a pattern -/

/-- What a token stands for in the expression. -/
def NameToken.wildcard (fold : Bool) : NameToken Char → Wildcard Char
  | .literal c => some (sameCharacter fold c)
  | .any => none
  | .single => some dot

theorem readItems_any (fold : Bool) (rest : List Char) :
    readItems fold ('.' :: '*' :: rest) = (readItems fold rest).map (Item.many dot :: ·) := by
  rw [readItems, if_pos ⟨rfl, rfl⟩]

theorem readItems_single (fold : Bool) {d : Char} (hd : d ≠ '*') (rest : List Char) :
    readItems fold ('.' :: d :: rest) =
      (readItems fold (d :: rest)).map (Item.one dot :: ·) := by
  rw [readItems, if_neg fun h => hd h.2, if_neg (by decide)]
  rfl

theorem readItems_literal (fold : Bool) (c d : Char) (rest : List Char) :
    readItems fold (escapeRegex id [c] ++ d :: rest) =
      (readItems fold (d :: rest)).map (Item.one (sameCharacter fold c) :: ·) := by
  rw [escapeRegex_character]
  by_cases hc : c ∈ metacharacters
  · rw [if_pos hc]
    show readItems fold ('\\' :: c :: d :: rest) = _
    rw [readItems, if_neg fun h => absurd h.1 (by decide), if_pos rfl, readEscaped, if_pos hc]
    rfl
  · have hne : ∀ m ∈ metacharacters, c ≠ m := fun m hm h => hc (h ▸ hm)
    rw [if_neg hc]
    show readItems fold (c :: d :: rest) = _
    rw [readItems, if_neg fun h => hne '.' (by decide) h.1, if_neg (hne '\\' (by decide)),
      readCharacter, if_neg (hne '^' (by decide)), if_neg (hne '$' (by decide)),
      if_neg (hne '.' (by decide)), if_neg hc]
    rfl

theorem tokens_follow (tokens : List (NameToken Char)) :
    ∃ d rest, tokens.flatMap (NameToken.regex id) ++ ['$'] = d :: rest ∧ d ≠ '*' := by
  cases tokens with
  | nil => exact ⟨'$', [], rfl, by decide⟩
  | cons token tokens =>
    cases token with
    | any => exact ⟨'.', _, rfl, by decide⟩
    | single => exact ⟨'.', _, rfl, by decide⟩
    | literal c =>
      rw [flatMap_cons, NameToken.regex, escapeRegex_character]
      by_cases hc : c ∈ metacharacters
      · rw [if_pos hc]
        exact ⟨'\\', _, rfl, by decide⟩
      · rw [if_neg hc]
        refine ⟨c, _, rfl, ?_⟩
        rintro rfl
        exact hc (by decide)

/-- **The expression reads back token by token.** -/
theorem readItems_tokens (fold : Bool) (tokens : List (NameToken Char)) :
    readItems fold (tokens.flatMap (NameToken.regex id) ++ ['$']) =
      some ((tokens.map (NameToken.wildcard fold)).map (ofWildcard dot) ++ [.stop]) := by
  induction tokens with
  | nil => rfl
  | cons token tokens ih =>
    obtain ⟨d, rest, hfollow, hd⟩ := tokens_follow tokens
    rw [flatMap_cons, append_assoc, hfollow]
    rw [hfollow] at ih
    cases token with
    | literal c =>
      rw [NameToken.regex, readItems_literal, ih]
      rfl
    | any =>
      show readItems fold ('.' :: '*' :: d :: rest) = _
      rw [readItems_any, ih]
      rfl
    | single =>
      show readItems fold ('.' :: d :: rest) = _
      rw [readItems_single fold hd, ih]
      rfl

/-- LIKE is read without case. -/
def folds (op : PredicateOp) : Bool := decide (¬ (op = .PREFIX ∨ op = .CONTAINS))

theorem readRegex_pvNameRegex (op : PredicateOp) (pattern : List Char) :
    readRegex (pvNameRegex id op pattern) = some (.start ::
      (((opTokens id op pattern).map (NameToken.wildcard (folds op))).map (ofWildcard dot) ++
        [.stop])) := by
  have hitems : ∀ fold, readItems fold ('^' ::
      ((opTokens id op pattern).flatMap (NameToken.regex id) ++ ['$'])) = some (.start ::
        (((opTokens id op pattern).map (NameToken.wildcard fold)).map (ofWildcard dot) ++
          [.stop])) := by
    intro fold
    obtain ⟨d, rest, hfollow, -⟩ := tokens_follow (opTokens id op pattern)
    have htokens := readItems_tokens fold (opTokens id op pattern)
    rw [hfollow] at htokens ⊢
    rw [readItems, if_neg fun h => absurd h.1 (by decide), if_neg (by decide), htokens]
    rfl
  rw [pvNameRegex_tokens, readRegex, caseFlag]
  by_cases hop : op = .PREFIX ∨ op = .CONTAINS
  · rw [if_pos hop, nil_append, if_neg (by simp), folds, decide_eq_false (not_not.mpr hop)]
    exact hitems false
  · rw [if_neg hop, map_id, if_pos (prefix_append _ _), folds, decide_eq_true hop]
    exact hitems true

/-- **What the sent expression matches**: the wildcard pattern of the tokens, on names without line
breaks. -/
theorem backendMatches_iff (op : PredicateOp) (pattern name : String)
    (hname : ∀ c ∈ name.toList, dot c = true) :
    backendMatches (pvNameRegex byteOf op (utf8 pattern.toList)) name ↔
      Accepts ((opTokens id op pattern.toList).map (NameToken.wildcard (folds op)))
        name.toList := by
  rw [utf8_pvNameRegex, ← matches_anchored_iff hname]
  constructor
  · rintro ⟨text, htext, items, hread, h⟩
    rw [utf8_inj htext, readRegex_pvNameRegex] at hread
    rwa [Option.some.inj hread]
  · exact fun h => ⟨_, rfl, _, readRegex_pvNameRegex op pattern.toList, h⟩

end MldpDriver.Query.PvName

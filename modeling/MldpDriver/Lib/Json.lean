/-
# JSON texts

Values, the texts of values, and a reader of texts.  Of a number and of `true` and `false` a value
keeps the text.  An object is the list of its members; `unique` says whether the reader refuses an
object with two members of one name.  Of the escapes in a string the reader has all but the pairs
of surrogates.

The text of a value is written with any escaping `esc` of strings that the reader undoes.
-/
import Mathlib.Data.List.TakeWhile
import MldpDriver.Lib.Lines

namespace Lib.Json

open List

inductive Value
  | null
  | literal (word : List Char)
  | string (text : List Char)
  | array (items : List Value)
  | object (members : List (List Char × Value))

/-! ## 1. Words -/

/-- The characters of a word: `null`, `true`, `false` or a number. -/
def isWord (c : Char) : Bool := c.isAlphanum || c == '+' || c == '-' || c == '.'

/-- A sign that may stand before a number or an exponent. -/
def unsigned (signs : List Char) : List Char → List Char
  | [] => []
  | c :: text => if signs.contains c then text else c :: text

def isDigits (text : List Char) : Bool := !text.isEmpty && text.all Char.isDigit

def isExponent : List Char → Bool
  | [] => true
  | c :: text => (c == 'e' || c == 'E') && isDigits (unsigned ['+', '-'] text)

def isFraction : List Char → Bool
  | [] => true
  | c :: text =>
    if c = '.' then
      !(text.takeWhile Char.isDigit).isEmpty && isExponent (text.dropWhile Char.isDigit)
    else isExponent (c :: text)

def isMagnitude : List Char → Bool
  | [] => false
  | c :: text =>
    if c = '0' then isFraction text
    else c.isDigit && isFraction (text.dropWhile Char.isDigit)

def isNumber (text : List Char) : Bool := isMagnitude (unsigned ['-'] text)

/-- A number, or one of the two truth values. -/
def isLiteral (text : List Char) : Bool :=
  text == "true".toList || text == "false".toList || isNumber text

theorem isWord_of_isDigit {c : Char} (h : c.isDigit = true) : isWord c = true := by
  simp [isWord, Char.isAlphanum, h]

variable {text : List Char}

theorem isWord_of_unsigned {signs : List Char} (hsigns : ∀ c ∈ signs, isWord c = true)
    (h : ∀ c ∈ unsigned signs text, isWord c = true) :
    ∀ c ∈ text, isWord c = true := by
  cases text with
  | nil => exact h
  | cons d text =>
    rw [unsigned] at h
    split at h
    · rename_i hd
      intro c hc
      rcases mem_cons.mp hc with rfl | hc
      · exact hsigns _ (contains_iff_mem.mp hd)
      · exact h c hc
    · exact h

theorem isWord_of_dropDigits (h : ∀ c ∈ text.dropWhile Char.isDigit, isWord c = true) :
    ∀ c ∈ text, isWord c = true := by
  intro c hc
  rw [← @takeWhile_append_dropWhile _ Char.isDigit text] at hc
  rcases mem_append.mp hc with hc | hc
  · exact isWord_of_isDigit (mem_takeWhile_imp hc)
  · exact h c hc

theorem isWord_of_isExponent (h : isExponent text = true) :
    ∀ c ∈ text, isWord c = true := by
  cases text with
  | nil => exact fun c hc => absurd hc not_mem_nil
  | cons d text =>
    simp only [isExponent, isDigits, Bool.and_eq_true, Bool.or_eq_true, beq_iff_eq,
      all_eq_true] at h
    obtain ⟨hd, -, hdigits⟩ := h
    intro c hc
    rcases mem_cons.mp hc with rfl | hc
    · rcases hd with rfl | rfl <;> rfl
    · exact isWord_of_unsigned (all_eq_true.mp rfl)
        (fun c hc => isWord_of_isDigit (hdigits c hc)) c hc

theorem isWord_of_isFraction (h : isFraction text = true) :
    ∀ c ∈ text, isWord c = true := by
  cases text with
  | nil => exact fun c hc => absurd hc not_mem_nil
  | cons d text =>
    rw [isFraction] at h
    split at h
    · rename_i hd
      have hrest := isWord_of_dropDigits (isWord_of_isExponent (Bool.and_eq_true_iff.mp h).2)
      intro c hc
      rcases mem_cons.mp hc with rfl | hc
      · rw [hd]; rfl
      · exact hrest c hc
    · exact isWord_of_isExponent h

theorem isWord_of_isMagnitude (h : isMagnitude text = true) :
    ∀ c ∈ text, isWord c = true := by
  cases text with
  | nil => cases h
  | cons d text =>
    rw [isMagnitude] at h
    intro c hc
    split at h
    · rename_i hd
      rcases mem_cons.mp hc with rfl | hc
      · rw [hd]; rfl
      · exact isWord_of_isFraction h c hc
    · obtain ⟨hd, hrest⟩ := Bool.and_eq_true_iff.mp h
      rcases mem_cons.mp hc with rfl | hc
      · exact isWord_of_isDigit hd
      · exact isWord_of_dropDigits (isWord_of_isFraction hrest) c hc

theorem isWord_of_isLiteral (h : isLiteral text = true) :
    ∀ c ∈ text, isWord c = true := by
  simp only [isLiteral, Bool.or_eq_true, beq_iff_eq] at h
  rcases h with (rfl | rfl) | h
  · exact all_eq_true.mp rfl
  · exact all_eq_true.mp rfl
  · exact isWord_of_unsigned (all_eq_true.mp rfl) (isWord_of_isMagnitude h)

theorem isLiteral_ne_nil (h : isLiteral text = true) : text ≠ [] := by
  rintro rfl
  revert h
  decide

/-- `null` is not a literal, but a value of its own. -/
theorem isLiteral_ne_null (h : isLiteral text = true) :
    text ≠ "null".toList := by
  rintro rfl
  revert h
  decide

/-! ## 2. The reader -/

def isBlank (c : Char) : Bool := c == ' ' || c == '\t' || c == '\n' || c == '\r'

def skipBlanks (text : List Char) : List Char := text.dropWhile isBlank

def hexDigit (c : Char) : Option Nat :=
  if '0' ≤ c ∧ c ≤ '9' then some (c.toNat - '0'.toNat)
  else if 'a' ≤ c ∧ c ≤ 'f' then some (c.toNat - 'a'.toNat + 10)
  else if 'A' ≤ c ∧ c ≤ 'F' then some (c.toNat - 'A'.toNat + 10)
  else none

/-- The character of four hexadecimal digits, which is none for half of a surrogate pair. -/
def readUnit (a b c d : Char) : Option Char := do
  let a ← hexDigit a
  let b ← hexDigit b
  let c ← hexDigit c
  let d ← hexDigit d
  let unit := ((a * 16 + b) * 16 + c) * 16 + d
  if 0xd800 ≤ unit ∧ unit < 0xe000 then none else some (Char.ofNat unit)

/-- The character that an escape of two characters stands for. -/
def readEscape (c : Char) : Option Char :=
  if c = '"' ∨ c = '\\' ∨ c = '/' then some c
  else if c = 'b' then some '\x08'
  else if c = 'f' then some '\x0c'
  else if c = 'n' then some '\n'
  else if c = 'r' then some '\r'
  else if c = 't' then some '\t'
  else none

/-- A string after its first quote, and the text after its last. -/
def readString : List Char → Option (List Char × List Char)
  | '"' :: rest => some ([], rest)
  | '\\' :: 'u' :: a :: b :: c :: d :: rest => do
    let unit ← readUnit a b c d
    let (text, rest) ← readString rest
    some (unit :: text, rest)
  | '\\' :: e :: rest => do
    let c ← readEscape e
    let (text, rest) ← readString rest
    some (c :: text, rest)
  | c :: rest =>
    if c = '\\' ∨ c.toNat < 0x20 then none
    else do
      let (text, rest) ← readString rest
      some (c :: text, rest)
  | [] => none

theorem readString_escape {e c : Char} (hne : e ≠ 'u') (h : readEscape e = some c)
    (rest : List Char) :
    readString ('\\' :: e :: rest) = (readString rest).map fun s => (c :: s.1, s.2) := by
  rw [readString]
  · rw [h]
    cases readString rest <;> rfl
  · exact fun _ _ _ _ _ he _ => hne he

theorem readString_unit {a b c d unit : Char} (h : readUnit a b c d = some unit)
    (rest : List Char) :
    readString ('\\' :: 'u' :: a :: b :: c :: d :: rest) =
      (readString rest).map fun s => (unit :: s.1, s.2) := by
  rw [readString, h]
  cases readString rest <;> rfl

theorem readString_char {c : Char} (hquote : c ≠ '"') (hslash : c ≠ '\\')
    (hc : ¬ c.toNat < 0x20) (rest : List Char) :
    readString (c :: rest) = (readString rest).map fun s => (c :: s.1, s.2) := by
  rw [readString]
  · rw [if_neg (not_or.mpr ⟨hslash, hc⟩)]
    cases readString rest <;> rfl
  · exact hquote
  · exact fun _ _ _ _ _ h _ => hslash h
  · exact fun _ _ h _ => hslash h

/-- A word. -/
def readWord (text : List Char) : Option (Value × List Char) :=
  if text.takeWhile isWord == "null".toList then some (.null, text.dropWhile isWord)
  else if isLiteral (text.takeWhile isWord) then
    some (.literal (text.takeWhile isWord), text.dropWhile isWord)
  else none

/-- The name of a member, with its colon. -/
def readName (text : List Char) : Option (List Char × List Char) :=
  match skipBlanks text with
  | '"' :: rest => do
    let (name, rest) ← readString rest
    match skipBlanks rest with
    | ':' :: rest => some (name, rest)
    | _ => none
  | _ => none

def namesAllowed (unique : Bool) (names : List (List Char)) : Bool :=
  !unique || decide names.Nodup

mutual

/-- A value, and the text after it. -/
def readValue (unique : Bool) : Nat → List Char → Option (Value × List Char)
  | 0, _ => none
  | fuel + 1, text =>
    match skipBlanks text with
    | '"' :: rest => (readString rest).map fun s => (.string s.1, s.2)
    | '[' :: rest =>
      match skipBlanks rest with
      | ']' :: rest => some (.array [], rest)
      | _ => do
        let (item, rest) ← readValue unique fuel rest
        let (items, rest) ← readItems unique fuel rest
        some (.array (item :: items), rest)
    | '{' :: rest =>
      match skipBlanks rest with
      | '}' :: rest => some (.object [], rest)
      | _ => do
        let (name, rest) ← readName rest
        let (value, rest) ← readValue unique fuel rest
        let (members, rest) ← readMembers unique fuel rest
        if namesAllowed unique (name :: members.map Prod.fst) then
          some (.object ((name, value) :: members), rest)
        else none
    | text => readWord text

/-- The further items of an array. -/
def readItems (unique : Bool) : Nat → List Char → Option (List Value × List Char)
  | 0, _ => none
  | fuel + 1, text =>
    match skipBlanks text with
    | ']' :: rest => some ([], rest)
    | ',' :: rest => do
      let (item, rest) ← readValue unique fuel rest
      let (items, rest) ← readItems unique fuel rest
      some (item :: items, rest)
    | _ => none

/-- The further members of an object. -/
def readMembers (unique : Bool) :
    Nat → List Char → Option (List (List Char × Value) × List Char)
  | 0, _ => none
  | fuel + 1, text =>
    match skipBlanks text with
    | '}' :: rest => some ([], rest)
    | ',' :: rest => do
      let (name, rest) ← readName rest
      let (value, rest) ← readValue unique fuel rest
      let (members, rest) ← readMembers unique fuel rest
      some ((name, value) :: members, rest)
    | _ => none

end

/-- The value of a whole text.  Each call for a part of the text is one character further on, so
that the length of the text is fuel enough. -/
def read (unique : Bool) (text : List Char) : Option Value :=
  match readValue unique (text.length + 1) text with
  | some (value, rest) => if skipBlanks rest = [] then some value else none
  | none => none

/-! ## 3. Well-formed values

`wellFormed_of_read`: nothing but well-formed values are read, from any text. -/

mutual

/-- The literals of the value are literals of the format, and if `unique`, no object in it has two
members of one name. -/
def Value.wellFormed (unique : Bool) : Value → Bool
  | .null => true
  | .literal word => isLiteral word
  | .string _ => true
  | .array items => itemsWellFormed unique items
  | .object members =>
    namesAllowed unique (members.map Prod.fst) && membersWellFormed unique members

def itemsWellFormed (unique : Bool) : List Value → Bool
  | [] => true
  | item :: items => item.wellFormed unique && itemsWellFormed unique items

def membersWellFormed (unique : Bool) : List (List Char × Value) → Bool
  | [] => true
  | (_, value) :: members => value.wellFormed unique && membersWellFormed unique members

end

theorem readWord_wellFormed {unique : Bool} {text rest : List Char} {value : Value}
    (h : readWord text = some (value, rest)) : value.wellFormed unique = true := by
  rw [readWord] at h
  split at h
  · obtain ⟨rfl, -⟩ := Prod.mk.inj (Option.some.inj h)
    rfl
  · split at h
    · rename_i hword
      obtain ⟨rfl, -⟩ := Prod.mk.inj (Option.some.inj h)
      exact hword
    · cases h

/-- By induction on the fuel, for the three readers at once. -/
theorem readers_wellFormed (unique : Bool) (fuel : Nat) :
    (∀ text value rest, readValue unique fuel text = some (value, rest) →
      value.wellFormed unique = true) ∧
    (∀ text items rest, readItems unique fuel text = some (items, rest) →
      itemsWellFormed unique items = true) ∧
    ∀ text members rest, readMembers unique fuel text = some (members, rest) →
      membersWellFormed unique members = true := by
  induction fuel with
  | zero => exact ⟨fun _ _ _ h => (by cases h), fun _ _ _ h => (by cases h),
      fun _ _ _ h => (by cases h)⟩
  | succ fuel ih =>
    obtain ⟨ihvalue, ihitems, ihmembers⟩ := ih
    refine ⟨fun text value rest h => ?_, fun text items rest h => ?_, fun text members rest h => ?_⟩
    · rw [readValue] at h
      split at h
      · obtain ⟨s, -, hs⟩ := Option.map_eq_some_iff.mp h
        obtain ⟨rfl, -⟩ := Prod.mk.inj hs
        rfl
      · split at h
        · obtain ⟨rfl, -⟩ := Prod.mk.inj (Option.some.inj h)
          rfl
        · simp only [Option.bind_eq_bind, Option.bind_eq_some_iff, Prod.exists, Option.some.injEq,
            Prod.mk.injEq] at h
          obtain ⟨item, _, hitem, items, _, hitems, rfl, -⟩ := h
          exact Bool.and_eq_true_iff.mpr ⟨ihvalue _ _ _ hitem, ihitems _ _ _ hitems⟩
      · split at h
        · obtain ⟨rfl, -⟩ := Prod.mk.inj (Option.some.inj h)
          cases unique <;> rfl
        · simp only [Option.bind_eq_bind, Option.bind_eq_some_iff, Prod.exists] at h
          obtain ⟨name, _, -, value', _, hvalue, members, _, hmembers, h⟩ := h
          split at h
          · rename_i hnames
            obtain ⟨rfl, -⟩ := Prod.mk.inj (Option.some.inj h)
            exact Bool.and_eq_true_iff.mpr ⟨hnames,
              Bool.and_eq_true_iff.mpr ⟨ihvalue _ _ _ hvalue, ihmembers _ _ _ hmembers⟩⟩
          · cases h
      · exact readWord_wellFormed h
    · rw [readItems] at h
      split at h
      · obtain ⟨rfl, -⟩ := Prod.mk.inj (Option.some.inj h)
        rfl
      · simp only [Option.bind_eq_bind, Option.bind_eq_some_iff, Prod.exists, Option.some.injEq,
          Prod.mk.injEq] at h
        obtain ⟨item, _, hitem, items, _, hitems, rfl, -⟩ := h
        exact Bool.and_eq_true_iff.mpr ⟨ihvalue _ _ _ hitem, ihitems _ _ _ hitems⟩
      · cases h
    · rw [readMembers] at h
      split at h
      · obtain ⟨rfl, -⟩ := Prod.mk.inj (Option.some.inj h)
        rfl
      · simp only [Option.bind_eq_bind, Option.bind_eq_some_iff, Prod.exists, Option.some.injEq,
          Prod.mk.injEq] at h
        obtain ⟨name, _, -, value, _, hvalue, members, _, hmembers, rfl, -⟩ := h
        exact Bool.and_eq_true_iff.mpr ⟨ihvalue _ _ _ hvalue, ihmembers _ _ _ hmembers⟩
      · cases h

/-- **Nothing but well-formed values are read.** -/
theorem wellFormed_of_read {unique : Bool} {value : Value} (h : read unique text = some value) :
    value.wellFormed unique = true := by
  rw [read] at h
  split at h
  · rename_i hvalue
    split at h
    · obtain rfl := Option.some.inj h
      exact (readers_wellFormed unique _).1 _ _ _ hvalue
    · cases h
  · cases h

/-! ## 4. The text of a value

`read_text`: the reader gives back a well-formed value from its text. -/

section Text

variable (esc : List Char → List Char)

/-- A name or a string, in its quotes. -/
def quoted (text : List Char) : List Char := '"' :: (esc text ++ ['"'])

mutual

/-- The text of a value, without blanks. -/
def Value.text : Value → List Char
  | .null => "null".toList
  | .literal word => word
  | .string text => quoted esc text
  | .array [] => ['[', ']']
  | .array (item :: items) => '[' :: (item.text ++ itemsText items)
  | .object [] => ['{', '}']
  | .object ((name, value) :: members) =>
    '{' :: (quoted esc name ++ ':' :: (value.text ++ membersText members))

def itemsText : List Value → List Char
  | [] => [']']
  | item :: items => ',' :: (item.text ++ itemsText items)

def membersText : List (List Char × Value) → List Char
  | [] => ['}']
  | (name, value) :: members =>
    ',' :: (quoted esc name ++ ':' :: (value.text ++ membersText members))

end

/-- The reader undoes the escaping. -/
def Undone : Prop :=
  ∀ text rest, readString (esc text ++ '"' :: rest) = some (text, rest)

end Text

/-- A word ends here. -/
def Ends (rest : List Char) : Prop := ∀ c ∈ rest.head?, isWord c = false

section RoundTrip

variable {esc : List Char → List Char} {unique : Bool}

theorem skipBlanks_cons {c : Char} (h : isBlank c = false) (text : List Char) :
    skipBlanks (c :: text) = c :: text := by
  rw [skipBlanks, dropWhile_cons_of_neg (by simp [h])]

theorem isBlank_of_isWord {c : Char} (h : isWord c = true) : isBlank c = false := by
  rw [Bool.eq_false_iff]
  intro hblank
  simp only [isBlank, Bool.or_eq_true, beq_iff_eq] at hblank
  rcases hblank with ((rfl | rfl) | rfl) | rfl <;> revert h <;> decide

theorem ne_of_isWord {c d : Char} (h : isWord c = true) (hd : isWord d = false) : c ≠ d := by
  rintro rfl
  exact Bool.false_ne_true (hd.symm.trans h)

/-- The text of a value begins with a character that is not blank and does not close an array. -/
theorem text_first {value : Value} (h : value.wellFormed unique = true) :
    ∃ c text, value.text esc = c :: text ∧ isBlank c = false ∧ c ≠ ']' := by
  cases value with
  | null => exact ⟨_, _, rfl, rfl, by decide⟩
  | literal word =>
    have hliteral : isLiteral word = true := h
    cases word with
    | nil => exact absurd rfl (isLiteral_ne_nil hliteral)
    | cons c word =>
      have hc := isWord_of_isLiteral hliteral c mem_cons_self
      exact ⟨c, word, by rw [Value.text], isBlank_of_isWord hc, ne_of_isWord hc rfl⟩
  | string text => exact ⟨_, _, by rw [Value.text, quoted], rfl, by decide⟩
  | array items => cases items <;> exact ⟨_, _, by rw [Value.text], rfl, by decide⟩
  | object members =>
    cases members with
    | nil => exact ⟨_, _, by rw [Value.text], rfl, by decide⟩
    | cons member members =>
      obtain ⟨name, value⟩ := member
      exact ⟨_, _, by rw [Value.text], rfl, by decide⟩

theorem ends_items (items : List Value) (rest : List Char) : Ends (itemsText esc items ++ rest) := by
  cases items with
  | nil =>
    intro c hc
    rw [itemsText] at hc
    obtain rfl := Option.some.inj hc
    rfl
  | cons item items =>
    intro c hc
    rw [itemsText] at hc
    obtain rfl := Option.some.inj hc
    rfl

theorem ends_members (members : List (List Char × Value)) (rest : List Char) :
    Ends (membersText esc members ++ rest) := by
  cases members with
  | nil =>
    intro c hc
    rw [membersText] at hc
    obtain rfl := Option.some.inj hc
    rfl
  | cons member members =>
    intro c hc
    rw [membersText] at hc
    obtain rfl := Option.some.inj hc
    rfl

theorem takeWhile_word {word rest : List Char} (hword : ∀ c ∈ word, isWord c = true)
    (hrest : Ends rest) :
    (word ++ rest).takeWhile isWord = word ∧ (word ++ rest).dropWhile isWord = rest := by
  rw [takeWhile_append_of_pos hword, dropWhile_append_of_pos hword]
  cases rest with
  | nil => exact ⟨append_nil _, rfl⟩
  | cons c rest =>
    have hc : isWord c = false := hrest c rfl
    rw [takeWhile_cons_of_neg (by simp [hc]), dropWhile_cons_of_neg (by simp [hc])]
    exact ⟨append_nil _, rfl⟩

theorem readValue_word {word : List Char} (hne : word ≠ []) (hword : ∀ c ∈ word, isWord c = true)
    (fuel : Nat) (rest : List Char) :
    readValue unique (fuel + 1) (word ++ rest) = readWord (word ++ rest) := by
  cases word with
  | nil => exact absurd rfl hne
  | cons c word =>
    have hc := hword c mem_cons_self
    rw [cons_append, readValue, skipBlanks_cons (isBlank_of_isWord hc)]
    split
    · rename_i h
      exact absurd (List.cons.inj h).1 (ne_of_isWord hc rfl)
    · rename_i h
      exact absurd (List.cons.inj h).1 (ne_of_isWord hc rfl)
    · rename_i h
      exact absurd (List.cons.inj h).1 (ne_of_isWord hc rfl)
    · rfl

theorem readWord_null {rest : List Char} (hrest : Ends rest) :
    readWord ("null".toList ++ rest) = some (.null, rest) := by
  have hword : ∀ c ∈ "null".toList, isWord c = true := all_eq_true.mp rfl
  obtain ⟨htake, hdrop⟩ := takeWhile_word hword hrest
  rw [readWord, htake, hdrop]
  rfl

theorem readWord_literal {word rest : List Char} (hword : isLiteral word = true)
    (hrest : Ends rest) : readWord (word ++ rest) = some (.literal word, rest) := by
  obtain ⟨htake, hdrop⟩ := takeWhile_word (isWord_of_isLiteral hword) hrest
  rw [readWord, htake, hdrop, if_neg (by simpa using isLiteral_ne_null hword), if_pos hword]

theorem readName_quoted (hesc : Undone esc) (name rest : List Char) :
    readName (quoted esc name ++ ':' :: rest) = some (name, rest) := by
  rw [readName, quoted, cons_append, skipBlanks_cons rfl]
  have hstring : readString ((esc name ++ ['"']) ++ ':' :: rest) = some (name, ':' :: rest) := by
    rw [List.append_assoc]
    exact hesc name (':' :: rest)
  simp only [hstring, Option.bind_eq_bind, Option.bind_some]
  rw [skipBlanks_cons rfl]
  rfl

theorem readValue_quoted (hesc : Undone esc) (text rest : List Char) (fuel : Nat) :
    readValue unique (fuel + 1) (quoted esc text ++ rest) = some (.string text, rest) := by
  rw [readValue, quoted, List.cons_append, skipBlanks_cons rfl]
  have hstring : readString ((esc text ++ ['"']) ++ rest) = some (text, rest) := by
    rw [append_assoc]
    exact hesc text rest
  simp only [hstring, Option.map_some]

mutual

theorem readValue_text (hesc : Undone esc) : ∀ (value : Value) (fuel : Nat) (rest : List Char),
    value.wellFormed unique = true → (value.text esc).length ≤ fuel → Ends rest →
    readValue unique fuel (value.text esc ++ rest) = some (value, rest)
  | value, 0, _, h, hfuel, _ => by
    obtain ⟨c, text, htext, -⟩ := @text_first esc unique value h
    rw [htext] at hfuel
    exact absurd hfuel (Nat.not_succ_le_zero _)
  | .null, fuel + 1, rest, _, _, hrest => by
    rw [Value.text, readValue_word (by decide) (all_eq_true.mp rfl), readWord_null hrest]
  | .literal word, fuel + 1, rest, h, _, hrest => by
    have hword : isLiteral word = true := h
    rw [Value.text, readValue_word (isLiteral_ne_nil hword) (isWord_of_isLiteral hword),
      readWord_literal hword hrest]
  | .string text, fuel + 1, rest, _, _, _ => by
    rw [Value.text, readValue_quoted hesc]
  | .array [], fuel + 1, rest, _, _, _ => by
    rw [Value.text, readValue]
    rfl
  | .array (item :: items), fuel + 1, rest, h, hfuel, _ => by
    obtain ⟨hitem, hitems⟩ := Bool.and_eq_true_iff.mp h
    rw [Value.text, length_cons, length_append] at hfuel
    have hread := readValue_text hesc item fuel (itemsText esc items ++ rest) hitem (by omega)
      (ends_items items rest)
    have hreads := readItems_text hesc items fuel rest hitems (by omega)
    rw [Value.text, cons_append, append_assoc, readValue, skipBlanks_cons rfl]
    simp only [hread, hreads, Option.bind_eq_bind, Option.bind_some]
    -- the array is not empty, since its first item does not begin with its end
    obtain ⟨c, text, htext, hblank, hclose⟩ := @text_first esc unique item hitem
    rw [htext, cons_append, skipBlanks_cons hblank]
    split
    · rename_i hc
      exact absurd (List.cons.inj hc).1 hclose
    · rfl
  | .object [], fuel + 1, rest, _, _, _ => by
    rw [Value.text, readValue]
    rfl
  | .object ((name, value) :: members), fuel + 1, rest, h, hfuel, _ => by
    obtain ⟨hnames, hmembers⟩ := Bool.and_eq_true_iff.mp h
    obtain ⟨hvalue, hmembers⟩ := Bool.and_eq_true_iff.mp hmembers
    rw [Value.text, length_cons, length_append, length_cons,
      length_append] at hfuel
    have hread := readValue_text hesc value fuel (membersText esc members ++ rest) hvalue
      (by omega) (ends_members members rest)
    have hreads := readMembers_text hesc members fuel rest hmembers (by omega)
    have hname := readName_quoted hesc name (value.text esc ++ (membersText esc members ++ rest))
    rw [Value.text, cons_append, append_assoc, cons_append, append_assoc,
      readValue, skipBlanks_cons rfl]
    simp only [hname, hread, hreads, Option.bind_eq_bind, Option.bind_some]
    rw [quoted, cons_append, skipBlanks_cons rfl]
    exact if_pos hnames

theorem readItems_text (hesc : Undone esc) : ∀ (items : List Value) (fuel : Nat) (rest : List Char),
    itemsWellFormed unique items = true → (itemsText esc items).length ≤ fuel →
    readItems unique fuel (itemsText esc items ++ rest) = some (items, rest)
  | [], 0, _, _, hfuel => absurd hfuel (Nat.not_succ_le_zero _)
  | _ :: _, 0, _, _, hfuel => by
    rw [itemsText] at hfuel
    exact absurd hfuel (Nat.not_succ_le_zero _)
  | [], fuel + 1, rest, _, _ => by
    rw [itemsText, readItems]
    rfl
  | item :: items, fuel + 1, rest, h, hfuel => by
    obtain ⟨hitem, hitems⟩ := Bool.and_eq_true_iff.mp h
    rw [itemsText, length_cons, length_append] at hfuel
    have hread := readValue_text hesc item fuel (itemsText esc items ++ rest) hitem (by omega)
      (ends_items items rest)
    have hreads := readItems_text hesc items fuel rest hitems (by omega)
    rw [itemsText, cons_append, append_assoc, readItems, skipBlanks_cons rfl]
    simp only [hread, hreads, Option.bind_eq_bind, Option.bind_some]

theorem readMembers_text (hesc : Undone esc) :
    ∀ (members : List (List Char × Value)) (fuel : Nat) (rest : List Char),
    membersWellFormed unique members = true → (membersText esc members).length ≤ fuel →
    readMembers unique fuel (membersText esc members ++ rest) = some (members, rest)
  | [], 0, _, _, hfuel => absurd hfuel (Nat.not_succ_le_zero _)
  | _ :: _, 0, _, _, hfuel => by
    rw [membersText] at hfuel
    exact absurd hfuel (Nat.not_succ_le_zero _)
  | [], fuel + 1, rest, _, _ => by
    rw [membersText, readMembers]
    rfl
  | (name, value) :: members, fuel + 1, rest, h, hfuel => by
    obtain ⟨hvalue, hmembers⟩ := Bool.and_eq_true_iff.mp h
    rw [membersText, length_cons, length_append, length_cons,
      length_append] at hfuel
    have hread := readValue_text hesc value fuel (membersText esc members ++ rest) hvalue
      (by omega) (ends_members members rest)
    have hreads := readMembers_text hesc members fuel rest hmembers (by omega)
    have hname := readName_quoted hesc name (value.text esc ++ (membersText esc members ++ rest))
    rw [membersText, cons_append, append_assoc, cons_append, append_assoc,
      readMembers, skipBlanks_cons rfl]
    simp only [hname, hread, hreads, Option.bind_eq_bind, Option.bind_some]

end

/-- **The reader gives back a well-formed value from its text.** -/
theorem read_text (hesc : Undone esc) {value : Value} (h : value.wellFormed unique = true) :
    read unique (value.text esc) = some value := by
  have hvalue := readValue_text hesc value ((value.text esc).length + 1) [] h (Nat.le_succ _)
    (fun c hc => by cases hc)
  rw [append_nil] at hvalue
  rw [read, hvalue]
  exact if_pos rfl

end RoundTrip

/-! ## 5. Lines of values

`readLines_text`, `wellFormed_of_readLines`: the same of a text with one value on each line. -/

/-- The value of another line is added. -/
def addLine (unique : Bool) (values : List Value) (line : List Char) :
    Except Unit (List Value) :=
  match read unique line with
  | some value => .ok (values ++ [value])
  | none => .error ()

/-- The values of a text with one on each line.  The last line may be without its end. -/
def readLines (unique : Bool) (text : List Char) : Option (List Value) :=
  match Lines.readPiece '\n' (addLine unique) ([], []) text with
  | .ok (values, []) => some values
  | .ok (values, line) => (addLine unique values line).toOption
  | .error _ => none

section Lines

variable {esc : List Char → List Char} {unique : Bool}

theorem newline_notMem_quoted (hesc : ∀ text, '\n' ∉ esc text) (text : List Char) :
    '\n' ∉ quoted esc text := by
  intro hmem
  rcases mem_cons.mp hmem with h | h
  · exact absurd h (by decide)
  · rcases mem_append.mp h with h | h
    · exact hesc _ h
    · exact absurd (mem_singleton.mp h) (by decide)

theorem newline_notMem_literal {word : List Char} (h : isLiteral word = true) : '\n' ∉ word :=
  fun hmem => absurd (isWord_of_isLiteral h _ hmem) (by decide)

mutual

theorem newline_notMem_text (hesc : ∀ text, '\n' ∉ esc text) :
    ∀ value : Value, value.wellFormed unique = true → '\n' ∉ value.text esc
  | .null, _ => by
    rw [Value.text]
    decide
  | .literal word, h => by
    rw [Value.text]
    exact newline_notMem_literal h
  | .string text, _ => by
    rw [Value.text]
    exact newline_notMem_quoted hesc text
  | .array [], _ => by
    rw [Value.text]
    decide
  | .array (item :: items), h => by
    obtain ⟨hitem, hitems⟩ := Bool.and_eq_true_iff.mp h
    have h₁ := newline_notMem_text hesc item hitem
    have h₂ := newline_notMem_items hesc items hitems
    rw [Value.text]
    simp [h₁, h₂]
  | .object [], _ => by
    rw [Value.text]
    decide
  | .object ((name, value) :: members), h => by
    obtain ⟨-, hmembers⟩ := Bool.and_eq_true_iff.mp h
    obtain ⟨hvalue, hmembers⟩ := Bool.and_eq_true_iff.mp hmembers
    have h₁ := newline_notMem_text hesc value hvalue
    have h₂ := newline_notMem_members hesc members hmembers
    have h₃ := newline_notMem_quoted hesc name
    rw [Value.text]
    simp [h₁, h₂, h₃]

theorem newline_notMem_items (hesc : ∀ text, '\n' ∉ esc text) :
    ∀ items : List Value, itemsWellFormed unique items = true → '\n' ∉ itemsText esc items
  | [], _ => by
    rw [itemsText]
    decide
  | item :: items, h => by
    obtain ⟨hitem, hitems⟩ := Bool.and_eq_true_iff.mp h
    have h₁ := newline_notMem_text hesc item hitem
    have h₂ := newline_notMem_items hesc items hitems
    rw [itemsText]
    simp [h₁, h₂]

theorem newline_notMem_members (hesc : ∀ text, '\n' ∉ esc text) :
    ∀ members : List (List Char × Value), membersWellFormed unique members = true →
      '\n' ∉ membersText esc members
  | [], _ => by
    rw [membersText]
    decide
  | (name, value) :: members, h => by
    obtain ⟨hvalue, hmembers⟩ := Bool.and_eq_true_iff.mp h
    have h₁ := newline_notMem_text hesc value hvalue
    have h₂ := newline_notMem_members hesc members hmembers
    have h₃ := newline_notMem_quoted hesc name
    rw [membersText]
    simp [h₁, h₂, h₃]

end

variable {values : List Value}

theorem addLines_text (hesc : Undone esc) (before : List Value)
    (h : ∀ value ∈ values, value.wellFormed unique = true) :
    (values.map (Value.text esc)).foldlM (addLine unique) before = .ok (before ++ values) := by
  induction values generalizing before with
  | nil => rw [append_nil]; rfl
  | cons value values ih =>
    have hline : addLine unique before (value.text esc) = .ok (before ++ [value]) := by
      rw [addLine, read_text hesc (h value mem_cons_self)]
    rw [map_cons, foldlM_cons, hline]
    have hrest := ih (before ++ [value]) fun v hv => h v (mem_cons_of_mem _ hv)
    rw [append_assoc] at hrest
    exact hrest

/-- **Well-formed values are given back from their lines.** -/
theorem readLines_text (hesc : Undone esc) (hline : ∀ text, '\n' ∉ esc text)
    (h : ∀ value ∈ values, value.wellFormed unique = true) :
    readLines unique (Lines.stream '\n' (values.map (Value.text esc))) = some values := by
  have hlines : ∀ line ∈ values.map (Value.text esc), '\n' ∉ line := by
    intro line hmem
    obtain ⟨value, hvalue, rfl⟩ := mem_map.mp hmem
    exact newline_notMem_text hline value (h value hvalue)
  rw [readLines, Lines.readPiece_lines _ hlines, addLines_text hesc [] h]
  rfl

theorem addLine_wellFormed {values after : List Value} {line : List Char}
    (hvalues : ∀ value ∈ values, value.wellFormed unique = true)
    (h : addLine unique values line = .ok after) :
    ∀ value ∈ after, value.wellFormed unique = true := by
  rw [addLine] at h
  split at h
  · rename_i value hread
    cases h
    intro v hv
    rcases mem_append.mp hv with hv | hv
    · exact hvalues v hv
    · rw [mem_singleton.mp hv]
      exact wellFormed_of_read hread
  · cases h

theorem readPiece_wellFormed {s t : List Value × List Char} {text : List Char}
    (hs : ∀ value ∈ s.1, value.wellFormed unique = true)
    (h : Lines.readPiece '\n' (addLine unique) s text = .ok t) :
    ∀ value ∈ t.1, value.wellFormed unique = true := by
  induction text generalizing s with
  | nil =>
    cases h
    exact hs
  | cons c text ih =>
    rw [Lines.readPiece, foldlM_cons, Lines.readItem] at h
    split at h
    · cases hline : addLine unique s.1 s.2 with
      | error e =>
        rw [hline] at h
        cases h
      | ok after =>
        rw [hline] at h
        exact @ih (after, []) (addLine_wellFormed hs hline) h
    · exact @ih (s.1, s.2 ++ [c]) hs h

/-- **Nothing but well-formed values are read from lines.** -/
theorem wellFormed_of_readLines {text : List Char} (h : readLines unique text = some values) :
    ∀ value ∈ values, value.wellFormed unique = true := by
  rw [readLines] at h
  split at h
  · rename_i hread
    obtain rfl := Option.some.inj h
    exact readPiece_wellFormed (fun _ hv => absurd hv not_mem_nil) hread
  · rename_i before line _ hread
    have hbefore := readPiece_wellFormed (fun _ hv => absurd hv not_mem_nil) hread
    cases hline : addLine unique before line with
    | error e =>
      rw [hline] at h
      cases h
    | ok after =>
      rw [hline] at h
      obtain rfl := Option.some.inj h
      exact addLine_wellFormed hbefore hline
  · cases h

end Lines

end Lib.Json

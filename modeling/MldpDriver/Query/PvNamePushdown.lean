/-
# Pushing PV-name patterns down

A name that satisfies a pattern here should match the expression that is sent for it.  The local
matcher counts bytes and the expression counts characters: `_` stands for one byte here and for one
character there.  So a name is kept when it is ASCII, or when no two `_` of the pattern stand
between two literal characters (`keeps_of_clear`).
-/
import MldpDriver.Query.MLDPQueryClient
import MldpDriver.Query.PvNameRegex

namespace MldpDriver.Query.PvName

open Lib.Utf8 List
open Lib.Wildcards

/-! ## 1. Patterns over bytes -/

/-- What a token stands for in the local matcher. -/
def NameToken.byteWildcard : NameToken UInt8 → Wildcard UInt8
  | .literal c => some (equalIgnoreCase c)
  | .any => none
  | .single => some fun _ => true

theorem patternOf_likeTokens : ∀ pattern : List UInt8,
    patternOf (likeTokens pattern) = (nameTokens byteOf pattern).map NameToken.byteWildcard := by
  have hplain : ∀ c : UInt8,
      (likeTokens.plain c).wildcard = (nameToken byteOf c).byteWildcard := by
    intro c
    rw [likeTokens.plain, nameToken, show byteOf '%' = 37 from rfl, show byteOf '*' = 42 from rfl,
      show byteOf '_' = 95 from rfl]
    split
    · rfl
    · split <;> rfl
  intro pattern
  induction pattern using likeTokens.induct with
  | case1 => rfl
  | case2 c => exact congrArg (fun w => [w]) (hplain c)
  | case3 d rest ih =>
    have htokens : nameTokens byteOf (92 :: d :: rest) = .literal d :: nameTokens byteOf rest :=
      nameTokens_escape byteOf d rest
    rw [likeTokens_escape, htokens, map_cons, ← ih]
    rfl
  | case4 c d rest hc ih =>
    rw [likeTokens_plain hc, nameTokens_plain byteOf hc, map_cons, ← ih, ← hplain]
    rfl

/-- The local matcher's pattern, token by token of the characters. -/
def bytePattern (tokens : List (NameToken Char)) : List (Wildcard UInt8) :=
  (tokens.flatMap NameToken.bytes).map NameToken.byteWildcard

theorem bytePattern_cons (token : NameToken Char) (tokens : List (NameToken Char)) :
    bytePattern (token :: tokens) =
      token.bytes.map NameToken.byteWildcard ++ bytePattern tokens := by
  rw [bytePattern, flatMap_cons, map_append]
  rfl

theorem bytes_eq (s : String) : bytes s = utf8 s.toList := toByteArray_toList s

/-- **The local meaning of LIKE**, over the bytes of the name. -/
theorem like_iff (name pattern : String) :
    compareString name pattern .LIKE = true ↔
      Accepts (bytePattern (nameTokens id pattern.toList)) (utf8 name.toList) := by
  rw [compareString, matchesLikePattern_iff, ← accepts_likeTokens_iff, bytes_eq, bytes_eq,
    patternOf_likeTokens, nameTokens_utf8, bytePattern]

/-! ### Case -/

theorem byte_toLower_wide {b : UInt8} (h : 128 ≤ b.toNat) : toLower b = b := by
  rw [← UInt8.toNat_inj, toNat_toLower, if_neg]
  omega

theorem char_toLower_wide {c : Char} (h : 128 ≤ c.toNat) : c.toLower = c := by
  refine dif_neg fun ⟨_, hz⟩ => ?_
  have hle : c.toNat ≤ 90 := UInt32.le_iff_toNat_le.mp hz
  omega

theorem encode_toLower (c : Char) : (encode c).map toLower = encode c.toLower := by
  by_cases hc : c.toNat < 128
  · have hall : ∀ n < 128, (encode (Char.ofNat n)).map toLower = encode (Char.ofNat n).toLower := by
      decide +kernel
    have hn := hall c.toNat hc
    rwa [Char.ofNat_toNat] at hn
  · rw [Nat.not_lt] at hc
    rw [char_toLower_wide hc]
    exact (map_congr_left fun b hb => byte_toLower_wide ((encode_wide hc).2 b hb)).trans
      (map_id _)

theorem utf8_toLower (text : List Char) :
    (utf8 text).map toLower = utf8 (text.map Char.toLower) := by
  induction text with
  | nil => rfl
  | cons c text ih => rw [utf8_cons, map_append, encode_toLower, ih, map_cons, utf8_cons]

theorem length_encode_toLower (c : Char) : (encode c.toLower).length = (encode c).length := by
  rw [← encode_toLower, length_map]

theorem length_utf8_toLower (text : List Char) :
    (utf8 (text.map Char.toLower)).length = (utf8 text).length := by
  rw [← utf8_toLower, length_map]

/-- **A literal is found where its character stands**, in one of the two cases. -/
theorem split_literal {c : Char} {name : List Char} {before literal after : List UInt8}
    (hliteral : literal.map toLower = (encode c).map toLower)
    (h : utf8 name = before ++ (literal ++ after)) :
    ∃ front d back, name = front ++ d :: back ∧ before = utf8 front ∧ after = utf8 back ∧
      c.toLower = d.toLower := by
  have hlower : utf8 (name.map Char.toLower) =
      before.map toLower ++ (encode c.toLower ++ after.map toLower) := by
    rw [← utf8_toLower, h, map_append, map_append, hliteral, encode_toLower]
  obtain ⟨front', back', hname, hbefore, -⟩ := utf8_split hlower
  obtain ⟨front, rest, rfl, rfl, hrest⟩ := map_eq_append_iff.mp hname
  obtain ⟨d, back, rfl, hd, rfl⟩ := map_eq_cons_iff.mp hrest
  have hfront : before.length = (utf8 front).length := by
    rw [← length_utf8_toLower, ← hbefore, length_map]
  have hsize : literal.length = (encode d).length := by
    rw [← length_encode_toLower d, hd, length_encode_toLower c, ← length_map toLower,
      hliteral, length_map]
  rw [utf8_append, utf8_cons] at h
  obtain ⟨hleft, hright⟩ := append_inj h hfront.symm
  obtain ⟨-, hafter⟩ := append_inj hright hsize.symm
  exact ⟨front, d, back, rfl, hleft.symm, hafter.symm, hd.symm⟩

theorem accepts_literal_iff {c : Char} {pattern : List (Wildcard UInt8)} {text : List UInt8} :
    Accepts ((encode c).map (fun b => some (equalIgnoreCase b)) ++ pattern) text ↔
      ∃ literal rest, text = literal ++ rest ∧ literal.map toLower = (encode c).map toLower ∧
        Accepts pattern rest := by
  generalize encode c = bs
  induction bs generalizing text with
  | nil =>
    constructor
    · exact fun h => ⟨[], text, rfl, rfl, h⟩
    · rintro ⟨literal, rest, rfl, hliteral, h⟩
      rw [map_eq_nil_iff.mp hliteral]
      exact h
  | cons b bs ih =>
    constructor
    · intro h
      cases h with
      | @one _ x _ text hx h =>
        obtain ⟨literal, rest, rfl, hliteral, h⟩ := ih.mp h
        refine ⟨x :: literal, rest, rfl, ?_, h⟩
        rw [map_cons, map_cons, hliteral, eq_of_beq hx]
    · rintro ⟨literal, rest, rfl, hliteral, h⟩
      cases literal with
      | nil => exact nomatch hliteral
      | cons x literal =>
        obtain ⟨hx, hmore⟩ := List.cons.inj hliteral
        exact .one (beq_iff_eq.mpr hx.symm) (ih.mpr ⟨literal, rest, rfl, hmore, h⟩)

/-! ## 2. Counting -/

/-- `taken` elements for `singles` wildcards of one element, or at least that many after a wildcard
for any sequence. -/
def Fits (any : Bool) (singles taken : Nat) : Prop :=
  if any then singles ≤ taken else taken = singles

def AsciiText (text : List Char) : Prop := ∀ c ∈ text, c.toNat < 128

theorem length_utf8_ascii {text : List Char} (h : AsciiText text) :
    (utf8 text).length = text.length := by
  induction text with
  | nil => rfl
  | cons c text ih =>
    have hc := h c mem_cons_self
    rw [utf8_cons, length_append, encode_ascii hc,
      ih fun d hd => h d (mem_cons_of_mem _ hd)]
    exact Nat.add_comm 1 text.length

/-- **One byte is one character**; more than one may be fewer. -/
theorem Fits.characters {any : Bool} {singles : Nat} {text : List Char}
    (h : Fits any singles (utf8 text).length) (hsingles : singles ≤ 1 ∨ AsciiText text) :
    Fits any singles text.length := by
  rcases hsingles with hsingles | hascii
  · have hle := length_le_utf8 text
    have hzero : text.length = 0 → (utf8 text).length = 0 := by
      intro hnil
      rw [length_eq_zero_iff.mp hnil]
      rfl
    cases any with
    | true =>
      have h : singles ≤ (utf8 text).length := h
      show singles ≤ text.length
      omega
    | false =>
      have h : (utf8 text).length = singles := h
      show text.length = singles
      omega
  · rwa [← length_utf8_ascii hascii]

/-- No two `_` stand between two literal characters; `singles` have been seen since the last. -/
def onePerGap : Nat → List (NameToken Char) → Bool
  | singles, [] => decide (singles ≤ 1)
  | singles, .any :: tokens => onePerGap singles tokens
  | singles, .single :: tokens => onePerGap (singles + 1) tokens
  | singles, .literal _ :: tokens => decide (singles ≤ 1) && onePerGap 0 tokens

variable {tokens : List (NameToken Char)}

theorem onePerGap_le {singles : Nat} (h : onePerGap singles tokens = true) : singles ≤ 1 := by
  induction tokens generalizing singles with
  | nil => exact of_decide_eq_true h
  | cons token tokens ih =>
    cases token with
    | any => exact ih h
    | single => exact Nat.le_of_succ_le (ih h)
    | literal c => exact of_decide_eq_true (Bool.and_eq_true_iff.mp h).1

/-! ## 3. From bytes to characters -/

/-- **What the bytes satisfy the characters satisfy.**  `taken` has been taken since the last
literal. -/
theorem accepts_characters {name : List Char} (hname : ∀ c ∈ name, dot c = true) {any : Bool}
    {singles : Nat} (hgap : onePerGap singles tokens = true ∨ AsciiText name)
    {taken rest : List UInt8} (hparts : utf8 name = taken ++ rest)
    (hfits : Fits any singles taken.length) (h : Accepts (bytePattern tokens) rest) :
    ∃ front back, name = front ++ back ∧ Fits any singles front.length ∧
      Accepts (tokens.map (NameToken.wildcard true)) back := by
  induction tokens generalizing name any singles taken rest with
  | nil =>
    obtain rfl := accepts_nil_iff.mp h
    rw [append_nil] at hparts
    rw [← hparts] at hfits
    exact ⟨name, [], (append_nil _).symm,
      hfits.characters (hgap.imp_left onePerGap_le), .nil⟩
  | cons token tokens ih =>
    rw [bytePattern_cons] at h
    cases token with
    | any =>
      obtain ⟨more, rest, rfl, hmore⟩ := accepts_any_iff.mp h
      have hfits' : Fits true singles (taken ++ more).length := by
        have hle : singles ≤ taken.length := by
          cases any with
          | true => exact hfits
          | false => exact Nat.le_of_eq hfits.symm
        exact Nat.le_trans hle (by simp)
      rw [← append_assoc] at hparts
      obtain ⟨front, back, rfl, hfront, hback⟩ := ih hname hgap hparts hfits' hmore
      have hfront : singles ≤ front.length := hfront
      refine ⟨front.take singles, front.drop singles ++ back, ?_, ?_, ?_⟩
      · rw [← append_assoc, take_append_drop]
      · rw [length_take_of_le hfront]
        cases any with
        | true => exact Nat.le_refl singles
        | false => rfl
      · exact accepts_any_iff.mpr ⟨_, _, rfl, hback⟩
    | single =>
      cases h with
      | @one _ b _ rest _ h =>
        have hfits' : Fits any (singles + 1) (taken ++ [b]).length := by
          rw [length_append, length_singleton]
          cases any with
          | true => exact Nat.succ_le_succ hfits
          | false => exact congrArg (· + 1) hfits
        have hparts' : utf8 name = (taken ++ [b]) ++ rest := by
          rw [hparts, append_assoc]
          rfl
        obtain ⟨front, back, rfl, hfront, h⟩ := ih hname hgap hparts' hfits' h
        have hne : front ≠ [] := by
          rintro rfl
          cases any <;> exact absurd hfront (by simp [Fits])
        refine ⟨front.dropLast, front.getLast hne :: back, ?_, ?_, ?_⟩
        · rw [← singleton_append, ← append_assoc, dropLast_append_getLast]
        · rw [length_dropLast]
          cases any with
          | true => exact Nat.le_sub_of_add_le hfront
          | false =>
            have hfront : front.length = singles + 1 := hfront
            show front.length - 1 = singles
            omega
        · exact .one (hname _ (mem_append_left _ (getLast_mem hne))) h
    | literal c =>
      rw [NameToken.bytes, map_map] at h
      obtain ⟨literal, rest, rfl, hliteral, h⟩ := accepts_literal_iff.mp h
      obtain ⟨front, d, back, rfl, rfl, rfl, hd⟩ := split_literal hliteral hparts
      have hfront : singles ≤ 1 ∨ AsciiText front := by
        refine hgap.imp onePerGap_le fun hascii x hx => hascii x (mem_append_left _ hx)
      have hback : ∀ {p : Char → Prop}, (∀ x ∈ front ++ d :: back, p x) → ∀ x ∈ back, p x :=
        fun hp x hx => hp x (mem_append_right _ (mem_cons_of_mem _ hx))
      have hrest : onePerGap 0 tokens = true ∨ AsciiText back :=
        hgap.imp (fun h => (Bool.and_eq_true_iff.mp h).2) hback
      have hnothing : Fits false 0 ([] : List UInt8).length := rfl
      obtain ⟨none', back', hparts', hnone, h⟩ := ih (hback hname) hrest rfl hnothing h
      obtain rfl := length_eq_zero_iff.mp hnone
      obtain rfl : back = back' := hparts'
      exact ⟨front, d :: back, rfl, hfits.characters hfront, .one (by simpa [sameCharacter]) h⟩

/-! ## 4. One predicate -/

/-- The name has no line break. -/
def NoBreaks (name : String) : Prop := ∀ c ∈ name.toList, dot c = true

/-- A name that satisfies the predicate matches the expression that is sent. -/
def Keeps (op : PatternOp) (pattern name : String) : Prop :=
  compareString name pattern op.toOp = true →
    backendMatches (pvNameRegex byteOf op.toOp (bytes pattern)) name

/-- A LIKE pattern has no two `_` between two literal characters.  Two of them may take the two
bytes of one character, for which the backend has only one. -/
def Clear (op : PatternOp) (pattern : String) : Prop :=
  op = .LIKE → onePerGap 0 (nameTokens id pattern.toList) = true

theorem accepts_literals (text : List Char) {pattern : List (Wildcard Char)} {rest : List Char}
    (h : Accepts pattern rest) :
    Accepts ((text.map NameToken.literal).map (NameToken.wildcard false) ++ pattern)
      (text ++ rest) := by
  induction text with
  | nil => exact h
  | cons c text ih => exact .one (by simp [sameCharacter]) ih

theorem accepts_any (text : List Char) : Accepts [none] text := by
  refine accepts_any_iff.mpr ⟨text, [], (append_nil text).symm, .nil⟩

theorem utf8_infix {part name : List Char} (h : utf8 part <:+: utf8 name) :
    ∃ front back, name = front ++ (part ++ back) := by
  obtain ⟨before, after, h⟩ := h
  cases part with
  | nil => exact ⟨[], name, rfl⟩
  | cons c part =>
    have hsplit : utf8 name = before ++ (encode c ++ (utf8 part ++ after)) := by
      rw [← h, utf8_cons]
      simp only [append_assoc]
    obtain ⟨front, rest, rfl, -, hrest⟩ := utf8_split hsplit
    obtain ⟨back, rfl, -⟩ := utf8_append_eq hrest
    exact ⟨front, back, rfl⟩

/-- **A clear pattern is kept, and so is an ASCII name.** -/
theorem keeps_of_clear {op : PatternOp} {pattern name : String} (hname : NoBreaks name)
    (h : Clear op pattern ∨ AsciiText name.toList) : Keeps op pattern name := by
  intro hlocal
  rw [bytes_eq, backendMatches_iff _ _ _ hname]
  cases op with
  | PREFIX =>
    obtain ⟨rest, hrest⟩ : utf8 pattern.toList <+: utf8 name.toList := by
      simpa [compareString, PatternOp.toOp, bytes_eq] using hlocal
    obtain ⟨more, hmore, -⟩ := utf8_append_eq hrest
    rw [hmore, PatternOp.toOp, opTokens, map_append]
    exact accepts_literals pattern.toList (accepts_any more)
  | CONTAINS =>
    have hinfix : utf8 pattern.toList <:+: utf8 name.toList := by
      simpa [compareString, PatternOp.toOp, bytes_eq] using hlocal
    obtain ⟨front, back, hparts⟩ := utf8_infix hinfix
    rw [hparts, PatternOp.toOp, opTokens, map_cons, map_append]
    exact accepts_any_iff.mpr ⟨front, _, rfl, accepts_literals pattern.toList (accepts_any back)⟩
  | LIKE =>
    have haccepts := (like_iff name pattern).mp hlocal
    have hnothing : Fits false 0 ([] : List UInt8).length := rfl
    obtain ⟨front, back, hparts, hfront, hback⟩ :=
      accepts_characters hname (h.imp_left fun hclear => hclear rfl) rfl hnothing haccepts
    obtain rfl := length_eq_zero_iff.mp hfront
    rw [hparts]
    exact hback

/-! ## 5. Names that are lost -/

/-- The pattern needs more characters than the name has. -/
theorem lost {pattern name : String} (hname : NoBreaks name)
    (hlocal : Accepts (bytePattern (nameTokens id pattern.toList)) (utf8 name.toList))
    (hshort : name.toList.length <
      needs ((nameTokens id pattern.toList).map (NameToken.wildcard true))) :
    ¬ Keeps .LIKE pattern name := by
  intro h
  have hmatch := h ((like_iff name pattern).mpr hlocal)
  rw [bytes_eq, backendMatches_iff _ _ _ hname] at hmatch
  exact absurd hmatch.needs_le (Nat.not_le.mpr hshort)

theorem needs_cons (w : Wildcard Char) (pattern : List (Wildcard Char)) :
    needs (w :: pattern) = needs pattern + if w.isSome then 1 else 0 := countP_cons

theorem accepts_own_bytes (c : Char) {pattern : List (Wildcard UInt8)} {rest : List UInt8}
    (h : Accepts pattern rest) :
    Accepts ((NameToken.literal c).bytes.map NameToken.byteWildcard ++ pattern)
      (encode c ++ rest) := by
  rw [NameToken.bytes, map_map]
  exact accepts_literal_iff.mpr ⟨encode c, rest, rfl, rfl, h⟩

/-- The literal characters of a pattern are no line breaks. -/
def LiteralsDot (tokens : List (NameToken Char)) : Prop :=
  ∀ c, NameToken.literal c ∈ tokens → dot c = true

theorem LiteralsDot.tail {token : NameToken Char} (h : LiteralsDot (token :: tokens)) :
    LiteralsDot tokens := fun c hc =>
  h c (mem_cons_of_mem _ hc)

/-- A name for a pattern: its literals, and `x` for each `_`. -/
theorem exists_name (h : LiteralsDot tokens) :
    ∃ name : List Char, (∀ c ∈ name, dot c = true) ∧ Accepts (bytePattern tokens) (utf8 name) ∧
      name.length = needs (tokens.map (NameToken.wildcard true)) := by
  induction tokens with
  | nil => exact ⟨[], by simp, .nil, rfl⟩
  | cons token tokens ih =>
    obtain ⟨name, hname, haccepts, hlength⟩ := ih h.tail
    rw [bytePattern_cons, map_cons, needs_cons, ← hlength]
    cases token with
    | any => exact ⟨name, hname, .leave haccepts, rfl⟩
    | single =>
      exact ⟨'x' :: name, forall_mem_cons.mpr ⟨by decide, hname⟩, .one rfl haccepts, rfl⟩
    | literal c =>
      exact ⟨c :: name, forall_mem_cons.mpr ⟨h c mem_cons_self, hname⟩,
        accepts_own_bytes c haccepts, rfl⟩

/-- **A name that is lost**: two `_` in one gap take the two bytes of one character.  With a `_`
pending, the name begins with the byte for it. -/
theorem exists_short (hdot : LiteralsDot tokens) :
    (onePerGap 0 tokens = false → ∃ name : List Char, (∀ c ∈ name, dot c = true) ∧
        Accepts (bytePattern tokens) (utf8 name) ∧
        name.length < needs (tokens.map (NameToken.wildcard true))) ∧
      (onePerGap 1 tokens = false → ∃ name : List Char, (∀ c ∈ name, dot c = true) ∧
        Accepts (some (fun _ => true) :: bytePattern tokens) (utf8 name) ∧
        name.length < needs (tokens.map (NameToken.wildcard true)) + 1) := by
  induction tokens with
  | nil => exact ⟨fun h => absurd h (by decide), fun h => absurd h (by decide)⟩
  | cons token tokens ih =>
    obtain ⟨hzero, hone⟩ := ih hdot.tail
    rw [bytePattern_cons, map_cons, needs_cons]
    cases token with
    | any =>
      constructor
      · intro h
        obtain ⟨name, hname, haccepts, hlength⟩ := hzero h
        exact ⟨name, hname, .leave haccepts, hlength⟩
      · intro h
        obtain ⟨name, hname, haccepts, hlength⟩ := hone h
        refine ⟨name, hname, ?_, hlength⟩
        generalize utf8 name = text at haccepts
        cases haccepts with
        | one hb haccepts => exact .one hb (.leave haccepts)
    | single =>
      refine ⟨fun h => hone h, fun _ => ?_⟩
      obtain ⟨name, hname, haccepts, hlength⟩ := exists_name hdot.tail
      have hbytes : utf8 ('é' :: name) = 195 :: 169 :: utf8 name := rfl
      refine ⟨'é' :: name, forall_mem_cons.mpr ⟨by decide, hname⟩, ?_, ?_⟩
      · rw [hbytes]
        exact .one rfl (.one rfl haccepts)
      · rw [length_cons, hlength]
        exact Nat.lt_succ_self _
    | literal c =>
      have hc := hdot c mem_cons_self
      constructor
      · intro h
        obtain ⟨name, hname, haccepts, hlength⟩ := hzero h
        exact ⟨c :: name, forall_mem_cons.mpr ⟨hc, hname⟩, accepts_own_bytes c haccepts,
          Nat.succ_lt_succ hlength⟩
      · intro h
        obtain ⟨name, hname, haccepts, hlength⟩ := hzero h
        refine ⟨'x' :: c :: name,
          forall_mem_cons.mpr ⟨by decide, forall_mem_cons.mpr ⟨hc, hname⟩⟩,
          .one rfl (accepts_own_bytes c haccepts), ?_⟩
        exact Nat.succ_lt_succ (Nat.succ_lt_succ hlength)

theorem literal_mem {tokens : List Char} {c : Char}
    (h : NameToken.literal c ∈ nameTokens id tokens) : c ∈ tokens := by
  have hplain : ∀ d : Char, NameToken.literal c = nameToken id d → c = d := by
    intro d hd
    rw [nameToken] at hd
    split at hd
    · cases hd
    · split at hd
      · cases hd
      · exact NameToken.literal.inj hd
  induction tokens using nameTokens.induct id with
  | case1 => exact absurd h not_mem_nil
  | case2 d => exact mem_singleton.mpr (hplain d (mem_singleton.mp h))
  | case3 d rest ih =>
    rw [show nameTokens id (id '\\' :: d :: rest) = .literal d :: nameTokens id rest from
      nameTokens_escape id d rest] at h
    rcases mem_cons.mp h with h | h
    · rw [NameToken.literal.inj h]
      exact mem_cons_of_mem _ mem_cons_self
    · exact mem_cons_of_mem _ (mem_cons_of_mem _ (ih h))
  | case4 d e rest hd ih =>
    rw [nameTokens_plain id hd] at h
    rcases mem_cons.mp h with h | h
    · rw [hplain d h]
      exact mem_cons_self
    · exact mem_cons_of_mem _ (ih h)

/-- **Exactly the clear patterns keep every name.** -/
theorem keeps_names_iff (op : PatternOp) {pattern : String} (hpattern : NoBreaks pattern) :
    (∀ name, NoBreaks name → Keeps op pattern name) ↔ Clear op pattern := by
  constructor
  · rintro h rfl
    by_contra hgap
    rw [Bool.not_eq_true] at hgap
    have hdot : LiteralsDot (nameTokens id pattern.toList) := fun c hc =>
      hpattern c (literal_mem hc)
    obtain ⟨name, hname, haccepts, hlength⟩ := (exists_short hdot).1 hgap
    have hkeeps := h (String.ofList name)
    rw [NoBreaks, String.toList_ofList] at hkeeps
    refine @lost pattern (String.ofList name) ?_ ?_ ?_ (hkeeps hname)
    · rwa [NoBreaks, String.toList_ofList]
    · rwa [String.toList_ofList]
    · rwa [String.toList_ofList]
  · exact fun h name hname => keeps_of_clear hname (.inl h)

/-- As many `_` as the name has bytes. -/
theorem nameTokens_underscores (n : Nat) :
    nameTokens id (List.replicate n '_') = List.replicate n .single := by
  induction n with
  | zero => rfl
  | succ n ih =>
    rw [replicate_succ, nameTokens_plain id (by decide), ih]
    rfl

theorem accepts_underscores (text : List UInt8) :
    Accepts (bytePattern (List.replicate text.length .single)) text := by
  induction text with
  | nil => exact .nil
  | cons b text ih =>
    rw [length_cons, replicate_succ, bytePattern_cons]
    exact .one rfl ih

theorem needs_underscores (n : Nat) :
    needs ((List.replicate n NameToken.single).map (NameToken.wildcard true)) = n := by
  induction n with
  | zero => rfl
  | succ n ih =>
    rw [replicate_succ, map_cons, needs_cons, ih]
    rfl

theorem ascii_of_length {text : List Char} (h : (utf8 text).length ≤ text.length) :
    AsciiText text := by
  induction text with
  | nil => exact fun _ h => absurd h not_mem_nil
  | cons c text ih =>
    have hle := length_le_utf8 text
    rw [utf8_cons, length_append, length_cons] at h
    have hc : c.toNat < 128 := by
      by_contra hwide
      have := (encode_wide (Nat.not_lt.mp hwide)).1
      omega
    rw [encode_ascii hc, length_singleton] at h
    exact forall_mem_cons.mpr ⟨hc, ih (by omega)⟩

variable {name : String}

/-- **Exactly the ASCII names are kept by every pattern.** -/
theorem keeps_patterns_iff (hname : NoBreaks name) :
    (∀ op pattern, Keeps op pattern name) ↔ AsciiText name.toList := by
  constructor
  · intro h
    by_contra hascii
    have hlength : name.toList.length < (utf8 name.toList).length :=
      Nat.not_le.mp fun hle => hascii (ascii_of_length hle)
    refine @lost (String.ofList (List.replicate (utf8 name.toList).length '_')) name
      hname ?_ ?_ (h .LIKE _)
    · rw [String.toList_ofList, nameTokens_underscores]
      exact accepts_underscores _
    · rwa [String.toList_ofList, nameTokens_underscores, needs_underscores]
  · exact fun h op pattern => keeps_of_clear hname (.inr h)

/-! ## 6. Conjunctions -/

/-- The expression of a selector: that of the first pattern, or the all-PV form. -/
def pushedRegex : Option (PredicateOp × String) → List UInt8
  | some (op, text) => pvNameRegex byteOf op (bytes text)
  | none => ".*".toList.map byteOf

/-- The pushed pattern is clear. -/
def PushedClear (pushed : Option (PredicateOp × String)) : Prop :=
  ∀ op text, pushed = some (PatternOp.toOp op, text) → Clear op text

theorem all_hold : ∀ {predicates : List Predicate} {holds : Bool},
    predicates.foldlM
      (fun holds p => if holds then matchesStringPredicate p name else .ok false) holds =
        (.ok true : Except String Bool) →
      holds = true ∧ ∀ p ∈ predicates, matchesStringPredicate p name = .ok true
  | [], holds, h => ⟨Except.ok.inj h, fun _ h => absurd h not_mem_nil⟩
  | p :: predicates, holds, h => by
    rw [foldlM_cons] at h
    cases holds with
    | false => exact absurd (all_hold h).1 (by decide)
    | true =>
      rw [if_pos rfl] at h
      cases hp : matchesStringPredicate p name with
      | error message =>
        rw [hp] at h
        exact nomatch h
      | ok answer =>
        rw [hp] at h
        obtain ⟨rfl, hrest⟩ := all_hold h
        exact ⟨rfl, forall_mem_cons.mpr ⟨hp, hrest⟩⟩

theorem pattern_holds {p : Predicate} (hp : isPvPatternPredicate p = true)
    (h : matchesStringPredicate p name = .ok true) :
    ∃ op text, p = ⟨"pv", PatternOp.toOp op, [.string text]⟩ ∧
      compareString name text op.toOp = true := by
  obtain ⟨column, operator, values⟩ := p
  simp only [isPvPatternPredicate, Bool.and_eq_true, Bool.or_eq_true, beq_iff_eq] at hp
  obtain ⟨rfl, hop⟩ := hp
  obtain ⟨op, rfl⟩ : ∃ op, operator = PatternOp.toOp op := by
    rcases hop with (rfl | rfl) | rfl
    · exact ⟨.PREFIX, rfl⟩
    · exact ⟨.CONTAINS, rfl⟩
    · exact ⟨.LIKE, rfl⟩
  have hpattern : op.toOp = .PREFIX ∨ op.toOp = .CONTAINS ∨ op.toOp = .LIKE := by
    cases op <;> decide
  rw [matchesStringPredicate, if_pos hpattern] at h
  split at h
  · next text hvalues =>
    obtain rfl : values = [.string text] := hvalues
    exact ⟨op, text, rfl, Except.ok.inj h⟩
  · exact nomatch h

/-- **What is pushed for a conjunction keeps every row that satisfies it**, where the pushed pattern
is clear or the name is ASCII. -/
theorem pushed_keeps {predicates : List Predicate} {pushed : Option (PredicateOp × String)}
    (hselector : applyPvSelector predicates = .ok (.pvNamePattern pushed)) (hname : NoBreaks name)
    (hlocal : matchesPvNamePredicates name predicates = .ok true)
    (hclear : PushedClear pushed ∨ AsciiText name.toList) :
    backendMatches (pushedRegex pushed) name := by
  have hpushed : pvNamePatternFor predicates = .ok pushed := by
    simp only [applyPvSelector, bind, Except.bind] at hselector
    split at hselector
    · exact nomatch hselector
    · split at hselector
      · split at hselector
        · exact nomatch hselector
        · next hfor =>
          rw [hfor, PvSelector.pvNamePattern.inj (Except.ok.inj hselector)]
      · exact nomatch Except.ok.inj hselector
  rw [pvNamePatternFor] at hpushed
  cases hfind : predicates.find? isPvPatternPredicate with
  | none =>
    rw [hfind] at hpushed
    obtain rfl := Except.ok.inj hpushed
    refine ⟨".*".toList, rfl, [.many dot], rfl, [], name.toList, rfl, .leave .nil⟩
  | some p =>
    rw [hfind] at hpushed
    have hp := List.find?_some hfind
    have hmem : p ∈ predicates.filter isPvPatternPredicate :=
      mem_filter.mpr ⟨List.mem_of_find?_eq_some hfind, hp⟩
    obtain ⟨op, text, rfl, hholds⟩ := pattern_holds hp ((all_hold hlocal).2 p hmem)
    obtain rfl : some (op.toOp, text) = pushed := Except.ok.inj hpushed
    exact keeps_of_clear hname (hclear.imp_left fun h => h op text rfl) hholds

/-- **When pushing a pattern down loses no row.** A pattern keeps every name exactly when no two
`_` stand in one of its gaps; a name is kept by every pattern exactly when it is ASCII; and of a
conjunction the pushed pattern is what counts.  The two bytes of `é` are `__` here, and one
character there. -/
theorem pushdown_keeps (op : PatternOp) (pattern name : String) :
    (NoBreaks pattern → ((∀ name, NoBreaks name → Keeps op pattern name) ↔ Clear op pattern)) ∧
      (NoBreaks name → ((∀ op pattern, Keeps op pattern name) ↔ AsciiText name.toList)) ∧
      ∀ predicates pushed, applyPvSelector predicates = .ok (.pvNamePattern pushed) →
        NoBreaks name → matchesPvNamePredicates name predicates = .ok true →
          PushedClear pushed ∨ AsciiText name.toList → backendMatches (pushedRegex pushed) name :=
  ⟨keeps_names_iff op, keeps_patterns_iff, fun _ _ => pushed_keeps⟩

/-- `pv LIKE 'A_%' AND pv LIKE '___'` -/
def aThenAny : List Predicate := [⟨"pv", .LIKE, [.string "A_%"]⟩, ⟨"pv", .LIKE, [.string "___"]⟩]

/-- The pattern that is sent has one `_` in its gap and loses no name, so `Aé` is found: three
bytes, as the second pattern wants. -/
theorem pushdown_keeps_oneUnderscore :
    (∀ name, NoBreaks name → Keeps .LIKE "A_%" name) ∧
      applyPvSelector aThenAny = .ok (.pvNamePattern (some (.LIKE, "A_%"))) ∧
      backendMatches (pushedRegex (some (.LIKE, "A_%"))) "Aé" := by
  have hclear : Clear .LIKE "A_%" := fun _ => by decide
  have hselector : applyPvSelector aThenAny = .ok (.pvNamePattern (some (.LIKE, "A_%"))) := by
    decide +kernel
  have hpattern : NoBreaks "A_%" := all_eq_true.mp (by decide)
  have hname : NoBreaks "Aé" := all_eq_true.mp (by decide)
  refine ⟨((pushdown_keeps .LIKE "A_%" "").1 hpattern).mpr hclear, hselector,
    (pushdown_keeps .LIKE "" "Aé").2.2 _ _ hselector hname (by decide +kernel) (.inl ?_)⟩
  intro op text hpushed
  obtain ⟨hop, rfl⟩ := Prod.mk.inj (Option.some.inj hpushed)
  cases op with
  | LIKE => exact hclear
  | PREFIX => cases hop
  | CONTAINS => cases hop

/-- `pv LIKE '__'` and the PV `é`. -/
theorem pushdown_loses_name :
    applyPvSelector [⟨"pv", .LIKE, [.string "__"]⟩] =
        .ok (.pvNamePattern (some (.LIKE, "__"))) ∧
      matchesPvNamePredicates "é" [⟨"pv", .LIKE, [.string "__"]⟩] = .ok true ∧
      ¬ backendMatches (pushedRegex (some (.LIKE, "__"))) "é" := by
  refine ⟨by decide +kernel, by decide +kernel, fun h => ?_⟩
  refine @lost "__" "é" ?_ ?_ ?_ fun _ => h
  · exact forall_mem_singleton.mpr (by decide)
  · exact accepts_underscores (utf8 ['é'])
  · decide

end MldpDriver.Query.PvName

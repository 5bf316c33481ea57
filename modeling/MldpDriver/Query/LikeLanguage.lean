/-
# The language of a LIKE pattern

`matchesLikePattern` walks along the tokens of a pattern and the bytes of a text, remembers its last
wildcard and goes back to it when a byte does not fit.  This module states the language that a
pattern stands for, byte by byte of the pattern, and shows that the loop decides it:
-/
import MldpDriver.Lib.Wildcards
import MldpDriver.Query.Predicate

namespace MldpDriver.Query

open Lib.Wildcards List

/-! ## 1. The language -/

/-- The same byte, or the two cases of one ASCII letter. -/
def SameButCase (c b : UInt8) : Prop :=
  c = b ∨ (65 ≤ c.toNat ∧ c.toNat ≤ 90 ∧ b.toNat = c.toNat + 32) ∨
    (65 ≤ b.toNat ∧ b.toNat ≤ 90 ∧ c.toNat = b.toNat + 32)

/-- The bytes `%` and `*`. -/
def IsAny (c : UInt8) : Prop := c = 37 ∨ c = 42

/-- **The LIKE language**: `%` and `*` stand for any sequence, `_` for any byte, a backslash makes
the next byte literal, a backslash at the end is itself literal, and every other byte stands for
itself, ASCII letters without case. -/
inductive LikeLanguage : List UInt8 → List UInt8 → Prop
  | nil : LikeLanguage [] []
  | leave {c : UInt8} {pattern text : List UInt8} :
      IsAny c → LikeLanguage pattern text → LikeLanguage (c :: pattern) text
  | take {c b : UInt8} {pattern text : List UInt8} :
      IsAny c → LikeLanguage (c :: pattern) text → LikeLanguage (c :: pattern) (b :: text)
  | single {b : UInt8} {pattern text : List UInt8} :
      LikeLanguage pattern text → LikeLanguage (95 :: pattern) (b :: text)
  | escaped {d b : UInt8} {pattern text : List UInt8} :
      SameButCase d b → LikeLanguage pattern text → LikeLanguage (92 :: d :: pattern) (b :: text)
  | trailing : LikeLanguage [92] [92]
  | plain {c b : UInt8} {pattern text : List UInt8} :
      ¬ IsAny c → c ≠ 95 → c ≠ 92 → SameButCase c b → LikeLanguage pattern text →
        LikeLanguage (c :: pattern) (b :: text)

theorem toNat_toLower (c : UInt8) :
    (toLower c).toNat = if 65 ≤ c.toNat ∧ c.toNat ≤ 90 then c.toNat + 32 else c.toNat := by
  unfold toLower
  simp only [UInt8.le_iff_toNat_le, show (65 : UInt8).toNat = 65 from rfl,
    show (90 : UInt8).toNat = 90 from rfl]
  split
  · rename_i h
    rw [UInt8.toNat_add, show (32 : UInt8).toNat = 32 from rfl]
    omega
  · rfl

theorem equalIgnoreCase_iff (c b : UInt8) : equalIgnoreCase c b = true ↔ SameButCase c b := by
  have hc := c.toNat_lt
  have hb := b.toNat_lt
  rw [equalIgnoreCase, beq_iff_eq, ← UInt8.toNat_inj, toNat_toLower, toNat_toLower, SameButCase,
    ← UInt8.toNat_inj]
  split <;> split <;> omega

/-! ## 2. Tokens -/

/-- What a token stands for. -/
def PatternToken.wildcard : PatternToken → Wildcard UInt8
  | .literal c => some (equalIgnoreCase c)
  | .any => none
  | .single => some fun _ => true

theorem wildcard_eq_none_iff (token : PatternToken) : token.wildcard = none ↔ token = .any := by
  cases token <;> simp [PatternToken.wildcard]

def patternOf (tokens : List PatternToken) : List (Wildcard UInt8) :=
  tokens.map PatternToken.wildcard

theorem likeLanguage_any_iff {c : UInt8} {pattern text : List UInt8} (hc : IsAny c) :
    LikeLanguage (c :: pattern) text ↔
      ∃ taken rest, text = taken ++ rest ∧ LikeLanguage pattern rest := by
  constructor
  · intro h
    generalize hfull : c :: pattern = full at h
    induction h with
    | nil => cases hfull
    | leave _ h =>
      cases hfull
      exact ⟨[], _, rfl, h⟩
    | @take _ b _ _ _ _ ih =>
      obtain ⟨taken, rest, rfl, h⟩ := ih hfull
      exact ⟨b :: taken, rest, rfl, h⟩
    | single | escaped | trailing =>
      cases hfull
      rcases hc with hc | hc <;> exact absurd hc (by decide)
    | plain hany =>
      cases hfull
      exact absurd hc hany
  · rintro ⟨taken, rest, rfl, h⟩
    induction taken with
    | nil => exact .leave hc h
    | cons b taken ih => exact .take hc ih

theorem likeTokens_escape (d : UInt8) (pattern : List UInt8) :
    likeTokens (92 :: d :: pattern) = .literal d :: likeTokens pattern := by
  rw [likeTokens, if_pos rfl]

theorem likeTokens_plain {c : UInt8} (hc : c ≠ 92) (pattern : List UInt8) :
    likeTokens (c :: pattern) = likeTokens.plain c :: likeTokens pattern := by
  cases pattern with
  | nil => rfl
  | cons d pattern => rw [likeTokens, if_neg hc]

theorem plain_any {c : UInt8} (hc : IsAny c) : likeTokens.plain c = .any := if_pos hc

theorem plain_single : likeTokens.plain 95 = .single := rfl

theorem plain_literal {c : UInt8} (hany : ¬ IsAny c) (hone : c ≠ 95) :
    likeTokens.plain c = .literal c := by
  rw [likeTokens.plain, if_neg (show ¬ (c = 37 ∨ c = 42) from hany), if_neg hone]

variable {tokens : List PatternToken}

theorem accepts_wildcard_cons_iff {token : PatternToken} {p : UInt8 → Bool}
    (htoken : token.wildcard = some p) {text : List UInt8} :
    Accepts (patternOf (token :: tokens)) text ↔
      ∃ b rest, text = b :: rest ∧ p b = true ∧ Accepts (patternOf tokens) rest := by
  rw [patternOf, map_cons, htoken]
  constructor
  · intro h
    cases h with
    | one hp h => exact ⟨_, _, rfl, hp, h⟩
  · rintro ⟨b, rest, rfl, hp, h⟩
    exact .one hp h

/-- **The tokens stand for the language of the pattern.** -/
theorem accepts_likeTokens_iff : ∀ (pattern text : List UInt8),
    Accepts (patternOf (likeTokens pattern)) text ↔ LikeLanguage pattern text
  | [], text => by
    constructor
    · intro h
      rw [accepts_nil_iff.mp h]
      exact .nil
    · intro h
      cases h
      exact .nil
  | c :: pattern, text => by
    have ih := accepts_likeTokens_iff pattern
    by_cases hesc : c = 92
    · subst hesc
      cases pattern with
      | nil =>
        -- a trailing backslash
        have htoken : (PatternToken.literal 92).wildcard = some (equalIgnoreCase 92) := rfl
        rw [show likeTokens [92] = PatternToken.literal 92 :: [] from rfl,
          accepts_wildcard_cons_iff htoken]
        constructor
        · rintro ⟨b, rest, rfl, hp, h⟩
          obtain rfl := accepts_nil_iff.mp h
          have : b = 92 := by
            rcases (equalIgnoreCase_iff _ _).mp hp with h | ⟨_, h, _⟩ | ⟨_, h, h'⟩
            · exact h.symm
            · exact absurd h (by decide)
            · have : (92 : UInt8).toNat = 92 := rfl
              omega
          rw [this]
          exact .trailing
        · intro h
          cases h with
          | leave hany => exact absurd hany (by rintro (h | h) <;> exact absurd h (by decide))
          | take hany => exact absurd hany (by rintro (h | h) <;> exact absurd h (by decide))
          | trailing => exact ⟨92, [], rfl, rfl, .nil⟩
          | plain _ _ hne => exact absurd rfl hne
      | cons d pattern =>
        have ih := accepts_likeTokens_iff pattern
        have htoken : (PatternToken.literal d).wildcard = some (equalIgnoreCase d) := rfl
        rw [likeTokens_escape, accepts_wildcard_cons_iff htoken]
        constructor
        · rintro ⟨b, rest, rfl, hp, h⟩
          exact .escaped ((equalIgnoreCase_iff _ _).mp hp) ((ih rest).mp h)
        · intro h
          cases h with
          | leave hany => exact absurd hany (by rintro (h | h) <;> exact absurd h (by decide))
          | take hany => exact absurd hany (by rintro (h | h) <;> exact absurd h (by decide))
          | escaped hsame h =>
            exact ⟨_, _, rfl, (equalIgnoreCase_iff _ _).mpr hsame, (ih _).mpr h⟩
          | plain _ _ hne => exact absurd rfl hne
    · rw [likeTokens_plain hesc]
      by_cases hany : IsAny c
      · rw [plain_any hany, likeLanguage_any_iff hany, patternOf, map_cons,
          show PatternToken.any.wildcard = none from rfl, accepts_any_iff]
        simp only [← ih, patternOf]
      · by_cases hone : c = 95
        · subst hone
          rw [plain_single, accepts_wildcard_cons_iff (p := fun _ => true) rfl]
          constructor
          · rintro ⟨b, rest, rfl, _, h⟩
            exact .single ((ih rest).mp h)
          · intro h
            cases h with
            | leave h => exact absurd h hany
            | take h => exact absurd h hany
            | single h => exact ⟨_, _, rfl, rfl, (ih _).mpr h⟩
            | plain _ hne => exact absurd rfl hne
        · rw [plain_literal hany hone, accepts_wildcard_cons_iff (p := equalIgnoreCase c) rfl]
          constructor
          · rintro ⟨b, rest, rfl, hp, h⟩
            exact .plain hany hone hesc ((equalIgnoreCase_iff _ _).mp hp) ((ih rest).mp h)
          · intro h
            cases h with
            | leave h => exact absurd h hany
            | take h => exact absurd h hany
            | single => exact absurd rfl hone
            | escaped => exact absurd rfl hesc
            | trailing => exact absurd rfl hesc
            | plain _ _ _ hsame h =>
              exact ⟨_, _, rfl, (equalIgnoreCase_iff _ _).mpr hsame, (ih _).mpr h⟩

/-! ## 3. The loop

One turn keeps what the state says about the whole text (`likeStep_tracks`), and a turn that
gives up is right to give up (`likeStep_none`).

Any answer of the loop is the truth (`likeLoop_accepts`), and with the work left as fuel
there is an answer (`likeLoop_isSome`). -/

/-- **The invariant of the loop.**  Without a mark the rest of the pattern decides on the rest of
the text.  With one, the marked wildcard and what follows it decide on the text from the mark on,
and the tokens between the wildcard and the cursor fit the bytes between the mark and the cursor. -/
def Tracks (value : List UInt8) (tokens : List PatternToken) (s : LikeState) : Prop :=
  match s.wildcard with
  | none =>
    Accepts (patternOf tokens) value ↔
      Accepts (patternOf (tokens.drop s.tokenIndex)) (value.drop s.valueIndex)
  | some (token, mark) =>
    ∃ classes taken,
      patternOf (tokens.drop (token + 1)) =
          stretch classes ++ patternOf (tokens.drop s.tokenIndex) ∧
        value.drop mark = taken ++ value.drop s.valueIndex ∧ Fits classes taken ∧
        (Accepts (patternOf tokens) value ↔
          Accepts (none :: patternOf (tokens.drop (token + 1))) (value.drop mark))

theorem tracks_start (value : List UInt8) (tokens : List PatternToken) :
    Tracks value tokens ⟨0, 0, none⟩ :=
  Iff.rfl

theorem drop_of_getElem? {α : Type} {l : List α} {i : Nat} {a : α} (h : l[i]? = some a) :
    l.drop i = a :: l.drop (i + 1) := by
  obtain ⟨hi, rfl⟩ := List.getElem?_eq_some_iff.mp h
  exact drop_eq_getElem_cons hi

theorem patternOf_drop {i : Nat} {token : PatternToken} (h : tokens[i]? = some token) :
    patternOf (tokens.drop i) = token.wildcard :: patternOf (tokens.drop (i + 1)) := by
  rw [drop_of_getElem? h, patternOf, map_cons]
  rfl

theorem consumes_iff {token : Option PatternToken} {byte : UInt8} :
    consumes token (some byte) = true ↔
      ∃ t p, token = some t ∧ t.wildcard = some p ∧ p byte = true := by
  constructor
  · intro h
    rcases token with _ | (c | _ | _)
    · cases h
    · exact ⟨_, _, rfl, rfl, h⟩
    · cases h
    · exact ⟨_, _, rfl, rfl, rfl⟩
  · rintro ⟨t, p, rfl, hp, h⟩
    rcases t with c | _ | _
    · cases hp
      exact h
    · cases hp
    · rfl

/-- Where the cursor neither consumes nor meets a wildcard, the rest of the pattern is not in the
rest of the text. -/
theorem stuck {i : Nat} {b : UInt8} {text : List UInt8}
    (hconsume : ¬ consumes tokens[i]? (some b) = true) (hany : ¬ tokens[i]? = some .any) :
    ¬ Accepts (patternOf (tokens.drop i)) (b :: text) := by
  intro h
  cases htoken : tokens[i]? with
  | none =>
    have hend : tokens.drop i = [] :=
      drop_eq_nil_of_le (List.getElem?_eq_none_iff.mp htoken)
    rw [hend] at h
    exact absurd (accepts_nil_iff.mp h) (by simp)
  | some token =>
    rw [patternOf_drop htoken] at h
    cases hclass : token.wildcard with
    | none =>
      rw [wildcard_eq_none_iff] at hclass
      exact hany (by rw [htoken, hclass])
    | some p =>
      rw [hclass] at h
      exact hconsume (consumes_iff.mpr
        ⟨token, p, htoken, hclass, (accepts_one_cons_iff.mp h).1⟩)

section Turn

variable {value : List UInt8} {tokens : List PatternToken} {s s' : LikeState} {b : UInt8}

theorem Tracks.consume (ht : Tracks value tokens s) (hb : value[s.valueIndex]? = some b)
    (h : consumes tokens[s.tokenIndex]? (some b) = true) :
    Tracks value tokens
      { s with tokenIndex := s.tokenIndex + 1, valueIndex := s.valueIndex + 1 } := by
  obtain ⟨token, p, htoken, hclass, hp⟩ := consumes_iff.mp h
  have hpattern := patternOf_drop htoken
  have htext := drop_of_getElem? hb
  rw [hclass] at hpattern
  unfold Tracks at ht ⊢
  split at ht
  · rename_i hw
    simp only [hw]
    rw [ht, hpattern, htext, accepts_one_cons_iff]
    exact and_iff_right hp
  · rename_i wildcard mark hw
    simp only [hw]
    obtain ⟨classes, taken, htokens, hvalue, hfits, hiff⟩ := ht
    refine ⟨classes ++ [p], taken ++ [b], ?_, ?_, hfits.concat hp, hiff⟩
    · rw [htokens, hpattern]
      simp only [stretch, map_append, map_cons, map_nil, append_assoc,
        cons_append, nil_append]
    · rw [hvalue, htext, append_assoc, cons_append, nil_append]

theorem Tracks.mark (ht : Tracks value tokens s) (h : tokens[s.tokenIndex]? = some .any) :
    Tracks value tokens
      { s with
        tokenIndex := s.tokenIndex + 1, wildcard := some (s.tokenIndex, s.valueIndex) } := by
  have hpattern := patternOf_drop h
  refine ⟨[], [], rfl, rfl, .nil, ?_⟩
  unfold Tracks at ht
  split at ht
  · rw [ht, hpattern]
    rfl
  · obtain ⟨classes, taken, htokens, hvalue, hfits, hiff⟩ := ht
    rw [hiff, htokens, hvalue, hpattern]
    exact accepts_commit hfits

/-- A turn that does not fit moves the mark forward by one byte. -/
theorem Tracks.restart {token mark : Nat} (ht : Tracks value tokens s)
    (hb : value[s.valueIndex]? = some b) (hw : s.wildcard = some (token, mark))
    (hconsume : ¬ consumes tokens[s.tokenIndex]? (some b) = true)
    (hany : ¬ tokens[s.tokenIndex]? = some .any) :
    Tracks value tokens
      { valueIndex := mark + 1, tokenIndex := token + 1, wildcard := some (token, mark + 1) } := by
  have htext := drop_of_getElem? hb
  simp only [Tracks, hw] at ht
  obtain ⟨classes, taken, htokens, hvalue, hfits, hiff⟩ := ht
  have hmiss : ¬ Accepts (patternOf (tokens.drop (token + 1))) (value.drop mark) := by
    rw [htokens, hvalue, accepts_fitted_iff hfits, htext]
    exact stuck hconsume hany
  -- the mark is before the cursor, so there is a byte at the mark
  have hmark : mark < value.length := by
    by_contra hle
    have hnil := drop_eq_nil_of_le (Nat.le_of_not_lt hle)
    rw [hvalue, htext] at hnil
    simp at hnil
  have hcons := drop_eq_getElem_cons hmark
  rw [hcons] at hmiss
  refine ⟨[], [], rfl, rfl, .nil, ?_⟩
  rw [hiff, hcons]
  exact accepts_forward hmiss

end Turn

variable {value : List UInt8}

/-- **One turn keeps the invariant.** -/
theorem likeStep_tracks {s s' : LikeState} (hv : s.valueIndex < value.length)
    (h : likeStep value tokens s = some s') (ht : Tracks value tokens s) :
    Tracks value tokens s' := by
  have hb := List.getElem?_eq_getElem hv
  unfold likeStep at h
  rw [hb] at h
  split at h
  · rename_i hconsume
    obtain rfl := Option.some.inj h
    exact ht.consume hb hconsume
  · rename_i hconsume
    split at h
    · rename_i hany
      obtain rfl := Option.some.inj h
      exact ht.mark hany
    · rename_i hany
      split at h
      · rename_i hw
        obtain rfl := Option.some.inj h
        exact ht.restart hb hw hconsume hany
      · cases h

theorem likeStep_none {s : LikeState} (hv : s.valueIndex < value.length)
    (h : likeStep value tokens s = none) (ht : Tracks value tokens s) :
    ¬ Accepts (patternOf tokens) value := by
  have hb := List.getElem?_eq_getElem hv
  unfold likeStep at h
  rw [hb] at h
  split at h
  · cases h
  · rename_i hconsume
    split at h
    · cases h
    · rename_i hany
      split at h
      · cases h
      · rename_i hw
        simp only [Tracks, hw] at ht
        rw [ht, drop_eq_getElem_cons hv]
        exact stuck hconsume hany

theorem all_any_eq (tokens : List PatternToken) :
    tokens.all (· == .any) = (patternOf tokens).all (·.isNone) := by
  rw [patternOf, all_map]
  congr 1
  funext token
  cases token <;> rfl

theorem Tracks.end {s : LikeState} (hv : ¬ s.valueIndex < value.length) (ht : Tracks value tokens
    s) :
    (tokens.drop s.tokenIndex).all (· == .any) = true ↔ Accepts (patternOf tokens) value := by
  have hend : value.drop s.valueIndex = [] := drop_eq_nil_of_le (Nat.le_of_not_lt hv)
  rw [all_any_eq]
  unfold Tracks at ht
  split at ht
  · rw [ht, hend, accepts_end_iff]
  · obtain ⟨classes, taken, htokens, hvalue, hfits, hiff⟩ := ht
    rw [hiff, htokens, hvalue, hend, append_nil, accepts_marked_end hfits]

/-- **Every answer of the loop is the truth about the whole text.** -/
theorem likeLoop_accepts :
    ∀ {fuel : Nat} {s : LikeState} {answer : Bool}, Tracks value tokens s →
      likeLoop value tokens fuel s = some answer →
        (answer = true ↔ Accepts (patternOf tokens) value)
  | 0, _, _, _, h => by cases h
  | fuel + 1, s, answer, ht, h => by
    simp only [likeLoop] at h
    split at h
    · rename_i hv
      split at h
      · rename_i s' hs
        exact likeLoop_accepts (likeStep_tracks hv hs ht) h
      · rename_i hs
        obtain rfl := Option.some.inj h
        exact iff_of_false (by decide) (likeStep_none hv hs ht)
    · rename_i hv
      obtain rfl := Option.some.inj h
      exact ht.end hv

/-! ## 4. The matcher -/

theorem likeLoop_answers (value : List UInt8) (tokens : List PatternToken) {fuel : Nat}
    (hfuel : likeFuel value tokens ≤ fuel) :
    ∃ answer, likeLoop value tokens fuel ⟨0, 0, none⟩ = some answer ∧
      (answer = true ↔ Accepts (patternOf tokens) value) := by
  have hsome := likeLoop_isSome value tokens fuel ⟨0, 0, none⟩ (by simp [LikeState.Ok])
    (Nat.lt_of_lt_of_le (likeMeasure_start value tokens) hfuel)
  obtain ⟨answer, h⟩ := Option.isSome_iff_exists.mp hsome
  exact ⟨answer, h, likeLoop_accepts (tracks_start value tokens) h⟩

/-- **The matcher terminates and decides the LIKE language**: for every pattern and every text there
is one answer that the loop gives with any fuel from the bound on, and it is `true` exactly when the
text is in the language of the pattern. -/
theorem matchesLikePattern_language (pattern value : List UInt8) :
    ∃ answer, (∀ fuel, likeFuel value (likeTokens pattern) ≤ fuel →
        likeLoop value (likeTokens pattern) fuel ⟨0, 0, none⟩ = some answer) ∧
      (answer = true ↔ LikeLanguage pattern value) := by
  obtain ⟨answer, hanswer, hiff⟩ := likeLoop_answers value (likeTokens pattern) (Nat.le_refl _)
  refine ⟨answer, ?_, ?_⟩
  · intro fuel hfuel
    obtain ⟨other, hother, hiff'⟩ := likeLoop_answers value (likeTokens pattern) hfuel
    rw [hother, Bool.eq_iff_iff.mpr (hiff'.trans hiff.symm)]
  · rw [hiff, accepts_likeTokens_iff]

theorem matchesLikePattern_iff (value pattern : String) :
    matchesLikePattern value pattern = true ↔ LikeLanguage (bytes pattern) (bytes value) := by
  obtain ⟨answer, hanswer, hiff⟩ :=
    likeLoop_answers (bytes value) (likeTokens (bytes pattern)) (Nat.le_refl _)
  rw [matchesLikePattern, hanswer, Option.getD_some, hiff, accepts_likeTokens_iff]

end MldpDriver.Query

/-
# `to_utc`

`to_utc(text)` and `to_utc(text, offset)` read an ISO-8601 date-time at fixed positions and return
its UTC epoch second; a fraction of a second is dropped.  A text is modelled by its characters, one
for each byte.
-/
import MldpDriver.Lib.CivilDate

namespace MldpDriver.Query.Utc

open Lib.CivilDate List Option

/-- The bytes of a `std::string`. -/
abbrev Text := List Char

/-! ## 1. The reader -/

def digits : Nat → Text → Option Nat
  | acc, [] => some acc
  | acc, c :: rest => if c.isDigit then digits (acc * 10 + (c.toNat - 48)) rest else none

/-- `std::from_chars` on a field of at most four characters, which it must take whole. -/
def fromChars : Text → Option Int
  | [] => none
  | c :: rest =>
    if c = '-' then if rest = [] then none else (digits 0 rest).map fun n : Nat => -(n : Int)
    else (digits 0 (c :: rest)).map Int.ofNat

def decimal (text : Text) (offset length : Nat) : Except String Int :=
  if text.length < offset + length then .error ("invalid timestamp: " ++ String.ofList text)
  else
    match fromChars ((text.drop offset).take length) with
    | some value => .ok value
    | none => .error ("invalid timestamp: " ++ String.ofList text)

def daysFromCivil (year month day : Int) : Int :=
  let year := if month ≤ 2 then year - 1 else year
  let era := (if 0 ≤ year then year else year - 399).tdiv 400
  let yoe := year - era * 400
  let doy := (153 * (month + if 2 < month then -3 else 9) + 2) / 5 + day - 1
  let doe := yoe * 365 + yoe / 4 - yoe / 100 + doy
  era * 146097 + doe - 719468

def localEpochSeconds (text : Text) : Except String Int :=
  if text.length < 19 ∨ text[10]? ≠ some 'T' ∧ text[10]? ≠ some ' ' then
    .error ("invalid timestamp: " ++ String.ofList text)
  else do
    let year ← decimal text 0 4
    let month ← decimal text 5 2
    let day ← decimal text 8 2
    let hour ← decimal text 11 2
    let minute ← decimal text 14 2
    let second ← decimal text 17 2
    if text[4]? ≠ some '-' ∨ text[7]? ≠ some '-' ∨ text[13]? ≠ some ':' ∨ text[16]? ≠ some ':' ∨
        month < 1 ∨ 12 < month ∨ day < 1 ∨ 31 < day ∨ 23 < hour ∨ 59 < minute ∨ 59 < second then
      .error ("invalid timestamp: " ++ String.ofList text)
    else .ok (daysFromCivil year month day * 86400 + hour * 3600 + minute * 60 + second)

def offsetSeconds (text : Text) : Except String Int :=
  if text.length ≠ 6 ∨ text[0]? ≠ some '+' ∧ text[0]? ≠ some '-' ∨ text[3]? ≠ some ':' then
    .error ("invalid UTC offset: " ++ String.ofList text)
  else do
    let hours ← decimal text 1 2
    let minutes ← decimal text 4 2
    if 23 < hours ∨ 59 < minutes then .error ("invalid UTC offset: " ++ String.ofList text)
    else
      let seconds := hours * 3600 + minutes * 60
      .ok (if text[0]? = some '-' then -seconds else seconds)

/-- `evaluateTimestamp` on the string arguments of `to_utc`. -/
def toUtc : List Text → Except String Int
  | [timestamp] =>
    if timestamp.getLast? = some 'Z' ∨ timestamp.getLast? = some 'z' then
      localEpochSeconds timestamp.dropLast
    else if timestamp.length < 25 then
      .error ("invalid timestamp: " ++ String.ofList timestamp ++
        "; expected Z or explicit UTC offset")
    else do
      let seconds ← localEpochSeconds (timestamp.take (timestamp.length - 6))
      let offset ← offsetSeconds (timestamp.drop (timestamp.length - 6))
      .ok (seconds - offset)
  | [timestamp, zone] => do
    let seconds ← localEpochSeconds timestamp
    let offset ← offsetSeconds zone
    .ok (seconds - offset)
  | _ => .error "to_utc has no matching overload"

/-! ## 2. The documented texts

The documented texts are those of `LocalText` with a zone.  Beyond them the reader is lenient in
three ways: it takes any characters after the seconds, a field with a minus sign, and a day after
the last one of a month of less than 31 days. -/

def twoDigits (n : Nat) : Text := [Nat.digitChar (n / 10), Nat.digitChar (n % 10)]

/-- The numbers of a local date-time, as many digits as they have in the text. -/
structure LocalText where
  year : Nat
  month : Nat
  day : Nat
  hour : Nat
  minute : Nat
  second : Nat
  spaced : Bool
  fraction : List (Fin 10)
  year_lt : year < 10000
  month_lt : month < 100
  day_lt : day < 100
  hour_lt : hour < 100
  minute_lt : minute < 100
  second_lt : second < 100

def fractionText : List (Fin 10) → Text
  | [] => []
  | ds => '.' :: ds.map fun d : Fin 10 => Nat.digitChar d.val

def LocalText.text (l : LocalText) : Text :=
  twoDigits (l.year / 100) ++ twoDigits (l.year % 100) ++ '-' :: twoDigits l.month ++
    '-' :: twoDigits l.day ++ (if l.spaced then ' ' else 'T') :: twoDigits l.hour ++
    ':' :: twoDigits l.minute ++ ':' :: twoDigits l.second ++ fractionText l.fraction

structure OffsetText where
  negative : Bool
  hours : Nat
  minutes : Nat
  hours_lt : hours < 100
  minutes_lt : minutes < 100

def OffsetText.text (o : OffsetText) : Text :=
  (if o.negative then '-' else '+') :: twoDigits o.hours ++ ':' :: twoDigits o.minutes

/-- The arguments of a call in one of the documented forms. -/
inductive Documented where
  | zulu (l : LocalText) (upper : Bool)
  | withOffset (l : LocalText) (o : OffsetText)
  | apart (l : LocalText) (o : OffsetText)

def Documented.arguments : Documented → List Text
  | zulu l upper => [l.text ++ [if upper then 'Z' else 'z']]
  | withOffset l o => [l.text ++ o.text]
  | apart l o => [l.text, o.text]

def Documented.localText : Documented → LocalText
  | zulu l _ | withOffset l _ | apart l _ => l

def Documented.offset? : Documented → Option OffsetText
  | zulu .. => none
  | withOffset _ o | apart _ o => some o

def LocalText.date (l : LocalText) : Date := ⟨l.year, l.month, l.day⟩

/-- A date of the calendar and a time of the day. -/
structure LocalText.Valid (l : LocalText) : Prop where
  date : l.date.Valid
  hour : l.hour < 24
  minute : l.minute < 60
  second : l.second < 60

structure OffsetText.Valid (o : OffsetText) : Prop where
  hours : o.hours < 24
  minutes : o.minutes < 60

def Documented.Valid (d : Documented) : Prop :=
  d.localText.Valid ∧ ∀ o ∈ d.offset?, o.Valid

/-- The day is one of the month, if the month is one of the year and the day is one of any month. -/
def LocalText.DayInMonth (l : LocalText) : Prop :=
  1 ≤ l.month → l.month ≤ 12 → l.day ≤ 31 → l.day ≤ daysInMonth l.year l.month

def LocalText.seconds (l : LocalText) : Int :=
  daysSinceEpoch l.date * 86400 + l.hour * 3600 + l.minute * 60 + l.second

def OffsetText.seconds (o : OffsetText) : Int :=
  (if o.negative then -1 else 1) * (o.hours * 3600 + o.minutes * 60)

/-- What `k` digits after the point say in units of the last one. -/
def fractionUnits : Nat → List (Fin 10) → Nat
  | 0, _ => 0
  | _ + 1, [] => 0
  | k + 1, d :: ds => d * 10 ^ k + fractionUnits k ds

/-- The instant of the text, in whole nanoseconds. -/
def Documented.instantNs (d : Documented) : Int :=
  (d.localText.seconds - (d.offset?.map OffsetText.seconds).getD 0) * 10 ^ 9 +
    fractionUnits 9 d.localText.fraction

/-! ## 3. The fields -/

theorem digitChar_isDigit {d : Nat} (h : d < 10) :
    (Nat.digitChar d).isDigit = true ∧ (Nat.digitChar d).toNat - 48 = d ∧ Nat.digitChar d ≠ '-' := by
  interval_cases d <;> decide

theorem digits_twoDigits {n : Nat} (h : n < 100) (acc : Nat) (rest : Text) :
    digits acc (twoDigits n ++ rest) = digits (acc * 100 + n) rest := by
  obtain ⟨hd, hv, -⟩ := digitChar_isDigit (show n / 10 < 10 by omega)
  obtain ⟨hd', hv', -⟩ := digitChar_isDigit (show n % 10 < 10 by omega)
  simp only [twoDigits, cons_append, nil_append, digits, hd, hd', hv, hv', if_true]
  congr 1
  omega

theorem fromChars_twoDigits {n : Nat} (h : n < 100) (rest : Text) :
    fromChars (twoDigits n ++ rest) = (digits 0 (twoDigits n ++ rest)).map Int.ofNat :=
  if_neg (digitChar_isDigit (show n / 10 < 10 by omega)).2.2

theorem fromChars_two {n : Nat} (h : n < 100) : fromChars (twoDigits n) = some (n : Int) := by
  have := fromChars_twoDigits h []
  rw [digits_twoDigits h, append_nil] at this
  rw [this, digits]
  simp

theorem fromChars_four {n : Nat} (h : n < 10000) :
    fromChars (twoDigits (n / 100) ++ twoDigits (n % 100)) = some (n : Int) := by
  have hlow := digits_twoDigits (show n % 100 < 100 by omega) (0 * 100 + n / 100) []
  rw [append_nil] at hlow
  rw [fromChars_twoDigits (by omega), digits_twoDigits (by omega), hlow, digits, map_some]
  congr 1
  simp only [Int.ofNat_eq_natCast]
  omega

variable {text : Text}

theorem decimal_eq {offset length : Nat} {value : Int} (hlength : offset + length ≤ text.length)
    (h : fromChars ((text.drop offset).take length) = some value) :
    decimal text offset length = .ok value := by
  rw [decimal, if_neg (by omega), h]

theorem LocalText.length_text (l : LocalText) :
    l.text.length = 19 + (fractionText l.fraction).length := by
  simp [LocalText.text, twoDigits]
  omega

/-- The numbers are in the ranges that the reader checks. -/
structure LocalText.InRange (l : LocalText) : Prop where
  month : 1 ≤ l.month ∧ l.month ≤ 12
  day : 1 ≤ l.day ∧ l.day ≤ 31
  hour : l.hour < 24
  minute : l.minute < 60
  second : l.second < 60

theorem LocalText.fields (l : LocalText) :
    decimal l.text 0 4 = .ok (l.year : Int) ∧ decimal l.text 5 2 = .ok (l.month : Int) ∧
      decimal l.text 8 2 = .ok (l.day : Int) ∧ decimal l.text 11 2 = .ok (l.hour : Int) ∧
      decimal l.text 14 2 = .ok (l.minute : Int) ∧ decimal l.text 17 2 = .ok (l.second : Int) := by
  have hlength := l.length_text
  exact ⟨decimal_eq (by omega) (fromChars_four l.year_lt),
    decimal_eq (by omega) (fromChars_two l.month_lt), decimal_eq (by omega) (fromChars_two l.day_lt),
    decimal_eq (by omega) (fromChars_two l.hour_lt),
    decimal_eq (by omega) (fromChars_two l.minute_lt),
    decimal_eq (by omega) (fromChars_two l.second_lt)⟩

/-- **The reader on a documented local text** checks the ranges of its numbers. -/
theorem localEpochSeconds_text (l : LocalText) :
    (¬ l.InRange ∧ ∃ message, localEpochSeconds l.text = .error message) ∨
      l.InRange ∧ localEpochSeconds l.text =
        .ok (daysFromCivil l.year l.month l.day * 86400 + l.hour * 3600 + l.minute * 60 + l.second) := by
  have hlength : 19 ≤ l.text.length := by
    rw [l.length_text]
    omega
  obtain ⟨hyear, hmonth, hday, hhour, hminute, hsecond⟩ := l.fields
  have hsep : l.text[10]? = some (if l.spaced then ' ' else 'T') := rfl
  have hpunctuation : l.text[4]? = some '-' ∧ l.text[7]? = some '-' ∧ l.text[13]? = some ':' ∧
      l.text[16]? = some ':' := ⟨rfl, rfl, rfl, rfl⟩
  rw [localEpochSeconds, if_neg (by rw [hsep]; cases l.spaced <;> simp <;> omega), hyear, hmonth, hday,
    hhour, hminute, hsecond]
  simp only [bind, Except.bind, hpunctuation, ne_eq, not_true_eq_false, false_or]
  split
  · next hbad =>
    refine .inl ⟨fun h => ?_, _, rfl⟩
    obtain ⟨hmonth, hday, hhour, hminute, hsecond⟩ := h
    omega
  · next hgood => exact .inr ⟨⟨by omega, by omega, by omega, by omega, by omega⟩, rfl⟩

theorem offsetSeconds_text (o : OffsetText) :
    (¬ o.Valid ∧ ∃ message, offsetSeconds o.text = .error message) ∨
      o.Valid ∧ offsetSeconds o.text = .ok o.seconds := by
  have hlength : o.text.length = 6 := rfl
  have hhours : decimal o.text 1 2 = .ok (o.hours : Int) :=
    decimal_eq (by omega) (fromChars_two o.hours_lt)
  have hminutes : decimal o.text 4 2 = .ok (o.minutes : Int) :=
    decimal_eq (by omega) (fromChars_two o.minutes_lt)
  have hsign : o.text[0]? = some (if o.negative then '-' else '+') := rfl
  have hcolon : o.text[3]? = some ':' := rfl
  rw [offsetSeconds, if_neg (by rw [hsign, hcolon]; cases o.negative <;> simp [hlength]), hhours,
    hminutes, hsign]
  simp only [bind, Except.bind]
  split
  · next hbad =>
    refine .inl ⟨fun h => ?_, _, rfl⟩
    have := h.hours
    have := h.minutes
    omega
  · next hgood =>
    refine .inr ⟨⟨by omega, by omega⟩, ?_⟩
    unfold OffsetText.seconds
    cases o.negative <;> simp

/-! ## 4. The calendar -/

theorem era_eq (year : Int) : (if 0 ≤ year then year else year - 399).tdiv 400 = year / 400 := by
  split
  · next h => rw [Int.tdiv_eq_ediv_of_nonneg h]
  · next h =>
    obtain ⟨n, hn⟩ := Int.eq_ofNat_of_zero_le (show 0 ≤ -(year - 399) by omega)
    rw [show year - 399 = -(n : Int) by omega, Int.neg_tdiv, Int.tdiv_eq_ediv_of_nonneg (by omega)]
    omega

theorem era_days (year : Int) :
    year / 400 * 146097 + ((year - year / 400 * 400) * 365 + (year - year / 400 * 400) / 4 -
      (year - year / 400 * 400) / 100) = 365 * year + year / 4 - year / 100 + year / 400 := by
  omega

theorem month_days (year : Int) {month : Nat} (h : 1 ≤ month ∧ month ≤ 12) :
    (153 * ((month : Int) + if 2 < (month : Int) then -3 else 9) + 2) / 5 =
      daysBeforeMonth year month +
        if (month : Int) ≤ 2 then 306 else if isLeap year then -60 else -59 := by
  obtain ⟨hlo, hhi⟩ := h
  cases hleap : isLeap year <;> interval_cases month <;>
    simp [daysBeforeMonth, range_succ, daysInMonth, hleap]

/-- **`daysFromCivil` counts the days.** -/
theorem daysFromCivil_eq {date : Date} (h : 1 ≤ date.month ∧ date.month ≤ 12) :
    daysFromCivil date.year date.month date.day = daysSinceEpoch date := by
  have hera := era_days (if (date.month : Int) ≤ 2 then date.year - 1 else date.year)
  simp only [daysFromCivil, era_eq, month_days date.year h, daysSinceEpoch, daysBeforeYear]
  split at hera
  · next hmonth =>
    rw [if_pos hmonth, if_pos hmonth]
    omega
  · next hmonth =>
    rw [if_neg hmonth, if_neg hmonth]
    split
    · next hleap =>
      rw [isLeap_iff] at hleap
      omega
    · next hleap =>
      rw [isLeap_iff] at hleap
      omega

/-! ## 5. The documented texts are read

`toUtc_outcome`: a documented text whose day is in the calendar is accepted exactly when it is
valid, with the second of its instant. -/

theorem LocalText.valid_iff {l : LocalText} (hday : l.DayInMonth) : l.Valid ↔ l.InRange := by
  constructor
  · rintro ⟨⟨hmonth, hdays⟩, hhour, hminute, hsecond⟩
    exact ⟨hmonth, ⟨hdays.1, hdays.2.trans (daysInMonth_le _ _)⟩, hhour, hminute, hsecond⟩
  · rintro ⟨hmonth, hdays, hhour, hminute, hsecond⟩
    exact ⟨⟨hmonth, hdays.1, hday hmonth.1 hmonth.2 hdays.2⟩, hhour, hminute, hsecond⟩

/-- **A local text** is read exactly when it is valid. -/
theorem localEpochSeconds_valid {l : LocalText} (hday : l.DayInMonth) :
    (¬ l.Valid ∧ ∃ message, localEpochSeconds l.text = .error message) ∨
      l.Valid ∧ localEpochSeconds l.text = .ok l.seconds := by
  rw [l.valid_iff hday]
  refine (localEpochSeconds_text l).imp_right fun ⟨hrange, hread⟩ => ⟨hrange, ?_⟩
  rw [hread, LocalText.seconds,
    ← daysFromCivil_eq (show 1 ≤ l.date.month ∧ l.date.month ≤ 12 from hrange.month)]
  rfl

theorem fractionUnits_lt (k : Nat) (ds : List (Fin 10)) : fractionUnits k ds < 10 ^ k := by
  induction k generalizing ds with
  | zero => exact Nat.one_pos
  | succ k ih =>
    cases ds with
    | nil => exact Nat.pow_pos (by decide)
    | cons d ds =>
      have := ih ds
      have := Nat.mul_le_mul_right (10 ^ k) (Nat.le_of_lt_succ d.isLt)
      rw [fractionUnits, Nat.pow_succ]
      omega

theorem Documented.instantNs_div (d : Documented) :
    d.instantNs / 10 ^ 9 = d.localText.seconds - (d.offset?.map OffsetText.seconds).getD 0 := by
  have := fractionUnits_lt 9 d.localText.fraction
  unfold instantNs
  omega

theorem toUtc_zulu (l : LocalText) (upper : Bool) :
    toUtc (Documented.zulu l upper).arguments = localEpochSeconds l.text := by
  rw [Documented.arguments, toUtc, List.getLast?_concat, dropLast_concat, if_pos]
  cases upper <;> simp

theorem digitChar_ne_zulu {d : Nat} (h : d < 10) : Nat.digitChar d ≠ 'Z' ∧ Nat.digitChar d ≠ 'z' := by
  interval_cases d <;> decide

theorem getLast?_offset (l : LocalText) (o : OffsetText) :
    ¬ ((l.text ++ o.text).getLast? = some 'Z' ∨ (l.text ++ o.text).getLast? = some 'z') := by
  have hlast : (l.text ++ o.text).getLast? = some (Nat.digitChar (o.minutes % 10)) := by
    rw [show o.text = (if o.negative then '-' else '+') :: twoDigits o.hours ++
      [':', Nat.digitChar (o.minutes / 10)] ++ [Nat.digitChar (o.minutes % 10)] by
        simp [OffsetText.text, twoDigits], ← append_assoc, List.getLast?_concat]
  have hzulu := digitChar_ne_zulu (show o.minutes % 10 < 10 by omega)
  simp [hlast, hzulu]

theorem length_offset (l : LocalText) (o : OffsetText) :
    (l.text ++ o.text).length = l.text.length + 6 := length_append

theorem toUtc_withOffset (l : LocalText) (o : OffsetText) :
    toUtc (Documented.withOffset l o).arguments = toUtc (Documented.apart l o).arguments := by
  have hlocal := l.length_text
  have hlength := length_offset l o
  simp only [Documented.arguments, toUtc]
  rw [if_neg (getLast?_offset l o), if_neg (by omega), hlength, Nat.add_sub_cancel, take_left,
    drop_left]

theorem toUtc_apart {l : LocalText} (hday : l.DayInMonth) (o : OffsetText) :
    (¬ (l.Valid ∧ o.Valid) ∧ ∃ message, toUtc [l.text, o.text] = .error message) ∨
      (l.Valid ∧ o.Valid) ∧ toUtc [l.text, o.text] = .ok (l.seconds - o.seconds) := by
  rw [toUtc]
  rcases localEpochSeconds_valid hday with ⟨hbad, message, herror⟩ | ⟨hgood, hok⟩
  · rw [herror]
    exact .inl ⟨fun h => hbad h.1, message, rfl⟩
  rw [hok]
  rcases offsetSeconds_text o with ⟨hbad, message, herror⟩ | ⟨hoffset, hok⟩
  · rw [herror]
    exact .inl ⟨fun h => hbad h.2, message, rfl⟩
  · rw [hok]
    exact .inr ⟨⟨hgood, hoffset⟩, rfl⟩

/-- **`to_utc` on the documented texts.**  A text whose day, if any month has it, is one of its
month is accepted exactly when it is valid, and then gives the epoch second of its instant. -/
theorem toUtc_outcome (d : Documented) (hday : d.localText.DayInMonth) :
    (¬ d.Valid ∧ ∃ message, toUtc d.arguments = .error message) ∨
      d.Valid ∧ toUtc d.arguments = .ok (d.instantNs / 10 ^ 9) := by
  rw [d.instantNs_div]
  cases d with
  | zulu l upper =>
    rw [toUtc_zulu]
    simpa [Documented.Valid, Documented.offset?, Documented.localText] using
      localEpochSeconds_valid hday
  | withOffset l o =>
    rw [toUtc_withOffset]
    simpa [Documented.Valid, Documented.offset?, Documented.localText, Documented.arguments]
      using toUtc_apart hday o
  | apart l o =>
    simpa [Documented.Valid, Documented.offset?, Documented.localText, Documented.arguments]
      using toUtc_apart hday o

/-! ## 6. Any text

`toUtc_bounds`: no accepted text is near the ends of `int64_t`. -/

theorem digits_lt {acc n : Nat} (h : digits acc text = some n) :
    n < (acc + 1) * 10 ^ text.length := by
  induction text generalizing acc with
  | nil =>
    obtain rfl := some.inj h
    simp
  | cons c rest ih =>
    rw [digits] at h
    split at h
    · next hdigit =>
      have hc := (Char.isDigit_iff_toNat.mp hdigit).2
      rw [show '9'.toNat = 57 from rfl] at hc
      refine (ih h).trans_le ?_
      rw [length_cons, Nat.pow_succ, Nat.mul_comm (10 ^ rest.length), ← Nat.mul_assoc]
      exact Nat.mul_le_mul_right _ (by omega)
    · cases h

theorem fromChars_bounds {value : Int} (h : fromChars text = some value) :
    -10 ^ text.length < value ∧ value < 10 ^ text.length := by
  have hdigits : ∀ {rest : Text} {n : Nat}, rest.length ≤ text.length → digits 0 rest = some n →
      (n : Int) < 10 ^ text.length := by
    intro rest n hle hn
    have hlt := (digits_lt hn).trans_le
      (Nat.mul_le_mul_left (0 + 1) (Nat.pow_le_pow_right (by decide) hle))
    rw [Nat.zero_add, Nat.one_mul] at hlt
    exact_mod_cast hlt
  cases text with
  | nil => cases h
  | cons c rest =>
    rw [fromChars] at h
    split at h
    · split at h
      · cases h
      · obtain ⟨n, hn, rfl⟩ := map_eq_some_iff.mp h
        have := hdigits (by simp) hn
        omega
    · obtain ⟨n, hn, rfl⟩ := map_eq_some_iff.mp h
      have := hdigits le_rfl hn
      simp only [Int.ofNat_eq_natCast]
      omega

theorem decimal_bounds {offset length : Nat} {value : Int}
    (h : decimal text offset length = .ok value) : -10 ^ length < value ∧ value < 10 ^ length := by
  unfold decimal at h
  split at h
  · cases h
  · next hlength =>
    cases hvalue : fromChars ((text.drop offset).take length) with
    | none => rw [hvalue] at h; cases h
    | some v =>
      rw [hvalue] at h
      obtain rfl := Except.ok.inj h
      have := fromChars_bounds hvalue
      rwa [List.length_take, length_drop, Nat.min_eq_left (by omega)] at this

theorem bind_eq_ok {α β : Type} {x : Except String α} {f : α → Except String β} {r : β}
    (h : x >>= f = .ok r) : ∃ a, x = .ok a ∧ f a = .ok r := by
  cases x with
  | error e => cases h
  | ok a => exact ⟨a, rfl, h⟩

/-- **What an accepted local text has gone through**: its numbers, its punctuation, the ranges. -/
theorem localEpochSeconds_ok {r : Int} (h : localEpochSeconds text = .ok r) :
    ∃ year month day hour minute second,
      (decimal text 0 4 = .ok year ∧ decimal text 5 2 = .ok month ∧ decimal text 8 2 = .ok day ∧
        decimal text 11 2 = .ok hour ∧ decimal text 14 2 = .ok minute ∧
        decimal text 17 2 = .ok second) ∧
      (text[4]? = some '-' ∧ text[7]? = some '-' ∧ (text[10]? = some 'T' ∨ text[10]? = some ' ') ∧
        text[13]? = some ':' ∧ text[16]? = some ':') ∧
      (1 ≤ month ∧ month ≤ 12 ∧ 1 ≤ day ∧ day ≤ 31 ∧ hour ≤ 23 ∧ minute ≤ 59 ∧ second ≤ 59) ∧
      r = daysFromCivil year month day * 86400 + hour * 3600 + minute * 60 + second := by
  unfold localEpochSeconds at h
  split at h
  · cases h
  next hshape =>
  obtain ⟨year, hyear, h⟩ := bind_eq_ok h
  obtain ⟨month, hmonth, h⟩ := bind_eq_ok h
  obtain ⟨day, hday, h⟩ := bind_eq_ok h
  obtain ⟨hour, hhour, h⟩ := bind_eq_ok h
  obtain ⟨minute, hminute, h⟩ := bind_eq_ok h
  obtain ⟨second, hsecond, h⟩ := bind_eq_ok h
  split at h
  · cases h
  next hchecked =>
  simp only [not_or, not_and_or, ne_eq, not_not, not_lt] at hshape hchecked
  obtain ⟨h4, h7, h13, h16, hranges⟩ := hchecked
  exact ⟨year, month, day, hour, minute, second,
    ⟨hyear, hmonth, hday, hhour, hminute, hsecond⟩, ⟨h4, h7, hshape.2, h13, h16⟩, hranges,
    (Except.ok.inj h).symm⟩

theorem localEpochSeconds_bounds {r : Int} (h : localEpochSeconds text = .ok r) :
    -10 ^ 12 < r + 10 ^ 6 ∧ r < 10 ^ 12 - 10 ^ 6 := by
  obtain ⟨year, month, day, hour, minute, second, ⟨hyear, -, -, hhour, hminute, hsecond⟩, -, hranges,
    rfl⟩ := localEpochSeconds_ok h
  have hyear := decimal_bounds hyear
  have hhour := decimal_bounds hhour
  have hminute := decimal_bounds hminute
  have hsecond := decimal_bounds hsecond
  have hdays : -5000000 < daysFromCivil year month day ∧ daysFromCivil year month day < 5000000 := by
    unfold daysFromCivil
    simp only [era_eq]
    omega
  omega

theorem offsetSeconds_bounds {r : Int} (h : offsetSeconds text = .ok r) :
    -10 ^ 6 < r ∧ r < 10 ^ 6 := by
  unfold offsetSeconds at h
  split at h
  · cases h
  obtain ⟨hours, hhours, h⟩ := bind_eq_ok h
  obtain ⟨minutes, hminutes, h⟩ := bind_eq_ok h
  split at h
  · cases h
  have hhours := decimal_bounds hhours
  have hminutes := decimal_bounds hminutes
  obtain rfl := Except.ok.inj h
  split <;> omega

/-- **No accepted text** comes near the ends of `int64_t`. -/
theorem toUtc_bounds {arguments : List Text} {r : Int} (h : toUtc arguments = .ok r) :
    -10 ^ 12 - 10 ^ 7 < r ∧ r < 10 ^ 12 + 10 ^ 7 := by
  have happart : ∀ {text zone : Text} {r : Int}, toUtc [text, zone] = .ok r →
      -10 ^ 12 - 10 ^ 7 < r ∧ r < 10 ^ 12 + 10 ^ 7 := by
    intro text zone r h
    rw [toUtc] at h
    obtain ⟨seconds, hseconds, h⟩ := bind_eq_ok h
    obtain ⟨offset, hoffset, h⟩ := bind_eq_ok h
    obtain rfl := Except.ok.inj h
    have := localEpochSeconds_bounds hseconds
    have := offsetSeconds_bounds hoffset
    omega
  unfold toUtc at h
  split at h
  · split at h
    · have := localEpochSeconds_bounds h
      omega
    · split at h
      · cases h
      · exact happart h
  · exact happart h
  · cases h

/-! ## 7. Every accepted text

Three things are accepted that no documented text has: any characters after the seconds, a minus
sign in a numeric field, and a day after the last one of its month.  A text without them is accepted
only if it is a documented one.

`toUtc_plain`: of all texts without the three, exactly the valid documented ones are accepted. -/

/-- The local date-time and the offset that a call is read as. -/
def parts : List Text → Option (Text × Option Text)
  | [timestamp] =>
    if timestamp.getLast? = some 'Z' ∨ timestamp.getLast? = some 'z' then
      some (timestamp.dropLast, none)
    else some (timestamp.take (timestamp.length - 6), some (timestamp.drop (timestamp.length - 6)))
  | [timestamp, zone] => some (timestamp, some zone)
  | _ => none

/-- No numeric field has a minus sign, and after the seconds there is a fraction or nothing. -/
structure PlainLocal (text : Text) : Prop where
  unsigned : ∀ i ∈ [0, 5, 8, 11, 14, 17], text[i]? ≠ some '-'
  fraction : ∃ ds, text.drop 19 = fractionText ds

/-- None of the three things stands in the arguments. -/
structure Plain (arguments : List Text) : Prop where
  localText : ∀ text zone, parts arguments = some (text, zone) → PlainLocal text
  day : ∀ l : LocalText, ∀ zone, parts arguments = some (l.text, zone) → l.DayInMonth
  offset : ∀ text zone, parts arguments = some (text, some zone) → ∀ i ∈ [1, 4], zone[i]? ≠ some '-'

theorem digitChar_of_isDigit {c : Char} (h : c.isDigit = true) :
    c.toNat - 48 < 10 ∧ Nat.digitChar (c.toNat - 48) = c := by
  have hc := Char.isDigit_iff_toNat.mp h
  rw [show '0'.toNat = 48 from rfl, show '9'.toNat = 57 from rfl] at hc
  have hlt : c.toNat - 48 < 10 := by omega
  refine ⟨hlt, Char.toNat_inj.mp ?_⟩
  rw [Nat.toNat_digitChar_of_lt_ten hlt]
  omega

theorem digits_two {a b : Char} {rest : Text} {acc n : Nat}
    (h : digits acc (a :: b :: rest) = some n) :
    ∃ m < 100, [a, b] = twoDigits m ∧ digits (acc * 100 + m) rest = some n := by
  simp only [digits] at h
  split at h
  · next ha =>
    split at h
    · next hb =>
      obtain ⟨ha, hachar⟩ := digitChar_of_isDigit ha
      obtain ⟨hb, hbchar⟩ := digitChar_of_isDigit hb
      refine ⟨(a.toNat - 48) * 10 + (b.toNat - 48), by omega, ?_, ?_⟩
      · rw [twoDigits, show ((a.toNat - 48) * 10 + (b.toNat - 48)) / 10 = a.toNat - 48 by omega,
          show ((a.toNat - 48) * 10 + (b.toNat - 48)) % 10 = b.toNat - 48 by omega, hachar, hbchar]
      · rw [← h]
        congr 1
        omega
    · cases h
  · cases h

theorem fromChars_inv_two {a b : Char} {value : Int} (ha : a ≠ '-')
    (h : fromChars [a, b] = some value) : ∃ n < 100, [a, b] = twoDigits n ∧ value = n := by
  rw [fromChars, if_neg ha] at h
  obtain ⟨n, hn, rfl⟩ := map_eq_some_iff.mp h
  obtain ⟨m, hm, htext, hrest⟩ := digits_two hn
  obtain rfl : 0 * 100 + m = n := some.inj hrest
  exact ⟨m, hm, htext, by simp⟩

theorem fromChars_inv_four {a b c d : Char} {value : Int} (ha : a ≠ '-')
    (h : fromChars [a, b, c, d] = some value) :
    ∃ n < 10000, [a, b, c, d] = twoDigits (n / 100) ++ twoDigits (n % 100) ∧ value = n := by
  rw [fromChars, if_neg ha] at h
  obtain ⟨n, hn, rfl⟩ := map_eq_some_iff.mp h
  obtain ⟨m, hm, htext, hrest⟩ := digits_two hn
  obtain ⟨m', hm', htext', hrest'⟩ := digits_two hrest
  obtain rfl : (0 * 100 + m) * 100 + m' = n := some.inj hrest'
  refine ⟨m * 100 + m', by omega, ?_, by simp⟩
  rw [show (m * 100 + m') / 100 = m by omega, show (m * 100 + m') % 100 = m' by omega, ← htext,
    ← htext']
  rfl

theorem decimal_ok {offset length : Nat} {value : Int} (h : decimal text offset length = .ok value) :
    offset + length ≤ text.length ∧ fromChars ((text.drop offset).take length) = some value := by
  unfold decimal at h
  split at h
  · cases h
  · next hlength =>
    split at h
    · next v hv => exact ⟨not_lt.mp hlength, by rw [hv, Except.ok.inj h]⟩
    · cases h

theorem decimal_two {offset : Nat} {value : Int} (hsign : text[offset]? ≠ some '-')
    (h : decimal text offset 2 = .ok value) :
    ∃ n < 100, text.drop offset = twoDigits n ++ text.drop (offset + 2) := by
  obtain ⟨hlength, h⟩ := decimal_ok h
  have hrest : text.drop (offset + 2) = (text.drop offset).drop 2 := by rw [drop_drop]
  have hhead : text[offset]? = (text.drop offset).head? := by simp
  have hlength' : 2 ≤ (text.drop offset).length := by
    rw [length_drop]
    omega
  rw [hhead] at hsign
  rw [hrest]
  generalize text.drop offset = field at *
  obtain _ | ⟨a, _ | ⟨b, rest⟩⟩ := field
  · simp at hlength'
  · simp at hlength'
  · obtain ⟨n, hn, hfield, -⟩ := fromChars_inv_two (by simpa using hsign) h
    exact ⟨n, hn, by rw [← hfield]; rfl⟩

theorem decimal_four {value : Int} (hsign : text[0]? ≠ some '-')
    (h : decimal text 0 4 = .ok value) :
    ∃ n < 10000, text = twoDigits (n / 100) ++ twoDigits (n % 100) ++ text.drop 4 := by
  obtain ⟨hlength, h⟩ := decimal_ok h
  obtain _ | ⟨a, _ | ⟨b, _ | ⟨c, _ | ⟨d, rest⟩⟩⟩⟩ := text
  iterate 4 · simp at hlength
  obtain ⟨n, hn, hfield, -⟩ := fromChars_inv_four (by simpa using hsign) h
  exact ⟨n, hn, by rw [← hfield]; rfl⟩

theorem drop_of_getElem? {i : Nat} {c : Char} (h : text[i]? = some c) :
    text.drop i = c :: text.drop (i + 1) := by
  obtain ⟨hlt, hc⟩ := List.getElem?_eq_some_iff.mp h
  rw [drop_eq_getElem_cons hlt, hc]

/-- **An accepted local text is a documented one**, if it is plain. -/
theorem localEpochSeconds_inv {r : Int} (hplain : PlainLocal text)
    (h : localEpochSeconds text = .ok r) : ∃ l : LocalText, l.text = text := by
  have hunsigned := hplain.unsigned
  simp only [forall_mem_cons, not_mem_nil, false_implies, implies_true,
    and_true] at hunsigned
  obtain ⟨s0, s5, s8, s11, s14, s17⟩ := hunsigned
  obtain ⟨ds, hfraction⟩ := hplain.fraction
  obtain ⟨year, month, day, hour, minute, second, ⟨hyear, hmonth, hday, hhour, hminute, hsecond⟩,
    ⟨h4, h7, h10, h13, h16⟩, -, -⟩ := localEpochSeconds_ok h
  obtain ⟨year, hyear, tyear⟩ := decimal_four s0 hyear
  obtain ⟨month, hmonth, tmonth⟩ := decimal_two s5 hmonth
  obtain ⟨day, hday, tday⟩ := decimal_two s8 hday
  obtain ⟨hour, hhour, thour⟩ := decimal_two s11 hhour
  obtain ⟨minute, hminute, tminute⟩ := decimal_two s14 hminute
  obtain ⟨second, hsecond, tsecond⟩ := decimal_two s17 hsecond
  obtain ⟨spaced, hsep⟩ : ∃ spaced : Bool, text[10]? = some (if spaced then ' ' else 'T') := by
    rcases h10 with hT | hspace
    · exact ⟨false, hT⟩
    · exact ⟨true, hspace⟩
  refine ⟨⟨year, month, day, hour, minute, second, spaced, ds, hyear, hmonth, hday, hhour, hminute,
    hsecond⟩, ?_⟩
  rw [tyear, drop_of_getElem? h4, tmonth, drop_of_getElem? h7, tday, drop_of_getElem? hsep, thour,
    drop_of_getElem? h13, tminute, drop_of_getElem? h16, tsecond, hfraction]
  simp [LocalText.text]

theorem offsetSeconds_inv {r : Int} (hplain : ∀ i ∈ [1, 4], text[i]? ≠ some '-')
    (h : offsetSeconds text = .ok r) : ∃ o : OffsetText, o.text = text := by
  simp only [forall_mem_cons, not_mem_nil, false_implies, implies_true,
    and_true] at hplain
  obtain ⟨s1, s4⟩ := hplain
  unfold offsetSeconds at h
  split at h
  · cases h
  next hshape =>
  simp only [not_or, not_and_or, ne_eq, not_not] at hshape
  obtain ⟨hlength, hsign, h3⟩ := hshape
  obtain ⟨hours, hhours, h⟩ := bind_eq_ok h
  obtain ⟨minutes, hminutes, h⟩ := bind_eq_ok h
  obtain ⟨hours, hhours, thours⟩ := decimal_two s1 hhours
  obtain ⟨minutes, hminutes, tminutes⟩ := decimal_two s4 hminutes
  obtain ⟨negative, hsign⟩ : ∃ negative : Bool, text[0]? = some (if negative then '-' else '+') := by
    rcases hsign with hplus | hminus
    · exact ⟨false, hplus⟩
    · exact ⟨true, hminus⟩
  have hend : text.drop 6 = [] := drop_eq_nil_of_le (Nat.le_of_eq hlength)
  refine ⟨⟨negative, hours, minutes, hhours, hminutes⟩, ?_⟩
  rw [← drop_zero (l := text), drop_of_getElem? hsign, thours, drop_of_getElem? h3, tminutes,
    hend]
  simp [OffsetText.text]

/-- **Every accepted text is documented**, if it is plain. -/
theorem toUtc_inv {arguments : List Text} {r : Int} (hplain : Plain arguments)
    (h : toUtc arguments = .ok r) : ∃ d : Documented, d.arguments = arguments := by
  have hlocal := hplain.localText
  have hoffset := hplain.offset
  unfold toUtc at h
  split at h
  · next timestamp =>
    split at h
    · next hzulu =>
      have hparts : parts [timestamp] = some (timestamp.dropLast, none) := if_pos hzulu
      obtain ⟨l, hl⟩ := localEpochSeconds_inv (hlocal _ _ hparts) h
      rcases hzulu with hupper | hlower
      · obtain ⟨text, rfl⟩ := List.getLast?_eq_some_iff.mp hupper
        rw [dropLast_concat] at hl
        exact ⟨.zulu l true, by rw [Documented.arguments, hl, if_pos rfl]⟩
      · obtain ⟨text, rfl⟩ := List.getLast?_eq_some_iff.mp hlower
        rw [dropLast_concat] at hl
        exact ⟨.zulu l false, by rw [Documented.arguments, hl, if_neg Bool.false_ne_true]⟩
    · next hzulu =>
      have hparts : parts [timestamp] = some (timestamp.take (timestamp.length - 6),
          some (timestamp.drop (timestamp.length - 6))) := if_neg hzulu
      split at h
      · cases h
      · obtain ⟨seconds, hseconds, h⟩ := bind_eq_ok h
        obtain ⟨offset, ho, -⟩ := bind_eq_ok h
        obtain ⟨l, hl⟩ := localEpochSeconds_inv (hlocal _ _ hparts) hseconds
        obtain ⟨o, ho⟩ := offsetSeconds_inv (hoffset _ _ hparts) ho
        refine ⟨.withOffset l o, ?_⟩
        rw [Documented.arguments, hl, ho, take_append_drop]
  · next timestamp zone =>
    obtain ⟨seconds, hseconds, h⟩ := bind_eq_ok h
    obtain ⟨offset, ho, -⟩ := bind_eq_ok h
    obtain ⟨l, hl⟩ := localEpochSeconds_inv (hlocal _ _ rfl) hseconds
    obtain ⟨o, ho⟩ := offsetSeconds_inv (hoffset _ _ rfl) ho
    refine ⟨.apart l o, ?_⟩
    rw [Documented.arguments, hl, ho]
  · cases h

theorem parts_arguments (d : Documented) :
    parts d.arguments = some (d.localText.text, d.offset?.map OffsetText.text) := by
  cases d with
  | zulu l upper =>
    rw [Documented.arguments, parts, if_pos (by cases upper <;> simp), dropLast_concat]
    rfl
  | withOffset l o =>
    rw [Documented.arguments, parts, if_neg (getLast?_offset l o), length_offset,
      Nat.add_sub_cancel, take_left, drop_left]
    rfl
  | apart l o => rfl

theorem LocalText.date_of_text {l l' : LocalText} (h : l.text = l'.text) : l.date = l'.date := by
  obtain ⟨hyear, hmonth, hday, -⟩ := l.fields
  obtain ⟨hyear', hmonth', hday', -⟩ := l'.fields
  rw [h] at hyear hmonth hday
  have hy := Except.ok.inj (hyear.symm.trans hyear')
  have hm := Int.ofNat.inj (Except.ok.inj (hmonth.symm.trans hmonth'))
  have hd := Int.ofNat.inj (Except.ok.inj (hday.symm.trans hday'))
  rw [LocalText.date, LocalText.date, hy, hm, hd]

theorem tens_unsigned {n : Nat} (h : n < 100) : some (Nat.digitChar (n / 10)) ≠ some '-' :=
  fun hc => (digitChar_isDigit (show n / 10 < 10 by omega)).2.2 (some.inj hc)

theorem LocalText.plain (l : LocalText) : PlainLocal l.text := by
  have hyear := l.year_lt
  constructor
  · simp only [forall_mem_cons, not_mem_nil, false_implies, implies_true, and_true]
    exact ⟨tens_unsigned (by omega), tens_unsigned l.month_lt, tens_unsigned l.day_lt,
      tens_unsigned l.hour_lt, tens_unsigned l.minute_lt, tens_unsigned l.second_lt⟩
  · exact ⟨l.fraction, rfl⟩

theorem OffsetText.unsigned (o : OffsetText) : ∀ i ∈ [1, 4], o.text[i]? ≠ some '-' := by
  simp only [forall_mem_cons, not_mem_nil, false_implies, implies_true, and_true]
  exact ⟨tens_unsigned o.hours_lt, tens_unsigned o.minutes_lt⟩

theorem Documented.plain (d : Documented) (hday : d.localText.DayInMonth) : Plain d.arguments := by
  have hparts := parts_arguments d
  constructor
  · intro text zone h
    obtain ⟨rfl, rfl⟩ := Prod.mk.inj (some.inj (hparts.symm.trans h))
    exact d.localText.plain
  · intro l zone h
    obtain ⟨htext, -⟩ := Prod.mk.inj (some.inj (hparts.symm.trans h))
    have hdate : l.date = d.localText.date := LocalText.date_of_text htext.symm
    obtain ⟨hyear, hmonth, hdays⟩ := Date.mk.inj hdate
    unfold LocalText.DayInMonth
    rwa [hyear, hmonth, hdays]
  · intro text zone h
    obtain ⟨-, hzone⟩ := Prod.mk.inj (some.inj (hparts.symm.trans h))
    obtain ⟨o, -, rfl⟩ := map_eq_some_iff.mp hzone
    exact o.unsigned

/-- **What is accepted of the plain texts**: those of a documented form that are valid. -/
theorem toUtc_plain {arguments : List Text} (hplain : Plain arguments) :
    (∃ r, toUtc arguments = .ok r) ↔ ∃ d : Documented, d.Valid ∧ d.arguments = arguments := by
  constructor
  · rintro ⟨r, hr⟩
    obtain ⟨d, rfl⟩ := toUtc_inv hplain hr
    refine ⟨d, ?_, rfl⟩
    rcases toUtc_outcome d (hplain.day _ _ (parts_arguments d)) with ⟨-, message, herror⟩ | ⟨hgood, -⟩
    · rw [hr] at herror
      cases herror
    · exact hgood
  · rintro ⟨d, hvalid, rfl⟩
    rcases toUtc_outcome d fun _ _ _ => hvalid.1.date.day.2 with ⟨hbad, -⟩ | ⟨-, hok⟩
    · exact absurd hvalid hbad
    · exact ⟨_, hok⟩

end MldpDriver.Query.Utc

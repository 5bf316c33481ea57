/-
# `from_utc` and back

`from_utc(timestamp, zone)` renders an instant in a fixed offset or an IANA zone, as a local
date-time with its offset, and `to_utc` reads such texts.
-/
import MldpDriver.Query.ToUtc
import MldpDriver.Query.ExpressionEvaluator
import MldpDriver.Query.WindowScan

namespace MldpDriver.Query.Utc

open Lib.CivilDate
open Evaluator (TimeUnit)

/-! ## 1. `from_utc`

The date library is a parameter (`DateLib`): its `%FT%T` writes a date-time as `LocalText` does,
and its `%Ez` an offset of whole minutes as `offsetText` does.  A zone has its offset at every
instant. -/

/-- What is used of the date library. -/
structure DateLib where
  /-- `%FT%T` of local seconds -/
  format : Int → Text
  /-- `%Ez` of an offset in seconds -/
  formatOffset : Int → Text
  /-- `locate_zone`, and the offset of the zone at an instant -/
  locateZone : Text → Except String (Int → Int)

def unitsPerSecond : TimeUnit → Int
  | .second => 1
  | .milli => 1000
  | .micro => 1000000
  | .nano => 1000000000

/-- `timestampSeconds`; division rounds down. -/
def timestampSeconds (unit : TimeUnit) (value : Int) : Int := value / unitsPerSecond unit

theorem timestampSeconds_nano (value : Int) :
    timestampSeconds .nano value = value / 1000000000 := rfl

def offsetField (text : Text) (offset length : Nat) : Except String Int :=
  match fromChars ((text.drop offset).take length) with
  | some value => .ok value
  | none => .error ("invalid UTC offset: " ++ String.ofList text)

def fixedOffsetSeconds (value : Text) : Except String (Option Int) :=
  if value.length ≠ 6 ∨ value[0]? ≠ some '+' ∧ value[0]? ≠ some '-' ∨ value[3]? ≠ some ':' then
    .ok none
  else do
    let hours ← offsetField value 1 2
    let minutes ← offsetField value 4 2
    if 23 < hours ∨ 59 < minutes then .error ("invalid UTC offset: " ++ String.ofList value)
    else
      let seconds := hours * 3600 + minutes * 60
      .ok (some (if value[0]? = some '-' then -seconds else seconds))

def offsetText (offsetSeconds : Int) : Text :=
  let absolute := offsetSeconds.natAbs
  (if offsetSeconds < 0 then '-' else '+') :: twoDigits (absolute / 3600) ++
    ':' :: twoDigits (absolute % 3600 / 60)

def fromUtc (lib : DateLib) (unit : TimeUnit) (value : Int) (zone : Text) : Except String Text := do
  let utc := timestampSeconds unit value
  match ← fixedOffsetSeconds zone with
  | some offset => .ok (lib.format (utc + offset) ++ offsetText offset)
  | none =>
    if zone[0]? = some '+' ∨ zone[0]? = some '-' then
      .error ("invalid UTC offset: " ++ String.ofList zone ++ "; expected +/-HH:MM")
    else
      match lib.locateZone zone with
      | .ok offsetAt => .ok (lib.format (utc + offsetAt utc) ++ lib.formatOffset (offsetAt utc))
      | .error what =>
        .error ("unknown IANA timezone '" ++ String.ofList zone ++ "': " ++ what)

/-! ## 2. The date library -/

/-- Whole minutes, of less than a day. -/
def WholeMinutes (offset : Int) : Prop := offset % 60 = 0 ∧ -86400 < offset ∧ offset < 86400

/-- The second lies in the years from 0 to 9799. -/
def InYears (n : Int) : Prop := -62167219200 ≤ n ∧ n < 250000000000

/-- The library writes dates and offsets as documented. -/
structure DateLib.Formats (lib : DateLib) : Prop where
  civil : ∀ n, InYears n → ∃ l : LocalText, l.Valid ∧ l.seconds = n ∧ lib.format n = l.text
  offset : ∀ offset, WholeMinutes offset → lib.formatOffset offset = offsetText offset

/-! ## 3. Back again

`fromUtc_toUtc`: every nanosecond timestamp comes back as its second. -/

theorem exists_offsetText {offset : Int} (h : WholeMinutes offset) :
    ∃ o : OffsetText, o.Valid ∧ o.text = offsetText offset ∧ o.seconds = offset := by
  obtain ⟨hminutes, hlo, hhi⟩ := h
  refine ⟨⟨decide (offset < 0), offset.natAbs / 3600, offset.natAbs % 3600 / 60, by omega, by omega⟩,
    ⟨by dsimp only; omega, by dsimp only; omega⟩, ?_, ?_⟩
  · simp [OffsetText.text, offsetText]
  · unfold OffsetText.seconds
    dsimp only
    by_cases hneg : offset < 0
    · simp only [hneg, decide_true, if_true]
      omega
    · simp only [hneg, decide_false, Bool.false_eq_true, if_false]
      omega

/-- **A local date-time with its offset** is read as the instant. -/
theorem toUtc_localTime {lib : DateLib} (hlib : lib.Formats) {utc offset : Int}
    (hoffset : WholeMinutes offset) (hyears : InYears (utc + offset)) :
    toUtc [lib.format (utc + offset) ++ offsetText offset] = .ok utc := by
  obtain ⟨l, hvalid, hseconds, htext⟩ := hlib.civil _ hyears
  obtain ⟨o, hovalid, hotext, hoseconds⟩ := exists_offsetText hoffset
  rw [htext, ← hotext]
  have hday : (Documented.withOffset l o).localText.DayInMonth := fun _ _ _ => hvalid.date.day.2
  have hok := (toUtc_outcome (.withOffset l o) hday).resolve_left fun h =>
    h.1 ⟨hvalid, fun o' ho' => by rwa [← Option.some.inj ho']⟩
  rw [Documented.instantNs_div] at hok
  refine hok.2.trans ?_
  simp only [Documented.localText, Documented.offset?, Option.map_some, Option.getD_some, hseconds,
    hoseconds, Int.add_sub_cancel]

theorem fromChars_two_bounds {text : Text} (hlength : text.length ≤ 2) {value : Int}
    (h : fromChars text = some value) : -10 < value := by
  cases text with
  | nil => cases h
  | cons c rest =>
    rw [fromChars] at h
    split at h
    · split at h
      · cases h
      · obtain ⟨n, hn, rfl⟩ := Option.map_eq_some_iff.mp h
        have hlt := digits_lt hn
        have : 10 ^ rest.length ≤ 10 ^ 1 :=
          Nat.pow_le_pow_right (by decide) (by simpa using hlength)
        omega
    · obtain ⟨n, -, rfl⟩ := Option.map_eq_some_iff.mp h
      simp only [Int.ofNat_eq_natCast]
      omega

theorem offsetField_bounds {text : Text} {offset : Nat} {value : Int}
    (h : offsetField text offset 2 = .ok value) : -10 < value := by
  unfold offsetField at h
  split at h
  · next v hv =>
    obtain rfl := Except.ok.inj h
    exact fromChars_two_bounds (List.length_take_le _ _) hv
  · cases h

theorem fixedOffsetSeconds_wholeMinutes {zone : Text} {offset : Int}
    (h : fixedOffsetSeconds zone = .ok (some offset)) : WholeMinutes offset := by
  unfold fixedOffsetSeconds at h
  split at h
  · cases h
  obtain ⟨hours, hhours, h⟩ := bind_eq_ok h
  obtain ⟨minutes, hminutes, h⟩ := bind_eq_ok h
  have hhours := offsetField_bounds hhours
  have hminutes := offsetField_bounds hminutes
  split at h
  · cases h
  obtain rfl := Option.some.inj (Except.ok.inj h)
  unfold WholeMinutes
  split <;> omega

/-- The zone, if it is no fixed offset, is whole minutes from UTC at the instant. -/
def ZoneInMinutes (lib : DateLib) (zone : Text) (utc : Int) : Prop :=
  ∀ offsetAt, lib.locateZone zone = .ok offsetAt → WholeMinutes (offsetAt utc)

/-- **There and back**: a nanosecond timestamp comes back as its second. -/
theorem fromUtc_toUtc {lib : DateLib} (hlib : lib.Formats) {value : Int}
    (hvalue : int64Min ≤ value ∧ value ≤ int64Max) {zone out : Text}
    (hzone : ZoneInMinutes lib zone (timestampSeconds .nano value))
    (h : fromUtc lib .nano value zone = .ok out) :
    toUtc [out] = .ok (timestampSeconds .nano value) := by
  have hutc : -9223372037 ≤ timestampSeconds .nano value ∧
      timestampSeconds .nano value ≤ 9223372036 := by
    obtain ⟨hlo, hhi⟩ := hvalue
    unfold int64Min at hlo
    unfold int64Max at hhi
    rw [timestampSeconds_nano]
    omega
  obtain ⟨fixed, hfixed, h⟩ := bind_eq_ok h
  cases fixed with
  | some offset =>
    obtain rfl := Except.ok.inj h
    have hoffset := fixedOffsetSeconds_wholeMinutes hfixed
    have hrange := hoffset.2
    exact toUtc_localTime hlib hoffset ⟨by omega, by omega⟩
  | none =>
    dsimp only at h
    split at h
    · cases h
    split at h
    · next offsetAt hlocate =>
      obtain rfl := Except.ok.inj h
      have hoffset := hzone offsetAt hlocate
      have hrange := hoffset.2
      rw [hlib.offset _ hoffset]
      exact toUtc_localTime hlib hoffset ⟨by omega, by omega⟩
    · cases h

theorem fixedOffsetSeconds_text {o : OffsetText} (h : o.Valid) :
    fixedOffsetSeconds o.text = .ok (some o.seconds) := by
  have hhours : offsetField o.text 1 2 = .ok (o.hours : Int) := by
    rw [offsetField, show (o.text.drop 1).take 2 = twoDigits o.hours from rfl,
      fromChars_two o.hours_lt]
  have hminutes : offsetField o.text 4 2 = .ok (o.minutes : Int) := by
    rw [offsetField, show (o.text.drop 4).take 2 = twoDigits o.minutes from rfl,
      fromChars_two o.minutes_lt]
  have hsign : o.text[0]? = some (if o.negative then '-' else '+') := rfl
  have hvalid := h.hours
  have hvalid' := h.minutes
  rw [fixedOffsetSeconds, if_neg, hhours, hminutes, hsign]
  · simp only [bind, Except.bind]
    rw [if_neg (by omega)]
    unfold OffsetText.seconds
    cases o.negative <;> simp
  · rw [hsign, show o.text[3]? = some ':' from rfl, show o.text.length = 6 from rfl]
    cases o.negative <;> simp

/-! ## 4. What `to_utc` accepts and returns -/

/-- **The texts of `to_utc`.**  Of the texts without the three things that the reader takes beyond
its documentation (`Plain`), it accepts those of a documented form that are valid and rejects all
others; a documented text has none of the three but possibly the day, and if that is in the calendar
it gives the second of its instant.  No accepted text, plain or not, leaves the range of `int64_t`;
and what `from_utc` writes of a nanosecond timestamp is read as its second. -/
theorem utc_texts (lib : DateLib) (hlib : lib.Formats) :
    (∀ arguments, Plain arguments →
      ((∃ r, toUtc arguments = .ok r) ↔ ∃ d : Documented, d.Valid ∧ d.arguments = arguments)) ∧
    (∀ d : Documented, d.localText.DayInMonth →
      Plain d.arguments ∧ ((∃ r, toUtc d.arguments = .ok r) ↔ d.Valid) ∧
        (d.Valid → toUtc d.arguments = .ok (d.instantNs / 10 ^ 9))) ∧
    (∀ arguments r, toUtc arguments = .ok r → int64Min < r ∧ r < int64Max) ∧
    ∀ value, int64Min ≤ value ∧ value ≤ int64Max →
      (∀ o : OffsetText, o.Valid → ∃ out, fromUtc lib .nano value o.text = .ok out) ∧
      ∀ zone out, ZoneInMinutes lib zone (timestampSeconds .nano value) →
        fromUtc lib .nano value zone = .ok out →
          toUtc [out] = .ok (timestampSeconds .nano value) := by
  refine ⟨fun _ hplain => toUtc_plain hplain, fun d hday => ⟨d.plain hday, ?_⟩,
    fun arguments r hr => ?_, fun value hvalue =>
      ⟨fun o ho => ?_, fun zone out hzone hout => fromUtc_toUtc hlib hvalue hzone hout⟩⟩
  · rcases toUtc_outcome d hday with ⟨hbad, message, herror⟩ | ⟨hgood, hok⟩
    · rw [herror]
      exact ⟨iff_of_false nofun hbad, fun h => absurd h hbad⟩
    · rw [hok]
      exact ⟨iff_of_true ⟨_, rfl⟩ hgood, fun _ => rfl⟩
  · have := toUtc_bounds hr
    unfold int64Min int64Max
    omega
  · rw [fromUtc, fixedOffsetSeconds_text ho]
    exact ⟨_, rfl⟩

/-- The date-time of a local second. -/
def isoText (n : Int) : Text :=
  let date := dateFrom (n / 86400 + 719528).toNat
  let year := date.year.toNat
  twoDigits (year / 100) ++ twoDigits (year % 100) ++ '-' :: twoDigits date.month ++
    '-' :: twoDigits date.day ++ 'T' :: twoDigits (n % 86400 / 3600).toNat ++
    ':' :: twoDigits (n % 3600 / 60).toNat ++ ':' :: twoDigits (n % 60).toNat

/-- A library that knows UTC only. -/
def isoLib : DateLib where
  format := isoText
  formatOffset := offsetText
  locateZone zone := if zone = "UTC".toList then .ok fun _ => 0 else .error "not found"

theorem isoLib_formats : isoLib.Formats where
  civil n h := by
    obtain ⟨hlo, hhi⟩ := h
    obtain ⟨hvalid, hyear, hdays⟩ := dateFrom_spec (n / 86400 + 719528).toNat
    have hle := year_le hvalid hyear
    rw [hdays] at hle
    have hmonth := hvalid.month
    have hday := hvalid.day.2.trans (daysInMonth_le _ _)
    refine ⟨⟨(dateFrom (n / 86400 + 719528).toNat).year.toNat,
      (dateFrom (n / 86400 + 719528).toNat).month, (dateFrom (n / 86400 + 719528).toNat).day,
      (n % 86400 / 3600).toNat, (n % 3600 / 60).toNat, (n % 60).toNat, false, [], by omega, by omega,
      by omega, by omega, by omega, by omega⟩, ⟨?_, by dsimp only; omega, by dsimp only; omega,
      by dsimp only; omega⟩, ?_, by simp [isoLib, isoText, LocalText.text, fractionText]⟩
    · simpa only [LocalText.date, Int.toNat_of_nonneg hyear] using hvalid
    · simp only [LocalText.seconds, LocalText.date, Int.toNat_of_nonneg hyear, hdays]
      omega
  offset _ _ := rfl

/-- Five and a half hours east. -/
def indianOffset : OffsetText := ⟨false, 5, 30, by decide, by decide⟩

/-- A leap day, a blank between date and time, three digits of a second and an offset. -/
def leapDay : Documented :=
  .withOffset ⟨2024, 2, 29, 12, 34, 56, true, [7, 8, 9], by decide, by decide, by decide, by decide,
    by decide, by decide⟩ indianOffset

/-- The leap day is read as the second of its instant, and the fifth second comes back from its
Indian date-time. -/
theorem utc_texts_india :
    toUtc leapDay.arguments = .ok 1709190296 ∧
      (∃ out, fromUtc isoLib .nano 5000000000 indianOffset.text = .ok out ∧
        toUtc [out] = .ok 5) := by
  obtain ⟨-, hdocumented, -, hback⟩ := utc_texts isoLib isoLib_formats
  have hvalid : leapDay.Valid :=
    ⟨⟨⟨by decide, by decide⟩, by decide, by decide, by decide⟩, fun o ho => by
      rw [← Option.some.inj ho]
      exact ⟨by decide, by decide⟩⟩
  have hleap := (hdocumented leapDay fun _ _ _ => hvalid.1.date.day.2).2.2 hvalid
  have hutc := hback 5000000000 (by decide)
  obtain ⟨out, hout⟩ := hutc.1 indianOffset ⟨by decide, by decide⟩
  have hzone : indianOffset.text ≠ "UTC".toList := by decide
  refine ⟨hleap.trans (by decide), out, hout, hutc.2 _ out (fun offsetAt hlocate => ?_) hout⟩
  dsimp only [isoLib] at hlocate
  rw [if_neg hzone] at hlocate
  cases hlocate

/-- Half a second after 01:02:03 on the first day. -/
def halfSecond : Documented :=
  .zulu ⟨1970, 1, 1, 1, 2, 3, false, [5], by decide, by decide, by decide, by decide, by decide,
    by decide⟩ true

/-- **A fraction of a second is dropped.** -/
theorem toUtc_drops_fraction :
    ¬ ∀ d : Documented, d.Valid → ∃ r, toUtc d.arguments = .ok r ∧ r * 10 ^ 9 = d.instantNs := by
  intro h
  obtain ⟨r, -, hr⟩ := h halfSecond ⟨⟨⟨by decide, by decide⟩, by decide, by decide, by decide⟩, nofun⟩
  have hinstant : halfSecond.instantNs = 3723500000000 := by decide
  omega

end MldpDriver.Query.Utc

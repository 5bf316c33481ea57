/-
# Lines of the archiver

The archiver sends serialized messages as lines, with the escape byte, the newline and the carriage
return of a message escaped.  `unescapePbHttpLine` is the reader's side and `escapePbHttpLine` the
sender's.
-/
import Mathlib.Data.List.Basic

namespace MldpDriver.Reader.Archiver

/-- The escape byte. -/
def escapeByte : UInt8 := 0x1B

/-- `'\n'`. -/
def newline : UInt8 := 0x0A

/-- `'\r'`. -/
def carriageReturn : UInt8 := 0x0D

/-! ## 1. Escaping -/

/-- A byte of a message in a line. -/
def escapeOne (ch : UInt8) : List UInt8 :=
  if ch = escapeByte then [escapeByte, 0x01]
  else if ch = newline then [escapeByte, 0x02]
  else if ch = carriageReturn then [escapeByte, 0x03]
  else [ch]

/-- `escapePbHttpLine`. -/
def escapePbHttpLine (msg : List UInt8) : List UInt8 := msg.flatMap escapeOne

/-- The byte an escape code stands for. -/
def unescapeCode (code : UInt8) : Option UInt8 :=
  if code = 0x01 then some escapeByte
  else if code = 0x02 then some newline
  else if code = 0x03 then some carriageReturn
  else none

/-- `unescapePbHttpLine`. -/
def unescapePbHttpLine : List UInt8 → Except String (List UInt8)
  | [] => .ok []
  | [c] => if c = escapeByte then .error "truncated PB/HTTP escape sequence" else .ok [c]
  | c :: code :: line =>
    if c = escapeByte then
      match unescapeCode code with
      | some b => (unescapePbHttpLine line).map (b :: ·)
      | none => .error "invalid PB/HTTP escape code"
    else (unescapePbHttpLine (code :: line)).map (c :: ·)

/-! ## 2. There and back -/

theorem unescape_cons {c : UInt8} (h : c ≠ escapeByte) (line : List UInt8) :
    unescapePbHttpLine (c :: line) = (unescapePbHttpLine line).map (c :: ·) := by
  cases line with
  | nil =>
    have hone : unescapePbHttpLine [c] = .ok [c] := if_neg h
    exact hone
  | cons code line => rw [unescapePbHttpLine, if_neg h]

theorem unescape_code {code b : UInt8} (h : unescapeCode code = some b) (line : List UInt8) :
    unescapePbHttpLine (escapeByte :: code :: line) = (unescapePbHttpLine line).map (b :: ·) := by
  rw [unescapePbHttpLine, if_pos rfl, h]

theorem unescape_escapeOne (ch : UInt8) (line : List UInt8) :
    unescapePbHttpLine (escapeOne ch ++ line) = (unescapePbHttpLine line).map (ch :: ·) := by
  by_cases hescape : ch = escapeByte
  · subst hescape
    exact @unescape_code 0x01 _ rfl line
  · by_cases hnewline : ch = newline
    · subst hnewline
      exact @unescape_code 0x02 _ rfl line
    · by_cases hreturn : ch = carriageReturn
      · subst hreturn
        exact @unescape_code 0x03 _ rfl line
      · rw [escapeOne, if_neg hescape, if_neg hnewline, if_neg hreturn]
        exact unescape_cons hescape line

/-- **Unescaping inverts escaping.** -/
theorem unescape_escape (msg : List UInt8) :
    unescapePbHttpLine (escapePbHttpLine msg) = .ok msg := by
  induction msg with
  | nil => rfl
  | cons ch msg ih =>
    have hcons : escapePbHttpLine (ch :: msg) = escapeOne ch ++ escapePbHttpLine msg :=
      List.flatMap_cons
    rw [hcons, unescape_escapeOne, ih]
    rfl

theorem newline_notMem_escapeOne (ch : UInt8) : newline ∉ escapeOne ch := by
  rw [escapeOne]
  split
  · decide
  · split
    · decide
    · next h =>
      split
      · decide
      · exact fun hmem => h (List.mem_singleton.mp hmem).symm

/-- **A line has no newline in it.** -/
theorem newline_notMem_escape (msg : List UInt8) : newline ∉ escapePbHttpLine msg := by
  intro hmem
  obtain ⟨ch, -, hch⟩ := List.mem_flatMap.mp hmem
  exact newline_notMem_escapeOne ch hch

theorem escape_ne_nil {msg : List UInt8} (h : msg ≠ []) : escapePbHttpLine msg ≠ [] := by
  cases msg with
  | nil => exact absurd rfl h
  | cons ch msg =>
    intro hnil
    rw [escapePbHttpLine, List.flatMap_cons] at hnil
    have hone : escapeOne ch = [] := (List.append_eq_nil_iff.mp hnil).1
    rw [escapeOne] at hone
    split at hone
    · cases hone
    · split at hone
      · cases hone
      · split at hone <;> cases hone

end MldpDriver.Reader.Archiver

/-
# Lines from a stream

A stream arrives in pieces and holds LINES, each ended by a separator.  A reader keeps the line it
is in the middle of, and hands each line on when its separator comes: `readPiece` is that reader,
for any handler `onLine` that may fail.  -/
import Mathlib.Data.List.Basic

namespace Lib.Lines

variable {α σ ε : Type} [DecidableEq α] (sep : α) (onLine : σ → List α → Except ε σ)

/-! ## 1. The reader -/

/-- An item of the stream: the separator ends the line, anything else is part of it. -/
def readItem (s : σ × List α) (x : α) : Except ε (σ × List α) :=
  if x = sep then (onLine s.1 s.2).map fun s => (s, [])
  else .ok (s.1, s.2 ++ [x])

/-- A piece of the stream. -/
def readPiece (s : σ × List α) (piece : List α) : Except ε (σ × List α) :=
  piece.foldlM (readItem sep onLine) s

/-- The pieces one after another. -/
def readPieces (s : σ × List α) (pieces : List (List α)) : Except ε (σ × List α) :=
  pieces.foldlM (readPiece sep onLine) s

/-- The stream of some lines. -/
def stream (lines : List (List α)) : List α := lines.flatMap fun line => line ++ [sep]

/-! ## 2. The lines

`readPieces_eq` says that only the stream counts and not how it was cut, and `readPiece_lines` that
the lines are handed on one after another. -/

omit [DecidableEq α] in
theorem stream_append (lines rest : List (List α)) :
    stream sep (lines ++ rest) = stream sep lines ++ stream sep rest :=
  List.flatMap_append

omit [DecidableEq α] in
theorem stream_blank (blank : Nat) : stream sep (List.replicate blank []) =
    List.replicate blank sep := by
  induction blank with
  | zero => rfl
  | succ blank ih =>
    rw [List.replicate_succ, List.replicate_succ, ← ih]
    rfl

variable {sep onLine}

theorem readPiece_append (s : σ × List α) (piece rest : List α) :
    readPiece sep onLine s (piece ++ rest) =
      (readPiece sep onLine s piece).bind fun s => readPiece sep onLine s rest :=
  List.foldlM_append

/-- **How the stream is cut makes no difference.** -/
theorem readPieces_eq (s : σ × List α) (pieces : List (List α)) :
    readPieces sep onLine s pieces = readPiece sep onLine s pieces.flatten := by
  induction pieces generalizing s with
  | nil => rfl
  | cons piece pieces ih =>
    rw [readPieces, List.foldlM_cons, List.flatten_cons, readPiece_append]
    congr 1
    funext s'
    exact ih s'

theorem readPiece_kept (s : σ) (kept : List α) {line : List α} (h : sep ∉ line) :
    readPiece sep onLine (s, kept) line = .ok (s, kept ++ line) := by
  induction line generalizing kept with
  | nil => rw [List.append_nil]; rfl
  | cons x line ih =>
    have hx : x ≠ sep := fun hx => h (hx ▸ List.mem_cons_self)
    rw [readPiece, List.foldlM_cons, readItem, if_neg hx]
    have := ih (kept ++ [x]) (fun hmem => h (List.mem_cons_of_mem _ hmem))
    rw [List.append_assoc, List.singleton_append] at this
    exact this

theorem readPiece_concat (s : σ × List α) (piece : List α) (x : α) :
    readPiece sep onLine s (piece ++ [x]) =
      (readPiece sep onLine s piece).bind fun s => readItem sep onLine s x := by
  rw [readPiece_append]
  congr 1
  funext s
  cases h : readItem sep onLine s x <;> simp [readPiece, h]

theorem readPiece_line (s : σ) {line : List α} (h : sep ∉ line) :
    readPiece sep onLine (s, []) (line ++ [sep]) = (onLine s line).map fun s => (s, []) := by
  rw [readPiece_append, readPiece_kept s [] h]
  simp [Except.bind, readPiece, readItem]

/-- **The lines are handed on one after another.** -/
theorem readPiece_lines (s : σ) {lines : List (List α)} (h : ∀ line ∈ lines, sep ∉ line) :
    readPiece sep onLine (s, []) (stream sep lines) =
      (lines.foldlM onLine s).map fun s => (s, []) := by
  induction lines generalizing s with
  | nil => rfl
  | cons line lines ih =>
    rw [stream, List.flatMap_cons, readPiece_append, readPiece_line s (h line List.mem_cons_self),
      List.foldlM_cons]
    cases hline : onLine s line with
    | error e => rfl
    | ok s' => exact ih s' fun l hl => h l (List.mem_cons_of_mem _ hl)

end Lib.Lines

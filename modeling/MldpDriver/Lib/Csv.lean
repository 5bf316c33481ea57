/-
# CSV texts

Records of fields, separated by commas, with each record ended by a newline.  A field stands in
quotes where it has a character of the format itself, and a quote in it is doubled.  `read` is the
reader of such texts; an empty line is a record with one empty field.
-/
import Mathlib.Data.List.Basic

namespace Lib.Csv

open List

/-! ## 1. The reader

`ne_nil_of_read`: no records without fields are read, from any text. -/

/-- Where the reader is: at the start of a record or of a further field, in a field without quotes,
in one with quotes, after a quote there, or after a carriage return. -/
inductive Mode
  | record | field | plain | quoted | closed | carriage
  deriving DecidableEq

/-- The records of a text, with the field and the record that the reader is in. -/
def readFrom (mode : Mode) (current : List Char) (row : List (List Char)) :
    List Char → Option (List (List (List Char)))
  | [] =>
    match mode with
    | .record => some []
    | .quoted | .carriage => none
    | _ => some [row ++ [current]]
  | c :: rest =>
    match mode with
    | .quoted =>
      if c = '"' then readFrom .closed current row rest
      else readFrom .quoted (current ++ [c]) row rest
    | .carriage =>
      if c = '\n' then (readFrom .record [] [] rest).map ((row ++ [current]) :: ·) else none
    | mode =>
      if c = ',' then readFrom .field [] (row ++ [current]) rest
      else if c = '\n' then (readFrom .record [] [] rest).map ((row ++ [current]) :: ·)
      else if c = '\r' then readFrom .carriage current row rest
      else if c = '"' then
        match mode with
        | .closed => readFrom .quoted (current ++ ['"']) row rest
        | .plain => none
        | _ => readFrom .quoted [] row rest
      else if mode = .closed then none
      else readFrom .plain (current ++ [c]) row rest

/-- The records of a whole text. -/
def read (text : List Char) : Option (List (List (List Char))) := readFrom .record [] [] text

variable {records : List (List (List Char))}
variable {mode : Mode}

theorem ne_nil_of_readFrom {current : List Char} {row : List (List Char)} {text : List Char}
    (h : readFrom mode current row text = some records) :
    ∀ record ∈ records, record ≠ [] := by
  have hsnoc : ∀ {row : List (List Char)} {current : List Char}, row ++ [current] ≠ [] := by simp
  induction text generalizing mode current row records with
  | nil =>
    cases mode with
    | record =>
      cases h
      exact fun _ hr => absurd hr List.not_mem_nil
    | quoted => cases h
    | carriage => cases h
    | field | plain | closed =>
      cases h
      intro record hrecord
      rw [List.mem_singleton.mp hrecord]
      exact hsnoc
  | cons c rest ih =>
    -- a record that ends here has the field that the reader is in
    have hmap : (readFrom .record [] [] rest).map ((row ++ [current]) :: ·) = some records →
        ∀ record ∈ records, record ≠ [] := by
      intro hrest
      obtain ⟨after, hafter, rfl⟩ := Option.map_eq_some_iff.mp hrest
      intro record hrecord
      rcases List.mem_cons.mp hrecord with rfl | hrecord
      · exact hsnoc
      · exact ih hafter record hrecord
    cases mode with
    | quoted =>
      rw [readFrom] at h
      split at h
      · exact ih h
      · exact ih h
    | carriage =>
      rw [readFrom] at h
      split at h
      · exact hmap h
      · cases h
    | record | field | plain | closed =>
      simp only [readFrom] at h
      split at h
      · exact ih h
      · split at h
        · exact hmap h
        · split at h
          · exact ih h
          · split at h
            · first | exact ih h | cases h
            · first | exact ih h | cases h

/-- **Every record that is read has a field.** -/
theorem ne_nil_of_read {text : List Char} (h : read text = some records) :
    ∀ record ∈ records, record ≠ [] :=
  ne_nil_of_readFrom h

/-! ## 2. Fields

The fields are written with any `esc` that gives a text the reader undoes (`Written`). -/

/-- The characters of the format. -/
def isSpecial (c : Char) : Bool := c == ',' || c == '"' || c == '\n' || c == '\r'

/-- A field in quotes, with the quotes in it doubled. -/
def quoteField (field : List Char) : List Char :=
  '"' :: (field.flatMap (fun c => if c = '"' then ['"', '"'] else [c]) ++ ['"'])

/-- A text for the field: the field itself, if nothing in it is of the format, or in quotes. -/
def Written (field text : List Char) : Prop :=
  (text = field ∧ ∀ c ∈ field, isSpecial c = false) ∨ text = quoteField field

/-- After the end of a field: a comma, or the newline of its record. -/
def afterField (c : Char) (row : List (List Char)) (rest : List Char) :
    Option (List (List (List Char))) :=
  if c = ',' then readFrom .field [] row rest else (readFrom .record [] [] rest).map (row :: ·)

theorem ne_of_special {c d : Char} (h : isSpecial c = false) (hd : isSpecial d = true) : c ≠ d := by
  rintro rfl
  exact Bool.false_ne_true (h.symm.trans hd)

theorem readFrom_char (hmode : mode = .record ∨ mode = .field ∨ mode = .plain) {c : Char}
    (hc : isSpecial c = false) (current : List Char) (row : List (List Char)) (rest : List Char) :
    readFrom mode current row (c :: rest) = readFrom .plain (current ++ [c]) row rest := by
  have hcomma : c ≠ ',' := ne_of_special hc rfl
  have hnewline : c ≠ '\n' := ne_of_special hc rfl
  have hcarriage : c ≠ '\r' := ne_of_special hc rfl
  have hquote : c ≠ '"' := ne_of_special hc rfl
  rcases hmode with rfl | rfl | rfl <;> simp [readFrom, hcomma, hnewline, hcarriage, hquote]

theorem readFrom_plain {text : List Char} (h : ∀ c ∈ text, isSpecial c = false)
    {e : Char} (he : e = ',' ∨ e = '\n') (current : List Char) (row : List (List Char))
    (rest : List Char) :
    readFrom .plain current row (text ++ e :: rest) =
      afterField e (row ++ [current ++ text]) rest := by
  induction text generalizing current with
  | nil =>
    rw [append_nil, nil_append]
    rcases he with rfl | rfl <;> rfl
  | cons c text ih =>
    have hc := h c mem_cons_self
    have hnext := ih (fun d hd => h d (mem_cons_of_mem _ hd)) (current ++ [c])
    rw [append_assoc, singleton_append] at hnext
    rw [cons_append, ← hnext, readFrom_char (.inr (.inr rfl)) hc]

theorem readFrom_quoted {e : Char} (he : e = ',' ∨ e = '\n') (field current : List Char)
    (row : List (List Char)) (rest : List Char) :
    readFrom .quoted current row
        (field.flatMap (fun c => if c = '"' then ['"', '"'] else [c]) ++ '"' :: e :: rest) =
      afterField e (row ++ [current ++ field]) rest := by
  induction field generalizing current with
  | nil =>
    rw [append_nil]
    rcases he with rfl | rfl <;> rfl
  | cons c field ih =>
    have hnext := ih (current ++ [c])
    rw [append_assoc, singleton_append] at hnext
    rw [← hnext, flatMap_cons]
    by_cases hc : c = '"'
    · rw [hc]
      rfl
    · rw [if_neg hc, singleton_append, cons_append, readFrom, if_neg hc]

/-- **A field is read back.** -/
theorem readFrom_field (hmode : mode = .record ∨ mode = .field) {field text : List Char}
    (h : Written field text) {e : Char} (he : e = ',' ∨ e = '\n') (row : List (List Char))
    (rest : List Char) :
    readFrom mode [] row (text ++ e :: rest) = afterField e (row ++ [field]) rest := by
  rcases h with ⟨rfl, hplain⟩ | rfl
  · cases text with
    | nil => rcases hmode with rfl | rfl <;> rcases he with rfl | rfl <;> rfl
    | cons c text =>
      have hc := hplain c mem_cons_self
      have hnext := readFrom_plain (fun d hd => hplain d (mem_cons_of_mem _ hd)) he [c] row rest
      rw [singleton_append] at hnext
      rw [cons_append, ← hnext, readFrom_char (hmode.imp id .inl) hc]
      rfl
  · have hnext := readFrom_quoted he field [] row rest
    rw [nil_append] at hnext
    rw [← hnext, quoteField, cons_append, append_assoc]
    rcases hmode with rfl | rfl <;> rfl

/-! ## 3. Records

`read_records`: the reader gives back records that have a field. -/

/-- The further fields of a record, each after its comma, and the newline. -/
def fieldsText : List (List Char) → List Char
  | [] => ['\n']
  | text :: texts => ',' :: (text ++ fieldsText texts)

/-- A record of the texts of its fields. -/
def recordText : List (List Char) → List Char
  | [] => ['\n']
  | text :: texts => text ++ fieldsText texts

variable {esc : List Char → List Char}

theorem readFrom_fields (hesc : ∀ field, Written field (esc field)) (fields : List (List Char))
    (hmode : mode = .record ∨ mode = .field) (field : List Char) (row : List (List Char))
    (rest : List Char) :
    readFrom mode [] row (recordText ((field :: fields).map esc) ++ rest) =
      (readFrom .record [] [] rest).map ((row ++ field :: fields) :: ·) := by
  induction fields generalizing mode field row with
  | nil =>
    rw [map_singleton, recordText, fieldsText, append_assoc, singleton_append,
      readFrom_field hmode (hesc field) (.inr rfl)]
    rfl
  | cons next fields ih =>
    have hrest := ih (.inr rfl) next (row ++ [field])
    rw [append_assoc, singleton_append] at hrest
    rw [← hrest, map_cons, recordText, map_cons, fieldsText, append_assoc,
      cons_append, readFrom_field hmode (hesc field) (.inl rfl)]
    rfl

/-- **Records that have a field are read back.** -/
theorem read_records (hesc : ∀ field, Written field (esc field))
    (h : ∀ record ∈ records, record ≠ []) :
    read (records.flatMap fun record => recordText (record.map esc)) = some records := by
  induction records with
  | nil => rfl
  | cons record records ih =>
    have hrest := ih fun r hr => h r (mem_cons_of_mem _ hr)
    cases record with
    | nil => exact absurd rfl (h [] mem_cons_self)
    | cons field fields =>
      rw [flatMap_cons, read, readFrom_fields hesc fields (.inl rfl), ← read, hrest]
      rfl

end Lib.Csv

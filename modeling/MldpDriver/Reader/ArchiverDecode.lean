/-
# Decoding the archiver's stream

The archiver sends CHUNKS with an empty line between two of them: a header line, then a line for
each sample, escaped.  A fetch of such a stream, however it is cut, should do just what the samples
do one after another.
-/
import MldpDriver.Reader.ArchiverFetch

namespace MldpDriver.Reader.Archiver

open Bus Lib.Directory Lib.Lines List

variable {H V : Type}

/-! ## 1. Chunks -/

/-- A serialized sample of a header, which is not empty. -/
structure Sample (pb : Protobuf H V) (header : H) where
  msg : List UInt8
  nonempty : msg ≠ []
  parsed : ParsedSample V
  parses : pb.parseSample header msg = .ok parsed

/-- A serialized header, which is not empty, and samples. -/
structure Chunk (pb : Protobuf H V) where
  header : H
  msg : List UInt8
  nonempty : msg ≠ []
  parses : pb.parsePayloadInfo msg = some header
  samples : List (Sample pb header)

variable {pb : Protobuf H V} {cfg : ReaderConfig} {pv : String}

/-- The lines of a chunk. -/
def Chunk.lines (c : Chunk pb) : List (List UInt8) :=
  escapePbHttpLine c.msg :: c.samples.map fun x => escapePbHttpLine x.msg

/-- The lines of chunks, with an empty one between two. -/
def chunkLines : List (Chunk pb) → List (List UInt8)
  | [] => []
  | [c] => c.lines
  | c :: chunks => c.lines ++ [] :: chunkLines chunks

/-- The messages in chunks, each with its header. -/
def messages (chunks : List (Chunk pb)) : List (H × List UInt8) :=
  chunks.flatMap fun c => c.samples.map fun x => (c.header, x.msg)

/-- The pieces are a stream of the chunks, up to the newlines at its end. -/
def Carries (pieces : List (List UInt8)) (chunks : List (Chunk pb)) : Prop :=
  ∃ blank : Nat, pieces.flatten ++ [newline] =
    stream newline (chunkLines chunks) ++ List.replicate blank newline

/-! ## 2. What the chunks do -/

/-- A sample under its header. -/
def readSample (cfg : ReaderConfig) {header : H} (s : Worker H V × PbChunkState H V)
    (x : Sample pb header) : Worker H V × PbChunkState H V :=
  takeSample pb cfg header x.msg x.parsed s

/-- The samples of a chunk, and its end. -/
def readChunk (cfg : ReaderConfig) (w : Worker H V) (c : Chunk pb) : Worker H V :=
  (finalizeChunk pb cfg (c.samples.foldl (readSample cfg) (w, { header := some c.header }))).1

def readChunks (cfg : ReaderConfig) (w : Worker H V) (chunks : List (Chunk pb)) : Worker H V :=
  chunks.foldl (readChunk cfg) w

section Header

variable {header : H} (s : Worker H V × PbChunkState H V)

@[simp] theorem batchSample_header (p : ParsedSample V) :
    (batchSample cfg pv p s).2.header = s.2.header := by
  rw [batchSample]
  split <;> rfl

@[simp] theorem takeSample_header (msg : List UInt8) (p : ParsedSample V) :
    (takeSample pb cfg header msg p s).2.header = s.2.header := by
  rw [takeSample]
  split
  · split
    · rfl
    · exact batchSample_header _ p
  · exact batchSample_header _ p

theorem foldl_readSample_header (samples : List (Sample pb header)) :
    (samples.foldl (readSample cfg) s).2.header = s.2.header := by
  induction samples generalizing s with
  | nil => rfl
  | cons x samples ih => rw [foldl_cons, ih, readSample, takeSample_header]

end Header

/-! ## 3. The lines -/

theorem onLine_escape {msg : List UInt8} (h : msg ≠ []) (s : Worker H V × PbChunkState H V) :
    onLine pb cfg pv s (escapePbHttpLine msg) =
      (parsePbHttpLineIntoState pb cfg s (escapePbHttpLine msg)).mapError fun e =>
        (e.1, e.2 ++ " (pv='" ++ pv ++ "', line_bytes=" ++
          toString (escapePbHttpLine msg).length ++ ")") :=
  if_neg (mt List.isEmpty_iff.mp (escape_ne_nil h))

theorem onLine_header (c : Chunk pb) (w : Worker H V) :
    onLine pb cfg pv (w, {}) (escapePbHttpLine c.msg) = .ok (w, { header := some c.header }) := by
  rw [onLine_escape c.nonempty, parsePbHttpLineIntoState, unescape_escape]
  simp only [c.parses]
  rfl

variable {header : H}

theorem onLine_sample (x : Sample pb header) {s : Worker H V × PbChunkState H V}
    (hs : s.2.header = some header) :
    onLine pb cfg pv s (escapePbHttpLine x.msg) = .ok (readSample cfg s x) := by
  rw [onLine_escape x.nonempty, parsePbHttpLineIntoState, unescape_escape]
  simp only [hs, x.parses]
  rfl

theorem onLine_samples (samples : List (Sample pb header)) {s : Worker H V × PbChunkState H V}
    (hs : s.2.header = some header) :
    (samples.map fun x => escapePbHttpLine x.msg).foldlM (onLine pb cfg pv) s =
      .ok (samples.foldl (readSample cfg) s) := by
  induction samples generalizing s with
  | nil => rfl
  | cons x samples ih =>
    rw [map_cons, foldlM_cons, onLine_sample x hs, foldl_cons]
    exact ih ((takeSample_header s x.msg x.parsed).trans hs)

/-- **The lines of a chunk do what its samples do.** -/
theorem onLine_chunk (c : Chunk pb) (w : Worker H V) :
    c.lines.foldlM (onLine pb cfg pv) (w, {}) =
      .ok (c.samples.foldl (readSample cfg) (w, { header := some c.header })) := by
  rw [Chunk.lines, foldlM_cons, onLine_header]
  exact onLine_samples c.samples rfl

theorem finalizeChunk_finalizeChunk (s : Worker H V × PbChunkState H V) :
    finalizeChunk pb cfg (finalizeChunk pb cfg s) = finalizeChunk pb cfg s := by
  cases hheader : s.2.header with
  | none => simp only [finalizeChunk, hheader]
  | some header => simp only [finalizeChunk, hheader]

theorem onLine_blank (blank : Nat) (s : Worker H V × PbChunkState H V) :
    ∃ s', (List.replicate blank []).foldlM (onLine pb cfg pv) s = .ok s' ∧
      finalizeChunk pb cfg s' = finalizeChunk pb cfg s := by
  induction blank generalizing s with
  | zero => exact ⟨s, rfl, rfl⟩
  | succ blank ih =>
    obtain ⟨s', hs', hfinal⟩ := ih (finalizeChunk pb cfg s)
    exact ⟨s', hs', hfinal.trans (finalizeChunk_finalizeChunk s)⟩

theorem finalizeChunk_chunk (c : Chunk pb) (w : Worker H V) :
    finalizeChunk pb cfg (c.samples.foldl (readSample cfg) (w, { header := some c.header })) =
      (readChunk cfg w c, {}) := by
  have hheader : (c.samples.foldl (readSample cfg) (w, { header := some c.header })).2.header =
      some c.header := foldl_readSample_header _ c.samples
  simp only [readChunk, finalizeChunk, hheader]

/-- **The lines of chunks do what the chunks do.** -/
theorem onLine_chunks (chunks : List (Chunk pb)) (w : Worker H V) :
    ∃ s, (chunkLines chunks).foldlM (onLine pb cfg pv) (w, {}) = .ok s ∧
      (finalizeChunk pb cfg s).1 = readChunks cfg w chunks := by
  induction chunks generalizing w with
  | nil => exact ⟨(w, {}), rfl, rfl⟩
  | cons c chunks ih =>
    cases chunks with
    | nil => exact ⟨_, onLine_chunk c w, by rw [finalizeChunk_chunk]; rfl⟩
    | cons c' chunks =>
      obtain ⟨s, hs, hfinal⟩ := ih (readChunk cfg w c)
      have hblank : onLine pb cfg pv
          (c.samples.foldl (readSample cfg) (w, { header := some c.header })) [] =
            .ok (readChunk cfg w c, {}) :=
        congrArg Except.ok (finalizeChunk_chunk c w)
      have hrest : ([] :: chunkLines (c' :: chunks)).foldlM (onLine pb cfg pv)
          (c.samples.foldl (readSample cfg) (w, { header := some c.header })) = .ok s := by
        rw [foldlM_cons, hblank]
        exact hs
      refine ⟨s, ?_, hfinal⟩
      rw [chunkLines, foldlM_append, onLine_chunk]
      · exact hrest
      · exact cons_ne_nil _ _

theorem newline_notMem_lines {chunks : List (Chunk pb)} :
    ∀ line ∈ chunkLines chunks, newline ∉ line := by
  have hchunk : ∀ c : Chunk pb, ∀ line ∈ c.lines, newline ∉ line := by
    intro c line hline
    rcases mem_cons.mp hline with rfl | hline
    · exact newline_notMem_escape c.msg
    · obtain ⟨x, -, rfl⟩ := mem_map.mp hline
      exact newline_notMem_escape x.msg
  induction chunks with
  | nil => exact nofun
  | cons c chunks ih =>
    cases chunks with
    | nil => exact hchunk c
    | cons c' chunks =>
      intro line hline
      rcases mem_append.mp hline with hline | hline
      · exact hchunk c line hline
      · rcases mem_cons.mp hline with rfl | hline
        · exact not_mem_nil
        · exact ih line hline

/-! ## 4. The fetch -/

theorem endOfStream_eq (s : (Worker H V × PbChunkState H V) × List UInt8) :
    endOfStream pb cfg pv s =
      (readItem newline (onLine pb cfg pv) s newline).map fun s => (finalizeChunk pb cfg s.1).1 := by
  rw [endOfStream, readItem, if_pos rfl]
  split
  · next hkept =>
    rw [List.isEmpty_iff.mp hkept]
    exact congrArg (fun s => Except.ok (Prod.fst s)) (finalizeChunk_finalizeChunk s.1).symm
  · cases onLine pb cfg pv s.1 s.2 <;> rfl

/-- **What comes of a stream of chunks, however it is cut.** -/
theorem stream_read {pieces : List (List UInt8)} {chunks : List (Chunk pb)}
    (h : Carries pieces chunks) (cfg : ReaderConfig) (pv : String) (w : Worker H V) :
    fetchSinglePV pb cfg pv w pieces (.ok 200) =
      .ok (flushAllPendingBatches (readChunks cfg w chunks)) := by
  obtain ⟨blank, hpieces⟩ := h
  obtain ⟨s, hs, hchunks⟩ := @onLine_chunks H V pb cfg pv chunks w
  obtain ⟨s', hs', hfinal⟩ := @onLine_blank H V pb cfg pv blank s
  have hlines : (chunkLines chunks ++ List.replicate blank []).foldlM (onLine pb cfg pv) (w, {}) =
      .ok s' := by
    rw [foldlM_append, hs]
    exact hs'
  have hread : readPiece newline (onLine pb cfg pv) ((w, {}), []) (pieces.flatten ++ [newline]) =
      .ok (s', []) := by
    rw [hpieces, ← stream_blank, ← stream_append, readPiece_lines, hlines]
    · rfl
    · intro line hline
      rcases mem_append.mp hline with hline | hline
      · exact newline_notMem_lines line hline
      · rw [eq_of_mem_replicate hline]
        exact not_mem_nil
  rw [readPiece_concat, ← readPieces_eq] at hread
  rw [fetchSinglePV]
  cases hpiece : readPieces newline (onLine pb cfg pv) ((w, {}), []) pieces with
  | error e =>
    rw [hpiece] at hread
    cases hread
  | ok s₀ =>
    rw [hpiece] at hread
    have hend : endOfStream pb cfg pv s₀ = .ok (readChunks cfg w chunks) := by
      have hread : readItem newline (onLine pb cfg pv) s₀ newline = .ok (s', []) := hread
      rw [endOfStream_eq, hread, ← hchunks, ← hfinal]
      rfl
    simp only [hend, bind, Except.bind, if_pos]

/-! ## 5. The messages -/

@[simp] theorem pushBatch_parsed (w : Worker H V) (batch : EventBatch V) :
    (pushBatch w batch).parsed = w.parsed := by
  rw [pushBatch]
  split <;> rfl

@[simp] theorem submitPendingBatch_parsed (w : Worker H V) (pv : String) :
    (submitPendingBatch w pv).parsed = w.parsed := by
  rw [submitPendingBatch]
  split
  · rfl
  · split
    · exact pushBatch_parsed _ _
    · rfl

@[simp] theorem flushAllPendingBatches_parsed (w : Worker H V) :
    (flushAllPendingBatches w).parsed = w.parsed := by
  rw [flushAllPendingBatches]
  generalize (w.pendingPvBatches.filter _).map _ = pvs
  induction pvs generalizing w with
  | nil => rfl
  | cons pv pvs ih => rw [foldl_cons, ih, submitPendingBatch_parsed]

@[simp] theorem finalizeChunk_parsed (s : Worker H V × PbChunkState H V) :
    (finalizeChunk pb cfg s).1.parsed = s.1.parsed := by
  rw [finalizeChunk]
  split
  · rfl
  · simp only [flushChunk]
    split
    · rfl
    · exact pushBatch_parsed _ _

@[simp] theorem addPending_parsed (w : Worker H V) (p : ParsedSample V) :
    (addPending cfg w pv p).parsed = w.parsed := by
  have hroom : (makeRoom cfg w pv p).parsed = w.parsed := by
    rw [makeRoom]
    split
    · exact submitPendingBatch_parsed w pv
    · rfl
  rw [addPending]
  split
  · exact (submitPendingBatch_parsed _ pv).trans hroom
  · exact hroom

@[simp] theorem batchSample_parsed (p : ParsedSample V) (s : Worker H V × PbChunkState H V) :
    (batchSample cfg pv p s).1.parsed = s.1.parsed := by
  rw [batchSample]
  split
  · exact addPending_parsed s.1 p
  · rfl

@[simp] theorem takeSample_parsed (msg : List UInt8) (p : ParsedSample V)
    (s : Worker H V × PbChunkState H V) :
    (takeSample pb cfg header msg p s).1.parsed = s.1.parsed ++ [(header, msg)] := by
  rw [takeSample]
  split
  · split
    · rfl
    · exact batchSample_parsed _ _
  · exact batchSample_parsed _ _

theorem foldl_readSample_parsed (samples : List (Sample pb header))
    (s : Worker H V × PbChunkState H V) :
    (samples.foldl (readSample cfg) s).1.parsed =
      s.1.parsed ++ samples.map fun x => (header, x.msg) := by
  induction samples generalizing s with
  | nil => exact (append_nil _).symm
  | cons x samples ih =>
    rw [foldl_cons, ih, readSample, takeSample_parsed, append_assoc,
      singleton_append, map_cons]

/-- **The messages of the chunks are parsed, each under its header.** -/
theorem readChunks_parsed (chunks : List (Chunk pb)) (w : Worker H V) :
    (readChunks cfg w chunks).parsed = w.parsed ++ messages chunks := by
  induction chunks generalizing w with
  | nil => exact (append_nil _).symm
  | cons c chunks ih =>
    have hchunk : (readChunk cfg w c).parsed =
        w.parsed ++ c.samples.map fun x => (c.header, x.msg) := by
      rw [readChunk, finalizeChunk_parsed, foldl_readSample_parsed]
    rw [readChunks, foldl_cons]
    refine (ih (readChunk cfg w c)).trans ?_
    rw [hchunk, messages, messages, flatMap_cons, append_assoc]

/-- **A fetch parses the messages of the chunks, each once, in order and under the header of its
chunk, and what it does is the same for all ways to cut the stream; and unescaping inverts
escaping.** A newline at the end may be missing and there may be empty lines after the last chunk.
-/
theorem stream_decoded {pieces : List (List UInt8)} {chunks : List (Chunk pb)}
    (h : Carries pieces chunks) (cfg : ReaderConfig) (pv : String) (w : Worker H V) :
    (∃ w', fetchSinglePV pb cfg pv w pieces (.ok 200) = .ok w' ∧
        w'.parsed = w.parsed ++ messages chunks ∧
        ∀ pieces', Carries pieces' chunks → fetchSinglePV pb cfg pv w pieces' (.ok 200) = .ok w') ∧
      ∀ msg, unescapePbHttpLine (escapePbHttpLine msg) = .ok msg := by
  refine ⟨⟨_, stream_read h cfg pv w, ?_, fun pieces' h' => stream_read h' cfg pv w⟩,
    unescape_escape⟩
  rw [flushAllPendingBatches_parsed, readChunks_parsed]

/-- Bytes of a protobuf message: a `PayloadInfo` of a double of the PV `T` in 2024. -/
def sampleHeader : List UInt8 := [0x08, 0x06, 0x12, 0x01, 0x54, 0x18, 0xE8, 0x0F]

/-- A `ScalarDouble` of 1.5 at second 10 and nanosecond 27 of the year, whose bytes 10 and 27 are
escaped. -/
def sampleMessage : List UInt8 :=
  [0x08, 0x0A, 0x10, 0x1B, 0x19, 0x00, 0x00, 0x00, 0x00, 0x00, 0x00, 0xF8, 0x3F]

/-- What the protobuf side does with these two, with a double as its bits. -/
def samplePb : Protobuf String Nat where
  parsePayloadInfo msg := if msg = sampleHeader then some "T" else none
  pvname header := header
  parseSample header msg :=
    if msg = sampleMessage then
      .ok { epochSeconds := 1704067210
            nanoseconds := 27
            columns := [{ name := header, values := .scalar .double [0x3FF8000000000000] }] }
    else .error "failed to parse PB/HTTP scalar sample"

/-- A chunk of two samples. -/
def sampleChunk : Chunk samplePb where
  header := "T"
  msg := sampleHeader
  nonempty := nofun
  parses := rfl
  samples := List.replicate 2
    { msg := sampleMessage
      nonempty := nofun
      parsed :=
        { epochSeconds := 1704067210
          nanoseconds := 27
          columns := [{ name := "T", values := .scalar .double [0x3FF8000000000000] }] }
      parses := rfl }

/-- Two chunks, cut inside the first header, inside an escape, and at an empty line. -/
def samplePieces : List (List UInt8) :=
  let s := stream newline (chunkLines [sampleChunk, sampleChunk])
  [s.take 5, (s.drop 5).take 6, (s.drop 11).take 30, s.drop 41]

/-- A fetch in historical mode. -/
theorem samplePieces_decoded : Carries samplePieces [sampleChunk, sampleChunk] ∧
    ∃ w, fetchSinglePV samplePb { name := "r", fetchMode := .historicalOnce } "T" {} samplePieces
        (.ok 200) = .ok w ∧
      w.parsed = List.replicate 4 ("T", sampleMessage) := by
  have hcarries : Carries samplePieces [sampleChunk, sampleChunk] := ⟨1, by decide +kernel⟩
  obtain ⟨w, hw, hparsed, -⟩ := (stream_decoded hcarries
    { name := "r", fetchMode := .historicalOnce } "T" {}).1
  exact ⟨hcarries, w, hw, hparsed⟩

end MldpDriver.Reader.Archiver

import NemoRelay.Error
import NemoRelay.Lib.Framing

/-!
# Server-sent events

`SseEventDecoder` of `streaming.rs`: bytes arrive in chunks, line endings are normalized, frames
end with a blank line, and every frame holds at most one JSON payload. The JSON parser is a
parameter, `fromStr`, that returns the payload or the text of its error.
-/

namespace NemoRelay

open List

/-- Text is a list of characters here, bytes are `UInt8`. -/
abbrev Text := List Char

/-! ### Text -/

namespace Text

def isWhitespace (c : Char) : Bool :=
  let n := c.toNat
  (0x09 ≤ n && n ≤ 0x0d) || n == 0x20 || n == 0x85 || n == 0xa0 || n == 0x1680 ||
    (0x2000 ≤ n && n ≤ 0x200a) || n == 0x2028 || n == 0x2029 || n == 0x202f || n == 0x205f ||
    n == 0x3000

def trim (text : Text) : Text :=
  ((text.dropWhile isWhitespace).reverse.dropWhile isWhitespace).reverse

/-- `str::strip_prefix`. -/
def stripStart (start text : Text) : Option Text :=
  if start.isPrefixOf text then some (text.drop start.length) else none

/-- Continuation bytes of UTF-8. -/
def isCont (b : UInt8) : Bool := 0x80 ≤ b && b ≤ 0xbf

/-- The second byte of a three-byte sequence with the given first byte. -/
def second3 (b c : UInt8) : Bool :=
  (b == 0xe0 && 0xa0 ≤ c && c ≤ 0xbf) || (0xe1 ≤ b && b ≤ 0xec && isCont c) ||
    (b == 0xed && 0x80 ≤ c && c ≤ 0x9f) || (0xee ≤ b && b ≤ 0xef && isCont c)

def second4 (b c : UInt8) : Bool :=
  (b == 0xf0 && 0x90 ≤ c && c ≤ 0xbf) || (0xf1 ≤ b && b ≤ 0xf3 && isCont c) ||
    (b == 0xf4 && 0x80 ≤ c && c ≤ 0x8f)

def low6 (b : UInt8) : Nat := b.toNat % 64

/-- `String::from_utf8_lossy`: the longest part of an invalid sequence that could begin a
character is replaced by one replacement character. -/
def fromUtf8Lossy : List UInt8 → Text
  | [] => []
  | b :: rest =>
    let replacement := Char.ofNat 0xfffd
    if b < 0x80 then Char.ofNat b.toNat :: fromUtf8Lossy rest
    else if 0xc2 ≤ b && b ≤ 0xdf then
      match rest with
      | c :: rest =>
        if isCont c then Char.ofNat (b.toNat % 32 * 64 + low6 c) :: fromUtf8Lossy rest
        else replacement :: fromUtf8Lossy (c :: rest)
      | [] => [replacement]
    else if 0xe0 ≤ b && b ≤ 0xef then
      match rest with
      | c :: rest =>
        if second3 b c then
          match rest with
          | d :: rest =>
            if isCont d then
              Char.ofNat (b.toNat % 16 * 4096 + low6 c * 64 + low6 d) :: fromUtf8Lossy rest
            else replacement :: fromUtf8Lossy (d :: rest)
          | [] => [replacement]
        else replacement :: fromUtf8Lossy (c :: rest)
      | [] => [replacement]
    else if 0xf0 ≤ b && b ≤ 0xf4 then
      match rest with
      | c :: rest =>
        if second4 b c then
          match rest with
          | d :: rest =>
            if isCont d then
              match rest with
              | e :: rest =>
                if isCont e then
                  Char.ofNat (b.toNat % 8 * 262144 + low6 c * 4096 + low6 d * 64 + low6 e) ::
                    fromUtf8Lossy rest
                else replacement :: fromUtf8Lossy (e :: rest)
              | [] => [replacement]
            else replacement :: fromUtf8Lossy (d :: rest)
          | [] => [replacement]
        else replacement :: fromUtf8Lossy (c :: rest)
      | [] => [replacement]
    else replacement :: fromUtf8Lossy rest

end Text

structure SseEvent (J : Type) where
  event : Option String
  data : J

structure SseEventDecoder where
  buffer : List UInt8 := []
  scanFrom : Nat := 0

abbrev SseResult (J : Type) := Except FlowError (SseEvent J)

namespace Sse

def cr : UInt8 := 13

def lf : UInt8 := 10

section Frame

variable {J : Type} (fromStr : String → Except String J)

/-- The event name and the joined `data:` lines after one more line. -/
def parseLine (parsed : Option String × Option Text) (line : Text) : Option String × Option Text :=
  match Text.stripStart "event:".toList line with
  | some rest => (some (String.ofList (Text.trim rest)), parsed.2)
  | none =>
    match Text.stripStart "data:".toList line with
    | some rest =>
      let data := (Text.stripStart [' '] rest).getD rest
      match parsed.2 with
      | none => (parsed.1, some data)
      | some joined => (parsed.1, some (joined ++ '\n' :: data))
    | none => parsed

def parseSseFrame (frame : Text) : Except FlowError (Option (SseEvent J)) :=
  let parsed := (frame.splitOn '\n').foldl parseLine (none, none)
  match parsed.2 with
  | none => .ok none
  | some payload =>
    let trimmed := Text.trim payload
    if trimmed = "[DONE]".toList then .ok none
    else
      match fromStr (String.ofList trimmed) with
      | .ok data => .ok (some { event := parsed.1, data })
      | .error error => .error (.internal
          ("streaming codec failed to parse SSE data payload: " ++ error ++ ": " ++
            String.ofList payload))

end Frame

/-- One byte of the normalizing loop. -/
def appendByte (buffer : List UInt8) (byte : UInt8) : List UInt8 :=
  if byte = lf ∧ buffer.getLast? = some cr then buffer.dropLast ++ [byte] else buffer ++ [byte]

end Sse

namespace SseEventDecoder

open Sse

variable {J : Type} (fromStr : String → Except String J)

/-- The `while let` loop: the results and how many bytes were consumed. -/
def frameLoop (buffer : List UInt8) (searchFrom consumed : Nat) : List (SseResult J) × Nat :=
  match h : Framing.findPair lf (buffer.drop searchFrom) with
  | none => ([], consumed)
  | some relativeCut =>
    have : searchFrom + relativeCut + 1 < buffer.length := by
      have := Framing.findPair_lt h
      rw [List.length_drop] at this
      omega
    let cut := searchFrom + relativeCut
    let frame := Text.fromUtf8Lossy ((buffer.take cut).drop consumed)
    match parseSseFrame fromStr frame with
    | .ok (some event) =>
      let rest := frameLoop buffer (cut + 2) (cut + 2)
      (.ok event :: rest.1, rest.2)
    | .ok none => frameLoop buffer (cut + 2) (cut + 2)
    | .error error => ([.error error], cut + 2)
  termination_by buffer.length - searchFrom

variable (d : SseEventDecoder)

/-- The buffer and the scan position after the chunk was appended. -/
def append (bytes : List UInt8) : SseEventDecoder :=
  if bytes.contains cr || d.buffer.getLast? == some cr then
    { buffer := bytes.foldl appendByte d.buffer
      scanFrom := min d.scanFrom (d.buffer.length - 2) }
  else { d with buffer := d.buffer ++ bytes }

def endsWithLf (buffer : List UInt8) : Bool := buffer.getLast? == some lf

/-- What follows the loop: the consumed bytes are drained, and unless a frame was malformed the
next search starts near the end. -/
def settle (results : List (SseResult J)) (consumed : Nat) : SseEventDecoder :=
  let d := if 0 < consumed then { buffer := d.buffer.drop consumed, scanFrom := 0 } else d
  if results.getLast?.all Except.isOk then
    { d with scanFrom := d.buffer.length - (endsWithLf d.buffer).toNat }
  else d

def pushBytesResults (bytes : List UInt8) : List (SseResult J) × SseEventDecoder :=
  let d := d.append bytes
  let (results, consumed) := frameLoop fromStr d.buffer (min d.scanFrom d.buffer.length) 0
  (results, d.settle results consumed)

/-- Chunk after chunk. -/
def pushChunks (d : SseEventDecoder) : List (List UInt8) → List (SseResult J) × SseEventDecoder
  | [] => ([], d)
  | chunk :: chunks =>
    let (results, d) := d.pushBytesResults fromStr chunk
    let (rest, d) := d.pushChunks chunks
    (results ++ rest, d)

def finish : Except FlowError (Option (SseEvent J)) :=
  let trailing := Text.fromUtf8Lossy d.buffer
  if (Text.trim trailing).isEmpty then .ok none else parseSseFrame fromStr trailing

end SseEventDecoder

variable {buffer : List UInt8}

namespace Sse

/-! ### Normalization -/

theorem appendByte_ne_nil (buffer : List UInt8) (byte : UInt8) : appendByte buffer byte ≠ [] := by
  rw [appendByte]
  split <;> simp

variable {front back : List UInt8}

/-- Only the last byte of a buffer can be replaced. -/
theorem appendByte_append (byte : UInt8) (h : back = [] → front.getLast? ≠ some cr) :
    appendByte (front ++ back) byte = front ++ appendByte back byte := by
  by_cases hback : back = []
  · subst hback
    have hlast := h rfl
    simp [appendByte, hlast]
  · have hlast : (front ++ back).getLast? = back.getLast? :=
      getLast?_append_of_ne_nil front hback
    rw [appendByte, appendByte, hlast, dropLast_append_of_ne_nil hback]
    split <;> rw [append_assoc]

theorem foldl_appendByte_append (bytes : List UInt8) (h : back = [] → front.getLast? ≠ some cr) :
    bytes.foldl appendByte (front ++ back) = front ++ bytes.foldl appendByte back := by
  induction bytes generalizing back with
  | nil => rfl
  | cons byte bytes ih =>
    rw [foldl_cons, appendByte_append byte h]
    exact ih fun hnil => absurd hnil (appendByte_ne_nil back byte)

/-- Without a carriage return there is nothing to normalize. -/
theorem foldl_appendByte_of_not_mem {bytes : List UInt8} (hbytes : cr ∉ bytes)
    (hlast : buffer.getLast? ≠ some cr) : bytes.foldl appendByte buffer = buffer ++ bytes := by
  induction bytes generalizing buffer with
  | nil => rw [foldl_nil, append_nil]
  | cons byte bytes ih =>
    rw [mem_cons, not_or] at hbytes
    have hbyte : appendByte buffer byte = buffer ++ [byte] := if_neg fun h => hlast h.2
    rw [foldl_cons, hbyte, ih hbytes.2, append_assoc, singleton_append]
    rw [getLast?_concat]
    intro heq
    exact hbytes.1 (Option.some.inj heq).symm

/-! ### What a byte string stands for -/

section Spec

variable {J : Type} (fromStr : String → Except String J)

/-- The result of a frame, if it has one. -/
def frameResult (frame : List UInt8) : Option (SseResult J) :=
  match parseSseFrame fromStr (Text.fromUtf8Lossy frame) with
  | .ok (some event) => some (.ok event)
  | .ok none => none
  | .error error => some (.error error)

/-- The frames of normalized bytes and what follows the last of them. -/
def frames (buffer : List UInt8) : List (List UInt8) × List UInt8 := Framing.split lf buffer

def events (buffer : List UInt8) : List (SseResult J) :=
  (frames buffer).1.filterMap (frameResult fromStr)

end Spec

end Sse

namespace SseEventDecoder

open Sse

variable {J : Type} {fromStr : String → Except String J}

/-! ### One chunk -/

variable {consumed searchFrom : Nat}

open Framing

/-- A search that starts late finds the first frame behind `consumed`. -/
theorem frames_drop_of_some {relativeCut : Nat} (hle : consumed ≤ searchFrom)
    (hskip : ∀ i < searchFrom - consumed, ¬ PairAt lf (buffer.drop consumed) i)
    (hfind : findPair lf (buffer.drop searchFrom) = some relativeCut) :
    frames (buffer.drop consumed) =
      ((buffer.take (searchFrom + relativeCut)).drop consumed ::
          (frames (buffer.drop (searchFrom + relativeCut + 2))).1,
        (frames (buffer.drop (searchFrom + relativeCut + 2))).2) := by
  have hsome := findPair_skip hskip
  rw [drop_drop, Nat.add_sub_cancel' hle, hfind] at hsome
  have hcut : consumed + (searchFrom - consumed + relativeCut + 2) =
      searchFrom + relativeCut + 2 := by omega
  have hframe : searchFrom + relativeCut - consumed = searchFrom - consumed + relativeCut := by
    omega
  rw [frames, split_of_some hsome, drop_drop, hcut, drop_take, hframe]
  rfl

theorem frames_drop_of_none (hle : consumed ≤ searchFrom)
    (hskip : ∀ i < searchFrom - consumed, ¬ PairAt lf (buffer.drop consumed) i)
    (hfind : findPair lf (buffer.drop searchFrom) = none) :
    frames (buffer.drop consumed) = ([], buffer.drop consumed) := by
  have hnone := findPair_skip hskip
  rw [drop_drop, Nat.add_sub_cancel' hle, hfind] at hnone
  exact split_of_none hnone

variable (fromStr) in
/-- The loop finds the frames behind `consumed` if nothing was missed before `searchFrom`. -/
theorem frameLoop_spec (hle : consumed ≤ searchFrom)
    (hskip : ∀ i < searchFrom - consumed, ¬ PairAt lf (buffer.drop consumed) i) :
    (frameLoop fromStr buffer searchFrom consumed).1 =
        untilError (events fromStr (buffer.drop consumed)) ∧
      (AllOk (events fromStr (buffer.drop consumed)) →
        buffer.drop (frameLoop fromStr buffer searchFrom consumed).2 =
          (frames (buffer.drop consumed)).2) := by
  fun_induction frameLoop fromStr buffer searchFrom consumed with
  | case1 searchFrom consumed hfind =>
    rw [events, frames_drop_of_none hle hskip hfind]
    exact ⟨rfl, fun _ => rfl⟩
  | case2 searchFrom consumed relativeCut hfind _ cut frame event hparse rest ih =>
    have hresult : frameResult fromStr ((buffer.take cut).drop consumed) = some (.ok event) := by
      rw [frameResult, hparse]
    obtain ⟨hresults, hbuffer⟩ := ih le_rfl (by simp)
    rw [events, frames_drop_of_some hle hskip hfind, filterMap_cons_some hresult, untilError,
      allOk_cons]
    exact ⟨congrArg _ hresults, fun hok => hbuffer hok.2⟩
  | case3 searchFrom consumed relativeCut hfind _ cut frame hparse ih =>
    have hresult : frameResult fromStr ((buffer.take cut).drop consumed) = none := by
      rw [frameResult, hparse]
    rw [events, frames_drop_of_some hle hskip hfind, filterMap_cons_none hresult]
    exact ih le_rfl (by simp)
  | case4 searchFrom consumed relativeCut hfind _ cut frame error hparse =>
    have hresult : frameResult fromStr ((buffer.take cut).drop consumed) = some (.error error) := by
      rw [frameResult, hparse]
    rw [events, frames_drop_of_some hle hskip hfind, filterMap_cons_some hresult, allOk_cons]
    exact ⟨rfl, fun hok => absurd hok.1 Bool.false_ne_true⟩

theorem append_buffer (d : SseEventDecoder) (bytes : List UInt8) :
    (d.append bytes).buffer = bytes.foldl appendByte d.buffer := by
  rw [append]
  split
  · rfl
  · rename_i hcr
    rw [Bool.or_eq_true, not_or, contains_iff_mem, beq_iff_eq] at hcr
    exact (foldl_appendByte_of_not_mem hcr.1 hcr.2).symm

/-- A decoder between two chunks, as long as no frame was malformed: the buffer holds no
terminator, and the next search starts where one could begin. -/
structure Clean (d : SseEventDecoder) : Prop where
  buffer : Framing.findPair lf d.buffer = none
  scanFrom : d.scanFrom = d.buffer.length - (endsWithLf d.buffer).toNat

/-- Everything but the last byte of a buffer stays. -/
theorem foldl_appendByte_pairAt {bytes : List UInt8} {i : Nat} (hi : i + 2 < buffer.length) :
    PairAt lf (bytes.foldl appendByte buffer) i ↔ PairAt lf buffer i := by
  obtain rfl | ⟨front, last, rfl⟩ := eq_nil_or_concat buffer
  · exact absurd hi (Nat.not_lt_zero _)
  rw [concat_eq_append] at hi ⊢
  rw [length_append, length_singleton] at hi
  rw [foldl_appendByte_append bytes (by simp), pairAt_append_of_lt (by omega),
    pairAt_append_of_lt (by omega)]

variable {d : SseEventDecoder}

/-- No terminator is missed by starting the search at `scan_from`. -/
theorem Clean.not_pairAt (hd : d.Clean) (bytes : List UInt8) {i : Nat}
    (hi : i < (d.append bytes).scanFrom) : ¬ PairAt lf (d.append bytes).buffer i := by
  have hold := findPair_eq_none.mp hd.buffer i
  rw [append] at hi ⊢
  split at hi
  · rename_i hcr
    rw [if_pos hcr]
    have hlt : i + 2 < d.buffer.length := by
      simp only at hi
      omega
    exact fun hp => hold ((foldl_appendByte_pairAt hlt).mp hp)
  · rename_i hcr
    rw [if_neg hcr]
    simp only [hd.scanFrom] at hi
    by_cases hlt : i + 1 < d.buffer.length
    · exact fun hp => hold ((pairAt_append_of_lt hlt).mp hp)
    · -- The pair would begin with the last byte, which is no line feed.
      have hends : endsWithLf d.buffer = false := by
        cases hb : endsWithLf d.buffer with
        | false => rfl
        | true =>
          rw [hb, Bool.toNat_true] at hi
          omega
      rintro ⟨hfirst, -⟩
      have hidx : i = d.buffer.length - 1 := by omega
      rw [getElem?_append_left (by omega), hidx, ← getLast?_eq_getElem?] at hfirst
      rw [endsWithLf, hfirst] at hends
      simp at hends

theorem settle_buffer (d : SseEventDecoder) (results : List (SseResult J)) (consumed : Nat) :
    (d.settle results consumed).buffer = d.buffer.drop consumed := by
  cases consumed with
  | zero =>
    rw [settle]
    split <;> rfl
  | succ n =>
    rw [settle]
    split <;> rfl

theorem settle_clean {results : List (SseResult J)} (hok : AllOk results)
    (hrest : findPair lf (d.buffer.drop consumed) = none) : (d.settle results consumed).Clean := by
  refine ⟨by rwa [settle_buffer], ?_⟩
  have hlast : results.getLast?.all Except.isOk = true := by
    cases hl : results.getLast? with
    | none => rfl
    | some result => exact hok result (mem_of_getLast? hl)
  rw [settle, if_pos hlast]

variable (fromStr) in
/-- One chunk: the results are those of the frames that the buffer and the chunk complete. -/
theorem pushBytesResults_spec (hd : d.Clean) (bytes : List UInt8) :
    (d.pushBytesResults fromStr bytes).1 =
        untilError (events fromStr (bytes.foldl appendByte d.buffer)) ∧
      (AllOk (events fromStr (bytes.foldl appendByte d.buffer)) →
        (d.pushBytesResults fromStr bytes).2.buffer =
            (frames (bytes.foldl appendByte d.buffer)).2 ∧
          (d.pushBytesResults fromStr bytes).2.Clean) := by
  have hskip : ∀ i < min (d.append bytes).scanFrom (d.append bytes).buffer.length - 0,
      ¬ PairAt lf ((d.append bytes).buffer.drop 0) i := by
    intro i hi
    rw [drop_zero]
    exact hd.not_pairAt bytes (by omega)
  obtain ⟨hresults, hrest⟩ := frameLoop_spec fromStr (Nat.zero_le _) hskip
  rw [drop_zero, append_buffer] at hresults hrest
  rw [pushBytesResults]
  simp only [append_buffer]
  refine ⟨hresults, ?_⟩
  intro hok
  refine ⟨?_, ?_⟩
  · rw [settle_buffer, append_buffer]
    exact hrest hok
  · apply settle_clean
    · rw [hresults]
      exact allOk_untilError.mpr hok
    · rw [append_buffer, hrest hok]
      exact findPair_remainder _

/-! ### Chunk after chunk -/

/-- Bytes that arrive later complete frames behind those already found: only the remainder
matters for them. -/
theorem frames_foldl (buffer bytes : List UInt8) :
    frames (bytes.foldl appendByte buffer) =
      ((frames buffer).1 ++ (frames (bytes.foldl appendByte (frames buffer).2)).1,
        (frames (bytes.foldl appendByte (frames buffer).2)).2) := by
  obtain ⟨cut, hbuffer, hlast, hsplit⟩ := split_resume lf buffer
  have hfold : bytes.foldl appendByte buffer = cut ++ bytes.foldl appendByte (frames buffer).2 := by
    conv_lhs => rw [hbuffer]
    apply foldl_appendByte_append
    intro _ hcr
    exact absurd (hlast _ hcr) (by decide)
  rw [hfold]
  exact hsplit _

variable (fromStr) in
theorem events_foldl (buffer bytes : List UInt8) :
    events fromStr (bytes.foldl appendByte buffer) =
      events fromStr buffer ++ events fromStr (bytes.foldl appendByte (frames buffer).2) := by
  rw [events, frames_foldl, filterMap_append]
  rfl

variable (fromStr) in
/-- A decoder that is fed chunk by chunk yields the events of the bytes as a whole and keeps
their remainder. -/
theorem pushChunks_spec (hd : d.Clean) (chunks : List (List UInt8)) :
    untilError (d.pushChunks fromStr chunks).1 =
        untilError (events fromStr (chunks.flatten.foldl appendByte d.buffer)) ∧
      (AllOk (d.pushChunks fromStr chunks).1 → (d.pushChunks fromStr chunks).2.buffer =
        (frames (chunks.flatten.foldl appendByte d.buffer)).2) := by
  induction chunks generalizing d with
  | nil =>
    have hnone : frames d.buffer = ([], d.buffer) := split_of_none hd.buffer
    rw [pushChunks, flatten_nil, foldl_nil, events, hnone]
    exact ⟨rfl, fun _ => rfl⟩
  | cons chunk chunks ih =>
    obtain ⟨hresults, hok⟩ := pushBytesResults_spec fromStr hd chunk
    have hevents := events_foldl fromStr (chunk.foldl appendByte d.buffer) chunks.flatten
    have hframes := frames_foldl (chunk.foldl appendByte d.buffer) chunks.flatten
    rw [pushChunks, flatten_cons, foldl_append, hevents, hframes]
    simp only
    by_cases hchunk : AllOk (events fromStr (chunk.foldl appendByte d.buffer))
    · obtain ⟨hbuffer, hclean⟩ := hok hchunk
      obtain ⟨hrest, hend⟩ := ih hclean
      rw [hresults, untilError_of_allOk hchunk, untilError_append_of_allOk hchunk,
        untilError_append_of_allOk hchunk, hrest, hbuffer]
      refine ⟨rfl, ?_⟩
      intro hall
      rw [hend (allOk_append.mp hall).2, hbuffer]
    · have herror : ¬ AllOk (d.pushBytesResults fromStr chunk).1 := by
        rwa [hresults, allOk_untilError]
      refine ⟨?_, fun hall => absurd (allOk_append.mp hall).1 herror⟩
      rw [untilError_append_of_not_allOk hchunk, untilError_append_of_not_allOk herror, hresults,
        untilError_untilError]

theorem clean_new : ({} : SseEventDecoder).Clean := ⟨rfl, rfl⟩

/-- However a byte string is cut into chunks, the results up to and including the first error are
those of a single call, and if there is no error `finish` returns the same value. -/
theorem pushChunks_eq_pushBytesResults (fromStr : String → Except String J)
    (chunks : List (List UInt8)) :
    untilError (({} : SseEventDecoder).pushChunks fromStr chunks).1 =
        untilError (({} : SseEventDecoder).pushBytesResults fromStr chunks.flatten).1 ∧
      (AllOk (({} : SseEventDecoder).pushChunks fromStr chunks).1 →
        (({} : SseEventDecoder).pushChunks fromStr chunks).2.finish fromStr =
          (({} : SseEventDecoder).pushBytesResults fromStr chunks.flatten).2.finish fromStr) := by
  obtain ⟨hchunked, hbuffer⟩ := pushChunks_spec fromStr clean_new chunks
  obtain ⟨hwhole, hrest⟩ := pushBytesResults_spec fromStr clean_new chunks.flatten
  refine ⟨?_, ?_⟩
  · rw [hchunked, hwhole, untilError_untilError]
  · intro hok
    have hevents : AllOk (events fromStr (chunks.flatten.foldl appendByte [])) := by
      rw [← allOk_untilError]
      rw [← allOk_untilError, hchunked] at hok
      exact hok
    rw [finish, finish, hbuffer hok, (hrest hevents).1]

end SseEventDecoder

end NemoRelay

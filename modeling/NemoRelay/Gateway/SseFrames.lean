import Mathlib.Data.List.TakeWhile
import NemoRelay.Gateway.Dispatch

/-!
# Streams that are written back

The gateway decodes the stream of a provider and writes every event back as a frame of its own. Two
routes mirror the `type` of an event onto the line before its data. The name is copied as it is,
and the decoder cuts lines at every line feed: what a name holds behind one is read as further lines
of the frame.
-/

namespace NemoRelay.Gateway

open Sse Text SseEventDecoder List

/-- `str::as_bytes`. -/
def asBytes (text : String) : List UInt8 := text.toList.flatMap String.utf8EncodeChar

/-- The event name that a route mirrors. -/
def eventName (route : ProviderRoute) (event : Json) : Option String :=
  match route with
  | .anthropicMessages | .openAiResponses => (event.get "type").bind Json.asStr
  | _ => none

/-- The line before the data. -/
def eventLine (route : ProviderRoute) (event : Json) : List UInt8 :=
  match eventName route event with
  | some name => asBytes "event: " ++ asBytes name ++ [lf]
  | none => []

/-- The writer returns what it wrote, and whether it succeeded. -/
def encodeSseFrame (toWriter : Json → List UInt8 × Bool) (event : Json) (route : ProviderRoute) :
    List UInt8 :=
  let written := toWriter event
  eventLine route event ++ asBytes "data: " ++ written.1 ++
    (if written.2 then [] else asBytes "null") ++ [lf, lf]

/-- The bytes as the decoder keeps them. -/
def normalize (bytes : List UInt8) : List UInt8 := bytes.foldl appendByte []

/-- The lines of a frame. -/
def parseLines (frame : List UInt8) : Option String × Option Text :=
  ((fromUtf8Lossy frame).splitOn '\n').foldl parseLine (none, none)

/-- A data line behind others. -/
def joinData : Option Text → Text → Text
  | none, data => data
  | some before, data => before ++ '\n' :: data

def isBlank (data : Option Text) : Bool := data.all fun text => text.all isWhitespace

/-- The lines of a name leave the data alone: the frames that they end hold no data but the end
mark, and the data behind them is blank. -/
structure LeavesData (line : List UInt8) : Prop where
  ended : ∀ frame ∈ (frames (normalize line)).1, ∀ data, (parseLines frame).2 = some data →
    Text.trim data = "[DONE]".toList
  blank : isBlank (parseLines (frames (normalize line)).2).2 = true

/-- The JSON writer and parser at an event: it is written on one line, with no blanks around it,
and reads back, but not behind other text. -/
structure WrittenAs (toWriter : Json → List UInt8 × Bool) (fromStr : String → Except String Json)
    (event : Json) (text : Text) : Prop where
  written : (toWriter event).2 = true
  decoded : fromUtf8Lossy (toWriter event).1 = text
  line : cr ∉ (toWriter event).1 ∧ lf ∉ (toWriter event).1 ∧ '\n' ∉ text
  trimmed : Text.trim text = text ∧ text ≠ [] ∧ text ≠ "[DONE]".toList
  reads : fromStr (String.ofList text) = .ok event
  alone : ∀ before, isBlank before = false →
    fromStr (String.ofList (Text.trim (joinData before text))) ≠ .ok event

/-! ### One frame -/

theorem fromUtf8Lossy_cons {b : UInt8} (hb : b < 0x80) (rest : List UInt8) :
    fromUtf8Lossy (b :: rest) = Char.ofNat b.toNat :: fromUtf8Lossy rest := by
  rw [fromUtf8Lossy.eq_def]
  exact if_pos hb

/-- A byte below `0x80` begins a character, whatever stands before it. -/
theorem fromUtf8Lossy_append {b : UInt8} (hb : b < 0x80) (front rest : List UInt8) :
    fromUtf8Lossy (front ++ b :: rest) =
      fromUtf8Lossy front ++ Char.ofNat b.toNat :: fromUtf8Lossy rest := by
  rw [← fromUtf8Lossy_cons hb]
  have hcont : isCont b = false := by grind [isCont]
  have hsecond3 : ∀ c, second3 c b = false := by grind [second3]
  have hsecond4 : ∀ c, second4 c b = false := by grind [second4]
  fun_induction fromUtf8Lossy front with
  | case1 => rfl
  | _ =>
    simp only [cons_append, nil_append]
    rw [fromUtf8Lossy.eq_def]
    grind

/-- Blank data before a text is trimmed with its line feed, other data stays. -/
theorem trim_joinData {text : Text} (htrim : Text.trim text = text) (hne : text ≠ [])
    (before : Option Text) :
    if isBlank before then Text.trim (joinData before text) = text
    else '\n' ∈ Text.trim (joinData before text) := by
  have hfront : text.dropWhile isWhitespace = text := by
    refine (dropWhile_suffix _).eq_of_length_le ?_
    conv_lhs => rw [← htrim, Text.trim, length_reverse]
    exact (dropWhile_suffix _).length_le.trans_eq length_reverse
  have hback : text.reverse.dropWhile isWhitespace = text.reverse := by
    rw [Text.trim, hfront] at htrim
    rw [← reverse_inj, htrim, reverse_reverse]
  have hnewline : ('\n' :: text).dropWhile isWhitespace = text.dropWhile isWhitespace := rfl
  cases before with
  | none => exact htrim
  | some before =>
    have hblank : isBlank (some before) = (before.dropWhile isWhitespace).isEmpty := by
      rw [Bool.eq_iff_iff, List.isEmpty_iff, List.dropWhile_eq_nil_iff]
      exact all_eq_true
    rw [joinData, Text.trim, dropWhile_append, hblank]
    split
    · rw [hnewline]
      exact htrim
    · rw [reverse_append, reverse_cons, append_assoc, dropWhile_append, hback,
        if_neg (by simpa using hne)]
      simp

section Decode

variable {toWriter : Json → List UInt8 × Bool} {fromStr : String → Except String Json}
  {event : Json} {text : Text} {route : ProviderRoute} {stream : List Json} {frame : List UInt8}

/-- The data line of an event is joined with what the lines before it hold. -/
theorem parseLines_data {front : List UInt8} (hfront : front = [] ∨ ∃ init, front = init ++ [lf])
    {json : List UInt8} (hjson : '\n' ∉ fromUtf8Lossy json) :
    (parseLines (front ++ (asBytes "data: " ++ json))).2 =
      some (joinData (parseLines front).2 (fromUtf8Lossy json)) := by
  have hdata : fromUtf8Lossy (asBytes "data: " ++ json) =
      "data: ".toList ++ fromUtf8Lossy json := by
    have hbytes : asBytes "data: " = [100, 97, 116, 97, 58, 32] := by decide
    rw [hbytes]
    simp only [cons_append, nil_append]
    iterate 6 rw [fromUtf8Lossy_cons (by decide)]
    rfl
  have hline : ("data: ".toList ++ fromUtf8Lossy json).splitOn '\n' =
      ["data: ".toList ++ fromUtf8Lossy json] := splitOn_eq_singleton (by simpa using hjson)
  obtain rfl | ⟨init, rfl⟩ := hfront
  · rw [parseLines, nil_append, hdata, hline]
    rfl
  · have hlf : ∀ rest, fromUtf8Lossy (init ++ [lf] ++ rest) =
        fromUtf8Lossy init ++ '\n' :: fromUtf8Lossy rest := by
      intro rest
      rw [append_assoc]
      exact fromUtf8Lossy_append (by decide) init rest
    have hinit : parseLines (init ++ [lf]) = parseLines init := by
      rw [parseLines, ← append_nil (init ++ [lf]), hlf, splitOn_append_cons_self, foldl_append]
      rfl
    rw [hinit, parseLines, hlf, hdata, splitOn_append_cons_self, hline, foldl_append, ← parseLines]
    obtain ⟨name, _ | before⟩ := parseLines init <;> rfl

theorem frameResult_eq_none : frameResult fromStr frame = none ↔
    ∀ data, (parseLines frame).2 = some data → Text.trim data = "[DONE]".toList := by
  rw [frameResult, parseSseFrame, ← parseLines]
  cases (parseLines frame).2 with
  | none => simp
  | some data =>
    by_cases hdone : Text.trim data = "[DONE]".toList
    · simp [hdone]
    · cases hread : fromStr (String.ofList (Text.trim data)) <;> simp_all

/-- The parser sees the data unless it is the end mark. -/
theorem frameResult_of_data {data : Text} (hdata : (parseLines frame).2 = some data)
    (hdone : Text.trim data ≠ "[DONE]".toList) :
    ∃ result, frameResult fromStr frame = some result ∧ (result.map SseEvent.data = .ok event ↔
      fromStr (String.ofList (Text.trim data)) = .ok event) := by
  rw [frameResult, parseSseFrame, ← parseLines]
  simp only [hdata, if_neg hdone]
  cases fromStr (String.ofList (Text.trim data)) <;> simp [Except.map]

/-- The frame that ends with the data of an event. -/
theorem frameResult_data (law : WrittenAs toWriter fromStr event text) {front : List UInt8}
    (hfront : front = [] ∨ ∃ init, front = init ++ [lf]) :
    ∃ result, frameResult fromStr (front ++ (asBytes "data: " ++ (toWriter event).1)) =
      some result ∧
      (result.map SseEvent.data = .ok event ↔ isBlank (parseLines front).2 = true) := by
  obtain ⟨htrim, hne, hdone⟩ := law.trimmed
  have hdata := parseLines_data hfront (law.decoded ▸ law.line.2.2)
  have hjoined := trim_joinData htrim hne (parseLines front).2
  rw [law.decoded] at hdata
  cases hblank : isBlank (parseLines front).2 with
  | true =>
    rw [hblank, if_pos rfl] at hjoined
    obtain ⟨result, hresult, hiff⟩ := frameResult_of_data hdata (by rwa [hjoined])
    rw [hjoined] at hiff
    exact ⟨result, hresult, hiff.trans (iff_of_true law.reads rfl)⟩
  | false =>
    rw [hblank, if_neg nofun] at hjoined
    obtain ⟨result, hresult, hiff⟩ := frameResult_of_data hdata fun h =>
      absurd (h ▸ hjoined) (by decide)
    exact ⟨result, hresult, hiff.trans (iff_of_false (law.alone _ hblank) nofun)⟩

/-- What is left of the line of a name ends with a line feed, also after normalization. -/
theorem eventLine_rest (route : ProviderRoute) (event : Json) :
    let rest := (frames (normalize (eventLine route event))).2
    rest = [] ∨ ∃ init, rest = init ++ [lf] := by
  intro rest
  obtain ⟨cut, hcut, -⟩ : ∃ cut, normalize (eventLine route event) = cut ++ rest ∧ _ :=
    Framing.split_resume lf _
  obtain hnil | ⟨init, last, hrest⟩ := eq_nil_or_concat rest
  · exact .inl hnil
  · rw [hrest, concat_eq_append, ← append_assoc] at hcut
    have hlast := congrArg List.getLast? hcut
    rw [getLast?_concat, normalize, eventLine] at hlast
    split at hlast
    · rw [foldl_concat, appendByte] at hlast
      refine .inr ⟨init, ?_⟩
      rw [hrest, concat_eq_append]
      split at hlast <;> simp_all
    · cases hlast

/-- The frames of an event: those that its name ends, and the one with its data. -/
theorem frames_encodeSseFrame (law : WrittenAs toWriter fromStr event text) :
    let line := frames (normalize (eventLine route event))
    frames (normalize (encodeSseFrame toWriter event route)) =
      (line.1 ++ [line.2 ++ (asBytes "data: " ++ (toWriter event).1)], []) := by
  intro line
  obtain ⟨hcr, hlf, -⟩ := law.line
  have hdata : ∀ byte, byte ∉ asBytes "data: " → byte ∉ (toWriter event).1 →
      byte ∉ asBytes "data: " ++ (toWriter event).1 := by simp +contextual
  have hlast : line.2.getLast? ≠ some cr := by
    obtain hnil | ⟨init, hinit⟩ := eventLine_rest route event
    · rw [hnil]; nofun
    · rw [hinit, getLast?_concat]; decide
  have hbytes : encodeSseFrame toWriter event route =
      eventLine route event ++ (asBytes "data: " ++ (toWriter event).1 ++ [lf, lf]) := by
    simp [encodeSseFrame, law.written]
  have hcr : cr ∉ asBytes "data: " ++ (toWriter event).1 ++ [lf, lf] := by
    rw [mem_append, not_or]
    exact ⟨hdata cr (by decide) hcr, by decide⟩
  have hsplit : frames (line.2 ++ (asBytes "data: " ++ (toWriter event).1) ++ [lf, lf]) = _ :=
    Framing.split_append_pair (Framing.findPair_remainder _) (hdata lf (by decide) hlf)
      (by simp [asBytes])
  rw [hbytes, normalize, foldl_append, frames_foldl, ← normalize,
    foldl_appendByte_of_not_mem hcr hlast, ← append_assoc line.2, hsplit]

/-! ### Streams -/

/-- The results with their JSON data only. -/
def payloads (results : List (SseResult Json)) : List (Except FlowError Json) :=
  results.map fun result => result.map SseEvent.data

/-- The results of some bytes as a whole. -/
def payloadsOf (fromStr : String → Except String Json) (bytes : List UInt8) :
    List (Except FlowError Json) :=
  payloads (events fromStr (normalize bytes))

/-- Each event gives one result or more, and itself alone if its name leaves the data alone. -/
theorem payloadsOf_encodeSseFrame (law : WrittenAs toWriter fromStr event text) :
    payloadsOf fromStr (encodeSseFrame toWriter event route) ≠ [] ∧
      (payloadsOf fromStr (encodeSseFrame toWriter event route) = [.ok event] ↔
        LeavesData (eventLine route event)) := by
  obtain ⟨result, hresult, hiff⟩ := frameResult_data law (eventLine_rest route event)
  rw [payloadsOf, events, frames_encodeSseFrame law, filterMap_append,
    filterMap_cons_some hresult, filterMap_nil]
  refine ⟨by simp [payloads], ?_⟩
  simp only [payloads, map_append, map_singleton, append_eq_singleton_iff,
    map_eq_nil_iff, filterMap_eq_nil_iff, cons_ne_nil, and_false, or_false,
    singleton_inj, hiff, frameResult_eq_none]
  exact ⟨fun h => ⟨h.1, h.2⟩, fun h => ⟨h.ended, h.blank⟩⟩

/-- A stream is decoded event after event. -/
theorem payloadsOf_flatMap (law : ∀ event ∈ stream, ∃ text, WrittenAs toWriter fromStr event text) :
    payloadsOf fromStr (stream.flatMap (encodeSseFrame toWriter · route)) =
      stream.flatMap fun event => payloadsOf fromStr (encodeSseFrame toWriter event route) := by
  induction stream with
  | nil =>
    have hnone : frames [] = ([], []) := Framing.split_of_none rfl
    simp [payloadsOf, payloads, normalize, events, hnone]
  | cons event stream ih =>
    obtain ⟨⟨text, hlaw⟩, hrest⟩ := forall_mem_cons.mp law
    rw [flatMap_cons, payloadsOf, normalize, foldl_append, events_foldl, ← normalize,
      frames_encodeSseFrame hlaw, flatMap_cons, ← ih hrest]
    exact map_append

/-- The chunks make no difference unless there is an error. -/
theorem payloads_pushChunks {chunks : List (List UInt8)} :
    payloads (({} : SseEventDecoder).pushChunks fromStr chunks).1 = stream.map .ok ↔
      payloadsOf fromStr chunks.flatten = stream.map .ok := by
  have hok : ∀ results, payloads results = stream.map .ok → AllOk results := by
    intro results h result hresult
    have hmem : result.map SseEvent.data ∈ payloads results := mem_map_of_mem hresult
    rw [h, mem_map] at hmem
    cases result with
    | error => simp [Except.map] at hmem
    | ok => rfl
  have hsame : ∀ {results results' : List (SseResult Json)},
      untilError results = untilError results' → payloads results = stream.map .ok →
      payloads results' = stream.map .ok := by
    intro results results' heq h
    have hall := hok results h
    rw [untilError_of_allOk hall] at heq
    rwa [← untilError_of_allOk (allOk_untilError.mp (heq ▸ hall) : AllOk results'), ← heq]
  have huntil := (pushChunks_spec fromStr clean_new chunks).1
  exact ⟨hsame huntil, hsame huntil.symm⟩

theorem flatMap_eq_map {α β : Type*} {f : α → List β} {g : α → β} {items : List α}
    (hf : ∀ item ∈ items, f item ≠ []) :
    items.flatMap f = items.map g ↔ ∀ item ∈ items, f item = [g item] := by
  induction items with
  | nil => simp
  | cons item items ih =>
    rw [forall_mem_cons] at hf ⊢
    rw [← ih hf.2, flatMap_cons, map_cons]
    refine ⟨fun h => append_inj h ?_, fun h => by rw [h.1, h.2, singleton_append]⟩
    -- every item gives something, so that the first one gives no more than its share
    have hrest : items.length ≤ (items.flatMap f).length := by
      rw [length_flatMap, ← @List.length_map _ _ items fun item => (f item).length]
      exact length_le_sum_of_one_le _ (by simpa [Nat.one_le_iff_ne_zero] using hf.2)
    have hone := length_pos_of_ne_nil hf.1
    have htotal := congrArg List.length h
    simp only [length_append, length_cons, length_map] at htotal
    simp only [length_singleton]
    omega

/-- The events are decoded as they were written, in any chunks, exactly if no mirrored name adds to
the data. -/
theorem decode_encodeSseFrame_iff (route : ProviderRoute) (stream : List Json)
    (law : ∀ event ∈ stream, ∃ text, WrittenAs toWriter fromStr event text)
    {chunks : List (List UInt8)}
    (hchunks : chunks.flatten = stream.flatMap (encodeSseFrame toWriter · route)) :
    payloads (({} : SseEventDecoder).pushChunks fromStr chunks).1 = stream.map .ok ↔
      ∀ event ∈ stream, LeavesData (eventLine route event) := by
  rw [payloads_pushChunks, hchunks, payloadsOf_flatMap law, flatMap_eq_map]
  · refine forall₂_congr fun event hevent => ?_
    obtain ⟨text, hlaw⟩ := law event hevent
    exact (payloadsOf_encodeSseFrame hlaw).2
  · intro event hevent
    obtain ⟨text, hlaw⟩ := law event hevent
    exact (payloadsOf_encodeSseFrame hlaw).1

end Decode

/-- A parser that knows one text. -/
def readsOnly (text : String) (event : Json) (read : String) : Except String Json :=
  if read = text then .ok event else .error "expected value"

theorem writtenAs_readsOnly (text : String) (event : Json)
    (hdecoded : fromUtf8Lossy (asBytes text) = text.toList)
    (hline : cr ∉ asBytes text ∧ lf ∉ asBytes text ∧ '\n' ∉ text.toList)
    (htrim : Text.trim text.toList = text.toList ∧ text.toList ≠ [] ∧
      text.toList ≠ "[DONE]".toList) :
    WrittenAs (fun _ => (asBytes text, true)) (readsOnly text event) event text.toList := by
  refine ⟨rfl, hdecoded, hline, htrim, if_pos String.ofList_toList, fun before hblank => ?_⟩
  have hmem := trim_joinData htrim.1 htrim.2.1 before
  rw [hblank, if_neg nofun] at hmem
  rw [readsOnly, if_neg]
  · exact nofun
  · rintro heq
    rw [← heq, String.toList_ofList] at hline
    exact hline.2.2 hmem

/-- Two events whose type is one word, in two chunks cut inside a frame. -/
theorem decode_encodeSseFrame_ping :
    let event : Json := .obj [("type", .str "ping")]
    let text := "\x7b\"type\":\"ping\"\x7d"
    let frame := encodeSseFrame (fun _ => (asBytes text, true)) event .anthropicMessages
    payloads (({} : SseEventDecoder).pushChunks (readsOnly text event)
      [frame.take 9, frame.drop 9 ++ frame]).1 = [.ok event, .ok event] := by
  intro event text frame
  have hlaw := writtenAs_readsOnly text event (by decide +kernel) (by decide +kernel)
    (by decide +kernel)
  have hframes : frames (normalize (eventLine .anthropicMessages event)) = ([], _) :=
    Framing.split_of_none (by decide +kernel)
  have hleaves : LeavesData (eventLine .anthropicMessages event) := by
    refine ⟨?_, ?_⟩ <;> rw [hframes]
    · exact nofun
    · decide +kernel
  exact (decode_encodeSseFrame_iff .anthropicMessages [event, event] (by simpa using ⟨_, hlaw⟩)
    (by simp [frame, ← append_assoc])).mpr (by simpa using hleaves)

/-- A type with a line feed and a field of its own: the decoder joins the field with the event. -/
theorem not_decoded_newline :
    let event : Json := .obj [("type", .str "a\ndata: x")]
    let text := "\x7b\"type\":\"a\\ndata: x\"\x7d"
    let toWriter : Json → List UInt8 × Bool := fun _ => (asBytes text, true)
    WrittenAs toWriter (readsOnly text event) event text.toList ∧
      payloads (({} : SseEventDecoder).pushChunks (readsOnly text event)
        [encodeSseFrame toWriter event .anthropicMessages]).1 ≠ [.ok event] := by
  intro event text toWriter
  have hlaw := writtenAs_readsOnly text event (by decide +kernel) (by decide +kernel)
    (by decide +kernel)
  refine ⟨hlaw, fun h => ?_⟩
  have hwhole := (@payloads_pushChunks _ [event] _).mp h
  rw [flatten_singleton] at hwhole
  have hblank := ((payloadsOf_encodeSseFrame hlaw).2.mp hwhole).blank
  rw [frames, Framing.split_of_none (by decide +kernel)] at hblank
  exact absurd hblank (by decide +kernel)

end NemoRelay.Gateway

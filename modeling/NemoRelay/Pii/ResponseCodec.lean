import NemoRelay.Codec.OpenAiChat.Request
import NemoRelay.Pii.AnthropicOverlay
import NemoRelay.ResponseCache.Replay

/-!
# Redaction of responses through their normalized form

`sanitize_response_with_codec`: a response is decoded, its normalized form is redacted and written
back over the payload, and the payload is redacted itself. A selector of the normalized form that
did not reach the payload makes the redaction fail.

What `serde` reads the parts of a message, token counts, an optimization summary and the fields of
one provider from, the decoder of a surface and the overlays of the other surfaces are arguments.
-/

namespace NemoRelay.Pii

open SortedMap (Sorted get)

open OpenAIChatCodec
open Option (or_none bind_some bind_eq_some_iff getD_some)

/-! ### Pointers into a value -/

/-- `str::parse::<usize>`. -/
def parseUsize (segment : String) : Option Nat :=
  let digits :=
    match segment.toList with
    | '+' :: digits => digits
    | digits => digits
  if digits ≠ [] ∧ digits.all Char.isDigit then
    let value := Nat.ofDigitChars 10 digits 0
    if value < 2 ^ 64 then some value else none
  else none

def sanitizedJsonPointerValue : Json → Path → Option Json
  | value, [] => some value
  | .obj values, segment :: segments =>
    (SortedMap.get values segment).bind fun value => sanitizedJsonPointerValue value segments
  | .arr values, segment :: segments =>
    ((parseUsize segment).bind fun index => values[index]?).bind fun value =>
      sanitizedJsonPointerValue value segments
  | _, _ :: _ => none

def normalizedResponseTargetsMatch (targetPaths : List Path)
    (annotated sanitized projected : Json) : Bool :=
  targetPaths.all fun segments =>
    let original := sanitizedJsonPointerValue annotated segments
    let expected := sanitizedJsonPointerValue sanitized segments
    (original.isNone && expected.isNone) || sanitizedJsonPointerValue projected segments = expected

/-! ### Responses with several candidates -/

/-- A selector that may reach what only the first candidate of a response is projected to. -/
def TargetPathSelector.maySelectSingleProjectedResponse (selector : TargetPathSelector) : Bool :=
  let first : Option TargetPathSegment :=
    match selector with
    | .exact segments => segments.head?.map .exact
    | .glob segments | .recursiveGlob segments => segments.head?
  match first with
  | some .any | some .anyDepth => true
  | some (.exact segment) =>
    ["message", "tool_calls", "finish_reason", "api_specific"].contains segment
  | none => false

def TargetPathMatcher.maySelectSingleProjectedResponse (matcher : TargetPathMatcher) : Bool :=
  matcher.selectors.any TargetPathSelector.maySelectSingleProjectedResponse

/-- The candidates of a response of which only the first is projected. -/
def candidatesKey : ProviderSurface → Option String
  | .openAIChat => some "choices"
  | .geminiGenerateContent => some "candidates"
  | _ => none

def hasSeveralCandidates (surface : ProviderSurface) (payload : Json) : Bool :=
  (candidatesKey surface).any fun key =>
    ((payload.get key).bind Json.asArray).any fun candidates => decide (1 < candidates.length)

/-! ### Reading a normalized form -/

structure PartReaders where
  part : Json → Option ContentPart
  usage : Json → Option Usage
  summary : Json → Option LlmOptimizationSummary
  apiSpecific : Json → Option ApiSpecificResponse

/-- An `Option` is `None` where the member is absent or null. -/
def readOption {α : Type} (read : Json → Option α) : Option Json → Option (Option α)
  | none | some .null => some none
  | some value => (read value).map some

variable (readers : PartReaders)

def readMessageContent : Json → Option MessageContent
  | .str text => some (.text text)
  | .arr parts => (parts.mapM readers.part).map .parts
  | _ => none

/-- A struct is read from an object or from the array of its fields. -/
def readResponseToolCall : Json → Option ResponseToolCall
  | .obj call => do
    let id ← (get call "id").bind Json.asStr
    let name ← (get call "name").bind Json.asStr
    return { id, name, arguments := ← get call "arguments" }
  | .arr [id, name, arguments] => do return { id := ← id.asStr, name := ← name.asStr, arguments }
  | _ => none

def readToolCalls (value : Json) : Option (List ResponseToolCall) :=
  value.asArray.bind fun calls => calls.mapM readResponseToolCall

def unitFinishReason : String → Option FinishReason
  | "complete" => some .complete
  | "length" => some .length
  | "tool_use" => some .toolUse
  | "content_filter" => some .contentFilter
  | _ => none

/-- A variant without a value is its name, or an object with null under it. -/
def readFinishReason : Json → Option FinishReason
  | .str name => unitFinishReason name
  | .obj [("unknown", .str reason)] => some (.unknown reason)
  | .obj [(name, .null)] => unitFinishReason name
  | _ => none

def responseKeys : List String :=
  ["id", "model", "message", "tool_calls", "finish_reason", "usage", "optimization_summary",
    "api_specific"]

def fromValue (value : Json) : Option AnnotatedLlmResponse := do
  let entries ← value.asObject
  return {
    id := ← readOption Json.asStr (get entries "id")
    model := ← readOption Json.asStr (get entries "model")
    message := ← readOption (readMessageContent readers) (get entries "message")
    toolCalls := ← readOption readToolCalls (get entries "tool_calls")
    finishReason := ← readOption readFinishReason (get entries "finish_reason")
    usage := ← readOption readers.usage (get entries "usage")
    optimizationSummary := ← readOption readers.summary (get entries "optimization_summary")
    apiSpecific := ← readOption readers.apiSpecific (get entries "api_specific")
    extra := otherKeys entries responseKeys }

/-! ### Redaction -/

section Sanitize

variable (readers : PartReaders)
  (others : ProviderSurface → Json → AnnotatedLlmResponse → Json)

def overlayResponsePayload (surface : ProviderSurface) (payload : Json)
    (annotated : AnnotatedLlmResponse) : Json :=
  match surface with
  | .anthropicMessages => overlayAnthropicResponse payload annotated
  | surface => others surface payload annotated

def sanitizeSerializable (backend : CompiledBuiltinBackend) (value : AnnotatedLlmResponse) :
    Option AnnotatedLlmResponse :=
  fromValue readers (backend.sanitizeJsonPreorderDfs (toValue value))

def sanitizeResponseWithCodec (backend : CompiledBuiltinBackend)
    (decodeResponse : Json → Except FlowError AnnotatedLlmResponse) (surface : ProviderSurface)
    (payload : Json) : Option Json :=
  if hasSeveralCandidates surface payload &&
      backend.targetPathMatcher.maySelectSingleProjectedResponse then none
  else do
    let annotated ← (decodeResponse payload).toOption
    let annotatedJson := toValue annotated
    let sanitizedAnnotated ← sanitizeSerializable readers backend annotated
    let sanitizedJson := toValue sanitizedAnnotated
    let payload := overlayResponsePayload others surface payload sanitizedAnnotated
    let payload := backend.sanitizeJsonPreorderDfs payload
    let targetPaths := backend.targetPathMatcher.matchingJsonPointerPaths annotatedJson ++
      backend.targetPathMatcher.matchingJsonPointerPaths sanitizedJson
    if targetPaths = [] then some payload
    else
      let projected ← (decodeResponse payload).toOption
      if normalizedResponseTargetsMatch targetPaths annotatedJson sanitizedJson (toValue projected)
      then some payload
      else none

end Sanitize

/-! ### Fields that are hidden -/

section ReadBack

open AnthropicMessagesCodec

/-- A flattened member with the name of a field is written, and read, in the place of the field. -/
def readHidden {α : Type} (read : Json → Option α) (hidden : Option Json) (field : Option α) :
    Option (Option α) :=
  match hidden with
  | some value => readOption read (some value)
  | none => some field

/-- What is read back of the form of a response with the given members. -/
structure ReadsBack (readers : PartReaders) (root : Object)
    (response read : AnnotatedLlmResponse) : Prop where
  id : read.id = response.id
  model : read.model = response.model
  message : readHidden (readMessageContent readers) (get root "message") response.message =
    some read.message
  toolCalls : readHidden readToolCalls (get root "tool_calls") response.toolCalls =
    some read.toolCalls
  finishReason : readHidden readFinishReason (get root "finish_reason") response.finishReason =
    some read.finishReason
  usage : read.usage = response.usage
  summary : readHidden readers.summary (get root "optimization_summary") none =
    some read.optimizationSummary
  apiSpecific : readHidden readers.apiSpecific (get root "api_specific") response.apiSpecific =
    some read.apiSpecific
  extra : read.extra = otherKeys root (rawResponseKeys ++ responseKeys)

theorem readOption_or {α : Type} {read : Json → Option α} {write : α → Json} {field : Option α}
    (h : ∀ x, field = some x → readOption read (some (write x)) = some (some x))
    (hidden : Option Json) :
    readOption read (hidden.or (field.map write)) = readHidden read hidden field := by
  cases hidden with
  | some value => rfl
  | none =>
    cases field with
    | none => rfl
    | some x => exact h x rfl

theorem readOption_obj {α : Type} {read : Json → Option α} {value : Json} {x : α}
    (hvalue : ∃ entries, value = .obj entries) (h : read value = some x) :
    readOption read (some value) = some (some x) := by
  obtain ⟨entries, rfl⟩ := hvalue
  exact congrArg (Option.map some) h

theorem readFinishReason_toValue (reason : FinishReason) :
    readOption readFinishReason (some (toValue reason)) = some (some reason) := by
  cases reason <;> rfl

theorem readToolCalls_toValue (calls : List ResponseToolCall) :
    readOption readToolCalls (some (.arr (calls.map toValue))) = some (some calls) := by
  have hread : (calls.map toValue).mapM readResponseToolCall = some calls := by
    refine mapM_eq_some.mpr (List.forall₂_map_left_iff.mpr (List.forall₂_same.mpr fun call _ => ?_))
    simp [toValue, Json.ofFields, readResponseToolCall, get_insertFields, fieldOf, Json.asStr]
  simp [readOption, readToolCalls, Json.asArray, hread]

theorem fieldOf_members {m : Object} (h : Sorted m) (key : String) :
    fieldOf (m.map fun entry => (entry.1, some entry.2)) key = get m key := by
  induction m with
  | nil => rfl
  | cons entry m ih =>
    rw [List.map_cons, fieldOf, ih (SortedMap.sorted_cons.mp h).2, SortedMap.get_cons]
    split
    · next hkey => rw [hkey, h.get_eq_none, Option.none_or]
    · rw [or_none]

theorem fieldOf_of_mem {fields : List (String × Option Json)} {key : String} {value : Option Json}
    (hkeys : (fields.map Prod.fst).Nodup) (h : (key, value) ∈ fields) :
    fieldOf fields key = value := by
  induction fields with
  | nil => cases h
  | cons field fields ih =>
    obtain ⟨hfirst, hrest⟩ := List.nodup_cons.mp hkeys
    rw [fieldOf]
    cases h with
    | head => rw [fieldOf_eq_none hfirst, if_pos rfl, Option.none_or]
    | tail _ hmem =>
      have hne : key ≠ field.1 := fun heq => hfirst (heq ▸ List.mem_map_of_mem hmem)
      rw [ih hrest hmem, if_neg hne, or_none]

theorem get_ofFields (fields : List (String × Option Json)) {flattened : Object}
    (h : Sorted flattened) (key : String) :
    (Json.ofFields fields flattened).get key = (get flattened key).or (fieldOf fields key) := by
  rw [Json.ofFields, Json.get, Json.asObject, bind_some, get_insertFields,
    get_insertFields_nil, fieldOf_members h]

/-- The parts of a form that are not looked into read back. -/
structure PartReaders.RoundTrip (readers : PartReaders) (response : AnnotatedLlmResponse) :
    Prop where
  usage : ∀ usage, response.usage = some usage → readers.usage (toValue usage) = some usage
  apiSpecific : ∀ fields, response.apiSpecific = some fields →
    readers.apiSpecific (toValue fields) = some fields

theorem otherKeys_otherKeys (obj : Object) (keys keys' : List String) :
    otherKeys (otherKeys obj keys) keys' = otherKeys obj (keys ++ keys') := by
  simp [otherKeys, Bool.and_comm]

theorem fromValue_toValue_iff {readers : PartReaders} {root : Object}
    {response read : AnnotatedLlmResponse} (hroot : Sorted root)
    (hdecodes : DecodesResponse root response) (hserde : readers.RoundTrip response) :
    fromValue readers (toValue response) = some read ↔ ReadsBack readers root response read := by
  have hsorted : Sorted response.extra := hdecodes.extra ▸ hroot.filter _
  obtain ⟨entries, hentries⟩ : ∃ entries, toValue response = .obj entries := ⟨_, rfl⟩
  have hget : ∀ key,
      get entries key = (get response.extra key).or (fieldOf response.fields key) := by
    intro key
    rw [← get_ofFields _ hsorted]
    exact congrArg (Json.get · key) hentries.symm
  have hfield : ∀ {α : Type} (read : Json → Option α) {field : Option α} {write : α → Json}
      {key : String} (i : Nat), response.fields[i]? = some (key, field.map write) →
      (∀ x, field = some x → readOption read (some (write x)) = some (some x)) →
      readOption read (get entries key) =
        readHidden read (if key ∈ rawResponseKeys then none else get root key) field := by
    intro α read field write key i hi hwrite
    have hkeys : (response.fields.map Prod.fst).Nodup := by
      change responseKeys.Nodup
      decide
    rw [hget, fieldOf_of_mem hkeys (List.mem_of_getElem? hi), readOption_or hwrite, hdecodes.extra,
      get_otherKeys]
  have hother :
      otherKeys entries responseKeys = otherKeys root (rawResponseKeys ++ responseKeys) := by
    rw [← otherKeys_otherKeys, ← hdecodes.extra]
    have hentries' : Sorted entries := Json.obj.inj hentries ▸ sorted_insertFields
      (sorted_insertFields .nil _) _
    refine otherKeys_congr hentries' hsorted fun key hkey => ?_
    rw [hget, fieldOf_eq_none (show key ∉ response.fields.map Prod.fst from hkey), or_none]
  have hmessages : ∀ message, response.message = some message →
      readOption (readMessageContent readers) (some (toValue message)) = some (some message) := by
    obtain ⟨blocks, -, hmessage, -⟩ := hdecodes.content
    intro message h
    rw [hmessage, anthropicTextMessage] at h
    split at h <;> cases h
    rfl
  have hsummary : ∀ summary, response.optimizationSummary = some summary →
      readOption readers.summary (some (toValue summary)) = some (some summary) := by
    intro summary h
    rw [hdecodes.summary] at h
    cases h
  have hid := hfield Json.asStr 0 rfl fun _ _ => rfl
  have hmodel := hfield Json.asStr 1 rfl fun _ _ => rfl
  have hmessage := hfield _ 2 rfl hmessages
  have hcalls := hfield _ 3 rfl fun calls _ => readToolCalls_toValue calls
  have hfinish := hfield _ 4 rfl fun reason _ => readFinishReason_toValue reason
  have husage := hfield _ 5 rfl fun usage h => readOption_obj ⟨_, rfl⟩ (hserde.usage usage h)
  have hsum := hfield _ 6 rfl hsummary
  have hapi := hfield _ 7 rfl fun fields h =>
    readOption_obj (by cases fields <;> exact ⟨_, rfl⟩) (hserde.apiSpecific fields h)
  rw [fromValue, hentries]
  simp only [Json.asObject, Option.bind_eq_bind, bind_some, bind_eq_some_iff, hother,
    hid, hmodel, hmessage, hcalls, hfinish, husage, hsum, hapi]
  constructor
  · rintro ⟨id, hid, model, hmodel, message, hmessage, calls, hcalls, finish, hfinish, usage,
      husage, summary, hsum, api, hapi, h⟩
    cases h
    exact ⟨(Option.some.inj hid).symm, (Option.some.inj hmodel).symm, hmessage, hcalls, hfinish,
      (Option.some.inj husage).symm, hdecodes.summary ▸ hsum, hapi, rfl⟩
  · intro h
    exact ⟨_, congrArg some h.id.symm, _, congrArg some h.model.symm, _, h.message, _, h.toolCalls,
      _, h.finishReason, _, congrArg some h.usage.symm, _, hdecodes.summary ▸ h.summary, _,
      h.apiSpecific, congrArg some (by rw [← h.extra])⟩

end ReadBack

/-! ### Responses of which nothing is selected -/

section Frame

open AnthropicMessagesCodec

open CompiledBuiltinBackend

variable {backend : CompiledBuiltinBackend} {root : Object}
  {response read : AnnotatedLlmResponse}

/-- Of the form that is read back, every selected part is as in the form that was decoded. -/
def SelectionKept (matcher : TargetPathMatcher) (response read : AnnotatedLlmResponse) : Prop :=
  ∀ path ∈ matcher.matchingJsonPointerPaths (toValue read),
    sanitizedJsonPointerValue (toValue response) path =
      sanitizedJsonPointerValue (toValue read) path

theorem normalizedResponseTargetsMatch_self_iff {annotated sanitized : Json} {paths : List Path} :
    normalizedResponseTargetsMatch paths annotated sanitized annotated = true ↔
      ∀ path ∈ paths, sanitizedJsonPointerValue annotated path =
        sanitizedJsonPointerValue sanitized path := by
  simp only [normalizedResponseTargetsMatch, List.all_eq_true, Bool.or_eq_true, Bool.and_eq_true,
    Option.isNone_iff_eq_none, decide_eq_true_eq]
  refine forall₂_congr fun path _ => ⟨?_, .inr⟩
  rintro (⟨hannotated, hsanitized⟩ | h)
  · rw [hannotated, hsanitized]
  · exact h

theorem sanitize_self {value : Json} (hnonempty : backend.targetPathMatcher.isEmpty = false)
    (h : Unselected backend.targetPathMatcher [] value) :
    backend.sanitizeJsonPreorderDfs value = value := by
  rw [sanitizeJsonPreorderDfs, h.sanitize_eq_self hnonempty, getD_some]

/-- What is left of a redaction that selects nothing of the normalized form. -/
theorem sanitizeResponseWithCodec_eq_iff
    (others : ProviderSurface → Json → AnnotatedLlmResponse → Json)
    {decodeResponse : Json → Except FlowError AnnotatedLlmResponse} {payload : Json}
    (hdecode : decodeResponse payload = .ok response)
    (hnonempty : backend.targetPathMatcher.isEmpty = false)
    (hnormal : Unselected backend.targetPathMatcher [] (toValue response)) :
    sanitizeResponseWithCodec readers others backend decodeResponse .anthropicMessages payload =
        some payload ↔
      ∃ read, fromValue readers (toValue response) = some read ∧
        SelectionKept backend.targetPathMatcher response read ∧
        backend.sanitizeJsonPreorderDfs (overlayAnthropicResponse payload read) = payload := by
  have hpaths : backend.targetPathMatcher.matchingJsonPointerPaths (toValue response) = [] :=
    hnormal.collectMatchingPaths_eq_nil
  rw [sanitizeResponseWithCodec, if_neg (by simp [hasSeveralCandidates, candidatesKey])]
  simp only [hdecode, Except.toOption, sanitizeSerializable, sanitize_self hnonempty hnormal,
    hpaths, List.nil_append, overlayResponsePayload, Option.bind_eq_bind, bind_some,
    bind_eq_some_iff]
  refine exists_congr fun read => and_congr_right fun _ => ?_
  generalize hresult : backend.sanitizeJsonPreorderDfs (overlayAnthropicResponse payload read) =
    result
  constructor
  · intro h
    split at h
    · next hnil =>
      refine ⟨?_, Option.some.inj h⟩
      rw [SelectionKept, hnil]
      nofun
    · obtain ⟨projected, hprojected, h⟩ := bind_eq_some_iff.mp h
      split at h
      · next hmatch =>
        obtain rfl := Option.some.inj h
        rw [hdecode] at hprojected
        cases hprojected
        exact ⟨normalizedResponseTargetsMatch_self_iff.mp hmatch, rfl⟩
      · cases h
  · rintro ⟨hkept, rfl⟩
    split
    · rfl
    · simp [hdecode, normalizedResponseTargetsMatch_self_iff.mpr hkept]

/-- Every text block gets its text back. Where the message is hidden by a member of the payload, the
texts are the lines of what that member is read as. -/
def TextsKept (root : Object) (read : AnnotatedLlmResponse) : Prop :=
  let texts := (contentBlocks root).filterMap anthropicTextBlock
  match get root "message" with
  | none => TextsFit texts
  | some _ => ∀ (k : Nat) text, texts[k]? = some text →
      textPart texts.length (annotatedMessageText read.message) k = some text

/-- Every tool block gets its call back. -/
def CallsKept (backend : CompiledBuiltinBackend) (root : Object) (read : AnnotatedLlmResponse) :
    Prop :=
  match get root "tool_calls" with
  | none => ToolBlocksComplete (contentBlocks root)
  | some _ =>
    CallsFit backend ["content"] (read.toolCalls.getD []) (toolBlocks 0 (contentBlocks root))

theorem eq_of_readHidden_none {α : Type} {read : Json → Option α} {field field' : Option α}
    (h : readHidden read none field = some field') : field' = field :=
  (Option.some.inj h).symm

theorem eq_some_of_reads {member : Option Json} {field : Option String} {text : String}
    (h : FieldFormat.string.Reads member field) (hmember : member = some (.str text)) :
    field = some text := by
  cases field with
  | none => simp [FieldFormat.Reads, hmember] at h
  | some field =>
    obtain ⟨value, hvalue, hread⟩ := h
    cases hmember.symm.trans hvalue
    exact hread.symm

/-- Redaction gives the content back if every block gets its text or its call back. -/
theorem sanitizeItems_overlayBlocks_iff {readers : PartReaders}
    (hnonempty : backend.targetPathMatcher.isEmpty = false) (hroot : (Json.obj root).WF)
    (hpayload : Unselected backend.targetPathMatcher [] (.obj root)) {blocks : List Json}
    (hcontent : get root "content" = some (.arr blocks)) (htexts : TextBlocksHaveText blocks)
    (hdecodes : DecodesResponse root response) (hread : ReadsBack readers root response read) :
    backend.sanitizeItems ["content"] 0 (overlayBlocks read blocks) = blocks ↔
      TextsKept root read ∧ CallsKept backend root read := by
  have hblocks : contentBlocks root = blocks := by rw [contentBlocks, hcontent]
  have hunselected : ∀ (k : Nat) block, blocks[k]? = some block →
      Unselected backend.targetPathMatcher (["content"] ++ [toString (0 + k)]) block := by
    intro k block hk
    rw [Nat.zero_add]
    exact (hpayload.member (SortedMap.mem_of_get hcontent)).item hk
  obtain ⟨content, hreads, hmessage, hcalls⟩ := hdecodes.content
  obtain rfl : content = some blocks := by
    cases content with
    | none => rcases hreads with h | h <;> rw [hcontent] at h <;> cases h
    | some content =>
      obtain ⟨value, hvalue, hitems⟩ := hreads
      rw [hcontent] at hvalue
      cases hvalue
      exact hitems.symm
  rw [overlayBlocks, overlayAnthropicToolCalls_eq, overlayAnthropicTextBlocks,
    sanitizeItems_overlay_iff hnonempty _ _ (Json.wf_arr.mp (hroot.member hcontent)) htexts
      hunselected, length_filterMap_textBlock htexts]
  simp only [TextsKept, CallsKept, hblocks, Nat.zero_add]
  refine and_congr ?_ ?_
  · have hread := hread.message
    cases hhidden : get root "message" with
    | some value => rfl
    | none =>
      rw [hhidden] at hread
      rw [eq_of_readHidden_none hread, hmessage]
      simp only [anthropicTextMessage, getD_some]
      by_cases hempty : blocks.filterMap anthropicTextBlock = []
      · simp [hempty, TextsFit]
      · rw [if_neg hempty]
        exact textPart_joinLines_iff _
  · have hread := hread.toolCalls
    cases hhidden : get root "tool_calls" with
    | some value => rfl
    | none =>
      rw [hhidden] at hread
      rw [eq_of_readHidden_none hread, hcalls, ← callsFit_decoded_iff hnonempty hunselected]
      simp only [anthropicToolCalls, getD_some]
      split
      · next hempty => rw [hempty, Option.getD_none]
      · rfl

/-- The Anthropic responses that redaction leaves alone if it selects nothing of them. Without a
member that hides a field of the normalized form these are the responses with one text, or texts of
one line each, in which every tool block is complete. -/
theorem sanitizeResponse_frame_iff [ErrorTexts] (readUsage : Json → Option Usage)
    (readers : PartReaders) (others : ProviderSurface → Json → AnnotatedLlmResponse → Json)
    (hroot : (Json.obj root).WF) {id model stopReason : String}
    (hid : get root "id" = some (.str id)) (hmodel : get root "model" = some (.str model))
    (hstop : get root "stop_reason" = some (.str stopReason))
    (htexts : TextBlocksHaveText (contentBlocks root))
    (hdecode : decodeResponse readUsage (.obj root) = .ok response)
    (hnonempty : backend.targetPathMatcher.isEmpty = false)
    (hpayload : Unselected backend.targetPathMatcher [] (.obj root))
    (hnormal : Unselected backend.targetPathMatcher [] (toValue response))
    (hserde : readers.RoundTrip response) :
    sanitizeResponseWithCodec readers others backend
        (decodeResponse readUsage) .anthropicMessages (.obj root) = some (.obj root) ↔
      ∃ read, ReadsBack readers root response read ∧
        SelectionKept backend.targetPathMatcher response read ∧
        (get root "finish_reason" ≠ none →
          read.finishReason.map anthropicStopReason = some stopReason) ∧
        TextsKept root read ∧ CallsKept backend root read := by
  have hsorted := (Json.wf_obj.mp hroot).1
  have hdecodes := decodesResponse_of_decode readUsage hdecode
  rw [sanitizeResponseWithCodec_eq_iff readers others hdecode hnonempty hnormal]
  refine exists_congr fun read => ?_
  rw [fromValue_toValue_iff hsorted hdecodes hserde]
  refine and_congr_right fun hread => and_congr_right fun _ => ?_
  rw [sanitize_overlay_iff hnonempty hsorted hpayload hid hmodel hstop
    (hread.id.trans (eq_some_of_reads hdecodes.id hid))
    (hread.model.trans (eq_some_of_reads hdecodes.model hmodel))]
  refine and_congr ⟨fun h _ => h, fun h => ?_⟩ ?_
  · by_cases hhidden : get root "finish_reason" = none
    · obtain ⟨reason, hreason, hfinish⟩ := hdecodes.stopReason
      have hfield := hread.finishReason
      rw [hhidden] at hfield
      rw [eq_of_readHidden_none hfield, hfinish, eq_some_of_reads hreason hstop, Option.map_some,
        Option.map_some, anthropicStopReason_map]
    · exact h hhidden
  · by_cases hcontent : ∃ blocks, get root "content" = some (.arr blocks)
    · obtain ⟨blocks, hblocks⟩ := hcontent
      have htexts : TextBlocksHaveText blocks := by
        rwa [contentBlocks, hblocks] at htexts
      rw [← sanitizeItems_overlayBlocks_iff hnonempty hroot hpayload hblocks htexts hdecodes hread]
      simp [hblocks]
    · have hempty : contentBlocks root = [] := by
        rw [contentBlocks]
        split
        · next blocks hblocks => exact absurd ⟨blocks, hblocks⟩ hcontent
        · rfl
      refine iff_of_true (fun blocks hblocks => absurd ⟨blocks, hblocks⟩ hcontent) ⟨?_, ?_⟩
      · rw [TextsKept, hempty]
        split <;> simp [TextsFit]
      · rw [CallsKept, hempty]
        split <;> simp [ToolBlocksComplete, CallsFit, toolBlocks]

/-- A backend that removes a top-level member. -/
def removesSecret : CompiledBuiltinBackend := ⟨.remove, ⟨[.exact ["secret"]]⟩⟩

theorem unselected_of_keys {entries : Object} (h : ∀ entry ∈ entries, entry.1 ≠ "secret") :
    Unselected removesSecret.targetPathMatcher [] (.obj entries) := by
  intro rest part hat
  have hne : rest ≠ ["secret"] := by
    rintro rfl
    cases hat with
    | member hmember _ => exact h _ hmember rfl
  simpa [removesSecret, TargetPathMatcher.matches, TargetPathSelector.matches] using hne.symm

def textBlock (text : String) : Json := .obj [("text", .str text), ("type", .str "text")]

def toolBlock (id : String) : Json :=
  .obj [("id", .str id), ("input", .obj []), ("name", .str "search"), ("type", .str "tool_use")]

/-- A response with the given content. -/
def responseWith (content : List Json) : Object :=
  [("content", .arr content), ("id", .str "msg"), ("model", .str "m"),
    ("stop_reason", .str "end_turn")]

/-- A response with texts, tool calls and a member that hides the finish reason. -/
def hidingResponse : Object :=
  SortedMap.insert (responseWith [textBlock "hi", toolBlock "a", textBlock "there", toolBlock "b"])
    "finish_reason" (.str "complete")

/-- Readers of a form in which only the fields of the provider have to be read. -/
def specificOnly (response : AnnotatedLlmResponse) : PartReaders :=
  ⟨fun _ => none, fun _ => none, fun _ => none, fun _ => response.apiSpecific⟩

def hidingForm : AnnotatedLlmResponse :=
  (decodeResponseObject (fun _ => none) hidingResponse).get rfl

theorem sanitizeResponse_frame_hiding :
    letI := noTexts
    sanitizeResponseWithCodec (specificOnly hidingForm) (fun _ payload _ => payload) removesSecret
      (decodeResponse (fun _ => none)) .anthropicMessages (.obj hidingResponse) =
        some (.obj hidingResponse) := by
  let _ := noTexts
  have hdecode : decodeResponse (fun _ => none) (.obj hidingResponse) = .ok hidingForm := rfl
  refine (sanitizeResponse_frame_iff (fun _ => none) _ (fun _ payload _ => payload) (by decide)
    rfl rfl rfl ?_ hdecode rfl
    (unselected_of_keys (by decide)) (unselected_of_keys (by decide +kernel))
    ⟨fun _ h => (Option.some_ne_none _ h.symm).elim, fun _ h => h⟩).mpr
    ⟨{ hidingForm with extra := [] }, ⟨rfl, rfl, rfl, rfl, rfl, rfl, rfl, rfl, rfl⟩, ?_,
      fun _ => rfl, .inr (by decide), ?_⟩
  · show ∀ block ∈ [textBlock "hi", toolBlock "a", textBlock "there", toolBlock "b"], _
    simp [textBlock, toolBlock, blockType, Json.get, Json.asObject, Json.asStr, SortedMap.get]
  · have hpaths : removesSecret.targetPathMatcher.matchingJsonPointerPaths
        (toValue { hidingForm with extra := [] }) = [] :=
      (unselected_of_keys (by decide +kernel)).collectMatchingPaths_eq_nil
    rw [SelectionKept, hpaths]
    exact List.forall_mem_nil _
  · show ∀ block ∈ [textBlock "hi", toolBlock "a", textBlock "there", toolBlock "b"], _
    decide

/-- Two text blocks, the first with two lines: the second line of the first block becomes the second
block. -/
theorem sanitizeResponse_splits_lines :
    letI := noTexts
    let payload := Json.obj (responseWith [textBlock "a\nb", textBlock "c"])
    ∃ response,
      decodeResponse (fun _ => none) payload = .ok response ∧
      Unselected removesSecret.targetPathMatcher [] payload ∧
      Unselected removesSecret.targetPathMatcher [] (toValue response) ∧
      sanitizeResponseWithCodec (specificOnly response) (fun _ payload _ => payload) removesSecret
          (decodeResponse (fun _ => none)) .anthropicMessages payload =
        some (.obj (responseWith [textBlock "a", textBlock "b"])) ∧
      Json.obj (responseWith [textBlock "a", textBlock "b"]) ≠ payload := by
  let _ := noTexts
  intro payload
  exact ⟨_, rfl, unselected_of_keys (by decide), unselected_of_keys (by decide +kernel),
    by decide +kernel, by decide⟩

end Frame

end NemoRelay.Pii

import NemoRelay.Codec.OpenAiChat.Messages
import NemoRelay.Codec.OpenAiChat.Tools

/-!
# Edited OpenAI Chat requests

Which members a decoded request was read from, and that every edit takes effect: the body that is
encoded for an edited request decodes to it.
-/

namespace NemoRelay.OpenAIChatCodec

open List hiding erase get insert

open SortedMap

open FieldFormat (Reads items strings u64)

/-! ### Parameters -/

/-- One stop sequence, or a list of them. -/
def stopFormat : FieldFormat (List String) where
  expected := "a string or array"
  read
    | .str stop => some [stop]
    | value => FieldFormat.strings.read value
  write := Json.strings
  read_null := rfl
  read_write _ texts _ := Json.mapM_asStr texts
  wf_write _ texts _ _ := Json.wf_strings texts

/-- The limit is read from `max_completion_tokens`, or else from `max_tokens`. -/
def ReadsMaxTokens (obj : Object) (maxTokens : Option Nat) : Prop :=
  ∃ completion plain,
    FieldFormat.u64.Reads (get obj "max_completion_tokens") completion ∧
      FieldFormat.u64.Reads (get obj "max_tokens") plain ∧
      completion.or plain = maxTokens

structure ReadsParams (obj : Object) (params : Option GenerationParams) : Prop where
  fields : ReadsRecord paramFields obj params
  maxTokens : ReadsMaxTokens obj (params.bind (·.maxTokens))
  stop : stopFormat.Reads (get obj "stop") (params.bind (·.stop))
  normal : params = generationParams (params.bind (·.temperature)) (params.bind (·.maxTokens))
    (params.bind (·.topP)) (params.bind (·.stop))

theorem generationParams_bind (temperature : Option F64) (maxTokens : Option Nat)
    (topP : Option F64) (stop : Option (List String)) :
    let params := generationParams temperature maxTokens topP stop
    params.bind (·.temperature) = temperature ∧ params.bind (·.maxTokens) = maxTokens ∧
      params.bind (·.topP) = topP ∧ params.bind (·.stop) = stop := by
  cases temperature <;> cases maxTokens <;> cases topP <;> cases stop <;> simp [generationParams]

variable {obj obj' : Object}

theorem decodeChatFunctions_eq_ok {functions : Option (List Json)} :
    decodeChatFunctions obj = .ok functions ↔ items.Reads (get obj "functions") functions := by
  unfold decodeChatFunctions
  cases get obj "functions" with
  | none => cases functions <;> simp [Reads]
  | some value =>
    cases value <;> cases functions <;> simp [Reads, items, Json.asArray, invalidArgument]

theorem decodeChatTools_some {tools : List ToolDefinition} :
    decodeChatTools obj = .ok (some tools) ↔
      ∃ items, get obj "tools" = some (.arr items) ∧
        items.mapM decodeChatTool = .ok tools := by
  unfold decodeChatTools
  cases get obj "tools" with
  | none => simp
  | some value =>
    simp only [bind_eq_ok, okOr_eq_ok, Json.asArray_eq_some, Option.some.injEq, pure_eq_ok,
      Except.ok.injEq]
    constructor
    · rintro ⟨items, rfl, tools, htools, rfl⟩
      exact ⟨items, rfl, htools⟩
    · rintro ⟨items, rfl, htools⟩
      exact ⟨items, rfl, tools, htools, rfl⟩

theorem decodeChatTools_none : decodeChatTools obj = .ok none ↔ get obj "tools" = none := by
  unfold decodeChatTools
  cases get obj "tools" with
  | none => simp
  | some value => simp [bind_eq_ok]

theorem decodeChatTools_congr (h : get obj' "tools" = get obj "tools") :
    decodeChatTools obj' = decodeChatTools obj := by
  rw [decodeChatTools, decodeChatTools, h]

def paramKeys : List String :=
  ["temperature", "top_p", "max_completion_tokens", "max_tokens", "stop"]

theorem ReadsParams.congr {params : Option GenerationParams} (h : ReadsParams obj params)
    (hget : ∀ key ∈ paramKeys, get obj' key = get obj key) : ReadsParams obj' params where
  fields := by
    refine h.fields.congr fun key hkey => hget key ?_
    simp only [paramFields, Field.optional, map_cons, map_nil, mem_cons,
      not_mem_nil, or_false] at hkey
    obtain rfl | rfl := hkey <;> decide
  maxTokens := by
    rw [ReadsMaxTokens, hget _ (by decide), hget _ (by decide)]
    exact h.maxTokens
  stop := by
    rw [hget _ (by decide)]
    exact h.stop
  normal := h.normal

variable [ErrorTexts]

theorem decodeChatStop_eq_ok {stop : Option (List String)} :
    decodeChatStop obj = .ok stop ↔ stopFormat.Reads (get obj "stop") stop := by
  unfold decodeChatStop
  cases get obj "stop" with
  | none => cases stop <;> simp [Reads]
  | some value =>
    cases value with
    | null => cases stop <;> simp [Reads, stopFormat, strings, Json.asArray]
    | str text => cases stop <;> simp [Reads, stopFormat]
    | arr items =>
      cases stop <;> simp [Reads, stopFormat, bind_eq_ok, okOr_eq_ok]
    | bool | num | obj =>
      cases stop <;> simp [Reads, stopFormat, strings, Json.asArray, invalidArgument]

theorem decodeChatModalities_eq_ok {modalities : Option (List String)} :
    decodeChatModalities obj = .ok modalities ↔
      strings.Reads (get obj "modalities") modalities := by
  unfold decodeChatModalities
  cases get obj "modalities" with
  | none => cases modalities <;> simp [Reads]
  | some value =>
    cases value with
    | null => cases modalities <;> simp [Reads, strings, Json.asArray]
    | bool | num | str | arr | obj =>
      cases modalities <;> simp [Reads, bind_eq_ok, okOr_eq_ok]

/-! ### Requests -/

structure ReadsRequest (obj : Object) (request : AnnotatedLlmRequest) : Prop where
  messages : decodeChatMessages obj = .ok request.messages
  model : ReadsRecord modelFields obj request
  params : ReadsParams obj request.params
  tools : decodeChatTools obj = .ok request.tools
  toolChoice : (get obj "tool_choice").map decodeChatToolChoice = request.toolChoice
  common : ReadsRecord commonFields obj request
  api : ∃ fields, request.apiSpecific = some (.openAIChat fields) ∧ ReadsRecord apiFields obj fields
  instructions : request.instructions = none
  previousResponseId : request.previousResponseId = none
  truncation : request.truncation = none
  reasoning : request.reasoning = none
  includeFilter : request.includeFilter = none
  maxOutputTokens : request.maxOutputTokens = none
  maxToolCalls : request.maxToolCalls = none
  extra : otherKeys obj modeledRequestKeys = request.extra

variable {request : AnnotatedLlmRequest}

theorem readsRequest_of_decode (h : decodeObject obj = .ok request) : ReadsRequest obj request := by
  simp only [decodeObject, optionalString, optionalF64, optionalU64, optionalI64, optionalBool,
    optionalObject, bind_eq_ok, optionalField_eq_ok, decodeChatStop_eq_ok,
    decodeChatFunctions_eq_ok, decodeChatModalities_eq_ok] at h
  obtain ⟨messages, hmessages, model, hmodel, temperature, htemperature, topP, htopP, h⟩ := h
  obtain ⟨stop, hstop, completion, hcompletion, plain, hplain, tools, htools, store, hstore, h⟩ := h
  obtain ⟨user, huser, serviceTier, hserviceTier, parallel, hparallel, h⟩ := h
  obtain ⟨topLogprobs, htopLogprobs, stream, hstream, frequency, hfrequency, h⟩ := h
  obtain ⟨functions, hfunctions, logprobs, hlogprobs, modalities, hmodalities, n, hn, h⟩ := h
  obtain ⟨presence, hpresence, cacheKey, hcacheKey, retention, hretention, effort, heffort, h⟩ := h
  obtain ⟨safety, hsafety, seed, hseed, verbosity, hverbosity, metadata, hmetadata, h⟩ := h
  obtain ⟨audio, haudio, logitBias, hlogitBias, moderation, hmoderation, h⟩ := h
  obtain ⟨prediction, hprediction, cacheOptions, hcacheOptions, h⟩ := h
  obtain ⟨responseFormat, hresponseFormat, streamOptions, hstreamOptions, h⟩ := h
  obtain ⟨webSearch, hwebSearch, h⟩ := h
  cases h
  obtain ⟨htemp, hmax, htop, hstops⟩ :=
    generationParams_bind temperature (completion.or plain) topP stop
  constructor
  case messages => exact hmessages
  case model =>
    simp only [ReadsRecord, modelFields, forall_mem_cons]
    exact ⟨hmodel, forall_mem_nil _⟩
  case params =>
    constructor
    · simp only [ReadsRecord, paramFields, forall_mem_cons, Field.optional, htemp, htop]
      exact ⟨htemperature, htopP, forall_mem_nil _⟩
    · rw [hmax]
      exact ⟨completion, plain, hcompletion, hplain, rfl⟩
    · rw [hstops]
      exact hstop
    · rw [htemp, hmax, htop, hstops]
  case tools => exact htools
  case common =>
    simp only [ReadsRecord, commonFields, forall_mem_cons]
    exact ⟨hmetadata, hstore, hparallel, hstream, huser, hserviceTier, htopLogprobs,
      forall_mem_nil _⟩
  case api =>
    refine ⟨_, rfl, ?_⟩
    simp only [ReadsRecord, apiFields, forall_mem_cons]
    exact ⟨haudio, rfl, hlogitBias, hmoderation, hprediction, hcacheOptions, hresponseFormat,
      hstreamOptions, hwebSearch, hfrequency, hpresence, hcacheKey, hretention, heffort, hsafety,
      hverbosity, hfunctions, hmodalities, hlogprobs, hn, hseed, forall_mem_nil _⟩
  all_goals rfl

theorem decode_of_readsRequest (h : ReadsRequest obj request) : decodeObject obj = .ok request := by
  obtain ⟨messages, instructions, model, params, tools, toolChoice, store, previousResponseId,
    truncation, reasoning, includeFilter, user, metadata, serviceTier, parallelToolCalls,
    maxOutputTokens, maxToolCalls, topLogprobs, stream, apiSpecific, extra⟩ := request
  obtain ⟨hmessages, hmodel, ⟨hfields, ⟨completion, plain, hcompletion, hplain, hmax⟩, hstop,
    hnormal⟩, htools, rfl, hcommon, ⟨fields, rfl, hapi⟩, rfl, rfl, rfl, rfl, rfl, rfl, rfl,
    rfl⟩ := h
  simp only [ReadsRecord, modelFields, paramFields, commonFields, apiFields,
    forall_mem_cons] at hmodel hfields hcommon hapi
  obtain ⟨hmodel, -⟩ := hmodel
  obtain ⟨htemperature, htopP, -⟩ := hfields
  obtain ⟨hmetadata, hstore, hparallel, hstream, huser, hserviceTier, htopLogprobs, -⟩ := hcommon
  obtain ⟨haudio, hfunctionCall, hlogitBias, hmoderation, hprediction, hcacheOptions,
    hresponseFormat, hstreamOptions, hwebSearch, hfrequency, hpresence, hcacheKey, hretention,
    heffort, hsafety, hverbosity, hfunctions, hmodalities, hlogprobs, hn, hseed, -⟩ := hapi
  simp only [decodeObject, optionalString, optionalF64, optionalU64, optionalI64, optionalBool,
    optionalObject, bind_eq_ok, optionalField_eq_ok, decodeChatStop_eq_ok,
    decodeChatFunctions_eq_ok, decodeChatModalities_eq_ok]
  refine ⟨_, hmessages, _, hmodel, _, htemperature, _, htopP, _, hstop, _, hcompletion, _, hplain,
    _, htools, _, hstore, _, huser, _, hserviceTier, _, hparallel, _, htopLogprobs, _, hstream,
    _, hfrequency, _, hfunctions, _, hlogprobs, _, hmodalities, _, hn, _, hpresence, _, hcacheKey,
    _, hretention, _, heffort, _, hsafety, _, hseed, _, hverbosity, _, hmetadata, _, haudio,
    _, hlogitBias, _, hmoderation, _, hprediction, _, hcacheOptions, _, hresponseFormat,
    _, hstreamOptions, _, hwebSearch, ?_⟩
  have hcall : get obj "function_call" = fields.functionCall := hfunctionCall
  have hparams : generationParams (params.bind (·.temperature)) (completion.or plain)
      (params.bind (·.topP)) (params.bind (·.stop)) = params := by
    rw [hmax]
    exact hnormal.symm
  simp only [Field.optional, hparams, hcall]
  rfl

/-! ### Members of a body -/

theorem decodeChatMessages_eq_ok {messages : List Message} :
    decodeChatMessages obj = .ok messages ↔
      ∃ items, get obj "messages" = some (.arr items) ∧
        items.mapM decodeChatMessage = .ok messages := by
  simp only [decodeChatMessages, bind_eq_ok, okOr_eq_ok, Json.asArray_eq_some]
  constructor
  · rintro ⟨value, hvalue, items, rfl, hmessages⟩
    exact ⟨items, hvalue, hmessages⟩
  · rintro ⟨items, hitems, hmessages⟩
    exact ⟨_, hitems, items, rfl, hmessages⟩

/-! ### Patched messages -/

section Patched

variable {before edited : AnnotatedLlmRequest} (hobj : (Json.obj obj).WF)
  (hobj' : (Json.obj obj').WF)
include hobj hobj'

theorem exists_patchMessages (hbefore : ReadsRequest obj before)
    (hedited : ReadsRequest obj' edited)
    (hnative : ∀ message ∈ edited.messages, message.isNative = false) :
    ∃ patched, patchChatMessagesAndValidate obj edited before = .ok patched ∧
      (Json.obj patched).WF ∧ SameExcept ["messages"] patched obj ∧
      decodeChatMessages patched = .ok edited.messages := by
  -- the members that this codec does not support are missing in both requests
  obtain ⟨hbefore, -, -, -, -, -, -, hb₁, hb₂, hb₃, hb₄, hb₅, hb₆, hb₇, -⟩ := hbefore
  obtain ⟨hedited, -, -, -, -, -, -, he₁, he₂, he₃, he₄, he₅, he₆, he₇, -⟩ := hedited
  by_cases hsame : edited.messages = before.messages
  · refine ⟨obj, ?_, hobj, fun _ _ => rfl, hsame ▸ hbefore⟩
    rw [patchChatMessagesAndValidate, if_neg (not_not.mpr hsame)]
    exact if_neg (by simp [*])
  have hbase : ∀ items, (get obj "messages").bind Json.asArray = some items →
      List.Forall₂ (Represents decodeChatMessage) items before.messages := by
    intro items hitems
    obtain ⟨_, hget, hmessages⟩ := decodeChatMessages_eq_ok.mp hbefore
    rw [Json.bind_asArray] at hitems
    cases hget.symm.trans hitems
    exact forall₂_represents.mpr ⟨hobj.member hitems, hmessages⟩
  obtain ⟨items', hitems', hmessages'⟩ := decodeChatMessages_eq_ok.mp hedited
  have hvalues : List.Forall₂ (Represents decodeChatMessage) items' edited.messages :=
    forall₂_represents.mpr ⟨hobj'.member hitems', hmessages'⟩
  obtain ⟨values, hencoded, hrepr⟩ := messageLaw.exists_encodeChangedItems hbase hvalues hnative
  obtain ⟨hvaluesWf, hdecode⟩ := forall₂_represents.mp hrepr
  refine ⟨insert obj "messages" (.arr values), ?_, hobj.insert _ hvaluesWf, ?_, ?_⟩
  · rw [patchChatMessagesAndValidate, if_pos hsame]
    simp only [hencoded]
    exact if_neg (by simp [*])
  · exact sameExcept_setOrRemoveJson obj (by simp) (some _)
  · refine decodeChatMessages_eq_ok.mpr ⟨values, ?_, hdecode⟩
    rw [get_insert, if_pos rfl]

/-! ### Patched parameters -/

section Params

omit [ErrorTexts] hobj'

variable (edited : Option GenerationParams) {before : Option GenerationParams}

/-- The limit is kept, removed from both members, or written to one of them. -/
theorem readsMaxTokens_patch
    (h : ReadsMaxTokens obj (before.bind (·.maxTokens))) :
    (Json.obj (patchChatMaxTokens edited before obj)).WF ∧
      SameExcept ["max_completion_tokens", "max_tokens"] (patchChatMaxTokens edited before obj)
        obj ∧
      ReadsMaxTokens (patchChatMaxTokens edited before obj) (edited.bind (·.maxTokens)) := by
  simp only [patchChatMaxTokens]
  by_cases hsame : edited.bind (·.maxTokens) = before.bind (·.maxTokens)
  · rw [if_pos hsame, hsame]
    exact ⟨hobj, fun _ _ => rfl, h⟩
  rw [if_neg hsame]
  cases edited.bind (·.maxTokens) with
  | none =>
    refine ⟨(hobj.filter _).filter _, fun key hkey => ?_, none, none, Or.inl ?_, Or.inl ?_, rfl⟩
    · simp only [mem_cons, not_mem_nil, or_false, not_or] at hkey
      rw [get_erase, if_neg hkey.2, get_erase, if_neg hkey.1]
    · rw [get_erase, get_erase]
      rfl
    · rw [get_erase]
      rfl
  | some limit =>
    have hwritten : u64.Reads (some (u64.write limit)) (some limit) := ⟨_, rfl, rfl⟩
    refine ⟨hobj.insert _ rfl, sameExcept_setOrRemoveJson obj (by split <;> simp) (some _), ?_⟩
    dsimp only
    split
    · obtain ⟨completion, plain, -, hplain, -⟩ := h
      refine ⟨some limit, plain, ?_, ?_, rfl⟩
      · rwa [get_insert]
      · rwa [get_insert]
    · next hkey =>
      rw [not_or, Option.not_isSome_iff_eq_none] at hkey
      refine ⟨none, some limit, Or.inl ?_, ?_, rfl⟩
      · rw [get_insert, if_neg (by decide), hkey.1]
      · rwa [get_insert]

/-- The sequences are kept, removed, or written in a form that reads back. -/
theorem readsStop_patch
    (h : stopFormat.Reads (get obj "stop") (before.bind (·.stop))) :
    (Json.obj (patchChatStopSequences edited before obj)).WF ∧
      SameExcept ["stop"] (patchChatStopSequences edited before obj) obj ∧
      stopFormat.Reads (get (patchChatStopSequences edited before obj) "stop")
        (edited.bind (·.stop)) := by
  simp only [patchChatStopSequences]
  by_cases hsame : edited.bind (·.stop) = before.bind (·.stop)
  · rw [if_pos hsame, hsame]
    exact ⟨hobj, fun _ _ => rfl, h⟩
  rw [if_neg hsame, get_setOrRemoveJson]
  refine ⟨wf_setOrRemoveJson hobj _ ?_, sameExcept_setOrRemoveJson obj (by simp) _, ?_⟩
  · intro value hvalue
    obtain ⟨values, -, rfl⟩ := Option.map_eq_some_iff.mp hvalue
    split
    · split <;> rfl
    · exact Json.wf_strings _
  · cases edited.bind (·.stop) with
    | none => exact Or.inl rfl
    | some values =>
      refine ⟨_, rfl, ?_⟩
      dsimp only
      split
      · split
        · rfl
        · exact Json.mapM_asStr _
      · exact Json.mapM_asStr _

end Params

/-! ### Patched tools -/

/-- The tools that the edit asks for are written in a form that reads back. -/
theorem exists_encode_tools {before edited : Option (List ToolDefinition)}
    (hbefore : decodeChatTools obj = .ok before) (hedited : decodeChatTools obj' = .ok edited) :
    ∃ tools, (edited.mapM fun tools => encodeChangedItems tools (before.getD [])
        ((get obj "tools").bind Json.asArray) encodeChatTool) = .ok tools ∧
      (∀ items, tools = some items → (Json.arr items).WF) ∧
      decodeChatTools (setOrRemoveJson obj "tools" (tools.map .arr)) = .ok edited := by
  cases edited with
  | none =>
    refine ⟨none, rfl, nofun, decodeChatTools_none.mpr ?_⟩
    rw [get_setOrRemoveJson]
    rfl
  | some edited =>
    obtain ⟨items', hitems', htools'⟩ := decodeChatTools_some.mp hedited
    have hvalues : List.Forall₂ (Represents decodeChatTool) items' edited :=
      forall₂_represents.mpr ⟨hobj'.member hitems', htools'⟩
    have hbase : ∀ items, (get obj "tools").bind Json.asArray = some items →
        List.Forall₂ (Represents decodeChatTool) items (before.getD []) := by
      intro items hitems
      rw [Json.bind_asArray] at hitems
      cases before with
      | none =>
        rw [decodeChatTools_none.mp hbefore] at hitems
        cases hitems
      | some before =>
        obtain ⟨_, hget, htools⟩ := decodeChatTools_some.mp hbefore
        cases hget.symm.trans hitems
        exact forall₂_represents.mpr ⟨hobj.member hitems, htools⟩
    obtain ⟨values, hencoded, hrepr⟩ :=
      toolLaw.exists_encodeChangedItems hbase hvalues fun _ _ => trivial
    obtain ⟨hwf, hdecode⟩ := forall₂_represents.mp hrepr
    refine ⟨some values, ?_, ?_, decodeChatTools_some.mpr ⟨values, ?_, hdecode⟩⟩
    · rw [Option.mapM_some, hencoded]
      rfl
    · rintro _ ⟨⟩
      exact hwf
    · rw [get_setOrRemoveJson]
      rfl

omit [ErrorTexts] hobj' in
/-- So is the tool choice. -/
theorem exists_patch_toolChoice {value : Option Json}
    (hvalue : ∀ v, value = some v → v.WF)
    (hnative : ∀ choice, value.map decodeChatToolChoice = some choice → choice.isNative = false) :
    ∃ written, patchChatToolChoice obj (value.map decodeChatToolChoice)
        ((get obj "tool_choice").map decodeChatToolChoice) = .ok written ∧
      (∀ v, written = some v → v.WF) ∧
      written.map decodeChatToolChoice = value.map decodeChatToolChoice := by
  cases value with
  | none => exact ⟨none, rfl, nofun, rfl⟩
  | some value =>
    cases horiginal : get obj "tool_choice" with
    | none =>
      obtain ⟨encoded, hencoded, hwf, hdecode⟩ := exists_encode_toolChoice (hvalue value rfl)
      refine ⟨some encoded, ?_, ?_, congrArg some hdecode⟩
      · rw [Option.map_some, Option.map_none, patchChatToolChoice, hencoded]
        rfl
      · rintro _ ⟨⟩
        exact hwf
    | some original =>
      obtain ⟨bv, ev, hbv, hev, hwf, hdecode⟩ := decodeChatToolChoice_patch
        (hobj.member horiginal) (hvalue value rfl) (hnative _ rfl)
      refine ⟨some (patchChangedJson original bv ev), ?_, ?_, congrArg some hdecode⟩
      · rw [Option.map_some, Option.map_some, patchChatToolChoice, hbv, hev]
        simp only [ok_bind, horiginal]
        rfl
      · rintro _ ⟨⟩
        exact hwf

theorem exists_patchToolDefinitions {before edited : Option (List ToolDefinition)}
    (hbefore : decodeChatTools obj = .ok before) (hedited : decodeChatTools obj' = .ok edited) :
    ∃ patched, patchChatToolDefinitions obj edited before = .ok patched ∧
      (Json.obj patched).WF ∧ SameExcept ["tools"] patched obj ∧
      decodeChatTools patched = .ok edited := by
  unfold patchChatToolDefinitions
  by_cases hsame : edited = before
  · exact ⟨obj, if_neg (not_not.mpr hsame), hobj, fun _ _ => rfl, hsame ▸ hbefore⟩
  · obtain ⟨tools, hencoded, hwf, hdecode⟩ := exists_encode_tools hobj hobj' hbefore hedited
    refine ⟨_, ?_, wf_setOrRemoveJson hobj _ ?_, sameExcept_setOrRemoveJson obj (by simp) _,
      hdecode⟩
    · rw [if_pos hsame, hencoded]
      rfl
    · intro value hvalue
      obtain ⟨items, hitems, rfl⟩ := Option.map_eq_some_iff.mp hvalue
      exact hwf items hitems

theorem exists_patchTools (htools : decodeChatTools obj = .ok before.tools)
    (htools' : decodeChatTools obj' = .ok edited.tools)
    (hchoice : (get obj "tool_choice").map decodeChatToolChoice = before.toolChoice)
    (hchoice' : (get obj' "tool_choice").map decodeChatToolChoice = edited.toolChoice)
    (hnative : ∀ choice, edited.toolChoice = some choice → choice.isNative = false) :
    ∃ patched, patchChatTools obj edited before = .ok patched ∧ (Json.obj patched).WF ∧
      SameExcept ["tools", "tool_choice"] patched obj ∧ decodeChatTools patched = .ok edited.tools ∧
      (get patched "tool_choice").map decodeChatToolChoice = edited.toolChoice := by
  obtain ⟨obj₁, hobj₁, hwf₁, hsame₁, hdecode₁⟩ :=
    exists_patchToolDefinitions hobj hobj' htools htools'
  have hchoice₁ : get obj₁ "tool_choice" = get obj "tool_choice" :=
    hsame₁ _ (by decide)
  by_cases hsame : edited.toolChoice = before.toolChoice
  · refine ⟨obj₁, ?_, hwf₁, fun key hkey => hsame₁ key ?_, hdecode₁, ?_⟩
    · rw [patchChatTools, hobj₁, ok_bind, if_neg (not_not.mpr hsame)]
      rfl
    · simp_all
    · rw [hchoice₁, hchoice, hsame]
  · have hvalue : ∀ v, get obj' "tool_choice" = some v → v.WF := fun _ => hobj'.member
    obtain ⟨written, hwritten, hwf, hdecode⟩ := exists_patch_toolChoice hwf₁ hvalue
      fun choice h => hnative choice (hchoice'.symm.trans h)
    rw [hchoice', hchoice₁, hchoice] at hwritten
    refine ⟨setOrRemoveJson obj₁ "tool_choice" written, ?_, wf_setOrRemoveJson hwf₁ _ hwf,
      fun key hkey => ?_, ?_, ?_⟩
    · rw [patchChatTools, hobj₁, ok_bind, if_pos hsame, hwritten]
      rfl
    · simp only [mem_cons, not_mem_nil, or_false, not_or] at hkey
      rw [get_setOrRemoveJson, if_neg hkey.2]
      exact hsame₁ key (by simpa using hkey.1)
    · rw [← hdecode₁, decodeChatTools, decodeChatTools, get_setOrRemoveJson, if_neg (by decide)]
    · rw [get_setOrRemoveJson, if_pos rfl, hdecode, hchoice']

/-! ### Patched requests -/

omit [ErrorTexts] in
/-- The edited parameters take effect, and nothing else changes. -/
theorem readsParams_patch {before edited : Option GenerationParams}
    (hbefore : ReadsParams obj before) (hedited : ReadsParams obj' edited) :
    let patched := patchChatStopSequences edited before
      (patchChatMaxTokens edited before (patchChatOptionalParams edited before obj))
    (Json.obj patched).WF ∧ SameExcept paramKeys patched obj ∧ ReadsParams patched edited := by
  intro patched
  have hsame₁ : SameExcept (paramFields.map Field.key)
      (patchChatOptionalParams edited before obj) obj := sameExcept_patchRecord
  have hmax : ReadsMaxTokens (patchChatOptionalParams edited before obj)
      (before.bind (·.maxTokens)) := by
    rw [ReadsMaxTokens, hsame₁ _ (by decide), hsame₁ _ (by decide)]
    exact hbefore.maxTokens
  have hwf₁ : (Json.obj (patchChatOptionalParams edited before obj)).WF :=
    hedited.fields.wf_patch hobj' hobj
  obtain ⟨hwf₂, hsame₂, hmax₂⟩ := readsMaxTokens_patch hwf₁ edited hmax
  have hstop : stopFormat.Reads (get (patchChatMaxTokens edited before
      (patchChatOptionalParams edited before obj)) "stop") (before.bind (·.stop)) := by
    rw [hsame₂ _ (by decide), hsame₁ _ (by decide)]
    exact hbefore.stop
  obtain ⟨hwf₃, hsame₃, hstop₃⟩ := readsStop_patch hwf₂ edited hstop
  refine ⟨hwf₃, ((hsame₃.trans hsame₂).trans hsame₁).mono (by decide),
    ⟨?_, ?_, hstop₃, hedited.normal⟩⟩
  · exact (hbefore.fields.patch (by decide) hedited.fields hobj').congr
      ((hsame₃.trans hsame₂).on (by decide))
  · rwa [ReadsMaxTokens, hsame₃ _ (by decide), hsame₃ _ (by decide)]

omit [ErrorTexts] in
/-- The edited model and parameters take effect, and nothing else changes. -/
theorem reads_patchModelAndParams (hmodel : ReadsRecord modelFields obj before)
    (hmodel' : ReadsRecord modelFields obj' edited) (hparams : ReadsParams obj before.params)
    (hparams' : ReadsParams obj' edited.params) :
    (Json.obj (patchChatModelAndParams obj edited before)).WF ∧
      SameExcept ("model" :: paramKeys) (patchChatModelAndParams obj edited before) obj ∧
      ReadsRecord modelFields (patchChatModelAndParams obj edited before) edited ∧
      ReadsParams (patchChatModelAndParams obj edited before) edited.params := by
  have hreads₁ := hmodel.patch (by decide) hmodel' hobj'
  have hwf₁ : (Json.obj (patchRecord modelFields edited before obj)).WF :=
    hmodel'.wf_patch hobj' hobj
  have hsame₁ : SameExcept (modelFields.map Field.key) (patchRecord modelFields edited before obj)
      obj := sameExcept_patchRecord
  have hparams₁ : ReadsParams (patchRecord modelFields edited before obj) before.params :=
    hparams.congr (hsame₁.on (by decide))
  simp only [patchChatModelAndParams]
  generalize patchRecord modelFields edited before obj = obj₁ at hreads₁ hwf₁ hsame₁ hparams₁
  by_cases hsame : edited.params = before.params
  · rw [if_pos hsame, hsame]
    exact ⟨hwf₁, hsame₁.mono (by decide), hreads₁, hparams₁⟩
  rw [if_neg hsame]
  obtain ⟨hwf₂, hsame₂, hparams₂⟩ := readsParams_patch hwf₁ hobj' hparams₁ hparams'
  refine ⟨hwf₂, (hsame₂.trans hsame₁).mono (by decide), ?_, hparams₂⟩
  exact hreads₁.congr (hsame₂.on (by decide))

/-- The body that is encoded for an edited request holds it. -/
theorem exists_encodeObject (hbefore : ReadsRequest obj before)
    (hedited : ReadsRequest obj' edited)
    (hmessages : ∀ message ∈ edited.messages, message.isNative = false)
    (hchoice : ∀ choice, edited.toolChoice = some choice → choice.isNative = false) :
    ∃ patched, encodeObjectWithBaseline edited obj before = .ok patched ∧
      ReadsRequest patched edited := by
  obtain ⟨obj₁, hpatch₁, hwf₁, hsame₁, hmessages₁⟩ :=
    exists_patchMessages hobj hobj' hbefore hedited hmessages
  obtain ⟨hwf₂, hsame₂, hmodel₂, hparams₂⟩ := reads_patchModelAndParams hwf₁ hobj'
    (hbefore.model.congr (hsame₁.on (by decide))) hedited.model
    (hbefore.params.congr (hsame₁.on (by decide))) hedited.params
  have hsame₂₀ := hsame₂.trans hsame₁
  generalize hobj₂ : patchChatModelAndParams obj₁ edited before = obj₂ at *
  obtain ⟨obj₃, hpatch₃, hwf₃, hsame₃, htools₃, hchoice₃⟩ := exists_patchTools hwf₂ hobj'
    ((decodeChatTools_congr (hsame₂₀ _ (by decide))).trans hbefore.tools) hedited.tools
    ((congrArg _ (hsame₂₀ _ (by decide))).trans hbefore.toolChoice) hedited.toolChoice hchoice
  have hsame₃₀ := hsame₃.trans hsame₂₀
  have hwf₄ : (Json.obj (patchChatCommonFields obj₃ edited before)).WF :=
    hedited.common.wf_patch hobj' hwf₃
  have hcommon₄ : ReadsRecord commonFields (patchChatCommonFields obj₃ edited before) edited :=
    (hbefore.common.congr (hsame₃₀.on (by decide))).patch (by decide) hedited.common hobj'
  have hsame₄ : SameExcept (commonFields.map Field.key) (patchChatCommonFields obj₃ edited before)
      obj₃ := sameExcept_patchRecord
  have hsame₄₀ := hsame₄.trans hsame₃₀
  generalize hobj₄ : patchChatCommonFields obj₃ edited before = obj₄ at *
  obtain ⟨fields, hfields, hapi⟩ := hbefore.api
  obtain ⟨fields', hfields', hapi'⟩ := hedited.api
  have hwf₅ : (Json.obj (patchChatApiFields obj₄ fields' fields)).WF := hapi'.wf_patch hobj' hwf₄
  have hapi₅ : ReadsRecord apiFields (patchChatApiFields obj₄ fields' fields) fields' :=
    (hapi.congr (hsame₄₀.on (by decide))).patch (by decide) hapi' hobj'
  have hsame₅ : SameExcept (apiFields.map Field.key) (patchChatApiFields obj₄ fields' fields)
      obj₄ := sameExcept_patchRecord
  have hpatch₅ : patchChatApiSpecific obj₄ edited.apiSpecific before.apiSpecific =
      .ok (patchChatApiFields obj₄ fields' fields) := by
    rw [hfields, hfields']
    rfl
  generalize patchChatApiFields obj₄ fields' fields = obj₅ at *
  have hget := get_patchExtraFields (Json.wf_obj.mp hobj').1
    ((hsame₅.trans hsame₄₀).mono (by decide) : SameExcept modeledRequestKeys obj₅ obj)
  have hkeep : ∀ key ∈ modeledRequestKeys, get
      (patchExtraFields obj₅ before.extra edited.extra) key = get obj₅ key := by
    intro key hkey
    rw [← hbefore.extra, ← hedited.extra, hget, if_pos hkey]
  have hextra : otherKeys (patchExtraFields obj₅ before.extra edited.extra) modeledRequestKeys =
      edited.extra := by
    rw [← hbefore.extra, ← hedited.extra]
    refine otherKeys_congr (sorted_patchExtraFields (Json.wf_obj.mp hwf₅).1 _ _)
      (Json.wf_obj.mp hobj').1 fun key hkey => ?_
    rw [hget, if_neg hkey]
  refine ⟨patchExtraFields obj₅ before.extra edited.extra, ?_, ?_⟩
  · simp only [encodeObjectWithBaseline, hpatch₁, ok_bind, hobj₂, hpatch₃, hobj₄, hpatch₅,
      pure_eq_ok]
  -- every group is read where it was written: no later patch touches its members
  have hsame₅₃ := hsame₅.trans hsame₄
  have hsame₅₂ := hsame₅₃.trans hsame₃
  have hsame₅₁ := hsame₅₂.trans hsame₂
  have hread : ∀ {keys : List String}, keys ⊆ modeledRequestKeys → ∀ {keys' obj'},
      SameExcept keys' obj₅ obj' → (∀ key ∈ keys, key ∉ keys') → ∀ key ∈ keys, get
        (patchExtraFields obj₅ before.extra edited.extra) key = get obj' key :=
    fun hkeys _ _ hsame hne key hkey => (hkeep key (hkeys hkey)).trans (hsame.on hne key hkey)
  -- the members that this codec does not support are those of the edited request
  exact { hedited with
    messages := by
      rw [← hmessages₁, decodeChatMessages, decodeChatMessages, hkeep _ (by decide),
        hsame₅₁ _ (by decide)]
    model := hmodel₂.congr (hread (by decide) hsame₅₂ (by decide))
    params := hparams₂.congr (hread (by decide) hsame₅₂ (by decide))
    tools := by
      rw [← htools₃]
      exact decodeChatTools_congr ((hkeep _ (by decide)).trans (hsame₅₃ _ (by decide)))
    toolChoice := by rw [hkeep _ (by decide), hsame₅₃ _ (by decide), hchoice₃]
    common := hcommon₄.congr (hread (by decide) hsame₅ (by decide))
    api := ⟨fields', hfields', hapi₅.congr fun key hkey => hkeep key
      ((by decide : apiFields.map Field.key ⊆ modeledRequestKeys) hkey)⟩
    extra := hextra }

end Patched

/-- A request that was not edited keeps its body. -/
theorem encodeObject_self (hobj : (Json.obj obj).WF) (hrequest : ReadsRequest obj request) :
    encodeObjectWithBaseline request obj request = .ok obj := by
  obtain ⟨fields, hfields, -⟩ := hrequest.api
  simp [encodeObjectWithBaseline, patchChatMessagesAndValidate, patchChatModelAndParams,
    patchChatTools, patchChatToolDefinitions, patchChatCommonFields, hfields,
    patchChatApiSpecific, patchChatApiFields, ← hrequest.extra,
    patchExtraFields_self (Json.wf_obj.mp hobj).1]

theorem decode_eq_ok {request : LlmRequest} {annotated : AnnotatedLlmRequest} :
    decode request = .ok annotated ↔
      ∃ obj, request.content = .obj obj ∧ ReadsRequest obj annotated := by
  unfold decode
  cases request.content with
  | obj obj =>
    constructor
    · exact fun h => ⟨obj, rfl, readsRequest_of_decode h⟩
    · rintro ⟨_, ⟨⟩, h⟩
      exact decode_of_readsRequest h
  | null | bool | num | str | arr => simp

/-- Edits take effect exactly. A request that was not edited keeps its body, and the body that is
encoded for a request decoded from any other body decodes to that request. -/
theorem edits_take_effect (original other : LlmRequest) {before edited : AnnotatedLlmRequest}
    (horiginal : original.content.WF) (hother : other.content.WF)
    (hbefore : decode original = .ok before) (hedited : decode other = .ok edited)
    (hmessages : ∀ message ∈ edited.messages, message.isNative = false)
    (hchoice : ∀ choice, edited.toolChoice = some choice → choice.isNative = false) :
    encode before original = .ok original ∧
      ∃ patched, encode edited original = .ok patched ∧ decode patched = .ok edited := by
  obtain ⟨obj, hcontent, hreads⟩ := decode_eq_ok.mp hbefore
  obtain ⟨obj', hcontent', hreads'⟩ := decode_eq_ok.mp hedited
  rw [hcontent] at horiginal
  rw [hcontent'] at hother
  obtain ⟨patched, hpatched, hdecode⟩ :=
    exists_encodeObject horiginal hother hreads hreads' hmessages hchoice
  have hencode : ∀ annotated, encode annotated original = (do
      let obj ← encodeObjectWithBaseline annotated obj before
      return { original with content := .obj obj }) := by
    intro annotated
    rw [encode, hbefore, ok_bind, encodeOwnedWithBaseline, hcontent]
  refine ⟨?_, { original with content := .obj patched }, ?_, decode_eq_ok.mpr ⟨_, rfl, hdecode⟩⟩
  · rw [hencode, encodeObject_self horiginal hreads, ok_bind, pure_eq_ok, ← hcontent]
  · rw [hencode, hpatched, ok_bind, pure_eq_ok]

/-- A request with one user message and the given other members. -/
def userRequest (text : String) (members : Object) : LlmRequest where
  headers := []
  content := .obj <| insert members "messages"
    (.arr [.obj [("content", .str text), ("role", .str "user")]])

@[reducible] def noTexts : ErrorTexts where
  mismatch _ _ := ""
  message _ := ""
  part _ := ""
  tool _ := ""

omit [ErrorTexts] in
theorem edits_take_effect_userRequest :
    ∃ before edited,
      @decode noTexts (userRequest "hi" [("model", .str "m")]) = .ok before ∧
      @decode noTexts (userRequest "bye" [("stop", .str "end")]) = .ok edited ∧
      @encode noTexts before (userRequest "hi" [("model", .str "m")]) =
        .ok (userRequest "hi" [("model", .str "m")]) ∧
      ∃ patched, @encode noTexts edited (userRequest "hi" [("model", .str "m")]) = .ok patched ∧
        @decode noTexts patched = .ok edited := by
  let _ := noTexts
  refine ⟨_, _, rfl, rfl, ?_⟩
  exact edits_take_effect (userRequest "hi" [("model", .str "m")])
    (userRequest "bye" [("stop", .str "end")]) rfl rfl rfl rfl (by decide) nofun

end NemoRelay.OpenAIChatCodec

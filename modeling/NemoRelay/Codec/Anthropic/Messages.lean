import NemoRelay.Codec.Anthropic.Defs

/-!
# Decoded Anthropic messages

What the message decoder accepts, and what a decoded request has to do with the members of its
body.
-/

namespace NemoRelay.AnthropicMessagesCodec

open SortedMap

/-- A message with a portable form. -/
structure ReadsContent (obj : Object) (role : String) (content : MessageContent) : Prop where
  role : get obj "role" = some (.str role)
  keys : onlyKeys obj ["role", "content"] = true
  content : ∃ value, get obj "content" = some value ∧ decodeAnthropicContent value = .ok content

/-- What the members of an object read as. -/
inductive ReadsMessage (obj : Object) : Message → Prop
  | user {content} (h : ReadsContent obj "user" content) : ReadsMessage obj (.user content none)
  | assistant {content} (h : ReadsContent obj "assistant" content) :
      ReadsMessage obj (.assistant (some content) none none)
  | system {content} (h : ReadsContent obj "system" content) :
      ReadsMessage obj (.system content none)
  | native {role} : ReadsMessage obj (.providerNative "anthropic_messages" role (.obj obj))

variable {value : Json}

theorem readsMessage_of_decode {message : Message}
    (h : decodeAnthropicMessage value = .ok message) :
    ∃ obj, value = .obj obj ∧ ReadsMessage obj message := by
  simp only [decodeAnthropicMessage, bind_eq_ok, okOr_eq_ok, Json.asObject_eq_some,
    Json.bind_asStr] at h
  obtain ⟨obj, rfl, role, hrole, value, hvalue, h⟩ := h
  refine ⟨obj, rfl, ?_⟩
  split at h
  · cases h
    exact .native
  · rename_i hkeys
    rw [bind_eq_ok] at h
    obtain ⟨content, hcontent, h⟩ := h
    have hreads : ReadsContent obj role content :=
      ⟨hrole, by simpa using hkeys, value, hvalue, hcontent⟩
    split at h
    · cases h
      exact .user hreads
    · cases h
      exact .assistant hreads
    · cases h
      exact .system hreads
    · cases h
      exact .native

/-- The members that the model, the messages, the instructions and the tools of a request come
from. -/
structure Decodes (obj : Object) (request : AnnotatedLlmRequest) : Prop where
  messages : ∃ items, get obj "messages" = some (.arr items) ∧
    List.Forall₂ (fun item message => decodeAnthropicMessage item = .ok message) items
      request.messages
  instructions : (get obj "system").mapM decodeAnthropicContent = .ok request.instructions
  tools : decodeAnthropicTools obj = .ok request.tools
  model : FieldFormat.string.Reads (get obj "model") request.model

variable {request : AnnotatedLlmRequest}

theorem decodes_of_decodeObject [ErrorTexts] {obj : Object} (h : decodeObject obj = .ok request) :
    Decodes obj request := by
  simp only [decodeObject, bind_eq_ok] at h
  obtain ⟨messages, hmessages, instructions, hinstructions, _, hmodel, _, -, _, -, _, -, _, -,
    tools, htools, _, -, _, -, _, -, _, -, _, -, _, -, _, -, _, -, _, -, _, -, _, -, h⟩ := h
  cases h
  simp only [decodeAnthropicMessages, bind_eq_ok, okOr_eq_ok, Json.asArray_eq_some] at hmessages
  obtain ⟨_, hget, items, rfl, hitems⟩ := hmessages
  exact ⟨⟨items, hget, mapM_eq_ok.mp hitems⟩, hinstructions, htools, optionalField_eq_ok.mp hmodel⟩

/-- The tools of a request, element by element. -/
theorem Decodes.tools_forall₂ {obj : Object} (h : Decodes obj request)
    {tools : List ToolDefinition} (htools : request.tools = some tools) :
    ∃ items, get obj "tools" = some (.arr items) ∧
      List.Forall₂ (fun item tool => decodeAnthropicTool item = .ok tool) items tools := by
  have hdecode := h.tools
  rw [htools] at hdecode
  unfold decodeAnthropicTools at hdecode
  cases hget : get obj "tools" with
  | none => rw [hget] at hdecode; cases hdecode
  | some value =>
    simp only [hget, bind_eq_ok, okOr_eq_ok, Json.asArray_eq_some] at hdecode
    obtain ⟨items, rfl, decoded, hitems, h⟩ := hdecode
    cases h
    exact ⟨items, rfl, mapM_eq_ok.mp hitems⟩

theorem object_of_decodeAnthropicTool {tool : ToolDefinition}
    (h : decodeAnthropicTool value = .ok tool) : ∃ obj, value = .obj obj := by
  rw [decodeAnthropicTool, bind_eq_ok] at h
  obtain ⟨obj, hobj, -⟩ := h
  rw [okOr_eq_ok, Json.asObject_eq_some] at hobj
  exact ⟨obj, hobj⟩

theorem object_of_decodeAnthropicContentPart {part : ContentPart}
    (h : decodeAnthropicContentPart value = .ok part) : ∃ obj, value = .obj obj := by
  rw [decodeAnthropicContentPart, bind_eq_ok] at h
  obtain ⟨obj, hobj, -⟩ := h
  rw [okOr_eq_ok, Json.asObject_eq_some] at hobj
  exact ⟨obj, hobj⟩

end NemoRelay.AnthropicMessagesCodec

import NemoRelay.Codec.OpenAiChat.Content

/-!
# Edited OpenAI Chat messages

What the message decoder accepts, and that an edited message, written as a patch of any original
message, reads as the edit.
-/

namespace NemoRelay.OpenAIChatCodec

open SortedMap Json

variable [ErrorTexts]

/-! ### Messages -/

/-- The content of an assistant message. -/
def ReadsContent (member : Option Json) : Option MessageContent → Prop
  | some content => ∃ value, member = some value ∧ decodeChatContent value = .ok content
  | none => member = none ∨ member = some .null

/-- A message with content and a name. -/
structure ReadsWithContent (obj : Object) (role : String) (content : MessageContent)
    (name : Option String) : Prop where
  role : get obj "role" = some (.str role)
  keys : onlyKeys obj ["role", "content", "name"] = true
  content : ∃ value, get obj "content" = some value ∧ decodeChatContent value = .ok content
  name : FieldFormat.string.Reads (get obj "name") name

structure ReadsAssistant (obj : Object) (content : Option MessageContent)
    (calls : Option (List ToolCall)) (name : Option String) : Prop where
  role : get obj "role" = some (.str "assistant")
  keys : onlyKeys obj ["role", "content", "tool_calls", "name"] = true
  content : ReadsContent (get obj "content") content
  calls : toolCallsFormat.Reads (get obj "tool_calls") calls
  name : FieldFormat.string.Reads (get obj "name") name

structure ReadsTool (obj : Object) (content : MessageContent) (toolCallId : String) : Prop where
  role : get obj "role" = some (.str "tool")
  keys : onlyKeys obj ["role", "content", "tool_call_id"] = true
  content : ∃ value, get obj "content" = some value ∧ decodeChatContent value = .ok content
  id : get obj "tool_call_id" = some (.str toolCallId)

structure ReadsFunction (obj : Object) (content : Option String) (name : String) : Prop where
  role : get obj "role" = some (.str "function")
  keys : onlyKeys obj ["role", "content", "name"] = true
  content : FieldFormat.string.Reads (get obj "content") content
  name : get obj "name" = some (.str name)

/-- What the members of an object read as. -/
inductive ReadsMessage (obj : Object) : Message → Prop
  | system {content name} (h : ReadsWithContent obj "system" content name) :
      ReadsMessage obj (.system content name)
  | developer {content name} (h : ReadsWithContent obj "developer" content name) :
      ReadsMessage obj (.developer content name)
  | user {content name} (h : ReadsWithContent obj "user" content name) :
      ReadsMessage obj (.user content name)
  | assistant {content calls name} (h : ReadsAssistant obj content calls name) :
      ReadsMessage obj (.assistant content calls name)
  | tool {content id} (h : ReadsTool obj content id) : ReadsMessage obj (.tool content id)
  | function {content name} (h : ReadsFunction obj content name) :
      ReadsMessage obj (.function content name)
  | native {kind} : ReadsMessage obj (.providerNative "openai_chat" kind (.obj obj))

variable {obj : Object} {content : Option MessageContent}

theorem decodeChatOptionalContent_eq_ok :
    decodeChatOptionalContent obj = .ok content ↔ ReadsContent (get obj "content") content := by
  unfold decodeChatOptionalContent
  cases hmember : get obj "content" with
  | none => cases content <;> simp [ReadsContent]
  | some value =>
    cases value with
    | null => cases content <;> simp [ReadsContent, decodeChatContent, invalidArgument]
    | bool | num | str | arr | obj =>
      cases content <;> simp [ReadsContent, bind_eq_ok]

variable {message : Message} {value : Json}

theorem readsMessage_of_decode (h : decodeChatMessage value = .ok message) :
    ∃ obj, value = .obj obj ∧ ReadsMessage obj message := by
  simp only [decodeChatMessage, bind_eq_ok, okOr_eq_ok, asObject_eq_some, bind_asStr] at h
  obtain ⟨obj, rfl, role, hget, h⟩ := h
  refine ⟨obj, rfl, ?_⟩
  split at h
  · rename_i hrole
    split at h
    · cases h
      exact .native
    · rename_i hkeys
      simp only [bind_eq_ok, okOr_eq_ok, optionalChatString, optionalField_eq_ok] at h
      obtain ⟨value, hvalue, content, hcontent, name, hname, ⟨⟩⟩ := h
      have hkeys : onlyKeys obj ["role", "content", "name"] = true := by simpa using hkeys
      obtain rfl | rfl | rfl := hrole
      · exact .system ⟨hget, hkeys, ⟨value, hvalue, hcontent⟩, hname⟩
      · exact .developer ⟨hget, hkeys, ⟨value, hvalue, hcontent⟩, hname⟩
      · exact .user ⟨hget, hkeys, ⟨value, hvalue, hcontent⟩, hname⟩
  split at h
  · rename_i hrole
    subst hrole
    split at h
    · cases h
      exact .native
    · rename_i hkeys
      rw [bind_eq_ok] at h
      obtain ⟨content, hcontent, h⟩ := h
      rw [bind_eq_ok] at h
      obtain ⟨calls, hcalls, h⟩ := h
      cases calls with
      | none =>
        cases h
        exact .native
      | some calls =>
        rw [bind_eq_ok] at h
        obtain ⟨name, hname, ⟨⟩⟩ := h
        exact .assistant ⟨hget, by simpa using hkeys,
          decodeChatOptionalContent_eq_ok.mp hcontent, decodeChatToolCalls_eq_ok.mp hcalls,
          optionalField_eq_ok.mp hname⟩
  split at h
  · rename_i hrole
    obtain ⟨rfl, hkeys⟩ := hrole
    simp only [bind_eq_ok, okOr_eq_ok, bind_asStr] at h
    obtain ⟨value, hvalue, content, hcontent, id, hid, ⟨⟩⟩ := h
    exact .tool ⟨hget, hkeys, ⟨value, hvalue, hcontent⟩, hid⟩
  split at h
  · rename_i hrole
    obtain ⟨rfl, hkeys⟩ := hrole
    simp only [bind_eq_ok, okOr_eq_ok, bind_asStr, optionalChatString, optionalField_eq_ok] at h
    obtain ⟨content, hcontent, name, hname, ⟨⟩⟩ := h
    exact .function ⟨hget, hkeys, hcontent, hname⟩
  · cases h
    exact .native

theorem decode_of_readsMessage (h : ReadsMessage obj message) (hnative : message.isNative = false) :
    decodeChatMessage (.obj obj) = .ok message := by
  cases h with
  | system h | developer h | user h =>
    obtain ⟨value, hvalue, hcontent⟩ := h.content
    simp [decodeChatMessage, contentMessage, asObject, asStr, h.role, h.keys, hvalue,
      hcontent, optionalChatString, optionalField_eq_ok.mpr h.name]
  | assistant h =>
    simp [decodeChatMessage, asObject, asStr, h.role, h.keys, optionalChatString,
      decodeChatOptionalContent_eq_ok.mpr h.content, decodeChatToolCalls_eq_ok.mpr h.calls,
      optionalField_eq_ok.mpr h.name]
  | tool h =>
    obtain ⟨value, hvalue, hcontent⟩ := h.content
    simp [decodeChatMessage, asObject, asStr, h.role, h.keys, hvalue, hcontent, h.id]
  | function h =>
    simp [decodeChatMessage, asObject, asStr, h.role, h.keys, h.name,
      optionalChatString, optionalField_eq_ok.mpr h.content]
  | native => cases hnative

/-! ### The members of an encoded message -/

def contentFields (role : String) (content : Json) (name : Option String) :
    List (String × Option Json) :=
  [("role", some (.str role)), ("content", some content), ("name", name.map .str)]

def assistantFields (content : Option Json) (calls : Option (List ToolCall))
    (name : Option String) : List (String × Option Json) :=
  [("role", some (.str "assistant")), ("content", content),
    ("tool_calls", calls.map toolCallsFormat.write), ("name", name.map .str)]

def toolFields (content : Json) (toolCallId : String) : List (String × Option Json) :=
  [("role", some (.str "tool")), ("content", some content),
    ("tool_call_id", some (.str toolCallId))]

def functionFields (content : Option String) (name : String) : List (String × Option Json) :=
  [("role", some (.str "function")), ("content", some ((content.map .str).getD .null)),
    ("name", some (.str name))]

section Fields

omit [ErrorTexts]

theorem name_contentFields (role : String) (content : Json) (name : Option String) :
    fieldOf (contentFields role content name) "name" = name.map .str := by
  simp [fieldOf, contentFields]

variable (content : Option Json) (calls : Option (List ToolCall)) (name : Option String)

theorem content_assistantFields :
    fieldOf (assistantFields content calls name) "content" = content := by
  simp [fieldOf, assistantFields]

theorem calls_assistantFields :
    fieldOf (assistantFields content calls name) "tool_calls" =
      calls.map toolCallsFormat.write := by
  simp [fieldOf, assistantFields]

theorem name_assistantFields :
    fieldOf (assistantFields content calls name) "name" = name.map .str := by
  simp [fieldOf, assistantFields]

end Fields

open FieldFormat

theorem readsWithContent_fields {role : String} {content : MessageContent}
    (h : Represents decodeChatContent value content) (name : Option String) :
    ReadsWithContent (insertFields [] (contentFields role value name)) role content name where
  role := get_insertFields_nil _ _
  keys := onlyKeys_insertFields _
  content := ⟨value, get_insertFields_nil _ _, h.2⟩
  name := by
    rw [get_insertFields_nil, name_contentFields]
    exact (valid_string name).reads_write

variable {member : Option Json}

theorem exists_encode_optionalContent
    (h : ReadsContent member content) (hmember : ∀ value, member = some value → value.WF) :
    ∃ encoded, content.mapM encodeChatContent = .ok encoded ∧ ReadsContent encoded content ∧
      ∀ value, encoded = some value → value.WF := by
  cases content with
  | none => exact ⟨none, rfl, Or.inl rfl, nofun⟩
  | some content =>
    obtain ⟨value, hvalue, hcontent⟩ := h
    obtain ⟨encoded, hencoded, hrepr⟩ := contentLaw.encodes ⟨hmember value hvalue, hcontent⟩
    refine ⟨some encoded, ?_, ⟨encoded, rfl, hrepr.2⟩, ?_⟩
    · rw [Option.mapM_some, hencoded]
      rfl
    · rintro _ ⟨⟩
      exact hrepr.1

theorem readsAssistant_fields {value : Option Json}
    {calls : Option (List ToolCall)} (hcontent : ReadsContent value content)
    (hcalls : toolCallsFormat.Valid calls) (name : Option String) :
    ReadsAssistant (insertFields [] (assistantFields value calls name)) content calls name where
  role := get_insertFields_nil _ _
  keys := onlyKeys_insertFields _
  content := by
    rw [get_insertFields_nil, content_assistantFields]
    exact hcontent
  calls := by
    rw [get_insertFields_nil, calls_assistantFields]
    exact hcalls.reads_write
  name := by
    rw [get_insertFields_nil, name_assistantFields]
    exact (valid_string name).reads_write

theorem readsTool_fields {content : MessageContent}
    (h : Represents decodeChatContent value content) (id : String) :
    ReadsTool (insertFields [] (toolFields value id)) content id where
  role := get_insertFields_nil _ _
  keys := onlyKeys_insertFields _
  content := ⟨value, get_insertFields_nil _ _, h.2⟩
  id := get_insertFields_nil _ _

omit [ErrorTexts] in
theorem readsFunction_fields (content : Option String) (name : String) :
    ReadsFunction (insertFields [] (functionFields content name)) content name where
  role := get_insertFields_nil _ _
  keys := onlyKeys_insertFields _
  content := by
    rw [get_insertFields_nil]
    cases content with
    | none => exact Or.inr rfl
    | some content => exact ⟨.str content, rfl, rfl⟩
  name := get_insertFields_nil _ _

/-- The members that a message is written with. -/
inductive EncodesMessage : Message → List (String × Option Json) → Prop
  | system {content name value} (h : encodeChatContent content = .ok value) :
      EncodesMessage (.system content name) (contentFields "system" value name)
  | developer {content name value} (h : encodeChatContent content = .ok value) :
      EncodesMessage (.developer content name) (contentFields "developer" value name)
  | user {content name value} (h : encodeChatContent content = .ok value) :
      EncodesMessage (.user content name) (contentFields "user" value name)
  | assistant {content calls name value} (h : content.mapM encodeChatContent = .ok value) :
      EncodesMessage (.assistant content calls name) (assistantFields value calls name)
  | tool {content id value} (h : encodeChatContent content = .ok value) :
      EncodesMessage (.tool content id) (toolFields value id)
  | function {content name} : EncodesMessage (.function content name) (functionFields content name)

/-- The role that a message is written with. -/
def chatRole : Message → String
  | .system .. => "system"
  | .developer .. => "developer"
  | .user .. => "user"
  | .assistant .. => "assistant"
  | .tool .. => "tool"
  | .function .. => "function"
  | _ => ""

variable {fields : List (String × Option Json)}

theorem EncodesMessage.role (h : EncodesMessage message fields) :
    fieldOf fields "role" = some (.str (chatRole message)) := by
  cases h <;> rfl

theorem EncodesMessage.encode_eq (h : EncodesMessage message fields) :
    encodeChatMessage message = .ok (.obj (insertFields [] fields)) := by
  cases h with
  | system h | developer h | user h =>
    rw [encodeChatMessage, messageWithContent, h]
    rfl
  | assistant h | tool h =>
    rw [encodeChatMessage, h]
    rfl
  | function => rfl

/-- A message is written with members that read as the message. -/
theorem exists_encodesMessage (h : Represents decodeChatMessage value message)
    (hnative : message.isNative = false) :
    ∃ fields, EncodesMessage message fields ∧ (Json.obj (insertFields [] fields)).WF ∧
      ReadsMessage (insertFields [] fields) message := by
  obtain ⟨hwf, hdecode⟩ := h
  obtain ⟨obj, rfl, hreads⟩ := readsMessage_of_decode hdecode
  cases hreads with
  | system h | developer h | user h =>
    obtain ⟨value, hvalue, hcontent⟩ := h.content
    obtain ⟨encoded, hencoded, hrepr⟩ := contentLaw.encodes ⟨hwf.member hvalue, hcontent⟩
    refine ⟨_, by constructor; exact hencoded, wf_insertFields rfl ?_,
      by constructor; exact readsWithContent_fields hrepr _⟩
    simp [contentFields, hrepr.1]
  | assistant h =>
    obtain ⟨encoded, hencoded, hreads, hencodedWf⟩ :=
      exists_encode_optionalContent h.content fun _ => hwf.member
    have hcalls := h.calls.valid fun _ => hwf.member
    refine ⟨_, .assistant hencoded, wf_insertFields rfl ?_,
      .assistant (readsAssistant_fields hreads hcalls _)⟩
    simp only [assistantFields, List.forall_mem_cons]
    exact ⟨by simp, hencodedWf, fun _ => hcalls.wf_write, by simp, by simp⟩
  | tool h =>
    obtain ⟨value, hvalue, hcontent⟩ := h.content
    obtain ⟨encoded, hencoded, hrepr⟩ := contentLaw.encodes ⟨hwf.member hvalue, hcontent⟩
    refine ⟨_, .tool hencoded, wf_insertFields rfl ?_, .tool (readsTool_fields hrepr _)⟩
    simp [toolFields, hrepr.1]
  | function h =>
    rename_i content name
    refine ⟨_, .function, wf_insertFields rfl ?_, .function (readsFunction_fields _ _)⟩
    cases content <;> simp [functionFields]
  | native => cases hnative

/-! ### Patched messages -/

section Patched

variable {original patched : Object}

/-- Written members were patched into an object. -/
abbrev Patches (original patched : Object) (before edited : List (String × Option Json)) : Prop :=
  ∀ key, get patched key =
    patchedMember (get original key) (fieldOf before key) (fieldOf edited key)

variable {name name' : Option String}

section Content

variable {before edited : MessageContent} {bv ev : Json} (hbv : encodeChatContent before = .ok bv)
  (hedited : ∃ value, Represents decodeChatContent value edited)
  (hev : encodeChatContent edited = .ok ev)
include hbv hedited hev

theorem patch_content
    (hbefore : ∃ value, member = some value ∧ decodeChatContent value = .ok before)
    (hmember : ∀ value, member = some value → value.WF) :
    ∃ value, patchedMember member (some bv) (some ev) = some value ∧
      decodeChatContent value = .ok edited := by
  obtain ⟨value, rfl, hdecode⟩ := hbefore
  obtain ⟨value', hrepr⟩ := hedited
  obtain ⟨bv', ev', hbv', hev', hpatched⟩ :=
    contentLaw.patches ⟨hmember value rfl, hdecode⟩ hrepr trivial
  cases hbv.symm.trans hbv'
  cases hev.symm.trans hev'
  exact ⟨_, rfl, hpatched.2⟩

theorem ReadsWithContent.patch {role : String}
    (h : ReadsWithContent original role before name) (horiginal : (Json.obj original).WF)
    (hpatched : Patches original patched (contentFields role bv name)
      (contentFields role ev name')) :
    ReadsWithContent patched role edited name' where
  role := by
    rw [hpatched, h.role]
    exact patchedMember_same (some (.str role))
  keys := onlyKeys_patched h.keys rfl hpatched
  content := by
    rw [hpatched]
    exact patch_content hbv hedited hev h.content fun _ => horiginal.member
  name := by
    rw [hpatched, name_contentFields, name_contentFields]
    exact h.name.patchedMember string_exact (fun _ => horiginal.member) (valid_string name')

theorem ReadsTool.patch {id id' : String} (h : ReadsTool original before id)
    (horiginal : (Json.obj original).WF)
    (hpatched : Patches original patched (toolFields bv id) (toolFields ev id')) :
    ReadsTool patched edited id' where
  role := by
    rw [hpatched, h.role]
    exact patchedMember_same (some (.str "tool"))
  keys := onlyKeys_patched h.keys rfl hpatched
  content := by
    rw [hpatched]
    exact patch_content hbv hedited hev h.content fun _ => horiginal.member
  id := by
    rw [hpatched, h.id]
    exact patchedMember_str id id'

end Content

variable {before edited : Option MessageContent}

theorem patch_optionalContent {bv ev : Option Json} (hbefore : ReadsContent member before)
    (hmember : ∀ value, member = some value → value.WF)
    (hbv : before.mapM encodeChatContent = .ok bv)
    (hedited : ∃ member, ReadsContent member edited ∧ ∀ value, member = some value → value.WF)
    (hev : edited.mapM encodeChatContent = .ok ev) :
    ReadsContent (patchedMember member bv ev) edited := by
  cases before with
  | none =>
    cases hbv
    cases edited with
    | none =>
      cases hev
      obtain rfl | rfl := hbefore
      · exact Or.inl rfl
      · exact Or.inr rfl
    | some edited =>
      obtain ⟨member', ⟨value, rfl, hvalue⟩, hwf⟩ := hedited
      obtain ⟨encoded, hencoded, hrepr⟩ := contentLaw.encodes ⟨hwf value rfl, hvalue⟩
      rw [Option.mapM_some, hencoded] at hev
      cases hev
      refine ⟨encoded, ?_, hrepr.2⟩
      cases member <;> rfl
  | some before =>
    rw [Option.mapM_some, map_eq_ok] at hbv
    obtain ⟨bv, hbv, ⟨⟩⟩ := hbv
    cases edited with
    | none =>
      cases hev
      left
      cases member <;> rfl
    | some edited =>
      rw [Option.mapM_some, map_eq_ok] at hev
      obtain ⟨ev, hev, ⟨⟩⟩ := hev
      obtain ⟨member', ⟨value, rfl, hvalue⟩, hwf⟩ := hedited
      exact patch_content hbv ⟨value, hwf value rfl, hvalue⟩ hev hbefore hmember

theorem ReadsAssistant.patch {calls calls' : Option (List ToolCall)} {bv ev : Option Json}
    (h : ReadsAssistant original before calls name) (horiginal : (Json.obj original).WF)
    (hbv : before.mapM encodeChatContent = .ok bv)
    (hedited : ∃ member, ReadsContent member edited ∧ ∀ value, member = some value → value.WF)
    (hev : edited.mapM encodeChatContent = .ok ev) (hcalls : toolCallsFormat.Valid calls')
    (hpatched : Patches original patched (assistantFields bv calls name)
      (assistantFields ev calls' name')) : ReadsAssistant patched edited calls' name' where
  role := by
    rw [hpatched, h.role]
    exact patchedMember_same (some (.str "assistant"))
  keys := onlyKeys_patched h.keys rfl hpatched
  content := by
    rw [hpatched, content_assistantFields, content_assistantFields]
    exact patch_optionalContent h.content (fun _ => horiginal.member) hbv hedited hev
  calls := by
    rw [hpatched, calls_assistantFields, calls_assistantFields]
    exact h.calls.patchedMember toolCallsFormat_exact (fun _ => horiginal.member) hcalls
  name := by
    rw [hpatched, name_assistantFields, name_assistantFields]
    exact h.name.patchedMember string_exact (fun _ => horiginal.member) (valid_string name')

omit [ErrorTexts] in
theorem ReadsFunction.patch {before edited : Option String} {name name' : String}
    (h : ReadsFunction original before name) (horiginal : (Json.obj original).WF)
    (hpatched : Patches original patched (functionFields before name)
      (functionFields edited name')) :
    ReadsFunction patched edited name' where
  role := by
    rw [hpatched, h.role]
    exact patchedMember_same (some (.str "function"))
  keys := onlyKeys_patched h.keys rfl hpatched
  content := by
    have hsame : SameUpToNull True (get original "content")
        (some ((before.map .str).getD .null)) := by
      cases before with
      | none =>
        obtain hnone | hnull := h.content
        · exact Or.inr ⟨trivial, by rw [hnone]; rfl, rfl⟩
        · exact Or.inl hnull
      | some content =>
        obtain ⟨value, hvalue, hread⟩ := h.content
        rw [hvalue]
        exact Or.inl (congrArg some (asStr_eq_some.mp hread))
    rw [hpatched]
    refine (hsame.patchedMember (fun _ => horiginal.member) ?_).reads ?_
    · cases edited <;> rintro _ ⟨⟩ <;> rfl
    · cases edited with
      | none => exact Or.inr rfl
      | some content => exact ⟨.str content, rfl, rfl⟩
  name := by
    rw [hpatched, h.name]
    exact patchedMember_str name name'

end Patched

theorem ReadsMessage.encode_native (h : ReadsMessage obj message)
    (hnative : message.isNative = true) : encodeChatMessage message = .ok (.obj obj) := by
  cases h with
  | native => rfl
  | system | developer | user | assistant | tool | function => cases hnative

theorem ReadsMessage.patch {original patched : Object} {before edited : Message}
    {fields' : List (String × Option Json)} (h : ReadsMessage original before)
    (horiginal : (Json.obj original).WF) (hfields : EncodesMessage before fields)
    (hfields' : EncodesMessage edited fields') (hwf : (Json.obj (insertFields [] fields')).WF)
    (hreads : ReadsMessage (insertFields [] fields') edited)
    (hrole : chatRole before = chatRole edited)
    (hpatched : Patches original patched fields fields') : ReadsMessage patched edited := by
  -- an edited message with the role of the original one is of the same kind
  cases hfields' with
  | system hev | developer hev | user hev | tool hev =>
    cases hfields <;> simp only [chatRole, String.reduceEq] at hrole
    rename_i hbv
    cases h
    rename_i h
    cases hreads
    rename_i h'
    obtain ⟨value, hvalue, hcontent⟩ := h'.content
    constructor
    exact h.patch hbv ⟨value, hwf.member hvalue, hcontent⟩ hev horiginal hpatched
  | assistant hev =>
    cases hfields <;> simp only [chatRole, String.reduceEq] at hrole
    rename_i hbv
    cases h
    rename_i h
    cases hreads
    rename_i h'
    exact .assistant (h.patch horiginal hbv ⟨_, h'.content, fun _ => hwf.member⟩ hev
      (h'.calls.valid fun _ => hwf.member) hpatched)
  | function =>
    cases hfields <;> simp only [chatRole, String.reduceEq] at hrole
    cases h
    rename_i h
    exact .function (h.patch horiginal hpatched)

theorem exists_encode_message (h : Represents decodeChatMessage value message) :
    ∃ encoded, encodeChatMessage message = .ok encoded ∧
      Represents decodeChatMessage encoded message := by
  cases hnative : message.isNative with
  | false =>
    obtain ⟨fields, hfields, hwf, hreads⟩ := exists_encodesMessage h hnative
    exact ⟨_, hfields.encode_eq, hwf, decode_of_readsMessage hreads hnative⟩
  | true =>
    obtain ⟨obj, rfl, hreads⟩ := readsMessage_of_decode h.2
    exact ⟨.obj obj, hreads.encode_native hnative, h⟩

/-- Messages can be patched by messages with a portable form. -/
theorem messageLaw :
    PatchLaw decodeChatMessage encodeChatMessage fun message => message.isNative = false := by
  refine .of_merge exists_encode_message ?_
  intro original before bv edited ev horiginal hbv hne hev hfresh hnative
  obtain ⟨fields', hfields', hwf', hreads'⟩ := exists_encodesMessage hfresh hnative
  cases hev.symm.trans hfields'.encode_eq
  obtain ⟨obj, rfl, hreads⟩ := readsMessage_of_decode horiginal.2
  cases hbefore : before.isNative with
  | true =>
    cases hbv.symm.trans (hreads.encode_native hbefore)
    exact absurd rfl hne
  | false =>
    obtain ⟨fields, hfields, -, -⟩ := exists_encodesMessage horiginal hbefore
    cases hbv.symm.trans hfields.encode_eq
    refine ⟨nofun, ?_⟩
    rintro _ _ _ patched ⟨⟩ ⟨⟩ ⟨⟩ ⟨-, hrole, hpatchedWf, hpatched⟩
    simp only [get_insertFields_nil] at hrole hpatched
    rw [hfields.role, hfields'.role] at hrole
    exact ⟨hpatchedWf, decode_of_readsMessage (hreads.patch horiginal.1 hfields hfields' hwf'
      hreads' (by simpa using hrole) hpatched) hnative⟩

end NemoRelay.OpenAIChatCodec

import NemoRelay.Codec.Anthropic.Response
import NemoRelay.Lib.Delimited
import NemoRelay.Pii.Untouched

/-!
# Writing a normalized response over its payload

`overlay.rs`, for Anthropic Messages: the fields of a redacted response replace those of the
payload that it was decoded from. The text of the message is distributed over the text blocks, and
the tool calls over the tool blocks.
-/

namespace NemoRelay.Pii

open Option (map_eq_some_iff map_some getD_some)

open List hiding get insert

open SortedMap (Sorted get insert)

open AnthropicMessagesCodec

def setOptionalStringField (object : Object) (key : String) (value : Option String) : Object :=
  setOrRemoveJson object key (value.map .str)

/-! ### Texts -/

def partText : ContentPart → Option String
  | .text text _ => some text
  | .refusal refusal _ => some refusal
  | .providerNative _ _ value =>
    ((value.get "text").bind Json.asStr).or ((value.get "refusal").bind Json.asStr)
  | _ => none

def annotatedMessageText : Option MessageContent → Option String
  | none => none
  | some (.text text) => some text
  | some (.parts parts) =>
    let textParts := parts.filterMap partText
    if textParts = [] then none else some (joinLines textParts)

def splitLines (text : String) : List String := (text.toList.splitOn '\n').map .ofList

/-- The text for one of several text blocks. -/
def linePart (messageText : Option String) (index : Nat) : Option String :=
  (messageText.bind fun text => (splitLines text)[index]?).or
    (if index = 0 then messageText else none)

/-- The text for the text block with the given index among them. -/
def textPart (textBlockCount : Nat) (messageText : Option String) (index : Nat) : Option String :=
  if textBlockCount ≤ 1 then messageText else linePart messageText index

def textObject (block : Json) : Option Object :=
  if blockType block = some "text" then block.asObject else none

def overlayTextBlocksFrom (part : Nat → Option String) : Nat → List Json → List Json
  | _, [] => []
  | index, block :: blocks =>
    match textObject block with
    | some object =>
      .obj (setOptionalStringField object "text" (part index)) ::
        overlayTextBlocksFrom part (index + 1) blocks
    | none => block :: overlayTextBlocksFrom part index blocks

variable (blocks : List Json)

def overlayAnthropicTextBlocks (messageText : Option String) : List Json :=
  let textBlockCount := blocks.countP fun block => blockType block = some "text"
  overlayTextBlocksFrom (textPart textBlockCount messageText) 0 blocks

/-! ### Tool calls -/

/-- The block of a tool call, with another call. -/
def withCall (object : Object) (call : ResponseToolCall) : Object :=
  SortedMap.insert
    (setOptionalStringField (setOptionalStringField object "id" (some call.id)) "name"
      (some call.name))
    "input" call.arguments

/-- Tool blocks take the calls in order. Those for which there is no call left are dropped. -/
def overlayToolCallsFrom : List ResponseToolCall → List Json → List Json
  | _, [] => []
  | calls, block :: blocks =>
    if blockType block = some "tool_use" then
      match block.asObject, calls with
      | some object, call :: calls =>
        .obj (withCall object call) :: overlayToolCallsFrom calls blocks
      | some _, [] | none, _ => overlayToolCallsFrom calls blocks
    else block :: overlayToolCallsFrom calls blocks

def overlayAnthropicToolCalls :
    Option (List ResponseToolCall) → List Json
  | none => blocks.filter fun block => blockType block ≠ some "tool_use"
  | some toolCalls => overlayToolCallsFrom toolCalls blocks

/-! ### Responses -/

def anthropicStopReason : FinishReason → String
  | .complete => "end_turn"
  | .length => "max_tokens"
  | .toolUse => "tool_use"
  | .contentFilter => "refusal"
  | .unknown other => other

def overlayBlocks (annotated : AnnotatedLlmResponse) (blocks : List Json) : List Json :=
  overlayAnthropicToolCalls
    (overlayAnthropicTextBlocks blocks (annotatedMessageText annotated.message)) annotated.toolCalls

def overlayAnthropicObject (annotated : AnnotatedLlmResponse) (root : Object) : Object :=
  let root := setOptionalStringField root "id" annotated.id
  let root := setOptionalStringField root "model" annotated.model
  let root := setOptionalStringField root "stop_reason"
    (annotated.finishReason.map anthropicStopReason)
  match SortedMap.get root "content" with
  | some (.arr blocks) =>
    SortedMap.insert root "content" (.arr (overlayBlocks annotated blocks))
  | _ => root

def overlayAnthropicResponse (payload : Json) (annotated : AnnotatedLlmResponse) : Json :=
  match payload with
  | .obj root => .obj (overlayAnthropicObject annotated root)
  | other => other

/-! ### Text blocks -/

variable {block : Json} {object : Object}

theorem sorted_setOrRemoveJson (h : Sorted object) (key : String) (value : Option Json) :
    Sorted (setOrRemoveJson object key value) := by
  cases value with
  | none => exact h.erase key
  | some value => exact h.insert key value

/-- A text block has its text. -/
def TextBlocksHaveText : Prop :=
  ∀ block ∈ blocks, blockType block = some "text" → ∃ text, block.get "text" = some (.str text)

theorem exists_object_of_blockType {kind : String} (h : blockType block = some kind) :
    ∃ object, block = .obj object := by
  cases block with
  | obj object => exact ⟨object, rfl⟩
  | null | bool | num | str | arr => simp [blockType, Json.get, Json.asObject] at h

theorem blockType_setText (object : Object) (text : Option String) :
    blockType (.obj (setOptionalStringField object "text" text)) = blockType (.obj object) := by
  simp [blockType, Json.get, Json.asObject, setOptionalStringField, get_setOrRemoveJson]

theorem anthropicTextBlock_obj (htype : blockType (.obj object) = some "text") {text : String}
    (hget : get object "text" = some (.str text)) :
    anthropicTextBlock (.obj object) = some text := by
  simp [anthropicTextBlock, htype, Json.get, Json.asObject, hget, Json.asStr]

theorem length_filterMap_textBlock {blocks : List Json} (htexts : TextBlocksHaveText blocks) :
    blocks.countP (fun block => blockType block = some "text") =
      (blocks.filterMap anthropicTextBlock).length := by
  rw [length_filterMap_eq_countP]
  refine countP_congr fun block hblock => ?_
  by_cases htype : blockType block = some "text"
  · obtain ⟨text, hget⟩ := htexts block hblock htype
    simp [anthropicTextBlock, htype, hget, Json.asStr]
  · simp [anthropicTextBlock, htype]

/-! ### Tool blocks -/

/-- A tool block has an identifier, a name and an input. -/
def ToolBlocksComplete : Prop :=
  ∀ block ∈ blocks, blockType block = some "tool_use" → (anthropicToolCallBlock block).isSome

variable {call : ResponseToolCall}

/-- What a call writes to its block. -/
def callFields (call : ResponseToolCall) : Object :=
  [("id", .str call.id), ("name", .str call.name), ("input", call.arguments)]

theorem anthropicToolCallBlock_eq_some (h : anthropicToolCallBlock block = some call) :
    ∀ field ∈ callFields call, block.get field.1 = some field.2 := by
  unfold anthropicToolCallBlock at h
  split at h
  · simp only [Option.bind_eq_bind, Option.bind_eq_some_iff, Json.asStr_eq_some] at h
    obtain ⟨id, ⟨_, hid, rfl⟩, name, ⟨_, hname, rfl⟩, input, hinput, h⟩ := h
    cases h
    simp [callFields, hid, hname, hinput]
  · cases h

theorem get_withCall (object : Object) (call : ResponseToolCall) (key : String) :
    get (withCall object call) key = (get (callFields call) key).or (get object key) := by
  simp only [withCall, setOptionalStringField, get_setOrRemoveJson, SortedMap.get_insert,
    callFields, SortedMap.get_cons, SortedMap.get_nil, map_some]
  split_ifs <;> simp_all

theorem sorted_withCall (h : Sorted object) (call : ResponseToolCall) :
    Sorted (withCall object call) :=
  ((h.insert _ _).insert _ _).insert _ _

/-- The tool blocks with their positions, which are counted from `start`. -/
def toolBlocks (start : Nat) (blocks : List Json) : List (Json × Nat) :=
  (blocks.zipIdx start).filter fun entry => blockType entry.1 = some "tool_use"

variable {blocks : List Json}

theorem toolBlocks_cons_tool (htype : blockType block = some "tool_use") (start : Nat) :
    toolBlocks start (block :: blocks) = (block, start) :: toolBlocks (start + 1) blocks := by
  simp [toolBlocks, zipIdx_cons, htype]

theorem toolBlocks_cons_other (htype : blockType block ≠ some "tool_use") (start : Nat) :
    toolBlocks start (block :: blocks) = toolBlocks (start + 1) blocks := by
  simp [toolBlocks, zipIdx_cons, htype]

theorem length_toolBlocks (start : Nat) (blocks : List Json) :
    (toolBlocks start blocks).length =
      (blocks.filter fun block => blockType block = some "tool_use").length := by
  induction blocks generalizing start with
  | nil => rfl
  | cons block blocks ih =>
    by_cases htype : blockType block = some "tool_use"
    · simp [toolBlocks_cons_tool htype, ih, htype]
    · simp [toolBlocks_cons_other htype, ih, htype]

/-- There are fewer calls than tool blocks, unless each of these is a call. -/
theorem toolBlocksComplete_of_le
    (h : (blocks.filter fun block => blockType block = some "tool_use").length ≤
      (blocks.filterMap anthropicToolCallBlock).length) : ToolBlocksComplete blocks := by
  have hcalls : (blocks.filterMap anthropicToolCallBlock).length =
      ((blocks.filter fun block => blockType block = some "tool_use").filter
        fun block => (anthropicToolCallBlock block).isSome).length := by
    rw [length_filterMap_eq_countP, filter_filter, ← countP_eq_length_filter]
    refine countP_congr fun block _ => ?_
    by_cases htype : blockType block = some "tool_use" <;> simp [anthropicToolCallBlock, htype]
  rw [hcalls] at h
  have hall := length_filter_eq_length_iff.mp (Nat.le_antisymm (length_filter_le _ _) h)
  exact fun block hmem htype => hall block (mem_filter.mpr ⟨hmem, by simpa using htype⟩)

theorem overlayToolCallsFrom_other (htype : blockType block ≠ some "tool_use")
    (calls : List ResponseToolCall) :
    overlayToolCallsFrom calls (block :: blocks) = block :: overlayToolCallsFrom calls blocks := by
  cases calls <;> cases hobject : block.asObject <;> simp [overlayToolCallsFrom, htype]

theorem overlayToolCallsFrom_nil_tool (htype : blockType block = some "tool_use") :
    overlayToolCallsFrom [] (block :: blocks) = overlayToolCallsFrom [] blocks := by
  cases hobject : block.asObject <;> simp [overlayToolCallsFrom, htype, hobject]

theorem overlayToolCallsFrom_cons_tool (htype : blockType (.obj object) = some "tool_use")
    (call : ResponseToolCall) (calls : List ResponseToolCall) :
    overlayToolCallsFrom (call :: calls) (.obj object :: blocks) =
      .obj (withCall object call) :: overlayToolCallsFrom calls blocks := by
  simp [overlayToolCallsFrom, htype, Json.asObject]

/-- Without calls, all tool blocks are dropped. -/
theorem overlayAnthropicToolCalls_eq (blocks : List Json)
    (toolCalls : Option (List ResponseToolCall)) :
    overlayAnthropicToolCalls blocks toolCalls =
      overlayToolCallsFrom (toolCalls.getD []) blocks := by
  cases toolCalls with
  | some toolCalls => rfl
  | none =>
    induction blocks with
    | nil => rfl
    | cons block blocks ih =>
      simp only [overlayAnthropicToolCalls, Option.getD_none] at ih ⊢
      by_cases htype : blockType block = some "tool_use"
      · rw [overlayToolCallsFrom_nil_tool htype, ← ih, filter_cons_of_neg (by simpa using htype)]
      · rw [overlayToolCallsFrom_other htype, ← ih, filter_cons_of_pos (by simpa using htype)]

theorem length_overlayToolCallsFrom_le (calls : List ResponseToolCall) (blocks : List Json) :
    (overlayToolCallsFrom calls blocks).length ≤ blocks.length := by
  induction blocks generalizing calls with
  | nil => simp [overlayToolCallsFrom]
  | cons block blocks ih =>
    by_cases htype : blockType block = some "tool_use"
    · obtain ⟨object, rfl⟩ := exists_object_of_blockType htype
      cases calls with
      | nil =>
        rw [overlayToolCallsFrom_nil_tool htype]
        exact (ih []).trans (Nat.le_succ _)
      | cons call calls =>
        rw [overlayToolCallsFrom_cons_tool htype]
        exact Nat.succ_le_succ (ih calls)
    · rw [overlayToolCallsFrom_other htype]
      exact Nat.succ_le_succ (ih calls)

theorem length_overlayTextBlocksFrom (part : Nat → Option String) (index : Nat)
    (blocks : List Json) : (overlayTextBlocksFrom part index blocks).length = blocks.length := by
  induction blocks generalizing index with
  | nil => rfl
  | cons block blocks ih =>
    rw [overlayTextBlocksFrom]
    split <;> rw [length_cons, length_cons, ih]

/-! ### Lines -/

/-- Several texts are told apart by the lines of the message only if each is one line. -/
def TextsFit (texts : List String) : Prop :=
  texts.length ≤ 1 ∨ ∀ text ∈ texts, '\n' ∉ text.toList

theorem splitLines_joinLines_iff {texts : List String} :
    (∀ (k : Nat) (text : String), texts[k]? = some text →
        (splitLines (joinLines texts))[k]? = some text) ↔
      ∀ text ∈ texts, '\n' ∉ text.toList := by
  have hlines : splitLines (joinLines texts) =
      ((['\n'].intercalate (texts.map String.toList)).splitOn '\n').map String.ofList := by
    rw [splitLines, joinLines, String.toList_intercalate]
    rfl
  have hforall : (∀ text ∈ texts, '\n' ∉ text.toList) ↔
      ∀ text ∈ texts.map String.toList, '\n' ∉ text := by simp
  rw [hforall, ← Coding.splitOn_intercalate_iff, hlines]
  constructor
  · intro h k text hk
    rw [getElem?_map, map_eq_some_iff] at hk
    obtain ⟨line, hline, rfl⟩ := hk
    have hat := h k line hline
    rw [getElem?_map, map_eq_some_iff] at hat
    obtain ⟨part, hpart, rfl⟩ := hat
    rw [hpart, String.toList_ofList]
  · intro h k text hk
    rw [getElem?_map, h k text.toList (by rw [getElem?_map, hk]; rfl), map_some,
      String.ofList_toList]

theorem linePart_some (text : String) (index : Nat) :
    linePart (some text) index = (splitLines text)[index]? := by
  cases hline : (splitLines text)[index]? with
  | some line => simp [linePart, hline]
  | none =>
    have hne : splitLines text ≠ [] := by simp [splitLines]
    have hpos := length_pos_iff.mpr hne
    have hlength := getElem?_eq_none_iff.mp hline
    simp [linePart, hline, show index ≠ 0 by omega]

theorem textPart_joinLines_iff (texts : List String) :
    (∀ (k : Nat) (text : String), texts[k]? = some text →
        textPart texts.length (some (joinLines texts)) k = some text) ↔ TextsFit texts := by
  by_cases hlength : texts.length ≤ 1
  · refine iff_of_true (fun k text hk => ?_) (.inl hlength)
    match texts, k with
    | [line], 0 => simpa [textPart, joinLines] using hk
    | [line], k + 1 => cases hk
    | _ :: _ :: _, _ => simp at hlength
  · have hpart : ∀ k, textPart texts.length (some (joinLines texts)) k =
        (splitLines (joinLines texts))[k]? := by
      intro k
      rw [textPart, if_neg hlength, linePart_some]
    simp only [hpart, splitLines_joinLines_iff, TextsFit, hlength, false_or]

/-! ### Written over the payload of a response -/

def contentBlocks (root : Object) : List Json :=
  match get root "content" with
  | some (.arr blocks) => blocks
  | _ => []

theorem anthropicStopReason_map (reason : String) :
    anthropicStopReason (mapAnthropicStopReason reason) = reason := by
  unfold mapAnthropicStopReason
  split <;> rfl

def overlayContent (annotated : AnnotatedLlmResponse) : Option Json → Option Json
  | some (.arr blocks) => some (.arr (overlayBlocks annotated blocks))
  | other => other

theorem overlayAnthropicObject_spec (annotated : AnnotatedLlmResponse) {root : Object}
    (hroot : Sorted root) : Sorted (overlayAnthropicObject annotated root) ∧ ∀ key,
      get (overlayAnthropicObject annotated root) key =
        if key = "content" then overlayContent annotated (get root "content")
        else if key = "stop_reason" then (annotated.finishReason.map anthropicStopReason).map .str
        else if key = "model" then annotated.model.map .str
        else if key = "id" then annotated.id.map .str
        else get root key := by
  have hsorted := sorted_setOrRemoveJson (sorted_setOrRemoveJson (sorted_setOrRemoveJson hroot "id"
    (annotated.id.map .str)) "model" (annotated.model.map .str)) "stop_reason"
    ((annotated.finishReason.map anthropicStopReason).map .str)
  simp only [overlayAnthropicObject, setOptionalStringField]
  split
  · next blocks hblocks =>
    refine ⟨hsorted.insert _ _, fun key => ?_⟩
    simp only [get_setOrRemoveJson, String.reduceEq, if_false] at hblocks
    simp only [SortedMap.get_insert, get_setOrRemoveJson, hblocks, overlayContent]
  · next hother =>
    refine ⟨hsorted, fun key => ?_⟩
    simp only [get_setOrRemoveJson, String.reduceEq, if_false] at hother ⊢
    have hsame : overlayContent annotated (get root "content") = get root "content" := by
      rw [overlayContent]
      exact hother
    by_cases hkey : key = "content" <;> simp [hkey, hsame]

/-! ### Redaction of what is written -/

section Redaction

variable {backend : CompiledBuiltinBackend} {path : Path}

open CompiledBuiltinBackend

/-- A redaction gives an object if it gives each of its members. -/
theorem sanitize_obj_eq_iff {object' : Object} (hremoves : backend.removes path = false)
    (hobject : Sorted object) (hobject' : Sorted object') :
    backend.sanitizeJsonPreorderDfsAtPath path (.obj object') = some (.obj object) ↔
      ∀ key, (get object' key).bind (backend.sanitizeJsonPreorderDfsAtPath (path ++ [key])) =
        get object key := by
  have hsorted := hobject'.filterMap fun key =>
    backend.sanitizeJsonPreorderDfsAtPath (path ++ [key])
  have hget := hobject'.get_filterMap fun key =>
    backend.sanitizeJsonPreorderDfsAtPath (path ++ [key])
  rw [sanitize_obj hremoves, Option.some.injEq, Json.obj.injEq]
  constructor
  · rintro rfl key
    exact (hget key).symm
  · exact fun h => SortedMap.ext hsorted hobject fun key => (hget key).trans (h key)

/-- Redaction leaves of the call, at its place in the block, what the block has. -/
def CallFits (backend : CompiledBuiltinBackend) (path : Path) (block : Json)
    (call : ResponseToolCall) : Prop :=
  ∀ field ∈ callFields call,
    backend.sanitizeJsonPreorderDfsAtPath (path ++ [field.1]) field.2 = block.get field.1

theorem getD_null_eq_obj {value : Option Json} :
    value.getD .null = .obj object ↔ value = some (.obj object) := by
  cases value <;> simp

theorem forall_getElem?_cons {α : Type} {P : Nat → α → Prop} {x : α} {xs : List α} :
    (∀ k y, (x :: xs)[k]? = some y → P k y) ↔ P 0 x ∧ ∀ k y, xs[k]? = some y → P (k + 1) y := by
  refine ⟨fun h => ⟨h 0 x rfl, fun k => h (k + 1)⟩, ?_⟩
  rintro ⟨hhead, htail⟩ (_ | k) y hy
  · cases hy
    exact hhead
  · exact htail k y hy

/-- Every tool block has a call that fits. -/
def CallsFit (backend : CompiledBuiltinBackend) (path : Path) (calls : List ResponseToolCall)
    (tools : List (Json × Nat)) : Prop :=
  ∀ (k : Nat) tool, tools[k]? = some tool → ∃ call, calls[k]? = some call ∧
    CallFits backend (path ++ [toString tool.2]) tool.1 call

theorem callsFit_cons {calls : List ResponseToolCall} {tool : Json × Nat}
    {tools : List (Json × Nat)} : CallsFit backend path (call :: calls) (tool :: tools) ↔
      CallFits backend (path ++ [toString tool.2]) tool.1 call ∧
        CallsFit backend path calls tools := by
  rw [CallsFit, forall_getElem?_cons]
  simp [CallsFit]

variable (hnonempty : backend.targetPathMatcher.isEmpty = false)
include hnonempty

/-- Redaction gives a string at the place of a member if that string is written there. -/
theorem sanitize_string_iff (h : Unselected backend.targetPathMatcher path (.obj object))
    {key text : String} (hget : get object key = some (.str text)) {value : Option String} :
    (value.map Json.str).bind (backend.sanitizeJsonPreorderDfsAtPath (path ++ [key])) =
      some (.str text) ↔ value = some text := by
  have hmember := h.member (SortedMap.mem_of_get hget)
  cases value with
  | none => simp
  | some value =>
    have hvalue : Unselected backend.targetPathMatcher (path ++ [key]) (.str value) := by
      rintro rest part ⟨⟩
      simpa using hmember.here
    simp [hvalue.sanitize_eq_self hnonempty]

theorem bind_sanitize_get (h : Unselected backend.targetPathMatcher path (.obj object))
    (key : String) :
    (get object key).bind (backend.sanitizeJsonPreorderDfsAtPath (path ++ [key])) =
      get object key := by
  cases hget : get object key with
  | none => rfl
  | some value => exact (h.member (SortedMap.mem_of_get hget)).sanitize_eq_self hnonempty

theorem sanitize_textBlock_iff (hobject : Sorted object)
    (h : Unselected backend.targetPathMatcher path (.obj object)) {text : String}
    (hget : get object "text" = some (.str text)) {value : Option String} :
    backend.sanitizeJsonPreorderDfsAtPath path
      (.obj (setOptionalStringField object "text" value)) = some (.obj object) ↔
        value = some text := by
  rw [setOptionalStringField, sanitize_obj_eq_iff h.removes_eq_false hobject
    (sorted_setOrRemoveJson hobject _ _), ← sanitize_string_iff hnonempty h hget]
  refine ⟨fun hall => ?_, fun htext key => ?_⟩
  · simpa [get_setOrRemoveJson, hget] using hall "text"
  · rw [get_setOrRemoveJson]
    split
    · next hkey => rw [hkey, htext, hget]
    · exact bind_sanitize_get hnonempty h key

theorem sanitize_withCall_iff (hobject : Sorted object)
    (h : Unselected backend.targetPathMatcher path (.obj object)) :
    backend.sanitizeJsonPreorderDfsAtPath path (.obj (withCall object call)) =
      some (.obj object) ↔ CallFits backend path (.obj object) call := by
  rw [sanitize_obj_eq_iff h.removes_eq_false hobject (sorted_withCall hobject call)]
  simp only [get_withCall]
  constructor
  · intro hall field hfield
    have hget : get (callFields call) field.1 = some field.2 := by
      simp only [callFields, mem_cons, not_mem_nil, or_false] at hfield
      rcases hfield with rfl | rfl | rfl <;> rfl
    simpa [hget, Json.get, Json.asObject] using hall field.1
  · intro hfits key
    cases hget : get (callFields call) key with
    | none => exact bind_sanitize_get hnonempty h key
    | some value => exact hfits _ (SortedMap.mem_of_get hget)

/-- Redaction gives the blocks back if every text block gets its text and every tool block a call
that fits. -/
theorem sanitizeItems_overlay_iff {start index : Nat} (part : Nat → Option String)
    (calls : List ResponseToolCall) (hwf : ∀ block ∈ blocks, block.WF)
    (htexts : TextBlocksHaveText blocks)
    (h : ∀ (k : Nat) block, blocks[k]? = some block →
      Unselected backend.targetPathMatcher (path ++ [toString (start + k)]) block) :
    backend.sanitizeItems path start
      (overlayToolCallsFrom calls (overlayTextBlocksFrom part index blocks)) = blocks ↔
    (∀ (k : Nat) text, (blocks.filterMap anthropicTextBlock)[k]? = some text →
      part (index + k) = some text) ∧
    CallsFit backend path calls (toolBlocks start blocks) := by
  induction blocks generalizing start index calls with
  | nil =>
    simp [overlayTextBlocksFrom, overlayToolCallsFrom, sanitizeItems, toolBlocks, CallsFit]
  | cons block blocks ih =>
    obtain ⟨hblock, hwfs⟩ := forall_mem_cons.mp hwf
    obtain ⟨htext, hrest⟩ := forall_mem_cons.mp htexts
    obtain ⟨hhere, htail⟩ := forall_getElem?_cons.mp h
    rw [Nat.add_zero] at hhere
    have hih := fun index calls => @ih (start + 1) index calls hwfs hrest fun k block hk => by
      simpa only [Nat.add_assoc, Nat.add_comm 1] using htail k block hk
    by_cases hkind : blockType block = some "text"
    · obtain ⟨object, rfl⟩ := exists_object_of_blockType hkind
      obtain ⟨text, hget⟩ := htext hkind
      have hother : blockType (.obj object) ≠ some "tool_use" := by simp [hkind]
      rw [overlayTextBlocksFrom, textObject, if_pos hkind]
      dsimp only [Json.asObject]
      rw [overlayToolCallsFrom_other (blockType_setText object _ ▸ hother), sanitizeItems,
        List.cons.injEq, getD_null_eq_obj, hih, toolBlocks_cons_other hother,
        sanitize_textBlock_iff hnonempty (Json.wf_obj.mp hblock).1 hhere hget,
        filterMap_cons_some (anthropicTextBlock_obj hkind hget),
        forall_getElem?_cons (P := fun k text => part (index + k) = some text), and_assoc]
      simp only [Nat.add_zero, Nat.add_assoc, Nat.add_comm 1]
    · rw [overlayTextBlocksFrom, textObject, if_neg hkind,
        filterMap_cons_none (show anthropicTextBlock block = none from if_neg hkind)]
      dsimp only
      by_cases htype : blockType block = some "tool_use"
      · obtain ⟨object, rfl⟩ := exists_object_of_blockType htype
        rw [toolBlocks_cons_tool htype]
        cases calls with
        | nil =>
          refine iff_of_false (fun heq => ?_) fun hall => ?_
          · -- the block is dropped, and no block takes its place
            have hlength := congrArg List.length heq
            have hle := length_overlayToolCallsFrom_le [] (overlayTextBlocksFrom part index blocks)
            rw [length_overlayTextBlocksFrom] at hle
            rw [overlayToolCallsFrom_nil_tool htype, sanitizeItems_eq, length_mapIdx,
              length_cons] at hlength
            omega
          · obtain ⟨call, hcall, -⟩ := hall.2 0 _ rfl
            cases hcall
        | cons call calls =>
          rw [overlayToolCallsFrom_cons_tool htype, sanitizeItems, List.cons.injEq,
            getD_null_eq_obj, hih, sanitize_withCall_iff hnonempty (Json.wf_obj.mp hblock).1 hhere,
            callsFit_cons, and_left_comm]
      · rw [overlayToolCallsFrom_other htype, sanitizeItems, List.cons.injEq, hih,
          toolBlocks_cons_other htype, (hhere.sanitize_eq_self hnonempty :)]
        simp

theorem CallFits.of_block (h : Unselected backend.targetPathMatcher path block)
    (hcall : anthropicToolCallBlock block = some call) : CallFits backend path block call := by
  intro field hfield
  have hget := anthropicToolCallBlock_eq_some hcall field hfield
  obtain ⟨object, hobject, hmember⟩ := Option.bind_eq_some_iff.mp hget
  obtain rfl := Json.asObject_eq_some.mp hobject
  rw [hget]
  exact (h.member (SortedMap.mem_of_get hmember)).sanitize_eq_self hnonempty

/-- The calls that were decoded fit if there is one for every tool block. -/
theorem callsFit_decoded_iff {start : Nat}
    (h : ∀ (k : Nat) block, blocks[k]? = some block →
      Unselected backend.targetPathMatcher (path ++ [toString (start + k)]) block) :
    CallsFit backend path (blocks.filterMap anthropicToolCallBlock) (toolBlocks start blocks) ↔
      ToolBlocksComplete blocks := by
  constructor
  · intro hfit
    refine toolBlocksComplete_of_le (length_toolBlocks start blocks ▸ not_lt.mp fun hlt => ?_)
    obtain ⟨call, hcall, -⟩ := hfit _ _ (getElem?_eq_getElem hlt)
    simp at hcall
  · intro hcomplete
    induction blocks generalizing start with
    | nil => simp [toolBlocks, CallsFit]
    | cons block blocks ih =>
      obtain ⟨hcall, hrest⟩ := forall_mem_cons.mp hcomplete
      obtain ⟨hhere, htail⟩ := forall_getElem?_cons.mp h
      have hih := @ih (start + 1) (fun k block hk => by
        simpa only [Nat.add_assoc, Nat.add_comm 1] using htail k block hk) hrest
      by_cases htype : blockType block = some "tool_use"
      · obtain ⟨call, hcall⟩ := Option.isSome_iff_exists.mp (hcall htype)
        rw [filterMap_cons_some hcall, toolBlocks_cons_tool htype, callsFit_cons]
        exact ⟨.of_block hnonempty hhere hcall, hih⟩
      · rwa [filterMap_cons_none (show anthropicToolCallBlock block = none from if_neg htype),
          toolBlocks_cons_other htype]

/-- A response whose strings are those of its payload is written over it without a change if the
stop reason is written back and redaction gives the blocks back. -/
theorem sanitize_overlay_iff {root : Object} (hroot : Sorted root)
    (h : Unselected backend.targetPathMatcher [] (.obj root)) {id model stopReason : String}
    (hid : get root "id" = some (.str id)) (hmodel : get root "model" = some (.str model))
    (hstop : get root "stop_reason" = some (.str stopReason)) {annotated : AnnotatedLlmResponse}
    (hid' : annotated.id = some id) (hmodel' : annotated.model = some model) :
    backend.sanitizeJsonPreorderDfs (overlayAnthropicResponse (.obj root) annotated) = .obj root ↔
      annotated.finishReason.map anthropicStopReason = some stopReason ∧
        ∀ blocks, get root "content" = some (.arr blocks) →
          backend.sanitizeItems ["content"] 0 (overlayBlocks annotated blocks) = blocks := by
  obtain ⟨hsorted, hget⟩ := overlayAnthropicObject_spec annotated hroot
  have hkept := bind_sanitize_get hnonempty h
  rw [sanitizeJsonPreorderDfs, overlayAnthropicResponse, getD_null_eq_obj,
    sanitize_obj_eq_iff h.removes_eq_false hroot hsorted, ← sanitize_string_iff hnonempty h hstop]
  simp only [hget]
  have hcontent : (overlayContent annotated (get root "content")).bind
      (backend.sanitizeJsonPreorderDfsAtPath ([] ++ ["content"])) = get root "content" ↔
      ∀ blocks, get root "content" = some (.arr blocks) →
        backend.sanitizeItems ["content"] 0 (overlayBlocks annotated blocks) = blocks := by
    have hself := hkept "content"
    cases hvalue : get root "content" with
    | none => simp [overlayContent]
    | some value =>
      rw [hvalue] at hself
      have hremoves := (h.member (SortedMap.mem_of_get hvalue)).removes_eq_false
      cases value with
      | arr blocks =>
        simp only [overlayContent, Option.bind_some, sanitizeJsonPreorderDfsAtPath, hremoves]
        simp [eq_comm]
      | null | bool | num | str | obj => simpa [overlayContent] using hself
  constructor
  · intro hall
    exact ⟨hstop ▸ hall "stop_reason", hcontent.mp (hall "content")⟩
  · rintro ⟨hreason, hblocks⟩ key
    split_ifs with hkey hkey hkey hkey
    · rw [hkey, hcontent.mpr hblocks]
    · rw [hkey, hreason, hstop]
    · rw [hmodel', map_some, hkey, ← hmodel, hkept]
    · rw [hid', map_some, hkey, ← hid, hkept]
    · exact hkept key

end Redaction

end NemoRelay.Pii

import NemoRelay.ResponseCache.Replay
import Mathlib.Data.Finset.Insert

/-!
# Replaying OpenAI Chat streams

Collecting the chunks that are replayed for a collected stream gives the stream back, up to the
form in which roles, tool calls and empty content are kept. Empty content gets no chunk, so a
choice that was sent only empty content loses it.
-/

namespace NemoRelay

open List hiding get

open Json (asArray asObject asStr asU64 isArray)

namespace OpenAIChatCodec

open StreamingState (observeChoice)
open ResponseCache

/-! ### Tool calls -/

/-- A tool call after a replay: its defaults are written out. -/
def ToolCallState.replayed (state : ToolCallState) : ToolCallState :=
  { state with type := some (state.type.getD "function"), name := some (state.name.getD "") }

variable (state : ToolCallState)

theorem get_finalize_toolCall (key : String) :
    state.finalize.get key = fieldOf
      [("id", state.id.map .str), ("type", some (.str (state.type.getD "function"))),
        ("function", some (.obj [("arguments", .str state.arguments),
          ("name", .str (state.name.getD ""))]))] key :=
  get_obj_insertFields _ key

open SortedMap

theorem get_toolCallDelta (index : Nat) (key : String) :
    (chatToolCallDelta state.finalize index).get key =
      if key = "index" then some (indexJson index) else state.finalize.get key := by
  have hindex : state.finalize.get "index" = none := by
    rw [get_finalize_toolCall]
    simp [fieldOf]
  unfold ToolCallState.finalize at *
  simp only [chatToolCallDelta]
  rw [if_neg]
  · exact get_insert _ _ _ _
  · intro hsome
    rw [show get _ "index" = none from hindex] at hsome
    cases hsome

theorem observe_toolCallDelta (index : Nat) :
    ({} : ToolCallState).observe (chatToolCallDelta state.finalize index) = state.replayed := by
  have hget := get_toolCallDelta state index
  have hstring : ∀ key, key ≠ "index" →
      stringOf (chatToolCallDelta state.finalize index) key =
        (state.finalize.get key).bind asStr := by
    intro key hkey
    rw [stringOf, hget, if_neg hkey]
  have hid : stringOf (chatToolCallDelta state.finalize index) "id" = state.id := by
    rw [hstring _ (by decide), get_finalize_toolCall]
    cases state.id <;> simp [fieldOf, asStr]
  have htype : stringOf (chatToolCallDelta state.finalize index) "type" =
      some (state.type.getD "function") := by
    rw [hstring _ (by decide), get_finalize_toolCall]
    simp [fieldOf, asStr]
  have hfunction : (chatToolCallDelta state.finalize index).get "function" =
      some (.obj [("arguments", .str state.arguments), ("name", .str (state.name.getD ""))]) := by
    rw [hget, get_finalize_toolCall]
    simp [fieldOf]
  have hname : stringOf (.obj [("arguments", .str state.arguments),
      ("name", .str (state.name.getD ""))]) "name" = some (state.name.getD "") := rfl
  have harguments : stringOf (.obj [("arguments", .str state.arguments),
      ("name", .str (state.name.getD ""))]) "arguments" = some state.arguments := rfl
  simp only [ToolCallState.observe, hid, htype, hfunction, ToolCallState.observeFunction, hname,
    harguments, ToolCallState.replayed, Option.or_none, Option.getD_some, String.empty_append]

/-- The tool calls of a choice after a replay are numbered by their position. -/
def replayedToolCalls (toolCalls : List (Nat × ToolCallState)) (start : Nat) :
    List (Nat × ToolCallState) :=
  (toolCalls.zipIdx start).map fun call => (call.2, call.1.2.replayed)

open ChoiceState

theorem observe_toolCallDeltas (toolCalls before : List (Nat × ToolCallState)) (start : Nat)
    (hbefore : ∀ entry ∈ before, entry.1 < start) :
    (((toolCalls.map fun call => call.2.finalize).zipIdx start).map
        fun call => chatToolCallDelta call.1 call.2).foldl observeToolCall before =
      before ++ replayedToolCalls toolCalls start := by
  induction toolCalls generalizing before start with
  | nil => simp [replayedToolCalls]
  | cons call toolCalls ih =>
    have hindex : indexOf (chatToolCallDelta call.2.finalize start) = start := by
      rw [indexOf, get_toolCallDelta]
      rfl
    have hfirst : observeToolCall before (chatToolCallDelta call.2.finalize start) =
        before ++ [(start, call.2.replayed)] := by
      rw [observeToolCall, hindex, get_of_forall_lt hbefore,
        insert_of_forall_lt hbefore, Option.getD_none, observe_toolCallDelta]
    have hnext : ∀ entry ∈ before ++ [(start, call.2.replayed)], entry.1 < start + 1 :=
      forall_mem_append.mpr ⟨fun entry hentry => Nat.lt_succ_of_lt (hbefore entry hentry),
        forall_mem_singleton.mpr (Nat.lt_succ_self start)⟩
    rw [map_cons, zipIdx_cons, map_cons, foldl_cons, hfirst, ih _ _ hnext]
    simp [replayedToolCalls]

/-! ### Choices -/

/-- A choice after a replay. Content that is empty was not sent. -/
def ChoiceState.replayed (state : ChoiceState) : ChoiceState where
  role := some (state.role.getD "assistant")
  content := if state.hasContent then state.content else ""
  hasContent := state.hasContent && state.content ≠ ""
  toolCalls := replayedToolCalls state.toolCalls 0
  finishReason := state.finishReason

variable (state : ChoiceState)

theorem get_finalize_message (index : Nat) (key : String) :
    (((state.finalize index).get "message").getD (.obj [])).get key = fieldOf
      [("role", some (.str (state.role.getD "assistant"))),
        ("content", some (if state.hasContent then .str state.content else .null)),
        ("tool_calls", if state.toolCalls.isEmpty then none
          else some (.arr (state.toolCalls.map fun call => call.2.finalize)))] key :=
  get_obj_insertFields _ key

theorem finalize_replayedToolCalls (toolCalls : List (Nat × ToolCallState)) (start : Nat) :
    (replayedToolCalls toolCalls start).map (fun call => call.2.finalize) =
      toolCalls.map fun call => call.2.finalize := by
  induction toolCalls generalizing start with
  | nil => rfl
  | cons call toolCalls ih =>
    rw [replayedToolCalls, zipIdx_cons, map_cons, map_cons]
    exact congrArg _ (ih (start + 1))

/-- A replayed choice is finalized as before, unless its content was sent but empty. -/
theorem finalize_replayed_iff (index : Nat) :
    state.replayed.finalize index = state.finalize index ↔
      (state.hasContent → state.content ≠ "") := by
  constructor
  · intro hsame hcontent hempty
    have hmember := congrArg
      (fun choice => ((choice.get "message").getD (.obj [])).get "content") hsame
    simp only [get_finalize_message] at hmember
    simp [fieldOf, replayed, hcontent, hempty] at hmember
  · intro h
    have hempty : state.replayed.toolCalls.isEmpty = state.toolCalls.isEmpty := by
      unfold replayed
      cases state.toolCalls <;> rfl
    have hcalls : (state.replayed.toolCalls.map fun call => call.2.finalize) =
        state.toolCalls.map fun call => call.2.finalize := finalize_replayedToolCalls _ 0
    have hcontent : (if state.replayed.hasContent then Json.str state.replayed.content else .null) =
        if state.hasContent then .str state.content else .null := by
      unfold replayed
      cases hhas : state.hasContent with
      | false => simp
      | true => simp [h hhas]
    have hrole : state.replayed.role.getD "assistant" = state.role.getD "assistant" := rfl
    have hfinish : state.replayed.finishReason = state.finishReason := rfl
    simp only [finalize, hempty, hcalls, hcontent, hrole, hfinish]

theorem observe_chatChoice (index : Nat) (delta finishReason : Json) :
    state.observe (chatChoice index delta finishReason) =
      { state with
        finishReason := finishReason.asStr.or state.finishReason }.observeDelta (some delta) :=
  rfl

theorem chatChoiceItems_finalize (index position : Nat) :
    chatChoiceItems position (state.finalize index) =
      [chatChoice index (.obj [("role", .str (state.role.getD "assistant"))]) .null] ++
      (if state.hasContent ∧ state.content ≠ "" then
        [chatChoice index (.obj [("content", .str state.content)]) .null] else []) ++
      (if state.toolCalls.isEmpty then [] else
        [chatChoice index (.obj [("tool_calls", .arr
          ((state.toolCalls.map fun call => call.2.finalize).zipIdx.map
            fun call => chatToolCallDelta call.1 call.2))]) .null]) ++
      [chatChoice index (.obj []) ((state.finishReason.map Json.str).getD .null)] := by
  have hindex : (((state.finalize index).get "index").bind asU64).getD position = index := rfl
  simp only [chatChoiceItems, hindex, get_finalize_message]
  congr 1
  congr 1
  · congr 1
    cases hhas : state.hasContent with
    | false => simp [fieldOf, asStr]
    | true =>
      by_cases hempty : state.content = "" <;> simp [fieldOf, asStr, hempty]
  · cases hcalls : state.toolCalls with
    | nil => simp [fieldOf]
    | cons call calls => simp [fieldOf, asArray]

theorem indexOf_chatChoiceItems {state : ChoiceState} {index position : Nat} {item : Json}
    (h : item ∈ chatChoiceItems position (state.finalize index)) : indexOf item = index := by
  rw [chatChoiceItems_finalize] at h
  simp only [mem_append, mem_singleton, mem_ite_nil_left,
    mem_ite_nil_right] at h
  obtain ((rfl | ⟨-, rfl⟩) | ⟨-, rfl⟩) | rfl := h <;> rfl

section Items

variable (state : ChoiceState) (index : Nat)

/-- A delta without content. -/
theorem observe_delta {delta finishReason : Json} (h : stringOf delta "content" = none) :
    state.observe (chatChoice index delta finishReason) =
      { state with
        role := (stringOf delta "role").or state.role
        toolCalls := (itemsOf delta "tool_calls").foldl observeToolCall state.toolCalls
        finishReason := finishReason.asStr.or state.finishReason } := by
  simp only [observe_chatChoice, observeDelta, h, Option.getD_none, String.append_empty,
    Option.isSome_none, Bool.or_false]

theorem observe_role (role : String) :
    state.observe (chatChoice index (.obj [("role", .str role)]) .null) =
      { state with role := some role } := observe_delta state index rfl

theorem observe_content (content : String) :
    state.observe (chatChoice index (.obj [("content", .str content)]) .null) =
      { state with content := state.content ++ content, hasContent := true } := by
  show ({ state with
      content := state.content ++ content
      hasContent := state.hasContent || true } : ChoiceState) = _
  rw [Bool.or_true]

theorem observe_toolCalls (calls : List Json) :
    state.observe (chatChoice index (.obj [("tool_calls", .arr calls)]) .null) =
      { state with toolCalls := calls.foldl observeToolCall state.toolCalls } :=
  observe_delta state index rfl

theorem observe_finish (finishReason : Option String) :
    state.observe (chatChoice index (.obj []) ((finishReason.map Json.str).getD .null)) =
      { state with finishReason := finishReason.or state.finishReason } := by
  rw [observe_delta state index rfl]
  cases finishReason <;> rfl

end Items

/-- Observing the items of a choice gives the replayed choice. -/
theorem observe_chatChoiceItems (index position : Nat) :
    (chatChoiceItems position (state.finalize index)).foldl observe {} = state.replayed := by
  have hcalls := observe_toolCallDeltas state.toolCalls [] 0 nofun
  have hcontent : (if state.hasContent ∧ state.content ≠ "" then
      [chatChoice index (.obj [("content", .str state.content)]) .null] else []).foldl observe
        { role := some (state.role.getD "assistant") } =
      { state.replayed with toolCalls := [], finishReason := none } := by
    cases hhas : state.hasContent with
    | false => simp [replayed, hhas]
    | true =>
      by_cases hempty : state.content = "" <;> simp [observe_content, replayed, hhas, hempty]
  simp only [chatChoiceItems_finalize, foldl_append, foldl_cons, foldl_nil,
    observe_role, hcontent, observe_finish]
  by_cases hempty : state.toolCalls = []
  · simp [hempty, replayed, replayedToolCalls]
  · simp [hempty, observe_toolCalls, replayed, hcalls]

variable {before : List (Nat × ChoiceState)}

theorem observeChoices_of_index {items : List Json} {index : Nat}
    (hitems : ∀ item ∈ items, indexOf item = index) (hbefore : ∀ entry ∈ before, entry.1 < index)
    (state : ChoiceState) :
    items.foldl observeChoice (before ++ [(index, state)]) =
      before ++ [(index, items.foldl observe state)] := by
  induction items generalizing state with
  | nil => rfl
  | cons item items ih =>
    obtain ⟨hitem, hrest⟩ := forall_mem_cons.mp hitems
    rw [foldl_cons, observeChoice, hitem, get_append_self hbefore,
      insert_append_self hbefore, ih hrest]
    rfl

theorem observeChoices_chatChoiceItems {index : Nat} (hbefore : ∀ entry ∈ before, entry.1 < index)
    (state : ChoiceState) (position : Nat) :
    (chatChoiceItems position (state.finalize index)).foldl observeChoice before =
      before ++ [(index, state.replayed)] := by
  have hindex := fun item => @indexOf_chatChoiceItems state index position item
  have hobserve := observe_chatChoiceItems state index position
  cases hitems : chatChoiceItems position (state.finalize index) with
  | nil =>
    rw [chatChoiceItems_finalize] at hitems
    simp at hitems
  | cons first rest =>
    rw [hitems] at hindex hobserve
    obtain ⟨hfirst, hrest⟩ := forall_mem_cons.mp hindex
    rw [foldl_cons, observeChoice, hfirst, get_of_forall_lt hbefore,
      insert_of_forall_lt hbefore, observeChoices_of_index hrest hbefore, ← hobserve]
    rfl

/-- Observing the items of all choices gives all replayed choices. -/
theorem observeChoices_replay (choices before : List (Nat × ChoiceState)) (position : Nat)
    (hsorted : Sorted choices)
    (hbefore : ∀ entry ∈ before, ∀ choice ∈ choices, entry.1 < choice.1) :
    (((choices.map fun choice => choice.2.finalize choice.1).zipIdx position).flatMap
        fun choice => chatChoiceItems choice.2 choice.1).foldl observeChoice before =
      before ++ choices.map fun choice => (choice.1, choice.2.replayed) := by
  induction choices generalizing before position with
  | nil => simp
  | cons choice choices ih =>
    obtain ⟨hfirst, hsorted⟩ := pairwise_cons.mp hsorted
    have hbelow : ∀ entry ∈ before, entry.1 < choice.1 :=
      fun entry hentry => hbefore entry hentry choice mem_cons_self
    rw [map_cons, zipIdx_cons, flatMap_cons, foldl_append,
      observeChoices_chatChoiceItems hbelow, ih _ _ hsorted]
    · simp
    · refine forall_mem_append.mpr ⟨fun entry hentry later hlater => ?_,
        forall_mem_singleton.mpr hfirst⟩
      exact hbefore entry hentry later (mem_cons_of_mem _ hlater)

/-! ### Whole streams -/

theorem get_finalize (state : StreamingState) (key : String) :
    state.finalize.get key = fieldOf
      [("id", state.id.map .str),
        ("object", state.object.map fun object => .str ((stripSuffix object ".chunk").getD object)),
        ("created", state.created.map fun created => .num (.posInt created)),
        ("model", state.model.map .str),
        ("choices", some (.arr (state.choices.map fun choice => choice.2.finalize choice.1))),
        ("usage", state.usage)] key :=
  get_obj_insertFields _ key

theorem get_chatChunk (aggregate choices : Json) (key : String) :
    (Json.obj (chatChunk aggregate choices)).get key = fieldOf
      [("id", aggregate.get "id"), ("created", aggregate.get "created"),
        ("model", aggregate.get "model"), ("object", some (.str "chat.completion.chunk")),
        ("choices", some choices)] key :=
  get_obj_insertFields _ key

/-- The members that every chunk repeats are not set yet, or set as in the given state. -/
structure Repeats (state current : StreamingState) : Prop where
  id : current.id.or state.id = state.id
  object : current.object.or (some "chat.completion.chunk") = some "chat.completion.chunk"
  created : current.created.or state.created = state.created
  model : current.model.or state.model = state.model

theorem filter_ne_of_ne {α : Type} [DecidableEq α] {value : Option α} {empty : α}
    (h : value ≠ some empty) : value.filter (· ≠ empty) = value := by
  cases value with
  | none => rfl
  | some x =>
    have hne : x ≠ empty := fun heq => h (congrArg some heq)
    simp [hne]

/-- A replayed state with the given choices and usage. -/
def replayedWith (state : StreamingState) (choices : List (Nat × ChoiceState))
    (usage : Option Json) : StreamingState :=
  { state with object := some "chat.completion.chunk", choices, usage }

theorem repeats_replayedWith (state : StreamingState) (choices : List (Nat × ChoiceState))
    (usage : Option Json) : Repeats state (replayedWith state choices usage) where
  id := by cases hid : state.id <;> simp [replayedWith, hid]
  object := rfl
  created := by cases hcreated : state.created <;> simp [replayedWith, hcreated]
  model := by cases hmodel : state.model <;> simp [replayedWith, hmodel]

variable {state current : StreamingState}

theorem observe_chatChunk (hstate : state.Collected)
    (h : Repeats state current) (items : List Json) (usage : Option Json) {chunk : Json}
    (hchunk : ∀ key, chunk.get key = if key = "usage" then usage
      else (Json.obj (chatChunk state.finalize (.arr items))).get key)
    (husage : usage ≠ some .null) :
    current.observe chunk = replayedWith state
      (items.foldl observeChoice current.choices) (usage.or current.usage) := by
  have hid : stringOf chunk "id" = state.id := by
    rw [stringOf, hchunk, get_chatChunk]
    cases hid : state.id <;> simp [fieldOf, get_finalize, hid, asStr]
  have hobject : stringOf chunk "object" = some "chat.completion.chunk" := by
    rw [stringOf, hchunk, get_chatChunk]
    simp [fieldOf, asStr]
  have hcreated : (chunk.get "created").bind asU64 = state.created := by
    rw [hchunk, get_chatChunk]
    cases hcreated : state.created <;> simp [fieldOf, get_finalize, hcreated, asU64, Number.asU64]
  have hmodel : stringOf chunk "model" = state.model := by
    rw [stringOf, hchunk, get_chatChunk]
    cases hmodel : state.model <;> simp [fieldOf, get_finalize, hmodel, asStr]
  have hitems : itemsOf chunk "choices" = items := by
    rw [itemsOf, hchunk, get_chatChunk]
    simp [fieldOf, asArray]
  have hkept : ((chunk.get "usage").filter fun usage => !usage.isNull) = usage := by
    rw [hchunk]
    cases usage with
    | none => rfl
    | some usage => cases usage <;> first | exact absurd rfl husage | rfl
  simp only [StreamingState.observe, hid, hobject, hcreated, hmodel, hitems, hkept,
    filter_ne_of_ne hstate.id, filter_ne_of_ne hstate.created, filter_ne_of_ne hstate.model,
    h.id, h.created, h.model]
  congr 1
  exact h.object

theorem observe_itemChunk (hstate : state.Collected) (h : Repeats state current) (item : Json) :
    current.observe (.obj (chatChunk state.finalize (.arr [item]))) =
      replayedWith state (observeChoice current.choices item) current.usage := by
  refine observe_chatChunk hstate h [item] none (fun key => ?_) nofun
  by_cases hkey : key = "usage"
  · rw [hkey, get_chatChunk]
    simp [fieldOf]
  · rw [if_neg hkey]

variable {state : StreamingState}

theorem observe_items (hstate : state.Collected) (items : List Json)
    (choices : List (Nat × ChoiceState)) (usage : Option Json) :
    (items.map fun item => Json.obj (chatChunk state.finalize (.arr [item]))).foldl
        StreamingState.observe (replayedWith state choices usage) =
      replayedWith state (items.foldl observeChoice choices) usage := by
  induction items generalizing choices with
  | nil => rfl
  | cons item items ih =>
    rw [map_cons, foldl_cons, observe_itemChunk hstate (repeats_replayedWith _ _ _)]
    exact ih _

/-- The state after the chunks that are replayed for a collected stream. -/
theorem collect_synthesizeChatChunks (hstate : state.Collected) (hchoices : state.choices ≠ []) :
    collect (synthesizeChatChunks state.finalize) =
      replayedWith state (state.choices.map fun choice => (choice.1, choice.2.replayed))
        state.usage := by
  have hmembers : ((state.finalize.get "choices").bind asArray).getD [] =
      state.choices.map fun choice => choice.2.finalize choice.1 := by
    rw [get_finalize]
    simp [fieldOf, asArray]
  have husage : state.finalize.get "usage" = state.usage := by
    rw [get_finalize]
    simp [fieldOf]
  have hreplayed := observeChoices_replay state.choices [] 0 hstate.sorted (List.forall_mem_nil _)
  simp only [synthesizeChatChunks, collect, hmembers, husage, foldl_append]
  generalize hitems : ((state.choices.map fun choice => choice.2.finalize choice.1).zipIdx.flatMap
    fun choice => chatChoiceItems choice.2 choice.1) = items at hreplayed ⊢
  have hchunks : (items.map fun item =>
      Json.obj (chatChunk state.finalize (.arr [item]))).foldl StreamingState.observe {} =
        replayedWith state (items.foldl observeChoice []) none := by
    cases items with
    | nil =>
      exact absurd (map_eq_nil_iff.mp hreplayed.symm) hchoices
    | cons first items =>
      have hrepeats : Repeats state {} := ⟨rfl, rfl, rfl, rfl⟩
      rw [map_cons, foldl_cons, observe_itemChunk hstate hrepeats]
      exact observe_items hstate items _ none
  rw [hchunks, hreplayed]
  cases husage' : state.usage with
  | none => rfl
  | some usage =>
    refine (observe_chatChunk hstate (repeats_replayedWith _ _ _) [] (some usage) (fun key => ?_)
      fun hnull => hstate.usage (husage'.trans hnull)).trans rfl
    exact get_insert _ _ _ _

/-! ### Faithful replays -/

theorem finalize_replayedWith_iff (hobject : state.object = some "chat.completion.chunk") :
    (replayedWith state (state.choices.map fun choice => (choice.1, choice.2.replayed))
        state.usage).finalize = state.finalize ↔
      ∀ entry ∈ state.choices, entry.2.hasContent → entry.2.content ≠ "" := by
  have hmap : ((state.choices.map fun choice => (choice.1, choice.2.replayed)).map
      fun choice => choice.2.finalize choice.1) =
        state.choices.map (fun choice => choice.2.finalize choice.1) ↔
      ∀ entry ∈ state.choices, entry.2.hasContent → entry.2.content ≠ "" := by
    rw [map_map, map_inj_left]
    exact forall₂_congr fun entry _ => finalize_replayed_iff entry.2 entry.1
  rw [← hmap]
  constructor
  · intro hsame
    have hmember := congrArg (fun aggregate => aggregate.get "choices") hsame
    simp only [get_finalize] at hmember
    simpa [fieldOf, replayedWith] using hmember
  · intro hsame
    simp only [StreamingState.finalize, replayedWith, hsame, hobject]

theorem finalize_eq_obj (state : StreamingState) : ∃ entries, state.finalize = .obj entries ∧
    Sorted entries ∧ ∀ key, get entries key = state.finalize.get key :=
  ⟨_, rfl, sorted_insertFields List.Pairwise.nil _, fun _ => rfl⟩

/-- A finalized stream has no metadata to strip. -/
theorem stripStreamMetadata_finalize (state : StreamingState) :
    stripStreamMetadata state.finalize = state.finalize := by
  obtain ⟨entries, hentries, hsorted, hget⟩ := finalize_eq_obj state
  have hfingerprint : get entries "system_fingerprint" = none := by
    rw [hget, get_finalize]
    simp [fieldOf]
  have htier : get entries "service_tier" = none := by
    rw [hget, get_finalize]
    simp [fieldOf]
  have hchoices : get entries "choices" =
      some (.arr (state.choices.map fun choice => choice.2.finalize choice.1)) := by
    rw [hget, get_finalize]
    simp [fieldOf]
  have hstrip : (state.choices.map fun choice => choice.2.finalize choice.1).map
      stripChoiceMetadata = state.choices.map fun choice => choice.2.finalize choice.1 := by
    rw [map_map]
    exact map_congr_left fun _ _ => rfl
  simp only [hentries, stripStreamMetadata, hsorted.erase_of_get hfingerprint,
    hsorted.erase_of_get htier, hchoices, hstrip, hsorted.insert_of_get hchoices]

theorem detectResponseSurface_finalize (state : StreamingState) :
    detectResponseSurface state.finalize = some .openAIChat := by
  obtain ⟨entries, hentries, -, hget⟩ := finalize_eq_obj state
  have hdetect : ∀ surface : ProviderSurface,
      surface.detectResponse entries = decide (surface = .openAIChat) := by
    intro surface
    cases surface <;>
      simp [ProviderSurface.detectResponse, ProviderSurface.detectOciResponse,
        ProviderSurface.detectGeminiResponse, hget, get_finalize, fieldOf, isArray,
        asArray]
  rw [hentries, detectResponseSurface, asObject, Option.bind_some]
  simp only [hdetect]
  rfl

/-- A collected stream is replayed without loss exactly when no choice was left with content that
is empty. -/
theorem replayIsLossy_finalize_iff (others : ProviderSurface → StreamingCodec)
    (printJson : Json → String) (hstate : state.Collected)
    (hobject : state.object = some "chat.completion.chunk") (hchoices : state.choices ≠ []) :
    replayIsLossy others printJson state.finalize none = false ↔
      ∀ entry ∈ state.choices, entry.2.hasContent → entry.2.content ≠ "" := by
  have hcollect := collect_synthesizeChatChunks hstate hchoices
  have hfold : ∀ (chunks : List Json) (current : StreamingState),
      chunks.foldlM streamingCodec.collect current =
        .ok (chunks.foldl StreamingState.observe current) := by
    intro chunks
    induction chunks with
    | nil => exact fun _ => rfl
    | cons chunk chunks ih => exact fun current => ih (current.observe chunk)
  rw [← finalize_replayedWith_iff hobject, ← hcollect]
  have hchunks : synthesizeReplayChunks printJson state.finalize none =
      some (synthesizeChatChunks state.finalize) := by
    rw [synthesizeReplayChunks, detectResponseSurface_finalize]
    rfl
  have hstate' : (synthesizeChatChunks state.finalize).foldlM streamingCodec.collect
      streamingCodec.init = .ok (collect (synthesizeChatChunks state.finalize)) := hfold _ _
  simp only [replayIsLossy, detectResponseSurface_finalize, hchunks, Option.getD_some,
    NemoRelay.streamingCodec, hstate']
  show decide (stripStreamMetadata (collect (synthesizeChatChunks state.finalize)).finalize ≠
    stripStreamMetadata state.finalize) = false ↔ _
  rw [stripStreamMetadata_finalize, stripStreamMetadata_finalize, decide_eq_false_iff_not, not_not]

end OpenAIChatCodec

namespace ResponseCache

open OpenAIChatCodec

/-! ### The tee -/

def toolFunctionHasUncollectedFields (function : Object) : Bool :=
  function.any fun member => !member.2.isNull &&
    match member.1 with
    | "name" | "arguments" => !member.2.isString
    | _ => true

def toolCallIsUncollected (toolCall : Json) : Bool :=
  toolCall.asObject.all fun toolCall => toolCall.any fun member => !member.2.isNull &&
    match member.1 with
    | "index" => member.2.asU64.isNone
    | "id" | "type" => !member.2.isString
    | "function" => member.2.asObject.all toolFunctionHasUncollectedFields
    | _ => true

def deltaHasUncollectedFields (delta : Object) : Bool :=
  delta.any fun member => !member.2.isNull &&
    match member.1 with
    | "role" | "content" => !member.2.isString
    | "tool_calls" => member.2.asArray.all fun calls => calls.any toolCallIsUncollected
    | _ => true

def choiceIsUncollected (choice : Json) : Bool :=
  choice.asObject.all fun choice => choice.any fun member => !member.2.isNull &&
    match member.1 with
    | "index" => member.2.asU64.isNone
    | "finish_reason" => !member.2.isString
    | "delta" => member.2.asObject.all deltaHasUncollectedFields
    | _ => true

def membersAreUncollected (chunk : Object) : Bool :=
  chunk.any fun member => !member.2.isNull &&
    match member.1 with
    | "id" | "object" | "model" => !member.2.isString
    | "created" => member.2.asU64.isNone
    | "usage" | "choices" => false
    | _ => true

/-- Only Chat chunks carry `choices`; the chunks of other surfaces are not looked at. -/
def chunkHasUncollectedResponseFields (chunk : Json) : Bool :=
  chunk.asObject.all fun chunk =>
    match SortedMap.get chunk "choices" with
    | none => false
    | some choices =>
      membersAreUncollected chunk ||
        !choices.isNull && choices.asArray.all fun choices => choices.any choiceIsUncollected

def chunkIsInbandError (chunk : Json) : Bool :=
  ((chunk.get "error").any fun error => !error.isNull) ||
    ((chunk.get "type").bind asStr).any fun type => type ∈ ["error", "response.failed"]

def isThinking (block : Json) : Bool :=
  (blockType block).any fun type => type ∈ ["thinking", "redacted_thinking"]

/-- A choice without text and without tool calls. -/
def choiceIsEmpty (choice : Json) : Bool :=
  let message := choice.get "message"
  let content := message.bind fun message => message.get "content"
  let toolCalls := (message.bind fun message => message.get "tool_calls").bind asArray
  (content.all fun content => content.isNull || content.asStr = some "") &&
    toolCalls.all List.isEmpty

def aggregateReplayLossy (aggregate : Json) : Bool :=
  (((aggregate.get "content").bind asArray).any fun content => content.any isThinking) ||
    ((aggregate.get "choices").bind asArray).any fun choices =>
      !choices.isEmpty && choices.all choiceIsEmpty

def aggregateHasNoContent (aggregate : Json) : Bool :=
  ["choices", "output", "content"].all fun key =>
    ((aggregate.get key).bind asArray).all List.isEmpty

structure StreamCompletion where
  sawStopEvent : Bool := false
  choicesSeen : Finset Nat := ∅
  choicesFinished : Finset Nat := ∅

namespace StreamCompletion

variable (completion : StreamCompletion)

def observeChoice (choice : Json) : StreamCompletion :=
  { completion with
    choicesSeen := insert (indexOf choice) completion.choicesSeen
    choicesFinished :=
      if (choice.get "finish_reason").any fun reason => !reason.isNull then
        insert (indexOf choice) completion.choicesFinished
      else completion.choicesFinished }

def observe (chunk : Json) : StreamCompletion :=
  let completion := (itemsOf chunk "choices").foldl observeChoice completion
  { completion with
    sawStopEvent := completion.sawStopEvent || ((chunk.get "type").bind asStr).any fun type =>
        type ∈ ["message_stop", "response.completed"] }

def isTerminal : Bool :=
  completion.sawStopEvent ||
    completion.choicesSeen ≠ ∅ && completion.choicesSeen = completion.choicesFinished

end StreamCompletion

/-- The tee of a Chat stream, without an Anthropic context. -/
structure Tee where
  collector : StreamingState := {}
  collectorFailed : Bool := false
  completion : StreamCompletion := {}

namespace Tee

/-- A chunk that cannot be kept is not collected, and nothing is stored after it. -/
def observe (tee : Tee) (chunk : Json) : Tee :=
  let failed := chunkIsInbandError chunk || chunkHasUncollectedResponseFields chunk
  { collector := if failed then tee.collector else tee.collector.observe chunk
    collectorFailed := tee.collectorFailed || failed
    completion := tee.completion.observe chunk }

/-- What is stored when the stream ends without an error. -/
def stored (tee : Tee) : Option Json :=
  let aggregate := tee.collector.finalize
  if !tee.collectorFailed && tee.completion.isTerminal && !aggregateHasNoContent aggregate &&
      !aggregateReplayLossy aggregate then some aggregate
  else none

end Tee

/-- A complete Chat stream whose chunks are all collected and whose aggregate is accepted. -/
structure StoredChatStream (chunks : List Json) : Prop where
  object : ∀ chunk ∈ chunks, chunk.get "object" = some (.str "chat.completion.chunk")
  noError : ∀ chunk ∈ chunks, chunkIsInbandError chunk = false
  collected : ∀ chunk ∈ chunks, chunkHasUncollectedResponseFields chunk = false
  finished : (chunks.foldl StreamCompletion.observe {}).choicesSeen =
    (chunks.foldl StreamCompletion.observe {}).choicesFinished
  content : aggregateHasNoContent (collect chunks).finalize = false
  faithful : aggregateReplayLossy (collect chunks).finalize = false

section Stored

variable {chunks : List Json}

open StreamCompletion

theorem foldl_tee (tee : Tee) (herror : ∀ chunk ∈ chunks, chunkIsInbandError chunk = false)
    (hcollected : ∀ chunk ∈ chunks, chunkHasUncollectedResponseFields chunk = false) :
    chunks.foldl Tee.observe tee =
      { collector := chunks.foldl StreamingState.observe tee.collector
        collectorFailed := tee.collectorFailed
        completion := chunks.foldl observe tee.completion } := by
  induction chunks generalizing tee with
  | nil => rfl
  | cons chunk chunks ih =>
    obtain ⟨herror₁, herror⟩ := forall_mem_cons.mp herror
    obtain ⟨hcollected₁, hcollected⟩ := forall_mem_cons.mp hcollected
    rw [foldl_cons, ih _ herror hcollected]
    simp [Tee.observe, herror₁, hcollected₁]

theorem choices_of_content {state : StreamingState}
    (h : aggregateHasNoContent state.finalize = false) : state.choices ≠ [] := by
  intro hempty
  rw [aggregateHasNoContent, all_eq_false] at h
  obtain ⟨key, hkey, hcontent⟩ := h
  apply hcontent
  simp only [mem_cons, not_mem_nil, or_false] at hkey
  obtain rfl | rfl | rfl := hkey <;> simp [get_finalize, fieldOf, asArray, hempty]

theorem object_collect (hchunks : chunks ≠ [])
    (hobject : ∀ chunk ∈ chunks, chunk.get "object" = some (.str "chat.completion.chunk")) :
    (collect chunks).object = some "chat.completion.chunk" := by
  cases chunks with
  | nil => exact absurd rfl hchunks
  | cons chunk chunks =>
    refine List.foldlRecOn chunks StreamingState.observe
      (motive := fun state => state.object = some "chat.completion.chunk") ?_ ?_
    · have hfirst := hobject chunk mem_cons_self
      show none.or ((stringOf chunk "object").filter _) = _
      rw [stringOf, hfirst]
      rfl
    · intro state h later _
      show state.object.or _ = _
      rw [h, Option.some_or]

theorem mem_choicesSeen (items : List Json) (completion : StreamCompletion) (index : Nat) :
    index ∈ (items.foldl observeChoice completion).choicesSeen ↔
      index ∈ completion.choicesSeen ∨ ∃ item ∈ items, indexOf item = index := by
  induction items generalizing completion with
  | nil => simp
  | cons item items ih =>
    rw [foldl_cons, ih, exists_mem_cons_iff, ← or_assoc]
    refine or_congr_left ?_
    show index ∈ insert (indexOf item) completion.choicesSeen ↔ _
    rw [Finset.mem_insert, or_comm, eq_comm]

theorem choicesSeen_foldl (completion : StreamCompletion) (index : Nat) :
    index ∈ (chunks.foldl observe completion).choicesSeen ↔
      index ∈ completion.choicesSeen ∨
        ∃ item ∈ chunks.flatMap fun chunk => itemsOf chunk "choices", indexOf item = index := by
  induction chunks generalizing completion with
  | nil => simp
  | cons chunk chunks ih =>
    rw [foldl_cons, ih, flatMap_cons]
    have hchunk : index ∈ (completion.observe chunk).choicesSeen ↔
        index ∈ completion.choicesSeen ∨ ∃ item ∈ itemsOf chunk "choices", indexOf item = index :=
      mem_choicesSeen _ completion index
    rw [hchunk, or_assoc]
    simp only [mem_append, or_and_right, exists_or]

/-- The tee stores the aggregate of such a stream. -/
theorem StoredChatStream.stored (h : StoredChatStream chunks) :
    (chunks.foldl Tee.observe {}).stored = some (collect chunks).finalize := by
  have hchoices := choices_of_content h.content
  have hseen : (chunks.foldl observe {}).choicesSeen ≠ ∅ := by
    rw [choices_collect] at hchoices
    cases hitems : chunks.flatMap fun chunk => itemsOf chunk "choices" with
    | nil =>
      rw [hitems] at hchoices
      exact absurd rfl hchoices
    | cons item items =>
      refine Finset.ne_empty_of_mem ((choicesSeen_foldl {} (indexOf item)).mpr (Or.inr ?_))
      exact ⟨item, hitems ▸ mem_cons_self, rfl⟩
  have hterminal : (chunks.foldl observe {}).isTerminal = true := by
    rw [isTerminal, Bool.or_eq_true, Bool.and_eq_true, decide_eq_true_eq, decide_eq_true_eq]
    exact Or.inr ⟨hseen, h.finished⟩
  rw [foldl_tee _ h.noError h.collected]
  show (⟨collect chunks, false, chunks.foldl observe {}⟩ : Tee).stored = _
  simp only [Tee.stored, hterminal, h.content, h.faithful]
  rfl

/-- Which of the Chat streams that are stored can be replayed: those in which every choice that is
sent content is sent a fragment that is not empty. -/
theorem chat_replay_faithful_iff (others : ProviderSurface → StreamingCodec)
    (printJson : Json → String) (h : StoredChatStream chunks) :
    replayIsLossy others printJson (collect chunks).finalize none = false ↔
      ∀ index, contentFragments chunks index ≠ [] →
        ∃ fragment ∈ contentFragments chunks index, fragment ≠ "" := by
  have hchoices := choices_of_content h.content
  have hchunks : chunks ≠ [] := by
    rintro rfl
    exact hchoices rfl
  rw [← no_empty_content_iff]
  exact replayIsLossy_finalize_iff others printJson (collected_collect chunks)
    (object_collect hchunks h.object) hchoices

end Stored

/-- A chunk of a stream with one choice. -/
def sampleChunk (delta finishReason : Json) : Json :=
  .obj [("choices", .arr [chatChoice 0 delta finishReason]), ("id", .str "chatcmpl-1"),
    ("object", .str "chat.completion.chunk")]

/-- A tool call after the given content. -/
def toolCallStream (content : String) : List Json :=
  [sampleChunk (.obj [("content", .str content), ("role", .str "assistant")]) .null,
    sampleChunk (.obj [("tool_calls", .arr [.obj
      [("function", .obj [("arguments", .str "[]"), ("name", .str "look_up")]),
        ("id", .str "call_1"), ("index", indexJson 0), ("type", .str "function")]])]) .null,
    sampleChunk (.obj []) (.str "tool_calls")]

def chatCodecOnly : ProviderSurface → StreamingCodec := fun _ => OpenAIChatCodec.streamingCodec

theorem toolCallStream_replays :
    StoredChatStream (toolCallStream "I look it up.") ∧
      replayIsLossy chatCodecOnly (fun _ => "") (collect (toolCallStream "I look it up.")).finalize
        none = false := by
  have hstored : StoredChatStream (toolCallStream "I look it up.") :=
    ⟨by decide, by decide, by decide, by decide, by decide, by decide⟩
  refine ⟨hstored, (chat_replay_faithful_iff _ _ hstored).mpr fun index hindex => ?_⟩
  by_cases hzero : index = 0
  · rw [hzero]
    exact ⟨"I look it up.", by decide, by decide⟩
  · refine absurd (filterMap_eq_nil_iff.mpr fun item hitem => ?_) hindex
    obtain ⟨hmem, hitem⟩ := mem_filter.mp hitem
    have hall : ∀ item ∈ (toolCallStream "I look it up.").flatMap
      fun chunk => itemsOf chunk "choices", indexOf item = 0 := by decide
    exact absurd ((of_decide_eq_true hitem).symm.trans (hall item hmem)) hzero

/-- A tool call after empty content is stored, but it cannot be replayed. -/
theorem toolCallStream_with_empty_content_is_lossy :
    StoredChatStream (toolCallStream "") ∧
      ((toolCallStream "").foldl Tee.observe {}).stored =
        some (collect (toolCallStream "")).finalize ∧
      replayIsLossy chatCodecOnly (fun _ => "") (collect (toolCallStream "")).finalize none =
        true := by
  have hstored : StoredChatStream (toolCallStream "") :=
    ⟨by decide, by decide, by decide, by decide, by decide, by decide⟩
  exact ⟨hstored, hstored.stored, by decide⟩

end ResponseCache

end NemoRelay

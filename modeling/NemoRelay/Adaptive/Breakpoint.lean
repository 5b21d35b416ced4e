import NemoRelay.Adaptive.RequestSurface
import NemoRelay.Codec.Anthropic.Messages
import NemoRelay.Codec.OpenAiChat.Request
import NemoRelay.Lib.Numbering

/-!
# Where a cache breakpoint goes

Every block of a prompt that was built from a decoded Anthropic request comes from one element of
the request body. A breakpoint at a block should annotate that element.
-/

namespace NemoRelay.Acg

open List hiding get insert

open Option hiding get

open AnthropicMessagesCodec NemoRelay.Acg.Message SortedMap

/-! ### Origins -/

/-- An element of a request body. `contract` is the response format. -/
inductive Origin
  | instructions
  | tool (index : Nat)
  | contract
  | message (index : Nat)
  deriving DecidableEq

namespace Origin

def toolIndex? : Origin → Option Nat
  | tool index => some index
  | _ => none

def messageIndex? : Origin → Option Nat
  | message index => some index
  | _ => none

end Origin

/-- The number of system messages before the others. -/
def leadingSystem (request : AnnotatedLlmRequest) : Nat :=
  (request.messages.takeWhile isSystem).length

/-- The elements that the blocks of a prompt come from, in order. -/
def origins (request : AnnotatedLlmRequest) : List Origin :=
  (request.instructions.map fun _ => Origin.instructions).toList ++
    ((List.range' 0 (leadingSystem request)).map .message ++
      (List.range' 0 (request.tools.getD []).length).map .tool ++
      ((responseFormat request).map fun _ => Origin.contract).toList ++
      (List.range' (leadingSystem request)
        (request.messages.dropWhile isSystem).length).map .message)

open Origin

variable (request : AnnotatedLlmRequest)

theorem filterMap_toolIndex :
    (origins request).filterMap toolIndex? = List.range (request.tools.getD []).length := by
  rw [origins, range_eq_range']
  cases request.instructions <;> cases responseFormat request <;>
    simp [toolIndex?, filterMap_cons, filterMap_map, Function.comp_def]

theorem filterMap_messageIndex :
    (origins request).filterMap messageIndex? = List.range request.messages.length := by
  have hlength : leadingSystem request + (request.messages.dropWhile isSystem).length =
      request.messages.length := by
    rw [leadingSystem, ← length_append, takeWhile_append_dropWhile]
  rw [origins, range_eq_range', ← hlength, ← range'_append_1]
  cases request.instructions <;> cases responseFormat request <;>
    simp [messageIndex?, filterMap_cons, filterMap_map, Function.comp_def]

/-! ### Blocks and their origins -/

theorem forall₂_flatten {α β ε : Type} {f : α → Except ε (List β)} {items : List α}
    {lists : List (List β)} (h : items.mapM f = .ok lists)
    (hone : ∀ a ∈ items, ∀ list, f a = .ok list → ∃ b, list = [b]) :
    List.Forall₂ (fun a b => f a = .ok [b]) items lists.flatten := by
  rw [mapM_eq_ok] at h
  induction h with
  | nil => exact .nil
  | @cons a list items lists hhead _ ih =>
    obtain ⟨b, rfl⟩ := hone a mem_cons_self list hhead
    exact .cons hhead (ih fun a ha => hone a (mem_cons_of_mem _ ha))

open Numbering

section Built

variable [Canonicalization]

/-- The draft that an element gives. -/
def BuiltFrom (request : AnnotatedLlmRequest) (structuredOutput : Option String) (draft : Draft) :
    Origin → Prop
  | .instructions => instructionsDrafts request = [draft]
  | .tool index =>
    ∃ tool, (request.tools.getD [])[index]? = some tool ∧ toolDrafts tool = .ok [draft]
  | .contract => contractDrafts structuredOutput = [draft]
  | .message index =>
    ∃ message, request.messages[index]? = some message ∧ messageDrafts message = .ok [draft]

/-- A message that gives one block, with the role of the system only if it is a system message. -/
def GivesOneBlock (message : Message) : Prop :=
  ∀ drafts, messageDrafts message = .ok drafts → ∃ draft, drafts = [draft] ∧
    draft.contentType = .text ∧ (draft.role = .system ↔ isSystem message = true)

variable {request : AnnotatedLlmRequest}

/-- Block by block, what a prompt was built from. -/
theorem built_of_buildPromptIr {ir : PromptIR} (h : buildPromptIr request = .ok ir)
    (hmessages : ∀ message ∈ request.messages, GivesOneBlock message) :
    ∃ structuredOutput drafts,
      (responseFormat request).mapM canonicalizeValue = .ok structuredOutput ∧
      ir.blocks = drafts.mapIdx Draft.block ∧
      List.Forall₂ (fun origin draft => BuiltFrom request structuredOutput draft origin)
        (origins request) drafts := by
  obtain ⟨structuredOutput, layout, hcontract, hlayout, hblocks⟩ := buildPromptIr_eq_ok h
  refine ⟨structuredOutput, _, hcontract, hblocks, ?_⟩
  have hone : ∀ message ∈ request.messages, ∀ drafts, messageDrafts message = .ok drafts →
      ∃ draft, drafts = [draft] := by
    intro message hmessage drafts hdrafts
    obtain ⟨draft, hdraft, -⟩ := hmessages message hmessage drafts hdrafts
    exact ⟨draft, hdraft⟩
  let built (origin : Origin) (draft : Draft) := BuiltFrom request structuredOutput draft origin
  have hinstructions : List.Forall₂ built
      (request.instructions.map fun _ => instructions).toList (instructionsDrafts request) := by
    cases hsystem : request.instructions with
    | none => simp [instructionsDrafts, hsystem]
    | some content =>
      simp only [instructionsDrafts, hsystem]
      exact .cons (by simp [built, BuiltFrom, instructionsDrafts, hsystem]) .nil
  have hcontracts : List.Forall₂ built
      ((responseFormat request).map fun _ => contract).toList layout.contract := by
    rw [hlayout.contract]
    cases hformat : responseFormat request with
    | none =>
      rw [hformat] at hcontract
      cases hcontract
      exact .nil
    | some value =>
      rw [hformat, mapM_some, map_eq_ok] at hcontract
      obtain ⟨text, -, rfl⟩ := hcontract
      exact .cons rfl .nil
  have hsplit := takeWhile_append_dropWhile (p := isSystem) (l := request.messages)
  have hleading := forall₂_range (S := built) message
    (forall₂_flatten hlayout.leading fun message hmessage =>
      hone message (takeWhile_subset _ hmessage)) 0 fun k message draft hk hdraft => by
    refine ⟨message, ?_, hdraft⟩
    have hlt := (List.getElem?_eq_some_iff.mp hk).1
    rw [Nat.zero_add, ← hsplit, getElem?_append_left hlt, hk]
  have hconversation := forall₂_range (S := built) message
    (forall₂_flatten hlayout.conversation fun message hmessage =>
      hone message (dropWhile_subset _ hmessage)) (leadingSystem request)
    fun k message draft hk hdraft => by
      refine ⟨message, ?_, hdraft⟩
      have hindex : leadingSystem request + k - (request.messages.takeWhile
          isSystem).length = k := Nat.add_sub_cancel_left _ _
      rw [← hsplit, getElem?_append_right (Nat.le_add_right (leadingSystem request) k), hindex, hk]
  have htools := forall₂_range (S := built) tool
    (forall₂_flatten hlayout.schemas fun tool _ drafts hdrafts => by
      obtain ⟨canonical, -, hdraft⟩ := map_eq_ok.mp hdrafts
      exact ⟨_, hdraft.symm⟩) 0 fun k tool draft hk hdraft => ⟨tool, by rwa [Nat.zero_add], hdraft⟩
  exact rel_append hinstructions
    (rel_append (rel_append (rel_append hleading htools) hcontracts) hconversation)

theorem givesOneBlock_of_reads {obj : Object} {message : Message}
    (h : ReadsMessage obj message) : GivesOneBlock message := by
  intro drafts hdrafts
  cases h with
  | user _ | system _ | assistant _ =>
    cases hdrafts
    exact ⟨_, rfl, rfl, by simp [textDraft, isSystem]⟩
  | native =>
    obtain ⟨canonical, -, rfl⟩ := map_eq_ok.mp hdrafts
    exact ⟨_, rfl, rfl, by simp [textDraft, isSystem]⟩

/-! ### Counting blocks -/

/-- The block that an element gives. -/
def Produces (request : AnnotatedLlmRequest) (origin : Origin) (block : PromptBlock) : Prop :=
  ∃ structuredOutput draft, (responseFormat request).mapM canonicalizeValue = .ok structuredOutput ∧
    BuiltFrom request structuredOutput draft origin ∧ block = draft.block block.sequenceIndex

/-- What the surface sees of a block. -/
structure Shows (request : AnnotatedLlmRequest) (origin : Origin) (block : PromptBlock) : Prop where
  tool : block.contentType = .toolSchema ↔ origin.toolIndex?.isSome
  system : block.role ≠ .system ↔ ∃ index message, origin = .message index ∧
    request.messages[index]? = some message ∧ isSystem message = false

theorem shows_of_produces (hmessages : ∀ message ∈ request.messages, GivesOneBlock message)
    {origin : Origin} {block : PromptBlock} (h : Produces request origin block) :
    Shows request origin block := by
  obtain ⟨structuredOutput, draft, -, hbuilt, hblock⟩ := h
  rw [hblock]
  cases origin with
  | instructions =>
    simp only [BuiltFrom, instructionsDrafts] at hbuilt
    cases hsystem : request.instructions with
    | none => simp [hsystem] at hbuilt
    | some content =>
      simp only [hsystem, map_some, toList_some, List.cons.injEq, and_true] at hbuilt
      subst hbuilt
      constructor <;> simp [Draft.block, textDraft, toolIndex?]
  | tool index =>
    obtain ⟨tool, -, hdraft⟩ := hbuilt
    obtain ⟨canonical, -, hdraft⟩ := map_eq_ok.mp hdraft
    cases hdraft
    constructor <;> simp [Draft.block, toolIndex?]
  | contract =>
    cases structuredOutput with
    | none => cases hbuilt
    | some content =>
      cases hbuilt
      constructor <;> simp [Draft.block, toolIndex?]
  | message index =>
    obtain ⟨message, hmessage, hdraft⟩ := hbuilt
    obtain ⟨_, hone, htext, hrole⟩ :=
      hmessages message (mem_of_getElem? hmessage) [draft] hdraft
    cases hone
    constructor
    · simp [Draft.block, toolIndex?, htext]
    · simp [Draft.block, hrole, hmessage]

theorem produces_of_buildPromptIr {ir : PromptIR} (h : buildPromptIr request = .ok ir)
    (hmessages : ∀ message ∈ request.messages, GivesOneBlock message) :
    List.Forall₂ (Produces request) (origins request) ir.blocks := by
  obtain ⟨structuredOutput, drafts, hcontract, hblocks, hdrafts⟩ :=
    built_of_buildPromptIr h hmessages
  rw [forall₂_iff_get] at hdrafts ⊢
  rw [hblocks]
  refine ⟨by rw [length_mapIdx, hdrafts.1], fun i hi hi' => ?_⟩
  rw [length_mapIdx] at hi'
  refine ⟨structuredOutput, drafts.get ⟨i, hi'⟩, hcontract, hdrafts.2 i hi hi', ?_⟩
  simp [Draft.block]

end Built

variable {index : Nat}

section Counting

variable {request : AnnotatedLlmRequest} {ir : PromptIR}

theorem countP_take_blocks (hshows : List.Forall₂ (Shows request) (origins request) ir.blocks)
    {p : PromptBlock → Bool} {q : Origin → Bool}
    (hpq : ∀ origin block, Shows request origin block → q origin = p block) (i : Nat) :
    (ir.blocks.take i).countP p = ((origins request).take i).countP q := by
  have hfilter := rel_filter (p := q) (q := p)
    (fun origin block hshow => by simp [hpq origin block hshow]) (forall₂_take i hshows)
  rw [countP_eq_length_filter, countP_eq_length_filter, hfilter.length_eq]

/-- The messages before an index that are not system messages. -/
def conversationIndex (request : AnnotatedLlmRequest) (index : Nat) : Nat :=
  (request.messages.take index).countP fun message => !isSystem message

theorem countP_range_eq (request : AnnotatedLlmRequest) (index : Nat) :
    (List.range index).countP (fun j => request.messages[j]?.any fun message =>
      !isSystem message) = conversationIndex request index := by
  induction index with
  | zero => simp [conversationIndex]
  | succ index ih =>
    rw [range_succ, countP_append, ih, conversationIndex, conversationIndex, take_add_one]
    cases hmessage : request.messages[index]? <;> simp [hmessage]

variable (hshows : List.Forall₂ (Shows request) (origins request) ir.blocks) {i : Nat}
  {block : PromptBlock}
include hshows

/-- Counting schemas finds the tool of a block. -/
theorem promptIrToolIndex_eq (hblock : ir.blocks[i]? = some block)
    (horigin : (origins request)[i]? = some (.tool index))
    (hshow : Shows request (.tool index) block) : promptIrToolIndex ir i = index := by
  have hschema : block.contentType = .toolSchema := hshow.tool.mpr rfl
  rw [promptIrToolIndex, countP_take_succ hblock (by simpa using hschema),
    countP_take_blocks hshows (q := fun origin => origin.toolIndex?.isSome)
      (fun origin block hshow => by simp [hshow.tool]),
    countP_take (filterMap_toolIndex request) horigin rfl
      (fun origin _ => by cases origin.toolIndex? <;> rfl)]
  simp

/-- Counting the blocks that are neither schemas nor of the system counts the messages that are not
system messages. -/
theorem promptIrMessageIndex_eq {message : Message} (hblock : ir.blocks[i]? = some block)
    (horigin : (origins request)[i]? = some (.message index))
    (hshow : Shows request (.message index) block)
    (hmessage : request.messages[index]? = some message)
    (hsystem : isSystem message = false) :
    promptIrMessageIndex ir i false = conversationIndex request index := by
  have hconversation : ∀ origin block, Shows request origin block →
      (origin.messageIndex?.any fun j => request.messages[j]?.any fun message =>
        !isSystem message) =
      (block.contentType ≠ .toolSchema && (false || block.role ≠ .system)) := by
    intro origin block hshow
    rw [Bool.eq_iff_iff]
    simp only [Bool.false_or, Bool.and_eq_true, decide_eq_true_eq, hshow.tool, hshow.system, ne_eq]
    cases origin with
    | instructions | tool _ | contract => simp [messageIndex?]
    | message index =>
      cases hat : request.messages[index]? <;>
        simp [messageIndex?, toolIndex?, hat]
  rw [promptIrMessageIndex, countP_take_succ hblock, countP_take_blocks hshows hconversation,
    countP_take (filterMap_messageIndex request) horigin rfl fun _ _ => rfl,
    countP_range_eq]
  rw [← hconversation _ _ hshow]
  simp [messageIndex?, hmessage, hsystem]

end Counting

/-! ### Breakpoints at elements -/

section Marking

open AnthropicMessages

/-- The body with a breakpoint at an element, and nothing else changed. Instructions and messages
have it at the end of their content, where that is possible. -/
def AddsCacheControl (body body' : Object) : Origin → Prop
  | .instructions => ∃ system cached, get body "system" = some system ∧
      cacheContent system = some cached ∧ body' = insert body "system" cached
  | .tool index => ∃ tools entries, get body "tools" = some (.arr tools) ∧
      tools[index]? = some (.obj entries) ∧
      body' = insert body "tools" (.arr (tools.set index (withCacheControl entries)))
  | .contract => ∃ entries, get body "response_format" = some (.obj entries) ∧
      body' = insert body "response_format" (withCacheControl entries)
  | .message index => ∃ messages message cached,
      get body "messages" = some (.arr messages) ∧ messages[index]? = some message ∧
      cacheMessage message = some cached ∧
      body' = insert body "messages" (.arr (messages.set index cached))

/-- A breakpoint at the element would change nothing. -/
def Inert (body : Object) (origin : Origin) : Prop :=
  ∀ body', AddsCacheControl body body' origin → body' = body

variable {body body' body'' : Object} {origin other : Origin}

theorem AddsCacheControl.unique (h : AddsCacheControl body body' origin)
    (h' : AddsCacheControl body body'' origin) : body' = body'' := by
  cases origin with
  | instructions =>
    obtain ⟨system, cached, hsystem, hcached, rfl⟩ := h
    obtain ⟨system', cached', hsystem', hcached', rfl⟩ := h'
    grind
  | tool index =>
    obtain ⟨tools, entries, htools, hentries, rfl⟩ := h
    obtain ⟨tools', entries', htools', hentries', rfl⟩ := h'
    grind
  | contract =>
    obtain ⟨entries, hentries, rfl⟩ := h
    obtain ⟨entries', hentries', rfl⟩ := h'
    grind
  | message index =>
    obtain ⟨messages, message, cached, hmessages, hmessage, hcached, rfl⟩ := h
    obtain ⟨messages', message', cached', hmessages', hmessage', hcached', rfl⟩ := h'
    grind

/-- The member of a body that holds an element. -/
def Origin.key : Origin → String
  | instructions => "system"
  | tool _ => "tools"
  | contract => "response_format"
  | message _ => "messages"

theorem AddsCacheControl.insert_key (h : AddsCacheControl body body' origin) :
    ∃ value, body' = insert body origin.key value := by
  cases origin with
  | instructions =>
    obtain ⟨_, cached, -, -, h⟩ := h
    exact ⟨cached, h⟩
  | tool index =>
    obtain ⟨_, _, -, -, h⟩ := h
    exact ⟨_, h⟩
  | contract =>
    obtain ⟨_, -, h⟩ := h
    exact ⟨_, h⟩
  | message index =>
    obtain ⟨_, _, _, -, -, -, h⟩ := h
    exact ⟨_, h⟩

theorem Origin.key_eq (hne : origin ≠ other) (h : origin.key = other.key) :
    ∃ i j, i ≠ j ∧
      (origin = .tool i ∧ other = .tool j ∨ origin = .message i ∧ other = .message j) := by
  cases origin <;> cases other <;> simp_all [key]

variable {i : Nat}

/-- A list that has two members replaced with the same result has not changed. -/
theorem set_eq_self {α : Type} {l : List α} {j : Nat} {a b : α} (hij : i ≠ j)
    (h : l.set i a = l.set j b) : l.set i a = l := by
  refine ext_getElem? fun n => ?_
  by_cases hn : i = n
  · rw [h, getElem?_set_ne (hn ▸ hij.symm)]
  · rw [getElem?_set_ne hn]

theorem insert_set_eq_self (hbody : Sorted body) {key : String} {items : List Json}
    (hget : get body key = some (.arr items)) {j : Nat} (hij : i ≠ j) {a b : Json}
    (h : insert body key (.arr (items.set i a)) = insert body key (.arr
      (items.set j b))) : insert body key (.arr (items.set i a)) = body := by
  have hmember := congrArg (get · key) h
  simp only [get_insert, if_true, Option.some.injEq, Json.arr.injEq] at hmember
  rw [set_eq_self hij hmember]
  exact hbody.insert_of_get hget

/-- Breakpoints at different elements give different bodies, if they change anything. -/
theorem AddsCacheControl.eq_self (hbody : Sorted body)
    (h : AddsCacheControl body body' origin) (h' : AddsCacheControl body body' other)
    (hne : origin ≠ other) : body' = body := by
  by_cases hkey : origin.key = other.key
  · obtain ⟨i, j, hij, ⟨rfl, rfl⟩ | ⟨rfl, rfl⟩⟩ := key_eq hne hkey
    · obtain ⟨tools, entries, htools, -, rfl⟩ := h
      obtain ⟨tools', entries', htools', -, heq⟩ := h'
      obtain rfl : tools = tools' := by simpa [htools] using htools'
      exact insert_set_eq_self hbody htools hij heq
    · obtain ⟨messages, _, cached, hmessages, -, -, rfl⟩ := h
      obtain ⟨messages', _, cached', hmessages', -, -, heq⟩ := h'
      obtain rfl : messages = messages' := by simpa [hmessages] using hmessages'
      exact insert_set_eq_self hbody hmessages hij heq
  · obtain ⟨value, rfl⟩ := h.insert_key
    obtain ⟨value', heq⟩ := h'.insert_key
    exact hbody.insert_eq_self hkey heq

variable {injected : Option Object}

/-- A breakpoint that was put at an element is one at another element if nothing had to change for
either. -/
theorem addsCacheControl_getD_iff (hbody : Sorted body)
    (hinjected : ∀ body', injected = some body' ↔ AddsCacheControl body body' other) :
    AddsCacheControl body (injected.getD body) origin ↔
      (other = origin ∧ injected.isSome) ∨
        (AddsCacheControl body body origin ∧ Inert body other) := by
  cases injected with
  | none =>
    have hinert : Inert body other := fun body' h => absurd ((hinjected body').mpr h) nofun
    simp [hinert]
  | some injected =>
    have hother := (hinjected injected).mp rfl
    simp only [isSome_some, and_true]
    constructor
    · intro h
      by_cases hne : other = origin
      · exact .inl hne
      · obtain rfl := hother.eq_self hbody h hne
        exact .inr ⟨h, fun body' h' => h'.unique hother⟩
    · rintro (rfl | ⟨h, hinert⟩)
      · exact hother
      · rwa [hinert injected hother]

/-! ### What the surface finds -/

theorem injectCacheControlSystem_eq_some :
    injectCacheControlSystem body = some body' ↔ AddsCacheControl body body' .instructions := by
  simp [injectCacheControlSystem, AddsCacheControl, bind_eq_some_iff, @eq_comm _ body']

theorem injectCacheControlTool_eq_some :
    injectCacheControlTool body index = some body' ↔ AddsCacheControl body body' (.tool index) := by
  simp [injectCacheControlTool, AddsCacheControl, bind_eq_some_iff,
    Json.asArray_eq_some, Json.asObject_eq_some, @eq_comm _ body']

theorem injectCacheControlMessage_eq_some :
    injectCacheControlMessage body index = some body' ↔
      AddsCacheControl body body' (.message index) := by
  simp [injectCacheControlMessage, AddsCacheControl, bind_eq_some_iff,
    Json.asArray_eq_some, @eq_comm _ body']

/-- The element that is found for a block: all blocks of the system but the schemas are taken for
the instructions, and system messages are not counted. -/
def found (request : AnnotatedLlmRequest) : Origin → Origin
  | .instructions | .contract => .instructions
  | .tool index => .tool index
  | .message index =>
    if request.messages[index]?.any isSystem then .instructions
    else .message (conversationIndex request index)

variable {request : AnnotatedLlmRequest}

theorem injectCacheControl_eq_some {ir : PromptIR}
    (hshows : List.Forall₂ (Shows request) (origins request) ir.blocks)
    (horigin : (origins request)[i]? = some origin)
    (hmessage : ∀ index, origin = .message index →
      ∃ message, request.messages[index]? = some message) :
    injectCacheControl body ir i = some body' ↔
      AddsCacheControl body body' (found request origin) := by
  obtain ⟨block, hblock, hshow⟩ := exists_getElem?_of_forall₂ hshows horigin
  rw [injectCacheControl, hblock]
  simp only [bind_eq_bind, bind_some, hshow.tool]
  cases origin with
  | tool index =>
    rw [toolIndex?, if_pos isSome_some, promptIrToolIndex_eq hshows hblock horigin hshow]
    exact injectCacheControlTool_eq_some
  | instructions | contract =>
    have hrole : block.role = .system := by
      by_contra hrole
      obtain ⟨_, _, h, -⟩ := hshow.system.mp hrole
      cases h
    rw [if_neg nofun, if_pos hrole]
    exact injectCacheControlSystem_eq_some
  | message index =>
    obtain ⟨message, hmessage⟩ := hmessage index rfl
    rw [if_neg nofun]
    cases hsystem : isSystem message with
    | true =>
      have hrole : block.role = .system := by
        by_contra hrole
        obtain ⟨_, _, h, hmessage', hsystem'⟩ := hshow.system.mp hrole
        cases h
        cases hmessage.symm.trans hmessage'
        cases hsystem.symm.trans hsystem'
      rw [if_pos hrole, found, hmessage, any_some, if_pos hsystem]
      exact injectCacheControlSystem_eq_some
    | false =>
      have hrole := hshow.system.mpr ⟨index, message, rfl, hmessage, hsystem⟩
      rw [if_neg hrole, promptIrMessageIndex_eq hshows hblock horigin hshow hmessage hsystem,
        found, hmessage, any_some, hsystem]
      exact injectCacheControlMessage_eq_some

/-! ### Targets -/

/-- The targets that name a block. -/
inductive Targets (ir : PromptIR) (i : Nat) : HintTarget → Prop
  | span {block : PromptBlock} (h : ir.blocks[i]? = some block) :
      Targets ir i (.span block.spanId)
  | lastSpan {block : PromptBlock} {endExclusive : Nat} (h : ir.blocks[i]? = some block) :
      Targets ir i (.stablePrefix endExclusive (some block.spanId))
  | ended (h : i < ir.blocks.length) : Targets ir i (.stablePrefix (i + 1) none)

theorem resolveTargetBlockIndex_eq {ir : PromptIR} (hir : ir.Indexed) {target : HintTarget}
    (h : Targets ir i target) : resolveTargetBlockIndex ir target = some i := by
  have hspan : ∀ block, ir.blocks[i]? = some block →
      ir.blocks.findIdx? (fun other => other.spanId = block.spanId) = some i := by
    intro block hblock
    obtain ⟨hlt, hget⟩ := List.getElem?_eq_some_iff.mp hblock
    rw [findIdx?_eq_some_iff_getElem]
    refine ⟨hlt, by simp [hget], fun j hj => ?_⟩
    have hjlt := hj.trans hlt
    simp only [decide_eq_true_eq]
    intro heq
    exact hj.ne (hir.index_unique hir (getElem?_eq_getElem hjlt) hblock heq)
  cases h with
  | span h | lastSpan h => exact hspan _ h
  | ended h => simp [resolveTargetBlockIndex, HintTarget.lastSpanId, HintTarget.endExclusive, h]

/-! ### Elements of a decoded body -/

section Decoded

variable {request : AnnotatedLlmRequest} (hdecodes : Decodes body request)
include hdecodes

theorem exists_adds_tool {tool : ToolDefinition}
    (htool : (request.tools.getD [])[index]? = some tool) :
    ∃ body', AddsCacheControl body body' (.tool index) := by
  cases htools : request.tools with
  | none => simp [htools] at htool
  | some tools =>
    rw [htools] at htool
    obtain ⟨items, hget, hitems⟩ := hdecodes.tools_forall₂ htools
    obtain ⟨item, hitem, hdecode⟩ := exists_getElem?_of_forall₂ hitems.flip htool
    obtain ⟨entries, rfl⟩ := object_of_decodeAnthropicTool hdecode
    exact ⟨_, items, entries, hget, hitem, rfl⟩

theorem exists_adds_message {message : Message}
    (hmessage : request.messages[index]? = some message) :
    ∃ body', AddsCacheControl body body' (.message index) := by
  obtain ⟨items, hget, hitems⟩ := hdecodes.messages
  obtain ⟨item, hitem, hdecode⟩ := exists_getElem?_of_forall₂ hitems.flip hmessage
  obtain ⟨entries, rfl, -⟩ := readsMessage_of_decode hdecode
  obtain ⟨cached, hcached⟩ : ∃ cached, cacheMessage (.obj entries) = some cached := by
    cases hcontent : (get entries "content").bind cacheContent <;> simp [cacheMessage, hcontent]
  exact ⟨_, items, _, cached, hget, hitem, hcached, rfl⟩

theorem exists_adds_instructions_iff {content : MessageContent}
    (hinstructions : request.instructions = some content) :
    (∃ body', AddsCacheControl body body' .instructions) ↔ get body "system" ≠ some (.arr []) := by
  have hdecode := hdecodes.instructions
  cases hsystem : get body "system" with
  | none => simp [hsystem, hinstructions] at hdecode
  | some system =>
    have hadds : (∃ body', AddsCacheControl body body' .instructions) ↔
        ∃ cached, cacheContent system = some cached := by
      simp [AddsCacheControl, hsystem]
    rw [hadds, ne_eq]
    rw [hsystem, mapM_some, map_eq_ok] at hdecode
    obtain ⟨_, hdecode, -⟩ := hdecode
    cases system with
    | null | bool _ | num _ | obj _ => cases hdecode
    | str text => simp [cacheContent]
    | arr blocks =>
      obtain ⟨parts, hparts, -⟩ := bind_eq_ok.mp hdecode
      cases hlast : blocks.getLast? with
      | none => simp [cacheContent, getLast?_eq_none_iff.mp hlast]
      | some last =>
        obtain ⟨init, rfl⟩ := getLast?_eq_some_iff.mp hlast
        have hindex : (init ++ [last])[init.length]? = some last := by simp
        obtain ⟨part, -, hpart⟩ :=
          exists_getElem?_of_forall₂ (mapM_eq_ok.mp hparts) hindex
        obtain ⟨entries, rfl⟩ := object_of_decodeAnthropicContentPart hpart
        simp [cacheContent]

end Decoded

/-! ### The blocks for which the element is found -/

/-- A breakpoint at the block of an element is at the element: for a schema; for the instructions,
if there are any; and for a message, if it and all messages before it are not system messages.
Otherwise only where the element had a breakpoint already, and the one that is taken for it, too. -/
def BreakpointFound (body : Object) (request : AnnotatedLlmRequest) : Origin → Prop
  | .tool _ => True
  | .instructions => get body "system" ≠ some (.arr [])
  | .contract => AddsCacheControl body body .contract ∧ Inert body .instructions
  | .message index =>
    (∀ message ∈ request.messages.take (index + 1), isSystem message = false) ∨
      AddsCacheControl body body (.message index) ∧
        if request.messages[index]?.any isSystem then Inert body .instructions
        else Inert body (.message (conversationIndex request index))

theorem found_message_iff {message : Message} (hmessage : request.messages[index]? = some message) :
    found request (.message index) = .message index ↔
      ∀ message ∈ request.messages.take (index + 1), isSystem message = false := by
  have hlength : (request.messages.take index).length = index :=
    length_take_of_le (List.getElem?_eq_some_iff.mp hmessage).1.le
  have hcount : conversationIndex request index = index ↔
      ∀ message ∈ request.messages.take index, isSystem message = false := by
    rw [conversationIndex]
    conv_lhs => rhs; rw [← hlength]
    rw [countP_eq_length]
    simp
  rw [take_add_one, found, hmessage]
  cases hsystem : isSystem message with
  | true => simp [hsystem]
  | false => simp [hsystem, hcount, or_imp, forall_and]

theorem adds_getD_iff_found (hbody : Sorted body) (hdecodes : Decodes body request)
    (hinjected : ∀ body', injected = some body' ↔
      AddsCacheControl body body' (found request origin))
    (hinstructions : origin = .instructions → request.instructions.isSome)
    (htool : ∀ index, origin = .tool index → ∃ tool, (request.tools.getD [])[index]? = some tool)
    (hmessage : ∀ index, origin = .message index →
      ∃ message, request.messages[index]? = some message) :
    AddsCacheControl body (injected.getD body) origin ↔ BreakpointFound body request origin := by
  have hsome : injected.isSome ↔ ∃ body', AddsCacheControl body body' (found request origin) := by
    simp only [isSome_iff_exists, hinjected]
  rw [addsCacheControl_getD_iff hbody hinjected, hsome]
  cases origin with
  | tool index =>
    obtain ⟨tool, htool⟩ := htool index rfl
    exact iff_of_true (.inl ⟨rfl, exists_adds_tool hdecodes htool⟩) trivial
  | instructions =>
    obtain ⟨content, hcontent⟩ := Option.isSome_iff_exists.mp (hinstructions rfl)
    rw [BreakpointFound, ← exists_adds_instructions_iff hdecodes hcontent]
    constructor
    · rintro (⟨-, h⟩ | ⟨h, -⟩)
      · exact h
      · exact ⟨body, h⟩
    · intro h
      exact .inl ⟨rfl, h⟩
  | contract => simp [found, BreakpointFound]
  | message index =>
    obtain ⟨message, hmessage⟩ := hmessage index rfl
    have hinert : Inert body (found request (.message index)) ↔
        if request.messages[index]?.any isSystem then Inert body .instructions
        else Inert body (.message (conversationIndex request index)) := by
      rw [found]
      split <;> rfl
    rw [BreakpointFound, ← found_message_iff hmessage, hinert]
    refine or_congr_left (and_iff_left_of_imp fun hfound => ?_)
    rw [hfound]
    exact exists_adds_message hdecodes hmessage

section Main

variable [Canonicalization] [ErrorTexts] (fromStr : String → Option Json)

/-- A plan with a single breakpoint. -/
def breakpointPlan (provider : String) (target : HintTarget) : HintPlan :=
  ⟨provider, [.anthropic (.cacheBreakpoint target)]⟩

/-- Every block comes from an element of the body, and a breakpoint at the block is one at the
element under exactly the condition `BreakpointFound`. -/
theorem breakpoint_iff {request : LlmRequest} (hcontent : request.content = .obj body)
    (hbody : (Json.obj body).WF) {decoded : AnnotatedLlmRequest}
    (hdecode : decode request = .ok decoded) {ir : PromptIR}
    (hir : buildPromptIr decoded = .ok ir) {i : Nat} {block : PromptBlock}
    (hblock : ir.blocks[i]? = some block) {target : HintTarget} (htarget : Targets ir i target)
    (provider : String) :
    ∃ origin, (origins decoded)[i]? = some origin ∧ Produces decoded origin block ∧
      ∃ body', (apply fromStr request ir (breakpointPlan provider target)).content = .obj body' ∧
        (AddsCacheControl body body' origin ↔ BreakpointFound body decoded origin) := by
  have hdecodes : Decodes body decoded := by
    rw [decode, hcontent] at hdecode
    exact decodes_of_decodeObject hdecode
  have hone : ∀ message ∈ decoded.messages, GivesOneBlock message := by
    intro message hmessage
    obtain ⟨index, hindex⟩ := getElem?_of_mem hmessage
    obtain ⟨items, -, hitems⟩ := hdecodes.messages
    obtain ⟨item, -, hitem⟩ := exists_getElem?_of_forall₂ hitems.flip hindex
    obtain ⟨obj, -, hreads⟩ := readsMessage_of_decode hitem
    exact givesOneBlock_of_reads hreads
  have hproduces := produces_of_buildPromptIr hir hone
  obtain ⟨origin, horigin, hproduced⟩ := exists_getElem?_of_forall₂ hproduces.flip hblock
  refine ⟨origin, horigin, hproduced, ?_⟩
  have hresolve := resolveTargetBlockIndex_eq (indexed_of_buildPromptIr hir) htarget
  have hmessage : ∀ index, origin = .message index →
      ∃ message, decoded.messages[index]? = some message := by
    rintro index rfl
    obtain ⟨_, _, -, ⟨message, hmessage, -⟩, -⟩ := hproduced
    exact ⟨message, hmessage⟩
  refine ⟨(injectCacheControl body ir i).getD body, ?_, ?_⟩
  · simp [apply, hcontent, breakpointPlan, applyDirective, hresolve]
  · refine adds_getD_iff_found (Json.wf_obj.mp hbody).1 hdecodes (fun body' =>
      injectCacheControl_eq_some (hproduces.imp fun _ _ => shows_of_produces hone) horigin hmessage)
      ?_ ?_ hmessage
    · rintro rfl
      obtain ⟨_, _, -, hbuilt, -⟩ := hproduced
      cases hinstructions : decoded.instructions with
      | none => simp [BuiltFrom, instructionsDrafts, hinstructions] at hbuilt
      | some content => rfl
    · rintro index rfl
      obtain ⟨_, _, -, ⟨tool, htool, -⟩, -⟩ := hproduced
      exact ⟨tool, htool⟩

end Main

/-- A user message after a system message. -/
def briefBody : Object :=
  [("messages", .arr [.obj [("content", .str "be brief"), ("role", .str "system")],
    .obj [("content", .str "hi"), ("role", .str "user")]])]

theorem breakpoint_iff_user :
    letI := forgetful
    letI := OpenAIChatCodec.noTexts
    ∃ decoded ir block, decode ⟨[], .obj briefBody⟩ = .ok decoded ∧
      buildPromptIr decoded = .ok ir ∧ ir.blocks[1]? = some block ∧
      ∃ origin, (origins decoded)[1]? = some origin ∧ Produces decoded origin block ∧
        ∃ body', (apply (fun _ => none) ⟨[], .obj briefBody⟩ ir
            (breakpointPlan "anthropic" (.stablePrefix 2 none))).content = .obj body' ∧
          (AddsCacheControl briefBody body' origin ↔ BreakpointFound briefBody decoded origin) := by
  let _ := forgetful
  let _ := OpenAIChatCodec.noTexts
  refine ⟨_, _, _, rfl, rfl, rfl, ?_⟩
  exact breakpoint_iff (fun _ => none) rfl (by decide) rfl rfl rfl (.ended (by decide)) "anthropic"

/-- The breakpoint of the user message: the system message is annotated. -/
theorem breakpoint_misplaced :
    letI := forgetful
    letI := OpenAIChatCodec.noTexts
    ∃ decoded ir block body', decode ⟨[], .obj briefBody⟩ = .ok decoded ∧
      buildPromptIr decoded = .ok ir ∧ ir.blocks[1]? = some block ∧
      (origins decoded)[1]? = some (.message 1) ∧ Produces decoded (.message 1) block ∧
      (apply (fun _ => none) ⟨[], .obj briefBody⟩ ir
        (breakpointPlan "anthropic" (.span block.spanId))).content = .obj body' ∧
      AddsCacheControl briefBody body' (.message 0) ∧
      ¬ AddsCacheControl briefBody body' (.message 1) := by
  let _ := forgetful
  let _ := OpenAIChatCodec.noTexts
  refine ⟨_, _, _, [("messages", .arr [.obj [("content", .arr [cachedText "be brief"]),
    ("role", .str "system")], .obj [("content", .str "hi"), ("role", .str "user")]])],
    rfl, rfl, rfl, rfl, ⟨none, _, rfl, ⟨_, rfl, rfl⟩, rfl⟩, by decide +kernel,
    ⟨_, _, _, rfl, rfl, rfl, rfl⟩, ?_⟩
  rintro ⟨messages, message, cached, hmessages, hmessage, hcached, hbody⟩
  cases hmessages
  cases hmessage
  cases hcached
  exact absurd hbody (by decide)

end Marking

end NemoRelay.Acg

import NemoRelay.ResponseCache.Anthropic

/-!
# Replaying Anthropic responses

A cached response is replayed as the chunks of a stream. The stream validator accepts the chunks
of every response that may be cached.

`serde_json::to_string`, which prints the input of a tool call, is the argument `printJson`.
-/

namespace NemoRelay.ResponseCache

open Option (bind_eq_bind bind_some isNone_none bind_eq_some_iff)

open List

/-! ### Chunks -/

variable (index : Nat)

def indexJson : Json := .num (.posInt index)

def messageStartChunk (message : Json) : Json :=
  .obj [("message", message), ("type", .str "message_start")]

def blockStartChunk (block : Json) : Json :=
  .obj [("content_block", block), ("index", indexJson index), ("type", .str "content_block_start")]

def blockDeltaChunk (delta : Json) : Json :=
  .obj [("delta", delta), ("index", indexJson index), ("type", .str "content_block_delta")]

def blockStopChunk : Json :=
  .obj [("index", indexJson index), ("type", .str "content_block_stop")]

def messageStopChunk : Json := .obj [("type", .str "message_stop")]

/-- Sets a member of an object. Other values stay as they are. -/
def setMember (value : Json) (key : String) (member : Json) : Json :=
  match value with
  | .obj obj => .obj (SortedMap.insert obj key member)
  | value => value

def removeMember (value : Json) (key : String) : Json :=
  match value with
  | .obj obj => .obj (SortedMap.erase obj key)
  | value => value

/-- The empty block that a replayed compaction starts with. -/
def compactionSkeleton (block : Json) : Json :=
  setMember (removeMember (removeMember block "content") "encrypted_content") "content" .null

/-- Text and tool input are sent as a delta, other blocks ship complete at their start. -/
def blockChunks (printJson : Json → String) (kind : Option AnthropicResponseKind) (index : Nat)
    (block : Json) : List Json :=
  let payload :=
    match (blockType block).getD "" with
    | "text" =>
      let text := ((block.get "text").bind Json.asStr).getD ""
      [blockStartChunk index (setMember block "text" (.str "")),
        blockDeltaChunk index (.obj [("text", .str text), ("type", .str "text_delta")])]
    | "tool_use" =>
      let input := (block.get "input").getD (.obj [])
      [blockStartChunk index (setMember block "input" (.obj [])),
        blockDeltaChunk index
          (.obj [("partial_json", .str (printJson input)), ("type", .str "input_json_delta")])]
    | "compaction" =>
      if kind = some .thresholdCompaction then
        let delta := insertFields [] [("type", some (.str "compaction_delta")),
          ("content", block.get "content"), ("encrypted_content", block.get "encrypted_content")]
        [blockStartChunk index (compactionSkeleton block), blockDeltaChunk index (.obj delta)]
      else [blockStartChunk index block]
    | _ => [blockStartChunk index block]
  payload ++ [blockStopChunk index]

def startMessage (aggregate : Json) : Json :=
  let inputTokens := ((aggregate.get "usage").bind fun usage =>
    usage.get "input_tokens").getD (indexJson 0)
  .obj <| insertFields [] <|
    ("type", some (.str "message")) ::
    (["id", "role", "model", "container", "stop_details", "diagnostics", "service_tier"].map
      fun key => (key, aggregate.get key)) ++
    [("content", some (.arr [])), ("stop_reason", some .null), ("stop_sequence", some .null),
      ("usage", some (.obj [("input_tokens", inputTokens), ("output_tokens", indexJson 0)]))]

def messageDeltaChunk (aggregate : Json) : Json :=
  let delta := insertFields [] <|
    ["stop_reason", "stop_sequence", "container", "stop_details"].map
      fun key => (key, aggregate.get key)
  .obj <| insertFields []
    [("type", some (.str "message_delta")), ("delta", some (.obj delta)),
      ("usage", aggregate.get "usage"),
      ("context_management", aggregate.get "context_management")]

def contentBlocks (aggregate : Json) : List Json :=
  ((aggregate.get "content").bind Json.asArray).getD []

def synthesizeAnthropicChunks (printJson : Json → String) (aggregate : Json)
    (kind : Option AnthropicResponseKind) : List Json :=
  messageStartChunk (startMessage aggregate) ::
    ((contentBlocks aggregate).zipIdx.flatMap fun block =>
      blockChunks printJson kind block.2 block.1) ++
    [messageDeltaChunk aggregate, messageStopChunk]

/-! ### Accepted chunks -/

variable {block : Json} {after : AnthropicStreamValidator}

open SortedMap

namespace AnthropicStreamValidator

variable {validator : AnthropicStreamValidator} {index : Nat} {state : BlockState}

def acceptAll (validator : AnthropicStreamValidator) (chunks : List Json) :
    Option AnthropicStreamValidator :=
  chunks.foldlM accept validator

/-- The validator waits for the block with the given index. -/
structure Awaits (validator : AnthropicStreamValidator) (index : Nat) : Prop where
  started : validator.messageStarted = true
  delta : validator.messageDeltaSeen = false
  active : validator.activeBlock = none
  next : validator.nextBlockIndex = index
  below : ∀ entry ∈ validator.blocks, entry.1 < index

/-- The validator inside a block. -/
def openBlock (validator : AnthropicStreamValidator) (index : Nat) (state : BlockState) :
    AnthropicStreamValidator :=
  { validator with
    blocks := validator.blocks ++ [(index, state)]
    activeBlock := some index
    nextBlockIndex := index + 1 }

/-- The validator after a block. -/
def addBlock (validator : AnthropicStreamValidator) (index : Nat) (state : BlockState) :
    AnthropicStreamValidator :=
  { validator with
    blocks := validator.blocks ++ [(index, state)]
    activeBlock := none
    nextBlockIndex := index + 1 }

variable {kind : String} {delta : Json}

section

variable (h : validator.Awaits index)
include h

theorem Awaits.addBlock (state : BlockState) :
    (validator.addBlock index state).Awaits (index + 1) where
  started := h.started
  delta := h.delta
  active := rfl
  next := rfl
  below := forall_mem_append.mpr ⟨fun entry hentry => Nat.lt_succ_of_lt (h.below entry hentry),
    forall_mem_singleton.mpr (Nat.lt_succ_self index)⟩

theorem Awaits.accept_start (hkind : blockType block = some kind)
    (hvalid : kind = "compaction" → blockStartIsValid validator.protocol block = true) :
    validator.accept (blockStartChunk index block) =
      some (validator.openBlock index { kind := some kind }) := by
  have hfields : hasOnlyFields (blockStartChunk index block) ["type", "index", "content_block"] =
      true := rfl
  have hindex : ((blockStartChunk index block).get "index").bind Json.asU64 = some index := rfl
  have hblock : (blockStartChunk index block).get "content_block" = some block := rfl
  have hguard : (kind ≠ "compaction" || blockStartIsValid validator.protocol block) = true := by
    simpa [or_iff_not_imp_left] using hvalid
  have hfresh : get validator.blocks index = none := get_of_forall_lt h.below
  show validator.observeBlockStart (blockStartChunk index block) = _
  simp only [observeBlockStart, hfields, hindex, hblock, h.started, h.delta, h.active, h.next,
    hkind, hguard, hfresh, insert_of_forall_lt h.below, bind_eq_bind,
    bind_some, guard_true, Option.pure_def, isNone_none, Bool.and_self,
    Bool.not_false, openBlock]

theorem Awaits.get_openBlock (state : BlockState) :
    get (validator.openBlock index state).blocks index = some state :=
  get_append_self h.below state

/-- Only the delta itself is left to be checked. -/
theorem Awaits.accept_blockDelta (delta : Json) :
    (validator.openBlock index state).accept (blockDeltaChunk index delta) =
      if state.kind ≠ some "compaction" then do
        guard (ordinaryDeltaIsReplayable state.kind delta)
        return validator.openBlock index state
      else do
        guard (validator.protocol = .thresholdV1 && compactionDeltaIsValid delta)
        let count := min (state.compactionDeltaCount + 1) 255
        guard (count = 1)
        return validator.openBlock index { state with compactionDeltaCount := count } := by
  have hindex : ((blockDeltaChunk index delta).get "index").bind Json.asU64 = some index := rfl
  have hactive : (validator.openBlock index state).activeBlock = some index := rfl
  have hinsert : ∀ state', insert (validator.openBlock index state).blocks index state' =
      validator.blocks ++ [(index, state')] := insert_append_self h.below state
  show (validator.openBlock index state).observeBlockDelta (blockDeltaChunk index delta) = _
  simp only [observeBlockDelta, hindex, hactive, h.get_openBlock, hinsert,
    bind_eq_bind, bind_some]
  rfl

theorem Awaits.accept_stop (hstopped : state.stopped = false)
    (hcompaction : state.kind = some "compaction" → validator.protocol = .thresholdV1 →
      state.compactionDeltaCount = 1) :
    (validator.openBlock index state).accept (blockStopChunk index) =
      some (validator.addBlock index { state with stopped := true }) := by
  have hindex : ((blockStopChunk index).get "index").bind Json.asU64 = some index := rfl
  have hactive : (validator.openBlock index state).activeBlock = some index := rfl
  have hguard : (!state.stopped && !(state.kind = some "compaction" &&
      (validator.openBlock index state).protocol = .thresholdV1 &&
      state.compactionDeltaCount ≠ 1)) = true := by
    simp only [hstopped, Bool.not_false, Bool.true_and, Bool.not_eq_true', Bool.and_eq_false_imp,
      Bool.and_eq_true, decide_eq_true_eq, decide_eq_false_iff_not, not_not, and_imp]
    exact hcompaction
  show (validator.openBlock index state).observeBlockStop (blockStopChunk index) = _
  simp only [observeBlockStop, hindex, hactive, h.get_openBlock, hguard,
    bind_eq_bind, bind_some]
  exact congrArg (fun blocks => some { validator.addBlock index state with blocks })
    (insert_append_self h.below _ _)

end

/-! ### Accepted blocks -/

theorem acceptAll_cons {chunk : Json} (h : validator.accept chunk = some after)
    (chunks : List Json) : validator.acceptAll (chunk :: chunks) = after.acceptAll chunks := by
  rw [acceptAll, foldlM_cons, h]
  rfl

section

variable (h : validator.Awaits index)
include h

/-- A block that ships complete at its start. -/
theorem Awaits.acceptAll_complete (hkind : blockType block = some kind)
    (hvalid : kind = "compaction" → validator.protocol = .onDemandV1 ∧
      onDemandResponseBlockIsValid block = true) :
    validator.acceptAll [blockStartChunk index block, blockStopChunk index] =
      some (validator.addBlock index { kind := some kind, stopped := true }) := by
  have hstart := h.accept_start hkind fun hcompaction => by
    obtain ⟨hprotocol, hblock⟩ := hvalid hcompaction
    rw [hprotocol]
    exact hblock
  rw [acceptAll_cons hstart]
  refine acceptAll_cons (h.accept_stop rfl fun hcompaction hthreshold => ?_) []
  rw [(hvalid (Option.some.inj hcompaction)).1] at hthreshold
  cases hthreshold

/-- A block whose payload is sent as one delta. -/
theorem Awaits.acceptAll_delta (hkind : blockType block = some kind)
    (hcompaction : kind ≠ "compaction")
    (hdelta : ordinaryDeltaIsReplayable (some kind) delta = true) :
    validator.acceptAll
        [blockStartChunk index block, blockDeltaChunk index delta, blockStopChunk index] =
      some (validator.addBlock index { kind := some kind, stopped := true }) := by
  have hne : some kind ≠ some "compaction" := fun heq => hcompaction (Option.some.inj heq)
  have haccept : (validator.openBlock index { kind := some kind }).accept
      (blockDeltaChunk index delta) = some (validator.openBlock index { kind := some kind }) := by
    rw [h.accept_blockDelta, if_pos hne, hdelta]
    rfl
  rw [acceptAll_cons (h.accept_start hkind fun heq => absurd heq hcompaction),
    acceptAll_cons haccept]
  exact acceptAll_cons (h.accept_stop rfl fun heq => absurd heq hne) []

/-- A compaction block of the threshold protocol. -/
theorem Awaits.acceptAll_compaction
    (hkind : blockType block = some "compaction") (hprotocol : validator.protocol = .thresholdV1)
    (hblock : blockStartIsValid .thresholdV1 block = true)
    (hdelta : compactionDeltaIsValid delta = true) :
    validator.acceptAll
        [blockStartChunk index block, blockDeltaChunk index delta, blockStopChunk index] =
      some (validator.addBlock index
        { kind := some "compaction", compactionDeltaCount := 1, stopped := true }) := by
  have haccept : (validator.openBlock index { kind := some "compaction" }).accept
      (blockDeltaChunk index delta) = some (validator.openBlock index
        { kind := some "compaction", compactionDeltaCount := 1 }) := by
    rw [h.accept_blockDelta, if_neg (not_not.mpr rfl), hdelta, hprotocol]
    rfl
  rw [acceptAll_cons (h.accept_start hkind fun _ => hprotocol ▸ hblock), acceptAll_cons haccept]
  exact acceptAll_cons (h.accept_stop rfl fun _ _ => rfl) []

end

end AnthropicStreamValidator

/-! ### Skeletons and deltas -/

open AnthropicStreamValidator

variable {obj : Object}

theorem get_setMember (hobj : block.asObject = some obj) (key : String)
    (member : Json) (key' : String) :
    (setMember block key member).get key' = if key' = key then some member else block.get key' := by
  rw [Json.asObject_eq_some.mp hobj]
  exact get_insert obj key member key'

theorem get_removeMember (block : Json) (key key' : String) :
    (removeMember block key).get key' = if key' = key then none else block.get key' := by
  cases block with
  | obj obj => exact get_erase obj key key'
  | null | bool | num | str | arr => exact (ite_self _).symm

theorem exists_asObject {kind : String} (h : blockType block = some kind) :
    ∃ obj, block.asObject = some obj := by
  cases hobj : block.asObject with
  | none =>
    rw [blockType, Json.get, hobj] at h
    cases h
  | some obj => exact ⟨obj, rfl⟩

theorem blockType_setMember {kind : String} (h : blockType block = some kind) {key : String}
    (hkey : "type" ≠ key) (member : Json) : blockType (setMember block key member) = some kind := by
  obtain ⟨obj, hobj⟩ := exists_asObject h
  rw [blockType, get_setMember hobj, if_neg hkey]
  exact h

variable {allowed : List String}

theorem hasOnlyFields_iff {value : Json} :
    hasOnlyFields value allowed = true ↔
      (∃ obj, value.asObject = some obj) ∧ ∀ key, (value.get key).isSome → key ∈ allowed := by
  unfold hasOnlyFields Json.get
  cases value.asObject with
  | none => simp
  | some obj => simp [onlyKeys_iff]

theorem get_obj_insertFields (fields : List (String × Option Json)) (key : String) :
    (Json.obj (insertFields [] fields)).get key = fieldOf fields key :=
  get_insertFields_nil fields key

theorem hasOnlyFields_insertFields {fields : List (String × Option Json)}
    (h : fields.map Prod.fst ⊆ allowed) :
    hasOnlyFields (.obj (insertFields [] fields)) allowed = true := by
  refine hasOnlyFields_iff.mpr ⟨⟨_, rfl⟩, fun key hkey => h ?_⟩
  by_contra hmem
  rw [get_obj_insertFields, fieldOf_eq_none hmem] at hkey
  cases hkey

theorem asObject_removeMember (hobj : block.asObject = some obj) (key : String) :
    (removeMember block key).asObject = some (erase obj key) := by
  rw [Json.asObject_eq_some.mp hobj]
  rfl

theorem get_compactionSkeleton (hobj : block.asObject = some obj) (key : String) :
    (compactionSkeleton block).get key =
      if key = "content" then some .null
      else if key = "encrypted_content" then none else block.get key := by
  rw [compactionSkeleton, get_setMember
    (asObject_removeMember (asObject_removeMember hobj "content") "encrypted_content"),
    get_removeMember, get_removeMember]
  by_cases hkey : key = "content"
  · rw [if_pos hkey, if_pos hkey]
  · rw [if_neg hkey, if_neg hkey, if_neg hkey]

theorem blockStartIsValid_compactionSkeleton (h : thresholdResponseBlockIsValid block = true) :
    blockStartIsValid .thresholdV1 (compactionSkeleton block) = true := by
  simp only [thresholdResponseBlockIsValid, Bool.and_eq_true] at h
  obtain ⟨⟨obj, hobj⟩, hkeys⟩ := hasOnlyFields_iff.mp h.1.1
  have hget := get_compactionSkeleton hobj
  simp only [blockStartIsValid, Bool.and_eq_true]
  refine ⟨hasOnlyFields_iff.mpr ⟨?_, fun key hkey => ?_⟩, ?_⟩
  · rw [Json.asObject_eq_some.mp hobj]
    exact ⟨_, rfl⟩
  · rw [hget] at hkey
    by_cases hcontent : key = "content"
    · simp [hcontent]
    · by_cases hencrypted : key = "encrypted_content"
      · simp [hencrypted] at hkey
      · rw [if_neg hcontent, if_neg hencrypted] at hkey
        simpa [hencrypted] using hkeys key hkey
  · rw [hget]
    rfl

theorem compactionDeltaIsValid_delta (h : thresholdResponseBlockIsValid block = true) :
    compactionDeltaIsValid (.obj (insertFields []
      [("type", some (.str "compaction_delta")), ("content", block.get "content"),
        ("encrypted_content", block.get "encrypted_content")])) = true := by
  simp only [thresholdResponseBlockIsValid, Bool.and_eq_true] at h
  obtain ⟨⟨-, hcontent⟩, hencrypted⟩ := h
  simp only [compactionDeltaIsValid, Bool.and_eq_true, blockType, get_obj_insertFields]
  refine ⟨⟨⟨hasOnlyFields_insertFields (by simp), ?_⟩, ?_⟩, ?_⟩
  · simp [fieldOf, Json.asStr]
  · simpa [fieldOf] using hcontent
  · simpa [fieldOf] using hencrypted

/-! ### Replayed responses -/

variable {aggregate : Json} (printJson : Json → String)

namespace AnthropicStreamValidator

variable {validator : AnthropicStreamValidator} {index : Nat} {kind : AnthropicResponseKind}

/-- What the validator remembers of a replayed block. -/
def replayedState (kind : AnthropicResponseKind) (block : Json) : BlockState where
  kind := blockType block
  compactionDeltaCount := if isCompaction block ∧ kind = .thresholdCompaction then 1 else 0
  stopped := true

/-- A compaction block is complete for the protocol that the response was classified under. -/
def CompactionFits (protocol : AnthropicProtocol) (kind : AnthropicResponseKind) (block : Json) :
    Prop :=
  isCompaction block = true →
    kind = .thresholdCompaction ∧ protocol = .thresholdV1 ∧
        thresholdResponseBlockIsValid block = true ∨
      kind = .onDemandCompaction ∧ protocol = .onDemandV1 ∧
        onDemandResponseBlockIsValid block = true

theorem Awaits.acceptAll_blockChunks (h : validator.Awaits index)
    (htype : (blockType block).isSome) (hfits : CompactionFits validator.protocol kind block) :
    validator.acceptAll (blockChunks printJson (some kind) index block) =
      some (validator.addBlock index (replayedState kind block)) := by
  obtain ⟨type, htype⟩ := Option.isSome_iff_exists.mp htype
  have hordinary : type ≠ "compaction" → replayedState kind block =
      { kind := some type, stopped := true } := by
    intro hne
    have hcompaction : isCompaction block = false := by
      rw [isCompaction, htype, decide_eq_false_iff_not]
      exact fun heq => hne (Option.some.inj heq)
    simp [replayedState, hcompaction, htype]
  simp only [blockChunks, htype, Option.getD_some]
  split
  · rw [hordinary (by decide)]
    exact h.acceptAll_delta (blockType_setMember htype (by decide) _) (by decide) rfl
  · rw [hordinary (by decide)]
    exact h.acceptAll_delta (blockType_setMember htype (by decide) _) (by decide) rfl
  · have hcompaction : isCompaction block = true := by rw [isCompaction, htype]; rfl
    obtain ⟨rfl, hprotocol, hblock⟩ | ⟨rfl, hprotocol, hblock⟩ := hfits hcompaction
    · rw [if_pos rfl, replayedState, if_pos ⟨hcompaction, rfl⟩, htype]
      refine h.acceptAll_compaction ?_ hprotocol (blockStartIsValid_compactionSkeleton hblock)
        (compactionDeltaIsValid_delta hblock)
      obtain ⟨obj, hobj⟩ := exists_asObject htype
      rw [blockType, get_compactionSkeleton hobj]
      exact htype
    · rw [if_neg (by decide), replayedState, if_neg (fun hboth => by cases hboth.2), htype]
      exact h.acceptAll_complete htype fun _ => ⟨hprotocol, hblock⟩
  · rename_i hcompaction
    rw [hordinary hcompaction]
    exact h.acceptAll_complete htype fun heq => absurd heq hcompaction

theorem acceptAll_append (validator : AnthropicStreamValidator) (chunks chunks' : List Json) :
    validator.acceptAll (chunks ++ chunks') =
      (validator.acceptAll chunks).bind fun after => after.acceptAll chunks' :=
  foldlM_append

/-- The states of the replayed blocks, numbered from the given index. -/
def replayedBlocks (kind : AnthropicResponseKind) (blocks : List Json) (index : Nat) :
    List (Nat × BlockState) :=
  (blocks.zipIdx index).map fun block => (block.2, replayedState kind block.1)

/-- The validator accepts the chunks of all blocks, one block after the other. -/
theorem Awaits.acceptAll_blocks {blocks : List Json} (h : validator.Awaits index)
    (hblocks : ∀ block ∈ blocks, (blockType block).isSome ∧ CompactionFits validator.protocol
      kind block) :
    validator.acceptAll ((blocks.zipIdx index).flatMap fun block =>
        blockChunks printJson (some kind) block.2 block.1) =
      some { validator with
        blocks := validator.blocks ++ replayedBlocks kind blocks index
        nextBlockIndex := index + blocks.length } := by
  induction blocks generalizing validator index with
  | nil =>
    rw [replayedBlocks, zipIdx_nil, map_nil, append_nil, ← h.next]
    rfl
  | cons block blocks ih =>
    obtain ⟨⟨htype, hfits⟩, hrest⟩ := forall_mem_cons.mp hblocks
    rw [zipIdx_cons, flatMap_cons, acceptAll_append,
      h.acceptAll_blockChunks printJson htype hfits, bind_some, ih (h.addBlock _) hrest]
    simp [AnthropicStreamValidator.addBlock, replayedBlocks, h.active, Nat.add_assoc,
      Nat.add_comm 1]

section

variable (h : aggregateMembersAreValid aggregate = true)
include h

theorem messageStartIsValid_startMessage : messageStartIsValid (startMessage aggregate) = true := by
  simp only [aggregateMembersAreValid, nullableResponseMetadataIsValid, Bool.and_eq_true,
    all_cons] at h
  obtain ⟨⟨⟨⟨⟨⟨⟨⟨⟨-, hid⟩, -⟩, hrole⟩, hmodel⟩, -⟩, -⟩, -⟩, hcontainer, hdetails, hdiagnostics, -⟩,
    htier⟩ := h
  simp only [messageStartIsValid, startMessage, nullableResponseMetadataIsValid,
    get_obj_insertFields, Bool.and_eq_true, all_cons, all_nil]
  refine ⟨⟨⟨⟨⟨⟨⟨⟨⟨⟨hasOnlyFields_insertFields (by simp), ?_⟩, ?_⟩, ?_⟩, ?_⟩, ?_⟩, ?_⟩, ?_⟩, ?_⟩,
    ?_, ?_, ?_, trivial⟩, ?_⟩
  · simpa [fieldOf] using hid
  · simp [fieldOf, Json.asStr]
  · simpa [fieldOf] using hrole
  · simpa [fieldOf] using hmodel
  · simp [fieldOf, Json.asArray]
  · simp [fieldOf, Json.isNull]
  · simp [fieldOf, Json.isNull]
  · simp [fieldOf, Json.isObject, Json.asObject]
  · simpa [fieldOf] using hcontainer
  · simpa [fieldOf] using hdetails
  · simpa [fieldOf] using hdiagnostics
  · simpa [fieldOf] using htier

theorem accept_messageStart (hstarted : validator.messageStarted = false) :
    validator.accept (messageStartChunk (startMessage aggregate)) =
      some { validator with messageStarted := true } := by
  have hmessage := messageStartIsValid_startMessage h
  have hfields : hasOnlyFields (messageStartChunk (startMessage aggregate))
      ["type", "message"] = true := rfl
  have hmember : (messageStartChunk (startMessage aggregate)).get "message" =
      some (startMessage aggregate) := rfl
  show validator.observeMessageStart _ = _
  simp only [observeMessageStart, hstarted, hfields, hmember, hmessage, bind_eq_bind,
    bind_some, guard_true, Option.pure_def, Bool.not_false, Bool.and_self]

theorem accept_messageDelta (husage : (aggregate.get "usage").any Json.isObject = true)
    (hstarted : validator.messageStarted = true) (hseen : validator.messageDeltaSeen = false)
    (hactive : validator.activeBlock = none) :
    validator.accept (messageDeltaChunk aggregate) =
      some { validator with messageDeltaSeen := true } := by
  simp only [aggregateMembersAreValid, nullableResponseMetadataIsValid, Bool.and_eq_true,
    all_cons] at h
  obtain ⟨⟨⟨-, hmanagement⟩, hcontainer, hdetails, -⟩, -⟩ := h
  have hdelta : messageDeltaIsValid (.obj (insertFields []
      (["stop_reason", "stop_sequence", "container", "stop_details"].map
        fun key => (key, aggregate.get key)))) = true := by
    simp only [messageDeltaIsValid, nullableResponseMetadataIsValid, get_obj_insertFields,
      Bool.and_eq_true, all_cons, all_nil]
    refine ⟨hasOnlyFields_insertFields (by simp), ?_, ?_, trivial⟩
    · simpa [fieldOf] using hcontainer
    · simpa [fieldOf] using hdetails
  have htype : blockType (messageDeltaChunk aggregate) = some "message_delta" := by
    simp only [blockType, messageDeltaChunk, get_obj_insertFields]
    simp [fieldOf, Json.asStr]
  rw [accept, htype]
  show validator.observeMessageDelta _ = _
  rw [observeMessageDelta, messageDeltaChunk, guard, if_pos]
  · rfl
  · simp only [get_obj_insertFields, hstarted, hseen, hactive, Bool.and_eq_true]
    refine ⟨⟨⟨⟨⟨⟨trivial, rfl⟩, rfl⟩, hasOnlyFields_insertFields (by simp)⟩, ?_⟩, ?_⟩, ?_⟩
    · simpa [fieldOf] using hdelta
    · simpa [fieldOf] using husage
    · simpa [fieldOf] using hmanagement

end

theorem accept_messageStop (hstarted : validator.messageStarted = true)
    (hdelta : validator.messageDeltaSeen = true) (hstopped : validator.messageStopped = false)
    (hactive : validator.activeBlock = none) :
    validator.accept messageStopChunk = some { validator with messageStopped := true } := by
  have hfields : hasOnlyFields messageStopChunk ["type"] = true := rfl
  show validator.observeMessageStop messageStopChunk = _
  simp only [observeMessageStop, hstarted, hdelta, hstopped, hactive, hfields, guard_true,
    bind_eq_bind, bind_some, Option.pure_def, Bool.not_false, Bool.and_self,
    isNone_none]

/-- Accepting a chunk keeps the validator valid. -/
theorem valid_of_accept {chunk : Json} (h : validator.accept chunk = some after) :
    after.valid = validator.valid := by
  unfold accept at h
  split at h
  · split at h
    · cases h
      rfl
    · cases h
  · simp only [observeMessageStart, bind_eq_bind, bind_eq_some_iff] at h
    obtain ⟨_, -, _, -, _, -, h⟩ := h
    cases h
    rfl
  · simp only [observeMessageDelta, bind_eq_bind, bind_eq_some_iff] at h
    obtain ⟨_, -, h⟩ := h
    cases h
    rfl
  · simp only [observeMessageStop, bind_eq_bind, bind_eq_some_iff] at h
    obtain ⟨_, -, h⟩ := h
    cases h
    rfl
  · simp only [observeBlockStart, bind_eq_bind, bind_eq_some_iff] at h
    obtain ⟨_, -, _, -, _, -, _, -, _, -, _, -, _, -, h⟩ := h
    cases h
    rfl
  · simp only [observeBlockDelta, bind_eq_bind, bind_eq_some_iff] at h
    obtain ⟨_, -, _, -, _, -, _, -, block, -, h⟩ := h
    split at h
    · obtain ⟨_, -, h⟩ := bind_eq_some_iff.mp h
      cases h
      rfl
    · obtain ⟨_, -, h⟩ := bind_eq_some_iff.mp h
      obtain ⟨_, -, h⟩ := bind_eq_some_iff.mp h
      cases h
      rfl
  · simp only [observeBlockStop, bind_eq_bind, bind_eq_some_iff] at h
    obtain ⟨_, -, _, -, _, -, _, -, _, -, h⟩ := h
    cases h
    rfl
  · cases h

theorem foldl_observe {chunks : List Json} (hvalid : validator.valid = true)
    (h : validator.acceptAll chunks = some after) :
    chunks.foldl observe validator = after ∧ after.valid = true := by
  induction chunks generalizing validator with
  | nil =>
    cases h
    exact ⟨rfl, hvalid⟩
  | cons chunk chunks ih =>
    rw [acceptAll, foldlM_cons, bind_eq_bind, bind_eq_some_iff] at h
    obtain ⟨next, hnext, h⟩ := h
    have hobserve : validator.observe chunk = next := by simp [observe, hvalid, hnext]
    rw [foldl_cons, hobserve]
    exact ih ((valid_of_accept hnext).trans hvalid) h

end AnthropicStreamValidator

/-! ### Classified responses -/

variable {context : AnthropicCacheContext} {kind : AnthropicResponseKind}

theorem classifyCompaction_eq_some (h : classifyCompaction context block = some kind) :
    kind = .thresholdCompaction ∧ context.protocol = .thresholdV1 ∧
        thresholdResponseBlockIsValid block = true ∨
      kind = .onDemandCompaction ∧ context.protocol = .onDemandV1 ∧
        onDemandResponseBlockIsValid block = true := by
  cases hprotocol : context.protocol <;>
    simp only [classifyCompaction, hprotocol, Bool.and_eq_true, Option.ite_none_right_eq_some,
      Option.some.injEq] at h
  · exact Or.inl ⟨h.2.symm, rfl, h.1.2⟩
  · exact Or.inr ⟨h.2.symm, rfl, h.1.2⟩

theorem classifyAggregate_eq_some {response : Json}
    (h : classifyAggregate response context = some kind) :
    aggregateMembersAreValid response = true ∧
      (response.get "usage").any Json.isObject = true ∧ contentBlocks response ≠ [] ∧
      (kind = .ordinary ∧ (∀ block ∈ contentBlocks response, isCompaction block = false) ∨
        ∃ block, contentBlocks response = [block] ∧ isCompaction block = true ∧
          classifyCompaction context block = some kind) := by
  unfold classifyAggregate at h
  split at h
  · cases h
  rename_i hmembers
  split at h
  · cases h
  rename_i content hcontent
  have hblocks : contentBlocks response = content := by rw [contentBlocks, hcontent]; rfl
  rw [hblocks]
  split at h
  · cases h
  rename_i hempty
  simp only [Bool.or_eq_true, List.isEmpty_iff, Bool.not_eq_true', not_or,
    Bool.not_eq_false] at hempty
  refine ⟨by simpa using hmembers, hempty.2, hempty.1, ?_⟩
  split at h
  · rename_i hcount
    simp only [Option.ite_none_right_eq_some, Option.some.injEq] at h
    refine Or.inl ⟨h.2.symm, fun block hblock => ?_⟩
    have hnone := filter_eq_nil_iff.mp (length_eq_zero_iff.mp hcount) block hblock
    simpa using hnone
  · rename_i hcount
    split at h
    · rename_i block
      simp only [Option.ite_none_right_eq_some] at h
      refine Or.inr ⟨block, rfl, ?_, h.2⟩
      by_contra hcompaction
      exact hcount (by simp [hcompaction])
    · cases h

/-- The validator after all chunks of a replayed response. -/
def replayedValidator (context : AnthropicCacheContext) (aggregate : Json)
    (kind : AnthropicResponseKind) : AnthropicStreamValidator where
  protocol := context.protocol
  blocks := replayedBlocks kind (contentBlocks aggregate) 0
  nextBlockIndex := (contentBlocks aggregate).length
  messageStarted := true
  messageDeltaSeen := true
  messageStopped := true

theorem acceptAll_synthesized (hmembers : aggregateMembersAreValid aggregate = true)
    (husage : (aggregate.get "usage").any Json.isObject = true)
    (hblocks : ∀ block ∈ contentBlocks aggregate, (blockType block).isSome ∧
      AnthropicStreamValidator.CompactionFits context.protocol kind block) :
    (new context).acceptAll
        (synthesizeAnthropicChunks printJson aggregate (some kind)) =
      some (replayedValidator context aggregate kind) := by
  let started : AnthropicStreamValidator := { protocol := context.protocol, messageStarted := true }
  have hstart : (new context).accept (messageStartChunk (startMessage aggregate)) = some started :=
    accept_messageStart hmembers rfl
  have hawaits : started.Awaits 0 := ⟨rfl, rfl, rfl, rfl, nofun⟩
  let final := replayedValidator context aggregate kind
  have hbody : started.acceptAll ((contentBlocks aggregate).zipIdx.flatMap fun block =>
      blockChunks printJson (some kind) block.2 block.1) =
      some { final with messageDeltaSeen := false, messageStopped := false } := by
    rw [hawaits.acceptAll_blocks printJson hblocks]
    simp [started, final, replayedValidator]
  have hdelta : ({ final with messageDeltaSeen := false, messageStopped := false } :
      AnthropicStreamValidator).accept (messageDeltaChunk aggregate) =
        some { final with messageStopped := false } :=
    accept_messageDelta hmembers husage rfl rfl rfl
  have hstop : ({ final with messageStopped := false } : AnthropicStreamValidator).accept
      messageStopChunk = some final :=
    accept_messageStop rfl rfl rfl rfl
  have hend : ({ final with messageDeltaSeen := false, messageStopped := false } :
      AnthropicStreamValidator).acceptAll [messageDeltaChunk aggregate, messageStopChunk] =
        some final := by
    rw [acceptAll_cons hdelta, acceptAll_cons hstop]
    rfl
  rw [synthesizeAnthropicChunks, acceptAll_append]
  exact bind_eq_some_iff.mpr ⟨_, (acceptAll_cons hstart _).trans hbody, hend⟩

theorem isValidFor_replayedValidator (hcontent : contentBlocks aggregate ≠ [])
    (hclass : kind = .ordinary ∧ (∀ block ∈ contentBlocks aggregate, isCompaction block = false)
      ∨ ∃ block, contentBlocks aggregate = [block] ∧ isCompaction block = true ∧
      classifyCompaction context block = some kind) :
    (replayedValidator context aggregate kind).isValidFor kind = true := by
  rw [isValidFor, if_neg (by simp [replayedValidator, replayedBlocks, hcontent, replayedState])]
  obtain ⟨rfl, hordinary⟩ | ⟨block, hsingle, hcompaction, hclass⟩ := hclass
  · have hnone : ((replayedValidator context aggregate .ordinary).blocks.filter
        fun block => block.2.kind = some "compaction") = [] := by
      rw [filter_eq_nil_iff]
      intro entry hentry
      obtain ⟨⟨block, index⟩, hmem, rfl⟩ := mem_map.mp hentry
      have hblock := hordinary block (fst_mem_of_mem_zipIdx hmem)
      simpa [isCompaction, replayedState] using hblock
    simp [hnone]
  · have hkind : blockType block = some "compaction" := by simpa [isCompaction] using hcompaction
    obtain ⟨rfl, hprotocol, -⟩ | ⟨rfl, hprotocol, -⟩ := classifyCompaction_eq_some hclass
    all_goals
      simp [replayedValidator, replayedBlocks, hsingle, hprotocol,
        replayedState, hkind, hcompaction]

/-- The validator accepts the replayed chunks of every response that may be cached. -/
theorem replayed_chunks_are_valid (printJson : Json → String) (context : AnthropicCacheContext)
    (aggregate : Json) (kind : AnthropicResponseKind)
    (hkind : classifyAggregate aggregate context = some kind)
    (hblocks : ∀ block ∈ contentBlocks aggregate, ∃ obj type, block = .obj obj ∧
      get obj "type" = some (.str type)) :
    ((synthesizeAnthropicChunks printJson aggregate (some kind)).foldl
      observe (.new context)).isValidFor kind = true := by
  obtain ⟨hmembers, husage, hcontent, hclass⟩ := classifyAggregate_eq_some hkind
  have htypes : ∀ block ∈ contentBlocks aggregate, (blockType block).isSome := by
    intro block hblock
    obtain ⟨obj, type, rfl, htype⟩ := hblocks block hblock
    simp [blockType, Json.get, Json.asObject, htype, Json.asStr]
  have hfits : ∀ block ∈ contentBlocks aggregate,
      AnthropicStreamValidator.CompactionFits context.protocol kind block := by
    intro block hblock hcompaction
    obtain ⟨-, hordinary⟩ | ⟨single, hsingle, -, hclass⟩ := hclass
    · rw [hordinary block hblock] at hcompaction
      cases hcompaction
    · rw [hsingle, mem_singleton] at hblock
      rw [hblock]
      exact classifyCompaction_eq_some hclass
  have haccepted := acceptAll_synthesized printJson hmembers husage
    fun block hblock => ⟨htypes block hblock, hfits block hblock⟩
  rw [(foldl_observe rfl haccepted).1]
  exact isValidFor_replayedValidator hcontent hclass

/-- A paused threshold request whose response is one compaction block. -/
def compactionContext : AnthropicCacheContext where
  version := "2023-06-01"
  betaTokens := ["compact-2026-01-12"]
  protocol := .thresholdV1
  operation := .pausedThreshold

def compactionResponse : Json :=
  .obj [("content", .arr [.obj [("content", .str "summary"), ("type", .str "compaction")]]),
    ("id", .str "msg_1"), ("model", .str "claude"), ("role", .str "assistant"),
    ("stop_reason", .str "compaction"), ("type", .str "message"),
    ("usage", .obj [("iterations", .arr [.obj [("type", .str "compaction")]])])]

theorem compactionResponse_replay_is_valid :
    classifyAggregate compactionResponse compactionContext = some .thresholdCompaction ∧
      ((synthesizeAnthropicChunks (fun _ => "\x7b\x7d") compactionResponse
        (some .thresholdCompaction)).foldl observe
          (.new compactionContext)).isValidFor .thresholdCompaction = true := by
  refine ⟨by decide, replayed_chunks_are_valid _ _ _ _ (by decide) ?_⟩
  intro block hblock
  obtain rfl := mem_singleton.mp hblock
  exact ⟨_, _, rfl, rfl⟩

end NemoRelay.ResponseCache

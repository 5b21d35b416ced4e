import NemoRelay.Codec.Json

/-!
# Collecting OpenAI Chat streams

The collector of streamed Chat responses: chunks are folded into a state, and the state is
finalized into the response that a call without streaming would have given.
-/

namespace NemoRelay.OpenAIChatCodec

open SortedMap (Sorted get get_insert mem_of_get)

structure ToolCallState where
  id : Option String := none
  type : Option String := none
  name : Option String := none
  arguments : String := ""

structure ChoiceState where
  role : Option String := none
  content : String := ""
  hasContent : Bool := false
  toolCalls : List (Nat × ToolCallState) := []
  finishReason : Option String := none

structure StreamingState where
  id : Option String := none
  object : Option String := none
  created : Option Nat := none
  model : Option String := none
  choices : List (Nat × ChoiceState) := []
  usage : Option Json := none

/-- The index of a choice or of a tool call. -/
def indexOf (value : Json) : Nat := ((value.get "index").bind Json.asU64).getD 0

/-- A string member. -/
def stringOf (value : Json) (key : String) : Option String := (value.get key).bind Json.asStr

/-- An array member, or nothing. -/
def itemsOf (value : Json) (key : String) : List Json := ((value.get key).bind Json.asArray).getD []

namespace ToolCallState

variable (state : ToolCallState)

def observeFunction (function : Json) : ToolCallState :=
  { state with
    name := (stringOf function "name").or state.name
    arguments := state.arguments ++ (stringOf function "arguments").getD "" }

def observe (toolCall : Json) : ToolCallState :=
  let state := { state with
    id := (stringOf toolCall "id").or state.id
    type := (stringOf toolCall "type").or state.type }
  match toolCall.get "function" with
  | some function => state.observeFunction function
  | none => state

def finalize : Json :=
  let function := Json.obj
    [("arguments", .str state.arguments), ("name", .str (state.name.getD ""))]
  .obj <| insertFields []
    [("id", state.id.map .str), ("type", some (.str (state.type.getD "function"))),
      ("function", some function)]

end ToolCallState

namespace ChoiceState

variable (state : ChoiceState)

def observeFinishReason (choice : Json) : ChoiceState :=
  { state with finishReason := (stringOf choice "finish_reason").or state.finishReason }

def observeToolCall (toolCalls : List (Nat × ToolCallState)) (toolCall : Json) :
    List (Nat × ToolCallState) :=
  SortedMap.insert toolCalls (indexOf toolCall)
    (((SortedMap.get toolCalls (indexOf toolCall)).getD {}).observe toolCall)

def observeDelta : (delta : Option Json) → ChoiceState
  | none => state
  | some delta =>
    { state with
      role := (stringOf delta "role").or state.role
      content := state.content ++ (stringOf delta "content").getD ""
      hasContent := state.hasContent || (stringOf delta "content").isSome
      toolCalls := (itemsOf delta "tool_calls").foldl observeToolCall state.toolCalls }

def observe (choice : Json) : ChoiceState :=
  (state.observeFinishReason choice).observeDelta (choice.get "delta")

def finalize (state : ChoiceState) (index : Nat) : Json :=
  let toolCalls :=
    if state.toolCalls.isEmpty then none
    else some (.arr (state.toolCalls.map fun call => call.2.finalize))
  let message := insertFields []
    [("role", some (.str (state.role.getD "assistant"))),
      ("content", some (if state.hasContent then .str state.content else .null)),
      ("tool_calls", toolCalls)]
  .obj [("finish_reason", (state.finishReason.map Json.str).getD .null),
    ("index", .num (.posInt index)), ("message", .obj message)]

end ChoiceState

/-- `str::strip_suffix`. -/
def stripSuffix (text suffix : String) : Option String :=
  if suffix.toList <:+ text.toList then
    some (String.ofList (text.toList.take (text.toList.length - suffix.toList.length)))
  else none

namespace StreamingState

def observeChoice (choices : List (Nat × ChoiceState)) (choice : Json) : List (Nat × ChoiceState) :=
  SortedMap.insert choices (indexOf choice)
    (((SortedMap.get choices (indexOf choice)).getD {}).observe choice)

/-- Empty values of the repeated members are skipped, and the first one that is kept stays. -/
def observe (state : StreamingState) (chunk : Json) : StreamingState where
  id := state.id.or ((stringOf chunk "id").filter (· ≠ ""))
  object := state.object.or ((stringOf chunk "object").filter (· ≠ ""))
  created := state.created.or (((chunk.get "created").bind Json.asU64).filter (· ≠ 0))
  model := state.model.or ((stringOf chunk "model").filter (· ≠ ""))
  usage := ((chunk.get "usage").filter fun usage => !usage.isNull).or state.usage
  choices := (itemsOf chunk "choices").foldl observeChoice state.choices

def finalize (state : StreamingState) : Json :=
  .obj <| insertFields []
    [("id", state.id.map .str),
      ("object", state.object.map fun object => .str ((stripSuffix object ".chunk").getD object)),
      ("created", state.created.map fun created => .num (.posInt created)),
      ("model", state.model.map .str),
      ("choices", some (.arr (state.choices.map fun choice => choice.2.finalize choice.1))),
      ("usage", state.usage)]

end StreamingState

variable (chunks : List Json)

/-- The state after all chunks of a stream. -/
def collect : StreamingState := chunks.foldl StreamingState.observe {}

/-! ### Collected states -/

/-- Empty members are never kept, and choices are ordered by their index. -/
structure StreamingState.Collected (state : StreamingState) : Prop where
  id : state.id ≠ some ""
  created : state.created ≠ some 0
  model : state.model ≠ some ""
  usage : state.usage ≠ some .null
  sorted : SortedMap.Sorted state.choices

theorem or_filter_ne {α : Type} [DecidableEq α] {current : Option α} {empty : α}
    (h : current ≠ some empty) (value : Option α) :
    current.or (value.filter (· ≠ empty)) ≠ some empty := by
  cases current with
  | some x => exact h
  | none =>
    rw [Option.none_or]
    intro hvalue
    simpa using (Option.filter_eq_some_iff.mp hvalue).2

open StreamingState

theorem StreamingState.Collected.observe {state : StreamingState} (h : state.Collected)
    (chunk : Json) : (state.observe chunk).Collected where
  id := or_filter_ne h.id _
  created := or_filter_ne h.created _
  model := or_filter_ne h.model _
  usage := by
    intro husage
    obtain hnull | ⟨-, hnull⟩ := Option.or_eq_some_iff.mp husage
    · simpa [Json.isNull] using (Option.filter_eq_some_iff.mp hnull).2
    · exact h.usage hnull
  sorted := List.foldlRecOn _ _ h.sorted fun _ h _ _ => h.insert _ _

theorem collected_collect : (collect chunks).Collected := by
  have hrun : ∀ state : StreamingState, state.Collected →
      (chunks.foldl observe state).Collected := by
    induction chunks with
    | nil => exact fun _ h => h
    | cons chunk chunks ih => exact fun state h => ih _ (h.observe chunk)
  exact hrun {} ⟨nofun, nofun, nofun, nofun, List.Pairwise.nil⟩

theorem choices_collect :
    (collect chunks).choices =
      (chunks.flatMap fun chunk => itemsOf chunk "choices").foldl observeChoice [] := by
  have hrun : ∀ state : StreamingState, (chunks.foldl observe state).choices =
      (chunks.flatMap fun chunk => itemsOf chunk "choices").foldl observeChoice state.choices := by
    induction chunks with
    | nil => exact fun _ => rfl
    | cons chunk chunks ih =>
      intro state
      rw [List.foldl_cons, ih, List.flatMap_cons, List.foldl_append]
      rfl
  exact hrun {}

/-! ### Content -/

/-- The content that one item of a chunk adds to its choice. -/
def contentOf (choice : Json) : Option String :=
  (choice.get "delta").bind fun delta => stringOf delta "content"

/-- The content fragments that a stream sends for one choice. -/
def contentFragments (index : Nat) : List String :=
  ((chunks.flatMap fun chunk => itemsOf chunk "choices").filter
    fun choice => indexOf choice = index).filterMap contentOf

theorem ChoiceState.observe_content (state : ChoiceState) (choice : Json) :
    (state.observe choice).content = state.content ++ (contentOf choice).getD "" ∧
      (state.observe choice).hasContent = (state.hasContent || (contentOf choice).isSome) := by
  unfold observe contentOf
  cases choice.get "delta" with
  | none => simp [observeDelta, observeFinishReason]
  | some delta => exact ⟨rfl, rfl⟩

theorem content_observeChoices (items : List Json) (choices : List (Nat × ChoiceState))
    (index : Nat) :
    let before := (get choices index).getD {}
    let after := (get (items.foldl observeChoice choices) index).getD {}
    let fragments := (items.filter fun choice => indexOf choice = index).filterMap contentOf
    after.content = before.content ++ String.join fragments ∧
      after.hasContent = (before.hasContent || !fragments.isEmpty) := by
  induction items generalizing choices with
  | nil => simp
  | cons item items ih =>
    obtain ⟨hcontent, hhas⟩ := ih (observeChoice choices item)
    simp only [List.foldl_cons, hcontent, hhas]
    by_cases hindex : indexOf item = index
    · have hget : get (observeChoice choices item) index =
          some (((get choices index).getD {}).observe item) := by
        rw [observeChoice, get_insert, if_pos hindex.symm, hindex]
      obtain ⟨hitem, hhas⟩ := ((get choices index).getD {}).observe_content item
      rw [hget, Option.getD_some, hitem, hhas, List.filter_cons_of_pos (by simpa using hindex)]
      cases hof : contentOf item with
      | none => simp [hof]
      | some fragment => simp [hof, String.append_assoc]
    · have hget : get (observeChoice choices item) index = get choices index := by
        rw [observeChoice, get_insert, if_neg (Ne.symm hindex)]
      rw [hget, List.filter_cons_of_neg (by simpa using hindex)]
      exact ⟨rfl, rfl⟩

variable {chunks : List Json}

/-- The content of a collected choice is what its fragments make up. -/
theorem collected_content {index : Nat} {choice : ChoiceState}
    (h : (index, choice) ∈ (collect chunks).choices) :
    choice.content = String.join (contentFragments chunks index) ∧
      choice.hasContent = !(contentFragments chunks index).isEmpty := by
  have hget := (collected_collect chunks).sorted.get_of_mem h
  rw [choices_collect] at hget
  have hcontent := content_observeChoices
    (chunks.flatMap fun chunk => itemsOf chunk "choices") [] index
  simpa [hget, contentFragments] using hcontent

theorem exists_choice_of_fragments {index : Nat} (h : contentFragments chunks index ≠ []) :
    ∃ choice, (index, choice) ∈ (collect chunks).choices := by
  have hcontent := (content_observeChoices
    (chunks.flatMap fun chunk => itemsOf chunk "choices") [] index).2
  rw [← choices_collect] at hcontent
  cases hget : get (collect chunks).choices index with
  | some choice => exact ⟨choice, mem_of_get hget⟩
  | none =>
    rw [hget] at hcontent
    exact absurd (by simpa [contentFragments] using hcontent) h

theorem join_eq_empty_iff {fragments : List String} :
    String.join fragments = "" ↔ ∀ fragment ∈ fragments, fragment = "" := by
  induction fragments with
  | nil => simp
  | cons fragment fragments ih => simp [ih]

/-- No choice is left with empty content exactly when every choice that is sent content is sent a
fragment that is not empty. -/
theorem no_empty_content_iff :
    (∀ entry ∈ (collect chunks).choices, entry.2.hasContent → entry.2.content ≠ "") ↔
      ∀ index, contentFragments chunks index ≠ [] →
        ∃ fragment ∈ contentFragments chunks index, fragment ≠ "" := by
  constructor
  · intro h index hfragments
    obtain ⟨choice, hmem⟩ := exists_choice_of_fragments hfragments
    obtain ⟨hcontent, hhas⟩ := collected_content hmem
    have hne := h _ hmem (by simpa [hhas] using hfragments)
    rw [hcontent, Ne, join_eq_empty_iff] at hne
    simpa using hne
  · rintro h ⟨index, choice⟩ hmem hchoice
    obtain ⟨hcontent, hhas⟩ := collected_content hmem
    have hfragments : contentFragments chunks index ≠ [] := by simpa [hhas] using hchoice
    obtain ⟨fragment, hfragment, hne⟩ := h index hfragments
    rw [hcontent, Ne, join_eq_empty_iff]
    exact fun hall => hne (hall fragment hfragment)

end NemoRelay.OpenAIChatCodec

import NemoRelay.Adaptive.Canonical
import NemoRelay.Adaptive.Profile
import NemoRelay.Codec.OpenAiChat.Request

/-!
# What the learning key of a request depends on

The key of a chat request with a scaffold depends on the model, the contents of the system and
developer messages, and the tools. It does not depend on the output contract: the codec puts
`response_format` among the fields of the provider, and the key looks for it among the fields that
the codec does not know. The key of a request without a scaffold has the label of the kind of its
first message and the digest of that message, cut after sixteen bytes.
-/

namespace NemoRelay.Acg

open OpenAIChatCodec List
open String (toList_append toList_injective toList_inj)

section Fingerprints

variable [Canonicalization] {text : Json → String}

theorem hashCanonicalJson_eq (htext : Rfc8785 text) (value : Json) :
    hashCanonicalJson value = sha256Hex (text value) := by
  rw [hashCanonicalJson, htext.canonicalizeValue_eq]

/-- A digest, or a constant for one of the texts. -/
theorem Sha256.constant_or_digest_inj (hsha : Sha256) {constant : String}
    (hconstant : ¬ "sha256:".toList <+: constant.toList) {p q : Prop} [Decidable p] [Decidable q]
    {input input' special : String} (hp : p ↔ input = special) (hq : q ↔ input' = special) :
    (if p then constant else sha256Hex input) = (if q then constant else sha256Hex input') ↔
      input = input' := by
  by_cases h : p <;> by_cases h' : q <;> simp only [h, h', if_true, if_false]
  · exact iff_of_true trivial ((hp.mp h).trans (hq.mp h').symm)
  · exact iff_of_false (hsha.ne hconstant _).symm fun heq => h' (hq.mpr (heq ▸ hp.mp h))
  · exact iff_of_false (hsha.ne hconstant _) fun heq => h (hp.mpr (heq ▸ hq.mp h'))
  · exact hsha.injective.eq_iff

/-! ### The system prompt -/

/-- The system prompt up to the spelling of numbers. -/
def systemValues (request : AnnotatedLlmRequest) : List (String × Json) :=
  (systemContents request).map fun entry => (entry.1, (toValue entry.2).asDoubles)

/-- How a system message enters the fingerprint. -/
def systemEntry (entry : String × MessageContent) : Json :=
  .ofFields [("source", some (.str "message")), ("role", some (.str entry.1)),
    ("content", some (toValue entry.2))] []

omit [Canonicalization] in
theorem asDoubles_systemEntry (entry : String × MessageContent) :
    (systemEntry entry).asDoubles = .obj [("content", (toValue entry.2).asDoubles),
      ("role", .str entry.1), ("source", .str "message")] := by
  have hentry : systemEntry entry = .obj [("content", toValue entry.2), ("role", .str entry.1),
      ("source", .str "message")] := by
    simp only [systemEntry, Json.ofFields, insertFields, SortedMap.insert, foldl_cons,
      foldl_nil, map_nil, if_pos (by decide +kernel : "role" < "source"),
      if_pos (by decide +kernel : "content" < "role")]
  rw [hentry, Json.asDoubles_obj]
  rfl

variable {request : AnnotatedLlmRequest}

theorem systemPromptFingerprint_eq (hinstructions : request.instructions = none) :
    systemPromptFingerprint request =
      if systemContents request = [] then "no-system"
      else hashCanonicalJson (.arr ((systemContents request).map systemEntry)) := by
  rw [systemPromptFingerprint, hinstructions]
  cases systemContents request <;> rfl

theorem equals_notMem_systemPromptFingerprint (hsha : Sha256)
    (hinstructions : request.instructions = none) :
    '=' ∉ (systemPromptFingerprint request).toList := by
  rw [systemPromptFingerprint_eq hinstructions]
  split
  · decide
  · exact hsha.equals_notMem _

variable {request' : AnnotatedLlmRequest}

theorem systemPromptFingerprint_eq_iff (hsha : Sha256) (htext : Rfc8785 text)
    (hinstructions : request.instructions = none) (hinstructions' : request'.instructions = none) :
    systemPromptFingerprint request = systemPromptFingerprint request' ↔
      systemValues request = systemValues request' := by
  have hempty : ∀ entries : List (String × MessageContent),
      entries = [] ↔ text (.arr (entries.map systemEntry)) = text (.arr []) := by
    simp [htext.same_iff, Json.asDoubles_arr]
  rw [systemPromptFingerprint_eq hinstructions, systemPromptFingerprint_eq hinstructions',
    systemValues, systemValues, hashCanonicalJson_eq htext, hashCanonicalJson_eq htext,
    hsha.constant_or_digest_inj (by decide) (hempty _) (hempty _), htext.same_iff,
    Json.asDoubles_arr, Json.asDoubles_arr, Json.arr.injEq, map_map, map_map]
  have hentry : Json.asDoubles ∘ systemEntry = (fun value : String × Json =>
      Json.obj [("content", value.2), ("role", .str value.1), ("source", .str "message")]) ∘
      fun entry : String × MessageContent => (entry.1, (toValue entry.2).asDoubles) :=
    funext asDoubles_systemEntry
  rw [hentry, ← map_map, ← map_map]
  refine (map_injective_iff.mpr ?_).eq_iff
  intro a b hab
  simp only [Json.obj.injEq, List.cons.injEq, Prod.mk.injEq, Json.str.injEq, true_and,
    and_true] at hab
  exact Prod.ext hab.2 hab.1

/-! ### The tools -/

/-- The tools up to the spelling of numbers. -/
def toolValues (request : AnnotatedLlmRequest) : Option (List Json) :=
  request.tools.map fun tools => tools.map fun tool => (toValue tool).asDoubles

omit [Canonicalization] in
theorem toValue_tool_eq_obj (tool : ToolDefinition) : ∃ entries, toValue tool = .obj entries := by
  cases tool <;> exact ⟨_, rfl⟩

omit [Canonicalization] in
theorem mem_objectTexts (text : Json → String) (tool : ToolDefinition) :
    (text (toValue tool)).toList ∈ objectTexts text := by
  obtain ⟨entries, hentries⟩ := toValue_tool_eq_obj tool
  exact ⟨entries, by rw [hentries]⟩

/-- The text that is hashed for a list of tools. -/
def toolsText (text : Json → String) (tools : List ToolDefinition) : String :=
  "|".intercalate (tools.map fun tool => text (toValue tool))

omit [Canonicalization] in
theorem toList_toolsText (tools : List ToolDefinition) :
    (toolsText text tools).toList =
      "|".toList.intercalate (tools.map fun tool => (text (toValue tool)).toList) := by
  rw [toolsText, String.toList_intercalate, map_map]
  rfl

variable {tools : List ToolDefinition}

theorem Rfc8785.toolsText_eq_empty (htext : Rfc8785 text) :
    toolsText text tools = "" ↔ tools = [] := by
  constructor
  · intro h
    by_contra hne
    have hlist := congrArg String.toList h
    rw [toList_toolsText] at hlist
    refine Coding.intercalate_ne_nil htext.nonempty ?_ (by simpa using hne) hlist
    intro written hwritten
    obtain ⟨tool, -, rfl⟩ := mem_map.mp hwritten
    exact mem_objectTexts text tool
  · rintro rfl
    rfl

theorem Rfc8785.toolsText_eq_iff (htext : Rfc8785 text) {tools' : List ToolDefinition} :
    toolsText text tools = toolsText text tools' ↔
      (tools.map fun tool => (toValue tool).asDoubles) =
        tools'.map fun tool => (toValue tool).asDoubles := by
  have hmem : ∀ tools : List ToolDefinition,
      ∀ written ∈ tools.map (fun tool => (text (toValue tool)).toList),
        written ∈ objectTexts text := by
    intro tools written hwritten
    obtain ⟨tool, -, rfl⟩ := mem_map.mp hwritten
    exact mem_objectTexts text tool
  have hsame : ∀ tool tool' : ToolDefinition,
      (text (toValue tool)).toList = (text (toValue tool')).toList ↔
        (toValue tool).asDoubles = (toValue tool').asDoubles := fun tool tool' => by
    rw [toList_inj, htext.same_iff]
  rw [← toList_inj, toList_toolsText, toList_toolsText, ← Coding.map_eq_map_iff hsame]
  refine ⟨fun h => ?_, fun h => by rw [h]⟩
  exact Coding.intercalate_inj htext.delimited (by decide) htext.nonempty (hmem tools)
    (hmem tools') h

theorem toolSchemaFingerprint_some (htext : Rfc8785 text) (tools : List ToolDefinition) :
    toolSchemaFingerprint (some tools) =
      if tools = [] then "tools-unavailable" else sha256Hex (toolsText text tools) := by
  have htexts : (tools.filterMap fun tool => (canonicalizeValue (toValue tool)).toOption) =
      tools.map fun tool => text (toValue tool) := by
    simp only [htext.canonicalizeValue_eq, Except.toOption, filterMap_eq_map']
  rw [toolSchemaFingerprint, htexts]
  change (if (toolsText text tools).isEmpty then _ else sha256Hex (toolsText text tools)) = _
  simp only [String.isEmpty_iff, htext.toolsText_eq_empty]

theorem equals_notMem_toolSchemaFingerprint (hsha : Sha256) (htext : Rfc8785 text)
    (tools : Option (List ToolDefinition)) : '=' ∉ (toolSchemaFingerprint tools).toList := by
  cases tools with
  | none =>
    rw [toolSchemaFingerprint]
    decide
  | some tools =>
    rw [toolSchemaFingerprint_some htext]
    split
    · decide
    · exact hsha.equals_notMem _

theorem toolSchemaFingerprint_eq_iff (hsha : Sha256) (htext : Rfc8785 text) :
    toolSchemaFingerprint request.tools = toolSchemaFingerprint request'.tools ↔
      toolValues request = toolValues request' := by
  have hne : ∀ tools, toolSchemaFingerprint (some tools) ≠ toolSchemaFingerprint none := by
    intro tools
    rw [toolSchemaFingerprint_some htext, toolSchemaFingerprint]
    split
    · decide
    · exact hsha.ne (by decide) _
  rw [toolValues, toolValues]
  cases request.tools with
  | none =>
    cases request'.tools with
    | none => simp
    | some tools' => exact iff_of_false (hne tools').symm nofun
  | some tools =>
    cases request'.tools with
    | none => exact iff_of_false (hne tools) nofun
    | some tools' =>
      rw [toolSchemaFingerprint_some htext, toolSchemaFingerprint_some htext, Option.map_some,
        Option.map_some, Option.some.injEq, ← htext.toolsText_eq_iff]
      exact hsha.constant_or_digest_inj (by decide) htext.toolsText_eq_empty.symm
        htext.toolsText_eq_empty.symm

end Fingerprints

/-! ### The key -/

/-- A label that ends with the last `=` can be found. -/
theorem append_label_inj {label front front' value value' : String} (label' : String)
    (hlabel : label = label' ++ "=") (hvalue : '=' ∉ value.toList) (hvalue' : '=' ∉ value'.toList)
    (h : front ++ label ++ value = front' ++ label ++ value') :
    front = front' ∧ value = value' := by
  have hlist := congrArg String.toList h
  have hmark : "=".toList = ['='] := by decide
  simp only [hlabel, toList_append, hmark, append_assoc, singleton_append] at hlist
  simp only [← append_assoc] at hlist
  obtain ⟨hfront, hvalues⟩ := Coding.append_cons_inj hvalue hvalue' hlist
  exact ⟨toList_injective (append_cancel_right hfront), toList_injective hvalues⟩

/-- A system or developer message, or a tool. -/
def CarriesScaffold (request : AnnotatedLlmRequest) : Prop :=
  systemContents request ≠ [] ∨ ∃ tool tools, request.tools = some (tool :: tools)

/-- What the key of a chat request with a scaffold depends on. -/
structure SameScaffold (request request' : AnnotatedLlmRequest) : Prop where
  model : request.model.getD "unknown" = request'.model.getD "unknown"
  system : systemValues request = systemValues request'
  tools : toolValues request = toolValues request'

/-- Two bodies, with the requests that they decode to, agree in what prompts share. -/
structure SamePrompt (body body' : LlmRequest) (request request' : AnnotatedLlmRequest) : Prop where
  model : request.model = request'.model
  system : systemContents request = systemContents request'
  tools : request.tools = request'.tools
  responseFormat : (body.content.get "response_format").filter (· ≠ .null) =
    (body'.content.get "response_format").filter (· ≠ .null)

section Key

variable [ErrorTexts] {body body' : LlmRequest} {request request' : AnnotatedLlmRequest}

/-- The codec puts the output contract among the fields of the provider, where `responseFormat`
does not look. -/
theorem responseFormat_eq_none (h : decode body = .ok request) : responseFormat request = none := by
  obtain ⟨obj, -, hreads⟩ := decode_eq_ok.mp h
  have hmodeled : "response_format" ∈ modeledRequestKeys := by decide
  rw [responseFormat, ← hreads.extra, get_otherKeys, if_pos hmodeled]
  rfl

theorem instructions_eq_none (h : decode body = .ok request) : request.instructions = none := by
  obtain ⟨obj, -, hreads⟩ := decode_eq_ok.mp h
  exact hreads.instructions

variable [Canonicalization] {text : Json → String}

theorem hasStableScaffold_of_carries (hsha : Sha256)
    (h : decode body = .ok request) (hscaffold : CarriesScaffold request) :
    (deriveKeyParts request).hasStableScaffold = true := by
  have hconstant : ¬ "sha256:".toList <+: "no-system".toList := by decide
  simp only [deriveKeyParts, Bool.or_eq_true, decide_eq_true_eq]
  rcases hscaffold with hsystem | ⟨tool, tools, htools⟩
  · rw [systemPromptFingerprint_eq (instructions_eq_none h), if_neg hsystem]
    exact .inl (.inl (hsha.ne hconstant _))
  · rw [htools]
    exact .inl (.inr rfl)

/-- The text of the key. -/
theorem learningKey_eq (hsha : Sha256) (agentId : String)
    (h : decode body = .ok request) (hscaffold : CarriesScaffold request) :
    deriveAcgLearningKey agentId request =
      agentId ++ "::model=" ++ request.model.getD "unknown" ++ "::seed=stable-scaffold::system=" ++
        systemPromptFingerprint request ++ "::tools=" ++ toolSchemaFingerprint request.tools := by
  have hstable := hasStableScaffold_of_carries hsha h hscaffold
  have hformat : responseFormatFingerprint request = none := by
    rw [responseFormatFingerprint, responseFormat_eq_none h]
    rfl
  have hparts : deriveKeyParts request =
      ⟨request.model.getD "unknown", systemPromptFingerprint request,
        toolSchemaFingerprint request.tools, none, true⟩ := by
    simp only [deriveKeyParts, hformat] at hstable ⊢
    simp only [hstable, if_true]
  rw [deriveAcgLearningKey, hparts]
  simp [String.append_assoc]

/-- Two chat requests with a scaffold have the same key if they agree in the model, the system
prompt and the tools. -/
theorem learningKey_eq_iff (hsha : Sha256) (htext : Rfc8785 text) (agentId : String)
    (h : decode body = .ok request) (h' : decode body' = .ok request')
    (hscaffold : CarriesScaffold request) (hscaffold' : CarriesScaffold request') :
    deriveAcgLearningKey agentId request = deriveAcgLearningKey agentId request' ↔
      SameScaffold request request' := by
  have hsystem := systemPromptFingerprint_eq_iff hsha htext (instructions_eq_none h)
    (instructions_eq_none h')
  have htools : _ ↔ toolValues request = toolValues request' :=
    toolSchemaFingerprint_eq_iff hsha htext
  rw [learningKey_eq hsha agentId h hscaffold, learningKey_eq hsha agentId h' hscaffold']
  constructor
  · intro hkey
    obtain ⟨hkey, htoolKey⟩ := append_label_inj "::tools" (by decide)
      (equals_notMem_toolSchemaFingerprint hsha htext _)
      (equals_notMem_toolSchemaFingerprint hsha htext _) hkey
    obtain ⟨hkey, hsystemKey⟩ := append_label_inj "::seed=stable-scaffold::system" (by decide)
      (equals_notMem_systemPromptFingerprint hsha (instructions_eq_none h))
      (equals_notMem_systemPromptFingerprint hsha (instructions_eq_none h')) hkey
    refine ⟨?_, hsystem.mp hsystemKey, htools.mp htoolKey⟩
    have hmodel := congrArg String.toList hkey
    simp only [toList_append] at hmodel
    exact toList_injective (append_cancel_left hmodel)
  · intro hsame
    rw [hsame.model, hsystem.mpr hsame.system, htools.mpr hsame.tools]

/-- Equal keys mean equal prompts exactly if the prompts do not only differ in the output contract,
in how a missing model is written, or in how numbers are written. -/
theorem learningKey_separates_iff (hsha : Sha256) (htext : Rfc8785 text) (agentId : String)
    (h : decode body = .ok request) (h' : decode body' = .ok request')
    (hscaffold : CarriesScaffold request) (hscaffold' : CarriesScaffold request') :
    (deriveAcgLearningKey agentId request = deriveAcgLearningKey agentId request' →
      SamePrompt body body' request request') ↔
      (SameScaffold request request' → SamePrompt body body' request request') := by
  rw [learningKey_eq_iff hsha htext agentId h h' hscaffold hscaffold']

end Key

/-- A chat request with one system message and the given other members. -/
def systemRequest (members : Object) : LlmRequest where
  headers := []
  content := .obj <| SortedMap.insert members "messages"
    (.arr [.obj [("content", .str "be brief"), ("role", .str "system")]])

theorem learningKey_separates_systemRequest :
    let _ := plain
    let _ := noTexts
    let body := systemRequest [("model", .str "small")]
    let body' := systemRequest [("model", .str "large")]
    ∃ request request', decode body = .ok request ∧
      decode body' = .ok request' ∧
      CarriesScaffold request ∧ CarriesScaffold request' ∧
      ((deriveAcgLearningKey "agent" request = deriveAcgLearningKey "agent" request' →
        SamePrompt body body' request request') ↔
        (SameScaffold request request' → SamePrompt body body' request request')) := by
  let _ := plain
  let _ := noTexts
  refine ⟨_, _, rfl, rfl, .inl nofun, .inl nofun, ?_⟩
  exact learningKey_separates_iff sha256_plain rfc8785_plain "agent" rfl rfl (.inl nofun)
    (.inl nofun)

/-- A request for JSON output and one without it have the same key. -/
theorem learningKey_ignores_responseFormat :
    let _ := noTexts
    let asks := systemRequest [("response_format", .obj [("type", .str "json_object")])]
    ∃ request request', decode (systemRequest []) = .ok request ∧
      decode asks = .ok request' ∧
      CarriesScaffold request ∧ CarriesScaffold request' ∧
      (∀ (_ : Canonicalization) (agentId : String),
        deriveAcgLearningKey agentId request = deriveAcgLearningKey agentId request') ∧
      ¬ SamePrompt (systemRequest []) asks request request' := by
  let _ := noTexts
  refine ⟨_, _, rfl, rfl, .inl nofun, .inl nofun, fun _ _ => rfl, fun h => ?_⟩
  exact absurd h.responseFormat (by decide)

/-! ### Requests without a scaffold -/

/-- What stands in front of the digest of the first message. -/
def seedLabel : Message → String
  | .system .. | .developer .. => ""
  | .user .. => "user:"
  | .assistant .. => "assistant:"
  | .tool .. => "tool:"
  | .function .. => "function:"
  | .toolCallItem .. => "tool-call:"
  | .toolResultItem .. => "tool-result:"
  | .providerNative .. => "native:"

/-- The kinds of messages whose label leaves room for the digest. -/
def showsDigest : Message → Bool
  | .user .. | .tool .. | .providerNative .. => true
  | _ => false

structure WithoutScaffold (request : AnnotatedLlmRequest) : Prop where
  instructions : request.instructions = none
  system : systemContents request = []
  tools : request.tools = none ∨ request.tools = some []
  responseFormat : responseFormat request = none

section Seed

/-- A front in ASCII takes as many bytes as it has characters. -/
theorem takeBytes_append {front : Text} (hfront : ∀ c ∈ front, c.utf8Size = 1) (n : Nat)
    (rest : Text) :
    takeBytes (front.length + n) (front ++ rest) = (takeBytes n rest).map (front ++ ·) := by
  induction front with
  | nil => simp
  | cons c front ih =>
    have hbytes : (c :: front).length + n = front.length + n + 1 := by
      simp only [List.length]
      omega
    rw [hbytes, cons_append, takeBytes, hfront c mem_cons_self, Nat.add_sub_cancel,
      ih fun d hd => hfront d (mem_cons_of_mem _ hd), Option.map_map]
    rfl

/-- A front of sixteen bytes hides what follows it. -/
theorem shortHash_append {front : String} (hfront : ∀ c ∈ front.toList, c.utf8Size = 1)
    (hlength : front.toList.length = hashPrefixLen) (rest : String) :
    shortHash (front ++ rest) = front := by
  have htake := takeBytes_append hfront 0 rest.toList
  rw [Nat.add_zero, hlength] at htake
  rw [shortHash, toList_append, htake]
  simp [takeBytes]

/-- A shorter front leaves the first character after it, whether or not the cut falls into a
character. -/
theorem getElem?_shortHash_append {front : String} (hfront : ∀ c ∈ front.toList, c.utf8Size = 1)
    (hlength : front.toList.length < hashPrefixLen) (rest : String) :
    (shortHash (front ++ rest)).toList[front.toList.length]? = rest.toList[0]? := by
  obtain ⟨n, hn⟩ := Nat.exists_eq_add_of_lt hlength
  have htake := takeBytes_append hfront (n + 1) rest.toList
  rw [← Nat.add_assoc, ← hn] at htake
  rw [shortHash, toList_append, htake]
  cases hrest : rest.toList with
  | nil => simp [takeBytes, hrest]
  | cons c text =>
    rw [takeBytes]
    split
    · cases takeBytes (n + 1 - c.utf8Size) text <;> simp [hrest]
    · simp [hrest]

variable [Canonicalization] {request request' : AnnotatedLlmRequest} {message message' : Message}
  {input input' : String}

/-- The text of the key. -/
theorem learningKey_of_withoutScaffold (agentId : String) (h : WithoutScaffold request) :
    deriveAcgLearningKey agentId request =
      agentId ++ "::model=" ++ request.model.getD "unknown" ++ "::seed=" ++
        shortHash (learningSeedFingerprint request) ++ "::system=no-system::tools=" ++
        shortHash (toolSchemaFingerprint request.tools) := by
  have hsystem : systemPromptFingerprint request = "no-system" := by
    rw [systemPromptFingerprint_eq h.instructions, if_pos h.system]
  have hformat : responseFormatFingerprint request = none := by
    rw [responseFormatFingerprint, h.responseFormat]
    rfl
  have hshort : shortHash "no-system" = "no-system" := by decide
  have htools : request.tools.any (fun tools => !tools.isEmpty) = false := by
    rcases h.tools with htools | htools <;> rw [htools] <;> rfl
  have hparts : deriveKeyParts request = ⟨request.model.getD "unknown", "no-system",
      shortHash (toolSchemaFingerprint request.tools), none, false⟩ := by
    simp [deriveKeyParts, hsystem, hformat, htools, hshort]
  rw [deriveAcgLearningKey, hparts]
  simp [String.append_assoc]

/-- Sixteen bytes hold the label, `sha256:` and a digit of the digest only for the three shortest
labels. -/
theorem shortHash_seed_ne_iff
    (hshape : ∀ input, ∃ digits, sha256Hex input = "sha256:" ++ digits)
    (hseed : Message.seedFingerprint message ≠ none)
    (hdigit : (sha256Hex input).toList[7]? ≠ (sha256Hex input').toList[7]?) :
    shortHash (seedLabel message ++ sha256Hex input) ≠
        shortHash (seedLabel message ++ sha256Hex input') ↔
      showsDigest message = true := by
  obtain ⟨digits, hdigits⟩ := hshape input
  obtain ⟨digits', hdigits'⟩ := hshape input'
  have hscheme : "sha256:".toList.length = 7 := by decide
  rw [hdigits, hdigits', toList_append, toList_append,
    getElem?_append_right hscheme.le, getElem?_append_right hscheme.le, hscheme] at hdigit
  obtain ⟨hall, hroom⟩ : (seedLabel message ++ "sha256:").toList.all (·.utf8Size == 1) = true ∧
      (showsDigest message = true ↔
        (seedLabel message ++ "sha256:").toList.length < hashPrefixLen) := by
    cases message with
    | system | developer => exact absurd rfl hseed
    | _ =>
      simp only [seedLabel, showsDigest]
      decide +kernel
  set label := seedLabel message
  have hascii : ∀ c ∈ (label ++ "sha256:").toList, c.utf8Size = 1 := by
    simpa only [all_eq_true, beq_iff_eq] using hall
  rw [hdigits, hdigits', ← String.append_assoc, ← String.append_assoc, hroom]
  by_cases hshort : (label ++ "sha256:").toList.length < hashPrefixLen
  · refine iff_of_true (fun heq => hdigit ?_) hshort
    have hkept := getElem?_shortHash_append hascii hshort
    rw [← hkept digits, heq, hkept digits']
  · refine iff_of_false (not_not_intro ?_) hshort
    -- the first sixteen bytes are those of the label and of `sha256:`
    obtain ⟨front, rest, hfront, hascii', hlength⟩ : ∃ front rest : String,
        label ++ "sha256:" = front ++ rest ∧ (∀ c ∈ front.toList, c.utf8Size = 1) ∧
          front.toList.length = hashPrefixLen := by
      refine ⟨String.ofList ((label ++ "sha256:").toList.take hashPrefixLen),
        String.ofList ((label ++ "sha256:").toList.drop hashPrefixLen), ?_, ?_, ?_⟩
      · rw [← String.ofList_append, take_append_drop, String.ofList_toList]
      · rw [String.toList_ofList]
        exact fun c hc => hascii c (mem_of_mem_take hc)
      · rw [String.toList_ofList, length_take]
        omega
    rw [hfront, String.append_assoc, String.append_assoc, shortHash_append hascii' hlength,
      shortHash_append hascii' hlength]

/-- Two requests without a scaffold whose first messages have different digests and are of the same
kind have different keys exactly if the label of the kind leaves room for the digest, or if one of
them has an empty list of tools and the other none. -/
theorem learningKey_seed_ne_iff
    (hshape : ∀ input, ∃ digits, sha256Hex input = "sha256:" ++ digits) (agentId : String)
    (h : WithoutScaffold request) (h' : WithoutScaffold request')
    (hmodel : request.model = request'.model)
    (hfirst : request.messages.head? = some message)
    (hfirst' : request'.messages.head? = some message')
    (hkind : seedLabel message = seedLabel message')
    (hseed : Message.seedFingerprint message = some (seedLabel message ++ sha256Hex input))
    (hseed' : Message.seedFingerprint message' = some (seedLabel message' ++ sha256Hex input'))
    (hdigit : (sha256Hex input).toList[7]? ≠ (sha256Hex input').toList[7]?) :
    deriveAcgLearningKey agentId request ≠ deriveAcgLearningKey agentId request' ↔
      showsDigest message = true ∨ request.tools ≠ request'.tools := by
  have htools : ∀ {request : AnnotatedLlmRequest}, WithoutScaffold request →
      request.tools = none ∧ shortHash (toolSchemaFingerprint request.tools) = "no-tools" ∨
      request.tools = some [] ∧
        shortHash (toolSchemaFingerprint request.tools) = "tools-unavailabl" := by
    intro request h
    rcases h.tools with htools | htools <;> rw [htools]
    · exact .inl ⟨rfl, by rw [toolSchemaFingerprint]; decide⟩
    · refine .inr ⟨rfl, ?_⟩
      rw [show toolSchemaFingerprint (some []) = "tools-unavailable" from rfl]
      decide
  have hfingerprint : ∀ {request : AnnotatedLlmRequest} {message : Message} {seed : String},
      request.messages.head? = some message → Message.seedFingerprint message = some seed →
      learningSeedFingerprint request = seed := by
    intro request message seed hfirst hseed
    obtain ⟨rest, hrest⟩ := head?_eq_some_iff.mp hfirst
    rw [learningSeedFingerprint, hrest, findSome?_cons, hseed]
    rfl
  rw [← shortHash_seed_ne_iff hshape (hseed ▸ nofun) hdigit, ← not_and_or, not_iff_not,
    learningKey_of_withoutScaffold agentId h, learningKey_of_withoutScaffold agentId h', hmodel,
    hfingerprint hfirst hseed, hfingerprint hfirst' hseed', ← hkind]
  constructor
  · intro hkey
    obtain ⟨hkey, htoolKey⟩ := append_label_inj "::system=no-system::tools" (by decide)
      (by rcases htools h with ⟨-, heq⟩ | ⟨-, heq⟩ <;> rw [heq] <;> decide)
      (by rcases htools h' with ⟨-, heq⟩ | ⟨-, heq⟩ <;> rw [heq] <;> decide) hkey
    refine ⟨String.append_right_inj _ |>.mp hkey, ?_⟩
    rcases htools h with ⟨hnone, heq⟩ | ⟨hnone, heq⟩ <;>
      rcases htools h' with ⟨hnone', heq'⟩ | ⟨hnone', heq'⟩ <;>
      rw [hnone, hnone'] <;> rw [heq, heq'] at htoolKey <;> revert htoolKey <;> decide
  · rintro ⟨hhash, heq⟩
    rw [hhash, heq]

end Seed

/-- A digest that repeats its input. -/
@[reducible] def repeats : Canonicalization :=
  { plain with sha256Hex := ("sha256:" ++ ·) }

theorem learningKey_user_ne :
    letI := repeats
    let request (text : String) := AnnotatedLlmRequest.ofMessages [.user (.text text) none]
    deriveAcgLearningKey "agent" (request "a") ≠ deriveAcgLearningKey "agent" (request "b") := by
  let _ := repeats
  intro request
  have hplain (text : String) : WithoutScaffold (request text) := ⟨rfl, rfl, .inl rfl, rfl⟩
  have hfirst (text : String) : (request text).messages.head? = some (.user (.text text) none) :=
    rfl
  have hseed (text : String) : Message.seedFingerprint (.user (.text text) none) =
      some ("user:" ++ sha256Hex text) := rfl
  exact (learningKey_seed_ne_iff (fun input => ⟨input, rfl⟩) "agent" (hplain "a") (hplain "b") rfl
    (hfirst "a") (hfirst "b") rfl (hseed "a") (hseed "b") (by decide)).mpr (.inl rfl)

/-- Two conversations that begin with different assistant messages have the same key. -/
theorem learningKey_ignores_assistant :
    letI := repeats
    let request (text : String) :=
      AnnotatedLlmRequest.ofMessages [.assistant (some (.text text)) none none]
    (sha256Hex "a").toList[7]? ≠ (sha256Hex "b").toList[7]? ∧
      deriveAcgLearningKey "agent" (request "a") = deriveAcgLearningKey "agent" (request "b") := by
  decide +kernel

end NemoRelay.Acg

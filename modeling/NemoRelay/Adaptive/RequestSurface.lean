import NemoRelay.Adaptive.PromptIr

/-!
# Applying hints to an Anthropic request

A hint plan names blocks of a prompt. The surface of a provider finds the element of the request
body that a block stands for, by counting blocks, and annotates it.

`serde_json::from_str` is an argument.
-/

namespace NemoRelay.Acg

open SortedMap

/-! ### Plans -/

inductive HintTarget
  | span (spanId : String)
  | stablePrefix (endExclusive : Nat) (lastSpanId : Option String)

namespace HintTarget

def lastSpanId : HintTarget → Option String
  | span spanId => some spanId
  | stablePrefix _ lastSpanId => lastSpanId

def endExclusive : HintTarget → Option Nat
  | span _ => none
  | stablePrefix endExclusive _ => some endExclusive

end HintTarget

inductive AnthropicCacheTtl
  | oneHour

inductive AnthropicHintDirective
  | canonicalizeToolSchemas
  | cacheBreakpoint (target : HintTarget)
  | applyTtl (ttl : AnthropicCacheTtl)

inductive OpenAIHintDirective
  | canonicalizeToolSchemas
  | canonicalizeStablePrefix (target : HintTarget)

inductive HintDirective
  | anthropic (directive : AnthropicHintDirective)
  | openAI (directive : OpenAIHintDirective)

structure HintPlan where
  provider : String
  directives : List HintDirective

/-! ### Finding the target -/

def resolveTargetBlockIndex (ir : PromptIR) (target : HintTarget) : Option Nat :=
  match target.lastSpanId with
  | some spanId => ir.blocks.findIdx? fun block => block.spanId = spanId
  | none =>
    match target.endExclusive with
    | some (index + 1) => if index < ir.blocks.length then some index else none
    | _ => none

def promptIrToolIndex (ir : PromptIR) (targetBlockIndex : Nat) : Nat :=
  (ir.blocks.take (targetBlockIndex + 1)).countP (fun block => block.contentType = .toolSchema) - 1

def promptIrMessageIndex (ir : PromptIR) (targetBlockIndex : Nat) (includeSystemMessages : Bool) :
    Nat :=
  (ir.blocks.take (targetBlockIndex + 1)).countP (fun block =>
    block.contentType ≠ .toolSchema && (includeSystemMessages || block.role ≠ .system)) - 1

/-! ### Canonical tools -/

section Canonicalize

variable [Canonicalization] (fromStr : String → Option Json)

def canonicalizeTool (tool : Json) : Option Json :=
  match canonicalizeValue tool with
  | .ok canonical => fromStr canonical
  | .error _ => none

/-- A tool that cannot be canonicalized stays as it is. -/
def canonicalizeTools (content : Object) : Object :=
  match get content "tools" with
  | some (.arr tools) =>
    insert content "tools" (.arr (tools.map fun tool => (canonicalizeTool fromStr tool).getD tool))
  | _ => content

end Canonicalize

namespace AnthropicMessages

/-! ### Breakpoints -/

def ephemeral : Json := .obj [("type", .str "ephemeral")]

/-- An object with a breakpoint. -/
def withCacheControl (entries : Object) : Json :=
  .obj (insert entries "cache_control" ephemeral)

/-- Text that becomes a block, so that it can have a breakpoint. -/
def cachedText (text : String) : Json :=
  .obj [("cache_control", ephemeral), ("text", .str text), ("type", .str "text")]

/-- Content with a breakpoint at its end. -/
def cacheContent : Json → Option Json
  | .str text => some (.arr [cachedText text])
  | .arr blocks =>
    match blocks.getLast? with
    | some (.obj block) => some (.arr (blocks.dropLast ++ [withCacheControl block]))
    | _ => none
  | _ => none

variable (content : Object)

/-- `none` if nothing was injected. -/
def injectCacheControlSystem : Option Object := do
  let system ← get content "system"
  let cached ← cacheContent system
  return insert content "system" cached

/-- A message without content that can have a breakpoint has it itself. -/
def cacheMessage : Json → Option Json
  | .obj message =>
    match (get message "content").bind cacheContent with
    | some cached => some (.obj (insert message "content" cached))
    | none => some (withCacheControl message)
  | _ => none

def injectCacheControlMessage (messageIndex : Nat) : Option Object := do
  let messages ← (get content "messages").bind Json.asArray
  let message ← messages[messageIndex]?
  let cached ← cacheMessage message
  return insert content "messages" (.arr (messages.set messageIndex cached))

def injectCacheControlTool (toolIndex : Nat) : Option Object := do
  let tools ← (get content "tools").bind Json.asArray
  let tool ← tools[toolIndex]?
  let tool ← tool.asObject
  return insert content "tools" (.arr (tools.set toolIndex (withCacheControl tool)))

/-- The element for the block at an index. -/
def injectCacheControl (ir : PromptIR) (index : Nat) : Option Object := do
  let block ← ir.blocks[index]?
  if block.contentType = .toolSchema then
    injectCacheControlTool content (promptIrToolIndex ir index)
  else if block.role = .system then injectCacheControlSystem content
  else injectCacheControlMessage content (promptIrMessageIndex ir index false)

/-! ### Retention -/

def withTtl (ttl : String) (entries : Object) : Object :=
  match get entries "cache_control" with
  | some (.obj cacheControl) =>
    insert entries "cache_control" (.obj (insert cacheControl "ttl" (.str ttl)))
  | _ => entries

mutual

/-- The children are visited before the object itself; the order makes no difference, since a
retention is a text. -/
def applyTtlToValue (ttl : String) : Json → Json
  | .obj entries => .obj (withTtl ttl (applyTtlToEntries ttl entries))
  | .arr items => .arr (applyTtlToItems ttl items)
  | .null => .null
  | .bool value => .bool value
  | .num value => .num value
  | .str text => .str text

def applyTtlToItems (ttl : String) : List Json → List Json
  | [] => []
  | item :: items => applyTtlToValue ttl item :: applyTtlToItems ttl items

def applyTtlToEntries (ttl : String) : List (String × Json) → List (String × Json)
  | [] => []
  | entry :: entries => applyTtlToEntry ttl entry :: applyTtlToEntries ttl entries

def applyTtlToEntry (ttl : String) : String × Json → String × Json
  | (key, value) => (key, applyTtlToValue ttl value)

end

def applyTtlToMember (ttl key : String) (content : Object) : Object :=
  match get content key with
  | some (.arr items) =>
    insert content key (.arr (items.map (applyTtlToValue ttl)))
  | _ => content

def applyTtlToCacheControls (ttl : String) (content : Object) : Object :=
  let content :=
    match get content "system" with
    | some system => insert content "system" (applyTtlToValue ttl system)
    | none => content
  applyTtlToMember ttl "tools" (applyTtlToMember ttl "messages" content)

def AnthropicCacheTtl.text : AnthropicCacheTtl → String
  | .oneHour => "1h"

/-! ### Plans -/

section Apply

variable [Canonicalization] (fromStr : String → Option Json)

def applyDirective (ir : PromptIR) (content : Object) : HintDirective → Object
  | .anthropic .canonicalizeToolSchemas => canonicalizeTools fromStr content
  | .anthropic (.cacheBreakpoint target) =>
    ((resolveTargetBlockIndex ir target).bind (injectCacheControl content ir)).getD content
  | .anthropic (.applyTtl ttl) => applyTtlToCacheControls (AnthropicCacheTtl.text ttl) content
  | .openAI _ => content

/-- A body that is not an object has no members to annotate. -/
def apply (request : LlmRequest) (ir : PromptIR) (plan : HintPlan) : LlmRequest :=
  match request.content with
  | .obj content =>
    { request with content := .obj (plan.directives.foldl (applyDirective fromStr ir) content) }
  | _ => request

end Apply

end AnthropicMessages

end NemoRelay.Acg

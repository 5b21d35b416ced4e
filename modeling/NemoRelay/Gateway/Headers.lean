import NemoRelay.Codec.Sse
import NemoRelay.Optimization.Summary

/-!
# Header maps of the gateway

Which headers of a request are forwarded, which are shown to middleware, and how the headers that
middleware returns are written back. Names are in lower case. What the `http` crate does with names
and values is an argument.
-/

namespace NemoRelay.Gateway

open List

class Http (V : Type) where
  /-- `HeaderName::from_bytes`. -/
  headerName : String → Option String
  /-- `HeaderValue::from_str`. -/
  headerValue : String → Option V
  toStr : V → Option String
  /-- `serde_json::to_string`. -/
  printJson : Json → String

abbrev HeaderMap (V : Type) := List (String × V)

namespace HeaderMap

variable {V : Type} (headers : HeaderMap V)

def removeAll (names : List String) : HeaderMap V :=
  headers.filter fun header => header.1 ∉ names

def insert (name : String) (value : V) : HeaderMap V :=
  headers.removeAll [name] ++ [(name, value)]

def contains (name : String) : Bool :=
  headers.any fun header => header.1 = name

def getAll (name : String) : List V :=
  (headers.filter fun header => header.1 = name).map (·.2)

def insertAll (headers entries : HeaderMap V) : HeaderMap V :=
  entries.foldl (fun headers entry => headers.insert entry.1 entry.2) headers

variable {headers entries : HeaderMap V} {header : String × V} {name : String}

theorem mem_removeAll {names : List String} :
    header ∈ headers.removeAll names ↔ header ∈ headers ∧ header.1 ∉ names := by
  simp [removeAll]

theorem mem_insertAll (h : header ∈ headers.insertAll entries) :
    header ∈ entries ∨ header ∈ headers ∧ ∀ entry ∈ entries, entry.1 ≠ header.1 := by
  induction entries generalizing headers with
  | nil => exact .inr ⟨h, nofun⟩
  | cons entry entries ih =>
    have h : header ∈ (headers.insert entry.1 entry.2).insertAll entries := h
    rcases ih h with hmem | ⟨hmem, hnone⟩
    · exact .inl (mem_cons_of_mem _ hmem)
    · rw [HeaderMap.insert, mem_append, mem_removeAll, mem_singleton, mem_singleton] at hmem
      rcases hmem with ⟨hold, hne⟩ | rfl
      · exact .inr ⟨hold, forall_mem_cons.mpr ⟨Ne.symm hne, hnone⟩⟩
      · exact .inl mem_cons_self

theorem getAll_append (headers entries : HeaderMap V) :
    (headers ++ entries).getAll name = headers.getAll name ++ entries.getAll name := by
  rw [getAll, filter_append, map_append, getAll, getAll]

theorem mem_getAll {value : V} : value ∈ headers.getAll name ↔ (name, value) ∈ headers := by
  simp [getAll]

/-- Either all values of a header pass a test of its name or none does. -/
theorem getAll_filter (headers : HeaderMap V) (test : String → Bool) :
    HeaderMap.getAll (headers.filter fun header => test header.1) name =
      if test name then headers.getAll name else [] := by
  rw [getAll, filter_filter]
  split
  · congr 1
    refine filter_congr fun header _ => ?_
    by_cases hname : header.1 = name <;> simp [*]
  · rename_i hfalse
    rw [filter_eq_nil_iff.mpr, map_nil]
    rintro header - h
    simp only [Bool.and_eq_true, decide_eq_true_eq] at h
    exact hfalse (h.1 ▸ h.2)

theorem getAll_removeAll (headers : HeaderMap V) {names : List String} (h : name ∉ names) :
    (headers.removeAll names).getAll name = headers.getAll name := by
  rw [removeAll, getAll_filter headers (· ∉ names), if_pos (decide_eq_true h)]

theorem getAll_insert (headers : HeaderMap V) (name' : String) (value : V) :
    (headers.insert name' value).getAll name =
      if name' = name then [value] else headers.getAll name := by
  rw [insert, getAll_append]
  split
  · rename_i heq
    have hnone : (headers.removeAll [name']).getAll name = [] := by
      simp [getAll, removeAll, heq]
    rw [hnone, getAll, heq]
    simp
  · rename_i hne
    rw [getAll_removeAll headers (by simpa using Ne.symm hne)]
    simp [getAll, hne]

/-- The last value written under a name, or those that were there. -/
theorem getAll_insertAll (headers entries : HeaderMap V) :
    (headers.insertAll entries).getAll name =
      ((entries.getAll name).getLast?.map ([·])).getD (headers.getAll name) := by
  induction entries generalizing headers with
  | nil => rfl
  | cons entry entries ih =>
    rw [insertAll, foldl_cons, ← insertAll, ih, getAll_insert]
    by_cases hname : entry.1 = name
    · rw [if_pos hname, getAll, getAll, filter_cons_of_pos (by simpa using hname),
        map_cons, getLast?_cons]
      cases (List.map (·.2) (entries.filter fun header => header.1 = name)).getLast? <;> rfl
    · rw [if_neg hname, getAll, getAll, getAll, filter_cons_of_neg (by simpa using hname)]

end HeaderMap

/-! ### Which headers pass -/

def clientTokenHeader : String := "x-nemo-relay-client-token"

def operationIdHeader : String := "x-nemo-relay-operation-id"

def upstreamBaseUrlHeader : String := "x-nemo-relay-upstream-base-url"

def dispatchUrlHeader : String := "x-nemo-relay-internal-dispatch-url"

def dispatchRouteHeader : String := "x-nemo-relay-internal-dispatch-route"

def internalDispatchHeaders : List String :=
  [dispatchUrlHeader, dispatchRouteHeader, "x-nemo-relay-internal-dispatch-backend",
    "x-nemo-relay-internal-retry-aware"]

/-- `AUTHORIZATION` and `PROVIDER_API_KEY_HEADERS`. -/
def providerCredentialHeaders : List String :=
  ["authorization", "x-api-key", "api-key", "anthropic-api-key"]

/-- The credentials that middleware does not see. -/
def hiddenCredentialHeaders : List String :=
  ["authorization", "cookie", "x-api-key", "api-key", "anthropic-api-key"]

variable (name : String)

def isHopByHop : Bool :=
  name ∈ ["connection", "keep-alive", "proxy-authenticate", "proxy-authorization", "te", "trailer",
    "transfer-encoding", "upgrade"]

def stripStart (start text : String) : Option String :=
  (Text.stripStart start.toList text.toList).map .ofList

def trim (text : String) : String := .ofList (Text.trim text.toList)

section Filters

variable {V : Type} [Http V]

def connectionTokens (connection : List V) : List String :=
  (connection.filterMap Http.toStr).flatMap fun value =>
    (value.toList.splitOn ',').map fun token => trim (.ofList token)

/-- The values of `connection` name the header. -/
def nominates (connection : List V) (name : String) : Bool :=
  (connectionTokens connection).any fun token => eqIgnoreAsciiCase token name

variable (headers : HeaderMap V)

def namedByConnectionHeader : Bool :=
  nominates (headers.getAll "connection") name

def shouldForwardRequestHeader : Bool :=
  !isHopByHop name && !namedByConnectionHeader name headers &&
    name ∉ ["host", "content-length", clientTokenHeader, operationIdHeader,
      "x-nemo-relay-proxy-token", upstreamBaseUrlHeader, "accept-encoding"]

def shouldRecordHeader : Bool :=
  shouldForwardRequestHeader name headers && name ∉ hiddenCredentialHeaders &&
    (stripStart "x-nemo-relay-internal-" name).isNone

def recordAnthropicProtocolHeader (output : Object) (name : String) : Object :=
  let values := headers.getAll name
  let texts := values.filterMap Http.toStr
  if !shouldRecordHeader name headers || values.isEmpty || texts.length ≠ values.length then output
  else
    SortedMap.insert output name <|
      match texts with
      | [text] => .str text
      | texts =>
        if name = "anthropic-beta" then .str (",".intercalate texts) else Json.strings texts

/-- The headers that middleware sees. -/
def observableHeaders : Object :=
  ["anthropic-beta", "anthropic-version"].foldl (recordAnthropicProtocolHeader headers) <|
    headers.foldl (fun output header =>
      match Http.toStr header.2 with
      | some text =>
        if header.1 ∉ ["anthropic-beta", "anthropic-version"] && shouldRecordHeader header.1 headers
        then SortedMap.insert output header.1 (.str text)
        else output
      | none => output) []

/-! ### Headers that middleware returns -/

def jsonHeaderValue (value : Json) : Option V :=
  Http.headerValue (V := V) (value.asStr.getD (Http.printJson V value))

/-- A header that middleware returns, as it is written. -/
def rewrittenHeader (preserveContentEncoding : Bool) (entry : String × Json) :
    Option (String × V) := do
  let name ← (Http.headerName V entry.1).filter fun name =>
    name ∉ internalDispatchHeaders ∧ ¬ (preserveContentEncoding ∧ name = "content-encoding")
  let value ← jsonHeaderValue entry.2
  return (name, value)

def applyRewrittenHeaders (requestHeaders : Object) (preserveContentEncoding : Bool) :
    HeaderMap V :=
  headers.insertAll (requestHeaders.filterMap (rewrittenHeader preserveContentEncoding))

/-- Middleware set the value. -/
def MiddlewareSet (request : LlmRequest) (header : String × V) : Prop :=
  ∃ entry ∈ request.headers,
    Http.headerName V entry.1 = some header.1 ∧ jsonHeaderValue entry.2 = some header.2

theorem rewrittenHeader_eq_some {preserve : Bool} {entry : String × Json} {header : String × V} :
    rewrittenHeader preserve entry = some header ↔
      Http.headerName V entry.1 = some header.1 ∧ jsonHeaderValue entry.2 = some header.2 ∧
        header.1 ∉ internalDispatchHeaders ∧ ¬ (preserve ∧ header.1 = "content-encoding") := by
  obtain ⟨name, value⟩ := header
  simp only [rewrittenHeader, Option.bind_eq_bind, Option.bind_eq_some_iff, Option.pure_def,
    Option.some.injEq, Prod.mk.injEq, Option.filter_eq_some_iff, decide_eq_true_eq]
  constructor
  · rintro ⟨_, ⟨hname, hkept⟩, _, hvalue, rfl, rfl⟩
    exact ⟨hname, hvalue, hkept⟩
  · rintro ⟨hname, hvalue, hkept⟩
    exact ⟨name, ⟨hname, hkept⟩, value, hvalue, rfl, rfl⟩

end Filters

end NemoRelay.Gateway

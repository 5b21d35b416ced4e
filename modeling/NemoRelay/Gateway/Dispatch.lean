import NemoRelay.Gateway.UpstreamAuth

/-!
# Forwarding to a provider

Middleware may return a request with other headers and another body, and may name the target of the
request itself. The foreground gateway then drops the credentials of the caller and sends the
headers of the result that may pass.
-/

namespace NemoRelay.Gateway

open HeaderMap

inductive ProviderRoute
  | openAiResponses
  | openAiChatCompletions
  | openAiResponsesCompact
  | openAiRealtime
  | openAiRealtimeCalls
  | openAiLive
  | openAiImagesGenerations
  | openAiImagesEdits
  | openAiMemoriesSummarize
  | openAiStandaloneSearch
  | openAiModels
  | anthropicMessages
  | anthropicCountTokens
  | anthropicModels
deriving DecidableEq

namespace ProviderRoute

def isAnthropic (route : ProviderRoute) : Bool :=
  route ∈ [anthropicMessages, anthropicCountTokens, anthropicModels]

def allowsRelayAuth (route : ProviderRoute) : Bool :=
  route ∈ [openAiResponses, openAiChatCompletions, openAiModels] || route.isAnthropic

def fromDispatchOverride (value : String) : Option ProviderRoute :=
  if value ∈ ["openai_chat", "openai_chat_completions", "openai.chat_completions",
    "/v1/chat/completions"] then some openAiChatCompletions
  else if value ∈ ["openai_responses", "openai.responses", "/v1/responses"] then
    some openAiResponses
  else if value ∈ ["openai_images_generations", "openai.images.generations",
    "/v1/images/generations"] then some openAiImagesGenerations
  else if value ∈ ["openai_models", "openai.models", "/models", "/v1/models"] then some openAiModels
  else if value ∈ ["anthropic_messages", "anthropic.messages", "/v1/messages"] then
    some anthropicMessages
  else if value ∈ ["anthropic_count_tokens", "anthropic.count_tokens",
    "/v1/messages/count_tokens"] then some anthropicCountTokens
  else none

end ProviderRoute

/-! ### Targets that middleware names -/

def jsonHeaderString (value : Json) : Option String := (value.asStr.map trim).filter (· ≠ "")

structure DispatchOverrides where
  url : Option String := none
  route : Option ProviderRoute := none
  routeHeaderSeen : Bool := false

def DispatchOverrides.isExplicitTarget (overrides : DispatchOverrides) : Bool :=
  overrides.url.isSome || overrides.routeHeaderSeen

def DispatchOverrides.resolveUrl (overrides : DispatchOverrides) (fallback : String) : String :=
  if overrides.routeHeaderSeen && overrides.route.isNone then fallback
  else overrides.url.getD fallback

def dispatchOverrides (headers : Object) : DispatchOverrides :=
  headers.foldl (fun overrides header =>
    if eqIgnoreAsciiCase header.1 dispatchUrlHeader then
      { overrides with url := jsonHeaderString header.2 }
    else if eqIgnoreAsciiCase header.1 dispatchRouteHeader then
      { overrides with
        routeHeaderSeen := true
        route := (jsonHeaderString header.2).bind ProviderRoute.fromDispatchOverride }
    else overrides) {}

/-! ### The request that is sent -/

inductive TargetCredentialPolicy
  | sourceOrEnvironment
  | explicitTarget
deriving DecidableEq

abbrev Bytes := List UInt8

structure EffectiveUpstreamRequest (V : Type) where
  bodyBytes : Bytes
  headers : HeaderMap V
  url : String
  targetRoute : ProviderRoute
  credentialPolicy : TargetCredentialPolicy

/-- A request at the point where it is sent, with the credential attached to it. -/
structure SentRequest (V : Type) where
  url : String
  bodyBytes : Bytes
  headers : HeaderMap V
  attached : Option (String × V)
deriving DecidableEq

section Dispatch

variable {V : Type} [Http V] (toVec : Json → Bytes) (env : Environment) (request : LlmRequest)

def bodyUnchanged (sourceBody : Option Json) : Bool :=
  !request.content.isNull && sourceBody = some request.content

/-- The body, and whether it was written again. -/
def reencodeRequestBody (bodyBytes : Bytes) (bodyUnchanged : Bool) : Bytes × Bool :=
  if request.content.isNull || bodyUnchanged then (bodyBytes, false)
  else (toVec request.content, true)

def effectiveDispatchRequest (bodyBytes : Bytes) (headers : HeaderMap V)
    (effectiveRequest : Option LlmRequest) (url : String) (route : ProviderRoute)
    (sourceBody : Option Json) : EffectiveUpstreamRequest V :=
  let headers := headers.removeAll internalDispatchHeaders
  match effectiveRequest with
  | none => ⟨bodyBytes, headers, url, route, .sourceOrEnvironment⟩
  | some request =>
    let bodyUnchanged := bodyUnchanged request sourceBody
    let (bodyBytes, bodyReencoded) := reencodeRequestBody toVec request bodyBytes bodyUnchanged
    let overrides := dispatchOverrides request.headers
    let headers :=
      if overrides.isExplicitTarget then headers.removeAll providerCredentialHeaders else headers
    let headers := applyRewrittenHeaders headers request.headers bodyUnchanged
    { bodyBytes
      headers := if bodyReencoded then headers.removeAll ["content-encoding"] else headers
      url := overrides.resolveUrl url
      targetRoute := overrides.route.getD route
      credentialPolicy :=
        if overrides.isExplicitTarget then .explicitTarget else .sourceOrEnvironment }

/-- `forward_upstream_request` up to the point where the request is sent. -/
def forwardUpstreamRequest (config : GatewayConfig) (sourceRoute : ProviderRoute)
    (allowEnvironmentProviderAuth : Bool) (url : String) (bodyBytes : Bytes) (headers : HeaderMap V)
    (effectiveRequest : Option LlmRequest) (sourceBody : Option Json) : Option (SentRequest V) := do
  let effective :=
    effectiveDispatchRequest toVec bodyBytes headers effectiveRequest url sourceRoute sourceBody
  let allowConfiguredAuth :=
    effective.credentialPolicy = .sourceOrEnvironment && allowEnvironmentProviderAuth
  let forwarded := effective.headers.filter fun header =>
    shouldForwardRequestHeader header.1 effective.headers
  let (headers, attached) ← applyForDestination env forwarded effective.url
    effective.targetRoute.isAnthropic (allowConfiguredAuth && effective.targetRoute.allowsRelayAuth)
    config
  return ⟨effective.url, effective.bodyBytes, headers, attached⟩

/-! ### Credentials at an explicit target -/

/-- No credential that is hidden from middleware is sent, but those that middleware set. -/
def OnlyMiddlewareCredentials (headers : HeaderMap V) : Prop :=
  ∀ header ∈ headers, header.1 ∈ hiddenCredentialHeaders → MiddlewareSet request header

/-- The values of `connection` after the headers of the request were written. -/
def writtenConnection (headers : HeaderMap V) : List V :=
  let written : HeaderMap V := request.headers.filterMap (rewrittenHeader false)
  ((written.getAll "connection").getLast?.map ([·])).getD (headers.getAll "connection")

/-- The caller sent a cookie, middleware sets none, and nothing on the way to the target drops it:
`connection` does not name it and the target is not plaintext on another machine. -/
structure CookiePasses (headers : HeaderMap V) (request : LlmRequest) (url : String) : Prop where
  sent : headers.contains "cookie" = true
  notSet : ∀ value : V, ¬ MiddlewareSet request ("cookie", value)
  notNominated : nominates (writtenConnection request headers) "cookie" = false
  notPlaintext : ¬ Plaintext env ((dispatchOverrides request.headers).resolveUrl url)

variable {config : GatewayConfig} {bodyBytes : Bytes} {headers : HeaderMap V} {request : LlmRequest}
  {url : String} {sourceRoute : ProviderRoute} {sourceBody : Option Json} {header : String × V}

theorem mem_rewritten {preserve : Bool} :
    header ∈ request.headers.filterMap (rewrittenHeader preserve) ↔
      MiddlewareSet request header ∧ header.1 ∉ internalDispatchHeaders ∧
        ¬ (preserve ∧ header.1 = "content-encoding") := by
  simp only [List.mem_filterMap, rewrittenHeader_eq_some]
  constructor
  · rintro ⟨entry, hentry, hname, hvalue, hkept⟩
    exact ⟨⟨entry, hentry, hname, hvalue⟩, hkept⟩
  · rintro ⟨⟨entry, hentry, hname, hvalue⟩, hkept⟩
    exact ⟨entry, hentry, hname, hvalue, hkept⟩

omit [Http V] in
theorem mem_ite_removeAll {again : Bool} {names : List String} :
    header ∈ (if again then headers.removeAll names else headers) ↔
      header ∈ headers ∧ (again = true → header.1 ∉ names) := by
  cases again <;> simp [mem_removeAll]

theorem mem_effectiveDispatchRequest
    (h : header ∈ (effectiveDispatchRequest toVec bodyBytes headers (some request) url sourceRoute
      sourceBody).headers) :
    (MiddlewareSet request header ∨ header ∈ headers) ∧ header.1 ∉ internalDispatchHeaders := by
  rcases mem_insertAll (mem_ite_removeAll.mp h).1 with hwritten | ⟨hold, -⟩
  · have hwritten := mem_rewritten.mp hwritten
    exact ⟨.inl hwritten.1, hwritten.2.1⟩
  · have hold := mem_removeAll.mp (mem_ite_removeAll.mp hold).1
    exact ⟨.inr hold.1, hold.2⟩

/-- Whether `content-encoding` is kept makes no difference to the other headers. -/
theorem getAll_rewritten (preserve : Bool) {name : String} (hname : name ≠ "content-encoding") :
    getAll (V := V) (request.headers.filterMap (rewrittenHeader preserve)) name =
      getAll (request.headers.filterMap (rewrittenHeader false)) name := by
  rw [getAll, getAll, List.filter_filterMap, List.filter_filterMap]
  congr 2
  funext entry
  ext header
  simp only [Option.filter_eq_some_iff, rewrittenHeader_eq_some, decide_eq_true_eq]
  refine and_congr_left fun h => ?_
  simp [h, hname]

/-- Apart from the headers that are dropped, the last value that middleware set counts. -/
theorem getAll_effective {name : String} (hname : name ∉ internalDispatchHeaders)
    (hencoding : name = "content-encoding" →
      (reencodeRequestBody toVec request bodyBytes (bodyUnchanged request sourceBody)).2 = false)
    (hcredential : (dispatchOverrides request.headers).isExplicitTarget = true →
      name ∉ providerCredentialHeaders) :
    (effectiveDispatchRequest toVec bodyBytes headers (some request) url sourceRoute
      sourceBody).headers.getAll name =
      ((getAll (V := V) (request.headers.filterMap (rewrittenHeader (bodyUnchanged request
        sourceBody))) name).getLast?.map ([·])).getD (headers.getAll name) := by
  have hkept : ∀ (names : List String) (dropped : Bool) (headers : HeaderMap V),
      (dropped = true → name ∉ names) →
      getAll (if dropped then headers.removeAll names else headers) name = headers.getAll name := by
    intro names dropped headers hnot
    cases dropped with
    | false => rfl
    | true => exact getAll_removeAll headers (hnot rfl)
  simp only [effectiveDispatchRequest, applyRewrittenHeaders]
  rw [hkept, getAll_insertAll, hkept _ _ _ hcredential, getAll_removeAll _ hname]
  intro hagain hmem
  rw [hencoding (List.mem_singleton.mp hmem)] at hagain
  cases hagain

theorem getAll_connection_forwarded (headers : HeaderMap V) :
    getAll (headers.filter fun header => shouldForwardRequestHeader header.1 headers) "connection" =
      [] := by
  rw [getAll_filter headers fun name => shouldForwardRequestHeader name headers]
  simp [shouldForwardRequestHeader, isHopByHop]

/-- The headers of a request that names its target. -/
theorem headers_explicit (bodyBytes : Bytes) (headers : HeaderMap V) (url : String)
    (sourceRoute : ProviderRoute) (sourceBody : Option Json)
    (hexplicit : (dispatchOverrides request.headers).isExplicitTarget = true) :
    let effective := effectiveDispatchRequest toVec bodyBytes headers (some request) url sourceRoute
      sourceBody
    (∀ header ∈ effective.headers, header.1 ∈ hiddenCredentialHeaders →
      MiddlewareSet request header ∨ header.1 = "cookie" ∧ header ∈ headers ∧
        ∀ value : V, ¬ MiddlewareSet request ("cookie", value)) ∧
    (∀ header ∈ headers, header.1 = "cookie" →
      (∀ value : V, ¬ MiddlewareSet request ("cookie", value)) → header ∈ effective.headers) ∧
    effective.headers.getAll "connection" = writtenConnection request headers := by
  intro effective
  have hconnection : effective.headers.getAll "connection" = writtenConnection request headers := by
    rw [getAll_effective toVec (by decide) (fun h => absurd h (by decide)) fun _ => by decide,
      getAll_rewritten _ (by decide)]
    rfl
  rw [← and_assoc]
  refine ⟨?_, hconnection⟩
  refine ⟨fun header hmem hhidden => ?_, ?_⟩
  · simp only [effective, effectiveDispatchRequest, hexplicit, if_true] at hmem
    rcases mem_insertAll (mem_ite_removeAll.mp hmem).1 with hwritten | ⟨hold, hnone⟩
    · exact .inl (mem_rewritten.mp hwritten).1
    · rw [mem_removeAll, mem_removeAll] at hold
      have hcookie : header.1 = "cookie" := by
        have hprovider := hold.2
        simp only [hiddenCredentialHeaders, providerCredentialHeaders, List.mem_cons]
          at hhidden hprovider
        tauto
      refine .inr ⟨hcookie, hold.1.1, fun value hset => ?_⟩
      exact hnone _ (mem_rewritten.mpr ⟨hset, by simp [internalDispatchHeaders, dispatchUrlHeader,
        dispatchRouteHeader]⟩) hcookie.symm
  · rintro ⟨name, value⟩ hmem rfl hunset
    have hnone : getAll (V := V) (request.headers.filterMap (rewrittenHeader (bodyUnchanged request
        sourceBody))) "cookie" = [] := List.eq_nil_iff_forall_not_mem.mpr fun value hvalue =>
      hunset value (mem_rewritten.mp (mem_getAll.mp hvalue)).1
    rw [← mem_getAll, getAll_effective toVec (by decide) (fun h => absurd h (by decide)) fun _ => by
      decide, hnone]
    exact mem_getAll.mpr hmem

theorem applied_of_forward {allowed : Bool} {sent : SentRequest V}
    (h : forwardUpstreamRequest toVec env config sourceRoute allowed url bodyBytes headers
      (some request) sourceBody = some sent) :
    let effective := effectiveDispatchRequest toVec bodyBytes headers (some request) url sourceRoute
      sourceBody
    Applied env
      (effective.headers.filter fun header => shouldForwardRequestHeader header.1 effective.headers)
      ((dispatchOverrides request.headers).resolveUrl url) effective.targetRoute.isAnthropic
      ((effective.credentialPolicy = .sourceOrEnvironment && allowed) &&
        effective.targetRoute.allowsRelayAuth) config sent.headers sent.attached := by
  simp only [forwardUpstreamRequest, Option.bind_eq_bind, Option.bind_eq_some_iff, Prod.exists,
    Option.pure_def, Option.some.injEq] at h
  obtain ⟨headers', attached, happlied, rfl⟩ := h
  exact applyForDestination_spec env happlied

/-- What an explicit target receives from the foreground gateway: the only credential of the caller
that can reach it is a cookie. -/
theorem forward_explicit_iff (allowed : Bool) {sent : SentRequest V}
    (hexplicit : (dispatchOverrides request.headers).isExplicitTarget = true)
    (h : forwardUpstreamRequest toVec env config sourceRoute allowed url bodyBytes headers
      (some request) sourceBody = some sent) :
    OnlyMiddlewareCredentials request sent.headers ↔ ¬ CookiePasses env headers request url := by
  obtain ⟨hfrom, hkeeps, hconnection⟩ :=
    headers_explicit toVec bodyBytes headers url sourceRoute sourceBody hexplicit
  have happlied := applied_of_forward toVec env h
  have hnone : sent.attached = none := by
    refine Option.eq_none_iff_forall_ne_some.mpr fun credential hattached => ?_
    have hallowed := (happlied.credential credential hattached).1
    simp [effectiveDispatchRequest, hexplicit] at hallowed
  constructor
  · rintro honly ⟨hsent, hunset, hnominated, hplain⟩
    obtain ⟨⟨name, value⟩, hmem, hname⟩ := List.any_eq_true.mp hsent
    have hname : name = "cookie" := by simpa using hname
    subst hname
    refine hunset value (honly _ ?_ (by simp [hiddenCredentialHeaders]))
    rw [← mem_getAll, happlied.kept (getAll_connection_forwarded _) _
      (fun h => absurd h hplain) (by simp [hnone]), mem_getAll, List.mem_filter]
    refine ⟨hkeeps _ hmem rfl hunset, ?_⟩
    simp [shouldForwardRequestHeader, namedByConnectionHeader, hconnection, hnominated, isHopByHop,
      clientTokenHeader, operationIdHeader, upstreamBaseUrlHeader]
  · rintro hnot header hmem hhidden
    have hforwarded : header ∈ _ :=
      (happlied.from_headers header hmem).resolve_right (by simp [hnone])
    obtain ⟨hmem', hpasses⟩ := List.mem_filter.mp hforwarded
    rcases hfrom header hmem' hhidden with hset | ⟨hcookie, hsent, hunset⟩
    · exact hset
    · refine absurd ⟨?_, hunset, ?_, ?_⟩ hnot
      · exact List.any_eq_true.mpr ⟨header, hsent, by simpa using hcookie⟩
      · simp only [shouldForwardRequestHeader, namedByConnectionHeader, hconnection, hcookie,
          Bool.and_eq_true, Bool.not_eq_true'] at hpasses
        exact hpasses.1.2
      · intro hplain
        have hname := happlied.plaintext hplain header hmem
        rw [hcookie] at hname
        exact absurd hname (by decide)

end Dispatch

/-- Every text is a name and a value. -/
@[reducible] def plainHttp : Http String := ⟨some, some, some, fun _ => ""⟩

/-- Two providers without credentials. -/
def openConfig : GatewayConfig := { openai := { baseUrl := "a" }, anthropic := { baseUrl := "b" } }

/-- Every URL is one of a host that is reached encrypted. -/
def encryptedOnly : Environment where
  var := fun _ => none
  resolveToken := fun _ _ => none
  upstreamToken := fun _ => none
  parseUrl := fun text => some ⟨"https", some text, text, "", none, none⟩
  isLoopbackAddress := fun _ => false
  allowsHttpHost := fun _ => false
  validateConfig := fun _ => true

end NemoRelay.Gateway

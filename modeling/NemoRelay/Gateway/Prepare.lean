import NemoRelay.Gateway.Dispatch

/-!
# Where a credential of the gateway goes

A request is prepared before middleware sees it: its route and its upstream are chosen and it is
decided whether the gateway may attach a credential it holds. The credential is attached when the
request is sent. The two decisions together confine a credential to the upstream it is held for.

How a caller names an upstream and what a ChatGPT token looks like are arguments.
-/

namespace NemoRelay.Gateway

open Option

def startsWith (text start : String) : Bool := (stripStart start text).isSome

def stripEnd (suffix text : String) : Option String :=
  (Text.stripStart suffix.toList.reverse text.toList.reverse).map fun rest => .ofList rest.reverse

def trimSlashes (text : String) : String :=
  .ofList (text.toList.reverse.dropWhile (· = '/')).reverse

/-! ### Routes -/

def liveSidebandPath (path : String) : Bool :=
  ((stripStart "/v1/live/" path).or (stripStart "/live/" path)).any fun suffix =>
    let id :=
      match stripStart "sessions/" suffix with
      | some suffix => stripEnd "/attach" suffix
      | none => some suffix
    id.any fun id => id ≠ "" && '/' ∉ id.toList && id ∉ [".", "..", "sessions"]

namespace ProviderRoute

def paths : List (String × ProviderRoute) :=
  [("/responses", openAiResponses), ("/v1/responses", openAiResponses),
    ("/backend-api/codex/responses", openAiResponses),
    ("/chat/completions", openAiChatCompletions), ("/v1/chat/completions", openAiChatCompletions),
    ("/responses/compact", openAiResponsesCompact),
    ("/v1/responses/compact", openAiResponsesCompact),
    ("/backend-api/codex/responses/compact", openAiResponsesCompact),
    ("/realtime", openAiRealtime), ("/v1/realtime", openAiRealtime),
    ("/realtime/calls", openAiRealtimeCalls), ("/v1/realtime/calls", openAiRealtimeCalls),
    ("/backend-api/codex/realtime/calls", openAiRealtimeCalls), ("/live", openAiLive),
    ("/v1/live", openAiLive), ("/live/sessions", openAiLive), ("/v1/live/sessions", openAiLive),
    ("/v1/images/generations", openAiImagesGenerations), ("/images/edits", openAiImagesEdits),
    ("/v1/images/edits", openAiImagesEdits), ("/memories/trace_summarize", openAiMemoriesSummarize),
    ("/v1/memories/trace_summarize", openAiMemoriesSummarize),
    ("/alpha/search", openAiStandaloneSearch), ("/v1/alpha/search", openAiStandaloneSearch),
    ("/models", openAiModels), ("/v1/models", openAiModels), ("/v1/messages", anthropicMessages),
    ("/v1/messages/count_tokens", anthropicCountTokens)]

def fromPath (path : String) : Option ProviderRoute :=
  ((paths.find? (·.1 = path)).map (·.2)).or
    (if liveSidebandPath path then some openAiLive else none)

def fromRequest {V : Type} (path : String) (headers : HeaderMap V) : Option ProviderRoute :=
  if path ∈ ["/models", "/v1/models"] &&
    (headers.contains "anthropic-version" || headers.contains "anthropic-beta")
  then some anthropicModels
  else fromPath path

variable (route : ProviderRoute)

def canonicalPathAndQuery (pathAndQuery : String) : String :=
  match stripStart "/backend-api/codex/realtime/calls" pathAndQuery,
    stripStart "/backend-api/codex/responses" pathAndQuery with
  | some suffix, _ =>
    if route = openAiRealtimeCalls then "/realtime/calls" ++ suffix else pathAndQuery
  | none, some suffix =>
    if route ∈ [openAiResponses, openAiResponsesCompact] then "/responses" ++ suffix
    else pathAndQuery
  | none, none => pathAndQuery

def normalizeV1PathForBase (base pathAndQuery : String) : String :=
  match (stripEnd "/v1" base).isSome, startsWith pathAndQuery "/v1/" with
  | true, true => (stripStart "/v1" pathAndQuery).getD pathAndQuery
  | false, false => "/v1" ++ pathAndQuery
  | _, _ => pathAndQuery

def upstreamUrlWithBase (base pathAndQuery : String) : String :=
  let base := trimSlashes base
  base ++ normalizeV1PathForBase base (route.canonicalPathAndQuery pathAndQuery)

/-- Every route has the base of its provider. -/
def upstreamUrl (config : GatewayConfig) (pathAndQuery : String) : String :=
  route.upstreamUrlWithBase (config.provider route.isAnthropic).baseUrl pathAndQuery

def isChatgptBackendRoute : Bool :=
  route ∈ [openAiResponses, openAiChatCompletions, openAiResponsesCompact, openAiRealtimeCalls,
    openAiImagesGenerations, openAiImagesEdits, openAiMemoriesSummarize, openAiStandaloneSearch,
    openAiModels]

end ProviderRoute

/-! ### Upstreams -/

inductive NamedUpstream
  | absent
  | named (base : String)
  | rejected (reason : String)

def mintsCredential (provider : ProviderConfig) : Bool :=
  provider.apiKeyHelper.isSome || provider.oidc.isSome

def hasReplacement (provider : ProviderConfig) : Bool :=
  mintsCredential provider || provider.apiKey.isSome || provider.authHeader.isSome

section Prepare

variable {V : Type} [Http V] (env : Environment) (hasChatgptAuthToken : HeaderMap V → Bool)
  (clientNamedUpstreamBase : HeaderMap V → Bool → NamedUpstream) (config : GatewayConfig)

def hasOpenaiReplacementAuth (route : ProviderRoute) (allowEnvironmentProviderAuth : Bool) : Bool :=
  allowEnvironmentProviderAuth && route.allowsRelayAuth && !route.isAnthropic &&
    (hasReplacement (config.provider route.isAnthropic) || (environmentKey env false).isSome)

def chatgptCodexBaseUrl : String := "https://chatgpt.com/backend-api/codex"

variable (headers : HeaderMap V)

def chatgptUpstreamUrlIfNeeded (route : ProviderRoute) (pathAndQuery : String)
    (hasReplacementKey : Bool) : Option String :=
  let explicitChatgptToken := startsWith pathAndQuery "/backend-api/codex/" &&
    ((headers.getAll "authorization").head?.bind Http.toStr).any fun value =>
      startsWith value "Bearer eyJ" || startsWith value "Bearer at-"
  if route.isChatgptBackendRoute && (explicitChatgptToken || hasChatgptAuthToken headers) &&
    !hasReplacementKey
  then
    let path := ((stripStart "/backend-api/codex" pathAndQuery).or
      (stripStart "/v1" pathAndQuery)).getD pathAndQuery
    some (chatgptCodexBaseUrl ++ path)
  else none

def realtimeCalls : String := "/backend-api/codex/realtime/calls"

def customOpenaiBase : Bool :=
  trimSlashes config.openai.baseUrl ≠ "https://api.openai.com/v1"

def gatewayUpstreamUrlOverride (route : ProviderRoute) (headers : HeaderMap V)
    (pathAndQuery : String) (allowEnvironmentProviderAuth : Bool) : Option String :=
  if !startsWith pathAndQuery realtimeCalls && customOpenaiBase config then none
  else
    let replaced := hasOpenaiReplacementAuth env config route allowEnvironmentProviderAuth &&
      !startsWith pathAndQuery realtimeCalls
    let canonical :=
      if startsWith pathAndQuery "/backend-api/codex/" then pathAndQuery
      else route.canonicalPathAndQuery pathAndQuery
    (chatgptUpstreamUrlIfNeeded hasChatgptAuthToken headers route canonical replaced).map fun url =>
      match config.chatgptCodexBaseUrl, stripStart chatgptCodexBaseUrl url with
      | some base, some path => trimSlashes base ++ path
      | _, _ => url

def stripReplaceableAgentAuthHeaders (route : ProviderRoute) (path : String)
    (allowEnvironmentProviderAuth : Bool) : HeaderMap V :=
  let chatgptAuth := ["authorization", "chatgpt-account-id"]
  let unmanaged :=
    !route.allowsRelayAuth && customOpenaiBase config && !startsWith path realtimeCalls
  let replaced := route.isChatgptBackendRoute &&
    hasOpenaiReplacementAuth env config route allowEnvironmentProviderAuth
  if (unmanaged || replaced) && hasChatgptAuthToken headers then headers.removeAll chatgptAuth
  else headers

structure PreparedGatewayRequest (V : Type) where
  headers : HeaderMap V
  provider : ProviderRoute
  upstreamUrl : String
  allowEnvironmentProviderAuth : Bool
  clientNamedUpstream : Bool

def providerPathAndQuery (providerPath : String) (query : Option String) : String :=
  (query.map fun query => providerPath ++ "?" ++ query).getD providerPath

/-- The URL, and whether the caller named it. -/
def chooseUpstream (provider : ProviderRoute) (pathAndQuery : String)
    (agentOverride : Option String) (named : NamedUpstream) : Option (String × Bool) :=
  match agentOverride, named with
  | some url, _ => some (url, false)
  | none, .named base => some (trimSlashes base ++ pathAndQuery, true)
  | none, .rejected _ => none
  | none, .absent => some (provider.upstreamUrl config pathAndQuery, false)

def prepareGatewayRequest (providerPath : String) (query : Option String)
    (authenticated allowEnvironmentProviderAuth : Bool) :
    Option (PreparedGatewayRequest V) := do
  let headers := headers.removeAll (clientTokenHeader :: internalDispatchHeaders)
  let provider ← ProviderRoute.fromRequest providerPath headers
  let allowed := allowEnvironmentProviderAuth && provider.allowsRelayAuth
  let pathAndQuery := providerPathAndQuery providerPath query
  let agentOverride :=
    gatewayUpstreamUrlOverride env hasChatgptAuthToken config provider headers pathAndQuery allowed
  let chatgptCall := providerPath = realtimeCalls && agentOverride.isSome
  let (upstreamUrl, namedByClient) ← chooseUpstream config provider pathAndQuery agentOverride
    (clientNamedUpstreamBase headers authenticated)
  let allowed := allowed && !(namedByClient || chatgptCall)
  let headers := stripReplaceableAgentAuthHeaders env hasChatgptAuthToken config headers provider
    providerPath allowed
  let minted := allowed && hasReplacement (config.provider provider.isAnthropic) &&
    mintsCredential (config.provider provider.isAnthropic)
  let headers := if minted then headers.removeAll providerCredentialHeaders else headers
  return ⟨headers, provider, upstreamUrl, allowed, namedByClient⟩

variable {env hasChatgptAuthToken clientNamedUpstreamBase} {config : GatewayConfig}
  {headers : HeaderMap V} {path : String} {query : Option String} {route : ProviderRoute}

omit [Http V] in
/-- A route that may spend a credential is not one of the voice calls of the ChatGPT backend. -/
theorem not_realtimeCalls (hroute : ProviderRoute.fromRequest path headers = some route)
    (hallows : route.allowsRelayAuth = true) :
    startsWith (providerPathAndQuery path query) realtimeCalls = false := by
  have hpaths : ∀ entry ∈ ProviderRoute.paths, entry.2.allowsRelayAuth = true →
      ¬ (realtimeCalls.toList <+: entry.1.toList ∨ entry.1.toList <+: realtimeCalls.toList) := by
    decide +kernel
  have hpath : ¬ (realtimeCalls.toList <+: path.toList ∨ path.toList <+: realtimeCalls.toList) := by
    simp only [ProviderRoute.fromRequest, ProviderRoute.fromPath] at hroute
    split at hroute
    · rename_i hmodels
      simp only [Bool.and_eq_true, decide_eq_true_eq, List.mem_cons, List.not_mem_nil,
        or_false] at hmodels
      obtain ⟨rfl | rfl, -⟩ := hmodels <;> decide +kernel
    · rw [or_eq_some_iff, map_eq_some_iff] at hroute
      obtain ⟨entry, hentry, rfl⟩ | ⟨-, hlive⟩ := hroute
      · have hname : entry.1 = path := by simpa using List.find?_some hentry
        exact hname ▸ hpaths entry (List.mem_of_find?_eq_some hentry) hallows
      · split at hlive
        · cases hlive
          exact absurd hallows (by decide)
        · cases hlive
  have hrest : ∃ rest, (providerPathAndQuery path query).toList = path.toList ++ rest := by
    cases query with
    | none => exact ⟨[], (List.append_nil _).symm⟩
    | some query => exact ⟨("?" ++ query).toList, by simp [providerPathAndQuery]⟩
  obtain ⟨rest, hrest⟩ := hrest
  have hstart : ¬ realtimeCalls.toList <+: path.toList ++ rest := fun h =>
    hpath <| List.prefix_or_prefix_of_prefix h (List.prefix_append _ _)
  rw [startsWith, stripStart, Text.stripStart, hrest, if_neg (by simpa using hstart)]
  rfl

/-- Nothing is held for a request that goes to the ChatGPT backend. -/
theorem relayCredential_of_override {url pathAndQuery : String} {kept : HeaderMap V}
    (hcalls : startsWith pathAndQuery realtimeCalls = false)
    (hallows : route.allowsRelayAuth = true)
    (h : gatewayUpstreamUrlOverride env hasChatgptAuthToken config route headers pathAndQuery true =
      some url) (credential : String × V) :
    relayCredential env kept route.isAnthropic (config.provider route.isAnthropic) ≠
      some (some credential) := by
  simp only [gatewayUpstreamUrlOverride, hcalls, Bool.not_false, Bool.and_true] at h
  split at h
  · cases h
  · obtain ⟨_, h, -⟩ := Option.map_eq_some_iff.mp h
    have hneeded : route.isChatgptBackendRoute = true ∧
        hasOpenaiReplacementAuth env config route true = false := by
      rw [chatgptUpstreamUrlIfNeeded, ite_none_right_eq_some] at h
      simp only [Bool.and_eq_true, Bool.not_eq_true'] at h
      exact ⟨h.1.1.1, h.1.2⟩
    have hopenai : route.isAnthropic = false := by
      have hbackend := hneeded.1
      cases route <;> first | rfl | cases hbackend
    have hnothing := hneeded.2
    simp only [hasOpenaiReplacementAuth, hallows, hopenai, hasReplacement, mintsCredential,
      Bool.not_false, Bool.true_and, Bool.or_eq_false_iff, isSome_eq_false_iff,
      isNone_iff_eq_none] at hnothing
    obtain ⟨⟨⟨⟨hhelper, hoidc⟩, hkey⟩, hheader⟩, henv⟩ := hnothing
    simp only [hopenai, relayCredential, hoidc, hhelper, hkey, hheader, henv]
    split <;> simp

theorem route_isSome (headers : Object) :
    (dispatchOverrides headers).route.isSome →
      (dispatchOverrides headers).routeHeaderSeen = true := by
  refine List.foldlRecOn headers _ (motive := fun overrides : DispatchOverrides =>
    overrides.route.isSome → overrides.routeHeaderSeen = true) nofun ?_
  intro overrides ih header _
  split
  · exact ih
  · split
    · exact fun _ => rfl
    · exact ih

theorem effective_of_notExplicit (toVec : Json → Bytes) (bodyBytes : Bytes) (headers : HeaderMap V)
    (url : String) (route : ProviderRoute) (sourceBody : Option Json)
    {middleware : Option LlmRequest}
    (hexplicit : ∀ request, middleware = some request →
      (dispatchOverrides request.headers).isExplicitTarget = false) :
    let effective :=
      effectiveDispatchRequest toVec bodyBytes headers middleware url route sourceBody
    effective.url = url ∧ effective.targetRoute = route := by
  cases middleware with
  | none => exact ⟨rfl, rfl⟩
  | some request =>
    have hnone := hexplicit request rfl
    rw [DispatchOverrides.isExplicitTarget, Bool.or_eq_false_iff] at hnone
    have hnoroute : (dispatchOverrides request.headers).route = none := by
      by_contra hroute
      have hseen := route_isSome request.headers (Option.isSome_iff_ne_none.mpr hroute)
      simp [hnone.2] at hseen
    simp only [isSome_eq_false_iff, isNone_iff_eq_none] at hnone
    simp [effectiveDispatchRequest, DispatchOverrides.resolveUrl, hnone.1, hnoroute]

/-- A request prepared for a credential goes to the upstream of its provider. -/
theorem prepared_upstream {authenticated allowed : Bool} {prepared : PreparedGatewayRequest V}
    (hprepared : prepareGatewayRequest env hasChatgptAuthToken clientNamedUpstreamBase config
      headers path query authenticated allowed = some prepared)
    (hallow : prepared.allowEnvironmentProviderAuth = true)
    (hroute : prepared.provider.allowsRelayAuth = true) {kept : HeaderMap V}
    {credential : String × V}
    (hcredential : relayCredential env kept prepared.provider.isAnthropic
      (config.provider prepared.provider.isAnthropic) = some (some credential)) :
    prepared.upstreamUrl = prepared.provider.upstreamUrl config (providerPathAndQuery path query) ∧
    prepared.clientNamedUpstream = false ∧
    gatewayUpstreamUrlOverride env hasChatgptAuthToken config prepared.provider
      (headers.removeAll (clientTokenHeader :: internalDispatchHeaders))
      (providerPathAndQuery path query) true = none := by
  simp only [prepareGatewayRequest, bind_eq_bind, bind_eq_some_iff, Prod.exists,
    pure_def, Option.some.injEq] at hprepared
  obtain ⟨provider, hprovider, upstreamUrl, named, hupstream, rfl⟩ := hprepared
  simp only [Bool.and_eq_true, Bool.not_eq_true', Bool.or_eq_false_iff] at hallow
  obtain ⟨⟨hallow, -⟩, hnamed, -⟩ := hallow
  simp only [hallow, Bool.true_and, show provider.allowsRelayAuth = true from hroute] at hupstream
  cases hoverride : gatewayUpstreamUrlOverride env hasChatgptAuthToken config provider
    (headers.removeAll (clientTokenHeader :: internalDispatchHeaders))
    (providerPathAndQuery path query) true with
  | some url =>
    exact absurd hcredential (relayCredential_of_override (not_realtimeCalls hprovider hroute)
      hroute hoverride credential)
  | none =>
    refine ⟨?_, hnamed, rfl⟩
    rw [hoverride] at hupstream
    unfold chooseUpstream at hupstream
    split at hupstream <;> simp_all

/-- A credential that the gateway holds is attached only to a request to the upstream of its
provider: not if the caller named the upstream, middleware named the target, or the request goes to
the ChatGPT backend. No other header that is sent comes from the gateway. The headers forwarded are
any: an unmanaged request first loses its private ones. -/
theorem attached_confined (toVec : Json → Bytes) (env : Environment)
    (hasChatgptAuthToken : HeaderMap V → Bool)
    (clientNamedUpstreamBase : HeaderMap V → Bool → NamedUpstream) (config : GatewayConfig)
    (headers : HeaderMap V) (path : String) (query : Option String) (authenticated allowed : Bool)
    (prepared : PreparedGatewayRequest V) (forwarded : HeaderMap V) (bodyBytes : Bytes)
    (middleware : Option LlmRequest) (sourceBody : Option Json) (sent : SentRequest V)
    (hprepared : prepareGatewayRequest env hasChatgptAuthToken clientNamedUpstreamBase config
      headers path query authenticated allowed = some prepared)
    (hsent : forwardUpstreamRequest toVec env config prepared.provider
      prepared.allowEnvironmentProviderAuth prepared.upstreamUrl bodyBytes forwarded middleware
      sourceBody = some sent) :
    (∀ credential, sent.attached = some credential → ∃ anthropic kept,
      relayCredential env kept anthropic (config.provider anthropic) = some (some credential) ∧
      sent.url = prepared.provider.upstreamUrlWithBase (config.provider anthropic).baseUrl
        (providerPathAndQuery path query) ∧
      prepared.clientNamedUpstream = false ∧
      gatewayUpstreamUrlOverride env hasChatgptAuthToken config prepared.provider
        (headers.removeAll (clientTokenHeader :: internalDispatchHeaders))
        (providerPathAndQuery path query) true = none ∧
      ∀ request, middleware = some request →
        (dispatchOverrides request.headers).isExplicitTarget = false) ∧
    ∀ header ∈ sent.headers, sent.attached = some header ∨ header ∈ forwarded ∨
      ∃ request, middleware = some request ∧ MiddlewareSet request header := by
  simp only [forwardUpstreamRequest, bind_eq_bind, bind_eq_some_iff, Prod.exists,
    pure_def, Option.some.injEq] at hsent
  obtain ⟨headers', attached, happlied, rfl⟩ := hsent
  have happlied := applyForDestination_spec env happlied
  refine ⟨fun credential hattached => ?_, fun header hmem => ?_⟩
  · obtain ⟨hallowed, kept, hcredential⟩ := happlied.credential credential hattached
    simp only [Bool.and_eq_true] at hallowed
    obtain ⟨⟨hpolicy, hallow⟩, hroute⟩ := hallowed
    have hexplicit : ∀ request, middleware = some request →
        (dispatchOverrides request.headers).isExplicitTarget = false := by
      rintro request rfl
      simp only [effectiveDispatchRequest] at hpolicy
      split at hpolicy
      · cases hpolicy
      · rename_i hexplicit
        simpa using hexplicit
    obtain ⟨hurl, htarget⟩ := effective_of_notExplicit toVec bodyBytes forwarded
      prepared.upstreamUrl prepared.provider sourceBody hexplicit
    rw [htarget] at hroute hcredential
    obtain ⟨hupstream, hnamed, hoverride⟩ := prepared_upstream hprepared hallow hroute hcredential
    exact ⟨_, kept, hcredential, hurl.trans hupstream, hnamed, hoverride, hexplicit⟩
  · rcases happlied.from_headers header hmem with hmem | hattached
    · refine .inr ?_
      have hmem := (List.mem_filter.mp hmem).1
      cases middleware with
      | none => exact .inl (HeaderMap.mem_removeAll.mp hmem).1
      | some request =>
        rcases (mem_effectiveDispatchRequest toVec hmem).1 with hset | hold
        · exact .inr ⟨request, rfl, hset⟩
        · exact .inl hold
    · exact .inl hattached

end Prepare

/-- A key for one provider, and a request that carries no credential. -/
def keyedConfig : GatewayConfig where
  openai := { baseUrl := "https://api.openai.com/v1", apiKey := some "key" }
  anthropic := { baseUrl := "https://api.anthropic.com" }

theorem attached_confined_keyed :
    letI := plainHttp
    ∃ (prepared : PreparedGatewayRequest String) (sent : SentRequest String) (credential : _),
      prepareGatewayRequest encryptedOnly (fun _ => false) (fun _ _ => .absent) keyedConfig []
        "/v1/responses" none false true = some prepared ∧
      forwardUpstreamRequest (fun _ => []) encryptedOnly keyedConfig prepared.provider
        prepared.allowEnvironmentProviderAuth prepared.upstreamUrl [] prepared.headers none none =
          some sent ∧
      sent.attached = some credential ∧ ∃ anthropic, sent.url =
        prepared.provider.upstreamUrlWithBase (keyedConfig.provider anthropic).baseUrl
          (providerPathAndQuery "/v1/responses" none) := by
  let _ := plainHttp
  refine ⟨⟨[], .openAiResponses, "https://api.openai.com/v1/responses", true, false⟩,
    ⟨"https://api.openai.com/v1/responses", [], [("authorization", "Bearer key")],
      some ("authorization", "Bearer key")⟩, ("authorization", "Bearer key"), ?_, ?_, rfl, ?_⟩
  · rfl
  · rfl
  · have hmain := attached_confined (fun _ => []) encryptedOnly (fun _ => false)
      (fun _ _ => .absent) keyedConfig [] "/v1/responses" none false true
      ⟨[], .openAiResponses, "https://api.openai.com/v1/responses", true, false⟩ [] [] none none
      ⟨"https://api.openai.com/v1/responses", [], [("authorization", "Bearer key")],
        some ("authorization", "Bearer key")⟩ rfl rfl
    obtain ⟨anthropic, -, -, hurl, -⟩ := hmain.1 _ rfl
    exact ⟨anthropic, hurl⟩

end NemoRelay.Gateway

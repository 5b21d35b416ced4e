import NemoRelay.Gateway.Dispatch

/-!
# Forwarding by a daemon worker

A worker writes back only the headers that middleware changed, and an explicit target loses the
cookies of the caller as well. Together with the foreground gateway: which credentials of a caller
an explicit target receives.
-/

namespace NemoRelay.Gateway

open Option

variable {V : Type} [Http V]

def stripInternalHeaders (headers : HeaderMap V) : HeaderMap V :=
  headers.filter fun header => (stripStart "x-nemo-relay-" header.1).isNone

def hasExplicitTarget (request : LlmRequest) : Bool :=
  request.headers.any fun header =>
    (eqIgnoreAsciiCase header.1 dispatchUrlHeader ||
      eqIgnoreAsciiCase header.1 dispatchRouteHeader) &&
      (jsonHeaderString header.2).isSome

structure PreparedProviderRequest (V : Type) where
  headers : HeaderMap V
  body : Bytes
  requestJson : Option Json

/-- A header that middleware returns, if it differs from what middleware was shown. -/
def changedHeader (baseline : Object) (entry : String × Json) : Option (String × V) := do
  let name ← (Http.headerName V entry.1).filter fun name =>
    (Text.stripStart "x-nemo-relay-".toList (asciiLower entry.1)).isNone ∧
      SortedMap.get baseline name ≠ some entry.2
  let value ← jsonHeaderValue entry.2
  return (name, value)

/-- The headers, the body, and whether middleware named the target. -/
def effectiveRequest (toVec : Json → Bytes) (prepared : PreparedProviderRequest V)
    (effective : Option LlmRequest) : HeaderMap V × Bytes × Bool :=
  let headers := stripInternalHeaders prepared.headers
  match effective with
  | none => (headers.removeAll ["content-length"], prepared.body, false)
  | some request =>
    let explicitTarget := hasExplicitTarget request
    let headers :=
      if explicitTarget then headers.removeAll ("cookie" :: providerCredentialHeaders) else headers
    let baseline := observableHeaders prepared.headers
    let dropped := (baseline.map (·.1)).filter fun name =>
      !request.headers.any fun header => eqIgnoreAsciiCase header.1 name
    let headers := headers.removeAll (dropped.filterMap (Http.headerName V))
    let headers := headers.insertAll (request.headers.filterMap (changedHeader baseline))
    let headers := (stripInternalHeaders headers).removeAll ["content-length"]
    if prepared.requestJson.all (· = request.content) then (headers, prepared.body, explicitTarget)
    else (headers.removeAll ["content-encoding"], toVec request.content, explicitTarget)

/-- The checks of the destination give the value of `host`. -/
def prepareProviderRequest (env : Environment) (config : GatewayConfig) (connect clientNamed : Bool)
    (authority : Bool → Option V) (headers : HeaderMap V) (destination : String) :
    Option (HeaderMap V) :=
  if connect || headers.contains "upgrade" then none
  else do
    let url ← (env.parseUrl destination).filter fun url => !(remoteHttp env url && clientNamed)
    let headers ← stripHopByHopHeaders headers
    let (headers, remote) ← prepareHttpModelRequest env headers url config
    let host ← authority remote
    let trailers ← Http.headerValue "trailers"
    let headers ← stripHopByHopHeaders headers
    let headers := headers.removeAll
      [clientTokenHeader, "x-nemo-relay-worker-token", "x-nemo-relay-worker-route-failure"]
    return (headers.insert "te" trailers).insert "host" host

/-- `dispatch_observed` up to the point where the request is sent; `align` replaces the credentials
of an agent. -/
def dispatchObserved (toVec : Json → Bytes) (env : Environment) (config : GatewayConfig)
    (align : HeaderMap V → Option (HeaderMap V)) (authority : Bool → Option V)
    (anthropic allowProviderAuth connect clientNamed : Bool) (prepared : PreparedProviderRequest V)
    (effective : Option LlmRequest) (destination : String) : Option (HeaderMap V) := do
  let (headers, _, explicitTarget) := effectiveRequest toVec prepared effective
  let headers := if explicitTarget then headers else (align headers).getD headers
  let (headers, _) ← applyForDestination env headers destination anthropic
    (!explicitTarget && allowProviderAuth) config
  prepareProviderRequest env config connect clientNamed authority headers destination

variable {toVec : Json → Bytes} {env : Environment} {config : GatewayConfig} {request : LlmRequest}
  {prepared : PreparedProviderRequest V} {headers headers' : HeaderMap V}

theorem changedHeader_eq_some {baseline : Object} {entry : String × Json} {header : String × V}
    (h : changedHeader baseline entry = some header) :
    Http.headerName V entry.1 = some header.1 ∧ jsonHeaderValue entry.2 = some header.2 := by
  simp only [changedHeader, bind_eq_bind, bind_eq_some_iff, pure_def,
    Option.some.injEq, filter_eq_some_iff] at h
  obtain ⟨name, ⟨hname, -⟩, value, hvalue, rfl⟩ := h
  exact ⟨hname, hvalue⟩

theorem effectiveRequest_explicit (toVec : Json → Bytes) (prepared : PreparedProviderRequest V)
    (hexplicit : hasExplicitTarget request = true) :
    (effectiveRequest toVec prepared (some request)).2.2 = true ∧
      OnlyMiddlewareCredentials request (effectiveRequest toVec prepared (some request)).1 := by
  have hbody : ∀ (same : Bool) (written : HeaderMap V), OnlyMiddlewareCredentials request written →
      (if same then (written, prepared.body, true)
        else (written.removeAll ["content-encoding"], toVec request.content, true)).2.2 = true ∧
      OnlyMiddlewareCredentials request (if same then (written, prepared.body, true)
        else (written.removeAll ["content-encoding"], toVec request.content, true)).1 := by
    intro same written honly
    cases same with
    | true => exact ⟨rfl, honly⟩
    | false => exact ⟨rfl, fun header hmem => honly header (HeaderMap.mem_removeAll.mp hmem).1⟩
  simp only [effectiveRequest, hexplicit]
  refine hbody _ _ fun header hmem hhidden => ?_
  have hmem := (List.mem_filter.mp (HeaderMap.mem_removeAll.mp hmem).1).1
  rcases HeaderMap.mem_insertAll hmem with hwritten | ⟨hold, -⟩
  · obtain ⟨entry, hentry, hchanged⟩ := List.mem_filterMap.mp hwritten
    exact ⟨entry, hentry, changedHeader_eq_some hchanged⟩
  · -- the credentials of the caller were removed
    have hold := (HeaderMap.mem_removeAll.mp (HeaderMap.mem_removeAll.mp hold).1).2
    simp only [hiddenCredentialHeaders, providerCredentialHeaders, List.mem_cons, not_or]
      at hhidden hold
    tauto

variable {authority : Bool → Option V} {destination : String}

theorem mem_of_prepareProviderRequest {connect clientNamed : Bool}
    (h : prepareProviderRequest env config connect clientNamed authority headers destination =
      some headers') {header : String × V} (hmem : header ∈ headers')
    (hhidden : header.1 ∈ hiddenCredentialHeaders) : header ∈ headers := by
  unfold prepareProviderRequest at h
  split at h
  · cases h
  · simp only [bind_eq_bind, bind_eq_some_iff, pure_def, Option.some.injEq,
      Prod.exists] at h
    obtain ⟨url, -, first, hfirst, second, remote, hsecond, host, -, trailers, -, third, hthird,
      rfl⟩ := h
    have hold : ∀ {headers : HeaderMap V} {name : String} {value : V},
        header ∈ headers.insert name value → name ∉ hiddenCredentialHeaders → header ∈ headers := by
      intro headers name value hmem hname
      rw [HeaderMap.insert, List.mem_append, List.mem_singleton] at hmem
      rcases hmem with hmem | rfl
      · exact (HeaderMap.mem_removeAll.mp hmem).1
      · exact absurd hhidden hname
    have hmem := (HeaderMap.mem_removeAll.mp (hold (hold hmem (by decide)) (by decide))).1
    have hmem := mem_of_stripHopByHopHeaders hthird hmem
    obtain ⟨-, hlocal, hplain⟩ := prepareHttpModelRequest_spec env hsecond
    refine mem_of_stripHopByHopHeaders hfirst ?_
    cases remote with
    | true => exact ((hplain rfl).1 header hmem).1
    | false => exact hlocal rfl ▸ hmem

/-- A worker sends an explicit target no credential of the caller. -/
theorem dispatchObserved_explicit {align : HeaderMap V → Option (HeaderMap V)}
    {anthropic allowed connect clientNamed : Bool} (hexplicit : hasExplicitTarget request = true)
    (h : dispatchObserved toVec env config align authority anthropic allowed connect clientNamed
      prepared (some request) destination = some headers') :
    OnlyMiddlewareCredentials request headers' := by
  obtain ⟨hflag, honly⟩ := effectiveRequest_explicit toVec prepared hexplicit
  simp only [dispatchObserved, hflag, Bool.not_true, Bool.false_and, bind_eq_bind,
    bind_eq_some_iff, Prod.exists] at h
  obtain ⟨headers, attached, happlied, hprepared⟩ := h
  have happlied := applyForDestination_spec env happlied
  intro header hmem hhidden
  have hmem := mem_of_prepareProviderRequest hprepared hmem hhidden
  refine honly header ?_ hhidden
  refine (happlied.from_headers header hmem).resolve_right fun hattached => ?_
  exact absurd (happlied.credential header hattached).1 (by decide)

/-- Credentials that the caller sent and middleware did not set: an explicit target receives none
from a worker, and from the foreground gateway at most a cookie, if nothing drops it. -/
theorem explicitTarget_credentials_iff (toVec : Json → Bytes) (env : Environment)
    (config : GatewayConfig) (request : LlmRequest) (headers : HeaderMap V) :
    (∀ sourceRoute allowed url bodyBytes sourceBody sent,
      (dispatchOverrides request.headers).isExplicitTarget = true →
      forwardUpstreamRequest toVec env config sourceRoute allowed url bodyBytes headers
        (some request) sourceBody = some sent →
      (OnlyMiddlewareCredentials request sent.headers ↔ ¬ CookiePasses env headers request url)) ∧
    ∀ body requestJson align authority anthropic allowed connect clientNamed destination sent,
      hasExplicitTarget request = true →
      dispatchObserved toVec env config align authority anthropic allowed connect clientNamed
        ⟨headers, body, requestJson⟩ (some request) destination = some sent →
      OnlyMiddlewareCredentials request sent :=
  ⟨fun _ allowed _ _ _ _ hexplicit h => forward_explicit_iff toVec env allowed hexplicit h,
    fun _ _ _ _ _ _ _ _ _ _ hexplicit h => dispatchObserved_explicit hexplicit h⟩

/-! ### A cookie that reaches the target -/

def redirected : LlmRequest := ⟨[(dispatchUrlHeader, .str "https://model.example/v1")], .null⟩

theorem redirected_without_cookie :
    letI := plainHttp
    ∃ sent, forwardUpstreamRequest (fun _ => []) encryptedOnly openConfig .openAiResponses true
        "a" []
        [("authorization", "Bearer caller")] (some redirected) none = some sent ∧
      (OnlyMiddlewareCredentials redirected sent.headers ↔
        ¬ CookiePasses encryptedOnly [("authorization", "Bearer caller")] redirected "a") := by
  let _ := plainHttp
  have hmain := explicitTarget_credentials_iff (fun _ => []) encryptedOnly openConfig redirected
    [("authorization", "Bearer caller")]
  exact ⟨_, rfl, hmain.1 .openAiResponses true "a" [] none _ (by decide +kernel) rfl⟩

/-- The caller's cookie is sent to the host that middleware named. -/
theorem redirected_with_cookie :
    letI := plainHttp
    ∃ sent, forwardUpstreamRequest (fun _ => []) encryptedOnly openConfig .openAiResponses true
        "a" []
        [("cookie", "session")] (some redirected) none = some sent ∧
      sent.url = "https://model.example/v1" ∧
      ¬ OnlyMiddlewareCredentials redirected sent.headers := by
  let _ := plainHttp
  refine ⟨⟨"https://model.example/v1", [], [("cookie", "session")], none⟩, rfl, rfl, ?_⟩
  intro honly
  obtain ⟨entry, hentry, hname, -⟩ := honly ("cookie", "session") List.mem_cons_self (by decide)
  cases List.mem_singleton.mp hentry
  exact absurd hname (by decide)

end NemoRelay.Gateway

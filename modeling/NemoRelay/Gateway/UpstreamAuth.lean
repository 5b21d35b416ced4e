import NemoRelay.Gateway.Headers

/-!
# Credentials for an upstream

The last step before a provider request is sent. A plaintext request to another machine keeps only
the headers of the protocol; any other request may get the credential that the gateway holds for the
provider. Tokens, variables, the parsing of URLs and the checks of a configuration are answers of
the environment, the same for the whole request.
-/

namespace NemoRelay.Gateway

inductive AuthScheme
  | bearer
  | apiKey

structure ApiKeyHelper where
  command : String
  args : List String
  authScheme : Option AuthScheme

/-- The settings of one provider: the fields `openai_*` or `anthropic_*` of the configuration. -/
structure ProviderConfig where
  baseUrl : String
  apiKey : Option String := none
  authHeader : Option String := none
  apiKeyHelper : Option ApiKeyHelper := none
  /-- The issuer that signs in. -/
  oidc : Option String := none

structure GatewayConfig where
  openai : ProviderConfig
  anthropic : ProviderConfig
  chatgptCodexBaseUrl : Option String := none

def GatewayConfig.provider (config : GatewayConfig) (anthropic : Bool) : ProviderConfig :=
  if anthropic then config.anthropic else config.openai

structure Url where
  scheme : String
  host : Option String
  origin : String
  username : String
  password : Option String
  fragment : Option String

structure Environment where
  var : String → Option String
  /-- `ApiKeyHelper::resolve_token`. -/
  resolveToken : ApiKeyHelper → String → Option String
  /-- `oidc::upstream_token`. -/
  upstreamToken : String → Option String
  parseUrl : String → Option Url
  isLoopbackAddress : String → Bool
  /-- `HttpModelHosts::allows`. -/
  allowsHttpHost : Url → Bool
  validateConfig : GatewayConfig → Bool

variable (env : Environment)

def remoteHttp (url : Url) : Bool :=
  url.scheme = "http" && url.host.any fun host =>
    !eqIgnoreAsciiCase host "localhost" &&
      !env.isLoopbackAddress (.ofList
        ((host.toList.dropWhile (· ∈ ['[', ']'])).reverse.dropWhile (· ∈ ['[', ']'])).reverse)

section Requests

variable {V : Type} [Http V] {headers headers' : HeaderMap V} {config : GatewayConfig}

/-! ### Plaintext -/

def connectionNominatedHeaders (headers : HeaderMap V) : Option (List String) := do
  let values ← (headers.getAll "connection").mapM Http.toStr
  let tokens := values.flatMap fun value =>
    (value.toList.splitOn ',').map fun token => trim (.ofList token)
  (tokens.filter (· ≠ "")).mapM (Http.headerName V)

def stripHopByHopHeaders (headers : HeaderMap V) : Option (HeaderMap V) := do
  let nominated ← connectionNominatedHeaders headers
  return headers.removeAll (nominated ++ ["connection", "keep-alive", "proxy-authenticate",
    "proxy-authorization", "proxy-connection", "te", "transfer-encoding", "upgrade"])

def httpModelForwardHeaders : List String :=
  ["accept", "accept-encoding", "content-type", "content-length", "content-encoding",
    "content-language", "anthropic-version", "anthropic-beta", "openai-beta"]

/-- The flag says that the request is plaintext to another machine. -/
def prepareHttpModelRequest (headers : HeaderMap V) (destination : Url) (config : GatewayConfig) :
    Option (HeaderMap V × Bool) :=
  if !remoteHttp env destination then some (headers, false)
  else if headers.contains "upgrade" then none
  else
    let configured := [config.openai.baseUrl, config.anthropic.baseUrl].any fun base =>
      (env.parseUrl base).any fun base => base.origin = destination.origin
    if !configured || !env.allowsHttpHost destination || destination.username ≠ "" ||
      destination.password.isSome || destination.fragment.isSome || !env.validateConfig config
    then none
    else do
      let headers ← stripHopByHopHeaders headers
      return (headers.filter fun header => header.1 ∈ httpModelForwardHeaders, true)

theorem mem_of_stripHopByHopHeaders (h : stripHopByHopHeaders headers = some headers')
    {header : String × V} (hmem : header ∈ headers') : header ∈ headers := by
  simp only [stripHopByHopHeaders, Option.bind_eq_bind, Option.bind_eq_some_iff, Option.pure_def,
    Option.some.injEq] at h
  obtain ⟨nominated, -, rfl⟩ := h
  exact (HeaderMap.mem_removeAll.mp hmem).1

/-- Without a header `connection` no further header is nominated. -/
theorem getAll_stripHopByHopHeaders (hconnection : headers.getAll "connection" = [])
    (h : stripHopByHopHeaders headers = some headers') {name : String}
    (hname : name ∈ httpModelForwardHeaders) : headers'.getAll name = headers.getAll name := by
  simp only [stripHopByHopHeaders, connectionNominatedHeaders, hconnection] at h
  cases h
  refine HeaderMap.getAll_removeAll headers ?_
  revert name
  decide

theorem prepareHttpModelRequest_spec {destination : Url} {remote : Bool}
    (h : prepareHttpModelRequest env headers destination config = some (headers', remote)) :
    remote = remoteHttp env destination ∧ (remote = false → headers' = headers) ∧
      (remote = true →
        (∀ header ∈ headers', header ∈ headers ∧ header.1 ∈ httpModelForwardHeaders) ∧
        (headers.getAll "connection" = [] →
          ∀ name ∈ httpModelForwardHeaders, headers'.getAll name = headers.getAll name)) := by
  unfold prepareHttpModelRequest at h
  split at h
  · rename_i hlocal
    cases h
    exact ⟨by simpa using hlocal.symm, fun _ => rfl, nofun⟩
  · rename_i hremote
    split at h
    · cases h
    · dsimp only at h
      split at h
      · cases h
      · simp only [Option.bind_eq_bind, Option.bind_eq_some_iff] at h
        obtain ⟨stripped, hstrip, rfl, rfl⟩ := h
        refine ⟨by simpa using hremote, nofun, fun _ => ⟨fun header hmem => ?_, ?_⟩⟩
        · obtain ⟨hmem, hname⟩ := List.mem_filter.mp hmem
          exact ⟨mem_of_stripHopByHopHeaders hstrip hmem, by simpa using hname⟩
        · intro hconnection name hname
          rw [HeaderMap.getAll_filter stripped (· ∈ httpModelForwardHeaders),
            if_pos (decide_eq_true hname), getAll_stripHopByHopHeaders hconnection hstrip hname]

/-! ### Credentials -/

def hasProviderCredential (headers : HeaderMap V) : Bool :=
  providerCredentialHeaders.any headers.contains

def tokenHeader (token : String) (scheme : AuthScheme) : Option (String × V) :=
  let token := trim token
  if token.isEmpty || token.toList.any fun c => Text.isWhitespace c || c.toNat < 32 ||
    (127 ≤ c.toNat && c.toNat < 160) then none
  else
    match scheme with
    | .bearer => (Http.headerValue ("Bearer " ++ token)).map (("authorization", ·))
    | .apiKey => (Http.headerValue token).map (("x-api-key", ·))

def standardScheme (anthropic : Bool) : AuthScheme := if anthropic then .apiKey else .bearer

def environmentKey (anthropic : Bool) : Option String :=
  (env.var (if anthropic then "ANTHROPIC_API_KEY" else "OPENAI_API_KEY")).filter (trim · ≠ "")

/-- The credential for a provider: none if there is none, or if the caller sent one and the gateway
has no way to obtain one. -/
def relayCredential (headers : HeaderMap V) (anthropic : Bool) (provider : ProviderConfig) :
    Option (Option (String × V)) :=
  match provider.oidc, provider.apiKeyHelper with
  | some oidc, _ =>
    (env.upstreamToken oidc).bind fun token => (tokenHeader token .bearer).map some
  | none, some helper =>
    (env.resolveToken helper provider.baseUrl).bind fun token =>
      (tokenHeader token (helper.authScheme.getD (standardScheme anthropic))).map some
  | none, none =>
    if hasProviderCredential headers then some none
    else
      match provider.authHeader, provider.apiKey.or (environmentKey env anthropic) with
      | some value, _ => (Http.headerValue value).map fun value => some ("authorization", value)
      | none, some key => (tokenHeader key (standardScheme anthropic)).map some
      | none, none => some none

/-- The headers, and the credential that was attached. -/
def apply (headers : HeaderMap V) (anthropic allowConfiguredAuth : Bool) (config : GatewayConfig) :
    Option (HeaderMap V × Option (String × V)) :=
  if !allowConfiguredAuth then some (headers, none)
  else if !env.validateConfig config then none
  else
    match relayCredential env headers anthropic (config.provider anthropic) with
    | none => none
    | some none => some (headers, none)
    | some (some credential) =>
      some ((headers.removeAll providerCredentialHeaders).insert credential.1 credential.2,
        some credential)

def applyForDestination (headers : HeaderMap V) (destination : String)
    (anthropic allowConfiguredAuth : Bool) (config : GatewayConfig) :
    Option (HeaderMap V × Option (String × V)) := do
  let destination ← env.parseUrl destination
  let (headers, remote) ← prepareHttpModelRequest env headers destination config
  if remote then return (headers, none)
  else apply env headers anthropic allowConfiguredAuth config

/-- The destination is plaintext to another machine. -/
def Plaintext (destination : String) : Prop :=
  ∃ url, env.parseUrl destination = some url ∧ remoteHttp env url = true

structure Applied (headers : HeaderMap V) (destination : String) (anthropic allowed : Bool)
    (config : GatewayConfig) (headers' : HeaderMap V) (attached : Option (String × V)) : Prop where
  from_headers : ∀ header ∈ headers', header ∈ headers ∨ attached = some header
  credential : ∀ credential, attached = some credential → allowed = true ∧
    ∃ kept, relayCredential env kept anthropic (config.provider anthropic) = some (some credential)
  kept : headers.getAll "connection" = [] → ∀ name,
    (Plaintext env destination → name ∈ httpModelForwardHeaders) →
    (∀ credential, attached = some credential → name ∉ credential.1 :: providerCredentialHeaders) →
    headers'.getAll name = headers.getAll name
  plaintext : Plaintext env destination → ∀ header ∈ headers', header.1 ∈ httpModelForwardHeaders

theorem applyForDestination_spec {destination : String} {anthropic allowed : Bool}
    {attached : Option (String × V)}
    (h : applyForDestination env headers destination anthropic allowed config =
      some (headers', attached)) :
    Applied env headers destination anthropic allowed config headers' attached := by
  simp only [applyForDestination, Option.bind_eq_bind, Option.bind_eq_some_iff, Prod.exists] at h
  obtain ⟨url, hurl, prepared, remote, hprepared, h⟩ := h
  obtain ⟨hremote, hlocal, hplain⟩ := prepareHttpModelRequest_spec env hprepared
  have hplaintext : Plaintext env destination ↔ remote = true := by
    simp [Plaintext, hurl, hremote]
  cases remote with
  | true =>
    cases h
    obtain ⟨hmem, hkept⟩ := hplain rfl
    exact ⟨fun header h => .inl (hmem header h).1, nofun,
      fun hconnection name hname _ => hkept hconnection name (hname (hplaintext.mpr rfl)),
      fun _ header h => (hmem header h).2⟩
  | false =>
    cases hlocal rfl
    have hnot : ¬ Plaintext env destination := by
      rw [hplaintext]
      exact Bool.false_ne_true
    have hsame : Applied env headers destination anthropic allowed config headers none :=
      ⟨fun header hmem => .inl hmem, nofun, fun _ _ _ _ => rfl, fun hp => absurd hp hnot⟩
    simp only [Bool.false_eq_true, if_false, apply] at h
    split at h
    · cases h
      exact hsame
    · rename_i hallowed
      split at h
      · cases h
      · split at h
        · cases h
        · cases h
          exact hsame
        · rename_i credential hcredential
          cases h
          refine ⟨fun header hmem => ?_, ?_, fun _ name _ hname => ?_, fun hp => absurd hp hnot⟩
          · rw [HeaderMap.insert, List.mem_append, List.mem_singleton] at hmem
            rcases hmem with hmem | rfl
            · have hmem := (HeaderMap.mem_removeAll.mp hmem).1
              exact .inl (HeaderMap.mem_removeAll.mp hmem).1
            · exact .inr rfl
          · rintro _ ⟨⟩
            exact ⟨by simpa using hallowed, _, hcredential⟩
          · have hname := not_or.mp (mt List.mem_cons.mpr (hname credential rfl))
            rw [HeaderMap.getAll_insert, if_neg (Ne.symm hname.1),
              HeaderMap.getAll_removeAll _ hname.2]

end Requests

end NemoRelay.Gateway

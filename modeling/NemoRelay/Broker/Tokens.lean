import NemoRelay.Broker.RegistrySteps

/-!
# Broker: the token table mirrors the routes

The registry keeps the binding of a token twice: in the table that requests are resolved with, and
in the route of the identity it belongs to. The two agree in every reachable state, through
evictions, releases of idle tokens and rejected registrations. The token a live session registered
with is never among the released ones, so a request that carries it always finds its own route.
-/

namespace NemoRelay.Broker

open List hiding contains

open OrderedMap

namespace RegistryInner

/-- What holds of a route by itself. -/
structure RouteSound (registry : Registry) (route : RouteEntry) : Prop where
  nodup : route.tokenDigests.Nodup
  limit : route.tokenDigests.length ≤ registry.maxTokensPerIdentity
  sessions : route.SessionsSound

/-- The agreement of the token table with the routes, and the limits of both. -/
structure TokensSound (registry : Registry) (inner : RegistryInner) : Prop where
  mirror : ∀ tokenDigest fingerprint, inner.tokens.get tokenDigest = some fingerprint ↔
    ∃ route, inner.routes.get fingerprint = some route ∧ tokenDigest ∈ route.tokenDigests
  atRoute : ∀ {fingerprint route}, inner.routes.get fingerprint = some route →
    RouteSound registry route
  capacity : inner.routes.size ≤ registry.routeCapacity

variable {registry : Registry} {inner inner' : RegistryInner} {issued reported : List String}
  {published : Option (Fingerprint × WorkerTarget)} {fingerprint : Fingerprint}
  {route route' : RouteEntry} {tokenDigest : TokenDigest}

theorem TokensSound.empty (registry : Registry) : TokensSound registry .empty := by
  refine ⟨fun tokenDigest fingerprint => ?_, (nomatch ·), Nat.zero_le _⟩
  exact iff_of_false nofun fun ⟨_, h, _⟩ => nomatch h

/-! ## Operations that are not registrations -/

theorem Change.exists_before (h : Change issued reported published inner inner')
    (hget : inner'.routes.get fingerprint = some route') :
    ∃ route, inner.routes.get fingerprint = some route ∧
      RouteChange published fingerprint route route' := by
  have hrel := h.routes fingerprint
  rw [hget] at hrel
  generalize hbefore : inner.routes.get fingerprint = before at hrel
  cases hrel with
  | some hchange => exact ⟨_, rfl, hchange⟩

theorem Change.exists_after (h : Change issued reported published inner inner')
    (hget : inner.routes.get fingerprint = some route) :
    ∃ route', inner'.routes.get fingerprint = some route' ∧
      RouteChange published fingerprint route route' := by
  have hrel := h.routes fingerprint
  rw [hget] at hrel
  generalize hafter : inner'.routes.get fingerprint = after at hrel
  cases hrel with
  | some hchange => exact ⟨_, rfl, hchange⟩

section

variable (hsound : TokensSound registry inner)
include hsound

theorem TokensSound.change (h : Change issued reported published inner inner') :
    TokensSound registry inner' := by
  refine ⟨?_, ?_, h.size ▸ hsound.capacity⟩
  · intro tokenDigest fingerprint
    rw [h.tokens, hsound.mirror]
    constructor
    · rintro ⟨route, hget, hmem⟩
      obtain ⟨route', hget', _, _, _, hchange, -⟩ := h.exists_after hget
      exact ⟨route', hget', hchange.tokenDigests ▸ hmem⟩
    · rintro ⟨route', hget', hmem⟩
      obtain ⟨route, hget, _, _, _, hchange, -⟩ := h.exists_before hget'
      exact ⟨route, hget, hchange.tokenDigests ▸ hmem⟩
  · intro fingerprint route' hget'
    obtain ⟨route, hget, _, _, _, hchange, -⟩ := h.exists_before hget'
    obtain ⟨hnodup, hlimit, hsessions⟩ := hsound.atRoute hget
    rw [← hchange.tokenDigests] at hnodup hlimit
    exact ⟨hnodup, hlimit, hchange.sound hsessions⟩

/-! ## Registrations -/

/-- Two routes do not list the same token. -/
theorem TokensSound.eq_of_mem {other : Fingerprint}
    (hget : inner.routes.get fingerprint = some route) (hmem : tokenDigest ∈ route.tokenDigests)
    (hget' : inner.routes.get other = some route') (hmem' : tokenDigest ∈ route'.tokenDigests) :
    other = fingerprint := by
  have h := (hsound.mirror tokenDigest fingerprint).mpr ⟨route, hget, hmem⟩
  have h' := (hsound.mirror tokenDigest other).mpr ⟨route', hget', hmem'⟩
  exact Option.some.inj (h'.symm.trans h)

theorem TokensSound.removeRoute (hget : inner.routes.get fingerprint = some route) :
    TokensSound registry (inner.removeRoute fingerprint route) := by
  have hroutes : ∀ other route', (inner.removeRoute fingerprint route).routes.get other =
      some route' → other ≠ fingerprint ∧ inner.routes.get other = some route' := by
    intro other route' h
    rw [RegistryInner.removeRoute, get_erase] at h
    split at h
    · cases h
    · rename_i hne
      exact ⟨hne, h⟩
  have htokens : ∀ digest, (inner.removeRoute fingerprint route).tokens.get digest =
      if digest ∈ route.tokenDigests then none else inner.tokens.get digest :=
    fun digest => get_foldl_erase route.tokenDigests inner.tokens digest
  refine ⟨?_, fun h => hsound.atRoute (hroutes _ _ h).2, ?_⟩
  · intro digest other
    rw [htokens]
    constructor
    · intro h
      split at h
      · cases h
      rename_i hnew
      obtain ⟨route', hget', hmem'⟩ := (hsound.mirror digest other).mp h
      refine ⟨route', ?_, hmem'⟩
      show (inner.routes.erase fingerprint).get other = some route'
      rw [get_erase_of_ne, hget']
      rintro rfl
      cases hget.symm.trans hget'
      exact hnew hmem'
    · rintro ⟨route', hget', hmem'⟩
      obtain ⟨hne, hget'⟩ := hroutes other route' hget'
      rw [if_neg fun hmem => hne (hsound.eq_of_mem hget hmem hget' hmem')]
      exact (hsound.mirror digest other).mpr ⟨route', hget', hmem'⟩
  · have hsize : (inner.routes.erase fingerprint).size + 1 = inner.routes.size :=
      size_erase hget
    have hcapacity := hsound.capacity
    show (inner.routes.erase fingerprint).size ≤ registry.routeCapacity
    omega

theorem TokensSound.evict (incoming : Fingerprint) (capacity : Nat) (order : Fingerprint → Nat) :
    TokensSound registry (inner.evictInactiveRoutesAtCapacity incoming capacity order) := by
  obtain heq | ⟨victim, route, hevicted, heq⟩ :=
    evictInactiveRoutesAtCapacity_cases inner incoming capacity order
  · rw [heq]
    exact hsound
  · rw [heq]
    exact hsound.removeRoute (evicted_eq_some hevicted).2.2.1

end

/-- A token is bound to the identity it is registered for, if it is bound at all. -/
def BindingFits (inner : RegistryInner) (fingerprint : Fingerprint) (tokenDigest : TokenDigest) :
    Prop :=
  ∀ other, inner.tokens.get tokenDigest = some other → other = fingerprint

/-- The route of an identity exists, or there is room for it. -/
def RouteFits (registry : Registry) (inner : RegistryInner) (fingerprint : Fingerprint) : Prop :=
  inner.routes.contains fingerprint = true ∨ inner.routes.size < registry.routeCapacity

/-- The route of an identity has the token, or room for it. -/
def TokenFits (registry : Registry) (inner : RegistryInner) (fingerprint : Fingerprint)
    (tokenDigest : TokenDigest) : Prop :=
  ∀ route, inner.routes.get fingerprint = some route →
    tokenDigest ∈ route.tokenDigests ∨ route.tokenDigests.length < registry.maxTokensPerIdentity

theorem validateBinding_eq_ok :
    inner.validateBinding fingerprint tokenDigest = .ok () ↔
      inner.BindingFits fingerprint tokenDigest := by
  unfold validateBinding BindingFits
  cases inner.tokens.get tokenDigest with
  | none => simp
  | some other =>
    by_cases h : other = fingerprint <;> simp [h]

theorem validateCapacity_eq_ok :
    inner.validateCapacity fingerprint registry.routeCapacity = .ok () ↔
      RouteFits registry inner fingerprint := by
  unfold validateCapacity RouteFits
  cases inner.routes.contains fingerprint with
  | true | false => simp

theorem validate_eq_ok {registration : McpRegistration} :
    inner.validate registration registry.routeCapacity = .ok () ↔
      inner.BindingFits registration.fingerprint registration.tokenDigest ∧
        RouteFits registry inner registration.fingerprint ∧
        inner.validateReferences registration.fingerprint registration.sessionId = .ok () := by
  rw [← validateBinding_eq_ok, ← validateCapacity_eq_ok, validate]
  cases inner.validateBinding registration.fingerprint registration.tokenDigest with
  | error error => exact iff_of_false nofun fun h => nomatch h.1
  | ok _ =>
    cases inner.validateCapacity registration.fingerprint registry.routeCapacity with
    | error error => exact iff_of_false nofun fun h => nomatch h.2.1
    | ok _ => exact ⟨fun h => ⟨rfl, rfl, h⟩, fun h => h.2.2⟩

variable {released : TokenDigest}

theorem ne_of_isIdleToken {sessionId : McpSessionId} (hidle : route.isIdleToken released = true)
    (h : route.refTokens.get sessionId = some tokenDigest) : tokenDigest ≠ released := by
  rintro rfl
  rw [RouteEntry.isIdleToken, Bool.not_eq_true', any_eq_false] at hidle
  exact hidle _ (mem_entries.mpr h) (decide_eq_true rfl)

section

variable (hsound : TokensSound registry inner)
include hsound

/-- A route takes over the tokens that the table binds to it. -/
theorem TokensSound.insertRoute {tokens : OrderedMap TokenDigest Fingerprint}
    (hown : ∀ digest, tokens.get digest = some fingerprint ↔ digest ∈ route'.tokenDigests)
    (hothers : ∀ digest other, other ≠ fingerprint →
      (tokens.get digest = some other ↔ inner.tokens.get digest = some other))
    (hroute : RouteSound registry route') (hroom : RouteFits registry inner fingerprint) :
    TokensSound registry { routes := inner.routes.insert fingerprint route', tokens } := by
  refine ⟨?_, ?_, ?_⟩
  · intro digest other
    by_cases hother : other = fingerprint
    · subst hother
      rw [hown]
      simp
    · rw [hothers digest other hother, get_insert_of_ne _ _ hother, hsound.mirror]
  · intro other route h
    obtain ⟨-, rfl⟩ | ⟨-, hget⟩ := get_insert_eq_some h
    · exact hroute
    · exact hsound.atRoute hget
  · show (inner.routes.insert fingerprint route').size ≤ registry.routeCapacity
    cases hget : inner.routes.get fingerprint with
    | some route =>
      rw [size_insert_of_get hget]
      exact hsound.capacity
    | none =>
      rw [size_insert_of_none hget]
      refine hroom.resolve_left ?_
      rw [contains, hget]
      exact Bool.noConfusion

/-- Releasing an idle token takes it out of the table and of its route. -/
theorem TokensSound.release
    (hget : inner.routes.get fingerprint = some route) (hmem : released ∈ route.tokenDigests)
    (hidle : route.isIdleToken released = true) :
    TokensSound registry
      { routes := inner.routes.insert fingerprint
          { route with tokenDigests := route.tokenDigests.erase released }
        tokens := inner.tokens.erase released } := by
  obtain ⟨hnodup, hlimit, hsessions⟩ := hsound.atRoute hget
  refine hsound.insertRoute (fun digest => ?_) (fun digest other hother => ?_)
    ⟨hnodup.erase released, length_erase_le.trans hlimit, hsessions.refTokens, ?_,
      hsessions.connected⟩ (.inl (Option.isSome_iff_exists.mpr ⟨route, hget⟩))
  · rw [get_erase, hnodup.mem_erase_iff]
    by_cases hreleased : digest = released
    · simp [hreleased]
    · rw [if_neg hreleased, hsound.mirror, hget]
      simp [hreleased]
  · rw [get_erase]
    split
    · rename_i hreleased
      subst hreleased
      refine iff_of_false nofun fun h => hother ?_
      exact Option.some.inj (h.symm.trans ((hsound.mirror _ _).mpr ⟨route, hget, hmem⟩))
    · rfl
  · intro sessionId digest hdigest
    exact (mem_erase_of_ne (ne_of_isIdleToken hidle hdigest)).mpr
      (hsessions.bound sessionId digest hdigest)

/-- Admission keeps the agreement and what was validated, and leaves room for the token. -/
theorem TokensSound.admitToken {admitted : RegistryInner}
    (h : inner.admitToken fingerprint tokenDigest registry.maxTokensPerIdentity =
      (.ok (), admitted))
    (hbinding : inner.BindingFits fingerprint tokenDigest)
    (hroute : RouteFits registry inner fingerprint) :
    TokensSound registry admitted ∧ admitted.BindingFits fingerprint tokenDigest ∧
      RouteFits registry admitted fingerprint ∧
      TokenFits registry admitted fingerprint tokenDigest := by
  obtain ⟨rfl, hfits⟩ | ⟨route, released, hget, -, hmem, hidle, rfl⟩ := admitToken_eq_ok h
  · exact ⟨hsound, hbinding, hroute, hfits⟩
  · refine ⟨hsound.release hget hmem hidle, ?_, ?_, ?_⟩
    · exact fun other hother => hbinding other (get_of_get_erase hother)
    · left
      show ((inner.routes.insert fingerprint _).get fingerprint).isSome = true
      rw [get_insert_self]
      rfl
    · intro route' hget'
      rw [get_insert_self] at hget'
      cases hget'
      right
      have hlength := length_erase_of_mem hmem
      have hpos := length_pos_of_mem hmem
      have hlimit := (hsound.atRoute hget).limit
      show (route.tokenDigests.erase released).length < _
      omega

end

end RegistryInner

theorem RouteEntry.SessionsSound.new (globalPassThrough : Bool) :
    (RouteEntry.new globalPassThrough).SessionsSound where
  refTokens := fun _ => rfl
  bound := fun _ _ h => by cases h
  connected := fun _ h => by cases h

/-- The tokens of a route after one of them is bound again, or a new one for the first time. -/
def RouteEntry.digestsWith (route : RouteEntry) (tokenDigest : TokenDigest) : List TokenDigest :=
  (route.tokenDigests.filter fun digest => digest ≠ tokenDigest) ++ [tokenDigest]

variable {route : RouteEntry}

theorem RouteEntry.mem_digestsWith {digest tokenDigest : TokenDigest} :
    digest ∈ route.digestsWith tokenDigest ↔
      digest ∈ route.tokenDigests ∨ digest = tokenDigest := by
  rw [digestsWith, mem_append, mem_filter]
  by_cases h : digest = tokenDigest <;> simp [h]

theorem RouteEntry.nodup_digestsWith (h : route.tokenDigests.Nodup)
    (tokenDigest : TokenDigest) : (route.digestsWith tokenDigest).Nodup := by
  rw [digestsWith, ← concat_eq_append, nodup_concat]
  exact ⟨by simp, h.filter _⟩

variable {tokenDigest : TokenDigest}

/-- Binding a token again takes no more room. -/
theorem RouteEntry.length_digestsWith_le {limit : Nat} (hlimit : route.tokenDigests.length ≤ limit)
    (hfits : tokenDigest ∈ route.tokenDigests ∨ route.tokenDigests.length < limit) :
    (route.digestsWith tokenDigest).length ≤ limit := by
  rw [digestsWith, length_append, length_singleton]
  obtain hmem | hroom := hfits
  · have hless : (route.tokenDigests.filter fun digest => digest ≠ tokenDigest).length <
        route.tokenDigests.length :=
      length_filter_lt_length_iff_exists.mpr ⟨tokenDigest, hmem, by simp⟩
    omega
  · have hle :=
      length_filter_le (fun digest => decide (digest ≠ tokenDigest)) route.tokenDigests
    omega

namespace RegistryInner

variable {registry : Registry} {inner : RegistryInner} {fingerprint : Fingerprint}
  {route' : RouteEntry} {tokenDigest : TokenDigest} {globalPassThrough : Bool}

theorem mem_routeOrNew :
    tokenDigest ∈ (inner.routeOrNew fingerprint globalPassThrough).tokenDigests ↔
      ∃ route, inner.routes.get fingerprint = some route ∧ tokenDigest ∈ route.tokenDigests := by
  cases hget : inner.routes.get fingerprint with
  | none =>
    rw [routeOrNew_of_none hget]
    simp [RouteEntry.new]
  | some route =>
    rw [routeOrNew_of_some hget]
    simp

theorem bindToken_tokenDigests (hsound : TokensSound registry inner)
    (fingerprint : Fingerprint) (tokenDigest : TokenDigest) (globalPassThrough : Bool) :
    (inner.bindToken fingerprint tokenDigest globalPassThrough).1.tokenDigests =
      (inner.routeOrNew fingerprint globalPassThrough).digestsWith tokenDigest := by
  simp only [bindToken, RouteEntry.digestsWith]
  cases htoken : inner.tokens.get tokenDigest with
  | some other => rfl
  | none =>
    rw [Option.isNone_none, if_pos rfl, filter_eq_self.mpr]
    intro digest hdigest
    rw [decide_eq_true_eq]
    rintro rfl
    have h := (hsound.mirror digest fingerprint).mpr (mem_routeOrNew.mp hdigest)
    cases htoken.symm.trans h

theorem TokensSound.routeOrNew (hsound : TokensSound registry inner) (fingerprint : Fingerprint)
    (globalPassThrough : Bool) :
    RouteSound registry (inner.routeOrNew fingerprint globalPassThrough) := by
  cases hget : inner.routes.get fingerprint with
  | none =>
    rw [routeOrNew_of_none hget]
    exact ⟨nodup_nil, Nat.zero_le _, .new _⟩
  | some route =>
    rw [routeOrNew_of_some hget]
    exact hsound.atRoute hget

/-- Binding a token that fits keeps the agreement. -/
theorem TokensSound.bind (hsound : TokensSound registry inner)
    (hbinding : inner.BindingFits fingerprint tokenDigest)
    (hroute : RouteFits registry inner fingerprint)
    (htoken : TokenFits registry inner fingerprint tokenDigest)
    (hdigests : route'.tokenDigests =
      (inner.routeOrNew fingerprint globalPassThrough).digestsWith tokenDigest)
    (hsessions : route'.SessionsSound) :
    TokensSound registry
      { routes := inner.routes.insert fingerprint route'
        tokens := inner.tokens.insert tokenDigest fingerprint } := by
  refine hsound.insertRoute (fun digest => ?_) (fun digest other hother => ?_) ⟨?_, ?_, hsessions⟩
    hroute
  · rw [get_insert, hdigests, RouteEntry.mem_digestsWith, mem_routeOrNew]
    by_cases hnew : digest = tokenDigest
    · simp [hnew]
    · rw [if_neg hnew, hsound.mirror]
      simp [hnew]
  · rw [get_insert]
    split
    · rename_i hnew
      subst hnew
      refine iff_of_false (fun h => hother (Option.some.inj h).symm) fun h => hother ?_
      exact hbinding other h
    · rfl
  · rw [hdigests]
    exact RouteEntry.nodup_digestsWith (hsound.routeOrNew _ _).nodup tokenDigest
  · rw [hdigests]
    refine RouteEntry.length_digestsWith_le (hsound.routeOrNew _ _).limit ?_
    cases hget : inner.routes.get fingerprint with
    | none =>
      rw [routeOrNew_of_none hget]
      exact .inr registry.maxTokens_pos
    | some before =>
      rw [routeOrNew_of_some hget]
      exact htoken before hget

end RegistryInner

namespace RouteEntry

/-- A session refers to a route with a token the route lists. -/
theorem SessionsSound.addReference {route : RouteEntry} (hsound : route.SessionsSound)
    {registration : McpRegistration} {digests : List TokenDigest}
    (hsubset : route.tokenDigests ⊆ digests) (hmem : registration.tokenDigest ∈ digests) :
    (RouteEntry.addReference { route with tokenDigests := digests }
      registration).SessionsSound := by
  constructor
  · intro sessionId
    show ((route.refTokens.insert _ _).get sessionId).isSome =
      ((route.refs.insert _ _).get sessionId).isSome
    rw [get_insert, get_insert]
    split
    · rfl
    · exact hsound.refTokens sessionId
  · intro sessionId digest h
    obtain ⟨-, rfl⟩ | ⟨-, h⟩ := get_insert_eq_some h
    · exact hmem
    · exact hsubset (hsound.bound sessionId digest h)
  · intro sessionId h
    show ((route.refs.insert _ _).get sessionId).isSome = true
    rw [get_insert]
    split
    · rfl
    · exact hsound.connected sessionId h

end RouteEntry

namespace Registry

open RegistryInner

variable {registry : Registry} {inner : RegistryInner} (cells : WorkerCells)
  (registration : McpRegistration) (plan : WorkerLaunch) (order : Fingerprint → Nat) (instant : Nat)

theorem TokensSound.registered {admitted : RegistryInner} (hsound : TokensSound registry admitted)
    (hbinding : admitted.BindingFits registration.fingerprint registration.tokenDigest)
    (hroute : RouteFits registry admitted registration.fingerprint)
    (htoken : TokenFits registry admitted registration.fingerprint registration.tokenDigest) :
    TokensSound registry
      { routes := admitted.routes.insert registration.fingerprint
          (registry.registered admitted cells registration plan instant).2
        tokens := admitted.tokens.insert registration.tokenDigest registration.fingerprint } := by
  have hdigests := bindToken_tokenDigests hsound registration.fingerprint registration.tokenDigest
    registry.globalPassThrough
  have hchange := registry.registered_change admitted cells registration plan instant
  have hbefore := hsound.routeOrNew registration.fingerprint registry.globalPassThrough
  have hsubset : (admitted.routeOrNew registration.fingerprint
      registry.globalPassThrough).tokenDigests ⊆
      (admitted.bindToken registration.fingerprint registration.tokenDigest
        registry.globalPassThrough).1.tokenDigests := by
    rw [hdigests]
    exact fun digest h => RouteEntry.mem_digestsWith.mpr (.inl h)
  have hmem : registration.tokenDigest ∈
      (admitted.bindToken registration.fingerprint registration.tokenDigest
        registry.globalPassThrough).1.tokenDigests := by
    rw [hdigests]
    exact RouteEntry.mem_digestsWith.mpr (.inr rfl)
  exact hsound.bind hbinding hroute htoken (hchange.tokenDigests.trans hdigests)
    (hchange.sound (hbefore.sessions.addReference hsubset hmem))

/-- A registration keeps the agreement, whether it is accepted or not. -/
theorem registerMcp_tokensSound (hsound : TokensSound registry inner) :
    TokensSound registry (registry.registerMcp inner cells registration plan order instant).2 := by
  have hevict := hsound.evict registration.fingerprint registry.routeCapacity order
  obtain ⟨error, heq⟩ | ⟨admitted, hvalid, hallowed, heq⟩ :=
    registry.registerMcp_cases inner cells registration plan order instant
  · rw [heq]
    exact hevict
  · rw [heq]
    obtain ⟨hbinding, hroute, -⟩ := validate_eq_ok.mp hvalid
    obtain ⟨hadmitted, hbinding, hroute, htoken⟩ := hevict.admitToken hallowed hbinding hroute
    exact TokensSound.registered _ _ _ _ hadmitted hbinding hroute htoken

/-- The sessions of a route after a registration: the registered one, with its token, and those
that were there before. -/
theorem registerMcp_sessions {fingerprint : Fingerprint} {route' : RouteEntry}
    {sessionId : McpSessionId}
    (hget' : (registry.registerMcp inner cells registration plan order instant).2.routes.get
      fingerprint = some route')
    (hsession : route'.refs.contains sessionId = true) :
    (∃ directive, (registry.registerMcp inner cells registration plan order instant).1 =
        .ok directive ∧ fingerprint = registration.fingerprint ∧
        sessionId = registration.sessionId ∧
        route'.refTokens.get sessionId = some registration.tokenDigest) ∨
      (∀ directive, (registry.registerMcp inner cells registration plan order instant).1 =
          .ok directive → ¬ (registration.fingerprint = fingerprint ∧
            registration.sessionId = sessionId)) ∧
        ∃ route, inner.routes.get fingerprint = some route ∧
          route.refs.contains sessionId = true ∧
          route'.refTokens.get sessionId = route.refTokens.get sessionId := by
  obtain ⟨error, heq⟩ | ⟨admitted, -, hallowed, heq⟩ :=
    registry.registerMcp_cases inner cells registration plan order instant
  · rw [heq] at hget' ⊢
    exact .inr ⟨by simp, route', get_of_get_evict hget', hsession, rfl⟩
  rw [heq] at hget' ⊢
  obtain ⟨rfl, rfl⟩ | ⟨hne, hget⟩ := get_insert_eq_some hget'
  · have hchange := registry.registered_change admitted cells registration plan instant
    obtain ⟨hregistered, htoken⟩ := hchange.sessions sessionId hsession
    by_cases hown : sessionId = registration.sessionId
    · refine .inl ⟨_, rfl, rfl, hown, htoken.trans ?_⟩
      rw [hown]
      exact get_insert_self _ _ _
    · replace htoken := htoken.trans (get_insert_of_ne _ _ hown)
      replace hregistered :=
        (congrArg Option.isSome (get_insert_of_ne _ _ hown)).symm.trans hregistered
      refine .inr ⟨fun _ _ h => hown h.2.symm, ?_⟩
      -- the session referred to the route before
      simp only [bindToken, routeOrNew] at htoken hregistered
      cases hget : admitted.routes.get registration.fingerprint with
      | none =>
        rw [hget] at hregistered
        cases hregistered
      | some route =>
        rw [hget] at htoken hregistered
        obtain ⟨before, digests, hbefore, rfl⟩ := get_of_get_admitted hallowed hget
        exact ⟨before, hbefore, hregistered, htoken⟩
  · obtain ⟨before, digests, hbefore, rfl⟩ := get_of_get_admitted hallowed hget
    exact .inr ⟨fun _ _ h => hne h.1.symm, before, hbefore, hsession, rfl⟩

end Registry

/-! ## Runs -/

/-- A step of the broker: the state before, the operation and the reply. -/
abbrev BrokerStep := BrokerState × RegistryOp × RegistryReply

/-- The token a step registers a session with, if it is an accepted registration of it. -/
def registeredToken (fingerprint : Fingerprint) (sessionId : McpSessionId) :
    BrokerStep → Option TokenDigest
  | (_, .registerMcp registration _ _ _, .directive (.ok _)) =>
    if registration.fingerprint = fingerprint ∧ registration.sessionId = sessionId then
      some registration.tokenDigest
    else none
  | _ => none

/-- The token a session last registered with. -/
def lastToken (log : List BrokerStep) (fingerprint : Fingerprint) (sessionId : McpSessionId) :
    Option TokenDigest :=
  log.reverse.findSome? (registeredToken fingerprint sessionId)

variable (log : List BrokerStep)

theorem lastToken_snoc (step : BrokerStep) (fingerprint : Fingerprint) (sessionId : McpSessionId) :
    lastToken (log ++ [step]) fingerprint sessionId =
      (registeredToken fingerprint sessionId step).or (lastToken log fingerprint sessionId) := by
  rw [lastToken, reverse_append, reverse_singleton, singleton_append,
    findSome?_cons]
  cases registeredToken fingerprint sessionId step with
  | none | some tokenDigest => rfl

/-- The route of a live session records the token the session last registered with. -/
def RecordsLastTokens (log : List BrokerStep) (inner : RegistryInner) : Prop :=
  ∀ fingerprint route sessionId, inner.routes.get fingerprint = some route →
    route.refs.contains sessionId = true →
    route.refTokens.get sessionId = lastToken log fingerprint sessionId

theorem registeredToken_of_not_isRegistration {op : RegistryOp} (h : op.isRegistration = false)
    (fingerprint : Fingerprint) (sessionId : McpSessionId) (state : BrokerState)
    (reply : RegistryReply) : registeredToken fingerprint sessionId (state, op, reply) = none := by
  cases op with
  | registerMcp registration plan order instant => cases h
  | _ => rfl

theorem RecordsLastTokens.change {log : List BrokerStep} {state : BrokerState}
    {inner' : RegistryInner} {issued reported : List String}
    {published : Option (Fingerprint × WorkerTarget)} (h : RecordsLastTokens log state.inner)
    (hchange : RegistryInner.Change issued reported published state.inner inner') {op : RegistryOp}
    (hop : op.isRegistration = false) (reply : RegistryReply) :
    RecordsLastTokens (log ++ [(state, op, reply)]) inner' := by
  intro fingerprint route' sessionId hget' hsession
  obtain ⟨route, hget, _, _, _, hroute, -⟩ := hchange.exists_before hget'
  obtain ⟨hbefore, htoken⟩ := hroute.sessions sessionId hsession
  rw [htoken, lastToken_snoc, registeredToken_of_not_isRegistration hop]
  exact h fingerprint route sessionId hget hbefore

namespace Registry

variable (registry : Registry)

theorem recordsLastTokens_registerMcp {log : List BrokerStep} {state : BrokerState}
    (h : RecordsLastTokens log state.inner) (registration : McpRegistration) (plan : WorkerLaunch)
    (order : Fingerprint → Nat) (instant : Nat) :
    RecordsLastTokens
      (log ++ [(state, .registerMcp registration plan order instant,
        (registry.step state (.registerMcp registration plan order instant)).1)])
      (registry.step state (.registerMcp registration plan order instant)).2.inner := by
  intro fingerprint route' sessionId hget' hsession
  rw [lastToken_snoc]
  obtain ⟨directive, hreply, rfl, rfl, htoken⟩ | ⟨hnot, route, hget, hbefore, htoken⟩ :=
    registerMcp_sessions state.cells registration plan order instant hget' hsession
  · rw [htoken]
    simp [registeredToken, step, locked, hreply]
  · rw [htoken, h fingerprint route sessionId hget hbefore]
    have hnone : registeredToken fingerprint sessionId
        (state, .registerMcp registration plan order instant,
          (registry.step state (.registerMcp registration plan order instant)).1) = none := by
      cases hreply : (registry.registerMcp state.inner state.cells registration plan order
        instant).1 with
      | error error => simp [registeredToken, step, locked, hreply]
      | ok directive => simp [registeredToken, step, locked, hreply, hnot directive hreply]
    rw [hnone, Option.none_or]

theorem tokens_step (state : BrokerState) (op : RegistryOp)
    (h : RegistryInner.TokensSound registry state.inner ∧ RecordsLastTokens log state.inner) :
    RegistryInner.TokensSound registry (registry.step state op).2.inner ∧
      RecordsLastTokens (log ++ [(state, op, (registry.step state op).1)])
        (registry.step state op).2.inner := by
  obtain hop | ⟨registration, plan, order, instant, rfl⟩ := op.isRegistration_cases
  · have hchange := registry.step_change state hop
    exact ⟨h.1.change hchange, h.2.change hchange hop _⟩
  · exact ⟨registerMcp_tokensSound state.cells registration plan order instant h.1,
      registry.recordsLastTokens_registerMcp h.2 registration plan order instant⟩

/-- Every reachable state agrees on the tokens and remembers those of the live sessions. -/
theorem tokens_run (ops : List RegistryOp) :
    RegistryInner.TokensSound registry (registry.machine.run .initial ops).2.inner ∧
      RecordsLastTokens (registry.machine.trace .initial ops)
        (registry.machine.run .initial ops).2.inner := by
  exact Machine.run_induction (M := registry.machine)
    registry.tokens_step ⟨.empty registry, fun _ _ _ hget => by cases hget⟩ ops

end Registry

/-! ## Requests -/

/-- A request with a listed token is answered from the route that lists it. -/
theorem RegistryInner.resolveTarget_of_get {inner : RegistryInner} {fingerprint : Fingerprint}
    (htoken : inner.tokens.get tokenDigest = some fingerprint)
    (hroute : inner.routes.get fingerprint = some route) (cells : WorkerCells)
    (requireWorker : Bool) :
    (inner.resolveTarget cells requireWorker tokenDigest).1 ≠ .error .unknownToken ∧
      ∀ request, (inner.resolveTarget cells requireWorker tokenDigest).1 = .ok (.worker request) →
        request.fingerprint = fingerprint ∧ route.state = .ready request.target := by
  have hunavailable : ∀ result : Except ResolveError ResolvedTarget,
      result = (if !route.refs.isEmpty && !requireWorker then .ok .passThrough
        else .error (.unavailable route.state.kind)) →
      result ≠ .error .unknownToken ∧ ∀ request, result = .ok (.worker request) →
        request.fingerprint = fingerprint ∧ route.state = .ready request.target := by
    rintro result rfl
    split <;> simp
  simp only [resolveTarget, htoken, hroute]
  split
  · rename_i target hstate
    split
    · refine ⟨by simp, ?_⟩
      rintro request h
      cases h
      exact ⟨rfl, hstate⟩
    · exact hunavailable _ rfl
  · exact hunavailable _ rfl

/-- What the token table promises in a state reached by the steps of a log. -/
structure TokenTableCorrect (registry : Registry) (log : List BrokerStep) (inner : RegistryInner) :
    Prop where
  /-- The table and the routes list the same bindings. -/
  mirror : ∀ tokenDigest fingerprint, inner.tokens.get tokenDigest = some fingerprint ↔
    ∃ route, inner.routes.get fingerprint = some route ∧ tokenDigest ∈ route.tokenDigests
  /-- A route lists a token once. -/
  nodup : ∀ fingerprint route, inner.routes.get fingerprint = some route → route.tokenDigests.Nodup
  /-- Only one route lists a token. -/
  unique : ∀ tokenDigest fingerprint route other route',
    inner.routes.get fingerprint = some route → tokenDigest ∈ route.tokenDigests →
    inner.routes.get other = some route' → tokenDigest ∈ route'.tokenDigests → other = fingerprint
  limit : ∀ fingerprint route, inner.routes.get fingerprint = some route →
    route.tokenDigests.length ≤ registry.maxTokensPerIdentity
  capacity : inner.routes.size ≤ registry.routeCapacity
  /-- A live session has one recorded token, the one it last registered with. -/
  recorded : ∀ fingerprint route sessionId, inner.routes.get fingerprint = some route →
    route.refs.contains sessionId = true →
    ∃ tokenDigest, route.refTokens.get sessionId = some tokenDigest ∧
      lastToken log fingerprint sessionId = some tokenDigest ∧
      inner.tokens.get tokenDigest = some fingerprint
  /-- A request with that token finds the route of its own identity. -/
  resolved : ∀ fingerprint route sessionId tokenDigest cells,
    inner.routes.get fingerprint = some route → route.refs.contains sessionId = true →
    lastToken log fingerprint sessionId = some tokenDigest →
    (inner.resolveTarget cells registry.requireWorker tokenDigest).1 ≠ .error .unknownToken ∧
      ∀ request, (inner.resolveTarget cells registry.requireWorker tokenDigest).1 =
        .ok (.worker request) →
        request.fingerprint = fingerprint ∧ route.state = .ready request.target
  connected : ∀ fingerprint route sessionId, inner.routes.get fingerprint = some route →
    route.connected.contains sessionId = true → route.refs.contains sessionId = true

/-- **The token table mirrors the routes** after every sequence of operations, whatever their
arguments, replies and clock readings. -/
theorem Registry.token_table_mirrors_routes (registry : Registry) (ops : List RegistryOp) :
    TokenTableCorrect registry (registry.machine.trace .initial ops)
      (registry.machine.run .initial ops).2.inner := by
  obtain ⟨hsound, hlast⟩ := registry.tokens_run ops
  have hrecorded : ∀ fingerprint route sessionId,
      (registry.machine.run .initial ops).2.inner.routes.get fingerprint = some route →
      route.refs.contains sessionId = true →
      ∃ tokenDigest, route.refTokens.get sessionId = some tokenDigest ∧
        lastToken (registry.machine.trace .initial ops) fingerprint sessionId = some tokenDigest ∧
        (registry.machine.run .initial ops).2.inner.tokens.get tokenDigest = some fingerprint := by
    intro fingerprint route sessionId hget hsession
    have hsessions := (hsound.atRoute hget).sessions
    obtain ⟨tokenDigest, htoken⟩ :=
      Option.isSome_iff_exists.mp ((hsessions.refTokens sessionId).trans hsession)
    refine ⟨tokenDigest, htoken, (hlast fingerprint route sessionId hget hsession) ▸ htoken, ?_⟩
    exact (hsound.mirror tokenDigest fingerprint).mpr
      ⟨route, hget, hsessions.bound sessionId tokenDigest htoken⟩
  refine ⟨hsound.mirror, fun _ _ hget => (hsound.atRoute hget).nodup, fun _ _ _ _ _ =>
    hsound.eq_of_mem, fun _ _ hget => (hsound.atRoute hget).limit, hsound.capacity, hrecorded, ?_,
    fun _ _ sessionId hget => (hsound.atRoute hget).sessions.connected sessionId⟩
  intro fingerprint route sessionId tokenDigest cells hget hsession hlastToken
  obtain ⟨digest, -, hlastToken', htoken⟩ := hrecorded fingerprint route sessionId hget hsession
  cases hlastToken.symm.trans hlastToken'
  exact RegistryInner.resolveTarget_of_get htoken hget cells registry.requireWorker

end NemoRelay.Broker

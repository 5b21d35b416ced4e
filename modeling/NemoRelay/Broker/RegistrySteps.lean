import NemoRelay.Broker.RouteSteps
import NemoRelay.Broker.Registry

/-!
# Broker: what an operation does to the registry

All operations but a registration leave the token table alone and change existing routes, each by a
`RouteEntry.Change`. A registration may evict one idle route and then either fails or binds its
token and changes the route of its identity.
-/

namespace NemoRelay.Broker

open List hiding contains map

open OrderedMap

namespace RegistryInner

/-- The activations under way. -/
def activations (inner : RegistryInner) : List String :=
  inner.routes.entries.flatMap fun entry => entry.2.state.activation

/-- A route changes by a method, and what that publishes is published on this route. -/
def RouteChange (published : Option (Fingerprint × WorkerTarget)) (fingerprint : Fingerprint)
    (route route' : RouteEntry) : Prop :=
  ∃ issued reported publishedHere, RouteEntry.Change issued reported publishedHere route route' ∧
    ∀ target, publishedHere = some target → published = some (fingerprint, target)

/-- Every route changes by a method; the table of tokens and the set of routes stay. -/
structure Change (issued reported : List String) (published : Option (Fingerprint × WorkerTarget))
    (inner inner' : RegistryInner) : Prop where
  tokens : inner'.tokens = inner.tokens
  size : inner'.routes.size = inner.routes.size
  routes : ∀ fingerprint, Option.Rel (RouteChange published fingerprint)
    (inner.routes.get fingerprint) (inner'.routes.get fingerprint)
  activations : (reported ++ inner'.activations).Perm (inner.activations ++ issued)

variable {inner : RegistryInner} {fingerprint : Fingerprint} {route route' : RouteEntry}
  {issued reported : List String} {published : Option WorkerTarget}

theorem Change.refl (inner : RegistryInner) : Change [] [] none inner inner where
  tokens := rfl
  size := rfl
  routes := by
    intro fingerprint
    cases inner.routes.get fingerprint with
    | none => exact .none
    | some route => exact .some ⟨[], [], none, .refl route, by simp⟩
  activations := by simp

theorem activations_perm (h : inner.routes.get fingerprint = some route) :
    inner.activations.Perm (route.state.activation ++
      (inner.routes.erase fingerprint).entries.flatMap fun entry => entry.2.state.activation) := by
  have hperm := (entries_perm h).flatMap_right fun entry => entry.2.state.activation
  rwa [flatMap_cons] at hperm

theorem activations_setRoute_perm (inner : RegistryInner) (fingerprint : Fingerprint)
    (route : RouteEntry) :
    (inner.setRoute fingerprint route).activations.Perm (route.state.activation ++
      (inner.routes.erase fingerprint).entries.flatMap fun entry => entry.2.state.activation) := by
  have hperm := (entries_insert_perm inner.routes fingerprint route).flatMap_right
    fun entry => entry.2.state.activation
  rwa [flatMap_cons] at hperm

/-- What one route issues and reports is what the registry does. -/
theorem setRoute_activations (hget : inner.routes.get fingerprint = some route)
    (h : reported ++ route'.state.activation = route.state.activation ++ issued) :
    (reported ++ (inner.setRoute fingerprint route').activations).Perm
      (inner.activations ++ issued) := by
  let others := (inner.routes.erase fingerprint).entries.flatMap
    fun entry => entry.2.state.activation
  have hafter := activations_setRoute_perm inner fingerprint route'
  have hbefore := activations_perm hget
  calc reported ++ (inner.setRoute fingerprint route').activations
      List.Perm _ (reported ++ (route'.state.activation ++ others)) := hafter.append_left _
      List.Perm _ (route.state.activation ++ issued ++ others) := by
          rw [← append_assoc, h]
      List.Perm _ (route.state.activation ++ others ++ issued) := by
          rw [append_assoc, append_assoc]
          exact List.perm_append_comm.append_left _
      List.Perm _ (inner.activations ++ issued) := hbefore.symm.append_right _

theorem setRoute_change (hget : inner.routes.get fingerprint = some route)
    (h : route.Change issued reported published route') :
    Change issued reported (published.map (fingerprint, ·)) inner
      (inner.setRoute fingerprint route') where
  tokens := rfl
  size := size_insert_of_get hget _
  routes := by
    intro other
    show Option.Rel _ _ ((inner.routes.insert fingerprint route').get other)
    by_cases hother : other = fingerprint
    · subst hother
      rw [get_insert_self, hget]
      refine .some ⟨_, _, _, h, ?_⟩
      rintro target rfl
      rfl
    · rw [get_insert_of_ne _ _ hother]
      cases inner.routes.get other with
      | none => exact .none
      | some route => exact .some ⟨[], [], none, .refl route, by simp⟩
  activations := setRoute_activations hget h.activations

section OnRoute

variable {α : Type} {action : RouteEntry → Except RegistryError α × RouteEntry}

/-- A method on one route, with what its reply says it issues, reports and publishes. -/
theorem onRoute_change (issued reported : Except RegistryError α → List String)
    (published : Except RegistryError α → Option WorkerTarget)
    (hissued : issued (.error .unknownRoute) = [])
    (hreported : reported (.error .unknownRoute) = [])
    (hpublished : published (.error .unknownRoute) = none)
    (h : ∀ route, RouteEntry.Change (issued (action route).1) (reported (action route).1)
      (published (action route).1) route (action route).2) :
    Change (issued (inner.onRoute fingerprint action).1)
      (reported (inner.onRoute fingerprint action).1)
      ((published (inner.onRoute fingerprint action).1).map (fingerprint, ·)) inner
      (inner.onRoute fingerprint action).2 := by
  unfold onRoute
  split
  · rw [hissued, hreported, hpublished]
    exact .refl inner
  · rename_i route hget
    exact setRoute_change hget (h route)

/-- A method that issues, reports and publishes nothing. -/
theorem onRoute_quiet_change (h : ∀ route, RouteEntry.Change [] [] none route (action route).2) :
    Change [] [] none inner (inner.onRoute fingerprint action).2 :=
  onRoute_change (fun _ => []) (fun _ => []) (fun _ => none) rfl rfl rfl h

end OnRoute

/-- A method on all routes. -/
theorem map_change (inner : RegistryInner) {f : RouteEntry → RouteEntry}
    (reported : RouteEntry → List String) (order : Fingerprint → Nat)
    (h : ∀ route, RouteEntry.Change [] (reported route) none route (f route)) :
    Change [] ((inner.routes.iterate order).flatMap fun entry => reported entry.2) none inner
      { inner with routes := inner.routes.map fun _ route => f route } where
  tokens := rfl
  size := size_map _ _
  routes := by
    intro fingerprint
    show Option.Rel _ _ ((inner.routes.map fun _ route => f route).get fingerprint)
    rw [get_map]
    cases inner.routes.get fingerprint with
    | none => exact .none
    | some route => exact .some ⟨[], reported route, none, h route, by simp⟩
  activations := by
    have hiterate := (iterate_perm order inner.routes).flatMap_right fun entry => reported entry.2
    refine (hiterate.append_right _).trans ?_
    simp only [activations, map, flatMap_map, append_nil]
    induction inner.routes.entries with
    | nil => exact .nil
    | cons entry entries ih =>
      rw [flatMap_cons, flatMap_cons, flatMap_cons,
        ← append_nil entry.2.state.activation, ← (h entry.2).activations]
      refine List.Perm.trans ?_ (ih.append_left _)
      rw [append_assoc, append_assoc]
      refine List.Perm.append_left _ ?_
      rw [← append_assoc, ← append_assoc]
      exact List.perm_append_comm.append_right _

/-- The route of an identity is launching a worker. -/
def isActivating (inner : RegistryInner) (fingerprint : Fingerprint) : Bool :=
  match inner.routes.get fingerprint with
  | some route => !route.state.activation.isEmpty
  | none => false

end RegistryInner

/-! ## Activations and workers in a step -/

namespace RegistryOp

/-- The activation a call starts. An owner that registers again is told the plan already under way,
which is not a new activation. -/
def issued (before : RegistryInner) : RegistryOp → RegistryReply → List String
  | .registerMcp registration _ _ _, .directive result =>
    if before.isActivating registration.fingerprint then [] else issuedByLaunch result
  | .beginRelaunch _ _ _ _, .directive result => issuedByLaunch result
  | _, _ => []

/-- The activations a call reports as published, cancelled, failed or expired. -/
def reported : RegistryOp → RegistryReply → List String
  | .releaseMcp _ _ _, .released result => reportedByReleaseResult result
  | .mcpDisconnected _ _, .disconnected activationId => activationId.toList
  | .cancelActivation _ _ activationId _, .cancellation result =>
    reportedByCancellation activationId result
  | .markWorkerReady _ activationId _ _, .done result => reportedOnSuccess activationId result
  | .markActivationFailed _ activationId _, .done result => reportedOnSuccess activationId result
  | .expireActivations _ _, .expired activations => activations.map Prod.snd
  | .publishRecoveredWorker _ _ _ _ _, .recovered result => reportedByRecovery result
  | .markRecoveryFailed _ _ _, .recovered result => reportedByRecovery result
  | _, _ => []

/-- The worker a call publishes, and the route it is published on. -/
def published : RegistryOp → RegistryReply → Option (Fingerprint × WorkerTarget)
  | .markWorkerReady fingerprint _ target _, .done result =>
    (publishedOnSuccess target result).map (fingerprint, ·)
  | .publishRecoveredWorker fingerprint _ _ target _, .recovered result =>
    (publishedOnSuccess target result).map (fingerprint, ·)
  | _, _ => none

def isRegistration : RegistryOp → Bool
  | .registerMcp _ _ _ _ => true
  | _ => false

theorem isRegistration_cases (op : RegistryOp) : op.isRegistration = false ∨
    ∃ registration plan order instant, op = .registerMcp registration plan order instant := by
  cases op with
  | registerMcp => exact .inr ⟨_, _, _, _, rfl⟩
  | _ => exact .inl rfl

end RegistryOp

namespace RegistryInner

theorem map_snd_filterMap_eq_flatMap {α β γ : Type*} (l : List (α × β)) (f : β → Option γ) :
    (l.filterMap fun entry => (f entry.2).map (entry.1, ·)).map Prod.snd =
      l.flatMap fun entry => (f entry.2).toList := by
  induction l with
  | nil => rfl
  | cons entry l ih =>
    cases h : f entry.2 with
    | none | some c => simp [h, ih]

variable (inner : RegistryInner)

theorem currentDirectiveExclusive_change (cells : WorkerCells) (fingerprint : Fingerprint)
    (sessionId : McpSessionId) (retryAfterMs : Nat) :
    Change [] [] none inner
      (inner.currentDirectiveExclusive cells fingerprint sessionId retryAfterMs).2 := by
  apply onRoute_quiet_change
  intro route
  split
  · exact RouteEntry.currentDirective_change cells sessionId retryAfterMs
  · exact .refl route

theorem currentDirective_change (cells : WorkerCells) (fingerprint : Fingerprint)
    (sessionId : McpSessionId) (retryAfterMs : Nat) :
    Change [] [] none inner
      (inner.currentDirective cells fingerprint sessionId retryAfterMs).2 := by
  unfold currentDirective
  split
  · exact .refl inner
  · split
    · split
      · exact .refl inner
      · exact currentDirectiveExclusive_change inner cells fingerprint sessionId retryAfterMs
    · exact .refl inner

end RegistryInner

/-! ## Parts of a registration -/

variable {admitted : RegistryInner} {order : Fingerprint → Nat} {incoming : Fingerprint}
  {limit capacity : Nat}

namespace RegistryInner

variable {inner : RegistryInner} {fingerprint : Fingerprint} {tokenDigest : TokenDigest}
  {route : RouteEntry}

theorem evicted_eq_some {victim : Fingerprint}
    (h : inner.evicted fingerprint capacity order = some (victim, route)) :
    inner.routes.get fingerprint = none ∧ capacity ≤ inner.routes.size ∧
      inner.routes.get victim = some route ∧ route.isRemovable = true := by
  unfold evicted at h
  split at h
  · cases h
  · rename_i hfull
    rw [not_or, contains, Bool.not_eq_true, Option.isSome_eq_false_iff,
      Option.isNone_iff_eq_none, not_lt] at hfull
    have hmem := mem_of_find?_eq_some h
    rw [OrderedMap.mem_iterate] at hmem
    have hremovable : (victim, route).2.isRemovable = true :=
      find?_some (p := fun entry : Fingerprint × RouteEntry => entry.2.isRemovable) h
    exact ⟨hfull.1, hfull.2, hmem, hremovable⟩

theorem evictInactiveRoutesAtCapacity_cases (inner : RegistryInner) (incoming : Fingerprint)
    (capacity : Nat) (order : Fingerprint → Nat) :
    inner.evictInactiveRoutesAtCapacity incoming capacity order = inner ∨
      ∃ victim route, inner.evicted incoming capacity order = some (victim, route) ∧
        inner.evictInactiveRoutesAtCapacity incoming capacity order =
          inner.removeRoute victim route := by
  unfold evictInactiveRoutesAtCapacity
  split
  · rename_i victim route h
    exact .inr ⟨victim, route, h, rfl⟩
  · exact .inl rfl

theorem admitToken_of_error {error : RegistryError}
    (h : inner.admitToken fingerprint tokenDigest limit = (.error error, admitted)) :
    admitted = inner := by
  unfold admitToken at h
  split at h
  · cases h
  · split at h
    · cases h
    · split at h
      · cases h
        rfl
      · cases h

/-- A token is admitted to a new route, to a route that has it or has room for it, or in the place
of an idle token. -/
theorem admitToken_eq_ok (h : inner.admitToken fingerprint tokenDigest limit = (.ok (), admitted)) :
    admitted = inner ∧ (∀ route, inner.routes.get fingerprint = some route →
        tokenDigest ∈ route.tokenDigests ∨ route.tokenDigests.length < limit) ∨
      ∃ route released, inner.routes.get fingerprint = some route ∧
        tokenDigest ∉ route.tokenDigests ∧ released ∈ route.tokenDigests ∧
        route.isIdleToken released = true ∧
        admitted =
          { routes := inner.routes.insert fingerprint
              { route with tokenDigests := route.tokenDigests.erase released }
            tokens := inner.tokens.erase released } := by
  unfold admitToken at h
  split at h
  · rename_i hget
    cases h
    refine .inl ⟨rfl, ?_⟩
    intro route hroute
    rw [hget] at hroute
    cases hroute
  · rename_i route hget
    split at h
    · rename_i hroom
      cases h
      refine .inl ⟨rfl, ?_⟩
      intro route' hroute'
      cases hget.symm.trans hroute'
      exact hroom
    · rename_i hfull
      split at h
      · cases h
      · rename_i released hfind
        cases h
        exact .inr ⟨route, released, hget, fun hmem => hfull (.inl hmem),
          mem_of_find?_eq_some hfind, find?_some hfind, rfl⟩

/-- Eviction keeps the other routes as they are. -/
theorem get_of_get_evict
    (h : (inner.evictInactiveRoutesAtCapacity incoming capacity order).routes.get fingerprint =
      some route) : inner.routes.get fingerprint = some route := by
  obtain heq | ⟨victim, evictedRoute, -, heq⟩ :=
    evictInactiveRoutesAtCapacity_cases inner incoming capacity order
  · rwa [heq] at h
  · rw [heq] at h
    exact get_of_get_erase h

/-- Admission changes only which tokens a route lists. -/
theorem get_of_get_admitToken
    (hallowed : inner.admitToken incoming tokenDigest limit = (.ok (), admitted))
    (h : admitted.routes.get fingerprint = some route) :
    ∃ before digests, inner.routes.get fingerprint = some before ∧
      route = { before with tokenDigests := digests } := by
  obtain ⟨rfl, -⟩ | ⟨before, released, hget, -, -, -, rfl⟩ := admitToken_eq_ok hallowed
  · exact ⟨route, _, h, rfl⟩
  · obtain ⟨rfl, rfl⟩ | ⟨-, h⟩ := get_insert_eq_some h
    · exact ⟨before, _, hget, rfl⟩
    · exact ⟨route, _, h, rfl⟩

theorem routeOrNew_of_some (h : inner.routes.get fingerprint = some route)
    (globalPassThrough : Bool) : inner.routeOrNew fingerprint globalPassThrough = route := by
  rw [routeOrNew, h, Option.getD_some]

theorem routeOrNew_of_none (h : inner.routes.get fingerprint = none) (globalPassThrough : Bool) :
    inner.routeOrNew fingerprint globalPassThrough = .new globalPassThrough := by
  rw [routeOrNew, h, Option.getD_none]

theorem bindToken_setRoute (inner : RegistryInner) (fingerprint : Fingerprint)
    (tokenDigest : TokenDigest) (globalPassThrough : Bool) (route : RouteEntry) :
    (inner.bindToken fingerprint tokenDigest globalPassThrough).2.setRoute fingerprint route =
      { routes := inner.routes.insert fingerprint route
        tokens := inner.tokens.insert tokenDigest fingerprint } := by
  rw [setRoute, bindToken, insert_insert]

end RegistryInner

namespace Registry

open RegistryInner

variable (registry : Registry)

/-- Every operation that is not a registration changes existing routes only. -/
theorem step_change (state : BrokerState) {op : RegistryOp} (hop : op.isRegistration = false) :
    Change (op.issued state.inner (registry.step state op).1)
      (op.reported (registry.step state op).1) (op.published (registry.step state op).1)
      state.inner (registry.step state op).2.inner := by
  cases op with
  | registerMcp registration plan order instant => cases hop
  | renewMcp fingerprint sessionId lease =>
    exact onRoute_quiet_change fun route => route.renewMcp_change sessionId lease
  | currentDirective fingerprint sessionId => exact currentDirective_change _ _ _ _ _
  | currentDirectiveExclusive fingerprint sessionId =>
    exact currentDirectiveExclusive_change _ _ _ _ _
  | releaseMcp fingerprint sessionId deadline =>
    exact onRoute_change (fun _ => []) reportedByReleaseResult (fun _ => none) rfl rfl rfl
      fun route => route.releaseMcp_change sessionId deadline
  | mcpConnected fingerprint sessionId =>
    show Change [] [] none _ (state.inner.mcpConnected fingerprint sessionId)
    unfold mcpConnected
    split
    · exact .refl _
    · rename_i route hget
      exact setRoute_change hget (route.mcpConnected_change sessionId)
  | mcpDisconnected fingerprint sessionId =>
    show Change [] (state.inner.mcpDisconnected fingerprint sessionId).1.toList none _
      (state.inner.mcpDisconnected fingerprint sessionId).2
    unfold mcpDisconnected
    split
    · exact .refl _
    · rename_i route hget
      exact setRoute_change hget (route.mcpDisconnected_change sessionId)
  | cancelActivation fingerprint sessionId activationId clock =>
    exact onRoute_change (fun _ => []) (reportedByCancellation activationId) (fun _ => none) rfl
      rfl rfl fun route => route.cancelActivation_change sessionId activationId clock
  | markWorkerReady fingerprint activationId target now =>
    exact onRoute_change (fun _ => []) (reportedOnSuccess activationId)
      (publishedOnSuccess target) rfl rfl rfl
      fun route => route.markWorkerReady_change activationId target now
  | markActivationFailed fingerprint activationId now =>
    exact onRoute_change (fun _ => []) (reportedOnSuccess activationId) (fun _ => none) rfl rfl rfl
      fun route => route.markActivationFailed_change activationId now
  | expireActivations now order =>
    have h := map_change state.inner (fun route => (route.expireActivation now).1.toList) order
      fun route => route.expireActivation_change now
    rwa [← map_snd_filterMap_eq_flatMap _ fun route : RouteEntry =>
      (route.expireActivation now).1] at h
  | markWorkerCommunicationFailed fingerprint workerId
  | authorizeWorkerRecovery fingerprint workerId | activationCandidates now order
  | resolveTarget tokenDigest | setControlAvailable target available => exact .refl _
  | workerFailed fingerprint workerId deadline =>
    exact onRoute_quiet_change fun route => route.workerFailed_change workerId deadline
  | beginRelaunch fingerprint sessionId plan instant =>
    exact onRoute_change issuedByLaunch (fun _ => []) (fun _ => none) rfl rfl rfl
      fun route => route.beginRelaunch_change sessionId plan instant
  | finishDrainingWorker fingerprint workerId now =>
    exact onRoute_quiet_change fun route =>
      route.finishDrainingWorker_change workerId now state.cells
  | publishRecoveredWorker fingerprint permit launchActivationId target now =>
    exact onRoute_change (fun _ => []) reportedByRecovery (publishedOnSuccess target) rfl rfl rfl
      fun route => route.publishRecoveredWorker_change permit launchActivationId target now
  | markRecoveryFailed fingerprint permit now =>
    show Change [] (reportedByRecovery
      (state.inner.markRecoveryFailed state.cells fingerprint permit now).1) none _
      (state.inner.markRecoveryFailed state.cells fingerprint permit now).2.1
    unfold markRecoveryFailed
    split
    · exact .refl _
    · rename_i route hget
      exact setRoute_change hget (route.markRecoveryFailed_change permit now state.cells)
  | activationProgress instant order =>
    have h := map_change state.inner (fun _ => []) order
      fun route => route.activationProgress_change instant
    rwa [flatMap_eq_nil_iff.mpr fun _ _ => rfl] at h
  | dropRequest index =>
    show Change [] [] none _ (registry.step state (.dropRequest index)).2.inner
    rw [step]
    split <;> exact .refl _

section

variable (inner admitted : RegistryInner) (cells : WorkerCells) (registration : McpRegistration)
  (plan : WorkerLaunch) (order : Fingerprint → Nat) (instant : Nat)

/-- The route of a registration, before its directive: the token is bound and the reference
added. -/
def registeredRoute : RouteEntry :=
  (admitted.bindToken registration.fingerprint registration.tokenDigest
    registry.globalPassThrough).1.addReference registration

theorem contains_addReference (route : RouteEntry) :
    (route.addReference registration).refs.contains registration.sessionId = true := by
  show ((route.refs.insert _ _).get _).isSome = true
  rw [get_insert_self]
  rfl

/-- The directive of a registration, and the route that it leaves. -/
def registered : BrokerDirective × RouteEntry :=
  (registry.registeredRoute admitted registration).directiveFor cells registration.sessionId
    registry.retryAfterMs plan instant

theorem registered_change :
    RouteEntry.Change
      (if (registry.registeredRoute admitted registration).state = .empty then [plan.activationId]
        else []) [] none (registry.registeredRoute admitted registration)
      (registry.registered admitted cells registration plan instant).2 :=
  RouteEntry.directiveFor_change _ _ _ _ (contains_addReference registration _)

/-- A registration that fails has done nothing but make room; one that succeeds has passed the
validations and found or made room for its token. -/
theorem registerMcp_cases :
    (∃ error, registry.registerMcp inner cells registration plan order instant =
        (.error error, inner.evictInactiveRoutesAtCapacity registration.fingerprint
          registry.routeCapacity order)) ∨
      ∃ admitted,
        (inner.evictInactiveRoutesAtCapacity registration.fingerprint registry.routeCapacity
          order).validate registration registry.routeCapacity = .ok () ∧
        (inner.evictInactiveRoutesAtCapacity registration.fingerprint registry.routeCapacity
          order).admitToken registration.fingerprint registration.tokenDigest
            registry.maxTokensPerIdentity = (.ok (), admitted) ∧
        registry.registerMcp inner cells registration plan order instant =
          (.ok (registry.registered admitted cells registration plan instant).1,
            { routes := admitted.routes.insert registration.fingerprint
                (registry.registered admitted cells registration plan instant).2
              tokens := admitted.tokens.insert registration.tokenDigest
                registration.fingerprint }) := by
  simp only [registerMcp, registered, registeredRoute]
  split
  · exact .inl ⟨_, rfl⟩
  · rename_i hvalid
    split
    · rename_i error admitted hallowed
      refine .inl ⟨error, ?_⟩
      rw [admitToken_of_error hallowed]
    · rename_i admitted hallowed
      refine .inr ⟨admitted, hvalid, hallowed, ?_⟩
      rw [← bindToken_setRoute admitted registration.fingerprint registration.tokenDigest
        registry.globalPassThrough]

end

/-- A route after eviction and admission is a route from before, but for its tokens. -/
theorem get_of_get_admitted {inner : RegistryInner} {fingerprint : Fingerprint}
    {tokenDigest : TokenDigest} {route : RouteEntry}
    (hallowed : (inner.evictInactiveRoutesAtCapacity incoming capacity order).admitToken incoming
      tokenDigest limit = (.ok (), admitted)) (h : admitted.routes.get fingerprint = some route) :
    ∃ before digests, inner.routes.get fingerprint = some before ∧
      route = { before with tokenDigests := digests } := by
  obtain ⟨before, digests, hbefore, rfl⟩ := get_of_get_admitToken hallowed h
  exact ⟨before, digests, get_of_get_evict hbefore, rfl⟩

end Registry

end NemoRelay.Broker

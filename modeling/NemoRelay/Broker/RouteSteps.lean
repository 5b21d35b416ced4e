import NemoRelay.Broker.Route

/-!
# Broker: what a method does to a route

`RouteEntry.Change` says everything the later results need to know about a method on one route:
which sessions and tokens stay, which activations it issues and reports, and which worker it
publishes. Every method of `Broker.Route` is shown to be such a change.
-/

namespace NemoRelay.Broker

open OrderedMap

/-- The states that a route has only while some session refers to it. -/
def RouteState.needsReference : RouteState → Bool
  | .activating _ _ | .ready _ | .recovering _ _ _ | .passThrough false => true
  | .empty | .draining _ _ | .passThrough true => false

/-- The activation that is under way. -/
def RouteState.activation : RouteState → List String
  | .activating _ plan => [plan.activationId]
  | _ => []

/-- The addresses of the worker that the state can hand out, now or after recovery. -/
def RouteState.serving : RouteState → List Nat
  | .ready target => [target.address]
  | .recovering (some target) _ _ => [target.address]
  | _ => []

/-! ## Activations and workers in the replies -/

/-- The activation a launch directive carries. -/
def issuedByLaunch : Except RegistryError BrokerDirective → List String
  | .ok (.launchWorker plan) => [plan.activationId]
  | _ => []

/-- An activation is reported by a call for it that succeeds. -/
def reportedOnSuccess (activationId : String) : Except RegistryError Unit → List String
  | .ok () => [activationId]
  | .error _ => []

def reportedByCancellation (activationId : String) :
    Except RegistryError ActivationCancellation → List String
  | .ok .cancelled => [activationId]
  | _ => []

def reportedByRelease : ReleaseAction → List String
  | .cancelActivation activationId => [activationId]
  | _ => []

def reportedByReleaseResult : Except RegistryError ReleaseAction → List String
  | .ok action => reportedByRelease action
  | .error _ => []

def reportedByRecovery : Except RegistryError (Option String) → List String
  | .ok (some activationId) => [activationId]
  | _ => []

/-- A worker is published by a call for it that succeeds. -/
def publishedOnSuccess {α : Type} (target : WorkerTarget) :
    Except RegistryError α → Option WorkerTarget
  | .ok _ => some target
  | .error _ => none

namespace RouteEntry

structure SessionsSound (route : RouteEntry) : Prop where
  refTokens : ∀ sessionId,
    (route.refTokens.get sessionId).isSome = (route.refs.get sessionId).isSome
  bound : ∀ sessionId tokenDigest, route.refTokens.get sessionId = some tokenDigest →
    tokenDigest ∈ route.tokenDigests
  connected : ∀ sessionId, route.connected.contains sessionId = true →
    route.refs.contains sessionId = true

structure LifecycleSound (route : RouteEntry) : Prop where
  owner : ∀ owner plan, route.state = .activating owner plan → route.refs.contains owner = true
  live : route.state.needsReference = true → route.refs.isEmpty = false

/-- What every method keeps of the tokens and sessions of a route. -/
structure KeepsSessions (route route' : RouteEntry) : Prop where
  tokenDigests : route'.tokenDigests = route.tokenDigests
  sessions : ∀ sessionId, route'.refs.contains sessionId = true →
    route.refs.contains sessionId = true ∧
      route'.refTokens.get sessionId = route.refTokens.get sessionId
  sound : route.SessionsSound → route'.SessionsSound

/-- The effect of a method on a route: it issues and reports activations, and may publish a
worker. -/
structure Change (issued reported : List String) (published : Option WorkerTarget)
    (route route' : RouteEntry) : Prop extends KeepsSessions route route' where
  lifecycleSound : route.LifecycleSound → route'.LifecycleSound
  permanent : route'.state = .passThrough true ↔ route.state = .passThrough true
  activations : reported ++ route'.state.activation = route.state.activation ++ issued
  serving : ∀ address ∈ route'.state.serving,
    address ∈ route.state.serving ∨ ∃ target, published = some target ∧ target.address = address

variable {route route' : RouteEntry} {state state' : RouteState} {issued reported : List String}
  {published : Option WorkerTarget}

theorem isEmpty_eq_false_of_contains {κ ν : Type*} [LinearOrder κ] {m : OrderedMap κ ν} {k : κ}
    (h : m.contains k = true) : m.isEmpty = false := by
  obtain ⟨v, hv⟩ := Option.isSome_iff_exists.mp h
  exact isEmpty_eq_false_of_get hv

theorem KeepsSessions.of_eq (htokens : route'.tokenDigests = route.tokenDigests)
    (hrefs : route'.refs = route.refs) (hrefTokens : route'.refTokens = route.refTokens)
    (hconnected : route'.connected = route.connected) : KeepsSessions route route' where
  tokenDigests := htokens
  sessions := by
    intro sessionId hcontains
    rw [hrefs] at hcontains
    exact ⟨hcontains, by rw [hrefTokens]⟩
  sound := by
    intro hsound
    constructor
    · rw [hrefTokens, hrefs]
      exact hsound.refTokens
    · rw [hrefTokens, htokens]
      exact hsound.bound
    · rw [hconnected, hrefs]
      exact hsound.connected

theorem KeepsSessions.trans {route'' : RouteEntry} (h : KeepsSessions route route')
    (h' : KeepsSessions route' route'') : KeepsSessions route route'' where
  tokenDigests := h'.tokenDigests.trans h.tokenDigests
  sessions := by
    intro sessionId hcontains
    obtain ⟨hcontains', heq'⟩ := h'.sessions sessionId hcontains
    obtain ⟨hcontains'', heq⟩ := h.sessions sessionId hcontains'
    exact ⟨hcontains'', heq'.trans heq⟩
  sound := h'.sound ∘ h.sound

/-- A change is what happens to the sessions together with one transition of the state. -/
theorem KeepsSessions.change (hkeeps : KeepsSessions route route') (hstate : route.state = state)
    (hstate' : route'.state = state')
    (owner : ∀ owner plan, state' = .activating owner plan → route.LifecycleSound →
      route'.refs.contains owner = true)
    (live : state'.needsReference = true → route.LifecycleSound → route'.refs.isEmpty = false)
    (permanent : state' = .passThrough true ↔ state = .passThrough true)
    (activations : reported ++ state'.activation = state.activation ++ issued)
    (serving : ∀ address ∈ state'.serving,
      address ∈ state.serving ∨ ∃ target, published = some target ∧ target.address = address) :
    Change issued reported published route route' := by
  subst hstate hstate'
  refine ⟨hkeeps, ?_, permanent, activations, serving⟩
  intro hsound
  exact ⟨fun o p h => owner o p h hsound, fun h => live h hsound⟩

/-- A transition to a state that needs no session and hands out no worker. -/
theorem KeepsSessions.change_to_unreferenced (hkeeps : KeepsSessions route route')
    (hstate : route.state = state) (hstate' : route'.state = state')
    (hneeds : state'.needsReference = false)
    (permanent : state' = .passThrough true ↔ state = .passThrough true)
    (activations : reported ++ state'.activation = state.activation ++ issued)
    (serving : state'.serving = []) : Change issued reported published route route' := by
  refine hkeeps.change hstate hstate' ?_ ?_ permanent activations ?_
  · rintro owner plan rfl -
    cases hneeds
  · intro h
    rw [hneeds] at h
    cases h
  · rw [serving]
    exact fun _ h => (List.not_mem_nil h).elim

/-- A method that leaves the state alone and drops no reference. -/
theorem KeepsSessions.change_of_state_eq (hkeeps : KeepsSessions route route')
    (hstate : route'.state = route.state)
    (hrefs : ∀ sessionId, route.refs.contains sessionId = true →
      route'.refs.contains sessionId = true) : Change [] [] none route route' := by
  refine hkeeps.change rfl hstate ?_ ?_ Iff.rfl (by simp) fun _ h => .inl h
  · intro owner plan h hsound
    exact hrefs owner (hsound.owner owner plan h)
  · intro hneeds hsound
    have hlive := hsound.live hneeds
    rw [Bool.eq_false_iff, Ne, OrderedMap.isEmpty_iff, not_forall] at hlive
    obtain ⟨sessionId, hsome⟩ := hlive
    exact isEmpty_eq_false_of_contains (hrefs sessionId (Option.isSome_iff_ne_none.mpr hsome))

theorem Change.refl (route : RouteEntry) : Change [] [] none route route :=
  (KeepsSessions.of_eq rfl rfl rfl rfl).change_of_state_eq rfl fun _ h => h

/-! ## Changes of the state -/

/-- The route after an activation has ended without a worker. -/
theorem Change.endActivation {owner : McpSessionId} {plan : WorkerLaunch}
    (hstate : route.state = .activating owner plan) (hkeeps : KeepsSessions route route')
    (hrefs : route'.refs = route.refs)
    (hstate' : route'.state = .passThrough false ∨ route'.state = route.stateWithoutActivation) :
    Change [] [plan.activationId] none route route' := by
  have hlive : route.LifecycleSound → route'.refs.isEmpty = false := by
    intro hsound
    rw [hrefs]
    exact hsound.live (by rw [hstate]; rfl)
  have hcases : route'.state = .passThrough false ∨ route'.state = .empty := by
    rw [stateWithoutActivation] at hstate'
    split at hstate'
    · exact hstate'
    · exact .inl (hstate'.elim id id)
  obtain hpass | hempty := hcases
  all_goals
    exact hkeeps.change hstate ‹_› (by simp) (fun _ => hlive) (by simp) rfl
      (by simp [RouteState.serving])

theorem isLaunchable_cases (h : route.isLaunchable = true) :
    route.state = .empty ∨ route.state = .passThrough false ∨
      ∃ owner deadline, route.state = .recovering none owner deadline := by
  revert h
  fun_cases isLaunchable route with
  | case1 hs => exact fun _ => .inl hs
  | case2 hs => exact fun _ => .inr (.inl hs)
  | case3 owner deadline hs => exact fun _ => .inr (.inr ⟨owner, deadline, hs⟩)
  | case4 => exact nofun

variable {sessionId : McpSessionId}

/-- A launch issues the activation of its plan. -/
theorem launch_change (hlaunchable : route.isLaunchable = true)
    (hsession : route.refs.contains sessionId = true) (plan : WorkerLaunch) (instant : Nat) :
    Change [plan.activationId] [] none route (route.launch sessionId plan instant) := by
  have hlive := isEmpty_eq_false_of_contains hsession
  obtain hs | hs | ⟨owner, deadline, hs⟩ := isLaunchable_cases hlaunchable
  all_goals
    refine KeepsSessions.change (.of_eq rfl rfl rfl rfl) hs rfl ?_ (fun _ _ => hlive)
      (by simp [launch]) rfl (by simp [launch, RouteState.serving])
    rintro _ _ ⟨⟩ -
    exact hsession

/-- A publication reports the activation it ends. -/
theorem Change.publish {target : WorkerTarget} (hkeeps : KeepsSessions route route')
    (hlive : route'.refs.isEmpty = false) (hstate' : route'.state = .ready target)
    (hstate : route.state ≠ .passThrough true) :
    Change [] route.state.activation (some target) route route' := by
  refine hkeeps.change rfl hstate' (by simp) (fun _ _ => hlive) (by simp [hstate])
    (by simp [RouteState.activation]) ?_
  intro address haddress
  exact .inr ⟨target, rfl, (List.mem_singleton.mp haddress).symm⟩

/-! ## The methods -/

variable (cells : WorkerCells)

theorem directive_change {whenEmpty : BrokerDirective × RouteEntry} (sessionId : McpSessionId)
    (retryAfterMs : Nat) (hempty : route.state = .empty → Change issued [] none route whenEmpty.2) :
    Change (if route.state = .empty then issued else []) [] none route
      (route.directive cells sessionId retryAfterMs whenEmpty).2 := by
  fun_cases directive route cells sessionId retryAfterMs whenEmpty with
  | case1 hs =>
    rw [if_pos hs]
    exact hempty hs
  | case9 target owner deadline hs =>
    -- the worker is handed out again
    rw [if_neg (by simp [hs])]
    exact KeepsSessions.change (.of_eq rfl rfl rfl rfl) hs rfl (by simp)
      (fun _ h => h.live (by rw [hs]; rfl)) (by simp) rfl fun _ h => .inl h
  | _ =>
    rw [if_neg (by simp [*])]
    exact .refl route

theorem directiveFor_change (retryAfterMs : Nat) (plan : WorkerLaunch)
    (instant : Nat) (hsession : route.refs.contains sessionId = true) :
    Change (if route.state = .empty then [plan.activationId] else []) [] none route
      (route.directiveFor cells sessionId retryAfterMs plan instant).2 := by
  apply directive_change
  intro hs
  exact launch_change (by rw [isLaunchable, hs]) hsession plan instant

theorem currentDirective_change (sessionId : McpSessionId) (retryAfterMs : Nat) :
    Change [] [] none route (route.currentDirective cells sessionId retryAfterMs).2 := by
  have hrefl : (route.state = .empty →
      Change [] [] none route (BrokerDirective.waitForWorker retryAfterMs, route).2) :=
    fun _ => Change.refl route
  have h := directive_change cells sessionId retryAfterMs hrefl
  rwa [ite_self] at h

variable (sessionId : McpSessionId)

theorem mcpConnected_change : Change [] [] none route (route.mcpConnected sessionId) := by
  rw [mcpConnected]
  split
  · rename_i hsession
    have hkeeps : KeepsSessions route
        { route with connected := route.connected.insert sessionId () } := by
      refine ⟨rfl, fun _ h => ⟨h, rfl⟩, fun hsound => ⟨hsound.refTokens, hsound.bound, ?_⟩⟩
      intro other hother
      rw [contains, get_insert] at hother
      split at hother
      · rename_i heq
        rw [heq]
        exact hsession
      · exact hsound.connected other hother
    exact hkeeps.change_of_state_eq rfl fun _ h => h
  · exact .refl route

theorem keepsSessions_disconnect (route : RouteEntry) (sessionId : McpSessionId) :
    KeepsSessions route { route with connected := route.connected.erase sessionId } := by
  refine ⟨rfl, fun _ h => ⟨h, rfl⟩, fun hsound => ⟨hsound.refTokens, hsound.bound, ?_⟩⟩
  intro other hother
  rw [contains, get_erase] at hother
  split at hother
  · cases hother
  · exact hsound.connected other hother

theorem mcpDisconnected_change :
    Change [] (route.mcpDisconnected sessionId).1.toList none route
      (route.mcpDisconnected sessionId).2 := by
  have hkeeps := keepsSessions_disconnect route sessionId
  fun_cases mcpDisconnected route sessionId with
  | case1 _ plan hs =>
    exact .endActivation hs (hkeeps.trans (.of_eq rfl rfl rfl rfl)) rfl (.inl rfl)
  | _ => exact hkeeps.change_of_state_eq rfl fun _ h => h

theorem renewMcp_change (leaseExpiresAtUnixMs : Nat) :
    Change [] [] none route (route.renewMcp sessionId leaseExpiresAtUnixMs).2 := by
  rw [renewMcp]
  split
  · rename_i hsession
    have hcontains : ∀ other, (route.refs.insert sessionId leaseExpiresAtUnixMs).contains other =
        route.refs.contains other := by
      intro other
      rw [contains, get_insert]
      split
      · rename_i heq
        rw [heq, hsession]
        rfl
      · rfl
    have hkeeps : KeepsSessions route
        { route with refs := route.refs.insert sessionId leaseExpiresAtUnixMs } := by
      refine ⟨rfl, fun other h => ⟨(hcontains other).symm.trans h, rfl⟩,
        fun hsound => ⟨fun other => ?_, hsound.bound, fun other hother => ?_⟩⟩
      · exact (hsound.refTokens other).trans (hcontains other).symm
      · exact (hcontains other).trans (hsound.connected other hother)
    exact hkeeps.change_of_state_eq rfl fun other => (hcontains other).trans
  · exact .refl route

theorem keepsSessions_release (route : RouteEntry) (sessionId : McpSessionId) :
    KeepsSessions route
      { route with
        connected := route.connected.erase sessionId
        refTokens := route.refTokens.erase sessionId
        refs := route.refs.erase sessionId } := by
  refine ⟨rfl, fun other => ?_, fun hsound => ⟨fun other => ?_, fun other digest => ?_,
    fun other => ?_⟩⟩
  all_goals
    simp only [contains, get_erase]
    split
  · exact nofun
  · exact fun h => ⟨h, rfl⟩
  · rfl
  · exact hsound.refTokens other
  · exact nofun
  · exact hsound.bound other digest
  · exact nofun
  · exact hsound.connected other

/-- The last reference has gone: the worker drains, and what was under way is given up. -/
theorem afterReferenceRemoved_change_of_isEmpty {before : RouteEntry}
    (removedSession : McpSessionId) (drainDeadlineUnixMs : Nat)
      (hkeeps : KeepsSessions before route)
    (hstate : before.state = route.state) (hempty : route.refs.isEmpty = true) :
    Change [] (reportedByRelease
        (route.afterReferenceRemoved removedSession drainDeadlineUnixMs).1) none before
      (route.afterReferenceRemoved removedSession drainDeadlineUnixMs).2 := by
  have hto : ∀ state : RouteState, KeepsSessions before { route with state := state } :=
    fun state => hkeeps.trans (.of_eq rfl rfl rfl rfl)
  simp only [afterReferenceRemoved, hempty]
  cases hs : route.state with
  | empty | activating owner plan =>
    exact (hto .empty).change_to_unreferenced (hstate.trans hs) rfl rfl (by simp) rfl rfl
  | ready target =>
    exact (hto (.draining target drainDeadlineUnixMs)).change_to_unreferenced (hstate.trans hs) rfl
      rfl (by simp) rfl rfl
  | draining target deadline =>
    exact hkeeps.change_to_unreferenced (hstate.trans hs) hs rfl Iff.rfl rfl rfl
  | passThrough permanent =>
    cases permanent with
    | true => exact hkeeps.change_to_unreferenced (hstate.trans hs) hs rfl Iff.rfl rfl rfl
    | false => exact (hto .empty).change_to_unreferenced (hstate.trans hs) rfl rfl (by simp) rfl rfl
  | recovering target owner deadline =>
    cases target with
    | none => exact (hto .empty).change_to_unreferenced (hstate.trans hs) rfl rfl (by simp) rfl rfl
    | some target =>
      exact (hto (.draining target drainDeadlineUnixMs)).change_to_unreferenced (hstate.trans hs)
        rfl rfl (by simp) rfl rfl

/-- References remain: only the owner of an activation matters. -/
theorem transferOwnerIfNeeded_change {before : RouteEntry} {removedSession : McpSessionId}
    (hkeeps : KeepsSessions before route) (hstate : before.state = route.state)
    (hlive : route.refs.isEmpty = false)
    (hothers : ∀ other, other ≠ removedSession → before.refs.contains other = true →
      route.refs.contains other = true) :
    Change [] (reportedByRelease (route.transferOwnerIfNeeded removedSession).1) none before
      (route.transferOwnerIfNeeded removedSession).2 := by
  have hsame : (∀ owner plan, route.state = .activating owner plan → owner ≠ removedSession) →
      Change [] [] none before route := by
    intro howner
    refine hkeeps.change hstate rfl ?_ (fun _ _ => hlive) Iff.rfl (by simp) fun _ h => .inl h
    intro owner plan hs hsound
    exact hothers owner (howner owner plan hs) (hsound.owner owner plan (hstate.trans hs))
  fun_cases transferOwnerIfNeeded route removedSession with
  | case1 plan hs =>
    exact KeepsSessions.change (hkeeps.trans (.of_eq rfl rfl rfl rfl)) (hstate.trans hs) rfl
      (by simp) (fun _ _ => hlive) (by simp) rfl (by simp [RouteState.serving])
  | case2 owner plan hs hne =>
    refine hsame fun owner' plan' hs' => ?_
    cases hs.symm.trans hs'
    exact hne
  | case3 hs => exact hsame fun owner plan h => absurd h (hs owner plan)

theorem releaseMcp_change (drainDeadlineUnixMs : Nat) :
    Change [] (reportedByRelease (route.releaseMcp sessionId drainDeadlineUnixMs).1) none route
      (route.releaseMcp sessionId drainDeadlineUnixMs).2 := by
  have hkeeps := keepsSessions_release route sessionId
  have hothers : ∀ other, other ≠ sessionId → route.refs.contains other = true →
      (route.refs.erase sessionId).contains other = true := by
    intro other hne hother
    rw [contains, get_erase_of_ne _ hne]
    exact hother
  simp only [releaseMcp]
  split
  · cases hempty : (route.refs.erase sessionId).isEmpty with
    | true => exact afterReferenceRemoved_change_of_isEmpty _ _ hkeeps rfl hempty
    | false =>
      have h := transferOwnerIfNeeded_change hkeeps rfl hempty hothers
      simp only [afterReferenceRemoved, hempty]
      exact h
  · rename_i hnone
    refine hkeeps.change_of_state_eq rfl fun other hother => hothers other ?_ hother
    rintro rfl
    exact hnone hother

variable (activationId : String)

theorem cancelActivation_change (clock : Nat → Nat) :
    Change [] (reportedByCancellation activationId
        (route.cancelActivation sessionId activationId clock).1) none route
      (route.cancelActivation sessionId activationId clock).2 := by
  fun_cases cancelActivation route sessionId activationId clock with
  | case2 _ plan hid hs =>
    subst hid
    exact .endActivation hs (.of_eq rfl rfl rfl rfl) rfl (.inr rfl)
  | _ => exact .refl route

theorem markWorkerReady_change (target : WorkerTarget) (now : Nat) :
    Change [] (reportedOnSuccess activationId (route.markWorkerReady activationId target now).1)
      (publishedOnSuccess target (route.markWorkerReady activationId target now).1) route
      (route.markWorkerReady activationId target now).2 := by
  fun_cases markWorkerReady route activationId target now with
  | case2 hlive owner plan hs hid =>
    subst hid
    have hactivation : [plan.activationId] = route.state.activation := by rw [hs]; rfl
    rw [reportedOnSuccess, hactivation]
    exact .publish (.of_eq rfl rfl rfl rfl) (Bool.eq_false_iff.mpr hlive) rfl (by simp [hs])
  | _ => exact .refl route

theorem markActivationFailed_change (now : Nat) :
    Change [] (reportedOnSuccess activationId (route.markActivationFailed activationId now).1) none
      route (route.markActivationFailed activationId now).2 := by
  fun_cases markActivationFailed route activationId now with
  | case1 owner plan hs hid =>
    subst hid
    exact .endActivation hs (.of_eq rfl rfl rfl rfl) rfl (.inr rfl)
  | _ => exact .refl route

theorem expireActivation_change (now : Nat) :
    Change [] (route.expireActivation now).1.toList none route (route.expireActivation now).2 := by
  fun_cases expireActivation route now with
  | case1 owner plan hs => exact .endActivation hs (.of_eq rfl rfl rfl rfl) rfl (.inr rfl)
  | _ => exact .refl route

theorem activationProgress_change (instant : Nat) :
    Change [] [] none route (route.activationProgress instant).2 := by
  fun_cases activationProgress route instant with
  | case1 => exact KeepsSessions.change_of_state_eq (.of_eq rfl rfl rfl rfl) rfl fun _ h => h
  | _ => exact .refl route

theorem beginRelaunch_change (plan : WorkerLaunch) (instant : Nat) :
    Change (issuedByLaunch (route.beginRelaunch sessionId plan instant).1) [] none route
      (route.beginRelaunch sessionId plan instant).2 := by
  have hlaunch : ¬ (!route.connected.contains sessionId || !route.refs.contains sessionId) = true →
      ¬ (!route.isLaunchable) = true →
      Change [plan.activationId] [] none route (route.launch sessionId plan instant) := by
    intro hsession hlaunchable
    simp only [Bool.or_eq_true, Bool.not_eq_true', not_or, Bool.not_eq_false] at hsession
    exact launch_change (by simpa using hlaunchable) hsession.2 plan instant
  fun_cases beginRelaunch route sessionId plan instant with
  | case4 hsession hlaunchable | case5 hsession hlaunchable => exact hlaunch hsession hlaunchable
  | _ => exact .refl route

theorem workerFailed_change (workerId : String) (recoveryDeadlineUnixMs : Nat) :
    Change [] [] none route (route.workerFailed workerId recoveryDeadlineUnixMs).2 := by
  -- the route of a failed worker, whatever else was recorded
  have hfailed : ∀ {state : RouteState} {route' : RouteEntry}, route.state = state →
      state.activation = [] → state ≠ .passThrough true → KeepsSessions route route' →
      route'.refs = route.refs →
      route'.state = (if route.refs.isEmpty then .empty
        else .recovering none route.firstConnected recoveryDeadlineUnixMs) →
      Change [] [] none route route' := by
    intro state route' hs hactivation hpermanent hkeeps hrefs hs'
    split at hs'
    · exact hkeeps.change_to_unreferenced hs hs' rfl (by simp [hpermanent])
        (by rw [hactivation]; rfl) rfl
    · rename_i hlive
      exact hkeeps.change hs hs' (by simp)
        (fun _ _ => by rw [hrefs]; exact Bool.eq_false_iff.mpr hlive) (by simp [hpermanent])
        (by rw [hactivation]; rfl) (by simp [RouteState.serving])
  fun_cases workerFailed route workerId recoveryDeadlineUnixMs with
  | case1 target hs | case3 target owner deadline hs =>
    exact hfailed hs rfl (by simp) (.of_eq rfl rfl rfl rfl) rfl rfl
  | _ => exact .refl route

theorem finishDrainingWorker_change (workerId : String) (now : Nat) (cells : WorkerCells) :
    Change [] [] none route (route.finishDrainingWorker workerId now cells).2 := by
  fun_cases finishDrainingWorker route workerId now cells with
  | case2 target deadline hs =>
    exact KeepsSessions.change_to_unreferenced (.of_eq rfl rfl rfl rfl) hs rfl rfl (by simp) rfl rfl
  | _ => exact .refl route

/-- A permit that still holds names the activation that is under way. -/
theorem canceledActivation_eq_some {permit : RecoveryPermit} {canceled : Option String}
    (h : route.canceledActivation permit = some canceled) :
    route.state.activation = canceled.toList ∧ route.state ≠ .passThrough true := by
  revert h
  fun_cases canceledActivation route permit with
  | case1 owner plan hs | case3 target hs | case5 target owner deadline hs =>
    rintro ⟨⟩
    rw [hs]
    exact ⟨rfl, by simp⟩
  | _ => exact nofun

variable (permit : RecoveryPermit)

theorem publishRecoveredWorker_change (launchActivationId : Option String) (target : WorkerTarget)
    (now : Nat) :
    Change [] (reportedByRecovery
        (route.publishRecoveredWorker permit launchActivationId target now).1)
      (publishedOnSuccess target
        (route.publishRecoveredWorker permit launchActivationId target now).1) route
      (route.publishRecoveredWorker permit launchActivationId target now).2 := by
  unfold publishRecoveredWorker
  split
  · exact .refl route
  rename_i hlive
  split
  · exact .refl route
  · rename_i canceled hpermit
    obtain ⟨hactivation, hpermanent⟩ := canceledActivation_eq_some hpermit
    have hreported : reportedByRecovery (.ok canceled) = route.state.activation := by
      rw [hactivation]
      cases canceled <;> rfl
    rw [hreported]
    cases launchActivationId with
    | none | some activationId =>
      exact .publish (.of_eq rfl rfl rfl rfl) (Bool.eq_false_iff.mpr hlive) rfl hpermanent

theorem markRecoveryFailed_change (now : Nat) (cells : WorkerCells) :
    Change [] (reportedByRecovery (route.markRecoveryFailed permit now cells).1) none route
      (route.markRecoveryFailed permit now cells).2.1 := by
  fun_cases markRecoveryFailed route permit now cells with
  | case1 owner plan hs =>
    exact .endActivation hs (.of_eq rfl rfl rfl rfl) rfl (.inr rfl)
  | _ => exact .refl route

end RouteEntry

end NemoRelay.Broker

import NemoRelay.Broker.Tokens

/-!
# Broker: lifecycle of routes and activations

A route that launches, serves, recovers or passes requests through for a while has a session that
refers to it, and the owner of a launch is one of these sessions. A route that passes requests
through for good stays that way. The activations under way balance: what was issued is what was
reported together with what is still under way, so an activation is reported once at most.
-/

namespace NemoRelay.Broker

open List

namespace RegistryInner

/-- The lifecycle states agree with the references and with the mode of the registry. -/
def LifecycleSound (registry : Registry) (inner : RegistryInner) : Prop :=
  ∀ fingerprint route, inner.routes.get fingerprint = some route → route.LifecycleSound ∧
    (route.state = .passThrough true ↔ registry.globalPassThrough = true)

variable {registry : Registry} {inner inner' : RegistryInner} {issued reported : List String}
  {published : Option (Fingerprint × WorkerTarget)} {fingerprint : Fingerprint}

theorem LifecycleSound.change (hsound : LifecycleSound registry inner)
    (h : Change issued reported published inner inner') : LifecycleSound registry inner' := by
  intro fingerprint route' hget'
  obtain ⟨route, hget, _, _, _, hchange, -⟩ := h.exists_before hget'
  obtain ⟨hlife, hpermanent⟩ := hsound fingerprint route hget
  exact ⟨hchange.lifecycleSound hlife, hchange.permanent.trans hpermanent⟩

/-- Routes may be removed, and their tokens may change. -/
theorem LifecycleSound.of_get (hsound : LifecycleSound registry inner)
    (h : ∀ fingerprint route, inner'.routes.get fingerprint = some route → ∃ before digests,
      inner.routes.get fingerprint = some before ∧
        route = { before with tokenDigests := digests }) : LifecycleSound registry inner' := by
  intro fingerprint route hget
  obtain ⟨before, digests, hbefore, rfl⟩ := h fingerprint route hget
  obtain ⟨hlife, hpermanent⟩ := hsound fingerprint before hbefore
  exact ⟨⟨hlife.owner, hlife.live⟩, hpermanent⟩

end RegistryInner

variable {route : RouteEntry} (globalPassThrough : Bool)

open OrderedMap RouteEntry

namespace RouteEntry

/-- Another reference and another list of tokens do not disturb the lifecycle. -/
theorem LifecycleSound.addReference (hsound : route.LifecycleSound) (digests : List TokenDigest)
    (registration : McpRegistration) :
    (addReference { route with tokenDigests := digests } registration).LifecycleSound where
  owner := by
    intro owner plan hstate
    show ((route.refs.insert _ _).get owner).isSome = true
    rw [get_insert]
    split
    · rfl
    · exact hsound.owner owner plan hstate
  live := fun _ => isEmpty_eq_false_of_contains (Registry.contains_addReference registration _)

theorem LifecycleSound.new : (new globalPassThrough).LifecycleSound := by
  cases globalPassThrough with
  | false | true =>
    exact ⟨by simp [new], by simp [new, RouteState.needsReference]⟩

theorem new_permanent :
    (new globalPassThrough).state = .passThrough true ↔ globalPassThrough = true := by
  cases globalPassThrough with
  | false | true => simp [new]

end RouteEntry

variable {admitted : RegistryInner}

namespace Registry

open RegistryInner

variable {registry : Registry} {inner : RegistryInner} (cells : WorkerCells)
  (registration : McpRegistration) (plan : WorkerLaunch) (order : Fingerprint → Nat) (instant : Nat)

/-- The route a registration finds or creates. -/
theorem lifecycle_routeOrNew (hsound : LifecycleSound registry inner) (fingerprint : Fingerprint) :
    (inner.routeOrNew fingerprint registry.globalPassThrough).LifecycleSound ∧
      ((inner.routeOrNew fingerprint registry.globalPassThrough).state = .passThrough true ↔
        registry.globalPassThrough = true) := by
  cases hget : inner.routes.get fingerprint with
  | none =>
    rw [routeOrNew_of_none hget]
    exact ⟨.new _, new_permanent _⟩
  | some route =>
    rw [routeOrNew_of_some hget]
    exact hsound fingerprint route hget

theorem registerMcp_lifecycleSound (hsound : LifecycleSound registry inner) :
    LifecycleSound registry
      (registry.registerMcp inner cells registration plan order instant).2 := by
  obtain ⟨error, heq⟩ | ⟨admitted, -, hallowed, heq⟩ :=
    registry.registerMcp_cases inner cells registration plan order instant
  · rw [heq]
    exact hsound.of_get fun _ route h => ⟨route, _, get_of_get_evict h, rfl⟩
  rw [heq]
  have hadmitted := hsound.of_get fun _ _ => get_of_get_admitted hallowed
  obtain ⟨hlife, hpermanent⟩ := lifecycle_routeOrNew hadmitted registration.fingerprint
  have hchange := registry.registered_change admitted cells registration plan instant
  intro fingerprint route h
  obtain ⟨rfl, rfl⟩ | ⟨-, hget⟩ := get_insert_eq_some h
  · exact ⟨hchange.lifecycleSound (hlife.addReference _ registration),
      hchange.permanent.trans hpermanent⟩
  · exact hadmitted fingerprint route hget

theorem lifecycle_step (registry : Registry) (state : BrokerState) (op : RegistryOp)
    (h : LifecycleSound registry state.inner) :
    LifecycleSound registry (registry.step state op).2.inner := by
  obtain hop | ⟨registration, plan, order, instant, rfl⟩ := op.isRegistration_cases
  · exact h.change (registry.step_change state hop)
  · exact registerMcp_lifecycleSound state.cells registration plan order instant h

theorem lifecycle_run (registry : Registry) (ops : List RegistryOp) :
    LifecycleSound registry (registry.machine.run .initial ops).2.inner :=
  Machine.run_invariant (M := registry.machine) registry.lifecycle_step
    (fun _ _ h => by cases h) ops

end Registry

/-! ## The balance of activations -/

namespace RouteEntry

/-- A directive launches a worker exactly if the route was empty, or repeats the launch under
way. -/
theorem issuedByLaunch_directiveFor (route : RouteEntry) (cells : WorkerCells)
    (sessionId : McpSessionId) (retryAfterMs : Nat) (plan : WorkerLaunch) (instant : Nat)
    (h : route.state.activation = []) :
    issuedByLaunch (.ok (route.directiveFor cells sessionId retryAfterMs plan instant).1) =
      if route.state = .empty then [plan.activationId] else [] := by
  cases hs : route.state with
  | empty | draining target deadline | passThrough permanent =>
    simp [directiveFor, directive, hs, issuedByLaunch]
  | activating owner active =>
    rw [hs] at h
    cases h
  | ready target =>
    simp only [directiveFor, directive, hs]
    split <;> rfl
  | recovering target owner deadline =>
    cases target with
    | none | some target => simp [directiveFor, directive, hs, issuedByLaunch]

theorem new_activation : (new globalPassThrough).state.activation = [] := by
  cases globalPassThrough <;> rfl

theorem activation_of_isRemovable (h : route.isRemovable = true) : route.state.activation = [] := by
  rw [isRemovable, Bool.and_eq_true] at h
  cases hs : route.state with
  | activating owner plan =>
    rw [hs] at h
    cases h.2
  | _ => rfl

end RouteEntry

namespace RegistryInner

variable {inner : RegistryInner} {fingerprint : Fingerprint}

theorem activations_perm_routeOrNew (inner : RegistryInner) (fingerprint : Fingerprint)
    (globalPassThrough : Bool) :
    inner.activations.Perm ((inner.routeOrNew fingerprint globalPassThrough).state.activation ++
      (inner.routes.erase fingerprint).entries.flatMap fun entry => entry.2.state.activation) := by
  cases hget : inner.routes.get fingerprint with
  | none =>
    rw [routeOrNew_of_none hget, new_activation, erase_of_get hget]
    exact .refl _
  | some route =>
    rw [routeOrNew_of_some hget]
    exact activations_perm hget

theorem activations_evict (inner : RegistryInner) (incoming : Fingerprint) (capacity : Nat)
    (order : Fingerprint → Nat) :
    (inner.evictInactiveRoutesAtCapacity incoming capacity order).activations.Perm
      inner.activations := by
  obtain heq | ⟨victim, route, hevicted, heq⟩ :=
    evictInactiveRoutesAtCapacity_cases inner incoming capacity order
  · rw [heq]
  · rw [heq]
    obtain ⟨-, -, hget, hremovable⟩ := evicted_eq_some hevicted
    have hperm := activations_perm hget
    rw [activation_of_isRemovable hremovable] at hperm
    exact hperm.symm

variable {tokenDigest : TokenDigest}

theorem activations_admitToken {limit : Nat}
    (h : inner.admitToken fingerprint tokenDigest limit = (.ok (), admitted)) :
    admitted.activations.Perm inner.activations := by
  obtain ⟨rfl, -⟩ | ⟨route, released, hget, -, -, -, rfl⟩ := admitToken_eq_ok h
  · exact .refl _
  · exact (activations_setRoute_perm inner fingerprint
      { route with tokenDigests := route.tokenDigests.erase released }).trans
      (activations_perm hget).symm

/-- Eviction and admission leave the state of the registering identity's route. -/
theorem routeOrNew_admitted_state {capacity limit : Nat} {order : Fingerprint → Nat}
    (hallowed : (inner.evictInactiveRoutesAtCapacity fingerprint capacity order).admitToken
      fingerprint tokenDigest limit = (.ok (), admitted)) (globalPassThrough : Bool) :
    (admitted.routeOrNew fingerprint globalPassThrough).state =
      (inner.routeOrNew fingerprint globalPassThrough).state := by
  have hevict : (inner.evictInactiveRoutesAtCapacity fingerprint capacity order).routes.get
      fingerprint = inner.routes.get fingerprint := by
    obtain heq | ⟨victim, route, hevicted, heq⟩ :=
      evictInactiveRoutesAtCapacity_cases inner fingerprint capacity order
    · rw [heq]
    · rw [heq, (evicted_eq_some hevicted).1]
      show (inner.routes.erase victim).get fingerprint = none
      rw [get_erase, (evicted_eq_some hevicted).1, ite_self]
  obtain ⟨rfl, -⟩ | ⟨route, released, hget, -, -, -, rfl⟩ := admitToken_eq_ok hallowed
  · rw [routeOrNew, routeOrNew, hevict]
  · rw [hevict] at hget
    rw [routeOrNew_of_some hget, routeOrNew, get_insert_self, Option.getD_some]

theorem isActivating_eq (inner : RegistryInner) (fingerprint : Fingerprint)
    (globalPassThrough : Bool) :
    inner.isActivating fingerprint =
      !(inner.routeOrNew fingerprint globalPassThrough).state.activation.isEmpty := by
  cases hget : inner.routes.get fingerprint with
  | none =>
    rw [routeOrNew_of_none hget, new_activation, isActivating, hget]
    rfl
  | some route => rw [routeOrNew_of_some hget, isActivating, hget]

end RegistryInner

/-- The activations that the steps of a log started. -/
def issuedIn (log : List BrokerStep) : List String :=
  log.flatMap fun step => step.2.1.issued step.1.inner step.2.2

/-- The activations that the replies of a log reported as published, cancelled, failed or
expired. -/
def reportedIn (log : List BrokerStep) : List String :=
  log.flatMap fun step => step.2.1.reported step.2.2

namespace Registry

open RegistryInner

variable (registry : Registry)

theorem registerMcp_activations (inner : RegistryInner) (cells : WorkerCells)
    (registration : McpRegistration) (plan : WorkerLaunch) (order : Fingerprint → Nat)
    (instant : Nat) :
    (registry.registerMcp inner cells registration plan order instant).2.activations.Perm
      (inner.activations ++
        if inner.isActivating registration.fingerprint then []
        else issuedByLaunch
          (registry.registerMcp inner cells registration plan order instant).1) := by
  obtain ⟨error, heq⟩ | ⟨admitted, -, hallowed, heq⟩ :=
    registry.registerMcp_cases inner cells registration plan order instant
  · rw [heq]
    simp only [issuedByLaunch, ite_self, append_nil]
    exact activations_evict inner _ _ _
  rw [heq]
  have hstate : (registry.registeredRoute admitted registration).state =
      (inner.routeOrNew registration.fingerprint registry.globalPassThrough).state :=
    routeOrNew_admitted_state hallowed registry.globalPassThrough
  have hchange := registry.registered_change admitted cells registration plan instant
  have hissued : (if inner.isActivating registration.fingerprint then []
      else issuedByLaunch
        (.ok (registry.registered admitted cells registration plan instant).1)) =
      if (registry.registeredRoute admitted registration).state = .empty then [plan.activationId]
      else [] := by
    rw [isActivating_eq inner _ registry.globalPassThrough, ← hstate]
    cases hactivation : (registry.registeredRoute admitted registration).state.activation with
    | nil =>
      exact issuedByLaunch_directiveFor _ _ _ _ _ _ hactivation
    | cons activationId rest =>
      simp only [isEmpty_cons, Bool.not_false, ↓reduceIte]
      rw [if_neg]
      intro hempty
      rw [hempty] at hactivation
      cases hactivation
  have hadmitted : admitted.activations.Perm inner.activations :=
    (activations_admitToken hallowed).trans (activations_evict inner _ _ _)
  have hbefore := activations_perm_routeOrNew admitted registration.fingerprint
    registry.globalPassThrough
  have hafter := activations_setRoute_perm admitted registration.fingerprint
    (registry.registered admitted cells registration plan instant).2
  rw [hissued]
  refine hafter.trans ?_
  rw [← nil_append (RouteState.activation _), hchange.activations, append_assoc]
  refine (List.perm_append_comm.append_left _).trans ?_
  rw [← append_assoc]
  exact (hbefore.symm.trans hadmitted).append_right _

/-- What a step reports and what is under way after it, against what was under way and what the
step starts. -/
theorem step_activations (state : BrokerState) (op : RegistryOp) :
    (op.reported (registry.step state op).1 ++ (registry.step state op).2.inner.activations).Perm
      (state.inner.activations ++ op.issued state.inner (registry.step state op).1) := by
  obtain hop | ⟨registration, plan, order, instant, rfl⟩ := op.isRegistration_cases
  · exact (registry.step_change state hop).activations
  · exact registry.registerMcp_activations state.inner state.cells registration plan order instant

/-- **Balance of activations**: those issued in a run are those reported in it and those still
under way. -/
theorem activations_balance (ops : List RegistryOp) :
    (reportedIn (registry.machine.trace .initial ops) ++
      (registry.machine.run .initial ops).2.inner.activations).Perm
      (issuedIn (registry.machine.trace .initial ops)) := by
  refine Machine.run_induction
    (P := fun log state => (reportedIn log ++ state.inner.activations).Perm (issuedIn log))
    ?_ (.refl _) ops
  intro log state op h
  simp only [reportedIn, issuedIn, flatMap_append, flatMap_cons, flatMap_nil, append_nil] at h ⊢
  rw [append_assoc]
  refine ((registry.step_activations state op).append_left _).trans ?_
  rw [← append_assoc]
  exact h.append_right _

/-! ## Whole runs -/

/-- A route that some session refers to is not removed. -/
theorem step_keeps_referenced_route {state : BrokerState} {fingerprint : Fingerprint}
    (hget : state.inner.routes.get fingerprint = some route) (hlive : route.refs.isEmpty = false)
    (op : RegistryOp) :
    ∃ route', (registry.step state op).2.inner.routes.get fingerprint = some route' := by
  obtain hop | ⟨registration, plan, order, instant, rfl⟩ := op.isRegistration_cases
  · obtain ⟨route', hget', -⟩ := (registry.step_change state hop).exists_after hget
    exact ⟨route', hget'⟩
  have hevict : (state.inner.evictInactiveRoutesAtCapacity registration.fingerprint
      registry.routeCapacity order).routes.get fingerprint = some route := by
    obtain heq | ⟨victim, evictedRoute, hevicted, heq⟩ := evictInactiveRoutesAtCapacity_cases
      state.inner registration.fingerprint registry.routeCapacity order
    · rw [heq, hget]
    · obtain ⟨-, -, hvictim, hremovable⟩ := evicted_eq_some hevicted
      rw [heq]
      refine (get_erase_of_ne _ ?_).trans hget
      rintro rfl
      cases hget.symm.trans hvictim
      simp [isRemovable, hlive] at hremovable
  show ∃ route', (registry.registerMcp state.inner state.cells registration plan order
    instant).2.routes.get fingerprint = some route'
  obtain ⟨error, heq⟩ | ⟨admitted, -, hallowed, heq⟩ :=
    registry.registerMcp_cases state.inner state.cells registration plan order instant
  · rw [heq]
    exact ⟨route, hevict⟩
  · rw [heq]
    by_cases hown : fingerprint = registration.fingerprint
    · rw [hown]
      exact ⟨_, get_insert_self _ _ _⟩
    · refine ⟨route, (get_insert_of_ne _ _ hown).trans ?_⟩
      obtain ⟨rfl, -⟩ | ⟨before, released, -, -, -, -, rfl⟩ := admitToken_eq_ok hallowed
      · exact hevict
      · exact (get_insert_of_ne _ _ hown).trans hevict

/-- **Lifecycle of routes and activations** over every sequence of operations: launch owners and
workers have live references, a permanent pass-through route stays one and is never removed while a
session refers to it, and every activation that was issued once is reported once at most. -/
theorem lifecycle_of_every_run (registry : Registry) (ops : List RegistryOp) :
    (∀ fingerprint route,
      (registry.machine.run .initial ops).2.inner.routes.get fingerprint = some route →
      (∀ owner plan, route.state = .activating owner plan → route.refs.contains owner = true) ∧
        (route.state.needsReference = true → route.refs.isEmpty = false)) ∧
    (∀ fingerprint route,
      (registry.machine.run .initial ops).2.inner.routes.get fingerprint = some route →
      route.state = .passThrough true →
      (∀ later route', (registry.machine.run .initial (ops ++ later)).2.inner.routes.get
        fingerprint = some route' → route'.state = .passThrough true) ∧
      (route.refs.isEmpty = false → ∀ op,
        (registry.step (registry.machine.run .initial ops).2 op).2.inner.routes.get
          fingerprint ≠ none)) ∧
    ((issuedIn (registry.machine.trace .initial ops)).Nodup → ∀ activationId,
      (reportedIn (registry.machine.trace .initial ops)).count activationId ≤ 1) := by
  have hsound := registry.lifecycle_run ops
  refine ⟨?_, ?_, ?_⟩
  · intro fingerprint route hget
    have hroute := (hsound fingerprint route hget).1
    exact ⟨hroute.owner, hroute.live⟩
  · intro fingerprint route hget hpermanent
    refine ⟨?_, ?_⟩
    · intro later route' hget'
      have hglobal := (hsound fingerprint route hget).2.mp hpermanent
      exact (registry.lifecycle_run (ops ++ later) fingerprint route' hget').2.mpr hglobal
    · intro hlive op hnone
      obtain ⟨route', hget'⟩ := registry.step_keeps_referenced_route hget hlive op
      rw [hnone] at hget'
      cases hget'
  · intro hdistinct activationId
    have hbalance := (registry.activations_balance ops).count_eq activationId
    rw [count_append] at hbalance
    have hone := nodup_iff_count_le_one.mp hdistinct activationId
    omega

end Registry

end NemoRelay.Broker

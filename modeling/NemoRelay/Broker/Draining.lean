import NemoRelay.Broker.Activation

/-!
# Broker: draining a worker

Requests take a worker under the shared lock and give it back without any lock, while the registry
decides under the exclusive lock when a drained worker is removed. Two facts relate the parties over
every interleaving: the counter of a worker is the number of its requests that were not dropped, and
a worker that no route serves is served again only after it was published.

A publication carries a worker target, and the registry does not check that the target is a new
one. What holds of a draining worker is therefore stated for targets that are not published again.
-/

namespace NemoRelay.Broker

open List

/-! ## The counter of a worker -/

/-- The number of accepted requests for a worker that were not dropped. -/
def BrokerState.outstanding (state : BrokerState) (address : Nat) : Nat :=
  state.requests.countP fun request => request.target.address = address

/-- The counters are the numbers of requests not yet dropped. -/
def BrokerState.Counts (state : BrokerState) : Prop :=
  ∀ address, (state.cells address).inFlight = state.outstanding address

namespace WorkerTarget

variable (target : WorkerTarget)

@[simp] theorem setControlAvailable_inFlight (available : Bool) (cells : WorkerCells)
    (address : Nat) :
    (target.setControlAvailable available cells address).inFlight = (cells address).inFlight := by
  rw [setControlAvailable, Function.update_apply]
  split
  · simp only [*]
  · rfl

theorem acquire_inFlight (fingerprint : Fingerprint) (cells : WorkerCells) (address : Nat) :
    ((target.acquire fingerprint cells).2 address).inFlight =
      (cells address).inFlight + if target.address = address then 1 else 0 := by
  simp only [acquire]
  by_cases h : target.address = address
  · rw [← h, Function.update_self, if_pos rfl]
  · rw [Function.update_of_ne (Ne.symm h), if_neg h, Nat.add_zero]

end WorkerTarget

theorem WorkerRequest.drop_inFlight (request : WorkerRequest) (cells : WorkerCells)
    (address : Nat) :
    (request.drop cells address).inFlight =
      (cells address).inFlight - if request.target.address = address then 1 else 0 := by
  unfold drop
  by_cases h : request.target.address = address
  · rw [← h, Function.update_self, if_pos rfl]
  · rw [Function.update_of_ne (Ne.symm h), if_neg h, Nat.sub_zero]

variable (inner : RegistryInner) (cells : WorkerCells)

/-- Resolving a token counts the request it gives out, and nothing else. -/
theorem RegistryInner.resolveTarget_inFlight (requireWorker : Bool) (tokenDigest : TokenDigest)
    (address : Nat) :
    ((inner.resolveTarget cells requireWorker tokenDigest).2 address).inFlight =
      (cells address).inFlight +
        (acquired (inner.resolveTarget cells requireWorker tokenDigest).1).countP
          fun request => request.target.address = address := by
  have hnone : ∀ route : RouteEntry,
      (acquired (if !route.refs.isEmpty && !requireWorker then .ok .passThrough
        else .error (.unavailable route.state.kind))).countP
          (fun request => request.target.address = address) = 0 := by
    intro route
    split <;> rfl
  unfold resolveTarget
  split
  · rfl
  · split
    · rfl
    · rename_i route hroute
      dsimp only
      split
      · rename_i target hstate
        split
        · rw [WorkerTarget.acquire_inFlight]
          simp [acquired, WorkerTarget.acquire]
        · rw [hnone route, Nat.add_zero]
      · rw [hnone route, Nat.add_zero]

variable (fingerprint : Fingerprint)

theorem RegistryInner.markWorkerCommunicationFailed_inFlight (workerId : String) (address : Nat) :
    ((inner.markWorkerCommunicationFailed cells fingerprint workerId).2 address).inFlight =
      (cells address).inFlight := by
  unfold markWorkerCommunicationFailed
  split
  · rfl
  · unfold RouteEntry.markWorkerCommunicationFailed
    split <;> (try split) <;> simp

theorem RegistryInner.markRecoveryFailed_inFlight (permit : RecoveryPermit) (now address : Nat) :
    ((inner.markRecoveryFailed cells fingerprint permit now).2.2 address).inFlight =
      (cells address).inFlight := by
  unfold markRecoveryFailed
  split
  · rfl
  · unfold RouteEntry.markRecoveryFailed
    dsimp only
    split <;> (try split) <;> simp

variable {state : BrokerState} (registry : Registry) (ops : List RegistryOp)

namespace Registry

/-- Dropping a request takes one from the counter and from the requests. -/
theorem counts_dropRequest (h : state.Counts) (index : Nat) :
    (registry.step state (.dropRequest index)).2.Counts := by
  intro address
  simp only [step]
  split
  · exact h address
  · rename_i request hrequest
    obtain ⟨hindex, rfl⟩ := List.getElem?_eq_some_iff.mp hrequest
    have hcount := (getElem_cons_eraseIdx_perm hindex).countP_eq
      fun request => decide (request.target.address = address)
    rw [countP_cons] at hcount
    have hbefore := h address
    simp only [BrokerState.outstanding, WorkerRequest.drop_inFlight] at hbefore ⊢
    simp only [decide_eq_true_eq] at hcount
    omega

/-- The counters stay right in every step. -/
theorem counts_step (state : BrokerState) (op : RegistryOp) (h : state.Counts) :
    (registry.step state op).2.Counts := by
  cases op with
  | resolveTarget tokenDigest =>
    intro address
    have hcells := state.inner.resolveTarget_inFlight state.cells registry.requireWorker tokenDigest
      address
    simp only [step, BrokerState.outstanding, countP_append]
    rw [hcells, h address, BrokerState.outstanding]
  | dropRequest index => exact registry.counts_dropRequest h index
  | markWorkerCommunicationFailed fingerprint workerId =>
    intro address
    exact (state.inner.markWorkerCommunicationFailed_inFlight state.cells fingerprint workerId
      address).trans (h address)
  | markRecoveryFailed fingerprint permit now =>
    intro address
    exact (state.inner.markRecoveryFailed_inFlight state.cells fingerprint permit now
      address).trans (h address)
  | setControlAvailable target available =>
    intro address
    exact (target.setControlAvailable_inFlight available state.cells address).trans (h address)
  | _ => exact h

/-- **The counter of a worker** is the number of its accepted requests that were not dropped, in
every reachable state. -/
theorem inFlight_eq_outstanding : (registry.machine.run .initial ops).2.Counts :=
  Machine.run_invariant registry.counts_step (fun _ => rfl) ops

/-- **Nothing is lost**: every activation that was issued is reported or under way, and every
accepted request is counted for its worker until it is dropped. -/
theorem activations_and_requests_balance :
    (reportedIn (registry.machine.trace .initial ops) ++
      (registry.machine.run .initial ops).2.inner.activations).Perm
      (issuedIn (registry.machine.trace .initial ops)) ∧
      (registry.machine.run .initial ops).2.Counts :=
  ⟨registry.activations_balance ops, registry.inFlight_eq_outstanding ops⟩

end Registry

/-! ## Which workers are served -/

/-- The workers that the steps of a log published, and the routes they were published on. -/
def publishedIn (log : List BrokerStep) : List (Fingerprint × WorkerTarget) :=
  log.filterMap fun step => step.2.1.published step.2.2

/-- No route hands out the worker at an address. -/
def RegistryInner.NotServed (inner : RegistryInner) (address : Nat) : Prop :=
  ∀ fingerprint route, inner.routes.get fingerprint = some route → address ∉ route.state.serving

namespace Registry

open RegistryInner

theorem new_serving (globalPassThrough : Bool) :
    (RouteEntry.new globalPassThrough).state.serving = [] := by
  cases globalPassThrough <;> rfl

variable {address : Nat} {fingerprint : Fingerprint}

/-- A registration makes no route serve another worker. -/
theorem registerMcp_serving (inner : RegistryInner) (cells : WorkerCells)
    (registration : McpRegistration) (plan : WorkerLaunch) (order : Fingerprint → Nat)
    (instant : Nat) {route' : RouteEntry}
    (hget' : (registry.registerMcp inner cells registration plan order instant).2.routes.get
      fingerprint = some route') (haddress : address ∈ route'.state.serving) :
    ∃ route, inner.routes.get fingerprint = some route ∧ address ∈ route.state.serving := by
  obtain ⟨error, heq⟩ | ⟨admitted, -, hallowed, heq⟩ :=
    registry.registerMcp_cases inner cells registration plan order instant
  · rw [heq] at hget'
    exact ⟨route', get_of_get_evict hget', haddress⟩
  rw [heq] at hget'
  obtain ⟨rfl, rfl⟩ | ⟨-, hget⟩ := OrderedMap.get_insert_eq_some hget'
  · have hchange := registry.registered_change admitted cells registration plan instant
    obtain hserved | ⟨target, hpublished, -⟩ := hchange.serving address haddress
    · have hstate : (registry.registeredRoute admitted registration).state =
          (inner.routeOrNew registration.fingerprint registry.globalPassThrough).state :=
        routeOrNew_admitted_state hallowed registry.globalPassThrough
      rw [hstate] at hserved
      cases hget : inner.routes.get registration.fingerprint with
      | none => simp [routeOrNew_of_none hget, new_serving] at hserved
      | some route =>
        rw [routeOrNew_of_some hget] at hserved
        exact ⟨route, rfl, hserved⟩
    · cases hpublished
  · obtain ⟨before, digests, hbefore, rfl⟩ := get_of_get_admitted hallowed hget
    exact ⟨before, hbefore, haddress⟩

/-- A route serves a worker after a step only if it did before, or the step published it there. -/
theorem step_serving (state : BrokerState) (op : RegistryOp) {route' : RouteEntry}
    (hget' : (registry.step state op).2.inner.routes.get fingerprint = some route')
    (haddress : address ∈ route'.state.serving) :
    (∃ route, state.inner.routes.get fingerprint = some route ∧
        address ∈ route.state.serving) ∨
      ∃ target, op.published (registry.step state op).1 = some (fingerprint, target) ∧
        target.address = address := by
  obtain hop | ⟨registration, plan, order, instant, rfl⟩ := op.isRegistration_cases
  · obtain ⟨route, hget, _, _, publishedHere, hchange, hpublished⟩ :=
      (registry.step_change state hop).exists_before hget'
    obtain hserved | ⟨target, rfl, haddress⟩ := hchange.serving address haddress
    · exact .inl ⟨route, hget, hserved⟩
    · exact .inr ⟨target, hpublished target rfl, haddress⟩
  · exact .inl (registry.registerMcp_serving state.inner state.cells registration plan order
      instant hget' haddress)

variable {route : RouteEntry}

/-- A worker is served only on routes it was published on. -/
theorem served_was_published
    (hget : (registry.machine.run .initial ops).2.inner.routes.get fingerprint = some route)
    (haddress : address ∈ route.state.serving) :
    ∃ target, (fingerprint, target) ∈ publishedIn (registry.machine.trace .initial ops) ∧
      target.address = address := by
  refine Machine.run_induction
    (P := fun log state => ∀ fingerprint route address,
      state.inner.routes.get fingerprint = some route → address ∈ route.state.serving →
      ∃ target, (fingerprint, target) ∈ publishedIn log ∧ target.address = address)
    ?_ ?_ ops fingerprint route address hget haddress
  · intro log state op ih fingerprint route address hget haddress
    rw [publishedIn, filterMap_append]
    obtain ⟨before, hbefore, hserved⟩ | ⟨target, hpublished, htarget⟩ :=
      registry.step_serving state op hget haddress
    · obtain ⟨target, hmem, htarget⟩ := ih fingerprint before address hbefore hserved
      exact ⟨target, mem_append_left _ hmem, htarget⟩
    · refine ⟨target, mem_append_right _ ?_, htarget⟩
      exact mem_filterMap.mpr ⟨_, mem_singleton_self _, hpublished⟩
  · intro fingerprint route address h
    cases h

theorem notServed_step {op : RegistryOp} (h : state.inner.NotServed address)
    (hop : ∀ fingerprint target, op.published (registry.step state op).1 = some (fingerprint,
      target) → target.address ≠ address) : (registry.step state op).2.inner.NotServed address := by
  intro fingerprint route' hget' haddress
  obtain ⟨route, hget, hserved⟩ | ⟨target, hpublished, htarget⟩ :=
    registry.step_serving state op hget' haddress
  · exact h fingerprint route hget hserved
  · exact hop fingerprint target hpublished htarget

variable {request : WorkerRequest}

/-- A request is only given a worker that some route serves. -/
theorem served_of_resolveTarget {inner : RegistryInner} {cells : WorkerCells} {requireWorker : Bool}
    {tokenDigest : TokenDigest}
    (h : (inner.resolveTarget cells requireWorker tokenDigest).1 = .ok (.worker request)) :
    ¬ inner.NotServed request.target.address := by
  cases htoken : inner.tokens.get tokenDigest with
  | none => simp [resolveTarget, htoken] at h
  | some fingerprint =>
    cases hroute : inner.routes.get fingerprint with
    | none => simp [resolveTarget, htoken, hroute] at h
    | some route =>
      obtain ⟨-, hworker⟩ := resolveTarget_of_get htoken hroute cells requireWorker
      obtain ⟨-, hstate⟩ := hworker request h
      intro hnot
      apply hnot fingerprint route hroute
      rw [hstate]
      exact mem_singleton_self _

section

variable (h : state.inner.NotServed address)
include h

theorem step_reply_of_notServed {op : RegistryOp}
    (hreply : (registry.step state op).1 = .resolved (.ok (.worker request))) :
    request.target.address ≠ address := by
  cases op with
  | resolveTarget tokenDigest =>
    rintro rfl
    exact served_of_resolveTarget (RegistryReply.resolved.inj hreply) h
  | dropRequest index =>
    simp only [step] at hreply
    split at hreply <;> cases hreply
  | _ => cases hreply

/-- The counter of a worker that no route serves does not grow. -/
theorem step_inFlight_le (op : RegistryOp) :
    ((registry.step state op).2.cells address).inFlight ≤ (state.cells address).inFlight := by
  cases op with
  | resolveTarget tokenDigest =>
    have hcells := state.inner.resolveTarget_inFlight state.cells registry.requireWorker tokenDigest
      address
    rw [countP_eq_zero.mpr] at hcells
    · exact hcells.le
    · intro request hrequest haddress
      unfold acquired at hrequest
      split at hrequest
      · rename_i other hother
        cases mem_singleton.mp hrequest
        rw [← of_decide_eq_true haddress] at h
        exact served_of_resolveTarget hother h
      · cases hrequest
  | dropRequest index =>
    simp only [step]
    split
    · exact le_rfl
    · rw [WorkerRequest.drop_inFlight]
      exact Nat.sub_le _ _
  | markWorkerCommunicationFailed fingerprint workerId =>
    exact (state.inner.markWorkerCommunicationFailed_inFlight state.cells fingerprint workerId
      address).le
  | markRecoveryFailed fingerprint permit now =>
    exact (state.inner.markRecoveryFailed_inFlight state.cells fingerprint permit now address).le
  | setControlAvailable target available =>
    exact (target.setControlAvailable_inFlight available state.cells address).le
  | _ => exact le_rfl

/-- A worker that no route serves, over a run that does not publish it: no request is given the
worker, and its counter does not grow. -/
theorem notServed_run {ops : List RegistryOp}
    (hops : ∀ fingerprint target, (fingerprint, target) ∈ publishedIn (registry.machine.trace
      state ops) → target.address ≠ address) :
    (registry.machine.run state ops).2.inner.NotServed address ∧
      (∀ step ∈ registry.machine.trace state ops, ∀ request,
        step.2.2 = .resolved (.ok (.worker request)) → request.target.address ≠ address) ∧
      ((registry.machine.run state ops).2.cells address).inFlight ≤
        (state.cells address).inFlight := by
  induction ops generalizing state with
  | nil => exact ⟨h, by simp [Machine.trace], le_rfl⟩
  | cons op ops ih =>
    have hnext : (registry.step state op).2.inner.NotServed address := by
      apply registry.notServed_step h
      intro fingerprint target hpublished
      exact hops fingerprint target (mem_filterMap.mpr ⟨_, mem_cons_self, hpublished⟩)
    have hrest : ∀ fingerprint target, (fingerprint, target) ∈ publishedIn
        (registry.machine.trace (registry.step state op).2 ops) → target.address ≠ address := by
      intro fingerprint target hmem
      obtain ⟨step, hstep, hpublished⟩ := mem_filterMap.mp hmem
      exact hops fingerprint target
        (mem_filterMap.mpr ⟨step, mem_cons_of_mem _ hstep, hpublished⟩)
    obtain ⟨hend, hreplies, hcount⟩ := ih hnext hrest
    refine ⟨hend, ?_, hcount.trans (registry.step_inFlight_le h op)⟩
    intro step hstep request hreply
    obtain rfl | hstep := mem_cons.mp hstep
    · exact registry.step_reply_of_notServed h hreply
    · exact hreplies step hstep request hreply

end

/-- Before the deadline, a draining worker with requests in flight stays. -/
theorem finishDrainingWorker_keeps {target : WorkerTarget} {deadline : Nat}
    (hget : state.inner.routes.get fingerprint = some route)
    (hstate : route.state = .draining target deadline) (workerId : String) {now : Nat}
    (hnow : now < deadline) (hrequests : target.inFlight state.cells ≠ 0) :
    (registry.step state (.finishDrainingWorker fingerprint workerId now)).2.inner.routes.get
      fingerprint = some route := by
  have hroute : (route.finishDrainingWorker workerId now state.cells).2 = route := by
    simp only [RouteEntry.finishDrainingWorker, hstate]
    split
    · rw [if_pos ⟨hrequests, hnow⟩]
    · rfl
  show (state.inner.onRoute fingerprint fun route =>
    route.finishDrainingWorker workerId now state.cells).2.routes.get fingerprint = some route
  rw [onRoute, hget]
  show (state.inner.routes.insert fingerprint _).get fingerprint = some route
  rw [OrderedMap.get_insert_self, hroute]

/-- **Draining**, over every interleaving of requests, drops and operations. While a route drains a
worker that was published on this route only, and until the worker is published again, no request is
given the worker and its counter does not grow. Before the deadline, the worker is removed only if
all requests that were given it have been dropped. -/
theorem draining_worker_is_released (registry : Registry) (before : List RegistryOp)
    (fingerprint : Fingerprint) {target : WorkerTarget} {deadline : Nat}
    (hget : (registry.machine.run .initial before).2.inner.routes.get fingerprint = some route)
    (hstate : route.state = .draining target deadline) :
    ((∀ other published, (other, published) ∈
        publishedIn (registry.machine.trace .initial before) →
        published.address = target.address → other = fingerprint) →
      ∀ after, (∀ other published, (other, published) ∈
          publishedIn (registry.machine.trace (registry.machine.run .initial before).2 after) →
          published.address ≠ target.address) →
        (∀ step ∈ registry.machine.trace (registry.machine.run .initial before).2 after,
          ∀ request, step.2.2 = .resolved (.ok (.worker request)) →
            request.target.address ≠ target.address) ∧
        ∀ first rest, after = first ++ rest →
          target.inFlight (registry.machine.run .initial (before ++ after)).2.cells ≤
            target.inFlight (registry.machine.run .initial (before ++ first)).2.cells) ∧
      ∀ workerId now, now < deadline →
        (∀ route', (registry.step (registry.machine.run .initial before).2
          (.finishDrainingWorker fingerprint workerId now)).2.inner.routes.get fingerprint =
            some route' → route'.state ≠ .draining target deadline) →
        ∀ request ∈ (registry.machine.run .initial before).2.requests,
          request.target.address ≠ target.address := by
  refine ⟨?_, ?_⟩
  · intro hbefore after hafter
    have hnot : (registry.machine.run .initial before).2.inner.NotServed target.address := by
      intro other route' hget' haddress
      obtain ⟨published, hmem, hpublished⟩ := registry.served_was_published before hget' haddress
      obtain rfl := hbefore other published hmem hpublished
      cases hget.symm.trans hget'
      rw [hstate] at haddress
      cases haddress
    refine ⟨(registry.notServed_run hnot hafter).2.1, ?_⟩
    rintro first rest rfl
    rw [Machine.trace_append, publishedIn, filterMap_append] at hafter
    have hfirst := (registry.notServed_run hnot fun other published hmem =>
      hafter other published (mem_append_left _ hmem)).1
    rw [← append_assoc, Machine.run_append, Machine.run_append]
    exact (registry.notServed_run hfirst fun other published hmem =>
      hafter other published (mem_append_right _ hmem)).2.2
  · intro workerId now hnow hremoved request hrequest haddress
    refine hremoved route ?_ hstate
    refine registry.finishDrainingWorker_keeps hget hstate workerId hnow ?_
    have hcounts := registry.inFlight_eq_outstanding before target.address
    rw [WorkerTarget.inFlight, hcounts, BrokerState.outstanding]
    rw [← Nat.pos_iff_ne_zero, countP_pos_iff]
    exact ⟨request, hrequest, decide_eq_true haddress⟩

end Registry

/-! ## Examples of runs -/

def drainedFingerprint : Fingerprint := ⟨1⟩

def drainedToken : TokenDigest := ⟨2⟩

def drainedSession : McpSessionId := ⟨"mcp", mcp_ne_empty⟩

def drainedTarget : WorkerTarget := ⟨7, "worker", "http://127.0.0.1:1"⟩

def drainedLaunch (activationId : String) : WorkerLaunch :=
  ⟨activationId, "token", 60000, 0, 0, none⟩

/-- A session registers, a worker is published for it, a request takes the worker, and the session
leaves. -/
def drainingRun : List RegistryOp :=
  [.registerMcp ⟨drainedFingerprint, drainedToken, drainedSession, 1000⟩ (drainedLaunch "first")
      (fun _ => 0) 0,
    .markWorkerReady drainedFingerprint "first" drainedTarget 10, .resolveTarget drainedToken,
    .releaseMcp drainedFingerprint drainedSession 500]

/-- The request is dropped, the drained worker is removed, and the same target is published for the
next session. -/
def republishingRun : List RegistryOp :=
  [.dropRequest 0,
    .finishDrainingWorker drainedFingerprint "worker" 20,
    .registerMcp ⟨drainedFingerprint, drainedToken, drainedSession, 2000⟩ (drainedLaunch "second")
      (fun _ => 0) 0,
    .markWorkerReady drainedFingerprint "second" drainedTarget 30, .resolveTarget drainedToken]

/-- The state that the registry leaves a route in. -/
def stateAfter (ops : List RegistryOp) (fingerprint : Fingerprint) : Option RouteState :=
  (((Registry.new false).machine.run .initial ops).2.inner.routes.get fingerprint).map
    RouteEntry.state

open Registry

/-- Requests that come while the worker drains are not given it, and after the only accepted request
is dropped the worker is removed before its deadline. -/
theorem drainingRun_is_released :
    (∀ step ∈ (new false).machine.trace
        ((new false).machine.run .initial (drainingRun ++ [.dropRequest 0])).2
        [.resolveTarget drainedToken, .finishDrainingWorker drainedFingerprint "worker" 20],
      ∀ request, step.2.2 = .resolved (.ok (.worker request)) →
        request.target.address ≠ drainedTarget.address) ∧
      ∀ request ∈ ((new false).machine.run .initial
        (drainingRun ++ [.dropRequest 0])).2.requests,
        request.target.address ≠ drainedTarget.address := by
  have h := (new false).draining_worker_is_released (drainingRun ++ [.dropRequest 0])
    drainedFingerprint rfl rfl
  have hbefore : publishedIn ((new false).machine.trace .initial
      (drainingRun ++ [.dropRequest 0])) = [(drainedFingerprint, drainedTarget)] := rfl
  refine ⟨(h.1 ?_ _ ?_).1, h.2 "worker" 20 (by decide) ?_⟩
  · intro other published hmem _
    rw [hbefore, mem_singleton] at hmem
    cases hmem
    rfl
  · intro other published hmem
    cases hmem
  · intro route' hget' hstate
    cases hget'
    cases hstate

/-- **A drained worker is served again** if its target is published a second time. -/
theorem drained_worker_is_served_again :
    stateAfter drainingRun drainedFingerprint = some (.draining drainedTarget 500) ∧
      ((new false).machine.run .initial (drainingRun ++ republishingRun)).1.getLast? =
        some (.resolved (.ok (.worker ⟨drainedFingerprint, drainedTarget⟩))) ∧
      drainedTarget.inFlight ((new false).machine.run .initial
        (drainingRun ++ republishingRun.take 4)).2.cells <
      drainedTarget.inFlight ((new false).machine.run .initial
        (drainingRun ++ republishingRun)).2.cells := by
  refine ⟨by decide, rfl, by decide⟩

end NemoRelay.Broker

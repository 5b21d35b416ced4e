import NemoRelay.Broker.Tokens

/-!
# Broker: registrations that fail

A registration makes room for a new route before it validates its token. If the validation then
fails, the evicted route is gone although nothing was registered. The condition for this is exact:
in every other state, a failed registration leaves the registry as it was.
-/

namespace NemoRelay.Broker

open RegistryInner

/-- The table of routes is full and has no route for the identity, an idle route is found, and the
token belongs to an identity that is neither the registering nor the idle one; or the table holds
even more routes than its capacity. -/
def EvictsInVain (registry : Registry) (inner : RegistryInner) (registration : McpRegistration)
    (order : Fingerprint → Nat) : Prop :=
  inner.routes.get registration.fingerprint = none ∧
    registry.routeCapacity ≤ inner.routes.size ∧
    ∃ victim route,
      (inner.routes.iterate order).find? (fun entry => entry.2.isRemovable) =
        some (victim, route) ∧
      (registry.routeCapacity < inner.routes.size ∨
        ∃ other, inner.tokens.get registration.tokenDigest = some other ∧
          other ≠ registration.fingerprint ∧ registration.tokenDigest ∉ route.tokenDigests)

open OrderedMap

namespace RegistryInner

variable {registry : Registry} {inner : RegistryInner} {registration : McpRegistration}
  {order : Fingerprint → Nat} {victim : Fingerprint} {route : RouteEntry}

theorem evicted_eq_some_iff {fingerprint : Fingerprint} {capacity : Nat} :
    inner.evicted fingerprint capacity order = some (victim, route) ↔
      inner.routes.get fingerprint = none ∧ capacity ≤ inner.routes.size ∧
        (inner.routes.iterate order).find? (fun entry => entry.2.isRemovable) =
          some (victim, route) := by
  unfold evicted contains
  cases inner.routes.get fingerprint with
  | some other => simp
  | none =>
    by_cases h : inner.routes.size < capacity
    · simp [h]
    · simp [not_lt.mp h]

theorem get_removeRoute_of_none {fingerprint : Fingerprint}
    (h : inner.routes.get fingerprint = none) :
    (inner.removeRoute victim route).routes.get fingerprint = none := by
  show (inner.routes.erase victim).get _ = none
  rw [get_erase, h, ite_self]

theorem removeRoute_ne (hget : inner.routes.get victim = some route) :
    inner.removeRoute victim route ≠ inner := by
  intro h
  have hgone : (inner.removeRoute victim route).routes.get victim = none :=
    get_erase_self _ _
  rw [h, hget] at hgone
  cases hgone

/-- After an eviction the registration can only fail to validate its token or the capacity. -/
theorem validate_removeRoute_eq_ok
    (hevicted : inner.evicted registration.fingerprint registry.routeCapacity order =
      some (victim, route)) :
    (inner.removeRoute victim route).validate registration registry.routeCapacity = .ok () ↔
      ¬ (registry.routeCapacity < inner.routes.size ∨
        ∃ other, inner.tokens.get registration.tokenDigest = some other ∧
          other ≠ registration.fingerprint ∧ registration.tokenDigest ∉ route.tokenDigests) := by
  obtain ⟨hnew, -, hget, -⟩ := evicted_eq_some hevicted
  have hstill : (inner.removeRoute victim route).routes.get registration.fingerprint = none :=
    get_removeRoute_of_none hnew
  have hbinding : (inner.removeRoute victim route).BindingFits registration.fingerprint
      registration.tokenDigest ↔
      ¬ ∃ other, inner.tokens.get registration.tokenDigest = some other ∧
        other ≠ registration.fingerprint ∧ registration.tokenDigest ∉ route.tokenDigests := by
    have htokens : (inner.removeRoute victim route).tokens.get registration.tokenDigest =
        if registration.tokenDigest ∈ route.tokenDigests then none
        else inner.tokens.get registration.tokenDigest :=
      get_foldl_erase route.tokenDigests inner.tokens registration.tokenDigest
    unfold BindingFits
    rw [htokens]
    by_cases hlisted : registration.tokenDigest ∈ route.tokenDigests <;> simp [hlisted]
  have hroute : RouteFits registry (inner.removeRoute victim route) registration.fingerprint ↔
      ¬ registry.routeCapacity < inner.routes.size := by
    have hsize : (inner.routes.erase victim).size + 1 = inner.routes.size :=
      size_erase hget
    unfold RouteFits contains
    rw [hstill, Option.isSome_none]
    simp only [Bool.false_eq_true, false_or]
    show (inner.routes.erase victim).size < _ ↔ _
    omega
  have hreferences : (inner.removeRoute victim route).validateReferences registration.fingerprint
      registration.sessionId = .ok () := by
    rw [validateReferences, hstill]
  rw [validate_eq_ok, hbinding, hroute, not_or]
  exact ⟨fun h => ⟨h.2.1, h.1⟩, fun h => ⟨h.2, h.1, hreferences⟩⟩

end RegistryInner

namespace Registry

section

variable (registry : Registry) (inner : RegistryInner) (cells : WorkerCells)
  (registration : McpRegistration) (plan : WorkerLaunch) (order : Fingerprint → Nat) (instant : Nat)
  {error : RegistryError}

/-- A failed registration has at most evicted a route. -/
theorem registerMcp_of_error
    (herror : (registry.registerMcp inner cells registration plan order instant).1 = .error error) :
    registry.registerMcp inner cells registration plan order instant =
      (.error error, inner.evictInactiveRoutesAtCapacity registration.fingerprint
        registry.routeCapacity order) := by
  obtain ⟨_, hresult⟩ | ⟨admitted, -, -, hresult⟩ :=
    registry.registerMcp_cases inner cells registration plan order instant
  · rw [hresult] at herror ⊢
    cases herror
    rfl
  · rw [hresult] at herror
    cases herror

/-- After an eviction, only a validation can fail: a new route has room for its first token. -/
theorem registerMcp_fails_iff_of_evicted {victim : Fingerprint} {route : RouteEntry}
    (hevicted : inner.evicted registration.fingerprint registry.routeCapacity order =
      some (victim, route)) :
    (∃ error, registry.registerMcp inner cells registration plan order instant =
        (.error error, inner.removeRoute victim route)) ↔
      (inner.removeRoute victim route).validate registration registry.routeCapacity ≠ .ok () := by
  obtain ⟨hnew, -, -, -⟩ := evicted_eq_some hevicted
  have heq : inner.evictInactiveRoutesAtCapacity registration.fingerprint registry.routeCapacity
      order = inner.removeRoute victim route := by
    rw [evictInactiveRoutesAtCapacity, hevicted]
  have hallowed : (inner.removeRoute victim route).admitToken registration.fingerprint
      registration.tokenDigest registry.maxTokensPerIdentity =
      (.ok (), inner.removeRoute victim route) := by
    rw [admitToken, get_removeRoute_of_none hnew]
  simp only [registerMcp, heq]
  cases hvalid : (inner.removeRoute victim route).validate registration registry.routeCapacity with
  | error error => simp
  | ok _ => simp [hallowed]

/-- **Errors of a registration leave the registry as it was**, in every state and for every
registration, unless an idle route was evicted in vain. -/
theorem failed_registration_keeps_state_iff :
    (∀ error, (registry.registerMcp inner cells registration plan order instant).1 =
        .error error →
      (registry.registerMcp inner cells registration plan order instant).2 = inner) ↔
      ¬ EvictsInVain registry inner registration order := by
  cases hevicted : inner.evicted registration.fingerprint registry.routeCapacity order with
  | none =>
    refine iff_of_true ?_ ?_
    · intro error herror
      rw [registerMcp_of_error _ _ _ _ _ _ _ herror, evictInactiveRoutesAtCapacity, hevicted]
    · rintro ⟨hnew, hfull, victim, route, hfind, -⟩
      have h := evicted_eq_some_iff.mpr ⟨hnew, hfull, hfind⟩
      rw [hevicted] at h
      cases h
  | some entry =>
    obtain ⟨victim, route⟩ := entry
    obtain ⟨hnew, hfull, hget, -⟩ := evicted_eq_some hevicted
    have hfails := registerMcp_fails_iff_of_evicted registry inner cells registration plan order
      instant hevicted
    have hvain : EvictsInVain registry inner registration order ↔
        (inner.removeRoute victim route).validate registration registry.routeCapacity ≠ .ok () := by
      rw [Ne, validate_removeRoute_eq_ok hevicted, not_not]
      constructor
      · rintro ⟨-, -, victim', route', hfind, h⟩
        cases hfind.symm.trans (evicted_eq_some_iff.mp hevicted).2.2
        exact h
      · intro h
        exact ⟨hnew, hfull, victim, route, (evicted_eq_some_iff.mp hevicted).2.2, h⟩
    rw [hvain, ← hfails]
    constructor
    · rintro hkeeps ⟨error, hresult⟩
      have h := hkeeps error (by rw [hresult])
      rw [hresult] at h
      exact removeRoute_ne hget h
    · intro hsucceeds error herror
      have hresult := registerMcp_of_error _ _ _ _ _ _ _ herror
      rw [evictInactiveRoutesAtCapacity, hevicted] at hresult
      exact absurd ⟨error, hresult⟩ hsucceeds

end

/-! ## An eviction in vain -/

/-- The first registration of an identity, with a token that is not bound, while there is room. -/
theorem registerMcp_first {registry : Registry} {inner : RegistryInner}
    {registration : McpRegistration} (hroute : inner.routes.get registration.fingerprint = none)
    (hroom : inner.routes.size < registry.routeCapacity)
    (htoken : inner.tokens.get registration.tokenDigest = none) (cells : WorkerCells)
    (plan : WorkerLaunch) (order : Fingerprint → Nat) (instant : Nat) :
    (registry.registerMcp inner cells registration plan order instant).2 =
      { routes := inner.routes.insert registration.fingerprint
          ((RouteEntry.addReference
              { RouteEntry.new registry.globalPassThrough with
                tokenDigests := [registration.tokenDigest] } registration).directiveFor cells
            registration.sessionId registry.retryAfterMs plan instant).2
        tokens := inner.tokens.insert registration.tokenDigest registration.fingerprint } := by
  have hevict : inner.evictInactiveRoutesAtCapacity registration.fingerprint
      registry.routeCapacity order = inner := by
    rw [evictInactiveRoutesAtCapacity, evicted, if_pos (.inr hroom)]
  have hvalid : inner.validate registration registry.routeCapacity = .ok () := by
    rw [validate_eq_ok]
    refine ⟨?_, .inr hroom, ?_⟩
    · intro other hother
      rw [htoken] at hother
      cases hother
    · rw [validateReferences, hroute]
  have hallowed : inner.admitToken registration.fingerprint registration.tokenDigest
      registry.maxTokensPerIdentity = (.ok (), inner) := by
    rw [admitToken, hroute]
  simp only [registerMcp, hevict, hvalid, hallowed, bindToken_setRoute]
  simp only [bindToken, htoken, routeOrNew_of_none hroute, Option.isNone_none, ↓reduceIte,
    RouteEntry.new, List.nil_append]

end Registry

/-- The `i`-th of the identities that fill the registry. -/
def sampleFingerprint (i : Nat) : Fingerprint := ⟨BitVec.ofNat 256 i⟩

def sampleToken (i : Nat) : TokenDigest := ⟨BitVec.ofNat 256 i⟩

def sampleSession : McpSessionId := ⟨"mcp", mcp_ne_empty⟩

def sampleLaunch : WorkerLaunch := ⟨"activation", "token", 60000, 0, 0, none⟩

def sampleRegistration (i token : Nat) : McpRegistration :=
  ⟨sampleFingerprint i, sampleToken token, sampleSession, 1000⟩

/-- Registers one session of each of the first `n` identities, with a token of its own. -/
def fillRegistry (n : Nat) : List RegistryOp :=
  (List.range n).map fun i => .registerMcp (sampleRegistration i i) sampleLaunch (fun _ => 0) 0

/-- The route of an identity whose only session was told to launch a worker. -/
def sampleRoute (i : Nat) : RouteEntry :=
  (RouteEntry.addReference
    { RouteEntry.new false with tokenDigests := [sampleToken i] }
    (sampleRegistration i i)).launch sampleSession sampleLaunch 0

section

variable {i j : Nat} (hi : i ≤ 4096) (hj : j ≤ 4096) (h : i ≠ j)
include hi hj h

theorem sampleBits_ne : BitVec.ofNat 256 i ≠ BitVec.ofNat 256 j := by
  intro heq
  have hbits := congrArg BitVec.toNat heq
  simp only [BitVec.toNat_ofNat] at hbits
  omega

theorem sampleFingerprint_ne : sampleFingerprint i ≠ sampleFingerprint j :=
  fun heq => sampleBits_ne hi hj h (congrArg Fingerprint.bits heq)

theorem sampleToken_ne : sampleToken i ≠ sampleToken j :=
  fun heq => sampleBits_ne hi hj h (congrArg TokenDigest.bits heq)

end

/-- The first `n` of the sample identities are registered, and no others. -/
structure Filled (n : Nat) (inner : RegistryInner) : Prop where
  size : inner.routes.size = n
  routes : ∀ i < n, inner.routes.get (sampleFingerprint i) = some (sampleRoute i)
  tokens : ∀ i < n, inner.tokens.get (sampleToken i) = some (sampleFingerprint i)
  freeRoutes : ∀ i, n ≤ i → i ≤ 4096 → inner.routes.get (sampleFingerprint i) = none
  freeTokens : ∀ i, n ≤ i → i ≤ 4096 → inner.tokens.get (sampleToken i) = none

variable {inner : RegistryInner}

theorem Filled.register {n : Nat} (h : Filled n inner) (hn : n < 4096) (cells : WorkerCells) :
    Filled (n + 1) ((Registry.new false).registerMcp inner cells (sampleRegistration n n)
      sampleLaunch (fun _ => 0) 0).2 := by
  have hresult : ((Registry.new false).registerMcp inner cells (sampleRegistration n n)
      sampleLaunch (fun _ => 0) 0).2 =
      { routes := inner.routes.insert (sampleFingerprint n) (sampleRoute n)
        tokens := inner.tokens.insert (sampleToken n) (sampleFingerprint n) } := by
    apply Registry.registerMcp_first
    · exact h.freeRoutes n le_rfl hn.le
    · exact h.size.trans_lt hn
    · exact h.freeTokens n le_rfl hn.le
  rw [hresult]
  constructor
  · exact (size_insert_of_none (h.freeRoutes n le_rfl hn.le) _).trans (congrArg (· + 1) h.size)
  · intro i hi
    by_cases heq : i = n
    · exact heq ▸ get_insert_self _ _ _
    · exact (get_insert_of_ne _ _ (sampleFingerprint_ne (by omega) hn.le heq)).trans
        (h.routes i (by omega))
  · intro i hi
    by_cases heq : i = n
    · exact heq ▸ get_insert_self _ _ _
    · exact (get_insert_of_ne _ _ (sampleToken_ne (by omega) hn.le heq)).trans
        (h.tokens i (by omega))
  · intro i hi hle
    exact (get_insert_of_ne _ _ (sampleFingerprint_ne hle hn.le (by omega))).trans
      (h.freeRoutes i (by omega) hle)
  · intro i hi hle
    exact (get_insert_of_ne _ _ (sampleToken_ne hle hn.le (by omega))).trans
      (h.freeTokens i (by omega) hle)

theorem filled_fillRegistry {n : Nat} (hn : n ≤ 4096) :
    Filled n ((Registry.new false).machine.run .initial (fillRegistry n)).2.inner := by
  induction n with
  | zero => exact ⟨rfl, by simp, by simp, fun _ _ _ => rfl, fun _ _ _ => rfl⟩
  | succ n ih =>
    rw [fillRegistry, List.range_succ, List.map_append, Machine.run_append]
    exact (ih (by omega)).register (by omega) _

/-- A full registry in which the only session of the first identity has left. -/
structure FullWithIdle (inner : RegistryInner) : Prop where
  size : inner.routes.size = 4096
  idle : ∃ route, inner.routes.get (sampleFingerprint 0) = some route ∧ route.isRemovable = true
  second : inner.routes.get (sampleFingerprint 1) = some (sampleRoute 1)
  new : inner.routes.get (sampleFingerprint 4096) = none

theorem Filled.releaseMcp (h : Filled 4096 inner) :
    FullWithIdle (inner.releaseMcp (sampleFingerprint 0) sampleSession 0).2 := by
  have hget := h.routes 0 (by decide)
  have hresult : (inner.releaseMcp (sampleFingerprint 0) sampleSession 0).2 =
      inner.setRoute (sampleFingerprint 0) ((sampleRoute 0).releaseMcp sampleSession 0).2 := by
    rw [RegistryInner.releaseMcp, onRoute, hget]
  have hothers : ∀ i, 0 < i → i ≤ 4096 →
      (inner.routes.insert (sampleFingerprint 0) ((sampleRoute 0).releaseMcp sampleSession 0).2).get
        (sampleFingerprint i) = inner.routes.get (sampleFingerprint i) := by
    intro i hpos hle
    exact get_insert_of_ne _ _ (sampleFingerprint_ne hle (by decide) (by omega))
  rw [hresult]
  constructor
  · exact (size_insert_of_get hget _).trans h.size
  · exact ⟨_, get_insert_self _ _ _, by decide⟩
  · exact (hothers 1 (by decide) (by decide)).trans (h.routes 1 (by decide))
  · exact (hothers 4096 (by decide) le_rfl).trans (h.freeRoutes 4096 le_rfl le_rfl)

/-- A new identity that registers with the token of the second one is rejected, and an idle route
is gone. -/
theorem FullWithIdle.registerMcp (h : FullWithIdle inner)
    (hsound : TokensSound (Registry.new false) inner) (cells : WorkerCells) :
    ((Registry.new false).registerMcp inner cells (sampleRegistration 4096 1) sampleLaunch
        (fun _ => 0) 0).1 = .error .tokenAlreadyBound ∧
      ((Registry.new false).registerMcp inner cells (sampleRegistration 4096 1) sampleLaunch
        (fun _ => 0) 0).2 ≠ inner := by
  obtain ⟨idle, hidle, hidleRemovable⟩ := h.idle
  have hexists : ((inner.routes.iterate fun _ => 0).find?
      fun entry => entry.2.isRemovable).isSome := by
    rw [List.find?_isSome]
    refine ⟨(sampleFingerprint 0, idle), ?_, hidleRemovable⟩
    rw [OrderedMap.mem_iterate]
    exact hidle
  obtain ⟨⟨victim, route⟩, hfind⟩ := Option.isSome_iff_exists.mp hexists
  have hevicted : inner.evicted (sampleRegistration 4096 1).fingerprint
      (Registry.new false).routeCapacity (fun _ => 0) = some (victim, route) :=
    evicted_eq_some_iff.mpr ⟨h.new, h.size.ge, hfind⟩
  obtain ⟨-, -, hvictim, hremovable⟩ := evicted_eq_some hevicted
  -- the second route is in use, so the token is not one of the evicted route
  have hlisted : sampleToken 1 ∉ route.tokenDigests := by
    intro hmem
    have hsame := hsound.eq_of_mem h.second (List.mem_singleton_self _) hvictim hmem
    rw [hsame, h.second] at hvictim
    cases hvictim
    exact absurd hremovable (by decide)
  have hbound : (inner.removeRoute victim route).validateBinding (sampleFingerprint 4096)
      (sampleToken 1) = .error .tokenAlreadyBound := by
    have htoken : (inner.removeRoute victim route).tokens.get (sampleToken 1) =
        some (sampleFingerprint 1) := by
      show (route.tokenDigests.foldl erase inner.tokens).get _ = _
      rw [get_foldl_erase, if_neg hlisted]
      exact (hsound.mirror _ _).mpr ⟨_, h.second, List.mem_singleton_self _⟩
    rw [validateBinding, htoken]
    exact if_neg (sampleFingerprint_ne (by decide) le_rfl (by decide))
  have hvalid : (inner.removeRoute victim route).validate (sampleRegistration 4096 1)
      (Registry.new false).routeCapacity = .error .tokenAlreadyBound := by
    show (inner.removeRoute victim route).validateBinding (sampleFingerprint 4096)
      (sampleToken 1) >>= _ = _
    rw [hbound]
    rfl
  simp only [Registry.registerMcp, evictInactiveRoutesAtCapacity, hevicted, hvalid, true_and]
  exact removeRoute_ne hvictim

theorem fullWithIdle_run {ops : List RegistryOp}
    (h : Filled 4096 ((Registry.new false).machine.run .initial ops).2.inner) :
    FullWithIdle ((Registry.new false).machine.run .initial
      (ops ++ [.releaseMcp (sampleFingerprint 0) sampleSession 0])).2.inner := by
  rw [Machine.run_append]
  exact h.releaseMcp

/-- **A registration that fails evicts an idle route**: the 4096 routes of the registry are taken,
the first of them is idle, and a new identity registers with the token of the second. -/
theorem failed_registration_evicts_idle_route :
    ((Registry.new false).registerMcp ((Registry.new false).machine.run .initial
        (fillRegistry 4096 ++ [.releaseMcp (sampleFingerprint 0) sampleSession 0])).2.inner
        WorkerTarget.initialCells (sampleRegistration 4096 1) sampleLaunch (fun _ => 0) 0).1 =
        .error .tokenAlreadyBound ∧
      ((Registry.new false).registerMcp ((Registry.new false).machine.run .initial
        (fillRegistry 4096 ++ [.releaseMcp (sampleFingerprint 0) sampleSession 0])).2.inner
        WorkerTarget.initialCells (sampleRegistration 4096 1) sampleLaunch (fun _ => 0) 0).2 ≠
        ((Registry.new false).machine.run .initial
          (fillRegistry 4096 ++ [.releaseMcp (sampleFingerprint 0) sampleSession 0])).2.inner :=
  (fullWithIdle_run (filled_fillRegistry le_rfl)).registerMcp
    ((Registry.new false).tokens_run _).1 _

end NemoRelay.Broker

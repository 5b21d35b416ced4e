import NemoRelay.Lib.Transition
import NemoRelay.Runtime.Propagation

/-!
# Scope stacks

`ScopeStack` of `scope_stack.rs`: the active scopes, their local registries and the agents that
are fresh. The type `R` is `ScopeLocalRegistries`. A result `none` stands for a panic of one of
the `expect` calls.
-/

namespace NemoRelay

open List Option

inductive ScopeType
  | agent | function | tool | llm | retriever | embedder | reranker | guardrail | evaluator
  | custom | unknown
  deriving DecidableEq

structure ScopeHandle where
  uuid : Uuid
  scopeType : ScopeType
  name : String
  parentUuid : Option Uuid := none

/-- The root scope is the first element of `stack`. -/
structure ScopeStack (R : Type) where
  stack : List ScopeHandle
  scopeRegistries : Uuid → Option R
  freshAgents : Finset Uuid
  propagatedParentUuid : Option Uuid := none
  propagatedRootUuid : Option Uuid := none
  propagatedTraceparent : Option String := none
  propagatedTracestate : Option String := none
  isRootlessPropagation : Bool := false

namespace ScopeStack

variable {R : Type}

def uuids (s : ScopeStack R) : List Uuid := s.stack.map ScopeHandle.uuid

/-- `ScopeStack::new`. The root's identifier is generated by the builder. -/
def new (rootUuid : Uuid) : ScopeStack R where
  stack := [{ uuid := rootUuid, scopeType := .agent, name := "root" }]
  scopeRegistries := fun _ => none
  freshAgents := {rootUuid}

/-- The synthetic scopes of an imported context: the root, and the parent when it is not the
root itself. -/
def propagatedScopes (context : PropagationContext) : ScopeHandle × List ScopeHandle :=
  match context.rootUuid with
  | some rootUuid =>
    ({ uuid := rootUuid, scopeType := .agent, name := "propagated-root" },
      if rootUuid ≠ context.parentUuid then
        [{ uuid := context.parentUuid, parentUuid := some rootUuid, name := "propagated-parent",
           scopeType := .unknown }]
      else [])
  | none => ({ uuid := context.parentUuid, scopeType := .agent, name := "propagated-root" }, [])

/-- The stack that `from_propagation` builds of a validated and normalized context. -/
def imported (context : PropagationContext) : ScopeStack R where
  stack := (propagatedScopes context).1 :: (propagatedScopes context).2
  scopeRegistries := fun _ => none
  freshAgents := {(propagatedScopes context).1.uuid}
  propagatedParentUuid := some context.parentUuid
  propagatedRootUuid := context.rootUuid
  propagatedTraceparent := context.traceparent
  propagatedTracestate := context.tracestate
  isRootlessPropagation := context.rootUuid.isNone

def fromPropagation (P : W3cPropagator) (context : PropagationContext) :
    Except FlowError (ScopeStack R) := do
  context.validate
  return imported (context.normalized P)

section

variable (s : ScopeStack R)

def push (handle : ScopeHandle) : ScopeStack R :=
  { s with
    stack := s.stack ++ [handle]
    freshAgents :=
      if handle.scopeType = .agent then insert handle.uuid s.freshAgents else s.freshAgents }

def top : Option ScopeHandle := s.stack.getLast?

def rootUuid : Option Uuid := s.stack.head?.map ScopeHandle.uuid

def find (uuid : Uuid) : Option ScopeHandle :=
  s.stack.find? fun handle => handle.uuid == uuid

/-- Remove the top scope if it has the given identifier: the result and the stack afterwards. -/
def remove (uuid : Uuid) : Option (Except FlowError ScopeHandle × ScopeStack R) :=
  match s.top with
  | none => none
  | some top =>
    if top.uuid = uuid then
      if s.stack.length = 1 then
        some (.error (.invalidArgument "root scope cannot be removed"), s)
      else
        some (.ok top, { s with
          stack := s.stack.dropLast
          scopeRegistries := Function.update s.scopeRegistries uuid none
          freshAgents := s.freshAgents.erase uuid })
    else if s.stack.any fun handle => handle.uuid == uuid then
      some (.error (.invalidArgument "scope handle is not at the top of the stack"), s)
    else some (.error (.notFound "scope handle not found"), s)

/-- How many scopes from the root on may own an event with the given parent. -/
def searchEnd (parentUuid : Option Uuid) : Nat :=
  match parentUuid.bind fun uuid => s.stack.findIdx? fun scope => scope.uuid == uuid with
  | some index => index + 1
  | none => s.stack.length

def owningAgentUuid (parentUuid : Option Uuid) : Option Uuid :=
  ((s.stack.take (s.searchEnd parentUuid)).reverse.find? fun scope =>
    scope.scopeType == .agent).map ScopeHandle.uuid

/-- Whether the owning agent was fresh, and the stack in which it is stale. -/
def takeAgentFreshness (parentUuid : Option Uuid) : Option (Bool × ScopeStack R) :=
  (s.owningAgentUuid parentUuid).map fun uuid =>
    (uuid ∈ s.freshAgents, { s with freshAgents := s.freshAgents.erase uuid })

def markAgentFresh (parentUuid : Option Uuid) : Option (ScopeStack R) :=
  (s.owningAgentUuid parentUuid).map fun uuid =>
    { s with freshAgents := insert uuid s.freshAgents }

/-- `local_registries_mut` and what its caller does with the registries it gets. -/
def localRegistriesMut [Inhabited R] (uuid : Uuid) (update : R → R) : ScopeStack R :=
  if s.stack.any fun handle => handle.uuid == uuid then
    let registries := (s.scopeRegistries uuid).getD default
    { s with scopeRegistries := Function.update s.scopeRegistries uuid (some (update registries)) }
  else s

/-- One registry of every active scope that owns registries, from the root to the top. -/
def collectScopeLocalRegistries {S : Type} (field : R → S) : List S :=
  (s.stack.filterMap fun handle => s.scopeRegistries handle.uuid).map field

/-- The stack up to and including a scope, with the registries and marks of the scopes kept. -/
def snapshotThroughScope (scopeUuid : Uuid) : Option (ScopeStack R) :=
  (s.stack.findIdx? fun scope => scope.uuid == scopeUuid).map fun last =>
    let stack := s.stack.take (last + 1)
    let visible := stack.map ScopeHandle.uuid
    { s with
      stack
      scopeRegistries := fun uuid => if uuid ∈ visible then s.scopeRegistries uuid else none
      freshAgents := s.freshAgents.filter fun uuid => uuid ∈ visible }

end

/-- The operations that the runtime performs on a stack. -/
inductive Op (R : Type)
  | push (handle : ScopeHandle)
  | remove (uuid : Uuid)
  | localRegistriesMut (uuid : Uuid) (update : R → R)
  | takeAgentFreshness (parentUuid : Option Uuid)
  | markAgentFresh (parentUuid : Option Uuid)

def step [Inhabited R] (s : ScopeStack R) : Op R → Option (ScopeStack R)
  | .push handle => if handle.uuid ∈ s.uuids then none else some (s.push handle)
  | .remove uuid => (s.remove uuid).map Prod.snd
  | .localRegistriesMut uuid update => some (s.localRegistriesMut uuid update)
  | .takeAgentFreshness parentUuid => (s.takeAgentFreshness parentUuid).map Prod.snd
  | .markAgentFresh parentUuid => s.markAgentFresh parentUuid

/-- A stack and the operations on it. -/
def system [Inhabited R] (start : ScopeStack R) : System (ScopeStack R) (Op R) where
  init s := s = start
  step := step

/-- The two ways to create a stack. -/
inductive Start (P : W3cPropagator) : ScopeStack R → Prop
  | new (rootUuid : Uuid) : Start P (new rootUuid)
  | fromPropagation {context : PropagationContext} {s : ScopeStack R}
      (h : fromPropagation P context = .ok s) : Start P s

/-- What every operation keeps: the stack stands on its agent root, no identifier is on it twice,
and only scopes on the stack own registries or freshness marks. -/
structure WellFormed (root : ScopeHandle) (s : ScopeStack R) : Prop where
  bottom : s.stack.head? = some root
  agent : root.scopeType = .agent
  nodup : s.uuids.Nodup
  registries : ∀ uuid, (s.scopeRegistries uuid).isSome → uuid ∈ s.uuids
  fresh : ∀ uuid ∈ s.freshAgents, uuid ∈ s.uuids

variable {s t : ScopeStack R} {root : ScopeHandle}

theorem WellFormed.cons (h : WellFormed root s) : ∃ rest, s.stack = root :: rest :=
  head?_eq_some_iff.mp h.bottom

theorem WellFormed.exists_top (h : WellFormed root s) : ∃ top, s.top = some top := by
  obtain ⟨rest, hs⟩ := h.cons
  rw [top, hs]
  exact ⟨_, rfl⟩

theorem any_uuid_iff (uuid : Uuid) :
    (s.stack.any fun handle => handle.uuid == uuid) = true ↔ uuid ∈ s.uuids := by
  simp [uuids]

variable {uuid : Uuid} {parentUuid : Option Uuid}

theorem owningAgentUuid_mem (h : s.owningAgentUuid parentUuid = some uuid) : uuid ∈ s.uuids := by
  rw [owningAgentUuid, map_eq_some_iff] at h
  obtain ⟨scope, hfind, rfl⟩ := h
  have hmem := mem_of_find?_eq_some hfind
  exact mem_map_of_mem (mem_of_mem_take (mem_reverse.mp hmem))

section

variable (h : WellFormed root s)
include h

/-- The root is an agent within every search range, so that a search for the owning agent never
fails. -/
theorem WellFormed.owningAgentUuid_isSome (parentUuid : Option Uuid) :
    (s.owningAgentUuid parentUuid).isSome := by
  obtain ⟨rest, hs⟩ := h.cons
  have hpos : 0 < s.searchEnd parentUuid := by
    rw [searchEnd]
    split
    · exact Nat.succ_pos _
    · rw [hs]
      exact Nat.succ_pos _
  have hroot : root ∈ (s.stack.take (s.searchEnd parentUuid)).reverse := by
    rw [mem_reverse, hs]
    obtain ⟨n, hn⟩ := Nat.exists_eq_succ_of_ne_zero (Nat.ne_of_gt hpos)
    rw [hn]
    exact mem_cons_self
  rw [owningAgentUuid, isSome_map, find?_isSome]
  exact ⟨root, hroot, by simp [h.agent]⟩

theorem WellFormed.push {handle : ScopeHandle} (hfresh : handle.uuid ∉ s.uuids) :
    WellFormed root (s.push handle) := by
  have huuids : (s.push handle).uuids = s.uuids ++ [handle.uuid] := by simp [uuids, ScopeStack.push]
  refine ⟨?_, h.agent, ?_, ?_, ?_⟩
  · obtain ⟨rest, hs⟩ := h.cons
    simp [ScopeStack.push, hs]
  · rw [huuids, ← concat_eq_append, nodup_concat]
    exact ⟨hfresh, h.nodup⟩
  · intro uuid hu
    rw [huuids]
    exact mem_append_left _ (h.registries uuid hu)
  · intro uuid hu
    rw [huuids, mem_append, mem_singleton]
    by_cases ha : handle.scopeType = .agent
    · simp only [ScopeStack.push, ha, if_true, Finset.mem_insert] at hu
      exact hu.symm.imp_left (h.fresh uuid)
    · simp only [ScopeStack.push, ha] at hu
      exact .inl (h.fresh uuid hu)

/-- Removing the top scope takes its registries and its freshness mark with it. -/
theorem WellFormed.remove {result : Except FlowError ScopeHandle}
    (hr : s.remove uuid = some (result, t)) : WellFormed root t := by
  rw [ScopeStack.remove] at hr
  cases htop : s.top with
  | none =>
    rw [htop] at hr
    cases hr
  | some top =>
    simp only [htop] at hr
    split at hr
    · split at hr
      · cases hr
        exact h
      · rename_i hid hlen
        cases hr
        obtain ⟨rest, hs⟩ := h.cons
        have hrest : rest ≠ [] := by
          rintro rfl
          exact hlen (by rw [hs]; rfl)
        have hsplit : s.uuids = (s.stack.dropLast.map ScopeHandle.uuid) ++ [uuid] := by
          rw [← hid, uuids]
          conv_lhs => rw [← dropLast_append_getLast? top htop]
          rw [map_append, map_singleton]
        have hmem : ∀ v ∈ s.uuids, v ≠ uuid → v ∈ s.stack.dropLast.map ScopeHandle.uuid := by
          intro v hv
          rw [hsplit, mem_append, mem_singleton] at hv
          exact hv.resolve_right
        have hnodup := h.nodup
        rw [hsplit, nodup_append] at hnodup
        refine ⟨?_, h.agent, hnodup.1, ?_, ?_⟩
        · simp only [hs]
          rw [dropLast_cons_of_ne_nil hrest]
          rfl
        · intro v hv
          by_cases hvu : v = uuid
          · subst hvu
            simp at hv
          · simp only [Function.update_of_ne hvu] at hv
            exact hmem v (h.registries v hv) hvu
        · intro v hv
          rw [Finset.mem_erase] at hv
          exact hmem v (h.fresh v hv.2) hv.1
    · split at hr <;> cases hr <;> exact h

theorem WellFormed.localRegistriesMut [Inhabited R] (uuid : Uuid) (update : R → R) :
    WellFormed root (s.localRegistriesMut uuid update) := by
  rw [ScopeStack.localRegistriesMut]
  split
  · rename_i hany
    refine { h with registries := ?_ }
    intro v hv
    by_cases hvu : v = uuid
    · subst hvu
      exact (any_uuid_iff v).mp hany
    · simp only [Function.update_of_ne hvu] at hv
      exact h.registries v hv
  · exact h

theorem WellFormed.takeAgentFreshness {fresh : Bool}
    (ht : s.takeAgentFreshness parentUuid = some (fresh, t)) : WellFormed root t := by
  rw [ScopeStack.takeAgentFreshness, map_eq_some_iff] at ht
  obtain ⟨uuid, -, heq⟩ := ht
  cases heq
  exact { h with fresh := fun v hv => h.fresh v (Finset.mem_of_mem_erase hv) }

theorem WellFormed.markAgentFresh (ht : s.markAgentFresh parentUuid = some t) :
    WellFormed root t := by
  rw [ScopeStack.markAgentFresh, map_eq_some_iff] at ht
  obtain ⟨uuid, howner, rfl⟩ := ht
  refine { h with fresh := ?_ }
  intro v hv
  obtain rfl | hv := Finset.mem_insert.mp hv
  · exact owningAgentUuid_mem howner
  · exact h.fresh v hv

theorem WellFormed.step [Inhabited R] {op : Op R} (hst : s.step op = some t) :
    WellFormed root t := by
  cases op with
  | push handle =>
    simp only [ScopeStack.step] at hst
    split at hst
    · cases hst
    · rename_i hfresh
      cases hst
      exact h.push hfresh
  | remove uuid =>
    rw [ScopeStack.step, map_eq_some_iff] at hst
    obtain ⟨⟨result, u⟩, hr, rfl⟩ := hst
    exact h.remove hr
  | localRegistriesMut uuid update =>
    cases hst
    exact h.localRegistriesMut uuid update
  | takeAgentFreshness parentUuid =>
    rw [ScopeStack.step, map_eq_some_iff] at hst
    obtain ⟨⟨fresh, u⟩, hr, rfl⟩ := hst
    exact h.takeAgentFreshness hr
  | markAgentFresh parentUuid => exact h.markAgentFresh hst

end

variable {P : W3cPropagator}

theorem fromPropagation_eq_ok {context : PropagationContext} :
    fromPropagation P context = .ok s ↔ context.Valid ∧ s = imported (context.normalized P) := by
  rw [← PropagationContext.validate_eq_ok, fromPropagation]
  cases context.validate with
  | error e => simp [bind, Except.bind]
  | ok u => simp [eq_comm]

theorem Start.wellFormed (h : Start P s) : ∃ root, WellFormed root s := by
  cases h with
  | new rootUuid =>
    refine ⟨_, rfl, rfl, nodup_singleton _, nofun, fun uuid hu => ?_⟩
    rw [Finset.mem_singleton.mp hu]
    exact mem_cons_self
  | @fromPropagation context _ h =>
    obtain ⟨-, rfl⟩ := fromPropagation_eq_ok.mp h
    refine ⟨_, rfl, ?_, ?_, nofun, ?_⟩
    · rw [propagatedScopes]
      split <;> rfl
    · rw [uuids, imported, propagatedScopes]
      split
      · split
        · rename_i hne
          simpa using hne
        · exact nodup_singleton _
      · exact nodup_singleton _
    · intro uuid hu
      rw [Finset.mem_singleton.mp hu]
      exact mem_cons_self

variable {start : ScopeStack R}

theorem reachable_wellFormed [Inhabited R] (h : WellFormed root start)
    (hs : (system start).Reachable s) : WellFormed root s := by
  have hind : (system start).Inductive (WellFormed root) :=
    ⟨fun u hu => hu ▸ h, fun _ _ _ hu hst => hu.step hst⟩
  exact hind.reachable hs

/-- No operation on a reachable stack panics; only a push of an identifier that is already on the
stack is not an operation. -/
theorem step_isSome_of_reachable [Inhabited R] (hstart : Start P start)
    (hs : (system start).Reachable s) (op : Op R) :
    (s.step op).isSome ∨ ∃ handle, op = .push handle ∧ handle.uuid ∈ s.uuids := by
  obtain ⟨root, hroot⟩ := hstart.wellFormed
  have h := reachable_wellFormed hroot hs
  cases op with
  | push handle =>
    by_cases hmem : handle.uuid ∈ s.uuids
    · exact .inr ⟨handle, rfl, hmem⟩
    · simp [ScopeStack.step, hmem]
  | remove uuid =>
    obtain ⟨top, htop⟩ := h.exists_top
    refine .inl ?_
    simp only [ScopeStack.step, ScopeStack.remove, htop]
    split <;> split <;> rfl
  | localRegistriesMut uuid update => exact .inl rfl
  | takeAgentFreshness parentUuid =>
    refine .inl ?_
    rw [ScopeStack.step, isSome_map, ScopeStack.takeAgentFreshness, isSome_map]
    exact h.owningAgentUuid_isSome parentUuid
  | markAgentFresh parentUuid =>
    refine .inl ?_
    rw [ScopeStack.step, ScopeStack.markAgentFresh, isSome_map]
    exact h.owningAgentUuid_isSome parentUuid

/-- A tool scope and an agent scope above it, a failing removal of the tool scope, the removal of
the agent scope. -/
def sampleOps : List (Op Nat) :=
  [.push { uuid := 6, scopeType := .tool, name := "tool" },
    .push { uuid := 7, scopeType := .agent, name := "agent" }, .localRegistriesMut 6 (· + 1),
    .localRegistriesMut 7 (· + 2), .remove 6, .takeAgentFreshness (some 6), .remove 7]

theorem step_isSome_sampleOps : ∃ s : ScopeStack Nat,
    (system (new 5)).run (new 5) sampleOps = some s ∧ ∀ uuid, (s.step (.remove uuid)).isSome := by
  refine ⟨_, rfl, fun uuid => ?_⟩
  exact (step_isSome_of_reachable (Start.new (P := .version0) 5)
    (System.reachable_of_run sampleOps rfl rfl) (.remove uuid)).resolve_right (by simp)

theorem remove_error {error : FlowError} (h : s.remove uuid = some (.error error, t)) : t = s := by
  rw [ScopeStack.remove] at h
  split at h
  · cases h
  · split at h
    · split at h
      · cases h
        rfl
      · cases h
    · split at h <;> cases h <;> rfl

/-- What `snapshot_through_scope` keeps of a stack: a prefix of the scopes, and of the registries
and freshness marks exactly those of the prefix. -/
structure IsPrefixSnapshot (s : ScopeStack R) (kept : List ScopeHandle) (snap : ScopeStack R) :
    Prop where
  stack : snap.stack = kept
  registries : ∀ uuid, snap.scopeRegistries uuid =
    if uuid ∈ kept.map ScopeHandle.uuid then s.scopeRegistries uuid else none
  fresh : ∀ uuid, uuid ∈ snap.freshAgents ↔ uuid ∈ s.freshAgents ∧ uuid ∈ kept.map ScopeHandle.uuid

theorem findIdx?_uuid (h : uuid ∈ s.uuids) :
    ∃ before scope after, s.stack = before ++ scope :: after ∧ scope.uuid = uuid ∧
      uuid ∉ before.map ScopeHandle.uuid ∧
      (s.stack.findIdx? fun handle => handle.uuid == uuid) = some before.length := by
  have hsome : ((s.stack.findIdx? fun handle => handle.uuid == uuid)).isSome := by
    rw [findIdx?_isSome]
    exact (any_uuid_iff uuid).mpr h
  obtain ⟨i, hi⟩ := Option.isSome_iff_exists.mp hsome
  obtain ⟨hlt, hp, hbefore⟩ := findIdx?_eq_some_iff_getElem.mp hi
  refine ⟨s.stack.take i, s.stack[i], s.stack.drop (i + 1), ?_, by simpa using hp, ?_, ?_⟩
  · rw [← drop_eq_getElem_cons hlt, take_append_drop]
  · intro hmem
    obtain ⟨handle, hh, hid⟩ := mem_map.mp hmem
    obtain ⟨j, hj, hget⟩ := mem_take_iff_getElem.mp hh
    have := hbefore j (by omega)
    rw [hget] at this
    simp [hid] at this
  · rw [hi, length_take, Nat.min_eq_left (Nat.le_of_lt hlt)]

theorem snapshotThroughScope_eq (h : uuid ∈ s.uuids) :
    ∃ before scope after snap, s.stack = before ++ scope :: after ∧ scope.uuid = uuid ∧
      uuid ∉ before.map ScopeHandle.uuid ∧ s.snapshotThroughScope uuid = some snap ∧
      IsPrefixSnapshot s (before ++ [scope]) snap := by
  obtain ⟨before, scope, after, hs, hid, hnot, hidx⟩ := findIdx?_uuid h
  have htake : s.stack.take (before.length + 1) = before ++ [scope] := by
    rw [hs, take_append]
    simp
  have hsnap : ∃ snap, s.snapshotThroughScope uuid = some snap ∧
      IsPrefixSnapshot s (before ++ [scope]) snap := by
    rw [snapshotThroughScope, hidx]
    refine ⟨_, rfl, htake, ?_, ?_⟩
    · intro v
      simp only [htake]
    · intro v
      simp only [htake, Finset.mem_filter]
  obtain ⟨snap, hsome, hprefix⟩ := hsnap
  exact ⟨before, scope, after, snap, hs, hid, hnot, hsome, hprefix⟩

/-- In every reachable state the stack is not empty and stands on the root it started with, only
scopes on the stack own registries or freshness marks, a failing `remove` changes nothing, and a
snapshot through a scope on the stack is the prefix up to that scope. -/
theorem scope_stack_invariants [Inhabited R] (hstart : Start P start)
    (hs : (system start).Reachable s) :
    s.stack ≠ [] ∧ s.stack.head? = start.stack.head? ∧
    (∀ uuid, (s.scopeRegistries uuid).isSome → uuid ∈ s.uuids) ∧
    (∀ uuid ∈ s.freshAgents, uuid ∈ s.uuids) ∧
    (∀ uuid error t, s.remove uuid = some (.error error, t) → t = s) ∧
    (∀ uuid ∈ s.uuids, ∃ before scope after snap,
      s.stack = before ++ scope :: after ∧ scope.uuid = uuid ∧
      uuid ∉ before.map ScopeHandle.uuid ∧ s.snapshotThroughScope uuid = some snap ∧
      IsPrefixSnapshot s (before ++ [scope]) snap) := by
  obtain ⟨root, hroot⟩ := hstart.wellFormed
  have h := reachable_wellFormed hroot hs
  obtain ⟨rest, hcons⟩ := h.cons
  exact ⟨by simp [hcons], h.bottom.trans hroot.bottom.symm, h.registries, h.fresh,
    fun _ _ _ => remove_error, fun _ => snapshotThroughScope_eq⟩

theorem sampleOps_invariants : ∃ s : ScopeStack Nat,
    (system (new 5)).run (new 5) sampleOps = some s ∧ s.uuids = [5, 6] ∧ s.stack ≠ [] ∧
    s.stack.head? = (new (R := Nat) 5).stack.head? ∧
    (∀ uuid, (s.scopeRegistries uuid).isSome → uuid ∈ s.uuids) := by
  refine ⟨_, rfl, rfl, ?_⟩
  have h := scope_stack_invariants (Start.new (P := .version0) 5)
    (System.reachable_of_run sampleOps rfl rfl)
  exact ⟨h.1, h.2.1, h.2.2.1⟩

end ScopeStack

end NemoRelay

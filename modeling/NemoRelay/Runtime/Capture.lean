import NemoRelay.Runtime.ScopeStack

/-!
# Capturing a propagation context

The second half of `scope_stack.rs`: the span context that a scope stands for, the W3C headers
derived from it, and the propagation context that crosses a boundary. A result `none` stands for
a panic on an empty stack.
-/

namespace NemoRelay

open Option

/-- The `traceparent` and the `tracestate` of a request. -/
abbrev W3cHeaders := Option String × Option String

structure W3cTraceContext where
  traceparent : String
  tracestate : Option String

/-- The managed event that runs in a task, with the trace context bound to it. -/
structure ActiveEvent where
  uuid : Uuid
  traceContext : Option W3cTraceContext

/-- The remote context that Relay identifiers stand for. -/
def SpanContext.ofRelay (rootUuid uuid : Uuid) : SpanContext where
  traceId := rootUuid.relayTraceId
  spanId := uuid.relaySpanId
  traceFlags := 1
  isRemote := true
  traceState := []

variable (P : W3cPropagator)

def w3cHeadersForParent (parent : SpanContext) (parentUuid : Uuid) : W3cHeaders :=
  let carrier := P.inject { parent with spanId := parentUuid.relaySpanId, isRemote := false }
  (carrier.map Prod.fst, (carrier.map Prod.snd).filter fun value => !value.isEmpty)

namespace ScopeStack

variable {R : Type} (P : W3cPropagator) (s : ScopeStack R)

def propagatedSpanContext (uuid : Uuid) : Option SpanContext :=
  if s.propagatedParentUuid ≠ some uuid then none
  else
    match w3cSpanContext P s.propagatedTraceparent s.propagatedTracestate with
    | some context => some context
    | none =>
      s.propagatedRootUuid.bind fun rootUuid =>
        if !rootUuid.isUsable || !uuid.isUsable then none
        else some (.ofRelay rootUuid uuid)

/-- The last scope with the given identifier below `beforeIndex`, the root excepted. -/
def scopeBefore (uuid : Uuid) (beforeIndex : Nat) : Option (ScopeHandle × Nat) :=
  ((s.stack.zipIdx.take beforeIndex).drop 1).reverse.find? fun entry => entry.1.uuid == uuid

variable {s} in
theorem scopeBefore_lt {uuid : Uuid} {beforeIndex index : Nat} {scope : ScopeHandle}
    (h : s.scopeBefore uuid beforeIndex = some (scope, index)) : index < beforeIndex := by
  have hmem := List.mem_reverse.mp (List.mem_of_find?_eq_some h)
  obtain ⟨i, hi, hget⟩ := List.mem_take_iff_getElem.mp (List.mem_of_mem_drop hmem)
  rw [List.getElem_zipIdx, Prod.mk.injEq] at hget
  omega

/-- The span context of a scope whose parent has the given one. -/
def childSpanContext (uuid : Uuid) : Option SpanContext → SpanContext
  | some parent => { parent with spanId := uuid.relaySpanId, isRemote := false }
  | none => { SpanContext.ofRelay uuid uuid with isRemote := false }

-- Both functions return the set `visiting` as they leave it: a scope that is not found stays in.
mutual

def localSpanContextInner (uuid : Uuid) (beforeIndex : Nat) (visiting : Finset Uuid) :
    Option SpanContext × Finset Uuid :=
  if !uuid.isUsable || uuid ∈ visiting then (none, visiting)
  else
    let visiting := insert uuid visiting
    match s.propagatedSpanContext P uuid with
    | some context => (some context, visiting.erase uuid)
    | none =>
      match hscope : s.scopeBefore uuid beforeIndex with
      | none => (none, visiting)
      | some (scope, index) =>
        have : index < beforeIndex := scopeBefore_lt hscope
        let stackParentContext (visiting : Finset Uuid) : Option SpanContext × Finset Uuid :=
          match s.stack[index - 1]? with
          | some parent => parentSpanContextInner parent.uuid index visiting
          | none => (none, visiting)
        let (parentContext, visiting) :=
          match scope.parentUuid with
          | some parentUuid =>
            match parentSpanContextInner parentUuid index visiting with
            | (some context, visiting) => (some context, visiting)
            | (none, visiting) =>
              if parentUuid.isUsable && (s.find parentUuid).isNone then
                stackParentContext visiting
              else (none, visiting)
          | none => stackParentContext visiting
        let context := childSpanContext uuid parentContext
        (if context.isValid then some context else none, visiting.erase uuid)
  termination_by (beforeIndex, 0)

def parentSpanContextInner (uuid : Uuid) (beforeIndex : Nat) (visiting : Finset Uuid) :
    Option SpanContext × Finset Uuid :=
  match s.propagatedSpanContext P uuid with
  | some context => (some context, visiting)
  | none => localSpanContextInner uuid beforeIndex visiting
  termination_by (beforeIndex, 1)

end

def localSpanContext (uuid : Uuid) : Option SpanContext :=
  (s.localSpanContextInner P uuid s.stack.length ∅).1

def w3cHeadersForSpan (spanUuid causalParentUuid : Uuid) : Option W3cHeaders :=
  if spanUuid = causalParentUuid ∧ s.propagatedParentUuid = some causalParentUuid ∧
      s.propagatedTraceparent.isSome then
    some (s.propagatedTraceparent, s.propagatedTracestate)
  else
    let headers := fun context : Option SpanContext =>
      (context.map fun parent => w3cHeadersForParent P parent spanUuid).getD (none, none)
    match s.localSpanContext P causalParentUuid with
    | some parent => some (headers (some parent))
    | none =>
      if causalParentUuid.isUsable && (s.find causalParentUuid).isNone then
        s.top.map fun top => headers (s.localSpanContext P top.uuid)
      else some (headers none)

def eventW3cHeaders (parentUuid : Option Uuid) : Option W3cHeaders :=
  match parentUuid with
  | none => some (none, none)
  | some parentUuid =>
    if s.propagatedParentUuid = some parentUuid ∧ s.propagatedTraceparent.isSome then
      some (s.propagatedTraceparent, s.propagatedTracestate)
    else if s.propagatedParentUuid = some parentUuid ∧ s.propagatedRootUuid.isNone then
      some (none, none)
    else s.w3cHeadersForSpan P parentUuid parentUuid

def eventPropagationRootUuid : Option (Option Uuid) :=
  let localRoot := ((s.stack.drop 1).find? fun scope =>
    scope.scopeType == .agent && scope.uuid.isUsable).map ScopeHandle.uuid
  match s.propagatedRootUuid.or localRoot with
  | some uuid => some (some uuid)
  | none => if s.isRootlessPropagation then some none else s.rootUuid.map some

def capturedW3cHeaders (active : Option ActiveEvent) (parentUuid : Uuid) : Option W3cHeaders :=
  match active.bind ActiveEvent.traceContext with
  | some context => some (some context.traceparent, context.tracestate)
  | none =>
    if active.isSome then s.top.bind fun top => s.w3cHeadersForSpan P parentUuid top.uuid
    else s.eventW3cHeaders P (some parentUuid)

/-- `capture_propagation_context`, with `s` the current scope stack. -/
def capturePropagationContext (active : Option ActiveEvent) :
    Option (Except FlowError PropagationContext) := do
  let parentUuid ← (active.map ActiveEvent.uuid).or (s.top.map ScopeHandle.uuid)
  let rootUuid ← s.eventPropagationRootUuid
  let (traceparent, tracestate) ← s.capturedW3cHeaders P active parentUuid
  let traceparent :=
    traceparent.or (active.map fun event => formatTraceparent event.uuid event.uuid)
  let context : PropagationContext :=
    { version := PropagationContext.currentVersion, rootUuid, parentUuid, traceparent, tracestate }
  return context.validate.map fun _ => context

end ScopeStack

/-! ### Headers that were written -/

/-- A header written for usable identifiers is its own normal form. -/
theorem normalizeW3cHeaders_written {traceId : TraceId} {spanId : SpanId} (ht : traceId ≠ 0)
    (hs : spanId ≠ 0) :
    normalizeW3cHeaders P (some (traceparentHeader traceId spanId 1)) none =
      (some (traceparentHeader traceId spanId 1), none,
        some { traceId, spanId, traceFlags := 1, isRemote := true, traceState := [] }) := by
  have hflags : (1 : BitVec 8) &&& 1 = 1 := by decide
  have hextract := P.extract_written traceId spanId 1 ht hs
  rw [hflags] at hextract
  have hvalid : SpanContext.isValid
      { traceId, spanId, traceFlags := 1, isRemote := true, traceState := [] } = true :=
    SpanContext.isValid_iff.mpr ⟨ht, hs⟩
  have hinject := P.inject_valid _ hvalid
  simp only [normalizeW3cHeaders, bind_none, map_none, hextract, hvalid, hinject]
  rfl

theorem w3cHeadersForParent_written (parent : SpanContext) {uuid : Uuid} (ht : parent.traceId ≠ 0)
    (hs : uuid.relaySpanId ≠ 0) (hflags : parent.traceFlags = 1) (hstate : parent.traceState = []) :
    w3cHeadersForParent P parent uuid =
      (some (traceparentHeader parent.traceId uuid.relaySpanId 1), none) := by
  have hvalid : SpanContext.isValid
      { parent with spanId := uuid.relaySpanId, isRemote := false } = true :=
    SpanContext.isValid_iff.mpr ⟨ht, hs⟩
  have hinject := P.inject_valid _ hvalid
  simp only [hflags, hstate] at hinject
  simp only [w3cHeadersForParent, hinject, hflags, hstate]
  rfl

namespace ScopeStack

variable {R : Type} {P : W3cPropagator} {context : PropagationContext}

/-! ### Import followed by capture -/

theorem imported_top :
    (imported (R := R) context).top.map ScopeHandle.uuid = some context.parentUuid := by
  cases hroot : context.rootUuid with
  | none => simp [top, imported, propagatedScopes, hroot]
  | some rootUuid =>
    by_cases hsame : rootUuid = context.parentUuid <;>
      simp [top, imported, propagatedScopes, hroot, hsame]

/-- The imported root is captured again; an import without a root stays without one. -/
theorem imported_eventPropagationRootUuid :
    (imported (R := R) context).eventPropagationRootUuid = some context.rootUuid := by
  rw [eventPropagationRootUuid]
  cases hroot : context.rootUuid with
  | none => simp [imported, propagatedScopes, hroot]
  | some rootUuid => simp [imported, hroot]

/-- The span context of the imported parent is derived from the imported root. -/
theorem imported_localSpanContext {rootUuid : Uuid} (hvalid : context.Valid)
    (hroot : context.rootUuid = some rootUuid) (hparent : context.traceparent = none) :
    (imported (R := R) context).localSpanContext P context.parentUuid =
      some (.ofRelay rootUuid context.parentUuid) := by
  have hr := hvalid.root rootUuid hroot
  have hspan : (imported (R := R) context).propagatedSpanContext P context.parentUuid =
      some (.ofRelay rootUuid context.parentUuid) := by
    simp [propagatedSpanContext, imported, hparent, hroot, hr, hvalid.parent, w3cSpanContext,
      normalizeW3cHeaders]
  rw [localSpanContext, localSpanContextInner]
  simp [hvalid.parent, hspan]

/-- What a capture adds to an imported context: without a header of its own, a rooted context
gets the one that its identifiers stand for. -/
def withTraceparent (context : PropagationContext) : PropagationContext :=
  match context.traceparent, context.rootUuid with
  | none, some rootUuid =>
    { context with traceparent := some (formatTraceparent rootUuid context.parentUuid) }
  | _, _ => context

open PropagationContext

theorem imported_eventW3cHeaders (hvalid : context.Valid) (hnorm : context.normalized P = context) :
    (imported (R := R) context).eventW3cHeaders P (some context.parentUuid) =
      some ((withTraceparent context).traceparent, context.tracestate) := by
  cases hparent : context.traceparent with
  | some traceparent => simp [eventW3cHeaders, withTraceparent, imported, hparent]
  | none =>
    have hstate := tracestate_eq_none hnorm hparent
    cases hroot : context.rootUuid with
    | none => simp [eventW3cHeaders, withTraceparent, imported, hparent, hroot, hstate]
    | some rootUuid =>
      have hr := hvalid.root rootUuid hroot
      have hspan := imported_localSpanContext (R := R) (P := P) hvalid hroot hparent
      have hheaders := w3cHeadersForParent_written P (.ofRelay rootUuid context.parentUuid)
        (Uuid.relayTraceId_ne_zero hr) ((Uuid.isUsable_iff _).mp hvalid.parent) rfl rfl
      have hsome : (imported (R := R) context).eventW3cHeaders P (some context.parentUuid) =
          (imported (R := R) context).w3cHeadersForSpan P context.parentUuid
            context.parentUuid := by
        simp [eventW3cHeaders, imported, hparent, hroot]
      rw [hsome]
      simp only [w3cHeadersForSpan, hspan]
      simp [imported, hparent, hstate, withTraceparent, hroot, formatTraceparent_eq]
      exact hheaders

theorem withTraceparent_frame (context : PropagationContext) :
    (withTraceparent context).version = context.version ∧
    (withTraceparent context).rootUuid = context.rootUuid ∧
    (withTraceparent context).parentUuid = context.parentUuid ∧
    (withTraceparent context).tracestate = context.tracestate := by
  rw [withTraceparent]
  split <;> exact ⟨rfl, rfl, rfl, rfl⟩

section

variable (hvalid : context.Valid)
include hvalid

theorem withTraceparent_valid : (withTraceparent context).Valid := by
  rw [withTraceparent]
  split
  · exact ⟨hvalid.version, hvalid.parent, hvalid.root⟩
  · exact hvalid

section

variable (hnorm : context.normalized P = context)
include hnorm

theorem capture_imported :
    (imported (R := R) context).capturePropagationContext P none =
      some (.ok (withTraceparent context)) := by
  obtain ⟨hversion, hroot, hparent, hstate⟩ := withTraceparent_frame context
  have hcontext : withTraceparent context = {
      version := currentVersion
      rootUuid := context.rootUuid
      parentUuid := context.parentUuid
      traceparent := (withTraceparent context).traceparent
      tracestate := context.tracestate } := by
    rw [← hvalid.version, ← hversion, ← hroot, ← hparent, ← hstate]
  have hok := validate_eq_ok.mpr (withTraceparent_valid hvalid)
  rw [hcontext] at hok ⊢
  simp only [capturePropagationContext, map_none, none_or, imported_top,
    imported_eventPropagationRootUuid, capturedW3cHeaders, bind_none, isSome_none,
    Bool.false_eq_true, if_false, imported_eventW3cHeaders hvalid hnorm, bind_eq_bind,
    bind_some, or_none]
  rw [hok]
  rfl

theorem normalized_withTraceparent {rootUuid : Uuid} (hparent : context.traceparent = none)
    (hroot : context.rootUuid = some rootUuid) :
    ((withTraceparent context).normalized P).traceparent =
      some (formatTraceparent rootUuid context.parentUuid) := by
  have hstate := tracestate_eq_none hnorm hparent
  have hwritten := normalizeW3cHeaders_written P
    (Uuid.relayTraceId_ne_zero (hvalid.root rootUuid hroot))
    ((Uuid.isUsable_iff _).mp hvalid.parent)
  simp only [normalized, withTraceparent, hparent, hroot, hstate, formatTraceparent_eq, hwritten]

/-- The header that a capture adds is the one that `to_traceparent` derives. -/
theorem withTraceparent_toTraceparent :
    (withTraceparent context).toTraceparent P = context.toTraceparent P := by
  cases hparent : context.traceparent with
  | some traceparent => rw [withTraceparent, hparent]
  | none =>
    cases hroot : context.rootUuid with
    | none => rw [withTraceparent, hparent, hroot]
    | some rootUuid =>
      rw [toTraceparent_of_header (withTraceparent_valid hvalid) (normalized_withTraceparent hvalid
          hnorm hparent hroot), toTraceparent_of_root hvalid hparent hroot]

end

end

/-- A valid normalized context that is imported and captured again comes back with the same
version, identifiers and `tracestate`, and converts to the same `traceparent`. -/
theorem capture_fromPropagation (P : W3cPropagator) (context : PropagationContext)
    (hvalid : context.validate = .ok ()) (hnorm : context.normalized P = context) :
    ∃ (s : ScopeStack R) (captured : PropagationContext), fromPropagation P context = .ok s ∧
      s.capturePropagationContext P none = some (.ok captured) ∧
      captured.version = context.version ∧ captured.rootUuid = context.rootUuid ∧
      captured.parentUuid = context.parentUuid ∧ captured.tracestate = context.tracestate ∧
      captured.toTraceparent P = context.toTraceparent P := by
  have hv := validate_eq_ok.mp hvalid
  obtain ⟨hversion, hroot, hparent, hstate⟩ := withTraceparent_frame context
  refine ⟨imported context, withTraceparent context, ?_, capture_imported hv hnorm, hversion,
    hroot, hparent, hstate, withTraceparent_toTraceparent hv hnorm⟩
  exact fromPropagation_eq_ok.mpr ⟨hv, by rw [hnorm]⟩

/-- A rooted context without headers: the capture spells the identifiers out as a header. -/
theorem capture_rooted_context : ∃ (s : ScopeStack Unit) (captured : PropagationContext),
    fromPropagation .version0 ⟨1, some 7, 9, none, none⟩ = .ok s ∧
      s.capturePropagationContext .version0 none = some (.ok captured) ∧
      captured.version = 1 ∧ captured.rootUuid = some 7 ∧ captured.parentUuid = 9 ∧
      captured.tracestate = none ∧
      captured.toTraceparent .version0 =
        toTraceparent .version0 ⟨1, some 7, 9, none, none⟩ :=
  capture_fromPropagation .version0 ⟨1, some 7, 9, none, none⟩ rfl rfl

end ScopeStack

end NemoRelay

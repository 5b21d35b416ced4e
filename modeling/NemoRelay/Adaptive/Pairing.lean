import NemoRelay.Adaptive.Drain

/-!
# Which end closes which call

The calls of a run are the pairs of starts and ends by name. A call takes its end time and token
usage from the end with its own identifier exactly if, at every end, the last open call with its
name is its own: overlapping calls of one name must end in the reverse order.
-/

namespace NemoRelay.Adaptive

open Function List

/-- Calls are paired by name. -/
def callPairing : Pairing Event Uuid String where
  isStart event := event.scopeCategory = some .start
  ident := Event.uuid
  label := Event.name

/-- A scope event of an LLM or a tool. -/
def Event.IsCall (event : Event) : Prop :=
  event.category = some "llm" ∨ event.category = some "tool"

/-- A call that was started and has not ended. -/
def IsOpen (events : List Event) (uuid : Uuid) : Prop :=
  uuid ∈ (callPairing.starts events).map Event.uuid ∧ callPairing.endOf events uuid = none

/-- The LLM and tool events of one run. Every call is started at most once, below the run or below
an open call, and ended at most once after its start. -/
inductive OneRun (root : Uuid) : List Event → Prop
  | nil : OneRun root []
  | start {events : List Event} {event : Event} : OneRun root events → event.IsCall →
      event.scopeCategory = some .start → event.uuid ≠ root →
      event.uuid ∉ (callPairing.starts events).map Event.uuid →
      (event.parentUuid = some root ∨
        ∃ parent, event.parentUuid = some parent ∧ IsOpen events parent) →
      OneRun root (events ++ [event])
  | finish {events : List Event} {event : Event} : OneRun root events → event.IsCall →
      event.scopeCategory = some .finish → IsOpen events event.uuid →
      OneRun root (events ++ [event])

variable {event : Event}

theorem isStart_of_start (h : event.scopeCategory = some .start) :
    callPairing.isStart event = true := by
  simp [callPairing, h]

theorem isStart_of_finish (h : event.scopeCategory = some .finish) :
    callPairing.isStart event = false := by
  simp [callPairing, h]

variable {events : List Event} {root : Uuid}

theorem OneRun.wellFormed (h : OneRun root events) : callPairing.WellFormed events := by
  induction h with
  | nil => exact .nil
  | start _ _ hstart _ hfresh _ ih => exact ih.start (isStart_of_start hstart) hfresh
  | finish _ _ hfinish hopen ih => exact ih.finish (isStart_of_finish hfinish) hopen.1 hopen.2

/-! ### The accumulator collects pairs -/

/-- The record of a call with the end that it was paired with. -/
def render (pair : Event × Option Event) : CallRecord :=
  let call := startedCall (if pair.1.category = some "llm" then .llm else .tool)
    (if pair.1.category = some "llm" then pair.1.annotatedRequest else none) pair.1
  match pair.2 with
  | none => call
  | some event => closeCall event call

theorem eventToCallRecord_of_isCall (hcall : event.IsCall)
    (hstart : event.scopeCategory = some .start) :
    eventToCallRecord event = some (render (event, none)) := by
  rw [eventToCallRecord, if_neg (by simp [hstart])]
  rcases hcall with hcall | hcall <;> simp [hcall, render]

theorem closeCall_eq (event : Event) (call : CallRecord) :
    (closeCall event call).name = call.name ∧
      (closeCall event call).endedAt = some event.timestamp := by
  unfold closeCall applyLlmEndMetadata
  split
  · exact ⟨rfl, rfl⟩
  · split
    · exact ⟨rfl, rfl⟩
    · split <;> exact ⟨rfl, rfl⟩

variable (pair : Event × Option Event)

theorem render_name : (render pair).name = pair.1.name := by
  obtain ⟨start, finish⟩ := pair
  cases finish with
  | none => rfl
  | some event => exact (closeCall_eq event _).1

theorem render_endedAt : (render pair).endedAt = pair.2.map Event.timestamp := by
  obtain ⟨start, finish⟩ := pair
  cases finish with
  | none => rfl
  | some event => exact (closeCall_eq event _).2

open Pairing

/-- Closing the last open call is pairing by name. -/
theorem closeOpenCall_map_render (event : Event) (pairs : List (Event × Option Event)) :
    closeOpenCall event (pairs.map render) =
      (modifyLast (callPairing.accepts event) (fun pair => (pair.1, some event)) pairs).map
        render := by
  refine modifyLast_map (fun pair => ?_) (fun pair hpair => ?_) pairs
  · rw [render_name, render_endedAt, Option.isNone_map]
    rfl
  · obtain ⟨start, finish⟩ := pair
    obtain ⟨-, rfl⟩ : _ ∧ finish = none := by simpa [accepts] using hpair
    rfl

/-- The state of an accumulator after some events of an open run. -/
structure Collects (root : Uuid) (events : List Event) (accumulator : RunAccumulator) : Prop where
  run : ∃ run, accumulator.openRuns root = some run ∧
    run.calls = (callPairing.run events).map render
  rootOf : accumulator.eventRoots root = some root
  openOf : ∀ uuid, IsOpen events uuid → accumulator.eventRoots uuid = some root
  onlyRoot : ∀ uuid root', accumulator.eventRoots uuid = some root' → root' = root

theorem eq_root_of_update {roots : Uuid → Option Uuid} {held : Option Uuid}
    (hroots : ∀ uuid root', roots uuid = some root' → root' = root)
    (hheld : ∀ root', held = some root' → root' = root) (changed uuid root' : Uuid)
    (h : update roots changed held uuid = some root') : root' = root := by
  rw [update_apply] at h
  split at h
  · exact hheld root' h
  · exact hroots uuid root' h

variable {uuid : Uuid}

theorem isOpen_concat_start (hstart : event.scopeCategory = some .start)
    (h : IsOpen (events ++ [event]) uuid) : uuid = event.uuid ∨ IsOpen events uuid := by
  obtain ⟨hmem, hopen⟩ := h
  rw [starts_concat_start (isStart_of_start hstart), map_append, mem_append,
    map_singleton, mem_singleton] at hmem
  rw [endOf_concat_start (isStart_of_start hstart)] at hopen
  rcases hmem with hmem | rfl
  · exact .inr ⟨hmem, hopen⟩
  · exact .inl rfl

theorem isOpen_concat_finish (hfinish : event.scopeCategory = some .finish)
    (h : IsOpen (events ++ [event]) uuid) : uuid ≠ event.uuid ∧ IsOpen events uuid := by
  obtain ⟨hmem, hopen⟩ := h
  rw [starts_concat_finish (isStart_of_finish hfinish)] at hmem
  rw [endOf_concat_finish (isStart_of_finish hfinish), Option.or_eq_none_iff] at hopen
  refine ⟨?_, hmem, hopen.1⟩
  rintro rfl
  simp [callPairing] at hopen

namespace RunAccumulator

theorem processEvent_call {accumulator : RunAccumulator} (runId : Uuid) (hcall : event.IsCall) :
    (event.scopeCategory = some .start →
      accumulator.processEvent runId event = (accumulator.trackCallStart event, none)) ∧
    (event.scopeCategory = some .finish →
      accumulator.processEvent runId event = (accumulator.trackCallEnd event, none)) := by
  have htool : toScopeType "tool" = .tool := by decide
  have hllm : toScopeType "llm" = .llm := by decide
  rcases hcall with hcall | hcall <;> constructor <;> intro h <;>
    simp [processEvent, isRunBoundary, Event.scopeType, hcall, h, htool, hllm]

end RunAccumulator

open RunAccumulator

namespace Collects

variable {accumulator : RunAccumulator}

section

variable (h : Collects root events accumulator)
include h

theorem inferRootUuid_eq
    (hknown : (accumulator.eventRoots event.uuid).isSome = true ∨
      ∃ parent, event.parentUuid = some parent ∧ (accumulator.eventRoots parent).isSome = true) :
    accumulator.inferRootUuid event = some root := by
  rw [inferRootUuid]
  cases hself : accumulator.eventRoots event.uuid with
  | some root' => rw [Option.some_or, h.onlyRoot _ _ hself]
  | none =>
    rcases hknown with hknown | ⟨parent, hparent, hknown⟩
    · rw [hself] at hknown
      cases hknown
    · obtain ⟨root', hroot⟩ := Option.isSome_iff_exists.mp hknown
      rw [Option.none_or, hparent, Option.bind_some, hroot, h.onlyRoot _ _ hroot]

theorem start (hcall : event.IsCall)
    (hstart : event.scopeCategory = some .start) (hroot : event.uuid ≠ root)
    (hparent : event.parentUuid = some root ∨
      ∃ parent, event.parentUuid = some parent ∧ IsOpen events parent) :
    Collects root (events ++ [event]) (accumulator.trackCallStart event) := by
  have hinfer : accumulator.inferRootUuid event = some root := by
    refine h.inferRootUuid_eq (.inr ?_)
    rcases hparent with hparent | ⟨parent, hparent, hopen⟩
    · exact ⟨root, hparent, by rw [h.rootOf]; rfl⟩
    · exact ⟨parent, hparent, by rw [h.openOf parent hopen]; rfl⟩
  obtain ⟨run, hrun, hcalls⟩ := h.run
  have htrack : accumulator.trackCallStart event =
      (accumulator.setRoot event.uuid (some root)).setRun root
        (some { run with calls := run.calls ++ [render (event, none)] }) := by
    rw [trackCallStart, hinfer]
    simp only [eventToCallRecord_of_isCall hcall hstart, setRoot, hrun]
  rw [htrack]
  refine ⟨⟨_, update_self .., ?_⟩, ?_, ?_, ?_⟩
  · rw [run_concat_start (isStart_of_start hstart), map_append, ← hcalls]
    rfl
  · exact (update_of_ne hroot.symm _ _).trans h.rootOf
  · intro uuid hopen
    obtain rfl | hne := eq_or_ne uuid event.uuid
    · exact update_self ..
    · refine (update_of_ne hne _ _).trans (h.openOf uuid ?_)
      exact (isOpen_concat_start hstart hopen).resolve_left hne
  · exact eq_root_of_update h.onlyRoot (fun _ hroot => (Option.some.inj hroot).symm) _

theorem finish (hfinish : event.scopeCategory = some .finish) (hroot : event.uuid ≠ root)
    (hopen : IsOpen events event.uuid) :
    Collects root (events ++ [event]) (accumulator.trackCallEnd event) := by
  have hinfer : accumulator.inferRootUuid event = some root :=
    h.inferRootUuid_eq (.inl (by rw [h.openOf _ hopen]; rfl))
  obtain ⟨run, hrun, hcalls⟩ := h.run
  have htrack : accumulator.trackCallEnd event =
      (accumulator.setRun root (some { run with calls := closeOpenCall event run.calls })).setRoot
        event.uuid none := by
    rw [trackCallEnd, hinfer]
    simp only [hrun]
  rw [htrack]
  refine ⟨⟨_, update_self .., ?_⟩, ?_, ?_, ?_⟩
  · rw [run_concat_finish (isStart_of_finish hfinish), ← closeOpenCall_map_render, ← hcalls]
  · exact (update_of_ne hroot.symm _ _).trans h.rootOf
  · intro uuid hopen'
    obtain ⟨hne, hopen'⟩ := isOpen_concat_finish hfinish hopen'
    exact (update_of_ne hne _ _).trans (h.openOf uuid hopen')
  · exact eq_root_of_update h.onlyRoot (by simp) _

end

end Collects

/-! ### Whole runs -/

theorem OneRun.ne_root (h : OneRun root events)
    (hstarted : uuid ∈ (callPairing.starts events).map Event.uuid) : uuid ≠ root := by
  induction h with
  | nil => cases hstarted
  | start _ _ hstart hroot _ _ ih =>
    rw [starts_concat_start (isStart_of_start hstart), map_append, mem_append,
      map_singleton, mem_singleton] at hstarted
    rcases hstarted with hstarted | rfl
    · exact ih hstarted
    · exact hroot
  | finish _ _ hfinish _ ih =>
    rw [starts_concat_finish (isStart_of_finish hfinish)] at hstarted
    exact ih hstarted

namespace RunAccumulator

theorem processEvents_append (runIds : Event → Uuid) (accumulator : RunAccumulator)
    (first second : List Event) :
    accumulator.processEvents runIds (first ++ second) =
      let before := accumulator.processEvents runIds first
      let after := before.1.processEvents runIds second
      (after.1, before.2 ++ after.2) := by
  induction first generalizing accumulator with
  | nil => rfl
  | cons event first ih =>
    rw [cons_append, processEvents, processEvents, ih]
    simp only [append_assoc]

/-- No run is completed while its calls are collected. -/
theorem processEvents_calls (runIds : Event → Uuid) {accumulator : RunAccumulator}
    (hstart : Collects root [] accumulator) (h : OneRun root events) :
    (accumulator.processEvents runIds events).2 = [] ∧
      Collects root events (accumulator.processEvents runIds events).1 := by
  induction h with
  | nil => exact ⟨rfl, hstart⟩
  | start _ hcall hstarted hroot _ hparent ih =>
    rw [processEvents_append]
    simp only [processEvents, (processEvent_call _ hcall).1 hstarted, ih.1]
    exact ⟨rfl, ih.2.start hcall hstarted hroot hparent⟩
  | finish hevents hcall hfinish hopen ih =>
    rw [processEvents_append]
    simp only [processEvents, (processEvent_call _ hcall).2 hfinish, ih.1]
    exact ⟨rfl, ih.2.finish hfinish (hevents.ne_root hopen.1) hopen⟩

end RunAccumulator

/-- The scope events of the agent around a run. -/
structure RunBoundary (opening closing : Event) : Prop where
  opens : opening.category = some "agent" ∧ opening.scopeCategory = some .start
  closes : closing.category = some "agent" ∧ closing.scopeCategory = some .finish
  same : closing.uuid = opening.uuid

variable (agentId : String)

theorem collects_startRun (runId : Uuid) (opening : Event) :
    Collects opening.uuid [] ((new agentId).startRun runId opening) := by
  refine ⟨⟨_, update_self .., rfl⟩, update_self .., ?_, ?_⟩
  · rintro uuid ⟨hmem, -⟩
    cases hmem
  · exact eq_root_of_update (by simp [new]) (fun _ hroot => (Option.some.inj hroot).symm) _

variable {opening closing : Event}

/-- The record of a run: its starts with the ends that they are paired with by name. -/
theorem processEvents_run (runIds : Event → Uuid)
    (hboundary : RunBoundary opening closing) (h : OneRun opening.uuid events) :
    ∃ run, ((new agentId).processEvents runIds
        (opening :: events ++ [closing])).2 = [run] ∧
      run.calls = (callPairing.run events).map render := by
  have hagent : toScopeType "agent" = .agent := by decide
  have hopens : (new agentId).processEvent (runIds opening) opening =
      ((new agentId).startRun (runIds opening) opening, none) := by
    simp [processEvent, isRunBoundary, Event.scopeType, hboundary.opens, hagent]
  obtain ⟨hnone, hcollects⟩ := processEvents_calls runIds
    (collects_startRun agentId (runIds opening) opening) h
  obtain ⟨run, hrun, hcalls⟩ := hcollects.run
  have hcloses : ∀ accumulator : RunAccumulator,
      accumulator.processEvent (runIds closing) closing = accumulator.finishRun closing := by
    intro accumulator
    simp [processEvent, isRunBoundary, Event.scopeType, hboundary.closes, hagent]
  refine ⟨{ run with endedAt := some closing.timestamp }, ?_, hcalls⟩
  rw [cons_append, processEvents, hopens, processEvents_append]
  simp only [processEvents, hcloses, hnone, finishRun,
    hboundary.same, hcollects.rootOf, Option.getD_some, hrun]
  rfl

/-! ### Outcomes -/

/-- What a call record takes from an end. -/
structure CallOutcome where
  endedAt : Option Int
  outputTokens : Option (BitVec 32)
  promptTokens : Option (BitVec 32)
  totalTokens : Option (BitVec 32)
  deriving DecidableEq

def CallRecord.outcome (call : CallRecord) : CallOutcome :=
  ⟨call.endedAt, call.outputTokens, call.promptTokens, call.totalTokens⟩

/-- The token usage that an end reports. Only ends of LLM calls report any. -/
def Event.usage (event : Event) : Option Usage :=
  if event.category = some "llm" then event.annotatedResponse.bind (·.usage) else none

/-- The end time and the token usage of an end. -/
def endOutcome : Option Event → CallOutcome
  | none => ⟨none, none, none, none⟩
  | some event =>
    ⟨some event.timestamp, event.usage.bind fun usage => usage.completionTokens.map asU32,
      event.usage.bind fun usage => usage.promptTokens.map asU32,
      event.usage.bind fun usage => usage.totalTokens.map asU32⟩

theorem outcome_render : (render pair).outcome = endOutcome pair.2 := by
  obtain ⟨start, finish⟩ := pair
  cases finish with
  | none => rfl
  | some event =>
    simp only [render, closeCall, applyLlmEndMetadata, CallRecord.outcome, endOutcome, Event.usage]
    by_cases hllm : event.category = some "llm"
    · cases hresponse : event.annotatedResponse with
      | none => simp [startedCall]
      | some response => cases husage : response.usage <;> simp [hllm, husage, startedCall]
    · simp [hllm, startedCall]

/-- Every call takes its end time and token usage from the end with its own identifier. -/
def OutcomesByUuid (agentId : String) (runIds : Event → Uuid) (opening closing : Event)
    (events : List Event) : Prop :=
  ∃ run, ((RunAccumulator.new agentId).processEvents runIds
      (opening :: events ++ [closing])).2 = [run] ∧
    run.calls.map CallRecord.outcome = (callPairing.starts events).map fun start =>
      endOutcome (callPairing.endOf events start.uuid)

/-- The same event, but ends have the given times. -/
def retime (times : Uuid → Int) (event : Event) : Event :=
  if event.scopeCategory = some .start then event
  else { event with timestamp := times event.uuid }

variable (times : Uuid → Int)

theorem retime_eq (event : Event) :
    (retime times event).uuid = event.uuid ∧ (retime times event).name = event.name ∧
      (retime times event).scopeCategory = event.scopeCategory ∧
      (retime times event).category = event.category ∧
      (retime times event).parentUuid = event.parentUuid := by
  rw [retime]
  split <;> simp

theorem isStart_retime (event : Event) :
    callPairing.isStart (retime times event) = callPairing.isStart event := by
  simp [callPairing, (retime_eq times event).2.2.1]

theorem ident_retime (event : Event) :
    callPairing.ident (retime times event) = callPairing.ident event :=
  (retime_eq times event).1

theorem label_retime (event : Event) :
    callPairing.label (retime times event) = callPairing.label event :=
  (retime_eq times event).2.1

theorem started_retime (events : List Event) :
    (callPairing.starts (events.map (retime times))).map Event.uuid =
      (callPairing.starts events).map Event.uuid := by
  rw [starts_map (isStart_retime times), map_map]
  exact map_congr_left fun event _ => ident_retime times event

theorem isOpen_retime (h : IsOpen events uuid) : IsOpen (events.map (retime times)) uuid := by
  refine ⟨started_retime times events ▸ h.1, ?_⟩
  rw [endOf_map (isStart_retime times) (ident_retime times), h.2]
  rfl

theorem OneRun.retime (h : OneRun root events) (times : Uuid → Int) :
    OneRun root (events.map (Adaptive.retime times)) := by
  induction h with
  | nil => exact .nil
  | @start events event _ hcall hstart hroot hfresh hparent ih =>
    obtain ⟨huuid, -, hscope, hcategory, hparentUuid⟩ := retime_eq times event
    rw [map_append]
    refine ih.start ?_ (by rw [hscope, hstart]) (by rwa [huuid]) ?_ ?_
    · rwa [Event.IsCall, hcategory]
    · rwa [started_retime, huuid]
    · rw [hparentUuid]
      exact hparent.imp_right fun ⟨parent, hparent, hopen⟩ =>
        ⟨parent, hparent, isOpen_retime times hopen⟩
  | @finish events event _ hcall hfinish hopen ih =>
    obtain ⟨huuid, -, hscope, hcategory, -⟩ := retime_eq times event
    rw [map_append]
    refine ih.finish ?_ (by rw [hscope, hfinish]) (huuid ▸ isOpen_retime times hopen)
    rwa [Event.IsCall, hcategory]

/-- A run with calls paired by identifier has the outcomes by identifier. -/
theorem outcomesByUuid_iff (runIds : Event → Uuid)
    (hboundary : RunBoundary opening closing) (h : OneRun opening.uuid events) :
    OutcomesByUuid agentId runIds opening closing events ↔
      (callPairing.run events).map (endOutcome ∘ Prod.snd) =
        (callPairing.paired events).map (endOutcome ∘ Prod.snd) := by
  obtain ⟨run, hrun, hcalls⟩ := processEvents_run agentId runIds hboundary h
  have houtcomes : run.calls.map CallRecord.outcome =
      (callPairing.run events).map (endOutcome ∘ Prod.snd) := by
    rw [hcalls, map_map]
    exact map_congr_left fun pair _ => outcome_render pair
  have hpaired : (callPairing.paired events).map (endOutcome ∘ Prod.snd) =
      (callPairing.starts events).map fun start =>
        endOutcome (callPairing.endOf events start.uuid) := by
    rw [paired, map_map]
    rfl
  rw [OutcomesByUuid, hrun, hpaired]
  constructor
  · rintro ⟨run', hrun', houtcomes'⟩
    cases singleton_inj.mp hrun'
    rw [← houtcomes, houtcomes']
  · intro heq
    exact ⟨run, rfl, houtcomes.trans heq⟩

variable {times : Uuid → Int}

theorem timestamp_of_mem (hmem : event ∈ events.map (retime times))
    (hfinish : callPairing.isStart event = false) : event.timestamp = times event.uuid := by
  obtain ⟨original, -, rfl⟩ := mem_map.mp hmem
  have hstart : original.scopeCategory ≠ some .start := by
    rw [isStart_retime] at hfinish
    simpa [callPairing] using hfinish
  rw [retime, if_neg hstart]

/-- Ends at the same time are the same end, if every identifier has its own time. -/
theorem eq_of_timestamp_eq (h : OneRun root events) (htimes : Function.Injective times)
    {event' : Event} (hmem : event ∈ events.map (retime times))
    (hfinish : callPairing.isStart event = false) (hmem' : event' ∈ events.map (retime times))
    (hfinish' : callPairing.isStart event' = false) (heq : event.timestamp = event'.timestamp) :
    event = event' := by
  rw [timestamp_of_mem hmem hfinish, timestamp_of_mem hmem' hfinish'] at heq
  have huuid : callPairing.ident event = callPairing.ident event' := htimes heq
  have hend := (h.retime times).wellFormed.endOf_of_mem hmem hfinish
  rw [huuid, (h.retime times).wellFormed.endOf_of_mem hmem' hfinish'] at hend
  exact (Option.some_inj.mp hend).symm

/-- With one time for each identifier, the end times tell which end a call was paired with. -/
theorem run_eq_paired_of_outcomes (h : OneRun root events) (htimes : Function.Injective times)
    (houtcomes : (callPairing.run (events.map (retime times))).map (endOutcome ∘ Prod.snd) =
      (callPairing.paired (events.map (retime times))).map (endOutcome ∘ Prod.snd)) :
    callPairing.run (events.map (retime times)) =
      callPairing.paired (events.map (retime times)) := by
  have hstarts : (callPairing.run (events.map (retime times))).map Prod.fst =
      (callPairing.paired (events.map (retime times))).map Prod.fst := by
    rw [map_fst_run, paired, map_map]
    exact (map_id _).symm
  have hlength := congrArg List.length hstarts
  rw [length_map, length_map] at hlength
  refine ext_getElem hlength fun i hi hi' => ?_
  have hstart := getElem_of_eq hstarts (by simpa using hi)
  have houtcome := getElem_of_eq houtcomes (by simpa using hi)
  rw [getElem_map, getElem_map] at hstart houtcome
  have hrun := getElem_mem hi
  have hpaired := getElem_mem hi'
  generalize (callPairing.run _)[i] = pair at hstart houtcome hrun ⊢
  generalize (callPairing.paired _)[i] = pair' at hstart houtcome hpaired ⊢
  obtain ⟨start, finish⟩ := pair
  obtain ⟨start', finish'⟩ := pair'
  obtain rfl : start = start' := hstart
  obtain ⟨start', -, hpair⟩ := mem_map.mp hpaired
  obtain ⟨rfl, hend⟩ := Prod.mk.inj hpair
  cases finish with
  | none =>
    cases finish' with
    | none => rfl
    | some event' => cases congrArg CallOutcome.endedAt houtcome
  | some event =>
    cases finish' with
    | none => cases congrArg CallOutcome.endedAt houtcome
    | some event' =>
      have htime : event.timestamp = event'.timestamp :=
        Option.some_inj.mp (congrArg CallOutcome.endedAt houtcome)
      obtain ⟨hmem, hfinish⟩ := mem_of_mem_run hrun
      obtain ⟨hmem', hfinish'⟩ := endOf_eq_some hend
      rw [eq_of_timestamp_eq h htimes hmem hfinish hmem' hfinish' htime]

/-- Whatever the end times are, every call takes its end time and token usage from the end with its
own identifier: this holds exactly if at every end the last open call with its name is its own. -/
theorem outcomes_iff_nested (agentId : String) (runIds : Event → Uuid) {opening closing : Event}
    (hboundary : RunBoundary opening closing) {events : List Event}
    (h : OneRun opening.uuid events) :
    (∀ times, OutcomesByUuid agentId runIds opening closing (events.map (retime times))) ↔
      callPairing.Nested events := by
  constructor
  · intro hall
    have hinjective : Function.Injective fun uuid : Uuid => (uuid.toNat : Int) := fun a b hab =>
      BitVec.eq_of_toNat_eq (Int.ofNat_inj.mp hab)
    have houtcomes := (outcomesByUuid_iff agentId runIds hboundary (h.retime _)).mp
      (hall fun uuid => uuid.toNat)
    have hnested := (run_eq_paired_iff (h.retime _).wellFormed).mp
      (run_eq_paired_of_outcomes h hinjective houtcomes)
    exact (nested_map (isStart_retime _) (ident_retime _) (label_retime _)).mp hnested
  · intro hnested times
    refine (outcomesByUuid_iff agentId runIds hboundary (h.retime times)).mpr ?_
    rw [(run_eq_paired_iff (h.retime times).wellFormed).mpr]
    exact (nested_map (isStart_retime _) (ident_retime _) (label_retime _)).mpr hnested

/-- An LLM event of a call below the scope `1`. -/
def llmEvent (uuid : Uuid) (name : String) (scopeCategory : ScopeCategory) (timestamp : Int) :
    Event :=
  ⟨uuid, some 1, name, timestamp, some scopeCategory, some "llm", none, none⟩

/-- The opening and the closing event of an agent scope. -/
def agentEvent (scopeCategory : ScopeCategory) (timestamp : Int) : Event :=
  ⟨1, none, "agent", timestamp, some scopeCategory, some "agent", none, none⟩

theorem runBoundary_agentEvent : RunBoundary (agentEvent .start 0) (agentEvent .finish 9) :=
  ⟨⟨rfl, rfl⟩, ⟨rfl, rfl⟩, rfl⟩

/-- Two calls of one name, and the order in which they end. -/
def twoCalls (first second : Uuid) : List Event :=
  [llmEvent 2 "chat" .start 1] ++ [llmEvent 3 "chat" .start 2] ++ [llmEvent first "chat" .finish 3]
    ++ [llmEvent second "chat" .finish 4]

theorem oneRun_twoCalls {first second : Uuid}
    (h : (first, second) = (2, 3) ∨ (first, second) = (3, 2)) :
    OneRun 1 (twoCalls first second) := by
  have hfirst : OneRun 1 [llmEvent 2 "chat" .start 1] :=
    OneRun.nil.start (.inl rfl) rfl (by decide) (by decide) (.inl rfl)
  have hstarts : OneRun 1 ([llmEvent 2 "chat" .start 1] ++ [llmEvent 3 "chat" .start 2]) :=
    hfirst.start (.inl rfl) rfl (by decide) (by decide) (.inl rfl)
  obtain h | h := h <;> cases h
  all_goals
    exact (hstarts.finish (.inl rfl) rfl ⟨by decide, by decide⟩).finish (.inl rfl) rfl
      ⟨by decide, by decide⟩

/-- The second call ends first. -/
theorem outcomes_iff_nested_inner :
    OneRun 1 (twoCalls 3 2) ∧
      ((∀ times, OutcomesByUuid "agent" (fun _ => 0) (agentEvent .start 0) (agentEvent .finish 9)
        ((twoCalls 3 2).map (retime times))) ↔ callPairing.Nested (twoCalls 3 2)) :=
  have hrun := oneRun_twoCalls (.inr rfl)
  ⟨hrun, outcomes_iff_nested "agent" (fun _ => 0) runBoundary_agentEvent hrun⟩

/-- Two overlapping calls of one name: each takes the end of the other. -/
theorem outcomes_of_overlapping_calls :
    RunBoundary (agentEvent .start 0) (agentEvent .finish 9) ∧ OneRun 1 (twoCalls 2 3) ∧
      ¬ OutcomesByUuid "agent" (fun _ => 0) (agentEvent .start 0) (agentEvent .finish 9)
        (twoCalls 2 3) := by
  have hrun := oneRun_twoCalls (.inl rfl)
  refine ⟨runBoundary_agentEvent, hrun, ?_⟩
  rw [outcomesByUuid_iff "agent" (fun _ => 0) runBoundary_agentEvent hrun]
  decide

end NemoRelay.Adaptive

import NemoRelay.Lib.OrderedMap
import NemoRelay.Lib.Transition
import NemoRelay.Optimization.Contribution

/-!
# The optimization recorder

Contributions to one call are recorded from several threads. A record reserves an attempt, measures
its contribution outside the lock under the sequence number that is next, and commits it if the
number is still next; otherwise it starts over. Finishing closes the recorder, waits until no
attempt is in flight, and hands the contributions over.

Each critical section is a function on the state under the lock. `Recorder.system` interleaves
them: a record call is the phase it is in, and a finish call is pending or has returned. The size
of a serialized contribution, the clock and the identifiers come from outside. A poisoned lock is
left out.
-/

namespace NemoRelay

def maxLlmOptimizationContributions : Nat := 64

def maxLlmOptimizationTotalContributionBytes : Nat := 256 * 1024

def maxLlmOptimizationContributionAttempts : Nat := 64

inductive SerializedSizeError
  | limitExceeded
  | serialization

/-- `bounded_json_size` of a contribution, for the limit of one contribution. -/
abbrev SizeOf := LlmOptimizationContribution → Except SerializedSizeError Nat

structure AccumulatorState where
  contributions : List LlmOptimizationContribution
  recordedAt : List Nat
  totalContributionBytes : Nat
  attemptedContributions : Nat
  inFlightRecords : Nat
  emitted : Nat
  closed : Bool
  finished : Bool
  limitations : OrderedMap String Unit
  contributionLimitExceeded : Bool
  invalidPayloadSchema : Bool

namespace AccumulatorState

def new : AccumulatorState where
  contributions := []
  recordedAt := []
  totalContributionBytes := 0
  attemptedContributions := 0
  inFlightRecords := 0
  emitted := 0
  closed := false
  finished := false
  limitations := .empty
  contributionLimitExceeded := false
  invalidPayloadSchema := false

variable (state : AccumulatorState)

def sealForContributionLimit : AccumulatorState :=
  { state with contributionLimitExceeded := true, closed := true }

/-- The flag says whether an attempt was reserved. -/
def reserveRecordAttempt : Bool × AccumulatorState :=
  if state.closed then (false, state)
  else if maxLlmOptimizationContributionAttempts ≤ state.attemptedContributions then
    (false, state.sealForContributionLimit)
  else
    (true, { state with
      attemptedContributions := state.attemptedContributions + 1
      inFlightRecords := state.inFlightRecords + 1 })

/-- What `next_contribution_sequence` finds. It notes that the recorder is full in a critical
section of its own. -/
inductive NextSequence
  | closed
  | full
  | next (sequence : Nat)

def nextContributionSequence : NextSequence :=
  if state.closed then .closed
  else if maxLlmOptimizationContributions ≤ state.contributions.length then .full
  else .next state.contributions.length

inductive ContributionCommit
  | committed
  | retry
  | rejected

def commitContribution (contribution : LlmOptimizationContribution)
    (contributionBytes sequence now : Nat) : ContributionCommit × AccumulatorState :=
  if state.closed then (.rejected, state)
  else if state.contributions.length ≠ sequence then (.retry, state)
  else if maxLlmOptimizationTotalContributionBytes <
      state.totalContributionBytes + contributionBytes then
    (.rejected, state.sealForContributionLimit)
  else
    (.committed, { state with
      totalContributionBytes := state.totalContributionBytes + contributionBytes
      contributions := state.contributions ++ [contribution]
      recordedAt := state.recordedAt ++ [now] })

def noteInvalidPayloadSchema : AccumulatorState :=
  if state.finished then state else { state with invalidPayloadSchema := true }

def noteContributionLimitExceeded : AccumulatorState :=
  if state.finished then state else state.sealForContributionLimit

/-- Dropping an attempt. -/
def settleRecord : AccumulatorState :=
  { state with inFlightRecords := state.inFlightRecords - 1 }

def markEmitted (count : Nat) : AccumulatorState :=
  { state with emitted := min (state.emitted + count) state.contributions.length }

def hasEvidence : Bool :=
  !state.contributions.isEmpty || !state.limitations.isEmpty || state.contributionLimitExceeded ||
    state.invalidPayloadSchema

def closeForFinalization (conditionalLimitation : Option String) : Bool × AccumulatorState :=
  if state.finished then (false, state)
  else
    let limitations :=
      match conditionalLimitation with
      | some limitation =>
        if state.hasEvidence then state.limitations.insert limitation () else state.limitations
      | none => state.limitations
    (state.hasEvidence, { state with limitations, closed := true })

/-- What the recorder reports when it finishes. -/
def finalLimitations : List String :=
  state.limitations.keys ++
    (if state.contributionLimitExceeded then ["contribution_limit_exceeded"] else []) ++
    (if state.invalidPayloadSchema then ["invalid_contribution_payload_schema"] else [])

/-- One turn of `finish` with the lock: when it is called, and whenever it wakes. The recorder is
closed already when it wakes. `none` if it goes on waiting. -/
def finishTurn : Option FinishedContributions × AccumulatorState :=
  if state.finished then (some ⟨[], []⟩, state)
  else if 0 < state.inFlightRecords then (none, { state with closed := true })
  else
    (some ⟨state.contributions, state.finalLimitations⟩, { state with
      closed := true
      finished := true
      limitations := .empty
      contributionLimitExceeded := false
      invalidPayloadSchema := false
      recordedAt := []
      contributions := [] })

end AccumulatorState

/-! ### Record calls -/

/-- What a contribution is rejected for, besides a closed recorder. -/
inductive Rejection
  | payloadSchema
  | limit
  deriving DecidableEq

def Rejection.limitation : Rejection → String
  | payloadSchema => "invalid_contribution_payload_schema"
  | limit => "contribution_limit_exceeded"

/-- What a record call does next. -/
inductive RecordPhase
  | reserving
  | noting (rejection : Rejection)
  | sequencing
  | committing (contributionBytes sequence : Nat)
  | settling (committed : Bool)
  | returned (committed : Bool)

/-- `recorded`, `retries` and `rejection` are there for the statements about a call. -/
structure RecordCall where
  id : String
  contribution : LlmOptimizationContribution
  phase : RecordPhase
  retries : Nat
  rejection : Option Rejection
  recorded : LlmOptimizationContribution

namespace RecordCall

def new (id : String) (contribution : LlmOptimizationContribution) : RecordCall :=
  ⟨id, contribution, .reserving, 0, none, contribution⟩

variable (call : RecordCall)

/-- The call has an attempt that is not settled. -/
def inFlight : Bool :=
  match call.phase with
  | .reserving | .returned _ => false
  | .noting _ | .sequencing | .committing .. | .settling _ => true

/-- The contribution of the call was committed. -/
def committed (call : RecordCall) : Bool :=
  match call.phase with
  | .settling committed | .returned committed => committed
  | .reserving | .noting _ | .sequencing | .committing .. => false

/-- A call changes the id and the sequence number of what it records. -/
def AsRecorded : Prop :=
  ∃ id sequence, call.contribution = { call.recorded with id, sequence }

def reject (rejection : Rejection) : RecordCall :=
  { call with phase := .noting rejection, rejection := some rejection }

def payloadSchemaIsValid (contribution : LlmOptimizationContribution) : Bool :=
  !(contribution.payload.isSome && contribution.payloadSchema.isNone)

/-- After an attempt was reserved. -/
def start : RecordCall :=
  if payloadSchemaIsValid call.contribution then
    { call with phase := .sequencing, contribution.id := some call.id }
  else call.reject .payloadSchema

/-- The contribution under a sequence number, measured outside the lock. -/
def withSequence (sizeOf : SizeOf) (call : RecordCall) (sequence : Nat) : RecordCall :=
  let contribution := { call.contribution with sequence := some sequence }
  match sizeOf contribution with
  | .ok contributionBytes =>
    { call with contribution, phase := .committing contributionBytes sequence }
  | .error .limitExceeded => reject { call with contribution } .limit
  | .error .serialization => reject { call with contribution } .payloadSchema

/-- The next critical section of a call, with what it does until the one after. -/
def advance (sizeOf : SizeOf) (now : Nat) (state : AccumulatorState) (call : RecordCall) :
    Option (AccumulatorState × RecordCall) :=
  match call.phase with
  | .reserving =>
    match state.reserveRecordAttempt with
    | (true, state) => some (state, call.start)
    | (false, state) => some (state, { call with phase := .returned false })
  | .noting .payloadSchema =>
    some (state.noteInvalidPayloadSchema, { call with phase := .settling false })
  | .noting .limit =>
    some (state.noteContributionLimitExceeded, { call with phase := .settling false })
  | .sequencing =>
    match state.nextContributionSequence with
    | .closed => some (state, { call with phase := .settling false })
    | .full => some (state, call.reject .limit)
    | .next sequence => some (state, call.withSequence sizeOf sequence)
  | .committing contributionBytes sequence =>
    match state.commitContribution call.contribution contributionBytes sequence now with
    | (.committed, next) => some (next, { call with phase := .settling true })
    | (.retry, next) => some (next, { call with phase := .sequencing, retries := call.retries + 1 })
    | (.rejected, next) =>
      some (next, { call with
        phase := .settling false
        rejection := if state.closed then call.rejection else some .limit })
  | .settling committed => some (state.settleRecord, { call with phase := .returned committed })
  | .returned _ => none

end RecordCall

/-! ### Interleavings -/

structure Recorder where
  accumulator : AccumulatorState
  records : List RecordCall
  /-- A finish call that has not returned is `none`. -/
  finishes : List (Option FinishedContributions)
  /-- The calls in the order of their commits, with what they committed. -/
  commits : List (Nat × LlmOptimizationContribution)
  /-- The finish calls in the order in which they returned, with what they returned. -/
  returns : List (Nat × FinishedContributions)

namespace Recorder

inductive Action
  | record (id : String) (contribution : LlmOptimizationContribution)
  | advance (index now : Nat)
  | finish
  | wake (index : Nat)
  | markEmitted (count : Nat)
  | closeForFinalization (conditionalLimitation : Option String)

def new : Recorder := ⟨.new, [], [], [], []⟩

/-- A commit is logged when a call that had not committed has. -/
def advanceCall (sizeOf : SizeOf) (s : Recorder) (index now : Nat) : Option Recorder := do
  let call ← s.records[index]?
  let (accumulator, next) ← call.advance sizeOf now s.accumulator
  return { s with
    accumulator
    records := s.records.set index next
    commits :=
      if next.committed && !call.committed then s.commits ++ [(index, next.contribution)]
      else s.commits }

def wakeFinish (s : Recorder) (index : Nat) : Option Recorder :=
  match s.finishes[index]? with
  | some none =>
    match s.accumulator.finishTurn with
    | (some result, accumulator) =>
      some { s with
        accumulator
        finishes := s.finishes.set index (some result)
        returns := s.returns ++ [(index, result)] }
    | (none, accumulator) => some { s with accumulator }
  | _ => none

def step (sizeOf : SizeOf) (s : Recorder) : Action → Option Recorder
  | .record id contribution => some { s with records := s.records ++ [.new id contribution] }
  | .advance index now => s.advanceCall sizeOf index now
  | .finish => some { s with finishes := s.finishes ++ [none] }
  | .wake index => s.wakeFinish index
  | .markEmitted count => some { s with accumulator := s.accumulator.markEmitted count }
  | .closeForFinalization conditionalLimitation =>
    some { s with accumulator := (s.accumulator.closeForFinalization conditionalLimitation).2 }

def system (sizeOf : SizeOf) : System Recorder Action := ⟨(· = .new), step sizeOf⟩

end Recorder

end NemoRelay

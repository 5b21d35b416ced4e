import Mathlib.Data.List.Basic

/-!
# The streaming response wrapper

`LlmStreamWrapper` hands the chunks of a provider's stream to its consumer once a collector has
accepted them, and emits one end event. An asynchronous collector may keep a chunk waiting, an
asynchronous finalizer the end. The answers of the stream, the collector and the finalizer are
arguments of an operation; a close that is abandoned is one whose answer never comes.

`History` records what the wrapper was given and emitted; no function reads it. What a consumer
was handed is collected from the results of its calls.
-/

namespace NemoRelay.Stream

open scoped List

inductive StreamTermination
  | complete
  | failed
  | dropped

inductive LlmFinalizer
  | sync
  | fallible
  | async
deriving DecidableEq

inductive Poll (α : Type)
  | pending
  | ready (value : α)

@[simp]
def Poll.item {α : Type} : Poll (Option α) → Option α
  | .pending => none
  | .ready item => item

/-- `failed` has the errors of the stream and the collector, and the one a cleanup ends a close
with. -/
structure History (C E : Type) where
  received : List C := []
  accepted : List C := []
  failed : List E := []
  emitted : List StreamTermination := []

structure LlmStreamWrapper (C E : Type) where
  finalizer : Option LlmFinalizer
  pendingCollector : Option C := none
  pendingEnd : Bool := false
  ended : Bool := false
  closeResult : Option (Except E Unit) := none
  undeliveredError : Option E := none
  history : History C E := {}

/-- A synchronous collector is never pending. -/
structure PollAnswers (C E : Type) where
  inner : Poll (Option (Except E C))
  collector : Poll (Except E Unit)
  endReady : Bool

/-- Without an answer the close is abandoned where it waits for it. -/
structure CloseAnswers (E : Type) where
  cleanup : Option (Except E Unit)
  collecting : Option (Except E Unit)
  endReady : Bool

inductive Operation (C E : Type)
  | pollNext (answers : PollAnswers C E)
  | close (answers : CloseAnswers E)

@[simp]
def chunksOf {C E : Type} : Option (Except E C) → List C
  | some (.ok chunk) => [chunk]
  | _ => []

@[simp]
def errorsOf {C E : Type} : Option (Except E C) → List E
  | some (.error error) => [error]
  | _ => []

/-- The errors of closes are those of the first close that completes. -/
structure Consumer (C E : Type) where
  wrapper : LlmStreamWrapper C E
  returned : List C := []
  reported : List E := []

namespace LlmStreamWrapper

variable {C E : Type} (finalizer : LlmFinalizer)

def new : LlmStreamWrapper C E := { finalizer := some finalizer }

/-! ### The end -/

section Operations

variable (s : LlmStreamWrapper C E)

def emitEndEvent (termination : StreamTermination) : LlmStreamWrapper C E :=
  { s with
    finalizer := none
    pendingEnd := s.pendingEnd || s.finalizer = some .async
    history.emitted := s.history.emitted ++ [termination] }

def finishAs (termination : StreamTermination) : LlmStreamWrapper C E :=
  if s.ended then s else emitEndEvent { s with ended := true } termination

def finish : LlmStreamWrapper C E := s.finishAs .dropped

def finishCleanly : LlmStreamWrapper C E := s.finishAs .complete

def finishWithError : LlmStreamWrapper C E := s.finishAs .failed

/-- An error of the stream or the collector. -/
def fail (error : E) : LlmStreamWrapper C E :=
  { s.finishWithError with
    undeliveredError := some error
    history.failed := s.finishWithError.history.failed ++ [error] }

/-- The end was waited for, and the error is taken to be reported. -/
def takeError : LlmStreamWrapper C E :=
  { s with
    pendingEnd := false
    undeliveredError := none }

/-! ### Operations -/

def pollEnded (endReady : Bool) : Poll (Option (Except E C)) × LlmStreamWrapper C E :=
  if s.pendingEnd && !endReady then (.pending, s)
  else (.ready (s.undeliveredError.map .error), s.takeError)

def pollCollector (chunk : C) (answers : PollAnswers C E) :
    Poll (Option (Except E C)) × LlmStreamWrapper C E :=
  match answers.collector with
  | .pending => (.pending, { s with pendingCollector := some chunk })
  | .ready (.ok ()) =>
    (.ready (some (.ok chunk)), { s with
      pendingCollector := none
      history.accepted := s.history.accepted ++ [chunk] })
  | .ready (.error error) =>
    (fail { s with pendingCollector := none } error).pollEnded answers.endReady

def pollNext (answers : PollAnswers C E) : Poll (Option (Except E C)) × LlmStreamWrapper C E :=
  match s.pendingCollector with
  | some chunk => s.pollCollector chunk answers
  | none =>
    if s.ended then s.pollEnded answers.endReady
    else
      match answers.inner with
      | .ready (some (.ok chunk)) =>
        pollCollector { s with history.received := s.history.received ++ [chunk] } chunk answers
      | .ready (some (.error error)) => (s.fail error).pollEnded answers.endReady
      | .ready none => s.finishCleanly.pollEnded answers.endReady
      | .pending => (.pending, s)

def closeEnd (cleanup : Except E Unit) (endReady : Bool) :
    Option (Except E Unit) × LlmStreamWrapper C E :=
  let s := s.finish
  if s.pendingEnd && !endReady then (none, { s with pendingEnd := false })
  else
    let result := (s.undeliveredError.map .error).getD cleanup
    let uncleaned := if s.undeliveredError.isSome then [] else errorsOf (some cleanup)
    (some result, { s.takeError with
      closeResult := some result
      history.failed := s.history.failed ++ uncleaned })

def close (answers : CloseAnswers E) : Option (Except E Unit) × LlmStreamWrapper C E :=
  match s.closeResult, answers.cleanup with
  | some result, _ => (some result, s)
  | none, none => (none, s)
  | none, some cleanup =>
    let settled := { s with pendingCollector := none }
    match s.pendingCollector, answers.collecting with
    | none, _ => s.closeEnd cleanup answers.endReady
    | some _, none => (none, settled)
    | some chunk, some (.ok ()) =>
      closeEnd { settled with history.accepted := s.history.accepted ++ [chunk] } cleanup
        answers.endReady
    | some _, some (.error error) => (settled.fail error).closeEnd cleanup answers.endReady

def drop : LlmStreamWrapper C E := s.finish

end Operations

def step (c : Consumer C E) : Operation C E → Consumer C E
  | .pollNext answers =>
    let (polled, wrapper) := c.wrapper.pollNext answers
    ⟨wrapper, c.returned ++ chunksOf polled.item, c.reported ++ errorsOf polled.item⟩
  | .close answers =>
    let (closed, wrapper) := c.wrapper.close answers
    let errors := if c.wrapper.closeResult.isSome then [] else errorsOf closed
    ⟨wrapper, c.returned, c.reported ++ errors⟩

def run (operations : List (Operation C E)) : Consumer C E :=
  operations.foldl step { wrapper := new finalizer }

/-! ### The invariant -/

structure Sound (returned : List C) (reported : List E) (s : LlmStreamWrapper C E) : Prop where
  returned : returned <+ s.history.accepted
  accepted : s.history.accepted ++ s.pendingCollector.toList <+ s.history.received
  ended : s.ended = true → s.pendingCollector = none
  emitted : s.history.emitted.length = s.ended.toNat
  reported : reported ++ s.undeliveredError.toList <+ s.history.failed
  closed : s.closeResult.isSome = true → s.ended = true

/-- After a poll whose result has been handed over. -/
abbrev Polled (returned : List C) (reported : List E)
    (polled : Poll (Option (Except E C)) × LlmStreamWrapper C E) : Prop :=
  Sound (returned ++ chunksOf polled.1.item) (reported ++ errorsOf polled.1.item) polled.2

abbrev Closed (returned : List C) (reported : List E)
    (closed : Option (Except E Unit) × LlmStreamWrapper C E) : Prop :=
  Sound returned (reported ++ errorsOf closed.1) closed.2

variable {returned : List C} {reported : List E} {s : LlmStreamWrapper C E}

theorem ended_finishAs (termination : StreamTermination) :
    (s.finishAs termination).ended = true := by
  cases hended : s.ended <;> simp [finishAs, emitEndEvent, hended]

theorem ended_closeEnd (cleanup : Except E Unit) (endReady : Bool) :
    (s.closeEnd cleanup endReady).2.ended = true := by
  unfold closeEnd
  dsimp only
  split <;> exact ended_finishAs _

section

variable (h : Sound returned reported s)
include h

theorem Sound.emitted_finishAs (termination : StreamTermination) :
    (s.finishAs termination).history.emitted.length = 1 := by
  have hemitted := h.emitted
  cases hended : s.ended <;> simp_all [LlmStreamWrapper.finishAs, emitEndEvent]

theorem Sound.finishAs (hidle : s.pendingCollector = none) (termination : StreamTermination) :
    Sound returned reported (s.finishAs termination) := by
  have hemitted := h.emitted_finishAs termination
  revert hemitted
  unfold LlmStreamWrapper.finishAs
  split
  · exact fun _ => h
  · exact fun hemitted =>
      { h with ended := fun _ => hidle, emitted := hemitted, closed := fun _ => rfl }

theorem Sound.fail (hidle : s.pendingCollector = none) (error : E) :
    Sound returned reported (s.fail error) := by
  have hfinished : Sound returned reported s.finishWithError := h.finishAs hidle .failed
  refine { hfinished with reported := ?_ }
  exact ((List.sublist_append_left _ _).trans hfinished.reported).append_right [error]

theorem Sound.polledPending : Polled returned reported (.pending, s) := by
  simpa [Polled] using h

theorem Sound.pollEnded (endReady : Bool) :
    Polled returned reported (s.pollEnded endReady) := by
  unfold LlmStreamWrapper.pollEnded
  split
  · exact h.polledPending
  · have hreturned := h.returned
    have hreported := h.reported
    cases herror : s.undeliveredError <;>
      exact { h with
        returned := by simpa [takeError] using hreturned
        reported := by simpa [takeError, herror] using hreported }

/-- The waiting chunk is dropped. -/
theorem Sound.settled : Sound returned reported { s with pendingCollector := none } :=
  { h with
    accepted := by simpa using (List.sublist_append_left _ _).trans h.accepted
    ended := fun _ => rfl }

variable (answers : PollAnswers C E)

theorem Sound.pollCollector {chunk : C} (hopen : s.ended = false)
    (hchunk : s.history.accepted ++ [chunk] <+ s.history.received) :
    Polled returned reported (s.pollCollector chunk answers) := by
  unfold LlmStreamWrapper.pollCollector
  split
  · refine Sound.polledPending { h with accepted := hchunk, ended := fun hended => ?_ }
    exact absurd hended (by simp [hopen])
  · exact { h with
      returned := h.returned.append_right [chunk]
      accepted := by simpa using hchunk
      ended := fun _ => rfl
      reported := by simpa using h.reported }
  · exact (h.settled.fail rfl _).pollEnded _

theorem Sound.pollNext : Polled returned reported (s.pollNext answers) := by
  unfold LlmStreamWrapper.pollNext
  cases hpending : s.pendingCollector with
  | some chunk =>
    have hopen : s.ended = false := by
      by_contra hended
      simp [h.ended (by simpa using hended)] at hpending
    exact h.pollCollector answers hopen (by simpa [hpending] using h.accepted)
  | none =>
    have haccepted : s.history.accepted <+ s.history.received := by
      simpa [hpending] using h.accepted
    simp only
    split
    · exact h.pollEnded _
    · rename_i hopen
      split
      · rename_i chunk _
        have hreceived : Sound returned reported
            { s with history.received := s.history.received ++ [chunk] } :=
          { h with accepted := h.accepted.trans (List.sublist_append_left _ _) }
        exact hreceived.pollCollector answers (by simpa using hopen)
          (haccepted.append_right [chunk])
      · exact (h.fail hpending _).pollEnded _
      · exact (h.finishAs hpending _).pollEnded _
      · exact h.polledPending

theorem Sound.closeEnd (hidle : s.pendingCollector = none) (cleanup : Except E Unit)
    (endReady : Bool) : Closed returned reported (s.closeEnd cleanup endReady) := by
  have hfinished : Sound returned reported s.finish := h.finishAs hidle .dropped
  have hreported := hfinished.reported
  unfold LlmStreamWrapper.closeEnd
  dsimp only
  split
  · exact { hfinished with reported := by simpa using hreported }
  · refine { hfinished with reported := ?_, closed := fun _ => ended_finishAs _ }
    cases herror : s.finish.undeliveredError with
    | none | some error => simpa [herror, takeError] using hreported

end

theorem pendingCollector_fail (error : E) :
    (s.fail error).pendingCollector = s.pendingCollector := by
  simp only [fail, finishWithError, finishAs]
  split <;> rfl

theorem Sound.close (h : Sound returned reported s) (hopen : s.closeResult = none)
    (answers : CloseAnswers E) : Closed returned reported (s.close answers) := by
  unfold LlmStreamWrapper.close
  split
  · simp_all
  · simpa [Closed] using h
  · split
    · rename_i hidle
      exact h.closeEnd hidle _ _
    · simpa [Closed] using h.settled
    · rename_i chunk hpending _
      have haccepted : Sound returned reported { s with
          pendingCollector := none, history.accepted := s.history.accepted ++ [chunk] } :=
        { h with
          returned := h.returned.trans (List.sublist_append_left _ _)
          accepted := by simpa [hpending] using h.accepted
          ended := fun _ => rfl }
      exact haccepted.closeEnd rfl _ _
    · exact (h.settled.fail rfl _).closeEnd (pendingCollector_fail _) _ _

theorem close_of_closeResult {result : Except E Unit} (hresult : s.closeResult = some result)
    (answers : CloseAnswers E) : s.close answers = (some result, s) := by
  simp [close, hresult]

theorem closeResult_close {result : Except E Unit} {answers : CloseAnswers E} :
    (s.close answers).1 = some result → (s.close answers).2.closeResult = some result := by
  have hend (s : LlmStreamWrapper C E) (cleanup endReady) :
      (s.closeEnd cleanup endReady).1 = some result →
        (s.closeEnd cleanup endReady).2.closeResult = some result := by
    unfold closeEnd
    dsimp only
    split
    · exact nofun
    · exact id
  unfold close
  split
  · rename_i hclosed
    exact hclosed.trans
  · exact nofun
  · split
    · exact hend _ _ _
    · exact nofun
    · exact hend _ _ _
    · exact hend _ _ _

/-! ### Runs -/

abbrev SoundConsumer (c : Consumer C E) : Prop := Sound c.returned c.reported c.wrapper

section

variable {c : Consumer C E} (h : SoundConsumer c) (operation : Operation C E)
include h

theorem SoundConsumer.step : SoundConsumer (step c operation) := by
  cases operation with
  | pollNext answers => exact h.pollNext answers
  | close answers =>
    cases hclosed : c.wrapper.closeResult with
    | none =>
      simpa [LlmStreamWrapper.step, SoundConsumer, Closed, hclosed] using h.close hclosed answers
    | some result =>
      simpa [LlmStreamWrapper.step, hclosed, close_of_closeResult hclosed] using h

/-- An ended stream stays ended, returns nothing more and keeps the result of its close. -/
theorem SoundConsumer.step_of_ended (hended : c.wrapper.ended = true) :
    let c' := LlmStreamWrapper.step c operation
    c'.wrapper.ended = true ∧ c'.returned = c.returned ∧
    ∀ result ∈ c.wrapper.closeResult, c'.wrapper.closeResult = some result := by
  have hidle := h.ended hended
  cases operation with
  | pollNext answers =>
    simp only [LlmStreamWrapper.step, pollNext, hidle, hended, if_true, pollEnded]
    split
    · exact ⟨hended, List.append_nil _, fun _ => id⟩
    · refine ⟨hended, ?_, fun _ => id⟩
      cases c.wrapper.undeliveredError <;> exact List.append_nil _
  | close answers =>
    refine ⟨?_, rfl, fun result hclosed => ?_⟩
    · simp only [LlmStreamWrapper.step, close, hidle]
      split
      · exact hended
      · exact hended
      · exact ended_closeEnd _ _
    · simpa [LlmStreamWrapper.step, close_of_closeResult hclosed] using hclosed

theorem SoundConsumer.foldl_of_ended (hended : c.wrapper.ended = true)
    (later : List (Operation C E)) :
    let c' := later.foldl LlmStreamWrapper.step c
    c'.returned = c.returned ∧
    ∀ result ∈ c.wrapper.closeResult, c'.wrapper.closeResult = some result := by
  induction later generalizing c with
  | nil => exact ⟨rfl, fun _ => id⟩
  | cons operation later ih =>
    obtain ⟨hended', hreturned, hclosed⟩ := h.step_of_ended operation hended
    obtain ⟨hreturned', hclosed'⟩ := ih (h.step operation) hended'
    exact ⟨hreturned'.trans hreturned, fun result hresult => hclosed' _ (hclosed _ hresult)⟩

end

variable (operations later : List (Operation C E))

theorem sound_run : SoundConsumer (run finalizer operations) := by
  refine List.foldlRecOn operations step ?_ fun _ hs operation _ => hs.step operation
  exact ⟨.slnil, .slnil, nofun, rfl, .slnil, nofun⟩

/-- Every run of polls and closes, some of them abandoned. One end event has been emitted once the
wrapper is dropped; chunks are returned in the order of the stream, after the collector accepted
them, and none once the stream has ended; every error is reported at most once by polls and the
first close that completes, whose result later closes repeat. -/
theorem stream_delivery :
    let c : Consumer C E := run finalizer operations
    let s := c.wrapper
    let c' := later.foldl step c
    s.drop.history.emitted.length = 1 ∧ c.returned <+ s.history.accepted ∧
    s.history.accepted <+ s.history.received ∧ c.reported <+ s.history.failed ∧
    (s.ended = true → c'.returned = c.returned) ∧
    (∀ result answers, (s.close answers).1 = some result →
      (s.close answers).2.closeResult = some result) ∧
    ∀ result answers, s.closeResult = some result →
      c'.wrapper.close answers = (some result, c'.wrapper) := by
  have hsound := sound_run finalizer operations
  refine ⟨hsound.emitted_finishAs .dropped, hsound.returned, ?_, ?_,
    fun hended => (hsound.foldl_of_ended hended later).1, fun _ _ => closeResult_close,
    fun result answers hresult => ?_⟩
  · exact (List.sublist_append_left _ _).trans hsound.accepted
  · exact (List.sublist_append_left _ _).trans hsound.reported
  · have hended := hsound.closed (by simp [hresult])
    exact close_of_closeResult ((hsound.foldl_of_ended hended later).2 result hresult) answers

/-- A close that is called again reports the error of the stream again. -/
theorem error_closed_twice :
    let failed : LlmStreamWrapper Nat String :=
      (run .async [.pollNext ⟨.ready (some (.error "reset")), .pending, false⟩]).wrapper
    let answers : CloseAnswers String := ⟨some (.ok ()), none, true⟩
    (failed.close answers).1 = some (.error "reset") ∧
      ((failed.close answers).2.close answers).1 = some (.error "reset") := ⟨rfl, rfl⟩

end LlmStreamWrapper

end NemoRelay.Stream

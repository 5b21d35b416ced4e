import NemoRelay.Runtime.Dispatcher

/-!
# What a step of the dispatcher can do

`Transition s t` lists the possible steps from `s` with their guards and results. Every invariant
of the dispatcher is proved by cases on it; no later proof unfolds `State.step`.
-/

namespace NemoRelay.Dispatcher

variable {s t : State}

/-- The permit that a call of `handle_message` holds for the message it handles. -/
def Frame.permit (f : Frame) : Option Nat :=
  if f.phase = .nested then none else some f.lineage

/-- A publication's lineage: the one its publisher had, or a new one. -/
def State.chosen (s : State) (current : Option Nat) : Nat := current.getD s.heap.next

/-- Take the permit for a new publication. -/
def Heap.acquireChosen (h : Heap) : Option Nat → Heap
  | some l => h.acquire l
  | none => (h.fresh false).acquire h.next

/-- The message that `newPublication` makes. -/
def State.newMessage (s : State) (kind : PublicationKind) (current : Option Nat) : Publication :=
  { id := s.records.length, kind, lineage := some (s.chosen current) }

/-- The state in which the new message is published. -/
def State.recordNew (s : State) (current : Option Nat) (parent : Option (Nat × Route)) : State :=
  { s with
    heap := s.heap.acquireChosen current
    records := s.records ++ [{ lineage := s.chosen current, parent }] }

theorem newPublication_eq (s : State) (kind : PublicationKind) (current : Option Nat)
    (parent : Option (Nat × Route)) :
    s.newPublication kind current parent =
      (s.recordNew current parent, s.newMessage kind current) := by
  cases current <;> rfl

theorem publishBuffered_eq (s : State) (f : Frame) (fs : List Frame) (kind : PublicationKind)
    (current : Option Nat) (route : Route) :
    s.publishBuffered f fs kind current route =
      { s.recordNew current (some (f.id, route)) with
        frames := { f with waiting := f.waiting ++ [s.newMessage kind current] } :: fs } := by
  rw [State.publishBuffered, newPublication_eq]

theorem publishTail_eq (s : State) (f : Frame) (kind : PublicationKind) :
    s.publishTail f kind = (s.recordNew (some f.lineage) (some (f.id, .tail))).send
      (.publication (s.newMessage kind (some f.lineage))) := by
  rw [State.publishTail, newPublication_eq]

/-- The frame in which `handle_message` of a message with a permit starts. -/
def Publication.frame (p : Publication) (l : Nat) : Frame :=
  { id := p.id, lineage := l, phase := .initial p.kind, waiting := [] }

theorem beginPublication_of_permit (s : State) {p : Publication} {l : Nat}
    (hp : p.lineage = some l) (inherited : Option Nat) :
    s.beginPublication p inherited = { s.register l with frames := p.frame l :: s.frames } := by
  simp [State.beginPublication, Heap.attachPublicationLineage, hp, Publication.frame,
    State.register]

inductive Transition (s : State) : State → Prop
  | recvFlushReady {done : Nat} {includePending : Bool} {rest : List DispatcherMessage}
      (hf : s.frames = []) (hq : s.queue = .flush done includePending :: rest)
      (hl : s.flushLineages includePending = []) :
      Transition s { s with
        queue := rest
        received := s.received ++ [.flush done includePending]
        acknowledged := s.acknowledged ++ [done]
        completing := true }
  | recvFlushDeferred {done : Nat} {includePending : Bool} {rest : List DispatcherMessage}
      (hf : s.frames = []) (hq : s.queue = .flush done includePending :: rest)
      (hl : s.flushLineages includePending ≠ []) :
      Transition s { s with
        queue := rest
        received := s.received ++ [.flush done includePending]
        loop.pendingFlushes := s.loop.pendingFlushes ++
          [{ done, lineages := s.flushLineages includePending }]
        completing := true }
  | recvRegisterPending {l : Nat} {rest : List DispatcherMessage}
      (hf : s.frames = []) (hq : s.queue = .registerPending l :: rest) :
      Transition s { s.register l with
        queue := rest
        received := s.received ++ [.registerPending l]
        completing := true }
  | recvCompletePending {l : Nat} {rest : List DispatcherMessage}
      (hf : s.frames = []) (hq : s.queue = .completePending l :: rest) :
      Transition s { (s.register l).release l with
        queue := rest
        received := s.received ++ [.completePending l]
        completing := true }
  | recvPublication {p : Publication} {rest : List DispatcherMessage}
      (hf : s.frames = []) (hq : s.queue = .publication p :: rest) :
      Transition s (({ s with
        queue := rest
        received := s.received ++ [.publication p] } : State).beginPublication p none)
  | complete (hf : s.frames = []) :
      Transition s { s.completeReadyFlushes with completing := false }
  | publishNested {f : Frame} {fs : List Frame} (kind : PublicationKind)
      (hf : s.frames = f :: fs) (hp : f.phase = .delivering) :
      Transition s (s.publishBuffered f fs kind (some f.lineage) .nested)
  | publishTail {f : Frame} {fs : List Frame} (kind : PublicationKind)
      (hf : s.frames = f :: fs) (hp : f.phase = .delivering) :
      Transition s (s.publishTail f kind)
  | reserve {f : Frame} {fs : List Frame} (kind : PublicationKind) {current : Option Nat}
      (hf : s.frames = f :: fs) (hp : f.phase = .receiving) (hk : s.known current) :
      Transition s (s.publishBuffered f fs kind current .reserved)
  | reserved {f : Frame} {fs : List Frame} (hf : s.frames = f :: fs)
      (hp : f.phase = .receiving) :
      Transition s { s with frames := { f with phase := .reserved } :: fs }
  | dropPermit {f : Frame} {fs : List Frame} (hf : s.frames = f :: fs)
      (hp : f.phase = .delivering ∨ f.phase = .reserved ∧ f.waiting = []) :
      Transition s { s.release f.lineage with frames := { f with phase := .nested } :: fs }
  | next {f : Frame} {fs : List Frame} {p : Publication} {rest : List Publication}
      (hf : s.frames = f :: fs) (hp : f.phase = .nested ∨ f.phase = .reserved)
      (hw : f.waiting = p :: rest) :
      Transition s (({ s with
        frames := { f with waiting := rest } :: fs } : State).beginPublication p (some f.lineage))
  | return {f : Frame} {fs : List Frame} (hf : s.frames = f :: fs) (hp : f.phase = .nested)
      (hw : f.waiting = []) : Transition s (s.returnFrame f fs)
  | send (kind : PublicationKind) {current : Option Nat} (hk : s.known current) :
      Transition s ((s.recordNew current none).send (.publication (s.newMessage kind current)))
  | flush (includePending : Bool) :
      Transition s (s.send (.flush s.sent.length includePending))
  | registerPending :
      Transition s (({ s with
        heap := (s.heap.fresh true).acquire s.heap.next
        held := s.heap.next :: s.held } : State).send (.registerPending s.heap.next))
  | dropPending {l : Nat} (hl : l ∈ s.held) :
      Transition s (({ s with held := s.held.erase l } : State).send (.completePending l))
  | take {l : Nat} (hl : l < s.heap.next) :
      Transition s { s with heap := s.heap.acquire l, held := l :: s.held }
  | drop {l : Nat} (hl : l ∈ s.held) :
      Transition s { s.release l with held := s.held.erase l }

variable {a : Action}

theorem Transition.of_stepFrame {f : Frame} {fs : List Frame} (hf : s.frames = f :: fs)
    (h : s.stepFrame f fs a = some t) : Transition s t := by
  unfold State.stepFrame at h
  split at h
  case h_1 hp => cases h; exact .publishNested _ hf hp
  case h_2 hp => cases h; exact .publishTail _ hf hp
  case h_3 hp => cases h; exact .dropPermit hf (.inl hp)
  case h_4 hp =>
    split at h
    · rename_i hk
      cases h; exact .reserve _ hf hp hk
    · cases h
  case h_5 hp => cases h; exact .reserved hf hp
  case h_6 hp =>
    split at h
    · rename_i hw
      cases h; exact .dropPermit hf (.inr ⟨hp, List.isEmpty_iff.mp hw⟩)
    · cases h
  case h_7 hp =>
    split at h
    · rename_i hw
      cases h; exact .return hf hp (List.isEmpty_iff.mp hw)
    · cases h
  case h_8 hp =>
    split at h
    · cases h
    · rename_i hw
      cases h; exact .next hf (.inl hp) hw
  case h_9 hp =>
    split at h
    · cases h
    · rename_i hw
      cases h; exact .next hf (.inr hp) hw
  case h_10 => cases h

theorem Transition.of_stepDispatcher (h : s.stepDispatcher a = some t) : Transition s t := by
  unfold State.stepDispatcher at h
  split at h
  case h_1 f fs hf => exact of_stepFrame hf h
  case h_2 hf =>
    split at h
    · cases h; exact .complete hf
    · rename_i m rest _ hq
      cases h
      cases m with
      | publication p => exact .recvPublication hf hq
      | flush done includePending =>
        simp only [State.handleMessage, State.deferOrCompleteFlush]
        split
        · rename_i hl
          exact .recvFlushReady hf hq (List.isEmpty_iff.mp hl)
        · rename_i hl
          exact .recvFlushDeferred hf hq fun h0 => hl (List.isEmpty_iff.mpr h0)
      | registerPending l => exact .recvRegisterPending hf hq
      | completePending l => exact .recvCompletePending hf hq
    · cases h

theorem Transition.of_stepOthers (h : s.stepOthers a = some t) : Transition s t := by
  unfold State.stepOthers at h
  split at h
  case h_1 kind current =>
    split at h
    · rename_i hk
      rw [newPublication_eq] at h
      cases h; exact .send kind hk
    · cases h
  case h_2 => cases h; exact .flush _
  case h_3 => cases h; exact .registerPending
  case h_4 =>
    split at h
    · rename_i hl
      cases h; exact .dropPending hl
    · cases h
  case h_5 =>
    split at h
    · rename_i hl
      cases h; exact .take hl
    · cases h
  case h_6 =>
    split at h
    · rename_i hl
      cases h; exact .drop hl
    · cases h
  case h_7 => cases h

theorem Transition.of_step (h : s.step a = some t) : Transition s t := by
  unfold State.step at h
  split at h
  · rename_i hd
    cases h; exact of_stepDispatcher hd
  · exact of_stepOthers h

/-- A predicate that holds of the initial state and that every transition keeps holds of every
reachable state. -/
theorem reachable_of_transition {P : State → Prop} (hinit : P {})
    (hstep : ∀ s t, P s → Transition s t → P t) (hs : system.Reachable s) : P s := by
  have hP : system.Inductive P := by
    refine ⟨?_, ?_⟩
    · rintro s rfl
      exact hinit
    · intro s a t h hst
      exact hstep s t h (.of_step hst)
  exact hP.reachable hs

end NemoRelay.Dispatcher

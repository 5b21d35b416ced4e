import NemoRelay.Lib.Transition

/-!
# The subscriber dispatcher

`subscriber_dispatcher.rs` as a transition system. One thread takes messages from a queue and
handles them; handling a delivery runs sanitizers and subscribers, which publish further events
into the delivery's nested buffer or onto the queue. Every other thread of the process publishes,
registers pending publications and asks for flushes meanwhile.

A frame is a call of `handle_message` that has not returned. The steps that read the outstanding
counts (`defer_or_complete_flush`, `complete_ready_flushes`) are atomic here; between any two
steps of the dispatcher thread the other threads may take theirs.

Lineages are named by the order of their creation, publications by the order in which they were
published, and the acknowledgement channel of a flush by the flush's position in the queue. The
fields `received`, `returned`, `records` and `drained` are history that no handler reads.
-/

namespace NemoRelay.Dispatcher

structure PublicationLineage where
  outstanding : Nat := 0
  pendingTerminal : Bool := false

inductive PublicationKind
  | deliver
  | barrier
  deriving DecidableEq

/-- A `Deliver` or a `Barrier` message. The lineage field is the permit it carries. -/
structure Publication where
  id : Nat
  kind : PublicationKind
  lineage : Option Nat
  deriving DecidableEq

inductive DispatcherMessage
  | publication (message : Publication)
  | flush (done : Nat) (includePending : Bool)
  | registerPending (lineage : Nat)
  | completePending (permit : Nat)
  deriving DecidableEq

/-- How a message reached the dispatcher from the message whose handling published it: through
the nested buffer of a delivery, on the queue tail, or as the content of a barrier. -/
inductive Route
  | nested
  | tail
  | reserved
  deriving DecidableEq

/-- What was true of a publication when it was published. -/
structure Record where
  lineage : Nat
  parent : Option (Nat × Route)

/-- Where a call of `handle_message` stands. The permit is held in all phases but `nested`. -/
inductive Phase
  | delivering
  | nested
  | receiving
  | reserved
  deriving DecidableEq

def Phase.initial : PublicationKind → Phase
  | .deliver => .delivering
  | .barrier => .receiving

/-- A call of `handle_message` for a `Deliver` or a `Barrier`, with the publications that the call
itself still has to handle. -/
structure Frame where
  id : Nat
  lineage : Nat
  phase : Phase
  waiting : List Publication

structure PendingFlush where
  done : Nat
  lineages : List Nat
  deriving DecidableEq

structure DispatcherLoopState where
  activeLineages : List Nat := []
  pendingFlushes : List PendingFlush := []

/-- The lineages that exist. `drained` is the history of counts that fell to zero. -/
structure Heap where
  lineages : Nat → PublicationLineage := fun _ => {}
  next : Nat := 0
  drained : List Nat := []

structure State where
  heap : Heap := {}
  queue : List DispatcherMessage := []
  frames : List Frame := []
  /-- `handle_message` has returned to `run_dispatcher`, whose own `complete_ready_flushes`
  is due. -/
  completing : Bool := false
  loop : DispatcherLoopState := {}
  /-- Permits that other threads hold outside the queue. -/
  held : List Nat := []
  acknowledged : List Nat := []
  received : List DispatcherMessage := []
  returned : List Nat := []
  records : List Record := []

namespace Heap

def outstanding (h : Heap) (l : Nat) : Nat := (h.lineages l).outstanding

/-- `PublicationPermit::new`. -/
def acquire (h : Heap) (l : Nat) : Heap :=
  { h with
    lineages := Function.update h.lineages l
      { h.lineages l with outstanding := h.outstanding l + 1 } }

/-- `PublicationPermit::drop`. -/
def release (h : Heap) (l : Nat) : Heap :=
  { h with
    lineages := Function.update h.lineages l
      { h.lineages l with outstanding := h.outstanding l - 1 }
    drained := if h.outstanding l = 1 then l :: h.drained else h.drained }

/-- A new lineage without permits. Its name is the old value of `next`. -/
def fresh (h : Heap) (pendingTerminal : Bool) : Heap :=
  { h with
    lineages := Function.update h.lineages h.next { outstanding := 0, pendingTerminal }
    next := h.next + 1 }

/-- A message that already carries a permit keeps it. Otherwise it takes one on the lineage it
inherits, or on the publishing thread's current lineage, or on a new one. -/
def attachPublicationLineage (h : Heap) (message : Publication)
    (inherited current : Option Nat) : Heap × Publication × Nat :=
  match message.lineage with
  | some permit => (h, message, permit)
  | none =>
    match inherited <|> current with
    | some l => (h.acquire l, { message with lineage := some l }, l)
    | none => ((h.fresh false).acquire h.next, { message with lineage := some h.next }, h.next)

end Heap

namespace State

variable (s : State)

/-- Every message sent so far, in queue order. -/
def sent : List DispatcherMessage := s.received ++ s.queue

def outstanding (s : State) (l : Nat) : Nat := s.heap.outstanding l

/-- A permit of `l` is dropped. -/
def release (s : State) (l : Nat) : State := { s with heap := s.heap.release l }

/-- The first half of `enqueue_dispatch_message`: a new message with its permit. The caller puts
it into the publishing thread's buffer or onto the queue. -/
def newPublication (kind : PublicationKind) (current : Option Nat) (parent : Option (Nat × Route)) :
    State × Publication :=
  let message := { id := s.records.length, kind, lineage := none }
  let (heap, p, l) := s.heap.attachPublicationLineage message none current
  ({ s with heap, records := s.records ++ [{ lineage := l, parent }] }, p)

def send (message : DispatcherMessage) : State :=
  { s with queue := s.queue ++ [message] }

def register (l : Nat) : State :=
  { s with
    loop.activeLineages :=
      if l ∈ s.loop.activeLineages then s.loop.activeLineages
      else s.loop.activeLineages ++ [l] }

/-- The lineages that a flush handled now has to wait for. -/
def flushLineages (includePending : Bool) : List Nat :=
  (s.loop.activeLineages.filter fun l =>
      includePending || !(s.heap.lineages l).pendingTerminal).filter
    fun l => 0 < s.outstanding l

def deferOrCompleteFlush (done : Nat) (includePending : Bool) : State :=
  if (s.flushLineages includePending).isEmpty then
    { s with acknowledged := s.acknowledged ++ [done] }
  else
    { s with
      loop.pendingFlushes := s.loop.pendingFlushes ++
        [{ done, lineages := s.flushLineages includePending }] }

def flushReady (flush : PendingFlush) : Bool :=
  flush.lineages.all fun l => s.outstanding l == 0

def completeReadyFlushes : State :=
  let ready := s.loop.pendingFlushes.takeWhile s.flushReady
  { s with
    loop.activeLineages := s.loop.activeLineages.filter fun l => 0 < s.outstanding l
    loop.pendingFlushes := s.loop.pendingFlushes.drop ready.length
    acknowledged := s.acknowledged ++ ready.map PendingFlush.done }

/-- `handle_message` of a `Deliver` or `Barrier` up to the call of `deliver_event` or the
receive. Outside `deliver_event` the dispatcher thread has no current lineage. -/
def beginPublication (message : Publication) (inherited : Option Nat) : State :=
  let (heap, p, l) := s.heap.attachPublicationLineage message inherited none
  let f : Frame := { id := p.id, lineage := l, phase := .initial p.kind, waiting := [] }
  { s.register l with heap, frames := f :: s.frames }

/-- `handle_message` of a message that `run_dispatcher` took from the queue. -/
def handleMessage : DispatcherMessage → State
  | .flush done includePending =>
    { s.deferOrCompleteFlush done includePending with completing := true }
  | .registerPending l => { s.register l with completing := true }
  | .completePending l => { (s.register l).release l with completing := true }
  | .publication message => s.beginPublication message none

end State

/-! ### Steps -/

inductive Action
  /-- `run_dispatcher` takes the next message. -/
  | recv
  /-- A sanitizer or subscriber of the running delivery publishes into the nested buffer. -/
  | publishNested (kind : PublicationKind)
  /-- A sanitizer or subscriber of the running delivery publishes onto the queue tail. -/
  | publishTail (kind : PublicationKind)
  /-- `deliver_event` returns and the delivery's permit is dropped. -/
  | delivered
  /-- One more publication of the task that a barrier stands for. -/
  | reserve (kind : PublicationKind) (current : Option Nat)
  /-- The barrier has received its publications. -/
  | reserved
  /-- `handle_message` is called for the next publication of the running call. -/
  | next
  /-- The barrier has handled its publications and drops its permit. -/
  | barrierDone
  /-- `handle_message` completes ready flushes and returns. -/
  | return
  /-- `run_dispatcher` completes ready flushes. -/
  | complete
  /-- Another thread publishes. -/
  | send (kind : PublicationKind) (current : Option Nat)
  /-- `flush_subscribers_inner` on another thread. -/
  | flush (includePending : Bool) (current : Option Nat)
  /-- `register_pending_publication`. -/
  | registerPending
  /-- A pending publication is dropped, which queues the completion of its permit. -/
  | dropPending (l : Nat)
  /-- Another thread takes a permit of a lineage that it knows, for a message that it keeps in a
  buffer of its own. -/
  | take (l : Nat)
  /-- Another thread drops a permit that it holds. -/
  | drop (l : Nat)
  deriving DecidableEq

namespace State

variable (s : State)

/-- A publication into a buffer that the running call of `handle_message` empties itself. -/
def publishBuffered (f : Frame) (fs : List Frame) (kind : PublicationKind) (current : Option Nat)
    (route : Route) : State :=
  let (t, p) := s.newPublication kind current (some (f.id, route))
  { t with frames := { f with waiting := f.waiting ++ [p] } :: fs }

/-- A publication of the running delivery onto the queue tail. -/
def publishTail (f : Frame) (kind : PublicationKind) : State :=
  let (t, p) := s.newPublication kind (some f.lineage) (some (f.id, .tail))
  t.send (.publication p)

/-- The end of `handle_message` for a publication. -/
def returnFrame (f : Frame) (fs : List Frame) : State :=
  { s.completeReadyFlushes with
    frames := fs
    returned := f.id :: s.returned
    completing := fs.isEmpty }

/-- A lineage that a thread can name: none, or one that exists. -/
def known : Option Nat → Bool
  | none => true
  | some l => l < s.heap.next

/-- `flush_subscribers_inner`: work on behalf of a pending publication does not wait for pending
publications. -/
def effectiveIncludePending (includePending : Bool) (current : Option Nat) : Bool :=
  includePending && !current.any fun l => (s.heap.lineages l).pendingTerminal

/-- The dispatcher thread inside its innermost call of `handle_message`. -/
def stepFrame (f : Frame) (fs : List Frame) (a : Action) : Option State :=
  match f.phase, a with
  | .delivering, .publishNested kind => some (s.publishBuffered f fs kind (some f.lineage) .nested)
  | .delivering, .publishTail kind => some (s.publishTail f kind)
  | .delivering, .delivered => some { s.release f.lineage with
      frames := { f with phase := .nested } :: fs }
  | .receiving, .reserve kind current =>
    if s.known current then some (s.publishBuffered f fs kind current .reserved) else none
  | .receiving, .reserved => some { s with frames := { f with phase := .reserved } :: fs }
  | .reserved, .barrierDone =>
    if f.waiting.isEmpty then
      some { s.release f.lineage with frames := { f with phase := .nested } :: fs }
    else none
  | .nested, .return => if f.waiting.isEmpty then some (s.returnFrame f fs) else none
  | .nested, .next | .reserved, .next =>
    match f.waiting with
    | [] => none
    | p :: rest =>
      some ({ s with frames := { f with waiting := rest } :: fs }.beginPublication p
        (some f.lineage))
  | _, _ => none

/-- The dispatcher thread: inside a call of `handle_message`, or in the loop of
`run_dispatcher`. -/
def stepDispatcher (a : Action) : Option State :=
  match s.frames with
  | f :: fs => s.stepFrame f fs a
  | [] =>
    match s.completing, s.queue, a with
    | true, _, .complete => some { s.completeReadyFlushes with completing := false }
    | false, m :: rest, .recv =>
      some ({ s with queue := rest, received := s.received ++ [m] }.handleMessage m)
    | _, _, _ => none

/-- The other threads of the process. -/
def stepOthers : Action → Option State
  | .send kind current =>
    if s.known current then
      let (t, p) := s.newPublication kind current none
      some (t.send (.publication p))
    else none
  | .flush includePending current =>
    some (s.send (.flush s.sent.length (s.effectiveIncludePending includePending current)))
  | .registerPending =>
    let l := s.heap.next
    some ({ s with heap := (s.heap.fresh true).acquire l, held := l :: s.held }.send
      (.registerPending l))
  | .dropPending l =>
    if l ∈ s.held then some ({ s with held := s.held.erase l }.send (.completePending l)) else none
  | .take l =>
    if l < s.heap.next then some { s with heap := s.heap.acquire l, held := l :: s.held } else none
  | .drop l => if l ∈ s.held then some { s.release l with held := s.held.erase l } else none
  | _ => none

def step (a : Action) : Option State :=
  match s.stepDispatcher a with
  | some t => some t
  | none => s.stepOthers a

end State

/-- The dispatcher together with the threads that use it. -/
def system : System State Action where
  init s := s = {}
  step := State.step

end NemoRelay.Dispatcher

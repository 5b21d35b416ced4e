import NemoRelay.Runtime.DispatcherFlush

/-!
# In which order flushes are released

`complete_ready_flushes` releases a prefix of the pending flushes. The oldest flush that remains
waits for a lineage of its own; a later one may be ready and still be held back by it.
-/

namespace NemoRelay.Dispatcher

open List

variable {s t : State}

structure Queued (s : State) : Prop where
  ordered : (s.loop.pendingFlushes.map PendingFlush.done).Pairwise (· < ·)
  known : ∀ f ∈ s.loop.pendingFlushes, ∀ l ∈ f.lineages, l < s.heap.next
  plain : ∀ f ∈ s.loop.pendingFlushes, s.sent[f.done]? = some (.flush f.done false) →
    ∀ l ∈ f.lineages, (s.heap.lineages l).pendingTerminal = false

theorem HeapStep.next_le {h k : Heap} (hk : HeapStep h k) : h.next ≤ k.next := by
  cases hk with
  | fresh b => exact Nat.le_succ _
  | _ => exact Nat.le_refl _

theorem Heap.pendingTerminal_acquire (h : Heap) (m l : Nat) :
    ((h.acquire m).lineages l).pendingTerminal = (h.lineages l).pendingTerminal := by
  by_cases hl : l = m
  · subst hl
    simp [Heap.acquire]
  · simp [Heap.acquire, Function.update_of_ne hl]

/-- Whether a lineage belongs to a pending publication is fixed when it is created. -/
theorem HeapStep.pendingTerminal {h k : Heap} (hk : HeapStep h k) {l : Nat} (hl : l < h.next) :
    (k.lineages l).pendingTerminal = (h.lineages l).pendingTerminal := by
  cases hk with
  | same => rfl
  | acquire m => exact h.pendingTerminal_acquire m l
  | release m =>
    by_cases hm : l = m
    · subst hm
      simp [Heap.release]
    · simp [Heap.release, Function.update_of_ne hm]
  | fresh b =>
    rw [Heap.pendingTerminal_acquire]
    simp [Heap.fresh, Function.update_of_ne (Nat.ne_of_lt hl)]

open State

theorem mem_flushLineages {b : Bool} {l : Nat} : l ∈ s.flushLineages b ↔
    l ∈ s.loop.activeLineages ∧ (b = true ∨ (s.heap.lineages l).pendingTerminal = false) ∧
      0 < s.outstanding l := by
  simp only [flushLineages, mem_filter, Bool.or_eq_true, Bool.not_eq_true', decide_eq_true_eq]
  tauto

theorem Queued.transition (h : Queued s) (hi : Invariant s) (hst : Transition s t) : Queued t := by
  have ht := hi.transition hst
  have hheap := hst.heap hi.sound.ledger.located
  have hnew : ∀ {f : PendingFlush} {b : Bool}, f.lineages = t.flushLineages b →
      ∀ l ∈ f.lineages, l < t.heap.next := by
    intro f b hf l hl
    rw [hf, mem_flushLineages] at hl
    by_contra hlt
    have := ht.sound.ledger.accounting.unknown l (by omega)
    omega
  refine ⟨?_, ?_, ?_⟩
  · rcases hst.pendingFlushes with ⟨n, he⟩ | ⟨f, b, he, hrec, -⟩
    · rw [he]
      exact h.ordered.sublist ((drop_sublist n _).map _)
    · obtain ⟨hdone, -⟩ := Flushes.just_received ht.flushes.channel hrec
      rw [he, map_append, pairwise_append]
      refine ⟨h.ordered, pairwise_singleton .., ?_⟩
      intro a ha b hb
      obtain ⟨g, hg, rfl⟩ := mem_map.mp ha
      rw [map_singleton, mem_singleton] at hb
      rw [hb, hdone]
      exact (hi.flushes.deferred g hg).1
  · intro f hf l hl
    rcases hst.deferred hf with hf | ⟨b, -, hL⟩
    · exact Nat.lt_of_lt_of_le (h.known f hf l hl) hheap.next_le
    · exact hnew hL l hl
  · intro f hf hsent l hl
    rcases hst.deferred hf with hf | ⟨b, hrec, hL⟩
    · have hlt := (hi.flushes.deferred f hf).1
      rw [sent_of_received hst hlt (Nat.le_refl _)] at hsent
      rw [hheap.pendingTerminal (h.known f hf l hl)]
      exact h.plain f hf hsent l hl
    · obtain ⟨-, hget, -⟩ := Flushes.just_received ht.flushes.channel hrec
      rw [hget] at hsent
      cases hsent
      rw [hL, mem_flushLineages] at hl
      simpa using hl.2.1

theorem reachable_queued (hs : system.Reachable s) : Queued s := by
  have h : Invariant s ∧ Queued s := by
    refine reachable_of_transition (P := fun s => Invariant s ∧ Queued s) ?_ ?_ hs
    · refine ⟨.initial, ?_, ?_, ?_⟩ <;> simp
    · rintro s t ⟨hi, hq⟩ hst
      exact ⟨hi.transition hst, hq.transition hi hst⟩
  exact h.2

/-! ### After complete_ready_flushes -/

theorem pendingFlushes_completeReadyFlushes (s : State) :
    s.completeReadyFlushes.loop.pendingFlushes = s.loop.pendingFlushes.dropWhile s.flushReady := by
  have h := takeWhile_append_dropWhile (p := s.flushReady) (l := s.loop.pendingFlushes)
  have hdrop : ∀ as bs : List PendingFlush, (as ++ bs).drop as.length = bs :=
    fun _ _ => drop_left
  have := hdrop (s.loop.pendingFlushes.takeWhile s.flushReady)
    (s.loop.pendingFlushes.dropWhile s.flushReady)
  rwa [h] at this

/-- The flush waits for a lineage of its own. -/
def State.Blocked (s : State) (f : PendingFlush) : Prop := ∃ l ∈ f.lineages, 0 < s.outstanding l

theorem blocked_head (s : State) {f : PendingFlush} {fs : List PendingFlush}
    (h : s.completeReadyFlushes.loop.pendingFlushes = f :: fs) : s.Blocked f := by
  rw [pendingFlushes_completeReadyFlushes] at h
  have hf : s.flushReady f = false := by
    have := head?_dropWhile_not s.flushReady s.loop.pendingFlushes
    rw [h] at this
    simpa using this
  simp only [flushReady, all_eq_false, beq_iff_eq] at hf
  obtain ⟨l, hl, hpos⟩ := hf
  exact ⟨l, hl, by omega⟩

theorem step_return (h : s.step .return = some t) : ∃ f fs, t = s.returnFrame f fs := by
  cases hf : s.frames with
  | nil => simp [step, stepDispatcher, stepOthers, hf] at h
  | cons f fs =>
    refine ⟨f, fs, ?_⟩
    cases hp : f.phase with
    | nested =>
      simp only [step, stepDispatcher, stepFrame, hf, hp] at h
      split at h
      · rename_i hs
        split at hs
        · cases hs
          exact (Option.some.inj h).symm
        · cases hs
      · cases h
    | _ => simp [step, stepDispatcher, stepOthers, stepFrame, hf, hp] at h

theorem step_complete (h : s.step .complete = some t) :
    t = { s.completeReadyFlushes with completing := false } := by
  cases hf : s.frames with
  | nil =>
    cases hc : s.completing with
    | true =>
      simp only [step, stepDispatcher, hf, hc] at h
      exact (Option.some.inj h).symm
    | false => simp [step, stepDispatcher, stepOthers, hf, hc] at h
  | cons f fs =>
    cases hp : f.phase <;> simp [step, stepDispatcher, stepOthers, stepFrame, hf] at h

/-- The two steps that run `complete_ready_flushes`. -/
theorem step_completes {a : Action} (ha : a = .return ∨ a = .complete) (h : s.step a = some t) :
    t.loop.pendingFlushes = s.completeReadyFlushes.loop.pendingFlushes ∧ t.heap = s.heap := by
  rcases ha with rfl | rfl
  · obtain ⟨f, fs, rfl⟩ := step_return h
    exact ⟨rfl, rfl⟩
  · rw [step_complete h]
    exact ⟨rfl, rfl⟩

/-- A flush of queued subscribers behind a flush that waits for a pending publication. -/
def heldBackRun : List Action :=
  [.registerPending, .flush true none, .recv, .complete, .recv, .complete, .send .deliver none,
    .recv, .flush false none, .publishTail .deliver, .delivered, .return, .complete, .recv,
    .complete, .recv, .delivered]

def heldBackState : State := (system.run {} heldBackRun).getD {}

def heldBackEnd : State := (heldBackState.step .return).getD {}

theorem heldBackState_reachable : system.Reachable heldBackState :=
  System.reachable_of_run (M := system) heldBackRun rfl rfl

/-- The flush at position 3 does not include pending publications and none of its lineages has a
permit. Still `complete_ready_flushes` leaves it behind the flush at position 1, which waits for
the lineage of a pending publication. -/
theorem ready_flush_held_back : system.Reachable heldBackState ∧
    heldBackState.step .return = some heldBackEnd ∧
    ∃ f ∈ heldBackEnd.loop.pendingFlushes,
      heldBackEnd.sent[f.done]? = some (.flush f.done false) ∧ ¬ heldBackEnd.Blocked f ∧
      ∃ g ∈ heldBackEnd.loop.pendingFlushes, g.done < f.done ∧
        ∃ l ∈ g.lineages, 0 < heldBackEnd.outstanding l ∧
          (heldBackEnd.heap.lineages l).pendingTerminal = true := by
  refine ⟨heldBackState_reachable, rfl, { done := 3, lineages := [1] }, by decide, by decide, ?_,
    { done := 1, lineages := [0] }, by decide, by decide, 0, by decide, by decide, by decide⟩
  rintro ⟨l, hl, hpos⟩
  obtain rfl := mem_singleton.mp hl
  exact absurd hpos (by decide)

/-- After `complete_ready_flushes`, every flush that is not acknowledged waits for a lineage of
its own that has permits, or an earlier flush does. A flush that does not include pending
publications has none of their lineages among its own. -/
theorem pending_flush_blocked_after_complete {a : Action} (hs : system.Reachable s)
    (ha : a = .return ∨ a = .complete) (hst : s.step a = some t) :
    (∀ f ∈ t.loop.pendingFlushes, t.Blocked f ∨
      ∃ g ∈ t.loop.pendingFlushes, g.done < f.done ∧ t.Blocked g) ∧
    (∀ f ∈ t.loop.pendingFlushes, t.sent[f.done]? = some (.flush f.done false) →
      ∀ l ∈ f.lineages, (t.heap.lineages l).pendingTerminal = false) := by
  have hq := reachable_queued (hs.step hst)
  obtain ⟨hpending, hheap⟩ := step_completes ha hst
  refine ⟨?_, hq.plain⟩
  intro f hf
  cases hfs : t.loop.pendingFlushes with
  | nil =>
    rw [hfs] at hf
    cases hf
  | cons g gs =>
    have hg : t.Blocked g := by
      obtain ⟨l, hl, hpos⟩ := blocked_head s (hpending.symm.trans hfs)
      exact ⟨l, hl, by rwa [outstanding, hheap]⟩
    have hord := hq.ordered
    rw [hfs] at hf hord
    rcases mem_cons.mp hf with rfl | hf
    · exact .inl hg
    · rw [map_cons, pairwise_cons] at hord
      exact .inr ⟨g, mem_cons_self .., hord.1 _ (mem_map_of_mem hf), hg⟩

theorem heldBackEnd_blocked :
    (∀ f ∈ heldBackEnd.loop.pendingFlushes, heldBackEnd.Blocked f ∨
      ∃ g ∈ heldBackEnd.loop.pendingFlushes, g.done < f.done ∧ heldBackEnd.Blocked g) ∧
    (∀ f ∈ heldBackEnd.loop.pendingFlushes,
      heldBackEnd.sent[f.done]? = some (.flush f.done false) →
      ∀ l ∈ f.lineages, (heldBackEnd.heap.lineages l).pendingTerminal = false) :=
  pending_flush_blocked_after_complete heldBackState_reachable (.inl rfl) rfl

/-! ### Quiescence -/

def DispatcherMessage.flushed : DispatcherMessage → Option Nat
  | .flush done _ => some done
  | _ => none

/-- A flush that was taken from the queue waits or is acknowledged, once. -/
def State.Answered (s : State) : Prop :=
  (s.acknowledged ++ s.loop.pendingFlushes.map PendingFlush.done).Perm
    (s.received.filterMap DispatcherMessage.flushed)

theorem State.Answered.complete (h : s.Answered) : s.completeReadyFlushes.Answered := by
  have hsplit := prefix_iff_eq_append.mp <|
    takeWhile_prefix (l := s.loop.pendingFlushes) s.flushReady
  rw [Answered, ← hsplit, map_append, ← append_assoc] at h
  exact h

theorem State.Answered.transition (h : s.Answered) (hst : Transition s t) : t.Answered := by
  cases hst with
  | @recvFlushReady done =>
    rw [Answered, filterMap_append, append_assoc]
    exact perm_middle.trans ((h.cons done).trans (perm_append_singleton ..).symm)
  | @recvFlushDeferred done =>
    rw [Answered, filterMap_append, map_append, ← append_assoc]
    exact h.append_right [done]
  | recvRegisterPending | recvCompletePending | recvPublication =>
    rw [Answered, ← append_nil (filterMap ..)] at h
    simp only [Answered, beginPublication, register, release, filterMap_append]
    exact h
  | complete | «return» => exact h.complete
  | _ => exact h

/-- Once nothing is queued or running and no other thread holds a permit, every publication has
returned once, and `complete_ready_flushes` has acknowledged every flush once. -/
theorem quiescent_all_answered (hs : system.Reachable s) (hqueue : s.queue = [])
    (hframes : s.frames = []) (hheld : s.held = []) :
    (∀ m < s.records.length, s.returned.count m = 1) ∧
      s.completeReadyFlushes.acknowledged.Perm
        (s.sent.filterMap DispatcherMessage.flushed) := by
  have hledger := (reachable_invariant hs).sound.ledger
  constructor
  · intro m hm
    simpa [places, unbegun, hqueue, hframes, hm] using hledger.located.once m
  · have hzero : ∀ l, s.outstanding l = 0 := by
      simp [hledger.accounting.outstanding, permits, hqueue, hframes, hheld]
    have hready : ∀ f ∈ s.loop.pendingFlushes, s.flushReady f = true := by
      simp [flushReady, hzero]
    rw [completeReadyFlushes, takeWhile_eq_self_iff.mpr hready, sent, hqueue, append_nil]
    exact reachable_of_transition (P := Answered) .nil (fun _ _ h => h.transition) hs

theorem quiescent_flushRunEnd : flushRunEnd.completeReadyFlushes.acknowledged.Perm
    (flushRunEnd.sent.filterMap DispatcherMessage.flushed) :=
  (quiescent_all_answered flushRunEnd_reachable rfl rfl rfl).2

end NemoRelay.Dispatcher

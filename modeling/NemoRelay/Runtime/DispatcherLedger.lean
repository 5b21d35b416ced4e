import Mathlib.Data.List.Nodup
import NemoRelay.Runtime.DispatcherSteps

/-!
# Permits and publications are conserved

`Located` says that every publication is in exactly one place: still to be begun, in a frame, or
returned. `Accounting` says that the outstanding count of a lineage is the number of its permits
in the queue, the frames and the hands of other threads. Together they give `outstanding_pos`: a
publication that has not been handled keeps its lineage's count above zero.
-/

namespace NemoRelay.Dispatcher

open List

variable {s t : State}

def DispatcherMessage.publication? : DispatcherMessage → Option Publication
  | .publication p => some p
  | _ => none

def DispatcherMessage.permit : DispatcherMessage → Option Nat
  | .publication p => p.lineage
  | .completePending l => some l
  | _ => none

def Frame.permits (f : Frame) : List Nat :=
  f.permit.toList ++ f.waiting.filterMap Publication.lineage

namespace State

/-- Publications for which `handle_message` has not been called. -/
def unbegun (s : State) : List Publication :=
  s.frames.flatMap Frame.waiting ++ s.queue.filterMap DispatcherMessage.publication?

def places (s : State) : List Nat :=
  s.returned ++ (s.frames.map Frame.id ++ s.unbegun.map Publication.id)

def permits (s : State) : List Nat :=
  s.queue.filterMap DispatcherMessage.permit ++ (s.frames.flatMap Frame.permits ++ s.held)

def lineageOf (s : State) (m : Nat) : Option Nat :=
  s.records[m]?.map Record.lineage

/-- A publication is handled once its own permit is dropped: its delivery is over, or its barrier
has handled every publication it received. -/
def Handled (s : State) (m : Nat) : Prop :=
  m ∈ s.returned ∨ ∃ f ∈ s.frames, f.id = m ∧ f.phase = .nested

end State

open State (completeReadyFlushes known lineageOf newMessage places recordNew returnFrame send
  unbegun)

structure Located (s : State) : Prop where
  once : ∀ m, s.places.count m = if m < s.records.length then 1 else 0
  logged : ∀ p ∈ s.unbegun, ∃ l, p.lineage = some l ∧ s.lineageOf p.id = some l
  frames : ∀ f ∈ s.frames, s.lineageOf f.id = some f.lineage

structure Accounting (s : State) : Prop where
  outstanding : ∀ l, s.outstanding l = s.permits.count l
  unknown : ∀ l, s.heap.next ≤ l → s.outstanding l = 0

/-! ### The record of a publication -/

variable {l : Nat}

theorem lineageOf_lt {m : Nat} (h : s.lineageOf m = some l) : m < s.records.length := by
  simp only [lineageOf, Option.map_eq_some_iff] at h
  obtain ⟨r, hr, -⟩ := h
  exact (List.getElem?_eq_some_iff.mp hr).1

/-- A record is never changed, so that a later state gives a publication the same lineage. -/
theorem lineageOf_eq_of_lt {m : Nat} {r : Record} (hm : m < s.records.length)
    (hn : t.records = s.records ++ [r]) : t.lineageOf m = s.lineageOf m := by
  rw [lineageOf, hn, getElem?_append_left hm, lineageOf]

theorem lineageOf_append {m : Nat} {r : Record} (h : s.lineageOf m = some l)
    (hn : t.records = s.records ++ [r]) : t.lineageOf m = some l := by
  rw [lineageOf_eq_of_lt (lineageOf_lt h) hn, h]

/-! ### Every publication is in one place -/

/-- A step that publishes nothing may only move publications from one place to another. -/
theorem Located.move (h : Located s) (hn : t.records = s.records)
    (hp : ∀ m, t.places.count m = s.places.count m) (hu : ∀ p ∈ t.unbegun, p ∈ s.unbegun)
    (hf : ∀ f ∈ t.frames, s.lineageOf f.id = some f.lineage) : Located t := by
  have hl : t.lineageOf = s.lineageOf := by
    funext m
    rw [lineageOf, lineageOf, hn]
  refine ⟨?_, ?_, ?_⟩
  · intro m
    rw [hp, h.once, hn]
  · intro p hpt
    rw [hl]
    exact h.logged p (hu p hpt)
  · rwa [hl]

variable {current : Option Nat}

/-- A step that publishes puts the new message in one place. -/
theorem Located.publish (kind : PublicationKind) {parent : Option (Nat × Route)} (h : Located s)
    (hn : t.records = s.records ++ [{ lineage := s.chosen current, parent }])
    (hp : ∀ m, t.places.count m = s.places.count m + if s.records.length = m then 1 else 0)
    (hu : ∀ p ∈ t.unbegun, p ∈ s.unbegun ∨ p = s.newMessage kind current)
    (hf : ∀ f ∈ t.frames, s.lineageOf f.id = some f.lineage) : Located t := by
  refine ⟨?_, ?_, ?_⟩
  · intro m
    rw [hp, h.once, hn, length_append, length_singleton]
    split_ifs <;> omega
  · intro p hpt
    rcases hu p hpt with hps | rfl
    · obtain ⟨l, hl, hm⟩ := h.logged p hps
      exact ⟨l, hl, lineageOf_append hm hn⟩
    · refine ⟨s.chosen current, rfl, ?_⟩
      simp [lineageOf, newMessage, hn]
  · intro f hft
    exact lineageOf_append (hf f hft) hn

variable {f : Frame} {fs : List Frame}

theorem Located.publishBuffered (h : Located s) (hf : s.frames = f :: fs) (kind : PublicationKind)
    (current : Option Nat) (route : Route) :
    Located (s.publishBuffered f fs kind current route) := by
  rw [publishBuffered_eq]
  refine h.publish kind rfl ?_ ?_ ?_
  · intro m
    simp only [places, unbegun, recordNew, newMessage, hf, map_cons, flatMap_cons,
      map_append, map_nil, count_append, count_cons, count_nil, beq_iff_eq]
    omega
  · intro p hp
    simp only [unbegun, hf, flatMap_cons, mem_append, mem_singleton] at hp ⊢
    tauto
  · have hs := h.frames
    rw [hf] at hs
    simpa using hs

open DispatcherMessage

theorem Located.sendNew (h : Located s) (kind : PublicationKind) (current : Option Nat)
    (parent : Option (Nat × Route)) :
    Located ((s.recordNew current parent).send (.publication (s.newMessage kind current))) := by
  refine h.publish kind rfl ?_ ?_ h.frames
  · intro m
    simp only [places, unbegun, send, recordNew, newMessage, publication?,
      filterMap_append, filterMap_cons, filterMap_nil, map_append, map_cons, map_nil, count_append,
      count_cons, count_nil, beq_iff_eq]
    omega
  · intro p hp
    simpa [unbegun, send, recordNew, publication?, or_assoc] using hp

variable {m : DispatcherMessage}

/-- A message other than a publication is put on the queue. -/
theorem Located.sendOther (h : Located s) (hm : m.publication? = none) : Located (s.send m) := by
  refine h.move rfl ?_ ?_ h.frames <;> simp [places, unbegun, send, hm]

variable {rest : List DispatcherMessage}

/-- A message other than a publication is taken from the queue. -/
theorem Located.recvOther (h : Located s) (hq : s.queue = m :: rest) (hm : m.publication? = none)
    (hn : t.records = s.records) (hqt : t.queue = rest) (hf : t.frames = s.frames)
    (hr : t.returned = s.returned) : Located t := by
  have hu : t.unbegun = s.unbegun := by
    simp only [unbegun, hf, hqt, hq, filterMap_cons, hm]
  refine h.move hn ?_ ?_ ?_
  · intro m
    rw [places, places, hu, hf, hr]
  · rw [hu]
    exact fun _ hp => hp
  · rw [hf]
    exact h.frames

/-- A publication goes from where it waits into a new frame. -/
theorem Located.beginPublication {p : Publication} {inherited : Option Nat}
    (h : Located s) (hp : p ∈ s.unbegun) (hn : t.records = s.records)
    (hm : ∀ m, t.places.count m + (if p.id = m then 1 else 0) = s.places.count m)
    (hu : ∀ p ∈ t.unbegun, p ∈ s.unbegun) (hf : ∀ f ∈ t.frames, s.lineageOf f.id = some f.lineage) :
    Located (t.beginPublication p inherited) := by
  obtain ⟨l, hl, hlog⟩ := h.logged p hp
  rw [beginPublication_of_permit t hl]
  refine h.move hn ?_ hu ?_
  · intro m
    have := hm m
    simp only [places, unbegun, State.register, Publication.frame, map_cons,
      flatMap_cons, nil_append, count_append, count_cons, beq_iff_eq] at this ⊢
    omega
  · intro f hft
    rcases mem_cons.mp hft with rfl | hft
    · exact hlog
    · exact hf f hft

theorem Located.transition (h : Located s) (hst : Transition s t) : Located t := by
  have hframes := h.frames
  cases hst with
  | recvFlushReady hf hq _ | recvFlushDeferred hf hq _ | recvRegisterPending hf hq
  | recvCompletePending hf hq => exact h.recvOther hq rfl rfl rfl rfl rfl
  | @recvPublication p rest hf hq =>
    refine h.beginPublication ?_ rfl ?_ ?_ hframes
    · simp [unbegun, hq, publication?]
    · intro m
      simp only [places, unbegun, hq, filterMap_cons, publication?, map_append,
        map_cons, count_append, count_cons, beq_iff_eq]
      omega
    · intro q hq'
      simp only [unbegun, hq, mem_append] at hq' ⊢
      tauto
  | complete hf | take hl | drop hl =>
    exact h.move rfl (fun _ => rfl) (fun _ hp => hp) hframes
  | publishNested kind hf hp | reserve kind hf hp hk => exact h.publishBuffered hf kind _ _
  | publishTail kind hf hp =>
    rw [publishTail_eq]
    exact h.sendNew kind _ _
  | reserved hf hp =>
    rw [hf, forall_mem_cons] at hframes
    refine h.move rfl ?_ ?_ (forall_mem_cons.mpr hframes) <;>
      simp [places, unbegun, hf]
  | dropPermit hf hp =>
    rw [hf, forall_mem_cons] at hframes
    refine h.move rfl ?_ ?_ (forall_mem_cons.mpr hframes) <;>
      simp [places, unbegun, State.release, hf]
  | @next f fs p rest hf hp hw =>
    rw [hf, forall_mem_cons] at hframes
    refine h.beginPublication ?_ rfl ?_ ?_ (forall_mem_cons.mpr hframes)
    · simp [unbegun, hf, hw]
    · intro m
      simp only [places, unbegun, hf, hw, map_cons, flatMap_cons,
        cons_append, count_append, count_cons, beq_iff_eq]
      omega
    · intro q hq
      simp only [unbegun, hf, hw, flatMap_cons] at hq ⊢
      tauto
  | «return» hf hp hw =>
    rw [hf, forall_mem_cons] at hframes
    refine h.move rfl ?_ ?_ hframes.2
    · intro m
      simp only [places, unbegun, returnFrame, completeReadyFlushes, hf,
        hw, map_cons, flatMap_cons, nil_append, count_append, count_cons]
      omega
    · simp [unbegun, returnFrame, completeReadyFlushes, hf, hw]
  | send kind hk => exact h.sendNew kind _ _
  | flush includePending => exact h.sendOther rfl
  | registerPending | dropPending hl =>
    exact Located.sendOther (h.move rfl (fun _ => rfl) (fun _ hp => hp) hframes) rfl

/-! ### The outstanding counts -/

open Heap

theorem Heap.outstanding_acquire (h : Heap) (l k : Nat) :
    (h.acquire l).outstanding k = h.outstanding k + if l = k then 1 else 0 := by
  by_cases hk : l = k
  · subst hk
    simp [outstanding, acquire]
  · simp [outstanding, acquire, Function.update_of_ne (Ne.symm hk), hk]

theorem Heap.outstanding_release (h : Heap) (l k : Nat) :
    (h.release l).outstanding k = h.outstanding k - if l = k then 1 else 0 := by
  by_cases hk : l = k
  · subst hk
    simp [outstanding, release]
  · simp [outstanding, release, Function.update_of_ne (Ne.symm hk), hk]

theorem Heap.outstanding_fresh {h : Heap} (b : Bool) (h0 : h.outstanding h.next = 0) (k : Nat) :
    (h.fresh b).outstanding k = h.outstanding k := by
  by_cases hk : k = h.next
  · subst hk
    simpa [outstanding, fresh] using h0.symm
  · simp [outstanding, fresh, Function.update_of_ne hk]

theorem Accounting.outstanding_acquireChosen (h : Accounting s) (current : Option Nat) (k : Nat) :
    (s.heap.acquireChosen current).outstanding k =
      s.outstanding k + if s.chosen current = k then 1 else 0 := by
  cases current with
  | some l => exact s.heap.outstanding_acquire l k
  | none =>
    have hf := outstanding_fresh false (h.unknown _ (Nat.le_refl _)) k
    rw [State.outstanding, ← hf]
    exact (s.heap.fresh false).outstanding_acquire s.heap.next k

theorem chosen_lt_next (hk : s.known current) :
    s.chosen current < (s.heap.acquireChosen current).next := by
  cases current with
  | some l =>
    simp only [known, decide_eq_true_eq] at hk
    exact hk
  | none => exact Nat.lt_succ_self _

theorem next_le_acquireChosen (s : State) (current : Option Nat) :
    s.heap.next ≤ (s.heap.acquireChosen current).next := by
  cases current with
  | some l => exact Nat.le_refl _
  | none => exact Nat.le_succ _

section

variable (h : Accounting s)
include h

/-- One new permit is taken and put somewhere. -/
theorem Accounting.acquire (ho : ∀ k, t.outstanding k = s.outstanding k + if l = k then 1 else 0)
    (hl : l < t.heap.next) (hn : s.heap.next ≤ t.heap.next)
    (hp : ∀ k, t.permits.count k = s.permits.count k + if l = k then 1 else 0) : Accounting t := by
  refine ⟨?_, ?_⟩
  · intro k
    rw [ho, hp, h.outstanding]
  · intro k hk
    rw [ho, h.unknown k (by omega), if_neg (by omega)]

/-- A step that leaves the counts alone may only move permits. -/
theorem Accounting.move (hh : t.heap = s.heap) (hp : ∀ k, t.permits.count k = s.permits.count k) :
    Accounting t := by
  have hout : t.outstanding = s.outstanding := by
    funext k
    rw [State.outstanding, hh, State.outstanding]
  refine ⟨?_, ?_⟩
  · intro k
    rw [hout, hp, h.outstanding]
  · rw [hout, hh]
    exact h.unknown

/-- A permit that is somewhere is dropped. -/
theorem Accounting.release (hh : t.heap = s.heap.release l)
    (hp : ∀ k, t.permits.count k + (if l = k then 1 else 0) = s.permits.count k) :
    Accounting t := by
  have hout : ∀ k, t.outstanding k = s.outstanding k - if l = k then 1 else 0 := by
    intro k
    rw [State.outstanding, hh]
    exact s.heap.outstanding_release l k
  refine ⟨?_, ?_⟩
  · intro k
    have := hp k
    rw [hout, h.outstanding]
    omega
  · intro k hk
    rw [hh] at hk
    rw [hout, h.unknown k hk, Nat.zero_sub]

theorem Accounting.publishBuffered (hf : s.frames = f :: fs) (kind : PublicationKind)
    (hk : s.known current) (route : Route) :
    Accounting (s.publishBuffered f fs kind current route) := by
  rw [publishBuffered_eq]
  refine h.acquire (h.outstanding_acquireChosen current)
    (chosen_lt_next hk) (next_le_acquireChosen s current) ?_
  intro k
  simp only [State.permits, recordNew, newMessage, hf, flatMap_cons,
    Frame.permits, Frame.permit, filterMap_append, filterMap_cons, filterMap_nil,
    count_append, count_cons, count_nil, beq_iff_eq]
  omega

theorem Accounting.sendNew (kind : PublicationKind) (hk : s.known current)
    (parent : Option (Nat × Route)) :
    Accounting ((s.recordNew current parent).send (.publication (s.newMessage kind current))) := by
  refine h.acquire (h.outstanding_acquireChosen current) (chosen_lt_next hk)
    (next_le_acquireChosen s current) ?_
  intro k
  simp only [State.permits, recordNew, newMessage, send, permit, filterMap_append, filterMap_cons,
    filterMap_nil, count_append, count_cons, count_nil, beq_iff_eq]
  omega

theorem Accounting.beginPublication {p : Publication} {inherited : Option Nat}
    (hp : p.lineage = some l) (hh : t.heap = s.heap)
    (hm : ∀ k, t.permits.count k + (if l = k then 1 else 0) = s.permits.count k) :
    Accounting (t.beginPublication p inherited) := by
  have hpermits : (p.frame l).permits = [l] := by
    cases hkind : p.kind <;>
      simp [Frame.permits, Frame.permit, Publication.frame, Phase.initial, hkind]
  rw [beginPublication_of_permit t hp]
  refine h.move hh ?_
  intro k
  have := hm k
  simp only [State.permits, State.register, flatMap_cons, hpermits, count_append,
    count_cons, count_nil, beq_iff_eq] at this ⊢
  omega

/-- A message that carries no permit is taken from the queue. -/
theorem Accounting.recvOther (hq : s.queue = m :: rest) (hm : m.permit = none)
    (hh : t.heap = s.heap) (hqt : t.queue = rest) (hf : t.frames = s.frames)
    (hheld : t.held = s.held) : Accounting t := by
  refine h.move hh fun k => ?_
  simp only [State.permits, hqt, hq, hf, hheld, filterMap_cons, hm]

end

theorem count_erase_add {ls : List Nat} (hl : l ∈ ls) (k : Nat) :
    (ls.erase l).count k + (if l = k then 1 else 0) = ls.count k := by
  have h := (perm_cons_erase hl).count_eq k
  rw [h, count_cons]
  simp only [beq_iff_eq]

theorem Accounting.known_permit (h : Accounting s) (hl : l ∈ s.permits) : l < s.heap.next := by
  by_contra hlt
  have h0 := h.unknown l (by omega)
  rw [h.outstanding] at h0
  exact count_eq_zero.mp h0 hl

theorem Accounting.known_of_frame (h : Accounting s) (hf : s.frames = f :: fs)
    (hp : f.phase = .delivering) : s.known (some f.lineage) := by
  have hl : f.lineage ∈ s.permits := by
    simp [State.permits, hf, Frame.permits, Frame.permit, hp]
  simpa [known] using h.known_permit hl

theorem Accounting.transition (h : Accounting s) (hloc : Located s) (hst : Transition s t) :
    Accounting t := by
  cases hst with
  | recvFlushReady hf hq _ | recvFlushDeferred hf hq _ | recvRegisterPending hf hq =>
    exact h.recvOther hq rfl rfl rfl rfl rfl
  | @recvCompletePending l rest hf hq =>
    refine h.release rfl ?_
    intro k
    simp only [State.permits, State.register, State.release, hq, filterMap_cons,
      permit, count_append, count_cons, beq_iff_eq]
    omega
  | @recvPublication p rest hf hq =>
    obtain ⟨l, hl, -⟩ := hloc.logged p (by
      simp [unbegun, hq, publication?])
    refine h.beginPublication hl rfl ?_
    intro k
    simp only [State.permits, hq, filterMap_cons, permit, hl, count_append, count_cons, beq_iff_eq]
    omega
  | complete hf => exact h.move rfl fun _ => rfl
  | publishNested kind hf hp =>
    exact h.publishBuffered hf kind (h.known_of_frame hf hp) _
  | publishTail kind hf hp =>
    exact h.sendNew kind (h.known_of_frame hf hp) _
  | reserve kind hf hp hk => exact h.publishBuffered hf kind hk _
  | reserved hf hp =>
    refine h.move rfl ?_
    simp [State.permits, hf, Frame.permits, Frame.permit, hp]
  | dropPermit hf hp =>
    refine h.release rfl ?_
    intro k
    rcases hp with hp | ⟨hp, -⟩ <;>
    · simp only [State.permits, State.release, hf, flatMap_cons, Frame.permits,
        Frame.permit, hp, reduceCtorEq, if_true, if_false, Option.toList_some,
        Option.toList_none, count_append, count_cons, beq_iff_eq]
      omega
  | @next f fs p rest hf hp hw =>
    obtain ⟨l, hl, -⟩ := hloc.logged p (by simp [unbegun, hf, hw])
    refine h.beginPublication hl rfl ?_
    intro k
    simp only [State.permits, hf, hw, flatMap_cons, Frame.permits, Frame.permit,
      filterMap_cons, hl, count_append, count_cons, beq_iff_eq]
    omega
  | «return» hf hp hw =>
    refine h.move rfl ?_
    simp [State.permits, returnFrame, completeReadyFlushes, hf, Frame.permits, Frame.permit, hp, hw]
  | send kind hk => exact h.sendNew kind hk _
  | flush includePending =>
    refine h.move rfl ?_
    intro k
    simp only [State.permits, send, filterMap_append, filterMap_cons,
      filterMap_nil, permit, append_nil]
  | registerPending =>
    have hfresh := outstanding_fresh true (h.unknown _ (Nat.le_refl _))
    refine h.acquire ?_ (Nat.lt_succ_self _) (Nat.le_succ _) ?_
    · intro k
      change _ = s.heap.outstanding k + _
      rw [← hfresh k]
      exact outstanding_acquire _ _ k
    · intro k
      simp only [State.permits, send, filterMap_append, filterMap_cons, filterMap_nil, permit,
        append_nil, count_append, count_cons, beq_iff_eq]
      omega
  | @dropPending l hl =>
    refine h.move rfl ?_
    intro k
    have := count_erase_add hl k
    simp only [State.permits, send, filterMap_append, filterMap_cons,
      filterMap_nil, permit, count_append, count_cons, count_nil, beq_iff_eq]
    omega
  | @take l hl =>
    refine h.acquire (s.heap.outstanding_acquire l) hl (Nat.le_refl _) ?_
    intro k
    simp only [State.permits, count_append, count_cons, beq_iff_eq]
    omega
  | @drop l hl =>
    refine h.release rfl ?_
    intro k
    have := count_erase_add hl k
    simp only [State.permits, State.release, count_append]
    omega

/-! ### Reachable states -/

structure Ledger (s : State) : Prop where
  located : Located s
  accounting : Accounting s

theorem Ledger.transition (h : Ledger s) (hst : Transition s t) : Ledger t :=
  ⟨h.located.transition hst, h.accounting.transition h.located hst⟩

theorem Ledger.initial : Ledger {} := by
  refine ⟨⟨?_, ?_, ?_⟩, ⟨?_, ?_⟩⟩ <;>
    simp [places, unbegun, State.permits, State.outstanding, outstanding]

/-- Every publication that exists waits, runs or has returned. -/
theorem Located.cases (h : Located s) {m : Nat} (hm : m < s.records.length) :
    m ∈ s.returned ∨ (∃ f ∈ s.frames, f.id = m) ∨ ∃ p ∈ s.unbegun, p.id = m := by
  have hpos : 0 < s.places.count m := by rw [h.once, if_pos hm]; exact Nat.one_pos
  simpa [places] using count_pos_iff.mp hpos

theorem Located.places_nodup (h : Located s) : s.places.Nodup := by
  rw [nodup_iff_count_le_one]
  intro m
  rw [h.once]
  split <;> omega

theorem Located.not_returned_of_frame (h : Located s) (hf : f ∈ s.frames) : f.id ∉ s.returned := by
  have hd := (nodup_append.mp h.places_nodup).2.2
  intro hr
  exact hd _ hr _ (mem_append_left _ (mem_map_of_mem hf)) rfl

/-- A publication that has not been handled keeps the count of its lineage above zero. -/
theorem Ledger.outstanding_pos (h : Ledger s) {m : Nat} (hm : s.lineageOf m = some l)
    (hh : ¬ s.Handled m) : 0 < s.outstanding l := by
  rw [h.accounting.outstanding, count_pos_iff]
  rcases h.located.cases (lineageOf_lt hm) with hr | ⟨f, hf, rfl⟩ | ⟨p, hp, rfl⟩
  · exact absurd (.inl hr) hh
  · have hphase : f.phase ≠ .nested := fun hp => hh (.inr ⟨f, hf, rfl, hp⟩)
    have hl := h.located.frames f hf
    rw [hm, Option.some.injEq] at hl
    refine mem_append_right _ (mem_append_left _ (mem_flatMap.mpr ⟨f, hf, ?_⟩))
    simp [Frame.permits, Frame.permit, hphase, hl]
  · obtain ⟨k, hk, hlog⟩ := h.located.logged p hp
    rw [hm, Option.some.injEq] at hlog
    subst hlog
    rcases mem_append.mp hp with hw | hq
    · obtain ⟨f, hf, hpf⟩ := mem_flatMap.mp hw
      refine mem_append_right _ (mem_append_left _ (mem_flatMap.mpr ⟨f, hf, ?_⟩))
      exact mem_append_right _ (mem_filterMap.mpr ⟨p, hpf, hk⟩)
    · obtain ⟨m, hmq, hmp⟩ := mem_filterMap.mp hq
      refine mem_append_left _ (mem_filterMap.mpr ⟨m, hmq, ?_⟩)
      cases m <;> simp_all [publication?, permit]

end NemoRelay.Dispatcher

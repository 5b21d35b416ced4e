import Mathlib.Data.List.TakeWhile
import NemoRelay.Runtime.DispatcherOrder

/-!
# Flushes

A flush waits for a set of lineages. `Covers s i L` says that the lineages of `L` keep watch over
everything published from the messages before position `i`: each such publication has been handled,
or its lineage is in `L`, or it is handled in the position of a barrier whose lineage is in `L`. A
step keeps this for every flush that has been taken from the queue, because a publication that is
not handled passes its own lineage on. An acknowledged flush is the case `L = []`.

The publications that a barrier receives may come with a lineage of their own. What they publish
onto the tail is then watched by nobody, unless the barrier itself was over before the flush.
-/

namespace NemoRelay.Dispatcher

open List

variable {s t : State} {i : Nat} {L : List Nat}

/-- The lineage of `m` is in `L`, or that of a barrier in whose position `m` is handled. -/
def Watched (s : State) (i : Nat) (L : List Nat) (m : Nat) : Prop :=
  ∃ b, Published s i b ∧ ¬ s.Handled b ∧ (b = m ∨ InPosition s b m) ∧
    ∃ l ∈ L, s.lineageOf b = some l

def Covers (s : State) (i : Nat) (L : List Nat) : Prop :=
  ∀ m, Published s i m → ¬ s.Handled m → Watched s i L m

/-- In the position of a barrier that came onto the tail, nothing is published onto the tail under
another lineage than the barrier's. -/
def KeepsLineage (s : State) (i : Nat) : Prop :=
  ∀ b m c l, Published s i b → ¬ Within s i b → InPosition s b m → s.Publishes m .tail c l →
    s.lineageOf b = some l

/-- The pending publications registered before position `i` have dropped their last permit or are
in `L`. -/
def CoversPending (s : State) (i : Nat) (L : List Nat) : Prop :=
  ∀ j l, j < i → s.sent[j]? = some (.registerPending l) → l ∈ s.heap.drained ∨ l ∈ L

/-- A lineage stays in the list of active lineages as long as the dispatcher holds a permit of it
or something that it published under that lineage is not handled. -/
structure Active (s : State) : Prop where
  frame : ∀ f ∈ s.frames, f.phase ≠ .nested → f.lineage ∈ s.loop.activeLineages
  child : ∀ m route c l, s.Publishes m route c l → s.lineageOf m = some l → ¬ s.Handled c →
    l ∈ s.loop.activeLineages

/-! ### What a step does to the histories -/

/-- A step puts at most one message on the queue. A flush gets its position as its channel, and a
pending publication holds a permit when it is registered. -/
theorem Transition.sent (hst : Transition s t) : t.sent = s.sent ∨
    ∃ m, t.sent = s.sent ++ [m] ∧
      (∀ done b, m = .flush done b → done = s.sent.length) ∧
      (∀ l, m = .registerPending l → 0 < t.outstanding l) := by
  cases hst with
  | recvFlushReady hf hq _ | recvFlushDeferred hf hq _ | recvRegisterPending hf hq
  | recvCompletePending hf hq => exact .inl (by simp [State.sent, hq])
  | @recvPublication p rest hf hq =>
    refine .inl ?_
    change (s.received ++ [.publication p]) ++ rest = s.received ++ s.queue
    simp [hq]
  | publishTail kind hf hp | send kind hk | dropPending hl =>
    refine .inr ⟨_, (append_assoc ..).symm, ?_, ?_⟩
    · intro done b h
      cases h
    · intro l h
      cases h
  | flush includePending =>
    refine .inr ⟨_, (append_assoc ..).symm, ?_, ?_⟩
    · intro done b h
      cases h
      rfl
    · intro l h
      cases h
  | registerPending =>
    refine .inr ⟨_, (append_assoc ..).symm, ?_, ?_⟩
    · intro done b h
      cases h
    · intro l h
      cases h
      have := (s.heap.fresh true).outstanding_acquire s.heap.next s.heap.next
      rw [if_pos rfl] at this
      change 0 < ((s.heap.fresh true).acquire s.heap.next).outstanding s.heap.next
      omega
  | _ => exact .inl rfl

variable {m l : Nat}

theorem Transition.lineageOf (hst : Transition s t) (h : s.lineageOf m = some l) :
    t.lineageOf m = some l := by
  rcases hst.records with hn | ⟨r, hn, -⟩
  · rwa [State.lineageOf, hn]
  · exact lineageOf_append h hn

/-- What has been handled stays handled. -/
theorem State.Handled.transition (h : s.Handled m) (hst : Transition s t) : t.Handled m := by
  rcases hst.calls with ⟨f, fs, hs, ht, -, hr⟩ | ⟨hr, hkept, -⟩
  · rw [State.Handled, hr, ht]
    rcases h with hm | ⟨k, hk, rfl, hp⟩
    · exact .inl (mem_cons_of_mem _ hm)
    · rw [hs] at hk
      rcases mem_cons.mp hk with rfl | hk
      · exact .inl (mem_cons_self ..)
      · exact .inr ⟨k, hk, rfl, hp⟩
  · rcases h with hm | ⟨k, hk, rfl, hp⟩
    · exact .inl (hr ▸ hm)
    · obtain ⟨g, hg, hkg⟩ := hkept k hk
      exact .inr ⟨g, hg, hkg.id, hkg.nested hp⟩

variable {f : Frame}

/-- A publication is not handled while its call holds the permit. -/
theorem Located.not_handled_of_frame (h : Located s) (hf : f ∈ s.frames)
    (hp : f.phase ≠ .nested) : ¬ s.Handled f.id := by
  have hnodup := (nodup_append.mp (nodup_append.mp h.places_nodup).2.1).1
  rintro (hr | ⟨g, hg, hid, hgp⟩)
  · exact h.not_returned_of_frame hf hr
  · rw [inj_on_of_nodup_map hnodup hg hf hid] at hgp
    exact hp hgp

theorem Located.not_handled_of_running (h : Located s) (hf : s.Running f) : ¬ s.Handled f.id := by
  obtain ⟨fs, hfs, hp⟩ := hf
  exact h.not_handled_of_frame (by rw [hfs]; exact mem_cons_self ..) hp

/-! ### A flush keeps watch -/

structure Sound (s : State) : Prop where
  ledger : Ledger s
  ordered : Ordered s
  holds : s.HoldsContent

theorem Sound.initial : Sound {} :=
  ⟨.initial, .initial, by simp [State.HoldsContent, State.Publishes]⟩

theorem Sound.transition (h : Sound s) (hst : Transition s t) : Sound t :=
  ⟨h.ledger.transition hst, h.ordered.transition h.ledger.located hst,
    h.holds.transition h.ordered h.ledger.located hst⟩

/-- A barrier is not handled before everything in its position is. -/
theorem Sound.not_handled_of_inPosition (h : Sound s) {b : Nat} (hm : InPosition s b m)
    (hh : ¬ s.Handled m) : ¬ s.Handled b := by
  rcases h.holds.inPosition h.ordered h.ledger.located hm with hr | ⟨f, hf, rfl, hreserves⟩
  · exact absurd (.inl hr) hh
  · refine h.ledger.located.not_handled_of_frame hf ?_
    rcases hreserves with hp | hp <;> rw [hp] <;> decide

theorem Sound.lineageOf_running (h : Sound s) (hf : s.Running f) :
    s.lineageOf f.id = some f.lineage := by
  obtain ⟨fs, hfs, -⟩ := hf
  exact h.ledger.located.frames f (by rw [hfs]; exact mem_cons_self ..)

theorem Sound.lt_of_inPosition (h : Sound s) {b : Nat} (hm : InPosition s b m) :
    b < s.records.length := by
  induction hm with
  | content hc => exact (h.ordered.parent_lt _ _ _ _ hc).trans (Publishes.lt hc)
  | inner _ _ _ ih => exact ih

section

variable (hst : Transition s t)
include hst

/-! Nothing that was published is taken back. -/

theorem Transition.publishes {c : Nat} {route : Route} (hc : s.Publishes m route c l) :
    t.Publishes m route c l := by
  rcases hst.records with hn | ⟨r, hn, -⟩
  · rwa [State.Publishes, hn]
  · exact (publishes_append hn).mpr (.inl hc)

theorem Transition.within (hm : Within s i m) : Within t i m := by
  induction hm with
  | @queued j p hj hsent =>
    refine .queued hj ?_
    rcases hst.sent with he | ⟨k, he, -⟩
    · rwa [he]
    · rw [he, getElem?_append_left (List.getElem?_eq_some_iff.mp hsent).1]
      exact hsent
  | inner _ hc ht ih => exact .inner ih (hst.publishes hc) ht

theorem Transition.published (hm : Published s i m) : Published t i m := by
  induction hm with
  | within hw => exact .within (hst.within hw)
  | publishes _ hc ih => exact .publishes ih (hst.publishes hc)

theorem Transition.inPosition {b : Nat} (hm : InPosition s b m) : InPosition t b m := by
  induction hm with
  | content hc => exact .content (hst.publishes hc)
  | inner _ hc ht ih => exact .inner ih (hst.publishes hc) ht

variable (h : Sound s)
include h

/-- A publication is from before the step, or the running call has just made it. -/
theorem Sound.publishes_cases {c : Nat} {route : Route} (hc : t.Publishes m route c l) :
    (s.Publishes m route c l ∧ t.lineageOf m = s.lineageOf m) ∨
      c = s.records.length ∧ ∃ f, s.Running f ∧ f.id = m := by
  rcases hst.records with hn | ⟨r, hn, hr⟩
  · rw [State.Publishes, hn] at hc
    exact .inl ⟨hc, by rw [State.lineageOf, hn, State.lineageOf]⟩
  · rcases (publishes_append hn).mp hc with hcs | ⟨rfl, rfl⟩
    · have hlt := (h.ordered.parent_lt m route c l hcs).trans (Publishes.lt hcs)
      exact .inl ⟨hcs, lineageOf_eq_of_lt hlt hn⟩
    · exact .inr ⟨rfl, (hr m route rfl).1⟩

variable (hi : i < s.received.length)
include hi

/-- The publications within earlier messages do not change once those messages are over. -/
theorem Sound.within_transition (hm : Within t i m) : Within s i m := by
  induction hm with
  | @queued j p hj hsent =>
    refine .queued hj ?_
    rcases hst.sent with he | ⟨k, he, -⟩
    · rwa [he] at hsent
    · rwa [he, getElem?_append_left (by simp [State.sent]; omega)] at hsent
  | @inner m c l route _ hc ht ih =>
    rcases h.publishes_cases hst hc with ⟨hc, -⟩ | ⟨-, f, hf, rfl⟩
    · exact .inner ih hc ht
    · have hret := h.ordered.returned_of_within h.ledger.located hi ih
      exact absurd (.inl hret) (h.ledger.located.not_handled_of_running hf)

/-- A run that keeps to the lineages kept to them before its last step. -/
theorem KeepsLineage.of_transition (hk : KeepsLineage t i) : KeepsLineage s i := by
  intro b m c l hb hw hpos hc
  have hlin := hk b m c l (hst.published hb) (fun hw' => hw (h.within_transition hst hi hw'))
    (hst.inPosition hpos) (hst.publishes hc)
  rcases hst.records with hn | ⟨r, hn, -⟩
  · rwa [State.lineageOf, hn] at hlin
  · rwa [lineageOf_eq_of_lt (h.lt_of_inPosition hpos) hn] at hlin

/-- What is published from earlier messages after a step was so before, or has just been
published by a running call that was. -/
theorem Sound.published_transition (hm : Published t i m) : Published s i m ∨
      ∃ f route l, s.Running f ∧ Published s i f.id ∧ m = s.records.length ∧
        t.Publishes f.id route m l := by
  induction hm with
  | within hw => exact .inl (.within (h.within_transition hst hi hw))
  | @publishes m c l route _ hc ih =>
    rcases h.publishes_cases hst hc with ⟨hcs, -⟩ | ⟨rfl, f, hf, rfl⟩
    · rcases ih with hm | ⟨-, -, -, -, -, rfl, -⟩
      · exact .inl (.publishes hm hcs)
      · have hlt := h.ordered.parent_lt _ route c l hcs
        have hclt := Publishes.lt hcs
        omega
    · rcases ih with hm | ⟨-, -, -, -, -, heq, -⟩
      · exact .inr ⟨f, route, l, hf, hm, rfl, hc⟩
      · have := lineageOf_lt (h.lineageOf_running hf)
        omega

/-- A publication of a watched call is watched. -/
theorem Sound.watched_child (ht : Sound t) (hkeeps : KeepsLineage t i) {c : Nat}
    {route : Route} (hc : t.Publishes m route c l) (hpub : Published t i c) (hh : ¬ t.Handled c)
    (hm : Watched s i L m) : Watched t i L c := by
  obtain ⟨b, hb, hbh, hpos, k, hk, hlin⟩ := hm
  have self : t.lineageOf b = some l → Watched t i L c := by
    intro hl
    rw [hst.lineageOf hlin, Option.some.injEq] at hl
    exact ⟨c, hpub, hh, .inl rfl, k, hk, by rw [Publishes.lineageOf hc, hl]⟩
  have inside : InPosition t b c → Watched t i L c := fun hpos =>
    ⟨b, hst.published hb, ht.not_handled_of_inPosition hpos hh, .inr hpos, k, hk,
      hst.lineageOf hlin⟩
  rcases hpos with rfl | hpos
  · by_cases hr : route = .reserved
    · subst hr
      exact inside (.content hc)
    · exact self (ht.ordered.inherits _ _ _ _ hc hr)
  · by_cases htail : route = .tail
    · subst htail
      refine self (hkeeps b m c l (hst.published hb) (fun hw => ?_) (hst.inPosition hpos) hc)
      have hw := h.within_transition hst hi hw
      exact hbh (.inl (h.ordered.returned_of_within h.ledger.located hi hw))
    · exact inside (.inner (hst.inPosition hpos) hc htail)

theorem Covers.transition (hcov : Covers s i L) (hkeeps : KeepsLineage t i) : Covers t i L := by
  have ht := h.transition hst
  intro m hm hh
  rcases h.published_transition hst hi hm with hms | ⟨f, route, l, hf, hpub, rfl, hc⟩
  · obtain ⟨b, hb, -, hpos, l, hl, hlin⟩ := hcov m hms fun hs => hh (hs.transition hst)
    have hpos := hpos.imp_right hst.inPosition
    refine ⟨b, hst.published hb, ?_, hpos, l, hl, hst.lineageOf hlin⟩
    rcases hpos with rfl | hpos
    · exact hh
    · exact ht.not_handled_of_inPosition hpos hh
  · have hwatched := hcov f.id hpub (h.ledger.located.not_handled_of_running hf)
    exact h.watched_child hst hi ht hkeeps hc hm hh hwatched

end

/-- A flush whose lineages have no permits left has nothing to wait for. -/
theorem Covers.ready (hcov : Covers s i L) (h : Sound s) (hL : ∀ l ∈ L, s.outstanding l = 0) :
    Covers s i [] := by
  intro m hm hh
  obtain ⟨b, -, hbh, -, l, hl, hlin⟩ := hcov m hm hh
  have hpos := h.ledger.outstanding_pos hlin hbh
  have hzero := hL l hl
  omega

/-! ### Active lineages -/

/-- A lineage with permits is never dropped from the active ones. -/
theorem Transition.active (hst : Transition s t) (hl : l ∈ s.loop.activeLineages)
    (hpos : 0 < s.outstanding l) : l ∈ t.loop.activeLineages := by
  have filtered : l ∈ s.completeReadyFlushes.loop.activeLineages := by
    simp [State.completeReadyFlushes, hl, hpos]
  cases hst with
  | recvRegisterPending hf hq | recvCompletePending hf hq | recvPublication hf hq
  | next hf hp hw => exact mem_register.mpr (.inr hl)
  | complete hf | «return» hf hp hw => exact filtered
  | _ => exact hl

/-- A call that holds a permit held it before the step, or has just registered its lineage. -/
theorem Transition.frames (hst : Transition s t) {g : Frame} (hg : g ∈ t.frames)
    (hp : g.phase ≠ .nested) :
    g.lineage ∈ t.loop.activeLineages ∨
      ∃ f ∈ s.frames, f.phase ≠ .nested ∧ f.lineage = g.lineage := by
  rcases hst.calls with ⟨f, fs, hs, ht, -, -⟩ | ⟨-, -, hfrom⟩
  · exact .inr ⟨g, by rw [hs, ← ht]; exact mem_cons_of_mem _ hg, hp, rfl⟩
  · refine (hfrom g hg).imp_right ?_
    rintro ⟨f, hf, hfg⟩
    exact ⟨f, hf, fun hn => hp (hfg.nested hn), hfg.lineage.symm⟩

theorem Accounting.pos_of_frame (h : Accounting s) (hf : f ∈ s.frames)
    (hp : f.phase ≠ .nested) : 0 < s.outstanding f.lineage := by
  rw [h.outstanding, count_pos_iff]
  refine mem_append_right _ (mem_append_left _ (mem_flatMap.mpr ⟨f, hf, ?_⟩))
  simp [Frame.permits, Frame.permit, hp]

theorem Active.transition (h : Active s) (hs : Sound s) (hst : Transition s t) : Active t := by
  refine ⟨?_, ?_⟩
  · intro g hg hp
    rcases hst.frames hg hp with hl | ⟨f, hf, hfp, hl⟩
    · exact hl
    · rw [← hl]
      exact hst.active (h.frame f hf hfp) (hs.ledger.accounting.pos_of_frame hf hfp)
  · intro m route c l hc hl hh
    rcases hs.publishes_cases hst hc with ⟨hcs, heq⟩ | ⟨-, f, hf, rfl⟩
    · rw [heq] at hl
      have hhs : ¬ s.Handled c := fun hs => hh (hs.transition hst)
      exact hst.active (h.child m route c l hcs hl hhs)
        (hs.ledger.outstanding_pos (Publishes.lineageOf hcs) hhs)
    · have hfl := hst.lineageOf (hs.lineageOf_running hf)
      rw [hl, Option.some.injEq] at hfl
      obtain ⟨fs, hfs, hp⟩ := hf
      have hmem : f ∈ s.frames := by rw [hfs]; exact mem_cons_self ..
      rw [hfl]
      exact hst.active (h.frame f hmem hp) (hs.ledger.accounting.pos_of_frame hmem hp)

/-! ### Pending publications -/

structure Registered (s : State) : Prop where
  live : ∀ l, .registerPending l ∈ s.sent → l ∈ s.heap.drained ∨ 0 < s.outstanding l
  active : ∀ l, .registerPending l ∈ s.received → l ∈ s.heap.drained ∨ l ∈ s.loop.activeLineages

/-- What a step does to the heap. -/
inductive HeapStep (h : Heap) : Heap → Prop
  | same : HeapStep h h
  | acquire (l : Nat) : HeapStep h (h.acquire l)
  | release (l : Nat) : HeapStep h (h.release l)
  | fresh (b : Bool) : HeapStep h ((h.fresh b).acquire h.next)

theorem HeapStep.acquireChosen (h : Heap) (current : Option Nat) :
    HeapStep h (h.acquireChosen current) := by
  cases current with
  | some l => exact .acquire l
  | none => exact .fresh false

theorem Transition.heap (hst : Transition s t) (hloc : Located s) : HeapStep s.heap t.heap := by
  cases hst with
  | recvCompletePending hf hq | dropPermit hf hp | drop hl => exact .release _
  | @recvPublication p rest hf hq =>
    obtain ⟨l, hl, -⟩ := hloc.logged p (by
      simp [State.unbegun, hq, DispatcherMessage.publication?])
    rw [beginPublication_of_permit _ hl]
    exact .same
  | @publishNested f fs kind hf hp | @publishTail f fs kind hf hp => exact .acquire f.lineage
  | @reserve f fs kind current hf hp hk =>
    rw [publishBuffered_eq]
    exact .acquireChosen s.heap current
  | @next f fs p rest hf hp hw =>
    obtain ⟨l, hl, -⟩ := hloc.logged p (by simp [State.unbegun, hf, hw])
    rw [beginPublication_of_permit _ hl]
    exact .same
  | @send kind current hk => exact .acquireChosen s.heap current
  | registerPending => exact .fresh true
  | take hl => exact .acquire _
  | _ => exact .same

theorem HeapStep.drained {h k : Heap} (hk : HeapStep h k) : h.drained ⊆ k.drained := by
  cases hk with
  | release l =>
    simp only [Heap.release]
    split
    · exact subset_cons_self ..
    · exact List.Subset.refl _
  | _ => exact List.Subset.refl _

/-- The count of a lineage with permits stays above zero until it is drained. -/
theorem HeapStep.live {h k : Heap} (hk : HeapStep h k) (h0 : h.outstanding h.next = 0)
    (hl : l ∈ h.drained ∨ 0 < h.outstanding l) : l ∈ k.drained ∨ 0 < k.outstanding l := by
  have hsub := hk.drained
  rcases hl with hl | hl
  · exact .inl (hsub hl)
  cases hk with
  | same => exact .inr hl
  | acquire m =>
    rw [Heap.outstanding_acquire]
    exact .inr (by omega)
  | release m =>
    by_cases hml : m = l ∧ h.outstanding l = 1
    · obtain ⟨rfl, h1⟩ := hml
      exact .inl (by simp [Heap.release, h1])
    · rw [Heap.outstanding_release]
      split_ifs with hm <;> exact .inr (by omega)
  | fresh b =>
    rw [Heap.outstanding_acquire, Heap.outstanding_fresh b h0]
    exact .inr (by omega)

section

variable (hst : Transition s t)
include hst

theorem Transition.drained (hs : Sound s) :
    s.heap.drained ⊆ t.heap.drained :=
  (hst.heap hs.ledger.located).drained

theorem Transition.live (hs : Sound s) {k : Nat}
    (hk : k ∈ s.heap.drained ∨ 0 < s.outstanding k) : k ∈ t.heap.drained ∨ 0 < t.outstanding k :=
  (hst.heap hs.ledger.located).live (hs.ledger.accounting.unknown _ (Nat.le_refl _)) hk

theorem Transition.received : t.received = s.received ∨
    ∃ m, t.received = s.received ++ [m] ∧
      ∀ l, m = .registerPending l → l ∈ t.loop.activeLineages := by
  cases hst with
  | recvFlushReady hf hq _ | recvFlushDeferred hf hq _ | recvCompletePending hf hq
  | recvPublication hf hq => exact .inr ⟨_, rfl, nofun⟩
  | recvRegisterPending hf hq =>
    refine .inr ⟨_, rfl, ?_⟩
    intro l h
    cases h
    exact mem_register.mpr (.inl rfl)
  | _ => exact .inl rfl

theorem Registered.transition (h : Registered s) (hs : Sound s) : Registered t := by
  have live : ∀ l, .registerPending l ∈ t.sent → l ∈ t.heap.drained ∨ 0 < t.outstanding l := by
    intro l hl
    rcases hst.sent with he | ⟨m, he, -, hm⟩
    · rw [he] at hl
      exact hst.live hs (h.live l hl)
    · rw [he] at hl
      rcases mem_append.mp hl with hl | hl
      · exact hst.live hs (h.live l hl)
      · exact .inr (hm l (mem_singleton.mp hl).symm)
  refine ⟨live, ?_⟩
  have keep : ∀ l, .registerPending l ∈ s.received →
      l ∈ t.heap.drained ∨ l ∈ t.loop.activeLineages := by
    intro l hl
    rcases h.live l (mem_append_left _ hl) with hd | hpos
    · exact .inl (hst.drained hs hd)
    · rcases h.active l hl with hd | ha
      · exact .inl (hst.drained hs hd)
      · exact .inr (hst.active ha hpos)
  intro l hl
  rcases hst.received with he | ⟨m, he, hm⟩
  · rw [he] at hl
    exact keep l hl
  · rw [he] at hl
    rcases mem_append.mp hl with hl | hl
    · exact keep l hl
    · exact .inr (hm l (mem_singleton.mp hl).symm)

/-! ### Acknowledgements -/

/-- A flush that includes pending publications and waits for `L` misses nothing. -/
structure Watches (s : State) (i : Nat) (L : List Nat) : Prop where
  covers : KeepsLineage s i → Covers s i L
  pending : CoversPending s i L

structure Flushes (s : State) : Prop where
  channel : ∀ (i done : Nat) (b : Bool), s.sent[i]? = some (.flush done b) → done = i
  deferred : ∀ f ∈ s.loop.pendingFlushes, f.done < s.received.length ∧
    (s.sent[f.done]? = some (.flush f.done true) → Watches s f.done f.lineages)
  acknowledged : ∀ i ∈ s.acknowledged, i < s.received.length ∧
    (s.sent[i]? = some (.flush i true) → Watches s i [])

theorem sent_of_received (hi : i < s.received.length) {j : Nat} (hj : j ≤ i) :
    t.sent[j]? = s.sent[j]? := by
  rcases hst.sent with he | ⟨m, he, -⟩
  · rw [he]
  · rw [he, getElem?_append_left]
    simp only [State.sent, length_append]
    omega

theorem Transition.received_length (hi : i < s.received.length) :
    i < t.received.length := by
  rcases hst.received with he | ⟨m, he, -⟩ <;> rw [he]
  · exact hi
  · rw [length_append]
    omega

theorem Watches.transition (h : Watches s i L) (hs : Sound s) (hi : i < s.received.length) :
    Watches t i L := by
  refine ⟨fun hk => (h.covers (hk.of_transition hst hs hi)).transition hst hs hi hk, ?_⟩
  intro j l hj hsent
  rw [sent_of_received hst hi (Nat.le_of_lt hj)] at hsent
  exact (h.pending j l hj hsent).imp_left fun hd => hst.drained hs hd

end

theorem Watches.ready (h : Watches s i L) (hs : Sound s) (hr : Registered s)
    (hL : ∀ l ∈ L, s.outstanding l = 0) : Watches s i [] := by
  refine ⟨fun hk => (h.covers hk).ready hs hL, ?_⟩
  intro j l hj hsent
  rcases h.pending j l hj hsent with hd | hl
  · exact .inl hd
  · have hzero := hL l hl
    rcases hr.live l (mem_of_getElem? hsent) with hd | hpos
    · exact .inl hd
    · omega

/-- What a flush finds when it is taken from the queue: every earlier message has been handled,
and the lineages of everything still on its way are active. -/
theorem Sound.watches (hs : Sound s) (ha : Active s) (hr : Registered s)
    (hi : i < s.received.length) : Watches s i (s.flushLineages true) := by
  have mem : ∀ {l : Nat}, l ∈ s.loop.activeLineages → 0 < s.outstanding l →
      l ∈ s.flushLineages true := by
    intro l hl hpos
    simp [State.flushLineages, hl, hpos]
  refine ⟨fun _ => ?_, ?_⟩
  · intro m hm hh
    induction hm with
    | within hw => exact absurd (.inl (hs.ordered.returned_of_within hs.ledger.located hi hw)) hh
    | @publishes m c l route hm hc ih =>
      by_cases hr : route = .reserved
      · -- The barrier itself is not handled, and what watches it watches its position.
        subst hr
        obtain ⟨b, hb, hbh, hpos, hl⟩ := ih (hs.not_handled_of_inPosition (.content hc) hh)
        refine ⟨b, hb, hbh, .inr ?_, hl⟩
        rcases hpos with rfl | hpos
        · exact .content hc
        · exact .inner hpos hc nofun
      · have hlin := Publishes.lineageOf hc
        have hact := ha.child m route c l hc (hs.ordered.inherits _ _ _ _ hc hr) hh
        exact ⟨c, .publishes hm hc, hh, .inl rfl, l, mem hact (hs.ledger.outstanding_pos hlin hh),
          hlin⟩
  · intro j l hj hsent
    rw [State.sent, getElem?_append_left (by omega)] at hsent
    have hrec := mem_of_getElem? hsent
    rcases hr.active l hrec with hd | hact
    · exact .inl hd
    · exact (hr.live l (mem_append_left _ hrec)).imp_right (mem hact)

section

variable (hst : Transition s t)
include hst

/-- A step releases flushes from the front, or appends the one that it has just taken from the
queue. -/
theorem Transition.pendingFlushes :
    (∃ n, t.loop.pendingFlushes = s.loop.pendingFlushes.drop n) ∨
      ∃ f b, t.loop.pendingFlushes = s.loop.pendingFlushes ++ [f] ∧
        t.received = s.received ++ [.flush f.done b] ∧ f.lineages = t.flushLineages b := by
  cases hst with
  | @recvFlushDeferred done b rest _ hq _ => exact .inr ⟨_, b, rfl, rfl, rfl⟩
  | complete _ | «return» _ _ _ => exact .inl ⟨_, rfl⟩
  | _ => exact .inl ⟨0, rfl⟩

theorem Transition.deferred {f : PendingFlush} (hf : f ∈ t.loop.pendingFlushes) :
    f ∈ s.loop.pendingFlushes ∨
      ∃ b, t.received = s.received ++ [.flush f.done b] ∧ f.lineages = t.flushLineages b := by
  rcases hst.pendingFlushes with ⟨n, he⟩ | ⟨g, b, he, hg⟩
  · rw [he] at hf
    exact .inl (mem_of_mem_drop hf)
  · rw [he] at hf
    rcases mem_append.mp hf with hf | hf
    · exact .inl hf
    · rw [mem_singleton.mp hf]
      exact .inr ⟨b, hg⟩

/-- A flush that is acknowledged after a step was so before, or waited for lineages without
permits, or has just been taken from the queue with nothing to wait for. -/
theorem Transition.acknowledged (hi : i ∈ t.acknowledged) :
    i ∈ s.acknowledged ∨
      (∃ f ∈ s.loop.pendingFlushes, f.done = i ∧ ∀ l ∈ f.lineages, s.outstanding l = 0) ∨
      ∃ b, t.received = s.received ++ [.flush i b] ∧ t.flushLineages b = [] := by
  have ready : i ∈ s.completeReadyFlushes.acknowledged → i ∈ s.acknowledged ∨
      ∃ f ∈ s.loop.pendingFlushes, f.done = i ∧ ∀ l ∈ f.lineages, s.outstanding l = 0 := by
    intro hi
    rcases mem_append.mp hi with hi | hi
    · exact .inl hi
    · obtain ⟨f, hf, hd⟩ := mem_map.mp hi
      have hready := mem_takeWhile_imp hf
      simp only [State.flushReady, all_eq_true, beq_iff_eq] at hready
      exact .inr ⟨f, takeWhile_subset _ hf, hd, hready⟩
  cases hst with
  | @recvFlushReady done b rest _ hq hl =>
    rcases mem_append.mp hi with hi | hi
    · exact .inl hi
    · rw [mem_singleton.mp hi]
      exact .inr (.inr ⟨b, rfl, hl⟩)
  | complete _ | «return» _ _ _ => exact (ready hi).imp_right .inl
  | _ => exact .inl hi

theorem Flushes.channel_transition (h : Flushes s) :
    ∀ (i done : Nat) (b : Bool), t.sent[i]? = some (.flush done b) → done = i := by
  intro i done b hi
  rcases hst.sent with he | ⟨m, he, hm, -⟩
  · rw [he] at hi
    exact h.channel i done b hi
  · rw [he, getElem?_concat_eq_some] at hi
    rcases hi with hi | ⟨rfl, hmem⟩
    · exact h.channel i done b hi
    · exact hm done b hmem

end

theorem Flushes.just_received {b : Bool}
    (hchan : ∀ (i done : Nat) (b : Bool), t.sent[i]? = some (.flush done b) → done = i)
    (he : t.received = s.received ++ [.flush i b]) :
    i = s.received.length ∧ t.sent[i]? = some (.flush i b) ∧ i < t.received.length := by
  have hget : t.sent[s.received.length]? = some (.flush i b) := by
    rw [State.sent, he, append_assoc]
    simp
  obtain rfl := hchan _ _ _ hget
  refine ⟨rfl, hget, ?_⟩
  rw [he, length_append, length_singleton]
  omega

theorem Flushes.transition (h : Flushes s) (hs : Sound s) (ha : Active s) (hr : Registered s)
    (hst : Transition s t) : Flushes t := by
  have hchan := h.channel_transition hst
  have fresh : ∀ {i : Nat} {b : Bool}, t.received = s.received ++ [.flush i b] →
      i < t.received.length ∧ (t.sent[i]? = some (.flush i true) →
        Watches t i (t.flushLineages b)) := by
    intro i b he
    obtain ⟨rfl, hget, hlt⟩ := Flushes.just_received hchan he
    refine ⟨hlt, ?_⟩
    intro htrue
    rw [hget] at htrue
    cases htrue
    exact (hs.transition hst).watches (ha.transition hs hst) (hr.transition hst hs) hlt
  have keep : ∀ {i : Nat} {L : List Nat}, i < s.received.length →
      (s.sent[i]? = some (.flush i true) → Watches s i L) →
      i < t.received.length ∧ (t.sent[i]? = some (.flush i true) → Watches t i L) := by
    intro i L hlt hw
    refine ⟨hst.received_length hlt, ?_⟩
    rw [sent_of_received hst hlt (Nat.le_refl _)]
    exact fun hsent => (hw hsent).transition hst hs hlt
  refine ⟨hchan, ?_, ?_⟩
  · intro f hf
    rcases hst.deferred hf with hf | ⟨b, he, hL⟩
    · exact keep (h.deferred f hf).1 (h.deferred f hf).2
    · rw [hL]
      exact fresh he
  · intro i hi
    rcases hst.acknowledged hi with hi | ⟨f, hf, rfl, hzero⟩ | ⟨b, he, hL⟩
    · exact keep (h.acknowledged i hi).1 (h.acknowledged i hi).2
    · obtain ⟨hlt, hw⟩ := h.deferred f hf
      exact keep hlt fun hsent => (hw hsent).ready hs hr hzero
    · rw [← hL]
      exact fresh he

structure Invariant (s : State) : Prop where
  sound : Sound s
  active : Active s
  registered : Registered s
  flushes : Flushes s

theorem Invariant.initial : Invariant {} := by
  refine ⟨.initial, ⟨?_, ?_⟩, ⟨?_, ?_⟩, ⟨?_, ?_, ?_⟩⟩ <;> simp [State.Publishes, State.sent]

theorem Invariant.transition (h : Invariant s) (hst : Transition s t) : Invariant t :=
  ⟨h.sound.transition hst, h.active.transition h.sound hst,
    h.registered.transition hst h.sound,
    h.flushes.transition h.sound h.active h.registered hst⟩

theorem reachable_invariant (hs : system.Reachable s) : Invariant s :=
  reachable_of_transition .initial (fun _ _ h hst => h.transition hst) hs

/-- A flush that includes pending publications is acknowledged only after every `Deliver` and
`Barrier` queued before it has returned and every pending publication registered before it has
dropped its last permit. Everything published from those messages has been handled too, if what
comes in the position of a tail barrier keeps to the barrier's lineage on the tail. -/
theorem flush_acknowledged_after_publications {done : Nat} (hs : system.Reachable s)
    (hsent : s.sent[i]? = some (.flush done true)) (hack : done ∈ s.acknowledged) :
    (∀ j p, j < i → s.sent[j]? = some (.publication p) → p.id ∈ s.returned) ∧
    (KeepsLineage s i → ∀ m, Published s i m → s.Handled m) ∧
    (∀ j l, j < i → s.sent[j]? = some (.registerPending l) → l ∈ s.heap.drained) := by
  have h := reachable_invariant hs
  obtain rfl := h.flushes.channel i done true hsent
  obtain ⟨hlt, hw⟩ := h.flushes.acknowledged done hack
  have hwatch := hw hsent
  refine ⟨?_, ?_, ?_⟩
  · intro j p hj hp
    exact h.sound.ordered.returned_of_within h.sound.ledger.located hlt (.queued hj hp)
  · intro hkeeps m hm
    by_contra hh
    obtain ⟨-, -, -, -, l, hl, -⟩ := hwatch.covers hkeeps m hm hh
    cases hl
  · exact fun j l hj hl => (hwatch.pending j l hj hl).resolve_right not_mem_nil

/-- A pending publication, a delivery that publishes a barrier into its nested buffer and an event
onto the queue tail, and a flush behind them. -/
def flushRun : List Action :=
  [.registerPending, .send .deliver none, .flush true none, .recv, .complete, .recv,
    .publishNested .barrier, .publishTail .deliver, .delivered, .next, .reserve .deliver none,
    .reserved, .next, .delivered, .return, .barrierDone, .return, .return, .complete, .recv,
    .complete, .dropPending 0, .recv, .delivered, .return, .complete, .recv, .complete]

def flushRunEnd : State := (system.run {} flushRun).getD {}

theorem flushRunEnd_reachable : system.Reachable flushRunEnd :=
  System.reachable_of_run (M := system) flushRun rfl rfl

/-- A pending publication, a delivery whose subscriber queues a barrier on the tail, and a flush
behind them. The barrier receives an event under the given lineage, which publishes one more event
onto the tail. -/
def tailBarrierRun (current : Option Nat) : List Action :=
  [.registerPending, .send .deliver none, .flush true none, .recv, .complete, .recv,
    .publishTail .barrier, .delivered, .return, .complete, .recv, .complete, .dropPending 0, .recv,
    .reserve .deliver current, .reserved, .next, .publishTail .deliver, .delivered, .return,
    .barrierDone, .return, .complete, .recv, .complete]

/-- The event of the barrier comes with a new lineage, as that of a stream with a synchronous
finalizer does. -/
def strayEnd : State := (system.run {} (tailBarrierRun none)).getD {}

/-- The flush is acknowledged while the last event is still queued. -/
theorem flush_overtakes_stray : system.Reachable strayEnd ∧
    strayEnd.sent[2]? = some (.flush 2 true) ∧ 2 ∈ strayEnd.acknowledged ∧
    Published strayEnd 2 3 ∧ ¬ strayEnd.Handled 3 := by
  have hdelivery : Published strayEnd 2 0 :=
    .within (.queued (j := 1) (p := ⟨0, .deliver, some 1⟩) (by decide) (by decide))
  have hbarrier : Published strayEnd 2 1 := .publishes hdelivery
    (rfl : strayEnd.Publishes 0 .tail 1 1)
  have hevent : Published strayEnd 2 2 := .publishes hbarrier
    (rfl : strayEnd.Publishes 1 .reserved 2 2)
  refine ⟨System.reachable_of_run (M := system) (tailBarrierRun none) rfl rfl, by decide,
    by decide, .publishes hevent (rfl : strayEnd.Publishes 2 .tail 3 2), ?_⟩
  rintro (hr | ⟨f, hf, -⟩)
  · exact absurd hr (by decide)
  · cases hf

/-- The same with the barrier's own lineage, until the last event is handled. -/
def keptRun : List Action := tailBarrierRun (some 1) ++ [.recv, .delivered, .return, .complete]

def keptEnd : State := (system.run {} keptRun).getD {}

theorem keptEnd_reachable : system.Reachable keptEnd :=
  System.reachable_of_run (M := system) keptRun rfl rfl

theorem keptEnd_keepsLineage : KeepsLineage keptEnd 2 := by
  intro b m c l _ _ hpos hc
  have hall : ∀ r ∈ keptEnd.records, r.lineage = 1 := by decide
  have hb := (reachable_invariant keptEnd_reachable).sound.lt_of_inPosition hpos
  have hl : l = 1 := hall _ (mem_of_getElem? hc)
  rw [State.lineageOf, getElem?_eq_getElem hb, Option.map_some, hall _ (getElem_mem hb), hl]

theorem keptEnd_acknowledged : 2 ∈ keptEnd.acknowledged ∧
    (∀ j p, j < 2 → keptEnd.sent[j]? = some (.publication p) → p.id ∈ keptEnd.returned) ∧
    (∀ m, Published keptEnd 2 m → keptEnd.Handled m) ∧
    (∀ j l, j < 2 → keptEnd.sent[j]? = some (.registerPending l) →
      l ∈ keptEnd.heap.drained) := by
  have hsent : keptEnd.sent[2]? = some (.flush 2 true) := by decide
  have hack : 2 ∈ keptEnd.acknowledged := by decide
  obtain ⟨hqueued, hpublished, hpending⟩ :=
    flush_acknowledged_after_publications keptEnd_reachable hsent hack
  exact ⟨hack, hqueued, hpublished keptEnd_keepsLineage, hpending⟩

end NemoRelay.Dispatcher

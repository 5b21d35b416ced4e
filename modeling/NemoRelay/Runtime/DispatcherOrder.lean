import NemoRelay.Runtime.DispatcherLedger

/-!
# Who published what, and in which order it is handled

`Within s i` is the set of publications that are handled inside a call of `handle_message` for a
message queued before position `i`: that message itself, its nested publications, the publications
that its barrier received, and so on. `Published s i` adds everything that these publish, on any
route and under any lineage.
-/

namespace NemoRelay.Dispatcher

open List
open List.Subset (refl)

variable {s t : State} {i : Nat}

/-- The handling of `m` has published `c`, with lineage `l`. -/
def State.Publishes (s : State) (m : Nat) (route : Route) (c l : Nat) : Prop :=
  s.records[c]? = some { lineage := l, parent := some (m, route) }

inductive Within (s : State) (i : Nat) : Nat → Prop
  | queued {j : Nat} {p : Publication} (hj : j < i) (h : s.sent[j]? = some (.publication p)) :
      Within s i p.id
  | inner {m c l : Nat} {route : Route} (hm : Within s i m) (hc : s.Publishes m route c l)
      (ht : route ≠ .tail) : Within s i c

/-- What is published transitively from the messages queued before position `i`. -/
inductive Published (s : State) (i : Nat) : Nat → Prop
  | within {m : Nat} (h : Within s i m) : Published s i m
  | publishes {m c l : Nat} {route : Route} (hm : Published s i m)
      (hc : s.Publishes m route c l) : Published s i c

/-- `m` is handled in the position that the barrier `b` reserves: it is one of the publications
that the barrier receives, or inside of one. -/
inductive InPosition (s : State) (b : Nat) : Nat → Prop
  | content {c l : Nat} (hc : s.Publishes b .reserved c l) : InPosition s b c
  | inner {m c l : Nat} {route : Route} (hm : InPosition s b m) (hc : s.Publishes m route c l)
      (ht : route ≠ .tail) : InPosition s b c

/-- The publication `c` waits in the frame of `m`, or one of the calls above that frame handles
it. -/
def State.InsideFrame (s : State) (m c : Nat) : Prop :=
  ∃ above f below, s.frames = above ++ f :: below ∧ f.id = m ∧
    (c ∈ f.waiting.map Publication.id ∨ c ∈ above.map Frame.id)

structure Ordered (s : State) : Prop where
  parent_lt : ∀ m route c l, s.Publishes m route c l → m < c
  inherits : ∀ m route c l, s.Publishes m route c l → route ≠ .reserved → s.lineageOf m = some l
  inner : ∀ m route c l, s.Publishes m route c l → route ≠ .tail →
    c ∈ s.returned ∨ s.InsideFrame m c
  received : ∀ j p, s.received[j]? = some (.publication p) →
    p.id ∈ s.returned ∨ j + 1 = s.received.length ∧ p.id ∈ s.frames.map Frame.id

/-- A barrier that waits for its publications, or handles them. -/
def Frame.Reserves (f : Frame) : Prop := f.phase = .receiving ∨ f.phase = .reserved

/-- A barrier holds its permit until the publications that it received have returned. -/
def State.HoldsContent (s : State) : Prop :=
  ∀ b c l, s.Publishes b .reserved c l →
    c ∈ s.returned ∨ ∃ f ∈ s.frames, f.id = b ∧ f.Reserves

/-! ### Moves between frames -/

variable {m : Nat} {fs : List Frame} {c : Nat} {f : Frame}

theorem insideFrame_cons (hf : s.frames = f :: fs) :
    s.InsideFrame m c ↔ (f.id = m ∧ c ∈ f.waiting.map Publication.id) ∨
      ∃ above g below, fs = above ++ g :: below ∧ g.id = m ∧
        (c ∈ g.waiting.map Publication.id ∨ c = f.id ∨ c ∈ above.map Frame.id) := by
  constructor
  · rintro ⟨above, g, below, hs, hg, hc⟩
    rw [hf] at hs
    cases above with
    | nil =>
      obtain ⟨rfl, rfl⟩ := List.cons.inj hs
      exact .inl ⟨hg, by simpa using hc⟩
    | cons a above =>
      obtain ⟨rfl, hfs⟩ := List.cons.inj hs
      exact .inr ⟨above, g, below, hfs, hg, by simpa using hc⟩
  · rintro (⟨hm, hc⟩ | ⟨above, g, below, hfs, hg, hc⟩)
    · exact ⟨[], f, fs, hf, hm, .inl hc⟩
    · exact ⟨f :: above, g, below, by rw [hf, hfs]; rfl, hg, by simpa using hc⟩

theorem not_insideFrame_nil (hf : s.frames = []) : ¬ s.InsideFrame m c := by
  rintro ⟨above, f, below, hs, -⟩
  rw [hf] at hs
  exact append_ne_nil_of_right_ne_nil above (cons_ne_nil f below) hs.symm

section

variable (hf : s.frames = f :: fs)
include hf

/-- The top frame may gain waiting publications and change its phase. -/
theorem State.InsideFrame.top {g : Frame} (ht : t.frames = g :: fs)
    (hid : g.id = f.id) (hw : f.waiting ⊆ g.waiting) (h : s.InsideFrame m c) :
    t.InsideFrame m c := by
  rw [insideFrame_cons hf] at h
  rw [insideFrame_cons ht, hid]
  rcases h with ⟨hm, hc⟩ | h
  · exact .inl ⟨hm, map_subset _ hw hc⟩
  · exact .inr h

/-- The first waiting publication of the top frame gets a frame of its own. -/
theorem State.InsideFrame.next {g : Frame} {p : Publication} {rest : List Publication}
    (hw : f.waiting = p :: rest)
    (ht : t.frames = g :: { f with waiting := rest } :: fs) (hg : g.id = p.id)
    (h : s.InsideFrame m c) : t.InsideFrame m c := by
  rw [insideFrame_cons hf, hw] at h
  rcases h with ⟨hm, hc⟩ | ⟨above, k, below, hfs, hk, hc⟩
  · rcases mem_cons.mp hc with hc | hc
    · exact ⟨[g], { f with waiting := rest }, fs, ht, hm, .inr (by simp [hc, hg])⟩
    · exact ⟨[g], { f with waiting := rest }, fs, ht, hm, .inl hc⟩
  · refine ⟨g :: { f with waiting := rest } :: above, k, below, by rw [ht, hfs]; rfl, hk, ?_⟩
    simp only [map_cons, mem_cons]
    tauto

/-- The top frame has nothing left to handle and returns. -/
theorem State.InsideFrame.return (hw : f.waiting = [])
    (ht : t.frames = fs) (h : s.InsideFrame m c) : c = f.id ∨ t.InsideFrame m c := by
  rw [insideFrame_cons hf, hw] at h
  rcases h with ⟨-, hc⟩ | ⟨above, g, below, hfs, hg, hc | rfl | hc⟩
  · cases hc
  · exact .inr ⟨above, g, below, by rw [ht, hfs], hg, .inl hc⟩
  · exact .inl rfl
  · exact .inr ⟨above, g, below, by rw [ht, hfs], hg, .inr hc⟩

end

/-! ### Publications -/

variable {route : Route}

theorem Publishes.lt {l : Nat} (h : s.Publishes m route c l) : c < s.records.length :=
  (List.getElem?_eq_some_iff.mp h).1

theorem Publishes.lineageOf {l : Nat} (h : s.Publishes m route c l) : s.lineageOf c = some l := by
  rw [State.lineageOf, h]
  rfl

/-- What is published after a step was published before, or is the step's own publication. -/
theorem publishes_append {l : Nat} {r : Record} (hn : t.records = s.records ++ [r]) :
    t.Publishes m route c l ↔ s.Publishes m route c l ∨
      c = s.records.length ∧ r = { lineage := l, parent := some (m, route) } := by
  rw [State.Publishes, hn, getElem?_concat_eq_some]
  rfl

/-! ### The order is kept -/

theorem Ordered.quiet (h : Ordered s) (hn : t.records = s.records) (hret : s.returned ⊆ t.returned)
    (hin : ∀ m c, s.InsideFrame m c → c ∈ t.returned ∨ t.InsideFrame m c)
    (hrec : ∀ j p, t.received[j]? = some (.publication p) →
      p.id ∈ t.returned ∨ j + 1 = t.received.length ∧ p.id ∈ t.frames.map Frame.id) :
    Ordered t := by
  have hpub : ∀ m route c l, t.Publishes m route c l ↔ s.Publishes m route c l := by
    intro m route c l
    rw [State.Publishes, State.Publishes, hn]
  refine ⟨?_, ?_, ?_, hrec⟩
  · intro m route c l hc
    exact h.parent_lt m route c l ((hpub ..).mp hc)
  · intro m route c l hc hr
    rw [State.lineageOf, hn]
    exact h.inherits m route c l ((hpub ..).mp hc) hr
  · intro m route c l hc hr
    rcases h.inner m route c l ((hpub ..).mp hc) hr with hret' | hin'
    · exact .inl (hret hret')
    · exact hin m c hin'

theorem Ordered.publish (h : Ordered s) {r : Record} (hn : t.records = s.records ++ [r])
    (hr : ∀ m route, r.parent = some (m, route) → m < s.records.length ∧
      (route ≠ .reserved → s.lineageOf m = some r.lineage) ∧
      (route ≠ .tail → t.InsideFrame m s.records.length))
    (hret : t.returned = s.returned) (hin : ∀ m c, s.InsideFrame m c → t.InsideFrame m c)
    (hrec : t.received = s.received) (hids : t.frames.map Frame.id = s.frames.map Frame.id) :
    Ordered t := by
  refine ⟨?_, ?_, ?_, ?_⟩
  · intro m route c l hc
    rcases (publishes_append hn).mp hc with hc | ⟨rfl, rfl⟩
    · exact h.parent_lt m route c l hc
    · exact (hr m route rfl).1
  · intro m route c l hc hroute
    refine lineageOf_append ?_ hn
    rcases (publishes_append hn).mp hc with hc | ⟨rfl, rfl⟩
    · exact h.inherits m route c l hc hroute
    · exact (hr m route rfl).2.1 hroute
  · intro m route c l hc hroute
    rcases (publishes_append hn).mp hc with hc | ⟨rfl, rfl⟩
    · rw [hret]
      exact (h.inner m route c l hc hroute).imp_right (hin m c)
    · exact .inr ((hr m route rfl).2.2 hroute)
  · rw [hret, hrec, hids]
    exact h.received

variable {current : Option Nat}

theorem Ordered.publishBuffered (h : Ordered s) (hloc : Located s) (hf : s.frames = f :: fs)
    (kind : PublicationKind) (hroute : route ≠ .reserved → current = some f.lineage) :
    Ordered (s.publishBuffered f fs kind current route) := by
  have hlin := hloc.frames f (by rw [hf]; exact mem_cons_self ..)
  rw [publishBuffered_eq]
  refine h.publish rfl ?_ rfl ?_ rfl ?_
  · rintro m route' hparent
    obtain ⟨rfl, rfl⟩ : f.id = m ∧ route = route' := by simpa using hparent
    refine ⟨lineageOf_lt hlin, ?_, ?_⟩
    · intro hr
      rw [hlin, hroute hr]
      rfl
    · intro _
      rw [insideFrame_cons rfl]
      exact .inl ⟨rfl, by simp [State.newMessage]⟩
  · intro m c hc
    exact hc.top hf rfl rfl (subset_append_left ..)
  · simp [hf]

theorem Ordered.sendNew (h : Ordered s) (kind : PublicationKind) {parent : Option (Nat × Route)}
    (hp : ∀ m route, parent = some (m, route) →
      route = .tail ∧ s.lineageOf m = some (s.chosen current)) :
    Ordered ((s.recordNew current parent).send (.publication (s.newMessage kind current))) := by
  refine h.publish rfl ?_ rfl (fun m c hc => hc) rfl rfl
  intro m route hparent
  obtain ⟨rfl, hl⟩ := hp m route hparent
  exact ⟨lineageOf_lt hl, fun _ => hl, fun ht => absurd rfl ht⟩

theorem Ordered.returned_of_idle (h : Ordered s) (hf : s.frames = []) {j : Nat} {p : Publication}
    (hj : s.received[j]? = some (.publication p)) : p.id ∈ s.returned := by
  rcases h.received j p hj with hr | ⟨-, hr⟩
  · exact hr
  · rw [hf] at hr
    cases hr

theorem Ordered.recvOther {m : DispatcherMessage} (h : Ordered s) (hf : s.frames = [])
    (hm : m.publication? = none) (hn : t.records = s.records) (hret : t.returned = s.returned)
    (hrec : t.received = s.received ++ [m]) : Ordered t := by
  refine h.quiet hn (by rw [hret]; exact refl _) ?_ ?_
  · intro k c hc
    exact absurd hc (not_insideFrame_nil hf)
  · intro j p hj
    rw [hrec, getElem?_concat_eq_some] at hj
    rcases hj with hj | ⟨-, rfl⟩
    · rw [hret]
      exact .inl (h.returned_of_idle hf hj)
    · cases hm

theorem Ordered.transition (h : Ordered s) (hloc : Located s) (hst : Transition s t) :
    Ordered t := by
  cases hst with
  | recvFlushReady hf hq _ | recvFlushDeferred hf hq _ | recvRegisterPending hf hq
  | recvCompletePending hf hq => exact h.recvOther hf rfl rfl rfl rfl
  | @recvPublication p rest hf hq =>
    obtain ⟨l, hl, -⟩ := hloc.logged p (by
      simp [State.unbegun, hq, DispatcherMessage.publication?])
    rw [beginPublication_of_permit _ hl]
    refine h.quiet rfl (refl _) ?_ ?_
    · intro m c hc
      exact absurd hc (not_insideFrame_nil hf)
    · intro j q hj
      rcases getElem?_concat_eq_some.mp hj with hj | ⟨rfl, heq⟩
      · exact .inl (h.returned_of_idle hf hj)
      · cases heq
        exact .inr ⟨by simp [State.register], mem_cons_self⟩
  | publishNested kind hf hp => exact h.publishBuffered hloc hf kind fun _ => rfl
  | @publishTail f fs kind hf hp =>
    rw [publishTail_eq]
    refine h.sendNew kind ?_
    rintro m route hparent
    obtain ⟨rfl, rfl⟩ : f.id = m ∧ .tail = route := by simpa using hparent
    exact ⟨rfl, hloc.frames f (by rw [hf]; exact mem_cons_self ..)⟩
  | reserve kind hf hp hk => exact h.publishBuffered hloc hf kind fun hr => absurd rfl hr
  | @reserved f fs hf hp =>
    refine h.quiet rfl (refl _) ?_ ?_
    · intro m c hc
      exact .inr (hc.top (g := { f with phase := .reserved }) hf rfl rfl (refl _))
    · simpa [hf] using h.received
  | @dropPermit f fs hf hp =>
    refine h.quiet rfl (refl _) ?_ ?_
    · intro m c hc
      exact .inr (hc.top hf rfl rfl (refl _))
    · simpa [hf, State.release] using h.received
  | @next f fs p rest hf hp hw =>
    obtain ⟨l, hl, -⟩ := hloc.logged p (by simp [State.unbegun, hf, hw])
    rw [beginPublication_of_permit _ hl]
    refine h.quiet rfl (refl _) ?_ ?_
    · intro m c hc
      exact .inr (hc.next hf hw rfl rfl)
    · intro j q hj
      rcases h.received j q hj with hr | ⟨hlen, hr⟩
      · exact .inl hr
      · refine .inr ⟨hlen, ?_⟩
        rw [hf] at hr
        exact mem_cons_of_mem _ hr
  | @«return» f fs hf hp hw =>
    refine h.quiet rfl (subset_cons_self ..) ?_ ?_
    · intro m c hc
      rcases hc.return (t := s.returnFrame f fs) hf hw rfl with rfl | hc
      · exact .inl (mem_cons_self ..)
      · exact .inr hc
    · intro j q hj
      rcases h.received j q hj with hr | ⟨hlen, hr⟩
      · exact .inl (mem_cons_of_mem _ hr)
      · rw [hf, map_cons, mem_cons] at hr
        rcases hr with hr | hr
        · exact .inl (by rw [hr]; exact mem_cons_self ..)
        · exact .inr ⟨hlen, hr⟩
  | send kind hk => exact h.sendNew kind fun _ _ hp => by cases hp
  | complete | flush | registerPending | dropPending | take | drop =>
    exact h.quiet rfl (refl _) (fun _ _ hc => .inr hc) h.received

theorem Ordered.initial : Ordered {} := by
  refine ⟨?_, ?_, ?_, ?_⟩ <;> simp [State.Publishes]

/-- What is handled inside of a publication that has returned has returned. -/
theorem Ordered.inner_returned (h : Ordered s) (hloc : Located s) {l : Nat} (hm : m ∈ s.returned)
    (hc : s.Publishes m route c l) (ht : route ≠ .tail) : c ∈ s.returned := by
  rcases h.inner m route c l hc ht with hr | ⟨above, f, below, hf, rfl, -⟩
  · exact hr
  · have hmem : f ∈ s.frames := by rw [hf]; simp
    exact absurd hm (hloc.not_returned_of_frame hmem)

/-- Once a flush has been taken from the queue, every publication handled within the messages
before it has returned. -/
theorem Ordered.returned_of_within (h : Ordered s) (hloc : Located s) (hi : i < s.received.length)
    (hm : Within s i m) : m ∈ s.returned := by
  induction hm with
  | @queued j p hj hsent =>
    rw [State.sent, getElem?_append_left (by omega)] at hsent
    rcases h.received j p hsent with hr | ⟨hlen, -⟩
    · exact hr
    · omega
  | inner _ hc ht ih => exact h.inner_returned hloc ih hc ht

/-! ### What a step does to the calls -/

/-- The innermost call holds its permit: it runs a delivery or waits at a barrier. -/
def State.Running (s : State) (f : Frame) : Prop :=
  ∃ fs, s.frames = f :: fs ∧ f.phase ≠ .nested

/-- A step records at most one publication. If it has a parent, that is the running call; a
barrier that receives it holds its permit. -/
theorem Transition.records (hst : Transition s t) : t.records = s.records ∨
    ∃ r, t.records = s.records ++ [r] ∧
      ∀ m route, r.parent = some (m, route) → (∃ f, s.Running f ∧ f.id = m) ∧
        (route = .reserved → ∃ g ∈ t.frames, g.id = m ∧ g.Reserves) := by
  have running : ∀ {f : Frame} {fs : List Frame} {l : Nat} {route : Route},
      s.frames = f :: fs → f.phase ≠ .nested →
      (route = .reserved → ∃ g ∈ t.frames, g.id = f.id ∧ g.Reserves) →
      ∀ m route', (Record.mk l (some (f.id, route))).parent = some (m, route') →
        (∃ f, s.Running f ∧ f.id = m) ∧
          (route' = .reserved → ∃ g ∈ t.frames, g.id = m ∧ g.Reserves) := by
    intro f fs l route hf hp hreserved m route' hm
    obtain ⟨rfl, rfl⟩ : f.id = m ∧ route = route' := by simpa using hm
    exact ⟨⟨f, ⟨fs, hf, hp⟩, rfl⟩, hreserved⟩
  cases hst with
  | publishNested kind hf hp | publishTail kind hf hp =>
    exact .inr ⟨_, rfl, running hf (by simp [hp]) nofun⟩
  | reserve kind hf hp hk =>
    rw [publishBuffered_eq] at running ⊢
    exact .inr ⟨_, rfl, running hf (by simp [hp]) fun _ => ⟨_, mem_cons_self, rfl, .inl hp⟩⟩
  | send kind hk => exact .inr ⟨_, rfl, fun _ _ h => by cases h⟩
  | _ => exact .inl rfl

theorem mem_register {k : Nat} :
    k ∈ (s.register l).loop.activeLineages ↔ k = l ∨ k ∈ s.loop.activeLineages := by
  simp only [State.register]
  split
  · constructor
    · exact .inr
    · rintro (rfl | h) <;> assumption
  · simp [or_comm]

/-- The call `f` goes on as `g`. It gives its permit back only when it has nothing to handle. -/
structure Frame.Kept (s : State) (f g : Frame) : Prop where
  id : g.id = f.id
  lineage : g.lineage = f.lineage
  nested : f.phase = .nested → g.phase = .nested
  reserves : f.Reserves → g.Reserves ∨ ∃ fs, s.frames = f :: fs ∧ f.waiting = []

theorem Frame.Kept.refl (s : State) (f : Frame) : Frame.Kept s f f := ⟨rfl, rfl, fun h => h, .inl⟩

/-- The innermost call returns, or all calls go on and at most one begins, whose lineage is
registered. -/
theorem Transition.calls (hst : Transition s t) :
    (∃ f fs, s.frames = f :: fs ∧ t.frames = fs ∧ f.phase = .nested ∧
      t.returned = f.id :: s.returned) ∨
    t.returned = s.returned ∧ (∀ f ∈ s.frames, ∃ g ∈ t.frames, f.Kept s g) ∧
      ∀ g ∈ t.frames, g.lineage ∈ t.loop.activeLineages ∨ ∃ f ∈ s.frames, f.Kept s g := by
  have same : t.frames = s.frames → t.returned = s.returned → t.returned = s.returned ∧
      (∀ f ∈ s.frames, ∃ g ∈ t.frames, f.Kept s g) ∧
      ∀ g ∈ t.frames, g.lineage ∈ t.loop.activeLineages ∨ ∃ f ∈ s.frames, f.Kept s g := by
    intro hf hr
    rw [hf]
    exact ⟨hr, fun f hf => ⟨f, hf, .refl s f⟩, fun g hg => .inr ⟨g, hg, .refl s g⟩⟩
  have top : ∀ {f g : Frame} {fs : List Frame}, s.frames = f :: fs → f.Kept s g →
      (∀ k ∈ s.frames, ∃ k' ∈ g :: fs, k.Kept s k') ∧
        ∀ k ∈ g :: fs, ∃ k' ∈ s.frames, k'.Kept s k := by
    intro f g fs hf hkept
    simp only [hf, exists_mem_cons_iff, forall_mem_cons]
    exact ⟨⟨.inl hkept, fun k hk => .inr ⟨k, hk, .refl s k⟩⟩, .inl hkept,
      fun k hk => .inr ⟨k, hk, .refl s k⟩⟩
  cases hst with
  | recvPublication hf hq =>
    refine .inr ⟨rfl, by simp [hf], ?_⟩
    simp only [State.beginPublication, hf, mem_singleton, forall_eq]
    exact .inl (mem_register.mpr (.inl rfl))
  | @publishNested f fs kind hf hp =>
    obtain ⟨hto, hfrom⟩ := top hf (g := { f with
      waiting := f.waiting ++ [s.newMessage kind (some f.lineage)] }) ⟨rfl, rfl, fun h => h, .inl⟩
    exact .inr ⟨rfl, hto, fun g hg => .inr (hfrom g hg)⟩
  | @reserve f fs kind current hf hp hk =>
    obtain ⟨hto, hfrom⟩ := top hf (g := { f with
      waiting := f.waiting ++ [s.newMessage kind current] }) ⟨rfl, rfl, fun h => h, .inl⟩
    rw [publishBuffered_eq]
    exact .inr ⟨rfl, hto, fun g hg => .inr (hfrom g hg)⟩
  | @reserved f fs hf hp =>
    obtain ⟨hto, hfrom⟩ := top hf (g := { f with phase := .reserved })
      ⟨rfl, rfl, by simp [hp], fun _ => .inl (.inr rfl)⟩
    exact .inr ⟨rfl, hto, fun g hg => .inr (hfrom g hg)⟩
  | @dropPermit f fs hf hp =>
    obtain ⟨hto, hfrom⟩ := top hf (g := { f with phase := .nested }) ⟨rfl, rfl, fun _ => rfl, by
      rintro (hr | hr)
      · simp [hr] at hp
      · simp only [hr, reduceCtorEq, true_and, false_or] at hp
        exact .inr ⟨fs, hf, hp⟩⟩
    exact .inr ⟨rfl, hto, fun g hg => .inr (hfrom g hg)⟩
  | @next f fs p rest hf hp hw =>
    obtain ⟨hto, hfrom⟩ := top hf (g := { f with waiting := rest }) ⟨rfl, rfl, fun h => h, .inl⟩
    refine .inr ⟨rfl, fun k hk => ?_, forall_mem_cons.mpr ⟨?_, fun g hg => .inr (hfrom g hg)⟩⟩
    · obtain ⟨g, hg, hkg⟩ := hto k hk
      exact ⟨g, mem_cons_of_mem _ hg, hkg⟩
    · exact .inl (mem_register.mpr (.inl rfl))
  | @«return» f fs hf hp hw => exact .inl ⟨f, fs, hf, rfl, hp, rfl⟩
  | _ => exact .inr (same rfl rfl)

/-! ### Barriers hold their permits -/

/-- The publications of the innermost barrier have returned once none of them waits. -/
theorem Ordered.content_returned (h : Ordered s) (hloc : Located s) (hf : s.frames = f :: fs)
    (hw : f.waiting = []) {c l : Nat} (hc : s.Publishes f.id .reserved c l) :
    c ∈ s.returned := by
  rcases h.inner f.id .reserved c l hc nofun with hr | hin
  · exact hr
  · have hnodup := (nodup_append.mp (nodup_append.mp hloc.places_nodup).2.1).1
    rw [hf, map_cons, nodup_cons] at hnodup
    rw [insideFrame_cons hf, hw] at hin
    rcases hin with ⟨-, hin⟩ | ⟨above, g, below, rfl, hid, -⟩
    · cases hin
    · exact absurd (by simp [hid]) hnodup.1

theorem State.HoldsContent.transition (h : s.HoldsContent) (hord : Ordered s) (hloc : Located s)
    (hst : Transition s t) : t.HoldsContent := by
  -- A barrier that held its permit holds it still, or its publications have returned.
  have keep : ∀ f ∈ s.frames, f.Reserves → ∀ c l, s.Publishes f.id .reserved c l →
      c ∈ t.returned ∨ ∃ g ∈ t.frames, g.id = f.id ∧ g.Reserves := by
    intro f hf hreserves c l hc
    rcases hst.calls with ⟨k, fs, hs, ht, hp, -⟩ | ⟨hr, hkept, -⟩
    · rw [hs] at hf
      rcases mem_cons.mp hf with rfl | hf
      · rcases hreserves with hr | hr <;> rw [hp] at hr <;> cases hr
      · exact .inr ⟨f, ht ▸ hf, rfl, hreserves⟩
    · obtain ⟨g, hg, hfg⟩ := hkept f hf
      rcases hfg.reserves hreserves with hgr | ⟨fs, hs, hw⟩
      · exact .inr ⟨g, hg, hfg.id, hgr⟩
      · exact .inl (hr ▸ hord.content_returned hloc hs hw hc)
  have hsub : s.returned ⊆ t.returned := by
    rcases hst.calls with ⟨f, fs, -, -, -, hr⟩ | ⟨hr, -⟩ <;> rw [hr]
    · exact subset_cons_self ..
    · exact refl _
  have old : ∀ b c l, s.Publishes b .reserved c l →
      c ∈ t.returned ∨ ∃ g ∈ t.frames, g.id = b ∧ g.Reserves := by
    intro b c l hc
    rcases h b c l hc with hr | ⟨f, hf, rfl, hreserves⟩
    · exact .inl (hsub hr)
    · exact keep f hf hreserves c l hc
  intro b c l hc
  rcases hst.records with hn | ⟨r, hn, hparent⟩
  · rw [State.Publishes, hn] at hc
    exact old b c l hc
  · rcases (publishes_append hn).mp hc with hc | ⟨-, rfl⟩
    · exact old b c l hc
    · exact .inr ((hparent b .reserved rfl).2 rfl)

/-- While something in its position has not returned, a barrier holds its permit. -/
theorem State.HoldsContent.inPosition (h : s.HoldsContent) (hord : Ordered s) (hloc : Located s)
    {b : Nat} (hm : InPosition s b m) :
    m ∈ s.returned ∨ ∃ f ∈ s.frames, f.id = b ∧ f.Reserves := by
  induction hm with
  | content hc => exact h _ _ _ hc
  | inner _ hc ht ih => exact ih.imp_left fun hr => hord.inner_returned hloc hr hc ht

end NemoRelay.Dispatcher

import Mathlib
import NemoRelay.Optimization.RecorderSteps

/-!
# Runs of the optimization recorder

What holds in every interleaving of record, close and finish calls.
-/

namespace NemoRelay

open List

open AccumulatorState (closeForFinalization finishTurn)

/-! ### The invariant -/

/-- The measured size of a contribution. -/
def measuredSize (sizeOf : SizeOf) (contribution : LlmOptimizationContribution) : Nat :=
  match sizeOf contribution with
  | .ok size => size
  | .error _ => 0

/-- What holds of the record call at an index. -/
structure CallInv (sizeOf : SizeOf) (state : AccumulatorState)
    (commits : List (Nat × LlmOptimizationContribution)) (index : Nat) (call : RecordCall) :
    Prop where
  committed : call.committed = true ↔ index ∈ commits.map Prod.fst
  contribution : ∀ {contribution}, (index, contribution) ∈ commits →
    call.contribution = contribution
  committing : ∀ {contributionBytes sequence},
    call.phase = .committing contributionBytes sequence →
      sequence ≤ commits.length ∧ sequence < maxLlmOptimizationContributions ∧
        call.contribution.sequence = some sequence ∧
        sizeOf call.contribution = .ok contributionBytes ∧ call.retries ≤ sequence
  retries : call.retries ≤ commits.length
  rejection : ∀ {rejection}, call.rejection = some rejection →
    call.phase = .noting rejection ∨ state.noted rejection ∨ state.finished = true
  idle : state.finished = true → call.inFlight = false
  asRecorded : call.AsRecorded

namespace Recorder

/-- A finish call handed over the commits, and reported what was rejected. -/
structure Delivered (commits : List (Nat × LlmOptimizationContribution))
    (records : List RecordCall) (result : FinishedContributions) : Prop where
  contributions : result.contributions = commits.map Prod.snd
  limitations : ∀ call ∈ records, ∀ rejection, call.rejection = some rejection →
    rejection.limitation ∈ result.limitations

structure Inv (sizeOf : SizeOf) (s : Recorder) : Prop where
  calls : ∀ {index call}, s.records[index]? = some call →
    CallInv sizeOf s.accumulator s.commits index call
  indices : ∀ {entry}, entry ∈ s.commits → entry.1 < s.records.length
  nodup : (s.commits.map Prod.fst).Nodup
  sequences : ∀ {k : Nat} {entry : Nat × LlmOptimizationContribution},
    s.commits[k]? = some entry → entry.2.sequence = some k
  count : s.commits.length ≤ maxLlmOptimizationContributions
  bytes : s.accumulator.totalContributionBytes =
    (s.commits.map fun entry => measuredSize sizeOf entry.2).sum
  bytes_le : s.accumulator.totalContributionBytes ≤ maxLlmOptimizationTotalContributionBytes
  inFlight : s.accumulator.inFlightRecords = s.records.countP RecordCall.inFlight
  contributions : s.accumulator.finished = false →
    s.accumulator.contributions = s.commits.map Prod.snd
  closed : s.accumulator.finished = true → s.accumulator.closed = true
  unreturned : s.accumulator.finished = false → s.returns = []
  returned : s.accumulator.finished = true → ∃ index result rest,
    s.returns = (index, result) :: rest ∧ Delivered s.commits s.records result ∧
      ∀ entry ∈ rest, entry.2 = ⟨[], []⟩
  finishes : ∀ {index result}, s.finishes[index]? = some (some result) ↔ (index, result) ∈ s.returns
  returns_nodup : (s.returns.map Prod.fst).Nodup

variable {sizeOf : SizeOf} {s : Recorder}

theorem inv_new : Inv sizeOf .new where
  calls h := by simp [new] at h
  indices h := by simp [new] at h
  nodup := nodup_nil
  sequences h := by simp [new] at h
  count := Nat.zero_le _
  bytes := rfl
  bytes_le := Nat.zero_le _
  inFlight := rfl
  contributions _ := rfl
  closed h := by cases h
  unreturned _ := rfl
  returned h := by cases h
  finishes := by simp [new]
  returns_nodup := nodup_nil

/-- A step that leaves the calls alone. -/
theorem Inv.setAccumulator (h : Inv sizeOf s) {state : AccumulatorState}
    (hcontributions : state.contributions = s.accumulator.contributions)
    (hbytes : state.totalContributionBytes = s.accumulator.totalContributionBytes)
    (hinFlight : state.inFlightRecords = s.accumulator.inFlightRecords)
    (hfinished : state.finished = s.accumulator.finished)
    (hclosed : s.accumulator.closed = true → state.closed = true)
    (hnoted : ∀ {rejection}, s.accumulator.noted rejection → state.noted rejection) :
    Inv sizeOf { s with accumulator := state } :=
  { h with
    calls hcall := by
      obtain ⟨h₁, h₂, h₃, h₄, h₅, h₆, h₇⟩ := h.calls hcall
      refine ⟨h₁, h₂, h₃, h₄, fun hrejection => ?_, fun hdone => h₆ (hfinished ▸ hdone), h₇⟩
      exact (h₅ hrejection).imp_right (.imp hnoted hfinished.trans)
    bytes := hbytes.trans h.bytes
    bytes_le := hbytes ▸ h.bytes_le
    inFlight := hinFlight.trans h.inFlight
    contributions hopen := hcontributions.trans (h.contributions (hfinished ▸ hopen))
    closed hdone := hclosed (h.closed (hfinished ▸ hdone))
    unreturned hopen := h.unreturned (hfinished ▸ hopen)
    returned hdone := h.returned (hfinished ▸ hdone) }

theorem Inv.addCall (h : Inv sizeOf s) (id : String) (contribution : LlmOptimizationContribution) :
    Inv sizeOf { s with records := s.records ++ [.new id contribution] } :=
  { h with
    calls := by
      intro index call hcall
      rcases getElem?_concat_eq_some.mp hcall with hcall | ⟨rfl, rfl⟩
      · exact h.calls hcall
      · have hnew : ∀ contribution, (s.records.length, contribution) ∉ s.commits := fun _ hmem =>
          lt_irrefl _ (h.indices hmem)
        refine ⟨?_, fun hmem => absurd hmem (hnew _), ?_, ?_, ?_, ?_, _, _, rfl⟩
        · simpa [RecordCall.new, RecordCall.committed] using fun contribution => hnew contribution
        · simp [RecordCall.new]
        · simp [RecordCall.new]
        · simp [RecordCall.new]
        · simp [RecordCall.new, RecordCall.inFlight]
    indices hmem := by
      rw [length_append]
      exact Nat.lt_add_right _ (h.indices hmem)
    inFlight := by simpa [RecordCall.new, RecordCall.inFlight] using h.inFlight
    returned hdone := by
      obtain ⟨index, result, rest, hreturns, hdelivered, hrest⟩ := h.returned hdone
      refine ⟨index, result, rest, hreturns, ⟨hdelivered.contributions, ?_⟩, hrest⟩
      refine forall_mem_append.mpr ⟨hdelivered.limitations, forall_mem_singleton.mpr ?_⟩
      intro rejection hrejection
      cases hrejection }

theorem Inv.addFinish (h : Inv sizeOf s) :
    Inv sizeOf { s with finishes := s.finishes ++ [none] } :=
  { h with
    finishes := by
      intro index result
      rw [← h.finishes, getElem?_concat_eq_some]
      simp }

/-! ### A critical section of a record call -/

variable {t : Recorder}

section Advance

variable {index : Nat} {call call' : RecordCall} {state : AccumulatorState}

theorem finished_of_not_closed (h : Inv sizeOf s) (hopen : s.accumulator.closed = false) :
    s.accumulator.finished = false := by
  by_contra hdone
  rw [h.closed (by simpa using hdone)] at hopen
  cases hopen

theorem inFlight_positive (h : Inv sizeOf s) (hcall : s.records[index]? = some call)
    (hflight : call.inFlight = true) : 0 < s.accumulator.inFlightRecords := by
  rw [h.inFlight]
  exact countP_pos_iff.mpr ⟨call, mem_of_getElem? hcall, hflight⟩

theorem countP_set_inFlight (hcall : s.records[index]? = some call) :
    (s.records.set index call').countP RecordCall.inFlight + call.inFlight.toNat =
      s.records.countP RecordCall.inFlight + call'.inFlight.toNat := by
  obtain ⟨hlt, rfl⟩ := List.getElem?_eq_some_iff.mp hcall
  have hle : (s.records[index].inFlight).toNat ≤ s.records.countP RecordCall.inFlight := by
    cases hflight : s.records[index].inFlight with
    | false => simp
    | true =>
      exact countP_pos_iff.mpr ⟨_, getElem_mem hlt, hflight⟩
  rw [countP_set hlt]
  cases hflight : s.records[index].inFlight <;> cases call'.inFlight <;>
    simp only [hflight, Bool.toNat_true, Bool.toNat_false, Bool.false_eq_true, if_true,
      if_false] at hle ⊢ <;> omega

variable {commits : List (Nat × LlmOptimizationContribution)}

/-- Another call sees the step of a call only through the state and the commits. -/
theorem callInv_other (hspec : Advances sizeOf s.accumulator call state call') {other : Nat}
    {otherCall : RecordCall} (hinv : CallInv sizeOf s.accumulator s.commits other otherCall)
    (hcommits : commits = s.commits ∨
      ∃ contribution, commits = s.commits ++ [(index, contribution)]) (hne : other ≠ index) :
    CallInv sizeOf state commits other otherCall := by
  obtain ⟨h₁, h₂, h₃, h₄, h₅, h₆, h₇⟩ := hinv
  have hmem : ∀ contribution,
      (other, contribution) ∈ commits ↔ (other, contribution) ∈ s.commits := by
    intro contribution
    obtain rfl | ⟨_, rfl⟩ := hcommits
    · rfl
    · simp [hne]
  have hlength : s.commits.length ≤ commits.length := by
    obtain rfl | ⟨_, rfl⟩ := hcommits
    · rfl
    · simp
  refine ⟨?_, fun hcommit => h₂ ((hmem _).mp hcommit), ?_, h₄.trans hlength, ?_, ?_, h₇⟩
  · rw [h₁]
    simp only [mem_map, Prod.exists, exists_and_right, exists_eq_right, hmem]
  · intro contributionBytes sequence hphase
    obtain ⟨hle, hrest⟩ := h₃ hphase
    exact ⟨hle.trans hlength, hrest⟩
  · exact fun hrejection => (h₅ hrejection).imp_right (.imp hspec.noted hspec.finished_eq.trans)
  · exact fun hdone => h₆ (hspec.finished_eq ▸ hdone)

section

variable (h : Inv sizeOf s)
include h

theorem calls_set (hspec : Advances sizeOf s.accumulator call state call')
    (hcommits : commits = s.commits ∨
      ∃ contribution, commits = s.commits ++ [(index, contribution)])
    (hown : CallInv sizeOf state commits index call') {other : Nat}
    {otherCall : RecordCall} (hother : (s.records.set index call')[other]? = some otherCall) :
    CallInv sizeOf state commits other otherCall := by
  by_cases hsame : other = index
  · subst hsame
    obtain ⟨hlt, rfl⟩ := List.getElem?_eq_some_iff.mp hother
    rwa [getElem_set_self]
  · rw [getElem?_set_ne (Ne.symm hsame)] at hother
    exact callInv_other hspec (h.calls hother) hcommits hsame

variable (hcall : s.records[index]? = some call)
  (hspec : Advances sizeOf s.accumulator call state call')
include hcall hspec

/-- A call that goes on keeps what holds of it. -/
theorem callInv_of_goesOn (hgoes : GoesOn sizeOf s.accumulator call state call') :
    CallInv sizeOf state s.commits index call' := by
  have hinv := h.calls hcall
  have hidle : s.accumulator.finished = true → call'.inFlight = false ∧
      call'.rejection = call.rejection := fun hdone =>
    hspec.idle (h.closed hdone) (hinv.idle hdone)
  refine ⟨?_, ?_, ?_, ?_, ?_, ?_, hspec.asRecorded hinv.asRecorded⟩
  · rw [hgoes.committed_eq, hinv.committed]
  · intro contribution hmem
    have hcommitted := hinv.committed.mpr (mem_map_of_mem hmem)
    rw [hgoes.contribution_eq hcommitted]
    exact hinv.contribution hmem
  · intro contributionBytes sequence hphase
    obtain ⟨hsequence, hlt, hnumber, hsize, hretries⟩ := hgoes.committing hphase
    have hopen : s.accumulator.finished = false := by
      by_contra hdone
      have hflight := (hidle (by simpa using hdone)).1
      simp [RecordCall.inFlight, hphase] at hflight
    have hlength := congrArg List.length (h.contributions hopen)
    rw [length_map] at hlength
    have hbound := hinv.retries
    exact ⟨by omega, hlt, hnumber, hsize, by omega⟩
  · obtain hsame | ⟨hmore, hopen, contributionBytes, sequence, hphase, hne⟩ := hgoes.retries
    · rw [hsame]
      exact hinv.retries
    · -- another call has committed since the sequence number was taken
      have hlength := congrArg List.length (h.contributions (finished_of_not_closed h hopen))
      rw [length_map] at hlength
      obtain ⟨hle, -, -, -, hbound⟩ := hinv.committing hphase
      omega
  · intro rejection hrejection
    obtain hphase | hreported | hdone | ⟨hold, hphase⟩ := hgoes.rejection hrejection
    · exact .inl hphase
    · exact .inr (.inl hreported)
    · exact .inr (.inr (hspec.finished_eq.trans hdone))
    · exact .inr (((hinv.rejection hold).resolve_left hphase).imp hspec.noted
        hspec.finished_eq.trans)
  · intro hdone
    exact (hidle (hspec.finished_eq ▸ hdone)).1

variable {contributionBytes : Nat}

/-- A call that commits is the last of the commits. -/
theorem callInv_of_commits
    (hcommits : Commits s.accumulator call state call' contributionBytes) :
    CallInv sizeOf state (s.commits ++ [(index, call'.contribution)]) index call' := by
  have hinv := h.calls hcall
  have hopen := finished_of_not_closed h hcommits.opened
  have hfresh : ∀ contribution, (index, contribution) ∉ s.commits := by
    intro contribution hmem
    have hcommitted := hinv.committed.mpr (mem_map_of_mem hmem)
    simp [RecordCall.committed, hcommits.phase_eq] at hcommitted
  refine ⟨?_, ?_, ?_, ?_, ?_, ?_, hspec.asRecorded hinv.asRecorded⟩
  · simp [RecordCall.committed, hcommits.phase_eq']
  · intro contribution hmem
    obtain hmem | hmem := mem_append.mp hmem
    · exact absurd hmem (hfresh contribution)
    · exact (Prod.mk.inj (mem_singleton.mp hmem)).2.symm
  · intro _ _ hphase
    rw [hcommits.phase_eq'] at hphase
    cases hphase
  · rw [hcommits.retries_eq, length_append]
    exact Nat.le_add_right_of_le hinv.retries
  · intro rejection hrejection
    rw [hcommits.rejection_eq] at hrejection
    have hphase : call.phase ≠ .noting rejection := by simp [hcommits.phase_eq]
    exact .inr (((hinv.rejection hrejection).resolve_left hphase).imp hspec.noted
      hspec.finished_eq.trans)
  · intro hdone
    rw [hspec.finished_eq, hopen] at hdone
    cases hdone

theorem inFlight_set :
    state.inFlightRecords = (s.records.set index call').countP RecordCall.inFlight := by
  have hstate := hspec.inFlight_eq (inFlight_positive h hcall)
  have hcount := @countP_set_inFlight s index call call' hcall
  have hold := h.inFlight
  omega

theorem Inv.goesOn (hgoes : GoesOn sizeOf s.accumulator call state call') :
    Inv sizeOf { s with accumulator := state, records := s.records.set index call' } :=
  { h with
    calls hother := calls_set h hspec (.inl rfl) (callInv_of_goesOn h hcall hspec hgoes) hother
    indices hmem := by
      rw [length_set]
      exact h.indices hmem
    bytes := hgoes.bytes_eq.trans h.bytes
    bytes_le := hgoes.bytes_eq ▸ h.bytes_le
    inFlight := inFlight_set h hcall hspec
    contributions hopen :=
      hgoes.contributions_eq.trans (h.contributions (hspec.finished_eq ▸ hopen))
    closed hdone := hspec.closed (h.closed (hspec.finished_eq ▸ hdone))
    unreturned hopen := h.unreturned (hspec.finished_eq ▸ hopen)
    returned hdone := by
      have hdone' : s.accumulator.finished = true := hspec.finished_eq ▸ hdone
      obtain ⟨first, result, rest, hreturns, hdelivered, hrest⟩ := h.returned hdone'
      refine ⟨first, result, rest, hreturns, ⟨hdelivered.contributions, ?_⟩, hrest⟩
      intro other hother rejection hrejection
      obtain hold | rfl := mem_or_eq_of_mem_set hother
      · exact hdelivered.limitations other hold rejection hrejection
      · rw [(hspec.idle (h.closed hdone') ((h.calls hcall).idle hdone')).2] at hrejection
        exact hdelivered.limitations call (mem_of_getElem? hcall) rejection hrejection }

theorem Inv.commit (hcommits : Commits s.accumulator call state call' contributionBytes) :
    Inv sizeOf { s with
      accumulator := state
      records := s.records.set index call'
      commits := s.commits ++ [(index, call'.contribution)] } := by
  have hinv := h.calls hcall
  have hopen := finished_of_not_closed h hcommits.opened
  have hlength := congrArg List.length (h.contributions hopen)
  rw [length_map] at hlength
  obtain ⟨-, hlt, hsequence, hsize, -⟩ := hinv.committing hcommits.phase_eq
  have hstill : state.finished = false := hspec.finished_eq.trans hopen
  have hmeasured : measuredSize sizeOf call'.contribution = contributionBytes := by
    rw [measuredSize, hcommits.contribution_eq, hsize]
  refine
    { h with
      calls := fun hother => calls_set h hspec (.inr ⟨_, rfl⟩)
        (callInv_of_commits h hcall hspec hcommits) hother
      indices := ?_
      nodup := ?_
      sequences := ?_
      count := ?_
      bytes := ?_
      bytes_le := hcommits.bytes_eq ▸ hcommits.within
      inFlight := inFlight_set h hcall hspec
      contributions := fun _ => ?_
      closed := fun hdone => absurd (hstill.symm.trans hdone) (by simp)
      unreturned := fun _ => h.unreturned hopen
      returned := fun hdone => absurd (hstill.symm.trans hdone) (by simp) }
  · intro entry hmem
    rw [length_set]
    obtain hmem | hmem := mem_append.mp hmem
    · exact h.indices hmem
    · rw [mem_singleton.mp hmem]
      exact (List.getElem?_eq_some_iff.mp hcall).1
  · rw [map_append, map_singleton, ← concat_eq_append, nodup_concat]
    refine ⟨fun hmem => ?_, h.nodup⟩
    have hcommitted := hinv.committed.mpr hmem
    simp [RecordCall.committed, hcommits.phase_eq] at hcommitted
  · intro k entry hentry
    rcases getElem?_concat_eq_some.mp hentry with hentry | ⟨rfl, rfl⟩
    · exact h.sequences hentry
    · rw [hcommits.contribution_eq, hsequence, hlength]
  · rw [length_append, length_singleton]
    omega
  · rw [map_append, sum_append, hcommits.bytes_eq, h.bytes, map_singleton, sum_singleton, hmeasured]
  · rw [hcommits.contributions_eq, h.contributions hopen, map_append, map_singleton,
      hcommits.contribution_eq]

omit hcall hspec in
theorem Inv.advanceCall {now : Nat} (hstep : s.advanceCall sizeOf index now = some t) :
    Inv sizeOf t := by
  obtain ⟨call, hcall, hnext⟩ := Option.bind_eq_some_iff.mp hstep
  obtain ⟨⟨state, call'⟩, hadvance, hresult⟩ := Option.bind_eq_some_iff.mp hnext
  obtain rfl := Option.some.inj hresult
  have hspec := advance_spec hadvance
  obtain ⟨contributionBytes, hcommits⟩ | hgoes := hspec.outcome
  · have hcommitted : (call'.committed && !call.committed) = true := by
      simp [RecordCall.committed, hcommits.phase_eq, hcommits.phase_eq']
    rw [if_pos hcommitted]
    exact h.commit hcall hspec hcommits
  · have hunchanged : ¬ (call'.committed && !call.committed) = true := by
      rw [hgoes.committed_eq]
      simp
    rw [if_neg hunchanged]
    exact h.goesOn hcall hspec hgoes

end

end Advance

/-! ### A turn of a finish call -/

section Finish

variable {index : Nat}

section

variable (h : Inv sizeOf s)
include h

section

variable (hpending : s.finishes[index]? = some none)
include hpending

/-- The result of a finish call that returns is new. -/
theorem finishes_set
    (result : FinishedContributions) {other : Nat} {otherResult : FinishedContributions} :
    (s.finishes.set index (some result))[other]? = some (some otherResult) ↔
      (other, otherResult) ∈ s.returns ++ [(index, result)] := by
  obtain ⟨hlt, -⟩ := List.getElem?_eq_some_iff.mp hpending
  by_cases hsame : other = index
  · subst hsame
    have hfresh : (other, otherResult) ∉ s.returns := by
      rw [← h.finishes, hpending]
      simp
    rw [getElem?_set_self hlt]
    simp [hfresh, eq_comm]
  · rw [getElem?_set_ne (Ne.symm hsame), h.finishes]
    simp [hsame]

theorem returns_nodup_concat
    (result : FinishedContributions) : ((s.returns ++ [(index, result)]).map Prod.fst).Nodup := by
  rw [map_append, map_singleton, ← concat_eq_append, nodup_concat]
  refine ⟨fun hmem => ?_, h.returns_nodup⟩
  obtain ⟨⟨_, earlier⟩, hreturn, rfl⟩ := mem_map.mp hmem
  cases hpending.symm.trans (h.finishes.mpr hreturn)

/-- A finish call after the first one. -/
theorem Inv.finishAgain (hdone : s.accumulator.finished = true) :
    Inv sizeOf { s with
      finishes := s.finishes.set index (some ⟨[], []⟩)
      returns := s.returns ++ [(index, ⟨[], []⟩)] } :=
  { h with
    unreturned hopen := absurd (hopen.symm.trans hdone) (by simp)
    returned _ := by
      obtain ⟨first, result, rest, hreturns, hdelivered, hrest⟩ := h.returned hdone
      refine ⟨first, result, rest ++ [(index, ⟨[], []⟩)], ?_, hdelivered, ?_⟩
      · rw [hreturns, cons_append]
      · exact forall_mem_append.mpr ⟨hrest, forall_mem_singleton.mpr rfl⟩
    finishes := finishes_set h hpending _
    returns_nodup := returns_nodup_concat h hpending _ }

/-- The first finish call to return: no attempt is in flight. -/
theorem Inv.finishFirst
    (hopen : s.accumulator.finished = false) (hidle : s.accumulator.inFlightRecords = 0)
    {state : AccumulatorState} {result : FinishedContributions}
    (hturn : s.accumulator.finishTurn = (some result, state)) :
    Inv sizeOf { s with
      accumulator := state
      finishes := s.finishes.set index (some result)
      returns := s.returns ++ [(index, result)] } := by
  rw [finishTurn, if_neg (by simp [hopen]), if_neg (by omega)] at hturn
  cases hturn
  have hnone : ∀ {other : Nat} {call : RecordCall}, s.records[other]? = some call →
      call.inFlight = false := by
    intro other call hcall
    by_contra hflight
    have := inFlight_positive h hcall (by simpa using hflight)
    omega
  have hnoted : ∀ call ∈ s.records, ∀ rejection, call.rejection = some rejection →
      s.accumulator.noted rejection := by
    intro call hmem rejection hrejection
    obtain ⟨other, hcall⟩ := getElem?_of_mem hmem
    obtain hphase | hreported | hdone := (h.calls hcall).rejection hrejection
    · have hflight := hnone hcall
      simp [RecordCall.inFlight, hphase] at hflight
    · exact hreported
    · exact absurd (hopen.symm.trans hdone) (by simp)
  exact
    { h with
      calls := by
        intro other call hcall
        obtain ⟨h₁, h₂, h₃, h₄, -, -, h₇⟩ := h.calls hcall
        exact ⟨h₁, h₂, h₃, h₄, fun _ => .inr (.inr rfl), fun _ => hnone hcall, h₇⟩
      contributions := fun hfinished => by cases hfinished
      closed := fun _ => rfl
      unreturned := fun hfinished => by cases hfinished
      returned := fun _ => by
        refine ⟨index, ⟨s.accumulator.contributions, s.accumulator.finalLimitations⟩, [], ?_,
          ⟨h.contributions hopen, ?_⟩, by simp⟩
        · rw [h.unreturned hopen, nil_append]
        · intro call hmem rejection hrejection
          exact mem_finalLimitations (hnoted call hmem rejection hrejection)
      finishes := finishes_set h hpending _
      returns_nodup := returns_nodup_concat h hpending _ }

end

theorem Inv.wakeFinish (hstep : s.wakeFinish index = some t) : Inv sizeOf t := by
  unfold Recorder.wakeFinish at hstep
  split at hstep
  · next hpending =>
    by_cases hdone : s.accumulator.finished = true
    · rw [finishTurn, if_pos hdone] at hstep
      cases hstep
      exact h.finishAgain hpending hdone
    · have hopen : s.accumulator.finished = false := by simpa using hdone
      by_cases hflight : 0 < s.accumulator.inFlightRecords
      · rw [finishTurn, if_neg hdone, if_pos hflight] at hstep
        cases hstep
        exact h.setAccumulator rfl rfl rfl rfl (fun _ => rfl) (fun hnoted => hnoted)
      · cases hturn : s.accumulator.finishTurn with
        | mk result state =>
          cases result with
          | none => simp [finishTurn, hdone, hflight] at hturn
          | some result =>
            rw [hturn] at hstep
            cases hstep
            exact h.finishFirst hpending hopen (by omega) hturn
  · cases hstep

end

end Finish

/-- Every step keeps the invariant. -/
theorem inductive_inv (sizeOf : SizeOf) : (system sizeOf).Inductive (Inv sizeOf) where
  init s hinit := by
    obtain rfl : s = .new := hinit
    exact inv_new
  step s action t h hstep := by
    cases action with
    | record id contribution =>
      cases hstep
      exact h.addCall id contribution
    | advance index now => exact h.advanceCall hstep
    | finish =>
      cases hstep
      exact h.addFinish
    | wake index => exact h.wakeFinish hstep
    | markEmitted count =>
      cases hstep
      exact h.setAccumulator rfl rfl rfl rfl (fun hclosed => hclosed) (fun hnoted => hnoted)
    | closeForFinalization conditionalLimitation =>
      cases hstep
      unfold closeForFinalization
      split
      · exact h
      · exact h.setAccumulator rfl rfl rfl rfl (fun _ => rfl) fun {rejection} hnoted => by
          cases rejection <;> exact hnoted

theorem inv_of_reachable (hs : (system sizeOf).Reachable s) : Inv sizeOf s :=
  (inductive_inv sizeOf).reachable hs

/-! ### After the first finish call returned -/

/-- A recorder that is finished stays so, and nothing is committed any more. -/
theorem commits_of_finished (h : Inv sizeOf s) (hdone : s.accumulator.finished = true)
    {action : Action} (hstep : step sizeOf s action = some t) :
    t.commits = s.commits ∧ t.accumulator.finished = true := by
  cases action with
  | record id contribution | finish | markEmitted count =>
    cases hstep
    exact ⟨rfl, hdone⟩
  | advance index now =>
    obtain ⟨call, hcall, hnext⟩ := Option.bind_eq_some_iff.mp hstep
    obtain ⟨⟨state, call'⟩, hadvance, hresult⟩ := Option.bind_eq_some_iff.mp hnext
    obtain rfl := Option.some.inj hresult
    have hspec := advance_spec hadvance
    obtain ⟨_, hcommits⟩ | hgoes := hspec.outcome
    · exact absurd ((h.closed hdone).symm.trans hcommits.opened) (by simp)
    · refine ⟨if_neg ?_, hspec.finished_eq.trans hdone⟩
      rw [hgoes.committed_eq]
      simp
  | wake index =>
    simp only [step, wakeFinish, finishTurn, hdone] at hstep
    split at hstep
    · cases hstep
      exact ⟨rfl, hdone⟩
    · cases hstep
  | closeForFinalization conditionalLimitation =>
    cases hstep
    exact ⟨rfl, by simp [closeForFinalization, hdone]⟩

theorem commits_of_run (hs : (system sizeOf).Reachable s) (hdone : s.accumulator.finished = true)
    {actions : List Action} (hrun : (system sizeOf).run s actions = some t) :
    t.commits = s.commits ∧ t.accumulator.finished = true := by
  induction actions generalizing s with
  | nil =>
    cases hrun
    exact ⟨rfl, hdone⟩
  | cons action actions ih =>
    rw [System.run_cons, Option.bind_eq_some_iff] at hrun
    obtain ⟨next, hstep, hrest⟩ := hrun
    obtain ⟨hsame, hdone'⟩ := commits_of_finished (inv_of_reachable hs) hdone hstep
    obtain ⟨hrest', hfinal⟩ := ih (hs.step hstep) hdone' hrest
    exact ⟨hrest'.trans hsame, hfinal⟩

/-- Once the recorder is finished, the calls that committed have returned. -/
theorem returned_iff (h : Inv sizeOf s) (hdone : s.accumulator.finished = true) {index : Nat}
    {call : RecordCall} (hcall : s.records[index]? = some call) :
    call.phase = .returned true ↔ index ∈ s.commits.map Prod.fst := by
  rw [← (h.calls hcall).committed]
  have hidle := (h.calls hcall).idle hdone
  cases hphase : call.phase <;> simp_all [RecordCall.committed, RecordCall.inFlight]

/-- What the first finish call to return hands over, and what holds ever after. -/
structure ExactlyOnce (sizeOf : SizeOf) (s : Recorder) (first : Nat)
    (result : FinishedContributions) : Prop where
  /-- The contributions in the order of the commits. -/
  contributions : result.contributions = s.commits.map Prod.snd
  /-- The commits are those of the record calls that returned true. -/
  recorded : ∀ {index : Nat} {call : RecordCall}, s.records[index]? = some call →
    (call.phase = .returned true ↔ ∃ contribution, (index, contribution) ∈ s.commits)
  /-- What is committed is what was recorded, under an id and a sequence number. -/
  contribution : ∀ {index contribution}, (index, contribution) ∈ s.commits →
    ∃ call, s.records[index]? = some call ∧ call.contribution = contribution ∧
      call.AsRecorded
  once : (s.commits.map Prod.fst).Nodup
  sequences : ∀ {k : Nat} {contribution : LlmOptimizationContribution},
    result.contributions[k]? = some contribution → contribution.sequence = some k
  count : result.contributions.length ≤ maxLlmOptimizationContributions
  bytes : (result.contributions.map (measuredSize sizeOf)).sum ≤
    maxLlmOptimizationTotalContributionBytes
  limitations : ∀ {index : Nat} {call : RecordCall} {rejection : Rejection},
    s.records[index]? = some call → call.rejection = some rejection →
      rejection.limitation ∈ result.limitations
  others : ∀ {index : Nat} {other : FinishedContributions}, index ≠ first →
    s.finishes[index]? = some (some other) → other = ⟨[], []⟩
  later : ∀ {actions : List Action} {t : Recorder} {index : Nat} {call : RecordCall},
    (system sizeOf).run s actions = some t → t.records[index]? = some call →
      call.phase = .returned true → ∃ contribution, (index, contribution) ∈ s.commits

/-- In every interleaving, the first finish call to return hands over the contributions of the
record calls that return true, each once and numbered by its position, and reports the rejections;
no other finish call returns anything. A record call retries at most once for each contribution
that can be committed. -/
theorem finish_exactly_once (hs : (system sizeOf).Reachable s) :
    (∀ {first result rest}, s.returns = (first, result) :: rest →
      ExactlyOnce sizeOf s first result) ∧
    ∀ {index : Nat} {call : RecordCall}, s.records[index]? = some call →
      call.retries ≤ maxLlmOptimizationContributions := by
  have h := inv_of_reachable hs
  refine ⟨?_, fun hcall => (h.calls hcall).retries.trans h.count⟩
  intro first result rest hreturns
  have hdone : s.accumulator.finished = true := by
    by_contra hopen
    rw [h.unreturned (by simpa using hopen)] at hreturns
    cases hreturns
  obtain ⟨_, _, _, hreturns', hdelivered, hrest⟩ := h.returned hdone
  rw [hreturns] at hreturns'
  cases hreturns'
  have hmem : ∀ {index}, index ∈ s.commits.map Prod.fst ↔
      ∃ contribution, (index, contribution) ∈ s.commits := by simp
  refine
    { contributions := hdelivered.contributions
      recorded := fun hcall => (returned_iff h hdone hcall).trans hmem
      contribution := ?_
      once := h.nodup
      sequences := ?_
      count := ?_
      bytes := ?_
      limitations := fun hcall hrejection =>
        hdelivered.limitations _ (mem_of_getElem? hcall) _ hrejection
      others := ?_
      later := ?_ }
  · intro index contribution hcommit
    have hlt := h.indices hcommit
    have hcall := h.calls (getElem?_eq_getElem hlt)
    exact ⟨_, getElem?_eq_getElem hlt, hcall.contribution hcommit, hcall.asRecorded⟩
  · intro k contribution hk
    rw [hdelivered.contributions, getElem?_map, Option.map_eq_some_iff] at hk
    obtain ⟨entry, hentry, rfl⟩ := hk
    exact h.sequences hentry
  · rw [hdelivered.contributions, length_map]
    exact h.count
  · have hbytes := h.bytes_le
    rw [h.bytes] at hbytes
    rw [hdelivered.contributions, map_map]
    exact hbytes
  · intro index other hne hfinish
    have hreturn := h.finishes.mp hfinish
    rw [hreturns] at hreturn
    obtain hfirst | hlater := mem_cons.mp hreturn
    · exact absurd (Prod.mk.inj hfirst).1 hne
    · exact hrest _ hlater
  · intro actions t index call hrun hcall hphase
    obtain ⟨hcommits, hdone'⟩ := commits_of_run hs hdone hrun
    have ht := inv_of_reachable (hs.run hrun)
    rw [← hcommits]
    simpa using (returned_iff ht hdone' hcall).mp hphase

/-- One record, one that is rejected for its payload, and two finish calls. -/
theorem finish_exactly_once_two :
    let contribution : LlmOptimizationContribution :=
      ⟨none, none, "compressor", "input_compression", true, none, none, none, none, []⟩
    let actions : List Action :=
      [.record "a" contribution, .record "b" { contribution with payload := some .null },
        .advance 0 0, .advance 1 0, .advance 0 0, .advance 0 1, .finish, .finish, .wake 1,
        .advance 1 0, .advance 1 0, .advance 0 1, .wake 0, .wake 1]
    ∃ s : Recorder, ∃ result : FinishedContributions, ∃ rest : List (Nat × FinishedContributions),
      (system fun _ => .ok 100).run .new actions = some s ∧
      s.returns = (0, result) :: rest ∧ result.contributions ≠ [] ∧
      ExactlyOnce (fun _ => .ok 100) s 0 result := by
  intro _ actions
  refine ⟨_, _, _, rfl, rfl, cons_ne_nil _ _, ?_⟩
  refine (finish_exactly_once ?_).1 rfl
  exact System.reachable_of_run actions rfl rfl

end Recorder

end NemoRelay

import NemoRelay.Optimization.Recorder

/-!
# The critical sections of a record call

`Advances` says what a critical section can do to the state and to its call: commit the
contribution, or go on without. The invariants of the recorder are proved from it; no later proof
looks at the phases.
-/

namespace NemoRelay

open RecordCall

/-- A rejection that will be reported. -/
def AccumulatorState.noted (state : AccumulatorState) : Rejection → Bool
  | .payloadSchema => state.invalidPayloadSchema
  | .limit => state.contributionLimitExceeded

variable {rejection : Rejection}

open AccumulatorState

theorem mem_finalLimitations {state : AccumulatorState} (h : state.noted rejection) :
    rejection.limitation ∈ state.finalLimitations := by
  cases rejection with
  | payloadSchema | limit =>
    rw [noted] at h
    simp [finalLimitations, h, Rejection.limitation]

/-! ### A critical section of a record call -/

/-- A call commits its contribution under the number that is next. -/
structure Commits (state : AccumulatorState) (call : RecordCall) (state' : AccumulatorState)
    (call' : RecordCall) (contributionBytes : Nat) : Prop where
  phase_eq : call.phase = .committing contributionBytes state.contributions.length
  phase_eq' : call'.phase = .settling true
  opened : state.closed = false
  within : state.totalContributionBytes + contributionBytes ≤
    maxLlmOptimizationTotalContributionBytes
  contributions_eq : state'.contributions = state.contributions ++ [call.contribution]
  bytes_eq : state'.totalContributionBytes = state.totalContributionBytes + contributionBytes
  contribution_eq : call'.contribution = call.contribution
  retries_eq : call'.retries = call.retries
  rejection_eq : call'.rejection = call.rejection

/-- A call goes on without a commit. -/
structure GoesOn (sizeOf : SizeOf) (state : AccumulatorState) (call : RecordCall)
    (state' : AccumulatorState) (call' : RecordCall) : Prop where
  committed_eq : call'.committed = call.committed
  contribution_eq : call.committed → call'.contribution = call.contribution
  contributions_eq : state'.contributions = state.contributions
  bytes_eq : state'.totalContributionBytes = state.totalContributionBytes
  committing : ∀ {contributionBytes sequence},
    call'.phase = .committing contributionBytes sequence →
    sequence = state.contributions.length ∧ sequence < maxLlmOptimizationContributions ∧
      call'.contribution.sequence = some sequence ∧
      sizeOf call'.contribution = .ok contributionBytes ∧ call'.retries = call.retries
  retries : call'.retries = call.retries ∨ call'.retries = call.retries + 1 ∧
    state.closed = false ∧ ∃ contributionBytes sequence,
      call.phase = .committing contributionBytes sequence ∧ sequence ≠ state.contributions.length
  rejection : ∀ {rejection}, call'.rejection = some rejection →
    call'.phase = .noting rejection ∨ state'.noted rejection ∨ state.finished = true ∨
      call.rejection = some rejection ∧ call.phase ≠ .noting rejection

/-- What a critical section of a record call does. -/
structure Advances (sizeOf : SizeOf) (state : AccumulatorState) (call : RecordCall)
    (state' : AccumulatorState) (call' : RecordCall) : Prop where
  finished_eq : state'.finished = state.finished
  closed : state.closed → state'.closed
  noted : ∀ {rejection}, state.noted rejection → state'.noted rejection
  asRecorded : call.AsRecorded → call'.AsRecorded
  inFlight_eq : (call.inFlight → 0 < state.inFlightRecords) →
    state'.inFlightRecords + call.inFlight.toNat = state.inFlightRecords + call'.inFlight.toNat
  idle : state.closed → call.inFlight = false →
    call'.inFlight = false ∧ call'.rejection = call.rejection
  outcome : (∃ contributionBytes, Commits state call state' call' contributionBytes) ∨
    GoesOn sizeOf state call state' call'

section Advance

variable {sizeOf : SizeOf} {state state' : AccumulatorState} {call call' : RecordCall}

theorem noted_sealForContributionLimit (h : state.noted rejection) :
    state.sealForContributionLimit.noted rejection := by
  cases rejection with
  | payloadSchema => exact h
  | limit => rfl

theorem advances_reserving (hphase : call.phase = .reserving) :
    Advances sizeOf state call state.reserveRecordAttempt.2
      (if state.reserveRecordAttempt.1 then call.start
        else { call with phase := .returned false }) := by
  unfold reserveRecordAttempt
  by_cases hclosed : state.closed = true
  · rw [if_pos hclosed]
    refine ⟨rfl, fun h => h, fun h => h, fun h => h, ?_, ?_,
      .inr ⟨?_, ?_, rfl, rfl, ?_, .inl rfl, ?_⟩⟩
    all_goals simp_all [inFlight, RecordCall.committed]
  · rw [if_neg hclosed]
    split
    · refine ⟨rfl, fun _ => rfl, noted_sealForContributionLimit, fun h => h, ?_, ?_,
        .inr ⟨?_, ?_, rfl, rfl, ?_, .inl rfl, ?_⟩⟩
      all_goals simp_all [inFlight, RecordCall.committed, sealForContributionLimit]
    · rw [if_pos rfl, start]
      split
      all_goals
        refine ⟨rfl, fun h => h, fun h => h, ?_, ?_, ?_, .inr ⟨?_, ?_, rfl, rfl, ?_, .inl rfl, ?_⟩⟩
      · exact fun ⟨_, sequence, h⟩ => ⟨_, sequence, by rw [h]⟩
      all_goals simp_all [inFlight, RecordCall.committed, reject, AsRecorded]

theorem advances_noting (hphase : call.phase = .noting rejection)
    (hfinished : state'.finished = state.finished) (hclosed : state.closed → state'.closed)
    (hnoted : ∀ {rejection}, state.noted rejection → state'.noted rejection)
    (hinFlight : state'.inFlightRecords = state.inFlightRecords)
    (hcontributions : state'.contributions = state.contributions)
    (hbytes : state'.totalContributionBytes = state.totalContributionBytes)
    (hreported : state'.noted rejection ∨ state.finished = true) :
    Advances sizeOf state call state' { call with phase := .settling false } := by
  refine ⟨hfinished, hclosed, hnoted, fun h => h, ?_, ?_,
    .inr ⟨?_, ?_, hcontributions, hbytes, nofun, .inl rfl, ?_⟩⟩
  · simp [inFlight, hphase, hinFlight]
  · simp [inFlight, hphase]
  · simp [RecordCall.committed, hphase]
  · simp
  · intro other hother
    by_cases hsame : other = rejection
    · subst hsame
      exact .inr (hreported.imp_right Or.inl)
    · exact .inr (.inr (.inr ⟨hother, by simp [hphase, Ne.symm hsame]⟩))

theorem advances_noteInvalidPayloadSchema (hphase : call.phase = .noting .payloadSchema) :
    Advances sizeOf state call state.noteInvalidPayloadSchema
      { call with phase := .settling false } := by
  unfold noteInvalidPayloadSchema
  split
  · next hfinished =>
    exact advances_noting hphase rfl (fun h => h) (fun h => h) rfl rfl rfl (.inr hfinished)
  · refine advances_noting hphase rfl (fun h => h) ?_ rfl rfl rfl (.inl rfl)
    intro rejection hrejection
    cases rejection with
    | payloadSchema => rfl
    | limit => exact hrejection

theorem advances_noteContributionLimitExceeded (hphase : call.phase = .noting .limit) :
    Advances sizeOf state call state.noteContributionLimitExceeded
      { call with phase := .settling false } := by
  unfold noteContributionLimitExceeded
  split
  · next hfinished =>
    exact advances_noting hphase rfl (fun h => h) (fun h => h) rfl rfl rfl (.inr hfinished)
  · exact advances_noting hphase rfl (fun _ => rfl) noted_sealForContributionLimit rfl rfl rfl
      (.inl rfl)

theorem advances_sequencing (hphase : call.phase = .sequencing)
    (hnext : call' = match state.nextContributionSequence with
      | .closed => { call with phase := .settling false }
      | .full => call.reject .limit
      | .next sequence => call.withSequence sizeOf sequence) :
    Advances sizeOf state call state call' := by
  have hflight : call.inFlight = true := by simp [inFlight, hphase]
  have huncommitted : call.committed = false := by simp [RecordCall.committed, hphase]
  suffices h : call'.inFlight = true ∧ call'.committed = false ∧ call'.retries = call.retries ∧
      (call.AsRecorded → call'.AsRecorded) ∧
      (∀ {contributionBytes sequence}, call'.phase = .committing contributionBytes sequence →
        sequence = state.contributions.length ∧ sequence < maxLlmOptimizationContributions ∧
          call'.contribution.sequence = some sequence ∧
          sizeOf call'.contribution = .ok contributionBytes ∧ call'.retries = call.retries) ∧
      ∀ {rejection}, call'.rejection = some rejection →
        call'.phase = .noting rejection ∨ call.rejection = some rejection by
    obtain ⟨h₁, h₂, h₃, hrecorded, h₄, h₅⟩ := h
    refine ⟨rfl, fun h => h, fun h => h, hrecorded, fun _ => by rw [hflight, h₁], ?_,
      .inr ⟨by rw [h₂, huncommitted], ?_, rfl, rfl, h₄, .inl h₃, ?_⟩⟩
    · simp [hflight]
    · simp [huncommitted]
    · intro rejection hrejection
      exact (h₅ hrejection).imp_right fun hold => .inr (.inr ⟨hold, by simp [hphase]⟩)
  subst hnext
  cases hsequence : state.nextContributionSequence with
  | closed => simp [inFlight, RecordCall.committed, AsRecorded]
  | full => simp [reject, inFlight, RecordCall.committed, AsRecorded]
  | next sequence =>
    have hlength : sequence = state.contributions.length ∧
        sequence < maxLlmOptimizationContributions := by
      unfold nextContributionSequence at hsequence
      split at hsequence
      · cases hsequence
      split at hsequence
      · cases hsequence
      cases hsequence
      exact ⟨rfl, by omega⟩
    have hrecorded : call.AsRecorded → AsRecorded { call with
        contribution.sequence := some sequence } := fun ⟨_, _, h⟩ => ⟨_, _, by rw [h]⟩
    dsimp only [withSequence]
    cases hsize : sizeOf { call.contribution with sequence := some sequence } with
    | ok contributionBytes =>
      refine ⟨rfl, rfl, rfl, hrecorded, ?_, .inr⟩
      intro _ _ hcommitting
      cases hcommitting
      exact ⟨hlength.1, hlength.2, rfl, hsize, rfl⟩
    | error error =>
      cases error <;> simpa [reject, inFlight, RecordCall.committed, AsRecorded] using hrecorded

theorem advances_committing {contributionBytes sequence now : Nat}
    (hphase : call.phase = .committing contributionBytes sequence)
    (h : call.advance sizeOf now state = some (state', call')) :
    Advances sizeOf state call state' call' := by
  have hflight : call.inFlight = true := by simp [inFlight, hphase]
  simp only [advance, hphase, commitContribution] at h
  by_cases hclosed : state.closed = true
  · simp only [hclosed] at h
    cases h
    refine ⟨rfl, fun h => h, fun h => h, fun h => h, ?_, ?_,
      .inr ⟨?_, ?_, rfl, rfl, nofun, .inl rfl, ?_⟩⟩
    all_goals simp_all [inFlight, RecordCall.committed]
  simp only [hclosed] at h
  by_cases hsequence : state.contributions.length = sequence
  · subst hsequence
    simp only [ne_eq] at h
    by_cases hwithin : maxLlmOptimizationTotalContributionBytes <
        state.totalContributionBytes + contributionBytes
    · simp only [hwithin] at h
      cases h
      refine ⟨rfl, fun _ => rfl, noted_sealForContributionLimit, fun h => h, ?_, ?_,
        .inr ⟨?_, ?_, rfl, rfl, nofun, .inl rfl, ?_⟩⟩
      · simp [inFlight, hphase, sealForContributionLimit]
      · simp [hflight]
      · simp [RecordCall.committed, hphase]
      · simp
      · rintro rejection hrejection
        cases hrejection
        exact .inr (.inl rfl)
    · simp only [hwithin] at h
      cases h
      refine ⟨rfl, fun h => absurd h hclosed, fun h => h, fun h => h, ?_, ?_,
        .inl ⟨contributionBytes, hphase, rfl, ?_, ?_, rfl, rfl, rfl, rfl, rfl⟩⟩
      · simp [inFlight, hphase]
      · simp [hflight]
      · simpa using hclosed
      · omega
  · simp only [hsequence, ne_eq] at h
    cases h
    refine ⟨rfl, fun h => h, fun h => h, fun h => h, ?_, ?_,
      .inr ⟨?_, ?_, rfl, rfl, nofun, .inr ?_, ?_⟩⟩
    all_goals simp_all [inFlight, RecordCall.committed]
    exact fun h => hsequence h.symm

theorem advances_settling {committed : Bool} (hphase : call.phase = .settling committed) :
    Advances sizeOf state call state.settleRecord { call with phase := .returned committed } := by
  refine ⟨rfl, fun h => h, fun h => h, fun h => h, ?_, ?_,
    .inr ⟨?_, ?_, rfl, rfl, nofun, .inl rfl, ?_⟩⟩
  · intro hpositive
    have hflight : call.inFlight = true := by simp [inFlight, hphase]
    have hsettle : state.settleRecord.inFlightRecords = state.inFlightRecords - 1 := rfl
    have := hpositive hflight
    rw [hflight, inFlight]
    simp only [Bool.toNat_true, Bool.toNat_false]
    omega
  · simp [inFlight]
  · simp [RecordCall.committed, hphase]
  · simp
  · intro rejection hrejection
    exact .inr (.inr (.inr ⟨hrejection, by simp [hphase]⟩))

/-- What a critical section of a record call does. -/
theorem advance_spec {now : Nat} (h : call.advance sizeOf now state = some (state', call')) :
    Advances sizeOf state call state' call' := by
  cases hphase : call.phase with
  | reserving =>
    have hreserving : Advances sizeOf state call state.reserveRecordAttempt.2 _ :=
      advances_reserving hphase
    simp only [advance, hphase] at h
    split at h
    · next hreserve =>
      cases h
      rwa [hreserve] at hreserving
    · next hreserve =>
      cases h
      rwa [hreserve] at hreserving
  | noting rejection =>
    cases rejection with
    | payloadSchema =>
      simp only [advance, hphase] at h
      cases h
      exact advances_noteInvalidPayloadSchema hphase
    | limit =>
      simp only [advance, hphase] at h
      cases h
      exact advances_noteContributionLimitExceeded hphase
  | sequencing =>
    simp only [advance, hphase] at h
    cases hsequence : state.nextContributionSequence <;> rw [hsequence] at h <;> cases h <;>
      exact advances_sequencing hphase (by rw [hsequence])
  | committing contributionBytes sequence => exact advances_committing hphase h
  | settling committed =>
    simp only [advance, hphase] at h
    cases h
    exact advances_settling hphase
  | returned committed => simp [advance, hphase] at h

end Advance

end NemoRelay

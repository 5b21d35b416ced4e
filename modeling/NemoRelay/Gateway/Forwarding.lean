import NemoRelay.Gateway.Dispatch

/-!
# Headers that middleware does not change

Middleware sees one text for each observable header, and the headers that it returns are written
over those of the caller. So a repeated header is sent with one value, and a header that middleware
takes away is sent nevertheless.
-/

namespace NemoRelay.Gateway

open List

variable {V : Type} [Http V]

/-- The names are in their normal form, and a text that was read is written as it was. -/
structure Faithful (headers : HeaderMap V) : Prop where
  name : ∀ header ∈ headers, Http.headerName V header.1 = some header.1
  value : ∀ (value : V) text, Http.toStr value = some text → Http.headerValue text = some value

variable {headers : HeaderMap V} {request : LlmRequest} {name : String}

/-- Middleware saw the header and did not return it. -/
def Removed (headers : HeaderMap V) (request : LlmRequest) (name : String) : Prop :=
  name ∈ (observableHeaders headers).map Prod.fst ∧ name ∉ request.headers.map Prod.fst
deriving Decidable

/-- The values of a header that are to be sent. -/
def intended (headers : HeaderMap V) (request : LlmRequest) (name : String) : List V :=
  if shouldForwardRequestHeader name headers ∧ ¬ Removed headers request name then
    headers.getAll name
  else []

/-- The text under which a header is shown. -/
structure Shown (headers : HeaderMap V) (entry : String × Json) : Prop where
  recorded : shouldRecordHeader entry.1 headers = true
  sent : headers.getAll entry.1 ≠ []
  single : ∀ value, headers.getAll entry.1 = [value] →
    ∃ text, Http.toStr value = some text ∧ entry.2 = .str text

theorem shown_recordAnthropicProtocolHeader {output : Object} {name : String}
    (h : ∀ entry ∈ output, Shown headers entry) :
    ∀ entry ∈ recordAnthropicProtocolHeader headers output name, Shown headers entry := by
  intro entry hentry
  simp only [recordAnthropicProtocolHeader] at hentry
  split at hentry
  · exact h entry hentry
  · rename_i hall
    simp only [Bool.or_eq_true, Bool.not_eq_true', not_or, Bool.not_eq_false,
      List.isEmpty_iff] at hall
    obtain ⟨⟨hrecord, hsent⟩, hlength⟩ := hall
    obtain rfl | hentry := SortedMap.eq_or_mem_of_mem_insert hentry
    · refine ⟨hrecord, hsent, fun value hvalue => ?_⟩
      rw [hvalue] at hlength ⊢
      cases htext : Http.toStr value with
      | none => simp [htext] at hlength
      | some text => exact ⟨text, rfl, by simp [htext]⟩
    · exact h entry hentry

open HeaderMap

theorem shown_of_mem : ∀ entry ∈ observableHeaders headers, Shown headers entry := by
  refine shown_recordAnthropicProtocolHeader (shown_recordAnthropicProtocolHeader ?_)
  refine List.foldlRecOn headers _ (motive := fun output => ∀ entry ∈ output, Shown headers entry)
    nofun fun output h header hheader entry hentry => ?_
  split at hentry
  · rename_i text htext
    split at hentry
    · rename_i hrecord
      rw [Bool.and_eq_true] at hrecord
      obtain rfl | hentry := SortedMap.eq_or_mem_of_mem_insert hentry
      · have hmem : header.2 ∈ headers.getAll header.1 := mem_getAll.mpr hheader
        refine ⟨hrecord.2, ne_nil_of_mem hmem, fun value hvalue => ?_⟩
        rw [hvalue, mem_singleton] at hmem
        exact ⟨text, hmem ▸ htext, rfl⟩
      · exact h entry hentry
    · exact h entry hentry
  · exact h entry hentry

variable {toVec : Json → Bytes} {env : Environment} {config : GatewayConfig}
  {route : ProviderRoute} {allowed : Bool} {url : String} {bodyBytes : Bytes}
  {sourceBody : Option Json} {sent : SentRequest V}

/-- The headers that are written over those of the caller. -/
def written (request : LlmRequest) (sourceBody : Option Json) : HeaderMap V :=
  request.headers.filterMap (rewrittenHeader (bodyUnchanged request sourceBody))

/-- The gateway itself takes the header out of what it sends to the URL. -/
def Dropped (env : Environment) (url name : String) : Prop :=
  name ∈ internalDispatchHeaders ∨ Plaintext env url ∧ name ∉ httpModelForwardHeaders

theorem shown_of_mem_written (hfaithful : Faithful headers)
    (hshown : ∀ entry ∈ request.headers, entry ∈ observableHeaders headers) {value : V}
    (hwritten : (name, value) ∈ written request sourceBody) :
    ∃ entry ∈ request.headers, entry.1 = name ∧ Shown headers entry ∧
      jsonHeaderValue entry.2 = some value := by
  obtain ⟨⟨entry, hentry, hname, hvalue⟩, -⟩ := mem_rewritten.mp hwritten
  have hentry' := shown_of_mem entry (hshown entry hentry)
  obtain ⟨sent, hsent⟩ := exists_mem_of_ne_nil _ hentry'.sent
  rw [hfaithful.name _ (mem_getAll.mp hsent), Option.some.injEq] at hname
  exact ⟨entry, hentry, hname, hentry', hvalue⟩

/-- Middleware cannot set `connection`, since it does not see it. -/
theorem getAll_written_connection (hfaithful : Faithful headers)
    (hshown : ∀ entry ∈ request.headers, entry ∈ observableHeaders headers) :
    getAll (V := V) (written request sourceBody) "connection" = [] := by
  refine eq_nil_iff_forall_not_mem.mpr fun value hvalue => ?_
  obtain ⟨entry, -, hconnection, hentry, -⟩ :=
    shown_of_mem_written hfaithful hshown (mem_getAll.mp hvalue)
  have := hentry.recorded
  rw [hconnection] at this
  simp [shouldRecordHeader, shouldForwardRequestHeader, isHopByHop] at this

section Sent

variable (hfaithful : Faithful headers)
  (hshown : ∀ entry ∈ request.headers, entry ∈ observableHeaders headers)
  (htarget : (dispatchOverrides request.headers).isExplicitTarget = false)
  (h : forwardUpstreamRequest toVec env config route allowed url bodyBytes headers (some request)
    sourceBody = some sent)
  (hencoding : name = "content-encoding" →
    (reencodeRequestBody toVec request bodyBytes (bodyUnchanged request sourceBody)).2 = false)
  (hcredential : ∀ credential, sent.attached = some credential →
    name ∉ credential.1 :: providerCredentialHeaders)
include hfaithful hshown htarget h hencoding hcredential

/-- The values that are sent under a name: of a header that passes, what is written over it. -/
theorem getAll_sent :
    (Dropped env url name → sent.headers.getAll name = []) ∧
    (¬ Dropped env url name → sent.headers.getAll name =
      if shouldForwardRequestHeader name headers then
        ((getAll (written request sourceBody) name).getLast?.map ([·])).getD (headers.getAll name)
      else []) := by
  have hnot : ∀ {P : Prop}, (dispatchOverrides request.headers).isExplicitTarget = true → P :=
    fun h => absurd (h.symm.trans htarget) (by decide)
  have hurl : (dispatchOverrides request.headers).resolveUrl url = url := by
    simp only [DispatchOverrides.isExplicitTarget, Bool.or_eq_false_iff,
      Option.isSome_eq_false_iff, Option.isNone_iff_eq_none] at htarget
    simp [DispatchOverrides.resolveUrl, htarget]
  have happlied := applied_of_forward toVec env h
  rw [hurl] at happlied
  have hkept := happlied.kept (getAll_connection_forwarded _) name
  rw [getAll_filter _ fun name => shouldForwardRequestHeader name _] at hkept
  refine ⟨fun hdropped => ?_, fun hpasses => ?_⟩
  · by_cases hplain : Plaintext env url ∧ name ∉ httpModelForwardHeaders
    · exact eq_nil_iff_forall_not_mem.mpr fun value hvalue =>
        hplain.2 (happlied.plaintext hplain.1 _ (mem_getAll.mp hvalue))
    · rw [hkept (fun h => not_not.mp fun hname => hplain ⟨h, hname⟩) hcredential, ite_eq_right_iff]
      refine fun _ => eq_nil_iff_forall_not_mem.mpr fun value hvalue => ?_
      exact (mem_effectiveDispatchRequest toVec (mem_getAll.mp hvalue)).2
        (hdropped.resolve_right hplain)
  · rw [Dropped, not_or, not_and, not_not] at hpasses
    rw [hkept hpasses.2 hcredential, getAll_effective toVec hpasses.1 hencoding hnot,
      shouldForwardRequestHeader, namedByConnectionHeader, getAll_effective toVec (by decide)
      (fun h => absurd h (by decide)) hnot]
    rw [← written, getAll_written_connection hfaithful hshown]
    rfl

/-- The values of a header are sent as they should be exactly if, where the gateway drops the
header, there is nothing to send, and where it does not, middleware does not take the header away
and a header that is written again has one value. -/
theorem sent_getAll_iff :
    sent.headers.getAll name = intended headers request name ↔
      (shouldForwardRequestHeader name headers = true →
        (Dropped env url name → headers.getAll name = [] ∨ Removed headers request name) ∧
        (¬ Dropped env url name → ¬ Removed headers request name ∧
          ∀ value : V, (name, value) ∈ written request sourceBody →
            (headers.getAll name).length = 1)) := by
  obtain ⟨hdropped, hpasses⟩ := getAll_sent hfaithful hshown htarget h hencoding hcredential
  rw [intended]
  by_cases hdrop : Dropped env url name
  · simp only [hdropped hdrop, hdrop, not_true_eq_false, false_imp_iff, and_true, true_imp_iff]
    split
    · rename_i hpass
      exact ⟨fun h _ => .inl h.symm, fun h => ((h hpass.1).resolve_right hpass.2).symm⟩
    · rename_i hnone
      exact iff_of_true rfl fun hpass => .inr (not_not.mp fun hnot => hnone ⟨hpass, hnot⟩)
  simp only [hpasses hdrop, hdrop, not_false_eq_true, true_imp_iff, false_imp_iff, true_and]
  by_cases hpass : shouldForwardRequestHeader name headers = true
  · simp only [hpass, if_true, true_and, true_imp_iff]
    by_cases hremoved : Removed headers request name
    · have hnone : getAll (V := V) (written request sourceBody) name = [] := by
        refine eq_nil_iff_forall_not_mem.mpr fun value hvalue => hremoved.2 ?_
        obtain ⟨entry, hentry, rfl, -⟩ :=
          shown_of_mem_written hfaithful hshown (mem_getAll.mp hvalue)
        exact mem_map_of_mem hentry
      obtain ⟨entry, hentry, rfl⟩ := mem_map.mp hremoved.1
      rw [hnone, if_neg (not_not.mpr hremoved)]
      exact iff_of_false (shown_of_mem entry hentry).sent fun h => h.1 hremoved
    · rw [if_pos hremoved]
      simp only [hremoved, not_false_eq_true, true_and, ← mem_getAll]
      rcases eq_or_ne (getAll (V := V) (written request sourceBody) name) [] with hnone | hne
      · rw [hnone]
        exact iff_of_true rfl nofun
      · rw [getLast?_eq_some_getLast hne]
        constructor
        · intro h _ _
          rw [← h]
          rfl
        · intro h
          obtain ⟨sent, hsent⟩ := length_eq_one_iff.mp (h _ (getLast_mem hne))
          obtain ⟨entry, -, rfl, hentry, hvalue⟩ :=
            shown_of_mem_written hfaithful hshown (mem_getAll.mp (getLast_mem hne))
          obtain ⟨text, htext, hstr⟩ := hentry.single sent hsent
          rw [hstr] at hvalue
          rw [hsent, ← Option.some.inj (hvalue.symm.trans (hfaithful.value sent text htext))]
          rfl
  · simp [hpass]

end Sent

/-- A repeated header that middleware does not see, a repeated one that is not written again with an
unchanged body, one that occurs once, and one that does not pass. -/
def callerHeaders : HeaderMap String :=
  [("cookie", "c"), ("cookie", "d"), ("content-encoding", "gzip"), ("content-encoding", "br"),
    ("accept", "a"), ("host", "h")]

/-- The headers are all sent as they came. -/
theorem sent_callerHeaders :
    letI := plainHttp
    let request : LlmRequest := ⟨observableHeaders callerHeaders, .str "body"⟩
    ∃ sent, forwardUpstreamRequest (fun _ => []) encryptedOnly openConfig .openAiModels true "a" []
        callerHeaders (some request) (some (.str "body")) = some sent ∧
      ∀ name, sent.headers.getAll name = intended callerHeaders request name := by
  let _ := plainHttp
  intro request
  have h : forwardUpstreamRequest (fun _ => []) encryptedOnly openConfig .openAiModels true "a" []
      callerHeaders (some request) (some (.str "body")) =
      some ⟨"a", [], callerHeaders.dropLast, none⟩ := by decide +kernel
  refine ⟨_, h, fun name => ?_⟩
  refine (sent_getAll_iff ⟨fun _ _ => rfl, fun _ _ h => h.symm⟩ (fun _ h => h) (by decide +kernel) h
    (fun _ => by decide +kernel) nofun).mpr fun _ => ⟨fun hdropped => .inl ?_, fun _ => ?_⟩
  · have hnone : ∀ name ∈ internalDispatchHeaders, callerHeaders.getAll name = [] := by
      decide +kernel
    obtain hname | ⟨⟨url, ⟨⟩, hhttp⟩, -⟩ := hdropped
    · exact hnone name hname
    · cases hhttp
  · refine ⟨fun h => h.2 h.1, fun value hvalue => ?_⟩
    have hone : ∀ header ∈ written (V := String) request (some (.str "body")),
        (callerHeaders.getAll header.1).length = 1 := by decide +kernel
    exact hone _ hvalue

/-- Of a repeated header the last value is sent, and a header that middleware takes away is sent. -/
theorem sent_repeated_and_removed :
    letI := plainHttp
    let forward := fun headers request =>
      (forwardUpstreamRequest (fun _ => []) encryptedOnly openConfig .openAiModels true "a" []
        headers (some request) none).map SentRequest.headers
    let repeated : HeaderMap String := [("accept", "a"), ("accept", "b")]
    forward repeated ⟨observableHeaders repeated, .null⟩ = some [("accept", "b")] ∧
      forward [("accept", "a")] ⟨[], .null⟩ = some [("accept", "a")] :=
  ⟨rfl, rfl⟩

end NemoRelay.Gateway

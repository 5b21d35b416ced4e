import NemoRelay.Codec.OpenAiChat.Defs

/-!
# Edited OpenAI Chat content

What the content decoder accepts, as relations between an object and what it reads as, and that
edited content, written as a patch of any original content, reads as the edit.
-/

namespace NemoRelay.OpenAIChatCodec

open Json SortedMap

/-! ### Image URLs -/

open FieldFormat

theorem readImageUrl_obj {entries : Object} {image : OpenAiImageUrl} :
    readImageUrl (.obj entries) = some image ↔
      get entries "url" = some (.str image.url) ∧
        string.Reads (get entries "detail") image.detail := by
  obtain ⟨url, detail⟩ := image
  simp only [readImageUrl, Option.bind_eq_bind, Option.bind_eq_some_iff, asStr_eq_some,
    exists_eq_right, readOptional_eq_some, Option.pure_def, Option.some.injEq,
    OpenAiImageUrl.mk.injEq]
  constructor
  · rintro ⟨url, hurl, detail, hdetail, rfl, rfl⟩
    exact ⟨hurl, hdetail⟩
  · rintro ⟨hurl, hdetail⟩
    exact ⟨url, hurl, detail, hdetail, rfl, rfl⟩

variable (image : OpenAiImageUrl)

/-- The members that an image URL is written with. -/
theorem toValue_imageUrl :
    ∃ entries, toValue image = .obj entries ∧ (Json.obj entries).WF ∧
      ∀ key, get entries key =
        if key = "detail" then image.detail.map .str
        else if key = "url" then some (.str image.url) else none := by
  refine ⟨_, rfl, wf_insertFields (wf_insertFields rfl ?_) ?_, fun key => ?_⟩
  · simp
  · simp
  · simp only [List.map_nil, insertFields, List.foldl_nil]
    rw [← insertFields, get_insertFields]
    simp only [fieldOf]
    by_cases hkey : key = "detail" <;> simp [hkey]

theorem readImageUrl_toValue : readImageUrl (toValue image) = some image := by
  obtain ⟨entries, hentries, -, hget⟩ := toValue_imageUrl image
  rw [hentries, readImageUrl_obj, hget, hget]
  exact ⟨rfl, (valid_string _).reads_write⟩

/-- A patched image URL reads as the edited one. -/
theorem readImageUrl_patch {original : Json} {before edited : OpenAiImageUrl}
    (horiginal : original.WF) (hbefore : readImageUrl original = some before) :
    readImageUrl (patchChangedJson original (toValue before) (toValue edited)) = some edited := by
  obtain ⟨beforeEntries, hb, -, hgetBefore⟩ := toValue_imageUrl before
  obtain ⟨editedEntries, he, hwf, hgetEdited⟩ := toValue_imageUrl edited
  have hfresh := readImageUrl_toValue edited
  refine patchChangedJson_cases (motive := fun value => readImageUrl value = some edited)
    horiginal (he ▸ hwf) ?_ hfresh ?_ ?_
  · intro hsame
    have hbe := readImageUrl_toValue before
    rw [hsame, hfresh] at hbe
    rw [hbefore, hbe]
  · intro _ _ e _ _ harr
    cases harr
  · intro o b e patched ho hb' he' h
    cases hb.symm.trans hb'
    cases he.symm.trans he'
    subst ho
    rw [readImageUrl_obj] at hbefore ⊢
    rw [h.member, h.member, hgetBefore, hgetEdited, hgetBefore, hgetEdited, hbefore.1]
    refine ⟨?_, hbefore.2.patchedMember string_exact (fun _ => horiginal.member) (valid_string _)⟩
    exact patchedMember_original (by simp) (by simp)

/-! ### Tool calls -/

/-- The members of a call that is read as a function call. -/
structure ReadsToolCall (obj inner : Object) (call : ToolCall) : Prop where
  keys : onlyKeys obj ["id", "type", "function"] = true
  functionKeys : onlyKeys inner ["name", "arguments"] = true
  type : get obj "type" = some (.str "function")
  callType : call.callType = "function"
  function : get obj "function" = some (.obj inner)
  id : get obj "id" = some (.str call.id)
  name : get inner "name" = some (.str call.function.name)
  arguments : get inner "arguments" = some (.str call.function.arguments)

variable {value : Json} {call : ToolCall}

theorem decodeChatToolCall_eq_some :
    decodeChatToolCall value = .ok (some call) ↔
      ∃ obj inner, value = .obj obj ∧ ReadsToolCall obj inner call := by
  constructor
  · intro h
    simp only [decodeChatToolCall, bind_eq_ok, okOr_eq_ok, asObject_eq_some] at h
    obtain ⟨obj, rfl, h⟩ := h
    split at h
    · cases h
    rename_i htype
    split at h
    · cases h
    rename_i hkeys
    simp only [bind_eq_ok, okOr_eq_ok, bind_asObject] at h
    obtain ⟨function, hfunction, h⟩ := h
    split at h
    · cases h
    rename_i hfunctionKeys
    simp only [bind_eq_ok, okOr_eq_ok, bind_asStr] at h
    obtain ⟨id, hid, name, hname, arguments, harguments, ⟨⟩⟩ := h
    exact ⟨obj, function, rfl, by simpa using hkeys, by simpa using hfunctionKeys,
      by simpa [bind_asStr] using htype, rfl, hfunction, hid, hname, harguments⟩
  · rintro ⟨obj, inner, rfl, h⟩
    obtain ⟨id, callType, name, arguments⟩ := call
    obtain rfl : callType = "function" := h.callType
    simp [decodeChatToolCall, asObject, asStr, h.type, h.keys, h.function,
      h.functionKeys, h.id, h.name, h.arguments]

variable {obj : Object}

/-- A call is written as the object it was read from. -/
theorem ReadsToolCall.toValue_eq {inner : Object} (h : ReadsToolCall obj inner call)
    (hobj : (Json.obj obj).WF) : toValue call = .obj obj := by
  have hinner : toValue call.function = .obj inner := by
    refine congrArg Json.obj (insertFields_onlyKeys
      (wf_obj.mp (hobj.member h.function)).1 rfl h.functionKeys ?_)
    simp [fieldOf, h.name, h.arguments]
  refine congrArg Json.obj (insertFields_onlyKeys (wf_obj.mp hobj).1 rfl h.keys ?_)
  simp [fieldOf, h.id, h.type, h.function, h.callType, hinner]

theorem decodeChatToolCall_toValue (h : call.callType = "function") :
    decodeChatToolCall (toValue call) = .ok (some call) := by
  refine decodeChatToolCall_eq_some.mpr ⟨insertFields [] [("id", some (.str call.id)),
      ("type", some (.str call.callType)), ("function", some (toValue call.function))],
    insertFields [] [("name", some (.str call.function.name)),
      ("arguments", some (.str call.function.arguments))], rfl, ?_⟩
  constructor
  · exact onlyKeys_insertFields _
  · exact onlyKeys_insertFields _
  · rw [get_insertFields, h]
    rfl
  · exact h
  all_goals
    rw [get_insertFields]
    rfl

/-- The list of calls of an assistant message. -/
def readToolCalls : Json → Option (List ToolCall)
  | .arr calls =>
    match calls.mapM decodeChatToolCall with
    | .ok decoded => decoded.mapM id
    | .error _ => none
  | _ => none

theorem readToolCalls_eq_some {calls : List ToolCall} :
    readToolCalls value = some calls ↔ ∃ items, value = .arr items ∧
      List.Forall₂ (fun item call => decodeChatToolCall item = .ok (some call)) items calls := by
  cases value with
  | arr items =>
    have hmap : List.Forall₂ (fun item call => decodeChatToolCall item = .ok (some call))
        items calls ↔ items.mapM decodeChatToolCall = .ok (calls.map some) := by
      rw [mapM_eq_ok, List.forall₂_map_right_iff]
    simp only [readToolCalls, Json.arr.injEq, exists_eq_left', hmap]
    cases items.mapM decodeChatToolCall with
    | error e => simp
    | ok decoded =>
      rw [mapM_eq_some, Except.ok.injEq, ← List.forall₂_eq_eq_eq, List.forall₂_map_right_iff]
      rfl
  | null | bool | num | str | obj => simp [readToolCalls]

def toolCallsFormat : FieldFormat (List ToolCall) where
  expected := "an array"
  read := readToolCalls
  write calls := .arr (calls.map toValue)
  read_null := rfl
  read_write value calls h := by
    obtain ⟨items, rfl, hcalls⟩ := readToolCalls_eq_some.mp h
    refine readToolCalls_eq_some.mpr ⟨_, rfl, ?_⟩
    rw [List.forall₂_map_left_iff, List.forall₂_same]
    intro call hcall
    obtain ⟨item, -, hitem⟩ := exists_of_forall₂_right hcalls hcall
    obtain ⟨obj, inner, -, hreads⟩ := decodeChatToolCall_eq_some.mp hitem
    exact decodeChatToolCall_toValue hreads.callType
  wf_write value calls hvalue h := by
    obtain ⟨items, rfl, hcalls⟩ := readToolCalls_eq_some.mp h
    refine wf_arr.mpr fun item hitem => ?_
    obtain ⟨call, hcall, rfl⟩ := List.mem_map.mp hitem
    obtain ⟨item, hitem, hdecode⟩ := exists_of_forall₂_right hcalls hcall
    obtain ⟨obj, inner, rfl, hreads⟩ := decodeChatToolCall_eq_some.mp hdecode
    have hobj := wf_arr.mp hvalue _ hitem
    rw [hreads.toValue_eq hobj]
    exact hobj

/-- Calls are written as the array they were read from. -/
theorem toolCallsFormat_exact (value : Json) (calls : List ToolCall) (hvalue : value.WF)
    (h : toolCallsFormat.read value = some calls) : value = toolCallsFormat.write calls := by
  obtain ⟨items, rfl, hcalls⟩ := readToolCalls_eq_some.mp h
  refine congrArg Json.arr (List.forall₂_eq_eq_eq ▸ ?_)
  rw [List.forall₂_map_right_iff]
  refine ((List.forall₂_and_left items calls).mpr ⟨wf_arr.mp hvalue, hcalls⟩).imp ?_
  rintro item call ⟨hitem, hdecode⟩
  obtain ⟨obj, inner, rfl, hreads⟩ := decodeChatToolCall_eq_some.mp hdecode
  exact (hreads.toValue_eq hitem).symm

theorem decodeChatToolCalls_eq_ok {calls : Option (List ToolCall)} :
    decodeChatToolCalls obj = .ok (some calls) ↔
      toolCallsFormat.Reads (get obj "tool_calls") calls := by
  unfold decodeChatToolCalls
  cases hmember : get obj "tool_calls" with
  | none => cases calls <;> simp [Reads]
  | some value =>
    cases value with
    | null => cases calls <;> simp [Reads, toolCallsFormat, readToolCalls]
    | arr items =>
      cases hitems : items.mapM decodeChatToolCall with
      | error e =>
        cases calls <;> simp [Reads, toolCallsFormat, readToolCalls, hitems, bind, Except.bind]
      | ok decoded =>
        cases hdecoded : decoded.mapM id <;> cases calls <;>
          simp [Reads, toolCallsFormat, readToolCalls, hitems, hdecoded]
    | bool | num | str | obj =>
      cases calls <;> simp [Reads, toolCallsFormat, readToolCalls, invalidArgument]

/-! ### Content parts -/

/-- The kinds of content parts with a portable form. -/
def partKinds : List String := ["text", "image_url", "input_audio", "file", "refusal"]

/-- What the members of an object read as. -/
inductive ReadsPart (obj : Object) : ContentPart → Prop
  | text {text : String} (htype : get obj "type" = some (.str "text"))
      (htext : get obj "text" = some (.str text)) :
      ReadsPart obj (.text text (otherKeys obj ["type", "text"]))
  | imageUrl {payload : Json} {imageUrl : OpenAiImageUrl}
      (htype : get obj "type" = some (.str "image_url"))
      (hpayload : get obj "image_url" = some payload)
      (hurl : readImageUrl payload = some imageUrl) :
      ReadsPart obj (.imageUrl imageUrl (otherKeys obj ["type", "image_url"]))
  | audio {audio : Json} (htype : get obj "type" = some (.str "input_audio"))
      (haudio : get obj "input_audio" = some audio) :
      ReadsPart obj (.audio audio (otherKeys obj ["type", "input_audio"]))
  | file {file : Json} (htype : get obj "type" = some (.str "file"))
      (hfile : get obj "file" = some file) :
      ReadsPart obj (.file file (otherKeys obj ["type", "file"]))
  | refusal {refusal : String} (htype : get obj "type" = some (.str "refusal"))
      (hrefusal : get obj "refusal" = some (.str refusal)) :
      ReadsPart obj (.refusal refusal (otherKeys obj ["type", "refusal"]))
  | native {kind : String} (htype : ∀ kind ∈ partKinds, get obj "type" ≠ some (.str kind)) :
      ReadsPart obj (.providerNative "openai_chat" kind (.obj obj))

variable {part : ContentPart}

theorem ReadsPart.imageUrl_of_type (h : ReadsPart obj part)
    (htype : get obj "type" = some (.str "image_url")) :
    ∃ image, part = .imageUrl image (otherKeys obj ["type", "image_url"]) := by
  cases h with
  | imageUrl => exact ⟨_, rfl⟩
  | native hnative => exact absurd htype (hnative "image_url" (by decide))
  | text h' | audio h' | file h' | refusal h' =>
    rw [htype] at h'
    simp at h'

variable [ErrorTexts]

theorem readsPart_of_decode (h : decodeChatContentPart value = .ok part) :
    ∃ obj, value = .obj obj ∧ ReadsPart obj part := by
  simp only [decodeChatContentPart, bind_eq_ok, okOr_eq_ok, asObject_eq_some] at h
  obtain ⟨obj, rfl, h⟩ := h
  refine ⟨obj, rfl, ?_⟩
  split at h
  · rename_i hkind
    simp only [bind_eq_ok, okOr_eq_ok, bind_asStr] at h
    obtain ⟨text, htext, ⟨⟩⟩ := h
    exact .text ((getD_asStr (by decide)).mp hkind) htext
  · rename_i hkind
    simp only [bind_eq_ok, okOr_eq_ok] at h
    obtain ⟨payload, hpayload, imageUrl, hurl, ⟨⟩⟩ := h
    exact .imageUrl ((getD_asStr (by decide)).mp hkind) hpayload hurl
  · rename_i hkind
    simp only [bind_eq_ok, okOr_eq_ok] at h
    obtain ⟨audio, haudio, ⟨⟩⟩ := h
    exact .audio ((getD_asStr (by decide)).mp hkind) haudio
  · rename_i hkind
    simp only [bind_eq_ok, okOr_eq_ok] at h
    obtain ⟨file, hfile, ⟨⟩⟩ := h
    exact .file ((getD_asStr (by decide)).mp hkind) hfile
  · rename_i hkind
    simp only [bind_eq_ok, okOr_eq_ok, bind_asStr] at h
    obtain ⟨refusal, hrefusal, ⟨⟩⟩ := h
    exact .refusal ((getD_asStr (by decide)).mp hkind) hrefusal
  · cases h
    refine .native fun kind hkind htype => ?_
    simp only [htype] at *
    simp only [partKinds, List.mem_cons] at hkind
    tauto

theorem decode_of_readsPart (h : ReadsPart obj part) (hnative : part.isNative = false) :
    decodeChatContentPart (.obj obj) = .ok part := by
  cases h with
  | imageUrl htype hpayload hurl =>
    simp [decodeChatContentPart, asObject, asStr, htype, hpayload, hurl]
  | text htype hpayload | audio htype hpayload | file htype hpayload | refusal htype hpayload =>
    simp [decodeChatContentPart, asObject, asStr, htype, hpayload]
  | native => cases hnative

section

variable (hobj : (Json.obj obj).WF)
include hobj

/-- Every part but an image is encoded as the object it was read from. -/
theorem encodeChatContentPart_of_reads (h : ReadsPart obj part)
    (himage : ∀ imageUrl extra, part ≠ .imageUrl imageUrl extra) :
    encodeChatContentPart part = .ok (.obj obj) := by
  have hsorted := (wf_obj.mp hobj).1
  cases h with
  | imageUrl => exact absurd rfl (himage _ _)
  | text htype hpayload | audio htype hpayload | file htype hpayload | refusal htype hpayload =>
    rw [encodeChatContentPart, insertFields_payload hsorted htype hpayload]
  | native => rfl

/-- The members that an image part is written with. -/
theorem encode_imageUrl (image : OpenAiImageUrl) :
    ∃ entries, encodeChatContentPart (.imageUrl image (otherKeys obj ["type", "image_url"])) =
        .ok (.obj entries) ∧ (Json.obj entries).WF ∧
      ∀ key, get entries key =
        if key = "image_url" then some (toValue image)
        else if key = "type" then some (.str "image_url") else get obj key := by
  obtain ⟨entries, hentries, hwf, -⟩ := toValue_imageUrl image
  refine ⟨_, rfl, wf_insertFields (hobj.filter _) ?_, fun key => ?_⟩
  · simp [hentries, hwf]
  · rw [get_insertFields, get_otherKeys]
    simp only [fieldOf]
    by_cases hkey : key = "image_url"
    · simp [hkey]
    · by_cases htype : key = "type" <;> simp [hkey, htype]

theorem represents_imageUrl {entries : Object} {payload : Json} {image : OpenAiImageUrl}
    (hentries : (Json.obj entries).WF) (htype : get entries "type" = some (.str "image_url"))
    (hpayload : get entries "image_url" = some payload) (hurl : readImageUrl payload = some image)
    (hother : ∀ key, key ∉ ["type", "image_url"] → get entries key = get obj key) :
    Represents decodeChatContentPart (.obj entries)
      (.imageUrl image (otherKeys obj ["type", "image_url"])) := by
  rw [← otherKeys_congr (wf_obj.mp hentries).1 (wf_obj.mp hobj).1 hother]
  exact ⟨hentries, decode_of_readsPart (.imageUrl htype hpayload hurl) rfl⟩

end

theorem exists_encode_part (h : Represents decodeChatContentPart value part) :
    ∃ encoded, encodeChatContentPart part = .ok encoded ∧
      Represents decodeChatContentPart encoded part := by
  obtain ⟨hwf, hdecode⟩ := h
  obtain ⟨obj, rfl, hreads⟩ := readsPart_of_decode hdecode
  by_cases himage : ∀ imageUrl extra, part ≠ .imageUrl imageUrl extra
  · exact ⟨.obj obj, encodeChatContentPart_of_reads hwf hreads himage, hwf, hdecode⟩
  · cases hreads with
    | imageUrl htype hpayload hurl =>
      rename_i payload image
      obtain ⟨entries, hentries, hentriesWf, hget⟩ := encode_imageUrl hwf image
      refine ⟨.obj entries, hentries, represents_imageUrl hwf hentriesWf (by rw [hget]; rfl)
        (by rw [hget]; rfl) (readImageUrl_toValue image) fun key hkey => ?_⟩
      simp only [List.mem_cons, List.not_mem_nil, or_false, not_or] at hkey
      rw [hget, if_neg hkey.2, if_neg hkey.1]
    | text | audio | file | refusal | native => simp at himage

/-- A part that is written as a patch of any part reads as the edited one. -/
theorem partLaw : PatchLaw decodeChatContentPart encodeChatContentPart fun _ => True := by
  refine .of_merge exists_encode_part ?_
  intro original before bv edited ev horiginal hbv hne hev hfresh _
  obtain ⟨hwf, hdecode⟩ := horiginal
  obtain ⟨obj, rfl, hreads⟩ := readsPart_of_decode hdecode
  by_cases himage : ∀ imageUrl extra, before ≠ .imageUrl imageUrl extra
  · cases hbv.symm.trans (encodeChatContentPart_of_reads hwf hreads himage)
    exact absurd rfl hne
  cases hreads with
  | imageUrl htype hpayload hurl =>
    rename_i payload image
    obtain ⟨entries, hentries, hentriesWf, hget⟩ := encode_imageUrl hwf image
    cases hbv.symm.trans hentries
    refine ⟨nofun, ?_⟩
    rintro _ _ e patched ⟨⟩ ⟨⟩ rfl h
    -- the edited part is an image as well
    obtain ⟨_, ⟨⟩, hreadsEdited⟩ := readsPart_of_decode hfresh.2
    have htypeEdited : get e "type" = some (.str "image_url") := by
      rw [← h.type, hget]
      rfl
    obtain ⟨image', rfl⟩ := hreadsEdited.imageUrl_of_type htypeEdited
    obtain ⟨_, hentries', -, hget'⟩ := encode_imageUrl hfresh.1 image'
    cases hev.symm.trans hentries'
    refine represents_imageUrl hfresh.1 h.wf ?_ ?_
      (readImageUrl_patch (hwf.member hpayload) hurl) fun key hkey => ?_
    · rw [h.member, htype, hget, htypeEdited]
      exact patchedMember_original (by simp) (by simp)
    · rw [h.member, hpayload, hget, hget']
      rfl
    · simp only [List.mem_cons, List.not_mem_nil, or_false, not_or] at hkey
      rw [h.member, hget, if_neg hkey.2, if_neg hkey.1]
      exact patchedMember_original (fun _ => hwf.member) (fun _ => hfresh.1.member)
  | text | audio | file | refusal | native => simp at himage

/-! ### Content -/

variable {content : MessageContent}

theorem represents_content :
    Represents decodeChatContent value content ↔
      (∃ text, value = .str text ∧ content = .text text) ∨
        ∃ items parts, value = .arr items ∧ content = .parts parts ∧
          List.Forall₂ (Represents decodeChatContentPart) items parts := by
  constructor
  · rintro ⟨hwf, hdecode⟩
    cases value with
    | str text =>
      cases hdecode
      exact Or.inl ⟨text, rfl, rfl⟩
    | arr items =>
      rw [decodeChatContent, bind_eq_ok] at hdecode
      obtain ⟨parts, hparts, ⟨⟩⟩ := hdecode
      exact Or.inr ⟨items, parts, rfl, rfl, forall₂_represents.mpr ⟨hwf, hparts⟩⟩
    | null | bool | num | obj => cases hdecode
  · rintro (⟨text, rfl, rfl⟩ | ⟨items, parts, rfl, rfl, hparts⟩)
    · exact ⟨rfl, rfl⟩
    · obtain ⟨hwf, hdecode⟩ := forall₂_represents.mp hparts
      refine ⟨hwf, ?_⟩
      rw [decodeChatContent, hdecode]
      rfl

theorem encodeChatContent_parts {parts : List ContentPart} {values : List Json} :
    encodeChatContent (.parts parts) = .ok (.arr values) ↔
      parts.mapM encodeChatContentPart = .ok values := by
  rw [encodeChatContent, bind_eq_ok]
  constructor
  · rintro ⟨values', hvalues, ⟨⟩⟩
    exact hvalues
  · intro hvalues
    exact ⟨values, hvalues, rfl⟩

theorem exists_encode_content (h : Represents decodeChatContent value content) :
    ∃ encoded, encodeChatContent content = .ok encoded ∧
      Represents decodeChatContent encoded content := by
  obtain ⟨text, rfl, rfl⟩ | ⟨items, parts, rfl, rfl, hparts⟩ := represents_content.mp h
  · exact ⟨.str text, rfl, h⟩
  · obtain ⟨values, hvalues, hrepr⟩ := exists_mapM_eq_ok fun part hpart =>
      let ⟨_, _, hitem⟩ := exists_of_forall₂_right hparts hpart
      partLaw.encodes hitem
    exact ⟨.arr values, encodeChatContent_parts.mpr hvalues,
      represents_content.mpr (Or.inr ⟨values, parts, rfl, rfl, hrepr⟩)⟩

theorem contentLaw : PatchLaw decodeChatContent encodeChatContent fun _ => True := by
  refine .of_merge exists_encode_content ?_
  intro original before bv edited ev horiginal hbv _ hev hfresh _
  constructor
  · rintro o b e rfl rfl rfl
    obtain ⟨_, ⟨⟩, -⟩ | ⟨_, before, ⟨⟩, rfl, hitems⟩ := represents_content.mp horiginal
    obtain ⟨_, ⟨⟩, -⟩ | ⟨_, edited, ⟨⟩, rfl, hvalues⟩ := represents_content.mp hfresh
    exact represents_content.mpr (Or.inr ⟨_, edited, rfl, rfl,
      partLaw.forall₂_patchItems hitems hvalues (fun _ _ => trivial)
        (encodeChatContent_parts.mp hbv) (encodeChatContent_parts.mp hev) _⟩)
  · rintro o b e patched rfl
    obtain ⟨_, ⟨⟩, -⟩ | ⟨_, _, ⟨⟩, -⟩ := represents_content.mp horiginal

end NemoRelay.OpenAIChatCodec

import NemoRelay.Codec.OpenAiChat.Defs

/-!
# Edited OpenAI Chat tools

Function tools, written as a patch of any original tool, read as the edit, and so does a tool
choice.
-/

namespace NemoRelay.OpenAIChatCodec

open Json FieldFormat SortedMap

/-! ### Function definitions -/

/-- The modelled keys of a function definition. -/
def functionKeys : List String := ["name", "description", "parameters", "strict"]

/-- The function definition that the members of an object read as. -/
structure ReadsFunctionDef (inner : Object) (function : FunctionDefinition) : Prop where
  name : get inner "name" = some (.str function.name)
  description :
    string.Reads (get inner "description") function.description
  parameters : get inner "parameters" = function.parameters
  strict : bool.Reads (get inner "strict") function.strict
  extra : otherKeys inner functionKeys = function.extra

/-- The object that a function definition is written as. -/
def functionObject (function : FunctionDefinition) : Object :=
  insertFields function.extra
    [("name", some (.str function.name)), ("description", function.description.map .str),
      ("parameters", function.parameters), ("strict", function.strict.map .bool)]

def nullableFunctionKey (key : String) : Prop := key = "description" ∨ key = "strict"

section FunctionDef

variable {inner : Object} {function : FunctionDefinition}

section

variable (h : ReadsFunctionDef inner function)
include h

theorem get_functionObject (key : String) :
    get (functionObject function) key =
      if key = "name" then some (.str function.name)
      else if key = "description" then function.description.map .str
      else if key = "parameters" then function.parameters
      else if key = "strict" then function.strict.map .bool
      else get inner key := by
  rw [functionObject, get_insertFields, ← h.extra, get_otherKeys]
  by_cases hname : key = "name"
  · simp [fieldOf, hname]
  by_cases hdescription : key = "description"
  · simp [fieldOf, hdescription, functionKeys]
  by_cases hparameters : key = "parameters"
  · simp [fieldOf, hparameters, functionKeys]
  by_cases hstrict : key = "strict"
  · simp [fieldOf, hstrict, functionKeys]
  simp [fieldOf, functionKeys, hname, hdescription, hparameters, hstrict]

section

variable (hinner : (Json.obj inner).WF)
include hinner

theorem ReadsFunctionDef.wf : (Json.obj (functionObject function)).WF := by
  refine wf_insertFields ?_ ?_
  · rw [← h.extra]
    exact hinner.filter _
  · simp only [List.forall_mem_cons]
    refine ⟨by simp, by simp, fun value hvalue => ?_,
      fun _ => (valid_bool function.strict).wf_write, by simp⟩
    exact hinner.member (h.parameters.trans hvalue)

/-- A function definition is written as the object it was read from, up to explicit nulls. -/
theorem ReadsFunctionDef.similar : Similar nullableFunctionKey inner (functionObject function) := by
  intro key
  rw [get_functionObject h]
  split_ifs with hname hdescription hparameters hstrict
  · rw [hname]
    exact Or.inl h.name
  · rw [hdescription]
    exact h.description.sameUpToNull (Or.inl rfl) string_exact fun _ => hinner.member
  · rw [hparameters]
    exact Or.inl h.parameters
  · rw [hstrict]
    exact h.strict.sameUpToNull (Or.inr rfl) bool_exact fun _ => hinner.member
  · exact Or.inl rfl

/-- Every object that is similar to the written function definition reads as it. -/
theorem ReadsFunctionDef.of_similar {patched : Object} (hpatched : (Json.obj patched).WF)
    (hsimilar : Similar nullableFunctionKey patched (functionObject function)) :
    ReadsFunctionDef patched function where
  name := by
    rw [hsimilar.get_eq (by simp [nullableFunctionKey]), get_functionObject h]
    rfl
  description := by
    refine (hsimilar "description").reads ?_
    rw [get_functionObject h]
    exact (valid_string function.description).reads_write
  parameters := by
    rw [hsimilar.get_eq (by simp [nullableFunctionKey]), get_functionObject h]
    rfl
  strict := by
    refine (hsimilar "strict").reads ?_
    rw [get_functionObject h]
    exact (valid_bool function.strict).reads_write
  extra := by
    rw [← h.extra]
    refine otherKeys_congr (wf_obj.mp hpatched).1 (wf_obj.mp hinner).1 fun key hkey => ?_
    simp only [functionKeys, List.mem_cons, List.not_mem_nil, or_false, not_or] at hkey
    obtain ⟨hname, hdescription, hparameters, hstrict⟩ := hkey
    rw [hsimilar.get_eq (by simp [nullableFunctionKey, hdescription, hstrict]),
      get_functionObject h]
    simp [hname, hdescription, hparameters, hstrict]

end

end

end FunctionDef

/-! ### Function tools -/

structure ReadsFunctionTool (obj inner : Object) (function : FunctionDefinition)
    (extra : Object) : Prop where
  type : get obj "type" = some (.str "function")
  member : get obj "function" = some (.obj inner)
  function : ReadsFunctionDef inner function
  extra : otherKeys obj ["type", "function"] = extra

variable {value : Json} {extra : Object}

theorem decodeChatTool_function {function : FunctionDefinition} :
    decodeChatTool value = .ok (.function function extra) ↔
      ∃ obj inner, value = .obj obj ∧ ReadsFunctionTool obj inner function extra := by
  constructor
  · intro h
    simp only [decodeChatTool, bind_eq_ok, okOr_eq_ok, asObject_eq_some] at h
    obtain ⟨obj, rfl, h⟩ := h
    split at h
    · cases h
    rename_i htype
    simp only [bind_eq_ok, okOr_eq_ok, bind_asObject, bind_asStr, optionalString,
      optionalBool, optionalField_eq_ok] at h
    obtain ⟨inner, hinner, name, hname, description, hdescription, strict, hstrict, ⟨⟩⟩ := h
    exact ⟨obj, inner, rfl, by simpa [bind_asStr] using htype, hinner,
      ⟨hname, hdescription, rfl, hstrict, rfl⟩, rfl⟩
  · rintro ⟨obj, inner, rfl, htype, hinner, hfunction, rfl⟩
    obtain ⟨name, description, parameters, strict, functionExtra⟩ := function
    obtain ⟨hname, hdescription, rfl, hstrict, rfl⟩ := hfunction
    simp [decodeChatTool, asObject, asStr, htype, hinner, hname, optionalString, optionalBool,
      optionalField_eq_ok.mpr hdescription, optionalField_eq_ok.mpr hstrict, functionKeys]

variable {obj : Object}

section Tools

variable [ErrorTexts] {function : FunctionDefinition}

/-- The members that a function tool is written with. -/
theorem encode_functionTool {inner : Object} (h : ReadsFunctionTool obj inner function extra)
    (hobj : (Json.obj obj).WF) :
    ∃ entries, encodeChatTool (.function function extra) = .ok (.obj entries) ∧
      (Json.obj entries).WF ∧ ∀ key, get entries key =
        if key = "function" then some (.obj (functionObject function))
        else if key = "type" then some (.str "function") else get obj key := by
  refine ⟨_, rfl, wf_insertFields ?_ ?_, fun key => ?_⟩
  · rw [← h.extra]
    exact hobj.filter _
  · have hinner := h.function.wf (hobj.member h.member)
    simp only [List.forall_mem_cons]
    refine ⟨by simp, ?_, by simp⟩
    rintro _ ⟨⟩
    exact hinner
  · rw [get_insertFields, ← h.extra, get_otherKeys]
    by_cases hfunction : key = "function"
    · simp [fieldOf, hfunction, functionObject]
    by_cases htype : key = "type"
    · simp [fieldOf, htype]
    simp [fieldOf, hfunction, htype]

omit [ErrorTexts] in
/-- An object with the extra members of a tool and a similar function definition reads as the
tool. -/
theorem represents_functionTool {inner entries patched : Object}
    (h : ReadsFunctionTool obj inner function extra) (hobj : (Json.obj obj).WF)
    (hentries : (Json.obj entries).WF) (htype : get entries "type" = some (.str "function"))
    (hmember : get entries "function" = some (.obj patched))
    (hsimilar : Similar nullableFunctionKey patched (functionObject function))
    (hother : ∀ key, key ∉ ["type", "function"] → get entries key = get obj
      key) : Represents decodeChatTool (.obj entries) (.function function extra) := by
  refine ⟨hentries, decodeChatTool_function.mpr ⟨entries, patched, rfl, htype, hmember,
    h.function.of_similar (hobj.member h.member) (hentries.member hmember) hsimilar, ?_⟩⟩
  rw [← h.extra]
  exact otherKeys_congr (wf_obj.mp hentries).1 (wf_obj.mp hobj).1 hother

theorem decodeChatTool_native {provider kind : String} {native : Json}
    (h : decodeChatTool value = .ok (.providerNative provider kind native)) :
    encodeChatTool (.providerNative provider kind native) = .ok value ∧
      ∃ obj, value = .obj obj ∧ get obj "type" ≠ some (.str "function") := by
  simp only [decodeChatTool, bind_eq_ok, okOr_eq_ok, asObject_eq_some] at h
  obtain ⟨obj, rfl, h⟩ := h
  split at h
  · rename_i htype
    cases h
    exact ⟨rfl, obj, rfl, by simpa [bind_asStr] using htype⟩
  · simp only [bind_eq_ok] at h
    obtain ⟨_, -, _, -, _, -, _, -, h⟩ := h
    cases h

theorem exists_encode_tool {tool : ToolDefinition} (h : Represents decodeChatTool value tool) :
    ∃ encoded, encodeChatTool tool = .ok encoded ∧ Represents decodeChatTool encoded tool := by
  cases tool with
  | providerNative provider kind native => exact ⟨value, (decodeChatTool_native h.2).1, h⟩
  | function function extra =>
    obtain ⟨hwf, hdecode⟩ := h
    obtain ⟨obj, inner, rfl, hreads⟩ := decodeChatTool_function.mp hdecode
    obtain ⟨entries, hentries, hentriesWf, hget⟩ := encode_functionTool hreads hwf
    refine ⟨.obj entries, hentries, represents_functionTool hreads hwf hentriesWf
      (by rw [hget]; rfl) (by rw [hget]; rfl) (Similar.refl _ _) fun key hkey => ?_⟩
    simp only [List.mem_cons, List.not_mem_nil, or_false, not_or] at hkey
    rw [hget, if_neg hkey.2, if_neg hkey.1]

theorem toolLaw : PatchLaw decodeChatTool encodeChatTool fun _ => True := by
  refine .of_merge exists_encode_tool ?_
  intro original before bv edited ev horiginal hbv hne hev hfresh _
  cases before with
  | providerNative provider kind native =>
    cases hbv.symm.trans (decodeChatTool_native horiginal.2).1
    exact absurd rfl hne
  | function function extra =>
    obtain ⟨obj, inner, rfl, hreads⟩ := decodeChatTool_function.mp horiginal.2
    obtain ⟨entries, hentries, -, hget⟩ := encode_functionTool hreads horiginal.1
    cases hbv.symm.trans hentries
    refine ⟨nofun, ?_⟩
    rintro _ _ e patched ⟨⟩ ⟨⟩ rfl h
    have htypeEdited : get e "type" = some (.str "function") := by
      rw [← h.type, hget]
      rfl
    cases edited with
    | providerNative provider kind native =>
      obtain ⟨-, _, ⟨⟩, hother⟩ := decodeChatTool_native hfresh.2
      exact absurd htypeEdited hother
    | function function' extra' =>
      obtain ⟨_, inner', ⟨⟩, hreads'⟩ := decodeChatTool_function.mp hfresh.2
      obtain ⟨_, hentries', -, hget'⟩ := encode_functionTool hreads' hfresh.1
      cases hev.symm.trans hentries'
      have hinner := horiginal.1.member hreads.member
      have hinner' := hfresh.1.member hreads'.member
      obtain ⟨inner'', hinner'', -, hsimilar⟩ :=
        (hreads.function.similar hinner).patch hinner (hreads'.function.wf hinner')
      refine represents_functionTool hreads' hfresh.1 h.wf ?_ ?_ hsimilar fun key hkey => ?_
      · rw [h.member, hreads.type, hget, htypeEdited]
        exact patchedMember_same (some (.str "function"))
      · rw [h.member, hreads.member, hget, hget', ← hinner'']
        rfl
      · simp only [List.mem_cons, List.not_mem_nil, or_false, not_or] at hkey
        rw [h.member, hget, if_neg hkey.2, if_neg hkey.1]
        exact patchedMember_original (fun _ => horiginal.1.member) (fun _ => hfresh.1.member)

end Tools

/-! ### Tool choice -/

variable {name : String}

theorem chosenFunction_eq_some :
    chosenFunction value = some name ↔ ∃ obj function, value = .obj obj ∧
      get obj "type" = some (.str "function") ∧ get obj "function" = some (.obj function) ∧
      get function "name" = some (.str name) := by
  constructor
  · intro h
    rw [chosenFunction, Option.bind_eq_bind, Option.bind_eq_some_iff] at h
    obtain ⟨obj, hobj, h⟩ := h
    split at h
    · rename_i htype
      obtain ⟨function, hfunction, hname⟩ := Option.bind_eq_some_iff.mp h
      exact ⟨obj, function, asObject_eq_some.mp hobj, bind_asStr.mp htype,
        bind_asObject.mp hfunction, bind_asStr.mp hname⟩
    · cases h
  · rintro ⟨obj, function, rfl, htype, hfunction, hname⟩
    simp [chosenFunction, asObject, asStr, htype, hfunction, hname]

/-- A tool choice forces a function, or is encoded as the value it was read from. -/
theorem encode_decodeChatToolChoice (value : Json) :
    encodeChatToolChoice (decodeChatToolChoice value) = .ok value ∨
      ∃ name, chosenFunction value = some name ∧ decodeChatToolChoice value =
        .specific { choiceType := "function", function := { name } } := by
  unfold decodeChatToolChoice
  split
  iterate 3
    · rename_i h
      rw [asStr_eq_some.mp h]
      exact Or.inl rfl
  · cases hname : chosenFunction value with
    | none => exact Or.inl rfl
    | some name => exact Or.inr ⟨name, rfl, rfl⟩

theorem decodeChatToolChoice_obj (h : chosenFunction (.obj obj) = some name) :
    decodeChatToolChoice (.obj obj) =
      .specific { choiceType := "function", function := { name } } := by
  simp [decodeChatToolChoice, asStr, h]

theorem exists_patch_functionName {function : Object} (hfunction : (Json.obj function).WF)
    (hname : get function "name" = some (.str name)) (name' : String) :
    ∃ patched, patchChangedJson (.obj function) (.obj [("name", .str name)])
        (.obj [("name", .str name')]) = .obj patched ∧
      get patched "name" = some (.str name') := by
  refine patchChangedJson_cases (motive := fun value => ∃ patched, value = .obj patched ∧
    get patched "name" = some (.str name')) hfunction rfl ?_ ⟨_, rfl, rfl⟩ nofun ?_
  · rintro ⟨⟩
    exact ⟨function, rfl, hname⟩
  · rintro _ _ _ patched ⟨⟩ ⟨⟩ ⟨⟩ h
    refine ⟨patched, rfl, ?_⟩
    rw [h.member, hname]
    exact patchedMember_str name name'

theorem exists_encode_toolChoice (hvalue : value.WF) :
    ∃ encoded, encodeChatToolChoice (decodeChatToolChoice value) = .ok encoded ∧ encoded.WF ∧
      decodeChatToolChoice encoded = decodeChatToolChoice value := by
  obtain hself | ⟨name, -, hname⟩ := encode_decodeChatToolChoice value
  · exact ⟨value, hself, hvalue, rfl⟩
  · rw [hname]
    refine ⟨_, rfl, ?_, decodeChatToolChoice_obj rfl⟩
    have hkeys : "function" < "type" := by decide
    simp only [Json.WF, wf, wfEntries, wfEntry, List.all_cons, List.all_nil,
      Bool.and_true, decide_eq_true hkeys]

/-- The tool choice can be patched by one with a portable form. -/
theorem decodeChatToolChoice_patch {original : Json} (horiginal : original.WF) (hvalue : value.WF)
    (hnative : (decodeChatToolChoice value).isNative = false) :
    ∃ bv ev, encodeChatToolChoice (decodeChatToolChoice original) = .ok bv ∧
      encodeChatToolChoice (decodeChatToolChoice value) = .ok ev ∧
      (patchChangedJson original bv ev).WF ∧
      decodeChatToolChoice (patchChangedJson original bv ev) = decodeChatToolChoice value := by
  obtain ⟨ev, hev, hevWf, hfresh⟩ := exists_encode_toolChoice hvalue
  obtain hself | ⟨name, hchosen, hname⟩ := encode_decodeChatToolChoice original
  · refine ⟨original, ev, hself, hev, wf_patchChangedJson _ horiginal hevWf, ?_⟩
    rw [patchChangedJson_original horiginal hevWf]
    exact hfresh
  · refine ⟨_, ev, by rw [hname]; rfl, hev, wf_patchChangedJson _ horiginal hevWf, ?_⟩
    obtain ⟨obj, function, rfl, htype, hfunction, hget⟩ := chosenFunction_eq_some.mp hchosen
    refine patchChangedJson_cases
      (motive := fun patched => decodeChatToolChoice patched = decodeChatToolChoice value)
      horiginal hevWf ?_ hfresh nofun ?_
    · intro hsame
      rw [hname, ← hfresh, ← hsame]
      exact (decodeChatToolChoice_obj rfl).symm
    · rintro _ _ e patched ⟨⟩ ⟨⟩ rfl h
      -- the edited choice is an object and not native, so it forces a function as well
      cases hchosen' : chosenFunction (.obj e) with
      | none =>
        have hdecode : decodeChatToolChoice (.obj e) =
            .providerNative (chatNative "tool_choice" (.obj e)) := by
          simp [decodeChatToolChoice, asStr, hchosen']
        rw [← hfresh, hdecode] at hnative
        cases hnative
      | some name' =>
        have hvalueName := hfresh.symm.trans (decodeChatToolChoice_obj hchosen')
        rw [hvalueName] at hev ⊢
        cases hev
        obtain ⟨function', hfunction', hname'⟩ :=
          exists_patch_functionName (horiginal.member hfunction) hget name'
        refine decodeChatToolChoice_obj (chosenFunction_eq_some.mpr
          ⟨patched, function', rfl, ?_, ?_, hname'⟩)
        · rw [h.member, htype]
          exact patchedMember_same (some (.str "function"))
        · rw [h.member, hfunction, ← hfunction']
          rfl

end NemoRelay.OpenAIChatCodec

import NemoRelay.Adaptive.RequestSurface

/-!
# What applying hints to an Anthropic request leaves alone

Hints should only touch the `cache_control` members of system blocks, tools and the elements of
message contents, and turn a text into one text block. Two bodies that differ in nothing else are
equal once these members are removed and every text is such a block.

Setting a retention visits every value below `system`, `messages` and `tools`, so it also reaches
objects named `cache_control` in tool inputs and schemas.
-/

namespace NemoRelay.Acg.AnthropicMessages

open List hiding erase get insert

open SortedMap

open Option (bind_eq_bind bind_eq_some_iff bind_some getD_some map_some)

/-! ### Bodies without annotations -/

open Json (asArray asArray_eq_some asObject asObject_eq_some asStr induction wf_arr wf_obj wf_str)

def textBlock (text : String) : Json := .obj [("text", .str text), ("type", .str "text")]

def stripElement : Json → Json
  | .obj entries => .obj (erase entries "cache_control")
  | value => value

def stripContent : Json → Json
  | .str text => .arr [textBlock text]
  | .arr items => .arr (items.map stripElement)
  | value => value

def stripMember (key : String) (value : Json) : Json :=
  if key = "content" then stripContent value else value

def stripMessage : Json → Json
  | .obj message => .obj (mapValues stripMember message)
  | value => value

def mapItems (f : Json → Json) : Json → Json
  | .arr items => .arr (items.map f)
  | value => value

def stripAt (key : String) (value : Json) : Json :=
  if key = "system" then stripContent value
  else if key = "messages" then mapItems stripMessage value
  else if key = "tools" then mapItems stripElement value
  else value

def strip (body : Object) : Object := mapValues stripAt body

/-- The contents that are texts: that of `system`, then those of the messages. -/
def texts (body : Object) : List (Option String) :=
  (get body "system").bind asStr ::
    (((get body "messages").bind asArray).getD []).map
      fun message => (message.get "content").bind asStr

/-- The bodies differ in annotations only, and no text is new. -/
structure OnlyAnnotates (body body' : Object) : Prop where
  strip_eq : strip body' = strip body
  texts_kept : ∀ (i : Nat) text,
    (texts body')[i]? = some (some text) → (texts body)[i]? = some (some text)

theorem OnlyAnnotates.trans {body body' body'' : Object} (h : OnlyAnnotates body body')
    (h' : OnlyAnnotates body' body'') : OnlyAnnotates body body'' :=
  ⟨h'.strip_eq.trans h.strip_eq, fun i text hi => h.texts_kept i text (h'.texts_kept i text hi)⟩

/-! ### Objects named `cache_control` -/

/-- The object is named `cache_control`, at any depth of the value. -/
inductive HasControl (control : Object) : Json → Prop
  | own {entries : Object} (h : ("cache_control", .obj control) ∈ entries) :
    HasControl control (.obj entries)
  | member {entries : Object} {key : String} {value : Json} (h : (key, value) ∈ entries)
    (hvalue : HasControl control value) : HasControl control (.obj entries)
  | item {items : List Json} {value : Json} (h : value ∈ items)
    (hvalue : HasControl control value) : HasControl control (.arr items)

/-- Every such object inside the value has the retention already. -/
def Settled (ttl : String) (value : Json) : Prop :=
  ∀ control, HasControl control value → get control "ttl" = some (.str ttl)

variable {ttl : String} {body content : Object} {value : Json}

theorem settled_arr {items : List Json} :
    Settled ttl (.arr items) ↔ ∀ item ∈ items, Settled ttl item := by
  refine ⟨fun h item hitem control hcontrol => h control (.item hitem hcontrol), ?_⟩
  rintro h control (_ | _ | ⟨hitem, hcontrol⟩)
  exact h _ hitem control hcontrol

/-- A member on its own: its value, and if it is an annotation its retention. -/
theorem settled_member {key : String} : Settled ttl (.obj [(key, value)]) ↔
    Settled ttl value ∧ (key = "cache_control" → ∀ control, value = .obj control →
      get control "ttl" = some (.str ttl)) := by
  constructor
  · intro h
    refine ⟨fun control hcontrol => h control (.member (mem_singleton_self _) hcontrol), ?_⟩
    rintro rfl control rfl
    exact h control (.own (mem_singleton_self _))
  · rintro ⟨hvalue, hown⟩ control (hmem | ⟨hmem, hcontrol⟩)
    · cases mem_singleton.mp hmem
      exact hown rfl control rfl
    · cases mem_singleton.mp hmem
      exact hvalue control hcontrol

variable {entries : Object}

theorem settled_obj :
    Settled ttl (.obj entries) ↔ ∀ entry ∈ entries, Settled ttl (.obj [entry]) := by
  constructor
  · rintro h entry hentry control (hmem | ⟨hmem, hcontrol⟩)
    · cases mem_singleton.mp hmem
      exact h control (.own hentry)
    · cases mem_singleton.mp hmem
      exact h control (.member hentry hcontrol)
  · rintro h control (hmem | ⟨hmem, hcontrol⟩)
    · exact h _ hmem control (.own (mem_singleton_self _))
    · exact h _ hmem control (.member (mem_singleton_self _) hcontrol)

/-! ### Setting a retention -/

def setTtl (ttl : String) : Json → Json
  | .obj control => .obj (insert control "ttl" (.str ttl))
  | value => value

/-- What a retention makes of a member. -/
def memberTtl (ttl key : String) (value : Json) : Json :=
  if key = "cache_control" then setTtl ttl (applyTtlToValue ttl value)
  else applyTtlToValue ttl value

theorem applyTtlToValue_arr (items : List Json) :
    applyTtlToValue ttl (.arr items) = .arr (items.map (applyTtlToValue ttl)) := by
  have hitems : applyTtlToItems ttl items = items.map (applyTtlToValue ttl) := by
    induction items with
    | nil => rfl
    | cons item items ih => rw [applyTtlToItems, ih, map_cons]
  rw [applyTtlToValue, hitems]

theorem withTtl_eq (h : Sorted entries) :
    withTtl ttl entries = adjust "cache_control" (setTtl ttl) entries := by
  rw [withTtl, h.adjust_eq]
  cases hget : get entries "cache_control" with
  | none => rfl
  | some value =>
    cases value with
    | obj control => rfl
    | null | bool | num | str | arr => exact (h.insert_of_get hget).symm

theorem applyTtlToValue_obj (h : Sorted entries) :
    applyTtlToValue ttl (.obj entries) = .obj (mapValues (memberTtl ttl) entries) := by
  have hentries : applyTtlToEntries ttl entries =
      mapValues (fun _ => applyTtlToValue ttl) entries := by
    clear h
    induction entries with
    | nil => rfl
    | cons entry entries ih =>
      rw [applyTtlToEntries, ih, applyTtlToEntry]
      rfl
  rw [applyTtlToValue, hentries, withTtl_eq (h.mapValues _), adjust, mapValues_mapValues]
  rfl

theorem setTtl_eq_self (hwf : value.WF) :
    setTtl ttl (applyTtlToValue ttl value) = value ↔ applyTtlToValue ttl value = value ∧
      ∀ control, value = .obj control → get control "ttl" = some (.str ttl) := by
  cases value with
  | obj control =>
    have hsorted := (wf_obj.mp hwf).1
    rw [applyTtlToValue_obj hsorted]
    constructor
    · intro heq
      have hget : ∀ key, get (insert (mapValues (memberTtl ttl) control) "ttl"
          (.str ttl)) key = get control key := by
        intro key
        rw [setTtl, Json.obj.injEq] at heq
        rw [heq]
      have httl : get control "ttl" = some (.str ttl) := by
        rw [← hget, get_insert, if_pos rfl]
      refine ⟨congrArg Json.obj ?_, by rintro _ ⟨⟩; exact httl⟩
      refine ext (hsorted.mapValues _) hsorted fun key => ?_
      by_cases hkey : key = "ttl"
      · rw [hkey, get_mapValues, httl]
        rfl
      · rw [← hget key, get_insert, if_neg hkey]
    · rintro ⟨heq, hown⟩
      rw [heq, setTtl, hsorted.insert_of_get (hown control rfl)]
  | null | bool | num | str | arr => simp [applyTtlToValue, setTtl]

theorem memberTtl_eq_self {key : String} (hwf : value.WF)
    (hvalue : applyTtlToValue ttl value = value ↔ Settled ttl value) :
    memberTtl ttl key value = value ↔ Settled ttl (.obj [(key, value)]) := by
  rw [settled_member, memberTtl]
  by_cases hkey : key = "cache_control"
  · rw [if_pos hkey, setTtl_eq_self hwf, hvalue]
    simp only [hkey, true_imp_iff]
  · rw [if_neg hkey, hvalue]
    simp only [hkey, false_imp_iff, and_true]

/-- A retention leaves a value alone exactly if every annotation inside has it. -/
theorem applyTtlToValue_eq_self (hwf : value.WF) :
    applyTtlToValue ttl value = value ↔ Settled ttl value := by
  induction value using induction with
  | null | bool | num | str =>
    simp only [applyTtlToValue, true_iff]
    exact nofun
  | arr items ih =>
    rw [applyTtlToValue_arr, settled_arr, Json.arr.injEq]
    rw [wf_arr] at hwf
    constructor
    · intro heq item hitem
      rw [← ih item hitem (hwf item hitem)]
      exact map_inj_left.mp (heq.trans (map_id items).symm) item hitem
    · intro hsettled
      refine (map_inj_left.mpr fun item hitem => ?_).trans (map_id items)
      exact (ih item hitem (hwf item hitem)).mpr (hsettled item hitem)
  | obj entries ih =>
    rw [applyTtlToValue_obj (wf_obj.mp hwf).1, settled_obj, Json.obj.injEq]
    nth_rewrite 2 [← mapValues_id entries]
    rw [mapValues_eq_iff]
    refine forall₂_congr fun entry hentry => ?_
    have hentrywf := (wf_obj.mp hwf).2 entry hentry
    exact memberTtl_eq_self hentrywf (ih entry hentry hentrywf)

theorem wf_applyTtlToValue (hwf : value.WF) : (applyTtlToValue ttl value).WF := by
  induction value using induction with
  | null | bool | num | str => simp [applyTtlToValue]
  | arr items ih =>
    rw [applyTtlToValue_arr, wf_arr, forall_mem_map]
    exact fun item hitem => ih item hitem (wf_arr.mp hwf item hitem)
  | obj entries ih =>
    obtain ⟨hsorted, hvalues⟩ := wf_obj.mp hwf
    rw [applyTtlToValue_obj hsorted, wf_obj, mapValues, forall_mem_map]
    refine ⟨hsorted.mapValues _, fun entry hentry => ?_⟩
    have hvalue := ih entry hentry (hvalues entry hentry)
    simp only [memberTtl]
    split
    · -- the annotation of an object
      generalize applyTtlToValue ttl entry.2 = value at hvalue ⊢
      cases value with
      | obj control => exact hvalue.insert "ttl" (wf_str ttl)
      | null | bool | num | str | arr => exact hvalue
    · exact hvalue

/-! ### Elements, contents and messages -/

/-- The members other than the annotation are settled. -/
def ElementSettled (ttl : String) : Json → Prop
  | .obj entries => ∀ entry ∈ entries, entry.1 ≠ "cache_control" → Settled ttl entry.2
  | value => Settled ttl value

def ContentSettled (ttl : String) : Json → Prop
  | .arr items => ∀ item ∈ items, ElementSettled ttl item
  | value => Settled ttl value

/-- A message has no annotation of its own: one would have to be settled. -/
def MessageSettled (ttl : String) : Json → Prop
  | .obj message => ∀ entry ∈ message,
      if entry.1 = "content" then ContentSettled ttl entry.2 else Settled ttl (.obj [entry])
  | value => Settled ttl value

theorem stripElement_applyTtl (hwf : value.WF) :
    stripElement (applyTtlToValue ttl value) = stripElement value ↔ ElementSettled ttl value := by
  cases value with
  | obj entries =>
    obtain ⟨hsorted, hvalues⟩ := wf_obj.mp hwf
    rw [applyTtlToValue_obj hsorted, stripElement, stripElement, erase_mapValues, Json.obj.injEq]
    nth_rewrite 2 [← mapValues_id (erase entries "cache_control")]
    rw [mapValues_eq_iff]
    simp only [erase, mem_filter, decide_eq_true_eq, and_imp]
    refine forall₃_congr fun entry hentry hkey => ?_
    rw [memberTtl, if_neg hkey, applyTtlToValue_eq_self (hvalues entry hentry)]
  | null | bool | num | str | arr => exact applyTtlToValue_eq_self hwf

theorem map_stripElement_applyTtl {items : List Json} (hwf : ∀ item ∈ items, item.WF) :
    (items.map (applyTtlToValue ttl)).map stripElement = items.map stripElement ↔
      ∀ item ∈ items, ElementSettled ttl item := by
  rw [map_map, map_inj_left]
  exact forall₂_congr fun item hitem => stripElement_applyTtl (hwf item hitem)

theorem stripContent_applyTtl (hwf : value.WF) :
    stripContent (applyTtlToValue ttl value) = stripContent value ↔ ContentSettled ttl value := by
  cases value with
  | arr items =>
    rw [applyTtlToValue_arr, stripContent, stripContent, Json.arr.injEq]
    exact map_stripElement_applyTtl (wf_arr.mp hwf)
  | str text => exact ⟨fun _ => (applyTtlToValue_eq_self hwf).mp rfl, fun _ => rfl⟩
  | null | bool | num | obj => exact applyTtlToValue_eq_self hwf

theorem stripMessage_applyTtl (hwf : value.WF) :
    stripMessage (applyTtlToValue ttl value) = stripMessage value ↔ MessageSettled ttl value := by
  cases value with
  | obj message =>
    obtain ⟨hsorted, hvalues⟩ := wf_obj.mp hwf
    rw [applyTtlToValue_obj hsorted, stripMessage, stripMessage, mapValues_mapValues,
      Json.obj.injEq, mapValues_eq_iff]
    refine forall₂_congr fun entry hentry => ?_
    have hvalue := hvalues entry hentry
    by_cases hkey : entry.1 = "content"
    · simp only [stripMember, memberTtl, hkey, if_true, String.reduceEq, if_false]
      exact stripContent_applyTtl hvalue
    · rw [stripMember, stripMember, if_neg hkey, if_neg hkey, if_neg hkey]
      exact memberTtl_eq_self hvalue (applyTtlToValue_eq_self hvalue)
  | null | bool | num | str | arr => exact applyTtlToValue_eq_self hwf

/-! ### A retention for the whole body -/

def MemberSettled (ttl key : String) (value : Json) : Prop :=
  if key = "system" then ContentSettled ttl value
  else if key = "messages" then
    ∀ messages, value = .arr messages → ∀ message ∈ messages, MessageSettled ttl message
  else if key = "tools" then ∀ tools, value = .arr tools → ∀ tool ∈ tools, ElementSettled ttl tool
  else True

def ttlAt (ttl key : String) (value : Json) : Json :=
  if key = "system" then applyTtlToValue ttl value
  else if key = "messages" ∨ key = "tools" then mapItems (applyTtlToValue ttl) value
  else value

theorem applyTtlToMember_eq (h : Sorted content) (member : String) :
    applyTtlToMember ttl member content =
      adjust member (mapItems (applyTtlToValue ttl)) content := by
  rw [applyTtlToMember, h.adjust_eq]
  cases hget : get content member with
  | none => rfl
  | some value =>
    cases value with
    | arr items => rfl
    | null | bool | num | str | obj => exact (h.insert_of_get hget).symm

theorem applyTtlToCacheControls_eq (h : Sorted content) :
    applyTtlToCacheControls ttl content = mapValues (ttlAt ttl) content := by
  have hsystem : applyTtlToCacheControls ttl content = applyTtlToMember ttl "tools"
      (applyTtlToMember ttl "messages" (adjust "system" (applyTtlToValue ttl) content)) := by
    rw [applyTtlToCacheControls, h.adjust_eq]
    cases get content "system" <;> rfl
  rw [hsystem, adjust, applyTtlToMember_eq (h.mapValues _), adjust,
    applyTtlToMember_eq ((h.mapValues _).mapValues _), adjust, mapValues_mapValues,
    mapValues_mapValues, mapValues_eq_iff]
  intro entry _
  by_cases htools : entry.1 = "tools"
  · simp [ttlAt, htools]
  · by_cases hmessages : entry.1 = "messages" <;> simp [ttlAt, htools, hmessages]

theorem mapItems_mapItems {f g : Json → Json} : mapItems f (mapItems g value) = mapItems f value ↔
    ∀ items, value = .arr items → ∀ item ∈ items, f (g item) = f item := by
  cases value with
  | arr items | null | bool | num | str | obj => simp [mapItems]

theorem strip_applyTtl (hwf : (Json.obj content).WF) :
    strip (applyTtlToCacheControls ttl content) = strip content ↔
      ∀ entry ∈ content, MemberSettled ttl entry.1 entry.2 := by
  obtain ⟨hsorted, hvalues⟩ := wf_obj.mp hwf
  rw [applyTtlToCacheControls_eq hsorted, strip, strip, mapValues_mapValues, mapValues_eq_iff]
  refine forall₂_congr fun entry hentry => ?_
  obtain ⟨key, value⟩ := entry
  have hvalue : value.WF := hvalues _ hentry
  have hitems : ∀ items, value = .arr items → ∀ item ∈ items, item.WF := by
    rintro items rfl
    exact wf_arr.mp hvalue
  simp only [stripAt, ttlAt, MemberSettled]
  by_cases hsystem : key = "system"
  · rw [if_pos hsystem, if_pos hsystem, if_pos hsystem, if_pos hsystem]
    exact stripContent_applyTtl hvalue
  · by_cases hmessages : key = "messages"
    · simp only [hmessages, String.reduceEq, if_false, if_true, true_or, mapItems_mapItems]
      exact forall₄_congr fun items heq item hitem =>
        stripMessage_applyTtl (hitems items heq item hitem)
    · by_cases htools : key = "tools"
      · simp only [htools, String.reduceEq, if_false, if_true, or_true, mapItems_mapItems]
        exact forall₄_congr fun items heq item hitem =>
          stripElement_applyTtl (hitems items heq item hitem)
      · simp [hsystem, hmessages, htools]

theorem asStr_applyTtlToValue (value : Json) : (applyTtlToValue ttl value).asStr = value.asStr := by
  cases value <;> rfl

theorem texts_applyTtl (hwf : (Json.obj content).WF) :
    texts (applyTtlToCacheControls ttl content) = texts content := by
  rw [applyTtlToCacheControls_eq (wf_obj.mp hwf).1, texts, get_mapValues, get_mapValues]
  congr 1
  · cases get content "system" with
    | none => rfl
    | some system => exact asStr_applyTtlToValue system
  · cases hget : get content "messages" with
    | none => rfl
    | some value =>
      cases value with
      | arr messages =>
        have hmessages := wf_arr.mp (hwf.member hget)
        simp only [map_some, ttlAt, String.reduceEq, if_false, true_or, if_true, mapItems,
          bind_some, asArray, getD_some, map_map]
        refine map_congr_left fun message hmessage => ?_
        have hmessage := hmessages message hmessage
        cases message with
        | obj entries =>
          rw [Function.comp_apply, applyTtlToValue_obj (wf_obj.mp hmessage).1]
          simp only [Json.get, get_mapValues, asObject, bind_some]
          cases get entries "content" with
          | none => rfl
          | some value => exact asStr_applyTtlToValue value
        | null | bool | num | str | arr => rfl
      | null | bool | num | str | obj => rfl

/-! ### Breakpoints -/

variable {body' : Object} {ir : PromptIR}

theorem OnlyAnnotates.refl (body : Object) : OnlyAnnotates body body :=
  ⟨rfl, fun _ _ h => h⟩

theorem stripElement_withCacheControl (entries : Object) :
    stripElement (withCacheControl entries) = stripElement (.obj entries) :=
  congrArg Json.obj (erase_insert entries _ _)

/-- Content that can have a breakpoint at its end. -/
def Annotatable : Json → Prop
  | .str _ => True
  | .arr blocks => ∃ block, blocks.getLast? = some (.obj block)
  | _ => False

theorem cacheContent_isSome : (cacheContent value).isSome ↔ Annotatable value := by
  cases value with
  | arr blocks =>
    simp only [cacheContent]
    split
    · rename_i block hlast
      exact iff_of_true rfl ⟨block, hlast⟩
    · rename_i hlast
      exact iff_of_false Bool.false_ne_true fun ⟨block, h⟩ => hlast block h
  | null | bool | num | str | obj => simp [cacheContent, Annotatable]

variable {cached : Json}

theorem cacheContent_spec (h : cacheContent value = some cached) :
    stripContent cached = stripContent value ∧ cached.asStr = none := by
  cases value with
  | str text =>
    cases h
    exact ⟨rfl, rfl⟩
  | arr blocks =>
    simp only [cacheContent] at h
    split at h
    · rename_i block hlast
      cases h
      refine ⟨congrArg Json.arr ?_, rfl⟩
      conv_rhs => rw [← dropLast_append_getLast? _ hlast]
      rw [map_append, map_append, map_singleton, map_singleton,
        stripElement_withCacheControl]
    · cases h
  | null | bool | num | obj => cases h

/-- The message itself is not annotated, or has that annotation already. -/
def MessageAnnotatable (message : Object) : Prop :=
  (∃ value, get message "content" = some value ∧ Annotatable value) ∨
    get message "cache_control" = some ephemeral

theorem cacheMessage_spec {message : Object} (hsorted : Sorted message) :
    ∃ cached, cacheMessage (.obj message) = some cached ∧
      (stripMessage cached = stripMessage (.obj message) ↔ MessageAnnotatable message) ∧
      ∀ text, (cached.get "content").bind asStr = some text →
        (get message "content").bind asStr = some text := by
  cases hcontent : (get message "content").bind cacheContent with
  | some cached =>
    obtain ⟨value, hget, hcached⟩ := bind_eq_some_iff.mp hcontent
    obtain ⟨hstrip, htext⟩ := cacheContent_spec hcached
    refine ⟨.obj (insert message "content" cached), by simp only [cacheMessage, hcontent],
      iff_of_true ?_ (.inl ⟨value, hget, ?_⟩), ?_⟩
    · exact congrArg Json.obj ((hsorted.mapValues_insert_eq_iff hget).mpr hstrip)
    · rw [← cacheContent_isSome, hcached]
      rfl
    · intro text h
      rw [Json.get, asObject, bind_some, get_insert, if_pos rfl,
        bind_some, htext] at h
      cases h
  | none =>
    refine ⟨withCacheControl message, by simp only [cacheMessage, hcontent], ?_, ?_⟩
    · have hcontent' : ¬ ∃ value, get message "content" = some value ∧ Annotatable value := by
        rintro ⟨value, hget, hvalue⟩
        rw [hget, bind_some] at hcontent
        rw [← cacheContent_isSome, hcontent] at hvalue
        cases hvalue
      rw [MessageAnnotatable, or_iff_right hcontent', withCacheControl, stripMessage, stripMessage,
        Json.obj.injEq]
      constructor
      · intro heq
        have hkey := congrArg (get · "cache_control") heq
        simpa [get_mapValues, get_insert, stripMember] using hkey
      · intro hget
        rw [hsorted.insert_of_get hget]
    · intro text h
      rwa [Json.get, withCacheControl, asObject, bind_some, get_insert] at h

theorem onlyAnnotates_system (hsorted : Sorted content)
    (h : injectCacheControlSystem content = some body') : OnlyAnnotates content body' := by
  simp only [injectCacheControlSystem, bind_eq_bind, bind_eq_some_iff] at h
  obtain ⟨system, hget, cached, hcached, hbody⟩ := h
  cases hbody
  obtain ⟨hstrip, htext⟩ := cacheContent_spec hcached
  refine ⟨(hsorted.mapValues_insert_eq_iff hget).mpr hstrip, fun i text hi => ?_⟩
  rw [texts, get_insert, if_pos rfl, bind_some, htext, get_insert] at hi
  cases i with
  | zero => cases hi
  | succ i => exact hi

theorem texts_insert_tools (value : Json) :
    texts (insert content "tools" value) = texts content := by
  simp [texts, get_insert]

theorem onlyAnnotates_tool (hsorted : Sorted content) {index : Nat}
    (h : injectCacheControlTool content index = some body') : OnlyAnnotates content body' := by
  simp only [injectCacheControlTool, bind_eq_bind, bind_eq_some_iff,
    asArray_eq_some, asObject_eq_some] at h
  obtain ⟨tools, ⟨_, hget, rfl⟩, tool, htool, entries, rfl, hbody⟩ := h
  cases hbody
  refine ⟨(hsorted.mapValues_insert_eq_iff hget).mpr ?_, ?_⟩
  · obtain ⟨hlt, htool⟩ := List.getElem?_eq_some_iff.mp htool
    refine congrArg Json.arr ?_
    rw [map_set, stripElement_withCacheControl, ← htool, ← getElem_map stripElement,
      set_getElem_self]
    rwa [length_map]
  · intro i text hi
    rwa [texts_insert_tools] at hi

theorem onlyAnnotates_message_iff (hwf : (Json.obj content).WF) {messages : List Json} {index : Nat}
    {message : Object} (hget : get content "messages" = some (.arr messages))
    (hmessage : messages[index]? = some (.obj message)) :
    OnlyAnnotates content ((injectCacheControlMessage content index).getD content) ↔
      MessageAnnotatable message := by
  obtain ⟨hlt, hindex⟩ := List.getElem?_eq_some_iff.mp hmessage
  have hmem := wf_arr.mp (hwf.member hget) _ (mem_of_getElem? hmessage)
  obtain ⟨cached, hcached, hstrip, htexts⟩ := cacheMessage_spec (wf_obj.mp hmem).1
  have hinject : injectCacheControlMessage content index =
      some (insert content "messages" (.arr (messages.set index cached))) := by
    simp [injectCacheControlMessage, hget, asArray, hmessage, hcached]
  have hbody : strip (insert content "messages" (.arr (messages.set index cached))) =
      strip content ↔ MessageAnnotatable message := by
    rw [strip, strip, (wf_obj.mp hwf).1.mapValues_insert_eq_iff hget, ← hstrip]
    show Json.arr _ = Json.arr _ ↔ _
    rw [Json.arr.injEq, map_set]
    constructor
    · intro heq
      have hi := congrArg (·[index]?) heq
      simpa [hlt, hindex] using hi
    · intro heq
      rw [heq, ← hindex, ← getElem_map stripMessage, set_getElem_self]
      rwa [length_map]
  rw [hinject]
  refine ⟨fun h => hbody.mp h.strip_eq, fun h => ⟨hbody.mpr h, fun i text hi => ?_⟩⟩
  simp only [texts, get_insert, if_true, hget,
    bind_some, asArray, getD_some, map_set] at hi ⊢
  cases i with
  | zero => exact hi
  | succ i =>
    rw [getElem?_cons_succ] at hi ⊢
    rw [getElem?_set] at hi
    split at hi
    · rename_i heq
      subst heq
      rw [getElem?_map, hmessage]
      split at hi
      · exact congrArg some (htexts text (Option.some.inj hi))
      · cases hi
    · exact hi

theorem wf_cacheContent (hwf : value.WF) (h : cacheContent value = some cached) : cached.WF := by
  cases value with
  | str text =>
    cases h
    have hblock : (cachedText text).WF :=
      wf_obj.mpr ⟨(pairwise_map (f := Prod.fst)).mp (by decide +kernel : ["cache_control",
        "text", "type"].Pairwise (· < ·)), by simp [ephemeral]; decide⟩
    exact wf_arr.mpr (forall_mem_singleton.mpr hblock)
  | arr blocks =>
    rw [wf_arr] at hwf
    simp only [cacheContent] at h
    split at h
    · rename_i block hlast
      cases h
      rw [wf_arr, forall_mem_append, forall_mem_singleton]
      refine ⟨fun item hitem => hwf item (dropLast_subset _ hitem), ?_⟩
      exact (hwf _ (mem_of_mem_getLast? hlast)).insert _ rfl
    · cases h
  | null | bool | num | obj => cases h

theorem wf_cacheMessage (hwf : value.WF) (h : cacheMessage value = some cached) : cached.WF := by
  cases value with
  | obj message =>
    simp only [cacheMessage] at h
    split at h
    · rename_i content hcontent
      obtain ⟨old, hget, hcached⟩ := bind_eq_some_iff.mp hcontent
      cases h
      exact hwf.insert _ (wf_cacheContent (hwf.member hget) hcached)
    · cases h
      exact hwf.insert _ rfl
  | null | bool | num | str | arr => cases h

theorem wf_injectCacheControl (hwf : (Json.obj content).WF) {index : Nat}
    (h : injectCacheControl content ir index = some body') : (Json.obj body').WF := by
  have hset : ∀ {key items i} {item : Json}, get content key = some (.arr items) →
      item.WF → (Json.obj (insert content key (.arr (items.set i item)))).WF := by
    intro key items i item hget hitem
    refine hwf.insert key (wf_arr.mpr fun other hother => ?_)
    rcases mem_or_eq_of_mem_set hother with hmem | rfl
    · exact wf_arr.mp (hwf.member hget) other hmem
    · exact hitem
  simp only [injectCacheControl, bind_eq_bind, bind_eq_some_iff] at h
  obtain ⟨block, -, h⟩ := h
  split at h
  · simp only [injectCacheControlTool, bind_eq_bind, bind_eq_some_iff,
      asArray_eq_some, asObject_eq_some] at h
    obtain ⟨tools, ⟨_, hget, rfl⟩, tool, htool, entries, rfl, hbody⟩ := h
    cases hbody
    have hmem := wf_arr.mp (hwf.member hget) _ (mem_of_getElem? htool)
    exact hset hget (hmem.insert _ rfl)
  · split at h
    · simp only [injectCacheControlSystem, bind_eq_bind, bind_eq_some_iff] at h
      obtain ⟨system, hget, cached, hcached, hbody⟩ := h
      cases hbody
      exact hwf.insert _ (wf_cacheContent (hwf.member hget) hcached)
    · simp only [injectCacheControlMessage, bind_eq_bind, bind_eq_some_iff,
        asArray_eq_some] at h
      obtain ⟨messages, ⟨_, hget, rfl⟩, message, hmessage, cached, hcached, hbody⟩ := h
      cases hbody
      have hmem := wf_arr.mp (hwf.member hget) _ (mem_of_getElem? hmessage)
      exact hset hget (wf_cacheMessage hmem hcached)

theorem wf_applyTtlToCacheControls (hwf : (Json.obj content).WF) :
    (Json.obj (applyTtlToCacheControls ttl content)).WF := by
  obtain ⟨hsorted, hvalues⟩ := wf_obj.mp hwf
  rw [applyTtlToCacheControls_eq hsorted, wf_obj, mapValues, forall_mem_map]
  refine ⟨hsorted.mapValues _, ?_⟩
  rintro ⟨key, value⟩ hentry
  have hvalue : value.WF := hvalues _ hentry
  simp only [ttlAt]
  split
  · exact wf_applyTtlToValue hvalue
  · split
    · cases value with
      | arr items =>
        rw [mapItems, wf_arr, forall_mem_map]
        exact fun item hitem => wf_applyTtlToValue (wf_arr.mp hvalue item hitem)
      | null | bool | num | str | obj => exact hvalue
    · exact hvalue

/-! ### Plans -/

section Plans

variable [Canonicalization] (fromStr : String → Option Json)

/-- The message that a breakpoint is for, if it is for a message. -/
def targetMessage (ir : PromptIR) (content : Object) (target : HintTarget) : Option Object := do
  let index ← resolveTargetBlockIndex ir target
  let block ← ir.blocks[index]?
  guard (block.contentType ≠ .toolSchema ∧ block.role ≠ .system)
  let messages ← (get content "messages").bind asArray
  let message ← messages[promptIrMessageIndex ir index false]?
  message.asObject

/-- What a directive needs of a body to leave everything but the annotations alone: tools are read
back from their canonical text, the message of a breakpoint has content for it, and annotations in
other places have the retention. -/
def StepKeeps (ir : PromptIR) (content : Object) : HintDirective → Prop
  | .anthropic .canonicalizeToolSchemas =>
    ∀ tools, get content "tools" = some (.arr tools) → ∀ tool ∈ tools, ∀ tool',
      canonicalizeTool fromStr tool = some tool' → stripElement tool' = stripElement tool
  | .anthropic (.cacheBreakpoint target) =>
    ∀ message, targetMessage ir content target = some message → MessageAnnotatable message
  | .anthropic (.applyTtl ttl) =>
    ∀ entry ∈ content, MemberSettled (AnthropicCacheTtl.text ttl) entry.1 entry.2
  | .openAI _ => True

def RunKeeps (ir : PromptIR) : List HintDirective → Object → Prop
  | [], _ => True
  | directive :: directives, content =>
    StepKeeps fromStr ir content directive ∧
      RunKeeps ir directives (applyDirective fromStr ir content directive)

theorem onlyAnnotates_canonicalize (hsorted : Sorted content) :
    OnlyAnnotates content (canonicalizeTools fromStr content) ↔
      StepKeeps fromStr ir content (.anthropic .canonicalizeToolSchemas) := by
  unfold canonicalizeTools StepKeeps
  split
  · rename_i tools hget
    have hstrip : strip (insert content "tools"
        (.arr (tools.map fun tool => (canonicalizeTool fromStr tool).getD tool))) = strip content ↔
        ∀ tool ∈ tools, stripElement ((canonicalizeTool fromStr tool).getD tool) =
          stripElement tool := by
      rw [strip, strip, hsorted.mapValues_insert_eq_iff hget]
      show Json.arr _ = Json.arr _ ↔ _
      rw [Json.arr.injEq, map_map, map_inj_left]
      rfl
    constructor
    · rintro h _ hget' tool htool tool' hcanonical
      cases hget.symm.trans hget'
      have htool := hstrip.mp h.strip_eq tool htool
      rwa [hcanonical] at htool
    · intro h
      refine ⟨hstrip.mpr fun tool htool => ?_, fun i text hi => ?_⟩
      · cases hcanonical : canonicalizeTool fromStr tool with
        | none => rfl
        | some tool' => exact h tools hget tool htool tool' hcanonical
      · rwa [texts_insert_tools] at hi
  · rename_i hother
    exact iff_of_true (.refl content) fun tools hget => absurd hget (hother tools)

theorem onlyAnnotates_breakpoint (hwf : (Json.obj content).WF) (target : HintTarget) :
    OnlyAnnotates content
        (((resolveTargetBlockIndex ir target).bind (injectCacheControl content ir)).getD content) ↔
      StepKeeps fromStr ir content (.anthropic (.cacheBreakpoint target)) := by
  have hsorted := (wf_obj.mp hwf).1
  simp only [StepKeeps, targetMessage]
  -- nothing is injected and there is no message, or something other than a message is annotated
  cases resolveTargetBlockIndex ir target with
  | none => exact iff_of_true (.refl content) nofun
  | some index =>
    simp only [bind_some, injectCacheControl, bind_eq_bind]
    cases hblock : ir.blocks[index]? with
    | none => exact iff_of_true (.refl content) nofun
    | some block =>
      simp only [bind_some]
      by_cases htool : block.contentType = .toolSchema
      · rw [if_pos htool]
        refine iff_of_true ?_ (by simp [htool])
        cases hinject : injectCacheControlTool content (promptIrToolIndex ir index) with
        | none => exact .refl content
        | some body' => exact onlyAnnotates_tool hsorted hinject
      · by_cases hsystem : block.role = .system
        · rw [if_neg htool, if_pos hsystem]
          refine iff_of_true ?_ (by simp [hsystem])
          cases hinject : injectCacheControlSystem content with
          | none => exact .refl content
          | some body' => exact onlyAnnotates_system hsorted hinject
        · rw [if_neg htool, if_neg hsystem]
          simp only [htool, hsystem, ne_eq]
          generalize promptIrMessageIndex ir index false = messageIndex
          cases hmessages : (get content "messages").bind asArray with
          | none =>
            exact iff_of_true (by simp [injectCacheControlMessage, hmessages, OnlyAnnotates.refl])
              (by simp)
          | some messages =>
            obtain ⟨_, hget, harray⟩ := bind_eq_some_iff.mp hmessages
            cases asArray_eq_some.mp harray
            cases hmessage : messages[messageIndex]? with
            | none =>
              exact iff_of_true
                (by simp [injectCacheControlMessage, hmessages, hmessage, OnlyAnnotates.refl])
                (by simp [hmessage])
            | some message =>
              cases message with
              | obj message =>
                rw [onlyAnnotates_message_iff hwf hget hmessage]
                simp [hmessage, asObject]
              | null | bool | num | str | arr =>
                exact iff_of_true (by simp [injectCacheControlMessage, hmessages, hmessage,
                  cacheMessage, OnlyAnnotates.refl]) (by simp [hmessage, asObject])

theorem onlyAnnotates_step_iff (hwf : (Json.obj content).WF) (directive : HintDirective) :
    OnlyAnnotates content (applyDirective fromStr ir content directive) ↔
      StepKeeps fromStr ir content directive := by
  cases directive with
  | openAI => exact iff_of_true (.refl content) trivial
  | anthropic directive =>
    cases directive with
    | canonicalizeToolSchemas => exact onlyAnnotates_canonicalize fromStr (wf_obj.mp hwf).1
    | cacheBreakpoint target => exact onlyAnnotates_breakpoint fromStr hwf target
    | applyTtl ttl =>
      refine ⟨fun h => (strip_applyTtl hwf).mp h.strip_eq,
        fun h => ⟨(strip_applyTtl hwf).mpr h, ?_⟩⟩
      intro i text hi
      rwa [applyDirective, texts_applyTtl hwf] at hi

/-! ### Runs -/

theorem wf_applyDirective (hread : ∀ text value, fromStr text = some value → value.WF)
    (hwf : (Json.obj content).WF) (directive : HintDirective) :
    (Json.obj (applyDirective fromStr ir content directive)).WF := by
  cases directive with
  | openAI => exact hwf
  | anthropic directive =>
    cases directive with
    | canonicalizeToolSchemas =>
      simp only [applyDirective, canonicalizeTools]
      split
      · rename_i tools hget
        refine hwf.insert _ (wf_arr.mpr (forall_mem_map.mpr fun tool htool => ?_))
        have hold := wf_arr.mp (hwf.member hget) tool htool
        unfold canonicalizeTool
        split
        · rename_i canonical _
          cases hcanonical : fromStr canonical with
          | none => exact hold
          | some tool' => exact hread _ _ hcanonical
        · exact hold
      · exact hwf
    | cacheBreakpoint target =>
      simp only [applyDirective]
      cases hinject : (resolveTargetBlockIndex ir target).bind (injectCacheControl content ir) with
      | none => exact hwf
      | some body' =>
        obtain ⟨index, -, hinject⟩ := bind_eq_some_iff.mp hinject
        exact wf_injectCacheControl hwf hinject
    | applyTtl ttl => exact wf_applyTtlToCacheControls hwf

theorem onlyAnnotates_run (hread : ∀ text value, fromStr text = some value → value.WF)
    {directives : List HintDirective} (hwf : (Json.obj content).WF)
    (hkeeps : RunKeeps fromStr ir directives content) :
    OnlyAnnotates content (directives.foldl (applyDirective fromStr ir) content) := by
  induction directives generalizing content with
  | nil => exact .refl content
  | cons directive directives ih =>
    have hstep := (onlyAnnotates_step_iff fromStr hwf directive).mpr hkeeps.1
    exact hstep.trans (ih (wf_applyDirective fromStr hread hwf directive) hkeeps.2)

/-- A directive changes annotations only, exactly if the body is as it needs; so does a plan whose
directives all find the body so. -/
theorem onlyAnnotates_iff (hread : ∀ text value, fromStr text = some value → value.WF)
    (request : LlmRequest) (ir : PromptIR) (body : Object) (hcontent : request.content = .obj body)
    (hwf : request.content.WF) :
    (∀ provider directive, ∃ body',
      (apply fromStr request ir ⟨provider, [directive]⟩).content = .obj body' ∧
        (OnlyAnnotates body body' ↔ StepKeeps fromStr ir body directive)) ∧
    ∀ plan, RunKeeps fromStr ir plan.directives body → ∃ body',
      (apply fromStr request ir plan).content = .obj body' ∧ OnlyAnnotates body body' := by
  rw [hcontent] at hwf
  refine ⟨fun provider directive => ?_, fun plan hkeeps => ?_⟩
  · refine ⟨_, by rw [apply, hcontent], ?_⟩
    exact onlyAnnotates_step_iff fromStr hwf directive
  · exact ⟨_, by rw [apply, hcontent], onlyAnnotates_run fromStr hread hwf hkeeps⟩

end Plans

/-- A call of a tool whose input has a member named `cache_control`. -/
def imitation : Object :=
  [("messages", .arr [.obj [("content", .arr [.obj [("input", .obj [("cache_control",
    .obj [("mode", .str "lru")])]), ("type", .str "tool_use")]]), ("role", .str "assistant")]])]

def cachedGreeting : Object :=
  [("messages", .arr [.obj [("content", .arr [cachedText "hi"]), ("role", .str "user")]])]

def oneHour : HintPlan := ⟨"anthropic", [.anthropic (.applyTtl .oneHour)]⟩

/-- The annotation of a text gets a retention. -/
theorem onlyAnnotates_cachedGreeting :
    letI := forgetful
    (Json.obj cachedGreeting).WF ∧ ∃ body', (apply (fun _ => none) ⟨[], .obj cachedGreeting⟩
        ⟨[], none, none, none⟩ oneHour).content = .obj body' ∧
      body' ≠ cachedGreeting ∧ OnlyAnnotates cachedGreeting body' := by
  let _ := forgetful
  have hwf : (Json.obj cachedGreeting).WF := by decide +kernel
  obtain ⟨body', hbody, honly⟩ := (onlyAnnotates_iff (fun _ => none) nofun
    ⟨[], .obj cachedGreeting⟩ ⟨[], none, none, none⟩ _ rfl hwf).2 oneHour
    ⟨(strip_applyTtl hwf).mp (by decide +kernel), trivial⟩
  refine ⟨hwf, body', hbody, ?_, honly⟩
  cases hbody
  decide +kernel

/-- The input of the call gets a retention. -/
theorem imitation_changed :
    letI := forgetful
    ∃ body', (apply (fun _ => none) ⟨[], .obj imitation⟩ ⟨[], none, none, none⟩
        oneHour).content = .obj body' ∧ ¬ OnlyAnnotates imitation body' := by
  let _ := forgetful
  refine ⟨_, rfl, fun h => ?_⟩
  exact absurd h.strip_eq (by decide +kernel)

end NemoRelay.Acg.AnthropicMessages

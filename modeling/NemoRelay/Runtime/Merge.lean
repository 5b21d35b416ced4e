import NemoRelay.Runtime.Registry
import NemoRelay.Runtime.ScopeStack

/-!
# Merged middleware chains

The merge helpers of `context/registries.rs` and the gates of `api/registry.rs`. A chain consists
of the entries of the global registry that no gate disables and of the entries of the registries
of the active scopes.
-/

namespace NemoRelay

open RegistryEntry StableSort List

inductive RuntimeRegistrationKind
  | subscriber | eventMetadataInjector | markSanitizeGuardrail | scopeSanitizeStartGuardrail
  | scopeSanitizeEndGuardrail | toolSanitizeRequestGuardrail | toolSanitizeResponseGuardrail
  | toolConditionalExecutionGuardrail | toolRequestIntercept | toolExecutionIntercept
  | llmSanitizeRequestGuardrail | llmSanitizeResponseGuardrail | llmConditionalExecutionGuardrail
  | llmRequestIntercept | llmExecutionIntercept | llmStreamExecutionIntercept
  deriving DecidableEq

/-- How the callback of a gate ends. -/
inductive GateOutcome
  | passed
  | disabled (reason : String)
  | panicked

structure ConditionalMiddlewareGuardrail where
  kinds : Finset RuntimeRegistrationKind
  registrationName : String
  callback : Finset RuntimeRegistrationKind → String → GateOutcome

/-- The gates by name, in the order of their names. -/
abbrev Gates := List (String × ConditionalMiddlewareGuardrail)

-- A gate that panics enables its target.
variable (gates : Gates) (kind : RuntimeRegistrationKind)

def runtimeRegistrationIsEnabled (effectiveName : String) : Bool :=
  let matching := gates.filter fun gate =>
    kind ∈ gate.2.kinds && gate.2.registrationName == effectiveName
  matching.all fun gate =>
    match gate.2.callback gate.2.kinds effectiveName with
    | .passed => true
    | .disabled _ => false
    | .panicked => true

structure RegistryRecord (P : Type) where
  name : String
  priority : Int
  payload : P

instance {P : Type} : RegistryEntry (RegistryRecord P) where
  name := RegistryRecord.name
  priority := RegistryRecord.priority

structure RequestIntercept (F : Type) where
  breakChain : Bool
  callable : F

abbrev Guardrail (F : Type) := RegistryRecord F

abbrev Intercept (F : Type) := RegistryRecord (RequestIntercept F)

abbrev ExecutionIntercept (F : Type) := RegistryRecord F

namespace Registries

section Merge

variable {T : Type} [RegistryEntry T]

/-- Merge the enabled entries of the global registry and all entries of the scope-local ones,
which are given from the root to the top. -/
def mergeEntries (s : Registries T) (global : Nat) (scopeLocals : List Nat) : List T :=
  sortByKey priority ((s.sortedValues global).filter (fun entry =>
        runtimeRegistrationIsEnabled gates kind (name entry)) ++
      scopeLocals.flatMap s.sortedValues)

def mergeGuardrailEntries {F : Type} (s : Registries (Guardrail F)) (global : Nat)
    (scopeLocals : List Nat) : List (Guardrail F) :=
  mergeEntries gates kind s global scopeLocals

def mergeInterceptEntries {F : Type} (s : Registries (Intercept F)) (global : Nat)
    (scopeLocals : List Nat) : List (Intercept F) :=
  mergeEntries gates kind s global scopeLocals

/-- Execution intercepts are cloned out of their registries before they are sorted. -/
def mergeExecutionInterceptCallables {F : Type} (s : Registries (ExecutionIntercept F))
    (global : Nat) (scopeLocals : List Nat) : List (F × Int) :=
  let callable := fun entry : ExecutionIntercept F => (entry.payload, entry.priority)
  sortByKey Prod.snd (((s.sortedValues global).filter fun entry =>
        runtimeRegistrationIsEnabled gates kind entry.name).map callable ++
      scopeLocals.flatMap fun h => (s.sortedValues h).map callable)

/-- Both kinds of chain list the same entries in the same order. -/
theorem mergeExecutionInterceptCallables_eq {F : Type} (s : Registries (ExecutionIntercept F))
    (global : Nat) (scopeLocals : List Nat) :
    mergeExecutionInterceptCallables gates kind s global scopeLocals =
      (mergeEntries gates kind s global scopeLocals).map
        fun entry => (entry.payload, entry.priority) := by
  rw [mergeEntries, map_sortByKey priority Prod.snd fun _ => rfl, map_append, map_flatMap]
  rfl

/-! ### Entries with their sources -/

variable (gates : Gates) (kind : RuntimeRegistrationKind) (s : Registries T) (global : Nat)
  (scopeLocals : List Nat)

/-- The entries that a source contributes. Source 0 is the global registry. -/
def contribution (source : Nat × Nat) : List (Nat × T) :=
  ((s.sortedValues source.1).filter fun entry =>
    source.2 != 0 || runtimeRegistrationIsEnabled gates kind (name entry)).map
      fun entry => (source.2, entry)

def sourced : List (Nat × T) :=
  (global :: scopeLocals).zipIdx.flatMap (contribution gates kind s)

/-- The order of a chain: by priority, then by source, then by name. -/
def chainKey (entry : Nat × T) : Int ×ₗ Nat ×ₗ String :=
  toLex (priority entry.2, toLex (entry.1, name entry.2))

theorem map_snd_contribution (source : Nat × Nat) :
    (contribution gates kind s source).map Prod.snd = (s.sortedValues source.1).filter
      fun entry => source.2 != 0 || runtimeRegistrationIsEnabled gates kind (name entry) := by
  rw [contribution, map_map]
  exact map_id _

theorem flatMap_zipIdx_contribution (n : Nat) :
    ((scopeLocals.zipIdx (n + 1)).flatMap (contribution gates kind s)).map Prod.snd =
      scopeLocals.flatMap s.sortedValues := by
  induction scopeLocals generalizing n with
  | nil => rfl
  | cons h rest ih =>
    rw [zipIdx_cons, flatMap_cons, map_append, ih, map_snd_contribution]
    simp

/-- A chain is the sorted list of the entries with their sources. -/
theorem mergeEntries_eq : mergeEntries gates kind s global scopeLocals =
    (sortByKey (fun entry : Nat × T => priority entry.2)
      (sourced gates kind s global scopeLocals)).map Prod.snd := by
  rw [map_sortByKey _ priority fun _ => rfl, mergeEntries, sourced, zipIdx_cons,
    flatMap_cons, map_append, flatMap_zipIdx_contribution, map_snd_contribution]
  simp

variable {s}

section

variable (hs : s.Valid)
include hs

theorem mem_contribution {source : Nat × Nat} {index : Nat} {entry : T} :
    (index, entry) ∈ contribution gates kind s source ↔ index = source.2 ∧
      s.lookup source.1 (name entry) = some entry ∧
      (index = 0 → runtimeRegistrationIsEnabled gates kind (name entry) = true) := by
  simp only [contribution, mem_map, mem_filter, mem_sortedValues hs, Bool.or_eq_true,
    bne_iff_ne, Prod.mk.injEq]
  constructor
  · rintro ⟨other, ⟨hlookup, henabled⟩, rfl, rfl⟩
    exact ⟨rfl, hlookup, henabled.resolve_left ∘ not_not.mpr⟩
  · rintro ⟨rfl, hlookup, henabled⟩
    exact ⟨entry, ⟨hlookup, or_iff_not_imp_left.mpr (henabled ∘ not_not.mp)⟩, rfl, rfl⟩

theorem mem_sourced {index : Nat} {entry : T} :
    (index, entry) ∈ sourced gates kind s global scopeLocals ↔
      ∃ h, (global :: scopeLocals)[index]? = some h ∧ s.lookup h (name entry) = some entry ∧
        (index = 0 → runtimeRegistrationIsEnabled gates kind (name entry) = true) := by
  simp only [sourced, mem_flatMap, mem_contribution gates kind hs, Prod.exists,
    mk_mem_zipIdx_iff_getElem?]
  constructor
  · rintro ⟨h, i, hget, rfl, hrest⟩
    exact ⟨h, hget, hrest⟩
  · rintro ⟨h, hget, hrest⟩
    exact ⟨h, index, hget, rfl, hrest⟩

/-- Entries of the same priority stand in the order of their sources and names. -/
theorem pairwise_sourced : (sourced gates kind s global scopeLocals).Pairwise
    fun a b => priority a.2 = priority b.2 → toLex (a.1, name a.2) < toLex (b.1, name b.2) := by
  rw [sourced, pairwise_flatMap]
  refine ⟨?_, ?_⟩
  · intro source _
    rw [contribution, pairwise_map]
    refine ((pairwise_sortedValues hs).filter _).imp ?_
    intro a b hlt heq
    rw [entryKey, entryKey, Prod.Lex.toLex_lt_toLex] at hlt
    rw [Prod.Lex.toLex_lt_toLex]
    exact .inr ⟨rfl, (hlt.resolve_left heq.not_lt).2⟩
  · have hindex : ((global :: scopeLocals).zipIdx).Pairwise fun a b => a.2 < b.2 := by
      rw [← pairwise_map, zipIdx_map_snd]
      exact pairwise_lt_range'
    refine hindex.imp ?_
    rintro source source' hlt ⟨i, x⟩ hx ⟨j, y⟩ hy -
    obtain ⟨rfl, -⟩ := (mem_contribution gates kind hs).mp hx
    obtain ⟨rfl, -⟩ := (mem_contribution gates kind hs).mp hy
    exact Prod.Lex.toLex_lt_toLex.mpr (.inl hlt)

theorem nodup_sourced : (sourced gates kind s global scopeLocals).Nodup := by
  refine (pairwise_sourced gates kind global scopeLocals hs).imp ?_
  rintro a b hlt rfl
  exact lt_irrefl _ (hlt rfl)

/-- Sorting by priority leaves the entries in the order of the chain. -/
theorem pairwise_chain :
    (sortByKey (fun entry : Nat × T => priority entry.2)
      (sourced gates kind s global scopeLocals)).Pairwise fun a b => chainKey a < chainKey b := by
  refine (pairwise_sortByKey_stable _ (nodup_sourced gates kind global scopeLocals hs)
    (pairwise_sourced gates kind global scopeLocals hs)).imp ?_
  intro a b h
  rw [chainKey, chainKey, Prod.Lex.toLex_lt_toLex]
  exact h

end

/-! ### Chains of a scope stack -/

variable {R : Type} (stack : ScopeStack R) (field : R → Nat)

/-- The handles of the registries that a chain is merged from. -/
def chainSources : List Nat := global :: stack.collectScopeLocalRegistries field

/-- The chain of one kind, where `field` selects the registry of that kind of a scope. -/
def mergedChain (s : Registries T) : List T :=
  mergeEntries gates kind s global (stack.collectScopeLocalRegistries field)

/-- The chain is determined by what the sources have registered. -/
theorem mergedChain_congr {t : Registries T} (hs : s.Valid) (ht : t.Valid)
    (hsame : ∀ h ∈ chainSources global stack field, ∀ key, t.lookup h key = s.lookup h key) :
    mergedChain gates kind global stack field t = mergedChain gates kind global stack field s := by
  rw [mergedChain, mergedChain, mergeEntries_eq, mergeEntries_eq]
  congr 1
  refine eq_of_pairwise_lt chainKey (pairwise_chain gates kind global _ ht)
    (pairwise_chain gates kind global _ hs) ?_
  rintro ⟨index, entry⟩
  rw [mem_sortByKey, mem_sortByKey, mem_sourced gates kind _ _ ht, mem_sourced gates kind _ _ hs]
  refine exists_congr fun h => and_congr_right fun hget => ?_
  rw [hsame h (mem_of_getElem? hget)]

end Merge

/-- In every reachable state the merged chain lists the enabled entries of the global registry
and all entries of the scope-local registries, each of them once, by priority, then by source,
then by name. Registered is what successful calls have left in a registry that was created empty.
The chain depends only on what is registered, failing calls leave it alone, and clones keep what
they had when they were taken. -/
theorem merged_chain {P R : Type} (global : Nat) (stack : ScopeStack R) (field : R → Nat)
    {s : Registries (RegistryRecord P)} (hs : system.Reachable s) :
    (∃ chain : List (Nat × RegistryRecord P),
      mergedChain gates kind global stack field s = chain.map Prod.snd ∧
      mergeExecutionInterceptCallables gates kind s global
          (stack.collectScopeLocalRegistries field) =
        chain.map (fun entry => (entry.2.payload, entry.2.priority)) ∧
      (∀ source entry, (source, entry) ∈ chain ↔
        ∃ h, (chainSources global stack field)[source]? = some h ∧
          s.lookup h (name entry) = some entry ∧
          (source = 0 → runtimeRegistrationIsEnabled gates kind (name entry) = true)) ∧
      chain.Pairwise fun a b => chainKey a < chainKey b) ∧
    (∀ key, s.create.lookup s.handles.length key = none) ∧
    (∀ h entry keys t, s.register h entry keys = some (.ok (), t) → ∀ h' key,
      t.lookup h' key = if h' = h ∧ key = name entry then some entry else s.lookup h' key) ∧
    (∀ h removed keys t, s.deregister h removed keys = some (true, t) → ∀ h' key,
      t.lookup h' key = if h' = h ∧ key = removed then none else s.lookup h' key) ∧
    (∀ t, system.Reachable t →
      (∀ h ∈ chainSources global stack field, ∀ key, t.lookup h key = s.lookup h key) →
      mergedChain gates kind global stack field t = mergedChain gates kind global stack field s) ∧
    (∀ h entry keys error t, s.register h entry keys = some (.error error, t) → t = s) ∧
    (∀ h key keys t, s.deregister h key keys = some (false, t) → t = s) ∧
    (∀ h t actions u, s.clone h = some t → system.run t actions = some u →
      (∀ action ∈ actions, action.target ≠ some s.handles.length) →
      u.sortedValues s.handles.length = s.sortedValues h) ∧
    (∀ actions t, system.run s actions = some t →
      (∀ h ∈ chainSources global stack field, h < s.handles.length ∧
        ∀ action ∈ actions, action.target ≠ some h) →
      mergedChain gates kind global stack field t =
        mergedChain gates kind global stack field s) := by
  have hvalid := reachable_valid hs
  have hchain := mergeEntries_eq gates kind s global (stack.collectScopeLocalRegistries field)
  refine ⟨⟨_, hchain, ?_, ?_, pairwise_chain gates kind global _ hvalid⟩, ?_,
    fun _ _ _ _ => lookup_register hvalid, fun _ _ _ _ => lookup_deregister hvalid, ?_, ?_, ?_, ?_,
    ?_⟩
  · rw [mergeExecutionInterceptCallables_eq, hchain, map_map]
    rfl
  · intro source entry
    rw [mem_sortByKey]
    exact mem_sourced gates kind _ _ hvalid
  · intro key
    rw [lookup, (create_spec hvalid).2.2, Function.update_self]
    rfl
  · intro t ht hsame
    exact mergedChain_congr gates kind global stack field hvalid (reachable_valid ht) hsame
  · intro h entry keys error t hreg
    exact (register_error hreg).1
  · intro h key keys t hreg
    exact deregister_false hreg
  · intro h t actions u hclone hrun htarget
    obtain ⟨ht, hlen, hstorage⟩ := clone_spec hvalid hclone
    have hkept := run_frame ht hrun (by omega) htarget
    rw [sortedValues, sortedValues, hkept, hstorage, Function.update_self]
  · intro actions t hrun hframe
    refine mergedChain_congr gates kind global stack field hvalid (reachable_valid (hs.run hrun)) ?_
    intro h hmem key
    rw [lookup, lookup, run_frame hvalid hrun (hframe h hmem).1 (hframe h hmem).2]

section Sample

variable {P : Type} (payload : P)

def sampleActions : List (Action (RegistryRecord P)) :=
  [.create, .create, .register 0 ⟨"b", 1, payload⟩ ["b"], .register 1 ⟨"a", 1, payload⟩ ["a"]]

def singleStorage (entry : RegistryRecord P) : RegistryStorage (RegistryRecord P) :=
  .resort ⟨.insert .empty entry, []⟩ [entry.name]

def sampleState : Registries (RegistryRecord P) where
  storages := [singleStorage ⟨"b", 1, payload⟩, singleStorage ⟨"a", 1, payload⟩]
  handles := [some ⟨some 0⟩, some ⟨some 1⟩]

def sampleStack : ScopeStack Nat := (ScopeStack.new 5).localRegistriesMut 5 fun _ => 1

theorem reachable_sampleState : system.Reachable (sampleState payload) :=
  System.reachable_of_run (sampleActions payload) rfl rfl

end Sample

/-- The chain of the intercepts of a global registry and of a registry of the root scope, without
gates. -/
theorem sampleState_chain :
    let s := sampleState (⟨true, ()⟩ : RequestIntercept Unit)
    ∃ chain : List (Nat × Intercept Unit),
      mergeInterceptEntries [] .toolRequestIntercept s 0 [1] = chain.map Prod.snd ∧
      (∀ source entry, (source, entry) ∈ chain ↔
        ∃ h, [0, 1][source]? = some h ∧ s.lookup h (name entry) = some entry ∧ (source = 0 →
          runtimeRegistrationIsEnabled [] .toolRequestIntercept (name entry) = true)) ∧
      chain.Pairwise fun a b => chainKey a < chainKey b := by
  intro s
  obtain ⟨chain, hchain, -, hmem, hsorted⟩ := (merged_chain [] .toolRequestIntercept 0
    sampleStack id (reachable_sampleState _)).1
  exact ⟨chain, hchain, hmem, hsorted⟩

theorem sortedValues_single (entry : Guardrail Unit) :
    (singleStorage entry).sortedValues = [entry] := by
  rw [RegistryStorage.sortedValues, singleStorage, RegistryStorage.resort]
  simp [EntryMap.get_insert, name]

/-- A gate can take an entry of the global registry out of the chain. -/
def disablingGate : Gates :=
  [("gate", {
    kinds := {.toolSanitizeRequestGuardrail}
    registrationName := "b"
    callback := fun _ _ => .disabled "not needed" })]

theorem disabled_entry_not_in_chain : system.Reachable (sampleState ()) ∧
    (sampleState ()).lookup 0 "b" = some ⟨"b", 1, ()⟩ ∧
    mergeGuardrailEntries disablingGate .toolSanitizeRequestGuardrail (sampleState ()) 0 [1] =
      [⟨"a", 1, ()⟩] := by
  refine ⟨reachable_sampleState (), rfl, ?_⟩
  have hglobal : (sampleState ()).sortedValues 0 = [⟨"b", 1, ()⟩] := sortedValues_single _
  have hlocal : (sampleState ()).sortedValues 1 = [⟨"a", 1, ()⟩] := sortedValues_single _
  have hgate : runtimeRegistrationIsEnabled disablingGate .toolSanitizeRequestGuardrail
      (name (⟨"b", 1, ()⟩ : Guardrail Unit)) = false := by decide
  simp [mergeGuardrailEntries, mergeEntries, hglobal, hlocal, hgate]

end Registries

end NemoRelay

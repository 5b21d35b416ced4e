import NemoRelay.Codec.Sse
import NemoRelay.Lib.SortedMap
import Mathlib.Data.String.Basic

/-!
# Host policy for dynamic plugins

A host policy has defaults, ordered rules and overrides by plugin id, each a partial effect. Layers
are merged section by section and a manifest is evaluated against the merged policy: defaults first,
then the matching rules, then the override. What a policy says about whether a plugin may load is
the setting of each section; the sections of all layers are ranked before the layers are, so an
override or a rule of a lower layer is read after the defaults of a higher one.
-/

namespace NemoRelay.PluginHost

open SortedMap List Option

inductive DynamicPluginKind
  | rustDynamic
  | worker
deriving DecidableEq

inductive DynamicPluginStartupClass
  | optional
  | required

inductive DynamicPluginAttestationMode
  | integrityOnly
  | signatureIfPresent
  | signatureRequired

/-- The fields of a manifest that the policy reads. -/
structure DynamicPluginManifest where
  id : String
  kind : DynamicPluginKind

/-- A partial effect that may overlay another one. -/
structure DynamicPluginHostPolicyEffect where
  allowed : Option Bool := none
  nativeDiagnosticsReadContext : Option Bool := none
  startup : Option DynamicPluginStartupClass := none
  attestation : Option DynamicPluginAttestationMode := none
  trustedPublicKeys : Option (List String) := none

structure DynamicPluginHostPolicyRule where
  matchKind : Option DynamicPluginKind := none
  matchPluginId : Option String := none
  effect : DynamicPluginHostPolicyEffect

structure DynamicPluginHostPolicy where
  defaults : DynamicPluginHostPolicyEffect := {}
  rules : List DynamicPluginHostPolicyRule := []
  overrides : List (String × DynamicPluginHostPolicyEffect) := []
  sorted : SortedMap.Sorted overrides := by decide

inductive DynamicPluginHostPolicyFailure
  | blocked

structure EvaluatedDynamicPluginHostPolicy where
  policySatisfied : Bool
  nativeDiagnosticsReadContext : Bool
  startupClass : DynamicPluginStartupClass
  attestationMode : DynamicPluginAttestationMode
  trustedPublicKeys : List String
  failure : Option DynamicPluginHostPolicyFailure

/-! ### Merging -/

def DynamicPluginHostPolicyEffect.mergeFrom (self other : DynamicPluginHostPolicyEffect) :
    DynamicPluginHostPolicyEffect where
  allowed := other.allowed.or self.allowed
  nativeDiagnosticsReadContext :=
    other.nativeDiagnosticsReadContext.or self.nativeDiagnosticsReadContext
  startup := other.startup.or self.startup
  attestation := other.attestation.or self.attestation
  trustedPublicKeys := other.trustedPublicKeys.or self.trustedPublicKeys

/-- Overlays a policy of higher precedence. -/
def DynamicPluginHostPolicy.mergeFrom (self other : DynamicPluginHostPolicy) :
    DynamicPluginHostPolicy where
  defaults := self.defaults.mergeFrom other.defaults
  rules := self.rules ++ other.rules
  overrides :=
    mergeWith DynamicPluginHostPolicyEffect.mergeFrom {} self.overrides other.overrides
  sorted := self.sorted.mergeWith _ _ _

/-- The layers of a host, lowest precedence first. -/
def mergeAll (policies : List DynamicPluginHostPolicy) : DynamicPluginHostPolicy :=
  policies.foldl DynamicPluginHostPolicy.mergeFrom {}

/-! ### Evaluation -/

def DynamicPluginManifest.trimmedId (manifest : DynamicPluginManifest) : String :=
  String.ofList (Text.trim manifest.id.toList)

def DynamicPluginHostPolicyRule.applies (rule : DynamicPluginHostPolicyRule)
    (manifest : DynamicPluginManifest) : Bool :=
  !(rule.matchKind.any (· ≠ manifest.kind) || rule.matchPluginId.any (· ≠ manifest.trimmedId))

/-- The effect in force before any policy. -/
def baseEffect : DynamicPluginHostPolicyEffect where
  allowed := some true
  nativeDiagnosticsReadContext := some false
  startup := some .optional
  attestation := some .integrityOnly

def applyRules (manifest : DynamicPluginManifest) :
    List DynamicPluginHostPolicyRule → DynamicPluginHostPolicyEffect → DynamicPluginHostPolicyEffect
  | [], effect => effect
  | rule :: rules, effect =>
    applyRules manifest rules
      (if rule.applies manifest then effect.mergeFrom rule.effect else effect)

variable (policy : DynamicPluginHostPolicy) (manifest : DynamicPluginManifest)

def effectiveEffect : DynamicPluginHostPolicyEffect :=
  let effect := applyRules manifest policy.rules (baseEffect.mergeFrom policy.defaults)
  match get policy.overrides manifest.trimmedId with
  | some effectOverride => effect.mergeFrom effectOverride
  | none => effect

def evaluateDynamicPluginHostPolicy : EvaluatedDynamicPluginHostPolicy :=
  let effect := effectiveEffect policy manifest
  let failure := if effect.allowed = some false then some .blocked else none
  { policySatisfied := failure.isNone
    nativeDiagnosticsReadContext :=
      manifest.kind = .rustDynamic && effect.nativeDiagnosticsReadContext = some true
    startupClass := effect.startup.getD .optional
    attestationMode := effect.attestation.getD .integrityOnly
    trustedPublicKeys := effect.trustedPublicKeys.getD []
    failure }

def Denies : Prop :=
  (evaluateDynamicPluginHostPolicy policy manifest).policySatisfied = false

instance : Decidable (Denies policy manifest) := inferInstanceAs (Decidable (_ = false))

/-! ### What the sections of a policy say -/

/-- The last setting that says something. -/
def lastSetting (settings : List (Option Bool)) : Option Bool :=
  settings.foldl (fun last setting => setting.or last) none

theorem foldl_setting (settings : List (Option Bool)) (last : Option Bool) :
    settings.foldl (fun last setting => setting.or last) last = (lastSetting settings).or last := by
  induction settings generalizing last with
  | nil => rfl
  | cons setting settings ih =>
    rw [lastSetting, foldl_cons, foldl_cons, ih, ih (setting.or none), or_none,
      Option.or_assoc]

theorem lastSetting_append (settings settings' : List (Option Bool)) :
    lastSetting (settings ++ settings') = (lastSetting settings').or (lastSetting settings) := by
  rw [lastSetting, foldl_append, foldl_setting, ← lastSetting]

theorem lastSetting_cons (setting : Option Bool) (settings : List (Option Bool)) :
    lastSetting (setting :: settings) = (lastSetting settings).or setting := by
  rw [← singleton_append, lastSetting_append]
  cases setting <;> rfl

theorem lastSetting_of_silent {settings : List (Option Bool)}
    (h : ∀ setting ∈ settings, setting = none) : lastSetting settings = none := by
  induction settings with
  | nil => rfl
  | cons setting settings ih =>
    rw [forall_mem_cons] at h
    rw [lastSetting_cons, ih h.2, h.1, or_none]

variable {policy manifest} {self other : DynamicPluginHostPolicy}
  {policies lower higher : List DynamicPluginHostPolicy}

def overrideSetting (manifest : DynamicPluginManifest) (policy : DynamicPluginHostPolicy) :
    Option Bool :=
  (get policy.overrides manifest.trimmedId).bind (·.allowed)

def ruleSetting (manifest : DynamicPluginManifest) (policy : DynamicPluginHostPolicy) :
    Option Bool :=
  lastSetting ((policy.rules.filter (·.applies manifest)).map (·.effect.allowed))

def defaultSetting (policy : DynamicPluginHostPolicy) : Option Bool := policy.defaults.allowed

/-- The policy says in some section whether the plugin may load. -/
def SetsAllowed (policy : DynamicPluginHostPolicy) (manifest : DynamicPluginManifest) : Prop :=
  (overrideSetting manifest policy).isSome ∨ (ruleSetting manifest policy).isSome ∨
    (defaultSetting policy).isSome

theorem allowed_applyRules (rules : List DynamicPluginHostPolicyRule)
    (effect : DynamicPluginHostPolicyEffect) :
    (applyRules manifest rules effect).allowed =
      (lastSetting ((rules.filter (·.applies manifest)).map (·.effect.allowed))).or
        effect.allowed := by
  induction rules generalizing effect with
  | nil => rfl
  | cons rule rules ih =>
    rw [applyRules, ih]
    by_cases happlies : rule.applies manifest = true
    · rw [if_pos happlies, filter_cons, if_pos happlies, map_cons, lastSetting_cons,
        Option.or_assoc]
      rfl
    · rw [if_neg happlies, filter_cons, if_neg happlies]

theorem allowed_effectiveEffect (policy : DynamicPluginHostPolicy)
    (manifest : DynamicPluginManifest) :
    (effectiveEffect policy manifest).allowed =
      (overrideSetting manifest policy).or
        ((ruleSetting manifest policy).or ((defaultSetting policy).or (some true))) := by
  have hrules : (applyRules manifest policy.rules (baseEffect.mergeFrom policy.defaults)).allowed =
      (ruleSetting manifest policy).or ((defaultSetting policy).or (some true)) :=
    allowed_applyRules _ _
  cases hget : get policy.overrides manifest.trimmedId with
  | none => simp only [effectiveEffect, overrideSetting, hget, hrules, bind_none,
      none_or]
  | some effectOverride =>
    simp only [effectiveEffect, overrideSetting, hget, ← hrules]
    rfl

/-- A policy denies a plugin if the first section that says something, overrides before rules
before defaults, says no. -/
theorem denies_iff : Denies policy manifest ↔
    (overrideSetting manifest policy).or
      ((ruleSetting manifest policy).or (defaultSetting policy)) =
      some false := by
  have hbase : ∀ setting : Option Bool,
      setting.or (some true) = some false ↔ setting = some false := by
    intro setting
    cases setting <;> simp
  rw [← hbase, Option.or_assoc, Option.or_assoc, ← allowed_effectiveEffect]
  by_cases hdenied : (effectiveEffect policy manifest).allowed = some false <;>
    simp [Denies, evaluateDynamicPluginHostPolicy]

/-! ### Merged layers -/

theorem overrideSetting_mergeFrom : overrideSetting manifest (self.mergeFrom other) =
    (overrideSetting manifest other).or (overrideSetting manifest self) := by
  simp only [overrideSetting, DynamicPluginHostPolicy.mergeFrom, get_mergeWith other.sorted]
  cases get other.overrides manifest.trimmedId with
  | none => rfl
  | some effect =>
    cases get self.overrides manifest.trimmedId <;> rfl

theorem ruleSetting_mergeFrom : ruleSetting manifest (self.mergeFrom other) =
    (ruleSetting manifest other).or (ruleSetting manifest self) := by
  rw [ruleSetting, DynamicPluginHostPolicy.mergeFrom, filter_append, map_append, lastSetting_append]
  rfl

variable {setting : DynamicPluginHostPolicy → Option Bool}

/-- A section whose setting is overlaid by each merge says what the last layer says there. -/
theorem setting_mergeAll (hempty : setting {} = none)
    (hmerge : ∀ self other, setting (self.mergeFrom other) = (setting other).or (setting self))
    (policies : List DynamicPluginHostPolicy) :
    setting (mergeAll policies) = lastSetting (policies.map setting) := by
  have hfold : ∀ self, setting (policies.foldl DynamicPluginHostPolicy.mergeFrom self) =
      (lastSetting (policies.map setting)).or (setting self) := by
    induction policies with
    | nil => exact fun self => rfl
    | cons policy policies ih =>
      intro self
      rw [foldl_cons, ih, hmerge, map_cons, lastSetting_cons, Option.or_assoc]
  rw [mergeAll, hfold, hempty, or_none]

theorem overrideSetting_mergeAll : overrideSetting manifest (mergeAll policies) =
    lastSetting (policies.map (overrideSetting manifest)) :=
  setting_mergeAll rfl (fun _ _ => overrideSetting_mergeFrom) policies

theorem ruleSetting_mergeAll : ruleSetting manifest (mergeAll policies) =
    lastSetting (policies.map (ruleSetting manifest)) :=
  setting_mergeAll rfl (fun _ _ => ruleSetting_mergeFrom) policies

theorem defaultSetting_mergeAll : defaultSetting (mergeAll policies) =
    lastSetting (policies.map defaultSetting) :=
  setting_mergeAll rfl (fun _ _ => rfl) policies

/-- Where every layer above is silent, a layer or one below it decides. -/
theorem lastSetting_layers (hsilent : ∀ layer ∈ higher, setting layer = none) :
    lastSetting ((lower ++ policy :: higher).map setting) =
      (setting policy).or (lastSetting (lower.map setting)) := by
  have hhigher : lastSetting (higher.map setting) = none :=
    lastSetting_of_silent (forall_mem_map.mpr hsilent)
  rw [map_append, map_cons, lastSetting_append, lastSetting_cons, hhigher, none_or]

/-- Layers below a policy permit the plugin in a section that is read after the one in which the
policy denies it. -/
structure Undone (lower : List DynamicPluginHostPolicy) (policy : DynamicPluginHostPolicy)
    (manifest : DynamicPluginManifest) : Prop where
  noOverride : overrideSetting manifest policy = none
  permitted : lastSetting (lower.map (overrideSetting manifest)) = some true ∨
    (lastSetting (lower.map (overrideSetting manifest)) = none ∧
      ruleSetting manifest policy = none ∧
      lastSetting (lower.map (ruleSetting manifest)) = some true)

/-- A layer that denies a plugin, with no layer above it that sets `allowed` for the plugin: the
merged policy denies the plugin exactly if the layers below do not undo it. -/
theorem denies_mergeAll_iff (lower higher : List DynamicPluginHostPolicy)
    (policy : DynamicPluginHostPolicy) (manifest : DynamicPluginManifest)
    (hdenies : Denies policy manifest) (hsilent : ∀ layer ∈ higher, ¬ SetsAllowed layer manifest) :
    Denies (mergeAll (lower ++ policy :: higher)) manifest ↔ ¬ Undone lower policy manifest := by
  simp only [SetsAllowed, not_or, not_isSome_iff_eq_none] at hsilent
  rw [denies_iff] at hdenies
  rw [denies_iff, overrideSetting_mergeAll, ruleSetting_mergeAll, defaultSetting_mergeAll,
    lastSetting_layers fun layer h => (hsilent layer h).1,
    lastSetting_layers fun layer h => (hsilent layer h).2.1,
    lastSetting_layers fun layer h => (hsilent layer h).2.2]
  have hundone : Undone lower policy manifest ↔ _ :=
    ⟨fun h => And.intro h.noOverride h.permitted, fun h => ⟨h.1, h.2⟩⟩
  rw [hundone]
  -- only the settings matter from here on
  cases hoverride : overrideSetting manifest policy with
  | some setting => simpa [hoverride] using hdenies
  | none =>
    cases lastSetting (lower.map (overrideSetting manifest)) with
    | some setting => cases setting <;> simp
    | none =>
      cases hrule : ruleSetting manifest policy with
      | some setting => simpa [hoverride, hrule] using hdenies
      | none =>
        cases lastSetting (lower.map (ruleSetting manifest)) with
        | some setting => cases setting <;> simp
        | none =>
          have hdefault : defaultSetting policy = some false := by
            simpa [hoverride, hrule] using hdenies
          simp [hdefault]

/-- The user layer below allows one plugin by id, the system layer above allows none. -/
def userLayer : DynamicPluginHostPolicy where
  overrides := [("p", { allowed := some true })]

def systemLayer : DynamicPluginHostPolicy where
  defaults := { allowed := some false }

def workerManifest : DynamicPluginManifest := ⟨"p", .worker⟩

theorem systemLayer_denies_above_ruleLayer :
    Denies systemLayer workerManifest ∧
      (Denies (mergeAll [{ rules := [⟨none, none, { allowed := some false }⟩] }, systemLayer])
        workerManifest ↔
        ¬ Undone [{ rules := [⟨none, none, { allowed := some false }⟩] }] systemLayer
          workerManifest) :=
  ⟨by decide +kernel, denies_mergeAll_iff [_] [] systemLayer workerManifest (by decide +kernel)
    (by simp)⟩

/-- The override of the lower layer undoes the denial of the layer above it. -/
theorem userLayer_undoes_denial :
    Denies systemLayer workerManifest ∧
      ¬ Denies (mergeAll [userLayer, systemLayer]) workerManifest := by
  decide +kernel

end NemoRelay.PluginHost

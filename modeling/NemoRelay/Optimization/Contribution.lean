import NemoRelay.Codec.Response

/-!
# Optimization contributions

The evidence that plugins give for what an optimization saved: whether it was applied, the models
before and after, and the tokens. A summary keeps the contributions as the values they are written
as.
-/

namespace NemoRelay

structure DataSchema where
  name : String
  version : String

structure LlmOptimizationModelTransition where
  baseline : Option LlmOptimizationModel
  effective : Option LlmOptimizationModel

inductive LlmOptimizationEvidenceQuality
  | observed
  | estimated

structure LlmOptimizationTokenImpact where
  baseline : Option LlmOptimizationTokens
  effective : Option LlmOptimizationTokens
  saved : Option LlmOptimizationTokens
  quality : Option LlmOptimizationEvidenceQuality
  estimationMethod : Option String

structure LlmOptimizationContribution where
  id : Option String
  sequence : Option Nat
  producer : String
  kind : String
  applied : Bool
  modelTransition : Option LlmOptimizationModelTransition
  tokenImpact : Option LlmOptimizationTokenImpact
  payloadSchema : Option DataSchema
  payload : Option Json
  extra : Object

instance : Serialize DataSchema where
  toValue schema :=
    .ofFields [("name", some (.str schema.name)), ("version", some (.str schema.version))] []

instance : Serialize LlmOptimizationModelTransition where
  toValue transition :=
    .ofFields [("baseline", transition.baseline.map toValue),
      ("effective", transition.effective.map toValue)] []

instance : Serialize LlmOptimizationEvidenceQuality where
  toValue
    | .observed => .str "observed"
    | .estimated => .str "estimated"

instance : Serialize LlmOptimizationTokenImpact where
  toValue impact :=
    .ofFields [("baseline", impact.baseline.map toValue),
      ("effective", impact.effective.map toValue), ("saved", impact.saved.map toValue),
      ("quality", impact.quality.map toValue),
      ("estimation_method", impact.estimationMethod.map .str)] []

instance : Serialize LlmOptimizationContribution where
  toValue contribution :=
    .ofFields [("id", contribution.id.map .str), ("sequence", contribution.sequence.map countJson),
      ("producer", some (.str contribution.producer)), ("kind", some (.str contribution.kind)),
      ("applied", some (.bool contribution.applied)),
      ("model_transition", contribution.modelTransition.map toValue),
      ("token_impact", contribution.tokenImpact.map toValue),
      ("payload_schema", contribution.payloadSchema.map toValue),
      ("payload", contribution.payload)] contribution.extra

namespace LlmOptimizationContribution

/-- `LlmOptimizationKind::MODEL_ROUTING`. -/
def modelRouting : String := "model_routing"

def isRouting (contribution : LlmOptimizationContribution) : Bool :=
  contribution.kind = modelRouting

/-- The tokens that a contribution saved. -/
def saved (contribution : LlmOptimizationContribution) : Option LlmOptimizationTokens :=
  contribution.tokenImpact.bind (·.saved)

end LlmOptimizationContribution

/-- What a recorder hands over when it finishes. -/
structure FinishedContributions where
  contributions : List LlmOptimizationContribution
  limitations : List String

end NemoRelay

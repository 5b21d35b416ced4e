import NemoRelay.Lib.Trie
import NemoRelay.Adaptive.Trie.Contexts

/-!
# The prediction trie

The builder keeps accumulators for every node of the trie, under the path of the node joined with
slashes. Building the trie splits these keys again. A look-up follows a path as far as it goes and
prefers the deepest node with a prediction.
-/

namespace NemoRelay.Adaptive

open Arithmetic (ofInt)

structure LlmCallPrediction (F : Type) where
  remainingCalls : PredictionMetrics F
  interarrivalMs : PredictionMetrics F
  outputTokens : PredictionMetrics F
  latencySensitivity : Option Nat

/-- A node of the trie without its children. -/
structure PredictionNode (F : Type) where
  name : String
  predictionsByCallIndex : OrderedMap Nat (LlmCallPrediction F)
  predictionsAnyIndex : Option (LlmCallPrediction F)

abbrev PredictionTrieNode (F : Type) := Trie String (PredictionNode F)

def PredictionNode.new {F : Type} (name : String) : PredictionNode F := ⟨name, .empty, none⟩

abbrev IndexedStats (F D : Type) := OrderedMap Nat (RunningStats F D)

structure NodeAccumulators (F D : Type) where
  remainingCalls : IndexedStats F D
  interarrivalMs : IndexedStats F D
  outputTokens : IndexedStats F D
  sensitivity : IndexedStats F D
  allRemainingCalls : RunningStats F D
  allInterarrivalMs : RunningStats F D
  allOutputTokens : RunningStats F D
  allSensitivity : RunningStats F D

structure AccumulatorState (F D : Type) where
  nodes : OrderedMap String (NodeAccumulators F D)

structure PredictionTrieBuilder (F D : Type) where
  accumulators : AccumulatorState F D
  sensitivityConfig : Option (SensitivityConfig F)

section Builder

variable {F D : Type} [Arithmetic F] [Digest F D]

/-! ### Adding runs -/

/-- A sample for a call index, if there is one. -/
def sampleAt (stats : IndexedStats F D) (callIndex : Nat) (value : Option F) : IndexedStats F D :=
  value.elim stats fun value => Tally.feed RunningStats.addSample .new stats (callIndex, value)

def sampleAll (stats : RunningStats F D) (value : Option F) : RunningStats F D :=
  value.elim stats stats.addSample

namespace LlmCallContext

def remainingSample (context : LlmCallContext F) : Option F := some (ofInt context.remainingCalls)

def tokensSample (context : LlmCallContext F) : Option F :=
  some (ofInt context.outputTokens.toNat)

def sensitivitySample (hasSensitivity : Bool) (context : LlmCallContext F) : Option F :=
  if hasSensitivity then some context.sensitivityScore else none

end LlmCallContext

def NodeAccumulators.empty : NodeAccumulators F D :=
  ⟨.empty, .empty, .empty, .empty, .new, .new, .new, .new⟩

def addToAccumulators (hasSensitivity : Bool) (accs : NodeAccumulators F D)
    (context : LlmCallContext F) : NodeAccumulators F D where
  remainingCalls := sampleAt accs.remainingCalls context.callIndex context.remainingSample
  outputTokens := sampleAt accs.outputTokens context.callIndex context.tokensSample
  interarrivalMs := sampleAt accs.interarrivalMs context.callIndex context.timeToNextMs
  allRemainingCalls := sampleAll accs.allRemainingCalls context.remainingSample
  allOutputTokens := sampleAll accs.allOutputTokens context.tokensSample
  allInterarrivalMs := sampleAll accs.allInterarrivalMs context.timeToNextMs
  sensitivity :=
    sampleAt accs.sensitivity context.callIndex (context.sensitivitySample hasSensitivity)
  allSensitivity := sampleAll accs.allSensitivity (context.sensitivitySample hasSensitivity)

/-- The keys of the root and of the nodes along a path. -/
def nodeKeys (path : List String) : List String :=
  "" :: (List.range path.length).map fun i => "/".intercalate (path.take (i + 1))

namespace PredictionTrieBuilder

def new (sensitivityConfig : Option (SensitivityConfig F)) : PredictionTrieBuilder F D :=
  ⟨⟨.empty⟩, sensitivityConfig⟩

variable (builder : PredictionTrieBuilder F D)

def updateAccumulators (context : LlmCallContext F) : PredictionTrieBuilder F D :=
  let hasSensitivity := builder.sensitivityConfig.isSome
  { builder with
    accumulators.nodes := (nodeKeys context.path).foldl (fun nodes key =>
      Tally.feed (addToAccumulators hasSensitivity) .empty nodes (key, context))
      builder.accumulators.nodes }

def addRun (run : RunRecord) : PredictionTrieBuilder F D :=
  (runContexts builder.sensitivityConfig run).foldl updateAccumulators builder

def addRuns (runs : List RunRecord) : PredictionTrieBuilder F D :=
  runs.foldl addRun builder

end PredictionTrieBuilder

/-! ### Building the trie -/

def scoreToSensitivity (acc : RunningStats F D) (config : SensitivityConfig F) : Option Nat :=
  if acc.hasSamples then
    let meanScore := acc.computeMetrics.mean
    let raw := Arithmetic.round (meanScore * (ofInt config.sensitivityScale - ofInt 1)) + 1
    some (max 1 (min raw config.sensitivityScale)).toNat
  else none

def metricsAt (stats : IndexedStats F D) (callIndex : Nat) : PredictionMetrics F :=
  ((stats.get callIndex).map RunningStats.computeMetrics).getD default

variable (config : Option (SensitivityConfig F)) (accs : NodeAccumulators F D)

/-- The prediction for a call index. -/
def predictionAt (callIndex : Nat) : LlmCallPrediction F where
  remainingCalls := metricsAt accs.remainingCalls callIndex
  interarrivalMs := metricsAt accs.interarrivalMs callIndex
  outputTokens := metricsAt accs.outputTokens callIndex
  latencySensitivity :=
    match config, accs.sensitivity.get callIndex with
    | some config, some acc => scoreToSensitivity acc config
    | _, _ => none

def predictionAnyIndex : LlmCallPrediction F where
  remainingCalls := accs.allRemainingCalls.computeMetrics
  interarrivalMs := accs.allInterarrivalMs.computeMetrics
  outputTokens := accs.allOutputTokens.computeMetrics
  latencySensitivity := config.bind (scoreToSensitivity accs.allSensitivity)

def NodeAccumulators.indices : List Nat :=
  accs.remainingCalls.keys ++ accs.interarrivalMs.keys ++ accs.outputTokens.keys

def populateNodePredictions (node : PredictionNode F) : PredictionNode F :=
  { node with
    predictionsByCallIndex := accs.indices.foldl (fun predictions index =>
      predictions.insert index (predictionAt config accs index)) node.predictionsByCallIndex
    predictionsAnyIndex :=
      if accs.allRemainingCalls.hasSamples then some (predictionAnyIndex config accs)
      else node.predictionsAnyIndex }

/-- The names along the path of a key. -/
def keyPath (key : String) : List String :=
  if key = "" then [] else (key.toList.splitOn '/').map String.ofList

/-- The table of accumulators is gone through in the order given. -/
def PredictionTrieBuilder.build (order : String → Nat) (builder : PredictionTrieBuilder F D) :
    PredictionTrieNode F :=
  (builder.accumulators.nodes.iterate order).foldl (fun root entry =>
    Trie.modify .new (populateNodePredictions builder.sensitivityConfig entry.2) (keyPath entry.1)
      root) (.leaf (.new "root"))

namespace PredictionTrieLookup

def getPrediction (callIndex : Nat) (node : PredictionNode F) : Option (LlmCallPrediction F) :=
  (node.predictionsByCallIndex.get callIndex).or node.predictionsAnyIndex

def find (root : PredictionTrieNode F) (path : List String) (callIndex : Nat) :
    Option (LlmCallPrediction F) :=
  Trie.deepest (getPrediction callIndex) path root

end PredictionTrieLookup

end Builder

end NemoRelay.Adaptive

import NemoRelay.Codec.Response
import NemoRelay.Runtime.Propagation

/-!
# Run and call records

What the telemetry pipeline collects about a run. Times are instants of one clock. Token counts are
32-bit.
-/

namespace NemoRelay.Adaptive

inductive CallKind
  | llm
  | tool
  deriving DecidableEq

structure CallRecord where
  kind : CallKind
  name : String
  startedAt : Int
  endedAt : Option Int
  outputTokens : Option (BitVec 32)
  promptTokens : Option (BitVec 32)
  totalTokens : Option (BitVec 32)
  modelName : Option String
  toolCallCount : Option (BitVec 32)
  annotatedRequest : Option AnnotatedLlmRequest
  annotatedResponse : Option AnnotatedLlmResponse

structure RunRecord where
  id : Uuid
  agentId : String
  calls : List CallRecord
  startedAt : Int
  endedAt : Option Int

end NemoRelay.Adaptive

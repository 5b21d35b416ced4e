import NemoRelay.Runtime.DispatcherRelease
import NemoRelay.Runtime.Capture
import NemoRelay.Runtime.Merge
import NemoRelay.ResponseCache.Store
import NemoRelay.ResponseCache.ChatReplay
import NemoRelay.Broker.Registration
import NemoRelay.Broker.Draining
import NemoRelay.Adaptive.DominantPrefix
import NemoRelay.Adaptive.LearningKey
import NemoRelay.Adaptive.Pairing
import NemoRelay.Adaptive.Trie.Predictions
import NemoRelay.Pii.ResponseCodec
import NemoRelay.Adaptive.LearnerSeed
import NemoRelay.Adaptive.Translation
import NemoRelay.Optimization.Accounting
import NemoRelay.Optimization.RecorderRuns
import NemoRelay.Observability.Atif.DedupeOrder
import NemoRelay.Observability.Atif.Inference
import NemoRelay.PluginHost.Policy
import NemoRelay.Adaptive.AnnotationFrame
import NemoRelay.Gateway.Daemon
import NemoRelay.Gateway.Prepare
import NemoRelay.Runtime.StreamWrapper
import NemoRelay.Gateway.Forwarding
import NemoRelay.Adaptive.Variables
import NemoRelay.Adaptive.ToolParallelism
import NemoRelay.Optimization.Pricing
import NemoRelay.Observability.FieldNames
import NemoRelay.Gateway.SseFrames

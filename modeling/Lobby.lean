import Lobby.Rlp
import Lobby.RlpStream
import Lobby.Types
import Lobby.Eip1559
import Lobby.Eip1559Wire
import Lobby.Revisions
import Lobby.NonceTable
import Lobby.Interaction
import Lobby.NonceEngine
import Lobby.NonceLedger
import Lobby.NonceReuse
import Lobby.Retry
import Lobby.RunLog
import Lobby.Pipeline
import Lobby.RetryCalls
import Lobby.PipelinePhases
import Lobby.RequestTable
import Lobby.Signing
import Lobby.SignEngine
import Lobby.BroadcastEngine
import Lobby.ValidatorEngine
import Lobby.System
import Lobby.NonceFrame
import Lobby.SystemFrame
import Lobby.EngineSpecs
import Lobby.PipelineRun
import Lobby.NonceLifecycle
import Lobby.NonceHolding
import Lobby.Payment
import Lobby.HeldNonce
import Lobby.Sweeping
import Lobby.NonceRelease
import Lobby.StatusReports
import Lobby.StatusTrace
import Lobby.StatusOrder
import Lobby.Terminating
import Lobby.Recycling
import Lobby.Settlement
import Lobby.BroadcastReplies
import Lobby.ValidationCache
import Lobby.SignLedger
import Lobby.Takeover
import Lobby.StatusRegistry
import Lobby.Text
import Lobby.FlatObject
import Lobby.StatusJson
import Lobby.StatusRestart
import Lobby.EndpointMetrics
import Lobby.EndpointPool
import Lobby.EndpointRecovery
import Lobby.RingBuffer
import Lobby.ResponseTimes
import Lobby.CircuitBreaker
import Lobby.Wheel
import Lobby.Roulette
import Lobby.Ecdsa
import Lobby.Secp256k1
import Lobby.Recovery
import Lobby.Normalize
import Lobby.RelayHost
import Lobby.Admission
import Lobby.KeyLeak
import Lobby.Assignments
import Lobby.ApiKeys
import Lobby.MockChain
import Lobby.Backoff
import Lobby.Timeline
import Lobby.HealthyCache
import Lobby.StatsCache
import Lobby.EndpointAffinity
import Lobby.TelemetryCalls
import Lobby.Telemetry
import Lobby.Mailboxes
import Lobby.MailboxRefinement
import Lobby.MailboxService
import Lobby.Shards
import Lobby.Integrity
import Lobby.Gateway
import Lobby.MailboxInvariants
import Lobby.OwnCalls
import Lobby.RelayHostEngine
import Lobby.Server
import Lobby.NotFound
import Lobby.HandlerCalls
import Lobby.RpcConfig
import Lobby.RpcTraffic
import Lobby.LatencyJson
import Lobby.Lines
import Lobby.MetricsCollector
import Lobby.TelemetryReport

import AgentHost.InstanceLock
import AgentHost.Http.ActionIdempotency
import AgentHost.Core.LedgerRepresentation
import AgentHost.Core.LedgerAtomicity
import AgentHost.Core.LedgerClockRuns
import AgentHost.Core.LedgerCapacityRuns
import AgentHost.Core.RegistryRefresh
import AgentHost.Core.RegistryOwnership
import AgentHost.Core.RegistryIsolation
import AgentHost.Core.RegistryCursors
import AgentHost.Http.EventStream
import AgentHost.Core.RepositoryEvidence
import AgentHost.Adapters.CodexRpcMatching
import AgentHost.Adapters.WebSocketDecoding
import AgentHost.Core.AgentListQuery
import AgentHost.Adapters.CursorFences
import AgentHost.Adapters.CodexApprovals
import AgentHost.Adapters.CursorBridge
import AgentHost.Operations.RedactSecrets
import AgentHost.CommandLine
import AgentHost.Adapters.CursorStreamFrames
import AgentHost.Adapters.CodexRpcLines
import AgentHost.Adapters.CursorReconcile
import AgentHost.Adapters.MapConcurrent
import AgentHost.Adapters.CodexWebSocketFrames
import AgentHost.Adapters.CursorMessages
import AgentHost.Http.ServerAuthentication
import AgentHost.AnchoredState.Responses
import AgentHost.Configuration
import AgentHost.Adapters.CursorReservations
import AgentHost.Installation.Completion
import AgentHost.Core.LaunchesOnce

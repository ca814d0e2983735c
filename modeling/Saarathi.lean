import Saarathi.Program
import Saarathi.Machine
import Saarathi.Interleaving
import Saarathi.ReadCommitted
import Saarathi.Errors
import Saarathi.Text
import Saarathi.Agents
import Saarathi.Database
import Saarathi.Channel
import Saarathi.TurnSeparation
import Saarathi.CompleteReply
import Saarathi.FrameParser
import Saarathi.FrameKinds
import Saarathi.Recovery
import Saarathi.World
import Saarathi.Services
import Saarathi.Routing
import Saarathi.Handlers
import Saarathi.Orchestration
import Saarathi.StoredReplies
import Saarathi.Routes
import Saarathi.Footprints
import Saarathi.Statements
import Saarathi.Lifecycle
import Saarathi.TurnLock
import Saarathi.LockRelease
import Saarathi.Resend
import Saarathi.Sessions
import Saarathi.ScopedSelection
import Saarathi.Catalogue
import Saarathi.ScopePrecedence
import Saarathi.ConfigWrites
import Saarathi.ConfigStatements
import Saarathi.ConfigLineage
import Saarathi.SyncEffects
import Saarathi.InForce
import Saarathi.Resync
import Saarathi.Acceptance
import Saarathi.Freshness
import Saarathi.ConfigScopes
import Saarathi.ScopedRouting
import Saarathi.Sidebar
import Saarathi.Buttons
import Saarathi.Addressed
import Saarathi.FinalFlow
import Saarathi.Finalizing
import Saarathi.ScopeCache
import Saarathi.HandlerCache
import Saarathi.DefaultAgent
import Saarathi.Endings
import Saarathi.Custody
import Saarathi.TextNumbers
import Saarathi.Appending
import Saarathi.RepliesOnce
import Saarathi.Accumulation
import Saarathi.PoolInvariant
import Saarathi.Housekeeping
import Saarathi.Reconciling
import Saarathi.Numbering
import Saarathi.MessageNumbers
import Saarathi.RestClient
import Saarathi.FrameText
import Saarathi.LegacyFrames
import Saarathi.OptionIds
import Saarathi.FrameSteps
import Saarathi.ReplyKept
import Saarathi.CapabilityDocument
import Saarathi.OwnSessions
import Saarathi.TitledTurns
import Saarathi.ToolLoop
import Saarathi.ExitCommands
import Saarathi.FinalizeEndpoint
import Saarathi.ErrorDetail
import Saarathi.SpecGrammar
import Saarathi.TurnLimits
import Saarathi.RouteConfidence
import Saarathi.MembershipReadBack
import Saarathi.RateWindow
import Saarathi.Transcript
import Saarathi.ConversationPages
import Saarathi.Bootstrap
import Saarathi.CapabilitySchema
import Saarathi.SessionPolls
import Saarathi.SpecStorage
import Saarathi.Attributes
import Saarathi.Lasting
import Saarathi.Ownership
import Saarathi.Confinement
import Saarathi.Callers
import Saarathi.Requests
import Saarathi.Leftovers
import Saarathi.Isolation
import Saarathi.Histories
import Saarathi.CapabilityAdmin
import Saarathi.CapabilityChanges
import Saarathi.CapabilityAudit
import Saarathi.CapabilityReach
import Saarathi.CapabilityUndo
import Saarathi.PageValues
import Saarathi.CapabilityPage
import Saarathi.NumberedPages
import Saarathi.TranscriptPages
import Saarathi.Journey
import Saarathi.ChatPage
import Saarathi.PageTurns
import Saarathi.PageSessions
import Saarathi.HistoryReplay

import Semprec.Lib.Runs
import Semprec.Lib.Causal
import Semprec.Yjs
import Semprec.SingleClient
import Semprec.Docs
import Semprec.DocSync
import Semprec.Proofs.DocsSteps
import Semprec.Proofs.DocsCompaction
import Semprec.Proofs.DocsCheckpoints
import Semprec.Proofs.DocsHistory
import Semprec.Proofs.DocSyncFrames
import Semprec.Proofs.DocSyncRate
import Semprec.Json
import Semprec.Lib.Transaction
import Semprec.Postgres
import Semprec.Store
import Semprec.Rollup
import Semprec.Relations
import Semprec.Items
import Semprec.Trash
import Semprec.Schema
import Semprec.ChokePoint
import Semprec.Approvals
import Semprec.McpExecution
import Semprec.Proofs.McpExecution
import Semprec.Lib.ReadCommitted
import Semprec.AgentRuns
import Semprec.Proofs.AgentRunTranscript
import Semprec.Blobs
import Semprec.Proofs.BlobUploads
import Semprec.HeartbeatRules
import Semprec.Scheduler
import Semprec.Proofs.SchedulerOccurrences
import Semprec.Proofs.SchedulerStall
import Semprec.AgentRunWatch
import Semprec.SyncClient
import Semprec.SyncServer
import Semprec.Proofs.SyncServerTenants
import Semprec.Proofs.SyncClientFreshness
import Semprec.TenantPool
import Semprec.Proofs.TenantPoolScope
import Semprec.Proofs.Subtree
import Semprec.Proofs.TrashRestore
import Semprec.OperationReplay
import Semprec.Proofs.OperationReplay
import Semprec.Lib.Components
import Semprec.MailThreads
import Semprec.Proofs.MailThreads
import Semprec.ItemVersions
import Semprec.Proofs.ItemVersions
import Semprec.MailIngest
import Semprec.Proofs.MailIngest
import Semprec.Lib.Traces
import Semprec.KeyedJobs
import Semprec.Proofs.KeyedJobs
import Semprec.RelationEdges
import Semprec.Proofs.RelationEdges
import Semprec.Lib.Pages
import Semprec.ModuleDataMigration
import Semprec.Proofs.ModuleDataMigration
import Semprec.ItemCreates
import Semprec.Proofs.ItemCreates
import Semprec.PropertyTypeMigration
import Semprec.Proofs.PropertyTypeMigration
import Semprec.MailSend
import Semprec.Proofs.MailSend
import Semprec.PasswordReset
import Semprec.Proofs.PasswordReset
import Semprec.LoginLockout
import Semprec.Proofs.LoginLockout
import Semprec.AiGateway
import Semprec.Proofs.AiGateway
import Semprec.Proposals
import Semprec.Proofs.ProposalDecisions
import Semprec.Proofs.ProposalCards
import Semprec.Conversation
import Semprec.Proofs.ConversationTail
import Semprec.Proofs.ConversationResume
import Semprec.Proofs.WakeRuns
import Semprec.Proofs.MailFlags
import Semprec.Proofs.PiReplay
import Semprec.Proofs.PiResume
import Semprec.Proofs.TenantExports
import Semprec.Proofs.AccountAccess
import Semprec.Proofs.AdminMembership
import Semprec.Proofs.TenantStatusSignal
import Semprec.Proofs.MailLiveSyncRoot
import Semprec.SpeakerEdges
import Semprec.Proofs.SpeakerEdges
import Semprec.TenantPurgeOrder
import Semprec.Proofs.TenantPurgeOrder
import Semprec.TenantPurge
import Semprec.Proofs.TenantPurge
import Semprec.TranscriptMerge
import Semprec.TranscriptionTask
import Semprec.Proofs.TranscriptionWrites
import Semprec.Proofs.TranscriptionSteps
import Semprec.Proofs.TranscriptionTask
import Semprec.Proofs.TranscriptChunks
import Semprec.GatewayDisconnect
import Semprec.Proofs.GatewayDisconnect
import Semprec.NotificationFanout
import Semprec.Proofs.NotificationFanout
import Semprec.MailAttachments
import Semprec.Proofs.MailAttachments
import Semprec.Proofs.MailAdapters
import Semprec.Proofs.PropertyRetypes
import Semprec.Proofs.ItemAutomations
import Semprec.Proofs.RunStatusEvents
import Semprec.Proofs.PersonEmailIndex
import Semprec.Proofs.SyncClientReconnect
import Semprec.ImapConnectionLimiter
import Semprec.Proofs.ImapConnectionLimiter
import Semprec.AfterCommit
import Semprec.Proofs.AfterCommit
import Semprec.DocSubscriptions
import Semprec.Proofs.DocSubscriptions
import Semprec.ImapIdle
import Semprec.Proofs.ImapIdle
import Semprec.Proofs.SchedulerTimezone
import Semprec.Proofs.NextFireAt
import Semprec.RecurringTasks
import Semprec.Proofs.RecurringTasks
import Semprec.Proofs.TaskCompletions
import Semprec.InvalidationCoalescer
import Semprec.Proofs.InvalidationCoalescer
import Semprec.PasswordResetRequests
import Semprec.Proofs.PasswordResetRequests
import Semprec.CuratedViews
import Semprec.Proofs.CuratedViews
import Semprec.ItemRelationFilter
import Semprec.Proofs.ItemRelationFilter
import Semprec.InboxTypes
import Semprec.Proofs.InboxTypes
import Semprec.TranscriptEventMatch
import Semprec.Proofs.TranscriptEventMatch
import Semprec.DestructivePreflight
import Semprec.Proofs.DestructivePreflight
import Semprec.MailSearch
import Semprec.Proofs.MailSearch
import Semprec.Lib.IpAddress
import Semprec.OutboundAddressPolicy
import Semprec.Proofs.OutboundAddressPolicy
import Semprec.Lib.JsonText
import Semprec.Lib.Base64
import Semprec.Lib.Fragments
import Semprec.AgentStream
import Semprec.Proofs.AgentStream
import Semprec.Lib.TopologicalOrder
import Semprec.Lib.Utf16
import Semprec.CanonicalJson
import Semprec.Proofs.CanonicalJson
import Semprec.FilterSchemas
import Semprec.Proofs.FilterSchemas
import Semprec.PushRegistrations
import Semprec.Proofs.PushRegistrations
import Semprec.JournalItems
import Semprec.Proofs.JournalReservations
import Semprec.Proofs.JournalItems
import Semprec.InboxCaptures
import Semprec.Proofs.ItemReplays
import Semprec.Proofs.RelationSides
import Semprec.Proofs.InboxCaptures
import Semprec.Lib.Search
import Semprec.Lib.Calendar
import Semprec.NextDueDate
import Semprec.Proofs.NextDueDate

import GoCourier.Lib.Board
import GoCourier.Lib.Tally
import GoCourier.Lib.CallTree
import GoCourier.Lib.Ensures
import GoCourier.Lib.Backlog
import GoCourier.Lib.Machine
import GoCourier.Lib.Beside
import GoCourier.Domain.Values
import GoCourier.Domain.Delivery
import GoCourier.Domain.Routing
import GoCourier.Pkg.Breaker
import GoCourier.Pkg.SlidingWindow
import GoCourier.Pkg.Burden
import GoCourier.Store.Tables
import GoCourier.System.World
import GoCourier.System.Frames
import GoCourier.Services.Scheduler
import GoCourier.Services.Outbox
import GoCourier.Services.Consumers
import GoCourier.Protocol.Worker
import GoCourier.Protocol.History
import GoCourier.Protocol.Replay
import GoCourier.Protocol.Scheduler
import GoCourier.Protocol.Outbox
import GoCourier.Protocol.Ingest
import GoCourier.System.Machine
import GoCourier.System.Served
import GoCourier.Services.Retry
import GoCourier.Ledger.Turn
import GoCourier.Store.Effects
import GoCourier.Ledger.View
import GoCourier.Ledger.Refines
import GoCourier.Ledger.Ownership
import GoCourier.Ledger.Places
import GoCourier.Ledger.SoleOwner
import GoCourier.Ledger.Replays
import GoCourier.Ledger.RetryBudget
import GoCourier.Ledger.Recovery
import GoCourier.Outcomes.Replay
import GoCourier.Store.Integrity
import GoCourier.Registry.Ids
import GoCourier.Registry.Reuse
import GoCourier.Registry.Filing
import GoCourier.Registry.Race
import GoCourier.Ledger.Release
import GoCourier.Handover.Work
import GoCourier.Handover.Schedule
import GoCourier.Handover.Survival
import GoCourier.Handover.Outbox
import GoCourier.Handover.OneRow
import GoCourier.Handover.Published
import GoCourier.Handover.Batches
import GoCourier.Handover.Doubles
import GoCourier.Handover.Schedulers
import GoCourier.Handover.Copies
import GoCourier.Handover.Progress
import GoCourier.Handover.Rejects
import GoCourier.Rows.Writes
import GoCourier.Rows.Valid
import GoCourier.Rows.Later
import GoCourier.Rows.Backoff
import GoCourier.Rows.Cause
import GoCourier.Outcomes.Transitions
import GoCourier.Outcomes.History
import GoCourier.Handover.Holding
import GoCourier.Handover.Messages
import GoCourier.Handover.Keepers
import GoCourier.Handover.Carried
import GoCourier.Handover.Stranded
import GoCourier.Outcomes.Reports
import GoCourier.Breakers.Cooldown
import GoCourier.Breakers.Isolation
import GoCourier.Breakers.BadRecipients
import GoCourier.Outcomes.Attempts
import GoCourier.Outcomes.Rounds
import GoCourier.Lib.Fields
import GoCourier.Store.Dashboard
import GoCourier.Http.Config
import GoCourier.Http.Server
import GoCourier.Http.Auth
import GoCourier.Http.Lookups
import GoCourier.Http.Acceptance
import GoCourier.Lib.Rounding
import GoCourier.Web.LoadTest
import GoCourier.Web.Parallel
import GoCourier.Web.Sends
import GoCourier.Lib.Logs
import GoCourier.Store.Growth
import GoCourier.Lib.Promise
import GoCourier.Content.Asked
import GoCourier.Content.Copies
import GoCourier.Content.Sent
import GoCourier.Content.Routed
import GoCourier.Outcomes.Drafts
import GoCourier.Store.Constraints
import GoCourier.System.Costs
import GoCourier.Breakers.Gates
import GoCourier.Content.Accepted
import GoCourier.Outcomes.Timeline
import GoCourier.Providers.Verdicts
import GoCourier.Providers.Mock
import GoCourier.Ledger.Paid
import GoCourier.Outcomes.Final
import GoCourier.Lib.Transcript
import GoCourier.Http.Answers
import GoCourier.Http.Effects
import GoCourier.Web.Requests
import GoCourier.Web.Panel
import GoCourier.Web.Pipeline
import GoCourier.Ledger.Serial

import OctoForge.Coop.Coroutine
import OctoForge.Coop.RelyGuarantee
import OctoForge.Coop.Pool
import OctoForge.Ownership.Claims
import OctoForge.Ownership.Manager
import OctoForge.Ownership.Steps
import OctoForge.Ownership.Evolution
import OctoForge.Ownership.Protocol
import OctoForge.Ownership.Background
import OctoForge.Ownership.Registry
import OctoForge.Ownership.Eviction
import OctoForge.Sequence.Numbered
import OctoForge.Dialog.Branch
import OctoForge.Dialog.Narrative
import OctoForge.Dialog.Steps
import OctoForge.Dialog.Watermarks
import OctoForge.Dialog.Assembly
import OctoForge.Dialog.Pull
import OctoForge.Conversation.Router
import OctoForge.Conversation.Store
import OctoForge.Conversation.Runner
import OctoForge.Conversation.Steps
import OctoForge.Conversation.Log
import OctoForge.Sequence.History
import OctoForge.Conversation.Actions
import OctoForge.Conversation.Coroutines
import OctoForge.Conversation.Cancelled
import OctoForge.Conversation.Submit
import OctoForge.Conversation.Stops
import OctoForge.Conversation.Collections
import OctoForge.Conversation.Slots
import OctoForge.Coop.Trace
import OctoForge.Conversation.Terminations
import OctoForge.Conversation.Starts
import OctoForge.Conversation.Resends
import OctoForge.Outbox.Streams
import OctoForge.Outbox.Books
import OctoForge.Coop.Zoom
import OctoForge.Lifecycle.Runs
import OctoForge.Lifecycle.Recovery
import OctoForge.Lifecycle.Answers
import OctoForge.Agent.Loop
import OctoForge.Coop.Alone
import OctoForge.Agent.Tracking
import OctoForge.Agent.Transcript
import OctoForge.Agent.Cleanup
import OctoForge.Agent.Terminals
import OctoForge.Agent.Prompts
import OctoForge.Agent.Salvage
import OctoForge.Context.Boundary
import OctoForge.Coop.Outcome
import OctoForge.Messages.Integrity
import OctoForge.Telegram.Answers
import OctoForge.Telegram.Chunks
import OctoForge.Telegram.Flush
import OctoForge.Telegram.Rendering
import OctoForge.Ingestion.Poller
import OctoForge.Ingestion.Order
import OctoForge.Coop.Machine
import OctoForge.Identity.Onboarding
import OctoForge.Identity.Activation
import OctoForge.Tariffs.Limits
import OctoForge.Instructions.Service
import OctoForge.Instructions.Ownership
import OctoForge.Cron.Scheduler
import OctoForge.Cron.Delivery
import OctoForge.Search.Ranking
import OctoForge.Search.Fusion
import OctoForge.Search.Hybrid
import OctoForge.Instructions.Search
import OctoForge.Datasets.Search
import OctoForge.Collections.Schema
import OctoForge.Collections.Sinks
import OctoForge.Collections.Ingest
import OctoForge.Collections.Rows
import OctoForge.External.Passports
import OctoForge.External.Spill
import OctoForge.External.Collect
import OctoForge.External.Truncation
import OctoForge.External.Template
import OctoForge.External.Hosts
import OctoForge.External.Record
import OctoForge.Url
import OctoForge.External.Params
import OctoForge.External.Guard
import OctoForge.External.Secrets
import OctoForge.External.Request
import OctoForge.Dialog.Marks
import OctoForge.Context.Segment
import OctoForge.Context.Reactive
import OctoForge.External.Memory
import OctoForge.Dialog.Reparent
import OctoForge.Like
import OctoForge.Sequence.Dict
import OctoForge.Mcp.Mirror
import OctoForge.Mcp.Convergence
import OctoForge.Collections.Inference
import OctoForge.Collections.Orderless
import OctoForge.Sql.Groups
import OctoForge.Collections.Query
import OctoForge.Collections.Statements
import OctoForge.Collections.Casts
import OctoForge.Collections.Totals
import OctoForge.Collections.Pages
import OctoForge.External.Run
import OctoForge.External.Confinement
import OctoForge.External.Destination
import OctoForge.Dots
import OctoForge.External.Paths
import OctoForge.Collections.Filters
import OctoForge.Collections.Quotas
import OctoForge.External.Walks
import OctoForge.Collections.Locating
import OctoForge.External.Rendering
import OctoForge.External.Headers
import OctoForge.External.Scrubbing
import OctoForge.Llm.Accumulator
import OctoForge.Llm.Fragments
import OctoForge.Llm.Slots
import OctoForge.Llm.Accumulated
import OctoForge.Llm.Retry
import OctoForge.Llm.Retried
import OctoForge.Search.Capping
import OctoForge.Search.Reranking
import OctoForge.Search.Named
import OctoForge.Instructions.Retrieval
import OctoForge.Telegram.Cuts
import OctoForge.Lower
import OctoForge.Documents.Positions
import OctoForge.Documents.Paths
import OctoForge.Documents.Windows
import OctoForge.External.Wire
import OctoForge.Conversation.Previews
import OctoForge.Context.History
import OctoForge.Dialog.Suffix
import OctoForge.Sequence.Increasing
import OctoForge.Cron.Missed
import OctoForge.Sequence.Recency
import OctoForge.Llm.EmbeddingCache
import OctoForge.Llm.EmbeddingFutures
import OctoForge.Llm.EmbeddingVectors
import OctoForge.Server.AuthGate
import OctoForge.Server.Admissions
import OctoForge.Server.Floods
import OctoForge.Retention.Reload
import OctoForge.Retention.Sweeper
import OctoForge.Sequence.Arrival
import OctoForge.Telegram.Invites
import OctoForge.Telegram.Membership
import OctoForge.Json.Loads
import OctoForge.Json.RoundTrip
import OctoForge.Json.Fuel
import OctoForge.Lines
import OctoForge.Json.Line
import OctoForge.Json.Dynamic
import OctoForge.Llm.Errors
import OctoForge.Llm.Client
import OctoForge.Llm.Agreement
import OctoForge.Server.EventStream

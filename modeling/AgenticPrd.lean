import AgenticPrd.Lib.Program
import AgenticPrd.Lib.Transition
import AgenticPrd.Lib.Rounding
import AgenticPrd.Lib.Suffix
import AgenticPrd.Backend.Schemas
import AgenticPrd.Backend.StateMachine
import AgenticPrd.Backend.EventStore.Basic
import AgenticPrd.Backend.EventStore.Replay
import AgenticPrd.Backend.EventStore.Subscribe
import AgenticPrd.Backend.RunManager.Basic
import AgenticPrd.Backend.RunManager.Lemmas
import AgenticPrd.Backend.RunManager.Atomicity
import AgenticPrd.Backend.PrdDocument
import AgenticPrd.Backend.Workflow.Basic
import AgenticPrd.Backend.Workflow.Step
import AgenticPrd.Backend.RunStore
import AgenticPrd.Backend.RunManager.Spec
import AgenticPrd.Backend.RunManager.Rules
import AgenticPrd.Backend.Workflow.Invariant
import AgenticPrd.Backend.Workflow.Await
import AgenticPrd.Backend.Workflow.Generator
import AgenticPrd.Backend.Workflow.Nodes
import AgenticPrd.Backend.Workflow.Run
import AgenticPrd.Backend.Workflow.Safety
import AgenticPrd.Backend.Workflow.Pause
import AgenticPrd.Backend.Workflow.Crash
import AgenticPrd.Backend.Workflow.Cancellation
import AgenticPrd.Client.Contracts
import AgenticPrd.Client.RunReducer
import AgenticPrd.Client.UseAgentRun
import AgenticPrd.Client.Controls
import AgenticPrd.Client.Lock
import AgenticPrd.Live.Wire
import AgenticPrd.Live.Link
import AgenticPrd.Live.Gaps
import AgenticPrd.Live.Drafts
import AgenticPrd.Live.Watching
import AgenticPrd.Client.Projection
import AgenticPrd.Client.ReviewPanel
import AgenticPrd.Live.Severity
import AgenticPrd.Backend.Compatible
import AgenticPrd.Backend.Workflow.FinishReason
import AgenticPrd.Backend.Workflow.Account
import AgenticPrd.Backend.Workflow.Rounds
import AgenticPrd.Backend.Workflow.Override
import AgenticPrd.Backend.RunManager.Order
import AgenticPrd.Client.Shown
import AgenticPrd.Live.Told
import AgenticPrd.Live.Restore
import AgenticPrd.Backend.Workflow.Lineage
import AgenticPrd.Live.Lineage
import AgenticPrd.Backend.Serialization
import AgenticPrd.Backend.RunManager.Valid
import AgenticPrd.Backend.Workflow.Reload
import AgenticPrd.Backend.EventStore.Reconnect
import AgenticPrd.Backend.Retention.Basic
import AgenticPrd.Backend.Retention.Invariant
import AgenticPrd.Backend.Retention.Admission
import AgenticPrd.Backend.CompletionMarker
import AgenticPrd.Backend.MarkerLines
import AgenticPrd.Backend.MarkerStripping
import AgenticPrd.Backend.DocumentAcceptance
import AgenticPrd.Lib.Lcs
import AgenticPrd.Lib.LcsTable
import AgenticPrd.Client.Diff
import AgenticPrd.Client.DiffRows
import AgenticPrd.Backend.RunManager.Ranking
import AgenticPrd.Backend.Workflow.Attempt
import AgenticPrd.Backend.Workflow.Baseline
import AgenticPrd.Backend.Workflow.Flow
import AgenticPrd.Live.Ranking
import AgenticPrd.Backend.Workflow.Transcript
import AgenticPrd.Backend.RunManager.Activity
import AgenticPrd.Live.Mirror
import AgenticPrd.Live.Attribution
import AgenticPrd.Client.FailureNotice
import AgenticPrd.Live.Notice
import AgenticPrd.Client.Segments
import AgenticPrd.Client.ReadingDiff
import AgenticPrd.Client.Blocks
import AgenticPrd.Client.ReadingRows
import AgenticPrd.Client.ReadingSections
import AgenticPrd.Backend.Providers.Mock
import AgenticPrd.Backend.LegacyFeedback
import AgenticPrd.Client.Sources
import AgenticPrd.Backend.Workflow.ActiveTime
import AgenticPrd.Backend.Workflow.ParallelReviews
import AgenticPrd.Lib.Interleaving
import AgenticPrd.Backend.Workflow.ReviewOrder
import AgenticPrd.Live.Commuting
import AgenticPrd.Backend.Workflow.Bill
import AgenticPrd.Lib.Conservation
import AgenticPrd.Backend.Workflow.Billing
import AgenticPrd.Backend.Workflow.Turns
import AgenticPrd.Lib.Descent
import AgenticPrd.Backend.Workflow.Calls
import AgenticPrd.Backend.Workflow.Termination
import AgenticPrd.Backend.Workflow.Blame
import AgenticPrd.Backend.Workflow.Completeness
import AgenticPrd.Backend.Workflow.Questions
import AgenticPrd.Backend.Workflow.Judgement
import AgenticPrd.Live.Blame

import SherryAgent.Library.Resumption
import SherryAgent.Source.PyText
import SherryAgent.Library.KeyedList
import SherryAgent.Source.Json
import SherryAgent.Source.Taskflow.Step
import SherryAgent.Source.Taskflow.Flow
import SherryAgent.Source.Taskflow.Mutation
import SherryAgent.Source.Taskflow.Store
import SherryAgent.Source.Taskflow.Tools.Resume
import SherryAgent.Source.Taskflow.StepsList
import SherryAgent.Source.Taskflow.Tools.Dispatch
import SherryAgent.Source.Taskflow.Tools.Planning
import SherryAgent.Source.Taskflow.Tools.Lifecycle
import SherryAgent.Library.Versioned
import SherryAgent.Library.Walks
import SherryAgent.Library.Passes
import SherryAgent.Contracts.Taskflow.Discipline
import SherryAgent.Contracts.Taskflow.Writes
import SherryAgent.Contracts.Taskflow.Resume
import SherryAgent.Contracts.Taskflow.Dispatch
import SherryAgent.Contracts.Taskflow.Planning
import SherryAgent.Contracts.Taskflow.Lifecycle
import SherryAgent.Contracts.Taskflow.Rows
import SherryAgent.Contracts.Taskflow.StepLists
import SherryAgent.Contracts.Taskflow.Cycles
import SherryAgent.Contracts.Taskflow.Validation
import SherryAgent.Guarantees.DoneSteps
import SherryAgent.Contracts.Agent.Counting
import SherryAgent.Contracts.Taskflow.Unlock
import SherryAgent.Guarantees.CompactionLock
import SherryAgent.Guarantees.Denials
import SherryAgent.Guarantees.EditOrdinal
import SherryAgent.Guarantees.FinishGate
import SherryAgent.Guarantees.Hardline
import SherryAgent.Guarantees.HumanAnswers
import SherryAgent.Contracts.Cron
import SherryAgent.Guarantees.InputQueue
import SherryAgent.Guarantees.IntentLog
import SherryAgent.Guarantees.InterruptMarker
import SherryAgent.Guarantees.JudgeBlock
import SherryAgent.Guarantees.Lane
import SherryAgent.Guarantees.LoopBreaking
import SherryAgent.Guarantees.ToolFrames
import SherryAgent.Guarantees.BlindOverwrites
import SherryAgent.Guarantees.MessageTree
import SherryAgent.Guarantees.Redelivery
import SherryAgent.Guarantees.StepIds
import SherryAgent.Guarantees.SpawnContracts
import SherryAgent.Guarantees.Terminal
import SherryAgent.Guarantees.TokenTotal
import SherryAgent.Guarantees.ToolPairing
import SherryAgent.Guarantees.SecondRepair
import SherryAgent.Guarantees.TranscriptFrame
import SherryAgent.Contracts.Subagent.Registry
import SherryAgent.Contracts.Subagent.Swarm
import SherryAgent.Contracts.Taskflow.Counters
import SherryAgent.Guarantees.Descendants
import SherryAgent.Guarantees.RetryBudget
import SherryAgent.Guarantees.SteeringQueue
import SherryAgent.Guarantees.Swarm
import SherryAgent.Guarantees.TodoIds
import SherryAgent.Guarantees.Generations
import SherryAgent.Guarantees.TerminalFacts
import SherryAgent.Guarantees.Announcements
import SherryAgent.Guarantees.PathLock
import SherryAgent.Guarantees.StreamGuard
import SherryAgent.Guarantees.CronIntervals
import SherryAgent.Guarantees.StepValidation
import SherryAgent.Guarantees.UpdateRules
import SherryAgent.Guarantees.UnlockOrder
import SherryAgent.Guarantees.ReadLicenses
import SherryAgent.Guarantees.TurnRewinds
import SherryAgent.Guarantees.HandledIntents
import SherryAgent.Guarantees.QueuePositions
import SherryAgent.Guarantees.ReplaceAll
import SherryAgent.Guarantees.MatchedSpans
import SherryAgent.Guarantees.CutoffPairs
import SherryAgent.Guarantees.CutoffBudget
import SherryAgent.Guarantees.DuplicateOutputs
import SherryAgent.Guarantees.FinishBound
import SherryAgent.Guarantees.PlannedLists
import SherryAgent.Guarantees.SummaryCaps
import SherryAgent.Guarantees.TruncatedArgs
import SherryAgent.Guarantees.PrunedTwice
import SherryAgent.Guarantees.TailClip
import SherryAgent.Guarantees.LastReply
import SherryAgent.Guarantees.PressurePrune
import SherryAgent.Guarantees.HandlerAttempts
import SherryAgent.Guarantees.LineWindows
import SherryAgent.Guarantees.OutputSchemas
import SherryAgent.Guarantees.DanglingTurns
import SherryAgent.Guarantees.IsolatedMerge
import SherryAgent.Guarantees.ChangedDependents
import SherryAgent.Guarantees.PhraseRepetition
import SherryAgent.Guarantees.ReasoningScrub
import SherryAgent.Guarantees.ReplayPolicy
import SherryAgent.Guarantees.EvictedMessages
import SherryAgent.Guarantees.RollbackBoundaries
import SherryAgent.Guarantees.PagedReads
import SherryAgent.Guarantees.SyntaxRepair
import SherryAgent.Guarantees.ReportedSavings

import EntryAnalyse.Runs
import EntryAnalyse.ColumnWrite
import EntryAnalyse.TaskRow
import EntryAnalyse.ExecutionCoordinator
import EntryAnalyse.TaskRunner
import EntryAnalyse.TaskService
import EntryAnalyse.Dispatcher
import EntryAnalyse.ExecutionSystem
import EntryAnalyse.ExecutionMoves
import EntryAnalyse.ClaimExclusion
import EntryAnalyse.ClaimFencing
import EntryAnalyse.SupersededWrites
import EntryAnalyse.StaleScan
import EntryAnalyse.Cancellation
import EntryAnalyse.FinalResults
import EntryAnalyse.MessageQueue
import EntryAnalyse.AgentSlots
import EntryAnalyse.AgentSlotAccounting
import EntryAnalyse.AgentSlotScheduling
import EntryAnalyse.CallchainDb
import EntryAnalyse.FuncDb
import EntryAnalyse.PublishedLists
import EntryAnalyse.R4Loop
import EntryAnalyse.SuperFastFilters
import EntryAnalyse.FastModeBatches
import EntryAnalyse.StageQueue
import EntryAnalyse.StageQueueRuns
import EntryAnalyse.SuperFastCallchain
import EntryAnalyse.R3WriteBack
import EntryAnalyse.Pool
import EntryAnalyse.EngineRun
import EntryAnalyse.EngineBarrier
import EntryAnalyse.ModuleLoader
import EntryAnalyse.EngineOnce
import EntryAnalyse.R1Registration
import EntryAnalyse.FunctionFiling
import EntryAnalyse.ListRepair
import EntryAnalyse.FixedList
import EntryAnalyse.ListValidity
import EntryAnalyse.ShortestPath
import EntryAnalyse.CallchainClosure
import EntryAnalyse.EntryCategories
import EntryAnalyse.TaskDedup
import EntryAnalyse.R3Progress
import EntryAnalyse.R1Timeout
import EntryAnalyse.R2Rulings
import EntryAnalyse.AgentResult
import EntryAnalyse.Streams
import EntryAnalyse.OverflowRecovery
import EntryAnalyse.PiRetries
import EntryAnalyse.RetryBudgets
import EntryAnalyse.SkillValidators
import EntryAnalyse.RequestMetrics
import EntryAnalyse.MetricsSummary
import EntryAnalyse.MetricsFaithful
import EntryAnalyse.R3Decision
import EntryAnalyse.AbnormalReason
import EntryAnalyse.ChainedRunner
import EntryAnalyse.FunctionReads
import EntryAnalyse.DebugReport
import EntryAnalyse.LeaseHeartbeat
import EntryAnalyse.DebugTrigger
import EntryAnalyse.DebugSystem
import EntryAnalyse.DebugFinished
import EntryAnalyse.AgentOwnership
import EntryAnalyse.AgentRegistry
import EntryAnalyse.Dataclass
import EntryAnalyse.PipelineState
import EntryAnalyse.PyText
import EntryAnalyse.LineRanges
import EntryAnalyse.GapCoverage
import EntryAnalyse.FunctionEnd
import EntryAnalyse.Corrections
import EntryAnalyse.GapAnswers
import EntryAnalyse.Braces
import EntryAnalyse.R2ScriptCheck
import EntryAnalyse.Patterns
import EntryAnalyse.JudgeVerdict
import EntryAnalyse.MarkdownFallback
import EntryAnalyse.ParameterNames
import EntryAnalyse.TaintGates
import EntryAnalyse.Paging
import EntryAnalyse.FunctionPages
import EntryAnalyse.LabelRoundTrip
import EntryAnalyse.ConfigMerge
import EntryAnalyse.ConfigService
import EntryAnalyse.RunConfig
import EntryAnalyse.ModulePrompts
import EntryAnalyse.SessionNames
import EntryAnalyse.FinalReports
import EntryAnalyse.ReportCompleteness
import EntryAnalyse.EntrySync
import EntryAnalyse.Savepoints
import EntryAnalyse.SafeEvents
import EntryAnalyse.Interpolation
import EntryAnalyse.HistogramAgreement
import EntryAnalyse.HistogramQuantile
import EntryAnalyse.InsertCounts
import EntryAnalyse.SessionRepair
import EntryAnalyse.Tags
import EntryAnalyse.ReportFields
import EntryAnalyse.Confidence
import EntryAnalyse.BatchClassifiers
import EntryAnalyse.EventIdentity
import EntryAnalyse.ErrorClasses
import EntryAnalyse.SessionReaders
import EntryAnalyse.EntryAnswers
import EntryAnalyse.ApiFilter
import EntryAnalyse.ModelNames
import EntryAnalyse.CallPatterns
import EntryAnalyse.CommentMask
import EntryAnalyse.FunctionEndLexing
import EntryAnalyse.BreadthFirst
import EntryAnalyse.EntryTrees
import EntryAnalyse.JsonSync
import EntryAnalyse.TokenTotals
import EntryAnalyse.SessionPaths
import EntryAnalyse.WorkerControl
import EntryAnalyse.SchedulerService
import EntryAnalyse.SchedulerAccounting
import EntryAnalyse.FirstOccurrences
import EntryAnalyse.FastModeCollector
import EntryAnalyse.WorkspacePreparation
import EntryAnalyse.FirstAnswer
import EntryAnalyse.ModuleDiscovery
import EntryAnalyse.CallEdgeExtraction
import EntryAnalyse.CallEdges
import EntryAnalyse.FunctionPasses
import EntryAnalyse.StaticExtraction
import EntryAnalyse.IndexLoop
import EntryAnalyse.EventStreams
import EntryAnalyse.EventDelivery
import EntryAnalyse.EventStreamEnds
import EntryAnalyse.Newest
import EntryAnalyse.TimelineStore
import EntryAnalyse.TimelineSync
import EntryAnalyse.FifoMatching
import EntryAnalyse.StageMetrics
import EntryAnalyse.LineReader
import EntryAnalyse.ProcessOutput
import EntryAnalyse.CallchainQueries
import EntryAnalyse.ReportLoop
import EntryAnalyse.AppendLog
import EntryAnalyse.EventLog
import EntryAnalyse.TaskRecovery

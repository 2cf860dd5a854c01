import Emma.Library.SlidingWindow
import Emma.Library.FaultyProgram
import Emma.Library.RowTable
import Emma.ConversationMemory
import Emma.DatabaseFiles
import Emma.SelfRepair
import Emma.SqliteMemory
import Emma.MemoryWindow
import Emma.SnapshotRotation
import Emma.SnapshotRuns
import Emma.CrashRecovery
import Emma.RecoveryFaults
import Emma.Numbers
import Emma.LanguageModel
import Emma.Orchestrator
import Emma.TurnTotality
import Emma.UntoldErrors
import Emma.WorkingStores
import Emma.TurnRequests
import Emma.TurnMemory
import Emma.DevelopmentTools
import Emma.ToolStateTools
import Emma.RemovalEvidence
import Emma.Library.LinkedSteps
import Emma.ToolGate
import Emma.Facts
import Emma.ContextReading
import Emma.ContextLine
import Emma.QueueMoves
import Emma.ClosedTasks
import Emma.Checkpoints
import Emma.ReadQuestions
import Emma.DialectAgreement
import Emma.GroqReplay
import Emma.RetryLadder
import Emma.RetryPolicy
import Emma.HttpRequests
import Emma.DatabasePath
import Emma.Library.QuotedText
import Emma.QueueListing
import Emma.HandOvers
import Emma.QueueInvariants
import Emma.FactRuns
import Emma.WriterAgreement
import Emma.OwnTools
import Emma.LockOut
import Emma.Strangers
import Emma.ChunkDelivery
import Emma.TurnStorage
import Emma.Library.Interleaving
import Emma.TurnScript
import Emma.Conversations
import Emma.Library.Transactions
import Emma.StoreStatements
import Emma.FailedWrites
import Emma.FailedAppends
import Emma.Library.Unwinding
import Emma.Lifespan
import Emma.ChunkContents
import Emma.TurnHistory
import Emma.Library.Filling
import Emma.ShownFacts
import Emma.RequestedTools
import Emma.Completions
import Emma.SnapshotFaults
import Emma.Library.Statements
import Emma.ToolStatements
import Emma.ClosedWork
import Emma.Library.SimpleCase
import Emma.FactCase
import Emma.Quotients
import Emma.Durations
import Emma.Library.SqlTokens
import Emma.SqlText
import Emma.Library.LineSearch
import Emma.RowCounts
import Emma.Integers
import Emma.Configuration
import Emma.QuarantineRuns
import Emma.CreatedNumbers
import Emma.WatcherLock
import Emma.BackupRotation
import Emma.Restarts
import Emma.Tally
import Emma.Transcripts
import Emma.ToolListing
import Emma.Library.TempFile
import Emma.QueueBrief
import Emma.Library.Attempts
import Emma.WatchLoop
import Emma.BackupDestination
import Emma.Heartbeat
import Emma.DeployStamp
import Emma.Library.FixedWidth
import Emma.Library.Retention
import Emma.Nights
import Emma.DeployedFiles
import Emma.Library.KeyedLines
import Emma.StampText
import Emma.Clock
import Emma.WakeUps
import Emma.Patience
import Emma.BackupKeep
import Emma.Archives
import Emma.SafetyCopies

import MotifChess.Chess.Library
import MotifChess.Chess.Rules
import MotifChess.Codec.Binary64
import MotifChess.Codec.Bitmap
import MotifChess.Codec.CString
import MotifChess.Codec.Decimal
import MotifChess.Codec.Leb128
import MotifChess.Codec.LittleEndian
import MotifChess.Codec.MarkerScan
import MotifChess.Codec.Quoted
import MotifChess.Codec.RawLines
import MotifChess.Db.Bundle.Committed
import MotifChess.Db.Bundle.Contributions
import MotifChess.Db.Bundle.Coverage
import MotifChess.Db.Bundle.DatabaseManager
import MotifChess.Db.Bundle.EdgeStatistics
import MotifChess.Db.Bundle.EloCounts
import MotifChess.Db.Bundle.EloDistribution
import MotifChess.Db.Bundle.EloSamples
import MotifChess.Db.Bundle.Freshness
import MotifChess.Db.Bundle.GameSearches
import MotifChess.Db.Bundle.Invalidate
import MotifChess.Db.Bundle.Manifest
import MotifChess.Db.Bundle.Naming
import MotifChess.Db.Bundle.OpeningAgreement
import MotifChess.Db.Bundle.OpeningFreshness
import MotifChess.Db.Bundle.OpeningQueries
import MotifChess.Db.Bundle.OpeningReads
import MotifChess.Db.Bundle.OpeningStats
import MotifChess.Db.Bundle.PositionMatches
import MotifChess.Db.Bundle.PostingStatistics
import MotifChess.Db.Bundle.PowerFailure
import MotifChess.Db.Bundle.ProgramIndexes
import MotifChess.Db.Bundle.Queries
import MotifChess.Db.Bundle.Rebuild
import MotifChess.Db.Bundle.RebuildAtomicity
import MotifChess.Db.Bundle.Rebuildable
import MotifChess.Db.Bundle.Runs
import MotifChess.Db.Bundle.Writes
import MotifChess.Db.BundleLock
import MotifChess.Db.ByteStream
import MotifChess.Db.Catalogue
import MotifChess.Db.Collisions
import MotifChess.Db.Deduplicate
import MotifChess.Db.GameContents
import MotifChess.Db.GameSearch
import MotifChess.Db.GameTable
import MotifChess.Db.InsertHistory
import MotifChess.Db.OpeningTreeIndex.Accumulation
import MotifChess.Db.OpeningTreeIndex.Answers
import MotifChess.Db.OpeningTreeIndex.Builder
import MotifChess.Db.OpeningTreeIndex.ChildCounts
import MotifChess.Db.OpeningTreeIndex.Independence
import MotifChess.Db.OpeningTreeIndex.PlayedEdges
import MotifChess.Db.OpeningTreeIndex.Playings
import MotifChess.Db.OpeningTreeIndex.PostingCounts
import MotifChess.Db.OpeningTreeIndex.Reader
import MotifChess.Db.OpeningTreeIndex.RoundTrip
import MotifChess.Db.OpeningTreeIndex.Validation
import MotifChess.Db.PatchCollision
import MotifChess.Db.PatchLaw
import MotifChess.Db.PositionPostings.Answers
import MotifChess.Db.PositionPostings.Assemble
import MotifChess.Db.PositionPostings.Build
import MotifChess.Db.PositionPostings.Directory
import MotifChess.Db.PositionPostings.DirectoryCodec
import MotifChess.Db.PositionPostings.FileSizes
import MotifChess.Db.PositionPostings.Finalize
import MotifChess.Db.PositionPostings.GamePositions
import MotifChess.Db.PositionPostings.Groups
import MotifChess.Db.PositionPostings.MergeRuns
import MotifChess.Db.PositionPostings.PostingBlock
import MotifChess.Db.PositionPostings.PostingCodec
import MotifChess.Db.PositionPostings.Reader
import MotifChess.Db.PositionPostings.ReplayAnswers
import MotifChess.Db.PositionPostings.Replayable
import MotifChess.Db.PositionPostings.RoundTrip
import MotifChess.Db.PositionPostings.Spills
import MotifChess.Db.PositionPostings.TruncatedSpills
import MotifChess.Db.PositionPostings.Validation
import MotifChess.Db.PositionPrefixPostings.Artifact
import MotifChess.Db.PositionPrefixPostings.Finalizers
import MotifChess.Db.PositionPrefixPostings.Safety
import MotifChess.Db.PositionPrefixPostings.Sidecar
import MotifChess.Db.ReplayChanges
import MotifChess.Db.ReplayGame
import MotifChess.Db.SearchFilter
import MotifChess.Db.Store.AlikeInserts
import MotifChess.Db.Store.Calls
import MotifChess.Db.Store.Fresh
import MotifChess.Db.Store.GameStore
import MotifChess.Db.Store.GameWriter
import MotifChess.Db.Store.Inserts
import MotifChess.Db.Store.PatchAdmits
import MotifChess.Db.Store.PatchEdits
import MotifChess.Db.Store.PatchOutcome
import MotifChess.Db.Store.PatchedGames
import MotifChess.Db.Store.PatchedRows
import MotifChess.Db.Store.Patches
import MotifChess.Db.Store.Records
import MotifChess.Db.Store.RefinedCalls
import MotifChess.Db.Store.RefinedInserts
import MotifChess.Db.Store.RefinedPatches
import MotifChess.Db.Store.RefinedRuns
import MotifChess.Db.Store.Refinement
import MotifChess.Db.Store.RoundTrip
import MotifChess.Db.Store.Schema
import MotifChess.Db.Store.Session
import MotifChess.Db.Store.Totality
import MotifChess.Db.StoreRuns
import MotifChess.Db.Types
import MotifChess.Engine.AnalysisStream
import MotifChess.Engine.EngineManager
import MotifChess.Http.GameCatalogue
import MotifChess.Http.GameHandlers
import MotifChess.Http.GameRequests
import MotifChess.Http.GameServing
import MotifChess.Http.ImportInvariant
import MotifChess.Http.ImportRuns
import MotifChess.Http.ImportSessions
import MotifChess.Http.ImportSteps
import MotifChess.Http.PatchReports
import MotifChess.Http.PgnExport
import MotifChess.Http.QueryContract
import MotifChess.Http.QueryHandlers
import MotifChess.Http.RejectedMutations
import MotifChess.Import.CheckpointSafety
import MotifChess.Import.CountGames
import MotifChess.Import.IdentityRuns
import MotifChess.Import.ImportAccounting
import MotifChess.Import.ImportPipeline
import MotifChess.Import.ImportWorker
import MotifChess.Import.IndexableRuns
import MotifChess.Import.Pgn
import MotifChess.Import.PgnReader
import MotifChess.Import.PgnRoundTrip
import MotifChess.Import.PrepareGame
import MotifChess.Import.Progress
import MotifChess.Import.RebuildableRuns
import MotifChess.Import.ResumedImport
import MotifChess.Import.SessionSteps
import MotifChess.Import.Sessions
import MotifChess.Import.SourceReads
import MotifChess.Import.WritableTables
import MotifChess.Navigator.GameNavigator
import MotifChess.Order.Aggregation
import MotifChess.Order.Bisection
import MotifChess.Order.Buckets
import MotifChess.Order.FirstWins
import MotifChess.Order.Recency
import MotifChess.Order.RunMerge
import MotifChess.Order.Runs
import MotifChess.Order.SortBy
import MotifChess.Order.Tally
import MotifChess.Order.Tiling
import MotifChess.Search.OpeningStats.Complete
import MotifChess.Search.OpeningStats.Query
import MotifChess.Search.OpeningStats.Rows
import MotifChess.Search.OpeningTree.Complete
import MotifChess.Search.OpeningTree.Counts
import MotifChess.Search.OpeningTree.Expand
import MotifChess.Search.OpeningTree.Expansion
import MotifChess.Search.OpeningTree.FirstPly
import MotifChess.Search.OpeningTree.GamePaths
import MotifChess.Search.OpeningTree.Linking
import MotifChess.Search.OpeningTree.Open
import MotifChess.Search.OpeningTree.PathCounts
import MotifChess.Search.OpeningTree.Slice
import MotifChess.Search.OpeningTree.Transpositions
import MotifChess.SlintApp.BoardPresenter
import MotifChess.SlintApp.BoardRuns
import MotifChess.SlintApp.BrowserRunner
import MotifChess.SlintApp.BrowserRunnerRuns
import MotifChess.SlintApp.BundleSearch
import MotifChess.SlintApp.GameBrowserPresenter
import MotifChess.SlintApp.GameBrowserRuns
import MotifChess.SlintApp.ImportService
import MotifChess.SlintApp.ImportServiceRuns
import MotifChess.SlintApp.RunnerEffort
import MotifChess.SlintApp.SearchCache
import MotifChess.SlintApp.SearchPresenter
import MotifChess.SlintApp.SearchRunner
import MotifChess.SlintApp.SearchRunnerRuns
import MotifChess.SlintApp.SquaresFromFen
import MotifChess.SlintApp.Window
import MotifChess.SlintApp.WindowProgress
import MotifChess.SlintApp.WindowRuns
import MotifChess.SlintApp.WorkspaceRuns
import MotifChess.SlintApp.WorkspaceService
import MotifChess.System.KeyedLog
import MotifChess.System.Quiescence
import MotifChess.System.Run
import MotifChess.System.Stateful
import MotifChess.System.Worker

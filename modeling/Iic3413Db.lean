import Iic3413Db.Foundation.Machine
import Iic3413Db.System.BufferClock
import Iic3413Db.System.BufferCoherence
import Iic3413Db.System.BufferRuns
import Iic3413Db.System.BufferErrors
import Iic3413Db.RelationalModel.Record
import Iic3413Db.Storage.HeapFile.HeapFilePage
import Iic3413Db.Storage.HeapFile.SlottedPage
import Iic3413Db.Storage.HeapFile.PageAccess
import Iic3413Db.Storage.HeapFile.PageOperations
import Iic3413Db.Storage.HeapFile.Vacuum
import Iic3413Db.Storage.HeapFile.PageRuns
import Iic3413Db.Storage.HeapFile.VacuumRuns
import Iic3413Db.Storage.HeapFile.HeapFile
import Iic3413Db.Storage.HeapFile.HeapFileSlots
import Iic3413Db.Storage.HeapFile.HeapFileScan
import Iic3413Db.Mvcc.Versions
import Iic3413Db.RelationalModel.TableSchema
import Iic3413Db.Mvcc.Database
import Iic3413Db.Mvcc.Invariant
import Iic3413Db.Mvcc.Steps
import Iic3413Db.Mvcc.Scan
import Iic3413Db.Mvcc.Reader
import Iic3413Db.Mvcc.Updates
import Iic3413Db.Foundation.KeyedMap
import Iic3413Db.System.Catalog
import Iic3413Db.System.CatalogFile
import Iic3413Db.Server.Globals
import Iic3413Db.Server.Threads
import Iic3413Db.Server.Invariant
import Iic3413Db.Server.Steps
import Iic3413Db.Server.Endings
import Iic3413Db.Server.Session
import Iic3413Db.Server.SessionInvariant
import Iic3413Db.Server.SessionEnds
import Iic3413Db.Foundation.Rows
import Iic3413Db.Query.Executor.Delivers
import Iic3413Db.Query.Executor.Products
import Iic3413Db.Query.Optimizer.Lowering
import Iic3413Db.Query.Optimizer.CartesianProducts
import Iic3413Db.Query.Optimizer.Joins
import Iic3413Db.Query.Optimizer.JoinOrders
import Iic3413Db.Storage.HeapFile.HeapStore
import Iic3413Db.Storage.HeapFile.FullVacuum
import Iic3413Db.Storage.HeapFile.VersionChains
import Iic3413Db.Storage.HeapFile.FullVacuumSweep
import Iic3413Db.Storage.HeapFile.FullVacuumSpec
import Iic3413Db.Storage.HeapFile.FullVacuumReclaims
import Iic3413Db.Storage.HeapFile.FullVacuumKeeps
import Iic3413Db.Query.Parser.LogicalPlan
import Iic3413Db.Query.Parser.QueryPreprocessor
import Iic3413Db.System.CatalogTruncation
import Iic3413Db.Query.Executor.Calls
import Iic3413Db.Query.Executor.OuterJoins
import Iic3413Db.Query.Executor.OuterJoinPairs
import Iic3413Db.Query.Executor.Resets
import Iic3413Db.Query.Optimizer.ExprOptimizer
import Iic3413Db.Query.Optimizer.Optimizer
import Iic3413Db.Query.Optimizer.OnConditions
import Iic3413Db.Query.Optimizer.NullPadding
import Iic3413Db.Query.Optimizer.DistinctColumns
import Iic3413Db.Query.Optimizer.WrittenExpressions
import Iic3413Db.Query.Optimizer.UpdateColumns
import Iic3413Db.Query.Optimizer.AddressedColumns
import Iic3413Db.Query.Optimizer.ExactArithmetic
import Iic3413Db.System.PageOffsets
import Iic3413Db.Storage.HeapFile.PageOpening
import Iic3413Db.System.PageCounting
import Iic3413Db.Foundation.Procedures
import Iic3413Db.Mvcc.UpdateIter
import Iic3413Db.Foundation.Worklist
import Iic3413Db.Query.Parser.BuildJoins
import Iic3413Db.Query.Parser.ColumnReferences
import Iic3413Db.Storage.HeapFile.ChainReads
import Iic3413Db.Mvcc.TableViews
import Iic3413Db.Mvcc.UpdateDrains
import Iic3413Db.Mvcc.UpdateOnce
import Iic3413Db.Mvcc.FailedUpdates
import Iic3413Db.Mvcc.ReachableViews
import Iic3413Db.Query.Optimizer.NeededColumns
import Iic3413Db.Query.Optimizer.UsageCounting
import Iic3413Db.Query.Parser.PushSelection
import Iic3413Db.Query.Optimizer.UsageInvariants
import Iic3413Db.System.ClockTurns
import Iic3413Db.Server.Rollback
import Iic3413Db.Mvcc.SetLists
import Iic3413Db.Foundation.Lexing
import Iic3413Db.Query.Parser.Lexer
import Iic3413Db.Query.Parser.LongestMatch
import Iic3413Db.Query.Parser.StringLiterals
import Iic3413Db.Query.Parser.ExpressionTokens
import Iic3413Db.Query.Parser.SpacedExpressions
import Iic3413Db.Foundation.Filters
import Iic3413Db.Foundation.Limits
import Iic3413Db.Query.Parser.Meaning
import Iic3413Db.Query.Parser.JoinMeaning
import Iic3413Db.Query.Parser.PushMeaning
import Iic3413Db.Bin.Client
import Iic3413Db.Foundation.Framing
import Iic3413Db.Server.Dispatch
import Iic3413Db.Server.Wire
import Iic3413Db.Server.WireRuns
import Iic3413Db.Query.Executor.Feeding
import Iic3413Db.Query.Optimizer.LoweredOuterJoins
import Iic3413Db.Query.Optimizer.LoweredPlans
import Iic3413Db.Query.Optimizer.PushedPlans
import Iic3413Db.Query.Optimizer.SelectResults
import Iic3413Db.System.Folder
import Iic3413Db.System.VolumeRuns
import Iic3413Db.Server.Lifetimes
import Iic3413Db.Server.TableFileRuns

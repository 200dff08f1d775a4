import ScratchDb.Catalog.RoundTrip
import ScratchDb.Catalog.CrashSafety
import ScratchDb.Indexes.DamagedFile
import ScratchDb.Indexes.KeyOrder
import ScratchDb.Indexes.Lookups
import ScratchDb.Indexes.TreeLevels
import ScratchDb.Indexes.IndexMirrors
import ScratchDb.Indexes.IndexFile
import ScratchDb.Lib.SearchTree
import ScratchDb.Concurrency.MutualExclusion
import ScratchDb.Query.AbortedTransactions
import ScratchDb.Query.KeyConstraints
import ScratchDb.Query.ReferentialIntegrity
import ScratchDb.Parser.ParsedTrees
import ScratchDb.Parser.PlacedTokens
import ScratchDb.Parser.SelectGrammar
import ScratchDb.Parser.SelectTexts
import ScratchDb.Parser.ConditionTexts
import ScratchDb.Parser.QueryTexts
import ScratchDb.Parser.SafeStatements
import ScratchDb.Query.DeletedRows
import ScratchDb.Record.RowRoundTrip
import ScratchDb.Recovery.PageHistory
import ScratchDb.Recovery.Restartable
import ScratchDb.Recovery.TableHistory
import ScratchDb.Sessions.FreshIds
import ScratchDb.Sessions.OwnRecords
import ScratchDb.Sessions.TwoPhase
import ScratchDb.Storage.SlotMap
import ScratchDb.Storage.DamagedPages
import ScratchDb.Storage.WalTail
import ScratchDb.Tables.WriteAhead
import ScratchDb.Tables.FaithfulRecords
import ScratchDb.Values.ResultTexts
import ScratchDb.Sessions.DatabaseSwitch
import ScratchDb.Sessions.RecoveryInTime
import ScratchDb.Sessions.RefusedTables
import ScratchDb.Select.JoinOrientation
import ScratchDb.Select.OuterReferences
import ScratchDb.Select.Transparency
import ScratchDb.Select.RectangularResults
import ScratchDb.Select.NumberConversions
import ScratchDb.Select.OrderedResults
import ScratchDb.Select.OuterJoins
import ScratchDb.Select.QualifiedNames
import ScratchDb.Select.OnOperands
import ScratchDb.Select.EquatedColumns
import ScratchDb.Select.NaturalJoins
import ScratchDb.Select.SetOperations
import ScratchDb.Record.RecordLimits
import ScratchDb.Record.WrittenBack
import ScratchDb.Indexes.TreeShape
import ScratchDb.Tables.CacheTransparency
import ScratchDb.Values.DatesInOrder
import ScratchDb.Values.NumberLiterals
import ScratchDb.Server.SharedSessions
import ScratchDb.Tables.CacheBooks
import ScratchDb.Parser.TokenTiles
import ScratchDb.Values.ValueLists
import ScratchDb.Query.InsertSelect
import ScratchDb.Tables.StorageSimulation

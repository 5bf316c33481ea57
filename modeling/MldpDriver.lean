import MldpDriver.Arrow.RecordBatch
import MldpDriver.Bus.DataBatch
import MldpDriver.Config.ConfigOverride
import MldpDriver.Controller.BusQueue
import MldpDriver.Controller.MLDPPVXSController
import MldpDriver.Controller.ProcessorGraph
import MldpDriver.Controller.ReaderLifecycle
import MldpDriver.Controller.RouteTable
import MldpDriver.Controller.Startup
import MldpDriver.Enricher.ShardSlotEnricher
import MldpDriver.Lib.Answers
import MldpDriver.Lib.AppendTable
import MldpDriver.Lib.BestOf
import MldpDriver.Lib.Binary64
import MldpDriver.Lib.CivilDate
import MldpDriver.Lib.Csv
import MldpDriver.Lib.DecimalText
import MldpDriver.Lib.DepthFirst
import MldpDriver.Lib.Groups
import MldpDriver.Lib.IntervalMerge
import MldpDriver.Lib.Json
import MldpDriver.Lib.KeySplit
import MldpDriver.Lib.Kleene
import MldpDriver.Lib.Lines
import MldpDriver.Lib.Loop
import MldpDriver.Lib.MonotoneDeque
import MldpDriver.Lib.NestedLoop
import MldpDriver.Lib.PaddedPages
import MldpDriver.Lib.Regex
import MldpDriver.Lib.Run
import MldpDriver.Lib.SeenKeys
import MldpDriver.Lib.Separators
import MldpDriver.Lib.StableSort
import MldpDriver.Lib.Stretches
import MldpDriver.Lib.Tagged
import MldpDriver.Lib.Tiling
import MldpDriver.Lib.Utf8
import MldpDriver.Lib.Wildcards
import MldpDriver.Lib.WordArithmetic
import MldpDriver.Lib.XorClasses
import MldpDriver.Pool.MLDPGrpcIngestionPool
import MldpDriver.Pool.PooledHandle
import MldpDriver.Processor.AllUpdated
import MldpDriver.Processor.ChannelProcessor
import MldpDriver.Processor.InputBuffer
import MldpDriver.Processor.SlotSamples
import MldpDriver.Query.ActivationCriterion
import MldpDriver.Query.AggregateRegistry
import MldpDriver.Query.AggregateValue
import MldpDriver.Query.AnnotationLimit
import MldpDriver.Query.AnnotationPages
import MldpDriver.Query.ArithmeticRange
import MldpDriver.Query.Binder
import MldpDriver.Query.BoundWhere
import MldpDriver.Query.CanonicalExpression
import MldpDriver.Query.CatalogRuns
import MldpDriver.Query.ColumnRoundTrip
import MldpDriver.Query.ConditionGroups
import MldpDriver.Query.ConditionTruth
import MldpDriver.Query.Conditions
import MldpDriver.Query.ConstantFolding
import MldpDriver.Query.DistinctOn
import MldpDriver.Query.ExactComparison
import MldpDriver.Query.ExpressionEvaluator
import MldpDriver.Query.ExpressionKeys
import MldpDriver.Query.ExpressionProjection
import MldpDriver.Query.Filter
import MldpDriver.Query.FilterGroups
import MldpDriver.Query.FromUtc
import MldpDriver.Query.GroupKeys
import MldpDriver.Query.GroupedAggregator
import MldpDriver.Query.GroupedColumns
import MldpDriver.Query.GroupedDealing
import MldpDriver.Query.GroupedRows
import MldpDriver.Query.GroupedSpill
import MldpDriver.Query.InSubquery
import MldpDriver.Query.InteractivePages
import MldpDriver.Query.Join
import MldpDriver.Query.JoinSides
import MldpDriver.Query.KeyOrder
import MldpDriver.Query.LeftJoinWhere
import MldpDriver.Query.LikeLanguage
import MldpDriver.Query.LogicalPlanner
import MldpDriver.Query.MLDPQueryClient
import MldpDriver.Query.MldpBidiRecordBatchStream
import MldpDriver.Query.NamedWindows
import MldpDriver.Query.NormalizedWindows
import MldpDriver.Query.PartitionProgress
import MldpDriver.Query.Predicate
import MldpDriver.Query.PvConjuncts
import MldpDriver.Query.PvNamePushdown
import MldpDriver.Query.PvNameRegex
import MldpDriver.Query.QueryArithmetic
import MldpDriver.Query.QueryFormatter
import MldpDriver.Query.QueryLexer
import MldpDriver.Query.QueryTableCatalog
import MldpDriver.Query.QuotedStrings
import MldpDriver.Query.ReplStatements
import MldpDriver.Query.RowDeduplicator
import MldpDriver.Query.SameColumn
import MldpDriver.Query.SamplesPages
import MldpDriver.Query.ScanRequests
import MldpDriver.Query.SelectRows
import MldpDriver.Query.SlidingAggregates
import MldpDriver.Query.Sort
import MldpDriver.Query.SpillManager
import MldpDriver.Query.SpilledAggregate
import MldpDriver.Query.TimeConjuncts
import MldpDriver.Query.ToUtc
import MldpDriver.Query.UnionExecution
import MldpDriver.Query.UnionSchema
import MldpDriver.Query.WholeGroup
import MldpDriver.Query.WholePartition
import MldpDriver.Query.WideAligned
import MldpDriver.Query.WideMerge
import MldpDriver.Query.WideTableScan
import MldpDriver.Query.WindowAgree
import MldpDriver.Query.WindowFetch
import MldpDriver.Query.WindowFlat
import MldpDriver.Query.WindowFrames
import MldpDriver.Query.WindowGroupBy
import MldpDriver.Query.WindowSamples
import MldpDriver.Query.WindowScan
import MldpDriver.Query.WindowSegments
import MldpDriver.Query.WindowValues
import MldpDriver.Reader.ArchiverBatches
import MldpDriver.Reader.ArchiverConversion
import MldpDriver.Reader.ArchiverDecode
import MldpDriver.Reader.ArchiverFetch
import MldpDriver.Reader.ArchiverOnce
import MldpDriver.Reader.ArchiverTimes
import MldpDriver.Reader.BSASEpicsDataBatchConversion
import MldpDriver.Reader.BsasRoundTrip
import MldpDriver.Reader.ColumnNames
import MldpDriver.Reader.CycleWindows
import MldpDriver.Reader.EpicsBaseReader
import MldpDriver.Reader.EpicsDSMetadataReader
import MldpDriver.Reader.EpicsPVDataBatchConversion
import MldpDriver.Reader.EpicsPVXSReader
import MldpDriver.Reader.HDF5BsasGen1Reader
import MldpDriver.Reader.PbHttpLine
import MldpDriver.Reader.PeriodicTail
import MldpDriver.Reader.PoolGrouping
import MldpDriver.Reader.PoolProgress
import MldpDriver.Reader.PvField
import MldpDriver.Reader.ReaderPool
import MldpDriver.Reader.SlacCalendarReader
import MldpDriver.Reader.TableBatching
import MldpDriver.Reader.TableCells
import MldpDriver.Writer.BaseQueuedWriter
import MldpDriver.Writer.Drain
import MldpDriver.Writer.Fifo
import MldpDriver.Writer.FrameAccounts
import MldpDriver.Writer.HDF5FilePool
import MldpDriver.Writer.HDF5Writer
import MldpDriver.Writer.MLDPConfigurationWriter
import MldpDriver.Writer.MLDPWriter
import MldpDriver.Writer.MLDPWriterConfig
import MldpDriver.Writer.PoolStop
import MldpDriver.Writer.QueuedItems
import MldpDriver.Writer.RejectedPush
import MldpDriver.Writer.RowAlignment
import MldpDriver.Writer.SerialMerge
import MldpDriver.Writer.StreamLimits
import MldpDriver.Writer.TabularBuffer
import MldpDriver.Writer.TabularFlush
import MldpDriver.Writer.TabularRounds
import MldpDriver.Writer.TabularTable
import MldpDriver.Writer.TornFlush
import MldpDriver.Writer.Wakeups

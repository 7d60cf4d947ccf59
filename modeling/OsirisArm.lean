import OsirisArm.ArmPmu
import OsirisArm.AssembledList
import OsirisArm.AssembledSearch
import OsirisArm.AssemblerStage
import OsirisArm.Base64
import OsirisArm.CallingConvention
import OsirisArm.CleanedSearch
import OsirisArm.Cleanup
import OsirisArm.CodeGenerator
import OsirisArm.CodePage
import OsirisArm.CodePages
import OsirisArm.CommandLine
import OsirisArm.Confirm
import OsirisArm.Confirmation
import OsirisArm.Core
import OsirisArm.DataPages
import OsirisArm.DiagonalSearch
import OsirisArm.DisturbedRuns
import OsirisArm.Executor
import OsirisArm.ExhaustiveSearch
import OsirisArm.FaultAccounting
import OsirisArm.FaultContainment
import OsirisArm.FileHash
import OsirisArm.Files
import OsirisArm.Filter
import OsirisArm.FilterCommand
import OsirisArm.FilterHistory
import OsirisArm.FilterMerging
import OsirisArm.FilterPasses
import OsirisArm.FilterSelection
import OsirisArm.FilterSets
import OsirisArm.FolderReport
import OsirisArm.IcIallu
import OsirisArm.IsolatedStages
import OsirisArm.Library.A64.Instruction
import OsirisArm.Library.A64.Machine
import OsirisArm.Library.A64.StackFrame
import OsirisArm.Library.A64.StraightLine
import OsirisArm.Library.Acquisition
import OsirisArm.Library.BestMap
import OsirisArm.Library.Combinations
import OsirisArm.Library.CrashingPool
import OsirisArm.Library.Emission
import OsirisArm.Library.FileStreams
import OsirisArm.Library.Getopt
import OsirisArm.Library.Lines
import OsirisArm.Library.Numerals
import OsirisArm.Library.OrderStatistics
import OsirisArm.Library.Overwrite
import OsirisArm.Library.Ranges
import OsirisArm.Library.Replay
import OsirisArm.Library.Selection
import OsirisArm.Library.SelectionMerging
import OsirisArm.Library.Signals
import OsirisArm.Library.Switching
import OsirisArm.Library.Trials
import OsirisArm.Library.WhileLoops
import OsirisArm.Library.WorkerPool
import OsirisArm.Median
import OsirisArm.MedianMiddle
import OsirisArm.Osiris
import OsirisArm.PageExecution
import OsirisArm.PageLayout
import OsirisArm.ParseOperands
import OsirisArm.Pipeline
import OsirisArm.PmuAccess
import OsirisArm.PropertyTuples
import OsirisArm.RaisedThreshold
import OsirisArm.Refiltering
import OsirisArm.RepeatableConfirmation
import OsirisArm.ReportFormatting
import OsirisArm.Representatives
import OsirisArm.ReproducibleSession
import OsirisArm.ResetFiller
import OsirisArm.RowFormat
import OsirisArm.RunScript
import OsirisArm.SearchBlocks
import OsirisArm.SearchRows
import OsirisArm.SearchTests
import OsirisArm.SequenceTriple
import OsirisArm.SleepRows
import OsirisArm.SpeculativeBranches
import OsirisArm.SpeculativeLayout
import OsirisArm.SplitLoop
import OsirisArm.TestIsolation
import OsirisArm.Testrun
import OsirisArm.Timer
import OsirisArm.TriggerEffect
import OsirisArm.TriggerPages
import OsirisArm.TriggerStatistic
import OsirisArm.UidLookup
import OsirisArm.UndisturbedConfirmation
import OsirisArm.UndisturbedPipeline
import OsirisArm.UndisturbedSearch
import OsirisArm.Utils
import OsirisArm.Words
import OsirisArm.WorkerCrashes

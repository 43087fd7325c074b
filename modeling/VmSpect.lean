import VmSpect.Lib.Interleaving
import VmSpect.Lib.WorkQueue
import VmSpect.Lib.ForkJoin
import VmSpect.Lib.Shutdown
import VmSpect.Lib.Exclusion
import VmSpect.Lib.Chain
import VmSpect.Lib.UnixPath
import VmSpect.Lib.Grouping
import VmSpect.Error
import VmSpect.Models.Progress
import VmSpect.Engine.Workers
import VmSpect.Engine.Batch
import VmSpect.Engine.BatchInvariant
import VmSpect.Engine.BatchOutcomes
import VmSpect.Engine.BatchPanic
import VmSpect.Engine.BatchThreads
import VmSpect.Engine.BatchProgress
import VmSpect.Engine.Parallel
import VmSpect.Engine.ParallelOutcomes
import VmSpect.Engine.LayoutReports
import VmSpect.Parsers.OsRelease
import VmSpect.Parsers.LinuxGuests
import VmSpect.Engine.ParallelThreads
import VmSpect.Engine.GracefulShutdown
import VmSpect.Lib.Bytes
import VmSpect.Lib.Words
import VmSpect.Vms.VirtualDisk
import VmSpect.Lib.Stateful
import VmSpect.Vms.Cursor
import VmSpect.Vms.CacheBound
import VmSpect.Lib.Recency
import VmSpect.Vms.RecentChunks
import VmSpect.Vms.Seeking
import VmSpect.Vms.Nbd
import VmSpect.Vms.NbdReads
import VmSpect.Vms.NbdLengths
import VmSpect.Vms.NbdHandshake
import VmSpect.Vms.NbdConversation
import VmSpect.Vms.NbdErrors
import VmSpect.Vms.NbdSession
import VmSpect.Vms.NbdAccounting
import VmSpect.Lib.Text
import VmSpect.Lib.OsPath
import VmSpect.Lib.Traversal
import VmSpect.Lib.Logged
import VmSpect.Lib.Polling
import VmSpect.Lib.Notifying
import VmSpect.Lib.Returning
import VmSpect.Lib.Printing
import VmSpect.Lib.Recording
import VmSpect.Vms.FileSystem
import VmSpect.Vms.Vmdk
import VmSpect.Vms.Stream
import VmSpect.Vms.DiskReader
import VmSpect.Vms.GrainWalk
import VmSpect.Vms.RedundantDirectory
import VmSpect.Vms.SparseReads
import VmSpect.Vms.DescriptorLines
import VmSpect.Vms.DescriptorText
import VmSpect.Vms.SparseNames
import VmSpect.Vms.ExtentReads
import VmSpect.Vms.DiskReads
import VmSpect.Vms.Headers
import VmSpect.Vms.VmdkChain
import VmSpect.Vms.Storage
import VmSpect.Vms.Geometry
import VmSpect.Vms.OpeningErrors
import VmSpect.Vms.Preflight
import VmSpect.Vms.ReportedSize
import VmSpect.Models.Report
import VmSpect.Vms.Detector
import VmSpect.Vms.Discovery
import VmSpect.Lib.Utf8
import VmSpect.Lib.Globs
import VmSpect.Vms.SecondaryExtents
import VmSpect.Vms.DiscoveryExact
import VmSpect.Vms.DiscoveryExclusion
import VmSpect.Engine.ActiveOperation
import VmSpect.Engine.EngineReuse
import VmSpect.Parsers.Crates
import VmSpect.Parsers.Linux
import VmSpect.Parsers.DpkgStanzas
import VmSpect.Parsers.DpkgDatabase
import VmSpect.Parsers.Windows
import VmSpect.Parsers.WindowsMerge
import VmSpect.Parsers.Deduplication
import VmSpect.Vms.NbdOpen
import VmSpect.Vms.NbdSocket
import VmSpect.Vms.NbdInterruption
import VmSpect.Engine.Inspection
import VmSpect.Engine.Cancellation
import VmSpect.Engine.ProgressEvents
import VmSpect.Engine.CancellationCause
import VmSpect.Engine.DisabledCollections
import VmSpect.Vms.DetectorReads
import VmSpect.Vms.MbrTable
import VmSpect.Vms.MbrLayout
import VmSpect.Vms.BareVolume
import VmSpect.Vms.DiskLayouts
import VmSpect.Vms.EbrCycles
import VmSpect.Vms.GptTable
import VmSpect.Vms.GptArithmetic
import VmSpect.Lib.Gregorian
import VmSpect.Parsers.CivilDays
import VmSpect.Lib.Relating
import VmSpect.Vms.SameReads
import VmSpect.Parsers.SameViews
import VmSpect.Engine.SameFindings
import VmSpect.Engine.StoredFindings
import VmSpect.Engine.ChunkSizes
import VmSpect.Engine.Summary
import VmSpect.Cli.Arguments
import VmSpect.Cli.Directory

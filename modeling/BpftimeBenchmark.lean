import BpftimeBenchmark.FsCache.Filter
import BpftimeBenchmark.FsCache.CloseRace
import BpftimeBenchmark.FsCache.Tracking
import BpftimeBenchmark.FsCache.RelativePaths
import BpftimeBenchmark.FsCache.Cache
import BpftimeBenchmark.FsCache.Readers
import BpftimeBenchmark.Redis.DelayedFsync
import BpftimeBenchmark.Redis.BatchOrder
import BpftimeBenchmark.FsCache.Isolation
import BpftimeBenchmark.FsCache.WearOut
import BpftimeBenchmark.Redis.FastNotify
import BpftimeBenchmark.Redis.Waits
import BpftimeBenchmark.Redis.HiddenFailures
import BpftimeBenchmark.Lib.Pattern
import BpftimeBenchmark.Lib.Script
import BpftimeBenchmark.Bench.Processes
import BpftimeBenchmark.Lib.ScriptRules
import BpftimeBenchmark.Bench.SslNginx
import BpftimeBenchmark.Bench.SslAccounting
import BpftimeBenchmark.Bench.Syscount
import BpftimeBenchmark.Bench.SyscountAccounting
import BpftimeBenchmark.Bench.Evidence
import BpftimeBenchmark.Bench.ExitStatus
import BpftimeBenchmark.Lib.Decimal
import BpftimeBenchmark.Lib.Labels
import BpftimeBenchmark.Bench.Statistics
import BpftimeBenchmark.Bench.Figure
import BpftimeBenchmark.FsCache.Served
import BpftimeBenchmark.FsCache.Duplicates
import BpftimeBenchmark.FsCache.Alternation
import BpftimeBenchmark.FsCache.Traversals
import BpftimeBenchmark.Redis.BatchCounter
import BpftimeBenchmark.Redis.PlainCalls
import BpftimeBenchmark.Fuse.Passthrough
import BpftimeBenchmark.Ci.RunExample
import BpftimeBenchmark.Bench.SavedResults
import BpftimeBenchmark.Deepflow.Statistics
import BpftimeBenchmark.Micro.CutOutput
import BpftimeBenchmark.Micro.MergedRuns
import BpftimeBenchmark.Micro.RunStatistics
import BpftimeBenchmark.Redis.PocMinimal
import BpftimeBenchmark.Bench.Cleanup
import BpftimeBenchmark.Bench.PerfTarget
import BpftimeBenchmark.Bench.AttachMethod
import BpftimeBenchmark.Bench.Report
import BpftimeBenchmark.Bench.Reporting
import BpftimeBenchmark.Bench.SyscountLog
import BpftimeBenchmark.Ci.JobSummary
import BpftimeBenchmark.Fuse.Interrupts
import BpftimeBenchmark.Micro.OutputMonitor
import BpftimeBenchmark.Redis.Config
import BpftimeBenchmark.FsCache.Transparency
import BpftimeBenchmark.FsCache.UserMemory
import BpftimeBenchmark.Redis.ExactlyOnce
import BpftimeBenchmark.Fuse.Counts
import BpftimeBenchmark.Micro.MapOperations
import BpftimeBenchmark.Redis.Sweep
import BpftimeBenchmark.Gpu.VectorAdd
import BpftimeBenchmark.Gpu.Nvbit
import BpftimeBenchmark.Fuse.Handles
import BpftimeBenchmark.Fuse.PythonFs
import BpftimeBenchmark.Micro.UprobeReport

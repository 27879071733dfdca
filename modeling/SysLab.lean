import SysLab.Foundation.Transition
import SysLab.Foundation.Twin
import SysLab.Foundation.Buffer
import SysLab.Foundation.Transcript
import SysLab.Foundation.SlotTable
import SysLab.Foundation.Channel
import SysLab.Foundation.Wire
import SysLab.Foundation.Relay
import SysLab.Foundation.Loop
import SysLab.Foundation.Descriptor
import SysLab.Foundation.KeyValue
import SysLab.PartB.Syscall
import SysLab.PartB.PollServer
import SysLab.PartB.PollServerTable
import SysLab.PartB.PollServerIsolation
import SysLab.PartB.PollServerEcho
import SysLab.PartB.PollServerLimit
import SysLab.PartB.EpollServer
import SysLab.PartB.EpollServerTable
import SysLab.PartB.EpollServerBatch
import SysLab.PartB.EpollServerEcho
import SysLab.PartB.EpollServerSurvival
import SysLab.PartB.EpollServerHalfClose
import SysLab.PartB.IoUringServer
import SysLab.PartB.IoUringOwnership
import SysLab.PartB.IoUringLinear
import SysLab.PartB.IoUringEcho
import SysLab.PartB.IoUringQueue
import SysLab.PartB.FullTransfer
import SysLab.PartB.LoadClient
import SysLab.PartB.LoadMain
import SysLab.PartB.LoadPartition
import SysLab.PartB.LoadSlots
import SysLab.PartB.LoadRun
import SysLab.PartB.LoadArithmetic
import SysLab.Foundation.Partition
import SysLab.PartB.LockStep
import SysLab.PartB.ExtractMetric
import SysLab.PartA.MyFread
import SysLab.PartA.MyFreadCalls
import SysLab.PartA.ReadBenchmarks
import SysLab.PartB.PollEpoll
import SysLab.PartB.Action
import SysLab.PartB.PollServerActions
import SysLab.PartB.EpollServerActions
import SysLab.PartB.Transient
import SysLab.PartB.Alignment
import SysLab.Foundation.LinkedList
import SysLab.Foundation.WorkQueue
import SysLab.PartB.ThreadpoolServer
import SysLab.PartB.ThreadpoolQueue
import SysLab.PartB.ThreadpoolProgress
import SysLab.PartB.Network
import SysLab.PartB.ThreadpoolLoad
import SysLab.PartB.ThreadpoolLive
import SysLab.Foundation.CounterRing
import SysLab.PartB.SubmissionRing
import SysLab.PartB.CompletionRing
import SysLab.PartB.WorkerMain
import SysLab.PartB.ThreadpoolWorker
import SysLab.PartA.WriteBenchmark
import SysLab.PartA.ReadCounts
import SysLab.Foundation.Comparison
import SysLab.PartB.Latency
import SysLab.Foundation.Numeral
import SysLab.PartA.Options
import SysLab.PartB.Options
import SysLab.UnsignedOptions
import SysLab.PartB.LoadOptions
import SysLab.Foundation.CommandLine
import SysLab.PartB.ServerOptions
import SysLab.PartB.IntOptions
import SysLab.Foundation.GrowArray
import SysLab.Foundation.Segments
import SysLab.PartA.SizesCsv
import SysLab.Foundation.Termination
import SysLab.Foundation.RelayWork
import SysLab.PartB.LockStepRuns
import SysLab.PartA.Benchmarks
import SysLab.PartA.BenchMain
import SysLab.PartA.BenchRuns
import SysLab.Foundation.Csv
import SysLab.Foundation.Grouping
import SysLab.PartA.PlotResults
import SysLab.PartA.PlotReport
import SysLab.PartB.ThreadpoolRank
import SysLab.PartB.ThreadpoolRuns
import SysLab.PartB.ThreadpoolFits
import SysLab.Foundation.EchoService
import SysLab.PartB.ThreadpoolEcho
import SysLab.PartB.EchoServers
import SysLab.PartB.IoUringService
import SysLab.PartB.LoadReport
import SysLab.PartB.RunBenchmarks
import SysLab.Foundation.Pace
import SysLab.PartB.PollLoad
import SysLab.PartB.PollLoadServed
import SysLab.PartB.PollLoadBeside
import SysLab.PartB.PollLoadPaced
import SysLab.PartB.PollLoadSlots
import SysLab.PartB.PollLoadRuns
import SysLab.PartB.PollLoadFits
import SysLab.PartB.PollLoadRefused
import SysLab.PartB.PollLoadCrowd

import RostamBench.Lib.Transition
import RostamBench.Lib.Project
import RostamBench.Lib.BigEndian
import RostamBench.Lib.LittleEndian
import RostamBench.Lib.BufWriter
import RostamBench.Lib.Prog
import RostamBench.Lib.Watched
import RostamBench.Lib.CellProg
import RostamBench.Lib.Interleave
import RostamBench.Lib.Rely
import RostamBench.Lib.Text
import RostamBench.Lib.Awk
import RostamBench.Lib.Shell
import RostamBench.Lib.SortedLines
import RostamBench.Lib.Json
import RostamBench.Lib.JsonDoc
import RostamBench.Lib.Locking
import RostamBench.Lib.Tally
import RostamBench.Lib.Balance
import RostamBench.Lib.Lockstep
import RostamBench.Lib.ClosedLoop
import RostamBench.Lib.Ranks
import RostamBench.Lib.Spread
import RostamBench.Lib.ExchangeSort
import RostamBench.Netkv.Pconn
import RostamBench.Netkv.PconnStream
import RostamBench.Netkv.PconnDelivery
import RostamBench.Netkv.PconnSafety
import RostamBench.Netkv.ReadLoop
import RostamBench.Netkv.PipeRoute
import RostamBench.Netkv.PipeRouteSafety
import RostamBench.Netkv.PipeTracking
import RostamBench.Netkv.PipeCall
import RostamBench.Netkv.RedisSync
import RostamBench.Server.Handlers
import RostamBench.Server.Dispatcher
import RostamBench.Server.RecordUpdate
import RostamBench.Server.Slices
import RostamBench.Netkv.CasIncr
import RostamBench.Netkv.Workload
import RostamBench.Netkv.LoadGen
import RostamBench.Netkv.Preload
import RostamBench.Netkv.Aerospike
import RostamBench.Netkv.PairedOps
import RostamBench.Netkv.OpArgs
import RostamBench.Netkv.CasGen
import RostamBench.Netkv.Loopback
import RostamBench.Netkv.ResultLine
import RostamBench.Netkv.Charts
import RostamBench.Netkv.Summary
import RostamBench.Netkv.SweepSummary
import RostamBench.Netkv.Listeners
import RostamBench.Netkv.LoopbackRun
import RostamBench.Netkv.LoopbackRefine
import RostamBench.Netkv.LoopbackSafety
import RostamBench.Netkv.LocalTiers
import RostamBench.Netvec.Run
import RostamBench.Netvec.Accounting
import RostamBench.Netvec.Percentiles
import RostamBench.Netvec.Bodies
import RostamBench.Netvec.Bulk
import RostamBench.Netvec.Setup
import RostamBench.Netvec.VecSweep
import RostamBench.Vectordbbench.Wire
import RostamBench.Vectordbbench.Client
import RostamBench.Vectordbbench.Load
import RostamBench.Vectordbbench.InsertCount
import RostamBench.Vectordbbench.Filter
import RostamBench.Vectordbbench.Fallback
import RostamBench.Vectordbbench.Index
import RostamBench.Vectordbbench.Install
import RostamBench.Sift1m.Fvecs
import RostamBench.Sift1m.Reshape
import RostamBench.Sift1m.Search
import RostamBench.Sift1m.Recall

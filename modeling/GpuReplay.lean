import GpuReplay.Lib.Bytes
import GpuReplay.Lib.ByteMem
import GpuReplay.Lib.Except
import GpuReplay.Lib.Stdio
import GpuReplay.Lib.RadixTree
import GpuReplay.Lib.Post
import GpuReplay.Lib.History
import GpuReplay.Lib.Text
import GpuReplay.Lib.Run
import GpuReplay.Lib.LinkedList
import GpuReplay.Lib.Cursor
import GpuReplay.Lib.Logged
import GpuReplay.Replayer.Defs
import GpuReplay.Replayer.GpuMem
import GpuReplay.Replayer.Entry
import GpuReplay.Replayer.MemInit
import GpuReplay.Replayer.PageTable
import GpuReplay.Replayer.Context
import GpuReplay.Replayer.Replay
import GpuReplay.Replayer.RegList
import GpuReplay.Replayer.MemCheck
import GpuReplay.Proofs.Uncounted
import GpuReplay.Replayer.PhysCalls
import GpuReplay.Driver.MemDump
import GpuReplay.Driver.MmuMode
import GpuReplay.Driver.MmuDump
import GpuReplay.Driver.IoHistory
import GpuReplay.Driver.Recorder
import GpuReplay.Driver.RegSnapshot
import GpuReplay.Driver.CpuMap
import GpuReplay.Driver.Mappings
import GpuReplay.Driver.Session
import GpuReplay.Driver.SyncList
import GpuReplay.Driver.Syncset
import GpuReplay.Driver.TlStream
import GpuReplay.Driver.Tracepoints
import GpuReplay.Driver.Timeline
import GpuReplay.Proofs.GpuMem
import GpuReplay.Proofs.McFormat
import GpuReplay.Proofs.MemInit
import GpuReplay.Proofs.PgtFormat
import GpuReplay.Proofs.PageTable
import GpuReplay.Proofs.Isolation
import GpuReplay.Proofs.Replay
import GpuReplay.Proofs.FlushId
import GpuReplay.Proofs.MmuCommands
import GpuReplay.Proofs.LogTrace
import GpuReplay.Proofs.IoBounds
import GpuReplay.Proofs.McSafety
import GpuReplay.Proofs.RegLog
import GpuReplay.Proofs.RegOrder
import GpuReplay.NanoDriver.Device
import GpuReplay.NanoDriver.Irq
import GpuReplay.NanoDriver.Mempool
import GpuReplay.NanoDriver.PoolCalls
import GpuReplay.Proofs.Mempool
import GpuReplay.Proofs.Recorder
import GpuReplay.Proofs.PageCount
import GpuReplay.Proofs.Session
import GpuReplay.Proofs.JobIrq
import GpuReplay.Lib.WriteList
import GpuReplay.Proofs.MemCheck
import GpuReplay.Proofs.Reset
import GpuReplay.Proofs.JobPages
import GpuReplay.Proofs.Timeline
import GpuReplay.Proofs.UsedAtom
import GpuReplay.Proofs.Walks
import GpuReplay.Proofs.SyncAs
import GpuReplay.Proofs.Contents
import GpuReplay.Proofs.LeafRestore
import GpuReplay.Proofs.LogLines
import GpuReplay.Proofs.UserNodes
import GpuReplay.Proofs.Translation
import GpuReplay.Proofs.PgtSafety
import GpuReplay.Proofs.PhysCalls
import GpuReplay.Proofs.Mappings
import GpuReplay.Proofs.SyncList
import GpuReplay.Proofs.PoolGrow
import GpuReplay.Proofs.IrqAck
import GpuReplay.Proofs.IoHistory
import GpuReplay.Proofs.Retention
import GpuReplay.Proofs.Validation
import GpuReplay.Proofs.Device
import GpuReplay.Proofs.RegSnapshot
import GpuReplay.Proofs.EntryEncoding
import GpuReplay.Proofs.Syncset
import GpuReplay.Proofs.Checkpoint
import GpuReplay.Proofs.Clean
import GpuReplay.Proofs.JobHead
import GpuReplay.Lib.Twins
import GpuReplay.Proofs.Clocks
import GpuReplay.Proofs.JobAccounts
import GpuReplay.Replayer.Demo
import GpuReplay.Lib.Confined
import GpuReplay.Proofs.Confinement
import GpuReplay.Proofs.Image
import GpuReplay.Proofs.Oblivious
import GpuReplay.Proofs.Reenactment
import GpuReplay.NanoDriver.Lifecycle
import GpuReplay.Proofs.Lifecycle
import GpuReplay.Proofs.TuneMc
import GpuReplay.NanoDriver.Requests
import GpuReplay.Proofs.Requests
import GpuReplay.Proofs.Snapshots

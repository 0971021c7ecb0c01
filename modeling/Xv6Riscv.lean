import Xv6Riscv.Lib.Transition
import Xv6Riscv.Lib.Cyclic
import Xv6Riscv.Proc.Pcb
import Xv6Riscv.Proc.Table
import Xv6Riscv.Proc.Select
import Xv6Riscv.Proc.Levels
import Xv6Riscv.Uni.Kernel
import Xv6Riscv.Uni.Rotation
import Xv6Riscv.Uni.Starvation
import Xv6Riscv.Uni.Selection
import Xv6Riscv.Lib.Locks
import Xv6Riscv.Smp.Interrupts
import Xv6Riscv.Smp.Machine
import Xv6Riscv.Smp.Edges
import Xv6Riscv.Smp.Exclusivity
import Xv6Riscv.Smp.Selection
import Xv6Riscv.Smp.Slices
import Xv6Riscv.Proc.Counters
import Xv6Riscv.Proc.ReadyTime
import Xv6Riscv.Proc.Elapsed
import Xv6Riscv.Smp.Accounting
import Xv6Riscv.Uni.Budget
import Xv6Riscv.Lib.Monitor
import Xv6Riscv.Proc.Channels
import Xv6Riscv.Sync.Uart
import Xv6Riscv.Sync.Wakeup
import Xv6Riscv.Sync.SleepLock
import Xv6Riscv.Sync.Exclusion
import Xv6Riscv.Proc.Family
import Xv6Riscv.Smp.ExitWait
import Xv6Riscv.Smp.Kill
import Xv6Riscv.Disk.Buffers
import Xv6Riscv.Uni.Lockstep
import Xv6Riscv.Log.Commit
import Xv6Riscv.Log.Ops
import Xv6Riscv.Log.Sync
import Xv6Riscv.Fs.Image
import Xv6Riscv.Fs.Inode
import Xv6Riscv.Fs.Runs
import Xv6Riscv.Fs.Bmap
import Xv6Riscv.Fs.Content
import Xv6Riscv.Fs.Invariant
import Xv6Riscv.Fs.Names
import Xv6Riscv.Fs.Calls
import Xv6Riscv.Fs.Files
import Xv6Riscv.Fs.Create
import Xv6Riscv.Fs.Links
import Xv6Riscv.Fs.Sections
import Xv6Riscv.Fs.System
import Xv6Riscv.Lib.DirTree
import Xv6Riscv.Fs.Tree
import Xv6Riscv.Fs.Descriptors
import Xv6Riscv.Lib.Tally
import Xv6Riscv.Fs.Kernel
import Xv6Riscv.Fs.Holders
import Xv6Riscv.Fs.Syscalls
import Xv6Riscv.Fs.Namespace
import Xv6Riscv.Dev.Transmit
import Xv6Riscv.Lib.Split
import Xv6Riscv.Lib.DoublyLinked
import Xv6Riscv.Bench.Records
import Xv6Riscv.Bench.Parser
import Xv6Riscv.Lib.Stores
import Xv6Riscv.Proc.Psinfo
import Xv6Riscv.Lib.Ring
import Xv6Riscv.Disk.Bcache
import Xv6Riscv.Disk.Coherence
import Xv6Riscv.Log.Pool
import Xv6Riscv.Disk.Virtio
import Xv6Riscv.Disk.Requests
import Xv6Riscv.Ipc.Pipe
import Xv6Riscv.Ipc.Reads
import Xv6Riscv.Ipc.Sleepers
import Xv6Riscv.Dev.Console
import Xv6Riscv.Lib.Radix
import Xv6Riscv.Vm.Memory
import Xv6Riscv.Vm.Table
import Xv6Riscv.Vm.Mapping
import Xv6Riscv.Vm.PageMap
import Xv6Riscv.Vm.UserMemory
import Xv6Riscv.Vm.Grow
import Xv6Riscv.Vm.ProcTable
import Xv6Riscv.Vm.Fork
import Xv6Riscv.Vm.Copy
import Xv6Riscv.Vm.Exec
import Xv6Riscv.Vm.Sbrk
import Xv6Riscv.Bench.Streams
import Xv6Riscv.Fs.Itable
import Xv6Riscv.User.Grep
import Xv6Riscv.User.Shared

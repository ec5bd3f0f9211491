import OsSim.Lib.Transition
import OsSim.Lib.BitField
import OsSim.Lib.Custody
import OsSim.Lib.NodeHeap
import OsSim.Lib.Tiling
import OsSim.Lib.Fifo
import OsSim.Lib.Within
import OsSim.Lib.Scanf
import OsSim.Paging.Pte
import OsSim.Paging.Entries
import OsSim.Paging.Memphy
import OsSim.Paging.Mm
import OsSim.Paging.Areas
import OsSim.Paging.PageQueue
import OsSim.Paging.Init
import OsSim.Paging.Format
import OsSim.Paging.Device
import OsSim.Paging.Vm
import OsSim.Paging.System
import OsSim.Paging.Frames
import OsSim.Paging.Mapping
import OsSim.Paging.Effect
import OsSim.Paging.Bounds
import OsSim.Paging.Exclusivity
import OsSim.Paging.Bookkeeping
import OsSim.Paging.Isolation
import OsSim.Paging.Contents
import OsSim.Paging.Break
import OsSim.Paging.SwapFrames
import OsSim.Paging.Mapped
import OsSim.Paging.Faults
import OsSim.Paging.Private
import OsSim.Paging.Granted
import OsSim.Paging.TableBounds
import OsSim.Paging.Replacement
import OsSim.Paging.Cpu
import OsSim.Paging.Transfer
import OsSim.Paging.Sizes
import OsSim.Paging.Registers
import OsSim.Paging.FreeList
import OsSim.Paging.FirstFit
import OsSim.Paging.FrameNumbers
import OsSim.Paging.Collect
import OsSim.Paging.FrameLists
import OsSim.Paging.Exhaustion
import OsSim.Paging.Regions
import OsSim.Paging.Partition
import OsSim.Paging.Overrun
import OsSim.Paging.RegionBounds
import OsSim.Loader.Load
import OsSim.Loader.RoundTrip
import OsSim.Loader.Malformed
import OsSim.Loader.Configuration
import OsSim.Timer.Protocol
import OsSim.Timer.DeviceList
import OsSim.Timer.Barrier
import OsSim.Timer.Progress
import OsSim.Timer.Loading
import OsSim.Sched.Queue
import OsSim.Sched.Mlq
import OsSim.Sched.Slots
import OsSim.Sched.Machine
import OsSim.Sched.Custody
import OsSim.Sched.Stopping
import OsSim.Sched.Makespan
import OsSim.Sched.Fifo
import OsSim.Sched.Termination
import OsSim.Sched.Waiting
import OsSim.Sched.Selection
import OsSim.Sched.Quotas
import OsSim.Sched.Quantum
import OsSim.Sched.Ending
import OsSim.Sched.Overflow
import OsSim.Main.Threads
import OsSim.Main.Coupling
import OsSim.Main.Components
import OsSim.Main.Progress
import OsSim.Main.Memory
import OsSim.Main.Files
import OsSim.Main.Rate
import OsSim.Main.Makespan

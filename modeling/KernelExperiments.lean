import KernelExperiments.Foundation.Runs
import KernelExperiments.Foundation.WhileLoops
import KernelExperiments.Foundation.TokenStream
import KernelExperiments.Foundation.LinkedNodes
import KernelExperiments.Foundation.Interleaving
import KernelExperiments.Foundation.ModuleLifecycle
import KernelExperiments.Foundation.BlockMemory
import KernelExperiments.Foundation.WriteLog
import KernelExperiments.Foundation.UserCopy
import KernelExperiments.Foundation.RingFifo
import KernelExperiments.Foundation.Gaps
import KernelExperiments.Foundation.LinkedRing
import KernelExperiments.Foundation.Rounds
import KernelExperiments.Foundation.Commuting
import KernelExperiments.Foundation.PrintingProcesses
import KernelExperiments.Foundation.Joining
import KernelExperiments.Ramdisk.Driver
import KernelExperiments.Ramdisk.RequestLoop
import KernelExperiments.Ramdisk.Draining
import KernelExperiments.Ramdisk.RangeCheck
import KernelExperiments.Ramdisk.RangeSoundness
import KernelExperiments.Ramdisk.SectorStore
import KernelExperiments.Ramdisk.Completion
import KernelExperiments.Ramdisk.SizeParameter
import KernelExperiments.Ramdisk.Geometry
import KernelExperiments.Ramdisk.Elevator
import KernelExperiments.Ramdisk.Service
import KernelExperiments.BlockDevice.RequestHandler
import KernelExperiments.BlockDevice.Loading
import KernelExperiments.BlockDevice.ResourceLedger
import KernelExperiments.BlockDevice.DeviceFile
import KernelExperiments.BlockDevice.RangeChecks
import KernelExperiments.BlockDevice.WriteAtomicity
import KernelExperiments.BlockDevice.LastWritten
import KernelExperiments.BlockDevice.RetryingWriters
import KernelExperiments.SharedMapping.Driver
import KernelExperiments.SharedMapping.Loading
import KernelExperiments.SharedMapping.AddressSpace
import KernelExperiments.SharedMapping.PageIdentity
import KernelExperiments.SharedMapping.Protection
import KernelExperiments.SharedMapping.MmapContract
import KernelExperiments.SharedMapping.Remapping
import KernelExperiments.SharedMapping.FaultRange
import KernelExperiments.SharedMapping.Accesses
import KernelExperiments.SharedMapping.SharedObject
import KernelExperiments.SharedMapping.TestPrograms
import KernelExperiments.SharedMapping.Lifetime
import KernelExperiments.ProcMessage.Driver
import KernelExperiments.ProcMessage.Loading
import KernelExperiments.ProcMessage.Readers
import KernelExperiments.ProcMessage.Termination
import KernelExperiments.ProcMessage.FailedWrites
import KernelExperiments.ProcMessage.Pieces
import KernelExperiments.ProcMessage.ConcurrentCalls
import KernelExperiments.ProcMessage.SerialCalls
import KernelExperiments.CharDevice.Loading
import KernelExperiments.CharDevice.Reload
import KernelExperiments.Myfs.Inode
import KernelExperiments.Myfs.FileOperations
import KernelExperiments.Myfs.Access
import KernelExperiments.Myfs.Records
import KernelExperiments.Myfs.Stream
import KernelExperiments.Myfs.ConcurrentWriters
import KernelExperiments.Myfs.Isolation
import KernelExperiments.Myfs.Tree
import KernelExperiments.Myfs.Entries
import KernelExperiments.Myfs.TreeInvariant
import KernelExperiments.Myfs.References
import KernelExperiments.Myfs.Failures
import KernelExperiments.Myfs.Loading
import KernelExperiments.Myfs.Placement
import KernelExperiments.Myfs.TestClients
import KernelExperiments.StringList.Program
import KernelExperiments.StringList.Echo
import KernelExperiments.StringList.InputEnd
import KernelExperiments.Threads.SharedCounter
import KernelExperiments.Threads.Ending
import KernelExperiments.Threads.JoinOrder
import KernelExperiments.Processes.PipeOrder
import KernelExperiments.Processes.Ending
import KernelExperiments.Processes.TaskList
import KernelExperiments.Processes.ForkExec

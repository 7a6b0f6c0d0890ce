import Lkm.Base.Bytes
import Lkm.Base.Callbacks
import Lkm.Base.Decimal
import Lkm.Base.Drain
import Lkm.Base.Loads
import Lkm.Base.LockSets
import Lkm.Base.Prog
import Lkm.Base.Protocol
import Lkm.Base.Rollback
import Lkm.Base.Threads
import Lkm.Base.Transitions
import Lkm.BlockDevice.Bounds
import Lkm.BlockDevice.Driver
import Lkm.BlockDevice.Store
import Lkm.CharDevice.MyDev
import Lkm.Debugfs.Calc
import Lkm.Deferred.Modules
import Lkm.Ftrace.Calls
import Lkm.Ftrace.Hooks
import Lkm.Ftrace.Loads
import Lkm.Loading.Histories
import Lkm.Loading.Modules
import Lkm.MmapDevice.Array
import Lkm.MmapDevice.Driver
import Lkm.MmapDevice.Test
import Lkm.MutexDevice.Driver
import Lkm.MutexDevice.Poc
import Lkm.MutexDevice.Reads
import Lkm.Netlink.Exchange
import Lkm.Pci.CodecDriver
import Lkm.Pci.CodecResources
import Lkm.Pci.HandlerLifetime
import Lkm.Pci.HelloDevice
import Lkm.Pci.HelloDriver
import Lkm.Pci.InterruptLine
import Lkm.Rcu.Driver
import Lkm.Rcu.Reads
import Lkm.Rcu.Reclamation
import Lkm.Simplefs.Allocator
import Lkm.Simplefs.Appends
import Lkm.Simplefs.Bounds
import Lkm.Simplefs.Crash
import Lkm.Simplefs.Driver
import Lkm.Simplefs.FailedCreate
import Lkm.Simplefs.FailedWrite
import Lkm.Simplefs.FileContents
import Lkm.Simplefs.FileEffects
import Lkm.Simplefs.Files
import Lkm.Simplefs.FilesCrash
import Lkm.Simplefs.FilesRefinement
import Lkm.Simplefs.Format
import Lkm.Simplefs.Fresh
import Lkm.Simplefs.Integrity
import Lkm.Simplefs.Layout
import Lkm.Simplefs.Listing
import Lkm.Simplefs.Locks
import Lkm.Simplefs.Logic.Calls
import Lkm.Simplefs.Logic.Coherence
import Lkm.Simplefs.Logic.Create
import Lkm.Simplefs.Logic.Exact
import Lkm.Simplefs.Logic.Inodes
import Lkm.Simplefs.Logic.Loops
import Lkm.Simplefs.Logic.Run
import Lkm.Simplefs.Logic.Sequential
import Lkm.Simplefs.Logic.Specs
import Lkm.Simplefs.Logic.Tables
import Lkm.Simplefs.Logic.Write
import Lkm.Simplefs.Mkfs
import Lkm.Simplefs.Ownership
import Lkm.Simplefs.Placement
import Lkm.Simplefs.Ready.Basic
import Lkm.Simplefs.Ready.Create
import Lkm.Simplefs.Ready.Mount
import Lkm.Simplefs.Ready.Write
import Lkm.Simplefs.Records
import Lkm.Simplefs.References
import Lkm.Simplefs.Refinement
import Lkm.Simplefs.Searches
import Lkm.Simplefs.State
import Lkm.Simplefs.Tree
import Lkm.Simplefs.Vfs
import Lkm.Simplefs.WellFormed
import Lkm.Sysfs.Attributes
import Lkm.UdpSend.Driver
import Lkm.UdpSend.Unload

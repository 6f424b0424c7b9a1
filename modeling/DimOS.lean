import DimOS.Concurrency.MutexRuns
import DimOS.Concurrency.ConditionRuns
import DimOS.Concurrency.SemaphoreRuns
import DimOS.Concurrency.QueueRuns
import DimOS.Process.Parking
import DimOS.Process.ReadLoop
import DimOS.Process.SchedulerStep
import DimOS.Process.ContextSwitch
import DimOS.Memory.PmmSearch
import DimOS.Memory.BootMap
import DimOS.Memory.HeapCanonical
import DimOS.Memory.HeapBestFit
import DimOS.Memory.VmmContract
import DimOS.Memory.VmmContiguous
import DimOS.Memory.VmmFrameZero
import DimOS.Devices.Framebuffer
import DimOS.Filesystem.RamDiskLayout
import DimOS.Filesystem.RamDiskStores
import DimOS.Filesystem.RamDiskHistory
import DimOS.Filesystem.VfsRemoval
import DimOS.Filesystem.VfsNames
import DimOS.Filesystem.VfsClean
import DimOS.Filesystem.VfsOpenRuns
import DimOS.Filesystem.VfsListing
import DimOS.Filesystem.VfsEntryNames
import DimOS.Filesystem.VfsLookup
import DimOS.Filesystem.VfsCreation
import DimOS.Filesystem.VfsStoreRuns
import DimOS.Filesystem.RamDiskListing
import DimOS.Filesystem.RamDiskDropping
import DimOS.Cpp.StringSplit
import DimOS.Libc.PrintfFormats
import DimOS.Devices.KeyboardModifiers
import DimOS.Process.Keystrokes
import DimOS.Shell.ReadLine
import DimOS.Graphics.FillRect
import DimOS.Shell.WorkingDirectory
import DimOS.Shell.InputSafety
import DimOS.Memory.IndexOrder
import DimOS.Cpp.VectorRuns
import DimOS.Cpp.StringArrayRuns
import DimOS.Memory.PageOwners
import DimOS.Memory.KernelHeap
import DimOS.Interrupts.InterruptEntry
import DimOS.Interrupts.InterruptControllers
import DimOS.Shell.Session

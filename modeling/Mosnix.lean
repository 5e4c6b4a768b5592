import Mosnix.Kmalloc.Tiling
import Mosnix.Kmalloc.Release
import Mosnix.Kmalloc.Argv
import Mosnix.Kmalloc.ArgvCopy
import Mosnix.Sched.Invariant
import Mosnix.Sched.FirstDispatch
import Mosnix.Fat.Name
import Mosnix.Fat.Bounds
import Mosnix.Fs.PathName
import Mosnix.Fs.Mount
import Mosnix.Fs.DirRead
import Mosnix.Fs.Release
import Mosnix.Os.FileTable
import Mosnix.Os.Files
import Mosnix.Os.FatFiles
import Mosnix.Os.Descriptors
import Mosnix.Os.Fcntl
import Mosnix.Os.Transfer
import Mosnix.Sched.Semaphores
import Mosnix.Sd.Cache
import Mosnix.Sd.Read
import Mosnix.Sd.Geometry
import Mosnix.Sd.ChipSelect
import Mosnix.Sd.CardSize
import Mosnix.Libc.Clock
import Mosnix.Libc.Options
import Mosnix.Shell.Command
import Mosnix.Shell.Div10
import Mosnix.Target.SerialFlow
import Mosnix.Target.SpiTransfer
import Mosnix.Target.MonoClock
import Mosnix.Target.Syscall
import Mosnix.Target.SerialRead
import Mosnix.Sched.RunOrder
import Mosnix.Sched.Contexts
import Mosnix.Os.Persistence

import Hydrax.Mmu.Cycle
import Hydrax.Mmu.MasterPage
import Hydrax.Mmu.Recycled
import Hydrax.Sched.Credentials
import Hydrax.Sched.Wait
import Hydrax.Sched.Exit
import Hydrax.Io.Pipe
import Hydrax.Io.Kbd
import Hydrax.Io.PipeRuns
import Hydrax.Sync.Mutex
import Hydrax.Sync.SemaphoreSleep
import Hydrax.Sched.Kill
import Hydrax.Sched.Disposition
import Hydrax.Sched.SigWait
import Hydrax.Vfs.GetPath
import Hydrax.Initrd.Read
import Hydrax.Vfs.References
import Hydrax.Io.Dup
import Hydrax.Io.Failures
import Hydrax.Exec
import Hydrax.Procfs
import Hydrax.Video
import Hydrax.Rtc
import Hydrax.Printk
import Hydrax.EnvBlocks
import Hydrax.StackCopy
import Hydrax.Mmu.DupVisits
import Hydrax.Mmu.Identity
import Hydrax.System
import Hydrax.Sync.Waiters
import Hydrax.Symclean

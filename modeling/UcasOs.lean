import UcasOs.Arch.SdCard
import UcasOs.Arch.Switching
import UcasOs.Drivers.Refresh
import UcasOs.Drivers.Terminal
import UcasOs.Exception.Syscall
import UcasOs.Foundation.Run
import UcasOs.Fs.Access
import UcasOs.Fs.Allocators
import UcasOs.Fs.Boot
import UcasOs.Fs.ClosedDescriptors
import UcasOs.Fs.Failures
import UcasOs.Fs.FileSize
import UcasOs.Fs.Isolation
import UcasOs.Fs.FileRefinement
import UcasOs.Fs.Listings
import UcasOs.Fs.OffsetPaths
import UcasOs.Fs.Paths
import UcasOs.Fs.Placement
import UcasOs.Fs.RoundTrip
import UcasOs.Libs.FreeList
import UcasOs.Libs.Mailbox
import UcasOs.Libs.MailboxHandles
import UcasOs.Libs.MailboxMessages
import UcasOs.Mm.Evictions
import UcasOs.Mm.Reclaim
import UcasOs.Mm.Requests
import UcasOs.Mm.Reservations
import UcasOs.Mm.SwapArea
import UcasOs.Mm.Transparency
import UcasOs.Sched.Conditions
import UcasOs.Sched.Cursors
import UcasOs.Sched.Deadlines
import UcasOs.Sched.KilledWaiters
import UcasOs.Sched.MutexWaiters
import UcasOs.Sched.MutualExclusion
import UcasOs.Sched.Priorities
import UcasOs.Sched.QueueLists
import UcasOs.Sched.Selection
import UcasOs.Sched.Sleepers
import UcasOs.Sched.Status
import UcasOs.Software.Cat
import UcasOs.Software.CommandLine
import UcasOs.Software.Numbers
import UcasOs.Software.ShellDescriptors

import Ya2yOS.Mm.Shootdown
import Ya2yOS.Mm.UserCopy
import Ya2yOS.Task.FutexCount
import Ya2yOS.Task.FutexKey
import Ya2yOS.Task.FutexTimer
import Ya2yOS.Task.FutexWake
import Ya2yOS.Task.Identity
import Ya2yOS.Task.Dispatch
import Ya2yOS.Mm.VmaRuns
import Ya2yOS.Mm.SharedGroups
import Ya2yOS.Timer.TimerCondvar
import Ya2yOS.Task.FetchTask
import Ya2yOS.Mm.CanonicalArgs
import Ya2yOS.Fs.PipeFifo
import Ya2yOS.Ipc.MsgWakeups
import Ya2yOS.Fs.PipeWakeups
import Ya2yOS.Fs.RecordDeadlock
import Ya2yOS.Fs.RecordWakeups
import Ya2yOS.Mm.BuddySafety
import Ya2yOS.Task.ProcessReap
import Ya2yOS.Signal.InterruptWakeups
import Ya2yOS.Signal.MaskRuns
import Ya2yOS.Fs.NumberedAccess
import Ya2yOS.Fs.PageFresh
import Ya2yOS.Fs.PrefixLaw
import Ya2yOS.Mm.ShmKeys
import Ya2yOS.Fs.AppendWrite
import Ya2yOS.Net.UnixWait
import Ya2yOS.Fs.TaskRwLock
import Ya2yOS.Mm.HoleSearch
import Ya2yOS.Signal.StopContinue
import Ya2yOS.Net.ListenTable
import Ya2yOS.Net.SocketMessages
import Ya2yOS.Mm.UserRange
import Ya2yOS.Task.FutexScan
import Ya2yOS.Fs.AdvisoryLocks
import Ya2yOS.Fs.LockQuery
import Ya2yOS.Mm.FrameCache
import Ya2yOS.Task.Vruntime
import Ya2yOS.Task.Seccomp
import Ya2yOS.Signal.GroupSignal
import Ya2yOS.Fs.EpollBinding
import Ya2yOS.Fs.EventFd
import Ya2yOS.Fs.SymlinkPaths

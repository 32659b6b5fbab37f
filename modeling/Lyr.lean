import Lyr.Dev.AsyncIo
import Lyr.Dev.Clock
import Lyr.Dev.ConsoleInput
import Lyr.Dev.Evdev
import Lyr.Dev.Partition
import Lyr.Dev.Rtc
import Lyr.Fs.DescriptorShare
import Lyr.Fs.Ext2Mount
import Lyr.Fs.FilePosition
import Lyr.Fs.InstancesApart
import Lyr.Fs.PathAgree
import Lyr.Fs.Permission
import Lyr.Fs.PipeFifo
import Lyr.Fs.TmpfsOrder
import Lyr.Mm.PagingRefine
import Lyr.Mm.PmmInvariant
import Lyr.Mm.RegionsApart
import Lyr.Mm.UnmapRange
import Lyr.Mm.VadInvariant
import Lyr.Mm.VadSearch
import Lyr.Mm.WorldCounts
import Lyr.Mm.ZeroFill
import Lyr.Net.FrameBounds
import Lyr.Net.Listeners
import Lyr.Net.ArpCache
import Lyr.Net.TcpDemux
import Lyr.Net.TcpStream
import Lyr.Net.TcpWindow
import Lyr.Net.UdpBinding
import Lyr.Net.UnixPeers
import Lyr.Sched.Identity
import Lyr.Sched.ReapOnce
import Lyr.Sched.ScheduleInvariant
import Lyr.Sched.Session
import Lyr.Sched.SignalDelivery
import Lyr.Sched.SignalNest
import Lyr.Sched.SignalReturn
import Lyr.Sched.StopContinue
import Lyr.Sched.WaitStatus
import Lyr.Sched.Waitq
import Lyr.Sys.Confine
import Lyr.Sys.ForkCopy
import Lyr.Sys.InitScript
import Lyr.Sys.NormalPath
import Lyr.Sys.Privilege

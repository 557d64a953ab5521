import MemoryMonitor.Monitor.Determined
import MemoryMonitor.Grant.Refs
import MemoryMonitor.Grant.Confine
import MemoryMonitor.Rangeset.Remove
import MemoryMonitor.Grant.Grow
import MemoryMonitor.Evtchn.Release
import MemoryMonitor.Evtchn.Pending
import MemoryMonitor.Domain.Teardown
import MemoryMonitor.Mm.PageRefs
import MemoryMonitor.Mm.Superpage
import MemoryMonitor.Mm.SharingCounts
import MemoryMonitor.MemEvent.Paging
import MemoryMonitor.MemEvent.Ring
import MemoryMonitor.Hvm.GuestTime
import MemoryMonitor.Sched.Arinc
import MemoryMonitor.Hvm.Vioapic
import MemoryMonitor.Hvm.Ticks
import MemoryMonitor.Sched.Parking
import MemoryMonitor.Tmem.Bookkeeping
import MemoryMonitor.Monitor.Records
import MemoryMonitor.Sched.Poll
import MemoryMonitor.Sched.Urgent
import MemoryMonitor.Sched.Burn
import MemoryMonitor.Time.Platform
import MemoryMonitor.Sched.Credit2.Charge
import MemoryMonitor.Monitor.Fetch
import MemoryMonitor.Rangeset.Report
import MemoryMonitor.Grant.Transfer
import MemoryMonitor.PageAlloc.Carve
import MemoryMonitor.PageAlloc.Search
import MemoryMonitor.PageAlloc.Boot
import MemoryMonitor.Evtchn.Failures
import MemoryMonitor.Memory.Handles
import MemoryMonitor.E820.Clip
import MemoryMonitor.Domctl.CpuMap
import MemoryMonitor.Domctl.DomainId
import MemoryMonitor.P2m.MemTarget
import MemoryMonitor.P2m.Locking
import MemoryMonitor.Hvm.HpetSave
import MemoryMonitor.Hvm.LoadSegment
import MemoryMonitor.Hvm.VlapicPage
import MemoryMonitor.Hvm.VlapicIpi
import MemoryMonitor.Hvm.MtrrOverlap
import MemoryMonitor.Mm.GuestWalkAgrees
import MemoryMonitor.P2m.TypeGlobal
import MemoryMonitor.Sched.RunqSort
import MemoryMonitor.Sched.CpuPick
import MemoryMonitor.Sched.CreditShares
import MemoryMonitor.Time.Calibration
import MemoryMonitor.Tmem.Partial
import MemoryMonitor.Timer.Expiry
import MemoryMonitor.Mm.Xmalloc
import MemoryMonitor.Hvm.Codec
import MemoryMonitor.Mm.MemoryAdd
import MemoryMonitor.Evtchn.Maps
import MemoryMonitor.Hvm.Vpic

import OnDemandVirt.Net.ReceiveRing
import OnDemandVirt.Net.VirtioSend
import OnDemandVirt.Acpi.ParseStates
import OnDemandVirt.Lib.Machine
import OnDemandVirt.Lib.Loop
import OnDemandVirt.Lib.BitWords
import OnDemandVirt.Migration.Layout
import OnDemandVirt.Migration.Message
import OnDemandVirt.Migration.Client
import OnDemandVirt.Migration.StepRule
import OnDemandVirt.Migration.Control
import OnDemandVirt.Migration.Coverage
import OnDemandVirt.Migration.Background
import OnDemandVirt.Migration.DoneFlag
import OnDemandVirt.Migration.Enumeration
import OnDemandVirt.Migration.Agreement
import OnDemandVirt.Lib.Buffer
import OnDemandVirt.Migration.CpuState
import OnDemandVirt.Lib.Paging
import OnDemandVirt.Devirt.Handover
import OnDemandVirt.Devirt.Cycle
import OnDemandVirt.Vmm.MemoryType
import OnDemandVirt.Vmm.Routing
import OnDemandVirt.Vmm.EptRuns
import OnDemandVirt.Lib.Buddy
import OnDemandVirt.Vmm.HeapSizing
import OnDemandVirt.Vmm.PmapRuns
import OnDemandVirt.Vmm.GuestWalk
import OnDemandVirt.Vmm.ThreadRuns
import OnDemandVirt.Vmm.Syscall
import OnDemandVirt.Vmm.MsrRuns
import OnDemandVirt.Vmm.ShadowSafety
import OnDemandVirt.Vmm.StringRuns
import OnDemandVirt.Vmm.Restart
import OnDemandVirt.Migration.Framing
import OnDemandVirt.Migration.Progress
import OnDemandVirt.Migration.Guarantees
import OnDemandVirt.Storage.RoundTrip
import OnDemandVirt.Storage.NoPlaintext
import OnDemandVirt.Ahci.DataPath
import OnDemandVirt.Uhci.Contained
import OnDemandVirt.Net.VirtioNet
import OnDemandVirt.Usb.Hook
import OnDemandVirt.Ehci.Buffers
import OnDemandVirt.Uhci.Schedule
import OnDemandVirt.Uhci.Submit
import OnDemandVirt.Usb.Descriptors
import OnDemandVirt.Net.Pro1000
import OnDemandVirt.Net.Transmit
import OnDemandVirt.Net.SegmentHeader
import OnDemandVirt.Net.Segmentation
import OnDemandVirt.Vmm.ProcessNew
import OnDemandVirt.Vmm.LinearRuns
import OnDemandVirt.Io.Interception
import OnDemandVirt.Iommu.Isolation
import OnDemandVirt.Storage.Controllers
import OnDemandVirt.Ehci.Inlink
import OnDemandVirt.Pci.BaseAddress
import OnDemandVirt.Pci.MatchRuns
import OnDemandVirt.Pci.Topology
import OnDemandVirt.Vmm.TimerRuns
import OnDemandVirt.Vmm.Strtol
import OnDemandVirt.Vmm.TtyLog
import OnDemandVirt.Vmm.HeapSlots
import OnDemandVirt.Vmm.Mempool
import OnDemandVirt.Vmm.Mapmem
import OnDemandVirt.Vmm.Printf
import OnDemandVirt.Vmm.PrintfIso
import OnDemandVirt.Vmm.PrintfNumbers
import OnDemandVirt.Vmm.PrintfParse
import OnDemandVirt.Vmm.PrintfFields
import OnDemandVirt.Vmm.PrintfDirectives
import OnDemandVirt.Vmm.FormattedOutput
import OnDemandVirt.Vmm.Lists

import LonganPi.Bt.Closing
import LonganPi.Bt.Delivery
import LonganPi.Cdrom.Addresses
import LonganPi.Dram.SizeDetection
import LonganPi.Iommu.BusAddress
import LonganPi.Iommu.Bypass
import LonganPi.Iommu.DirectoryCoverage
import LonganPi.Iommu.DomainLifecycle
import LonganPi.Iommu.DumpTruth
import LonganPi.Iommu.FaultIrq
import LonganPi.Iommu.InvalidationRanges
import LonganPi.Iommu.IovaTrace
import LonganPi.Iommu.ProbeUnwind
import LonganPi.Iommu.Refinement
import LonganPi.Iommu.ReservedRegions
import LonganPi.Iommu.SinglePageSync
import LonganPi.Iommu.StaleTranslation
import LonganPi.Iommu.UnmapHoles
import LonganPi.Pwm.Acceptance
import LonganPi.Pwm.ClockGate
import LonganPi.Pwm.DualSearch
import LonganPi.Pwm.History
import LonganPi.Pwm.Independence
import LonganPi.Pwm.Polarity
import LonganPi.Ve.BufferRelease
import LonganPi.Ve.CaseLoad
import LonganPi.Ve.DebugTable
import LonganPi.Ve.DmaBufList
import LonganPi.Ve.EngineBalance
import LonganPi.Ve.EngineClocks
import LonganPi.Ve.EngineLock
import LonganPi.Ve.EngineRollback
import LonganPi.Ve.InfoShow
import LonganPi.Ve.IrqCompletion
import LonganPi.Ve.LifecycleBalance
import LonganPi.Ve.LoadFiles
import LonganPi.Ve.LoadFrequency
import LonganPi.Ve.LockProtocol
import LonganPi.Ve.MapRollback
import LonganPi.Ve.ProcInfo
import LonganPi.Wifi.CmdDrain
import LonganPi.Wifi.CmdSlots
import LonganPi.Wifi.CmdTimeout
import LonganPi.Wifi.ReorderPool
import LonganPi.Wifi.RxWake
import LonganPi.Wifi.UsbTxDrain
import LonganPi.Wifi.UsbTxMemory

import SampleDrivers.Lib.Transition
import SampleDrivers.Lib.RefCount
import SampleDrivers.Kernel.Basic
import SampleDrivers.DmaBuf.Lifetime
import SampleDrivers.Vkms.VblankTimer
import SampleDrivers.Gem.Cma
import SampleDrivers.Vkms.DeviceLifetime
import SampleDrivers.Gem.Accounting
import SampleDrivers.Kernel.Vma
import SampleDrivers.Mmap.Drivers
import SampleDrivers.Mmap.Isolation
import SampleDrivers.DmaBuf.State
import SampleDrivers.DmaBuf.Ion
import SampleDrivers.DmaBuf.IonIoctl
import SampleDrivers.DmaBuf.IonMmap
import SampleDrivers.DmaBuf.Scatter
import SampleDrivers.DmaBuf.Callbacks
import SampleDrivers.DmaBuf.CpuAccess
import SampleDrivers.DmaBuf.PageOwnership
import SampleDrivers.DmaBuf.UserMemory
import SampleDrivers.DmaBuf.StaleData
import SampleDrivers.DmaBuf.Mapping
import SampleDrivers.DmaBuf.IonViews
import SampleDrivers.DmaBuf.SgExporter
import SampleDrivers.DmaBuf.MapPairing
import SampleDrivers.DmaBuf.SyncCoverage
import SampleDrivers.DmaBuf.HandOff
import SampleDrivers.DmaBuf.Importers
import SampleDrivers.DmaBuf.SyncImporter
import SampleDrivers.DmaBuf.TruthfulIoctl
import SampleDrivers.Gem.Publication
import SampleDrivers.Lib.OnDemand
import SampleDrivers.Mmap.EagerLazy
import SampleDrivers.Mmap.FaultRace
import SampleDrivers.Mmap.AllocOnce
import SampleDrivers.DmaBuf.ModuleLifetime
import SampleDrivers.Vkms.TimerDiscipline
import SampleDrivers.Drm.PageFlip
import SampleDrivers.DmaBuf.IonSizes
import SampleDrivers.DmaBuf.ScatterView
import SampleDrivers.DmaBuf.StringReads
import SampleDrivers.Gem.AllOrNothing
import SampleDrivers.Gem.OwnMemory
import SampleDrivers.DmaBuf.MapFailures
import SampleDrivers.DmaBuf.PageWise
import SampleDrivers.DmaBuf.ImporterBalance
import SampleDrivers.Drm.FrameBuffer
import SampleDrivers.Drm.PropertyLookup
import SampleDrivers.DmaBuf.BufferPages
import SampleDrivers.Lib.Refinement
import SampleDrivers.Lib.SharedStore
import SampleDrivers.DmaBuf.SharedMemory
import SampleDrivers.Mmap.SharedDevice
import SampleDrivers.DmaBuf.LastReference
import SampleDrivers.Drm.PageFlipOnVkms
import SampleDrivers.Gem.SharedObjects
import SampleDrivers.Drm.AtomicModeset

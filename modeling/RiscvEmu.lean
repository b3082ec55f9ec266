import RiscvEmu.Device.PlicClaim
import RiscvEmu.Device.UartLine
import RiscvEmu.FiniteMap
import RiscvEmu.Translation
import RiscvEmu.GuestSafety
import RiscvEmu.BaseIsa
import RiscvEmu.CsrAccess
import RiscvEmu.Precise
import RiscvEmu.Atomic
import RiscvEmu.Fetch
import RiscvEmu.Compressed
import RiscvEmu.Privilege
import RiscvEmu.Interrupts
import RiscvEmu.SingleTrap
import RiscvEmu.TrapReturn
import RiscvEmu.LegalPrivilege
import RiscvEmu.DataPrivilege
import RiscvEmu.PagedReservation
import RiscvEmu.PairedReservation
import RiscvEmu.TimerPending
import RiscvEmu.CsrIndependence
import RiscvEmu.TriggerCoverage
import RiscvEmu.FpAccess
import RiscvEmu.Device.FdtRoundTrip
import RiscvEmu.ImageLayout
import RiscvEmu.Device.PlicArbitration
import RiscvEmu.Device.UartRegisters
import RiscvEmu.Device.UartInput
import RiscvEmu.AdvertisedRam
import RiscvEmu.BusViews
import RiscvEmu.PteRefusal
import RiscvEmu.SupervisorViews
import RiscvEmu.ClintRegisters
import RiscvEmu.MExtension
import RiscvEmu.MisalignFaults
import RiscvEmu.InstretCount
import RiscvEmu.FcsrFlags
import RiscvEmu.FpNan
import RiscvEmu.FpToInt
import RiscvEmu.TrapReport
import RiscvEmu.DisasmAgrees
import RiscvEmu.Debugger
import RiscvEmu.ProgramRun
import RiscvEmu.VirtualRam
import RiscvEmu.Counters
import RiscvEmu.DebugLoop
import RiscvEmu.LoadOption
import RiscvEmu.Boot
import RiscvEmu.MisalignBuild

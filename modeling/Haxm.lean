import Haxm.Memory.BlockLifetime
import Haxm.Memory.ListShape
import Haxm.Ept.Misconfiguration
import Haxm.Ept.TreeMap
import Haxm.Vm.FaultRange
import Haxm.Vm.Creation
import Haxm.Vm.Vpid
import Haxm.Paging.Stability
import Haxm.Mmio.GuestCopy
import Haxm.Paging.Conformance
import Haxm.Cpuid.StackData
import Haxm.Cpuid.HostFeatures
import Haxm.Cpuid.TableLifetime
import Haxm.Cpuid.TableShape
import Haxm.Vcpu.DebugShare
import Haxm.Vcpu.Msr
import Haxm.Vcpu.StringIo
import Haxm.Vcpu.ControlRegisters
import Haxm.Vcpu.SegmentBases
import Haxm.Vcpu.ReadBack
import Haxm.Vcpu.HalfRegisters
import Haxm.Cpu.Execute
import Haxm.Cpu.Sections
import Haxm.Cpu.Pmu
import Haxm.Intr.Conservation
import Haxm.Emulate.FetchBounds
import Haxm.Emulate.Compare
import Haxm.Emulate.RegisterMoves
import Haxm.Emulate.BitExtract
import Haxm.Emulate.FailedAccess
import Haxm.Emulate.Resumed

import ArcFirmware.Lib.Loop
import ArcFirmware.Lib.Port
import ArcFirmware.Lib.Progress
import ArcFirmware.Lib.Threads
import ArcFirmware.Lib.Resume
import ArcFirmware.Lib.Device
import ArcFirmware.Lib.Assembly
import ArcFirmware.Lib.SendQueue
import ArcFirmware.Lib.Rounding
import ArcFirmware.Lib.Memory
import ArcFirmware.Lib.Reader
import ArcFirmware.Lib.Store
import ArcFirmware.Lib.Hex
import ArcFirmware.Lib.Layout
import ArcFirmware.Edk2
import ArcFirmware.UtilsLib
import ArcFirmware.AsciiStr
import ArcFirmware.GuidText
import ArcFirmware.SectionStream
import ArcFirmware.PeiServices
import ArcFirmware.FileChain
import ArcFirmware.ReadBounds
import ArcFirmware.FileLookup
import ArcFirmware.FileInfo
import ArcFirmware.FfsVolume
import ArcFirmware.FileEnumeration
import ArcFirmware.PpiServices
import ArcFirmware.PpiInstall
import ArcFirmware.PpiAtomicity
import ArcFirmware.PpiDatabase
import ArcFirmware.PpiRelocation
import ArcFirmware.PpiStability
import ArcFirmware.DispatchPeims
import ArcFirmware.SecMain
import ArcFirmware.BootDecision
import ArcFirmware.HeaderCopies
import ArcFirmware.DxeIpl
import ArcFirmware.PeiCoreMain
import ArcFirmware.EntryPoints
import ArcFirmware.PeimFixup
import ArcFirmware.PeiPhase
import ArcFirmware.DxeIplMain
import ArcFirmware.BootChain
import ArcFirmware.SecEntry
import ArcFirmware.Ns16550
import ArcFirmware.SerialTransmit
import ArcFirmware.Uart16550
import ArcFirmware.SerialSetup
import ArcFirmware.SerialDelivery
import ArcFirmware.SerialDivisor
import ArcFirmware.SerialReceive
import ArcFirmware.SerialSession
import ArcFirmware.SerialProgress
import ArcFirmware.SerialDecoding
import ArcFirmware.Lib.CyclicCounter
import ArcFirmware.CpuSync
import ArcFirmware.SpinLock
import ArcFirmware.LockedSections
import ArcFirmware.LockUsers
import ArcFirmware.LockProgress
import ArcFirmware.SpinTimeout
import ArcFirmware.InterlockedCounter

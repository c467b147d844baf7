import BrownieOS.Core.Madt
import BrownieOS.Core.Syscall
import BrownieOS.Drivers.Tty
import BrownieOS.Lib.Run
import BrownieOS.Lib.Tiling
import BrownieOS.Mm.FrameLedger
import BrownieOS.Mm.HighmemSlots
import BrownieOS.Mm.KmmContract
import BrownieOS.Mm.MemoryMap
import BrownieOS.Mm.Tlb
import BrownieOS.Process.RoundRobin
import BrownieOS.Process.Scheduler
import BrownieOS.Mm.AddressSpace
import BrownieOS.Lib.Loop
import BrownieOS.LibC.Itoa
import BrownieOS.LibC.Printf
import BrownieOS.LibC.FormatPieces
import BrownieOS.LibC.PrintfSame
import BrownieOS.Lib.PageWords
import BrownieOS.Process.Create
import BrownieOS.Process.CreateCases
import BrownieOS.Mm.KmmGrow
import BrownieOS.Process.Table
import BrownieOS.Process.Coherence
import BrownieOS.Mm.Directories
import BrownieOS.Process.MapPages
import BrownieOS.Process.Space
import BrownieOS.Process.PidIndex
import BrownieOS.Process.StackFrames
import BrownieOS.Mm.CloneFrames
import BrownieOS.Process.TwoViews
import BrownieOS.Lib.RunLength
import BrownieOS.Mm.FrameSearch
import BrownieOS.Core.Acpi
import BrownieOS.Mm.KmmFit
import BrownieOS.Mm.KmmFull
import BrownieOS.Mm.KmmFree
import BrownieOS.Mm.KmmAccess
import BrownieOS.Process.MapExact
import BrownieOS.Process.AllOrNothing
import BrownieOS.Core.MadtRecords
import BrownieOS.Core.Ioapic
import BrownieOS.LibC.ItoaStore
import BrownieOS.LibC.Strings
import BrownieOS.Core.Rsdp
import BrownieOS.Core.AcpiTables
import BrownieOS.Core.AcpiWindow
import BrownieOS.Core.AcpiCopy
import BrownieOS.Core.AcpiScan
import BrownieOS.Core.AcpiMissing
import BrownieOS.Process.StackRegion
import BrownieOS.Process.OwnTables
import BrownieOS.Mm.UserBits
import BrownieOS.Process.Confined
import BrownieOS.Mm.CloneCopy
import BrownieOS.Core.OrderedMultiset
import BrownieOS.LibC.Compare
import BrownieOS.LibC.Memmove
import BrownieOS.LibC.UnsignedText
import BrownieOS.LibC.StoredText
import BrownieOS.LibC.PrintfEmits
import BrownieOS.LibC.PrintfReads
import BrownieOS.LibC.Printed
import BrownieOS.Process.Console
import BrownieOS.Process.FirstView
import BrownieOS.Lib.CountedLoop
import BrownieOS.Mm.CloneTwin
import BrownieOS.Mm.CloneStale
import BrownieOS.Process.PageOwners
import BrownieOS.Process.UserProgram
import BrownieOS.Process.UserSpaces
import BrownieOS.Process.UserViews
import BrownieOS.Process.MessageProc
import BrownieOS.Process.Isolation
import BrownieOS.Core.SyscallTable
import BrownieOS.Lib.Component
import BrownieOS.Process.OwnView
import BrownieOS.Process.OwnMachine
import BrownieOS.Process.UserRun
import BrownieOS.Process.MessageReady
import BrownieOS.Process.SetupRuns
import BrownieOS.Process.LongMessage
import BrownieOS.Lib.Slices
import BrownieOS.Process.TimeSlices
import BrownieOS.Lib.WordStack
import BrownieOS.Process.InterruptStubs

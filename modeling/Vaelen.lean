import Vaelen.Base.Memory
import Vaelen.Base.Segment
import Vaelen.Base.Tiling
import Vaelen.Base.Runs
import Vaelen.Base.Selection
import Vaelen.Base.Store
import Vaelen.Base.Ancestry
import Vaelen.Base.X86
import Vaelen.Base.Segmentation
import Vaelen.Base.PageWalk
import Vaelen.Base.InterruptController
import Vaelen.Base.IntervalTimer
import Vaelen.Base.Ring
import Vaelen.Base.CString
import Vaelen.Base.Numeral
import Vaelen.Base.Congruential
import Vaelen.Base.Reading
import Vaelen.Base.Polling
import Vaelen.Kernel.Platform
import Vaelen.Kernel.Kmalloc
import Vaelen.Kernel.KmallocBlocks
import Vaelen.Kernel.KmallocTiling
import Vaelen.Kernel.KmallocRuns
import Vaelen.Kernel.KmallocFit
import Vaelen.Kernel.KmallocCanonical
import Vaelen.Kernel.KmallocSafety
import Vaelen.Kernel.KmallocKept
import Vaelen.Kernel.KmallocRequests
import Vaelen.Kernel.KmallocStores
import Vaelen.Kernel.KmallocTermination
import Vaelen.Kernel.KmallocTail
import Vaelen.Kernel.Stdlib
import Vaelen.Kernel.Random
import Vaelen.Kernel.Strings
import Vaelen.Kernel.StringCompare
import Vaelen.Kernel.StringSearch
import Vaelen.Kernel.Vfs
import Vaelen.Kernel.VfsMount
import Vaelen.Kernel.Descriptors
import Vaelen.Kernel.Frames
import Vaelen.Kernel.FrameOwnership
import Vaelen.Kernel.FrameAccounting
import Vaelen.Kernel.FrameBitmap
import Vaelen.Kernel.Paging
import Vaelen.Kernel.CloneDirectory
import Vaelen.Kernel.PageTables
import Vaelen.Kernel.PageLookup
import Vaelen.Kernel.PageTranslation
import Vaelen.Kernel.Keyboard
import Vaelen.Kernel.KeyboardShift
import Vaelen.Kernel.Vga
import Vaelen.Kernel.VgaTrace
import Vaelen.Kernel.VgaColours
import Vaelen.Kernel.VgaCursor
import Vaelen.Kernel.Terminal
import Vaelen.Kernel.Ata
import Vaelen.Kernel.AtaStatus
import Vaelen.Kernel.AtaRuns
import Vaelen.Kernel.Shell
import Vaelen.Kernel.ShellRuns
import Vaelen.Kernel.ShellEditing
import Vaelen.Kernel.ShellEcho
import Vaelen.Kernel.ShellHistory
import Vaelen.Kernel.ShellTokens
import Vaelen.Kernel.Ramfs
import Vaelen.Kernel.RamfsTree
import Vaelen.Kernel.Numbers
import Vaelen.Kernel.Printf
import Vaelen.Kernel.PrintfFields
import Vaelen.Kernel.ShellPrint
import Vaelen.Kernel.Tasks
import Vaelen.Kernel.Timer
import Vaelen.Kernel.TimerClock
import Vaelen.Kernel.Syscalls
import Vaelen.Kernel.SchedulerPasses
import Vaelen.Kernel.SchedulerStates
import Vaelen.Kernel.TaskRecords
import Vaelen.Kernel.SchedulerRecords
import Vaelen.Kernel.TaskCreation
import Vaelen.Kernel.SchedulerRuns
import Vaelen.Kernel.SchedulerOverlap
import Vaelen.Kernel.SchedulerSleep
import Vaelen.Kernel.SchedulerChoice
import Vaelen.Kernel.SchedulerStarvation
import Vaelen.Kernel.TaskStacks
import Vaelen.Kernel.TaskPids
import Vaelen.Kernel.TaskForest
import Vaelen.Kernel.CloneSlots
import Vaelen.Kernel.TrapFrame
import Vaelen.Kernel.ContextSwitch
import Vaelen.Kernel.Interrupts
import Vaelen.Kernel.InterruptReturn
import Vaelen.Kernel.Irq
import Vaelen.Kernel.IrqTable
import Vaelen.Kernel.Typing
import Vaelen.Kernel.Gdt
import Vaelen.Kernel.BootPaging
import Vaelen.Kernel.BootImage

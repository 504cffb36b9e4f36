import OS391.EchoedLines
import OS391.ReadData
import OS391.Pointers
import OS391.FailedExecute
import OS391.KernelStack
import OS391.FreshTables
import OS391.FileDescriptors
import OS391.Directories
import OS391.Screen
import OS391.Lines
import OS391.ProcessTree
import OS391.FileRead
import OS391.DescriptorTable
import OS391.ReadBounds
import OS391.Arguments
import OS391.VideoMap
import OS391.AddressSpace
import OS391.Preemption
import OS391.Transcript
import OS391.TerminalWrite
import OS391.Commands
import OS391.CommandArguments
import OS391.Names
import OS391.Loading
import OS391.RtcReaders
import OS391.RtcRate
import OS391.InterruptController
import OS391.ImageLoads
import OS391.NumberFormat
import OS391.BootConsole
import OS391.StringRoutines
import OS391.Stubs
import OS391.HandlerWrappers
import OS391.InterruptMasks
import OS391.InterruptTable
import OS391.PageWords
import OS391.FormatStrings
import OS391.Turns
import OS391.Cursor
import OS391.KeyLayout
import OS391.StringCopies
import OS391.TimerRate
import OS391.Segments

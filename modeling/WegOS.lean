import WegOS.Paging
import WegOS.AddressSpaces
import WegOS.CreateFile
import WegOS.AllocationRuns
import WegOS.DiskAllocation
import WegOS.SleepRuns
import WegOS.SemaphoreCount
import WegOS.IdleTasks
import WegOS.EndMarks
import WegOS.ReadFile
import WegOS.RootHandle
import WegOS.WriteCursors
import WegOS.ExpandFile
import WegOS.FullDisk
import WegOS.Keyboard
import WegOS.ConsoleText
import WegOS.TablePlaces
import WegOS.Swap
import WegOS.Execve
import WegOS.FileTypes
import WegOS.SharedDirectory
import WegOS.SignedIo
import WegOS.BufferStores
import WegOS.PathStores
import WegOS.IdentityMap
import WegOS.TaskPids
import WegOS.MemoryExhausted
import WegOS.FaultSlots
import WegOS.QueueRuns
import WegOS.QueueRemoval
import WegOS.LetterKeys
import WegOS.TssDescriptor
import WegOS.Itoa
import WegOS.FullGdt
import WegOS.SwitchOut
import WegOS.ReadyOrder
import WegOS.DiskPorts
import WegOS.FileContents
import WegOS.InterruptRuns
import WegOS.CriticalSection
import WegOS.PagedRuns
import WegOS.AddressMaps
import WegOS.FileSessions
import WegOS.TaskMemory

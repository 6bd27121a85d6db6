import BoringOS.Memory.Area
import BoringOS.Memory.AddressSpace
import BoringOS.Boot.Initramfs
import BoringOS.Boot.MemoryMap
import BoringOS.Boot.FreeMemory
import BoringOS.Boot.BootInfo
import BoringOS.Multitasking.Stack
import BoringOS.Multitasking.StackMapping
import BoringOS.Multitasking.Thread
import BoringOS.Multitasking.Scheduler
import BoringOS.Multitasking.Process
import BoringOS.Multitasking.Lifecycle
import BoringOS.Multitasking.Teardown
import BoringOS.Multitasking.SharedStacks

import Yalnix.DispatchOrder
import Yalnix.MissedWakeups
import Yalnix.BlockingReasons
import Yalnix.ExitStatuses
import Yalnix.LockHandoff
import Yalnix.PipeStream
import Yalnix.RunnableProcesses
import Yalnix.TerminalReaders
import Yalnix.TerminalInput
import Yalnix.ProcessReferences
import Yalnix.TerminalOutput
import Yalnix.AddressSpaces
import Yalnix.TableLoops
import Yalnix.FramePartition
import Yalnix.KernelBreak
import Yalnix.ScratchPage
import Yalnix.TranslationRuns
import Yalnix.UserContexts
import Yalnix.ConditionVariables
import Yalnix.ObjectIdentity
import Yalnix.MappedFrames
import Yalnix.Housekeeping
import Yalnix.UserPointers
import Yalnix.ForkCopies
import Yalnix.FrameZero
import Yalnix.FailedForks
import Yalnix.UserBreak
import Yalnix.LoadedImages
import Yalnix.PipeBuffers
import Yalnix.KernelHeap
import Yalnix.IntrusiveQueues
import Yalnix.WaitErrors
import Yalnix.Delays
import Yalnix.TerminalOrder
import Yalnix.ExecOutcomes
import Yalnix.Continuations
import Yalnix.Switching
import Yalnix.PageContents
import Yalnix.MemoryIsolation
import Yalnix.BoundedWaiting
import Yalnix.WaitingLines
import Yalnix.WaitQueues
import Yalnix.WokenCalls
import Yalnix.Halting
import Yalnix.WriteDurations
import Yalnix.ClockTicks
import Yalnix.Deadlocks
import Yalnix.Families
import Yalnix.Exits
import Yalnix.StackGrowth
import Yalnix.FrameDemand
import Yalnix.FailedCalls
import Yalnix.HandOvers

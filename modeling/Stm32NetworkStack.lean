import Stm32NetworkStack.InteractivePrograms
import Stm32NetworkStack.Enc28Registers
import Stm32NetworkStack.Enc28Driver
import Stm32NetworkStack.TraceLanguages
import Stm32NetworkStack.RegisterEncoding
import Stm32NetworkStack.SpiBus
import Stm32NetworkStack.BankDiscipline
import Stm32NetworkStack.DriverBanks
import Stm32NetworkStack.DriverCommands
import Stm32NetworkStack.CoreProjection
import Stm32NetworkStack.RegisterFile
import Stm32NetworkStack.RegisterRefinement
import Stm32NetworkStack.MiiReads
import Stm32NetworkStack.InitState
import Stm32NetworkStack.TransmitLogic
import Stm32NetworkStack.TransmitCounting
import Stm32NetworkStack.BankSafety
import Stm32NetworkStack.SpiTraces
import Stm32NetworkStack.MissingCallbacks
import Stm32NetworkStack.BitFieldSafety
import Stm32NetworkStack.RingLog
import Stm32NetworkStack.ReceiveLogic
import Stm32NetworkStack.ReceiveStream
import Stm32NetworkStack.ReceivePackets
import Stm32NetworkStack.GarbageHeaders
import Stm32NetworkStack.TransmitArea
import Stm32NetworkStack.ReceiveStart
import Stm32NetworkStack.ReceiveSessions
import Stm32NetworkStack.ReceiveErrors
import Stm32NetworkStack.StopResume
import Stm32NetworkStack.TransmitSafety
import Stm32NetworkStack.TransmitRegion
import Stm32NetworkStack.StatusVector
import Stm32NetworkStack.BoundedQueues
import Stm32NetworkStack.GuardedRuns
import Stm32NetworkStack.PingResponder
import Stm32NetworkStack.InternetChecksum
import Stm32NetworkStack.PingPackets
import Stm32NetworkStack.PacketPipeline
import Stm32NetworkStack.PipelineRuns
import Stm32NetworkStack.BufferOwnership
import Stm32NetworkStack.PipelineDeadlock
import Stm32NetworkStack.ResponderDeadlock
import Stm32NetworkStack.FrameFlow
import Stm32NetworkStack.LinkOutput
import Stm32NetworkStack.TransmitTiming
import Stm32NetworkStack.NetworkApp
import Stm32NetworkStack.OperationRuns
import Stm32NetworkStack.QueueStorage
import Stm32NetworkStack.FiniteCounts
import Stm32NetworkStack.SortedLists
import Stm32NetworkStack.BlockingQueues
import Stm32NetworkStack.QueueLocks
import Stm32NetworkStack.LostWakeups
import Stm32NetworkStack.QueueOrder
import Stm32NetworkStack.DelayedTasks
import Stm32NetworkStack.TimeOuts
import Stm32NetworkStack.TaskNotifications
import Stm32NetworkStack.OnesCongruence
import Stm32NetworkStack.LwipChecksum
import Stm32NetworkStack.IcmpEcho
import Stm32NetworkStack.TiledRegions
import Stm32NetworkStack.Heap4
import Stm32NetworkStack.HeapBlocks
import Stm32NetworkStack.HeapRuns
import Stm32NetworkStack.HeapSafety

import Wddlib.MachineInt
import Wddlib.LinkedIndex
import Wddlib.ObjPool
import Wddlib.ObjPoolRepr
import Wddlib.ObjPoolRelink
import Wddlib.ObjPoolOps
import Wddlib.ObjPoolTravel
import Wddlib.ObjPoolRun
import Wddlib.ObjPoolHandle
import Wddlib.HeapAlgo
import Wddlib.LiteTimer
import Wddlib.LiteTimerSift
import Wddlib.LiteTimerInvariant
import Wddlib.LiteTimerOps
import Wddlib.LiteTimerRun
import Wddlib.NetBuffer
import Wddlib.RunPrefix
import Wddlib.TcpChannel
import Wddlib.SendStream
import Wddlib.RecvStream
import Wddlib.FramedStream
import Wddlib.ClientFraming
import Wddlib.PbParser
import Wddlib.BackendFraming
import Wddlib.ConnTable
import Wddlib.EpollServer
import Wddlib.MsgHandle
import Wddlib.ChannelRecord
import Wddlib.ConnDelivery
import Wddlib.CoControl
import Wddlib.CoMemory
import Wddlib.CoMgr
import Wddlib.CoMgrInvariant
import Wddlib.BlockLedger
import Wddlib.CoMgrRelease
import Wddlib.StackLedger
import Wddlib.CoMgrRunning
import Wddlib.CoMgrSweep
import Wddlib.CoMgrSweepRun
import Wddlib.CoMgrActive
import Wddlib.CoroutineActive
import Wddlib.CoroutineSeparation
import Wddlib.RouteLaw
import Wddlib.StopLaw
import Wddlib.TcpClient
import Wddlib.TcpClientRun
import Wddlib.AppCtrlServer
import Wddlib.BufferFifo
import Wddlib.ChannelClose
import Wddlib.ClientFrameLoop
import Wddlib.ConnTableReload
import Wddlib.LiteTimerDrain
import Wddlib.LiteTimerHits
import Wddlib.PollDispatch
import Wddlib.ServerReload
import Wddlib.TcpClientBoundary
import Wddlib.CoMgrExpire
import Wddlib.CoMgrPunctual
import Wddlib.CoroutineFailure
import Wddlib.ExpireSafety
import Wddlib.ExpireTurns
import Wddlib.LiteTimerHandle
import Wddlib.ObjPoolMemory
import Wddlib.ObjPoolVisit
import Wddlib.UnPackRange
import Wddlib.YieldReason
import Wddlib.CMemory
import Wddlib.ClientDescriptor
import Wddlib.ClientSendFail
import Wddlib.CyclicSlots
import Wddlib.LogDay
import Wddlib.LogFailure
import Wddlib.LogMgr
import Wddlib.LogRecord
import Wddlib.LogRoll
import Wddlib.ServerApp
import Wddlib.StartRequest
import Wddlib.BufferWrited
import Wddlib.LogRestart
import Wddlib.LogSystem
import Wddlib.LogDirs
import Wddlib.SessionOrder
import Wddlib.LossyFlow
import Wddlib.Gateway
import Wddlib.ConnNumbers
import Wddlib.GatewayServer
import Wddlib.GatewayFlow
import Wddlib.GatewayEcho
import Wddlib.MeasuredRun
import Wddlib.GatewayDrain
import Wddlib.MessageLink
import Wddlib.MainLoop
import Wddlib.ControlSession
import Wddlib.TickSchedule
import Wddlib.ServerProcess
import Wddlib.ServerProcessRun

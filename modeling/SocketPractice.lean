import SocketPractice.SocketUdp.CheckSums
import SocketPractice.SocketUdp.PipelineProgress
import SocketPractice.SocketUdp.Readiness
import SocketPractice.SocketUdp.ArgOwnership
import SocketPractice.SocketUdp.UnknownDest
import SocketPractice.SocketUdp.ThreadPoolWait
import SocketPractice.LibQueue.Agreement
import SocketPractice.LibQueue.AllocFailure
import SocketPractice.LibQueue.SeqArith
import SocketPractice.LibQueue.LinkRelease
import SocketPractice.SocketTcp.LocalQueueInv
import SocketPractice.SocketTcp.Registry
import SocketPractice.SocketTcp.NoResidue
import SocketPractice.SocketTcp.EndIdRouting
import SocketPractice.SocketTcp.Readiness
import SocketPractice.SocketTcp.ChatOrder
import SocketPractice.SocketTcp.ClientSocket
import SocketPractice.Socket.Readiness
import SocketPractice.Socket.PoolProgress
import SocketPractice.Socket.SrvMsgQueue
import SocketPractice.Socket.ConnectionOwnership
import SocketPractice.Socket.ServerSocket
import SocketPractice.Socket.MsgQueue
import SocketPractice.Socket.CliSqlite
import SocketPractice.Socket.UdpAddress
import SocketPractice.Socket.LazyDatabase
import SocketPractice.Socket.Broadcast
import SocketPractice.Socket.SwitchSocket
import SocketPractice.Socket.PoolThreads
import SocketPractice.SocketUdp.PoolThreads
import SocketPractice.Socket.TaskQueue
import SocketPractice.Common.ListRuns
import SocketPractice.Socket.ForwardingLinks
import SocketPractice.Socket.ForwardingProgress
import SocketPractice.Socket.LogLimit
import SocketPractice.SocketUdp.TaskCounter
import SocketPractice.SocketUdp.CliInfoThreads
import SocketPractice.SocketUdp.LifeCycle
import SocketPractice.SocketUdp.ChatOnce
import SocketPractice.SocketUdp.ClientUdp
import SocketPractice.SortAlgo.SelectionSort
import SocketPractice.SortAlgo.InsertSort
import SocketPractice.SortAlgo.RangeStack
import SocketPractice.SortAlgo.SortsAgree
import SocketPractice.LibDbgout.Dbgout

import Muduo.Lib.Machine
import Muduo.Lib.Search
import Muduo.Lib.Lines
import Muduo.Lib.Monitor
import Muduo.Lib.Calendar
import Muduo.Lib.Digits
import Muduo.Lib.Numerals
import Muduo.Lib.Columns
import Muduo.Lib.OrdMap
import Muduo.Lib.Segments
import Muduo.Lib.Slice
import Muduo.Lib.Places
import Muduo.Base.StringPiece
import Muduo.Base.Timestamp
import Muduo.Base.Mutex
import Muduo.Base.ThreadPool
import Muduo.Base.PoolStop
import Muduo.Base.BoundedBlockingQueue
import Muduo.Base.BlockingQueue
import Muduo.Base.QueueSteps
import Muduo.Base.CountDownLatch
import Muduo.Base.LogFile
import Muduo.Base.LogRecords
import Muduo.Base.LogRolling
import Muduo.Base.LogStream
import Muduo.Base.LogNumbers
import Muduo.Base.Logging
import Muduo.Base.LogLines
import Muduo.Base.LogPrefix
import Muduo.Base.TimeTexts
import Muduo.Base.FileUtil
import Muduo.Net.Buffer
import Muduo.Net.BufferRefines
import Muduo.Net.BufferMemory
import Muduo.Net.BufferInts
import Muduo.Net.Channel
import Muduo.Net.PollPoller
import Muduo.Net.PollSet
import Muduo.Net.ActiveChannels
import Muduo.Net.PollMirror
import Muduo.Net.EventLoop
import Muduo.Net.Wakeup
import Muduo.Net.Quitting
import Muduo.Net.EventLoopThread
import Muduo.Net.LoopPointer
import Muduo.Net.TimerQueue
import Muduo.Net.TimerSets
import Muduo.Net.TimerRuns
import Muduo.Net.TimerSteps
import Muduo.Net.TimerMoves
import Muduo.Net.TimerLoop
import Muduo.Net.Cancellation
import Muduo.Net.TimerHandover
import Muduo.Net.TimerIds
import Muduo.Net.TimerArming
import Muduo.Net.TimerSchedule
import Muduo.Net.TimerTwins
import Muduo.Net.TimerIsolation
import Muduo.Net.TcpConnection
import Muduo.Net.OutputStream
import Muduo.Net.HalfClose
import Muduo.Net.EndToEnd
import Muduo.Net.FlowControl
import Muduo.Net.ConnectionState
import Muduo.Net.ConnectionLife
import Muduo.Net.WriteInterest
import Muduo.Net.ShutdownSteps
import Muduo.Net.GracefulShutdown
import Muduo.Net.TcpServer
import Muduo.Net.InetAddress
import Muduo.Net.Frames
import Muduo.Net.Registry
import Muduo.Net.ServerRuns
import Muduo.Net.Lifetimes
import Muduo.Net.RoundRobin
import Muduo.Net.Settling
import Muduo.Net.ChannelCalls
import Muduo.Net.ServerPolling
import Muduo.Net.ConnectionNames
import Muduo.Net.Acceptor
import Muduo.Net.Connector
import Muduo.Net.ConnectorSteps
import Muduo.Net.Attempts
import Muduo.Net.Persistence
import Muduo.Net.Descriptors
import Muduo.Net.Stopping
import Muduo.Net.Reactor
import Muduo.Net.Removal
import Muduo.Http.HttpRequest
import Muduo.Http.HttpServer
import Muduo.Http.RequestLines
import Muduo.Http.RequestGrammar
import Muduo.Http.ParseLines
import Muduo.Http.Framing
import Muduo.Http.Chunking
import Muduo.Http.Pipelining
import Muduo.Http.ParseEnds
import Muduo.Http.HeaderLines
import Muduo.Http.HttpResponse
import Muduo.Http.HttpSession
import Muduo.Http.ReplyStream
import Muduo.Inspect.Inspector

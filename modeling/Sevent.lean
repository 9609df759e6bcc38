import Sevent.Lib.Run
import Sevent.Lib.Bytes
import Sevent.Lib.Fifo
import Sevent.Lib.Packing
import Sevent.Base.LogAsynAppender
import Sevent.Base.LogAsynAppenderSpec
import Sevent.Base.LogFile
import Sevent.Net.Buffer
import Sevent.Net.BufferSpace
import Sevent.Net.BufferFifo
import Sevent.Net.EndianOps
import Sevent.Net.BufferInts
import Sevent.Net.Channel
import Sevent.Net.Poller.PollPoller
import Sevent.Net.Poller.EpollPoller
import Sevent.Net.Poller.EpollStatus
import Sevent.Net.Poller.SelectPoller
import Sevent.Net.Poller.SelectActive
import Sevent.Net.Poller.PollerAgreement
import Sevent.Net.EventLoop
import Sevent.Net.EventLoopRun
import Sevent.Net.EventLoopRunSpec
import Sevent.Net.TcpConnection
import Sevent.Net.TcpConnectionSpec
import Sevent.Net.TcpConnectionOutput
import Sevent.Net.TcpConnectionBuffers
import Sevent.Net.TcpConnectionShutdown
import Sevent.Net.TcpConnectionRegistration
import Sevent.Net.TcpConnectionObservers
import Sevent.Net.TcpConnectionErrors
import Sevent.Net.TcpConnectionLevel
import Sevent.Net.TimerManager
import Sevent.Net.TimerObjects
import Sevent.Net.TimerCancel
import Sevent.Net.TimerFiring
import Sevent.Net.TimerExpired
import Sevent.Net.TimerfdChannel
import Sevent.Lib.Log
import Sevent.Net.Connector
import Sevent.Net.ConnectorSpec
import Sevent.Net.ConnectorSockets
import Sevent.Net.ConnectorState
import Sevent.Net.ConnectorSchedule
import Sevent.Net.ConnectorStop
import Sevent.Net.ConnectorRetry
import Sevent.Net.ConnectorTimeout
import Sevent.Net.ConnectorBatch
import Sevent.Net.ConnCalls
import Sevent.Net.ConnCallsSpec
import Sevent.Net.Service
import Sevent.Net.ConnView
import Sevent.Net.ServiceSpec
import Sevent.Net.ServiceView
import Sevent.Net.ConnBase
import Sevent.Net.ConnectionTable
import Sevent.Net.HandlerDetach
import Sevent.Net.BatchOwnership
import Sevent.Net.ConnDispatch
import Sevent.Net.ConnLife
import Sevent.Net.OwnerLoop
import Sevent.Net.ServerTeardown
import Sevent.Net.TcpPipeline
import Sevent.Net.Ssl.SslCodec
import Sevent.Net.Ssl.SslOrdering
import Sevent.Net.Ssl.SslFlush
import Sevent.Lib.Doubling
import Sevent.Net.Ssl.SslDrain
import Sevent.Lib.KeyMap
import Sevent.Net.Http.ParseUrl
import Sevent.Net.Http.HttpParser
import Sevent.Net.Http.Message
import Sevent.Net.Http.HttpCodec
import Sevent.Net.Http.HttpFraming
import Sevent.Net.Http.Fragmentation
import Sevent.Net.Http.Http
import Sevent.Net.Http.HttpParserExecute
import Sevent.Net.Http.HttpParserReads
import Sevent.Net.Http.HttpParserFirstLine
import Sevent.Net.Http.HttpParserFields
import Sevent.Net.Http.HttpParserOrder
import Sevent.Net.Http.HttpPause
import Sevent.Net.Http.HttpParserLoops
import Sevent.Net.Http.HttpParserLines
import Sevent.Net.Http.HttpParserEnd
import Sevent.Lib.Numeral
import Sevent.Net.Http.HttpParserHeaders
import Sevent.Net.Http.HttpParserMessage
import Sevent.Net.Http.QueryParams
import Sevent.Lib.OrderedMap
import Sevent.Net.Http.HttpMessage
import Sevent.Net.Http.HttpDuplicate
import Sevent.Net.Http.HttpBuildString
import Sevent.Net.Http.HttpGetters
import Sevent.Net.WindowsLoop
import Sevent.Net.BufferRoom
import Sevent.Net.BufferWindows
import Sevent.Base.LogStream
import Sevent.Base.LogStreamSpec
import Sevent.Base.Logger
import Sevent.Base.LogNesting
import Sevent.Base.LogSlots
import Sevent.Base.FormatTime
import Sevent.Net.PipelineHandler
import Sevent.Lib.Framing
import Sevent.Lib.Places
import Sevent.Examples.LengthHeaderCodec
import Sevent.Examples.HubCodec
import Sevent.Examples.Hub
import Sevent.Net.Poller.Wepoll
import Sevent.Net.Poller.WepollSpec
import Sevent.Net.Poller.WepollSock
import Sevent.Net.Poller.WepollRun
import Sevent.Net.Poller.WepollHandle
import Sevent.Lib.RedBlack
import Sevent.Net.Poller.WepollTree
import Sevent.Net.Poller.WepollTreeAdd
import Sevent.Net.Poller.WepollTreeDel
import Sevent.Net.Poller.WepollTreeRun
import Sevent.Net.Poller.WepollSockTree

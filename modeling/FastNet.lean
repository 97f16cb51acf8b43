import FastNet.RequestStream
import FastNet.ResponseFraming
import FastNet.WebSocketStream
import FastNet.FastBufferRuns
import FastNet.FlatHashMapRuns
import FastNet.CircuitBreaker
import FastNet.ClientSession
import FastNet.PendingOutput
import FastNet.StreamingAgreement
import FastNet.TcpClientConnect
import FastNet.TcpConnectionPoolLimit
import FastNet.WebSocketAgreement
import FastNet.WebSocketClosing
import FastNet.WebSocketConnecting
import FastNet.WebSocketMask
import FastNet.ClientFraming
import FastNet.MpscQueue
import FastNet.QueryParameters
import FastNet.Routing
import FastNet.Timer
import FastNet.WebSocketCloseFrame
import FastNet.WebSocketTimeout
import FastNet.FileRanges
import FastNet.NormalPaths
import FastNet.SecureHash
import FastNet.SelectionRange
import FastNet.ConnectionTargets
import FastNet.WebSocketPort
import FastNet.IoUringPoller
import FastNet.SharedTasks

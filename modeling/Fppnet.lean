import Fppnet.Library.Run
import Fppnet.Library.Checked
import Fppnet.Library.Storage
import Fppnet.Library.Relay
import Fppnet.Library.SortedSet
import Fppnet.Library.Positions
import Fppnet.Library.Monitor
import Fppnet.Library.CopyOnWrite
import Fppnet.Library.Calendar
import Fppnet.Library.LowerBound
import Fppnet.Library.FixedWidth
import Fppnet.Library.MachineInt
import Fppnet.Library.Turns
import Fppnet.Thread.BlockingQueue
import Fppnet.Thread.Queue
import Fppnet.Thread.CountDownLatch
import Fppnet.Thread.ThreadPool
import Fppnet.Thread.SignalSlot
import Fppnet.Datetime.Date
import Fppnet.Datetime.UtcTime
import Fppnet.Datetime.TimeZone
import Fppnet.Datetime.ZoneFile
import Fppnet.Datetime.Timestamp
import Fppnet.Logging.LogStream
import Fppnet.Logging.LogFile
import Fppnet.Logging.Logger
import Fppnet.Logging.AsyncLogging
import Fppnet.Logging.AsyncLoggingQueue
import Fppnet.Net.Buffer
import Fppnet.Net.BufferQueue
import Fppnet.Net.BufferShrink
import Fppnet.Net.BufferBound
import Fppnet.Net.Channel
import Fppnet.Net.EPoller
import Fppnet.Net.Registration
import Fppnet.Net.NoInterest
import Fppnet.Net.Poller
import Fppnet.Net.PollerSlots
import Fppnet.Net.ActiveChannels
import Fppnet.Net.TcpConnection
import Fppnet.Net.HalfClose
import Fppnet.Net.WriteInterest
import Fppnet.Net.OutputStream
import Fppnet.Net.ShutdownOrder
import Fppnet.Net.Echo
import Fppnet.Net.EventLoop
import Fppnet.Net.FunctorQueue
import Fppnet.Net.EventLoopThread
import Fppnet.Net.Timer
import Fppnet.Net.TimerQueue
import Fppnet.Net.TimerRuns
import Fppnet.Net.TimerCancel
import Fppnet.Net.TimerRound
import Fppnet.Net.AddTimer
import Fppnet.Net.ConnectionEffects
import Fppnet.Net.TcpServer
import Fppnet.Net.Connector
import Fppnet.Net.ConnectorSockets
import Fppnet.Net.ConnectorRuns
import Fppnet.Net.ConnectorRetry
import Fppnet.Net.ClientLoop
import Fppnet.Net.ClientStart
import Fppnet.Net.ClientStop
import Fppnet.Net.ClientDestructor
import Fppnet.Net.Ledger
import Fppnet.Net.Wiring
import Fppnet.Net.NetworkSteps
import Fppnet.Net.Books
import Fppnet.Net.Soundness
import Fppnet.Net.Ownership
import Fppnet.Net.Lifecycle
import Fppnet.Net.RoundRobin
import Fppnet.Net.CloseOnce
import Fppnet.Net.Teardown
import Fppnet.Net.Batches
import Fppnet.Net.QueuedOwners

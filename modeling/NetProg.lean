import NetProg.Base.System
import NetProg.Base.EventLog
import NetProg.Base.History
import NetProg.Base.Progress
import NetProg.Base.Stream
import NetProg.Base.Reaping
import NetProg.Base.Ledger
import NetProg.Base.Loop
import NetProg.Base.Window
import NetProg.Base.CString
import NetProg.Base.Stdio
import NetProg.Base.ListWalk
import NetProg.Base.LuaTable
import NetProg.Base.Channel
import NetProg.Base.SlotTable
import NetProg.Base.ShrinkingLoop
import NetProg.Relay.StrCli
import NetProg.Relay.Refinement
import NetProg.Relay.Delivery
import NetProg.Relay.NormalReturn
import NetProg.Relay.ForkStrCli
import NetProg.Relay.ChildOutput
import NetProg.Relay.EchoPeer
import NetProg.Relay.EchoProgress
import NetProg.Relay.ForkEnds
import NetProg.Server.Descriptors
import NetProg.Server.SelectSrvBetter
import NetProg.Server.BetterTable
import NetProg.Server.BetterScan
import NetProg.Server.BetterPass
import NetProg.Server.SelectServer
import NetProg.Server.SelectServerTable
import NetProg.Server.SelectServerScan
import NetProg.Server.BetterRefusal
import NetProg.Server.SelectServerRefusal
import NetProg.Server.BetterAccept
import NetProg.Server.SelectServerIo
import NetProg.Server.EchoServers
import NetProg.Server.ReplySizes
import NetProg.Server.SelectTcpUdp
import NetProg.Server.SelectTcpUdpSets
import NetProg.Server.MultiConnServer
import NetProg.Server.ForkServers
import NetProg.Ameba.ExchangeHeard
import NetProg.Unix.Clients
import NetProg.Unix.DgramServer
import NetProg.Unix.StreamServer
import NetProg.Daytime.AddrList
import NetProg.Daytime.TcpConnect
import NetProg.FdPassing.MyOpen
import NetProg.Interface.IfiInfo
import NetProg.Interface.RecordWalk
import NetProg.Echo.BasicTcp
import NetProg.Echo.BasicTcpProgress
import NetProg.Echo.BasicUdp
import NetProg.Echo.BasicUdpPairing
import NetProg.Echo.BasicUdpProgress
import NetProg.Echo.SelectClient
import NetProg.Echo.StrEcho
import NetProg.Lua.Client
import NetProg.Lua.PairsLoop
import NetProg.Lua.Server
import NetProg.Base.Decimal
import NetProg.Heartbeat.ExpireFile
import NetProg.Heartbeat.Router
import NetProg.Heartbeat.RouterRace
import NetProg.Heartbeat.RouterAtomic
import NetProg.Heartbeat.RouterOutage
import NetProg.Heartbeat.RouterCounter
import NetProg.Heartbeat.RouterRestart
import NetProg.Heartbeat.RouterKill
import NetProg.Heartbeat.RouterReaping
import NetProg.Heartbeat.Client
import NetProg.Heartbeat.ClientClose
import NetProg.Heartbeat.ClientStreak
import NetProg.Heartbeat.ClientSockets
import NetProg.Base.Urgent
import NetProg.Heartbeat.Srv
import NetProg.Heartbeat.SrvExpiry
import NetProg.Heartbeat.Session
import NetProg.Heartbeat.SessionToken
import NetProg.Heartbeat.SessionReply
import NetProg.Heartbeat.SessionAtomic
import NetProg.Heartbeat.Timed
import NetProg.Heartbeat.TimedAccuracy
import NetProg.Heartbeat.TimedOutage
import NetProg.Base.Utf8
import NetProg.Base.ForLoop
import NetProg.Python.SelectServer
import NetProg.Python.Bookkeeping
import NetProg.Python.PassFailures
import NetProg.Python.Replies
import NetProg.Python.Chunks
import NetProg.Python.ClientServer
import NetProg.Python.ClientPasses
import NetProg.Python.ClientProgress
import NetProg.Base.Text
import NetProg.Http.Client
import NetProg.Http.BufferSize
import NetProg.Http.RoundTrip
import NetProg.Http.Transfer
import NetProg.Base.EdgeTriggered
import NetProg.Epoll.Server
import NetProg.Epoll.Batch
import NetProg.Epoll.ConnWakeups
import NetProg.Epoll.ListenerWakeups
import NetProg.Epoll.StaleEvents
import NetProg.Epoll.Display
import NetProg.Epoll.DisplayAll

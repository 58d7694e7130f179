import Reti.Lottery.Server
import Reti.Lottery.Game
import Reti.Lottery.Isolation
import Reti.Lottery.Limit
import Reti.Lottery.Client
import Reti.Lottery.Invariant
import Reti.Lottery.Agreement
import Reti.ChatUdpServer.Server
import Reti.ChatUdpServer.Delivery
import Reti.ChatTcpGold.Server
import Reti.ChatUdpServer.History
import Reti.ChatTcpGold.Invariant
import Reti.ChatTcpGold.Broadcast
import Reti.ChatTcpGold.Release
import Reti.ChatTcpGold.Framing
import Reti.ChatUdp.Client
import Reti.ChatUdp.System
import Reti.ChatUdp.SameRoom
import Reti.SortServer.Server
import Reti.SortServer.Segmentation
import Reti.TwoWayChat.Broadcast
import Reti.TwoWayChat.Pipe
import Reti.TimeCount.Tcp
import Reti.TimeCount.Udp
import Reti.SquareSum.Rounds
import Reti.AlternatingChat.System
import Reti.OneWayChat.Session
import Reti.AlternatingChat.Stop
import Reti.MultiClient.Exit
import Reti.Lib.Numeral
import Reti.SortServer.Parser
import Reti.SortServer.Order
import Reti.SortServer.Bounds
import Reti.Analgram.Verdict
import Reti.SortServer.Alloc
import Reti.TwoWayChat.Reader
import Reti.ChatUdp.Residue
import Reti.ChatUdp.FailedReceive
import Reti.ChatUdp.Forwarding
import Reti.ChatUdpServer.Text
import Reti.Lottery.Accesses
import Reti.Lib.LinkedNodes
import Reti.SmallCapper.ClientList
import Reti.SmallCapper.Request
import Reti.Modular.Handler
import Reti.TcpState.Echo
import Reti.Forza.Telemetry
import Reti.Dice.Login
import Reti.Analgram.Bounds
import Reti.Analgram.Matching
import Reti.ChatUdp.Transcript
import Reti.ChatUdp.FirstWriters
import Reti.ChatUdpServer.Restart
import Reti.ChatUdpServer.Inbox
import Reti.ChatTcpGold.Client
import Reti.ForkServer.Tables
import Reti.SmallCapper.FreeList
import Reti.Modular.ClientList
import Reti.TimeCount.UdpClient
import Reti.SqrUdp.Conversation
import Reti.AlternatingChat.Turns
import Reti.SquareSum.Oblivious
import Reti.OneWayChat.Service
import Reti.SortServer.Sessions
import Reti.Lottery.Network
import Reti.ChatUdp.Lossy
import Reti.ChatTcpGold.Seniority
import Reti.ChatTcpGold.Conversation
import Reti.ServerClientChat.Operator
import Reti.E1.Question
import Reti.Lotteria.Winner
import Reti.ChatTcpGold.Descriptors

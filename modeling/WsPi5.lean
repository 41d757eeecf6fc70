import WsPi5.Lib.Run
import WsPi5.Lib.Ring
import WsPi5.Lib.Mem
import WsPi5.Lib.Bitmap
import WsPi5.Lib.InetSum
import WsPi5.Lib.Fields
import WsPi5.Lib.Utf8
import WsPi5.Lib.Agenda
import WsPi5.TimerPool
import WsPi5.TimerCalls
import WsPi5.TimerAgenda
import WsPi5.Tcp.Types
import WsPi5.Tcp.Frames
import WsPi5.Tcp.Ops
import WsPi5.Tcp.Handlers
import WsPi5.Tcp.Step
import WsPi5.Tcp.Acts
import WsPi5.Tcp.States
import WsPi5.Tcp.SendBuf
import WsPi5.Tcp.Retransmit
import WsPi5.Tcp.FrameSize
import WsPi5.Tcp.RxStream
import WsPi5.Tcp.PoolOwner
import WsPi5.Tcp.SegmentTimers
import WsPi5.Tcp.TimerOwner
import WsPi5.Tcp.NetCalls
import WsPi5.Tcp.PoolUse
import WsPi5.Tcp.Listener
import WsPi5.Tcp.Table
import WsPi5.Tcp.Fin
import WsPi5.Tcp.OooSlots
import WsPi5.Tcp.TimeWait
import WsPi5.Tcp.SackHole
import WsPi5.Tcp.Shift
import WsPi5.Tcp.HandlerShift
import WsPi5.Tcp.SeqShift
import WsPi5.Tcp.Refused
import WsPi5.Tcp.Flow
import WsPi5.Tcp.Congestion
import WsPi5.Tcp.Window
import WsPi5.Tcp.RttSamples
import WsPi5.Ip.Reasm
import WsPi5.Ip.Fragments
import WsPi5.Ip.ReasmTimers
import WsPi5.Ip.Reassembly
import WsPi5.Tcp.Wire
import WsPi5.Udp
import WsPi5.Offload
import WsPi5.Tcp.StoredIndex
import WsPi5.Tcp.Handles
import WsPi5.Ip.Handles
import WsPi5.Mdns.Probe
import WsPi5.Dhcp.Fsa
import WsPi5.Dhcp.Handles
import WsPi5.System
import WsPi5.Http.Parse
import WsPi5.Http.ParseSplit
import WsPi5.Http.Types
import WsPi5.Http.Poll
import WsPi5.Http.OutputFsa
import WsPi5.Http.NetLoop
import WsPi5.Http.Ways
import WsPi5.Http.Quiet
import WsPi5.Http.Crossing
import WsPi5.Http.WayStates
import WsPi5.Http.Headers
import WsPi5.Http.Output
import WsPi5.Http.PollBoundary
import WsPi5.Http.FsaMemory
import WsPi5.Http.FsaEvents
import WsPi5.Http.ConnHeader
import WsPi5.Http.HalfClose
import WsPi5.Http.PollReads
import WsPi5.Http.Sessions
import WsPi5.Config.Parser
import WsPi5.Config.Lint
import WsPi5.Config.Values
import WsPi5.Config.Taken
import WsPi5.Config.Lines
import WsPi5.Config.Scan
import WsPi5.Config.Agree
import WsPi5.Ntp.Client
import WsPi5.Ntp.Clock
import WsPi5.Ntp.Exchange
import WsPi5.Tcp.SynOptions
import WsPi5.Http.RecvTimeout
import WsPi5.Dhcp.Retransmit
import WsPi5.Dhcp.LeaseTimers
import WsPi5.Chainload.HexRecord
import WsPi5.Chainload.Transfer
import WsPi5.Chainload.HexLoop
import WsPi5.Appliance.Package
import WsPi5.Appliance.Boot
import WsPi5.Appliance.RoundTrip
import WsPi5.Config.Cursor
import WsPi5.Tcp.Paws
import WsPi5.Tcp.Rto
import WsPi5.Lib.Tlv
import WsPi5.Tcp.OptionList
import WsPi5.Dhcp.Inbound
import WsPi5.Chainload.HexAccept
import WsPi5.Http.Grammar
import WsPi5.Http.HeadRun
import WsPi5.Http.ContentLength
import WsPi5.Http.Language
import WsPi5.Lib.Chunked
import WsPi5.Http.Chunk
import WsPi5.Lib.Calendar
import WsPi5.Http.Date
import WsPi5.Lib.Md5
import WsPi5.Ntp.Md5
import WsPi5.Lib.FifoPair
import WsPi5.Vmio.Queue
import WsPi5.Store
import WsPi5.Lib.Html
import WsPi5.Http.Guestbook
import WsPi5.Http.Status
import WsPi5.Lib.ReadInPieces
import WsPi5.Http.DateHeader
import WsPi5.Lib.Dns
import WsPi5.Mdns.Message
import WsPi5.Mdns.Conflict
import WsPi5.Lib.TokenBucket
import WsPi5.RateLimits
import WsPi5.Lib.OnesComplement
import WsPi5.Checksum
import WsPi5.Http.Messages
import WsPi5.Http.Framing
import WsPi5.Http.Persistent
import WsPi5.Lib.Stores
import WsPi5.Net.Link
import WsPi5.Net.Receive
import WsPi5.Net.Senders
import WsPi5.Mdns.Frames
import WsPi5.Net.Answers
import WsPi5.Http.Reply
import WsPi5.Http.Stream
import WsPi5.Dhcp.Messages
import WsPi5.Dhcp.Leases
import WsPi5.Mdns.Names
import WsPi5.Tcp.Delivery
import WsPi5.Http.Delivery
import WsPi5.Chainload.Flash

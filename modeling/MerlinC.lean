import MerlinC.Math.Attempts
import MerlinC.Math.Broadcast
import MerlinC.Math.Delivery
import MerlinC.Math.Gates
import MerlinC.Math.Heaps
import MerlinC.Math.Ledger
import MerlinC.Math.Lines
import MerlinC.Math.Memory
import MerlinC.Math.Owners
import MerlinC.Math.Percent
import MerlinC.Math.QueryString
import MerlinC.Math.Runs
import MerlinC.Math.Search
import MerlinC.Math.Splice
import MerlinC.Math.Sweep
import MerlinC.Math.TailQueue
import MerlinC.Model.Bufferevent
import MerlinC.Model.BuffereventCalls
import MerlinC.Model.BuffereventSock
import MerlinC.Model.CArray
import MerlinC.Model.ChainAdd
import MerlinC.Model.ChainBuffer
import MerlinC.Model.ChainLines
import MerlinC.Model.ChainMemory
import MerlinC.Model.ChainPointer
import MerlinC.Model.ChainPullup
import MerlinC.Model.ChainRemove
import MerlinC.Model.ChainSearch
import MerlinC.Model.ChainSocket
import MerlinC.Model.ChainTransfer
import MerlinC.Model.ChatServer
import MerlinC.Model.DnsProvider
import MerlinC.Model.DnsReply
import MerlinC.Model.EvBuffer
import MerlinC.Model.EvbufferPool
import MerlinC.Model.EventBase
import MerlinC.Model.EventCalls
import MerlinC.Model.FireClientRead
import MerlinC.Model.FireClientSend
import MerlinC.Model.FireServer
import MerlinC.Model.FireTestClient
import MerlinC.Model.MinHeap
import MerlinC.Model.RelayNetwork
import MerlinC.Model.RelayPasses
import MerlinC.Model.ServerCalls
import MerlinC.Model.ServerProcess
import MerlinC.Model.Shell
import MerlinC.Model.UpdateScript
import MerlinC.Soundness.AcceptAllOrNothing
import MerlinC.Soundness.AddressRecords
import MerlinC.Soundness.BuffereventStreams
import MerlinC.Soundness.ChatDelivery
import MerlinC.Soundness.EncoderRoundTrip
import MerlinC.Soundness.EndToEnd
import MerlinC.Soundness.EvbufferAgreement
import MerlinC.Soundness.EvbufferStreams
import MerlinC.Soundness.EventTimeouts
import MerlinC.Soundness.FailedLookup
import MerlinC.Soundness.FrameIntegrity
import MerlinC.Soundness.LineStream
import MerlinC.Soundness.LoadAccounting
import MerlinC.Soundness.ReaderBuffers
import MerlinC.Soundness.ReaderOutput
import MerlinC.Soundness.RelayLoop
import MerlinC.Soundness.ReportedStatus
import MerlinC.Soundness.SendingClient
import MerlinC.Soundness.ServerBroadcast
import MerlinC.Soundness.ServerIsolation
import MerlinC.Soundness.ServerRegistry
import MerlinC.Soundness.ServerRoom
import MerlinC.Soundness.SignedQuery
import MerlinC.Soundness.TimerHeap
import MerlinC.Soundness.TouchedRecord

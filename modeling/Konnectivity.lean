import Konnectivity.Lib.Machine
import Konnectivity.Lib.GoMap
import Konnectivity.Lib.Threads
import Konnectivity.Lib.GoChan
import Konnectivity.Lib.Pipe
import Konnectivity.Lib.Window
import Konnectivity.Proto.Packet
import Konnectivity.Storage.Host
import Konnectivity.Storage.Backend
import Konnectivity.Storage.Storage
import Konnectivity.Storage.Select
import Konnectivity.Storage.Registry
import Konnectivity.Server.Tables
import Konnectivity.Server.Thread
import Konnectivity.Server.Machine
import Konnectivity.Client.Tunnel
import Konnectivity.Proofs.StorageInv
import Konnectivity.Proofs.Tables
import Konnectivity.Proofs.Origin
import Konnectivity.Proofs.Selection
import Konnectivity.Proofs.Registry
import Konnectivity.Proofs.Routing
import Konnectivity.Proofs.Custody
import Konnectivity.Proofs.DialOnce
import Konnectivity.Proofs.Effects
import Konnectivity.Proofs.Sequence
import Konnectivity.Proofs.Isolation
import Konnectivity.Proofs.DialEnd
import Konnectivity.Proofs.Closing
import Konnectivity.Proofs.FrontendEnd
import Konnectivity.Proofs.TunnelInv
import Konnectivity.Proofs.Handover
import Konnectivity.Proofs.Stranded
import Konnectivity.Agent.ClientSet
import Konnectivity.Proofs.ClientSetSafe
import Konnectivity.Server.Leases
import Konnectivity.Proofs.LeaseGC
import Konnectivity.Server.Conn
import Konnectivity.Proofs.ConnRead
import Konnectivity.Proofs.ConnWrite
import Konnectivity.Proofs.ConnGapFree
import Konnectivity.Client.Reusable
import Konnectivity.Proofs.ReusableLife
import Konnectivity.Server.HttpConnect
import Konnectivity.Proofs.HttpStream
import Konnectivity.Proofs.HttpWrites
import Konnectivity.Proofs.HttpSync
import Konnectivity.Proofs.HttpDrain
import Konnectivity.Proofs.HttpQueued
import Konnectivity.Agent.Client
import Konnectivity.Proofs.Endpoint
import Konnectivity.Proofs.Goroutines
import Konnectivity.Proofs.RemoteWrites
import Konnectivity.Proofs.HostPort
import Konnectivity.Proofs.DialLatency
import Konnectivity.Agent.LeaseCounter
import Konnectivity.Proofs.LeaseCount
import Konnectivity.Proofs.PendingCount
import Konnectivity.Server.SendQueue
import Konnectivity.Proofs.SendQueue
import Konnectivity.Server.QueueMetric
import Konnectivity.Proofs.QueueMetric
import Konnectivity.Proofs.ConnGauge
import Konnectivity.Server.FrontendLoop
import Konnectivity.Proofs.FrontendLoop
import Konnectivity.Server.Metrics
import Konnectivity.Proofs.EstablishedCount
import Konnectivity.Proofs.ConnStream
import Konnectivity.Proofs.NilPayload
import Konnectivity.Server.Connect
import Konnectivity.Proofs.AgentAuth
import Konnectivity.Server.DialSend
import Konnectivity.Proofs.DialSend
import Konnectivity.Proofs.QueueRefines
import Konnectivity.Proofs.ConnRefines
import Konnectivity.Proofs.InProcess
import Konnectivity.Proofs.InProcessOnce
import Konnectivity.Proofs.Conversation
import Konnectivity.Proofs.RemoteReads
import Konnectivity.Proofs.Dispatch
import Konnectivity.Link
import Konnectivity.Proofs.EndToEnd

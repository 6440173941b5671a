import IrohBeam.Run
import IrohBeam.Bytes
import IrohBeam.Frame
import IrohBeam.PacketFour
import IrohBeam.Config
import IrohBeam.EndpointOptions
import IrohBeam.Peers
import IrohBeam.Controller
import IrohBeam.Handshake
import IrohBeam.Handoff
import IrohBeam.Admission
import IrohBeam.Ledger
import IrohBeam.Directory
import IrohBeam.Operation
import IrohBeam.Await
import IrohBeam.StreamRecv
import IrohBeam.Accounting
import IrohBeam.Registry
import IrohBeam.Exclusive
import IrohBeam.Freed
import IrohBeam.Links
import IrohBeam.IdentityFile
import IrohBeam.Distribution
import IrohBeam.StreamReset
import IrohBeam.RecvHalf
import IrohBeam.Waiters
import IrohBeam.Cleanup
import IrohBeam.Received
import IrohBeam.InputLoop
import IrohBeam.WakeUp
import IrohBeam.Lock
import IrohBeam.StreamLease
import IrohBeam.StreamFinish
import IrohBeam.StreamAbort
import IrohBeam.SoleUser
import IrohBeam.NeverBusy
import IrohBeam.StartLink
import IrohBeam.Addresses
import IrohBeam.Base32
import IrohBeam.TicketWire
import IrohBeam.Tickets
import IrohBeam.ReadToEnd
import IrohBeam.SendAll
import IrohBeam.HighWater
import IrohBeam.QueueGuard
import IrohBeam.ParserBounds
import IrohBeam.IdentityRecovery
import IrohBeam.StreamInfo
import IrohBeam.Turns
import IrohBeam.Senders
import IrohBeam.ByteStream
import IrohBeam.Dial
import IrohBeam.Sent
import IrohBeam.AcceptLoop
import IrohBeam.Secrets
import IrohBeam.NativeOptions
import IrohBeam.LinkPair
import IrohBeam.NativePeers
import IrohBeam.LinkUp
import IrohBeam.Owners

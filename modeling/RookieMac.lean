import RookieMac.System
import RookieMac.SsdMacInit
import RookieMac.SsaMacInit
import RookieMac.Downlink
import RookieMac.Connection
import RookieMac.Handshake
import RookieMac.MsgQueue
import RookieMac.PollLoop
import RookieMac.Broadcast
import RookieMac.SscMacInit
import RookieMac.Lib.Exchange
import RookieMac.Lib.Mirror
import RookieMac.Proofs.PiTable
import RookieMac.Proofs.SscTable
import RookieMac.Proofs.Notify
import RookieMac.Proofs.StaticTable
import RookieMac.Proofs.Framing
import RookieMac.Proofs.Arrival
import RookieMac.Proofs.Resync
import RookieMac.Proofs.Connection
import RookieMac.Proofs.DumpRace
import RookieMac.Proofs.ClearRace
import RookieMac.Proofs.Compare
import RookieMac.Proofs.Mutex
import RookieMac.Proofs.Interface
import RookieMac.Proofs.Relay
import RookieMac.Proofs.ConfigAgree
import RookieMac.Proofs.Handshake
import RookieMac.Proofs.Agreement
import RookieMac.Proofs.MsgQueue
import RookieMac.Proofs.PollLoop
import RookieMac.Proofs.SscMacInit
import RookieMac.Proofs.TableMap
import RookieMac.Proofs.Deletions
import RookieMac.Proofs.Broadcast
import RookieMac.Proofs.PollPass
import RookieMac.Proofs.PollBounds
import RookieMac.Proofs.LearnText
import RookieMac.Proofs.ConfigTransfer
import RookieMac.Proofs.Dispatch
import RookieMac.Proofs.Bucket
import RookieMac.HashTabMem
import RookieMac.Proofs.HashTabMem
import RookieMac.SscDbMem
import RookieMac.Proofs.SscDbMem
import RookieMac.Lib.Hops
import RookieMac.Uplink
import RookieMac.Network
import RookieMac.Proofs.Commands
import RookieMac.Proofs.ChipTable
import RookieMac.Lib.WaitOrder
import RookieMac.Lib.Sections
import RookieMac.Threads
import RookieMac.Proofs.Threads
import RookieMac.Reconnect
import RookieMac.Proofs.Reconnect
import RookieMac.Lib.Printing
import RookieMac.CliShow
import RookieMac.Proofs.CliShow
import RookieMac.Lib.Atomic
import RookieMac.PiAccess
import RookieMac.Proofs.PiAccess
import RookieMac.SscAccess
import RookieMac.Proofs.SscAccess
import RookieMac.Proofs.PollLife

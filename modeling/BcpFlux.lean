import BcpFlux.Flow.Generation
import BcpFlux.Socket.Nonce
import BcpFlux.Socket.Secured
import BcpFlux.Transfer.Resolution
import BcpFlux.Transfer.Answer
import BcpFlux.Socket.SlotBounds
import BcpFlux.Socket.FlowAck
import BcpFlux.Socket.WireSize
import BcpFlux.Socket.Origins
import BcpFlux.Flow.Windows
import BcpFlux.Socket.Events
import BcpFlux.Socket.SendOrder
import BcpFlux.Socket.Conservation
import BcpFlux.Socket.Grant
import BcpFlux.Socket.ReceiveBounds
import BcpFlux.Socket.Stragglers
import BcpFlux.Socket.Rebinding
import BcpFlux.Peer.Refinement
import BcpFlux.Socket.Pacing
import BcpFlux.Flow.Deadline
import BcpFlux.Socket.Collapse
import BcpFlux.Socket.IdleSend
import BcpFlux.Socket.OneTrim
import BcpFlux.Socket.Starvation
import BcpFlux.Transfer.Segments
import BcpFlux.Crypto.CertStore

import Ubgp.Wire.RoundTrip
import Ubgp.Wire.Framing
import Ubgp.Wire.Diagnostics
import Ubgp.Wire.OpenGrammar
import Ubgp.Bgp.Batching
import Ubgp.Bgp.Listeners
import Ubgp.Bgp.Replay
import Ubgp.Bgp.Wakeup
import Ubgp.Bgp.Withdraw
import Ubgp.Bgp.Hold
import Ubgp.Bgp.Stream
import Ubgp.Bgp.Conversation
import Ubgp.Bgp.Outbound
import Ubgp.Bgp.Adjacency
import Ubgp.Bgp.Pacing
import Ubgp.Bgp.Backoff
import Ubgp.Bgp.Sockets
import Ubgp.Netlink.Quiescence
import Ubgp.Netlink.Snapshot
import Ubgp.Netlink.Rtnetlink
import Ubgp.Netlink.Pacing
import Ubgp.Management.Console
import Ubgp.Management.Status
import Ubgp.Management.Dialogue
import Ubgp.Generation
import Ubgp.Forwarding
import Ubgp.Startup
import Ubgp.Reload

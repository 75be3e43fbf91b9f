import HdlPlayground.Lib.Stream
import HdlPlayground.Lib.Framing
import HdlPlayground.Cosim.Transport
import HdlPlayground.Cosim.RawPath
import HdlPlayground.Cosim.SpoofClock
import HdlPlayground.Cosim.TimeMux
import HdlPlayground.Ether.Robustness
import HdlPlayground.Tcp.CloseTimers
import HdlPlayground.Tcp.SenderRuns
import HdlPlayground.Tcp.Stalls
import HdlPlayground.Tcp.FsmRuns
import HdlPlayground.Tcp.Refusals
import HdlPlayground.Tcp.Resets
import HdlPlayground.Tcp.PeerFin
import HdlPlayground.Tcp.AckTaken
import HdlPlayground.Tcp.AnyOrder
import HdlPlayground.Tcp.FlowControl
import HdlPlayground.Tcp.Options
import HdlPlayground.Tcp.ZeroWindow
import HdlPlayground.Tcp.Isolation
import HdlPlayground.Tcp.Urgent
import HdlPlayground.Tcp.GiveUp
import HdlPlayground.Tcp.Persistence
import HdlPlayground.Tcp.Overrun
import HdlPlayground.Tcp.Network
import HdlPlayground.Tcp.Estimates
import HdlPlayground.Tcp.Wire
import HdlPlayground.Tcp.Seeding
import HdlPlayground.Tcp.Mss
import HdlPlayground.Tcp.UntilIdle

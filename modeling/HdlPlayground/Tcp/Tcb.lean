import HdlPlayground.Tcp.Segment
import HdlPlayground.Tcp.Timers

/-!
# The state of a `TcpEngine`

`core/tcb.py` and the attributes that `TcpEngine.__init__` sets, grouped as its
comments group them. Three things are not attributes of the source: `log`, what
the injected `tx` and callbacks have been called with so far; `exc` and `hung`,
how the current entry point ended if it did not return; and `rand`, the number
the next `random.randint` call yields.
-/
namespace HdlPlayground.Tcp

inductive ConnState where
  | closed | listen | synSent | synReceived | established
  | finWait1 | finWait2 | closeWait | closing | lastAck | timeWait
deriving DecidableEq, Repr

namespace ConnState

/-- `str` of the enumeration member. -/
def str : ConnState → String
  | closed => "ConnState.CLOSED"
  | listen => "ConnState.LISTEN"
  | synSent => "ConnState.SYN_SENT"
  | synReceived => "ConnState.SYN_RECEIVED"
  | established => "ConnState.ESTABLISHED"
  | finWait1 => "ConnState.FIN_WAIT_1"
  | finWait2 => "ConnState.FIN_WAIT_2"
  | closeWait => "ConnState.CLOSE_WAIT"
  | closing => "ConnState.CLOSING"
  | lastAck => "ConnState.LAST_ACK"
  | timeWait => "ConnState.TIME_WAIT"

end ConnState

/-- Transmission Control Block: the per-connection protocol variables. -/
structure TCB where
  state : ConnState := .closed
  iss : Int := 0
  sndUna : Int := 0
  sndNxt : Int := 0
  sndWnd : Nat := 0
  sndWl1 : Int := 0
  sndWl2 : Int := 0
  sndUp : Int := 0
  irs : Int := 0
  rcvNxt : Int := 0
  rcvWnd : Nat := 0
  rcvUp : Int := 0
  sndMss : Nat := 1460
deriving DecidableEq

/-- A sent-but-unacknowledged segment held on the retransmission queue. -/
structure Outgoing where
  seq : Int
  flags : Flags
  payload : List UInt8
  sentTime : ℚ
  retransmitted : Bool := false
deriving DecidableEq

namespace Outgoing

def segLen (o : Outgoing) : Nat := o.payload.length + o.flags.syn.toNat + o.flags.fin.toNat

def endSeq (o : Outgoing) : Int := add o.seq o.segLen

end Outgoing

/-- The entry that is left when an acknowledgement falls inside it. -/
def Outgoing.cut (ack : Int) (o : Outgoing) : Outgoing :=
  let trim := sub ack o.seq
  let (o, trim) :=
    if o.flags.syn && 1 ≤ trim then
      ({ o with flags := { o.flags with syn := false }, seq := add o.seq 1 }, trim - 1)
    else (o, trim)
  if 0 < trim then { o with payload := o.payload.drop trim.toNat, seq := ack } else o

/-- Trim the retransmission queue to an acknowledgement. -/
def trimRetx (ack : Int) : List Outgoing → List Outgoing
  | [] => []
  | o :: q =>
    if seqLeq o.endSeq ack then trimRetx ack q
    else if seqLt o.seq ack then o.cut ack :: q
    else o :: q

/-- An out-of-order segment waiting for reassembly. -/
structure OooEntry where
  seq : Int
  data : List UInt8
  flags : Flags
deriving DecidableEq

inductive Callback where
  | onRto | onPersist | onDelack | onTimeWait | onKeepalive
deriving DecidableEq, Repr

inductive Exc where
  | runtimeError (msg : String)
  | valueError (msg : String)
  | structError
deriving DecidableEq

inductive Event where
  | tx (seg : TcpSegment)
  | deliver (data : List UInt8)
  | eof
  | stateChange (old new : ConnState)
  | error (msg : String)
  | received (data : List UInt8) (push urgent : Bool)
deriving DecidableEq

structure Conf where
  localPort : Nat
  remotePort : Nat := 0
  cfgRemotePort : Nat := 0
  cfg : TimerConfig := {}
  name : String := "tcp"
  connectionName : String := ""
  cfgMss : Nat := 1460
  rcvWndMax : Nat := 65535
  issConfig : Option Int := none
  onData : Bool := false
deriving DecidableEq

structure Buffers where
  appBuf : List UInt8 := []
  recvBuf : List UInt8 := []
  retx : List Outgoing := []
  ooo : List OooEntry := []
deriving DecidableEq

structure CloseState where
  passive : Bool := false
  finPending : Bool := false
  finSent : Bool := false
  finAcked : Bool := false
  finSeq : Int := 0
  peerFin : Bool := false
  pendingFin : Option Int := none
deriving DecidableEq

structure PushUrgent where
  push : Bool := false
  pushSeen : Bool := false
  urgentSeen : Bool := false
deriving DecidableEq

structure EngineTimers where
  sched : ManualScheduler Callback := {}
  rtTimer : Option Nat := none
  persistTimer : Option Nat := none
  persistBackoff : ℚ
  twTimer : Option Nat := none
  ackTimer : Option Nat := none
  ackCount : Nat := 0
  rtoCount : Nat := 0
  kaTimer : Option Nat := none
  kaProbes : Nat := 0

structure RttState where
  rtt : RttEstimator
  rttPending : Option (Int × ℚ) := none
  unaSince : Option ℚ := none
deriving DecidableEq

structure Advertised where
  zeroWinAdvertised : Bool := false
  advRight : Option Int := none
deriving DecidableEq

structure Env where
  log : List Event := []
  exc : Option Exc := none
  hung : Bool := false
  rand : Nat := 0
deriving DecidableEq

structure TcpEngine where
  conf : Conf
  tcb : TCB
  buf : Buffers
  fin : CloseState
  psh : PushUrgent
  tm : EngineTimers
  rt : RttState
  adv : Advertised
  env : Env

/-- The arguments of the constructor. -/
structure EngineArgs where
  localPort : Nat
  remotePort : Nat := 0
  sndMss : Nat := 1460
  rcvWnd : Nat := 65535
  iss : Option Int := none
  timers : TimerConfig := {}
  onData : Bool := false
  name : String := "tcp"

namespace TcpEngine

def connName (name : String) (localPort remotePort : Nat) : String :=
  s!"{name}:{localPort}->{remotePort}"

/-- `TcpEngine.__init__` on a scheduler. -/
def init (a : EngineArgs) (sched : ManualScheduler Callback) (rand : Nat) : TcpEngine where
  conf :=
    { localPort := a.localPort
      remotePort := a.remotePort
      cfgRemotePort := a.remotePort
      cfg := a.timers
      name := a.name
      connectionName := connName a.name a.localPort a.remotePort
      cfgMss := a.sndMss
      rcvWndMax := a.rcvWnd
      issConfig := a.iss
      onData := a.onData }
  tcb := { sndMss := a.sndMss, rcvWnd := a.rcvWnd }
  buf := {}
  fin := {}
  psh := {}
  tm := { sched := sched, persistBackoff := a.timers.persistMin }
  rt := { rtt := RttEstimator.init a.timers }
  adv := {}
  env := { rand := rand }

end TcpEngine

end HdlPlayground.Tcp

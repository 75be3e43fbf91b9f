import HdlPlayground.Tcp.SegmentArrives
import HdlPlayground.Lib.Machine

/-!
# User calls and runs of an engine

The user calls of `core/engine.py`, and the engine as a machine whose actions are
the entry points: user calls, arriving byte strings, and the expiry of a timer
that is live and due. Time passes, and the source of random numbers changes,
between entry points. An action whose entry point would never return is no step.
-/
namespace HdlPlayground.Tcp

namespace TcpEngine

def raise (e : TcpEngine) (msg : String) : TcpEngine := e.setExc (.runtimeError msg)

/-- The active open itself, once the state allows it. -/
def connect (e : TcpEngine) : TcpEngine :=
  let iss := e.newIss
  let e :=
    { e with
      fin := { e.fin with passive := false }
      tcb := { e.tcb with iss := iss, sndUna := iss, sndNxt := iss, sndWnd := 0 } }
  (e.setState .synSent).queueAndSend { syn := true } [] true

def activeOpen (e : TcpEngine) : TcpEngine :=
  if e.tcb.state ≠ .closed ∧ e.tcb.state ≠ .listen then
    e.raise s!"connection already exists ({e.tcb.state.str})"
  else e.connect

def startListening (e : TcpEngine) : TcpEngine :=
  setState { e with fin := { e.fin with passive := true } } .listen

def passiveOpen (e : TcpEngine) : TcpEngine :=
  if e.tcb.state ≠ .closed then e.raise s!"connection already exists ({e.tcb.state.str})"
  else e.startListening

def setUserTimeout (e : TcpEngine) : Option ℚ → TcpEngine
  | none => e
  | some t => { e with conf := { e.conf with cfg := { e.conf.cfg with userTimeout := some t } } }

def setPorts (e : TcpEngine) (remotePort localPort : Option Nat) : TcpEngine :=
  let rport := remotePort.getD e.conf.remotePort
  let lport := localPort.getD e.conf.localPort
  { e with conf :=
    { e.conf with
      remotePort := rport, localPort := lport,
      connectionName := connName e.conf.name lport rport } }

/-- `open`: the ports, the connection name and the timeout are set before the
call it delegates to checks the state. -/
def openCall (e : TcpEngine) (active : Bool) (remotePort localPort : Option Nat)
    (timeout : Option ℚ) : TcpEngine :=
  let e := (e.setPorts remotePort localPort).setUserTimeout timeout
  if active then e.activeOpen else e.passiveOpen

/-- The data of a SEND joins the buffer. -/
def bufferData (e : TcpEngine) (data : List UInt8) (push : Bool) : TcpEngine :=
  { e with
    psh := { e.psh with push := push || e.psh.push }
    buf := { e.buf with appBuf := e.buf.appBuf ++ data } }

def setSndUp (e : TcpEngine) : TcpEngine :=
  { e with tcb := { e.tcb with sndUp := add e.tcb.sndNxt e.buf.appBuf.length } }

/-- `send` from the point where the data is in the buffer and the state is not LISTEN. -/
def sendQueued (e : TcpEngine) (data : List UInt8) (urgent : Bool) : TcpEngine :=
  let e := if urgent && !data.isEmpty then e.setSndUp else e
  if e.tcb.state = .established ∨ e.tcb.state = .closeWait then e.sendPending else e

def send (e : TcpEngine) (data : List UInt8) (push urgent : Bool) (timeout : Option ℚ) :
    TcpEngine :=
  if e.tcb.state = .closed then e.raise "connection does not exist"
  else if e.tcb.state ∈ [.finWait1, .finWait2, .closing, .lastAck, .timeWait] ∨
      e.fin.finPending then
    e.raise "connection closing"
  else
    let e := (e.setUserTimeout timeout).bufferData data push
    if e.tcb.state = .listen then
      if e.conf.remotePort = 0 then e.raise "foreign socket unspecified"
      else
        let e := e.activeOpen
        if e.env.exc.isSome then e else e.sendQueued data urgent
    else e.sendQueued data urgent

def drain (e : TcpEngine) (maxLen : Nat) : TcpEngine :=
  { e with buf := { e.buf with recvBuf := e.buf.recvBuf.drop maxLen } }

def reopenWindow (e : TcpEngine) : TcpEngine :=
  { e with adv := { e.adv with zeroWinAdvertised := false } }

/-- The indicators of a RECEIVE; draining the buffer clears them. -/
def finishReceive (e : TcpEngine) (data : List UInt8) : TcpEngine :=
  let push := e.psh.pushSeen
  let urgent := e.psh.urgentSeen
  let e :=
    if e.buf.recvBuf = [] then
      { e with psh := { e.psh with pushSeen := false, urgentSeen := false } }
    else e
  e.emit (.received data push urgent)

def receive (e : TcpEngine) (maxLen : Nat) : TcpEngine :=
  if e.tcb.state = .closed then e.raise "connection does not exist"
  else if e.tcb.state ∈ [.closing, .lastAck, .timeWait] then e.raise "connection closing"
  else if e.tcb.state = .closeWait ∧ e.buf.recvBuf = [] then e.raise "connection closing"
  else
    let data := e.buf.recvBuf.take maxLen
    let e := e.drain maxLen
    let e :=
      if data ≠ [] ∧ e.adv.zeroWinAdvertised ∧ 0 < e.rcvWnd then e.reopenWindow.sendAck else e
    e.finishReceive data

def requestFin (e : TcpEngine) : TcpEngine :=
  { e with fin := { e.fin with finPending := true } }

def close (e : TcpEngine) : TcpEngine :=
  if e.tcb.state = .closed then e.raise "connection does not exist"
  else if e.tcb.state ∈ [.finWait1, .finWait2, .closing, .lastAck, .timeWait] then
    e.raise "connection closing"
  else if e.tcb.state = .listen ∨ e.tcb.state = .synSent then e.enterClosed
  else e.requestFin.sendPending

def abort (e : TcpEngine) : TcpEngine :=
  if e.tcb.state = .closed then e.raise "connection does not exist"
  else
    let e :=
      if e.tcb.state ∈ [.synReceived, .established, .finWait1, .finWait2, .closeWait] then e.sendRst
      else e
    e.enterClosed

/-- A timer callback runs. -/
def callback (e : TcpEngine) : Callback → TcpEngine
  | .onRto => e.onRto
  | .onPersist => e.onPersist
  | .onDelack => e.onDelack
  | .onTimeWait => e.onTimeWait
  | .onKeepalive => e.onKeepalive

end TcpEngine

inductive Action where
  | tick (dt : ℚ)
  | random (r : Nat)
  | openCall (active : Bool) (remotePort localPort : Option Nat) (timeout : Option ℚ)
  | activeOpen
  | passiveOpen
  | send (data : List UInt8) (push urgent : Bool) (timeout : Option ℚ)
  | receive (maxLen : Nat)
  | close
  | abort
  | segment (data : List UInt8)
  | expire (h : TimerHandle Callback)

namespace TcpEngine

def passTime (e : TcpEngine) (dt : ℚ) : TcpEngine :=
  { e with tm := { e.tm with sched := { e.tm.sched with now := e.now + dt } } }

def drawRandom (e : TcpEngine) (r : Nat) : TcpEngine := { e with env := { e.env with rand := r } }

def popTimer (e : TcpEngine) (h : TimerHandle Callback) : TcpEngine :=
  { e with tm := { e.tm with sched := e.tm.sched.pop h.id } }

/-- The effect of an action; `exc` tells how the entry point ended. -/
def perform (e : TcpEngine) : Action → TcpEngine
  | .tick dt => e.passTime dt
  | .random r => e.drawRandom r
  | .openCall active remotePort localPort timeout =>
    e.openCall active remotePort localPort timeout
  | .activeOpen => e.activeOpen
  | .passiveOpen => e.passiveOpen
  | .send data push urgent timeout => e.send data push urgent timeout
  | .receive maxLen => e.receive maxLen
  | .close => e.close
  | .abort => e.abort
  | .segment data => e.onSegment data
  | .expire h => (e.popTimer h).callback h.cb

/-- Time does not run backwards, and only a live timer that is due expires. -/
def Enabled (e : TcpEngine) : Action → Prop
  | .tick dt => 0 ≤ dt
  | .expire h => h ∈ e.tm.sched.live ∧ h.deadline ≤ e.now
  | _ => True

instance (e : TcpEngine) : (a : Action) → Decidable (e.Enabled a)
  | .tick dt => inferInstanceAs (Decidable (0 ≤ dt))
  | .expire h => inferInstanceAs (Decidable (h ∈ e.tm.sched.live ∧ h.deadline ≤ e.now))
  | .random _ | .openCall .. | .activeOpen | .passiveOpen | .send .. | .receive _ | .close
  | .abort | .segment _ => inferInstanceAs (Decidable True)

/-- An entry point starts with no exception under way. -/
def enter (e : TcpEngine) : TcpEngine := { e with env := { e.env with exc := none } }

end TcpEngine

/-- The engine as a machine over its entry points. -/
def engineMachine : Lib.Machine TcpEngine Action where
  step e a :=
    if e.Enabled a then
      let e' := e.enter.perform a
      if e'.env.hung then none else some e'
    else none

end HdlPlayground.Tcp

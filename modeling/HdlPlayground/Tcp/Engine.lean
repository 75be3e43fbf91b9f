import HdlPlayground.Tcp.Tcb

/-!
# The send path, the timers and the shutdown of `TcpEngine`

Each method of `core/engine.py` is a function on the engine state. `tx` and the
callbacks do not re-enter the engine here: a call appends to the log and
returns.
-/
namespace HdlPlayground.Tcp

namespace TcpEngine

def emit (e : TcpEngine) (ev : Event) : TcpEngine :=
  { e with env := { e.env with log := e.env.log ++ [ev] } }

def setExc (e : TcpEngine) (x : Exc) : TcpEngine :=
  { e with env := { e.env with exc := some x } }

/-- A loop of the entry point never ends. -/
def hang (e : TcpEngine) : TcpEngine := { e with env := { e.env with hung := true } }

def withState (e : TcpEngine) (st : ConnState) : TcpEngine :=
  { e with tcb := { e.tcb with state := st } }

def now (e : TcpEngine) : ℚ := e.tm.sched.now

/-! ## Keepalive and state changes -/

def restartKeepalive (e : TcpEngine) (resetProbes : Bool) : TcpEngine :=
  match e.conf.cfg.keepaliveIdle with
  | none => e
  | some idle =>
    let probes := if resetProbes then 0 else e.tm.kaProbes
    let sched := e.tm.sched.cancel e.tm.kaTimer
    if e.tcb.state ≠ .established then
      { e with tm := { e.tm with kaProbes := probes, sched := sched, kaTimer := none } }
    else
      let delay := if probes = 0 then idle else e.conf.cfg.keepaliveInterval
      let (h, sched) := sched.callLater delay .onKeepalive
      { e with tm := { e.tm with kaProbes := probes, sched := sched, kaTimer := some h } }

def cancelKeepalive (e : TcpEngine) : TcpEngine :=
  { e with tm :=
    { e.tm with sched := e.tm.sched.cancel e.tm.kaTimer, kaTimer := none, kaProbes := 0 } }

def setState (e : TcpEngine) (new : ConnState) : TcpEngine :=
  let old := e.tcb.state
  if old = new then e
  else
    let e := e.withState new
    let e :=
      if new = .established then e.restartKeepalive true
      else if old = .established then e.cancelKeepalive
      else e
    e.emit (.stateChange old new)

def signalError (e : TcpEngine) (msg : String) : TcpEngine := e.emit (.error msg)

/-- EOF marker for streaming sinks. -/
def signalClose (e : TcpEngine) : TcpEngine :=
  if e.conf.onData then e.emit .eof else e

/-! ## Building and transmitting segments -/

def rcvWnd (e : TcpEngine) : Nat :=
  let raw := e.conf.rcvWndMax - e.buf.recvBuf.length
  match e.conf.cfg.swsAvoidance, e.adv.advRight with
  | true, some advRight =>
    -- advance the advertised right edge only by min(MSS, buf/2) or more
    let curRight := add e.tcb.rcvNxt raw
    if seqGt curRight advRight then
      let thresh := min e.tcb.sndMss (max 1 (e.conf.rcvWndMax / 2))
      if sub curRight advRight < thresh then (s32 (sub advRight e.tcb.rcvNxt)).toNat else raw
    else raw
  | _, _ => raw

/-- The bookkeeping `_make_segment` does for the window it advertises. -/
def advertise (e : TcpEngine) : TcpEngine :=
  let wnd := e.rcvWnd
  let right := add e.tcb.rcvNxt wnd
  let advRight :=
    match e.adv.advRight with
    | none => some right
    | some r => if seqGt right r then some right else some r
  { e with adv :=
    { zeroWinAdvertised := wnd = 0 || e.adv.zeroWinAdvertised, advRight := advRight } }

/-- The segment `_make_segment` returns. -/
def segmentFor (e : TcpEngine) (seq : Int) (flags : Flags) (payload : List UInt8 := [])
    (withMss : Bool := false) (urgentPtr : Nat := 0) : TcpSegment where
  srcPort := e.conf.localPort
  dstPort := e.conf.remotePort
  seq := seq
  ack := if flags.ack then e.tcb.rcvNxt else 0
  flags := flags
  window := e.rcvWnd
  urgentPtr := urgentPtr
  payload := payload
  mss := if withMss then some e.tcb.sndMss else none

/-- `_tx(seg.build())`: `build` raises before anything is sent. -/
def transmit (e : TcpEngine) (seg : TcpSegment) : TcpEngine :=
  match seg.build with
  | .error _ => e.setExc .structError
  | .ok _ => e.emit (.tx seg)

/-- `_transmit(_make_segment(...))`. -/
def makeAndTransmit (e : TcpEngine) (seq : Int) (flags : Flags) (payload : List UInt8 := [])
    (withMss : Bool := false) (urgentPtr : Nat := 0) : TcpEngine :=
  e.advertise.transmit (e.segmentFor seq flags payload withMss urgentPtr)

/-- `_rt_timer` becomes a new timer. -/
def startRt (e : TcpEngine) : TcpEngine :=
  let (h, sched) := e.tm.sched.callLater e.rt.rtt.rto .onRto
  { e with tm := { e.tm with sched := sched, rtTimer := some h } }

def armRt (e : TcpEngine) : TcpEngine :=
  if e.buf.retx = [] then e
  else
    match e.tm.rtTimer with
    | some h => if !e.tm.sched.isCancelled h then e else e.startRt
    | none => e.startRt

/-- `_queue_and_send` up to its call of `_transmit`: the entry goes on the queue. -/
def enqueue (e : TcpEngine) (flags : Flags) (payload : List UInt8) : TcpEngine :=
  let o : Outgoing := ⟨e.tcb.sndNxt, flags, payload, e.now, false⟩
  let sndNxt := add e.tcb.sndNxt o.segLen
  { e with
    buf := { e.buf with retx := e.buf.retx ++ [o] }
    tcb := { e.tcb with sndNxt := sndNxt }
    rt :=
      { e.rt with
        unaSince := if e.buf.retx = [] then some e.now else e.rt.unaSince
        rttPending := if e.rt.rttPending = none then some (sndNxt, e.now) else e.rt.rttPending } }

def queueAndSend (e : TcpEngine) (flags : Flags) (payload : List UInt8) (withMss : Bool := false)
    (urgentPtr : Nat := 0) : TcpEngine :=
  let seg := e.segmentFor e.tcb.sndNxt flags payload withMss urgentPtr
  let e := e.advertise.enqueue flags payload
  match seg.build with
  | .error _ => e.setExc .structError
  | .ok _ => (e.emit (.tx seg)).armRt

def clearAckTimer (e : TcpEngine) : TcpEngine :=
  { e with tm :=
    { e.tm with ackCount := 0, sched := e.tm.sched.cancel e.tm.ackTimer, ackTimer := none } }

def sendAck (e : TcpEngine) : TcpEngine :=
  (e.makeAndTransmit e.tcb.sndNxt { ack := true }).clearAckTimer

def scheduleAck (e : TcpEngine) (force : Bool) : TcpEngine :=
  match e.conf.cfg.delayedAck with
  | none => e.sendAck
  | some delay =>
    if force then e.sendAck
    else
      let e := { e with tm := { e.tm with ackCount := e.tm.ackCount + 1 } }
      if 2 ≤ e.tm.ackCount then e.sendAck
      else if e.tm.ackTimer = none then
        let (h, sched) := e.tm.sched.callLater delay .onDelack
        { e with tm := { e.tm with sched := sched, ackTimer := some h } }
      else e

def emitRstReply (e : TcpEngine) (seg : TcpSegment) (seq : Int) (ack : Int := 0)
    (ackFlag : Bool := false) : TcpEngine :=
  e.transmit
    { srcPort := if seg.dstPort ≠ 0 then seg.dstPort else e.conf.localPort
      dstPort := if seg.srcPort ≠ 0 then seg.srcPort else e.conf.remotePort
      seq := seq
      ack := ack
      flags := { rst := true, ack := ackFlag }
      window := 0 }

/-! ## Sending queued data -/

def usableWindow (e : TcpEngine) : Int :=
  s32 (sub (add e.tcb.sndUna e.tcb.sndWnd) e.tcb.sndNxt)

def armPersist (e : TcpEngine) : TcpEngine :=
  match e.tm.persistTimer with
  | some h =>
    if !e.tm.sched.isCancelled h then e
    else
      let (h, sched) := e.tm.sched.callLater e.conf.cfg.persistMin .onPersist
      { e with tm :=
        { e.tm with
          persistBackoff := e.conf.cfg.persistMin, sched := sched, persistTimer := some h } }
  | none =>
    let (h, sched) := e.tm.sched.callLater e.conf.cfg.persistMin .onPersist
    { e with tm :=
      { e.tm with
        persistBackoff := e.conf.cfg.persistMin, sched := sched, persistTimer := some h } }

/-- The chunk of `n` bytes leaves the buffer. -/
def takeChunk (e : TcpEngine) (n : Nat) : TcpEngine :=
  { e with buf := { e.buf with appBuf := e.buf.appBuf.drop n } }

/-- Nothing is left to send after this chunk. -/
def lastChunk (e : TcpEngine) : Bool := e.buf.appBuf.isEmpty && !e.fin.finPending

def urgentNow (e : TcpEngine) : Bool := seqLt e.tcb.sndNxt e.tcb.sndUp

def chunkFlags (e : TcpEngine) : Flags :=
  { ack := true, psh := e.lastChunk && e.psh.push, urg := e.urgentNow }

def urgentPointer (e : TcpEngine) : Nat :=
  if e.urgentNow then min 65535 (sub e.tcb.sndUp e.tcb.sndNxt).toNat else 0

/-- One pass of the segmentation loop: the chunk of `n` bytes goes out. -/
def sendChunk (e : TcpEngine) (n : Nat) : TcpEngine :=
  let chunk := e.buf.appBuf.take n
  let e := e.takeChunk n
  let sent := e.queueAndSend e.chunkFlags chunk false e.urgentPointer
  if e.lastChunk && e.psh.push then { sent with psh := { sent.psh with push := false } } else sent

/-- The segmentation loop. The flag says whether it ended with the buffer empty
rather than by a `return`. The fuel is the number of buffered bytes: it runs out
only when chunks are empty, where the source never leaves the loop. -/
def dataLoop : Nat → TcpEngine → TcpEngine × Bool
  | fuel, e =>
    if e.buf.appBuf = [] then (e, true)
    else if e.tcb.sndWnd = 0 then (e.armPersist, false)
    else
      let usable := e.usableWindow
      if usable ≤ 0 then (e, false)
      else
        let n := min e.tcb.sndMss (min usable.toNat e.buf.appBuf.length)
        if e.conf.cfg.nagle && !e.buf.retx.isEmpty && n < e.tcb.sndMss then (e, false)
        else
          match fuel with
          | 0 => (e.hang, false)
          | fuel + 1 => dataLoop fuel (e.sendChunk n)

/-- `fin_seq` is fixed and the FIN goes out. -/
def finQueued (e : TcpEngine) : TcpEngine :=
  let e := { e with fin := { e.fin with finSeq := e.tcb.sndNxt } }
  let e := e.queueAndSend { ack := true, fin := true } []
  { e with fin := { e.fin with finSent := true } }

def sendFin (e : TcpEngine) : TcpEngine :=
  let e := e.finQueued
  match e.tcb.state with
  | .established => e.setState .finWait1
  | .closeWait => e.setState .lastAck
  | .synReceived => e.setState .finWait1
  | _ => e

def finPart (e : TcpEngine) : TcpEngine :=
  if e.fin.finPending && !e.fin.finSent && e.buf.appBuf.isEmpty then
    if e.tcb.sndWnd = 0 then e.armPersist
    else if e.usableWindow < 1 then e
    else e.sendFin
  else e

def sendPending (e : TcpEngine) : TcpEngine :=
  if e.tcb.state = .established ∨ e.tcb.state = .closeWait ∨
      (e.tcb.state = .synReceived ∧ e.fin.finPending ∧ e.buf.appBuf = []) then
    let (e, done) := e.dataLoop e.buf.appBuf.length
    if done then e.finPart else e
  else e

/-! ## Retransmission timer -/

def restartRt (e : TcpEngine) : TcpEngine :=
  let e := { e with tm := { e.tm with sched := e.tm.sched.cancel e.tm.rtTimer, rtTimer := none } }
  if e.buf.retx = [] then e else e.startRt

def stopRt (e : TcpEngine) : TcpEngine :=
  { e with tm :=
    { e.tm with sched := e.tm.sched.cancel e.tm.rtTimer, rtTimer := none, rtoCount := 0 } }

/-! ## Acknowledgement processing -/

/-- The RTT sample of `_process_ack`. -/
def takeSample (e : TcpEngine) (ack : Int) : TcpEngine :=
  match e.rt.rttPending with
  | none => e
  | some (endSeq, t) =>
    if seqGeq ack endSeq then
      { e with rt :=
        { e.rt with rtt := e.rt.rtt.sample e.conf.cfg (e.now - t), rttPending := none } }
    else e

def processAck (e : TcpEngine) (ack : Int) : TcpEngine :=
  let e := e.takeSample ack
  let e :=
    { e with
      tcb := { e.tcb with sndUna := ack }
      buf := { e.buf with retx := trimRetx ack e.buf.retx } }
  let e :=
    { e with
      fin := { e.fin with
        finAcked := e.fin.finAcked || (e.fin.finSent && seqGt e.tcb.sndUna e.fin.finSeq) }
      rt := { e.rt with unaSince := if e.buf.retx = [] then none else some e.now }
      tm := { e.tm with rtoCount := 0 } }
  if e.buf.retx = [] then e.stopRt else e.restartRt

/-! ## Resets and shutdown -/

def dropPersistTimer (e : TcpEngine) : TcpEngine :=
  { e with tm :=
    { e.tm with sched := e.tm.sched.cancel e.tm.persistTimer, persistTimer := none } }

/-- `_cancel_persist` goes on to `_send_pending`. -/
def cancelPersist (e : TcpEngine) : TcpEngine := e.dropPersistTimer.sendPending

def resetBuffers (e : TcpEngine) : TcpEngine :=
  { e with
    buf := {}
    fin :=
      { e.fin with finPending := false, finSent := false, finAcked := false, pendingFin := none }
    rt := { e.rt with rttPending := none, unaSince := none }
    adv := { e.adv with advRight := none } }

def cancelTwTimer (e : TcpEngine) : TcpEngine :=
  { e with tm := { e.tm with sched := e.tm.sched.cancel e.tm.twTimer, twTimer := none } }

def cancelAckTimer (e : TcpEngine) : TcpEngine :=
  { e with tm := { e.tm with sched := e.tm.sched.cancel e.tm.ackTimer, ackTimer := none } }

/-- The last two lines of `_enter_closed`. -/
def closeDown (e : TcpEngine) : TcpEngine := e.resetBuffers.setState .closed

def enterClosed (e : TcpEngine) : TcpEngine :=
  e.stopRt.cancelPersist.cancelKeepalive.cancelTwTimer.cancelAckTimer.closeDown

def sendRst (e : TcpEngine) : TcpEngine := e.makeAndTransmit e.tcb.sndNxt { rst := true }

/-- `_abort`, which retransmission, user-timeout and keepalive give-up call. -/
def giveUp (e : TcpEngine) (reason : String) : TcpEngine :=
  let e :=
    if e.tcb.state ∈ [.established, .finWait1, .finWait2, .closeWait, .synReceived] then e.sendRst
    else e
  (e.signalError reason).enterClosed

def restorePort (e : TcpEngine) : TcpEngine :=
  { e with conf := { e.conf with remotePort := e.conf.cfgRemotePort } }

def doReset (e : TcpEngine) : TcpEngine :=
  if e.tcb.state = .synReceived && e.fin.passive then
    ((e.setState .listen).resetBuffers.stopRt.cancelPersist).restorePort
  else if e.tcb.state = .synReceived then
    (e.signalError "connection refused").enterClosed
  else
    (e.signalError "connection reset").enterClosed

/-! ## TIME-WAIT -/

def armTwTimer (e : TcpEngine) : TcpEngine :=
  let (h, sched) := e.tm.sched.callLater (2 * e.conf.cfg.msl) .onTimeWait
  { e with tm := { e.tm with sched := sched, twTimer := some h } }

def enterTimeWait (e : TcpEngine) : TcpEngine :=
  (e.stopRt.cancelPersist.setState .timeWait).armTwTimer

def restartTimeWait (e : TcpEngine) : TcpEngine :=
  armTwTimer { e with tm := { e.tm with sched := e.tm.sched.cancel e.tm.twTimer } }

/-! ## Timer callbacks -/

/-- The first line of every callback: its own slot becomes `None`. -/
def forgetTimer (e : TcpEngine) : Callback → TcpEngine
  | .onRto => { e with tm := { e.tm with rtTimer := none } }
  | .onPersist => { e with tm := { e.tm with persistTimer := none } }
  | .onDelack => { e with tm := { e.tm with ackTimer := none } }
  | .onTimeWait => { e with tm := { e.tm with twTimer := none } }
  | .onKeepalive => { e with tm := { e.tm with kaTimer := none } }

/-- The bookkeeping of a retransmission of the head `o`. -/
def markRetransmitted (e : TcpEngine) (o : Outgoing) (rest : List Outgoing) : TcpEngine :=
  { e with
    rt := { e.rt with rtt := e.rt.rtt.backoff e.conf.cfg, rttPending := none }
    buf := { e.buf with retx := { o with retransmitted := true, sentTime := e.now } :: rest } }

/-- The retransmission itself: the head of the queue goes out again. -/
def retransmitHead (e : TcpEngine) (o : Outgoing) (rest : List Outgoing) : TcpEngine :=
  let e := e.markRetransmitted o rest
  let seg := e.segmentFor o.seq o.flags o.payload o.flags.syn
  match seg.build with
  | .error _ => e.advertise.setExc .structError
  | .ok _ => (e.advertise.emit (.tx seg)).startRt

def userTimeoutExpired (e : TcpEngine) : Bool :=
  match e.conf.cfg.userTimeout, e.rt.unaSince with
  | some limit, some since => limit ≤ e.now - since
  | _, _ => false

def countRto (e : TcpEngine) : TcpEngine :=
  { e with tm := { e.tm with rtoCount := e.tm.rtoCount + 1 } }

def onRto (e : TcpEngine) : TcpEngine :=
  let e := e.forgetTimer .onRto
  match e.buf.retx with
  | [] => e
  | o :: rest =>
    if e.userTimeoutExpired then e.giveUp "user timeout"
    else
      let e := e.countRto
      if e.conf.cfg.maxRetransmits < e.tm.rtoCount then e.giveUp "retransmission timeout"
      else e.retransmitHead o rest

/-- Back off and re-arm, as `_on_persist` does after a probe. -/
def rearmPersist (e : TcpEngine) : TcpEngine :=
  let backoff :=
    min (max (e.tm.persistBackoff * 2) e.conf.cfg.persistMin) e.conf.cfg.persistMax
  let (h, sched) := e.tm.sched.callLater backoff .onPersist
  { e with tm := { e.tm with persistBackoff := backoff, sched := sched, persistTimer := some h } }

/-- The zero-window probe byte leaves the buffer for the queue. -/
def sendProbe (e : TcpEngine) : TcpEngine :=
  let chunk := e.buf.appBuf.take 1
  queueAndSend { e with buf := { e.buf with appBuf := e.buf.appBuf.drop 1 } } { ack := true } chunk

def onPersist (e : TcpEngine) : TcpEngine :=
  let e := e.forgetTimer .onPersist
  if 0 < e.tcb.sndWnd then e.sendPending
  else if e.buf.appBuf ≠ [] then e.sendProbe.rearmPersist
  else if e.fin.finPending && !e.fin.finSent then e.sendFin.rearmPersist
  else e

def onDelack (e : TcpEngine) : TcpEngine := (e.forgetTimer .onDelack).sendAck

def onTimeWait (e : TcpEngine) : TcpEngine := (e.forgetTimer .onTimeWait).enterClosed

/-- SEG.SEQ = SND.UNA-1, length 0: unacceptable, elicits an ACK. -/
def sendKeepaliveProbe (e : TcpEngine) : TcpEngine :=
  let e := e.makeAndTransmit (sub e.tcb.sndUna 1) { ack := true }
  { e with tm := { e.tm with kaProbes := e.tm.kaProbes + 1 } }

def onKeepalive (e : TcpEngine) : TcpEngine :=
  let e := e.forgetTimer .onKeepalive
  if e.conf.cfg.keepaliveIdle = none ∨ e.tcb.state ≠ .established then e
  else if e.buf.retx ≠ [] then e.restartKeepalive false
  else if e.conf.cfg.keepaliveCount ≤ e.tm.kaProbes then e.giveUp "keepalive timeout"
  else
    e.sendKeepaliveProbe.restartKeepalive false

/-! ## Opening -/

def newIss (e : TcpEngine) : Int :=
  match e.conf.issConfig with
  | some iss => iss % MOD
  | none => (e.env.rand : Int) % MOD

end TcpEngine

end HdlPlayground.Tcp

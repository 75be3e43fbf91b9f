import HdlPlayground.Tcp.Engine

/-!
# SEGMENT ARRIVES

`on_segment` and the per-state handlers of `core/engine.py`. A handler with
early returns is cut where the source returns; each part carries the name of
what it decides.
-/
namespace HdlPlayground.Tcp

/-- A segment with its SYN taken off: what is left begins one number later. -/
def TcpSegment.synTaken (seg : TcpSegment) : TcpSegment :=
  { seg with flags := { seg.flags with syn := false }, seq := add seg.seq 1 }

namespace TcpEngine

/-! ## Delivery and reassembly -/

def deliver (e : TcpEngine) (data : List UInt8) : TcpEngine :=
  let e := e.emit (.deliver data)
  if e.conf.onData then e
  else { e with buf := { e.buf with recvBuf := e.buf.recvBuf ++ data } }

def advanceRcvNxt (e : TcpEngine) (n : Nat) : TcpEngine :=
  { e with tcb := { e.tcb with rcvNxt := add e.tcb.rcvNxt n } }

def markSeen (e : TcpEngine) (flags : Flags) : TcpEngine :=
  { e with psh :=
    { e.psh with
      pushSeen := e.psh.pushSeen || flags.psh, urgentSeen := e.psh.urgentSeen || flags.urg } }

/-- The position of the first queue entry the reassembly can use or drop. -/
def mergeable (e : TcpEngine) (x : OooEntry) : Bool :=
  seqLeq (add x.seq x.data.length) e.tcb.rcvNxt ||
    (seqLeq x.seq e.tcb.rcvNxt && seqGt (add x.seq x.data.length) e.tcb.rcvNxt)

/-- What happens to that entry once it is taken off the queue. -/
def mergeEntry (e : TcpEngine) (x : OooEntry) : TcpEngine :=
  if seqLeq (add x.seq x.data.length) e.tcb.rcvNxt then e
  else
    let tail := x.data.drop (sub e.tcb.rcvNxt x.seq).toNat
    let e := if tail = [] then e else (e.deliver tail).advanceRcvNxt tail.length
    e.markSeen x.flags

/-- The scan restarts after each entry taken, so it takes at most as many passes
as there are entries. -/
def mergeLoop : Nat → TcpEngine → TcpEngine
  | 0, e => e
  | fuel + 1, e =>
    match e.buf.ooo.find? e.mergeable with
    | none => e
    | some x =>
      let e := { e with buf := { e.buf with ooo := e.buf.ooo.eraseP e.mergeable } }
      mergeLoop fuel (e.mergeEntry x)

def mergeReassembly (e : TcpEngine) : TcpEngine := mergeLoop e.buf.ooo.length e

def storeOoo (e : TcpEngine) (seq : Int) (data : List UInt8) (flags : Flags) : TcpEngine :=
  if e.buf.ooo.any fun x => x.seq == seq && data.length ≤ x.data.length then e
  else { e with buf := { e.buf with ooo := e.buf.ooo ++ [⟨seq, data, flags⟩] } }

/-- In-sequence data is delivered and RCV.NXT moves past it. -/
def takeInOrder (e : TcpEngine) (seg : TcpSegment) (data : List UInt8) : TcpEngine :=
  let e := ((e.deliver data).advanceRcvNxt data.length).markSeen seg.flags
  if seg.flags.urg then { e with tcb := { e.tcb with rcvUp := add seg.seq seg.urgentPtr } } else e

/-- `_recv_data` once the data starts at or after RCV.NXT. -/
def recvTrimmed (e : TcpEngine) (seg : TcpSegment) (seq : Int) (data : List UInt8) : TcpEngine :=
  let space := s32 (sub (add e.tcb.rcvNxt e.rcvWnd) seq)
  if space ≤ 0 then e.scheduleAck true
  else
    let data := data.take space.toNat
    if seq = e.tcb.rcvNxt then
      (e.takeInOrder seg data).mergeReassembly.scheduleAck false
    else (e.storeOoo seq data seg.flags).scheduleAck true

def recvData (e : TcpEngine) (seg : TcpSegment) : TcpEngine :=
  if seg.payload = [] then e
  else if seqLt seg.seq e.tcb.rcvNxt then
    let off := sub e.tcb.rcvNxt seg.seq
    if seg.payload.length ≤ off then e.scheduleAck true
    else e.recvTrimmed seg e.tcb.rcvNxt (seg.payload.drop off.toNat)
  else e.recvTrimmed seg seg.seq seg.payload

/-! ## FIN -/

/-- RCV.NXT moves past the peer's FIN. -/
def consumeFin (e : TcpEngine) : TcpEngine :=
  signalClose
    { e with
      fin := { e.fin with pendingFin := none, peerFin := true }
      tcb := { e.tcb with rcvNxt := add e.tcb.rcvNxt 1 } }

def processFin (e : TcpEngine) : TcpEngine :=
  let e := e.consumeFin.sendAck
  match e.tcb.state with
  | .established => e.setState .closeWait
  | .finWait1 => e.setState .closing
  | .finWait2 => e.enterTimeWait
  | _ => e

def checkPendingFin (e : TcpEngine) : TcpEngine :=
  if e.fin.pendingFin = some e.tcb.rcvNxt then e.processFin else e

def deferFin (e : TcpEngine) (finSeq : Int) : TcpEngine :=
  { e with fin := { e.fin with pendingFin := some finSeq } }

/-- The eighth check: a FIN in sequence is consumed, one ahead of missing data deferred. -/
def finCheck (e : TcpEngine) (seg : TcpSegment) : TcpEngine :=
  if seg.fin then
    let finSeq := add seg.seq seg.payload.length
    if e.tcb.rcvNxt = finSeq then e.processFin
    else if seqGt finSeq e.tcb.rcvNxt then e.deferFin finSeq
    else e
  else e

/-! ## Synchronized states -/

/-- From the seventh check (segment text) to the end of `_handle_synchronized`. -/
def textAndFin (e : TcpEngine) (seg : TcpSegment) : TcpEngine :=
  let e :=
    if seg.payload ≠ [] ∧ e.tcb.state ∈ [.established, .finWait1, .finWait2] then e.recvData seg
    else e
  (e.sendPending.finCheck seg).checkPendingFin

def timeWaitArrives (e : TcpEngine) (seg : TcpSegment) : TcpEngine :=
  if seg.rst then
    if seg.seq = e.tcb.rcvNxt then e.enterClosed else e.sendAck
  else if seg.fin then e.sendAck.restartTimeWait
  else e.sendAck

def setSendWindow (e : TcpEngine) (wnd : Nat) (wl1 wl2 : Int) : TcpEngine :=
  { e with tcb := { e.tcb with sndWnd := wnd, sndWl1 := wl1, sndWl2 := wl2 } }

/-- The window update with its staleness guard. -/
def windowUpdate (e : TcpEngine) (seg : TcpSegment) : TcpEngine :=
  if seqLt e.tcb.sndWl1 seg.seq ||
      (e.tcb.sndWl1 == seg.seq && seqLeq e.tcb.sndWl2 seg.ack) then
    let oldWnd := e.tcb.sndWnd
    let e := e.setSendWindow seg.window seg.seq seg.ack
    if 0 < e.tcb.sndWnd ∧ oldWnd = 0 then e.cancelPersist else e
  else e

/-- The fifth check in SYN-RECEIVED. -/
def synReceivedAck (e : TcpEngine) (seg : TcpSegment) : TcpEngine :=
  if seqLt e.tcb.sndUna seg.ack && seqLeq seg.ack e.tcb.sndNxt then
    let e := (e.processAck seg.ack).setSendWindow seg.window seg.seq seg.ack
    (e.setState .established).mergeReassembly.sendPending.textAndFin seg
  else e.emitRstReply seg seg.ack

/-- The fifth check in the later states. -/
def establishedAck (e : TcpEngine) (seg : TcpSegment) : TcpEngine :=
  if seqGt seg.ack e.tcb.sndNxt then e.sendAck
  else
    let e := if seqGt seg.ack e.tcb.sndUna then e.processAck seg.ack else e
    let e := e.windowUpdate seg
    if e.tcb.state = .finWait1 ∧ e.fin.finAcked then (e.setState .finWait2).textAndFin seg
    else if e.tcb.state = .closing ∧ e.fin.finAcked then e.enterTimeWait
    else if e.tcb.state = .lastAck ∧ e.fin.finAcked then e.enterClosed
    else e.textAndFin seg

def handleSynchronized (e : TcpEngine) (seg : TcpSegment) : TcpEngine :=
  if e.tcb.state = .timeWait then e.timeWaitArrives seg
  else if !acceptable seg.seq seg.segLen e.tcb.rcvNxt e.rcvWnd then
    if seg.rst then e else e.sendAck
  else if seg.rst then
    if seg.seq = e.tcb.rcvNxt then e.doReset else e.sendAck
  else if seg.syn then e.sendAck
  else if !seg.ackFlag then e
  else if e.tcb.state = .synReceived then e.synReceivedAck seg
  else e.establishedAck seg

/-! ## CLOSED, LISTEN, SYN-SENT -/

def handleClosed (e : TcpEngine) (seg : TcpSegment) : TcpEngine :=
  if seg.rst then e
  else if seg.ackFlag then e.emitRstReply seg seg.ack
  else e.emitRstReply seg 0 (add seg.seq seg.segLen) true

/-- The MSS the peer's SYN offers, when it offers one. -/
def learnMss (e : TcpEngine) (seg : TcpSegment) : TcpEngine :=
  match seg.mss with
  | some m => if m = 0 then e else { e with tcb := { e.tcb with sndMss := min e.conf.cfgMss m } }
  | none => e

/-- A SYN opens the connection of a listener. -/
def acceptSyn (e : TcpEngine) (seg : TcpSegment) : TcpEngine :=
  let remote := if e.conf.remotePort = 0 then seg.srcPort else e.conf.remotePort
  let iss := e.newIss
  let e :=
    { e with
      conf := { e.conf with remotePort := remote }
      tcb :=
        { e.tcb with
          irs := seg.seq
          rcvNxt := add seg.seq 1
          iss := iss
          sndUna := iss
          sndNxt := iss
          sndWnd := seg.window
          sndWl1 := seg.seq
          sndWl2 := iss } }
  ((e.learnMss seg).setState .synReceived).queueAndSend { syn := true, ack := true } [] true

def handleListen (e : TcpEngine) (seg : TcpSegment) : TcpEngine :=
  if seg.rst then e
  else if seg.ackFlag then e.emitRstReply seg seg.ack
  else if !seg.syn then e
  else if e.conf.remotePort ≠ 0 ∧ seg.srcPort ≠ 0 ∧ seg.srcPort ≠ e.conf.remotePort then e
  else e.acceptSyn seg

/-- What a SYN accepted in SYN-SENT sets before the state is chosen. -/
def takeSyn (e : TcpEngine) (seg : TcpSegment) : TcpEngine :=
  let e := { e with tcb := { e.tcb with irs := seg.seq, rcvNxt := add seg.seq 1 } }
  let e := e.learnMss seg
  let e := if seg.ackFlag then e.processAck seg.ack else e
  e.setSendWindow seg.window seg.seq (if seg.ackFlag then seg.ack else e.tcb.sndUna)

/-- Our SYN is acknowledged; data and FIN on the SYN are processed in ESTABLISHED. -/
def synSentEstablished (e : TcpEngine) (seg : TcpSegment) : TcpEngine :=
  let e := (e.setState .established).sendAck.sendPending
  if seg.payload ≠ [] ∨ seg.fin then e.handleSynchronized seg.synTaken else e

/-- Our outstanding SYN becomes a SYN-ACK. -/
def ackHeadSyn : List Outgoing → List Outgoing
  | [] => []
  | o :: q => if o.flags.syn then { o with flags := { o.flags with ack := true } } :: q else o :: q

def becomeSynReceived (e : TcpEngine) : TcpEngine :=
  let e := e.setState .synReceived
  { e with buf := { e.buf with retx := ackHeadSyn e.buf.retx } }

def sendSynAck (e : TcpEngine) : TcpEngine :=
  e.makeAndTransmit e.tcb.iss { syn := true, ack := true } [] true

def simultaneousOpen (e : TcpEngine) (seg : TcpSegment) : TcpEngine :=
  let e := e.becomeSynReceived
  let e :=
    if seg.payload ≠ [] then
      e.storeOoo (add seg.seq 1) seg.payload { seg.flags with fin := false }
    else e
  let e :=
    if seg.fin then e.deferFin (add (add seg.seq 1) seg.payload.length) else e
  e.sendSynAck

def handleSynSent (e : TcpEngine) (seg : TcpSegment) : TcpEngine :=
  if seg.ackFlag && (seqLeq seg.ack e.tcb.iss || seqGt seg.ack e.tcb.sndNxt) then
    if seg.rst then e else e.emitRstReply seg seg.ack
  else
    let ackOk := seg.ackFlag && between e.tcb.sndUna seg.ack e.tcb.sndNxt
    if seg.rst then
      if ackOk then (e.signalError "connection refused").enterClosed else e
    else if !seg.syn then e
    else
      let e := e.takeSyn seg
      if seqGt e.tcb.sndUna e.tcb.iss then e.synSentEstablished seg else e.simultaneousOpen seg

/-- `on_segment` after the parse. -/
def segmentArrives (e : TcpEngine) (seg : TcpSegment) : TcpEngine :=
  if e.conf.localPort ≠ 0 ∧ seg.dstPort ≠ 0 ∧ seg.dstPort ≠ e.conf.localPort then e
  else
    let e := if e.tcb.state = .established then e.restartKeepalive true else e
    match e.tcb.state with
    | .closed => e.handleClosed seg
    | .listen => e.handleListen seg
    | .synSent => e.handleSynSent seg
    | _ => e.handleSynchronized seg

def onSegment (e : TcpEngine) (data : List UInt8) : TcpEngine :=
  match TcpSegment.parse data with
  | .error msg => e.setExc (.valueError msg)
  | .ok seg => e.segmentArrives seg

end TcpEngine

end HdlPlayground.Tcp

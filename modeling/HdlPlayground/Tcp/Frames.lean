import HdlPlayground.Tcp.UserCalls

/-!
# What the small methods leave alone

The engine state is nine groups of attributes. For each small method the lemmas
below say which groups it does not touch, and what it does to those it updates
in a fixed way; the proofs about the large methods use these and do not unfold
the small ones.
-/
namespace HdlPlayground.Tcp

namespace TcpEngine

variable (e : TcpEngine)

/-! ## Log, exceptions -/

/-- A log entry is all that `emit` adds. -/
@[simp] theorem emit_conf (ev : Event) : (e.emit ev).conf = e.conf := rfl
@[simp] theorem emit_tcb (ev : Event) : (e.emit ev).tcb = e.tcb := rfl
@[simp] theorem emit_buf (ev : Event) : (e.emit ev).buf = e.buf := rfl
@[simp] theorem emit_fin (ev : Event) : (e.emit ev).fin = e.fin := rfl
@[simp] theorem emit_psh (ev : Event) : (e.emit ev).psh = e.psh := rfl
@[simp] theorem emit_tm (ev : Event) : (e.emit ev).tm = e.tm := rfl
@[simp] theorem emit_rt (ev : Event) : (e.emit ev).rt = e.rt := rfl
@[simp] theorem emit_adv (ev : Event) : (e.emit ev).adv = e.adv := rfl
/-- The entry goes to the end of the log. -/
@[simp] theorem emit_env (ev : Event) :
    (e.emit ev).env = { e.env with log := e.env.log ++ [ev] } := rfl

/-- An exception is noted beside the state, which stays as it was when it was raised. -/
@[simp] theorem setExc_conf (x : Exc) : (e.setExc x).conf = e.conf := rfl
@[simp] theorem setExc_tcb (x : Exc) : (e.setExc x).tcb = e.tcb := rfl
@[simp] theorem setExc_buf (x : Exc) : (e.setExc x).buf = e.buf := rfl
@[simp] theorem setExc_fin (x : Exc) : (e.setExc x).fin = e.fin := rfl
@[simp] theorem setExc_psh (x : Exc) : (e.setExc x).psh = e.psh := rfl
@[simp] theorem setExc_tm (x : Exc) : (e.setExc x).tm = e.tm := rfl
@[simp] theorem setExc_rt (x : Exc) : (e.setExc x).rt = e.rt := rfl
@[simp] theorem setExc_adv (x : Exc) : (e.setExc x).adv = e.adv := rfl
@[simp] theorem setExc_env (x : Exc) : (e.setExc x).env = { e.env with exc := some x } := rfl

/-- A loop that would not end leaves everything but its mark as it was. -/
@[simp] theorem hang_tcb : e.hang.tcb = e.tcb := rfl
@[simp] theorem hang_buf : e.hang.buf = e.buf := rfl
@[simp] theorem hang_fin : e.hang.fin = e.fin := rfl
@[simp] theorem hang_rt : e.hang.rt = e.rt := rfl
@[simp] theorem hang_env : e.hang.env = { e.env with hung := true } := rfl

/-! ## Keepalive and state changes -/

section Keepalive

variable (b : Bool)

/-- Keepalive is a matter of the timers alone. -/
theorem restartKeepalive_eq :
    e.restartKeepalive b = { e with tm := (e.restartKeepalive b).tm } := by
  unfold restartKeepalive
  split
  · rfl
  · dsimp only
    split <;> rfl

/-- What the keepalive timer leaves alone. -/
@[simp] theorem restartKeepalive_conf : (e.restartKeepalive b).conf = e.conf := by
  rw [restartKeepalive_eq]
@[simp] theorem restartKeepalive_tcb : (e.restartKeepalive b).tcb = e.tcb := by
  rw [restartKeepalive_eq]
@[simp] theorem restartKeepalive_buf : (e.restartKeepalive b).buf = e.buf := by
  rw [restartKeepalive_eq]
@[simp] theorem restartKeepalive_fin : (e.restartKeepalive b).fin = e.fin := by
  rw [restartKeepalive_eq]
@[simp] theorem restartKeepalive_psh : (e.restartKeepalive b).psh = e.psh := by
  rw [restartKeepalive_eq]
@[simp] theorem restartKeepalive_rt : (e.restartKeepalive b).rt = e.rt := by
  rw [restartKeepalive_eq]
@[simp] theorem restartKeepalive_adv : (e.restartKeepalive b).adv = e.adv := by
  rw [restartKeepalive_eq]
@[simp] theorem restartKeepalive_env : (e.restartKeepalive b).env = e.env := by
  rw [restartKeepalive_eq]

/-- The keepalive timer has a slot of its own, apart from the persist timer's. -/
@[simp] theorem restartKeepalive_persist :
    (e.restartKeepalive b).tm.persistTimer = e.tm.persistTimer := by
  unfold restartKeepalive
  split
  · rfl
  · dsimp only
    split <;> rfl

@[simp] theorem restartKeepalive_rtTimer :
    (e.restartKeepalive b).tm.rtTimer = e.tm.rtTimer := by
  unfold restartKeepalive
  split
  · rfl
  · dsimp only
    split <;> rfl

end Keepalive

@[simp] theorem cancelKeepalive_tcb : e.cancelKeepalive.tcb = e.tcb := rfl
@[simp] theorem cancelKeepalive_env : e.cancelKeepalive.env = e.env := rfl

section SetState

variable (st : ConnState)

/-- The three ways `_set_state` can go. -/
theorem setState_cases :
    (e.tcb.state = st ∧ e.setState st = e) ∨
    (e.tcb.state ≠ st ∧ ∃ tm, e.setState st =
      emit { e.withState st with tm := tm } (.stateChange e.tcb.state st)) := by
  by_cases h : e.tcb.state = st
  · exact Or.inl ⟨h, by simp [setState, h]⟩
  · refine Or.inr ⟨h, (e.setState st).tm, ?_⟩
    simp only [setState, if_neg h]
    split
    · rw [restartKeepalive_eq]; rfl
    · split <;> rfl

/-- Outside ESTABLISHED a state change touches no timer. -/
theorem setState_plain {e : TcpEngine} {st : ConnState} (h : e.tcb.state ≠ st)
    (hn : st ≠ .established) (ho : e.tcb.state ≠ .established) :
    e.setState st = (e.withState st).emit (.stateChange e.tcb.state st) := by
  simp [setState, h, hn, ho]

/-- A state change is one of the TCB; the keepalive timer may go with it. -/
@[simp] theorem setState_conf : (e.setState st).conf = e.conf := by
  obtain ⟨-, h⟩ | ⟨-, tm, h⟩ := e.setState_cases st
  · rw [h]
  · rw [h]; rfl
/-- Nothing else of the TCB changes with the state. -/
@[simp] theorem setState_tcb : (e.setState st).tcb = { e.tcb with state := st } := by
  obtain ⟨hs, h⟩ | ⟨-, tm, h⟩ := e.setState_cases st
  · rw [h, ← hs]
  · rw [h]; rfl
@[simp] theorem setState_buf : (e.setState st).buf = e.buf := by
  obtain ⟨-, h⟩ | ⟨-, tm, h⟩ := e.setState_cases st
  · rw [h]
  · rw [h]; rfl
@[simp] theorem setState_fin : (e.setState st).fin = e.fin := by
  obtain ⟨-, h⟩ | ⟨-, tm, h⟩ := e.setState_cases st
  · rw [h]
  · rw [h]; rfl
@[simp] theorem setState_psh : (e.setState st).psh = e.psh := by
  obtain ⟨-, h⟩ | ⟨-, tm, h⟩ := e.setState_cases st
  · rw [h]
  · rw [h]; rfl
@[simp] theorem setState_rt : (e.setState st).rt = e.rt := by
  obtain ⟨-, h⟩ | ⟨-, tm, h⟩ := e.setState_cases st
  · rw [h]
  · rw [h]; rfl
@[simp] theorem setState_adv : (e.setState st).adv = e.adv := by
  obtain ⟨-, h⟩ | ⟨-, tm, h⟩ := e.setState_cases st
  · rw [h]
  · rw [h]; rfl
@[simp] theorem setState_exc : (e.setState st).env.exc = e.env.exc := by
  obtain ⟨-, h⟩ | ⟨-, tm, h⟩ := e.setState_cases st
  · rw [h]
  · rw [h]; rfl
@[simp] theorem setState_hung : (e.setState st).env.hung = e.env.hung := by
  obtain ⟨-, h⟩ | ⟨-, tm, h⟩ := e.setState_cases st
  · rw [h]
  · rw [h]; rfl

/-- The persist timer runs on through a state change, and so does the retransmission timer. -/
@[simp] theorem setState_persist : (e.setState st).tm.persistTimer = e.tm.persistTimer := by
  simp only [setState]
  split_ifs <;> simp [emit, withState, cancelKeepalive]
@[simp] theorem setState_rtTimer : (e.setState st).tm.rtTimer = e.tm.rtTimer := by
  simp only [setState]
  split_ifs <;> simp [emit, withState, cancelKeepalive]

/-- A change is reported, and only a change. -/
theorem setState_log : (e.setState st).env.log =
    e.env.log ++ if e.tcb.state = st then [] else [.stateChange e.tcb.state st] := by
  obtain ⟨hs, h⟩ | ⟨hs, tm, h⟩ := e.setState_cases st
  · rw [h, if_pos hs, List.append_nil]
  · rw [h, if_neg hs]; rfl

end SetState

section Signals

/-- An error is one entry of the log. -/
@[simp] theorem signalError_conf (msg : String) : (e.signalError msg).conf = e.conf := rfl
@[simp] theorem signalError_tcb (msg : String) : (e.signalError msg).tcb = e.tcb := rfl
@[simp] theorem signalError_buf (msg : String) : (e.signalError msg).buf = e.buf := rfl
@[simp] theorem signalError_fin (msg : String) : (e.signalError msg).fin = e.fin := rfl
@[simp] theorem signalError_psh (msg : String) : (e.signalError msg).psh = e.psh := rfl
@[simp] theorem signalError_tm (msg : String) : (e.signalError msg).tm = e.tm := rfl
@[simp] theorem signalError_rt (msg : String) : (e.signalError msg).rt = e.rt := rfl
@[simp] theorem signalError_adv (msg : String) : (e.signalError msg).adv = e.adv := rfl
@[simp] theorem signalError_hung (msg : String) :
    (e.signalError msg).env.hung = e.env.hung := rfl
@[simp] theorem signalError_exc (msg : String) : (e.signalError msg).env.exc = e.env.exc := rfl

/-- The EOF marker goes to the log, if there is somebody to hear it. -/
theorem signalClose_eq : e.signalClose = { e with env := e.signalClose.env } := by
  unfold signalClose; split <;> rfl

/-- What the EOF marker leaves alone. -/
@[simp] theorem signalClose_conf : e.signalClose.conf = e.conf := by rw [signalClose_eq]
@[simp] theorem signalClose_tcb : e.signalClose.tcb = e.tcb := by rw [signalClose_eq]
@[simp] theorem signalClose_buf : e.signalClose.buf = e.buf := by rw [signalClose_eq]
@[simp] theorem signalClose_fin : e.signalClose.fin = e.fin := by rw [signalClose_eq]
@[simp] theorem signalClose_psh : e.signalClose.psh = e.psh := by rw [signalClose_eq]
@[simp] theorem signalClose_tm : e.signalClose.tm = e.tm := by rw [signalClose_eq]
@[simp] theorem signalClose_rt : e.signalClose.rt = e.rt := by rw [signalClose_eq]
@[simp] theorem signalClose_adv : e.signalClose.adv = e.adv := by rw [signalClose_eq]
@[simp] theorem signalClose_hung : e.signalClose.env.hung = e.env.hung := by
  unfold signalClose; split <;> rfl
@[simp] theorem signalClose_exc : e.signalClose.env.exc = e.env.exc := by
  unfold signalClose; split <;> rfl

end Signals

/-! ## Building and transmitting -/

/-- Building a segment moves the advertised edge and nothing else. -/
@[simp] theorem advertise_conf : e.advertise.conf = e.conf := rfl
@[simp] theorem advertise_tcb : e.advertise.tcb = e.tcb := rfl
@[simp] theorem advertise_buf : e.advertise.buf = e.buf := rfl
@[simp] theorem advertise_fin : e.advertise.fin = e.fin := rfl
@[simp] theorem advertise_psh : e.advertise.psh = e.psh := rfl
@[simp] theorem advertise_tm : e.advertise.tm = e.tm := rfl
@[simp] theorem advertise_rt : e.advertise.rt = e.rt := rfl
@[simp] theorem advertise_env : e.advertise.env = e.env := rfl

section Transmit

variable (seg : TcpSegment)

/-- Either the segment is on the log, or `build` raised. -/
theorem transmit_cases :
    (e.transmit seg = e.emit (.tx seg)) ∨ (e.transmit seg = e.setExc .structError) := by
  unfold transmit
  split
  · exact Or.inr rfl
  · exact Or.inl rfl

/-- A transmission touches the log and the exception only. -/
theorem transmit_eq : e.transmit seg = { e with env := (e.transmit seg).env } := by
  obtain h | h := e.transmit_cases seg <;> rw [h] <;> rfl

/-- What a transmission leaves alone. -/
@[simp] theorem transmit_conf : (e.transmit seg).conf = e.conf := by rw [transmit_eq]
@[simp] theorem transmit_tcb : (e.transmit seg).tcb = e.tcb := by rw [transmit_eq]
@[simp] theorem transmit_buf : (e.transmit seg).buf = e.buf := by rw [transmit_eq]
@[simp] theorem transmit_fin : (e.transmit seg).fin = e.fin := by rw [transmit_eq]
@[simp] theorem transmit_psh : (e.transmit seg).psh = e.psh := by rw [transmit_eq]
@[simp] theorem transmit_tm : (e.transmit seg).tm = e.tm := by rw [transmit_eq]
@[simp] theorem transmit_rt : (e.transmit seg).rt = e.rt := by rw [transmit_eq]
@[simp] theorem transmit_adv : (e.transmit seg).adv = e.adv := by rw [transmit_eq]
@[simp] theorem transmit_hung : (e.transmit seg).env.hung = e.env.hung := by
  obtain h | h := e.transmit_cases seg <;> rw [h] <;> rfl
@[simp] theorem transmit_rand : (e.transmit seg).env.rand = e.env.rand := by
  obtain h | h := e.transmit_cases seg <;> rw [h] <;> rfl

/-- A plain segment can always be built. -/
theorem transmit_plain (h : seg.Plain) : e.transmit seg = e.emit (.tx seg) := by
  simp only [transmit, h.build]

/-- A segment of the engine's own is plain, unless it would carry an MSS of more than 16 bits. -/
theorem segmentFor_plain {e : TcpEngine} {seq : Int} {flags : Flags} {payload : List UInt8}
    {m : Bool} {urg : Nat} (h : m = true → e.tcb.sndMss ≤ 65535) :
    (e.segmentFor seq flags payload m urg).Plain := by
  refine ⟨fun n hn => ?_, rfl, rfl⟩
  cases m with
  | false => cases hn
  | true =>
    obtain rfl := Option.some.inj hn
    exact h rfl

/-- So the engine can build it, with an MSS option only where that fits. -/
theorem segmentFor_build {e : TcpEngine} {seq : Int} {flags : Flags} {payload : List UInt8}
    {m : Bool} {urg : Nat} (h : ¬ (m = true ∧ 65535 < e.tcb.sndMss)) :
    (e.segmentFor seq flags payload m urg).build =
      .ok (e.segmentFor seq flags payload m urg).image :=
  (segmentFor_plain fun hm => not_lt.mp fun hlt => h ⟨hm, hlt⟩).build

/-- Without an MSS option the segment goes out. -/
@[simp] theorem transmit_segmentFor (f : TcpEngine) (seq : Int) (flags : Flags)
    (payload : List UInt8) (urg : Nat) :
    e.transmit (f.segmentFor seq flags payload false urg) =
      e.emit (.tx (f.segmentFor seq flags payload false urg)) :=
  transmit_plain e _ (segmentFor_plain (by simp))

/-- A reset in reply to `seg` always goes out, to where `seg` came from. -/
@[simp] theorem emitRstReply_eq (seq ack : Int) (ackFlag : Bool) :
    e.emitRstReply seg seq ack ackFlag =
      e.emit (.tx
        { srcPort := if seg.dstPort ≠ 0 then seg.dstPort else e.conf.localPort
          dstPort := if seg.srcPort ≠ 0 then seg.srcPort else e.conf.remotePort
          seq := seq, ack := ack, flags := { rst := true, ack := ackFlag }, window := 0 }) :=
  transmit_plain e _ ⟨by simp, rfl, rfl⟩

end Transmit

section MakeAndTransmit

variable (seq : Int) (flags : Flags) (payload : List UInt8) (m : Bool) (urg : Nat)

/-- A segment that is not queued changes the advertised edge and the log. -/
@[simp] theorem makeAndTransmit_conf :
    (e.makeAndTransmit seq flags payload m urg).conf = e.conf := by simp [makeAndTransmit]
@[simp] theorem makeAndTransmit_tcb :
    (e.makeAndTransmit seq flags payload m urg).tcb = e.tcb := by simp [makeAndTransmit]
@[simp] theorem makeAndTransmit_buf :
    (e.makeAndTransmit seq flags payload m urg).buf = e.buf := by simp [makeAndTransmit]
@[simp] theorem makeAndTransmit_fin :
    (e.makeAndTransmit seq flags payload m urg).fin = e.fin := by simp [makeAndTransmit]
@[simp] theorem makeAndTransmit_psh :
    (e.makeAndTransmit seq flags payload m urg).psh = e.psh := by simp [makeAndTransmit]
@[simp] theorem makeAndTransmit_tm :
    (e.makeAndTransmit seq flags payload m urg).tm = e.tm := by simp [makeAndTransmit]
@[simp] theorem makeAndTransmit_rt :
    (e.makeAndTransmit seq flags payload m urg).rt = e.rt := by simp [makeAndTransmit]
@[simp] theorem makeAndTransmit_adv :
    (e.makeAndTransmit seq flags payload m urg).adv = e.advertise.adv := by
  simp [makeAndTransmit]
@[simp] theorem makeAndTransmit_hung :
    (e.makeAndTransmit seq flags payload m urg).env.hung = e.env.hung := by
  simp [makeAndTransmit]
/-- Without an MSS option it is on the log. -/
@[simp] theorem makeAndTransmit_env :
    (e.makeAndTransmit seq flags payload false urg).env =
      { e.env with log := e.env.log ++ [.tx (e.segmentFor seq flags payload false urg)] } := by
  simp only [makeAndTransmit, transmit_segmentFor]
  rfl

end MakeAndTransmit

/-- Starting the retransmission timer changes the timers only. -/
@[simp] theorem startRt_conf : e.startRt.conf = e.conf := rfl
@[simp] theorem startRt_tcb : e.startRt.tcb = e.tcb := rfl
@[simp] theorem startRt_buf : e.startRt.buf = e.buf := rfl
@[simp] theorem startRt_fin : e.startRt.fin = e.fin := rfl
@[simp] theorem startRt_env : e.startRt.env = e.env := rfl

/-- Arming it does so too, whether it was running or not. -/
theorem armRt_eq : e.armRt = { e with tm := e.armRt.tm } := by
  unfold armRt
  split
  · rfl
  · split
    · split <;> rfl
    · rfl

/-- What the retransmission timer leaves alone. -/
@[simp] theorem armRt_conf : e.armRt.conf = e.conf := by rw [armRt_eq]
@[simp] theorem armRt_tcb : e.armRt.tcb = e.tcb := by rw [armRt_eq]
@[simp] theorem armRt_buf : e.armRt.buf = e.buf := by rw [armRt_eq]
@[simp] theorem armRt_fin : e.armRt.fin = e.fin := by rw [armRt_eq]
@[simp] theorem armRt_psh : e.armRt.psh = e.psh := by rw [armRt_eq]
@[simp] theorem armRt_rt : e.armRt.rt = e.rt := by rw [armRt_eq]
@[simp] theorem armRt_adv : e.armRt.adv = e.adv := by rw [armRt_eq]
@[simp] theorem armRt_env : e.armRt.env = e.env := by rw [armRt_eq]

@[simp] theorem armRt_persist : e.armRt.tm.persistTimer = e.tm.persistTimer := by
  unfold armRt
  split
  · rfl
  · split
    · split <;> rfl
    · rfl

section QueueAndSend

variable (flags : Flags) (payload : List UInt8) (m : Bool) (urg : Nat)

/-- Queueing moves SND.NXT and puts an entry on the queue. -/
@[simp] theorem enqueue_conf : (e.enqueue flags payload).conf = e.conf := rfl
@[simp] theorem enqueue_fin : (e.enqueue flags payload).fin = e.fin := rfl
@[simp] theorem enqueue_psh : (e.enqueue flags payload).psh = e.psh := rfl
@[simp] theorem enqueue_tm : (e.enqueue flags payload).tm = e.tm := rfl
@[simp] theorem enqueue_adv : (e.enqueue flags payload).adv = e.adv := rfl
@[simp] theorem enqueue_env : (e.enqueue flags payload).env = e.env := rfl

/-- The entry `_queue_and_send` puts on the retransmission queue. -/
def outgoing : Outgoing := ⟨e.tcb.sndNxt, flags, payload, e.now, false⟩

/-- The entry holds what was sent, from SND.NXT on. -/
@[simp] theorem outgoing_seq : (e.outgoing flags payload).seq = e.tcb.sndNxt := rfl
@[simp] theorem outgoing_flags : (e.outgoing flags payload).flags = flags := rfl
@[simp] theorem outgoing_payload : (e.outgoing flags payload).payload = payload := rfl

/-- Either the segment goes out and the timer is armed, or `build` raised with
the entry already on the queue. -/
theorem queueAndSend_cases :
    (e.queueAndSend flags payload m urg = ((e.advertise.enqueue flags payload).emit
        (.tx (e.segmentFor e.tcb.sndNxt flags payload m urg))).armRt) ∨
    (m = true ∧ 65535 < e.tcb.sndMss ∧ e.queueAndSend flags payload m urg =
      (e.advertise.enqueue flags payload).setExc .structError) := by
  simp only [queueAndSend]
  split
  · next hb =>
    apply Or.inr
    by_cases hm : m = true ∧ 65535 < e.tcb.sndMss
    · exact ⟨hm.1, hm.2, rfl⟩
    · rw [segmentFor_build (by omega)] at hb
      cases hb
  · exact Or.inl rfl

/-- What is queued and sent leaves the configuration alone. -/
@[simp] theorem queueAndSend_conf :
    (e.queueAndSend flags payload m urg).conf = e.conf := by
  simp only [queueAndSend]; split <;> simp
/-- SND.NXT moves past the entry, whether the segment could be built or not. -/
@[simp] theorem queueAndSend_tcb :
    (e.queueAndSend flags payload m urg).tcb =
      { e.tcb with sndNxt := (e.outgoing flags payload).endSeq } := by
  simp only [queueAndSend]; split <;> simp <;> rfl
/-- The entry is last on the queue, whether the segment could be built or not. -/
@[simp] theorem queueAndSend_buf :
    (e.queueAndSend flags payload m urg).buf =
      { e.buf with retx := e.buf.retx ++ [e.outgoing flags payload] } := by
  simp only [queueAndSend]; split <;> simp <;> rfl
@[simp] theorem queueAndSend_fin :
    (e.queueAndSend flags payload m urg).fin = e.fin := by
  simp only [queueAndSend]; split <;> simp
@[simp] theorem queueAndSend_psh :
    (e.queueAndSend flags payload m urg).psh = e.psh := by
  simp only [queueAndSend]; split <;> simp
@[simp] theorem queueAndSend_rt :
    (e.queueAndSend flags payload m urg).rt = (e.enqueue flags payload).rt := by
  simp only [queueAndSend]; split <;> simp <;> rfl
@[simp] theorem queueAndSend_adv :
    (e.queueAndSend flags payload m urg).adv = e.advertise.adv := by
  simp only [queueAndSend]; split <;> simp
@[simp] theorem queueAndSend_hung :
    (e.queueAndSend flags payload m urg).env.hung = e.env.hung := by
  simp only [queueAndSend]; split <;> simp

/-- The persist timer is no concern of it. -/
@[simp] theorem queueAndSend_persist :
    (e.queueAndSend flags payload m urg).tm.persistTimer = e.tm.persistTimer := by
  simp only [queueAndSend]; split <;> simp

/-- Without an MSS option the segment goes out and the timer is armed. -/
theorem queueAndSend_plain : e.queueAndSend flags payload false urg =
    ((e.advertise.enqueue flags payload).emit
      (.tx (e.segmentFor e.tcb.sndNxt flags payload false urg))).armRt := by
  obtain h | ⟨h, -⟩ := e.queueAndSend_cases flags payload false urg
  · exact h
  · cases h

/-- And the segment is on the log. -/
@[simp] theorem queueAndSend_env :
    (e.queueAndSend flags payload false urg).env =
      { e.env with log :=
        e.env.log ++ [.tx (e.segmentFor e.tcb.sndNxt flags payload false urg)] } := by
  rw [queueAndSend_plain]
  simp

end QueueAndSend

/-! ## ACKs -/

/-- The delayed-ACK timer is one of the timers. -/
@[simp] theorem clearAckTimer_conf : e.clearAckTimer.conf = e.conf := rfl
@[simp] theorem clearAckTimer_tcb : e.clearAckTimer.tcb = e.tcb := rfl
@[simp] theorem clearAckTimer_buf : e.clearAckTimer.buf = e.buf := rfl
@[simp] theorem clearAckTimer_fin : e.clearAckTimer.fin = e.fin := rfl
@[simp] theorem clearAckTimer_psh : e.clearAckTimer.psh = e.psh := rfl
@[simp] theorem clearAckTimer_rt : e.clearAckTimer.rt = e.rt := rfl
@[simp] theorem clearAckTimer_adv : e.clearAckTimer.adv = e.adv := rfl
@[simp] theorem clearAckTimer_env : e.clearAckTimer.env = e.env := rfl

/-- The pure ACK `_send_ack` emits. -/
def ackSegment : TcpSegment := e.segmentFor e.tcb.sndNxt { ack := true }

/-- A pure ACK changes the log, the advertised edge and the delayed-ACK timer. -/
@[simp] theorem sendAck_conf : e.sendAck.conf = e.conf := by simp [sendAck]
@[simp] theorem sendAck_tcb : e.sendAck.tcb = e.tcb := by simp [sendAck]
@[simp] theorem sendAck_buf : e.sendAck.buf = e.buf := by simp [sendAck]
@[simp] theorem sendAck_fin : e.sendAck.fin = e.fin := by simp [sendAck]
@[simp] theorem sendAck_psh : e.sendAck.psh = e.psh := by simp [sendAck]
@[simp] theorem sendAck_rt : e.sendAck.rt = e.rt := by simp [sendAck]
@[simp] theorem sendAck_adv : e.sendAck.adv = e.advertise.adv := by simp [sendAck]
/-- It is the last entry of the log. -/
@[simp] theorem sendAck_env : e.sendAck.env =
    { e.env with log := e.env.log ++ [.tx e.ackSegment] } := by
  simp [sendAck, ackSegment]
/-- Nothing waits to be acknowledged any more. -/
@[simp] theorem sendAck_tm : e.sendAck.tm = e.clearAckTimer.tm := by
  simp [sendAck, clearAckTimer]

/-- `_schedule_ack` sends the ACK now or leaves it to the delayed-ACK timer. -/
theorem scheduleAck_cases (force : Bool) :
    (∃ n, e.scheduleAck force = sendAck { e with tm := { e.tm with ackCount := n } }) ∨
    (∃ delay n, e.conf.cfg.delayedAck = some delay ∧ force = false ∧ e.tm.ackTimer = none ∧
      e.scheduleAck force = { e with tm :=
        { e.tm with
          ackCount := n
          sched := (e.tm.sched.callLater delay .onDelack).2
          ackTimer := some e.tm.sched.counter } }) ∨
    (force = false ∧ e.tm.ackTimer ≠ none ∧
      ∃ n, e.scheduleAck force = { e with tm := { e.tm with ackCount := n } }) := by
  unfold scheduleAck
  split
  · exact Or.inl ⟨e.tm.ackCount, rfl⟩
  · next delay hd =>
    cases force with
    | true => exact Or.inl ⟨e.tm.ackCount, rfl⟩
    | false =>
      simp only [Bool.false_eq_true, if_false]
      split
      · exact Or.inl ⟨_, rfl⟩
      · split
        · next hn => exact Or.inr (Or.inl ⟨delay, _, hd, trivial, hn, rfl⟩)
        · next hn => exact Or.inr (Or.inr ⟨trivial, hn, _, rfl⟩)

section ScheduleAck

variable (force : Bool)

/-- What an ACK leaves alone, at once or delayed. -/
@[simp] theorem scheduleAck_conf : (e.scheduleAck force).conf = e.conf := by
  obtain ⟨n, h⟩ | ⟨d, n, -, -, -, h⟩ | ⟨-, -, n, h⟩ := e.scheduleAck_cases force <;> simp [h]
@[simp] theorem scheduleAck_tcb : (e.scheduleAck force).tcb = e.tcb := by
  obtain ⟨n, h⟩ | ⟨d, n, -, -, -, h⟩ | ⟨-, -, n, h⟩ := e.scheduleAck_cases force <;> simp [h]
@[simp] theorem scheduleAck_buf : (e.scheduleAck force).buf = e.buf := by
  obtain ⟨n, h⟩ | ⟨d, n, -, -, -, h⟩ | ⟨-, -, n, h⟩ := e.scheduleAck_cases force <;> simp [h]
@[simp] theorem scheduleAck_fin : (e.scheduleAck force).fin = e.fin := by
  obtain ⟨n, h⟩ | ⟨d, n, -, -, -, h⟩ | ⟨-, -, n, h⟩ := e.scheduleAck_cases force <;> simp [h]
@[simp] theorem scheduleAck_rt : (e.scheduleAck force).rt = e.rt := by
  obtain ⟨n, h⟩ | ⟨d, n, -, -, -, h⟩ | ⟨-, -, n, h⟩ := e.scheduleAck_cases force <;> simp [h]
@[simp] theorem scheduleAck_exc : (e.scheduleAck force).env.exc = e.env.exc := by
  obtain ⟨n, h⟩ | ⟨d, n, -, -, -, h⟩ | ⟨-, -, n, h⟩ := e.scheduleAck_cases force <;> simp [h]
@[simp] theorem scheduleAck_hung : (e.scheduleAck force).env.hung = e.env.hung := by
  obtain ⟨n, h⟩ | ⟨d, n, -, -, -, h⟩ | ⟨-, -, n, h⟩ := e.scheduleAck_cases force <;> simp [h]

end ScheduleAck

/-! ## Timers -/

/-- Arming the persist timer changes the timers only. -/
theorem armPersist_eq : e.armPersist = { e with tm := e.armPersist.tm } := by
  unfold armPersist
  split
  · split <;> rfl
  · rfl

/-- What the persist timer leaves alone. -/
@[simp] theorem armPersist_conf : e.armPersist.conf = e.conf := by rw [armPersist_eq]
@[simp] theorem armPersist_tcb : e.armPersist.tcb = e.tcb := by rw [armPersist_eq]
@[simp] theorem armPersist_buf : e.armPersist.buf = e.buf := by rw [armPersist_eq]
@[simp] theorem armPersist_fin : e.armPersist.fin = e.fin := by rw [armPersist_eq]
@[simp] theorem armPersist_rt : e.armPersist.rt = e.rt := by rw [armPersist_eq]
@[simp] theorem armPersist_adv : e.armPersist.adv = e.adv := by rw [armPersist_eq]
@[simp] theorem armPersist_env : e.armPersist.env = e.env := by rw [armPersist_eq]

/-- Restarting the retransmission timer changes the timers only. -/
theorem restartRt_eq : e.restartRt = { e with tm := e.restartRt.tm } := by
  unfold restartRt; dsimp only; split <;> rfl

/-- What the restart leaves alone. -/
@[simp] theorem restartRt_conf : e.restartRt.conf = e.conf := by rw [restartRt_eq]
@[simp] theorem restartRt_tcb : e.restartRt.tcb = e.tcb := by rw [restartRt_eq]
@[simp] theorem restartRt_buf : e.restartRt.buf = e.buf := by rw [restartRt_eq]
@[simp] theorem restartRt_fin : e.restartRt.fin = e.fin := by rw [restartRt_eq]
@[simp] theorem restartRt_psh : e.restartRt.psh = e.psh := by rw [restartRt_eq]
@[simp] theorem restartRt_rt : e.restartRt.rt = e.rt := by rw [restartRt_eq]
@[simp] theorem restartRt_adv : e.restartRt.adv = e.adv := by rw [restartRt_eq]
@[simp] theorem restartRt_env : e.restartRt.env = e.env := by rw [restartRt_eq]

/-- What stopping it leaves alone. -/
@[simp] theorem stopRt_conf : e.stopRt.conf = e.conf := rfl
@[simp] theorem stopRt_tcb : e.stopRt.tcb = e.tcb := rfl
@[simp] theorem stopRt_buf : e.stopRt.buf = e.buf := rfl
@[simp] theorem stopRt_fin : e.stopRt.fin = e.fin := rfl
@[simp] theorem stopRt_psh : e.stopRt.psh = e.psh := rfl
@[simp] theorem stopRt_rt : e.stopRt.rt = e.rt := rfl
@[simp] theorem stopRt_adv : e.stopRt.adv = e.adv := rfl
@[simp] theorem stopRt_env : e.stopRt.env = e.env := rfl

/-! ## Acknowledgement processing -/

section ProcessAck

variable (ack : Int)

/-- A sample is taken into the estimator and its measurement, and nowhere else. -/
theorem takeSample_eq : e.takeSample ack = { e with rt := (e.takeSample ack).rt } := by
  unfold takeSample
  split
  · rfl
  · split <;> rfl

/-- What a sample leaves alone. -/
@[simp] theorem takeSample_conf : (e.takeSample ack).conf = e.conf := by rw [takeSample_eq]
@[simp] theorem takeSample_tcb : (e.takeSample ack).tcb = e.tcb := by rw [takeSample_eq]
@[simp] theorem takeSample_buf : (e.takeSample ack).buf = e.buf := by rw [takeSample_eq]
@[simp] theorem takeSample_fin : (e.takeSample ack).fin = e.fin := by rw [takeSample_eq]
@[simp] theorem takeSample_psh : (e.takeSample ack).psh = e.psh := by rw [takeSample_eq]
@[simp] theorem takeSample_tm : (e.takeSample ack).tm = e.tm := by rw [takeSample_eq]
@[simp] theorem takeSample_adv : (e.takeSample ack).adv = e.adv := by rw [takeSample_eq]
@[simp] theorem takeSample_env : (e.takeSample ack).env = e.env := by rw [takeSample_eq]

/-- What an acknowledgement leaves alone. -/
@[simp] theorem processAck_conf : (e.processAck ack).conf = e.conf := by
  simp only [processAck]; split <;> simp
/-- It moves SND.UNA. -/
@[simp] theorem processAck_tcb : (e.processAck ack).tcb = { e.tcb with sndUna := ack } := by
  simp only [processAck]; split <;> simp
/-- It takes what it covers off the retransmission queue. -/
@[simp] theorem processAck_buf : (e.processAck ack).buf =
    { e.buf with retx := trimRetx ack e.buf.retx } := by
  simp only [processAck]; split <;> simp
/-- It acknowledges the FIN where it is past it. -/
@[simp] theorem processAck_fin : (e.processAck ack).fin =
    { e.fin with finAcked := e.fin.finAcked || (e.fin.finSent && seqGt ack e.fin.finSeq) } := by
  simp only [processAck]; split <;> simp
@[simp] theorem processAck_psh : (e.processAck ack).psh = e.psh := by
  simp only [processAck]; split <;> simp
@[simp] theorem processAck_adv : (e.processAck ack).adv = e.adv := by
  simp only [processAck]; split <;> simp
@[simp] theorem processAck_env : (e.processAck ack).env = e.env := by
  simp only [processAck]; split <;> simp

end ProcessAck

/-! ## Shutdown -/

/-- Cancelling the persist timer changes the timers only. -/
@[simp] theorem dropPersistTimer_conf : e.dropPersistTimer.conf = e.conf := rfl
@[simp] theorem dropPersistTimer_tcb : e.dropPersistTimer.tcb = e.tcb := rfl
@[simp] theorem dropPersistTimer_buf : e.dropPersistTimer.buf = e.buf := rfl
@[simp] theorem dropPersistTimer_fin : e.dropPersistTimer.fin = e.fin := rfl
@[simp] theorem dropPersistTimer_psh : e.dropPersistTimer.psh = e.psh := rfl
@[simp] theorem dropPersistTimer_rt : e.dropPersistTimer.rt = e.rt := rfl
@[simp] theorem dropPersistTimer_adv : e.dropPersistTimer.adv = e.adv := rfl
@[simp] theorem dropPersistTimer_env : e.dropPersistTimer.env = e.env := rfl

/-- So does cancelling the 2*MSL timer. -/
@[simp] theorem cancelTwTimer_tcb : e.cancelTwTimer.tcb = e.tcb := rfl
@[simp] theorem cancelTwTimer_env : e.cancelTwTimer.env = e.env := rfl

/-- So does cancelling the delayed-ACK timer. -/
@[simp] theorem cancelAckTimer_tcb : e.cancelAckTimer.tcb = e.tcb := rfl
@[simp] theorem cancelAckTimer_env : e.cancelAckTimer.env = e.env := rfl

/-- Arming the 2*MSL timer changes the timers only. -/
@[simp] theorem armTwTimer_conf : e.armTwTimer.conf = e.conf := rfl
@[simp] theorem armTwTimer_tcb : e.armTwTimer.tcb = e.tcb := rfl
@[simp] theorem armTwTimer_buf : e.armTwTimer.buf = e.buf := rfl
@[simp] theorem armTwTimer_fin : e.armTwTimer.fin = e.fin := rfl
@[simp] theorem armTwTimer_env : e.armTwTimer.env = e.env := rfl

/-- The count of timeouts is kept with the timers. -/
@[simp] theorem countRto_conf : e.countRto.conf = e.conf := rfl
@[simp] theorem countRto_tcb : e.countRto.tcb = e.tcb := rfl
@[simp] theorem countRto_buf : e.countRto.buf = e.buf := rfl
@[simp] theorem countRto_fin : e.countRto.fin = e.fin := rfl
@[simp] theorem countRto_psh : e.countRto.psh = e.psh := rfl
@[simp] theorem countRto_rt : e.countRto.rt = e.rt := rfl
@[simp] theorem countRto_adv : e.countRto.adv = e.adv := rfl
@[simp] theorem countRto_env : e.countRto.env = e.env := rfl
@[simp] theorem countRto_now : e.countRto.now = e.now := rfl

/-- `_reset_buffers` leaves the configuration, the TCB, the flags of the text and the log. -/
@[simp] theorem resetBuffers_conf : e.resetBuffers.conf = e.conf := rfl
@[simp] theorem resetBuffers_tcb : e.resetBuffers.tcb = e.tcb := rfl
@[simp] theorem resetBuffers_psh : e.resetBuffers.psh = e.psh := rfl
@[simp] theorem resetBuffers_env : e.resetBuffers.env = e.env := rfl

section SetSendWindow

variable (wnd : Nat) (wl1 wl2 : Int)

/-- What an update of the send window leaves alone. -/
@[simp] theorem setSendWindow_conf : (e.setSendWindow wnd wl1 wl2).conf = e.conf := rfl
/-- The window goes with the segment it was taken from. -/
@[simp] theorem setSendWindow_tcb : (e.setSendWindow wnd wl1 wl2).tcb =
    { e.tcb with sndWnd := wnd, sndWl1 := wl1, sndWl2 := wl2 } := rfl
@[simp] theorem setSendWindow_buf : (e.setSendWindow wnd wl1 wl2).buf = e.buf := rfl
@[simp] theorem setSendWindow_fin : (e.setSendWindow wnd wl1 wl2).fin = e.fin := rfl
@[simp] theorem setSendWindow_psh : (e.setSendWindow wnd wl1 wl2).psh = e.psh := rfl
@[simp] theorem setSendWindow_tm : (e.setSendWindow wnd wl1 wl2).tm = e.tm := rfl
@[simp] theorem setSendWindow_rt : (e.setSendWindow wnd wl1 wl2).rt = e.rt := rfl
@[simp] theorem setSendWindow_adv : (e.setSendWindow wnd wl1 wl2).adv = e.adv := rfl
@[simp] theorem setSendWindow_env : (e.setSendWindow wnd wl1 wl2).env = e.env := rfl

end SetSendWindow

/-! ## The peer's FIN -/

/-- What consuming the FIN of the peer leaves alone. -/
@[simp] theorem consumeFin_conf : e.consumeFin.conf = e.conf := by simp [consumeFin]
/-- The FIN takes one number. -/
@[simp] theorem consumeFin_tcb :
    e.consumeFin.tcb = { e.tcb with rcvNxt := add e.tcb.rcvNxt 1 } := by simp [consumeFin]
@[simp] theorem consumeFin_buf : e.consumeFin.buf = e.buf := by simp [consumeFin]
/-- It is pending no longer. -/
@[simp] theorem consumeFin_fin :
    e.consumeFin.fin = { e.fin with pendingFin := none, peerFin := true } := by simp [consumeFin]
@[simp] theorem consumeFin_tm : e.consumeFin.tm = e.tm := by simp [consumeFin]
@[simp] theorem consumeFin_rt : e.consumeFin.rt = e.rt := by simp [consumeFin]
@[simp] theorem consumeFin_hung : e.consumeFin.env.hung = e.env.hung := by simp [consumeFin]
@[simp] theorem consumeFin_exc : e.consumeFin.env.exc = e.env.exc := by simp [consumeFin]

end TcpEngine

end HdlPlayground.Tcp

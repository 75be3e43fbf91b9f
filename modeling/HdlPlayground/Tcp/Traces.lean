import HdlPlayground.Tcp.Effects

/-!
# The two halves of an engine

What the parts of the handlers may put on the log, the send path segments and state
changes, the receive path segments and deliveries; and what the send path leaves
alone of the receive side.
-/
namespace HdlPlayground.Tcp

namespace TcpEngine

variable {e f : TcpEngine} {P : Event → Prop}

/-! ## The log -/

/-- The data loop logs segments. -/
theorem SendRun.logs {r : TcpEngine × Bool} (htx : ∀ s, P (.tx s)) (h : SendRun e r) :
    Logs P e r.1 := by
  induction h with
  | empty => exact .none rfl
  | closed => exact .none (by simp)
  | held => exact .none rfl
  | hang => exact .none rfl
  | chunk e r _ _ _ _ _ ih =>
    have hc : Logs P e (e.sendChunk e.chunkLen) :=
      Logs.trans (f := e.queueChunk e.chunkLen) (Logs.trans (f := e.takeChunk e.chunkLen)
        (.none rfl) (queueAndSend_logs _ _ _ _ (htx _))) (.none (by simp))
    exact hc.trans ih

/-- The FIN adds the state it leads to. -/
theorem finPart_logs (htx : ∀ s, P (.tx s)) (hst : ∀ o n, P (.stateChange o n)) :
    Logs P e e.finPart := by
  rcases e.finPart_cases with ⟨-, h⟩ | ⟨-, -, h⟩ | ⟨-, -, -, h⟩ | ⟨-, -, -, h⟩
  · rw [h]; exact .none rfl
  · rw [h]; exact .none (by simp)
  · rw [h]; exact .none rfl
  · rw [h]; exact sendFin_logs (htx _) fun _ => hst _ _

/-- So the send path logs segments and state changes. -/
theorem sendPending_logs (htx : ∀ s, P (.tx s)) (hst : ∀ o n, P (.stateChange o n)) :
    Logs P e e.sendPending := by
  rcases e.sendPending_cases with ⟨-, h⟩ | ⟨-, h⟩ | ⟨-, f, h, hf⟩
  · rw [h]; exact .none rfl
  · exact h.logs htx
  · rw [hf]; exact (h.logs htx).trans (finPart_logs htx hst)

theorem cancelPersist_logs (htx : ∀ s, P (.tx s)) (hst : ∀ o n, P (.stateChange o n)) :
    Logs P e e.cancelPersist :=
  Logs.trans (f := e.dropPersistTimer) (.none rfl) (sendPending_logs htx hst)

/-- A window that opens releases what is buffered, and that is all it logs. -/
theorem windowUpdate_logs (seg : TcpSegment) (htx : ∀ s, P (.tx s))
    (hst : ∀ o n, P (.stateChange o n)) : Logs P e (e.windowUpdate seg) := by
  unfold windowUpdate
  dsimp only
  split_ifs
  · exact Logs.trans (f := e.setSendWindow seg.window seg.seq seg.ack) (.none rfl)
      (cancelPersist_logs htx hst)
  · exact .none rfl
  · exact .none rfl

/-- On the way to TIME-WAIT and to CLOSED what is buffered may still go out. -/
theorem enterTimeWait_logs (htx : ∀ s, P (.tx s)) (hst : ∀ o n, P (.stateChange o n)) :
    Logs P e e.enterTimeWait :=
  Logs.trans (f := e.stopRt) (.none rfl) ((cancelPersist_logs htx hst).trans
    ((setState_logs _ fun _ => hst _ _).trans (.none rfl)))

theorem enterClosed_sends (htx : ∀ s, P (.tx s)) (hst : ∀ o n, P (.stateChange o n)) :
    Logs P e e.enterClosed := by
  have hc : Logs P e.stopRt.cancelPersist.cancelKeepalive.cancelTwTimer.cancelAckTimer.resetBuffers
      e.enterClosed := setState_logs _ fun _ => hst _ _
  exact Logs.trans (f := e.stopRt) (.none rfl) ((cancelPersist_logs htx hst).trans
    (Logs.trans (.none rfl) hc))

/-- The receive path logs deliveries. -/
theorem deliver_logs (hd : ∀ data, P (.deliver data)) (data : List UInt8) :
    Logs P e (e.deliver data) := .one (.deliver data) (by simp) (hd data)

theorem takeInOrder_logs (hd : ∀ data, P (.deliver data)) (seg : TcpSegment) (data : List UInt8) :
    Logs P e (e.takeInOrder seg data) := by
  unfold takeInOrder
  dsimp only
  split
  · exact (deliver_logs hd data).trans (.none rfl)
  · exact (deliver_logs hd data).trans (.none rfl)

theorem mergeEntry_logs (hd : ∀ data, P (.deliver data)) (x : OooEntry) :
    Logs P e (e.mergeEntry x) := by
  unfold mergeEntry
  dsimp only
  split_ifs
  · exact .none rfl
  · exact .none rfl
  · exact (deliver_logs hd _).trans (.none rfl)

/-- What had been held back is delivered in the same way. -/
theorem mergeLoop_logs (hd : ∀ data, P (.deliver data)) (fuel : Nat) :
    Logs P e (mergeLoop fuel e) := by
  induction fuel generalizing e with
  | zero => exact .none rfl
  | succ fuel ih =>
    unfold mergeLoop
    split
    · exact .none rfl
    · next x hx =>
      exact Logs.trans (f := { e with buf := { e.buf with ooo := e.buf.ooo.eraseP e.mergeable } })
        (.none rfl) ((mergeEntry_logs hd x).trans ih)

/-- An ACK is all that `_schedule_ack` can log. -/
theorem scheduleAck_logs (htx : ∀ g : TcpEngine, P (.tx g.ackSegment)) (force : Bool) :
    Logs P e (e.scheduleAck force) := by
  obtain ⟨n, h⟩ | ⟨d, n, -, -, -, h⟩ | ⟨-, -, n, h⟩ := e.scheduleAck_cases force
  · exact .one (.tx (ackSegment { e with tm := { e.tm with ackCount := n } })) (by rw [h]; simp)
      (htx _)
  · exact .none (by rw [h])
  · exact .none (by rw [h])

/-- Text is delivered, held back or dropped, and acknowledged. -/
theorem recvTrimmed_logs (htx : ∀ g : TcpEngine, P (.tx g.ackSegment))
    (hd : ∀ data, P (.deliver data)) (seg : TcpSegment)
    (seq : Int) (data : List UInt8) : Logs P e (e.recvTrimmed seg seq data) := by
  unfold recvTrimmed
  dsimp only
  split_ifs
  · exact scheduleAck_logs htx _
  · exact (takeInOrder_logs hd seg _).trans ((mergeLoop_logs hd _).trans (scheduleAck_logs htx _))
  · exact Logs.trans (.none (storeOoo_env _ _ _)) (scheduleAck_logs htx _)

theorem recvData_logs (htx : ∀ g : TcpEngine, P (.tx g.ackSegment))
    (hd : ∀ data, P (.deliver data)) (seg : TcpSegment) : Logs P e (e.recvData seg) := by
  unfold recvData
  dsimp only
  split_ifs
  · exact .none rfl
  · exact scheduleAck_logs htx _
  · exact recvTrimmed_logs htx hd _ _ _
  · exact recvTrimmed_logs htx hd _ _ _

/-! ## The receive side -/

/-- Nothing of the receive side has changed. -/
structure SendFrame (e f : TcpEngine) : Prop where
  conf : f.conf = e.conf
  rcvNxt : f.tcb.rcvNxt = e.tcb.rcvNxt
  sndMss : f.tcb.sndMss = e.tcb.sndMss
  recvBuf : f.buf.recvBuf = e.buf.recvBuf
  ooo : f.buf.ooo = e.buf.ooo
  pendingFin : f.fin.pendingFin = e.fin.pendingFin

namespace SendFrame

theorem refl (e : TcpEngine) : SendFrame e e := ⟨rfl, rfl, rfl, rfl, rfl, rfl⟩

theorem trans {g : TcpEngine} (h : SendFrame e f) (h' : SendFrame f g) : SendFrame e g where
  conf := h'.conf.trans h.conf
  rcvNxt := h'.rcvNxt.trans h.rcvNxt
  sndMss := h'.sndMss.trans h.sndMss
  recvBuf := h'.recvBuf.trans h.recvBuf
  ooo := h'.ooo.trans h.ooo
  pendingFin := h'.pendingFin.trans h.pendingFin

end SendFrame

/-- A chunk of text leaves the receive side alone. -/
theorem sendChunk_frame (n : Nat) : SendFrame e (e.sendChunk n) := by
  constructor <;> simp [queueChunk, takeChunk]

/-- So does the whole data loop. -/
theorem SendRun.frame {r : TcpEngine × Bool} (h : SendRun e r) : SendFrame e r.1 := by
  induction h with
  | empty => exact .refl _
  | closed => constructor <;> simp
  | held => exact .refl _
  | hang => exact ⟨rfl, rfl, rfl, rfl, rfl, rfl⟩
  | chunk e r _ _ _ _ _ ih => exact (sendChunk_frame _).trans ih

theorem sendFin_frame : SendFrame e e.sendFin := by
  obtain ⟨st, h, -⟩ := sendFin_cases (e := e)
  rw [h]
  constructor <;> simp [finQueued]

theorem finPart_frame : SendFrame e e.finPart := by
  rcases e.finPart_cases with ⟨-, h⟩ | ⟨-, -, h⟩ | ⟨-, -, -, h⟩ | ⟨-, -, -, h⟩
  · rw [h]; exact .refl e
  · rw [h]; constructor <;> simp
  · rw [h]; exact .refl e
  · rw [h]; exact sendFin_frame

/-- The send path does not touch the receive side. -/
theorem sendPending_frame : SendFrame e e.sendPending := by
  rcases e.sendPending_cases with ⟨-, h⟩ | ⟨-, h⟩ | ⟨-, f, h, hf⟩
  · rw [h]; exact .refl e
  · exact h.frame
  · rw [hf]; exact h.frame.trans finPart_frame

theorem cancelPersist_frame : SendFrame e e.cancelPersist :=
  SendFrame.trans (f := e.dropPersistTimer) ⟨rfl, rfl, rfl, rfl, rfl, rfl⟩ sendPending_frame

theorem windowUpdate_frame (seg : TcpSegment) : SendFrame e (e.windowUpdate seg) := by
  have h : SendFrame e (e.setSendWindow seg.window seg.seq seg.ack) :=
    ⟨rfl, rfl, rfl, rfl, rfl, rfl⟩
  unfold windowUpdate
  dsimp only
  split_ifs
  · exact h.trans cancelPersist_frame
  · exact h
  · exact .refl e

/-- Neither does an acknowledgement. -/
theorem processAck_frame (ack : Int) : SendFrame e (e.processAck ack) := by
  constructor <;> simp

/-- A state change is nothing to the receive side. -/
theorem setState_frame (st : ConnState) : SendFrame e (e.setState st) := by
  constructor <;> simp

theorem enterTimeWait_frame : SendFrame e e.enterTimeWait :=
  SendFrame.trans (f := e.stopRt) ⟨rfl, rfl, rfl, rfl, rfl, rfl⟩
    (cancelPersist_frame.trans ((setState_frame .timeWait).trans ⟨rfl, rfl, rfl, rfl, rfl, rfl⟩))

/-- The shutdown empties the buffers, but it does not touch RCV.NXT. -/
@[simp] theorem enterClosed_rcvNxt : e.enterClosed.tcb.rcvNxt = e.tcb.rcvNxt := by
  have h : SendFrame e e.stopRt.cancelPersist :=
    SendFrame.trans (f := e.stopRt) ⟨rfl, rfl, rfl, rfl, rfl, rfl⟩ cancelPersist_frame
  rw [enterClosed, closeDown, setState_tcb]
  exact h.rcvNxt

@[simp] theorem giveUp_rcvNxt (msg : String) : (e.giveUp msg).tcb.rcvNxt = e.tcb.rcvNxt := by
  unfold giveUp
  dsimp only
  rw [enterClosed_rcvNxt]
  split
  · simp [signalError]
  · rfl

end TcpEngine

end HdlPlayground.Tcp

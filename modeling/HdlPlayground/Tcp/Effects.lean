import HdlPlayground.Tcp.Paths

/-!
# What a move changes in the connection state, and what it emits

`Control` is the abstract state machine behind the engine: the connection state
and the close bookkeeping, with the bytes, numbers and timers left out. Each
move is a step of it or leaves both alone. `Emits` lists what may appear on the
log.
-/
namespace HdlPlayground.Tcp

/-- The close bookkeeping after `_reset_buffers`. -/
def CloseState.cleared (f : CloseState) : CloseState :=
  { f with finPending := false, finSent := false, finAcked := false, pendingFin := none }

namespace TcpEngine

variable {a : Action} {e e' : TcpEngine}

/-! ## Closing moves in one form -/

/-- Closing a blocked engine changes the timers in some way and then clears it. -/
theorem enterClosed_closeDown (h : e.Blocked) :
    ∃ tm, e.enterClosed = closeDown { e with tm := tm } := by
  rw [enterClosed_of_blocked h]
  split
  · refine
      ⟨e.stopRt.dropPersistTimer.armPersist.cancelKeepalive.cancelTwTimer.cancelAckTimer.tm, ?_⟩
    rw [armPersist_eq]
    rfl
  · exact ⟨e.stopRt.dropPersistTimer.cancelKeepalive.cancelTwTimer.cancelAckTimer.tm, rfl⟩

@[simp] theorem resetBuffers_buf : e.resetBuffers.buf = {} := rfl
@[simp] theorem resetBuffers_fin : e.resetBuffers.fin = e.fin.cleared := rfl

@[simp] theorem enterClosed_state : e.enterClosed.tcb.state = .closed := by
  simp [enterClosed, closeDown]

/-- Of the FINs only that of the peer outlasts the connection. -/
theorem enterClosed_fin (h : e.Blocked) : e.enterClosed.fin = e.fin.cleared := by
  obtain ⟨tm, h⟩ := enterClosed_closeDown h
  simp [h, closeDown]

@[simp] theorem enterClosed_buf : e.enterClosed.buf = {} := by
  simp [enterClosed, closeDown]

/-- Giving up may send a RST, reports the error and closes. -/
theorem giveUp_eq (msg : String) : ∃ f : TcpEngine, (f = e ∨ f = e.sendRst) ∧
    e.giveUp msg = (f.signalError msg).enterClosed := by
  unfold giveUp
  dsimp only
  split
  · exact ⟨_, Or.inr rfl, rfl⟩
  · exact ⟨_, Or.inl rfl, rfl⟩

@[simp] theorem sendRst_conf : e.sendRst.conf = e.conf := by simp [sendRst]
@[simp] theorem sendRst_tcb : e.sendRst.tcb = e.tcb := by simp [sendRst]
@[simp] theorem sendRst_buf : e.sendRst.buf = e.buf := by simp [sendRst]
@[simp] theorem sendRst_fin : e.sendRst.fin = e.fin := by simp [sendRst]
@[simp] theorem sendRst_tm : e.sendRst.tm = e.tm := by simp [sendRst]
@[simp] theorem sendRst_rt : e.sendRst.rt = e.rt := by simp [sendRst]

@[simp] theorem giveUp_state (msg : String) : (e.giveUp msg).tcb.state = .closed := by
  obtain ⟨f, -, h⟩ := giveUp_eq (e := e) msg
  rw [h, enterClosed_state]

@[simp] theorem giveUp_buf (msg : String) : (e.giveUp msg).buf = {} := by
  obtain ⟨f, -, h⟩ := giveUp_eq (e := e) msg
  rw [h, enterClosed_buf]

/-- What `_abort` hands to `_enter_closed` is still blocked. -/
theorem giveUp_closes (msg : String) (hb : e.Blocked) : ∃ f : TcpEngine,
    (f = e ∨ f = e.sendRst) ∧ (f.signalError msg).Blocked ∧
      e.giveUp msg = (f.signalError msg).enterClosed := by
  obtain ⟨f, hf, h⟩ := giveUp_eq (e := e) msg
  refine ⟨f, hf, ?_, h⟩
  obtain rfl | rfl := hf
  · exact hb.of_view rfl
  · exact (sendRst_blocked hb).of_view rfl

/-- And clears the flags as closing does. -/
theorem giveUp_fin (msg : String) (hb : e.Blocked) : (e.giveUp msg).fin = e.fin.cleared := by
  obtain ⟨f, hf, hfb, h⟩ := giveUp_closes msg hb
  rw [h, enterClosed_fin hfb]
  obtain rfl | rfl := hf <;> simp

section Fire

variable (h : TimerHandle Callback)

/-- A timer that fires is a matter of the timers alone. -/
theorem fire_eq : ∃ tm, e.fire h = { e with tm := tm } := by
  unfold fire popTimer
  cases h.cb <;> exact ⟨_, rfl⟩

@[simp] theorem fire_conf : (e.fire h).conf = e.conf := by
  obtain ⟨tm, hf⟩ := fire_eq (e := e) h; rw [hf]
@[simp] theorem fire_tcb : (e.fire h).tcb = e.tcb := by
  obtain ⟨tm, hf⟩ := fire_eq (e := e) h; rw [hf]
@[simp] theorem fire_buf : (e.fire h).buf = e.buf := by
  obtain ⟨tm, hf⟩ := fire_eq (e := e) h; rw [hf]
@[simp] theorem fire_fin : (e.fire h).fin = e.fin := by
  obtain ⟨tm, hf⟩ := fire_eq (e := e) h; rw [hf]
@[simp] theorem fire_rt : (e.fire h).rt = e.rt := by
  obtain ⟨tm, hf⟩ := fire_eq (e := e) h; rw [hf]
@[simp] theorem fire_adv : (e.fire h).adv = e.adv := by
  obtain ⟨tm, hf⟩ := fire_eq (e := e) h; rw [hf]
@[simp] theorem fire_psh : (e.fire h).psh = e.psh := by
  obtain ⟨tm, hf⟩ := fire_eq (e := e) h; rw [hf]
@[simp] theorem fire_env : (e.fire h).env = e.env := by
  obtain ⟨tm, hf⟩ := fire_eq (e := e) h; rw [hf]

@[simp] theorem fire_now : (e.fire h).now = e.now := by
  unfold fire popTimer now
  cases h.cb <;> rfl
@[simp] theorem fire_rtoCount : (e.fire h).tm.rtoCount = e.tm.rtoCount := by
  unfold fire popTimer
  cases h.cb <;> rfl
@[simp] theorem fire_kaProbes : (e.fire h).tm.kaProbes = e.tm.kaProbes := by
  unfold fire popTimer
  cases h.cb <;> rfl

end Fire

/-- A timer that fires unblocks nothing. -/
theorem Blocked.fire (hb : e.Blocked) (h : TimerHandle Callback) : (e.fire h).Blocked := by
  obtain ⟨tm, hf⟩ := fire_eq (e := e) h
  rw [hf]
  exact hb

section RetransmitHead

variable (o : Outgoing) (rest : List Outgoing)

/-- The head as it stands on the queue after a retransmission. -/
def resent (e : TcpEngine) (o : Outgoing) : Outgoing :=
  { o with retransmitted := true, sentTime := e.now }

/-- The head goes out again and is timed, or its MSS option cannot be built. -/
theorem retransmitHead_cases :
    (e.retransmitHead o rest = (((e.markRetransmitted o rest).advertise.emit
      (.tx
        ((e.markRetransmitted o rest).segmentFor o.seq o.flags o.payload o.flags.syn))).startRt)) ∨
    (o.flags.syn = true ∧ 65535 < e.tcb.sndMss ∧ e.retransmitHead o rest =
      (e.markRetransmitted o rest).advertise.setExc .structError) := by
  simp only [retransmitHead]
  split
  · next hb =>
    apply Or.inr
    by_cases hm : o.flags.syn = true ∧ 65535 < e.tcb.sndMss
    · exact ⟨hm.1, hm.2, rfl⟩
    · rw [segmentFor_build (e := e.markRetransmitted o rest) hm] at hb
      cases hb
  · exact Or.inl rfl

@[simp] theorem retransmitHead_conf : (e.retransmitHead o rest).conf = e.conf := by
  obtain h | ⟨-, -, h⟩ := retransmitHead_cases (e := e) o rest <;> simp [h, markRetransmitted]
@[simp] theorem retransmitHead_tcb : (e.retransmitHead o rest).tcb = e.tcb := by
  obtain h | ⟨-, -, h⟩ := retransmitHead_cases (e := e) o rest <;> simp [h, markRetransmitted]
@[simp] theorem retransmitHead_buf : (e.retransmitHead o rest).buf =
    { e.buf with retx := e.resent o :: rest } := by
  obtain h | ⟨-, -, h⟩ := retransmitHead_cases (e := e) o rest <;>
    simp [h, markRetransmitted, resent]
@[simp] theorem retransmitHead_fin : (e.retransmitHead o rest).fin = e.fin := by
  obtain h | ⟨-, -, h⟩ := retransmitHead_cases (e := e) o rest <;> simp [h, markRetransmitted]
@[simp] theorem retransmitHead_persist :
    (e.retransmitHead o rest).tm.persistTimer = e.tm.persistTimer := by
  obtain h | ⟨-, -, h⟩ := retransmitHead_cases (e := e) o rest <;>
    simp [h, markRetransmitted, startRt]
@[simp] theorem retransmitHead_hung : (e.retransmitHead o rest).env.hung = e.env.hung := by
  obtain h | ⟨-, -, h⟩ := retransmitHead_cases (e := e) o rest <;> simp [h, markRetransmitted]

end RetransmitHead

@[simp] theorem rearmPersist_conf : e.rearmPersist.conf = e.conf := rfl
@[simp] theorem rearmPersist_tcb : e.rearmPersist.tcb = e.tcb := rfl
@[simp] theorem rearmPersist_buf : e.rearmPersist.buf = e.buf := rfl
@[simp] theorem rearmPersist_fin : e.rearmPersist.fin = e.fin := rfl
@[simp] theorem rearmPersist_env : e.rearmPersist.env = e.env := rfl

@[simp] theorem enter_conf : e.enter.conf = e.conf := rfl
@[simp] theorem enter_tcb : e.enter.tcb = e.tcb := rfl
@[simp] theorem enter_buf : e.enter.buf = e.buf := rfl
@[simp] theorem enter_fin : e.enter.fin = e.fin := rfl
@[simp] theorem enter_psh : e.enter.psh = e.psh := rfl
@[simp] theorem enter_tm : e.enter.tm = e.tm := rfl
@[simp] theorem enter_rt : e.enter.rt = e.rt := rfl
@[simp] theorem enter_adv : e.enter.adv = e.adv := rfl

@[simp] theorem enter_now : e.enter.now = e.now := rfl
@[simp] theorem setPorts_tcb (r l : Option Nat) : (e.setPorts r l).tcb = e.tcb := rfl
@[simp] theorem drain_tcb (n : Nat) : (e.drain n).tcb = e.tcb := rfl
@[simp] theorem reopenWindow_tcb : e.reopenWindow.tcb = e.tcb := rfl

@[simp] theorem setUserTimeout_tcb (t : Option ℚ) : (e.setUserTimeout t).tcb = e.tcb := by
  cases t <;> rfl
@[simp] theorem setUserTimeout_buf (t : Option ℚ) : (e.setUserTimeout t).buf = e.buf := by
  cases t <;> rfl
@[simp] theorem setUserTimeout_fin (t : Option ℚ) : (e.setUserTimeout t).fin = e.fin := by
  cases t <;> rfl
@[simp] theorem setUserTimeout_tm (t : Option ℚ) : (e.setUserTimeout t).tm = e.tm := by
  cases t <;> rfl
@[simp] theorem setUserTimeout_rt (t : Option ℚ) : (e.setUserTimeout t).rt = e.rt := by
  cases t <;> rfl
@[simp] theorem setUserTimeout_env (t : Option ℚ) : (e.setUserTimeout t).env = e.env := by
  cases t <;> rfl

@[simp] theorem finishReceive_tcb (data : List UInt8) :
    (e.finishReceive data).tcb = e.tcb := by
  unfold finishReceive; dsimp only; split <;> rfl
@[simp] theorem finishReceive_buf (data : List UInt8) :
    (e.finishReceive data).buf = e.buf := by
  unfold finishReceive; dsimp only; split <;> rfl
@[simp] theorem finishReceive_fin (data : List UInt8) :
    (e.finishReceive data).fin = e.fin := by
  unfold finishReceive; dsimp only; split <;> rfl
@[simp] theorem finishReceive_conf (data : List UInt8) :
    (e.finishReceive data).conf = e.conf := by
  unfold finishReceive; dsimp only; split <;> rfl
@[simp] theorem finishReceive_tm (data : List UInt8) :
    (e.finishReceive data).tm = e.tm := by
  unfold finishReceive; dsimp only; split <;> rfl
@[simp] theorem finishReceive_env (data : List UInt8) : (e.finishReceive data).env =
    { e.env with log := e.env.log ++ [.received data e.psh.pushSeen e.psh.urgentSeen] } := by
  unfold finishReceive; dsimp only; split <;> rfl

/-- An active open up to its SYN. -/
def dialled (e : TcpEngine) : TcpEngine :=
  { e with
    fin := { e.fin with passive := false }
    tcb := { e.tcb with
      state := .synSent, iss := e.newIss, sndUna := e.newIss, sndNxt := e.newIss, sndWnd := 0 }
    env := { e.env with log := e.env.log ++ [.stateChange e.tcb.state .synSent] } }

/-- From CLOSED and from LISTEN an active open connects. -/
theorem activeOpen_eq (h : e.tcb.state = .closed ∨ e.tcb.state = .listen) :
    e.activeOpen = e.connect := by
  rw [activeOpen, if_neg (by tauto)]

/-- From CLOSED a passive open listens. -/
theorem passiveOpen_eq (h : e.tcb.state = .closed) : e.passiveOpen = e.startListening := by
  rw [passiveOpen, if_neg (by tauto)]

/-- Connecting sends a SYN from the new ISS. -/
theorem connect_eq (h : e.tcb.state = .closed ∨ e.tcb.state = .listen) :
    e.connect = e.dialled.queueAndSend { syn := true } [] true := by
  unfold connect
  dsimp only
  rw [setState_plain (by rcases h with h | h <;> simp [h]) (by simp)
    (by rcases h with h | h <;> simp [h])]
  rfl

/-- Taking a SYN logs nothing. -/
theorem takeSyn_env (seg : TcpSegment) : (e.takeSyn seg).env.log = e.env.log := by
  obtain ⟨m, -, -, h⟩ := takeSyn_cases (e := e) seg
  rw [h]
  dsimp only
  split <;> simp

/-- Holding text back logs nothing. -/
theorem storeOoo_env (seq : Int) (data : List UInt8) (flags : Flags) :
    (e.storeOoo seq data flags).env.log = e.env.log := by
  unfold storeOoo; split <;> rfl

/-! ## The abstract state machine -/

/-- The connection state and the close bookkeeping. -/
abbrev Ctl := ConnState × CloseState

def ctl (e : TcpEngine) : Ctl := (e.tcb.state, e.fin)

inductive Control (a : Action) : Ctl → Ctl → Prop
  | stay (c : Ctl) : Control a c c
  | connect (s : ConnState) (f : CloseState) : (s = .closed ∧ a.Opens) ∨ s = .listen →
      ¬ a.Closes → Control a (s, f) (.synSent, { f with passive := false })
  | listen (f : CloseState) : a.Opens → Control a (.closed, f) (.listen, { f with passive := true })
  | requestFin (s : ConnState) (f : CloseState) : s ∈ [.synReceived, .established, .closeWait] →
      Control a (s, f) (s, { f with finPending := true })
  | sendFin (s s' : ConnState) (f : CloseState) (n : Int) :
      f.finPending = true → f.finSent = false →
      (s = .established ∧ s' = .finWait1) ∨ (s = .closeWait ∧ s' = .lastAck) ∨
        (s = .synReceived ∧ s' = .finWait1) ∨
        (s ∉ [.established, .closeWait, .synReceived] ∧ s' = s) →
      Control a (s, f) (s', { f with finSeq := n, finSent := true })
  | processAck (s : ConnState) (f : CloseState) (b : Bool) : (∃ seg, a.Carries seg) →
      Control a (s, f) (s, { f with finAcked := f.finAcked || (f.finSent && b) })
  | acceptSyn (f : CloseState) : ¬ a.Closes → Control a (.listen, f) (.synReceived, f)
  | synEstablished (f : CloseState) (b : Bool) :
      Control a (.synSent, f) (.established, { f with finAcked := f.finAcked || (f.finSent && b) })
  | synReceived (f : CloseState) (b : Bool) :
      Control a (.synSent, f) (.synReceived, { f with finAcked := f.finAcked || (f.finSent && b) })
  | deferFin (s : ConnState) (f : CloseState) (n : Int) :
      Control a (s, f) (s, { f with pendingFin := some n })
  | completeOpen (f : CloseState) (b : Bool) :
      Control a (.synReceived, f)
        (.established, { f with finAcked := f.finAcked || (f.finSent && b) })
  | finAckedWait (f : CloseState) : f.finAcked = true → Control a (.finWait1, f) (.finWait2, f)
  | finAckedTimeWait (f : CloseState) : f.finAcked = true →
      Control a (.closing, f) (.timeWait, f)
  | processFin (s s' : ConnState) (f : CloseState) : s ∈ OpenStates →
      (s = .established ∧ s' = .closeWait) ∨ (s = .finWait1 ∧ s' = .closing) ∨
        (s = .finWait2 ∧ s' = .timeWait) ∨
        (s ∉ [.established, .finWait1, .finWait2] ∧ s' = s) →
      Control a (s, f) (s', { f with pendingFin := none, peerFin := true })
  | listenAgain (f : CloseState) : f.passive = true →
      Control a (.synReceived, f) (.listen, f.cleared)
  | close (s : ConnState) (f : CloseState) : a.Closes → Control a (s, f) (.closed, f.cleared)

/-- The state and the flags stay. -/
theorem Control.stay_of {c c' : Ctl} (h : c' = c) : Control a c c' := by
  rw [h]
  exact .stay c

/-- A connection begins in an entry point that ends none, and in CLOSED in an open. -/
theorem Control.begins {c c' : Ctl} (h : Control a c c') (hc : c.1 ∈ [.closed, .listen])
    (hc' : c'.1 ∉ [.closed, .listen]) : ¬ a.Closes ∧ (c.1 = .closed → a.Opens) := by
  cases h with
  | stay => exact absurd hc hc'
  | connect s f hs hx =>
    refine ⟨hx, fun hcl => ?_⟩
    rcases hs with ⟨-, ho⟩ | hl
    · exact ho
    · cases hcl.symm.trans hl
  | acceptSyn f hx => exact ⟨hx, fun hcl => by cases hcl⟩
  | listen => simp at hc'
  | requestFin s f hs => exact absurd hc hc'
  | sendFin s s' f n _ _ hs =>
    exfalso
    rcases hs with ⟨rfl, -⟩ | ⟨rfl, -⟩ | ⟨rfl, -⟩ | ⟨-, rfl⟩
    · simp at hc
    · simp at hc
    · simp at hc
    · exact hc' hc
  | processFin s s' f hs =>
    exfalso
    rcases List.mem_pair.mp hc with hc | hc <;> dsimp only at hc <;> subst hc <;> simp at hs
  | processAck => exact absurd hc hc'
  | deferFin => exact absurd hc hc'
  | listenAgain => simp at hc'
  | close => simp at hc'
  | _ => simp at hc

/-- Only the end of a connection takes a sent FIN back. -/
theorem Control.finSent {c c' : Ctl} (h : Control a c c') (hf : c.2.finSent = true) :
    c'.2.finSent = true ∨ c'.1 ∈ [.closed, .listen] := by
  cases h with
  | listenAgain => exact Or.inr (by simp)
  | close => exact Or.inr (by simp)
  | sendFin => exact Or.inl rfl
  | _ => exact Or.inl hf

/-- LISTEN is entered from CLOSED only by an open. -/
theorem Control.listens {c c' : Ctl} (h : Control a c c') (hc : c.1 = .closed)
    (hc' : c'.1 = .listen) : a.Opens := by
  cases h with
  | listen f ho => exact ho
  | sendFin s s' f n _ _ hs =>
    dsimp only at hc hc'
    subst hc hc'
    simp at hs
  | processFin s s' f hs =>
    dsimp only at hc
    subst hc
    simp at hs
  | _ => simp_all

/-- What `_take_syn` does to the bookkeeping. -/
theorem takeSyn_fin (seg : TcpSegment) : ∃ b, (e.takeSyn seg).fin =
    { e.fin with finAcked := e.fin.finAcked || (e.fin.finSent && b) } := by
  obtain ⟨m, -, -, h⟩ := takeSyn_cases (e := e) seg
  rw [h]
  dsimp only
  split
  · exact ⟨_, by simp; rfl⟩
  · exact ⟨false, by simp⟩

/-- The engine refines the abstract state machine. -/
theorem Move.control (h : Move a e e') : Control a e.ctl e'.ctl := by
  cases h with
  | connect ho hx =>
    have := Control.connect (a := a) e.tcb.state e.fin ho hx
    simpa [TcpEngine.connect, ctl] using this
  | startListening hs ho =>
    have := Control.listen e.fin ho
    simpa [TcpEngine.startListening, ctl, hs] using this
  | requestFin hs => exact .requestFin e.tcb.state e.fin hs
  | sendFin _ hd _ _ =>
    obtain ⟨st, ht, hst⟩ := sendFin_tcb (e := e)
    have := Control.sendFin (a := a) e.tcb.state st e.fin e.tcb.sndNxt hd.1 hd.2.1 hst
    simpa [ctl, ht] using this
  | probeFin h _ _ _ _ hd =>
    obtain ⟨st, ht, hst⟩ := sendFin_tcb (e := e.fire h)
    have := Control.sendFin (a := a) e.tcb.state st e.fin e.tcb.sndNxt hd.1 hd.2.1
      (by simpa using hst)
    simpa [ctl, ht] using this
  | processAck seg hc _ _ _ =>
    have := Control.processAck e.tcb.state e.fin (seqGt seg.ack e.fin.finSeq) ⟨seg, hc⟩
    simpa [ctl] using this
  | acceptSyn seg hc hs _ hack hr =>
    obtain ⟨m, -, -, hm⟩ := acceptSyn_eq (e := e) seg hs
    have := Control.acceptSyn (a := a) e.fin (by rw [hc.closes_iff, hack, hr]; simp)
    simpa [ctl, hs, hm, listenTaken, listenTcb] using this
  | synEstablished seg _ ht _ =>
    obtain ⟨b, hb⟩ := takeSyn_fin (e := e) seg
    have := Control.synEstablished (a := a) e.fin b
    simpa [ctl, hb, ht.1] using this
  | synReceived seg _ ht _ =>
    obtain ⟨b, hb⟩ := takeSyn_fin (e := e) seg
    have := Control.synReceived (a := a) e.fin b
    simpa [ctl, becomeSynReceived, hb, ht.1] using this
  | deferSynFin seg => exact .deferFin e.tcb.state e.fin _
  | deferFin seg => exact .deferFin e.tcb.state e.fin _
  | completeOpen seg _ hc =>
    have := Control.completeOpen (a := a) e.fin (seqGt seg.ack e.fin.finSeq)
    simpa [ctl, hc.1, openCompleted] using this
  | finAckedWait hs hf =>
    have := Control.finAckedWait (a := a) e.fin hf
    simpa [ctl, hs] using this
  | finAckedTimeWait hs hf =>
    have := Control.finAckedTimeWait (a := a) e.fin hf
    rw [enterTimeWait_eq (by simp [CanSend, hs])]
    simpa [ctl, hs] using this
  | processFin hs _ =>
    obtain ⟨st, hst, h⟩ | ⟨hs2, h⟩ := processFin_cases (e := e)
    · have := Control.processFin (a := a) e.tcb.state st e.fin hs (by tauto)
      simpa [ctl, h] using this
    · have := Control.processFin (a := a) e.tcb.state .timeWait e.fin hs (by tauto)
      simpa [ctl, h] using this
  | listenAgain hs hp _ =>
    have := Control.listenAgain (a := a) e.fin hp
    rw [doReset_listen hs hp]
    simpa [ctl, hs, restorePort] using this
  | close hx hb _ =>
    have := Control.close e.tcb.state e.fin hx
    simpa [ctl, enterClosed_fin hb] using this
  | abort hx hb _ =>
    have := Control.close e.tcb.state e.fin hx
    simpa [ctl, enterClosed_fin (sendRst_blocked hb)] using this
  | giveUp msg hx hb _ =>
    have := Control.close e.tcb.state e.fin hx
    simpa [ctl, giveUp_state, giveUp_fin msg hb] using this
  | giveUpRto h c msg hx hl hcb hr hb =>
    have := Control.close e.tcb.state e.fin hx
    have hb1 : (if c then (e.fire h).countRto else e.fire h).Blocked := by
      split
      · exact (hb.fire h).of_view rfl
      · exact hb.fire h
    have hf : (if c then (e.fire h).countRto else e.fire h).fin = e.fin := by split <;> simp
    generalize (if c then (e.fire h).countRto else e.fire h) = f at hb1 hf
    simpa [ctl, giveUp_state, giveUp_fin msg hb1, hf] using this
  | timeWaitExpires h hx hl hcb hb =>
    have := Control.close e.tcb.state e.fin hx
    simpa [ctl, enterClosed_fin (hb.fire h)] using this
  | storeSynData seg => exact .stay_of (storeOoo_frame _ _ _ _).ctl
  | storeOoo seg => exact .stay_of (storeOoo_frame _ _ _ _).ctl
  | receive _ hr => exact .stay_of hr.frame.ctl
  | sendSynAck => exact .stay_of (by simp [ctl, TcpEngine.sendSynAck])
  | probe h => exact .stay_of (by simp [ctl, TcpEngine.sendProbe])
  | sendKeepaliveProbe => exact .stay_of (by simp [ctl, TcpEngine.sendKeepaliveProbe])
  | _ => exact .stay_of (by first | (simp [ctl]; done) | rfl)

/-! ## What is emitted -/

/-- A segment that carries an acknowledgement carries RCV.NXT. -/
def Acks (e : TcpEngine) (seg : TcpSegment) : Prop := seg.ackFlag = true → seg.ack = e.tcb.rcvNxt

/-- The segment is a transmission of the queue entry. -/
structure Transmits (o : Outgoing) (seg : TcpSegment) : Prop where
  seq : seg.seq = o.seq
  payload : seg.payload = o.payload
  flags : seg.flags.syn = o.flags.syn ∧ seg.flags.fin = o.flags.fin ∧ seg.flags.rst = o.flags.rst ∧
    seg.flags.ack = o.flags.ack

/-- A segment that takes no sequence space. -/
def Bare (seg : TcpSegment) : Prop := seg.payload = [] ∧ seg.syn = false ∧ seg.fin = false

/-- What a move that receives nothing may put on the log. -/
inductive Emits (a : Action) (e e' : TcpEngine) : Event → Prop
  | queued (o : Outgoing) (seg : TcpSegment) : e'.buf.retx = e.buf.retx ++ [o] →
      Transmits o seg → e'.Acks seg → Emits a e e' (.tx seg)
  | resent (o : Outgoing) (rest : List Outgoing) (seg : TcpSegment) : e.buf.retx = o :: rest →
      Transmits o seg → e'.Acks seg → Emits a e e' (.tx seg)
  | synAck (seg : TcpSegment) : e.tcb.state = .synReceived → seg.seq = e.tcb.iss →
      seg.syn = true → seg.fin = false → seg.payload = [] → e'.Acks seg → Emits a e e' (.tx seg)
  | bare (seg : TcpSegment) : Bare seg → seg.rst = false → e'.Acks seg → Emits a e e' (.tx seg)
  | reset (seg : TcpSegment) : Bare seg → seg.rst = true → e'.tcb.state = .closed →
      Emits a e e' (.tx seg)
  | rstReply (seg s : TcpSegment) : Bare seg → seg.rst = true → a.Carries s → s.rst = false →
      e.Rejects s → Emits a e e' (.tx seg)
  | change : e.tcb.state ≠ e'.tcb.state → Emits a e e' (.stateChange e.tcb.state e'.tcb.state)
  | eof : e.FinNext a → Emits a e e' .eof
  | error (msg : String) :
      (msg = "retransmission timeout" → ∃ h, a = .expire h ∧ h.cb = .onRto) →
      Emits a e e' (.error msg)
  | received (data : List UInt8) (push urgent : Bool) : Emits a e e' (.received data push urgent)

section Log

variable {f : TcpEngine}

/-- The log grows by events that `P` allows. -/
def Logs (P : Event → Prop) (e f : TcpEngine) : Prop :=
  ∃ evs, f.env.log = e.env.log ++ evs ∧ ∀ ev ∈ evs, P ev

variable {P : Event → Prop}

/-- Nothing is logged. -/
theorem Logs.none (h : f.env.log = e.env.log) : Logs P e f := ⟨[], by simp [h], by simp⟩

/-- One entry is logged. -/
theorem Logs.one (v : Event) (h : f.env.log = e.env.log ++ [v]) (hp : P v) : Logs P e f :=
  ⟨[v], h, by simpa using hp⟩

/-- What is logged by one and then the other. -/
theorem Logs.trans {g : TcpEngine} (h : Logs P e f) (h' : Logs P f g) : Logs P e g := by
  obtain ⟨evs, he, hp⟩ := h
  obtain ⟨evs', he', hp'⟩ := h'
  refine ⟨evs ++ evs', by rw [he', he, List.append_assoc], fun ev hm => ?_⟩
  exact (List.mem_append.mp hm).elim (hp ev) (hp' ev)

theorem Logs.mono {Q : Event → Prop} (h : Logs P e f) (hpq : ∀ ev, P ev → Q ev) : Logs Q e f := by
  obtain ⟨evs, he, hp⟩ := h
  exact ⟨evs, he, fun ev hm => hpq ev (hp ev hm)⟩

/-- A state change logs itself. -/
theorem setState_logs (st : ConnState)
    (h : e.tcb.state ≠ st → P (.stateChange e.tcb.state st)) :
    Logs P e (e.setState st) := by
  refine ⟨_, e.setState_log st, fun ev hm => ?_⟩
  split at hm
  · cases hm
  · next hne =>
    rw [List.mem_singleton.mp hm]
    exact h hne

/-- What is queued is logged, if it can be built. -/
theorem queueAndSend_logs (flags : Flags) (payload : List UInt8) (m : Bool) (urg : Nat)
    (h : P (.tx (e.segmentFor e.tcb.sndNxt flags payload m urg))) :
    Logs P e (e.queueAndSend flags payload m urg) := by
  obtain hq | ⟨-, -, hq⟩ := e.queueAndSend_cases flags payload m urg
  · exact .one _ (by rw [hq]; simp) h
  · exact .none (by rw [hq]; simp)

theorem makeAndTransmit_logs (seq : Int) (flags : Flags) (payload : List UInt8) (m : Bool)
    (urg : Nat) (h : P (.tx (e.segmentFor seq flags payload m urg))) :
    Logs P e (e.makeAndTransmit seq flags payload m urg) := by
  obtain hq | hq := e.advertise.transmit_cases (e.segmentFor seq flags payload m urg)
  · exact .one _ (by rw [makeAndTransmit, hq]; simp) h
  · exact .none (by rw [makeAndTransmit, hq]; simp)

/-- Closing logs the change of state only: what is blocked sends nothing more. -/
theorem enterClosed_logs (hb : e.Blocked)
    (h : e.tcb.state ≠ .closed → P (.stateChange e.tcb.state .closed)) :
    Logs P e e.enterClosed := by
  obtain ⟨tm, hc⟩ := enterClosed_closeDown hb
  rw [hc]
  exact (Logs.none (f := resetBuffers { e with tm := tm }) rfl).trans (setState_logs _ h)

theorem sendRst_logs (h : P (.tx (e.segmentFor e.tcb.sndNxt { rst := true }))) :
    Logs P e e.sendRst :=
  makeAndTransmit_logs _ _ _ _ _ h

/-- Giving up logs the error, a RST and the change of state. -/
theorem giveUp_logs (msg : String) (hb : e.Blocked) (he : P (.error msg))
    (hr : P (.tx (e.segmentFor e.tcb.sndNxt { rst := true })))
    (h : e.tcb.state ≠ .closed → P (.stateChange e.tcb.state .closed)) :
    Logs P e (e.giveUp msg) := by
  obtain ⟨f, hf, hfb, hg⟩ := giveUp_closes msg hb
  have h1 : Logs P e f := by
    obtain rfl | rfl := hf
    · exact .none rfl
    · exact sendRst_logs hr
  have hs : f.tcb.state = e.tcb.state := by obtain rfl | rfl := hf <;> simp
  rw [hg]
  exact h1.trans ((Logs.one _ rfl he).trans (enterClosed_logs hfb (by simpa [hs] using h)))

/-- A retransmission logs the segment that goes out again. -/
theorem retransmitHead_logs (o : Outgoing) (rest : List Outgoing)
    (h : P (.tx ((e.markRetransmitted o rest).segmentFor o.seq o.flags o.payload o.flags.syn))) :
    Logs P e (e.retransmitHead o rest) := by
  obtain hr | ⟨-, -, hr⟩ := retransmitHead_cases (e := e) o rest
  · exact .one _ (by rw [hr]; rfl) h
  · exact .none (by rw [hr]; rfl)

theorem sendFin_logs (h : P (.tx (e.segmentFor e.tcb.sndNxt { ack := true, fin := true })))
    (hs : e.tcb.state ≠ e.sendFin.tcb.state →
      P (.stateChange e.tcb.state e.sendFin.tcb.state)) : Logs P e e.sendFin := by
  obtain ⟨st, hf, -⟩ := sendFin_cases (e := e)
  have hst : e.sendFin.tcb.state = st := by rw [hf]; simp
  rw [hst] at hs
  rw [hf]
  have hq := queueAndSend_logs (e := { e with fin := { e.fin with finSeq := e.tcb.sndNxt } })
    { ack := true, fin := true } [] false 0 h
  have hf : Logs P e e.finQueued := hq.trans (.none (by simp [finQueued]))
  exact hf.trans (setState_logs _ (by simpa using hs))

/-- The FIN of the peer logs the EOF marker, an ACK and the change of state. -/
theorem processFin_logs (he : P .eof) (h : P (.tx e.consumeFin.ackSegment))
    (hs : e.tcb.state ≠ e.processFin.tcb.state →
      P (.stateChange e.tcb.state e.processFin.tcb.state)) : Logs P e e.processFin := by
  have hc : Logs P e e.consumeFin := by
    unfold consumeFin signalClose
    split
    · exact .one _ rfl he
    · exact .none rfl
  have ha : Logs P e e.consumeFin.sendAck := hc.trans (.one _ (by simp) h)
  obtain ⟨st, -, hf⟩ | ⟨-, hf⟩ := processFin_cases (e := e)
  · have hst : e.processFin.tcb.state = st := by rw [hf]; simp
    rw [hst] at hs
    rw [hf]
    exact ha.trans (setState_logs _ (by simpa using hs))
  · have hst : e.processFin.tcb.state = .timeWait := by rw [hf]; simp
    rw [hst] at hs
    rw [hf]
    exact ha.trans (Logs.trans (f := e.consumeFin.sendAck.stopRt.dropPersistTimer) (.none rfl)
      ((setState_logs _ (by simpa using hs)).trans (.none rfl)))

/-- Every segment acknowledges what RCV.NXT says. -/
theorem segmentFor_acks (seq : Int) (flags : Flags) (payload : List UInt8) (m : Bool) (urg : Nat)
    (h : f.tcb.rcvNxt = e.tcb.rcvNxt) : f.Acks (e.segmentFor seq flags payload m urg) := by
  intro ha
  rw [h]
  exact if_pos ha

/-- And carries what its entry on the queue holds. -/
theorem segmentFor_transmits (flags : Flags) (payload : List UInt8) (m : Bool) (urg : Nat) :
    Transmits (e.outgoing flags payload) (e.segmentFor e.tcb.sndNxt flags payload m urg) :=
  ⟨rfl, rfl, rfl, rfl, rfl, rfl⟩

end Log

theorem Emits.change_of {o n : ConnState} (h : e.tcb.state = o) (h' : e'.tcb.state = n)
    (hne : o ≠ n) : Emits a e e' (.stateChange o n) := by
  subst h h'
  exact .change hne

/-- What a move that receives nothing logs. -/
theorem Move.logs (h : Move a e e') : e.Receives a e' ∨ Logs (Emits a e e') e e' := by
  cases h with
  | receive _ hr => exact Or.inl hr
  | connect ho _ =>
    have hne : e.tcb.state ≠ .synSent := by rcases ho with ⟨hs, -⟩ | hs <;> simp [hs]
    rw [connect_eq (ho.imp And.left id)]
    refine Or.inr (Logs.trans (f := e.dialled) (.one _ rfl (.change_of rfl (by simp [dialled]) hne))
      (queueAndSend_logs _ _ _ _ (.queued _ _ (by simp [dialled]) (segmentFor_transmits _ _ _ _)
        (segmentFor_acks _ _ _ _ _ (by simp)))))
  | startListening hs ho =>
    exact Or.inr ((Logs.none rfl).trans
      (setState_logs _ (.change_of rfl (by simp [TcpEngine.startListening]))))
  | finishReceive data => exact Or.inr (.one _ (by rw [finishReceive_env]) (.received _ _ _))
  | retransmit h o rest hl hcb hq =>
    apply Or.inr
    refine Logs.trans (f := (e.fire h).countRto) (.none (by simp)) (retransmitHead_logs o rest
      (.resent o rest _ hq ⟨rfl, rfl, rfl, rfl, rfl, rfl⟩ ?_))
    exact segmentFor_acks _ _ _ _ _ (by simp [markRetransmitted])
  | sendAck =>
    refine Or.inr (.one (.tx e.ackSegment) (by simp) (.bare _ ⟨rfl, rfl, rfl⟩ rfl ?_))
    exact segmentFor_acks _ _ _ _ _ (by simp)
  | scheduleAck force _ =>
    obtain ⟨n, h⟩ | ⟨d, n, -, -, -, h⟩ | ⟨-, -, n, h⟩ := e.scheduleAck_cases force
    · refine Or.inr (.one (.tx (ackSegment { e with tm := { e.tm with ackCount := n } }))
        (by rw [h]; simp) (.bare _ ⟨rfl, rfl, rfl⟩ rfl ?_))
      exact segmentFor_acks _ _ _ _ _ (by simp [h])
    · exact Or.inr (.none (by rw [h]))
    · exact Or.inr (.none (by rw [h]))
  | emitRstReply seg seq ack ackFlag hc hr hj =>
    exact Or.inr
      (.one _ (by rw [emitRstReply_eq]; rfl) (.rstReply _ seg ⟨rfl, rfl, rfl⟩ rfl hc hr hj))
  | sendSynAck hs =>
    refine Or.inr (makeAndTransmit_logs _ _ _ _ _ (.synAck _ hs rfl rfl rfl rfl ?_))
    exact segmentFor_acks _ _ _ _ _ (by simp [TcpEngine.sendSynAck])
  | sendKeepaliveProbe hs hq =>
    refine Or.inr (Logs.trans (f := e.makeAndTransmit (sub e.tcb.sndUna 1) { ack := true })
      (makeAndTransmit_logs _ _ _ _ _ (.bare _ ⟨rfl, rfl, rfl⟩ rfl ?_)) (.none rfl))
    exact segmentFor_acks _ _ _ _ _ (by simp [TcpEngine.sendKeepaliveProbe])
  | signalError msg hm => exact Or.inr (.one _ rfl (.error msg fun h => absurd h hm))
  | sendChunk hs hb hw hu hn =>
    refine Or.inr
      (Logs.trans (f := e.queueChunk e.chunkLen) (Logs.trans (f := e.takeChunk e.chunkLen)
      (.none rfl) (queueAndSend_logs _ _ _ _ (.queued _ _ (by simp [queueChunk])
      (segmentFor_transmits _ _ _ _) (segmentFor_acks _ _ _ _ _ (by simp [queueChunk])))))
      (.none (by simp)))
  | sendFin _ hd _ _ =>
    obtain ⟨st, ht, -⟩ := sendFin_tcb (e := e)
    exact Or.inr (sendFin_logs (.queued _ _ (by simp) (segmentFor_transmits _ _ _ _)
      (segmentFor_acks _ _ _ _ _ (by simp [ht]))) .change)
  | probe h _ hl hcb hw hb =>
    refine Or.inr (Logs.trans (f := (e.fire h).takeChunk 1) (.none (by simp)) (Logs.trans
      (f := (e.fire h).sendProbe) (queueAndSend_logs _ _ _ _ (.queued _ _
        (by simp [TcpEngine.sendProbe]) (segmentFor_transmits _ _ _ _)
        (segmentFor_acks _ _ _ _ _ (by simp [TcpEngine.sendProbe])))) (.none rfl)))
  | probeFin h _ hl hcb hw hd =>
    obtain ⟨st, ht, -⟩ := sendFin_tcb (e := e.fire h)
    refine Or.inr (Logs.trans (f := e.fire h) (.none (by simp)) (Logs.trans
      (f := (e.fire h).sendFin) (sendFin_logs (.queued _ _ (by simp) (segmentFor_transmits _ _ _ _)
        (segmentFor_acks _ _ _ _ _ (by simp [ht]))) (.change_of (by simp) (by simp)))
      (.none rfl)))
  | acceptSyn seg _ hs _ _ _ =>
    obtain ⟨m, -, -, hm⟩ := acceptSyn_eq (e := e) seg hs
    rw [hm]
    refine Or.inr (Logs.trans (f := e.listenTaken seg m) (.one _ rfl
      (.change_of hs (by simp [listenTaken, listenTcb]) (by simp)))
      (queueAndSend_logs _ _ _ _ (.queued _ _ (by simp [listenTaken]) (segmentFor_transmits _ _ _ _)
        (segmentFor_acks _ _ _ _ _ (by simp)))))
  | synEstablished seg _ ht _ =>
    exact Or.inr ((Logs.none (takeSyn_env seg)).trans (setState_logs _
      (.change_of (takeSyn_tcb seg).1.symm (by simp))))
  | synReceived seg _ ht _ =>
    exact Or.inr ((Logs.none (takeSyn_env seg)).trans ((setState_logs _
      (.change_of (takeSyn_tcb seg).1.symm (by simp [becomeSynReceived]))).trans (.none rfl)))
  | completeOpen seg _ hc =>
    exact Or.inr ((Logs.none (by simp)).trans (setState_logs _
      (.change_of (by simp) (by simp [openCompleted]))))
  | finAckedWait hs hf => exact Or.inr (setState_logs _ (.change_of rfl (by simp)))
  | finAckedTimeWait hs hf =>
    rw [enterTimeWait_eq (by simp [CanSend, hs])]
    exact Or.inr (Logs.trans (f := e.stopRt.dropPersistTimer) (.none rfl) ((setState_logs _
      (.change_of (by simp) (by simp))).trans (.none rfl)))
  | processFin hs hn =>
    refine Or.inr (processFin_logs (.eof hn) (.bare _ ⟨rfl, rfl, rfl⟩ rfl ?_) .change)
    apply segmentFor_acks _ _ _ _ _
    obtain ⟨st, -, h⟩ | ⟨-, h⟩ := processFin_cases (e := e) <;> simp [h]
  | listenAgain hs hp _ =>
    rw [doReset_listen hs hp]
    exact Or.inr ((setState_logs _ (.change_of rfl (by simp [restorePort]))).trans (.none rfl))
  | close _ hb _ => exact Or.inr (enterClosed_logs hb (.change_of rfl (by simp)))
  | abort _ hb _ =>
    refine Or.inr ((sendRst_logs (.reset _ ⟨rfl, rfl, rfl⟩ rfl (by simp))).trans
      (enterClosed_logs (sendRst_blocked hb) (.change_of (by simp) (by simp))))
  | giveUp msg _ hb _ hm =>
    exact Or.inr
      (giveUp_logs msg hb (.error _ fun h => absurd h hm) (.reset _ ⟨rfl, rfl, rfl⟩ rfl (by simp))
      (.change_of rfl (by simp)))
  | giveUpRto h c msg _ hl hcb hr hb ha =>
    have hb1 : (if c then (e.fire h).countRto else e.fire h).Blocked := by
      split
      · exact (hb.fire h).of_view rfl
      · exact hb.fire h
    have ht : (if c then (e.fire h).countRto else e.fire h).tcb = e.tcb := by split <;> simp
    have hl : (if c then (e.fire h).countRto else e.fire h).env = e.env := by
      split <;> simp
    generalize (if c then (e.fire h).countRto else e.fire h) = f at hb1 ht hl
    refine Or.inr (Logs.trans (f := f) (.none (by rw [hl]))
      (giveUp_logs msg hb1 (.error _ fun _ => ⟨h, ha, hcb⟩)
      (.reset _ ⟨rfl, rfl, rfl⟩ rfl (by simp)) (.change_of (by rw [ht]) (by simp))))
  | timeWaitExpires h _ hl hcb hb =>
    refine Or.inr (Logs.trans (f := e.fire h) (.none (by simp)) (enterClosed_logs (hb.fire h)
      (.change_of (by simp) (by simp))))
  | storeSynData seg => exact Or.inr (.none (storeOoo_env _ _ _))
  | storeOoo seg => exact Or.inr (.none (storeOoo_env _ _ _))
  | _ => exact Or.inr (.none (by first | rfl | simp))

/-- A move that receives text logs its delivery. -/
theorem Receives.logs (h : e.Receives a e') : Logs (fun ev => ∃ data, ev = .deliver data) e e' := by
  have hd (f : TcpEngine) (data : List UInt8) :
      Logs (fun ev => ∃ data, ev = .deliver data) f (f.deliver data) :=
    .one (.deliver data) (by simp) ⟨data, rfl⟩
  cases h with
  | takeInOrder seg off n =>
    unfold TcpEngine.takeInOrder
    dsimp only
    split
    · exact (hd e _).trans (.none rfl)
    · exact (hd e _).trans (.none rfl)
  | mergeEntry seg x =>
    unfold TcpEngine.mergeEntry
    dsimp only
    split
    · exact .none rfl
    · split
      · exact .none rfl
      · exact Logs.trans (f := { e with buf := { e.buf with ooo := e.buf.ooo.eraseP e.mergeable } })
          (.none rfl) ((hd _ _).trans (.none rfl))

/-- What a path logs, one of its moves logs; `P` is an invariant of the path. -/
theorem Path.logs {P : TcpEngine → Prop} (hp : ∀ f f', Move a f f' → P f → P f')
    (h : Path a e e') (h0 : P e) :
    Logs (fun ev => ∃ f f', Path a e f ∧ Move a f f' ∧ Path a f' e' ∧ P f ∧
      ((∃ data, ev = .deliver data) ∨ Emits a f f' ev)) e e' := by
  induction h with
  | refl => exact .none rfl
  | tail hpath hm ih =>
    rename_i f g
    have hf : P f := Path.preserves hp hpath h0
    refine Logs.trans (f := f) ?_ ?_
    · obtain ⟨evs, hl, hall⟩ := ih
      refine ⟨evs, hl, fun ev hev => ?_⟩
      obtain ⟨f1, f2, h1, h2, h3, h4⟩ := hall ev hev
      exact ⟨f1, f2, h1, h2, h3.tail hm, h4⟩
    · rcases hm.logs with hr | hl
      · obtain ⟨evs, hl, hall⟩ := hr.logs
        exact ⟨evs, hl, fun ev hev => ⟨f, g, hpath, hm, .refl, hf, Or.inl (hall ev hev)⟩⟩
      · obtain ⟨evs, hl, hall⟩ := hl
        exact ⟨evs, hl, fun ev hev => ⟨f, g, hpath, hm, .refl, hf, Or.inr (hall ev hev)⟩⟩

end TcpEngine

end HdlPlayground.Tcp

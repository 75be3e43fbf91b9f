import HdlPlayground.Tcp.Fsm
import HdlPlayground.Tcp.Outflow
import HdlPlayground.Tcp.PeerFin
import HdlPlayground.Tcp.Resets

/-!
# Segments of another socket pair

`on_segment` compares the destination port with the local one, and `_handle_listen` the
source port with a pinned remote one. No other state looks at the source port, so what
another peer sends is taken for the connection's own. Which segments leave the engine as
it was is told by the branches of the handlers that return at once.
-/
namespace HdlPlayground.Tcp

namespace TcpEngine

variable {a : Action} {e e' f g : TcpEngine} {seg : TcpSegment}

/-! ## What only grows

An event is never taken off the log, and a timer id never used again. -/

def Grew (e f : TcpEngine) : Prop :=
  e.env.log <+: f.env.log ∧ e.tm.sched.counter ≤ f.tm.sched.counter

theorem Grew.refl (e : TcpEngine) : Grew e e := ⟨List.prefix_rfl, le_refl _⟩

theorem Grew.trans (h : Grew e f) (h' : Grew f g) : Grew e g :=
  ⟨h.1.trans h'.1, h.2.trans h'.2⟩

/-- The next timer id. -/
def timerId (e : TcpEngine) : Nat := e.tm.sched.counter

theorem restartKeepalive_timerId (b : Bool) : e.timerId ≤ (e.restartKeepalive b).timerId := by
  unfold restartKeepalive timerId
  split
  · exact le_refl _
  · dsimp only
    split <;> simp

theorem setState_timerId (st : ConnState) : e.timerId ≤ (e.setState st).timerId := by
  simp only [setState]
  split_ifs
  · exact le_refl _
  · exact restartKeepalive_timerId (e := e.withState st) true
  · show e.timerId ≤ (e.tm.sched.cancel e.tm.kaTimer).counter
    rw [ManualScheduler.cancel_counter]
    exact le_refl _
  · exact le_refl _

theorem startRt_timerId : e.timerId ≤ e.startRt.timerId := Nat.le_succ _

theorem armRt_timerId : e.timerId ≤ e.armRt.timerId := by
  unfold armRt
  split
  · exact le_refl _
  · split
    · split
      · exact le_refl _
      · exact startRt_timerId
    · exact startRt_timerId

theorem queueAndSend_timerId (flags : Flags) (payload : List UInt8) (m : Bool) (urg : Nat) :
    e.timerId ≤ (e.queueAndSend flags payload m urg).timerId := by
  rcases e.queueAndSend_cases flags payload m urg with h | ⟨-, -, h⟩
  · rw [h]
    exact armRt_timerId (e := (e.advertise.enqueue flags payload).emit _)
  · rw [h]
    exact le_refl _

theorem sendAck_timerId : e.timerId ≤ e.sendAck.timerId := by
  unfold timerId
  rw [sendAck_tm]
  show _ ≤ (e.tm.sched.cancel e.tm.ackTimer).counter
  rw [ManualScheduler.cancel_counter]

theorem scheduleAck_timerId (force : Bool) : e.timerId ≤ (e.scheduleAck force).timerId := by
  rcases e.scheduleAck_cases force with ⟨n, h⟩ | ⟨d, n, -, -, -, h⟩ | ⟨-, -, n, h⟩
  · rw [h]
    exact sendAck_timerId (e := { e with tm := { e.tm with ackCount := n } })
  · rw [h]
    exact Nat.le_succ _
  · rw [h]
    exact le_refl _

theorem armPersist_timerId : e.timerId ≤ e.armPersist.timerId := by
  unfold armPersist
  split
  · split
    · exact le_refl _
    · exact Nat.le_succ _
  · exact Nat.le_succ _

theorem restartRt_timerId : e.timerId ≤ e.restartRt.timerId := by
  unfold restartRt timerId
  dsimp only
  split
  · show _ ≤ (e.tm.sched.cancel e.tm.rtTimer).counter
    rw [ManualScheduler.cancel_counter]
  · show _ ≤ (e.tm.sched.cancel e.tm.rtTimer).counter + 1
    rw [ManualScheduler.cancel_counter]
    exact Nat.le_succ _

theorem stopRt_timerId : e.timerId ≤ e.stopRt.timerId := by
  show _ ≤ (e.tm.sched.cancel e.tm.rtTimer).counter
  rw [ManualScheduler.cancel_counter]
  exact le_refl _

theorem dropPersistTimer_timerId : e.timerId ≤ e.dropPersistTimer.timerId := by
  show _ ≤ (e.tm.sched.cancel e.tm.persistTimer).counter
  rw [ManualScheduler.cancel_counter]
  exact le_refl _

theorem processAck_timerId (ack : Int) : e.timerId ≤ (e.processAck ack).timerId := by
  simp only [processAck]
  split
  · exact le_trans (by simp [timerId]) (stopRt_timerId (e := _))
  · exact le_trans (by simp [timerId]) (restartRt_timerId (e := _))

theorem fire_timerId (h : TimerHandle Callback) : (e.fire h).timerId = e.timerId := by
  unfold fire timerId
  cases h.cb <;> rfl

theorem sendFin_timerId : e.timerId ≤ e.sendFin.timerId := by
  obtain ⟨st, h, -⟩ := sendFin_cases (e := e)
  have hq : e.timerId ≤ e.finQueued.timerId :=
    queueAndSend_timerId (e := { e with fin := { e.fin with finSeq := e.tcb.sndNxt } })
      { ack := true, fin := true } [] false 0
  rw [h]
  exact le_trans hq (setState_timerId st)

theorem enterClosed_timerId (hb : e.Blocked) : e.timerId ≤ e.enterClosed.timerId := by
  have hdown : ∀ g : TcpEngine, g.timerId ≤ g.shutDown.timerId := by
    intro g
    refine le_trans ?_
      (setState_timerId (e := g.cancelKeepalive.cancelTwTimer.cancelAckTimer.resetBuffers)
      .closed)
    show _ ≤ (((g.tm.sched.cancel g.tm.kaTimer).cancel g.tm.twTimer).cancel g.tm.ackTimer).counter
    simp [timerId]
  have h1 : e.timerId ≤ e.stopRt.dropPersistTimer.timerId :=
    le_trans stopRt_timerId dropPersistTimer_timerId
  rw [enterClosed_of_blocked hb]
  split
  · exact le_trans h1 (le_trans armPersist_timerId (hdown _))
  · exact le_trans h1 (hdown _)

theorem giveUp_timerId (msg : String) (hb : e.Blocked) : e.timerId ≤ (e.giveUp msg).timerId := by
  obtain ⟨f, hf, hfb, h⟩ := giveUp_closes msg hb
  have h1 : e.timerId ≤ (f.signalError msg).timerId := by
    rcases hf with rfl | rfl <;> simp [timerId]
  rw [h]
  exact le_trans h1 (enterClosed_timerId hfb)

theorem armTwTimer_timerId : e.timerId ≤ e.armTwTimer.timerId := Nat.le_succ _

theorem takeSyn_timerId (seg : TcpSegment) : e.timerId ≤ (e.takeSyn seg).timerId := by
  obtain ⟨m, -, -, h⟩ := takeSyn_cases (e := e) seg
  rw [h]
  dsimp only
  split
  · exact processAck_timerId
      (e := { e with tcb := { e.tcb with irs := seg.seq, rcvNxt := add seg.seq 1, sndMss := m } })
      seg.ack
  · exact le_refl _

theorem Move.timerId_le (hm : Move a e f) : e.timerId ≤ f.timerId := by
  cases hm with
  | setUserTimeout t => cases t <;> exact le_refl _
  | connect ho _ =>
    rw [connect_eq (ho.imp And.left id)]
    exact queueAndSend_timerId (e := e.dialled) _ _ _ _
  | startListening =>
    exact setState_timerId (e := { e with fin := { e.fin with passive := true } }) _
  | fire g => rw [fire_timerId]
  | restartKeepalive b => exact restartKeepalive_timerId b
  | dropPersistTimer => exact dropPersistTimer_timerId
  | armPersist => exact armPersist_timerId
  | restartTimeWait seg =>
    show _ ≤ (e.tm.sched.cancel e.tm.twTimer).counter + 1
    rw [ManualScheduler.cancel_counter]
    exact Nat.le_succ _
  | retransmit g o rest =>
    have h1 : e.timerId = (e.fire g).countRto.timerId := (fire_timerId g).symm
    rw [h1]
    rcases retransmitHead_cases (e := (e.fire g).countRto) o rest with h | ⟨-, -, h⟩
    · rw [h]
      exact Nat.le_succ _
    · rw [h]
      exact le_refl _
  | sendAck => exact sendAck_timerId
  | scheduleAck force => exact scheduleAck_timerId force
  | sendSynAck => simp [TcpEngine.sendSynAck, timerId]
  | sendKeepaliveProbe => simp [TcpEngine.sendKeepaliveProbe, timerId]
  | sendChunk =>
    unfold timerId
    rw [sendChunk_tm]
    exact queueAndSend_timerId (e := e.takeChunk e.chunkLen) _ _ _ _
  | sendFin => exact sendFin_timerId
  | probe g =>
    rw [← fire_timerId g]
    exact le_trans (queueAndSend_timerId (e := (e.fire g).takeChunk 1) _ _ _ _) (Nat.le_succ _)
  | probeFin g =>
    rw [← fire_timerId g]
    exact le_trans sendFin_timerId (Nat.le_succ _)
  | processAck seg => exact processAck_timerId _
  | acceptSyn seg _ hs =>
    obtain ⟨m, -, -, h⟩ := acceptSyn_eq (e := e) seg hs
    rw [h]
    exact queueAndSend_timerId (e := e.listenTaken seg m) _ _ _ _
  | synEstablished seg => exact le_trans (takeSyn_timerId seg) (setState_timerId _)
  | synReceived seg => exact le_trans (takeSyn_timerId seg) (setState_timerId .synReceived)
  | storeSynData seg => unfold timerId; rw [storeOoo_tm]
  | storeOoo seg => unfold timerId; rw [storeOoo_tm]
  | completeOpen seg => exact le_trans (processAck_timerId seg.ack) (setState_timerId
      (e := (e.processAck seg.ack).setSendWindow seg.window seg.seq seg.ack) .established)
  | finAckedWait => exact setState_timerId _
  | finAckedTimeWait hs =>
    rw [enterTimeWait_eq (by simp [CanSend, hs])]
    exact le_trans (le_trans stopRt_timerId dropPersistTimer_timerId)
      (le_trans (setState_timerId _) armTwTimer_timerId)
  | processFin hs =>
    have h1 : e.timerId ≤ e.consumeFin.sendAck.timerId :=
      le_trans (by simp [timerId]) sendAck_timerId
    rcases processFin_cases (e := e) with ⟨st, -, h⟩ | ⟨-, h⟩
    · rw [h]
      exact le_trans h1 (setState_timerId _)
    · rw [h]
      exact le_trans h1 (le_trans (le_trans stopRt_timerId dropPersistTimer_timerId)
        (le_trans (setState_timerId _) armTwTimer_timerId))
  | listenAgain hs hp =>
    rw [doReset_listen hs hp]
    exact le_trans (setState_timerId .listen) (le_trans stopRt_timerId
      (dropPersistTimer_timerId (e := (e.setState .listen).resetBuffers.stopRt)))
  | close _ hb => exact enterClosed_timerId hb
  | abort _ hb => exact le_trans (by simp [timerId]) (enterClosed_timerId (sendRst_blocked hb))
  | giveUp msg _ hb => exact giveUp_timerId msg hb
  | giveUpRto g c msg _ _ _ _ hb =>
    rw [← fire_timerId g]
    cases c with
    | true => exact giveUp_timerId (e := (e.fire g).countRto) msg ((hb.fire g).of_view rfl)
    | false => exact giveUp_timerId msg (hb.fire g)
  | timeWaitExpires g _ _ _ hb =>
    rw [← fire_timerId g]
    exact enterClosed_timerId (hb.fire g)
  | receive _ hr => unfold timerId; rw [hr.tm]
  | _ => first | exact le_refl _ | simp [timerId]

theorem Move.grew (hm : Move a e f) : Grew e f := by
  refine ⟨?_, hm.timerId_le⟩
  rcases hm.logs with hr | ⟨evs, hl, -⟩
  · obtain ⟨evs, hl, -⟩ := hr.logs
    exact ⟨evs, hl.symm⟩
  · exact ⟨evs, hl.symm⟩

theorem Path.grew (h : Path a e f) : Grew e f := by
  induction h with
  | refl => exact .refl e
  | tail _ hm ih => exact ih.trans hm.grew

/-- An engine that has gained an event on the way is not what it was. -/
theorem Grew.ne (h : e.env.log.length < f.env.log.length) (hg : Grew f g) : g ≠ e := by
  rintro rfl
  have := hg.1.length_le
  omega

/-! ## What an acknowledgement leaves behind

SND.UNA and the send window stand once `_process_ack` and the window update are done. -/

def Steady (e f : TcpEngine) : Prop :=
  ∃ st nxt rcv up, f.tcb = { e.tcb with state := st, sndNxt := nxt, rcvNxt := rcv, rcvUp := up }

theorem Steady.of_tcb (h : f.tcb = e.tcb) : Steady e f := ⟨_, _, _, _, h⟩

theorem Steady.trans (h : Steady e f) (h' : Steady f g) : Steady e g := by
  obtain ⟨s1, n1, r1, u1, h1⟩ := h
  obtain ⟨s2, n2, r2, u2, h2⟩ := h'
  exact ⟨s2, n2, r2, u2, by rw [h2, h1]⟩

theorem setState_steady (st : ConnState) : Steady e (e.setState st) :=
  ⟨st, _, _, _, setState_tcb e st⟩

theorem SendRun.steady {r : TcpEngine × Bool} (h : SendRun e r) : Steady e r.1 := by
  induction h with
  | empty => exact .of_tcb rfl
  | closed => exact .of_tcb (by simp)
  | held => exact .of_tcb rfl
  | hang => exact .of_tcb rfl
  | chunk e r _ _ _ _ _ ih =>
    have hc : Steady e (e.sendChunk e.chunkLen) := by
      rw [Steady, sendChunk_tcb, queueChunk, queueAndSend_tcb]
      exact ⟨_, _, _, _, rfl⟩
    exact hc.trans ih

theorem sendPending_steady : Steady e e.sendPending := by
  have hfin {f : TcpEngine} : Steady f f.finPart := by
    rcases f.finPart_cases with ⟨-, h⟩ | ⟨-, -, h⟩ | ⟨-, -, -, h⟩ | ⟨-, -, -, h⟩
    · rw [h]; exact .of_tcb rfl
    · rw [h]; exact .of_tcb (by simp)
    · rw [h]; exact .of_tcb rfl
    · obtain ⟨st, hst, -⟩ := sendFin_tcb (e := f)
      rw [h]
      exact ⟨st, _, _, _, hst⟩
  rcases e.sendPending_cases with ⟨-, h⟩ | ⟨-, h⟩ | ⟨-, f, h, hf⟩
  · rw [h]; exact .of_tcb rfl
  · exact h.steady
  · rw [hf]; exact h.steady.trans hfin

theorem processFin_steady : Steady e e.processFin := by
  rcases processFin_cases (e := e) with ⟨st, -, h⟩ | ⟨-, h⟩
  · rw [Steady, h, setState_tcb, sendAck_tcb, consumeFin_tcb]
    exact ⟨_, _, _, _, rfl⟩
  · rw [Steady, h, armTwTimer_tcb, setState_tcb, dropPersistTimer_tcb, stopRt_tcb, sendAck_tcb,
      consumeFin_tcb]
    exact ⟨_, _, _, _, rfl⟩

theorem textAndFin_steady (seg : TcpSegment) : Steady e (e.textAndFin seg) := by
  have htext : Steady e (if seg.payload ≠ [] ∧ e.tcb.state ∈ DataStates then e.recvData seg
      else e) := by
    split
    · obtain ⟨r, u, h⟩ := (recvData_frame e seg).tcb
      exact ⟨_, _, r, u, h⟩
    · exact .of_tcb rfl
  have hcheck {f : TcpEngine} : Steady f f.checkPendingFin := by
    unfold checkPendingFin
    split
    · exact processFin_steady
    · exact .of_tcb rfl
  have hfin {f : TcpEngine} : Steady f (f.finCheck seg) := by
    unfold finCheck
    dsimp only
    split_ifs
    · exact processFin_steady
    · exact .of_tcb rfl
    · exact .of_tcb rfl
    · exact .of_tcb rfl
  exact htext.trans (sendPending_steady.trans (hfin.trans hcheck))

theorem cancelPersist_steady : Steady e e.cancelPersist :=
  Steady.trans (f := e.dropPersistTimer) (.of_tcb rfl) sendPending_steady

/-- What follows the window update. -/
theorem establishedAck_rest (hn : seqGt seg.ack e.tcb.sndNxt = false) :
    Steady ((if seqGt seg.ack e.tcb.sndUna then e.processAck seg.ack else e).windowUpdate seg)
      (e.establishedAck seg) := by
  have hle : ¬ seqGt seg.ack e.tcb.sndNxt = true := by simp [hn]
  rw [establishedAck, if_neg hle]
  dsimp only
  generalize (if seqGt seg.ack e.tcb.sndUna then e.processAck seg.ack else e).windowUpdate seg = g
  split_ifs
  · exact (setState_steady _).trans (textAndFin_steady seg)
  · exact Steady.trans (f := g.stopRt) (.of_tcb rfl)
      (cancelPersist_steady.trans ((setState_steady .timeWait).trans (.of_tcb rfl)))
  · exact Steady.trans (f := g.stopRt) (.of_tcb rfl) (cancelPersist_steady.trans
      (Steady.trans (.of_tcb rfl) (setState_steady .closed)))
  · exact textAndFin_steady seg

/-- What the window update leaves behind. -/
theorem windowUpdate_steady (seg : TcpSegment) : Steady
    (if e.takesWindow seg then e.setSendWindow seg.window seg.seq seg.ack else e)
    (e.windowUpdate seg) := by
  by_cases h : e.takesWindow seg = true
  · rw [if_pos h, windowUpdate, if_pos (by exact h)]
    dsimp only
    split_ifs
    · exact cancelPersist_steady
    · exact .of_tcb rfl
  · rw [if_neg h, windowUpdate, if_neg (by exact h)]
    exact .of_tcb rfl

/-! ## Segments that change nothing -/

/-- A segment whose source or destination is another port than the connection's. -/
def Foreign (e : TcpEngine) (seg : TcpSegment) : Prop :=
  (seg.srcPort ≠ 0 ∧ seg.srcPort ≠ e.conf.remotePort) ∨
    (seg.dstPort ≠ 0 ∧ e.conf.localPort ≠ 0 ∧ seg.dstPort ≠ e.conf.localPort)

/-- An acknowledgement that says nothing new, without text or FIN to be taken. -/
structure Stale (e : TcpEngine) (seg : TcpSegment) : Prop where
  nxt : seqGt seg.ack e.tcb.sndNxt = false
  una : seqGt seg.ack e.tcb.sndUna = false
  window : e.takesWindow seg = true →
    seg.window = e.tcb.sndWnd ∧ seg.seq = e.tcb.sndWl1 ∧ seg.ack = e.tcb.sndWl2
  text : seg.payload = [] ∨ e.tcb.state ∉ DataStates
  fin : seg.fin = true → e.tcb.rcvNxt ≠ add seg.seq seg.payload.length ∧
    (seqGt (add seg.seq seg.payload.length) e.tcb.rcvNxt = true →
      e.fin.pendingFin = some (add seg.seq seg.payload.length))
  deferred : e.fin.pendingFin ≠ some e.tcb.rcvNxt

/-- In SYN-SENT: what is neither the SYN nor an answer to ours. -/
def InertSynSent (e : TcpEngine) (seg : TcpSegment) : Prop :=
  if seg.ackFlag && (seqLeq seg.ack e.tcb.iss || seqGt seg.ack e.tcb.sndNxt) then seg.rst = true
  else if seg.rst then (seg.ackFlag && between e.tcb.sndUna seg.ack e.tcb.sndNxt) = false
  else seg.syn = false

/-- In a synchronized state but TIME-WAIT: a RST outside the window, or what is inside
with no flag that counts and no news. -/
def InertSynchronized (e : TcpEngine) (seg : TcpSegment) : Prop :=
  if acceptable seg.seq seg.segLen e.tcb.rcvNxt e.rcvWnd then
    seg.rst = false ∧ seg.syn = false ∧
      (seg.ackFlag = true → e.tcb.state ≠ .synReceived ∧ e.Stale seg)
  else seg.rst = true

/-- The segment changes nothing, whatever port it comes from. -/
def Inert (e : TcpEngine) (seg : TcpSegment) : Prop :=
  (e.tcb.state = .established → e.conf.cfg.keepaliveIdle = none) ∧ e.tcb.state ≠ .timeWait ∧
    if e.tcb.state = .synSent then e.InertSynSent seg else e.InertSynchronized seg

/-- `_send_pending` on an engine that is drained. -/
theorem Drained.sendPending (hd : e.Drained) (ht : e.TimerInv) : e.sendPending = e := by
  rw [sendPending_of_blocked hd.blocked]
  split
  · next hs =>
    have hp : e.tm.persistTimer ≠ none := by
      have := hd hs.1 hs.2.1
      rwa [if_pos hs.2.2] at this
    obtain ⟨i, hi⟩ := Option.ne_none_iff_exists'.mp hp
    unfold armPersist
    rw [hi]
    dsimp only
    rw [if_pos (by simp [ht.timely.isCancelled_eq .onPersist hi])]
  · rfl

/-- A window update that says what is known. -/
theorem windowUpdate_known (h : e.takesWindow seg = true →
    seg.window = e.tcb.sndWnd ∧ seg.seq = e.tcb.sndWl1 ∧ seg.ack = e.tcb.sndWl2) :
    e.windowUpdate seg = e := by
  by_cases hw : e.takesWindow seg = true
  · obtain ⟨h1, h2, h3⟩ := h hw
    have hset : e.setSendWindow seg.window seg.seq seg.ack = e := by
      rw [h1, h2, h3]
      rfl
    rw [windowUpdate, if_pos (by exact hw)]
    dsimp only
    rw [hset, if_neg (by omega)]
  · rw [windowUpdate, if_neg (by exact hw)]

theorem Stale.finCheck (h : e.Stale seg) : (e.finCheck seg).checkPendingFin = e := by
  have hcheck : e.checkPendingFin = e := if_neg h.deferred
  unfold TcpEngine.finCheck
  dsimp only
  split_ifs with hf hn hgt
  · exact absurd hn (h.fin hf).1
  · have hdef : e.deferFin (add seg.seq seg.payload.length) = e := by
      rw [deferFin, ← (h.fin hf).2 hgt]
    rw [hdef]
    exact hcheck
  · exact hcheck
  · exact hcheck

/-- After the acknowledgement only text and FIN are left to look at. -/
theorem establishedAck_settled_eq (hset : Settled e.ctl) (hn : seqGt seg.ack e.tcb.sndNxt = false)
    (hu : seqGt seg.ack e.tcb.sndUna = false) (hw : e.windowUpdate seg = e) :
    e.establishedAck seg = e.textAndFin seg := by
  have hacked {st : ConnState} (hst : st ∈ [.finWait1, .closing, .lastAck]) :
      ¬ (e.tcb.state = st ∧ e.fin.finAcked = true) := by
    rintro ⟨rfl, ha⟩
    have hf : e.fin.finAcked = false := hset hst
    rw [hf] at ha
    cases ha
  rw [establishedAck, if_neg (by simp [hn])]
  dsimp only
  rw [if_neg (c := seqGt seg.ack e.tcb.sndUna = true) (by simp [hu]), hw,
    if_neg (hacked (by simp)), if_neg (hacked (by simp)), if_neg (hacked (by simp))]

theorem Inert.handle (hs : e.tcb.state ∉ [.closed, .listen]) (hr : e.Ready) (hset : Settled e.ctl)
    (ht : e.TimerInv) (h : e.Inert seg) : e.handle seg = e := by
  obtain ⟨-, htw, hin⟩ := h
  by_cases hss : e.tcb.state = .synSent
  · rw [if_pos hss, InertSynSent] at hin
    rw [handle_synSent seg hss, handleSynSent]
    split_ifs at hin ⊢ <;> simp_all
  · rw [if_neg hss, InertSynchronized] at hin
    have hsync : e.tcb.state ∈ SyncStates := by
      rcases e.state_cases with h | h | h | h
      · simp [h] at hs
      · simp [h] at hs
      · exact absurd h hss
      · exact h
    rw [handle_synchronized seg hsync, handleSynchronized, if_neg htw]
    by_cases hacc : acceptable seg.seq seg.segLen e.tcb.rcvNxt e.rcvWnd = true
    · rw [if_pos hacc] at hin
      obtain ⟨hrst, hsyn, hack⟩ := hin
      rw [if_neg (by simp [hacc]), if_neg (by simp [hrst]), if_neg (by simp [hsyn])]
      by_cases ha : seg.ackFlag = true
      · obtain ⟨hsr, hst⟩ := hack ha
        rw [if_neg (by simp [ha]), if_neg hsr,
          establishedAck_settled_eq hset hst.nxt hst.una (windowUpdate_known hst.window),
          textAndFin,
          if_neg (fun hp => hst.text.elim hp.1 fun hd => hd hp.2), hr.drained.sendPending ht]
        exact hst.finCheck
      · rw [if_pos (by simpa using ha)]
    · rw [if_neg hacc] at hin
      rw [if_pos (by simpa using hacc), if_pos hin]

/-! ## Segments that change something -/

theorem sendAck_ne : e.sendAck ≠ e :=
  Grew.ne (by simp) (.refl _)

theorem emitRstReply_ne (seq ack : Int) (b : Bool) : e.emitRstReply seg seq ack b ≠ e :=
  Grew.ne (by simp) (.refl _)

theorem ne_of_state (h : f.tcb.state ≠ e.tcb.state) : f ≠ e := fun hf => h (by rw [hf])

theorem timeWaitArrives_ne (hs : e.tcb.state = .timeWait) : e.timeWaitArrives seg ≠ e := by
  unfold timeWaitArrives
  split_ifs
  · exact ne_of_state (by simp [hs])
  · exact sendAck_ne
  · exact Grew.ne (f := e.sendAck.restartTimeWait) (by simp [restartTimeWait]) (.refl _)
  · exact sendAck_ne

theorem doReset_ne (hs : e.tcb.state ∉ [.closed, .listen]) : e.doReset ≠ e := by
  by_cases h : e.tcb.state = .synReceived ∧ e.fin.passive = true
  · rw [doReset_listen h.1 h.2]
    exact ne_of_state (by simp [restorePort, h.1])
  · obtain ⟨msg, -, h⟩ := doReset_close h
    rw [h]
    apply ne_of_state
    rw [enterClosed_state]
    intro hc
    simp [← hc] at hs

theorem synReceivedAck_ne (hs : e.tcb.state = .synReceived) : e.synReceivedAck seg ≠ e := by
  unfold synReceivedAck
  split
  · refine ne_of_state fun hst => ?_
    dsimp only at hst
    have hopen : (((e.processAck seg.ack).setSendWindow seg.window seg.seq seg.ack).setState
        .established).mergeReassembly.tcb.state ∈ OpenStates := by
      rw [(mergeReassembly_frame _).state]
      simp
    have hl := textAndFin_later seg (sendPending_open hopen)
    rw [hst, hs] at hl
    simp at hl
  · exact emitRstReply_ne _ _ _

theorem processFin_ne : e.processFin ≠ e := by
  intro h
  have hn := processFin_rcvNxt (e := e)
  rw [h, add_def] at hn
  omega

/-- Segment text is always delivered or answered. -/
theorem recvData_logs_some (hp : seg.payload ≠ []) :
    e.env.log.length < (e.recvData seg).env.log.length := by
  have hforce {g : TcpEngine} : g.env.log.length < (g.scheduleAck true).env.log.length := by
    rcases g.scheduleAck_cases true with ⟨n, h⟩ | ⟨d, n, -, hf, -⟩ | ⟨hf, -⟩
    · rw [h]
      simp
    · cases hf
    · cases hf
  have htrim (seq : Int) (data : List UInt8) :
      e.env.log.length < (e.recvTrimmed seg seq data).env.log.length := by
    unfold recvTrimmed
    dsimp only
    split_ifs
    · exact hforce
    · have h1 (d : List UInt8) : (e.takeInOrder seg d).env.log = e.env.log ++ [.deliver d] := by
        unfold TcpEngine.takeInOrder
        dsimp only
        split <;> simp [markSeen, advanceRcvNxt]
      have h2 := (mergeLoop_logs (P := fun _ => True) (fun _ => trivial)
        (e.takeInOrder seg
          (data.take (s32 (sub (add e.tcb.rcvNxt e.rcvWnd) seq)).toNat)).buf.ooo.length
        (e :=
          e.takeInOrder seg (data.take (s32 (sub (add e.tcb.rcvNxt e.rcvWnd) seq)).toNat))).trans
        (scheduleAck_logs (fun _ => trivial) false)
      obtain ⟨evs, hl, -⟩ := h2
      rw [mergeReassembly, hl, h1]
      simp only [List.length_append, List.length_singleton]
      omega
    · have h := hforce (g := e.storeOoo seq
        (data.take (s32 (sub (add e.tcb.rcvNxt e.rcvWnd) seq)).toNat) seg.flags)
      rwa [storeOoo_env] at h
  unfold recvData
  rw [if_neg hp]
  dsimp only
  split_ifs
  · exact hforce
  · exact htrim _ _
  · exact htrim _ _

theorem textAndFin_ne (hc : a.Carries seg) (hs : e.tcb.state ∈ OpenStates) (hsyn : seg.syn = false)
    (hp : seg.payload ≠ [] ∧ e.tcb.state ∈ DataStates) : e.textAndFin seg ≠ e := by
  rw [textAndFin, if_pos hp]
  have hst : (e.recvData seg).tcb.state ∈ OpenStates := by rwa [(recvData_frame e seg).state]
  refine Grew.ne (recvData_logs_some hp.1) (Path.grew (a := a) ?_)
  exact (sendPending_path _).trans (finCheck_path hc (sendPending_open hst) hsyn)

theorem stale_of_still (hc : a.Carries seg) (hs : e.tcb.state ∈ OpenStates) (hsyn : seg.syn = false)
    (hr : e.Ready) (hset : Settled e.ctl) (ht : e.TimerInv) (h : e.establishedAck seg = e) :
    e.Stale seg := by
  have hn : seqGt seg.ack e.tcb.sndNxt = false := by
    rw [Bool.eq_false_iff]
    intro hgt
    rw [establishedAck, if_pos hgt] at h
    exact sendAck_ne h
  have hrest := establishedAck_rest hn
  rw [h] at hrest
  have hu : seqGt seg.ack e.tcb.sndUna = false := by
    rw [Bool.eq_false_iff]
    intro hgt
    rw [if_pos hgt] at hrest
    have hall := (windowUpdate_steady (e := e.processAck seg.ack) seg).trans hrest
    obtain ⟨st, n, r, u, hl⟩ := hall
    have huna : e.tcb.sndUna = seg.ack := by
      rw [hl]
      split <;> simp
    rw [huna, seqGt_self] at hgt
    cases hgt
  rw [if_neg (by simp [hu])] at hrest
  have hwin : e.takesWindow seg = true →
      seg.window = e.tcb.sndWnd ∧ seg.seq = e.tcb.sndWl1 ∧ seg.ack = e.tcb.sndWl2 := by
    intro hw
    obtain ⟨st, n, r, u, hl⟩ := (windowUpdate_steady (e := e) seg).trans hrest
    rw [if_pos hw] at hl
    refine ⟨?_, ?_, ?_⟩
    · rw [hl]; rfl
    · rw [hl]; rfl
    · rw [hl]; rfl
  rw [establishedAck_settled_eq hset hn hu (windowUpdate_known hwin)] at h
  have htext : ¬ (seg.payload ≠ [] ∧ e.tcb.state ∈ DataStates) :=
    fun hp => textAndFin_ne hc hs hsyn hp h
  rw [textAndFin, if_neg htext, hr.drained.sendPending ht] at h
  have hcheck {g : TcpEngine} (hg : g.checkPendingFin = g) :
      g.fin.pendingFin ≠ some g.tcb.rcvNxt := by
    intro hd
    rw [checkPendingFin, if_pos hd] at hg
    exact processFin_ne hg
  by_cases hf : seg.fin = true
  · by_cases hq : e.tcb.rcvNxt = add seg.seq seg.payload.length
    · rw [finCheck, if_pos hf, if_pos hq, checkPendingFin,
        if_neg (by simp [processFin_pendingFin])] at h
      exact absurd h processFin_ne
    · by_cases hgt : seqGt (add seg.seq seg.payload.length) e.tcb.rcvNxt = true
      · have hne : some (add seg.seq seg.payload.length) ≠ some e.tcb.rcvNxt :=
          fun he => hq (Option.some.inj he).symm
        rw [finCheck, if_pos hf, if_neg hq, if_pos hgt, checkPendingFin,
          if_neg (by exact hne)] at h
        have hp : e.fin.pendingFin = some (add seg.seq seg.payload.length) := by
          rw [← h]
          rfl
        exact ⟨hn, hu, hwin, by tauto, fun _ => ⟨hq, fun _ => hp⟩, by rw [hp]; exact hne⟩
      · rw [finCheck, if_pos hf, if_neg hq, if_neg hgt] at h
        exact ⟨hn, hu, hwin, by tauto, fun _ => ⟨hq, fun hg => absurd hg hgt⟩, hcheck h⟩
  · rw [finCheck, if_neg hf] at h
    exact ⟨hn, hu, hwin, by tauto, fun hf' => absurd hf' hf, hcheck h⟩

/-- A SYN that is taken opens the connection. -/
theorem takeSyn_ne (hcs : a.Carries seg.synTaken) (ht : e.TakesSyn seg) :
    (if seqGt (e.takeSyn seg).tcb.sndUna (e.takeSyn seg).tcb.iss then
      (e.takeSyn seg).synSentEstablished seg else (e.takeSyn seg).simultaneousOpen seg) ≠ e := by
  split
  · have hlog : e.env.log.length < ((e.takeSyn seg).setState .established).env.log.length := by
      rw [setState_log, takeSyn_env, if_neg (by rw [(takeSyn_tcb seg).1, ht.1]; simp)]
      simp
    refine Grew.ne hlog (Path.grew (a := a) ?_)
    unfold synSentEstablished
    dsimp only
    refine .head (.sendAck _) ?_
    split
    · refine (sendPending_path _).trans (handleSynchronized_path hcs ?_ ?_)
      · exact List.mem_cons_of_mem _ (List.mem_cons_of_mem _ (sendPending_open (by simp)))
      · intro hrst
        have : seg.rst = true := hrst
        rw [ht.2.2.1] at this
        cases this
    · exact sendPending_path _
  · exact ne_of_state (by rw [(simultaneousOpen_crossed seg).state, ht.1]; simp)

theorem handleSynSent_still (hcs : a.Carries seg.synTaken) (hs : e.tcb.state = .synSent)
    (h : e.handleSynSent seg = e) : e.InertSynSent seg := by
  rw [handleSynSent] at h
  rw [InertSynSent]
  by_cases hbad : (seg.ackFlag && (seqLeq seg.ack e.tcb.iss || seqGt seg.ack e.tcb.sndNxt)) = true
  · rw [if_pos hbad] at h ⊢
    by_contra hr
    rw [if_neg hr] at h
    exact emitRstReply_ne _ _ _ h
  rw [if_neg hbad] at h ⊢
  dsimp only at h
  by_cases hr : seg.rst = true
  · rw [if_pos hr] at h ⊢
    rw [Bool.eq_false_iff]
    intro hok
    rw [if_pos hok] at h
    exact ne_of_state (by simp [hs]) h
  · rw [if_neg hr] at h ⊢
    rw [Bool.eq_false_iff]
    intro hsyn
    rw [if_neg (by simp [hsyn])] at h
    refine takeSyn_ne hcs ⟨hs, hsyn, by simpa using hr, fun hack => ?_⟩ h
    simp only [hack, Bool.true_and, Bool.or_eq_true, not_or, Bool.not_eq_true] at hbad
    exact ⟨by simp [seqGt_eq_not_seqLeq, hbad.1], by simpa [seqGt_eq_not_seqLeq] using hbad.2⟩

theorem inert_of_still (hc : a.Carries seg) (hcs : a.Carries seg.synTaken)
    (hs : e.tcb.state ∉ [.closed, .listen]) (hr : e.Ready) (hset : Settled e.ctl) (ht : e.TimerInv)
    (h : e.handle seg = e) : e.tcb.state ≠ .timeWait ∧
      if e.tcb.state = .synSent then e.InertSynSent seg else e.InertSynchronized seg := by
  by_cases hss : e.tcb.state = .synSent
  · rw [handle_synSent seg hss] at h
    rw [if_pos hss]
    exact ⟨by simp [hss], handleSynSent_still hcs hss h⟩
  rw [if_neg hss, InertSynchronized]
  have hsync : e.tcb.state ∈ SyncStates := by
    rcases e.state_cases with h | h | h | h
    · simp [h] at hs
    · simp [h] at hs
    · exact absurd h hss
    · exact h
  rw [handle_synchronized seg hsync, handleSynchronized] at h
  have htw : e.tcb.state ≠ .timeWait := by
    intro htw
    rw [if_pos htw] at h
    exact timeWaitArrives_ne htw h
  refine ⟨htw, ?_⟩
  rw [if_neg htw] at h
  by_cases hacc : acceptable seg.seq seg.segLen e.tcb.rcvNxt e.rcvWnd = true
  · rw [if_neg (by simp [hacc])] at h
    rw [if_pos hacc]
    have hrst : seg.rst = false := by
      rw [Bool.eq_false_iff]
      intro hrst
      rw [if_pos hrst] at h
      split at h
      · exact doReset_ne hs h
      · exact sendAck_ne h
    rw [if_neg (by simp [hrst])] at h
    have hsyn : seg.syn = false := by
      rw [Bool.eq_false_iff]
      intro hsyn
      rw [if_pos hsyn] at h
      exact sendAck_ne h
    refine ⟨hrst, hsyn, fun hack => ?_⟩
    rw [if_neg (by simp [hsyn]), if_neg (by simp [hack])] at h
    have hsr : e.tcb.state ≠ .synReceived := by
      intro hsr
      rw [if_pos hsr] at h
      exact synReceivedAck_ne hsr h
    rw [if_neg hsr] at h
    rw [List.mem_cons, List.mem_cons] at hsync
    exact ⟨hsr, stale_of_still hc ((hsync.resolve_left htw).resolve_left hsr) hsyn hr hset ht h⟩
  · rw [if_pos (by simpa using hacc)] at h
    rw [if_neg hacc]
    by_contra hrst
    rw [if_neg hrst] at h
    exact sendAck_ne h

theorem heard_still (h : e.tcb.state = .established → e.conf.cfg.keepaliveIdle = none) :
    e.heard = e := by
  unfold heard
  split
  · next hs =>
    unfold restartKeepalive
    rw [h hs]
  · rfl

theorem heard_timerId (hs : e.tcb.state = .established) (hk : e.conf.cfg.keepaliveIdle ≠ none) :
    e.heard.timerId = e.timerId + 1 := by
  obtain ⟨idle, hi⟩ := Option.ne_none_iff_exists'.mp hk
  unfold heard restartKeepalive timerId
  rw [if_pos hs, hi]
  dsimp only
  rw [if_neg (by simp [hs])]
  simp

theorem inert_enter : e.enter.Inert seg ↔ e.Inert seg := by
  have hst : e.enter.Stale seg = e.Stale seg := propext
    ⟨fun h => ⟨h.nxt, h.una, h.window, h.text, h.fin, h.deferred⟩,
      fun h => ⟨h.nxt, h.una, h.window, h.text, h.fin, h.deferred⟩⟩
  unfold Inert InertSynchronized
  rw [hst]
  exact Iff.rfl

/-- What `on_segment` leaves as it is. -/
theorem onSegment_still {data : List UInt8} (hp : TcpSegment.parse data = .ok seg)
    (hs : e.tcb.state ∉ [.closed, .listen]) (hr : e.Ready) (hset : Settled e.ctl)
    (ht : e.TimerInv) :
    e.onSegment data = e ↔ ¬ e.Addressed seg ∨ e.Inert seg := by
  have hc : Action.Carries (.segment data) seg := ⟨data, seg, rfl, hp, Or.inl rfl⟩
  have hcs : Action.Carries (.segment data) seg.synTaken := ⟨data, seg, rfl, hp, Or.inr rfl⟩
  by_cases ha : e.Addressed seg
  swap
  · exact iff_of_true (onSegment_ignored hp ha) (Or.inl ha)
  rw [onSegment_handle hp ha]
  constructor
  · intro h
    apply Or.inr
    have hka : e.tcb.state = .established → e.conf.cfg.keepaliveIdle = none := by
      intro hst
      by_contra hk
      have hpath : Path (.segment data) e.heard (e.heard.handle seg) := by
        rw [handle_synchronized seg (by simp [hst])]
        refine handleSynchronized_path hc (by simp [hst]) fun _ => ?_
        exact hr.drained.blocked.of_view heard_sendView
      have hle : e.heard.timerId ≤ e.timerId := by
        have := hpath.grew.2
        rwa [h] at this
      have := heard_timerId hst hk
      omega
    rw [heard_still hka] at h
    exact ⟨hka, inert_of_still hc hcs hs hr hset ht h⟩
  · rintro (hna | hin)
    · exact absurd ha hna
    · rw [heard_still hin.1]
      exact hin.handle hs hr hset ht

/-! ## Runs -/

/-- What every reachable state has. -/
structure Serene (e : TcpEngine) : Prop where
  ready : e.Ready
  settled : Settled e.ctl
  timers : e.TimerInv
  live : e.env.hung = false

theorem serene_init (args : EngineArgs) (sched : ManualScheduler Callback) (rand : Nat)
    (hsched : sched.heap = []) : (init args sched rand).Serene :=
  ⟨ready_init args sched rand, settled_of_unacked rfl, timerInv_init args sched rand hsched, rfl⟩

theorem Serene.step (h : e.Serene) (hs : engineMachine.step e a = some e') : e'.Serene := by
  refine ⟨h.ready.step hs, h.ready.settled h.settled hs, h.ready.timerInv_step h.timers hs, ?_⟩
  simp only [engineMachine] at hs
  split_ifs at hs with _ hh
  obtain rfl := Option.some.inj hs
  simpa using hh

theorem serene_run {args : EngineArgs} {sched : ManualScheduler Callback} {rand : Nat}
    {as : List Action} (hsched : sched.heap = [])
    (hr : engineMachine.run (init args sched rand) as = some e) : e.Serene :=
  Lib.Machine.Preserves.run (I := Serene) (fun _ _ _ h _ hs => h.step hs)
    (serene_init args sched rand hsched) (Lib.Machine.AllSteps.trivial _ _ as) hr

/-- The segments that leave a reachable engine as it was. -/
theorem Serene.step_still {data : List UInt8} (h : e.Serene) (hp : TcpSegment.parse data = .ok seg)
    (hs : e.tcb.state ∉ [.closed, .listen]) :
    engineMachine.step e (.segment data) = some e.enter ↔ ¬ e.Addressed seg ∨ e.Inert seg := by
  have hr' : e.enter.Ready := ⟨h.ready.coherent, h.ready.drained.of_view rfl⟩
  have hiff := onSegment_still (e := e.enter) hp hs hr' h.settled (h.timers.same rfl rfl)
  rw [inert_enter] at hiff
  have hstep : engineMachine.step e (.segment data) =
      if (e.enter.onSegment data).env.hung then none else some (e.enter.onSegment data) := by
    simp only [engineMachine]
    exact if_pos True.intro
  rw [hstep]
  constructor
  · intro hx
    split_ifs at hx
    exact hiff.mp (Option.some.inj hx)
  · intro hx
    have hlive : e.enter.env.hung = false := h.live
    rw [hiff.mpr hx, if_neg (by simp [hlive])]

/-! ## Isolation -/

/-- A segment of another socket pair that these octets hold leaves the connection as it
was. -/
def Isolated (e : TcpEngine) (data : List UInt8) : Prop :=
  ∀ seg, TcpSegment.parse data = .ok seg → e.conf.remotePort ≠ 0 → e.Foreign seg →
    engineMachine.step e (.segment data) = some e.enter

/-- In every run a segment of another socket pair is without effect exactly when its
destination port is another, or it would be without effect from the peer as well. -/
theorem isolated_iff (args : EngineArgs) (sched : ManualScheduler Callback) (rand : Nat)
    (as : List Action) (e : TcpEngine) (data : List UInt8) (hsched : sched.heap = [])
    (hr : engineMachine.run (init args sched rand) as = some e)
    (hs : e.tcb.state ∉ [.closed, .listen]) : e.Isolated data ↔
      ∀ seg, TcpSegment.parse data = .ok seg → e.conf.remotePort ≠ 0 → e.Foreign seg →
        ¬ e.Addressed seg ∨ e.Inert seg := by
  have hser := serene_run hsched hr
  constructor
  · intro h seg hp hport hf
    exact (hser.step_still hp hs).mp (h seg hp hport hf)
  · intro h seg hp hport hf
    exact (hser.step_still hp hs).mpr (h seg hp hport hf)

end TcpEngine

/-- A RST with the sequence number expected, from port 9999 to port 1000. -/
def strangerReset : List UInt8 :=
  [39, 15, 3, 232, 0, 0, 3, 233, 0, 0, 0, 0, 80, 4, 0, 0, 0, 0, 0, 0]

theorem stranger_resets : ∃ e, engineMachine.run dialStart dialRun = some e ∧
    e.tcb.state = .established ∧ ¬ e.Isolated strangerReset := by
  have h : ((engineMachine.run dialStart dialRun).map fun e => (e.tcb.state, e.conf.remotePort,
      (engineMachine.step e (.segment strangerReset)).map fun e' => e'.tcb.state)) =
      some (.established, 80, some .closed) := by
    decide +kernel
  obtain ⟨e, he, hv⟩ := Option.map_eq_some_iff.mp h
  simp only [Prod.mk.injEq] at hv
  obtain ⟨hs, hp, hc⟩ := hv
  refine ⟨e, he, hs, fun hi => ?_⟩
  have hseg : (TcpSegment.parse strangerReset).toOption.map (fun s => s.srcPort) = some 9999 := by
    decide +kernel
  cases hparse : TcpSegment.parse strangerReset with
  | error msg => rw [hparse] at hseg; cases hseg
  | ok seg =>
    rw [hparse] at hseg
    have hsrc : seg.srcPort = 9999 := Option.some.inj hseg
    have hstep := hi seg hparse (by omega) (Or.inl ⟨by omega, by omega⟩)
    rw [hstep] at hc
    have hclosed : e.tcb.state = .closed := Option.some.inj hc
    rw [hs] at hclosed
    cases hclosed

/-- A RST from port 9999 with a number that has been received already. -/
def lateReset : List UInt8 := [39, 15, 3, 232, 0, 0, 3, 232, 0, 0, 0, 0, 80, 4, 0, 0, 0, 0, 0, 0]

open TcpEngine in
/-- It is without effect, as it would be from the peer. -/
theorem late_reset_isolated : ∃ e seg, engineMachine.run dialStart dialRun = some e ∧
    TcpSegment.parse lateReset = .ok seg ∧ e.conf.remotePort ≠ 0 ∧ e.Foreign seg ∧
    e.Addressed seg ∧ engineMachine.step e (.segment lateReset) = some e.enter := by
  have h : ((engineMachine.run dialStart dialRun).map fun e => (e.tcb.state, e.conf.localPort,
      e.conf.remotePort, e.conf.cfg.keepaliveIdle.isNone, e.tcb.rcvNxt, e.rcvWnd)) =
      some (.established, 1000, 80, true, 1001, 64534) := by
    decide +kernel
  obtain ⟨e, he, hv⟩ := Option.map_eq_some_iff.mp h
  simp only [Prod.mk.injEq] at hv
  obtain ⟨hs, hl, hr, hk, hn, hw⟩ := hv
  have hp : ∃ seg, TcpSegment.parse lateReset = .ok seg ∧ seg.srcPort = 9999 ∧
      seg.dstPort = 1000 ∧ seg.rst = true ∧ acceptable seg.seq seg.segLen 1001 64534 = false :=
    ⟨_, rfl, by decide, by decide, by decide, by decide⟩
  obtain ⟨seg, hp, hsrc, hdst, hrst, hacc⟩ := hp
  have hfor : e.Foreign seg := Or.inl (by omega)
  refine ⟨e, seg, he, hp, by omega, hfor, Or.inr (Or.inr (by omega)), ?_⟩
  have hinert : e.Inert seg := by
    refine ⟨fun _ => Option.isNone_iff_eq_none.mp hk, by simp [hs], ?_⟩
    rw [if_neg (by simp [hs]), InertSynchronized, hn, hw, hacc]
    exact hrst
  refine (isolated_iff _ {} 0 dialRun e lateReset rfl he (by rw [hs]; decide)).mpr ?_ seg hp
    (by omega) hfor
  intro seg' hp' _ _
  rw [hp] at hp'
  obtain rfl := Except.ok.inj hp'
  exact Or.inr hinert

end HdlPlayground.Tcp

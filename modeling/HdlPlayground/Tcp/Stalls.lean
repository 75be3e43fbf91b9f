import HdlPlayground.Tcp.FinAck
import HdlPlayground.Tcp.Probes

/-!
# No silent stall

What is queued has its retransmission timer, what is stuck behind a closed window
its persist timer, and TIME-WAIT its 2*MSL timer, at the end of every entry point
of an engine that is opened once.
-/
namespace HdlPlayground.Tcp

namespace TcpEngine

open EngineTimers

variable {a : Action} {e e' : TcpEngine} {w : List UInt8} {k : Nat}

theorem giveUp_cfgMss (msg : String) (hb : e.Blocked) :
    (e.giveUp msg).conf.cfgMss = e.conf.cfgMss := by
  obtain ⟨f, hf, hfb, hg⟩ := giveUp_closes msg hb
  obtain ⟨tm, hc⟩ := enterClosed_closeDown hfb
  rw [hg, hc]
  obtain rfl | rfl := hf
  · simp [closeDown]
  · simp [closeDown]

/-- No move changes the configured MSS. -/
theorem Move.cfgMss (hm : Move a e e') : e'.conf.cfgMss = e.conf.cfgMss := by
  cases hm with
  | setUserTimeout t => cases t <;> rfl
  | connect ho _ => rw [connect_eq (ho.imp And.left id)]; simp [dialled]
  | startListening => simp [TcpEngine.startListening]
  | acceptSyn seg _ hs =>
    obtain ⟨m, -, -, ht⟩ := acceptSyn_eq (e := e) seg hs
    rw [ht]
    simp [listenTaken]
  | synEstablished seg =>
    obtain ⟨m, -, -, ht⟩ := takeSyn_cases (e := e) seg
    rw [ht]
    dsimp only
    split <;> simp
  | synReceived seg =>
    obtain ⟨m, -, -, ht⟩ := takeSyn_cases (e := e) seg
    rw [ht]
    dsimp only
    split <;> simp [becomeSynReceived]
  | completeOpen seg => simp [openCompleted]
  | storeSynData seg =>
    rw [(storeOoo_frame e (add seg.seq 1) seg.payload { seg.flags with fin := false }).conf]
  | storeOoo seg n => rw [(storeOoo_frame e seg.seq (seg.payload.take n) seg.flags).conf]
  | receive _ hr => rw [hr.frame.conf]
  | sendSynAck => simp [TcpEngine.sendSynAck]
  | sendKeepaliveProbe => simp [TcpEngine.sendKeepaliveProbe]
  | probe g => simp [TcpEngine.sendProbe]
  | finAckedTimeWait hs => rw [enterTimeWait_eq (by simp [CanSend, hs])]; simp
  | processFin => obtain ⟨st, -, hf⟩ | ⟨-, hf⟩ := processFin_cases (e := e) <;> rw [hf] <;> simp
  | listenAgain hs hp => rw [doReset_listen hs hp]; simp [restorePort]
  | close _ hb =>
    obtain ⟨tm, hc⟩ := enterClosed_closeDown hb
    rw [hc]
    simp [closeDown]
  | abort _ hb =>
    obtain ⟨tm, hc⟩ := enterClosed_closeDown (sendRst_blocked hb)
    rw [hc]
    simp [closeDown]
  | giveUp msg _ hb => exact giveUp_cfgMss msg hb
  | giveUpRto g c msg _ _ _ _ hb =>
    cases c with
    | true =>
      have hc : (e.fire g).countRto.Blocked := (hb.fire g).of_view rfl
      simp [giveUp_cfgMss msg hc]
    | false => simp [giveUp_cfgMss msg (hb.fire g)]
  | timeWaitExpires g _ _ _ hb =>
    obtain ⟨tm, hc⟩ := enterClosed_closeDown (hb.fire g)
    rw [hc]
    simp [closeDown]
  | _ => first | rfl | simp

/-! ## The retransmission timer -/

theorem armRt_armed (h : e.buf.retx ≠ []) : e.armRt.tm.rtTimer ≠ none := by
  unfold armRt
  rw [if_neg h]
  cases hr : e.tm.rtTimer with
  | none => simp [startRt]
  | some i =>
    dsimp only
    split
    · simp [hr]
    · simp [startRt]

theorem queueAndSend_armed (flags : Flags) (payload : List UInt8) (m : Bool) (urg : Nat)
    (hm : e.tcb.sndMss ≤ 65535) : (e.queueAndSend flags payload m urg).tm.rtTimer ≠ none := by
  obtain h | ⟨-, hx, -⟩ := e.queueAndSend_cases flags payload m urg
  · rw [h]
    exact armRt_armed (by simp [enqueue])
  · omega

theorem restartRt_armed : e.restartRt.tm.rtTimer ≠ none ↔ e.buf.retx ≠ [] := by
  unfold restartRt
  dsimp only
  split
  · next h => simp [h]
  · next h => simp [h, startRt]

theorem processAck_armed (ack : Int) :
    (e.processAck ack).tm.rtTimer ≠ none ↔ (e.processAck ack).buf.retx ≠ [] := by
  rw [processAck_buf]
  simp only [processAck]
  split
  · next h =>
    rw [takeSample_buf] at h
    simp [stopRt, h]
  · next h =>
    rw [restartRt_armed]
    simp

/-- The retransmission timer runs while something is queued, and TIME-WAIT has its
own timer. TIME-WAIT stops the one without looking at the queue. -/
structure Paced (e : TcpEngine) : Prop where
  armed : e.tm.rtTimer ≠ none → e.buf.retx ≠ []
  kept : e.buf.retx ≠ [] → e.tcb.state ≠ .timeWait → e.tm.rtTimer ≠ none
  lingers : e.tcb.state = .timeWait → e.tm.twTimer ≠ none
  window : e.tcb.sndWnd < 65536

theorem Paced.of_armed (h : e.Paced) (hrt : e'.tm.rtTimer ≠ none ↔ e'.buf.retx ≠ [])
    (htw : e'.tcb.state = .timeWait → e.tcb.state = .timeWait ∧ e'.tm.twTimer = e.tm.twTimer)
    (hw : e'.tcb.sndWnd < 65536) : e'.Paced := by
  refine ⟨hrt.mp, fun hq _ => hrt.mpr hq, fun hs => ?_, hw⟩
  obtain ⟨hs, ht⟩ := htw hs
  rw [ht]
  exact h.lingers hs

theorem Paced.same (h : e.Paced) (hq : e'.buf.retx = [] ↔ e.buf.retx = [])
    (hrt : e'.tm.rtTimer = e.tm.rtTimer) (htw : e'.tm.twTimer = e.tm.twTimer)
    (hs : e'.tcb.state = .timeWait ↔ e.tcb.state = .timeWait)
    (hw : e'.tcb.sndWnd < 65536) : e'.Paced := by
  refine ⟨fun hr hn => ?_, fun hr hst => ?_, fun hst => ?_, hw⟩
  · rw [hrt] at hr
    exact h.armed hr (hq.mp hn)
  · rw [hrt]
    exact h.kept (fun hn => hr (hq.mpr hn)) (fun hn => hst (hs.mpr hn))
  · rw [htw]
    exact h.lingers (hs.mp hst)

/-- A method that handles neither timer. -/
theorem Paced.of_retimes {S : List Callback} (h : e.Paced) (ht : e.TimerInv)
    (hr : Retimes S e.tm e'.tm) (h1 : .onRto ∉ S) (h2 : .onTimeWait ∉ S)
    (hq : e'.buf.retx = [] ↔ e.buf.retx = [])
    (hs : e'.tcb.state = .timeWait ↔ e.tcb.state = .timeWait)
    (hw : e'.tcb.sndWnd < 65536) : e'.Paced :=
  h.same hq (hr.other ht.timely .onRto h1) (hr.other ht.timely .onTimeWait h2) hs hw

theorem enterClosed_paced (hb : e.Blocked) (ht : e.tm.Timely) (hw : e.tcb.sndWnd < 65536) :
    e.enterClosed.Paced := by
  have hslot := (enterClosed_slots hb ht).2.1 .onRto (by simp)
  have hwnd : e.enterClosed.tcb.sndWnd < 65536 := by
    obtain ⟨tm, hc⟩ := enterClosed_closeDown hb
    rw [hc]
    simpa [closeDown] using hw
  exact ⟨fun h => absurd hslot h, fun h => absurd (by simp) h, fun h => by simp at h, hwnd⟩

theorem giveUp_paced (msg : String) (hb : e.Blocked) (ht : e.tm.Timely)
    (hw : e.tcb.sndWnd < 65536) : (e.giveUp msg).Paced := by
  obtain ⟨f, hf, hfb, h⟩ := giveUp_closes msg hb
  rw [h]
  obtain rfl | rfl := hf
  · exact enterClosed_paced hfb ht hw
  · exact enterClosed_paced hfb (by simpa using ht) (by simpa using hw)

theorem ackHeadSyn_eq_nil (q : List Outgoing) : ackHeadSyn q = [] ↔ q = [] := by
  cases q with
  | nil => simp [ackHeadSyn]
  | cons o q =>
    simp only [ackHeadSyn]
    split <;> simp

/-- TIME-WAIT is entered with its timer armed and no retransmission timer. -/
theorem timeWait_paced (hw : e.tcb.sndWnd < 65536) :
    ((e.stopRt.dropPersistTimer.setState .timeWait).armTwTimer).Paced := by
  have hrt : (e.stopRt.dropPersistTimer.setState .timeWait).armTwTimer.tm.rtTimer = none :=
    setState_rtTimer _ _
  refine ⟨fun hr => absurd hrt hr, fun _ hs => ?_, fun _ => ?_, ?_⟩
  · exact absurd (by simp) hs
  · simp [armTwTimer]
  · simpa using hw

theorem Paced.received (h : e.Paced) (hf : RecvFrame e e') (ht : e'.tm = e.tm) : e'.Paced := by
  obtain ⟨r, u, htcb⟩ := hf.tcb
  apply h.same (by rw [hf.retx]) (by rw [ht]) (by rw [ht]) (by rw [hf.state])
  rw [htcb]
  exact h.window

theorem takeSyn_paced {seg : TcpSegment} (hf : seg.Fits) (h : e.Paced)
    (hs : e.tcb.state = .synSent) (he' : e'.buf.retx = [] ↔ (e.takeSyn seg).buf.retx = [])
    (hrt : e'.tm.rtTimer = (e.takeSyn seg).tm.rtTimer) (hst : e'.tcb.state ≠ .timeWait)
    (hw : e'.tcb.sndWnd = (e.takeSyn seg).tcb.sndWnd) : e'.Paced := by
  have hsyn : ((e.takeSyn seg).tm.rtTimer ≠ none ↔ (e.takeSyn seg).buf.retx ≠ []) ∧
      (e.takeSyn seg).tcb.sndWnd = seg.window := by
    obtain ⟨m, -, -, ht⟩ := takeSyn_cases (e := e) seg
    rw [ht]
    dsimp only
    split
    · exact ⟨processAck_armed seg.ack, rfl⟩
    · exact ⟨⟨h.armed, fun hq => h.kept hq (by simp [hs])⟩, rfl⟩
  have hwin := hf.window
  refine h.of_armed ?_ (fun hc => absurd hc hst) ?_
  · rw [hrt, hsyn.1]
    exact not_congr he'.symm
  · rw [hw, hsyn.2]
    exact hwin

theorem Paced.fire {g : TimerHandle Callback} (h : e.Paced) (ht : e.TimerInv)
    (hl : g ∈ e.tm.sched.live) (h1 : g.cb ≠ .onRto) (h2 : g.cb ≠ .onTimeWait) :
    (e.fire g).Paced :=
  h.of_retimes ht (fire_retimes hl) (by simpa using Ne.symm h1) (by simpa using Ne.symm h2)
    (by simp) (by simp) (by simpa using h.window)

/-- A timer that finds nothing to do. -/
theorem Paced.fireIdle {g : TimerHandle Callback} (h : e.Paced) (ht : e.TimerInv)
    (hl : g ∈ e.tm.sched.live)
    (hcb : g.cb ∈ [.onPersist, .onDelack, .onKeepalive] ∨ (g.cb = .onRto ∧ e.buf.retx = [])) :
    (e.fire g).Paced := by
  have hw := h.window
  have hr := (fire_retimes hl).other ht.timely
  have htw : (e.fire g).tm.twTimer = e.tm.twTimer := by
    apply hr .onTimeWait
    rcases hcb with hcb | ⟨hcb, -⟩
    · intro hc
      rw [List.mem_singleton] at hc
      simp [← hc] at hcb
    · simp [hcb]
  by_cases hg : g.cb = .onRto
  · have hq : e.buf.retx = [] := by
      rcases hcb with hcb | ⟨-, hq⟩
      · simp [hg] at hcb
      · exact hq
    have hn : (e.fire g).tm.rtTimer = none := fire_rtTimer hg
    refine h.of_armed ?_ ?_ (by simpa using hw)
    · simp [hn, hq]
    · exact fun hs => ⟨by simpa using hs, htw⟩
  · refine h.same ?_ (hr .onRto ?_) htw ?_ ?_
    · simp
    · simpa using Ne.symm hg
    · simp
    · simpa using hw

/-- An expiry resends the head of the queue and starts its timer anew. -/
theorem Paced.retransmit {g : TimerHandle Callback} {o : Outgoing} {rest : List Outgoing}
    (h : e.Paced) (ht : e.TimerInv) (hmss : e.tcb.sndMss ≤ 65535) (hl : g ∈ e.tm.sched.live)
    (hcb : g.cb = .onRto) : ((e.fire g).countRto.retransmitHead o rest).Paced := by
  have hw := h.window
  have htw : (e.fire g).countRto.tm.twTimer = e.tm.twTimer :=
    (fire_retimes hl).other ht.timely .onTimeWait (by simp [hcb])
  refine h.of_armed ⟨fun _ => by simp, fun _ => ?_⟩ (fun hs => ⟨by simpa using hs, ?_⟩)
    (by simpa using hw)
  · obtain hr | ⟨-, hx, -⟩ := retransmitHead_cases (e := (e.fire g).countRto) o rest
    · rw [hr]
      simp [startRt]
    · simp at hx
      omega
  · rw [← htw]
    have hn : (e.fire g).countRto.tm.rtTimer = none := fire_rtTimer hcb
    have h1 : (e.fire g).countRto.tm.Timely := (fire_retimes hl).timely ht.timely
    exact (retransmitHead_retimes o rest hn).other h1 .onTimeWait (by simp)

theorem Paced.sendChunk (h : e.Paced) (ht : e.TimerInv) (hmss : e.tcb.sndMss ≤ 65535) :
    (e.sendChunk e.chunkLen).Paced := by
  have hw := h.window
  have hr := queueAndSend_retimes (e := e.takeChunk e.chunkLen) ht.timely
    (e.takeChunk e.chunkLen).chunkFlags (e.buf.appBuf.take e.chunkLen) false
    (e.takeChunk e.chunkLen).urgentPointer
  refine h.of_armed ⟨fun _ => by simp [queueChunk], fun _ => ?_⟩
    (fun hs => ⟨by simpa using hs, ?_⟩)
    (by simpa using hw)
  · rw [sendChunk_tm]
    exact queueAndSend_armed _ _ _ _ hmss
  · rw [sendChunk_tm]
    exact hr.other ht.timely .onTimeWait (by simp)

theorem Paced.sendFin (h : e.Paced) (ht : e.TimerInv) (hmss : e.tcb.sndMss ≤ 65535) :
    e.sendFin.Paced := by
  obtain ⟨st, hst, hcase⟩ := sendFin_cases (e := e)
  have hrt : e.sendFin.tm.rtTimer ≠ none := by
    rw [hst, setState_rtTimer]
    exact queueAndSend_armed _ _ _ _ hmss
  refine h.of_armed ⟨fun _ => by simp, fun _ => hrt⟩ (fun hs => ⟨?_, ?_⟩) ?_
  · rw [hst, setState_tcb] at hs
    dsimp only at hs
    subst hs
    simp only [reduceCtorEq, and_false, false_or] at hcase
    exact hcase.2.symm
  · exact (sendFin_retimes ht.timely).other ht.timely .onTimeWait (by simp)
  · rw [hst]
    simpa using h.window

theorem Paced.rearmPersist (h : e.Paced) : e.rearmPersist.Paced :=
  h.same Iff.rfl rfl rfl Iff.rfl h.window

theorem Paced.probe {g : TimerHandle Callback} (h : e.Paced) (ht : e.TimerInv)
    (hmss : e.tcb.sndMss ≤ 65535) (hl : g ∈ e.tm.sched.live) (hcb : g.cb = .onPersist) :
    (e.fire g).sendProbe.rearmPersist.Paced := by
  have hw := h.window
  have h1 : (e.fire g).TimerInv := ht.of_retimes (fire_retimes hl) (by simp [hcb]) (by simp)
  have hr := queueAndSend_retimes (e := (e.fire g).takeChunk 1) h1.timely { ack := true }
    ((e.fire g).buf.appBuf.take 1) false 0
  have hf : (e.fire g).Paced := h.fire ht hl (by simp [hcb]) (by simp [hcb])
  refine Paced.rearmPersist (hf.of_armed ⟨fun _ => by simp [TcpEngine.sendProbe], fun _ => ?_⟩
    (fun hs => ⟨by simpa [TcpEngine.sendProbe] using hs, ?_⟩)
    (by simpa [TcpEngine.sendProbe] using hw))
  · exact queueAndSend_armed _ _ _ _ (by simpa using hmss)
  · exact hr.other h1.timely .onTimeWait (by simp)

/-- A FIN leads to TIME-WAIT, or is acknowledged with both timers as they were. -/
theorem Paced.processFin (h : e.Paced) (ht : e.TimerInv) (hs : e.tcb.state ∈ OpenStates) :
    e.processFin.Paced := by
  have hw := h.window
  have hne : e.tcb.state ≠ .timeWait := by
    intro hc
    simp [hc] at hs
  obtain ⟨st, hst, hf⟩ | ⟨hfw, hf⟩ := processFin_cases (e := e)
  · rw [hf]
    have h1 : e.consumeFin.sendAck.Paced := by
      refine h.of_retimes ht (by rw [sendAck_tm]; simpa using clearAckTimer_retimes e.consumeFin)
        (by simp) (by simp) (by simp) (by simp) (by simpa using hw)
    have ht1 : e.consumeFin.sendAck.tm.Timely := by
      rw [sendAck_tm]
      exact (clearAckTimer_retimes e.consumeFin).timely (by simpa using ht.timely)
    refine h1.same (by simp) (setState_rtTimer _ _) ?_ ?_ ?_
    · exact (setState_retimes _ st).other ht1 .onTimeWait (by simp)
    · have hst' : st ≠ .timeWait := by
        rcases hst with ⟨-, rfl⟩ | ⟨-, rfl⟩ | ⟨-, rfl⟩
        · simp
        · simp
        · exact hne
      simp [hst', hne]
    · simpa using hw
  · rw [hf]
    exact timeWait_paced (by simpa using hw)

theorem Paced.move (hm : Move a e e') (ht : e.TimerInv) (hmss : e.tcb.sndMss ≤ 65535)
    (hcfg : e.conf.cfgMss ≤ 65535) (h : e.Paced) : e'.Paced := by
  have hw := h.window
  cases hm with
  | connect ho _ =>
    rw [connect_eq (ho.imp And.left id)]
    refine h.of_armed ⟨fun _ => by simp, fun _ => queueAndSend_armed _ _ _ _ hmss⟩ ?_ ?_
    · simp [dialled]
    · simp [dialled]
  | startListening hs _ =>
    refine h.of_retimes ht
      (setState_retimes { e with fin := { e.fin with passive := true } } .listen)
      (by simp) (by simp) ?_ ?_ ?_
    · simp [TcpEngine.startListening]
    · simp [TcpEngine.startListening, hs]
    · simpa [TcpEngine.startListening] using hw
  | fire g hl hcb => exact h.fireIdle ht hl hcb
  | restartKeepalive b _ =>
    exact h.of_retimes ht (restartKeepalive_retimes e b) (by simp) (by simp) (by simp) (by simp)
      (by simpa using hw)
  | dropPersistTimer =>
    exact h.of_retimes ht (dropPersistTimer_retimes e) (by simp) (by simp) Iff.rfl Iff.rfl hw
  | armPersist _ =>
    exact h.of_retimes ht (armPersist_retimes ht.timely) (by simp) (by simp) (by simp) (by simp)
      (by simpa using hw)
  | restartTimeWait seg _ _ hs =>
    have hrt := (restartTimeWait_retimes e).other ht.timely .onRto (by simp)
    refine ⟨fun hr => ?_, fun _ hn => absurd hs hn, fun _ => ?_, hw⟩
    · exact h.armed fun hn => hr (hrt.trans hn)
    · simp [TcpEngine.restartTimeWait, armTwTimer]
  | retransmit g o rest hl hcb => exact h.retransmit ht hmss hl hcb
  | sendAck =>
    exact h.of_retimes ht (by rw [sendAck_tm]; exact clearAckTimer_retimes e) (by simp) (by simp)
      (by simp) (by simp) (by simpa using hw)
  | scheduleAck force _ =>
    exact h.of_retimes ht (scheduleAck_retimes e force) (by simp) (by simp) (by simp) (by simp)
      (by simpa using hw)
  | sendKeepaliveProbe =>
    refine h.same ?_ ?_ ?_ ?_ ?_
    · simp [TcpEngine.sendKeepaliveProbe]
    · simp [TcpEngine.sendKeepaliveProbe]
    · simp [TcpEngine.sendKeepaliveProbe]
    · simp [TcpEngine.sendKeepaliveProbe]
    · simpa [TcpEngine.sendKeepaliveProbe] using hw
  | sendSynAck =>
    refine h.same ?_ ?_ ?_ ?_ ?_
    · simp [TcpEngine.sendSynAck]
    · simp [TcpEngine.sendSynAck]
    · simp [TcpEngine.sendSynAck]
    · simp [TcpEngine.sendSynAck]
    · simpa [TcpEngine.sendSynAck] using hw
  | sendChunk => exact h.sendChunk ht hmss
  | sendFin => exact h.sendFin ht hmss
  | probe g _ hl hcb => exact h.probe ht hmss hl hcb
  | probeFin g _ hl hcb =>
    have h1 : (e.fire g).TimerInv := ht.of_retimes (fire_retimes hl) (by simp [hcb]) (by simp)
    have hf : (e.fire g).Paced := h.fire ht hl (by simp [hcb]) (by simp [hcb])
    exact (hf.sendFin h1 (by simpa using hmss)).rearmPersist
  | processAck seg _ hs =>
    refine h.of_armed (processAck_armed seg.ack) (fun hc => ?_) (by simpa using hw)
    simp only [processAck_tcb] at hc
    simp [hc] at hs
  | setSendWindow seg hc _ _ =>
    have := hc.fits.window
    exact h.same Iff.rfl rfl rfl Iff.rfl this
  | acceptSyn seg hc hs =>
    obtain ⟨m, hle, -, hm⟩ := acceptSyn_eq (e := e) seg hs
    have := hc.fits.window
    rw [hm]
    refine h.of_armed ⟨fun _ => by simp, fun _ => queueAndSend_armed _ _ _ _ ?_⟩ ?_ ?_
    · simp only [listenTaken, listenTcb]
      omega
    · simp [listenTaken, listenTcb]
    · simpa [listenTaken, listenTcb] using this
  | synEstablished seg hc hts =>
    exact takeSyn_paced hc.fits h hts.1 (by simp) (setState_rtTimer _ _) (by simp) (by simp)
  | synReceived seg hc hts =>
    refine takeSyn_paced hc.fits h hts.1 ?_ (setState_rtTimer _ _) ?_ ?_
    · simp [becomeSynReceived, ackHeadSyn_eq_nil]
    · simp [becomeSynReceived]
    · simp [becomeSynReceived]
  | storeSynData seg =>
    exact h.received (storeOoo_frame _ _ _ _) (storeOoo_tm _ _ _)
  | storeOoo seg n =>
    exact h.received (storeOoo_frame _ _ _ _) (storeOoo_tm _ _ _)
  | receive _ hr => exact h.received hr.frame hr.tm
  | completeOpen seg hc hco =>
    have := hc.fits.window
    refine h.of_armed ?_ (by simp [openCompleted]) (by simpa [openCompleted] using this)
    have hp := processAck_armed (e := e) seg.ack
    have hs : (e.openCompleted seg).tm.rtTimer = (e.processAck seg.ack).tm.rtTimer :=
      setState_rtTimer _ _
    rw [hs, hp]
    simp [openCompleted]
  | finAckedWait hs =>
    exact h.of_retimes ht (setState_retimes _ _) (by simp) (by simp) (by simp) (by simp [hs])
      (by simpa using hw)
  | finAckedTimeWait hs =>
    rw [enterTimeWait_eq (by simp [CanSend, hs])]
    exact timeWait_paced (by simpa using hw)
  | processFin hs => exact h.processFin ht hs
  | listenAgain hs hp =>
    rw [doReset_listen hs hp]
    refine ⟨fun hr => absurd rfl hr, fun hq => absurd rfl hq, fun hc => ?_, ?_⟩
    · simp [restorePort] at hc
    · simpa [restorePort] using hw
  | close _ hb => exact enterClosed_paced hb ht.timely hw
  | abort _ hb =>
    exact enterClosed_paced (sendRst_blocked hb) (by simpa using ht.timely) (by simpa using hw)
  | giveUp msg _ hb => exact giveUp_paced msg hb ht.timely hw
  | giveUpRto g c msg _ hl _ _ hb =>
    have h1 := (fire_retimes hl).timely ht.timely
    cases c with
    | true =>
      exact giveUp_paced msg ((hb.fire g).of_view rfl : (e.fire g).countRto.Blocked) h1
        (by simpa using hw)
    | false => exact giveUp_paced msg (hb.fire g) h1 (by simpa using hw)
  | timeWaitExpires g _ hl _ hb =>
    exact enterClosed_paced (hb.fire g) ((fire_retimes hl).timely ht.timely) (by simpa using hw)
  | _ =>
    exact h.same (by first | rfl | simp) (by first | rfl | simp) (by first | rfl | simp)
      (by first | rfl | simp) (by first | exact hw | simpa using hw)

/-! ## Runs of an engine that is opened once -/

/-- What an engine opened at most once has reached. -/
structure Course (opened : Prop) (e : TcpEngine) : Prop where
  kept : e.Kept
  cap : e.conf.cfgMss ≤ 65535
  paced : e.Paced
  last : FinLast e
  settled : FinSettled e
  phase : ∃ w, Resting w e ∧ (e.tcb.state = .closed ∨ opened) ∨ opened ∧ (Linked w e ∨ Dead e)

/-- The entry point opens an engine that is CLOSED. In any other state an open is refused, or
turns the listener into a caller. -/
def Starts (e : TcpEngine) (a : Action) : Prop := e.tcb.state = .closed ∧ a.Opens

instance (e : TcpEngine) (a : Action) : Decidable (e.Starts a) :=
  inferInstanceAs (Decidable (_ ∧ _))

theorem Course.paced_step {opened : Prop} (h : Course opened e)
    (hs : engineMachine.step e a = some e') : e'.Paced ∧ e'.conf.cfgMss ≤ 65535 := by
  have hend := h.kept.ready.step_preserves hs
    (P := fun f => f.TimerInv ∧ f.MssOk ∧ f.conf.cfgMss ≤ 65535 ∧ f.Paced) ?_ ?_
  · exact ⟨hend.2.2.2, hend.2.2.1⟩
  · obtain ⟨conf, psh, hb, hc⟩ := begin_eq (e := e) a
    refine ⟨timerInv_begin h.kept.timers, ?_, ?_, ?_⟩
    · rw [hb]
      exact h.kept.mss.of_eq rfl hc
    · rw [hb]
      exact Nat.le_trans (Nat.le_of_eq hc) h.cap
    · rw [hb]
      exact h.paced.same Iff.rfl rfl rfl Iff.rfl h.paced.window
  · rintro f f' hm ⟨ht, hmss, hcap, hp⟩
    refine ⟨ht.move hm, hmss.move hm, ?_, hp.move hm ht (Nat.le_trans hmss.le hcap) hcap⟩
    rw [hm.cfgMss]
    exact hcap

/-- Nothing but an open leads out of CLOSED. -/
theorem Kept.stays_closed (hk : e.Kept) (hs : e.tcb.state = .closed) (ho : ¬ a.Opens)
    (h : engineMachine.step e a = some e') : e'.tcb.state = .closed := by
  refine (hk.ready.path h).preserves (P := fun f => f.tcb.state = .closed) ?_ ?_
  · intro f f' hm hf
    have hout : f.Outside := by simp [Outside, hf]
    by_cases hout' : f'.Outside
    · rcases hout'.cases with hc | hl
      · exact hc
      · exact absurd (hm.control.listens hf hl) ho
    · exact absurd ((hm.control.begins hout hout').2 hf) ho
  · rw [begin_tcb]
    exact hs

theorem Course.step {opened : Prop} (h : Course opened e) (ho : opened → ¬ e.Starts a)
    (hs : engineMachine.step e a = some e') : Course (opened ∨ e.Starts a) e' := by
  obtain ⟨hp, hc⟩ := h.paced_step hs
  have hk := h.kept.step hs
  have hready := h.kept.ready
  refine ⟨hk, hc, hp, hready.finLast h.last hs, hready.finSettled h.last h.settled hs, ?_⟩
  obtain ⟨w, ⟨hr, hco⟩ | ⟨hop, hl | hd⟩⟩ := h.phase
  · have hco' : e'.tcb.state = .closed ∨ opened ∨ e.Starts a := by
      rcases hco with hcl | hop
      · by_cases hx : a.Opens
        · exact Or.inr (Or.inr ⟨hcl, hx⟩)
        · exact Or.inl (h.kept.stays_closed hcl hx hs)
      · exact Or.inr (Or.inl hop)
    by_cases hout : e'.Outside
    · rcases hr.stays h.kept hs hout with hr' | hr'
      · exact ⟨_, Or.inl ⟨hr', hco'⟩⟩
      · exact ⟨[], Or.inl ⟨hr', hco'⟩⟩
    · have hop : opened ∨ e.Starts a := hco'.resolve_left fun hcl => hout (by simp [Outside, hcl])
      rcases (h.kept.staged hs hr.begin).linked_or_ended with ⟨hx, -⟩ | ⟨hx, hi⟩
      · exact absurd hx hout
      · exact ⟨_, Or.inr ⟨hop, Or.inl ⟨hx, hi⟩⟩⟩
  · have h0 := hl.begin (a := a) hready.coherent
    rcases (h.kept.staged hs h0).ends with ⟨hx, -⟩ | hr' | hd' | hl'
    · exact hx.elim
    · exact ⟨[], Or.inl ⟨hr', Or.inr (Or.inl hop)⟩⟩
    · exact ⟨[], Or.inr ⟨Or.inl hop, Or.inr hd'⟩⟩
    · exact ⟨_, Or.inr ⟨Or.inl hop, Or.inl hl'⟩⟩
  · have hd' := hd.step h.kept (fun hx => ho hop ⟨hd.closed, hx⟩) hs
    exact ⟨[], Or.inr ⟨Or.inl hop, Or.inr hd'⟩⟩

theorem course_init (args : EngineArgs) (sched : ManualScheduler Callback) (rand : Nat)
    (hs : sched.heap = []) (h1 : 1 ≤ args.sndMss) (h2 : args.sndMss ≤ 65535) :
    Course False (init args sched rand) := by
  refine ⟨kept_init args sched rand hs h1, h2, ?_, finLast_of_unsent rfl, ?_, [],
    Or.inl ⟨resting_init args sched rand, Or.inl rfl⟩⟩
  · constructor
    · exact fun hr => absurd rfl hr
    · exact fun hq => absurd rfl hq
    · intro hc
      cases hc
    · exact Nat.zero_lt_succ _
  · intro hc
    cases hc

/-! ## What that means for the timers -/

/-- Nothing waits without a timer. TIME-WAIT has no retransmission timer, so nothing may be left
in flight there that goes once round the number circle. -/
structure Watched (e : TcpEngine) : Prop where
  queued : (e.tcb.state = .timeWait → (unacked e.buf.retx).length < 4294967296) →
    (e.buf.retx ≠ [] ↔ ∃ h ∈ e.tm.sched.live, h.cb = .onRto)
  stuck : e.tcb.state ∈ [.established, .closeWait] → e.Waiting →
    e.buf.retx ≠ [] ∨ ∃ h ∈ e.tm.sched.live, h.cb = .onPersist
  lingers : e.tcb.state = .timeWait → ∃ h ∈ e.tm.sched.live, h.cb = .onTimeWait
  single : ∀ h ∈ e.tm.sched.live, e.tm.slot h.cb = some h.id ∧
    ∀ h' ∈ e.tm.sched.live, h'.cb = h.cb → h' = h

/-- With nothing in flight the whole window is usable. -/
theorem SendInv.usable (h : SendInv w k e) (hw : e.tcb.sndWnd < 65536) (hq : e.buf.retx = []) :
    e.usableWindow = e.tcb.sndWnd := by
  have hn := h.nxt
  rw [hq, unacked_nil, List.length_nil, Nat.add_zero] at hn
  rw [usableWindow, h.una, hn, add_seqAt]
  refine s32_eq_of_congr ?_ (by omega) (by omega)
  simp only [sub_def, seqAt]
  omega

/-- With SND.UNA at SND.NXT what is in flight goes round the circle, or there is none of it. -/
theorem SendInv.retx_nil (h : SendInv w k e) (hq : (unacked e.buf.retx).length < 4294967296)
    (hu : e.tcb.sndUna = e.tcb.sndNxt) : e.buf.retx = [] := by
  rw [h.una, h.nxt] at hu
  simp only [seqAt] at hu
  exact h.tiles.eq_nil (by omega)

theorem Course.stuck {opened : Prop} (h : Course opened e)
    (hs : e.tcb.state ∈ [.established, .closeWait]) (hw : e.Waiting) :
    e.buf.retx ≠ [] ∨ e.tm.persistTimer ≠ none := by
  by_cases hq : e.buf.retx = []
  · apply Or.inr
    have hout : ¬ e.Outside := by
      intro ho
      rcases List.mem_pair.mp hs with hs | hs <;> simp [Outside, hs] at ho
    obtain ⟨w, ⟨hr, -⟩ | ⟨-, ⟨-, k, hk⟩ | hd⟩⟩ := h.phase
    · exact absurd hr.outside hout
    · have hc : e.CanSend := (List.mem_pair.mp hs).imp id Or.inl
      have hdr := h.kept.ready.drained hc hw
      split at hdr
      · exact hdr
      · next h0 =>
        exfalso
        rcases hdr with hu | ⟨-, hx⟩
        · rw [hk.usable h.paced.window hq] at hu
          omega
        · exact hx.2.1 hq
    · exact absurd (by simp [Outside, hd.closed]) hout
  · exact Or.inl hq

theorem Course.watched {opened : Prop} (h : Course opened e) : Watched e := by
  have hslots := h.kept.timers.timely
  constructor
  · intro hn
    rw [← hslots.slot_ne_none_iff .onRto]
    by_cases hst : e.tcb.state = .timeWait
    · have hc := h.kept.ready.coherent
      have hack : e.fin.finAcked = true := hc.complete (by simp [ctl, hst])
      have huna : e.tcb.sndUna = e.tcb.sndNxt := by
        rw [h.settled hack, (h.last (hc.acked hack)).1]
      obtain ⟨w, ⟨hr, -⟩ | ⟨-, ⟨-, k, hk⟩ | hd⟩⟩ := h.phase
      · have := hr.outside
        simp [Outside, hst] at this
      · have hq := hk.retx_nil (hn hst) huna
        exact ⟨fun hx => absurd hq hx, h.paced.armed⟩
      · rw [hd.closed] at hst
        cases hst
    · exact ⟨fun hq => h.paced.kept hq hst, h.paced.armed⟩
  · intro hs hw
    refine (h.stuck hs hw).imp id fun hp => ?_
    exact (hslots.slot_ne_none_iff .onPersist).mp hp
  · intro hs
    exact (hslots.slot_ne_none_iff .onTimeWait).mp (h.paced.lingers hs)
  · intro g hg
    exact ⟨hslots.held g hg, fun g' hg' hcb => hslots.unique hg' hg hcb⟩

end TcpEngine

/-- How often a run opens the engine from CLOSED. -/
def startsIn : TcpEngine → List Action → Nat
  | _, [] => 0
  | e, a :: as =>
    (if e.Starts a then 1 else 0) + ((engineMachine.step e a).map fun f => startsIn f as).getD 0

open TcpEngine in
theorem course_run {opened : Prop} {e e' : TcpEngine} (h : Course opened e) (as : List Action)
    (h0 : opened → startsIn e as = 0) (h1 : startsIn e as ≤ 1)
    (hr : engineMachine.run e as = some e') : ∃ q : Prop, Course q e' := by
  induction as generalizing opened e with
  | nil =>
    obtain rfl := Option.some.inj hr
    exact ⟨opened, h⟩
  | cons a as ih =>
    rw [Lib.Machine.run_cons] at hr
    obtain ⟨f, hf, hr⟩ := Option.bind_eq_some_iff.mp hr
    have hcount : startsIn e (a :: as) = (if e.Starts a then 1 else 0) + startsIn f as := by
      rw [startsIn, hf]
      rfl
    have ho : opened → ¬ e.Starts a := by
      intro hop hx
      have := h0 hop
      rw [hcount, if_pos hx] at this
      omega
    refine ih (h.step ho hf) ?_ ?_ hr
    · rintro (hop | hx)
      · have := h0 hop
        omega
      · rw [hcount, if_pos hx] at h1
        omega
    · omega

open TcpEngine in
/-- An engine opened once never stalls, whatever is tried on it while it is open. -/
theorem never_stalls (args : EngineArgs) (sched : ManualScheduler Callback) (rand : Nat)
    (as : List Action) (e : TcpEngine) (hs : sched.heap = []) (hm1 : 1 ≤ args.sndMss)
    (hm2 : args.sndMss ≤ 65535) (ho : startsIn (init args sched rand) as ≤ 1)
    (hr : engineMachine.run (init args sched rand) as = some e) : Watched e := by
  obtain ⟨q, hc⟩ := course_run (course_init args sched rand hs hm1 hm2) as (fun hf => hf.elim) ho hr
  exact hc.watched

open TcpEngine

/-- The handshake with a peer that offers no window, an open that is refused, and a SEND. -/
def heldRun : List Action :=
  closedHandshake ++ [.openCall true none none none, .send [7] true false none]

/-- The window opens, the user closes, and the peer acknowledges all and closes as well. -/
def lingerRun : List Action :=
  heldRun ++
    [.segment [0, 80, 3, 232, 0, 0, 3, 233, 0, 0, 0, 101, 80, 16, 255, 255, 0, 0, 0, 0], .close,
      .segment [0, 80, 3, 232, 0, 0, 3, 233, 0, 0, 0, 103, 80, 17, 255, 255, 0, 0, 0, 0]]

/-- Behind the closed window the byte waits with a persist timer, and TIME-WAIT has its own. -/
theorem held_run_never_stalls :
    (∃ e, engineMachine.run (init openArgs {} 0) heldRun = some e ∧
      e.tcb.state = .established ∧ e.buf.appBuf = [7] ∧ e.Watched ∧
      (∃ h ∈ e.tm.sched.live, h.cb = .onPersist) ∧ ∀ h ∈ e.tm.sched.live, h.cb ≠ .onRto) ∧
    ∃ e, engineMachine.run (init openArgs {} 0) lingerRun = some e ∧
      e.tcb.state = .timeWait ∧ e.buf.retx = [] ∧ e.Watched ∧
      (∃ h ∈ e.tm.sched.live, h.cb = .onTimeWait) ∧ ∀ h ∈ e.tm.sched.live, h.cb ≠ .onRto := by
  constructor
  · have h : ((engineMachine.run (init openArgs {} 0) heldRun).map fun e =>
        (e.tcb.state, e.buf.appBuf, e.buf.retx.length)) = some (.established, [7], 0) := by
      decide +kernel
    obtain ⟨e, he, hv⟩ := Option.map_eq_some_iff.mp h
    simp only [Prod.mk.injEq] at hv
    obtain ⟨hst, hb, hq⟩ := hv
    have hq := List.length_eq_zero_iff.mp hq
    have hw : e.Watched := never_stalls openArgs {} 0 heldRun e rfl (by decide) (by decide)
      (by decide +kernel) he
    refine ⟨e, he, hst, hb, hw, ?_, fun t ht hcb => ?_⟩
    · exact (hw.stuck (by simp [hst]) (Or.inl (by simp [hb]))).resolve_left fun hn => hn hq
    · exact (hw.queued fun _ => by simp [hq]).mpr ⟨t, ht, hcb⟩ hq
  · have h : ((engineMachine.run (init openArgs {} 0) lingerRun).map fun e =>
        (e.tcb.state, e.buf.retx.length)) = some (.timeWait, 0) := by
      decide +kernel
    obtain ⟨e, he, hv⟩ := Option.map_eq_some_iff.mp h
    simp only [Prod.mk.injEq] at hv
    obtain ⟨hst, hq⟩ := hv
    have hq := List.length_eq_zero_iff.mp hq
    have hw : e.Watched := never_stalls openArgs {} 0 lingerRun e rfl (by decide) (by decide)
      (by decide +kernel) he
    refine ⟨e, he, hst, hq, hw, hw.lingers hst, fun t ht hcb => ?_⟩
    exact (hw.queued fun _ => by simp [hq]).mpr ⟨t, ht, hcb⟩ hq

/-- What never happens to an engine opened once within its bounds: something is queued, and no
retransmission timer is live for it. -/
def Forsaken (e : TcpEngine) : Prop :=
  e.buf.retx ≠ [] ∧ ∀ h ∈ e.tm.sched.live, h.cb ≠ .onRto

theorem oversized_mss_forsakes : ∃ e,
    engineMachine.run (init { localPort := 1000, remotePort := 80, sndMss := 65536 } {} 0)
      [.activeOpen] = some e ∧ Forsaken e := by
  have h : ((engineMachine.run
      (init { localPort := 1000, remotePort := 80, sndMss := 65536 } {} 0)
      [.activeOpen]).map fun e => (e.buf.retx.length, e.tm.sched.live.length)) = some (1, 0) := by
    decide +kernel
  obtain ⟨e, he, hv⟩ := Option.map_eq_some_iff.mp h
  simp only [Prod.mk.injEq] at hv
  refine ⟨e, he, fun hq => ?_, fun t ht => ?_⟩
  · rw [hq] at hv
    cases hv.1
  · rw [List.length_eq_zero_iff.mp hv.2] at ht
    cases ht

/-- A run without a second open starts at most once. -/
theorem startsIn_le_one {a : Action} {as : List Action} (h : ∀ b ∈ as, ¬ b.Opens)
    (e : TcpEngine) : startsIn e (a :: as) ≤ 1 := by
  have hnone : ∀ f, startsIn f as = 0 := by
    induction as with
    | nil => exact fun _ => rfl
    | cons b as ih =>
      intro f
      have hb : ¬ f.Starts b := fun hs => h b List.mem_cons_self hs.2
      rw [startsIn, if_neg hb]
      cases engineMachine.step f b with
      | none => rfl
      | some g =>
        show 0 + startsIn g as = 0
        rw [ih fun c hc => h c (List.mem_cons_of_mem _ hc)]
  rw [startsIn]
  cases engineMachine.step e a with
  | none => split <;> simp
  | some f =>
    show _ + startsIn f as ≤ 1
    rw [hnone f]
    split <;> simp

/-- An MSS that does not fit its option, and a whole circle of numbers in flight in TIME-WAIT:
what is queued has no timer. -/
theorem stalls_beyond_bounds :
    (∃ e, engineMachine.run (init { localPort := 1000, remotePort := 80, sndMss := 65536 } {} 0)
      [.activeOpen] = some e ∧ Forsaken e) ∧
    ∃ as e, engineMachine.run (init closedArgs {} 0) as = some e ∧
      startsIn (init closedArgs {} 0) as ≤ 1 ∧ e.tcb.state = .timeWait ∧ Forsaken e := by
  refine ⟨oversized_mss_forsakes, ?_⟩
  obtain ⟨as, e, he, ho, hst, hq, hrt⟩ := time_wait_reached
  have hk : e.Kept := engineMachine.invariant_run (I := Kept) (fun f a f' h hs => h.step hs)
    (kept_init closedArgs {} 0 rfl (by decide)) he
  refine ⟨_, e, he, startsIn_le_one ho _, hst, hq, fun t ht hcb => ?_⟩
  exact (hk.timers.timely.slot_ne_none_iff .onRto).mpr ⟨t, ht, hcb⟩ hrt

end HdlPlayground.Tcp

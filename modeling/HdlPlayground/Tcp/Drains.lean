import HdlPlayground.Tcp.Arrivals

/-!
# Every entry point ends drained

The close bookkeeping agrees with the connection state after every move. Whether
something could still be sent is settled only at the end of an entry point: what
a handler leaves unsent is sent by the `_send_pending` it ends with, and the
others do not touch what the test depends on.
-/
namespace HdlPlayground.Tcp

/-- The octets a SEND is called with. -/
def Action.payload : Action → List UInt8
  | .send data _ _ _ => data
  | _ => []

namespace TcpEngine

variable {a : Action} {e e' : TcpEngine}

/-! ## The close bookkeeping and the state -/

/-- States after our FIN was sent. -/
abbrev FinStates : List ConnState := [.finWait1, .finWait2, .closing, .lastAck, .timeWait]

structure Coherent (c : Ctl) : Prop where
  sent : c.2.finSent = true ↔ c.1 ∈ FinStates
  acked : c.2.finAcked = true → c.2.finSent = true
  complete : c.1 ∈ [.finWait2, .timeWait] → c.2.finAcked = true
  idle : c.1 ∈ [.closed, .listen, .synSent] → c.2.finPending = false
  pending : c.2.finSent = true → c.2.finPending = true

/-- Every change the moves allow keeps the flags and the state together. -/
theorem Coherent.control {c c' : Ctl} (h : Control a c c') (hc : Coherent c) : Coherent c' := by
  obtain ⟨h1, h2, h3, h4, h5⟩ := hc
  cases h with
  | stay => exact ⟨h1, h2, h3, h4, h5⟩
  | connect s f ho _ =>
    have hs : s ∉ FinStates := by rcases ho with ⟨rfl, -⟩ | rfl <;> simp
    have hi : s ∈ [.closed, .listen, .synSent] := by rcases ho with ⟨rfl, -⟩ | rfl <;> simp
    have hf : f.finSent = false := by simpa [hs] using h1
    exact ⟨by simp [hf], h2, by simp, fun _ => h4 hi, h5⟩
  | listen f ho =>
    have hf : f.finSent = false := by simpa using h1
    exact ⟨by simp [hf], h2, by simp, fun _ => h4 (by simp), h5⟩
  | requestFin s f hs =>
    refine ⟨h1, h2, h3, fun hi => ?_, fun _ => rfl⟩
    rcases List.mem_cons.mp hs with rfl | hs
    · simp at hi
    · simp only [List.mem_cons, List.not_mem_nil, or_false] at hs hi
      rcases hs with rfl | rfl <;> simp at hi
  | sendFin s s' f n hp hf hs =>
    dsimp only at h1 h2 h3 h4 h5
    have hnot : s ∉ FinStates := fun hm => by rw [h1.mpr hm] at hf; cases hf
    have hidle : s ∉ [.closed, .listen, .synSent] := fun hm => by rw [h4 hm] at hp; cases hp
    have hacked : f.finAcked = false := by
      by_contra ha
      rw [h2 (by simpa using ha)] at hf
      cases hf
    obtain ⟨-, rfl⟩ | ⟨-, rfl⟩ | ⟨-, rfl⟩ | ⟨hs, -⟩ := hs
    · exact ⟨by simp, by simp, by simp, by simp, fun _ => hp⟩
    · exact ⟨by simp, by simp, by simp, by simp, fun _ => hp⟩
    · exact ⟨by simp, by simp, by simp, by simp, fun _ => hp⟩
    · cases s <;> simp_all
  | processAck s f b _ =>
    refine ⟨h1, fun ha => ?_, fun hs => ?_, h4, h5⟩
    · simp only [Bool.or_eq_true, Bool.and_eq_true] at ha
      exact ha.elim h2 And.left
    · have := h3 hs
      simp_all
  | acceptSyn f =>
    have hf : f.finSent = false := by simpa using h1
    exact ⟨by simp [hf], h2, by simp, by simp, h5⟩
  | synEstablished f b =>
    have hf : f.finSent = false := by simpa using h1
    refine ⟨by simp [hf], fun ha => ?_, by simp, by simp, h5⟩
    simpa [hf] using h2 (by simpa [hf] using ha)
  | synReceived f b =>
    have hf : f.finSent = false := by simpa using h1
    refine ⟨by simp [hf], fun ha => ?_, by simp, by simp, h5⟩
    simpa [hf] using h2 (by simpa [hf] using ha)
  | deferFin => exact ⟨h1, h2, h3, h4, h5⟩
  | completeOpen f b =>
    have hf : f.finSent = false := by simpa using h1
    refine ⟨by simp [hf], fun ha => ?_, by simp, by simp, h5⟩
    simpa [hf] using h2 (by simpa [hf] using ha)
  | finAckedWait f ha => exact ⟨by simpa using h1, h2, fun _ => ha, by simp, h5⟩
  | finAckedTimeWait f ha => exact ⟨by simpa using h1, h2, fun _ => ha, by simp, h5⟩
  | processFin s s' f hs hst =>
    obtain ⟨rfl, rfl⟩ | ⟨rfl, rfl⟩ | ⟨rfl, rfl⟩ | ⟨-, rfl⟩ := hst
    · exact ⟨by simpa using h1, h2, by simp, by simp, h5⟩
    · exact ⟨by simpa using h1, h2, by simp, by simp, h5⟩
    · exact ⟨by simpa using h1, h2, fun _ => h3 (by simp), by simp, h5⟩
    · exact ⟨h1, h2, h3, h4, h5⟩
  | listenAgain f hp => exact ⟨by simp [CloseState.cleared], by simp [CloseState.cleared],
      by simp, fun _ => rfl, by simp [CloseState.cleared]⟩
  | close s f _ => exact ⟨by simp [CloseState.cleared], by simp [CloseState.cleared],
      by simp, fun _ => rfl, by simp [CloseState.cleared]⟩

theorem Coherent.move (h : Move a e e') (hc : Coherent e.ctl) : Coherent e'.ctl :=
  hc.control h.control

@[simp] theorem bufferData_tcb (data : List UInt8) (push : Bool) :
    (e.bufferData data push).tcb = e.tcb := rfl
@[simp] theorem bufferData_fin (data : List UInt8) (push : Bool) :
    (e.bufferData data push).fin = e.fin := rfl

@[simp] theorem begin_tcb : (e.begin a).tcb = e.tcb := by
  unfold begin
  split
  · split
    · simp [enter]
    · rfl
  · rfl
@[simp] theorem begin_fin : (e.begin a).fin = e.fin := by
  unfold begin
  split
  · split
    · simp [enter]
    · rfl
  · rfl

/-- An entry point begins with the state and the flags as they are. -/
theorem begin_ctl : (e.begin a).ctl = e.ctl := by simp [ctl]

/-- What an entry point adds to the buffer before anything else. -/
def buffered (e : TcpEngine) (a : Action) : List UInt8 := if e.AcceptsSend then a.payload else []

theorem begin_eq (a : Action) : ∃ conf psh, e.begin a =
    { e with conf := conf, psh := psh, buf := { e.buf with appBuf := e.buf.appBuf ++ e.buffered a },
             env := e.enter.env } ∧ conf.cfgMss = e.conf.cfgMss := by
  cases a with
  | send data push urgent t =>
    by_cases ha : e.AcceptsSend
    · refine ⟨((e.enter.setUserTimeout t).bufferData data push).conf,
        ((e.enter.setUserTimeout t).bufferData data push).psh, ?_, ?_⟩
      · simp only [begin, buffered, if_pos ha, Action.payload]
        cases t <;> rfl
      · cases t <;> rfl
    · exact ⟨e.conf, e.psh, by simp [begin, buffered, ha, enter], rfl⟩
  | _ => exact ⟨e.conf, e.psh, by simp [begin, buffered, Action.payload, enter], rfl⟩

/-- Nothing has been logged when an entry point begins. -/
theorem begin_log (a : Action) : (e.begin a).env.log = e.env.log := by
  obtain ⟨conf, psh, hb, -⟩ := begin_eq (e := e) a
  rw [hb]
  rfl

/-- No timer has been touched when an entry point begins. -/
theorem begin_tm (a : Action) : (e.begin a).tm = e.tm := by
  obtain ⟨conf, psh, hb, -⟩ := begin_eq (e := e) a
  rw [hb]

theorem coherent_step (hb : e.Blocked) (hc : Coherent e.ctl)
    (h : engineMachine.step e a = some e') : Coherent e'.ctl :=
  (step_path hb h).preserves (fun _ _ => Coherent.move) (by rwa [begin_ctl])

/-! ## A hung entry point stays hung -/

/-- The receive path has no loop that could hang. -/
theorem Receives.hung (h : e.Receives a e') : e'.env.hung = e.env.hung := by
  cases h with
  | takeInOrder =>
    unfold TcpEngine.takeInOrder; dsimp only; split <;> simp [markSeen, advanceRcvNxt]
  | mergeEntry =>
    unfold TcpEngine.mergeEntry
    dsimp only
    split
    · rfl
    · split <;> simp [markSeen, advanceRcvNxt]

/-- A connection that is blocked has nothing left to send when it is closed. -/
theorem enterClosed_hung (h : e.Blocked) : e.enterClosed.env.hung = e.env.hung := by
  obtain ⟨tm, h⟩ := enterClosed_closeDown h
  simp [h, closeDown]

theorem giveUp_hung (msg : String) (hb : e.Blocked) :
    (e.giveUp msg).env.hung = e.env.hung := by
  obtain ⟨f, hf, hfb, h⟩ := giveUp_closes msg hb
  rw [h, enterClosed_hung hfb]
  obtain rfl | rfl := hf <;> simp [sendRst]

theorem processFin_hung : e.processFin.env.hung = e.env.hung := by
  obtain ⟨st, -, h⟩ | ⟨-, h⟩ := processFin_cases (e := e) <;> simp [h]

theorem takeSyn_hung (seg : TcpSegment) : (e.takeSyn seg).env.hung = e.env.hung := by
  obtain ⟨m, -, -, h⟩ := takeSyn_cases (e := e) seg
  rw [h]
  dsimp only
  split <;> simp

theorem storeOoo_hung (seq : Int) (data : List UInt8) (flags : Flags) :
    (e.storeOoo seq data flags).env.hung = e.env.hung := by
  unfold storeOoo; split <;> rfl

/-- No move gets out of a loop that does not end. -/
theorem Move.hung (h : Move a e e') (hh : e.env.hung = true) : e'.env.hung = true := by
  rw [← hh]
  cases h with
  | hang => exact hh.symm
  | receive _ hr => exact hr.hung
  | connect ho _ => rw [connect_eq (ho.imp And.left id)]; simp [dialled]
  | startListening => simp [TcpEngine.startListening]
  | sendSynAck => simp [TcpEngine.sendSynAck]
  | sendKeepaliveProbe => simp [TcpEngine.sendKeepaliveProbe]
  | probe h => simp [TcpEngine.sendProbe]
  | acceptSyn seg _ hs =>
    obtain ⟨m, -, -, h⟩ := acceptSyn_eq (e := e) seg hs
    rw [h]; simp [listenTaken]
  | synEstablished seg => simp [takeSyn_hung]
  | synReceived seg => simp [becomeSynReceived, takeSyn_hung]
  | storeSynData seg => exact storeOoo_hung _ _ _
  | storeOoo seg => exact storeOoo_hung _ _ _
  | completeOpen seg => simp [openCompleted]
  | finAckedTimeWait hs => rw [enterTimeWait_eq (by simp [CanSend, hs])]; simp
  | processFin => exact processFin_hung
  | listenAgain hs hp => rw [doReset_listen hs hp]; simp [restorePort]
  | close _ hb => exact enterClosed_hung hb
  | abort _ hb => rw [enterClosed_hung (sendRst_blocked hb)]; simp [sendRst]
  | giveUp msg _ hb => exact giveUp_hung msg hb
  | giveUpRto h c msg _ hl hcb hr hb =>
    cases c with
    | true =>
      have hc : (e.fire h).countRto.Blocked := (hb.fire h).of_view rfl
      simp [giveUp_hung msg hc]
    | false => simp [giveUp_hung msg (hb.fire h)]
  | timeWaitExpires h _ hl hcb hb => rw [enterClosed_hung (hb.fire h)]; simp
  | _ => first | rfl | simp

/-- So an entry point that returns has been in no such loop. -/
theorem Path.hung (h : Path a e e') (hh : e'.env.hung = false) : e.env.hung = false := by
  by_contra hc
  have := h.preserves (P := fun f => f.env.hung = true) (fun _ _ hm => hm.hung) (by simpa using hc)
  simp [this] at hh

/-! ## Segments -/

/-- Only three states can have something left to send. -/
theorem drained_of_state {s : ConnState} (h : e.tcb.state = s)
    (hs : s ∉ [.established, .closeWait, .synReceived]) : e.Drained := by
  apply drained_of_not_canSend
  rintro (hc | hc | ⟨hc, -⟩) <;> rw [h] at hc <;> simp [hc] at hs

/-- An ACK leaves nothing more to send. -/
theorem Drained.sendAck (h : e.Drained) : e.sendAck.Drained :=
  h.of_view (by simp [sendView, usableWindow, clearAckTimer])

/-- Only ESTABLISHED can still send after a FIN has been consumed, in CLOSE-WAIT. -/
theorem Drained.processFin (h : e.Drained) : e.processFin.Drained := by
  have ha : e.consumeFin.sendAck.Drained :=
    (h.of_view (by simp [sendView, usableWindow]) : e.consumeFin.Drained).sendAck
  obtain ⟨st, hst, hf⟩ | ⟨-, hf⟩ := processFin_cases (e := e)
  · obtain ⟨he, rfl⟩ | ⟨-, rfl⟩ | ⟨-, rfl⟩ := hst
    · rw [hf]
      intro _ hw
      have := ha (Or.inl (by simpa using he)) (by simpa [Waiting, FinDue] using hw)
      simpa [usableWindow, NagleHolds, chunkLen] using this
    · exact drained_of_state (s := .closing) (by rw [hf]; simp) (by simp)
    · have hv : (e.consumeFin.sendAck.setState e.tcb.state) = e.consumeFin.sendAck := by
        rw [setState, if_pos (by simp)]
      rw [hf, hv]
      exact ha
  · exact drained_of_state (s := .timeWait) (by rw [hf]; simp) (by simp)

/-- Nor does the FIN of the peer. -/
theorem finCheck_drained (seg : TcpSegment) (h : e.Drained) :
    (e.finCheck seg).checkPendingFin.Drained := by
  have hcheck {f : TcpEngine} (hd : f.Drained) : f.checkPendingFin.Drained := by
    unfold checkPendingFin
    split
    · exact hd.processFin
    · exact hd
  unfold finCheck
  dsimp only
  split_ifs with hfin hq hgt
  · rw [checkPendingFin, if_neg (by simp [processFin_pendingFin])]
    exact h.processFin
  · exact hcheck (h.of_view rfl)
  · exact hcheck h
  · exact hcheck h

/-- `_send_pending` comes before the text of the segment, and that leaves the send path alone. -/
theorem textAndFin_drained {seg : TcpSegment} (hc : a.Carries seg) (hsyn : seg.syn = false)
    (hs : e.tcb.state ∈ OpenStates) (hh : (e.textAndFin seg).env.hung = false) :
    (e.textAndFin seg).Drained := by
  have hs1 : (if seg.payload ≠ [] ∧ e.tcb.state ∈ DataStates then e.recvData seg
      else e).tcb.state ∈ OpenStates := by
    split
    · rwa [(recvData_frame e seg).state]
    · exact hs
  unfold textAndFin at hh ⊢
  dsimp only at hh ⊢
  generalize (if seg.payload ≠ [] ∧ e.tcb.state ∈ DataStates then e.recvData seg else e) = f
    at hs1 hh ⊢
  have hs2 := sendPending_open hs1
  have hp : Path a f.sendPending (f.sendPending.finCheck seg).checkPendingFin :=
    finCheck_path hc hs2 hsyn
  exact finCheck_drained seg (drained_sendPending (hp.hung hh))

/-- What was buffered in SYN-RECEIVED goes out with the ACK that completes the open. -/
theorem synReceivedAck_drained {seg : TcpSegment} (hc : a.Carries seg) (hsyn : seg.syn = false)
    (h : e.Drained) (hh : (e.synReceivedAck seg).env.hung = false) :
    (e.synReceivedAck seg).Drained := by
  unfold synReceivedAck at hh ⊢
  dsimp only at hh ⊢
  split
  · next hack =>
    rw [if_pos hack] at hh
    refine textAndFin_drained hc hsyn (sendPending_open ?_) hh
    rw [(mergeReassembly_frame _).state]
    simp
  · exact h.of_view (by simp [sendView, usableWindow])

/-- What an acknowledgement or a new window releases goes out. -/
theorem establishedAck_drained {seg : TcpSegment} (hc : a.Carries seg) (hsyn : seg.syn = false)
    (hs : e.tcb.state ∈ OpenStates) (h : e.Drained)
    (hh : (e.establishedAck seg).env.hung = false) : (e.establishedAck seg).Drained := by
  unfold establishedAck at hh ⊢
  split
  · exact h.sendAck
  next hnxt =>
  rw [if_neg hnxt] at hh
  dsimp only at hh ⊢
  have hs1 : (if seqGt seg.ack e.tcb.sndUna then e.processAck seg.ack else e).tcb.state ∈
      OpenStates := by
    split
    · simpa using hs
    · exact hs
  generalize (if seqGt seg.ack e.tcb.sndUna then e.processAck seg.ack else e) = f at hs1 hh ⊢
  have hs2 := windowUpdate_open seg hs1
  generalize f.windowUpdate seg = g at hs2 hh ⊢
  split
  · next hw =>
    rw [if_pos hw] at hh
    exact textAndFin_drained hc hsyn (by simp) hh
  · next hw =>
    rw [if_neg hw] at hh
    split
    · next hcl =>
      refine drained_of_state (s := .timeWait) ?_ (by simp)
      rw [enterTimeWait_eq (by simp [CanSend, hcl.1])]
      simp
    · next hcl =>
      rw [if_neg hcl] at hh
      split
      · exact drained_of_state (s := .closed) (by simp) (by simp)
      · next hl =>
        rw [if_neg hl] at hh
        exact textAndFin_drained hc hsyn hs2 hh

/-- A reset leads to a state with nothing to send. -/
theorem doReset_drained : e.doReset.Drained := by
  by_cases hl : e.tcb.state = .synReceived ∧ e.fin.passive = true
  · refine drained_of_state (s := .listen) ?_ (by simp)
    rw [doReset_listen hl.1 hl.2]
    simp [restorePort]
  · obtain ⟨msg, -, hr⟩ := doReset_close hl
    exact drained_of_state (s := .closed) (by rw [hr]; simp) (by simp)

/-- So in every synchronized state a segment leaves the engine drained. -/
theorem handleSynchronized_drained {seg : TcpSegment} (hc : a.Carries seg)
    (hs : e.tcb.state ∈ .timeWait :: .synReceived :: OpenStates) (h : e.Drained)
    (hh : (e.handleSynchronized seg).env.hung = false) : (e.handleSynchronized seg).Drained := by
  unfold handleSynchronized at hh ⊢
  split_ifs at hh ⊢ with htw hacc hr hr hq hsyn hack hsr
  · unfold timeWaitArrives
    split_ifs
    · exact drained_of_state (s := .closed) (by simp) (by simp)
    · exact h.sendAck
    · exact drained_of_state (s := .timeWait) (by simpa [restartTimeWait] using htw) (by simp)
    · exact h.sendAck
  · exact h
  · exact h.sendAck
  · exact doReset_drained
  · exact h.sendAck
  · exact h.sendAck
  · exact h
  · exact synReceivedAck_drained hc (by simpa using hsyn) h hh
  · refine establishedAck_drained hc (by simpa using hsyn) ?_ h hh
    rw [List.mem_cons, List.mem_cons] at hs
    exact (hs.resolve_left htw).resolve_left hsr

theorem takeSyn_finPending (seg : TcpSegment) :
    (e.takeSyn seg).fin.finPending = e.fin.finPending := by
  obtain ⟨b, h⟩ := takeSyn_fin (e := e) seg
  rw [h]

/-- In SYN-RECEIVED only a close that waits can be left over. -/
theorem drained_of_finPending (hs : e.tcb.state = .synReceived) (h : e.fin.finPending = false) :
    e.Drained :=
  drained_of_not_canSend (by simp [CanSend, hs, h])

/-- A crossing SYN releases nothing. -/
theorem simultaneousOpen_drained (seg : TcpSegment) (h : e.fin.finPending = false) :
    (e.simultaneousOpen seg).Drained := by
  have hs : e.becomeSynReceived.tcb.state = .synReceived := by simp [becomeSynReceived]
  have hp : e.becomeSynReceived.fin.finPending = false := by simpa [becomeSynReceived] using h
  unfold simultaneousOpen
  dsimp only
  generalize e.becomeSynReceived = f at hs hp
  have h2 : RecvFrame f (if seg.payload ≠ [] then
      f.storeOoo (add seg.seq 1) seg.payload { seg.flags with fin := false } else f) := by
    split
    · exact storeOoo_frame _ _ _ _
    · exact .refl f
  have hs2 := h2.state.trans hs
  have hp2 : (if seg.payload ≠ [] then
      f.storeOoo (add seg.seq 1) seg.payload { seg.flags with fin := false }
      else f).fin.finPending = false := by rw [h2.fin, hp]
  generalize (if seg.payload ≠ [] then
    f.storeOoo (add seg.seq 1) seg.payload { seg.flags with fin := false } else f) = g at hs2 hp2
  split
  · exact drained_of_finPending (by simpa [sendSynAck, deferFin] using hs2)
      (by simpa [sendSynAck, deferFin] using hp2)
  · exact drained_of_finPending (by simpa [sendSynAck] using hs2) (by simpa [sendSynAck] using hp2)

/-- The SYN-ACK releases what was buffered in SYN-SENT. -/
theorem handleSynSent_drained {seg : TcpSegment} (hcs : a.Carries seg.synTaken)
    (hs : e.tcb.state = .synSent) (hp : e.fin.finPending = false)
    (hh : (e.handleSynSent seg).env.hung = false) : (e.handleSynSent seg).Drained := by
  have hd : e.Drained := drained_of_state hs (by simp)
  unfold handleSynSent at hh ⊢
  dsimp only at hh ⊢
  split_ifs at hh ⊢ with h1 h2 h3 h4 h5 h6
  · exact hd
  · exact hd.of_view (by simp [sendView, usableWindow])
  · exact drained_of_state (s := .closed) (by simp) (by simp)
  · exact hd
  · exact hd
  · unfold synSentEstablished at hh ⊢
    dsimp only at hh ⊢
    have hs1 : ((e.takeSyn seg).setState .established).sendAck.tcb.state ∈ OpenStates := by simp
    generalize ((e.takeSyn seg).setState .established).sendAck = f at hs1 hh ⊢
    split_ifs at hh ⊢ with hpf
    · have hs2 := List.mem_cons_of_mem .timeWait (List.mem_cons_of_mem .synReceived
        (sendPending_open hs1))
      have hpath : Path a f.sendPending (f.sendPending.handleSynchronized seg.synTaken) := by
        refine handleSynchronized_path hcs hs2 fun hr => ?_
        have hr' : seg.rst = true := hr
        exact absurd hr' h3
      exact handleSynchronized_drained hcs hs2 (drained_sendPending (hpath.hung hh)) hh
    · exact drained_sendPending hh
  · exact simultaneousOpen_drained seg (by rw [takeSyn_finPending, hp])

/-- Every segment leaves the engine drained. -/
theorem handle_drained {seg : TcpSegment} (hca : a.Carries seg) (hcs : a.Carries seg.synTaken)
    (hc : Coherent e.ctl) (h : e.Drained) (hh : (e.handle seg).env.hung = false) :
    (e.handle seg).Drained := by
  rcases e.state_cases with hs | hs | hs | hs
  · rw [handle_closed seg hs]
    unfold handleClosed
    split_ifs
    · exact h
    · exact h.of_view (by simp [sendView, usableWindow])
    · exact h.of_view (by simp [sendView, usableWindow])
  · rw [handle_listen seg hs]
    unfold handleListen
    split_ifs
    · exact h
    · exact h.of_view (by simp [sendView, usableWindow])
    · exact h
    · exact h
    · obtain ⟨m, -, -, hm⟩ := acceptSyn_eq (e := e) seg hs
      have hp : e.fin.finPending = false := hc.idle (by simp [ctl, hs])
      rw [hm]
      exact drained_of_finPending (by simp [listenTaken, listenTcb])
        (by simpa [listenTaken] using hp)
  · rw [handle_synSent seg hs] at hh ⊢
    exact handleSynSent_drained hcs hs (hc.idle (by simp [ctl, hs])) hh
  · rw [handle_synchronized seg hs] at hh ⊢
    exact handleSynchronized_drained hca hs h hh

theorem onSegment_drained {data : List UInt8} (hc : Coherent e.ctl) (h : e.Drained)
    (hh : (e.onSegment data).env.hung = false) : (e.onSegment data).Drained := by
  cases hp : TcpSegment.parse data with
  | error msg =>
    rw [onSegment, hp]
    exact h.of_view rfl
  | ok seg =>
    have hca : Action.Carries (.segment data) seg := ⟨data, seg, rfl, hp, Or.inl rfl⟩
    have hcs : Action.Carries (.segment data) seg.synTaken := ⟨data, seg, rfl, hp, Or.inr rfl⟩
    by_cases haddr : e.Addressed seg
    · rw [onSegment_handle hp haddr] at hh ⊢
      refine handle_drained hca hcs ?_ (h.of_view heard_sendView) hh
      rw [heard_ctl]
      exact hc
    · rw [onSegment_ignored hp haddr]
      exact h

/-! ## User calls -/

/-- An open has nothing to send but its SYN. -/
theorem activeOpen_drained (h : e.Drained) : e.activeOpen.Drained := by
  unfold activeOpen
  split
  · exact h.of_view rfl
  · next hs =>
    rw [connect_eq (by tauto)]
    exact drained_of_state (s := .synSent) (by simp [dialled]) (by simp)

theorem passiveOpen_drained (h : e.Drained) : e.passiveOpen.Drained := by
  unfold passiveOpen
  split
  · exact h.of_view rfl
  · exact drained_of_state (s := .listen) (by simp [startListening]) (by simp)

theorem openCall_drained (active : Bool) (r l : Option Nat) (t : Option ℚ) (h : e.Drained) :
    (e.openCall active r l t).Drained := by
  have hd : ((e.setPorts r l).setUserTimeout t).Drained := by
    cases t <;> exact h.of_view rfl
  unfold openCall
  dsimp only
  split
  · exact activeOpen_drained hd
  · exact passiveOpen_drained hd

/-- A SEND tries to send at once. -/
theorem sendQueued_drained (data : List UInt8) (urgent : Bool)
    (h : e.tcb.state ∉ [.established, .closeWait] → e.Drained)
    (hh : (e.sendQueued data urgent).env.hung = false) : (e.sendQueued data urgent).Drained := by
  unfold sendQueued at hh ⊢
  dsimp only at hh ⊢
  have hd : (if urgent && !data.isEmpty then e.setSndUp else e).tcb.state ∉
      [.established, .closeWait] →
      (if urgent && !data.isEmpty then e.setSndUp else e).Drained := by
    split
    · exact fun hn => (h hn).of_view rfl
    · exact h
  generalize (if urgent && !data.isEmpty then e.setSndUp else e) = f at hd hh ⊢
  split_ifs at hh ⊢ with hs
  · exact drained_sendPending hh
  · exact hd (by simpa using hs)

theorem sendBuffered_drained (data : List UInt8) (urgent : Bool) (ha : e.AcceptsSend)
    (hh : (e.sendBuffered data urgent).env.hung = false) :
    (e.sendBuffered data urgent).Drained := by
  have hn {f : TcpEngine} (hf : f.AcceptsSend) (hs : f.tcb.state ∉ [.established, .closeWait]) :
      f.Drained := by
    apply drained_of_not_canSend
    rintro (hc | hc | ⟨-, hc, -⟩)
    · simp [hc] at hs
    · simp [hc] at hs
    · rw [hf.2] at hc; cases hc
  unfold sendBuffered at hh ⊢
  split_ifs at hh ⊢ with hs hr hx
  · exact (hn ha (by simp [hs])).of_view rfl
  · exact activeOpen_drained (hn ha (by simp [hs]))
  · refine sendQueued_drained data urgent (fun _ => ?_) hh
    exact activeOpen_drained (hn ha (by simp [hs]))
  · exact sendQueued_drained data urgent (hn ha) hh

theorem receive_drained (n : Nat) (h : e.Drained) : (e.receive n).Drained := by
  unfold receive
  dsimp only
  have hd : (e.drain n).Drained := h.of_view rfl
  have hf {f : TcpEngine} (data : List UInt8) (hf : f.Drained) : (f.finishReceive data).Drained :=
    hf.of_view (by simp [sendView, usableWindow])
  split_ifs
  · exact h.of_view rfl
  · exact h.of_view rfl
  · exact h.of_view rfl
  · exact hf _ ((hd.of_view rfl : (e.drain n).reopenWindow.Drained).sendAck)
  · exact hf _ hd

/-- So does a CLOSE, for its FIN. -/
theorem close_drained (h : e.Drained) (hh : e.close.env.hung = false) : e.close.Drained := by
  unfold TcpEngine.close at hh ⊢
  split_ifs at hh ⊢
  · exact h.of_view rfl
  · exact h.of_view rfl
  · exact drained_of_state (s := .closed) (by simp) (by simp)
  · exact drained_sendPending hh

theorem abort_drained (h : e.Drained) : e.abort.Drained := by
  unfold TcpEngine.abort
  split_ifs
  · exact h.of_view rfl
  · exact drained_of_state (s := .closed) (by simp) (by simp)
  · exact drained_of_state (s := .closed) (by simp) (by simp)

/-! ## Timers -/

/-- With the window closed a persist timer is enough. -/
theorem drained_closed_window (hw : e.tcb.sndWnd = 0) (hp : e.tm.persistTimer ≠ none) :
    e.Drained := by
  intro _ _
  rwa [if_pos hw]

/-- A timeout sends again what has been sent; nothing new becomes due. -/
theorem onRto_drained {h : TimerHandle Callback} (hd : e.Drained) (hcb : h.cb = .onRto) :
    (e.popTimer h).onRto.Drained := by
  have hf : (e.popTimer h).forgetTimer .onRto = e.fire h := by rw [fire, hcb]
  have hfd : (e.fire h).Drained := by
    rw [← hf]
    exact hd.of_view rfl
  unfold onRto
  rw [hf]
  dsimp only
  split
  · exact hfd
  · next o rest hq =>
    split_ifs
    · exact drained_of_state (s := .closed) (by simp) (by simp)
    · exact drained_of_state (s := .closed) (by simp) (by simp)
    · apply hfd.of_view
      have : (e.fire h).countRto.tm.persistTimer = (e.fire h).tm.persistTimer := rfl
      simp only [sendView, usableWindow, retransmitHead_tcb, retransmitHead_fin,
        retransmitHead_buf, retransmitHead_conf, retransmitHead_persist, this]
      simp at hq
      simp [hq]

/-- With the window open what is buffered goes out; behind a closed one the timer runs again. -/
theorem onPersist_drained {h : TimerHandle Callback} (hcb : h.cb = .onPersist)
    (hh : (e.popTimer h).onPersist.env.hung = false) : (e.popTimer h).onPersist.Drained := by
  have hf : (e.popTimer h).forgetTimer .onPersist = e.fire h := by rw [fire, hcb]
  unfold onPersist at hh ⊢
  rw [hf] at hh ⊢
  dsimp only at hh ⊢
  split_ifs at hh ⊢ with hw hb hd
  · exact drained_sendPending hh
  · refine drained_closed_window ?_ (by simp [rearmPersist])
    simpa [sendProbe] using hw
  · obtain ⟨st, ht, -⟩ := sendFin_tcb (e := e.fire h)
    refine drained_closed_window ?_ (by simp [rearmPersist])
    simpa [ht] using hw
  · have hb' : (e.fire h).buf.appBuf = [] := by simpa using hb
    rintro - (h | h)
    · exact absurd hb' h
    · simp only [h.1, h.2.1] at hd
      exact absurd rfl hd

theorem onKeepalive_drained {h : TimerHandle Callback} (hd : e.Drained)
    (hcb : h.cb = .onKeepalive) :
    (e.popTimer h).onKeepalive.Drained := by
  have hf : (e.popTimer h).forgetTimer .onKeepalive = e.fire h := by rw [fire, hcb]
  have hfd : (e.fire h).Drained := by
    rw [← hf]
    exact hd.of_view rfl
  unfold onKeepalive
  rw [hf]
  dsimp only
  split_ifs
  · exact hfd
  · exact hfd.of_view (by simp [sendView, usableWindow])
  · exact drained_of_state (s := .closed) (by simp) (by simp)
  · exact hfd.of_view (by simp [sendView, usableWindow, sendKeepaliveProbe])

/-- No timer leaves anything to send. -/
theorem expire_drained {h : TimerHandle Callback} (hd : e.Drained)
    (hh : ((e.popTimer h).callback h.cb).env.hung = false) :
    ((e.popTimer h).callback h.cb).Drained := by
  cases hcb : h.cb with
  | onRto => exact onRto_drained hd hcb
  | onPersist =>
    rw [hcb] at hh
    exact onPersist_drained hcb hh
  | onDelack =>
    have hfd : ((e.popTimer h).forgetTimer .onDelack).Drained := hd.of_view rfl
    exact hfd.sendAck
  | onTimeWait =>
    exact drained_of_state (s := .closed) (by simp [callback, onTimeWait]) (by simp)
  | onKeepalive => exact onKeepalive_drained hd hcb

/-- Nor does any entry point that returns. -/
theorem perform_drained (hc : Coherent e.ctl) (h : e.Drained)
    (hh : (e.enter.perform a).env.hung = false) : (e.enter.perform a).Drained := by
  have he : e.enter.Drained := h.of_view rfl
  cases a with
  | tick dt => exact h.of_view rfl
  | random r => exact h.of_view rfl
  | openCall active r l t => exact openCall_drained active r l t he
  | activeOpen => exact activeOpen_drained he
  | passiveOpen => exact passiveOpen_drained he
  | send data push urgent t =>
    by_cases ha : e.enter.AcceptsSend
    · simp only [perform, send_of_accepts _ _ _ _ ha] at hh ⊢
      refine sendBuffered_drained data urgent ?_ hh
      cases t <;> exact ha
    · obtain ⟨msg, hr⟩ := send_of_refused (e := e.enter) data push urgent t ha
      simp only [perform, hr]
      exact he.of_view rfl
  | receive n => exact receive_drained n he
  | close => exact close_drained he hh
  | abort => exact abort_drained he
  | segment data => exact onSegment_drained hc he hh
  | expire h => exact expire_drained he hh

/-- A step is an entry point that returns. -/
theorem step_hung (h : engineMachine.step e a = some e') : e'.env.hung = false := by
  simp only [engineMachine] at h
  split_ifs at h with he hd
  obtain rfl := Option.some.inj h
  simpa using hd

/-- After every step there is nothing to send but what a timer waits for. -/
theorem drained_step (hc : Coherent e.ctl) (hd : e.Drained)
    (h : engineMachine.step e a = some e') : e'.Drained := by
  have hh := step_hung h
  simp only [engineMachine] at h
  split_ifs at h with he
  obtain rfl := Option.some.inj h
  exact perform_drained hc hd hh

/-- What every entry point finds and leaves. -/
structure Ready (e : TcpEngine) : Prop where
  coherent : Coherent e.ctl
  drained : e.Drained

theorem Ready.step (hr : e.Ready) (h : engineMachine.step e a = some e') : e'.Ready :=
  ⟨coherent_step hr.drained.blocked hr.coherent h, drained_step hr.coherent hr.drained h⟩

theorem Ready.path (hr : e.Ready) (h : engineMachine.step e a = some e') :
    Path a (e.begin a) e' :=
  step_path hr.drained.blocked h

/-- A new engine has nothing to send. -/
theorem ready_init (args : EngineArgs) (sched : ManualScheduler Callback) (rand : Nat) :
    (init args sched rand).Ready := by
  refine ⟨⟨by simp [ctl, init], by simp [ctl, init], by simp [ctl, init], by simp [ctl, init],
    by simp [ctl, init]⟩, ?_⟩
  exact drained_of_state (s := .closed) rfl (by simp)

/-- The rule the invariants use: what each move preserves, and the buffering of a
SEND, each step preserves. -/
theorem Ready.step_preserves {P : TcpEngine → Prop} (hr : e.Ready)
    (h : engineMachine.step e a = some e') (hb : P (e.begin a))
    (hm : ∀ f f', Move a f f' → P f → P f') : P e' :=
  (hr.path h).preserves hm hb

end TcpEngine

end HdlPlayground.Tcp

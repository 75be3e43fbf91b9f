import HdlPlayground.Tcp.Arrivals
import HdlPlayground.Tcp.TimerSlots

/-!
# Closing and the timers

`_enter_closed` empties every slot, but its `_cancel_persist` goes on to
`_send_pending`, which arms the persist timer again when something is stuck
behind a closed window. `Kills` lists the ways a connection that can still send
is closed; a run that never does so to a stuck connection leaves no timer live
in CLOSED.
-/
namespace HdlPlayground.Tcp

namespace TcpEngine

variable {a : Action} {e e' : TcpEngine}

/-- A RST that resets a synchronized connection. -/
def Resets (e : TcpEngine) (seg : TcpSegment) : Prop :=
  e.Addressed seg ∧ acceptable seg.seq seg.segLen e.tcb.rcvNxt e.rcvWnd = true ∧ seg.rst = true ∧
    seg.seq = e.tcb.rcvNxt ∧ ¬ (e.tcb.state = .synReceived ∧ e.fin.passive = true)

/-- The expiry on which the retransmission timer gives up. -/
def RtoGivesUp (e : TcpEngine) : Prop :=
  e.buf.retx ≠ [] ∧ (e.userTimeoutExpired = true ∨ e.conf.cfg.maxRetransmits < e.tm.rtoCount + 1)

/-- The expiry on which the keepalive timer gives up. -/
def KeepaliveGivesUp (e : TcpEngine) : Prop :=
  e.conf.cfg.keepaliveIdle ≠ none ∧ e.tcb.state = .established ∧ e.buf.retx = [] ∧
    e.conf.cfg.keepaliveCount ≤ e.tm.kaProbes

/-- The ways a connection that can still send is closed. -/
def Kills (e : TcpEngine) : Action → Prop
  | .abort => True
  | .segment data => ∃ seg, TcpSegment.parse data = .ok seg ∧ e.Resets seg
  | .expire h => (h.cb = .onRto ∧ e.RtoGivesUp) ∨ (h.cb = .onKeepalive ∧ e.KeepaliveGivesUp)
  | _ => False

/-- A connection is closed while something of it is stuck behind a closed window. -/
def StrandsPersist (e : TcpEngine) (a : Action) : Prop := e.Stuck ∧ e.Kills a

/-! ## Where a step closes -/

/-- The engine closed from a blocked state, stuck only if `P`. -/
def ClosedVia (P : Prop) (e' : TcpEngine) : Prop :=
  ∃ f : TcpEngine, e' = f.enterClosed ∧ f.Blocked ∧ (f.Stuck → P)

theorem closedVia_of_not_canSend {P : Prop} (h : ¬ e.CanSend) : ClosedVia P e.enterClosed :=
  ⟨e, rfl, blocked_of_not_canSend h, fun hs => absurd hs.1 h⟩

theorem Stuck.of_view (h : e'.Stuck) (hv : e'.sendView = e.sendView) : e.Stuck := by
  simp only [sendView, SendView.mk.injEq] at hv
  obtain ⟨h1, h2, h3, h4, h5, -⟩ := hv
  simpa only [Stuck, CanSend, Waiting, FinDue, h1, h2, h3, h4, h5] using h

theorem giveUp_closedVia {P : Prop} (msg : String) (hb : e.Blocked) (hp : e.Stuck → P) :
    ClosedVia P (e.giveUp msg) := by
  obtain ⟨f, hf, hfb, h⟩ := giveUp_closes msg hb
  refine ⟨_, h, hfb, fun hs => hp (hs.of_view ?_)⟩
  obtain rfl | rfl := hf
  · rfl
  · simp [sendView, usableWindow]

/-- A state that is not CLOSED. -/
private theorem ne_closed_of_mem {s : ConnState} {l : List ConnState} (h : s ∈ l)
    (hl : .closed ∉ l) : s ≠ .closed := fun hc => hl (hc ▸ h)

theorem establishedAck_closes {P : Prop} (seg : TcpSegment) (hs : e.tcb.state ∈ OpenStates)
    (hc : (e.establishedAck seg).tcb.state = .closed) : ClosedVia P (e.establishedAck seg) := by
  unfold establishedAck at hc ⊢
  split at hc
  · exact absurd (by simpa using hc) (ne_closed_of_mem hs (by simp))
  next hn =>
  rw [if_neg hn]
  dsimp only at hc ⊢
  have hs1 : (if seqGt seg.ack e.tcb.sndUna then e.processAck seg.ack else e).tcb.state ∈
      OpenStates := by
    split
    · simpa using hs
    · exact hs
  generalize (if seqGt seg.ack e.tcb.sndUna then e.processAck seg.ack else e) = f at hs1 hc ⊢
  have hs2 := windowUpdate_open seg hs1
  generalize f.windowUpdate seg = g at hs2 hc ⊢
  split_ifs at hc ⊢ with h1 h2 h3
  · exact absurd hc (ne_closed_of_mem (textAndFin_later seg (by simp)) (by simp))
  · rw [enterTimeWait_eq (by simp [CanSend, h2.1])] at hc
    simp at hc
  · exact closedVia_of_not_canSend (by simp [CanSend, h3.1])
  · exact absurd hc (ne_closed_of_mem (textAndFin_later seg hs2) (by simp))

theorem handleSynchronized_closes {P : Prop} (seg : TcpSegment)
    (hs : e.tcb.state ∈ .timeWait :: .synReceived :: OpenStates) (hb : seg.rst = true → e.Blocked)
    (hp : e.Stuck → acceptable seg.seq seg.segLen e.tcb.rcvNxt e.rcvWnd = true → seg.rst = true →
      seg.seq = e.tcb.rcvNxt → ¬ (e.tcb.state = .synReceived ∧ e.fin.passive = true) → P)
    (hc : (e.handleSynchronized seg).tcb.state = .closed) :
    ClosedVia P (e.handleSynchronized seg) := by
  have hne : e.tcb.state ≠ .closed := ne_closed_of_mem hs (by simp)
  unfold handleSynchronized at hc ⊢
  split_ifs at hc ⊢ with htw hacc hr hr hq hsyn hack hsr
  · unfold timeWaitArrives at hc ⊢
    split_ifs at hc ⊢
    · exact closedVia_of_not_canSend (by simp [CanSend, htw])
    · simp [htw] at hc
    · simp [restartTimeWait, htw] at hc
    · simp [htw] at hc
  · exact absurd hc hne
  · exact absurd (by simpa using hc) hne
  · by_cases hl : e.tcb.state = .synReceived ∧ e.fin.passive = true
    · rw [doReset_listen hl.1 hl.2] at hc
      simp [restorePort] at hc
    · obtain ⟨msg, -, h⟩ := doReset_close hl
      refine ⟨_, h, (hb hr).of_view rfl, fun hst => ?_⟩
      exact hp (hst.of_view rfl) (by simpa using hacc) hr hq hl
  · exact absurd (by simpa using hc) hne
  · exact absurd (by simpa using hc) hne
  · exact absurd hc hne
  · unfold synReceivedAck at hc ⊢
    dsimp only at hc ⊢
    split_ifs at hc ⊢
    · refine absurd hc (ne_closed_of_mem (textAndFin_later seg (sendPending_open ?_)) (by simp))
      rw [(mergeReassembly_frame _).state]
      simp
    · exact absurd (by simpa using hc) hne
  · refine establishedAck_closes seg ?_ hc
    rw [List.mem_cons, List.mem_cons] at hs
    exact (hs.resolve_left htw).resolve_left hsr

theorem sendPending_ne_closed (hs : e.tcb.state ≠ .closed) :
    e.sendPending.tcb.state ≠ .closed := by
  obtain ⟨h, -⟩ | ⟨⟨-, h⟩ | ⟨-, h⟩, -⟩ := sendPending_state (e := e)
  · rwa [h]
  · simp [h]
  · simp [h]

theorem handleSynSent_closes {P : Prop} (seg : TcpSegment) (hs : e.tcb.state = .synSent)
    (hc : (e.handleSynSent seg).tcb.state = .closed) : ClosedVia P (e.handleSynSent seg) := by
  unfold handleSynSent at hc ⊢
  dsimp only at hc ⊢
  split_ifs at hc ⊢ with h1 h2 h3 h4 h5 h6
  · simp [hs] at hc
  · simp [hs] at hc
  · exact closedVia_of_not_canSend (by simp [CanSend, hs])
  · simp [hs] at hc
  · simp [hs] at hc
  · unfold synSentEstablished at hc ⊢
    dsimp only at hc ⊢
    have hs1 : ((e.takeSyn seg).setState .established).sendAck.tcb.state ∈ OpenStates := by simp
    generalize ((e.takeSyn seg).setState .established).sendAck = f at hs1 hc ⊢
    split_ifs at hc ⊢
    · have hr : seg.synTaken.rst = false := (by simpa using h3 : seg.rst = false)
      refine handleSynchronized_closes _ ?_ (fun h => ?_) (fun _ _ h => ?_) hc
      · exact List.mem_cons_of_mem _ (List.mem_cons_of_mem _ (sendPending_open hs1))
      · rw [hr] at h; cases h
      · rw [hr] at h; cases h
    · exact absurd hc (ne_closed_of_mem (sendPending_open hs1) (by simp))
  · exfalso
    revert hc
    have hf : (e.takeSyn seg).becomeSynReceived.tcb.state = .synReceived := by
      simp [becomeSynReceived]
    unfold simultaneousOpen
    dsimp only
    generalize (e.takeSyn seg).becomeSynReceived = f at hf
    have h2 : RecvFrame f (if seg.payload ≠ [] then
        f.storeOoo (add seg.seq 1) seg.payload { seg.flags with fin := false } else f) := by
      split
      · exact storeOoo_frame _ _ _ _
      · exact .refl f
    have hs2 := h2.state.trans hf
    generalize (if seg.payload ≠ [] then
      f.storeOoo (add seg.seq 1) seg.payload { seg.flags with fin := false } else f) = g at hs2
    split <;> simp [sendSynAck, deferFin, hs2]

theorem handle_closes {P : Prop} (seg : TcpSegment) (hb : e.Blocked) (hne : e.tcb.state ≠ .closed)
    (hp : e.Stuck → acceptable seg.seq seg.segLen e.tcb.rcvNxt e.rcvWnd = true → seg.rst = true →
      seg.seq = e.tcb.rcvNxt → ¬ (e.tcb.state = .synReceived ∧ e.fin.passive = true) → P)
    (hc : (e.handle seg).tcb.state = .closed) : ClosedVia P (e.handle seg) := by
  rcases e.state_cases with hs | hs | hs | hs
  · exact absurd hs hne
  · exfalso
    rw [handle_listen seg hs] at hc
    unfold handleListen at hc
    split_ifs at hc
    · simp [hs] at hc
    · simp [hs] at hc
    · simp [hs] at hc
    · simp [hs] at hc
    · obtain ⟨m, -, -, hm⟩ := acceptSyn_eq (e := e) seg hs
      simp [hm, listenTaken, listenTcb] at hc
  · rw [handle_synSent seg hs] at hc ⊢
    exact handleSynSent_closes seg hs hc
  · rw [handle_synchronized seg hs] at hc ⊢
    exact handleSynchronized_closes seg hs (fun _ => hb) hp hc

theorem onSegment_closes {data : List UInt8} (hb : e.Blocked) (hne : e.tcb.state ≠ .closed)
    (hc : (e.onSegment data).tcb.state = .closed) :
    ClosedVia (e.Stuck ∧ e.Kills (.segment data)) (e.onSegment data) := by
  cases hp : TcpSegment.parse data with
  | error msg =>
    rw [onSegment, hp] at hc
    exact absurd hc hne
  | ok seg =>
    by_cases haddr : e.Addressed seg
    · rw [onSegment_handle hp haddr] at hc ⊢
      refine handle_closes seg (hb.of_view heard_sendView) (by simpa using hne) ?_ hc
      intro hst hacc hr hq hl
      rw [heard_tcb, heard_rcvWnd] at hacc
      rw [heard_tcb] at hq
      rw [heard_tcb, heard_fin] at hl
      exact ⟨hst.of_view heard_sendView, seg, hp, haddr, hacc, hr, hq, hl⟩
    · rw [onSegment_ignored hp haddr] at hc
      exact absurd hc hne

theorem activeOpen_ne_closed : e.activeOpen.tcb.state ≠ .closed := by
  unfold activeOpen
  split
  · next h => exact h.1
  · next h =>
    rw [connect_eq (by tauto)]
    simp [dialled]

theorem passiveOpen_ne_closed : e.passiveOpen.tcb.state ≠ .closed := by
  unfold passiveOpen
  split
  · next h => exact h
  · simp [startListening]

theorem sendBuffered_ne_closed (data : List UInt8) (urgent : Bool) (hs : e.tcb.state ≠ .closed) :
    (e.sendBuffered data urgent).tcb.state ≠ .closed := by
  have hq {f : TcpEngine} (hf : f.tcb.state ≠ .closed) :
      (f.sendQueued data urgent).tcb.state ≠ .closed := by
    unfold sendQueued
    dsimp only
    have hg : (if urgent && !data.isEmpty then f.setSndUp else f).tcb.state ≠ .closed := by
      split <;> exact hf
    generalize (if urgent && !data.isEmpty then f.setSndUp else f) = g at hg
    split
    · exact sendPending_ne_closed hg
    · exact hg
  unfold sendBuffered
  split_ifs
  · exact hs
  · exact activeOpen_ne_closed
  · exact hq activeOpen_ne_closed
  · exact hq hs

/-- A step that closes a connection closes it from a stuck state only if it kills it. -/
theorem perform_closes (hb : e.Blocked) (ht : e.TimerInv) (hne : e.tcb.state ≠ .closed)
    (he : e.Enabled a)
    (hc : (e.enter.perform a).tcb.state = .closed) :
    ClosedVia (e.StrandsPersist a) (e.enter.perform a) := by
  have hb' : e.enter.Blocked := hb.of_view rfl
  cases a with
  | tick dt => exact absurd hc hne
  | random r => exact absurd hc hne
  | openCall active r l t =>
    revert hc
    simp only [perform, TcpEngine.openCall]
    split
    · exact fun hc => absurd hc activeOpen_ne_closed
    · exact fun hc => absurd hc passiveOpen_ne_closed
  | activeOpen => exact absurd hc activeOpen_ne_closed
  | passiveOpen => exact absurd hc passiveOpen_ne_closed
  | send data push urgent t =>
    by_cases ha : e.enter.AcceptsSend
    · simp only [perform, send_of_accepts _ _ _ _ ha] at hc
      exact absurd hc (sendBuffered_ne_closed _ _ (by simpa using hne))
    · obtain ⟨msg, h⟩ := send_of_refused (e := e.enter) data push urgent t ha
      simp only [perform, h] at hc
      exact absurd hc hne
  | receive n =>
    simp only [perform, TcpEngine.receive] at hc
    split_ifs at hc
    · exact absurd hc hne
    · exact absurd hc hne
    · exact absurd hc hne
    · exact absurd (by simpa using hc) hne
    · exact absurd (by simpa using hc) hne
  | close =>
    simp only [perform, TcpEngine.close] at hc ⊢
    split_ifs at hc ⊢ with h1 h2 h3
    · exact absurd hc hne
    · exact absurd hc hne
    · apply closedVia_of_not_canSend
      rw [enter_tcb] at h3
      rcases h3 with h3 | h3 <;> simp [CanSend, h3]
    · exact absurd hc (sendPending_ne_closed hne)
  | abort =>
    simp only [perform, TcpEngine.abort] at hc ⊢
    split_ifs at hc ⊢ with h1 h2
    · exact absurd hc hne
    · refine ⟨_, rfl, sendRst_blocked hb', fun hs => ⟨hs.of_view ?_, True.intro⟩⟩
      simp [sendView, usableWindow]
    · exact ⟨_, rfl, hb', fun hs => ⟨hs.of_view rfl, True.intro⟩⟩
  | segment data =>
    obtain ⟨f, h1, h2, h3⟩ := onSegment_closes hb' hne hc
    exact ⟨f, h1, h2, h3⟩
  | expire h =>
    have hf : (e.enter.popTimer h).forgetTimer h.cb = e.enter.fire h := rfl
    have hfb := hb'.fire h
    have hfv : (e.enter.fire h).Stuck → e.Stuck := by
      intro hs
      have : (e.enter.fire h).Stuck ↔ e.Stuck := by
        obtain ⟨tm, ht⟩ := fire_eq (e := e.enter) h
        rw [ht]
        rfl
      exact this.mp hs
    have hfs : (e.enter.fire h).tcb.state ≠ .closed := by simpa using hne
    simp only [perform] at hc ⊢
    cases hcb : h.cb with
    | onRto =>
      rw [hcb] at hc hf
      simp only [callback, onRto, hf] at hc ⊢
      split at hc
      · exact absurd hc hfs
      · next o rest hq =>
        have hq' : e.buf.retx ≠ [] := by
          have : e.buf.retx = o :: rest := by simpa using hq
          simp [this]
        split_ifs at hc ⊢ with h1 h2
        · refine giveUp_closedVia _ hfb fun hs => ⟨hfv hs, Or.inl ⟨hcb, hq', Or.inl ?_⟩⟩
          simpa only [userTimeoutExpired, fire_now, enter_now, fire_conf, enter_conf, fire_rt,
            enter_rt] using h1
        · refine giveUp_closedVia _ (hfb.of_view rfl) fun hs =>
            ⟨hfv hs, Or.inl ⟨hcb, hq', Or.inr ?_⟩⟩
          simpa [countRto] using h2
        · exact absurd (by simpa using hc) hne
    | onPersist =>
      rw [hcb] at hc hf
      simp only [callback, onPersist, hf] at hc ⊢
      split_ifs at hc
      · exact absurd hc (sendPending_ne_closed hfs)
      · exact absurd (by simpa [sendProbe] using hc) hne
      · obtain ⟨st, ht, hst⟩ := sendFin_tcb (e := e.enter.fire h)
        simp only [rearmPersist_tcb, ht] at hc
        subst hc
        rcases hst with hst | hst | hst | hst
        · cases hst.2
        · cases hst.2
        · cases hst.2
        · exact absurd hst.2.symm hfs
      · exact absurd hc hfs
    | onDelack =>
      rw [hcb] at hc hf
      simp only [callback, onDelack, hf] at hc
      exact absurd (by simpa using hc) hne
    | onTimeWait =>
      rw [hcb] at hc hf
      simp only [callback, onTimeWait, hf] at hc ⊢
      have htw : e.tcb.state = .timeWait := by
        apply ht.timeWait
        have := ht.timely.held h he.1
        rw [hcb] at this
        simp only [EngineTimers.slot] at this
        simp [this]
      exact closedVia_of_not_canSend (by simp [CanSend, htw])
    | onKeepalive =>
      rw [hcb] at hc hf
      simp only [callback, onKeepalive, hf] at hc ⊢
      split_ifs at hc ⊢ with h1 h2 h3
      · exact absurd hc hfs
      · exact absurd (by simpa using hc) hne
      · refine giveUp_closedVia _ hfb fun hs => ⟨hfv hs, Or.inr ⟨hcb, ?_⟩⟩
        simp only [not_or, not_not] at h1
        refine ⟨by simpa using h1.1, by simpa using h1.2, by simpa using h2, ?_⟩
        simpa using h3
      · exact absurd (by simpa [sendKeepaliveProbe] using hc) hne

theorem step_closes (hr : e.Ready) (ht : e.TimerInv) (hne : e.tcb.state ≠ .closed)
    (h : engineMachine.step e a = some e') (hc : e'.tcb.state = .closed) :
    ClosedVia (e.StrandsPersist a) e' := by
  simp only [engineMachine] at h
  split_ifs at h with he
  obtain rfl := Option.some.inj h
  exact perform_closes hr.drained.blocked ht hne he hc

/-! ## CLOSED without timers -/

/-- No slot names a timer. -/
def Unarmed (e : TcpEngine) : Prop := ∀ cb, e.tm.slot cb = none

theorem TimerInv.live_nil (h : e.TimerInv) (hu : e.Unarmed) : e.tm.sched.live = [] := by
  refine List.eq_nil_iff_forall_not_mem.mpr fun g hg => ?_
  have := h.timely.held g hg
  rw [hu g.cb] at this
  cases this

theorem TimerInv.unarmed_of_live_nil (h : e.TimerInv) (hl : e.tm.sched.live = []) :
    e.Unarmed := by
  intro cb
  by_contra hn
  obtain ⟨g, hg, -⟩ := (h.timely.slot_ne_none_iff cb).mp hn
  rw [hl] at hg
  cases hg

theorem enterClosed_unarmed (hb : e.Blocked) (hs : ¬ e.Stuck) : e.enterClosed.Unarmed := by
  have h1 : (e.stopRt.dropPersistTimer.cancelKeepalive.cancelTwTimer.cancelAckTimer).Unarmed := by
    intro cb
    cases cb <;> rfl
  have hset {f : TcpEngine} (hf : f.Unarmed) : (f.setState .closed).Unarmed := by
    simp only [setState]
    split_ifs
    · exact hf
    · contradiction
    · intro cb
      cases cb with
      | onRto => exact hf .onRto
      | onPersist => exact hf .onPersist
      | onDelack => exact hf .onDelack
      | onTimeWait => exact hf .onTimeWait
      | onKeepalive => rfl
    · exact hf
  rw [enterClosed_of_blocked hb, if_neg hs]
  exact hset h1

/-- In CLOSED nothing arms a timer. -/
theorem perform_closed_unarmed (hs : e.tcb.state = .closed) (ht : e.TimerInv) (hu : e.Unarmed)
    (he : e.Enabled a) (hc : (e.enter.perform a).tcb.state = .closed) :
    (e.enter.perform a).Unarmed := by
  have same {f : TcpEngine} (hf : f.tm = e.tm) : f.Unarmed := fun cb => by rw [hf]; exact hu cb
  have hs' : e.enter.tcb.state = .closed := hs
  cases a with
  | tick dt => exact hu
  | random r => exact hu
  | openCall active r l t =>
    revert hc
    simp only [perform, TcpEngine.openCall]
    have hst : ((e.enter.setPorts r l).setUserTimeout t).tcb.state = .closed := by
      cases t <;> exact hs
    split
    · rw [activeOpen_eq (Or.inl hst), connect_eq (Or.inl hst)]
      simp [dialled]
    · rw [passiveOpen_eq hst]
      simp [startListening]
  | activeOpen =>
    rw [perform, activeOpen_eq (Or.inl hs'), connect_eq (Or.inl hs')] at hc
    simp [dialled] at hc
  | passiveOpen =>
    rw [perform, passiveOpen_eq hs'] at hc
    simp [startListening] at hc
  | send data push urgent t =>
    simp only [perform, TcpEngine.send, hs', if_true]
    exact hu
  | receive n =>
    simp only [perform, TcpEngine.receive, hs', if_true]
    exact hu
  | close =>
    simp only [perform, TcpEngine.close, hs', if_true]
    exact hu
  | abort =>
    simp only [perform, TcpEngine.abort, hs', if_true]
    exact hu
  | segment data =>
    simp only [perform, onSegment]
    split
    · exact hu
    · next seg _ =>
      unfold segmentArrives
      split
      · exact hu
      · simp only [hs']
        rw [if_neg (by simp)]
        simp only [hs', handleClosed]
        split_ifs
        · exact hu
        · exact same (by simp)
        · exact same (by simp)
  | expire h =>
    have hl := he.1
    rw [ht.live_nil hu] at hl
    cases hl

theorem closed_unarmed_step (hr : e.Ready) (ht : e.TimerInv)
    (hu : e.tcb.state = .closed → e.Unarmed) (hk : ¬ e.StrandsPersist a)
    (h : engineMachine.step e a = some e') (hc : e'.tcb.state = .closed) : e'.Unarmed := by
  by_cases hs : e.tcb.state = .closed
  · simp only [engineMachine] at h
    split_ifs at h with he
    obtain rfl := Option.some.inj h
    exact perform_closed_unarmed hs ht (hu hs) he hc
  · obtain ⟨f, rfl, hb, hst⟩ := step_closes hr ht hs h hc
    exact enterClosed_unarmed hb fun h => hk (hst h)

/-- The state a run keeps as long as it strands no persist timer. -/
structure Tidy (e : TcpEngine) : Prop where
  ready : e.Ready
  timers : e.TimerInv
  closed : e.tcb.state = .closed → e.Unarmed

theorem tidy_init (args : EngineArgs) (sched : ManualScheduler Callback) (rand : Nat)
    (hs : sched.heap = []) : (init args sched rand).Tidy where
  ready := ready_init args sched rand
  timers := timerInv_init args sched rand hs
  closed _ cb := by cases cb <;> rfl

theorem tidy_preserves :
    engineMachine.Preserves (fun e a => ¬ e.StrandsPersist a) Tidy := by
  intro e a e' ht hk h
  exact ⟨ht.ready.step h, ht.ready.timerInv_step ht.timers h,
    closed_unarmed_step ht.ready ht.timers ht.closed hk h⟩

theorem enterClosed_stuck (hb : e.Blocked) (ht : e.tm.Timely) (hs : e.Stuck) :
    e.enterClosed.tcb.state = .closed ∧ ¬ e.enterClosed.Unarmed := by
  refine ⟨by simp, fun hu => ?_⟩
  exact (enterClosed_slots hb ht).2.2.mp (hu .onPersist) hs

theorem giveUp_stuck (msg : String) (hb : e.Blocked) (ht : e.tm.Timely) (hs : e.Stuck) :
    (e.giveUp msg).tcb.state = .closed ∧ ¬ (e.giveUp msg).Unarmed := by
  obtain ⟨f, hf, hfb, h⟩ := giveUp_closes msg hb
  have hft : f.tm = e.tm := by obtain rfl | rfl := hf <;> simp
  have hfs : (f.signalError msg).Stuck := by
    apply hs.of_view
    obtain rfl | rfl := hf
    · rfl
    · simp [sendView, usableWindow]
  rw [h]
  exact enterClosed_stuck hfb (by simpa [hft] using ht) hfs

theorem Stuck.fire (h : e.Stuck) (g : TimerHandle Callback) : (e.fire g).Stuck := by
  obtain ⟨tm, hf⟩ := fire_eq (e := e) g
  rw [hf]
  exact h

theorem Stuck.state (h : e.Stuck) : e.tcb.state ∈ [.synReceived, .established, .closeWait] := by
  rcases h.1 with h | h | ⟨h, -⟩ <;> simp [h]

theorem onSegment_resets {data : List UInt8} {seg : TcpSegment} (hb : e.Blocked)
    (ht : e.tm.Timely) (hs : e.Stuck) (hp : TcpSegment.parse data = .ok seg) (hr : e.Resets seg) :
    (e.onSegment data).tcb.state = .closed ∧ ¬ (e.onSegment data).Unarmed := by
  obtain ⟨haddr, hacc, hrst, hseq, hlis⟩ := hr
  have hport : ¬ (e.conf.localPort ≠ 0 ∧ seg.dstPort ≠ 0 ∧ seg.dstPort ≠ e.conf.localPort) := by
    simp only [Addressed] at haddr
    tauto
  simp only [onSegment, hp, segmentArrives, if_neg hport]
  have hv : (if e.tcb.state = .established then e.restartKeepalive true else e).sendView =
      e.sendView := by
    split
    · simp [sendView, usableWindow]
    · rfl
  have htcb : (if e.tcb.state = .established then e.restartKeepalive true else e).tcb = e.tcb := by
    split <;> simp
  have hf : (if e.tcb.state = .established then e.restartKeepalive true else e).fin = e.fin := by
    split <;> simp
  have hw : (if e.tcb.state = .established then e.restartKeepalive true else e).rcvWnd =
      e.rcvWnd := by
    split <;> simp [rcvWnd]
  have hft : (if e.tcb.state = .established then e.restartKeepalive true else e).tm.Timely := by
    split
    · exact (restartKeepalive_retimes e true).timely ht
    · exact ht
  generalize (if e.tcb.state = .established then e.restartKeepalive true else e) = f
    at hv htcb hf hw hft
  have hlf : ¬ (f.tcb.state = .synReceived ∧ f.fin.passive = true) := by rwa [htcb, hf]
  have hreset : f.handleSynchronized seg = f.doReset := by
    have htw : f.tcb.state ≠ .timeWait := by
      have := hs.state
      rw [htcb]
      rintro hc
      simp [hc] at this
    unfold handleSynchronized
    rw [if_neg htw, if_neg (by rw [htcb, hw]; simpa using hacc), if_pos hrst,
      if_pos (by rw [htcb]; exact hseq)]
  have hgoal : f.doReset.tcb.state = .closed ∧ ¬ f.doReset.Unarmed := by
    obtain ⟨msg, -, h⟩ := doReset_close hlf
    rw [h]
    exact enterClosed_stuck ((hb.of_view hv).of_view rfl) hft (hs.of_view hv.symm)
  have hst := hs.state
  rw [← htcb] at hst
  split
  · next h => simp [h] at hst
  · next h => simp [h] at hst
  · next h => simp [h] at hst
  · rw [hreset]
    exact hgoal

/-- Closing a stuck connection leaves the persist timer armed. -/
theorem strands_live (hr : e.Ready) (ht : e.TimerInv) (hk : e.StrandsPersist a)
    (h : engineMachine.step e a = some e') : e'.tcb.state = .closed ∧ e'.tm.sched.live ≠ [] := by
  have hi := hr.timerInv_step ht h
  suffices hgoal : e'.tcb.state = .closed ∧ ¬ e'.Unarmed from
    ⟨hgoal.1, fun hl => hgoal.2 (hi.unarmed_of_live_nil hl)⟩
  obtain ⟨hs, hk⟩ := hk
  simp only [engineMachine] at h
  split_ifs at h with he
  obtain rfl := Option.some.inj h
  have hb : e.enter.Blocked := hr.drained.blocked.of_view rfl
  have hs' : e.enter.Stuck := hs
  cases a with
  | abort =>
    have hst := hs.state
    have hm :
        e.enter.tcb.state ∈ [.synReceived, .established, .finWait1, .finWait2, .closeWait] := by
      simp only [List.mem_cons, List.not_mem_nil, or_false] at hst
      rcases hst with hst | hst | hst <;> simp [hst]
    have hc : e.enter.tcb.state ≠ .closed := by
      intro hc
      rw [hc] at hm
      simp at hm
    simp only [perform, TcpEngine.abort, if_neg hc, if_pos hm]
    exact enterClosed_stuck (sendRst_blocked hb) (by simpa using ht.timely)
      (hs'.of_view (by simp [sendView, usableWindow]))
  | segment data =>
    obtain ⟨seg, hp, hres⟩ := hk
    exact onSegment_resets hb ht.timely hs' hp hres
  | expire g =>
    have hf : (e.enter.popTimer g).forgetTimer g.cb = e.enter.fire g := rfl
    have hfb := hb.fire g
    have hft := (fire_retimes (e := e.enter) he.1).timely ht.timely
    have hfs := hs'.fire g
    simp only [perform]
    rcases hk with ⟨hcb, hq, hlim⟩ | ⟨hcb, hi, hst, hq, hlim⟩
    · rw [hcb] at hf
      obtain ⟨o, rest, hq⟩ := List.exists_cons_of_ne_nil hq
      have hq' : (e.enter.fire g).buf.retx = o :: rest := by simpa using hq
      simp only [hcb, callback, onRto, hf, hq']
      have hu : (e.enter.fire g).userTimeoutExpired = e.userTimeoutExpired := by
        simp only [userTimeoutExpired, fire_now, enter_now, fire_conf, enter_conf, fire_rt,
          enter_rt]
      split_ifs with h1 h2
      · exact giveUp_stuck _ hfb hft hfs
      · exact giveUp_stuck _ (hfb.of_view rfl) hft (hfs.of_view rfl)
      · exfalso
        rw [hu] at h1
        have := hlim.resolve_left h1
        apply h2
        simpa [countRto] using this
    · rw [hcb] at hf
      simp only [hcb, callback, onKeepalive, hf]
      rw [if_neg (by simp [hi, hst]), if_neg (by simp [hq]), if_pos (by simpa using hlim)]
      exact giveUp_stuck _ hfb hft hfs
  | _ => exact hk.elim

end TcpEngine

open TcpEngine in
/-- Every state of the run that is CLOSED has no live timer exactly when no step
of it closes a connection that has something stuck behind a closed window. -/
theorem closed_has_no_timer (args : EngineArgs) (sched : ManualScheduler Callback) (rand : Nat)
    (as : List Action) (e : TcpEngine) (hs : sched.heap = [])
    (hr : engineMachine.run (init args sched rand) as = some e) :
    engineMachine.Throughout (fun f => f.tcb.state = .closed → f.tm.sched.live = [])
        (init args sched rand) as ↔
      engineMachine.AllSteps (fun f a => ¬ f.StrandsPersist a) (init args sched rand) as := by
  refine Lib.Machine.throughout_iff tidy_preserves
    (fun f hf hc => hf.timers.live_nil (hf.closed hc))
    (fun f a f' hf hk h hp => ?_) (tidy_init args sched rand hs) hr
  obtain ⟨hc, hl⟩ := strands_live hf.ready hf.timers (not_not.mp hk) h
  exact hl (hp hc)

/-- The connection is answered with a closed window, three bytes are queued behind
it, and the user aborts. -/
def strandedRun : List Action :=
  [.activeOpen,
    .segment (TcpSegment.image
      { srcPort := 80, dstPort := 1000, seq := 500, ack := 101,
        flags := { syn := true, ack := true } }),
    .send [1, 2, 3] true false none, .abort]

def strandedStart : TcpEngine :=
  TcpEngine.init { localPort := 1000, remotePort := 80, iss := some 100 } {} 0

theorem abort_leaves_persist_timer : ∃ e, engineMachine.run strandedStart strandedRun = some e ∧
    e.tcb.state = .closed ∧ e.tm.sched.live.map TimerHandle.cb = [.onPersist] := by
  have h : ((engineMachine.run strandedStart strandedRun).map
      fun e => (e.tcb.state, e.tm.sched.live.map TimerHandle.cb)) =
        some (.closed, [.onPersist]) := by
    decide +kernel
  obtain ⟨e, he, hv⟩ := Option.map_eq_some_iff.mp h
  exact ⟨e, he, congrArg Prod.fst hv, congrArg Prod.snd hv⟩

theorem stranded_run_strands :
    engineMachine.Throughout (fun f => f.tcb.state = .closed → f.tm.sched.live = [])
        strandedStart strandedRun ↔
      engineMachine.AllSteps (fun f a => ¬ f.StrandsPersist a) strandedStart strandedRun := by
  have hr : (engineMachine.run strandedStart strandedRun).isSome = true := by decide +kernel
  obtain ⟨e, he⟩ := Option.isSome_iff_exists.mp hr
  exact closed_has_no_timer _ {} 0 strandedRun e rfl he

end HdlPlayground.Tcp

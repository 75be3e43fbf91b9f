import HdlPlayground.Tcp.Fsm

/-!
# What a segment can end

A segment ends a connection in three ways: a RST at exactly RCV.NXT, a RST that
answers our SYN, and the acknowledgement of our FIN in LAST-ACK. A SYN on a
synchronized connection only draws an ACK, and a RST is never answered with a RST.
-/
namespace HdlPlayground.Tcp

namespace TcpEngine

variable {a : Action} {e e' : TcpEngine}

/-- The segments that may end a connection. -/
inductive Ends (e : TcpEngine) (seg : TcpSegment) : Prop
  | reset : e.tcb.state ∈ SyncStates → seg.rst = true → seg.seq = e.tcb.rcvNxt → Ends e seg
  | refused : e.tcb.state = .synSent → seg.rst = true → seg.ackFlag = true →
      seqGt seg.ack e.tcb.iss = true → seqLeq seg.ack e.tcb.sndNxt = true → Ends e seg
  | finAcked : e.tcb.state = .lastAck → seg.ackFlag = true → e.fin.finSent = true →
      seg.ack = add e.fin.finSeq 1 → Ends e seg

/-- The three things a segment may not do. -/
structure Guarded (e : TcpEngine) (seg : TcpSegment) (e' : TcpEngine) : Prop where
  ends : e'.Outside → e'.tcb.state ≠ e.tcb.state → e.Ends seg
  syn : e.tcb.state ∈ SyncStates → seg.syn = true → seg.rst = false →
    e'.tcb = e.tcb ∧ e'.buf = e.buf
  rst : seg.rst = true → Logs (fun ev => ∀ s, ev = .tx s → s.rst = false) e e'

theorem not_outside_of_mem {l : List ConnState} (h : e.tcb.state ∈ l) (h1 : .closed ∉ l)
    (h2 : .listen ∉ l) : ¬ e.Outside := by
  intro ho
  rcases ho.cases with hs | hs
  · exact h1 (hs ▸ h)
  · exact h2 (hs ▸ h)

/-! ## Which segments end a connection -/

/-- A window update sends a FIN at most: one that was sent before is still the same. -/
theorem windowUpdate_sent (seg : TcpSegment) (hf : FinSane e) :
    (e.windowUpdate seg).fin.finAcked = e.fin.finAcked ∧
      (e.fin.finSent = true → (e.windowUpdate seg).tcb.state = e.tcb.state) := by
  unfold windowUpdate
  dsimp only
  split
  · split
    · have hk : (e.setSendWindow seg.window seg.seq seg.ack).dropPersistTimer.fin = e.fin := rfl
      have hs : (e.setSendWindow seg.window seg.seq seg.ack).dropPersistTimer.tcb.state =
          e.tcb.state := rfl
      rw [cancelPersist]
      rcases sendPending_state
        (e := (e.setSendWindow seg.window seg.seq seg.ack).dropPersistTimer) with
        ⟨h1, h2⟩ | ⟨h1, s, h2⟩
      · rw [h1, h2]
        exact ⟨rfl, fun _ => rfl⟩
      · refine ⟨by rw [h2]; rfl, fun hsent => ?_⟩
        exfalso
        have hm := hf.sent hsent
        rw [hs] at h1
        rcases h1 with ⟨h1 | h1, -⟩ | ⟨h1, -⟩ <;> simp [h1] at hm
    · exact ⟨rfl, fun _ => rfl⟩
  · exact ⟨rfl, fun _ => rfl⟩

theorem establishedAck_ends {seg : TcpSegment} (hf : FinSane e) (hs : e.tcb.state ∈ OpenStates)
    (h : Settled e.ctl) (ho : (e.establishedAck seg).Outside) :
    e.tcb.state = .lastAck ∧ e.fin.finSent = true ∧ e.AcksNew seg.ack ∧
      seqGt seg.ack e.fin.finSeq = true := by
  have hno {f : TcpEngine} (hm : f.tcb.state ∈ LaterStates) : ¬ f.Outside :=
    not_outside_of_mem hm (by simp) (by simp)
  unfold establishedAck at ho
  split at ho
  · exact absurd ho (hno (List.mem_cons_of_mem _ (by simpa using hs)))
  next hle =>
  dsimp only at ho
  have hf1 : FinSane (if seqGt seg.ack e.tcb.sndUna then e.processAck seg.ack else e) := by
    split
    · exact hf.processAck seg.ack
    · exact hf
  have hs1 : (if seqGt seg.ack e.tcb.sndUna then e.processAck seg.ack else e).tcb.state =
      e.tcb.state := by
    split
    · simp
    · rfl
  have hacked : (if seqGt seg.ack e.tcb.sndUna then e.processAck seg.ack else e).fin.finAcked =
      (e.fin.finAcked || (seqGt seg.ack e.tcb.sndUna && e.fin.finSent &&
        seqGt seg.ack e.fin.finSeq)) := by
    split
    · next hgt => simp [hgt]
    · next hgt => simp [hgt]
  generalize (if seqGt seg.ack e.tcb.sndUna then e.processAck seg.ack else e) = f
    at ho hf1 hs1 hacked
  obtain ⟨h1, h2⟩ := windowUpdate_sent seg hf1
  have hopen := windowUpdate_open seg (e := f) (by rw [hs1]; exact hs)
  generalize f.windowUpdate seg = g at ho h1 h2 hopen
  split_ifs at ho with hfw hcl hla
  · exact absurd ho (hno (textAndFin_later seg (by simp)))
  · rw [enterTimeWait_eq (by simp [CanSend, hcl.1])] at ho
    exact absurd ho (hno (by simp))
  · have hfa : f.fin.finAcked = true := by rw [← h1]; exact hla.2
    have hst : e.tcb.state = .lastAck := by
      rw [← hs1, ← h2 (hf1.acked hfa)]
      exact hla.1
    have hna : e.fin.finAcked = false := h (by simp [ctl, hst])
    rw [hfa, hna, Bool.false_or] at hacked
    have hall := hacked.symm
    simp only [Bool.and_eq_true] at hall
    refine ⟨hst, hall.1.2, ⟨hall.1.1, ?_⟩, hall.2⟩
    rw [seqGt_eq_not_seqLeq] at hle
    simpa using hle
  · exact absurd ho (hno (textAndFin_later seg hopen))

/-- The acknowledgement that passes the test of the FIN is the one after it. -/
theorem FinLast.ack_eq {seg : TcpSegment} (hl : FinLast e) (hf : e.fin.finSent = true)
    (hx : seg.Fits) (ha : e.AcksNew seg.ack) (hgt : seqGt seg.ack e.fin.finSeq = true) :
    seg.ack = add e.fin.finSeq 1 :=
  (finNear_ack (fun hs => (hl hs).1) seg.ack hx.ack.1 hx.ack.2 hf ha).1.mp hgt

theorem handleSynchronized_ends {seg : TcpSegment} (hf : FinSane e) (h : Settled e.ctl)
    (hl : FinLast e) (hx : seg.Fits) (hs : e.tcb.state ∈ SyncStates)
    (ho : (e.handleSynchronized seg).Outside) : e.Ends seg := by
  have hin : ¬ e.Outside := not_outside_of_mem hs (by simp) (by simp)
  have hno {f : TcpEngine} (hst : f.tcb.state = e.tcb.state) : ¬ f.Outside := by
    rw [Outside, hst]
    exact hin
  unfold handleSynchronized at ho
  split_ifs at ho with htw hacc hr hr hq hsyn hack hsr
  · unfold timeWaitArrives at ho
    split_ifs at ho with hr hq
    · exact .reset hs hr hq
    · exact absurd ho (hno (by simp))
    · exact absurd ho (hno (by simp [restartTimeWait]))
    · exact absurd ho (hno (by simp))
  · exact absurd ho hin
  · exact absurd ho (hno (by simp))
  · exact .reset hs hr hq
  · exact absurd ho (hno (by simp))
  · exact absurd ho (hno (by simp))
  · exact absurd ho hin
  · exfalso
    unfold synReceivedAck at ho
    dsimp only at ho
    split_ifs at ho
    · refine not_outside_of_mem (textAndFin_later seg (sendPending_open ?_)) (by simp) (by simp) ho
      rw [(mergeReassembly_frame _).state]
      simp
    · exact hno (by simp) ho
  · have hopen : e.tcb.state ∈ OpenStates := by
      rw [List.mem_cons, List.mem_cons] at hs
      exact (hs.resolve_left htw).resolve_left hsr
    obtain ⟨h1, h2, h3, h4⟩ := establishedAck_ends hf hopen h ho
    exact .finAcked h1 (by simpa using hack) h2 (hl.ack_eq h2 hx h3 h4)

/-- The handshake does not end what it completes: no FIN is out yet. -/
theorem synSentEstablished_stays {seg : TcpSegment} (hf : FinSane e) (hs : e.tcb.state = .synSent)
    (hr : seg.rst = false) : ¬ ((e.takeSyn seg).synSentEstablished seg).Outside := by
  obtain ⟨hns, hna⟩ := hf.unacked (by simp [hs])
  obtain ⟨b, hb⟩ := takeSyn_fin (e := e) seg
  intro ho
  unfold synSentEstablished at ho
  dsimp only at ho
  have hf1 : ((e.takeSyn seg).setState .established).sendAck.fin.finSent = false ∧
      ((e.takeSyn seg).setState .established).sendAck.fin.finAcked = false := by
    rw [sendAck_fin, setState_fin, hb]
    exact ⟨hns, by simp [hns, hna]⟩
  have hs1 : ((e.takeSyn seg).setState .established).sendAck.tcb.state = .established := by simp
  generalize ((e.takeSyn seg).setState .established).sendAck = f at hf1 hs1 ho
  have hsane := (finSane_of_unacked hf1.1 hf1.2).sendPending
  have hset := sendPending_settled (finSane_of_unacked hf1.1 hf1.2) (settled_of_unacked hf1.2)
  have hst : f.sendPending.tcb.state = .established ∨ f.sendPending.tcb.state = .finWait1 := by
    rcases sendPending_state (e := f) with ⟨h1, -⟩ | ⟨⟨-, h1⟩ | ⟨h1, -⟩, -⟩
    · exact Or.inl (h1.trans hs1)
    · exact Or.inr h1
    · rw [hs1] at h1
      cases h1
  have hopen : f.sendPending.tcb.state ∈ OpenStates := sendPending_open (by simp [hs1])
  have hin : ¬ f.sendPending.Outside := not_outside_of_mem hopen (by simp) (by simp)
  split_ifs at ho
  · unfold handleSynchronized at ho
    have hne : f.sendPending.tcb.state ≠ .timeWait ∧ f.sendPending.tcb.state ≠ .synReceived ∧
        f.sendPending.tcb.state ≠ .lastAck := by
      rcases hst with h1 | h1 <;> simp [h1]
    have hno {g : TcpEngine} (hst : g.tcb.state = f.sendPending.tcb.state) : ¬ g.Outside := by
      rw [Outside, hst]
      exact hin
    have hrst : seg.synTaken.rst = false := hr
    rw [if_neg hne.1, hrst] at ho
    split_ifs at ho with h1 h2 h3 h4 h5 h6 h7
    · exact h2
    · exact hno (by simp) ho
    · exact h3
    · exact h3
    · exact hno (by simp) ho
    · exact hin ho
    · exact hne.2.1 h7
    · exact hne.2.2 (establishedAck_ends hsane hopen hset ho).1
  · exact hin ho

theorem handleSynSent_ends {seg : TcpSegment} (hf : FinSane e) (hs : e.tcb.state = .synSent)
    (ho : (e.handleSynSent seg).Outside) : e.Ends seg := by
  have hno {f : TcpEngine} (hst : f.tcb.state = .synSent ∨ f.tcb.state = .synReceived) :
      ¬ f.Outside := by
    rw [Outside]
    rcases hst with hst | hst <;> simp [hst]
  unfold handleSynSent at ho
  dsimp only at ho
  split_ifs at ho with h1 h2 h3 h4 h5 h6
  · exact absurd ho (hno (Or.inl hs))
  · exact absurd ho (hno (Or.inl (by simpa using hs)))
  · simp only [Bool.and_eq_true, Bool.or_eq_true, not_and, not_or] at h1 h4
    obtain ⟨h5, h6⟩ := h1 h4.1
    rw [seqGt_eq_not_seqLeq, Bool.not_eq_true'] at h6
    refine .refused hs h3 h4.1 ?_ ?_
    · rw [seqGt_eq_not_seqLeq]
      simpa using h5
    · simpa using h6
  · exact absurd ho (hno (Or.inl hs))
  · exact absurd ho (hno (Or.inl hs))
  · exact absurd ho (synSentEstablished_stays hf hs (by simpa using h3))
  · exfalso
    have hrec : (e.takeSyn seg).becomeSynReceived.tcb.state = .synReceived := by
      simp [becomeSynReceived]
    unfold simultaneousOpen at ho
    dsimp only at ho
    generalize (e.takeSyn seg).becomeSynReceived = f at hrec ho
    have h2 : RecvFrame f (if seg.payload ≠ [] then
        f.storeOoo (add seg.seq 1) seg.payload { seg.flags with fin := false } else f) := by
      split
      · exact storeOoo_frame _ _ _ _
      · exact .refl f
    have hs2 := h2.state.trans hrec
    generalize (if seg.payload ≠ [] then
      f.storeOoo (add seg.seq 1) seg.payload { seg.flags with fin := false } else f) = g at hs2 ho
    refine hno (Or.inr ?_) ho
    split <;> simp [sendSynAck, deferFin, hs2]

theorem handle_ends {seg : TcpSegment} (hc : Coherent e.ctl) (h : Settled e.ctl) (hl : FinLast e)
    (hx : seg.Fits) (ho : (e.handle seg).Outside)
    (hne : (e.handle seg).tcb.state ≠ e.tcb.state) : e.Ends seg := by
  rcases e.state_cases with hs | hs | hs | hs
  · exfalso
    rw [handle_closed seg hs] at hne
    unfold handleClosed at hne
    split_ifs at hne
    · exact hne rfl
    · exact hne (by simp)
    · exact hne (by simp)
  · exfalso
    rw [handle_listen seg hs] at ho hne
    unfold handleListen at ho hne
    split_ifs at ho hne
    · exact hne rfl
    · exact hne (by simp)
    · exact hne rfl
    · exact hne rfl
    · obtain ⟨m, -, -, hm⟩ := acceptSyn_eq (e := e) seg hs
      rw [hm] at ho
      simp [Outside, listenTaken, listenTcb] at ho
  · rw [handle_synSent seg hs] at ho
    exact handleSynSent_ends hc.finSane hs ho
  · rw [handle_synchronized seg hs] at ho
    exact handleSynchronized_ends hc.finSane h hl hx hs ho

/-! ## SYN and RST -/

theorem handleSynchronized_syn {seg : TcpSegment} (hsyn : seg.syn = true) (hr : seg.rst = false) :
    (e.handleSynchronized seg).tcb = e.tcb ∧ (e.handleSynchronized seg).buf = e.buf := by
  have hn : ¬ seg.rst = true := by simp [hr]
  by_cases ht : e.tcb.state = .timeWait
  · rw [handleSynchronized, if_pos ht, timeWaitArrives, if_neg hn]
    split
    · exact ⟨by simp [restartTimeWait], by simp [restartTimeWait]⟩
    · exact ⟨by simp, by simp⟩
  · rw [handleSynchronized, if_neg ht, if_neg hn, if_neg hn, if_pos hsyn, ite_self]
    exact ⟨by simp, by simp⟩

/-- The events that are no RST. -/
def Event.NoRst (ev : Event) : Prop := ∀ s, ev = .tx s → s.rst = false

theorem sendAck_noRst : Logs Event.NoRst e e.sendAck := by
  refine .one (.tx e.ackSegment) (by simp) fun s hs => ?_
  obtain rfl := Event.tx.inj hs
  rfl

theorem enterClosed_noRst (hb : e.Blocked) : Logs Event.NoRst e e.enterClosed := by
  refine enterClosed_logs hb fun _ s hs => ?_
  cases hs

theorem signalError_noRst (msg : String) : Logs Event.NoRst e (e.signalError msg) := by
  refine .one (.error msg) rfl fun s hs => ?_
  cases hs

theorem doReset_noRst (hb : e.Blocked) : Logs Event.NoRst e e.doReset := by
  by_cases hl : e.tcb.state = .synReceived ∧ e.fin.passive = true
  · rw [doReset_listen hl.1 hl.2]
    refine Logs.trans (f := e.setState .listen) (setState_logs _ fun _ s hs => ?_) (.none rfl)
    cases hs
  · obtain ⟨msg, -, h⟩ := doReset_close hl
    rw [h]
    have hb' : (e.signalError msg).Blocked := hb.of_view rfl
    exact (signalError_noRst msg).trans (enterClosed_noRst hb')

theorem timeWaitArrives_noRst {seg : TcpSegment} (hb : e.Blocked) (hr : seg.rst = true) :
    Logs Event.NoRst e (e.timeWaitArrives seg) := by
  rw [timeWaitArrives, if_pos hr]
  split
  · exact enterClosed_noRst hb
  · exact sendAck_noRst

theorem handleSynchronized_noRst {seg : TcpSegment} (hb : e.Blocked) (hr : seg.rst = true) :
    Logs Event.NoRst e (e.handleSynchronized seg) := by
  by_cases ht : e.tcb.state = .timeWait
  · rw [handleSynchronized, if_pos ht]
    exact timeWaitArrives_noRst hb hr
  · rw [handleSynchronized, if_neg ht, if_pos hr, if_pos hr]
    split
    · exact .none rfl
    · split
      · exact doReset_noRst hb
      · exact sendAck_noRst

theorem handleSynSent_noRst {seg : TcpSegment} (hb : e.Blocked) (hr : seg.rst = true) :
    Logs Event.NoRst e (e.handleSynSent seg) := by
  have hb' : (e.signalError "connection refused").Blocked := hb.of_view rfl
  unfold handleSynSent
  dsimp only
  rw [if_pos hr, if_pos hr]
  split
  · exact .none rfl
  · split
    · exact (signalError_noRst _).trans (enterClosed_noRst hb')
    · exact .none rfl

theorem handle_noRst {seg : TcpSegment} (hb : e.Blocked) (hr : seg.rst = true) :
    Logs Event.NoRst e (e.handle seg) := by
  rcases e.state_cases with hs | hs | hs | hs
  · rw [handle_closed seg hs, handleClosed, if_pos hr]
    exact .none rfl
  · rw [handle_listen seg hs, handleListen, if_pos hr]
    exact .none rfl
  · rw [handle_synSent seg hs]
    exact handleSynSent_noRst hb hr
  · rw [handle_synchronized seg hs]
    exact handleSynchronized_noRst hb hr

/-! ## Every reachable state -/

/-- What the three rules rest on. -/
structure Upright (e : TcpEngine) : Prop where
  ready : e.Ready
  settled : Settled e.ctl
  finLast : FinLast e

theorem upright_init (args : EngineArgs) (sched : ManualScheduler Callback) (rand : Nat) :
    (init args sched rand).Upright := by
  refine ⟨ready_init args sched rand, settled_of_unacked rfl, ?_⟩
  intro hf
  cases hf

theorem Upright.step (hu : e.Upright) (h : engineMachine.step e a = some e') : e'.Upright :=
  ⟨hu.ready.step h, hu.ready.settled hu.settled h, hu.ready.finLast hu.finLast h⟩

theorem Upright.guarded {data : List UInt8} {seg : TcpSegment} (hu : e.Upright)
    (hp : TcpSegment.parse data = .ok seg) (h : engineMachine.step e (.segment data) = some e') :
    e.Guarded seg e' := by
  have hx : seg.Fits := TcpSegment.fits_of_parse hp
  rcases step_segment hp h with ⟨-, rfl⟩ | ⟨-, rfl⟩
  · exact ⟨fun _ hne => absurd rfl hne, fun _ _ _ => ⟨rfl, rfl⟩, fun _ => .none rfl⟩
  have hends (he : e.enter.heard.Ends seg) : e.Ends seg := by
    cases he with
    | reset h1 h2 h3 => exact .reset (by simpa using h1) h2 (by simpa using h3)
    | refused h1 h2 h3 h4 h5 =>
      exact .refused (by simpa using h1) h2 h3 (by simpa using h4) (by simpa using h5)
    | finAcked h1 h2 h3 h4 =>
      exact .finAcked (by simpa using h1) h2 (by simpa using h3) (by simpa using h4)
  constructor
  · intro ho hne
    refine hends (handle_ends ?_ ?_ ?_ hx ho (by simpa using hne))
    · rw [heard_ctl]
      exact hu.ready.coherent
    · rw [heard_ctl]
      exact hu.settled
    · exact hu.finLast.same (by simp) (by simp) (by simp) (by simp)
  · intro hs hsyn hr
    rw [handle_synchronized seg (by simpa using hs)]
    obtain ⟨h1, h2⟩ := handleSynchronized_syn (e := e.enter.heard) hsyn hr
    exact ⟨by rw [h1]; simp, by rw [h2]; simp⟩
  · intro hr
    have hb : e.enter.Blocked := hu.ready.drained.blocked.of_view rfl
    exact Logs.trans (f := e.enter.heard) (.none (by rw [heard_env]; rfl))
      (handle_noRst (hb.of_view heard_sendView) hr)

end TcpEngine

open TcpEngine in
/-- Only a legitimate segment ends a connection, a SYN changes nothing on a synchronized
one, and a RST is never answered with a RST. -/
theorem segment_guarded (args : EngineArgs) (sched : ManualScheduler Callback) (rand : Nat)
    (as : List Action) (e e' : TcpEngine) (data : List UInt8) (seg : TcpSegment)
    (hr : engineMachine.run (init args sched rand) as = some e)
    (hp : TcpSegment.parse data = .ok seg)
    (hs : engineMachine.step e (.segment data) = some e') : e.Guarded seg e' := by
  have hu : e.Upright := engineMachine.invariant_run (fun _ _ _ h hst => h.step hst)
    (upright_init args sched rand) hr
  exact hu.guarded hp hs

def dialStart : TcpEngine :=
  .init { localPort := 1000, remotePort := 80, iss := some 100 } {} 0

/-- A RST at RCV.NXT, after the handshake of `dialRun`. -/
def killingRst : List UInt8 :=
  [0, 80, 3, 232, 0, 0, 3, 233, 0, 0, 0, 101, 80, 20, 255, 255, 0, 0, 0, 0]

def dialRun : List Action :=
  [.activeOpen, .segment [0, 80, 3, 232, 0, 0, 3, 232, 0, 0, 0, 101, 80, 18, 255, 255, 0, 0, 0, 0]]

open TcpEngine in
/-- The RST closes the connection, as the first rule allows. -/
theorem killing_rst_guarded : ∃ e e' seg, engineMachine.run dialStart dialRun = some e ∧
    TcpSegment.parse killingRst = .ok seg ∧ engineMachine.step e (.segment killingRst) = some e' ∧
    e.tcb.state = .established ∧ e'.tcb.state = .closed ∧ e.Guarded seg e' := by
  have h : ((engineMachine.run dialStart dialRun).bind fun e =>
      (engineMachine.step e (.segment killingRst)).map fun e' =>
        (e.tcb.state, e'.tcb.state)) = some (.established, .closed) := by
    decide +kernel
  have hp : ∃ seg, TcpSegment.parse killingRst = .ok seg := ⟨_, rfl⟩
  obtain ⟨e, he, h⟩ := Option.bind_eq_some_iff.mp h
  obtain ⟨e', he', h⟩ := Option.map_eq_some_iff.mp h
  obtain ⟨seg, hseg⟩ := hp
  obtain ⟨h1, h2⟩ := Prod.mk.inj h
  exact ⟨e, e', seg, he, hseg, he', h1, h2,
    segment_guarded _ {} 0 dialRun e e' killingRst seg he hseg he'⟩

end HdlPlayground.Tcp

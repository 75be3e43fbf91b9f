import HdlPlayground.Tcp.Resets
import HdlPlayground.Tcp.TimerSlots
import HdlPlayground.Tcp.Traces

/-!
# The peer's FIN

A FIN of the peer should be consumed once. Outside the arrival of a segment nothing
consumes one; on the arrival the handlers signal the end of the stream at most once,
and then in a state the FIN leads to.
-/
namespace HdlPlayground.Tcp

namespace TcpEngine

variable {a : Action} {e e' f : TcpEngine}

/-- The states in which the peer's FIN has been consumed. -/
abbrev FinTaken : List ConnState := [.closeWait, .closing, .lastAck, .timeWait]

/-! ## Signalling the end of the stream -/

/-- The markers since the connection was opened; each open leaves CLOSED. -/
def countEof (n : Nat) : Event → Nat
  | .eof => n + 1
  | .stateChange .closed _ => 0
  | _ => n

def eofs (e : TcpEngine) : Nat := e.env.log.foldl countEof 0

theorem countEof_le {n : Nat} {ev : Event} (h : ev ≠ .eof) : countEof n ev ≤ n := by
  unfold countEof
  split
  · exact absurd rfl h
  · exact Nat.zero_le n
  · exact Nat.le_refl n

theorem foldl_countEof_le (evs : List Event) (n : Nat) (h : ∀ ev ∈ evs, ev ≠ .eof) :
    evs.foldl countEof n ≤ n := by
  induction evs generalizing n with
  | nil => exact Nat.le_refl n
  | cons ev evs ih =>
    obtain ⟨h1, h2⟩ := List.forall_mem_cons.mp h
    exact (ih _ h2).trans (countEof_le h1)

theorem Logs.eofs_le (h : Logs (· ≠ .eof) e f) : f.eofs ≤ e.eofs := by
  obtain ⟨evs, hl, hall⟩ := h
  rw [eofs, eofs, hl, List.foldl_append]
  exact foldl_countEof_le evs _ hall

/-- At most one marker is logged, and only in a state that the FIN leads to. -/
def Signals (e f : TcpEngine) : Prop :=
  Logs (· ≠ .eof) e f ∨ f.eofs ≤ e.eofs + 1 ∧ f.tcb.state ∈ FinTaken

theorem Signals.after (h : Logs (· ≠ .eof) e f) (h' : Signals f e') : Signals e e' := by
  rcases h' with h' | ⟨h1, h2⟩
  · exact Or.inl (h.trans h')
  · exact Or.inr ⟨h1.trans (Nat.add_le_add_right h.eofs_le 1), h2⟩

theorem sendAck_plain : Logs (· ≠ .eof) e e.sendAck :=
  .one (.tx e.ackSegment) (by simp) (by simp)

theorem consumeFin_eofs : e.consumeFin.eofs ≤ e.eofs + 1 := by
  unfold consumeFin signalClose
  split
  · simp [eofs, countEof]
  · exact Nat.le_succ e.eofs

theorem processFin_taken (hs : e.tcb.state ∈ OpenStates) : e.processFin.tcb.state ∈ FinTaken := by
  obtain ⟨st, hst, h⟩ | ⟨-, h⟩ := processFin_cases (e := e)
  · rw [h, setState_tcb]
    rcases hst with ⟨-, rfl⟩ | ⟨-, rfl⟩ | ⟨hn, rfl⟩
    · simp
    · simp
    · simp only [List.mem_cons, List.not_mem_nil, or_false, not_or] at hs hn ⊢
      tauto
  · rw [h]
    simp

theorem processFin_signals (hs : e.tcb.state ∈ OpenStates) : Signals e e.processFin := by
  refine Or.inr ⟨?_, processFin_taken hs⟩
  have hlog : Logs (· ≠ .eof) e.consumeFin e.processFin := by
    obtain ⟨st, -, h⟩ | ⟨-, h⟩ := processFin_cases (e := e)
    · rw [h]
      exact sendAck_plain.trans (setState_logs st (by simp))
    · rw [h]
      exact sendAck_plain.trans (Logs.trans
        (f := e.consumeFin.sendAck.stopRt.dropPersistTimer) (.none rfl)
        ((setState_logs _ (by simp)).trans (.none rfl)))
  exact hlog.eofs_le.trans consumeFin_eofs

theorem finCheck_signals (seg : TcpSegment) (hs : e.tcb.state ∈ OpenStates) :
    Signals e (e.finCheck seg).checkPendingFin := by
  have hcheck {g : TcpEngine} (hg : g.tcb.state ∈ OpenStates) : Signals g g.checkPendingFin := by
    unfold checkPendingFin
    split
    · exact processFin_signals hg
    · exact Or.inl (.none rfl)
  unfold finCheck
  dsimp only
  split_ifs
  · rw [checkPendingFin, if_neg (by simp [processFin_pendingFin])]
    exact processFin_signals hs
  · exact Signals.after (f := e.deferFin (add seg.seq seg.payload.length)) (.none rfl) (hcheck hs)
  · exact hcheck hs
  · exact hcheck hs

theorem sendPending_plain : Logs (· ≠ .eof) e e.sendPending :=
  sendPending_logs (by simp) (by simp)

theorem textAndFin_signals (seg : TcpSegment) (hs : e.tcb.state ∈ OpenStates) :
    Signals e (e.textAndFin seg) := by
  unfold textAndFin
  dsimp only
  split
  · refine .after (recvData_logs (by simp) (by simp) seg) (.after sendPending_plain
      (finCheck_signals seg (sendPending_open ?_)))
    rwa [(recvData_frame e seg).state]
  · exact .after sendPending_plain (finCheck_signals seg (sendPending_open hs))

theorem processAck_plain (ack : Int) : Logs (· ≠ .eof) e (e.processAck ack) := .none (by simp)

theorem establishedAck_signals (seg : TcpSegment) (hs : e.tcb.state ∈ OpenStates) :
    Signals e (e.establishedAck seg) := by
  unfold establishedAck
  split
  · exact Or.inl sendAck_plain
  dsimp only
  have hp : Logs (· ≠ .eof) e (if seqGt seg.ack e.tcb.sndUna then e.processAck seg.ack else e) := by
    split
    · exact processAck_plain _
    · exact .none rfl
  have hs1 : (if seqGt seg.ack e.tcb.sndUna then e.processAck seg.ack else e).tcb.state ∈
      OpenStates := by
    split
    · simpa using hs
    · exact hs
  generalize (if seqGt seg.ack e.tcb.sndUna then e.processAck seg.ack else e) = f at hp hs1
  have hw : Logs (· ≠ .eof) f (f.windowUpdate seg) := windowUpdate_logs seg (by simp) (by simp)
  have hs2 := windowUpdate_open seg hs1
  refine .after (hp.trans hw) ?_
  generalize f.windowUpdate seg = g at hs2
  split_ifs
  · exact .after (setState_logs _ (by simp)) (textAndFin_signals seg (by simp))
  · exact Or.inl (enterTimeWait_logs (by simp) (by simp))
  · exact Or.inl (enterClosed_sends (by simp) (by simp))
  · exact textAndFin_signals seg hs2

theorem emitRstReply_plain (seg : TcpSegment) (seq ack : Int) (b : Bool) :
    Logs (· ≠ .eof) e (e.emitRstReply seg seq ack b) :=
  .one _ (by rw [emitRstReply_eq]; rfl) (by simp)

theorem synReceivedAck_signals (seg : TcpSegment) : Signals e (e.synReceivedAck seg) := by
  unfold synReceivedAck
  split
  · dsimp only
    have h1 : Logs (· ≠ .eof) e ((e.processAck seg.ack).setSendWindow seg.window seg.seq seg.ack) :=
      (processAck_plain _).trans (.none rfl)
    refine .after (h1.trans ((setState_logs .established (by simp)).trans
      ((mergeLoop_logs (by simp) _).trans sendPending_plain))) (textAndFin_signals seg
        (sendPending_open ?_))
    rw [(mergeLoop_frame _ _).state]
    simp
  · exact Or.inl (emitRstReply_plain _ _ _ _)

theorem doReset_plain : Logs (· ≠ .eof) e e.doReset := by
  by_cases hl : e.tcb.state = .synReceived ∧ e.fin.passive = true
  · rw [doReset_listen hl.1 hl.2]
    exact (setState_logs _ (by simp)).trans (.none rfl)
  · obtain ⟨msg, -, h⟩ := doReset_close hl
    rw [h]
    exact Logs.trans (f := e.signalError msg) (.one _ rfl (by simp))
      (enterClosed_sends (by simp) (by simp))

theorem handleSynchronized_signals (seg : TcpSegment) (hs : e.tcb.state ∈ SyncStates) :
    Signals e (e.handleSynchronized seg) := by
  unfold handleSynchronized
  split_ifs with htw h1 h2 h3 h4 h5 h6 hsr
  · unfold timeWaitArrives
    split_ifs
    · exact Or.inl (enterClosed_sends (by simp) (by simp))
    · exact Or.inl sendAck_plain
    · exact Or.inl (sendAck_plain.trans (.none rfl))
    · exact Or.inl sendAck_plain
  · exact Or.inl (.none rfl)
  · exact Or.inl sendAck_plain
  · exact Or.inl doReset_plain
  · exact Or.inl sendAck_plain
  · exact Or.inl sendAck_plain
  · exact Or.inl (.none rfl)
  · exact synReceivedAck_signals seg
  · rw [List.mem_cons, List.mem_cons] at hs
    exact establishedAck_signals seg ((hs.resolve_left htw).resolve_left hsr)

theorem synSentEstablished_signals (seg : TcpSegment) : Signals e (e.synSentEstablished seg) := by
  unfold synSentEstablished
  dsimp only
  have h1 : Logs (· ≠ .eof) e (e.setState .established).sendAck.sendPending :=
    (setState_logs .established (by simp)).trans (sendAck_plain.trans sendPending_plain)
  refine .after h1 ?_
  have hs : (e.setState .established).sendAck.sendPending.tcb.state ∈ OpenStates :=
    sendPending_open (by simp)
  split_ifs
  · exact handleSynchronized_signals _ (List.mem_cons_of_mem _ (List.mem_cons_of_mem _ hs))
  · exact Or.inl (.none rfl)

theorem simultaneousOpen_plain (seg : TcpSegment) : Logs (· ≠ .eof) e (e.simultaneousOpen seg) := by
  have h1 : Logs (· ≠ .eof) e e.becomeSynReceived :=
    (setState_logs .synReceived (by simp)).trans (.none rfl)
  unfold simultaneousOpen
  dsimp only
  apply h1.trans
  generalize e.becomeSynReceived = f
  have h2 : Logs (· ≠ .eof) f (if seg.payload ≠ [] then
      f.storeOoo (add seg.seq 1) seg.payload { seg.flags with fin := false } else f) := by
    split
    · exact .none (storeOoo_env _ _ _)
    · exact .none rfl
  refine h2.trans ?_
  generalize (if seg.payload ≠ [] then
    f.storeOoo (add seg.seq 1) seg.payload { seg.flags with fin := false } else f) = g
  have h3 : Logs (· ≠ .eof) g (if seg.fin then
      g.deferFin (add (add seg.seq 1) seg.payload.length) else g) := by
    split
    · exact .none rfl
    · exact .none rfl
  exact h3.trans (makeAndTransmit_logs _ _ _ _ _ (by simp))

theorem handleSynSent_signals (seg : TcpSegment) : Signals e (e.handleSynSent seg) := by
  unfold handleSynSent
  dsimp only
  split_ifs
  · exact Or.inl (.none rfl)
  · exact Or.inl (emitRstReply_plain _ _ _ _)
  · exact Or.inl (Logs.trans (f := e.signalError "connection refused") (.one _ rfl (by simp))
      (enterClosed_sends (by simp) (by simp)))
  · exact Or.inl (.none rfl)
  · exact Or.inl (.none rfl)
  · exact .after (.none (takeSyn_env seg)) (synSentEstablished_signals seg)
  · exact Or.inl (Logs.trans (.none (takeSyn_env seg)) (simultaneousOpen_plain seg))

theorem acceptSyn_plain (seg : TcpSegment) (hs : e.tcb.state = .listen) :
    Logs (· ≠ .eof) e (e.acceptSyn seg) := by
  obtain ⟨m, -, -, hm⟩ := acceptSyn_eq (e := e) seg hs
  rw [hm]
  exact Logs.trans (f := e.listenTaken seg m) (.one _ rfl (by simp))
    (queueAndSend_logs _ _ _ _ (by simp))

theorem handleClosed_plain (seg : TcpSegment) : Logs (· ≠ .eof) e (e.handleClosed seg) := by
  unfold handleClosed
  split_ifs
  · exact .none rfl
  · exact emitRstReply_plain _ _ _ _
  · exact emitRstReply_plain _ _ _ _

/-- A segment signals the end of the stream at most once. -/
theorem handle_signals (seg : TcpSegment) : Signals e (e.handle seg) := by
  rcases e.state_cases with hs | hs | hs | hs
  · rw [handle_closed seg hs]
    exact Or.inl (handleClosed_plain seg)
  · rw [handle_listen seg hs]
    unfold handleListen
    split_ifs
    · exact Or.inl (.none rfl)
    · exact Or.inl (emitRstReply_plain _ _ _ _)
    · exact Or.inl (.none rfl)
    · exact Or.inl (.none rfl)
    · exact Or.inl (acceptSyn_plain seg hs)
  · rw [handle_synSent seg hs]
    exact handleSynSent_signals seg
  · rw [handle_synchronized seg hs]
    exact handleSynchronized_signals seg hs

/-! ## Outside the arrival of a segment -/

/-- Text or the end of the stream. -/
def Event.Text (ev : Event) : Prop := ev = .eof ∨ ∃ data, ev = .deliver data

/-- RCV.NXT stays, and nothing is delivered or signalled. -/
structure Still (e f : TcpEngine) : Prop where
  rcvNxt : f.tcb.rcvNxt = e.tcb.rcvNxt
  logs : Logs (fun ev => ¬ Event.Text ev) e f

theorem Still.refl (e : TcpEngine) : Still e e := ⟨rfl, .none rfl⟩

theorem Still.trans (h : Still e f) (h' : Still f e') : Still e e' :=
  ⟨h'.rcvNxt.trans h.rcvNxt, h.logs.trans h'.logs⟩

theorem Emits.not_text {ev : Event} (ha : ∀ seg, ¬ a.Carries seg) (h : Emits a e e' ev) :
    ¬ Event.Text ev := by
  rintro (rfl | ⟨data, rfl⟩)
  · cases h with
    | eof hn =>
      obtain ⟨seg, hc, -⟩ := hn
      exact ha seg hc
  · cases h

theorem Move.still (ha : ∀ seg, ¬ a.Carries seg) (hm : Move a e e') : Still e e' := by
  have hlog : Logs (fun ev => ¬ Event.Text ev) e e' := by
    rcases hm.logs with hr | hl
    · exfalso
      cases hr with
      | takeInOrder seg off n hc => exact ha seg hc
      | mergeEntry seg x hc => exact ha seg hc
    · exact hl.mono fun ev hev => hev.not_text ha
  refine ⟨?_, hlog⟩
  cases hm with
  | receive _ hr =>
    exfalso
    cases hr with
    | takeInOrder seg off n hc => exact ha seg hc
    | mergeEntry seg x hc => exact ha seg hc
  | processAck seg hc => exact absurd hc (ha seg)
  | acceptSyn seg hc => exact absurd hc (ha seg)
  | synEstablished seg hc => exact absurd hc (ha seg)
  | synReceived seg hc => exact absurd hc (ha seg)
  | storeSynData seg hc => exact absurd hc (ha seg)
  | completeOpen seg hc => exact absurd hc (ha seg)
  | storeOoo seg n hc => exact absurd hc (ha seg)
  | processFin hs hn =>
    obtain ⟨seg, hc, -⟩ := hn
    exact absurd hc (ha seg)
  | listenAgain hs hp hn =>
    obtain ⟨seg, hc, -⟩ := hn
    exact absurd hc (ha seg)
  | connect ho hx =>
    rw [connect_eq (ho.imp And.left id)]
    simp [dialled]
  | startListening => simp [TcpEngine.startListening]
  | sendSynAck => simp [TcpEngine.sendSynAck]
  | sendChunk => exact (sendChunk_frame _).rcvNxt
  | sendFin => exact sendFin_frame.rcvNxt
  | probe h => simp [TcpEngine.sendProbe]
  | probeFin h => exact (sendFin_frame (e := e.fire h)).rcvNxt.trans (by simp)
  | finAckedTimeWait => exact enterTimeWait_frame.rcvNxt
  | giveUpRto h c => rw [giveUp_rcvNxt]; split <;> simp
  | _ => first | rfl | simp

theorem Path.still (ha : ∀ seg, ¬ a.Carries seg) (h : Path a e e') : Still e e' := by
  induction h with
  | refl => exact .refl e
  | tail _ hm ih => exact ih.trans (hm.still ha)

theorem fire_twTimer {g : TimerHandle Callback} (ht : e.TimerInv) (hl : g ∈ e.tm.sched.live)
    (hcb : g.cb ≠ .onTimeWait) : (e.fire g).tm.twTimer = e.tm.twTimer :=
  (fire_retimes hl).other ht.timely .onTimeWait (by simpa using hcb.symm)

/-- Outside the arrival of a segment the 2*MSL timer stays until the connection ends. -/
theorem Move.keepsTimeWait (ha : ∀ seg, ¬ a.Carries seg) (ht : e.TimerInv)
    (hs : e.tcb.state = .timeWait) (hm : Move a e e') :
    e'.tcb.state = .closed ∧ ¬ a.Opens ∨
      e'.tcb.state = .timeWait ∧ e'.tm.twTimer = e.tm.twTimer := by
  have hcan : ¬ e.CanSend := by simp [CanSend, hs]
  have hends (hx : a.Closes) : ¬ a.Opens := fun ho => ho.not_closes hx
  cases hm with
  | close hx => exact Or.inl ⟨by simp, hends hx⟩
  | abort hx => exact Or.inl ⟨by simp, hends hx⟩
  | giveUp msg hx => exact Or.inl ⟨by simp, hends hx⟩
  | giveUpRto g c msg hx => exact Or.inl ⟨by simp, hends hx⟩
  | timeWaitExpires g hx => exact Or.inl ⟨by simp, hends hx⟩
  | armPersist h => exact absurd h.1 hcan
  | sendFin h => exact absurd h hcan
  | sendChunk h =>
    exfalso
    rw [hs] at h
    simp at h
  | fire g hl hcb =>
    refine Or.inr ⟨by simp [hs], fire_twTimer ht hl fun hc => ?_⟩
    rw [hc] at hcb
    simp at hcb
  | retransmit g o rest hl hcb _ =>
    have hne : g.cb ≠ .onTimeWait := by simp [hcb]
    have h1 : (e.fire g).TimerInv := ht.of_retimes (fire_retimes hl) (by simp [hcb]) (by simp)
    have hn : (e.fire g).countRto.tm.rtTimer = none := fire_rtTimer hcb
    have h2 := (retransmitHead_retimes o rest hn).other h1.timely .onTimeWait (by simp)
    exact Or.inr ⟨by simp [hs], h2.trans (fire_twTimer ht hl hne)⟩
  | probe g _ hl hcb =>
    have hne : g.cb ≠ .onTimeWait := by simp [hcb]
    have h1 : (e.fire g).TimerInv := ht.of_retimes (fire_retimes hl) (by simp [hcb]) (by simp)
    have h2 := (queueAndSend_retimes (e := (e.fire g).takeChunk 1) h1.timely
      { ack := true } ((e.fire g).buf.appBuf.take 1) false 0).other h1.timely .onTimeWait (by simp)
    exact Or.inr ⟨by simp [TcpEngine.sendProbe, hs], h2.trans (fire_twTimer ht hl hne)⟩
  | probeFin g _ hl hcb =>
    have hne : g.cb ≠ .onTimeWait := by simp [hcb]
    have h1 : (e.fire g).TimerInv := ht.of_retimes (fire_retimes hl) (by simp [hcb]) (by simp)
    have h2 := (sendFin_retimes h1.timely).other h1.timely .onTimeWait (by simp)
    refine Or.inr ⟨?_, h2.trans (fire_twTimer ht hl hne)⟩
    obtain ⟨st, hst, hcase⟩ := sendFin_tcb (e := e.fire g)
    simp only [fire_tcb, hs] at hcase
    simpa [hst] using hcase
  | receive _ hr =>
    exfalso
    cases hr with
    | takeInOrder seg off n hc => exact ha seg hc
    | mergeEntry seg x hc => exact ha seg hc
  | _ => first
    | exact absurd ‹_› (ha _)
    | exact Or.inr ⟨hs, rfl⟩
    | exact Or.inr ⟨by simp [hs], by simp⟩
    | (exfalso; simp_all)

theorem Control.staysClosed {c c' : Ctl} (h : Control a c c') (ho : ¬ a.Opens)
    (hc : c.1 = .closed) : c'.1 = .closed := by
  by_contra hne
  by_cases hl : c'.1 = .listen
  · exact ho (h.listens hc hl)
  · exact ho ((h.begins (by simp [hc]) (by simp [hne, hl])).2 hc)

theorem Path.keepsTimeWait (ha : ∀ seg, ¬ a.Carries seg) (ht : e.TimerInv)
    (hs : e.tcb.state = .timeWait) (h : Path a e e') :
    e'.tcb.state = .closed ∨ e'.tcb.state = .timeWait ∧ e'.tm.twTimer = e.tm.twTimer := by
  have hP := h.preserves
    (P := fun f => f.TimerInv ∧ (f.tcb.state = .closed ∧ ¬ a.Opens ∨
      f.tcb.state = .timeWait ∧ f.tm.twTimer = e.tm.twTimer)) (fun f g hm hf => by
        refine ⟨hf.1.move hm, ?_⟩
        rcases hf.2 with ⟨h1, h2⟩ | ⟨h1, h2⟩
        · exact Or.inl ⟨hm.control.staysClosed h2 h1, h2⟩
        · rw [← h2]
          exact hm.keepsTimeWait ha hf.1 h1) ⟨ht, Or.inr ⟨hs, rfl⟩⟩
  exact hP.2.imp And.left id

/-! ## A segment after the FIN -/

/-- The acknowledgement of our FIN. -/
def AcksFin (e : TcpEngine) (seg : TcpSegment) : Prop :=
  e.fin.finSent = true ∧ seqGt seg.ack e.tcb.sndUna = true ∧ seqGt seg.ack e.fin.finSeq = true

/-- A FIN that is consumed although one has been consumed already. -/
structure Repeats (e : TcpEngine) (seg : TcpSegment) : Prop where
  state : e.tcb.state ∈ [.closeWait, .closing, .lastAck]
  accepted : acceptable seg.seq seg.segLen e.tcb.rcvNxt e.rcvWnd = true
  flags : seg.fin = true ∧ seg.rst = false ∧ seg.syn = false ∧ seg.ackFlag = true
  next : e.tcb.rcvNxt = add seg.seq seg.payload.length
  ack : seqGt seg.ack e.tcb.sndNxt = false
  unfinished : ¬ e.AcksFin seg

instance (e : TcpEngine) (seg : TcpSegment) : Decidable (e.AcksFin seg) :=
  inferInstanceAs (Decidable (_ ∧ _))

instance (e : TcpEngine) (seg : TcpSegment) : Decidable (e.Repeats seg) :=
  decidable_of_iff (e.tcb.state ∈ [.closeWait, .closing, .lastAck] ∧
      acceptable seg.seq seg.segLen e.tcb.rcvNxt e.rcvWnd = true ∧
      (seg.fin = true ∧ seg.rst = false ∧ seg.syn = false ∧ seg.ackFlag = true) ∧
      e.tcb.rcvNxt = add seg.seq seg.payload.length ∧ seqGt seg.ack e.tcb.sndNxt = false ∧
      ¬ e.AcksFin seg)
    ⟨fun ⟨h1, h2, h3, h4, h5, h6⟩ => ⟨h1, h2, h3, h4, h5, h6⟩,
      fun h => ⟨h.state, h.accepted, h.flags, h.next, h.ack, h.unfinished⟩⟩

theorem processFin_rcvNxt : e.processFin.tcb.rcvNxt = add e.tcb.rcvNxt 1 := by
  obtain ⟨st, -, h⟩ | ⟨-, h⟩ := processFin_cases (e := e)
  · simp [h]
  · simp [h]

/-- Where no FIN is next, the check of the FIN bit consumes none. -/
theorem finCheck_still {seg : TcpSegment} (hp : e.fin.pendingFin ≠ some e.tcb.rcvNxt)
    (hn : ¬ (seg.fin = true ∧ e.tcb.rcvNxt = add seg.seq seg.payload.length)) :
    Still e (e.finCheck seg).checkPendingFin := by
  unfold finCheck
  dsimp only
  split_ifs with h1 h2 h3
  · exact absurd ⟨h1, h2⟩ hn
  · rw [checkPendingFin, if_neg]
    · exact ⟨rfl, .none rfl⟩
    · intro hc
      rw [Option.some.inj hc] at h3
      simp only [deferFin, seqGt_self] at h3
      cases h3
  · rw [checkPendingFin, if_neg hp]
    exact .refl e
  · rw [checkPendingFin, if_neg hp]
    exact .refl e

theorem finCheck_takes {seg : TcpSegment} (hf : seg.fin = true)
    (hn : e.tcb.rcvNxt = add seg.seq seg.payload.length) :
    (e.finCheck seg).checkPendingFin.tcb.rcvNxt = add e.tcb.rcvNxt 1 := by
  rw [finCheck, if_pos hf]
  dsimp only
  rw [if_pos hn, checkPendingFin, if_neg (by simp [processFin_pendingFin]), processFin_rcvNxt]

theorem SendFrame.still {f : TcpEngine} (h : SendFrame e f)
    (hl : Logs (fun ev => ¬ Event.Text ev) e f) : Still e f := ⟨h.rcvNxt, hl⟩

theorem not_text_tx (s : TcpSegment) : ¬ Event.Text (.tx s) := by simp [Event.Text]

theorem not_text_change (o n : ConnState) : ¬ Event.Text (.stateChange o n) := by
  simp [Event.Text]

theorem sendAck_still : Still e e.sendAck :=
  ⟨by simp, .one (.tx e.ackSegment) (by simp) (not_text_tx _)⟩

theorem sendPending_still : Still e e.sendPending :=
  sendPending_frame.still (sendPending_logs not_text_tx not_text_change)

theorem enterTimeWait_still : Still e e.enterTimeWait :=
  enterTimeWait_frame.still (enterTimeWait_logs not_text_tx not_text_change)

theorem enterClosed_still : Still e e.enterClosed :=
  ⟨by simp, enterClosed_sends not_text_tx not_text_change⟩

/-- After the FIN the text of a segment is ignored, and only its FIN is looked at. -/
theorem textAndFin_taken (seg : TcpSegment) (hs : e.tcb.state ∉ DataStates) :
    e.textAndFin seg = (e.sendPending.finCheck seg).checkPendingFin := by
  rw [textAndFin, if_neg fun h => hs h.2]

/-- The states before TIME-WAIT in which the FIN has been consumed. -/
theorem windowUpdate_taken (seg : TcpSegment)
    (hs : e.tcb.state ∈ [.closeWait, .closing, .lastAck]) :
    (e.windowUpdate seg).tcb.state ∈ [.closeWait, .closing, .lastAck] := by
  have hsend {f : TcpEngine} (hf : f.tcb.state = e.tcb.state) :
      f.sendPending.tcb.state ∈ [.closeWait, .closing, .lastAck] := by
    rcases sendPending_state (e := f) with ⟨h, -⟩ | ⟨⟨h1 | h1, -⟩ | ⟨-, h1⟩, -⟩
    · rw [h, hf]
      exact hs
    · rw [← hf, h1] at hs
      simp at hs
    · rw [← hf, h1] at hs
      simp at hs
    · rw [h1]
      simp
  unfold windowUpdate
  dsimp only
  split_ifs
  · exact hsend rfl
  · exact hs
  · exact hs

/-- With the FIN consumed the acknowledgement of ours ends the exchange, and any other
leads on to the check of the FIN bit. -/
theorem establishedAck_taken {seg : TcpSegment} (hf : FinSane e) (hset : Settled e.ctl)
    (hs : e.tcb.state ∈ [.closeWait, .closing, .lastAck])
    (hle : seqGt seg.ack e.tcb.sndNxt = false) :
    ∃ g, SendFrame e g ∧ Still e g ∧ g.tcb.state ∈ [.closeWait, .closing, .lastAck] ∧
      (e.AcksFin seg ∧
          (e.establishedAck seg = g.enterTimeWait ∨ e.establishedAck seg = g.enterClosed) ∨
        ¬ e.AcksFin seg ∧ e.establishedAck seg = g.textAndFin seg) := by
  have hna : e.fin.finAcked = false := by
    simp only [List.mem_cons, List.not_mem_nil, or_false] at hs
    rcases hs with hs | hs | hs
    · exact (hf.unacked (by simp [hs])).2
    · exact hset (by simp [ctl, hs])
    · exact hset (by simp [ctl, hs])
  have hgt : ¬ seqGt seg.ack e.tcb.sndNxt = true := by simp [hle]
  rw [establishedAck, if_neg hgt]
  dsimp only
  have h1 : SendFrame e (if seqGt seg.ack e.tcb.sndUna then e.processAck seg.ack else e) ∧
      Still e (if seqGt seg.ack e.tcb.sndUna then e.processAck seg.ack else e) := by
    split
    · exact ⟨processAck_frame _, (processAck_frame _).still (.none (by simp))⟩
    · exact ⟨.refl e, .refl e⟩
  have hf1 : FinSane (if seqGt seg.ack e.tcb.sndUna then e.processAck seg.ack else e) := by
    split
    · exact hf.processAck seg.ack
    · exact hf
  have hs1 : (if seqGt seg.ack e.tcb.sndUna then e.processAck seg.ack else e).tcb.state =
      e.tcb.state := by
    split
    · simp
    · rfl
  have hacked : (if seqGt seg.ack e.tcb.sndUna then e.processAck seg.ack else e).fin.finAcked =
      (e.fin.finSent && seqGt seg.ack e.tcb.sndUna && seqGt seg.ack e.fin.finSeq) := by
    split
    · next h => simp [hna, h]
    · next h => simp [hna, h]
  generalize (if seqGt seg.ack e.tcb.sndUna then e.processAck seg.ack else e) = f
    at h1 hf1 hs1 hacked
  obtain ⟨hfa, hst⟩ := windowUpdate_sent seg hf1
  have hw :=
    (windowUpdate_frame (e := f) seg).still (windowUpdate_logs seg not_text_tx not_text_change)
  have hst2 := windowUpdate_taken seg (e := f) (by rw [hs1]; exact hs)
  refine ⟨f.windowUpdate seg, h1.1.trans (windowUpdate_frame seg), h1.2.trans hw, hst2, ?_⟩
  have hiff : (f.windowUpdate seg).fin.finAcked = true ↔ e.AcksFin seg := by
    rw [hfa, hacked]
    simp [AcksFin, and_assoc]
  have hfw : ¬ ((f.windowUpdate seg).tcb.state = .finWait1 ∧
      (f.windowUpdate seg).fin.finAcked = true) := by
    rintro ⟨h, -⟩
    simp [h] at hst2
  rw [if_neg hfw]
  by_cases ha : e.AcksFin seg
  · refine Or.inl ⟨ha, ?_⟩
    have hfa2 := hiff.mpr ha
    have hfs := hf1.acked (hfa ▸ hfa2)
    have hne : (f.windowUpdate seg).tcb.state ≠ .closeWait := by
      intro h
      have hm := hf1.sent hfs
      rw [← hst hfs, h] at hm
      simp at hm
    simp only [List.mem_cons, List.not_mem_nil, or_false, hne, false_or] at hst2
    rcases hst2 with h | h
    · exact Or.inl (if_pos ⟨h, hfa2⟩)
    · right
      rw [if_neg (by simp [h]), if_pos ⟨h, hfa2⟩]
  · refine Or.inr ⟨ha, ?_⟩
    have hfa2 : ¬ (f.windowUpdate seg).fin.finAcked = true := fun h => ha (hiff.mp h)
    rw [if_neg fun h => hfa2 h.2, if_neg fun h => hfa2 h.2]

theorem not_dataStates (hs : e.tcb.state ∈ [.closeWait, .closing, .lastAck]) :
    e.tcb.state ∉ DataStates := by
  simp only [List.mem_cons, List.not_mem_nil, or_false] at hs ⊢
  rcases hs with hs | hs | hs <;> simp [hs]

/-- After the FIN a segment changes nothing on the receive side, but for a FIN in sequence. -/
theorem handle_still {seg : TcpSegment} (hf : FinSane e) (hset : Settled e.ctl)
    (hs : e.tcb.state ∈ FinTaken) (hp : e.fin.pendingFin ≠ some e.tcb.rcvNxt)
    (hn : ¬ e.Repeats seg) : Still e (e.handle seg) := by
  have hsync : e.tcb.state ∈ SyncStates := by
    simp only [List.mem_cons, List.not_mem_nil, or_false] at hs ⊢
    tauto
  rw [handle_synchronized seg hsync]
  by_cases htw : e.tcb.state = .timeWait
  · rw [handleSynchronized, if_pos htw, timeWaitArrives]
    split_ifs
    · exact enterClosed_still
    · exact sendAck_still
    · exact sendAck_still.trans ⟨rfl, .none rfl⟩
    · exact sendAck_still
  have hs' : e.tcb.state ∈ [.closeWait, .closing, .lastAck] := by
    simp only [List.mem_cons, List.not_mem_nil, or_false] at hs ⊢
    tauto
  have hsr : e.tcb.state ≠ .synReceived := by
    intro h
    simp [h] at hs'
  rw [handleSynchronized, if_neg htw, if_neg hsr]
  split_ifs with h1 h2 h3 h4 h5 h6
  · exact .refl e
  · exact sendAck_still
  · obtain ⟨msg, -, h⟩ := doReset_close (e := e) fun h => hsr h.1
    rw [h]
    exact Still.trans (f := e.signalError msg) ⟨rfl, .one _ rfl (by simp [Event.Text])⟩
      enterClosed_still
  · exact sendAck_still
  · exact sendAck_still
  · exact .refl e
  · by_cases hle : seqGt seg.ack e.tcb.sndNxt = true
    · rw [establishedAck, if_pos hle]
      exact sendAck_still
    · have hle' : seqGt seg.ack e.tcb.sndNxt = false := by simpa using hle
      obtain ⟨g, hg, hgs, hst, ⟨ha, h | h⟩ | ⟨ha, h⟩⟩ := establishedAck_taken hf hset hs' hle'
      · rw [h]
        exact hgs.trans enterTimeWait_still
      · rw [h]
        exact hgs.trans enterClosed_still
      · rw [h, textAndFin_taken seg (not_dataStates hst)]
        have hfr := hg.trans (sendPending_frame (e := g))
        refine hgs.trans (sendPending_still.trans (finCheck_still ?_ ?_))
        · rw [hfr.pendingFin, hfr.rcvNxt]
          exact hp
        · rintro ⟨hfin, hnext⟩
          rw [hfr.rcvNxt] at hnext
          exact hn ⟨hs', by simpa using h1, ⟨hfin, by simpa using h3, by simpa using h5,
            by simpa using h6⟩, hnext, hle', ha⟩

/-- The FIN in sequence is consumed once more. -/
theorem Repeats.rcvNxt {seg : TcpSegment} (h : e.Repeats seg) (hf : FinSane e)
    (hset : Settled e.ctl) : (e.handle seg).tcb.rcvNxt = add e.tcb.rcvNxt 1 := by
  obtain ⟨hs, hacc, ⟨hfin, hr, hsyn, hack⟩, hnext, hle, hun⟩ := h
  have hsync : e.tcb.state ∈ SyncStates := by
    simp only [List.mem_cons, List.not_mem_nil, or_false] at hs ⊢
    tauto
  have hne : e.tcb.state ≠ .timeWait ∧ e.tcb.state ≠ .synReceived := by
    simp only [List.mem_cons, List.not_mem_nil, or_false] at hs
    rcases hs with hs | hs | hs <;> simp [hs]
  rw [handle_synchronized seg hsync, handleSynchronized, if_neg hne.1, if_neg (by simp [hacc]),
    if_neg (by simp [hr]), if_neg (by simp [hsyn]), if_neg (by simp [hack]), if_neg hne.2]
  obtain ⟨g, hg, -, hst, ⟨ha, -⟩ | ⟨-, h⟩⟩ := establishedAck_taken hf hset hs hle
  · exact absurd ha hun
  · have hfr := hg.trans (sendPending_frame (e := g))
    rw [h, textAndFin_taken seg (not_dataStates hst),
      finCheck_takes hfin (by rw [hfr.rcvNxt, hnext]), hfr.rcvNxt]

/-! ## Runs -/

/-- The number the FIN of a segment occupies, its last one. -/
def finAt (seg : TcpSegment) : Int := add seg.seq (seg.segLen - 1)

/-- The step consumes no FIN again: once one has been consumed nothing more is received,
and only its retransmission restarts the 2*MSL timer. -/
structure FinOnce (e : TcpEngine) (a : Action) (e' : TcpEngine) : Prop where
  still : e.tcb.state ∈ FinTaken → Still e e'
  restart : e.tcb.state = .timeWait → e'.tcb.state = .timeWait →
    e'.tm.twTimer ≠ e.tm.twTimer → ∃ data seg, a = .segment data ∧
      TcpSegment.parse data = .ok seg ∧ seg.fin = true ∧ finAt seg = sub e.tcb.rcvNxt 1

/-- The arriving segment carries no FIN that is taken for the one consumed. -/
def FairFin (e : TcpEngine) (a : Action) : Prop :=
  ∀ data seg, a = .segment data → TcpSegment.parse data = .ok seg → e.Addressed seg →
    ¬ e.Repeats seg ∧
      (e.tcb.state = .timeWait → seg.fin = true → seg.rst = false →
        finAt seg = sub e.tcb.rcvNxt 1)

instance (e : TcpEngine) (a : Action) : Decidable (e.FairFin a) :=
  match a with
  | .segment data =>
    match h : TcpSegment.parse data with
    | .error msg => isTrue fun d s hd hs => by cases hd; rw [h] at hs; cases hs
    | .ok seg =>
      decidable_of_iff (e.Addressed seg → ¬ e.Repeats seg ∧
          (e.tcb.state = .timeWait → seg.fin = true → seg.rst = false →
            finAt seg = sub e.tcb.rcvNxt 1)) (by
        constructor
        · intro hx d s hd hs
          cases hd
          rw [h] at hs
          obtain rfl := Except.ok.inj hs
          exact hx
        · exact fun hx => hx data seg rfl h)
  | .tick _ | .random _ | .openCall .. | .activeOpen | .passiveOpen | .send .. | .receive _ | .close
  | .abort | .expire _ => isTrue fun _ _ hd => by cases hd

/-- A deferred FIN is not the next one, once a FIN has been consumed. -/
def Deferred (e : TcpEngine) : Prop :=
  e.tcb.state ∈ FinTaken → e.fin.pendingFin ≠ some e.tcb.rcvNxt

theorem Deferred.same (h : e.Deferred) (h1 : e'.tcb.state = e.tcb.state)
    (h2 : e'.fin.pendingFin = e.fin.pendingFin) (h3 : e'.tcb.rcvNxt = e.tcb.rcvNxt) :
    e'.Deferred := by
  rw [Deferred, h1, h2, h3]
  exact h

theorem deferred_of_state (h : e.tcb.state ∉ FinTaken) : e.Deferred := fun hs => absurd hs h

theorem Deferred.sendFin (h : e.Deferred) : e.sendFin.Deferred := by
  obtain ⟨st, hst, hcase⟩ := sendFin_tcb (e := e)
  intro hs
  rw [sendFin_frame.pendingFin, sendFin_frame.rcvNxt]
  apply h
  rw [hst] at hs
  rcases hcase with ⟨-, rfl⟩ | ⟨h1, -⟩ | ⟨-, rfl⟩ | ⟨-, rfl⟩
  · simp at hs
  · simp [h1]
  · simp at hs
  · exact hs

theorem Deferred.move (hm : Move a e e') (h : e.Deferred) : e'.Deferred := by
  cases hm with
  | processFin =>
    intro _
    rw [processFin_pendingFin]
    simp
  | deferFin seg _ _ _ _ hgt =>
    intro _ hc
    have hq : e.tcb.rcvNxt = add seg.seq seg.payload.length := (Option.some.inj hc).symm
    rw [← hq, seqGt_self] at hgt
    cases hgt
  | sendFin => exact h.sendFin
  | probeFin g =>
    have h1 : (e.fire g).Deferred := h.same (by simp) (by simp) (by simp)
    exact h1.sendFin.same rfl rfl rfl
  | finAckedTimeWait hs =>
    intro _
    rw [enterTimeWait_frame.pendingFin, enterTimeWait_frame.rcvNxt]
    exact h (by simp [hs])
  | finAckedWait => exact deferred_of_state (by simp)
  | connect ho =>
    rw [connect_eq (ho.imp And.left id)]
    exact deferred_of_state (by simp [dialled])
  | startListening => exact deferred_of_state (by simp [TcpEngine.startListening])
  | acceptSyn seg _ hs =>
    obtain ⟨m, -, -, hm⟩ := acceptSyn_eq (e := e) seg hs
    rw [hm]
    exact deferred_of_state (by simp [listenTaken, listenTcb])
  | synEstablished => exact deferred_of_state (by simp)
  | synReceived => exact deferred_of_state (by simp [becomeSynReceived])
  | completeOpen => exact deferred_of_state (by simp [openCompleted])
  | listenAgain hs hp =>
    rw [doReset_listen hs hp]
    exact deferred_of_state (by simp [restorePort])
  | storeSynData seg _ hs =>
    exact deferred_of_state (by rw [(storeOoo_frame _ _ _ _).state, hs]; simp)
  | deferSynFin seg _ hs => exact deferred_of_state (by simp [TcpEngine.deferFin, hs])
  | storeOoo seg n _ hs =>
    apply deferred_of_state
    rw [(storeOoo_frame _ _ _ _).state]
    simp only [List.mem_cons, List.not_mem_nil, or_false] at hs
    rcases hs with hs | hs | hs <;> simp [hs]
  | receive _ hr =>
    have hs : e.tcb.state ∈ DataStates := by
      cases hr with
      | takeInOrder seg off n _ hs => exact hs
      | mergeEntry seg x _ hs => exact hs
    apply deferred_of_state
    rw [hr.frame.state]
    simp only [List.mem_cons, List.not_mem_nil, or_false] at hs
    rcases hs with hs | hs | hs <;> simp [hs]
  | sendSynAck hs => exact deferred_of_state (by simp [TcpEngine.sendSynAck, hs])
  | sendChunk =>
    exact h.same (by simp) (sendChunk_frame _).pendingFin (sendChunk_frame _).rcvNxt
  | probe g =>
    exact h.same (by simp [TcpEngine.sendProbe]) (by simp [TcpEngine.sendProbe])
      (by simp [TcpEngine.sendProbe])
  | close => exact deferred_of_state (by simp)
  | abort => exact deferred_of_state (by simp)
  | giveUp => exact deferred_of_state (by simp)
  | giveUpRto => exact deferred_of_state (by simp)
  | timeWaitExpires => exact deferred_of_state (by simp)
  | _ => first | exact h | exact h.same (by simp) (by simp) (by simp)

/-- What holds at the end of every entry point. -/
structure PastFin (e : TcpEngine) : Prop where
  upright : e.Upright
  timers : e.TimerInv
  deferred : e.Deferred

theorem PastFin.step (h : e.PastFin) (hs : engineMachine.step e a = some e') : e'.PastFin := by
  refine ⟨h.upright.step hs, h.upright.ready.timerInv_step h.timers hs, ?_⟩
  refine h.upright.ready.step_preserves hs ?_ fun _ _ hm => Deferred.move hm
  exact h.deferred.same (by simp) (by simp) (by simp)

theorem pastFin_init (args : EngineArgs) (sched : ManualScheduler Callback) (rand : Nat)
    (hs : sched.heap = []) : (init args sched rand).PastFin :=
  ⟨upright_init args sched rand, timerInv_init args sched rand hs,
    deferred_of_state (by simp [init])⟩

/-- An entry point that takes no segment. -/
theorem PastFin.quiet (h : e.PastFin) (ha : ∀ seg, ¬ a.Carries seg)
    (hs : engineMachine.step e a = some e') : FinOnce e a e' := by
  have hpath := h.upright.ready.path hs
  constructor
  · intro _
    refine Still.trans (f := e.begin a) ⟨by simp, .none (begin_log a)⟩ (hpath.still ha)
  · intro htw htw' hne
    exfalso
    have ht : (e.begin a).TimerInv := timerInv_begin h.timers
    rcases hpath.keepsTimeWait ha ht (by simpa using htw) with hc | ⟨-, hc⟩
    · rw [hc] at htw'
      cases htw'
    · rw [begin_tm] at hc
      exact hne hc

theorem heard_timeWait (hs : e.tcb.state = .timeWait) : e.heard = e := by
  rw [heard, if_neg (by simp [hs])]

theorem repeats_heard {seg : TcpSegment} : e.enter.heard.Repeats seg ↔ e.Repeats seg := by
  have hack : e.enter.heard.AcksFin seg ↔ e.AcksFin seg := by simp [AcksFin]
  have hwnd : e.enter.heard.rcvWnd = e.rcvWnd := heard_rcvWnd
  constructor
  · rintro ⟨h1, h2, h3, h4, h5, h6⟩
    exact ⟨by simpa using h1, by simpa [hwnd] using h2, h3, by simpa using h4, by simpa using h5,
      fun h => h6 (hack.mpr h)⟩
  · rintro ⟨h1, h2, h3, h4, h5, h6⟩
    exact ⟨by simpa using h1, by simpa [hwnd] using h2, h3, by simpa using h4, by simpa using h5,
      fun h => h6 (hack.mp h)⟩

theorem sendAck_twTimer : e.sendAck.tm.twTimer = e.tm.twTimer := by
  rw [sendAck_tm]
  rfl

/-- In TIME-WAIT only a FIN touches the timer, and any FIN does. -/
theorem handle_timeWait {seg : TcpSegment} (hs : e.tcb.state = .timeWait)
    (hs' : (e.handle seg).tcb.state = .timeWait) (hf : ¬ (seg.fin = true ∧ seg.rst = false)) :
    (e.handle seg).tm.twTimer = e.tm.twTimer := by
  rw [handle_synchronized seg (by simp [hs]), handleSynchronized, if_pos hs] at hs' ⊢
  unfold timeWaitArrives at hs' ⊢
  split_ifs at hs' ⊢ with h1 h2 h3
  · simp at hs'
  · exact sendAck_twTimer
  · exact absurd ⟨h3, by simpa using h1⟩ hf
  · exact sendAck_twTimer

theorem handle_restarts {seg : TcpSegment} (ht : e.TimerInv) (hs : e.tcb.state = .timeWait)
    (hf : seg.fin = true) (hr : seg.rst = false) :
    (e.handle seg).tcb.state = .timeWait ∧ (e.handle seg).tm.twTimer ≠ e.tm.twTimer := by
  have hn : ¬ seg.rst = true := by simp [hr]
  rw [handle_synchronized seg (by simp [hs]), handleSynchronized, if_pos hs, timeWaitArrives,
    if_neg hn, if_pos hf]
  refine ⟨by simpa [restartTimeWait] using hs, fun hc => ?_⟩
  have hnew : e.sendAck.restartTimeWait.tm.twTimer = some e.tm.sched.counter := by
    simp [restartTimeWait, armTwTimer, clearAckTimer]
  rw [hnew] at hc
  obtain ⟨g, hg, hid, -⟩ := ht.timely.armed .onTimeWait _ hc.symm
  have hlt := ht.timely.fresh g (ManualScheduler.mem_live.mp hg).1
  omega

theorem PastFin.fair_iff (h : e.PastFin) (hs : engineMachine.step e a = some e') :
    e.FairFin a ↔ FinOnce e a e' := by
  by_cases hseg : ∃ data seg, a = .segment data ∧ TcpSegment.parse data = .ok seg
  swap
  · have ha : ∀ seg, ¬ a.Carries seg := by
      rintro seg ⟨data, s, rfl, hp, -⟩
      exact hseg ⟨data, s, rfl, hp⟩
    refine ⟨fun _ => h.quiet ha hs, fun _ data seg hd hp _ => ?_⟩
    exact absurd ⟨data, seg, hd, hp⟩ hseg
  obtain ⟨data, seg, rfl, hp⟩ := hseg
  have hfs : FinSane e.enter.heard := h.upright.ready.coherent.finSane.of_ctl heard_ctl
  have hset : Settled e.enter.heard.ctl := by
    rw [heard_ctl]
    exact h.upright.settled
  have hgo : Still e e.enter.heard := ⟨by simp, .none (by rw [heard_env]; rfl)⟩
  have hdef : e.enter.heard.Deferred := h.deferred.same (by simp) (by simp) (by simp)
  have htm (hst : e.tcb.state = .timeWait) : e.enter.heard.TimerInv ∧
      e.enter.heard.tm.twTimer = e.tm.twTimer := by
    rw [heard_timeWait (e := e.enter) hst]
    exact ⟨h.timers.same rfl rfl, rfl⟩
  constructor
  · intro hfair
    rcases step_segment hp hs with ⟨-, rfl⟩ | ⟨ha, rfl⟩
    · exact ⟨fun _ => ⟨rfl, .none rfl⟩, fun _ _ hne => absurd rfl hne⟩
    obtain ⟨hrep, htw⟩ := hfair data seg rfl hp ha
    constructor
    · intro hst
      refine hgo.trans (handle_still hfs hset (by simpa using hst) (hdef (by simpa using hst)) ?_)
      rwa [repeats_heard]
    · intro hst hst' hne
      refine ⟨data, seg, rfl, hp, ?_⟩
      have hst0 : e.enter.heard.tcb.state = .timeWait := by simpa using hst
      have hfin : seg.fin = true ∧ seg.rst = false := by
        by_contra hf
        exact hne ((handle_timeWait hst0 hst' hf).trans (htm hst).2)
      exact ⟨hfin.1, htw hst hfin.1 hfin.2⟩
  · intro honce data' seg' hd hp' ha
    obtain rfl : data = data' := Action.segment.inj hd
    obtain rfl : seg = seg' := Except.ok.inj (hp.symm.trans hp')
    rcases step_segment hp hs with ⟨hna, -⟩ | ⟨-, rfl⟩
    · exact absurd ha hna
    constructor
    · intro hrep
      have htaken : e.tcb.state ∈ FinTaken := by
        have := hrep.state
        simp only [List.mem_cons, List.not_mem_nil, or_false] at this ⊢
        tauto
      have h1 := (honce.still htaken).rcvNxt
      rw [(repeats_heard.mpr hrep).rcvNxt hfs hset, heard_tcb, enter_tcb, add_def] at h1
      omega
    · intro hst hf hr
      have hst0 : e.enter.heard.tcb.state = .timeWait := by simpa using hst
      obtain ⟨h1, h2⟩ := handle_restarts (htm hst).1 hst0 hf hr
      rw [(htm hst).2] at h2
      obtain ⟨data', seg', hd, hp', -, hat⟩ := honce.restart hst h1 h2
      obtain rfl : data = data' := Action.segment.inj hd
      obtain rfl : seg = seg' := Except.ok.inj (hp.symm.trans hp')
      exact hat

/-! ## The end-of-stream marker -/

/-- The marker is signalled at most once, and not before the FIN has been consumed. -/
structure Told (e : TcpEngine) : Prop where
  once : e.eofs ≤ 1
  before : e.tcb.state ∉ .closed :: FinTaken → e.eofs = 0

theorem Told.mono (h : e.Told) (hle : e'.eofs ≤ e.eofs)
    (hs : e.tcb.state ∈ .closed :: FinTaken → e'.tcb.state ∈ .closed :: FinTaken) : e'.Told := by
  refine ⟨hle.trans h.once, fun hn => ?_⟩
  have := h.before fun hm => hn (hs hm)
  omega

/-- A connection that has consumed the FIN only goes on to its end. -/
theorem Control.staysTaken {c c' : Ctl} (h : Control a c c') (hc : c.1 ∈ FinTaken) :
    c'.1 ∈ .closed :: FinTaken := by
  by_cases hne : c.1 = c'.1
  · rw [← hne]
    exact List.mem_cons_of_mem _ hc
  · rcases h.arc hne with harc | hcl
    · obtain ⟨s, f⟩ := c
      obtain ⟨s', f'⟩ := c'
      dsimp only at hc harc ⊢
      simp only [List.mem_cons, List.not_mem_nil, or_false] at hc
      rcases hc with rfl | rfl | rfl | rfl
      · simp [fsmArcs] at harc; simp [harc]
      · simp [fsmArcs] at harc; simp [harc]
      · simp [fsmArcs] at harc; simp [harc]
      · simp [fsmArcs] at harc; rcases harc with rfl | rfl <;> simp
    · simp [hcl]

theorem Still.eofs_le (h : Still e e') : e'.eofs ≤ e.eofs :=
  (h.logs.mono fun _ hev hq => hev (Or.inl hq)).eofs_le

/-- An open starts the count again. -/
theorem opened_eofs (h : Logs (· ≠ .eof) f e') (s : ConnState)
    (hl : f.env.log = e.env.log ++ [.stateChange .closed s]) : e'.eofs = 0 := by
  have hz : f.eofs = 0 := by simp [eofs, hl, countEof]
  have := h.eofs_le
  omega

theorem Told.move (ha : ∀ seg, ¬ a.Carries seg) (hm : Move a e e') (h : e.Told) : e'.Told := by
  have hle := (hm.still ha).eofs_le
  by_cases hcl : e.tcb.state = .closed
  · by_cases hcl' : e'.tcb.state = .closed
    · exact h.mono hle fun _ => by simp [hcl']
    have hopen : e'.eofs = 0 := by
      cases hm with
      | connect ho =>
        rw [connect_eq (ho.imp And.left id)]
        exact opened_eofs (e := e) (f := e.dialled) (queueAndSend_logs _ _ _ _ (by simp)) .synSent
          (by simp [dialled, hcl])
      | startListening =>
        apply opened_eofs (e := e) (f := e.startListening) (.none rfl) .listen
        rw [TcpEngine.startListening, setState_log, if_neg (by simp [hcl]), hcl]
      | probe g => exact absurd (by simp [TcpEngine.sendProbe, hcl]) hcl'
      | probeFin g =>
        obtain ⟨st, hst, hcase⟩ := sendFin_tcb (e := e.fire g)
        simp only [fire_tcb, hcl] at hcase
        exact absurd (by simpa [hst] using hcase) hcl'
      | sendFin hc => simp [CanSend, hcl] at hc
      | acceptSyn seg hc => exact absurd hc (ha seg)
      | synEstablished seg hc => exact absurd hc (ha seg)
      | synReceived seg hc => exact absurd hc (ha seg)
      | storeSynData seg hc => exact absurd hc (ha seg)
      | completeOpen seg hc => exact absurd hc (ha seg)
      | storeOoo seg n hc => exact absurd hc (ha seg)
      | sendSynAck hs => simp [hcl] at hs
      | processFin hs => simp [hcl] at hs
      | finAckedWait hs => simp [hcl] at hs
      | finAckedTimeWait hs => simp [hcl] at hs
      | listenAgain hs => simp [hcl] at hs
      | receive _ hr => exact absurd (hr.frame.state.trans hcl) hcl'
      | _ => exact absurd (by first | exact hcl | simp [hcl]) hcl'
    exact ⟨by omega, fun _ => hopen⟩
  · refine h.mono hle fun hs => ?_
    exact hm.control.staysTaken ((List.mem_cons.mp hs).resolve_left hcl)

theorem Told.step (h : e.Told) (hp : e.PastFin) (hf : e.FairFin a)
    (hs : engineMachine.step e a = some e') : e'.Told := by
  have hpath := hp.upright.ready.path hs
  have hbegin : (e.begin a).Told := by
    refine h.mono ?_ (by simp)
    rw [eofs, begin_log]
    rfl
  by_cases hseg : ∃ data seg, a = .segment data ∧ TcpSegment.parse data = .ok seg
  swap
  · refine hpath.preserves (fun _ _ hm => Told.move ?_ hm) hbegin
    rintro seg ⟨data, s, rfl, hpar, -⟩
    exact hseg ⟨data, s, rfl, hpar⟩
  have hno : ¬ a.Opens := by
    obtain ⟨data, seg, rfl, -⟩ := hseg
    exact id
  have hstay : e.tcb.state ∈ .closed :: FinTaken → e'.tcb.state ∈ .closed :: FinTaken := by
    intro hst
    refine hpath.preserves (P := fun f => f.tcb.state ∈ .closed :: FinTaken) (fun f g hm hf => ?_)
      (by simpa using hst)
    rcases List.mem_cons.mp hf with hcl | htk
    · have hg : g.tcb.state = .closed := hm.control.staysClosed hno hcl
      rw [hg]
      exact List.mem_cons_self
    · exact hm.control.staysTaken htk
  by_cases htk : e.tcb.state ∈ FinTaken
  · exact h.mono (((hp.fair_iff hs).mp hf).still htk).eofs_le hstay
  obtain ⟨data, seg, rfl, hpar⟩ := hseg
  have henter : e.enter.heard.eofs = e.eofs := by simp [eofs, enter]
  rcases step_segment hpar hs with ⟨-, rfl⟩ | ⟨-, rfl⟩
  · exact ⟨h.once, h.before⟩
  by_cases hcl : e.tcb.state = .closed
  · refine h.mono ?_ hstay
    rw [handle_closed seg (by simpa using hcl), ← henter]
    exact (handleClosed_plain seg).eofs_le
  · have hz : e.eofs = 0 := h.before (by simp only [List.mem_cons] at htk ⊢; tauto)
    rcases handle_signals (e := e.enter.heard) seg with hl | ⟨h1, h2⟩
    · have := hl.eofs_le
      exact ⟨by omega, fun _ => by omega⟩
    · exact ⟨by omega, fun hn => absurd (List.mem_cons_of_mem _ h2) hn⟩

theorem told_init (args : EngineArgs) (sched : ManualScheduler Callback) (rand : Nat) :
    (init args sched rand).Told := ⟨Nat.zero_le 1, fun _ => rfl⟩

end TcpEngine

open TcpEngine in
/-- The FIN of the peer is consumed once exactly when no segment carries one that is taken
for it: every step keeps it, and the marker is signalled at most once per connection. -/
theorem fin_consumed_once (args : EngineArgs) (sched : ManualScheduler Callback) (rand : Nat)
    (as : List Action) (e : TcpEngine) (hs : sched.heap = [])
    (hr : engineMachine.run (init args sched rand) as = some e) :
    engineMachine.AllSteps FairFin (init args sched rand) as ↔
      engineMachine.AllSteps
          (fun f a => ∀ f', engineMachine.step f a = some f' → FinOnce f a f')
          (init args sched rand) as ∧
        engineMachine.Throughout (fun f => f.eofs ≤ 1) (init args sched rand) as := by
  have h0 := pastFin_init args sched rand hs
  constructor
  · intro hF
    refine ⟨hF.imp (fun f a f' h hst => ⟨h.step hst, fun hf g hg => ?_⟩) hr h0, ?_⟩
    · exact (h.fair_iff hg).mp hf
    · have hpres : engineMachine.Preserves FairFin (fun f => f.PastFin ∧ f.Told) :=
        fun _ _ _ h hf hst => ⟨h.1.step hst, h.2.step h.1 hf hst⟩
      exact (hpres.throughout ⟨h0, told_init args sched rand⟩ hF).mono fun _ h => h.2.once
  · rintro ⟨hO, -⟩
    exact hO.imp (fun f a f' h hst => ⟨h.step hst, fun hf => (h.fair_iff hst).mpr (hf f' hst)⟩) hr
      h0

/-- The peer closes, and a second FIN follows the first. -/
def secondFinRun : List Action :=
  [.activeOpen, .segment [0, 80, 3, 232, 0, 0, 3, 232, 0, 0, 0, 101, 80, 18, 255, 255, 0, 0, 0, 0],
    .segment [0, 80, 3, 232, 0, 0, 3, 233, 0, 0, 0, 101, 80, 17, 255, 255, 0, 0, 0, 0],
    .segment [0, 80, 3, 232, 0, 0, 3, 234, 0, 0, 0, 101, 80, 17, 255, 255, 0, 0, 0, 0]]

def sinkStart : TcpEngine :=
  .init { localPort := 1000, remotePort := 80, iss := some 100, onData := true } {} 0

open TcpEngine in
/-- The second FIN is consumed in CLOSE-WAIT, and the marker signalled again. -/
theorem second_fin_consumed :
    (∃ e, engineMachine.run sinkStart secondFinRun = some e ∧ e.tcb.state = .closeWait ∧
      e.tcb.rcvNxt = 1003 ∧ e.eofs = 2) ∧
    ¬ engineMachine.Throughout (fun f => f.eofs ≤ 1) sinkStart secondFinRun := by
  have h : ((engineMachine.run sinkStart secondFinRun).map
      fun e => (e.tcb.state, e.tcb.rcvNxt, e.eofs)) = some (.closeWait, 1003, 2) := by
    decide +kernel
  obtain ⟨e, he, hv⟩ := Option.map_eq_some_iff.mp h
  simp only [Prod.mk.injEq] at hv
  refine ⟨⟨e, he, hv⟩, fun hT => ?_⟩
  have := hT.last he
  omega

/-- The user closes first, and the FIN of the peer arrives twice. -/
def repeatedFinRun : List Action :=
  [.activeOpen, .segment [0, 80, 3, 232, 0, 0, 3, 232, 0, 0, 0, 101, 80, 18, 255, 255, 0, 0, 0, 0],
    .close, .segment [0, 80, 3, 232, 0, 0, 3, 233, 0, 0, 0, 102, 80, 17, 255, 255, 0, 0, 0, 0],
    .segment [0, 80, 3, 232, 0, 0, 3, 233, 0, 0, 0, 102, 80, 17, 255, 255, 0, 0, 0, 0]]

open TcpEngine in
/-- The second FIN is the first again, and restarts the 2*MSL timer. -/
theorem repeated_fin_consumed_once :
    engineMachine.AllSteps (fun f a => ∀ f', engineMachine.step f a = some f' → FinOnce f a f')
        sinkStart repeatedFinRun ∧
      engineMachine.Throughout (fun f => f.eofs ≤ 1) sinkStart repeatedFinRun ∧
      ∃ e, engineMachine.run sinkStart repeatedFinRun = some e ∧ e.tcb.state = .timeWait ∧
        e.tcb.rcvNxt = 1002 ∧ e.eofs = 1 := by
  have h : ((engineMachine.run sinkStart repeatedFinRun).map
      fun e => (e.tcb.state, e.tcb.rcvNxt, e.eofs)) = some (.timeWait, 1002, 1) := by
    decide +kernel
  obtain ⟨e, he, hv⟩ := Option.map_eq_some_iff.mp h
  simp only [Prod.mk.injEq] at hv
  obtain ⟨honce, hsignal⟩ := (fin_consumed_once _ {} 0 repeatedFinRun e rfl he).mp (by
    decide +kernel)
  exact ⟨honce, hsignal, e, he, hv⟩

end HdlPlayground.Tcp

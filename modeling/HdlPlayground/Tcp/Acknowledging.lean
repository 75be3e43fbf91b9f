import HdlPlayground.Tcp.Isolation
import HdlPlayground.Tcp.Opening

/-!
# Acknowledgements of what arrives

RCV.NXT moves past a SYN, text in order, text that was queued, and a FIN. Each of the
parts of a handler either leaves RCV.NXT and the delayed-ACK bookkeeping alone, or
acknowledges the RCV.NXT it ends with, or leaves that to the timer.
-/
namespace HdlPlayground.Tcp

/-- Among the events is a segment that acknowledges `n`. -/
def AckOf (n : Int) (evs : List Event) : Prop :=
  ∃ seg, Event.tx seg ∈ evs ∧ seg.ackFlag = true ∧ seg.ack = n

theorem AckOf.left {n : Int} {evs evs' : List Event} (h : AckOf n evs) : AckOf n (evs ++ evs') := by
  obtain ⟨seg, hm, hs⟩ := h
  exact ⟨seg, List.mem_append_left _ hm, hs⟩

theorem AckOf.right {n : Int} {evs evs' : List Event} (h : AckOf n evs') :
    AckOf n (evs ++ evs') := by
  obtain ⟨seg, hm, hs⟩ := h
  exact ⟨seg, List.mem_append_right _ hm, hs⟩

namespace TcpEngine

variable {a : Action} {e e' f g : TcpEngine} {seg : TcpSegment}

/-- RCV.NXT and what is kept for its acknowledgement. -/
def ackSide (e : TcpEngine) : Int × Option Nat × Nat :=
  (e.tcb.rcvNxt, e.tm.ackTimer, e.tm.ackCount)

/-- What a part of a handler makes of the acknowledgement it may owe. -/
inductive Answers (e f : TcpEngine) : Prop
  | acked (evs : List Event) : f.env.log = e.env.log ++ evs → AckOf f.tcb.rcvNxt evs → Answers e f
  | owed (evs : List Event) : f.env.log = e.env.log ++ evs → e.tm.ackCount = 0 →
      1 ≤ f.tm.ackCount → f.tm.ackTimer ≠ none → Answers e f
  | kept (evs : List Event) : f.env.log = e.env.log ++ evs → f.ackSide = e.ackSide → Answers e f

/-- Nothing of it has changed. -/
def Keeps (e f : TcpEngine) : Prop :=
  Logs (fun _ => True) e f ∧ f.ackSide = e.ackSide

/-- Nothing is logged, and the ACK side stays. -/
theorem Keeps.of_eq (hl : f.env.log = e.env.log) (hs : f.ackSide = e.ackSide) : Keeps e f :=
  ⟨.none hl, hs⟩

theorem Keeps.refl (e : TcpEngine) : Keeps e e := .of_eq rfl rfl

theorem Keeps.trans (h : Keeps e f) (h' : Keeps f g) : Keeps e g :=
  ⟨h.1.trans h'.1, h'.2.trans h.2⟩

/-- What is owed stays owed. -/
theorem Keeps.answers (h : Keeps e f) : Answers e f := by
  obtain ⟨⟨evs, hl, -⟩, hs⟩ := h
  exact .kept evs hl hs

/-- The ACK side in its three parts. -/
theorem ackSide_eq_iff : f.ackSide = e.ackSide ↔ f.tcb.rcvNxt = e.tcb.rcvNxt ∧
    f.tm.ackTimer = e.tm.ackTimer ∧ f.tm.ackCount = e.tm.ackCount := by
  simp only [ackSide, Prod.mk.injEq]

/-- An answer is not lost by what comes after it. -/
theorem Answers.keeps (h : Answers e f) (h' : Keeps f g) : Answers e g := by
  obtain ⟨⟨evs', hl', -⟩, hs'⟩ := h'
  obtain ⟨hn, ht, hc⟩ := ackSide_eq_iff.mp hs'
  cases h with
  | acked evs hl ha =>
    refine .acked (evs ++ evs') (by rw [hl', hl, List.append_assoc]) ?_
    rw [hn]
    exact ha.left
  | owed evs hl h0 h1 h2 =>
    exact .owed (evs ++ evs') (by rw [hl', hl, List.append_assoc]) h0 (by rw [hc]; exact h1)
      (by rw [ht]; exact h2)
  | kept evs hl hs => exact .kept (evs ++ evs') (by rw [hl', hl, List.append_assoc]) (hs'.trans hs)

/-- Nor by what comes before it. -/
theorem Keeps.then (h : Keeps e f) (h' : Answers f g) : Answers e g := by
  obtain ⟨⟨evs, hl, -⟩, hs⟩ := h
  obtain ⟨hn, ht, hc⟩ := ackSide_eq_iff.mp hs
  cases h' with
  | acked evs' hl' ha => exact .acked (evs ++ evs') (by rw [hl', hl, List.append_assoc]) ha.right
  | owed evs' hl' h0 h1 h2 =>
    exact .owed (evs ++ evs') (by rw [hl', hl, List.append_assoc]) (by rw [← hc]; exact h0) h1 h2
  | kept evs' hl' hs' =>
    exact .kept (evs ++ evs') (by rw [hl', hl, List.append_assoc]) (hs'.trans hs)

/-- RCV.NXT, as it stands in the end, has been acknowledged. -/
def Acked (e f : TcpEngine) : Prop :=
  ∃ evs, f.env.log = e.env.log ++ evs ∧ AckOf f.tcb.rcvNxt evs

theorem Acked.answers (h : Acked e f) : Answers e f := by
  obtain ⟨evs, hl, ha⟩ := h
  exact .acked evs hl ha

/-- What is logged before the ACK does not matter. -/
theorem Acked.after (h : Acked f g) (hl : Logs (fun _ => True) e f) : Acked e g := by
  obtain ⟨evs', hl', ha⟩ := h
  obtain ⟨evs, hl, -⟩ := hl
  exact ⟨evs ++ evs', by rw [hl', hl, List.append_assoc], ha.right⟩

theorem Acked.keeps (h : Acked e f) (h' : Keeps f g) : Acked e g := by
  obtain ⟨evs, hl, ha⟩ := h
  obtain ⟨⟨evs', hl', -⟩, hs'⟩ := h'
  refine ⟨evs ++ evs', by rw [hl', hl, List.append_assoc], ?_⟩
  rw [(ackSide_eq_iff.mp hs').1]
  exact ha.left

/-- What text does: it is acknowledged, or left to the timer. -/
inductive Covers (e f : TcpEngine) : Prop
  | acked : Acked e f → Covers e f
  | owed : Logs (fun _ => True) e f → e.tm.ackCount = 0 → 1 ≤ f.tm.ackCount →
      f.tm.ackTimer ≠ none → Covers e f

/-- To cover is to answer. -/
theorem Covers.answers (h : Covers e f) : Answers e f := by
  cases h with
  | acked h => exact h.answers
  | owed hl h0 h1 h2 =>
    obtain ⟨evs, hl, -⟩ := hl
    exact .owed evs hl h0 h1 h2

/-- What comes before the text may move RCV.NXT itself. -/
theorem Covers.after (h : Covers f g) (hl : Logs (fun _ => True) e f)
    (hc : f.tm.ackCount = e.tm.ackCount) : Covers e g := by
  cases h with
  | acked h => exact .acked (h.after hl)
  | owed hl' h0 h1 h2 => exact .owed (hl.trans hl') (by rw [← hc]; exact h0) h1 h2

/-! ## The parts -/

/-- A pure ACK acknowledges all there is. -/
theorem sendAck_acked : Acked e e.sendAck := by
  refine ⟨[.tx e.ackSegment], by simp, e.ackSegment, List.mem_singleton_self _, rfl, ?_⟩
  rw [sendAck_tcb]
  rfl

theorem setState_keeps (st : ConnState) : Keeps e (e.setState st) := by
  refine ⟨setState_logs _ fun _ => trivial, ?_⟩
  simp only [setState]
  split_ifs
  · rfl
  · unfold restartKeepalive
    split
    · rfl
    · dsimp only
      split <;> rfl
  · rfl
  · rfl

theorem armRt_keeps : Keeps e e.armRt := by
  refine .of_eq (by simp) ?_
  unfold armRt
  split_ifs
  · rfl
  · split
    · split_ifs <;> rfl
    · rfl

theorem armPersist_keeps : Keeps e e.armPersist := by
  refine .of_eq (by simp) ?_
  unfold armPersist
  split
  · split_ifs <;> rfl
  · rfl

/-- A segment that is queued leaves the delayed ACK alone. -/
theorem queueAndSend_keeps (flags : Flags) (payload : List UInt8) (m : Bool) (urg : Nat) :
    Keeps e (e.queueAndSend flags payload m urg) := by
  obtain h | ⟨-, -, h⟩ := e.queueAndSend_cases flags payload m urg
  · rw [h]
    have h1 : Keeps e ((e.advertise.enqueue flags payload).emit
        (.tx (e.segmentFor e.tcb.sndNxt flags payload m urg))) := ⟨.one _ rfl trivial, rfl⟩
    exact h1.trans armRt_keeps
  · rw [h]
    exact .of_eq rfl rfl

theorem sendChunk_keeps (n : Nat) : Keeps e (e.sendChunk n) := by
  obtain ⟨psh, h⟩ := sendChunk_eq (e := e) n
  have h1 : Keeps e (e.queueChunk n) :=
    Keeps.trans (f := e.takeChunk n) (.of_eq rfl rfl) (queueAndSend_keeps _ _ _ _)
  rw [h]
  exact h1.trans (.of_eq rfl rfl)

/-- So does the data loop. -/
theorem SendRun.keeps {r : TcpEngine × Bool} (h : SendRun e r) : Keeps e r.1 := by
  induction h with
  | empty => exact .refl _
  | closed => exact armPersist_keeps
  | held => exact .refl _
  | hang => exact .of_eq rfl rfl
  | chunk e r _ _ _ _ _ ih => exact (sendChunk_keeps _).trans ih

theorem sendFin_keeps : Keeps e e.sendFin := by
  obtain ⟨st, h, -⟩ := sendFin_cases (e := e)
  have h1 : Keeps e e.finQueued :=
    (Keeps.of_eq (e := e) (f := { e with fin := { e.fin with finSeq := e.tcb.sndNxt } }) rfl
      rfl).trans
      ((queueAndSend_keeps _ _ _ _).trans (.of_eq rfl rfl))
  rw [h]
  exact h1.trans (setState_keeps st)

theorem finPart_keeps : Keeps e e.finPart := by
  rcases e.finPart_cases with ⟨-, h⟩ | ⟨-, -, h⟩ | ⟨-, -, -, h⟩ | ⟨-, -, -, h⟩
  · rw [h]; exact .refl e
  · rw [h]; exact armPersist_keeps
  · rw [h]; exact .refl e
  · rw [h]; exact sendFin_keeps

/-- The send path never takes back an ACK that is owed. -/
theorem sendPending_keeps : Keeps e e.sendPending := by
  rcases e.sendPending_cases with ⟨-, h⟩ | ⟨-, h⟩ | ⟨-, f, h, hf⟩
  · rw [h]; exact .refl e
  · exact h.keeps
  · rw [hf]; exact h.keeps.trans finPart_keeps

theorem cancelPersist_keeps : Keeps e e.cancelPersist :=
  Keeps.trans (f := e.dropPersistTimer) (.of_eq rfl rfl) sendPending_keeps

theorem windowUpdate_keeps (seg : TcpSegment) : Keeps e (e.windowUpdate seg) := by
  have h : Keeps e (e.setSendWindow seg.window seg.seq seg.ack) := .of_eq rfl rfl
  unfold windowUpdate
  dsimp only
  split_ifs
  · exact h.trans cancelPersist_keeps
  · exact h
  · exact .refl e

/-- Nor does an acknowledgement that arrives. -/
theorem processAck_keeps (ack : Int) : Keeps e (e.processAck ack) := by
  refine .of_eq (by simp) ?_
  simp only [processAck]
  split
  · simp [ackSide, stopRt]
  · unfold restartRt
    dsimp only
    split
    · simp [ackSide]
    · simp [ackSide, startRt]

theorem enterTimeWait_keeps : Keeps e e.enterTimeWait :=
  Keeps.trans (f := e.stopRt) (.of_eq rfl rfl)
    (cancelPersist_keeps.trans ((setState_keeps .timeWait).trans (.of_eq rfl rfl)))

theorem heard_keeps : Keeps e e.heard := by
  refine .of_eq (by simp) ?_
  unfold heard
  split
  · unfold restartKeepalive
    split
    · rfl
    · dsimp only
      split <;> rfl
  · rfl

/-- The FIN of the peer is acknowledged at once. -/
theorem processFin_acked : Acked e e.processFin := by
  have hl : Logs (fun _ => True) e e.consumeFin := by
    unfold consumeFin signalClose
    split
    · exact .one .eof rfl trivial
    · exact .none rfl
  have h1 : Acked e e.consumeFin.sendAck := sendAck_acked.after hl
  rcases processFin_cases (e := e) with ⟨st, -, h⟩ | ⟨-, h⟩
  · rw [h]
    exact h1.keeps (setState_keeps st)
  · rw [h]
    exact h1.keeps (Keeps.trans (f := e.consumeFin.sendAck.stopRt.dropPersistTimer) (.of_eq rfl rfl)
      ((setState_keeps _).trans (.of_eq rfl rfl)))

/-! ## Text and FIN -/

/-- A forced ACK goes out at once. -/
theorem scheduleAck_forced : Acked e (e.scheduleAck true) := by
  rcases e.scheduleAck_cases true with ⟨n, h⟩ | ⟨d, n, -, hf, -⟩ | ⟨hf, -⟩
  · rw [h]
    exact sendAck_acked.after (.none rfl)
  · cases hf
  · cases hf

/-- The second of two is not delayed. -/
theorem scheduleAck_covers (force : Bool) : Covers e (e.scheduleAck force) := by
  have hsend (n : Nat) : Covers e (sendAck { e with tm := { e.tm with ackCount := n } }) :=
    .acked (sendAck_acked.after (.none rfl))
  unfold scheduleAck
  split
  · exact hsend e.tm.ackCount
  · dsimp only
    split_ifs with hf hc ht
    · exact hsend e.tm.ackCount
    · exact hsend (e.tm.ackCount + 1)
    · exact .owed (.none rfl) (by omega) (Nat.le_add_left 1 _) (by simp)
    · exact .owed (.none rfl) (by omega) (Nat.le_add_left 1 _) ht

theorem mergeEntry_tm (x : OooEntry) : (e.mergeEntry x).tm = e.tm := by
  unfold mergeEntry
  dsimp only
  split_ifs <;> simp [markSeen, advanceRcvNxt]

theorem mergeLoop_tm (fuel : Nat) : (mergeLoop fuel e).tm = e.tm := by
  induction fuel generalizing e with
  | zero => rfl
  | succ fuel ih =>
    unfold mergeLoop
    split
    · rfl
    · rw [ih, mergeEntry_tm]

/-- Text in order is delivered without a look at the timers. -/
theorem takeInOrder_tm (seg : TcpSegment) (data : List UInt8) :
    (e.takeInOrder seg data).tm = e.tm := by
  unfold takeInOrder
  dsimp only
  split <;> simp [markSeen, advanceRcvNxt]

/-- Text is acknowledged at once, or the delayed ACK is owed. -/
theorem recvTrimmed_covers (seg : TcpSegment) (seq : Int) (data : List UInt8) :
    Covers e (e.recvTrimmed seg seq data) := by
  unfold recvTrimmed
  dsimp only
  split_ifs
  · exact .acked scheduleAck_forced
  · refine (scheduleAck_covers false).after ?_ ?_
    · exact (takeInOrder_logs (fun _ => trivial) seg _).trans (mergeLoop_logs (fun _ => trivial) _)
    · rw [mergeReassembly, mergeLoop_tm, takeInOrder_tm]
  · exact .acked (scheduleAck_forced.after (.none (storeOoo_env _ _ _)))

/-- Text that is looked at is acknowledged or put down for the timer. -/
theorem recvData_covers (hp : seg.payload ≠ []) : Covers e (e.recvData seg) := by
  unfold recvData
  rw [if_neg hp]
  dsimp only
  split_ifs
  · exact .acked scheduleAck_forced
  · exact recvTrimmed_covers _ _ _
  · exact recvTrimmed_covers _ _ _

/-- A FIN that is taken is acknowledged. -/
theorem finCheck_cases (seg : TcpSegment) : Acked e (e.finCheck seg).checkPendingFin ∨
    Keeps e (e.finCheck seg).checkPendingFin := by
  have hcheck {f : TcpEngine} (hk : Keeps e f) :
      Acked e f.checkPendingFin ∨ Keeps e f.checkPendingFin := by
    unfold checkPendingFin
    split
    · exact Or.inl (processFin_acked.after hk.1)
    · exact Or.inr hk
  unfold finCheck
  dsimp only
  split_ifs
  · left
    rw [checkPendingFin, if_neg (by simp [processFin_pendingFin])]
    exact processFin_acked
  · exact hcheck (.of_eq rfl rfl)
  · exact hcheck (.refl e)
  · exact hcheck (.refl e)

theorem Answers.finCheck (h : Answers e f) (seg : TcpSegment) :
    Answers e (f.finCheck seg).checkPendingFin := by
  rcases f.finCheck_cases seg with ha | hk
  · obtain ⟨evs, hl, ha⟩ := ha
    have hlog : Logs (fun _ => True) e f := by
      cases h with
      | acked evs hl => exact ⟨evs, hl, fun _ _ => trivial⟩
      | owed evs hl => exact ⟨evs, hl, fun _ _ => trivial⟩
      | kept evs hl => exact ⟨evs, hl, fun _ _ => trivial⟩
    exact (Acked.after ⟨evs, hl, ha⟩ hlog).answers
  · exact h.keeps hk

/-- A segment with text or a FIN is answered. -/
theorem textAndFin_answers (seg : TcpSegment) : Answers e (e.textAndFin seg) := by
  have htext : Answers e (if seg.payload ≠ [] ∧ e.tcb.state ∈ DataStates then e.recvData seg
      else e) := by
    split
    · next h => exact (recvData_covers h.1).answers
    · exact (Keeps.refl e).answers
  exact (htext.keeps sendPending_keeps).finCheck seg

/-- So it is after its acknowledgement, unless that has closed the connection. -/
theorem establishedAck_answers (seg : TcpSegment) :
    (e.establishedAck seg).Outside ∨ Answers e (e.establishedAck seg) := by
  unfold establishedAck
  split
  · exact Or.inr sendAck_acked.answers
  · dsimp only
    have hack : Keeps e (if seqGt seg.ack e.tcb.sndUna then e.processAck seg.ack else e) := by
      split
      · exact processAck_keeps _
      · exact .refl e
    have hwin := hack.trans (windowUpdate_keeps seg)
    generalize (if seqGt seg.ack e.tcb.sndUna then e.processAck seg.ack else e).windowUpdate seg = g
      at hwin
    split_ifs
    · exact Or.inr ((hwin.trans (setState_keeps _)).then (textAndFin_answers seg))
    · exact Or.inr (hwin.trans enterTimeWait_keeps).answers
    · exact Or.inl (by simp [Outside])
    · exact Or.inr (hwin.then (textAndFin_answers seg))

/-- A reset leaves the connection. -/
theorem doReset_outside : e.doReset.Outside := by
  by_cases h : e.tcb.state = .synReceived ∧ e.fin.passive = true
  · rw [doReset_listen h.1 h.2]
    simp [Outside, restorePort]
  · obtain ⟨msg, -, h⟩ := doReset_close h
    rw [h]
    simp [Outside]

/-! ## The delayed-ACK timer -/

/-- Only a connection that has been established delays an acknowledgement. -/
def DelaysLater (e : TcpEngine) : Prop := e.tm.ackTimer ≠ none → e.tcb.state ∈ LaterStates

theorem DelaysLater.same (h : e.DelaysLater) (ht : f.tm.ackTimer = e.tm.ackTimer)
    (hs : e.tcb.state ∈ LaterStates → f.tcb.state ∈ LaterStates) : f.DelaysLater :=
  fun hf => hs (h (by rwa [← ht]))

/-- What keeps the ACK side keeps this too, if it does not leave the later states. -/
theorem DelaysLater.keeps (h : e.DelaysLater) (hk : Keeps e f)
    (hs : e.tcb.state ∈ LaterStates → f.tcb.state ∈ LaterStates) : f.DelaysLater :=
  h.same (ackSide_eq_iff.mp hk.2).2.1 hs

theorem DelaysLater.idle (h : f.tm.ackTimer = none) : f.DelaysLater := fun hf => absurd h hf

/-- A closed engine delays no ACK. -/
theorem enterClosed_delays : e.enterClosed.DelaysLater := by
  refine .idle ?_
  have hk := setState_keeps (e :=
      e.stopRt.cancelPersist.cancelKeepalive.cancelTwTimer.cancelAckTimer.resetBuffers) .closed
  exact (ackSide_eq_iff.mp hk.2).2.1

theorem giveUp_delays (msg : String) : (e.giveUp msg).DelaysLater := by
  obtain ⟨f, -, h⟩ := giveUp_eq (e := e) msg
  rw [h]
  exact enterClosed_delays

/-- A timer that fires clears at most its own slot. -/
theorem fire_ackTimer {h : TimerHandle Callback} :
    (e.fire h).tm.ackTimer = e.tm.ackTimer ∨ (e.fire h).tm.ackTimer = none := by
  unfold fire
  cases h.cb <;> first | exact Or.inl rfl | exact Or.inr rfl

theorem DelaysLater.fire (h : e.DelaysLater) (g : TimerHandle Callback) :
    (e.fire g).DelaysLater := by
  rcases fire_ackTimer (e := e) (h := g) with hf | hf
  · exact h.same hf (by simp)
  · exact .idle hf

theorem retransmitHead_keeps (o : Outgoing) (rest : List Outgoing) :
    Keeps e (e.retransmitHead o rest) := by
  obtain hr | ⟨-, -, hr⟩ := retransmitHead_cases (e := e) o rest
  · rw [hr]
    exact ⟨.one _ rfl trivial, rfl⟩
  · rw [hr]
    exact .of_eq rfl rfl

theorem makeAndTransmit_keeps (seq : Int) (flags : Flags) (payload : List UInt8) (m : Bool)
    (urg : Nat) : Keeps e (e.makeAndTransmit seq flags payload m urg) :=
  ⟨makeAndTransmit_logs _ _ _ _ _ trivial, by simp [ackSide]⟩

theorem restartKeepalive_keeps (b : Bool) : Keeps e (e.restartKeepalive b) := by
  refine .of_eq (by simp) ?_
  unfold restartKeepalive
  split
  · rfl
  · dsimp only
    split <;> rfl

/-- Taking a SYN leaves the delayed ACK alone. -/
theorem takeSyn_tm (seg : TcpSegment) : (e.takeSyn seg).tm.ackTimer = e.tm.ackTimer ∧
    (e.takeSyn seg).tm.ackCount = e.tm.ackCount := by
  obtain ⟨m, -, -, h⟩ := takeSyn_cases (e := e) seg
  rw [h]
  dsimp only
  split
  · exact (ackSide_eq_iff.mp (processAck_keeps _).2).2
  · exact ⟨rfl, rfl⟩

/-- Every move that arms the delayed-ACK timer is made in one of the later states. -/
theorem DelaysLater.move (hm : Move a e f) (h : e.DelaysLater) : f.DelaysLater := by
  have hopen {g : TcpEngine} (hs : e.tcb.state ∉ LaterStates) (ht : g.tm.ackTimer = e.tm.ackTimer) :
      g.DelaysLater := h.same ht fun hx => absurd hx hs
  cases hm with
  | setUserTimeout t => cases t <;> exact h.same rfl id
  | connect ho _ =>
    have hs : e.tcb.state = .closed ∨ e.tcb.state = .listen := ho.imp And.left id
    rw [connect_eq hs]
    refine hopen (by rcases hs with hs | hs <;> simp [hs]) ?_
    exact (ackSide_eq_iff.mp (queueAndSend_keeps (e := e.dialled) _ _ _ _).2).2.1
  | startListening hs =>
    refine hopen (by simp [hs]) ?_
    exact (ackSide_eq_iff.mp (setState_keeps (e := { e with fin := { e.fin with passive := true } })
      _).2).2.1
  | finishReceive data => exact h.same (by simp) (by simp)
  | fire g => exact h.fire g
  | restartKeepalive b => exact h.keeps (restartKeepalive_keeps b) (by simp)
  | armPersist => exact h.keeps armPersist_keeps (by simp)
  | retransmit g o rest =>
    have h1 : (e.fire g).countRto.DelaysLater := h.fire g
    exact h1.keeps (retransmitHead_keeps o rest) (by simp)
  | sendAck => exact .idle (by simp [clearAckTimer])
  | scheduleAck force hs =>
    intro _
    rw [scheduleAck_tcb]
    simp only [DataStates, List.mem_cons, List.not_mem_nil, or_false] at hs
    rcases hs with hs | hs | hs <;> simp [hs]
  | sendSynAck => exact h.keeps (makeAndTransmit_keeps _ _ _ _ _) (by simp [TcpEngine.sendSynAck])
  | sendKeepaliveProbe =>
    exact h.same (by simp [TcpEngine.sendKeepaliveProbe]) (by simp [TcpEngine.sendKeepaliveProbe])
  | sendChunk hs => exact h.keeps (sendChunk_keeps _) (by simp)
  | sendFin =>
    refine h.keeps sendFin_keeps fun hs => ?_
    obtain ⟨st, ht, hst⟩ := sendFin_tcb (e := e)
    rw [ht]
    rcases hst with ⟨-, rfl⟩ | ⟨-, rfl⟩ | ⟨-, rfl⟩ | ⟨-, rfl⟩
    · simp
    · simp
    · simp
    · exact hs
  | probe g =>
    have h1 : (e.fire g).sendProbe.DelaysLater := (h.fire g).keeps
      (queueAndSend_keeps (e := (e.fire g).takeChunk 1) _ _ _ _) (by simp [TcpEngine.sendProbe])
    exact h1.same rfl (by simp)
  | probeFin g =>
    have h1 : (e.fire g).sendFin.DelaysLater := by
      refine (h.fire g).keeps sendFin_keeps fun hs => ?_
      obtain ⟨st, ht, hst⟩ := sendFin_tcb (e := e.fire g)
      rw [ht]
      rcases hst with ⟨-, rfl⟩ | ⟨-, rfl⟩ | ⟨-, rfl⟩ | ⟨-, rfl⟩
      · simp
      · simp
      · simp
      · exact hs
    exact h1.same rfl (by simp)
  | processAck seg => exact h.keeps (processAck_keeps _) (by simp)
  | acceptSyn seg _ hs =>
    obtain ⟨m, -, -, hm⟩ := acceptSyn_eq (e := e) seg hs
    rw [hm]
    apply hopen (by simp [hs])
    exact (ackSide_eq_iff.mp (queueAndSend_keeps (e := e.listenTaken seg m) _ _ _ _).2).2.1
  | synEstablished seg _ ht =>
    apply hopen (by simp [ht.1])
    exact (ackSide_eq_iff.mp (setState_keeps _).2).2.1.trans (takeSyn_tm seg).1
  | synReceived seg _ ht =>
    apply hopen (by simp [ht.1])
    exact (ackSide_eq_iff.mp (setState_keeps (e := e.takeSyn seg) .synReceived).2).2.1.trans
      (takeSyn_tm seg).1
  | storeSynData seg => exact h.same (by rw [storeOoo_tm]) (by rw [storeOoo_tcb]; exact id)
  | storeOoo seg => exact h.same (by rw [storeOoo_tm]) (by rw [storeOoo_tcb]; exact id)
  | receive _ hr => exact h.same (by rw [hr.tm]) (by rw [hr.frame.state]; exact id)
  | completeOpen seg _ hc =>
    apply hopen (by simp [hc.1])
    have h1 := (processAck_keeps (e := e) seg.ack).trans (g :=
      (e.processAck seg.ack).setSendWindow seg.window seg.seq seg.ack) (.of_eq rfl rfl)
    exact (ackSide_eq_iff.mp (h1.trans (setState_keeps .established)).2).2.1
  | finAckedWait => exact h.keeps (setState_keeps _) (by simp)
  | finAckedTimeWait hs => exact h.keeps enterTimeWait_keeps (by simp [enterTimeWait])
  | processFin hs =>
    intro _
    exact processFin_later hs
  | listenAgain hs hp =>
    rw [doReset_listen hs hp]
    apply hopen (by simp [hs])
    exact (ackSide_eq_iff.mp (setState_keeps (e := e) .listen).2).2.1
  | close => exact enterClosed_delays
  | abort => exact enterClosed_delays
  | giveUp msg => exact giveUp_delays msg
  | giveUpRto g c msg => exact giveUp_delays msg
  | timeWaitExpires g => exact enterClosed_delays
  | _ => exact h.same rfl id

/-- So after every step an ACK is delayed only in the later states. -/
theorem Ready.delaysLater (hr : e.Ready) (h : e.DelaysLater)
    (hs : engineMachine.step e a = some e') : e'.DelaysLater := by
  refine hr.step_preserves hs ?_ fun _ _ hm => DelaysLater.move hm
  exact h.same (by rw [begin_tm]) (by simp)

end TcpEngine

end HdlPlayground.Tcp

import HdlPlayground.Tcp.Moves

/-!
# Entry points are sequences of moves

For each method, its moves in the order of the code, and what it leaves of the
state. The last theorem is about a step of the engine machine, so an invariant
of the moves is an invariant of every run.
-/
namespace HdlPlayground.Tcp

namespace TcpEngine

open Relation (ReflTransGen)

variable {a : Action} {e : TcpEngine}

theorem Path.of_move {e' : TcpEngine} (h : Move a e e') : Path a e e' := .single h

/-- The induction principle the invariants use. -/
theorem Path.preserves {P : TcpEngine → Prop} (hP : ∀ e e', Move a e e' → P e → P e')
    {e' : TcpEngine} (h : Path a e e') (he : P e) : P e' := by
  induction h with
  | refl => exact he
  | tail _ hm ih => exact hP _ _ hm ih

/-! ## Sending -/

/-- The data loop is one move for every chunk. -/
theorem SendRun.path_of {r : TcpEngine × Bool} (h : SendRun e r) (hc : e.CanSend)
    (hx : e.tcb.sndMss ≠ 0 ∨ e.env.hung = true) : Path a e r.1 := by
  induction h with
  | empty => exact .refl
  | closed e hb hw => exact Path.of_move (.armPersist e ⟨hc, Or.inl hb, hw⟩)
  | held => exact .refl
  | hang e => exact Path.of_move (.hang e)
  | chunk e r hb hw hu hn _ ih =>
    have hs : e.tcb.state = .established ∨ e.tcb.state = .closeWait := by
      obtain h | h | h := hc
      · exact Or.inl h
      · exact Or.inr h
      · exact absurd h.2.2 hb
    have hlen : 0 < e.chunkLen ∨ e.env.hung = true := by
      have := List.length_pos_iff.mpr hb
      refine hx.imp_left fun hm => ?_
      unfold chunkLen
      omega
    exact .head (.sendChunk e hs hb hw hu hn hlen)
      (ih (by simpa [CanSend] using hs.imp_right Or.inl) (by simpa using hx))

/-- A loop that can send nothing hangs, and may as well do so at once. -/
theorem SendRun.path {r : TcpEngine × Bool} (h : SendRun e r) (hc : e.CanSend) :
    Path a e r.1 := by
  by_cases hm : e.tcb.sndMss = 0 ∧ e.buf.appBuf ≠ [] ∧ e.tcb.sndWnd ≠ 0 ∧ 0 < e.usableWindow
  · exact .head (.hang e) ((h.hang_first (h.hangs hm.1 hm.2.1 hm.2.2.1 hm.2.2.2)).path_of hc
      (Or.inr rfl))
  · cases h with
    | empty => exact .refl
    | closed _ hb hw => exact Path.of_move (.armPersist e ⟨hc, Or.inl hb, hw⟩)
    | held => exact .refl
    | hang => exact Path.of_move (.hang e)
    | chunk _ r hb hw hu hn hr =>
      exact (SendRun.chunk e r hb hw hu hn hr).path_of hc
        (Or.inl fun h0 => hm ⟨h0, hb, hw, hu⟩)

/-- A loop that comes to the FIN leaves the engine able to send it. -/
theorem SendRun.canSend {f : TcpEngine} (h : SendRun e (f, true)) (hc : e.CanSend) :
    f.CanSend := by
  have hs := h.state
  have hf := h.fin
  have hb := h.appBuf_of_done rfl
  dsimp only at hs hf hb
  simp only [CanSend, hs, hf, hb, and_true]
  obtain h | h | h := hc
  · exact Or.inl h
  · exact Or.inr (Or.inl h)
  · exact Or.inr (Or.inr ⟨h.1, h.2.1⟩)

/-- The FIN is a move of its own. -/
theorem finPart_path (hc : e.CanSend) : Path a e e.finPart := by
  obtain ⟨-, h⟩ | ⟨hd, hw, h⟩ | ⟨-, -, -, h⟩ | ⟨hd, hw, hu, h⟩ := finPart_cases (e := e)
  · rw [h]
  · rw [h]; exact Path.of_move (.armPersist e ⟨hc, Or.inr hd, hw⟩)
  · rw [h]
  · rw [h]; exact Path.of_move (.sendFin e hc hd hw hu)

/-- `_send_pending` is a path, whatever state it is called in. -/
theorem sendPending_path (e : TcpEngine) : Path a e e.sendPending := by
  obtain ⟨-, h⟩ | ⟨hc, hr⟩ | ⟨hc, f, hr, h⟩ := sendPending_cases (e := e)
  · rw [h]
  · exact hr.path hc
  · rw [h]
    exact (hr.path hc).trans (finPart_path (hr.canSend hc))

theorem cancelPersist_path (e : TcpEngine) : Path a e e.cancelPersist :=
  .head (.dropPersistTimer e) (sendPending_path _)

/-! ## Receiving -/

@[simp] theorem deliver_tcb (data : List UInt8) : (e.deliver data).tcb = e.tcb := by
  unfold deliver; dsimp only; split <;> rfl
@[simp] theorem deliver_conf (data : List UInt8) : (e.deliver data).conf = e.conf := by
  unfold deliver; dsimp only; split <;> rfl
@[simp] theorem deliver_fin (data : List UInt8) : (e.deliver data).fin = e.fin := by
  unfold deliver; dsimp only; split <;> rfl
@[simp] theorem deliver_tm (data : List UInt8) : (e.deliver data).tm = e.tm := by
  unfold deliver; dsimp only; split <;> rfl
@[simp] theorem deliver_rt (data : List UInt8) : (e.deliver data).rt = e.rt := by
  unfold deliver; dsimp only; split <;> rfl
@[simp] theorem deliver_psh (data : List UInt8) : (e.deliver data).psh = e.psh := by
  unfold deliver; dsimp only; split <;> rfl
@[simp] theorem deliver_adv (data : List UInt8) : (e.deliver data).adv = e.adv := by
  unfold deliver; dsimp only; split <;> rfl
@[simp] theorem deliver_appBuf (data : List UInt8) :
    (e.deliver data).buf.appBuf = e.buf.appBuf := by
  unfold deliver; dsimp only; split <;> rfl
@[simp] theorem deliver_retx (data : List UInt8) : (e.deliver data).buf.retx = e.buf.retx := by
  unfold deliver; dsimp only; split <;> rfl
@[simp] theorem deliver_ooo (data : List UInt8) : (e.deliver data).buf.ooo = e.buf.ooo := by
  unfold deliver; dsimp only; split <;> rfl
@[simp] theorem deliver_env (data : List UInt8) :
    (e.deliver data).env = { e.env with log := e.env.log ++ [.deliver data] } := by
  unfold deliver; dsimp only; split <;> rfl

/-- What receiving leaves alone. -/
structure RecvFrame (e e' : TcpEngine) : Prop where
  conf : e'.conf = e.conf
  tcb : ∃ rcvNxt rcvUp, e'.tcb = { e.tcb with rcvNxt := rcvNxt, rcvUp := rcvUp }
  appBuf : e'.buf.appBuf = e.buf.appBuf
  retx : e'.buf.retx = e.buf.retx
  fin : e'.fin = e.fin
  rt : e'.rt = e.rt
  rtTimer : e'.tm.rtTimer = e.tm.rtTimer
  persistTimer : e'.tm.persistTimer = e.tm.persistTimer
  exc : e'.env.exc = e.env.exc

namespace RecvFrame

theorem refl (e : TcpEngine) : RecvFrame e e :=
  ⟨rfl, ⟨_, _, rfl⟩, rfl, rfl, rfl, rfl, rfl, rfl, rfl⟩

theorem trans {e f g : TcpEngine} (h : RecvFrame e f) (h' : RecvFrame f g) : RecvFrame e g where
  conf := h'.conf.trans h.conf
  tcb := by
    obtain ⟨n, u, hn⟩ := h.tcb
    obtain ⟨n', u', hn'⟩ := h'.tcb
    exact ⟨n', u', by rw [hn', hn]⟩
  appBuf := h'.appBuf.trans h.appBuf
  retx := h'.retx.trans h.retx
  fin := h'.fin.trans h.fin
  rt := h'.rt.trans h.rt
  rtTimer := h'.rtTimer.trans h.rtTimer
  persistTimer := h'.persistTimer.trans h.persistTimer
  exc := h'.exc.trans h.exc

theorem state {e f : TcpEngine} (h : RecvFrame e f) : f.tcb.state = e.tcb.state := by
  obtain ⟨n, u, hn⟩ := h.tcb
  rw [hn]

/-- The receive path leaves the state and the flags alone. -/
theorem ctl {e f : TcpEngine} (h : RecvFrame e f) :
    (f.tcb.state, f.fin) = (e.tcb.state, e.fin) := by
  rw [h.state, h.fin]

end RecvFrame

/-- An ACK is part of the receive path. -/
theorem scheduleAck_frame (e : TcpEngine) (b : Bool) : RecvFrame e (e.scheduleAck b) where
  conf := by simp
  tcb := ⟨_, _, by simp; rfl⟩
  appBuf := by simp
  retx := by simp
  fin := by simp
  rt := by simp
  rtTimer := by
    obtain ⟨n, h⟩ | ⟨d, n, -, -, -, h⟩ | ⟨-, -, n, h⟩ := e.scheduleAck_cases b <;>
      simp [h, clearAckTimer]
  persistTimer := by
    obtain ⟨n, h⟩ | ⟨d, n, -, -, -, h⟩ | ⟨-, -, n, h⟩ := e.scheduleAck_cases b <;>
      simp [h, clearAckTimer]
  exc := by simp

theorem mergeEntry_frame (e : TcpEngine) (q : List OooEntry) (x : OooEntry) :
    RecvFrame e (mergeEntry { e with buf := { e.buf with ooo := q } } x) := by
  unfold mergeEntry
  dsimp only
  split
  · exact ⟨rfl, ⟨_, _, rfl⟩, rfl, rfl, rfl, rfl, rfl, rfl, rfl⟩
  · split
    · exact ⟨rfl, ⟨_, _, rfl⟩, rfl, rfl, rfl, rfl, rfl, rfl, rfl⟩
    · constructor <;> simp [markSeen, advanceRcvNxt]

/-- Merging touches the receive side only, however many segments it takes. -/
theorem mergeLoop_frame (fuel : Nat) (e : TcpEngine) : RecvFrame e (mergeLoop fuel e) := by
  induction fuel generalizing e with
  | zero => exact .refl e
  | succ fuel ih =>
    unfold mergeLoop
    split
    · exact .refl e
    · exact (mergeEntry_frame e _ _).trans (ih _)

/-- Every segment that is merged is a move. -/
theorem mergeLoop_path {seg : TcpSegment} (hc : a.Carries seg) (fuel : Nat)
    (h : e.tcb.state ∈ DataStates) : Path a e (mergeLoop fuel e) := by
  induction fuel generalizing e with
  | zero => exact .refl
  | succ fuel ih =>
    unfold mergeLoop
    split
    · exact .refl
    · next x hx =>
      refine .head (.receive e _ (.mergeEntry seg x hc h hx)) (ih ?_)
      rwa [(mergeEntry_frame e _ x).state]

theorem mergeReassembly_frame (e : TcpEngine) : RecvFrame e e.mergeReassembly :=
  mergeLoop_frame _ e

theorem mergeReassembly_path {seg : TcpSegment} (hc : a.Carries seg)
    (h : e.tcb.state ∈ DataStates) : Path a e e.mergeReassembly :=
  mergeLoop_path hc _ h

theorem takeInOrder_frame (e : TcpEngine) (seg : TcpSegment) (data : List UInt8) :
    RecvFrame e (e.takeInOrder seg data) := by
  unfold takeInOrder
  dsimp only
  split <;> constructor <;> simp [markSeen, advanceRcvNxt]

/-- Every move of the receive path keeps to it. -/
theorem Receives.frame {e' : TcpEngine} (h : e.Receives a e') : RecvFrame e e' := by
  cases h with
  | takeInOrder => exact takeInOrder_frame _ _ _
  | mergeEntry => exact mergeEntry_frame _ _ _

theorem storeOoo_frame (e : TcpEngine) (seq : Int) (data : List UInt8) (flags : Flags) :
    RecvFrame e (e.storeOoo seq data flags) := by
  unfold storeOoo
  split
  · exact .refl e
  · exact ⟨rfl, ⟨_, _, rfl⟩, rfl, rfl, rfl, rfl, rfl, rfl, rfl⟩

theorem recvTrimmed_frame (e : TcpEngine) (seg : TcpSegment) (seq : Int) (data : List UInt8) :
    RecvFrame e (e.recvTrimmed seg seq data) := by
  unfold recvTrimmed
  dsimp only
  split
  · exact scheduleAck_frame e true
  · split
    · exact ((takeInOrder_frame e seg _).trans (mergeLoop_frame _ _)).trans (scheduleAck_frame _ _)
    · exact (storeOoo_frame e _ _ _).trans (scheduleAck_frame _ _)

/-- Text touches the receive side only. -/
theorem recvData_frame (e : TcpEngine) (seg : TcpSegment) : RecvFrame e (e.recvData seg) := by
  unfold recvData
  dsimp only
  split
  · exact .refl e
  · split
    · split
      · exact scheduleAck_frame e true
      · exact recvTrimmed_frame _ _ _ _
    · exact recvTrimmed_frame _ _ _ _

/-- In-sequence data, from its offset in the segment: deliver, merge, acknowledge. -/
theorem recvInOrder_path {seg : TcpSegment} (off : Nat) (hc : a.Carries seg)
    (hs : e.tcb.state ∈ DataStates) (hsyn : seg.syn = false)
    (hoff : off = 0 ∧ seg.seq = e.tcb.rcvNxt ∨
      seqLt seg.seq e.tcb.rcvNxt = true ∧ (off : Int) = sub e.tcb.rcvNxt seg.seq)
    (hlen : off < seg.payload.length) :
    Path a e (e.recvTrimmed seg e.tcb.rcvNxt (seg.payload.drop off)) := by
  unfold recvTrimmed
  dsimp only
  split
  · exact Path.of_move (.scheduleAck e true hs)
  · next hsp =>
    simp only [if_true]
    have hf := takeInOrder_frame e seg ((seg.payload.drop off).take
      (s32 (sub (add e.tcb.rcvNxt e.rcvWnd) e.tcb.rcvNxt)).toNat)
    refine .head (.receive e _ (.takeInOrder seg off _ hc hs hsyn hoff hlen (by omega)
      (Int.toNat_of_nonneg (by omega)).le)) ?_
    have hs' := hf.state ▸ hs
    refine (mergeReassembly_path hc hs').tail (.scheduleAck _ false ?_)
    rwa [(mergeReassembly_frame _).state]

/-- Text in a state that takes text is a path. -/
theorem recvData_path {seg : TcpSegment} (hc : a.Carries seg) (hs : e.tcb.state ∈ DataStates)
    (hsyn : seg.syn = false) : Path a e (e.recvData seg) := by
  unfold recvData
  dsimp only
  split
  · exact .refl
  next hp =>
  have hlen := List.length_pos_iff.mpr hp
  split
  · next hlt =>
    split
    · exact Path.of_move (.scheduleAck e true hs)
    · next hoff =>
      have h0 : 0 ≤ sub e.tcb.rcvNxt seg.seq := by rw [sub_def]; omega
      exact recvInOrder_path _ hc hs hsyn (Or.inr ⟨hlt, by omega⟩) (by omega)
  · next hlt =>
    by_cases hq : seg.seq = e.tcb.rcvNxt
    · rw [hq]
      exact recvInOrder_path 0 hc hs hsyn (Or.inl ⟨rfl, hq⟩) hlen
    · unfold recvTrimmed
      dsimp only
      split
      · exact Path.of_move (.scheduleAck e true hs)
      · next hsp =>
        refine .head (.storeOoo e seg _ hc hs hsyn (by simpa using hlt) hq (by omega)
          (Int.toNat_of_nonneg (by omega)).le) ?_
        exact Path.of_move (.scheduleAck _ true (by rwa [(storeOoo_frame _ _ _ _).state]))

/-! ## FIN and the rest of segment processing -/

/-- Sending does not leave the open states. -/
theorem sendPending_open (h : e.tcb.state ∈ OpenStates) :
    e.sendPending.tcb.state ∈ OpenStates := by
  obtain ⟨hs, -⟩ | ⟨⟨-, hs⟩ | ⟨-, hs⟩, -⟩ := sendPending_state (e := e)
  · rwa [hs]
  · simp [hs]
  · simp [hs]

/-- `_process_fin` acknowledges the FIN and changes the state. -/
theorem processFin_cases :
    (∃ st, ((e.tcb.state = .established ∧ st = .closeWait) ∨
        (e.tcb.state = .finWait1 ∧ st = .closing) ∨
        (e.tcb.state ∉ [.established, .finWait1, .finWait2] ∧ st = e.tcb.state)) ∧
      e.processFin = e.consumeFin.sendAck.setState st) ∨
    (e.tcb.state = .finWait2 ∧ e.processFin =
      (e.consumeFin.sendAck.stopRt.dropPersistTimer.setState .timeWait).armTwTimer) := by
  have hs : e.consumeFin.sendAck.tcb.state = e.tcb.state := by simp
  unfold processFin
  dsimp only
  rw [hs]
  split
  · next h => exact Or.inl ⟨_, Or.inl ⟨h, rfl⟩, rfl⟩
  · next h => exact Or.inl ⟨_, Or.inr (Or.inl ⟨h, rfl⟩), rfl⟩
  · next h => exact Or.inr ⟨h, enterTimeWait_eq (by simp [CanSend, h])⟩
  · next h1 h2 h3 =>
    refine Or.inl ⟨e.tcb.state, Or.inr (Or.inr ⟨?_, rfl⟩), ?_⟩
    · simp only [List.mem_cons, List.not_mem_nil, or_false, not_or]
      exact ⟨h1, h2, h3⟩
    · rw [setState, if_pos hs]

/-- A consumed FIN is not deferred any more. -/
theorem processFin_pendingFin : e.processFin.fin.pendingFin = none := by
  obtain ⟨st, -, h⟩ | ⟨-, h⟩ := processFin_cases (e := e) <;> simp [h]

/-- The FIN of the peer is consumed at once, or remembered and checked for. -/
theorem finCheck_path {seg : TcpSegment} (hc : a.Carries seg) (hs : e.tcb.state ∈ OpenStates)
    (hsyn : seg.syn = false) : Path a e (e.finCheck seg).checkPendingFin := by
  have hcheck {f : TcpEngine} (hf : f.tcb.state ∈ OpenStates) : Path a f f.checkPendingFin := by
    unfold checkPendingFin
    split
    · next hp => exact Path.of_move (.processFin f hf ⟨seg, hc, Or.inr hp⟩)
    · exact .refl
  unfold finCheck
  dsimp only
  split
  · next hfin =>
    split
    · next hq =>
      refine .head (.processFin e hs ⟨seg, hc, Or.inl ⟨hfin, hsyn, hq⟩⟩) ?_
      rw [checkPendingFin, if_neg (by simp [processFin_pendingFin])]
    · split
      · next hgt => exact .head (.deferFin e seg hc hs hfin hsyn hgt) (hcheck hs)
      · exact hcheck hs
  · exact hcheck hs

/-- What comes after the acknowledgement: text, then the FIN. -/
theorem textAndFin_path {seg : TcpSegment} (hc : a.Carries seg) (hs : e.tcb.state ∈ OpenStates)
    (hsyn : seg.syn = false) : Path a e (e.textAndFin seg) := by
  unfold textAndFin
  dsimp only
  split
  · next h =>
    refine (recvData_path hc h.2 hsyn).trans ((sendPending_path _).trans (finCheck_path hc ?_ hsyn))
    exact sendPending_open (by rwa [(recvData_frame e seg).state])
  · exact (sendPending_path _).trans (finCheck_path hc (sendPending_open hs) hsyn)

/-! ## Synchronized states -/

/-- A window update is a move, and what it releases is a path. -/
theorem windowUpdate_path {seg : TcpSegment} (hc : a.Carries seg)
    (hs : e.tcb.state ∈ OpenStates) (hack : seg.ackFlag = true) :
    Path a e (e.windowUpdate seg) := by
  unfold windowUpdate
  dsimp only
  split
  · refine .head (.setSendWindow e seg hc hs hack) ?_
    split
    · exact cancelPersist_path _
    · exact .refl
  · exact .refl

theorem windowUpdate_open (seg : TcpSegment) (hs : e.tcb.state ∈ OpenStates) :
    (e.windowUpdate seg).tcb.state ∈ OpenStates := by
  unfold windowUpdate
  dsimp only
  split
  · split
    · exact sendPending_open (e := (e.setSendWindow seg.window seg.seq seg.ack).dropPersistTimer) hs
    · exact hs
  · exact hs

/-- The ACK that completes a passive open. -/
theorem synReceivedAck_path {seg : TcpSegment} (hc : a.Carries seg)
    (hs : e.tcb.state = .synReceived) (hack : seg.ackFlag = true) (hrst : seg.rst = false)
    (hsyn : seg.syn = false) : Path a e (e.synReceivedAck seg) := by
  unfold synReceivedAck
  split
  · next h =>
    simp only [Bool.and_eq_true] at h
    dsimp only
    refine .head (.completeOpen e seg hc ⟨hs, hack, h⟩) ?_
    refine (mergeReassembly_path hc (by simp [openCompleted])).trans
      ((sendPending_path (mergeReassembly _)).trans ?_)
    refine textAndFin_path hc (sendPending_open ?_) hsyn
    rw [(mergeReassembly_frame _).state]
    simp [openCompleted]
  · next h =>
    refine Path.of_move (.emitRstReply e seg _ _ _ hc hrst ?_)
    simp only [Bool.and_eq_true, not_and_or, Bool.not_eq_true] at h
    simpa [Rejects, hs, hack] using h

/-- An acknowledgement in the open states. -/
theorem establishedAck_path {seg : TcpSegment} (hc : a.Carries seg)
    (hs : e.tcb.state ∈ OpenStates) (hack : seg.ackFlag = true) (hsyn : seg.syn = false) :
    Path a e (e.establishedAck seg) := by
  unfold establishedAck
  split
  · exact Path.of_move (.sendAck e)
  next hnxt =>
  dsimp only
  have hp : Path a e (if seqGt seg.ack e.tcb.sndUna then e.processAck seg.ack else e) := by
    split
    · next hu =>
      refine Path.of_move (.processAck e seg hc hs hack ⟨hu, ?_⟩)
      simpa [seqGt_eq_not_seqLeq] using hnxt
    · exact .refl
  have hs1 : (if seqGt seg.ack e.tcb.sndUna then e.processAck seg.ack else e).tcb.state ∈
      OpenStates := by
    split
    · simpa using hs
    · exact hs
  generalize (if seqGt seg.ack e.tcb.sndUna then e.processAck seg.ack else e) = f at hp hs1
  refine hp.trans ((windowUpdate_path hc hs1 hack).trans ?_)
  have hs2 := windowUpdate_open seg hs1
  generalize f.windowUpdate seg = g at hs2
  split
  · next h => exact .head (.finAckedWait g h.1 h.2) (textAndFin_path hc (by simp) hsyn)
  · split
    · next h => exact Path.of_move (.finAckedTimeWait g h.1 h.2)
    · split
      · next h =>
        refine Path.of_move
          (.close g (hc.closes_iff.mpr (Or.inr hack)) (blocked_of_not_canSend ?_) ?_)
        · simp [CanSend, h.1]
        · simp [h.1]
      · exact textAndFin_path hc hs2 hsyn

/-- A segment in TIME-WAIT can only restart its timer. -/
theorem timeWaitArrives_path {seg : TcpSegment} (hc : a.Carries seg)
    (hs : e.tcb.state = .timeWait) : Path a e (e.timeWaitArrives seg) := by
  unfold timeWaitArrives
  split
  · next hr =>
    split
    · refine Path.of_move (.close e (hc.closes_iff.mpr (Or.inl hr)) (blocked_of_not_canSend ?_) ?_)
      · simp [CanSend, hs]
      · simp [hs]
    · exact Path.of_move (.sendAck e)
  · split
    · next hf =>
      exact .head (.sendAck e) (Path.of_move (.restartTimeWait _ seg hc hf (by simpa using hs)))
    · exact Path.of_move (.sendAck e)

/-- A reset closes the connection or gets back to LISTEN. -/
theorem doReset_path {seg : TcpSegment} (hc : a.Carries seg) (hrst : seg.rst = true)
    (hseq : seg.seq = e.tcb.rcvNxt) (hb : e.Blocked) (hs : e.tcb.state ≠ .closed) :
    Path a e e.doReset := by
  by_cases h : e.tcb.state = .synReceived ∧ e.fin.passive = true
  · exact Path.of_move (.listenAgain e h.1 h.2 ⟨seg, hc, hrst, hseq⟩)
  · obtain ⟨msg, hm, h⟩ := doReset_close h
    rw [h]
    exact .head (.signalError e msg hm) (Path.of_move
      (.close _ (hc.closes_iff.mpr (Or.inl hrst)) (hb.of_view rfl) hs))

/-- The checks of the synchronized states, one after another. -/
theorem handleSynchronized_path {seg : TcpSegment} (hc : a.Carries seg)
    (hs : e.tcb.state ∈ .timeWait :: .synReceived :: OpenStates) (hb : seg.rst = true → e.Blocked) :
    Path a e (e.handleSynchronized seg) := by
  unfold handleSynchronized
  split_ifs with htw hacc hr hr hq hsyn hack hsr
  · exact timeWaitArrives_path hc htw
  · exact .refl
  · exact Path.of_move (.sendAck e)
  · exact doReset_path hc hr hq (hb hr) (by rintro h; simp [h] at hs)
  · exact Path.of_move (.sendAck e)
  · exact Path.of_move (.sendAck e)
  · exact .refl
  · exact synReceivedAck_path hc hsr (by simpa using hack) (by simpa using hr)
      (by simpa using hsyn)
  · refine establishedAck_path hc ?_ (by simpa using hack) (by simpa using hsyn)
    rw [List.mem_cons, List.mem_cons] at hs
    exact (hs.resolve_left htw).resolve_left hsr

/-! ## CLOSED, LISTEN, SYN-SENT -/

/-- A closed engine answers with a reset. -/
theorem handleClosed_path {seg : TcpSegment} (hc : a.Carries seg) (hs : e.tcb.state = .closed) :
    Path a e (e.handleClosed seg) := by
  have hj : e.Rejects seg := by simp [Rejects, hs]
  unfold handleClosed
  split_ifs with hr
  · exact .refl
  · exact Path.of_move (.emitRstReply e seg _ _ _ hc (by simpa using hr) hj)
  · exact Path.of_move (.emitRstReply e seg _ _ _ hc (by simpa using hr) hj)

/-- A listener takes a SYN, and answers an ACK with a reset. -/
theorem handleListen_path {seg : TcpSegment} (hc : a.Carries seg) (hs : e.tcb.state = .listen) :
    Path a e (e.handleListen seg) := by
  unfold handleListen
  split_ifs with hr hack hsyn
  · exact .refl
  · exact Path.of_move (.emitRstReply e seg _ _ _ hc (by simpa using hr)
      (by simpa [Rejects, hs] using hack))
  · exact .refl
  · exact .refl
  · exact Path.of_move (.acceptSyn e seg hc hs (by simpa using hsyn) (by simpa using hack)
      (by simpa using hr))

/-- The MSS that is learnt is no larger than the larger of the two, and not 0 if they are not. -/
theorem learnMss_tcb (seg : TcpSegment) :
    ∃ m, m ≤ max e.tcb.sndMss e.conf.cfgMss ∧ (1 ≤ e.tcb.sndMss → 1 ≤ e.conf.cfgMss → 1 ≤ m) ∧
      e.learnMss seg = { e with tcb := { e.tcb with sndMss := m } } := by
  unfold learnMss
  split
  · next m _ =>
    split
    · exact ⟨e.tcb.sndMss, by omega, fun h _ => h, rfl⟩
    · exact ⟨_, by omega, fun _ h => by omega, rfl⟩
  · exact ⟨e.tcb.sndMss, by omega, fun h _ => h, rfl⟩

/-- The TCB of a listener that has taken a SYN, with the MSS it settles on. -/
def listenTcb (e : TcpEngine) (seg : TcpSegment) (m : Nat) : TCB :=
  { e.tcb with
    state := .synReceived
    irs := seg.seq
    rcvNxt := add seg.seq 1
    iss := e.newIss
    sndUna := e.newIss
    sndNxt := e.newIss
    sndWnd := seg.window
    sndWl1 := seg.seq
    sndWl2 := e.newIss
    sndMss := m }

/-- A SYN taken in LISTEN, up to the SYN-ACK that answers it. -/
def listenTaken (e : TcpEngine) (seg : TcpSegment) (m : Nat) : TcpEngine :=
  { e with
    conf := { e.conf with remotePort :=
      if e.conf.remotePort = 0 then seg.srcPort else e.conf.remotePort }
    tcb := e.listenTcb seg m
    env := { e.env with log := e.env.log ++ [.stateChange .listen .synReceived] } }

/-- A listener that takes a SYN has a TCB for it, and the SYN-ACK on its queue. -/
theorem acceptSyn_eq (seg : TcpSegment) (hs : e.tcb.state = .listen) :
    ∃ m, m ≤ max e.tcb.sndMss e.conf.cfgMss ∧ (1 ≤ e.tcb.sndMss → 1 ≤ e.conf.cfgMss → 1 ≤ m) ∧
      e.acceptSyn seg =
        (e.listenTaken seg m).queueAndSend { syn := true, ack := true } [] true := by
  obtain ⟨m, hm, hp, h⟩ := learnMss_tcb
    (e := { e with
      conf := { e.conf with remotePort :=
        if e.conf.remotePort = 0 then seg.srcPort else e.conf.remotePort }
      tcb := { e.tcb with
        irs := seg.seq, rcvNxt := add seg.seq 1, iss := e.newIss, sndUna := e.newIss,
        sndNxt := e.newIss, sndWnd := seg.window, sndWl1 := seg.seq, sndWl2 := e.newIss } }) seg
  refine ⟨m, hm, hp, ?_⟩
  unfold acceptSyn
  dsimp only
  rw [h, setState_plain (by simp [hs]) (by simp) (by simp [hs])]
  simp only [withState, emit, hs, listenTaken, listenTcb]

/-- What a SYN taken in SYN-SENT changes. -/
theorem takeSyn_cases (seg : TcpSegment) :
    ∃ m, m ≤ max e.tcb.sndMss e.conf.cfgMss ∧ (1 ≤ e.tcb.sndMss → 1 ≤ e.conf.cfgMss → 1 ≤ m) ∧
      e.takeSyn seg =
        let f := { e with tcb :=
          { e.tcb with irs := seg.seq, rcvNxt := add seg.seq 1, sndMss := m } }
        if seg.ackFlag then (f.processAck seg.ack).setSendWindow seg.window seg.seq seg.ack
        else f.setSendWindow seg.window seg.seq e.tcb.sndUna := by
  obtain ⟨m, hm, hp, h⟩ := learnMss_tcb
    (e := { e with tcb := { e.tcb with irs := seg.seq, rcvNxt := add seg.seq 1 } }) seg
  refine ⟨m, hm, hp, ?_⟩
  unfold takeSyn
  dsimp only
  rw [h]
  split <;> rfl

theorem takeSyn_tcb (seg : TcpSegment) :
    (e.takeSyn seg).tcb.state = e.tcb.state ∧ (e.takeSyn seg).tcb.rcvNxt = add seg.seq 1 := by
  obtain ⟨m, -, -, h⟩ := takeSyn_cases (e := e) seg
  rw [h]
  dsimp only
  split <;> simp

/-- The SYN-ACK completes an active open. -/
theorem synSentEstablished_path {f : TcpEngine} {seg : TcpSegment} (hc : a.Carries seg)
    (hcs : a.Carries seg.synTaken) (ht : e.TakesSyn seg) (hf : f = e.takeSyn seg)
    (hu : seqGt f.tcb.sndUna f.tcb.iss = true) : Path a e (f.synSentEstablished seg) := by
  subst hf
  unfold synSentEstablished
  dsimp only
  refine .head (.synEstablished e seg hc ht hu) (.head (.sendAck _) ?_)
  split
  · refine (sendPending_path _).trans (handleSynchronized_path hcs ?_ ?_)
    · exact List.mem_cons_of_mem _ (List.mem_cons_of_mem _ (sendPending_open (by simp)))
    · intro hr
      have : seg.rst = true := hr
      rw [ht.2.2.1] at this
      cases this
  · exact sendPending_path _

/-- A SYN without an ACK crosses with the engine's own. -/
theorem simultaneousOpen_path {f : TcpEngine} {seg : TcpSegment} (hc : a.Carries seg)
    (ht : e.TakesSyn seg) (hf : f = e.takeSyn seg)
    (hu : seqGt f.tcb.sndUna f.tcb.iss = false) : Path a e (f.simultaneousOpen seg) := by
  have hn : f.becomeSynReceived.tcb.rcvNxt = add seg.seq 1 := by
    subst hf
    simpa [becomeSynReceived] using (takeSyn_tcb seg).2
  have hs : f.becomeSynReceived.tcb.state = .synReceived := by simp [becomeSynReceived]
  refine .head (.synReceived e seg hc ht (hf ▸ hu)) ?_
  rw [← hf]
  unfold simultaneousOpen
  dsimp only
  generalize f.becomeSynReceived = g at hn hs
  have h1 : Path a g (if seg.payload ≠ [] then
      g.storeOoo (add seg.seq 1) seg.payload { seg.flags with fin := false } else g) := by
    split
    · next hp => exact Path.of_move (.storeSynData g seg hc hs ht.2.1 hp hn)
    · exact .refl
  have h2 : RecvFrame g (if seg.payload ≠ [] then
      g.storeOoo (add seg.seq 1) seg.payload { seg.flags with fin := false } else g) := by
    split
    · exact storeOoo_frame _ _ _ _
    · exact .refl g
  have h3 : (if seg.payload ≠ [] then
      g.storeOoo (add seg.seq 1) seg.payload { seg.flags with fin := false }
      else g).tcb.rcvNxt = add seg.seq 1 := by
    split
    · unfold storeOoo; split <;> exact hn
    · exact hn
  refine h1.trans ?_
  have hs2 := h2.state.trans hs
  generalize (if seg.payload ≠ [] then
    g.storeOoo (add seg.seq 1) seg.payload { seg.flags with fin := false } else g) = k at hs2 h3
  split
  · next hfin =>
    exact .head (.deferSynFin k seg hc hs2 ht.2.1 hfin h3) (Path.of_move (.sendSynAck _ hs2))
  · exact Path.of_move (.sendSynAck _ hs2)

/-- The checks in SYN-SENT. -/
theorem handleSynSent_path {seg : TcpSegment} (hc : a.Carries seg)
    (hcs : a.Carries seg.synTaken) (hs : e.tcb.state = .synSent) :
    Path a e (e.handleSynSent seg) := by
  unfold handleSynSent
  split
  · split
    · exact .refl
    · next hbad hr =>
      refine Path.of_move (.emitRstReply e seg _ _ _ hc (by simpa using hr) ?_)
      simpa [Rejects, hs] using hbad
  next hbad =>
  dsimp only
  split
  · next hr =>
    split
    · refine .head (.signalError e _ (by decide))
        (Path.of_move (.close _ (hc.closes_iff.mpr (Or.inl hr)) (blocked_of_not_canSend ?_) ?_))
      · simp [CanSend, hs]
      · simp [hs]
    · exact .refl
  next hr =>
  split
  · exact .refl
  next hsyn =>
  have ht : e.TakesSyn seg := by
    refine ⟨hs, by simpa using hsyn, by simpa using hr, fun hack => ?_⟩
    simp only [hack, Bool.true_and, Bool.or_eq_true, not_or, Bool.not_eq_true] at hbad
    simp [seqGt_eq_not_seqLeq, hbad.1]
    simpa [seqGt_eq_not_seqLeq] using hbad.2
  split
  · next hu => exact synSentEstablished_path hc hcs ht rfl hu
  · next hu => exact simultaneousOpen_path hc ht rfl (by simpa using hu)

/-- Every segment that arrives is a path. -/
theorem onSegment_path {data : List UInt8} (hb : e.Blocked) :
    Path (.segment data) e (e.onSegment data) := by
  unfold onSegment
  split
  · exact Path.of_move (.raise e _)
  next seg hp =>
  have hc : Action.Carries (.segment data) seg := ⟨data, seg, rfl, hp, Or.inl rfl⟩
  have hcs : Action.Carries (.segment data) seg.synTaken := ⟨data, seg, rfl, hp, Or.inr rfl⟩
  unfold segmentArrives
  split
  · exact .refl
  dsimp only
  have h1 : Path (.segment data) e
      (if e.tcb.state = .established then e.restartKeepalive true else e) := by
    split
    · next h => exact Path.of_move (.restartKeepalive e true h)
    · exact .refl
  have hb1 : (if e.tcb.state = .established then e.restartKeepalive true else e).Blocked := by
    split
    · exact hb.of_view (by simp [sendView, usableWindow, restartKeepalive_persist])
    · exact hb
  generalize (if e.tcb.state = .established then e.restartKeepalive true else e) = f at h1 hb1
  apply h1.trans
  split
  · next h => exact handleClosed_path hc h
  · next h => exact handleListen_path hc h
  · next h => exact handleSynSent_path hc hcs h
  · next h1 h2 h3 =>
    refine handleSynchronized_path hc ?_ fun _ => hb1
    cases h : f.tcb.state <;> simp_all

/-! ## User calls -/

/-- An OPEN is a path. -/
theorem activeOpen_path (ho : e.tcb.state = .closed → a.Opens) (hx : ¬ a.Closes) :
    Path a e e.activeOpen := by
  unfold activeOpen
  split
  · exact Path.of_move (.raise e _)
  · next h =>
    refine Path.of_move (.connect e ?_ hx)
    by_cases hs : e.tcb.state = .closed
    · exact Or.inl ⟨hs, ho hs⟩
    · exact Or.inr (by tauto)

theorem passiveOpen_path (ho : a.Opens) : Path a e e.passiveOpen := by
  unfold passiveOpen
  split
  · exact Path.of_move (.raise e _)
  · next h => exact Path.of_move (.startListening e (by tauto) ho)

theorem openCall_path (active : Bool) (r l : Option Nat) (t : Option ℚ) (ho : a.Opens) :
    Path a e (e.openCall active r l t) := by
  unfold openCall
  dsimp only
  refine .head (.setPorts e r l ho) (.head (.setUserTimeout _ t) ?_)
  split
  · exact activeOpen_path (fun _ => ho) ho.not_closes
  · exact passiveOpen_path ho

/-- SEND is let through to the buffer. -/
def AcceptsSend (e : TcpEngine) : Prop :=
  e.tcb.state ∈ [.listen, .synSent, .synReceived, .established, .closeWait] ∧
    e.fin.finPending = false

instance : Decidable e.AcceptsSend := inferInstanceAs (Decidable (_ ∧ _))

/-- A SEND that is accepted is a path. -/
theorem sendQueued_path (data : List UInt8) (urgent : Bool) (hs : e.tcb.state ≠ .closed)
    (ha : ∃ data push t, a = .send data push urgent t) : Path a e (e.sendQueued data urgent) := by
  unfold sendQueued
  dsimp only
  have h1 : Path a e (if urgent && !data.isEmpty then e.setSndUp else e) := by
    split
    · next hu =>
      rw [Bool.and_eq_true] at hu
      exact Path.of_move (.setSndUp e hs (hu.1 ▸ ha))
    · exact .refl
  generalize (if urgent && !data.isEmpty then e.setSndUp else e) = f at h1
  apply h1.trans
  split
  · exact sendPending_path f
  · exact .refl

/-- What a SEND does once its data is in the buffer. -/
def sendBuffered (e : TcpEngine) (data : List UInt8) (urgent : Bool) : TcpEngine :=
  if e.tcb.state = .listen then
    if e.conf.remotePort = 0 then e.raise "foreign socket unspecified"
    else if e.activeOpen.env.exc.isSome then e.activeOpen else e.activeOpen.sendQueued data urgent
  else e.sendQueued data urgent

/-- A SEND that is accepted is buffered first. -/
theorem send_of_accepts (data : List UInt8) (push urgent : Bool) (t : Option ℚ)
    (h : e.AcceptsSend) : e.send data push urgent t =
      ((e.setUserTimeout t).bufferData data push).sendBuffered data urgent := by
  have hs : e.tcb.state ≠ .closed := by rintro hc; simp [AcceptsSend, hc] at h
  have hc : ¬ (e.tcb.state ∈ [.finWait1, .finWait2, .closing, .lastAck, .timeWait] ∨
      e.fin.finPending = true) := by
    rintro (hm | hp)
    · obtain ⟨h, -⟩ := h
      cases hst : e.tcb.state <;> simp_all
    · simp [h.2] at hp
  rw [send, if_neg hs, if_neg hc]
  rfl

/-- A SEND that is refused raises, and changes nothing else. -/
theorem send_of_refused (data : List UInt8) (push urgent : Bool) (t : Option ℚ)
    (h : ¬ e.AcceptsSend) : ∃ msg, e.send data push urgent t = e.raise msg := by
  unfold send
  split_ifs with hs hc
  · exact ⟨_, rfl⟩
  · exact ⟨_, rfl⟩
  all_goals
    exfalso
    refine h ⟨?_, ?_⟩
    · cases hst : e.tcb.state <;> simp_all
    · simp only [not_or, Bool.not_eq_true] at hc
      exact hc.2

theorem sendBuffered_path (data : List UInt8) (urgent : Bool) (hs : e.tcb.state ≠ .closed)
    (ha : ∃ data push t, a = .send data push urgent t) :
    Path a e (e.sendBuffered data urgent) := by
  have hx : ¬ a.Closes := by
    obtain ⟨d, p, t, rfl⟩ := ha
    exact id
  unfold sendBuffered
  split
  · split
    · exact Path.of_move (.raise e _)
    · have ho : Path a e e.activeOpen := activeOpen_path (fun h => absurd h hs) hx
      split
      · exact ho
      · refine ho.trans (sendQueued_path data urgent ?_ ha)
        next h _ _ =>
        have hsyn : e.activeOpen.tcb.state = .synSent := by
          rw [activeOpen, if_neg (by simp [h])]
          simp [connect]
        simp [hsyn]
  · exact sendQueued_path data urgent hs ha

theorem receive_path {n : Nat} (ha : a = .receive n) : Path a e (e.receive n) := by
  unfold receive
  dsimp only
  split_ifs with hs
  · exact Path.of_move (.raise e _)
  · exact Path.of_move (.raise e _)
  · exact Path.of_move (.raise e _)
  · next h =>
    exact .head (.drain e n ha hs) (.head (.reopenWindow _ n ha h.2.2) (.head (.sendAck _)
      (Path.of_move (.finishReceive _ _))))
  · exact .head (.drain e n ha hs) (Path.of_move (.finishReceive _ _))

/-- A CLOSE is a path. -/
theorem close_path (hx : a.Closes) (hb : e.Blocked) : Path a e e.close := by
  unfold TcpEngine.close
  split_ifs with hs hc hl
  · exact Path.of_move (.raise e _)
  · exact Path.of_move (.raise e _)
  · exact Path.of_move (.close e hx hb hs)
  · refine .head (.requestFin e ?_) (sendPending_path _)
    cases h : e.tcb.state <;> simp_all

theorem sendRst_blocked (hb : e.Blocked) : e.sendRst.Blocked :=
  hb.of_view (by simp [sendView, usableWindow, sendRst])

/-- An ABORT is a path. -/
theorem abort_path (hx : a.Closes) (hb : e.Blocked) : Path a e e.abort := by
  unfold abort
  split_ifs with hs
  · exact Path.of_move (.raise e _)
  · next h => exact Path.of_move (.abort e hx hb h)
  · exact Path.of_move (.close e hx hb hs)

/-! ## Timer callbacks -/

/-- The retransmission timer sends the head again or gives up. -/
theorem onRto_path {h : TimerHandle Callback} (ha : a = .expire h) (hl : h ∈ e.tm.sched.live)
    (hcb : h.cb = .onRto) (hb : e.Blocked) : Path a e (e.popTimer h).onRto := by
  have hx : a.Closes := by
    rw [ha]
    trivial
  have hf : (e.popTimer h).forgetTimer .onRto = e.fire h := by rw [fire, hcb]
  have hr : (e.fire h).buf.retx = e.buf.retx := by rw [fire, hcb]; rfl
  unfold onRto
  rw [hf]
  dsimp only
  split
  · next hq => exact Path.of_move (.fire e h hl (Or.inr ⟨hcb, hr ▸ hq⟩))
  · next o rest hq =>
    have hne : e.buf.retx ≠ [] := by rw [← hr, hq]; simp
    split
    · exact Path.of_move (.giveUpRto e h false _ hx hl hcb hne hb ha)
    · split
      · exact Path.of_move (.giveUpRto e h true _ hx hl hcb hne hb ha)
      · exact Path.of_move (.retransmit e h o rest hl hcb (hr ▸ hq) ha)

/-- The persist timer sends a probe. -/
theorem onPersist_path {h : TimerHandle Callback} (hx : a = .expire h) (hl : h ∈ e.tm.sched.live)
    (hcb : h.cb = .onPersist) : Path a e (e.popTimer h).onPersist := by
  have hf : (e.popTimer h).forgetTimer .onPersist = e.fire h := by rw [fire, hcb]
  have ht : (e.fire h).tcb = e.tcb := by rw [fire, hcb]; rfl
  have hbuf : (e.fire h).buf = e.buf := by rw [fire, hcb]; rfl
  have hfin : (e.fire h).fin = e.fin := by rw [fire, hcb]; rfl
  have hfire : Path a e (e.fire h) := Path.of_move (.fire e h hl (Or.inl (by simp [hcb])))
  unfold onPersist
  rw [hf]
  dsimp only
  split_ifs with hw hb hd
  · exact hfire.trans (sendPending_path _)
  · rw [ht] at hw
    rw [hbuf] at hb
    exact Path.of_move (.probe e h hx hl hcb (by omega) hb)
  · rw [ht] at hw
    rw [hbuf, not_not] at hb
    rw [hfin] at hd
    refine Path.of_move (.probeFin e h hx hl hcb (by omega) ?_)
    simpa [FinDue, hb, and_assoc] using hd
  · exact hfire

/-- The keepalive timer sends a probe or gives up. -/
theorem onKeepalive_path {h : TimerHandle Callback} (hx : a.Closes) (hl : h ∈ e.tm.sched.live)
    (hcb : h.cb = .onKeepalive) (hb : e.Blocked) : Path a e (e.popTimer h).onKeepalive := by
  have hf : (e.popTimer h).forgetTimer .onKeepalive = e.fire h := by rw [fire, hcb]
  have hb' : (e.fire h).Blocked := by rw [fire, hcb]; exact hb.of_view rfl
  unfold onKeepalive
  rw [hf]
  refine .head (.fire e h hl (Or.inl (by simp [hcb]))) ?_
  dsimp only
  split_ifs with hc hq hk
  · exact .refl
  · simp only [not_or, not_not] at hc
    exact Path.of_move (.restartKeepalive _ _ hc.2)
  · exact Path.of_move (.giveUp _ _ hx hb' (by simp only [not_or, not_not] at hc; simp [hc.2])
      (by decide))
  · simp only [not_or, not_not] at hc
    refine .head (.sendKeepaliveProbe _ hc.2 (not_not.mp hq))
      (Path.of_move (.restartKeepalive _ _ ?_))
    simpa [sendKeepaliveProbe] using hc.2

/-- Every timer that expires is a path. -/
theorem expire_path {h : TimerHandle Callback} (ha : a = .expire h) (hl : h ∈ e.tm.sched.live)
    (hb : e.Blocked) : Path a e ((e.popTimer h).callback h.cb) := by
  have hx : a.Closes := by
    rw [ha]
    trivial
  cases hcb : h.cb with
  | onRto => exact onRto_path ha hl hcb hb
  | onPersist => exact onPersist_path ha hl hcb
  | onDelack =>
    have hf : (e.popTimer h).forgetTimer .onDelack = e.fire h := by rw [fire, hcb]
    rw [callback, onDelack, hf]
    exact .head (.fire e h hl (Or.inl (by simp [hcb]))) (Path.of_move (.sendAck _))
  | onTimeWait =>
    have hf : (e.popTimer h).forgetTimer .onTimeWait = e.fire h := by rw [fire, hcb]
    rw [callback, onTimeWait, hf]
    exact Path.of_move (.timeWaitExpires e h hx hl hcb hb)
  | onKeepalive => exact onKeepalive_path hx hl hcb hb

/-! ## Steps of the machine -/

/-- The engine once a SEND that is let through has buffered its data; for every
other action the engine as it enters. -/
def begin (e : TcpEngine) : Action → TcpEngine
  | .send data push _ t =>
    if e.AcceptsSend then (e.enter.setUserTimeout t).bufferData data push else e.enter
  | _ => e.enter

/-- Every entry point is a path from where it begins. -/
theorem perform_path (hb : e.Blocked) (he : e.Enabled a) :
    Path a (e.begin a) (e.enter.perform a) := by
  have hb' : e.enter.Blocked := hb.of_view rfl
  cases a with
  | tick dt => exact Path.of_move (.passTime _ dt he)
  | random r => exact Path.of_move (.drawRandom _ r)
  | openCall active r l t => exact openCall_path active r l t trivial
  | activeOpen => exact activeOpen_path (fun _ => trivial) id
  | passiveOpen => exact passiveOpen_path trivial
  | send data push urgent t =>
    by_cases ha : e.AcceptsSend
    · have ha' : e.enter.AcceptsSend := ha
      simp only [begin, if_pos ha, perform, send_of_accepts _ _ _ _ ha']
      refine sendBuffered_path data urgent ?_ ⟨data, push, t, rfl⟩
      rintro hc
      have hs : e.tcb.state = .closed := by cases t <;> exact hc
      simp [AcceptsSend, hs] at ha
    · obtain ⟨msg, h⟩ := send_of_refused (e := e.enter) data push urgent t ha
      simp only [begin, if_neg ha, perform, h]
      exact Path.of_move (.raise _ _)
  | receive n => exact receive_path rfl
  | close => exact close_path trivial hb'
  | abort => exact abort_path trivial hb'
  | segment data => exact onSegment_path hb'
  | expire h => exact expire_path rfl he.1 hb'

end TcpEngine

/-- A step of the machine is a sequence of moves. -/
theorem step_path {e e' : TcpEngine} {a : Action} (hb : e.Blocked)
    (h : engineMachine.step e a = some e') : TcpEngine.Path a (e.begin a) e' := by
  simp only [engineMachine] at h
  split_ifs at h with he hd
  obtain rfl := Option.some.inj h
  exact TcpEngine.perform_path hb he

end HdlPlayground.Tcp

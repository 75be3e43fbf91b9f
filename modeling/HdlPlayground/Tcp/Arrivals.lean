import HdlPlayground.Tcp.Effects

/-!
# What an arriving segment meets

`on_segment` parses, checks the ports, restarts the keepalive timer in ESTABLISHED
and hands the segment to the handler of the state. The first three touch nothing but
the exception and the timers.
-/
namespace HdlPlayground.Tcp

namespace TcpEngine

variable {a : Action} {e e' : TcpEngine}

/-- The port test of `on_segment`. -/
def Addressed (e : TcpEngine) (seg : TcpSegment) : Prop :=
  e.conf.localPort = 0 ∨ seg.dstPort = 0 ∨ seg.dstPort = e.conf.localPort

instance (e : TcpEngine) (seg : TcpSegment) : Decidable (e.Addressed seg) :=
  inferInstanceAs (Decidable (_ ∨ _ ∨ _))

/-- A segment has arrived in ESTABLISHED: the peer is alive. -/
def heard (e : TcpEngine) : TcpEngine :=
  if e.tcb.state = .established then e.restartKeepalive true else e

theorem heard_eq : e.heard = { e with tm := e.heard.tm } := by
  unfold heard
  split
  · exact e.restartKeepalive_eq true
  · rfl

@[simp] theorem heard_conf : e.heard.conf = e.conf := by rw [heard_eq]
@[simp] theorem heard_tcb : e.heard.tcb = e.tcb := by rw [heard_eq]
@[simp] theorem heard_buf : e.heard.buf = e.buf := by rw [heard_eq]
@[simp] theorem heard_fin : e.heard.fin = e.fin := by rw [heard_eq]
@[simp] theorem heard_rt : e.heard.rt = e.rt := by rw [heard_eq]
@[simp] theorem heard_adv : e.heard.adv = e.adv := by rw [heard_eq]
@[simp] theorem heard_env : e.heard.env = e.env := by rw [heard_eq]

@[simp] theorem heard_persist : e.heard.tm.persistTimer = e.tm.persistTimer := by
  unfold heard
  split
  · simp
  · rfl

@[simp] theorem heard_ctl : e.heard.ctl = e.ctl := by simp [ctl]

theorem heard_sendView : e.heard.sendView = e.sendView := by simp [sendView, usableWindow]

theorem heard_rcvWnd : e.heard.rcvWnd = e.rcvWnd := by simp [rcvWnd]

/-- The handler of the state. -/
def handle (e : TcpEngine) (seg : TcpSegment) : TcpEngine :=
  match e.tcb.state with
  | .closed => e.handleClosed seg
  | .listen => e.handleListen seg
  | .synSent => e.handleSynSent seg
  | _ => e.handleSynchronized seg

theorem handle_closed (seg : TcpSegment) (h : e.tcb.state = .closed) :
    e.handle seg = e.handleClosed seg := by rw [handle, h]

theorem handle_listen (seg : TcpSegment) (h : e.tcb.state = .listen) :
    e.handle seg = e.handleListen seg := by rw [handle, h]

theorem handle_synSent (seg : TcpSegment) (h : e.tcb.state = .synSent) :
    e.handle seg = e.handleSynSent seg := by rw [handle, h]

/-- The states of a connection that has seen its peer. -/
abbrev SyncStates : List ConnState := .timeWait :: .synReceived :: OpenStates

theorem handle_synchronized (seg : TcpSegment) (h : e.tcb.state ∈ SyncStates) :
    e.handle seg = e.handleSynchronized seg := by
  unfold handle
  split
  · next hs => rw [hs] at h; simp at h
  · next hs => rw [hs] at h; simp at h
  · next hs => rw [hs] at h; simp at h
  · rfl

theorem state_cases (e : TcpEngine) : e.tcb.state = .closed ∨ e.tcb.state = .listen ∨
    e.tcb.state = .synSent ∨ e.tcb.state ∈ SyncStates := by
  cases h : e.tcb.state <;> simp

/-- A segment of another port is ignored. -/
theorem onSegment_ignored {data : List UInt8} {seg : TcpSegment}
    (hp : TcpSegment.parse data = .ok seg) (h : ¬ e.Addressed seg) : e.onSegment data = e := by
  simp only [Addressed, not_or] at h
  rw [onSegment, hp]
  exact if_pos h

theorem onSegment_handle {data : List UInt8} {seg : TcpSegment}
    (hp : TcpSegment.parse data = .ok seg) (h : e.Addressed seg) :
    e.onSegment data = e.heard.handle seg := by
  have hn : ¬ (e.conf.localPort ≠ 0 ∧ seg.dstPort ≠ 0 ∧ seg.dstPort ≠ e.conf.localPort) := by
    simp only [Addressed] at h
    tauto
  rw [onSegment, hp]
  exact if_neg hn

/-- A step that takes a segment. -/
theorem step_segment {data : List UInt8} {seg : TcpSegment} (hp : TcpSegment.parse data = .ok seg)
    (h : engineMachine.step e (.segment data) = some e') :
    (¬ e.Addressed seg ∧ e' = e.enter) ∨ (e.Addressed seg ∧ e' = e.enter.heard.handle seg) := by
  simp only [engineMachine] at h
  split_ifs at h
  obtain rfl := Option.some.inj h
  by_cases ha : e.Addressed seg
  · exact Or.inr ⟨ha, onSegment_handle (e := e.enter) hp ha⟩
  · exact Or.inl ⟨ha, onSegment_ignored (e := e.enter) hp ha⟩

/-- After the handshake an acknowledgement passes or fails the acceptability test. -/
theorem handle_ack {seg : TcpSegment} (hs : e.tcb.state ∈ OpenStates) (hr : seg.rst = false)
    (hsyn : seg.syn = false) (hack : seg.ackFlag = true) :
    e.handle seg = if acceptable seg.seq seg.segLen e.tcb.rcvNxt e.rcvWnd then e.establishedAck seg
      else e.sendAck := by
  have htw : e.tcb.state ≠ .timeWait := fun h => by simp [h] at hs
  have hsr : e.tcb.state ≠ .synReceived := fun h => by simp [h] at hs
  rw [handle_synchronized seg (List.mem_cons_of_mem _ (List.mem_cons_of_mem _ hs)),
    handleSynchronized, if_neg htw]
  by_cases ha : acceptable seg.seq seg.segLen e.tcb.rcvNxt e.rcvWnd = true
  · rw [if_pos ha, if_neg (by simp [ha]), if_neg (by simp [hr]), if_neg (by simp [hsyn]),
      if_neg (by simp [hack]), if_neg hsr]
  · rw [if_neg ha, if_pos (by simpa using ha), if_neg (by simp [hr])]

/-! ## The states that text and FIN lead to -/

/-- The states a FIN of the peer leads to. -/
abbrev LaterStates : List ConnState := .timeWait :: OpenStates

theorem processFin_later (hs : e.tcb.state ∈ OpenStates) :
    e.processFin.tcb.state ∈ LaterStates := by
  obtain ⟨st, hst, h⟩ | ⟨-, h⟩ := processFin_cases (e := e)
  · rw [h, setState_tcb]
    obtain ⟨-, rfl⟩ | ⟨-, rfl⟩ | ⟨-, rfl⟩ := hst
    · simp
    · simp
    · exact List.mem_cons_of_mem _ hs
  · rw [h]
    simp

theorem checkPendingFin_later (hs : e.tcb.state ∈ OpenStates) :
    e.checkPendingFin.tcb.state ∈ LaterStates := by
  unfold checkPendingFin
  split
  · exact processFin_later hs
  · exact List.mem_cons_of_mem _ hs

theorem finCheck_later (seg : TcpSegment) (hs : e.tcb.state ∈ OpenStates) :
    (e.finCheck seg).checkPendingFin.tcb.state ∈ LaterStates := by
  unfold finCheck
  dsimp only
  split_ifs
  · rw [checkPendingFin, if_neg (by simp [processFin_pendingFin])]
    exact processFin_later hs
  · exact checkPendingFin_later hs
  · exact checkPendingFin_later hs
  · exact checkPendingFin_later hs

theorem textAndFin_later (seg : TcpSegment) (hs : e.tcb.state ∈ OpenStates) :
    (e.textAndFin seg).tcb.state ∈ LaterStates := by
  unfold textAndFin
  dsimp only
  refine finCheck_later seg (sendPending_open ?_)
  split
  · rwa [(recvData_frame e seg).state]
  · exact hs

end TcpEngine

end HdlPlayground.Tcp

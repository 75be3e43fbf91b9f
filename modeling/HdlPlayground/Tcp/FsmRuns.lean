import HdlPlayground.Tcp.Flight
import HdlPlayground.Tcp.Fsm

/-!
# The state machine over whole runs

The state agrees with the diagram and with the close bookkeeping at the end of every
entry point, as long as no connection is opened with `peer_fin` left over from an
earlier one.
-/
namespace HdlPlayground.Tcp

namespace TcpEngine

variable {a : Action} {e e' : TcpEngine}

/-! ## Entry points -/

/-- A connection about to be opened has no flag left from an earlier one. -/
def Unstale (a : Action) (c : Ctl) : Prop := a.Opens → c.1 = .closed → c.2.peerFin = false

theorem Unstale.control {c c' : Ctl} (h : Control a c c') (hu : Unstale a c) : Unstale a c' := by
  intro ho hs
  cases h with
  | close s f hx => exact absurd hx ho.not_closes
  | sendFin s s' f n _ _ hst =>
    rcases hst with ⟨-, rfl⟩ | ⟨-, rfl⟩ | ⟨-, rfl⟩ | ⟨-, rfl⟩
    · cases hs
    · cases hs
    · cases hs
    · exact hu ho hs
  | processFin s s' f hm hst =>
    rcases hst with ⟨-, rfl⟩ | ⟨-, rfl⟩ | ⟨-, rfl⟩ | ⟨-, rfl⟩
    · cases hs
    · cases hs
    · cases hs
    · rw [show s' = .closed from hs] at hm
      simp at hm
  | requestFin s f hm => exact hu ho hs
  | stay => exact hu ho hs
  | processAck s f b _ => exact hu ho hs
  | deferFin s f n => exact hu ho hs
  | _ => cases hs

/-- The invariant of an engine between entry points. -/
structure Governed (e : TcpEngine) : Prop where
  ready : e.Ready
  spanned : e.Spanned
  peer : PeerOk e.ctl
  settled : Settled e.ctl
  finAck : FinAck e
  arcs : ∀ s s', Event.stateChange s s' ∈ e.env.log → (s, s') ∈ fsmArcs ∨ s' = .closed

theorem governed_init (args : EngineArgs) (sched : ManualScheduler Callback) (rand : Nat) :
    (init args sched rand).Governed := by
  refine ⟨ready_init args sched rand, ⟨?_, ?_, ?_, ?_, ?_⟩, ⟨?_, ?_⟩, ?_, ?_, ?_⟩
  · simp [init]
  · simp [init]
  · simp [init]
  · simp [init]
  · simp [init]
  · simp [ctl, init]
  · simp [ctl, init]
  · simp [Settled, ctl, init]
  · simp [FinAck, init]
  · simp [init]

/-- The step of a run in which the state and the bookkeeping stay in agreement: no
open with a flag of an earlier connection, and everything in flight or buffered,
the data of the step included, fits in the sequence space. -/
def Meets (e : TcpEngine) (a : Action) : Prop :=
  ¬ e.OpensStale a ∧ e.backlog + (e.buffered a).length < 4294967296

instance (e : TcpEngine) (a : Action) : Decidable (e.OpensStale a) :=
  inferInstanceAs (Decidable (_ ∧ _ ∧ _))

instance (e : TcpEngine) (a : Action) : Decidable (e.Meets a) :=
  inferInstanceAs (Decidable (_ ∧ _))

theorem Governed.step (h : e.Governed) (hm : e.Meets a) (hs : engineMachine.step e a = some e') :
    e'.Governed := by
  obtain ⟨hstale, hroom⟩ := hm
  obtain ⟨conf, psh, hb, -⟩ := begin_eq (e := e) a
  have hspan : (e.begin a).Spanned := by
    rw [hb]
    refine ⟨h.spanned.una, h.spanned.nxt, h.spanned.fin, fun hf => ?_, h.spanned.opening⟩
    have hn : e.buffered a = [] := buffered_nil h.ready.coherent hf
    simp [hn, h.spanned.empty hf]
  have hroomy : (e.begin a).Roomy := by
    have hout : (e.begin a).Outside ↔ e.Outside := by rw [Outside, Outside, begin_tcb]
    have hlog : (e.begin a).backlog = e.backlog + (e.buffered a).length := by
      simp only [backlog, span, hout, begin_tcb, begin_fin]
      rw [hb]
      simp only [List.length_append]
      omega
    rw [Roomy, hlog]
    exact hroom
  have hunstale : Unstale a (e.begin a).ctl := by
    rw [begin_ctl]
    intro ho hc
    by_contra hp
    exact hstale ⟨hc, ho, by simpa [ctl] using hp⟩
  have hend := (h.ready.path hs).preserves
    (P := fun f => (Coherent f.ctl ∧ f.Spanned ∧ f.Roomy) ∧
      (FinAck f ∧ PeerOk f.ctl ∧ Unstale a f.ctl))
    (fun f f' hm hx => ?_)
    ⟨⟨by rw [begin_ctl]; exact h.ready.coherent, hspan, hroomy⟩, ?_,
      by rw [begin_ctl]; exact h.peer, hunstale⟩
  · obtain ⟨⟨-, hsp, -⟩, hf, hp, -⟩ := hend
    refine ⟨h.ready.step hs, hsp, hp, h.ready.settled h.settled hs, hf, fun s s' hev => ?_⟩
    obtain ⟨evs, hl, hall⟩ := h.ready.arcs hs
    rw [hl, begin_log] at hev
    rcases List.mem_append.mp hev with hev | hev
    · exact h.arcs s s' hev
    · exact hall _ hev s s' rfl
  · obtain ⟨⟨hc, hsp, hr⟩, hf, hp, hu⟩ := hx
    obtain ⟨hsp', hle⟩ := hsp.move hm hc hr
    refine ⟨⟨hc.move hm, hsp', lt_of_le_of_lt hle (max_lt hr (by decide))⟩, ?_, ?_, ?_⟩
    · exact hf.move hm hc (hsp.finNear hr hc)
    · exact hp.control hm.control fun hcl ho => hu ho hcl
    · exact hu.control hm.control
  · exact h.finAck.same (by simp) (by simp) (by simp) (by simp)

/-! ## Agreement -/

/-- The state agrees with the diagram and with the close bookkeeping. -/
structure Agrees (e : TcpEngine) : Prop where
  arcs : ∀ s s', Event.stateChange s s' ∈ e.env.log → (s, s') ∈ fsmArcs ∨ s' = .closed
  opening : e.tcb.state ∈ [.listen, .synSent, .synReceived, .established] →
    e.fin.finSent = false ∧ e.fin.peerFin = false
  finWait1 : e.tcb.state = .finWait1 →
    e.fin.finSent = true ∧ e.fin.finAcked = false ∧ e.fin.peerFin = false
  finWait2 : e.tcb.state = .finWait2 →
    e.fin.finSent = true ∧ e.fin.finAcked = true ∧ e.fin.peerFin = false
  closeWait : e.tcb.state = .closeWait → e.fin.finSent = false ∧ e.fin.peerFin = true
  closing : e.tcb.state ∈ [.closing, .lastAck] →
    e.fin.finSent = true ∧ e.fin.finAcked = false ∧ e.fin.peerFin = true
  timeWait : e.tcb.state = .timeWait →
    e.fin.finSent = true ∧ e.fin.finAcked = true ∧ e.fin.peerFin = true
  acked : e.fin.finAcked = true ↔ e.fin.finSent = true ∧ e.tcb.sndUna = add e.fin.finSeq 1
  empty : e.tcb.state ∈ FinStates → e.buf.appBuf = []

theorem Governed.agrees (h : e.Governed) : e.Agrees := by
  have hc := h.ready.coherent
  have hsent (hs : e.tcb.state ∈ FinStates) : e.fin.finSent = true := hc.sent.mpr hs
  have hunsent (hs : e.tcb.state ∉ FinStates) : e.fin.finSent = false := unsent_of_state hc hs
  refine ⟨h.arcs, fun hs => ⟨hunsent ?_, h.peer.pending ?_⟩, fun hs => ⟨hsent ?_, ?_, ?_⟩,
    fun hs => ⟨hsent ?_, ?_, ?_⟩, fun hs => ⟨hunsent ?_, h.peer.consumed ?_⟩,
    fun hs => ⟨hsent ?_, ?_, ?_⟩, fun hs => ⟨hsent ?_, ?_, ?_⟩, h.finAck, fun hs => ?_⟩
  · intro hm
    simp only [List.mem_cons, List.not_mem_nil, or_false] at hs
    rcases hs with hs | hs | hs | hs <;> simp [hs] at hm
  · simp only [List.mem_cons, List.not_mem_nil, or_false] at hs
    rcases hs with hs | hs | hs | hs <;> simp [ctl, hs]
  · simp [hs]
  · exact h.settled (by simp [ctl, hs])
  · exact h.peer.pending (by simp [ctl, hs])
  · simp [hs]
  · exact hc.complete (by simp [ctl, hs])
  · exact h.peer.pending (by simp [ctl, hs])
  · simp [hs]
  · simp [ctl, hs]
  · rcases List.mem_pair.mp hs with hs | hs <;> simp [hs]
  · apply h.settled
    rcases List.mem_pair.mp hs with hs | hs <;> simp [ctl, hs]
  · apply h.peer.consumed
    rcases List.mem_pair.mp hs with hs | hs <;> simp [ctl, hs]
  · simp [hs]
  · exact hc.complete (by simp [ctl, hs])
  · exact h.peer.consumed (by simp [ctl, hs])
  · exact h.spanned.empty (hsent hs)

/-- The flag of an earlier connection is still set in the one that is opened. -/
theorem OpensStale.breaks (h : e.OpensStale a) (hs : engineMachine.step e a = some e') :
    ¬ e'.Agrees := by
  obtain ⟨hc, ho, hp⟩ := h
  have hdial {f : TcpEngine} (hf : f.tcb.state = .closed) (hpf : f.fin.peerFin = true) :
      ¬ f.activeOpen.Agrees := by
    rw [activeOpen_eq (Or.inl hf), connect_eq (Or.inl hf)]
    intro hx
    have := (hx.opening (by simp [dialled])).2
    simp [dialled, hpf] at this
  have hlisten {f : TcpEngine} (hf : f.tcb.state = .closed) (hpf : f.fin.peerFin = true) :
      ¬ f.passiveOpen.Agrees := by
    rw [passiveOpen_eq hf]
    intro hx
    have := (hx.opening (by simp [startListening])).2
    simp [startListening, hpf] at this
  simp only [engineMachine] at hs
  split_ifs at hs
  obtain rfl := Option.some.inj hs
  have he : e.enter.tcb.state = .closed := hc
  have hpe : e.enter.fin.peerFin = true := hp
  cases a with
  | activeOpen => exact hdial he hpe
  | passiveOpen => exact hlisten he hpe
  | openCall active r l t =>
    have hset : ((e.enter.setPorts r l).setUserTimeout t).tcb.state = .closed ∧
        ((e.enter.setPorts r l).setUserTimeout t).fin.peerFin = true := by
      cases t <;> exact ⟨he, hpe⟩
    cases active with
    | true => exact hdial hset.1 hset.2
    | false => exact hlisten hset.1 hset.2
  | _ => cases ho

end TcpEngine

open TcpEngine in
/-- The state agrees with the bookkeeping in every run that opens no connection with
the flag of an earlier one and never fills the sequence space; where it does agree
throughout, no such open has been made. -/
theorem state_agrees (args : EngineArgs) (sched : ManualScheduler Callback) (rand : Nat)
    (as : List Action) (e : TcpEngine) (hr : engineMachine.run (init args sched rand) as = some e) :
    (engineMachine.AllSteps Meets (init args sched rand) as →
      engineMachine.Throughout Agrees (init args sched rand) as) ∧
    (engineMachine.Throughout Agrees (init args sched rand) as →
      engineMachine.AllSteps (fun f a => ¬ f.OpensStale a) (init args sched rand) as) := by
  constructor
  · intro hC
    have hpres : engineMachine.Preserves Meets Governed := fun _ _ _ h hm hs => h.step hm hs
    exact (hpres.throughout (governed_init args sched rand) hC).mono fun _ h => h.agrees
  · intro hT
    refine hT.allSteps (I := fun _ => True) (fun _ _ _ _ _ _ => trivial) ?_ trivial hr
    exact fun _ _ _ _ hx hs => (not_not.mp hx).breaks hs

/-- The peer closes, the user aborts and dials again. -/
def redialRun : List Action :=
  [.activeOpen, .segment [0, 80, 3, 232, 0, 0, 3, 232, 0, 0, 0, 101, 80, 18, 255, 255, 0, 0, 0, 0],
    .segment [0, 80, 3, 232, 0, 0, 3, 233, 0, 0, 0, 101, 80, 17, 255, 255, 0, 0, 0, 0], .abort,
    .activeOpen]

def redialStart : TcpEngine :=
  .init { localPort := 1000, remotePort := 80, iss := some 100 } {} 0

theorem redial_keeps_peer_fin : ∃ e, engineMachine.run redialStart redialRun = some e ∧
    e.tcb.state = .synSent ∧ e.fin.peerFin = true ∧ ¬ e.Agrees := by
  have h : ((engineMachine.run redialStart redialRun).map
      fun e => (e.tcb.state, e.fin.peerFin)) = some (.synSent, true) := by
    decide +kernel
  obtain ⟨e, he, hv⟩ := Option.map_eq_some_iff.mp h
  simp only [Prod.mk.injEq] at hv
  obtain ⟨hs, hp⟩ := hv
  refine ⟨e, he, hs, hp, fun hx => ?_⟩
  have := (hx.opening (by simp [hs])).2
  rw [hp] at this
  cases this

/-- The user aborts and dials again, and this connection is closed from both ends. -/
def freshRedialRun : List Action :=
  [.activeOpen, .segment [0, 80, 3, 232, 0, 0, 3, 232, 0, 0, 0, 101, 80, 18, 255, 255, 0, 0, 0, 0],
    .abort, .activeOpen,
    .segment [0, 80, 3, 232, 0, 0, 7, 208, 0, 0, 0, 101, 80, 18, 255, 255, 0, 0, 0, 0],
    .send [7] false false none, .close,
    .segment [0, 80, 3, 232, 0, 0, 7, 209, 0, 0, 0, 103, 80, 17, 255, 255, 0, 0, 0, 0]]

open TcpEngine in
/-- The flag is not set when the second connection is opened. -/
theorem fresh_redial_agrees :
    engineMachine.Throughout Agrees redialStart freshRedialRun ∧
    engineMachine.AllSteps (fun f a => ¬ f.OpensStale a) redialStart freshRedialRun ∧
    ∃ e, engineMachine.run redialStart freshRedialRun = some e ∧
      e.tcb.state = .timeWait ∧ e.fin.peerFin = true := by
  have h : ((engineMachine.run redialStart freshRedialRun).map
      fun e => (e.tcb.state, e.fin.peerFin)) = some (.timeWait, true) := by
    decide +kernel
  obtain ⟨e, he, hv⟩ := Option.map_eq_some_iff.mp h
  simp only [Prod.mk.injEq] at hv
  have hagree := state_agrees _ {} 0 freshRedialRun e he
  have hmeets : engineMachine.AllSteps Meets redialStart freshRedialRun := by decide +kernel
  exact ⟨hagree.1 hmeets, hagree.2 (hagree.1 hmeets), e, he, hv⟩

end HdlPlayground.Tcp

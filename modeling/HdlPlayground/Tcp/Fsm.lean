import HdlPlayground.Tcp.Arrivals
import HdlPlayground.Tcp.FinAck

/-!
# The connection state machine

The diagram of the architecture document, and the agreement of the connection
state with the close bookkeeping at the end of every entry point.
-/
namespace HdlPlayground.Tcp

/-- The arcs of the diagram. -/
def fsmArcs : List (ConnState × ConnState) :=
  [(.closed, .synSent), (.closed, .listen), (.listen, .synSent), (.listen, .synReceived),
    (.synSent, .synReceived), (.synSent, .established), (.synReceived, .listen),
    (.synReceived, .established), (.synReceived, .finWait1), (.established, .finWait1),
    (.established, .closeWait), (.finWait1, .finWait2), (.finWait1, .closing),
    (.finWait1, .timeWait), (.finWait2, .timeWait), (.closing, .timeWait), (.closeWait, .lastAck),
    (.lastAck, .closed), (.timeWait, .timeWait), (.timeWait, .closed)]

namespace TcpEngine

variable {a : Action} {e e' : TcpEngine} {w : List UInt8} {k : Nat}

/-! ## Arcs -/

theorem Control.arc {c c' : Ctl} (h : Control a c c') (hne : c.1 ≠ c'.1) :
    (c.1, c'.1) ∈ fsmArcs ∨ c'.1 = .closed := by
  cases h with
  | close => exact Or.inr rfl
  | connect s f hs _ =>
    apply Or.inl
    dsimp only at hne ⊢
    rcases hs with ⟨rfl, -⟩ | rfl
    · decide
    · decide
  | sendFin s s' f n _ _ hs =>
    apply Or.inl
    dsimp only at hne ⊢
    rcases hs with ⟨rfl, rfl⟩ | ⟨rfl, rfl⟩ | ⟨rfl, rfl⟩ | ⟨-, rfl⟩
    · decide
    · decide
    · decide
    · exact absurd rfl hne
  | processFin s s' f _ hs =>
    apply Or.inl
    dsimp only at hne ⊢
    rcases hs with ⟨rfl, rfl⟩ | ⟨rfl, rfl⟩ | ⟨rfl, rfl⟩ | ⟨-, rfl⟩
    · decide
    · decide
    · decide
    · exact absurd rfl hne
  | _ => first | exact absurd rfl hne | exact Or.inl (by dsimp only; decide)

/-- Every state change an entry point reports is an arc, or a move to CLOSED. -/
theorem Ready.arcs (hr : e.Ready) (h : engineMachine.step e a = some e') :
    Logs (fun ev => ∀ s s', ev = .stateChange s s' → (s, s') ∈ fsmArcs ∨ s' = .closed)
      (e.begin a) e' := by
  obtain ⟨evs, hl, hall⟩ := (hr.path h).logs (P := fun _ => True) (fun _ _ _ _ => trivial) trivial
  refine ⟨evs, hl, fun ev hev s s' hs => ?_⟩
  subst hs
  obtain ⟨f, f', -, hm, -, -, ⟨data, hd⟩ | hem⟩ := hall _ hev
  · cases hd
  · cases hem with
    | change hne => exact hm.control.arc hne

/-! ## The peer's FIN -/

/-- The flag `peer_fin` is the one the state says. -/
structure PeerOk (c : Ctl) : Prop where
  pending : c.1 ∈ [.listen, .synSent, .synReceived, .established, .finWait1, .finWait2] →
    c.2.peerFin = false
  consumed : c.1 ∈ [.closeWait, .closing, .lastAck, .timeWait] → c.2.peerFin = true

theorem PeerOk.control {c c' : Ctl} (h : Control a c c') (hp : PeerOk c)
    (hopen : c.1 = .closed → a.Opens → c.2.peerFin = false) : PeerOk c' := by
  obtain ⟨h1, h2⟩ := hp
  cases h with
  | connect s f hs _ =>
    refine ⟨fun _ => ?_, by simp⟩
    rcases hs with ⟨rfl, ho⟩ | rfl
    · exact hopen rfl ho
    · exact h1 (by simp)
  | listen f ho => exact ⟨fun _ => hopen rfl ho, by simp⟩
  | sendFin s s' f n _ _ hs =>
    rcases hs with ⟨rfl, rfl⟩ | ⟨rfl, rfl⟩ | ⟨rfl, rfl⟩ | ⟨-, rfl⟩
    · exact ⟨fun _ => h1 (by simp), by simp⟩
    · exact ⟨by simp, fun _ => h2 (by simp)⟩
    · exact ⟨fun _ => h1 (by simp), by simp⟩
    · exact ⟨h1, h2⟩
  | acceptSyn f _ => exact ⟨fun _ => h1 (by simp), by simp⟩
  | synEstablished f b => exact ⟨fun _ => h1 (by simp), by simp⟩
  | synReceived f b => exact ⟨fun _ => h1 (by simp), by simp⟩
  | completeOpen f b => exact ⟨fun _ => h1 (by simp), by simp⟩
  | finAckedWait f _ => exact ⟨fun _ => h1 (by simp), by simp⟩
  | finAckedTimeWait f _ => exact ⟨by simp, fun _ => h2 (by simp)⟩
  | processFin s s' f hs hst =>
    rcases hst with ⟨rfl, rfl⟩ | ⟨rfl, rfl⟩ | ⟨rfl, rfl⟩ | ⟨hn, rfl⟩
    · exact ⟨by simp, fun _ => rfl⟩
    · exact ⟨by simp, fun _ => rfl⟩
    · exact ⟨by simp, fun _ => rfl⟩
    · refine ⟨fun hm => ?_, fun _ => rfl⟩
      exfalso
      simp only [List.mem_cons, List.not_mem_nil, or_false, not_or] at hs hm hn
      rcases hs with rfl | rfl | rfl | rfl | rfl | rfl <;> simp at hm hn
  | listenAgain f _ => exact ⟨fun _ => h1 (by simp), by simp⟩
  | close => exact ⟨by simp, by simp⟩
  | _ => exact ⟨h1, h2⟩

/-- The user opens a connection while the flag of an earlier one is still set. -/
def OpensStale (e : TcpEngine) (a : Action) : Prop :=
  e.tcb.state = .closed ∧ a.Opens ∧ e.fin.peerFin = true

/-! ## Acknowledged FINs are acted on -/

/-- No state waits for an acknowledgement that has arrived. -/
def Settled (c : Ctl) : Prop := c.1 ∈ [.finWait1, .closing, .lastAck] → c.2.finAcked = false

theorem Settled.control {c c' : Ctl} (h : Control a c c') (hc : Coherent c) (hs : Settled c)
    (hn : ¬ ∃ seg, a.Carries seg) : Settled c' := by
  cases h with
  | processAck s f b hx => exact absurd hx hn
  | sendFin s s' f n _ hf hst =>
    intro _
    cases ha : f.finAcked with
    | false => rfl
    | true =>
      have : f.finSent = true := hc.acked ha
      rw [hf] at this
      cases this
  | processFin s s' f _ hst =>
    intro hm
    rcases hst with ⟨rfl, rfl⟩ | ⟨rfl, rfl⟩ | ⟨rfl, rfl⟩ | ⟨-, rfl⟩
    · simp at hm
    · exact hs (by simp)
    · simp at hm
    · exact hs hm
  | stay => exact hs
  | requestFin s f _ => exact hs
  | deferFin s f n => exact hs
  | _ =>
    intro hm
    simp at hm

theorem settled_of_unacked (h : e.fin.finAcked = false) : Settled e.ctl := fun _ => h

theorem settled_of_state (h : e.tcb.state ∉ [.finWait1, .closing, .lastAck]) : Settled e.ctl :=
  fun hm => absurd hm h

/-- A FIN counts as acknowledged only after it was sent, and the state shows that. -/
structure FinSane (e : TcpEngine) : Prop where
  acked : e.fin.finAcked = true → e.fin.finSent = true
  sent : e.fin.finSent = true → e.tcb.state ∈ FinStates

theorem Coherent.finSane (hc : Coherent e.ctl) : FinSane e :=
  ⟨fun h => hc.acked h, fun h => hc.sent.mp h⟩

theorem finSane_of_unacked (h1 : e.fin.finSent = false) (h2 : e.fin.finAcked = false) :
    FinSane e := by
  constructor
  · intro hx
    rw [h2] at hx
    cases hx
  · intro hx
    rw [h1] at hx
    cases hx

theorem FinSane.of_ctl (h : FinSane e) (hc : e'.ctl = e.ctl) : FinSane e' := by
  simp only [ctl, Prod.mk.injEq] at hc
  exact ⟨by rw [hc.2]; exact h.acked, by rw [hc.1, hc.2]; exact h.sent⟩

theorem FinSane.unacked (h : FinSane e) (hs : e.tcb.state ∉ FinStates) :
    e.fin.finSent = false ∧ e.fin.finAcked = false := by
  have hf : e.fin.finSent = false := by
    cases hx : e.fin.finSent with
    | false => rfl
    | true => exact absurd (h.sent hx) hs
  refine ⟨hf, ?_⟩
  cases hx : e.fin.finAcked with
  | false => rfl
  | true =>
    have := h.acked hx
    rw [hf] at this
    cases this

theorem FinSane.sendPending (h : FinSane e) : FinSane e.sendPending := by
  obtain ⟨hs, hf⟩ | ⟨hs, s, hf⟩ := sendPending_state (e := e)
  · exact h.of_ctl (by rw [ctl, hs, hf]; rfl)
  · refine ⟨fun _ => by rw [hf], fun _ => ?_⟩
    rcases hs with ⟨-, hs⟩ | ⟨-, hs⟩ <;> simp [hs]

theorem sendPending_settled (ha : FinSane e) (h : Settled e.ctl) : Settled e.sendPending.ctl := by
  obtain ⟨hs, hf⟩ | ⟨hs, s, hf⟩ := sendPending_state (e := e)
  · rw [ctl, hs, hf]
    exact h
  · apply settled_of_unacked
    rw [hf]
    refine (ha.unacked ?_).2
    rcases hs with ⟨hs | hs, -⟩ | ⟨hs, -⟩ <;> simp [hs]

theorem processFin_settled (h : Settled e.ctl) : Settled e.processFin.ctl := by
  obtain ⟨st, hst, hf⟩ | ⟨-, hf⟩ := processFin_cases (e := e)
  · have hfin : e.processFin.fin.finAcked = e.fin.finAcked := by rw [hf]; simp
    have hstate : e.processFin.tcb.state = st := by rw [hf]; simp
    rcases hst with ⟨-, rfl⟩ | ⟨hs, -⟩ | ⟨-, rfl⟩
    · exact settled_of_state (by simp [hstate])
    · exact settled_of_unacked (hfin.trans (h (by simp [ctl, hs])))
    · intro hm
      rw [ctl, hstate] at hm
      exact hfin.trans (h hm)
  · exact settled_of_state (by simp [hf])

theorem finCheck_settled (seg : TcpSegment) (h : Settled e.ctl) :
    Settled (e.finCheck seg).checkPendingFin.ctl := by
  have hcheck {f : TcpEngine} (hf : Settled f.ctl) : Settled f.checkPendingFin.ctl := by
    unfold checkPendingFin
    split
    · exact processFin_settled hf
    · exact hf
  apply hcheck
  unfold finCheck
  dsimp only
  split_ifs
  · exact processFin_settled h
  · exact h
  · exact h
  · exact h

theorem textAndFin_settled (seg : TcpSegment) (ha : FinSane e) (h : Settled e.ctl) :
    Settled (e.textAndFin seg).ctl := by
  unfold textAndFin
  dsimp only
  have hctl : (if seg.payload ≠ [] ∧ e.tcb.state ∈ DataStates then e.recvData seg else e).ctl =
      e.ctl := by
    split
    · exact (recvData_frame e seg).ctl
    · rfl
  generalize (if seg.payload ≠ [] ∧ e.tcb.state ∈ DataStates then e.recvData seg else e) = f at hctl
  exact finCheck_settled seg (sendPending_settled (ha.of_ctl hctl) (by rw [hctl]; exact h))

theorem synReceivedAck_settled (seg : TcpSegment) (hc : FinSane e)
    (hs : e.tcb.state = .synReceived) : Settled (e.synReceivedAck seg).ctl := by
  obtain ⟨hf, hna⟩ := hc.unacked (by simp [hs])
  unfold synReceivedAck
  dsimp only
  split
  · have h1 : (((e.processAck seg.ack).setSendWindow seg.window seg.seq seg.ack).setState
        .established).mergeReassembly.fin.finSent = false ∧
        (((e.processAck seg.ack).setSendWindow seg.window seg.seq seg.ack).setState
        .established).mergeReassembly.fin.finAcked = false := by
      rw [(mergeReassembly_frame _).fin]
      simp [hf, hna]
    generalize (((e.processAck seg.ack).setSendWindow seg.window seg.seq seg.ack).setState
      .established).mergeReassembly = f at h1
    have hsane := finSane_of_unacked h1.1 h1.2
    exact textAndFin_settled seg hsane.sendPending
      (sendPending_settled hsane (settled_of_unacked h1.2))
  · exact settled_of_unacked (by simp [hna])

theorem FinSane.windowUpdate (seg : TcpSegment) (h : FinSane e) : FinSane (e.windowUpdate seg) := by
  unfold TcpEngine.windowUpdate
  dsimp only
  split
  · split
    · have h1 : FinSane (e.setSendWindow seg.window seg.seq seg.ack).dropPersistTimer :=
        h.of_ctl rfl
      exact h1.sendPending
    · exact h.of_ctl rfl
  · exact h

theorem FinSane.processAck (ack : Int) (h : FinSane e) : FinSane (e.processAck ack) := by
  refine ⟨fun hx => ?_, fun hx => ?_⟩
  · simp only [processAck_fin, Bool.or_eq_true, Bool.and_eq_true] at hx ⊢
    exact hx.elim h.acked And.left
  · have hx' : e.fin.finSent = true := by simpa using hx
    simpa using h.sent hx'

/-- The one place where the flag is set looks at it at once. -/
theorem establishedAck_settled (seg : TcpSegment) (hc : FinSane e) (h : Settled e.ctl)
    (hs : e.tcb.state ∈ OpenStates) : Settled (e.establishedAck seg).ctl := by
  unfold establishedAck
  dsimp only
  split
  · simpa [ctl] using h
  have hf1 : FinSane (if seqGt seg.ack e.tcb.sndUna then e.processAck seg.ack else e) := by
    split
    · exact hc.processAck seg.ack
    · exact hc
  have hs1 : (if seqGt seg.ack e.tcb.sndUna then e.processAck seg.ack else e).tcb.state ∈
      OpenStates := by
    split
    · simpa using hs
    · exact hs
  generalize (if seqGt seg.ack e.tcb.sndUna then e.processAck seg.ack else e) = f at hf1 hs1
  have ha := hf1.windowUpdate seg
  have hs2 := windowUpdate_open seg hs1
  generalize f.windowUpdate seg = g at ha hs2
  split
  · next h1 =>
    refine textAndFin_settled seg ⟨fun hx => ?_, fun _ => by simp⟩ (settled_of_state (by simp))
    have hx' : g.fin.finAcked = true := by simpa using hx
    simpa using ha.acked hx'
  next h1 =>
  split
  · next hcl =>
    apply settled_of_state
    rw [enterTimeWait_eq (by simp [CanSend, hcl.1])]
    simp
  next h2 =>
  split
  · exact settled_of_state (by simp)
  next h3 =>
  refine textAndFin_settled seg ha fun hm => ?_
  cases hx : g.fin.finAcked with
  | false => exact hx
  | true =>
    exfalso
    simp only [ctl, List.mem_cons, List.not_mem_nil, or_false] at hm
    rcases hm with hm | hm | hm
    · exact h1 ⟨hm, hx⟩
    · exact h2 ⟨hm, hx⟩
    · exact h3 ⟨hm, hx⟩

theorem handleSynchronized_settled (seg : TcpSegment) (hc : FinSane e) (h : Settled e.ctl)
    (hs : e.tcb.state ∈ .timeWait :: .synReceived :: OpenStates) :
    Settled (e.handleSynchronized seg).ctl := by
  unfold handleSynchronized
  split_ifs with htw hacc hr hr hq hsyn hack hsr
  · unfold timeWaitArrives
    split_ifs
    · exact settled_of_state (by simp)
    · simpa [ctl] using h
    · exact settled_of_state (by simp [restartTimeWait, htw])
    · simpa [ctl] using h
  · exact h
  · simpa [ctl] using h
  · by_cases hl : e.tcb.state = .synReceived ∧ e.fin.passive = true
    · apply settled_of_state
      rw [doReset_listen hl.1 hl.2]
      simp [restorePort]
    · obtain ⟨msg, -, hx⟩ := doReset_close hl
      exact settled_of_state (by simp [hx])
  · simpa [ctl] using h
  · simpa [ctl] using h
  · exact h
  · exact synReceivedAck_settled seg hc hsr
  · apply establishedAck_settled seg hc h
    rw [List.mem_cons, List.mem_cons] at hs
    exact (hs.resolve_left htw).resolve_left hsr

theorem handleSynSent_settled (seg : TcpSegment) (hc : FinSane e) (hs : e.tcb.state = .synSent) :
    Settled (e.handleSynSent seg).ctl := by
  obtain ⟨hf, hna⟩ := hc.unacked (by simp [hs])
  have htake : (e.takeSyn seg).fin.finSent = false ∧ (e.takeSyn seg).fin.finAcked = false := by
    obtain ⟨b, hb⟩ := takeSyn_fin (e := e) seg
    rw [hb]
    simp [hf, hna]
  unfold handleSynSent
  dsimp only
  split_ifs
  · exact settled_of_unacked hna
  · exact settled_of_unacked (by simpa using hna)
  · exact settled_of_state (by simp)
  · exact settled_of_unacked hna
  · exact settled_of_unacked hna
  · unfold synSentEstablished
    dsimp only
    have hf1 : ((e.takeSyn seg).setState .established).sendAck.fin.finSent = false ∧
        ((e.takeSyn seg).setState .established).sendAck.fin.finAcked = false := by
      simpa using htake
    have hs1 : ((e.takeSyn seg).setState .established).sendAck.tcb.state ∈ OpenStates := by simp
    generalize ((e.takeSyn seg).setState .established).sendAck = f at hf1 hs1
    have hsane := finSane_of_unacked hf1.1 hf1.2
    have hset := sendPending_settled hsane (settled_of_unacked hf1.2)
    split
    · exact handleSynchronized_settled _ hsane.sendPending hset
        (List.mem_cons_of_mem _ (List.mem_cons_of_mem _ (sendPending_open hs1)))
    · exact hset
  · apply settled_of_unacked
    unfold simultaneousOpen
    dsimp only
    have h1 : (if seg.payload ≠ [] then (e.takeSyn seg).becomeSynReceived.storeOoo (add seg.seq 1)
        seg.payload { seg.flags with fin := false }
        else (e.takeSyn seg).becomeSynReceived).fin.finAcked = false := by
      have h0 : (e.takeSyn seg).becomeSynReceived.fin.finAcked = false := by
        simpa [becomeSynReceived] using htake.2
      split
      · rw [(storeOoo_frame _ _ _ _).fin, h0]
      · exact h0
    generalize (if seg.payload ≠ [] then (e.takeSyn seg).becomeSynReceived.storeOoo (add seg.seq 1)
      seg.payload { seg.flags with fin := false } else (e.takeSyn seg).becomeSynReceived) = f at h1
    split
    · simpa [sendSynAck, deferFin] using h1
    · simpa [sendSynAck] using h1

theorem handle_settled (seg : TcpSegment) (hc : Coherent e.ctl) (h : Settled e.ctl) :
    Settled (e.handle seg).ctl := by
  rcases e.state_cases with hs | hs | hs | hs
  · rw [handle_closed seg hs]
    unfold handleClosed
    split_ifs
    · exact h
    · simpa [ctl] using h
    · simpa [ctl] using h
  · rw [handle_listen seg hs]
    unfold handleListen
    split_ifs
    · exact h
    · simpa [ctl] using h
    · exact h
    · exact h
    · obtain ⟨m, -, -, hm⟩ := acceptSyn_eq (e := e) seg hs
      rw [hm]
      exact settled_of_state (by simp [listenTaken, listenTcb])
  · rw [handle_synSent seg hs]
    exact handleSynSent_settled seg hc.finSane hs
  · rw [handle_synchronized seg hs]
    exact handleSynchronized_settled seg hc.finSane h hs

theorem onSegment_settled (data : List UInt8) (hc : Coherent e.ctl) (h : Settled e.ctl) :
    Settled (e.onSegment data).ctl := by
  cases hp : TcpSegment.parse data with
  | error msg =>
    rw [onSegment, hp]
    exact h
  | ok seg =>
    by_cases haddr : e.Addressed seg
    · rw [onSegment_handle hp haddr]
      refine handle_settled seg ?_ ?_
      · rw [heard_ctl]
        exact hc
      · rw [heard_ctl]
        exact h
    · rw [onSegment_ignored hp haddr]
      exact h

/-- No entry point leaves an acknowledged FIN unnoticed. -/
theorem Ready.settled (hr : e.Ready) (hs : Settled e.ctl) (h : engineMachine.step e a = some e') :
    Settled e'.ctl := by
  by_cases hx : ∃ seg, a.Carries seg
  · obtain ⟨seg, data, s, rfl, -, -⟩ := hx
    simp only [engineMachine] at h
    split_ifs at h
    obtain rfl := Option.some.inj h
    exact onSegment_settled data hr.coherent hs
  · have hend := (hr.path h).preserves (P := fun f => Coherent f.ctl ∧ Settled f.ctl)
      (fun _ _ hm hf => ⟨hf.1.move hm, hf.2.control hm.control hf.1 hx⟩)
      ⟨by rw [begin_ctl]; exact hr.coherent, by rw [begin_ctl]; exact hs⟩
    exact hend.2

end TcpEngine

end HdlPlayground.Tcp

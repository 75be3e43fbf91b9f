import HdlPlayground.Tcp.CloseTimers
import HdlPlayground.Tcp.Resets
import HdlPlayground.Tcp.Timeouts

/-!
# A peer that keeps its window closed

The peer answers every probe and every retransmission, but acknowledges nothing new and
keeps its window closed. The answers leave `_rto_count` where it is: each probe byte joins
the retransmission queue, each expiry of the retransmission timer counts, and the
expiry after the last one allowed gives up a peer that has answered all of them.
-/
namespace HdlPlayground.Tcp

namespace TcpEngine

open EngineTimers

variable {a : Action} {e e' f g : TcpEngine} {u m : Int} {n : Nat}

/-! ## No entry of the queue is a reset -/

def Resetless (q : List Outgoing) : Prop := ∀ o ∈ q, o.flags.rst = false

theorem Resetless.append {q : List Outgoing} (h : Resetless q) {o : Outgoing}
    (ho : o.flags.rst = false) : Resetless (q ++ [o]) := by
  intro x hx
  rcases List.mem_append.mp hx with hx | hx
  · exact h x hx
  · rw [List.mem_singleton.mp hx]
    exact ho

theorem cut_rst (ack : Int) (o : Outgoing) : (o.cut ack).flags.rst = o.flags.rst := by
  unfold Outgoing.cut
  dsimp only
  split_ifs <;> rfl

theorem Resetless.trim {q : List Outgoing} (h : Resetless q) (ack : Int) :
    Resetless (trimRetx ack q) := by
  induction q with
  | nil => exact h
  | cons o q ih =>
    have htail : Resetless q := fun x hx => h x (List.mem_cons_of_mem o hx)
    unfold trimRetx
    split_ifs
    · exact ih htail
    · intro x hx
      rcases List.mem_cons.mp hx with rfl | hx
      · rw [cut_rst]
        exact h o List.mem_cons_self
      · exact htail x hx
    · exact h

theorem Resetless.ackHead {q : List Outgoing} (h : Resetless q) : Resetless (ackHeadSyn q) := by
  cases q with
  | nil => exact h
  | cons o q =>
    simp only [ackHeadSyn]
    split
    · intro x hx
      rcases List.mem_cons.mp hx with rfl | hx
      · exact h o List.mem_cons_self
      · exact h x (List.mem_cons_of_mem o hx)
    · exact h

theorem Resetless.nil : Resetless [] := fun _ hx => absurd hx List.not_mem_nil

theorem takeSyn_resetless (seg : TcpSegment) (h : Resetless e.buf.retx) :
    Resetless (e.takeSyn seg).buf.retx := by
  obtain ⟨m, -, -, hm⟩ := takeSyn_cases (e := e) seg
  rw [hm]
  dsimp only
  split
  · simpa [setSendWindow] using h.trim seg.ack
  · exact h

theorem Resetless.move (hm : Move a e f) (h : Resetless e.buf.retx) : Resetless f.buf.retx := by
  cases hm with
  | connect ho _ =>
    rw [connect_eq (ho.imp And.left id), queueAndSend_buf]
    exact h.append rfl
  | acceptSyn seg _ hs =>
    obtain ⟨m, -, -, hm⟩ := acceptSyn_eq (e := e) seg hs
    rw [hm, queueAndSend_buf]
    exact h.append rfl
  | retransmit g o rest _ _ hq =>
    rw [retransmitHead_buf]
    intro x hx
    rcases List.mem_cons.mp hx with rfl | hx
    · exact h o (by simp [hq])
    · exact h x (by simp [hq, hx])
  | sendChunk =>
    rw [sendChunk_buf]
    simpa [queueChunk] using h.append (o := (e.takeChunk e.chunkLen).outgoing _ _) rfl
  | sendFin =>
    rw [sendFin_buf]
    exact h.append rfl
  | probe g =>
    rw [rearmPersist_buf, TcpEngine.sendProbe, queueAndSend_buf]
    refine Resetless.append ?_ rfl
    simpa using h
  | probeFin g =>
    rw [rearmPersist_buf, sendFin_buf, fire_buf]
    exact h.append rfl
  | startListening => simpa [TcpEngine.startListening] using h
  | sendSynAck => simpa [TcpEngine.sendSynAck] using h
  | processAck seg =>
    rw [processAck_buf]
    exact h.trim seg.ack
  | synEstablished seg =>
    rw [setState_buf]
    exact takeSyn_resetless seg h
  | synReceived seg =>
    simpa [becomeSynReceived] using (takeSyn_resetless seg h).ackHead
  | completeOpen seg =>
    simpa [openCompleted, setSendWindow] using h.trim seg.ack
  | listenAgain hs hp =>
    rw [doReset_listen hs hp]
    exact .nil
  | close => simpa using Resetless.nil
  | abort => simpa using Resetless.nil
  | giveUp => simpa using Resetless.nil
  | giveUpRto => simpa using Resetless.nil
  | timeWaitExpires => simpa using Resetless.nil
  | storeSynData => rw [(storeOoo_frame _ _ _ _).retx]; exact h
  | storeOoo => rw [(storeOoo_frame _ _ _ _).retx]; exact h
  | receive _ hr => rw [hr.frame.retx]; exact h
  | finAckedTimeWait hs =>
    rw [enterTimeWait_eq (by simp [CanSend, hs])]
    simpa using h
  | processFin =>
    obtain ⟨st, -, hf⟩ | ⟨-, hf⟩ := processFin_cases (e := e)
    · simpa [hf] using h
    · simpa [hf] using h
  | _ => first | exact h | simpa using h

/-! ## Held at the closed window -/

/-- The states between the handshake and the acknowledgement of our FIN. -/
abbrev HeldStates : List ConnState := [.established, .finWait1, .closeWait, .closing, .lastAck]

/-- The window is closed, nothing past `u` is acknowledged, and `n` of `m` expiries are
counted. -/
structure Held (u m : Int) (n : Nat) (e : TcpEngine) : Prop where
  state : e.tcb.state ∈ HeldStates
  window : e.tcb.sndWnd = 0
  una : e.tcb.sndUna = u
  unacked : e.fin.finAcked = false
  limit : e.conf.cfg.maxRetransmits = m
  count : e.tm.rtoCount = n

theorem Held.same (h : Held u m n e) (hs : f.tcb.state = e.tcb.state)
    (hw : f.tcb.sndWnd = e.tcb.sndWnd) (hu : f.tcb.sndUna = e.tcb.sndUna)
    (ha : f.fin.finAcked = e.fin.finAcked)
    (hl : f.conf.cfg.maxRetransmits = e.conf.cfg.maxRetransmits)
    (hc : f.tm.rtoCount = e.tm.rtoCount) : Held u m n f :=
  ⟨by rw [hs]; exact h.state, hw.trans h.window, hu.trans h.una, ha.trans h.unacked,
    hl.trans h.limit, hc.trans h.count⟩

theorem Held.received (h : Held u m n e) (hf : RecvFrame e f) (ht : f.tm = e.tm) :
    Held u m n f := by
  obtain ⟨r, up, htcb⟩ := hf.tcb
  exact h.same (by rw [htcb]) (by rw [htcb]) (by rw [htcb]) (by rw [hf.fin]) (by rw [hf.conf])
    (by rw [ht])

theorem Held.ne (h : Held u m n e) {s : ConnState} (hs : s ∉ HeldStates) : e.tcb.state ≠ s :=
  fun hx => hs (hx ▸ h.state)

theorem Held.fire (h : Held u m n e) (g : TimerHandle Callback) : Held u m n (e.fire g) :=
  h.same (by simp) (by simp) (by simp) (by simp) (by simp) (by simp)

theorem Held.enter (h : Held u m n e) : Held u m n e.enter := h.same rfl rfl rfl rfl rfl rfl

theorem Held.sendFin (h : Held u m n e) : Held u m n e.sendFin := by
  obtain ⟨st, ht, hst⟩ := sendFin_tcb (e := e)
  refine ⟨?_, by rw [ht]; exact h.window, by rw [ht]; exact h.una, ?_, ?_, ?_⟩
  · rw [ht]
    rcases hst with ⟨-, rfl⟩ | ⟨-, rfl⟩ | ⟨-, rfl⟩ | ⟨-, rfl⟩
    · simp
    · simp
    · simp
    · exact h.state
  · rw [sendFin_fin]
    exact h.unacked
  · rw [sendFin_conf]
    exact h.limit
  · exact sendFin_rtoCount.trans h.count

theorem Held.processFin (h : Held u m n e) : Held u m n e.processFin := by
  obtain ⟨st, hst, hf⟩ | ⟨hfw, -⟩ := processFin_cases (e := e)
  · rw [hf]
    refine ⟨?_, by simpa using h.window, by simpa using h.una, by simpa using h.unacked,
      by simpa using h.limit, ?_⟩
    · rw [setState_tcb]
      rcases hst with ⟨-, rfl⟩ | ⟨-, rfl⟩ | ⟨-, rfl⟩
      · simp
      · simp
      · exact h.state
    · rw [setState_rtoCount, sendAck_rtoCount]
      simpa using h.count
  · exact absurd hfw (h.ne (by decide))

/-- A move that takes no expiry of the retransmission timer holds the engine where it is,
or closes it. -/
theorem Held.move (hm : Move a e f) (hx : a.TimesOut = false)
    (hq : ∀ seg, a.Carries seg → seg.ack = u ∧ seg.window = 0) (h : Held u m n e) :
    Held u m n f ∨ (f.tcb.state = .closed ∧ a.Closes) := by
  have hrto {g : TimerHandle Callback} (ha : a = .expire g) : g.cb ≠ .onRto := by
    rw [ha] at hx
    simpa [Action.TimesOut] using hx
  cases hm with
  | connect ho _ =>
    rcases ho with ⟨hs, -⟩ | hs
    · exact absurd hs (h.ne (by decide))
    · exact absurd hs (h.ne (by decide))
  | startListening hs => exact absurd hs (h.ne (by decide))
  | restartTimeWait _ _ _ hs => exact absurd hs (h.ne (by decide))
  | sendSynAck hs => exact absurd hs (h.ne (by decide))
  | acceptSyn _ _ hs => exact absurd hs (h.ne (by decide))
  | synEstablished _ _ ht => exact absurd ht.1 (h.ne (by decide))
  | synReceived _ _ ht => exact absurd ht.1 (h.ne (by decide))
  | deferSynFin _ _ hs => exact absurd hs (h.ne (by decide))
  | completeOpen _ _ hc => exact absurd hc.1 (h.ne (by decide))
  | listenAgain hs => exact absurd hs (h.ne (by decide))
  | finAckedWait _ hf => rw [h.unacked] at hf; cases hf
  | finAckedTimeWait _ hf => rw [h.unacked] at hf; cases hf
  | sendChunk _ _ hw => exact absurd h.window hw
  | sendFin _ _ hw => exact absurd h.window hw
  | retransmit g _ _ _ hcb _ ha => exact absurd hcb (hrto ha)
  | giveUpRto g _ _ _ _ hcb _ _ ha => exact absurd hcb (hrto ha)
  | processAck seg hc _ _ hn =>
    -- an answer acknowledges nothing new
    have hself := hn.1
    rw [(hq seg hc).1, h.una, seqGt_self] at hself
    cases hself
  | setSendWindow seg hc =>
    exact Or.inl ⟨h.state, (hq seg hc).2, h.una, h.unacked, h.limit, h.count⟩
  | close hx => exact Or.inr ⟨enterClosed_state, hx⟩
  | abort hx => exact Or.inr ⟨enterClosed_state, hx⟩
  | giveUp msg hx => exact Or.inr ⟨giveUp_state msg, hx⟩
  | timeWaitExpires _ hx => exact Or.inr ⟨enterClosed_state, hx⟩
  | setUserTimeout t => cases t <;> exact Or.inl (h.same rfl rfl rfl rfl rfl rfl)
  | scheduleAck force =>
    exact Or.inl (h.same (by simp) (by simp) (by simp) (by simp) (by simp)
      (scheduleAck_timeouts force).1)
  | sendKeepaliveProbe =>
    exact Or.inl (h.same (by simp [TcpEngine.sendKeepaliveProbe])
      (by simp [TcpEngine.sendKeepaliveProbe]) (by simp [TcpEngine.sendKeepaliveProbe])
      (by simp [TcpEngine.sendKeepaliveProbe]) (by simp [TcpEngine.sendKeepaliveProbe])
      (by simp [TcpEngine.sendKeepaliveProbe]))
  | probe g =>
    refine Or.inl (h.same (by simp [TcpEngine.sendProbe]) (by simp [TcpEngine.sendProbe])
      (by simp [TcpEngine.sendProbe]) (by simp [TcpEngine.sendProbe])
      (by simp [TcpEngine.sendProbe]) ?_)
    show (e.fire g).sendProbe.tm.rtoCount = _
    rw [TcpEngine.sendProbe, queueAndSend_rtoCount]
    exact fire_rtoCount g
  | probeFin g => exact Or.inl ((h.fire g).sendFin.same rfl rfl rfl rfl rfl rfl)
  | processFin => exact Or.inl h.processFin
  | storeSynData seg => exact Or.inl (h.received (storeOoo_frame _ _ _ _) (storeOoo_tm _ _ _))
  | storeOoo seg => exact Or.inl (h.received (storeOoo_frame _ _ _ _) (storeOoo_tm _ _ _))
  | receive _ hr => exact Or.inl (h.received hr.frame hr.tm)
  | _ =>
    exact Or.inl (h.same (by first | rfl | simp) (by first | rfl | simp) (by first | rfl | simp)
      (by first | rfl | simp) (by first | rfl | simp) (by first | rfl | simp))

/-! ## The exchange -/

/-- An acknowledgement of nothing new, in sequence and with the window closed. -/
def AnswersProbe (e : TcpEngine) (seg : TcpSegment) : Prop :=
  e.Addressed seg ∧ seg.rst = false ∧ seg.syn = false ∧ seg.ackFlag = true ∧
    seg.seq = e.tcb.rcvNxt ∧ seg.ack = e.tcb.sndUna ∧ seg.window = 0

instance (e : TcpEngine) (seg : TcpSegment) : Decidable (e.AnswersProbe seg) :=
  inferInstanceAs (Decidable ((_ ∨ _) ∧ _))

/-- What may happen while the window is closed: the user does anything but abort, the
peer's segments are answers, and no timer expires while an answer is owed. -/
def Permits (e : TcpEngine) (owed : Bool) : Action → Prop
  | .abort => False
  | .segment data =>
    match TcpSegment.parse data with
    | .ok seg => e.AnswersProbe seg
    | .error _ => False
  | .expire _ => owed = false
  | _ => True

instance (e : TcpEngine) (owed : Bool) : (a : Action) → Decidable (e.Permits owed a)
  | .abort => inferInstanceAs (Decidable False)
  | .segment data =>
    match h : TcpSegment.parse data with
    | .ok seg => decidable_of_iff (e.AnswersProbe seg) (by simp [Permits, h])
    | .error _ => isFalse (by simp [Permits, h])
  | .expire _ => inferInstanceAs (Decidable (_ = _))
  | .tick _ | .random _ | .openCall .. | .activeOpen | .passiveOpen | .send .. | .receive _
  | .close => inferInstanceAs (Decidable True)

/-- An answer is owed once an expiry has sent a probe or a retransmission; a delayed ACK
asks for none. -/
def owes (owed : Bool) (e e' : TcpEngine) : Action → Bool
  | .segment _ => false
  | .expire h =>
    h.cb != .onDelack && (entered e e').any fun ev =>
      match ev with
      | .tx _ => true
      | _ => false
  | _ => owed

/-- Since `e` the engine has not aborted: it sent no RST, reported no retransmission
timeout and is not closed. -/
structure Endures (e e' : TcpEngine) : Prop where
  opened : e'.tcb.state ≠ .closed
  quiet : Logs (fun ev => Event.NoRst ev ∧ ev ≠ .error "retransmission timeout") e e'

/-- The expiries on which the engine gives up. -/
def GivesUp (e : TcpEngine) : Action → Prop
  | .expire h => (h.cb = .onRto ∧ e.conf.cfg.maxRetransmits < e.tm.rtoCount + 1) ∨
      (h.cb = .onKeepalive ∧ e.KeepaliveGivesUp)
  | _ => False

end TcpEngine

/-- An engine at a closed window, with the flag that its peer owes an answer. No user
timeout is set. -/
def zeroWindowMachine : Lib.Machine (TcpEngine × Bool) Action where
  step s a :=
    if s.1.conf.cfg.userTimeout = none ∧ s.1.Permits s.2 a then
      (engineMachine.step s.1 a).map fun e' => (e', TcpEngine.owes s.2 s.1 e' a)
    else none

namespace TcpEngine

open EngineTimers

variable {a : Action} {e e' f g : TcpEngine} {u m : Int} {n : Nat} {owed : Bool}

theorem Permits.carried (hp : e.Permits owed a) {seg : TcpSegment} (hc : a.Carries seg) :
    seg.ack = e.tcb.sndUna ∧ seg.window = 0 := by
  obtain ⟨data, s, rfl, hs, hseg⟩ := hc
  simp only [Permits, hs] at hp
  obtain ⟨-, -, -, -, -, hack, hwnd⟩ := hp
  rcases hseg with rfl | rfl
  · exact ⟨hack, hwnd⟩
  · exact ⟨hack, hwnd⟩

theorem Held.begin (h : Held u m n e) (a : Action) : Held u m n (e.begin a) := by
  cases a with
  | send data push urgent t =>
    simp only [TcpEngine.begin]
    split
    · cases t <;> exact h.same rfl rfl rfl rfl rfl rfl
    · exact h.enter
  | _ => exact h.enter

/-- What closes does not open again. -/
theorem Move.stays_closed (hm : Move a f g) (hx : a.Closes) (hf : f.tcb.state = .closed) :
    g.tcb.state = .closed := by
  by_contra hg
  have hl : g.tcb.state ≠ .listen := fun hl => (hm.control.listens hf hl).not_closes hx
  exact (hm.control.begins (by simp [ctl, hf]) (by simp [ctl, hg, hl])).1 hx

/-- A step that takes no expiry of the retransmission timer. -/
theorem Held.step (h : Held u m n e) (hr : e.Ready) (hx : a.TimesOut = false)
    (hp : e.Permits owed a) (hs : engineMachine.step e a = some e') :
    Held u m n e' ∨ (e'.tcb.state = .closed ∧ a.Closes) := by
  refine hr.step_preserves hs (P := fun f => Held u m n f ∨ (f.tcb.state = .closed ∧ a.Closes))
    (Or.inl (h.begin a)) ?_
  rintro f f' hm (hf | ⟨hf, hc⟩)
  · refine hf.move hm hx fun seg hseg => ?_
    rw [← h.una]
    exact hp.carried hseg
  · exact Or.inr ⟨hm.stays_closed hc hf, hc⟩

/-! ## No answer closes the connection -/

theorem answer_open {seg : TcpSegment} (h : Held u m n e) (hf : FinSane e)
    (ha : e.AnswersProbe seg) :
    (e.handle seg).tcb.state ≠ .closed := by
  obtain ⟨-, hrst, hsyn, hack, -, hu, -⟩ := ha
  have hs : e.tcb.state ∈ OpenStates := by
    have := h.state
    simp only [List.mem_cons, List.not_mem_nil, or_false] at this
    rcases this with hs | hs | hs | hs | hs <;> simp [hs]
  rw [handle_ack hs hrst hsyn hack]
  split
  · intro hc
    have ho : (e.establishedAck seg).Outside := by simp [Outside, hc]
    obtain ⟨-, -, hn, -⟩ := establishedAck_ends hf hs (fun _ => h.unacked) ho
    have hself := hn.1
    rw [hu, seqGt_self] at hself
    cases hself
  · rw [sendAck_tcb]
    exact h.ne (by decide)

/-- No expiry but those on which the engine gives up closes it. -/
theorem expire_open {h : TimerHandle Callback} (hh : Held u m n e) (ht : e.TimerInv)
    (hl : h ∈ e.tm.sched.live) (hr : h.cb ≠ .onRto) (hg : ¬ e.GivesUp (.expire h)) :
    ((e.enter.popTimer h).callback h.cb).tcb.state ≠ .closed := by
  have hf : (e.enter.popTimer h).forgetTimer h.cb = e.enter.fire h := rfl
  have hne : (e.enter.fire h).tcb.state ≠ .closed := (hh.enter.fire h).ne (by decide)
  cases hcb : h.cb with
  | onRto => exact absurd hcb hr
  | onPersist =>
    rw [hcb] at hf
    have hw : (e.enter.fire h).tcb.sndWnd = 0 := (hh.enter.fire h).window
    simp only [callback, onPersist, hf]
    rw [hw, if_neg (by simp)]
    split_ifs
    · simpa [sendProbe] using hne
    · rw [rearmPersist_tcb]
      exact (hh.enter.fire h).sendFin.ne (by decide)
    · exact hne
  | onDelack =>
    rw [hcb] at hf
    simp only [callback, onDelack, hf]
    simpa using hne
  | onTimeWait =>
    have hslot := ht.timely.held h hl
    rw [hcb] at hslot
    exact absurd (ht.timeWait (by simp [show e.tm.twTimer = some h.id from hslot]))
      (hh.ne (by decide))
  | onKeepalive =>
    rw [hcb] at hf
    simp only [callback, onKeepalive, hf]
    split_ifs with h1 h2 h3
    · exact hne
    · simpa using hne
    · refine absurd (Or.inr ⟨hcb, ?_⟩) hg
      simp only [not_or, not_not] at h1
      exact ⟨by simpa using h1.1, by simpa using h1.2, by simpa using h2, by simpa using h3⟩
    · simpa [sendKeepaliveProbe] using hne

/-- Nor does any other permitted step. -/
theorem permitted_open (hh : Held u m n e) (hr : e.Ready) (ht : e.TimerInv)
    (hx : a.TimesOut = false) (hp : e.Permits owed a) (hg : ¬ e.GivesUp a)
    (hs : engineMachine.step e a = some e') : e'.tcb.state ≠ .closed := by
  intro hc
  obtain h | ⟨-, hclose⟩ := hh.step hr hx hp hs
  · exact h.ne (by decide) hc
  cases a with
  | close =>
    simp only [engineMachine] at hs
    split_ifs at hs
    obtain rfl := Option.some.inj hs
    have hne : e.enter.tcb.state ≠ .closed := hh.enter.ne (by decide)
    have hl : e.enter.tcb.state ≠ .listen := hh.enter.ne (by decide)
    have hsy : e.enter.tcb.state ≠ .synSent := hh.enter.ne (by decide)
    simp only [perform, TcpEngine.close, if_neg hne] at hc
    split_ifs at hc with h1 h2
    · exact hne hc
    · exact h2.elim hl hsy
    · exact sendPending_ne_closed (e := e.enter.requestFin) hne hc
  | abort => exact hp
  | segment data =>
    cases hdata : TcpSegment.parse data with
    | error msg =>
      simp only [Permits, hdata] at hp
    | ok seg =>
      simp only [Permits, hdata] at hp
      obtain ⟨hna, -⟩ | ⟨-, rfl⟩ := step_segment hdata hs
      · exact hna hp.1
      · have hheard : Held u m n e.enter.heard := by
          have hcount : e.enter.heard.tm.rtoCount = e.tm.rtoCount := by
            unfold heard
            split
            · rw [restartKeepalive_rtoCount]
              rfl
            · rfl
          exact hh.same (by simp) (by simp) (by simp) (by simp) (by simp) hcount
        have hsane : FinSane e.enter.heard := by
          have := hr.coherent.finSane
          exact ⟨by simpa using this.acked, by simpa using this.sent⟩
        exact answer_open hheard hsane (by simpa [AnswersProbe, Addressed] using hp) hc
  | expire h =>
    have hcb : h.cb ≠ .onRto := by simpa [Action.TimesOut] using hx
    simp only [engineMachine] at hs
    split_ifs at hs with he
    obtain rfl := Option.some.inj hs
    exact expire_open hh ht he.1 hcb hg hc
  | _ => exact hclose

/-- What a step that leaves the engine open sends and reports. -/
theorem permitted_quiet (hh : Held u m n e) (hr : e.Ready) (hq : Resetless e.buf.retx)
    (hx : a.TimesOut = false) (hp : e.Permits owed a) (hs : engineMachine.step e a = some e')
    (ho : e'.tcb.state ≠ .closed) :
    Logs (fun ev => Event.NoRst ev ∧ ev ≠ .error "retransmission timeout") e e' := by
  let P : TcpEngine → Prop := fun f =>
    (Held u m n f ∨ (f.tcb.state = .closed ∧ a.Closes)) ∧ Resetless f.buf.retx
  have hmove : ∀ f f', Move a f f' → P f → P f' := by
    rintro f f' hm ⟨hf | ⟨hf, hc⟩, hres⟩
    · refine ⟨hf.move hm hx fun seg hseg => ?_, hres.move hm⟩
      rw [← hh.una]
      exact hp.carried hseg
    · exact ⟨Or.inr ⟨hm.stays_closed hc hf, hc⟩, hres.move hm⟩
  have hbegin : P (e.begin a) := by
    refine ⟨Or.inl (hh.begin a), ?_⟩
    obtain ⟨conf, psh, hb, -⟩ := begin_eq (e := e) a
    rw [hb]
    exact hq
  have hlogs := Path.logs hmove (hr.path hs) hbegin
  refine Logs.trans (f := e.begin a) (.none (begin_log a)) (hlogs.mono ?_)
  rintro ev ⟨f, f', -, hm, hpath, ⟨hf, hres⟩, hev⟩
  -- a move that closes is the last word of the step
  have hlast : ¬ (f'.tcb.state = .closed ∧ a.Closes) := fun hc =>
    ho (hpath.preserves (P := fun g => g.tcb.state = .closed)
      (fun _ _ hmg hg => hmg.stays_closed hc.2 hg) hc.1)
  have hheld : Held u m n f := by
    rcases hf with hf | ⟨hf, hc⟩
    · exact hf
    · exact absurd ⟨hm.stays_closed hc hf, hc⟩ hlast
  have hheld' : Held u m n f' := (hmove f f' hm ⟨hf, hres⟩).1.resolve_right hlast
  have hother {v : Event} (h1 : ∀ seg, v ≠ .tx seg) (h2 : ∀ msg, v ≠ .error msg) :
      Event.NoRst v ∧ v ≠ .error "retransmission timeout" :=
    ⟨fun seg hseg => absurd hseg (h1 seg), h2 _⟩
  rcases hev with ⟨data, rfl⟩ | hev
  · exact hother (by simp) (by simp)
  have htx {seg : TcpSegment} (h : seg.rst = false) :
      Event.NoRst (.tx seg) ∧ Event.tx seg ≠ .error "retransmission timeout" :=
    ⟨fun s hs => Event.tx.inj hs ▸ h, by simp⟩
  cases hev with
  | queued o seg hqq ht =>
    refine htx (ht.flags.2.2.1.trans ?_)
    exact (hres.move hm) o (by simp [hqq])
  | resent o rest seg hqq ht =>
    refine htx (ht.flags.2.2.1.trans ?_)
    exact hres o (by simp [hqq])
  | synAck seg hst => exact absurd hst (hheld.ne (by decide))
  | bare seg _ hrst => exact htx hrst
  | reset seg _ _ hc => exact absurd hc (hheld'.ne (by decide))
  | rstReply seg s _ _ _ _ hj =>
    have hstate := hheld.state
    simp only [List.mem_cons, List.not_mem_nil, or_false] at hstate
    unfold Rejects at hj
    rcases hstate with hst | hst | hst | hst | hst
    · simp [hst] at hj
    · simp [hst] at hj
    · simp [hst] at hj
    · simp [hst] at hj
    · simp [hst] at hj
  | change => exact hother (by simp) (by simp)
  | eof => exact hother (by simp) (by simp)
  | error msg hmsg =>
    refine ⟨by simp [Event.NoRst], fun hs => ?_⟩
    obtain ⟨h, rfl, hcb⟩ := hmsg (Event.error.inj hs)
    simp [Action.TimesOut, hcb] at hx
  | received => exact hother (by simp) (by simp)

/-! ## Counting the expiries -/

theorem live_rto {h : TimerHandle Callback} (ht : e.TimerInv) (hrest : e.Rested)
    (hl : h ∈ e.tm.sched.live) (hcb : h.cb = .onRto) : e.buf.retx ≠ [] := by
  intro hq
  have hslot := ht.timely.held h hl
  rw [hcb] at hslot
  have hnone := hrest.timer hq
  rw [show e.tm.rtTimer = some h.id from hslot] at hnone
  cases hnone

/-- An expiry within the limit sends the head of the queue again. -/
theorem counted_step {h : TimerHandle Callback} (ht : e.TimerInv) (hrest : e.Rested)
    (hu : e.conf.cfg.userTimeout = none) (hcb : h.cb = .onRto) (hg : ¬ e.GivesUp (.expire h))
    (hs : engineMachine.step e (.expire h) = some e') : ∃ o rest, e.buf.retx = o :: rest ∧
      e' = (e.enter.fire h).countRto.retransmitHead o rest := by
  have hl : h ∈ e.tm.sched.live := by
    simp only [engineMachine] at hs
    split_ifs at hs with he
    exact he.1
  obtain ⟨hq, -⟩ | ⟨o, rest, hq, ⟨hto, -⟩ | ⟨-, hmax, -⟩ | ⟨-, -, he⟩⟩ := step_rto hcb hs
  · exact absurd hq (live_rto ht hrest hl hcb)
  · have hnone : (e.enter.fire h).conf.cfg.userTimeout = none := by simpa using hu
    rw [userTimeoutExpired, hnone] at hto
    cases hto
  · exact absurd (Or.inl ⟨hcb, hmax⟩) hg
  · exact ⟨o, rest, hq, he⟩

theorem counted_held {h : TimerHandle Callback} {o : Outgoing} {rest : List Outgoing}
    (hh : Held u m n e) : Held u m (n + 1) ((e.enter.fire h).countRto.retransmitHead o rest) := by
  refine ⟨?_, ?_, ?_, ?_, ?_, ?_⟩
  · simpa using hh.state
  · simpa using hh.window
  · simpa using hh.una
  · simpa using hh.unacked
  · simpa using hh.limit
  · rw [retransmitHead_rtoCount]
    simpa [countRto] using hh.count

theorem counted_quiet {h : TimerHandle Callback} {o : Outgoing} {rest : List Outgoing}
    (ho : o.flags.rst = false) :
    Logs (fun ev => Event.NoRst ev ∧ ev ≠ .error "retransmission timeout") e
      ((e.enter.fire h).countRto.retransmitHead o rest) := by
  apply Logs.trans (f := (e.enter.fire h).countRto) (.none (by simp [enter]))
  exact retransmitHead_logs o rest ⟨fun s hs => Event.tx.inj hs ▸ ho, by simp⟩

/-- The expiries on which the engine gives up close it. -/
theorem gives_up_closes (ht : e.TimerInv) (hrest : e.Rested) (hg : e.GivesUp a)
    (hs : engineMachine.step e a = some e') : e'.tcb.state = .closed := by
  cases a with
  | expire h =>
    have hl : h ∈ e.tm.sched.live := by
      simp only [engineMachine] at hs
      split_ifs at hs with he
      exact he.1
    rcases hg with ⟨hcb, hmax⟩ | ⟨hcb, hi, hst, hq, hlim⟩
    · obtain ⟨hq, -⟩ | ⟨o, rest, -, ⟨-, rfl⟩ | ⟨-, -, rfl⟩ | ⟨-, hle, -⟩⟩ := step_rto hcb hs
      · exact absurd hq (live_rto ht hrest hl hcb)
      · exact giveUp_state _
      · exact giveUp_state _
      · omega
    · have hf : (e.enter.popTimer h).forgetTimer h.cb = e.enter.fire h := rfl
      rw [hcb] at hf
      simp only [engineMachine] at hs
      split_ifs at hs
      obtain rfl := Option.some.inj hs
      simp only [perform, hcb, callback, onKeepalive, hf]
      rw [if_neg (by simp [hi, hst]), if_neg (by simp [hq]), if_pos (by simpa using hlim)]
      exact giveUp_state _
  | _ => exact hg.elim

/-- What every run keeps. -/
structure Grounded (e : TcpEngine) : Prop where
  ready : e.Ready
  timers : e.TimerInv
  rested : e.Rested
  resetless : Resetless e.buf.retx

theorem Grounded.step (h : e.Grounded) (hs : engineMachine.step e a = some e') : e'.Grounded := by
  refine ⟨h.ready.step hs, h.ready.timerInv_step h.timers hs, h.rested.step h.ready h.timers hs, ?_⟩
  refine h.ready.step_preserves hs (P := fun f => Resetless f.buf.retx) ?_ fun _ _ hm hf =>
    hf.move hm
  obtain ⟨conf, psh, hb, -⟩ := begin_eq (e := e) a
  rw [hb]
  exact h.resetless

theorem grounded_init (args : EngineArgs) (sched : ManualScheduler Callback) (rand : Nat)
    (hs : sched.heap = []) : (init args sched rand).Grounded :=
  ⟨ready_init args sched rand, timerInv_init args sched rand hs, ⟨fun _ => rfl, fun _ => rfl⟩,
    Resetless.nil⟩

/-- What a run at the closed window from `e₀` keeps as long as the engine does not give up. -/
structure Pressed (e₀ e : TcpEngine) : Prop extends e.Grounded where
  held : Held e₀.tcb.sndUna e₀.conf.cfg.maxRetransmits e.tm.rtoCount e
  quiet : Logs (fun ev => Event.NoRst ev ∧ ev ≠ .error "retransmission timeout") e₀ e

theorem Pressed.endures {e₀ : TcpEngine} (h : e₀.Pressed e) : e₀.Endures e :=
  ⟨h.held.ne (by decide), h.quiet⟩

theorem Pressed.step {e₀ : TcpEngine} {s s' : TcpEngine × Bool} (h : e₀.Pressed s.1)
    (hg : ¬ s.1.GivesUp a) (hs : zeroWindowMachine.step s a = some s') :
    e₀.Pressed s'.1 ∧ s'.1.tm.rtoCount = s.1.tm.rtoCount + a.TimesOut.toNat := by
  obtain ⟨e, owed⟩ := s
  simp only [zeroWindowMachine] at hs
  split_ifs at hs with hc
  obtain ⟨hu, hp⟩ := hc
  obtain ⟨e', hstep, rfl⟩ := Option.map_eq_some_iff.mp hs
  dsimp only at h hg hu hp ⊢
  suffices hheld : Held e₀.tcb.sndUna e₀.conf.cfg.maxRetransmits
        (e.tm.rtoCount + a.TimesOut.toNat) e' ∧
      Logs (fun ev => Event.NoRst ev ∧ ev ≠ .error "retransmission timeout") e e' by
    obtain ⟨hheld, hlogs⟩ := hheld
    refine ⟨⟨h.toGrounded.step hstep, ?_, h.quiet.trans hlogs⟩, hheld.count⟩
    rw [hheld.count]
    exact hheld
  cases hx : a.TimesOut with
  | true =>
    obtain ⟨g, rfl, hcb⟩ : ∃ g, a = .expire g ∧ g.cb = .onRto := by
      cases a with
      | expire g => exact ⟨g, rfl, by simpa [Action.TimesOut] using hx⟩
      | _ => cases hx
    obtain ⟨o, rest, hq, rfl⟩ := counted_step h.timers h.rested hu hcb hg hstep
    exact ⟨counted_held h.held, counted_quiet (h.resetless o (by simp [hq]))⟩
  | false =>
    have ho := permitted_open h.held h.ready h.timers hx hp hg hstep
    refine ⟨?_, permitted_quiet h.held h.ready h.resetless hx hp hstep ho⟩
    exact (h.held.step h.ready hx hp hstep).resolve_right fun hc => ho hc.1

theorem endures_iff_steps {e₀ : TcpEngine} {s t : TcpEngine × Bool} {as : List Action}
    (h : e₀.Pressed s.1) (hr : zeroWindowMachine.run s as = some t) :
    zeroWindowMachine.Throughout (fun s => e₀.Endures s.1) s as ↔
      zeroWindowMachine.AllSteps (fun s a => ¬ s.1.GivesUp a) s as := by
  refine Lib.Machine.throughout_iff (I := fun s => e₀.Pressed s.1)
    (fun s a s' hi hg hs => (hi.step hg hs).1) (fun s hi => hi.endures) ?_ h hr
  intro s a s' hi hg hs hend
  simp only [zeroWindowMachine] at hs
  split_ifs at hs
  obtain ⟨e', hstep, rfl⟩ := Option.map_eq_some_iff.mp hs
  exact hend.opened (gives_up_closes hi.timers hi.rested (not_not.mp hg) hstep)

/-- The keepalive timer does not give up in this step. -/
def Alive (e : TcpEngine) (a : Action) : Prop :=
  ∀ h, a = .expire h → h.cb = .onKeepalive → ¬ e.KeepaliveGivesUp

theorem not_givesUp_iff : ¬ e.GivesUp a ↔
    (a.TimesOut = true → (e.tm.rtoCount + 1 : Int) ≤ e.conf.cfg.maxRetransmits) ∧ e.Alive a := by
  cases a with
  | expire h =>
    simp only [GivesUp, Action.TimesOut, Alive, Action.expire.injEq, forall_eq', decide_eq_true_eq,
      not_or, not_and, not_lt]
  | _ => simp [GivesUp, Action.TimesOut, Alive]

/-- The count only grows: the limit holds at each expiry when it holds at the last one. -/
theorem steps_iff_count {e₀ : TcpEngine} {s t : TcpEngine × Bool} {as : List Action}
    (h : e₀.Pressed s.1) (hr : zeroWindowMachine.run s as = some t) :
    zeroWindowMachine.AllSteps (fun s a => ¬ s.1.GivesUp a) s as ↔
      (as.countP Action.TimesOut = 0 ∨
        (s.1.tm.rtoCount + as.countP Action.TimesOut : Int) ≤ e₀.conf.cfg.maxRetransmits) ∧
      zeroWindowMachine.AllSteps (fun s a => s.1.Alive a) s as := by
  induction as generalizing s with
  | nil => simp [Lib.Machine.AllSteps]
  | cons a as ih =>
    rw [Lib.Machine.run_cons] at hr
    obtain ⟨s', hs, hr⟩ := Option.bind_eq_some_iff.mp hr
    rw [Lib.Machine.allSteps_cons_some hs, Lib.Machine.allSteps_cons_some hs, not_givesUp_iff,
      h.held.limit, List.countP_cons]
    constructor
    · rintro ⟨⟨hlim, halive⟩, hrest⟩
      have hg : ¬ s.1.GivesUp a := not_givesUp_iff.mpr ⟨by rwa [h.held.limit], halive⟩
      obtain ⟨hp, hcount⟩ := h.step hg hs
      obtain ⟨hle, hall⟩ := (ih hp hr).mp hrest
      refine ⟨?_, halive, hall⟩
      rw [hcount] at hle
      cases hx : a.TimesOut with
      | true =>
        have := hlim hx
        simp only [hx, Bool.toNat_true, if_true] at hle ⊢
        omega
      | false =>
        simp only [hx, Bool.toNat_false] at hle ⊢
        simpa using hle
    · rintro ⟨hle, halive, hall⟩
      have hlim : a.TimesOut = true →
          (s.1.tm.rtoCount + 1 : Int) ≤ e₀.conf.cfg.maxRetransmits := by
        intro hx
        simp only [hx, if_true] at hle
        omega
      have hg : ¬ s.1.GivesUp a := not_givesUp_iff.mpr ⟨by rwa [h.held.limit], halive⟩
      obtain ⟨hp, hcount⟩ := h.step hg hs
      refine ⟨⟨hlim, halive⟩, (ih hp hr).mpr ⟨?_, hall⟩⟩
      rw [hcount]
      cases hx : a.TimesOut with
      | true =>
        simp only [hx, Bool.toNat_true, if_true] at hle ⊢
        omega
      | false =>
        simp only [hx, Bool.toNat_false] at hle ⊢
        simpa using hle

theorem Grounded.pressed (h : e.Grounded)
    (hs : e.tcb.state = .established ∨ e.tcb.state = .closeWait)
    (hw : e.tcb.sndWnd = 0) : e.Pressed e := by
  have hna : e.fin.finAcked = false := by
    by_contra hf
    rw [Bool.not_eq_false] at hf
    have hsent := h.ready.coherent.sent.mp (h.ready.coherent.acked hf)
    rcases hs with hs | hs <;> simp [ctl, hs] at hsent
  refine ⟨h, ⟨?_, hw, rfl, hna, rfl, rfl⟩, .none rfl⟩
  rcases hs with hs | hs <;> simp [hs]

end TcpEngine

open TcpEngine in
/-- The engine outlasts a peer that answers everything with its window closed exactly when
the expiries of the retransmission timer, with those counted before, are within
`max_retransmits`, and the keepalive timer does not give up. -/
theorem endures_iff (args : EngineArgs) (sched : ManualScheduler Callback) (rand : Nat)
    (before : List Action) (e : TcpEngine) (as : List Action) (t : TcpEngine × Bool)
    (hs : sched.heap = []) (hb : engineMachine.run (init args sched rand) before = some e)
    (hst : e.tcb.state = .established ∨ e.tcb.state = .closeWait) (hw : e.tcb.sndWnd = 0)
    (hr : zeroWindowMachine.run (e, false) as = some t) :
    zeroWindowMachine.Throughout (fun s => e.Endures s.1) (e, false) as ↔
      (as.countP Action.TimesOut = 0 ∨
        (e.tm.rtoCount + as.countP Action.TimesOut : Int) ≤ e.conf.cfg.maxRetransmits) ∧
      zeroWindowMachine.AllSteps (fun s a => s.1.Alive a) (e, false) as := by
  have hground : e.Grounded := Lib.Machine.invariant_run _ (fun _ _ _ hi hstep => hi.step hstep)
    (grounded_init args sched rand hs) hb
  have hp : e.Pressed e := hground.pressed hst hw
  rw [endures_iff_steps hp hr, steps_iff_count hp hr]

/-- One retransmission is allowed; the peer opens with a closed window and a byte waits. -/
def shutStart : TcpEngine :=
  .init { localPort := 1000, remotePort := 80, iss := some 100, timers := { maxRetransmits := 1 } }
    {} 0

def shutRun : List Action :=
  [.activeOpen,
    .segment (TcpSegment.image
      { srcPort := 80, dstPort := 1000, seq := 500, ack := 101,
        flags := { syn := true, ack := true } }),
    .send [7] false false none]

def probeAnswer : Action :=
  .segment (TcpSegment.image
    { srcPort := 80, dstPort := 1000, seq := 501, ack := 101, flags := { ack := true } })

/-- The byte goes out as a probe and is retransmitted once; both are answered. -/
def probeRun : List Action :=
  [.tick 1, .expire { id := 1, deadline := 1, cb := .onPersist }, probeAnswer,
    .tick 1, .expire { id := 2, deadline := 2, cb := .onRto }, probeAnswer]

/-- The next expiry of the retransmission timer. -/
def lastExpiry : List Action :=
  [.tick 1, .expire { id := 3, deadline := 3, cb := .onPersist },
    .tick 1, .expire { id := 4, deadline := 4, cb := .onRto }]

theorem responsive_peer_given_up : ∃ e t, engineMachine.run shutStart shutRun = some e ∧
    e.tcb.state = .established ∧ e.tcb.sndWnd = 0 ∧ e.buf.appBuf = [7] ∧
    zeroWindowMachine.run (e, false) (probeRun ++ lastExpiry) = some t ∧ t.1.tcb.state = .closed ∧
    Event.error "retransmission timeout" ∈ t.1.env.log ∧
    ¬ zeroWindowMachine.Throughout (fun s => e.Endures s.1) (e, false)
      (probeRun ++ lastExpiry) := by
  have h : ((engineMachine.run shutStart shutRun).bind fun e =>
      (zeroWindowMachine.run (e, false) (probeRun ++ lastExpiry)).map fun t =>
        (e.tcb.state, e.tcb.sndWnd, e.buf.appBuf, t.1.tcb.state,
          decide (Event.error "retransmission timeout" ∈ t.1.env.log))) =
      some (.established, 0, [7], .closed, true) := by
    decide +kernel
  obtain ⟨e, he, h⟩ := Option.bind_eq_some_iff.mp h
  obtain ⟨t, ht, h⟩ := Option.map_eq_some_iff.mp h
  simp only [Prod.mk.injEq, decide_eq_true_eq] at h
  obtain ⟨h1, h2, h3, h4, h5⟩ := h
  refine ⟨e, t, he, h1, h2, h3, ht, h4, h5, fun hend => ?_⟩
  exact (Lib.Machine.Throughout.last hend ht).opened h4

theorem answered_probes_outlasted : ∃ e, engineMachine.run shutStart shutRun = some e ∧
    (zeroWindowMachine.Throughout (fun s => e.Endures s.1) (e, false) probeRun ↔
      (probeRun.countP Action.TimesOut = 0 ∨
        (e.tm.rtoCount + probeRun.countP Action.TimesOut : Int) ≤ e.conf.cfg.maxRetransmits) ∧
      zeroWindowMachine.AllSteps (fun s a => s.1.Alive a) (e, false) probeRun) := by
  have h : ((engineMachine.run shutStart shutRun).bind fun e =>
      (zeroWindowMachine.run (e, false) probeRun).map fun _ => (e.tcb.state, e.tcb.sndWnd)) =
      some (.established, 0) := by
    decide +kernel
  obtain ⟨e, he, h⟩ := Option.bind_eq_some_iff.mp h
  obtain ⟨t, ht, h⟩ := Option.map_eq_some_iff.mp h
  refine ⟨e, he, ?_⟩
  exact endures_iff _ {} 0 shutRun e probeRun t rfl he (Or.inl (congrArg Prod.fst h))
    (congrArg Prod.snd h) ht

end HdlPlayground.Tcp

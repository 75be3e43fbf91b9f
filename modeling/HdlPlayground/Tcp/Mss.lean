import HdlPlayground.Tcp.Dispatched
import HdlPlayground.Tcp.Stalls

/-!
# The MSS two engines settle on

Every SYN announces an MSS and every SYN that is taken is answered for: once an engine is
synchronized its SND.MSS is the smaller of what the two have been configured with, and no segment
either ever transmits carries more text than that.
-/
namespace HdlPlayground.Tcp

/-- A SYN announces the MSS `m`. -/
def Event.Announces (m : Nat) (ev : Event) : Prop :=
  ∀ seg, ev = .tx seg → seg.syn = true → seg.mss = some m

theorem Event.announces_of_not_tx {m : Nat} {ev : Event} (h : ∀ seg, ev ≠ .tx seg) :
    ev.Announces m := fun seg hs => absurd hs (h seg)

theorem Event.announces_tx {m : Nat} {seg : TcpSegment} (h : seg.syn = true → seg.mss = some m) :
    Event.Announces m (.tx seg) := by
  intro s hs hsyn
  obtain rfl := Event.tx.inj hs
  exact h hsyn

/-- An MSS that a peer configured with `d` may announce to an engine configured with `c`. -/
structure Proposal (c d m : Nat) : Prop where
  pos : 1 ≤ m
  meets : min c m = min c d

/-- What an engine says: no more text than agreed, and an offer with every SYN. -/
def Event.Measured (c d : Nat) (ev : Event) : Prop :=
  ∀ seg, ev = .tx seg → seg.payload.length ≤ min c d ∧
    (seg.syn = true → ∃ m, seg.mss = some m ∧ Proposal d c m)

namespace TcpEngine

variable {a : Action} {e f : TcpEngine}

theorem announces_plain (seq : Int) (flags : Flags) (payload : List UInt8) (b : Bool) (urg m : Nat)
    (hs : flags.syn = false) : Event.Announces m (.tx (e.segmentFor seq flags payload b urg)) := by
  apply Event.announces_tx
  intro hsyn
  have hsyn : flags.syn = true := hsyn
  rw [hs] at hsyn
  cases hsyn

theorem announces_mss (seq : Int) (flags : Flags) (payload : List UInt8) (urg : Nat) {m : Nat}
    (hm : e.tcb.sndMss = m) :
    Event.Announces m (.tx (e.segmentFor seq flags payload true urg)) := by
  apply Event.announces_tx
  intro _
  rw [← hm]
  rfl

/-- Every SYN a move emits announces the MSS of the engine. -/
theorem Move.announces (h : Move a e f) : Logs (Event.Announces f.tcb.sndMss) e f := by
  have hch {m : Nat} (o n : ConnState) : Event.Announces m (.stateChange o n) :=
    Event.announces_of_not_tx (by simp)
  have herr {m : Nat} (msg : String) : Event.Announces m (.error msg) :=
    Event.announces_of_not_tx (by simp)
  have hq {m : Nat} (g : TcpEngine) (flags : Flags) (payload : List UInt8) (b : Bool) (urg : Nat)
      (hs : flags.syn = false) : Logs (Event.Announces m) g (g.queueAndSend flags payload b urg) :=
    queueAndSend_logs _ _ _ _ (announces_plain _ _ _ _ _ _ hs)
  have hm {m : Nat} (g : TcpEngine) (seq : Int) (flags : Flags) (payload : List UInt8) (b : Bool)
      (urg : Nat) (hs : flags.syn = false) :
      Logs (Event.Announces m) g (g.makeAndTransmit seq flags payload b urg) :=
    makeAndTransmit_logs _ _ _ _ _ (announces_plain _ _ _ _ _ _ hs)
  have hst {m : Nat} (g : TcpEngine) (st : ConnState) :
      Logs (Event.Announces m) g (g.setState st) := setState_logs st fun _ => hch _ _
  have hfin {m : Nat} (g : TcpEngine) : Logs (Event.Announces m) g g.sendFin :=
    sendFin_logs (announces_plain _ _ _ _ _ _ rfl) fun _ => hch _ _
  have hclose {m : Nat} (g : TcpEngine) (hb : g.Blocked) :
      Logs (Event.Announces m) g g.enterClosed := enterClosed_logs hb fun _ => hch _ _
  have hgive {m : Nat} (g : TcpEngine) (msg : String) (hb : g.Blocked) :
      Logs (Event.Announces m) g (g.giveUp msg) :=
    giveUp_logs msg hb (herr msg) (announces_plain _ _ _ _ _ _ rfl) fun _ => hch _ _
  cases h with
  | receive _ hr =>
    apply hr.logs.mono
    rintro ev ⟨data, rfl⟩
    exact Event.announces_of_not_tx (by simp)
  | connect ho _ =>
    rw [connect_eq (ho.imp And.left id)]
    refine Logs.trans (f := e.dialled) (.one _ rfl (hch _ _)) (queueAndSend_logs _ _ _ _ ?_)
    exact announces_mss _ _ _ _ (by simp)
  | startListening => exact (Logs.none rfl).trans (hst _ _)
  | finishReceive data =>
    exact .one _ (by rw [finishReceive_env]) (Event.announces_of_not_tx (by simp))
  | retransmit h o rest =>
    refine Logs.trans (f := (e.fire h).countRto) (.none (by simp)) (retransmitHead_logs o rest ?_)
    apply Event.announces_tx
    intro hsyn
    have hsyn : o.flags.syn = true := hsyn
    have hmss : ((e.fire h).countRto.markRetransmitted o rest).tcb.sndMss = e.tcb.sndMss := by
      show (e.fire h).tcb.sndMss = e.tcb.sndMss
      rw [fire_tcb]
    rw [hsyn]
    simp [segmentFor, hmss]
  | sendAck => exact .one (.tx e.ackSegment) (by simp) (announces_plain _ _ _ _ _ _ rfl)
  | scheduleAck force => exact scheduleAck_logs (fun g => announces_plain _ _ _ _ _ _ rfl) force
  | emitRstReply seg seq ack ackFlag =>
    refine .one _ (by rw [emitRstReply_eq]; rfl) (Event.announces_tx fun hsyn => ?_)
    have hsyn : false = true := hsyn
    cases hsyn
  | sendSynAck =>
    exact makeAndTransmit_logs _ _ _ _ _ (announces_mss _ _ _ _ (by simp [TcpEngine.sendSynAck]))
  | sendKeepaliveProbe =>
    exact Logs.trans (f := e.makeAndTransmit (sub e.tcb.sndUna 1) { ack := true })
      (hm _ _ _ _ _ _ rfl) (.none rfl)
  | signalError msg => exact .one _ rfl (herr msg)
  | sendChunk =>
    exact Logs.trans (f := e.queueChunk e.chunkLen)
      (Logs.trans (f := e.takeChunk e.chunkLen) (.none rfl) (hq _ _ _ _ _ rfl)) (.none (by simp))
  | sendFin => exact hfin e
  | probe h =>
    exact Logs.trans (f := (e.fire h).takeChunk 1) (.none (by simp))
      (Logs.trans (f := (e.fire h).sendProbe) (hq _ _ _ _ _ rfl) (.none rfl))
  | probeFin h =>
    exact Logs.trans (f := e.fire h) (.none (by simp))
      (Logs.trans (f := (e.fire h).sendFin) (hfin _) (.none rfl))
  | acceptSyn seg _ hs =>
    obtain ⟨m, -, -, hm⟩ := acceptSyn_eq (e := e) seg hs
    rw [hm]
    refine Logs.trans (f := e.listenTaken seg m) (.one _ rfl (hch _ _))
      (queueAndSend_logs _ _ _ _ ?_)
    exact announces_mss _ _ _ _ (by simp)
  | synEstablished seg => exact (Logs.none (takeSyn_env seg)).trans (hst _ _)
  | synReceived seg => exact (Logs.none (takeSyn_env seg)).trans ((hst _ _).trans (.none rfl))
  | completeOpen seg => exact (Logs.none (by simp)).trans (hst _ _)
  | finAckedWait => exact hst _ _
  | finAckedTimeWait hs =>
    rw [enterTimeWait_eq (by simp [CanSend, hs])]
    exact Logs.trans (f := e.stopRt.dropPersistTimer) (.none rfl) ((hst _ _).trans (.none rfl))
  | processFin =>
    exact processFin_logs (Event.announces_of_not_tx (by simp)) (announces_plain _ _ _ _ _ _ rfl)
      fun _ => hch _ _
  | listenAgain hs hp =>
    rw [doReset_listen hs hp]
    exact (hst _ _).trans (.none rfl)
  | close _ hb => exact hclose e hb
  | abort _ hb => exact (hm _ _ _ _ _ _ rfl).trans (hclose _ (sendRst_blocked hb))
  | giveUp msg _ hb => exact hgive e msg hb
  | giveUpRto h c msg _ _ _ _ hb =>
    have hb1 : (if c then (e.fire h).countRto else e.fire h).Blocked := by
      split
      · exact (hb.fire h).of_view rfl
      · exact hb.fire h
    have hl : (if c then (e.fire h).countRto else e.fire h).env = e.env := by
      split <;> simp
    generalize (if c then (e.fire h).countRto else e.fire h) = g at hb1 hl
    exact Logs.trans (f := g) (.none (by rw [hl])) (hgive g msg hb1)
  | timeWaitExpires h _ _ _ hb =>
    exact Logs.trans (f := e.fire h) (.none (by simp)) (hclose _ (hb.fire h))
  | storeSynData seg => exact .none (storeOoo_env _ _ _)
  | storeOoo seg => exact .none (storeOoo_env _ _ _)
  | _ => exact .none (by first | rfl | simp)

/-! ## The MSS of a synchronized engine -/

/-- What arrives offers an MSS with its SYN. -/
def Proposes (c d : Nat) (a : Action) : Prop :=
  ∀ seg, a.Carries seg → seg.syn = true → ∃ m, seg.mss = some m ∧ Proposal c d m

/-- An engine configured with `c`, whose peer is configured with `d`. -/
structure Sized (c d : Nat) (e : TcpEngine) : Prop where
  cap : e.conf.cfgMss = c
  offer : Proposal d c e.tcb.sndMss
  agreed : e.tcb.state ∈ SyncStates → e.tcb.sndMss = min c d
  queued : ∀ o ∈ e.buf.retx, o.payload.length ≤ min c d

variable {c d : Nat}

theorem proposal_agreed {seg : TcpSegment} (h : Sized c d e) {m : Nat} (hm : seg.mss = some m)
    (ho : Proposal c d m) : e.agreedMss seg = min c d := by
  have hpos := ho.pos
  rw [agreedMss, hm]
  dsimp only
  rw [if_neg (by omega), h.cap, ho.meets]

theorem proposal_min (hc : 1 ≤ c) (hd : 1 ≤ d) : Proposal d c (min c d) := ⟨by omega, by omega⟩

theorem cut_payload_le (o : Outgoing) (ack : Int) :
    (o.cut ack).payload.length ≤ o.payload.length := by
  unfold Outgoing.cut
  dsimp only
  split
  · split
    · simp
    · exact le_rfl
  · split
    · simp
    · exact le_rfl

/-- What is left of the queue is no longer than it was. -/
theorem trimRetx_payload_le {ack : Int} {n : Nat} {q : List Outgoing}
    (h : ∀ o ∈ q, o.payload.length ≤ n) : ∀ o ∈ trimRetx ack q, o.payload.length ≤ n := by
  induction q with
  | nil => exact h
  | cons o q ih =>
    unfold trimRetx
    split
    · exact ih fun p hp => h p (List.mem_cons_of_mem _ hp)
    · split
      · intro p hp
        rcases List.mem_cons.mp hp with rfl | hp
        · exact (cut_payload_le o ack).trans (h o List.mem_cons_self)
        · exact h p (List.mem_cons_of_mem _ hp)
      · exact h

theorem ackHeadSyn_payload_le {n : Nat} {q : List Outgoing}
    (h : ∀ o ∈ q, o.payload.length ≤ n) : ∀ o ∈ ackHeadSyn q, o.payload.length ≤ n := by
  cases q with
  | nil => exact h
  | cons o q =>
    rw [ackHeadSyn]
    split
    · intro p hp
      rcases List.mem_cons.mp hp with rfl | hp
      · exact h o List.mem_cons_self
      · exact h p (List.mem_cons_of_mem _ hp)
    · exact h

theorem queued_payload_le {n : Nat} {q : List Outgoing} {o : Outgoing}
    (h : ∀ o ∈ q, o.payload.length ≤ n) (ho : o.payload.length ≤ n) :
    ∀ p ∈ q ++ [o], p.payload.length ≤ n := by
  intro p hp
  rcases List.mem_append.mp hp with hp | hp
  · exact h p hp
  · rw [List.mem_singleton.mp hp]
    exact ho

theorem takeSyn_payload_le {n : Nat} (seg : TcpSegment)
    (h : ∀ o ∈ e.buf.retx, o.payload.length ≤ n) :
    ∀ o ∈ (e.takeSyn seg).buf.retx, o.payload.length ≤ n := by
  obtain ⟨m, -, -, hm⟩ := takeSyn_cases (e := e) seg
  rw [hm]
  split
  · simpa using trimRetx_payload_le h
  · simpa using h

/-- No move queues more text than the MSS. -/
theorem Move.payload_le (hm : Move a e f) {n : Nat} (hn : 1 ≤ n)
    (hmss : e.tcb.state ∈ SyncStates → e.tcb.sndMss ≤ n)
    (h : ∀ o ∈ e.buf.retx, o.payload.length ≤ n) : ∀ o ∈ f.buf.retx, o.payload.length ≤ n := by
  cases hm with
  | connect ho _ =>
    rw [connect_eq (ho.imp And.left id)]
    simp only [queueAndSend_buf]
    exact queued_payload_le h (Nat.zero_le _)
  | acceptSyn seg _ hs =>
    obtain ⟨m, -, -, hm⟩ := acceptSyn_eq (e := e) seg hs
    rw [hm]
    simp only [queueAndSend_buf]
    exact queued_payload_le h (Nat.zero_le _)
  | sendChunk hs =>
    rw [sendChunk_buf, queueChunk, queueAndSend_buf]
    apply queued_payload_le h
    have hst : e.tcb.state ∈ SyncStates := by rcases hs with hs | hs <;> simp [hs]
    show (e.buf.appBuf.take e.chunkLen).length ≤ n
    rw [List.length_take, chunkLen]
    have := hmss hst
    omega
  | probe g =>
    have hbuf : (e.fire g).sendProbe.rearmPersist.buf.retx = (e.fire g).buf.retx ++
        [((e.fire g).takeChunk 1).outgoing { ack := true } ((e.fire g).buf.appBuf.take 1)] := by
      rw [← takeChunk_retx 1]
      exact congrArg Buffers.retx
        (queueAndSend_buf ((e.fire g).takeChunk 1) { ack := true } _ false 0)
    rw [hbuf, fire_buf]
    apply queued_payload_le h
    show (e.buf.appBuf.take 1).length ≤ n
    rw [List.length_take]
    omega
  | retransmit g o rest _ _ hq =>
    rw [retransmitHead_buf]
    rw [hq] at h
    intro p hp
    rcases List.mem_cons.mp hp with rfl | hp
    · exact h o List.mem_cons_self
    · exact h p (List.mem_cons_of_mem _ hp)
  | sendFin =>
    rw [sendFin_buf]
    exact queued_payload_le h (Nat.zero_le _)
  | probeFin g =>
    have hbuf : (e.fire g).sendFin.rearmPersist.buf = (e.fire g).sendFin.buf := rfl
    rw [hbuf, sendFin_buf, fire_buf]
    exact queued_payload_le h (Nat.zero_le _)
  | processAck seg => simpa using trimRetx_payload_le h
  | completeOpen seg => simpa [openCompleted] using trimRetx_payload_le h
  | synEstablished seg => simpa using takeSyn_payload_le seg h
  | synReceived seg =>
    simpa [becomeSynReceived] using ackHeadSyn_payload_le (takeSyn_payload_le seg h)
  | storeSynData seg =>
    rw [(storeOoo_frame e (add seg.seq 1) seg.payload { seg.flags with fin := false }).retx]
    exact h
  | storeOoo seg n =>
    rw [(storeOoo_frame e seg.seq (seg.payload.take n) seg.flags).retx]
    exact h
  | receive _ hr =>
    rw [hr.frame.retx]
    exact h
  | finAckedTimeWait hs =>
    rw [enterTimeWait_eq (by simp [CanSend, hs])]
    simpa using h
  | processFin =>
    obtain ⟨st, -, hf⟩ | ⟨-, hf⟩ := processFin_cases (e := e)
    · simpa [hf] using h
    · simpa [hf] using h
  | listenAgain hs hp =>
    rw [doReset_listen hs hp]
    simp [restorePort]
  | close => simp [enterClosed_buf]
  | abort => simp [enterClosed_buf]
  | giveUp msg => simp [giveUp_buf]
  | giveUpRto g c msg => cases c <;> simp [giveUp_buf]
  | timeWaitExpires g => simp [enterClosed_buf]
  | startListening => simpa [TcpEngine.startListening] using h
  | sendSynAck => simpa [TcpEngine.sendSynAck] using h
  | sendKeepaliveProbe => simpa [TcpEngine.sendKeepaliveProbe] using h
  | _ => first | exact h | simpa using h

theorem Sized.move (hm : Move a e f) (ha : Proposes c d a) (hc : 1 ≤ c) (hd : 1 ≤ d)
    (h : Sized c d e) : Sized c d f := by
  have hqueue := hm.payload_le (n := min c d) (by omega) (fun hs => (h.agreed hs).le) h.queued
  have hcap : f.conf.cfgMss = c := hm.cfgMss.trans h.cap
  rcases hm.settles with hn | ⟨seg, hcs, hsyn, -, hmss⟩
  · refine ⟨hcap, ?_, fun hs => ?_, hqueue⟩
    · rw [hn.mss]
      exact h.offer
    · rw [hn.mss]
      exact h.agreed (hn.state hs)
  · obtain ⟨m, hat, ho⟩ := ha seg hcs hsyn
    have hall : f.tcb.sndMss = min c d := hmss.trans (proposal_agreed h hat ho)
    refine ⟨hcap, ?_, fun _ => hall, hqueue⟩
    rw [hall]
    exact proposal_min hc hd

theorem Emits.payload_le {n : Nat} {ev : Event} {seg : TcpSegment} (h : Emits a e f ev)
    (he : ∀ o ∈ e.buf.retx, o.payload.length ≤ n) (hf : ∀ o ∈ f.buf.retx, o.payload.length ≤ n)
    (hs : ev = .tx seg) : seg.payload.length ≤ n := by
  cases h with
  | queued o _ hq ht =>
    obtain rfl := Event.tx.inj hs
    rw [ht.payload]
    apply hf
    rw [hq]
    exact List.mem_append_right _ List.mem_cons_self
  | resent o rest _ hq ht =>
    obtain rfl := Event.tx.inj hs
    rw [ht.payload]
    apply he
    rw [hq]
    exact List.mem_cons_self
  | synAck _ _ _ _ _ hp =>
    obtain rfl := Event.tx.inj hs
    rw [hp]
    exact Nat.zero_le _
  | bare _ hb =>
    obtain rfl := Event.tx.inj hs
    rw [hb.1]
    exact Nat.zero_le _
  | reset _ hb =>
    obtain rfl := Event.tx.inj hs
    rw [hb.1]
    exact Nat.zero_le _
  | rstReply _ _ hb =>
    obtain rfl := Event.tx.inj hs
    rw [hb.1]
    exact Nat.zero_le _
  | _ => cases hs

theorem Move.measured (hm : Move a e f) (he : Sized c d e) (hf : Sized c d f) :
    Logs (Event.Measured c d) e f := by
  rcases hm.logs with hr | ⟨evs, hlog, hall⟩
  · apply hr.logs.mono
    rintro ev ⟨data, rfl⟩ seg hs
    cases hs
  · obtain ⟨evs', hlog', hoffer⟩ := hm.announces
    obtain rfl : evs' = evs := List.append_cancel_left (hlog'.symm.trans hlog)
    refine ⟨evs', hlog, fun ev hev seg hs => ⟨?_, fun hsyn => ?_⟩⟩
    · exact (hall ev hev).payload_le he.queued hf.queued hs
    · exact ⟨_, hoffer ev hev seg hs hsyn, hf.offer⟩

/-- An engine that keeps to the size agreed on, in what it is and in all it has said. -/
structure Moderate (c d : Nat) (e : TcpEngine) : Prop where
  sized : Sized c d e
  said : ∀ ev ∈ e.env.log, ev.Measured c d

theorem step_moderate (hr : e.Ready) (ha : Proposes c d a) (hc : 1 ≤ c) (hd : 1 ≤ d)
    (h : Moderate c d e) (hs : engineMachine.step e a = some f) : Moderate c d f := by
  apply hr.step_preserves (P := Moderate c d) hs
  · obtain ⟨conf, psh, hb, hcap⟩ := begin_eq (e := e) a
    rw [hb]
    exact ⟨⟨hcap.trans h.sized.cap, h.sized.offer, h.sized.agreed, h.sized.queued⟩, h.said⟩
  · intro g g' hm hg
    have hg' : Sized c d g' := hg.sized.move hm ha hc hd
    refine ⟨hg', fun ev hev => ?_⟩
    obtain ⟨evs, hlog, hall⟩ := hm.measured hg.sized hg'
    rw [hlog] at hev
    rcases List.mem_append.mp hev with hev | hev
    · exact hg.said ev hev
    · exact hall ev hev

theorem moderate_init (args : EngineArgs) (sched : ManualScheduler Callback) (rand : Nat)
    (hc : 1 ≤ args.sndMss) : Moderate args.sndMss d (init args sched rand) := by
  refine ⟨⟨rfl, ⟨hc, rfl⟩, fun hs => ?_, fun o ho => ?_⟩, fun ev hev => ?_⟩
  · have hs : ConnState.closed ∈ SyncStates := hs
    exact absurd hs (by decide)
  · exact absurd ho List.not_mem_nil
  · exact absurd hev List.not_mem_nil

end TcpEngine

/-! ## Two engines -/

namespace Session

open TcpEngine (Moderate Proposes)

variable {s s' src dst : Session} {act : Action} {c d : Nat}

/-- What arrives from an engine configured with `d` offers an MSS with its SYN. -/
theorem Valid.proposes (h : src.Valid) (hm : Moderate d c src.eng) (hc : Network.Carried src act) :
    Proposes c d act := by
  rintro seg ⟨data, s, rfl, hp, rfl | rfl⟩ hsyn
  · rcases h.read hc hp with ⟨-, hs, -⟩ | ⟨t, ht, rfl⟩
    · rw [hs] at hsyn
      cases hsyn
    · exact (hm.said _ ht t rfl).2 hsyn
  · have hno : s.synTaken.syn = false := rfl
    rw [hno] at hsyn
    cases hsyn

theorem step_moderate (hs : s.Sound) (hm : Moderate c d s.eng) (ha : Proposes c d act) (hc : 1 ≤ c)
    (hd : 1 ≤ d) (hstep : connectionMachine.step s act = some s') : Moderate c d s'.eng := by
  obtain ⟨-, e', he, rfl⟩ := step_cases hstep
  exact TcpEngine.step_moderate hs.kept.ready ha hc hd hm he

end Session

namespace Network

open TcpEngine (Moderate SyncStates)

variable {n : Network}

/-- Two engines, configured with `c` and `d`, that keep to the size agreed on. -/
structure Frugal (c d : Nat) (n : Network) : Prop where
  good : n.Good
  a : Moderate c d n.a.eng
  b : Moderate d c n.b.eng

/-- An engine is synchronized with the smaller of the two MSS, and has never transmitted more
text at once. -/
structure Agrees (c d : Nat) (s : Session) : Prop where
  mss : s.eng.tcb.state ∈ SyncStates → s.eng.tcb.sndMss = min c d
  text : ∀ seg, .tx seg ∈ s.eng.env.log → seg.payload.length ≤ min c d

theorem frugal_preserves {c d : Nat} (hc : 1 ≤ c) (hd : 1 ≤ d) :
    networkMachine.Preserves Bounded (Frugal c d) := by
  rintro n ⟨side, act⟩ n' h hb hs
  have hgood : n'.Good := good_preserves n (side, act) n' h.good hb hs
  simp only [networkMachine] at hs
  split_ifs at hs with hcar
  obtain ⟨s, hstep, rfl⟩ := Option.map_eq_some_iff.mp hs
  cases side with
  | a =>
    have hoff := h.good.b.proposes h.b hcar
    exact ⟨hgood, Session.step_moderate h.good.a.sound h.a hoff hc hd hstep, h.b⟩
  | b =>
    have hoff := h.good.a.proposes h.a hcar
    exact ⟨hgood, h.a, Session.step_moderate h.good.b.sound h.b hoff hd hc hstep⟩

theorem agrees {c d : Nat} {s : Session} (h : Moderate c d s.eng) : Agrees c d s :=
  ⟨h.sized.agreed, fun seg hs => (h.said _ hs seg rfl).1⟩

end Network

/-- Whatever the network does to what it is given: both engines settle on the smaller MSS, and
neither transmits more text than that at once. -/
theorem mss_agreed (a b : EngineArgs) (schedA schedB : ManualScheduler Callback)
    (randA randB : Nat) (hsa : schedA.heap = []) (hsb : schedB.heap = []) (hma : 1 ≤ a.sndMss)
    (hmb : 1 ≤ b.sndMss) (ms : List (Side × Action))
    (hC : networkMachine.AllSteps Network.Bounded (.start a b schedA schedB randA randB) ms) :
    networkMachine.Throughout
      (fun n => Network.Agrees a.sndMss b.sndMss n.a ∧ Network.Agrees b.sndMss a.sndMss n.b)
      (.start a b schedA schedB randA randB) ms := by
  refine ((Network.frugal_preserves hma hmb).throughout ⟨?_, ?_, ?_⟩ hC).mono
    fun _ h => ⟨Network.agrees h.a, Network.agrees h.b⟩
  · exact Network.good_start a b schedA schedB randA randB hsa hsb hma hmb
  · exact TcpEngine.moderate_init a schedA randA hma
  · exact TcpEngine.moderate_init b schedB randB hmb

/-- The client takes two octets at a time and says so with its SYN. -/
def smallRun : List (Side × Action) :=
  [(.b, .passiveOpen), (.a, .activeOpen),
    (.b,
      .segment [3, 232, 0, 80, 0, 0, 0, 100, 0, 0, 0, 0, 96, 2, 255, 255, 0, 0, 0, 0, 2, 4, 0, 2]),
    (.a, .segment
      [0, 80, 3, 232, 0, 0, 1, 244, 0, 0, 0, 101, 96, 18, 255, 255, 0, 0, 0, 0, 2, 4, 0, 2]),
    (.b, .segment [3, 232, 0, 80, 0, 0, 0, 101, 0, 0, 1, 245, 80, 16, 255, 255, 0, 0, 0, 0]),
    (.b, .send [7, 8, 9] true false none)]

/-- The server, configured with 1460, sends three octets in two segments. -/
theorem small_run_agreed : networkMachine.Throughout
      (fun n => Network.Agrees 2 1460 n.a ∧ Network.Agrees 1460 2 n.b)
      (.start { clientArgs with sndMss := 2 } serverArgs {} {} 0 0) smallRun ∧
    ∃ n, networkMachine.run (.start { clientArgs with sndMss := 2 } serverArgs {} {} 0 0) smallRun =
        some n ∧ n.b.eng.tcb.sndMss = 2 ∧
        n.b.eng.buf.retx.map Outgoing.payload = [[7, 8], [9]] := by
  constructor
  · exact mss_agreed { clientArgs with sndMss := 2 } serverArgs {} {} 0 0 rfl rfl (by decide)
      (by decide) smallRun (by decide +kernel)
  · have h : ((networkMachine.run (.start { clientArgs with sndMss := 2 } serverArgs {} {} 0 0)
        smallRun).map fun n => (n.b.eng.tcb.sndMss, n.b.eng.buf.retx.map Outgoing.payload)) =
          some (2, [[7, 8], [9]]) := by
      decide +kernel
    obtain ⟨n, hn, hv⟩ := Option.map_eq_some_iff.mp h
    simp only [Prod.mk.injEq] at hv
    exact ⟨n, hn, hv⟩

end HdlPlayground.Tcp

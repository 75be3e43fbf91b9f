import HdlPlayground.Tcp.FlowControl
import HdlPlayground.Tcp.Stalls

/-!
# Consecutive timeouts

`_rto_count` and the retransmission timer belong to what is on the queue: a move keeps
the count, or resets it to zero, or is an expiry that retransmits the head. With nothing on
the queue the timer is off and the count is zero. So when the engine gives up, every
expiry it has counted came after SND.UNA last moved and after the queue was last empty.
-/
namespace HdlPlayground.Tcp

namespace TcpEngine

open EngineTimers

variable {a : Action} {e e' f g : TcpEngine}

/-! ## What each method does to the count -/

@[simp] theorem restartKeepalive_rtoCount (b : Bool) :
    (e.restartKeepalive b).tm.rtoCount = e.tm.rtoCount := by
  unfold restartKeepalive
  split
  · rfl
  · dsimp only
    split <;> rfl

@[simp] theorem setState_rtoCount (st : ConnState) :
    (e.setState st).tm.rtoCount = e.tm.rtoCount := by
  simp only [setState]
  split_ifs <;> simp [emit, withState, cancelKeepalive]

@[simp] theorem armPersist_rtoCount : e.armPersist.tm.rtoCount = e.tm.rtoCount := by
  unfold armPersist
  split
  · split <;> rfl
  · rfl

@[simp] theorem armPersist_rtTimer : e.armPersist.tm.rtTimer = e.tm.rtTimer := by
  unfold armPersist
  split
  · split <;> rfl
  · rfl

@[simp] theorem armRt_rtoCount : e.armRt.tm.rtoCount = e.tm.rtoCount := by
  unfold armRt
  split
  · rfl
  · split
    · split <;> rfl
    · rfl

@[simp] theorem queueAndSend_rtoCount (flags : Flags) (payload : List UInt8) (m : Bool)
    (urg : Nat) : (e.queueAndSend flags payload m urg).tm.rtoCount = e.tm.rtoCount := by
  obtain h | ⟨-, -, h⟩ := e.queueAndSend_cases flags payload m urg
  · rw [h, armRt_rtoCount]
    rfl
  · rw [h]
    rfl

@[simp] theorem queueChunk_rtoCount (n : Nat) :
    (e.queueChunk n).tm.rtoCount = e.tm.rtoCount :=
  queueAndSend_rtoCount (e := e.takeChunk n) _ _ _ _

@[simp] theorem sendFin_rtoCount : e.sendFin.tm.rtoCount = e.tm.rtoCount := by
  obtain ⟨st, h, -⟩ := sendFin_cases (e := e)
  rw [h, setState_rtoCount]
  exact queueAndSend_rtoCount (e := { e with fin := { e.fin with finSeq := e.tcb.sndNxt } }) _ _ _ _

@[simp] theorem clearAckTimer_rtoCount : e.clearAckTimer.tm.rtoCount = e.tm.rtoCount := rfl
@[simp] theorem clearAckTimer_rtTimer : e.clearAckTimer.tm.rtTimer = e.tm.rtTimer := rfl

@[simp] theorem sendAck_rtoCount : e.sendAck.tm.rtoCount = e.tm.rtoCount := by
  rw [sendAck_tm]
  rfl

@[simp] theorem sendAck_rtTimer : e.sendAck.tm.rtTimer = e.tm.rtTimer := by
  rw [sendAck_tm]
  rfl

theorem scheduleAck_timeouts (force : Bool) : (e.scheduleAck force).tm.rtoCount = e.tm.rtoCount ∧
    (e.scheduleAck force).tm.rtTimer = e.tm.rtTimer := by
  obtain ⟨n, h⟩ | ⟨d, n, -, -, -, h⟩ | ⟨-, -, n, h⟩ := e.scheduleAck_cases force
  · rw [h, sendAck_rtoCount, sendAck_rtTimer]
    exact ⟨rfl, rfl⟩
  · rw [h]
    exact ⟨rfl, rfl⟩
  · rw [h]
    exact ⟨rfl, rfl⟩

theorem retransmitHead_rtoCount (o : Outgoing) (rest : List Outgoing) :
    (e.retransmitHead o rest).tm.rtoCount = e.tm.rtoCount := by
  obtain h | ⟨-, -, h⟩ := retransmitHead_cases (e := e) o rest <;> rw [h] <;> rfl

/-- An acknowledgement resets the count, and stops the timer of a queue it empties. -/
theorem processAck_reset (ack : Int) : (e.processAck ack).tm.rtoCount = 0 ∧
    ((e.processAck ack).buf.retx = [] → (e.processAck ack).tm.rtTimer = none) := by
  simp only [processAck]
  split
  · exact ⟨rfl, fun _ => rfl⟩
  · next h =>
    refine ⟨?_, fun hq => absurd ?_ h⟩
    · unfold restartRt
      dsimp only
      split <;> rfl
    · unfold restartRt at hq
      dsimp only at hq
      split at hq
      · assumption
      · exact hq

/-- Closing stops the timer and drops the queue. -/
theorem enterClosed_reset (hb : e.Blocked) (ht : e.tm.Timely) :
    e.enterClosed.tm.rtoCount = 0 ∧ e.enterClosed.tm.rtTimer = none := by
  refine ⟨?_, (enterClosed_slots hb ht).2.1 .onRto (by simp)⟩
  have hd (f : TcpEngine) : f.shutDown.tm.rtoCount = f.tm.rtoCount := by
    show (setState f.cancelKeepalive.cancelTwTimer.cancelAckTimer.resetBuffers
      .closed).tm.rtoCount = _
    rw [setState_rtoCount]
    rfl
  rw [enterClosed_of_blocked hb]
  split
  · rw [hd, armPersist_rtoCount]
    rfl
  · rw [hd]
    rfl

theorem giveUp_reset (msg : String) (hb : e.Blocked) (ht : e.tm.Timely) :
    (e.giveUp msg).tm.rtoCount = 0 ∧ (e.giveUp msg).tm.rtTimer = none := by
  obtain ⟨f, hf, hfb, h⟩ := giveUp_closes msg hb
  rw [h]
  apply enterClosed_reset hfb
  obtain rfl | rfl := hf
  · exact ht
  · simpa using ht

/-! ## What a move does to it -/

/-- A move keeps the count, or resets it, or counts an expiry. -/
inductive Counts (a : Action) (e f : TcpEngine) : Prop
  | kept : f.tm.rtoCount = e.tm.rtoCount →
      (f.buf.retx = [] → e.buf.retx = [] ∧ (f.tm.rtTimer = e.tm.rtTimer ∨ f.tm.rtTimer = none)) →
      (f.tcb.sndUna = e.tcb.sndUna ∨ e.Outside) → (f.Outside → e.Outside) → Counts a e f
  | reset : f.tm.rtoCount = 0 → (f.buf.retx = [] → f.tm.rtTimer = none) → Counts a e f
  | counted (h : TimerHandle Callback) : a = .expire h → h.cb = .onRto → f.buf.retx ≠ [] →
      Counts a e f

theorem Counts.still (hc : f.tm.rtoCount = e.tm.rtoCount) (ht : f.tm.rtTimer = e.tm.rtTimer)
    (hq : f.buf.retx = e.buf.retx) (hu : f.tcb.sndUna = e.tcb.sndUna)
    (hs : f.tcb.state = e.tcb.state) : Counts a e f :=
  .kept hc (fun h => ⟨hq ▸ h, Or.inl ht⟩) (Or.inl hu) fun ho => by rwa [Outside, hs] at ho

/-- Something is queued. -/
theorem Counts.queued (hc : f.tm.rtoCount = e.tm.rtoCount) (hq : f.buf.retx ≠ [])
    (hu : f.tcb.sndUna = e.tcb.sndUna ∨ e.Outside) (hs : f.Outside → e.Outside) :
    Counts a e f :=
  .kept hc (fun h => absurd h hq) hu hs

theorem Counts.closed (hb : e.Blocked) (ht : e.tm.Timely) : Counts a f e.enterClosed :=
  .reset (enterClosed_reset hb ht).1 fun _ => (enterClosed_reset hb ht).2

theorem Counts.gaveUp (msg : String) (hb : e.Blocked) (ht : e.tm.Timely) :
    Counts a f (e.giveUp msg) :=
  .reset (giveUp_reset msg hb ht).1 fun _ => (giveUp_reset msg hb ht).2

theorem Counts.received (hf : RecvFrame e f) (ht : f.tm = e.tm) : Counts a e f := by
  obtain ⟨r, u, htcb⟩ := hf.tcb
  exact .still (by rw [ht]) (by rw [ht]) hf.retx (by rw [htcb]) hf.state

/-- A SYN that is taken with an acknowledgement resets the count. -/
theorem takeSyn_counts (seg : TcpSegment)
    (hc : f.tm.rtoCount = (e.takeSyn seg).tm.rtoCount)
    (ht : f.tm.rtTimer = (e.takeSyn seg).tm.rtTimer)
    (hq : f.buf.retx = [] ↔ (e.takeSyn seg).buf.retx = [])
    (hu : f.tcb.sndUna = (e.takeSyn seg).tcb.sndUna) (ho : ¬ f.Outside) : Counts a e f := by
  obtain ⟨m, -, -, hm⟩ := takeSyn_cases (e := e) seg
  rw [hm] at hc ht hq hu
  dsimp only at hc ht hq hu
  split at hc
  · next ha =>
    rw [if_pos ha] at ht hq hu
    refine .reset ?_ fun h => ?_
    · exact hc.trans (processAck_reset seg.ack).1
    · exact ht.trans ((processAck_reset seg.ack).2 (hq.mp h))
  · next ha =>
    rw [if_neg ha] at ht hq hu
    exact .kept hc (fun h => ⟨hq.mp h, Or.inl ht⟩) (Or.inl hu) fun h => absurd h ho

theorem Move.counts (hm : Move a e f) (ht : e.TimerInv) : Counts a e f := by
  cases hm with
  | connect ho _ =>
    have hout : e.Outside := by
      rcases ho with ⟨hs, -⟩ | hs <;> simp [Outside, hs]
    rw [connect_eq (ho.imp And.left id)]
    refine .queued ?_ ?_ (Or.inr hout) fun _ => hout
    · rw [queueAndSend_rtoCount]
      rfl
    · simp
  | startListening hs _ =>
    refine .kept (by simp [TcpEngine.startListening]) ?_
      (Or.inl (by simp [TcpEngine.startListening]))
      fun _ => by simp [Outside, hs]
    intro h
    refine ⟨by simpa [TcpEngine.startListening] using h, Or.inl ?_⟩
    simp [TcpEngine.startListening]
  | fire g hl hcb =>
    refine .kept (by simp) (fun h => ⟨by simpa using h, ?_⟩) (Or.inl (by simp)) (by simp [Outside])
    by_cases hg : g.cb = .onRto
    · exact Or.inr (fire_rtTimer hg)
    · exact Or.inl ((fire_retimes hl).other ht.timely .onRto (by simpa using Ne.symm hg))
  | retransmit g o rest hl hcb hq ha => exact .counted g ha hcb (by simp)
  | scheduleAck force _ =>
    obtain ⟨hc, hr⟩ := scheduleAck_timeouts (e := e) force
    exact .still hc hr (by simp) (by simp) (by simp)
  | sendSynAck =>
    exact .still (by simp [TcpEngine.sendSynAck]) (by simp [TcpEngine.sendSynAck])
      (by simp [TcpEngine.sendSynAck]) (by simp [TcpEngine.sendSynAck])
      (by simp [TcpEngine.sendSynAck])
  | sendKeepaliveProbe =>
    exact .still (by simp [TcpEngine.sendKeepaliveProbe]) (by simp [TcpEngine.sendKeepaliveProbe])
      (by simp [TcpEngine.sendKeepaliveProbe]) (by simp [TcpEngine.sendKeepaliveProbe])
      (by simp [TcpEngine.sendKeepaliveProbe])
  | sendChunk =>
    exact .queued (by simp) (by simp [queueChunk]) (Or.inl (by simp [queueChunk]))
      (by simp [Outside])
  | sendFin hc =>
    obtain ⟨st, htcb, hst⟩ := sendFin_tcb (e := e)
    refine .queued (by simp) (by simp) (Or.inl (by rw [htcb])) fun ho => ?_
    rw [Outside, htcb] at ho
    rcases hst with ⟨-, rfl⟩ | ⟨-, rfl⟩ | ⟨-, rfl⟩ | ⟨-, rfl⟩
    · simp at ho
    · simp at ho
    · simp at ho
    · exact ho
  | probe g _ hl hcb =>
    refine .queued ?_ (by simp [TcpEngine.sendProbe]) (Or.inl (by simp [TcpEngine.sendProbe]))
      (by simp [Outside, TcpEngine.sendProbe])
    show (e.fire g).sendProbe.tm.rtoCount = _
    rw [TcpEngine.sendProbe, queueAndSend_rtoCount]
    exact fire_rtoCount g
  | probeFin g _ hl hcb =>
    obtain ⟨st, htcb, hst⟩ := sendFin_tcb (e := e.fire g)
    have hun : (e.fire g).sendFin.rearmPersist.tcb.sndUna = e.tcb.sndUna := by
      rw [rearmPersist_tcb, htcb, fire_tcb]
    refine .queued ?_ (by simp) (Or.inl hun) fun ho => ?_
    · exact sendFin_rtoCount.trans (fire_rtoCount g)
    rw [Outside, rearmPersist_tcb, htcb] at ho
    rcases hst with ⟨-, rfl⟩ | ⟨-, rfl⟩ | ⟨-, rfl⟩ | ⟨-, rfl⟩
    · simp at ho
    · simp at ho
    · simp at ho
    · simpa [Outside] using ho
  | processAck seg => exact .reset (processAck_reset _).1 (processAck_reset _).2
  | acceptSyn seg _ hs =>
    have hout : e.Outside := by simp [Outside, hs]
    obtain ⟨m, -, -, hm⟩ := acceptSyn_eq (e := e) seg hs
    rw [hm]
    refine .queued ?_ (by simp) (Or.inr hout) fun _ => hout
    rw [queueAndSend_rtoCount]
    rfl
  | synEstablished seg _ hts =>
    exact takeSyn_counts seg (setState_rtoCount _) (setState_rtTimer _ _) (by simp)
      (by simp) (by simp [Outside])
  | synReceived seg _ hts =>
    refine takeSyn_counts seg (setState_rtoCount _) (setState_rtTimer _ _) ?_ ?_ ?_
    · simp [becomeSynReceived, ackHeadSyn_eq_nil]
    · simp [becomeSynReceived]
    · simp [becomeSynReceived, Outside]
  | storeSynData seg => exact .received (storeOoo_frame _ _ _ _) (storeOoo_tm _ _ _)
  | storeOoo seg n => exact .received (storeOoo_frame _ _ _ _) (storeOoo_tm _ _ _)
  | receive _ hr => exact .received hr.frame hr.tm
  | completeOpen seg _ hc =>
    have h := processAck_reset (e := e) seg.ack
    refine .reset ((setState_rtoCount _).trans h.1) fun hq => ?_
    exact (setState_rtTimer _ _).trans (h.2 (by simpa [openCompleted] using hq))
  | finAckedWait hs => exact .kept (by simp) (by simp) (Or.inl (by simp)) (by simp [Outside])
  | finAckedTimeWait hs =>
    rw [enterTimeWait_eq (by simp [CanSend, hs])]
    refine .reset ?_ fun _ => setState_rtTimer _ _
    exact setState_rtoCount (e := e.stopRt.dropPersistTimer) .timeWait
  | processFin hs =>
    have hout : ¬ e.Outside := by
      intro ho
      simp only [Outside, List.mem_cons, List.not_mem_nil, or_false] at ho
      rcases ho with ho | ho <;> simp [ho] at hs
    obtain ⟨st, hst, hf⟩ | ⟨hfw, hf⟩ := processFin_cases (e := e)
    · rw [hf]
      refine .kept (by simp) (fun h => ⟨by simpa using h, Or.inl (by simp)⟩) (Or.inl (by simp)) ?_
      rcases hst with ⟨-, rfl⟩ | ⟨-, rfl⟩ | ⟨-, rfl⟩
      · simp [Outside]
      · simp [Outside]
      · simp [Outside]
    · rw [hf]
      refine .reset ?_ fun _ => setState_rtTimer _ _
      exact setState_rtoCount (e := e.consumeFin.sendAck.stopRt.dropPersistTimer) .timeWait
  | listenAgain hs hp =>
    rw [doReset_listen hs hp]
    exact .reset rfl fun _ => rfl
  | close _ hb => exact .closed hb ht.timely
  | abort _ hb => exact .closed (sendRst_blocked hb) (by simpa using ht.timely)
  | giveUp msg _ hb => exact .gaveUp msg hb ht.timely
  | giveUpRto g c msg _ hl _ _ hb =>
    have h1 := (fire_retimes hl).timely ht.timely
    cases c with
    | true => exact .gaveUp msg ((hb.fire g).of_view rfl : (e.fire g).countRto.Blocked) h1
    | false => exact .gaveUp msg (hb.fire g) h1
  | timeWaitExpires g _ hl _ hb =>
    exact .closed (hb.fire g) ((fire_retimes hl).timely ht.timely)
  | _ =>
    exact .still (by first | rfl | simp) (by first | rfl | simp) (by first | rfl | simp)
      (by first | rfl | simp) (by first | rfl | simp)

/-! ## Nothing queued, nothing counted -/

/-- With nothing on the queue the timer is off and no timeout is counted. -/
structure Rested (e : TcpEngine) : Prop where
  timer : e.buf.retx = [] → e.tm.rtTimer = none
  count : e.buf.retx = [] → e.tm.rtoCount = 0

theorem Rested.after (h : e.Rested) (hc : Counts a e f) : f.Rested := by
  cases hc with
  | kept hn hq _ _ =>
    constructor
    · intro hf
      obtain ⟨he, ht | ht⟩ := hq hf
      · exact ht.trans (h.timer he)
      · exact ht
    · intro hf
      exact hn.trans (h.count (hq hf).1)
  | reset hn ht => exact ⟨ht, fun _ => hn⟩
  | counted _ _ _ hq => exact ⟨fun hf => absurd hf hq, fun hf => absurd hf hq⟩

theorem Rested.step (h : e.Rested) (hr : e.Ready) (ht : e.TimerInv)
    (hs : engineMachine.step e a = some e') : e'.Rested := by
  have hend := hr.step_preserves hs (P := fun f => f.TimerInv ∧ f.Rested) ?_ ?_
  · exact hend.2
  · obtain ⟨conf, psh, hb, -⟩ := begin_eq (e := e) a
    refine ⟨timerInv_begin ht, ?_⟩
    rw [hb]
    exact ⟨h.timer, h.count⟩
  · rintro f f' hm ⟨hf, hrest⟩
    exact ⟨hf.move hm, hrest.after (hm.counts hf)⟩

/-- What a step that is no expiry of the retransmission timer does to the count. -/
theorem step_counts (hr : e.Ready) (ht : e.TimerInv) (hs : engineMachine.step e a = some e')
    (hx : ∀ h, a = .expire h → h.cb ≠ .onRto) : e'.tm.rtoCount = 0 ∨
      (e'.tm.rtoCount = e.tm.rtoCount ∧ (e'.tcb.sndUna = e.tcb.sndUna ∨ e.Outside)) := by
  have hend := hr.step_preserves hs (P := fun f => f.TimerInv ∧ (f.tm.rtoCount = 0 ∨
    (f.tm.rtoCount = e.tm.rtoCount ∧ (f.tcb.sndUna = e.tcb.sndUna ∨ e.Outside) ∧
      (f.Outside → e.Outside)))) ?_ ?_
  · exact hend.2.imp_right fun h => ⟨h.1, h.2.1⟩
  · obtain ⟨conf, psh, hb, -⟩ := begin_eq (e := e) a
    refine ⟨timerInv_begin ht, Or.inr ?_⟩
    rw [hb]
    exact ⟨rfl, Or.inl rfl, id⟩
  · rintro f f' hm ⟨hf, hcount⟩
    refine ⟨hf.move hm, ?_⟩
    cases hm.counts hf with
    | kept hn _ hu ho =>
      rcases hcount with h0 | ⟨h1, h2, h3⟩
      · exact Or.inl (hn.trans h0)
      · refine Or.inr ⟨hn.trans h1, ?_, fun h => h3 (ho h)⟩
        rcases hu with hu | hout
        · rw [hu]
          exact h2
        · exact Or.inr (h3 hout)
    | reset hn _ => exact Or.inl hn
    | counted h ha hcb => exact absurd hcb (hx h ha)

end TcpEngine

/-! ## The tally of retransmissions -/

/-- The expiries since SND.UNA last advanced or the queue was last empty: how many sent the
head again, and how many raised because its segment could not be built. -/
structure Tally where
  resent : Nat := 0
  unbuilt : Nat := 0
deriving DecidableEq

/-- The retransmission timer expires. -/
def Action.TimesOut : Action → Bool
  | .expire h => h.cb = .onRto
  | _ => false

namespace TcpEngine

/-- The head of the queue has gone out in a step. -/
def resendsHead (e e' : TcpEngine) : Bool :=
  match e.buf.retx with
  | [] => false
  | o :: _ => (entered e e').any fun ev =>
    match ev with
    | .tx seg => seg.seq = o.seq && seg.flags = o.flags && seg.payload = o.payload
    | _ => false

/-- The queue is empty after the step, or SND.UNA has advanced in it. An open gives
SND.UNA a new value, which is no advance. -/
def Progress (e e' : TcpEngine) : Prop :=
  e'.buf.retx = [] ∨ (e'.tcb.sndUna ≠ e.tcb.sndUna ∧ ¬ e.Outside)

instance (e e' : TcpEngine) : Decidable (e.Progress e') :=
  inferInstanceAs (Decidable (_ ∨ _))

end TcpEngine

namespace Tally

open TcpEngine

def next (c : Tally) (e : TcpEngine) (a : Action) (e' : TcpEngine) : Tally :=
  if e.Progress e' then {}
  else if !a.TimesOut then c
  else if e.resendsHead e' then { c with resent := c.resent + 1 }
  else if e'.env.exc = some .structError then { c with unbuilt := c.unbuilt + 1 }
  else c

end Tally

/-- An engine with the tally of its retransmissions. -/
def tallyMachine : Lib.Machine (TcpEngine × Tally) Action where
  step s a := (engineMachine.step s.1 a).map fun e' => (e', s.2.next s.1 a e')

namespace TcpEngine

open EngineTimers

variable {a : Action} {e e' f g : TcpEngine}

/-- What the engine counts is on the tally. -/
structure Tallied (s : TcpEngine × Tally) : Prop where
  ready : s.1.Ready
  timers : s.1.TimerInv
  rested : s.1.Rested
  count : s.1.tm.rtoCount ≤ s.2.resent + s.2.unbuilt

/-- A retransmission of the head is on the tally. -/
theorem retransmitHead_tally (c : Tally) {h : TimerHandle Callback} {o : Outgoing}
    {rest : List Outgoing} (hcb : h.cb = .onRto) (hq : e.buf.retx = o :: rest)
    (he : e' = (e.enter.fire h).countRto.retransmitHead o rest) :
    c.next e (.expire h) e' = { c with resent := c.resent + 1 } ∨
      (65535 < e.tcb.sndMss ∧ c.next e (.expire h) e' = { c with unbuilt := c.unbuilt + 1 }) := by
  have hp : ¬ e.Progress e' := by
    rw [he]
    simp [Progress]
  have ht : Action.TimesOut (.expire h) = true := by simp [Action.TimesOut, hcb]
  rw [Tally.next, if_neg hp, if_neg (by simp [ht])]
  obtain hr | ⟨hsyn, hm, hr⟩ := retransmitHead_cases (e := (e.enter.fire h).countRto) o rest
  · have hlog : e'.env.log = e.env.log ++ [.tx
        ((((e.enter.fire h).countRto).markRetransmitted o rest).segmentFor o.seq o.flags o.payload
          o.flags.syn)] := by
      rw [he, hr]
      simp [startRt, emit, markRetransmitted, advertise, countRto, enter]
    have hres : e.resendsHead e' = true := by
      rw [resendsHead, hq]
      simp [entered, hlog, segmentFor]
    exact Or.inl (if_pos hres)
  · have hlog : e'.env.log = e.env.log := by
      rw [he, hr]
      simp [setExc, markRetransmitted, advertise, countRto, enter]
    have hexc : e'.env.exc = some .structError := by
      rw [he, hr]
      rfl
    have hres : e.resendsHead e' = false := by
      rw [resendsHead, hq]
      simp [entered, hlog]
    refine Or.inr ⟨by simpa using hm, ?_⟩
    rw [if_neg (by simp [hres]), if_pos hexc]

theorem giveUp_retx (msg : String) (hb : e.Blocked) : (e.giveUp msg).buf.retx = [] := by
  obtain ⟨f, -, hfb, h⟩ := giveUp_closes msg hb
  obtain ⟨tm, hc⟩ := enterClosed_closeDown hfb
  rw [h, hc]
  simp [closeDown]

/-- After an expiry the queue is empty, or its head has been retransmitted. -/
theorem step_timesOut {h : TimerHandle Callback} (hr : e.Ready) (hcb : h.cb = .onRto)
    (hs : engineMachine.step e (.expire h) = some e') : e'.buf.retx = [] ∨
      ∃ o rest, e.buf.retx = o :: rest ∧
        e' = (e.enter.fire h).countRto.retransmitHead o rest := by
  have hb : (e.enter.fire h).Blocked := (hr.drained.blocked.of_view rfl : e.enter.Blocked).fire h
  have hbc : (e.enter.fire h).countRto.Blocked := hb.of_view rfl
  rcases step_rto hcb hs with ⟨hq, he⟩ | ⟨o, rest, hq, ⟨-, he⟩ | ⟨-, -, he⟩ | ⟨-, -, he⟩⟩
  · apply Or.inl
    rw [he, fire_buf, enter_buf]
    exact hq
  · rw [he]
    exact Or.inl (giveUp_retx _ hb)
  · rw [he]
    exact Or.inl (giveUp_retx _ hbc)
  · exact Or.inr ⟨o, rest, hq, he⟩

theorem Tallied.step {s s' : TcpEngine × Tally} (h : Tallied s)
    (hs : tallyMachine.step s a = some s') : Tallied s' := by
  obtain ⟨e, c⟩ := s
  simp only [tallyMachine, Option.map_eq_some_iff] at hs
  obtain ⟨e', hstep, rfl⟩ := hs
  have hrest := h.rested.step h.ready h.timers hstep
  refine ⟨h.ready.step hstep, h.ready.timerInv_step h.timers hstep, hrest, ?_⟩
  have hcount := h.count
  dsimp only at hcount hrest ⊢
  by_cases hp : e.Progress e'
  · -- an advance or an empty queue resets both counts
    have h0 : e'.tm.rtoCount = 0 := by
      rcases hp with hq | ⟨hu, ho⟩
      · exact hrest.count hq
      · by_cases hx : ∃ g, a = .expire g ∧ g.cb = .onRto
        · obtain ⟨g, rfl, hcb⟩ := hx
          rcases step_timesOut h.ready hcb hstep with hq | ⟨o, rest, -, he⟩
          · exact hrest.count hq
          · exact absurd (by rw [he]; simp) hu
        · rcases step_counts h.ready h.timers hstep (fun g ha hcb => hx ⟨g, ha, hcb⟩)
            with h0 | ⟨-, h1 | h1⟩
          · exact h0
          · exact absurd h1 hu
          · exact absurd h1 ho
    omega
  · by_cases hx : ∃ g, a = .expire g ∧ g.cb = .onRto
    · obtain ⟨g, rfl, hcb⟩ := hx
      rcases step_timesOut h.ready hcb hstep with hq | ⟨o, rest, hq, he⟩
      · exact absurd (Or.inl hq) hp
      · have hn : e'.tm.rtoCount = e.tm.rtoCount + 1 := by
          rw [he, retransmitHead_rtoCount]
          simp [countRto]
        rcases retransmitHead_tally c hcb hq he with ht | ⟨-, ht⟩
        · rw [ht]
          dsimp only
          omega
        · rw [ht]
          dsimp only
          omega
    · have ht : a.TimesOut = false := by
        cases a with
        | expire g => simpa [Action.TimesOut] using fun hcb => hx ⟨g, rfl, hcb⟩
        | _ => rfl
      have hkeep : c.next e a e' = c := by
        rw [Tally.next, if_neg hp, if_pos (by simp [ht])]
      rw [hkeep]
      rcases step_counts h.ready h.timers hstep (fun g ha hcb => hx ⟨g, ha, hcb⟩) with h0 | ⟨h1, -⟩
      · omega
      · rw [h1]
        exact hcount

/-- No expiry fails to send the head where every MSS fits its option. -/
theorem unbuilt_step {s s' : TcpEngine × Tally}
    (h : s.1.Kept ∧ s.1.conf.cfgMss ≤ 65535 ∧ s.2.unbuilt = 0)
    (hs : tallyMachine.step s a = some s') :
    s'.1.Kept ∧ s'.1.conf.cfgMss ≤ 65535 ∧ s'.2.unbuilt = 0 := by
  obtain ⟨e, c⟩ := s
  obtain ⟨hk, hcap, hc⟩ := h
  simp only [tallyMachine, Option.map_eq_some_iff] at hs
  obtain ⟨e', hstep, rfl⟩ := hs
  dsimp only at hk hcap hc ⊢
  refine ⟨hk.step hstep, ?_, ?_⟩
  · refine hk.ready.step_preserves hstep (P := fun f => f.conf.cfgMss ≤ 65535) ?_ ?_
    · obtain ⟨conf, psh, hb, hconf⟩ := begin_eq (e := e) a
      rw [hb]
      exact Nat.le_trans (Nat.le_of_eq hconf) hcap
    · intro f f' hm hf
      rw [hm.cfgMss]
      exact hf
  · by_cases hp : e.Progress e'
    · rw [Tally.next, if_pos hp]
    by_cases hx : ∃ g, a = .expire g ∧ g.cb = .onRto
    · obtain ⟨g, rfl, hcb⟩ := hx
      rcases step_timesOut hk.ready hcb hstep with hq | ⟨o, rest, hq, he⟩
      · exact absurd (Or.inl hq) hp
      · have hle := hk.mss.le
        rcases retransmitHead_tally c hcb hq he with ht | ⟨hm, -⟩
        · rw [ht]
          exact hc
        · omega
    · rw [Tally.next, if_neg hp, if_pos, hc]
      cases a with
      | expire g => simpa [Action.TimesOut] using fun hcb => hx ⟨g, rfl, hcb⟩
      | _ => rfl

theorem tallied_init (args : EngineArgs) (sched : ManualScheduler Callback) (rand : Nat)
    (hs : sched.heap = []) : Tallied (init args sched rand, {}) :=
  ⟨ready_init args sched rand, timerInv_init args sched rand hs, ⟨fun _ => rfl, fun _ => rfl⟩,
    Nat.zero_le _⟩

/-! ## Giving up -/

/-- Only an expiry of the retransmission timer reports its timeout. -/
theorem step_error (hr : e.Ready) (hs : engineMachine.step e a = some e')
    (hm : .error "retransmission timeout" ∈ entered e e') : ∃ h, a = .expire h ∧ h.cb = .onRto := by
  by_contra hx
  have hlogs : Logs (fun ev => ev ≠ .error "retransmission timeout") e e' := by
    refine hr.step_preserves hs (P := fun f =>
      Logs (fun ev => ev ≠ .error "retransmission timeout") e f) (.none (begin_log a)) ?_
    intro f f' hm hf
    apply hf.trans
    rcases hm.logs with hrec | hl
    · apply hrec.logs.mono
      rintro ev ⟨data, rfl⟩
      exact Event.noConfusion
    · apply hl.mono
      rintro ev hev rfl
      cases hev with
      | error _ h => exact hx (h rfl)
  exact hlogs.entered hm rfl

/-- The engine that gives up has counted more expiries than it allows itself. -/
theorem step_gives_up (hr : e.Ready) (hs : engineMachine.step e a = some e')
    (hm : .error "retransmission timeout" ∈ entered e e') :
    e.conf.cfg.maxRetransmits < e.tm.rtoCount + 1 := by
  obtain ⟨g, rfl, hcb⟩ := step_error hr hs hm
  have hb : e.enter.Blocked := hr.drained.blocked.of_view rfl
  have hne {f : TcpEngine} (hl : Logs (fun ev => ev ≠ .error "retransmission timeout") e f)
      (h : .error "retransmission timeout" ∈ entered e f) : False := hl.entered h rfl
  have hlog : (e.enter.fire g).env.log = e.env.log := by simp [enter]
  obtain ⟨-, rfl⟩ | ⟨o, rest, -, ⟨-, rfl⟩ | ⟨-, hmax, -⟩ | ⟨-, -, rfl⟩⟩ := step_rto hcb hs
  · exact (hne (.none hlog) hm).elim
  · refine (hne (Logs.trans (f := e.enter.fire g) (.none hlog) ?_) hm).elim
    exact giveUp_logs _ (hb.fire g) (by decide) (by simp) (by simp)
  · exact hmax
  · refine (hne (Logs.trans (f := (e.enter.fire g).countRto) (.none hlog) ?_) hm).elim
    exact retransmitHead_logs o rest (by simp)

end TcpEngine

end HdlPlayground.Tcp

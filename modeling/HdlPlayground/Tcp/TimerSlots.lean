import HdlPlayground.Tcp.Drains

/-!
# Timers and their slots

Every timer of an engine is armed, restarted and cancelled through a slot of its
own, so the live timers are those the slots name. `Retimes S` is what a method
may do to the timers if it goes through the slots in `S` only.
-/
namespace HdlPlayground.Tcp

namespace EngineTimers

/-- The slot of each kind of timer. -/
def slot (tm : EngineTimers) : Callback → Option Nat
  | .onRto => tm.rtTimer
  | .onPersist => tm.persistTimer
  | .onDelack => tm.ackTimer
  | .onTimeWait => tm.twTimer
  | .onKeepalive => tm.kaTimer

/-- The live timers are those the slots name. -/
def Timely (tm : EngineTimers) : Prop := tm.sched.Slots tm.slot

/-- The slots in `S` may change, and the live timers follow them. -/
structure Retimes (S : List Callback) (tm tm' : EngineTimers) : Prop where
  timely : tm.Timely → tm'.Timely
  other : tm.Timely → ∀ cb, cb ∉ S → tm'.slot cb = tm.slot cb
  now : tm'.sched.now = tm.sched.now

namespace Retimes

variable {S T : List Callback} {tm tm' tm'' : EngineTimers}

theorem same (hs : tm'.sched = tm.sched) (hl : tm'.slot = tm.slot) : Retimes S tm tm' :=
  ⟨fun h => by rwa [Timely, hs, hl], fun _ cb _ => by rw [hl], by rw [hs]⟩

theorem refl (tm : EngineTimers) : Retimes S tm tm := same rfl rfl

theorem trans (h : Retimes S tm tm') (h' : Retimes S tm' tm'') : Retimes S tm tm'' :=
  ⟨fun ht => h'.timely (h.timely ht),
    fun ht cb hcb => (h'.other (h.timely ht) cb hcb).trans (h.other ht cb hcb),
    h'.now.trans h.now⟩

theorem mono (h : Retimes S tm tm') (hS : S ⊆ T) : Retimes T tm tm' :=
  ⟨h.timely, fun ht cb hcb => h.other ht cb fun hm => hcb (hS hm), h.now⟩

/-- A slot is emptied and its timer cancelled. -/
theorem disarm (cb : Callback) (hs : tm'.sched = tm.sched.cancel (tm.slot cb))
    (hl : tm'.slot = Function.update tm.slot cb none) : Retimes [cb] tm tm' where
  timely ht := by
    rw [Timely, hs, hl]
    exact ht.cancel cb
  other _ c hc := by rw [hl, Function.update_of_ne (by simpa using hc)]
  now := by rw [hs]; simp

/-- An empty slot is filled with a new timer. -/
theorem arm (cb : Callback) (d : ℚ) (hn : tm.slot cb = none)
    (hs : tm'.sched = (tm.sched.callLater d cb).2)
    (hl : tm'.slot = Function.update tm.slot cb (some tm.sched.counter)) :
    Retimes [cb] tm tm' where
  timely ht := by
    rw [Timely, hs, hl]
    exact ht.callLater d hn
  other _ c hc := by rw [hl, Function.update_of_ne (by simpa using hc)]
  now := by rw [hs]; simp

end Retimes

theorem update_slot {tm tm' : EngineTimers} {cb : Callback} {v : Option Nat}
    (h : ∀ c, tm'.slot c = if c = cb then v else tm.slot c) :
    tm'.slot = Function.update tm.slot cb v := by
  funext c
  rw [h c, Function.update_apply]

end EngineTimers

namespace TcpEngine

open EngineTimers

variable {a : Action} {e e' : TcpEngine}

/-! ## What each method does to the timers -/

/-- Cancelling goes through the slot of the timer. -/
theorem stopRt_retimes (e : TcpEngine) : Retimes [.onRto] e.tm e.stopRt.tm :=
  .disarm .onRto rfl (update_slot fun c => by cases c <;> rfl)

theorem dropPersistTimer_retimes (e : TcpEngine) :
    Retimes [.onPersist] e.tm e.dropPersistTimer.tm :=
  .disarm .onPersist rfl (update_slot fun c => by cases c <;> rfl)

theorem cancelTwTimer_retimes (e : TcpEngine) : Retimes [.onTimeWait] e.tm e.cancelTwTimer.tm :=
  .disarm .onTimeWait rfl (update_slot fun c => by cases c <;> rfl)

theorem cancelAckTimer_retimes (e : TcpEngine) : Retimes [.onDelack] e.tm e.cancelAckTimer.tm :=
  .disarm .onDelack rfl (update_slot fun c => by cases c <;> rfl)

theorem clearAckTimer_retimes (e : TcpEngine) : Retimes [.onDelack] e.tm e.clearAckTimer.tm :=
  .disarm .onDelack rfl (update_slot fun c => by cases c <;> rfl)

theorem cancelKeepalive_retimes (e : TcpEngine) :
    Retimes [.onKeepalive] e.tm e.cancelKeepalive.tm :=
  .disarm .onKeepalive rfl (update_slot fun c => by cases c <;> rfl)

/-- A timer is started with its slot empty, or else the old one would run on beside it. -/
theorem startRt_retimes (h : e.tm.rtTimer = none) : Retimes [.onRto] e.tm e.startRt.tm :=
  .arm .onRto _ h rfl (update_slot fun c => by cases c <;> rfl)

/-- Arming looks at the slot first. -/
theorem armRt_retimes (ht : e.tm.Timely) : Retimes [.onRto] e.tm e.armRt.tm := by
  unfold armRt
  split
  · exact .refl _
  · split
    · next i hi =>
      have := ht.isCancelled_eq .onRto hi
      rw [if_pos (by simp [this])]
      exact .refl _
    · next hn => exact startRt_retimes hn

/-- A restart empties the slot and fills it again. -/
theorem restartRt_retimes (e : TcpEngine) : Retimes [.onRto] e.tm e.restartRt.tm := by
  have h1 : Retimes [.onRto] e.tm
      { e.tm with sched := e.tm.sched.cancel e.tm.rtTimer, rtTimer := none } :=
    .disarm .onRto rfl (update_slot fun c => by cases c <;> rfl)
  unfold restartRt
  dsimp only
  split
  · exact h1
  · exact h1.trans (startRt_retimes (e := { e with tm := _ }) rfl)

theorem armPersist_retimes (ht : e.tm.Timely) : Retimes [.onPersist] e.tm e.armPersist.tm := by
  unfold armPersist
  split
  · next i hi =>
    have := ht.isCancelled_eq .onPersist hi
    rw [if_pos (by simp [this])]
    exact .refl _
  · next hn => exact .arm .onPersist _ hn rfl (update_slot fun c => by cases c <;> rfl)

theorem rearmPersist_retimes (h : e.tm.persistTimer = none) :
    Retimes [.onPersist] e.tm e.rearmPersist.tm :=
  .arm .onPersist _ h rfl (update_slot fun c => by cases c <;> rfl)

theorem armTwTimer_retimes (h : e.tm.twTimer = none) :
    Retimes [.onTimeWait] e.tm e.armTwTimer.tm :=
  .arm .onTimeWait _ h rfl (update_slot fun c => by cases c <;> rfl)

theorem restartTimeWait_retimes (e : TcpEngine) :
    Retimes [.onTimeWait] e.tm e.restartTimeWait.tm := by
  have h1 := cancelTwTimer_retimes e
  have h2 := armTwTimer_retimes (e := e.cancelTwTimer) rfl
  have h3 := h1.trans h2
  exact h3.trans (.same rfl rfl)

/-- The keepalive timer is restarted whenever the peer is heard. -/
theorem restartKeepalive_retimes (e : TcpEngine) (b : Bool) :
    Retimes [.onKeepalive] e.tm (e.restartKeepalive b).tm := by
  unfold restartKeepalive
  split
  · exact .refl _
  · dsimp only
    have h1 (n : Nat) : Retimes [.onKeepalive] e.tm { e.tm with
        kaProbes := n, sched := e.tm.sched.cancel e.tm.kaTimer, kaTimer := none } :=
      .disarm .onKeepalive rfl (update_slot fun c => by cases c <;> rfl)
    split
    · exact h1 _
    · exact (h1 (if b = true then 0 else e.tm.kaProbes)).trans
        (.arm .onKeepalive _ rfl rfl (update_slot fun c => by cases c <;> rfl))

/-- A state change is one for the keepalive timer only. -/
theorem setState_retimes (e : TcpEngine) (st : ConnState) :
    Retimes [.onKeepalive] e.tm (e.setState st).tm := by
  simp only [setState]
  split_ifs
  · exact .refl _
  · exact restartKeepalive_retimes (e.withState st) true
  · exact cancelKeepalive_retimes (e.withState st)
  · exact .refl _

/-- Whatever is queued is timed. -/
theorem queueAndSend_retimes (ht : e.tm.Timely) (flags : Flags) (payload : List UInt8) (m : Bool)
    (urg : Nat) : Retimes [.onRto] e.tm (e.queueAndSend flags payload m urg).tm := by
  obtain h | ⟨-, -, h⟩ := e.queueAndSend_cases flags payload m urg
  · rw [h]
    have h0 : (e.advertise.enqueue flags payload).tm = e.tm := rfl
    exact armRt_retimes (e := (e.advertise.enqueue flags payload).emit _) ht
  · rw [h]
    exact .refl _

/-- A delayed ACK has the delayed-ACK timer. -/
theorem scheduleAck_retimes (e : TcpEngine) (force : Bool) :
    Retimes [.onDelack] e.tm (e.scheduleAck force).tm := by
  obtain ⟨n, h⟩ | ⟨d, n, -, -, hn, h⟩ | ⟨-, -, n, h⟩ := e.scheduleAck_cases force
  · rw [h, sendAck_tm]
    have h1 : Retimes [.onDelack] e.tm { e.tm with ackCount := n } := .same rfl rfl
    exact h1.trans (clearAckTimer_retimes { e with tm := { e.tm with ackCount := n } })
  · rw [h]
    exact .arm .onDelack _ hn rfl (update_slot fun c => by cases c <;> rfl)
  · rw [h]
    exact .same rfl rfl

/-- An acknowledgement restarts or stops the retransmission timer. -/
theorem processAck_retimes (e : TcpEngine) (ack : Int) :
    Retimes [.onRto] e.tm (e.processAck ack).tm := by
  have h0 {f : TcpEngine} (hf : f.tm = { e.tm with rtoCount := 0 }) : Retimes [.onRto] e.tm f.tm :=
    .same (by rw [hf]) (by rw [hf]; rfl)
  simp only [processAck]
  split
  · exact (h0 (by simp)).trans (stopRt_retimes _)
  · exact (h0 (by simp)).trans (restartRt_retimes _)

theorem retransmitHead_retimes (o : Outgoing) (rest : List Outgoing) (h : e.tm.rtTimer = none) :
    Retimes [.onRto] e.tm (e.retransmitHead o rest).tm := by
  obtain hr | ⟨-, -, hr⟩ := retransmitHead_cases (e := e) o rest
  · rw [hr]
    exact startRt_retimes (e := ((e.markRetransmitted o rest).advertise.emit _)) h
  · rw [hr]
    exact .refl _

/-- Firing empties the slot of the timer that fires. -/
theorem fire_retimes {h : TimerHandle Callback} (hl : h ∈ e.tm.sched.live) :
    Retimes [h.cb] e.tm (e.fire h).tm := by
  have hsched : (e.fire h).tm.sched = e.tm.sched.pop h.id := by
    unfold fire
    cases h.cb <;> rfl
  have hslot : (e.fire h).tm.slot = Function.update e.tm.slot h.cb none := by
    refine update_slot fun c => ?_
    unfold fire
    cases h.cb <;> cases c <;> rfl
  refine ⟨fun ht => ?_, fun _ c hc => ?_, ?_⟩
  · rw [Timely, hsched, hslot]
    exact ht.pop hl
  · rw [hslot, Function.update_of_ne (by simpa using hc)]
  · rw [hsched]
    rfl

/-- A timer that has fired leaves its slot. -/
theorem fire_slot {h : TimerHandle Callback} : (e.fire h).tm.slot h.cb = none := by
  unfold fire
  cases h.cb <;> rfl

theorem fire_rtTimer {h : TimerHandle Callback} (hcb : h.cb = .onRto) :
    (e.fire h).tm.rtTimer = none := by
  have hs := fire_slot (e := e) (h := h)
  rwa [hcb] at hs

theorem fire_persistTimer {h : TimerHandle Callback} (hcb : h.cb = .onPersist) :
    (e.fire h).tm.persistTimer = none := by
  have hs := fire_slot (e := e) (h := h)
  rwa [hcb] at hs

theorem sendFin_retimes (ht : e.tm.Timely) : Retimes [.onRto, .onKeepalive] e.tm e.sendFin.tm := by
  obtain ⟨st, h, -⟩ := sendFin_cases (e := e)
  have h1 : Retimes [.onRto] e.tm e.finQueued.tm := queueAndSend_retimes
    (e := { e with fin := { e.fin with finSeq := e.tcb.sndNxt } }) ht _ _ _ _
  rw [h]
  exact (h1.mono (by simp)).trans ((setState_retimes e.finQueued st).mono (by simp))

/-- On the way to TIME-WAIT all timers but the delayed-ACK timer may change. -/
theorem enterTimeWait_retimes (hc : ¬ e.CanSend) (htw : e.tm.twTimer = none) (ht : e.tm.Timely) :
    Retimes [.onRto, .onPersist, .onKeepalive, .onTimeWait] e.tm e.enterTimeWait.tm := by
  rw [enterTimeWait_eq hc]
  have h1 := ((stopRt_retimes e).mono (T := [.onRto, .onPersist, .onKeepalive]) (by simp)).trans
    (((dropPersistTimer_retimes e.stopRt).mono (by simp)).trans
    ((setState_retimes e.stopRt.dropPersistTimer .timeWait).mono (by simp)))
  have h2 : (e.stopRt.dropPersistTimer.setState .timeWait).tm.twTimer = none := by
    have := h1.other ht .onTimeWait (by simp)
    exact this.trans htw
  exact (h1.mono (by simp)).trans ((armTwTimer_retimes h2).mono (by simp))

/-! ## Closing -/

private theorem shutDown_slots (ht : e.tm.Timely) (hrt : e.tm.rtTimer = none) :
    e.shutDown.tm.Timely ∧ e.shutDown.tm.persistTimer = e.tm.persistTimer ∧
      ∀ cb, cb ≠ .onPersist → e.shutDown.tm.slot cb = none := by
  have h1 := cancelKeepalive_retimes e
  have h2 := cancelTwTimer_retimes e.cancelKeepalive
  have h3 := cancelAckTimer_retimes e.cancelKeepalive.cancelTwTimer
  have h4 : Retimes [.onKeepalive] e.cancelKeepalive.cancelTwTimer.cancelAckTimer.tm
      e.shutDown.tm :=
    setState_retimes e.cancelKeepalive.cancelTwTimer.cancelAckTimer.resetBuffers .closed
  have ht3 := h3.timely (h2.timely (h1.timely ht))
  have hka : e.shutDown.tm.kaTimer = none := by
    show (setState e.cancelKeepalive.cancelTwTimer.cancelAckTimer.resetBuffers
      .closed).tm.kaTimer = none
    simp only [setState]
    split_ifs <;> first | contradiction | rfl
  have hp : e.shutDown.tm.slot .onPersist = e.tm.slot .onPersist :=
    h4.other ht3 .onPersist (by simp)
  refine ⟨h4.timely ht3, hp, fun cb hcb => ?_⟩
  cases cb with
  | onRto => exact (h4.other ht3 .onRto (by simp)).trans hrt
  | onPersist => exact absurd rfl hcb
  | onDelack => exact h4.other ht3 .onDelack (by simp)
  | onTimeWait => exact h4.other ht3 .onTimeWait (by simp)
  | onKeepalive => exact hka

/-- After `_enter_closed` every slot is empty, but for the persist timer of an
engine that had something stuck. -/
theorem enterClosed_slots (hb : e.Blocked) (ht : e.tm.Timely) :
    e.enterClosed.tm.Timely ∧ (∀ cb, cb ≠ .onPersist → e.enterClosed.tm.slot cb = none) ∧
      (e.enterClosed.tm.persistTimer = none ↔ ¬ e.Stuck) := by
  have h1 := stopRt_retimes e
  have h2 := dropPersistTimer_retimes e.stopRt
  have ht2 := h2.timely (h1.timely ht)
  rw [enterClosed_of_blocked hb]
  split
  · next hst =>
    have h3 := armPersist_retimes ht2
    have hrt : e.stopRt.dropPersistTimer.armPersist.tm.rtTimer = none :=
      h3.other ht2 .onRto (by simp)
    obtain ⟨k1, k2, k3⟩ := shutDown_slots (h3.timely ht2) hrt
    refine ⟨k1, k3, ?_⟩
    rw [k2]
    simp [hst, armPersist, dropPersistTimer]
  · next hst =>
    obtain ⟨k1, k2, k3⟩ := shutDown_slots (e := e.stopRt.dropPersistTimer) ht2 rfl
    refine ⟨k1, k3, ?_⟩
    rw [k2]
    simp [hst, dropPersistTimer]

/-! ## The invariant -/

structure TimerInv (e : TcpEngine) : Prop where
  timely : e.tm.Timely
  timeWait : e.tm.twTimer ≠ none → e.tcb.state = .timeWait

/-- A method that leaves TIME-WAIT and its timer alone. -/
theorem TimerInv.of_retimes {S : List Callback} (h : e.TimerInv) (hr : Retimes S e.tm e'.tm)
    (hS : .onTimeWait ∉ S) (hs : e.tcb.state = .timeWait → e'.tcb.state = .timeWait) :
    e'.TimerInv := by
  refine ⟨hr.timely h.timely, fun htw => hs (h.timeWait ?_)⟩
  have : e'.tm.twTimer = e.tm.twTimer := hr.other h.timely .onTimeWait hS
  rwa [← this]

/-- The invariant is about the timers and the state only. -/
theorem TimerInv.same (h : e.TimerInv) (ht : e'.tm = e.tm) (hs : e'.tcb.state = e.tcb.state) :
    e'.TimerInv :=
  h.of_retimes (S := []) (.same (by rw [ht]) (by rw [ht])) (by simp) fun hst => hs.trans hst

/-- A connection that is closed has no 2*MSL timer. -/
theorem TimerInv.closed (ht : e.tm.Timely) (hb : e.Blocked) : e.enterClosed.TimerInv := by
  obtain ⟨k1, k2, -⟩ := enterClosed_slots hb ht
  exact ⟨k1, fun htw => absurd (k2 .onTimeWait (by simp)) htw⟩

theorem giveUp_timers (msg : String) (hb : e.Blocked) (ht : e.tm.Timely) :
    (e.giveUp msg).TimerInv := by
  obtain ⟨f, hf, hfb, h⟩ := giveUp_closes msg hb
  rw [h]
  refine .closed ?_ hfb
  obtain rfl | rfl := hf
  · exact ht
  · simpa using ht

theorem takeSyn_retimes (seg : TcpSegment) : Retimes [.onRto] e.tm (e.takeSyn seg).tm := by
  obtain ⟨m, -, -, h⟩ := takeSyn_cases (e := e) seg
  rw [h]
  dsimp only
  split
  · exact processAck_retimes { e with tcb :=
      { e.tcb with irs := seg.seq, rcvNxt := add seg.seq 1, sndMss := m } } seg.ack
  · exact .refl _

theorem takeSyn_setState_retimes (seg : TcpSegment) (st : ConnState) :
    Retimes [.onRto, .onKeepalive] e.tm ((e.takeSyn seg).setState st).tm :=
  ((takeSyn_retimes seg).mono (by simp)).trans
    ((setState_retimes (e.takeSyn seg) st).mono (by simp))

/-- The receive path has no timers. -/
theorem Receives.tm (h : e.Receives a e') : e'.tm = e.tm := by
  cases h with
  | takeInOrder =>
    unfold TcpEngine.takeInOrder
    dsimp only
    split <;> simp [markSeen, advanceRcvNxt]
  | mergeEntry =>
    unfold TcpEngine.mergeEntry
    dsimp only
    split
    · rfl
    · split <;> simp [markSeen, advanceRcvNxt]

theorem storeOoo_tm (seq : Int) (data : List UInt8) (flags : Flags) :
    (e.storeOoo seq data flags).tm = e.tm := by
  unfold storeOoo; split <;> rfl

/-- Every move goes through the slots. -/
theorem TimerInv.move (hm : Move a e e') (h : e.TimerInv) : e'.TimerInv := by
  have htw0 (hs : e.tcb.state ≠ .timeWait) : e.tm.twTimer = none := by
    by_contra hn
    exact hs (h.timeWait hn)
  cases hm with
  | passTime dt _ =>
    exact ⟨h.timely.passTime _, h.timeWait⟩
  | connect ho _ =>
    have hne : e.tcb.state ≠ .timeWait := by rcases ho with ⟨ho, -⟩ | ho <;> simp [ho]
    rw [connect_eq (ho.imp And.left id)]
    exact h.of_retimes (queueAndSend_retimes (e := e.dialled) h.timely _ _ _ _) (by simp)
      fun hs => absurd hs hne
  | startListening hs _ =>
    exact h.of_retimes
      (setState_retimes { e with fin := { e.fin with passive := true } } .listen) (by simp)
      fun hs' => by rw [hs] at hs'; cases hs'
  | fire g hl hcb =>
    have hg : g.cb ≠ .onTimeWait := by
      rcases hcb with hcb | ⟨hcb, -⟩
      · intro hc
        simp [hc] at hcb
      · simp [hcb]
    exact h.of_retimes (fire_retimes hl) (by simpa using hg.symm) (by simp)
  | restartKeepalive b _ => exact h.of_retimes (restartKeepalive_retimes e b) (by simp) (by simp)
  | dropPersistTimer => exact h.of_retimes (dropPersistTimer_retimes e) (by simp) id
  | armPersist _ => exact h.of_retimes (armPersist_retimes h.timely) (by simp) (by simp)
  | restartTimeWait seg _ _ hs => exact ⟨(restartTimeWait_retimes e).timely h.timely, fun _ => hs⟩
  | retransmit g o rest hl hcb hq =>
    have h1 : (e.fire g).TimerInv := h.of_retimes (fire_retimes hl) (by simp [hcb]) (by simp)
    have h2 : (e.fire g).countRto.TimerInv := h1.of_retimes (S := []) (.same rfl rfl) (by simp) id
    have hn : (e.fire g).countRto.tm.rtTimer = none := fire_rtTimer hcb
    exact h2.of_retimes (retransmitHead_retimes o rest hn) (by simp) (by simp)
  | sendAck =>
    exact h.of_retimes (by rw [sendAck_tm]; exact clearAckTimer_retimes e) (by simp) (by simp)
  | scheduleAck force _ => exact h.of_retimes (scheduleAck_retimes e force) (by simp) (by simp)
  | sendKeepaliveProbe _ _ =>
    exact h.of_retimes (S := []) (.same (by simp [TcpEngine.sendKeepaliveProbe])
      (by simp [TcpEngine.sendKeepaliveProbe]; rfl)) (by simp)
        (by simp [TcpEngine.sendKeepaliveProbe])
  | sendChunk hs _ _ _ _ =>
    exact h.of_retimes (by
      rw [sendChunk_tm]
      exact queueAndSend_retimes (e := e.takeChunk e.chunkLen) h.timely _ _ _ _) (by simp) (by simp)
  | probe g _ hl hcb _ _ =>
    have h1 : (e.fire g).TimerInv := h.of_retimes (fire_retimes hl) (by simp [hcb]) (by simp)
    have hn : (e.fire g).tm.persistTimer = none := fire_persistTimer hcb
    have h2 : (e.fire g).sendProbe.TimerInv :=
      h1.of_retimes (queueAndSend_retimes (e := (e.fire g).takeChunk 1) h1.timely _ _ _ _) (by simp)
        (by simp [TcpEngine.sendProbe])
    exact h2.of_retimes (rearmPersist_retimes (by simpa [TcpEngine.sendProbe] using hn)) (by simp)
      id
  | probeFin g _ hl hcb _ hd =>
    have h1 : (e.fire g).TimerInv := h.of_retimes (fire_retimes hl) (by simp [hcb]) (by simp)
    have hn : (e.fire g).tm.persistTimer = none := fire_persistTimer hcb
    have h2 : (e.fire g).sendFin.TimerInv := by
      refine h1.of_retimes (sendFin_retimes h1.timely) (by simp) fun hs => ?_
      obtain ⟨st, ht, hst⟩ := sendFin_tcb (e := e.fire g)
      rw [ht]
      rw [hs] at hst
      simpa using hst
    exact h2.of_retimes (rearmPersist_retimes (by rw [sendFin_persist, hn])) (by simp) id
  | sendFin _ hd _ _ =>
    refine h.of_retimes (sendFin_retimes h.timely) (by simp) fun hs => ?_
    obtain ⟨st, ht, hst⟩ := sendFin_tcb (e := e)
    rw [ht]
    rw [hs] at hst
    simpa using hst
  | processAck seg _ _ _ _ => exact h.of_retimes (processAck_retimes e _) (by simp) (by simp)
  | acceptSyn seg _ hs _ _ _ =>
    obtain ⟨m, -, -, hm⟩ := acceptSyn_eq (e := e) seg hs
    rw [hm]
    exact h.of_retimes (queueAndSend_retimes (e := e.listenTaken seg m) h.timely _ _ _ _) (by simp)
      fun hs' => by rw [hs] at hs'; cases hs'
  | synEstablished seg _ ht _ =>
    exact h.of_retimes (takeSyn_setState_retimes seg _) (by simp)
      fun hs' => by rw [ht.1] at hs'; cases hs'
  | synReceived seg _ ht _ =>
    exact h.of_retimes (takeSyn_setState_retimes seg _) (by simp)
      fun hs' => by rw [ht.1] at hs'; cases hs'
  | storeSynData seg => exact h.same (storeOoo_tm _ _ _) (storeOoo_frame _ _ _ _).state
  | storeOoo seg => exact h.same (storeOoo_tm _ _ _) (storeOoo_frame _ _ _ _).state
  | receive _ hr => exact h.same hr.tm hr.frame.state
  | completeOpen seg _ hc =>
    have h1 := (processAck_retimes e seg.ack).mono (T := [.onRto, .onKeepalive]) (by simp)
    have h2 := (setState_retimes ((e.processAck seg.ack).setSendWindow seg.window seg.seq seg.ack)
      .established).mono (T := [.onRto, .onKeepalive]) (by simp)
    exact h.of_retimes (h1.trans h2) (by simp) fun hs' => by rw [hc.1] at hs'; cases hs'
  | finAckedWait hs _ =>
    exact h.of_retimes (setState_retimes _ _) (by simp) fun hs' => by rw [hs] at hs'; cases hs'
  | finAckedTimeWait hs _ =>
    have hc : ¬ e.CanSend := by simp [CanSend, hs]
    refine ⟨(enterTimeWait_retimes hc (htw0 (by simp [hs])) h.timely).timely h.timely, fun _ => ?_⟩
    rw [enterTimeWait_eq hc]
    simp
  | processFin hs _ =>
    have h1 : e.consumeFin.sendAck.TimerInv :=
      h.of_retimes (by rw [sendAck_tm]; simpa using clearAckTimer_retimes e.consumeFin) (by simp)
        (by simp)
    have hne : e.consumeFin.sendAck.tcb.state ≠ .timeWait := by
      intro hc
      simp only [sendAck_tcb, consumeFin_tcb] at hc
      simp [hc] at hs
    have htw1 : e.consumeFin.sendAck.tm.twTimer = none := by
      by_contra hn
      exact hne (h1.timeWait hn)
    obtain ⟨st, -, hf⟩ | ⟨hfw, hf⟩ := processFin_cases (e := e)
    · rw [hf]
      exact h1.of_retimes (setState_retimes _ _) (by simp) fun hs' => absurd hs' hne
    · have hc : ¬ e.consumeFin.sendAck.CanSend := by simp [CanSend, hfw]
      rw [hf, ← enterTimeWait_eq hc]
      refine ⟨(enterTimeWait_retimes hc htw1 h1.timely).timely h1.timely, fun _ => ?_⟩
      rw [enterTimeWait_eq hc]
      simp
  | listenAgain hs hp _ =>
    rw [doReset_listen hs hp]
    have h1 := (setState_retimes e .listen).mono (T := [.onKeepalive, .onRto, .onPersist]) (by simp)
    have h2 := (stopRt_retimes (e.setState .listen).resetBuffers).mono
      (T := [.onKeepalive, .onRto, .onPersist]) (by simp)
    have h3 := (dropPersistTimer_retimes (e.setState .listen).resetBuffers.stopRt).mono
      (T := [.onKeepalive, .onRto, .onPersist]) (by simp)
    exact h.of_retimes (h1.trans (h2.trans h3)) (by simp) fun hs' => by rw [hs] at hs'; cases hs'
  | close _ hb _ => exact .closed h.timely hb
  | abort _ hb _ => exact .closed (by simpa using h.timely) (sendRst_blocked hb)
  | giveUp msg _ hb _ => exact giveUp_timers msg hb h.timely
  | giveUpRto g c msg _ hl hcb hr hb =>
    have h1 := (fire_retimes hl).timely h.timely
    cases c with
    | true => exact giveUp_timers msg ((hb.fire g).of_view rfl : (e.fire g).countRto.Blocked) h1
    | false => exact giveUp_timers msg (hb.fire g) h1
  | timeWaitExpires g _ hl hcb hb =>
    exact .closed ((fire_retimes hl).timely h.timely) (hb.fire g)
  | sendSynAck => exact h.same (by simp [TcpEngine.sendSynAck]) (by simp [TcpEngine.sendSynAck])
  | _ => exact h.same (by first | rfl | simp) (by first | rfl | simp)

theorem timerInv_begin (h : e.TimerInv) : (e.begin a).TimerInv := by
  refine h.same ?_ (by simp)
  unfold begin
  split
  · split
    · simp [bufferData, enter]
    · rfl
  · rfl

/-- A new engine has no timers. -/
theorem timerInv_init (args : EngineArgs) (sched : ManualScheduler Callback) (rand : Nat)
    (hs : sched.heap = []) : (init args sched rand).TimerInv := by
  refine ⟨?_, by simp [init]⟩
  have : (init args sched rand).tm.slot = fun _ => none := by
    funext cb
    cases cb <;> rfl
  rw [Timely, this]
  exact .empty sched hs

/-- So after every step the live timers are those the slots name. -/
theorem Ready.timerInv_step (hr : e.Ready) (h : e.TimerInv)
    (hs : engineMachine.step e a = some e') : e'.TimerInv :=
  hr.step_preserves hs (timerInv_begin h) fun _ _ => TimerInv.move

end TcpEngine

end HdlPlayground.Tcp

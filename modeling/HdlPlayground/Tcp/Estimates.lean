import Mathlib.Tactic.Linarith
import Mathlib.Tactic.Positivity
import HdlPlayground.Tcp.Karn

/-!
# The round-trip estimator over all runs

The retransmission timeout stays between its bounds and never below what the estimates ask for,
however samples and timeouts alternate; the estimates are there together and are not negative.
-/
namespace HdlPlayground.Tcp

/-- Bounds that `clamp` can meet. -/
structure TimerConfig.RtoSane (cfg : TimerConfig) : Prop where
  min : 0 ≤ cfg.rtoMin
  le : cfg.rtoMin ≤ cfg.rtoMax
  initial : cfg.rtoMin ≤ cfg.rtoInitial ∧ cfg.rtoInitial ≤ cfg.rtoMax

namespace RttEstimator

variable {cfg : TimerConfig} {e : RttEstimator}

/-- What `sample` sets the timeout to: the smoothed time and four deviations, within bounds. -/
def asked (cfg : TimerConfig) (srtt rttvar : ℚ) : ℚ :=
  clamp cfg (srtt + max cfg.rttG (4 * rttvar))

structure Tuned (cfg : TimerConfig) (e : RttEstimator) : Prop where
  bounds : cfg.rtoMin ≤ e.rto ∧ e.rto ≤ cfg.rtoMax
  unmeasured : e.srtt = none → e.rttvar = none
  measured : ∀ s, e.srtt = some s →
    ∃ v, e.rttvar = some v ∧ 0 ≤ s ∧ 0 ≤ v ∧ asked cfg s v ≤ e.rto

theorem clamp_bounds (h : cfg.RtoSane) (v : ℚ) :
    cfg.rtoMin ≤ clamp cfg v ∧ clamp cfg v ≤ cfg.rtoMax :=
  ⟨le_min (le_max_right _ _) h.le, min_le_right _ _⟩

theorem tuned_init (h : cfg.RtoSane) : (init cfg).Tuned cfg :=
  ⟨h.initial, fun _ => rfl, nofun⟩

theorem Tuned.of_asked {s v : ℚ} (hc : cfg.RtoSane) (hs : 0 ≤ s) (hv : 0 ≤ v) :
    Tuned cfg ⟨some (s, v), asked cfg s v⟩ := by
  refine ⟨clamp_bounds hc _, nofun, fun t ht => ?_⟩
  obtain rfl := Option.some.inj ht
  exact ⟨v, rfl, hs, hv, le_rfl⟩

theorem Tuned.sample (h : e.Tuned cfg) (hc : cfg.RtoSane) {r : ℚ} (hr : 0 ≤ r) :
    (sample cfg e r).Tuned cfg := by
  cases hs : e.estimates with
  | none =>
    have he : RttEstimator.sample cfg e r = ⟨some (r, r / 2), asked cfg r (r / 2)⟩ := by
      simp only [RttEstimator.sample, hs]
      rfl
    rw [he]
    apply of_asked hc hr
    positivity
  | some p =>
    obtain ⟨s, v⟩ := p
    obtain ⟨v', hv, h0, h1, -⟩ := h.measured s (by rw [srtt, hs]; rfl)
    obtain rfl : v = v' := by
      rw [rttvar, hs] at hv
      exact Option.some.inj hv
    have he : RttEstimator.sample cfg e r = ⟨some ((1 - 1 / 8) * s + 1 / 8 * r,
        (1 - 1 / 4) * v + 1 / 4 * |s - r|),
        asked cfg ((1 - 1 / 8) * s + 1 / 8 * r) ((1 - 1 / 4) * v + 1 / 4 * |s - r|)⟩ := by
      simp only [RttEstimator.sample, hs]
      rfl
    rw [he]
    apply of_asked hc
    · have h8 : (0 : ℚ) ≤ 1 - 1 / 8 := by norm_num
      positivity
    · have h4 : (0 : ℚ) ≤ 1 - 1 / 4 := by norm_num
      positivity

/-- Doubling keeps the timeout above what was asked for. -/
theorem Tuned.backoff (h : e.Tuned cfg) (hc : cfg.RtoSane) : (backoff cfg e).Tuned cfg := by
  have h0 := h.bounds
  have hge : e.rto ≤ (RttEstimator.backoff cfg e).rto := by
    apply le_min
    · have := hc.min
      linarith
    · exact h0.2
  refine ⟨⟨h0.1.trans hge, min_le_right _ _⟩, h.unmeasured, fun s hs => ?_⟩
  obtain ⟨v, hv, h1, h2, h3⟩ := h.measured s hs
  exact ⟨v, hv, h1, h2, h3.trans hge⟩

end RttEstimator

namespace TcpEngine

variable {cfg : TimerConfig} {a : Action} {e f : TcpEngine}

/-- The estimator is sound, and the segment being timed was sent no later than now. -/
structure Estimates (cfg : TimerConfig) (e : TcpEngine) : Prop where
  limits : ∃ t, e.conf.cfg = { cfg with userTimeout := t }
  sane : cfg.RtoSane
  rtt : e.rt.rtt.Tuned cfg
  pending : ∀ n t, e.rt.rttPending = some (n, t) → t ≤ e.now

/-- Of the configuration only the user timeout changes. -/
def SameLimits (e f : TcpEngine) : Prop := ∃ t, f.conf.cfg = { e.conf.cfg with userTimeout := t }

theorem SameLimits.refl (h : f.conf.cfg = e.conf.cfg) : SameLimits e f :=
  ⟨e.conf.cfg.userTimeout, by rw [h]⟩

theorem Estimates.sameLimits (h : Estimates cfg e) (hc : SameLimits e f) :
    ∃ t, f.conf.cfg = { cfg with userTimeout := t } := by
  obtain ⟨t, ht⟩ := h.limits
  obtain ⟨t', ht'⟩ := hc
  exact ⟨t', by rw [ht', ht]⟩

/-- The estimator is left alone. -/
theorem Estimates.keeps (h : Estimates cfg e) (hc : SameLimits e f) (hn : e.now ≤ f.now)
    (hr : f.rt.rtt = e.rt.rtt)
    (hp : f.rt.rttPending = e.rt.rttPending ∨ f.rt.rttPending = none ∨
      ∃ n, f.rt.rttPending = some (n, e.now)) : Estimates cfg f := by
  refine ⟨h.sameLimits hc, h.sane, hr ▸ h.rtt, fun n t ht => ?_⟩
  rcases hp with hp | hp | ⟨m, hp⟩
  · exact (h.pending n t (hp ▸ ht)).trans hn
  · rw [hp] at ht
    cases ht
  · rw [hp] at ht
    obtain ⟨-, rfl⟩ := Prod.mk.inj (Option.some.inj ht)
    exact hn

theorem takeSample_estimates (h : Estimates cfg e) (ack : Int) :
    Estimates cfg (e.takeSample ack) := by
  unfold takeSample
  split
  · exact h
  · next n t hp =>
    split
    · obtain ⟨u, hu⟩ := h.limits
      refine ⟨h.limits, h.sane, ?_, nofun⟩
      rw [hu]
      apply h.rtt.sample h.sane
      have := h.pending n t hp
      linarith
    · exact h

/-- Nothing is being timed any more. -/
theorem Estimates.dropped (h : Estimates cfg e) (hc : SameLimits e f) (hr : f.rt.rtt = e.rt.rtt)
    (hp : f.rt.rttPending = none) : Estimates cfg f :=
  ⟨h.sameLimits hc, h.sane, hr ▸ h.rtt, fun n t ht => by rw [hp] at ht; cases ht⟩

/-- The measurement goes on. -/
theorem Estimates.stays (h : Estimates cfg e) (hc : f.conf.cfg = e.conf.cfg) (hn : f.now = e.now)
    (hr : f.rt = e.rt) : Estimates cfg f :=
  h.keeps (.refl hc) hn.ge (by rw [hr]) (Or.inl (by rw [hr]))

theorem processAck_estimates (h : Estimates cfg e) (ack : Int) :
    Estimates cfg (e.processAck ack) := by
  have hs := takeSample_estimates h ack
  have hrt : (e.processAck ack).rt.rtt = (e.takeSample ack).rt.rtt ∧
      (e.processAck ack).rt.rttPending = (e.takeSample ack).rt.rttPending := by
    unfold processAck
    dsimp only
    split <;> simp
  refine hs.keeps (.refl (by simp)) (le_of_eq ?_) hrt.1 (Or.inl hrt.2)
  rw [processAck_now]
  simp [now]

theorem queueAndSend_estimates (h : Estimates cfg e) (flags : Flags) (payload : List UInt8)
    (m : Bool) (urg : Nat) : Estimates cfg (e.queueAndSend flags payload m urg) := by
  apply h.keeps (.refl (by simp)) (le_of_eq (by simp)) (by simp [enqueue])
  rw [queueAndSend_rt]
  unfold enqueue
  dsimp only
  split
  · exact Or.inr (Or.inr ⟨_, rfl⟩)
  · exact Or.inl rfl

theorem sendChunk_estimates (h : Estimates cfg e) (n : Nat) : Estimates cfg (e.sendChunk n) := by
  obtain ⟨psh, hc⟩ := sendChunk_eq (e := e) n
  have ht : Estimates cfg (e.takeChunk n) := h.stays rfl rfl rfl
  have hq : Estimates cfg (e.queueChunk n) := queueAndSend_estimates ht _ _ _ _
  rw [hc]
  exact hq.stays rfl rfl rfl

theorem sendFin_estimates (h : Estimates cfg e) : Estimates cfg e.sendFin := by
  have hs : Estimates cfg { e with fin := { e.fin with finSeq := e.tcb.sndNxt } } :=
    h.stays rfl rfl rfl
  have hq : Estimates cfg e.finQueued :=
    (queueAndSend_estimates hs { ack := true, fin := true } [] false 0).stays rfl rfl rfl
  obtain ⟨st, hc, -⟩ := sendFin_cases (e := e)
  rw [hc]
  exact hq.stays (by simp) (by simp) (by simp)

theorem sendProbe_estimates (h : Estimates cfg e) : Estimates cfg e.sendProbe := by
  have hd : Estimates cfg { e with buf := { e.buf with appBuf := e.buf.appBuf.drop 1 } } :=
    h.stays rfl rfl rfl
  unfold sendProbe
  exact queueAndSend_estimates hd _ _ _ _

theorem closeDown_estimates (h : Estimates cfg e) (tm : EngineTimers) :
    Estimates cfg (closeDown { e with tm := tm }) :=
  h.dropped (.refl (by simp [closeDown])) (by simp [closeDown]; rfl) (by simp [closeDown]; rfl)

theorem enterClosed_estimates (h : Estimates cfg e) (hb : e.Blocked) :
    Estimates cfg e.enterClosed := by
  obtain ⟨tm, hc⟩ := enterClosed_closeDown hb
  rw [hc]
  exact closeDown_estimates h tm

theorem fire_estimates (h : Estimates cfg e) (g : TimerHandle Callback) :
    Estimates cfg (e.fire g) :=
  h.stays (by simp) (by simp) (by simp)

theorem sendRst_estimates (h : Estimates cfg e) : Estimates cfg e.sendRst :=
  h.stays (by simp) (by simp [sendRst, now]) (by simp)

theorem giveUp_estimates (h : Estimates cfg e) (msg : String) (hb : e.Blocked) :
    Estimates cfg (e.giveUp msg) := by
  obtain ⟨f, hf, hfb, hg⟩ := giveUp_closes msg hb
  rw [hg]
  refine enterClosed_estimates ?_ hfb
  obtain rfl | rfl := hf
  · exact h.stays rfl rfl rfl
  · exact (sendRst_estimates h).stays rfl rfl rfl

theorem retransmitHead_estimates (h : Estimates cfg e) (o : Outgoing) (rest : List Outgoing) :
    Estimates cfg (e.retransmitHead o rest) := by
  have hm : Estimates cfg (e.markRetransmitted o rest) := by
    obtain ⟨u, hu⟩ := h.limits
    refine ⟨h.limits, h.sane, ?_, nofun⟩
    show (e.rt.rtt.backoff e.conf.cfg).Tuned cfg
    rw [hu]
    exact h.rtt.backoff h.sane
  unfold retransmitHead
  dsimp only
  split
  · exact hm.stays rfl rfl rfl
  · exact hm.stays rfl rfl rfl

theorem takeSyn_estimates (h : Estimates cfg e) (seg : TcpSegment) :
    Estimates cfg (e.takeSyn seg) := by
  obtain ⟨m, -, -, ht⟩ := takeSyn_cases (e := e) seg
  rw [ht]
  dsimp only
  have hf : Estimates cfg { e with tcb :=
      { e.tcb with irs := seg.seq, rcvNxt := add seg.seq 1, sndMss := m } } :=
    h.stays rfl rfl rfl
  split
  · exact (processAck_estimates hf seg.ack).stays rfl rfl rfl
  · exact hf.stays rfl rfl rfl

theorem storeOoo_estimates (h : Estimates cfg e) (seq : Int) (data : List UInt8) (flags : Flags) :
    Estimates cfg (e.storeOoo seq data flags) := by
  unfold storeOoo
  split
  · exact h
  · exact h.stays rfl rfl rfl

/-- Entering TIME-WAIT. -/
theorem timeWait_estimates (h : Estimates cfg e) :
    Estimates cfg ((e.stopRt.dropPersistTimer.setState .timeWait).armTwTimer) := by
  have hs : Estimates cfg (e.stopRt.dropPersistTimer) :=
    h.stays rfl (by simp [now, dropPersistTimer, stopRt]) rfl
  have hw : Estimates cfg (e.stopRt.dropPersistTimer.setState .timeWait) :=
    hs.stays (by simp) (by simp) (by simp)
  exact hw.stays rfl rfl rfl

theorem setUserTimeout_estimates (h : Estimates cfg e) (t : Option ℚ) :
    Estimates cfg (e.setUserTimeout t) := by
  cases t with
  | none => exact h
  | some t => exact h.keeps ⟨some t, rfl⟩ le_rfl rfl (Or.inl rfl)

theorem Move.estimates (hm : Move a e f) (h : Estimates cfg e) : Estimates cfg f := by
  cases hm with
  | passTime dt hdt =>
    refine h.keeps (.refl rfl) ?_ rfl (Or.inl rfl)
    show e.now ≤ e.now + dt
    linarith
  | setUserTimeout t => exact setUserTimeout_estimates h t
  | connect ho _ =>
    rw [connect_eq (ho.imp And.left id)]
    have hd : Estimates cfg e.dialled := h.stays rfl rfl rfl
    exact queueAndSend_estimates hd _ _ _ _
  | sendChunk => exact sendChunk_estimates h _
  | sendFin => exact sendFin_estimates h
  | probe g => exact (sendProbe_estimates (fire_estimates h g)).stays rfl rfl rfl
  | probeFin g => exact (sendFin_estimates (fire_estimates h g)).stays rfl rfl rfl
  | retransmit g o rest =>
    have hc : Estimates cfg (e.fire g).countRto := (fire_estimates h g).stays rfl rfl rfl
    exact retransmitHead_estimates hc o rest
  | processAck seg => exact processAck_estimates h _
  | acceptSyn seg _ hs =>
    obtain ⟨m, -, -, ht⟩ := acceptSyn_eq (e := e) seg hs
    have hl : Estimates cfg (e.listenTaken seg m) := h.stays rfl rfl rfl
    rw [ht]
    exact queueAndSend_estimates hl _ _ _ _
  | synEstablished seg =>
    exact (takeSyn_estimates h seg).stays (by simp) (by simp) (by simp)
  | synReceived seg =>
    have hs : Estimates cfg ((e.takeSyn seg).setState .synReceived) :=
      (takeSyn_estimates h seg).stays (by simp) (by simp) (by simp)
    exact hs.stays rfl rfl rfl
  | storeSynData seg => exact storeOoo_estimates h _ _ _
  | storeOoo seg n => exact storeOoo_estimates h _ _ _
  | completeOpen seg =>
    have hw : Estimates cfg ((e.processAck seg.ack).setSendWindow seg.window seg.seq seg.ack) :=
      (processAck_estimates h seg.ack).stays rfl rfl rfl
    exact hw.stays (by simp [openCompleted]) (by simp [openCompleted]) (by simp [openCompleted])
  | finAckedTimeWait hs =>
    rw [enterTimeWait_eq (by simp [CanSend, hs])]
    exact timeWait_estimates h
  | processFin =>
    have hc : Estimates cfg e.consumeFin.sendAck := by
      refine h.stays (by simp) ?_ (by simp)
      rw [sendAck_now]
      show e.consumeFin.tm.sched.now = _
      rw [consumeFin_tm]
      rfl
    obtain ⟨st, -, hf⟩ | ⟨-, hf⟩ := processFin_cases (e := e)
    · rw [hf]
      exact hc.stays (by simp) (by simp) (by simp)
    · rw [hf]
      exact timeWait_estimates hc
  | listenAgain hs hp =>
    rw [doReset_listen hs hp]
    refine h.dropped (.refl (by simp [restorePort])) ?_ rfl
    show (e.setState .listen).rt.rtt = _
    rw [setState_rt]
  | receive _ hr =>
    have hn : f.now = e.now := congrArg (fun tm => tm.sched.now) hr.tm
    exact h.stays (by rw [hr.frame.conf]) hn hr.frame.rt
  | close _ hb => exact enterClosed_estimates h hb
  | abort _ hb => exact enterClosed_estimates (sendRst_estimates h) (sendRst_blocked hb)
  | giveUp msg _ hb => exact giveUp_estimates h msg hb
  | giveUpRto g c msg _ _ _ _ hb =>
    have hf := fire_estimates h g
    cases c with
    | true =>
      have hc : Estimates cfg (e.fire g).countRto := hf.stays rfl rfl rfl
      exact giveUp_estimates hc msg ((hb.fire g).of_view rfl)
    | false => exact giveUp_estimates hf msg (hb.fire g)
  | timeWaitExpires g _ _ _ hb => exact enterClosed_estimates (fire_estimates h g) (hb.fire g)
  | restartKeepalive | fire | armPersist | sendAck => exact h.stays (by simp) (by simp) (by simp)
  | finAckedWait => exact h.stays (by simp) (by simp) (by simp)
  | setPorts r l => exact h.stays (by simp [TcpEngine.setPorts]) rfl rfl
  | startListening =>
    have hp : Estimates cfg { e with fin := { e.fin with passive := true } } := h.stays rfl rfl rfl
    unfold TcpEngine.startListening
    exact hp.stays (by simp) (setState_now _) (by simp)
  | finishReceive =>
    unfold TcpEngine.finishReceive
    dsimp only
    split
    · exact h.stays rfl rfl rfl
    · exact h.stays rfl rfl rfl
  | dropPersistTimer => exact h.stays rfl (by simp [now, TcpEngine.dropPersistTimer]) rfl
  | restartTimeWait =>
    exact h.stays rfl (by simp [TcpEngine.restartTimeWait, armTwTimer, now]) rfl
  | scheduleAck => exact h.stays (by simp) (scheduleAck_retimes _ _).now (by simp)
  | emitRstReply =>
    unfold TcpEngine.emitRstReply
    exact h.stays (by simp) (by simp [now]) (by simp)
  | sendSynAck =>
    unfold TcpEngine.sendSynAck
    exact h.stays (by simp) (by simp [now]) (by simp)
  | sendKeepaliveProbe =>
    unfold TcpEngine.sendKeepaliveProbe
    exact h.stays (by simp) (by simp [now]) (by simp)
  | _ => exact h.stays rfl rfl rfl

theorem begin_estimates (h : Estimates cfg e) (a : Action) : Estimates cfg (e.begin a) := by
  have he : Estimates cfg e.enter := h.stays rfl rfl rfl
  unfold begin
  split
  · split
    · exact (setUserTimeout_estimates he _).stays rfl rfl rfl
    · exact he
  · exact he

theorem init_estimates (args : EngineArgs) (sched : ManualScheduler Callback) (rand : Nat)
    (h : args.timers.RtoSane) : Estimates args.timers (init args sched rand) :=
  ⟨⟨_, rfl⟩, h, RttEstimator.tuned_init h, fun _ _ hp => by cases hp⟩

theorem step_estimates (hr : e.Ready) (h : Estimates cfg e)
    (hs : engineMachine.step e a = some f) : Estimates cfg f :=
  hr.step_preserves hs (begin_estimates h a) fun _ _ hm => hm.estimates

end TcpEngine

open TcpEngine RttEstimator in
/-- However samples and timeouts alternate, the timeout stays within its limits and is never
below what the estimates ask for. -/
theorem timeout_within_limits (args : EngineArgs) (sched : ManualScheduler Callback) (rand : Nat)
    (as : List Action) (e : TcpEngine) (hc : args.timers.RtoSane)
    (hr : engineMachine.run (init args sched rand) as = some e) :
    e.rt.rtt.Tuned args.timers ∧ (∀ n t, e.rt.rttPending = some (n, t) → t ≤ e.now) := by
  have h := engineMachine.invariant_run
    (I := fun f => f.Ready ∧ Estimates args.timers f)
    (fun f a f' h hs => ⟨h.1.step hs, step_estimates h.1 h.2 hs⟩)
    ⟨ready_init args sched rand, init_estimates args sched rand hc⟩ hr
  exact ⟨h.2.rtt, h.2.pending⟩

theorem default_timeout_within_limits :
    ∃ e, engineMachine.run dialStart timedRun = some e ∧
      e.rt.rtt.Tuned {} ∧ e.rt.rtt.srtt = some (1 / 2) ∧ e.rt.rtt.rto = 3 / 2 := by
  have h : (engineMachine.run dialStart timedRun).map
      (fun e => (e.rt.rtt.srtt, e.rt.rtt.rto)) = some (some (1 / 2), 3 / 2) := by
    decide +kernel
  obtain ⟨e, he, hv⟩ := Option.map_eq_some_iff.mp h
  obtain ⟨h1, h2⟩ := Prod.mk.inj hv
  exact ⟨e, he, (timeout_within_limits _ {} 0 timedRun e
    ⟨by decide, by decide, by decide⟩ he).1, h1, h2⟩

end HdlPlayground.Tcp

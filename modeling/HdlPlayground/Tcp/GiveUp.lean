import HdlPlayground.Tcp.Backoff

/-!
# Giving up

From a SEND that starts transmission, every undisturbed run is on schedule, and the clock
can be advanced as far as one likes: each timer expires a bounded number of times before
the time it is advanced to, provided that the keepalive periods are positive. In any run at
all, the engine gives up only after `max_retransmits` expiries since SND.UNA advanced or
the queue was last empty.
-/
namespace HdlPlayground.Tcp

namespace TcpEngine

variable {a : Action} {e e' f : TcpEngine}

/-- What follows a SEND that starts transmission in ESTABLISHED. -/
theorem send_unanswered {data : List UInt8} {push urgent : Bool} {M : Nat} (hr : e.Ready)
    (ht : e.TimerInv) (hx : e.Rested) (hs : e.tcb.state = .established) (hq : e.buf.retx = [])
    (hw : 0 < e.tcb.sndWnd) (hu : e.conf.cfg.userTimeout = none)
    (hm : e.conf.cfg.maxRetransmits = M) (h0 : 0 < e.rt.rtt.rto)
    (h1 : e.rt.rtt.rto ≤ e.conf.cfg.rtoMax)
    (hstep : engineMachine.step e (.send data push urgent none) = some f)
    (hf : f.buf.retx ≠ []) : ∃ o rest, f.buf.retx = o :: rest ∧
      (∃ seg, .tx seg ∈ entered e f ∧ seg.seq = o.seq ∧ seg.flags = o.flags ∧
        seg.payload = o.payload) ∧
      f.conf = e.conf ∧ f.now = e.now ∧
      Unanswered ⟨o, e.now, e.rt.rtt.rto, e.conf.cfg.rtoMax, M⟩ 0 f := by
  obtain ⟨hwnd, hl⟩ := send_launching ht hx hs hq (Nat.ne_of_gt hw) hstep hf
  obtain ⟨o, rest, ho⟩ := List.exists_cons_of_ne_nil hf
  obtain ⟨hsyn, hpay, g, hg, hcb, hd⟩ := hl.head o rest ho
  have hconf : f.conf = e.conf := hl.conf
  have hrtt : f.rt.rtt = e.rt.rtt := hl.rtt
  have hnow : f.now = e.now := hl.now
  have hd' : g.deadline = e.now + if e.rt.rtt.rto < 0 then 0 else e.rt.rtt.rto := hd
  have hout : ∃ seg, .tx seg ∈ entered e f ∧ seg.seq = o.seq ∧ seg.flags = o.flags ∧
      seg.payload = o.payload := by
    obtain ⟨evs, hlog, hseg⟩ := hl.log
    have hlog' : f.env.log = e.env.log ++ evs := hlog
    obtain ⟨seg, hmem, hs⟩ := hseg o rest ho
    exact ⟨seg, by rw [entered, hlog', List.drop_left]; exact hmem, hs⟩
  refine ⟨o, rest, ho, hout, hconf, hnow, hr.step hstep, hr.timerInv_step ht hstep, ?_, ?_,
    ⟨o, rest, ho, rfl, rfl, rfl⟩, ⟨hsyn, hpay⟩, Nat.zero_le _, ?_, ?_, ⟨h0, h1, ?_⟩,
    ⟨g, hg, hcb, ?_⟩, ?_⟩
  · exact hl.state.trans hs
  · rw [hwnd]
    exact Nat.ne_of_gt hw
  · rw [hconf]
    exact ⟨hm, rfl, hu⟩
  · exact hl.count.trans (hx.count hq)
  · rw [hrtt, pow_zero, one_mul, min_eq_left h1]
  · rw [hd', if_neg (not_lt.mpr (le_of_lt h0)), Launch.due_succ, Launch.due_zero, pow_zero,
      one_mul, min_eq_left h1]
  · rw [hnow, Launch.due_succ, Launch.due_zero, pow_zero, one_mul, min_eq_left h1]
    exact ⟨le_refl _, by linarith⟩

end TcpEngine

namespace Timed

open TcpEngine

variable {t t' u : Timed} {l : Launch} {k : Nat} {target p : ℚ} {m : Callback → Nat}

/-! ## The clock gets there -/

/-- How often each timer may still expire before the target. -/
def Allows (l : Launch) (target p : ℚ) (m : Callback → Nat) (e : TcpEngine) : Prop :=
  ∀ g ∈ e.tm.sched.live,
    match g.cb with
    | .onRto => l.tries + 1 ≤ e.tm.rtoCount + m .onRto
    | .onKeepalive => target < g.deadline + m .onKeepalive * p
    | cb => 1 ≤ m cb

def total (m : Callback → Nat) : Nat :=
  m .onRto + m .onPersist + m .onDelack + m .onTimeWait + m .onKeepalive

theorem total_update (m : Callback → Nat) (cb : Callback) (h : 1 ≤ m cb) :
    total (Function.update m cb (m cb - 1)) + 1 = total m := by
  cases cb <;> simp [total, Function.update] <;> omega

/-- Keepalive is off, or no period of it is shorter than `p`. -/
def KeepsApart (p : ℚ) (cfg : TimerConfig) : Prop :=
  ∀ idle, cfg.keepaliveIdle = some idle → p ≤ idle ∧ p ≤ cfg.keepaliveInterval

theorem keepsApart_some {cfg : TimerConfig} (h : ∀ idle, cfg.keepaliveIdle = some idle →
    0 < idle ∧ 0 < cfg.keepaliveInterval) : ∃ p, 0 < p ∧ KeepsApart p cfg := by
  cases hk : cfg.keepaliveIdle with
  | none =>
    refine ⟨1, one_pos, fun idle hi => ?_⟩
    rw [hk] at hi
    cases hi
  | some idle =>
    obtain ⟨h0, h1⟩ := h idle hk
    refine ⟨min idle cfg.keepaliveInterval, lt_min h0 h1, fun i hi => ?_⟩
    rw [hk] at hi
    obtain rfl := Option.some.inj hi
    exact ⟨min_le_left _ _, min_le_right _ _⟩

/-- An expiry uses up one of those allowed. -/
theorem allows_expire {e f : TcpEngine} {g : TimerHandle Callback} (hp : 0 < p)
    (hka : KeepsApart p e.conf.cfg) (hu : Unanswered l k e) (hm : Allows l target p m e)
    (hl : g ∈ e.tm.sched.live) (hd : g.deadline ≤ target) (hnow : g.deadline ≤ e.now)
    (hs : engineMachine.step e (.expire g) = some f) :
    1 ≤ m g.cb ∧ Allows l target p (Function.update m g.cb (m g.cb - 1)) f ∧ f.env.exc = none := by
  have hg := hm g hl
  by_cases hcb : g.cb = .onRto
  · rw [hcb] at hg ⊢
    dsimp only at hg
    have hcount := hu.count
    have htries := hu.tries
    obtain ⟨-, hexc, ⟨-, hu', hlive, -⟩ | ⟨-, ho, -⟩⟩ := hu.expires hcb hs
    · refine ⟨by omega, fun x hx => ?_, hexc⟩
      have hcount' := hu'.count
      by_cases hxc : x.cb = .onRto
      · rw [hxc]
        dsimp only
        rw [Function.update_self]
        omega
      · rcases hlive x hx with ⟨hx, -⟩ | hx
        · have hx' := hm x hx
          cases hc : x.cb with
          | onRto => exact absurd hc hxc
          | _ =>
            rw [hc] at hx'
            simpa using hx'
        · exact absurd hx hxc
    · refine ⟨by omega, fun x hx => ?_, hexc⟩
      rw [ho.timers] at hx
      cases hx
  have hpass := hu.passes hcb hl
  rw [← (step_performed hs).2] at hpass
  have hone : 1 ≤ m g.cb := by
    cases hc : g.cb with
    | onRto => exact absurd hc hcb
    | onKeepalive =>
      rw [hc] at hg
      dsimp only at hg
      rcases Nat.eq_zero_or_pos (m .onKeepalive) with h0 | h0
      · rw [h0] at hg
        simp only [Nat.cast_zero, zero_mul, add_zero] at hg
        linarith
      · exact h0
    | _ =>
      rw [hc] at hg
      exact hg
  refine ⟨hone, fun x hx => ?_, hpass.exc⟩
  rcases hpass.live x hx with ⟨hx, hxc⟩ | ⟨hgc, hxc, idle, hidle, d, hdel, hxd⟩
  · -- it was there before, and is of another kind
    have hx' := hm x hx
    have hcount := hpass.count
    cases hc : x.cb with
    | onRto =>
      rw [hc] at hx' hxc
      dsimp only at hx' ⊢
      rw [Function.update_of_ne hxc, hcount]
      exact hx'
    | _ =>
      rw [hc] at hx' hxc
      dsimp only at hx' ⊢
      rw [Function.update_of_ne hxc]
      exact hx'
  · -- the keepalive timer is armed again, at least `p` later
    rw [hgc] at hg hone ⊢
    dsimp only at hg
    rw [hxc]
    dsimp only
    rw [Function.update_self, hxd]
    have hpd : p ≤ d := by
      rcases hdel with rfl | rfl
      · exact (hka _ hidle).1
      · exact (hka _ hidle).2
    rw [if_neg (by linarith)]
    have hcast : ((m .onKeepalive - 1 : Nat) : ℚ) = m .onKeepalive - 1 := by
      rw [Nat.cast_sub hone, Nat.cast_one]
    rw [hcast]
    linarith

theorem step_some {e : TcpEngine} {a : Action} (he : e.Enabled a)
    (hh : (e.enter.perform a).env.hung = false) :
    engineMachine.step e a = some (e.enter.perform a) := by
  simp only [engineMachine]
  rw [if_pos he, if_neg (by simp [hh])]

/-- No callback hangs while something is unanswered. -/
theorem expire_hung {e : TcpEngine} {g : TimerHandle Callback} (hu : Unanswered l k e)
    (hl : g ∈ e.tm.sched.live) : (e.enter.perform (.expire g)).env.hung = e.env.hung := by
  by_cases hcb : g.cb = .onRto
  swap
  · exact (hu.passes hcb hl).hung
  have hb : (e.enter.fire g).Blocked :=
    (hu.ready.drained.blocked.of_view rfl : e.enter.Blocked).fire g
  have hbc : (e.enter.fire g).countRto.Blocked := hb.of_view rfl
  have hf : (e.enter.popTimer g).forgetTimer .onRto = e.enter.fire g := by rw [fire, hcb]
  have hh : (e.enter.fire g).env.hung = e.env.hung := by simp [enter]
  rw [perform, hcb, callback, onRto, hf]
  dsimp only
  split
  · exact hh
  · split_ifs
    · rw [giveUp_hung _ hb, hh]
    · rw [giveUp_hung _ hbc]
      exact hh
    · rw [retransmitHead_hung]
      exact hh

/-- Nor does one change the configuration. -/
theorem expire_conf {e f : TcpEngine} {g : TimerHandle Callback} (hu : Unanswered l k e)
    (hl : g ∈ e.tm.sched.live) (hs : engineMachine.step e (.expire g) = some f) :
    f.conf = e.conf := by
  by_cases hcb : g.cb = .onRto
  swap
  · rw [(step_performed hs).2]
    exact (hu.passes hcb hl).conf
  have hb : (e.enter.fire g).Blocked :=
    (hu.ready.drained.blocked.of_view rfl : e.enter.Blocked).fire g
  have hbc : (e.enter.fire g).countRto.Blocked := hb.of_view rfl
  have hgive {d : TcpEngine} (msg : String) (hd : d.Blocked) : (d.giveUp msg).conf = d.conf := by
    obtain ⟨c, hc, hcb, hg⟩ := giveUp_closes msg hd
    obtain ⟨tm, hcl⟩ := enterClosed_closeDown hcb
    rw [hg, hcl]
    obtain rfl | rfl := hc <;> simp [closeDown]
  rcases step_rto hcb hs with ⟨-, he⟩ | ⟨o, rest, -, ⟨-, he⟩ | ⟨-, -, he⟩ | ⟨-, -, he⟩⟩
  · rw [he, fire_conf, enter_conf]
  · rw [he, hgive _ hb, fire_conf, enter_conf]
  · rw [he, hgive _ hbc, countRto_conf, fire_conf, enter_conf]
  · rw [he, retransmitHead_conf, countRto_conf, fire_conf, enter_conf]

theorem step_of_engine {a : Action} {e : TcpEngine}
    (h : engineMachine.step t.engine a = some e) :
    ∃ t', timedMachine.step t a = some t' ∧ t'.engine = e := by
  simp only [timedMachine, h]
  exact ⟨_, rfl, rfl⟩

theorem tick_some {dt : ℚ} (h0 : 0 ≤ dt) (hh : t.engine.env.hung = false) :
    ∃ t', timedMachine.step t (.tick dt) = some t' ∧ t'.engine = t.engine.enter.passTime dt :=
  step_of_engine (step_some h0 hh)

/-- A run on schedule, with what its timers are still allowed before the target. -/
structure Advancing (l : Launch) (target p : ℚ) (m : Callback → Nat) (t : Timed) : Prop where
  pending : Pending l t
  hung : t.engine.env.hung = false
  apart : KeepsApart p t.engine.conf.cfg
  allows : Allows l target p m t.engine
  time : t.now ≤ target

/-- Time passes, and nothing else has changed. -/
theorem Advancing.tick (h : Advancing l target p m t) {dt : ℚ} (h0 : 0 ≤ dt)
    (hx : Undisturbed t (.tick dt)) (hd : t.now + dt ≤ target) :
    ∃ t', timedMachine.step t (.tick dt) = some t' ∧ Advancing l target p m t' ∧
      t'.now = t.now + dt ∧ t'.engine.tm.sched.live = t.engine.tm.sched.live := by
  obtain ⟨t', hs, he⟩ := tick_some h0 h.hung
  have hnow : t'.now = t.now + dt := by
    rw [Timed.now, he]
    rfl
  refine ⟨t', hs, ⟨h.pending.tick hx hs, ?_, ?_, ?_, hnow ▸ hd⟩, hnow, ?_⟩
  · rw [he]
    exact h.hung
  · rw [he]
    exact h.apart
  · rw [he]
    exact h.allows
  · rw [he]
    rfl

/-- A timer that is due expires. -/
theorem Advancing.expire (h : Advancing l target p m t) {g : TimerHandle Callback} (hp : 0 < p)
    (hl : g ∈ t.engine.tm.sched.live) (hd : g.deadline ≤ t.now) :
    ∃ t', timedMachine.step t (.expire g) = some t' ∧ t'.engine.env.exc = none ∧
      ∃ m', total m' + 1 = total m ∧ Advancing l target p m' t' := by
  obtain ⟨k, hu⟩ : ∃ k, Unanswered l k t.engine := by
    cases h.pending with
    | waits k hu => exact ⟨k, hu⟩
    | ended ho =>
      rw [ho.timers] at hl
      cases hl
  have hhung : (t.engine.enter.perform (.expire g)).env.hung = false := by
    rw [expire_hung hu hl]
    exact h.hung
  have hstep : engineMachine.step t.engine (.expire g) = some _ := step_some ⟨hl, hd⟩ hhung
  obtain ⟨hone, hm, hexc⟩ :=
    allows_expire hp h.apart hu h.allows hl (le_trans hd h.time) hd hstep
  obtain ⟨t', hs, he⟩ := step_of_engine hstep
  have hpend := h.pending.expire hs
  have hnow : t'.now = t.now := by
    rw [Timed.now, he]
    by_cases hcb : g.cb = .onRto
    · rw [(hu.expires hcb hstep).1]
      exact (hu.due hcb hl hd).symm
    · exact (hu.passes hcb hl).now
  have hconf : t'.engine.conf = t.engine.conf := by
    rw [he]
    exact expire_conf hu hl hstep
  refine ⟨t', hs, ?_, _, total_update m g.cb hone, hpend, ?_, ?_, ?_, ?_⟩
  · rw [he]
    exact hexc
  · rw [he]
    exact hhung
  · rw [hconf]
    exact h.apart
  · rw [he]
    exact hm
  · rw [hnow]
    exact h.time

/-- One round of `advance`: it ends at the target, or one timer has expired. -/
theorem advance_round (h : Advancing l target p m t) (hp : 0 < p) (fuel : Nat) :
    (∃ u, t.advance (fuel + 1) target = some u ∧ u.now = target) ∨
      ∃ t' m', total m' + 1 = total m ∧ Advancing l target p m' t' ∧
        t.advance (fuel + 1) target = t'.advance fuel target := by
  rw [advance]
  cases hn : t.engine.tm.sched.next.filter fun g => g.deadline ≤ target with
  | none =>
    apply Or.inl
    obtain ⟨t', hs, -, hnow, -⟩ := h.tick (sub_nonneg.mpr h.time) (undisturbed_last hn)
      (by rw [add_sub_cancel])
    exact ⟨t', hs, by rw [hnow, add_sub_cancel]⟩
  | some g =>
    rw [Option.filter_eq_some_iff, decide_eq_true_eq] at hn
    obtain ⟨t1, h1, ha1, hnow1, hlive1⟩ := h.tick (sub_nonneg.mpr (le_max_left t.now g.deadline))
      (undisturbed_next hn.1) (by rw [add_sub_cancel]; exact max_le h.time hn.2)
    rw [add_sub_cancel] at hnow1
    have hl : g ∈ t1.engine.tm.sched.live := by
      rw [hlive1]
      exact ManualScheduler.next_mem hn.1
    obtain ⟨t2, h2, hexc, m', hm', ha2⟩ := ha1.expire hp hl (by rw [hnow1]; exact le_max_right _ _)
    refine Or.inr ⟨t2, m', hm', ha2, ?_⟩
    dsimp only
    rw [h1, Option.bind_some, h2, Option.bind_some, if_neg (by simp [hexc])]

/-- `advance` ends, at the time it is to advance to, if the timers may expire no more than
`n` times before. -/
theorem advance_ends {n : Nat} (hp : 0 < p) (h : Advancing l target p m t)
    (hn : total m ≤ n) : ∃ u, t.advance (n + 1) target = some u ∧ u.now = target := by
  induction n generalizing t m with
  | zero =>
    rcases advance_round h hp 0 with hu | ⟨t', m', hm, -⟩
    · exact hu
    · omega
  | succ n ih =>
    rcases advance_round h hp (n + 1) with hu | ⟨t', m', hm, h', he⟩
    · exact hu
    · rw [he]
      exact ih h' (by omega)

/-- The timers of a run on schedule may expire only so often before any time. -/
theorem allows_some {e : TcpEngine} (target : ℚ) (hp : 0 < p) (hu : Unanswered l k e) :
    ∃ m, Allows l target p m e := by
  have hka : ∃ n : Nat, ∀ g ∈ e.tm.sched.live, g.cb = .onKeepalive →
      target < g.deadline + n * p := by
    by_cases hx : ∃ g ∈ e.tm.sched.live, g.cb = .onKeepalive
    · obtain ⟨g, hg, hgc⟩ := hx
      obtain ⟨n, hn⟩ := exists_nat_gt ((target - g.deadline) / p)
      refine ⟨n, fun g' hg' hgc' => ?_⟩
      rw [hu.timers.timely.unique hg' hg (hgc'.trans hgc.symm)]
      rw [div_lt_iff₀ hp] at hn
      linarith
    · exact ⟨0, fun g hg hgc => absurd ⟨g, hg, hgc⟩ hx⟩
  obtain ⟨n, hn⟩ := hka
  refine ⟨fun cb => if cb = .onKeepalive then n else l.tries + 1, fun g hg => ?_⟩
  cases hc : g.cb with
  | onKeepalive =>
    dsimp only
    rw [if_pos rfl]
    exact hn g hg hc
  | _ => simp

end Timed

open TcpEngine Timed

/-- A SEND that starts transmission, and nothing answers: the head of the queue goes out
again at the times of the schedule and the engine gives up at the last of them. In any run
the engine gives up only after as many expiries since SND.UNA advanced or the queue was
last empty, at each of which the head went out again or its SYN could not be built. -/
theorem retransmission_schedule (args : EngineArgs) (sched : ManualScheduler Callback)
    (rand : Nat) (hs : sched.heap = []) :
    (∀ (e f : TcpEngine) (data : List UInt8) (push urgent : Bool) (M : Nat),
      engineMachine.Reachable (init args sched rand) e → e.tcb.state = .established →
      e.buf.retx = [] → 0 < e.tcb.sndWnd → e.conf.cfg.userTimeout = none →
      e.conf.cfg.maxRetransmits = M → 0 < e.rt.rtt.rto → e.rt.rtt.rto ≤ e.conf.cfg.rtoMax →
      engineMachine.step e (.send data push urgent none) = some f → f.buf.retx ≠ [] →
      ∃ o rest, f.buf.retx = o :: rest ∧
        (∃ seg, .tx seg ∈ entered e f ∧ seg.seq = o.seq ∧ seg.flags = o.flags ∧
          seg.payload = o.payload) ∧
        (∀ as t, timedMachine.AllSteps Undisturbed ⟨f, []⟩ as →
          timedMachine.run ⟨f, []⟩ as = some t →
          ∃ k, OnSchedule ⟨o, e.now, e.rt.rtt.rto, e.conf.cfg.rtoMax, M⟩ k t) ∧
        ((∀ idle, e.conf.cfg.keepaliveIdle = some idle →
            0 < idle ∧ 0 < e.conf.cfg.keepaliveInterval) →
          ∀ target, e.now ≤ target → ∃ fuel t k, Timed.advance fuel ⟨f, []⟩ target = some t ∧
            t.now = target ∧ OnSchedule ⟨o, e.now, e.rt.rtt.rto, e.conf.cfg.rtoMax, M⟩ k t)) ∧
    (∀ as s a e', tallyMachine.run (init args sched rand, {}) as = some s →
      engineMachine.step s.1 a = some e' → .error "retransmission timeout" ∈ entered s.1 e' →
      s.1.conf.cfg.maxRetransmits ≤ s.2.resent + s.2.unbuilt ∧
        (1 ≤ args.sndMss → args.sndMss ≤ 65535 → s.2.unbuilt = 0)) := by
  constructor
  · rintro e f data push urgent M ⟨as, hrun⟩ hst hq hw hu hm h0 h1 hstep hf
    have hinv := Lib.Machine.invariant_run engineMachine
      (I := fun e => e.Ready ∧ e.TimerInv ∧ e.Rested)
      (fun s a s' h hs => ⟨h.1.step hs, h.1.timerInv_step h.2.1 hs, h.2.2.step h.1 h.2.1 hs⟩)
      ⟨ready_init args sched rand, timerInv_init args sched rand hs,
        ⟨fun _ => rfl, fun _ => rfl⟩⟩ hrun
    obtain ⟨hr, ht, hx⟩ := hinv
    obtain ⟨o, rest, ho, hout, hconf, hnow, hun⟩ :=
      send_unanswered hr ht hx hst hq hw hu hm h0 h1 hstep hf
    have hpend : Pending ⟨o, e.now, e.rt.rtt.rto, e.conf.cfg.rtoMax, M⟩ ⟨f, []⟩ :=
      .waits 0 hun ⟨rfl, rfl⟩
    refine ⟨o, rest, ho, hout, fun as t hall hrun => ?_, fun hka target htime => ?_⟩
    · exact ((Pending.preserves _).run hpend hall hrun).onSchedule
    · obtain ⟨p, hp, hapart⟩ : ∃ p, 0 < p ∧ KeepsApart p f.conf.cfg := by
        rw [hconf]
        exact keepsApart_some hka
      obtain ⟨m, hallow⟩ := allows_some target hp hun
      have hadv : Advancing ⟨o, e.now, e.rt.rtt.rto, e.conf.cfg.rtoMax, M⟩ target p m ⟨f, []⟩ := by
        refine ⟨hpend, step_hung hstep, hapart, hallow, ?_⟩
        show f.now ≤ target
        rw [hnow]
        exact htime
      obtain ⟨t, hadvance, hend⟩ := advance_ends hp hadv (le_refl _)
      obtain ⟨as, hall, hrun⟩ := advance_run hadvance
      obtain ⟨k, hk⟩ := ((Pending.preserves _).run hpend hall hrun).onSchedule
      exact ⟨_, t, k, hadvance, hend, hk⟩
  · intro as s a e' hrun hstep hmem
    have ht := Lib.Machine.invariant_run tallyMachine (I := Tallied)
      (fun s a s' h hs => h.step hs) (tallied_init args sched rand hs) hrun
    have hmax := step_gives_up ht.ready hstep hmem
    have hcount := ht.count
    refine ⟨by omega, fun h1 h2 => ?_⟩
    have hb := Lib.Machine.invariant_run tallyMachine
      (I := fun s => s.1.Kept ∧ s.1.conf.cfgMss ≤ 65535 ∧ s.2.unbuilt = 0)
      (fun s a s' h hs => unbuilt_step h hs) ⟨kept_init args sched rand hs h1, h2, rfl⟩ hrun
    exact hb.2.2

/-- One retransmission is allowed. -/
def oneTry : EngineArgs :=
  { localPort := 1000, remotePort := 80, iss := some 100, timers := { maxRetransmits := 1 } }

/-- The peer answers the SYN, and a second passes. -/
def oneTryRun : List Action :=
  [.activeOpen, .segment [0, 80, 3, 232, 0, 0, 3, 232, 0, 0, 0, 101, 80, 18, 255, 255, 0, 0, 0, 0],
    .tick 1]

/-- Two bytes sent at 1 with an RTO of one second go out again at 2, and at 4 the engine
gives up. -/
theorem retransmission_schedule_one_try :
    (∃ e f t o k, engineMachine.run (init oneTry {} 0) oneTryRun = some e ∧
      engineMachine.step e (.send [7, 8] false false none) = some f ∧
      f.buf.retx.head? = some o ∧ (∃ fuel, Timed.advance fuel ⟨f, []⟩ 5 = some t) ∧
      t.now = 5 ∧ OnSchedule ⟨o, e.now, e.rt.rtt.rto, e.conf.cfg.rtoMax, 1⟩ k t) ∧
    (∀ as s a e', tallyMachine.run (init oneTry {} 0, {}) as = some s →
      engineMachine.step s.1 a = some e' → .error "retransmission timeout" ∈ entered s.1 e' →
      s.1.conf.cfg.maxRetransmits ≤ s.2.resent + s.2.unbuilt ∧
        (1 ≤ oneTry.sndMss → oneTry.sndMss ≤ 65535 → s.2.unbuilt = 0)) := by
  have hall := retransmission_schedule oneTry {} 0 rfl
  have h : ((engineMachine.run (init oneTry {} 0) oneTryRun).bind fun e =>
      (engineMachine.step e (.send [7, 8] false false none)).map fun f =>
        (e.tcb.state, [e.buf.retx.length, e.tcb.sndWnd, f.buf.retx.length],
          [e.conf.cfg.userTimeout, e.conf.cfg.keepaliveIdle, some e.conf.cfg.rtoMax,
            some e.rt.rtt.rto, some e.now], e.conf.cfg.maxRetransmits)) =
      some (.established, [0, 65535, 1], [none, none, some 60, some 1, some 1], 1) := by
    decide +kernel
  obtain ⟨e, he, h⟩ := Option.bind_eq_some_iff.mp h
  obtain ⟨f, hf, hv⟩ := Option.map_eq_some_iff.mp h
  simp only [Prod.mk.injEq, List.cons.injEq, Option.some.injEq, and_true] at hv
  obtain ⟨hst, ⟨hq, hw, hlen⟩, ⟨hu, hka, hmax, hrto, hnow⟩, hm⟩ := hv
  have hne : f.buf.retx ≠ [] := by
    intro hx
    rw [hx] at hlen
    cases hlen
  obtain ⟨o, rest, ho, -, -, hadv⟩ := hall.1 e f [7, 8] false false 1 ⟨_, he⟩ hst
    (List.length_eq_zero_iff.mp hq) (by omega) hu (by omega) (by rw [hrto]; decide)
    (by rw [hrto, hmax]; decide) hf hne
  obtain ⟨fuel, t, k, ht, htn, hk⟩ := hadv (fun idle hi => by rw [hka] at hi; cases hi) 5
    (by rw [hnow]; decide)
  exact ⟨⟨e, f, t, o, k, he, hf, by rw [ho]; rfl, ⟨fuel, ht⟩, htn, hk⟩, hall.2⟩

/-- An MSS that does not fit its option, and one retransmission allowed. -/
def oversizedSyn : EngineArgs :=
  { oneTry with sndMss := 70000 }

/-- A first connection is left with a closed window and its persist timer. In the second
the SYN cannot be built, so that only the probes of that timer arm the retransmission
timer. -/
def oversizedSynRun : List Action :=
  [.passiveOpen,
    .segment [0, 80, 3, 232, 0, 0, 3, 232, 0, 0, 0, 0, 80, 2, 255, 255, 0, 0, 0, 0],
    .segment [0, 80, 3, 232, 0, 0, 3, 233, 0, 0, 0, 101, 80, 16, 0, 0, 0, 0, 0, 0],
    .send [1] false false none, .abort, .activeOpen, .send [2, 3] false false none,
    .tick 1, .expire ⟨1, 1, .onPersist, false⟩, .tick 1, .expire ⟨2, 2, .onRto, false⟩,
    .tick 1, .expire ⟨3, 3, .onPersist, false⟩, .tick 2]

/-- The engine gives up although the SYN has not gone out again, nor at all. -/
theorem gives_up_unsent :
    ∃ s e', tallyMachine.run (init oversizedSyn {} 0, {}) oversizedSynRun = some s ∧
    engineMachine.step s.1 (.expire ⟨4, 5, .onRto, false⟩) = some e' ∧
    .error "retransmission timeout" ∈ entered s.1 e' ∧
    s.2.resent < s.1.conf.cfg.maxRetransmits := by
  have h : ((tallyMachine.run (init oversizedSyn {} 0, {}) oversizedSynRun).bind fun s =>
      (engineMachine.step s.1 (.expire ⟨4, 5, .onRto, false⟩)).map fun e' =>
        ((entered s.1 e').contains (.error "retransmission timeout"), s.2.resent,
          s.1.conf.cfg.maxRetransmits)) = some (true, 0, 1) := by
    decide +kernel
  obtain ⟨s, hs, h⟩ := Option.bind_eq_some_iff.mp h
  obtain ⟨e', he, hv⟩ := Option.map_eq_some_iff.mp h
  simp only [Prod.mk.injEq, List.contains_iff_mem] at hv
  obtain ⟨hmem, hres, hmax⟩ := hv
  exact ⟨s, e', hs, he, hmem, by omega⟩

end HdlPlayground.Tcp

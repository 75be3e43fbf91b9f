import Mathlib.Algebra.BigOperators.Group.Finset.Basic
import Mathlib.Algebra.Order.Archimedean.Basic
import Mathlib.Tactic.Linarith
import HdlPlayground.Tcp.Clock
import HdlPlayground.Tcp.Measurement
import HdlPlayground.Tcp.Timeouts

/-!
# The schedule of retransmissions

What happens after a SEND that nothing answers. The retransmission timer is armed when the
first segment goes out, and each expiry sends the head of the queue again and arms it for
twice as long, up to `rto_max`; the other timers send at most acknowledgements. After
`max_retransmits` retransmissions the next expiry gives up, and nothing is left to expire.
-/
namespace HdlPlayground.Tcp

/-- What a SEND has started: the segment at the head of the queue, and what its schedule
depends on. -/
structure Launch where
  head : Outgoing
  start : ℚ
  rto : ℚ
  cap : ℚ
  tries : Nat

namespace Launch

/-- `t0 + sum_{i<k} min(2^i*r0, rto_max)`. -/
def due (l : Launch) (k : Nat) : ℚ := l.start + ∑ i ∈ Finset.range k, min (2 ^ i * l.rto) l.cap

/-- The first `n` retransmissions of the head. -/
def resends (l : Launch) (n : Nat) : List (ℚ × Int × Flags × List UInt8) :=
  (List.range n).map fun i => (l.due (i + 1), l.head.seq, l.head.flags, l.head.payload)

theorem due_zero (l : Launch) : l.due 0 = l.start := by simp [due]

theorem due_succ (l : Launch) (k : Nat) :
    l.due (k + 1) = l.due k + min (2 ^ k * l.rto) l.cap := by
  rw [due, Finset.sum_range_succ, due, add_assoc]

theorem resends_succ (l : Launch) (n : Nat) : l.resends (n + 1) =
    l.resends n ++ [(l.due (n + 1), l.head.seq, l.head.flags, l.head.payload)] := by
  rw [resends, List.range_succ, List.map_append]
  rfl

/-- The interval doubles up to the cap. -/
theorem interval_succ {l : Launch} (h0 : 0 < l.rto) (h1 : l.rto ≤ l.cap) (k : Nat) :
    min (min (2 ^ k * l.rto) l.cap * 2) l.cap = min (2 ^ (k + 1) * l.rto) l.cap := by
  have hpow : (2 : ℚ) ^ (k + 1) * l.rto = 2 ^ k * l.rto * 2 := by
    rw [pow_succ]
    ring
  rw [hpow]
  rcases le_total (2 ^ k * l.rto) l.cap with h | h
  · rw [min_eq_left h]
  · have h2 : l.cap ≤ 2 ^ k * l.rto * 2 := by linarith
    rw [min_eq_right h, min_eq_right h2, min_eq_right (by linarith)]

theorem interval_pos {l : Launch} (h0 : 0 < l.rto) (h1 : l.rto ≤ l.cap) (k : Nat) :
    0 < min (2 ^ k * l.rto) l.cap :=
  lt_min (by positivity) (lt_of_lt_of_le h0 h1)

end Launch

namespace TcpEngine

open EngineTimers ManualScheduler

variable {a : Action} {e e' f b : TcpEngine} {l : Launch} {k : Nat}

/-! ## The SEND -/

/-- The send loop has put the head on the queue, and armed the timer for it. -/
structure Launching (b e : TcpEngine) : Prop where
  conf : e.conf = b.conf
  state : e.tcb.state = b.tcb.state
  rtt : e.rt.rtt = b.rt.rtt
  now : e.now = b.now
  count : e.tm.rtoCount = b.tm.rtoCount
  timely : e.tm.Timely
  idle : e.buf.retx = [] → e.tm.rtTimer = none
  head : ∀ o rest, e.buf.retx = o :: rest → o.flags.syn = false ∧ o.payload ≠ [] ∧
    ∃ g ∈ e.tm.sched.live, g.cb = .onRto ∧
      g.deadline = b.now + if b.rt.rtt.rto < 0 then 0 else b.rt.rtt.rto
  log : ∃ evs, e.env.log = b.env.log ++ evs ∧ ∀ o rest, e.buf.retx = o :: rest →
    ∃ seg, .tx seg ∈ evs ∧ seg.seq = o.seq ∧ seg.flags = o.flags ∧ seg.payload = o.payload

theorem mem_live_startRt {g : TimerHandle Callback} : g ∈ e.startRt.tm.sched.live ↔
    g ∈ e.tm.sched.live ∨ g = ⟨e.tm.sched.counter,
      e.now + (if e.rt.rtt.rto < 0 then 0 else e.rt.rtt.rto), .onRto, false⟩ :=
  mem_live_callLater

/-- One chunk goes out. -/
theorem Launching.sendChunk (h : Launching b e) {n : Nat} (hn : 0 < n)
    (hb : e.buf.appBuf ≠ []) : Launching b (e.sendChunk n) := by
  have hpay : e.buf.appBuf.take n ≠ [] := by
    rw [← List.length_pos_iff, List.length_take]
    have := List.length_pos_iff.mpr hb
    omega
  have hq : (e.sendChunk n).buf.retx = e.buf.retx ++
      [(e.takeChunk n).outgoing (e.takeChunk n).chunkFlags (e.buf.appBuf.take n)] := by
    simp [queueChunk]
  have htm : (e.sendChunk n).tm = (e.queueChunk n).tm := sendChunk_tm n
  -- the engine as the chunk is on the queue and its segment is out
  let q := ((e.takeChunk n).advertise.enqueue (e.takeChunk n).chunkFlags
    (e.buf.appBuf.take n)).emit (.tx ((e.takeChunk n).segmentFor (e.takeChunk n).tcb.sndNxt
      (e.takeChunk n).chunkFlags (e.buf.appBuf.take n) false (e.takeChunk n).urgentPointer))
  have hqc : e.queueChunk n = q.armRt := queueAndSend_plain _ _ _ _
  have hretx : q.buf.retx ≠ [] := by
    show e.buf.retx ++ [_] ≠ []
    simp
  have htime : (e.queueChunk n).tm.Timely := by
    rw [hqc]
    exact (armRt_retimes (e := q) h.timely).timely h.timely
  have hnow : (e.queueChunk n).now = e.now := by
    rw [hqc]
    exact (armRt_retimes (e := q) h.timely).now
  have hrtt : (e.sendChunk n).rt.rtt = e.rt.rtt := by
    obtain ⟨psh, hp⟩ := sendChunk_eq (e := e) n
    rw [hp]
    show (e.queueChunk n).rt.rtt = _
    rw [queueChunk, queueAndSend_rt]
    rfl
  have hcount : (e.sendChunk n).tm.rtoCount = e.tm.rtoCount := by
    rw [htm, queueChunk_rtoCount]
  have hlog : (e.sendChunk n).env.log = e.env.log ++ [.tx ((e.takeChunk n).segmentFor
      (e.takeChunk n).tcb.sndNxt (e.takeChunk n).chunkFlags (e.buf.appBuf.take n) false
      (e.takeChunk n).urgentPointer)] := by
    rw [sendChunk_env, hqc, armRt_env]
    rfl
  refine ⟨?_, ?_, hrtt.trans h.rtt, ?_, hcount.trans h.count, ?_, ?_, ?_, ?_⟩
  · rw [sendChunk_conf, h.conf]
  · rw [sendChunk_tcb, queueChunk_state, h.state]
  · show (e.sendChunk n).tm.sched.now = _
    rw [htm]
    exact hnow.trans h.now
  · rw [htm]
    exact htime
  · intro hx
    rw [hq] at hx
    simp at hx
  · intro o rest hx
    rw [hq] at hx
    rw [htm, hqc]
    cases hr : e.buf.retx with
    | nil =>
      -- the head goes out now, and the timer is armed
      rw [hr, List.nil_append, List.cons.injEq] at hx
      obtain ⟨rfl, -⟩ := hx
      refine ⟨rfl, hpay, ?_⟩
      have hrt : q.tm.rtTimer = none := h.idle hr
      have harm : q.armRt = q.startRt := by
        rw [armRt, if_neg hretx, hrt]
      rw [harm]
      refine ⟨_, mem_live_startRt.mpr (Or.inr rfl), rfl, ?_⟩
      show e.now + (if e.rt.rtt.rto < 0 then 0 else e.rt.rtt.rto) = _
      rw [h.now, h.rtt]
    | cons o' rest' =>
      -- the head and its timer were there before
      rw [hr, List.cons_append, List.cons.injEq] at hx
      obtain ⟨rfl, -⟩ := hx
      obtain ⟨hs, hp, g, hg, hcb, hd⟩ := h.head _ _ hr
      refine ⟨hs, hp, g, ?_, hcb, hd⟩
      have hslot : q.tm.rtTimer = some g.id := by
        have := h.timely.held g hg
        rw [hcb] at this
        exact this
      have hlive : q.tm.sched.isCancelled g.id = false :=
        h.timely.isCancelled_eq .onRto hslot
      have harm : q.armRt = q := by
        rw [armRt, if_neg hretx, hslot]
        dsimp only
        rw [hlive]
        rfl
      rw [harm]
      exact hg
  · obtain ⟨evs, he, hseg⟩ := h.log
    refine ⟨evs ++ [_], by rw [hlog, he, List.append_assoc], fun o rest hx => ?_⟩
    rw [hq] at hx
    cases hr : e.buf.retx with
    | nil =>
      rw [hr, List.nil_append, List.cons.injEq] at hx
      obtain ⟨rfl, -⟩ := hx
      exact ⟨_, List.mem_append_right _ (List.mem_singleton.mpr rfl), rfl, rfl, rfl⟩
    | cons o' rest' =>
      rw [hr, List.cons_append, List.cons.injEq] at hx
      obtain ⟨rfl, -⟩ := hx
      obtain ⟨seg, hm, hs⟩ := hseg _ _ hr
      exact ⟨seg, List.mem_append_left _ hm, hs⟩

theorem SendRun.launching {r : TcpEngine × Bool} (h : SendRun e r) (hl : Launching b e)
    (hw : e.tcb.sndWnd ≠ 0) (hm : e.tcb.sndMss ≠ 0) : Launching b r.1 := by
  induction h with
  | empty => exact hl
  | closed e _ hx => exact absurd hx hw
  | held => exact hl
  | hang e => exact ⟨hl.conf, hl.state, hl.rtt, hl.now, hl.count, hl.timely, hl.idle, hl.head,
      hl.log⟩
  | chunk e r hb _ hu _ _ ih =>
    have hn : 0 < e.chunkLen := by
      have := List.length_pos_iff.mpr hb
      unfold chunkLen
      omega
    exact ih (hl.sendChunk hn hb) (by simpa using hw) (by simpa using hm)

/-- A SEND in ESTABLISHED that starts transmission. -/
theorem send_launching {data : List UInt8} {push urgent : Bool} {t : Option ℚ} (ht : e.TimerInv)
    (hx : e.Rested) (hs : e.tcb.state = .established) (hq : e.buf.retx = [])
    (hw : e.tcb.sndWnd ≠ 0) (hstep : engineMachine.step e (.send data push urgent t) = some f)
    (hf : f.buf.retx ≠ []) :
    f.tcb.sndWnd = e.tcb.sndWnd ∧
      Launching ((e.enter.setUserTimeout t).bufferData data push) f := by
  simp only [engineMachine] at hstep
  split_ifs at hstep with _ hhung
  obtain rfl := Option.some.inj hstep
  simp only [perform] at hf hhung ⊢
  by_cases ha : e.enter.AcceptsSend
  swap
  · obtain ⟨msg, hr⟩ := send_of_refused data push urgent t ha
    rw [hr] at hf
    exact absurd hq hf
  rw [send_of_accepts data push urgent t ha] at hf hhung ⊢
  generalize hb : (e.enter.setUserTimeout t).bufferData data push = b at hf hhung ⊢
  have hbt : b.tcb = e.tcb := by
    rw [← hb]
    simp
  have hbq : b.buf.retx = [] := by
    rw [← hb]
    show (e.enter.setUserTimeout t).buf.retx = []
    rw [setUserTimeout_buf]
    exact hq
  have hbm : b.tm = e.tm := by
    rw [← hb]
    show (e.enter.setUserTimeout t).tm = e.tm
    rw [setUserTimeout_tm, enter_tm]
  have hbf : b.fin.finPending = false := by
    rw [← hb]
    simpa using ha.2
  rw [sendBuffered, if_neg (by simp [hbt, hs])] at hf hhung ⊢
  have hbs : b.tcb.state = .established := by rw [hbt, hs]
  -- the engine once SND.UP is set
  have hc : ∃ c : TcpEngine, c.conf = b.conf ∧ c.buf = b.buf ∧ c.tm = b.tm ∧ c.rt = b.rt ∧
      c.fin = b.fin ∧ c.tcb.state = b.tcb.state ∧ c.tcb.sndWnd = b.tcb.sndWnd ∧
      c.env.log = b.env.log ∧ b.sendQueued data urgent = c.sendPending := by
    unfold sendQueued
    dsimp only
    split
    · exact ⟨b.setSndUp, rfl, rfl, rfl, rfl, rfl, rfl, rfl, rfl, if_pos (Or.inl hbs)⟩
    · exact ⟨b, rfl, rfl, rfl, rfl, rfl, rfl, rfl, rfl, if_pos (Or.inl hbs)⟩
  obtain ⟨c, h1, h2, h3, h4, h5, h6, h7, h8, hcs⟩ := hc
  rw [hcs] at hf hhung ⊢
  have hcq : c.buf.retx = [] := by rw [h2, hbq]
  have hcw : c.tcb.sndWnd ≠ 0 := by rw [h7, hbt]; exact hw
  have hl : Launching b c := by
    refine ⟨h1, h6, by rw [h4], ?_, by rw [h3], ?_, ?_, ?_, [], by rw [h8, List.append_nil], ?_⟩
    · show c.tm.sched.now = b.tm.sched.now
      rw [h3]
    · rw [h3, hbm]
      exact ht.timely
    · intro _
      rw [h3, hbm]
      exact hx.timer hq
    · intro o rest ho
      rw [hcq] at ho
      cases ho
    · intro o rest ho
      rw [hcq] at ho
      cases ho
  -- a loop with no room for text in a segment would have hung
  have hrun {r : TcpEngine × Bool} (h : SendRun c r) (hr : r.1.buf.retx ≠ [])
      (hh : r.1.env.hung = false) : Launching b r.1 := by
    refine h.launching hl hcw fun hm => ?_
    cases h with
    | empty => exact hr hcq
    | closed => exact hr (by simpa using hcq)
    | held => exact hr hcq
    | hang => cases hh
    | chunk _ _ hb hw hu hn h =>
      have := SendRun.hangs (.chunk c r hb hw hu hn h) hm hb hw hu
      rw [this] at hh
      cases hh
  rw [Bool.not_eq_true] at hhung
  rcases c.sendPending_cases with ⟨-, h⟩ | ⟨-, h⟩ | ⟨-, g, h, hg⟩
  · rw [h] at hf
    exact absurd hcq hf
  · exact ⟨by rw [h.sndWnd, h7, hbt], hrun h hf hhung⟩
  · have hgf : g.finPart = g := by
      have hfin := h.fin
      dsimp only at hfin
      rw [finPart, if_neg]
      simp [hfin, h5, hbf]
    rw [hg, hgf] at hf hhung ⊢
    exact ⟨by rw [h.sndWnd, h7, hbt], hrun h hf hhung⟩

/-! ## Unanswered -/

/-- What follows the SEND unanswered, after `k` retransmissions of its head. -/
structure Unanswered (l : Launch) (k : Nat) (e : TcpEngine) : Prop where
  ready : e.Ready
  timers : e.TimerInv
  state : e.tcb.state = .established
  window : e.tcb.sndWnd ≠ 0
  head : ∃ o rest, e.buf.retx = o :: rest ∧ o.seq = l.head.seq ∧ o.flags = l.head.flags ∧
    o.payload = l.head.payload
  text : l.head.flags.syn = false ∧ l.head.payload ≠ []
  tries : k ≤ l.tries
  limits : e.conf.cfg.maxRetransmits = l.tries ∧ e.conf.cfg.rtoMax = l.cap ∧
    e.conf.cfg.userTimeout = none
  count : e.tm.rtoCount = k
  rto : 0 < l.rto ∧ l.rto ≤ l.cap ∧ e.rt.rtt.rto = min (2 ^ k * l.rto) l.cap
  timer : ∃ g ∈ e.tm.sched.live, g.cb = .onRto ∧ g.deadline = l.due (k + 1)
  now : l.due k ≤ e.now ∧ e.now ≤ l.due (k + 1)

/-- The engine has given up, and no timer is left. -/
structure Over (e : TcpEngine) : Prop where
  state : e.tcb.state = .closed
  timers : e.tm.sched.live = []

/-- The event neither takes sequence space nor reports an error. -/
def Minor : Event → Prop
  | .tx seg => seg.segLen = 0
  | .error _ => False
  | _ => True

/-- A timer other than the retransmission timer expires: at most an acknowledgement is
sent, and at most the keepalive timer is armed again. -/
structure Passes (h : TimerHandle Callback) (e f : TcpEngine) : Prop where
  tcb : f.tcb = e.tcb
  conf : f.conf = e.conf
  retx : f.buf.retx = e.buf.retx
  rtt : f.rt.rtt = e.rt.rtt
  count : f.tm.rtoCount = e.tm.rtoCount
  now : f.now = e.now
  exc : f.env.exc = none
  hung : f.env.hung = e.env.hung
  log : Logs Minor e f
  survive : ∀ g ∈ e.tm.sched.live, g.cb ≠ h.cb → g ∈ f.tm.sched.live
  live : ∀ g ∈ f.tm.sched.live, (g ∈ e.tm.sched.live ∧ g.cb ≠ h.cb) ∨
    (h.cb = .onKeepalive ∧ g.cb = .onKeepalive ∧ ∃ idle, e.conf.cfg.keepaliveIdle = some idle ∧
      ∃ d, (d = idle ∨ d = e.conf.cfg.keepaliveInterval) ∧
        g.deadline = e.now + if d < 0 then 0 else d)

theorem mem_live_fire {h g : TimerHandle Callback} (ht : e.tm.Timely)
    (hl : h ∈ e.tm.sched.live) : g ∈ (e.fire h).tm.sched.live ↔
      g ∈ e.tm.sched.live ∧ g.cb ≠ h.cb := by
  have hsched : (e.fire h).tm.sched = e.tm.sched.pop h.id := by
    unfold fire
    cases h.cb <;> rfl
  rw [hsched, mem_live_pop]
  refine and_congr_right fun hg => not_congr ⟨fun hid => ?_, fun hcb => ?_⟩
  · rw [ht.id_inj (mem_live.mp hg).1 (mem_live.mp hl).1 hid]
  · rw [ht.unique hg hl hcb]

theorem Passes.of_fire {h : TimerHandle Callback} (ht : e.tm.Timely)
    (hl : h ∈ e.tm.sched.live) : Passes h e (e.enter.fire h) where
  tcb := by simp
  conf := by simp
  retx := by simp
  rtt := by simp
  count := by simp
  now := by simp
  exc := by simp [enter]
  hung := by simp [enter]
  log := .none (by simp [enter])
  survive := fun _ hg hcb => (mem_live_fire (e := e.enter) ht hl).mpr ⟨hg, hcb⟩
  live := fun _ hg => Or.inl ((mem_live_fire (e := e.enter) ht hl).mp hg)

/-- A step is its action performed. -/
theorem step_performed (hs : engineMachine.step e a = some f) :
    e.Enabled a ∧ f = e.enter.perform a := by
  simp only [engineMachine] at hs
  split_ifs at hs with hen
  exact ⟨hen, (Option.some.inj hs).symm⟩

/-- While something is unanswered, what the other timers do. -/
theorem Unanswered.passes (hu : Unanswered l k e) {h : TimerHandle Callback}
    (hcb : h.cb ≠ .onRto) (hl : h ∈ e.tm.sched.live) :
    Passes h e (e.enter.perform (.expire h)) := by
  have hp := Passes.of_fire hu.timers.timely hl
  have hslot : (e.enter.fire h).tm.slot h.cb = none := fire_slot
  have hfire : (e.enter.popTimer h).forgetTimer h.cb = e.enter.fire h := rfl
  obtain ⟨o, rest, hq, -⟩ := hu.head
  rw [perform]
  cases hc : h.cb with
  | onRto => exact absurd hc hcb
  | onPersist =>
    -- the window is open and the engine has sent what it may
    have hb : (e.enter.fire h).Blocked :=
      (hu.ready.drained.blocked.of_view rfl : e.enter.Blocked).fire h
    have hns : ¬ (e.enter.fire h).Stuck := by
      rintro ⟨-, -, h0⟩
      rw [fire_tcb] at h0
      exact hu.window h0
    rw [hc] at hfire
    rw [callback, onPersist, hfire]
    rw [if_pos (by simpa using Nat.pos_of_ne_zero hu.window), sendPending_of_blocked hb,
      if_neg hns]
    exact hp
  | onDelack =>
    rw [hc] at hfire hslot
    rw [callback, onDelack, hfire]
    have htm : (e.enter.fire h).sendAck.tm.sched = (e.enter.fire h).tm.sched := by
      rw [sendAck_tm]
      show (e.enter.fire h).tm.sched.cancel (e.enter.fire h).tm.ackTimer = _
      rw [show (e.enter.fire h).tm.ackTimer = none from hslot, cancel_none]
    refine ⟨?_, ?_, ?_, ?_, ?_, ?_, ?_, ?_, ?_, ?_, ?_⟩
    · rw [sendAck_tcb, hp.tcb]
    · rw [sendAck_conf, hp.conf]
    · rw [sendAck_buf, hp.retx]
    · rw [sendAck_rt, hp.rtt]
    · rw [sendAck_rtoCount, hp.count]
    · show (e.enter.fire h).sendAck.tm.sched.now = _
      rw [htm]
      exact hp.now
    · simp [enter]
    · simp [enter]
    · exact hp.log.trans (.one (.tx (e.enter.fire h).ackSegment) (by simp) rfl)
    · rw [htm]
      exact hp.survive
    · rw [htm]
      exact hp.live
  | onTimeWait =>
    have hslots := hu.timers.timely.held h hl
    rw [hc] at hslots
    have htw := hu.timers.timeWait (by rw [show e.tm.twTimer = some h.id from hslots]; simp)
    rw [hu.state] at htw
    cases htw
  | onKeepalive =>
    rw [hc] at hfire hslot
    rw [callback, onKeepalive, hfire]
    split_ifs with hka hretx
    · exact hp
    · -- the retransmission timer owns liveness while data is in flight
      rw [not_or, not_not] at hka
      obtain ⟨idle, hidle⟩ := Option.ne_none_iff_exists'.mp hka.1
      have hk : (e.enter.fire h).tm.kaTimer = none := hslot
      have hsched : ∃ d, (d = idle ∨ d = e.conf.cfg.keepaliveInterval) ∧
          ((e.enter.fire h).restartKeepalive false).tm.sched =
            ((e.enter.fire h).tm.sched.callLater d .onKeepalive).2 := by
        unfold restartKeepalive
        rw [hidle]
        dsimp only
        rw [if_neg (by simpa using hka.2), hk, cancel_none]
        dsimp only
        refine ⟨_, ?_, rfl⟩
        simp only [Bool.false_eq_true, if_false, fire_conf, enter_conf]
        split
        · exact Or.inl rfl
        · exact Or.inr rfl
      obtain ⟨d, hd, hsched⟩ := hsched
      refine ⟨?_, ?_, ?_, ?_, ?_, ?_, ?_, ?_, ?_, ?_, ?_⟩
      · rw [restartKeepalive_tcb, hp.tcb]
      · rw [restartKeepalive_conf, hp.conf]
      · rw [restartKeepalive_buf, hp.retx]
      · rw [restartKeepalive_rt, hp.rtt]
      · rw [restartKeepalive_rtoCount, hp.count]
      · show ((e.enter.fire h).restartKeepalive false).tm.sched.now = _
        rw [hsched]
        exact hp.now
      · rw [restartKeepalive_env]
        exact hp.exc
      · rw [restartKeepalive_env]
        exact hp.hung
      · exact hp.log.trans (.none (by rw [restartKeepalive_env]))
      · intro g hg hgc
        rw [hsched, mem_live_callLater]
        exact Or.inl (hp.survive g hg hgc)
      · intro g hg
        rw [hsched, mem_live_callLater] at hg
        rcases hg with hg | rfl
        · exact hp.live g hg
        · refine Or.inr ⟨hc, rfl, idle, by simpa using hidle, d, hd, ?_⟩
          show (e.enter.fire h).now + _ = _
          rw [hp.now]
    · exact absurd (by simp [hq]) hretx
    · exact absurd (by simp [hq]) hretx

theorem Unanswered.after (hu : Unanswered l k e) {h : TimerHandle Callback}
    (hcb : h.cb ≠ .onRto) (hp : Passes h e f) (hs : engineMachine.step e (.expire h) = some f) :
    Unanswered l k f := by
  obtain ⟨g, hg, hgc, hd⟩ := hu.timer
  refine ⟨hu.ready.step hs, hu.ready.timerInv_step hu.timers hs, ?_, ?_, ?_, hu.text, hu.tries,
    ?_, ?_, ?_, ⟨g, hp.survive g hg (by rw [hgc]; exact hcb.symm), hgc, hd⟩, ?_⟩
  · rw [hp.tcb]
    exact hu.state
  · rw [hp.tcb]
    exact hu.window
  · rw [hp.retx]
    exact hu.head
  · rw [hp.conf]
    exact hu.limits
  · rw [hp.count]
    exact hu.count
  · rw [hp.rtt]
    exact hu.rto
  · rw [hp.now]
    exact hu.now

/-- Time passes, up to the next expiry at most. -/
theorem Unanswered.tick (hu : Unanswered l k e) {dt : ℚ} (h0 : 0 ≤ dt)
    (hd : e.now + dt ≤ l.due (k + 1)) : Unanswered l k (e.enter.passTime dt) := by
  refine ⟨?_, ?_, hu.state, hu.window, hu.head, hu.text, hu.tries, hu.limits, hu.count, hu.rto,
    hu.timer, ?_⟩
  · exact ⟨hu.ready.coherent, hu.ready.drained⟩
  · exact ⟨hu.timers.timely.passTime _, hu.timers.timeWait⟩
  · have hn : (e.enter.passTime dt).now = e.now + dt := rfl
    rw [hn]
    exact ⟨le_trans hu.now.1 (by linarith), hd⟩

/-- The retransmission timer expires on time. -/
theorem Unanswered.due (hu : Unanswered l k e) {h : TimerHandle Callback} (hcb : h.cb = .onRto)
    (hl : h ∈ e.tm.sched.live) (hd : h.deadline ≤ e.now) : e.now = l.due (k + 1) := by
  obtain ⟨g, hg, hgc, hgd⟩ := hu.timer
  have hgh := hu.timers.timely.unique hg hl (hgc.trans hcb.symm)
  rw [← hgh, hgd] at hd
  exact le_antisymm hu.now.2 hd

/-- The engine that gives up closes, with one report. -/
theorem Unanswered.gives_up (hu : Unanswered l k e) {h : TimerHandle Callback}
    (hl : h ∈ e.tm.sched.live) (hf : f.TimerInv)
    (he : f = (e.enter.fire h).countRto.giveUp "retransmission timeout") :
    f.now = e.now ∧ f.env.exc = none ∧ Over f ∧ ∃ evs evs', f.env.log = e.env.log ++ evs ++
      .error "retransmission timeout" :: evs' ∧ (∀ ev ∈ evs, Minor ev) ∧
      ∀ ev ∈ evs', Minor ev := by
  have hft : (e.enter.fire h).tm.Timely :=
    (fire_retimes (e := e.enter) hl).timely hu.timers.timely
  have hfl : (e.enter.fire h).env.log = e.env.log := by simp [enter]
  have hb : (e.enter.fire h).countRto.Blocked :=
    ((hu.ready.drained.blocked.of_view rfl : e.enter.Blocked).fire h).of_view rfl
  have hnow : f.now = e.now := by
    rw [he, (giveUp_times "retransmission timeout").now, countRto_now, fire_now, enter_now]
  obtain ⟨c, hc, hcb, hgive⟩ := giveUp_closes "retransmission timeout" hb
  rw [hgive] at he
  have hct : c.tm = (e.enter.fire h).countRto.tm ∧
      c.tcb = (e.enter.fire h).countRto.tcb ∧ c.env.exc = none := by
    obtain rfl | rfl := hc
    · exact ⟨rfl, rfl, by simp [countRto, enter]⟩
    · exact ⟨by simp, by simp, by simp [sendRst, countRto, enter]⟩
  have hcl : ∃ evs, c.env.log = e.env.log ++ evs ∧ ∀ ev ∈ evs, Minor ev := by
    obtain rfl | rfl := hc
    · exact Logs.none (P := Minor) (e := e) hfl
    · exact Logs.trans (P := Minor) (e := e) (f := (e.enter.fire h).countRto) (.none hfl)
        (sendRst_logs rfl)
  have hslots := enterClosed_slots hcb (by rw [signalError_tm, hct.1]; exact hft)
  have hnostuck : ¬ (c.signalError "retransmission timeout").Stuck := by
    rintro ⟨-, -, h0⟩
    rw [signalError_tcb, hct.2.1] at h0
    exact hu.window (by simpa [countRto] using h0)
  refine ⟨hnow, ?_, ⟨?_, ?_⟩, ?_⟩
  · obtain ⟨tm, hcd⟩ := enterClosed_closeDown hcb
    rw [he, hcd]
    simp [closeDown, hct.2.2]
  · rw [he]
    simp
  · refine List.eq_nil_iff_forall_not_mem.mpr fun g hg => ?_
    have hheld := hf.timely.held g hg
    rw [he] at hheld
    by_cases hgp : g.cb = .onPersist
    · have hnone : (c.signalError "retransmission timeout").enterClosed.tm.slot .onPersist =
        none := hslots.2.2.mpr hnostuck
      rw [hgp, hnone] at hheld
      cases hheld
    · rw [hslots.2.1 g.cb hgp] at hheld
      cases hheld
  · obtain ⟨evs, h1, h2⟩ := hcl
    obtain ⟨evs', h3, h4⟩ := enterClosed_logs (P := Minor) hcb (fun _ => trivial)
    refine ⟨evs, evs', ?_, h2, h4⟩
    rw [he, h3]
    show (c.env.log ++ [_]) ++ _ = _
    rw [h1]
    simp

/-- The head goes out again, and the timer is armed for twice as long. -/
theorem Unanswered.resends (hu : Unanswered l k e) {h : TimerHandle Callback} {o : Outgoing}
    {rest : List Outgoing} (hl : h ∈ e.tm.sched.live)
    (htime : e.now = l.due (k + 1)) (hk : k < l.tries) (hq : e.buf.retx = o :: rest)
    (hready : f.Ready) (htimers : f.TimerInv)
    (he : f = (e.enter.fire h).countRto.retransmitHead o rest) :
    f.now = e.now ∧ f.env.exc = none ∧ Unanswered l (k + 1) f ∧
      (∀ g ∈ f.tm.sched.live, (g ∈ e.tm.sched.live ∧ g.cb ≠ h.cb) ∨ g.cb = .onRto) ∧
      ∃ seg, f.env.log = e.env.log ++ [.tx seg] ∧ seg.seq = l.head.seq ∧
        seg.flags = l.head.flags ∧ seg.payload = l.head.payload := by
  obtain ⟨o', rest', hq', hseq, hflags, hpay⟩ := hu.head
  rw [hq] at hq'
  obtain ⟨rfl, rfl⟩ := List.cons.inj hq'
  rcases retransmitHead_cases (e := (e.enter.fire h).countRto) o rest with hr | ⟨hsyn, -, -⟩
  swap
  · rw [hflags, hu.text.1] at hsyn
    cases hsyn
  rw [hr] at he
  generalize hm : (e.enter.fire h).countRto.markRetransmitted o rest = m at he
  have hmt : m.tm = (e.enter.fire h).countRto.tm := by rw [← hm]; rfl
  have hml : m.env = (e.enter.fire h).env := by rw [← hm]; rfl
  have hmb : m.buf.retx = (e.enter.fire h).countRto.resent o :: rest := by rw [← hm]; rfl
  have hmr : m.rt.rtt = e.rt.rtt.backoff e.conf.cfg := by
    rw [← hm]
    simp [markRetransmitted]
  have hmc : m.conf = e.conf ∧ m.tcb = e.tcb := by
    rw [← hm]
    simp [markRetransmitted]
  have hrto : m.rt.rtt.rto = min (2 ^ (k + 1) * l.rto) l.cap := by
    rw [hmr, RttEstimator.backoff, hu.rto.2.2, hu.limits.2.1]
    exact Launch.interval_succ hu.rto.1 hu.rto.2.1 k
  have hpos := Launch.interval_pos hu.rto.1 hu.rto.2.1 (k + 1)
  have hnow : f.now = e.now := by
    rw [he]
    show m.tm.sched.now = _
    rw [hmt]
    exact fire_now (e := e.enter) h
  have hlive (g : TimerHandle Callback) : g ∈ f.tm.sched.live ↔
      (g ∈ e.tm.sched.live ∧ g.cb ≠ h.cb) ∨
        g = ⟨m.tm.sched.counter, l.due (k + 2), .onRto, false⟩ := by
    have hsched : f.tm.sched = (m.tm.sched.callLater m.rt.rtt.rto .onRto).2 := by
      rw [he]
      rfl
    have hdue : m.tm.sched.now + (if m.rt.rtt.rto < 0 then 0 else m.rt.rtt.rto) =
        l.due (k + 2) := by
      rw [if_neg (by rw [hrto]; linarith), hrto, l.due_succ (k + 1), ← htime, hmt]
      congr 1
      exact fire_now (e := e.enter) h
    rw [hsched, mem_live_callLater, hdue, hmt]
    exact or_congr_left (mem_live_fire (e := e.enter) hu.timers.timely hl)
  refine ⟨hnow, ?_, ⟨hready, htimers, ?_, ?_, ?_, hu.text, hk, ?_, ?_, ?_, ?_, ?_⟩, fun g hg => ?_,
    m.segmentFor o.seq o.flags o.payload o.flags.syn, ?_, hseq, hflags, hpay⟩
  · rw [he]
    show m.env.exc = none
    rw [hml]
    simp [enter]
  · rw [he]
    show m.tcb.state = _
    rw [hmc.2]
    exact hu.state
  · rw [he]
    show m.tcb.sndWnd ≠ 0
    rw [hmc.2]
    exact hu.window
  · rw [he]
    exact ⟨_, rest, hmb, hseq, hflags, hpay⟩
  · rw [he]
    show m.conf.cfg.maxRetransmits = _ ∧ m.conf.cfg.rtoMax = _ ∧ m.conf.cfg.userTimeout = _
    rw [hmc.1]
    exact hu.limits
  · rw [he]
    show m.tm.rtoCount = _
    rw [hmt, ← hu.count]
    simp [countRto]
  · refine ⟨hu.rto.1, hu.rto.2.1, ?_⟩
    rw [he]
    exact hrto
  · exact ⟨_, (hlive _).mpr (Or.inr rfl), rfl, rfl⟩
  · rw [hnow, htime, l.due_succ (k + 1)]
    exact ⟨le_refl _, by linarith⟩
  · rcases (hlive g).mp hg with hx | rfl
    · exact Or.inl hx
    · exact Or.inr rfl
  · rw [he]
    show m.env.log ++ [_] = _
    rw [hml, ← hm]
    simp [enter]

/-- The retransmission timer expires: the head goes out again, or the engine gives up. -/
theorem Unanswered.expires (hu : Unanswered l k e) {h : TimerHandle Callback}
    (hcb : h.cb = .onRto) (hs : engineMachine.step e (.expire h) = some f) :
    f.now = l.due (k + 1) ∧ f.env.exc = none ∧
      ((k < l.tries ∧ Unanswered l (k + 1) f ∧
          (∀ g ∈ f.tm.sched.live, (g ∈ e.tm.sched.live ∧ g.cb ≠ h.cb) ∨ g.cb = .onRto) ∧
          ∃ seg, f.env.log = e.env.log ++ [.tx seg] ∧ seg.seq = l.head.seq ∧
            seg.flags = l.head.flags ∧ seg.payload = l.head.payload) ∨
        (k = l.tries ∧ Over f ∧ ∃ evs evs', f.env.log = e.env.log ++ evs ++
          .error "retransmission timeout" :: evs' ∧ (∀ ev ∈ evs, Minor ev) ∧
          ∀ ev ∈ evs', Minor ev)) := by
  obtain ⟨⟨hl, hd⟩, -⟩ := step_performed hs
  have htime := hu.due hcb hl hd
  have hready := hu.ready.step hs
  have htimers := hu.ready.timerInv_step hu.timers hs
  have hcount := hu.count
  have hmax := hu.limits.1
  have htries := hu.tries
  have hut : (e.enter.fire h).userTimeoutExpired = false := by
    have hlim : (e.enter.fire h).conf.cfg.userTimeout = none := by
      rw [fire_conf]
      exact hu.limits.2.2
    rw [userTimeoutExpired, hlim]
  rcases step_rto hcb hs with ⟨hnil, -⟩ | ⟨o, rest, hq, ⟨hx, -⟩ | ⟨-, hmax', he⟩ | ⟨-, hle, he⟩⟩
  · obtain ⟨o, rest, hq, -⟩ := hu.head
    rw [hq] at hnil
    cases hnil
  · rw [hut] at hx
    cases hx
  · obtain ⟨hnow, hexc, hover, hlog⟩ := hu.gives_up hl htimers he
    exact ⟨hnow.trans htime, hexc, Or.inr ⟨by omega, hover, hlog⟩⟩
  · have hk : k < l.tries := by omega
    obtain ⟨hnow, hexc, hnext, hlive, hlog⟩ := hu.resends hl htime hk hq hready htimers he
    exact ⟨hnow.trans htime, hexc, Or.inl ⟨hk, hnext, hlive, hlog⟩⟩

end TcpEngine

namespace Timed

open TcpEngine

variable {t t' u : Timed} {l : Launch} {k : Nat} {target : ℚ}

/-! ## The record -/

/-- The record after the head has been retransmitted `n` times, and the engine has given
up or not. -/
structure Recorded (l : Launch) (n : Nat) (ended : Bool) (t : Timed) : Prop where
  sent : (sentIn t.record).map (fun x => (x.1, x.2.seq, x.2.flags, x.2.payload)) = l.resends n
  failures : failuresIn t.record =
    if ended then [(l.due (l.tries + 1), "retransmission timeout")] else []

/-- After `k` expiries of the retransmission timer: the head has been retransmitted, on
time and unchanged, once for each but the last of `max_retransmits + 1`, and nothing else
that takes sequence space has been sent; at that one the engine has given up. -/
structure OnSchedule (l : Launch) (k : Nat) (t : Timed) : Prop where
  expiries : k ≤ l.tries + 1
  sent : (sentIn t.record).map (fun x => (x.1, x.2.seq, x.2.flags, x.2.payload)) =
    l.resends (min k l.tries)
  failures : failuresIn t.record =
    if k = l.tries + 1 then [(l.due (l.tries + 1), "retransmission timeout")] else []
  waits : k ≤ l.tries → t.engine.tcb.state = .established ∧ t.now ≤ l.due (k + 1)
  ends : k = l.tries + 1 → t.engine.tcb.state = .closed
  reached : l.due k ≤ t.now

/-- A run on schedule: it waits for the next expiry, or it is over. -/
inductive Pending (l : Launch) (t : Timed) : Prop
  | waits (k : Nat) : Unanswered l k t.engine → Recorded l k false t → Pending l t
  | ended : Over t.engine → l.due (l.tries + 1) ≤ t.now → Recorded l l.tries true t → Pending l t

theorem Pending.onSchedule (h : Pending l t) : ∃ k, OnSchedule l k t := by
  cases h with
  | waits k hu hr =>
    have hk := hu.tries
    have hne : k ≠ l.tries + 1 := by omega
    refine ⟨k, by omega, ?_, ?_, fun _ => ⟨hu.state, hu.now.2⟩, fun hx => absurd hx hne, hu.now.1⟩
    · rw [hr.sent, min_eq_left hk]
    · rw [hr.failures, if_neg hne]
      rfl
  | ended ho hd hr =>
    refine ⟨l.tries + 1, le_refl _, ?_, ?_, fun hx => by omega, fun _ => ho.state, hd⟩
    · rw [hr.sent, min_eq_right (by omega)]
    · rw [hr.failures, if_pos rfl, if_pos rfl]

/-- Events that neither take sequence space nor report an error leave no trace. -/
theorem minor_record {evs : List Event} (h : ∀ ev ∈ evs, Minor ev) (now : ℚ) :
    sentIn (evs.map fun ev => (now, ev)) = [] ∧
      failuresIn (evs.map fun ev => (now, ev)) = [] := by
  simp only [sentIn, failuresIn, List.filterMap_eq_nil_iff, List.mem_map]
  constructor
  · rintro _ ⟨ev, hev, rfl⟩
    have hm := h ev hev
    cases ev with
    | tx seg => exact if_pos hm
    | _ => rfl
  · rintro _ ⟨ev, hev, rfl⟩
    have hm := h ev hev
    cases ev with
    | error msg => exact hm.elim
    | _ => rfl

theorem sentIn_append (r r' : List (ℚ × Event)) : sentIn (r ++ r') = sentIn r ++ sentIn r' :=
  List.filterMap_append

theorem failuresIn_append (r r' : List (ℚ × Event)) :
    failuresIn (r ++ r') = failuresIn r ++ failuresIn r' :=
  List.filterMap_append

/-- A step that logs only such events leaves the record as it was. -/
theorem Recorded.minor {ended : Bool} {evs : List Event} (h : Recorded l k ended t)
    (hr : t'.record = t.record ++ evs.map fun ev => (t'.now, ev)) (hm : ∀ ev ∈ evs, Minor ev) :
    Recorded l k ended t' := by
  obtain ⟨h1, h2⟩ := minor_record hm t'.now
  constructor
  · rw [hr, sentIn_append, h1, List.append_nil]
    exact h.sent
  · rw [hr, failuresIn_append, h2, List.append_nil]
    exact h.failures

theorem entered_eq {e f : TcpEngine} {evs : List Event} (h : f.env.log = e.env.log ++ evs) :
    entered e f = evs := by
  rw [entered, h, List.drop_left]

/-! ## Undisturbed steps -/

/-- What each expiry does to a run on schedule. -/
theorem Pending.expire (h : Pending l t) {g : TimerHandle Callback}
    (hs : timedMachine.step t (.expire g) = some t') : Pending l t' := by
  obtain ⟨hstep, hrec⟩ := step_eq hs
  cases h with
  | ended ho =>
    have hl : g ∈ t.engine.tm.sched.live := (step_performed hstep).1.1
    rw [ho.timers] at hl
    cases hl
  | waits k hu hr =>
    by_cases hcb : g.cb = .onRto
    swap
    · obtain ⟨hen, he⟩ := step_performed hstep
      have hp := hu.passes hcb hen.1
      rw [← he] at hp
      obtain ⟨evs, hl, hm⟩ := hp.log
      rw [entered_eq hl] at hrec
      exact .waits k (hu.after hcb hp hstep) (hr.minor hrec hm)
    obtain
        ⟨hnow, -, ⟨hk, hu', -, seg, hl, hseq, hflags, hpay⟩ | ⟨hk, ho, evs, evs', hl, hm, hm'⟩⟩ :=
      hu.expires hcb hstep
    · rw [entered_eq hl] at hrec
      have hlen : seg.segLen ≠ 0 := by
        have := List.length_pos_iff.mpr hu.text.2
        rw [TcpSegment.segLen, hpay]
        omega
      refine .waits (k + 1) hu' ⟨?_, ?_⟩
      · have hsent : sentIn t'.record = sentIn t.record ++ [(t'.now, seg)] := by
          rw [hrec, sentIn_append]
          simp [sentIn, hlen]
        rw [hsent, List.map_append, hr.sent, l.resends_succ, List.map_cons, List.map_nil, hseq,
          hflags, hpay]
        show _ ++ [(t'.engine.now, _)] = _
        rw [hnow]
      · rw [hrec, failuresIn_append, hr.failures]
        rfl
    · rw [entered_eq (hl.trans (List.append_assoc _ _ _)), List.map_append, List.map_cons] at hrec
      obtain ⟨h1, h2⟩ := minor_record hm t'.now
      obtain ⟨h3, h4⟩ := minor_record hm' t'.now
      refine .ended ho ?_ ⟨?_, ?_⟩
      · show _ ≤ t'.engine.now
        rw [hnow, hk]
      · have hmid : sentIn ((t'.now, Event.error "retransmission timeout") ::
            evs'.map fun ev => (t'.now, ev)) = [] := h3
        rw [hrec, sentIn_append, sentIn_append, h1, hmid, List.append_nil, List.append_nil,
          hr.sent, hk]
      · have hmid : failuresIn ((t'.now, Event.error "retransmission timeout") ::
            evs'.map fun ev => (t'.now, ev)) = (t'.now, "retransmission timeout") ::
              failuresIn (evs'.map fun ev => (t'.now, ev)) := rfl
        rw [hrec, failuresIn_append, failuresIn_append, hr.failures, h2, hmid, h4,
          if_neg (by decide), if_pos rfl]
        show [(t'.engine.now, _)] = _
        rw [hnow, hk]

/-- What the passing of time does to it. -/
theorem Pending.tick (h : Pending l t) {dt : ℚ} (hx : Undisturbed t (.tick dt))
    (hs : timedMachine.step t (.tick dt) = some t') : Pending l t' := by
  obtain ⟨h0, he, hrec⟩ := step_tick hs
  have hkeep {n : Nat} {ended : Bool} (hr : Recorded l n ended t) : Recorded l n ended t' :=
    have hnil : t'.record = t.record ++ ([] : List Event).map fun ev => (t'.now, ev) := by
      simpa using hrec
    hr.minor hnil (by simp)
  have hnow : t'.now = t.now + dt := by
    rw [Timed.now, he]
    rfl
  cases h with
  | waits k hu hr =>
    obtain ⟨g, hg, -, hd⟩ := hu.timer
    have hle := hx g hg
    rw [hd, max_eq_right (show t.now ≤ _ from hu.now.2)] at hle
    refine .waits k ?_ (hkeep hr)
    rw [he]
    exact hu.tick h0 hle
  | ended ho hd hr =>
    refine .ended ?_ ?_ (hkeep hr)
    · rw [he]
      exact ⟨ho.state, ho.timers⟩
    · rw [hnow]
      linarith

theorem Pending.preserves (l : Launch) : timedMachine.Preserves Undisturbed (Pending l) := by
  intro t a t' h hx hs
  cases a with
  | tick dt => exact h.tick hx hs
  | expire g => exact h.expire hs
  | _ => exact hx.elim

end Timed

end HdlPlayground.Tcp

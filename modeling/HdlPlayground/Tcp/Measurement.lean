import HdlPlayground.Tcp.Unacknowledged

/-!
# The measurement in progress

`_rtt_pending` is set in the send path, cleared by a retransmission and by a reset, and
read when an acknowledgement is processed. Between two of these an entry point keeps the
measurement, drops it, or starts one with a segment that it transmits at that moment.
-/
namespace HdlPlayground.Tcp

namespace TcpEngine

variable {a : Action} {e e' f g : TcpEngine} {seg : TcpSegment}

/-! ## The clock -/

@[simp] theorem emit_now (ev : Event) : (e.emit ev).now = e.now := rfl

@[simp] theorem armRt_now : e.armRt.now = e.now := by
  unfold armRt
  split_ifs
  · rfl
  · split
    · split_ifs <;> rfl
    · rfl

@[simp] theorem armPersist_now : e.armPersist.now = e.now := by
  unfold armPersist
  split
  · split_ifs <;> rfl
  · rfl

@[simp] theorem restartKeepalive_now (b : Bool) : (e.restartKeepalive b).now = e.now :=
  (restartKeepalive_retimes e b).now

@[simp] theorem setState_now (st : ConnState) : (e.setState st).now = e.now :=
  (setState_retimes e st).now

@[simp] theorem processAck_now (ack : Int) : (e.processAck ack).now = e.now :=
  (processAck_retimes e ack).now

@[simp] theorem sendAck_now : e.sendAck.now = e.now := by
  show e.sendAck.tm.sched.now = _
  rw [sendAck_tm]
  exact (clearAckTimer_retimes e).now

@[simp] theorem queueAndSend_now (flags : Flags) (payload : List UInt8) (m : Bool) (urg : Nat) :
    (e.queueAndSend flags payload m urg).now = e.now := by
  obtain h | ⟨-, -, h⟩ := e.queueAndSend_cases flags payload m urg
  · rw [h, armRt_now]
    rfl
  · rw [h]
    rfl

/-! ## The numbers given out -/

/-- The `n` numbers from `b` on. -/
def numbersFrom (b : Int) (n : Nat) : List Int := (List.range n).map fun i : Nat => add b i

theorem numbersFrom_append {b c : Int} {n m : Nat} (h : (c - b - n) % 4294967296 = 0) :
    numbersFrom b n ++ numbersFrom c m = numbersFrom b (n + m) := by
  rw [numbersFrom, numbersFrom, numbersFrom, List.range_add, List.map_append, List.map_map]
  congr 1
  refine List.map_congr_left fun i _ => ?_
  simp only [Function.comp_apply, add_def]
  omega

theorem mem_numbersFrom {b x : Int} {n : Nat} (h : x ∈ numbersFrom b n) :
    0 ≤ x ∧ x < 4294967296 := by
  obtain ⟨i, -, rfl⟩ := List.mem_map.mp h
  rw [add_def]
  omega

/-- The numbers taken by what some events transmit. -/
def numbersIn (evs : List Event) : List Int :=
  evs.flatMap fun
    | .tx seg => numbersFrom seg.seq seg.segLen
    | _ => []

theorem numbersIn_append (evs evs' : List Event) :
    numbersIn (evs ++ evs') = numbersIn evs ++ numbersIn evs' := List.flatMap_append

theorem numbersIn_tx (seg : TcpSegment) :
    numbersIn [.tx seg] = numbersFrom seg.seq seg.segLen := List.append_nil _

/-- The event takes no number. -/
def Numberless (ev : Event) : Prop := ∀ seg, ev = .tx seg → seg.segLen = 0

theorem Numberless.of_eq (h : seg.segLen = 0) : Numberless (.tx seg) := by
  intro s hs
  obtain rfl := Event.tx.inj hs
  exact h

theorem numberless_stateChange (o n : ConnState) : Numberless (.stateChange o n) :=
  fun _ h => nomatch h

theorem numberless_ack (g : TcpEngine) : Numberless (.tx g.ackSegment) := .of_eq rfl

theorem numbersIn_eq_nil {evs : List Event} (h : ∀ ev ∈ evs, Numberless ev) :
    numbersIn evs = [] := by
  refine List.flatMap_eq_nil_iff.mpr fun ev hm => ?_
  cases ev with
  | tx seg =>
    dsimp only
    rw [h _ hm seg rfl]
    rfl
  | _ => rfl

/-- What is still to be given a number: the bytes buffered, and a FIN that is due. -/
def unsent (e : TcpEngine) : Nat :=
  e.buf.appBuf.length + (e.fin.finPending && !e.fin.finSent).toNat

/-! ## Keeping, dropping and starting a measurement -/

/-- The events give out the next `n` numbers in order, and the measurement has been kept or
dropped, or begun with one of these. -/
structure Issues (e f : TcpEngine) (evs : List Event) (n : Nat) : Prop where
  log : f.env.log = e.env.log ++ evs
  numbers : numbersIn evs = numbersFrom e.tcb.sndNxt n
  nxt : (f.tcb.sndNxt - e.tcb.sndNxt - n) % 4294967296 = 0
  unsent : n + f.unsent ≤ e.unsent
  pending : f.rt.rttPending = none ∨ f.rt.rttPending = e.rt.rttPending ∨
    ∃ x ∈ numbersIn evs, f.rt.rttPending = some (add x 1, e.now)

/-- Time stands still, and what becomes of the measurement shows in what is transmitted. -/
structure Measures (e f : TcpEngine) : Prop where
  hung : e.env.hung = true → f.env.hung = true
  now : f.now = e.now
  issues : f.env.hung = false → ∃ evs n, Issues e f evs n

theorem Issues.trans {evs evs' : List Event} {n m : Nat} (h : Issues e f evs n)
    (h' : Issues f g evs' m) (hnow : f.now = e.now) : Issues e g (evs ++ evs') (n + m) where
  log := by rw [h'.log, h.log, List.append_assoc]
  numbers := by rw [numbersIn_append, h.numbers, h'.numbers, numbersFrom_append h.nxt]
  nxt := by
    have h1 := h.nxt
    have h2 := h'.nxt
    omega
  unsent := by
    have h1 := h.unsent
    have h2 := h'.unsent
    omega
  pending := by
    rw [numbersIn_append]
    rcases h'.pending with hp' | hp' | ⟨x, hm, hp'⟩
    · exact Or.inl hp'
    · rw [hp']
      rcases h.pending with hp | hp | ⟨x, hm, hp⟩
      · exact Or.inl hp
      · exact Or.inr (Or.inl hp)
      · exact Or.inr (Or.inr ⟨x, List.mem_append_left _ hm, hp⟩)
    · rw [hnow] at hp'
      exact Or.inr (Or.inr ⟨x, List.mem_append_right _ hm, hp'⟩)

theorem Measures.trans (h : Measures e f) (h' : Measures f g) : Measures e g where
  hung hx := h'.hung (h.hung hx)
  now := h'.now.trans h.now
  issues hg := by
    have hf : f.env.hung = false := by
      by_contra hn
      rw [h'.hung (by simpa using hn)] at hg
      cases hg
    obtain ⟨evs, n, hi⟩ := h.issues hf
    obtain ⟨evs', m, hi'⟩ := h'.issues hg
    exact ⟨_, _, hi.trans hi' h.now⟩

/-- A part that gives out no number. -/
theorem Issues.still (hs : f.tcb.sndNxt = e.tcb.sndNxt) (hu : f.unsent ≤ e.unsent)
    (hp : f.rt.rttPending = none ∨ f.rt.rttPending = e.rt.rttPending)
    (hl : Logs Numberless e f) : ∃ evs n, Issues e f evs n := by
  obtain ⟨evs, hl, hev⟩ := hl
  refine ⟨evs, 0, hl, numbersIn_eq_nil hev, ?_, by omega, hp.imp_right Or.inl⟩
  rw [hs]
  omega

/-- Of the numbers `ns`, in this order, some have been given out, and the measurement has been
kept or dropped, or begun with one of them. -/
structure Gives (e f : TcpEngine) (evs : List Event) (ns : List Int) : Prop where
  log : f.env.log = e.env.log ++ evs
  numbers : numbersIn evs <+: ns
  pending : f.rt.rttPending = none ∨ f.rt.rttPending = e.rt.rttPending ∨
    ∃ x ∈ numbersIn evs, f.rt.rttPending = some (add x 1, e.now)

theorem Issues.gives {evs : List Event} {n : Nat} (h : Issues e f evs n) {m : Nat}
    (hm : e.unsent ≤ m) : Gives e f evs (numbersFrom e.tcb.sndNxt m) := by
  refine ⟨h.log, ?_, h.pending⟩
  have hn : n ≤ m := by
    have hu := h.unsent
    omega
  rw [h.numbers, ← Nat.add_sub_cancel' hn, ← numbersFrom_append (c := add e.tcb.sndNxt n)]
  · exact List.prefix_append _ _
  · rw [add_def]
    omega

/-- The estimator is left alone as well. -/
structure Times (e f : TcpEngine) : Prop extends Measures e f where
  rtt : f.rt.rtt = e.rt.rtt

theorem Times.trans (h : Times e f) (h' : Times f g) : Times e g :=
  ⟨h.toMeasures.trans h'.toMeasures, h'.rtt.trans h.rtt⟩

/-- A part that does not touch what is measured. -/
theorem Times.still (hh : f.env.hung = e.env.hung) (hn : f.now = e.now) (hr : f.rt = e.rt)
    (hs : f.tcb.sndNxt = e.tcb.sndNxt) (hu : f.unsent = e.unsent) (hl : Logs Numberless e f) :
    Times e f := by
  refine ⟨⟨fun hx => hh.trans hx, hn, fun _ => ?_⟩, by rw [hr]⟩
  exact Issues.still hs (Nat.le_of_eq hu) (Or.inr (by rw [hr])) hl

theorem Times.refl (e : TcpEngine) : Times e e := .still rfl rfl rfl rfl rfl (.none rfl)

/-- A part after which nothing is measured. -/
theorem Times.dropped (hh : f.env.hung = e.env.hung) (hn : f.now = e.now)
    (hr : f.rt.rtt = e.rt.rtt) (hs : f.tcb.sndNxt = e.tcb.sndNxt) (hu : f.unsent ≤ e.unsent)
    (hp : f.rt.rttPending = none) (hl : Logs Numberless e f) : Times e f :=
  ⟨⟨fun hx => hh.trans hx, hn, fun _ => Issues.still hs hu (Or.inl hp) hl⟩, hr⟩

/-! ## The parts -/

theorem setState_times (st : ConnState) : Times e (e.setState st) :=
  .still (by simp) (by simp) (by simp) (by simp) (by simp [unsent])
    (setState_logs _ fun _ => numberless_stateChange _ _)

theorem sendAck_times : Times e e.sendAck :=
  .still (by simp) (by simp) (by simp) (by simp) (by simp [unsent])
    (.one (.tx e.ackSegment) (by simp) (numberless_ack e))

theorem makeAndTransmit_times (seq : Int) (flags : Flags) (hs : flags.syn = false)
    (hf : flags.fin = false) : Times e (e.makeAndTransmit seq flags) := by
  refine .still (by simp) (by simp [now]) (by simp) (by simp) (by simp [unsent])
    (makeAndTransmit_logs _ _ _ _ _ (.of_eq ?_))
  show 0 + flags.syn.toNat + flags.fin.toNat = 0
  rw [hs, hf]
  rfl

/-- What is queued is timed, if nothing is, and goes out at once. -/
theorem queueAndSend_issues (flags : Flags) (payload : List UInt8) (m : Bool) (urg : Nat)
    (hm : m = true → e.tcb.sndMss ≤ 65535)
    (hlen : 0 < payload.length + flags.syn.toNat + flags.fin.toNat) :
    (e.queueAndSend flags payload m urg).env.log =
        e.env.log ++ [.tx (e.segmentFor e.tcb.sndNxt flags payload m urg)] ∧
      ((e.queueAndSend flags payload m urg).rt.rttPending = e.rt.rttPending ∨
        ∃ x ∈ numbersFrom e.tcb.sndNxt (payload.length + flags.syn.toNat + flags.fin.toNat),
          (e.queueAndSend flags payload m urg).rt.rttPending = some (add x 1, e.now)) := by
  obtain h | ⟨hm', hlt, -⟩ := e.queueAndSend_cases flags payload m urg
  · refine ⟨by rw [h]; simp, ?_⟩
    simp only [queueAndSend_rt, enqueue]
    split
    · refine Or.inr ⟨_, List.mem_map.mpr ⟨_, List.mem_range.mpr (Nat.sub_one_lt_of_lt hlen), rfl⟩,
        ?_⟩
      congr 2
      show add e.tcb.sndNxt ((payload.length + flags.syn.toNat + flags.fin.toNat : Nat) : Int) = _
      simp only [add_def]
      omega
    · exact Or.inl rfl
  · have := hm hm'
    omega

/-- What takes `n` of the numbers that were due and queues them in one segment. -/
theorem queued_times {k : TcpEngine} (flags : Flags) (payload : List UInt8) (m : Bool) (urg : Nat)
    (hm : m = true → e.tcb.sndMss ≤ 65535)
    (hlen : 0 < payload.length + flags.syn.toNat + flags.fin.toNat)
    (hf : f.env = (e.queueAndSend flags payload m urg).env)
    (hr : f.rt = (e.queueAndSend flags payload m urg).rt)
    (hn : f.now = e.now) (hs : f.tcb.sndNxt = (e.queueAndSend flags payload m urg).tcb.sndNxt)
    (hk : e.env = k.env ∧ e.rt = k.rt ∧ e.now = k.now ∧ e.tcb.sndNxt = k.tcb.sndNxt)
    (hu : payload.length + flags.syn.toNat + flags.fin.toNat + f.unsent ≤ k.unsent) :
    Times k f := by
  obtain ⟨hkenv, hkrt, hknow, hknxt⟩ := hk
  obtain ⟨hl, hp⟩ := queueAndSend_issues (e := e) flags payload m urg hm hlen
  have hrtt : f.rt.rtt = k.rt.rtt := by
    rw [hr, ← hkrt]
    simp [enqueue]
  refine ⟨⟨fun hx => ?_, hn.trans hknow, fun _ =>
    ⟨[.tx (e.segmentFor e.tcb.sndNxt flags payload m urg)], _, ?_, ?_, ?_, hu, ?_⟩⟩, hrtt⟩
  · rw [hf]
    simpa [hkenv] using hx
  · rw [hf, hl, hkenv]
  · rw [numbersIn_tx, ← hknxt]
    rfl
  · rw [hs, queueAndSend_tcb, ← hknxt]
    show (add e.tcb.sndNxt ((payload.length + flags.syn.toNat + flags.fin.toNat : Nat) : Int) -
      _ - _) % _ = _
    rw [add_def]
    omega
  · rw [hr, ← hkrt, numbersIn_tx, ← hknow]
    exact Or.inr hp

theorem sendChunk_times {n : Nat} (hn : 0 < n) (hb : e.buf.appBuf ≠ []) :
    Times e (e.sendChunk n) := by
  obtain ⟨psh, h⟩ := sendChunk_eq (e := e) n
  have hlen : 0 < (e.buf.appBuf.take n).length := by
    have := List.length_pos_iff.mpr hb
    rw [List.length_take]
    omega
  rw [h]
  refine queued_times (e := e.takeChunk n) (e.takeChunk n).chunkFlags (e.buf.appBuf.take n) false
    (e.takeChunk n).urgentPointer (fun hm => by cases hm) (by omega) rfl rfl ?_ rfl
    ⟨rfl, rfl, rfl, rfl⟩ ?_
  · exact queueAndSend_now (e := e.takeChunk n) _ _ _ _
  · simp [unsent, queueChunk, chunkFlags, takeChunk]
    omega

theorem sendChunk_now (n : Nat) : (e.sendChunk n).now = e.now := by
  obtain ⟨psh, h⟩ := sendChunk_eq (e := e) n
  rw [h]
  exact queueAndSend_now (e := e.takeChunk n) _ _ _ _

theorem SendRun.now {r : TcpEngine × Bool} (h : SendRun e r) : r.1.now = e.now := by
  induction h with
  | chunk e r _ _ _ _ _ ih => rw [ih, sendChunk_now]
  | closed => exact armPersist_now
  | _ => rfl

theorem SendRun.rtt {r : TcpEngine × Bool} (h : SendRun e r) : r.1.rt.rtt = e.rt.rtt := by
  induction h with
  | chunk e r _ _ _ _ _ ih =>
    obtain ⟨psh, hs⟩ := sendChunk_eq (e := e) e.chunkLen
    rw [ih, hs]
    simp [queueChunk, enqueue, takeChunk]
  | _ => simp

theorem armPersist_times : Times e e.armPersist :=
  .still (by simp) (by simp) (by simp) (by simp) (by simp [unsent]) (.none (by simp))

theorem SendRun.times {r : TcpEngine × Bool} (h : SendRun e r) : Times e r.1 := by
  refine ⟨⟨h.hung, h.now, fun hh => ?_⟩, h.rtt⟩
  suffices hx : Measures e r.1 from hx.issues hh
  induction h with
  | empty => exact (Times.refl _).toMeasures
  | closed => exact armPersist_times.toMeasures
  | held => exact (Times.refl _).toMeasures
  | hang => cases hh
  | chunk e r hb hw hu _ hr ih =>
    have hlen : 0 < e.chunkLen := by
      rcases Nat.eq_zero_or_pos e.tcb.sndMss with hm | hm
      · have h0 : e.chunkLen = 0 := by simp [chunkLen, hm]
        have hx : r.1.env.hung = true := by
          refine hr.hangs (by simpa using hm) ?_ (by simpa using hw) ?_
          · simpa [h0] using hb
          · rw [h0, usableWindow_sendChunk_zero]
            exact hu
        rw [hx] at hh
        cases hh
      · have := List.length_pos_iff.mpr hb
        simp only [chunkLen]
        omega
    exact (sendChunk_times hlen hb).toMeasures.trans (ih hh)

/-- The FIN takes the number that is due to it. -/
theorem sendFin_times (hd : e.FinDue) : Times e e.sendFin := by
  obtain ⟨st, h, -⟩ := sendFin_cases (e := e)
  obtain ⟨hp, hs, -⟩ := hd
  have h2 : Times e e.finQueued := by
    refine queued_times (e := { e with fin := { e.fin with finSeq := e.tcb.sndNxt } })
      { ack := true, fin := true } [] false 0 (fun hm => by cases hm) (by decide) rfl rfl ?_ rfl
      ⟨rfl, rfl, rfl, rfl⟩ ?_
    · exact queueAndSend_now (e := { e with fin := { e.fin with finSeq := e.tcb.sndNxt } }) _ _ _ _
    · simp [unsent, finQueued, hp, hs]
      omega
  rw [h]
  exact h2.trans (setState_times st)

theorem finPart_times : Times e e.finPart := by
  rcases e.finPart_cases with ⟨-, h⟩ | ⟨-, -, h⟩ | ⟨-, -, -, h⟩ | ⟨hd, -, -, h⟩
  · rw [h]; exact .refl e
  · rw [h]; exact armPersist_times
  · rw [h]; exact .refl e
  · rw [h]; exact sendFin_times hd

theorem sendPending_times : Times e e.sendPending := by
  rcases e.sendPending_cases with ⟨-, h⟩ | ⟨-, h⟩ | ⟨-, f, h, hf⟩
  · rw [h]; exact .refl e
  · exact h.times
  · rw [hf]; exact h.times.trans finPart_times

theorem cancelPersist_times : Times e e.cancelPersist := by
  have h : Times e e.dropPersistTimer :=
    .still rfl (dropPersistTimer_retimes e).now rfl rfl rfl (.none rfl)
  exact h.trans sendPending_times

theorem setSendWindow_times (wnd : Nat) (wl1 wl2 : Int) :
    Times e (e.setSendWindow wnd wl1 wl2) := .still rfl rfl rfl rfl rfl (.none rfl)

theorem windowUpdate_times (seg : TcpSegment) : Times e (e.windowUpdate seg) := by
  have h : Times e (e.setSendWindow seg.window seg.seq seg.ack) := setSendWindow_times _ _ _
  unfold windowUpdate
  dsimp only
  split_ifs
  · exact h.trans cancelPersist_times
  · exact h
  · exact .refl e

/-- The measurement is read here, and dropped once it has been. -/
theorem processAck_measures (ack : Int) : Measures e (e.processAck ack) := by
  have hrt : (e.processAck ack).rt.rttPending = (e.takeSample ack).rt.rttPending := by
    simp only [processAck]
    split <;> simp
  refine ⟨fun hx => by simpa using hx, by simp, fun _ =>
    Issues.still (by simp) ?_ ?_ (.none (by simp))⟩
  · simp [unsent]
  · rw [hrt]
    unfold takeSample
    split
    · exact Or.inr rfl
    · split
      · exact Or.inl rfl
      · exact Or.inr rfl

theorem processAck_rtt (ack : Int) : (e.processAck ack).rt.rtt = (e.takeSample ack).rt.rtt := by
  simp only [processAck]
  split <;> simp

theorem stopRt_times : Times e e.stopRt :=
  .still rfl (stopRt_retimes e).now rfl rfl rfl (.none rfl)

theorem enterTimeWait_times : Times e e.enterTimeWait :=
  (stopRt_times.trans cancelPersist_times).trans
    ((setState_times .timeWait).trans (.still rfl rfl rfl rfl rfl (.none rfl)))

theorem resetBuffers_unsent : e.resetBuffers.unsent = 0 := rfl

/-- The shutdown sends what the persist timer held back before it drops the rest. -/
theorem enterClosed_times : Times e e.enterClosed := by
  have h1 : Times e e.stopRt.cancelPersist := stopRt_times.trans cancelPersist_times
  generalize hk : e.stopRt.cancelPersist = k at h1
  have hn : k.cancelKeepalive.cancelTwTimer.cancelAckTimer.now = k.now :=
    ((cancelAckTimer_retimes _).now.trans (cancelTwTimer_retimes _).now).trans
      (cancelKeepalive_retimes k).now
  have h2 : Times k k.cancelKeepalive.cancelTwTimer.cancelAckTimer.resetBuffers :=
    .dropped rfl hn rfl rfl (by rw [resetBuffers_unsent]; exact Nat.zero_le _) rfl (.none rfl)
  rw [enterClosed, hk]
  exact (h1.trans h2).trans (setState_times .closed)

theorem sendRst_times : Times e e.sendRst := makeAndTransmit_times _ _ rfl rfl

theorem signalError_times (msg : String) : Times e (e.signalError msg) :=
  .still rfl rfl rfl rfl rfl (.one (.error msg) rfl fun _ h => nomatch h)

theorem giveUp_times (msg : String) : Times e (e.giveUp msg) := by
  unfold giveUp
  dsimp only
  refine Times.trans ?_ ((signalError_times msg).trans enterClosed_times)
  split
  · exact sendRst_times
  · exact .refl e

theorem enterClosed_unmeasured : e.enterClosed.rt.rttPending = none := by
  rw [enterClosed, closeDown, setState_rt]
  rfl

theorem doReset_times : Times e e.doReset := by
  unfold doReset
  split_ifs
  · have h1 : Times (e.setState .listen) (e.setState .listen).resetBuffers :=
      .dropped rfl rfl rfl rfl (by rw [resetBuffers_unsent]; exact Nat.zero_le _) rfl (.none rfl)
    exact ((setState_times .listen).trans h1).trans
      ((stopRt_times.trans cancelPersist_times).trans (.still rfl rfl rfl rfl rfl (.none rfl)))
  · exact (signalError_times _).trans enterClosed_times
  · exact (signalError_times _).trans enterClosed_times

/-! ## Text and FIN -/

/-- What receives text leaves alone what is to be sent. -/
theorem RecvFrame.times (h : RecvFrame e f) (hh : f.env.hung = e.env.hung) (hn : f.now = e.now)
    (hl : Logs Numberless e f) : Times e f := by
  obtain ⟨_, _, ht⟩ := h.tcb
  exact .still hh hn h.rt (by rw [ht]) (by rw [unsent, unsent, h.appBuf, h.fin]) hl

theorem numberless_deliver (data : List UInt8) : Numberless (.deliver data) :=
  fun _ h => nomatch h

theorem scheduleAck_times (force : Bool) : Times e (e.scheduleAck force) :=
  (scheduleAck_frame e force).times (by simp) (scheduleAck_retimes e force).now
    (scheduleAck_logs numberless_ack force)

theorem mergeLoop_times (fuel : Nat) : Times e (mergeLoop fuel e) := by
  refine (mergeLoop_frame fuel e).times ?_ ?_ (mergeLoop_logs numberless_deliver fuel)
  · induction fuel generalizing e with
    | zero => rfl
    | succ fuel ih =>
      unfold mergeLoop
      split
      · rfl
      · rw [ih]
        unfold mergeEntry
        dsimp only
        split_ifs <;> simp [markSeen, advanceRcvNxt]
  · show (mergeLoop fuel e).tm.sched.now = _
    rw [mergeLoop_tm]
    rfl

theorem takeInOrder_times (seg : TcpSegment) (data : List UInt8) :
    Times e (e.takeInOrder seg data) := by
  refine (takeInOrder_frame e seg data).times ?_ ?_ (takeInOrder_logs numberless_deliver seg data)
  · unfold takeInOrder
    dsimp only
    split <;> simp [markSeen, advanceRcvNxt]
  · show (e.takeInOrder seg data).tm.sched.now = _
    rw [takeInOrder_tm]
    rfl

theorem storeOoo_times (seq : Int) (data : List UInt8) (flags : Flags) :
    Times e (e.storeOoo seq data flags) := by
  unfold storeOoo
  split
  · exact .refl e
  · exact .still rfl rfl rfl rfl rfl (.none rfl)

theorem recvTrimmed_times (seg : TcpSegment) (seq : Int) (data : List UInt8) :
    Times e (e.recvTrimmed seg seq data) := by
  unfold recvTrimmed
  dsimp only
  split_ifs
  · exact scheduleAck_times _
  · exact (takeInOrder_times seg _).trans ((mergeLoop_times _).trans (scheduleAck_times _))
  · exact (storeOoo_times _ _ _).trans (scheduleAck_times _)

theorem recvData_times (seg : TcpSegment) : Times e (e.recvData seg) := by
  unfold recvData
  dsimp only
  split_ifs
  · exact .refl e
  · exact scheduleAck_times _
  · exact recvTrimmed_times _ _ _
  · exact recvTrimmed_times _ _ _

theorem processFin_times : Times e e.processFin := by
  have hc : Times e e.consumeFin := by
    refine .still (by simp) (by simp [now]) (by simp) (by simp) (by simp [unsent]) ?_
    unfold consumeFin signalClose
    split
    · exact .one .eof rfl fun _ h => nomatch h
    · exact .none rfl
  unfold processFin
  dsimp only
  refine (hc.trans sendAck_times).trans ?_
  split
  · exact setState_times _
  · exact setState_times _
  · exact enterTimeWait_times
  · exact .refl _

theorem checkPendingFin_times : Times e e.checkPendingFin := by
  unfold checkPendingFin
  split
  · exact processFin_times
  · exact .refl e

theorem finCheck_times (seg : TcpSegment) : Times e (e.finCheck seg) := by
  unfold finCheck
  dsimp only
  split_ifs
  · exact processFin_times
  · exact .still rfl rfl rfl rfl rfl (.none rfl)
  · exact .refl e
  · exact .refl e

theorem textAndFin_times (seg : TcpSegment) : Times e (e.textAndFin seg) := by
  have h {f : TcpEngine} : Times f (f.sendPending.finCheck seg).checkPendingFin :=
    sendPending_times.trans ((finCheck_times seg).trans checkPendingFin_times)
  unfold textAndFin
  dsimp only
  split
  · exact (recvData_times seg).trans h
  · exact h

/-! ## The sample an acknowledgement completes -/

/-- What `_process_ack` is called with for the segment, if it is called. -/
def acked (e : TcpEngine) (seg : TcpSegment) : Option Int :=
  if e.accepts seg ∧ (e.tcb.state ∈ OpenStates → seqGt seg.ack e.tcb.sndUna = true) then
    some seg.ack
  else none

/-- The end point and the sample of the measurement that an acknowledgement completes. -/
def sampleAt (e : TcpEngine) (ack : Option Int) : Option (Int × ℚ) :=
  match ack, e.rt.rttPending with
  | some ack, some (endSeq, t) => if seqGeq ack endSeq then some (endSeq, e.now - t) else none
  | _, _ => none

/-- The sample is what the estimator takes in. -/
structure Samples (e : TcpEngine) (ack : Option Int) (f : TcpEngine) : Prop
    extends Measures e f where
  rtt : f.rt.rtt = match e.sampleAt ack with
    | some (_, r) => e.rt.rtt.sample e.conf.cfg r
    | none => e.rt.rtt

theorem Times.samples (h : Times e f) : Samples e none f := ⟨h.toMeasures, h.rtt⟩

theorem Samples.then {ack : Option Int} (h : Samples e ack f) (h' : Times f g) : Samples e ack g :=
  ⟨h.toMeasures.trans h'.toMeasures, h'.rtt.trans h.rtt⟩

theorem processAck_samples (ack : Int) : Samples e (some ack) (e.processAck ack) := by
  refine ⟨processAck_measures ack, ?_⟩
  rw [processAck_rtt]
  unfold takeSample sampleAt
  cases e.rt.rttPending with
  | none => rfl
  | some p =>
    by_cases h : seqGeq ack p.1 = true
    · simp [h]
    · simp [h]

/-- What comes before the acknowledgement is looked at. -/
theorem Samples.after {ack : Option Int} (h : Samples f ack g) (ht : Times e f) (hr : f.rt = e.rt)
    (hc : f.conf.cfg = e.conf.cfg) : Samples e ack g := by
  have hs : f.sampleAt ack = e.sampleAt ack := by
    simp only [sampleAt, hr, ht.now]
  refine ⟨ht.toMeasures.trans h.toMeasures, ?_⟩
  rw [h.rtt, hs, hr, hc]

theorem Samples.times (h : Samples e none f) : Times e f := ⟨h.toMeasures, h.rtt⟩

theorem acked_of_not_accepts (h : e.accepts seg = false) : e.acked seg = none := by
  simp [acked, h]

theorem acked_open (ha : e.accepts seg = true) (hs : e.tcb.state ∈ OpenStates) :
    e.acked seg = if seqGt seg.ack e.tcb.sndUna = true then some seg.ack else none := by
  simp [acked, ha, hs]

theorem acked_opening (ha : e.accepts seg = true) (hs : e.tcb.state ∉ OpenStates) :
    e.acked seg = some seg.ack := by
  simp [acked, ha, hs]

theorem establishedAck_samples (seg : TcpSegment) : Samples e
    (if seqGt seg.ack e.tcb.sndNxt then none
      else if seqGt seg.ack e.tcb.sndUna then some seg.ack else none) (e.establishedAck seg) := by
  unfold establishedAck
  by_cases hle : seqGt seg.ack e.tcb.sndNxt = true
  · rw [if_pos hle, if_pos hle]
    exact sendAck_times.samples
  rw [if_neg hle, if_neg hle]
  dsimp only
  have hk : Samples e (if seqGt seg.ack e.tcb.sndUna then some seg.ack else none)
      (if seqGt seg.ack e.tcb.sndUna then e.processAck seg.ack else e) := by
    split
    · exact processAck_samples _
    · exact (Times.refl e).samples
  generalize (if seqGt seg.ack e.tcb.sndUna then e.processAck seg.ack else e) = k at hk
  apply (hk.then (windowUpdate_times seg)).then
  split_ifs
  · exact (setState_times _).trans (textAndFin_times seg)
  · exact enterTimeWait_times
  · exact enterClosed_times
  · exact textAndFin_times seg

theorem emitRstReply_times (seg : TcpSegment) (seq ack : Int) (b : Bool) :
    Times e (e.emitRstReply seg seq ack b) :=
  .still (by simp) (by simp) (by simp) (by simp) (by simp [unsent])
    (.one _ (by rw [emitRstReply_eq]; rfl) (.of_eq rfl))

theorem synReceivedAck_samples (seg : TcpSegment) : Samples e
    (if seqLt e.tcb.sndUna seg.ack && seqLeq seg.ack e.tcb.sndNxt then some seg.ack else none)
    (e.synReceivedAck seg) := by
  unfold synReceivedAck
  split
  · dsimp only
    exact (processAck_samples seg.ack).then ((setSendWindow_times _ _ _).trans
      ((setState_times _).trans
        ((mergeLoop_times _).trans (sendPending_times.trans (textAndFin_times seg)))))
  · exact (emitRstReply_times _ _ _ _).samples

theorem timeWaitArrives_times (seg : TcpSegment) : Times e (e.timeWaitArrives seg) := by
  unfold timeWaitArrives
  split_ifs
  · exact enterClosed_times
  · exact sendAck_times
  · exact sendAck_times.trans
      (.still rfl (restartTimeWait_retimes e.sendAck).now rfl rfl rfl (.none rfl))
  · exact sendAck_times

/-- After the handshake an acknowledgement completes the measurement before anything else. -/
theorem handleSynchronized_samples (seg : TcpSegment) (hs : e.tcb.state ∈ SyncStates) :
    Samples e (e.acked seg) (e.handleSynchronized seg) := by
  have hno {f : TcpEngine} (h : acceptable seg.seq seg.segLen e.tcb.rcvNxt e.rcvWnd = false ∨
      seg.rst = true ∨ seg.syn = true ∨ seg.ackFlag = false) (ht : Times e f) :
      Samples e (e.acked seg) f := by
    rw [acked_of_not_accepts (not_accepts seg hs h)]
    exact ht.samples
  unfold handleSynchronized
  split_ifs with htw hacc hr hr hq hsyn hack hsr
  · rw [acked_of_not_accepts (by simp [accepts, htw])]
    exact (timeWaitArrives_times seg).samples
  · exact hno (Or.inl (by simpa using hacc)) (.refl e)
  · exact hno (Or.inl (by simpa using hacc)) sendAck_times
  · exact hno (Or.inr (Or.inl hr)) doReset_times
  · exact hno (Or.inr (Or.inl hr)) sendAck_times
  · exact hno (Or.inr (Or.inr (Or.inl hsyn))) sendAck_times
  · exact hno (Or.inr (Or.inr (Or.inr (by simpa using hack)))) (.refl e)
  · have ha := accepts_synReceived seg hsr
    have h := synReceivedAck_samples (e := e) seg
    simp only [Bool.not_eq_true, Bool.not_eq_eq_eq_not] at hacc hr hsyn hack
    have heq : e.acked seg =
        if seqLt e.tcb.sndUna seg.ack && seqLeq seg.ack e.tcb.sndNxt then some seg.ack
        else none := by
      by_cases hok : (seqLt e.tcb.sndUna seg.ack && seqLeq seg.ack e.tcb.sndNxt) = true
      · rw [if_pos hok]
        exact acked_opening (by rw [ha, hok]; simp_all) (by simp [hsr])
      · rw [if_neg hok]
        apply acked_of_not_accepts
        rw [ha]
        simp_all
    rw [heq]
    exact h
  · have hopen : e.tcb.state ∈ OpenStates := by
      simp only [SyncStates, List.mem_cons] at hs
      rcases hs with hs | hs | hs
      · exact absurd hs htw
      · exact absurd hs hsr
      · simpa using hs
    have ha := accepts_open seg hopen
    have h := establishedAck_samples (e := e) seg
    simp only [Bool.not_eq_true, Bool.not_eq_eq_eq_not] at hacc hr hsyn hack
    have heq : e.acked seg = if seqGt seg.ack e.tcb.sndNxt then none
        else if seqGt seg.ack e.tcb.sndUna then some seg.ack else none := by
      by_cases hle : seqGt seg.ack e.tcb.sndNxt = true
      · rw [if_pos hle]
        exact acked_of_not_accepts (by rw [ha, hle]; simp)
      · rw [if_neg hle]
        exact acked_open (by rw [ha]; simp_all) hopen
    rw [heq]
    exact h

/-! ## The SYN -/

/-- A SYN that opens the connection of a listener. -/
def OpensListener (e : TcpEngine) (seg : TcpSegment) : Prop :=
  e.tcb.state = .listen ∧ seg.rst = false ∧ seg.ackFlag = false ∧ seg.syn = true ∧
    ¬ (e.conf.remotePort ≠ 0 ∧ seg.srcPort ≠ 0 ∧ seg.srcPort ≠ e.conf.remotePort)

instance (seg : TcpSegment) : Decidable (e.OpensListener seg) :=
  inferInstanceAs (Decidable (_ ∧ _ ∧ _ ∧ _ ∧ _))

/-- The entry point gives out the number of a SYN, and none beside it. -/
structure Begins (e f : TcpEngine) : Prop where
  now : f.now = e.now
  rtt : f.rt.rtt = e.rt.rtt
  gives : ∃ evs, Gives e f evs (numbersFrom e.newIss 1)

/-- The SYN takes the number that has been chosen for it. -/
theorem Begins.syn {k : TcpEngine} (flags : Flags) (hflags : flags.syn.toNat + flags.fin.toNat = 1)
    (hm : k.tcb.sndMss ≤ 65535) (hn : k.now = e.now) (hr : k.rt = e.rt)
    (hs : k.tcb.sndNxt = e.newIss) (hl : Logs Numberless e k) :
    Begins e (k.queueAndSend flags [] true) := by
  obtain ⟨h, hp⟩ := queueAndSend_issues (e := k) flags [] true 0 (fun _ => hm)
    (by rw [List.length_nil]; omega)
  obtain ⟨evs, hlog, hev⟩ := hl
  have hnum : numbersIn (evs ++ [.tx (k.segmentFor k.tcb.sndNxt flags [] true)]) =
      numbersFrom e.newIss 1 := by
    rw [numbersIn_append, numbersIn_eq_nil hev, numbersIn_tx, List.nil_append, ← hs, ← hflags]
    show numbersFrom k.tcb.sndNxt (0 + flags.syn.toNat + flags.fin.toNat) = _
    rw [Nat.zero_add]
  refine ⟨(queueAndSend_now _ _ _ _).trans hn, by rw [← hr]; simp [enqueue], _,
    ⟨?_, by rw [hnum], Or.inr ?_⟩⟩
  · rw [h, hlog, List.append_assoc]
  · rw [hnum, ← hr, ← hn, ← hs, ← hflags]
    simpa [Nat.add_assoc] using hp

/-- The SYN-ACK of a listener. -/
theorem OpensListener.begins (h : e.OpensListener seg) (hm : e.agreedMss seg ≤ 65535) :
    Begins e (e.handle seg) := by
  obtain ⟨hs, hr, hack, hsyn, hport⟩ := h
  have hlisten : e.handle seg = e.acceptSyn seg := by
    rw [handle_listen seg hs, handleListen, if_neg (by simp [hr]), if_neg (by simp [hack]),
      if_neg (by simp [hsyn]), if_neg hport]
  obtain ⟨m, rfl, hk⟩ := acceptSyn_mss (e := e) seg hs
  rw [hlisten, hk]
  exact .syn _ rfl (by simpa [listenTaken, listenTcb] using hm) rfl rfl rfl
    (.one _ rfl (numberless_stateChange _ _))

theorem handleListen_times (hs : e.tcb.state = .listen) (ho : ¬ e.OpensListener seg) :
    Times e (e.handleListen seg) := by
  unfold handleListen
  split_ifs with hr hack hsyn hport
  · exact .refl e
  · exact emitRstReply_times _ _ _ _
  · exact .refl e
  · exact .refl e
  · exact absurd ⟨hs, by simpa using hr, by simpa using hack, by simpa using hsyn, hport⟩ ho

theorem handleClosed_times : Times e (e.handleClosed seg) := by
  unfold handleClosed
  split_ifs
  · exact .refl e
  · exact emitRstReply_times _ _ _ _
  · exact emitRstReply_times _ _ _ _

theorem takeSyn_samples :
    Samples e (if seg.ackFlag then some seg.ack else none) (e.takeSyn seg) := by
  obtain ⟨m, -, -, h⟩ := takeSyn_cases (e := e) seg
  rw [h]
  dsimp only
  generalize hf : ({ e with tcb :=
    { e.tcb with irs := seg.seq, rcvNxt := add seg.seq 1, sndMss := m } } : TcpEngine) = f
  have hft : Times e f := by
    subst hf
    exact .still rfl rfl rfl rfl rfl (.none rfl)
  have hrt : f.rt = e.rt ∧ f.conf.cfg = e.conf.cfg := by
    subst hf
    exact ⟨rfl, rfl⟩
  split
  · exact ((processAck_samples (e := f) seg.ack).after hft hrt.1 hrt.2).then
      (setSendWindow_times _ _ _)
  · exact (hft.trans (setSendWindow_times _ _ _)).samples

/-- What is left of a SYN acknowledges nothing that it has not acknowledged already. -/
theorem synSentEstablished_times (h : seg.ackFlag = false ∨ e.tcb.sndUna = seg.ack) :
    Times e (e.synSentEstablished seg) := by
  have h1 : Times e ((e.setState .established).sendAck.sendPending) :=
    (setState_times _).trans (sendAck_times.trans sendPending_times)
  have hst : (e.setState .established).sendAck.sendPending.tcb.state ∈ OpenStates :=
    sendPending_open (by simp)
  have hu : (e.setState .established).sendAck.sendPending.tcb.sndUna = e.tcb.sndUna := by
    obtain ⟨n, hn⟩ := sendPending_spends (e := (e.setState .established).sendAck)
    simpa using hn.una
  unfold synSentEstablished
  dsimp only
  generalize (e.setState .established).sendAck.sendPending = g at h1 hst hu
  split
  · have hs := handleSynchronized_samples (e := g) seg.synTaken
      (List.mem_cons_of_mem _ (List.mem_cons_of_mem _ hst))
    have hnone : g.acked seg.synTaken = none := by
      rcases h with h | h
      · apply acked_of_not_accepts
        simp [accepts, TcpSegment.ackFlag, TcpSegment.synTaken] at h ⊢
        simp [h]
      · have hgt : seqGt seg.synTaken.ack g.tcb.sndUna = false := by
          rw [hu, h]
          exact seqGt_self _
        simp [acked, hst, hgt]
    rw [hnone] at hs
    exact h1.trans hs.times
  · exact h1

/-- The SYN-ACK of a simultaneous open goes out under the number of the SYN. -/
theorem simultaneousOpen_resends (seg : TcpSegment) :
    (e.simultaneousOpen seg).rt = e.rt ∧
    Logs (fun ev => ∀ s, ev = .tx s → s.seq = e.tcb.iss ∧ s.segLen = 1) e
      (e.simultaneousOpen seg) := by
  have hb : Logs (fun ev => ∀ s, ev = .tx s → s.seq = e.tcb.iss ∧ s.segLen = 1) e
      e.becomeSynReceived :=
    Logs.trans (f := e.setState .synReceived) (setState_logs _ fun _ s h => by cases h) (.none rfl)
  have hk : e.becomeSynReceived.rt = e.rt ∧ e.becomeSynReceived.tcb.iss = e.tcb.iss := by
    simp [becomeSynReceived]
  unfold simultaneousOpen
  dsimp only
  generalize e.becomeSynReceived = k at hb hk
  have hsend (j : TcpEngine) (hh : j.env = k.env) (hr : j.rt = k.rt) (ht : j.tcb = k.tcb) :
      j.sendSynAck.rt = e.rt ∧
      Logs (fun ev => ∀ s, ev = .tx s → s.seq = e.tcb.iss ∧ s.segLen = 1) e j.sendSynAck := by
    refine ⟨?_, hb.trans (Logs.trans (f := j) (.none (by rw [hh])) ?_)⟩
    · rw [← hk.1, ← hr]
      simp [sendSynAck]
    · refine makeAndTransmit_logs _ _ _ _ _ fun s hs => ?_
      obtain rfl := Event.tx.inj hs
      refine ⟨?_, rfl⟩
      show j.tcb.iss = _
      rw [ht, hk.2]
  have hoo (seq : Int) (data : List UInt8) (flags : Flags) :
      (k.storeOoo seq data flags).env = k.env ∧ (k.storeOoo seq data flags).rt = k.rt ∧
      (k.storeOoo seq data flags).tcb = k.tcb := by
    unfold storeOoo
    split <;> exact ⟨rfl, rfl, rfl⟩
  split <;> split
  · obtain ⟨h1, h2, h3⟩ := hoo (add seg.seq 1) seg.payload { seg.flags with fin := false }
    exact hsend _ h1 h2 h3
  · exact hsend _ rfl rfl rfl
  · obtain ⟨h1, h2, h3⟩ := hoo (add seg.seq 1) seg.payload { seg.flags with fin := false }
    exact hsend _ h1 h2 h3
  · exact hsend _ rfl rfl rfl

/-- A SYN in SYN-SENT that does not acknowledge ours. -/
def Crosses (e : TcpEngine) (seg : TcpSegment) : Prop :=
  e.tcb.state = .synSent ∧ seg.syn = true ∧ seg.rst = false ∧ seg.ackFlag = false ∧
    seqGt e.tcb.sndUna e.tcb.iss = false

instance (seg : TcpSegment) : Decidable (e.Crosses seg) :=
  inferInstanceAs (Decidable (_ ∧ _ ∧ _ ∧ _ ∧ _))

theorem takeSyn_bare (hack : seg.ackFlag = false) :
    (e.takeSyn seg).tcb.sndUna = e.tcb.sndUna ∧ (e.takeSyn seg).tcb.iss = e.tcb.iss ∧
      (e.takeSyn seg).rt = e.rt ∧ (e.takeSyn seg).env = e.env ∧ (e.takeSyn seg).tm = e.tm := by
  obtain ⟨m, -, -, h⟩ := takeSyn_cases (e := e) seg
  rw [h, if_neg (by simp [hack])]
  exact ⟨rfl, rfl, rfl, rfl, rfl⟩

theorem Crosses.handle (h : e.Crosses seg) :
    e.handle seg = (e.takeSyn seg).simultaneousOpen seg := by
  obtain ⟨hs, hsyn, hr, hack, hu⟩ := h
  obtain ⟨h1, h2, -⟩ := takeSyn_bare (e := e) hack
  rw [handle_synSent seg hs, handleSynSent]
  dsimp only
  rw [if_neg (by simp [hack]), if_neg (by simp [hr]), if_neg (by simp [hsyn]),
    if_neg (by rw [h1, h2, hu]; simp)]

/-- A crossing SYN leaves the measurement alone, and sends the SYN once more. -/
theorem Crosses.resends (h : e.Crosses seg) : (e.handle seg).rt = e.rt ∧
    Logs (fun ev => ∀ s, ev = .tx s → s.seq = e.tcb.iss ∧ s.segLen = 1) e (e.handle seg) := by
  obtain ⟨-, h2, h3, h4, -⟩ := takeSyn_bare (e := e) h.2.2.2.1
  obtain ⟨k1, k2⟩ := simultaneousOpen_resends (e := e.takeSyn seg) seg
  rw [h.handle]
  rw [h2] at k2
  exact ⟨k1.trans h3, Logs.trans (.none (by rw [h4])) k2⟩

theorem handleSynSent_samples (hs : e.tcb.state = .synSent) (hc : ¬ e.Crosses seg) :
    Samples e (e.acked seg) (e.handleSynSent seg) := by
  have ha : e.accepts seg = (seg.ackFlag && !seg.rst &&
      (seg.syn && seqGt seg.ack e.tcb.iss && seqLeq seg.ack e.tcb.sndNxt)) := by
    simp only [accepts, hs]
  have hno {f : TcpEngine} (h : e.accepts seg = false) (ht : Times e f) :
      Samples e (e.acked seg) f := by
    rw [acked_of_not_accepts h]
    exact ht.samples
  unfold handleSynSent
  dsimp only
  split_ifs with hbad hr hr hok hsyn hu
  · exact hno (by rw [ha, hr]; simp) (.refl e)
  · refine hno ?_ (emitRstReply_times _ _ _ _)
    rw [ha]
    simp only [Bool.and_eq_true, Bool.or_eq_true] at hbad
    rcases hbad.2 with h | h
    · rw [seqGt_eq_not_seqLeq, h]
      simp
    · rw [seqGt_eq_not_seqLeq] at h
      simp at h
      simp [h]
  · exact hno (by rw [ha, hr]; simp) ((signalError_times _).trans enterClosed_times)
  · exact hno (by rw [ha, hr]; simp) (.refl e)
  · have hsyn' : seg.syn = false := by simpa using hsyn
    exact hno (by rw [ha, hsyn']; simp) (.refl e)
  · have hack : e.acked seg = if seg.ackFlag then some seg.ack else none := by
      by_cases hf : seg.ackFlag = true
      · rw [if_pos hf]
        refine acked_opening ?_ (by simp [hs])
        simp only [Bool.not_eq_true, Bool.not_eq_eq_eq_not] at hr hsyn
        simp only [hf, Bool.true_and, Bool.or_eq_true, not_or, Bool.not_eq_true] at hbad
        rw [ha, hf, hr]
        have h1 := hbad.1
        have h2 := hbad.2
        rw [seqGt_eq_not_seqLeq] at h2 ⊢
        simp at h1 h2 hsyn
        simp [h1, h2, hsyn]
      · rw [if_neg hf]
        exact acked_of_not_accepts (by rw [ha]; simp [hf])
    rw [hack]
    refine takeSyn_samples.then (synSentEstablished_times ?_)
    by_cases hf : seg.ackFlag = true
    · obtain ⟨m, -, -, h⟩ := takeSyn_cases (e := e) seg
      right
      rw [h, if_pos hf]
      simp
    · exact Or.inl (by simpa using hf)
  · have hack : seg.ackFlag = false := by
      by_contra hn
      rw [Bool.not_eq_false] at hn
      obtain ⟨m, -, -, hm⟩ := takeSyn_cases (e := e) seg
      rw [hm, if_pos hn] at hu
      simp only [hn, Bool.true_and, Bool.or_eq_true, not_or] at hbad
      have h1 := hbad.1
      apply hu
      simp only [setSendWindow_tcb, processAck_tcb]
      rw [seqGt_eq_not_seqLeq]
      simpa using h1
    obtain ⟨h1, h2, -⟩ := takeSyn_bare (e := e) hack
    rw [h1, h2] at hu
    exact absurd ⟨hs, by simpa using hsyn, by simpa using hr, hack, by simpa using hu⟩ hc

/-- An arriving segment completes at most one measurement, with its acknowledgement. -/
theorem handle_samples (seg : TcpSegment) (ho : ¬ e.OpensListener seg) (hc : ¬ e.Crosses seg) :
    Samples e (e.acked seg) (e.handle seg) := by
  rcases e.state_cases with hs | hs | hs | hs
  · rw [handle_closed seg hs, acked_of_not_accepts (by simp [accepts, hs])]
    exact handleClosed_times.samples
  · rw [handle_listen seg hs, acked_of_not_accepts (by simp [accepts, hs])]
    exact (handleListen_times hs ho).samples
  · rw [handle_synSent seg hs]
    exact handleSynSent_samples hs hc
  · rw [handle_synchronized seg hs]
    exact handleSynchronized_samples seg hs

end TcpEngine

end HdlPlayground.Tcp

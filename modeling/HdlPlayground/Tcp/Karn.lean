import HdlPlayground.Tcp.Measurement

/-!
# Karn's rule

An observer notes every number that is transmitted, and when. A sample should be the time since
the one transmission of its number. The retransmission timer keeps to that; the SYN-ACK of a
simultaneous open goes out under the number of the SYN that is being timed, and a probe sent
outside a connection is timed as well, though its number may be given out again.
-/
namespace HdlPlayground.Tcp

/-- The numbers transmitted so far, with the time of each transmission. -/
abbrev Ledger := List (Int × ℚ)

namespace Ledger

/-- When the number has been transmitted. -/
def times (c : Ledger) (x : Int) : List ℚ := (c.filter fun o => o.1 = x).map Prod.snd

/-- What the observer keeps after a step. -/
def next (c : Ledger) (e e' : TcpEngine) : Ledger :=
  c ++ (TcpEngine.numbersIn (TcpEngine.entered e e')).map fun x => (x, e.now)

theorem times_append (c d : Ledger) (x : Int) : (c ++ d).times x = c.times x ++ d.times x := by
  rw [times, List.filter_append, List.map_append]
  rfl

/-- Numbers that go out together go out at one time. -/
theorem times_map (ns : List Int) (T : ℚ) (x : Int) :
    times (ns.map fun y => (y, T)) x = List.replicate (ns.count x) T := by
  induction ns with
  | nil => rfl
  | cons y ns ih =>
    have hcons : times ((y :: ns).map fun y => (y, T)) x =
        (if y = x then [T] else []) ++ times (ns.map fun y => (y, T)) x := by
      by_cases h : y = x <;> simp [times, h]
    rw [hcons, ih, List.count_cons]
    by_cases h : y = x
    · simp [h, List.replicate_succ]
    · simp [h]

theorem times_next {e e' : TcpEngine} {evs : List Event} (h : e'.env.log = e.env.log ++ evs)
    (c : Ledger) (x : Int) : (c.next e e').times x =
      c.times x ++ List.replicate ((TcpEngine.numbersIn evs).count x) e.now := by
  rw [next, times_append, times_map, TcpEngine.entered, h, List.drop_left]

end Ledger

namespace TcpEngine

variable {a : Action} {e e' f g k : TcpEngine} {seg : TcpSegment}

/-- The segment that an action hands to the handler of the state. -/
def arriving (e : TcpEngine) : Action → Option TcpSegment
  | .segment data =>
    match TcpSegment.parse data with
    | .ok seg => if e.Addressed seg then some seg else none
    | .error _ => none
  | _ => none

/-- The end point of the measurement that the entry point completes, and what it calls
`rtt.sample` with. -/
def sampled (e : TcpEngine) (a : Action) : Option (Int × ℚ) :=
  (e.arriving a).bind fun seg => e.sampleAt (e.acked seg)

/-- What the entry point transmits takes numbers that have been transmitted before: it
retransmits the head of the queue, or answers a SYN that has crossed ours. -/
def Resends (e : TcpEngine) : Action → Prop
  | .expire h => h.cb = .onRto
  | .segment data => ∃ seg ∈ e.arriving (.segment data), e.Crosses seg
  | _ => False

instance (e : TcpEngine) : (a : Action) → Decidable (e.Resends a)
  | .expire h => inferInstanceAs (Decidable (h.cb = .onRto))
  | .segment data => inferInstanceAs (Decidable (∃ seg ∈ e.arriving (.segment data), e.Crosses seg))
  | .tick _ | .random _ | .openCall .. | .activeOpen | .passiveOpen | .send .. | .receive _
  | .close | .abort => inferInstanceAs (Decidable False)

/-- The segments transmitted in a step. -/
def transmitted (e e' : TcpEngine) : List TcpSegment :=
  (entered e e').filterMap fun
    | .tx seg => some seg
    | _ => none

end TcpEngine

/-- An engine with the observer of its numbers. -/
def karnMachine : Lib.Machine (TcpEngine × Ledger) Action where
  step s a := (engineMachine.step s.1 a).map fun e' => (e', s.2.next s.1 e')

/-- A sample is the time since the one transmission of the number before the end point. -/
def Karn (s : TcpEngine × Ledger) (a : Action) : Prop :=
  ∀ endSeq r, s.1.sampled a = some (endSeq, r) →
    ∃ t, s.2.times (sub endSeq 1) = [t] ∧ r = s.1.now - t

namespace TcpEngine

variable {a : Action} {e e' f g k : TcpEngine} {seg : TcpSegment}

/-- The entry point opens a connection, and the MSS of its SYN does not fit the option. -/
def Misdials (e : TcpEngine) : Action → Prop
  | .activeOpen => e.Outside ∧ 65535 < e.tcb.sndMss
  | .openCall active _ _ _ => active = true ∧ e.Outside ∧ 65535 < e.tcb.sndMss
  | .send .. => e.tcb.state = .listen ∧ e.AcceptsSend ∧ e.conf.remotePort ≠ 0 ∧
      65535 < e.tcb.sndMss
  | .segment data => ∃ seg ∈ e.arriving (.segment data), e.OpensListener seg ∧
      65535 < e.agreedMss seg
  | _ => False

/-- The number before the end point of the measurement in progress. -/
def timedNumber (e : TcpEngine) : Option Int := e.rt.rttPending.map fun p => sub p.1 1

/-- A SYN crosses ours while that is being timed. -/
def CrossesTimed (e : TcpEngine) (a : Action) : Prop :=
  ∃ seg ∈ e.arriving a, e.Crosses seg ∧ e.timedNumber = some (add e.tcb.iss 0)

/-- The entry point sends the SYN of a new connection. -/
def Dials (e : TcpEngine) : Action → Prop
  | .activeOpen => e.Outside
  | .openCall active _ _ _ => active = true ∧ e.Outside
  | .send .. => e.tcb.state = .listen ∧ e.AcceptsSend ∧ e.conf.remotePort ≠ 0
  | .segment data => ∃ seg ∈ e.arriving (.segment data), e.OpensListener seg
  | _ => False

instance (e : TcpEngine) : (a : Action) → Decidable (e.Dials a)
  | .activeOpen => inferInstanceAs (Decidable e.Outside)
  | .openCall active _ _ _ => inferInstanceAs (Decidable (active = true ∧ e.Outside))
  | .send .. =>
    inferInstanceAs (Decidable (e.tcb.state = .listen ∧ e.AcceptsSend ∧ e.conf.remotePort ≠ 0))
  | .segment data =>
    inferInstanceAs (Decidable (∃ seg ∈ e.arriving (.segment data), e.OpensListener seg))
  | .tick _ | .random _ | .passiveOpen | .receive _ | .close | .abort | .expire _ =>
    inferInstanceAs (Decidable False)

/-- What is waiting for a number once the entry point has taken its arguments. -/
def due (e : TcpEngine) : Action → Nat
  | .send data push urgent t => e.unsent + (e.buffered (.send data push urgent t)).length
  | .close =>
    if e.tcb.state ∈ [.synReceived, .established, .closeWait] then e.requestFin.unsent
    else e.unsent
  | .abort | .segment _ | .expire _ => e.unsent
  | .tick _ | .random _ | .openCall .. | .activeOpen | .passiveOpen | .receive _ => 0

/-- The numbers that the entry point may give out, in order. -/
def upcoming (e : TcpEngine) (a : Action) : List Int :=
  if e.Dials a then numbersFrom e.newIss 1 else numbersFrom e.tcb.sndNxt (e.due a)

theorem upcoming_dials (h : e.Dials a) : e.upcoming a = numbersFrom e.newIss 1 := if_pos h

theorem upcoming_due (h : ¬ e.Dials a) : e.upcoming a = numbersFrom e.tcb.sndNxt (e.due a) :=
  if_neg h

theorem mem_upcoming {x : Int} (h : x ∈ e.upcoming a) : 0 ≤ x ∧ x < 4294967296 := by
  unfold upcoming at h
  split at h <;> exact mem_numbersFrom h

/-! ## The entry points -/

/-- The engine looks the same to the observer. -/
structure Alike (e k : TcpEngine) : Prop where
  log : k.env.log = e.env.log
  rt : k.rt = e.rt
  now : k.now = e.now

theorem Gives.after {evs : List Event} {ns : List Int} (h : Gives k f evs ns) (hk : Alike e k) :
    Gives e f evs ns := by
  refine ⟨by rw [h.log, hk.log], h.numbers, ?_⟩
  rw [← hk.rt, ← hk.now]
  exact h.pending

theorem Gives.then {evs : List Event} {ns : List Int} (h : Gives e f evs ns) (hf : Alike f g) :
    Gives e g evs ns := by
  refine ⟨by rw [hf.log, h.log], h.numbers, ?_⟩
  rw [hf.rt]
  exact h.pending

/-- An entry point that gives out no number, and lets the measurement go on. -/
theorem Gives.still {ns : List Int} (hl : Logs Numberless e f) (hr : f.rt = e.rt) :
    ∃ evs, Gives e f evs ns := by
  obtain ⟨evs, hl, hev⟩ := hl
  refine ⟨evs, hl, ?_, Or.inr (Or.inl (by rw [hr]))⟩
  rw [numbersIn_eq_nil hev]
  exact List.nil_prefix

/-- What the entry point does with the numbers, with the measurement and with the estimator. -/
structure Accounts (e : TcpEngine) (a : Action) (f : TcpEngine) : Prop where
  gives : ∃ evs, Gives e f evs (e.upcoming a)
  rtt : f.rt.rtt = match e.sampled a with
    | some (_, r) => e.rt.rtt.sample e.conf.cfg r
    | none => e.rt.rtt

theorem Accounts.still (hs : e.sampled a = none) (hl : Logs Numberless e f) (hr : f.rt = e.rt) :
    Accounts e a f := ⟨Gives.still hl hr, by rw [hs, hr]⟩

theorem Times.accounts (h : Times k f) (hk : Alike e k) (hn : k.tcb.sndNxt = e.tcb.sndNxt)
    (hs : e.sampled a = none) (hd : ¬ e.Dials a) (hu : k.unsent ≤ e.due a)
    (hh : f.env.hung = false) : Accounts e a f := by
  obtain ⟨evs, n, hi⟩ := h.issues hh
  refine ⟨⟨evs, ?_⟩, by rw [hs, h.rtt, hk.rt]⟩
  rw [upcoming_due hd, ← hn]
  exact (hi.gives hu).after hk

theorem Begins.accounts (h : Begins k f) (hk : Alike e k) (hi : k.newIss = e.newIss)
    (hs : e.sampled a = none) (hd : e.Dials a) : Accounts e a f := by
  obtain ⟨evs, hg⟩ := h.gives
  refine ⟨⟨evs, ?_⟩, by rw [hs, h.rtt, hk.rt]⟩
  rw [upcoming_dials hd, ← hi]
  exact hg.after hk

theorem connect_begins (hs : e.Outside) (hm : e.tcb.sndMss ≤ 65535) : Begins e e.connect := by
  rw [connect_eq (by simpa [Outside] using hs)]
  exact .syn _ rfl hm rfl rfl rfl (.one _ rfl (numberless_stateChange _ _))

theorem connect_state (hs : e.Outside) : e.connect.tcb.state = .synSent := by
  rw [connect_eq (by simpa [Outside] using hs)]
  simp [dialled]

theorem activeOpen_outside (hs : e.Outside) : e.activeOpen = e.connect :=
  activeOpen_eq (by simpa [Outside] using hs)

theorem activeOpen_refused (hs : ¬ e.Outside) : ∃ msg, e.activeOpen = e.raise msg := by
  unfold activeOpen
  rw [if_pos (by simpa [Outside] using hs)]
  exact ⟨_, rfl⟩

/-- In SYN-SENT the data waits. -/
theorem sendQueued_waits (data : List UInt8) (urgent : Bool) (hs : e.tcb.state = .synSent) :
    Alike e (e.sendQueued data urgent) := by
  unfold sendQueued
  dsimp only
  split_ifs with hu ho ho
  · simp [setSndUp, hs] at ho
  · exact ⟨rfl, rfl, rfl⟩
  · simp [hs] at ho
  · exact ⟨rfl, rfl, rfl⟩

theorem sendQueued_times (data : List UInt8) (urgent : Bool) :
    Times e (e.sendQueued data urgent) := by
  unfold sendQueued
  dsimp only
  have h1 : Times e (if urgent && !data.isEmpty then e.setSndUp else e) := by
    split
    · exact .still rfl rfl rfl rfl rfl (.none rfl)
    · exact .refl e
  generalize (if urgent && !data.isEmpty then e.setSndUp else e) = f at h1
  split
  · exact h1.trans sendPending_times
  · exact h1

theorem passiveOpen_still : Logs Numberless e e.passiveOpen ∧ e.passiveOpen.rt = e.rt := by
  unfold passiveOpen startListening
  split
  · exact ⟨.none rfl, rfl⟩
  · refine ⟨Logs.trans (f := { e with fin := { e.fin with passive := true } }) (.none rfl) ?_, ?_⟩
    · exact setState_logs _ fun _ => numberless_stateChange _ _
    · rw [setState_rt]

theorem receive_still (n : Nat) : Logs Numberless e (e.receive n) ∧ (e.receive n).rt = e.rt := by
  have hfin {f : TcpEngine} (data : List UInt8) : Logs Numberless f (f.finishReceive data) ∧
      (f.finishReceive data).rt = f.rt := by
    refine ⟨.one _ (by rw [finishReceive_env]) (by intro _ h; cases h), ?_⟩
    unfold finishReceive
    dsimp only
    split <;> rfl
  have hd : Logs Numberless e (e.drain n) := .none rfl
  unfold receive
  dsimp only
  split_ifs
  · exact ⟨.none rfl, rfl⟩
  · exact ⟨.none rfl, rfl⟩
  · exact ⟨.none rfl, rfl⟩
  · have hack : Logs Numberless (e.drain n) (e.drain n).reopenWindow.sendAck :=
      .one (.tx (e.drain n).reopenWindow.ackSegment) (by simp [reopenWindow]) (numberless_ack _)
    exact ⟨(hd.trans hack).trans (hfin _).1, (hfin _).2.trans (by simp [drain, reopenWindow])⟩
  · exact ⟨hd.trans (hfin _).1, (hfin _).2⟩

theorem close_unready (hs : e.tcb.state ∉ [.synReceived, .established, .closeWait]) :
    Times e e.close := by
  unfold close
  split_ifs with h1 h2 h3
  · exact .still rfl rfl rfl rfl rfl (.none rfl)
  · exact .still rfl rfl rfl rfl rfl (.none rfl)
  · exact enterClosed_times
  · cases h : e.tcb.state <;> simp [h] at hs h1 h2 h3

theorem close_accepted (hs : e.tcb.state ∈ [.synReceived, .established, .closeWait]) :
    e.close = e.requestFin.sendPending := by
  simp only [List.mem_cons, List.not_mem_nil, or_false] at hs
  unfold close
  rw [if_neg, if_neg, if_neg]
  all_goals rcases hs with hs | hs | hs <;> simp [hs]

theorem abort_times : Times e e.abort := by
  unfold abort
  split_ifs
  · exact .still rfl rfl rfl rfl rfl (.none rfl)
  · exact sendRst_times.trans enterClosed_times
  · exact enterClosed_times

theorem fire_times (h : TimerHandle Callback) : Times e (e.fire h) :=
  .still (by simp) (by simp) (by simp) (by simp) (by simp [unsent]) (.none (by simp))

theorem onPersist_times {h : TimerHandle Callback} (hcb : h.cb = .onPersist) :
    Times e (e.popTimer h).onPersist := by
  have hf : (e.popTimer h).forgetTimer .onPersist = e.fire h := by rw [fire, hcb]
  have hre {f : TcpEngine} : Times f f.rearmPersist := .still rfl rfl rfl rfl rfl (.none rfl)
  unfold onPersist
  rw [hf]
  dsimp only
  split_ifs with hw hb hd
  · exact (fire_times h).trans sendPending_times
  · have hlen : 0 < ((e.fire h).buf.appBuf.take 1).length := by
      have := List.length_pos_iff.mpr hb
      rw [List.length_take]
      omega
    have hp : Times (e.fire h) (e.fire h).sendProbe := by
      refine queued_times (e := (e.fire h).takeChunk 1) { ack := true }
        ((e.fire h).buf.appBuf.take 1) false 0 (fun hm => by cases hm) (by omega) rfl rfl ?_ rfl
        ⟨rfl, rfl, rfl, rfl⟩ ?_
      · exact queueAndSend_now (e := (e.fire h).takeChunk 1) _ _ _ _
      · simp [unsent, sendProbe]
        omega
    exact (fire_times h).trans (hp.trans hre)
  · exact (fire_times h).trans ((sendFin_times (by simp_all [FinDue])).trans hre)
  · exact fire_times h

theorem onKeepalive_times {h : TimerHandle Callback} (hcb : h.cb = .onKeepalive) :
    Times e (e.popTimer h).onKeepalive := by
  have hf : (e.popTimer h).forgetTimer .onKeepalive = e.fire h := by rw [fire, hcb]
  have hre {f : TcpEngine} (b : Bool) : Times f (f.restartKeepalive b) :=
    .still (by simp) (by simp) (by simp) (by simp) (by simp [unsent]) (.none (by simp))
  unfold onKeepalive
  rw [hf]
  dsimp only
  split_ifs
  · exact fire_times h
  · exact (fire_times h).trans (hre false)
  · exact (fire_times h).trans (giveUp_times _)
  · have h1 : Times (e.fire h) (e.fire h).sendKeepaliveProbe :=
      (makeAndTransmit_times _ _ rfl rfl).trans (.still rfl rfl rfl rfl rfl (.none rfl))
    exact (fire_times h).trans (h1.trans (hre false))

/-- Every expiry but one of the retransmission timer. -/
theorem callback_times {h : TimerHandle Callback} (hcb : h.cb ≠ .onRto) :
    Times e ((e.popTimer h).callback h.cb) := by
  have hf (cb : Callback) (hc : h.cb = cb) : (e.popTimer h).forgetTimer cb = e.fire h := by
    rw [fire, hc]
  cases hc : h.cb with
  | onRto => exact absurd hc hcb
  | onPersist => exact onPersist_times hc
  | onDelack =>
    rw [callback, onDelack, hf _ hc]
    exact (fire_times h).trans sendAck_times
  | onTimeWait =>
    rw [callback, onTimeWait, hf _ hc]
    exact (fire_times h).trans enterClosed_times
  | onKeepalive => exact onKeepalive_times hc

/-! ## Steps -/

theorem sampled_of_none (h : e.arriving a = none) : e.sampled a = none := by
  rw [sampled, h]
  rfl

theorem send_accounts (data : List UInt8) (push urgent : Bool) (t : Option ℚ)
    (hd : ¬ e.Misdials (.send data push urgent t))
    (hh : (e.send data push urgent t).env.hung = false) :
    Accounts e (.send data push urgent t) (e.send data push urgent t) := by
  by_cases ha : e.AcceptsSend
  · rw [send_of_accepts data push urgent t ha] at hh ⊢
    generalize hk : (e.setUserTimeout t).bufferData data push = k at hh ⊢
    have hlike : Alike e k ∧ k.tcb = e.tcb ∧ k.conf.remotePort = e.conf.remotePort ∧
        k.newIss = e.newIss ∧ k.unsent = e.unsent + data.length := by
      subst hk
      cases t <;>
        exact ⟨⟨rfl, rfl, rfl⟩, rfl, rfl, rfl, by simp [unsent, bufferData, setUserTimeout]; omega⟩
    obtain ⟨hlike, htcb, hport, hiss, hunsent⟩ := hlike
    have hdue : k.unsent ≤ e.due (.send data push urgent t) := by
      rw [hunsent, due, buffered, if_pos ha]
      rfl
    unfold sendBuffered at hh ⊢
    split_ifs at hh ⊢ with hs hp hx
    · exact .still rfl (.none hlike.log) hlike.rt
    all_goals rw [htcb] at hs
    · -- the data waits for the connection that this SYN opens
      rw [hport] at hp
      have ho : k.Outside := by simp [Outside, htcb, hs]
      have hb := connect_begins ho (by
        rw [htcb]
        exact Nat.not_lt.mp fun hm => hd ⟨hs, ha, hp, hm⟩)
      rw [activeOpen_outside ho]
      exact hb.accounts hlike hiss rfl ⟨hs, ha, hp⟩
    · rw [hport] at hp
      have ho : k.Outside := by simp [Outside, htcb, hs]
      have hb := connect_begins ho (by
        rw [htcb]
        exact Nat.not_lt.mp fun hm => hd ⟨hs, ha, hp, hm⟩)
      rw [activeOpen_outside ho]
      have hacc := hb.accounts (a := .send data push urgent t) hlike hiss rfl ⟨hs, ha, hp⟩
      have hw := sendQueued_waits (e := k.connect) data urgent (connect_state ho)
      obtain ⟨evs, hg⟩ := hacc.gives
      exact ⟨⟨evs, hg.then hw⟩, by rw [hw.rt, hacc.rtt]⟩
    · exact (sendQueued_times data urgent).accounts hlike (by rw [htcb]) rfl
        (fun hdial => hs hdial.1) hdue hh
  · obtain ⟨msg, h⟩ := send_of_refused (e := e) data push urgent t ha
    rw [h]
    exact .still rfl (.none rfl) rfl

/-- Every entry point but a segment and an expiry of the retransmission timer. -/
theorem perform_accounts (hs : ∀ data, a ≠ .segment data) (hr : ¬ e.Resends a)
    (hd : ¬ e.Misdials a) (hh : (e.perform a).env.hung = false) : Accounts e a (e.perform a) := by
  cases a with
  | tick dt => exact .still rfl (.none rfl) rfl
  | random r => exact .still rfl (.none rfl) rfl
  | openCall active r l t =>
    have hk : Alike e ((e.setPorts r l).setUserTimeout t) ∧
        ((e.setPorts r l).setUserTimeout t).tcb = e.tcb ∧
        ((e.setPorts r l).setUserTimeout t).newIss = e.newIss := by
      cases t <;> exact ⟨⟨rfl, rfl, rfl⟩, rfl, rfl⟩
    rw [perform, openCall]
    generalize (e.setPorts r l).setUserTimeout t = k at hk
    obtain ⟨hk, htcb, hiss⟩ := hk
    cases active with
    | true =>
      rw [if_pos rfl]
      by_cases ho : k.Outside
      · have ho' : e.Outside := by simpa [Outside, htcb] using ho
        rw [activeOpen_outside ho]
        refine (connect_begins ho ?_).accounts hk hiss rfl ⟨rfl, ho'⟩
        rw [htcb]
        exact Nat.not_lt.mp fun hm => hd ⟨rfl, ho', hm⟩
      · obtain ⟨msg, h⟩ := activeOpen_refused ho
        rw [h]
        exact .still rfl (.none hk.log) hk.rt
    | false =>
      have hp := passiveOpen_still (e := k)
      exact .still rfl (Logs.trans (.none hk.log) hp.1) (hp.2.trans hk.rt)
  | activeOpen =>
    rw [perform]
    by_cases ho : e.Outside
    · rw [activeOpen_outside ho]
      exact (connect_begins ho (Nat.not_lt.mp fun hm => hd ⟨ho, hm⟩)).accounts ⟨rfl, rfl, rfl⟩ rfl
        rfl ho
    · obtain ⟨msg, h⟩ := activeOpen_refused ho
      rw [h]
      exact .still rfl (.none rfl) rfl
  | passiveOpen => exact .still rfl passiveOpen_still.1 passiveOpen_still.2
  | send data push urgent t => exact send_accounts data push urgent t hd hh
  | receive n => exact .still rfl (receive_still n).1 (receive_still n).2
  | close =>
    rw [perform] at hh ⊢
    by_cases hst : e.tcb.state ∈ [.synReceived, .established, .closeWait]
    · rw [close_accepted hst] at hh ⊢
      refine sendPending_times.accounts ⟨rfl, rfl, rfl⟩ rfl rfl id ?_ hh
      rw [due, if_pos hst]
    · refine (close_unready hst).accounts ⟨rfl, rfl, rfl⟩ rfl rfl id ?_ hh
      rw [due, if_neg hst]
  | abort => exact abort_times.accounts ⟨rfl, rfl, rfl⟩ rfl rfl id (Nat.le_refl _) hh
  | segment data => exact absurd rfl (hs data)
  | expire h => exact (callback_times hr).accounts ⟨rfl, rfl, rfl⟩ rfl rfl id (Nat.le_refl _) hh

theorem arriving_segment {data : List UInt8} (hp : TcpSegment.parse data = .ok seg)
    (ha : e.Addressed seg) : e.arriving (.segment data) = some seg := by
  simp [arriving, hp, ha]

theorem arriving_none {data : List UInt8} (hp : TcpSegment.parse data = .ok seg)
    (ha : ¬ e.Addressed seg) : e.arriving (.segment data) = none := by
  simp [arriving, hp, ha]

theorem sampled_of_arriving (h : e.arriving a = some seg) :
    e.sampled a = e.sampleAt (e.acked seg) := by
  rw [sampled, h]
  rfl

theorem heard_now : e.heard.now = e.now := by
  unfold heard
  split
  · exact restartKeepalive_now true
  · rfl

/-- The handler finds the segment as the engine did. -/
theorem enter_heard_acked : e.enter.heard.acked seg = e.acked seg := by
  have ht : e.enter.heard.tcb = e.tcb := heard_tcb
  have ha : e.enter.heard.accepts seg = e.accepts seg := by
    simp only [accepts, ht, heard_rcvWnd]
    rfl
  simp only [acked, ha, ht]

theorem enter_heard_crosses : e.enter.heard.Crosses seg ↔ e.Crosses seg := by
  have ht : e.enter.heard.tcb = e.tcb := heard_tcb
  simp only [Crosses, ht]

theorem enter_heard_opens : e.enter.heard.OpensListener seg ↔ e.OpensListener seg := by
  simp [OpensListener, heard_tcb, heard_conf]

/-- What a step that retransmits nothing does. -/
theorem step_accounts (hd : ¬ e.Misdials a) (hr : ¬ e.Resends a)
    (h : engineMachine.step e a = some e') : Accounts e a e' := by
  have hh : e'.env.hung = false := step_hung h
  by_cases hseg : ∃ data, a = .segment data
  · obtain ⟨data, rfl⟩ := hseg
    cases hp : TcpSegment.parse data with
    | error msg =>
      simp only [engineMachine] at h
      split_ifs at h
      obtain rfl := Option.some.inj h
      rw [perform, onSegment, hp]
      exact .still (sampled_of_none (by simp [arriving, hp])) (.none rfl) rfl
    | ok seg =>
      rcases step_segment hp h with ⟨ha, rfl⟩ | ⟨ha, rfl⟩
      · exact .still (sampled_of_none (arriving_none hp ha)) (.none rfl) rfl
      have harr := arriving_segment hp ha
      have hlike : Alike e e.enter.heard :=
        ⟨by rw [heard_env]; rfl, by rw [heard_rt]; rfl, by rw [heard_now]; rfl⟩
      have hs : e.sampled (.segment data) = e.sampleAt (e.acked seg) := sampled_of_arriving harr
      by_cases ho : e.OpensListener seg
      · have hno : e.sampled (.segment data) = none := by
          rw [hs, acked_of_not_accepts (by simp [accepts, ho.1])]
          rfl
        refine Begins.accounts ((enter_heard_opens.mpr ho).begins ?_) hlike ?_ hno ⟨seg, harr, ho⟩
        · have hm : e.enter.heard.agreedMss seg = e.agreedMss seg := by
            simp [agreedMss, heard_tcb, heard_conf]
          rw [hm]
          exact Nat.not_lt.mp fun hx => hd ⟨seg, harr, ho, hx⟩
        · simp only [newIss, heard_conf, heard_env]
          rfl
      · have hk := handle_samples (e := e.enter.heard) seg (mt enter_heard_opens.mp ho)
          fun hc => hr ⟨seg, harr, enter_heard_crosses.mp hc⟩
        rw [enter_heard_acked] at hk
        have hdial : ¬ e.Dials (.segment data) := by
          rintro ⟨s, hsm, hso⟩
          rw [harr] at hsm
          obtain rfl := Option.some.inj hsm
          exact ho hso
        obtain ⟨evs, n, hi⟩ := hk.issues hh
        refine ⟨⟨evs, ?_⟩, ?_⟩
        · rw [upcoming_due hdial]
          have hg := hi.gives (m := e.unsent) (by simp [unsent, heard_buf, heard_fin])
          rw [heard_tcb] at hg
          exact hg.after hlike
        · have hat : e.enter.heard.sampleAt (e.acked seg) = e.sampleAt (e.acked seg) := by
            simp only [sampleAt, hlike.rt, hlike.now]
          rw [hk.rtt, hat, hs, hlike.rt, heard_conf]
          rfl
  · have hr' : ¬ e.enter.Resends a := by
      cases a with
      | segment data => exact absurd ⟨_, rfl⟩ hseg
      | _ => exact hr
    have hd' : ¬ e.enter.Misdials a := by
      cases a with
      | segment data => exact absurd ⟨_, rfl⟩ hseg
      | _ => exact hd
    simp only [engineMachine] at h
    split_ifs at h
    obtain rfl := Option.some.inj h
    have hk := perform_accounts (e := e.enter) (a := a) (fun data hx => hseg ⟨data, hx⟩) hr' hd' hh
    obtain ⟨⟨evs, hg⟩, hrtt⟩ := hk
    have hup : e.enter.upcoming a = e.upcoming a := by
      cases a with
      | segment data => exact absurd ⟨_, rfl⟩ hseg
      | _ => rfl
    rw [hup] at hg
    exact ⟨⟨evs, hg.after ⟨rfl, rfl, rfl⟩⟩, hrtt⟩

/-- The retransmission timer gives the measurement up, or finds nothing to retransmit. -/
theorem step_onRto {h : TimerHandle Callback} (hcb : h.cb = .onRto)
    (hs : engineMachine.step e (.expire h) = some e') :
    e'.rt.rttPending = none ∨ (e'.rt = e.rt ∧ e'.env.log = e.env.log) := by
  simp only [engineMachine] at hs
  split_ifs at hs
  obtain rfl := Option.some.inj hs
  have hf : (e.enter.popTimer h).forgetTimer .onRto = e.enter.fire h := by rw [fire, hcb]
  rw [perform, hcb, callback, onRto, hf]
  dsimp only
  split
  · exact Or.inr ⟨by simp, by simp [enter]⟩
  · next o rest _ =>
    left
    have hgive {f : TcpEngine} (msg : String) : (f.giveUp msg).rt.rttPending = none :=
      enterClosed_unmeasured
    split_ifs
    · exact hgive _
    · exact hgive _
    · rcases retransmitHead_cases (e := (e.enter.fire h).countRto) o rest with hx | ⟨-, -, hx⟩
      · rw [hx]
        rfl
      · rw [hx]
        rfl

end TcpEngine

/-- No number that the entry point may give out comes twice, or has been transmitted before. -/
def Afresh (s : TcpEngine × Ledger) (a : Action) : Prop :=
  (s.1.upcoming a).Nodup ∧ ∀ x ∈ s.1.upcoming a, s.2.times x = []

/-- No step times a SYN that goes out twice, or one that does not go out, and a number goes out
again only if it is retransmitted. -/
def Timely (s : TcpEngine × Ledger) (a : Action) : Prop :=
  ¬ s.1.Misdials a ∧ ¬ s.1.CrossesTimed a ∧ (¬ s.1.Resends a → Afresh s a)

/-- The number being timed has been transmitted once, when its measurement began. -/
def Noted (s : TcpEngine × Ledger) : Prop :=
  ∀ endSeq t, s.1.rt.rttPending = some (endSeq, t) → s.2.times (sub endSeq 1) = [t]

open TcpEngine

variable {a : Action} {e e' : TcpEngine} {c : Ledger}

/-- What is transmitted leaves a number alone that is not part of it. -/
theorem Ledger.times_next_same {evs : List Event} {x : Int} (h : e'.env.log = e.env.log ++ evs)
    (hx : x ∉ numbersIn evs) : (c.next e e').times x = c.times x := by
  rw [times_next h, List.count_eq_zero.mpr hx, List.replicate_zero, List.append_nil]

theorem mem_numbersIn {evs : List Event} {x : Int} (h : x ∈ numbersIn evs) :
    ∃ seg, Event.tx seg ∈ evs ∧ x ∈ numbersFrom seg.seq seg.segLen := by
  obtain ⟨ev, hm, hx⟩ := List.mem_flatMap.mp h
  cases ev with
  | tx seg => exact ⟨seg, hm, hx⟩
  | _ => cases hx

/-- What the SYN-ACK of a simultaneous open repeats is not what is being timed. -/
theorem Noted.crosses {seg : TcpSegment} (h : Noted (e, c)) (hx : ¬ e.CrossesTimed a)
    (ha : e.arriving a = some seg) (hcr : e.Crosses seg) (hs : engineMachine.step e a = some e') :
    Noted (e', c.next e e') := by
  obtain ⟨data, rfl⟩ : ∃ data, a = .segment data := by
    cases a with
    | segment data => exact ⟨data, rfl⟩
    | _ => cases ha
  obtain ⟨hp, hadd⟩ : TcpSegment.parse data = .ok seg ∧ e.Addressed seg := by
    unfold arriving at ha
    dsimp only at ha
    split at ha
    · next s hp =>
      split_ifs at ha with hadd
      obtain rfl := Option.some.inj ha
      exact ⟨hp, hadd⟩
    · cases ha
  rcases step_segment hp hs with ⟨hn, -⟩ | ⟨-, rfl⟩
  · exact absurd hadd hn
  obtain ⟨hrt, evs, hlog, hev⟩ := (enter_heard_crosses.mpr hcr).resends
  have hlog' : (e.enter.heard.handle seg).env.log = e.env.log ++ evs := by
    rw [hlog, heard_env]
    rfl
  intro endSeq t hpend
  have hpend' : e.rt.rttPending = some (endSeq, t) := by
    rw [← hpend, hrt, heard_rt]
    rfl
  have ht : c.times (sub endSeq 1) = [t] := h endSeq t hpend'
  rw [← ht]
  refine Ledger.times_next_same hlog' fun hm => hx ⟨seg, ha, hcr, ?_⟩
  -- all that goes out is the number of the SYN
  obtain ⟨s, hsm, hn⟩ := mem_numbersIn hm
  obtain ⟨h1, h2⟩ := hev _ hsm s rfl
  have hiss : s.seq = e.tcb.iss := by rw [h1, heard_tcb]; rfl
  rw [h2, hiss] at hn
  obtain ⟨i, hi, hnum⟩ := List.mem_map.mp hn
  obtain rfl : i = 0 := by simpa using hi
  rw [timedNumber, hpend', Option.map_some, ← hnum]
  rfl

theorem Noted.step (h : Noted (e, c)) (hx : Timely (e, c) a)
    (hs : engineMachine.step e a = some e') : Noted (e', c.next e e') := by
  obtain ⟨hd, hcr, hfresh⟩ := hx
  by_cases hc : ∃ seg ∈ e.arriving a, e.Crosses seg
  · obtain ⟨seg, ha, hc⟩ := hc
    exact h.crosses hcr ha hc hs
  by_cases hr : ∃ g, a = .expire g ∧ g.cb = .onRto
  · -- the measurement is given up, or nothing is transmitted
    obtain ⟨g, rfl, hcb⟩ := hr
    intro endSeq t hp
    rcases step_onRto hcb hs with hn | ⟨hrt, hlog⟩
    · rw [hn] at hp
      cases hp
    · rw [hrt] at hp
      rw [← h endSeq t hp]
      have hquiet : e'.env.log = e.env.log ++ [] := by rw [hlog, List.append_nil]
      exact Ledger.times_next_same hquiet (by simp [numbersIn])
  have hres : ¬ e.Resends a := by
    cases a with
    | expire g => exact fun hcb => hr ⟨g, rfl, hcb⟩
    | segment data => exact hc
    | _ => exact id
  obtain ⟨hnodup, hnew⟩ := hfresh hres
  obtain ⟨⟨evs, hg⟩, -⟩ := step_accounts hd hres hs
  intro endSeq t hp
  rcases hg.pending with hn | hsame | ⟨x, hm, hbegun⟩
  · rw [hn] at hp
    cases hp
  · -- the number being timed has been transmitted, so it is none of those that go out now
    rw [hsame] at hp
    have ht : c.times (sub endSeq 1) = [t] := h endSeq t hp
    rw [← ht]
    refine Ledger.times_next_same hg.log fun hm => ?_
    have hnil : c.times (sub endSeq 1) = [] := hnew _ (hg.numbers.subset hm)
    rw [ht] at hnil
    cases hnil
  · -- the number goes out now, and for the first time
    rw [hbegun] at hp
    obtain ⟨rfl, rfl⟩ := Prod.mk.inj (Option.some.inj hp)
    have hup : x ∈ e.upcoming a := hg.numbers.subset hm
    have hxr := mem_upcoming hup
    have hlast : sub (add x 1) 1 = x := by
      rw [sub_def, add_def]
      omega
    have hnil : c.times x = [] := hnew x hup
    have hone : (numbersIn evs).count x = 1 :=
      List.count_eq_one_of_mem (hnodup.sublist hg.numbers.sublist) hm
    rw [hlast, Ledger.times_next hg.log, hnil, hone]
    rfl

theorem Noted.karn (h : Noted (e, c)) : Karn (e, c) a := by
  intro endSeq r hs
  obtain ⟨seg, -, hs⟩ := Option.bind_eq_some_iff.mp hs
  simp only [sampleAt] at hs
  split at hs
  · next ack p q hp =>
    split_ifs at hs
    obtain ⟨rfl, rfl⟩ := Prod.mk.inj (Option.some.inj hs)
    exact ⟨_, h _ _ hp, rfl⟩
  · cases hs

/-- In a run whose steps are timely every sample is one of a number transmitted once. -/
theorem samples_karn (args : EngineArgs) (sched : ManualScheduler Callback) (rand : Nat)
    (as : List Action) (hC : karnMachine.AllSteps Timely (init args sched rand, []) as) :
    karnMachine.AllSteps Karn (init args sched rand, []) as := by
  refine Lib.Machine.AllSteps.of_invariant (C := Timely) (I := Noted) ?_ ?_ hC
  · rintro ⟨e, c⟩ a h hx
    refine ⟨h.karn, fun s' hs => ?_⟩
    obtain ⟨e', he, rfl⟩ := Option.map_eq_some_iff.mp hs
    exact h.step hx he
  · intro endSeq t hp
    cases hp

instance (e : TcpEngine) : (a : Action) → Decidable (e.Misdials a)
  | .activeOpen => inferInstanceAs (Decidable (e.Outside ∧ 65535 < e.tcb.sndMss))
  | .openCall active _ _ _ =>
    inferInstanceAs (Decidable (active = true ∧ e.Outside ∧ 65535 < e.tcb.sndMss))
  | .send .. => inferInstanceAs (Decidable (e.tcb.state = .listen ∧ e.AcceptsSend ∧
      e.conf.remotePort ≠ 0 ∧ 65535 < e.tcb.sndMss))
  | .segment data => inferInstanceAs (Decidable (∃ seg ∈ e.arriving (.segment data),
      e.OpensListener seg ∧ 65535 < e.agreedMss seg))
  | .tick _ | .random _ | .passiveOpen | .receive _ | .close | .abort | .expire _ =>
    inferInstanceAs (Decidable False)

instance (s : TcpEngine × Ledger) (a : Action) : Decidable (Timely s a) :=
  inferInstanceAs (Decidable (¬ s.1.Misdials a ∧ (¬ ∃ seg ∈ s.1.arriving a,
    s.1.Crosses seg ∧ s.1.timedNumber = some (add s.1.tcb.iss 0)) ∧
    (¬ s.1.Resends a → (s.1.upcoming a).Nodup ∧ ∀ x ∈ s.1.upcoming a, s.2.times x = [])))

/-- A SYN-ACK answers our SYN after half a second. -/
def timedRun : List Action :=
  [.activeOpen, .tick (1 / 2),
    .segment [0, 80, 3, 232, 0, 0, 3, 232, 0, 0, 0, 101, 80, 18, 255, 255, 0, 0, 0, 0]]

theorem timedRun_karn : karnMachine.AllSteps Karn (dialStart, []) timedRun :=
  samples_karn _ {} 0 timedRun (by decide +kernel)

/-- The peer's SYN crosses ours after half a second. -/
def crossedRun : List Action :=
  [.activeOpen, .tick (1 / 2),
    .segment [0, 80, 3, 232, 0, 0, 3, 232, 0, 0, 0, 0, 80, 2, 255, 255, 0, 0, 0, 0], .tick (1 / 4)]

/-- The number of the SYN has been transmitted twice, and its acknowledgement is a sample. -/
theorem crossed_syn_sampled :
    ¬ karnMachine.AllSteps Karn (dialStart, []) (crossedRun ++ [.segment openingAck]) := by
  intro hK
  have h : (karnMachine.run (dialStart, []) crossedRun).map
      (fun s => (s.1.sampled (.segment openingAck), s.2)) =
        some (some (101, 3 / 4), [(100, 0), (100, 1 / 2)]) := by
    decide +kernel
  obtain ⟨s, hs, hv⟩ := Option.map_eq_some_iff.mp h
  obtain ⟨h1, h2⟩ := Prod.mk.inj hv
  obtain ⟨t, ht, -⟩ := (hK.suffix hs).1 101 (3 / 4) h1
  rw [h2] at ht
  cases ht

/-- A probe of a persist timer that has outlived its connection takes number 101 at time 1, and
the connection that is dialled next gives 101 to its first byte. -/
def strayRun : List Action :=
  [.activeOpen,
    .segment [0, 80, 3, 232, 0, 0, 3, 232, 0, 0, 0, 101, 80, 18, 0, 0, 0, 0, 0, 0],
    .send [1] false false none, .abort, .openCall false (some 0) none none,
    .send [7] false false none, .tick 1, .expire ⟨2, 1, .onPersist, false⟩,
    .openCall true (some 80) none none,
    .segment [0, 80, 3, 232, 0, 0, 3, 232, 0, 0, 0, 101, 80, 18, 255, 255, 0, 0, 0, 0],
    .tick (3 / 4), .send [9] false false none, .tick (1 / 4)]

/-- The acknowledgement of the byte is a sample taken from the probe. -/
theorem stray_probe_sampled : ¬ karnMachine.AllSteps Karn (dialStart, []) (strayRun ++
    [.segment [0, 80, 3, 232, 0, 0, 3, 233, 0, 0, 0, 102, 80, 16, 255, 255, 0, 0, 0, 0]]) := by
  intro hK
  have h : (karnMachine.run (dialStart, []) strayRun).map (fun s => (s.1.sampled
      (.segment [0, 80, 3, 232, 0, 0, 3, 233, 0, 0, 0, 102, 80, 16, 255, 255, 0, 0, 0, 0]), s.2)) =
        some (some (102, 1), [(100, 0), (101, 1), (100, 1), (101, 7 / 4)]) := by
    decide +kernel
  obtain ⟨s, hs, hv⟩ := Option.map_eq_some_iff.mp h
  obtain ⟨h1, h2⟩ := Prod.mk.inj hv
  obtain ⟨t, ht, -⟩ := (hK.suffix hs).1 102 1 h1
  rw [h2] at ht
  cases ht

end HdlPlayground.Tcp

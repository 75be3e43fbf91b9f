import HdlPlayground.Tcp.Arrivals
import HdlPlayground.Tcp.Reassembly
import HdlPlayground.Tcp.SenderSteps

/-!
# Probes into a closed window

While the window of the peer is closed the persist timer sends one byte at a time, and nothing
limits how many. So a run can have any number of bytes in flight, also more than the sequence
numbers can tell apart: then the FIN counts as acknowledged with a whole circle unacknowledged.
-/
namespace HdlPlayground.Tcp

namespace TcpEngine

variable {e f : TcpEngine} {d : Nat}

def openArgs : EngineArgs := { localPort := 1000, remotePort := 80, iss := some 100 }

/-- The handshake with a peer that offers no window. -/
def closedHandshake : List Action :=
  [.activeOpen, .segment [0, 80, 3, 232, 0, 0, 3, 232, 0, 0, 0, 101, 80, 18, 0, 0, 0, 0, 0, 0]]

def closedArgs : EngineArgs :=
  { localPort := 1000, remotePort := 80, iss := some 100, timers := { swsAvoidance := false } }

/-- A connection with a closed window has sent `d` probes, and has `k` bytes left. -/
structure Probing (d k : Nat) (e : TcpEngine) : Prop where
  state : e.tcb.state = .established
  sndWnd : e.tcb.sndWnd = 0
  una : e.tcb.sndUna = 101
  nxt : e.tcb.sndNxt = add 101 d
  left : e.buf.appBuf.length = k
  timer : ∃ h ∈ e.tm.sched.live, h.cb = .onPersist
  live : e.env.hung = false
  rcvNxt : e.tcb.rcvNxt = 1001
  fin : e.fin.finPending = false ∧ e.fin.pendingFin = none
  bufs : e.buf.ooo = [] ∧ e.buf.recvBuf = []
  conf : e.conf.cfg.swsAvoidance = false ∧ e.conf.rcvWndMax = 65535 ∧ e.conf.localPort = 1000
  delivered : e.delivered = []
  second : 2 ≤ d → ∃ o ∈ e.buf.retx, o.seq = 102 ∧ o.segLen = 1

/-- With a closed window and data to send, the persist timer sends one byte. -/
theorem expire_probes {t : TimerHandle Callback} (hcb : t.cb = .onPersist) (hw : e.tcb.sndWnd = 0)
    (hb : e.buf.appBuf ≠ []) :
    (e.popTimer t).callback t.cb = (e.fire t).sendProbe.rearmPersist := by
  have hfire : (e.popTimer t).forgetTimer .onPersist = e.fire t := by rw [fire, hcb]
  rw [hcb, callback, onPersist, hfire, fire_tcb, fire_buf, if_neg (by omega), if_pos hb]

theorem Probing.probed {d k : Nat} (h : Probing d (k + 1) e) (t : TimerHandle Callback) :
    Probing (d + 1) k (e.fire t).sendProbe.rearmPersist := by
  have hlen : 0 < e.buf.appBuf.length := by
    have := h.left
    omega
  have hseg : ∀ f : TcpEngine, (f.outgoing { ack := true } (e.buf.appBuf.take 1)).segLen = 1 := by
    intro f
    simp [Outgoing.segLen]
    omega
  constructor
  · simpa [sendProbe] using h.state
  · simpa [sendProbe] using h.sndWnd
  · simpa [sendProbe] using h.una
  · simp only [rearmPersist_tcb, sendProbe, queueAndSend_tcb, fire_tcb, fire_buf]
    rw [Outgoing.endSeq, hseg]
    show add e.tcb.sndNxt 1 = _
    rw [h.nxt, add_add]
    rfl
  · simp [sendProbe, h.left]
  · exact ⟨_, ManualScheduler.mem_live_callLater.mpr (Or.inr rfl), rfl⟩
  · simpa [sendProbe] using h.live
  · simpa [sendProbe] using h.rcvNxt
  · simpa [sendProbe] using h.fin
  · simpa [sendProbe] using h.bufs
  · simpa [sendProbe] using h.conf
  · rw [← h.delivered]
    have hq : Logs (fun ev => ev.bytes = []) (e.fire t) (e.fire t).sendProbe := by
      unfold sendProbe
      exact (Logs.none rfl).trans (queueAndSend_logs _ _ _ _ rfl)
    exact Logs.delivered (Logs.trans (f := e.fire t) (.none (by simp)) (hq.trans (.none rfl)))
  · intro hd
    by_cases h1 : d = 1
    · have hq : (e.fire t).sendProbe.rearmPersist.buf.retx = e.buf.retx ++
          [((e.fire t).takeChunk 1).outgoing { ack := true } (e.buf.appBuf.take 1)] := by
        rw [rearmPersist_buf, sendProbe, queueAndSend_buf]
        simp [takeChunk]
      refine ⟨_, by rw [hq]; exact List.mem_append_right _ List.mem_cons_self, ?_, hseg _⟩
      have hseq : (((e.fire t).takeChunk 1).outgoing { ack := true }
          (e.buf.appBuf.take 1)).seq = e.tcb.sndNxt := by simp [outgoing, takeChunk]
      rw [hseq, h.nxt, h1]
      rfl
    · obtain ⟨o, ho, hx⟩ := h.second (by omega)
      exact ⟨o, by simp [sendProbe, ho], hx⟩

/-- A live timer can be waited for. -/
theorem tick_due {t : TimerHandle Callback} (ht : t ∈ e.tm.sched.live) (hl : e.env.hung = false) :
    ∃ dt, engineMachine.step e (.tick dt) = some (e.enter.passTime dt) ∧
      (e.enter.passTime dt).Enabled (.expire t) := by
  have hdt : 0 ≤ max 0 (t.deadline - e.now) := le_max_left _ _
  refine ⟨max 0 (t.deadline - e.now), ?_, ht, ?_⟩
  · simp only [engineMachine]
    rw [if_pos (show e.Enabled (.tick (max 0 (t.deadline - e.now))) from hdt), perform,
      if_neg (by simp [passTime, enter, hl])]
  · have := le_max_right 0 (t.deadline - e.now)
    show t.deadline ≤ e.now + max 0 (t.deadline - e.now)
    exact sub_le_iff_le_add'.mp this

/-- The persist timer is waited for and fires: one more byte goes out. -/
theorem Probing.step {d k : Nat} (h : Probing d (k + 1) e) :
    ∃ as e', engineMachine.run e as = some e' ∧ (∀ a ∈ as, ¬ a.Opens) ∧
      Probing (d + 1) k e' := by
  obtain ⟨t, ht, hcb⟩ := h.timer
  obtain ⟨dt, htick, hdue⟩ := tick_due ht h.live
  have hp : Probing d (k + 1) (e.enter.passTime dt).enter :=
    ⟨h.state, h.sndWnd, h.una, h.nxt, h.left, ⟨t, ht, hcb⟩, h.live, h.rcvNxt, h.fin, h.bufs,
      h.conf, h.delivered, h.second⟩
  have hb : (e.enter.passTime dt).enter.buf.appBuf ≠ [] := fun hnil => by
    have := hp.left
    rw [hnil] at this
    cases this
  refine ⟨[.tick dt, .expire t], _, ?_, by simp [Action.Opens], hp.probed t⟩
  rw [Lib.Machine.run_cons, htick, Option.bind_some, Lib.Machine.run_cons]
  simp only [engineMachine]
  rw [if_pos hdue, perform, expire_probes hcb hp.sndWnd hb, (hp.probed t).live]
  rfl

/-- Every byte left can be sent as a probe. -/
theorem Probing.run {d k : Nat} (h : Probing d k e) :
    ∃ as e', engineMachine.run e as = some e' ∧ (∀ a ∈ as, ¬ a.Opens) ∧
      Probing (d + k) 0 e' := by
  induction k generalizing d e with
  | zero => exact ⟨[], e, rfl, by simp, h⟩
  | succ k ih =>
    obtain ⟨as, e1, hr1, ha, h1⟩ := h.step
    obtain ⟨bs, e2, hr2, hb, h2⟩ := ih h1
    refine ⟨as ++ bs, e2, ?_, fun a hm => (List.mem_append.mp hm).elim (ha a) (hb a), ?_⟩
    · rw [Lib.Machine.run_append, hr1]
      exact hr2
    · rw [Nat.add_comm k 1, ← Nat.add_assoc]
      exact h2

/-- A SEND on an open connection buffers the data and sends what can be sent. -/
theorem send_open {data : List UInt8} {push : Bool} (hs : e.tcb.state = .established)
    (hp : e.fin.finPending = false) :
    e.send data push false none = (e.bufferData data push).sendPending := by
  rw [send, if_neg (by rw [hs]; decide), if_neg (by rw [hs, hp]; decide)]
  show (if e.tcb.state = .listen then _ else (e.bufferData data push).sendQueued data false) = _
  rw [if_neg (by rw [hs]; decide)]
  show (if e.tcb.state = .established ∨ e.tcb.state = .closeWait then
    (e.bufferData data push).sendPending else e.bufferData data push) = _
  rw [if_pos (Or.inl hs)]

/-- Nothing is sent into a closed window, but the persist timer is armed. -/
theorem sendPending_shut (hs : e.tcb.state = .established) (hw : e.tcb.sndWnd = 0)
    (hb : e.buf.appBuf ≠ []) : e.sendPending = e.armPersist := by
  have hloop : e.dataLoop e.buf.appBuf.length = (e.armPersist, false) := by
    rw [dataLoop, if_neg hb, if_pos hw]
  rw [sendPending, if_pos (Or.inl hs), hloop]
  rfl

/-- Any number of bytes can be in flight as probes. -/
theorem probing_reached (k : Nat) (hk : 0 < k) :
    ∃ as e, engineMachine.run (init closedArgs {} 0) (.activeOpen :: as) = some e ∧
      (∀ a ∈ as, ¬ a.Opens) ∧ Probing k 0 e := by
  have h1 : ((engineMachine.run (init closedArgs {} 0) closedHandshake).map fun e =>
      (e.tcb.state, [e.tcb.sndUna, e.tcb.sndNxt, e.tcb.rcvNxt], e.tcb.sndWnd, e.env.hung)) =
      some (.established, [101, 101, 1001], 0, false) := by
    decide +kernel
  have h2 : ((engineMachine.run (init closedArgs {} 0) closedHandshake).map fun e =>
      (e.buf, e.fin, e.tm.persistTimer, e.delivered)) = some ({}, {}, none, []) := by
    decide +kernel
  have h3 : ((engineMachine.run (init closedArgs {} 0) closedHandshake).map fun e =>
      (e.conf.cfg.swsAvoidance, e.conf.rcvWndMax, e.conf.localPort)) =
      some (false, 65535, 1000) := by
    decide +kernel
  obtain ⟨e, he, hv1⟩ := Option.map_eq_some_iff.mp h1
  rw [he] at h2 h3
  simp only [Option.map_some, Option.some.injEq, Prod.mk.injEq, List.cons.injEq, and_true]
    at hv1 h2 h3
  obtain ⟨hst, ⟨huna, hnxt, hrcv⟩, hwnd, hlive⟩ := hv1
  obtain ⟨hbuf, hfin, hpt, hdel⟩ := h2
  have hdata : List.replicate k (0 : UInt8) ≠ [] := by
    simp
    omega
  -- the data is buffered, and the persist timer armed
  have hsend : engineMachine.step e (.send (List.replicate k 0) false false none) =
      some (e.enter.bufferData (List.replicate k 0) false).armPersist := by
    have hpend : e.enter.fin.finPending = false := by rw [enter_fin, hfin]
    have hbf : (e.enter.bufferData (List.replicate k 0) false).buf.appBuf ≠ [] := by
      intro h
      exact hdata (List.append_eq_nil_iff.mp h).2
    simp only [engineMachine]
    rw [if_pos (show e.Enabled (.send (List.replicate k 0) false false none) from trivial), perform,
      send_open (e := e.enter) hst hpend,
      sendPending_shut (e := e.enter.bufferData _ false) hst hwnd hbf, if_neg]
    rw [armPersist_env, show (e.enter.bufferData _ false).env.hung = e.env.hung from rfl, hlive]
    decide
  have hp : Probing 0 k (e.enter.bufferData (List.replicate k 0) false).armPersist := by
    have harm : (e.enter.bufferData (List.replicate k 0) false).tm.persistTimer = none := hpt
    constructor
    · rw [armPersist_tcb]; exact hst
    · rw [armPersist_tcb]; exact hwnd
    · rw [armPersist_tcb]; exact huna
    · rw [armPersist_tcb]; exact hnxt
    · rw [armPersist_buf, bufferData]
      simp [hbuf]
    · rw [armPersist, harm]
      exact ⟨_, ManualScheduler.mem_live_callLater.mpr (Or.inr rfl), rfl⟩
    · rw [armPersist_env]; exact hlive
    · rw [armPersist_tcb]; exact hrcv
    · simp [hfin]
    · simp [hbuf, bufferData]
    · rw [armPersist_conf]; exact h3
    · rw [delivered, armPersist_env]; exact hdel
    · intro h0
      cases h0
  obtain ⟨as, e', hr, has, h'⟩ := hp.run
  refine ⟨closedHandshake.tail ++ .send (List.replicate k 0) false false none :: as, e', ?_, ?_, ?_⟩
  · show engineMachine.run _ (closedHandshake ++ _) = _
    rw [Lib.Machine.run_append, he, Option.bind_some, Lib.Machine.run_cons, hsend]
    exact hr
  · intro a ha
    rcases List.mem_append.mp ha with ha | ha
    · rw [List.mem_singleton.mp ha]
      exact id
    · rcases List.mem_cons.mp ha with rfl | ha
      · exact id
      · exact has a ha
  · rw [Nat.zero_add] at h'
    exact h'

/-! ## More in flight than the circle holds -/

theorem armPersist_live (h : ∃ t ∈ e.tm.sched.live, t.cb = .onPersist) :
    ∃ t ∈ e.armPersist.tm.sched.live, t.cb = .onPersist := by
  unfold armPersist
  split
  · split_ifs
    · exact h
    · exact ⟨_, ManualScheduler.mem_live_callLater.mpr (Or.inr rfl), rfl⟩
  · exact ⟨_, ManualScheduler.mem_live_callLater.mpr (Or.inr rfl), rfl⟩

/-- The probes are out and the user has closed: the FIN waits for the persist timer. -/
structure Draining (d : Nat) (e : TcpEngine) : Prop where
  state : e.tcb.state = .established
  sndWnd : e.tcb.sndWnd = 0
  una : e.tcb.sndUna = 101
  nxt : e.tcb.sndNxt = add 101 d
  due : e.FinDue
  timer : ∃ h ∈ e.tm.sched.live, h.cb = .onPersist
  live : e.env.hung = false
  rcvNxt : e.tcb.rcvNxt = 1001
  pendingFin : e.fin.pendingFin = none
  recvBuf : e.buf.recvBuf = []
  conf : e.conf.cfg.swsAvoidance = false ∧ e.conf.rcvWndMax = 65535 ∧ e.conf.localPort = 1000
  second : ∃ o ∈ e.buf.retx, o.seq = 102 ∧ o.segLen = 1

/-- The FIN is out as well. -/
structure Parting (d : Nat) (e : TcpEngine) : Prop where
  state : e.tcb.state = .finWait1
  una : e.tcb.sndUna = 101
  nxt : e.tcb.sndNxt = add 101 (d + 1)
  fin : e.fin.finSent = true ∧ e.fin.finSeq = add 101 d
  live : e.env.hung = false
  rcvNxt : e.tcb.rcvNxt = 1001
  pendingFin : e.fin.pendingFin = none
  recvBuf : e.buf.recvBuf = []
  conf : e.conf.cfg.swsAvoidance = false ∧ e.conf.rcvWndMax = 65535 ∧ e.conf.localPort = 1000
  second : ∃ o ∈ e.buf.retx, o.seq = 102 ∧ o.segLen = 1

theorem Probing.close (h : Probing d 0 e) (hd : 2 ≤ d) (hs : e.fin.finSent = false) :
    ∃ e', engineMachine.step e .close = some e' ∧ Draining d e' := by
  have hb : e.buf.appBuf = [] := List.length_eq_zero_iff.mp h.left
  have hst : e.enter.tcb.state = .established := h.state
  generalize hk : e.enter.requestFin = k
  have hkb : k.buf.appBuf = [] := by rw [← hk]; exact hb
  have hdue : k.FinDue := by rw [← hk]; exact ⟨rfl, hs, hb⟩
  have hkw : k.tcb.sndWnd = 0 := by rw [← hk]; exact h.sndWnd
  have hclose : e.enter.close = k.armPersist := by
    have hloop : k.dataLoop k.buf.appBuf.length = (k, true) := by rw [dataLoop, if_pos hkb]
    rw [TcpEngine.close, hst, if_neg (by decide), if_neg (by decide), if_neg (by decide), hk,
      sendPending, if_pos (Or.inl (by rw [← hk]; exact h.state)), hloop]
    show k.finPart = _
    rcases k.finPart_cases with ⟨hn, -⟩ | ⟨-, -, hx⟩ | ⟨-, hn, -⟩ | ⟨-, hn, -⟩
    · exact absurd hdue hn
    · exact hx
    · exact absurd hkw hn
    · exact absurd hkw hn
  have hlive : k.armPersist.env.hung = false := by
    rw [armPersist_env, ← hk]
    exact h.live
  refine ⟨k.armPersist, ?_, ?_⟩
  · simp only [engineMachine]
    rw [if_pos (show e.Enabled .close from trivial), perform, hclose, hlive]
    rfl
  · constructor
    · rw [armPersist_tcb, ← hk]; exact h.state
    · rw [armPersist_tcb]; exact hkw
    · rw [armPersist_tcb, ← hk]; exact h.una
    · rw [armPersist_tcb, ← hk]; exact h.nxt
    · rw [FinDue, armPersist_fin, armPersist_buf]; exact hdue
    · exact armPersist_live (by rw [← hk]; exact h.timer)
    · exact hlive
    · rw [armPersist_tcb, ← hk]; exact h.rcvNxt
    · rw [armPersist_fin, ← hk]; exact h.fin.2
    · rw [armPersist_buf, ← hk]; exact h.bufs.2
    · rw [armPersist_conf, ← hk]; exact h.conf
    · rw [armPersist_buf, ← hk]; exact h.second hd

/-- With a closed window and nothing but the FIN to send, the persist timer sends that. -/
theorem expire_parts {t : TimerHandle Callback} (hcb : t.cb = .onPersist) (hw : e.tcb.sndWnd = 0)
    (hd : e.FinDue) : (e.popTimer t).callback t.cb = (e.fire t).sendFin.rearmPersist := by
  obtain ⟨hp, hs, hb⟩ := hd
  have hfire : (e.popTimer t).forgetTimer .onPersist = e.fire t := by rw [fire, hcb]
  rw [hcb, callback, onPersist, hfire, fire_tcb, fire_buf, fire_fin, if_neg (by omega),
    if_neg (not_not.mpr hb), hp, hs, if_pos (by decide)]

theorem Draining.step (h : Draining d e) :
    ∃ dt t e', engineMachine.run e [.tick dt, .expire t] = some e' ∧ Parting d e' := by
  obtain ⟨t, ht, hcb⟩ := h.timer
  obtain ⟨dt, htick, hdue⟩ := tick_due ht h.live
  have hcall := expire_parts (e := (e.enter.passTime dt).enter) hcb h.sndWnd h.due
  obtain ⟨htcb, hbuf, hfin, hconf, henv⟩ : ((e.enter.passTime dt).enter.fire t).tcb = e.tcb ∧
      ((e.enter.passTime dt).enter.fire t).buf = e.buf ∧
      ((e.enter.passTime dt).enter.fire t).fin = e.fin ∧
      ((e.enter.passTime dt).enter.fire t).conf = e.conf ∧
      ((e.enter.passTime dt).enter.fire t).env.hung = e.env.hung := by
    rw [fire_tcb, fire_buf, fire_fin, fire_conf, fire_env]
    exact ⟨rfl, rfl, rfl, rfl, rfl⟩
  generalize (e.enter.passTime dt).enter.fire t = g at hcall htcb hbuf hfin hconf henv
  obtain ⟨st, hsend, hst⟩ := sendFin_cases (e := g)
  obtain rfl : st = .finWait1 := by simpa [htcb, h.state] using hst
  have hlive : g.sendFin.rearmPersist.env.hung = false := by
    rw [rearmPersist_env, sendFin_hung, henv, h.live]
  have hsent : g.sendFin.rearmPersist.tcb = { e.tcb with
      sndNxt := (g.outgoing { ack := true, fin := true } []).endSeq, state := .finWait1 } := by
    rw [rearmPersist_tcb, hsend, setState_tcb, finQueued_tcb, htcb]
  refine ⟨dt, t, g.sendFin.rearmPersist, ?_, ?_⟩
  · rw [Lib.Machine.run_cons, htick, Option.bind_some, Lib.Machine.run_cons]
    simp only [engineMachine]
    rw [if_pos hdue, perform, hcall, hlive]
    rfl
  · constructor
    · rw [hsent]
    · rw [hsent]; exact h.una
    · rw [hsent]
      show add g.tcb.sndNxt 1 = _
      rw [htcb, h.nxt, add_add]
    · rw [rearmPersist_fin, sendFin_fin, htcb]
      exact ⟨rfl, h.nxt⟩
    · exact hlive
    · rw [hsent]; exact h.rcvNxt
    · rw [rearmPersist_fin, sendFin_fin, hfin]; exact h.pendingFin
    · rw [rearmPersist_buf, sendFin_buf, hbuf]; exact h.recvBuf
    · rw [rearmPersist_conf, sendFin_conf, hconf]; exact h.conf
    · obtain ⟨o, ho, hx⟩ := h.second
      rw [rearmPersist_buf, sendFin_buf, hbuf]
      exact ⟨o, List.mem_append_left _ ho, hx⟩

theorem trimRetx_ne_nil {ack : Int} {q : List Outgoing} {o : Outgoing} (hm : o ∈ q)
    (ho : seqLeq o.endSeq ack = false) : trimRetx ack q ≠ [] := by
  induction q with
  | nil => cases hm
  | cons p q ih =>
    unfold trimRetx
    split
    · next hp =>
      rcases List.mem_cons.mp hm with rfl | hm
      · rw [ho] at hp
        cases hp
      · exact ih hm
    · split
      · exact List.cons_ne_nil _ _
      · exact List.cons_ne_nil _ _

/-- The peer's FIN, which acknowledges the first byte by its number, and all of the circle. -/
def lastFin : TcpSegment :=
  { srcPort := 80, dstPort := 1000, seq := 1001, ack := 102, flags := { ack := true, fin := true } }

def lastFinData : List UInt8 :=
  [0, 80, 3, 232, 0, 0, 3, 233, 0, 0, 0, 102, 80, 17, 0, 0, 0, 0, 0, 0]

/-- An update that offers no window records that, or nothing. -/
theorem windowUpdate_shut (seg : TcpSegment) (h : seg.window = 0) :
    e.windowUpdate seg = e ∨ e.windowUpdate seg = e.setSendWindow 0 seg.seq seg.ack := by
  unfold windowUpdate
  dsimp only
  rw [h]
  split_ifs with h1 h2
  · exact absurd h2.1 (Nat.lt_irrefl 0)
  · exact Or.inr rfl
  · exact Or.inl rfl

/-- FIN-WAIT-2 and a FIN in sequence: TIME-WAIT, with its timer and no retransmission timer. -/
theorem processFin_finWait2 (hs : e.tcb.state = .finWait2) :
    e.processFin.tcb.state = .timeWait ∧ e.processFin.buf = e.buf ∧
      e.processFin.tm.rtTimer = none ∧ e.processFin.env.hung = e.env.hung ∧
      e.processFin.fin.pendingFin = none := by
  obtain ⟨st, hst, -⟩ | ⟨-, hf⟩ := processFin_cases (e := e)
  · rcases hst with ⟨h, -⟩ | ⟨h, -⟩ | ⟨h, -⟩ <;> simp [hs] at h
  · rw [hf]
    refine ⟨by simp, by simp, setState_rtTimer _ _, by simp, by simp⟩

theorem Parting.step (h : Parting 4294967296 e) :
    ∃ e', engineMachine.step e (.segment lastFinData) = some e' ∧ e'.tcb.state = .timeWait ∧
      e'.buf.retx ≠ [] ∧ e'.tm.rtTimer = none := by
  have hseg : e.enter.onSegment lastFinData = e.enter.heard.handle lastFin :=
    onSegment_handle rfl (Or.inr (Or.inr h.conf.2.2.symm))
  generalize hk : e.enter.heard = k at hseg
  have htcb : k.tcb = e.tcb := by rw [← hk, heard_tcb]; rfl
  have hbuf : k.buf = e.buf := by rw [← hk, heard_buf]; rfl
  have hfin : k.fin = e.fin := by rw [← hk, heard_fin]; rfl
  have hconf : k.conf = e.conf := by rw [← hk, heard_conf]; rfl
  have hhung : k.env.hung = false := by rw [← hk, heard_env]; exact h.live
  have hwnd : k.rcvWnd = 65535 := by
    rw [rcvWnd, hconf, h.conf.1, h.conf.2.1, hbuf, h.recvBuf]
    rfl
  have hack : k.handle lastFin = k.establishedAck lastFin := by
    rw [handle_ack (by rw [htcb, h.state]; simp) rfl rfl rfl, htcb, h.rcvNxt, hwnd]
    exact if_pos (by decide)
  obtain ⟨w1, w2, w3, w4, w5⟩ : ((k.processAck 102).windowUpdate lastFin).tcb.state = k.tcb.state ∧
      ((k.processAck 102).windowUpdate lastFin).buf = (k.processAck 102).buf ∧
      ((k.processAck 102).windowUpdate lastFin).fin = (k.processAck 102).fin ∧
      ((k.processAck 102).windowUpdate lastFin).tcb.rcvNxt = k.tcb.rcvNxt ∧
      ((k.processAck 102).windowUpdate lastFin).env = k.env := by
    rcases windowUpdate_shut (e := k.processAck 102) lastFin rfl with hw | hw
    · rw [hw]
      simp
    · rw [hw]
      simp
  -- the number of the FIN counts as acknowledged, though a whole circle is in flight
  have hest : k.establishedAck lastFin =
      (((k.processAck 102).windowUpdate lastFin).setState .finWait2).textAndFin lastFin := by
    have hgt : seqGt 102 101 = true := by decide
    rw [establishedAck, htcb, h.nxt, h.una, if_neg (by decide)]
    dsimp only
    rw [show lastFin.ack = 102 from rfl, if_pos hgt]
    apply if_pos
    rw [w1, w3, processAck_fin, htcb, hfin, h.fin.1, h.fin.2,
      show seqGt 102 (add 101 (4294967296 : Nat)) = true by decide, Bool.true_and, Bool.or_true]
    exact ⟨h.state, rfl⟩
  generalize hm : ((k.processAck 102).windowUpdate lastFin).setState .finWait2 = m at hest
  have hms : m.tcb.state = .finWait2 := by rw [← hm, setState_tcb]
  have hmr : m.tcb.rcvNxt = 1001 := by
    rw [← hm, setState_tcb]
    show ((k.processAck 102).windowUpdate lastFin).tcb.rcvNxt = _
    rw [w4, htcb]
    exact h.rcvNxt
  have hmb : m.buf.retx ≠ [] := by
    obtain ⟨o, ho, hseq, hlen⟩ := h.second
    rw [← hm, setState_buf, w2, processAck_buf, hbuf]
    apply trimRetx_ne_nil ho
    rw [Outgoing.endSeq, hseq, hlen]
    decide
  have hmh : m.env.hung = false := by
    rw [← hm, setState_hung, w5]
    exact hhung
  have htext : m.textAndFin lastFin = m.processFin := by
    obtain ⟨-, -, -, -, hp⟩ := processFin_finWait2 hms
    have hquiet : m.sendPending = m := sendPending_of_not_canSend (by simp [CanSend, hms])
    rw [textAndFin, if_neg (by simp [lastFin]), hquiet, finCheck, if_pos (by rfl)]
    dsimp only
    rw [if_pos (by rw [hmr]; rfl), checkPendingFin, hp]
    exact if_neg (by simp)
  obtain ⟨p1, p2, p3, p4, -⟩ := processFin_finWait2 hms
  refine ⟨m.processFin, ?_, p1, ?_, p3⟩
  · simp only [engineMachine]
    rw [if_pos (show e.Enabled (.segment lastFinData) from trivial), perform, hseg, hack, hest,
      htext, p4, hmh]
    rfl
  · rw [p2]
    exact hmb

/-- An engine can be in TIME-WAIT with a whole circle of numbers in flight, and no timer for it. -/
theorem time_wait_reached : ∃ as e, engineMachine.run (init closedArgs {} 0) (.activeOpen :: as) =
      some e ∧ (∀ a ∈ as, ¬ a.Opens) ∧ e.tcb.state = .timeWait ∧ e.buf.retx ≠ [] ∧
      e.tm.rtTimer = none := by
  obtain ⟨as, e1, h1, ho, hp⟩ := probing_reached 4294967296 (by decide)
  have hk : e1.Kept := engineMachine.invariant_run (I := Kept) (fun f a f' h hs => h.step hs)
    (kept_init closedArgs {} 0 rfl (by decide)) h1
  have hns : e1.fin.finSent = false := by
    by_contra hs
    rw [Bool.not_eq_false] at hs
    have hpend : e1.fin.finPending = true := hk.ready.coherent.pending hs
    rw [hp.fin.1] at hpend
    cases hpend
  obtain ⟨e2, h2, hdr⟩ := hp.close (by decide) hns
  obtain ⟨dt, t, e3, h3, hpt⟩ := hdr.step
  obtain ⟨e4, h4, hst, hq, hrt⟩ := hpt.step
  refine ⟨as ++ [.close, .tick dt, .expire t, .segment lastFinData], e4, ?_, ?_, hst, hq, hrt⟩
  · rw [← List.cons_append, Lib.Machine.run_append, h1, Option.bind_some, Lib.Machine.run_cons, h2,
      Option.bind_some]
    show engineMachine.run e2 ([.tick dt, .expire t] ++ [.segment lastFinData]) = _
    rw [Lib.Machine.run_append, h3, Option.bind_some, Lib.Machine.run_cons, h4]
    rfl
  · intro a ha
    rcases List.mem_append.mp ha with ha | ha
    · exact ho a ha
    · simp only [List.mem_cons, List.not_mem_nil, or_false] at ha
      rcases ha with rfl | rfl | rfl | rfl <;> exact id

end TcpEngine

end HdlPlayground.Tcp

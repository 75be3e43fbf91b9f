import HdlPlayground.Tcp.Acknowledging
import HdlPlayground.Tcp.FlowControl
import HdlPlayground.Tcp.Options

/-!
# Advances that nobody acknowledges

The ACK that completes a simultaneous open releases the text that came with the peer's
SYN. `_merge_reassembly` moves RCV.NXT past it and schedules no acknowledgement, so it
stays unacknowledged unless something else is sent in the same call. The other silence is
a SYN-ACK whose MSS option does not fit. Every other advance is acknowledged, or is the
one that the delayed-ACK timer waits for.
-/
namespace HdlPlayground.Tcp

open Receiver

namespace TcpEngine

variable {a : Action} {e e' f g : TcpEngine} {seg : TcpSegment}

/-! ## What is sent -/

theorem sendChunk_acked (n : Nat) : Acked e (e.sendChunk n) := by
  refine ⟨[.tx (e.segmentFor e.tcb.sndNxt (e.takeChunk n).chunkFlags (e.buf.appBuf.take n) false
    (e.takeChunk n).urgentPointer)], ?_, _, List.mem_singleton_self _, rfl, ?_⟩
  · rw [sendChunk_env, queueChunk, queueAndSend_env]
    rfl
  · rw [(ackSide_eq_iff.mp (sendChunk_keeps (e := e) n).2).1]
    rfl

theorem sendFin_acked : Acked e e.sendFin := by
  obtain ⟨st, h, -⟩ := sendFin_cases (e := e)
  have h1 : Acked e e.finQueued := by
    refine ⟨[.tx (e.segmentFor e.tcb.sndNxt { ack := true, fin := true })], ?_, _,
      List.mem_singleton_self _, rfl, ?_⟩
    · unfold finQueued
      dsimp only
      rw [queueAndSend_env]
      rfl
    · simp [segmentFor]
  rw [h]
  exact h1.keeps (setState_keeps st)

/-- `_send_pending` on an engine that is not blocked sends a segment. -/
theorem sendPending_acked (hb : ¬ e.Blocked) (hh : e.sendPending.env.hung = false) :
    Acked e e.sendPending := by
  have hopen (h : ¬ (e.tcb.sndWnd = 0 ∨ e.usableWindow ≤ 0 ∨ (e.buf.appBuf ≠ [] ∧ e.NagleHolds))) :
      e.tcb.sndWnd ≠ 0 ∧ 0 < e.usableWindow ∧ (e.buf.appBuf ≠ [] → ¬ e.NagleHolds) := by
    simp only [not_or, not_le, not_and] at h
    exact h
  rw [Blocked, Classical.not_imp, Classical.not_imp] at hb
  obtain ⟨hc, hw, hno⟩ := hb
  obtain ⟨h0, hu, hn⟩ := hopen hno
  rcases e.sendPending_cases with ⟨h, -⟩ | ⟨-, h⟩ | ⟨-, f, h, hf⟩
  · exact absurd hc h
  · generalize e.sendPending = k at h hh
    cases h with
    | closed _ _ hw0 => exact absurd hw0 h0
    | held _ hb _ hx =>
      rcases hx with hx | hx
      · omega
      · exact absurd hx (hn hb)
    | hang => simp [TcpEngine.hang] at hh
    | chunk _ _ _ _ _ _ hr => exact (sendChunk_acked _).keeps hr.keeps
  · rw [hf]
    cases h with
    | empty _ hb =>
      rcases e.finPart_cases with ⟨hd, -⟩ | ⟨-, hw0, -⟩ | ⟨-, -, hlt, -⟩ | ⟨-, -, -, hp⟩
      · exact absurd (hw.resolve_left fun hne => hne hb) hd
      · exact absurd hw0 h0
      · omega
      · rw [hp]
        exact sendFin_acked
    | chunk _ _ _ _ _ _ hr => exact ((sendChunk_acked _).keeps hr.keeps).keeps finPart_keeps

/-! ## The FIN -/

/-- With RCV.NXT at `n` a FIN is next: the one that `seg` brings, or a deferred one that
`seg` does not replace. -/
def FinReached (e : TcpEngine) (seg : TcpSegment) (n : Int) : Prop :=
  (seg.fin = true ∧ n = add seg.seq seg.payload.length) ∨
    (e.fin.pendingFin = some n ∧
      ¬ (seg.fin = true ∧ seqGt (add seg.seq seg.payload.length) n = true))

theorem finCheck_reached (h : e.FinReached seg e.tcb.rcvNxt) :
    Acked e (e.finCheck seg).checkPendingFin := by
  unfold finCheck
  dsimp only
  split_ifs with hf hn hgt
  · rw [checkPendingFin, if_neg (by simp [processFin_pendingFin])]
    exact processFin_acked
  · rcases h with ⟨-, h⟩ | ⟨-, h⟩
    · exact absurd h hn
    · exact absurd ⟨hf, hgt⟩ h
  · rw [checkPendingFin, if_pos]
    · exact processFin_acked
    · rcases h with ⟨-, h⟩ | ⟨h, -⟩
      · exact absurd h hn
      · exact h
  · rw [checkPendingFin, if_pos]
    · exact processFin_acked
    · rcases h with ⟨h, -⟩ | ⟨h, -⟩
      · exact absurd h hf
      · exact h

theorem finCheck_unreached (seg : TcpSegment) (h : ¬ e.FinReached seg e.tcb.rcvNxt) :
    ∃ fin, (e.finCheck seg).checkPendingFin = { e with fin := fin } := by
  rw [FinReached, not_or, not_and] at h
  obtain ⟨h1, h2⟩ := h
  unfold finCheck
  dsimp only
  split_ifs with hf hn hgt
  · exact absurd hn (h1 hf)
  · have hne : some (add seg.seq seg.payload.length) ≠ some e.tcb.rcvNxt :=
      fun he => hn (Option.some.inj he).symm
    exact ⟨_, by rw [checkPendingFin, if_neg (by exact hne)]; rfl⟩
  · exact ⟨e.fin, by rw [checkPendingFin, if_neg fun hp => h2 ⟨hp, fun hx => hgt hx.2⟩]⟩
  · exact ⟨e.fin, by rw [checkPendingFin, if_neg fun hp => h2 ⟨hp, fun hx => hf hx.1⟩]⟩

/-! ## The text of the SYN -/

/-- The one entry, at RCV.NXT, is taken or, when it is empty, dropped. -/
theorem mergeReassembly_single {x : OooEntry} (ho : e.buf.ooo = [x]) (hx : x.seq = e.tcb.rcvNxt) :
    e.mergeReassembly.tcb.rcvNxt =
      if seqGt (add x.seq x.data.length) e.tcb.rcvNxt then add e.tcb.rcvNxt x.data.length
      else e.tcb.rcvNxt := by
  have hle : seqLeq x.seq e.tcb.rcvNxt = true := by
    rw [hx, seqLeq_iff]
    omega
  have hzero : (sub e.tcb.rcvNxt x.seq).toNat = 0 := by
    rw [hx, sub_def]
    omega
  have hmerge : e.mergeable x = true := by
    rw [mergeable, hle, seqGt_eq_not_seqLeq]
    simp
  have hfind : e.buf.ooo.find? e.mergeable = some x := by
    rw [ho, List.find?_cons_of_pos hmerge]
  rw [mergeReassembly, ho, List.length_singleton, mergeLoop, hfind]
  show (mergeEntry _ x).tcb.rcvNxt = _
  unfold mergeEntry
  dsimp only
  rw [seqGt_eq_not_seqLeq]
  by_cases hgt : seqLeq (add x.seq x.data.length) e.tcb.rcvNxt = true
  · rw [if_pos hgt, hgt]
    simp
  · have hne : x.data ≠ [] := by
      intro hnil
      rw [hnil, seqLeq_iff, add_def, hx] at hgt
      simp at hgt
    rw [if_neg hgt, hzero, List.drop_zero, if_neg hne]
    simp [hgt, markSeen, advanceRcvNxt]

theorem mergeReassembly_empty (ho : e.buf.ooo = []) : e.mergeReassembly = e := by
  rw [mergeReassembly, ho]
  rfl

/-! ## The ACK that opens the connection -/

/-- Nothing is sent once the ACK `seg` has opened the connection: there is nothing to send,
or no window for it, or Nagle keeps it back. -/
def OpensMute (e : TcpEngine) (seg : TcpSegment) : Prop :=
  let usable := s32 (sub (add seg.ack seg.window) e.tcb.sndNxt)
  (e.buf.appBuf = [] ∧ ¬ e.FinDue) ∨ seg.window = 0 ∨ usable ≤ 0 ∨
    (e.buf.appBuf ≠ [] ∧ e.conf.cfg.nagle = true ∧ trimRetx seg.ack e.buf.retx ≠ [] ∧
      min e.tcb.sndMss (min usable.toNat e.buf.appBuf.length) < e.tcb.sndMss)

/-- The ACK `seg` completes the handshake, and the text of the SYN is all it releases. -/
structure Hushed (e : TcpEngine) (seg : TcpSegment) : Prop where
  completes : e.CompletesOpen seg
  inWindow : acceptable seg.seq seg.segLen e.tcb.rcvNxt e.rcvWnd = true
  plain : seg.rst = false ∧ seg.syn = false ∧ seg.payload = []
  text : ∃ x, e.buf.ooo = [x] ∧ seqGt (add x.seq x.data.length) e.tcb.rcvNxt = true ∧
    ¬ e.FinReached seg (add e.tcb.rcvNxt x.data.length)
  mute : e.OpensMute seg

/-- The connection as the ACK has opened it, its queue merged. -/
def opened (e : TcpEngine) (seg : TcpSegment) : TcpEngine := (e.openCompleted seg).mergeReassembly

theorem opened_frame (seg : TcpSegment) : RecvFrame (e.openCompleted seg) (e.opened seg) :=
  mergeReassembly_frame _

theorem openCompleted_keeps (seg : TcpSegment) : Keeps e (e.openCompleted seg) :=
  (processAck_keeps seg.ack).trans (Keeps.trans
    (f := (e.processAck seg.ack).setSendWindow seg.window seg.seq seg.ack) (.of_eq rfl rfl)
    (setState_keeps .established))

theorem opened_tm (seg : TcpSegment) : (e.opened seg).tm = (e.openCompleted seg).tm :=
  mergeLoop_tm _

theorem opened_logs (seg : TcpSegment) : Logs (fun _ => True) e (e.opened seg) :=
  (openCompleted_keeps seg).1.trans (mergeLoop_logs (fun _ => trivial) _)

theorem opened_blocked : (e.opened seg).Blocked ↔ e.OpensMute seg := by
  have hf := opened_frame (e := e) seg
  obtain ⟨r, u, ht⟩ := hf.tcb
  have hs : (e.opened seg).tcb.state = .established := by rw [hf.state]; simp [openCompleted]
  have happ : (e.opened seg).buf.appBuf = e.buf.appBuf := by rw [hf.appBuf]; simp [openCompleted]
  have hretx : (e.opened seg).buf.retx = trimRetx seg.ack e.buf.retx := by
    rw [hf.retx]; simp [openCompleted]
  have hw : (e.opened seg).tcb.sndWnd = seg.window := by rw [ht]; simp [openCompleted]
  have hm : (e.opened seg).tcb.sndMss = e.tcb.sndMss := by rw [ht]; simp [openCompleted]
  have hc : (e.opened seg).conf = e.conf := by rw [hf.conf]; simp [openCompleted]
  have hu : (e.opened seg).usableWindow = s32 (sub (add seg.ack seg.window) e.tcb.sndNxt) := by
    rw [usableWindow, ht]; simp [openCompleted]
  have hd : (e.opened seg).FinDue ↔ e.FinDue := by
    rw [FinDue, FinDue, happ, hf.fin]; simp [openCompleted]
  have hcan : (e.opened seg).CanSend := Or.inl hs
  rw [Blocked, NagleHolds, Waiting, chunkLen, happ, hretx, hw, hm, hc, hu, hd, OpensMute]
  constructor
  · intro h
    by_cases hx : e.buf.appBuf ≠ [] ∨ e.FinDue
    · exact Or.inr (h hcan hx)
    · rw [not_or, not_not] at hx
      exact Or.inl hx
  · rintro (⟨h1, h2⟩ | h) _ hx
    · exact absurd hx (not_or.mpr ⟨not_not.mpr h1, h2⟩)
    · exact h

theorem opened_rcvNxt (seg : TcpSegment) (hq : e.SynText) (hs : e.tcb.state = .synReceived) :
    (e.opened seg).tcb.rcvNxt = e.tcb.rcvNxt ∨
    ∃ x, e.buf.ooo = [x] ∧ seqGt (add x.seq x.data.length) e.tcb.rcvNxt = true ∧
      (e.opened seg).tcb.rcvNxt = add e.tcb.rcvNxt x.data.length := by
  have hn : (e.openCompleted seg).tcb.rcvNxt = e.tcb.rcvNxt := by simp [openCompleted]
  have ho : (e.openCompleted seg).buf.ooo = e.buf.ooo := by simp [openCompleted]
  rcases hq hs with h | ⟨x, h, hx⟩
  · left
    rw [opened, mergeReassembly_empty (by rw [ho, h]), hn]
  · have hm := mergeReassembly_single (e := e.openCompleted seg) (by rw [ho, h]) (by rw [hn, hx])
    rw [hn] at hm
    by_cases hgt : seqGt (add x.seq x.data.length) e.tcb.rcvNxt = true
    · rw [if_pos hgt] at hm
      exact Or.inr ⟨x, h, hgt, hm⟩
    · rw [if_neg hgt] at hm
      exact Or.inl hm

/-- Without text in the segment only the FIN is left to look at. -/
theorem textAndFin_bare (hp : seg.payload = []) :
    e.textAndFin seg = (e.sendPending.finCheck seg).checkPendingFin := by
  rw [textAndFin, if_neg fun h => h.1 hp]

theorem sendPending_dataState (h : e.tcb.state = .established) :
    e.sendPending.tcb.state ∈ DataStates := by
  rcases e.sendPending_state with ⟨hs, -⟩ | ⟨⟨-, hs⟩ | ⟨hs', -⟩, -⟩
  · simp [hs, h]
  · simp [hs]
  · rw [h] at hs'
    cases hs'

/-- The ACK that opens the connection answers for what it releases, unless it is hushed. -/
theorem synReceivedAck_answers (hc : a.Carries seg) (hq : e.SynText)
    (hs : e.tcb.state = .synReceived) (hack : seg.ackFlag = true) (hr : seg.rst = false)
    (hsyn : seg.syn = false)
    (hacc : acceptable seg.seq seg.segLen e.tcb.rcvNxt e.rcvWnd = true)
    (hh : (e.synReceivedAck seg).env.hung = false) (hx : ¬ e.Hushed seg) :
    Answers e (e.synReceivedAck seg) := by
  unfold synReceivedAck at hh ⊢
  by_cases hok : (seqLt e.tcb.sndUna seg.ack && seqLeq seg.ack e.tcb.sndNxt) = true
  swap
  · rw [if_neg hok]
    exact Keeps.answers ⟨.one _ (by simp; rfl) trivial, by simp [ackSide]⟩
  rw [if_pos hok] at hh ⊢
  change ((e.opened seg).sendPending.textAndFin seg).env.hung = false at hh
  show Answers e ((e.opened seg).sendPending.textAndFin seg)
  have hst : (e.opened seg).tcb.state = .established := by
    rw [(opened_frame seg).state]
    simp [openCompleted]
  have hside := ackSide_eq_iff.mp (openCompleted_keeps (e := e) seg).2
  rcases opened_rcvNxt seg hq hs with hn | ⟨x, ho, hgt, hn⟩
  · have hk : Keeps e (e.opened seg) := by
      refine ⟨opened_logs seg, ?_⟩
      rw [ackSide_eq_iff, opened_tm]
      exact ⟨hn, hside.2⟩
    exact (hk.trans sendPending_keeps).then (textAndFin_answers seg)
  by_cases hp : seg.payload = []
  swap
  · -- text of its own is acknowledged or put down for the timer
    have hcov : Covers e ((e.opened seg).sendPending.recvData seg) := by
      apply (recvData_covers hp).after ((opened_logs seg).trans sendPending_keeps.1)
      rw [(ackSide_eq_iff.mp sendPending_keeps.2).2.2, opened_tm]
      exact hside.2.2
    rw [textAndFin, if_pos ⟨hp, sendPending_dataState hst⟩]
    exact (hcov.answers.keeps sendPending_keeps).finCheck seg
  rw [textAndFin_bare hp] at hh ⊢
  by_cases hb : (e.opened seg).Blocked
  · have hmute := opened_blocked.mp hb
    have hfr : e.FinReached seg (add e.tcb.rcvNxt x.data.length) := by
      by_contra hfr
      simp only [Bool.and_eq_true] at hok
      exact hx ⟨⟨hs, hack, hok⟩, hacc, ⟨hr, hsyn, hp⟩, ⟨x, ho, hgt, hfr⟩, hmute⟩
    have hk : Keeps (e.opened seg) (e.opened seg).sendPending.sendPending :=
      sendPending_keeps.trans sendPending_keeps
    have hfin : (e.opened seg).sendPending.sendPending.fin.pendingFin = e.fin.pendingFin := by
      rw [(sendPending_frame.trans sendPending_frame).pendingFin, (opened_frame seg).fin]
      simp [openCompleted]
    refine ((finCheck_reached ?_).after ((opened_logs seg).trans hk.1)).answers
    rw [FinReached, hfin, (ackSide_eq_iff.mp hk.2).1, hn]
    exact hfr
  · have hopen : (e.opened seg).sendPending.sendPending.tcb.state ∈ OpenStates :=
      sendPending_open (sendPending_open (by simp [hst]))
    have hh' : (e.opened seg).sendPending.env.hung = false :=
      Path.hung ((sendPending_path _).trans (finCheck_path hc hopen hsyn)) hh
    have ha : Acked e (e.opened seg).sendPending :=
      (sendPending_acked hb hh').after (opened_logs seg)
    exact (ha.keeps sendPending_keeps).answers.finCheck seg

/-- An event that is no segment. -/
def Unsent (ev : Event) : Prop := ∀ seg, ev ≠ .tx seg

theorem unsent_deliver (data : List UInt8) : Unsent (.deliver data) := nofun

theorem unsent_stateChange (o n : ConnState) : Unsent (.stateChange o n) := nofun

theorem SynText.entry {x : OooEntry} (hq : e.SynText) (hs : e.tcb.state = .synReceived)
    (ho : e.buf.ooo = [x]) : x.seq = e.tcb.rcvNxt := by
  rcases hq hs with h | ⟨y, hy, hx⟩
  · rw [h] at ho
    cases ho
  · rw [hy] at ho
    obtain rfl := List.singleton_inj.mp ho
    exact hx

/-- A hushed opening moves RCV.NXT, sends nothing and leaves the timer alone. -/
theorem Hushed.silent (h : e.Hushed seg) (hq : e.SynText) :
    (e.handleSynchronized seg).tcb.rcvNxt ≠ e.tcb.rcvNxt ∧
    (e.handleSynchronized seg).tcb.state = .established ∧
    (e.handleSynchronized seg).tm.ackTimer = e.tm.ackTimer ∧
    Logs Unsent e (e.handleSynchronized seg) := by
  obtain ⟨⟨hs, hack, hlt, hle⟩, hacc, ⟨hr, hsyn, hp⟩, ⟨x, ho, hgt, hfr⟩, hmute⟩ := h
  have heq : e.handleSynchronized seg =
      ((e.opened seg).sendPending.sendPending.finCheck seg).checkPendingFin := by
    rw [handleSynchronized, if_neg (by simp [hs]), if_neg (by simp [hacc]), if_neg (by simp [hr]),
      if_neg (by simp [hsyn]), if_neg (by simp [hack]), if_pos hs, synReceivedAck,
      if_pos (by simp [hlt, hle])]
    exact textAndFin_bare hp
  have hb : (e.opened seg).Blocked := opened_blocked.mpr hmute
  have hquiet {g : TcpEngine} (hg : g.Blocked) :
      g.sendPending.Blocked ∧ g.sendPending.tcb = g.tcb ∧ g.sendPending.env.log = g.env.log := by
    rw [sendPending_of_blocked hg]
    split
    · refine ⟨?_, by simp, by simp⟩
      simpa [Blocked, CanSend, Waiting, FinDue, NagleHolds, chunkLen, usableWindow] using hg
    · exact ⟨hg, rfl, rfl⟩
  obtain ⟨hb1, ht1, hl1⟩ := hquiet hb
  obtain ⟨-, ht2, hl2⟩ := hquiet hb1
  have htcb : (e.opened seg).sendPending.sendPending.tcb = (e.opened seg).tcb := ht2.trans ht1
  have hside := ackSide_eq_iff.mp (openCompleted_keeps (e := e) seg).2
  have hsend := (sendPending_keeps.trans sendPending_keeps : Keeps (e.opened seg) _)
  have hpend : (e.opened seg).sendPending.sendPending.fin.pendingFin = e.fin.pendingFin := by
    rw [(sendPending_frame.trans sendPending_frame).pendingFin, (opened_frame seg).fin]
    simp [openCompleted]
  have hx : x.seq = e.tcb.rcvNxt := hq.entry hs ho
  have hnxt : (e.opened seg).tcb.rcvNxt = add e.tcb.rcvNxt x.data.length := by
    have hm := mergeReassembly_single (e := e.openCompleted seg) (x := x)
      (by simpa [openCompleted] using ho) (by simpa [openCompleted] using hx)
    rwa [hside.1, if_pos hgt] at hm
  obtain ⟨fin, hfin⟩ := finCheck_unreached (e := (e.opened seg).sendPending.sendPending) seg
    (by rw [FinReached, hpend, htcb, hnxt]; exact hfr)
  rw [heq, hfin]
  refine ⟨?_, ?_, ?_, ?_⟩
  · show (e.opened seg).sendPending.sendPending.tcb.rcvNxt ≠ _
    rw [htcb, hnxt, add_def]
    rw [hx, seqGt_iff, add_def] at hgt
    omega
  · show (e.opened seg).sendPending.sendPending.tcb.state = _
    rw [htcb, (opened_frame seg).state]
    simp [openCompleted]
  · show (e.opened seg).sendPending.sendPending.tm.ackTimer = _
    rw [(ackSide_eq_iff.mp hsend.2).2.1, opened_tm]
    exact hside.2.1
  · have hl3 : ({ (e.opened seg).sendPending.sendPending with fin := fin } : TcpEngine).env.log =
        (e.opened seg).env.log := by
      dsimp only
      rw [hl2, hl1]
    refine Logs.trans (f := e.opened seg) ?_ (.none hl3)
    refine Logs.trans (f := e.openCompleted seg) ?_ (mergeLoop_logs unsent_deliver _)
    exact Logs.trans (f := (e.processAck seg.ack).setSendWindow seg.window seg.seq seg.ack)
      (.none (by simp)) (setState_logs _ fun _ => unsent_stateChange _ _)

/-! ## The SYN -/

/-- The MSS once the peer's SYN has been looked at. -/
def agreedMss (e : TcpEngine) (seg : TcpSegment) : Nat :=
  match seg.mss with
  | some m => if m = 0 then e.tcb.sndMss else min e.conf.cfgMss m
  | none => e.tcb.sndMss

/-- A SYN that calls for a SYN-ACK whose MSS option does not fit. -/
structure Unanswerable (e : TcpEngine) (seg : TcpSegment) : Prop where
  flags : seg.syn = true ∧ seg.rst = false ∧ seg.ackFlag = false
  opens : (e.tcb.state = .listen ∧
      ¬ (e.conf.remotePort ≠ 0 ∧ seg.srcPort ≠ 0 ∧ seg.srcPort ≠ e.conf.remotePort)) ∨
    (e.tcb.state = .synSent ∧ seqGt e.tcb.sndUna e.tcb.iss = false)
  mss : 65535 < e.agreedMss seg
  moves : e.tcb.rcvNxt ≠ add seg.seq 1

theorem learnMss_sndMss : (e.learnMss seg).tcb.sndMss = e.agreedMss seg := by
  unfold learnMss agreedMss
  cases seg.mss with
  | none => rfl
  | some m =>
    dsimp only
    split <;> rfl

theorem segmentFor_raises (seq : Int) (flags : Flags) (payload : List UInt8) (urg : Nat)
    (h : 65535 < e.tcb.sndMss) :
    ∃ msg, (e.segmentFor seq flags payload true urg).build = .error msg :=
  TcpSegment.build_raises (Or.inl ⟨_, rfl, h⟩)

theorem acceptSyn_mss (seg : TcpSegment) (hs : e.tcb.state = .listen) :
    ∃ m, m = e.agreedMss seg ∧ e.acceptSyn seg =
    (e.listenTaken seg m).queueAndSend { syn := true, ack := true } [] true := by
  obtain ⟨m, -, -, h⟩ := acceptSyn_eq (e := e) seg hs
  refine ⟨m, ?_, h⟩
  have h1 : (e.acceptSyn seg).tcb.sndMss = m := by
    rw [h]
    simp [listenTaken, listenTcb]
  rw [← h1, acceptSyn]
  dsimp only
  rw [queueAndSend_tcb, setState_tcb]
  exact learnMss_sndMss

theorem takeSyn_agreedMss : (e.takeSyn seg).tcb.sndMss = e.agreedMss seg := by
  unfold takeSyn
  dsimp only
  split
  · rw [setSendWindow_tcb, processAck_tcb]
    exact learnMss_sndMss
  · exact learnMss_sndMss

theorem sendSynAck_acked (hm : e.tcb.sndMss ≤ 65535) : Acked e e.sendSynAck := by
  refine ⟨[.tx (e.segmentFor e.tcb.iss { syn := true, ack := true } [] true)], ?_, _,
    List.mem_singleton_self _, rfl, ?_⟩
  · rw [sendSynAck, makeAndTransmit, transmit_plain _ _ (segmentFor_plain fun _ => hm)]
    rfl
  · rw [sendSynAck, makeAndTransmit_tcb]
    rfl

theorem simultaneousOpen_acked (hm : e.tcb.sndMss ≤ 65535) : Acked e (e.simultaneousOpen seg) := by
  have hb : Logs (fun _ => True) e e.becomeSynReceived :=
    Logs.trans (f := e.setState .synReceived) (setState_logs _ fun _ => trivial) (.none rfl)
  have hbm : e.becomeSynReceived.tcb.sndMss = e.tcb.sndMss := by simp [becomeSynReceived]
  unfold simultaneousOpen
  dsimp only
  generalize e.becomeSynReceived = k at hb hbm
  have hsent {g : TcpEngine} (hl : g.env.log = k.env.log) (hg : g.tcb = k.tcb) :
      Acked e g.sendSynAck :=
    (sendSynAck_acked (by rw [hg, hbm]; exact hm)).after (hb.trans (.none hl))
  split <;> split
  · exact hsent (storeOoo_env _ _ _) (storeOoo_tcb _ _ _)
  · exact hsent rfl rfl
  · exact hsent (storeOoo_env _ _ _) (storeOoo_tcb _ _ _)
  · exact hsent rfl rfl

theorem simultaneousOpen_keeps (seg : TcpSegment) : Keeps e (e.simultaneousOpen seg) := by
  have hb : Keeps e e.becomeSynReceived :=
    Keeps.trans (f := e.setState .synReceived) (setState_keeps _) (.of_eq rfl rfl)
  unfold simultaneousOpen
  dsimp only
  generalize e.becomeSynReceived = k at hb
  have hstore (seq : Int) (data : List UInt8) (flags : Flags) :
      Keeps k (k.storeOoo seq data flags) := by
    refine .of_eq (storeOoo_env _ _ _) ?_
    rw [ackSide, storeOoo_tcb, storeOoo_tm]
    rfl
  have hsent {g : TcpEngine} (hg : Keeps k g) : Keeps e g.sendSynAck :=
    hb.trans (hg.trans (makeAndTransmit_keeps _ _ _ _ _))
  split <;> split
  · exact hsent ((hstore _ _ _).trans (.of_eq rfl rfl))
  · exact hsent (.of_eq rfl rfl)
  · exact hsent (hstore _ _ _)
  · exact hsent (.refl k)

/-- An unanswerable SYN moves RCV.NXT, and nothing is sent. -/
theorem Unanswerable.silent (h : e.Unanswerable seg) : (e.handle seg).tcb.rcvNxt ≠ e.tcb.rcvNxt ∧
    (e.handle seg).tcb.state = .synReceived ∧ (e.handle seg).tm.ackTimer = e.tm.ackTimer ∧
    Logs Unsent e (e.handle seg) := by
  obtain ⟨⟨hsyn, hr, hack⟩, hs | ⟨hs, hu⟩, hm, hn⟩ := h
  · obtain ⟨m, rfl, h⟩ := acceptSyn_mss (e := e) seg hs.1
    have hq :
        (e.listenTaken seg (e.agreedMss seg)).queueAndSend { syn := true, ack := true } [] true =
        ((e.listenTaken seg (e.agreedMss seg)).advertise.enqueue { syn := true, ack := true }
          []).setExc .structError := by
      obtain ⟨msg, hb⟩ := segmentFor_raises (e := e.listenTaken seg (e.agreedMss seg))
        (e.listenTaken seg (e.agreedMss seg)).tcb.sndNxt { syn := true, ack := true } [] 0 hm
      simp only [queueAndSend, hb]
    rw [handle_listen seg hs.1, handleListen, if_neg (by simp [hr]), if_neg (by simp [hack]),
      if_neg (by simp [hsyn]), if_neg hs.2, h, hq]
    exact ⟨hn.symm, rfl, rfl, .one (.stateChange .listen .synReceived) rfl (unsent_stateChange _ _)⟩
  · have htake :
        (e.takeSyn seg).tcb.sndUna = e.tcb.sndUna ∧ (e.takeSyn seg).tcb.iss = e.tcb.iss := by
      obtain ⟨m, -, -, h⟩ := takeSyn_cases (e := e) seg
      rw [h, if_neg (by simp [hack])]
      exact ⟨rfl, rfl⟩
    have hmm : (e.takeSyn seg).becomeSynReceived.tcb.sndMss = e.agreedMss seg := by
      simp [becomeSynReceived, takeSyn_agreedMss]
    have hnn : (e.takeSyn seg).becomeSynReceived.tcb.rcvNxt = add seg.seq 1 := by
      simp [becomeSynReceived, (takeSyn_tcb seg).2]
    have hst : (e.takeSyn seg).becomeSynReceived.tcb.state = .synReceived := by
      simp [becomeSynReceived]
    have htm : (e.takeSyn seg).becomeSynReceived.tm.ackTimer = e.tm.ackTimer :=
      (ackSide_eq_iff.mp (setState_keeps (e := e.takeSyn seg) .synReceived).2).2.1.trans
        (takeSyn_tm seg).1
    have hl : Logs Unsent e (e.takeSyn seg).becomeSynReceived :=
      Logs.trans (.none (takeSyn_env seg)) (Logs.trans (f := (e.takeSyn seg).setState .synReceived)
        (setState_logs _ fun _ => unsent_stateChange _ _) (.none rfl))
    rw [handle_synSent seg hs, handleSynSent, if_neg (by simp [hack])]
    dsimp only
    rw [if_neg (by simp [hr]), if_neg (by simp [hsyn]),
      if_neg (by rw [htake.1, htake.2, hu]; simp), simultaneousOpen]
    dsimp only
    generalize (e.takeSyn seg).becomeSynReceived = k at hmm hnn hst htm hl
    have hsent {g : TcpEngine} (hlog : g.env.log = k.env.log) (hg : g.tcb = k.tcb)
        (ht : g.tm = k.tm) : g.sendSynAck.tcb.rcvNxt ≠ e.tcb.rcvNxt ∧
        g.sendSynAck.tcb.state = .synReceived ∧ g.sendSynAck.tm.ackTimer = e.tm.ackTimer ∧
        Logs Unsent e g.sendSynAck := by
      obtain ⟨msg, hb⟩ := segmentFor_raises (e := g) g.tcb.iss { syn := true, ack := true } [] 0
        (by rw [hg, hmm]; exact hm)
      have hsa : g.sendSynAck = g.advertise.setExc .structError := by
        simp only [sendSynAck, makeAndTransmit, transmit, hb]
      rw [hsa]
      refine ⟨?_, ?_, ?_, hl.trans (.none hlog)⟩
      · show g.tcb.rcvNxt ≠ _
        rw [hg, hnn]
        exact hn.symm
      · show g.tcb.state = _
        rw [hg, hst]
      · show g.tm.ackTimer = _
        rw [ht, htm]
    split <;> split
    · exact hsent (storeOoo_env _ _ _) (storeOoo_tcb _ _ _) (storeOoo_tm _ _ _)
    · exact hsent rfl rfl rfl
    · exact hsent (storeOoo_env _ _ _) (storeOoo_tcb _ _ _) (storeOoo_tm _ _ _)
    · exact hsent rfl rfl rfl

/-! ## Every arrival -/

/-- The SYN's own acknowledgement is sent; what its text adds is acknowledged or put down
for the timer. -/
def Replies (e f : TcpEngine) : Prop :=
  Acked e f ∨ (Logs (fun _ => True) e f ∧ 1 ≤ f.tm.ackCount ∧ f.tm.ackTimer ≠ none)

/-- What an arriving segment comes to. -/
def Responds (e f : TcpEngine) : Prop :=
  f.Outside ∨ Answers e f ∨ (e.tcb.state = .synSent ∧ Replies e f)

theorem handleSynchronized_answers (hc : a.Carries seg) (hq : e.SynText)
    (hh : (e.handleSynchronized seg).env.hung = false) (hx : ¬ e.Hushed seg) :
    (e.handleSynchronized seg).Outside ∨ Answers e (e.handleSynchronized seg) := by
  have hack : Answers e e.sendAck := sendAck_acked.answers
  unfold handleSynchronized at hh ⊢
  split_ifs at hh ⊢ with htw hacc _ hrst _ hsyn hnack hsr
  · unfold timeWaitArrives
    split_ifs
    · exact Or.inl (by simp [Outside])
    · exact Or.inr hack
    · refine Or.inr (sendAck_acked.keeps ?_).answers
      exact .of_eq rfl rfl
    · exact Or.inr hack
  · exact Or.inr (Keeps.refl e).answers
  · exact Or.inr hack
  · exact Or.inl doReset_outside
  · exact Or.inr hack
  · exact Or.inr hack
  · exact Or.inr (Keeps.refl e).answers
  · exact Or.inr (synReceivedAck_answers hc hq hsr (by simpa using hnack) (by simpa using hrst)
      (by simpa using hsyn) (by simpa using hacc) hh hx)
  · exact establishedAck_answers seg

theorem emitRstReply_keeps (seq ack : Int) (b : Bool) : Keeps e (e.emitRstReply seg seq ack b) :=
  ⟨.one _ (by simp; rfl) trivial, by simp [ackSide]⟩

theorem synSentEstablished_replies (hcs : a.Carries seg.synTaken)
    (hh : (e.synSentEstablished seg).env.hung = false) :
    (e.synSentEstablished seg).Outside ∨ Replies e (e.synSentEstablished seg) := by
  have hk : Acked e ((e.setState .established).sendAck.sendPending) :=
    (sendAck_acked.after (setState_keeps .established).1).keeps sendPending_keeps
  have hst : ((e.setState .established).sendAck.sendPending).tcb.state ∈ OpenStates :=
    sendPending_open (by simp)
  unfold synSentEstablished at hh ⊢
  dsimp only at hh ⊢
  generalize (e.setState .established).sendAck.sendPending = k at hk hst hh ⊢
  split
  · next hp =>
    rw [if_pos hp] at hh
    have hsr : k.tcb.state ≠ .synReceived := fun hx => by simp [hx] at hst
    rcases handleSynchronized_answers hcs (.of_state hsr) hh
      (fun hx => hsr hx.completes.1) with h | h
    · exact Or.inl h
    · apply Or.inr
      obtain ⟨evs, hl, ha⟩ := hk
      cases h with
      | acked evs' hl' ha' =>
        exact Or.inl (Acked.after ⟨evs', hl', ha'⟩ ⟨evs, hl, fun _ _ => trivial⟩)
      | owed evs' hl' _ h1 h2 =>
        exact Or.inr ⟨⟨evs ++ evs', by rw [hl', hl, List.append_assoc], fun _ _ => trivial⟩, h1, h2⟩
      | kept evs' hl' hs' =>
        exact Or.inl (Acked.keeps ⟨evs, hl, ha⟩ ⟨⟨evs', hl', fun _ _ => trivial⟩, hs'⟩)
  · exact Or.inr (Or.inl hk)

/-- Every arrival is responded to, but for the two that are silent. -/
theorem handle_responds (hc : a.Carries seg) (hcs : a.Carries seg.synTaken) (hq : e.SynText)
    (hh : (e.handle seg).env.hung = false) (hx : ¬ e.Hushed seg) (hu : ¬ e.Unanswerable seg) :
    Responds e (e.handle seg) := by
  have hkeep {f : TcpEngine} (hk : Keeps e f) : Responds e f := Or.inr (Or.inl hk.answers)
  rcases e.state_cases with hs | hs | hs | hs
  · left
    rw [handle_closed seg hs]
    unfold handleClosed
    split_ifs <;> simp [Outside, hs]
  · rw [handle_listen seg hs]
    unfold handleListen
    split_ifs with hr hack hsyn hport
    · exact hkeep (.refl e)
    · exact hkeep (emitRstReply_keeps _ _ _)
    · exact hkeep (.refl e)
    · exact hkeep (.refl e)
    · obtain ⟨m, hm, h⟩ := acceptSyn_mss (e := e) seg hs
      by_cases hn : e.tcb.rcvNxt = add seg.seq 1
      · -- RCV.NXT is where it was, whatever becomes of the SYN-ACK
        have hk :=
          queueAndSend_keeps (e := e.listenTaken seg m) { syn := true, ack := true } [] true 0
        refine hkeep
          (Keeps.trans (f := e.listenTaken seg m) ⟨.one _ rfl trivial, ?_⟩ (by rw [h]; exact hk))
        exact ackSide_eq_iff.mpr ⟨hn.symm, rfl, rfl⟩
      · have hfit : (e.listenTaken seg m).tcb.sndMss ≤ 65535 := by
          by_contra hbig
          refine hu ⟨⟨by simpa using hsyn, by simpa using hr, by simpa using hack⟩,
            Or.inl ⟨hs, hport⟩, ?_, hn⟩
          rw [← hm]
          exact not_le.mp hbig
        refine Or.inr (Or.inl (Acked.answers ?_))
        rcases (e.listenTaken seg m).queueAndSend_cases { syn := true, ack := true } [] true 0 with
          hq | ⟨-, hbig, -⟩
        · rw [h, hq]
          refine ⟨[.stateChange .listen .synReceived, .tx ((e.listenTaken seg m).segmentFor
            (e.listenTaken seg m).tcb.sndNxt { syn := true, ack := true } [] true)], ?_, _,
            List.mem_cons_of_mem _ (List.mem_singleton_self _), rfl, ?_⟩
          · simp [listenTaken]
          · simp [segmentFor, enqueue]
        · omega
  · rw [handle_synSent seg hs] at hh ⊢
    unfold handleSynSent at hh ⊢
    dsimp only at hh ⊢
    split_ifs at hh ⊢ with hbad hr hr hok hsyn hgt
    · exact hkeep (.refl e)
    · exact hkeep (emitRstReply_keeps _ _ _)
    · exact Or.inl (by simp [Outside])
    · exact hkeep (.refl e)
    · exact hkeep (.refl e)
    · have hlog : Logs (fun _ => True) e (e.takeSyn seg) := .none (takeSyn_env seg)
      rcases synSentEstablished_replies hcs hh with h | h
      · exact Or.inl h
      · refine Or.inr (Or.inr ⟨hs, ?_⟩)
        rcases h with h | ⟨hl, h1, h2⟩
        · exact Or.inl (h.after hlog)
        · exact Or.inr ⟨hlog.trans hl, h1, h2⟩
    · have hack : seg.ackFlag = false := by
        rw [Bool.eq_false_iff]
        intro hack
        obtain ⟨m, -, -, hm⟩ := takeSyn_cases (e := e) seg
        rw [hm, if_pos hack] at hgt
        simp only [hack, Bool.true_and, Bool.or_eq_true, not_or, Bool.not_eq_true] at hbad
        simp [seqGt_eq_not_seqLeq, hbad.1] at hgt
      have htake : (e.takeSyn seg).tcb.sndUna = e.tcb.sndUna ∧
          (e.takeSyn seg).tcb.iss = e.tcb.iss := by
        obtain ⟨m, -, -, h⟩ := takeSyn_cases (e := e) seg
        rw [h, if_neg (by simp [hack])]
        exact ⟨rfl, rfl⟩
      rw [htake.1, htake.2, Bool.not_eq_true] at hgt
      by_cases hn : e.tcb.rcvNxt = add seg.seq 1
      · refine hkeep (Keeps.trans (f := e.takeSyn seg) ⟨.none (takeSyn_env seg), ?_⟩
          (simultaneousOpen_keeps seg))
        exact ackSide_eq_iff.mpr ⟨(takeSyn_tcb seg).2.trans hn.symm, takeSyn_tm seg⟩
      · have hfit : (e.takeSyn seg).tcb.sndMss ≤ 65535 := by
          by_contra hbig
          refine hu ⟨⟨by simpa using hsyn, by simpa using hr, hack⟩, Or.inr ⟨hs, hgt⟩, ?_, hn⟩
          rw [takeSyn_agreedMss] at hbig
          exact not_le.mp hbig
        exact Or.inr
          (Or.inl ((simultaneousOpen_acked hfit).after (.none (takeSyn_env seg))).answers)
  · rw [handle_synchronized seg hs] at hh ⊢
    rcases handleSynchronized_answers hc hq hh hx with h | h
    · exact Or.inl h
    · exact Or.inr (Or.inl h)

/-! ## Calls and timers -/

/-- A call or an expiry never moves RCV.NXT. -/
def Spares (e f : TcpEngine) : Prop := f.Outside ∨ Acked e f ∨ Keeps e f

theorem Keeps.spares (h : Keeps e f) : Spares e f := Or.inr (Or.inr h)

theorem raise_keeps (msg : String) : Keeps e (e.raise msg) := .of_eq rfl rfl

theorem setUserTimeout_keeps (t : Option ℚ) : Keeps e (e.setUserTimeout t) := by
  cases t <;> exact .of_eq rfl rfl

theorem activeOpen_keeps : Keeps e e.activeOpen := by
  by_cases hs : e.tcb.state = .closed ∨ e.tcb.state = .listen
  · rw [activeOpen_eq hs, connect_eq hs]
    exact Keeps.trans (f := e.dialled) ⟨.one _ rfl trivial, rfl⟩ (queueAndSend_keeps _ _ _ _)
  · rw [activeOpen, if_pos (by tauto)]
    exact raise_keeps _

theorem passiveOpen_keeps : Keeps e e.passiveOpen := by
  unfold passiveOpen
  split
  · exact raise_keeps _
  · exact Keeps.trans (f := { e with fin := { e.fin with passive := true } }) (.of_eq rfl rfl)
      (setState_keeps _)

theorem sendQueued_keeps (data : List UInt8) (urgent : Bool) :
    Keeps e (e.sendQueued data urgent) := by
  have hup : Keeps e (if urgent && !data.isEmpty then e.setSndUp else e) := by
    split
    · exact .of_eq rfl rfl
    · exact .refl e
  unfold sendQueued
  dsimp only
  generalize (if urgent && !data.isEmpty then e.setSndUp else e) = k at hup
  split
  · exact hup.trans sendPending_keeps
  · exact hup

theorem send_keeps (data : List UInt8) (push urgent : Bool) (t : Option ℚ) :
    Keeps e (e.send data push urgent t) := by
  have hb : Keeps e ((e.setUserTimeout t).bufferData data push) :=
    (setUserTimeout_keeps t).trans (.of_eq rfl rfl)
  unfold send
  dsimp only
  split_ifs
  · exact raise_keeps _
  · exact raise_keeps _
  · exact hb.trans (raise_keeps _)
  · exact hb.trans activeOpen_keeps
  · exact hb.trans (activeOpen_keeps.trans (sendQueued_keeps _ _))
  · exact hb.trans (sendQueued_keeps _ _)

theorem finishReceive_keeps (data : List UInt8) : Keeps e (e.finishReceive data) := by
  unfold finishReceive
  dsimp only
  split <;> exact ⟨.one _ rfl trivial, rfl⟩

theorem receive_spares (n : Nat) : Spares e (e.receive n) := by
  unfold receive
  dsimp only
  split_ifs
  · exact (raise_keeps _).spares
  · exact (raise_keeps _).spares
  · exact (raise_keeps _).spares
  · refine Or.inr (Or.inl ?_)
    have hk : Acked e (e.drain n).reopenWindow.sendAck := sendAck_acked.after (.none rfl)
    exact hk.keeps (finishReceive_keeps _)
  · exact (Keeps.trans (f := e.drain n) (.of_eq rfl rfl) (finishReceive_keeps _)).spares

theorem close_spares : Spares e e.close := by
  unfold TcpEngine.close
  split_ifs
  · exact (raise_keeps _).spares
  · exact (raise_keeps _).spares
  · exact Or.inl (by simp [Outside])
  · exact (Keeps.trans (f := e.requestFin) (.of_eq rfl rfl) sendPending_keeps).spares

theorem fire_keeps {h : TimerHandle Callback} (hcb : h.cb ≠ .onDelack) : Keeps e (e.fire h) := by
  refine .of_eq (by simp) ?_
  unfold fire
  cases hc : h.cb with
  | onDelack => exact absurd hc hcb
  | _ => rfl

theorem expire_spares (h : TimerHandle Callback) : Spares e ((e.popTimer h).callback h.cb) := by
  have hf : (e.popTimer h).forgetTimer h.cb = e.fire h := rfl
  have hout {g : TcpEngine} (hg : g.tcb.state = .closed) : Spares e g :=
    Or.inl (by simp [Outside, hg])
  cases hcb : h.cb with
  | onDelack =>
    rw [hcb] at hf
    rw [callback, onDelack, hf]
    exact Or.inr (Or.inl (sendAck_acked.after (.none (by simp))))
  | onTimeWait => exact hout (by simp [callback, onTimeWait])
  | onRto =>
    have hk : Keeps e (e.fire h) := fire_keeps (by simp [hcb])
    rw [hcb] at hf
    rw [callback, onRto, hf]
    dsimp only
    split
    · exact hk.spares
    · split_ifs
      · exact hout (giveUp_state _)
      · exact hout (giveUp_state _)
      · exact (hk.trans (Keeps.trans (f := (e.fire h).countRto) (.of_eq rfl rfl)
          (retransmitHead_keeps _ _))).spares
  | onPersist =>
    have hk : Keeps e (e.fire h) := fire_keeps (by simp [hcb])
    rw [hcb] at hf
    rw [callback, onPersist, hf]
    split_ifs
    · exact (hk.trans sendPending_keeps).spares
    · exact (hk.trans (Keeps.trans (f := (e.fire h).takeChunk 1) (.of_eq rfl rfl)
        ((queueAndSend_keeps _ _ _ _).trans (.of_eq rfl rfl)))).spares
    · exact (hk.trans (sendFin_keeps.trans (.of_eq rfl rfl))).spares
    · exact hk.spares
  | onKeepalive =>
    have hk : Keeps e (e.fire h) := fire_keeps (by simp [hcb])
    rw [hcb] at hf
    rw [callback, onKeepalive, hf]
    split_ifs
    · exact hk.spares
    · exact (hk.trans (restartKeepalive_keeps _)).spares
    · exact hout (giveUp_state _)
    · exact (hk.trans ((makeAndTransmit_keeps _ _ _ _ _).trans (Keeps.trans
        (f := (e.fire h).sendKeepaliveProbe) (.of_eq rfl rfl) (restartKeepalive_keeps _)))).spares

theorem perform_spares (h : ∀ data, a ≠ .segment data) : Spares e (e.perform a) := by
  cases a with
  | tick dt => exact (Keeps.of_eq rfl rfl).spares
  | random r => exact (Keeps.of_eq rfl rfl).spares
  | openCall active rport lport t =>
    have hp : Keeps e ((e.setPorts rport lport).setUserTimeout t) :=
      Keeps.trans (f := e.setPorts rport lport) (.of_eq rfl rfl) (setUserTimeout_keeps t)
    show Spares e (e.openCall active rport lport t)
    unfold openCall
    dsimp only
    split
    · exact (hp.trans activeOpen_keeps).spares
    · exact (hp.trans passiveOpen_keeps).spares
  | activeOpen => exact activeOpen_keeps.spares
  | passiveOpen => exact passiveOpen_keeps.spares
  | send data push urgent t => exact (send_keeps _ _ _ _).spares
  | receive n => exact receive_spares n
  | close => exact close_spares
  | abort =>
    show Spares e e.abort
    unfold TcpEngine.abort
    split
    · exact (raise_keeps _).spares
    · exact Or.inl (by simp [Outside])
  | segment data => exact absurd rfl (h data)
  | expire g => exact expire_spares g

/-! ## Steps -/

/-- The octets hold a segment for this connection that nothing is said to. -/
def Silent (e : TcpEngine) (data : List UInt8) : Prop :=
  ∃ seg, TcpSegment.parse data = .ok seg ∧ e.Addressed seg ∧ (e.Unanswerable seg ∨ e.Hushed seg)

/-- The delayed-ACK timer is live. -/
def DelackLive (e : TcpEngine) : Prop := ∃ h ∈ e.tm.sched.live, h.cb = .onDelack

/-- An advance of RCV.NXT in a step that does not end in CLOSED or LISTEN is acknowledged
in the step, or the delayed-ACK timer is live. -/
def Answered (e e' : TcpEngine) : Prop :=
  e'.tcb.rcvNxt ≠ e.tcb.rcvNxt → ¬ e'.Outside →
    AckOf e'.tcb.rcvNxt (entered e e') ∨ e'.DelackLive

theorem delackLive_iff (ht : e.tm.Timely) : e.DelackLive ↔ e.tm.ackTimer ≠ none :=
  (ht.slot_ne_none_iff .onDelack).symm

theorem acked_iff : Acked e f ↔ (∃ evs, f.env.log = e.env.log ++ evs) ∧
    AckOf f.tcb.rcvNxt (entered e f) := by
  constructor
  · rintro ⟨evs, hl, ha⟩
    refine ⟨⟨evs, hl⟩, ?_⟩
    rwa [entered, hl, List.drop_left]
  · rintro ⟨⟨evs, hl⟩, ha⟩
    rw [entered, hl, List.drop_left] at ha
    exact ⟨evs, hl, ha⟩

/-- What every reachable state has for the acknowledgement of what arrives. -/
structure Attentive (e : TcpEngine) : Prop where
  serene : e.Serene
  fresh : e.receiver.Fresh
  synText : e.SynText
  delays : e.DelaysLater

theorem attentive_init (args : EngineArgs) (sched : ManualScheduler Callback) (rand : Nat)
    (hsched : sched.heap = []) : (init args sched rand).Attentive :=
  ⟨serene_init args sched rand hsched, fun _ => rfl, .of_state nofun, .idle rfl⟩

theorem Attentive.step (h : e.Attentive) (hs : engineMachine.step e a = some e') :
    e'.Attentive := by
  have hturns := h.serene.ready.turns hs
  refine ⟨h.serene.step hs, Turns.fresh hturns h.fresh, ?_, h.serene.ready.delaysLater h.delays hs⟩
  by_cases hc : ∃ seg, a.Carries seg
  · obtain ⟨seg, data, s, rfl, -⟩ := hc
    simp only [engineMachine] at hs
    split_ifs at hs
    obtain rfl := Option.some.inj hs
    exact onSegment_synText (e := e.enter) h.fresh (h.synText.of_eq rfl rfl rfl)
  · intro hst
    have hstill : e.tcb.state = .synReceived ∧ e'.buf.ooo = e.buf.ooo ∧
        e'.tcb.rcvNxt = e.tcb.rcvNxt := Turns.still hturns hc hst
    obtain ⟨h1, h2, h3⟩ := hstill
    rw [h2, h3]
    exact h.synText h1

theorem hushed_enter : e.enter.Hushed seg ↔ e.Hushed seg :=
  ⟨fun h => ⟨h.completes, h.inWindow, h.plain, h.text, h.mute⟩,
    fun h => ⟨h.completes, h.inWindow, h.plain, h.text, h.mute⟩⟩

theorem unanswerable_enter : e.enter.Unanswerable seg ↔ e.Unanswerable seg :=
  ⟨fun h => ⟨h.flags, h.opens, h.mss, h.moves⟩, fun h => ⟨h.flags, h.opens, h.mss, h.moves⟩⟩

theorem Hushed.state (h : e.Hushed seg) : e.tcb.state = .synReceived := h.completes.1

theorem Unanswerable.state (h : e.Unanswerable seg) : e.tcb.state ≠ .established := by
  intro hs
  rcases h.opens with h | h
  · rw [hs] at h
    cases h.1
  · rw [hs] at h
    cases h.1

/-- Neither is in ESTABLISHED, so the keepalive timer has no part in it. -/
theorem silent_heard : e.heard.Unanswerable seg ∨ e.heard.Hushed seg ↔
    e.Unanswerable seg ∨ e.Hushed seg := by
  by_cases hs : e.tcb.state = .established
  · have hno {f : TcpEngine} (hf : f.tcb.state = .established) :
        ¬ (f.Unanswerable seg ∨ f.Hushed seg) := by
      rintro (h | h)
      · exact h.state hf
      · have := h.state
        rw [hf] at this
        cases this
    exact iff_of_false (hno (by rw [heard_tcb, hs])) (hno hs)
  · rw [heard_still fun h => absurd h hs]

theorem Keeps.responds (h : Keeps e f) (hs : f.tcb.state = e.tcb.state) (h' : Responds f g) :
    Responds e g := by
  rcases h' with h' | h' | ⟨hst, h'⟩
  · exact Or.inl h'
  · exact Or.inr (Or.inl (h.then h'))
  · refine Or.inr (Or.inr ⟨hs ▸ hst, ?_⟩)
    rcases h' with h' | ⟨hl, h1, h2⟩
    · exact Or.inl (h'.after h.1)
    · exact Or.inr ⟨h.1.trans hl, h1, h2⟩

/-- A step answers for what it moves, but for the two silent arrivals. -/
theorem Attentive.responds {data : List UInt8} (h : e.Attentive)
    (hs : engineMachine.step e (.segment data) = some e') (hx : ¬ e.Silent data) :
    Responds e e' := by
  have hkeep {f : TcpEngine} (hk : Keeps e f) : Responds e f := Or.inr (Or.inl hk.answers)
  have hh : e'.env.hung = false := step_hung hs
  cases hp : TcpSegment.parse data with
  | error msg =>
    simp only [engineMachine] at hs
    split_ifs at hs
    obtain rfl := Option.some.inj hs
    rw [perform, onSegment, hp]
    exact hkeep (.of_eq rfl rfl)
  | ok seg =>
    have hc : Action.Carries (.segment data) seg := ⟨data, seg, rfl, hp, Or.inl rfl⟩
    have hcs : Action.Carries (.segment data) seg.synTaken := ⟨data, seg, rfl, hp, Or.inr rfl⟩
    rcases step_segment hp hs with ⟨-, he⟩ | ⟨ha, rfl⟩
    · rw [he]
      exact hkeep (.of_eq rfl rfl)
    · have hno : ¬ (e.enter.heard.Unanswerable seg ∨ e.enter.heard.Hushed seg) := by
        rw [silent_heard, unanswerable_enter, hushed_enter]
        exact fun hu => hx ⟨seg, hp, ha, hu⟩
      rw [not_or] at hno
      have hk : Keeps e e.enter.heard := Keeps.trans (f := e.enter) (.of_eq rfl rfl) heard_keeps
      have hq : e.enter.heard.SynText := h.synText.of_eq (by simp) (by simp) (by simp)
      exact hk.responds (by simp) (handle_responds hc hcs hq hh hno.2 hno.1)

theorem Silent.unanswered {data : List UInt8} (hx : e.Silent data) (h : e.Attentive)
    (hs : engineMachine.step e (.segment data) = some e') : ¬ Answered e e' := by
  have ht := (h.step hs).serene.timers.timely
  obtain ⟨seg, hp, ha, hx⟩ := hx
  obtain ⟨hn, rfl⟩ | ⟨-, rfl⟩ := step_segment hp hs
  · exact absurd ha hn
  have hx' : e.enter.heard.Unanswerable seg ∨ e.enter.heard.Hushed seg := by
    rw [silent_heard, unanswerable_enter, hushed_enter]
    exact hx
  have hq : e.enter.heard.SynText := h.synText.of_eq (by simp) (by simp) (by simp)
  have hk : Keeps e e.enter.heard := Keeps.trans (f := e.enter) (.of_eq rfl rfl) heard_keeps
  have hside := ackSide_eq_iff.mp hk.2
  have hquiet : (e.enter.heard.handle seg).tcb.rcvNxt ≠ e.enter.heard.tcb.rcvNxt ∧
      ¬ (e.enter.heard.handle seg).Outside ∧
      (e.enter.heard.handle seg).tm.ackTimer = e.enter.heard.tm.ackTimer ∧
      Logs Unsent e.enter.heard (e.enter.heard.handle seg) := by
    rcases hx' with hx' | hx'
    · obtain ⟨h1, h2, h3, h4⟩ := hx'.silent
      exact ⟨h1, by simp [Outside, h2], h3, h4⟩
    · obtain ⟨h1, h2, h3, h4⟩ := hx'.silent hq
      have hsr : e.enter.heard.tcb.state ∈ SyncStates := by
        rw [hx'.state]
        simp
      rw [handle_synchronized seg hsr]
      exact ⟨h1, by simp [Outside, h2], h3, h4⟩
  obtain ⟨h1, h2, h3, h4⟩ := hquiet
  have hidle : e.tm.ackTimer = none := by
    by_contra hne
    have hst := h.delays hne
    rcases hx with hx | hx
    · rcases hx.opens with ⟨hs, -⟩ | ⟨hs, -⟩ <;> simp [hs] at hst
    · simp [hx.state] at hst
  intro hans
  rcases hans (by rw [← hside.1]; exact h1) h2 with ⟨s, hm, -⟩ | hlive
  · have hl : Logs Unsent e (e.enter.heard.handle seg) := Logs.trans (.none (by simp; rfl)) h4
    exact hl.entered hm s rfl
  · rw [delackLive_iff ht, h3, hside.2.1] at hlive
    exact hlive hidle

/-- An arriving segment is answered exactly when it is not one of the two. -/
theorem Attentive.answered_iff {data : List UInt8} (h : e.Attentive)
    (hs : engineMachine.step e (.segment data) = some e') : Answered e e' ↔ ¬ e.Silent data := by
  refine ⟨fun ha hx => hx.unanswered h hs ha, fun hx hn ho => ?_⟩
  have ht := (h.step hs).serene.timers.timely
  rcases h.responds hs hx with hr | hr | ⟨-, hr⟩
  · exact absurd hr ho
  · cases hr with
    | acked evs hl ha => exact Or.inl (acked_iff.mp ⟨evs, hl, ha⟩).2
    | owed evs hl _ _ h2 => exact Or.inr ((delackLive_iff ht).mpr h2)
    | kept evs hl hk => exact absurd (ackSide_eq_iff.mp hk).1 hn
  · rcases hr with hr | ⟨-, -, h2⟩
    · exact Or.inl (acked_iff.mp hr).2
    · exact Or.inr ((delackLive_iff ht).mpr h2)

end TcpEngine

/-! ## How many advances are pending -/

instance (n : Int) (evs : List Event) : Decidable (AckOf n evs) :=
  decidable_of_iff (evs.any fun
      | .tx seg => seg.ackFlag && seg.ack == n
      | _ => false) <| by
    rw [List.any_eq_true]
    constructor
    · rintro ⟨ev, hm, h⟩
      cases ev with
      | tx seg =>
        simp only [Bool.and_eq_true, beq_iff_eq] at h
        exact ⟨seg, hm, h⟩
      | _ => cases h
    · rintro ⟨seg, hm, h1, h2⟩
      exact ⟨.tx seg, hm, by simp [h1, h2]⟩

open TcpEngine in
/-- The advances of RCV.NXT since it was last acknowledged; there are none before the peer
has been heard. -/
def pendingAfter (n : Nat) (e e' : TcpEngine) : Nat :=
  if e'.tcb.state ∈ [.closed, .listen, .synSent] ∨ AckOf e'.tcb.rcvNxt (entered e e') then 0
  else if e'.tcb.rcvNxt = e.tcb.rcvNxt then n
  else n + 1

/-- An engine with the number of its advances that are pending. -/
def ackMachine : Lib.Machine (TcpEngine × Nat) Action where
  step s a := (engineMachine.step s.1 a).map fun e' => (e', pendingAfter s.2 s.1 e')

/-- The arriving segment is not one that nothing is said to. -/
def Heeded (s : TcpEngine × Nat) (a : Action) : Prop :=
  ∀ data, a = .segment data → ¬ s.1.Silent data

namespace TcpEngine

variable {a : Action} {e e' : TcpEngine}

/-- An advance that is pending has been counted by `_schedule_ack`. -/
structure Awaiting (s : TcpEngine × Nat) : Prop where
  attentive : s.1.Attentive
  pending : s.2 = 0 ∨ (s.2 = 1 ∧ 1 ≤ s.1.tm.ackCount ∧ s.1.tcb.state ∉ [.closed, .listen, .synSent])

theorem awaiting_init (args : EngineArgs) (sched : ManualScheduler Callback) (rand : Nat)
    (hsched : sched.heap = []) : Awaiting (init args sched rand, 0) :=
  ⟨attentive_init args sched rand hsched, Or.inl rfl⟩

theorem Awaiting.step {s s' : TcpEngine × Nat} (h : Awaiting s) (hx : Heeded s a)
    (hs : ackMachine.step s a = some s') : Awaiting s' := by
  obtain ⟨e, n⟩ := s
  obtain ⟨e', he, rfl⟩ := Option.map_eq_some_iff.mp hs
  have hatt : e'.Attentive := h.attentive.step he
  refine ⟨hatt, ?_⟩
  have hn : n = 0 ∨ (n = 1 ∧ 1 ≤ e.tm.ackCount ∧ e.tcb.state ∉ [.closed, .listen, .synSent]) :=
    h.pending
  show pendingAfter n e e' = 0 ∨ (pendingAfter n e e' = 1 ∧ 1 ≤ e'.tm.ackCount ∧
    e'.tcb.state ∉ [.closed, .listen, .synSent])
  by_cases hout : e'.tcb.state ∈ [.closed, .listen, .synSent] ∨ AckOf e'.tcb.rcvNxt (entered e e')
  · exact Or.inl (if_pos hout)
  rw [pendingAfter, if_neg hout]
  obtain ⟨hst, hack⟩ := not_or.mp hout
  have hno : ¬ Acked e e' := fun ha => hack (acked_iff.mp ha).2
  have hin : ¬ e'.Outside := fun ho => hst (by rcases ho.cases with ho | ho <;> simp [ho])
  have hkept (hk : e'.ackSide = e.ackSide) :
      (if e'.tcb.rcvNxt = e.tcb.rcvNxt then n else n + 1) = 0 ∨
      ((if e'.tcb.rcvNxt = e.tcb.rcvNxt then n else n + 1) = 1 ∧ 1 ≤ e'.tm.ackCount ∧
        e'.tcb.state ∉ [.closed, .listen, .synSent]) := by
    obtain ⟨h1, -, h3⟩ := ackSide_eq_iff.mp hk
    rw [if_pos h1, h3]
    rcases hn with hn | ⟨hn, hc, -⟩
    · exact Or.inl hn
    · exact Or.inr ⟨hn, hc, hst⟩
  have howed (h0 : n = 0) (h1 : 1 ≤ e'.tm.ackCount) :
      (if e'.tcb.rcvNxt = e.tcb.rcvNxt then n else n + 1) = 0 ∨
      ((if e'.tcb.rcvNxt = e.tcb.rcvNxt then n else n + 1) = 1 ∧ 1 ≤ e'.tm.ackCount ∧
        e'.tcb.state ∉ [.closed, .listen, .synSent]) := by
    split
    · exact Or.inl h0
    · exact Or.inr ⟨by rw [h0], h1, hst⟩
  by_cases hseg : ∃ data, a = .segment data
  · obtain ⟨data, rfl⟩ := hseg
    rcases h.attentive.responds he (hx data rfl) with hr | hr | ⟨hsyn, hr⟩
    · exact absurd hr hin
    · cases hr with
      | acked evs hl ha => exact absurd ⟨evs, hl, ha⟩ hno
      | owed evs hl h0 h1 _ =>
        have h0' : e.tm.ackCount = 0 := h0
        exact howed (hn.resolve_right fun hx => by omega) h1
      | kept evs hl hk => exact hkept hk
    · rcases hr with hr | ⟨-, h1, -⟩
      · exact absurd hr hno
      · have hsyn' : e.tcb.state = .synSent := hsyn
        exact howed (hn.resolve_right fun hx => hx.2.2 (by simp [hsyn'])) h1
  · simp only [engineMachine] at he
    split_ifs at he
    obtain rfl := Option.some.inj he
    have hk : Keeps e e.enter := .of_eq rfl rfl
    rcases perform_spares (e := e.enter) (a := a) (fun data hd => hseg ⟨data, hd⟩) with hr | hr | hr
    · exact absurd hr hin
    · exact absurd (hr.after hk.1) hno
    · exact hkept (hk.trans hr).2

open TcpEngine in
/-- In every reachable state an arriving segment that moves RCV.NXT is answered exactly when
it is not one of the two silent ones, and in a run without these at most one advance is
pending. -/
theorem advances_answered (args : EngineArgs) (sched : ManualScheduler Callback) (rand : Nat)
    (as : List Action) (s : TcpEngine × Nat) (hsched : sched.heap = [])
    (hr : ackMachine.run (init args sched rand, 0) as = some s) :
    (∀ data e', engineMachine.step s.1 (.segment data) = some e' →
      (Answered s.1 e' ↔ ¬ s.1.Silent data)) ∧
    (ackMachine.AllSteps Heeded (init args sched rand, 0) as → s.2 ≤ 1) := by
  constructor
  · have hatt : s.1.Attentive := by
      refine Lib.Machine.Preserves.run (M := ackMachine) (C := fun _ _ => True)
        (I := fun s => s.1.Attentive) ?_ (attentive_init args sched rand hsched)
        (Lib.Machine.AllSteps.trivial _ _ as) hr
      rintro ⟨e, n⟩ a s' h - hs
      obtain ⟨e', he, rfl⟩ := Option.map_eq_some_iff.mp hs
      exact Attentive.step h he
    exact fun data e' hs => hatt.answered_iff hs
  · intro hC
    have hpres : ackMachine.Preserves Heeded Awaiting := fun _ _ _ h hx hs => h.step hx hs
    rcases (hpres.run (awaiting_init args sched rand hsched) hC hr).pending with h | ⟨h, -⟩
    · omega
    · omega

instance (e : TcpEngine) : Decidable e.DelackLive :=
  inferInstanceAs (Decidable (∃ h ∈ e.tm.sched.live, h.cb = Callback.onDelack))

instance (e e' : TcpEngine) : Decidable (Answered e e') :=
  inferInstanceAs (Decidable (_ → _ → _))

end TcpEngine

/-- The peer's SYN crosses ours, and brings three bytes. -/
def crossingRun : List Action :=
  [.activeOpen,
    .segment [0, 80, 3, 232, 0, 0, 3, 232, 0, 0, 0, 0, 80, 2, 255, 255, 0, 0, 0, 0, 1, 2, 3]]

/-- The ACK of our SYN. -/
def openingAck : List UInt8 :=
  [0, 80, 3, 232, 0, 0, 3, 233, 0, 0, 0, 101, 80, 16, 255, 255, 0, 0, 0, 0]

open TcpEngine in
theorem crossing_text_unanswered : ∃ e e', engineMachine.run dialStart crossingRun = some e ∧
    engineMachine.step e (.segment openingAck) = some e' ∧ ¬ Answered e e' := by
  have h : ((engineMachine.run dialStart crossingRun).bind fun e =>
      (engineMachine.step e (.segment openingAck)).map fun e' => decide (Answered e e')) =
      some false := by
    decide +kernel
  obtain ⟨e, he, hv⟩ := Option.bind_eq_some_iff.mp h
  obtain ⟨e', he', hd⟩ := Option.map_eq_some_iff.mp hv
  exact ⟨e, e', he, he', of_decide_eq_false hd⟩

open TcpEngine in
/-- Of the connection before that ACK. -/
theorem crossing_answered : ∃ s, ackMachine.run (dialStart, 0) crossingRun = some s ∧
    (∀ data e', engineMachine.step s.1 (.segment data) = some e' →
      (Answered s.1 e' ↔ ¬ s.1.Silent data)) ∧
    (ackMachine.AllSteps Heeded (dialStart, 0) crossingRun → s.2 ≤ 1) := by
  have h : (ackMachine.run (dialStart, 0) crossingRun).isSome = true := by decide +kernel
  obtain ⟨s, hs⟩ := Option.isSome_iff_exists.mp h
  exact ⟨s, hs, advances_answered _ {} 0 crossingRun s rfl hs⟩

end HdlPlayground.Tcp

import HdlPlayground.Tcp.TimerSlots
import HdlPlayground.Tcp.SendQueue

/-!
# The sender's stream

`SendInv w k e` is the representation invariant of the send side: the queue tiles
the sequence space from SND.UNA, `k` places after ISS, to SND.NXT, and queue and
buffer together are what is left of the stream of `w` from there on.
-/
namespace HdlPlayground.Tcp

open Lib

namespace TcpEngine

variable {a : Action} {e e' : TcpEngine} {w : List UInt8} {k : Nat}

/-- The states of an engine without a connection. -/
def Outside (e : TcpEngine) : Prop := e.tcb.state ∈ [.closed, .listen]

instance : Decidable e.Outside := inferInstanceAs (Decidable (_ ∈ _))

structure SendInv (w : List UInt8) (k : Nat) (e : TcpEngine) : Prop where
  iss : 0 ≤ e.tcb.iss ∧ e.tcb.iss < 4294967296
  una : e.tcb.sndUna = seqAt e.tcb.iss k
  nxt : e.tcb.sndNxt = seqAt e.tcb.iss (k + (unacked e.buf.retx).length)
  tiles : Tiles e.tcb.iss k e.buf.retx
  stream : unacked e.buf.retx ++ e.buf.appBuf.map .data = (sent w e.fin.finSent).drop k
  bound : k ≤ (sent w e.fin.finSent).length
  finSeq : e.fin.finSent = true → e.fin.finSeq = seqAt e.tcb.iss (w.length + 1)
  opening : e.tcb.state ∈ [.synSent, .synReceived] → k = 0

/-- What the send side of the invariant is about. -/
def sendCore (e : TcpEngine) :
    Int × Int × Int × List Outgoing × List UInt8 × Bool × Int :=
  (e.tcb.iss, e.tcb.sndUna, e.tcb.sndNxt, e.buf.retx, e.buf.appBuf, e.fin.finSent, e.fin.finSeq)

theorem SendInv.of_core (h : SendInv w k e) (hc : e'.sendCore = e.sendCore)
    (ho : e'.tcb.state ∈ [.synSent, .synReceived] → k = 0) : SendInv w k e' := by
  simp only [sendCore, Prod.mk.injEq] at hc
  obtain ⟨h1, h2, h3, h4, h5, h6, h7⟩ := hc
  constructor
  · rw [h1]; exact h.iss
  · rw [h1, h2]; exact h.una
  · rw [h1, h3, h4]; exact h.nxt
  · rw [h1, h4]; exact h.tiles
  · rw [h4, h5, h6]; exact h.stream
  · rw [h6]; exact h.bound
  · rw [h1, h6, h7]; exact h.finSeq
  · exact ho

theorem RecvFrame.core (h : RecvFrame e e') : e'.sendCore = e.sendCore := by
  obtain ⟨r, u, ht⟩ := h.tcb
  simp only [sendCore, ht, h.retx, h.appBuf, h.fin]

theorem RecvFrame.mss (h : RecvFrame e e') : e'.tcb.sndMss = e.tcb.sndMss := by
  obtain ⟨r, u, ht⟩ := h.tcb
  rw [ht]

/-- The two ends of the queue and the buffer add up to the stream. -/
theorem SendInv.length_eq (h : SendInv w k e) :
    k + (unacked e.buf.retx).length + e.buf.appBuf.length = w.length + 1 + e.fin.finSent.toNat := by
  have hl := congrArg List.length h.stream
  have hb := h.bound
  simp only [List.length_append, List.length_map, List.length_drop, length_sent] at hl hb
  omega

/-- Once the FIN is out nothing is buffered: the stream ends with it. -/
theorem SendInv.appBuf_nil (h : SendInv w k e) (hf : e.fin.finSent = true) : e.buf.appBuf = [] := by
  have hs := h.stream
  have hb := h.bound
  rw [hf] at hs hb
  by_contra hne
  have hlast : (unacked e.buf.retx ++ e.buf.appBuf.map Sym.data).getLast? =
      (e.buf.appBuf.map Sym.data).getLast? := by
    rw [List.getLast?_append]
    cases hm : (e.buf.appBuf.map Sym.data).getLast? with
    | none => simp at hm; exact absurd hm hne
    | some y => rfl
  rw [hs, List.getLast?_drop, sent_true] at hlast
  have hl := congrArg List.length hs
  have hpos : 0 < e.buf.appBuf.length := List.length_pos_iff.mpr hne
  simp only [List.length_append, List.length_map, List.length_drop, length_sent] at hl
  rw [if_neg (by simp; simp at hl; omega), List.getLast?_append] at hlast
  simp only [List.getLast?_singleton, Option.some_or, List.getLast?_map] at hlast
  cases hq : e.buf.appBuf.getLast? with
  | none => rw [hq] at hlast; cases hlast
  | some b => rw [hq] at hlast; cases hlast

/-- While the SYN is unacknowledged it heads the queue. -/
theorem SendInv.unacked_pos (h : SendInv w 0 e) : 0 < (unacked e.buf.retx).length := by
  have hs := h.stream
  cases hq : unacked e.buf.retx with
  | nil =>
    rw [hq, List.nil_append, List.drop_zero, sent] at hs
    cases hb : e.buf.appBuf with
    | nil => rw [hb] at hs; cases hs
    | cons b bs => rw [hb] at hs; cases hs
  | cons y ys => exact Nat.succ_pos _

/-! ## Acknowledgements -/

theorem SendInv.ack {r : Nat} (h : SendInv w k e) (hk : k ≤ r)
    (hr : r ≤ k + (unacked e.buf.retx).length) (hlt : r ≤ k + 2147483648)
    (ht1 : e'.tcb.iss = e.tcb.iss) (ht2 : e'.tcb.sndUna = seqAt e.tcb.iss r)
    (ht3 : e'.tcb.sndNxt = e.tcb.sndNxt)
    (hq : e'.buf.retx = trimRetx (seqAt e.tcb.iss r) e.buf.retx)
    (hb : e'.buf.appBuf = e.buf.appBuf) (hf : e'.fin.finSent = e.fin.finSent)
    (hs : e'.fin.finSeq = e.fin.finSeq) (ho : e'.tcb.state ∉ [.synSent, .synReceived]) :
    SendInv w r e' := by
  obtain ⟨hT, hU⟩ := trimRetx_spec h.tiles hk hlt hr
  have hlen : (unacked (trimRetx (seqAt e.tcb.iss r) e.buf.retx)).length =
      (unacked e.buf.retx).length - (r - k) := by rw [hU, List.length_drop]
  have hle := h.length_eq
  constructor
  · rw [ht1]; exact h.iss
  · rw [ht1, ht2]
  · rw [ht1, ht3, hq, h.nxt, hlen]
    congr 1
    omega
  · rw [ht1, hq]; exact hT
  · have hdrop := congrArg (List.drop (r - k)) h.stream
    rw [List.drop_append_of_le_length (by omega), List.drop_drop] at hdrop
    rw [hq, hb, hf, hU, hdrop]
    congr 1
    omega
  · rw [hf, length_sent]; omega
  · rw [ht1, hf, hs]; exact h.finSeq
  · exact fun hc => absurd hc ho

/-- A new acknowledgement in a synchronized state. -/
theorem SendInv.processAck {ack : Int} (h : SendInv w k e) (h0 : 0 ≤ ack) (h1 : ack < 4294967296)
    (hs : e.tcb.state ∈ OpenStates) (ha : e.AcksNew ack) :
    ∃ r, ack = seqAt e.tcb.iss r ∧ SendInv w r (e.processAck ack) := by
  obtain ⟨hgt, hle⟩ := ha
  rw [h.una] at hgt
  rw [h.nxt] at hle
  obtain ⟨r, rfl, hk, hr, hlt⟩ := offset_of_ack h0 h1 (Nat.le_add_right _ _) hgt hle
  refine ⟨r, rfl, h.ack (Nat.le_of_lt hk) hr (Nat.le_of_lt hlt) (by simp) (by simp) (by simp)
    (by simp) (by simp) (by simp) (by simp) ?_⟩
  rw [processAck_tcb]
  intro hc
  simp only [List.mem_cons, List.not_mem_nil, or_false] at hs hc
  rcases hs with hs | hs | hs | hs | hs | hs <;> rw [hs] at hc <;> simp at hc

/-- The acknowledgement that completes the handshake. -/
theorem SendInv.openCompleted {seg : TcpSegment} (h : SendInv w k e) (hf : seg.Fits)
    (hc : e.CompletesOpen seg) :
    ∃ r, seg.ack = seqAt e.tcb.iss r ∧ 0 < r ∧ SendInv w r (e.openCompleted seg) := by
  obtain ⟨hs, -, hlt, hle⟩ := hc
  obtain rfl : k = 0 := h.opening (by simp [hs])
  rw [h.una] at hlt
  rw [h.nxt, Nat.zero_add] at hle
  obtain ⟨r, hr, hpos, hn, hlt⟩ := offset_of_first_ack hf.ack.1 hf.ack.2 h.unacked_pos hlt hle
  refine
    ⟨r, hr, hpos, h.ack (Nat.zero_le _) (by omega) (by omega) (by simp [TcpEngine.openCompleted])
    (by simp [TcpEngine.openCompleted, hr]) (by simp [TcpEngine.openCompleted])
    (by simp [TcpEngine.openCompleted, hr]) (by simp [TcpEngine.openCompleted])
    (by simp [TcpEngine.openCompleted]) (by simp [TcpEngine.openCompleted])
    (by simp [TcpEngine.openCompleted])⟩

/-! ## The four ways the queue grows -/

theorem SendInv.queued {o : Outgoing} (h : SendInv w k e) (ht1 : e'.tcb.iss = e.tcb.iss)
    (ht2 : e'.tcb.sndUna = e.tcb.sndUna) (ht3 : e'.tcb.sndNxt = o.endSeq)
    (hq : e'.buf.retx = e.buf.retx ++ [o]) (ho : o.seq = e.tcb.sndNxt) (hpos : 0 < o.segLen)
    (hlt : o.segLen < 2147483648)
    (hs : unacked e.buf.retx ++ o.syms ++ e'.buf.appBuf.map .data = (sent w e'.fin.finSent).drop k)
    (hb : k ≤ (sent w e'.fin.finSent).length)
    (hf : e'.fin.finSent = true → e'.fin.finSeq = seqAt e.tcb.iss (w.length + 1))
    (hopen : e'.tcb.state ∈ [.synSent, .synReceived] → k = 0) : SendInv w k e' := by
  constructor
  · rw [ht1]; exact h.iss
  · rw [ht1, ht2]; exact h.una
  · rw [ht1, ht3, hq, Outgoing.endSeq, ho, h.nxt, unacked_append]
    simp [Nat.add_assoc]
  · rw [ht1, hq]
    exact h.tiles.append_singleton (ho.trans h.nxt) hpos hlt
  · rw [hq, unacked_append]
    simpa using hs
  · exact hb
  · rw [ht1]; exact hf
  · exact hopen

/-- Octets move from the buffer to the queue. -/
theorem SendInv.dataQueued {n : Nat} (flags : Flags) (h : SendInv w k e)
    (hn : 0 < n) (hlen : n ≤ e.buf.appBuf.length) (hlt : n < 2147483648)
    (hfl : flags.syn = false ∧ flags.fin = false) (m : Bool) (urg : Nat)
    (ht : e'.tcb = ((e.takeChunk n).queueAndSend flags (e.buf.appBuf.take n) m urg).tcb)
    (hb : e'.buf = ((e.takeChunk n).queueAndSend flags (e.buf.appBuf.take n) m urg).buf)
    (hf : e'.fin = e.fin) : SendInv w k e' := by
  have hsyms : ((e.takeChunk n).outgoing flags (e.buf.appBuf.take n)).syms =
      (e.buf.appBuf.take n).map Sym.data := by
    simp [Outgoing.syms, symsOf, hfl.1, hfl.2]
  have hl : ((e.takeChunk n).outgoing flags (e.buf.appBuf.take n)).segLen = n := by
    rw [← Outgoing.length_syms, hsyms]
    simpa using hlen
  refine h.queued (o := (e.takeChunk n).outgoing flags (e.buf.appBuf.take n)) ?_ ?_ ?_ ?_ rfl
    (by omega) (by omega) ?_ ?_ ?_ ?_
  · rw [ht]; simp
  · rw [ht]; simp
  · rw [ht]; simp
  · rw [hb]; simp
  · rw [hb, hf, hsyms, ← h.stream]
    simp [-List.map_append]
  · rw [hf]; exact h.bound
  · rw [hf]; exact h.finSeq
  · rw [ht]; simpa using h.opening

theorem SendInv.sendChunk (h : SendInv w k e) (hm : 1 ≤ e.tcb.sndMss) (hb : e.buf.appBuf ≠ [])
    (hu : 0 < e.usableWindow) : SendInv w k (e.sendChunk e.chunkLen) := by
  have hpos := List.length_pos_iff.mpr hb
  have hus : e.usableWindow < 2147483648 := by
    rw [usableWindow, s32_def]
    split <;> omega
  have hn : 0 < e.chunkLen ∧ e.chunkLen ≤ e.buf.appBuf.length ∧ e.chunkLen < 2147483648 := by
    unfold chunkLen
    omega
  exact h.dataQueued (e.takeChunk e.chunkLen).chunkFlags hn.1 hn.2.1 hn.2.2 ⟨rfl, rfl⟩ false
    (e.takeChunk e.chunkLen).urgentPointer (by rw [sendChunk_tcb]; rfl) (by rw [sendChunk_buf]; rfl)
    (by simp)

theorem SendInv.probe (h : SendInv w k e) (g : TimerHandle Callback) (hb : e.buf.appBuf ≠ []) :
    SendInv w k (e.fire g).sendProbe.rearmPersist := by
  have hpos := List.length_pos_iff.mpr hb
  have hf : SendInv w k (e.fire g) := h.of_core (by simp [sendCore]) (by simpa using h.opening)
  exact hf.dataQueued (n := 1) { ack := true } (by omega)
    (by rw [fire_buf]; exact hpos) (by omega) ⟨rfl, rfl⟩ false 0 rfl rfl (by simp [sendProbe])

theorem SendInv.sendFin (h : SendInv w k e) (hd : e.FinDue) : SendInv w k e.sendFin := by
  obtain ⟨-, hns, hb⟩ := hd
  obtain ⟨st, ht, hst⟩ := sendFin_tcb (e := e)
  have hs := h.stream
  have hle := h.length_eq
  rw [hb, hns] at hle
  rw [hb, hns, List.map_nil, List.append_nil] at hs
  have hnxt : e.tcb.sndNxt = seqAt e.tcb.iss (w.length + 1) := by
    rw [h.nxt]
    simp at hle
    rw [hle]
  refine h.queued (o := e.outgoing { ack := true, fin := true } []) (by simp [ht]) (by simp [ht])
    (by simp [ht]) (by simp) rfl (by simp [Outgoing.segLen]) (by simp [Outgoing.segLen]) ?_ ?_ ?_ ?_
  · have hbound := h.bound
    rw [hns] at hbound
    rw [sendFin_fin, sent_true, List.drop_append_of_le_length hbound, ← hs]
    simp [hb, Outgoing.syms, symsOf]
  · have hbound := h.bound
    simp only [sendFin_fin, length_sent] at hbound ⊢
    simp [hns] at hbound
    simp
    omega
  · intro _
    simpa using hnxt
  · rw [ht]
    dsimp only
    rcases hst with ⟨-, rfl⟩ | ⟨-, rfl⟩ | ⟨-, rfl⟩ | ⟨-, rfl⟩
    · simp
    · simp
    · simp
    · exact h.opening

/-- An engine that holds nothing but what has been written to it. -/
structure Idle (w : List UInt8) (e : TcpEngine) : Prop where
  retx : e.buf.retx = []
  appBuf : e.buf.appBuf = w
  finSent : e.fin.finSent = false

/-- The SYN goes on an empty queue. -/
theorem Idle.synQueued {f : TcpEngine} {flags : Flags} (h : Idle w f)
    (hfl : flags.syn = true ∧ flags.fin = false) (hu : f.tcb.sndUna = f.tcb.iss)
    (hn : f.tcb.sndNxt = f.tcb.iss) (hi : 0 ≤ f.tcb.iss ∧ f.tcb.iss < 4294967296) :
    SendInv w 0 (f.queueAndSend flags [] true) := by
  have hsyms : (f.outgoing flags []).syms = [.syn] := by
    simp [Outgoing.syms, symsOf, hfl.1, hfl.2]
  have hl : (f.outgoing flags []).segLen = 1 := by rw [← Outgoing.length_syms, hsyms]; rfl
  have h0 : seqAt f.tcb.iss 0 = f.tcb.iss := seqAt_zero hi.1 hi.2
  have hend : (f.outgoing flags []).endSeq = seqAt f.tcb.iss 1 := by
    rw [Outgoing.endSeq, hl]
    simp [hn, add_def, seqAt]
  constructor
  · simpa using hi
  · simpa [h0] using hu
  · simp [h.retx, unacked, hsyms, hend]
  · simp only [queueAndSend_buf, queueAndSend_tcb, h.retx, List.nil_append]
    exact ⟨by simp [hn, h0], by omega, by omega, trivial⟩
  · simp [h.retx, h.appBuf, h.finSent, unacked, hsyms, sent]
  · exact Nat.zero_le _
  · simp [h.finSent]
  · exact fun _ => rfl

theorem newIss_range (e : TcpEngine) : 0 ≤ e.newIss ∧ e.newIss < 4294967296 := by
  unfold newIss
  split
  · exact ⟨Int.emod_nonneg _ (by decide), Int.emod_lt_of_pos _ (by decide)⟩
  · exact ⟨Int.emod_nonneg _ (by decide), Int.emod_lt_of_pos _ (by decide)⟩

theorem Idle.connect (h : Idle w e) (hs : e.tcb.state = .closed ∨ e.tcb.state = .listen) :
    SendInv w 0 e.connect := by
  rw [connect_eq hs]
  have hd : Idle w e.dialled := ⟨h.retx, h.appBuf, h.finSent⟩
  exact hd.synQueued ⟨rfl, rfl⟩ rfl rfl e.newIss_range

theorem Idle.acceptSyn (h : Idle w e) (seg : TcpSegment) (hs : e.tcb.state = .listen) :
    SendInv w 0 (e.acceptSyn seg) := by
  obtain ⟨m, -, -, hm⟩ := acceptSyn_eq seg hs
  rw [hm]
  have hd : Idle w (e.listenTaken seg m) := ⟨h.retx, h.appBuf, h.finSent⟩
  exact hd.synQueued ⟨rfl, rfl⟩ rfl rfl e.newIss_range

/-! ## The MSS -/

/-- An engine configured with a positive MSS never ends up with an empty one. -/
structure MssOk (e : TcpEngine) : Prop where
  pos : 1 ≤ e.tcb.sndMss
  le : e.tcb.sndMss ≤ e.conf.cfgMss

theorem MssOk.of_eq (h : e.MssOk) (ht : e'.tcb.sndMss = e.tcb.sndMss)
    (hc : e'.conf.cfgMss = e.conf.cfgMss) : e'.MssOk := ⟨ht ▸ h.pos, by rw [ht, hc]; exact h.le⟩

theorem takeSyn_mss (seg : TcpSegment) (h : e.MssOk) : (e.takeSyn seg).MssOk := by
  obtain ⟨m, hle, hpos, ht⟩ := takeSyn_cases (e := e) seg
  have h1 := h.pos
  have h2 := h.le
  have hm : (e.takeSyn seg).tcb.sndMss = m ∧ (e.takeSyn seg).conf.cfgMss = e.conf.cfgMss := by
    rw [ht]
    dsimp only
    split <;> simp
  refine ⟨?_, ?_⟩
  · rw [hm.1]
    exact hpos h1 (by omega)
  · rw [hm.1, hm.2]
    omega

theorem enterClosed_mss (hb : e.Blocked) (h : e.MssOk) : e.enterClosed.MssOk := by
  obtain ⟨tm, hc⟩ := enterClosed_closeDown hb
  rw [hc]
  exact h.of_eq (by simp [closeDown]) (by simp [closeDown])

theorem giveUp_mss (msg : String) (hb : e.Blocked) (h : e.MssOk) : (e.giveUp msg).MssOk := by
  obtain ⟨f, hf, hfb, hg⟩ := giveUp_closes msg hb
  rw [hg]
  apply enterClosed_mss hfb
  obtain rfl | rfl := hf <;> exact h.of_eq (by simp) (by simp)

theorem MssOk.move (hm : Move a e e') (h : e.MssOk) : e'.MssOk := by
  cases hm with
  | setUserTimeout t => cases t <;> exact h.of_eq rfl rfl
  | connect ho _ =>
    rw [connect_eq (ho.imp And.left id)]
    exact h.of_eq (by simp [dialled]) (by simp [dialled])
  | startListening =>
    exact h.of_eq (by simp [TcpEngine.startListening]) (by simp [TcpEngine.startListening])
  | acceptSyn seg _ hs _ _ _ =>
    obtain ⟨m, hle, hpos, ht⟩ := acceptSyn_eq (e := e) seg hs
    have h1 := h.pos
    have h2 := h.le
    rw [ht]
    refine ⟨?_, ?_⟩
    · simp only [queueAndSend_tcb]
      exact hpos h1 (by omega)
    · simp only [queueAndSend_tcb, queueAndSend_conf]
      exact Nat.le_trans hle (by simp [listenTaken]; omega)
  | synEstablished seg => exact (takeSyn_mss seg h).of_eq (by simp) (by simp)
  | synReceived seg =>
    exact (takeSyn_mss seg h).of_eq (by simp [becomeSynReceived]) (by simp [becomeSynReceived])
  | completeOpen seg =>
    exact h.of_eq (by simp [TcpEngine.openCompleted]) (by simp [TcpEngine.openCompleted])
  | storeSynData seg =>
    have hf := storeOoo_frame e (add seg.seq 1) seg.payload { seg.flags with fin := false }
    exact h.of_eq hf.mss (by rw [hf.conf])
  | storeOoo seg n =>
    have hf := storeOoo_frame e seg.seq (seg.payload.take n) seg.flags
    exact h.of_eq hf.mss (by rw [hf.conf])
  | receive _ hr => exact h.of_eq hr.frame.mss (by rw [hr.frame.conf])
  | sendSynAck => exact h.of_eq (by simp [TcpEngine.sendSynAck]) (by simp [TcpEngine.sendSynAck])
  | sendKeepaliveProbe =>
    exact h.of_eq (by simp [TcpEngine.sendKeepaliveProbe]) (by simp [TcpEngine.sendKeepaliveProbe])
  | probe g => exact h.of_eq (by simp [TcpEngine.sendProbe]) (by simp [TcpEngine.sendProbe])
  | probeFin g =>
    obtain ⟨st, ht, -⟩ := sendFin_tcb (e := e.fire g)
    exact h.of_eq (by simp [ht]) (by simp)
  | sendFin =>
    obtain ⟨st, ht, -⟩ := sendFin_tcb (e := e)
    exact h.of_eq (by simp [ht]) (by simp)
  | finAckedTimeWait hs =>
    rw [enterTimeWait_eq (by simp [CanSend, hs])]
    exact h.of_eq (by simp) (by simp)
  | processFin =>
    obtain ⟨st, -, hf⟩ | ⟨-, hf⟩ := processFin_cases (e := e) <;> rw [hf] <;>
      exact h.of_eq (by simp) (by simp)
  | listenAgain hs hp =>
    rw [doReset_listen hs hp]
    exact h.of_eq (by simp [restorePort]) (by simp [restorePort])
  | close _ hb => exact enterClosed_mss hb h
  | abort _ hb => exact enterClosed_mss (sendRst_blocked hb) (h.of_eq (by simp) (by simp))
  | giveUp msg _ hb => exact giveUp_mss msg hb h
  | giveUpRto g c msg _ _ _ _ hb =>
    cases c with
    | true => exact giveUp_mss msg ((hb.fire g).of_view rfl) (h.of_eq (by simp) (by simp))
    | false => exact giveUp_mss msg (hb.fire g) (h.of_eq (by simp) (by simp))
  | timeWaitExpires g _ _ _ hb => exact enterClosed_mss (hb.fire g) (h.of_eq (by simp) (by simp))
  | _ => exact h.of_eq (by first | rfl | simp) (by first | rfl | simp)

/-! ## What a move does to the stream -/

/-- The connection is over, and this entry point begins no other. -/
structure Ended (a : Action) (e : TcpEngine) : Prop where
  closes : a.Closes
  idle : Idle [] e
  final : e.tcb.state = .closed ∨
    (e.tcb.state = .listen ∧ e.tm.persistTimer = none)

theorem Ended.outside (h : Ended a e) : e.Outside := by
  obtain h | ⟨h, -⟩ := h.final <;> simp [Outside, h]

theorem Ended.of_closed (hx : a.Closes) (hb : e'.buf = {}) (hf : e'.fin = e.fin.cleared)
    (hs : e'.tcb.state = .closed) : Ended a e' :=
  ⟨hx, ⟨by rw [hb], by rw [hb], by rw [hf]; rfl⟩, Or.inl hs⟩

theorem enterClosed_ended (hx : a.Closes) (hb : e.Blocked) : Ended a e.enterClosed :=
  .of_closed hx enterClosed_buf (enterClosed_fin hb) enterClosed_state

theorem giveUp_ended (msg : String) (hx : a.Closes) (hb : e.Blocked) : Ended a (e.giveUp msg) :=
  .of_closed hx (giveUp_buf msg) (giveUp_fin msg hb) (giveUp_state msg)

/-- Shutting down an engine that could not send arms nothing. -/
theorem enterClosed_persist (hb : e.Blocked) (ht : e.tm.Timely) (hs : ¬ e.CanSend) :
    e.enterClosed.tm.persistTimer = none :=
  (enterClosed_slots hb ht).2.2.mpr fun hst => hs hst.1

theorem giveUp_persist (msg : String) (hb : e.Blocked) (ht : e.tm.Timely) (hs : ¬ e.CanSend) :
    (e.giveUp msg).tm.persistTimer = none := by
  obtain ⟨f, hf, hfb, h⟩ := giveUp_closes msg hb
  rw [h]
  obtain rfl | rfl := hf
  · exact enterClosed_persist hfb ht hs
  · exact enterClosed_persist hfb (by simpa using ht) (by simpa [CanSend] using hs)

/-- A SYN taken in SYN-SENT, by whether it acknowledges ours. -/
theorem SendInv.takeSyn {seg : TcpSegment} (h : SendInv w k e) (hf : seg.Fits)
    (ht : e.TakesSyn seg) :
    (seg.ackFlag = true → ∃ r, seg.ack = seqAt e.tcb.iss r ∧ 0 < r ∧
      ∀ st, st ∉ [.synSent, .synReceived] → SendInv w r ((e.takeSyn seg).withState st)) ∧
    (seg.ackFlag = false → SendInv w k (e.takeSyn seg)) := by
  obtain ⟨hs, -, -, hack⟩ := ht
  have hi := h.iss
  obtain rfl : k = 0 := h.opening (by simp [hs])
  obtain ⟨m, -, -, hm⟩ := takeSyn_cases (e := e) seg
  constructor
  · intro ha
    obtain ⟨hgt, hle⟩ := hack ha
    rw [← seqAt_zero hi.1 hi.2] at hgt
    rw [h.nxt, Nat.zero_add] at hle
    obtain ⟨r, hr, hpos, hn, hlt⟩ := offset_of_ack hf.ack.1 hf.ack.2 (Nat.zero_le _) hgt hle
    refine ⟨r, hr, hpos, fun st hst => ?_⟩
    rw [hm, if_pos ha]
    exact h.ack (Nat.zero_le _) (by omega) (by omega) (by simp [withState])
      (by simp [withState, hr]) (by simp [withState]) (by simp [withState, hr])
      (by simp [withState]) (by simp [withState]) (by simp [withState])
        (by simpa [withState] using hst)
  · intro ha
    rw [hm, if_neg (by simp [ha])]
    exact h.of_core (by simp [sendCore]) (fun _ => rfl)

/-- Every move keeps the invariant, for an acknowledged prefix that may have grown,
or ends the connection. -/
theorem SendInv.move (hm : Move a e e') (hmss : e.MssOk) (ho : ¬ e.Outside) (h : SendInv w k e) :
    Ended a e' ∨ (¬ e'.Outside ∧ ∃ k', SendInv w k' e') := by
  cases hm with
  | connect hs _ =>
    exfalso
    rcases hs with ⟨hs, -⟩ | hs <;> simp [Outside, hs] at ho
  | startListening hs => exfalso; simp [Outside, hs] at ho
  | acceptSyn seg _ hs => exfalso; simp [Outside, hs] at ho
  | retransmit g o rest hl hcb hq =>
    refine Or.inr ⟨by simpa [Outside] using ho, k, ?_⟩
    have hsyms : (e.resent o).syms = o.syms := rfl
    have hfire : (((e.fire g).countRto).retransmitHead o rest).buf.retx = e.resent o :: rest := by
      simp [resent]
    constructor
    · simpa using h.iss
    · simpa using h.una
    · rw [hfire]
      have := h.nxt
      rw [hq] at this
      simpa [hsyms] using this
    · rw [hfire]
      have := h.tiles
      rw [hq] at this
      have hhead : Tiles e.tcb.iss k (e.resent o :: rest) := this.head rfl rfl
      simpa using hhead
    · rw [hfire]
      have := h.stream
      rw [hq] at this
      simpa [hsyms] using this
    · simpa using h.bound
    · simpa using h.finSeq
    · simpa using h.opening
  | sendChunk hs hb _ hu _ =>
    exact Or.inr ⟨by simpa [Outside] using ho, k, h.sendChunk hmss.pos hb hu⟩
  | probe g _ _ _ _ hb =>
    exact Or.inr ⟨by simpa [Outside, sendProbe] using ho, k, h.probe g hb⟩
  | sendFin _ hd _ _ =>
    refine Or.inr ⟨?_, k, h.sendFin hd⟩
    obtain ⟨st, ht, hst⟩ := sendFin_tcb (e := e)
    rw [Outside, ht]
    rcases hst with ⟨-, rfl⟩ | ⟨-, rfl⟩ | ⟨-, rfl⟩ | ⟨-, rfl⟩
    · simp
    · simp
    · simp
    · exact ho
  | probeFin g _ _ _ _ hd =>
    have hf : SendInv w k (e.fire g) := h.of_core (by simp [sendCore]) (by simpa using h.opening)
    have hfin := hf.sendFin (by simpa [FinDue] using hd)
    refine Or.inr ⟨?_, k, hfin.of_core rfl hfin.opening⟩
    obtain ⟨st, ht, hst⟩ := sendFin_tcb (e := e.fire g)
    rw [Outside, rearmPersist_tcb, ht]
    rcases hst with ⟨-, rfl⟩ | ⟨-, rfl⟩ | ⟨-, rfl⟩ | ⟨-, rfl⟩
    · simp
    · simp
    · simp
    · simpa [Outside] using ho
  | processAck seg hc hs hack hn =>
    obtain ⟨r, -, hr⟩ := h.processAck hc.fits.ack.1 hc.fits.ack.2 hs hn
    exact Or.inr ⟨by simpa [Outside] using ho, r, hr⟩
  | setSendWindow seg _ hs =>
    exact Or.inr ⟨by simpa [Outside] using ho, k, h.of_core (by simp [sendCore]) h.opening⟩
  | completeOpen seg hc hx =>
    obtain ⟨r, -, -, hr⟩ := h.openCompleted hc.fits hx
    exact Or.inr ⟨by simp [Outside, TcpEngine.openCompleted], r, hr⟩
  | synEstablished seg hc ht hu =>
    have hi := h.iss
    obtain ⟨h1, h2⟩ := h.takeSyn hc.fits ht
    refine Or.inr ⟨by simp [Outside], ?_⟩
    cases ha : seg.ackFlag with
    | true =>
      obtain ⟨r, -, -, hr⟩ := h1 ha
      refine ⟨r, (hr .established (by simp)).of_core (by simp [sendCore, withState]) (by simp)⟩
    | false =>
      obtain rfl : k = 0 := h.opening (by simp [ht.1])
      have hz := (h2 ha).una
      rw [hz] at hu
      obtain ⟨m, -, -, hm⟩ := takeSyn_cases (e := e) seg
      have hiss : (e.takeSyn seg).tcb.iss = e.tcb.iss := by
        rw [hm, if_neg (by simp [ha])]
        rfl
      rw [hiss, seqAt_zero hi.1 hi.2, seqGt_iff] at hu
      simp at hu
  | synReceived seg hc ht hu =>
    obtain ⟨-, h2⟩ := h.takeSyn hc.fits ht
    have hz : k = 0 := h.opening (by simp [ht.1])
    have hack : seg.ackFlag = false := by
      by_contra ha
      rw [Bool.not_eq_false] at ha
      obtain ⟨m, -, -, hm⟩ := takeSyn_cases (e := e) seg
      have hgt := (ht.2.2.2 ha).1
      rw [hm, if_pos ha] at hu
      simp [hgt] at hu
    have h3 := h2 hack
    refine Or.inr ⟨by simp [Outside, becomeSynReceived], k, ?_⟩
    constructor
    · simpa [becomeSynReceived] using h3.iss
    · simpa [becomeSynReceived] using h3.una
    · simpa [becomeSynReceived] using h3.nxt
    · simpa [becomeSynReceived] using h3.tiles.ackHeadSyn
    · simpa [becomeSynReceived] using h3.stream
    · simpa [becomeSynReceived] using h3.bound
    · simpa [becomeSynReceived] using h3.finSeq
    · exact fun _ => hz
  | storeSynData seg =>
    have hf := storeOoo_frame e (add seg.seq 1) seg.payload { seg.flags with fin := false }
    exact Or.inr ⟨by rw [Outside, hf.state]; exact ho, k,
      h.of_core hf.core (by rw [hf.state]; exact h.opening)⟩
  | storeOoo seg n =>
    have hf := storeOoo_frame e seg.seq (seg.payload.take n) seg.flags
    exact Or.inr ⟨by rw [Outside, hf.state]; exact ho, k,
      h.of_core hf.core (by rw [hf.state]; exact h.opening)⟩
  | receive _ hr =>
    exact Or.inr ⟨by rw [Outside, hr.frame.state]; exact ho, k,
      h.of_core hr.frame.core (by rw [hr.frame.state]; exact h.opening)⟩
  | finAckedWait => exact Or.inr ⟨by simp [Outside], k, h.of_core (by simp [sendCore]) (by simp)⟩
  | finAckedTimeWait hs =>
    rw [enterTimeWait_eq (by simp [CanSend, hs])]
    exact Or.inr ⟨by simp [Outside], k, h.of_core (by simp [sendCore]) (by simp)⟩
  | processFin hs =>
    obtain ⟨st, hst, hf⟩ | ⟨-, hf⟩ := processFin_cases (e := e)
    · rw [hf]
      refine Or.inr ⟨?_, k, h.of_core (by simp [sendCore]) ?_⟩
      · rcases hst with ⟨-, rfl⟩ | ⟨-, rfl⟩ | ⟨-, rfl⟩
        · simp [Outside]
        · simp [Outside]
        · simpa [Outside] using ho
      · rcases hst with ⟨-, rfl⟩ | ⟨-, rfl⟩ | ⟨-, rfl⟩
        · simp
        · simp
        · simpa using h.opening
    · rw [hf]
      exact Or.inr ⟨by simp [Outside], k, h.of_core (by simp [sendCore]) (by simp)⟩
  | listenAgain hs hp hr =>
    obtain ⟨seg, hc, hrst, -⟩ := hr
    refine Or.inl ⟨hc.closes_iff.mpr (Or.inl hrst), ?_, Or.inr ?_⟩
    · rw [doReset_listen hs hp]
      exact ⟨by simp [restorePort], by simp [restorePort],
        by simp [restorePort, CloseState.cleared]⟩
    · rw [doReset_listen hs hp]
      exact ⟨by simp [restorePort], rfl⟩
  | close hx hb => exact Or.inl (enterClosed_ended hx hb)
  | abort hx hb =>
    exact Or.inl
      (.of_closed hx enterClosed_buf (enterClosed_fin (sendRst_blocked hb)) enterClosed_state)
  | giveUp msg hx hb => exact Or.inl (giveUp_ended msg hx hb)
  | giveUpRto g c msg hx _ _ _ hb =>
    cases c with
    | true => exact Or.inl (giveUp_ended msg hx ((hb.fire g).of_view rfl))
    | false => exact Or.inl (giveUp_ended msg hx (hb.fire g))
  | timeWaitExpires g hx _ _ hb => exact Or.inl (enterClosed_ended hx (hb.fire g))
  | sendSynAck =>
    exact Or.inr ⟨by simpa [Outside, TcpEngine.sendSynAck] using ho, k,
      h.of_core (by simp [sendCore, TcpEngine.sendSynAck])
        (by simpa [TcpEngine.sendSynAck] using h.opening)⟩
  | sendKeepaliveProbe =>
    exact Or.inr ⟨by simpa [Outside, TcpEngine.sendKeepaliveProbe] using ho, k,
      h.of_core (by simp [sendCore, TcpEngine.sendKeepaliveProbe])
        (by simpa [TcpEngine.sendKeepaliveProbe] using h.opening)⟩
  | _ => exact Or.inr ⟨by first | exact ho | simpa [Outside] using ho, k,
      h.of_core (by first | rfl | simp [sendCore])
        (by first | exact h.opening | simpa using h.opening)⟩

theorem Outside.cases (h : e.Outside) : e.tcb.state = .closed ∨ e.tcb.state = .listen := by
  simpa [Outside] using h

/-- Without a connection a move leaves the engine idle or opens a connection. -/
theorem Idle.move (hm : Move a e e') (hc : Coherent e.ctl) (ht : e.TimerInv) (ho : e.Outside)
    (hw : w = [] ∨ e.tm.persistTimer = none ∨ ∀ g, a = .expire g → g.cb ≠ .onPersist)
    (h : Idle w e) :
    (e'.Outside ∧ (e.tm.persistTimer = none → e'.tm.persistTimer = none) ∧
      (Idle w e' ∨ Ended a e')) ∨ (¬ e'.Outside ∧ SendInv w 0 e') := by
  have hs := ho.cases
  have hfin : e.fin.finPending = false := hc.idle (by rcases hs with hs | hs <;> simp [ctl, hs])
  have hsend : ¬ e.CanSend := by
    rcases hs with hs | hs <;> simp [CanSend, hs]
  cases hm with
  | connect hx _ =>
    refine Or.inr ⟨?_, h.connect (hx.imp And.left id)⟩
    rw [connect_eq (hx.imp And.left id)]
    simp [Outside, dialled]
  | acceptSyn seg _ hl =>
    refine Or.inr ⟨?_, h.acceptSyn seg hl⟩
    obtain ⟨m, -, -, hm⟩ := acceptSyn_eq (e := e) seg hl
    rw [hm]
    simp [Outside, listenTaken, listenTcb]
  | startListening =>
    refine Or.inl ⟨by simp [Outside, TcpEngine.startListening], ?_, Or.inl ⟨?_, ?_, ?_⟩⟩
    · simp [TcpEngine.startListening]
    · simpa [TcpEngine.startListening] using h.retx
    · simpa [TcpEngine.startListening] using h.appBuf
    · simpa [TcpEngine.startListening] using h.finSent
  | close hx hb =>
    have := enterClosed_ended hx hb
    exact Or.inl ⟨this.outside, fun _ => enterClosed_persist hb ht.timely hsend, Or.inr this⟩
  | giveUp msg hx hb =>
    have := giveUp_ended msg hx hb
    exact Or.inl ⟨this.outside, fun _ => giveUp_persist msg hb ht.timely hsend, Or.inr this⟩
  | timeWaitExpires g hx hl _ hb =>
    have := enterClosed_ended hx (hb.fire g)
    refine Or.inl ⟨this.outside, fun _ => ?_, Or.inr this⟩
    exact enterClosed_persist (hb.fire g) ((fire_retimes hl).timely ht.timely)
      (by simpa [CanSend] using hsend)
  | giveUpRto g c msg hx _ _ hr _ => exact absurd h.retx hr
  | retransmit g o rest _ _ hq =>
    rw [h.retx] at hq
    cases hq
  | probe g ha hl hcb _ hb =>
    exfalso
    rcases hw with rfl | hp | hn
    · exact hb h.appBuf
    · have hs := ht.timely.held g hl
      rw [hcb] at hs
      exact absurd (hs.symm.trans hp) (by simp)
    · exact hn g ha hcb
  | probeFin g _ _ _ _ hd => rw [hd.1] at hfin; cases hfin
  | sendFin hx => exact absurd hx hsend
  | armPersist hx => exact absurd hx.1 hsend
  | sendChunk hx => exact absurd (hx.elim Or.inl fun h => Or.inr (Or.inl h)) hsend
  | abort _ _ hx => exfalso; rcases hs with hs | hs <;> rw [hs] at hx <;> simp at hx
  | requestFin hx => exfalso; rcases hs with hs | hs <;> rw [hs] at hx <;> simp at hx
  | restartKeepalive b hx => exfalso; rcases hs with hs | hs <;> rw [hs] at hx <;> cases hx
  | restartTimeWait seg _ _ hx => exfalso; rcases hs with hs | hs <;> rw [hs] at hx <;> cases hx
  | scheduleAck f hx => exfalso; rcases hs with hs | hs <;> rw [hs] at hx <;> simp at hx
  | sendSynAck hx => exfalso; rcases hs with hs | hs <;> rw [hs] at hx <;> cases hx
  | sendKeepaliveProbe hx => exfalso; rcases hs with hs | hs <;> rw [hs] at hx <;> cases hx
  | processAck seg _ hx => exfalso; rcases hs with hs | hs <;> rw [hs] at hx <;> simp at hx
  | setSendWindow seg _ hx => exfalso; rcases hs with hs | hs <;> rw [hs] at hx <;> simp at hx
  | completeOpen seg _ hx => exfalso; rcases hs with hs | hs <;> simp [CompletesOpen, hs] at hx
  | synEstablished seg _ hx => exfalso; rcases hs with hs | hs <;> simp [TakesSyn, hs] at hx
  | synReceived seg _ hx => exfalso; rcases hs with hs | hs <;> simp [TakesSyn, hs] at hx
  | storeSynData seg _ hx => exfalso; rcases hs with hs | hs <;> rw [hs] at hx <;> cases hx
  | deferSynFin seg _ hx => exfalso; rcases hs with hs | hs <;> rw [hs] at hx <;> cases hx
  | finAckedWait hx => exfalso; rcases hs with hs | hs <;> rw [hs] at hx <;> cases hx
  | finAckedTimeWait hx => exfalso; rcases hs with hs | hs <;> rw [hs] at hx <;> cases hx
  | processFin hx => exfalso; rcases hs with hs | hs <;> rw [hs] at hx <;> simp at hx
  | listenAgain hx => exfalso; rcases hs with hs | hs <;> rw [hs] at hx <;> cases hx
  | storeOoo seg n _ hx => exfalso; rcases hs with hs | hs <;> rw [hs] at hx <;> simp at hx
  | deferFin seg _ hx => exfalso; rcases hs with hs | hs <;> rw [hs] at hx <;> simp at hx
  | receive _ hr =>
    have hf := hr.frame
    exact Or.inl ⟨by rw [Outside, hf.state]; exact ho, fun hp => by rw [hf.persistTimer, hp],
      Or.inl ⟨hf.retx.trans h.retx, hf.appBuf.trans h.appBuf, by rw [hf.fin]; exact h.finSent⟩⟩
  | fire g hl hcb =>
    refine Or.inl ⟨by simpa [Outside] using ho, fun hp => ?_, Or.inl ⟨?_, ?_, ?_⟩⟩
    rotate_left
    · simpa using h.retx
    · simpa using h.appBuf
    · simpa using h.finSent
    · have hf := (fire_retimes hl).other ht.timely
      by_cases hg : g.cb = .onPersist
      · have := ht.timely.held g hl
        rw [hg] at this
        exact absurd (this.symm.trans hp) (by simp)
      · exact (hf .onPersist (by simpa using Ne.symm hg)).trans hp
  | _ =>
    refine Or.inl ⟨by first | exact ho | simpa [Outside] using ho, ?_, Or.inl ⟨?_, ?_, ?_⟩⟩
    · first | exact id | simp | exact fun _ => rfl
    · first | exact h.retx | simpa using h.retx
    · first | exact h.appBuf | simpa using h.appBuf
    · first | exact h.finSent | simpa using h.finSent

theorem Ended.move (hm : Move a e e') (hc : Coherent e.ctl) (ht : e.TimerInv) (h : Ended a e) :
    Ended a e' := by
  have hctl := hm.control
  have ho' : e'.Outside := by
    by_contra hn
    exact (hctl.begins h.outside hn).1 h.closes
  rcases h.idle.move hm hc ht h.outside (Or.inl rfl) with ⟨-, hp, hi | he⟩ | ⟨hn, -⟩
  · refine ⟨h.closes, hi, ?_⟩
    rcases ho'.cases with hs | hs
    · exact Or.inl hs
    · rcases h.final with hf | ⟨-, hn⟩
      · exact absurd h.closes (hctl.listens hf hs).not_closes
      · exact Or.inr ⟨hs, hp hn⟩
  · exact he
  · exact absurd ho' hn

/-- Where the send side stands inside an entry point that began without a
connection if `fresh`, and with `w` written to it so far. -/
def Stage (fresh : Prop) (a : Action) (w : List UInt8) (e : TcpEngine) : Prop :=
  (e.Outside ∧ (fresh ∧ Idle w e ∧ e.tm.persistTimer = none ∨ Ended a e)) ∨
    (¬ e.Outside ∧ ∃ k, SendInv w k e)

theorem Stage.move {fresh : Prop} (hm : Move a e e') (hc : Coherent e.ctl) (ht : e.TimerInv)
    (hmss : e.MssOk) (h : Stage fresh a w e) : Stage fresh a w e' := by
  rcases h with ⟨ho, ⟨hf, hi, hp⟩ | he⟩ | ⟨ho, k, hk⟩
  · rcases hi.move hm hc ht ho (Or.inr (Or.inl hp)) with ⟨ho', hp', hi' | he'⟩ | ⟨ho', hs⟩
    · exact Or.inl ⟨ho', Or.inl ⟨hf, hi', hp' hp⟩⟩
    · exact Or.inl ⟨ho', Or.inr he'⟩
    · exact Or.inr ⟨ho', 0, hs⟩
  · have he' := he.move hm hc ht
    exact Or.inl ⟨he'.outside, Or.inr he'⟩
  · rcases hk.move hm hmss ho with he' | hs
    · exact Or.inl ⟨he'.outside, Or.inr he'⟩
    · exact Or.inr hs

end TcpEngine

end HdlPlayground.Tcp

import HdlPlayground.Tcp.FinAck
import HdlPlayground.Tcp.SenderSteps

/-!
# What is in flight

An engine may be opened any number of times, and a timer of one connection may
fire in the next; so what is in flight is counted from the sequence variables alone.
The numbers between SND.UNA and SND.NXT never exceed what has been buffered, and as
long as all of it fits in the sequence space SND.NXT does not come round to SND.UNA.
-/
namespace HdlPlayground.Tcp

namespace TcpEngine

variable {a : Action} {e e' : TcpEngine}

/-! ## How far the send side is ahead -/

/-- The numbers sent and not acknowledged. -/
def span (e : TcpEngine) : Nat := (sub e.tcb.sndNxt e.tcb.sndUna).toNat

/-- The numbers that a connection has, or will have, in flight at most: those sent,
the buffered bytes, and the FIN. A connection still to be opened has its SYN. -/
def backlog (e : TcpEngine) : Nat :=
  (if e.Outside then 1 else e.span) + e.buf.appBuf.length + (!e.fin.finSent).toNat

/-- The sequence variables agree with one another. -/
structure Spanned (e : TcpEngine) : Prop where
  una : 0 ≤ e.tcb.sndUna ∧ e.tcb.sndUna < 4294967296
  nxt : 0 ≤ e.tcb.sndNxt ∧ e.tcb.sndNxt < 4294967296
  fin : e.fin.finSent = true → e.tcb.sndNxt = add e.fin.finSeq 1
  empty : e.fin.finSent = true → e.buf.appBuf = []
  opening : e.tcb.state ∈ [.synSent, .synReceived] →
    e.tcb.sndUna = e.tcb.iss ∧ e.tcb.sndNxt ≠ e.tcb.sndUna

/-- What is in flight or buffered fits in the sequence space, its FIN included. -/
def Roomy (e : TcpEngine) : Prop := e.backlog < 4294967296

theorem span_eq (h : e.Spanned) : e.tcb.sndNxt = seqAt e.tcb.sndUna e.span := by
  have h1 := h.una
  have h2 := h.nxt
  simp only [span, sub_def, seqAt]
  omega

theorem span_of_nxt {n : Nat} (h : e.Spanned) (hn : e.span + n < 4294967296)
    (h1 : e'.tcb.sndUna = e.tcb.sndUna) (h2 : e'.tcb.sndNxt = add e.tcb.sndNxt n) :
    e'.span = e.span + n := by
  have h3 := h.una
  have h4 := h.nxt
  simp only [span, sub_def, add_def, h1, h2] at hn ⊢
  omega

theorem span_of_una {r : Nat} (h : e.Spanned) (hr : r ≤ e.span)
    (h1 : e'.tcb.sndUna = seqAt e.tcb.sndUna r) (h2 : e'.tcb.sndNxt = e.tcb.sndNxt) :
    e'.span = e.span - r := by
  have h3 := h.una
  have h4 := h.nxt
  simp only [span, sub_def, seqAt, h1, h2] at hr ⊢
  omega

theorem Spanned.finNear (h : e.Spanned) (hr : e.Roomy) (hc : Coherent e.ctl) : FinNear e := by
  have h1 := h.una
  have h2 := h.nxt
  constructor
  · intro hd hcon
    have ho : ¬ e.Outside := by
      intro ho
      have hp : e.fin.finPending = false :=
        hc.idle (by rcases ho.cases with ho | ho <;> simp [ctl, ho])
      rw [hd.1] at hp
      cases hp
    rw [Roomy, backlog, if_neg ho, hd.2.1] at hr
    simp only [span, sub_def, add_def] at hr hcon
    simp at hr
    omega
  · exact finNear_ack h.fin

/-! ## What a move does to it -/

/-- A move that leaves the send side as it is. -/
theorem Spanned.same (h : e.Spanned) (h1 : e'.tcb.iss = e.tcb.iss)
    (h2 : e'.tcb.sndUna = e.tcb.sndUna) (h3 : e'.tcb.sndNxt = e.tcb.sndNxt)
    (h4 : e'.buf.appBuf = e.buf.appBuf) (h5 : e'.fin.finSent = e.fin.finSent)
    (h6 : e'.fin.finSeq = e.fin.finSeq)
    (h7 : e'.tcb.state = e.tcb.state ∨ ¬ e.Outside ∧ e'.tcb.state ∈ .timeWait :: OpenStates) :
    e'.Spanned ∧ e'.backlog ≤ max e.backlog 2 := by
  have hopen : e'.tcb.state ∈ [.synSent, .synReceived] →
      e.tcb.state ∈ [.synSent, .synReceived] := by
    intro hs
    rcases h7 with h7 | ⟨-, h7⟩
    · rw [← h7]
      exact hs
    · rcases List.mem_pair.mp hs with hs | hs
      · rw [hs] at h7
        simp at h7
      · rw [hs] at h7
        simp at h7
  have hout : e'.Outside ↔ e.Outside := by
    rcases h7 with h7 | ⟨hn, h7⟩
    · rw [Outside, Outside, h7]
    · refine iff_of_false (fun hs => ?_) hn
      rcases hs.cases with hs | hs
      · rw [hs] at h7
        simp at h7
      · rw [hs] at h7
        simp at h7
  refine ⟨⟨?_, ?_, ?_, ?_, ?_⟩, ?_⟩
  · rw [h2]; exact h.una
  · rw [h3]; exact h.nxt
  · rw [h3, h5, h6]; exact h.fin
  · rw [h4, h5]; exact h.empty
  · rw [h1, h2, h3]; exact fun hs => h.opening (hopen hs)
  · simp only [backlog, span, h2, h3, h4, h5, hout]
    exact Nat.le_max_left _ _

/-- A move that ends the connection. -/
theorem Ended.spanned (h : Ended a e') (hs : e.Spanned) (h1 : e'.tcb.sndUna = e.tcb.sndUna)
    (h2 : e'.tcb.sndNxt = e.tcb.sndNxt) : e'.Spanned ∧ e'.backlog ≤ max e.backlog 2 := by
  refine ⟨⟨?_, ?_, fun hf => ?_, fun _ => h.idle.appBuf, fun hs => ?_⟩, ?_⟩
  · rw [h1]
    exact hs.una
  · rw [h2]
    exact hs.nxt
  · rw [h.idle.finSent] at hf
    cases hf
  · rcases h.outside.cases with ho | ho
    · rw [ho] at hs
      simp at hs
    · rw [ho] at hs
      simp at hs
  · rw [backlog, if_pos h.outside, h.idle.appBuf, h.idle.finSent]
    exact Nat.le_max_right _ _

/-- The SYN goes out. -/
theorem opened_spanned (f : TcpEngine) (flags : Flags) (hns : f.fin.finSent = false)
    (hfl : flags.syn = true ∧ flags.fin = false) (hu : f.tcb.sndUna = f.tcb.iss)
    (hn : f.tcb.sndNxt = f.tcb.iss) (hi : 0 ≤ f.tcb.iss ∧ f.tcb.iss < 4294967296)
    (ho : ¬ f.Outside) :
    (f.queueAndSend flags [] true).Spanned ∧
      (f.queueAndSend flags [] true).backlog = f.buf.appBuf.length + 2 := by
  have hl : (f.outgoing flags []).segLen = 1 := by simp [Outgoing.segLen, hfl.1, hfl.2]
  have hend : (f.outgoing flags []).endSeq = add f.tcb.iss 1 := by
    rw [Outgoing.endSeq, hl]
    simp [hn]
  have hadd := add_def f.tcb.iss 1
  constructor
  · constructor
    · simpa [hu] using hi
    · simp only [queueAndSend_tcb, hend]
      omega
    · simp [hns]
    · simp [hns]
    · intro _
      simp only [queueAndSend_tcb, hend, hu]
      refine ⟨trivial, ?_⟩
      omega
  · have ho' : ¬ (f.queueAndSend flags [] true).Outside := by simpa [Outside] using ho
    have hspan : (f.queueAndSend flags [] true).span = 1 := by
      simp only [span, queueAndSend_tcb, hend, hu, sub_def, hadd]
      omega
    rw [backlog, if_neg ho', hspan]
    simp [hns]
    omega

/-- `n` more numbers are in flight. -/
theorem Spanned.queued {n : Nat} (h : e.Spanned) (hn : e.span + n < 4294967296)
    (h1 : e'.tcb.sndUna = e.tcb.sndUna) (h2 : e'.tcb.sndNxt = add e.tcb.sndNxt n)
    (h3 : e'.fin.finSent = true → e'.tcb.sndNxt = add e'.fin.finSeq 1 ∧ e'.buf.appBuf = [])
    (h4 : e'.tcb.iss = e.tcb.iss)
    (h5 : e'.tcb.state ∈ [.synSent, .synReceived] → e.tcb.state ∈ [.synSent, .synReceived]) :
    e'.Spanned ∧ e'.span = e.span + n := by
  have hspan := span_of_nxt h hn h1 h2
  have hr : 0 ≤ e'.tcb.sndNxt ∧ e'.tcb.sndNxt < 4294967296 := by
    rw [h2, add_def]
    omega
  refine ⟨⟨?_, hr, fun hf => (h3 hf).1, fun hf => (h3 hf).2, fun hs => ?_⟩, hspan⟩
  · rw [h1]
    exact h.una
  · obtain ⟨hu, hne⟩ := h.opening (h5 hs)
    refine ⟨by rw [h1, h4, hu], fun hx => hne ?_⟩
    have h6 := h.una
    have h7 := h.nxt
    simp only [span, hx, sub_def] at hspan
    omega

/-- An acknowledgement between SND.UNA and SND.NXT. -/
theorem Spanned.acked {r : Nat} (h : e.Spanned) (hr : r ≤ e.span)
    (h1 : e'.tcb.sndUna = seqAt e.tcb.sndUna r) (h2 : e'.tcb.sndNxt = e.tcb.sndNxt)
    (h3 : e'.buf.appBuf = e.buf.appBuf) (h4 : e'.fin.finSent = e.fin.finSent)
    (h5 : e'.fin.finSeq = e.fin.finSeq) (h6 : e'.tcb.state ∉ [.synSent, .synReceived])
    (ho : ¬ e.Outside) (ho' : ¬ e'.Outside) : e'.Spanned ∧ e'.backlog ≤ max e.backlog 2 := by
  have hspan := span_of_una h hr h1 h2
  refine ⟨⟨?_, ?_, ?_, ?_, fun hs => absurd hs h6⟩, ?_⟩
  · rw [h1]
    exact ⟨seqAt_nonneg _ _, seqAt_lt _ _⟩
  · rw [h2]
    exact h.nxt
  · rw [h2, h4, h5]
    exact h.fin
  · rw [h3, h4]
    exact h.empty
  · rw [backlog, backlog, if_neg ho, if_neg ho', hspan, h3, h4]
    omega

/-- Where an acknowledgement of something new stands. -/
theorem Spanned.offset {ack : Int} (h : e.Spanned) (h0 : 0 ≤ ack) (h1 : ack < 4294967296)
    (hn : e.AcksNew ack) : ∃ r, ack = seqAt e.tcb.sndUna r ∧ r ≤ e.span := by
  obtain ⟨hgt, hle⟩ := hn
  have hu : e.tcb.sndUna = seqAt e.tcb.sndUna 0 := (seqAt_zero h.una.1 h.una.2).symm
  rw [span_eq h] at hle
  rw [hu] at hgt
  obtain ⟨r, hr, -, hle, -⟩ := offset_of_ack h0 h1 (Nat.zero_le _) hgt hle
  exact ⟨r, hr, hle⟩

theorem Spanned.sendFin (h : e.Spanned) (hr : e.Roomy) (hd : e.FinDue) (ho : ¬ e.Outside) :
    e.sendFin.Spanned ∧ e.sendFin.backlog ≤ max e.backlog 2 := by
  obtain ⟨-, hns, hb⟩ := hd
  obtain ⟨st, ht, hst⟩ := sendFin_tcb (e := e)
  have hend : (e.outgoing { ack := true, fin := true } []).endSeq = add e.tcb.sndNxt (1 : Nat) := by
    simp [Outgoing.endSeq, Outgoing.segLen]
  have hst' : e.sendFin.tcb.state ∈ [.synSent, .synReceived] →
      e.tcb.state ∈ [.synSent, .synReceived] := by
    rw [ht]
    dsimp only
    rcases hst with ⟨-, rfl⟩ | ⟨-, rfl⟩ | ⟨-, rfl⟩ | ⟨-, rfl⟩
    · simp
    · simp
    · simp
    · exact id
  have ho' : ¬ e.sendFin.Outside := by
    rw [Outside, ht]
    rcases hst with ⟨-, rfl⟩ | ⟨-, rfl⟩ | ⟨-, rfl⟩ | ⟨-, rfl⟩
    · simp
    · simp
    · simp
    · exact ho
  rw [Roomy, backlog, if_neg ho, hns, Bool.not_false, Bool.toNat_true] at hr
  obtain ⟨h1, h2⟩ : e.sendFin.Spanned ∧ e.sendFin.span = e.span + 1 :=
    h.queued (by omega) (by simp [ht]) (by rw [ht]; exact hend)
      (fun _ => ⟨by rw [ht, sendFin_fin]; exact hend, by simp [hb]⟩) (by simp [ht]) hst'
  refine ⟨h1, ?_⟩
  rw [backlog, backlog, if_neg ho, if_neg ho', h2, hns]
  simp [hb]

/-- Octets move from the buffer to the queue. -/
theorem Spanned.dataQueued {n : Nat} (flags : Flags) (h : e.Spanned) (hr : e.Roomy)
    (hne : e.buf.appBuf ≠ []) (hlen : n ≤ e.buf.appBuf.length) (ho : ¬ e.Outside)
    (hfl : flags.syn = false ∧ flags.fin = false) (m : Bool) (urg : Nat)
    (ht : e'.tcb = ((e.takeChunk n).queueAndSend flags (e.buf.appBuf.take n) m urg).tcb)
    (hb : e'.buf = ((e.takeChunk n).queueAndSend flags (e.buf.appBuf.take n) m urg).buf)
    (hf : e'.fin = e.fin) : e'.Spanned ∧ e'.backlog ≤ max e.backlog 2 := by
  have hns : e.fin.finSent = false := by
    cases hx : e.fin.finSent with
    | false => rfl
    | true => exact absurd (h.empty hx) hne
  have hend : ((e.takeChunk n).outgoing flags (e.buf.appBuf.take n)).endSeq =
      add e.tcb.sndNxt n := by
    have hl : ((e.takeChunk n).outgoing flags (e.buf.appBuf.take n)).segLen = n := by
      simp [Outgoing.segLen, hfl.1, hfl.2, hlen]
    rw [Outgoing.endSeq, hl]
    rfl
  have hst : e'.tcb.state = e.tcb.state := by rw [ht]; simp
  have ho' : ¬ e'.Outside := by
    rw [Outside, hst]
    exact ho
  rw [Roomy, backlog, if_neg ho] at hr
  obtain ⟨h1, h2⟩ : e'.Spanned ∧ e'.span = e.span + n :=
    h.queued (by omega) (by simp [ht]) (by rw [ht]; simpa using hend)
      (by simp [hf, hns]) (by simp [ht]) (by rw [hst]; exact id)
  refine ⟨h1, ?_⟩
  rw [backlog, backlog, if_neg ho, if_neg ho', h2, hf, hb]
  simp
  omega

/-- The SYN taken in SYN-SENT. -/
theorem Spanned.takeSyn {seg : TcpSegment} (st : ConnState) (h : e.Spanned) (hf : seg.Fits)
    (ht : e.TakesSyn seg) (hc : Coherent e.ctl) (hiss : e'.tcb.iss = (e.takeSyn seg).tcb.iss)
    (h1 : e'.tcb.sndUna = (e.takeSyn seg).tcb.sndUna)
    (h2 : e'.tcb.sndNxt = (e.takeSyn seg).tcb.sndNxt)
    (h3 : e'.buf.appBuf = (e.takeSyn seg).buf.appBuf)
    (h4 : e'.fin.finSent = (e.takeSyn seg).fin.finSent)
    (hst : e'.tcb.state = st)
    (hend : st = .established ∨ st = .synReceived ∧ seg.ackFlag = false) :
    e'.Spanned ∧ e'.backlog ≤ max e.backlog 2 := by
  obtain ⟨hs, -, -, hack⟩ := ht
  have hns := unsent_of_state hc (by simp [hs])
  have ho : ¬ e.Outside := by simp [Outside, hs]
  have ho' : ¬ e'.Outside := by
    rw [Outside, hst]
    rcases hend with rfl | ⟨rfl, -⟩ <;> simp
  obtain ⟨b, hfin⟩ := takeSyn_fin (e := e) seg
  have hns' : e'.fin.finSent = false := by rw [h4, hfin, hns]
  obtain ⟨hu, hne⟩ := h.opening (by simp [hs])
  obtain ⟨m, -, -, hm⟩ := takeSyn_cases (e := e) seg
  have hn : e'.tcb.sndNxt = e.tcb.sndNxt := by
    rw [h2, hm]
    dsimp only
    split <;> simp
  have hb : e'.buf.appBuf = e.buf.appBuf := by
    rw [h3, hm]
    dsimp only
    split <;> simp
  have hi : e'.tcb.iss = e.tcb.iss := by
    rw [hiss, hm]
    dsimp only
    split <;> simp
  have hgoal (hx : 0 ≤ e'.tcb.sndUna ∧ e'.tcb.sndUna < 4294967296) (hy : e'.span ≤ e.span)
      (hz : st = .synReceived → e'.tcb.sndUna = e.tcb.sndUna) :
      e'.Spanned ∧ e'.backlog ≤ max e.backlog 2 := by
    refine ⟨⟨hx, by rw [hn]; exact h.nxt, by simp [hns'], by simp [hns'], fun hm => ?_⟩, ?_⟩
    · rcases hend with rfl | ⟨rfl, -⟩
      · rw [hst] at hm
        simp at hm
      · rw [hi, hn, hz rfl]
        exact ⟨hu, hne⟩
    · rw [backlog, backlog, if_neg ho, if_neg ho', hb, hns, hns']
      omega
  cases ha : seg.ackFlag with
  | true =>
    obtain ⟨hgt, hle⟩ := hack ha
    obtain ⟨r, hr, hle⟩ := h.offset hf.ack.1 hf.ack.2 ⟨by rw [hu]; exact hgt, hle⟩
    have hu' : e'.tcb.sndUna = seqAt e.tcb.sndUna r := by
      rw [h1, hm, if_pos ha, hr]
      simp
    refine hgoal ?_ ?_ ?_
    · rw [hu']
      exact ⟨seqAt_nonneg _ _, seqAt_lt _ _⟩
    · rw [span_of_una h hle hu' hn]
      omega
    · intro hx
      rcases hend with hs | ⟨-, hf⟩
      · rw [hs] at hx
        cases hx
      · rw [ha] at hf
        cases hf
  | false =>
    have hu' : e'.tcb.sndUna = e.tcb.sndUna := by
      rw [h1, hm, if_neg (by simp [ha])]
      simp
    refine hgoal ?_ ?_ fun _ => hu'
    · rw [hu']
      exact h.una
    · rw [span, span, hu', hn]

theorem Spanned.move (hm : Move a e e') (hc : Coherent e.ctl) (h : e.Spanned) (hr : e.Roomy) :
    e'.Spanned ∧ e'.backlog ≤ max e.backlog 2 := by
  cases hm with
  | connect hs _ =>
    have hs' := hs.imp And.left id
    have hns := unsent_of_state hc (by rcases hs' with hs' | hs' <;> simp [hs'])
    have ho : e.Outside := by rcases hs' with hs' | hs' <;> simp [Outside, hs']
    obtain ⟨h1, h2⟩ := opened_spanned e.dialled { syn := true } hns ⟨rfl, rfl⟩ rfl rfl
      e.newIss_range (by simp [Outside, dialled])
    rw [connect_eq hs']
    refine ⟨h1, h2.le.trans ?_⟩
    rw [backlog, if_pos ho, hns, Bool.not_false, Bool.toNat_true,
      show e.dialled.buf.appBuf = e.buf.appBuf from rfl]
    omega
  | acceptSyn seg _ hs =>
    have hns := unsent_of_state hc (by simp [hs])
    have ho : e.Outside := by simp [Outside, hs]
    obtain ⟨m, -, -, hm⟩ := acceptSyn_eq (e := e) seg hs
    obtain ⟨h1, h2⟩ := opened_spanned (e.listenTaken seg m) { syn := true, ack := true } hns
      ⟨rfl, rfl⟩ rfl rfl e.newIss_range (by simp [Outside, listenTaken, listenTcb])
    rw [hm]
    refine ⟨h1, h2.le.trans ?_⟩
    rw [backlog, if_pos ho, hns, Bool.not_false, Bool.toNat_true,
      show (e.listenTaken seg m).buf.appBuf = e.buf.appBuf from rfl]
    omega
  | startListening hs =>
    have hns := unsent_of_state hc (by simp [hs])
    refine ⟨⟨?_, ?_, ?_, ?_, ?_⟩, ?_⟩
    · simpa [TcpEngine.startListening] using h.una
    · simpa [TcpEngine.startListening] using h.nxt
    · simp [TcpEngine.startListening, hns]
    · simp [TcpEngine.startListening, hns]
    · simp [TcpEngine.startListening]
    · rw [backlog, backlog, if_pos (by simp [Outside, TcpEngine.startListening]),
        if_pos (by simp [Outside, hs])]
      simp [TcpEngine.startListening]
  | synEstablished seg hcs ht =>
    exact h.takeSyn .established hcs.fits ht hc (by simp) (by simp) (by simp) (by simp) (by simp)
      (by simp) (Or.inl rfl)
  | synReceived seg hcs ht hu =>
    have hack : seg.ackFlag = false := by
      by_contra ha
      rw [Bool.not_eq_false] at ha
      obtain ⟨m, -, -, hm⟩ := takeSyn_cases (e := e) seg
      have hgt := (ht.2.2.2 ha).1
      rw [hm, if_pos ha] at hu
      simp [hgt] at hu
    exact h.takeSyn .synReceived hcs.fits ht hc (by simp [becomeSynReceived])
      (by simp [becomeSynReceived])
      (by simp [becomeSynReceived]) (by simp [becomeSynReceived]) (by simp [becomeSynReceived])
      (by simp [becomeSynReceived]) (Or.inr ⟨rfl, hack⟩)
  | completeOpen seg hcs hx =>
    obtain ⟨hs, -, hlt, hle⟩ := hx
    obtain ⟨hu, hne⟩ := h.opening (by simp [hs])
    have hspan := span_eq h
    have hpos : 0 < e.span := by
      refine Nat.pos_of_ne_zero fun h0 => hne ?_
      rw [hspan, h0, seqAt_zero h.una.1 h.una.2]
    rw [hspan] at hle
    rw [← seqAt_zero h.una.1 h.una.2] at hlt
    obtain ⟨r, hr, -, hle, -⟩ := offset_of_first_ack hcs.fits.ack.1 hcs.fits.ack.2 hpos hlt hle
    exact h.acked hle (by simp [openCompleted, hr]) (by simp [openCompleted])
      (by simp [openCompleted]) (by simp [openCompleted]) (by simp [openCompleted])
      (by simp [openCompleted]) (by simp [Outside, hs]) (by simp [Outside, openCompleted])
  | processAck seg hcs hs _ hn =>
    obtain ⟨r, hr, hle⟩ := h.offset hcs.fits.ack.1 hcs.fits.ack.2 hn
    have ho : ¬ e.Outside := by
      intro ho
      rcases ho.cases with ho | ho <;> simp [ho] at hs
    refine h.acked hle (by simp [hr]) (by simp) (by simp) (by simp) (by simp) ?_ ho
      (by simpa [Outside] using ho)
    rw [show (e.processAck seg.ack).tcb.state = e.tcb.state by simp]
    intro hm
    rcases List.mem_pair.mp hm with hm | hm <;> simp [hm] at hs
  | sendChunk hs hb _ hu _ =>
    exact h.dataQueued (e.takeChunk e.chunkLen).chunkFlags hr hb
      (Nat.min_le_right _ _ |>.trans (Nat.min_le_right _ _))
      (by rcases hs with hs | hs <;> simp [Outside, hs]) ⟨rfl, rfl⟩ false
        (e.takeChunk e.chunkLen).urgentPointer (by rw [sendChunk_tcb]; rfl)
      (by rw [sendChunk_buf]; rfl) (by simp)
  | sendFin hcs hd =>
    refine h.sendFin hr hd ?_
    intro ho
    rcases ho.cases with ho | ho <;> simp [CanSend, ho] at hcs
  | probe g _ _ _ _ hb =>
    have hpos := List.length_pos_iff.mpr hb
    have hout : (e.fire g).Outside ↔ e.Outside := by simp [Outside]
    have hlog : (e.fire g).backlog = e.backlog := by simp [backlog, span, hout]
    obtain ⟨hf, -⟩ : (e.fire g).Spanned ∧ (e.fire g).backlog ≤ max e.backlog 2 :=
      h.same (by simp) (by simp) (by simp) (by simp) (by simp) (by simp) (Or.inl (by simp))
    by_cases ho : e.Outside
    · -- a timer of an earlier connection fires: the byte goes out all the same
      have hns : e.fin.finSent = false :=
        unsent_of_state hc (by rcases ho.cases with ho | ho <;> simp [ho])
      have ho' : (e.fire g).sendProbe.rearmPersist.Outside := by
        simpa [Outside, TcpEngine.sendProbe] using ho
      refine ⟨⟨?_, ?_, ?_, ?_, fun hs => ?_⟩, ?_⟩
      · simpa [TcpEngine.sendProbe] using h.una
      · simp only [rearmPersist_tcb, TcpEngine.sendProbe, queueAndSend_tcb, Outgoing.endSeq,
          add_def]
        omega
      · simp [TcpEngine.sendProbe, hns]
      · simp [TcpEngine.sendProbe, hns]
      · rcases ho'.cases with hs' | hs' <;> rw [hs'] at hs <;> simp at hs
      · rw [backlog, backlog, if_pos ho, if_pos ho', hns]
        simp [TcpEngine.sendProbe, hns]
    · rw [← hlog]
      exact hf.dataQueued (n := 1) { ack := true } (by rw [Roomy, hlog]; exact hr)
        (by simpa using hb) (by rw [fire_buf]; exact hpos) (by rwa [hout]) ⟨rfl, rfl⟩ false 0 rfl
          rfl
        (by simp [TcpEngine.sendProbe])
  | probeFin g _ _ _ _ hd =>
    have hout : (e.fire g).Outside ↔ e.Outside := by simp [Outside]
    have hlog : (e.fire g).backlog = e.backlog := by simp [backlog, span, hout]
    have ho : ¬ e.Outside := by
      intro ho
      have hp : e.fin.finPending = false :=
        hc.idle (by rcases ho.cases with ho | ho <;> simp [ctl, ho])
      rw [hd.1] at hp
      cases hp
    obtain ⟨hf, -⟩ : (e.fire g).Spanned ∧ (e.fire g).backlog ≤ max e.backlog 2 :=
      h.same (by simp) (by simp) (by simp) (by simp) (by simp) (by simp) (Or.inl (by simp))
    obtain ⟨h1, h2⟩ := hf.sendFin (by rw [Roomy, hlog]; exact hr) (by simpa [FinDue] using hd)
      (by rwa [hout])
    rw [hlog] at h2
    exact ⟨⟨h1.una, h1.nxt, h1.fin, h1.empty, h1.opening⟩, h2⟩
  | storeSynData seg =>
    have hf := storeOoo_frame e (add seg.seq 1) seg.payload { seg.flags with fin := false }
    obtain ⟨r, u, ht⟩ := hf.tcb
    exact h.same (by rw [ht]) (by rw [ht]) (by rw [ht]) hf.appBuf (by rw [hf.fin]) (by rw [hf.fin])
      (Or.inl hf.state)
  | storeOoo seg n =>
    have hf := storeOoo_frame e seg.seq (seg.payload.take n) seg.flags
    obtain ⟨r, u, ht⟩ := hf.tcb
    exact h.same (by rw [ht]) (by rw [ht]) (by rw [ht]) hf.appBuf (by rw [hf.fin]) (by rw [hf.fin])
      (Or.inl hf.state)
  | receive _ hr =>
    have hf := hr.frame
    obtain ⟨r, u, ht⟩ := hf.tcb
    exact h.same (by rw [ht]) (by rw [ht]) (by rw [ht]) hf.appBuf (by rw [hf.fin]) (by rw [hf.fin])
      (Or.inl hf.state)
  | finAckedWait hs =>
    exact h.same (by simp) (by simp) (by simp) (by simp) (by simp) (by simp)
      (Or.inr ⟨by simp [Outside, hs], by simp⟩)
  | finAckedTimeWait hs =>
    rw [enterTimeWait_eq (by simp [CanSend, hs])]
    exact h.same (by simp) (by simp) (by simp) (by simp) (by simp) (by simp)
      (Or.inr ⟨by simp [Outside, hs], by simp⟩)
  | processFin hs =>
    have ho : ¬ e.Outside := by
      intro ho
      rcases ho.cases with ho | ho <;> simp [ho] at hs
    obtain ⟨st, hst, hf⟩ | ⟨-, hf⟩ := processFin_cases (e := e)
    · rw [hf]
      apply h.same (by simp) (by simp) (by simp) (by simp) (by simp) (by simp)
      rcases hst with ⟨-, rfl⟩ | ⟨-, rfl⟩ | ⟨-, rfl⟩
      · exact Or.inr ⟨ho, by simp⟩
      · exact Or.inr ⟨ho, by simp⟩
      · exact Or.inl (by simp)
    · rw [hf]
      exact h.same (by simp) (by simp) (by simp) (by simp) (by simp) (by simp)
        (Or.inr ⟨ho, by simp⟩)
  | listenAgain hs hp hr =>
    obtain ⟨seg, hcs, hrst, -⟩ := hr
    have hend : Ended a e.doReset := by
      refine ⟨hcs.closes_iff.mpr (Or.inl hrst), ?_, Or.inr ?_⟩
      · rw [doReset_listen hs hp]
        exact ⟨by simp [restorePort], by simp [restorePort],
          by simp [restorePort, CloseState.cleared]⟩
      · rw [doReset_listen hs hp]
        exact ⟨by simp [restorePort], rfl⟩
    exact hend.spanned h (by rw [doReset_listen hs hp]; simp [restorePort])
      (by rw [doReset_listen hs hp]; simp [restorePort])
  | close hx hb =>
    exact (enterClosed_ended hx hb).spanned h (by rw [enterClosed_tcb hb])
      (by rw [enterClosed_tcb hb])
  | abort hx hb =>
    have hb' := sendRst_blocked hb
    exact (enterClosed_ended hx hb').spanned h (by rw [enterClosed_tcb hb']; simp)
      (by rw [enterClosed_tcb hb']; simp)
  | giveUp msg hx hb =>
    exact (giveUp_ended msg hx hb).spanned h (by rw [giveUp_tcb msg hb]) (by rw [giveUp_tcb msg hb])
  | giveUpRto g c msg hx _ _ _ hb =>
    have hb' : (if c then (e.fire g).countRto else e.fire g).Blocked := by
      cases c with
      | true => exact (hb.fire g).of_view rfl
      | false => exact hb.fire g
    have ht : (if c then (e.fire g).countRto else e.fire g).tcb = e.tcb := by
      cases c <;> simp
    exact (giveUp_ended msg hx hb').spanned h (by rw [giveUp_tcb msg hb', ht])
      (by rw [giveUp_tcb msg hb', ht])
  | timeWaitExpires g hx _ _ hb =>
    exact (enterClosed_ended hx (hb.fire g)).spanned h (by rw [enterClosed_tcb (hb.fire g)]; simp)
      (by rw [enterClosed_tcb (hb.fire g)]; simp)
  | sendSynAck =>
    refine h.same ?_ ?_ ?_ ?_ ?_ ?_ (Or.inl ?_) <;> simp [TcpEngine.sendSynAck]
  | sendKeepaliveProbe =>
    refine h.same ?_ ?_ ?_ ?_ ?_ ?_ (Or.inl ?_) <;> simp [TcpEngine.sendKeepaliveProbe]
  | _ => refine h.same ?_ ?_ ?_ ?_ ?_ ?_ (Or.inl ?_) <;> first | simp | rfl

end TcpEngine

end HdlPlayground.Tcp

import HdlPlayground.Tcp.Resets
import HdlPlayground.Tcp.SenderSteps
import HdlPlayground.Tcp.Traces

/-!
# A valid acknowledgement is taken

An acknowledgement of something new, on a segment in sequence, takes what it covers off
the retransmission queue, provided that the segment passes the acceptability test; in a
closed receive window a segment with text does not. What the queue holds follows on from
SND.UNA in every run in which no persist timer of an earlier connection fires into the
data of a listener.
-/
namespace HdlPlayground.Tcp

namespace TcpEngine

variable {a : Action} {e e' f g : TcpEngine} {w : List UInt8} {k : Nat}

/-! ## The queue in every run -/

/-- A persist timer that an earlier connection has left fires, and probes with the data
of a connection that is still to be opened. -/
def Stray (e : TcpEngine) (a : Action) : Prop :=
  ∃ h, a = .expire h ∧ h.cb = .onPersist ∧ e.Outside ∧ e.tcb.sndWnd = 0 ∧ e.buf.appBuf ≠ []

/-- The queue is empty without a connection, and tiles the sent part of its stream with one. -/
def Laid (e : TcpEngine) : Prop :=
  e.Outside ∧ (∃ w, Idle w e) ∨ ∃ w, Linked w e

theorem laid_init (args : EngineArgs) (sched : ManualScheduler Callback) (rand : Nat) :
    (init args sched rand).Laid :=
  Or.inl ⟨by simp [Outside, init], [], ⟨rfl, rfl, rfl⟩⟩

/-- What a path without stray probes keeps. -/
def Roaming (a : Action) (w : List UInt8) (e : TcpEngine) : Prop :=
  (e.Outside ∧ (Idle w e ∨ Ended a e)) ∨ (¬ e.Outside ∧ ∃ k, SendInv w k e)

theorem Roaming.move (hm : Move a e e') (hc : Coherent e.ctl) (ht : e.TimerInv) (hmss : e.MssOk)
    (hn : ∀ g, a = .expire g → g.cb ≠ .onPersist) (h : Roaming a w e) : Roaming a w e' := by
  rcases h with ⟨ho, hi | he⟩ | ⟨ho, k, hk⟩
  · rcases hi.move hm hc ht ho (Or.inr (Or.inr hn)) with ⟨ho', -, hi'⟩ | ⟨ho', hs⟩
    · exact Or.inl ⟨ho', hi'⟩
    · exact Or.inr ⟨ho', 0, hs⟩
  · have he' := he.move hm hc ht
    exact Or.inl ⟨he'.outside, Or.inr he'⟩
  · rcases hk.move hm hmss ho with he' | hs
    · exact Or.inl ⟨he'.outside, Or.inr he'⟩
    · exact Or.inr hs

/-- A persist timer that fires without a connection sends nothing when it finds no data. -/
theorem expire_persist {h : TimerHandle Callback} (hc : Coherent e.ctl) (ho : e.Outside)
    (hcb : h.cb = .onPersist) (hn : e.tcb.sndWnd = 0 → e.buf.appBuf = []) :
    (e.popTimer h).callback h.cb = e.fire h := by
  have hfire : (e.popTimer h).forgetTimer .onPersist = e.fire h := by rw [fire, hcb]
  have hsend : ¬ (e.fire h).CanSend := by
    rintro (hs | hs | ⟨hs, -⟩) <;> obtain ho | ho := ho.cases <;>
      simp only [fire_tcb, ho, reduceCtorEq] at hs
  have hfin : (e.fire h).fin.finPending = false := by
    rw [fire_fin]
    obtain ho | ho := ho.cases
    · exact hc.idle (by simp [ctl, ho])
    · exact hc.idle (by simp [ctl, ho])
  rw [hcb, callback, onPersist, hfire]
  split_ifs with hw hb
  · exact sendPending_of_not_canSend hsend
  · refine absurd (hn ?_) (by simpa using hb)
    have : ¬ 0 < e.tcb.sndWnd := by simpa using hw
    omega
  · next hf =>
      rw [hfin] at hf
      cases hf
  · rfl

theorem Laid.step (hk : e.Kept) (hl : e.Laid) (hn : ¬ e.Stray a)
    (h : engineMachine.step e a = some e') : e'.Laid := by
  rcases hl with ⟨ho, w, hi⟩ | ⟨w, hlk⟩
  · by_cases hp : ∃ g, a = .expire g ∧ g.cb = .onPersist
    · obtain ⟨g, rfl, hcb⟩ := hp
      have hempty : e.tcb.sndWnd = 0 → e.buf.appBuf = [] := by
        intro hw
        by_contra hb
        exact hn ⟨g, rfl, hcb, ho, hw, hb⟩
      simp only [engineMachine] at h
      split_ifs at h
      obtain rfl := Option.some.inj h
      have hfire := expire_persist (e := e.enter) (h := g) hk.ready.coherent ho hcb hempty
      refine Or.inl ⟨?_, w, ?_⟩
      · rw [perform, hfire, Outside, fire_tcb]
        exact ho
      · rw [perform, hfire]
        exact ⟨by simpa using hi.retx, by simpa using hi.appBuf, by simpa using hi.finSent⟩
    · have hq : ∀ g, a = .expire g → g.cb ≠ .onPersist := fun g hg hcb => hp ⟨g, hg, hcb⟩
      have h0 : Roaming a (w ++ e.buffered a) (e.begin a) := by
        obtain ⟨conf, psh, hb, -⟩ := begin_eq (e := e) a
        rw [hb]
        exact Or.inl ⟨ho, Or.inl ⟨hi.retx, by simp [hi.appBuf], hi.finSent⟩⟩
      have hend := (hk.ready.path h).preserves
        (P := fun f => (Coherent f.ctl ∧ f.TimerInv ∧ f.MssOk) ∧ Roaming a (w ++ e.buffered a) f)
        (fun f f' hm hf => ⟨⟨hf.1.1.move hm, hf.1.2.1.move hm, hf.1.2.2.move hm⟩,
          hf.2.move hm hf.1.1 hf.1.2.1 hf.1.2.2 hq⟩) ⟨?_, h0⟩
      · rcases hend.2 with ⟨ho', hi' | he'⟩ | ⟨ho', hs⟩
        · exact Or.inl ⟨ho', _, hi'⟩
        · exact Or.inl ⟨ho', [], he'.idle⟩
        · exact Or.inr ⟨_, ho', hs⟩
      · obtain ⟨conf, psh, hb, hcm⟩ := begin_eq (e := e) a
        refine ⟨by rw [begin_ctl]; exact hk.ready.coherent, timerInv_begin hk.timers, ?_⟩
        rw [hb]
        exact hk.mss.of_eq rfl hcm
  · rcases (hk.staged h (hlk.begin hk.ready.coherent)).ends with ⟨hf, -⟩ | hr | hd | hl'
    · exact hf.elim
    · exact Or.inl ⟨hr.outside, [], hr.idle⟩
    · exact Or.inl ⟨by simp [Outside, hd.closed], [], hd.idle⟩
    · exact Or.inr ⟨_, hl'⟩

/-! ## What follows the acknowledgement -/

/-- SND.UNA stays and the queue only grows. -/
def Appends (f g : TcpEngine) : Prop :=
  g.tcb.sndUna = f.tcb.sndUna ∧ ∃ more, g.buf.retx = f.buf.retx ++ more

theorem Appends.of_eq (hu : g.tcb.sndUna = f.tcb.sndUna) (hq : g.buf.retx = f.buf.retx) :
    Appends f g :=
  ⟨hu, [], by rw [hq, List.append_nil]⟩

theorem Appends.refl (f : TcpEngine) : Appends f f := .of_eq rfl rfl

theorem Appends.trans (h : Appends e f) (h' : Appends f g) : Appends e g := by
  obtain ⟨hu, m, hm⟩ := h
  obtain ⟨hu', m', hm'⟩ := h'
  exact ⟨hu'.trans hu, m ++ m', by rw [hm', hm, List.append_assoc]⟩

theorem SendRun.appends {r : TcpEngine × Bool} (h : SendRun e r) : Appends e r.1 := by
  induction h with
  | empty e _ => exact .refl e
  | closed e _ _ => exact .of_eq (by simp) (by simp)
  | held e _ _ _ => exact .refl e
  | hang e _ _ _ _ => exact .of_eq rfl rfl
  | chunk e r _ _ _ _ _ ih =>
    exact Appends.trans ⟨by simp [queueChunk], _, by simp [queueChunk]; rfl⟩ ih

theorem sendPending_appends : Appends e e.sendPending := by
  have hfin {f : TcpEngine} : Appends f f.finPart := by
    rcases f.finPart_cases with ⟨-, h⟩ | ⟨-, -, h⟩ | ⟨-, -, -, h⟩ | ⟨-, -, -, h⟩
    · rw [h]; exact .refl f
    · rw [h]; exact .of_eq (by simp) (by simp)
    · rw [h]; exact .refl f
    · obtain ⟨st, hst, -⟩ := sendFin_tcb (e := f)
      rw [h]
      exact ⟨by rw [hst], _, by rw [sendFin_buf]⟩
  rcases e.sendPending_cases with ⟨-, h⟩ | ⟨-, h⟩ | ⟨-, f, h, hf⟩
  · rw [h]; exact .refl e
  · exact h.appends
  · rw [hf]; exact h.appends.trans hfin

theorem windowUpdate_appends (seg : TcpSegment) : Appends e (e.windowUpdate seg) := by
  have h : Appends e (e.setSendWindow seg.window seg.seq seg.ack) := .of_eq rfl rfl
  unfold windowUpdate
  dsimp only
  split_ifs
  · exact h.trans (Appends.trans (.of_eq rfl rfl) sendPending_appends)
  · exact h
  · exact .refl e

theorem RecvFrame.appends (h : RecvFrame e f) : Appends e f := by
  obtain ⟨r, u, ht⟩ := h.tcb
  exact .of_eq (by rw [ht]) h.retx

theorem processFin_appends : Appends e e.processFin := by
  obtain ⟨st, -, h⟩ | ⟨-, h⟩ := processFin_cases (e := e)
  · rw [h]
    exact .of_eq (by simp) (by simp)
  · rw [h]
    exact .of_eq (by simp) (by simp)

theorem textAndFin_appends (seg : TcpSegment) : Appends e (e.textAndFin seg) := by
  have htext : Appends e (if seg.payload ≠ [] ∧ e.tcb.state ∈ DataStates then e.recvData seg
      else e) := by
    split
    · exact (recvData_frame e seg).appends
    · exact .refl e
  have hcheck {f : TcpEngine} : Appends f f.checkPendingFin := by
    unfold checkPendingFin
    split
    · exact processFin_appends
    · exact .refl f
  have hfin {f : TcpEngine} : Appends f (f.finCheck seg) := by
    unfold finCheck
    dsimp only
    split_ifs
    · exact processFin_appends
    · exact .of_eq rfl rfl
    · exact .refl f
    · exact .refl f
  exact htext.trans (sendPending_appends.trans (hfin.trans hcheck))

theorem setState_appends (st : ConnState) : Appends e (e.setState st) :=
  .of_eq (by simp) (by simp)

/-- An acknowledgement of something new is taken; what comes after it only appends, unless
it closes the connection. -/
theorem establishedAck_appends {seg : TcpSegment} (hs : e.tcb.state ∈ OpenStates)
    (ha : e.AcksNew seg.ack) :
    Appends (e.processAck seg.ack) (e.establishedAck seg) ∧
        (e.establishedAck seg).tcb.state ∈ LaterStates ∨
      (e.establishedAck seg).tcb.state = .closed := by
  have hle : ¬ seqGt seg.ack e.tcb.sndNxt = true := by
    rw [seqGt_eq_not_seqLeq, ha.2]
    decide
  rw [establishedAck, if_neg hle, if_pos ha.1]
  dsimp only
  have hw := windowUpdate_appends seg (e := e.processAck seg.ack)
  have hopen := windowUpdate_open seg (e := e.processAck seg.ack) (by simpa using hs)
  generalize (e.processAck seg.ack).windowUpdate seg = g at hw hopen
  split_ifs
  · exact Or.inl ⟨hw.trans ((setState_appends _).trans (textAndFin_appends seg)),
      textAndFin_later seg (by simp)⟩
  · have htw : Appends g g.enterTimeWait :=
      Appends.trans (.of_eq rfl rfl) (Appends.trans (f := g.stopRt.dropPersistTimer.sendPending)
        (Appends.trans (.of_eq rfl rfl) sendPending_appends)
        ((setState_appends .timeWait).trans (.of_eq rfl rfl)))
    exact Or.inl ⟨hw.trans htw, by simp [enterTimeWait]⟩
  · exact Or.inr enterClosed_state
  · exact Or.inl ⟨hw.trans (textAndFin_appends seg), textAndFin_later seg hopen⟩

/-! ## The acknowledgement in a step -/

/-- What `ack` covers has left the queue, and the queue follows on from it. -/
structure AckTaken (e : TcpEngine) (ack : Int) (e' : TcpEngine) : Prop where
  una : e'.tcb.sndUna = ack
  tiles : Tiles ack 0 e'.buf.retx
  gone : ∃ more, unacked e'.buf.retx =
    (unacked e.buf.retx).drop (sub ack e.tcb.sndUna).toNat ++ more

theorem seqAt_seqAt (x : Int) (j k : Nat) : seqAt (seqAt x j) k = seqAt x (j + k) := by
  simp only [seqAt]
  omega

/-- Tiles from an offset on are tiles from the number that stands there. -/
theorem tiles_shift {x : Int} {q : List Outgoing} (j k : Nat) (h : Tiles x (j + k) q) :
    Tiles (seqAt x j) k q := by
  induction q generalizing k with
  | nil => trivial
  | cons o q ih =>
    obtain ⟨hs, hp, hl, ht⟩ := h
    refine ⟨by rw [seqAt_seqAt]; exact hs, hp, hl, ih _ ?_⟩
    rw [← Nat.add_assoc]
    exact ht

/-- The queue follows on from SND.UNA in every connection. -/
theorem Linked.tiles_una (h : Linked w e) : Tiles e.tcb.sndUna 0 e.buf.retx := by
  obtain ⟨k, hk⟩ := h.inv
  rw [hk.una]
  exact tiles_shift k 0 hk.tiles

/-- What the acknowledgement covers has been taken off. -/
theorem SendInv.gone {ack : Int} (h : SendInv w k e) (h0 : 0 ≤ ack) (h1 : ack < 4294967296)
    (ha : e.AcksNew ack) : unacked (e.processAck ack).buf.retx =
      (unacked e.buf.retx).drop (sub ack e.tcb.sndUna).toNat := by
  obtain ⟨hgt, hle⟩ := ha
  rw [h.una] at hgt
  rw [h.nxt] at hle
  obtain ⟨r, rfl, hk, hr, hlt⟩ := offset_of_ack h0 h1 (Nat.le_add_right _ _) hgt hle
  have hsub : sub (seqAt e.tcb.iss r) e.tcb.sndUna = ((r - k : Nat) : Int) := by
    rw [h.una]
    exact sub_seqAt (Nat.le_of_lt hk) (by omega)
  rw [processAck_buf, hsub, Int.toNat_natCast]
  exact (trimRetx_spec h.tiles (Nat.le_of_lt hk) (Nat.le_of_lt hlt) hr).2

theorem Laid.ack_step {data : List UInt8} {seg : TcpSegment} (hl : e.Laid)
    (hl' : e'.Laid) (hp : TcpSegment.parse data = .ok seg)
    (h : engineMachine.step e (.segment data) = some e') (ha : e.Addressed seg)
    (hs : e.tcb.state ∈ OpenStates) (hr : seg.rst = false) (hsyn : seg.syn = false)
    (hack : seg.ackFlag = true) (hn : e.AcksNew seg.ack) :
    (AckTaken e seg.ack e' ∨ e'.tcb.state = .closed) ↔
      acceptable seg.seq seg.segLen e.tcb.rcvNxt e.rcvWnd = true := by
  obtain ⟨hna, -⟩ | ⟨-, rfl⟩ := step_segment hp h
  · exact absurd ha hna
  have hfits := TcpSegment.fits_of_parse hp
  have hst : e.enter.heard.tcb.state ∈ OpenStates := by simpa using hs
  have hin : ¬ e.Outside := not_outside_of_mem hs (by simp) (by simp)
  obtain ⟨w, hlk⟩ := hl.resolve_left fun ho => hin ho.1
  obtain ⟨k, hinv⟩ := hlk.inv
  have hinv' : SendInv w k e.enter.heard := hinv.of_core (by simp [sendCore, enter]) (by
    simpa [enter] using hinv.opening)
  have hn' : e.enter.heard.AcksNew seg.ack := by simpa [AcksNew, enter] using hn
  rw [handle_ack hst hr hsyn hack] at hl' ⊢
  have htcb : e.enter.heard.tcb = e.tcb := heard_tcb
  have hwnd : e.enter.heard.rcvWnd = e.rcvWnd := heard_rcvWnd
  rw [htcb, hwnd] at hl' ⊢
  by_cases hacc : acceptable seg.seq seg.segLen e.tcb.rcvNxt e.rcvWnd = true
  · rw [if_pos hacc] at hl' ⊢
    refine iff_of_true ?_ hacc
    rcases establishedAck_appends hst hn' with ⟨⟨hu, more, hq⟩, hlater⟩ | hc
    · have hout : ¬ (e.enter.heard.establishedAck seg).Outside :=
        not_outside_of_mem hlater (by simp) (by simp)
      obtain ⟨w', hlk'⟩ := hl'.resolve_left fun ho => hout ho.1
      have huna : (e.enter.heard.establishedAck seg).tcb.sndUna = seg.ack := by
        rw [hu]
        simp
      refine Or.inl ⟨huna, huna ▸ hlk'.tiles_una, unacked more, ?_⟩
      rw [hq, unacked_append, hinv'.gone hfits.ack.1 hfits.ack.2 hn', htcb, heard_buf]
      rfl
    · exact Or.inr hc
  · rw [if_neg hacc]
    refine iff_of_false ?_ hacc
    rintro (ht | hc)
    · have hu : e.tcb.sndUna = seg.ack := by simpa [enter] using ht.una
      have hgt := hn.1
      rw [hu, seqGt_iff] at hgt
      omega
    · have hs' : e.tcb.state = .closed := by simpa [enter] using hc
      simp [hs'] at hs

end TcpEngine

open TcpEngine in
/-- A valid acknowledgement in sequence is taken exactly when its segment is acceptable. -/
theorem valid_ack_taken (args : EngineArgs) (sched : ManualScheduler Callback) (rand : Nat)
    (as : List Action) (e e' : TcpEngine) (data : List UInt8) (seg : TcpSegment)
    (hm : 1 ≤ args.sndMss) (hs : sched.heap = [])
    (hr : engineMachine.run (init args sched rand) as = some e)
    (hc : engineMachine.AllSteps (fun f a => ¬ f.Stray a) (init args sched rand) as)
    (hp : TcpSegment.parse data = .ok seg) (hstep : engineMachine.step e (.segment data) = some e')
    (ha : e.Addressed seg) (ho : e.tcb.state ∈ OpenStates) (hrst : seg.rst = false)
    (hsyn : seg.syn = false) (hack : seg.ackFlag = true) (hseq : seg.seq = e.tcb.rcvNxt)
    (hnew : e.AcksNew seg.ack) :
    (AckTaken e seg.ack e' ∨ e'.tcb.state = .closed) ↔
      acceptable e.tcb.rcvNxt seg.segLen e.tcb.rcvNxt e.rcvWnd = true := by
  have hpres : engineMachine.Preserves (fun f a => ¬ f.Stray a) fun f => f.Kept ∧ f.Laid :=
    fun _ _ _ h hn hst => ⟨h.1.step hst, h.2.step h.1 hn hst⟩
  have he := hpres.run ⟨kept_init args sched rand hs hm, laid_init args sched rand⟩ hc hr
  have hns : ¬ e.Stray (.segment data) := by
    rintro ⟨h, heq, -⟩
    cases heq
  have h := he.2.ack_step (he.2.step he.1 hns hstep) hp hstep ha ho hrst hsyn hack hnew
  rwa [hseq] at h

/-- A byte fills the receive buffer of one byte, and a byte is written. -/
def fullBufferRun : List Action :=
  [.activeOpen, .segment [0, 80, 3, 232, 0, 0, 3, 232, 0, 0, 0, 101, 80, 18, 255, 255, 0, 0, 0, 0],
    .segment [0, 80, 3, 232, 0, 0, 3, 233, 0, 0, 0, 101, 80, 16, 255, 255, 0, 0, 0, 0, 5],
    .send [7] false false none]

/-- The byte written is acknowledged, on a segment with text. -/
def ackWithText : List UInt8 :=
  [0, 80, 3, 232, 0, 0, 3, 234, 0, 0, 0, 102, 80, 16, 255, 255, 0, 0, 0, 0, 6]

def smallBufferStart : TcpEngine :=
  .init { localPort := 1000, remotePort := 80, rcvWnd := 1, iss := some 100 } {} 0

open TcpEngine in
/-- The acknowledgement is discarded with the text, and the byte stays on the queue. -/
theorem ack_with_text_discarded :
    ∃ e e', engineMachine.run smallBufferStart fullBufferRun = some e ∧
      engineMachine.step e (.segment ackWithText) = some e' ∧
      e.tcb.state = .established ∧ e.tcb.rcvNxt = 1002 ∧ e.tcb.sndUna = 101 ∧
      e.tcb.sndNxt = 102 ∧ e.rcvWnd = 0 ∧ e'.buf.retx.map Outgoing.payload = [[7]] ∧
      ¬ (AckTaken e 102 e' ∨ e'.tcb.state = .closed) := by
  have h : ((engineMachine.run smallBufferStart fullBufferRun).bind fun e =>
      (engineMachine.step e (.segment ackWithText)).map fun e' =>
        ([e.tcb.state, e'.tcb.state], [e.tcb.rcvNxt, e.tcb.sndUna, e.tcb.sndNxt, e'.tcb.sndUna],
          e.rcvWnd, e'.buf.retx.map Outgoing.payload)) =
      some ([.established, .established], [1002, 101, 102, 101], 0, [[7]]) := by
    decide +kernel
  obtain ⟨e, he, h⟩ := Option.bind_eq_some_iff.mp h
  obtain ⟨e', he', hv⟩ := Option.map_eq_some_iff.mp h
  simp only [Prod.mk.injEq, List.cons.injEq, and_true] at hv
  obtain ⟨⟨hst, hst'⟩, ⟨hrcv, huna, hnxt, huna'⟩, hwnd, hq⟩ := hv
  refine ⟨e, e', he, he', hst, hrcv, huna, hnxt, hwnd, hq, ?_⟩
  rintro (ht | hc)
  · have := ht.una
    omega
  · rw [hst'] at hc
    cases hc

/-- The same without the text. -/
def plainAck : List UInt8 :=
  [0, 80, 3, 232, 0, 0, 3, 234, 0, 0, 0, 102, 80, 16, 255, 255, 0, 0, 0, 0]

open TcpEngine in
/-- An acknowledgement alone is taken in the closed window. -/
theorem plain_ack_taken :
    ∃ e e', engineMachine.run smallBufferStart fullBufferRun = some e ∧
      engineMachine.step e (.segment plainAck) = some e' ∧ e.rcvWnd = 0 ∧
      AckTaken e 102 e' := by
  have h : ((engineMachine.run smallBufferStart fullBufferRun).bind fun e =>
      (engineMachine.step e (.segment plainAck)).map fun e' =>
        ([e.tcb.state, e'.tcb.state], e.tcb.rcvNxt, e.tcb.sndUna, e.tcb.sndNxt, e.conf.localPort,
          e.rcvWnd)) =
      some ([.established, .established], 1002, 101, 102, 1000, 0) := by
    decide +kernel
  obtain ⟨e, he, h⟩ := Option.bind_eq_some_iff.mp h
  obtain ⟨e', he', hv⟩ := Option.map_eq_some_iff.mp h
  simp only [Prod.mk.injEq, List.cons.injEq, and_true] at hv
  obtain ⟨⟨hst, hst'⟩, hrcv, huna, hnxt, hport, hwnd⟩ := hv
  have hp : ∃ seg, TcpSegment.parse plainAck = .ok seg ∧ seg.dstPort = 1000 ∧ seg.rst = false ∧
      seg.syn = false ∧ seg.ackFlag = true ∧ seg.seq = 1002 ∧ seg.ack = 102 ∧ seg.segLen = 0 :=
    ⟨_, rfl, by decide, by decide, by decide, by decide, by decide, by decide, by decide⟩
  obtain ⟨seg, hp, hdst, hrst, hsyn, hack, hseq, hackno, hlen⟩ := hp
  have hc : engineMachine.AllSteps (fun f a => ¬ f.Stray a) smallBufferStart fullBufferRun := by
    refine ⟨?_, fun _ _ => ⟨?_, fun _ _ => ⟨?_, fun _ _ => ⟨?_, fun _ _ => trivial⟩⟩⟩⟩ <;>
      · rintro ⟨h, heq, -⟩
        cases heq
  have htaken := valid_ack_taken _ {} 0 fullBufferRun e e' plainAck seg (by decide) rfl he hc hp he'
    (by simp [Addressed, hport, hdst]) (by simp [hst]) hrst hsyn hack (by rw [hseq, hrcv])
    ⟨by rw [hackno, huna]; decide, by rw [hackno, hnxt]; decide⟩
  rw [hackno, hlen, hrcv, hwnd] at htaken
  refine ⟨e, e', he, he', hwnd, (htaken.mpr (by decide)).resolve_right fun hcl => ?_⟩
  rw [hst'] at hcl
  cases hcl

end HdlPlayground.Tcp

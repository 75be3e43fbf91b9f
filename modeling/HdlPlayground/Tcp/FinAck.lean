import HdlPlayground.Tcp.SendStream

/-!
# When the FIN counts as acknowledged

The flag `fin_acked` is set by comparing the acknowledgement with the FIN's number
on the half circle. It agrees with SND.UNA as long as what is in flight does not go
round the circle.
-/
namespace HdlPlayground.Tcp

namespace TcpEngine

variable {a : Action} {e e' : TcpEngine} {w : List UInt8} {k : Nat}

/-- The flag agrees with the numbers. -/
def FinAck (e : TcpEngine) : Prop :=
  e.fin.finAcked = true ↔ e.fin.finSent = true ∧ e.tcb.sndUna = add e.fin.finSeq 1

/-- The FIN stands close enough to SND.UNA for the comparison to be exact. -/
structure FinNear (e : TcpEngine) : Prop where
  due : e.FinDue → e.tcb.sndUna ≠ add e.tcb.sndNxt 1
  ack : ∀ ack, 0 ≤ ack → ack < 4294967296 → e.fin.finSent = true → e.AcksNew ack →
    (seqGt ack e.fin.finSeq = true ↔ ack = add e.fin.finSeq 1) ∧
      e.tcb.sndUna ≠ add e.fin.finSeq 1

/-- With the FIN last in flight the comparison is exact at any distance: an
acknowledgement that lies on the far half is not after SND.UNA. -/
theorem finNear_ack (hn : e.fin.finSent = true → e.tcb.sndNxt = add e.fin.finSeq 1) (ack : Int)
    (h0 : 0 ≤ ack) (h1 : ack < 4294967296) (hf : e.fin.finSent = true) (ha : e.AcksNew ack) :
    (seqGt ack e.fin.finSeq = true ↔ ack = add e.fin.finSeq 1) ∧
      e.tcb.sndUna ≠ add e.fin.finSeq 1 := by
  obtain ⟨hgt, hle⟩ := ha
  have hnxt := hn hf
  rw [add_def] at hnxt
  rw [seqGt_iff] at hgt
  rw [seqLeq_iff] at hle
  rw [seqGt_iff]
  simp only [add_def]
  omega

/-- Before the FIN is out there is nothing to acknowledge. -/
theorem finAck_of_unsent (hc : Coherent e.ctl) (hf : e.fin.finSent = false) : FinAck e := by
  have ha : ¬ e.fin.finAcked = true := fun ha => by
    have : e.fin.finSent = true := hc.acked ha
    rw [hf] at this
    cases this
  constructor
  · exact fun h => absurd h ha
  · rintro ⟨hs, -⟩
    rw [hf] at hs
    cases hs

theorem unsent_of_state (hc : Coherent e.ctl) (hs : e.tcb.state ∉ FinStates) :
    e.fin.finSent = false := by
  cases hf : e.fin.finSent with
  | false => rfl
  | true => exact absurd (hc.sent.mp hf) hs

theorem FinAck.same (h : FinAck e) (h1 : e'.fin.finAcked = e.fin.finAcked)
    (h2 : e'.fin.finSent = e.fin.finSent) (h3 : e'.fin.finSeq = e.fin.finSeq)
    (h4 : e'.tcb.sndUna = e.tcb.sndUna) : FinAck e' := by
  rw [FinAck, h1, h2, h3, h4]
  exact h

/-- The flag, the FIN and SND.UNA are left alone. -/
def SameFin (e e' : TcpEngine) : Prop :=
  e'.fin.finAcked = e.fin.finAcked ∧ e'.fin.finSent = e.fin.finSent ∧
    e'.fin.finSeq = e.fin.finSeq ∧ e'.tcb.sndUna = e.tcb.sndUna

/-- The FIN goes out. -/
def SendsFin (e e' : TcpEngine) : Prop :=
  e.FinDue ∧ e'.fin.finAcked = e.fin.finAcked ∧ e'.fin.finSent = true ∧
    e'.fin.finSeq = e.tcb.sndNxt ∧ e'.tcb.sndUna = e.tcb.sndUna

/-- Something new is acknowledged. -/
def TakesAck (e e' : TcpEngine) : Prop :=
  ∃ ack, 0 ≤ ack ∧ ack < 4294967296 ∧ e.AcksNew ack ∧ e'.tcb.sndUna = ack ∧
    e'.fin = (e.processAck ack).fin

theorem sendFin_sendsFin (hd : e.FinDue) : SendsFin e e.sendFin := by
  obtain ⟨st, ht, -⟩ := sendFin_tcb (e := e)
  refine ⟨hd, ?_⟩
  rw [sendFin_fin, ht]
  exact ⟨rfl, rfl, rfl, rfl⟩

/-- All that a move can do with the FIN's acknowledgement. -/
theorem Move.fin_cases (hm : Move a e e') :
    SameFin e e' ∨ e'.tcb.state ∉ FinStates ∨ SendsFin e e' ∨ TakesAck e e' := by
  cases hm with
  | connect ho _ =>
    right; left
    rw [connect_eq (ho.imp And.left id)]
    simp [dialled]
  | startListening => exact Or.inr (Or.inl (by simp [TcpEngine.startListening]))
  | acceptSyn seg _ hs =>
    obtain ⟨m, -, -, hm⟩ := acceptSyn_eq (e := e) seg hs
    right; left
    rw [hm]
    simp [listenTaken, listenTcb]
  | synEstablished seg => exact Or.inr (Or.inl (by simp))
  | synReceived seg => exact Or.inr (Or.inl (by simp [becomeSynReceived]))
  | completeOpen seg => exact Or.inr (Or.inl (by simp [openCompleted]))
  | sendFin _ hd => exact Or.inr (Or.inr (Or.inl (sendFin_sendsFin hd)))
  | probeFin g _ _ _ _ hd =>
    have hd' : (e.fire g).FinDue := by simpa [FinDue] using hd
    have hf : SendsFin (e.fire g) (e.fire g).sendFin.rearmPersist := sendFin_sendsFin hd'
    right; right; left
    simpa [SendsFin, FinDue] using hf
  | processAck seg hcs _ _ ha =>
    obtain ⟨h1, h2⟩ := hcs.fits.ack
    exact Or.inr (Or.inr (Or.inr ⟨seg.ack, h1, h2, ha, by rw [processAck_tcb], rfl⟩))
  | sendSynAck => left; simp [SameFin, TcpEngine.sendSynAck]
  | sendKeepaliveProbe => left; simp [SameFin, TcpEngine.sendKeepaliveProbe]
  | sendChunk => left; simp [SameFin, queueChunk]
  | probe g => left; simp [SameFin, TcpEngine.sendProbe]
  | storeSynData seg =>
    have hf := storeOoo_frame e (add seg.seq 1) seg.payload { seg.flags with fin := false }
    obtain ⟨r, u, ht⟩ := hf.tcb
    exact Or.inl ⟨by rw [hf.fin], by rw [hf.fin], by rw [hf.fin], by rw [ht]⟩
  | storeOoo seg n =>
    have hf := storeOoo_frame e seg.seq (seg.payload.take n) seg.flags
    obtain ⟨r, u, ht⟩ := hf.tcb
    exact Or.inl ⟨by rw [hf.fin], by rw [hf.fin], by rw [hf.fin], by rw [ht]⟩
  | receive _ hr =>
    have hf := hr.frame
    obtain ⟨r, u, ht⟩ := hf.tcb
    exact Or.inl ⟨by rw [hf.fin], by rw [hf.fin], by rw [hf.fin], by rw [ht]⟩
  | finAckedTimeWait hs =>
    rw [enterTimeWait_eq (by simp [CanSend, hs])]
    left; simp [SameFin]
  | processFin =>
    obtain ⟨st, -, hf⟩ | ⟨-, hf⟩ := processFin_cases (e := e)
    · rw [hf]
      left; simp [SameFin]
    · rw [hf]
      left; simp [SameFin]
  | listenAgain hs hp =>
    right; left
    rw [doReset_listen hs hp]
    simp [restorePort]
  | close => exact Or.inr (Or.inl (by simp))
  | abort => exact Or.inr (Or.inl (by simp))
  | giveUp => exact Or.inr (Or.inl (by simp))
  | giveUpRto => exact Or.inr (Or.inl (by simp))
  | timeWaitExpires => exact Or.inr (Or.inl (by simp))
  | _ => left; refine ⟨?_, ?_, ?_, ?_⟩ <;> first | simp | rfl

theorem not_acked_of_unsent (hc : Coherent e.ctl) (hf : e.fin.finSent = false) :
    e.fin.finAcked = false := by
  cases hx : e.fin.finAcked with
  | false => rfl
  | true => exact absurd (hc.acked hx) (by simp [ctl, hf])

theorem FinAck.move (hm : Move a e e') (hc : Coherent e.ctl) (hn : FinNear e) (h : FinAck e) :
    FinAck e' := by
  rcases hm.fin_cases with ⟨h1, h2, h3, h4⟩ | hs | ⟨hd, h1, -, h3, h4⟩ | ⟨ack, h1, h2, ha, h3, h4⟩
  · exact h.same h1 h2 h3 h4
  · exact finAck_of_unsent (hc.move hm) (unsent_of_state (hc.move hm) hs)
  · rw [FinAck, h1, h3, h4, not_acked_of_unsent hc hd.2.1]
    constructor
    · intro hx
      cases hx
    · exact fun hx => absurd hx.2 (hn.due hd)
  · rw [FinAck, h3, h4, processAck_fin]
    cases hf : e.fin.finSent with
    | false => simp [not_acked_of_unsent hc hf]
    | true =>
      obtain ⟨hiff, hne⟩ := hn.ack ack h1 h2 hf ha
      have hna : e.fin.finAcked = false := by
        cases hx : e.fin.finAcked with
        | false => rfl
        | true => exact absurd (h.mp hx).2 hne
      rw [hna]
      simpa using hiff

/-! ## Nothing follows the FIN -/

/-- Our FIN is the last number in flight, and nothing is buffered behind it. -/
def FinLast (e : TcpEngine) : Prop :=
  e.fin.finSent = true → e.tcb.sndNxt = add e.fin.finSeq 1 ∧ e.buf.appBuf = []

theorem finLast_of_unsent (h : e.fin.finSent = false) : FinLast e := by
  intro hf
  rw [h] at hf
  cases hf

theorem FinLast.same (h : FinLast e) (h1 : e'.tcb.sndNxt = e.tcb.sndNxt)
    (h2 : e'.fin.finSent = e.fin.finSent) (h3 : e'.fin.finSeq = e.fin.finSeq)
    (h4 : e'.buf.appBuf = e.buf.appBuf) : FinLast e' := by
  rw [FinLast, h1, h2, h3, h4]
  exact h

theorem FinLast.unsent (h : FinLast e) (hb : e.buf.appBuf ≠ []) : e.fin.finSent = false := by
  cases hf : e.fin.finSent with
  | false => rfl
  | true => exact absurd (h hf).2 hb

theorem sendFin_finLast (hd : e.FinDue) : FinLast e.sendFin := by
  obtain ⟨st, ht, -⟩ := sendFin_tcb (e := e)
  have hb : e.buf.appBuf = [] := hd.2.2
  intro _
  rw [ht, sendFin_fin]
  exact ⟨by simp [Outgoing.endSeq, Outgoing.segLen], by simp [hb]⟩

theorem FinLast.move (hm : Move a e e') (hc : Coherent e.ctl) (h : FinLast e) : FinLast e' := by
  have hc' := hc.move hm
  have hopen (hs : e'.tcb.state ∉ FinStates) : FinLast e' :=
    finLast_of_unsent (unsent_of_state hc' hs)
  cases hm with
  | connect ho _ =>
    apply hopen
    rw [connect_eq (ho.imp And.left id)]
    simp [dialled]
  | startListening => exact hopen (by simp [TcpEngine.startListening])
  | acceptSyn seg _ hs =>
    obtain ⟨m, -, -, hm⟩ := acceptSyn_eq (e := e) seg hs
    apply hopen
    rw [hm]
    simp [listenTaken, listenTcb]
  | synEstablished seg => exact hopen (by simp)
  | synReceived seg => exact hopen (by simp [becomeSynReceived])
  | completeOpen seg => exact hopen (by simp [openCompleted])
  | sendFin _ hd => exact sendFin_finLast hd
  | probeFin g _ _ _ _ hd =>
    have hd' : (e.fire g).FinDue := by simpa [FinDue] using hd
    exact sendFin_finLast hd'
  | sendChunk _ hb => exact finLast_of_unsent (by simpa using h.unsent hb)
  | probe g _ _ _ _ hb =>
    exact finLast_of_unsent (by simpa [TcpEngine.sendProbe] using h.unsent hb)
  | sendSynAck => refine h.same ?_ ?_ ?_ ?_ <;> simp [TcpEngine.sendSynAck]
  | sendKeepaliveProbe => refine h.same ?_ ?_ ?_ ?_ <;> simp [TcpEngine.sendKeepaliveProbe]
  | storeSynData seg =>
    have hf := storeOoo_frame e (add seg.seq 1) seg.payload { seg.flags with fin := false }
    obtain ⟨r, u, ht⟩ := hf.tcb
    exact h.same (by rw [ht]) (by rw [hf.fin]) (by rw [hf.fin]) hf.appBuf
  | storeOoo seg n =>
    have hf := storeOoo_frame e seg.seq (seg.payload.take n) seg.flags
    obtain ⟨r, u, ht⟩ := hf.tcb
    exact h.same (by rw [ht]) (by rw [hf.fin]) (by rw [hf.fin]) hf.appBuf
  | receive _ hr =>
    have hf := hr.frame
    obtain ⟨r, u, ht⟩ := hf.tcb
    exact h.same (by rw [ht]) (by rw [hf.fin]) (by rw [hf.fin]) hf.appBuf
  | finAckedTimeWait hs =>
    rw [enterTimeWait_eq (by simp [CanSend, hs])]
    exact h.same (by simp) (by simp) (by simp) (by simp)
  | processFin =>
    obtain ⟨st, -, hf⟩ | ⟨-, hf⟩ := processFin_cases (e := e)
    · rw [hf]
      exact h.same (by simp) (by simp) (by simp) (by simp)
    · rw [hf]
      exact h.same (by simp) (by simp) (by simp) (by simp)
  | listenAgain hs hp =>
    apply hopen
    rw [doReset_listen hs hp]
    simp [restorePort]
  | close => exact hopen (by simp)
  | abort => exact hopen (by simp)
  | giveUp => exact hopen (by simp)
  | giveUpRto => exact hopen (by simp)
  | timeWaitExpires => exact hopen (by simp)
  | _ => refine h.same ?_ ?_ ?_ ?_ <;> first | simp | rfl

/-- An acknowledged FIN is the number before SND.UNA, however much has been in flight. -/
def FinSettled (e : TcpEngine) : Prop :=
  e.fin.finAcked = true → e.tcb.sndUna = add e.fin.finSeq 1

theorem finSettled_of_unsent (hc : Coherent e.ctl) (hf : e.fin.finSent = false) :
    FinSettled e := by
  intro ha
  rw [not_acked_of_unsent hc hf] at ha
  cases ha

theorem FinSettled.same (h : FinSettled e) (hs : SameFin e e') : FinSettled e' := by
  obtain ⟨h1, -, h3, h4⟩ := hs
  rw [FinSettled, h1, h3, h4]
  exact h

theorem FinSettled.move (hm : Move a e e') (hc : Coherent e.ctl) (hl : FinLast e)
    (h : FinSettled e) : FinSettled e' := by
  rcases hm.fin_cases with hs | hs | ⟨hd, h1, -⟩ | ⟨ack, h1, h2, ha, h3, h4⟩
  · exact h.same hs
  · exact finSettled_of_unsent (hc.move hm) (unsent_of_state (hc.move hm) hs)
  · intro hx
    rw [h1, not_acked_of_unsent hc hd.2.1] at hx
    cases hx
  · rw [FinSettled, h3, h4, processAck_fin]
    cases hf : e.fin.finSent with
    | false => simp [not_acked_of_unsent hc hf]
    | true =>
      obtain ⟨hiff, hne⟩ := finNear_ack (fun hx => (hl hx).1) ack h1 h2 hf ha
      have hna : e.fin.finAcked = false := by
        cases hx : e.fin.finAcked with
        | false => rfl
        | true => exact absurd (h hx) hne
      rw [hna]
      simpa using hiff.mp

theorem FinLast.begin (hc : Coherent e.ctl) (hl : FinLast e) : FinLast (e.begin a) := by
  intro hf
  rw [begin_fin] at hf ⊢
  rw [begin_tcb]
  obtain ⟨h1, h2⟩ := hl hf
  have hp : e.fin.finPending = true := hc.pending hf
  refine ⟨h1, ?_⟩
  cases a with
  | send data push urgent t =>
    rw [begin, if_neg (by simp [AcceptsSend, hp])]
    exact h2
  | _ => exact h2

theorem Ready.finLast (hr : e.Ready) (hl : FinLast e) (h : engineMachine.step e a = some e') :
    FinLast e' := by
  have hend := (hr.path h).preserves (P := fun f => Coherent f.ctl ∧ FinLast f)
    (fun _ _ hm hf => ⟨hf.1.move hm, hf.2.move hm hf.1⟩)
    ⟨by rw [begin_ctl]; exact hr.coherent, hl.begin hr.coherent⟩
  exact hend.2

theorem Ready.finSettled (hr : e.Ready) (hl : FinLast e) (hf : FinSettled e)
    (h : engineMachine.step e a = some e') : FinSettled e' := by
  have hend := (hr.path h).preserves (P := fun f => Coherent f.ctl ∧ FinLast f ∧ FinSettled f)
    (fun _ _ hm hf => ⟨hf.1.move hm, hf.2.1.move hm hf.1, hf.2.2.move hm hf.1 hf.2.1⟩)
    ⟨by rw [begin_ctl]; exact hr.coherent, hl.begin hr.coherent, ?_⟩
  · exact hend.2.2
  · apply hf.same
    rw [SameFin, begin_fin, begin_tcb]
    exact ⟨rfl, rfl, rfl, rfl⟩

end TcpEngine

end HdlPlayground.Tcp

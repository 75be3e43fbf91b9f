import HdlPlayground.Tcp.SendStream

/-!
# The sender's stream over entry points

An engine rests before its connection and may come back to LISTEN; it is linked
while a connection is under way, and dead once that has been closed. Each entry
point leads from one to the next, and whatever it emits stands in the stream at
the place its sequence number says.
-/
namespace HdlPlayground.Tcp

open Lib

/-- A segment stands in the stream `T` of ISS `x`: it takes no sequence space, or
carries the units found at the offset of its sequence number. -/
def Stands (T : List Sym) (x : Int) (seg : TcpSegment) : Prop :=
  TcpEngine.Bare seg ∨ ∃ j, seg.seq = seqAt x j ∧ Carries T j seg.syms

theorem Stands.mono {T T' : List Sym} {x : Int} {seg : TcpSegment} (h : Stands T x seg)
    (hT : T <+: T') : Stands T' x seg := by
  rcases h with h | ⟨j, hj, hc⟩
  · exact Or.inl h
  · exact Or.inr ⟨j, hj, hc.mono hT⟩

namespace TcpEngine

variable {a : Action} {e e' : TcpEngine} {w : List UInt8} {k : Nat}

/-- What holds of an engine between entry points, whatever it has been through. -/
structure Kept (e : TcpEngine) : Prop where
  ready : e.Ready
  timers : e.TimerInv
  mss : e.MssOk

theorem Kept.step (hk : e.Kept) (h : engineMachine.step e a = some e') : e'.Kept := by
  refine ⟨hk.ready.step h, hk.ready.timerInv_step hk.timers h, ?_⟩
  refine hk.ready.step_preserves h ?_ fun _ _ hm => MssOk.move hm
  obtain ⟨conf, psh, hb, hc⟩ := begin_eq (e := e) a
  rw [hb]
  exact hk.mss.of_eq rfl hc

theorem kept_init (args : EngineArgs) (sched : ManualScheduler Callback) (rand : Nat)
    (hs : sched.heap = []) (hm : 1 ≤ args.sndMss) : (init args sched rand).Kept :=
  ⟨ready_init args sched rand, timerInv_init args sched rand hs, hm, Nat.le_refl _⟩

/-! ## The three phases -/

/-- No connection, and nothing of an earlier one left. -/
structure Resting (w : List UInt8) (e : TcpEngine) : Prop where
  outside : e.Outside
  idle : Idle w e
  persist : e.tm.persistTimer = none

/-- A connection is under way. -/
structure Linked (w : List UInt8) (e : TcpEngine) : Prop where
  inside : ¬ e.Outside
  inv : ∃ k, SendInv w k e

/-- The connection has been closed; a timer may be left. -/
structure Dead (e : TcpEngine) : Prop where
  closed : e.tcb.state = .closed
  idle : Idle [] e

theorem resting_init (args : EngineArgs) (sched : ManualScheduler Callback) (rand : Nat) :
    Resting [] (init args sched rand) :=
  ⟨by simp [Outside, init], ⟨rfl, rfl, rfl⟩, rfl⟩

/-- The invariant of the path of an entry point. -/
structure Staged (fresh : Prop) (a : Action) (w : List UInt8) (e : TcpEngine) : Prop where
  coherent : Coherent e.ctl
  timers : e.TimerInv
  mss : e.MssOk
  stage : Stage fresh a w e

theorem Staged.move {fresh : Prop} {f f' : TcpEngine} (hm : Move a f f')
    (h : Staged fresh a w f) : Staged fresh a w f' :=
  ⟨h.coherent.move hm, h.timers.move hm, h.mss.move hm, h.stage.move hm h.coherent h.timers h.mss⟩

theorem Kept.begin {fresh : Prop} (hk : e.Kept) (h : Stage fresh a w (e.begin a)) :
    Staged fresh a w (e.begin a) := by
  obtain ⟨conf, psh, hb, hc⟩ := begin_eq (e := e) a
  refine ⟨by rw [begin_ctl]; exact hk.ready.coherent, ?_, ?_, h⟩
  · rw [hb]; exact ⟨hk.timers.timely, hk.timers.timeWait⟩
  · rw [hb]; exact hk.mss.of_eq rfl hc

theorem Resting.begin (h : Resting w e) : Stage True a (w ++ e.buffered a) (e.begin a) := by
  obtain ⟨conf, psh, hb, -⟩ := begin_eq (e := e) a
  rw [hb]
  refine Or.inl ⟨h.outside, Or.inl ⟨trivial, ⟨h.idle.retx, ?_, h.idle.finSent⟩, h.persist⟩⟩
  simp [h.idle.appBuf]

/-- SEND is refused once a FIN is pending. -/
theorem buffered_nil (hc : Coherent e.ctl) (hf : e.fin.finSent = true) : e.buffered a = [] := by
  have hp : e.fin.finPending = true := hc.pending hf
  simp [buffered, AcceptsSend, hp]

theorem SendInv.buffer (h : SendInv w k e) (hc : Coherent e.ctl) :
    SendInv (w ++ e.buffered a) k (e.begin a) := by
  obtain ⟨conf, psh, hb, -⟩ := begin_eq (e := e) a
  rw [hb]
  cases hf : e.fin.finSent with
  | true =>
    rw [buffered_nil hc hf, List.append_nil]
    exact h.of_core (by simp [sendCore]) h.opening
  | false =>
    have hbound := h.bound
    have hs := h.stream
    rw [hf] at hbound hs
    constructor
    · exact h.iss
    · exact h.una
    · exact h.nxt
    · exact h.tiles
    · dsimp only
      rw [hf, sent_append, List.drop_append_of_le_length hbound, ← hs]
      simp
    · dsimp only
      rw [hf, sent_append, List.length_append]
      omega
    · dsimp only
      rw [hf]
      simp
    · exact h.opening

theorem Linked.begin (h : Linked w e) (hc : Coherent e.ctl) :
    Stage False a (w ++ e.buffered a) (e.begin a) := by
  obtain ⟨k, hk⟩ := h.inv
  refine Or.inr ⟨?_, k, hk.buffer hc⟩
  rw [Outside, begin_tcb]
  exact h.inside

/-- Where a path that began in one of the phases ends. -/
theorem Staged.ends {fresh : Prop} (h : Staged fresh a w e) :
    (fresh ∧ Resting w e) ∨ Resting [] e ∨ Dead e ∨ Linked w e := by
  rcases h.stage with ⟨ho, ⟨hf, hi, hp⟩ | he⟩ | ⟨ho, hs⟩
  · exact Or.inl ⟨hf, ho, hi, hp⟩
  · rcases he.final with hc | ⟨-, hp⟩
    · exact Or.inr (Or.inr (Or.inl ⟨hc, he.idle⟩))
    · exact Or.inr (Or.inl ⟨ho, he.idle, hp⟩)
  · exact Or.inr (Or.inr (Or.inr ⟨ho, hs⟩))

theorem Kept.staged {fresh : Prop} (hk : e.Kept) (h : engineMachine.step e a = some e')
    (h0 : Stage fresh a w (e.begin a)) : Staged fresh a w e' :=
  (hk.ready.path h).preserves (fun _ _ hm => Staged.move hm) (hk.begin h0)

/-- An engine without a connection that does not get one rests again. -/
theorem Resting.stays (hk : e.Kept) (hr : Resting w e) (h : engineMachine.step e a = some e')
    (ho : e'.Outside) : Resting (w ++ e.buffered a) e' ∨ Resting [] e' := by
  have hst := hk.staged h hr.begin
  by_cases hx : a.Closes
  · have hstay := (hk.ready.path h).preserves
      (P := fun f => Staged True a (w ++ e.buffered a) f ∧ f.Outside ∧ f.tm.persistTimer = none)
      (fun f f' hm ⟨hf, hfo, hfp⟩ => ?_) ⟨hk.begin hr.begin, ?_, ?_⟩
    · obtain ⟨hs, ho, hp⟩ := hstay
      rcases hs.stage with ⟨-, ⟨-, hi, -⟩ | he⟩ | ⟨hn, -⟩
      · exact Or.inl ⟨ho, hi, hp⟩
      · exact Or.inr ⟨ho, he.idle, hp⟩
      · exact absurd ho hn
    · have hfo' : f'.Outside := by
        by_contra hn
        exact (hm.control.begins hfo hn).1 hx
      refine ⟨hf.move hm, hfo', ?_⟩
      have hidle : ∃ v, Idle v f := by
        rcases hf.stage with ⟨-, ⟨-, hi, -⟩ | he⟩ | ⟨hn, -⟩
        · exact ⟨_, hi⟩
        · exact ⟨_, he.idle⟩
        · exact absurd hfo hn
      obtain ⟨v, hv⟩ := hidle
      rcases hv.move hm hf.coherent hf.timers hfo (Or.inr (Or.inl hfp)) with ⟨-, hp, -⟩ | ⟨hn, -⟩
      · exact hp hfp
      · exact absurd hfo' hn
    · rw [Outside, begin_tcb]
      exact hr.outside
    · obtain ⟨conf, psh, hb, -⟩ := begin_eq (e := e) a
      rw [hb]
      exact hr.persist
  · rcases hst.stage with ⟨-, ⟨-, hi, hp⟩ | he⟩ | ⟨hn, -⟩
    · exact Or.inl ⟨ho, hi, hp⟩
    · exact absurd he.closes hx
    · exact absurd ho hn

/-- An entry point that opens nothing leaves a closed engine closed. -/
theorem Dead.step (hk : e.Kept) (hd : Dead e) (ho : ¬ a.Opens)
    (h : engineMachine.step e a = some e') : Dead e' := by
  have h0 : Dead (e.begin a) := by
    obtain ⟨conf, psh, hb, -⟩ := begin_eq (e := e) a
    have hn : e.buffered a = [] := by simp [buffered, AcceptsSend, hd.closed]
    rw [hb, hn]
    exact ⟨hd.closed, hd.idle.retx, by simpa using hd.idle.appBuf, hd.idle.finSent⟩
  have hpath := (hk.ready.path h).preserves
    (P := fun f => Coherent f.ctl ∧ f.TimerInv ∧ Dead f) (fun f f' hm hf => ?_)
    ⟨by rw [begin_ctl]; exact hk.ready.coherent, by
      obtain ⟨conf, psh, hb, -⟩ := begin_eq (e := e) a
      rw [hb]
      exact ⟨hk.timers.timely, hk.timers.timeWait⟩, h0⟩
  · exact hpath.2.2
  · obtain ⟨hc, ht, hd⟩ := hf
    refine ⟨hc.move hm, ht.move hm, ?_⟩
    have hout : f.Outside := by simp [Outside, hd.closed]
    have hout' : f'.Outside := by
      by_contra hn
      exact ho ((hm.control.begins hout hn).2 hd.closed)
    have hcl : f'.tcb.state = .closed := by
      rcases hout'.cases with hs | hs
      · exact hs
      · exact absurd (hm.control.listens hd.closed hs) ho
    rcases hd.idle.move hm hc ht hout (Or.inl rfl) with ⟨-, -, hi | he⟩ | ⟨hn, -⟩
    · exact ⟨hcl, hi⟩
    · exact ⟨hcl, he.idle⟩
    · exact absurd hout' hn

/-! ## What is emitted -/

/-- The FIN has its place in the stream once it is out; so it has when all is over. -/
def finTag (e : TcpEngine) : Bool := e.fin.finSent || decide e.Outside

theorem takeSyn_iss (seg : TcpSegment) : (e.takeSyn seg).tcb.iss = e.tcb.iss := by
  obtain ⟨m, -, -, h⟩ := takeSyn_cases (e := e) seg
  rw [h]
  dsimp only
  split <;> simp

theorem enterClosed_tcb (hb : e.Blocked) :
    e.enterClosed.tcb = { e.tcb with state := .closed } := by
  obtain ⟨tm, h⟩ := enterClosed_closeDown hb
  simp [h, closeDown]

theorem giveUp_tcb (msg : String) (hb : e.Blocked) :
    (e.giveUp msg).tcb = { e.tcb with state := .closed } := by
  obtain ⟨f, hf, hfb, h⟩ := giveUp_closes msg hb
  rw [h, enterClosed_tcb hfb]
  obtain rfl | rfl := hf <;> simp

/-- A connection keeps its ISS to its end, and after it until the next one. -/
theorem Move.iss (hm : Move a e e') (ho : ¬ e.Outside ∨ e'.Outside) :
    e'.tcb.iss = e.tcb.iss := by
  cases hm with
  | connect hs =>
    exfalso
    have hs' := hs.imp And.left id
    rcases ho with ho | ho
    · rcases hs' with hs | hs <;> simp [Outside, hs] at ho
    · simp [connect_eq hs', Outside, dialled] at ho
  | startListening => simp [TcpEngine.startListening]
  | acceptSyn seg _ hs =>
    exfalso
    obtain ⟨m, -, -, ht⟩ := acceptSyn_eq (e := e) seg hs
    rcases ho with ho | ho
    · simp [Outside, hs] at ho
    · simp [ht, Outside, listenTaken, listenTcb] at ho
  | sendChunk => simp [queueChunk]
  | synEstablished seg => simp [takeSyn_iss]
  | synReceived seg => simp [becomeSynReceived, takeSyn_iss]
  | completeOpen seg => simp [openCompleted]
  | sendSynAck => simp [TcpEngine.sendSynAck]
  | sendKeepaliveProbe => simp [TcpEngine.sendKeepaliveProbe]
  | probe g => simp [TcpEngine.sendProbe]
  | sendFin => obtain ⟨st, ht, -⟩ := sendFin_tcb (e := e); simp [ht]
  | probeFin g => obtain ⟨st, ht, -⟩ := sendFin_tcb (e := e.fire g); simp [ht]
  | storeSynData seg =>
    obtain ⟨r, u, ht⟩ :=
      (storeOoo_frame e (add seg.seq 1) seg.payload { seg.flags with fin := false }).tcb
    rw [ht]
  | storeOoo seg n =>
    obtain ⟨r, u, ht⟩ := (storeOoo_frame e seg.seq (seg.payload.take n) seg.flags).tcb
    rw [ht]
  | receive _ hr =>
    obtain ⟨r, u, ht⟩ := hr.frame.tcb
    rw [ht]
  | finAckedTimeWait hs => rw [enterTimeWait_eq (by simp [CanSend, hs])]; simp
  | processFin =>
    obtain ⟨st, -, hf⟩ | ⟨-, hf⟩ := processFin_cases (e := e) <;> rw [hf] <;> simp
  | listenAgain hs hp => rw [doReset_listen hs hp]; simp [restorePort]
  | close _ hb => rw [enterClosed_tcb hb]
  | abort _ hb => rw [enterClosed_tcb (sendRst_blocked hb)]; simp
  | giveUp msg _ hb => rw [giveUp_tcb msg hb]
  | giveUpRto g c msg _ _ _ _ hb =>
    cases c with
    | true =>
      have hc : (e.fire g).countRto.Blocked := (hb.fire g).of_view rfl
      simp [giveUp_tcb msg hc]
    | false => simp [giveUp_tcb msg (hb.fire g)]
  | timeWaitExpires g _ _ _ hb => rw [enterClosed_tcb (hb.fire g)]; simp
  | _ => first | simp | rfl

/-- Every entry of the queue stands in the stream. -/
theorem SendInv.stands {o : Outgoing} {seg : TcpSegment} (h : SendInv w k e) (ho : o ∈ e.buf.retx)
    (ht : Transmits o seg) : Stands (sent w e.fin.finSent) e.tcb.iss seg := by
  have hsyms : seg.syms = o.syms := by
    simp only [TcpSegment.syms, Outgoing.syms, symsOf, ht.payload, ht.flags.1, ht.flags.2.1]
  have hgen (q : List Outgoing) (j : Nat) (hT : Tiles e.tcb.iss j q)
      (hS : Carries (sent w e.fin.finSent) j (unacked q)) (ho : o ∈ q) :
      ∃ i, o.seq = seqAt e.tcb.iss i ∧ Carries (sent w e.fin.finSent) i o.syms := by
    induction q generalizing j with
    | nil => cases ho
    | cons p q ih =>
      obtain ⟨h1, -, -, h4⟩ := hT
      rw [unacked_cons] at hS
      rcases List.mem_cons.mp ho with rfl | ho
      · exact ⟨j, h1, hS.append_left⟩
      · have hr := hS.append_right
        rw [Outgoing.length_syms] at hr
        exact ih (j + p.segLen) h4 hr ho
  obtain ⟨i, hi, hc⟩ := hgen e.buf.retx k h.tiles (carries_of_eq_drop h.stream) ho
  exact Or.inr ⟨i, ht.seq.trans hi, hsyms ▸ hc⟩

/-- What keeps a segment standing while an entry point goes on. -/
structure Holds (a : Action) (x : Int) (b : Bool) (e : TcpEngine) : Prop where
  under : ¬ e.Outside ∨ Ended a e
  iss : e.tcb.iss = x
  tag : b = true → e.finTag = true

theorem Staged.linked_or_ended {fresh : Prop} (h : Staged fresh a w e) :
    e.Outside ∧ e.buf.retx = [] ∨ ¬ e.Outside ∧ ∃ k, SendInv w k e := by
  rcases h.stage with ⟨ho, ⟨-, hi, -⟩ | he⟩ | hs
  · exact Or.inl ⟨ho, hi.retx⟩
  · exact Or.inl ⟨ho, he.idle.retx⟩
  · exact Or.inr hs

theorem Holds.move {x : Int} {b : Bool} {fresh : Prop} (hm : Move a e e')
    (hs : Staged fresh a w e) (h : Holds a x b e) : Holds a x b e' := by
  rcases h.under with ho | he
  · rcases hs.stage with ⟨hx, -⟩ | ⟨-, k, hk⟩
    · exact absurd hx ho
    refine ⟨?_, (hm.iss (Or.inl ho)).trans h.iss, fun hb => ?_⟩
    · rcases hk.move hm hs.mss ho with he | ⟨ho', -⟩
      · exact Or.inr he
      · exact Or.inl ho'
    · have ht := h.tag hb
      simp only [finTag, Bool.or_eq_true, decide_eq_true_eq] at ht ⊢
      rcases hm.control.finSent (ht.resolve_right ho) with hf | hf
      · exact Or.inl hf
      · exact Or.inr hf
  · have he' := he.move hm hs.coherent hs.timers
    exact ⟨Or.inr he', (hm.iss (Or.inr he'.outside)).trans h.iss,
      fun _ => by simp [finTag, he'.outside]⟩

theorem sent_finTag (w : List UInt8) {b : Bool} (h : b = true → e.finTag = true) :
    sent w b <+: sent w e.finTag := by
  cases b with
  | true => rw [h rfl]
  | false =>
    cases e.finTag with
    | true => exact sent_prefix w false
    | false => exact List.prefix_rfl

/-- A segment that a move emits takes no sequence space or stands in the stream. -/
theorem Staged.emits {fresh : Prop} {f : TcpEngine} {seg : TcpSegment} (hm : Move a e f)
    (hs : Staged fresh a w e) (he : Emits a e f (.tx seg)) :
    Bare seg ∨ (∃ b, Stands (sent w b) f.tcb.iss seg ∧ Holds a f.tcb.iss b f) ∧
      (¬ e.Outside ∨ ¬ f.Outside) := by
  have hs' := hs.move hm
  cases he with
  | bare _ hb => exact Or.inl hb
  | reset _ hb => exact Or.inl hb
  | rstReply _ _ hb => exact Or.inl hb
  | queued o _ hq ht =>
    rcases hs'.linked_or_ended with ⟨-, hn⟩ | ⟨ho, k, hk⟩
    · rw [hn] at hq
      simp at hq
    · refine Or.inr
        ⟨⟨f.fin.finSent, hk.stands (by rw [hq]; simp) ht, Or.inl ho, rfl, ?_⟩, Or.inr ho⟩
      intro hb
      simp [finTag, hb]
  | resent o rest _ hq ht =>
    rcases hs.linked_or_ended with ⟨-, hn⟩ | ⟨ho, k, hk⟩
    · rw [hn] at hq
      cases hq
    · have hst := hk.stands (by rw [hq]; simp) ht
      rw [← hm.iss (Or.inl ho)] at hst
      refine Or.inr
        ⟨⟨e.fin.finSent, hst, Holds.move hm hs ⟨Or.inl ho, ?_, fun hb => ?_⟩⟩, Or.inl ho⟩
      · rw [hm.iss (Or.inl ho)]
      · simp [finTag, hb]
  | synAck _ hst hseq hsyn hfin hp =>
    have ho : ¬ e.Outside := by simp [Outside, hst]
    rcases hs.linked_or_ended with ⟨hx, -⟩ | ⟨-, k, hk⟩
    · exact absurd hx ho
    refine Or.inr ⟨⟨e.fin.finSent, Or.inr ⟨0, ?_, ?_⟩,
      Holds.move hm hs ⟨Or.inl ho, ?_, fun hb => ?_⟩⟩, Or.inl ho⟩
    · rw [hm.iss (Or.inl ho), hseq, seqAt_zero hk.iss.1 hk.iss.2]
    · have : seg.syms = [.syn] := by
        simp only [TcpSegment.syms, symsOf, show seg.flags.syn = true from hsyn,
          show seg.flags.fin = false from hfin, hp]
        simp
      rw [this, Carries, List.drop_zero, sent]
      exact ⟨_, rfl⟩
    · rw [hm.iss (Or.inl ho)]
    · simp [finTag, hb]

/-- Every segment an entry point emits takes no sequence space or stands in the stream. -/
theorem Kept.emits {fresh : Prop} (hk : e.Kept) (h : engineMachine.step e a = some e')
    (h0 : Stage fresh a w (e.begin a)) :
    Logs (fun ev => ∀ seg, ev = .tx seg → Stands (sent w e'.finTag) e'.tcb.iss seg) e e' := by
  apply Logs.trans (f := e.begin a) (.none (begin_log a))
  obtain ⟨evs, hl, hall⟩ := (hk.ready.path h).logs (fun _ _ hm => Staged.move hm) (hk.begin h0)
  refine ⟨evs, hl, fun ev hev seg hseg => ?_⟩
  subst hseg
  obtain ⟨f, f', hp, hm, hp', hf, hev⟩ := hall _ hev
  obtain ⟨data, hd⟩ | hem := hev
  · cases hd
  · rcases hf.emits hm hem with hb | ⟨⟨b, hst, hh⟩, -⟩
    · exact Or.inl hb
    · have hend := hp'.preserves
        (P := fun g => Staged fresh a w g ∧ Holds a f'.tcb.iss b g)
        (fun _ _ hm hg => ⟨hg.1.move hm, hg.2.move hm hg.1⟩) ⟨hf.move hm, hh⟩
      rw [hend.2.iss]
      exact hst.mono (sent_finTag w hend.2.tag)

theorem begin_finTag (a : Action) : (e.begin a).finTag = e.finTag := by
  have hc := begin_ctl (e := e) (a := a)
  simp only [ctl, Prod.mk.injEq] at hc
  rw [finTag, finTag, hc.2]
  congr 1
  exact decide_eq_decide.mpr (by rw [Outside, Outside, hc.1])

/-- A connection keeps its ISS, and its stream only grows, to the end of the entry
point that closes it. -/
theorem Linked.keeps (hk : e.Kept) (hl : Linked w e) (h : engineMachine.step e a = some e') :
    e'.tcb.iss = e.tcb.iss ∧
      sent w e.finTag <+: sent (w ++ e.buffered a) e'.finTag := by
  have hbegin : Holds a e.tcb.iss e.finTag (e.begin a) := by
    refine ⟨Or.inl ?_, ?_, fun hb => ?_⟩
    · rw [Outside, begin_tcb]
      exact hl.inside
    · rw [begin_tcb]
    · rw [begin_finTag]
      exact hb
  have hend := (hk.ready.path h).preserves
    (P := fun f => Staged False a (w ++ e.buffered a) f ∧ Holds a e.tcb.iss e.finTag f)
    (fun _ _ hm hf => ⟨hf.1.move hm, hf.2.move hm hf.1⟩)
    ⟨hk.begin (hl.begin hk.ready.coherent), hbegin⟩
  refine ⟨hend.2.iss, ?_⟩
  refine List.IsPrefix.trans ?_ (sent_finTag (w ++ e.buffered a) hend.2.tag)
  cases ht : e.finTag with
  | true =>
    have hf : e.fin.finSent = true := by
      simpa [finTag, hl.inside] using ht
    rw [buffered_nil hk.ready.coherent hf, List.append_nil]
  | false =>
    rw [sent_append]
    exact List.prefix_append _ _

/-- An engine that began without a connection and ends without one has sent nothing. -/
theorem Resting.quiet (hk : e.Kept) (hr : Resting w e) (h : engineMachine.step e a = some e')
    (ho : e'.Outside) : Logs (fun ev => ∀ seg, ev = .tx seg → Bare seg) e e' := by
  apply Logs.trans (f := e.begin a) (.none (begin_log a))
  have hstay {f f' : TcpEngine} (hm : Move a f f') (hx : a.Closes) (hf : f.Outside) :
      f'.Outside := by
    by_contra hn
    exact (hm.control.begins hf hn).1 hx
  have hout : (e.begin a).Outside := by
    rw [Outside, begin_tcb]
    exact hr.outside
  obtain ⟨evs, hl, hall⟩ := (hk.ready.path h).logs
    (P := fun f => Staged True a (w ++ e.buffered a) f ∧ (a.Closes → f.Outside))
    (fun f f' hm hf => ⟨hf.1.move hm, fun hx => hstay hm hx (hf.2 hx)⟩)
    ⟨hk.begin hr.begin, fun _ => hout⟩
  refine ⟨evs, hl, fun ev hev seg hseg => ?_⟩
  subst hseg
  obtain ⟨f, f', -, hm, hp', ⟨hf, hx⟩, hev⟩ := hall _ hev
  obtain ⟨data, hd⟩ | hem := hev
  · cases hd
  · rcases hf.emits hm hem with hb | ⟨⟨b, -, hh⟩, hin⟩
    · exact hb
    exfalso
    have hend := hp'.preserves
      (P := fun g => Staged True a (w ++ e.buffered a) g ∧ Holds a f'.tcb.iss b g)
      (fun _ _ hm hg => ⟨hg.1.move hm, hg.2.move hm hg.1⟩) ⟨hf.move hm, hh⟩
    rcases hend.2.under with hn | he
    · exact hn ho
    · have hfo := hx he.closes
      rcases hin with hin | hin
      · exact hin hfo
      · exact hin (hstay hm he.closes hfo)

end TcpEngine

end HdlPlayground.Tcp

import HdlPlayground.Tcp.Custody
import HdlPlayground.Tcp.Unacknowledged

/-!
# Nothing is acknowledged that has not been sent

What an engine has put on the wire is of the part of its stream that has left the send buffer.
Two engines on a network that makes nothing up therefore keep in step: SND.UNA of either is at most
what the other has taken, and that is at most SND.NXT.
-/
namespace HdlPlayground.Tcp

open Lib (Carries)

namespace TcpEngine

variable {a : Action} {e f : TcpEngine} {w : List UInt8} {k : Nat} {seg : TcpSegment}

/-- The octets written that have left the send buffer. -/
def dispatched (e : TcpEngine) (w : List UInt8) : List UInt8 :=
  w.take (w.length - e.buf.appBuf.length)

theorem dispatched_isPrefix (e : TcpEngine) (w : List UInt8) : e.dispatched w <+: w :=
  List.take_prefix _ w

theorem dispatched_nil (h : e.buf.appBuf = []) : e.dispatched w = w := by
  rw [dispatched, h, List.length_nil, Nat.sub_zero, List.take_length]

theorem dispatched_mono (h : f.buf.appBuf.length ≤ e.buf.appBuf.length) :
    e.dispatched w <+: f.dispatched w := by
  apply List.take_prefix_take_left
  omega

/-- A SEND puts what it writes in the buffer. -/
theorem begin_dispatched (a : Action) :
    (e.begin a).dispatched (w ++ e.buffered a) = e.dispatched w := by
  obtain ⟨conf, psh, hb, -⟩ := e.begin_eq a
  rw [hb]
  unfold dispatched
  rw [List.length_append, List.length_append, Nat.add_sub_add_right,
    List.take_append_of_le_length (Nat.sub_le _ _)]

theorem takeSyn_appBuf (seg : TcpSegment) : (e.takeSyn seg).buf.appBuf = e.buf.appBuf := by
  obtain ⟨m, -, -, hm⟩ := takeSyn_cases (e := e) seg
  rw [hm]
  split <;> simp

/-- No move adds to the send buffer: that is done where the entry point begins. -/
theorem Move.appBuf_le (h : Move a e f) : f.buf.appBuf.length ≤ e.buf.appBuf.length := by
  cases h with
  | connect ho _ =>
    rw [connect_eq (ho.imp And.left id)]
    simp [dialled]
  | acceptSyn seg _ hs =>
    obtain ⟨m, -, -, hm⟩ := acceptSyn_eq (e := e) seg hs
    rw [hm]
    simp [listenTaken]
  | sendChunk =>
    rw [sendChunk_buf]
    simp
  | probe g => simp [sendProbe]
  | storeSynData seg =>
    rw [(storeOoo_frame e (add seg.seq 1) seg.payload { seg.flags with fin := false }).appBuf]
  | storeOoo seg n => rw [(storeOoo_frame e seg.seq (seg.payload.take n) seg.flags).appBuf]
  | receive _ hr => rw [hr.frame.appBuf]
  | finAckedTimeWait hs =>
    rw [enterTimeWait_eq (by simp [CanSend, hs])]
    simp
  | processFin =>
    obtain ⟨st, -, hf⟩ | ⟨-, hf⟩ := processFin_cases (e := e)
    · simp [hf]
    · simp [hf]
  | listenAgain hs hp =>
    rw [doReset_listen hs hp]
    simp [restorePort]
  | close => simp [enterClosed_buf]
  | abort => simp [enterClosed_buf]
  | giveUp msg => simp [giveUp_buf]
  | giveUpRto g c msg => cases c <;> simp [giveUp_buf]
  | timeWaitExpires g => simp [enterClosed_buf]
  | startListening => simp [TcpEngine.startListening]
  | sendSynAck => simp [TcpEngine.sendSynAck]
  | synEstablished seg => simp [takeSyn_appBuf]
  | synReceived seg => simp [becomeSynReceived, takeSyn_appBuf]
  | completeOpen seg => simp [openCompleted]
  | _ => first | exact le_rfl | simp

/-! ## What is emitted has left the buffer -/

/-- An engine whose buffer is empty. -/
def flushed (e : TcpEngine) : TcpEngine := { e with buf := { e.buf with appBuf := [] } }

/-- The SYN is never in the buffer. -/
theorem SendInv.appBuf_le (h : SendInv w k e) : e.buf.appBuf.length ≤ w.length := by
  have hlen := h.length_eq
  cases hf : e.fin.finSent with
  | true =>
    rw [h.appBuf_nil hf]
    exact Nat.zero_le _
  | false =>
    rw [hf, Bool.toNat_false] at hlen
    cases k with
    | zero =>
      have hpos := h.unacked_pos
      omega
    | succ k => omega

/-- The queue by itself represents what has left the buffer. -/
theorem SendInv.flushed (h : SendInv w k e) : SendInv (e.dispatched w) k e.flushed := by
  have hlen := h.length_eq
  have hstream := h.stream
  have hcut : (e.dispatched w).length = w.length - e.buf.appBuf.length := by
    rw [dispatched, List.length_take]
    omega
  have hle := h.appBuf_le
  have hbound : k ≤ (sent (e.dispatched w) e.fin.finSent).length := by
    rw [length_sent, hcut]
    omega
  have hsent : unacked e.buf.retx = (sent (e.dispatched w) e.fin.finSent).drop k := by
    cases hf : e.fin.finSent with
    | true =>
      have hb := h.appBuf_nil hf
      rw [hf, hb, List.map_nil, List.append_nil] at hstream
      rw [dispatched_nil hb]
      exact hstream
    | false =>
      rw [hf] at hstream hbound
      have hw : e.dispatched w ++ w.drop (w.length - e.buf.appBuf.length) = w :=
        List.take_append_drop _ w
      rw [← hw, sent_append, List.drop_append_of_le_length hbound] at hstream
      apply List.append_inj_left' hstream
      rw [List.length_map, List.length_map, List.length_drop]
      omega
  constructor
  · exact h.iss
  · exact h.una
  · exact h.nxt
  · exact h.tiles
  · show unacked e.buf.retx ++ [] = _
    rw [List.append_nil]
    exact hsent
  · exact hbound
  · intro hf
    rw [dispatched_nil (h.appBuf_nil hf)]
    exact h.finSeq hf
  · exact h.opening

theorem SendInv.sent_le (h : SendInv w k e) :
    k + (unacked e.buf.retx).length = (e.dispatched w).length + 1 + e.fin.finSent.toNat :=
  h.flushed.length_eq

/-- The stream of what has been dispatched only grows, and not past its FIN. -/
theorem sent_dispatched {b c : Bool} (h : f.buf.appBuf.length ≤ e.buf.appBuf.length)
    (hb : b = true → e.buf.appBuf = []) (hbc : b = true → c = true) :
    sent (e.dispatched w) b <+: sent (f.dispatched w) c := by
  cases b with
  | true =>
    have he := hb rfl
    have hf : f.buf.appBuf = [] := by
      rw [he] at h
      exact List.length_eq_zero_iff.mp (Nat.le_zero.mp h)
    rw [hbc rfl, dispatched_nil he, dispatched_nil hf]
  | false =>
    obtain ⟨r, hr⟩ := dispatched_mono (w := w) h
    have hgrow : sent (e.dispatched w) false <+: sent (f.dispatched w) false := by
      rw [← hr, sent_append]
      exact List.prefix_append _ _
    cases c with
    | true => exact hgrow.trans <| sent_prefix _ false
    | false => exact hgrow

/-- A segment that a move emits stands in what has left the buffer. -/
theorem Staged.sends {fresh : Prop} (hm : Move a e f) (hs : Staged fresh a w e)
    (he : Emits a e f (.tx seg)) :
    Bare seg ∨ ∃ b, Stands (sent (f.dispatched w) b) f.tcb.iss seg ∧ Holds a f.tcb.iss b f ∧
      (b = true → f.buf.appBuf = []) := by
  have hs' := hs.move hm
  cases he with
  | bare _ hb => exact Or.inl hb
  | reset _ hb => exact Or.inl hb
  | rstReply _ _ hb => exact Or.inl hb
  | queued o _ hq ht =>
    rcases hs'.linked_or_ended with ⟨-, hn⟩ | ⟨ho, k, hk⟩
    · rw [hn] at hq
      simp at hq
    · have hst : Stands (sent (f.dispatched w) f.fin.finSent) f.tcb.iss seg := by
        apply hk.flushed.stands (o := o) _ ht
        show o ∈ f.buf.retx
        rw [hq]
        exact List.mem_append_right _ List.mem_cons_self
      refine Or.inr ⟨f.fin.finSent, hst, ⟨Or.inl ho, rfl, fun hb => ?_⟩, hk.appBuf_nil⟩
      rw [finTag, hb, Bool.true_or]
  | resent o rest _ hq ht =>
    rcases hs.linked_or_ended with ⟨-, hn⟩ | ⟨ho, k, hk⟩
    · rw [hn] at hq
      cases hq
    · have hst : Stands (sent (e.dispatched w) e.fin.finSent) e.tcb.iss seg := by
        apply hk.flushed.stands (o := o) _ ht
        show o ∈ e.buf.retx
        rw [hq]
        exact List.mem_cons_self
      rw [← hm.iss (Or.inl ho)] at hst
      have hhold : Holds a f.tcb.iss e.fin.finSent f := by
        apply Holds.move hm hs
        refine ⟨Or.inl ho, (hm.iss (Or.inl ho)).symm, fun hb => ?_⟩
        rw [finTag, hb, Bool.true_or]
      have hle := hm.appBuf_le
      refine Or.inr ⟨e.fin.finSent, hst.mono ?_, hhold, fun hb => ?_⟩
      · exact sent_dispatched hle hk.appBuf_nil id
      · rw [hk.appBuf_nil hb] at hle
        exact List.length_eq_zero_iff.mp (Nat.le_zero.mp hle)
  | synAck _ hst hseq hsyn hfin hp =>
    have ho : ¬ e.Outside := by simp [Outside, hst]
    rcases hs.linked_or_ended with ⟨hx, -⟩ | ⟨-, k, hk⟩
    · exact absurd hx ho
    have hsyms : seg.syms = [.syn] := by
      simp only [TcpSegment.syms, symsOf, show seg.flags.syn = true from hsyn,
        show seg.flags.fin = false from hfin, hp]
      simp
    have hhold : Holds a f.tcb.iss false f := by
      apply Holds.move hm hs
      exact ⟨Or.inl ho, (hm.iss (Or.inl ho)).symm, fun hb => absurd hb (by decide)⟩
    refine Or.inr ⟨false, Or.inr ⟨0, ?_, ?_⟩, hhold, fun hb => absurd hb (by decide)⟩
    · rw [hm.iss (Or.inl ho), hseq, seqAt_zero hk.iss.1 hk.iss.2]
    · rw [hsyms, Carries, List.drop_zero, sent]
      exact ⟨_, rfl⟩

/-- Every segment an entry point emits stands in what has left the buffer. -/
theorem Kept.sends {fresh : Prop} (hk : e.Kept) (h : engineMachine.step e a = some f)
    (h0 : Stage fresh a w (e.begin a)) :
    Logs (fun ev => ∀ seg, ev = .tx seg → Stands (sent (f.dispatched w) f.finTag) f.tcb.iss seg)
      e f := by
  apply Logs.trans (f := e.begin a) (.none (begin_log a))
  obtain ⟨evs, hl, hall⟩ := (hk.ready.path h).logs (fun _ _ hm => Staged.move hm) (hk.begin h0)
  refine ⟨evs, hl, fun ev hev seg hseg => ?_⟩
  subst hseg
  obtain ⟨g, g', hp, hm, hp', hg, hev⟩ := hall _ hev
  obtain ⟨data, hd⟩ | hem := hev
  · cases hd
  · rcases hg.sends hm hem with hb | ⟨b, hst, hh, hbuf⟩
    · exact Or.inl hb
    · -- to the end of the entry point the connection and what it has sent are kept
      have hend := hp'.preserves
        (P := fun c => Staged fresh a w c ∧ Holds a g'.tcb.iss b c ∧
          c.buf.appBuf.length ≤ g'.buf.appBuf.length)
        (fun _ _ hm hc => ⟨hc.1.move hm, hc.2.1.move hm hc.1, hm.appBuf_le.trans hc.2.2⟩)
        ⟨hg.move hm, hh, le_rfl⟩
      obtain ⟨-, hhold, hle⟩ := hend
      rw [hhold.iss]
      exact hst.mono (sent_dispatched hle hbuf hhold.tag)

/-- What has left the buffer of a connection only grows, to the end of the entry point that closes
it. -/
theorem Linked.dispatches (hk : e.Kept) (hl : Linked w e) (h : engineMachine.step e a = some f) :
    sent (e.dispatched w) e.finTag <+: sent (f.dispatched (w ++ e.buffered a)) f.finTag := by
  obtain ⟨k, hsend⟩ := hl.inv
  have htag : e.finTag = e.fin.finSent := by simp [finTag, hl.inside]
  have hbegin : Holds a e.tcb.iss e.finTag (e.begin a) := by
    refine ⟨Or.inl ?_, ?_, fun hb => ?_⟩
    · rw [Outside, begin_tcb]
      exact hl.inside
    · rw [begin_tcb]
    · rw [begin_finTag]
      exact hb
  have hend := (hk.ready.path h).preserves
    (P := fun c => Staged False a (w ++ e.buffered a) c ∧ Holds a e.tcb.iss e.finTag c ∧
      c.buf.appBuf.length ≤ (e.begin a).buf.appBuf.length)
    (fun _ _ hm hc => ⟨hc.1.move hm, hc.2.1.move hm hc.1, hm.appBuf_le.trans hc.2.2⟩)
    ⟨hk.begin (hl.begin hk.ready.coherent), hbegin, le_rfl⟩
  rw [← begin_dispatched a]
  apply sent_dispatched hend.2.2 (fun hb => ?_) hend.2.1.tag
  have hf : e.fin.finSent = true := htag.symm.trans hb
  obtain ⟨conf, psh, hb, -⟩ := e.begin_eq a
  rw [hb, buffered_nil hk.ready.coherent hf]
  simpa using hsend.appBuf_nil hf

/-! ## The number of the SYN that synchronized -/

theorem takeSyn_irs (seg : TcpSegment) : (e.takeSyn seg).tcb.irs = seg.seq := by
  obtain ⟨m, -, -, hm⟩ := takeSyn_cases (e := e) seg
  rw [hm]
  split <;> simp

/-- What of an engine its peer's SYN settles is left alone. -/
structure Unsettled (e f : TcpEngine) : Prop where
  irs : f.tcb.irs = e.tcb.irs
  mss : f.tcb.sndMss = e.tcb.sndMss
  state : f.tcb.state ∈ SyncStates → e.tcb.state ∈ SyncStates

theorem Unsettled.of_eq (ht : f.tcb.irs = e.tcb.irs ∧ f.tcb.sndMss = e.tcb.sndMss)
    (hs : f.tcb.state = e.tcb.state) : Unsettled e f :=
  ⟨ht.1, ht.2, fun h => hs ▸ h⟩

theorem Unsettled.of_sync (ht : f.tcb.irs = e.tcb.irs ∧ f.tcb.sndMss = e.tcb.sndMss)
    (hs : e.tcb.state ∈ SyncStates) : Unsettled e f :=
  ⟨ht.1, ht.2, fun _ => hs⟩

theorem Unsettled.of_outside (ht : f.tcb.irs = e.tcb.irs ∧ f.tcb.sndMss = e.tcb.sndMss)
    (hs : f.tcb.state ∉ SyncStates) : Unsettled e f :=
  ⟨ht.1, ht.2, fun h => absurd h hs⟩

theorem RecvFrame.unsettled (h : RecvFrame e f) : Unsettled e f := by
  obtain ⟨r, u, ht⟩ := h.tcb
  exact .of_eq (by rw [ht]; exact ⟨rfl, rfl⟩) h.state

theorem sendFin_unsettled : Unsettled e e.sendFin := by
  obtain ⟨st, ht, hst⟩ := sendFin_tcb (e := e)
  refine ⟨by simp [ht], by simp [ht], fun hf => ?_⟩
  rw [ht] at hf
  rcases hst with ⟨hs, -⟩ | ⟨hs, -⟩ | ⟨hs, -⟩ | ⟨-, rfl⟩
  · simp [hs]
  · simp [hs]
  · simp [hs]
  · simpa using hf

theorem enterClosed_unsettled (hb : e.Blocked) : Unsettled e e.enterClosed :=
  .of_outside (by simp [enterClosed_tcb hb]) (by simp)

theorem giveUp_unsettled (msg : String) (hb : e.Blocked) : Unsettled e (e.giveUp msg) :=
  .of_outside (by simp [giveUp_tcb msg hb]) (by simp [giveUp_state])

/-- An engine is synchronized by a SYN: IRS is its number, and SND.MSS is agreed on by it. -/
theorem Move.settles (h : Move a e f) :
    Unsettled e f ∨ ∃ seg, a.Carries seg ∧ seg.syn = true ∧ f.tcb.irs = seg.seq ∧
      f.tcb.sndMss = e.agreedMss seg := by
  cases h with
  | acceptSyn seg hc hs hsyn =>
    obtain ⟨m, rfl, hm⟩ := acceptSyn_mss (e := e) seg hs
    exact Or.inr ⟨seg, hc, hsyn, by simp [hm, listenTaken, listenTcb],
      by simp [hm, listenTaken, listenTcb]⟩
  | synEstablished seg hc ht =>
    exact Or.inr ⟨seg, hc, ht.2.1, by simp [takeSyn_irs], by simp [takeSyn_agreedMss]⟩
  | synReceived seg hc ht =>
    exact Or.inr ⟨seg, hc, ht.2.1, by simp [becomeSynReceived, takeSyn_irs],
      by simp [becomeSynReceived, takeSyn_agreedMss]⟩
  | connect ho _ =>
    rw [connect_eq (ho.imp And.left id)]
    exact Or.inl (.of_outside (by simp [dialled]) (by simp [dialled]))
  | startListening =>
    exact Or.inl (.of_outside (by simp [TcpEngine.startListening])
      (by simp [TcpEngine.startListening]))
  | completeOpen seg _ hx =>
    have hs : e.tcb.state = .synReceived := hx.1
    exact Or.inl (.of_sync (by simp [openCompleted]) (by simp [hs]))
  | sendSynAck =>
    exact Or.inl (.of_eq (by simp [TcpEngine.sendSynAck]) (by simp [TcpEngine.sendSynAck]))
  | sendKeepaliveProbe =>
    exact Or.inl (.of_eq (by simp [TcpEngine.sendKeepaliveProbe])
      (by simp [TcpEngine.sendKeepaliveProbe]))
  | sendChunk => exact Or.inl (.of_eq (by simp [queueChunk]) (by simp [queueChunk]))
  | probe g => exact Or.inl (.of_eq (by simp [sendProbe]) (by simp [sendProbe]))
  | sendFin => exact Or.inl sendFin_unsettled
  | probeFin g =>
    have hfin := sendFin_unsettled (e := e.fire g)
    exact Or.inl ⟨by simpa using hfin.irs, by simpa using hfin.mss, by simpa using hfin.state⟩
  | storeSynData seg =>
    exact Or.inl (storeOoo_frame e (add seg.seq 1) seg.payload
      { seg.flags with fin := false }).unsettled
  | storeOoo seg n =>
    exact Or.inl (storeOoo_frame e seg.seq (seg.payload.take n) seg.flags).unsettled
  | receive _ hr => exact Or.inl hr.frame.unsettled
  | finAckedWait hs => exact Or.inl (.of_sync (by simp) (by simp [hs]))
  | finAckedTimeWait hs =>
    rw [enterTimeWait_eq (by simp [CanSend, hs])]
    exact Or.inl (.of_sync (by simp) (by simp [hs]))
  | processFin hs =>
    have hsync : e.tcb.state ∈ SyncStates := List.mem_cons_of_mem _ (List.mem_cons_of_mem _ hs)
    obtain ⟨st, -, hp⟩ | ⟨-, hp⟩ := processFin_cases (e := e)
    · exact Or.inl (.of_sync (by simp [hp]) hsync)
    · exact Or.inl (.of_sync (by simp [hp]) hsync)
  | listenAgain hs hp =>
    rw [doReset_listen hs hp]
    exact Or.inl (.of_sync (by simp [restorePort]) (by simp [hs]))
  | close _ hb => exact Or.inl (enterClosed_unsettled hb)
  | abort _ hb =>
    have hclose := enterClosed_unsettled (sendRst_blocked hb)
    exact Or.inl (.of_outside ⟨by simp [hclose.irs], by simp [hclose.mss]⟩ (by simp))
  | giveUp msg _ hb => exact Or.inl (giveUp_unsettled msg hb)
  | giveUpRto g c msg _ _ _ _ hb =>
    cases c with
    | true =>
      have hgive := giveUp_unsettled msg (e := (e.fire g).countRto) ((hb.fire g).of_view rfl)
      exact Or.inl (.of_outside ⟨by simp [hgive.irs], by simp [hgive.mss]⟩ (by simp [giveUp_state]))
    | false =>
      have hgive := giveUp_unsettled msg (hb.fire g)
      exact Or.inl (.of_outside ⟨by simp [hgive.irs], by simp [hgive.mss]⟩ (by simp [giveUp_state]))
  | timeWaitExpires g _ _ _ hb =>
    have hclose := enterClosed_unsettled (hb.fire g)
    exact Or.inl (.of_outside ⟨by simp [hclose.irs], by simp [hclose.mss]⟩ (by simp))
  | _ => first | exact Or.inl (.of_eq ⟨rfl, rfl⟩ rfl) | exact Or.inl (.of_eq (by simp) (by simp))

theorem step_synced {x : Int} {w : List UInt8} {done : Prop} (hr : e.Ready)
    (hg : FromPeer x w done a) (h : engineMachine.step e a = some f)
    (he : e.tcb.state ∈ SyncStates → e.tcb.irs = seqAt x 0) (hf : f.tcb.state ∈ SyncStates) :
    f.tcb.irs = seqAt x 0 := by
  have hpath := (hr.path h).preserves
    (P := fun g => g.tcb.state ∈ SyncStates → g.tcb.irs = seqAt x 0)
    (fun g g' hm hi hs => ?_) ?_
  · exact hpath hf
  · rcases hm.settles with hn | ⟨seg, hc, hsyn, heq, -⟩
    · rw [hn.irs]
      exact hi (hn.state hs)
    · rw [heq]
      obtain ⟨data, s, rfl, hp, rfl | rfl⟩ := hc
      · exact (hg _ hp).opens hsyn
      · have hno : s.synTaken.syn = false := rfl
        rw [hno] at hsyn
        cases hsyn
  · rw [begin_tcb]
    exact he

end TcpEngine

namespace Session

open TcpEngine (FromPeer SendInv)

variable {s s' src dst dst' src' : Session} {a : Action} {x : Int} {w w' data : List UInt8}
  {done done' : Prop}

/-- The octets of a session that have left the send buffer. -/
def dispatched (s : Session) : List UInt8 := s.eng.dispatched s.written

/-- What a session has put on the wire is of what has left its send buffer. -/
def Forwards (s : Session) : Prop :=
  ∀ seg, .tx seg ∈ s.eng.env.log → Stands (sent s.dispatched s.eng.finTag) s.eng.tcb.iss seg

theorem Forwards.step (h : s.Forwards) (hs : s.Sound) (hl : ¬ s.eng.LosesSend a)
    (hstep : connectionMachine.step s a = some s') : s'.Forwards := by
  obtain ⟨hlive, e', he, rfl⟩ := step_cases hstep
  intro seg hseg
  have hseg : Event.tx seg ∈ e'.env.log := hseg
  show Stands (sent (e'.dispatched (s.written ++ a.accepted e')) e'.finTag) e'.tcb.iss seg
  rw [TcpEngine.accepted_eq he hl]
  cases hu : s.used with
  | false =>
    obtain ⟨hw, hr, hbare⟩ := hs.fresh hu
    by_cases ho : e'.Outside
    · obtain ⟨evs, hlog, hall⟩ := hr.quiet hs.kept he ho
      rw [hlog] at hseg
      rcases List.mem_append.mp hseg with hseg | hseg
      · exact Or.inl (hbare seg hseg)
      · exact Or.inl (hall _ hseg seg rfl)
    · obtain ⟨evs, hlog, hall⟩ := hs.kept.sends he hr.begin
      rw [hlog] at hseg
      rcases List.mem_append.mp hseg with hseg | hseg
      · exact Or.inl (hbare seg hseg)
      · rw [hw]
        exact hall _ hseg seg rfl
  | true =>
    have hlink := hs.linked hu fun ho => hlive ⟨hu, ho⟩
    obtain ⟨evs, hlog, hall⟩ := hs.kept.sends he (hlink.begin (a := a) hs.kept.ready.coherent)
    rw [hlog] at hseg
    rcases List.mem_append.mp hseg with hseg | hseg
    · rw [(hlink.keeps hs.kept he).1]
      exact (h seg hseg).mono (hlink.dispatches hs.kept he)
    · exact hall _ hseg seg rfl

theorem dispatched_length_le (s : Session) : s.dispatched.length ≤ s.written.length :=
  (s.eng.dispatched_isPrefix s.written).length_le

/-- The FIN goes out when the send buffer is empty. -/
theorem Sound.dispatched_all (h : s.Sound) (hu : s.used = true) (ho : ¬ s.eng.Outside)
    (hf : s.Finished) : s.dispatched = s.written := by
  obtain ⟨k, hk⟩ := (h.linked hu ho).inv
  apply TcpEngine.dispatched_nil
  apply hk.appBuf_nil
  have htag : s.eng.fin.finSent = true ∨ decide s.eng.Outside = true :=
    Bool.or_eq_true_iff.mp hf.2
  exact htag.resolve_right (by simpa using ho)

/-- What has left the send buffer of a session under way only grows, and not past its FIN. -/
theorem step_dispatches (h : s.Sound) (hu : s.used = true) (hl : ¬ s.eng.LosesSend a)
    (hs : connectionMachine.step s a = some s') :
    s.dispatched <+: s'.dispatched ∧ (s.Finished → s'.Finished ∧ s'.dispatched = s.dispatched) := by
  obtain ⟨-, -, hfin⟩ := step_writes h hu hl hs
  obtain ⟨hlive, e', he, rfl⟩ := step_cases hs
  have ho : ¬ s.eng.Outside := fun ho => hlive ⟨hu, ho⟩
  have hgrow := (h.linked hu ho).dispatches h.kept he
  rw [← TcpEngine.accepted_eq he hl] at hgrow
  have hpre : s.dispatched <+: e'.dispatched (s.written ++ a.accepted e') := by
    rw [sent, sent, List.cons_prefix_cons] at hgrow
    refine prefix_of_data (fun v hv => ?_) ((List.prefix_append _ _).trans hgrow.2)
    cases hb : e'.finTag <;> simp [hb] at hv
  refine ⟨hpre, fun hf => ?_⟩
  obtain ⟨hf', hw⟩ := hfin hf
  have hall := h.dispatched_all hu ho hf
  refine ⟨hf', (hpre.eq_of_length_le ?_).symm⟩
  rw [hall]
  calc (e'.dispatched (s.written ++ a.accepted e')).length
      ≤ (s.written ++ a.accepted e').length := (e'.dispatched_isPrefix _).length_le
    _ = s.written.length := congrArg List.length hw

/-- What arrives from a session that has begun is of what has left its send buffer. -/
theorem Forwards.fromPeer (h : src.Forwards) (hv : src.Valid) (hu : src.used = true)
    (hc : Network.Carried src a) :
    FromPeer src.eng.tcb.iss src.dispatched src.Finished a := by
  cases a with
  | segment data =>
    intro seg hp
    rcases hv.read hc hp with ⟨h1, h2, h3⟩ | ⟨t, ht, rfl⟩
    · exact genuine_of_bare h1 h2 h3
    · have hg := (h t ht).genuine
      exact ⟨hg.opens, hg.text, fun hf => ⟨⟨hu, (hg.ends hf).1⟩, (hg.ends hf).2⟩⟩
  | _ => exact True.intro

/-- An engine follows a stream, and knows the number of its SYN. -/
structure Pursuit (x : Int) (w : List UInt8) (done : Prop) (s : Session) : Prop where
  aligned : s.Aligned x w done
  irs : s.eng.tcb.state ∈ TcpEngine.SyncStates → s.eng.tcb.irs = seqAt x 0

theorem Pursuit.mono (h : s.Pursuit x w done) (hw : w <+: w') (hd : done → done' ∧ w' = w) :
    s.Pursuit x w' done' := ⟨h.aligned.mono hw hd, h.irs⟩

theorem Pursuit.step (h : s.Pursuit x w done) (hw : w.length < 2147483647) (hs : s.Sound)
    (hg : FromPeer x w done a) (hstep : connectionMachine.step s a = some s') :
    s'.Pursuit x w done := by
  refine ⟨h.aligned.step hw hs hg hstep, ?_⟩
  obtain ⟨-, e', he, rfl⟩ := step_cases hstep
  exact TcpEngine.step_synced hs.kept.ready hg he h.irs

/-- How far the peer has followed what has left the send buffer. -/
def Pursues (src dst : Session) : Prop :=
  if src.used = true then dst.Pursuit src.eng.tcb.iss src.dispatched src.Finished
  else ∀ x w done, w.length < 2147483647 → dst.Pursuit x w done

theorem Pursues.pursuit (h : Pursues src dst) (hv : src.Valid) :
    dst.Pursuit src.eng.tcb.iss src.dispatched src.Finished := by
  unfold Pursues at h
  split at h
  · exact h
  · exact h _ _ _ (lt_of_le_of_lt src.dispatched_length_le hv.small)

theorem Pursues.hears (h : Pursues src dst) (hf : src.Forwards) (hsrc : src.Valid)
    (hdst : dst.Sound) (hc : Network.Carried src a)
    (hs : connectionMachine.step dst a = some dst') : Pursues src dst' := by
  unfold Pursues at h ⊢
  split
  · next hu =>
    rw [if_pos hu] at h
    exact h.step (lt_of_le_of_lt src.dispatched_length_le hsrc.small) hdst
      (hf.fromPeer hsrc hu hc) hs
  · next hu =>
    rw [if_neg hu] at h
    intro x w done hw
    exact (h x w done hw).step hw hdst (hsrc.fromPeer_fresh (by simpa using hu) hc) hs

theorem Pursues.writes (h : Pursues src dst) (hsrc : src.Sound) (hl : ¬ src.eng.LosesSend a)
    (hw : src'.written.length < 2147483647) (hs : connectionMachine.step src a = some src') :
    Pursues src' dst := by
  unfold Pursues at h
  split at h
  · next hu =>
    obtain ⟨hiss, -, -⟩ := step_writes hsrc hu hl hs
    obtain ⟨hgrow, hfin⟩ := step_dispatches hsrc hu hl hs
    have hu' : src'.used = true := by
      obtain ⟨-, e', -, rfl⟩ := step_cases hs
      simp [hu]
    unfold Pursues
    rw [if_pos hu', hiss]
    exact h.mono hgrow hfin
  · unfold Pursues
    split
    · exact h _ _ _ (lt_of_le_of_lt src'.dispatched_length_le hw)
    · exact h

/-- `src` and `dst` agree on how far the stream of `src` has come: SND.UNA, then what has been
taken, then SND.NXT. -/
structure Abreast (src dst : Session) : Prop where
  numbers : ∃ k n, src.eng.tcb.sndUna = seqAt src.eng.tcb.iss k ∧
    src.eng.tcb.sndNxt = seqAt src.eng.tcb.iss n ∧ k ≤ dst.eng.intake.position ∧
    dst.eng.intake.position ≤ n ∧ n ≤ src.written.length + 2
  synced : dst.eng.tcb.state ∈ TcpEngine.SyncStates → dst.eng.tcb.irs = src.eng.tcb.iss ∧
    dst.eng.tcb.rcvNxt = seqAt src.eng.tcb.iss dst.eng.intake.position
  text : dst.eng.delivered <+: src.dispatched
  acks : ∀ seg, .tx seg ∈ dst.eng.env.log → seg.ackFlag = true → seg.rst = false →
    seqGt seg.ack src.eng.tcb.sndNxt = false

theorem abreast (h : src.Valid) (hp : Pursues src dst) (hh : Heeds src dst)
    (ha : Answered src dst) (ho : ¬ src.eng.Outside) : Abreast src dst := by
  obtain ⟨k, hk⟩ := h.sound.sending ho
  have hpur := hp.pursuit h
  have hal := hpur.aligned
  have hlen := hal.stage.intact.text.length_le
  have hle : src.dispatched.length ≤ src.written.length := src.dispatched_length_le
  have hsent : k + (unacked src.eng.buf.retx).length =
      src.dispatched.length + 1 + src.eng.fin.finSent.toNat := hk.sent_le
  have hbit := src.eng.fin.finSent.toNat_le
  have hpos : dst.eng.intake.position ≤ k + (unacked src.eng.buf.retx).length := by
    show dst.eng.delivered.length + 1 + dst.eng.fin.peerFin.toNat ≤ _
    have hlen : dst.eng.delivered.length ≤ src.dispatched.length := hlen
    cases hpf : dst.eng.fin.peerFin with
    | false =>
      rw [Bool.toNat_false]
      omega
    | true =>
      have hfin : src.Finished := (hal.stage.intact.full hpf).1
      have hs : src.eng.fin.finSent = true :=
        (Bool.or_eq_true_iff.mp hfin.2).resolve_right (by simpa using ho)
      rw [hs] at hsent
      omega
  constructor
  · exact ⟨k, _, hk.una, hk.nxt, ha k ho hk, hpos, by omega⟩
  · intro hs
    exact ⟨(hpur.irs hs).trans (seqAt_zero hk.iss.1 hk.iss.2), (hal.follows hs).next⟩
  · exact hal.stage.intact.text
  · intro seg hseg hack hrst
    obtain ⟨i, hi, hat⟩ := hh.voiced.tells _ hseg seg rfl hack hrst
    have hsmall := h.small
    rw [hat, hk.nxt, ← Bool.not_eq_true, seqGt_iff]
    simp only [seqAt]
    omega

end Session

namespace Network

open Session (Valid Tracks Heeds Answered Forwards Pursues Abreast)

variable {n : Network} {src dst src' : Session} {act : Action} {side : Side} {s : Session}

/-- Two engines that hear of each other only what each has transmitted, and of what has left the
other's send buffer. -/
structure InStep (n : Network) : Prop where
  trusty : n.Trusty
  a : n.a.Forwards
  b : n.b.Forwards
  ab : Pursues n.a n.b
  ba : Pursues n.b n.a

/-- While its connection is under way, either engine is abreast of the other. -/
def Bracketed (n : Network) : Prop :=
  (¬ n.a.eng.Outside → Abreast n.a n.b) ∧ (¬ n.b.eng.Outside → Abreast n.b n.a)

theorem InStep.bracketed (h : n.InStep) : n.Bracketed :=
  ⟨Session.abreast h.trusty.good.a h.ab h.trusty.ab h.trusty.abAnswered,
    Session.abreast h.trusty.good.b h.ba h.trusty.ba h.trusty.baAnswered⟩

theorem side_inStep (h : src.Valid) (h' : dst.Valid) (hf : src.Forwards) (hf' : dst.Forwards)
    (hp : Pursues src dst) (hp' : Pursues dst src) (hv : src'.Valid) (hl : ¬ src.eng.LosesSend act)
    (hc : Carried dst act) (hs : connectionMachine.step src act = some src') :
    src'.Forwards ∧ Pursues src' dst ∧ Pursues dst src' :=
  ⟨hf.step h.sound hl hs, hp.writes h.sound hl hv.small hs, hp'.hears hf' h' h.sound hc hs⟩

theorem inStep_preserves : networkMachine.Preserves Reliable InStep := by
  rintro n ⟨side, act⟩ n' h hrel hs
  have htrusty : n'.Trusty := trusty_preserves n (side, act) n' h.trusty hrel hs
  obtain ⟨⟨hl, -⟩, -⟩ := hrel
  simp only [networkMachine] at hs
  split_ifs at hs with hc
  obtain ⟨s, hstep, rfl⟩ := Option.map_eq_some_iff.mp hs
  have hgood := h.trusty.good
  cases side with
  | a =>
    obtain ⟨h1, h2, h3⟩ := side_inStep hgood.a hgood.b h.a h.b h.ab h.ba htrusty.good.a hl hc hstep
    exact ⟨htrusty, h1, h.b, h2, h3⟩
  | b =>
    obtain ⟨h1, h2, h3⟩ := side_inStep hgood.b hgood.a h.b h.a h.ba h.ab htrusty.good.b hl hc hstep
    exact ⟨htrusty, h.a, h1, h3, h2⟩

theorem pursues_init (a b : EngineArgs) (schedA schedB : ManualScheduler Callback)
    (randA randB : Nat) :
    Pursues { eng := TcpEngine.init a schedA randA } { eng := TcpEngine.init b schedB randB } := by
  intro x w done hw
  refine ⟨tracks_init a b schedA schedB randA randB x w done hw, fun hs => ?_⟩
  have hs : ConnState.closed ∈ TcpEngine.SyncStates := hs
  exact absurd hs (by decide)

theorem inStep_start (a b : EngineArgs) (schedA schedB : ManualScheduler Callback)
    (randA randB : Nat) (hsa : schedA.heap = []) (hsb : schedB.heap = []) (hma : 1 ≤ a.sndMss)
    (hmb : 1 ≤ b.sndMss) : (start a b schedA schedB randA randB).InStep where
  trusty := trusty_start a b schedA schedB randA randB hsa hsb hma hmb
  a _ hseg := absurd hseg List.not_mem_nil
  b _ hseg := absurd hseg List.not_mem_nil
  ab := pursues_init a b schedA schedB randA randB
  ba := pursues_init b a schedB schedA randB randA

end Network

/-- However the network loses, duplicates, delays and reorders what it is given: nothing is
delivered or acknowledged before it has been sent. -/
theorem unsent_unacknowledged (a b : EngineArgs) (schedA schedB : ManualScheduler Callback)
    (randA randB : Nat) (hsa : schedA.heap = []) (hsb : schedB.heap = []) (hma : 1 ≤ a.sndMss)
    (hmb : 1 ≤ b.sndMss) (ms : List (Side × Action))
    (hC : networkMachine.AllSteps Network.Reliable (.start a b schedA schedB randA randB) ms) :
    networkMachine.Throughout Network.Bracketed (.start a b schedA schedB randA randB) ms :=
  (Network.inStep_preserves.throughout
    (Network.inStep_start a b schedA schedB randA randB hsa hsb hma hmb) hC).mono
      fun _ h => h.bracketed

/-- When the three bytes and the FIN have arrived and nothing of it has been acknowledged, SND.UNA
is 101 still, and what has been taken is SND.NXT. -/
theorem shuffled_run_bracketed : networkMachine.Throughout Network.Bracketed
      (.start clientArgs serverArgs {} {} 0 0) shuffledRun ∧
    ∃ n, networkMachine.run (.start clientArgs serverArgs {} {} 0 0) shuffledRun = some n ∧
      n.a.eng.tcb.sndUna = 101 ∧ n.a.eng.tcb.sndNxt = 105 ∧ n.b.eng.tcb.rcvNxt = 105 := by
  constructor
  · exact unsent_unacknowledged clientArgs serverArgs {} {} 0 0 rfl rfl (by decide) (by decide)
      shuffledRun (by decide +kernel)
  · have h : ((networkMachine.run (Network.start clientArgs serverArgs {} {} 0 0)
        shuffledRun).map fun n => (n.a.eng.tcb.sndUna, n.a.eng.tcb.sndNxt, n.b.eng.tcb.rcvNxt)) =
          some (101, 105, 105) := by
      decide +kernel
    obtain ⟨n, hn, hv⟩ := Option.map_eq_some_iff.mp h
    simp only [Prod.mk.injEq] at hv
    exact ⟨n, hn, hv⟩

/-! ## On the wire -/

namespace Session

variable {s s' src dst : Session}

theorem Forwards.tick {dt : ℚ} (h : s.Forwards) (ho : s.Over) (hs : s.next (.tick dt) = some s') :
    s'.Forwards := by
  obtain rfl := over_tick ho hs
  exact h

theorem Pursues.tick {dt : ℚ} (h : Pursues src dst) (ho : dst.Over)
    (hs : dst.next (.tick dt) = some s') : Pursues src s' := by
  obtain rfl := over_tick ho hs
  have hover {x : Int} {w : List UInt8} {done : Prop} (hp : dst.Pursuit x w done) :
      Pursuit x w done { dst with eng := dst.eng.enter.passTime dt } :=
    ⟨⟨hp.aligned.stage, fun hx => absurd ⟨ho.1, ho.2⟩ hx⟩, hp.irs⟩
  unfold Pursues at h ⊢
  split
  · next hu =>
    rw [if_pos hu] at h
    exact hover h
  · next hu =>
    rw [if_neg hu] at h
    exact fun x w done hw => hover (h x w done hw)

end Session

namespace Network

variable {n : Network} {side : Side} {a : Action} {s : Session}

theorem InStep.next (h : n.InStep) (hlive : ¬ (n.session side).Over) (hb : n.Bounded (side, a))
    (hc : Honest (n.peer side) a) (hs : (n.session side).next a = some s) :
    (n.put s side).InStep := by
  apply inStep_preserves n (side, a) _ h ⟨hb, hc⟩
  simp only [networkMachine]
  rw [if_pos hc.carried, Session.step_of_next hlive, hs]
  rfl

theorem InStep.tick (h : n.InStep) {dt : ℚ} (hs : (n.session side).next (.tick dt) = some s) :
    (n.put s side).InStep := by
  have htrusty := h.trusty.tick hs
  by_cases ho : (n.session side).Over
  · have hover := Session.over_tick ho hs
    cases side with
    | a =>
      refine ⟨htrusty, h.a.tick ho hs, h.b, ?_, h.ba.tick ho hs⟩
      rw [hover]
      exact h.ab
    | b =>
      refine ⟨htrusty, h.a, h.b.tick ho hs, h.ab.tick ho hs, ?_⟩
      rw [hover]
      exact h.ba
  · have hc : Honest (n.peer side) (.tick dt) := True.intro
    refine h.next ho ⟨fun hl => hl.2.1 rfl, ?_⟩ hc hs
    cases side with
    | a => exact h.trusty.good.a.small
    | b => exact h.trusty.good.b.small

end Network

/-- Whatever the filters drop, nothing is delivered or acknowledged before it has been sent. -/
theorem wire_unsent_unacknowledged (a b : EngineArgs) (delay : ℚ) (hd : 0 < delay)
    (ab ba : Option (TcpSegment → Nat → Bool)) (hma : 1 ≤ a.sndMss) (hmb : 1 ≤ b.sndMss)
    (acts : List BenchAction)
    (hC : benchMachine.AllSteps Bench.Current (.start a b delay ab ba) acts) :
    benchMachine.Throughout (fun s => s.net.Bracketed) (.start a b delay ab ba) acts := by
  have hpres : benchMachine.Preserves Bench.Current fun s => s.Lined ∧ s.net.InStep :=
    fun _ _ _ h hc hs => ⟨Bench.lined_step h.1 hs,
      Bench.net_step (P := Network.InStep) (fun _ hp => hp.trusty.good)
        (fun _ _ _ _ hp hlive hb hh hn => hp.next hlive hb hh hn)
        (fun _ _ _ _ hp hn => hp.tick hn) h.1 h.2 hc hs⟩
  refine (hpres.throughout ⟨Bench.lined_start a b (le_of_lt hd) ab ba, ?_⟩ hC).mono
    fun _ h => h.2.bracketed
  exact Network.inStep_start a b {} {} 0 0 rfl rfl hma hmb

/-- The two bytes that have been dropped are counted as sent and not as taken. -/
theorem lossy_run_bracketed :
    benchMachine.Throughout (fun s => s.net.Bracketed) lossyStart lossyRun ∧
    ∃ s, benchMachine.run lossyStart (lossyRun.take 9) = some s ∧
      s.net.a.eng.tcb.sndUna = 101 ∧ s.net.a.eng.tcb.sndNxt = 103 ∧
      s.net.b.eng.tcb.rcvNxt = 101 := by
  constructor
  · exact wire_unsent_unacknowledged clientArgs serverArgs (1 / 1000) (by norm_num) dropThird none
      (by decide) (by decide) lossyRun (by decide +kernel)
  · have h : (benchMachine.run lossyStart (lossyRun.take 9)).map (fun s =>
        (s.net.a.eng.tcb.sndUna, s.net.a.eng.tcb.sndNxt, s.net.b.eng.tcb.rcvNxt)) =
          some (101, 103, 101) := by
      decide +kernel
    obtain ⟨s, hs, hv⟩ := Option.map_eq_some_iff.mp h
    simp only [Prod.mk.injEq] at hv
    exact ⟨s, hs, hv⟩

end HdlPlayground.Tcp

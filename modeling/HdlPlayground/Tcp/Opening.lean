import HdlPlayground.Tcp.CloseTimers
import HdlPlayground.Tcp.Receiver
import HdlPlayground.Tcp.Window

/-!
# A connection that is opening

Until a connection is established nothing is queued for reassembly but the text of a SYN
that crossed ours, which begins at RCV.NXT, and no acknowledgement is delayed.
-/
namespace HdlPlayground.Tcp

open Receiver

namespace Receiver

variable {a : Action} {v w : Receiver}

/-- Before the peer's SYN nothing is queued. -/
def Fresh (v : Receiver) : Prop := v.state ∈ [.closed, .listen, .synSent] → v.ooo = []

theorem Turn.fresh (h : Turn a v w) (hv : v.Fresh) : w.Fresh := by
  have hdata {u : Receiver} (hu : u.state ∈ TcpEngine.DataStates) : u.Fresh := by
    intro hs
    simp only [TcpEngine.DataStates, List.mem_cons, List.not_mem_nil, or_false] at hs hu
    rcases hs with hs | hs | hs <;> rcases hu with hu | hu | hu <;> rw [hs] at hu <;> cases hu
  cases h with
  | changes st hst =>
    intro hs
    apply hv
    simp only [arcs, List.mem_cons, Prod.mk.injEq, List.not_mem_nil, or_false] at hst
    have hs' : st ∈ [.closed, .listen, .synSent] := hs
    rcases hst with h | h | h | h | h | h | h | h | h | h | h | h <;> obtain ⟨h1, rfl⟩ := h <;>
      simp_all
  | opens seg st m _ _ hst =>
    intro hs
    have hs' : st ∈ [.closed, .listen, .synSent] := hs
    rcases hst with ⟨-, rfl⟩ | ⟨-, hst⟩
    · simp at hs'
    · rcases List.mem_pair.mp hst with rfl | rfl <;> simp at hs'
  | ends st hst => exact fun _ => rfl
  | takes seg data _ hs => exact hdata (u := v.deliver data) hs
  | merges seg x _ hs =>
    apply hdata
    unfold mergeEntry
    dsimp only
    split_ifs <;> exact hs
  | stores seg x _ hs => exact hdata hs
  | storesSyn seg x _ hs =>
    intro hc
    have hc' : v.state ∈ [.closed, .listen, .synSent] := hc
    rw [hs] at hc'
    simp at hc'
  | consumes evs seg hs => exact hv
  | _ => exact hv

theorem Turns.fresh (h : Turns a v w) (hv : v.Fresh) : w.Fresh :=
  h.preserves (fun _ _ ht hx => ht.fresh hx) hv

/-- Without a segment SYN-RECEIVED is not entered, and holds what it held. -/
theorem Turn.still (h : Turn a v w) (ha : ¬ ∃ seg, a.Carries seg) (hw : w.state = .synReceived) :
    v.state = .synReceived ∧ w.ooo = v.ooo ∧ w.rcvNxt = v.rcvNxt := by
  cases h with
  | changes st hst =>
    exfalso
    have hw' : st = .synReceived := hw
    subst hw'
    simp [arcs] at hst
  | opens seg st m hc => exact absurd ⟨seg, hc⟩ ha
  | ends st hst =>
    exfalso
    have hw' : st = .synReceived := hw
    subst hw'
    simp at hst
  | takes seg data hc => exact absurd ⟨seg, hc⟩ ha
  | merges seg x hc => exact absurd ⟨seg, hc⟩ ha
  | stores seg x hc => exact absurd ⟨seg, hc⟩ ha
  | storesSyn seg x hc => exact absurd ⟨seg, hc⟩ ha
  | consumes evs seg hs =>
    exfalso
    have hw' : v.state = .synReceived := hw
    rw [hw'] at hs
    simp at hs
  | _ => exact ⟨hw, rfl, rfl⟩

theorem Turns.still (h : Turns a v w) (ha : ¬ ∃ seg, a.Carries seg) (hw : w.state = .synReceived) :
    v.state = .synReceived ∧ w.ooo = v.ooo ∧ w.rcvNxt = v.rcvNxt := by
  induction h with
  | refl => exact ⟨hw, rfl, rfl⟩
  | tail _ ht ih =>
    obtain ⟨h1, h2, h3⟩ := ht.still ha hw
    obtain ⟨k1, k2, k3⟩ := ih h1
    exact ⟨k1, h2.trans k2, h3.trans k3⟩

end Receiver

namespace TcpEngine

variable {a : Action} {e e' f : TcpEngine} {seg : TcpSegment}

/-! ## The text of a SYN -/

/-- In SYN-RECEIVED at most the text of the SYN is queued. -/
def SynText (e : TcpEngine) : Prop :=
  e.tcb.state = .synReceived → e.buf.ooo = [] ∨ ∃ x, e.buf.ooo = [x] ∧ x.seq = e.tcb.rcvNxt

theorem SynText.of_state (h : e.tcb.state ≠ .synReceived) : e.SynText := fun hs => absurd hs h

theorem SynText.of_eq (h : e.SynText) (hs : f.tcb.state = e.tcb.state) (ho : f.buf.ooo = e.buf.ooo)
    (hn : f.tcb.rcvNxt = e.tcb.rcvNxt) : f.SynText := by
  intro hf
  rw [ho, hn]
  exact h (hs ▸ hf)

theorem not_synReceived_of_later (h : e.tcb.state ∈ LaterStates) : e.tcb.state ≠ .synReceived := by
  intro hs
  simp [hs] at h

theorem enterClosed_synText : e.enterClosed.SynText := .of_state (by simp)

theorem synReceivedAck_synText (h : e.SynText) : (e.synReceivedAck seg).SynText := by
  unfold synReceivedAck
  split
  · refine .of_state (not_synReceived_of_later (textAndFin_later seg (sendPending_open ?_)))
    rw [(mergeReassembly_frame _).state]
    simp
  · exact h.of_eq (by simp) (by simp) (by simp)

theorem establishedAck_synText (hs : e.tcb.state ∈ OpenStates) :
    (e.establishedAck seg).SynText := by
  unfold establishedAck
  split
  · refine .of_state fun hx => ?_
    rw [sendAck_tcb] at hx
    simp [hx] at hs
  · dsimp only
    have hst : ((if seqGt seg.ack e.tcb.sndUna then e.processAck seg.ack else e).windowUpdate
        seg).tcb.state ∈ OpenStates := by
      apply windowUpdate_open
      split
      · simpa using hs
      · exact hs
    generalize (if seqGt seg.ack e.tcb.sndUna then e.processAck seg.ack else e).windowUpdate seg = g
      at hst
    split_ifs
    · exact .of_state (not_synReceived_of_later (textAndFin_later seg (by simp)))
    · exact .of_state (by simp [enterTimeWait])
    · exact enterClosed_synText
    · exact .of_state (not_synReceived_of_later (textAndFin_later seg hst))

theorem doReset_synText : e.doReset.SynText := by
  by_cases h : e.tcb.state = .synReceived ∧ e.fin.passive = true
  · rw [doReset_listen h.1 h.2]
    exact .of_state (by simp [restorePort])
  · obtain ⟨msg, -, h⟩ := doReset_close h
    rw [h]
    exact enterClosed_synText

theorem handleSynchronized_synText (hs : e.tcb.state ∈ SyncStates) (h : e.SynText) :
    (e.handleSynchronized seg).SynText := by
  have hack : e.sendAck.SynText := h.of_eq (by simp) (by simp) (by simp)
  unfold handleSynchronized
  split_ifs with htw _ _ _ _ _ _ hsr
  · unfold timeWaitArrives
    split_ifs
    · exact enterClosed_synText
    · exact hack
    · exact .of_state (by simp [restartTimeWait, htw])
    · exact hack
  · exact h
  · exact hack
  · exact doReset_synText
  · exact hack
  · exact hack
  · exact h
  · exact synReceivedAck_synText h
  · apply establishedAck_synText
    rw [List.mem_cons, List.mem_cons] at hs
    exact (hs.resolve_left htw).resolve_left hsr

theorem handle_synText (hf : e.receiver.Fresh) (h : e.SynText) : (e.handle seg).SynText := by
  rcases e.state_cases with hs | hs | hs | hs
  · rw [handle_closed seg hs]
    refine .of_state ?_
    unfold handleClosed
    split_ifs <;> simp [hs]
  · rw [handle_listen seg hs]
    unfold handleListen
    split_ifs
    · exact h
    · exact h.of_eq (by simp) (by simp) (by simp)
    · exact h
    · exact h
    · obtain ⟨m, -, -, hm⟩ := acceptSyn_eq (e := e) seg hs
      intro _
      left
      rw [hm]
      have ho : e.buf.ooo = [] := hf (by simp [receiver, hs])
      simpa [listenTaken] using ho
  · rw [handle_synSent seg hs]
    unfold handleSynSent
    dsimp only
    split_ifs
    · exact h
    · exact h.of_eq (by simp) (by simp) (by simp)
    · exact enterClosed_synText
    · exact h
    · exact h
    · unfold synSentEstablished
      dsimp only
      have hst :
          ((e.takeSyn seg).setState .established).sendAck.sendPending.tcb.state ∈ OpenStates :=
        sendPending_open (by simp)
      split
      · exact handleSynchronized_synText (List.mem_cons_of_mem _ (List.mem_cons_of_mem _ hst))
          (.of_state fun hx => by simp [hx] at hst)
      · exact .of_state fun hx => by simp [hx] at hst
    · have ho : (e.takeSyn seg).becomeSynReceived.buf.ooo = [] := by
        have he : e.buf.ooo = [] := hf (by simp [receiver, hs])
        obtain ⟨m, -, -, hm⟩ := takeSyn_cases (e := e) seg
        simp only [becomeSynReceived, setState_buf]
        rw [hm]
        dsimp only
        split
        · simpa using he
        · exact he
      have hn : (e.takeSyn seg).becomeSynReceived.tcb.rcvNxt = add seg.seq 1 := by
        simp [becomeSynReceived, (takeSyn_tcb seg).2]
      unfold simultaneousOpen
      dsimp only
      generalize (e.takeSyn seg).becomeSynReceived = k at ho hn
      generalize ({ seg.flags with fin := false } : Flags) = flags
      have hstore : (k.storeOoo (add seg.seq 1) seg.payload flags).buf.ooo =
          [⟨add seg.seq 1, seg.payload, flags⟩] := by
        rw [storeOoo, ho]
        rfl
      have hsent {g : TcpEngine}
          (hg : g.buf.ooo = [] ∨ ∃ x, g.buf.ooo = [x] ∧ x.seq = g.tcb.rcvNxt) :
          g.sendSynAck.SynText := fun _ => by simpa [sendSynAck] using hg
      have hk : k.tcb.rcvNxt = (k.storeOoo (add seg.seq 1) seg.payload flags).tcb.rcvNxt := by
        rw [storeOoo_tcb]
      split <;> split
      · exact hsent (Or.inr ⟨_, hstore, hn ▸ hk⟩)
      · exact hsent (Or.inl ho)
      · exact hsent (Or.inr ⟨_, hstore, hn ▸ hk⟩)
      · exact hsent (Or.inl ho)
  · rw [handle_synchronized seg hs]
    exact handleSynchronized_synText hs h

theorem onSegment_synText {data : List UInt8} (hf : e.receiver.Fresh) (h : e.SynText) :
    (e.onSegment data).SynText := by
  cases hp : TcpSegment.parse data with
  | error msg =>
    rw [onSegment, hp]
    exact h.of_eq rfl rfl rfl
  | ok seg =>
    by_cases ha : e.Addressed seg
    · rw [onSegment_handle hp ha]
      have hr : e.heard.receiver = e.receiver := by simp [receiver]
      refine handle_synText (by rw [hr]; exact hf) (h.of_eq ?_ ?_ ?_)
      · rw [heard_tcb]
      · rw [heard_buf]
      · rw [heard_tcb]
    · rw [onSegment_ignored hp ha]
      exact h

end TcpEngine

end HdlPlayground.Tcp

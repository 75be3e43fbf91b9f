import HdlPlayground.Tcp.Opening
import HdlPlayground.Tcp.Reassembly

/-!
# The receive buffer is not overrun

The engine accepts text up to the window it computes when the text arrives, and the
text of a SYN that crosses its own without looking at the window at all. `Offer` reads off
the log how much of what has been advertised is still open. As long as no text is
accepted past that, the buffer holds what arrives, and what waits in the
reassembly queue lies below the advertised edge too.
-/
namespace HdlPlayground.Tcp

/-- What the log says of the receive window: RCV.NXT, the highest right edge advertised on
the connection, and whether all text lay below it when it was delivered. -/
structure Offer where
  next : Int := 0
  right : Option Int := none
  within : Bool := true
deriving DecidableEq

namespace Offer

/-- The sequence numbers between RCV.NXT and the advertised edge. -/
def space (w : Offer) : Int :=
  match w.right with
  | none => 0
  | some r => s32 (sub r w.next)

/-- A segment with SEG.ACK and SEG.WND, as the header carries them. -/
def advertise (w : Offer) (ack : Int) (wnd : Nat) : Offer :=
  let edge := add ack (wnd % 65536 : Nat)
  { w with
    next := ack
    right :=
      match w.right with
      | none => some edge
      | some r => if seqGt edge r then some edge else some r }

/-- The peer's sequence numbers are known from the state change out of LISTEN or SYN-SENT on. -/
def note (w : Offer) : Event → Offer
  | .tx seg => if seg.ackFlag && !seg.rst then w.advertise seg.ack seg.window else w
  | .stateChange old _ => if old ∈ [.closed, .listen, .synSent] then { w with right := none } else w
  | .deliver data =>
    { w with
      next := add w.next data.length, within := w.within && (data.length : Int) ≤ w.space }
  | _ => w

end Offer

def offerOf (log : List Event) : Offer := log.foldl Offer.note {}

theorem offerOf_append (log evs : List Event) :
    offerOf (log ++ evs) = evs.foldl Offer.note (offerOf log) := List.foldl_append

namespace Receiver

variable {v w : Receiver}

def offer (v : Receiver) : Offer := offerOf v.log

/-- The states in which the reassembly queue can still be delivered from. -/
abbrev QueueStates : List ConnState := .synReceived :: TcpEngine.DataStates

/-- An entry of the queue begins `k` past RCV.NXT and ends within `n` of it. -/
def Lies (rcvNxt : Int) (n : Int) (x : OooEntry) : Prop :=
  ∃ k : Int, x.seq = add rcvNxt k ∧ 0 ≤ k ∧ k + x.data.length ≤ n

theorem Lies.mono {r m n : Int} {x : OooEntry} (h : Lies r m x) (hle : m ≤ n) : Lies r n x := by
  obtain ⟨k, hs, h0, hk⟩ := h
  exact ⟨k, hs, h0, hk.trans hle⟩

/-- RCV.NXT, the advertised edge and what is queued agree: there is room up to the edge, and
the queue lies below it. -/
structure Reaches (v : Receiver) : Prop where
  next : v.offer.right ≠ none → v.offer.next = v.rcvNxt
  space : 0 ≤ v.offer.space ∧ v.offer.space ≤ 65535 ∧ v.offer.space ≤ v.room
  queued : ∀ x ∈ v.ooo, Lies v.rcvNxt v.offer.space x

/-- Nothing has been delivered past the advertised edge, and nothing that can still be
delivered lies past it. -/
structure Covered (v : Receiver) : Prop where
  sink : v.onData = false
  fits : v.recvBuf.length ≤ v.wndMax
  within : v.offer.within = true
  range : 0 ≤ v.rcvNxt ∧ v.rcvNxt < 4294967296
  idle : v.state ∈ [.closed, .listen, .synSent] → v.ooo = []
  reach : v.state ∈ QueueStates → v.Reaches

/-- All the window that would be granted has been advertised. -/
def Announced (v : Receiver) : Prop := v.wndMax < 2147483648 ∧ (v.rcvWnd : Int) ≤ v.offer.space

theorem space_none {o : Offer} (h : o.right = none) : o.space = 0 := by rw [Offer.space, h]

/-- A segment that is sent opens what it offers. -/
theorem advertise_space {o : Offer} {ack : Int} (wnd : Nat) (hn : o.right ≠ none → o.next = ack)
    (h0 : 0 ≤ o.space) (h1 : o.space ≤ 65535) :
    (o.advertise ack wnd).space = max o.space (wnd % 65536 : Nat) := by
  have hw : wnd % 65536 < 65536 := Nat.mod_lt _ (by decide)
  have hedge : s32 (sub (add ack (wnd % 65536 : Nat)) ack) = (wnd % 65536 : Nat) := by
    refine s32_eq_of_congr ?_ (by omega) (by omega)
    simp only [sub_def, add_def]
    omega
  cases hc : o.right with
  | none =>
    rw [space_none hc, Offer.space]
    simp only [Offer.advertise, hc]
    rw [hedge]
    omega
  | some r =>
    have hnext := hn (by simp [hc])
    have hsp : o.space = s32 (sub r ack) := by rw [Offer.space, hc, hnext]
    have hd : r % 4294967296 = (ack + o.space) % 4294967296 := by
      have := s32_def (sub r ack)
      rw [← hsp] at this
      rw [sub_def] at this
      split at this <;> omega
    have hgt : seqGt (add ack (wnd % 65536 : Nat)) r = true ↔ o.space < (wnd % 65536 : Nat) := by
      rw [seqGt_iff, add_def]
      omega
    have hadv : (o.advertise ack wnd).space =
        if seqGt (add ack (wnd % 65536 : Nat)) r then s32 (sub (add ack (wnd % 65536 : Nat)) ack)
        else s32 (sub r ack) := by
      simp only [Offer.advertise, hc, Offer.space]
      split_ifs <;> rfl
    rw [hadv, hedge, ← hsp]
    by_cases hg : seqGt (add ack (wnd % 65536 : Nat)) r = true
    · rw [if_pos hg, max_eq_right (le_of_lt (hgt.mp hg))]
    · rw [if_neg hg, max_eq_left (not_lt.mp fun h => hg (hgt.mpr h))]

/-- Only a delivery can find text past the edge. -/
theorem note_within {o : Offer} {ev : Event} (h : ∀ data, ev ≠ .deliver data) :
    (o.note ev).within = o.within := by
  cases ev with
  | tx seg =>
    simp only [Offer.note]
    split <;> rfl
  | stateChange old new =>
    simp only [Offer.note]
    split <;> rfl
  | deliver data => exact absurd rfl (h data)
  | _ => rfl

theorem notes_within {evs : List Event} (h : ∀ ev ∈ evs, ∀ data, ev ≠ .deliver data) (o : Offer) :
    (evs.foldl Offer.note o).within = o.within := by
  induction evs generalizing o with
  | nil => rfl
  | cons ev evs ih =>
    rw [List.foldl_cons, ih fun x hx => h x (List.mem_cons_of_mem _ hx)]
    exact note_within (h ev List.mem_cons_self)

theorem offer_note (v : Receiver) (evs : List Event) :
    (v.note evs).offer = evs.foldl Offer.note v.offer := offerOf_append _ _

/-- A connection begins with nothing offered and nothing queued. -/
theorem Covered.opens (h : v.Covered) (hs : v.state ∈ [.listen, .synSent]) (st : ConnState)
    (x : Int) (m : Nat) :
    let w := { v with state := st, rcvNxt := add x 1, mss := m }.note [.stateChange v.state st]
    w.Covered ∧ w.offer.right = none := by
  intro w
  have hin : v.state ∈ [.closed, .listen, .synSent] := List.mem_cons_of_mem _ hs
  have hoff : w.offer = { v.offer with right := none } := by
    show ({ v with state := st, rcvNxt := add x 1, mss := m }.note
        [.stateChange v.state st]).offer = _
    rw [offer_note]
    exact if_pos hin
  have hooo : w.ooo = [] := h.idle hin
  have hnone : w.offer.right = none := by rw [hoff]
  refine ⟨⟨h.sink, h.fits, by rw [hoff]; exact h.within, ?_, fun _ => hooo, fun _ => ⟨?_, ?_, ?_⟩⟩,
    hnone⟩
  · show 0 ≤ add x 1 ∧ add x 1 < 4294967296
    rw [add_def]
    omega
  · exact fun hx => absurd hnone hx
  · rw [space_none hnone]
    omega
  · rw [hooo]
    simp

/-! ## What speaking does to the offer -/

/-- What is left of the offer when nothing arrives: RCV.NXT and the buffer stay, and the offer
only grows. -/
structure Widens (v w : Receiver) : Prop where
  before : w.state ∈ QueueStates → v.state ∈ QueueStates
  rcvNxt : w.state ∈ QueueStates → w.rcvNxt = v.rcvNxt
  space : w.state ∈ QueueStates → v.offer.space ≤ w.offer.space
  announced : w.state ∈ QueueStates → v.Announced → w.Announced

theorem Widens.refl (v : Receiver) : Widens v v := ⟨id, fun _ => rfl, fun _ => le_rfl, fun _ => id⟩

theorem Widens.trans {u : Receiver} (h : Widens u v) (h' : Widens v w) : Widens u w where
  before hs := h.before (h'.before hs)
  rcvNxt hs := (h'.rcvNxt hs).trans (h.rcvNxt (h'.before hs))
  space hs := (h.space (h'.before hs)).trans (h'.space hs)
  announced hs ha := h'.announced hs (h.announced (h'.before hs) ha)

/-- Nothing changes but what is offered, and that not to less. -/
theorem Covered.offers (h : v.Covered) (hs : w.onData = v.onData) (hb : w.recvBuf = v.recvBuf)
    (hm : w.wndMax = v.wndMax) (hn : w.rcvNxt = v.rcvNxt) (hst : w.state = v.state)
    (ho : w.ooo = v.ooo) (hwnd : v.wndMax < 2147483648 → w.rcvWnd = v.rcvWnd)
    (hoff : w.offer = v.offer ∨ w.offer = v.offer.advertise v.rcvNxt v.rcvWnd) :
    w.Covered ∧ Widens v w := by
  have hroom : w.room = v.room := by rw [room, room, hb, hm]
  have hle : v.state ∈ QueueStates → v.offer.space ≤ w.offer.space ∧ w.Reaches := by
    intro hq
    have hr := h.reach hq
    rcases hoff with hoff | hoff
    · rw [hoff]
      refine ⟨le_rfl, ?_, ?_, ?_⟩
      · rw [hoff, hn]
        exact hr.next
      · rw [hoff, hroom]
        exact hr.space
      · rw [hoff, ho, hn]
        exact hr.queued
    · have hsp := advertise_space v.rcvWnd hr.next hr.space.1 hr.space.2.1
      have hmod : v.rcvWnd % 65536 ≤ v.rcvWnd := Nat.mod_le _ _
      have hlt : v.rcvWnd % 65536 < 65536 := Nat.mod_lt _ (by decide)
      have hwr := rcvWnd_le_room v
      have h3 := hr.space
      rw [← hoff] at hsp
      refine ⟨by omega, ?_, ?_, ?_⟩
      · rw [hoff, hn]
        exact fun _ => rfl
      · rw [hroom]
        omega
      · rw [ho, hn]
        exact fun x hx => (hr.queued x hx).mono (by omega)
  constructor
  · constructor
    · rw [hs]
      exact h.sink
    · rw [hb, hm]
      exact h.fits
    · rcases hoff with hoff | hoff <;> rw [hoff] <;> exact h.within
    · rw [hn]
      exact h.range
    · rw [hst, ho]
      exact h.idle
    · rw [hst]
      exact fun hq => (hle hq).2
  · constructor
    · rw [hst]
      exact id
    · exact fun _ => hn
    · rw [hst]
      exact fun hq => (hle hq).1
    · rintro hq ⟨h1, h2⟩
      rw [hst] at hq
      refine ⟨hm ▸ h1, ?_⟩
      rw [hwnd h1]
      exact h2.trans (hle hq).1

/-- Outside the queue states little is asked. -/
theorem Covered.leaves (h : v.Covered) (hs : w.onData = v.onData)
    (hb : w.recvBuf.length ≤ w.wndMax) (hn : 0 ≤ w.rcvNxt ∧ w.rcvNxt < 4294967296)
    (hw : w.offer.within = v.offer.within)
    (ho : w.state ∈ [.closed, .listen, .synSent] → w.ooo = [])
    (hq : w.state ∉ QueueStates) : w.Covered ∧ Widens v w :=
  ⟨⟨hs.trans h.sink, hb, hw.trans h.within, hn, ho, fun hx => absurd hx hq⟩,
    fun hx => absurd hx hq, fun hx => absurd hx hq, fun hx => absurd hx hq, fun hx => absurd hx hq⟩

theorem Speaks.covered (ht : Speaks v w) (h : v.Covered) : w.Covered ∧ Widens v w := by
  cases ht with
  | builds seg hw ha =>
    refine h.offers rfl rfl rfl rfl rfl rfl rcvWnd_advertised ?_
    show offerOf (v.log ++ [.tx seg]) = _ ∨ offerOf (v.log ++ [.tx seg]) = _
    rw [offerOf_append]
    show Offer.note v.offer (.tx seg) = _ ∨ Offer.note v.offer (.tx seg) = _
    rw [Offer.note]
    split
    · next hack =>
      rw [Bool.and_eq_true] at hack
      exact Or.inr (by rw [ha hack.1, hw])
    · exact Or.inl rfl
  | botches hm => exact h.offers rfl rfl rfl rfl rfl rfl rcvWnd_advertised (Or.inl rfl)
  | rejects seg hr =>
    refine h.offers rfl rfl rfl rfl rfl rfl (fun _ => rfl) ?_
    rw [offer_note]
    exact Or.inl (by simp [Offer.note, hr])
  | notes ev hev =>
    refine h.offers rfl rfl rfl rfl rfl rfl (fun _ => rfl) ?_
    rw [offer_note]
    refine Or.inl ?_
    cases ev <;> first | rfl | exact hev.elim
  | changes st hst =>
    have hoff : ({ v with state := st }.note [.stateChange v.state st]).offer =
        v.offer.note (.stateChange v.state st) := offerOf_append _ _
    by_cases hq : st ∈ QueueStates
    · -- between two queue states nothing else changes
      have hv : v.state ∈ QueueStates ∧ v.state ∉ [.closed, .listen, .synSent] := by
        simp only [arcs, List.mem_cons, Prod.mk.injEq, List.not_mem_nil, or_false] at hst
        rcases hst with h | h | h | h | h | h | h | h | h | h | h | h <;> obtain ⟨h1, rfl⟩ := h <;>
          revert hq <;> rw [h1] <;> decide
      have hsame : ({ v with state := st }.note [.stateChange v.state st]).offer = v.offer := by
        rw [hoff, Offer.note, if_neg hv.2]
      have hr := h.reach hv.1
      constructor
      · refine ⟨h.sink, h.fits, by rw [hsame]; exact h.within, h.range, fun hx => ?_, fun _ => ?_⟩
        · exfalso
          have hx' : st ∈ [.closed, .listen, .synSent] := hx
          revert hq hx'
          cases st <;> decide
        · refine ⟨?_, ?_, ?_⟩ <;> rw [hsame]
          exacts [hr.next, hr.space, hr.queued]
      · refine ⟨fun _ => hv.1, fun _ => rfl, fun _ => by rw [hsame], fun _ ha => ⟨ha.1, ?_⟩⟩
        rw [hsame]
        exact ha.2
    · refine h.leaves rfl h.fits h.range ?_ (fun hx => ?_) hq
      · rw [hoff]
        exact note_within (by simp)
      · have hx' : st ∈ [.closed, .listen, .synSent] := hx
        apply h.idle
        simp only [arcs, List.mem_cons, Prod.mk.injEq, List.not_mem_nil, or_false] at hst
        rcases hst with h | h | h | h | h | h | h | h | h | h | h | h <;> obtain ⟨h1, rfl⟩ := h <;>
          revert hx' <;> rw [h1] <;> decide
  | ends st hst =>
    have hq : st ∉ QueueStates := by
      rcases hst with rfl | ⟨-, rfl⟩ <;> decide
    refine h.leaves rfl (Nat.zero_le _) h.range ?_ (fun _ => rfl) hq
    rw [offer_note]
    apply notes_within
    intro ev hev
    split at hev
    · cases hev
    · obtain rfl := List.mem_singleton.mp hev
      simp

theorem Speech.covered (hs : Speech v w) (h : v.Covered) : w.Covered ∧ Widens v w := by
  induction hs with
  | refl => exact ⟨h, .refl v⟩
  | tail _ ht ih =>
    have hw := ht.covered ih.1
    exact ⟨hw.1, ih.2.trans hw.2⟩

end Receiver

namespace TcpEngine

open Lib (Buffer Piece)
open Receiver (Covered Widens Lies QueueStates Announced Speech)

variable {a : Action} {e e' f : TcpEngine} {b : Buffer UInt8} {seg : TcpSegment}

/-! ## Text -/

/-- Deliveries that fit use the offer up. -/
theorem deliveries_offer {evs : List Event} (h : ∀ ev ∈ evs, ∃ data, ev = .deliver data) {o : Offer}
    {x k : Int} (hn : o.right ≠ none → o.next = add x k)
    (hfit : ((evs.flatMap Event.bytes).length : Int) ≤ o.space) :
    let n : Int := (evs.flatMap Event.bytes).length
    let o' := evs.foldl Offer.note o
    o'.right = o.right ∧ o'.within = o.within ∧ o'.space = o.space - n ∧
      (o.right ≠ none → o'.next = add x (k + n)) := by
  induction evs generalizing o k with
  | nil => simpa using hn
  | cons ev evs ih =>
    obtain ⟨data, rfl⟩ := h ev List.mem_cons_self
    simp only [List.flatMap_cons, Event.bytes, List.length_append, List.foldl_cons, Nat.cast_add]
      at hfit ⊢
    have hone : (o.note (.deliver data)).within = o.within := by
      simp only [Offer.note]
      rw [decide_eq_true (by omega), Bool.and_true]
    have hspace : (o.note (.deliver data)).space = o.space - data.length := by
      cases hc : o.right with
      | none =>
        have h0 : o.space = 0 := Receiver.space_none hc
        have h1 : (o.note (.deliver data)).space = 0 := Receiver.space_none hc
        omega
      | some r =>
        have hs : o.space = s32 (sub r o.next) := by rw [Offer.space, hc]
        have hs' : (o.note (.deliver data)).space = s32 (sub r (add o.next data.length)) := by
          simp only [Offer.note, Offer.space, hc]
        have hd := s32_def (sub r o.next)
        rw [hs']
        refine s32_eq_of_congr ?_ (by omega) ?_
        · rw [sub_def, add_def]
          rw [← hs, sub_def] at hd
          split at hd <;> omega
        · rw [← hs, sub_def] at hd
          split at hd <;> omega
    have hnext : (o.note (.deliver data)).right ≠ none →
        (o.note (.deliver data)).next = add x (k + data.length) := by
      intro hr
      show add o.next data.length = _
      rw [hn hr, add_add]
    obtain ⟨h1, h2, h3, h4⟩ := ih (fun y hy => h y (List.mem_cons_of_mem _ hy)) hnext
      (by rw [hspace]; omega)
    refine ⟨h1, h2.trans hone, ?_, fun hr => ?_⟩
    · rw [h3, hspace]
      omega
    · rw [h4 hr]
      congr 1
      omega

/-- Text that stays below the advertised edge keeps everything below it. -/
theorem covered_of_text (h : e.receiver.Covered) (hq : e.tcb.state ∈ QueueStates)
    (ht : TextFrame e f) (hm : Mirrors e.tcb.rcvNxt e.delivered e.buf.recvBuf f b)
    (hout : (b.out.length : Int) = b.next) (hle : b.next ≤ e.receiver.offer.space)
    (hahead : b.Ahead) (hheld : ∀ p ∈ b.held, p.stop ≤ e.receiver.offer.space) :
    f.receiver.Covered ∧ f.receiver.offer.space = e.receiver.offer.space - b.next := by
  have hr := h.reach hq
  obtain ⟨evs, hlog, hev⟩ := ht.log
  have hbytes : evs.flatMap Event.bytes = b.out := by
    have hd : f.delivered = e.delivered ++ evs.flatMap Event.bytes := by
      rw [delivered, hlog, List.flatMap_append]
      rfl
    exact List.append_cancel_left (hd.symm.trans hm.out)
  have hoff : f.receiver.offer = evs.foldl Offer.note e.receiver.offer := by
    show offerOf f.env.log = _
    rw [hlog, offerOf_append]
    rfl
  have hnext0 : e.receiver.offer.right ≠ none → e.receiver.offer.next = add e.tcb.rcvNxt 0 := by
    intro hx
    rw [hr.next hx, add_def, add_zero]
    exact (Int.emod_eq_of_lt h.range.1 h.range.2).symm
  obtain ⟨h1, h2, h3, h4⟩ := deliveries_offer hev hnext0 (by rw [hbytes, hout]; exact hle)
  rw [hbytes, hout] at h3 h4
  rw [← hoff] at h1 h2 h3 h4
  have hstate : f.tcb.state = e.tcb.state := ht.recv.state
  have hbuf : f.buf.recvBuf = e.buf.recvBuf ++ b.out := by
    have hsink : e.conf.onData = false := h.sink
    rw [hm.recvBuf, ht.recv.conf, if_neg (by simp [hsink])]
  have hmax : f.receiver.wndMax = e.receiver.wndMax := by
    show f.conf.rcvWndMax = _
    rw [ht.recv.conf]
    rfl
  have hlen : (f.receiver.recvBuf.length : Int) = e.receiver.recvBuf.length + b.next := by
    show (f.buf.recvBuf.length : Int) = e.buf.recvBuf.length + b.next
    rw [hbuf, List.length_append]
    omega
  have hfits := h.fits
  have hspace := hr.space
  have hroom : (e.receiver.room : Int) = e.receiver.wndMax - e.receiver.recvBuf.length := by
    unfold Receiver.room
    omega
  refine ⟨?_, h3⟩
  constructor
  · show f.conf.onData = false
    rw [ht.recv.conf]
    exact h.sink
  · rw [hmax]
    omega
  · exact h2.trans h.within
  · show 0 ≤ f.tcb.rcvNxt ∧ f.tcb.rcvNxt < 4294967296
    rw [hm.next]
    exact add_range _ _
  · intro hx
    exfalso
    have hx' : f.tcb.state ∈ [.closed, .listen, .synSent] := hx
    rw [hstate] at hx'
    revert hq hx'
    cases e.tcb.state <;> decide
  · intro _
    constructor
    · intro hx
      show _ = f.tcb.rcvNxt
      rw [hm.next, h4 (h1 ▸ hx), zero_add]
    · have hroom' : (f.receiver.room : Int) = e.receiver.room - b.next := by
        show ((f.receiver.wndMax - f.receiver.recvBuf.length : Nat) : Int) = _
        rw [hmax]
        omega
      rw [h3, hroom']
      omega
    · intro x hx
      obtain ⟨p, hp, hpl⟩ := Lib.exists_of_forall₂ hm.held x hx
      have ha := hahead p hp
      have hs := hheld p hp
      refine ⟨p.start - b.next, ?_, by omega, ?_⟩
      · show x.seq = add f.tcb.rcvNxt _
        rw [hm.next, add_add, hpl.1]
        congr 1
        omega
      · rw [h3, hpl.2]
        unfold Piece.stop at hs
        omega

/-- What is queued, as pieces placed from RCV.NXT. -/
theorem exists_held {r n : Int} : ∀ {ooo : List OooEntry}, (∀ x ∈ ooo, Lies r n x) →
    ∃ held : List (Piece UInt8), List.Forall₂ (Places r) ooo held ∧
      ∀ p ∈ held, 0 ≤ p.start ∧ p.stop ≤ n
  | [], _ => ⟨[], .nil, by simp⟩
  | x :: ooo, h => by
    obtain ⟨k, hs, h0, hk⟩ := h x List.mem_cons_self
    obtain ⟨held, hf, hp⟩ := exists_held fun y hy => h y (List.mem_cons_of_mem _ hy)
    refine ⟨⟨k, x.data⟩ :: held, .cons ⟨hs, rfl⟩ hf, fun p hmem => ?_⟩
    rcases List.mem_cons.mp hmem with rfl | hmem
    · exact ⟨h0, hk⟩
    · exact hp p hmem

/-- The receive side as a buffer that starts at RCV.NXT. -/
theorem exists_mirror (h : e.receiver.Covered) (hq : e.tcb.state ∈ QueueStates) :
    ∃ b : Buffer UInt8, Mirrors e.tcb.rcvNxt e.delivered e.buf.recvBuf e b ∧ b.next = 0 ∧
      b.out = [] ∧ b.Ahead ∧ b.Within 0 e.receiver.offer.space := by
  have hr := h.reach hq
  obtain ⟨held, hf, hp⟩ := exists_held hr.queued
  refine ⟨⟨0, [], held⟩, ⟨?_, hf, by simp, by simp⟩, rfl, rfl, fun p hp' => (hp p hp').1,
    ⟨⟨le_rfl, hr.space.1⟩, hp⟩⟩
  rw [add_def, add_zero]
  exact (Int.emod_eq_of_lt h.range.1 h.range.2).symm

theorem Path.spoken (h : Path .close e f) : Speech e.receiver f.receiver := by
  apply h.speech
  rintro (⟨seg, data, s, hd, -⟩ | ⟨n, hn⟩)
  · cases hd
  · cases hn

/-- The arriving text lies below the advertised edge, or no more would be granted than has
been advertised. -/
def TextFits (e : TcpEngine) (seg : TcpSegment) : Prop :=
  s32 (sub seg.seq e.tcb.rcvNxt) + seg.payload.length ≤ e.receiver.offer.space ∨
    e.receiver.Announced

theorem recvData_covered (h : e.receiver.Covered) (hs : e.tcb.state ∈ DataStates)
    (hseq : 0 ≤ seg.seq ∧ seg.seq < 4294967296) (hfit : e.TextFits seg) :
    (e.recvData seg).receiver.Covered := by
  by_cases hne : seg.payload = []
  · rw [recvData, if_pos hne]
    exact h
  have hq : e.tcb.state ∈ QueueStates := List.mem_cons_of_mem _ hs
  obtain ⟨b, hm, hnext, hout, hahead, hw⟩ := exists_mirror h hq
  have hspace := (h.reach hq).space
  have hrange : 0 ≤ e.tcb.rcvNxt ∧ e.tcb.rcvNxt < 4294967296 := h.range
  have hd := s32_def (sub seg.seq e.tcb.rcvNxt)
  have hin : -2147483648 ≤ s32 (sub seg.seq e.tcb.rcvNxt) ∧
      s32 (sub seg.seq e.tcb.rcvNxt) < 2147483648 := by
    rw [sub_def] at hd
    rw [sub_def]
    split at hd <;> omega
  generalize ho : s32 (sub seg.seq e.tcb.rcvNxt) = o at hd hin
  have hoseq : seg.seq = add e.tcb.rcvNxt o := by
    rw [sub_def] at hd
    rw [add_def]
    split at hd <;> omega
  generalize hsp : s32 (sub (add e.tcb.rcvNxt e.rcvWnd) (add e.tcb.rcvNxt (max o b.next))) = space
  have hstop : 0 < space →
      (⟨o, seg.payload.take (max o b.next - o + space).toNat⟩ : Piece UInt8).stop ≤
        e.receiver.offer.space := by
    intro h0
    simp only [Piece.stop, List.length_take]
    rcases hfit with hfit | ⟨hsmall, hfit⟩
    · rw [ho] at hfit
      omega
    · have hwnd : (e.rcvWnd : Int) ≤ e.receiver.offer.space := hfit
      have hs : s32 (sub (add e.tcb.rcvNxt e.rcvWnd) (add e.tcb.rcvNxt (max o b.next))) =
          e.rcvWnd - max o b.next := by
        refine s32_eq_of_congr ?_ (by omega) (by omega)
        simp only [sub_def, add_def]
        omega
      omega
  have hack (g : TcpEngine) (force : Bool) (hst : g.tcb.state ∈ DataStates)
      (hg : g.receiver.Covered) : (g.scheduleAck force).receiver.Covered :=
    ((Path.of_move (.scheduleAck g force hst)).spoken.covered hg).1
  rcases hm.recvText hw (by omega) hne hoseq (by omega) hsp rfl hstop with
    ⟨heq, -⟩ | ⟨g, force, h0, heq, htext, hmir⟩
  · rw [heq]
    exact hack e true hs h
  · rw [heq]
    apply hack g force (htext.recv.state ▸ hs)
    generalize (⟨o, seg.payload.take (max o b.next - o + space).toNat⟩ : Piece UInt8) = p
      at hstop hmir
    have hlen := Lib.Buffer.length_offer b p
    rw [hout, hnext] at hlen
    have hwithin := hw.offer (hstop h0)
    refine (covered_of_text h hq htext hmir ?_ hwithin.front.2 (hahead.offer p)
      fun q hq => (hwithin.held q hq).2).1
    simpa using hlen

/-- Text taken out of the queue leaves as much less to offer. -/
theorem announced_of_text (ht : TextFrame e f)
    (hm : Mirrors e.tcb.rcvNxt e.delivered e.buf.recvBuf f b)
    (hsink : e.receiver.onData = false) (hout : (b.out.length : Int) = b.next)
    (hle : b.next ≤ e.receiver.offer.space) (hroom : e.receiver.offer.space ≤ e.receiver.room)
    (hsp : f.receiver.offer.space = e.receiver.offer.space - b.next) (ha : e.receiver.Announced) :
    f.receiver.Announced := by
  obtain ⟨hsmall, hwnd⟩ := ha
  have hmax : f.receiver.wndMax = e.receiver.wndMax := by
    show f.conf.rcvWndMax = _
    rw [ht.recv.conf]
    rfl
  have hbuf : f.buf.recvBuf = e.buf.recvBuf ++ b.out := by
    have hsink : e.conf.onData = false := hsink
    rw [hm.recvBuf, ht.recv.conf, if_neg (by simp [hsink])]
  have hroom' : (f.receiver.room : Int) = e.receiver.room - b.next := by
    have hlen : (f.receiver.recvBuf.length : Int) = e.receiver.recvBuf.length + b.next := by
      show (f.buf.recvBuf.length : Int) = e.buf.recvBuf.length + b.next
      rw [hbuf, List.length_append]
      omega
    unfold Receiver.room at hroom ⊢
    rw [hmax]
    omega
  have hlead (right : Int) : f.receiver.lead right = e.receiver.lead right := by
    have hn : f.receiver.rcvNxt = add e.receiver.rcvNxt b.next := hm.next
    simp only [Receiver.lead, hn, hroom', add_def]
    omega
  have hstep : f.receiver.edgeStep = e.receiver.edgeStep := by
    obtain ⟨n, u, htcb⟩ := ht.recv.tcb
    show min f.tcb.sndMss (max 1 (f.conf.rcvWndMax / 2)) = _
    rw [htcb, ht.recv.conf]
    rfl
  have hheld (right : Int) : f.receiver.HeldBack right ↔ e.receiver.HeldBack right := by
    have hadv : f.receiver.adv = e.receiver.adv := ht.adv
    have hsws : f.receiver.sws = e.receiver.sws := by
      show f.conf.cfg.swsAvoidance = _
      rw [ht.recv.conf]
      rfl
    rw [Receiver.HeldBack, Receiver.HeldBack, hadv, hsws, hlead, hstep]
  refine ⟨hmax ▸ hsmall, ?_⟩
  rw [hsp]
  rcases Receiver.rcvWnd_cases f.receiver with ⟨right, hh⟩ | ⟨hh, hw⟩
  · have hf := Receiver.rcvWnd_held_eq (hmax ▸ hsmall) hh
    have he := Receiver.rcvWnd_held_eq hsmall ((hheld right).mp hh)
    rw [hlead] at hf
    omega
  · have he := Receiver.rcvWnd_open fun right hr => hh right ((hheld right).mpr hr)
    omega

/-- The text of a SYN that is merged leaves text behind it where it was. -/
theorem mergeReassembly_covered (seg : TcpSegment) (h : e.receiver.Covered)
    (hs : e.tcb.state ∈ DataStates) :
    e.mergeReassembly.receiver.Covered ∧
      (-1073741824 ≤ s32 (sub seg.seq e.tcb.rcvNxt) → e.TextFits seg →
        e.mergeReassembly.TextFits seg) := by
  have hq : e.tcb.state ∈ QueueStates := List.mem_cons_of_mem _ hs
  obtain ⟨b, hm, hnext, hout, hahead, hw⟩ := exists_mirror h hq
  have hspace := (h.reach hq).space
  have htext : TextFrame e e.mergeReassembly := mergeLoop_text _
  have hmir := hm.mergeLoop hw (by omega) e.buf.ooo.length
  have hset := Lib.Buffer.settle_settled e.buf.ooo.length (b := b) (le_of_eq hm.held.length_eq.symm)
  have hgrow := Lib.Buffer.settle_grows (b := b) e.buf.ooo.length
  have hwithin := hw.settle e.buf.ooo.length
  generalize b.settle e.buf.ooo.length = c at hmir hset hgrow hwithin
  rw [hnext, hout] at hgrow
  have hlen : (c.out.length : Int) = c.next := by simpa using hgrow.2.2
  obtain ⟨hcov, hsp⟩ := covered_of_text h hq htext hmir hlen hwithin.front.2 hset.ahead
    fun p hp => (hwithin.held p hp).2
  refine ⟨hcov, fun hlow hfit => ?_⟩
  rcases hfit with hfit | ha
  · left
    rw [hsp]
    have hn : e.mergeReassembly.tcb.rcvNxt = add e.tcb.rcvNxt c.next := hmir.next
    have hfront := hwithin.front
    have hs32 : s32 (sub seg.seq e.mergeReassembly.tcb.rcvNxt) =
        s32 (sub seg.seq e.tcb.rcvNxt) - c.next := by
      have hd := s32_def (sub seg.seq e.tcb.rcvNxt)
      refine s32_eq_of_congr ?_ (by omega) (by omega)
      rw [sub_def] at hd
      rw [hn, sub_def, sub_def, add_def]
      split at hd <;> omega
    omega
  · exact Or.inr (announced_of_text htext hmir h.sink hlen hwithin.front.2 hspace.2.2 hsp ha)

theorem TextFits.widens (h : e.TextFits seg) (hg : Widens e.receiver f.receiver)
    (hq : f.tcb.state ∈ QueueStates) : f.TextFits seg := by
  rcases h with hfit | ha
  · left
    have hn : f.tcb.rcvNxt = e.tcb.rcvNxt := hg.rcvNxt hq
    rw [hn]
    exact hfit.trans (hg.space hq)
  · exact Or.inr (hg.announced hq ha)

/-! ## The handlers -/

theorem sendPending_spoken : Speech e.receiver e.sendPending.receiver := (sendPending_path e).spoken

theorem processFin_covered (h : e.receiver.Covered) (hs : e.tcb.state ∈ OpenStates) :
    e.processFin.receiver.Covered := by
  have hframe : SendFrame e.consumeFin e.processFin := by
    have hack : SendFrame e.consumeFin e.consumeFin.sendAck :=
      ⟨by simp, by simp, by simp, by simp, by simp, by simp⟩
    unfold processFin
    dsimp only
    split
    · exact hack.trans (setState_frame _)
    · exact hack.trans (setState_frame _)
    · exact hack.trans enterTimeWait_frame
    · exact hack
  have hq : e.processFin.tcb.state ∉ QueueStates ∧
      e.processFin.tcb.state ∉ [.closed, .listen, .synSent] := by
    obtain ⟨st, hst, h⟩ | ⟨-, h⟩ := processFin_cases (e := e)
    · rw [h, setState_tcb]
      show st ∉ QueueStates ∧ st ∉ [.closed, .listen, .synSent]
      rcases hst with ⟨-, rfl⟩ | ⟨-, rfl⟩ | ⟨hne, rfl⟩
      · decide
      · decide
      · revert hs hne
        cases e.tcb.state <;> decide
    · have htw : e.processFin.tcb.state = .timeWait := by rw [h]; simp
      rw [htw]
      decide
  have hmax : e.processFin.receiver.wndMax = e.receiver.wndMax := by
    show e.processFin.conf.rcvWndMax = _
    rw [hframe.conf, consumeFin_conf]
    rfl
  refine (h.leaves (w := e.processFin.receiver) ?_ ?_ ?_ ?_ (fun hx => absurd hx hq.2) hq.1).1
  · show e.processFin.conf.onData = _
    rw [hframe.conf, consumeFin_conf]
    rfl
  · have hb : e.processFin.receiver.recvBuf = e.receiver.recvBuf := by
      show e.processFin.buf.recvBuf = _
      rw [hframe.recvBuf, consumeFin_buf]
      rfl
    rw [hb, hmax]
    exact h.fits
  · show 0 ≤ e.processFin.tcb.rcvNxt ∧ e.processFin.tcb.rcvNxt < 4294967296
    rw [hframe.rcvNxt, consumeFin_tcb]
    exact add_range _ _
  · obtain ⟨evs, hlog, hev⟩ := processFin_logs (e := e) (P := fun ev => ∀ data, ev ≠ .deliver data)
      (by simp) (by simp) (by simp)
    show (offerOf e.processFin.env.log).within = _
    rw [hlog, offerOf_append]
    exact Receiver.notes_within hev _

theorem finCheck_covered (h : e.receiver.Covered) (hs : e.tcb.state ∈ OpenStates) :
    (e.finCheck seg).checkPendingFin.receiver.Covered := by
  have hcheck {g : TcpEngine} (hg : g.receiver.Covered) (hgs : g.tcb.state ∈ OpenStates) :
      g.checkPendingFin.receiver.Covered := by
    unfold checkPendingFin
    split
    · exact processFin_covered hg hgs
    · exact hg
  unfold finCheck
  dsimp only
  split_ifs
  · rw [checkPendingFin, if_neg (by simp [processFin_pendingFin])]
    exact processFin_covered h hs
  · exact hcheck (g := e.deferFin _) h hs
  · exact hcheck h hs
  · exact hcheck h hs

theorem textAndFin_covered (h : e.receiver.Covered) (hs : e.tcb.state ∈ OpenStates)
    (hseq : 0 ≤ seg.seq ∧ seg.seq < 4294967296)
    (hfit : seg.payload ≠ [] → e.tcb.state ∈ DataStates → e.TextFits seg) :
    (e.textAndFin seg).receiver.Covered := by
  unfold textAndFin
  dsimp only
  have htext : (if seg.payload ≠ [] ∧ e.tcb.state ∈ [.established, .finWait1, .finWait2] then
      e.recvData seg else e).receiver.Covered := by
    split
    · next hc => exact recvData_covered h hc.2 hseq (hfit hc.1 hc.2)
    · exact h
  have hst : (if seg.payload ≠ [] ∧ e.tcb.state ∈ [.established, .finWait1, .finWait2] then
      e.recvData seg else e).tcb.state ∈ OpenStates := by
    split
    · rwa [(recvData_frame e seg).state]
    · exact hs
  exact finCheck_covered (sendPending_spoken.covered htext).1 (sendPending_open hst)

theorem windowUpdate_spoken : Speech e.receiver (e.windowUpdate seg).receiver := by
  unfold windowUpdate
  split
  · dsimp only
    split
    · exact (cancelPersist_path (e.setSendWindow seg.window seg.seq seg.ack)).spoken
    · exact .refl
  · exact .refl

theorem establishedAck_covered (h : e.receiver.Covered) (hs : e.tcb.state ∈ OpenStates)
    (hseq : 0 ≤ seg.seq ∧ seg.seq < 4294967296)
    (hfit : seg.payload ≠ [] → e.tcb.state ∈ DataStates → seqGt seg.ack e.tcb.sndNxt = false →
      e.TextFits seg) : (e.establishedAck seg).receiver.Covered := by
  unfold establishedAck
  split
  · exact (sendAck_speech.covered h).1
  next hnxt =>
  dsimp only
  have hp : (if seqGt seg.ack e.tcb.sndUna then e.processAck seg.ack else e).receiver =
      e.receiver := by
    split
    · simp [receiver]
    · rfl
  have hs1 : (if seqGt seg.ack e.tcb.sndUna then e.processAck seg.ack else e).tcb.state ∈
      OpenStates := by
    split
    · simpa using hs
    · exact hs
  generalize (if seqGt seg.ack e.tcb.sndUna then e.processAck seg.ack else e) = f at hp hs1
  have hs2 := windowUpdate_open seg hs1
  have hspeech : Speech e.receiver (f.windowUpdate seg).receiver := hp ▸ windowUpdate_spoken
  generalize f.windowUpdate seg = g at hs2 hspeech
  obtain ⟨hg, hgrow⟩ := hspeech.covered h
  have hfit' {k : TcpEngine} (hk : Widens e.receiver k.receiver) (hne : seg.payload ≠ [])
      (hks : k.tcb.state ∈ DataStates) : k.TextFits seg := by
    have hkq : k.tcb.state ∈ QueueStates := List.mem_cons_of_mem _ hks
    have hq : e.tcb.state ∈ QueueStates := hk.before hkq
    have hd : e.tcb.state ∈ DataStates := by
      revert hs hq
      cases e.tcb.state <;> decide
    exact (hfit hne hd (by simpa using hnxt)).widens hk hkq
  split_ifs with h1 h2 h3
  · have hw := setState_speech (e := g) .finWait2 (Or.inr (by simp [h1.1, Receiver.arcs]))
    obtain ⟨hk, hkg⟩ := hw.covered hg
    exact textAndFin_covered hk (by simp) hseq fun hne hks => hfit' (hgrow.trans hkg) hne hks
  · exact ((Path.of_move (.finAckedTimeWait g h2.1 h2.2)).spoken.covered hg).1
  · exact ((enterClosed_speech (blocked_of_not_canSend (by simp [CanSend, h3.1]))).covered hg).1
  · exact textAndFin_covered hg hs2 hseq fun hne hks => hfit' hgrow hne hks

/-- What a segment must meet for its text to be looked at. -/
def TakesText (e : TcpEngine) (seg : TcpSegment) : Prop :=
  acceptable seg.seq seg.segLen e.tcb.rcvNxt e.rcvWnd = true ∧ seg.rst = false ∧ seg.syn = false ∧
    seg.ackFlag = true ∧
    if e.tcb.state = .synReceived then
      seqLt e.tcb.sndUna seg.ack = true ∧ seqLeq seg.ack e.tcb.sndNxt = true
    else e.tcb.state ∈ DataStates ∧ seqGt seg.ack e.tcb.sndNxt = false

theorem synReceivedAck_covered (h : e.receiver.Covered) (hs : e.tcb.state = .synReceived)
    (hseq : 0 ≤ seg.seq ∧ seg.seq < 4294967296)
    (hfit : seg.payload ≠ [] → seqLt e.tcb.sndUna seg.ack = true →
      seqLeq seg.ack e.tcb.sndNxt = true →
      e.TextFits seg ∧ -1073741824 ≤ s32 (sub seg.seq e.tcb.rcvNxt)) :
    (e.synReceivedAck seg).receiver.Covered := by
  unfold synReceivedAck
  split
  · next hack =>
    rw [Bool.and_eq_true] at hack
    dsimp only
    have hr : ((e.processAck seg.ack).setSendWindow seg.window seg.seq seg.ack).receiver =
        e.receiver := by simp [receiver]
    have hst : ((e.processAck seg.ack).setSendWindow seg.window seg.seq seg.ack).tcb.state =
        .synReceived := by simp [hs]
    generalize (e.processAck seg.ack).setSendWindow seg.window seg.seq seg.ack = f at hr hst
    have hspeech := setState_speech (e := f) .established (Or.inr (by simp [hst, Receiver.arcs]))
    rw [hr] at hspeech
    obtain ⟨hg, hgrow⟩ := hspeech.covered h
    have hgs : (f.setState .established).tcb.state = .established := by simp
    generalize f.setState .established = g at hg hgrow hgs
    have hgq : g.tcb.state ∈ QueueStates := by
      rw [hgs]
      decide
    obtain ⟨hm, hmfit⟩ := mergeReassembly_covered seg hg (by rw [hgs]; decide)
    have hms : g.mergeReassembly.tcb.state ∈ OpenStates := by
      rw [(mergeReassembly_frame g).state, hgs]
      decide
    obtain ⟨hp, hpgrow⟩ := sendPending_spoken.covered hm
    refine textAndFin_covered hp (sendPending_open hms) hseq fun hne hd => ?_
    obtain ⟨hte, hlow⟩ := hfit hne hack.1 hack.2
    have hn : g.tcb.rcvNxt = e.tcb.rcvNxt := hgrow.rcvNxt hgq
    exact (hmfit (hn ▸ hlow) (hte.widens hgrow hgq)).widens hpgrow (List.mem_cons_of_mem _ hd)
  · exact ((emitRstReply_speech _ _ _ _).covered h).1

theorem doReset_speech (hb : e.Blocked) : Speech e.receiver e.doReset.receiver := by
  by_cases hl : e.tcb.state = .synReceived ∧ e.fin.passive = true
  · apply speaks_of_eq (.ends e.receiver .listen (Or.inr ⟨hl.1, rfl⟩))
    rw [doReset_listen hl.1 hl.2]
    simp [restorePort, receiver, Receiver.note, Receiver.cleared, setState_log, resetBuffers, hl.1]
  · obtain ⟨msg, -, hd⟩ := doReset_close hl
    rw [hd]
    exact (note_speech (f := e.signalError msg) (.error msg) True.intro rfl).trans
      (enterClosed_speech (hb.of_view rfl))

theorem timeWaitArrives_speech (hs : e.tcb.state = .timeWait) :
    Speech e.receiver (e.timeWaitArrives seg).receiver := by
  unfold timeWaitArrives
  split_ifs
  · exact enterClosed_speech (blocked_of_not_canSend (by simp [CanSend, hs]))
  · exact sendAck_speech
  · exact sendAck_speech
  · exact sendAck_speech

theorem handleSynchronized_covered (h : e.receiver.Covered) (hs : e.tcb.state ∈ SyncStates)
    (hb : seg.rst = true → e.Blocked) (hseq : 0 ≤ seg.seq ∧ seg.seq < 4294967296)
    (hfit : seg.payload ≠ [] → e.TakesText seg → e.TextFits seg ∧
      (e.tcb.state = .synReceived → -1073741824 ≤ s32 (sub seg.seq e.tcb.rcvNxt))) :
    (e.handleSynchronized seg).receiver.Covered := by
  unfold handleSynchronized
  split_ifs with htw hacc hr hr hq hsyn hack hsr
  · exact ((timeWaitArrives_speech htw).covered h).1
  · exact h
  · exact (sendAck_speech.covered h).1
  · exact ((doReset_speech (hb hr)).covered h).1
  · exact (sendAck_speech.covered h).1
  · exact (sendAck_speech.covered h).1
  · exact h
  · refine synReceivedAck_covered h hsr hseq fun hne h1 h2 => ?_
    have ht : e.TakesText seg := ⟨by simpa using hacc, by simpa using hr, by simpa using hsyn,
      by simpa using hack, by
        rw [if_pos hsr]
        exact ⟨h1, h2⟩⟩
    exact ⟨(hfit hne ht).1, (hfit hne ht).2 hsr⟩
  · have hop : e.tcb.state ∈ OpenStates := by
      revert hs htw hsr
      cases e.tcb.state <;> decide
    refine establishedAck_covered h hop hseq fun hne hd hn => (hfit hne ?_).1
    exact ⟨by simpa using hacc, by simpa using hr, by simpa using hsyn, by simpa using hack, by
      rw [if_neg hsr]
      exact ⟨hd, hn⟩⟩

/-! ## The text of a SYN -/

/-- The text of a SYN that acknowledges ours comes after the window has been advertised; that of
a SYN that crosses ours is queued before. Only what the header can carry is advertised. -/
def SynTextFits (e : TcpEngine) (seg : TcpSegment) : Prop :=
  let f := e.takeSyn seg
  if seqGt f.tcb.sndUna f.tcb.iss then
    e.conf.rcvWndMax ≤ 65535 ∨ seg.payload.length ≤ f.rcvWnd % 65536
  else f.tcb.sndMss ≤ 65535 ∧ seg.payload.length ≤ f.rcvWnd % 65536

theorem setState_rcvWnd (st : ConnState) : (e.setState st).rcvWnd = e.rcvWnd := by
  simp [rcvWnd]

theorem takeSyn_covered (h : e.receiver.Covered) (ht : e.TakesSyn seg) (st : ConnState)
    (hst : st ∈ [.established, .synReceived]) :
    ((e.takeSyn seg).setState st).receiver.Covered ∧
      ((e.takeSyn seg).setState st).receiver.offer.right = none ∧
      ((e.takeSyn seg).setState st).buf.ooo = [] := by
  obtain ⟨m, hm⟩ := takeSyn_receiver ht st hst
  have hs : e.receiver.state ∈ [.listen, .synSent] := by
    have : e.receiver.state = .synSent := ht.1
    rw [this]
    decide
  have ho : ((e.takeSyn seg).setState st).buf.ooo = e.buf.ooo := congrArg Receiver.ooo hm
  rw [hm, ho]
  exact and_assoc.mp ⟨h.opens hs st seg.seq m, h.idle (List.mem_cons_of_mem _ hs)⟩

/-- The window that has just been advertised is what text is held against. -/
theorem sendAck_offers (hn : e.receiver.offer.right = none) :
    e.sendAck.receiver.offer.space = (e.rcvWnd % 65536 : Nat) := by
  have hoff : e.sendAck.receiver.offer = e.receiver.offer.advertise e.tcb.rcvNxt e.rcvWnd := by
    rw [sendAck_receiver]
    show offerOf (e.env.log ++ [.tx e.ackSegment]) = _
    rw [offerOf_append]
    rfl
  have h0 := Receiver.space_none hn
  rw [hoff, Receiver.advertise_space _ (fun hx => absurd hn hx) (by omega) (by omega), h0]
  omega

theorem synSentEstablished_covered (h : e.receiver.Covered) (ht : e.TakesSyn seg)
    (hfit : seg.payload ≠ [] → e.conf.rcvWndMax ≤ 65535 ∨
      seg.payload.length ≤ (e.takeSyn seg).rcvWnd % 65536) :
    ((e.takeSyn seg).synSentEstablished seg).receiver.Covered := by
  unfold synSentEstablished
  dsimp only
  obtain ⟨hf, hnone, -⟩ := takeSyn_covered h ht .established (by decide)
  have hn : ((e.takeSyn seg).setState .established).tcb.rcvNxt = add seg.seq 1 := by
    simp [takeSyn_tcb]
  have hst : ((e.takeSyn seg).setState .established).tcb.state = .established := by simp
  have hw := setState_rcvWnd (e := e.takeSyn seg) .established
  have hmax : ((e.takeSyn seg).setState .established).receiver.wndMax = e.conf.rcvWndMax := by
    obtain ⟨m, hm⟩ := takeSyn_receiver ht .established (by decide)
    rw [hm]
    rfl
  generalize (e.takeSyn seg).setState .established = f at hf hnone hn hst hw hmax
  obtain ⟨hg, hgrow⟩ := sendAck_speech.covered hf
  have hsp := sendAck_offers hnone
  have hgst : f.sendAck.tcb.state = .established := by simp [hst]
  have hfits (hne : seg.payload ≠ []) : f.sendAck.TextFits seg.synTaken := by
    rcases hfit hne with hm | hl
    · refine Or.inr ⟨?_, ?_⟩
      · show f.sendAck.receiver.wndMax < _
        rw [sendAck_receiver]
        show f.receiver.wndMax < _
        omega
      · have hsmall : f.receiver.wndMax < 2147483648 := by omega
        have hwnd : f.sendAck.receiver.rcvWnd = f.receiver.rcvWnd := by
          rw [sendAck_receiver]
          exact Receiver.rcvWnd_advertised hsmall
        have hroom := Receiver.rcvWnd_le_room f.receiver
        have hle : f.receiver.room ≤ f.receiver.wndMax := Nat.sub_le _ _
        have heq : f.receiver.rcvWnd = f.rcvWnd := rfl
        rw [hwnd, hsp, heq, Nat.mod_eq_of_lt (by omega)]
    · left
      have hself : s32 (sub seg.synTaken.seq f.sendAck.tcb.rcvNxt) = 0 := by
        rw [sendAck_tcb, hn]
        exact s32_eq_of_congr (by simp [sub_def, TcpSegment.synTaken]) (by omega) (by omega)
      rw [hself, hsp, hw]
      show (0 : Int) + seg.payload.length ≤ _
      omega
  obtain ⟨hp, hpgrow⟩ := sendPending_spoken.covered hg
  have hop : f.sendAck.sendPending.tcb.state ∈ OpenStates := sendPending_open (by rw [hgst]; decide)
  split
  · have hsync : f.sendAck.sendPending.tcb.state ∈ SyncStates :=
      List.mem_cons_of_mem _ (List.mem_cons_of_mem _ hop)
    refine handleSynchronized_covered hp hsync (fun hr => ?_) (add_range _ _) fun hne htake => ?_
    · have : seg.rst = true := hr
      rw [ht.2.2.1] at this
      cases this
    · have hnot : f.sendAck.sendPending.tcb.state ≠ .synReceived := by
        intro hx
        rw [hx] at hop
        revert hop
        decide
      have hdata : f.sendAck.sendPending.tcb.state ∈ DataStates := by
        have := htake.2.2.2.2
        rw [if_neg hnot] at this
        exact this.1
      exact ⟨(hfits hne).widens hpgrow (List.mem_cons_of_mem _ hdata), fun hx => absurd hx hnot⟩
  · exact hp

theorem simultaneousOpen_covered (h : e.receiver.Covered) (ht : e.TakesSyn seg)
    (hfit : seg.payload ≠ [] → (e.takeSyn seg).tcb.sndMss ≤ 65535 ∧
      seg.payload.length ≤ (e.takeSyn seg).rcvWnd % 65536) :
    ((e.takeSyn seg).simultaneousOpen seg).receiver.Covered := by
  obtain ⟨hf, hnone, hooo⟩ := takeSyn_covered h ht .synReceived (by decide)
  have hn : ((e.takeSyn seg).setState .synReceived).tcb.rcvNxt = add seg.seq 1 := by
    simp [takeSyn_tcb]
  have hst : ((e.takeSyn seg).setState .synReceived).tcb.state = .synReceived := by simp
  have hw := setState_rcvWnd (e := e.takeSyn seg) .synReceived
  have hmss : ((e.takeSyn seg).setState .synReceived).tcb.sndMss = (e.takeSyn seg).tcb.sndMss := by
    simp
  have hr : (e.takeSyn seg).becomeSynReceived.receiver =
      ((e.takeSyn seg).setState .synReceived).receiver := rfl
  unfold simultaneousOpen
  dsimp only
  have hb : (e.takeSyn seg).becomeSynReceived.tcb = ((e.takeSyn seg).setState .synReceived).tcb :=
    rfl
  generalize (e.takeSyn seg).becomeSynReceived = k at hr hb
  generalize (e.takeSyn seg).setState .synReceived = f at hf hnone hooo hn hst hw hmss hr hb
  have hdefer (g : TcpEngine) : (if seg.fin then
      g.deferFin (add (add seg.seq 1) seg.payload.length) else g).receiver = g.receiver ∧
      (if seg.fin then g.deferFin (add (add seg.seq 1) seg.payload.length) else g).tcb = g.tcb := by
    split <;> exact ⟨rfl, rfl⟩
  generalize hg : (if seg.payload ≠ [] then
    k.storeOoo (add seg.seq 1) seg.payload { seg.flags with fin := false } else k) = g
  by_cases hne : seg.payload = []
  · rw [if_neg (not_not.mpr hne)] at hg
    refine ((makeAndTransmit_speech _ _ _ _ _).covered ?_).1
    rw [(hdefer g).1, ← hg, hr]
    exact hf
  · obtain ⟨hm, hl⟩ := hfit hne
    rw [if_pos hne] at hg
    have hko : k.buf.ooo = [] := (congrArg Receiver.ooo hr).trans hooo
    have hstore : g.receiver = { f.receiver with
        ooo := [⟨add seg.seq 1, seg.payload, { seg.flags with fin := false }⟩] } := by
      rw [← hg, storeOoo, hko, ← hr]
      rfl
    have hstcb : g.tcb = f.tcb := by
      rw [← hg]
      exact (storeOoo_tcb _ _ _).trans hb
    rw [← (hdefer g).1] at hstore
    rw [← (hdefer g).2] at hstcb
    generalize (if seg.fin then g.deferFin (add (add seg.seq 1) seg.payload.length) else g) = d
      at hstore hstcb
    -- the SYN-ACK offers the window, and the text lies below it
    have hplain : d.sendSynAck.receiver = { d.receiver with adv := d.receiver.advertised }.note
        [.tx (d.segmentFor d.tcb.iss { syn := true, ack := true } [] true)] := by
      rw [sendSynAck, makeAndTransmit, transmit_plain _ _ (segmentFor_plain fun _ => by
        rw [hstcb, hmss]
        exact hm)]
      rfl
    have hdw : d.rcvWnd = f.rcvWnd := by
      have : d.receiver.rcvWnd = f.receiver.rcvWnd := by
        rw [hstore]
        rfl
      exact this
    have hdn : d.tcb.rcvNxt = f.tcb.rcvNxt := by rw [hstcb]
    have hoff : d.sendSynAck.receiver.offer = f.receiver.offer.advertise f.tcb.rcvNxt f.rcvWnd := by
      rw [hplain]
      show offerOf (d.receiver.log ++
          [.tx (d.segmentFor d.tcb.iss { syn := true, ack := true } [] true)]) = _
      rw [offerOf_append, hstore, ← hdn, ← hdw]
      rfl
    have h0 := Receiver.space_none hnone
    have hspace : d.sendSynAck.receiver.offer.space = (f.rcvWnd % 65536 : Nat) := by
      rw [hoff, Receiver.advertise_space _ (fun hx => absurd hnone hx) (by omega) (by omega), h0]
      omega
    have hlt : f.rcvWnd % 65536 < 65536 := Nat.mod_lt _ (by decide)
    have hle : f.rcvWnd % 65536 ≤ f.rcvWnd := Nat.mod_le _ _
    have hroom : f.rcvWnd ≤ f.receiver.room := Receiver.rcvWnd_le_room f.receiver
    have hsame : d.sendSynAck.receiver = { f.receiver with
        ooo := [⟨add seg.seq 1, seg.payload, { seg.flags with fin := false }⟩]
        adv := d.receiver.advertised
        log := d.sendSynAck.receiver.log } := by
      rw [hplain, hstore]
      rfl
    generalize d.sendSynAck.receiver = w at hoff hspace hsame
    have hstate : f.receiver.state = .synReceived := hst
    have hwn : w.rcvNxt = add seg.seq 1 := by
      rw [hsame]
      exact hn
    constructor
    · rw [hsame]
      exact hf.sink
    · rw [hsame]
      exact hf.fits
    · rw [hoff]
      exact hf.within
    · rw [hwn]
      exact add_range _ _
    · intro hx
      rw [hsame] at hx
      exfalso
      revert hx
      show f.receiver.state ∉ _
      rw [hstate]
      decide
    · intro _
      constructor
      · intro _
        rw [hoff, hwn]
        exact hn
      · have hwr : w.room = f.receiver.room := by
          rw [hsame]
          rfl
        rw [hspace, hwr]
        omega
      · intro x hx
        have hwo : w.ooo = [⟨add seg.seq 1, seg.payload, { seg.flags with fin := false }⟩] := by
          rw [hsame]
        rw [hwo] at hx
        obtain rfl := List.mem_singleton.mp hx
        refine ⟨0, ?_, le_rfl, ?_⟩
        · rw [hwn, add_add, add_zero]
        · rw [hspace, hw]
          show (0 : Int) + seg.payload.length ≤ _
          omega

theorem handleSynSent_covered (h : e.receiver.Covered) (hs : e.tcb.state = .synSent)
    (hfit : seg.payload ≠ [] → e.TakesSyn seg → e.SynTextFits seg) :
    (e.handleSynSent seg).receiver.Covered := by
  unfold handleSynSent
  split
  · split
    · exact h
    · exact ((emitRstReply_speech _ _ _ _).covered h).1
  next hbad =>
  dsimp only
  split
  · split
    · have hnote : Speech e.receiver (e.signalError "connection refused").receiver :=
        note_speech (.error "connection refused") True.intro rfl
      refine ((enterClosed_speech ?_).covered (hnote.covered h).1).1
      exact (blocked_of_not_canSend (by simp [CanSend, hs])).of_view rfl
    · exact h
  next hr =>
  split
  · exact h
  next hsyn =>
  have ht : e.TakesSyn seg := by
    refine ⟨hs, by simpa using hsyn, by simpa using hr, fun hack => ?_⟩
    simp only [hack, Bool.true_and, Bool.or_eq_true, not_or, Bool.not_eq_true] at hbad
    simp [seqGt_eq_not_seqLeq, hbad.1]
    simpa [seqGt_eq_not_seqLeq] using hbad.2
  split
  · next hu =>
    refine synSentEstablished_covered h ht fun hne => ?_
    have := hfit hne ht
    unfold SynTextFits at this
    dsimp only at this
    rwa [if_pos hu] at this
  · next hu =>
    refine simultaneousOpen_covered h ht fun hne => ?_
    have := hfit hne ht
    unfold SynTextFits at this
    dsimp only at this
    rwa [if_neg hu] at this

theorem handleListen_covered (h : e.receiver.Covered) (hs : e.tcb.state = .listen) :
    (e.handleListen seg).receiver.Covered := by
  unfold handleListen
  split_ifs
  · exact h
  · exact ((emitRstReply_speech _ _ _ _).covered h).1
  · exact h
  · exact h
  · obtain ⟨m, -, -, ha⟩ := acceptSyn_eq (e := e) seg hs
    have hr : (e.listenTaken seg m).receiver =
        { e.receiver with state := .synReceived, rcvNxt := add seg.seq 1, mss := m }.note
          [.stateChange e.receiver.state .synReceived] := by
      simp [receiver, listenTaken, listenTcb, Receiver.note, hs]
    rw [ha]
    refine ((queueAndSend_speech _ _ _ _).covered ?_).1
    rw [hr]
    refine (h.opens ?_ .synReceived seg.seq m).1
    show e.tcb.state ∈ _
    rw [hs]
    decide

theorem handleClosed_covered (h : e.receiver.Covered) : (e.handleClosed seg).receiver.Covered := by
  unfold handleClosed
  split_ifs
  · exact h
  · exact ((emitRstReply_speech _ _ _ _).covered h).1
  · exact ((emitRstReply_speech _ _ _ _).covered h).1

/-! ## Runs -/

/-- Text that is looked at lies below the advertised edge, or the window has been advertised. -/
def TextWithin (e : TcpEngine) : Action → Prop
  | .segment data => ∀ seg, TcpSegment.parse data = .ok seg → e.Addressed seg → seg.payload ≠ [] →
      (e.TakesText seg → e.TextFits seg ∧
        (e.tcb.state = .synReceived → -1073741824 ≤ s32 (sub seg.seq e.tcb.rcvNxt))) ∧
      (e.TakesSyn seg → e.SynTextFits seg)
  | _ => True

theorem handle_covered (h : e.receiver.Covered) (hb : e.Blocked)
    (hseq : 0 ≤ seg.seq ∧ seg.seq < 4294967296)
    (hfit : seg.payload ≠ [] → (e.TakesText seg → e.TextFits seg ∧
        (e.tcb.state = .synReceived → -1073741824 ≤ s32 (sub seg.seq e.tcb.rcvNxt))) ∧
      (e.TakesSyn seg → e.SynTextFits seg)) :
    (e.handle seg).receiver.Covered := by
  rcases e.state_cases with hs | hs | hs | hs
  · rw [handle_closed seg hs]
    exact handleClosed_covered h
  · rw [handle_listen seg hs]
    exact handleListen_covered h hs
  · rw [handle_synSent seg hs]
    exact handleSynSent_covered h hs fun hne => (hfit hne).2
  · rw [handle_synchronized seg hs]
    exact handleSynchronized_covered h hs (fun _ => hb) hseq fun hne => (hfit hne).1

/-- Reading frees room and announces it or not. -/
theorem receive_covered {n : Nat} (h : e.receiver.Covered) : (e.receive n).receiver.Covered := by
  have hraise (msg : String) : (e.raise msg).receiver = e.receiver := rfl
  unfold receive
  split_ifs
  · rw [hraise]
    exact h
  · rw [hraise]
    exact h
  · rw [hraise]
    exact h
  · dsimp only
    have hd : (e.drain n).receiver.Covered := by
      have hfits := h.fits
      have hlen : (e.drain n).receiver.recvBuf.length ≤ e.receiver.recvBuf.length := by
        show (e.buf.recvBuf.drop n).length ≤ e.buf.recvBuf.length
        simp
      refine ⟨h.sink, hlen.trans h.fits, h.within, h.range, h.idle, fun hq => ?_⟩
      have hr := h.reach hq
      have hspace := hr.space
      refine ⟨hr.next, ?_, hr.queued⟩
      have hroom : e.receiver.room ≤ (e.drain n).receiver.room := Nat.sub_le_sub_left hlen _
      show 0 ≤ e.receiver.offer.space ∧ e.receiver.offer.space ≤ 65535 ∧ _
      exact ⟨hspace.1, hspace.2.1, hspace.2.2.trans (by exact_mod_cast hroom)⟩
    have hf {g : TcpEngine} (data : List UInt8) (hg : g.receiver.Covered) :
        (g.finishReceive data).receiver.Covered := by
      refine
        ((note_speech (.received data g.psh.pushSeen g.psh.urgentSeen) True.intro ?_).covered hg).1
      unfold finishReceive
      dsimp only
      split <;> rfl
    apply hf
    split
    · refine (sendAck_speech.covered ?_).1
      refine
        (hd.offers (w := (e.drain n).reopenWindow.receiver) rfl rfl rfl rfl rfl rfl (fun _ => rfl)
        (Or.inl rfl)).1
    · exact hd

theorem enter_takeSyn : (e.enter.takeSyn seg).tcb = (e.takeSyn seg).tcb ∧
    (e.enter.takeSyn seg).rcvWnd = (e.takeSyn seg).rcvWnd := by
  have htcb : (e.enter.takeSyn seg).tcb = (e.takeSyn seg).tcb := by
    unfold takeSyn learnMss
    dsimp only
    cases seg.mss with
    | none =>
      dsimp only
      split <;> simp [setSendWindow, enter]
    | some m =>
      dsimp only
      split <;> split <;> simp [setSendWindow, enter]
  obtain ⟨m, -, -, h⟩ := takeSyn_cases (e := e) seg
  obtain ⟨m', -, -, h'⟩ := takeSyn_cases (e := e.enter) seg
  have hadv : (e.enter.takeSyn seg).adv = (e.takeSyn seg).adv := by
    rw [h, h']
    dsimp only
    split <;> simp [enter]
  have hbuf : (e.enter.takeSyn seg).buf.recvBuf = (e.takeSyn seg).buf.recvBuf := by
    rw [h, h']
    dsimp only
    split <;> simp [enter]
  have hconf : (e.enter.takeSyn seg).conf = (e.takeSyn seg).conf := by
    rw [h, h']
    dsimp only
    split <;> simp [enter]
  refine ⟨htcb, ?_⟩
  unfold rcvWnd
  rw [htcb, hadv, hbuf, hconf]

theorem step_covered (hr : e.Ready) (h : e.receiver.Covered) (hc : e.TextWithin a)
    (hs : engineMachine.step e a = some e') : e'.receiver.Covered := by
  by_cases ha : Hears a
  · rcases ha with ⟨seg', data, s, rfl, hp, -⟩ | ⟨n, rfl⟩
    · rcases step_segment hp hs with ⟨-, rfl⟩ | ⟨haddr, rfl⟩
      · exact h
      · have hrec : e.enter.heard.receiver = e.receiver := by
          simp [receiver]
          rfl
        have hb0 : e.enter.Blocked := hr.drained.blocked.of_view rfl
        have hb : e.enter.heard.Blocked := hb0.of_view heard_sendView
        refine handle_covered (hrec ▸ h) hb (TcpSegment.fits_of_parse hp).seq fun hne => ?_
        obtain ⟨ht, hsyn⟩ := hc s hp haddr hne
        constructor
        · intro htake
          have hwnd : e.enter.heard.rcvWnd = e.rcvWnd := heard_rcvWnd
          unfold TakesText at htake
          rw [hwnd, heard_tcb] at htake
          unfold TextFits
          rw [hrec, heard_tcb]
          exact ht htake
        · intro htake
          unfold TakesSyn at htake
          rw [heard_tcb] at htake
          have hsyn := hsyn htake
          have hheard : e.enter.heard = e.enter := if_neg (by rw [htake.1]; decide)
          unfold SynTextFits at hsyn ⊢
          dsimp only at hsyn ⊢
          rw [hheard, enter_takeSyn.1, enter_takeSyn.2]
          exact hsyn
    · simp only [engineMachine] at hs
      split_ifs at hs
      obtain rfl := Option.some.inj hs
      exact receive_covered (e := e.enter) h
  · exact ((hr.speech ha hs).covered h).1

theorem covered_init (args : EngineArgs) (hsink : args.onData = false)
    (sched : ManualScheduler Callback)
    (rand : Nat) : (init args sched rand).receiver.Covered where
  sink := hsink
  fits := Nat.zero_le _
  within := rfl
  range := by
    show (0 : Int) ≤ 0 ∧ (0 : Int) < 4294967296
    omega
  idle := fun _ => rfl
  reach := fun hq => by
    exfalso
    have hq' : ConnState.closed ∈ QueueStates := hq
    revert hq'
    decide

/-- The receive buffer holds what has been delivered, no text was delivered past the advertised
edge, and none that can still be delivered lies past it. -/
structure NotOverrun (e : TcpEngine) : Prop where
  fits : e.buf.recvBuf.length ≤ e.conf.rcvWndMax
  delivered : (offerOf e.env.log).within = true
  queued : e.tcb.state ∈ QueueStates → ∀ x ∈ e.buf.ooo,
    s32 (sub x.seq e.tcb.rcvNxt) + x.data.length ≤ (offerOf e.env.log).space

instance : Decidable e.NotOverrun :=
  decidable_of_iff (e.buf.recvBuf.length ≤ e.conf.rcvWndMax ∧ (offerOf e.env.log).within = true ∧
      (e.tcb.state ∈ QueueStates → ∀ x ∈ e.buf.ooo,
        s32 (sub x.seq e.tcb.rcvNxt) + x.data.length ≤ (offerOf e.env.log).space))
    ⟨fun h => ⟨h.1, h.2.1, h.2.2⟩, fun h => ⟨h.fits, h.delivered, h.queued⟩⟩

theorem notOverrun_of_covered (h : e.receiver.Covered) : e.NotOverrun where
  fits := h.fits
  delivered := h.within
  queued hq x hx := by
    obtain ⟨k, hk, h0, hle⟩ := (h.reach hq).queued x hx
    have hspace := (h.reach hq).space
    have hs : s32 (sub x.seq e.tcb.rcvNxt) = k := by
      have hk' : x.seq = add e.tcb.rcvNxt k := hk
      rw [hk']
      refine s32_eq_of_congr ?_ (by omega) (by omega)
      simp only [sub_def, add_def]
      omega
    rw [hs]
    exact hle

end TcpEngine

open TcpEngine

/-- In a run of an engine without a sink in which all text that is looked at fits, the receive
buffer is never overrun. -/
theorem never_overrun (args : EngineArgs) (hsink : args.onData = false)
    (sched : ManualScheduler Callback) (rand : Nat) (as : List Action)
    (hC : engineMachine.AllSteps TextWithin (init args sched rand) as) :
    engineMachine.Throughout NotOverrun (init args sched rand) as := by
  have hpres : engineMachine.Preserves TextWithin fun e => e.Ready ∧ e.receiver.Covered :=
    fun e a e' h hc hs => ⟨h.1.step hs, step_covered h.1 h.2 hc hs⟩
  have hinit : (init args sched rand).Ready ∧ (init args sched rand).receiver.Covered :=
    ⟨ready_init args sched rand, covered_init args hsink sched rand⟩
  exact (hpres.throughout hinit hC).mono fun e h => notOverrun_of_covered h.2

/-! ## Runs that can be checked -/

namespace TcpEngine

instance (v : Receiver) : Decidable v.Announced := inferInstanceAs (Decidable (_ ∧ _))

instance (e : TcpEngine) (seg : TcpSegment) : Decidable (e.TakesSyn seg) :=
  inferInstanceAs (Decidable (_ ∧ _ ∧ _ ∧ (_ → _)))

instance (e : TcpEngine) (seg : TcpSegment) : Decidable (e.TakesText seg) :=
  inferInstanceAs (Decidable (_ ∧ _ ∧ _ ∧ _ ∧ ite _ _ _))

instance (e : TcpEngine) (seg : TcpSegment) : Decidable (e.TextFits seg) :=
  inferInstanceAs (Decidable (_ ∨ _))

instance (e : TcpEngine) (seg : TcpSegment) : Decidable (e.SynTextFits seg) :=
  inferInstanceAs (Decidable (ite _ _ _))

instance (e : TcpEngine) (a : Action) : Decidable (e.TextWithin a) :=
  match a with
  | .segment data =>
    match h : TcpSegment.parse data with
    | .error msg => isTrue fun s hs => by rw [h] at hs; cases hs
    | .ok seg =>
      decidable_of_iff (e.Addressed seg → seg.payload ≠ [] →
          (e.TakesText seg → e.TextFits seg ∧
            (e.tcb.state = .synReceived → -1073741824 ≤ s32 (sub seg.seq e.tcb.rcvNxt))) ∧
          (e.TakesSyn seg → e.SynTextFits seg)) (by
        constructor
        · intro hx s hs
          rw [h] at hs
          obtain rfl := Except.ok.inj hs
          exact hx
        · exact fun hx => hx seg h)
  | .tick _ | .random _ | .openCall .. | .activeOpen | .passiveOpen | .send .. | .receive _ | .close
  | .abort | .expire _ => isTrue True.intro

end TcpEngine

/-- A buffer of four bytes. -/
def smallBuffer : EngineArgs :=
  { localPort := 1000, remotePort := 80, rcvWnd := 4, iss := some 100 }

/-- A handshake, two bytes that wait for two, and the two. -/
def withinBuffer : List Action :=
  [.activeOpen,
    .segment [0, 80, 3, 232, 0, 0, 3, 232, 0, 0, 0, 101, 80, 18, 255, 255, 0, 0, 0, 0],
    .segment [0, 80, 3, 232, 0, 0, 3, 235, 0, 0, 0, 101, 80, 16, 255, 255, 0, 0, 0, 0, 3, 4],
    .segment [0, 80, 3, 232, 0, 0, 3, 233, 0, 0, 0, 101, 80, 16, 255, 255, 0, 0, 0, 0, 1, 2]]

open TcpEngine in
theorem within_buffer_kept :
    engineMachine.Throughout NotOverrun (init smallBuffer {} 0) withinBuffer :=
  never_overrun smallBuffer rfl {} 0 withinBuffer (by decide +kernel)

/-- A SYN with six bytes of text crosses ours, and the ACK of our SYN follows. -/
def crossingText : List Action :=
  [.activeOpen,
    .segment
      [0, 80, 3, 232, 0, 0, 3, 232, 0, 0, 0, 0, 80, 2, 255, 255, 0, 0, 0, 0, 1, 2, 3, 4, 5, 6],
    .segment [0, 80, 3, 232, 0, 0, 3, 233, 0, 0, 0, 101, 80, 16, 255, 255, 0, 0, 0, 0]]

open TcpEngine in
/-- All six are delivered into the buffer of four. -/
theorem crossing_text_overruns :
    ∃ e, engineMachine.run (init smallBuffer {} 0) crossingText = some e ∧
    e.conf.onData = false ∧ e.conf.rcvWndMax < e.buf.recvBuf.length ∧
    (offerOf e.env.log).within = false := by
  have h : (engineMachine.run (init smallBuffer {} 0) crossingText).map (fun e =>
      (e.conf.onData, e.conf.rcvWndMax, e.buf.recvBuf.length, (offerOf e.env.log).within)) =
      some (false, 4, 6, false) := by
    decide +kernel
  obtain ⟨e, he, hv⟩ := Option.map_eq_some_iff.mp h
  simp only [Prod.mk.injEq] at hv
  obtain ⟨h1, h2, h3, h4⟩ := hv
  exact ⟨e, he, h1, by omega, h4⟩

end HdlPlayground.Tcp

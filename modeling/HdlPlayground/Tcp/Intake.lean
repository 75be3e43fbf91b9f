import HdlPlayground.Tcp.AnyOrder
import HdlPlayground.Tcp.Overrun
import HdlPlayground.Tcp.PeerFin

/-!
# Following one stream

What an engine takes from a peer whose segments all stand in one stream: the peer's SYN, then
the bytes `w`, then its FIN once there are no more bytes. Whatever of it arrives, in any order
and however often, what has been delivered is a prefix of `w`, what is queued stands in `w`
where its sequence number says, and the FIN is consumed after the last byte.
-/
namespace HdlPlayground.Tcp

open Lib (Buffer Piece)

/-- A segment of the peer whose ISS is `x` and whose bytes are `w`; `done` says that there are
no more to come. -/
structure Genuine (x : Int) (w : List UInt8) (done : Prop) (seg : TcpSegment) : Prop where
  opens : seg.syn = true → seg.seq = seqAt x 0
  text : seg.payload ≠ [] →
    ∃ j, add seg.seq seg.syn.toNat = seqAt x (j + 1) ∧ Lib.Carries w j seg.payload
  ends : seg.fin = true →
    done ∧ add (add seg.seq seg.syn.toNat) seg.payload.length = seqAt x (w.length + 1)

/-- What is read of a segment once its SYN is off, or if it has none. -/
structure Placed (x : Int) (w : List UInt8) (done : Prop) (seg : TcpSegment) : Prop where
  text : seg.payload ≠ [] → ∃ j, seg.seq = seqAt x (j + 1) ∧ Lib.Carries w j seg.payload
  ends : seg.fin = true → done ∧ add seg.seq seg.payload.length = seqAt x (w.length + 1)

section

variable {x : Int} {w : List UInt8} {done : Prop} {seg : TcpSegment}

theorem Genuine.placed (h : Genuine x w done seg) (hsyn : seg.syn = false)
    (hseq : 0 ≤ seg.seq ∧ seg.seq < 4294967296) : Placed x w done seg := by
  have hadd : add seg.seq seg.syn.toNat = seg.seq := by
    rw [hsyn, Bool.toNat_false, add_def]
    omega
  constructor
  · have ht := h.text
    rwa [hadd] at ht
  · have he := h.ends
    rwa [hadd] at he

theorem Genuine.synTaken (h : Genuine x w done seg) (hsyn : seg.syn = true) :
    Placed x w done seg.synTaken := by
  have hadd : add seg.seq seg.syn.toNat = seg.synTaken.seq := by
    rw [hsyn]
    rfl
  constructor
  · have ht := h.text
    rwa [hadd] at ht
  · have he := h.ends
    rwa [hadd] at he

end

/-- The part of an engine that the peer's stream goes through. -/
structure Intake where
  state : ConnState
  rcvNxt : Int
  ooo : List OooEntry
  delivered : List UInt8
  pendingFin : Option Int
  peerFin : Bool

def TcpEngine.intake (e : TcpEngine) : Intake where
  state := e.tcb.state
  rcvNxt := e.tcb.rcvNxt
  ooo := e.buf.ooo
  delivered := e.delivered
  pendingFin := e.fin.pendingFin
  peerFin := e.fin.peerFin

namespace Intake

variable {x : Int} {w w' : List UInt8} {done done' : Prop} {u v : Intake}

abbrev Before : List ConnState := [.closed, .listen, .synSent]

/-- Nothing has come from the peer yet. -/
structure Unopened (v : Intake) : Prop where
  state : v.state ∈ Before
  delivered : v.delivered = []
  ooo : v.ooo = []
  pendingFin : v.pendingFin = none
  peerFin : v.peerFin = false

/-- What has been delivered is the stream so far, and all of it once the FIN is consumed. -/
structure Intact (w : List UInt8) (done : Prop) (v : Intake) : Prop where
  text : v.delivered <+: w
  full : v.peerFin = true → done ∧ v.delivered = w

/-- The engine stands in the stream of the peer. -/
structure Follows (x : Int) (w : List UInt8) (done : Prop) (v : Intake) : Prop where
  state : v.state ∈ TcpEngine.SyncStates
  intact : v.Intact w done
  next : v.rcvNxt = seqAt x (v.delivered.length + 1 + v.peerFin.toNat)
  queued : ∀ o ∈ v.ooo, ∃ j, o.seq = seqAt x (j + 1) ∧ Lib.Carries w j o.data ∧
    j + o.data.length ≤ w.length
  deferred : ∀ n, v.pendingFin = some n → done ∧ n = seqAt x (w.length + 1)
  taken : v.peerFin = true ↔ v.state ∈ TcpEngine.FinTaken
  opening : v.state = .synReceived → v.delivered = []

/-- The connection is over. -/
structure Over (w : List UInt8) (done : Prop) (v : Intake) : Prop where
  state : v.state ∈ [.closed, .listen]
  intact : v.Intact w done

/-- Where an engine can be with respect to the peer's stream. -/
def Stage (x : Int) (w : List UInt8) (done : Prop) (v : Intake) : Prop :=
  v.Unopened ∨ v.Follows x w done ∨ v.Over w done

theorem Unopened.intact (h : v.Unopened) : v.Intact w done := by
  constructor
  · rw [h.delivered]
    exact List.nil_prefix
  · intro hp
    rw [h.peerFin] at hp
    cases hp

theorem Stage.intact (h : v.Stage x w done) : v.Intact w done := by
  rcases h with h | h | h
  · exact h.intact
  · exact h.intact
  · exact h.intact

/-! ## The peer writes on -/

theorem Intact.mono (h : v.Intact w done) (hw : w <+: w') (hd : done → done' ∧ w' = w) :
    v.Intact w' done' := by
  refine ⟨h.text.trans hw, fun hp => ?_⟩
  obtain ⟨hdone, hall⟩ := h.full hp
  obtain ⟨hdone', rfl⟩ := hd hdone
  exact ⟨hdone', hall⟩

theorem Follows.mono (h : v.Follows x w done) (hw : w <+: w') (hd : done → done' ∧ w' = w) :
    v.Follows x w' done' where
  state := h.state
  intact := h.intact.mono hw hd
  next := h.next
  queued o ho := by
    obtain ⟨j, hj, hc, hle⟩ := h.queued o ho
    exact ⟨j, hj, hc.mono hw, hle.trans hw.length_le⟩
  deferred n hn := by
    obtain ⟨hdone, hat⟩ := h.deferred n hn
    obtain ⟨hdone', rfl⟩ := hd hdone
    exact ⟨hdone', hat⟩
  taken := h.taken
  opening := h.opening

theorem Stage.mono (h : v.Stage x w done) (hw : w <+: w') (hd : done → done' ∧ w' = w) :
    v.Stage x w' done' := by
  rcases h with h | h | h
  · exact Or.inl h
  · exact Or.inr (Or.inl (h.mono hw hd))
  · exact Or.inr (Or.inr ⟨h.state, h.intact.mono hw hd⟩)

/-! ## Where nothing arrives -/

/-- The state changes that are not the peer's doing. -/
def arcs : List (ConnState × ConnState) :=
  [(.synReceived, .established), (.synReceived, .finWait1), (.established, .finWait1),
    (.finWait1, .finWait2), (.closing, .timeWait), (.closeWait, .lastAck)]

/-- What may happen to it when no segment arrives. -/
inductive Hush (a : Action) : Intake → Intake → Prop
  | stays (v : Intake) : Hush a v v
  | changes (v : Intake) (st : ConnState) : (v.state, st) ∈ arcs → Hush a v { v with state := st }
  | opens (v : Intake) (st : ConnState) :
      (v.state = .closed ∧ a.Opens) ∨ (v.state = .listen ∧ ¬ a.Closes) → st ∈ Before →
      Hush a v { v with state := st }
  | ends (v : Intake) (st : ConnState) (ooo : List OooEntry) : st ∈ [.closed, .listen] → a.Closes →
      (v.ooo = [] → ooo = []) →
      Hush a v { v with state := st, ooo := ooo, pendingFin := none }

/-- An entry point that can end the connection, and has, begins no other. -/
def Settles (a : Action) (x : Int) (w : List UInt8) (done : Prop) (v : Intake) : Prop :=
  v.Unopened ∨ v.Follows x w done ∨ (a.Closes ∧ v.Over w done)

theorem Settles.stage {a : Action} (h : Settles a x w done v) : v.Stage x w done :=
  h.imp_right fun h => h.imp_right And.right

theorem arcs_states {s st : ConnState} (h : (s, st) ∈ arcs) :
    s ∉ Before ∧ s ≠ .listen ∧ st ∈ TcpEngine.SyncStates ∧
      (s ∈ TcpEngine.FinTaken ↔ st ∈ TcpEngine.FinTaken) ∧ st ≠ .synReceived := by
  simp only [arcs, List.mem_cons, Prod.mk.injEq, List.not_mem_nil, or_false] at h
  rcases h with ⟨rfl, rfl⟩ | ⟨rfl, rfl⟩ | ⟨rfl, rfl⟩ | ⟨rfl, rfl⟩ | ⟨rfl, rfl⟩ | ⟨rfl, rfl⟩ <;>
    decide

theorem Hush.settles {a : Action} (h : Hush a u v) (hu : Settles a x w done u) :
    Settles a x w done v := by
  cases h with
  | stays => exact hu
  | changes st hst =>
    obtain ⟨hbefore, hlisten, hsync, htaken, hopen⟩ := arcs_states hst
    rcases hu with hu | hu | ⟨-, hu⟩
    · exact absurd hu.state hbefore
    · exact Or.inr
        (Or.inl ⟨hsync, ⟨hu.intact.text, hu.intact.full⟩, hu.next, hu.queued, hu.deferred,
        hu.taken.trans htaken, fun hs => absurd hs hopen⟩)
    · exfalso
      rcases List.mem_pair.mp hu.state with hs | hs
      · exact hbefore (by simp [hs])
      · exact hlisten hs
  | opens st hs hst =>
    rcases hu with hu | hu | ⟨hx, hu⟩
    · exact Or.inl ⟨hst, hu.delivered, hu.ooo, hu.pendingFin, hu.peerFin⟩
    · exfalso
      have := hu.state
      rcases hs with ⟨hs, -⟩ | ⟨hs, -⟩ <;> simp [hs] at this
    · exfalso
      rcases hs with ⟨-, ho⟩ | ⟨-, hn⟩
      · exact ho.not_closes hx
      · exact hn hx
  | ends st ooo hst hx ho =>
    rcases hu with hu | hu | ⟨-, hu⟩
    · refine Or.inl ⟨?_, hu.delivered, ho hu.ooo, rfl, hu.peerFin⟩
      show st ∈ Before
      rcases List.mem_pair.mp hst with rfl | rfl <;> decide
    · exact Or.inr (Or.inr ⟨hx, hst, hu.intact.text, hu.intact.full⟩)
    · exact Or.inr (Or.inr ⟨hx, hst, hu.intact.text, hu.intact.full⟩)

/-- Before the connection nothing but the peer begins it. -/
theorem Hush.unopened {a : Action} (h : Hush a u v) (hu : u.Unopened) : v.Unopened := by
  cases h with
  | stays => exact hu
  | changes st hst => exact absurd hu.state (arcs_states hst).1
  | opens st hs hst => exact ⟨hst, hu.delivered, hu.ooo, hu.pendingFin, hu.peerFin⟩
  | ends st ooo hst hx ho =>
    refine ⟨?_, hu.delivered, ho hu.ooo, rfl, hu.peerFin⟩
    show st ∈ Before
    rcases List.mem_pair.mp hst with rfl | rfl <;> decide

end Intake

namespace TcpEngine

variable {a : Action} {e f : TcpEngine} {x : Int} {w : List UInt8} {done : Prop} {seg : TcpSegment}

theorem Still.delivered (h : Still e f) : f.delivered = e.delivered := by
  apply Logs.delivered
  apply h.logs.mono
  intro ev hev
  cases ev with
  | deliver data => exact absurd (Or.inr ⟨data, rfl⟩) hev
  | _ => rfl

/-- What `ctl` leaves of the intake, when nothing arrives. -/
theorem intake_eq (hn : f.tcb.rcvNxt = e.tcb.rcvNxt) (hd : f.delivered = e.delivered)
    (hp : f.fin.pendingFin = e.fin.pendingFin) (hr : f.fin.peerFin = e.fin.peerFin)
    (ho : f.buf.ooo = e.buf.ooo) : f.intake = { e.intake with state := f.tcb.state } := by
  simp [intake, hn, hd, hp, hr, ho]

theorem Move.hush (ha : ∀ seg, ¬ a.Carries seg) (hm : Move a e f) :
    Intake.Hush a e.intake f.intake := by
  have hs := hm.still ha
  have hstays (hst : f.tcb.state = e.tcb.state) (hf : f.fin.pendingFin = e.fin.pendingFin)
      (hp : f.fin.peerFin = e.fin.peerFin) (ho : f.buf.ooo = e.buf.ooo) :
      Intake.Hush a e.intake f.intake := by
    rw [intake_eq hs.rcvNxt hs.delivered hf hp ho, hst]
    exact .stays e.intake
  have hchanges (st : ConnState) (hst : f.tcb.state = st) (ha : (e.tcb.state, st) ∈ Intake.arcs)
      (hf : f.fin.pendingFin = e.fin.pendingFin) (hp : f.fin.peerFin = e.fin.peerFin)
      (ho : f.buf.ooo = e.buf.ooo) : Intake.Hush a e.intake f.intake := by
    rw [intake_eq hs.rcvNxt hs.delivered hf hp ho, hst]
    exact .changes e.intake st ha
  have hends (hx : a.Closes) (hst : f.tcb.state = .closed) (hf : f.fin = e.fin.cleared)
      (ho : f.buf = {}) : Intake.Hush a e.intake f.intake := by
    have hv : f.intake = { e.intake with state := .closed, ooo := [], pendingFin := none } := by
      simp [intake, hs.rcvNxt, hs.delivered, hf, ho, hst, CloseState.cleared]
    rw [hv]
    exact .ends e.intake .closed [] (by decide) hx fun _ => rfl
  have hfin (g : TcpEngine) (st : ConnState) (hg : g.tcb.state = e.tcb.state)
      (hst : (g.tcb.state = .established ∧ st = .finWait1) ∨
        (g.tcb.state = .closeWait ∧ st = .lastAck) ∨ (g.tcb.state = .synReceived ∧ st = .finWait1) ∨
        (g.tcb.state ∉ [.established, .closeWait, .synReceived] ∧ st = g.tcb.state))
      (hfs : f.tcb.state = st) (hf : f.fin.pendingFin = e.fin.pendingFin)
      (hp : f.fin.peerFin = e.fin.peerFin) (ho : f.buf.ooo = e.buf.ooo) :
      Intake.Hush a e.intake f.intake := by
    rw [hg] at hst
    rcases hst with ⟨h1, rfl⟩ | ⟨h1, rfl⟩ | ⟨h1, rfl⟩ | ⟨-, rfl⟩
    · exact hchanges _ hfs (by rw [h1]; decide) hf hp ho
    · exact hchanges _ hfs (by rw [h1]; decide) hf hp ho
    · exact hchanges _ hfs (by rw [h1]; decide) hf hp ho
    · exact hstays hfs hf hp ho
  cases hm with
  | receive _ hr =>
    exfalso
    cases hr with
    | takeInOrder seg off n hc => exact ha seg hc
    | mergeEntry seg x hc => exact ha seg hc
  | processAck seg hc => exact absurd hc (ha seg)
  | acceptSyn seg hc => exact absurd hc (ha seg)
  | synEstablished seg hc => exact absurd hc (ha seg)
  | synReceived seg hc => exact absurd hc (ha seg)
  | storeSynData seg hc => exact absurd hc (ha seg)
  | deferSynFin seg hc => exact absurd hc (ha seg)
  | completeOpen seg hc => exact absurd hc (ha seg)
  | storeOoo seg n hc => exact absurd hc (ha seg)
  | deferFin seg hc => exact absurd hc (ha seg)
  | processFin hs hn =>
    obtain ⟨seg, hc, -⟩ := hn
    exact absurd hc (ha seg)
  | listenAgain hs hp hn =>
    obtain ⟨seg, hc, -⟩ := hn
    exact absurd hc (ha seg)
  | connect ho hx =>
    have hv : e.connect.intake = { e.intake with state := .synSent } := by
      have hn := connect_eq (ho.imp And.left id)
      refine (intake_eq hs.rcvNxt hs.delivered ?_ ?_ ?_).trans ?_
      all_goals rw [hn]
      all_goals simp [dialled]
    rw [hv]
    exact .opens e.intake .synSent (ho.imp_right fun h => ⟨h, hx⟩) (by decide)
  | startListening hc ho =>
    have hv : e.startListening.intake = { e.intake with state := .listen } := by
      refine (intake_eq hs.rcvNxt hs.delivered ?_ ?_ ?_).trans ?_
      all_goals simp [TcpEngine.startListening]
    rw [hv]
    exact .opens e.intake .listen (Or.inl ⟨hc, ho⟩) (by decide)
  | sendFin hc hd hw hu =>
    obtain ⟨st, ht, hst⟩ := sendFin_tcb (e := e)
    exact hfin e st rfl hst (by rw [ht]) (by simp) (by simp) (by simp)
  | probeFin h _ hl hcb hw hd =>
    obtain ⟨st, ht, hst⟩ := sendFin_tcb (e := e.fire h)
    exact hfin (e.fire h) st (by simp) hst (by simp [ht]) (by simp) (by simp) (by simp)
  | finAckedWait h1 h2 =>
    exact hchanges .finWait2 (by simp) (by rw [h1]; decide) (by simp) (by simp) (by simp)
  | finAckedTimeWait h1 h2 =>
    have hn := enterTimeWait_eq (e := e) (by simp [CanSend, h1])
    refine hchanges .timeWait (by rw [hn]; simp) (by rw [h1]; decide) enterTimeWait_frame.pendingFin
      ?_
      enterTimeWait_frame.ooo
    rw [hn]
    simp
  | close hx hb => exact hends hx (by simp) (by simp [enterClosed_fin hb]) (by simp)
  | abort hx hb =>
    exact hends hx (by simp) (by simp [enterClosed_fin (sendRst_blocked hb)]) (by simp)
  | giveUp msg hx hb => exact hends hx (by simp) (by simp [giveUp_fin msg hb]) (by simp)
  | giveUpRto h c msg hx hl hcb hr hb =>
    have hb1 : (if c then (e.fire h).countRto else e.fire h).Blocked := by
      split
      · exact (hb.fire h).of_view rfl
      · exact hb.fire h
    have hf : (if c then (e.fire h).countRto else e.fire h).fin = e.fin := by split <;> simp
    refine hends hx (giveUp_state msg) ?_ (by simp)
    rw [giveUp_fin msg hb1, hf]
  | timeWaitExpires h hx hl hcb hb =>
    exact hends hx (by simp) (by simp [enterClosed_fin (hb.fire h)]) (by simp)
  | sendSynAck => apply hstays <;> simp [TcpEngine.sendSynAck]
  | sendKeepaliveProbe => apply hstays <;> simp [TcpEngine.sendKeepaliveProbe]
  | probe h => apply hstays <;> simp [TcpEngine.sendProbe]
  | sendChunk => exact hstays (by simp) (by simp) (by simp) (sendChunk_frame _).ooo
  | _ =>
    exact hstays (by first | rfl | simp) (by first | rfl | simp) (by first | rfl | simp)
      (by first | rfl | simp)

theorem Path.settles (ha : ∀ seg, ¬ a.Carries seg) (h : Path a e f)
    (he : Intake.Settles a x w done e.intake) : Intake.Settles a x w done f.intake := by
  induction h with
  | refl => exact he
  | tail _ hm ih => exact (hm.hush ha).settles ih

theorem Path.unopened (ha : ∀ seg, ¬ a.Carries seg) (h : Path a e f) (he : e.intake.Unopened) :
    f.intake.Unopened := by
  induction h with
  | refl => exact he
  | tail _ hm ih => exact (hm.hush ha).unopened ih

theorem close_not_carries (seg : TcpSegment) : ¬ Action.close.Carries seg := by
  rintro ⟨data, s, h, -⟩
  cases h

/-! ## Text -/

/-- The bytes `w` by their distance from the one at offset `d`. -/
def reading (w : List UInt8) (d : Nat) (k : Int) : UInt8 := w.getD (k + d).toNat 0

theorem agrees_of_carries {d j : Nat} {data : List UInt8} (hc : Lib.Carries w j data) :
    Piece.Agrees (reading w d) ⟨(j : Int) - d, data⟩ := by
  unfold Piece.Agrees
  apply List.ext_getElem
  · simp [Piece.stop]
  · intro i h1 h2
    have hi : (w.drop j)[i]? = some data[i] := by
      obtain ⟨v, hv⟩ := hc
      rw [← hv, List.getElem?_append_left h1, List.getElem?_eq_getElem h1]
    rw [List.getElem?_drop] at hi
    have hk : ((j : Int) - d + i + d).toNat = j + i := by omega
    simp [Lib.slice, reading, hk, hi]

theorem carries_of_agrees {d j : Nat} {p : Piece UInt8} (h : p.Agrees (reading w d))
    (hj : (j : Int) = p.start + d) (hle : p.stop + d ≤ w.length) : Lib.Carries w j p.data := by
  have hlen : j + p.data.length ≤ w.length := by
    unfold Piece.stop at hle
    omega
  rw [Lib.Carries, List.prefix_iff_eq_take]
  apply List.ext_getElem
  · simp
    omega
  · intro i h1 h2
    have hd : p.data[i]? = (Lib.slice (reading w d) p.start p.stop)[i]? := congrArg (·[i]?) h
    have hi : i < (p.stop - p.start).toNat := by
      unfold Piece.stop
      omega
    have hk : (p.start + i + d).toNat = j + i := by omega
    rw [List.getElem?_eq_getElem h1, List.getElem?_eq_getElem (by simpa using hi)] at hd
    have hd' := Option.some.inj hd
    rw [hd']
    simp [Lib.slice, reading, hk, List.getElem?_eq_getElem (show j + i < w.length by omega)]

/-- What comes out is what the stream has next. -/
theorem slice_reading {d : Nat} {n : Int} (h0 : 0 ≤ n) (hn : d + n ≤ w.length) :
    w.take d ++ Lib.slice (reading w d) 0 n = w.take (d + n.toNat) := by
  have hs : Lib.slice (reading w d) 0 n = (w.drop d).take n.toNat := by
    apply List.ext_getElem
    · simp
      omega
    · intro i h1 h2
      have hi : i < n.toNat := by simpa using h1
      have hk : ((i : Int) + d).toNat = d + i := by omega
      simp [Lib.slice, reading, hk, List.getElem?_eq_getElem (show d + i < w.length by omega)]
  rw [hs, List.take_add]

/-- What is queued, as pieces of the stream placed from RCV.NXT. -/
theorem exists_pieces {d : Nat} : ∀ {ooo : List OooEntry},
    (∀ o ∈ ooo, ∃ j, o.seq = seqAt x (j + 1) ∧ Lib.Carries w j o.data ∧
      j + o.data.length ≤ w.length) →
    ∃ held : List (Piece UInt8), List.Forall₂ (Places (seqAt x (d + 1))) ooo held ∧
      ∀ p ∈ held, p.Agrees (reading w d) ∧ -(d : Int) ≤ p.start ∧ p.stop ≤ w.length - d
  | [], _ => ⟨[], .nil, by simp⟩
  | o :: ooo, h => by
    obtain ⟨j, hs, hc, hle⟩ := h o List.mem_cons_self
    obtain ⟨held, hf, hp⟩ := exists_pieces (d := d) fun y hy => h y (List.mem_cons_of_mem _ hy)
    refine ⟨⟨(j : Int) - d, o.data⟩ :: held, .cons ⟨?_, rfl⟩ hf, fun p hmem => ?_⟩
    · rw [hs, add_def]
      simp only [seqAt]
      omega
    · rcases List.mem_cons.mp hmem with rfl | hmem
      · refine ⟨agrees_of_carries hc, ?_, ?_⟩
        · show -(d : Int) ≤ j - d
          omega
        · show (j : Int) - d + o.data.length ≤ w.length - d
          omega
      · exact hp p hmem

/-- A buffer that starts at RCV.NXT and has taken nothing yet, in the stream. -/
structure Reads (w : List UInt8) (e : TcpEngine) (b : Buffer UInt8) : Prop where
  mirrors : Mirrors e.tcb.rcvNxt e.delivered e.buf.recvBuf e b
  next : b.next = 0
  stands : ∃ S, b.Stands (reading w e.delivered.length) 0 S
  within : b.Within (-e.delivered.length) (w.length - e.delivered.length)

theorem exists_reading (h : e.intake.Follows x w done) (hp : e.fin.peerFin = false) :
    ∃ b : Buffer UInt8, e.Reads w b := by
  have hle : e.delivered.length ≤ w.length := h.intact.text.length_le
  have hn : e.tcb.rcvNxt = seqAt x (e.delivered.length + 1) := by
    have hn : e.tcb.rcvNxt = seqAt x (e.delivered.length + 1 + e.fin.peerFin.toNat) := h.next
    rwa [hp] at hn
  obtain ⟨held, hf, hheld⟩ := exists_pieces (d := e.delivered.length) h.queued
  refine ⟨⟨0, [], held⟩, ⟨?_, ?_, ?_, ?_⟩, rfl, ⟨_, le_rfl, ?_, fun p hp => (hheld p hp).1,
    fun k _ => Iff.rfl⟩, ⟨?_, ?_⟩, fun p hp => (hheld p hp).2⟩
  · rw [hn, add_def]
    simp only [seqAt]
    omega
  · rw [hn]
    exact hf
  · simp
  · simp
  · exact (Lib.slice_self _ _).symm
  · show -(e.delivered.length : Int) ≤ 0
    omega
  · show (0 : Int) ≤ w.length - e.delivered.length
    omega

/-- Text that stays in the stream leaves the engine in it. -/
theorem follows_of_text {b : Buffer UInt8} {S : Set Int} (h : e.intake.Follows x w done)
    (hp : e.fin.peerFin = false) (hs : e.tcb.state ≠ .synReceived) (ht : TextFrame e f)
    (hm : Mirrors e.tcb.rcvNxt e.delivered e.buf.recvBuf f b)
    (hb : b.Stands (reading w e.delivered.length) 0 S)
    (hw : b.Within (-e.delivered.length) (w.length - e.delivered.length)) :
    f.intake.Follows x w done := by
  have hle : e.delivered.length ≤ w.length := h.intact.text.length_le
  have hn : e.tcb.rcvNxt = seqAt x (e.delivered.length + 1) := by
    have hn : e.tcb.rcvNxt = seqAt x (e.delivered.length + 1 + e.fin.peerFin.toNat) := h.next
    rwa [hp] at hn
  have hfront := hb.front
  have hend := hw.front.2
  have hd : f.delivered = w.take (e.delivered.length + b.next.toNat) := by
    have htake : e.delivered = w.take e.delivered.length :=
      List.prefix_iff_eq_take.mp h.intact.text
    rw [hm.out, hb.out]
    apply (congrArg (· ++ _) htake).trans
    exact slice_reading (w := w) (d := e.delivered.length) hfront (by omega)
  have hlen : f.delivered.length = e.delivered.length + b.next.toNat := by
    rw [hd, List.length_take]
    omega
  have hpf : f.fin.peerFin = false := by rw [ht.recv.fin, hp]
  have hst : f.tcb.state = e.tcb.state := ht.recv.state
  constructor
  · show f.tcb.state ∈ SyncStates
    rw [hst]
    exact h.state
  · constructor
    · show f.delivered <+: w
      rw [hd]
      exact List.take_prefix _ _
    · intro hx
      have hx : f.fin.peerFin = true := hx
      rw [hpf] at hx
      cases hx
  · show f.tcb.rcvNxt = seqAt x (f.delivered.length + 1 + f.fin.peerFin.toNat)
    rw [hpf, hm.next, hn, hlen, add_def]
    simp only [seqAt, Bool.toNat_false]
    omega
  · intro o ho
    obtain ⟨p, hpm, hpl⟩ := Lib.exists_of_forall₂ hm.held o ho
    have hin := hw.held p hpm
    have hstop : p.stop = p.start + p.data.length := rfl
    refine ⟨(p.start + e.delivered.length).toNat, ?_, ?_, ?_⟩
    · rw [hpl.1, hn, add_def]
      simp only [seqAt]
      omega
    · rw [hpl.2]
      exact carries_of_agrees (hb.held p hpm) (by omega) (by omega)
    · rw [hpl.2]
      omega
  · intro n hn
    apply h.deferred n
    show e.fin.pendingFin = some n
    rw [← ht.recv.fin]
    exact hn
  · show f.fin.peerFin = true ↔ f.tcb.state ∈ FinTaken
    rw [ht.recv.fin, hst]
    exact h.taken
  · intro hx
    exact absurd (hst.symm.trans hx) hs

theorem follows_stays (h : e.intake.Follows x w done) (hs : f.intake = e.intake) :
    f.intake.Follows x w done := by
  rw [hs]
  exact h

theorem scheduleAck_intake (force : Bool) : (e.scheduleAck force).intake = e.intake := by
  have hd : (e.scheduleAck force).delivered = e.delivered :=
    Logs.delivered (scheduleAck_logs (fun g => tx_bytes g.ackSegment) force)
  simp [intake, hd]

/-- The states in which text is read are not those past the FIN. -/
theorem reads_of_follows (h : e.intake.Follows x w done) (hs : e.tcb.state ∈ DataStates) :
    e.fin.peerFin = false ∧ e.tcb.state ≠ .synReceived := by
  have hout : e.tcb.state ∉ FinTaken ∧ e.tcb.state ≠ .synReceived := by
    revert hs
    cases e.tcb.state <;> decide
  exact ⟨Bool.eq_false_iff.mpr fun hp => hout.1 (h.taken.mp hp), hout.2⟩

theorem recvData_follows (h : e.intake.Follows x w done) (hs : e.tcb.state ∈ DataStates)
    (hw : w.length < 2147483647)
    (hseg : seg.payload ≠ [] → ∃ j, seg.seq = seqAt x (j + 1) ∧ Lib.Carries w j seg.payload) :
    (e.recvData seg).intake.Follows x w done := by
  by_cases hne : seg.payload = []
  · rw [recvData, if_pos hne]
    exact h
  obtain ⟨j, hseq, hc⟩ := hseg hne
  obtain ⟨hp, hsyn⟩ := reads_of_follows h hs
  obtain ⟨b, hm, hnext, ⟨S, hst⟩, hwi⟩ := exists_reading h hp
  have hle : e.delivered.length ≤ w.length := h.intact.text.length_le
  have hlen : 0 < seg.payload.length := List.length_pos_iff.mpr hne
  have hj : j + seg.payload.length ≤ w.length := hc.add_length_le hne
  have hn : e.tcb.rcvNxt = seqAt x (e.delivered.length + 1) := by
    have hn : e.tcb.rcvNxt = seqAt x (e.delivered.length + 1 + e.fin.peerFin.toNat) := h.next
    rwa [hp] at hn
  have hoseq : seg.seq = add e.tcb.rcvNxt ((j : Int) - e.delivered.length) := by
    rw [hseq, hn, add_def]
    simp only [seqAt]
    omega
  generalize hsp : s32 (sub (add e.tcb.rcvNxt e.rcvWnd)
    (add e.tcb.rcvNxt (max ((j : Int) - e.delivered.length) b.next))) = space
  have hstop (n : Nat) : (⟨(j : Int) - e.delivered.length, seg.payload.take n⟩ : Piece UInt8).stop ≤
      w.length - e.delivered.length := by
    simp only [Piece.stop, List.length_take]
    omega
  rcases hm.recvText hwi (by omega) hne hoseq (by omega) hsp rfl (fun _ => hstop _) with
    ⟨heq, -⟩ | ⟨f, force, -, heq, htext, hmir⟩
  · rw [heq]
    exact follows_stays h (scheduleAck_intake true)
  · rw [heq]
    refine follows_stays (e := f) ?_ (scheduleAck_intake force)
    exact follows_of_text h hp hsyn htext hmir (hst.offer (agrees_of_carries (hc.take _)))
      (hwi.offer (hstop _))

theorem mergeReassembly_follows (h : e.intake.Follows x w done) (hs : e.tcb.state ∈ DataStates)
    (hw : w.length < 2147483647) : e.mergeReassembly.intake.Follows x w done := by
  obtain ⟨hp, hsyn⟩ := reads_of_follows h hs
  obtain ⟨b, hm, -, ⟨S, hst⟩, hwi⟩ := exists_reading h hp
  have hle : e.delivered.length ≤ w.length := h.intact.text.length_le
  exact follows_of_text h hp hsyn (mergeLoop_text _) (hm.mergeLoop hwi (by omega) e.buf.ooo.length)
    (hst.settle _) (hwi.settle _)

/-! ## The FIN -/

theorem processFin_follows (h : e.intake.Follows x w done) (hs : e.tcb.state ∈ DataStates)
    (hd : done) (hall : e.delivered = w) : e.processFin.intake.Follows x w done := by
  obtain ⟨hp, -⟩ := reads_of_follows h hs
  have hn : e.tcb.rcvNxt = seqAt x (w.length + 1) := by
    have hn : e.tcb.rcvNxt = seqAt x (e.delivered.length + 1 + e.fin.peerFin.toNat) := h.next
    rwa [hp, hall] at hn
  have hdel : e.processFin.delivered = w := by
    rw [← hall]
    exact Logs.delivered (processFin_logs rfl (tx_bytes _) fun _ => change_bytes _ _)
  have htaken : e.processFin.tcb.state ∈ FinTaken := by
    apply processFin_taken
    revert hs
    cases e.tcb.state <;> decide
  have hooo : e.processFin.buf.ooo = e.buf.ooo := by
    obtain ⟨st, -, hf⟩ | ⟨-, hf⟩ := processFin_cases (e := e) <;> simp [hf]
  have hpeer : e.processFin.fin.peerFin = true := by
    obtain ⟨st, -, hf⟩ | ⟨-, hf⟩ := processFin_cases (e := e) <;> simp [hf]
  constructor
  · show e.processFin.tcb.state ∈ SyncStates
    revert htaken
    cases e.processFin.tcb.state <;> decide
  · exact ⟨by rw [intake, hdel], fun _ => ⟨hd, hdel⟩⟩
  · show e.processFin.tcb.rcvNxt =
        seqAt x (e.processFin.delivered.length + 1 + e.processFin.fin.peerFin.toNat)
    rw [processFin_rcvNxt, hn, hdel, hpeer, add_def]
    simp only [seqAt, Bool.toNat_true]
    omega
  · show ∀ o ∈ e.processFin.buf.ooo, _
    rw [hooo]
    exact h.queued
  · intro n hn
    have hn : e.processFin.fin.pendingFin = some n := hn
    rw [processFin_pendingFin] at hn
    cases hn
  · exact ⟨fun _ => htaken, fun _ => hpeer⟩
  · intro hx
    have hx : e.processFin.tcb.state = .synReceived := hx
    rw [hx] at htaken
    exact absurd htaken (by decide)

/-- RCV.NXT reaches the FIN of the peer when all its bytes have been delivered and the FIN has
not been taken. -/
theorem at_fin (h : e.intake.Follows x w done) (hw : w.length < 2147483647)
    (hn : e.tcb.rcvNxt = seqAt x (w.length + 1)) : e.fin.peerFin = false ∧ e.delivered = w := by
  have hle : e.delivered.length ≤ w.length := h.intact.text.length_le
  have hnext : e.tcb.rcvNxt = seqAt x (e.delivered.length + 1 + e.fin.peerFin.toNat) := h.next
  have heq : e.delivered.length + e.fin.peerFin.toNat = w.length := by
    rw [hn] at hnext
    simp only [seqAt] at hnext
    have := e.fin.peerFin.toNat_le
    omega
  cases hp : e.fin.peerFin with
  | false =>
    rw [hp, Bool.toNat_false, Nat.add_zero] at heq
    exact ⟨rfl, h.intact.text.eq_of_length heq⟩
  | true =>
    have hfull : e.delivered = w := (h.intact.full hp).2
    rw [hp, hfull, Bool.toNat_true] at heq
    omega

theorem data_of_open (h : e.intake.Follows x w done) (hs : e.tcb.state ∈ OpenStates)
    (hp : e.fin.peerFin = false) : e.tcb.state ∈ DataStates := by
  have hnot : e.tcb.state ∉ FinTaken := fun hx => by
    have : e.fin.peerFin = true := h.taken.mpr hx
    rw [hp] at this
    cases this
  revert hs hnot
  cases e.tcb.state <;> decide

theorem checkPendingFin_follows (h : e.intake.Follows x w done) (hs : e.tcb.state ∈ OpenStates)
    (hw : w.length < 2147483647) : e.checkPendingFin.intake.Follows x w done := by
  unfold checkPendingFin
  split
  · next hp =>
    obtain ⟨hd, hn⟩ := h.deferred _ hp
    obtain ⟨hpf, hall⟩ := at_fin h hw hn
    exact processFin_follows h (data_of_open h hs hpf) hd hall
  · exact h

theorem deferFin_follows {n : Int} (h : e.intake.Follows x w done) (hd : done)
    (hn : n = seqAt x (w.length + 1)) : (e.deferFin n).intake.Follows x w done where
  state := h.state
  intact := ⟨h.intact.text, h.intact.full⟩
  next := h.next
  queued := h.queued
  deferred _ hm := ⟨hd, (Option.some.inj hm).symm.trans hn⟩
  taken := h.taken
  opening := h.opening

theorem finCheck_follows (h : e.intake.Follows x w done) (hs : e.tcb.state ∈ OpenStates)
    (hw : w.length < 2147483647)
    (hseg : seg.fin = true → done ∧ add seg.seq seg.payload.length = seqAt x (w.length + 1)) :
    (e.finCheck seg).checkPendingFin.intake.Follows x w done := by
  unfold finCheck
  dsimp only
  split_ifs with hf hn hgt
  · obtain ⟨hd, hat⟩ := hseg hf
    obtain ⟨hpf, hall⟩ := at_fin h hw (hn.trans hat)
    rw [checkPendingFin, if_neg (by simp [processFin_pendingFin])]
    exact processFin_follows h (data_of_open h hs hpf) hd hall
  · obtain ⟨hd, hat⟩ := hseg hf
    exact checkPendingFin_follows (deferFin_follows h hd hat) hs hw
  · exact checkPendingFin_follows h hs hw
  · exact checkPendingFin_follows h hs hw

/-! ## The handlers -/

/-- What is not the peer's doing leaves the engine in the stream, as long as the connection
lasts. -/
theorem Path.keepsFollowing (hp : Path .close e f) (h : e.intake.Follows x w done)
    (hs : f.tcb.state ∈ SyncStates) : f.intake.Follows x w done := by
  have hout : f.tcb.state ∉ Intake.Before ∧ f.tcb.state ∉ [.closed, .listen] := by
    revert hs
    cases f.tcb.state <;> decide
  rcases hp.settles close_not_carries (Or.inr (Or.inl h)) with hf | hf | ⟨-, hf⟩
  · exact absurd hf.state hout.1
  · exact hf
  · exact absurd hf.state hout.2

theorem sync_of_open (hs : e.tcb.state ∈ OpenStates) : e.tcb.state ∈ SyncStates :=
  List.mem_cons_of_mem _ (List.mem_cons_of_mem _ hs)

theorem sendPending_follows (h : e.intake.Follows x w done) (hs : e.tcb.state ∈ OpenStates) :
    e.sendPending.intake.Follows x w done :=
  (sendPending_path e).keepsFollowing h (sync_of_open (sendPending_open hs))

theorem textAndFin_follows (h : e.intake.Follows x w done) (hs : e.tcb.state ∈ OpenStates)
    (hw : w.length < 2147483647) (hseg : Placed x w done seg) :
    (e.textAndFin seg).intake.Follows x w done := by
  unfold textAndFin
  dsimp only
  have htext : (if seg.payload ≠ [] ∧ e.tcb.state ∈ [.established, .finWait1, .finWait2] then
      e.recvData seg else e).intake.Follows x w done := by
    split
    · next hc => exact recvData_follows h hc.2 hw hseg.text
    · exact h
  have hst : (if seg.payload ≠ [] ∧ e.tcb.state ∈ [.established, .finWait1, .finWait2] then
      e.recvData seg else e).tcb.state ∈ OpenStates := by
    split
    · rwa [(recvData_frame e seg).state]
    · exact hs
  exact finCheck_follows (sendPending_follows htext hst) (sendPending_open hst) hw hseg.ends

/-- Where only the send side has moved. -/
theorem SendFrame.intake (hf : SendFrame e f) (hs : f.tcb.state = e.tcb.state)
    (hd : f.delivered = e.delivered) (hp : f.fin.peerFin = e.fin.peerFin) :
    f.intake = e.intake := by
  rw [intake_eq hf.rcvNxt hd hf.pendingFin hp hf.ooo, hs]
  rfl

theorem sendAck_intake : e.sendAck.intake = e.intake := by
  refine SendFrame.intake ⟨by simp, by simp, by simp, by simp, by simp, by simp⟩ (by simp) ?_
    (by simp)
  exact Logs.delivered (.one (.tx e.ackSegment) (by simp) rfl)

theorem emitRstReply_intake (s : TcpSegment) (seq ack : Int) (b : Bool) :
    (e.emitRstReply s seq ack b).intake = e.intake := by
  have hd : (e.emitRstReply s seq ack b).delivered = e.delivered := by
    apply Logs.delivered
    exact .one _ (by rw [emitRstReply_eq]; rfl) (tx_bytes _)
  rw [intake, hd]
  simp [intake]

theorem processAck_intake (ack : Int) : (e.processAck ack).intake = e.intake := by
  simp [intake, delivered]

/-- A change of state on the way through the connection. -/
theorem setState_follows {st : ConnState} (h : e.intake.Follows x w done)
    (ha : (e.tcb.state, st) ∈ Intake.arcs) : (e.setState st).intake.Follows x w done := by
  have hv : (e.setState st).intake = { e.intake with state := st } := by
    have hd : (e.setState st).delivered = e.delivered :=
      Logs.delivered (setState_logs st fun _ => change_bytes _ _)
    simp [intake, hd]
  obtain ⟨-, -, hsync, htaken, hopen⟩ := Intake.arcs_states ha
  rw [hv]
  exact ⟨hsync, ⟨h.intact.text, h.intact.full⟩, h.next, h.queued, h.deferred, h.taken.trans htaken,
    fun hs => absurd hs hopen⟩

theorem windowUpdate_follows (seg : TcpSegment) (h : e.intake.Follows x w done)
    (hs : e.tcb.state ∈ OpenStates) :
    (e.windowUpdate seg).intake.Follows x w done := by
  have hset : (e.setSendWindow seg.window seg.seq seg.ack).intake.Follows x w done := h
  have hopen := windowUpdate_open seg hs
  unfold windowUpdate at hopen ⊢
  dsimp only at hopen ⊢
  split_ifs at hopen ⊢
  · exact (cancelPersist_path _).keepsFollowing hset (sync_of_open hopen)
  · exact hset
  · exact h

theorem enterClosed_stage (hb : e.Blocked) (h : e.intake.Follows x w done) :
    e.enterClosed.intake.Stage x w done := by
  have hne : e.tcb.state ≠ .closed := fun hx => by
    have hs : e.tcb.state ∈ SyncStates := h.state
    rw [hx] at hs
    exact absurd hs (by decide)
  have hx : Action.close.Closes := True.intro
  have hp : Path .close e e.enterClosed := Path.of_move (.close e hx hb hne)
  exact (hp.settles close_not_carries (Or.inr (Or.inl h))).stage

theorem establishedAck_stage (h : e.intake.Follows x w done) (hs : e.tcb.state ∈ OpenStates)
    (hw : w.length < 2147483647) (hseg : Placed x w done seg) :
    (e.establishedAck seg).intake.Stage x w done := by
  unfold establishedAck
  split
  · exact Or.inr (Or.inl (follows_stays h sendAck_intake))
  dsimp only
  have hp : (if seqGt seg.ack e.tcb.sndUna then e.processAck seg.ack else e).intake = e.intake := by
    split
    · exact processAck_intake seg.ack
    · rfl
  generalize (if seqGt seg.ack e.tcb.sndUna then e.processAck seg.ack else e) = f at hp
  have hfs : f.tcb.state ∈ OpenStates := by
    have : f.tcb.state = e.tcb.state := congrArg Intake.state hp
    rwa [this]
  have hg := windowUpdate_follows seg (follows_stays h hp) hfs
  have hgs := windowUpdate_open seg hfs
  generalize f.windowUpdate seg = g at hg hgs
  split_ifs with h1 h2 h3
  · refine Or.inr (Or.inl (textAndFin_follows (setState_follows hg ?_) (by simp) hw hseg))
    rw [h1.1]
    decide
  · exact ((Path.of_move (a := .close) (.finAckedTimeWait g h2.1 h2.2)).settles close_not_carries
      (Or.inr (Or.inl hg))).stage
  · exact enterClosed_stage (blocked_of_not_canSend (by simp [CanSend, h3.1])) hg
  · exact Or.inr (Or.inl (textAndFin_follows hg hgs hw hseg))

theorem synReceivedAck_stage (h : e.intake.Follows x w done) (hs : e.tcb.state = .synReceived)
    (hw : w.length < 2147483647) (hseg : Placed x w done seg) :
    (e.synReceivedAck seg).intake.Stage x w done := by
  unfold synReceivedAck
  split
  · dsimp only
    have hr : ((e.processAck seg.ack).setSendWindow seg.window seg.seq seg.ack).intake = e.intake :=
      processAck_intake seg.ack
    generalize (e.processAck seg.ack).setSendWindow seg.window seg.seq seg.ack = f at hr
    have hfs : f.tcb.state = .synReceived := (congrArg Intake.state hr).trans hs
    have hg : (f.setState .established).intake.Follows x w done :=
      setState_follows (follows_stays h hr) (by rw [hfs]; decide)
    have hgs : (f.setState .established).tcb.state = .established := by simp
    generalize f.setState .established = g at hg hgs
    have hm := mergeReassembly_follows hg (by rw [hgs]; decide) hw
    have hms : g.mergeReassembly.tcb.state ∈ OpenStates := by
      rw [(mergeReassembly_frame g).state, hgs]
      decide
    exact Or.inr
      (Or.inl (textAndFin_follows (sendPending_follows hm hms) (sendPending_open hms) hw hseg))
  · exact Or.inr (Or.inl (follows_stays h (emitRstReply_intake _ _ _ _)))

theorem doReset_stage (hb : e.Blocked) (h : e.intake.Follows x w done) :
    e.doReset.intake.Stage x w done := by
  by_cases hl : e.tcb.state = .synReceived ∧ e.fin.passive = true
  · -- nothing has been delivered yet
    have hd : e.doReset.delivered = [] := by
      have hlog : Logs (fun ev => ev.bytes = []) e e.doReset := by
        rw [doReset_listen hl.1 hl.2]
        exact (setState_logs .listen fun _ => change_bytes _ _).trans (.none rfl)
      exact (Logs.delivered hlog).trans (h.opening hl.1)
    have hp : e.doReset.fin.peerFin = e.fin.peerFin := by
      rw [doReset_listen hl.1 hl.2]
      simp [restorePort, resetBuffers]
    have hnot : e.fin.peerFin ≠ true := fun hx => by
      have hs : e.tcb.state ∈ FinTaken := h.taken.mp hx
      rw [hl.1] at hs
      exact absurd hs (by decide)
    refine Or.inr (Or.inr ⟨?_, ?_, fun hx => absurd (hp.symm.trans hx) hnot⟩)
    · show e.doReset.tcb.state ∈ _
      rw [doReset_listen hl.1 hl.2]
      simp [restorePort]
    · show e.doReset.delivered <+: w
      rw [hd]
      exact List.nil_prefix
  · obtain ⟨msg, hmsg, hd⟩ := doReset_close hl
    rw [hd]
    refine enterClosed_stage (hb.of_view rfl)
      (Path.keepsFollowing (.of_move (.signalError e msg hmsg)) h ?_)
    exact h.state

theorem timeWaitArrives_stage (h : e.intake.Follows x w done) (hs : e.tcb.state = .timeWait) :
    (e.timeWaitArrives seg).intake.Stage x w done := by
  have hack : e.sendAck.intake.Follows x w done := follows_stays h sendAck_intake
  unfold timeWaitArrives
  split_ifs
  · exact enterClosed_stage (blocked_of_not_canSend (by simp [CanSend, hs])) h
  · exact Or.inr (Or.inl hack)
  · exact Or.inr (Or.inl (follows_stays hack rfl))
  · exact Or.inr (Or.inl hack)

theorem handleSynchronized_stage (h : e.intake.Follows x w done) (hb : seg.rst = true → e.Blocked)
    (hw : w.length < 2147483647) (hseg : seg.syn = false → Placed x w done seg) :
    (e.handleSynchronized seg).intake.Stage x w done := by
  have hstay : e.intake.Stage x w done := Or.inr (Or.inl h)
  have hack : e.sendAck.intake.Stage x w done := Or.inr (Or.inl (follows_stays h sendAck_intake))
  have hs : e.tcb.state ∈ SyncStates := h.state
  unfold handleSynchronized
  split_ifs with htw hacc hr hr hq hsyn hackf hsr
  · exact timeWaitArrives_stage h htw
  · exact hstay
  · exact hack
  · exact doReset_stage (hb hr) h
  · exact hack
  · exact hack
  · exact hstay
  · exact synReceivedAck_stage h hsr hw (hseg (by simpa using hsyn))
  · refine establishedAck_stage h ?_ hw (hseg (by simpa using hsyn))
    revert hs htw hsr
    cases e.tcb.state <;> decide

/-! ## The SYN -/

/-- The SYN of the peer puts the engine at the start of the stream. -/
theorem follows_opened (h : e.intake.Unopened) (hd : f.delivered = e.delivered)
    (ho : f.buf.ooo = e.buf.ooo) (hf : f.fin.pendingFin = e.fin.pendingFin)
    (hp : f.fin.peerFin = e.fin.peerFin) (hs : f.tcb.state ∈ [.synReceived, .established])
    (hn : f.tcb.rcvNxt = seqAt x 1) : f.intake.Follows x w done := by
  have hd0 : f.delivered = [] := hd.trans h.delivered
  have ho0 : f.buf.ooo = [] := ho.trans h.ooo
  have hf0 : f.fin.pendingFin = none := hf.trans h.pendingFin
  have hp0 : f.fin.peerFin = false := hp.trans h.peerFin
  constructor
  · show f.tcb.state ∈ SyncStates
    revert hs
    cases f.tcb.state <;> decide
  · constructor
    · show f.delivered <+: w
      rw [hd0]
      exact List.nil_prefix
    · intro hx
      exact absurd (hp0.symm.trans hx) (by decide)
  · show f.tcb.rcvNxt = seqAt x (f.delivered.length + 1 + f.fin.peerFin.toNat)
    rw [hn, hd0, hp0]
    rfl
  · intro o ho
    have ho : o ∈ f.buf.ooo := ho
    rw [ho0] at ho
    cases ho
  · intro n hn
    exact absurd (hf0.symm.trans hn) (by simp)
  · show f.fin.peerFin = true ↔ f.tcb.state ∈ FinTaken
    rw [hp0]
    revert hs
    cases f.tcb.state <;> decide
  · exact fun _ => hd0

/-- RCV.NXT behind a SYN. -/
theorem after_syn (h : Genuine x w done seg) (hsyn : seg.syn = true) :
    add seg.seq 1 = seqAt x 1 := by
  rw [h.opens hsyn, add_def]
  simp only [seqAt]
  omega

theorem handleListen_stage (h : e.intake.Unopened) (hs : e.tcb.state = .listen)
    (hseg : Genuine x w done seg) :
    (e.handleListen seg).intake.Unopened ∨ (e.handleListen seg).intake.Follows x w done := by
  unfold handleListen
  split_ifs with hr ha hsyn hp
  · exact Or.inl h
  · left
    rw [emitRstReply_intake]
    exact h
  · exact Or.inl h
  · exact Or.inl h
  · obtain ⟨m, -, -, ha⟩ := acceptSyn_eq (e := e) seg hs
    rw [ha]
    have hn : (e.listenTaken seg m).tcb.rcvNxt = seqAt x 1 := after_syn hseg (by simpa using hsyn)
    have ho : (e.listenTaken seg m).intake.Follows x w done :=
      follows_opened h (by simp [listenTaken, delivered, Event.bytes]) rfl rfl rfl
        (by simp [listenTaken, listenTcb]) hn
    refine Or.inr (follows_stays ho ?_)
    refine SendFrame.intake ⟨by simp, by simp, by simp, by simp, by simp, by simp⟩ (by simp) ?_
      (by simp)
    exact Logs.delivered (queueAndSend_logs _ _ _ _ (tx_bytes _))

theorem handleClosed_unopened (h : e.intake.Unopened) : (e.handleClosed seg).intake.Unopened := by
  unfold handleClosed
  split_ifs
  · exact h
  · rw [emitRstReply_intake]
    exact h
  · rw [emitRstReply_intake]
    exact h

/-- The SYN that answers or crosses ours. -/
theorem takeSyn_follows (h : e.intake.Unopened) (hseg : Genuine x w done seg)
    (hsyn : seg.syn = true) (st : ConnState) (hst : st ∈ [.synReceived, .established]) :
    ((e.takeSyn seg).setState st).intake.Follows x w done := by
  obtain ⟨b, hfin⟩ := takeSyn_fin (e := e) seg
  refine follows_opened h ?_ ?_ ?_ ?_ (by simpa using hst) ?_
  · refine (Logs.delivered (setState_logs st fun _ => change_bytes _ _)).trans ?_
    simp [delivered, takeSyn_env]
  · obtain ⟨m, -, -, ht⟩ := takeSyn_cases (e := e) seg
    rw [setState_buf, ht]
    dsimp only
    split <;> simp [setSendWindow]
  · simp [hfin]
  · simp [hfin]
  · rw [setState_tcb]
    exact (takeSyn_tcb seg).2.trans (after_syn hseg hsyn)

theorem synSentEstablished_stage (h : e.intake.Unopened) (hseg : Genuine x w done seg)
    (hsyn : seg.syn = true) (hr : seg.rst = false) (hw : w.length < 2147483647) :
    ((e.takeSyn seg).synSentEstablished seg).intake.Stage x w done := by
  have hf := takeSyn_follows h hseg hsyn .established (by decide)
  have hfs : ((e.takeSyn seg).setState .established).tcb.state = .established := by simp
  unfold synSentEstablished
  dsimp only
  generalize (e.takeSyn seg).setState .established = f at hf hfs
  have hg := sendPending_follows (e := f.sendAck) (follows_stays hf sendAck_intake)
    (by rw [sendAck_tcb, hfs]; decide)
  split
  · refine handleSynchronized_stage hg (fun hx => ?_) hw fun _ => hseg.synTaken hsyn
    have hx : seg.rst = true := hx
    rw [hr] at hx
    cases hx
  · exact Or.inr (Or.inl hg)

/-- The text of a crossing SYN is the first of the stream. -/
theorem storeOoo_follows {flags : Flags} {data : List UInt8} {n : Int}
    (h : e.intake.Follows x w done) (hn : ∃ j, n = seqAt x (j + 1) ∧ Lib.Carries w j data)
    (hne : data ≠ []) : (e.storeOoo n data flags).intake.Follows x w done := by
  unfold storeOoo
  split
  · exact h
  · refine ⟨h.state, ⟨h.intact.text, h.intact.full⟩, h.next, fun o ho => ?_, h.deferred, h.taken,
      h.opening⟩
    rcases List.mem_append.mp ho with ho | ho
    · exact h.queued o ho
    · obtain rfl := List.mem_singleton.mp ho
      obtain ⟨j, hj, hc⟩ := hn
      exact ⟨j, hj, hc, hc.add_length_le hne⟩

theorem simultaneousOpen_stage (h : e.intake.Unopened) (hseg : Genuine x w done seg)
    (hsyn : seg.syn = true) :
    ((e.takeSyn seg).simultaneousOpen seg).intake.Stage x w done := by
  have hf := takeSyn_follows h hseg hsyn .synReceived (by decide)
  have hplaced := hseg.synTaken hsyn
  have hk : (e.takeSyn seg).becomeSynReceived.intake.Follows x w done := hf
  unfold simultaneousOpen
  dsimp only
  generalize (e.takeSyn seg).becomeSynReceived = k at hk
  have hg : (if seg.payload ≠ [] then
      k.storeOoo (add seg.seq 1) seg.payload { seg.flags with fin := false }
      else k).intake.Follows x w done := by
    split
    · next hne => exact storeOoo_follows hk (hplaced.text hne) hne
    · exact hk
  generalize (if seg.payload ≠ [] then
    k.storeOoo (add seg.seq 1) seg.payload { seg.flags with fin := false } else k) = g at hg
  have hd : (if seg.fin then g.deferFin (add (add seg.seq 1) seg.payload.length)
      else g).intake.Follows x w done := by
    split
    · next hfin =>
      obtain ⟨hdone, hat⟩ := hplaced.ends hfin
      exact deferFin_follows hg hdone hat
    · exact hg
  refine Or.inr (Or.inl (follows_stays hd ?_))
  refine SendFrame.intake ⟨by simp [sendSynAck], by simp [sendSynAck], by simp [sendSynAck],
    by simp [sendSynAck], by simp [sendSynAck], by simp [sendSynAck]⟩ (by simp [sendSynAck]) ?_
    (by simp [sendSynAck])
  exact Logs.delivered (makeAndTransmit_logs _ _ _ _ _ (tx_bytes _))

theorem handleSynSent_stage (h : e.intake.Unopened) (hs : e.tcb.state = .synSent)
    (hw : w.length < 2147483647) (hseg : Genuine x w done seg) :
    (e.handleSynSent seg).intake.Stage x w done := by
  unfold handleSynSent
  split
  · split
    · exact Or.inl h
    · left
      rw [emitRstReply_intake]
      exact h
  dsimp only
  split
  · split
    · have hx : Action.close.Closes := True.intro
      have hb : (e.signalError "connection refused").Blocked :=
        (blocked_of_not_canSend (by simp [CanSend, hs])).of_view rfl
      have hp : Path .close e (e.signalError "connection refused").enterClosed :=
        .head (.signalError e "connection refused" (by decide))
          (Path.of_move (.close _ hx hb (by simp [hs])))
      exact (hp.settles close_not_carries (Or.inl h)).stage
    · exact Or.inl h
  next hr =>
  split
  · exact Or.inl h
  next hsyn =>
  have hsyn : seg.syn = true := by simpa using hsyn
  split
  · exact synSentEstablished_stage h hseg hsyn (by simpa using hr) hw
  · exact simultaneousOpen_stage h hseg hsyn

/-- A segment of the peer leaves an engine that follows its stream, or has not yet begun to, in
the stream. -/
theorem handle_stage (h : e.intake.Unopened ∨ e.intake.Follows x w done) (hb : e.Blocked)
    (hw : w.length < 2147483647) (hseq : 0 ≤ seg.seq ∧ seg.seq < 4294967296)
    (hseg : Genuine x w done seg) : (e.handle seg).intake.Stage x w done := by
  have hbefore (hu : e.intake.Unopened) : e.tcb.state ∉ SyncStates := by
    have hs : e.tcb.state ∈ Intake.Before := hu.state
    revert hs
    cases e.tcb.state <;> decide
  have hunopened (hs : e.tcb.state ∉ SyncStates) : e.intake.Unopened :=
    h.resolve_right fun hf => hs hf.state
  rcases e.state_cases with hs | hs | hs | hs
  · rw [handle_closed seg hs]
    exact Or.inl (handleClosed_unopened (hunopened (by rw [hs]; decide)))
  · rw [handle_listen seg hs]
    exact (handleListen_stage (hunopened (by rw [hs]; decide)) hs hseg).imp_right Or.inl
  · rw [handle_synSent seg hs]
    exact handleSynSent_stage (hunopened (by rw [hs]; decide)) hs hw hseg
  · rw [handle_synchronized seg hs]
    exact handleSynchronized_stage (h.resolve_left fun hu => hbefore hu hs) (fun _ => hb) hw
      fun hsyn => hseg.placed hsyn hseq

/-- What arrives is the peer's, or no segment at all. -/
def FromPeer (x : Int) (w : List UInt8) (done : Prop) : Action → Prop
  | .segment data => ∀ seg, TcpSegment.parse data = .ok seg → Genuine x w done seg
  | _ => True

theorem begin_intake (a : Action) : (e.begin a).intake = e.intake := by
  obtain ⟨conf, psh, h, -⟩ := e.begin_eq a
  rw [h]
  rfl

theorem heard_intake : e.enter.heard.intake = e.intake := by
  simp [intake, delivered]
  rfl

/-- Outside a connection the peer can only begin one. -/
theorem step_begins (hr : e.Ready) (h : e.intake.Unopened) (ho : e.Outside)
    (hg : FromPeer x w done a) (hs : engineMachine.step e a = some f) :
    f.intake.Unopened ∨ f.intake.Follows x w done := by
  by_cases ha : ∃ seg, a.Carries seg
  · obtain ⟨-, data, s, rfl, hp, -⟩ := ha
    rcases step_segment hp hs with ⟨-, rfl⟩ | ⟨haddr, rfl⟩
    · exact Or.inl h
    · have hu : e.enter.heard.intake.Unopened := by
        rw [heard_intake]
        exact h
      have hst : e.enter.heard.tcb.state = e.tcb.state := by rw [heard_tcb]; rfl
      rcases List.mem_pair.mp ho with ho | ho
      · rw [handle_closed s (hst.trans ho)]
        exact Or.inl (handleClosed_unopened hu)
      · rw [handle_listen s (hst.trans ho)]
        exact handleListen_stage hu (hst.trans ho) (hg s hp)
  · refine Or.inl ((hr.path hs).unopened (fun seg hc => ha ⟨seg, hc⟩) ?_)
    rw [begin_intake]
    exact h

theorem step_stage (hr : e.Ready) (h : e.intake.Unopened ∨ e.intake.Follows x w done)
    (hw : w.length < 2147483647) (hg : FromPeer x w done a) (hs : engineMachine.step e a = some f) :
    f.intake.Stage x w done := by
  by_cases ha : ∃ seg, a.Carries seg
  · obtain ⟨-, data, s, rfl, hp, -⟩ := ha
    rcases step_segment hp hs with ⟨-, rfl⟩ | ⟨haddr, rfl⟩
    · exact h.elim Or.inl fun h => Or.inr (Or.inl h)
    · have hb0 : e.enter.Blocked := hr.drained.blocked.of_view rfl
      have hb : e.enter.heard.Blocked := hb0.of_view heard_sendView
      refine handle_stage ?_ hb hw (TcpSegment.fits_of_parse hp).seq (hg s hp)
      rw [heard_intake]
      exact h
  · have ha : ∀ seg, ¬ a.Carries seg := fun seg hc => ha ⟨seg, hc⟩
    have hset : Intake.Settles a x w done (e.begin a).intake := by
      rw [begin_intake]
      exact h.elim Or.inl fun h => Or.inr (Or.inl h)
    exact ((hr.path hs).settles ha hset).stage

end TcpEngine

end HdlPlayground.Tcp

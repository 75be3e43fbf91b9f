import HdlPlayground.Tcp.Drains
import HdlPlayground.Tcp.Traces

/-!
# The receiver

What the engine keeps for the bytes that arrive, as a machine of its own: the numbers,
the buffers, what has been advertised and the log, without timers and without the send
side. A `Turn` is one thing that can happen to it; every move of the engine is a sequence
of turns, so what each turn preserves holds after every run.
-/
namespace HdlPlayground.Tcp

structure Receiver where
  sws : Bool
  wndMax : Nat
  onData : Bool
  state : ConnState
  rcvNxt : Int
  mss : Nat
  recvBuf : List UInt8
  ooo : List OooEntry
  adv : Advertised
  log : List Event

namespace Receiver

/-- `_rcv_wnd`. -/
def rcvWnd (v : Receiver) : Nat :=
  let raw := v.wndMax - v.recvBuf.length
  match v.sws, v.adv.advRight with
  | true, some advRight =>
    let curRight := add v.rcvNxt raw
    if seqGt curRight advRight then
      let thresh := min v.mss (max 1 (v.wndMax / 2))
      if sub curRight advRight < thresh then (s32 (sub advRight v.rcvNxt)).toNat else raw
    else raw
  | _, _ => raw

/-- What is advertised once a segment has been built. -/
def advertised (v : Receiver) : Advertised :=
  let right := add v.rcvNxt v.rcvWnd
  { zeroWinAdvertised := v.rcvWnd = 0 || v.adv.zeroWinAdvertised
    advRight :=
      match v.adv.advRight with
      | none => some right
      | some r => if seqGt right r then some right else some r }

def note (v : Receiver) (evs : List Event) : Receiver := { v with log := v.log ++ evs }

def deliver (v : Receiver) (data : List UInt8) : Receiver :=
  { v with
    rcvNxt := add v.rcvNxt data.length
    recvBuf := if v.onData then v.recvBuf else v.recvBuf ++ data
    log := v.log ++ [.deliver data] }

def mergeable (v : Receiver) (x : OooEntry) : Bool :=
  seqLeq (add x.seq x.data.length) v.rcvNxt ||
    (seqLeq x.seq v.rcvNxt && seqGt (add x.seq x.data.length) v.rcvNxt)

/-- What an entry off the reassembly queue adds. -/
def mergeEntry (v : Receiver) (x : OooEntry) : Receiver :=
  if seqLeq (add x.seq x.data.length) v.rcvNxt then v
  else
    let tail := x.data.drop (sub v.rcvNxt x.seq).toNat
    if tail = [] then v else v.deliver tail

/-- The buffers are emptied, in CLOSED or back in LISTEN. -/
def cleared (v : Receiver) (st : ConnState) : Receiver :=
  { v with state := st, recvBuf := [], ooo := [], adv := { v.adv with advRight := none } }

def pastFin (v : Receiver) : Receiver := { v with rcvNxt := add v.rcvNxt 1 }

/-- State changes that leave the rest of the receiver alone. -/
def arcs : List (ConnState × ConnState) :=
  [(.closed, .listen), (.closed, .synSent), (.listen, .synSent), (.synReceived, .established),
    (.synReceived, .finWait1), (.established, .finWait1), (.established, .closeWait),
    (.finWait1, .finWait2), (.finWait1, .closing), (.finWait2, .timeWait), (.closing, .timeWait),
    (.closeWait, .lastAck)]

/-- An event that says nothing about the receiver. -/
def Aside : Event → Prop
  | .eof | .error _ | .received .. => True
  | .tx _ | .deliver _ | .stateChange .. => False

inductive Turn (a : Action) : Receiver → Receiver → Prop
  | builds (v : Receiver) (seg : TcpSegment) : seg.window = v.rcvWnd →
      (seg.ackFlag = true → seg.ack = v.rcvNxt) →
      Turn a v ({ v with adv := v.advertised }.note [.tx seg])
  -- `build` raised
  | botches (v : Receiver) : 65535 < v.mss → Turn a v { v with adv := v.advertised }
  | rejects (v : Receiver) (seg : TcpSegment) : seg.rst = true → Turn a v (v.note [.tx seg])
  | notes (v : Receiver) (ev : Event) : Aside ev → Turn a v (v.note [ev])
  | changes (v : Receiver) (st : ConnState) : (v.state, st) ∈ arcs →
      Turn a v ({ v with state := st }.note [.stateChange v.state st])
  | opens (v : Receiver) (seg : TcpSegment) (st : ConnState) (m : Nat) : a.Carries seg →
      seg.syn = true →
      v.state = .listen ∧ st = .synReceived ∨ v.state = .synSent ∧
      st ∈ [.established, .synReceived] →
      Turn a v ({ v with state := st, rcvNxt := add seg.seq 1, mss := m }.note
        [.stateChange v.state st])
  | ends (v : Receiver) (st : ConnState) : st = .closed ∨ v.state = .synReceived ∧ st = .listen →
      Turn a v ((v.cleared st).note (if v.state = st then [] else [.stateChange v.state st]))
  -- text
  | takes (v : Receiver) (seg : TcpSegment) (data : List UInt8) : a.Carries seg →
      v.state ∈ TcpEngine.DataStates → 0 < data.length →
      (data.length : Int) ≤ s32 (sub (add v.rcvNxt v.rcvWnd) v.rcvNxt) → Turn a v (v.deliver data)
  | merges (v : Receiver) (seg : TcpSegment) (x : OooEntry) : a.Carries seg →
      v.state ∈ TcpEngine.DataStates → v.ooo.find? v.mergeable = some x →
      Turn a v ({ v with ooo := v.ooo.eraseP v.mergeable }.mergeEntry x)
  | stores (v : Receiver) (seg : TcpSegment) (x : OooEntry) : a.Carries seg →
      v.state ∈ TcpEngine.DataStates → seg.syn = false → seqLt x.seq v.rcvNxt = false →
      x.seq ≠ v.rcvNxt → (x.data.length : Int) ≤ s32 (sub (add v.rcvNxt v.rcvWnd) x.seq) →
      Turn a v { v with ooo := v.ooo ++ [x] }
  | storesSyn (v : Receiver) (seg : TcpSegment) (x : OooEntry) : a.Carries seg →
      v.state = .synReceived → seg.syn = true → x.seq = v.rcvNxt → x.data = seg.payload →
      Turn a v { v with ooo := v.ooo ++ [x] }
  -- the peer's FIN, and the ACK of it
  | consumes (v : Receiver) (evs : List Event) (seg : TcpSegment) :
      v.state ∈ TcpEngine.OpenStates → (∀ ev ∈ evs, Aside ev) → seg.window = v.pastFin.rcvWnd →
      seg.ackFlag = true → seg.rst = false → seg.ack = v.pastFin.rcvNxt →
      Turn a v ({ v.pastFin with adv := v.pastFin.advertised }.note (evs ++ [Event.tx seg]))
  -- RECEIVE
  | drains (v : Receiver) (n : Nat) : a = .receive n →
      Turn a v { v with recvBuf := v.recvBuf.drop n }
  | reopens (v : Receiver) (n : Nat) : a = .receive n → 0 < v.rcvWnd →
      Turn a v { v with adv := { v.adv with zeroWinAdvertised := false } }

/-- One thing that happens while nothing arrives and nothing is received. -/
inductive Speaks : Receiver → Receiver → Prop
  | builds (v : Receiver) (seg : TcpSegment) : seg.window = v.rcvWnd →
      (seg.ackFlag = true → seg.ack = v.rcvNxt) →
      Speaks v ({ v with adv := v.advertised }.note [.tx seg])
  | botches (v : Receiver) : 65535 < v.mss → Speaks v { v with adv := v.advertised }
  | rejects (v : Receiver) (seg : TcpSegment) : seg.rst = true → Speaks v (v.note [.tx seg])
  | notes (v : Receiver) (ev : Event) : Aside ev → Speaks v (v.note [ev])
  | changes (v : Receiver) (st : ConnState) : (v.state, st) ∈ arcs →
      Speaks v ({ v with state := st }.note [.stateChange v.state st])
  | ends (v : Receiver) (st : ConnState) : st = .closed ∨ v.state = .synReceived ∧ st = .listen →
      Speaks v ((v.cleared st).note (if v.state = st then [] else [.stateChange v.state st]))

abbrev Speech : Receiver → Receiver → Prop := Relation.ReflTransGen Speaks

/-! ## The window

The room in the buffer, or less while the advertised right edge is held back. -/

section Window

variable {v : Receiver} {right : Int}

def room (v : Receiver) : Nat := v.wndMax - v.recvBuf.length

def edgeStep (v : Receiver) : Nat := min v.mss (max 1 (v.wndMax / 2))

/-- How far the edge that the room allows is past the advertised one. -/
def lead (v : Receiver) (right : Int) : Int := (v.rcvNxt + v.room - right) % 4294967296

/-- The room would move the advertised edge by less than a step. -/
def HeldBack (v : Receiver) (right : Int) : Prop :=
  v.sws = true ∧ v.adv.advRight = some right ∧ 0 < v.lead right ∧ v.lead right < 2147483648 ∧
    v.lead right < v.edgeStep

theorem lead_eq : sub (add v.rcvNxt v.room) right = v.lead right := by
  simp only [lead, sub_def, add_def]
  omega

theorem seqGt_lead : seqGt (add v.rcvNxt v.room) right = true ↔
    0 < v.lead right ∧ v.lead right < 2147483648 := by
  rw [seqGt_iff, ← lead_eq, sub_def]

theorem rcvWnd_held (h : v.HeldBack right) : v.rcvWnd = (s32 (sub right v.rcvNxt)).toNat := by
  obtain ⟨hs, hr, h0, h1, h2⟩ := h
  have hgt : seqGt (add v.rcvNxt v.room) right = true := seqGt_lead.mpr ⟨h0, h1⟩
  rw [rcvWnd, hr, hs]
  show (if seqGt (add v.rcvNxt v.room) right then
    if sub (add v.rcvNxt v.room) right < v.edgeStep then _ else v.room else v.room) = _
  rw [if_pos hgt, lead_eq, if_pos h2]

theorem rcvWnd_open (h : ∀ right, ¬ v.HeldBack right) : v.rcvWnd = v.room := by
  unfold rcvWnd
  split
  · next right hs hr =>
    show (if seqGt (add v.rcvNxt v.room) right then
      if sub (add v.rcvNxt v.room) right < v.edgeStep then _ else v.room else v.room) = _
    by_cases hgt : seqGt (add v.rcvNxt v.room) right = true
    · rw [if_pos hgt, lead_eq, if_neg]
      intro hlt
      have h01 := seqGt_lead.mp hgt
      exact h right ⟨hs, hr, h01.1, h01.2, hlt⟩
    · rw [if_neg hgt]
  · rfl

/-- The two ways the window is computed. -/
theorem rcvWnd_cases (v : Receiver) : (∃ right, v.HeldBack right) ∨
    ((∀ right, ¬ v.HeldBack right) ∧ v.rcvWnd = v.room) := by
  by_cases h : ∃ right, v.HeldBack right
  · exact Or.inl h
  · exact Or.inr ⟨not_exists.mp h, rcvWnd_open (not_exists.mp h)⟩

/-- A held window ends at the advertised edge, or is closed when that has been passed. -/
theorem rcvWnd_held_eq (hm : v.wndMax < 2147483648) (h : v.HeldBack right) :
    (v.rcvWnd : Int) = max 0 (v.room - v.lead right) := by
  rw [rcvWnd_held h]
  obtain ⟨-, -, h0, h1, h2⟩ := h
  have hroom : v.room ≤ v.wndMax := Nat.sub_le _ _
  have hs : s32 (sub right v.rcvNxt) = v.room - v.lead right := by
    refine s32_eq_of_congr ?_ (by omega) (by omega)
    simp only [sub_def, lead]
    omega
  rw [hs]
  omega

theorem rcvWnd_le_room (v : Receiver) : v.rcvWnd ≤ v.room := by
  rcases rcvWnd_cases v with ⟨right, h⟩ | ⟨-, h⟩
  · rw [rcvWnd_held h]
    obtain ⟨-, -, h0, h1, -⟩ := h
    have hle : s32 (sub right v.rcvNxt) ≤ v.room := by
      simp only [lead] at h0 h1
      rw [s32_def, sub_def]
      split <;> omega
    omega
  · exact h.le

theorem rcvWnd_of_room (h : v.room = 0) : v.rcvWnd = 0 := Nat.le_zero.mp (h ▸ rcvWnd_le_room v)

/-- Holding the edge back never closes the window on an empty buffer. -/
theorem rcvWnd_pos (hm : v.wndMax < 2147483648) (he : v.recvBuf = []) (h0 : 0 < v.wndMax) :
    0 < v.rcvWnd := by
  have hroom : v.room = v.wndMax := by rw [room, he, List.length_nil, Nat.sub_zero]
  rcases rcvWnd_cases v with ⟨right, h⟩ | ⟨-, h⟩
  · have hw := rcvWnd_held_eq hm h
    obtain ⟨-, -, h1, -, h2⟩ := h
    have hs : v.edgeStep ≤ max 1 (v.wndMax / 2) := min_le_right _ _
    omega
  · rw [h, hroom]
    exact h0

/-- An edge that has been advertised as far as the room goes is not held back. -/
theorem rcvWnd_reached (h : ∀ right, v.adv.advRight = some right → v.lead right = 0) :
    v.rcvWnd = v.room := by
  refine rcvWnd_open fun right hh => ?_
  obtain ⟨-, hr, h0, -⟩ := hh
  have := h right hr
  omega

theorem advertised_none (h : v.adv.advRight = none) :
    v.advertised.advRight = some (add v.rcvNxt v.rcvWnd) := by
  simp only [advertised, h]

theorem advertised_some (h : v.adv.advRight = some right) : v.advertised.advRight =
    some (if seqGt (add v.rcvNxt v.rcvWnd) right then add v.rcvNxt v.rcvWnd else right) := by
  simp only [advertised, h]
  split <;> rfl

/-- Advertising the window does not change it. -/
theorem rcvWnd_advertised (hm : v.wndMax < 2147483648) :
    rcvWnd { v with adv := v.advertised } = v.rcvWnd := by
  have hroom : room { v with adv := v.advertised } = v.room := rfl
  have hreach (ha : v.advertised.advRight = some (add v.rcvNxt v.room)) :
      rcvWnd { v with adv := v.advertised } = v.room := by
    refine rcvWnd_reached fun r hr => ?_
    obtain rfl := Option.some.inj (ha.symm.trans hr)
    simp only [lead, hroom, add_def]
    omega
  cases ha : v.adv.advRight with
  | none =>
    have hw : v.rcvWnd = v.room := by
      refine rcvWnd_open fun r hh => ?_
      rw [hh.2.1] at ha
      cases ha
    rw [hw]
    exact hreach (by rw [advertised_none ha, hw])
  | some right =>
    have hadv := advertised_some ha
    by_cases hh : v.HeldBack right
    · have hw := rcvWnd_held_eq hm hh
      obtain ⟨hs, -, h0, h1, h2⟩ := hh
      by_cases hle : v.lead right ≤ v.room
      · -- the advertised edge is what is offered
        have hsame : seqGt (add v.rcvNxt v.rcvWnd) right = false := by
          rw [Bool.eq_false_iff, Ne, seqGt_iff]
          simp only [add_def]
          simp only [lead] at hw h0 h1 hle
          omega
        rw [if_neg (by simp [hsame])] at hadv
        have hh' : HeldBack { v with adv := v.advertised } right := ⟨hs, hadv, h0, h1, h2⟩
        have hw' := rcvWnd_held_eq (v := { v with adv := v.advertised }) hm hh'
        have hl : lead { v with adv := v.advertised } right = v.lead right := rfl
        rw [hl, hroom, ← hw] at hw'
        omega
      · -- it has been passed: the window is closed, and stays so
        have hz : v.rcvWnd = 0 := by omega
        have hgt : seqGt (add v.rcvNxt v.rcvWnd) right = true := by
          rw [hz, seqGt_iff]
          simp only [add_def]
          simp only [lead] at h0 h1 hle
          omega
        rw [if_pos hgt] at hadv
        have hl : lead { v with adv := v.advertised } (add v.rcvNxt v.rcvWnd) = v.room := by
          have : v.room ≤ v.wndMax := Nat.sub_le _ _
          simp only [lead, hroom, hz, add_def]
          omega
        rw [hz]
        by_cases hr0 : v.room = 0
        · exact rcvWnd_of_room hr0
        · have hh' : HeldBack { v with adv := v.advertised } (add v.rcvNxt v.rcvWnd) := by
            refine ⟨hs, hadv, ?_, ?_, ?_⟩
            · rw [hl]; omega
            · rw [hl]; omega
            · rw [hl]
              show (v.room : Int) < v.edgeStep
              omega
          have hw' := rcvWnd_held_eq (v := { v with adv := v.advertised }) hm hh'
          rw [hl, hroom] at hw'
          omega
    · have hopen : v.rcvWnd = v.room := by
        refine rcvWnd_open fun r hr => hh ?_
        obtain rfl := Option.some.inj (ha.symm.trans hr.2.1)
        exact hr
      rw [hopen] at hadv ⊢
      by_cases hgt : seqGt (add v.rcvNxt v.room) right = true
      · rw [if_pos hgt] at hadv
        exact hreach hadv
      · rw [if_neg hgt] at hadv
        rw [← hroom]
        refine rcvWnd_open fun r hr => hh ?_
        obtain ⟨hs, hadv', h012⟩ := hr
        obtain rfl := Option.some.inj (hadv.symm.trans hadv')
        exact ⟨hs, ha, h012⟩

end Window

abbrev Turns (a : Action) : Receiver → Receiver → Prop := Relation.ReflTransGen (Turn a)

/-- The induction principle the invariants of the receiver use. -/
theorem Turns.preserves {a : Action} {P : Receiver → Prop}
    (hP : ∀ v w, Turn a v w → P v → P w) {v w : Receiver} (h : Turns a v w) (hv : P v) : P w := by
  induction h with
  | refl => exact hv
  | tail _ ht ih => exact hP _ _ ht ih

theorem Speaks.turn {a : Action} {v w : Receiver} (h : Speaks v w) : Turn a v w := by
  cases h with
  | builds seg hw ha => exact .builds v seg hw ha
  | botches hm => exact .botches v hm
  | rejects seg hr => exact .rejects v seg hr
  | notes ev he => exact .notes v ev he
  | changes st hs => exact .changes v st hs
  | ends st hs => exact .ends v st hs

theorem Speech.turns {a : Action} {v w : Receiver} (h : Speech v w) : Turns a v w := by
  induction h with
  | refl => exact .refl
  | tail _ ht ih => exact ih.tail ht.turn

end Receiver

namespace TcpEngine

variable {a : Action} {e e' f : TcpEngine}

/-- The receiver in an engine. -/
def receiver (e : TcpEngine) : Receiver where
  sws := e.conf.cfg.swsAvoidance
  wndMax := e.conf.rcvWndMax
  onData := e.conf.onData
  state := e.tcb.state
  rcvNxt := e.tcb.rcvNxt
  mss := e.tcb.sndMss
  recvBuf := e.buf.recvBuf
  ooo := e.buf.ooo
  adv := e.adv
  log := e.env.log

theorem receiver_advertised : e.receiver.advertised = e.advertise.adv := rfl

open Receiver (Turn Turns Speaks Speech)

/-! ## Methods as turns -/

theorem turn_of_eq {v : Receiver} (h : Turn a e.receiver v) (hf : f.receiver = v) :
    Turns a e.receiver f.receiver := by
  rw [hf]
  exact .single h

theorem speech_of_eq (h : f.receiver = e.receiver) : Speech e.receiver f.receiver := by
  rw [h]

theorem speaks_of_eq {v : Receiver} (h : Speaks e.receiver v) (hf : f.receiver = v) :
    Speech e.receiver f.receiver := by
  rw [hf]
  exact .single h

theorem note_speech (ev : Event) (hev : Receiver.Aside ev)
    (hf : f.receiver = e.receiver.note [ev]) : Speech e.receiver f.receiver :=
  speaks_of_eq (.notes _ ev hev) hf

/-- A segment is built, and sent unless `build` raised. -/
theorem built_speech (seq : Int) (flags : Flags) (payload : List UInt8) (m : Bool) (urg : Nat)
    (hf : f.receiver = { e.receiver with adv := e.advertise.adv }.note
        [.tx (e.segmentFor seq flags payload m urg)] ∨
      65535 < e.tcb.sndMss ∧ f.receiver = { e.receiver with adv := e.advertise.adv }) :
    Speech e.receiver f.receiver := by
  rcases hf with hf | ⟨hm, hf⟩
  · exact speaks_of_eq (.builds _ _ rfl fun hack => if_pos hack) hf
  · exact speaks_of_eq (.botches _ hm) hf

theorem queueAndSend_speech (flags : Flags) (payload : List UInt8) (m : Bool) (urg : Nat) :
    Speech e.receiver (e.queueAndSend flags payload m urg).receiver := by
  apply built_speech e.tcb.sndNxt flags payload m urg
  rcases e.queueAndSend_cases flags payload m urg with h | ⟨-, hm, h⟩
  · exact Or.inl (by rw [h, armRt_eq]; rfl)
  · exact Or.inr ⟨hm, by rw [h]; rfl⟩

theorem makeAndTransmit_speech (seq : Int) (flags : Flags) (payload : List UInt8) (m : Bool)
    (urg : Nat) : Speech e.receiver (e.makeAndTransmit seq flags payload m urg).receiver := by
  apply built_speech seq flags payload m urg
  by_cases hm : m = true ∧ 65535 < e.tcb.sndMss
  · rcases e.advertise.transmit_cases (e.segmentFor seq flags payload m urg) with h | h
    · exact Or.inl (by rw [makeAndTransmit, h]; rfl)
    · exact Or.inr ⟨hm.2, by rw [makeAndTransmit, h]; rfl⟩
  · apply Or.inl
    rw [makeAndTransmit, transmit_plain _ _ (segmentFor_plain fun h => by
      simp only [h, true_and, not_lt] at hm; exact hm)]
    rfl

theorem sendAck_speech : Speech e.receiver e.sendAck.receiver := by
  have h : e.sendAck.receiver = (e.makeAndTransmit e.tcb.sndNxt { ack := true }).receiver := by
    simp [receiver, sendAck]
  rw [h]
  exact makeAndTransmit_speech _ _ _ _ _

theorem sendAck_receiver : e.sendAck.receiver =
    { e.receiver with adv := e.receiver.advertised }.note [.tx e.ackSegment] := by
  rw [receiver_advertised]
  simp [receiver, Receiver.note]

theorem emitRstReply_speech (seg : TcpSegment) (seq ack : Int) (ackFlag : Bool) :
    Speech e.receiver (e.emitRstReply seg seq ack ackFlag).receiver := by
  refine speaks_of_eq (.rejects e.receiver _ ?_) (by rw [emitRstReply_eq]; rfl)
  rfl

theorem setState_speech (st : ConnState)
    (h : e.tcb.state = st ∨ (e.tcb.state, st) ∈ Receiver.arcs) :
    Speech e.receiver (e.setState st).receiver := by
  by_cases hs : e.tcb.state = st
  · exact speech_of_eq (by rw [setState, if_pos hs])
  · apply speaks_of_eq (.changes e.receiver st (h.resolve_left hs))
    simp [receiver, Receiver.note, setState_log, hs]

theorem enterClosed_speech (hb : e.Blocked) : Speech e.receiver e.enterClosed.receiver := by
  obtain ⟨tm, h⟩ := enterClosed_closeDown hb
  apply speaks_of_eq (.ends e.receiver .closed (Or.inl rfl))
  rw [h]
  simp [closeDown, receiver, Receiver.note, Receiver.cleared, setState_log, resetBuffers]
  rfl

theorem sendRst_speech : Speech e.receiver e.sendRst.receiver := makeAndTransmit_speech _ _ _ _ _

theorem giveUp_speech (msg : String) (hb : e.Blocked) :
    Speech e.receiver (e.giveUp msg).receiver := by
  obtain ⟨f, hf, hfb, h⟩ := giveUp_closes msg hb
  have h1 : Speech e.receiver f.receiver := by
    rcases hf with rfl | rfl
    · exact .refl
    · exact sendRst_speech
  rw [h]
  exact h1.trans ((note_speech (.error msg) True.intro rfl).trans (enterClosed_speech hfb))

theorem sendFin_speech : Speech e.receiver e.sendFin.receiver := by
  obtain ⟨st, h, hst⟩ := sendFin_cases (e := e)
  have hq : Speech e.receiver e.finQueued.receiver := by
    have hr : e.finQueued.receiver =
        (queueAndSend { e with fin := { e.fin with finSeq := e.tcb.sndNxt } }
          { ack := true, fin := true } []).receiver := rfl
    rw [hr]
    exact queueAndSend_speech (e := { e with fin := { e.fin with finSeq := e.tcb.sndNxt } }) _ _ _ _
  rw [h]
  refine hq.trans (setState_speech st ?_)
  rcases hst with ⟨hs, rfl⟩ | ⟨hs, rfl⟩ | ⟨hs, rfl⟩ | ⟨-, rfl⟩
  · exact Or.inr (by simp [hs, Receiver.arcs])
  · exact Or.inr (by simp [hs, Receiver.arcs])
  · exact Or.inr (by simp [hs, Receiver.arcs])
  · exact Or.inl (by simp)

theorem processFin_turns (hs : e.tcb.state ∈ OpenStates) :
    Turns a e.receiver e.processFin.receiver := by
  have hc : Turns a e.receiver e.consumeFin.sendAck.receiver := by
    have hack {g : TcpEngine} (evs : List Event) (hev : ∀ ev ∈ evs, Receiver.Aside ev)
        (hg : g.receiver = e.receiver.pastFin.note evs) :
        Turns a e.receiver g.sendAck.receiver := by
      have hn : g.tcb.rcvNxt = e.receiver.pastFin.rcvNxt := congrArg Receiver.rcvNxt hg
      have hw : g.rcvWnd = e.receiver.pastFin.rcvWnd := congrArg Receiver.rcvWnd hg
      apply turn_of_eq (.consumes e.receiver evs g.ackSegment hs hev hw rfl rfl hn)
      rw [sendAck_receiver, hg]
      simp [Receiver.note]
      rfl
    unfold consumeFin signalClose
    split
    · exact hack [.eof] (by simp [Receiver.Aside]) rfl
    · exact hack [] (by simp) (by simp [Receiver.note]; rfl)
  have hst {g : TcpEngine} (st : ConnState)
      (h : g.tcb.state = st ∨ (g.tcb.state, st) ∈ Receiver.arcs) :
      Turns a g.receiver (g.setState st).receiver := (setState_speech st h).turns
  rcases processFin_cases (e := e) with ⟨st, h, hf⟩ | ⟨h, hf⟩
  · rw [hf]
    refine hc.trans (hst st ?_)
    rcases h with ⟨h, rfl⟩ | ⟨h, rfl⟩ | ⟨-, rfl⟩
    · exact Or.inr (by simp [h, Receiver.arcs])
    · exact Or.inr (by simp [h, Receiver.arcs])
    · exact Or.inl (by simp)
  · rw [hf]
    apply hc.trans
    exact hst (g := e.consumeFin.sendAck.stopRt.dropPersistTimer) .timeWait
      (Or.inr (by simp [h, Receiver.arcs]))

theorem takeSyn_receiver {seg : TcpSegment} (ht : e.TakesSyn seg) (st : ConnState)
    (hst : st ∈ [.established, .synReceived]) : ∃ m, ((e.takeSyn seg).setState st).receiver =
      ({ e.receiver with state := st, rcvNxt := add seg.seq 1, mss := m }.note
        [.stateChange e.tcb.state st]) := by
  obtain ⟨m, -, -, h⟩ := takeSyn_cases (e := e) seg
  refine ⟨m, ?_⟩
  have hne : e.tcb.state ≠ st := by
    rw [ht.1]
    rintro rfl
    simp at hst
  have hs : (e.takeSyn seg).tcb.state = e.tcb.state := (takeSyn_tcb seg).1
  have hl : ((e.takeSyn seg).setState st).env.log =
      e.env.log ++ [.stateChange e.tcb.state st] := by
    rw [setState_log, takeSyn_env, hs, if_neg hne]
  simp only [receiver, hl]
  rw [h]
  dsimp only
  split <;> simp [Receiver.note]

theorem takeSyn_turns {seg : TcpSegment} {st : ConnState} (hc : a.Carries seg) (ht : e.TakesSyn seg)
    (hst : st ∈ [.established, .synReceived]) :
    Turns a e.receiver ((e.takeSyn seg).setState st).receiver := by
  obtain ⟨m, h⟩ := takeSyn_receiver ht st hst
  exact turn_of_eq (.opens e.receiver seg st m hc ht.2.1 (Or.inr ⟨ht.1, hst⟩)) h

/-! ## Moves as turns -/

theorem Receives.turns (h : e.Receives a f) : Turns a e.receiver f.receiver := by
  have hd (g : TcpEngine) (data : List UInt8) (flags : Flags) :
      (((g.deliver data).advanceRcvNxt data.length).markSeen flags).receiver =
        g.receiver.deliver data := by
    unfold TcpEngine.deliver
    dsimp only
    cases hs : g.conf.onData with
    | true =>
      rw [if_pos (by exact hs)]
      simp [receiver, Receiver.deliver, hs, advanceRcvNxt, markSeen]
    | false =>
      rw [if_neg (by show ¬ g.conf.onData = true; simp [hs])]
      simp [receiver, Receiver.deliver, hs, advanceRcvNxt, markSeen]
  cases h with
  | takeInOrder seg off n hc hs _ _ hlen hn hfit =>
    refine turn_of_eq (.takes e.receiver seg ((seg.payload.drop off).take n) hc hs ?_ ?_) ?_
    · simp only [List.length_take, List.length_drop]
      omega
    · refine le_trans ?_ hfit
      simp only [List.length_take]
      omega
    · unfold TcpEngine.takeInOrder
      dsimp only
      rw [← hd e _ seg.flags]
      split <;> rfl
  | mergeEntry seg x hc hs hx =>
    apply turn_of_eq (.merges e.receiver seg x hc hs hx)
    unfold TcpEngine.mergeEntry Receiver.mergeEntry
    dsimp only
    have hn : e.receiver.rcvNxt = e.tcb.rcvNxt := rfl
    rw [hn]
    by_cases hold : seqLeq (add x.seq x.data.length) e.tcb.rcvNxt = true
    · rw [if_pos hold, if_pos hold]
      rfl
    · rw [if_neg hold, if_neg hold]
      by_cases htail : x.data.drop (sub e.tcb.rcvNxt x.seq).toNat = []
      · rw [if_pos htail, if_pos htail]
        rfl
      · rw [if_neg htail, if_neg htail]
        exact hd { e with buf := { e.buf with ooo := e.buf.ooo.eraseP e.mergeable } } _ x.flags

theorem storeOoo_turns (x : OooEntry)
    (h : Turn a e.receiver { e.receiver with ooo := e.buf.ooo ++ [x] }) :
    Turns a e.receiver (e.storeOoo x.seq x.data x.flags).receiver := by
  unfold TcpEngine.storeOoo
  split
  · exact .refl
  · exact .single h

/-- Something arrives, or the user receives. -/
def Hears (a : Action) : Prop := (∃ seg, a.Carries seg) ∨ ∃ n, a = .receive n

/-- The receiver in the engine takes turns, and only speaks where it hears nothing. -/
theorem Move.speech_or_turns (hm : Move a e f) :
    Speech e.receiver f.receiver ∨ (Hears a ∧ Turns a e.receiver f.receiver) := by
  have hears {seg : TcpSegment} (hc : a.Carries seg) : Hears a := Or.inl ⟨seg, hc⟩
  cases hm with
  | setUserTimeout t => exact Or.inl (speech_of_eq (by cases t <;> rfl))
  | connect ho _ =>
    rw [connect_eq (ho.imp And.left id)]
    refine Or.inl (.trans (speaks_of_eq (f := e.dialled) (.changes e.receiver .synSent ?_) rfl)
      (queueAndSend_speech _ _ _ _))
    rcases ho with ⟨h, -⟩ | h <;> simp [receiver, h, Receiver.arcs]
  | startListening hs =>
    exact Or.inl (setState_speech (e := { e with fin := { e.fin with passive := true } }) .listen
      (Or.inr (by simp [hs, Receiver.arcs])))
  | drain n ha => exact Or.inr ⟨Or.inr ⟨n, ha⟩, turn_of_eq (.drains e.receiver n ha) rfl⟩
  | reopenWindow n ha hw =>
    exact Or.inr ⟨Or.inr ⟨n, ha⟩, turn_of_eq (.reopens e.receiver n ha hw) rfl⟩
  | finishReceive data =>
    refine Or.inl (note_speech (.received data e.psh.pushSeen e.psh.urgentSeen) True.intro ?_)
    unfold TcpEngine.finishReceive
    dsimp only
    split <;> rfl
  | retransmit g o rest =>
    have hr : ((e.fire g).countRto.markRetransmitted o rest).receiver = e.receiver := by
      simp [receiver, markRetransmitted]
    rw [← hr]
    refine Or.inl (built_speech o.seq o.flags o.payload o.flags.syn 0 ?_)
    rcases retransmitHead_cases (e := (e.fire g).countRto) o rest with h | ⟨-, h, h'⟩
    · exact Or.inl (by rw [h]; rfl)
    · exact Or.inr ⟨h, by rw [h']; rfl⟩
  | sendAck => exact Or.inl sendAck_speech
  | scheduleAck force =>
    rcases e.scheduleAck_cases force with ⟨n, h⟩ | ⟨d, n, -, -, -, h⟩ | ⟨-, -, n, h⟩
    · rw [h]
      exact Or.inl (sendAck_speech (e := { e with tm := { e.tm with ackCount := n } }))
    · exact Or.inl (speech_of_eq (by rw [h]; rfl))
    · exact Or.inl (speech_of_eq (by rw [h]; rfl))
  | emitRstReply seg seq ack ackFlag =>
    exact Or.inl (emitRstReply_speech seg seq ack ackFlag)
  | sendSynAck => exact Or.inl (makeAndTransmit_speech _ _ _ _ _)
  | sendKeepaliveProbe =>
    exact Or.inl
      (makeAndTransmit_speech (e := e) (sub e.tcb.sndUna 1) { ack := true } [] false 0)
  | signalError msg => exact Or.inl (note_speech (.error msg) True.intro rfl)
  | sendChunk =>
    obtain ⟨psh, h⟩ := sendChunk_eq (e := e) e.chunkLen
    rw [h]
    exact Or.inl (queueAndSend_speech (e := e.takeChunk e.chunkLen) _ _ _ _)
  | sendFin => exact Or.inl sendFin_speech
  | probe g =>
    have hr : (e.fire g).receiver = e.receiver := by simp [receiver]
    rw [← hr]
    exact Or.inl (queueAndSend_speech (e := (e.fire g).takeChunk 1) _ _ _ _)
  | probeFin g =>
    have hr : (e.fire g).receiver = e.receiver := by simp [receiver]
    rw [← hr]
    exact Or.inl (sendFin_speech (e := e.fire g))
  | acceptSyn seg hc hs hsyn _ _ =>
    obtain ⟨m, -, -, h⟩ := acceptSyn_eq (e := e) seg hs
    rw [h]
    refine Or.inr ⟨hears hc, .trans (turn_of_eq (f := e.listenTaken seg m)
      (.opens e.receiver seg .synReceived m hc hsyn (Or.inl ⟨hs, rfl⟩)) ?_)
      (queueAndSend_speech _ _ _ _).turns⟩
    simp [receiver, listenTaken, listenTcb, Receiver.note, hs]
  | synEstablished seg hc ht _ => exact Or.inr ⟨hears hc, takeSyn_turns hc ht (by simp)⟩
  | synReceived seg hc ht _ =>
    have hst : ConnState.synReceived ∈ [ConnState.established, .synReceived] := by simp
    exact Or.inr ⟨hears hc, takeSyn_turns hc ht hst⟩
  | storeSynData seg hc hs hsyn _ hn =>
    exact Or.inr ⟨hears hc,
      storeOoo_turns ⟨add seg.seq 1, seg.payload, { seg.flags with fin := false }⟩
        (.storesSyn e.receiver seg _ hc hs hsyn hn.symm rfl)⟩
  | completeOpen seg _ hc =>
    have hr : ((e.processAck seg.ack).setSendWindow seg.window seg.seq seg.ack).receiver =
        e.receiver := by simp [receiver]
    rw [← hr]
    exact Or.inl (setState_speech .established (Or.inr (by simp [hc.1, Receiver.arcs])))
  | finAckedWait hs =>
    exact Or.inl (setState_speech .finWait2 (Or.inr (by simp [hs, Receiver.arcs])))
  | finAckedTimeWait hs =>
    rw [enterTimeWait_eq (by simp [CanSend, hs])]
    exact Or.inl (setState_speech (e := e.stopRt.dropPersistTimer) .timeWait
      (Or.inr (by simp [hs, Receiver.arcs])))
  | processFin hs hn =>
    obtain ⟨seg, hc, -⟩ := hn
    exact Or.inr ⟨hears hc, processFin_turns hs⟩
  | listenAgain hs hp =>
    refine Or.inl (speaks_of_eq (.ends e.receiver .listen (Or.inr ⟨hs, rfl⟩)) ?_)
    rw [doReset_listen hs hp]
    simp [restorePort, receiver, Receiver.note, Receiver.cleared, setState_log, resetBuffers, hs]
  | close _ hb => exact Or.inl (enterClosed_speech hb)
  | abort _ hb => exact Or.inl (sendRst_speech.trans (enterClosed_speech (sendRst_blocked hb)))
  | giveUp msg _ hb => exact Or.inl (giveUp_speech msg hb)
  | giveUpRto g c msg _ _ _ _ hb =>
    cases c with
    | true =>
      have hr : (e.fire g).countRto.receiver = e.receiver := by simp [receiver]
      rw [← hr]
      exact Or.inl (giveUp_speech msg ((hb.fire g).of_view rfl))
    | false =>
      have hr : (e.fire g).receiver = e.receiver := by simp [receiver]
      rw [← hr]
      exact Or.inl (giveUp_speech msg (hb.fire g))
  | timeWaitExpires g _ _ _ hb =>
    have hr : (e.fire g).receiver = e.receiver := by simp [receiver]
    rw [← hr]
    exact Or.inl (enterClosed_speech (hb.fire g))
  | receive _ hr =>
    refine Or.inr ⟨?_, hr.turns⟩
    cases hr with
    | takeInOrder seg off n hc => exact hears hc
    | mergeEntry seg x hc => exact hears hc
  | storeOoo seg n hc hs hsyn hlt hne _ hfit =>
    refine Or.inr ⟨hears hc, storeOoo_turns ⟨seg.seq, seg.payload.take n, seg.flags⟩
      (.stores e.receiver seg _ hc hs hsyn hlt hne (le_trans ?_ hfit))⟩
    simp only [List.length_take]
    omega
  | _ => exact Or.inl (speech_of_eq (by first | rfl | simp [receiver]))

theorem Move.turns (hm : Move a e f) : Turns a e.receiver f.receiver := by
  obtain h | ⟨-, h⟩ := hm.speech_or_turns
  · exact h.turns
  · exact h

theorem Path.turns (h : Path a e f) : Turns a e.receiver f.receiver := by
  induction h with
  | refl => exact .refl
  | tail _ hm ih => exact ih.trans hm.turns

theorem Path.speech (ha : ¬ Hears a) (h : Path a e f) : Speech e.receiver f.receiver := by
  induction h with
  | refl => exact .refl
  | tail _ hm ih => exact ih.trans (hm.speech_or_turns.resolve_right fun h => ha h.1)

theorem begin_receiver (e : TcpEngine) (a : Action) : (e.begin a).receiver = e.receiver := by
  unfold begin
  split
  · split
    · next t _ =>
      cases t <;> rfl
    · rfl
  · rfl

/-- So it does in a step of the engine. -/
theorem Ready.turns (hr : e.Ready) (h : engineMachine.step e a = some e') :
    Turns a e.receiver e'.receiver := by
  rw [← begin_receiver e a]
  exact Path.turns (hr.path h)

theorem Ready.speech (hr : e.Ready) (ha : ¬ Hears a) (h : engineMachine.step e a = some e') :
    Speech e.receiver e'.receiver := by
  rw [← begin_receiver e a]
  exact Path.speech ha (hr.path h)

end TcpEngine

end HdlPlayground.Tcp

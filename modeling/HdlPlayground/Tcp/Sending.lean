import HdlPlayground.Tcp.Frames

/-!
# What `_send_pending` does

`SendRun` is the segmentation loop as a derivation, one rule for each way a pass
can go; the facts about the loop are inductions on it. An engine is drained when
`_send_pending` has nothing it may send. Every entry point ends drained, which is
what makes the `_send_pending` inside `_enter_closed` harmless but for the
persist timer.
-/
namespace HdlPlayground.Tcp

namespace TcpEngine

variable {e : TcpEngine}

/-! ## The tests -/

/-- The test of `_send_pending` and `_on_persist` before a FIN. -/
def FinDue (e : TcpEngine) : Prop :=
  e.fin.finPending = true ∧ e.fin.finSent = false ∧ e.buf.appBuf = []

/-- Something is waiting to be sent. -/
def Waiting (e : TcpEngine) : Prop := e.buf.appBuf ≠ [] ∨ e.FinDue

/-- States in which `_send_pending` gets past its first test. -/
def CanSend (e : TcpEngine) : Prop :=
  e.tcb.state = .established ∨ e.tcb.state = .closeWait ∨
    (e.tcb.state = .synReceived ∧ e.fin.finPending ∧ e.buf.appBuf = [])

instance : Decidable e.FinDue := inferInstanceAs (Decidable (_ ∧ _ ∧ _))
instance : Decidable e.Waiting := inferInstanceAs (Decidable (_ ∨ _))
instance : Decidable e.CanSend := inferInstanceAs (Decidable (_ ∨ _ ∨ _))

/-- The length of the next chunk of the segmentation loop. -/
def chunkLen (e : TcpEngine) : Nat :=
  min e.tcb.sndMss (min e.usableWindow.toNat e.buf.appBuf.length)

/-- Nagle keeps a short chunk back while data is outstanding. -/
def NagleHolds (e : TcpEngine) : Prop :=
  e.conf.cfg.nagle = true ∧ e.buf.retx ≠ [] ∧ e.chunkLen < e.tcb.sndMss

/-- What waits for a closed window, which only the persist timer can probe. -/
def Stuck (e : TcpEngine) : Prop := e.CanSend ∧ e.Waiting ∧ e.tcb.sndWnd = 0

instance : Decidable e.Stuck := inferInstanceAs (Decidable (_ ∧ _ ∧ _))

/-! ## One chunk -/

@[simp] theorem takeChunk_conf (n : Nat) : (e.takeChunk n).conf = e.conf := rfl
@[simp] theorem takeChunk_tcb (n : Nat) : (e.takeChunk n).tcb = e.tcb := rfl
@[simp] theorem takeChunk_retx (n : Nat) : (e.takeChunk n).buf.retx = e.buf.retx := rfl
@[simp] theorem takeChunk_appBuf (n : Nat) :
    (e.takeChunk n).buf.appBuf = e.buf.appBuf.drop n := rfl
@[simp] theorem takeChunk_fin (n : Nat) : (e.takeChunk n).fin = e.fin := rfl
@[simp] theorem takeChunk_env (n : Nat) : (e.takeChunk n).env = e.env := rfl

/-- The chunk as the queue sees it, before the PUSH bookkeeping. -/
def queueChunk (e : TcpEngine) (n : Nat) : TcpEngine :=
  (e.takeChunk n).queueAndSend (e.takeChunk n).chunkFlags (e.buf.appBuf.take n) false
    (e.takeChunk n).urgentPointer

theorem sendChunk_eq (n : Nat) :
    ∃ psh, e.sendChunk n = { e.queueChunk n with psh := psh } := by
  unfold sendChunk queueChunk
  dsimp only
  split
  · exact ⟨_, rfl⟩
  · exact ⟨_, rfl⟩

section SendChunk

variable (n : Nat)

@[simp] theorem sendChunk_conf : (e.sendChunk n).conf = e.conf := by
  obtain ⟨psh, h⟩ := sendChunk_eq (e := e) n; simp [h, queueChunk]
@[simp] theorem sendChunk_tcb : (e.sendChunk n).tcb = (e.queueChunk n).tcb := by
  obtain ⟨psh, h⟩ := sendChunk_eq (e := e) n; simp [h]
@[simp] theorem sendChunk_buf : (e.sendChunk n).buf = (e.queueChunk n).buf := by
  obtain ⟨psh, h⟩ := sendChunk_eq (e := e) n; simp [h]
@[simp] theorem sendChunk_fin : (e.sendChunk n).fin = e.fin := by
  obtain ⟨psh, h⟩ := sendChunk_eq (e := e) n; simp [h, queueChunk]
@[simp] theorem sendChunk_tm : (e.sendChunk n).tm = (e.queueChunk n).tm := by
  obtain ⟨psh, h⟩ := sendChunk_eq (e := e) n; simp [h]
@[simp] theorem sendChunk_env : (e.sendChunk n).env = (e.queueChunk n).env := by
  obtain ⟨psh, h⟩ := sendChunk_eq (e := e) n; simp [h]
@[simp] theorem queueChunk_state : (e.queueChunk n).tcb.state = e.tcb.state := by
  simp [queueChunk]
@[simp] theorem queueChunk_sndWnd : (e.queueChunk n).tcb.sndWnd = e.tcb.sndWnd := by
  simp [queueChunk]
@[simp] theorem queueChunk_sndMss : (e.queueChunk n).tcb.sndMss = e.tcb.sndMss := by
  simp [queueChunk]
@[simp] theorem queueChunk_appBuf : (e.queueChunk n).buf.appBuf = e.buf.appBuf.drop n := by
  simp [queueChunk]
@[simp] theorem queueChunk_hung : (e.queueChunk n).env.hung = e.env.hung := by
  simp [queueChunk]
@[simp] theorem queueChunk_exc : (e.queueChunk n).env.exc = e.env.exc := by
  simp [queueChunk]

end SendChunk

/-! ## The loop -/

inductive SendRun : TcpEngine → TcpEngine × Bool → Prop
  | empty (e : TcpEngine) : e.buf.appBuf = [] → SendRun e (e, true)
  | closed (e : TcpEngine) : e.buf.appBuf ≠ [] → e.tcb.sndWnd = 0 → SendRun e (e.armPersist, false)
  | held (e : TcpEngine) :
      e.buf.appBuf ≠ [] → e.tcb.sndWnd ≠ 0 → e.usableWindow ≤ 0 ∨ e.NagleHolds →
      SendRun e (e, false)
  | hang (e : TcpEngine) : e.buf.appBuf ≠ [] → e.tcb.sndWnd ≠ 0 → 0 < e.usableWindow →
      ¬ e.NagleHolds → SendRun e (e.hang, false)
  | chunk (e : TcpEngine) (r : TcpEngine × Bool) : e.buf.appBuf ≠ [] → e.tcb.sndWnd ≠ 0 →
      0 < e.usableWindow → ¬ e.NagleHolds → SendRun (e.sendChunk e.chunkLen) r → SendRun e r

private theorem nagleHolds_iff :
    (e.conf.cfg.nagle && !e.buf.retx.isEmpty && decide (e.chunkLen < e.tcb.sndMss)) = true ↔
      e.NagleHolds := by
  simp [NagleHolds, and_assoc]

theorem dataLoop_run (fuel : Nat) (e : TcpEngine) : SendRun e (dataLoop fuel e) := by
  induction fuel generalizing e with
  | zero =>
    unfold dataLoop
    dsimp only
    split_ifs with hb hw hu hn
    · exact .empty e hb
    · exact .closed e hb hw
    · exact .held e hb hw (Or.inl hu)
    · exact .held e hb hw (Or.inr (nagleHolds_iff.mp hn))
    · exact .hang e hb hw (not_le.mp hu) (fun h => hn (nagleHolds_iff.mpr h))
  | succ fuel ih =>
    unfold dataLoop
    dsimp only
    split_ifs with hb hw hu hn
    · exact .empty e hb
    · exact .closed e hb hw
    · exact .held e hb hw (Or.inl hu)
    · exact .held e hb hw (Or.inr (nagleHolds_iff.mp hn))
    · exact .chunk e _ hb hw (not_le.mp hu) (fun h => hn (nagleHolds_iff.mpr h)) (ih _)

/-- With a positive MSS the buffer empties within as many passes as it has bytes. -/
theorem dataLoop_hung (fuel : Nat) (hm : 0 < e.tcb.sndMss) (hf : e.buf.appBuf.length ≤ fuel) :
    (dataLoop fuel e).1.env.hung = e.env.hung := by
  induction fuel generalizing e with
  | zero =>
    have hb : e.buf.appBuf = [] := List.length_eq_zero_iff.mp (by omega)
    unfold dataLoop
    rw [if_pos hb]
  | succ fuel ih =>
    unfold dataLoop
    dsimp only
    split_ifs with hb hw hu hn
    · rfl
    · simp
    · rfl
    · rfl
    · have hlen := List.length_pos_iff.mpr hb
      have hc : 0 < e.chunkLen := by simp only [chunkLen]; omega
      have := ih (e := e.sendChunk e.chunkLen) (by simpa using hm) (by simp; omega)
      simpa [chunkLen] using this

theorem usableWindow_sendChunk_zero : (e.sendChunk 0).usableWindow = e.usableWindow := by
  simp only [usableWindow, sendChunk_tcb, queueChunk, queueAndSend_tcb, takeChunk_tcb]
  simp only [Outgoing.endSeq, Outgoing.segLen, outgoing, takeChunk_tcb, List.take_zero,
    chunkFlags, sub_def, add_def]
  simp

/-- With no room for text in a segment the segmentation loop never ends. -/
theorem SendRun.hangs {r : TcpEngine × Bool} (h : SendRun e r) (hm : e.tcb.sndMss = 0)
    (hb : e.buf.appBuf ≠ []) (hw : e.tcb.sndWnd ≠ 0) (hu : 0 < e.usableWindow) :
    r.1.env.hung = true := by
  induction h with
  | empty e hx => exact absurd hx hb
  | closed e _ hx => exact absurd hx hw
  | held e _ _ hx =>
    rcases hx with hx | ⟨-, -, hx⟩
    · omega
    · omega
  | hang => rfl
  | chunk e r _ _ _ _ _ ih =>
    have h0 : e.chunkLen = 0 := by simp [chunkLen, hm]
    rw [h0] at ih
    refine ih (by simpa using hm) ?_ (by simpa using hw) ?_
    · simpa using hb
    · rw [usableWindow_sendChunk_zero]
      exact hu

theorem SendRun.hung {r : TcpEngine × Bool} (h : SendRun e r) (hx : e.env.hung = true) :
    r.1.env.hung = true := by
  induction h with
  | chunk e r _ _ _ _ _ ih => exact ih (by simpa using hx)
  | hang => rfl
  | _ => simpa using hx

theorem hang_armRt : e.hang.armRt = e.armRt.hang := by
  have hs : e.hang.startRt = e.startRt.hang := rfl
  have hc (i : Nat) : e.hang.tm.sched.isCancelled i = e.tm.sched.isCancelled i := rfl
  have hr : e.hang.tm.rtTimer = e.tm.rtTimer := rfl
  have hq : e.hang.buf.retx = e.buf.retx := rfl
  unfold armRt
  rw [hs, hr, hq]
  cases e.tm.rtTimer with
  | none => split <;> rfl
  | some i =>
    simp only [hc]
    split_ifs <;> rfl

theorem hang_queueAndSend (flags : Flags) (payload : List UInt8) (m : Bool) (urg : Nat) :
    e.hang.queueAndSend flags payload m urg = (e.queueAndSend flags payload m urg).hang := by
  have hseg : e.hang.segmentFor e.hang.tcb.sndNxt flags payload m urg =
      e.segmentFor e.tcb.sndNxt flags payload m urg := rfl
  have hq : e.hang.advertise.enqueue flags payload = (e.advertise.enqueue flags payload).hang := rfl
  unfold queueAndSend
  rw [hseg, hq]
  dsimp only
  split
  · rfl
  · exact hang_armRt (e := (e.advertise.enqueue flags payload).emit _)

theorem hang_sendChunk (n : Nat) : e.hang.sendChunk n = (e.sendChunk n).hang := by
  have ht : e.hang.takeChunk n = (e.takeChunk n).hang := rfl
  have hl : (e.takeChunk n).hang.lastChunk = (e.takeChunk n).lastChunk := rfl
  have hp : (e.takeChunk n).hang.psh.push = (e.takeChunk n).psh.push := rfl
  unfold sendChunk
  simp only [ht, hang_queueAndSend, hl, hp]
  split <;> rfl

/-- The loop that hangs may as well hang first. -/
theorem SendRun.hang_first {r : TcpEngine × Bool} (h : SendRun e r) (hx : r.1.env.hung = true) :
    SendRun e.hang r := by
  have heq {f : TcpEngine} (hf : f.env.hung = true) : f.hang = f := by
    rw [TcpEngine.hang, ← hf]
  induction h with
  | empty e hb => rw [heq hx]; exact .empty e hb
  | closed e hb hw => rw [heq (by simpa using hx)]; exact .closed e hb hw
  | held e hb hw hh => rw [heq hx]; exact .held e hb hw hh
  | hang e hb hw hu hn => exact .hang e.hang hb hw hu hn
  | chunk e r hb hw hu hn _ ih =>
    refine .chunk e.hang r hb hw hu hn ?_
    have hc : e.hang.chunkLen = e.chunkLen := rfl
    rw [hc, hang_sendChunk]
    exact ih hx

section SendRun

variable {r : TcpEngine × Bool}

theorem SendRun.state (h : SendRun e r) : r.1.tcb.state = e.tcb.state := by
  induction h with
  | chunk e r _ _ _ _ _ ih => simpa using ih
  | _ => simp

theorem SendRun.fin (h : SendRun e r) : r.1.fin = e.fin := by
  induction h with
  | chunk e r _ _ _ _ _ ih => simpa using ih
  | _ => simp

theorem SendRun.sndWnd (h : SendRun e r) : r.1.tcb.sndWnd = e.tcb.sndWnd := by
  induction h with
  | chunk e r _ _ _ _ _ ih => simpa using ih
  | _ => simp

theorem SendRun.exc (h : SendRun e r) : r.1.env.exc = e.env.exc := by
  induction h with
  | chunk e r _ _ _ _ _ ih => simpa using ih
  | _ => simp

theorem SendRun.appBuf_of_done (h : SendRun e r) (hd : r.2 = true) : r.1.buf.appBuf = [] := by
  induction h with
  | empty e hb => exact hb
  | chunk e r _ _ _ _ _ ih => exact ih hd
  | _ => cases hd

end SendRun

/-! ## The FIN and the whole -/

@[simp] theorem finQueued_tcb : e.finQueued.tcb =
    { e.tcb with sndNxt := (e.outgoing { ack := true, fin := true } []).endSeq } := by
  simp [finQueued]; rfl
@[simp] theorem finQueued_buf : e.finQueued.buf =
    { e.buf with retx := e.buf.retx ++ [e.outgoing { ack := true, fin := true } []] } := by
  simp [finQueued]; rfl

theorem sendFin_cases : ∃ st, e.sendFin = e.finQueued.setState st ∧
    ((e.tcb.state = .established ∧ st = .finWait1) ∨ (e.tcb.state = .closeWait ∧ st = .lastAck) ∨
      (e.tcb.state = .synReceived ∧ st = .finWait1) ∨
      (e.tcb.state ∉ [.established, .closeWait, .synReceived] ∧ st = e.tcb.state)) := by
  have hq : e.finQueued.tcb.state = e.tcb.state := by simp
  unfold sendFin
  dsimp only
  rw [hq]
  split
  · next h => exact ⟨_, rfl, by simp [h]⟩
  · next h => exact ⟨_, rfl, by simp [h]⟩
  · next h => exact ⟨_, rfl, by simp [h]⟩
  · next h1 h2 h3 =>
    refine ⟨e.tcb.state, ?_, Or.inr (Or.inr (Or.inr ⟨?_, rfl⟩))⟩
    · rw [setState, if_pos hq]
    · simp only [List.mem_cons, List.not_mem_nil, or_false, not_or]
      exact ⟨h1, h2, h3⟩

section SendFin

@[simp] theorem sendFin_conf : e.sendFin.conf = e.conf := by
  obtain ⟨st, h, -⟩ := sendFin_cases (e := e); simp [h, finQueued]
@[simp] theorem sendFin_buf : e.sendFin.buf =
    { e.buf with retx := e.buf.retx ++ [e.outgoing { ack := true, fin := true } []] } := by
  obtain ⟨st, h, -⟩ := sendFin_cases (e := e); simp [h]
@[simp] theorem sendFin_fin :
    e.sendFin.fin = { e.fin with finSeq := e.tcb.sndNxt, finSent := true } := by
  obtain ⟨st, h, -⟩ := sendFin_cases (e := e); simp [h, finQueued]
@[simp] theorem sendFin_psh : e.sendFin.psh = e.psh := by
  obtain ⟨st, h, -⟩ := sendFin_cases (e := e); simp [h, finQueued]
@[simp] theorem sendFin_hung : e.sendFin.env.hung = e.env.hung := by
  obtain ⟨st, h, -⟩ := sendFin_cases (e := e); simp [h, finQueued]
@[simp] theorem sendFin_exc : e.sendFin.env.exc = e.env.exc := by
  obtain ⟨st, h, -⟩ := sendFin_cases (e := e); simp [h, finQueued]
@[simp] theorem sendFin_persist : e.sendFin.tm.persistTimer = e.tm.persistTimer := by
  obtain ⟨st, h, -⟩ := sendFin_cases (e := e); simp [h, finQueued]
theorem sendFin_tcb : ∃ st, e.sendFin.tcb =
    { e.tcb with sndNxt := (e.outgoing { ack := true, fin := true } []).endSeq, state := st } ∧
    ((e.tcb.state = .established ∧ st = .finWait1) ∨ (e.tcb.state = .closeWait ∧ st = .lastAck) ∨
      (e.tcb.state = .synReceived ∧ st = .finWait1) ∨
      (e.tcb.state ∉ [.established, .closeWait, .synReceived] ∧ st = e.tcb.state)) := by
  obtain ⟨st, h, hst⟩ := sendFin_cases (e := e)
  exact ⟨st, by simp [h], hst⟩

end SendFin

theorem finPart_cases :
    (¬ e.FinDue ∧ e.finPart = e) ∨
    (e.FinDue ∧ e.tcb.sndWnd = 0 ∧ e.finPart = e.armPersist) ∨
    (e.FinDue ∧ e.tcb.sndWnd ≠ 0 ∧ e.usableWindow < 1 ∧ e.finPart = e) ∨
    (e.FinDue ∧ e.tcb.sndWnd ≠ 0 ∧ 1 ≤ e.usableWindow ∧ e.finPart = e.sendFin) := by
  have hdue : (e.fin.finPending && !e.fin.finSent && e.buf.appBuf.isEmpty) = true ↔ e.FinDue := by
    simp [FinDue, and_assoc]
  unfold finPart
  split_ifs with hd hw hu
  · exact Or.inr (Or.inl ⟨hdue.mp hd, hw, rfl⟩)
  · exact Or.inr (Or.inr (Or.inl ⟨hdue.mp hd, hw, hu, rfl⟩))
  · exact Or.inr (Or.inr (Or.inr ⟨hdue.mp hd, hw, not_lt.mp hu, rfl⟩))
  · exact Or.inl ⟨fun h => hd (hdue.mpr h), rfl⟩

theorem sendPending_cases :
    (¬ e.CanSend ∧ e.sendPending = e) ∨
    (e.CanSend ∧ SendRun e (e.sendPending, false)) ∨
    (e.CanSend ∧ ∃ f, SendRun e (f, true) ∧ e.sendPending = f.finPart) := by
  by_cases h : e.CanSend
  · apply Or.inr
    have hs : e.sendPending = (if (e.dataLoop e.buf.appBuf.length).2 then
        (e.dataLoop e.buf.appBuf.length).1.finPart else (e.dataLoop e.buf.appBuf.length).1) :=
      if_pos h
    have hr := dataLoop_run e.buf.appBuf.length e
    rcases hl : e.dataLoop e.buf.appBuf.length with ⟨f, b⟩
    rw [hl] at hs hr
    cases b with
    | true => exact Or.inr ⟨h, f, hr, hs⟩
    | false =>
      rw [if_neg (by simp)] at hs
      exact Or.inl ⟨h, hs ▸ hr⟩
  · exact Or.inl ⟨h, if_neg h⟩

theorem sendPending_of_not_canSend (h : ¬ e.CanSend) : e.sendPending = e := if_neg h

/-! ## Drained engines -/

/-- `_send_pending` has nothing it may send: the window is closed and the persist
timer armed, or full, or Nagle holds the data back. -/
def Drained (e : TcpEngine) : Prop :=
  e.CanSend → e.Waiting →
    if e.tcb.sndWnd = 0 then e.tm.persistTimer ≠ none
    else e.usableWindow ≤ 0 ∨ (e.buf.appBuf ≠ [] ∧ e.NagleHolds)

/-- What being drained depends on. -/
structure SendView where
  state : ConnState
  finPending : Bool
  finSent : Bool
  appBuf : List UInt8
  sndWnd : Nat
  usable : Int
  sndMss : Nat
  nagle : Bool
  idle : Bool
  persist : Bool

def sendView (e : TcpEngine) : SendView where
  state := e.tcb.state
  finPending := e.fin.finPending
  finSent := e.fin.finSent
  appBuf := e.buf.appBuf
  sndWnd := e.tcb.sndWnd
  usable := e.usableWindow
  sndMss := e.tcb.sndMss
  nagle := e.conf.cfg.nagle
  idle := e.buf.retx.isEmpty
  persist := e.tm.persistTimer.isSome

theorem Drained.of_view {e' : TcpEngine} (h : e.Drained) (hv : e'.sendView = e.sendView) :
    e'.Drained := by
  simp only [sendView, SendView.mk.injEq] at hv
  obtain ⟨h1, h2, h3, h4, h5, h6, h7, h8, h9, h10⟩ := hv
  have hr : e'.buf.retx = [] ↔ e.buf.retx = [] := by
    rw [← List.isEmpty_iff, ← List.isEmpty_iff, h9]
  have hp : e'.tm.persistTimer = none ↔ e.tm.persistTimer = none := by
    rw [← Option.isNone_iff_eq_none, ← Option.isNone_iff_eq_none, ← Option.not_isSome, h10,
      Option.not_isSome]
  simpa only [Drained, CanSend, Waiting, FinDue, NagleHolds, chunkLen, h1, h2, h3, h4, h5, h6, h7,
    h8, ne_eq, hr, hp] using h

theorem drained_of_not_canSend (h : ¬ e.CanSend) : e.Drained := fun hc => absurd hc h

theorem drained_armPersist (hw : e.tcb.sndWnd = 0) : e.armPersist.Drained := by
  intro _ _
  rw [if_pos (by simpa using hw)]
  unfold armPersist
  split
  · next h hp =>
    split
    · rw [hp]; simp
    · simp
  · simp

theorem SendRun.drained {r : TcpEngine × Bool} (h : SendRun e r) (hd : r.2 = false)
    (hx : r.1.env.hung = false) : r.1.Drained := by
  induction h with
  | empty => cases hd
  | closed e _ hw => exact drained_armPersist hw
  | held e hb hw hh =>
    intro _ _
    rw [if_neg hw]
    exact hh.imp id fun hn => ⟨hb, hn⟩
  | hang => cases hx
  | chunk e r _ _ _ _ _ ih => exact ih hd hx

theorem finPart_drained (hb : e.buf.appBuf = []) : e.finPart.Drained := by
  obtain ⟨hd, h⟩ | ⟨hd, hw, h⟩ | ⟨hd, hw, hu, h⟩ | ⟨hd, hw, hu, h⟩ := finPart_cases (e := e)
  · rw [h]
    exact fun _ hwait => absurd hwait (by simp [Waiting, hb, hd])
  · rw [h]
    exact drained_armPersist hw
  · rw [h]
    intro _ _
    rw [if_neg hw]
    exact Or.inl (by omega)
  · rw [h]
    exact fun _ hwait => absurd hwait (by simp [Waiting, FinDue, hb])

/-- `_send_pending` leaves nothing that could be sent. -/
theorem drained_sendPending (hx : e.sendPending.env.hung = false) :
    e.sendPending.Drained := by
  obtain ⟨hc, h⟩ | ⟨hc, hr⟩ | ⟨hc, f, hr, h⟩ := sendPending_cases (e := e)
  · rw [h]
    exact drained_of_not_canSend hc
  · exact hr.drained rfl hx
  · rw [h]
    exact finPart_drained (hr.appBuf_of_done rfl)

theorem sendPending_exc : e.sendPending.env.exc = e.env.exc := by
  obtain ⟨-, h⟩ | ⟨-, hr⟩ | ⟨-, f, hr, h⟩ := sendPending_cases (e := e)
  · rw [h]
  · exact hr.exc
  · have hf : f.finPart.env.exc = f.env.exc := by
      obtain ⟨-, h⟩ | ⟨-, -, h⟩ | ⟨-, -, -, h⟩ | ⟨-, -, -, h⟩ := finPart_cases (e := f) <;>
        simp [h]
    rw [h, hf]
    exact hr.exc

/-- The state after `_send_pending`: a FIN may have gone out. -/
theorem sendPending_state :
    (e.sendPending.tcb.state = e.tcb.state ∧ e.sendPending.fin = e.fin) ∨
    (((e.tcb.state = .established ∨ e.tcb.state = .synReceived) ∧
        e.sendPending.tcb.state = .finWait1 ∨
      e.tcb.state = .closeWait ∧ e.sendPending.tcb.state = .lastAck) ∧
      ∃ s, e.sendPending.fin = { e.fin with finSeq := s, finSent := true }) := by
  obtain ⟨-, h⟩ | ⟨-, hr⟩ | ⟨hc, f, hr, h⟩ := sendPending_cases (e := e)
  · exact Or.inl (by rw [h]; exact ⟨rfl, rfl⟩)
  · exact Or.inl ⟨hr.state, hr.fin⟩
  · rw [h]
    have hs := hr.state
    have hf := hr.fin
    dsimp only at hs hf
    obtain ⟨-, hp⟩ | ⟨-, -, hp⟩ | ⟨-, -, -, hp⟩ | ⟨-, -, -, hp⟩ := finPart_cases (e := f)
    · rw [hp]; exact Or.inl ⟨hs, hf⟩
    · rw [hp]; exact Or.inl ⟨by simpa using hs, by simpa using hf⟩
    · rw [hp]; exact Or.inl ⟨hs, hf⟩
    · rw [hp]
      refine Or.inr ⟨?_, ⟨_, by rw [sendFin_fin, hf]⟩⟩
      obtain ⟨st, ht, hst⟩ := sendFin_tcb (e := f)
      rw [ht]
      rw [hs] at hst
      rcases hc with hc | hc | ⟨hc, -⟩ <;> simp [hc] at hst ⊢ <;> exact hst

/-! ## Closing a drained engine -/

/-- What is left of `_enter_closed` after the persist timer has been dealt with. -/
def shutDown (e : TcpEngine) : TcpEngine :=
  e.cancelKeepalive.cancelTwTimer.cancelAckTimer.closeDown

/-- The engine may not send anything now. -/
def Blocked (e : TcpEngine) : Prop :=
  e.CanSend → e.Waiting → e.tcb.sndWnd = 0 ∨ e.usableWindow ≤ 0 ∨ (e.buf.appBuf ≠ [] ∧ e.NagleHolds)

theorem Drained.blocked (h : e.Drained) : e.Blocked := by
  intro hc hw
  have hd := h hc hw
  split_ifs at hd with h0
  · exact Or.inl h0
  · exact Or.inr hd

/-- A blocked engine sends nothing; it arms the persist timer when something is
stuck behind a closed window. -/
theorem sendPending_of_blocked (h : e.Blocked) :
    e.sendPending = if e.Stuck then e.armPersist else e := by
  by_cases hc : e.CanSend
  swap
  · rw [if_neg (fun hs => hc hs.1)]
    exact sendPending_of_not_canSend hc
  have hnot : e.buf.appBuf ≠ [] → e.tcb.sndWnd ≠ 0 → 0 < e.usableWindow → e.NagleHolds := by
    intro hb h0 hu
    obtain h | h | ⟨-, h⟩ := h hc (Or.inl hb)
    · exact absurd h h0
    · omega
    · exact h
  obtain ⟨hn, -⟩ | ⟨-, hr⟩ | ⟨-, f, hr, hf⟩ := sendPending_cases (e := e)
  · exact absurd hc hn
  · generalize e.sendPending = f at hr ⊢
    cases hr with
    | closed _ hb hw => rw [if_pos ⟨hc, Or.inl hb, hw⟩]
    | held _ hb hw _ => rw [if_neg (fun hs => hw hs.2.2)]
    | hang _ hb hw hu hn => exact absurd (hnot hb hw hu) hn
    | chunk _ _ hb hw hu hn _ => exact absurd (hnot hb hw hu) hn
  · rw [hf]
    cases hr with
    | chunk _ _ hb hw hu hn _ => exact absurd (hnot hb hw hu) hn
    | empty _ hb =>
      have hd : e.Stuck ↔ e.FinDue ∧ e.tcb.sndWnd = 0 := by
        simp [Stuck, hc, Waiting, hb]
      rw [if_congr hd rfl rfl]
      obtain ⟨hd, hp⟩ | ⟨hd, hw, hp⟩ | ⟨hd, hw, hu, hp⟩ | ⟨hd, hw, hu, hp⟩ :=
        finPart_cases (e := e)
      · rw [hp, if_neg (fun hs => hd hs.1)]
      · rw [hp, if_pos ⟨hd, hw⟩]
      · rw [hp, if_neg (fun hs => hw hs.2)]
      · obtain h | h | ⟨h, -⟩ := h hc (Or.inr hd)
        · exact absurd h hw
        · omega
        · exact absurd hb h

/-- On a blocked engine `_cancel_persist` sends nothing either. -/
theorem cancelPersist_of_blocked (h : e.Blocked) :
    e.cancelPersist = if e.Stuck then e.dropPersistTimer.armPersist else e.dropPersistTimer :=
  sendPending_of_blocked (e := e.dropPersistTimer) h

theorem enterClosed_of_blocked (h : e.Blocked) :
    e.enterClosed = if e.Stuck then e.stopRt.dropPersistTimer.armPersist.shutDown
      else e.stopRt.dropPersistTimer.shutDown := by
  have hs := cancelPersist_of_blocked (e := e.stopRt) h
  have : e.enterClosed = e.stopRt.cancelPersist.shutDown := rfl
  rw [this, hs]
  exact apply_ite shutDown _ _ _

theorem enterTimeWait_eq (h : ¬ e.CanSend) :
    e.enterTimeWait = (e.stopRt.dropPersistTimer.setState .timeWait).armTwTimer := by
  have : e.stopRt.cancelPersist = e.stopRt.dropPersistTimer :=
    sendPending_of_not_canSend (e := e.stopRt.dropPersistTimer) h
  rw [enterTimeWait, this]

/-- A passive open that is reset goes back to LISTEN. -/
theorem doReset_listen (hs : e.tcb.state = .synReceived) (hp : e.fin.passive = true) :
    e.doReset = ((e.setState .listen).resetBuffers.stopRt.dropPersistTimer).restorePort := by
  have : (e.setState .listen).resetBuffers.stopRt.cancelPersist =
      (e.setState .listen).resetBuffers.stopRt.dropPersistTimer :=
    sendPending_of_not_canSend (by simp [CanSend])
  rw [doReset, if_pos (by simp [hs, hp]), this]

theorem doReset_close (h : ¬ (e.tcb.state = .synReceived ∧ e.fin.passive = true)) :
    ∃ msg, msg ≠ "retransmission timeout" ∧ e.doReset = (e.signalError msg).enterClosed := by
  unfold doReset
  rw [if_neg (by simpa using h)]
  split
  · exact ⟨_, by decide, rfl⟩
  · exact ⟨_, by decide, rfl⟩

theorem Blocked.of_view {e' : TcpEngine} (h : e.Blocked) (hv : e'.sendView = e.sendView) :
    e'.Blocked := by
  simp only [sendView, SendView.mk.injEq] at hv
  obtain ⟨h1, h2, h3, h4, h5, h6, h7, h8, h9, -⟩ := hv
  have hr : e'.buf.retx = [] ↔ e.buf.retx = [] := by
    rw [← List.isEmpty_iff, ← List.isEmpty_iff, h9]
  simpa only [Blocked, CanSend, Waiting, FinDue, NagleHolds, chunkLen, h1, h2, h3, h4, h5, h6, h7,
    h8, ne_eq, hr] using h

theorem blocked_of_not_canSend (h : ¬ e.CanSend) : e.Blocked := fun hc => absurd hc h

end TcpEngine

end HdlPlayground.Tcp

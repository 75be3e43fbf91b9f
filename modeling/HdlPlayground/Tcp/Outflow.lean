import HdlPlayground.Tcp.Arrivals
import HdlPlayground.Tcp.Window

/-!
# What an entry point sends

SND.UNA and SND.WND change when a segment is accepted, and only then; what is sent next
fits the usable window that they leave. Everything else leaves the send variables alone,
but for the SYN of a new connection and the zero-window probe, which sends one number
whatever the window says.
-/
namespace HdlPlayground.Tcp

/-- The segment carries text or a FIN. -/
def TcpSegment.Weighs (seg : TcpSegment) : Prop := seg.payload ≠ [] ∨ seg.fin = true

instance (seg : TcpSegment) : Decidable seg.Weighs := inferInstanceAs (Decidable (_ ∨ _))

theorem TcpSegment.Weighs.segLen_pos {seg : TcpSegment} (h : seg.Weighs) : 0 < seg.segLen := by
  unfold TcpSegment.segLen
  rcases h with h | h
  · have := List.length_pos_iff.mpr h
    omega
  · rw [h, Bool.toNat_true]
    omega

namespace TcpEngine

variable {a : Action} {e e' f g : TcpEngine} {n m : Nat}

/-- The ACK-bearing segments of its connection that an engine accepts. -/
def accepts (e : TcpEngine) (seg : TcpSegment) : Bool :=
  seg.ackFlag && !seg.rst &&
    match e.tcb.state with
    | .closed | .listen | .timeWait => false
    | .synSent => seg.syn && seqGt seg.ack e.tcb.iss && seqLeq seg.ack e.tcb.sndNxt
    | .synReceived =>
      !seg.syn && acceptable seg.seq seg.segLen e.tcb.rcvNxt e.rcvWnd &&
        (seqLt e.tcb.sndUna seg.ack && seqLeq seg.ack e.tcb.sndNxt)
    | _ =>
      !seg.syn && acceptable seg.seq seg.segLen e.tcb.rcvNxt e.rcvWnd &&
        !seqGt seg.ack e.tcb.sndNxt

/-- The segment an action brings, if the engine accepts its acknowledgement. -/
def accepted (e : TcpEngine) : Action → Option TcpSegment
  | .segment data =>
    match TcpSegment.parse data with
    | .ok seg => if e.Addressed seg ∧ e.accepts seg = true then some seg else none
    | .error _ => none
  | _ => none

/-- The persist timer expires in a closed window with something to send. -/
def Probes (e : TcpEngine) : Action → Prop
  | .expire h => h.cb = .onPersist ∧ e.tcb.sndWnd = 0 ∧ e.Waiting
  | _ => False

instance : (a : Action) → Decidable (e.Probes a)
  | .expire h => inferInstanceAs (Decidable (h.cb = .onPersist ∧ e.tcb.sndWnd = 0 ∧ e.Waiting))
  | .tick _ | .random _ | .openCall .. | .activeOpen | .passiveOpen | .send .. | .receive _
  | .close | .abort | .segment _ => inferInstanceAs (Decidable False)

/-- The guard of the window update. -/
def takesWindow (e : TcpEngine) (seg : TcpSegment) : Bool :=
  seqLt e.tcb.sndWl1 seg.seq || (e.tcb.sndWl1 == seg.seq && seqLeq e.tcb.sndWl2 seg.ack)

/-! ## What leaves the send side alone -/

/-- The event transmits neither text nor a FIN. -/
def Light (ev : Event) : Prop := ∀ seg, ev = .tx seg → ¬ seg.Weighs

theorem Light.of_eq {seg : TcpSegment} (hp : seg.payload = []) (hf : seg.fin = false) :
    Light (.tx seg) := by
  rintro s h hw
  obtain rfl := Event.tx.inj h
  rcases hw with hw | hw
  · exact hw hp
  · rw [hf] at hw
    cases hw

theorem light_ack (g : TcpEngine) : Light (.tx g.ackSegment) := .of_eq rfl rfl

theorem light_stateChange (o n : ConnState) : Light (.stateChange o n) := by
  rintro seg h
  cases h

/-- It transmits neither, except by a retransmission. -/
def Plain (e : TcpEngine) (ev : Event) : Prop :=
  ∀ seg, ev = .tx seg → seg.Weighs → ∃ o ∈ e.buf.retx, Transmits o seg

theorem Light.plain {ev : Event} (h : Light ev) : e.Plain ev :=
  fun seg hseg hw => absurd hw (h seg hseg)

/-- The send variables are as they were, and nothing new has been sent. -/
structure Quiet (e f : TcpEngine) : Prop where
  iss : f.tcb.iss = e.tcb.iss
  una : f.tcb.sndUna = e.tcb.sndUna
  nxt : f.tcb.sndNxt = e.tcb.sndNxt
  wnd : f.tcb.sndWnd = e.tcb.sndWnd
  state : f.tcb.state = e.tcb.state ∨ f.Outside
  log : Logs e.Plain e f

theorem Quiet.of_tcb (h : f.tcb = e.tcb) (hl : Logs Light e f) : Quiet e f :=
  ⟨by rw [h], by rw [h], by rw [h], by rw [h], Or.inl (by rw [h]), hl.mono fun _ => Light.plain⟩

theorem Quiet.of_closed (h : f.tcb = { e.tcb with state := .closed }) (hl : Logs Light e f) :
    Quiet e f :=
  ⟨by rw [h], by rw [h], by rw [h], by rw [h], Or.inr (by simp [Outside, h]),
    hl.mono fun _ => Light.plain⟩

/-- From `e` to `f` the next `n` numbers have been sent. -/
structure Grows (n : Nat) (e f : TcpEngine) : Prop where
  una : f.tcb.sndUna = e.tcb.sndUna
  wnd : f.tcb.sndWnd = e.tcb.sndWnd
  nxt : (f.tcb.sndNxt - e.tcb.sndNxt - n) % 4294967296 = 0
  state : f.tcb.state = e.tcb.state ∨ f.Outside ∨ f.tcb.state ∈ LaterStates
  log : Logs (fun ev => ∀ seg, ev = .tx seg → seg.Weighs →
    ∃ i : Nat, (seg.seq - e.tcb.sndNxt - i) % 4294967296 = 0 ∧ i + seg.segLen ≤ n) e f

/-- They have been sent within the usable window. -/
structure Sends (n : Nat) (e f : TcpEngine) : Prop extends Grows n e f where
  room : n = 0 ∨ (n : Int) ≤ e.usableWindow

theorem usableWindow_def : e.usableWindow =
    s32 (e.tcb.sndUna + e.tcb.sndWnd - e.tcb.sndNxt) := by
  rw [usableWindow, sub_def, add_def, s32_def, s32_def]
  split <;> split <;> omega

theorem Sends.usable (h : Sends n e f) : f.usableWindow = e.usableWindow - n := by
  have hn := h.nxt
  have hr := h.room
  rw [usableWindow_def, s32_def] at hr ⊢
  rw [usableWindow_def, s32_def, h.una, h.wnd]
  split at hr <;> split <;> omega

theorem Grows.trans (h : Grows n e f) (h' : Grows m f g) : Grows (n + m) e g where
  una := h'.una.trans h.una
  wnd := h'.wnd.trans h.wnd
  nxt := by
    have h1 := h.nxt
    have h2 := h'.nxt
    omega
  state := by
    rcases h'.state with hs | hs | hs
    · rw [hs, Outside, hs]
      exact h.state
    · exact Or.inr (Or.inl hs)
    · exact Or.inr (Or.inr hs)
  log := by
    have hn := h.nxt
    obtain ⟨evs, he, hp⟩ := h.log
    obtain ⟨evs', he', hp'⟩ := h'.log
    refine ⟨evs ++ evs', by rw [he', he, List.append_assoc], fun ev hm seg hseg hw => ?_⟩
    rcases List.mem_append.mp hm with hm | hm
    · obtain ⟨i, hi, hle⟩ := hp ev hm seg hseg hw
      exact ⟨i, hi, by omega⟩
    · obtain ⟨i, hi, hle⟩ := hp' ev hm seg hseg hw
      exact ⟨n + i, by omega, by omega⟩

theorem Sends.trans (h : Sends n e f) (h' : Sends m f g) : Sends (n + m) e g := by
  refine ⟨h.toGrows.trans h'.toGrows, ?_⟩
  have h1 := h.room
  have h2 := h'.room
  rw [h.usable] at h2
  omega

theorem Grows.still (hu : f.tcb.sndUna = e.tcb.sndUna) (hn : f.tcb.sndNxt = e.tcb.sndNxt)
    (hw : f.tcb.sndWnd = e.tcb.sndWnd)
    (hs : f.tcb.state = e.tcb.state ∨ f.Outside ∨ f.tcb.state ∈ LaterStates)
    (hl : Logs Light e f) : Grows 0 e f := by
  refine ⟨hu, hw, by rw [hn]; omega, hs, ?_⟩
  obtain ⟨evs, he, hp⟩ := hl
  exact ⟨evs, he, fun ev hm seg hseg hx => absurd hx (hp ev hm seg hseg)⟩

/-- Some numbers have been sent, within the usable window. -/
def Spends (e f : TcpEngine) : Prop := ∃ n, Sends n e f

theorem Spends.trans (h : Spends e f) (h' : Spends f g) : Spends e g := by
  obtain ⟨n, hn⟩ := h
  obtain ⟨m, hm⟩ := h'
  exact ⟨n + m, hn.trans hm⟩

theorem Spends.still (hu : f.tcb.sndUna = e.tcb.sndUna) (hn : f.tcb.sndNxt = e.tcb.sndNxt)
    (hw : f.tcb.sndWnd = e.tcb.sndWnd)
    (hs : f.tcb.state = e.tcb.state ∨ f.Outside ∨ f.tcb.state ∈ LaterStates)
    (hl : Logs Light e f) : Spends e f :=
  ⟨0, .still hu hn hw hs hl, Or.inl rfl⟩

theorem Spends.of_tcb (h : f.tcb = e.tcb) (hl : Logs Light e f) : Spends e f :=
  .still (by rw [h]) (by rw [h]) (by rw [h]) (Or.inl (by rw [h])) hl

theorem Spends.refl (e : TcpEngine) : Spends e e := .of_tcb rfl (.none rfl)

/-! ## The send path -/

/-- An entry of `n` numbers goes on the queue. -/
theorem queueAndSend_grows {flags : Flags} {payload : List UInt8} (urg : Nat)
    (hfl : flags.syn = false) (hl : payload.length + flags.fin.toNat = n) :
    Grows n e (e.queueAndSend flags payload false urg) := by
  have hlen : (e.outgoing flags payload).segLen = n := by
    show payload.length + flags.syn.toNat + flags.fin.toNat = n
    rw [hfl, Bool.toNat_false, Nat.add_zero]
    exact hl
  refine ⟨by simp, by simp, ?_, Or.inl (by simp), ?_⟩
  · rw [queueAndSend_tcb]
    show ((e.outgoing flags payload).endSeq - e.tcb.sndNxt - n) % 4294967296 = 0
    rw [Outgoing.endSeq, hlen, add_def]
    show ((e.tcb.sndNxt + n) % 4294967296 - e.tcb.sndNxt - n) % 4294967296 = 0
    omega
  · apply queueAndSend_logs
    intro seg hseg _
    obtain rfl := Event.tx.inj hseg
    refine ⟨0, ?_, ?_⟩
    · show (e.tcb.sndNxt - e.tcb.sndNxt - ((0 : Nat) : Int)) % 4294967296 = 0
      omega
    · show 0 + (payload.length + flags.syn.toNat + flags.fin.toNat) ≤ n
      rw [hfl, Bool.toNat_false]
      omega

theorem sendChunk_sends (hu : 0 < e.usableWindow) :
    Sends e.chunkLen e (e.sendChunk e.chunkLen) := by
  have hle : e.chunkLen ≤ e.buf.appBuf.length ∧ (e.chunkLen : Int) ≤ e.usableWindow := by
    unfold chunkLen
    omega
  have h : Grows e.chunkLen (e.takeChunk e.chunkLen) (e.queueChunk e.chunkLen) :=
    queueAndSend_grows _ rfl (by simp [chunkFlags, hle.1])
  obtain ⟨psh, hp⟩ := sendChunk_eq (e := e) e.chunkLen
  rw [hp]
  exact ⟨⟨h.una, h.wnd, h.nxt, h.state, h.log⟩, Or.inr hle.2⟩

theorem SendRun.spends {r : TcpEngine × Bool} (h : SendRun e r) : Spends e r.1 := by
  induction h with
  | empty e _ => exact .refl e
  | closed e _ _ => exact .of_tcb (by simp) (.none (by simp))
  | held e _ _ _ => exact .refl e
  | hang e _ _ _ _ => exact .of_tcb rfl (.none rfl)
  | chunk e r _ _ hu _ _ ih => exact Spends.trans ⟨_, sendChunk_sends hu⟩ ih

theorem setState_spends {st : ConnState} (hs : st = .closed ∨ st ∈ LaterStates) :
    Spends e (e.setState st) := by
  refine .still (by simp) (by simp) (by simp) (Or.inr ?_)
    (setState_logs st fun _ => light_stateChange _ _)
  rcases hs with rfl | hs
  · exact Or.inl (by simp [Outside])
  · exact Or.inr (by simpa using hs)

/-- The FIN goes out. -/
theorem sendFin_grows : Grows 1 e e.sendFin := by
  have h : Grows 1 { e with fin := { e.fin with finSeq := e.tcb.sndNxt } }
      ({ e with fin := { e.fin with finSeq := e.tcb.sndNxt } }.queueAndSend
        { ack := true, fin := true } [] false 0) := queueAndSend_grows 0 rfl rfl
  have hq : Grows 1 e e.finQueued := ⟨h.una, h.wnd, h.nxt, h.state, h.log⟩
  obtain ⟨st, hf, hst⟩ := sendFin_cases (e := e)
  have hn : Grows (1 + 0) e (e.finQueued.setState st) := by
    refine hq.trans (.still (by simp) (by simp) (by simp) ?_
      (setState_logs st fun _ => light_stateChange _ _))
    rcases hst with ⟨-, rfl⟩ | ⟨-, rfl⟩ | ⟨-, rfl⟩ | ⟨-, rfl⟩
    · exact Or.inr (Or.inr (by simp))
    · exact Or.inr (Or.inr (by simp))
    · exact Or.inr (Or.inr (by simp))
    · exact Or.inl (by simp)
  rw [hf]
  exact hn

theorem finPart_spends : Spends e e.finPart := by
  rcases e.finPart_cases with ⟨-, h⟩ | ⟨-, -, h⟩ | ⟨-, -, -, h⟩ | ⟨-, -, hu, h⟩
  · rw [h]; exact .refl e
  · rw [h]; exact .of_tcb (by simp) (.none (by simp))
  · rw [h]; exact .refl e
  · rw [h]; exact ⟨1, sendFin_grows, Or.inr hu⟩

theorem sendPending_spends : Spends e e.sendPending := by
  rcases e.sendPending_cases with ⟨-, h⟩ | ⟨-, h⟩ | ⟨-, f, h, hf⟩
  · rw [h]; exact .refl e
  · exact h.spends
  · rw [hf]; exact h.spends.trans finPart_spends

theorem cancelPersist_spends : Spends e e.cancelPersist :=
  Spends.trans (f := e.dropPersistTimer) (.of_tcb rfl (.none rfl)) sendPending_spends

/-! ## What follows an acknowledgement -/

theorem recvData_spends (seg : TcpSegment) : Spends e (e.recvData seg) := by
  obtain ⟨r, u, ht⟩ := (recvData_frame e seg).tcb
  refine .still (by rw [ht]) (by rw [ht]) (by rw [ht]) (Or.inl (by rw [ht])) ?_
  exact recvData_logs light_ack (fun _ _ h => nomatch h) seg

theorem mergeReassembly_spends : Spends e e.mergeReassembly := by
  obtain ⟨r, u, ht⟩ := (mergeReassembly_frame e).tcb
  refine .still (by rw [ht]) (by rw [ht]) (by rw [ht]) (Or.inl (by rw [ht])) ?_
  exact mergeLoop_logs (fun _ _ h => nomatch h) _

theorem sendAck_spends : Spends e e.sendAck :=
  .of_tcb (by simp) (.one _ (by simp) (light_ack e))

theorem enterTimeWait_spends : Spends e e.enterTimeWait :=
  Spends.trans (f := e.stopRt) (.of_tcb rfl (.none rfl))
    (cancelPersist_spends.trans ((setState_spends (Or.inr (by simp))).trans
      (.of_tcb rfl (.none rfl))))

theorem enterClosed_spends : Spends e e.enterClosed := by
  have hc : Spends e.stopRt.cancelPersist e.enterClosed :=
    Spends.trans
      (f := e.stopRt.cancelPersist.cancelKeepalive.cancelTwTimer.cancelAckTimer.resetBuffers)
      (.of_tcb rfl (.none rfl)) (setState_spends (Or.inl rfl))
  exact Spends.trans (f := e.stopRt) (.of_tcb rfl (.none rfl)) (cancelPersist_spends.trans hc)

theorem processFin_spends : Spends e e.processFin := by
  have hl : Logs Light e e.processFin :=
    processFin_logs (fun _ h => nomatch h) (light_ack _) fun _ => light_stateChange _ _
  obtain ⟨st, hst, h⟩ | ⟨-, h⟩ := processFin_cases (e := e)
  · refine .still (by simp [h]) (by simp [h]) (by simp [h]) ?_ hl
    rw [h, setState_tcb]
    rcases hst with ⟨-, rfl⟩ | ⟨-, rfl⟩ | ⟨-, rfl⟩
    · exact Or.inr (Or.inr (by simp))
    · exact Or.inr (Or.inr (by simp))
    · exact Or.inl rfl
  · exact .still (by simp [h]) (by simp [h]) (by simp [h]) (Or.inr (Or.inr (by simp [h]))) hl

theorem finCheck_spends (seg : TcpSegment) : Spends e (e.finCheck seg) := by
  unfold finCheck
  dsimp only
  split_ifs
  · exact processFin_spends
  · exact .of_tcb rfl (.none rfl)
  · exact .refl e
  · exact .refl e

theorem checkPendingFin_spends : Spends e e.checkPendingFin := by
  unfold checkPendingFin
  split
  · exact processFin_spends
  · exact .refl e

theorem textAndFin_spends (seg : TcpSegment) : Spends e (e.textAndFin seg) := by
  unfold textAndFin
  dsimp only
  split
  · exact (recvData_spends seg).trans (sendPending_spends.trans
      ((finCheck_spends seg).trans checkPendingFin_spends))
  · exact sendPending_spends.trans ((finCheck_spends seg).trans checkPendingFin_spends)

/-! ## What an acknowledgement sets -/

/-- The send variables once an accepted segment has set them. -/
structure Landed (e : TcpEngine) (seg : TcpSegment) (g : TcpEngine) : Prop where
  nxt : g.tcb.sndNxt = e.tcb.sndNxt
  log : g.env.log = e.env.log
  state : g.tcb.state ∈ OpenStates
  opening : e.tcb.state ∈ [.synSent, .synReceived] →
    g.tcb.sndUna = seg.ack ∧ g.tcb.sndWnd = seg.window
  una : e.tcb.state ∈ OpenStates →
    g.tcb.sndUna = if seqGt seg.ack e.tcb.sndUna then seg.ack else e.tcb.sndUna
  wnd : e.tcb.state ∈ OpenStates →
    g.tcb.sndWnd = if e.takesWindow seg then seg.window else e.tcb.sndWnd

/-- The window update sends what the new window has room for. -/
theorem windowUpdate_spends (seg : TcpSegment) :
    Spends (if e.takesWindow seg then e.setSendWindow seg.window seg.seq seg.ack else e)
      (e.windowUpdate seg) := by
  unfold windowUpdate takesWindow
  dsimp only
  split_ifs
  · exact cancelPersist_spends
  · exact .refl _
  · exact .refl _

/-- After the handshake an acceptable acknowledgement sets the send variables first. -/
theorem establishedAck_lands {seg : TcpSegment} (hs : e.tcb.state ∈ OpenStates)
    (hle : seqGt seg.ack e.tcb.sndNxt = false) :
    ∃ g, Landed e seg g ∧ Spends g (e.establishedAck seg) := by
  have hopen : e.tcb.state ∉ [.synSent, .synReceived] := by
    intro h
    rcases List.mem_pair.mp h with h | h
    · rw [h] at hs
      simp at hs
    · rw [h] at hs
      simp at hs
  rw [establishedAck, if_neg (by simp [hle])]
  dsimp only
  generalize hk : (if seqGt seg.ack e.tcb.sndUna then e.processAck seg.ack else e) = k
  have hkt : k.tcb = { e.tcb with
      sndUna := if seqGt seg.ack e.tcb.sndUna then seg.ack else e.tcb.sndUna } := by
    rw [← hk]
    split
    · simp
    · rfl
  have hkl : k.env.log = e.env.log := by
    rw [← hk]
    split
    · simp
    · rfl
  have hkw : k.takesWindow seg = e.takesWindow seg := by
    rw [takesWindow, takesWindow, hkt]
  have hw := windowUpdate_spends (e := k) seg
  rw [hkw] at hw
  refine ⟨if e.takesWindow seg then k.setSendWindow seg.window seg.seq seg.ack else k,
    ⟨?_, ?_, ?_, fun h => absurd h hopen, fun _ => ?_, fun _ => ?_⟩, hw.trans ?_⟩
  · split <;> simp [hkt]
  · split <;> simp [hkl]
  · split <;> simpa [hkt] using hs
  · split <;> simp [hkt]
  · split <;> simp [hkt]
  · split_ifs
    · exact (setState_spends (Or.inr (by simp))).trans (textAndFin_spends seg)
    · exact enterTimeWait_spends
    · exact enterClosed_spends
    · exact textAndFin_spends seg

/-- The acknowledgement that completes the handshake. -/
theorem synReceivedAck_lands {seg : TcpSegment} (hs : e.tcb.state = .synReceived)
    (ha : seqLt e.tcb.sndUna seg.ack = true ∧ seqLeq seg.ack e.tcb.sndNxt = true) :
    ∃ g, Landed e seg g ∧ Spends g (e.synReceivedAck seg) := by
  rw [synReceivedAck, if_pos (by simp [ha])]
  dsimp only
  refine ⟨(((e.processAck seg.ack).setSendWindow seg.window seg.seq seg.ack).withState
    .established), ⟨by simp [withState], by simp [withState], by simp [withState],
    fun _ => by simp [withState], fun h => by simp [hs] at h, fun h => by simp [hs] at h⟩, ?_⟩
  refine Spends.trans (.still ?_ ?_ ?_ (Or.inl ?_) ?_)
    (mergeReassembly_spends.trans (sendPending_spends.trans (textAndFin_spends seg)))
  · simp [withState]
  · simp [withState]
  · simp [withState]
  · simp [withState]
  · exact setState_logs (e := (e.processAck seg.ack).setSendWindow seg.window seg.seq seg.ack)
      .established fun _ => light_stateChange _ _

theorem doReset_spends (hs : e.tcb.state ∈ OpenStates) : Spends e e.doReset := by
  have hne : e.tcb.state ≠ .synReceived := fun h => by simp [h] at hs
  unfold doReset
  rw [if_neg (by simp [hne]), if_neg hne]
  exact Spends.trans (f := e.signalError "connection reset")
    (.of_tcb rfl (.one (.error "connection reset") rfl fun _ h => nomatch h)) enterClosed_spends

/-- A segment whose acknowledgement and window are already those of the engine. -/
theorem handleSynchronized_spends {seg : TcpSegment} (hs : e.tcb.state ∈ OpenStates)
    (hu : e.tcb.sndUna = seg.ack) (hw : e.tcb.sndWnd = seg.window) :
    Spends e (e.handleSynchronized seg) := by
  have htw : e.tcb.state ≠ .timeWait ∧ e.tcb.state ≠ .synReceived := by
    constructor <;> exact fun h => by simp [h] at hs
  unfold handleSynchronized
  rw [if_neg htw.1]
  split_ifs
  · exact .refl e
  · exact sendAck_spends
  · exact doReset_spends hs
  · exact sendAck_spends
  · exact sendAck_spends
  · exact .refl e
  · next hx => exact absurd hx htw.2
  · by_cases hle : seqGt seg.ack e.tcb.sndNxt = true
    · rw [establishedAck, if_pos hle]
      exact sendAck_spends
    · obtain ⟨g, hl, hg⟩ := establishedAck_lands hs (by simpa using hle)
      refine Spends.trans (.still ?_ hl.nxt ?_ ?_ (.none hl.log)) hg
      · rw [hl.una hs, hu]
        exact ite_self _
      · rw [hl.wnd hs, hw]
        exact ite_self _
      · exact Or.inr (Or.inr (List.mem_cons_of_mem _ hl.state))

/-- A SYN that acknowledges ours. -/
theorem synSentEstablished_lands {seg : TcpSegment} (hs : e.tcb.state = .synSent)
    (hack : seg.ackFlag = true) :
    ∃ g, Landed e seg g ∧ Spends g ((e.takeSyn seg).synSentEstablished seg) := by
  obtain ⟨m, -, -, hm⟩ := takeSyn_cases (e := e) seg
  have htcb : (e.takeSyn seg).tcb.sndUna = seg.ack ∧ (e.takeSyn seg).tcb.sndWnd = seg.window ∧
      (e.takeSyn seg).tcb.sndNxt = e.tcb.sndNxt ∧ (e.takeSyn seg).env.log = e.env.log := by
    rw [hm]
    dsimp only
    rw [if_pos hack]
    exact ⟨by simp, by simp, by simp, by simp⟩
  generalize e.takeSyn seg = k at htcb
  obtain ⟨hu, hw, hn, hlog⟩ := htcb
  refine ⟨k.withState .established, ⟨hn, hlog, by simp [withState], fun _ => ⟨hu, hw⟩,
    fun h => by simp [hs] at h, fun h => by simp [hs] at h⟩, ?_⟩
  have hstart :
      Spends (k.withState .established) (k.setState .established).sendAck.sendPending := by
    refine Spends.trans (.still ?_ ?_ ?_ (Or.inl ?_) ?_) (sendAck_spends.trans sendPending_spends)
    · simp [withState]
    · simp [withState]
    · simp [withState]
    · simp [withState]
    · exact setState_logs (e := k) .established fun _ => light_stateChange _ _
  unfold synSentEstablished
  dsimp only
  split
  · refine hstart.trans (handleSynchronized_spends (sendPending_open (by simp)) ?_ ?_)
    · obtain ⟨n, h⟩ := hstart
      rw [h.una]
      exact hu
    · obtain ⟨n, h⟩ := hstart
      rw [h.wnd]
      exact hw
  · exact hstart

/-! ## Steps that send nothing new -/

theorem sendPending_quiet (hb : e.Blocked) : Quiet e e.sendPending := by
  rw [sendPending_of_blocked hb]
  split
  · exact .of_tcb (by simp) (.none (by simp))
  · exact .of_tcb rfl (.none rfl)

theorem enterClosed_quiet (hb : e.Blocked) : Quiet e e.enterClosed :=
  .of_closed (enterClosed_tcb hb) (enterClosed_logs hb fun _ => light_stateChange _ _)

theorem giveUp_quiet (msg : String) (hb : e.Blocked) : Quiet e (e.giveUp msg) :=
  .of_closed (giveUp_tcb msg hb) (giveUp_logs msg hb (fun _ h => nomatch h) (.of_eq rfl rfl)
    fun _ => light_stateChange _ _)

theorem sendAck_quiet : Quiet e e.sendAck := .of_tcb (by simp) (.one _ (by simp) (light_ack e))

/-- What is done first leaves the send variables, the log and the queue alone. -/
theorem Quiet.after (ht : f.tcb = e.tcb) (hl : f.env.log = e.env.log)
    (hq : f.buf.retx = e.buf.retx) (h : Quiet f g) : Quiet e g := by
  refine ⟨by rw [h.iss, ht], by rw [h.una, ht], by rw [h.nxt, ht], by rw [h.wnd, ht],
    ht ▸ h.state, ?_⟩
  obtain ⟨evs, he, hp⟩ := h.log
  refine ⟨evs, by rw [he, hl], fun ev hm seg hseg hw => ?_⟩
  rw [← hq]
  exact hp ev hm seg hseg hw

theorem Quiet.refl (e : TcpEngine) : Quiet e e := .of_tcb rfl (.none rfl)

theorem doReset_quiet (hb : e.Blocked) : Quiet e e.doReset := by
  have herr (msg : String) : Quiet e (e.signalError msg).enterClosed := by
    have hb' : (e.signalError msg).Blocked := hb.of_view rfl
    refine .of_closed (by rw [enterClosed_tcb hb']; rfl) ?_
    exact Logs.trans (f := e.signalError msg) (.one (.error msg) rfl fun _ h => nomatch h)
      (enterClosed_logs hb' fun _ => light_stateChange _ _)
  by_cases h : e.tcb.state = .synReceived ∧ e.fin.passive = true
  · rw [doReset_listen h.1 h.2]
    refine ⟨by simp [restorePort], by simp [restorePort], by simp [restorePort],
      by simp [restorePort], Or.inr (by simp [Outside, restorePort]), ?_⟩
    have hl : Logs Light e (e.setState .listen) := setState_logs _ fun _ => light_stateChange _ _
    exact (hl.trans (.none rfl)).mono fun _ => Light.plain
  · obtain ⟨msg, -, hr⟩ := doReset_close h
    rw [hr]
    exact herr msg

theorem timeWaitArrives_quiet (seg : TcpSegment) (hb : e.Blocked) :
    Quiet e (e.timeWaitArrives seg) := by
  unfold timeWaitArrives
  split_ifs
  · exact enterClosed_quiet hb
  · exact sendAck_quiet
  · have h := sendAck_quiet (e := e)
    exact ⟨h.iss, h.una, h.nxt, h.wnd, h.state, h.log⟩
  · exact sendAck_quiet

theorem receive_quiet (k : Nat) : Quiet e (e.receive k) := by
  unfold receive
  dsimp only
  split_ifs
  · exact .of_tcb rfl (.none rfl)
  · exact .of_tcb rfl (.none rfl)
  · exact .of_tcb rfl (.none rfl)
  · refine .of_tcb (by simp [reopenWindow, drain]) ?_
    exact Logs.trans (f := (e.drain k).reopenWindow.sendAck)
      (.one (.tx (e.drain k).reopenWindow.ackSegment) (by rw [sendAck_env]; rfl) (light_ack _))
      (.one _ (by rw [finishReceive_env]) fun _ h => by cases h)
  · refine .of_tcb (by simp [drain]) ?_
    exact Logs.trans (f := e.drain k) (.none rfl)
      (.one _ (by rw [finishReceive_env]) fun _ h => by cases h)

theorem abort_quiet (hb : e.Blocked) : Quiet e e.abort := by
  unfold abort
  split_ifs
  · exact .of_tcb rfl (.none rfl)
  · have h := enterClosed_quiet (sendRst_blocked hb)
    refine .of_closed (by rw [enterClosed_tcb (sendRst_blocked hb)]; simp) ?_
    exact (sendRst_logs (.of_eq rfl rfl)).trans
      (enterClosed_logs (sendRst_blocked hb) fun _ => light_stateChange _ _)
  · exact enterClosed_quiet hb

theorem onRto_quiet {h : TimerHandle Callback} (hcb : h.cb = .onRto) (hb : e.Blocked) :
    Quiet e (e.popTimer h).onRto := by
  have hf : (e.popTimer h).forgetTimer .onRto = e.fire h := by rw [fire, hcb]
  unfold onRto
  rw [hf]
  dsimp only
  split
  · exact .of_tcb (by simp) (.none (by simp))
  · next o rest hq =>
    rw [fire_buf] at hq
    split
    · exact (giveUp_quiet _ (hb.fire h)).after (by simp) (by simp) (by simp)
    · split
      · have hc : (e.fire h).countRto.Blocked := (hb.fire h).of_view rfl
        exact (giveUp_quiet "retransmission timeout" hc).after (by simp) (by simp) (by simp)
      · refine ⟨by simp, by simp, by simp, by simp, Or.inl (by simp), ?_⟩
        refine Logs.trans (f := (e.fire h).countRto) (.none (by simp)) ?_
        refine retransmitHead_logs (P := e.Plain) o rest ?_
        intro seg hseg _
        refine ⟨o, by rw [hq]; exact List.mem_cons_self, ?_⟩
        rw [← Event.tx.inj hseg]
        exact ⟨rfl, rfl, rfl, rfl, rfl, rfl⟩

theorem onPersist_quiet {h : TimerHandle Callback} (hcb : h.cb = .onPersist) (hb : e.Blocked)
    (hp : ¬ e.Probes (.expire h)) : Quiet e (e.popTimer h).onPersist := by
  have hf : (e.popTimer h).forgetTimer .onPersist = e.fire h := by rw [fire, hcb]
  unfold onPersist
  rw [hf]
  dsimp only
  split_ifs with hw hx hd
  · exact (sendPending_quiet (hb.fire h)).after (by simp) (by simp) (by simp)
  · rw [fire_tcb] at hw
    rw [fire_buf] at hx
    exact absurd ⟨hcb, by omega, Or.inl hx⟩ hp
  · rw [fire_tcb] at hw
    rw [fire_buf, not_not] at hx
    rw [fire_fin] at hd
    refine absurd ⟨hcb, by omega, Or.inr ?_⟩ hp
    simpa [FinDue, hx] using hd
  · exact .of_tcb (by simp) (.none (by simp))

theorem onKeepalive_quiet {h : TimerHandle Callback} (hcb : h.cb = .onKeepalive)
    (hb : e.Blocked) : Quiet e (e.popTimer h).onKeepalive := by
  have hf : (e.popTimer h).forgetTimer .onKeepalive = e.fire h := by rw [fire, hcb]
  have hfire {f : TcpEngine} (hq : Quiet (e.fire h) f) : Quiet e f :=
    hq.after (by simp) (by simp) (by simp)
  unfold onKeepalive
  rw [hf]
  dsimp only
  split_ifs
  · exact hfire (.refl _)
  · rw [restartKeepalive_eq]
    exact hfire (.of_tcb rfl (.none rfl))
  · exact hfire (giveUp_quiet _ (hb.fire h))
  · rw [restartKeepalive_eq]
    refine hfire (.of_tcb (by simp [sendKeepaliveProbe]) ?_)
    exact Logs.trans (f := (e.fire h).makeAndTransmit (sub (e.fire h).tcb.sndUna 1) { ack := true })
      (makeAndTransmit_logs _ _ _ _ _ (.of_eq rfl rfl)) (.none rfl)

theorem expire_quiet {h : TimerHandle Callback} (hb : e.Blocked) (hp : ¬ e.Probes (.expire h)) :
    Quiet e ((e.popTimer h).callback h.cb) := by
  cases hcb : h.cb with
  | onRto => exact onRto_quiet hcb hb
  | onPersist => exact onPersist_quiet hcb hb hp
  | onDelack =>
    have hf : (e.popTimer h).forgetTimer .onDelack = e.fire h := by rw [fire, hcb]
    rw [callback, onDelack, hf]
    exact sendAck_quiet.after (by simp) (by simp) (by simp)
  | onTimeWait =>
    have hf : (e.popTimer h).forgetTimer .onTimeWait = e.fire h := by rw [fire, hcb]
    rw [callback, onTimeWait, hf]
    exact (enterClosed_quiet (hb.fire h)).after (by simp) (by simp) (by simp)
  | onKeepalive => exact onKeepalive_quiet hcb hb

/-! ## Openings -/

/-- A connection has been opened: its SYN is the one number sent. -/
structure Opened (e f : TcpEngine) : Prop where
  state : f.tcb.state ∈ [.synSent, .synReceived]
  nxt : (f.tcb.sndNxt - f.tcb.iss - 1) % 4294967296 = 0
  una : (f.tcb.sndUna - f.tcb.iss) % 4294967296 = 0
  retx : ∃ o, f.buf.retx = e.buf.retx ++ [o] ∧ o.flags.urg = false
  log : Logs Light e f

theorem connect_opened (hs : e.tcb.state = .closed ∨ e.tcb.state = .listen) :
    Opened e e.connect := by
  rw [connect_eq hs]
  refine ⟨by simp [dialled], ?_, ?_, ?_, ?_⟩
  · simp [dialled, outgoing, Outgoing.endSeq, Outgoing.segLen, add_def]
    omega
  · simp [dialled]
  · exact ⟨e.dialled.outgoing { syn := true } [], by simp [dialled], rfl⟩
  · exact Logs.trans (f := e.dialled) (.one _ rfl (light_stateChange _ _))
      (queueAndSend_logs _ _ _ _ (.of_eq rfl rfl))

theorem acceptSyn_opened (seg : TcpSegment) (hs : e.tcb.state = .listen) :
    Opened e (e.acceptSyn seg) := by
  obtain ⟨m, -, -, hm⟩ := acceptSyn_eq (e := e) seg hs
  rw [hm]
  refine ⟨by simp [listenTaken, listenTcb], ?_, ?_, ?_, ?_⟩
  · simp [listenTaken, listenTcb, outgoing, Outgoing.endSeq, Outgoing.segLen, add_def]
    omega
  · simp [listenTaken, listenTcb]
  · exact ⟨(e.listenTaken seg m).outgoing { syn := true, ack := true } [],
      by simp [listenTaken], rfl⟩
  · exact Logs.trans (f := e.listenTaken seg m) (.one _ rfl (light_stateChange _ _))
      (queueAndSend_logs _ _ _ _ (.of_eq rfl rfl))

/-- What a call, or an expiry that does not probe, may do. -/
inductive Acts (e : TcpEngine) (a : Action) (f : TcpEngine) : Prop
  | quiet : Quiet e f → Acts e a f
  | opened : e.Outside → Opened e f → Acts e a f
  | spends : Spends e f → e.tcb.state = .established ∨ e.tcb.state = .closeWait → Acts e a f
  | closes : a = .close → e.tcb.state = .synReceived → e.buf.appBuf = [] → 1 ≤ e.usableWindow →
      Acts e a f

theorem activeOpen_acts : Acts e a e.activeOpen := by
  by_cases hs : e.tcb.state = .closed ∨ e.tcb.state = .listen
  · rw [activeOpen_eq hs]
    exact .opened (by simpa [Outside] using hs) (connect_opened hs)
  · rw [activeOpen, if_pos (by tauto)]
    exact .quiet (.of_tcb rfl (.none rfl))

theorem passiveOpen_acts : Acts e a e.passiveOpen := by
  by_cases hs : e.tcb.state = .closed
  · rw [passiveOpen_eq hs]
    refine .quiet ⟨by simp [startListening], by simp [startListening], by simp [startListening],
      by simp [startListening], Or.inr (by simp [Outside, startListening]), ?_⟩
    exact Logs.mono (Logs.trans (f := { e with fin := { e.fin with passive := true } })
      (.none rfl) (setState_logs _ fun _ => light_stateChange _ _)) fun _ => Light.plain
  · rw [passiveOpen, if_pos hs]
    exact .quiet (.of_tcb rfl (.none rfl))

theorem close_acts (hb : e.Blocked) : Acts e .close e.close := by
  unfold TcpEngine.close
  split_ifs with hc hr hl
  · exact .quiet (.of_tcb rfl (.none rfl))
  · exact .quiet (.of_tcb rfl (.none rfl))
  · exact .quiet (enterClosed_quiet hb)
  · by_cases hs : e.tcb.state = .synReceived
    · by_cases hx : e.buf.appBuf = [] ∧ 1 ≤ e.usableWindow
      · exact .closes rfl hs hx.1 hx.2
      · have hb' : e.requestFin.Blocked := by
          intro hcan _
          have hempty : e.buf.appBuf = [] := by
            simpa [CanSend, requestFin, hs] using hcan
          have hu : ¬ 1 ≤ e.usableWindow := fun hu => hx ⟨hempty, hu⟩
          refine Or.inr (Or.inl ?_)
          show e.usableWindow ≤ 0
          omega
        exact .quiet (Quiet.after (f := e.requestFin) rfl rfl rfl (sendPending_quiet hb'))
    · refine .spends (Spends.trans (f := e.requestFin) (.of_tcb rfl (.none rfl))
        sendPending_spends) ?_
      cases h : e.tcb.state <;> simp_all

theorem sendQueued_acts {data : List UInt8} {urgent : Bool} :
    Acts e a (e.sendQueued data urgent) := by
  unfold sendQueued
  dsimp only
  generalize hf : (if urgent && !data.isEmpty then e.setSndUp else e) = f
  have hq : f.tcb.iss = e.tcb.iss ∧ f.tcb.sndUna = e.tcb.sndUna ∧ f.tcb.sndNxt = e.tcb.sndNxt ∧
      f.tcb.sndWnd = e.tcb.sndWnd ∧ f.tcb.state = e.tcb.state ∧ f.env.log = e.env.log := by
    rw [← hf]
    split <;> exact ⟨rfl, rfl, rfl, rfl, rfl, rfl⟩
  obtain ⟨hi, hu, hn, hw, hst, hl⟩ := hq
  split
  · next hs =>
    refine .spends (Spends.trans (.still hu hn hw (Or.inl hst) (.none hl)) sendPending_spends) ?_
    rw [← hst]
    exact hs
  · exact .quiet ⟨hi, hu, hn, hw, Or.inl hst, .none hl⟩

theorem sendBuffered_acts {data : List UInt8} {urgent : Bool} :
    Acts e a (e.sendBuffered data urgent) := by
  by_cases hs : e.tcb.state = .listen
  swap
  · rw [sendBuffered, if_neg hs]
    exact sendQueued_acts
  have ho : e.Outside := by simp [Outside, hs]
  have hc := connect_opened (e := e) (Or.inr hs)
  have hst : e.connect.tcb.state = .synSent := by simp [connect]
  rw [sendBuffered, if_pos hs, activeOpen_eq (Or.inr hs)]
  generalize e.connect = f at hc hst
  split
  · exact .quiet (.of_tcb rfl (.none rfl))
  · split
    · exact .opened ho hc
    · refine .opened ho ?_
      unfold sendQueued
      dsimp only
      have hx : ¬ ((if urgent && !data.isEmpty then f.setSndUp else f).tcb.state = .established ∨
          (if urgent && !data.isEmpty then f.setSndUp else f).tcb.state = .closeWait) := by
        split <;> simp [setSndUp, hst]
      rw [if_neg hx]
      split
      · exact ⟨hc.state, hc.nxt, hc.una, hc.retx, hc.log⟩
      · exact hc

/-- Every entry point but a segment and a probe. -/
theorem perform_acts (hb : e.Blocked) (hs : ∀ data, a ≠ .segment data) (hp : ¬ e.Probes a) :
    Acts e a (e.perform a) := by
  have hset {f : TcpEngine} (hf : Acts f a (e.perform a)) (ht : f.tcb = e.tcb)
      (hl : f.env.log = e.env.log) (hq : f.buf.retx = e.buf.retx)
      (hx : a = .close → f.buf.appBuf = e.buf.appBuf) : Acts e a (e.perform a) := by
    cases hf with
    | quiet h => exact .quiet (h.after ht hl hq)
    | opened ho h =>
      refine .opened (by rw [Outside, ← ht]; exact ho)
        ⟨h.state, h.nxt, h.una, by rw [← hq]; exact h.retx, ?_⟩
      exact Logs.trans (.none hl) h.log
    | spends h hst =>
      exact .spends (Spends.trans (.of_tcb ht (.none hl)) h) (by rw [← ht]; exact hst)
    | closes ha hst hb hu =>
      rw [usableWindow, ht] at hu
      exact .closes ha (by rw [← ht]; exact hst) (by rw [← hx ha]; exact hb) hu
  cases a with
  | tick dt => exact .quiet (.of_tcb rfl (.none rfl))
  | random r => exact .quiet (.of_tcb rfl (.none rfl))
  | openCall active r l t =>
    refine hset (f := (e.setPorts r l).setUserTimeout t) ?_ ?_ ?_ ?_ (fun h => by cases h)
    · rw [perform, openCall]
      split
      · exact activeOpen_acts
      · exact passiveOpen_acts
    · cases t <;> rfl
    · cases t <;> rfl
    · cases t <;> rfl
  | activeOpen => exact activeOpen_acts
  | passiveOpen => exact passiveOpen_acts
  | send data push urgent t =>
    by_cases ha : e.AcceptsSend
    · refine hset (f := (e.setUserTimeout t).bufferData data push) ?_ ?_ ?_ ?_ (fun h => by cases h)
      · rw [perform, send_of_accepts data push urgent t ha]
        exact sendBuffered_acts
      · cases t <;> rfl
      · cases t <;> rfl
      · cases t <;> rfl
    · obtain ⟨msg, h⟩ := send_of_refused (e := e) data push urgent t ha
      rw [perform, h]
      exact .quiet (.of_tcb rfl (.none rfl))
  | receive n => exact .quiet (receive_quiet n)
  | close => exact close_acts hb
  | abort => exact .quiet (abort_quiet hb)
  | segment data => exact absurd rfl (hs data)
  | expire h => exact .quiet (expire_quiet hb hp)

/-! ## Probes -/

/-- A probe sends the one number after SND.NXT. -/
theorem probe_grows {h : TimerHandle Callback} (hp : e.Probes (.expire h)) :
    Grows 1 e ((e.popTimer h).callback h.cb) := by
  obtain ⟨hcb, hw, hwait⟩ := hp
  have hf : (e.popTimer h).forgetTimer .onPersist = e.fire h := by rw [fire, hcb]
  rw [hcb, callback, onPersist, hf]
  have hfire : Grows 0 e (e.fire h) :=
    .still (by simp) (by simp) (by simp) (Or.inl (by simp)) (.none (by simp))
  rw [if_neg (by rw [fire_tcb]; omega)]
  split_ifs with hx hd
  · have hq : Grows 1 ((e.fire h).takeChunk 1) (e.fire h).sendProbe := by
      have hlen : ((e.fire h).buf.appBuf.take 1).length + false.toNat = 1 := by
        have := List.length_pos_iff.mpr hx
        simp only [List.length_take, Bool.toNat_false]
        omega
      exact queueAndSend_grows 0 rfl hlen
    have hk : Grows (0 + 1) e (e.fire h).sendProbe :=
      hfire.trans ⟨hq.una, hq.wnd, hq.nxt, hq.state, hq.log⟩
    exact ⟨hk.una, hk.wnd, hk.nxt, hk.state, hk.log⟩
  · have hk := hfire.trans (sendFin_grows (e := e.fire h))
    exact ⟨hk.una, hk.wnd, hk.nxt, hk.state, hk.log⟩
  · rw [fire_buf, not_not] at hx
    rw [fire_fin] at hd
    rcases hwait with hne | ⟨h1, h2, -⟩
    · exact absurd hx hne
    · simp [h1, h2] at hd

/-! ## Arriving segments -/

/-- A SYN without an acknowledgement has crossed ours. -/
structure Crossed (e f : TcpEngine) : Prop where
  state : f.tcb.state = .synReceived
  iss : f.tcb.iss = e.tcb.iss
  una : f.tcb.sndUna = e.tcb.sndUna
  nxt : f.tcb.sndNxt = e.tcb.sndNxt
  log : Logs Light e f

/-- What a segment may do. -/
inductive Takes (e : TcpEngine) (seg : TcpSegment) (f : TcpEngine) : Prop
  | quiet : e.accepts seg = false → Quiet e f → Takes e seg f
  | opened : e.Outside → Opened e f → Takes e seg f
  | crossed : e.tcb.state = .synSent → e.accepts seg = false → Crossed e f → Takes e seg f
  | lands (g : TcpEngine) : e.accepts seg = true → Landed e seg g → Spends g f → Takes e seg f

theorem emitRstReply_quiet (seg : TcpSegment) (seq ack : Int) (b : Bool) :
    Quiet e (e.emitRstReply seg seq ack b) :=
  .of_tcb (by simp) (.one _ (by rw [emitRstReply_eq]; rfl) (.of_eq rfl rfl))

theorem handleClosed_takes (seg : TcpSegment) (hs : e.tcb.state = .closed) :
    Takes e seg (e.handleClosed seg) := by
  have ha : e.accepts seg = false := by simp [accepts, hs]
  unfold handleClosed
  split_ifs
  · exact .quiet ha (.refl e)
  · exact .quiet ha (emitRstReply_quiet _ _ _ _)
  · exact .quiet ha (emitRstReply_quiet _ _ _ _)

theorem handleListen_takes (seg : TcpSegment) (hs : e.tcb.state = .listen) :
    Takes e seg (e.handleListen seg) := by
  have ha : e.accepts seg = false := by simp [accepts, hs]
  unfold handleListen
  split_ifs
  · exact .quiet ha (.refl e)
  · exact .quiet ha (emitRstReply_quiet _ _ _ _)
  · exact .quiet ha (.refl e)
  · exact .quiet ha (.refl e)
  · exact .opened (by simp [Outside, hs]) (acceptSyn_opened seg hs)

theorem simultaneousOpen_crossed (seg : TcpSegment) : Crossed e (e.simultaneousOpen seg) := by
  have hb : Logs Light e e.becomeSynReceived :=
    Logs.trans (f := e.setState .synReceived) (setState_logs _ fun _ => light_stateChange _ _)
      (.none rfl)
  have ht : e.becomeSynReceived.tcb = { e.tcb with state := .synReceived } := by
    simp [becomeSynReceived]
  unfold simultaneousOpen
  dsimp only
  generalize e.becomeSynReceived = k at hb ht
  have hk (j : TcpEngine) (hj : j.tcb = k.tcb) (hl : j.env.log = k.env.log) :
      Crossed e j.sendSynAck := by
    have htcb : j.sendSynAck.tcb = { e.tcb with state := .synReceived } := by
      rw [← ht, ← hj]
      simp [sendSynAck]
    refine ⟨by rw [htcb], by rw [htcb], by rw [htcb], by rw [htcb], ?_⟩
    exact hb.trans (Logs.trans (.none hl) (makeAndTransmit_logs _ _ _ _ _ (.of_eq rfl rfl)))
  split <;> split
  · exact hk _ (storeOoo_tcb _ _ _) (by show (k.storeOoo _ _ _).env.log = _; rw [storeOoo_env])
  · exact hk _ rfl rfl
  · exact hk _ (storeOoo_tcb _ _ _) (by rw [storeOoo_env])
  · exact hk _ rfl rfl

theorem handleSynSent_takes (seg : TcpSegment) (hb : e.Blocked) (hs : e.tcb.state = .synSent)
    (hi : seqGt e.tcb.sndUna e.tcb.iss = false) : Takes e seg (e.handleSynSent seg) := by
  have ha : e.accepts seg = (seg.ackFlag && !seg.rst &&
      (seg.syn && seqGt seg.ack e.tcb.iss && seqLeq seg.ack e.tcb.sndNxt)) := by
    simp only [accepts, hs]
  unfold handleSynSent
  dsimp only
  split_ifs with hbad hr hr hok hsyn hu
  · exact .quiet (by rw [ha, hr]; simp) (.refl e)
  · refine .quiet ?_ (emitRstReply_quiet _ _ _ _)
    rw [ha]
    simp only [Bool.and_eq_true, Bool.or_eq_true] at hbad
    rcases hbad.2 with h | h
    · rw [seqGt_eq_not_seqLeq, h]
      simp
    · rw [seqGt_eq_not_seqLeq] at h
      simp at h
      simp [h]
  · refine .quiet (by rw [ha, hr]; simp) ?_
    have hb' : (e.signalError "connection refused").Blocked := hb.of_view rfl
    refine .of_closed (by rw [enterClosed_tcb hb']; rfl) ?_
    exact Logs.trans (f := e.signalError "connection refused")
      (.one (.error "connection refused") rfl fun _ h => nomatch h)
      (enterClosed_logs hb' fun _ => light_stateChange _ _)
  · exact .quiet (by rw [ha, hr]; simp) (.refl e)
  · refine .quiet ?_ (.refl e)
    have hsyn' : seg.syn = false := by simpa using hsyn
    rw [ha, hsyn']
    simp
  · have hack : seg.ackFlag = true := by
      by_contra hn
      obtain ⟨m, -, -, hm⟩ := takeSyn_cases (e := e) seg
      rw [hm] at hu
      dsimp only at hu
      rw [if_neg hn] at hu
      simp [hi] at hu
    obtain ⟨g, hl, hg⟩ := synSentEstablished_lands hs hack
    refine .lands g ?_ hl hg
    rw [ha, hack]
    simp only [hack, Bool.true_and, Bool.or_eq_true, not_or] at hbad
    simp only [Bool.not_eq_true] at hr hsyn
    rw [hr]
    have h1 := hbad.1
    have h2 := hbad.2
    rw [seqGt_eq_not_seqLeq] at h2 ⊢
    simp at h1 h2 hsyn
    simp [h1, h2, hsyn]
  · have hack : seg.ackFlag = false := by
      by_contra hn
      rw [Bool.not_eq_false] at hn
      obtain ⟨m, -, -, hm⟩ := takeSyn_cases (e := e) seg
      rw [hm] at hu
      dsimp only at hu
      rw [if_pos hn] at hu
      simp only [hn, Bool.true_and, Bool.or_eq_true, not_or] at hbad
      have h1 := hbad.1
      refine hu ?_
      simp only [setSendWindow_tcb, processAck_tcb]
      rw [seqGt_eq_not_seqLeq]
      simpa using h1
    obtain ⟨m, -, -, hm⟩ := takeSyn_cases (e := e) seg
    have hc := simultaneousOpen_crossed (e := e.takeSyn seg) seg
    refine .crossed hs (by rw [ha, hack]; simp) ⟨hc.state, ?_, ?_, ?_, ?_⟩
    · rw [hc.iss, takeSyn_iss]
    · rw [hc.una, hm]
      simp [hack]
    · rw [hc.nxt, hm]
      simp [hack]
    · exact Logs.trans (.none (takeSyn_env seg)) hc.log

theorem accepts_open (seg : TcpSegment) (hs : e.tcb.state ∈ OpenStates) : e.accepts seg =
    (seg.ackFlag && !seg.rst && (!seg.syn &&
      acceptable seg.seq seg.segLen e.tcb.rcvNxt e.rcvWnd && !seqGt seg.ack e.tcb.sndNxt)) := by
  unfold accepts
  split
  · next h => simp [h] at hs
  · next h => simp [h] at hs
  · next h => simp [h] at hs
  · next h => simp [h] at hs
  · next h => simp [h] at hs
  · rfl

theorem accepts_synReceived (seg : TcpSegment) (hs : e.tcb.state = .synReceived) : e.accepts seg =
    (seg.ackFlag && !seg.rst && (!seg.syn &&
      acceptable seg.seq seg.segLen e.tcb.rcvNxt e.rcvWnd &&
        (seqLt e.tcb.sndUna seg.ack && seqLeq seg.ack e.tcb.sndNxt))) := by
  simp only [accepts, hs]

/-- A segment that fails a check before its acknowledgement is looked at is not accepted. -/
theorem not_accepts (seg : TcpSegment) (hs : e.tcb.state ∈ SyncStates)
    (h : acceptable seg.seq seg.segLen e.tcb.rcvNxt e.rcvWnd = false ∨ seg.rst = true ∨
      seg.syn = true ∨ seg.ackFlag = false) : e.accepts seg = false := by
  simp only [SyncStates, List.mem_cons] at hs
  rcases hs with hs | hs | hs
  · simp [accepts, hs]
  · rw [accepts_synReceived seg hs]
    rcases h with h | h | h | h <;> rw [h] <;> simp
  · rw [accepts_open seg (by simpa using hs)]
    rcases h with h | h | h | h <;> rw [h] <;> simp

theorem handleSynchronized_takes (seg : TcpSegment) (hb : e.Blocked)
    (hs : e.tcb.state ∈ SyncStates) : Takes e seg (e.handleSynchronized seg) := by
  have hno := not_accepts seg hs
  unfold handleSynchronized
  split_ifs with htw hacc hr hr hq hsyn hack hsr
  · exact .quiet (by simp [accepts, htw]) (timeWaitArrives_quiet seg hb)
  · exact .quiet (hno (Or.inl (by simpa using hacc))) (.refl e)
  · exact .quiet (hno (Or.inl (by simpa using hacc))) sendAck_quiet
  · exact .quiet (hno (Or.inr (Or.inl hr))) (doReset_quiet hb)
  · exact .quiet (hno (Or.inr (Or.inl hr))) sendAck_quiet
  · exact .quiet (hno (Or.inr (Or.inr (Or.inl hsyn)))) sendAck_quiet
  · exact .quiet (hno (Or.inr (Or.inr (Or.inr (by simpa using hack))))) (.refl e)
  · have ha := accepts_synReceived seg hsr
    simp only [Bool.not_eq_true] at hacc hr hsyn hack
    by_cases hok : seqLt e.tcb.sndUna seg.ack = true ∧ seqLeq seg.ack e.tcb.sndNxt = true
    · obtain ⟨g, hl, hg⟩ := synReceivedAck_lands hsr hok
      refine .lands g ?_ hl hg
      rw [ha]
      simp_all
    · rw [synReceivedAck, if_neg (by simpa using hok)]
      refine .quiet ?_ (emitRstReply_quiet _ _ _ _)
      rw [ha]
      simp_all
  · have hopen : e.tcb.state ∈ OpenStates := by
      simp only [SyncStates, List.mem_cons] at hs
      rcases hs with hs | hs | hs
      · exact absurd hs htw
      · exact absurd hs hsr
      · simpa using hs
    have ha := accepts_open seg hopen
    simp only [Bool.not_eq_true] at hacc hr hsyn hack
    cases hle : seqGt seg.ack e.tcb.sndNxt with
    | true =>
      rw [establishedAck, if_pos hle]
      exact .quiet (by rw [ha, hle]; simp) sendAck_quiet
    | false =>
      obtain ⟨g, hl, hg⟩ := establishedAck_lands hopen hle
      refine .lands g ?_ hl hg
      rw [ha, hle]
      simp_all

theorem handle_takes (seg : TcpSegment) (hb : e.Blocked)
    (hi : e.tcb.state = .synSent → seqGt e.tcb.sndUna e.tcb.iss = false) :
    Takes e seg (e.handle seg) := by
  rcases e.state_cases with hs | hs | hs | hs
  · rw [handle_closed seg hs]
    exact handleClosed_takes seg hs
  · rw [handle_listen seg hs]
    exact handleListen_takes seg hs
  · rw [handle_synSent seg hs]
    exact handleSynSent_takes seg hb hs (hi hs)
  · rw [handle_synchronized seg hs]
    exact handleSynchronized_takes seg hb hs

/-! ## Steps -/

/-- What a step that does not probe does to the send variables. -/
inductive Alters (e : TcpEngine) (a : Action) (e' : TcpEngine) : Prop
  | quiet : e.accepted a = none → Quiet e e' → Alters e a e'
  | opened : e.Outside → Opened e e' → Alters e a e'
  | crossed : e.tcb.state = .synSent → e.accepted a = none → Crossed e e' → Alters e a e'
  | lands (seg : TcpSegment) (g : TcpEngine) : e.accepted a = some seg → Landed e seg g →
      Spends g e' → Alters e a e'
  | spends : e.accepted a = none → Spends e e' →
      e.tcb.state = .established ∨ e.tcb.state = .closeWait → Alters e a e'
  | closes : a = .close → e.tcb.state = .synReceived → e.buf.appBuf = [] → 1 ≤ e.usableWindow →
      Alters e a e'

theorem accepted_some {seg : TcpSegment} (h : e.accepted a = some seg) :
    e.accepts seg = true ∧ seg.Fits := by
  unfold accepted at h
  split at h
  · split at h
    · next s hp =>
      split_ifs at h with ha
      obtain rfl := Option.some.inj h
      exact ⟨ha.2, TcpSegment.fits_of_parse hp⟩
    · cases h
  · cases h

theorem segment_alters {data : List UInt8} (hb : e.Blocked)
    (hi : e.tcb.state = .synSent → seqGt e.tcb.sndUna e.tcb.iss = false)
    (h : engineMachine.step e (.segment data) = some e') : Alters e (.segment data) e' := by
  cases hp : TcpSegment.parse data with
  | error msg =>
    simp only [engineMachine] at h
    split_ifs at h
    obtain rfl := Option.some.inj h
    refine .quiet (by simp [accepted, hp]) ?_
    rw [perform, onSegment, hp]
    exact .of_tcb rfl (.none rfl)
  | ok seg =>
    rcases step_segment hp h with ⟨ha, rfl⟩ | ⟨ha, rfl⟩
    · exact .quiet (by simp [accepted, hp, ha]) (.of_tcb rfl (.none rfl))
    have htcb : e.enter.heard.tcb = e.tcb := heard_tcb
    have hlog : e.enter.heard.env.log = e.env.log := by rw [heard_env]; rfl
    have hacc : e.enter.heard.accepts seg = e.accepts seg := by
      simp only [accepts, htcb, heard_rcvWnd]
      rfl
    have hb' : e.enter.heard.Blocked := hb.of_view heard_sendView
    have hk := handle_takes seg hb' (by rw [htcb]; exact hi)
    generalize e.enter.heard.handle seg = f at hk
    cases hk with
    | quiet h0 hq =>
      rw [hacc] at h0
      exact .quiet (by simp [accepted, hp, h0]) (hq.after htcb hlog (by rw [heard_buf]; rfl))
    | opened ho hf =>
      rw [Outside, htcb] at ho
      have hq : e.enter.heard.buf.retx = e.buf.retx := by
        rw [heard_buf]
        rfl
      exact .opened ho ⟨hf.state, hf.nxt, hf.una, by rw [← hq]; exact hf.retx,
        Logs.trans (.none hlog) hf.log⟩
    | crossed hs h0 hf =>
      rw [hacc] at h0
      rw [htcb] at hs
      exact .crossed hs (by simp [accepted, hp, h0])
        ⟨hf.state, by rw [hf.iss, htcb], by rw [hf.una, htcb], by rw [hf.nxt, htcb],
          Logs.trans (.none hlog) hf.log⟩
    | lands g h0 hl hg =>
      rw [hacc] at h0
      refine .lands seg g (by simp [accepted, hp, h0, ha]) ?_ hg
      have htw : e.enter.heard.takesWindow seg = e.takesWindow seg := by
        rw [takesWindow, takesWindow, htcb]
      exact ⟨by rw [hl.nxt, htcb], by rw [hl.log, hlog], hl.state, by rw [← htcb]; exact hl.opening,
        by rw [← htcb]; exact hl.una, by rw [← htcb, ← htw]; exact hl.wnd⟩

theorem step_alters (hr : e.Ready)
    (hi : e.tcb.state = .synSent → seqGt e.tcb.sndUna e.tcb.iss = false)
    (hp : ¬ e.Probes a) (h : engineMachine.step e a = some e') : Alters e a e' := by
  by_cases hs : ∃ data, a = .segment data
  · obtain ⟨data, rfl⟩ := hs
    exact segment_alters hr.drained.blocked hi h
  have hs' : ∀ data, a ≠ .segment data := fun data hd => hs ⟨data, hd⟩
  have hacc : e.accepted a = none := by
    unfold accepted
    split
    · next data => exact absurd rfl (hs' data)
    · rfl
  simp only [engineMachine] at h
  split_ifs at h
  obtain rfl := Option.some.inj h
  have hb : e.enter.Blocked := hr.drained.blocked.of_view rfl
  have hp' : ¬ e.enter.Probes a := by
    cases a <;> exact hp
  cases perform_acts hb hs' hp' with
  | quiet hq => exact .quiet hacc (Quiet.after (f := e.enter) rfl rfl rfl hq)
  | opened ho hf => exact .opened ho ⟨hf.state, hf.nxt, hf.una, hf.retx, hf.log⟩
  | spends hsp hst =>
    exact .spends hacc (Spends.trans (f := e.enter) (.of_tcb rfl (.none rfl)) hsp) hst
  | closes ha hst hx hu => exact .closes ha hst hx hu

/-- What an expiry of the retransmission timer does. -/
theorem step_rto {h : TimerHandle Callback} (hcb : h.cb = .onRto)
    (hs : engineMachine.step e (.expire h) = some e') :
    (e.buf.retx = [] ∧ e' = e.enter.fire h) ∨
    ∃ o rest, e.buf.retx = o :: rest ∧
      (((e.enter.fire h).userTimeoutExpired = true ∧
          e' = (e.enter.fire h).giveUp "user timeout") ∨
        ((e.enter.fire h).userTimeoutExpired = false ∧
          e.conf.cfg.maxRetransmits < e.tm.rtoCount + 1 ∧
          e' = (e.enter.fire h).countRto.giveUp "retransmission timeout") ∨
        ((e.enter.fire h).userTimeoutExpired = false ∧
          e.tm.rtoCount + 1 ≤ e.conf.cfg.maxRetransmits ∧
          e' = (e.enter.fire h).countRto.retransmitHead o rest)) := by
  simp only [engineMachine] at hs
  split_ifs at hs
  obtain rfl := Option.some.inj hs
  have hf : (e.enter.popTimer h).forgetTimer .onRto = e.enter.fire h := by rw [fire, hcb]
  have hc : (e.enter.fire h).countRto.conf.cfg.maxRetransmits = e.conf.cfg.maxRetransmits := by
    rw [countRto_conf, fire_conf]
    rfl
  have hn : ((e.enter.fire h).countRto.tm.rtoCount : Int) = e.tm.rtoCount + 1 := by
    simp [countRto, enter]
  rw [perform, hcb, callback, onRto, hf]
  dsimp only
  rw [fire_buf, hc, hn]
  split
  · next hq => exact Or.inl ⟨hq, rfl⟩
  · next o rest hq =>
    refine Or.inr ⟨o, rest, hq, ?_⟩
    split_ifs with hu hm
    · exact Or.inl ⟨hu, rfl⟩
    · exact Or.inr (Or.inl ⟨by simpa using hu, hm, rfl⟩)
    · exact Or.inr (Or.inr ⟨by simpa using hu, by omega, rfl⟩)

theorem step_probes (hp : e.Probes a) (h : engineMachine.step e a = some e') : Grows 1 e e' := by
  cases a with
  | expire g =>
    simp only [engineMachine] at h
    split_ifs at h
    obtain rfl := Option.some.inj h
    have hk := probe_grows (e := e.enter) (h := g) hp
    exact ⟨hk.una, hk.wnd, hk.nxt, hk.state, hk.log⟩
  | _ => exact hp.elim

end TcpEngine

end HdlPlayground.Tcp

import HdlPlayground.Tcp.Acknowledging
import HdlPlayground.Tcp.Outflow
import HdlPlayground.Tcp.Wire

/-!
# What is acknowledged has been taken

An engine that follows the stream of its peer acknowledges what it has taken of it and no more,
and before the connection it acknowledges nothing but by a RST. So SND.UNA of either of two
engines on the wire is never past what the other has taken, and what has been written and not
been delivered is still held by the sender.
-/
namespace HdlPlayground.Tcp

/-- The event acknowledges nothing, unless it resets. -/
def Event.Mute (ev : Event) : Prop := ∀ seg, ev = .tx seg → seg.ackFlag = true → seg.rst = true

/-- The event acknowledges no more than `p` numbers of the stream of ISS `x`, unless it resets. -/
def Event.Says (x : Int) (p : Nat) (ev : Event) : Prop :=
  ∀ seg, ev = .tx seg → seg.ackFlag = true → seg.rst = false → ∃ i ≤ p, seg.ack = seqAt x i

section

variable {x : Int} {p q : Nat} {ev : Event}

theorem Event.Mute.tells (h : ev.Mute) : ev.Says x p := by
  intro seg hs ha hr
  have hrst := h seg hs ha
  rw [hr] at hrst
  cases hrst

theorem Event.Says.mono (h : ev.Says x p) (hpq : p ≤ q) : ev.Says x q := by
  intro seg hs ha hr
  obtain ⟨i, hi, hack⟩ := h seg hs ha hr
  exact ⟨i, hi.trans hpq, hack⟩

theorem Event.mute_of_not_tx (h : ∀ seg, ev ≠ .tx seg) : ev.Mute :=
  fun seg hs => absurd hs (h seg)

end

/-- How many numbers of the peer's stream have been taken, its SYN included. -/
def Intake.position (v : Intake) : Nat := v.delivered.length + 1 + v.peerFin.toNat

theorem Intake.Hush.position {a : Action} {u v : Intake} (h : Intake.Hush a u v) :
    v.position = u.position ∧ v.rcvNxt = u.rcvNxt := by
  cases h with
  | _ => exact ⟨rfl, rfl⟩

theorem Intake.Hush.sync {a : Action} {u v : Intake} (h : Intake.Hush a u v) (hx : ¬ a.Closes)
    (hu : u.state ∈ TcpEngine.SyncStates) : v.state ∈ TcpEngine.SyncStates := by
  cases h with
  | stays => exact hu
  | changes st hst => exact (Intake.arcs_states hst).2.2.1
  | opens st hs hst =>
    exfalso
    rcases hs with ⟨hs, -⟩ | ⟨hs, -⟩ <;> simp [hs] at hu
  | ends st ooo hst hc => exact absurd hc hx

namespace TcpEngine

variable {a : Action} {e f g : TcpEngine} {x : Int} {w : List UInt8} {done : Prop}
  {seg : TcpSegment}

/-- What is said on the way from `e` to `f` is no more than `f` has taken. -/
structure Voice (x : Int) (e f : TcpEngine) : Prop where
  grows : e.intake.position ≤ f.intake.position
  logs : Logs (Event.Says x f.intake.position) e f

theorem Voice.trans (h : Voice x e f) (h' : Voice x f g) : Voice x e g :=
  ⟨h.grows.trans h'.grows, (h.logs.mono fun _ hev => hev.mono h'.grows).trans h'.logs⟩

theorem Voice.of_position (hv : f.intake.position = e.intake.position)
    (hl : Logs (Event.Says x e.intake.position) e f) : Voice x e f := by
  refine ⟨hv.ge, ?_⟩
  rw [hv]
  exact hl

theorem Voice.of_intake (hv : f.intake = e.intake)
    (hl : Logs (Event.Says x e.intake.position) e f) : Voice x e f :=
  .of_position (by rw [hv]) hl

theorem Voice.refl (e : TcpEngine) : Voice x e e := .of_intake rfl (.none rfl)

/-- An acknowledgement of RCV.NXT. -/
theorem tells_next (hn : e.tcb.rcvNxt = seqAt x e.intake.position)
    (hack : seg.ackFlag = true → seg.ack = e.tcb.rcvNxt) :
    Event.Says x e.intake.position (.tx seg) := by
  intro s hs ha _
  obtain rfl := Event.tx.inj hs
  exact ⟨_, le_rfl, (hack ha).trans hn⟩

theorem Emits.tells {ev : Event} (h : Emits a e f ev)
    (hn : f.tcb.rcvNxt = seqAt x f.intake.position) :
    ev.Says x f.intake.position := by
  have hreset (s : TcpSegment) (hr : s.rst = true) : Event.Says x f.intake.position (.tx s) := by
    intro s' hs _ hr'
    obtain rfl := Event.tx.inj hs
    rw [hr] at hr'
    cases hr'
  have hquiet (hq : ∀ s, ev ≠ .tx s) : ev.Says x f.intake.position :=
    (Event.mute_of_not_tx hq).tells
  cases h with
  | queued o s _ _ hack => exact tells_next hn hack
  | resent o rest s _ _ hack => exact tells_next hn hack
  | synAck s _ _ _ _ _ hack => exact tells_next hn hack
  | bare s _ _ hack => exact tells_next hn hack
  | reset s _ hr => exact hreset s hr
  | rstReply s t _ hr => exact hreset s hr
  | _ => exact hquiet (by simp)

/-- What is not the peer's doing says no more than has been taken already. -/
theorem Move.voice (ha : ∀ seg, ¬ a.Carries seg) (hm : Move a e f)
    (hn : e.tcb.rcvNxt = seqAt x e.intake.position) :
    Voice x e f ∧ f.tcb.rcvNxt = seqAt x f.intake.position := by
  obtain ⟨hpos, hnext⟩ := (hm.hush ha).position
  have hnext : f.tcb.rcvNxt = e.tcb.rcvNxt := hnext
  have hf : f.tcb.rcvNxt = seqAt x f.intake.position := by rw [hnext, hpos, hn]
  refine ⟨⟨hpos.ge, ?_⟩, hf⟩
  rcases hm.logs with hr | hl
  · exfalso
    cases hr with
    | takeInOrder seg off n hc => exact ha seg hc
    | mergeEntry seg y hc => exact ha seg hc
  · exact hl.mono fun ev hev => hev.tells hf

theorem Path.position (ha : ∀ seg, ¬ a.Carries seg) (h : Path a e f) :
    f.intake.position = e.intake.position := by
  induction h with
  | refl => rfl
  | tail _ hm ih => exact (hm.hush ha).position.1.trans ih

theorem Path.voice (ha : ∀ seg, ¬ a.Carries seg) (h : Path a e f)
    (hn : e.tcb.rcvNxt = seqAt x e.intake.position) :
    Voice x e f ∧ f.tcb.rcvNxt = seqAt x f.intake.position := by
  induction h with
  | refl => exact ⟨.refl e, hn⟩
  | tail _ hm ih =>
    obtain ⟨hv, hg⟩ := ih
    obtain ⟨hv', hf⟩ := hm.voice ha hg
    exact ⟨hv.trans hv', hf⟩

/-! ## Text and FIN -/

/-- RCV.NXT is where the stream of the peer has been taken to. -/
def Abreast (x : Int) (e : TcpEngine) : Prop := e.tcb.rcvNxt = seqAt x e.intake.position

theorem Abreast.path (h : e.Abreast x) (hp : Path .close e f) : Voice x e f :=
  (hp.voice close_not_carries h).1

theorem Abreast.sendAck (h : e.Abreast x) : Voice x e e.sendAck :=
  .of_intake sendAck_intake (.one (.tx e.ackSegment) (by simp) (tells_next h fun _ => rfl))

theorem Abreast.scheduleAck (h : e.Abreast x) (force : Bool) : Voice x e (e.scheduleAck force) := by
  refine .of_intake (scheduleAck_intake force) ?_
  obtain ⟨n, hs⟩ | ⟨d, n, -, -, -, hs⟩ | ⟨-, -, n, hs⟩ := e.scheduleAck_cases force
  · have hn : Abreast x { e with tm := { e.tm with ackCount := n } } := h
    rw [hs]
    exact .one (.tx (ackSegment { e with tm := { e.tm with ackCount := n } })) (by simp)
      (tells_next hn fun _ => rfl)
  · exact .none (by rw [hs])
  · exact .none (by rw [hs])

theorem emitRstReply_voice (s : TcpSegment) (seq ack : Int) (b : Bool) :
    Voice x e (e.emitRstReply s seq ack b) := by
  refine .of_intake (emitRstReply_intake s seq ack b) ?_
  rw [emitRstReply_eq]
  refine .one _ rfl ?_
  intro seg hs _ hr
  obtain rfl := Event.tx.inj hs
  cases hr

/-- Text is delivered, and nothing is said. -/
theorem TextFrame.voice (ht : TextFrame e f) : Voice x e f := by
  obtain ⟨evs, hl, hd⟩ := ht.log
  refine ⟨?_, evs, hl, fun ev hev => ?_⟩
  · show e.delivered.length + 1 + e.fin.peerFin.toNat ≤ f.delivered.length + 1 + f.fin.peerFin.toNat
    rw [ht.recv.fin, delivered, delivered, hl, List.flatMap_append, List.length_append]
    omega
  · obtain ⟨data, rfl⟩ := hd ev hev
    exact (Event.mute_of_not_tx (by simp)).tells

/-- What is read is text, and an acknowledgement of it, now or later. -/
theorem recvTrimmed_reads (seg : TcpSegment) (seq : Int) (data : List UInt8) :
    ∃ f force, TextFrame e f ∧ e.recvTrimmed seg seq data = f.scheduleAck force := by
  unfold recvTrimmed
  dsimp only
  split_ifs
  · exact ⟨e, true, .refl e, rfl⟩
  · exact ⟨_, false, (takeInOrder_text seg _).trans (mergeLoop_text _), rfl⟩
  · exact ⟨_, true, storeOoo_text _ _ _, rfl⟩

theorem recvData_reads (seg : TcpSegment) : e.recvData seg = e ∨
    ∃ f force, TextFrame e f ∧ e.recvData seg = f.scheduleAck force := by
  unfold recvData
  dsimp only
  split_ifs
  · exact Or.inl rfl
  · exact Or.inr ⟨e, true, .refl e, rfl⟩
  · exact Or.inr (recvTrimmed_reads _ _ _)
  · exact Or.inr (recvTrimmed_reads _ _ _)

theorem recvData_voice (hf : (e.recvData seg).Abreast x) : Voice x e (e.recvData seg) := by
  rcases recvData_reads (e := e) seg with hr | ⟨f, force, ht, hr⟩
  · rw [hr]
    exact .refl e
  · rw [hr] at hf ⊢
    have hn : f.Abreast x := by
      unfold Abreast at hf ⊢
      rwa [scheduleAck_tcb, scheduleAck_intake] at hf
    exact ht.voice.trans (hn.scheduleAck force)

/-- The FIN of the peer, and the acknowledgement of it. -/
theorem processFin_voice (h : e.processFin.Abreast x) : Voice x e e.processFin := by
  have hpeer : e.processFin.fin.peerFin = true := by
    obtain ⟨st, -, hf⟩ | ⟨-, hf⟩ := processFin_cases (e := e) <;> simp [hf]
  have hdel : e.processFin.delivered = e.delivered :=
    Logs.delivered (processFin_logs rfl (tx_bytes _) fun _ => change_bytes _ _)
  refine ⟨?_, processFin_logs (Event.mute_of_not_tx (by simp)).tells (tells_next h ?_)
    fun _ => (Event.mute_of_not_tx (by simp)).tells⟩
  · show e.delivered.length + 1 + e.fin.peerFin.toNat ≤
      e.processFin.delivered.length + 1 + e.processFin.fin.peerFin.toNat
    rw [hdel, hpeer]
    have := e.fin.peerFin.toNat_le
    simp only [Bool.toNat_true]
    omega
  · apply segmentFor_acks _ _ _ _ _
    obtain ⟨st, -, hf⟩ | ⟨-, hf⟩ := processFin_cases (e := e) <;> simp [hf]

/-! ## The handlers -/

theorem checkPendingFin_voice (h : e.checkPendingFin.Abreast x) : Voice x e e.checkPendingFin := by
  unfold checkPendingFin at h ⊢
  split
  · next hp =>
    rw [if_pos hp] at h
    exact processFin_voice h
  · exact .refl e

theorem finCheck_voice (h : e.intake.Follows x w done) (hs : e.tcb.state ∈ OpenStates)
    (hw : w.length < 2147483647)
    (hseg : seg.fin = true → done ∧ add seg.seq seg.payload.length = seqAt x (w.length + 1)) :
    Voice x e (e.finCheck seg).checkPendingFin := by
  have hf : (e.finCheck seg).checkPendingFin.Abreast x := (finCheck_follows h hs hw hseg).next
  unfold finCheck at hf ⊢
  dsimp only at hf ⊢
  split_ifs at hf ⊢
  · rw [checkPendingFin, if_neg (by simp [processFin_pendingFin])] at hf ⊢
    exact processFin_voice hf
  · exact Voice.trans (f := e.deferFin (add seg.seq seg.payload.length))
      (.of_position rfl (.none rfl)) (checkPendingFin_voice hf)
  · exact checkPendingFin_voice hf
  · exact checkPendingFin_voice hf

theorem textAndFin_voice (h : e.intake.Follows x w done) (hs : e.tcb.state ∈ OpenStates)
    (hw : w.length < 2147483647) (hseg : Placed x w done seg) : Voice x e (e.textAndFin seg) := by
  unfold textAndFin
  dsimp only
  have htext : (if seg.payload ≠ [] ∧ e.tcb.state ∈ [.established, .finWait1, .finWait2] then
      e.recvData seg else e).intake.Follows x w done ∧
      Voice x e (if seg.payload ≠ [] ∧ e.tcb.state ∈ [.established, .finWait1, .finWait2] then
        e.recvData seg else e) := by
    split
    · next hc =>
      have hf := recvData_follows h hc.2 hw hseg.text
      exact ⟨hf, recvData_voice hf.next⟩
    · exact ⟨h, .refl e⟩
  have hst : (if seg.payload ≠ [] ∧ e.tcb.state ∈ [.established, .finWait1, .finWait2] then
      e.recvData seg else e).tcb.state ∈ OpenStates := by
    split
    · rwa [(recvData_frame e seg).state]
    · exact hs
  obtain ⟨hf, hv⟩ := htext
  have hp := sendPending_follows hf hst
  exact (hv.trans (Abreast.path hf.next (sendPending_path _))).trans
    (finCheck_voice hp (sendPending_open hst) hw hseg.ends)

theorem windowUpdate_voice (seg : TcpSegment) (h : e.intake.Follows x w done) :
    Voice x e (e.windowUpdate seg) := by
  have hset : Voice x e (e.setSendWindow seg.window seg.seq seg.ack) := .of_intake rfl (.none rfl)
  have hn : (e.setSendWindow seg.window seg.seq seg.ack).Abreast x := h.next
  unfold windowUpdate
  dsimp only
  split_ifs
  · exact hset.trans (hn.path (cancelPersist_path _))
  · exact hset
  · exact .refl e

theorem enterClosed_voice (hb : e.Blocked) (h : e.intake.Follows x w done) :
    Voice x e e.enterClosed := by
  have hne : e.tcb.state ≠ .closed := fun hx => by
    have hs : e.tcb.state ∈ SyncStates := h.state
    rw [hx] at hs
    exact absurd hs (by decide)
  exact Abreast.path h.next (Path.of_move (.close e True.intro hb hne))

theorem establishedAck_voice (h : e.intake.Follows x w done) (hs : e.tcb.state ∈ OpenStates)
    (hw : w.length < 2147483647) (hseg : Placed x w done seg) :
    Voice x e (e.establishedAck seg) := by
  unfold establishedAck
  split
  · exact Abreast.sendAck h.next
  dsimp only
  have hp : (if seqGt seg.ack e.tcb.sndUna then e.processAck seg.ack else e).intake = e.intake ∧
      Voice x e (if seqGt seg.ack e.tcb.sndUna then e.processAck seg.ack else e) := by
    split
    · exact ⟨processAck_intake seg.ack, .of_intake (processAck_intake seg.ack) (.none (by simp))⟩
    · exact ⟨rfl, .refl e⟩
  obtain ⟨hp, hv⟩ := hp
  generalize (if seqGt seg.ack e.tcb.sndUna then e.processAck seg.ack else e) = f at hp hv
  have hfs : f.tcb.state ∈ OpenStates := by
    have : f.tcb.state = e.tcb.state := congrArg Intake.state hp
    rwa [this]
  have hf := follows_stays h hp
  have hg := windowUpdate_follows seg hf hfs
  have hgs := windowUpdate_open seg hfs
  have hgv := hv.trans (windowUpdate_voice seg hf)
  generalize f.windowUpdate seg = g at hg hgs hgv
  split_ifs with h1 h2 h3
  · have hst : (g.setState .finWait2).intake.Follows x w done :=
      setState_follows hg (by rw [h1.1]; decide)
    have hset : Path .close g (g.setState .finWait2) := Path.of_move (.finAckedWait g h1.1 h1.2)
    exact (hgv.trans (Abreast.path hg.next hset)).trans (textAndFin_voice hst (by simp) hw hseg)
  · exact hgv.trans (Abreast.path hg.next (Path.of_move (.finAckedTimeWait g h2.1 h2.2)))
  · exact hgv.trans (enterClosed_voice (blocked_of_not_canSend (by simp [CanSend, h3.1])) hg)
  · exact hgv.trans (textAndFin_voice hg hgs hw hseg)

theorem setState_mute (st : ConnState) : Logs Event.Mute e (e.setState st) :=
  setState_logs st fun _ => Event.mute_of_not_tx (by simp)

theorem Logs.tells {P : Event → Prop} {p : Nat} (h : Logs P e f) (hp : ∀ ev, P ev → ev.Mute) :
    Logs (Event.Says x p) e f :=
  h.mono fun ev hev => (hp ev hev).tells

theorem synReceivedAck_voice (h : e.intake.Follows x w done) (hs : e.tcb.state = .synReceived)
    (hw : w.length < 2147483647) (hseg : Placed x w done seg) :
    Voice x e (e.synReceivedAck seg) := by
  unfold synReceivedAck
  split
  · dsimp only
    have hr : ((e.processAck seg.ack).setSendWindow seg.window seg.seq seg.ack).intake = e.intake :=
      processAck_intake seg.ack
    have hrv : Voice x e ((e.processAck seg.ack).setSendWindow seg.window seg.seq seg.ack) :=
      .of_intake hr (.none (by simp [setSendWindow]))
    generalize (e.processAck seg.ack).setSendWindow seg.window seg.seq seg.ack = f at hr hrv
    have hfs : f.tcb.state = .synReceived := (congrArg Intake.state hr).trans hs
    have hg : (f.setState .established).intake.Follows x w done :=
      setState_follows (follows_stays h hr) (by rw [hfs]; decide)
    have hgs : (f.setState .established).tcb.state = .established := by simp
    have hgv : Voice x e (f.setState .established) := by
      refine hrv.trans (.of_position ?_ ((f.setState_mute .established).tells fun _ hev => hev))
      have hd : (f.setState .established).delivered = f.delivered :=
        Logs.delivered (setState_logs .established fun _ => change_bytes _ _)
      simp [Intake.position, intake, hd]
    generalize f.setState .established = g at hg hgs hgv
    have hm := mergeReassembly_follows hg (by rw [hgs]; decide) hw
    have hms : g.mergeReassembly.tcb.state ∈ OpenStates := by
      rw [(mergeReassembly_frame g).state, hgs]
      decide
    have hmv : Voice x e g.mergeReassembly := hgv.trans (TextFrame.voice (mergeLoop_text _))
    exact (hmv.trans (Abreast.path hm.next (sendPending_path _))).trans
      (textAndFin_voice (sendPending_follows hm hms) (sendPending_open hms) hw hseg)
  · exact emitRstReply_voice _ _ _ _

theorem doReset_voice (hb : e.Blocked) (h : e.intake.Follows x w done) : Voice x e e.doReset := by
  by_cases hl : e.tcb.state = .synReceived ∧ e.fin.passive = true
  · have hlog {P : Event → Prop} (hP : ∀ o n, P (.stateChange o n)) : Logs P e e.doReset := by
      rw [doReset_listen hl.1 hl.2]
      exact (setState_logs .listen fun _ => hP _ _).trans (.none rfl)
    have hd : e.doReset.delivered = e.delivered := Logs.delivered (hlog change_bytes)
    have hp : e.doReset.fin.peerFin = e.fin.peerFin := by
      rw [doReset_listen hl.1 hl.2]
      simp [restorePort, resetBuffers]
    refine .of_position (by simp [Intake.position, intake, hd, hp]) (hlog fun o n => ?_)
    exact (Event.mute_of_not_tx (by simp)).tells
  · obtain ⟨msg, hmsg, hd⟩ := doReset_close hl
    rw [hd]
    have hp : Path .close e (e.signalError msg) := Path.of_move (.signalError e msg hmsg)
    have hf : (e.signalError msg).intake.Follows x w done := hp.keepsFollowing h h.state
    exact (Abreast.path h.next hp).trans (enterClosed_voice (hb.of_view rfl) hf)

theorem timeWaitArrives_voice (h : e.intake.Follows x w done) (hs : e.tcb.state = .timeWait) :
    Voice x e (e.timeWaitArrives seg) := by
  have hack : Voice x e e.sendAck := Abreast.sendAck h.next
  unfold timeWaitArrives
  split_ifs
  · exact enterClosed_voice (blocked_of_not_canSend (by simp [CanSend, hs])) h
  · exact hack
  · exact hack.trans (.of_intake rfl (.none rfl))
  · exact hack

theorem handleSynchronized_voice (h : e.intake.Follows x w done) (hb : seg.rst = true → e.Blocked)
    (hw : w.length < 2147483647) (hseg : seg.syn = false → Placed x w done seg) :
    Voice x e (e.handleSynchronized seg) := by
  have hack : Voice x e e.sendAck := Abreast.sendAck h.next
  have hs : e.tcb.state ∈ SyncStates := h.state
  unfold handleSynchronized
  split_ifs with htw hacc hr hr hq hsyn hackf hsr
  · exact timeWaitArrives_voice h htw
  · exact .refl e
  · exact hack
  · exact doReset_voice (hb hr) h
  · exact hack
  · exact hack
  · exact .refl e
  · exact synReceivedAck_voice h hsr hw (hseg (by simpa using hsyn))
  · refine establishedAck_voice h ?_ hw (hseg (by simpa using hsyn))
    revert hs htw hsr
    cases e.tcb.state <;> decide

/-! ## The SYN of the peer -/

theorem Abreast.queueAndSend (h : e.Abreast x) (flags : Flags) (payload : List UInt8) (m : Bool)
    (urg : Nat) : Logs (Event.Says x e.intake.position) e (e.queueAndSend flags payload m urg) :=
  queueAndSend_logs _ _ _ _ (tells_next h (segmentFor_acks _ _ _ _ _ rfl))

theorem handleListen_voice (h : e.intake.Unopened) (hs : e.tcb.state = .listen)
    (hseg : Genuine x w done seg) : Voice x e (e.handleListen seg) := by
  unfold handleListen
  split_ifs with hr ha hsyn hp
  · exact .refl e
  · exact emitRstReply_voice _ _ _ _
  · exact .refl e
  · exact .refl e
  · obtain ⟨m, -, -, ha⟩ := acceptSyn_eq (e := e) seg hs
    rw [ha]
    have hn : (e.listenTaken seg m).tcb.rcvNxt = seqAt x 1 := after_syn hseg (by simpa using hsyn)
    have ho : (e.listenTaken seg m).intake.Follows x w done :=
      follows_opened h (by simp [listenTaken, delivered, Event.bytes]) rfl rfl rfl
        (by simp [listenTaken, listenTcb]) hn
    have hv : Voice x e (e.listenTaken seg m) := by
      refine .of_position ?_ ⟨_, rfl, ?_⟩
      · simp [Intake.position, intake, listenTaken, delivered, Event.bytes]
      · intro ev hev
        rw [List.mem_singleton.mp hev]
        exact (Event.mute_of_not_tx (by simp)).tells
    refine hv.trans (.of_intake ?_ (Abreast.queueAndSend ho.next _ _ _ _))
    refine SendFrame.intake ⟨by simp, by simp, by simp, by simp, by simp, by simp⟩ (by simp) ?_
      (by simp)
    exact Logs.delivered (queueAndSend_logs _ _ _ _ (tx_bytes _))

theorem handleClosed_voice : Voice x e (e.handleClosed seg) := by
  unfold handleClosed
  split_ifs
  · exact .refl e
  · exact emitRstReply_voice _ _ _ _
  · exact emitRstReply_voice _ _ _ _

theorem takeSyn_voice (st : ConnState) : Voice x e ((e.takeSyn seg).setState st) := by
  obtain ⟨b, hfin⟩ := takeSyn_fin (e := e) seg
  have hl : Logs Event.Mute e ((e.takeSyn seg).setState st) :=
    (Logs.none (takeSyn_env seg)).trans ((e.takeSyn seg).setState_mute st)
  have hd : ((e.takeSyn seg).setState st).delivered = e.delivered := by
    refine (Logs.delivered (setState_logs st fun _ => change_bytes _ _)).trans ?_
    simp [delivered, takeSyn_env]
  exact .of_position (by simp [Intake.position, intake, hd, hfin]) (hl.tells fun _ hev => hev)

theorem synSentEstablished_voice (h : e.intake.Unopened) (hseg : Genuine x w done seg)
    (hsyn : seg.syn = true) (hr : seg.rst = false) (hw : w.length < 2147483647) :
    Voice x e ((e.takeSyn seg).synSentEstablished seg) := by
  have hf := takeSyn_follows h hseg hsyn .established (by decide)
  have hfs : ((e.takeSyn seg).setState .established).tcb.state = .established := by simp
  have hv : Voice x e ((e.takeSyn seg).setState .established) := takeSyn_voice .established
  unfold synSentEstablished
  dsimp only
  generalize (e.takeSyn seg).setState .established = f at hf hfs hv
  have hack : f.sendAck.intake.Follows x w done := follows_stays hf sendAck_intake
  have hg := sendPending_follows hack (by rw [sendAck_tcb, hfs]; decide)
  have hgv : Voice x e f.sendAck.sendPending :=
    (hv.trans (Abreast.sendAck hf.next)).trans (Abreast.path hack.next (sendPending_path _))
  split
  · refine hgv.trans (handleSynchronized_voice hg (fun hx => ?_) hw fun _ => hseg.synTaken hsyn)
    have hx : seg.rst = true := hx
    rw [hr] at hx
    cases hx
  · exact hgv

theorem simultaneousOpen_voice (h : e.intake.Unopened) (hseg : Genuine x w done seg)
    (hsyn : seg.syn = true) : Voice x e ((e.takeSyn seg).simultaneousOpen seg) := by
  have hf := takeSyn_follows h hseg hsyn .synReceived (by decide)
  have hk : (e.takeSyn seg).becomeSynReceived.intake.Follows x w done := hf
  have hv : Voice x e (e.takeSyn seg).becomeSynReceived :=
    (takeSyn_voice .synReceived).trans (.of_intake rfl (.none rfl))
  unfold simultaneousOpen
  dsimp only
  generalize (e.takeSyn seg).becomeSynReceived = k at hk hv
  -- text and FIN of the SYN are put by, and nothing is said of them
  have hputs (c : Prop) [Decidable c] (g g' : TcpEngine)
      (hp : g'.intake.position = g.intake.position)
      (hn : g'.tcb.rcvNxt = g.tcb.rcvNxt) (hl : g'.env.log = g.env.log) (hgv : Voice x e g)
      (hga : g.Abreast x) : Voice x e (if c then g' else g) ∧ (if c then g' else g).Abreast x := by
    split
    · refine ⟨hgv.trans (.of_position hp (.none hl)), ?_⟩
      unfold Abreast
      rw [hn, hp]
      exact hga
    · exact ⟨hgv, hga⟩
  have hstore (g : TcpEngine) (n : Int) (d : List UInt8) (fl : Flags) :
      (g.storeOoo n d fl).intake.position = g.intake.position ∧
        (g.storeOoo n d fl).tcb.rcvNxt = g.tcb.rcvNxt := by
    unfold storeOoo
    split <;> exact ⟨rfl, rfl⟩
  obtain ⟨hv1, ha1⟩ := hputs (seg.payload ≠ []) k
    (k.storeOoo (add seg.seq 1) seg.payload { seg.flags with fin := false })
    (hstore _ _ _ _).1 (hstore _ _ _ _).2 (storeOoo_env _ _ _) hv hk.next
  generalize (if seg.payload ≠ [] then
    k.storeOoo (add seg.seq 1) seg.payload { seg.flags with fin := false } else k) = g at hv1 ha1
  obtain ⟨hv2, ha2⟩ := hputs (seg.fin = true) g
    (g.deferFin (add (add seg.seq 1) seg.payload.length)) rfl rfl rfl hv1 ha1
  refine hv2.trans (.of_intake ?_ ?_)
  · refine SendFrame.intake ⟨by simp [sendSynAck], by simp [sendSynAck], by simp [sendSynAck],
      by simp [sendSynAck], by simp [sendSynAck], by simp [sendSynAck]⟩ (by simp [sendSynAck]) ?_
      (by simp [sendSynAck])
    exact Logs.delivered (makeAndTransmit_logs _ _ _ _ _ (tx_bytes _))
  · exact makeAndTransmit_logs _ _ _ _ _ (tells_next ha2 (segmentFor_acks _ _ _ _ _ rfl))

theorem handleSynSent_voice (h : e.intake.Unopened) (hs : e.tcb.state = .synSent)
    (hw : w.length < 2147483647) (hseg : Genuine x w done seg) :
    Voice x e (e.handleSynSent seg) := by
  unfold handleSynSent
  split
  · split
    · exact .refl e
    · exact emitRstReply_voice _ _ _ _
  dsimp only
  split
  · split
    · have hb : (e.signalError "connection refused").Blocked :=
        (blocked_of_not_canSend (by simp [CanSend, hs])).of_view rfl
      have hl : Logs Event.Mute e (e.signalError "connection refused").enterClosed := by
        have hm : Logs Event.Mute e (e.signalError "connection refused") :=
          .one _ rfl (Event.mute_of_not_tx (by simp))
        exact hm.trans (enterClosed_logs hb fun _ => Event.mute_of_not_tx (by simp))
      have hp : Path .close e (e.signalError "connection refused").enterClosed :=
        .head (.signalError e "connection refused" (by decide))
          (Path.of_move (.close _ True.intro hb (by simp [hs])))
      exact .of_position (hp.position close_not_carries) (hl.tells fun _ hev => hev)
    · exact .refl e
  next hr =>
  split
  · exact .refl e
  next hsyn =>
  have hsyn : seg.syn = true := by simpa using hsyn
  split
  · exact synSentEstablished_voice h hseg hsyn (by simpa using hr) hw
  · exact simultaneousOpen_voice h hseg hsyn

/-! ## Before the connection -/

/-- Nothing is there to acknowledge or to acknowledge with: no delayed ACK and no probe is due, and
what waits for an answer is a SYN. -/
structure Unspoken (e : TcpEngine) : Prop where
  acks : e.tm.ackTimer = none
  probes : e.tm.persistTimer = none
  buffer : e.buf.recvBuf = []
  queue : ∀ o ∈ e.buf.retx, o.flags.ack = false

/-- On the way from `e` to `f` nothing has been acknowledged, and nothing is going to be. -/
structure Hushes (e f : TcpEngine) : Prop where
  logs : Logs Event.Mute e f
  silent : f.Unspoken

theorem Hushes.same (h : e.Unspoken) (ht : f.tm = e.tm) (hb : f.buf.recvBuf = e.buf.recvBuf)
    (hr : f.buf.retx = e.buf.retx) (hl : f.env.log = e.env.log) : Hushes e f :=
  ⟨.none hl, by rw [ht]; exact h.acks, by rw [ht]; exact h.probes, by rw [hb]; exact h.buffer,
    by rw [hr]; exact h.queue⟩

theorem Unspoken.fire (h : e.Unspoken) (g : TimerHandle Callback) : (e.fire g).Unspoken := by
  refine ⟨?_, ?_, by rw [fire_buf]; exact h.buffer, by rw [fire_buf]; exact h.queue⟩
  · rcases fire_ackTimer (e := e) (h := g) with hf | hf
    · exact hf.trans h.acks
    · exact hf
  · have hp := h.probes
    simp only [TcpEngine.fire]
    cases g.cb with
    | onPersist => rfl
    | _ => exact hp

theorem Hushes.refl (h : e.Unspoken) : Hushes e e := .same h rfl rfl rfl rfl

theorem Hushes.after (h : Hushes f g) (hl : f.env.log = e.env.log) : Hushes e g :=
  ⟨Logs.trans (.none hl) h.logs, h.silent⟩

theorem mute_tx {seg : TcpSegment} (h : seg.ackFlag = true → seg.rst = true) :
    Event.Mute (.tx seg) := by
  intro s hs ha
  obtain rfl := Event.tx.inj hs
  exact h ha

theorem raise_hushes (h : e.Unspoken) (msg : String) : Hushes e (e.raise msg) :=
  .same h rfl rfl rfl rfl

theorem connect_hushes (h : e.Unspoken) (hs : e.tcb.state = .closed ∨ e.tcb.state = .listen) :
    Hushes e e.connect := by
  rw [connect_eq hs]
  refine ⟨?_, ?_⟩
  · have hd : Logs Event.Mute e e.dialled := .one _ rfl (Event.mute_of_not_tx (by simp))
    exact hd.trans (queueAndSend_logs _ _ _ _ (mute_tx fun ha => nomatch ha))
  · have hq : (e.dialled.queueAndSend { syn := true } [] true).buf =
        { e.buf with retx := e.buf.retx ++ [e.dialled.outgoing { syn := true } []] } := by
      simp [dialled]
    have hk := (ackSide_eq_iff.mp (queueAndSend_keeps (e := e.dialled) { syn := true } [] true 0).2)
    refine ⟨hk.2.1.trans h.acks, ?_, by rw [hq]; exact h.buffer, fun o ho => ?_⟩
    · simpa [dialled] using h.probes
    · rw [hq] at ho
      rcases List.mem_append.mp ho with ho | ho
      · exact h.queue o ho
      · rw [List.mem_singleton.mp ho]
        rfl

theorem activeOpen_hushes (h : e.Unspoken) : Hushes e e.activeOpen := by
  unfold activeOpen
  split
  · exact raise_hushes h _
  · next hs => exact connect_hushes h (by tauto)

theorem passiveOpen_hushes (h : e.Unspoken) : Hushes e e.passiveOpen := by
  unfold passiveOpen
  split
  · exact raise_hushes h _
  · have hk :=
      ackSide_eq_iff.mp (setState_keeps (e := { e with fin := { e.fin with passive := true } })
      .listen).2
    refine ⟨(Logs.none rfl).trans (setState_mute _), hk.2.1.trans h.acks, ?_, ?_, ?_⟩
    · simpa [startListening] using h.probes
    · simpa [startListening] using h.buffer
    · simpa [startListening] using h.queue

/-- The connection attempt is given up. -/
theorem enterClosed_hushes (hb : e.Blocked) (ht : e.tm.Timely) (hs : ¬ e.CanSend) :
    Hushes e e.enterClosed :=
  ⟨enterClosed_logs hb fun _ => Event.mute_of_not_tx (by simp),
    (enterClosed_slots hb ht).2.1 .onDelack (by simp), enterClosed_persist hb ht hs,
    by simp, by simp⟩

theorem giveUp_hushes (msg : String) (hb : e.Blocked) (ht : e.tm.Timely) (hs : ¬ e.CanSend) :
    Hushes e (e.giveUp msg) := by
  obtain ⟨f, hf, hfb, h⟩ := giveUp_closes msg hb
  rw [h]
  have hrst : Logs Event.Mute e e.sendRst := sendRst_logs (mute_tx fun _ => rfl)
  obtain rfl | rfl := hf
  · have hl : Logs Event.Mute f (f.signalError msg) := .one _ rfl (Event.mute_of_not_tx (by simp))
    have hk := enterClosed_hushes hfb ht hs
    exact ⟨hl.trans hk.logs, hk.silent⟩
  · have hl : Logs Event.Mute e (e.sendRst.signalError msg) :=
      hrst.trans (.one _ rfl (Event.mute_of_not_tx (by simp)))
    have hk := enterClosed_hushes hfb (by simpa using ht) (by simpa [CanSend] using hs)
    exact ⟨hl.trans hk.logs, hk.silent⟩

theorem sendQueued_hushes (h : e.Unspoken) (hs : e.tcb.state ∈ Intake.Before) (data : List UInt8)
    (urgent : Bool) : Hushes e (e.sendQueued data urgent) := by
  unfold sendQueued
  dsimp only
  have hup : (if urgent && !data.isEmpty then e.setSndUp else e).tcb.state = e.tcb.state := by
    split <;> rfl
  have hk : Hushes e (if urgent && !data.isEmpty then e.setSndUp else e) := by
    split
    · exact .same h rfl rfl rfl rfl
    · exact .refl h
  rw [if_neg]
  · exact hk
  · rw [hup]
    revert hs
    cases e.tcb.state <;> decide

theorem send_hushes (h : e.Unspoken) (hs : e.tcb.state ∈ Intake.Before) (data : List UInt8)
    (push urgent : Bool) (t : Option ℚ) : Hushes e (e.send data push urgent t) := by
  by_cases ha : e.AcceptsSend
  · rw [send_of_accepts data push urgent t ha]
    have hk : Hushes e ((e.setUserTimeout t).bufferData data push) := by
      cases t <;> exact .same h rfl rfl rfl rfl
    have hst : ((e.setUserTimeout t).bufferData data push).tcb.state = e.tcb.state := by
      cases t <;> rfl
    generalize (e.setUserTimeout t).bufferData data push = f at hk hst
    have hf : f.tcb.state ∈ Intake.Before := by rwa [hst]
    unfold sendBuffered
    split_ifs with hl hp hx
    · exact ⟨hk.logs.trans (.none rfl), (raise_hushes hk.silent _).silent⟩
    · exact ⟨hk.logs.trans (activeOpen_hushes hk.silent).logs, (activeOpen_hushes hk.silent).silent⟩
    · have ho := activeOpen_hushes hk.silent
      have hq := sendQueued_hushes ho.silent (by
        rw [activeOpen_eq (Or.inr hl), connect_eq (Or.inr hl)]
        simp [dialled]) data urgent
      exact ⟨hk.logs.trans (ho.logs.trans hq.logs), hq.silent⟩
    · have hq := sendQueued_hushes hk.silent hf data urgent
      exact ⟨hk.logs.trans hq.logs, hq.silent⟩
  · obtain ⟨msg, hm⟩ := send_of_refused (e := e) data push urgent t ha
    rw [hm]
    exact raise_hushes h msg

/-- There is nothing to take out of the buffer, so no window to announce. -/
theorem receive_hushes (h : e.Unspoken) (n : Nat) : Hushes e (e.receive n) := by
  unfold receive
  split_ifs
  · exact raise_hushes h _
  · exact raise_hushes h _
  · exact raise_hushes h _
  · dsimp only
    rw [h.buffer, List.take_nil, if_neg (by simp)]
    refine
      ⟨.one _ (by rw [finishReceive_env]; rfl) (Event.mute_of_not_tx (by simp)), ?_, ?_, ?_, ?_⟩
    · simpa [drain] using h.acks
    · simpa [drain] using h.probes
    · simp [drain, h.buffer]
    · simpa [drain] using h.queue

theorem onRto_hushes {g : TimerHandle Callback} (h : e.Unspoken) (hcb : g.cb = .onRto)
    (hb : e.Blocked)
    (ht : e.TimerInv) (hl : g ∈ e.tm.sched.live) (hs : ¬ e.CanSend) :
    Hushes e (e.popTimer g).onRto := by
  have hf : (e.popTimer g).forgetTimer .onRto = e.fire g := by rw [fire, hcb]
  have hfs : (e.fire g).Unspoken :=
    h.fire g
  have hft : (e.fire g).tm.Timely := (fire_retimes hl).timely ht.timely
  unfold onRto
  rw [hf]
  dsimp only
  split
  · exact (Hushes.refl hfs).after (by simp)
  · next o rest hq =>
    split
    · exact (giveUp_hushes _ (hb.fire g) hft (by simpa [CanSend] using hs)).after (by simp)
    · split
      · have hc : (e.fire g).countRto.Blocked := (hb.fire g).of_view rfl
        exact (giveUp_hushes "retransmission timeout" hc hft (by simpa [CanSend] using hs)).after
          (by simp)
      · have ho : ∀ o' ∈ o :: rest, o'.flags.ack = false := by
          rw [← hq]
          exact hfs.queue
        refine ⟨Logs.trans (f := (e.fire g).countRto) (.none (by simp))
          (retransmitHead_logs o rest (mute_tx fun ha => ?_)), ?_, ?_, ?_, ?_⟩
        · have ha : o.flags.ack = true := ha
          rw [ho o List.mem_cons_self] at ha
          cases ha
        · exact (ackSide_eq_iff.mp
            (retransmitHead_keeps (e := (e.fire g).countRto) o rest).2).2.1.trans
            hfs.acks
        · simpa [countRto] using hfs.probes
        · simpa using hfs.buffer
        · obtain hr | ⟨-, -, hr⟩ := retransmitHead_cases (e := (e.fire g).countRto) o rest
          · rw [hr]
            intro o' ho'
            rcases List.mem_cons.mp ho' with rfl | hmem
            · exact ho o List.mem_cons_self
            · exact ho o' (List.mem_cons_of_mem _ hmem)
          · rw [hr]
            intro o' ho'
            rcases List.mem_cons.mp ho' with rfl | hmem
            · exact ho o List.mem_cons_self
            · exact ho o' (List.mem_cons_of_mem _ hmem)

/-- Of the timers only those of a connection attempt can expire. -/
theorem expire_hushes {g : TimerHandle Callback} (h : e.Unspoken) (hs : e.tcb.state ∈ Intake.Before)
    (hb : e.Blocked) (ht : e.TimerInv) (hl : g ∈ e.tm.sched.live) :
    Hushes e ((e.popTimer g).callback g.cb) := by
  have hcan : ¬ e.CanSend := by
    unfold CanSend
    revert hs
    cases e.tcb.state <;> simp
  have hheld : e.tm.slot g.cb = some g.id := ht.timely.held g hl
  cases hcb : g.cb with
  | onRto => exact onRto_hushes h hcb hb ht hl hcan
  | onPersist =>
    rw [hcb] at hheld
    exact absurd (h.probes.symm.trans hheld) (by simp)
  | onDelack =>
    rw [hcb] at hheld
    exact absurd (h.acks.symm.trans hheld) (by simp)
  | onTimeWait =>
    have hf : (e.popTimer g).forgetTimer .onTimeWait = e.fire g := by rw [fire, hcb]
    rw [callback, onTimeWait, hf]
    have hft : (e.fire g).tm.Timely := (fire_retimes hl).timely ht.timely
    exact (enterClosed_hushes (hb.fire g) hft (by simpa [CanSend] using hcan)).after (by simp)
  | onKeepalive =>
    have hf : (e.popTimer g).forgetTimer .onKeepalive = e.fire g := by rw [fire, hcb]
    have hne : e.tcb.state ≠ .established := by
      revert hs
      cases e.tcb.state <;> decide
    rw [callback, onKeepalive, hf, if_pos (Or.inr (by rwa [fire_tcb]))]
    exact (Hushes.refl (h.fire g)).after (by simp)

theorem perform_hushes (h : e.Unspoken) (hs : e.tcb.state ∈ Intake.Before) (hb : e.Blocked)
    (ht : e.TimerInv) (ha : ∀ data, a ≠ .segment data) (hl : e.Enabled a) :
    Hushes e (e.perform a) := by
  have hcan : ¬ e.CanSend := by
    unfold CanSend
    revert hs
    cases e.tcb.state <;> simp
  cases a with
  | tick dt => exact ⟨.none rfl, h.acks, h.probes, h.buffer, h.queue⟩
  | random r => exact .same h rfl rfl rfl rfl
  | openCall active r l t =>
    have hk : Hushes e ((e.setPorts r l).setUserTimeout t) := by
      cases t <;> exact .same h rfl rfl rfl rfl
    unfold perform openCall
    dsimp only
    split
    · exact ⟨hk.logs.trans (activeOpen_hushes hk.silent).logs, (activeOpen_hushes hk.silent).silent⟩
    · exact ⟨hk.logs.trans (passiveOpen_hushes hk.silent).logs,
        (passiveOpen_hushes hk.silent).silent⟩
  | activeOpen => exact activeOpen_hushes h
  | passiveOpen => exact passiveOpen_hushes h
  | send data push urgent t => exact send_hushes h hs data push urgent t
  | receive n => exact receive_hushes h n
  | close =>
    unfold perform close
    split_ifs with h1 h2 h3
    · exact raise_hushes h _
    · exact raise_hushes h _
    · exact enterClosed_hushes hb ht.timely hcan
    · exfalso
      revert h1 h3 hs
      cases e.tcb.state <;> simp
  | abort =>
    unfold perform abort
    split_ifs with h1 h2
    · exact raise_hushes h _
    · exfalso
      revert h2 hs
      cases e.tcb.state <;> simp
    · exact enterClosed_hushes hb ht.timely hcan
  | segment data => exact absurd rfl (ha data)
  | expire g => exact expire_hushes h hs hb ht hl.1

/-- Before the connection what is not a segment says nothing. -/
theorem step_hushes (hk : e.Kept) (h : e.Unspoken) (hs : e.tcb.state ∈ Intake.Before)
    (ha : ∀ data, a ≠ .segment data) (hstep : engineMachine.step e a = some f) : Hushes e f := by
  simp only [engineMachine] at hstep
  split_ifs at hstep with he
  obtain rfl := Option.some.inj hstep
  have hen : e.enter.Enabled a := by
    cases a <;> exact he
  have ht : e.enter.TimerInv := hk.timers.same rfl rfl
  have hse : e.enter.Unspoken := ⟨h.acks, h.probes, h.buffer, h.queue⟩
  exact (perform_hushes hse hs (hk.ready.drained.blocked.of_view rfl) ht ha hen).after rfl

/-- A connection that has been synchronized stays so, or is over. -/
theorem Path.staysSync (hx : a.Closes) (h : Path a e f) (hs : e.tcb.state ∈ SyncStates) :
    f.tcb.state ∈ SyncStates ∨ f.Outside := by
  refine Path.preserves (P := fun f => f.tcb.state ∈ SyncStates ∨ f.Outside) ?_ h (Or.inl hs)
  intro f f' hm hf
  by_cases hne : f.tcb.state = f'.tcb.state
  · rwa [Outside, ← hne]
  rcases hf with hf | hf
  · rcases hm.control.arc hne with harc | hcl
    · have harc : (f.tcb.state, f'.tcb.state) ∈ fsmArcs := harc
      rw [Outside]
      revert hf harc
      cases f.tcb.state <;> cases f'.tcb.state <;> decide
    · right
      have hcl : f'.tcb.state = .closed := hcl
      rw [Outside, hcl]
      decide
  · right
    by_contra hn
    exact (hm.control.begins hf hn).1 hx

theorem handleSynchronized_sync (hc : a.Carries seg) (hs : e.tcb.state ∈ SyncStates)
    (hb : seg.rst = true → e.Blocked) :
    (e.handleSynchronized seg).tcb.state ∈ SyncStates ∨ (e.handleSynchronized seg).Outside := by
  by_cases hx : a.Closes
  · exact Path.staysSync hx (handleSynchronized_path hc hs hb) hs
  · -- neither an ACK nor a RST
    rw [hc.closes_iff, not_or, Bool.not_eq_true, Bool.not_eq_true] at hx
    have hst : (e.handleSynchronized seg).tcb.state = e.tcb.state := by
      unfold handleSynchronized timeWaitArrives
      rw [hx.1, hx.2]
      split_ifs <;> first | contradiction | simp [restartTimeWait, armTwTimer]
    left
    rwa [hst]

theorem Unspoken.emitRstReply (h : e.Unspoken) (s : TcpSegment) (seq ack : Int) (b : Bool) :
    (e.emitRstReply s seq ack b).Unspoken :=
  ⟨by simpa using h.acks, by simpa using h.probes, by simpa using h.buffer, by simpa using h.queue⟩

/-- A segment leaves an engine without a connection as silent as it was, or begins one. -/
theorem handle_silent (hcs : a.Carries seg.synTaken) (h : e.Unspoken)
    (hs : e.tcb.state ∈ Intake.Before) :
    (e.handle seg).Unspoken ∨ (e.handle seg).tcb.state ∈ SyncStates ∨
      (e.tcb.state = .synSent ∧ (e.handle seg).Outside) := by
  simp only [List.mem_cons, List.not_mem_nil, or_false] at hs
  rcases hs with hs | hs | hs
  · left
    rw [handle_closed seg hs]
    unfold handleClosed
    split_ifs
    · exact h
    · exact h.emitRstReply _ _ _ _
    · exact h.emitRstReply _ _ _ _
  · rw [handle_listen seg hs]
    unfold handleListen
    split_ifs
    · exact Or.inl h
    · exact Or.inl (h.emitRstReply _ _ _ _)
    · exact Or.inl h
    · exact Or.inl h
    · right; left
      obtain ⟨m, -, -, ha⟩ := acceptSyn_eq (e := e) seg hs
      rw [ha]
      simp [listenTaken, listenTcb]
  · rw [handle_synSent seg hs]
    unfold handleSynSent
    dsimp only
    split_ifs with h1 h2 h3 h4 h5 h6
    · exact Or.inl h
    · exact Or.inl (h.emitRstReply _ _ _ _)
    · refine Or.inr (Or.inr ⟨hs, ?_⟩)
      simp [Outside]
    · exact Or.inl h
    · exact Or.inl h
    · right
      have hest : ((e.takeSyn seg).setState .established).sendAck.sendPending.tcb.state ∈
          OpenStates := sendPending_open (by simp)
      unfold synSentEstablished
      dsimp only
      split
      · have hsync := handleSynchronized_sync hcs (sync_of_open hest) (fun hr => ?_)
        · exact hsync.imp id fun ho => ⟨hs, ho⟩
        · exact absurd hr h3
      · exact Or.inl (sync_of_open hest)
    · right; left
      rw [(simultaneousOpen_crossed (e := e.takeSyn seg) seg).state]
      decide

/-! ## Steps -/

/-- Octets that do not decode are refused, and nothing else happens. -/
theorem step_undecoded {data : List UInt8} {msg : String}
    (hp : TcpSegment.parse data = .error msg) (hs : engineMachine.step e (.segment data) = some f) :
    ∃ x, f = e.enter.setExc x := by
  simp only [engineMachine] at hs
  split_ifs at hs
  obtain rfl := Option.some.inj hs
  rw [perform, onSegment, hp]
  exact ⟨_, rfl⟩

theorem before_of_unopened (h : e.intake.Unopened) : e.tcb.state ∈ Intake.Before := h.state

theorem sync_of_follows (h : e.intake.Follows x w done) : e.tcb.state ∈ SyncStates := h.state

theorem handle_voice (h : e.intake.Unopened ∨ e.intake.Follows x w done) (hb : e.Blocked)
    (hw : w.length < 2147483647) (hseq : 0 ≤ seg.seq ∧ seg.seq < 4294967296)
    (hseg : Genuine x w done seg) : Voice x e (e.handle seg) := by
  rcases h with h | h
  · have hs := before_of_unopened h
    simp only [List.mem_cons, List.not_mem_nil, or_false] at hs
    rcases hs with hs | hs | hs
    · rw [handle_closed seg hs]
      exact handleClosed_voice
    · rw [handle_listen seg hs]
      exact handleListen_voice h hs hseg
    · rw [handle_synSent seg hs]
      exact handleSynSent_voice h hs hw hseg
  · rw [handle_synchronized seg (sync_of_follows h)]
    exact handleSynchronized_voice h (fun _ => hb) hw fun hsyn => hseg.placed hsyn hseq

/-- Whatever an engine that follows its peer says in a step, it has taken. -/
theorem step_voice (hk : e.Kept) (h : e.intake.Unopened ∨ e.intake.Follows x w done)
    (hq : e.intake.Unopened → e.Unspoken) (hw : w.length < 2147483647) (hg : FromPeer x w done a)
    (hs : engineMachine.step e a = some f) : Voice x e f := by
  by_cases ha : ∃ data, a = .segment data
  · obtain ⟨data, rfl⟩ := ha
    cases hp : TcpSegment.parse data with
    | error msg =>
      obtain ⟨exc, rfl⟩ := step_undecoded hp hs
      exact .of_intake rfl (.none rfl)
    | ok seg =>
      rcases step_segment hp hs with ⟨-, rfl⟩ | ⟨-, rfl⟩
      · exact .of_intake rfl (.none rfl)
      · have hb0 : e.enter.Blocked := hk.ready.drained.blocked.of_view rfl
        have hb : e.enter.heard.Blocked := hb0.of_view heard_sendView
        have hheard : Voice x e e.enter.heard :=
          .of_intake heard_intake (.none (by rw [heard_env]; rfl))
        refine hheard.trans (handle_voice ?_ hb hw (TcpSegment.fits_of_parse hp).seq (hg seg hp))
        rw [heard_intake]
        exact h
  · have hnot : ∀ data, a ≠ .segment data := fun data hd => ha ⟨data, hd⟩
    have hcar : ∀ seg, ¬ a.Carries seg := by
      rintro seg ⟨data, s, hd, -⟩
      exact hnot data hd
    have hpath := hk.ready.path hs
    rcases h with h | h
    · have hl := (step_hushes hk (hq h) (before_of_unopened h) hnot hs).logs
      refine .of_position ?_ (hl.tells fun _ hev => hev)
      rw [hpath.position hcar, begin_intake]
    · have hbegin : Voice x e (e.begin a) := .of_intake (begin_intake a) (.none (begin_log a))
      have hn : (e.begin a).Abreast x := by
        unfold Abreast
        rw [begin_intake, begin_tcb]
        exact h.next
      exact hbegin.trans (hpath.voice hcar hn).1

/-- An engine is silent for as long as it has no connection. -/
theorem step_silent (hk : e.Kept) (h : e.intake.Unopened ∨ e.intake.Follows x w done)
    (hq : e.intake.Unopened → e.Unspoken) (hs : engineMachine.step e a = some f) :
    f.Unspoken ∨ f.tcb.state ∈ SyncStates ∨ (¬ e.Outside ∧ f.Outside) := by
  have hin (hsync : e.tcb.state ∈ SyncStates) : ¬ e.Outside := by
    unfold Outside
    revert hsync
    cases e.tcb.state <;> decide
  by_cases ha : ∃ data, a = .segment data
  · obtain ⟨data, rfl⟩ := ha
    cases hp : TcpSegment.parse data with
    | error msg =>
      obtain ⟨exc, rfl⟩ := step_undecoded hp hs
      rcases h with h | h
      · have hse := hq h
        exact Or.inl ⟨hse.acks, hse.probes, hse.buffer, hse.queue⟩
      · exact Or.inr (Or.inl (sync_of_follows h))
    | ok seg =>
      have hc : (Action.segment data).Carries seg := ⟨data, seg, rfl, hp, Or.inl rfl⟩
      have hcs : (Action.segment data).Carries seg.synTaken := ⟨data, seg, rfl, hp, Or.inr rfl⟩
      have hst : e.enter.heard.tcb.state = e.tcb.state := by rw [heard_tcb]; rfl
      rcases step_segment hp hs with ⟨-, rfl⟩ | ⟨-, rfl⟩
      · rcases h with h | h
        · have hse := hq h
          exact Or.inl ⟨hse.acks, hse.probes, hse.buffer, hse.queue⟩
        · exact Or.inr (Or.inl (sync_of_follows h))
      · rcases h with h | h
        · have hse := hq h
          have hheard : e.enter.heard.Unspoken := by
            refine
              ⟨?_, by rw [heard_persist]; exact hse.probes, by rw [heard_buf]; exact hse.buffer,
              by rw [heard_buf]; exact hse.queue⟩
            exact (ackSide_eq_iff.mp (heard_keeps (e := e.enter)).2).2.1.trans hse.acks
          rcases handle_silent hcs hheard (by rw [hst]; exact before_of_unopened h) with
            hf | hf | ⟨hf, ho⟩
          · exact Or.inl hf
          · exact Or.inr (Or.inl hf)
          · refine Or.inr (Or.inr ⟨?_, ho⟩)
            rw [Outside, ← hst, hf]
            decide
        · have hsync := sync_of_follows h
          have hsync' : e.enter.heard.tcb.state ∈ SyncStates := by rwa [hst]
          have hb0 : e.enter.Blocked := hk.ready.drained.blocked.of_view rfl
          have hb : e.enter.heard.Blocked := hb0.of_view heard_sendView
          rw [handle_synchronized seg hsync']
          exact Or.inr ((handleSynchronized_sync hc hsync' fun _ => hb).imp_right
            fun ho => ⟨hin hsync, ho⟩)
  · have hnot : ∀ data, a ≠ .segment data := fun data hd => ha ⟨data, hd⟩
    rcases h with h | h
    · exact Or.inl (step_hushes hk (hq h) (before_of_unopened h) hnot hs).silent
    · have hsync := sync_of_follows h
      have hpath := hk.ready.path hs
      have hbegin : (e.begin a).tcb.state ∈ SyncStates := by rwa [begin_tcb]
      right
      by_cases hx : a.Closes
      · exact (Path.staysSync hx hpath hbegin).imp_right fun ho => ⟨hin hsync, ho⟩
      · left
        refine Path.preserves (P := fun f => f.tcb.state ∈ SyncStates) ?_ hpath hbegin
        intro g g' hm hg
        refine (hm.hush ?_).sync hx hg
        rintro seg ⟨data, s, hd, -⟩
        exact hnot data hd

end TcpEngine

end HdlPlayground.Tcp

import HdlPlayground.Tcp.Intake
import HdlPlayground.Tcp.SenderRuns

/-!
# Two engines and what lies between them

Two sessions on one network, as `Wire` and the two-engine tests put them. The network holds on
to all that either side has transmitted, and any of it may arrive, at any time, in any order,
any number of times or never; so may any segment that takes no sequence space. What either side
has delivered to its user is a prefix of what the user of the other has written.
-/
namespace HdlPlayground.Tcp

open Lib (Carries)

/-! ## What an engine puts on the wire -/

/-- Of the options an engine sends the MSS and no other. -/
def Event.Unadorned (ev : Event) : Prop :=
  ∀ seg, ev = .tx seg → seg.wscale = none ∧ seg.rawOptions = []

theorem Event.Unadorned.of_not_tx {ev : Event} (h : ∀ seg, ev ≠ .tx seg) : ev.Unadorned :=
  fun seg hs => absurd hs (h seg)

theorem Event.unadorned_tx {seg : TcpSegment} (h : seg.wscale = none ∧ seg.rawOptions = []) :
    Event.Unadorned (.tx seg) := by
  intro s hs
  obtain rfl := Event.tx.inj hs
  exact h

namespace TcpEngine

variable {a : Action} {e e' f : TcpEngine}

theorem unadorned_segmentFor (seq : Int) (flags : Flags) (payload : List UInt8) (m : Bool)
    (urg : Nat) : Event.Unadorned (.tx (e.segmentFor seq flags payload m urg)) :=
  Event.unadorned_tx ⟨rfl, rfl⟩

theorem unadorned_change (o n : ConnState) : Event.Unadorned (.stateChange o n) :=
  .of_not_tx (by simp)

theorem unadorned_error (msg : String) : Event.Unadorned (.error msg) := .of_not_tx (by simp)

theorem Move.unadorned (h : Move a e e') : Logs Event.Unadorned e e' := by
  have hq (g : TcpEngine) (flags : Flags) (payload : List UInt8) (m : Bool) (urg : Nat) :
      Logs Event.Unadorned g (g.queueAndSend flags payload m urg) :=
    queueAndSend_logs _ _ _ _ (unadorned_segmentFor _ _ _ _ _)
  have hm (g : TcpEngine) (seq : Int) (flags : Flags) (payload : List UInt8) (m : Bool)
      (urg : Nat) :
      Logs Event.Unadorned g (g.makeAndTransmit seq flags payload m urg) :=
    makeAndTransmit_logs _ _ _ _ _ (unadorned_segmentFor _ _ _ _ _)
  have hst (g : TcpEngine) (st : ConnState) : Logs Event.Unadorned g (g.setState st) :=
    setState_logs st fun _ => unadorned_change _ _
  have hfin (g : TcpEngine) : Logs Event.Unadorned g g.sendFin :=
    sendFin_logs (unadorned_segmentFor _ _ _ _ _) fun _ => unadorned_change _ _
  have hclose (g : TcpEngine) (hb : g.Blocked) : Logs Event.Unadorned g g.enterClosed :=
    enterClosed_logs hb fun _ => unadorned_change _ _
  have hgive (g : TcpEngine) (msg : String) (hb : g.Blocked) :
      Logs Event.Unadorned g (g.giveUp msg) :=
    giveUp_logs msg hb (unadorned_error msg) (unadorned_segmentFor _ _ _ _ _)
      fun _ => unadorned_change _ _
  cases h with
  | receive _ hr =>
    apply hr.logs.mono
    rintro ev ⟨data, rfl⟩
    exact .of_not_tx (by simp)
  | connect ho _ =>
    rw [connect_eq (ho.imp And.left id)]
    exact Logs.trans (f := e.dialled) (.one _ rfl (unadorned_change _ _)) (hq _ _ _ _ _)
  | startListening => exact (Logs.none rfl).trans (hst _ _)
  | finishReceive data => exact .one _ (by rw [finishReceive_env]) (.of_not_tx (by simp))
  | retransmit h o rest =>
    exact Logs.trans (f := (e.fire h).countRto) (.none (by simp))
      (retransmitHead_logs o rest (unadorned_segmentFor _ _ _ _ _))
  | sendAck => exact .one (.tx e.ackSegment) (by simp) (unadorned_segmentFor _ _ _ _ _)
  | scheduleAck force => exact scheduleAck_logs (fun g => unadorned_segmentFor _ _ _ _ _) force
  | emitRstReply seg seq ack ackFlag =>
    exact .one _ (by rw [emitRstReply_eq]; rfl) (Event.unadorned_tx ⟨rfl, rfl⟩)
  | sendSynAck => exact hm _ _ _ _ _ _
  | sendKeepaliveProbe =>
    exact Logs.trans (f := e.makeAndTransmit (sub e.tcb.sndUna 1) { ack := true }) (hm _ _ _ _ _ _)
      (.none rfl)
  | signalError msg => exact .one _ rfl (unadorned_error msg)
  | sendChunk =>
    exact Logs.trans (f := e.queueChunk e.chunkLen)
      (Logs.trans (f := e.takeChunk e.chunkLen) (.none rfl) (hq _ _ _ _ _)) (.none (by simp))
  | sendFin => exact hfin e
  | probe h =>
    exact Logs.trans (f := (e.fire h).takeChunk 1) (.none (by simp))
      (Logs.trans (f := (e.fire h).sendProbe) (hq _ _ _ _ _) (.none rfl))
  | probeFin h =>
    exact Logs.trans (f := e.fire h) (.none (by simp))
      (Logs.trans (f := (e.fire h).sendFin) (hfin _) (.none rfl))
  | acceptSyn seg _ hs =>
    obtain ⟨m, -, -, hm⟩ := acceptSyn_eq (e := e) seg hs
    rw [hm]
    exact Logs.trans (f := e.listenTaken seg m) (.one _ rfl (unadorned_change _ _)) (hq _ _ _ _ _)
  | synEstablished seg => exact (Logs.none (takeSyn_env seg)).trans (hst _ _)
  | synReceived seg => exact (Logs.none (takeSyn_env seg)).trans ((hst _ _).trans (.none rfl))
  | completeOpen seg => exact (Logs.none (by simp)).trans (hst _ _)
  | finAckedWait => exact hst _ _
  | finAckedTimeWait hs =>
    rw [enterTimeWait_eq (by simp [CanSend, hs])]
    exact Logs.trans (f := e.stopRt.dropPersistTimer) (.none rfl) ((hst _ _).trans (.none rfl))
  | processFin =>
    exact processFin_logs (.of_not_tx (by simp)) (unadorned_segmentFor _ _ _ _ _)
      fun _ => unadorned_change _ _
  | listenAgain hs hp =>
    rw [doReset_listen hs hp]
    exact (hst _ _).trans (.none rfl)
  | close _ hb => exact hclose e hb
  | abort _ hb => exact (hm _ _ _ _ _ _).trans (hclose _ (sendRst_blocked hb))
  | giveUp msg _ hb => exact hgive e msg hb
  | giveUpRto h c msg _ _ _ _ hb =>
    have hb1 : (if c then (e.fire h).countRto else e.fire h).Blocked := by
      split
      · exact (hb.fire h).of_view rfl
      · exact hb.fire h
    have hl : (if c then (e.fire h).countRto else e.fire h).env = e.env := by
      split <;> simp
    generalize (if c then (e.fire h).countRto else e.fire h) = f at hb1 hl
    exact Logs.trans (f := f) (.none (by rw [hl])) (hgive f msg hb1)
  | timeWaitExpires h _ _ _ hb =>
    exact Logs.trans (f := e.fire h) (.none (by simp)) (hclose _ (hb.fire h))
  | storeSynData seg => exact .none (storeOoo_env _ _ _)
  | storeOoo seg => exact .none (storeOoo_env _ _ _)
  | _ => exact .none (by first | rfl | simp)

theorem step_unadorned (hr : e.Ready) (h : engineMachine.step e a = some e')
    (hl : ∀ ev ∈ e.env.log, ev.Unadorned) : ∀ ev ∈ e'.env.log, ev.Unadorned := by
  obtain ⟨conf, psh, hb, -⟩ := e.begin_eq a
  apply hr.step_preserves (P := fun f => ∀ ev ∈ f.env.log, ev.Unadorned) h
  · rw [hb]
    exact hl
  · intro f f' hm hf ev hev
    obtain ⟨evs, hlog, hall⟩ := hm.unadorned
    rw [hlog] at hev
    rcases List.mem_append.mp hev with hev | hev
    · exact hf ev hev
    · exact hall ev hev

end TcpEngine

/-- What is built decodes as it was, but for the widths of the header fields. -/
theorem parse_of_build {seg : TcpSegment} {data : List UInt8} (hb : seg.build = .ok data)
    (hw : seg.wscale = none) (hr : seg.rawOptions = []) :
    TcpSegment.parse data = .ok seg.onWire := by
  have hp : seg.Plain := by
    refine ⟨fun m hm => ?_, hw, hr⟩
    by_contra hlt
    have herr : seg.build = .error "struct.error" := by
      simp only [TcpSegment.build, TcpSegment.buildOptions, hm]
      rw [if_pos (by omega)]
      rfl
    rw [herr] at hb
    cases hb
  rw [hp.build] at hb
  obtain rfl := Except.ok.inj hb
  exact hp.parse

/-! ## What has been sent stands in the stream of the sender -/

section

variable {x : Int} {w l : List UInt8} {b : Bool} {seg : TcpSegment} {k : Nat}

/-- The octets among the units of a stream. -/
theorem prefix_of_data {t : List Sym} (ht : ∀ v, Sym.data v ∉ t)
    (h : l.map Sym.data <+: w.map Sym.data ++ t) : l <+: w := by
  induction l generalizing w with
  | nil => exact List.nil_prefix
  | cons v l ih =>
    cases w with
    | nil =>
      exfalso
      apply ht v
      apply h.subset
      exact List.mem_cons_self
    | cons u w =>
      rw [List.map_cons, List.map_cons, List.cons_append, List.cons_prefix_cons] at h
      obtain ⟨hv, hl⟩ := h
      obtain rfl := Sym.data.inj hv
      exact List.cons_prefix_cons.mpr ⟨rfl, ih hl⟩

theorem carries_data (h : Carries (sent w b) (k + 1) (l.map Sym.data)) : Carries w k l := by
  rw [Carries, sent, List.drop_succ_cons, List.drop_append, ← List.map_drop] at h
  refine prefix_of_data (fun v hv => ?_) h
  have hv := List.mem_of_mem_drop hv
  cases b <;> simp at hv

theorem sent_syn (h : (sent w b)[k]? = some .syn) : k = 0 := by
  cases k with
  | zero => rfl
  | succ k =>
    exfalso
    rw [sent, List.getElem?_cons_succ] at h
    have hmem := List.mem_of_getElem? h
    cases b <;> simp at hmem

theorem sent_fin (h : (sent w b)[k]? = some .fin) : k = w.length + 1 ∧ b = true := by
  have hlen : k < w.length + 1 + b.toNat := by
    rw [← length_sent]
    exact (List.getElem?_eq_some_iff.mp h).1
  cases k with
  | zero => cases Option.some.inj h
  | succ k =>
    by_cases hk : k < w.length
    · exfalso
      rw [sent_getElem? w b hk] at h
      obtain ⟨v, -, hv⟩ := Option.map_eq_some_iff.mp h
      cases hv
    · have := b.toNat_le
      refine ⟨by omega, ?_⟩
      rw [← Bool.toNat_eq_one]
      omega

/-- What is carried is found where it stands. -/
theorem carried_at {T t : List Sym} {i : Nat} {v : Sym} (h : Carries T k t) (hv : t[i]? = some v) :
    T[k + i]? = some v :=
  (h.getElem? (List.getElem?_eq_some_iff.mp hv).1).trans hv

/-- A segment without sequence space is anyone's. -/
theorem genuine_of_bare {done : Prop} (hp : seg.payload = []) (hs : seg.syn = false)
    (hf : seg.fin = false) : Genuine x w done seg := by
  constructor
  · intro hx
    exact absurd (hs.symm.trans hx) (by decide)
  · exact fun hx => absurd hp hx
  · intro hx
    exact absurd (hf.symm.trans hx) (by decide)

theorem Stands.genuine (h : Stands (sent w b) x seg) : Genuine x w (b = true) seg.onWire := by
  rcases h with ⟨hp, hs, hf⟩ | ⟨j, hj, hc⟩
  · exact genuine_of_bare hp hs hf
  · have hseq : seg.onWire.seq = seqAt x j := by
      show seg.seq % MOD = _
      rw [hj]
      exact Int.emod_emod_of_dvd _ (dvd_refl MOD)
    have hadd (n : Nat) : add seg.onWire.seq n = seqAt x (j + n) := by
      rw [hseq, add_def]
      simp only [seqAt]
      omega
    have hsyms : seg.syms = (if seg.syn then [.syn] else []) ++ seg.payload.map .data ++
        (if seg.fin then [.fin] else []) := rfl
    have hzero (hs : seg.syn = true) : j = 0 := by
      apply sent_syn (w := w) (b := b)
      exact carried_at (i := 0) hc (by rw [hsyms, hs]; rfl)
    constructor
    · intro hs
      rw [hseq, hzero hs]
    · intro hne
      have htext : Carries (sent w b) (j + seg.syn.toNat) (seg.payload.map .data) := by
        rw [hsyms] at hc
        have := hc.append_left
        cases hs : seg.syn with
        | false => simpa [hs] using this
        | true =>
          rw [hs] at this
          exact this.append_right
      cases hk : j + seg.syn.toNat with
      | zero =>
        exfalso
        rw [hk] at htext
        obtain ⟨v, l, hl⟩ := List.exists_cons_of_ne_nil hne
        have hl : seg.payload = v :: l := hl
        have hzero := carried_at (i := 0) htext (by rw [hl]; rfl)
        cases Option.some.inj hzero
      | succ k =>
        refine ⟨k, ?_, carries_data (hk ▸ htext)⟩
        show add seg.onWire.seq seg.syn.toNat = _
        rw [hadd, hk]
    · intro hf
      have hf : seg.fin = true := hf
      have hat : (sent w b)[j + (seg.syn.toNat + seg.payload.length)]? = some .fin := by
        apply carried_at hc
        have hlen : ((if seg.syn then [Sym.syn] else []) ++ seg.payload.map Sym.data).length =
            seg.syn.toNat + seg.payload.length := by
          cases seg.syn <;> simp [Nat.add_comm]
        rw [hsyms, hf, List.getElem?_append_right (le_of_eq hlen), hlen, Nat.sub_self]
        rfl
      obtain ⟨hlen, hb⟩ := sent_fin hat
      refine ⟨hb, ?_⟩
      show add (add seg.onWire.seq seg.syn.toNat) seg.payload.length = _
      rw [hadd, ← hlen, add_def]
      simp only [seqAt]
      omega

end

/-! ## The network -/

namespace Session

variable {s s' src dst : Session} {a : Action} {data : List UInt8}

/-- The octets a session has put on the wire. -/
def wire (s : Session) : List (List UInt8) :=
  s.eng.env.log.filterMap fun ev =>
    match ev with
    | .tx seg => seg.build.toOption
    | _ => none

/-- There is nothing more to come: the FIN has been sent, or the connection is over. -/
def Finished (s : Session) : Prop := s.used = true ∧ s.eng.finTag = true

instance (s : Session) : Decidable s.Finished := inferInstanceAs (Decidable (_ ∧ _))

end Session

/-- Octets that no engine reads as a segment, or one that takes no sequence space. -/
def Harmless (data : List UInt8) : Prop :=
  match TcpSegment.parse data with
  | .error _ => True
  | .ok seg => seg.payload = [] ∧ seg.syn = false ∧ seg.fin = false

instance (data : List UInt8) : Decidable (Harmless data) := by
  unfold Harmless
  split <;> infer_instance

structure Network where
  a : Session
  b : Session

inductive Side where
  | a
  | b
deriving DecidableEq

namespace Network

def session (n : Network) : Side → Session
  | .a => n.a
  | .b => n.b

def peer (n : Network) : Side → Session
  | .a => n.b
  | .b => n.a

def put (n : Network) (s : Session) : Side → Network
  | .a => { n with a := s }
  | .b => { n with b := s }

/-- A segment that arrives has been transmitted by the peer, however long ago, or is harmless. -/
def Carried (src : Session) : Action → Prop
  | .segment data => data ∈ src.wire ∨ Harmless data
  | _ => True

instance (src : Session) (act : Action) : Decidable (Carried src act) := by
  unfold Carried
  split <;> infer_instance

end Network

/-- Either side takes a step; what has been transmitted is never used up. -/
def networkMachine : Lib.Machine Network (Side × Action) where
  step n m :=
    if Network.Carried (n.peer m.1) m.2 then
      (connectionMachine.step (n.session m.1) m.2).map fun s => n.put s m.1
    else none

open TcpEngine (FromPeer)

namespace Session

variable {s s' src dst dst' src' : Session} {a : Action} {x : Int} {w data : List UInt8}
  {done : Prop}

/-- An engine and its connection with respect to the stream of the peer. -/
structure Aligned (x : Int) (w : List UInt8) (done : Prop) (s : Session) : Prop where
  stage : s.eng.intake.Stage x w done
  live : ¬ (s.used = true ∧ s.eng.Outside) →
    s.eng.intake.Unopened ∨ s.eng.intake.Follows x w done

theorem Aligned.mono {w' : List UInt8} {done' : Prop} (h : s.Aligned x w done) (hw : w <+: w')
    (hd : done → done' ∧ w' = w) : s.Aligned x w' done' :=
  ⟨h.stage.mono hw hd, fun hx => (h.live hx).imp_right fun hf => hf.mono hw hd⟩

/-- A synchronized engine stands in the stream of the peer. -/
theorem Aligned.follows (h : s.Aligned x w done) (hs : s.eng.tcb.state ∈ TcpEngine.SyncStates) :
    s.eng.intake.Follows x w done := by
  have hin : ¬ s.eng.Outside := TcpEngine.not_outside_of_mem hs (by decide) (by decide)
  apply (h.live fun hx => hin hx.2).resolve_left
  intro hun
  have hb : s.eng.tcb.state ∈ Intake.Before := hun.state
  revert hs hb
  cases s.eng.tcb.state <;> simp

/-- A connection that is under way has been begun. -/
theorem Sound.begun (h : s.Sound) (ho : ¬ s.eng.Outside) : s.used = true := by
  by_contra hu
  exact ho (h.fresh (by simpa using hu)).2.1.outside

theorem Sound.sending (h : s.Sound) (ho : ¬ s.eng.Outside) :
    ∃ k, TcpEngine.SendInv s.written k s.eng :=
  (h.linked (h.begun ho) ho).inv

theorem Aligned.step (h : s.Aligned x w done) (hw : w.length < 2147483647) (hs : s.Sound)
    (hg : FromPeer x w done a) (hstep : connectionMachine.step s a = some s') :
    s'.Aligned x w done := by
  obtain ⟨hlive, e', he, rfl⟩ := step_cases hstep
  have hnow := h.live hlive
  have hr : s.eng.Ready := hs.kept.ready
  have hstage := TcpEngine.step_stage hr hnow hw hg he
  refine ⟨hstage, fun hover => ?_⟩
  rcases hstage with hu | hf | ho
  · exact Or.inl hu
  · exact Or.inr hf
  · have hout : e'.Outside := ho.state
    have hused : s.used = false := by
      cases hu : s.used with
      | false => rfl
      | true => exact absurd ⟨by simp [hu], hout⟩ hover
    have hout0 : s.eng.Outside := (hs.fresh hused).2.1.outside
    refine TcpEngine.step_begins hr (hnow.resolve_right fun hf => ?_) hout0 hg he
    have h1 : s.eng.tcb.state ∈ TcpEngine.SyncStates := hf.state
    rcases List.mem_pair.mp hout0 with h0 | h0
    · rw [h0] at h1
      exact absurd h1 (by decide)
    · rw [h0] at h1
      exact absurd h1 (by decide)

/-- What holds of a session on the network by itself. -/
structure Valid (s : Session) : Prop where
  sound : s.Sound
  unadorned : ∀ ev ∈ s.eng.env.log, ev.Unadorned
  small : s.written.length < 2147483647

/-- How far the peer has followed: before its connection begins, any stream would do. -/
def Tracks (src dst : Session) : Prop :=
  if src.used = true then dst.Aligned src.eng.tcb.iss src.written src.Finished
  else ∀ x w done, w.length < 2147483647 → dst.Aligned x w done

theorem Tracks.aligned (h : Tracks src dst) (hw : src.written.length < 2147483647) :
    dst.Aligned src.eng.tcb.iss src.written src.Finished := by
  unfold Tracks at h
  split at h
  · exact h
  · exact h _ _ _ hw

theorem mem_wire (h : data ∈ s.wire) : ∃ seg, .tx seg ∈ s.eng.env.log ∧ seg.build = .ok data := by
  obtain ⟨ev, hev, hd⟩ := List.mem_filterMap.mp h
  cases ev with
  | tx seg =>
    refine ⟨seg, hev, ?_⟩
    cases hb : seg.build with
    | error msg =>
      simp only [hb] at hd
      cases hd
    | ok bytes =>
      simp only [hb] at hd
      rw [Option.some.inj hd]
  | _ => cases hd

/-- A segment on the wire is read as it was sent. -/
theorem Valid.read (h : src.Valid) (hc : Network.Carried src (.segment data)) {seg : TcpSegment}
    (hp : TcpSegment.parse data = .ok seg) :
    (seg.payload = [] ∧ seg.syn = false ∧ seg.fin = false) ∨
      ∃ t, .tx t ∈ src.eng.env.log ∧ seg = t.onWire := by
  rcases hc with hc | hc
  · obtain ⟨t, ht, hb⟩ := mem_wire hc
    obtain ⟨hws, hraw⟩ := h.unadorned _ ht t rfl
    refine Or.inr ⟨t, ht, ?_⟩
    rw [parse_of_build hb hws hraw] at hp
    exact (Except.ok.inj hp).symm
  · left
    unfold Harmless at hc
    rw [hp] at hc
    exact hc

/-- What arrives from a session that has begun is of its stream. -/
theorem Valid.fromPeer (h : src.Valid) (hu : src.used = true) (hc : Network.Carried src a) :
    FromPeer src.eng.tcb.iss src.written src.Finished a := by
  cases a with
  | segment data =>
    intro seg hp
    rcases h.read hc hp with ⟨h1, h2, h3⟩ | ⟨t, ht, rfl⟩
    · exact genuine_of_bare h1 h2 h3
    · have hg := (h.sound.emitted t ht).genuine
      exact ⟨hg.opens, hg.text, fun hf => ⟨⟨hu, (hg.ends hf).1⟩, (hg.ends hf).2⟩⟩
  | _ => exact True.intro

/-- What arrives from one that has not is of any stream. -/
theorem Valid.fromPeer_fresh (h : src.Valid) (hu : src.used = false) (hc : Network.Carried src a) :
    FromPeer x w done a := by
  cases a with
  | segment data =>
    intro seg hp
    rcases h.read hc hp with ⟨h1, h2, h3⟩ | ⟨t, ht, rfl⟩
    · exact genuine_of_bare h1 h2 h3
    · obtain ⟨h1, h2, h3⟩ := (h.sound.fresh hu).2.2 t ht
      exact genuine_of_bare h1 h2 h3
  | _ => exact True.intro

/-- The peer takes a step. -/
theorem Tracks.hears (h : Tracks src dst) (hsrc : src.Valid) (hdst : dst.Sound)
    (hc : Network.Carried src a) (hs : connectionMachine.step dst a = some dst') :
    Tracks src dst' := by
  unfold Tracks at h ⊢
  split
  · next hu =>
    rw [if_pos hu] at h
    exact h.step hsrc.small hdst (hsrc.fromPeer hu hc) hs
  · next hu =>
    rw [if_neg hu] at h
    intro x w done hw
    exact (h x w done hw).step hw hdst (hsrc.fromPeer_fresh (by simpa using hu) hc) hs

/-- The stream of a session under way only grows, and not past its FIN. -/
theorem step_writes (h : s.Sound) (hu : s.used = true) (hl : ¬ s.eng.LosesSend a)
    (hs : connectionMachine.step s a = some s') :
    s'.eng.tcb.iss = s.eng.tcb.iss ∧ s.written <+: s'.written ∧
      (s.Finished → s'.Finished ∧ s'.written = s.written) := by
  obtain ⟨hlive, e', he, rfl⟩ := step_cases hs
  have ho : ¬ s.eng.Outside := fun ho => hlive ⟨hu, ho⟩
  obtain ⟨hiss, hgrow⟩ := (h.linked hu ho).keeps h.kept he
  have hacc := TcpEngine.accepted_eq he hl
  refine ⟨hiss, List.prefix_append _ _, fun hfin => ?_⟩
  obtain ⟨-, hf⟩ := hfin
  have hsent : s.eng.fin.finSent = true := by
    rcases Bool.or_eq_true_iff.mp hf with hf | hf
    · exact hf
    · exact absurd (of_decide_eq_true hf) ho
  have hnil : s.eng.buffered a = [] := TcpEngine.buffered_nil h.kept.ready.coherent hsent
  rw [hnil, List.append_nil] at hgrow
  have hlen := hgrow.length_le
  rw [length_sent, length_sent, hf, Bool.toNat_true] at hlen
  refine ⟨⟨by simp [hu], ?_⟩, ?_⟩
  · show e'.finTag = true
    rw [← Bool.toNat_eq_one]
    have := e'.finTag.toNat_le
    omega
  · show s.written ++ a.accepted e' = s.written
    rw [hacc, hnil, List.append_nil]

/-- The session that is followed takes a step. -/
theorem Tracks.writes (h : Tracks src dst) (hsrc : src.Sound) (hl : ¬ src.eng.LosesSend a)
    (hw : src'.written.length < 2147483647) (hs : connectionMachine.step src a = some src') :
    Tracks src' dst := by
  unfold Tracks at h
  split at h
  · next hu =>
    obtain ⟨hiss, hgrow, hfin⟩ := step_writes hsrc hu hl hs
    have hu' : src'.used = true := by
      obtain ⟨-, e', -, rfl⟩ := step_cases hs
      simp [hu]
    unfold Tracks
    rw [if_pos hu', hiss]
    exact h.mono hgrow hfin
  · unfold Tracks
    split
    · exact h _ _ _ hw
    · exact h

end Session

namespace Network

open Session (Valid Tracks)

/-- What the user of `dst` has been given is what the user of `src` has written so far, and all of
it where the end of the stream has been signalled. -/
structure Delivers (src dst : Session) : Prop where
  text : dst.eng.delivered <+: src.written
  full : dst.eng.fin.peerFin = true → src.Finished ∧ dst.eng.delivered = src.written

structure Good (n : Network) : Prop where
  a : n.a.Valid
  b : n.b.Valid
  ab : Tracks n.a n.b
  ba : Tracks n.b n.a

/-- No SEND is lost before the connection, and the stream stays shorter than half the sequence
space. -/
def Bounded (n : Network) (m : Side × Action) : Prop :=
  ¬ (n.session m.1).eng.LosesSend m.2 ∧
    (n.session m.1).written.length + m.2.payload.length < 2147483647

instance (n : Network) (m : Side × Action) : Decidable (n.Bounded m) :=
  inferInstanceAs (Decidable (¬ (_ ∧ _ ∧ (_ ∨ _)) ∧ _))

/-- Both users have been given what the other has written. -/
def Faithful (n : Network) : Prop := Delivers n.a n.b ∧ Delivers n.b n.a

theorem delivers {src dst : Session} (h : src.Valid) (ht : Tracks src dst) : Delivers src dst :=
  ⟨(ht.aligned h.small).stage.intact.text, (ht.aligned h.small).stage.intact.full⟩

theorem Good.faithful {n : Network} (h : n.Good) : n.Faithful :=
  ⟨delivers h.a h.ab, delivers h.b h.ba⟩

variable {src dst src' dst' : Session} {a : Action}

theorem valid_step (h : src.Valid) (hl : ¬ src.eng.LosesSend a)
    (hw : src.written.length + a.payload.length < 2147483647)
    (hs : connectionMachine.step src a = some src') : src'.Valid := by
  have hsound := Session.sound_preserves _ _ _ h.sound hl hs
  obtain ⟨-, e', he, rfl⟩ := Session.step_cases hs
  refine ⟨hsound, TcpEngine.step_unadorned h.sound.kept.ready he h.unadorned, ?_⟩
  have hacc : (a.accepted e').length ≤ a.payload.length := by
    unfold Action.accepted
    split
    · exact le_rfl
    · exact Nat.zero_le _
  show (src.written ++ a.accepted e').length < _
  rw [List.length_append]
  omega

/-- One side steps: what it hears is of the other, and the other still follows it. -/
theorem side_step (h : src.Valid) (h' : dst.Valid) (ht : Tracks src dst) (ht' : Tracks dst src)
    (hl : ¬ src.eng.LosesSend a) (hw : src.written.length + a.payload.length < 2147483647)
    (hc : Carried dst a) (hs : connectionMachine.step src a = some src') :
    src'.Valid ∧ Tracks src' dst ∧ Tracks dst src' := by
  have hv := valid_step h hl hw hs
  exact ⟨hv, ht.writes h.sound hl hv.small hs, ht'.hears h' h.sound hc hs⟩

theorem good_preserves : networkMachine.Preserves Bounded Good := by
  rintro n ⟨side, act⟩ n' h ⟨hl, hw⟩ hs
  simp only [networkMachine] at hs
  split_ifs at hs with hc
  obtain ⟨s, hstep, rfl⟩ := Option.map_eq_some_iff.mp hs
  cases side with
  | a =>
    obtain ⟨hv, hab, hba⟩ := side_step h.a h.b h.ab h.ba hl hw hc hstep
    exact ⟨hv, h.b, hab, hba⟩
  | b =>
    obtain ⟨hv, hba, hab⟩ := side_step h.b h.a h.ba h.ab hl hw hc hstep
    exact ⟨h.a, hv, hab, hba⟩

/-- Two engines that have just been made. -/
def start (a b : EngineArgs) (schedA schedB : ManualScheduler Callback) (randA randB : Nat) :
    Network :=
  ⟨{ eng := TcpEngine.init a schedA randA }, { eng := TcpEngine.init b schedB randB }⟩

theorem valid_init (args : EngineArgs) (sched : ManualScheduler Callback) (rand : Nat)
    (hs : sched.heap = []) (hm : 1 ≤ args.sndMss) :
    Valid { eng := TcpEngine.init args sched rand } where
  sound := Session.sound_init args sched rand hs hm
  unadorned _ hev := absurd hev List.not_mem_nil
  small := by
    show (0 : Nat) < 2147483647
    decide

theorem tracks_init (a b : EngineArgs) (schedA schedB : ManualScheduler Callback)
    (randA randB : Nat) :
    Tracks { eng := TcpEngine.init a schedA randA } { eng := TcpEngine.init b schedB randB } := by
  intro x w done hw
  have hu : (TcpEngine.init b schedB randB).intake.Unopened :=
    ⟨List.mem_cons_self, rfl, rfl, rfl, rfl⟩
  exact ⟨Or.inl hu, fun _ => Or.inl hu⟩

theorem good_start (a b : EngineArgs) (schedA schedB : ManualScheduler Callback) (randA randB : Nat)
    (hsa : schedA.heap = []) (hsb : schedB.heap = []) (hma : 1 ≤ a.sndMss) (hmb : 1 ≤ b.sndMss) :
    (start a b schedA schedB randA randB).Good :=
  ⟨valid_init a schedA randA hsa hma, valid_init b schedB randB hsb hmb,
    tracks_init a b schedA schedB randA randB, tracks_init b a schedB schedA randB randA⟩

end Network

/-- Whatever the network loses, duplicates, delays and reorders, and whatever segments without
sequence space it makes up: what either user is given is a prefix of what the other has written,
and all of it where the end of the stream has been signalled. -/
theorem streams_faithful (a b : EngineArgs) (schedA schedB : ManualScheduler Callback)
    (randA randB : Nat) (hsa : schedA.heap = []) (hsb : schedB.heap = []) (hma : 1 ≤ a.sndMss)
    (hmb : 1 ≤ b.sndMss) (ms : List (Side × Action))
    (hC : networkMachine.AllSteps Network.Bounded (.start a b schedA schedB randA randB) ms) :
    networkMachine.Throughout Network.Faithful (.start a b schedA schedB randA randB) ms :=
  (Network.good_preserves.throughout
    (Network.good_start a b schedA schedB randA randB hsa hsb hma hmb) hC).mono fun _ h =>
    h.faithful

/-- A client and a server. -/
def clientArgs : EngineArgs := { localPort := 1000, remotePort := 80, iss := some 100 }

def serverArgs : EngineArgs := { localPort := 80, remotePort := 1000, iss := some 500 }

/-- The client writes two bytes and a third and closes; the third byte arrives first, the FIN
next, and the first two twice. -/
def shuffledRun : List (Side × Action) :=
  let text : List UInt8 :=
    [3, 232, 0, 80, 0, 0, 0, 101, 0, 0, 1, 245, 80, 24, 254, 10, 0, 0, 0, 0, 7, 8]
  [(.b, .passiveOpen), (.a, .activeOpen),
    (.b, .segment
      [3, 232, 0, 80, 0, 0, 0, 100, 0, 0, 0, 0, 96, 2, 255, 255, 0, 0, 0, 0, 2, 4, 5, 180]),
    (.a, .segment
      [0, 80, 3, 232, 0, 0, 1, 244, 0, 0, 0, 101, 96, 18, 255, 255, 0, 0, 0, 0, 2, 4, 5, 180]),
    (.a, .send [7, 8] true false none), (.a, .send [9] true false none), (.a, .close),
    (.b, .segment [3, 232, 0, 80, 0, 0, 0, 103, 0, 0, 1, 245, 80, 24, 254, 10, 0, 0, 0, 0, 9]),
    (.b, .segment [3, 232, 0, 80, 0, 0, 0, 104, 0, 0, 1, 245, 80, 17, 254, 10, 0, 0, 0, 0]),
    (.b, .segment text), (.b, .segment text)]

open Network in
theorem shuffled_run_faithful :
    networkMachine.Throughout Faithful (start clientArgs serverArgs {} {} 0 0) shuffledRun ∧
    ∃ n, networkMachine.run (start clientArgs serverArgs {} {} 0 0) shuffledRun = some n ∧
      n.b.eng.delivered = [7, 8, 9] ∧ n.b.eng.fin.peerFin = true := by
  constructor
  · exact streams_faithful clientArgs serverArgs {} {} 0 0 rfl rfl (by decide) (by decide)
      shuffledRun
      (by decide +kernel)
  · have h : ((networkMachine.run (start clientArgs serverArgs {} {} 0 0) shuffledRun).map fun n =>
        (n.b.eng.delivered, n.b.eng.fin.peerFin)) = some ([7, 8, 9], true) := by
      decide +kernel
    obtain ⟨n, hn, hv⟩ := Option.map_eq_some_iff.mp h
    simp only [Prod.mk.injEq] at hv
    exact ⟨n, hn, hv.1, hv.2⟩

end HdlPlayground.Tcp

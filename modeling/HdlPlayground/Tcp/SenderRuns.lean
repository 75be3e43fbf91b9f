import HdlPlayground.Tcp.SenderSteps

/-!
# The sender over a whole connection

A session is an engine together with what its application has written: the bytes
of the SENDs that returned. It runs from a fresh engine until the connection it
opens is over.
-/
namespace HdlPlayground.Tcp

open Lib

/-- The bytes an entry point has taken from the application: those of a SEND that
returned. -/
def Action.accepted (a : Action) (e' : TcpEngine) : List UInt8 :=
  if e'.env.exc = none then a.payload else []

/-- A connection as its application sees it. -/
structure Session where
  eng : TcpEngine
  written : List UInt8 := []
  used : Bool := false

/-- The run of one connection: it is over when the engine is back in CLOSED or LISTEN. -/
def connectionMachine : Lib.Machine Session Action where
  step s a :=
    if s.used ∧ s.eng.Outside then none
    else
      (engineMachine.step s.eng a).map fun e' =>
        { eng := e'
          written := s.written ++ a.accepted e'
          used := s.used || decide (¬ e'.Outside) }

namespace TcpEngine

variable {a : Action} {e e' : TcpEngine} {w : List UInt8} {k : Nat}

/-- A SEND in LISTEN that raises after its data has joined the buffer: there is no
foreign socket to connect to, or the SYN of the active open cannot be built. -/
def LosesSend (e : TcpEngine) (a : Action) : Prop :=
  e.tcb.state = .listen ∧ a.payload ≠ [] ∧ (e.conf.remotePort = 0 ∨ 65535 < e.tcb.sndMss)

/-! ## Which SENDs return -/

theorem sendQueued_exc (data : List UInt8) (urgent : Bool) :
    (e.sendQueued data urgent).env.exc = e.env.exc := by
  unfold sendQueued
  dsimp only
  have h1 : (if urgent && !data.isEmpty then e.setSndUp else e).env.exc = e.env.exc := by
    split <;> rfl
  generalize (if urgent && !data.isEmpty then e.setSndUp else e) = f at h1
  rw [← h1]
  split
  · exact sendPending_exc
  · rfl

/-- An active open raises only when the MSS does not fit its option. -/
theorem activeOpen_exc (hs : e.tcb.state = .closed ∨ e.tcb.state = .listen)
    (hx : e.env.exc = none) : e.activeOpen.env.exc = none ↔ e.tcb.sndMss ≤ 65535 := by
  rw [activeOpen_eq hs, connect_eq hs]
  unfold queueAndSend
  dsimp only
  by_cases hm : 65535 < e.tcb.sndMss
  · have hb : (e.dialled.segmentFor e.dialled.tcb.sndNxt { syn := true } [] true).build =
        .error "struct.error" := by
      simp [TcpSegment.build, TcpSegment.buildOptions, segmentFor, dialled, hm]
      rfl
    rw [hb]
    simp only [setExc_env]
    constructor
    · intro h
      cases h
    · omega
  · rw [segmentFor_build (by simp [dialled]; omega)]
    constructor
    · intro _
      omega
    · intro _
      simpa [dialled] using hx

theorem sendBuffered_listen (data : List UInt8) (urgent : Bool) (hs : e.tcb.state = .listen)
    (hx : e.env.exc = none) :
    (e.sendBuffered data urgent).env.exc = none ↔
      e.conf.remotePort ≠ 0 ∧ e.tcb.sndMss ≤ 65535 := by
  have ho := activeOpen_exc (Or.inr hs) hx
  rw [sendBuffered, if_pos hs]
  split
  · next hp => simp [raise, hp]
  · next hp =>
    split
    · next hi =>
      rw [ho]
      simp [hp]
    · next hi =>
      rw [sendQueued_exc, ho]
      simp [hp]

theorem sendBuffered_other (data : List UInt8) (urgent : Bool) (hs : e.tcb.state ≠ .listen) :
    (e.sendBuffered data urgent).env.exc = e.env.exc := by
  rw [sendBuffered, if_neg hs, sendQueued_exc]

theorem sendQueued_synSent (data : List UInt8) (urgent : Bool) (hs : e.tcb.state = .synSent) :
    (e.sendQueued data urgent).tcb.state = .synSent := by
  unfold sendQueued
  dsimp only
  have h1 : (if urgent && !data.isEmpty then e.setSndUp else e).tcb.state = .synSent := by
    split
    · exact hs
    · exact hs
  generalize (if urgent && !data.isEmpty then e.setSndUp else e) = f at h1
  rw [if_neg (by simp [h1])]
  exact h1

/-- A SEND in LISTEN that goes through has opened the connection. -/
theorem sendBuffered_state (data : List UInt8) (urgent : Bool) (hs : e.tcb.state = .listen)
    (hp : e.conf.remotePort ≠ 0) : (e.sendBuffered data urgent).tcb.state = .synSent := by
  have ho : e.activeOpen.tcb.state = .synSent := by
    rw [activeOpen_eq (Or.inr hs), connect_eq (Or.inr hs)]
    simp [dialled]
  rw [sendBuffered, if_pos hs, if_neg hp]
  split
  · exact ho
  · exact sendQueued_synSent data urgent ho

/-- What a SEND brings the application's stream to. -/
theorem accepted_eq (h : engineMachine.step e a = some e') (hl : ¬ e.LosesSend a) :
    a.accepted e' = e.buffered a := by
  cases a with
  | send data push urgent t =>
    simp only [engineMachine] at h
    split_ifs at h with he
    obtain rfl := Option.some.inj h
    by_cases ha : e.AcceptsSend
    · have ha' : e.enter.AcceptsSend := ha
      simp only [Action.accepted, buffered, if_pos ha, Action.payload, perform,
        send_of_accepts data push urgent t ha']
      have hf : ((e.enter.setUserTimeout t).bufferData data push).tcb = e.tcb ∧
          ((e.enter.setUserTimeout t).bufferData data push).conf.remotePort = e.conf.remotePort ∧
          ((e.enter.setUserTimeout t).bufferData data push).env.exc = none := by
        cases t <;> exact ⟨rfl, rfl, rfl⟩
      obtain ⟨h1, h2, h3⟩ := hf
      generalize (e.enter.setUserTimeout t).bufferData data push = f at h1 h2 h3
      by_cases hs : e.tcb.state = .listen
      · by_cases hd : data = []
        · simp [hd]
        · rw [if_pos]
          rw [sendBuffered_listen data urgent (by rw [h1]; exact hs) h3, h1, h2]
          by_contra hn
          refine hl ⟨hs, hd, ?_⟩
          omega
      · rw [sendBuffered_other data urgent (by rw [h1]; exact hs), h3, if_pos rfl]
    · obtain ⟨msg, hm⟩ := send_of_refused (e := e.enter) data push urgent t ha
      simp [Action.accepted, buffered, if_neg ha, perform, hm, raise]
  | _ => simp [Action.accepted, buffered, Action.payload]

/-- A SEND that adds to the buffer of an engine without a connection, and returns,
has opened one. -/
theorem buffered_outside (ho : e.Outside) (h : engineMachine.step e a = some e')
    (hl : ¬ e.LosesSend a) (ho' : e'.Outside) : e.buffered a = [] := by
  cases a with
  | send data push urgent t =>
    by_cases ha : e.AcceptsSend
    · rcases ho.cases with hs | hs
      · simp [AcceptsSend, hs] at ha
      · by_cases hd : data = []
        · simp [buffered, Action.payload, hd]
        · exfalso
          have hp : e.conf.remotePort ≠ 0 := fun hp => hl ⟨hs, hd, Or.inl hp⟩
          simp only [engineMachine] at h
          split_ifs at h with he
          obtain rfl := Option.some.inj h
          have ha' : e.enter.AcceptsSend := ha
          have hst : (e.enter.perform (.send data push urgent t)).tcb.state = .synSent := by
            rw [perform, send_of_accepts data push urgent t ha']
            refine sendBuffered_state data urgent ?_ ?_
            · cases t <;> exact hs
            · cases t <;> exact hp
          rw [Outside, hst] at ho'
          simp at ho'
    · simp [buffered, ha]
  | _ => simp [buffered, Action.payload]

/-- A SEND that is lost has buffered its data, and raised. -/
theorem LosesSend.effect (hk : e.Kept) (hl : e.LosesSend a)
    (h : engineMachine.step e a = some e') :
    a.accepted e' = [] ∧ e.buffered a ≠ [] ∧
    (e'.Outside → e'.buf.appBuf = e.buf.appBuf ++ e.buffered a) ∧
      (¬ e'.Outside → e'.tcb.state = .synSent) := by
  obtain ⟨hs, hd, hc⟩ := hl
  cases a with
  | send data push urgent t =>
    have hfin : e.fin.finPending = false := hk.ready.coherent.idle (by simp [ctl, hs])
    have ha : e.enter.AcceptsSend := ⟨by simp [enter, hs], hfin⟩
    simp only [engineMachine] at h
    split_ifs at h with he
    obtain rfl := Option.some.inj h
    have hb : e.buffered (.send data push urgent t) = data := if_pos ha
    rw [hb]
    simp only [perform, send_of_accepts data push urgent t ha]
    have hf : ((e.enter.setUserTimeout t).bufferData data push).tcb = e.tcb ∧
        ((e.enter.setUserTimeout t).bufferData data push).conf.remotePort = e.conf.remotePort ∧
        ((e.enter.setUserTimeout t).bufferData data push).env.exc = none ∧
        ((e.enter.setUserTimeout t).bufferData data push).buf.appBuf = e.buf.appBuf ++ data := by
      cases t <;> exact ⟨rfl, rfl, rfl, rfl⟩
    obtain ⟨h1, h2, h3, h4⟩ := hf
    generalize (e.enter.setUserTimeout t).bufferData data push = f at h1 h2 h3 h4
    refine ⟨?_, hd, ?_, ?_⟩
    · rw [Action.accepted, if_neg]
      rw [sendBuffered_listen data urgent (by rw [h1]; exact hs) h3, h1, h2]
      omega
    · intro ho
      by_cases hp : f.conf.remotePort = 0
      · rw [sendBuffered, if_pos (by rw [h1]; exact hs), if_pos hp]
        exact h4
      · have hst := sendBuffered_state data urgent (e := f) (by rw [h1]; exact hs) hp
        rw [Outside, hst] at ho
        simp at ho
    · intro ho
      by_cases hp : f.conf.remotePort = 0
      · exfalso
        apply ho
        rw [sendBuffered, if_pos (by rw [h1]; exact hs), if_pos hp]
        simp [Outside, raise, h1, hs]
      · exact sendBuffered_state data urgent (by rw [h1]; exact hs) hp
  | _ => exact absurd rfl hd

end TcpEngine

/-! ## The invariant of a session -/

open TcpEngine in
/-- The queue and the buffer represent what has been written: the queue tiles the
sequence space from SND.UNA to SND.NXT, what is acknowledged, what is queued and
what is buffered are the stream in this order, and whatever has been emitted
stands in it. -/
structure Represented (s : Session) : Prop where
  before : s.used = false → s.eng.buf.retx = [] ∧ s.eng.buf.appBuf = s.written
  during : ¬ s.eng.Outside → ∃ k, SendInv s.written k s.eng
  sealed : s.eng.fin.finSent = true → ¬ s.eng.AcceptsSend
  emitted : ∀ seg, .tx seg ∈ s.eng.env.log →
    Stands (sent s.written s.eng.finTag) s.eng.tcb.iss seg

namespace Session

open TcpEngine

variable {s s' : Session} {a : Action}

structure Sound (s : Session) : Prop where
  kept : s.eng.Kept
  fresh : s.used = false →
    s.written = [] ∧ Resting [] s.eng ∧ ∀ seg, .tx seg ∈ s.eng.env.log → Bare seg
  linked : s.used = true → ¬ s.eng.Outside → Linked s.written s.eng
  emitted : ∀ seg, .tx seg ∈ s.eng.env.log →
    Stands (sent s.written s.eng.finTag) s.eng.tcb.iss seg

theorem step_cases (h : connectionMachine.step s a = some s') :
    ¬ (s.used = true ∧ s.eng.Outside) ∧ ∃ e', engineMachine.step s.eng a = some e' ∧
      s' = { eng := e', written := s.written ++ a.accepted e',
             used := s.used || decide (¬ e'.Outside) } := by
  simp only [connectionMachine] at h
  split_ifs at h with ho
  obtain ⟨e', he, rfl⟩ := Option.map_eq_some_iff.mp h
  exact ⟨ho, e', he, rfl⟩

theorem Sound.represented (h : s.Sound) : Represented s := by
  constructor
  · intro hu
    obtain ⟨hw, hr, -⟩ := h.fresh hu
    exact ⟨hr.idle.retx, hr.idle.appBuf.trans hw.symm⟩
  · intro ho
    cases hu : s.used with
    | true => exact (h.linked hu ho).inv
    | false => exact absurd (h.fresh hu).2.1.outside ho
  · intro hf ha
    have hp : s.eng.fin.finPending = true := h.kept.ready.coherent.pending hf
    rw [ha.2] at hp
    cases hp
  · exact h.emitted

/-- A session before its connection. -/
theorem Sound.step_fresh (h : s.Sound) (hu : s.used = false) {e' : TcpEngine}
    (he : engineMachine.step s.eng a = some e') (hl : ¬ s.eng.LosesSend a) :
    Sound { eng := e', written := s.written ++ a.accepted e',
            used := s.used || decide (¬ e'.Outside) } := by
  obtain ⟨hw, hr, hbare⟩ := h.fresh hu
  have hk := h.kept.step he
  rw [hw, hu, accepted_eq he hl, List.nil_append, Bool.false_or]
  by_cases ho : e'.Outside
  · obtain ⟨evs, hlog, hall⟩ := hr.quiet h.kept he ho
    have hb := buffered_outside hr.outside he hl ho
    have hstill (seg : TcpSegment) (hs : Event.tx seg ∈ e'.env.log) : Bare seg := by
      rw [hlog, List.mem_append] at hs
      rcases hs with hs | hs
      · exact hbare seg hs
      · exact hall _ hs seg rfl
    rw [hb]
    constructor
    · exact hk
    · intro _
      have hrest := hr.stays h.kept he ho
      rw [hb] at hrest
      exact ⟨rfl, hrest.elim id id, hstill⟩
    · intro _ hn
      exact absurd ho hn
    · exact fun seg hs => Or.inl (hstill seg hs)
  · obtain ⟨evs, hlog, hall⟩ := h.kept.emits he hr.begin
    constructor
    · exact hk
    · intro hn
      simp [ho] at hn
    · intro _ _
      rcases (h.kept.staged he hr.begin).linked_or_ended with ⟨hx, -⟩ | ⟨-, hi⟩
      · exact absurd hx ho
      · exact ⟨ho, hi⟩
    · intro seg hs
      rw [hlog, List.mem_append] at hs
      rcases hs with hs | hs
      · exact Or.inl (hbare seg hs)
      · exact hall _ hs seg rfl

/-- A session with its connection under way. -/
theorem Sound.step_linked (h : s.Sound) (hu : s.used = true) (ho : ¬ s.eng.Outside)
    {e' : TcpEngine} (he : engineMachine.step s.eng a = some e') (hl : ¬ s.eng.LosesSend a) :
    Sound { eng := e', written := s.written ++ a.accepted e',
            used := s.used || decide (¬ e'.Outside) } := by
  have hlink := h.linked hu ho
  have h0 := hlink.begin (a := a) h.kept.ready.coherent
  obtain ⟨evs, hlog, hall⟩ := h.kept.emits he h0
  obtain ⟨hiss, hgrow⟩ := hlink.keeps h.kept he
  rw [hu, accepted_eq he hl, Bool.true_or]
  constructor
  · exact h.kept.step he
  · intro hn
    cases hn
  · intro _ hn
    rcases (h.kept.staged he h0).linked_or_ended with ⟨hx, -⟩ | ⟨-, hi⟩
    · exact absurd hx hn
    · exact ⟨hn, hi⟩
  · intro seg hs
    rw [hlog, List.mem_append] at hs
    rcases hs with hs | hs
    · have hst := (h.emitted seg hs).mono hgrow
      rw [← hiss] at hst
      exact hst
    · exact hall _ hs seg rfl

theorem sound_preserves :
    connectionMachine.Preserves (fun s a => ¬ s.eng.LosesSend a) Sound := by
  intro s a s' h hl hs
  obtain ⟨hover, e', he, rfl⟩ := step_cases hs
  cases hu : s.used with
  | false => exact hu ▸ h.step_fresh hu he hl
  | true => exact hu ▸ h.step_linked hu (fun ho => hover ⟨hu, ho⟩) he hl

/-- The lost SEND shows in the buffer at once. -/
theorem Sound.loses (h : s.Sound) (hl : s.eng.LosesSend a)
    (hs : connectionMachine.step s a = some s') : ¬ Represented s' := by
  obtain ⟨hover, e', he, rfl⟩ := step_cases hs
  have hout : s.eng.Outside := by simp [Outside, hl.1]
  have hu : s.used = false := by
    cases hu : s.used with
    | false => rfl
    | true => exact absurd ⟨hu, hout⟩ hover
  obtain ⟨hw, hr, -⟩ := h.fresh hu
  obtain ⟨hacc, hne, hrest, hopen⟩ := hl.effect h.kept he
  intro hp
  by_cases ho : e'.Outside
  · have hb := (hp.before (by simp [hu, ho])).2
    rw [hrest ho, hr.idle.appBuf, hw, hacc] at hb
    exact hne (by simpa using hb)
  · obtain ⟨k, hk⟩ := hp.during ho
    rcases (h.kept.staged he hr.begin).linked_or_ended with ⟨hx, -⟩ | ⟨-, j, hj⟩
    · exact absurd hx ho
    have hsyn : e'.tcb.state ∈ [.synSent, .synReceived] := by simp [hopen ho]
    -- both streams start at the SYN, so their lengths can be compared
    have hk0 := hk.opening hsyn
    have hj0 := hj.opening hsyn
    have h1 := hk.length_eq
    have h2 := hj.length_eq
    have hpos := List.length_pos_iff.mpr hne
    simp only [hw, hacc, List.nil_append, List.length_nil] at h1 h2
    omega

theorem sound_init (args : EngineArgs) (sched : ManualScheduler Callback) (rand : Nat)
    (hs : sched.heap = []) (hm : 1 ≤ args.sndMss) : Sound { eng := init args sched rand } := by
  constructor
  · exact kept_init args sched rand hs hm
  · intro _
    refine ⟨rfl, resting_init args sched rand, fun seg hseg => ?_⟩
    cases hseg
  · intro hu
    cases hu
  · intro seg hseg
    cases hseg

end Session

open TcpEngine in
/-- The queue and the buffer represent the stream in every state of the connection
exactly when no SEND of it raises after buffering its data. -/
theorem stream_represented (args : EngineArgs) (sched : ManualScheduler Callback) (rand : Nat)
    (as : List Action) (s : Session) (hs : sched.heap = []) (hm : 1 ≤ args.sndMss)
    (hr : connectionMachine.run { eng := init args sched rand } as = some s) :
    connectionMachine.Throughout Represented { eng := init args sched rand } as ↔
      connectionMachine.AllSteps (fun t a => ¬ t.eng.LosesSend a)
        { eng := init args sched rand } as :=
  Lib.Machine.throughout_iff Session.sound_preserves (fun _ h => h.represented)
    (fun _ _ _ h hl hs => h.loses (not_not.mp hl) hs)
    (Session.sound_init args sched rand hs hm) hr

/-- A listener without a foreign socket is asked to send. -/
def lostRun : List Action := [.passiveOpen, .send [7] true false none]

def lostStart : Session := { eng := TcpEngine.init { localPort := 80, iss := some 100 } {} 0 }

theorem refused_send_is_buffered : ∃ s, connectionMachine.run lostStart lostRun = some s ∧
    s.written = [] ∧ s.eng.buf.appBuf = [7] ∧ ¬ Represented s := by
  have h : ((connectionMachine.run lostStart lostRun).map
      fun s => (s.written, s.eng.buf.appBuf, s.used)) = some ([], [7], false) := by
    decide +kernel
  obtain ⟨s, hs, hv⟩ := Option.map_eq_some_iff.mp h
  simp only [Prod.mk.injEq] at hv
  obtain ⟨hw, hb, hu⟩ := hv
  refine ⟨s, hs, hw, hb, fun hr => ?_⟩
  have := (hr.before hu).2
  rw [hw, hb] at this
  cases this

theorem lost_run_loses :
    connectionMachine.Throughout Represented lostStart lostRun ↔
      connectionMachine.AllSteps (fun t a => ¬ t.eng.LosesSend a) lostStart lostRun := by
  have hr : (connectionMachine.run lostStart lostRun).isSome = true := by decide +kernel
  obtain ⟨s, hs⟩ := Option.isSome_iff_exists.mp hr
  exact stream_represented _ {} 0 lostRun s rfl (by decide) hs

end HdlPlayground.Tcp

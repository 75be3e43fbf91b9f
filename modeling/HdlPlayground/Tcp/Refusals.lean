import HdlPlayground.Tcp.SenderRuns

/-!
# Refused calls

A user call that raises `RuntimeError` should leave the engine as it found it. Two
calls change something before the check that refuses them: OPEN its ports, its name
and its timeout, and SEND in LISTEN the buffer, the push flag and the timeout.
-/
namespace HdlPlayground.Tcp

/-- The entry points of the user. -/
def Action.Calls : Action → Prop
  | .openCall .. | .activeOpen | .passiveOpen | .send .. | .receive _ | .close | .abort => True
  | .tick _ | .random _ | .segment _ | .expire _ => False

namespace TcpEngine

variable {a : Action} {e : TcpEngine}

/-- The call raises `RuntimeError`. -/
def Refuses (e : TcpEngine) (a : Action) : Prop :=
  a.Calls ∧ ∃ msg, (e.enter.perform a).env.exc = some (.runtimeError msg)

/-- A refused call leaves everything as it was, what has been transmitted included;
only the exception tells of it. -/
def Atomic (e : TcpEngine) (a : Action) : Prop :=
  e.Refuses a → (e.enter.perform a).enter = e.enter

/-- The arguments of an OPEN are what the engine has already. -/
structure OpenKeeps (e : TcpEngine) (remotePort localPort : Option Nat) (timeout : Option ℚ) :
    Prop where
  remote : ∀ p, remotePort = some p → p = e.conf.remotePort
  here : ∀ p, localPort = some p → p = e.conf.localPort
  limit : ∀ t, timeout = some t → e.conf.cfg.userTimeout = some t
  name : e.conf.connectionName = connName e.conf.name e.conf.localPort e.conf.remotePort

/-- So are those of a SEND, and it has no data. -/
structure SendKeeps (e : TcpEngine) (data : List UInt8) (push : Bool) (timeout : Option ℚ) :
    Prop where
  empty : data = []
  push : push = true → e.psh.push = true
  limit : ∀ t, timeout = some t → e.conf.cfg.userTimeout = some t

/-- The calls that are refused after they have changed something. -/
def ChangesFirst (e : TcpEngine) : Action → Prop
  | .openCall active remotePort localPort timeout =>
    ¬ (e.tcb.state = .closed ∨ active = true ∧ e.tcb.state = .listen) ∧
      ¬ e.OpenKeeps remotePort localPort timeout
  | .send data push _ timeout =>
    e.tcb.state = .listen ∧ e.fin.finPending = false ∧ e.conf.remotePort = 0 ∧
      ¬ e.SendKeeps data push timeout
  | _ => False

/-! ## What the calls raise -/

theorem raises_iff {x : Option Exc} (h : x = none ∨ x = some .structError) :
    ¬ ∃ msg, x = some (Exc.runtimeError msg) := by
  rintro ⟨msg, hm⟩
  rcases h with h | h
  · rw [h] at hm
    cases hm
  · rw [h] at hm
    cases hm

theorem raise_enter (msg : String) : (e.raise msg).enter = e.enter := rfl

/-- Once the state allows it, an active open raises at most `struct.error`. -/
theorem connect_exc (hs : e.tcb.state = .closed ∨ e.tcb.state = .listen) (hx : e.env.exc = none) :
    e.connect.env.exc = none ∨ e.connect.env.exc = some .structError := by
  rw [connect_eq hs]
  rcases e.dialled.queueAndSend_cases { syn := true } [] true 0 with h | ⟨-, -, h⟩
  · left
    rw [h]
    simpa [dialled] using hx
  · right
    rw [h]
    rfl

theorem startListening_exc : e.startListening.env.exc = e.env.exc := by
  simp [startListening]

theorem enterClosed_exc : e.enterClosed.env.exc = e.env.exc := by
  simp [enterClosed, cancelPersist, closeDown, sendPending_exc]

theorem abort_exc (hx : e.env.exc = none) (hs : e.tcb.state ≠ .closed) :
    e.abort.env.exc = none := by
  rw [abort, if_neg hs, enterClosed_exc]
  split
  · simpa [sendRst] using hx
  · exact hx

theorem receive_refused (n : Nat) (hx : e.env.exc = none) :
    (∃ msg, e.receive n = e.raise msg) ∨ (e.receive n).env.exc = none := by
  unfold receive
  split_ifs
  · exact Or.inl ⟨_, rfl⟩
  · exact Or.inl ⟨_, rfl⟩
  · exact Or.inl ⟨_, rfl⟩
  · apply Or.inr
    dsimp only
    split
    · simpa [reopenWindow, drain] using hx
    · simpa [drain] using hx

theorem close_refused (hx : e.env.exc = none) :
    (∃ msg, e.close = e.raise msg) ∨ e.close.env.exc = none := by
  unfold close
  split_ifs
  · exact Or.inl ⟨_, rfl⟩
  · exact Or.inl ⟨_, rfl⟩
  · exact Or.inr (enterClosed_exc.trans hx)
  · exact Or.inr (sendPending_exc.trans hx)

/-! ## The two calls that change something first -/

theorem setPorts_keeps {r l : Option Nat} {t : Option ℚ} :
    ((e.setPorts r l).setUserTimeout t).enter = e.enter ↔ e.OpenKeeps r l t := by
  constructor
  · intro h
    have h0 := congrArg (fun f : TcpEngine => f.conf) h
    have hconf : ((e.setPorts r l).setUserTimeout t).conf = e.conf := h0
    have hports : r.getD e.conf.remotePort = e.conf.remotePort ∧
        l.getD e.conf.localPort = e.conf.localPort ∧
        connName e.conf.name (l.getD e.conf.localPort) (r.getD e.conf.remotePort) =
          e.conf.connectionName := by
      have h1 := congrArg Conf.remotePort hconf
      have h2 := congrArg Conf.localPort hconf
      have h3 := congrArg Conf.connectionName hconf
      cases t <;> exact ⟨h1, h2, h3⟩
    obtain ⟨h1, h2, h3⟩ := hports
    refine ⟨?_, ?_, ?_, ?_⟩
    · rintro p rfl
      exact h1
    · rintro p rfl
      exact h2
    · rintro x rfl
      have h4 := congrArg (fun c : Conf => c.cfg.userTimeout) hconf
      exact h4.symm
    · rw [h1, h2] at h3
      exact h3.symm
  · rintro ⟨hr, hl, ht, hn⟩
    have h1 : r.getD e.conf.remotePort = e.conf.remotePort := by
      cases r with
      | none => rfl
      | some p => exact hr p rfl
    have h2 : l.getD e.conf.localPort = e.conf.localPort := by
      cases l with
      | none => rfl
      | some p => exact hl p rfl
    have h3 : e.setPorts r l = e := by
      rw [setPorts]
      simp only [h1, h2, ← hn]
    rw [h3]
    cases t with
    | none => rfl
    | some x =>
      have h4 := ht x rfl
      rw [setUserTimeout, ← h4]

theorem openCall_atomic (active : Bool) (r l : Option Nat) (t : Option ℚ) :
    e.Atomic (.openCall active r l t) ↔ ¬ e.ChangesFirst (.openCall active r l t) := by
  have hset : ((e.enter.setPorts r l).setUserTimeout t).tcb.state = e.tcb.state ∧
      ((e.enter.setPorts r l).setUserTimeout t).env.exc = none := by
    cases t <;> exact ⟨rfl, rfl⟩
  have hkeeps : ((e.enter.setPorts r l).setUserTimeout t).enter = e.enter ↔
      e.enter.OpenKeeps r l t := setPorts_keeps
  have hk : e.enter.OpenKeeps r l t ↔ e.OpenKeeps r l t := by
    constructor <;> exact fun ⟨h1, h2, h3, h4⟩ => ⟨h1, h2, h3, h4⟩
  rw [hk] at hkeeps
  by_cases hs : e.tcb.state = .closed ∨ active = true ∧ e.tcb.state = .listen
  · refine iff_of_true (fun hr => ?_) fun hc => hc.1 hs
    refine absurd hr.2 (raises_iff ?_)
    simp only [perform, openCall]
    cases active with
    | true =>
      have hs' : e.tcb.state = .closed ∨ e.tcb.state = .listen := by simpa using hs
      rw [if_pos rfl, activeOpen_eq (by rwa [hset.1])]
      exact connect_exc (by rwa [hset.1]) hset.2
    | false =>
      have hs' : e.tcb.state = .closed := by simpa using hs
      rw [if_neg (by simp), passiveOpen_eq (by rwa [hset.1]), startListening_exc]
      exact Or.inl hset.2
  · have hraise : ∃ msg, e.enter.perform (.openCall active r l t) =
        ((e.enter.setPorts r l).setUserTimeout t).raise msg := by
      simp only [perform, openCall]
      cases active with
      | true =>
        rw [if_pos rfl, activeOpen, if_pos (by rw [hset.1]; simpa using hs)]
        exact ⟨_, rfl⟩
      | false =>
        rw [if_neg (by simp), passiveOpen, if_pos (by rw [hset.1]; simpa using hs)]
        exact ⟨_, rfl⟩
    obtain ⟨msg, hm⟩ := hraise
    have hr : e.Refuses (.openCall active r l t) := ⟨trivial, msg, by rw [hm]; rfl⟩
    constructor
    · intro ha hc
      refine hc.2 (hkeeps.mp ?_)
      have := ha hr
      rw [hm, raise_enter] at this
      exact this
    · intro hc _
      rw [hm, raise_enter, hkeeps]
      by_contra hn
      exact hc ⟨hs, hn⟩

theorem bufferData_keeps {data : List UInt8} {push : Bool} {t : Option ℚ} :
    ((e.setUserTimeout t).bufferData data push).enter = e.enter ↔ e.SendKeeps data push t := by
  constructor
  · intro h
    have hbuf := congrArg (fun f : TcpEngine => f.buf.appBuf) h
    have hpsh := congrArg (fun f : TcpEngine => f.psh.push) h
    have hcfg := congrArg (fun f : TcpEngine => f.conf.cfg.userTimeout) h
    refine ⟨?_, ?_, ?_⟩
    · have : e.buf.appBuf ++ data = e.buf.appBuf := by
        cases t <;> exact hbuf
      simpa using this
    · rintro rfl
      have : (true || e.psh.push) = e.psh.push := by
        cases t <;> exact hpsh
      exact this.symm
    · rintro x rfl
      exact hcfg.symm
  · rintro ⟨rfl, hp, ht⟩
    have h1 : e.setUserTimeout t = e := by
      cases t with
      | none => rfl
      | some x => rw [setUserTimeout, ← ht x rfl]
    have h2 : (push || e.psh.push) = e.psh.push := by
      cases push with
      | true => simp [hp rfl]
      | false => rfl
    rw [h1, bufferData, h2, List.append_nil]

theorem send_atomic (data : List UInt8) (push urgent : Bool) (t : Option ℚ) :
    e.Atomic (.send data push urgent t) ↔ ¬ e.ChangesFirst (.send data push urgent t) := by
  have hkeeps : ((e.enter.setUserTimeout t).bufferData data push).enter = e.enter ↔
      e.enter.SendKeeps data push t := bufferData_keeps
  have hk : e.enter.SendKeeps data push t ↔ e.SendKeeps data push t := by
    constructor <;> exact fun ⟨h1, h2, h3⟩ => ⟨h1, h2, h3⟩
  rw [hk] at hkeeps
  by_cases ha : e.enter.AcceptsSend
  · have hset : ((e.enter.setUserTimeout t).bufferData data push).tcb.state = e.tcb.state ∧
        ((e.enter.setUserTimeout t).bufferData data push).env.exc = none ∧
        ((e.enter.setUserTimeout t).bufferData data push).conf.remotePort = e.conf.remotePort := by
      cases t <;> exact ⟨rfl, rfl, rfl⟩
    obtain ⟨h1, h2, h3⟩ := hset
    have hp : e.fin.finPending = false := ha.2
    simp only [Atomic, Refuses, perform, send_of_accepts _ _ _ _ ha]
    by_cases hl : e.tcb.state = .listen ∧ e.conf.remotePort = 0
    · have hraise : ((e.enter.setUserTimeout t).bufferData data push).sendBuffered data urgent =
          ((e.enter.setUserTimeout t).bufferData data push).raise "foreign socket unspecified" := by
        rw [sendBuffered, if_pos (by rw [h1]; exact hl.1), if_pos (by rw [h3]; exact hl.2)]
      rw [hraise, raise_enter, hkeeps]
      constructor
      · exact fun h hc => hc.2.2.2 (h ⟨trivial, _, rfl⟩)
      · intro hc _
        by_contra hn
        exact hc ⟨hl.1, hp, hl.2, hn⟩
    · refine iff_of_true (fun hr => ?_) fun hc => hl ⟨hc.1, hc.2.2.1⟩
      refine absurd hr.2 (raises_iff ?_)
      rw [sendBuffered]
      split
      · next hls =>
        rw [h1] at hls
        rw [if_neg (by rw [h3]; exact fun h0 => hl ⟨hls, h0⟩)]
        have hopen := connect_exc (Or.inr (h1.trans hls)) h2
        rw [← activeOpen_eq (Or.inr (h1.trans hls))] at hopen
        split
        · exact hopen
        · rw [sendQueued_exc]
          exact hopen
      · exact Or.inl ((sendQueued_exc data urgent).trans h2)
  · obtain ⟨msg, hm⟩ := send_of_refused (e := e.enter) data push urgent t ha
    refine iff_of_true (fun _ => ?_) fun hc => ha ⟨?_, hc.2.1⟩
    · simp only [perform, hm]
      rfl
    · rw [enter_tcb, hc.1]
      simp

/-- A refused call leaves the engine as it was, unless it is one of the two that
change something before they check. -/
theorem refused_call_atomic (e : TcpEngine) (a : Action) : e.Atomic a ↔ ¬ e.ChangesFirst a := by
  have hx : e.enter.env.exc = none := rfl
  have hraise {f : TcpEngine} (h : (∃ msg, f = e.enter.raise msg) ∨ f.env.exc = none) :
      (∃ msg, f.env.exc = some (.runtimeError msg)) → f.enter = e.enter := by
    intro hr
    rcases h with ⟨msg, rfl⟩ | h
    · rfl
    · exact absurd hr (raises_iff (Or.inl h))
  cases a with
  | openCall active r l t => exact openCall_atomic active r l t
  | send data push urgent t => exact send_atomic data push urgent t
  | activeOpen =>
    refine iff_of_true (fun hr => ?_) id
    by_cases hs : e.tcb.state = .closed ∨ e.tcb.state = .listen
    · have hopen := connect_exc (e := e.enter) hs hx
      rw [← activeOpen_eq (e := e.enter) hs] at hopen
      exact absurd hr.2 (raises_iff hopen)
    · have hraised : ∃ msg, e.enter.activeOpen = e.enter.raise msg := by
        have hs' : e.enter.tcb.state ≠ .closed ∧ e.enter.tcb.state ≠ .listen := not_or.mp hs
        exact ⟨s!"connection already exists ({e.enter.tcb.state.str})", if_pos hs'⟩
      exact hraise (Or.inl hraised) hr.2
  | passiveOpen =>
    refine iff_of_true (fun hr => ?_) id
    by_cases hs : e.tcb.state = .closed
    · have hopen : (e.enter.perform .passiveOpen).env.exc = none := by
        simp only [perform]
        rw [passiveOpen_eq (e := e.enter) hs, startListening_exc]
        exact hx
      exact hraise (Or.inr hopen) hr.2
    · have hraised : ∃ msg, e.enter.passiveOpen = e.enter.raise msg :=
        ⟨s!"connection already exists ({e.enter.tcb.state.str})", if_pos hs⟩
      exact hraise (Or.inl hraised) hr.2
  | receive n => exact iff_of_true (fun hr => hraise (receive_refused n hx) hr.2) id
  | close => exact iff_of_true (fun hr => hraise (close_refused hx) hr.2) id
  | abort =>
    refine iff_of_true (fun hr => ?_) id
    by_cases hs : e.tcb.state = .closed
    · exact hraise (Or.inl ⟨_, if_pos hs⟩) hr.2
    · exact hraise (Or.inr (abort_exc hx hs)) hr.2
  | tick dt => exact iff_of_true (fun hr => hr.1.elim) id
  | random r => exact iff_of_true (fun hr => hr.1.elim) id
  | segment data => exact iff_of_true (fun hr => hr.1.elim) id
  | expire h => exact iff_of_true (fun hr => hr.1.elim) id

/-- A refused SEND stays in the buffer of the listener, and so do the ports of a
refused OPEN. -/
theorem refused_calls_change : ∃ e : TcpEngine,
    engineMachine.run (.init { localPort := 80, iss := some 100 } {} 0) [.passiveOpen] = some e ∧
      ¬ e.Atomic (.send [7] true false none) ∧
      ¬ e.Atomic (.openCall false (some 9) none none) := by
  have hrun : (engineMachine.run (.init { localPort := 80, iss := some 100 } {} 0)
      [.passiveOpen]).isSome = true := by decide +kernel
  obtain ⟨e, he⟩ := Option.isSome_iff_exists.mp hrun
  have hsend : ((engineMachine.run (.init { localPort := 80, iss := some 100 } {} 0)
      [.passiveOpen]).map fun e => ((e.enter.perform (.send [7] true false none)).env.exc,
        (e.enter.perform (.send [7] true false none)).buf.appBuf, e.buf.appBuf)) =
      some (some (.runtimeError "foreign socket unspecified"), [7], []) := by
    decide +kernel
  have hopen : ((engineMachine.run (.init { localPort := 80, iss := some 100 } {} 0)
      [.passiveOpen]).map fun e => ((e.enter.perform (.openCall false (some 9) none none)).env.exc,
        (e.enter.perform (.openCall false (some 9) none none)).conf.remotePort,
        e.conf.remotePort)) =
      some (some (.runtimeError "connection already exists (ConnState.LISTEN)"), 9, 0) := by
    decide +kernel
  rw [he] at hsend hopen
  simp only [Option.map_some, Option.some.injEq, Prod.mk.injEq] at hsend hopen
  obtain ⟨hx, hb, hb0⟩ := hsend
  obtain ⟨hx', hp, hp0⟩ := hopen
  refine ⟨e, he, fun ha => ?_, fun ha => ?_⟩
  · have hsame := congrArg (fun f : TcpEngine => f.buf.appBuf) (ha ⟨trivial, _, hx⟩)
    have hcon : [(7 : UInt8)] = [] := (hb.symm.trans hsame).trans hb0
    cases hcon
  · have hsame := congrArg (fun f : TcpEngine => f.conf.remotePort) (ha ⟨trivial, _, hx'⟩)
    have hcon : (9 : Nat) = 0 := (hp.symm.trans hsame).trans hp0
    omega

end TcpEngine

end HdlPlayground.Tcp

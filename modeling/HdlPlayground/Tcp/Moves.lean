import Mathlib.Logic.Relation
import HdlPlayground.Tcp.Sending

/-!
# The elementary moves of an engine

Every entry point is a sequence of the moves below. A move is one method, or a
group of statements the code never separates, applied under the guard the code
has checked when it gets there; so a property that each move preserves holds
after every run. The moves that close a connection are guarded by `Blocked`: an
entry point starts on a drained engine, and what it does before it closes does
not make anything sendable.
-/
namespace HdlPlayground.Tcp

/-- The segments the entry point works on: the one that arrived, and what is left
of it once a SYN has been taken off. -/
def Action.Carries (a : Action) (seg : TcpSegment) : Prop :=
  ∃ data s, a = .segment data ∧ TcpSegment.parse data = .ok s ∧ (seg = s ∨ seg = s.synTaken)

/-- The user calls that open a connection; a SEND in LISTEN does too. -/
def Action.Opens : Action → Prop
  | .openCall .. | .activeOpen | .passiveOpen => True
  | _ => False

instance : (a : Action) → Decidable a.Opens
  | .openCall .. | .activeOpen | .passiveOpen => inferInstanceAs (Decidable True)
  | .tick _ | .random _ | .send .. | .receive _ | .close | .abort | .segment _ | .expire _ =>
    inferInstanceAs (Decidable False)

/-- The entry points that can end a connection. None of them begins one: a segment
does one or the other by its flags. -/
def Action.Closes : Action → Prop
  | .close | .abort | .expire _ => True
  | .segment data => ∀ s, TcpSegment.parse data = .ok s → s.rst = true ∨ s.ackFlag = true
  | _ => False

theorem Action.Carries.closes_iff {a : Action} {seg : TcpSegment} (h : a.Carries seg) :
    a.Closes ↔ seg.rst = true ∨ seg.ackFlag = true := by
  obtain ⟨data, s, rfl, hp, hs⟩ := h
  have hflags : seg.rst = s.rst ∧ seg.ackFlag = s.ackFlag := by
    rcases hs with rfl | rfl <;> exact ⟨rfl, rfl⟩
  rw [hflags.1, hflags.2]
  constructor
  · exact fun hx => hx s hp
  · intro hx s' hp'
    rw [hp] at hp'
    obtain rfl := Except.ok.inj hp'
    exact hx

/-- What is parsed fits the header, and so does what is left once a SYN is taken off. -/
theorem Action.Carries.fits {a : Action} {seg : TcpSegment} (h : a.Carries seg) : seg.Fits := by
  obtain ⟨data, s, -, hp, rfl | rfl⟩ := h
  · exact TcpSegment.fits_of_parse hp
  · have hs := TcpSegment.fits_of_parse hp
    refine ⟨?_, hs.ack, hs.window⟩
    simp only [TcpSegment.synTaken, add_def]
    omega

theorem Action.Opens.not_closes {a : Action} (h : a.Opens) : ¬ a.Closes := by
  cases a <;> simp_all [Action.Opens, Action.Closes]

namespace TcpEngine

/-- States in which segment text is processed. -/
abbrev DataStates : List ConnState := [.established, .finWait1, .finWait2]

/-- States after the handshake and before TIME-WAIT. -/
abbrev OpenStates : List ConnState :=
  [.established, .finWait1, .finWait2, .closeWait, .closing, .lastAck]

/-- A timer comes off the heap and its slot is cleared. -/
def fire (e : TcpEngine) (h : TimerHandle Callback) : TcpEngine :=
  (e.popTimer h).forgetTimer h.cb

/-- An acknowledgement of something new. -/
def AcksNew (e : TcpEngine) (ack : Int) : Prop :=
  seqGt ack e.tcb.sndUna = true ∧ seqLeq ack e.tcb.sndNxt = true

/-- The acknowledgement that completes the handshake in SYN-RECEIVED. -/
def CompletesOpen (e : TcpEngine) (seg : TcpSegment) : Prop :=
  e.tcb.state = .synReceived ∧ seg.ackFlag = true ∧ seqLt e.tcb.sndUna seg.ack = true ∧
    seqLeq seg.ack e.tcb.sndNxt = true

/-- What `_handle_synchronized` does with it. -/
def openCompleted (e : TcpEngine) (seg : TcpSegment) : TcpEngine :=
  ((e.processAck seg.ack).setSendWindow seg.window seg.seq seg.ack).setState .established

/-- A SYN that `_handle_syn_sent` takes. -/
def TakesSyn (e : TcpEngine) (seg : TcpSegment) : Prop :=
  e.tcb.state = .synSent ∧ seg.syn = true ∧ seg.rst = false ∧
    (seg.ackFlag = true → seqGt seg.ack e.tcb.iss = true ∧ seqLeq seg.ack e.tcb.sndNxt = true)

/-- A segment that is answered with a RST. -/
def Rejects (e : TcpEngine) (seg : TcpSegment) : Prop :=
  match e.tcb.state with
  | .closed => True
  | .listen => seg.ackFlag = true
  | .synSent => seg.ackFlag = true ∧
      (seqLeq seg.ack e.tcb.iss = true ∨ seqGt seg.ack e.tcb.sndNxt = true)
  | .synReceived => seg.ackFlag = true ∧
      (seqLt e.tcb.sndUna seg.ack = false ∨ seqLeq seg.ack e.tcb.sndNxt = false)
  | _ => False

/-- The peer's FIN is next in sequence: it has just arrived, or was deferred. -/
def FinNext (e : TcpEngine) (a : Action) : Prop :=
  ∃ seg, a.Carries seg ∧
    (seg.fin = true ∧ seg.syn = false ∧ e.tcb.rcvNxt = add seg.seq seg.payload.length ∨
      e.fin.pendingFin = some e.tcb.rcvNxt)

/-- Text is delivered, from the segment or from the reassembly queue. -/
inductive Receives (a : Action) (e : TcpEngine) : TcpEngine → Prop
  | takeInOrder (seg : TcpSegment) (off n : Nat) : a.Carries seg →
      e.tcb.state ∈ DataStates → seg.syn = false →
      (off = 0 ∧ seg.seq = e.tcb.rcvNxt ∨
        seqLt seg.seq e.tcb.rcvNxt = true ∧ (off : Int) = sub e.tcb.rcvNxt seg.seq) →
      off < seg.payload.length → 0 < n →
      (n : Int) ≤ s32 (sub (add e.tcb.rcvNxt e.rcvWnd) e.tcb.rcvNxt) →
      Receives a e (e.takeInOrder seg ((seg.payload.drop off).take n))
  | mergeEntry (seg : TcpSegment) (x : OooEntry) : a.Carries seg → e.tcb.state ∈ DataStates →
      e.buf.ooo.find? e.mergeable = some x →
      Receives a e (TcpEngine.mergeEntry
        { e with buf := { e.buf with ooo := e.buf.ooo.eraseP e.mergeable } } x)

inductive Move (a : Action) : TcpEngine → TcpEngine → Prop
  -- user calls and the outside world
  | passTime (e : TcpEngine) (dt : ℚ) : 0 ≤ dt → Move a e (e.passTime dt)
  | drawRandom (e : TcpEngine) (r : Nat) : Move a e (e.drawRandom r)
  | raise (e : TcpEngine) (x : Exc) : Move a e (e.setExc x)
  | hang (e : TcpEngine) : Move a e e.hang
  | setPorts (e : TcpEngine) (r l : Option Nat) : a.Opens → Move a e (e.setPorts r l)
  | setUserTimeout (e : TcpEngine) (t : Option ℚ) : Move a e (e.setUserTimeout t)
  | connect (e : TcpEngine) : (e.tcb.state = .closed ∧ a.Opens) ∨ e.tcb.state = .listen →
      ¬ a.Closes → Move a e e.connect
  | startListening (e : TcpEngine) : e.tcb.state = .closed → a.Opens → Move a e e.startListening
  | setSndUp (e : TcpEngine) : e.tcb.state ≠ .closed →
      (∃ data push t, a = .send data push true t) → Move a e e.setSndUp
  | drain (e : TcpEngine) (n : Nat) : a = .receive n → e.tcb.state ≠ .closed → Move a e (e.drain n)
  | reopenWindow (e : TcpEngine) (n : Nat) : a = .receive n → 0 < e.rcvWnd →
      Move a e e.reopenWindow
  | finishReceive (e : TcpEngine) (data : List UInt8) : Move a e (e.finishReceive data)
  | requestFin (e : TcpEngine) : e.tcb.state ∈ [.synReceived, .established, .closeWait] →
      Move a e e.requestFin
  -- timers
  | fire (e : TcpEngine) (h : TimerHandle Callback) : h ∈ e.tm.sched.live →
      h.cb ∈ [.onPersist, .onDelack, .onKeepalive] ∨ (h.cb = .onRto ∧ e.buf.retx = []) →
      Move a e (e.fire h)
  | restartKeepalive (e : TcpEngine) (b : Bool) : e.tcb.state = .established →
      Move a e (e.restartKeepalive b)
  | dropPersistTimer (e : TcpEngine) : Move a e e.dropPersistTimer
  | armPersist (e : TcpEngine) : e.Stuck → Move a e e.armPersist
  | restartTimeWait (e : TcpEngine) (seg : TcpSegment) : a.Carries seg → seg.fin = true →
      e.tcb.state = .timeWait → Move a e e.restartTimeWait
  | retransmit (e : TcpEngine) (h : TimerHandle Callback) (o : Outgoing) (rest : List Outgoing) :
      h ∈ e.tm.sched.live → h.cb = .onRto → e.buf.retx = o :: rest → a = .expire h →
      Move a e ((e.fire h).countRto.retransmitHead o rest)
  -- what is emitted without being queued
  | sendAck (e : TcpEngine) : Move a e e.sendAck
  | scheduleAck (e : TcpEngine) (force : Bool) : e.tcb.state ∈ DataStates →
      Move a e (e.scheduleAck force)
  | emitRstReply (e : TcpEngine) (seg : TcpSegment) (seq ack : Int) (ackFlag : Bool) :
      a.Carries seg → seg.rst = false → e.Rejects seg →
      Move a e (e.emitRstReply seg seq ack ackFlag)
  | sendSynAck (e : TcpEngine) : e.tcb.state = .synReceived → Move a e e.sendSynAck
  | sendKeepaliveProbe (e : TcpEngine) : e.tcb.state = .established → e.buf.retx = [] →
      Move a e e.sendKeepaliveProbe
  | signalError (e : TcpEngine) (msg : String) : msg ≠ "retransmission timeout" →
      Move a e (e.signalError msg)
  -- the send path
  | sendChunk (e : TcpEngine) : e.tcb.state = .established ∨ e.tcb.state = .closeWait →
      e.buf.appBuf ≠ [] → e.tcb.sndWnd ≠ 0 → 0 < e.usableWindow → ¬ e.NagleHolds →
      0 < e.chunkLen ∨ e.env.hung = true → Move a e (e.sendChunk e.chunkLen)
  | sendFin (e : TcpEngine) : e.CanSend → e.FinDue → e.tcb.sndWnd ≠ 0 → 1 ≤ e.usableWindow →
      Move a e e.sendFin
  | probe (e : TcpEngine) (h : TimerHandle Callback) : a = .expire h → h ∈ e.tm.sched.live →
      h.cb = .onPersist → e.tcb.sndWnd = 0 → e.buf.appBuf ≠ [] →
      Move a e (e.fire h).sendProbe.rearmPersist
  | probeFin (e : TcpEngine) (h : TimerHandle Callback) : a = .expire h → h ∈ e.tm.sched.live →
      h.cb = .onPersist → e.tcb.sndWnd = 0 → e.FinDue → Move a e (e.fire h).sendFin.rearmPersist
  -- acknowledgements and windows
  | processAck (e : TcpEngine) (seg : TcpSegment) : a.Carries seg →
      e.tcb.state ∈ OpenStates → seg.ackFlag = true → e.AcksNew seg.ack →
      Move a e (e.processAck seg.ack)
  | setSendWindow (e : TcpEngine) (seg : TcpSegment) : a.Carries seg →
      e.tcb.state ∈ OpenStates → seg.ackFlag = true →
      Move a e (e.setSendWindow seg.window seg.seq seg.ack)
  -- opening by a segment
  | acceptSyn (e : TcpEngine) (seg : TcpSegment) : a.Carries seg → e.tcb.state = .listen →
      seg.syn = true → seg.ackFlag = false → seg.rst = false → Move a e (e.acceptSyn seg)
  | synEstablished (e : TcpEngine) (seg : TcpSegment) : a.Carries seg → e.TakesSyn seg →
      seqGt (e.takeSyn seg).tcb.sndUna (e.takeSyn seg).tcb.iss = true →
      Move a e ((e.takeSyn seg).setState .established)
  | synReceived (e : TcpEngine) (seg : TcpSegment) : a.Carries seg → e.TakesSyn seg →
      seqGt (e.takeSyn seg).tcb.sndUna (e.takeSyn seg).tcb.iss = false →
      Move a e (e.takeSyn seg).becomeSynReceived
  | storeSynData (e : TcpEngine) (seg : TcpSegment) : a.Carries seg → e.tcb.state = .synReceived →
      seg.syn = true → seg.payload ≠ [] → e.tcb.rcvNxt = add seg.seq 1 →
      Move a e (e.storeOoo (add seg.seq 1) seg.payload { seg.flags with fin := false })
  | deferSynFin (e : TcpEngine) (seg : TcpSegment) : a.Carries seg → e.tcb.state = .synReceived →
      seg.syn = true → seg.fin = true → e.tcb.rcvNxt = add seg.seq 1 →
      Move a e (e.deferFin (add (add seg.seq 1) seg.payload.length))
  -- state changes
  | completeOpen (e : TcpEngine) (seg : TcpSegment) : a.Carries seg → e.CompletesOpen seg →
      Move a e (e.openCompleted seg)
  | finAckedWait (e : TcpEngine) : e.tcb.state = .finWait1 → e.fin.finAcked = true →
      Move a e (e.setState .finWait2)
  | finAckedTimeWait (e : TcpEngine) : e.tcb.state = .closing → e.fin.finAcked = true →
      Move a e e.enterTimeWait
  | processFin (e : TcpEngine) : e.tcb.state ∈ OpenStates → e.FinNext a → Move a e e.processFin
  | listenAgain (e : TcpEngine) : e.tcb.state = .synReceived → e.fin.passive = true →
      (∃ seg, a.Carries seg ∧ seg.rst = true ∧ seg.seq = e.tcb.rcvNxt) → Move a e e.doReset
  -- closing
  | close (e : TcpEngine) : a.Closes → e.Blocked → e.tcb.state ≠ .closed → Move a e e.enterClosed
  | abort (e : TcpEngine) : a.Closes → e.Blocked →
      e.tcb.state ∈ [.synReceived, .established, .finWait1, .finWait2, .closeWait] →
      Move a e e.sendRst.enterClosed
  | giveUp (e : TcpEngine) (msg : String) : a.Closes → e.Blocked → e.tcb.state ≠ .closed →
      msg ≠ "retransmission timeout" → Move a e (e.giveUp msg)
  | giveUpRto (e : TcpEngine) (h : TimerHandle Callback) (counted : Bool) (msg : String) :
      a.Closes → h ∈ e.tm.sched.live → h.cb = .onRto → e.buf.retx ≠ [] → e.Blocked →
      a = .expire h → Move a e ((if counted then (e.fire h).countRto else e.fire h).giveUp msg)
  | timeWaitExpires (e : TcpEngine) (h : TimerHandle Callback) : a.Closes →
      h ∈ e.tm.sched.live → h.cb = .onTimeWait → e.Blocked → Move a e (e.fire h).enterClosed
  -- receiving
  | receive (e e' : TcpEngine) : e.Receives a e' → Move a e e'
  | storeOoo (e : TcpEngine) (seg : TcpSegment) (n : Nat) : a.Carries seg →
      e.tcb.state ∈ DataStates → seg.syn = false → seqLt seg.seq e.tcb.rcvNxt = false →
      seg.seq ≠ e.tcb.rcvNxt → 0 < n →
      (n : Int) ≤ s32 (sub (add e.tcb.rcvNxt e.rcvWnd) seg.seq) →
      Move a e (e.storeOoo seg.seq (seg.payload.take n) seg.flags)
  | deferFin (e : TcpEngine) (seg : TcpSegment) : a.Carries seg → e.tcb.state ∈ OpenStates →
      seg.fin = true → seg.syn = false →
      seqGt (add seg.seq seg.payload.length) e.tcb.rcvNxt = true →
      Move a e (e.deferFin (add seg.seq seg.payload.length))

abbrev Path (a : Action) : TcpEngine → TcpEngine → Prop := Relation.ReflTransGen (Move a)

end TcpEngine

end HdlPlayground.Tcp

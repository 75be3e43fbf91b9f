import HdlPlayground.Tcp.Dispatched
import HdlPlayground.Tcp.Teardown

/-!
# Engines that begin in the middle

`seed` drops an engine into a state without a handshake. Two engines seeded as established, each
with the numbers of the other, are as good as two that have shaken hands: what holds of two engines
from their opening on holds of these.
-/
namespace HdlPlayground.Tcp

/-- The state an engine is dropped into; a field that is `none` is derived from the others. The
round-trip estimates are given together. -/
structure TcbSeed where
  state : ConnState := .closed
  iss : Option Int := none
  irs : Option Int := none
  sndUna : Option Int := none
  sndNxt : Option Int := none
  sndWnd : Nat := 65535
  rcvNxt : Option Int := none
  rcvWnd : Nat := 65535
  sndMss : Nat := 1460
  estimates : Option (ℚ × ℚ) := none
  rto : Option ℚ := none
deriving DecidableEq

/-- A consistent ESTABLISHED seed: the ISNs are one before the numbers that come next. -/
def seedEstablished (sndNxt rcvNxt : Int) (sndWnd : Nat := 65535) (rcvWnd : Nat := 65535)
    (sndMss : Nat := 1460) : TcbSeed where
  state := .established
  iss := some ((sndNxt - 1) % MOD)
  irs := some ((rcvNxt - 1) % MOD)
  sndUna := some sndNxt
  sndNxt := some sndNxt
  sndWnd := sndWnd
  rcvNxt := some rcvNxt
  rcvWnd := rcvWnd
  sndMss := sndMss

namespace TcbSeed

def issOf (s : TcbSeed) : Int := s.iss.getD 0

def sndUnaOf (s : TcbSeed) : Int := s.sndUna.getD (s.sndNxt.getD s.issOf)

def rcvNxtOf (s : TcbSeed) : Int := s.rcvNxt.getD ((s.irs.map fun irs => add irs 1).getD 0)

end TcbSeed

namespace TcpEngine

variable {e : TcpEngine} {a : Action} {n m : Int} {wnd rcv mss : Nat}

/-- The fields `seed` writes. -/
def seedFields (e : TcpEngine) (s : TcbSeed) : TcpEngine :=
  { e with
    tcb :=
      { e.tcb with
        state := s.state
        iss := s.issOf
        sndUna := s.sndUnaOf
        sndNxt := s.sndNxt.getD s.sndUnaOf
        sndWnd := s.sndWnd
        irs := s.irs.getD 0
        rcvNxt := s.rcvNxtOf
        rcvWnd := s.rcvWnd
        sndMss := s.sndMss
        sndWl1 := s.rcvNxtOf
        sndWl2 := s.sndUnaOf }
    conf := { e.conf with rcvWndMax := s.rcvWnd, cfgMss := s.sndMss }
    rt :=
      { e.rt with rtt :=
        { estimates := s.estimates.or e.rt.rtt.estimates
          rto := s.rto.getD e.rt.rtt.rto } } }

def forgetRight (e : TcpEngine) : TcpEngine := { e with adv := { e.adv with advRight := none } }

/-- Drop the engine into a state. Numbers that are the wrong way round are only warned of. -/
def seed (e : TcpEngine) (s : TcbSeed) : TcpEngine :=
  let e := e.seedFields s
  let e :=
    if seqGt e.tcb.sndUna e.tcb.sndNxt then e.signalError "WARN: seed: SND.UNA > SND.NXT" else e
  let e := e.forgetRight
  if e.tcb.state = .established then e.restartKeepalive true else e

/-- An engine dropped into ESTABLISHED. -/
abbrev seeded (args : EngineArgs) (sched : ManualScheduler Callback) (rand : Nat)
    (s : TcbSeed) : TcpEngine := (init args sched rand).seed s

/-- The numbers of `seedEstablished` are the right way round. -/
theorem seed_established (e : TcpEngine) (n m : Int) (wnd rcv mss : Nat) :
    e.seed (seedEstablished n m wnd rcv mss) =
      (e.seedFields (seedEstablished n m wnd rcv mss)).forgetRight.restartKeepalive true := by
  have hgt : seqGt (e.seedFields (seedEstablished n m wnd rcv mss)).tcb.sndUna
      (e.seedFields (seedEstablished n m wnd rcv mss)).tcb.sndNxt = false := seqGt_self n
  have hst : (e.seedFields (seedEstablished n m wnd rcv mss)).forgetRight.tcb.state =
      .established := rfl
  rw [seed]
  simp only [hgt, Bool.false_eq_true, if_false]
  rw [if_pos hst]

section Seeded

variable {args : EngineArgs} {sched : ManualScheduler Callback} {rand : Nat}

/-- What is known of an engine that has just been seeded. -/
structure Sown (n m : Int) (wnd mss : Nat) (e : TcpEngine) : Prop where
  state : e.tcb.state = .established
  iss : e.tcb.iss = (n - 1) % MOD
  una : e.tcb.sndUna = n
  nxt : e.tcb.sndNxt = n
  wnd : e.tcb.sndWnd = wnd
  irs : e.tcb.irs = (m - 1) % MOD
  rcvNxt : e.tcb.rcvNxt = m
  mss : e.tcb.sndMss = mss ∧ e.conf.cfgMss = mss
  buf : e.buf = {}
  fin : e.fin = {}
  log : e.env.log = []
  timers : e.TimerInv
  idle : e.tm.rtTimer = none

theorem sown (hs : sched.heap = []) :
    Sown n m wnd mss (seeded args sched rand (seedEstablished n m wnd rcv mss)) := by
  unfold seeded
  rw [seed_established]
  have hinit := timerInv_init args sched rand hs
  constructor
  case timers =>
    have hr := restartKeepalive_retimes
      ((init args sched rand).seedFields (seedEstablished n m wnd rcv mss)).forgetRight true
    have hbase : ((init args sched rand).seedFields
        (seedEstablished n m wnd rcv mss)).forgetRight.TimerInv :=
      ⟨hinit.timely, fun htw => absurd rfl htw⟩
    exact hbase.of_retimes hr (by decide) (by simp)
  case idle =>
    rw [restartKeepalive_rtTimer]
    rfl
  all_goals simp only [restartKeepalive_tcb, restartKeepalive_conf, restartKeepalive_buf,
    restartKeepalive_fin, restartKeepalive_env]
  case mss => exact ⟨rfl, rfl⟩
  all_goals rfl

namespace Sown

theorem ready (h : Sown n m wnd mss e) : e.Ready := by
  have hctl : e.ctl = (.established, {}) := by rw [ctl, h.state, h.fin]
  refine ⟨?_, fun _ hw => ?_⟩
  · rw [hctl]
    constructor <;> simp
  · exfalso
    rcases hw with hb | hf
    · rw [h.buf] at hb
      exact hb rfl
    · have hp : e.fin.finPending = true := hf.1
      rw [h.fin] at hp
      cases hp

theorem kept (h : Sown n m wnd mss e) (hm : 1 ≤ mss) : e.Kept :=
  ⟨h.ready, h.timers, by rw [h.mss.1]; exact hm, by rw [h.mss.1, h.mss.2]⟩

/-- Nothing is in flight past the SYN that was never sent. -/
theorem sendInv (h : Sown n m wnd mss e) (h0 : 0 ≤ n) (h1 : n < MOD) : SendInv [] 1 e := by
  have hfin : e.fin.finSent = false := by rw [h.fin]
  constructor
  · rw [h.iss]
    unfold MOD
    omega
  · rw [h.una, h.iss, seqAt]
    unfold MOD at h1 ⊢
    omega
  · rw [h.nxt, h.iss, h.buf, seqAt]
    unfold MOD at h1 ⊢
    simp
    omega
  · rw [h.buf]
    exact True.intro
  · rw [h.buf, hfin]
    rfl
  · rw [hfin]
    decide
  · intro hf
    rw [hfin] at hf
    cases hf
  · rw [h.state]
    simp

theorem linked (h : Sown n m wnd mss e) (h0 : 0 ≤ n) (h1 : n < MOD) : Linked [] e :=
  ⟨by rw [Outside, h.state]; decide, 1, h.sendInv h0 h1⟩

theorem course (h : Sown n m wnd mss e) (h0 : 0 ≤ n) (h1 : n < MOD) (hm : 1 ≤ mss)
    (hm' : mss ≤ 65535) (hw : wnd < 65536) : Course True e where
  kept := h.kept hm
  cap := by rw [h.mss.2]; exact hm'
  paced := by
    constructor
    · intro hrt
      exact absurd h.idle hrt
    · intro hq
      rw [h.buf] at hq
      exact absurd rfl hq
    · intro hst
      rw [h.state] at hst
      cases hst
    · rw [h.wnd]
      exact hw
  last := finLast_of_unsent (by rw [h.fin])
  settled := by
    intro hf
    rw [h.fin] at hf
    cases hf
  phase := ⟨[], Or.inr ⟨trivial, Or.inl (h.linked h0 h1)⟩⟩

end Sown

end Seeded

end TcpEngine

namespace Session

open TcpEngine (Sown)

variable {args : EngineArgs} {sched : ManualScheduler Callback} {rand : Nat} {n m : Int}
  {wnd wnd' mss mss' : Nat} {e f : TcpEngine}

/-- The session of an engine that is seeded. -/
def seeded (e : TcpEngine) : Session where
  eng := e
  used := true

theorem sown_valid (h : Sown n m wnd mss e) (h0 : 0 ≤ n) (h1 : n < MOD) (hm : 1 ≤ mss) :
    (seeded e).Valid := by
  have hlog (ev : Event) (hev : ev ∈ e.env.log) : False := by
    rw [h.log] at hev
    cases hev
  constructor
  · constructor
    · exact h.kept hm
    · intro hu
      cases hu
    · intro _ _
      exact h.linked h0 h1
    · intro seg hseg
      exact (hlog _ hseg).elim
  · intro ev hev
    exact (hlog _ hev).elim
  · show (0 : Nat) < 2147483647
    decide

theorem sown_delivered (h : Sown n m wnd mss e) : e.intake.delivered = [] := by
  show e.delivered = []
  rw [TcpEngine.delivered, h.log]
  rfl

/-- An engine stands at the beginning of the stream of a peer seeded with its numbers. -/
theorem sown_aligned (h : Sown n m wnd mss e) (h0 : 0 ≤ m) (h1 : m < MOD) {done : Prop} :
    (seeded e).Aligned ((m - 1) % MOD) [] done := by
  have hdel := sown_delivered h
  have hf : e.intake.Follows ((m - 1) % MOD) [] done := by
    constructor
    · show e.tcb.state ∈ _
      rw [h.state]
      decide
    · refine ⟨hdel ▸ List.prefix_rfl, fun hp => ?_⟩
      have hp : e.fin.peerFin = true := hp
      rw [h.fin] at hp
      cases hp
    · show e.tcb.rcvNxt = seqAt _ (e.intake.delivered.length + 1 + e.fin.peerFin.toNat)
      rw [h.rcvNxt, hdel, h.fin]
      simp only [seqAt, MOD, List.length_nil, Bool.toNat_false] at h1 ⊢
      omega
    · intro o ho
      have ho : o ∈ e.buf.ooo := ho
      rw [h.buf] at ho
      cases ho
    · intro k hk
      have hk : e.fin.pendingFin = some k := hk
      rw [h.fin] at hk
      cases hk
    · show e.fin.peerFin = true ↔ e.tcb.state ∈ _
      rw [h.fin, h.state]
      decide
    · intro _
      exact hdel
  exact ⟨Or.inr (Or.inl hf), fun _ => Or.inr hf⟩

theorem sown_tracks (h : Sown n m wnd mss e) (h' : Sown m n wnd' mss' f) (h0 : 0 ≤ n)
    (h1 : n < MOD) : Tracks (seeded e) (seeded f) := by
  have ha : (seeded f).Aligned ((n - 1) % MOD) [] (seeded e).Finished := sown_aligned h' h0 h1
  rw [← h.iss] at ha
  exact ha

theorem sown_pursues (h : Sown n m wnd mss e) (h' : Sown m n wnd' mss' f) (h0 : 0 ≤ n)
    (h1 : n < MOD) : Pursues (seeded e) (seeded f) := by
  have hd : (seeded e).dispatched = [] := List.take_nil
  show Pursuit _ (seeded e).dispatched (seeded e).Finished (seeded f)
  rw [hd]
  constructor
  · exact sown_tracks h h' h0 h1
  · intro _
    show f.tcb.irs = seqAt e.tcb.iss 0
    rw [h'.irs, h.iss]
    simp only [seqAt, MOD]
    omega

theorem sown_heeds (h' : Sown m n wnd' mss' f) : Heeds (seeded e) (seeded f) := by
  show Voiced _ (seeded f)
  constructor
  · intro ev hev
    have hev : ev ∈ f.env.log := hev
    rw [h'.log] at hev
    cases hev
  · intro hs
    exfalso
    rcases hs with hu | hs
    · cases hu
    · have hs : f.tcb.state = .synSent := hs
      rw [h'.state] at hs
      cases hs

theorem sown_answered (h : Sown n m wnd mss e) : Answered (seeded e) (seeded f) := by
  intro k _ hk
  have hb : k ≤ (sent [] e.fin.finSent).length := hk.bound
  rw [h.fin] at hb
  have hb : k ≤ 1 := hb
  exact hb.trans (Nat.le_add_right _ _ |>.trans' (Nat.le_add_left _ _))

theorem sown_forwards (h : Sown n m wnd mss e) : (seeded e).Forwards := by
  intro seg hseg
  have hseg : .tx seg ∈ e.env.log := hseg
  rw [h.log] at hseg
  cases hseg

end Session

namespace Network

open TcpEngine (Sown)

variable {net : Network}

/-- Two engines seeded as established, each with the numbers of the other. -/
structure Mirror where
  a : EngineArgs
  b : EngineArgs
  schedA : ManualScheduler Callback := {}
  schedB : ManualScheduler Callback := {}
  randA : Nat := 0
  randB : Nat := 0
  nxtA : Int
  nxtB : Int
  wndA : Nat := 65535
  wndB : Nat := 65535
  rcvA : Nat := 65535
  rcvB : Nat := 65535
  mssA : Nat := 1460
  mssB : Nat := 1460

/-- What `seed_established` asks for: sequence numbers, windows of 16 bits and an MSS. -/
structure Mirror.Fits (s : Mirror) : Prop where
  heapA : s.schedA.heap = []
  heapB : s.schedB.heap = []
  nxtA : 0 ≤ s.nxtA ∧ s.nxtA < MOD
  nxtB : 0 ≤ s.nxtB ∧ s.nxtB < MOD
  wndA : s.wndA < 65536
  wndB : s.wndB < 65536
  mssA : 1 ≤ s.mssA ∧ s.mssA ≤ 65535
  mssB : 1 ≤ s.mssB ∧ s.mssB ≤ 65535

/-- On fresh clocks. -/
def Mirror.together (s : Mirror) : Mirror := { s with schedA := {}, schedB := {} }

theorem Mirror.Fits.together {s : Mirror} (h : s.Fits) : s.together.Fits :=
  ⟨rfl, rfl, h.nxtA, h.nxtB, h.wndA, h.wndB, h.mssA, h.mssB⟩

def seeded (s : Mirror) : Network where
  a := .seeded (TcpEngine.seeded s.a s.schedA s.randA
    (seedEstablished s.nxtA s.nxtB s.wndA s.rcvA s.mssA))
  b := .seeded (TcpEngine.seeded s.b s.schedB s.randB
    (seedEstablished s.nxtB s.nxtA s.wndB s.rcvB s.mssB))

/-- All that two engines keep from their opening on. -/
structure Paired (n : Network) : Prop where
  inStep : n.InStep
  alive : n.Alive

/-- What two engines can count on. -/
structure Concord (n : Network) : Prop where
  faithful : n.Faithful
  safekept : n.Safekept
  bracketed : n.Bracketed
  neverStuck : n.NeverStuck
  parted : n.Parted

theorem Paired.concord (h : net.Paired) : net.Concord :=
  ⟨h.alive.trusty.good.faithful, h.alive.trusty.safekept, h.inStep.bracketed, h.alive.neverStuck,
    h.alive.parted⟩

theorem paired_preserves : networkMachine.Preserves Reliable Paired :=
  fun n act n' h hrel hs => ⟨inStep_preserves n act n' h.inStep hrel hs,
    alive_preserves n act n' h.alive hrel hs⟩

theorem Paired.next {side : Side} {a : Action} {s : Session} (h : net.Paired)
    (hlive : ¬ (net.session side).Over) (hb : net.Bounded (side, a))
    (hc : Honest (net.peer side) a) (hs : (net.session side).next a = some s) :
    (net.put s side).Paired := ⟨h.inStep.next hlive hb hc hs, h.alive.next hlive hb hc hs⟩

theorem Paired.tick {side : Side} {dt : ℚ} {s : Session} (h : net.Paired)
    (hs : (net.session side).next (.tick dt) = some s) : (net.put s side).Paired :=
  ⟨h.inStep.tick hs, h.alive.tick hs⟩

theorem sown_a {s : Mirror} (h : s.Fits) : Sown s.nxtA s.nxtB s.wndA s.mssA (seeded s).a.eng :=
  TcpEngine.sown h.heapA

theorem sown_b {s : Mirror} (h : s.Fits) : Sown s.nxtB s.nxtA s.wndB s.mssB (seeded s).b.eng :=
  TcpEngine.sown h.heapB

theorem paired_seeded {s : Mirror} (h : s.Fits) : (seeded s).Paired := by
  have ha := sown_a h
  have hb := sown_b h
  have hgood : (seeded s).Good :=
    ⟨Session.sown_valid ha h.nxtA.1 h.nxtA.2 h.mssA.1,
      Session.sown_valid hb h.nxtB.1 h.nxtB.2 h.mssB.1,
      Session.sown_tracks ha hb h.nxtA.1 h.nxtA.2, Session.sown_tracks hb ha h.nxtB.1 h.nxtB.2⟩
  have htrusty : (seeded s).Trusty :=
    ⟨hgood, Session.sown_heeds hb, Session.sown_heeds ha, Session.sown_answered ha,
      Session.sown_answered hb⟩
  constructor
  · exact ⟨htrusty, Session.sown_forwards ha, Session.sown_forwards hb,
      Session.sown_pursues ha hb h.nxtA.1 h.nxtA.2, Session.sown_pursues hb ha h.nxtB.1 h.nxtB.2⟩
  · exact ⟨htrusty, fun _ => ha.course h.nxtA.1 h.nxtA.2 h.mssA.1 h.mssA.2 h.wndA,
      fun _ => hb.course h.nxtB.1 h.nxtB.2 h.mssB.1 h.mssB.2 h.wndB⟩

end Network

/-- Two engines seeded as established, each with the numbers of the other, keep on any network all
that two engines keep that have shaken hands. -/
theorem seeded_concord (s : Network.Mirror) (hs : s.Fits) (ms : List (Side × Action))
    (hC : networkMachine.AllSteps Network.Reliable (.seeded s) ms) :
    networkMachine.Throughout Network.Concord (.seeded s) ms :=
  (Network.paired_preserves.throughout (Network.paired_seeded hs) hC).mono fun _ h => h.concord

/-- Two engines that have never shaken hands. -/
def mirrored : Network.Mirror where
  a := clientArgs
  b := serverArgs
  nxtA := 2000
  nxtB := 8000

theorem mirrored_fits : mirrored.Fits where
  heapA := rfl
  heapB := rfl
  nxtA := by decide
  nxtB := by decide
  wndA := by decide
  wndB := by decide
  mssA := by decide
  mssB := by decide

/-- The FIN of the client comes before its text, and once more after it. -/
def mirroredRun : List (Side × Action) :=
  let finish : List UInt8 :=
    [3, 232, 0, 80, 0, 0, 7, 211, 0, 0, 31, 64, 80, 17, 255, 255, 0, 0, 0, 0]
  let text : List UInt8 :=
    [3, 232, 0, 80, 0, 0, 7, 208, 0, 0, 31, 64, 80, 24, 255, 255, 0, 0, 0, 0, 7, 8, 9]
  [(.a, .send [7, 8, 9] true false none), (.a, .close), (.b, .segment finish),
    (.b, .segment text), (.b, .segment finish)]

theorem mirrored_run_concord : networkMachine.Throughout Network.Concord (.seeded mirrored)
      mirroredRun ∧
    ∃ n, networkMachine.run (.seeded mirrored) mirroredRun = some n ∧
      n.b.eng.delivered = [7, 8, 9] ∧ n.b.eng.tcb.state = .closeWait := by
  constructor
  · exact seeded_concord mirrored mirrored_fits mirroredRun (by decide +kernel)
  · have h : ((networkMachine.run (Network.seeded mirrored) mirroredRun).map fun n =>
        (n.b.eng.delivered, n.b.eng.tcb.state)) = some ([7, 8, 9], .closeWait) := by
      decide +kernel
    obtain ⟨n, hn, hv⟩ := Option.map_eq_some_iff.mp h
    simp only [Prod.mk.injEq] at hv
    exact ⟨n, hn, hv⟩

namespace Bench

/-- Two seeded engines on the wire; their clocks start together. -/
abbrev seeded (s : Network.Mirror) (delay : ℚ) (ab ba : Option (TcpSegment → Nat → Bool)) : Bench :=
  joined (.seeded s.together) delay ab ba

end Bench

/-- The same on the wire, whatever the filters drop. -/
theorem wire_seeded_concord (s : Network.Mirror) (hs : s.Fits) (delay : ℚ) (hd : 0 < delay)
    (ab ba : Option (TcpSegment → Nat → Bool)) (acts : List BenchAction)
    (hC : benchMachine.AllSteps Bench.Current (.seeded s delay ab ba) acts) :
    benchMachine.Throughout (fun b => b.net.Concord) (.seeded s delay ab ba) acts := by
  have hpres : benchMachine.Preserves Bench.Current fun b => b.Lined ∧ b.net.Paired :=
    fun _ _ _ h hc hs => ⟨Bench.lined_step h.1 hs,
      Bench.net_step (P := Network.Paired) (fun _ hp => hp.alive.trusty.good)
        (fun _ _ _ _ hp hlive hb hh hn => hp.next hlive hb hh hn)
        (fun _ _ _ _ hp hn => hp.tick hn) h.1 h.2 hc hs⟩
  have hpair : (Bench.seeded s delay ab ba).net.Paired :=
    Network.paired_seeded hs.together
  have hlined : (Bench.seeded s delay ab ba).Lined := by
    apply Bench.lined_joined (le_of_lt hd)
    · intro side
      cases side with
      | a => exact hpair.alive.trusty.good.a.sound.kept.ready
      | b => exact hpair.alive.trusty.good.b.sound.kept.ready
    · intro side
      cases side with
      | a => exact (Network.sown_a hs.together).log
      | b => exact (Network.sown_b hs.together).log
  exact (hpres.throughout ⟨hlined, hpair⟩ hC).mono fun _ h => h.2.concord

/-- The first segment from the client is lost. -/
def dropFirst : Option (TcpSegment → Nat → Bool) := some fun _ i => i != 0

/-- The text of the client is dropped once, and its FIN comes first. -/
def mirroredWireRun : List BenchAction :=
  [.act .a (.send [7, 8] true false none), .act .a .close, .tick (1 / 1000), .deliver,
    .tick 1, .act .a (.expire ⟨0, 1, .onRto, false⟩), .tick (1 / 1000), .deliver]

theorem mirrored_wire_concord : benchMachine.Throughout (fun b => b.net.Concord)
      (.seeded mirrored (1 / 1000) dropFirst none) mirroredWireRun ∧
    ∃ b, benchMachine.run (.seeded mirrored (1 / 1000) dropFirst none) mirroredWireRun = some b ∧
      b.net.b.eng.delivered = [7, 8] ∧ b.net.b.eng.tcb.state = .closeWait := by
  constructor
  · exact wire_seeded_concord mirrored mirrored_fits (1 / 1000) (by norm_num) dropFirst none
      mirroredWireRun (by decide +kernel)
  · have h : ((benchMachine.run (Bench.seeded mirrored (1 / 1000) dropFirst none)
        mirroredWireRun).map fun b => (b.net.b.eng.delivered, b.net.b.eng.tcb.state)) =
          some ([7, 8], .closeWait) := by
      decide +kernel
    obtain ⟨b, hb, hv⟩ := Option.map_eq_some_iff.mp h
    simp only [Prod.mk.injEq] at hv
    exact ⟨b, hb, hv⟩

end HdlPlayground.Tcp

import HdlPlayground.Tcp.Custody
import HdlPlayground.Tcp.Stalls

/-!
# Nothing undelivered waits without a timer

Two engines on a network that makes nothing up. Whenever one of them has not got across all that has
been written to it, or the FIN it has been asked to send, its retransmission timer or its persist
timer is running. So the two are never stuck for good: there is always something left to fire.
-/
namespace HdlPlayground.Tcp

/-- That the engine has been opened rules nothing out. -/
theorem TcpEngine.Course.opened {q : Prop} {e : TcpEngine} (h : Course q e) :
    Course True e := by
  obtain ⟨w, hphase⟩ := h.phase
  refine ⟨h.kept, h.cap, h.paced, h.last, h.settled, w, ?_⟩
  exact hphase.imp (fun hr => ⟨hr.1, Or.inr trivial⟩) fun hl => ⟨trivial, hl.2⟩

namespace Session

open TcpEngine (Course SendInv)

variable {s s' src dst : Session} {a : Action}

/-- A session whose connection is not over is on the course of an engine opened once. -/
def Paces (s : Session) : Prop :=
  ¬ (s.used = true ∧ s.eng.Outside) → Course True s.eng

theorem Sound.phase (h : s.Sound) (hlive : ¬ (s.used = true ∧ s.eng.Outside)) :
    ∃ w, TcpEngine.Resting w s.eng ∧ (s.eng.tcb.state = .closed ∨ True) ∨
      True ∧ (TcpEngine.Linked w s.eng ∨ TcpEngine.Dead s.eng) := by
  cases hu : s.used with
  | false => exact ⟨[], Or.inl ⟨(h.fresh hu).2.1, Or.inr trivial⟩⟩
  | true =>
    have ho : ¬ s.eng.Outside := fun ho => hlive ⟨hu, ho⟩
    exact ⟨s.written, Or.inr ⟨trivial, Or.inl (h.linked hu ho)⟩⟩

theorem Paces.step (h : s.Paces) (hs' : s'.Valid) (hstep : connectionMachine.step s a = some s') :
    s'.Paces := by
  obtain ⟨hlive, e', he, rfl⟩ := step_cases hstep
  intro hlive'
  have hc := h hlive
  have hready := hc.kept.ready
  obtain ⟨hpaced, hcap⟩ := hc.paced_step he
  exact ⟨hs'.sound.kept, hcap, hpaced, hready.finLast hc.last he,
    hready.finSettled hc.last hc.settled he, hs'.sound.phase hlive'⟩

/-- What `src` has not got across has a timer. -/
def Stirred (src dst : Session) : Prop :=
  (dst.eng.delivered ≠ src.written ∨ src.eng.fin.finPending = true ∧ dst.eng.fin.peerFin = false) →
    ∃ g ∈ src.eng.tm.sched.live, g.cb = .onRto ∨ g.cb = .onPersist

theorem stirred (h : src.Valid) (hp : src.Paces) (ht : Tracks src dst) (ha : Answered src dst)
    (ho : ¬ src.eng.Outside) : Stirred src dst := by
  intro hrest
  have hsmall := h.small
  have hwatch := (hp fun hx => ho hx.2).watched
  have hcust := custody h ht ha ho
  by_cases hq : src.eng.buf.retx = []
  · obtain ⟨k, hk⟩ := h.sound.sending ho
    have hcoh := h.sound.kept.ready.coherent
    have hunsent : src.eng.fin.finSent = false := by
      by_contra hf
      rw [Bool.not_eq_false] at hf
      obtain ⟨hpf, hall⟩ := hcust.acked hq hf
      rcases hrest with hne | ⟨-, hno⟩
      · exact hne hall
      · rw [hpf] at hno
        cases hno
    have hwait : src.eng.Waiting := by
      by_cases hb : src.eng.buf.appBuf = []
      · right
        have hheld := hcust.held
        have hnil : src.held = [] := by
          unfold held
          rw [hq, hb]
          rfl
        rw [hnil, List.suffix_nil, List.drop_eq_nil_iff] at hheld
        have hall : dst.eng.delivered = src.written :=
          (Network.delivers h ht).text.eq_of_length_le hheld
        rcases hrest with hne | ⟨hpend, -⟩
        · exact absurd hall hne
        · exact ⟨hpend, hunsent, hb⟩
      · exact Or.inl hb
    have hstate : src.eng.tcb.state ∈ [ConnState.established, .closeWait] := by
      have hfin : src.eng.tcb.state ∉ TcpEngine.FinStates := fun hs => by
        have hsent : src.eng.fin.finSent = true := hcoh.sent.mpr hs
        rw [hunsent] at hsent
        cases hsent
      have hopen : src.eng.tcb.state ∉ [ConnState.synSent, .synReceived] := fun hs => by
        obtain rfl : k = 0 := hk.opening hs
        have hpos := hk.unacked_pos
        rw [hq] at hpos
        exact absurd hpos (Nat.lt_irrefl 0)
      unfold TcpEngine.Outside at ho
      revert ho hfin hopen
      cases src.eng.tcb.state <;> simp
    rcases hwatch.stuck hstate hwait with hne | ⟨g, hg, hcb⟩
    · exact absurd hq hne
    · exact ⟨g, hg, Or.inr hcb⟩
  · have hfew : (unacked src.eng.buf.retx).length < 4294967296 := by
      obtain ⟨k, hk⟩ := h.sound.sending ho
      have hlen := hk.length_eq
      have hfin := src.eng.fin.finSent.toNat_le
      omega
    obtain ⟨g, hg, hcb⟩ := (hwatch.queued fun _ => hfew).mp hq
    exact ⟨g, hg, Or.inl hcb⟩

end Session

namespace Network

open Session (Paces Stirred)

variable {n : Network} {side : Side} {a : Action} {s : Session}

/-- Two engines that hear only each other, each on the course of an engine opened once. -/
structure Alive (n : Network) : Prop where
  trusty : n.Trusty
  a : n.a.Paces
  b : n.b.Paces

/-- While its connection is under way, either engine has a timer for what it has not got across. -/
def NeverStuck (n : Network) : Prop :=
  (¬ n.a.eng.Outside → Stirred n.a n.b) ∧ (¬ n.b.eng.Outside → Stirred n.b n.a)

theorem Alive.neverStuck (h : n.Alive) : n.NeverStuck :=
  ⟨Session.stirred h.trusty.good.a h.a h.trusty.good.ab h.trusty.abAnswered,
    Session.stirred h.trusty.good.b h.b h.trusty.good.ba h.trusty.baAnswered⟩

theorem alive_preserves : networkMachine.Preserves Reliable Alive := by
  rintro n ⟨side, act⟩ n' h hrel hs
  have htrusty : n'.Trusty := trusty_preserves n (side, act) n' h.trusty hrel hs
  simp only [networkMachine] at hs
  split_ifs at hs
  obtain ⟨s, hstep, rfl⟩ := Option.map_eq_some_iff.mp hs
  cases side with
  | a => exact ⟨htrusty, h.a.step htrusty.good.a hstep, h.b⟩
  | b => exact ⟨htrusty, h.a, h.b.step htrusty.good.b hstep⟩

theorem alive_start (a b : EngineArgs) (schedA schedB : ManualScheduler Callback)
    (randA randB : Nat) (hsa : schedA.heap = []) (hsb : schedB.heap = []) (hma : 1 ≤ a.sndMss)
    (hmb : 1 ≤ b.sndMss) (hma' : a.sndMss ≤ 65535) (hmb' : b.sndMss ≤ 65535) :
    (start a b schedA schedB randA randB).Alive where
  trusty := trusty_start a b schedA schedB randA randB hsa hsb hma hmb
  a _ := (TcpEngine.course_init a schedA randA hsa hma hma').opened
  b _ := (TcpEngine.course_init b schedB randB hsb hmb hmb').opened

theorem Alive.next (h : n.Alive) (hlive : ¬ (n.session side).Over) (hb : n.Bounded (side, a))
    (hc : Honest (n.peer side) a) (hs : (n.session side).next a = some s) :
    (n.put s side).Alive := by
  apply alive_preserves n (side, a) _ h ⟨hb, hc⟩
  simp only [networkMachine]
  rw [if_pos hc.carried, Session.step_of_next hlive, hs]
  rfl

theorem Alive.tick (h : n.Alive) {dt : ℚ} (hs : (n.session side).next (.tick dt) = some s) :
    (n.put s side).Alive := by
  have htrusty := h.trusty.tick hs
  by_cases ho : (n.session side).Over
  · have hover : s.Paces := by
      obtain rfl := Session.over_tick ho hs
      exact fun hlive => absurd ⟨ho.1, ho.2⟩ hlive
    cases side with
    | a => exact ⟨htrusty, hover, h.b⟩
    | b => exact ⟨htrusty, h.a, hover⟩
  · have hc : Honest (n.peer side) (.tick dt) := True.intro
    refine h.next ho ⟨fun hl => hl.2.1 rfl, ?_⟩ hc hs
    cases side with
    | a => exact h.trusty.good.a.small
    | b => exact h.trusty.good.b.small

end Network

/-- However the network loses, duplicates, delays and reorders what it is given: as long as
something is undelivered, the engine it has been written to has a timer running for it. -/
theorem undelivered_timed (a b : EngineArgs) (schedA schedB : ManualScheduler Callback)
    (randA randB : Nat) (hsa : schedA.heap = []) (hsb : schedB.heap = []) (hma : 1 ≤ a.sndMss)
    (hmb : 1 ≤ b.sndMss) (hma' : a.sndMss ≤ 65535) (hmb' : b.sndMss ≤ 65535)
    (ms : List (Side × Action))
    (hC : networkMachine.AllSteps Network.Reliable (.start a b schedA schedB randA randB) ms) :
    networkMachine.Throughout Network.NeverStuck (.start a b schedA schedB randA randB) ms :=
  (Network.alive_preserves.throughout
    (Network.alive_start a b schedA schedB randA randB hsa hsb hma hmb hma' hmb') hC).mono
      fun _ h => h.neverStuck

/-- With three bytes and the FIN on the way the client has a timer. -/
theorem shuffled_run_timed : networkMachine.Throughout Network.NeverStuck
      (.start clientArgs serverArgs {} {} 0 0) shuffledRun ∧
    ∃ n, networkMachine.run (.start clientArgs serverArgs {} {} 0 0) (shuffledRun.take 9) = some n ∧
      n.b.eng.delivered ≠ n.a.written ∧ n.a.eng.tm.sched.live.map TimerHandle.cb = [.onRto] := by
  constructor
  · exact undelivered_timed clientArgs serverArgs {} {} 0 0 rfl rfl (by decide) (by decide)
      (by decide) (by decide) shuffledRun (by decide +kernel)
  · have h : ((networkMachine.run (Network.start clientArgs serverArgs {} {} 0 0)
        (shuffledRun.take 9)).map fun n => (decide (n.b.eng.delivered ≠ n.a.written),
          n.a.eng.tm.sched.live.map TimerHandle.cb)) = some (true, [.onRto]) := by
      decide +kernel
    obtain ⟨n, hn, hv⟩ := Option.map_eq_some_iff.mp h
    simp only [Prod.mk.injEq, decide_eq_true_eq] at hv
    exact ⟨n, hn, hv⟩

/-- On the wire two engines hear only each other, too. -/
theorem Bench.alive_throughout (a b : EngineArgs) (delay : ℚ) (hd : 0 < delay)
    (ab ba : Option (TcpSegment → Nat → Bool)) (hma : 1 ≤ a.sndMss) (hmb : 1 ≤ b.sndMss)
    (hma' : a.sndMss ≤ 65535) (hmb' : b.sndMss ≤ 65535) (acts : List BenchAction)
    (hC : benchMachine.AllSteps Bench.Current (.start a b delay ab ba) acts) :
    benchMachine.Throughout (fun s => s.net.Alive) (.start a b delay ab ba) acts := by
  have hpres : benchMachine.Preserves Bench.Current fun s => s.Lined ∧ s.net.Alive :=
    fun _ _ _ h hc hs => ⟨Bench.lined_step h.1 hs,
      Bench.net_step (P := Network.Alive) (fun _ hp => hp.trusty.good)
        (fun _ _ _ _ hp hlive hb hh hn => hp.next hlive hb hh hn)
        (fun _ _ _ _ hp hn => hp.tick hn) h.1 h.2 hc hs⟩
  refine (hpres.throughout ⟨Bench.lined_start a b (le_of_lt hd) ab ba, ?_⟩ hC).mono fun _ h => h.2
  exact Network.alive_start a b {} {} 0 0 rfl rfl hma hmb hma' hmb'

/-- The same on the wire, whatever the filters drop. -/
theorem wire_undelivered_timed (a b : EngineArgs) (delay : ℚ) (hd : 0 < delay)
    (ab ba : Option (TcpSegment → Nat → Bool)) (hma : 1 ≤ a.sndMss) (hmb : 1 ≤ b.sndMss)
    (hma' : a.sndMss ≤ 65535) (hmb' : b.sndMss ≤ 65535) (acts : List BenchAction)
    (hC : benchMachine.AllSteps Bench.Current (.start a b delay ab ba) acts) :
    benchMachine.Throughout (fun s => s.net.NeverStuck) (.start a b delay ab ba) acts :=
  (Bench.alive_throughout a b delay hd ab ba hma hmb hma' hmb' acts hC).mono
    fun _ h => h.neverStuck

/-- The wire has dropped two bytes and holds nothing more: the timer of the client brings them
again. -/
theorem lossy_run_timed : benchMachine.Throughout (fun s => s.net.NeverStuck) lossyStart lossyRun ∧
    ∃ s, benchMachine.run lossyStart (lossyRun.take 9) = some s ∧
      s.net.b.eng.delivered ≠ s.net.a.written ∧
      s.net.a.eng.tm.sched.live.map TimerHandle.cb = [.onRto] := by
  constructor
  · exact wire_undelivered_timed clientArgs serverArgs (1 / 1000) (by norm_num) dropThird none
      (by decide) (by decide) (by decide) (by decide) lossyRun (by decide +kernel)
  · have h : (benchMachine.run lossyStart (lossyRun.take 9)).map (fun s =>
        (decide (s.net.b.eng.delivered ≠ s.net.a.written),
          s.net.a.eng.tm.sched.live.map TimerHandle.cb)) = some (true, [.onRto]) := by
      decide +kernel
    obtain ⟨s, hs, hv⟩ := Option.map_eq_some_iff.mp h
    simp only [Prod.mk.injEq, decide_eq_true_eq] at hv
    exact ⟨s, hs, hv⟩

end HdlPlayground.Tcp

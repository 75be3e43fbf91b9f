import HdlPlayground.Tcp.Progress

/-!
# How two engines part

What the state of one engine says about the other, on a network that makes nothing up. An engine
that is synchronized has a peer that has opened; one whose FIN has been acknowledged, a peer that
has delivered everything and taken the FIN; one that has taken a FIN, a peer that has sent it. So an
engine in TIME-WAIT knows that both streams have arrived whole.
-/
namespace HdlPlayground.Tcp

namespace Session

open TcpEngine (Course SendInv SyncStates FinStates FinTaken)

variable {src dst : Session}

/-- What `src` can tell of `dst` by its own state. -/
structure Parting (src dst : Session) : Prop where
  begun : src.eng.tcb.state ∈ SyncStates → dst.used = true
  acked : src.eng.fin.finAcked = true →
    dst.eng.fin.peerFin = true ∧ dst.eng.delivered = src.written
  left : src.eng.tcb.state ∈ [.finWait2, .timeWait] →
    dst.eng.tcb.state ∈ FinTaken ∨ dst.eng.Outside
  heard : src.eng.tcb.state ∈ FinTaken → dst.eng.tcb.state ∈ FinStates ∨ dst.eng.Outside
  whole : src.eng.tcb.state = .timeWait →
    src.eng.delivered = dst.written ∧ dst.eng.delivered = src.written

/-- No one follows the stream of a session that has not begun. -/
theorem Tracks.begun (h : Tracks src dst) (hs : dst.eng.tcb.state ∈ SyncStates) :
    src.used = true := by
  by_contra hu
  unfold Tracks at h
  rw [if_neg hu] at h
  have h0 := ((h 0 [] False (by decide)).follows hs).next
  have h1 := ((h 1 [] False (by decide)).follows hs).next
  rw [h0] at h1
  simp only [seqAt] at h1
  omega

/-- An acknowledged FIN has been taken, and everything before it. -/
theorem fin_acked (h : src.Valid) (hp : src.Paces) (ht : Tracks src dst) (ha : Answered src dst)
    (ho : ¬ src.eng.Outside) (hf : src.eng.fin.finAcked = true) :
    dst.eng.fin.peerFin = true ∧ dst.eng.delivered = src.written := by
  obtain ⟨k, hk⟩ := h.sound.sending ho
  have hsmall := h.small
  have hcourse := hp fun hx => ho hx.2
  have hsent : src.eng.fin.finSent = true := h.sound.kept.ready.coherent.acked hf
  have huna := hcourse.settled hf
  have hall : k = src.written.length + 2 := by
    apply seqAt_eq (x := src.eng.tcb.iss) _ (h.bound hk) (by omega)
    rw [← hk.una, huna, hk.finSeq hsent]
    exact add_seqAt _ _ 1
  have hd := Network.delivers h ht
  have hlen := hd.text.length_le
  have hpos : k ≤ dst.eng.delivered.length + 1 + dst.eng.fin.peerFin.toNat := ha k ho hk
  have hpf : dst.eng.fin.peerFin = true := by
    have := dst.eng.fin.peerFin.toNat_le
    rw [← Bool.toNat_eq_one]
    omega
  exact ⟨hpf, (hd.full hpf).2⟩

theorem parting (h : src.Valid) (h' : dst.Valid) (hp : src.Paces) (ht : Tracks src dst)
    (ht' : Tracks dst src) (ha : Answered src dst) (ho : ¬ src.eng.Outside) : Parting src dst := by
  have hcoh := h.sound.kept.ready.coherent
  have hcoh' := h'.sound.kept.ready.coherent
  have hsync (hs : src.eng.tcb.state ∈ FinTaken) : src.eng.tcb.state ∈ SyncStates := by
    revert hs
    cases src.eng.tcb.state <;> simp
  -- a FIN that has been taken
  have htook (hs : src.eng.tcb.state ∈ FinTaken) : src.eng.fin.peerFin = true :=
    ((ht'.aligned h'.small).follows (hsync hs)).taken.mpr hs
  have hacked := fin_acked h hp ht ha ho
  constructor
  · exact ht'.begun
  · exact hacked
  · intro hs
    obtain ⟨hpf, -⟩ := hacked (hcoh.complete hs)
    by_cases hout : dst.eng.Outside
    · exact Or.inr hout
    · left
      rcases (ht.aligned h.small).live fun hx => hout hx.2 with hun | hf
      · have hno : dst.eng.fin.peerFin = false := hun.peerFin
        rw [hno] at hpf
        cases hpf
      · exact hf.taken.mp hpf
  · intro hs
    obtain ⟨⟨-, htag⟩, -⟩ := (Network.delivers h' ht').full (htook hs)
    rcases Bool.or_eq_true_iff.mp htag with hsent | hout
    · exact Or.inl (hcoh'.sent.mp hsent)
    · exact Or.inr (of_decide_eq_true hout)
  · intro hs
    refine ⟨((Network.delivers h' ht').full (htook (by simp [hs]))).2, ?_⟩
    exact (hacked (hcoh.complete (List.mem_cons_of_mem _ (by
      show src.eng.tcb.state ∈ _
      rw [hs]
      exact List.mem_cons_self)))).2

end Session

namespace Network

open Session (Parting)

variable {n : Network}

/-- Either engine can tell of the other by its own state. -/
def Parted (n : Network) : Prop :=
  (¬ n.a.eng.Outside → Parting n.a n.b) ∧ (¬ n.b.eng.Outside → Parting n.b n.a)

theorem Alive.parted (h : n.Alive) : n.Parted :=
  ⟨Session.parting h.trusty.good.a h.trusty.good.b h.a h.trusty.good.ab h.trusty.good.ba
      h.trusty.abAnswered,
    Session.parting h.trusty.good.b h.trusty.good.a h.b h.trusty.good.ba h.trusty.good.ab
      h.trusty.baAnswered⟩

end Network

/-- However the network loses, duplicates, delays and reorders what it is given: either engine can
tell by its own state how far the other has opened and closed, and what it has delivered. -/
theorem close_agreed (a b : EngineArgs) (schedA schedB : ManualScheduler Callback)
    (randA randB : Nat) (hsa : schedA.heap = []) (hsb : schedB.heap = []) (hma : 1 ≤ a.sndMss)
    (hmb : 1 ≤ b.sndMss) (hma' : a.sndMss ≤ 65535) (hmb' : b.sndMss ≤ 65535)
    (ms : List (Side × Action))
    (hC : networkMachine.AllSteps Network.Reliable (.start a b schedA schedB randA randB) ms) :
    networkMachine.Throughout Network.Parted (.start a b schedA schedB randA randB) ms :=
  (Network.alive_preserves.throughout
    (Network.alive_start a b schedA schedB randA randB hsa hsb hma hmb hma' hmb') hC).mono
      fun _ h => h.parted

/-- The server in CLOSE-WAIT knows that the client has sent its FIN. -/
theorem shuffled_run_agreed : networkMachine.Throughout Network.Parted
      (.start clientArgs serverArgs {} {} 0 0) shuffledRun ∧
    ∃ n, networkMachine.run (.start clientArgs serverArgs {} {} 0 0) shuffledRun = some n ∧
      n.b.eng.tcb.state = .closeWait ∧ n.a.eng.tcb.state = .finWait1 := by
  constructor
  · exact close_agreed clientArgs serverArgs {} {} 0 0 rfl rfl (by decide) (by decide) (by decide)
      (by decide) shuffledRun (by decide +kernel)
  · have h : ((networkMachine.run (Network.start clientArgs serverArgs {} {} 0 0) shuffledRun).map
        fun n => (n.b.eng.tcb.state, n.a.eng.tcb.state)) = some (.closeWait, .finWait1) := by
      decide +kernel
    obtain ⟨n, hn, hv⟩ := Option.map_eq_some_iff.mp h
    simp only [Prod.mk.injEq] at hv
    exact ⟨n, hn, hv⟩

/-- The same on the wire, whatever the filters drop. -/
theorem wire_close_agreed (a b : EngineArgs) (delay : ℚ) (hd : 0 < delay)
    (ab ba : Option (TcpSegment → Nat → Bool)) (hma : 1 ≤ a.sndMss) (hmb : 1 ≤ b.sndMss)
    (hma' : a.sndMss ≤ 65535) (hmb' : b.sndMss ≤ 65535) (acts : List BenchAction)
    (hC : benchMachine.AllSteps Bench.Current (.start a b delay ab ba) acts) :
    benchMachine.Throughout (fun s => s.net.Parted) (.start a b delay ab ba) acts :=
  (Bench.alive_throughout a b delay hd ab ba hma hmb hma' hmb' acts hC).mono fun _ h => h.parted

/-- The client writes two bytes and closes; the server closes once it has taken the FIN. -/
def partingRun : List BenchAction :=
  [.act .b .passiveOpen, .act .a .activeOpen, .tick (1 / 1000), .deliver, .tick (1 / 1000),
    .deliver, .tick (1 / 1000), .deliver, .act .a (.send [7, 8] true false none), .act .a .close,
    .tick (1 / 1000), .deliver, .deliver, .tick (1 / 1000), .deliver, .deliver, .act .b .close,
    .tick (1 / 1000), .deliver, .tick (1 / 1000)]

/-- The client in TIME-WAIT knows that the server has delivered the two bytes. -/
theorem parting_run_agreed : benchMachine.Throughout (fun s => s.net.Parted)
      (.start clientArgs serverArgs (1 / 1000) none none) partingRun ∧
    ∃ s, benchMachine.run (.start clientArgs serverArgs (1 / 1000) none none) partingRun = some s ∧
      s.net.a.eng.tcb.state = .timeWait ∧ s.net.b.eng.tcb.state = .lastAck ∧
      s.net.b.eng.delivered = [7, 8] := by
  constructor
  · exact wire_close_agreed clientArgs serverArgs (1 / 1000) (by norm_num) none none (by decide)
      (by decide) (by decide) (by decide) partingRun (by decide +kernel)
  · have h : (benchMachine.run (Bench.start clientArgs serverArgs (1 / 1000) none none)
        partingRun).map (fun s => (s.net.a.eng.tcb.state, s.net.b.eng.tcb.state,
          s.net.b.eng.delivered)) = some (.timeWait, .lastAck, [7, 8]) := by
      decide +kernel
    obtain ⟨s, hs, hv⟩ := Option.map_eq_some_iff.mp h
    simp only [Prod.mk.injEq] at hv
    exact ⟨s, hs, hv⟩

end HdlPlayground.Tcp

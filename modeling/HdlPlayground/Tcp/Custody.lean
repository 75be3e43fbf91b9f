import HdlPlayground.Tcp.Receipts

/-!
# What has not been delivered is still held

Two engines on a network that makes nothing up. SND.UNA of either is at most what the other has
taken, so whatever has been written and not been delivered is still in the queues of the engine it
was written to, and can be sent again. Once a FIN is acknowledged, the peer has delivered all there
was and has taken the FIN.
-/
namespace HdlPlayground.Tcp

namespace TcpEngine

variable {a : Action} {e f : TcpEngine}

/-- Where SND.UNA of a step comes from. -/
inductive Una (e : TcpEngine) (a : Action) (f : TcpEngine) : Prop
  | same : f.tcb.sndUna = e.tcb.sndUna → (e.Outside → f.Outside) → Una e a f
  | opens : f.tcb.state ∈ [.synSent, .synReceived] → Una e a f
  | acked (seg : TcpSegment) : e.accepted a = some seg → f.tcb.sndUna = seg.ack → Una e a f

theorem accepts_inside {seg : TcpSegment} (h : e.accepts seg = true) :
    seg.ackFlag = true ∧ seg.rst = false ∧
      (e.tcb.state ∈ [.synSent, .synReceived] ∨ e.tcb.state ∈ OpenStates) := by
  unfold accepts at h
  rw [Bool.and_eq_true, Bool.and_eq_true] at h
  obtain ⟨⟨hack, hrst⟩, h⟩ := h
  refine ⟨hack, by simpa using hrst, ?_⟩
  revert h
  cases e.tcb.state <;> simp

theorem step_una (hr : e.Ready) (hi : e.tcb.state = .synSent → seqGt e.tcb.sndUna e.tcb.iss = false)
    (hp : e.Outside → ¬ e.Probes a) (h : engineMachine.step e a = some f) : Una e a f := by
  have hin (hs : e.tcb.state = .established ∨ e.tcb.state = .closeWait) : ¬ e.Outside := by
    unfold Outside
    rcases hs with hs | hs <;> simp [hs]
  by_cases hpr : e.Probes a
  · exact .same (step_probes hpr h).una fun ho => absurd hpr (hp ho)
  cases step_alters hr hi hpr h with
  | quiet _ hq =>
    refine .same hq.una fun ho => ?_
    rcases hq.state with hs | hs
    · rwa [Outside, hs]
    · exact hs
  | opened _ ho => exact .opens ho.state
  | crossed hs _ hc => exact .same hc.una fun ho => by simp [Outside, hs] at ho
  | spends _ hs hst =>
    obtain ⟨n, hs⟩ := hs
    exact .same hs.una fun ho => absurd ho (hin hst)
  | closes ha hs _ _ =>
    refine .same ?_ fun ho => by simp [Outside, hs] at ho
    subst ha
    simp only [engineMachine] at h
    split_ifs at h
    obtain rfl := Option.some.inj h
    obtain ⟨n, hsp⟩ := sendPending_spends (e := e.enter.requestFin)
    rw [perform, close, if_neg (by simp [hs]), if_neg (by simp [hs]), if_neg (by simp [hs])]
    exact hsp.una
  | lands seg g hacc hl hs =>
    obtain ⟨n, hs⟩ := hs
    have hgf : f.tcb.sndUna = g.tcb.sndUna := hs.una
    obtain ⟨-, -, hst⟩ := accepts_inside (accepted_some hacc).1
    rcases hst with hst | hst
    · exact .acked seg hacc (hgf.trans (hl.opening hst).1)
    · have hu := hl.una hst
      split at hu
      · exact .acked seg hacc (hgf.trans hu)
      · refine .same (hgf.trans hu) fun ho => ?_
        unfold Outside at ho
        revert ho hst
        cases e.tcb.state <;> simp

end TcpEngine

namespace Session

open TcpEngine (FromPeer SendInv)

variable {s s' src dst dst' src' : Session} {a : Action} {x : Int} {w data : List UInt8}
  {done : Prop}

/-- A session has said no more than it has taken, and says nothing before its connection. -/
structure Voiced (x : Int) (s : Session) : Prop where
  tells : ∀ ev ∈ s.eng.env.log, ev.Says x s.eng.intake.position
  silent : s.used = false ∨ s.eng.tcb.state = .synSent → s.eng.Unspoken

theorem Voiced.step (h : s.Voiced x) (ha : s.Aligned x w done) (hw : w.length < 2147483647)
    (hsound : s.Sound) (hg : FromPeer x w done a) (hs : connectionMachine.step s a = some s') :
    s'.Voiced x ∧ s.eng.intake.position ≤ s'.eng.intake.position := by
  obtain ⟨hlive, e', he, rfl⟩ := step_cases hs
  have hnow := ha.live hlive
  have hq (hu : s.eng.intake.Unopened) : s.eng.Unspoken := by
    apply h.silent
    have hb : s.eng.tcb.state ∈ Intake.Before := hu.state
    by_cases hss : s.eng.tcb.state = .synSent
    · exact Or.inr hss
    · left
      rw [← Bool.not_eq_true]
      refine fun hused => hlive ⟨hused, ?_⟩
      unfold TcpEngine.Outside
      revert hb hss
      cases s.eng.tcb.state <;> simp
  have hv := TcpEngine.step_voice hsound.kept hnow hq hw hg he
  refine ⟨⟨fun ev hev => ?_, fun hsil => ?_⟩, hv.grows⟩
  · obtain ⟨evs, hlog, hall⟩ := hv.logs
    have hev : ev ∈ e'.env.log := hev
    rw [hlog] at hev
    rcases List.mem_append.mp hev with hev | hev
    · exact (h.tells ev hev).mono hv.grows
    · exact hall ev hev
  · have hout : e'.Outside → s.used = false → s.eng.Outside := fun _ hu =>
      (hsound.fresh hu).2.1.outside
    rcases TcpEngine.step_silent hsound.kept hnow hq he with hf | hf | ⟨hn, ho⟩
    · exact hf
    · exfalso
      rcases hsil with hu | hss
      · have hu : (s.used || decide (¬ e'.Outside)) = false := hu
        have ho : e'.Outside := by simpa using (Bool.or_eq_false_iff.mp hu).2
        unfold TcpEngine.Outside at ho
        revert ho hf
        cases e'.tcb.state <;> simp
      · have hss : e'.tcb.state = .synSent := hss
        simp [hss] at hf
    · exfalso
      rcases hsil with hu | hss
      · have hu : (s.used || decide (¬ e'.Outside)) = false := hu
        exact hn (hout ho (Bool.or_eq_false_iff.mp hu).1)
      · have hss : e'.tcb.state = .synSent := hss
        simp [TcpEngine.Outside, hss] at ho

/-- What `dst` says is about the stream of `src`; before that begins, any would do. -/
def Heeds (src dst : Session) : Prop :=
  if src.used = true then dst.Voiced src.eng.tcb.iss else ∀ x, dst.Voiced x

/-- SND.UNA of `src` is at most what `dst` has taken. -/
def Answered (src dst : Session) : Prop :=
  ∀ k, ¬ src.eng.Outside → SendInv src.written k src.eng → k ≤ dst.eng.intake.position

theorem Heeds.voiced (h : Heeds src dst) : dst.Voiced src.eng.tcb.iss := by
  unfold Heeds at h
  split at h
  · exact h
  · exact h _

/-- The peer takes a step. -/
theorem Heeds.hears (h : Heeds src dst) (ht : Tracks src dst) (hsrc : src.Valid) (hdst : dst.Sound)
    (hc : Network.Carried src a) (hs : connectionMachine.step dst a = some dst') :
    Heeds src dst' ∧ dst.eng.intake.position ≤ dst'.eng.intake.position := by
  unfold Tracks at ht
  unfold Heeds at h ⊢
  split
  · next hu =>
    rw [if_pos hu] at h ht
    exact h.step ht hsrc.small hdst (hsrc.fromPeer hu hc) hs
  · next hu =>
    rw [if_neg hu] at h ht
    have hstep (x : Int) := (h x).step (ht x [] False (by decide)) (by decide) hdst
      (hsrc.fromPeer_fresh (by simpa using hu) hc) hs
    exact ⟨fun x => (hstep x).1, (hstep 0).2⟩

/-- The session it is about takes a step. -/
theorem Heeds.writes (h : Heeds src dst) (hsrc : src.Sound) (hl : ¬ src.eng.LosesSend a)
    (hs : connectionMachine.step src a = some src') : Heeds src' dst := by
  unfold Heeds at h
  split at h
  · next hu =>
    obtain ⟨hiss, -, -⟩ := step_writes hsrc hu hl hs
    have hu' : src'.used = true := by
      obtain ⟨-, e', -, rfl⟩ := step_cases hs
      simp [hu]
    unfold Heeds
    rw [if_pos hu', hiss]
    exact h
  · unfold Heeds
    split
    · exact h _
    · exact h

/-- A number of the stream is found by its sequence number. -/
theorem seqAt_eq {x : Int} {i k : Nat} (h : seqAt x i = seqAt x k) (hi : i < 4294967296)
    (hk : k < 4294967296) : i = k := by
  simp only [seqAt] at h
  omega

theorem Valid.bound (h : src.Valid) {k : Nat} (hk : SendInv src.written k src.eng) :
    k < 4294967296 := by
  have hb := hk.bound
  rw [length_sent] at hb
  have := h.small
  have := src.eng.fin.finSent.toNat_le
  omega

/-- Before SND.UNA moves it is the ISS, and no probe is due. -/
theorem Valid.una (h : src.Valid) (hs : connectionMachine.step src a = some src') :
    ∃ e', TcpEngine.Una src.eng a e' ∧
      src' = { eng := e', written := src.written ++ a.accepted e',
               used := src.used || decide (¬ e'.Outside) } := by
  obtain ⟨hlive, e', he, rfl⟩ := step_cases hs
  refine ⟨e', TcpEngine.step_una h.sound.kept.ready (fun hss => ?_) (fun ho hp => ?_) he, rfl⟩
  · have ho : ¬ src.eng.Outside := by simp [TcpEngine.Outside, hss]
    obtain ⟨k, hk⟩ := h.sound.sending ho
    have h0 : k = 0 := hk.opening (by simp [hss])
    subst h0
    rw [hk.una, seqAt_zero hk.iss.1 hk.iss.2, ← Bool.not_eq_true, seqGt_iff]
    omega
  · have hu : src.used = false := by
      rw [← Bool.not_eq_true]
      exact fun hu => hlive ⟨hu, ho⟩
    have hnone := (h.sound.fresh hu).2.1.persist
    cases a with
    | expire g =>
      simp only [engineMachine] at he
      split_ifs at he with hen
      have hheld : src.eng.tm.slot g.cb = some g.id := h.sound.kept.timers.timely.held g hen.1
      rw [hp.1] at hheld
      exact absurd (hnone.symm.trans hheld) (by simp)
    | _ => exact hp.elim

end Session

namespace Network

/-- A segment that arrives has been transmitted by the peer. -/
def Honest (src : Session) : Action → Prop
  | .segment data => data ∈ src.wire ∨ (TcpSegment.parse data).toOption = none
  | _ => True

instance (src : Session) : (act : Action) → Decidable (Honest src act)
  | .segment data =>
    decidable_of_iff
      ((src.wire.contains data || (TcpSegment.parse data).toOption.isNone) = true)
      (by simp [Honest])
  | .tick _ | .random _ | .openCall .. | .activeOpen | .passiveOpen | .send .. | .receive _
  | .close | .abort | .expire _ => isTrue trivial

theorem Honest.carried {src : Session} {act : Action} (h : Honest src act) : Carried src act := by
  cases act with
  | segment data =>
    refine h.imp id fun hn => ?_
    unfold Harmless
    cases hp : TcpSegment.parse data with
    | error msg => trivial
    | ok seg =>
      rw [hp] at hn
      cases hn
  | _ => trivial

end Network

namespace Session

open TcpEngine (FromPeer SendInv)

variable {s s' src dst dst' src' : Session} {a : Action} {x : Int} {w data : List UInt8}
  {done : Prop}

/-- An acknowledgement that is accepted is of something the peer has taken. -/
theorem Heeds.acked (h : Heeds src dst) (hdst : dst.Valid) (hc : Network.Honest dst a)
    {seg : TcpSegment} (ha : src.eng.accepted a = some seg) :
    ∃ i ≤ dst.eng.intake.position, seg.ack = seqAt src.eng.tcb.iss i := by
  cases a with
  | segment data =>
    cases hp : TcpSegment.parse data with
    | error msg => simp [TcpEngine.accepted, hp] at ha
    | ok t =>
      have ht : t = seg := by
        simp only [TcpEngine.accepted, hp] at ha
        split_ifs at ha
        exact Option.some.inj ha
      obtain ⟨hack, hrst, -⟩ := TcpEngine.accepts_inside (TcpEngine.accepted_some ha).1
      subst ht
      have hmem : data ∈ dst.wire := by
        refine hc.resolve_right fun hn => ?_
        rw [hp] at hn
        cases hn
      obtain ⟨u, hu, hb⟩ := mem_wire hmem
      obtain ⟨hws, hraw⟩ := hdst.unadorned _ hu u rfl
      rw [parse_of_build hb hws hraw] at hp
      obtain rfl := Except.ok.inj hp
      obtain ⟨i, hi, hat⟩ := h.voiced.tells _ hu u rfl hack hrst
      refine ⟨i, hi, ?_⟩
      show u.ack % MOD = _
      rw [hat]
      exact Int.emod_emod_of_dvd _ (dvd_refl MOD)
  | _ => simp [TcpEngine.accepted] at ha

/-- The acknowledged session takes a step. -/
theorem Answered.writes (h : Answered src dst) (hh : Heeds src dst) (hsrc : src.Valid)
    (hsrc' : src'.Valid) (hdst : dst.Valid) (hpos : dst.eng.intake.position < 4294967296)
    (hc : Network.Honest dst a) (hl : ¬ src.eng.LosesSend a)
    (hs : connectionMachine.step src a = some src') : Answered src' dst := by
  obtain ⟨e', hu, rfl⟩ := hsrc.una hs
  intro k' ho' hk'
  have ho' : ¬ e'.Outside := ho'
  have hlt := hsrc'.bound hk'
  have huna : e'.tcb.sndUna = seqAt e'.tcb.iss k' := hk'.una
  cases hu with
  | same hsame hout =>
    have ho : ¬ src.eng.Outside := fun ho => ho' (hout ho)
    obtain ⟨k, hk⟩ := hsrc.sound.sending ho
    have hiss : e'.tcb.iss = src.eng.tcb.iss :=
      (step_writes hsrc.sound (hsrc.sound.begun ho) hl hs).1
    have hkk : k' = k := by
      apply seqAt_eq (x := src.eng.tcb.iss) _ hlt (hsrc.bound hk)
      rw [← hk.una, ← hsame, huna, hiss]
    rw [hkk]
    exact h k ho hk
  | opens hst =>
    rw [hk'.opening hst]
    exact Nat.zero_le _
  | acked seg hacc hack =>
    obtain ⟨-, -, hst⟩ := TcpEngine.accepts_inside (TcpEngine.accepted_some hacc).1
    have ho : ¬ src.eng.Outside := by
      unfold TcpEngine.Outside
      revert hst
      cases src.eng.tcb.state <;> simp
    have hiss : e'.tcb.iss = src.eng.tcb.iss :=
      (step_writes hsrc.sound (hsrc.sound.begun ho) hl hs).1
    obtain ⟨i, hi, hat⟩ := hh.acked hdst hc hacc
    have hki : k' = i := by
      apply seqAt_eq (x := src.eng.tcb.iss) _ hlt (lt_of_le_of_lt hi hpos)
      rw [← hat, ← hack, huna, hiss]
    rw [hki]
    exact hi

end Session

/-! ## What is held -/

def Sym.octet : Sym → Option UInt8
  | .data b => some b
  | _ => none

theorem octets_data (l : List UInt8) : (l.map Sym.data).filterMap Sym.octet = l := by
  induction l with
  | nil => rfl
  | cons b l ih => simp [Sym.octet, ih]

theorem octets_symsOf (flags : Flags) (payload : List UInt8) :
    (symsOf flags payload).filterMap Sym.octet = payload := by
  unfold symsOf
  rw [List.filterMap_append, List.filterMap_append, octets_data]
  have hs : [Sym.syn].filterMap Sym.octet = [] := rfl
  have hf : [Sym.fin].filterMap Sym.octet = [] := rfl
  cases flags.syn <;> cases flags.fin <;> simp [hs, hf]

theorem octets_unacked (q : List Outgoing) :
    (unacked q).filterMap Sym.octet = q.flatMap Outgoing.payload := by
  induction q with
  | nil => rfl
  | cons o q ih =>
    rw [unacked_cons, List.filterMap_append, ih, Outgoing.syms, octets_symsOf]
    rfl

/-- The octets among the units of a stream from the `k`-th on. -/
theorem octets_sent (w : List UInt8) (b : Bool) (k : Nat) :
    ((sent w b).drop k).filterMap Sym.octet = w.drop (k - 1) := by
  have htail (t : List Sym) (ht : t <:+ if b then [Sym.fin] else []) :
      t.filterMap Sym.octet = [] := by
    rw [List.filterMap_eq_nil_iff]
    intro v hv
    have hmem := ht.subset hv
    cases b <;> simp at hmem
    rw [hmem]
    rfl
  cases k with
  | zero =>
    rw [List.drop_zero, sent, List.filterMap_cons_none rfl, List.filterMap_append, octets_data,
      htail _ (List.suffix_refl _), List.append_nil]
    rfl
  | succ k =>
    rw [sent, List.drop_succ_cons, List.drop_append, List.filterMap_append, ← List.map_drop,
      octets_data, htail _ (List.drop_suffix _ _), List.append_nil]
    rfl

namespace Session

open TcpEngine (SendInv)

variable {s src dst : Session} {k : Nat}

/-- The octets an engine can still send: those not acknowledged, then those not sent. -/
def held (s : Session) : List UInt8 := s.eng.buf.retx.flatMap Outgoing.payload ++ s.eng.buf.appBuf

theorem held_eq (h : SendInv s.written k s.eng) : s.held = s.written.drop (k - 1) := by
  have hs := congrArg (List.filterMap Sym.octet) h.stream
  rw [List.filterMap_append, octets_unacked, octets_data, octets_sent] at hs
  exact hs

/-- `src` answers for what `dst` has not delivered. -/
structure Custody (src dst : Session) : Prop where
  una : ∃ k ≤ dst.eng.intake.position, src.eng.tcb.sndUna = seqAt src.eng.tcb.iss k
  held : src.written.drop dst.eng.delivered.length <:+ src.held
  acked : src.eng.buf.retx = [] → src.eng.fin.finSent = true →
    dst.eng.fin.peerFin = true ∧ dst.eng.delivered = src.written

theorem custody (h : src.Valid) (ht : Tracks src dst) (ha : Answered src dst)
    (ho : ¬ src.eng.Outside) : Custody src dst := by
  obtain ⟨k, hk⟩ := h.sound.sending ho
  have hle : k ≤ dst.eng.delivered.length + 1 + dst.eng.fin.peerFin.toNat := ha k ho hk
  have hd := Network.delivers h ht
  have hlen : dst.eng.delivered.length ≤ src.written.length := hd.text.length_le
  refine ⟨⟨k, hle, hk.una⟩, ?_, fun hq hf => ?_⟩
  · rw [held_eq hk]
    cases hp : dst.eng.fin.peerFin with
    | true =>
      rw [(hd.full hp).2, List.drop_length]
      exact List.nil_suffix
    | false =>
      rw [hp, Bool.toNat_false] at hle
      have hsplit : dst.eng.delivered.length = (k - 1) + (dst.eng.delivered.length - (k - 1)) := by
        omega
      rw [hsplit, ← List.drop_drop]
      exact List.drop_suffix _ _
  · -- all the numbers up to the FIN have been acknowledged
    have hstream := hk.stream
    have hbound := hk.bound
    rw [hq, unacked_nil, List.nil_append, hf] at hstream
    rw [hf, length_sent, Bool.toNat_true] at hbound
    have hall : src.written.length + 2 ≤ k := by
      by_contra hlt
      have hfin : Sym.fin ∈ (sent src.written true).drop k := by
        rw [sent_true, List.drop_append_of_le_length (by rw [length_sent, Bool.toNat_false]; omega)]
        exact List.mem_append_right _ (List.mem_singleton.mpr rfl)
      rw [← hstream] at hfin
      obtain ⟨b, -, hb⟩ := List.mem_map.mp hfin
      cases hb
    have hpf := dst.eng.fin.peerFin.toNat_le
    have hp : dst.eng.fin.peerFin = true := by
      rw [← Bool.toNat_eq_one]
      omega
    exact ⟨hp, (hd.full hp).2⟩

end Session

namespace Network

open Session (Heeds Answered Custody Valid Tracks)

variable {n : Network} {src dst src' : Session} {act : Action}

/-- Two engines that hear of each other only what each has transmitted. -/
structure Trusty (n : Network) : Prop where
  good : n.Good
  ab : Heeds n.a n.b
  ba : Heeds n.b n.a
  abAnswered : Answered n.a n.b
  baAnswered : Answered n.b n.a

/-- The step stays within the bounds, and nothing is made up. -/
def Reliable (n : Network) (m : Side × Action) : Prop :=
  n.Bounded m ∧ Honest (n.peer m.1) m.2

instance (n : Network) (m : Side × Action) : Decidable (n.Reliable m) :=
  inferInstanceAs (Decidable (_ ∧ _))

/-- Either engine, while its connection is under way, holds what the other has not delivered. -/
def Safekept (n : Network) : Prop :=
  (¬ n.a.eng.Outside → Custody n.a n.b) ∧ (¬ n.b.eng.Outside → Custody n.b n.a)

theorem Trusty.safekept (h : n.Trusty) : n.Safekept :=
  ⟨Session.custody h.good.a h.good.ab h.abAnswered, Session.custody h.good.b h.good.ba h.baAnswered⟩

theorem position_lt (h : src.Valid) (ht : Tracks src dst) :
    dst.eng.intake.position < 4294967296 := by
  have hlen : dst.eng.delivered.length ≤ src.written.length := (delivers h ht).text.length_le
  have hpf := dst.eng.fin.peerFin.toNat_le
  have hs := h.small
  show dst.eng.delivered.length + 1 + dst.eng.fin.peerFin.toNat < _
  omega

/-- One side steps: it hears the other, and the other goes on hearing it. -/
theorem side_trusty (h : src.Valid) (h' : dst.Valid) (ht : Tracks src dst) (ht' : Tracks dst src)
    (hh : Heeds src dst) (hh' : Heeds dst src) (ha : Answered src dst) (ha' : Answered dst src)
    (hv : src'.Valid) (hl : ¬ src.eng.LosesSend act) (hc : Honest dst act)
    (hs : connectionMachine.step src act = some src') :
    Heeds src' dst ∧ Heeds dst src' ∧ Answered src' dst ∧ Answered dst src' := by
  obtain ⟨hhears, hgrows⟩ := hh'.hears ht' h' h.sound hc.carried hs
  exact ⟨hh.writes h.sound hl hs, hhears,
    ha.writes hh h hv h' (position_lt h ht) hc hl hs,
    fun k ho hk => (ha' k ho hk).trans hgrows⟩

theorem trusty_preserves : networkMachine.Preserves Reliable Trusty := by
  rintro n ⟨side, act⟩ n' h ⟨hb, hc⟩ hs
  have hgood : n'.Good := good_preserves n (side, act) n' h.good hb hs
  obtain ⟨hl, -⟩ := hb
  simp only [networkMachine] at hs
  split_ifs at hs
  obtain ⟨s, hstep, rfl⟩ := Option.map_eq_some_iff.mp hs
  cases side with
  | a =>
    obtain ⟨h1, h2, h3, h4⟩ := side_trusty h.good.a h.good.b h.good.ab h.good.ba h.ab h.ba
      h.abAnswered h.baAnswered hgood.a hl hc hstep
    exact ⟨hgood, h1, h2, h3, h4⟩
  | b =>
    obtain ⟨h1, h2, h3, h4⟩ := side_trusty h.good.b h.good.a h.good.ba h.good.ab h.ba h.ab
      h.baAnswered h.abAnswered hgood.b hl hc hstep
    exact ⟨hgood, h2, h1, h4, h3⟩

theorem heeds_init (a b : EngineArgs) (schedA schedB : ManualScheduler Callback)
    (randA randB : Nat) :
    Heeds { eng := TcpEngine.init a schedA randA } { eng := TcpEngine.init b schedB randB } := by
  intro x
  refine ⟨fun ev hev => absurd hev List.not_mem_nil, fun _ => ⟨rfl, rfl, rfl, fun o ho => ?_⟩⟩
  exact absurd ho List.not_mem_nil

theorem answered_init (a : EngineArgs) (sched : ManualScheduler Callback) (rand : Nat) :
    Answered { eng := TcpEngine.init a sched rand } dst := by
  intro k ho
  exact absurd (List.mem_cons_self : ConnState.closed ∈ [ConnState.closed, ConnState.listen]) ho

theorem trusty_start (a b : EngineArgs) (schedA schedB : ManualScheduler Callback)
    (randA randB : Nat) (hsa : schedA.heap = []) (hsb : schedB.heap = []) (hma : 1 ≤ a.sndMss)
    (hmb : 1 ≤ b.sndMss) : (start a b schedA schedB randA randB).Trusty :=
  ⟨good_start a b schedA schedB randA randB hsa hsb hma hmb,
    heeds_init a b schedA schedB randA randB, heeds_init b a schedB schedA randB randA,
    answered_init a schedA randA, answered_init b schedB randB⟩

end Network

/-- However the network loses, duplicates, delays and reorders what it is given: as long as it
makes nothing up, whatever has been written and not been delivered can still be sent again, and
SND.UNA is never past what the peer has taken. -/
theorem undelivered_held (a b : EngineArgs) (schedA schedB : ManualScheduler Callback)
    (randA randB : Nat) (hsa : schedA.heap = []) (hsb : schedB.heap = []) (hma : 1 ≤ a.sndMss)
    (hmb : 1 ≤ b.sndMss) (ms : List (Side × Action))
    (hC : networkMachine.AllSteps Network.Reliable (.start a b schedA schedB randA randB) ms) :
    networkMachine.Throughout Network.Safekept (.start a b schedA schedB randA randB) ms :=
  (Network.trusty_preserves.throughout
    (Network.trusty_start a b schedA schedB randA randB hsa hsb hma hmb) hC).mono
      fun _ h => h.safekept

/-- While the third byte is ahead of the first two, none of the three is forgotten. -/
theorem shuffled_run_held : networkMachine.Throughout Network.Safekept
      (.start clientArgs serverArgs {} {} 0 0) shuffledRun ∧
    ∃ n, networkMachine.run (.start clientArgs serverArgs {} {} 0 0) (shuffledRun.take 9) = some n ∧
      n.b.eng.delivered = [] ∧ n.a.held = [7, 8, 9] := by
  constructor
  · exact undelivered_held clientArgs serverArgs {} {} 0 0 rfl rfl (by decide) (by decide)
      shuffledRun
      (by decide +kernel)
  · have h : ((networkMachine.run (Network.start clientArgs serverArgs {} {} 0 0)
        (shuffledRun.take 9)).map fun n => (n.b.eng.delivered, n.a.held)) =
          some ([], [7, 8, 9]) := by
      decide +kernel
    obtain ⟨n, hn, hv⟩ := Option.map_eq_some_iff.mp h
    simp only [Prod.mk.injEq] at hv
    exact ⟨n, hn, hv.1, hv.2⟩

/-! ## On the wire -/

namespace Session

variable {s s' src dst : Session} {x : Int}

/-- The clock is all that time changes of a session that is over. -/
theorem Voiced.tick {dt : ℚ} (h : s.Voiced x) (ho : s.Over) (hs : s.next (.tick dt) = some s') :
    s'.Voiced x ∧ s'.eng.intake.position = s.eng.intake.position := by
  obtain rfl := over_tick ho hs
  refine ⟨⟨h.tells, fun hsil => ?_⟩, rfl⟩
  have hse := h.silent hsil
  exact ⟨hse.acks, hse.probes, hse.buffer, hse.queue⟩

theorem Heeds.tick {dt : ℚ} (h : Heeds src dst) (ho : dst.Over)
    (hs : dst.next (.tick dt) = some s') : Heeds src s' := by
  unfold Heeds at h ⊢
  split
  · next hu =>
    rw [if_pos hu] at h
    exact (h.tick ho hs).1
  · next hu =>
    rw [if_neg hu] at h
    exact fun x => ((h x).tick ho hs).1

end Session

namespace Network

open Session (Heeds Answered)

variable {n : Network} {side : Side} {a : Action} {s : Session}

theorem Trusty.next (h : n.Trusty) (hlive : ¬ (n.session side).Over) (hb : n.Bounded (side, a))
    (hc : Honest (n.peer side) a) (hs : (n.session side).next a = some s) :
    (n.put s side).Trusty := by
  apply trusty_preserves n (side, a) _ h ⟨hb, hc⟩
  simp only [networkMachine]
  rw [if_pos hc.carried, Session.step_of_next hlive, hs]
  rfl

theorem Trusty.tick (h : n.Trusty) {dt : ℚ} (hs : (n.session side).next (.tick dt) = some s) :
    (n.put s side).Trusty := by
  have hgood : (n.put s side).Good := h.good.tick hs
  by_cases ho : (n.session side).Over
  · have hover := Session.over_tick ho hs
    have hout : s.eng.Outside := by
      rw [hover]
      exact ho.2
    cases side with
    | a =>
      refine ⟨hgood, ?_, h.ba.tick ho hs, fun k hn => absurd hout hn, ?_⟩
      · have := h.ab
        rw [hover]
        exact this
      · have hpos := (h.ba.voiced.tick ho hs).2
        exact fun k hn hk => (h.baAnswered k hn hk).trans_eq hpos.symm
    | b =>
      refine ⟨hgood, h.ab.tick ho hs, ?_, ?_, fun k hn => absurd hout hn⟩
      · have := h.ba
        rw [hover]
        exact this
      · have hpos := (h.ab.voiced.tick ho hs).2
        exact fun k hn hk => (h.abAnswered k hn hk).trans_eq hpos.symm
  · have hc : Honest (n.peer side) (.tick dt) := True.intro
    refine h.next ho ⟨fun hl => hl.2.1 rfl, ?_⟩ hc hs
    cases side with
    | a => exact h.good.a.small
    | b => exact h.good.b.small

end Network

namespace Bench

variable {b b' : Bench} {act : BenchAction}

/-- What the steps of a session and the passing of time keep of the network is kept on the wire. -/
theorem net_step {P : Network → Prop} (hgood : ∀ n, P n → n.Good)
    (hnext : ∀ n side a s, P n → ¬ (n.session side).Over → n.Bounded (side, a) →
      Network.Honest (n.peer side) a → (n.session side).next a = some s → P (n.put s side))
    (htick : ∀ n side dt s, P n → (n.session side).next (.tick dt) = some s → P (n.put s side))
    (h : b.Lined) (hp : P b.net) (hc : b.Current act) (hs : benchMachine.step b act = some b') :
    P b'.net := by
  rcases (step_cases h hs).2 with ⟨side, a, s, rfl, hl, hn, hnet, -⟩ |
    ⟨dt, sa, sb, rfl, ha, hb, hnet, -⟩ | ⟨g, s, rfl, hdue, hn, hnet, -⟩
  · rw [hnet]
    refine hnext _ _ _ _ hp hc.1 hc.2 ?_ hn
    cases a with
    | segment data => exact hl.elim
    | _ => exact True.intro
  · rw [hnet]
    have h1 : P (b.net.put sa .a) := htick _ _ _ _ hp ha
    have h2 : P ((b.net.put sa .a).put sb .b) := htick _ .b _ _ h1 hb
    exact h2
  · rw [hnet]
    have hcar : Network.Honest (b.net.peer g.cb.target) (.segment g.cb.data) :=
      Or.inl (h.carried hdue)
    have hsmall := hgood _ hp
    refine hnext _ _ _ _ hp (hc g hdue) ⟨fun hl => hl.2.1 rfl, ?_⟩ hcar hn
    cases g.cb.target with
    | a => exact hsmall.a.small
    | b => exact hsmall.b.small

theorem trusty_step (h : b.Lined) (ht : b.net.Trusty) (hc : b.Current act)
    (hs : benchMachine.step b act = some b') : b'.net.Trusty :=
  net_step (P := Network.Trusty) (fun _ hp => hp.good)
    (fun _ _ _ _ hp hlive hb hh hn => hp.next hlive hb hh hn) (fun _ _ _ _ hp hn => hp.tick hn)
    h ht hc hs

end Bench

/-- Whatever the filters drop, what has been written and not been delivered is still held. -/
theorem wire_undelivered_held (a b : EngineArgs) (delay : ℚ) (hd : 0 < delay)
    (ab ba : Option (TcpSegment → Nat → Bool)) (hma : 1 ≤ a.sndMss) (hmb : 1 ≤ b.sndMss)
    (acts : List BenchAction)
    (hC : benchMachine.AllSteps Bench.Current (.start a b delay ab ba) acts) :
    benchMachine.Throughout (fun s => s.net.Safekept) (.start a b delay ab ba) acts := by
  have hpres : benchMachine.Preserves Bench.Current fun s => s.Lined ∧ s.net.Trusty :=
    fun _ _ _ h hc hs => ⟨Bench.lined_step h.1 hs, Bench.trusty_step h.1 h.2 hc hs⟩
  refine (hpres.throughout ⟨Bench.lined_start a b (le_of_lt hd) ab ba, ?_⟩ hC).mono
    fun _ h => h.2.safekept
  exact Network.trusty_start a b {} {} 0 0 rfl rfl hma hmb

/-- The two bytes that have been dropped are held, and then they arrive. -/
theorem lossy_run_held : benchMachine.Throughout (fun s => s.net.Safekept) lossyStart lossyRun ∧
    ∃ s, benchMachine.run lossyStart (lossyRun.take 9) = some s ∧ s.wire.dropped = 1 ∧
      s.net.b.eng.delivered = [] ∧ s.net.a.held = [7, 8] := by
  constructor
  · exact wire_undelivered_held clientArgs serverArgs (1 / 1000) (by norm_num) dropThird none
      (by decide) (by decide) lossyRun (by decide +kernel)
  · have h : (benchMachine.run lossyStart (lossyRun.take 9)).map (fun s =>
        (s.wire.dropped, s.net.b.eng.delivered, s.net.a.held)) = some (1, [], [7, 8]) := by
      decide +kernel
    obtain ⟨s, hs, hv⟩ := Option.map_eq_some_iff.mp h
    simp only [Prod.mk.injEq] at hv
    exact ⟨s, hs, hv⟩

end HdlPlayground.Tcp

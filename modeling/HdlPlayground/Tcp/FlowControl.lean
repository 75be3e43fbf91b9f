import HdlPlayground.Tcp.Outflow
import HdlPlayground.Tcp.Resets

/-!
# Send-side flow control

An observer counts the numbers of a connection from its ISS: how many have been sent, the
largest right edge that an accepted acknowledgement has offered, and where the last
zero-window probe ended. The engine bounds what it sends by SND.UNA + SND.WND, and these
two are set under different guards; what is new in a step is compared with the edge that
the segments themselves have offered.
-/
namespace HdlPlayground.Tcp

/-- What the observer of a connection keeps: the numbers sent, the largest right edge
offered, and the number after the last zero-window probe, all relative to ISS. -/
structure Watch where
  sent : Nat := 0
  right : Option Int := none
  probe : Nat := 0
deriving DecidableEq

namespace TcpEngine

variable {a : Action} {e e' f g : TcpEngine} {n m : Nat}

/-- CLOSE in SYN-RECEIVED with nothing queued sends the FIN in the window of the SYN. -/
def SendsFinEarly (e : TcpEngine) : Action → Prop
  | .close => e.tcb.state = .synReceived ∧ e.buf.appBuf = [] ∧ 1 < e.tcb.sndWnd
  | _ => False

instance : (a : Action) → Decidable (e.SendsFinEarly a)
  | .close => inferInstanceAs
      (Decidable (e.tcb.state = .synReceived ∧ e.buf.appBuf = [] ∧ 1 < e.tcb.sndWnd))
  | .tick _ | .random _ | .openCall .. | .activeOpen | .passiveOpen | .send .. | .receive _
  | .expire _ | .abort | .segment _ => inferInstanceAs (Decidable False)

/-- The segment does not pair an acknowledgement with the window of another one: what
updates the window does not acknowledge less than SND.UNA, or offers no more than SND.WND;
what does not update it acknowledges nothing new, or offers at least SND.WND. -/
def KeepsPair (e : TcpEngine) (seg : TcpSegment) : Prop :=
  if e.takesWindow seg = true then
    seqGeq seg.ack e.tcb.sndUna = true ∨ seg.window ≤ e.tcb.sndWnd
  else seqGt seg.ack e.tcb.sndUna = false ∨ e.tcb.sndWnd ≤ seg.window

instance (seg : TcpSegment) : Decidable (e.KeepsPair seg) :=
  inferInstanceAs (Decidable (if e.takesWindow seg = true then
    seqGeq seg.ack e.tcb.sndUna = true ∨ seg.window ≤ e.tcb.sndWnd
  else seqGt seg.ack e.tcb.sndUna = false ∨ e.tcb.sndWnd ≤ seg.window))

/-- What has entered the log in a step. -/
def entered (e e' : TcpEngine) : List Event := e'.env.log.drop e.env.log.length

end TcpEngine

namespace Watch

open TcpEngine

/-- Where a number before SND.NXT stands. -/
def place (c : Watch) (e : TcpEngine) (x : Int) : Int := c.sent - sub e.tcb.sndNxt x

/-- SND.UNA, relative to ISS. -/
def una (c : Watch) (e : TcpEngine) : Int := c.place e e.tcb.sndUna

/-- The larger of the edge so far and a new one. -/
def widen (r : Option Int) (x : Int) : Option Int :=
  match r with
  | none => some x
  | some y => some (max y x)

/-- The largest right edge offered, once the segment of the action is in. -/
def reach (c : Watch) (e : TcpEngine) (a : Action) : Option Int :=
  match e.accepted a with
  | some seg => widen c.right (c.place e seg.ack + seg.window)
  | none => c.right

/-- What the observer keeps after a step: a connection begins with its SYN. -/
def next (c : Watch) (e : TcpEngine) (a : Action) (e' : TcpEngine) : Watch :=
  if e'.Outside then {}
  else if e.Outside then { sent := (sub e'.tcb.sndNxt e'.tcb.iss).toNat }
  else
    let sent := c.sent + (sub e'.tcb.sndNxt e.tcb.sndNxt).toNat
    { sent := sent
      right := c.reach e a
      probe := if e.Probes a then sent else c.probe }

/-- The segment lies before the right edge, or is a probe of a closed window: the one
number at the edge, when nothing has been sent that far. -/
def Covers (c : Watch) (e : TcpEngine) (a : Action) (seg : TcpSegment) : Prop :=
  ∃ r, c.reach e a = some r ∧
    (c.sent + sub seg.seq e.tcb.sndNxt + seg.segLen ≤ r ∨
      e.tcb.sndWnd = 0 ∧ seg.segLen = 1 ∧ c.sent + sub seg.seq e.tcb.sndNxt = r ∧ c.sent ≤ r)

end Watch

/-- An engine with its observer. -/
def flowMachine : Lib.Machine (TcpEngine × Watch) Action where
  step s a := (engineMachine.step s.1 a).map fun e' => (e', s.2.next s.1 a e')

open TcpEngine in
/-- Whatever text or FIN the step transmits is a retransmission or stays in the window. -/
def Regulated (s : TcpEngine × Watch) (a : Action) : Prop :=
  ∀ s', flowMachine.step s a = some s' → ∀ seg, .tx seg ∈ entered s.1 s'.1 → seg.Weighs →
    (∃ o ∈ s.1.buf.retx, Transmits o seg) ∨ s.2.Covers s.1 a seg

open TcpEngine in
/-- The steps that do not lead the sender astray: an accepted segment keeps an
acknowledgement with its window, a probe waits until the last one is acknowledged, and no
FIN is sent in SYN-RECEIVED. -/
def Careful (s : TcpEngine × Watch) (a : Action) : Prop :=
  (∀ seg ∈ s.1.accepted a, s.1.tcb.state ∈ OpenStates → s.1.KeepsPair seg) ∧
    (s.1.Probes a → s.2.right ≠ none ∧ s.2.probe ≤ s.2.una s.1) ∧ ¬ s.1.SendsFinEarly a

instance (s : TcpEngine × Watch) (a : Action) : Decidable (Careful s a) :=
  inferInstanceAs (Decidable (_ ∧ _ ∧ _))

namespace Watch

open TcpEngine

variable {c c' : Watch} {e e' f g : TcpEngine} {r : Int} {n : Nat}

/-- The edge that the send variables name is no further than `r`, and what is sent does not
go past it but for a probe in flight. -/
structure Bounded (c : Watch) (e : TcpEngine) (r : Int) : Prop where
  edge : c.una e + e.tcb.sndWnd ≤ r
  sent : (c.sent ≤ r ∧ sub e.tcb.sndNxt e.tcb.sndUna ≤ 65535) ∨
    (c.probe = c.sent ∧ 0 < sub e.tcb.sndNxt e.tcb.sndUna ∧ c.sent ≤ r + 1 ∧
      sub e.tcb.sndNxt e.tcb.sndUna ≤ 65536)

theorem Bounded.of_eq (h : c.Bounded e r) (hu : f.tcb.sndUna = e.tcb.sndUna)
    (hn : f.tcb.sndNxt = e.tcb.sndNxt) (hw : f.tcb.sndWnd = e.tcb.sndWnd)
    (hs : c'.sent = c.sent) (hp : c'.probe = c.probe) : c'.Bounded f r := by
  have h1 := h.edge
  have h2 := h.sent
  simp only [una, place] at h1
  refine ⟨?_, ?_⟩
  · simp only [una, place, hu, hn, hw, hs]
    exact h1
  · rw [hu, hn, hs, hp]
    exact h2

/-- What is sent within the usable window stays before the edge. -/
theorem Bounded.sends (h : c.Bounded e r) (hw : e.tcb.sndWnd < 65536) (hs : Sends n e f)
    (hc : c'.sent = c.sent + (sub f.tcb.sndNxt e.tcb.sndNxt).toNat) (hp : c'.probe = c.probe) :
    c'.Bounded f r ∧ c'.sent = c.sent + n ∧ (n = 0 ∨ (c.sent : Int) + n ≤ r) := by
  have h1 := h.edge
  have h2 := h.sent
  have h3 := hs.nxt
  have h4 := hs.room
  rw [usableWindow_def, s32_def] at h4
  simp only [una, place, sub_def] at h1 h2 hc
  have hn : n = 0 ∨ (n : Int) ≤ e.tcb.sndWnd -
      (e.tcb.sndNxt - e.tcb.sndUna) % 4294967296 := by
    split at h4 <;> omega
  have hsub : (f.tcb.sndNxt - e.tcb.sndNxt) % 4294967296 = n := by omega
  rw [hsub, Int.toNat_natCast] at hc
  have hd : (f.tcb.sndNxt - e.tcb.sndUna) % 4294967296 =
      (e.tcb.sndNxt - e.tcb.sndUna) % 4294967296 + n := by omega
  refine ⟨⟨?_, ?_⟩, hc, by omega⟩
  · simp only [una, place, sub_def, hs.una, hs.wnd, hc, hd]
    omega
  · rw [sub_def, hs.una, hp, hc, hd]
    omega

/-- An accepted acknowledgement moves the edge no further than it offers. -/
theorem Bounded.lands {seg : TcpSegment} (h : c.Bounded e r) (hs : e.tcb.state ∈ OpenStates)
    (hl : Landed e seg g) (hle : seqGt seg.ack e.tcb.sndNxt = false) (hk : e.KeepsPair seg) :
    c.Bounded g (max r (c.place e seg.ack + seg.window)) := by
  have h1 := h.edge
  have h2 := h.sent
  have hgt : seqGt seg.ack e.tcb.sndUna = true ↔ 0 < (seg.ack - e.tcb.sndUna) % 4294967296 ∧
      (seg.ack - e.tcb.sndUna) % 4294967296 < 2147483648 := seqGt_iff
  have hle' : ¬ (0 < (seg.ack - e.tcb.sndNxt) % 4294967296 ∧
      (seg.ack - e.tcb.sndNxt) % 4294967296 < 2147483648) := by
    rw [← seqGt_iff, hle]
    decide
  have hu := hl.una hs
  have hw := hl.wnd hs
  -- the window that is left is paired with one of the two edges, the old one or the new one
  have hedge : c.una g + g.tcb.sndWnd ≤ max r (c.place e seg.ack + seg.window) := by
    unfold KeepsPair at hk
    rw [seqGeq_iff] at hk
    simp only [una, place, sub_def, hl.nxt] at h1 h2 ⊢
    by_cases hg : seqGt seg.ack e.tcb.sndUna = true
    · have hg' := hgt.mp hg
      rw [if_pos hg] at hu
      rw [hu]
      by_cases ht : e.takesWindow seg = true
      · rw [if_pos ht] at hw
        rw [hw]
        omega
      · rw [if_neg ht, hg] at hk
        rw [if_neg ht] at hw
        rw [hw]
        simp only [Bool.true_eq_false, false_or] at hk
        omega
    · have hg' := mt hgt.mpr hg
      rw [if_neg hg] at hu
      rw [hu]
      by_cases ht : e.takesWindow seg = true
      · rw [if_pos ht] at hk hw
        rw [hw]
        omega
      · rw [if_neg ht] at hw
        rw [hw]
        omega
  refine ⟨hedge, ?_⟩
  simp only [una, place, sub_def, hl.nxt] at h1 h2 hedge ⊢
  by_cases hg : seqGt seg.ack e.tcb.sndUna = true
  · have hg' := hgt.mp hg
    rw [if_pos hg] at hu
    rw [hu] at hedge ⊢
    omega
  · rw [if_neg hg] at hu
    rw [hu]
    omega

/-- The acknowledgement of our SYN offers the first edge. -/
theorem bounded_first {seg : TcpSegment} (hs : e.tcb.state ∈ [.synSent, .synReceived])
    (hl : Landed e seg g) (h1 : c.sent = 1) (hn : (e.tcb.sndNxt - seg.ack) % 4294967296 = 0) :
    c.Bounded g (c.place e seg.ack + seg.window) := by
  obtain ⟨hu, hw⟩ := hl.opening hs
  refine ⟨?_, Or.inl ?_⟩
  · simp only [una, place, hl.nxt, hu, hw]
    exact le_refl _
  · simp only [place, sub_def, hl.nxt, hu, h1]
    omega

end Watch

/-! ## The observer in every run -/

namespace TcpEngine

variable {a : Action} {e e' : TcpEngine} {c c' : Watch}

/-- What holds of an engine and its observer between entry points. -/
structure Observed (s : TcpEngine × Watch) : Prop where
  ready : s.1.Ready
  ranged : s.1.Ranged
  outside : s.1.Outside → s.2.right = none
  opening : s.1.tcb.state ∈ [.synSent, .synReceived] → s.2.right = none ∧ s.2.sent = 1 ∧
    (s.1.tcb.sndNxt - s.1.tcb.iss - 1) % 4294967296 = 0 ∧
    (s.1.tcb.sndUna - s.1.tcb.iss) % 4294967296 = 0
  later : s.1.tcb.state ∈ LaterStates → ∃ r, s.2.right = some r ∧ s.2.Bounded s.1 r

theorem observed_init (args : EngineArgs) (sched : ManualScheduler Callback) (rand : Nat) :
    Observed (init args sched rand, {}) := by
  refine ⟨ready_init args sched rand, ranged_init args sched rand, fun _ => rfl, ?_, ?_⟩
  · intro h
    simp [init] at h
  · intro h
    simp [init] at h

theorem Logs.entered {P : Event → Prop} (h : Logs P e e') {ev : Event} (hm : ev ∈ entered e e') :
    P ev := by
  obtain ⟨evs, hl, hp⟩ := h
  rw [TcpEngine.entered, hl, List.drop_left] at hm
  exact hp ev hm

theorem Ranged.step (hr : e.Ready) (hg : e.Ranged) (h : engineMachine.step e a = some e') :
    e'.Ranged := by
  refine hr.step_preserves h ?_ fun _ _ hm => Ranged.move hm
  obtain ⟨conf, psh, hb, -⟩ := begin_eq (e := e) a
  rw [hb]
  exact hg.of_eq rfl rfl

theorem next_outside (ho : e'.Outside) : c.next e a e' = {} := by rw [Watch.next, if_pos ho]

theorem next_inside (ho' : ¬ e'.Outside) (ho : ¬ e.Outside) : c.next e a e' =
    { sent := c.sent + (sub e'.tcb.sndNxt e.tcb.sndNxt).toNat
      right := c.reach e a
      probe :=
        if e.Probes a then c.sent + (sub e'.tcb.sndNxt e.tcb.sndNxt).toNat else c.probe } := by
  rw [Watch.next, if_neg ho', if_neg ho]

theorem observed_outside {s : TcpEngine × Watch} (hr : s.1.Ready) (hg : s.1.Ranged)
    (ho : s.1.Outside) (hn : s.2.right = none) : Observed s := by
  refine ⟨hr, hg, fun _ => hn, fun h => ?_, fun h => ?_⟩
  · exact absurd ho (not_outside_of_mem h (by simp) (by simp))
  · exact absurd ho (not_outside_of_mem h (by simp) (by simp))

theorem observed_later {s : TcpEngine × Watch} {r : Int} (hr : s.1.Ready) (hg : s.1.Ranged)
    (hs : s.1.tcb.state ∈ LaterStates) (hn : s.2.right = some r) (hb : s.2.Bounded s.1 r) :
    Observed s := by
  refine ⟨hr, hg, fun h => ?_, fun h => ?_, fun _ => ⟨r, hn, hb⟩⟩
  · exact absurd h (not_outside_of_mem hs (by simp) (by simp))
  · exfalso
    rcases List.mem_pair.mp h with h | h
    · rw [h] at hs
      simp at hs
    · rw [h] at hs
      simp at hs

/-- What is sent within the usable window that the step leaves. -/
theorem Observed.sends {s : TcpEngine × Watch} {g e' : TcpEngine} {r : Int} (hr : e'.Ready)
    (hg : e'.Ranged) (hw : g.tcb.sndWnd < 65536) (ho : ¬ s.1.Outside)
    (hreach : s.2.reach s.1 a = some r) (hp : ¬ s.1.Probes a) (hb : s.2.Bounded g r)
    (hn : g.tcb.sndNxt = s.1.tcb.sndNxt) (hl : g.env.log = s.1.env.log)
    (hs : g.tcb.state ∈ LaterStates) (hsp : Spends g e') :
    Observed (e', s.2.next s.1 a e') ∧ ∀ seg, .tx seg ∈ entered s.1 e' → seg.Weighs →
      s.2.Covers s.1 a seg := by
  obtain ⟨n, hsend⟩ := hsp
  have hsent :
      ({ s.2 with sent := s.2.sent + (sub e'.tcb.sndNxt s.1.tcb.sndNxt).toNat } : Watch).sent =
      s.2.sent + (sub e'.tcb.sndNxt g.tcb.sndNxt).toNat := by rw [hn]
  obtain ⟨hb', -, hle⟩ := hb.sends hw hsend hsent rfl
  constructor
  · by_cases ho' : e'.Outside
    · exact observed_outside hr hg ho' (by rw [next_outside ho'])
    · have hst : e'.tcb.state ∈ LaterStates := by
        rcases hsend.state with hs' | hs' | hs'
        · rw [hs']
          exact hs
        · exact absurd hs' ho'
        · exact hs'
      refine observed_later hr hg hst (r := r) ?_ ?_
      · rw [next_inside ho' ho]
        exact hreach
      · rw [next_inside ho' ho, if_neg hp]
        exact hb'.of_eq rfl rfl rfl rfl rfl
  · intro seg hm hx
    obtain ⟨i, hi, hlen⟩ := Logs.entered (Logs.trans (.none hl) hsend.log) hm seg rfl hx
    refine ⟨r, hreach, Or.inl ?_⟩
    have hpos := hx.segLen_pos
    rw [hn] at hi
    rw [sub_def]
    omega

/-- A step that sends nothing new. -/
theorem Observed.quiet {s : TcpEngine × Watch} (h : Observed s) (hr : e'.Ready) (hg : e'.Ranged)
    (hp : ¬ s.1.Probes a) (ha : s.1.accepted a = none) (hq : Quiet s.1 e') :
    Observed (e', s.2.next s.1 a e') := by
  by_cases ho' : e'.Outside
  · exact observed_outside hr hg ho' (by rw [next_outside ho'])
  have hst : e'.tcb.state = s.1.tcb.state := hq.state.resolve_right ho'
  have ho : ¬ s.1.Outside := by
    rw [Outside, ← hst]
    exact ho'
  have hreach : s.2.reach s.1 a = s.2.right := by rw [Watch.reach, ha]
  have hsent : s.2.sent + (sub e'.tcb.sndNxt s.1.tcb.sndNxt).toNat = s.2.sent := by
    rw [hq.nxt, sub_def]
    omega
  have hn : s.2.next s.1 a e' = s.2 := by
    rw [next_inside ho' ho, hreach, if_neg hp, hsent]
  rw [hn]
  refine ⟨hr, hg, fun hx => absurd hx ho', fun hx => ?_, fun hx => ?_⟩
  · rw [hq.iss, hq.una, hq.nxt]
    exact h.opening (by rw [← hst]; exact hx)
  · obtain ⟨r, hr', hb⟩ := h.later (by rw [← hst]; exact hx)
    exact ⟨r, hr', hb.of_eq hq.una hq.nxt hq.wnd rfl rfl⟩

/-- A SYN is the one number of a connection that is being opened. -/
theorem observed_opening {s : TcpEngine × Watch} (hr : s.1.Ready) (hg : s.1.Ranged)
    (hs : s.1.tcb.state ∈ [.synSent, .synReceived]) (hn : s.2.right = none) (h1 : s.2.sent = 1)
    (hnxt : (s.1.tcb.sndNxt - s.1.tcb.iss - 1) % 4294967296 = 0)
    (hu : (s.1.tcb.sndUna - s.1.tcb.iss) % 4294967296 = 0) : Observed s := by
  refine ⟨hr, hg, fun _ => hn, fun _ => ⟨hn, h1, hnxt, hu⟩, fun h => ?_⟩
  exfalso
  rcases List.mem_pair.mp hs with hs | hs
  · rw [hs] at h
    simp at h
  · rw [hs] at h
    simp at h

/-- An accepted segment leaves the edge at or before the one it offers. -/
theorem Observed.lands {s : TcpEngine × Watch} {seg : TcpSegment} {g : TcpEngine}
    (h : Observed s) (hc : Careful s a) (ha : s.1.accepted a = some seg) (hl : Landed s.1 seg g) :
    ¬ s.1.Outside ∧ g.tcb.sndWnd < 65536 ∧ ∃ r, s.2.reach s.1 a = some r ∧ s.2.Bounded g r := by
  obtain ⟨hacc, hfits⟩ := accepted_some ha
  have hreach : s.2.reach s.1 a =
      Watch.widen s.2.right (s.2.place s.1 seg.ack + seg.window) := by rw [Watch.reach, ha]
  have hfirst (hs : s.1.tcb.state ∈ [.synSent, .synReceived])
      (hn : (s.1.tcb.sndNxt - seg.ack) % 4294967296 = 0) :
      ¬ s.1.Outside ∧ g.tcb.sndWnd < 65536 ∧
        ∃ r, s.2.reach s.1 a = some r ∧ s.2.Bounded g r := by
    obtain ⟨hright, h1, -, -⟩ := h.opening hs
    refine ⟨not_outside_of_mem hs (by simp) (by simp), ?_, _, ?_, Watch.bounded_first hs hl h1 hn⟩
    · rw [(hl.opening hs).2]
      exact hfits.window
    · rw [hreach, hright]
      rfl
  rcases s.1.state_cases with hs | hs | hs | hs
  · simp [accepts, hs] at hacc
  · simp [accepts, hs] at hacc
  · apply hfirst (by simp [hs])
    obtain ⟨-, -, hn, hu⟩ := h.opening (by simp [hs])
    simp only [accepts, hs, Bool.and_eq_true] at hacc
    obtain ⟨-, ⟨-, hgt⟩, hle⟩ := hacc
    rw [seqGt_iff] at hgt
    rw [seqLeq_iff] at hle
    omega
  · simp only [SyncStates, List.mem_cons] at hs
    rcases hs with hs | hs | hs
    · simp [accepts, hs] at hacc
    · apply hfirst (by simp [hs])
      obtain ⟨-, -, hn, hu⟩ := h.opening (by simp [hs])
      rw [accepts_synReceived seg hs] at hacc
      simp only [Bool.and_eq_true] at hacc
      obtain ⟨-, -, hlt, hle⟩ := hacc
      rw [seqLt_iff] at hlt
      rw [seqLeq_iff] at hle
      omega
    · have hs' : s.1.tcb.state ∈ OpenStates := by simpa using hs
      obtain ⟨r, hr, hb⟩ := h.later (List.mem_cons_of_mem _ hs')
      rw [accepts_open seg hs'] at hacc
      simp only [Bool.and_eq_true, Bool.not_eq_true'] at hacc
      refine ⟨not_outside_of_mem hs' (by simp) (by simp), ?_, _, ?_,
        hb.lands hs' hl hacc.2.2 (hc.1 seg ha hs')⟩
      · rw [hl.wnd hs']
        split
        · exact hfits.window
        · exact h.ranged.sndWnd
      · rw [hreach, hr]
        rfl

/-- A probe is the one number at the edge. -/
theorem Observed.probes {s : TcpEngine × Watch} (h : Observed s) (hr : e'.Ready) (hg : e'.Ranged)
    (hc : Careful s a) (hp : s.1.Probes a) (hgr : Grows 1 s.1 e') :
    Observed (e', s.2.next s.1 a e') ∧ ∀ seg, .tx seg ∈ entered s.1 e' → seg.Weighs →
      s.2.Covers s.1 a seg := by
  obtain ⟨hright, hprobe⟩ := hc.2.1 hp
  have ho : ¬ s.1.Outside := fun ho => hright (h.outside ho)
  have hst : s.1.tcb.state ∈ LaterStates := by
    rcases s.1.state_cases with hs | hs | hs | hs
    · exact absurd (by simp [Outside, hs]) ho
    · exact absurd (by simp [Outside, hs]) ho
    · exact absurd (h.opening (by simp [hs])).1 hright
    · simp only [SyncStates, List.mem_cons] at hs
      rcases hs with hs | hs | hs
      · simp [hs]
      · exact absurd (h.opening (by simp [hs])).1 hright
      · exact List.mem_cons_of_mem _ (by simpa using hs)
  have hacc : s.1.accepted a = none ∧ s.1.tcb.sndWnd = 0 := by
    cases a with
    | expire g => exact ⟨rfl, hp.2.1⟩
    | _ => exact hp.elim
  have hreach : s.2.reach s.1 a = s.2.right := by rw [Watch.reach, hacc.1]
  obtain ⟨r, hr', hb⟩ := h.later hst
  have h1 := hb.edge
  have h2 := hb.sent
  have h3 : (e'.tcb.sndNxt - s.1.tcb.sndNxt - 1) % 4294967296 = 0 := hgr.nxt
  simp only [Watch.una, Watch.place, sub_def] at h1 h2 hprobe
  constructor
  · by_cases ho' : e'.Outside
    · exact observed_outside hr hg ho' (by rw [next_outside ho'])
    · have hst' : e'.tcb.state ∈ LaterStates := by
        rcases hgr.state with hs' | hs' | hs'
        · rw [hs']
          exact hst
        · exact absurd hs' ho'
        · exact hs'
      have hnext := next_inside (a := a) (c := s.2) ho' ho
      rw [if_pos hp] at hnext
      refine observed_later hr hg hst' (r := r) ?_ ⟨?_, Or.inr ⟨by rw [hnext], ?_⟩⟩
      · rw [hnext]
        exact hreach.trans hr'
      · simp only [hnext, Watch.una, Watch.place, sub_def, hgr.una, hgr.wnd]
        omega
      · simp only [hnext, sub_def, hgr.una]
        omega
  · intro seg hm hx
    obtain ⟨i, hi, hlen⟩ := hgr.log.entered hm seg rfl hx
    have hpos := hx.segLen_pos
    refine ⟨r, hreach.trans hr', ?_⟩
    rw [sub_def]
    by_cases hlt : (s.2.sent : Int) + 1 ≤ r
    · exact Or.inl (by omega)
    · exact Or.inr ⟨hacc.2, by omega⟩

theorem Observed.step {s s' : TcpEngine × Watch} (h : Observed s) (hc : Careful s a)
    (hs : flowMachine.step s a = some s') : Observed s' ∧ Regulated s a := by
  obtain ⟨e, c⟩ := s
  obtain ⟨e', he, rfl⟩ := Option.map_eq_some_iff.mp hs
  have hr := h.ready.step he
  have hg := h.ranged.step h.ready he
  have hreg (hx : ∀ seg, .tx seg ∈ entered e e' → seg.Weighs →
      (∃ o ∈ e.buf.retx, Transmits o seg) ∨ c.Covers e a seg) : Regulated (e, c) a := by
    intro s' hs' seg hm hw
    rw [hs] at hs'
    obtain rfl := Option.some.inj hs'
    exact hx seg hm hw
  have hlight (hl : Logs Light e e') : Regulated (e, c) a :=
    hreg fun seg hm hw => absurd hw (hl.entered hm seg rfl)
  by_cases hp : e.Probes a
  · obtain ⟨ho, hx⟩ := h.probes hr hg hc hp (step_probes hp he)
    exact ⟨ho, hreg fun seg hm hw => Or.inr (hx seg hm hw)⟩
  have hop : e.tcb.state ∈ [.synSent, .synReceived] → c.right = none ∧ c.sent = 1 ∧
    (e.tcb.sndNxt - e.tcb.iss - 1) % 4294967296 = 0 ∧
    (e.tcb.sndUna - e.tcb.iss) % 4294967296 = 0 := h.opening
  have hi : e.tcb.state = .synSent → seqGt e.tcb.sndUna e.tcb.iss = false := by
    intro hst
    obtain ⟨-, -, -, hu⟩ := hop (List.mem_pair.mpr (Or.inl hst))
    rw [← Bool.not_eq_true, seqGt_iff]
    omega
  cases step_alters (e := e) h.ready hi hp he with
  | quiet ha hq =>
    exact ⟨h.quiet hr hg hp ha hq, hreg fun seg hm hw => Or.inl (hq.log.entered hm seg rfl hw)⟩
  | opened ho hx =>
    have ho' : ¬ e'.Outside := not_outside_of_mem hx.state (by simp) (by simp)
    have h1 := hx.nxt
    have hn : c.next e a e' = { sent := (sub e'.tcb.sndNxt e'.tcb.iss).toNat } := by
      rw [Watch.next, if_neg ho', if_pos ho]
    refine ⟨observed_opening hr hg hx.state (by rw [hn]) ?_ hx.nxt hx.una, hlight hx.log⟩
    rw [hn]
    show (sub e'.tcb.sndNxt e'.tcb.iss).toNat = 1
    rw [sub_def]
    omega
  | crossed hst ha hx =>
    have hmem : e.tcb.state ∈ [.synSent, .synReceived] := List.mem_pair.mpr (Or.inl hst)
    obtain ⟨hright, h1, hnxt, hu⟩ := hop hmem
    have ho : ¬ e.Outside := by simp [Outside, hst]
    have ho' : ¬ e'.Outside := by simp [Outside, hx.state]
    refine ⟨observed_opening hr hg (by simp [hx.state]) ?_ ?_ ?_ ?_, hlight hx.log⟩
    · rw [next_inside ho' ho, Watch.reach, ha]
      exact hright
    · rw [next_inside ho' ho]
      show c.sent + (sub e'.tcb.sndNxt e.tcb.sndNxt).toNat = 1
      rw [hx.nxt, sub_def, h1]
      omega
    · rw [hx.nxt, hx.iss]
      exact hnxt
    · rw [hx.una, hx.iss]
      exact hu
  | lands seg g ha hl hsp =>
    obtain ⟨ho, hw, r, hreach, hb⟩ := h.lands hc ha hl
    obtain ⟨hobs, hx⟩ := Observed.sends (s := (e, c)) hr hg hw ho hreach hp hb hl.nxt hl.log
      (List.mem_cons_of_mem _ hl.state) hsp
    exact ⟨hobs, hreg fun seg hm hw => Or.inr (hx seg hm hw)⟩
  | spends ha hsp hst =>
    have hst' : e.tcb.state ∈ LaterStates := by rcases hst with hst | hst <;> simp [hst]
    obtain ⟨r, hr', hb⟩ := h.later hst'
    have hreach : c.reach e a = some r := by
      rw [Watch.reach, ha]
      exact hr'
    obtain ⟨hobs, hx⟩ := Observed.sends (s := (e, c)) hr hg h.ranged.sndWnd
      (not_outside_of_mem hst' (by simp) (by simp)) hreach hp hb rfl rfl hst' hsp
    exact ⟨hobs, hreg fun seg hm hw => Or.inr (hx seg hm hw)⟩
  | closes ha hst hx hu =>
    exfalso
    obtain ⟨-, -, hnxt, hun⟩ := hop (List.mem_pair.mpr (Or.inr hst))
    have hw : ¬ 1 < e.tcb.sndWnd := by
      intro hw
      subst ha
      exact hc.2.2 ⟨hst, hx, hw⟩
    have hwnd := h.ranged.sndWnd
    rw [usableWindow_def, s32_def] at hu
    simp only at hnxt hun hwnd
    split at hu <;> omega

end TcpEngine

open TcpEngine in
/-- In a run of careful steps, whatever is new in a step lies before the right edge, but for
one probe at a time of a closed window. -/
theorem sends_within_edge (args : EngineArgs) (sched : ManualScheduler Callback) (rand : Nat)
    (as : List Action) (h : flowMachine.AllSteps Careful (init args sched rand, {}) as) :
    flowMachine.AllSteps Regulated (init args sched rand, {}) as := by
  refine Lib.Machine.AllSteps.of_invariant ?_ (observed_init args sched rand) h
  intro s a hobs hc
  refine ⟨?_, fun s' hs => (hobs.step hc hs).1⟩
  cases hs : flowMachine.step s a with
  | none =>
    intro s' hs'
    rw [hs] at hs'
    cases hs'
  | some t => exact (hobs.step hc hs).2

/-- Three bytes are written into the window that the SYN-ACK has closed. -/
def probedArgs : EngineArgs := { localPort := 1000, remotePort := 80, iss := some 100 }

/-- The persist timer expires, and the byte that it sends is retransmitted. -/
def probedRun : List Action :=
  [.activeOpen, .segment [0, 80, 3, 232, 0, 0, 3, 232, 0, 0, 0, 101, 80, 18, 0, 0, 0, 0, 0, 0],
    .send [1, 2, 3] false false none, .tick 1, .expire { id := 1, deadline := 1, cb := .onPersist },
    .tick 1, .expire { id := 2, deadline := 2, cb := .onRto }, .tick 1]

/-- It expires again, with that byte unacknowledged. -/
def secondProbe : Action := .expire { id := 3, deadline := 3, cb := .onPersist }

open TcpEngine in
theorem probedRun_regulated : flowMachine.AllSteps Regulated (init probedArgs {} 0, {}) probedRun :=
  sends_within_edge probedArgs {} 0 probedRun (by decide +kernel)

/-- The second byte, as that probe sends it. -/
def pastEdge : TcpSegment where
  srcPort := 1000
  dstPort := 80
  seq := 102
  ack := 1001
  flags := { ack := true }
  window := 64534
  payload := [2]

open TcpEngine in
/-- It lies one past the edge. -/
theorem second_probe_past_edge :
    ∃ s, flowMachine.run (init probedArgs {} 0, {}) (probedRun ++ [secondProbe]) = some s ∧
      s.2 = { sent := 3, right := some 1, probe := 3 } ∧ s.1.tcb.sndUna = 101 ∧
      ¬ flowMachine.AllSteps Regulated (init probedArgs {} 0, {}) (probedRun ++ [secondProbe]) := by
  have h : ((flowMachine.run (init probedArgs {} 0, {}) probedRun).bind fun s =>
      (flowMachine.step s secondProbe).map fun s' =>
        ([s.2, s'.2], [s.1.tcb.sndNxt, s'.1.tcb.sndUna], s.1.buf.retx.map Outgoing.seq,
          entered s.1 s'.1)) =
      some ([⟨2, some 1, 2⟩, ⟨3, some 1, 3⟩], [102, 101], [101], [.tx pastEdge]) := by
    decide +kernel
  obtain ⟨s, hs, h⟩ := Option.bind_eq_some_iff.mp h
  obtain ⟨s', hs', hv⟩ := Option.map_eq_some_iff.mp h
  simp only [Prod.mk.injEq, List.cons.injEq, and_true] at hv
  obtain ⟨⟨hc, hc'⟩, ⟨hnxt, huna⟩, hq, hent⟩ := hv
  refine ⟨s', ?_, hc', huna, fun hall => ?_⟩
  · rw [Lib.Machine.run_append, hs, Option.bind_some, Lib.Machine.run_cons, hs']
    rfl
  have hreg : Regulated s secondProbe := (hall.suffix hs).1
  have hm : .tx pastEdge ∈ entered s.1 s'.1 := by
    rw [hent]
    exact List.mem_singleton.mpr rfl
  rcases hreg s' hs' pastEdge hm (by decide) with ⟨o, ho, ht⟩ | ⟨r, hr, hle⟩
  · -- the byte in flight is the first one
    have hseq := List.mem_map_of_mem (f := Outgoing.seq) ho
    rw [hq, List.mem_singleton] at hseq
    have := ht.seq
    rw [hseq] at this
    exact absurd this (by decide)
  · have hr' : s.2.right = some r := hr
    rw [hc] at hr' hle
    obtain rfl := Option.some.inj hr'
    rw [hnxt] at hle
    revert hle
    show ¬ ((2 : Int) + sub 102 102 + (1 : Nat) ≤ 1 ∨ s.1.tcb.sndWnd = 0 ∧ 1 = 1 ∧
      (2 : Int) + sub 102 102 = 1 ∧ (2 : Int) ≤ 1)
    rw [sub_def]
    omega

end HdlPlayground.Tcp

import HdlPlayground.Tcp.Isolation
import HdlPlayground.Tcp.Network
import HdlPlayground.Tcp.VirtualTime

/-!
# The wire between two engines

`Wire` of `ports/net_port.py` with a delay: what either engine transmits is counted, goes past
the filter of its direction, and waits on the scheduler to be handed to the other. Each
direction is a queue: what an engine has been handed, and then what is on its way, is what the
other has transmitted and the filter has let through. Two engines on a wire are two engines on
a network, so neither user is given anything but what the other has written.
-/
namespace HdlPlayground.Tcp

/-- What `deliver` closes over. -/
structure Delivery where
  target : Side
  data : List UInt8

/-- One direction: its filter and its two counts. A filter that keeps state of its own is, in any
one run, a function of the number alone. -/
structure Lane where
  filter : Option (TcpSegment → Nat → Bool) := none
  count : Nat := 0
  delivered : Nat := 0

namespace Lane

def accepts (l : Lane) (seg : TcpSegment) (n : Nat) : Bool :=
  match l.filter with
  | none => true
  | some f => f seg n

/-- What the filter lets through of all that has been transmitted. -/
def passes (l : Lane) (out : List (List UInt8)) : List (List UInt8) :=
  (out.zipIdx.filter fun p =>
    match TcpSegment.parse p.1 with
    | .ok seg => l.accepts seg p.2
    | .error _ => false).map Prod.fst

end Lane

structure Wire where
  sched : ManualScheduler Delivery := {}
  delay : ℚ
  ab : Lane := {}
  ba : Lane := {}
  dropped : Nat := 0

namespace Wire

/-- The direction that ends at this side. -/
def lane (w : Wire) : Side → Lane
  | .b => w.ab
  | .a => w.ba

def setLane (w : Wire) (l : Lane) : Side → Wire
  | .b => { w with ab := l }
  | .a => { w with ba := l }

/-- `_count_ab` or `_count_ba` goes up. -/
def tally (w : Wire) (dst : Side) : Wire :=
  w.setLane { w.lane dst with count := (w.lane dst).count + 1 } dst

/-- `_enqueue`, for a delay that is not 0. -/
def enqueue (w : Wire) (data : List UInt8) (dst : Side) : Except String Wire :=
  match TcpSegment.parse data with
  | .error err => .error err
  | .ok seg =>
    let n := (w.lane dst).count
    let w := w.tally dst
    if (w.lane dst).accepts seg n then
      .ok { w with sched := (w.sched.callLater w.delay ⟨dst, data⟩).2 }
    else .ok { w with dropped := w.dropped + 1 }

/-- `delivered_ab` or `delivered_ba` goes up. -/
def credit (w : Wire) (dst : Side) : Wire :=
  w.setLane { w.lane dst with delivered := (w.lane dst).delivered + 1 } dst

/-- A delivery comes off the heap and is counted. -/
def took (w : Wire) (h : TimerHandle Delivery) : Wire :=
  credit { w with sched := w.sched.pop h.id } h.cb.target

def passTime (w : Wire) (dt : ℚ) : Wire :=
  { w with sched := { w.sched with now := w.sched.now + dt } }

/-- What is on its way to this side, the first to arrive first. -/
def inFlight (w : Wire) (dst : Side) : List (List UInt8) :=
  (w.sched.heap.filter fun h => h.cb.target = dst).map fun h => h.cb.data

end Wire

/-! ## Two engines on the wire -/

namespace Side

def other : Side → Side
  | .a => .b
  | .b => .a

end Side

/-- What users and timers do, which is all but what the wire brings. -/
def Action.Local : Action → Prop
  | .segment _ | .tick _ => False
  | _ => True

instance : (a : Action) → Decidable a.Local
  | .segment _ | .tick _ => inferInstanceAs (Decidable False)
  | .random _ | .openCall .. | .activeOpen | .passiveOpen | .send .. | .receive _ | .close
  | .abort | .expire _ => inferInstanceAs (Decidable True)

/-- A step of a session, of whatever connection. -/
def Session.next (s : Session) (a : Action) : Option Session :=
  (engineMachine.step s.eng a).map fun e' =>
    { eng := e'
      written := s.written ++ a.accepted e'
      used := s.used || decide (¬ e'.Outside) }

/-- `heard` is what `on_segment` of either side has been called with. -/
structure Bench where
  wire : Wire
  net : Network
  heard : Side → List (List UInt8) := fun _ => []

inductive BenchAction where
  | act (side : Side) (a : Action)
  | tick (dt : ℚ)
  | deliver

namespace Bench

/-- What one side has transmitted in a step goes on the wire. -/
def settle (b : Bench) (side : Side) (s : Session) : Except String Bench :=
  match (s.wire.drop (b.net.session side).wire.length).foldlM
    (fun w data => w.enqueue data side.other) b.wire with
  | .error err => .error err
  | .ok w => .ok { b with wire := w, net := b.net.put s side }

/-- `deliver`, before it calls `on_segment`. -/
def hand (b : Bench) (h : TimerHandle Delivery) : Bench :=
  { b with
    wire := b.wire.took h
    heard := Function.update b.heard h.cb.target (b.heard h.cb.target ++ [h.cb.data]) }

/-- The delivery that is due first. Nothing ever cancels one. -/
def due (b : Bench) : Option (TimerHandle Delivery) :=
  b.wire.sched.top.filter fun h => h.deadline ≤ b.wire.sched.now

end Bench

/-- Time passes for both engines and the wire, which share a scheduler. -/
def benchMachine : Lib.Machine Bench BenchAction where
  step b
    | .act side a =>
      if a.Local then
        ((b.net.session side).next a).bind fun s => (b.settle side s).toOption
      else none
    | .tick dt =>
      (b.net.a.next (.tick dt)).bind fun sa => (b.net.b.next (.tick dt)).map fun sb =>
        { b with wire := b.wire.passTime dt, net := ⟨sa, sb⟩ }
    | .deliver =>
      b.due.bind fun h => ((b.net.session h.cb.target).next (.segment h.cb.data)).bind fun s =>
        ((b.hand h).settle h.cb.target s).toOption

/-! ## Each direction is a queue -/

namespace Lane

variable {l : Lane} {out : List (List UInt8)} {data : List UInt8} {seg : TcpSegment}

theorem passes_append (hp : TcpSegment.parse data = .ok seg) : l.passes (out ++ [data]) =
    l.passes out ++ if l.accepts seg out.length then [data] else [] := by
  rw [passes, List.zipIdx_append, List.filter_append, List.map_append]
  congr 1
  simp only [List.zipIdx_cons, List.zipIdx_nil, Nat.zero_add, List.filter_cons, List.filter_nil, hp]
  split <;> rfl

theorem passes_congr {l' : Lane} (h : l'.filter = l.filter) : l'.passes out = l.passes out := by
  have hacc (seg : TcpSegment) (n : Nat) : l'.accepts seg n = l.accepts seg n := by
    rw [accepts, accepts, h]
  simp only [passes, hacc]

theorem passes_sublist : (l.passes out).Sublist out := by
  have h := (List.filter_sublist (l := out.zipIdx) (p := fun p =>
    match TcpSegment.parse p.1 with
    | .ok seg => l.accepts seg p.2
    | .error _ => false)).map Prod.fst
  rwa [List.zipIdx_map_fst] at h

end Lane

namespace Wire

variable {w w' : Wire} {out heard : Side → List (List UInt8)} {data : List UInt8} {src dst : Side}
  {h : TimerHandle Delivery}

section Lanes

variable (w : Wire) (src dst : Side)

@[simp] theorem tally_sched : (w.tally dst).sched = w.sched := by cases dst <;> rfl
@[simp] theorem tally_delay : (w.tally dst).delay = w.delay := by cases dst <;> rfl
@[simp] theorem tally_dropped : (w.tally dst).dropped = w.dropped := by cases dst <;> rfl
@[simp] theorem tally_filter : ((w.tally dst).lane src).filter = (w.lane src).filter := by
  cases dst <;> cases src <;> rfl
@[simp] theorem tally_delivered : ((w.tally dst).lane src).delivered = (w.lane src).delivered := by
  cases dst <;> cases src <;> rfl
theorem tally_count : ((w.tally dst).lane src).count =
    (w.lane src).count + if src = dst then 1 else 0 := by
  cases dst <;> cases src <;> rfl

@[simp] theorem credit_sched : (w.credit dst).sched = w.sched := by cases dst <;> rfl
@[simp] theorem credit_delay : (w.credit dst).delay = w.delay := by cases dst <;> rfl
@[simp] theorem credit_dropped : (w.credit dst).dropped = w.dropped := by cases dst <;> rfl
@[simp] theorem credit_filter : ((w.credit dst).lane src).filter = (w.lane src).filter := by
  cases dst <;> cases src <;> rfl
@[simp] theorem credit_count : ((w.credit dst).lane src).count = (w.lane src).count := by
  cases dst <;> cases src <;> rfl
theorem credit_delivered : ((w.credit dst).lane src).delivered =
    (w.lane src).delivered + if src = dst then 1 else 0 := by
  cases dst <;> cases src <;> rfl

end Lanes

/-- The wire between what has been transmitted towards either side and what it has handed over. -/
structure Conveys (w : Wire) (out heard : Side → List (List UInt8)) : Prop where
  early : w.sched.heap.Pairwise fun g h => g.deadline ≤ h.deadline ∧ g.id < h.id
  late : ∀ h ∈ w.sched.heap, h.deadline ≤ w.sched.now + w.delay ∧ h.id < w.sched.counter
  count : ∀ dst, (w.lane dst).count = (out dst).length
  delivered : ∀ dst, (w.lane dst).delivered = (heard dst).length
  line : ∀ dst, heard dst ++ w.inFlight dst = (w.lane dst).passes (out dst)
  balance : w.dropped + w.sched.heap.length + (heard .a).length + (heard .b).length =
    (out .a).length + (out .b).length

/-- The first to be handed over is the first on the heap. -/
theorem Conveys.top (hw : w.Conveys out heard) : w.sched.top = w.sched.heap.head? := by
  cases hh : w.sched.heap with
  | nil => rw [ManualScheduler.top, hh, List.argmin_nil, List.head?_nil]
  | cons g rest =>
    have hne : w.sched.top ≠ none := by
      rw [ManualScheduler.top, hh, Ne, List.argmin_eq_none]
      simp
    obtain ⟨f, hf⟩ := Option.ne_none_iff_exists'.mp hne
    rw [hf, List.head?_cons]
    have hmem := World.top_mem hf
    rw [hh] at hmem
    rcases List.mem_cons.mp hmem with rfl | hmem
    · rfl
    · exfalso
      have hearly := hw.early
      rw [hh] at hearly
      obtain ⟨hle, hid⟩ := (List.pairwise_cons.mp hearly).1 f hmem
      have hg : g ∈ w.sched.heap := by
        rw [hh]
        exact List.mem_cons_self
      rcases Prod.Lex.le_iff.mp (World.top_le hf hg) with hlt | ⟨-, hlt⟩
      · exact absurd hle (not_le_of_gt hlt)
      · exact absurd hid (not_lt_of_ge hlt)

theorem Conveys.passTime (hw : w.Conveys out heard) {dt : ℚ} (hdt : 0 ≤ dt) :
    (w.passTime dt).Conveys out heard := by
  refine ⟨hw.early, fun h hh => ?_, hw.count, hw.delivered, hw.line, hw.balance⟩
  obtain ⟨hd, hi⟩ := hw.late h hh
  refine ⟨?_, hi⟩
  show h.deadline ≤ w.sched.now + dt + w.delay
  linarith

theorem length_update (out : Side → List (List UInt8)) (dst : Side) (data : List UInt8) :
    (Function.update out dst (out dst ++ [data]) .a).length +
      (Function.update out dst (out dst ++ [data]) .b).length =
        (out .a).length + (out .b).length + 1 := by
  cases dst
  · simp [Nat.add_right_comm]
  · simp [Nat.add_assoc]

theorem length_update_at (out : Side → List (List UInt8)) (dst src : Side) (data : List UInt8) :
    (Function.update out dst (out dst ++ [data]) src).length =
      (out src).length + if src = dst then 1 else 0 := by
  by_cases hs : src = dst
  · subst hs
    simp
  · simp [hs]

theorem callLater_heap (s : ManualScheduler Delivery) (v : Delivery) {delay : ℚ}
    (hd : 0 ≤ delay) :
    (s.callLater delay v).2.heap = s.heap ++ [⟨s.counter, s.now + delay, v, false⟩] := by
  show s.heap ++ [_] = _
  rw [if_neg (not_lt.mpr hd)]

/-- One more segment is transmitted. -/
theorem Conveys.enqueue (hw : w.Conveys out heard) (hd : 0 ≤ w.delay)
    (he : w.enqueue data dst = .ok w') :
    w'.Conveys (Function.update out dst (out dst ++ [data])) heard ∧ w'.delay = w.delay := by
  unfold Wire.enqueue at he
  cases hp : TcpSegment.parse data with
  | error err =>
    rw [hp] at he
    cases he
  | ok seg =>
    rw [hp] at he
    dsimp only at he
    have haccepts : ((w.tally dst).lane dst).accepts seg (w.lane dst).count =
        (w.lane dst).accepts seg (out dst).length := by
      rw [Lane.accepts, tally_filter, hw.count]
      rfl
    have hpass (src : Side) : ((w.tally dst).lane src).passes
          (Function.update out dst (out dst ++ [data]) src) =
        (w.lane src).passes (out src) ++
          if src = dst ∧ (w.lane dst).accepts seg (out dst).length = true then [data]
          else [] := by
      rw [Lane.passes_congr (tally_filter w src dst)]
      by_cases hs : src = dst
      · subst hs
        rw [Function.update_self, Lane.passes_append hp]
        simp
      · rw [Function.update_of_ne hs]
        simp [hs]
    have hlength := length_update out dst data
    have hbalance := hw.balance
    split_ifs at he with hacc
    · obtain rfl := Except.ok.inj he
      rw [haccepts] at hacc
      have hsched := callLater_heap (w.tally dst).sched ⟨dst, data⟩ (tally_delay w dst ▸ hd)
      rw [tally_sched, tally_delay] at hsched
      refine ⟨⟨?_, ?_, fun src => ?_, fun src => ?_, fun src => ?_, ?_⟩, tally_delay w dst⟩
      · rw [tally_sched, tally_delay, hsched]
        apply List.pairwise_append.mpr
        refine ⟨hw.early, List.pairwise_singleton _ _, fun g hg h hh => ?_⟩
        obtain rfl := List.mem_singleton.mp hh
        exact hw.late g hg
      · intro h hh
        rw [tally_sched, tally_delay, hsched] at hh
        show h.deadline ≤ (w.tally dst).sched.now + (w.tally dst).delay ∧
          h.id < (w.tally dst).sched.counter + 1
        rw [tally_sched, tally_delay]
        rcases List.mem_append.mp hh with hh | hh
        · obtain ⟨hlate, hid⟩ := hw.late h hh
          exact ⟨hlate, Nat.lt_succ_of_lt hid⟩
        · obtain rfl := List.mem_singleton.mp hh
          exact ⟨le_rfl, Nat.lt_succ_self _⟩
      · exact (tally_count w src dst).trans (by rw [hw.count, length_update_at])
      · exact (tally_delivered w src dst).trans (hw.delivered src)
      · show _ = ((w.tally dst).lane src).passes _
        rw [hpass, ← hw.line, List.append_assoc, inFlight, inFlight, tally_sched, tally_delay,
          hsched, List.filter_append, List.map_append]
        congr 2
        by_cases hs : src = dst
        · subst hs
          simp [hacc]
        · simp [hs, Ne.symm hs]
      · rw [tally_sched, tally_delay, hsched, tally_dropped, List.length_append,
          List.length_singleton]
        omega
    · obtain rfl := Except.ok.inj he
      rw [haccepts] at hacc
      refine ⟨⟨?_, ?_, fun src => ?_, fun src => ?_, fun src => ?_, ?_⟩, tally_delay w dst⟩
      · rw [tally_sched]
        exact hw.early
      · rw [tally_sched, tally_delay]
        exact hw.late
      · exact (tally_count w src dst).trans (by rw [hw.count, length_update_at])
      · exact (tally_delivered w src dst).trans (hw.delivered src)
      · show _ = ((w.tally dst).lane src).passes _
        rw [hpass, ← hw.line, if_neg (fun h => hacc h.2), List.append_nil, inFlight, inFlight,
          tally_sched]
      · show (w.tally dst).dropped + 1 + (w.tally dst).sched.heap.length + (heard .a).length +
          (heard .b).length = _
        rw [tally_sched, tally_dropped]
        omega

theorem Conveys.enqueueAll {l : List (List UInt8)} (hw : w.Conveys out heard) (hd : 0 ≤ w.delay)
    (he : l.foldlM (fun w data => w.enqueue data dst) w = .ok w') :
    w'.Conveys (Function.update out dst (out dst ++ l)) heard ∧ w'.delay = w.delay := by
  induction l generalizing w out with
  | nil =>
    obtain rfl := Except.ok.inj he
    rw [List.append_nil, Function.update_eq_self]
    exact ⟨hw, rfl⟩
  | cons data l ih =>
    rw [List.foldlM_cons] at he
    cases hq : w.enqueue data dst with
    | error err =>
      rw [hq] at he
      cases he
    | ok w₁ =>
      rw [hq] at he
      obtain ⟨h₁, hdelay⟩ := hw.enqueue hd hq
      obtain ⟨h', hdelay'⟩ := ih h₁ (hdelay ▸ hd) he
      rw [Function.update_self, Function.update_idem, List.append_assoc,
        List.singleton_append] at h'
      exact ⟨h', hdelay'.trans hdelay⟩

/-- What comes off the heap is the oldest of its direction. -/
theorem Conveys.took (hw : w.Conveys out heard) (ht : w.sched.top = some h) :
    (w.took h).Conveys out
      (Function.update heard h.cb.target (heard h.cb.target ++ [h.cb.data])) := by
  rw [hw.top, List.head?_eq_some_iff] at ht
  obtain ⟨rest, hrest⟩ := ht
  have hearly := hw.early
  rw [hrest] at hearly
  obtain ⟨hfirst, htail⟩ := List.pairwise_cons.mp hearly
  have hpop : (w.sched.pop h.id).heap = rest := by
    show w.sched.heap.filter _ = rest
    rw [hrest, List.filter_cons_of_neg (by simp), List.filter_eq_self]
    intro g hg
    have := (hfirst g hg).2
    simp only [bne_iff_ne]
    omega
  have hheap : (w.took h).sched.heap = rest := by
    show (credit _ _).sched.heap = rest
    rw [credit_sched]
    exact hpop
  have hlength := length_update heard h.cb.target h.cb.data
  have hbalance := hw.balance
  refine ⟨?_, ?_, fun src => ?_, fun src => ?_, fun src => ?_, ?_⟩
  · rw [hheap]
    exact htail
  · intro g hg
    rw [hheap] at hg
    have hlate := hw.late g (by rw [hrest]; exact List.mem_cons_of_mem _ hg)
    show g.deadline ≤ (credit _ _).sched.now + (credit _ _).delay ∧
      g.id < (credit _ _).sched.counter
    rw [credit_sched, credit_delay]
    exact hlate
  · exact (credit_count _ src _).trans (hw.count src)
  · rw [length_update_at, ← hw.delivered]
    exact credit_delivered _ src _
  · have hline := hw.line src
    rw [inFlight, hrest] at hline
    show _ = ((credit _ _).lane src).passes _
    rw [Lane.passes_congr (credit_filter _ src _), inFlight, hheap]
    refine Eq.trans ?_ hline
    by_cases hs : h.cb.target = src
    · subst hs
      simp
    · rw [Function.update_of_ne (Ne.symm hs), List.filter_cons_of_neg (by simpa using hs)]
  · rw [hheap]
    show (credit _ _).dropped + _ + _ + _ = _
    rw [credit_dropped]
    show w.dropped + _ + _ + _ = _
    rw [hrest, List.length_cons] at hbalance
    omega

/-- Only octets that do not decode are refused. -/
theorem enqueueAll_ok {l : List (List UInt8)}
    (hl : ∀ data ∈ l, ∃ seg, TcpSegment.parse data = .ok seg) :
    ∃ w', l.foldlM (fun w data => w.enqueue data dst) w = .ok w' := by
  induction l generalizing w with
  | nil => exact ⟨w, rfl⟩
  | cons data l ih =>
    obtain ⟨seg, hp⟩ := hl data List.mem_cons_self
    have hq : ∃ w₁, w.enqueue data dst = .ok w₁ := by
      unfold Wire.enqueue
      rw [hp]
      dsimp only
      split
      · exact ⟨_, rfl⟩
      · exact ⟨_, rfl⟩
    obtain ⟨w₁, hq⟩ := hq
    rw [List.foldlM_cons, hq]
    exact ih fun d hd => hl d (List.mem_cons_of_mem _ hd)

end Wire

/-! ## The engines on it -/

namespace Session

variable {s s' : Session} {a : Action}

theorem next_cases (h : s.next a = some s') : ∃ e', engineMachine.step s.eng a = some e' ∧
    s' = { eng := e', written := s.written ++ a.accepted e',
           used := s.used || decide (¬ e'.Outside) } := by
  obtain ⟨e', he, rfl⟩ := Option.map_eq_some_iff.mp h
  exact ⟨e', he, rfl⟩

/-- While the connection is not over, this is the step of a connection. -/
theorem step_of_next (hlive : ¬ (s.used = true ∧ s.eng.Outside)) :
    connectionMachine.step s a = s.next a := by
  simp only [connectionMachine]
  rw [if_neg hlive]
  rfl

/-- What the wire relies on. -/
structure Proper (s : Session) : Prop where
  ready : s.eng.Ready
  unadorned : ∀ ev ∈ s.eng.env.log, ev.Unadorned

theorem Proper.next (h : s.Proper) (hs : s.next a = some s') :
    s'.Proper ∧ s.wire <+: s'.wire := by
  obtain ⟨e', he, rfl⟩ := next_cases hs
  refine ⟨⟨h.ready.step he, TcpEngine.step_unadorned h.ready he h.unadorned⟩, ?_⟩
  have hlog := (TcpEngine.Path.grew (h.ready.path he)).1
  rw [TcpEngine.begin_log] at hlog
  exact hlog.filterMap _

/-- Time alone changes nothing but the clock. -/
theorem next_tick {dt : ℚ} (h : s.next (.tick dt) = some s') : 0 ≤ dt ∧ s' =
    { eng := s.eng.enter.passTime dt, written := s.written,
      used := s.used || decide (¬ s.eng.Outside) } := by
  obtain ⟨e', he, rfl⟩ := next_cases h
  simp only [engineMachine] at he
  split_ifs at he with hdt
  obtain rfl := Option.some.inj he
  refine ⟨hdt, ?_⟩
  have hacc : (Action.tick dt).accepted (s.eng.enter.perform (.tick dt)) = [] := by
    unfold Action.accepted
    split <;> rfl
  rw [hacc, List.append_nil]
  rfl

theorem Proper.parses (h : s.Proper) {data : List UInt8} (hd : data ∈ s.wire) :
    ∃ seg, TcpSegment.parse data = .ok seg := by
  obtain ⟨seg, hmem, hb⟩ := mem_wire hd
  obtain ⟨hws, hraw⟩ := h.unadorned _ hmem seg rfl
  exact ⟨_, parse_of_build hb hws hraw⟩

end Session

namespace Bench

variable {b b' : Bench} {side dst : Side} {s : Session} {act : BenchAction} {a : Action}

/-- What has been transmitted towards a side. -/
def out (b : Bench) (dst : Side) : List (List UInt8) := (b.net.peer dst).wire

structure Lined (b : Bench) : Prop where
  delay : 0 ≤ b.wire.delay
  proper : ∀ side, (b.net.session side).Proper
  conveys : b.wire.Conveys b.out b.heard

theorem out_put (b : Bench) (side : Side) (s : Session) :
    (fun dst => ((b.net.put s side).peer dst).wire) = Function.update b.out side.other s.wire := by
  funext dst
  cases side <;> cases dst <;> rfl

theorem session_put (b : Bench) (side src : Side) (s : Session) :
    (b.net.put s side).session src = if src = side then s else b.net.session src := by
  cases side <;> cases src <;> rfl

/-- What a side has transmitted in a step goes on the wire, all of it. -/
theorem Lined.settles (h : b.Lined) (hs : (b.net.session side).next a = some s) :
    ∃ b', b.settle side s = .ok b' ∧ b'.Lined ∧ b'.net = b.net.put s side ∧
      b'.heard = b.heard := by
  obtain ⟨hproper, hgrow⟩ := (h.proper side).next hs
  have hsplit := List.prefix_iff_eq_append.mp hgrow
  have hparse : ∀ data ∈ s.wire.drop (b.net.session side).wire.length,
      ∃ seg, TcpSegment.parse data = .ok seg :=
    fun data hd => hproper.parses (List.mem_of_mem_drop hd)
  obtain ⟨w, hw⟩ : ∃ w, (s.wire.drop (b.net.session side).wire.length).foldlM
      (fun w data => w.enqueue data side.other) b.wire = .ok w := Wire.enqueueAll_ok hparse
  obtain ⟨hconveys, hdelay⟩ := h.conveys.enqueueAll h.delay hw
  have hout : b.out side.other = (b.net.session side).wire := by cases side <;> rfl
  rw [hout, hsplit] at hconveys
  refine ⟨{ b with wire := w, net := b.net.put s side }, ?_, ⟨?_, ?_, ?_⟩, rfl, rfl⟩
  · unfold settle
    rw [hw]
  · rw [hdelay]
    exact h.delay
  · intro src
    rw [session_put]
    split
    · exact hproper
    · exact h.proper src
  · show w.Conveys (fun dst => ((b.net.put s side).peer dst).wire) b.heard
    rw [out_put]
    exact hconveys

theorem Lined.hand (h : b.Lined) {g : TimerHandle Delivery} (hg : b.due = some g) :
    (b.hand g).Lined := by
  have ht : b.wire.sched.top = some g := (Option.filter_eq_some_iff.mp hg).1
  refine ⟨?_, h.proper, h.conveys.took ht⟩
  show 0 ≤ (Wire.credit _ _).delay
  rw [Wire.credit_delay]
  exact h.delay

/-- What each kind of step does. -/
theorem step_cases (h : b.Lined) (hs : benchMachine.step b act = some b') :
    b'.Lined ∧
    ((∃ side a s, act = .act side a ∧ a.Local ∧ (b.net.session side).next a = some s ∧
        b'.net = b.net.put s side ∧ b'.heard = b.heard) ∨
      (∃ dt sa sb, act = .tick dt ∧ b.net.a.next (.tick dt) = some sa ∧
        b.net.b.next (.tick dt) = some sb ∧ b'.net = ⟨sa, sb⟩ ∧ b'.heard = b.heard) ∨
      ∃ g s, act = .deliver ∧ b.due = some g ∧
        (b.net.session g.cb.target).next (.segment g.cb.data) = some s ∧
        b'.net = b.net.put s g.cb.target ∧ b'.heard = (b.hand g).heard) := by
  cases act with
  | act side a =>
    simp only [benchMachine] at hs
    split_ifs at hs with hl
    obtain ⟨s, hn, hs⟩ := Option.bind_eq_some_iff.mp hs
    obtain ⟨b₁, hb, hlined, hnet, hheard⟩ := h.settles hn
    rw [hb] at hs
    obtain rfl := Option.some.inj hs
    exact ⟨hlined, Or.inl ⟨side, a, s, rfl, hl, hn, hnet, hheard⟩⟩
  | tick dt =>
    simp only [benchMachine] at hs
    obtain ⟨sa, ha, hs⟩ := Option.bind_eq_some_iff.mp hs
    obtain ⟨sb, hb, rfl⟩ := Option.map_eq_some_iff.mp hs
    obtain ⟨hdt, hsa⟩ := Session.next_tick ha
    obtain ⟨-, hsb⟩ := Session.next_tick hb
    refine ⟨⟨h.delay, fun side => ?_, ?_⟩,
      Or.inr (Or.inl ⟨dt, sa, sb, rfl, ha, hb, rfl, rfl⟩)⟩
    · cases side with
      | a => exact ((h.proper .a).next ha).1
      | b => exact ((h.proper .b).next hb).1
    · have hout : out { b with wire := b.wire.passTime dt, net := ⟨sa, sb⟩ } = b.out := by
        funext dst
        rw [hsa, hsb]
        cases dst <;> rfl
      rw [hout]
      exact h.conveys.passTime hdt
  | deliver =>
    simp only [benchMachine] at hs
    obtain ⟨g, hg, hs⟩ := Option.bind_eq_some_iff.mp hs
    obtain ⟨s, hn, hs⟩ := Option.bind_eq_some_iff.mp hs
    obtain ⟨b₁, hb, hlined, hnet, hheard⟩ := (h.hand hg).settles hn
    rw [hb] at hs
    obtain rfl := Option.some.inj hs
    exact ⟨hlined, Or.inr (Or.inr ⟨g, s, rfl, hg, hn, hnet, hheard⟩)⟩

theorem lined_step (h : b.Lined) (hs : benchMachine.step b act = some b') : b'.Lined :=
  (step_cases h hs).1

/-- Two engines that have just been made, on a wire that has carried nothing. -/
def start (a b : EngineArgs) (delay : ℚ) (ab ba : Option (TcpSegment → Nat → Bool)) : Bench :=
  { wire := { delay := delay, ab := { filter := ab }, ba := { filter := ba } }
    net := Network.start a b {} {} 0 0 }

/-- Two engines with a wire between them. -/
def joined (n : Network) (delay : ℚ) (ab ba : Option (TcpSegment → Nat → Bool)) : Bench where
  wire := { delay := delay, ab := { filter := ab }, ba := { filter := ba } }
  net := n

/-- A wire between two engines that have not transmitted anything. -/
theorem lined_joined {n : Network} {delay : ℚ} (hd : 0 ≤ delay)
    (ab ba : Option (TcpSegment → Nat → Bool)) (hr : ∀ side, (n.session side).eng.Ready)
    (hq : ∀ side, (n.session side).eng.env.log = []) : (joined n delay ab ba).Lined := by
  have hproper (side : Side) : (n.session side).Proper := by
    refine ⟨hr side, fun ev hev => ?_⟩
    rw [hq side] at hev
    cases hev
  have hwire (side : Side) : (n.session side).wire = [] := by
    rw [Session.wire, hq side]
    rfl
  have hout (dst : Side) : (joined n delay ab ba).out dst = [] := by
    cases dst with
    | a => exact hwire .b
    | b => exact hwire .a
  refine ⟨hd, hproper, List.Pairwise.nil, fun g hg => absurd hg List.not_mem_nil, ?_, ?_, ?_, ?_⟩
  · intro dst
    rw [hout]
    cases dst <;> rfl
  · intro dst
    cases dst <;> rfl
  · intro dst
    rw [hout]
    cases dst <;> rfl
  · rw [hout, hout]
    rfl

theorem lined_start (a b : EngineArgs) {delay : ℚ} (hd : 0 ≤ delay)
    (ab ba : Option (TcpSegment → Nat → Bool)) : (start a b delay ab ba).Lined := by
  apply lined_joined hd ab ba
  · intro side
    cases side with
    | a => exact TcpEngine.ready_init a {} 0
    | b => exact TcpEngine.ready_init b {} 0
  · intro side
    cases side <;> rfl

/-- Each direction is a queue, the counts are right, and what an engine transmits always
decodes. -/
structure Queues (b : Bench) : Prop where
  line : ∀ dst, b.heard dst ++ b.wire.inFlight dst =
    (b.wire.lane dst).passes (b.net.peer dst).wire
  counted : ∀ dst, (b.wire.lane dst).count = (b.net.peer dst).wire.length
  delivered : ∀ dst, (b.wire.lane dst).delivered = (b.heard dst).length
  balance : b.wire.dropped + b.wire.sched.heap.length + b.wire.ab.delivered + b.wire.ba.delivered =
    b.wire.ab.count + b.wire.ba.count
  settles : ∀ side a s, (b.net.session side).next a = some s → ∃ b', b.settle side s = .ok b'

theorem Lined.queues (h : b.Lined) : b.Queues where
  line := h.conveys.line
  counted := h.conveys.count
  delivered := h.conveys.delivered
  balance := by
    have h1 : b.wire.ab.delivered = _ := h.conveys.delivered .b
    have h2 : b.wire.ba.delivered = _ := h.conveys.delivered .a
    have h3 : b.wire.ab.count = _ := h.conveys.count .b
    have h4 : b.wire.ba.count = _ := h.conveys.count .a
    have := h.conveys.balance
    omega
  settles side a s hs := by
    obtain ⟨b', hb, -⟩ := h.settles hs
    exact ⟨b', hb⟩

end Bench

/-- Whatever the filters drop and whenever the deliveries are made: each direction of the wire
hands over what it lets through once each and in order. -/
theorem wire_queues (a b : EngineArgs) (delay : ℚ) (hd : 0 < delay)
    (ab ba : Option (TcpSegment → Nat → Bool)) (acts : List BenchAction) (s : Bench)
    (hr : benchMachine.run (.start a b delay ab ba) acts = some s) : s.Queues :=
  (benchMachine.invariant_run (fun _ _ _ h hs => Bench.lined_step h hs)
    (Bench.lined_start a b (le_of_lt hd) ab ba) hr).queues

/-- The third segment from the client, its first with text, is lost. -/
def dropThird : Option (TcpSegment → Nat → Bool) := some fun _ n => n != 2

def lossyStart : Bench := .start clientArgs serverArgs (1 / 1000) dropThird none

/-- The handshake, two bytes that are lost, and their retransmission. -/
def lossyRun : List BenchAction :=
  [.act .b .passiveOpen, .act .a .activeOpen, .tick (1 / 1000), .deliver, .tick (1 / 1000),
    .deliver, .tick (1 / 1000), .deliver, .act .a (.send [7, 8] true false none), .tick 1,
    .act .a (.expire ⟨1, 1003 / 1000, .onRto, false⟩), .tick (1 / 1000), .deliver]

theorem lossy_run_queues : ∃ s, benchMachine.run lossyStart lossyRun = some s ∧ s.Queues ∧
    s.wire.dropped = 1 ∧ s.wire.ab.count = 4 ∧ (s.heard .b).length = 3 := by
  have h : (benchMachine.run lossyStart lossyRun).map
      (fun s => (s.wire.dropped, s.wire.ab.count, (s.heard .b).length)) = some (1, 4, 3) := by
    decide +kernel
  obtain ⟨s, hs, hv⟩ := Option.map_eq_some_iff.mp h
  simp only [Prod.mk.injEq] at hv
  exact ⟨s, hs,
    wire_queues clientArgs serverArgs (1 / 1000) (by norm_num) dropThird none lossyRun s hs, hv⟩

/-! ## A network like any other -/

namespace Session

variable {s s' src dst : Session} {a : Action}

/-- The connection is over. -/
def Over (s : Session) : Prop := s.used = true ∧ s.eng.Outside

instance (s : Session) : Decidable s.Over := inferInstanceAs (Decidable (_ ∧ _))

/-- Time passes for an engine whose connection is over. -/
theorem over_tick {dt : ℚ} (ho : s.Over) (h : s.next (.tick dt) = some s') :
    s' = { s with eng := s.eng.enter.passTime dt } := by
  obtain ⟨-, rfl⟩ := next_tick h
  rw [ho.1, Bool.true_or]

theorem Valid.tick {dt : ℚ} (hv : s.Valid) (ho : s.Over) (h : s.next (.tick dt) = some s') :
    s'.Valid := by
  have hkept : s'.eng.Kept := by
    obtain ⟨e', he, rfl⟩ := next_cases h
    exact hv.sound.kept.step he
  obtain rfl := over_tick ho h
  exact ⟨⟨hkept, fun hu => absurd (ho.1.symm.trans hu) (by decide),
    fun _ hin => absurd ho.2 hin, hv.sound.emitted⟩, hv.unadorned, hv.small⟩

theorem Tracks.tick {dt : ℚ} (h : Tracks src dst) (ho : dst.Over)
    (hs : dst.next (.tick dt) = some s') : Tracks src s' := by
  obtain rfl := over_tick ho hs
  have hover {x : Int} {w : List UInt8} {done : Prop} (ha : dst.Aligned x w done) :
      Aligned x w done { dst with eng := dst.eng.enter.passTime dt } :=
    ⟨ha.stage, fun hx => absurd ⟨ho.1, ho.2⟩ hx⟩
  unfold Tracks at h ⊢
  split
  · next hu =>
    rw [if_pos hu] at h
    exact hover h
  · next hu =>
    rw [if_neg hu] at h
    exact fun x w done hw => hover (h x w done hw)

end Session

namespace Network

variable {n : Network} {side : Side} {a : Action} {s : Session}

theorem Good.next (h : n.Good) (hlive : ¬ (n.session side).Over) (hb : n.Bounded (side, a))
    (hc : Carried (n.peer side) a) (hs : (n.session side).next a = some s) :
    (n.put s side).Good := by
  apply good_preserves n (side, a) _ h hb
  simp only [networkMachine]
  rw [if_pos hc, Session.step_of_next hlive, hs]
  rfl

/-- Time passes for either side, whether its connection is over or not. -/
theorem Good.tick (h : n.Good) {dt : ℚ} (hs : (n.session side).next (.tick dt) = some s) :
    (n.put s side).Good := by
  by_cases ho : (n.session side).Over
  · obtain ⟨-, hs'⟩ := Session.next_tick hs
    have hover := Session.over_tick ho hs
    cases side with
    | a =>
      refine ⟨h.a.tick ho hs, h.b, ?_, h.ba.tick ho hs⟩
      rw [hover]
      exact h.ab
    | b =>
      refine ⟨h.a, h.b.tick ho hs, h.ab.tick ho hs, ?_⟩
      rw [hover]
      exact h.ba
  · have hc : Carried (n.peer side) (.tick dt) := True.intro
    refine h.next ho ⟨fun hl => hl.2.1 rfl, ?_⟩ hc hs
    cases side with
    | a => exact h.a.small
    | b => exact h.b.small

end Network

namespace Bench

variable {b b' : Bench} {act : BenchAction}

/-- Nobody whose connection is over acts or is handed anything, no SEND is lost before the
connection, and the streams stay shorter than half the sequence space. -/
def Current (b : Bench) : BenchAction → Prop
  | .act side a => ¬ (b.net.session side).Over ∧ b.net.Bounded (side, a)
  | .tick _ => True
  | .deliver => ∀ g ∈ b.due, ¬ (b.net.session g.cb.target).Over

instance (b : Bench) : (act : BenchAction) → Decidable (b.Current act)
  | .act _ _ => inferInstanceAs (Decidable (_ ∧ _))
  | .tick _ => inferInstanceAs (Decidable True)
  | .deliver => inferInstanceAs (Decidable (∀ g ∈ b.due, _))

/-- What is handed over has been transmitted by the other side. -/
theorem Lined.carried (h : b.Lined) {g : TimerHandle Delivery} (hg : b.due = some g) :
    g.cb.data ∈ (b.net.peer g.cb.target).wire := by
  have hmem : g ∈ b.wire.sched.heap := World.top_mem (Option.filter_eq_some_iff.mp hg).1
  have hin : g.cb.data ∈ b.wire.inFlight g.cb.target :=
    List.mem_map.mpr ⟨g, List.mem_filter.mpr ⟨hmem, by simp⟩, rfl⟩
  have hpass : g.cb.data ∈ (b.wire.lane g.cb.target).passes (b.out g.cb.target) := by
    rw [← h.conveys.line]
    exact List.mem_append_right _ hin
  exact Lane.passes_sublist.subset hpass

theorem good_step (h : b.Lined) (hg : b.net.Good) (hc : b.Current act)
    (hs : benchMachine.step b act = some b') : b'.net.Good := by
  rcases (step_cases h hs).2 with ⟨side, a, s, rfl, hl, hn, hnet, -⟩ |
    ⟨dt, sa, sb, rfl, ha, hb, hnet, -⟩ | ⟨g, s, rfl, hdue, hn, hnet, -⟩
  · rw [hnet]
    refine hg.next hc.1 hc.2 ?_ hn
    cases a with
    | segment data => exact hl.elim
    | _ => exact True.intro
  · rw [hnet]
    have h1 : (b.net.put sa .a).Good := hg.tick ha
    have h2 : ((b.net.put sa .a).put sb .b).Good := h1.tick hb
    exact h2
  · rw [hnet]
    have hcar : Network.Carried (b.net.peer g.cb.target) (.segment g.cb.data) :=
      Or.inl (h.carried hdue)
    refine hg.next (hc g hdue) ⟨fun hl => hl.2.1 rfl, ?_⟩ hcar hn
    cases g.cb.target with
    | a => exact hg.a.small
    | b => exact hg.b.small

end Bench

/-- On the wire, too, either user is given a prefix of what the other has written, and all of it
where the end of the stream has been signalled. -/
theorem wire_streams_faithful (a b : EngineArgs) (delay : ℚ) (hd : 0 < delay)
    (ab ba : Option (TcpSegment → Nat → Bool)) (hma : 1 ≤ a.sndMss) (hmb : 1 ≤ b.sndMss)
    (acts : List BenchAction)
    (hC : benchMachine.AllSteps Bench.Current (.start a b delay ab ba) acts) :
    benchMachine.Throughout (fun s => s.net.Faithful) (.start a b delay ab ba) acts := by
  have hpres : benchMachine.Preserves Bench.Current fun s => s.Lined ∧ s.net.Good :=
    fun _ _ _ h hc hs => ⟨Bench.lined_step h.1 hs, Bench.good_step h.1 h.2 hc hs⟩
  exact (hpres.throughout ⟨Bench.lined_start a b (le_of_lt hd) ab ba,
    Network.good_start a b {} {} 0 0 rfl rfl hma hmb⟩ hC).mono fun _ h => h.2.faithful

theorem lossy_run_faithful :
    benchMachine.Throughout (fun s => s.net.Faithful) lossyStart lossyRun ∧
      ∃ s, benchMachine.run lossyStart lossyRun = some s ∧ s.net.b.eng.delivered = [7, 8] := by
  constructor
  · exact wire_streams_faithful clientArgs serverArgs (1 / 1000) (by norm_num) dropThird none
      (by decide) (by decide) lossyRun (by decide +kernel)
  · have h : (benchMachine.run lossyStart lossyRun).map (fun s => s.net.b.eng.delivered) =
        some [7, 8] := by
      decide +kernel
    exact Option.map_eq_some_iff.mp h

end HdlPlayground.Tcp

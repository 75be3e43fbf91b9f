import Mathlib.Data.List.Nodup
import HdlPlayground.Lib.Agenda
import HdlPlayground.Lib.Machine

/-!
# The spoof clock

`SpoofClock` of `ports/sim_clock.py`, which stands in for the simulator's time service. The
tasks of the event loop are its client: they register waits and cancel them while the loop
settles, and nothing is ready to run once it has settled. A cancelled wait stays in the heap
until it comes to the top.
-/
namespace HdlPlayground.Cosim

open Lib

/-- A heap entry `(deadline, next(self._counter), fut)`. -/
structure ClockEntry where
  deadline : Int
  order : Nat
  fut : Nat
deriving DecidableEq

structure SpoofClock where
  nowNs : Int := 0
  heap : List ClockEntry := []
  counter : Nat := 0

inductive ClockOp where
  | waitNs (delayNs : Int)
  | cancel (fut : Nat)

/-- The clock with the tasks that use it. A future is numbered by its making, and is done or
cancelled or neither. -/
structure ClockWorld (σ : Type) where
  clock : SpoofClock := {}
  futs : Nat := 0
  done : List Nat := []
  cancelled : List Nat := []
  client : σ
  history : List (Note Int) := []

/-- The tasks of the event loop. A result makes a task ready; settling runs all ready tasks,
and leaves none whatever the time. -/
structure Tasks (σ : Type) where
  wake : σ → Nat → σ
  settle : σ → Int → Nat → σ × List ClockOp
  settled : ∀ c t n t' n', settle (settle c t n).1 t' n' = ((settle c t n).1, [])

namespace SpoofClock

def key (e : ClockEntry) : Int ×ₗ ℕ := toLex (e.deadline, e.order)

/-- `self._heap[0]`. -/
def top (heap : List ClockEntry) : Option ClockEntry := heapTop key heap

/-- The loop of `_pop_live`, with as many rounds as there are entries. -/
def popLive (cancelled : List Nat) : Nat → List ClockEntry → Option ClockEntry × List ClockEntry
  | 0, heap => (none, heap)
  | n + 1, heap =>
    match top heap with
    | none => (none, heap)
    | some e =>
      let rest := heap.filter fun f => f.order != e.order
      if e.fut ∈ cancelled then popLive cancelled n rest else (some e, rest)

end SpoofClock

namespace ClockWorld

open SpoofClock

variable {σ : Type}

def now (w : ClockWorld σ) : Int := w.clock.nowNs

def setNow (w : ClockWorld σ) (t : Int) : ClockWorld σ := { w with clock.nowNs := t }

def setHeap (w : ClockWorld σ) (heap : List ClockEntry) : ClockWorld σ :=
  { w with clock.heap := heap }

/-- `wait_ns`, and the cancelling of a future, which does nothing to one that is done. -/
def act (w : ClockWorld σ) : ClockOp → ClockWorld σ
  | .waitNs delayNs =>
    { w with
      clock.heap := w.clock.heap ++ [⟨w.now + max 0 delayNs, w.clock.counter, w.futs⟩]
      clock.counter := w.clock.counter + 1
      futs := w.futs + 1
      history := w.history ++ [.registered ⟨w.now + max 0 delayNs, w.futs⟩] }
  | .cancel i =>
    if i < w.futs ∧ i ∉ w.done ∧ i ∉ w.cancelled then
      { w with cancelled := i :: w.cancelled, history := w.history ++ [.cancelled i] }
    else w

/-- `_settle`. -/
def settle (tasks : Tasks σ) (w : ClockWorld σ) : ClockWorld σ :=
  (tasks.settle w.client w.now w.futs).2.foldl act
    { w with client := (tasks.settle w.client w.now w.futs).1 }

/-- The clock goes to the deadline, and the future gets its result. -/
def wakeUp (tasks : Tasks σ) (w : ClockWorld σ) (e : ClockEntry) (rest : List ClockEntry) :
    ClockWorld σ :=
  { w with
    clock.nowNs := max w.now e.deadline
    clock.heap := rest
    done := e.fut :: w.done
    client := tasks.wake w.client e.fut
    history := w.history ++ [.woken ⟨e.deadline, e.fut⟩ (max w.now e.deadline)] }

/-- `heapq.heappush(self._heap, (deadline, next(self._counter), fut))`: the entry goes back
with a new number. -/
def pushBack (w : ClockWorld σ) (e : ClockEntry) (rest : List ClockEntry) : ClockWorld σ :=
  { w with
    clock.heap := rest ++ [{ e with order := w.clock.counter }]
    clock.counter := w.clock.counter + 1 }

def pop (w : ClockWorld σ) : Option ClockEntry × List ClockEntry :=
  popLive w.cancelled w.clock.heap.length w.clock.heap

/-- The loop of `run_for`. With no fuel left it has not ended. -/
def drain (tasks : Tasks σ) : Nat → ClockWorld σ → Int → Nat → Option (ClockWorld σ × Nat)
  | 0, _, _, _ => none
  | fuel + 1, w, target, fired =>
    match (top w.clock.heap).filter fun e => e.deadline ≤ target with
    | none => some (w, fired)
    | some _ =>
      match w.pop with
      | (none, rest) => some (w.setHeap rest, fired)
      | (some e, rest) =>
        if target < e.deadline then some (w.pushBack e rest, fired)
        else drain tasks fuel ((w.wakeUp tasks e rest).settle tasks) target (fired + 1)

def runFor (tasks : Tasks σ) (fuel : Nat) (w : ClockWorld σ) (simNs : Int) :
    Option (ClockWorld σ × Nat) :=
  (drain tasks fuel (w.settle tasks) (w.now + simNs) 0).map fun r =>
    ((r.1.setNow (w.now + simNs)).settle tasks, r.2)

/-- The loop of `run_until_idle`, which raises when one more than `max_events` have fired. -/
def idleLoop (tasks : Tasks σ) : Nat → ClockWorld σ → Nat → ClockWorld σ × Option Nat
  | left, w, fired =>
    match w.pop with
    | (none, rest) => (w.setHeap rest, some fired)
    | (some e, rest) =>
      match left with
      | 0 => (w.wakeUp tasks e rest, none)
      | left + 1 => idleLoop tasks left ((w.wakeUp tasks e rest).settle tasks) (fired + 1)

def runUntilIdle (tasks : Tasks σ) (w : ClockWorld σ) (maxEvents : Nat) :
    ClockWorld σ × Option Nat :=
  idleLoop tasks maxEvents (w.settle tasks) 0

/-- `run_for` puts a waiter back while another of the same deadline waits: it has then lost
its place to that one. -/
def pushesBehind (tasks : Tasks σ) : Nat → ClockWorld σ → Int → Bool
  | 0, _, _ => false
  | fuel + 1, w, target =>
    match (top w.clock.heap).filter fun e => e.deadline ≤ target with
    | none => false
    | some _ =>
      match w.pop with
      | (none, _) => false
      | (some e, rest) =>
        if target < e.deadline then
          rest.any fun f => f.deadline = e.deadline ∧ f.fut ∉ w.cancelled
        else pushesBehind tasks fuel ((w.wakeUp tasks e rest).settle tasks) target

end ClockWorld

/-! ## What is popped -/

namespace SpoofClock

variable {cancelled : List Nat} {heap rest : List ClockEntry} {e f : ClockEntry} {n : Nat}

/-- What `_pop_live` takes off the heap: the first live entry, and cancelled ones. -/
structure Pops (cancelled : List Nat) (heap : List ClockEntry) (e : ClockEntry)
    (rest : List ClockEntry) : Prop where
  mem : e ∈ heap
  live : e.fut ∉ cancelled
  first : ∀ f ∈ heap, f.fut ∉ cancelled → key e ≤ key f
  kept : rest.Sublist heap
  gone : ∀ f ∈ rest, f.order ≠ e.order
  rest : ∀ f ∈ heap, f.fut ∉ cancelled → f.order ≠ e.order → f ∈ rest

theorem drop_length {g : ClockEntry} (hg : g ∈ heap) :
    (heap.filter fun f => f.order != g.order).length < heap.length := by
  refine List.length_filter_lt_length_iff_exists.mpr ⟨g, hg, ?_⟩
  simp

theorem popLive_some (hn : (heap.map ClockEntry.order).Nodup) (hlen : heap.length ≤ n)
    (h : popLive cancelled n heap = (some e, rest)) : Pops cancelled heap e rest := by
  induction n generalizing heap with
  | zero => cases h
  | succ n ih =>
    rw [popLive] at h
    cases ht : top heap with
    | none =>
      rw [ht] at h
      cases h
    | some g =>
      have hg : g ∈ heap := heapTop_mem ht
      have hle : ∀ f ∈ heap, key g ≤ key f := fun f hf => heapTop_le ht hf
      rw [ht] at h
      dsimp only at h
      split_ifs at h with hc
      · -- the top is cancelled, and dropped
        have hsub : (heap.filter fun f => f.order != g.order).Sublist heap := List.filter_sublist
        have hp := ih (hn.sublist (hsub.map _)) (by have := drop_length hg; omega) h
        have hin {f : ClockEntry} (hf : f ∈ heap) (hlive : f.fut ∉ cancelled) :
            f ∈ heap.filter fun f => f.order != g.order := by
          refine List.mem_filter.mpr ⟨hf, ?_⟩
          simp only [bne_iff_ne]
          intro ho
          rw [List.inj_on_of_nodup_map hn hf hg ho] at hlive
          exact hlive hc
        exact ⟨hsub.subset hp.mem, hp.live, fun f hf hl => hp.first f (hin hf hl) hl,
          hp.kept.trans hsub, hp.gone, fun f hf hl hne => hp.rest f (hin hf hl) hl hne⟩
      · obtain ⟨he, rfl⟩ := Prod.mk.inj h
        obtain rfl := Option.some.inj he
        refine ⟨hg, hc, fun f hf _ => hle f hf, List.filter_sublist, fun f hf => ?_,
          fun f hf _ hne => List.mem_filter.mpr ⟨hf, by simpa using hne⟩⟩
        simpa using (List.mem_filter.mp hf).2

theorem popLive_none (hn : (heap.map ClockEntry.order).Nodup) (hlen : heap.length ≤ n)
    (h : popLive cancelled n heap = (none, rest)) :
    rest = [] ∧ ∀ f ∈ heap, f.fut ∈ cancelled := by
  induction n generalizing heap with
  | zero =>
    have hnil : heap = [] := List.length_eq_zero_iff.mp (Nat.le_zero.mp hlen)
    obtain ⟨-, rfl⟩ := Prod.mk.inj h
    exact ⟨hnil, fun f hf => by rw [hnil] at hf; cases hf⟩
  | succ n ih =>
    rw [popLive] at h
    cases ht : top heap with
    | none =>
      rw [ht] at h
      obtain ⟨-, rfl⟩ := Prod.mk.inj h
      rw [top, heapTop_eq_none] at ht
      exact ⟨ht, fun f hf => by rw [ht] at hf; cases hf⟩
    | some g =>
      have hg : g ∈ heap := heapTop_mem ht
      rw [ht] at h
      dsimp only at h
      split_ifs at h with hc
      · have hsub : (heap.filter fun f => f.order != g.order).Sublist heap := List.filter_sublist
        obtain ⟨hrest, hall⟩ := ih (hn.sublist (hsub.map _)) (by have := drop_length hg; omega) h
        refine ⟨hrest, fun f hf => ?_⟩
        by_cases ho : f.order = g.order
        · rw [List.inj_on_of_nodup_map hn hf hg ho]
          exact hc
        · exact hall f (List.mem_filter.mpr ⟨hf, by simpa using ho⟩)
      · cases (Prod.mk.inj h).1

theorem top_deadline_le (ht : top heap = some e) (hf : f ∈ heap) : e.deadline ≤ f.deadline := by
  have hle : key e ≤ key f := heapTop_le ht hf
  rcases Prod.Lex.le_iff.mp hle with hlt | ⟨heq, -⟩
  · exact le_of_lt hlt
  · exact le_of_eq heq

end SpoofClock

namespace ClockWorld

open SpoofClock

variable {σ : Type} {tasks : Tasks σ} {w w' u v : ClockWorld σ} {e f : ClockEntry}
  {rest : List ClockEntry} {target t : Int} {n k k' : Nat}

/-! ## The agenda of a clock -/

def Live (w : ClockWorld σ) (e : ClockEntry) : Prop := e ∈ w.clock.heap ∧ e.fut ∉ w.cancelled

def agenda (w : ClockWorld σ) : Agenda Int where
  now := w.now
  waiting := {x | ∃ e, w.Live e ∧ x = ⟨e.deadline, e.fut⟩}
  next := w.futs
  history := w.history

/-- Every entry and every future is there once. -/
structure Distinct (w : ClockWorld σ) : Prop where
  orders : ∀ e ∈ w.clock.heap, e.order < w.clock.counter
  futs : ∀ e ∈ w.clock.heap, e.fut < w.futs ∧ e.fut ∉ w.done
  nodupOrders : (w.clock.heap.map ClockEntry.order).Nodup
  nodupFuts : (w.clock.heap.map ClockEntry.fut).Nodup
  cancelled : ∀ i ∈ w.cancelled, i < w.futs
  done : ∀ i ∈ w.done, i < w.futs

/-- Among live entries of one deadline the numbers stand in the order of registration. -/
def InOrder (w : ClockWorld σ) : Prop :=
  ∀ e f, w.Live e → w.Live f → e.deadline = f.deadline → e.fut < f.fut → e.order < f.order

structure Sound (w : ClockWorld σ) : Prop where
  distinct : Distinct w
  inOrder : InOrder w
  kept : w.agenda.Kept
  punctual : w.agenda.Punctual

theorem Distinct.pops (h : Distinct w) (hp : w.pop = (some e, rest)) :
    Pops w.cancelled w.clock.heap e rest := popLive_some h.nodupOrders (le_refl _) hp

theorem Distinct.pop_none (h : Distinct w) (hp : w.pop = (none, rest)) :
    rest = [] ∧ ∀ f ∈ w.clock.heap, f.fut ∈ w.cancelled :=
  popLive_none h.nodupOrders (le_refl _) hp

/-- The first live entry is the one registered first among those of the earliest deadline. -/
theorem Sound.first (hs : Sound w) (hp : Pops w.cancelled w.clock.heap e rest) (hf : w.Live f) :
    (⟨e.deadline, e.fut⟩ : Waiter Int).key ≤ (⟨f.deadline, f.fut⟩ : Waiter Int).key := by
  have hle := hp.first f hf.1 hf.2
  rw [SpoofClock.key, SpoofClock.key, Prod.Lex.le_iff] at hle
  rw [Waiter.key, Waiter.key, Prod.Lex.le_iff]
  rcases hle with hlt | ⟨heq, hord⟩
  · exact Or.inl hlt
  · refine Or.inr ⟨heq, ?_⟩
    by_contra hlt
    have horder := hs.inOrder f e hf ⟨hp.mem, hp.live⟩ heq.symm (not_le.mp hlt)
    exact absurd hord (not_le.mpr horder)

/-- What the clock does is something that an agenda may do, and on time. -/
structure Goes (w w' : ClockWorld σ) : Prop where
  sound : Sound w'
  path : Agenda.Path True w.agenda w'.agenda

theorem Sound.goes (hs : Sound w) (hd : Distinct w') (ho : InOrder w')
    (hp : Agenda.Path True w.agenda w'.agenda) : Goes w w' :=
  ⟨⟨hd, ho, hs.kept.path hp, hs.punctual.path hp⟩, hp⟩

theorem Goes.refl (hs : Sound w) : Goes w w := ⟨hs, .refl⟩

theorem Goes.trans (h : Goes u v) (h' : Goes v w) : Goes u w := ⟨h'.sound, h.path.trans h'.path⟩

theorem InOrder.mono (h : InOrder w) (hl : ∀ e, w'.Live e → w.Live e) : InOrder w' :=
  fun e f he hf heq hlt => h e f (hl e he) (hl f hf) heq hlt

/-! ### Registering and cancelling -/

theorem Distinct.live_waitNs (h : Distinct w) {d : Int} : (w.act (.waitNs d)).Live e ↔
    w.Live e ∨ e = ⟨w.now + max 0 d, w.clock.counter, w.futs⟩ := by
  have hfresh : w.futs ∉ w.cancelled := fun hc => Nat.lt_irrefl _ (h.cancelled _ hc)
  simp only [Live, act, List.mem_append, List.mem_singleton]
  constructor
  · rintro ⟨he | rfl, hc⟩
    · exact Or.inl ⟨he, hc⟩
    · exact Or.inr rfl
  · rintro (⟨he, hc⟩ | rfl)
    · exact ⟨Or.inl he, hc⟩
    · exact ⟨Or.inr rfl, hfresh⟩

theorem Distinct.agenda_waitNs (h : Distinct w) (d : Int) : (w.act (.waitNs d)).agenda =
    { w.agenda with
      waiting := insert ⟨w.now + max 0 d, w.futs⟩ w.agenda.waiting
      next := w.agenda.next + 1
      history := w.agenda.history ++ [.registered ⟨w.now + max 0 d, w.futs⟩] } := by
  rw [agenda, Agenda.mk.injEq]
  refine ⟨rfl, ?_, rfl, rfl⟩
  ext x
  constructor
  · rintro ⟨e, he, rfl⟩
    rcases h.live_waitNs.mp he with he | rfl
    · exact Or.inr ⟨e, he, rfl⟩
    · exact Or.inl rfl
  · rintro (rfl | ⟨e, he, rfl⟩)
    · exact ⟨_, h.live_waitNs.mpr (Or.inr rfl), rfl⟩
    · exact ⟨e, h.live_waitNs.mpr (Or.inl he), rfl⟩

theorem Distinct.waitNs (h : Distinct w) (d : Int) : Distinct (w.act (.waitNs d)) := by
  constructor
  · intro e he
    rcases List.mem_append.mp he with he | he
    · exact Nat.lt_succ_of_lt (h.orders e he)
    · rw [List.mem_singleton.mp he]
      exact Nat.lt_succ_self _
  · intro e he
    rcases List.mem_append.mp he with he | he
    · exact ⟨Nat.lt_succ_of_lt (h.futs e he).1, (h.futs e he).2⟩
    · rw [List.mem_singleton.mp he]
      exact ⟨Nat.lt_succ_self _, fun hd => Nat.lt_irrefl _ (h.done _ hd)⟩
  · show ((w.clock.heap ++ [_]).map ClockEntry.order).Nodup
    rw [List.map_append]
    refine List.Nodup.append h.nodupOrders (List.nodup_singleton _) fun n hn hm => ?_
    obtain ⟨e, he, rfl⟩ := List.mem_map.mp hn
    exact Nat.ne_of_lt (h.orders e he) (List.mem_singleton.mp hm)
  · show ((w.clock.heap ++ [_]).map ClockEntry.fut).Nodup
    rw [List.map_append]
    refine List.Nodup.append h.nodupFuts (List.nodup_singleton _) fun n hn hm => ?_
    obtain ⟨e, he, rfl⟩ := List.mem_map.mp hn
    exact Nat.ne_of_lt (h.futs e he).1 (List.mem_singleton.mp hm)
  · exact fun i hi => Nat.lt_succ_of_lt (h.cancelled i hi)
  · exact fun i hi => Nat.lt_succ_of_lt (h.done i hi)

theorem Sound.waitNs (hs : Sound w) (d : Int) : Goes w (w.act (.waitNs d)) := by
  have hlive {e : ClockEntry} := hs.distinct.live_waitNs (e := e) (d := d)
  refine hs.goes (hs.distinct.waitNs d) ?_ ?_
  · -- the new entry has the greatest number and the latest registration
    intro e f he hf heq hlt
    rcases hlive.mp he with he | rfl
    · rcases hlive.mp hf with hf | rfl
      · exact hs.inOrder e f he hf heq hlt
      · exact hs.distinct.orders e he.1
    · rcases hlive.mp hf with hf | rfl
      · exact absurd (hs.distinct.futs f hf.1).1 (Nat.not_lt.mpr (le_of_lt hlt))
      · exact absurd hlt (Nat.lt_irrefl _)
  · rw [hs.distinct.agenda_waitNs]
    refine .single (.register _ ?_)
    show w.now ≤ w.now + max 0 d
    omega

theorem agenda_cancel {i : Nat} (hi : i < w.futs ∧ i ∉ w.done ∧ i ∉ w.cancelled) :
    (w.act (.cancel i)).agenda = { w.agenda with
      waiting := {x | x ∈ w.agenda.waiting ∧ x.id ≠ i}
      history := w.agenda.history ++ [.cancelled i] } := by
  rw [act, if_pos hi, agenda, Agenda.mk.injEq]
  refine ⟨rfl, ?_, rfl, rfl⟩
  ext x
  constructor
  · rintro ⟨e, ⟨he, hc⟩, rfl⟩
    rw [List.mem_cons, not_or] at hc
    exact ⟨⟨e, ⟨he, hc.2⟩, rfl⟩, hc.1⟩
  · rintro ⟨⟨e, ⟨he, hc⟩, rfl⟩, hne⟩
    refine ⟨e, ⟨he, ?_⟩, rfl⟩
    rw [List.mem_cons, not_or]
    exact ⟨hne, hc⟩

theorem Sound.cancel (hs : Sound w) (i : Nat) : Goes w (w.act (.cancel i)) := by
  by_cases hi : i < w.futs ∧ i ∉ w.done ∧ i ∉ w.cancelled
  · have hd : Distinct (w.act (.cancel i)) := by
      rw [act, if_pos hi]
      refine ⟨hs.distinct.orders, hs.distinct.futs, hs.distinct.nodupOrders,
        hs.distinct.nodupFuts, fun j hj => ?_, hs.distinct.done⟩
      rcases List.mem_cons.mp hj with rfl | hj
      · exact hi.1
      · exact hs.distinct.cancelled j hj
    have ho : InOrder (w.act (.cancel i)) := by
      rw [act, if_pos hi]
      exact hs.inOrder.mono fun e he => ⟨he.1, fun hc => he.2 (List.mem_cons_of_mem _ hc)⟩
    apply hs.goes hd ho
    rw [agenda_cancel hi]
    exact .single (.cancel i hi.1)
  · rw [act, if_neg hi]
    exact .refl hs

theorem Sound.act (hs : Sound w) (o : ClockOp) : Goes w (w.act o) := by
  cases o with
  | waitNs d => exact hs.waitNs d
  | cancel i => exact hs.cancel i

theorem Sound.acts (hs : Sound w) (os : List ClockOp) : Goes w (os.foldl ClockWorld.act w) := by
  induction os generalizing w with
  | nil => exact .refl hs
  | cons o os ih =>
    have ho := hs.act o
    exact ho.trans (ih ho.sound)

/-- What the tasks keep is their own affair. -/
theorem Sound.client (hs : Sound w) (c : σ) : Goes w { w with client := c } :=
  ⟨⟨⟨hs.distinct.orders, hs.distinct.futs, hs.distinct.nodupOrders, hs.distinct.nodupFuts,
    hs.distinct.cancelled, hs.distinct.done⟩, hs.inOrder, hs.kept, hs.punctual⟩, .refl⟩

theorem Sound.settle (hs : Sound w) : Goes w (w.settle tasks) := by
  have hc := hs.client (tasks.settle w.client w.now w.futs).1
  exact hc.trans (hc.sound.acts _)

/-! ### Waking and putting back -/

/-- The clock may go as far as the first of those that wait. -/
theorem Sound.pass (hs : Sound w) (ht : w.now ≤ t) (hall : ∀ x ∈ w.agenda.waiting, t ≤ x.deadline) :
    Goes w (w.setNow t) :=
  hs.goes ⟨hs.distinct.orders, hs.distinct.futs, hs.distinct.nodupOrders, hs.distinct.nodupFuts,
    hs.distinct.cancelled, hs.distinct.done⟩ hs.inOrder (.single (.pass t ht fun _ => hall))

/-- The entry taken is of one future with no other entry of the heap. -/
theorem Distinct.sole (h : Distinct w) (hp : Pops w.cancelled w.clock.heap e rest)
    (hf : f ∈ w.clock.heap) : f.fut = e.fut ↔ f.order = e.order := by
  constructor
  · exact fun heq => by rw [List.inj_on_of_nodup_map h.nodupFuts hf hp.mem heq]
  · exact fun heq => by rw [List.inj_on_of_nodup_map h.nodupOrders hf hp.mem heq]

theorem Distinct.wakeUp (h : Distinct w) (hp : Pops w.cancelled w.clock.heap e rest) :
    Distinct (w.wakeUp tasks e rest) where
  orders f hf := h.orders f (hp.kept.subset hf)
  futs f hf := by
    refine ⟨(h.futs f (hp.kept.subset hf)).1, fun hd => ?_⟩
    rcases List.mem_cons.mp hd with heq | hd
    · exact hp.gone f hf ((h.sole hp (hp.kept.subset hf)).mp heq)
    · exact (h.futs f (hp.kept.subset hf)).2 hd
  nodupOrders := h.nodupOrders.sublist (hp.kept.map _)
  nodupFuts := h.nodupFuts.sublist (hp.kept.map _)
  cancelled := h.cancelled
  done i hi := by
    rcases List.mem_cons.mp hi with rfl | hi
    · exact (h.futs e hp.mem).1
    · exact h.done i hi

theorem Distinct.agenda_wakeUp (h : Distinct w) (hp : Pops w.cancelled w.clock.heap e rest) :
    (w.wakeUp tasks e rest).agenda =
      { w.agenda with
        now := max w.now e.deadline
        waiting := {x | x ∈ w.agenda.waiting ∧ x.id ≠ e.fut}
        history := w.history ++ [.woken ⟨e.deadline, e.fut⟩ (max w.now e.deadline)] } := by
  rw [agenda, Agenda.mk.injEq]
  refine ⟨rfl, ?_, rfl, rfl⟩
  ext x
  constructor
  · rintro ⟨f, hf, rfl⟩
    have hin := hp.kept.subset hf.1
    refine ⟨⟨f, ⟨hin, hf.2⟩, rfl⟩, fun heq => ?_⟩
    exact hp.gone f hf.1 ((h.sole hp hin).mp heq)
  · rintro ⟨⟨f, hf, rfl⟩, hne⟩
    refine ⟨f, ⟨hp.rest f hf.1 hf.2 fun heq => hne ?_, hf.2⟩, rfl⟩
    exact (h.sole hp hf.1).mpr heq

/-- The waiter taken is woken at its deadline. -/
theorem Sound.wakeUp (hs : Sound w) (hp : Pops w.cancelled w.clock.heap e rest) :
    Goes w (w.wakeUp tasks e rest) := by
  have hmem : (⟨e.deadline, e.fut⟩ : Waiter Int) ∈ w.agenda.waiting := ⟨e, ⟨hp.mem, hp.live⟩, rfl⟩
  have hfirst : ∀ x ∈ w.agenda.waiting, (⟨e.deadline, e.fut⟩ : Waiter Int).key ≤ x.key := by
    rintro x ⟨f, hf, rfl⟩
    exact hs.first hp hf
  have hpass : Goes w (w.setNow (max w.now e.deadline)) := by
    refine hs.pass (le_max_left _ _) fun x hx => max_le (hs.punctual.ahead x hx) ?_
    rcases Prod.Lex.le_iff.mp (hfirst x hx) with hlt | ⟨heq, -⟩
    · exact le_of_lt hlt
    · exact le_of_eq heq
  refine hpass.trans (hpass.sound.goes (hs.distinct.wakeUp hp) (hs.inOrder.mono ?_) ?_)
  · exact fun f hf => ⟨hp.kept.subset hf.1, hf.2⟩
  · rw [hs.distinct.agenda_wakeUp hp]
    have hwake : Agenda.Move True (w.setNow (max w.now e.deadline)).agenda _ :=
      .wake ⟨e.deadline, e.fut⟩ hmem hfirst (le_max_right _ _)
    exact .single hwake

theorem Distinct.pushBack (h : Distinct w) (hp : Pops w.cancelled w.clock.heap e rest) :
    Distinct (w.pushBack e rest) where
  orders f hf := by
    rcases List.mem_append.mp hf with hf | hf
    · exact Nat.lt_succ_of_lt (h.orders f (hp.kept.subset hf))
    · rw [List.mem_singleton.mp hf]
      exact Nat.lt_succ_self _
  futs f hf := by
    rcases List.mem_append.mp hf with hf | hf
    · exact h.futs f (hp.kept.subset hf)
    · rw [List.mem_singleton.mp hf]
      exact h.futs e hp.mem
  nodupOrders := by
    show ((rest ++ [_]).map ClockEntry.order).Nodup
    rw [List.map_append]
    apply List.Nodup.append (h.nodupOrders.sublist (hp.kept.map _)) (List.nodup_singleton _)
    intro n hn hm
    obtain ⟨f, hf, rfl⟩ := List.mem_map.mp hn
    exact Nat.ne_of_lt (h.orders f (hp.kept.subset hf)) (List.mem_singleton.mp hm)
  nodupFuts := by
    show ((rest ++ [_]).map ClockEntry.fut).Nodup
    rw [List.map_append]
    refine List.Nodup.append (h.nodupFuts.sublist (hp.kept.map _)) (List.nodup_singleton _) ?_
    intro n hn hm
    obtain ⟨f, hf, rfl⟩ := List.mem_map.mp hn
    exact hp.gone f hf ((h.sole hp (hp.kept.subset hf)).mp (List.mem_singleton.mp hm))
  cancelled := h.cancelled
  done := h.done

theorem Distinct.live_pushBack (h : Distinct w) (hp : Pops w.cancelled w.clock.heap e rest) :
    (w.pushBack e rest).Live f ↔
      w.Live f ∧ f.fut ≠ e.fut ∨ f = { e with order := w.clock.counter } := by
  constructor
  · rintro ⟨hf, hc⟩
    rcases List.mem_append.mp hf with hf | hf
    · have hin := hp.kept.subset hf
      exact Or.inl ⟨⟨hin, hc⟩, fun heq => hp.gone f hf ((h.sole hp hin).mp heq)⟩
    · exact Or.inr (List.mem_singleton.mp hf)
  · rintro (⟨hf, hne⟩ | rfl)
    · have hin := hp.rest f hf.1 hf.2 fun heq => hne ((h.sole hp hf.1).mpr heq)
      exact ⟨List.mem_append_left _ hin, hf.2⟩
    · exact ⟨List.mem_append_right _ (List.mem_singleton_self _), hp.live⟩

/-! ## One round of the loop -/

/-- The same to look at: the heaps hold the same live waiters. -/
structure Alike (u v : ClockWorld σ) : Prop where
  client : u.client = v.client
  futs : u.futs = v.futs
  done : u.done = v.done
  cancelled : u.cancelled = v.cancelled
  history : u.history = v.history
  waiting : u.agenda.waiting = v.agenda.waiting

theorem Distinct.alike_pushBack (h : Distinct w) (hp : Pops w.cancelled w.clock.heap e rest) :
    Alike w (w.pushBack e rest) := by
  refine ⟨rfl, rfl, rfl, rfl, rfl, ?_⟩
  ext x
  constructor
  · rintro ⟨f, hf, rfl⟩
    by_cases heq : f.fut = e.fut
    · obtain rfl := List.inj_on_of_nodup_map h.nodupFuts hf.1 hp.mem heq
      exact ⟨_, (h.live_pushBack hp).mpr (Or.inr rfl), rfl⟩
    · exact ⟨f, (h.live_pushBack hp).mpr (Or.inl ⟨hf, heq⟩), rfl⟩
  · rintro ⟨f, hf, rfl⟩
    rcases (h.live_pushBack hp).mp hf with ⟨hf, -⟩ | rfl
    · exact ⟨f, hf, rfl⟩
    · exact ⟨e, ⟨hp.mem, hp.live⟩, rfl⟩

/-- Put back behind none of its own deadline, the entry has lost no place. -/
theorem InOrder.pushBack (ho : InOrder w) (h : Distinct w)
    (hp : Pops w.cancelled w.clock.heap e rest)
    (hb : (rest.any fun f => f.deadline = e.deadline ∧ f.fut ∉ w.cancelled) = false) :
    InOrder (w.pushBack e rest) := by
  have hother {g : ClockEntry} (hg : w.Live g) (hne : g.fut ≠ e.fut) : g.deadline ≠ e.deadline := by
    intro heq
    have hin := hp.rest g hg.1 hg.2 fun ho => hne ((h.sole hp hg.1).mpr ho)
    simp only [List.any_eq_false, decide_eq_true_eq, not_and] at hb
    exact hb g hin heq hg.2
  intro f g hf hg heq hlt
  rcases (h.live_pushBack hp).mp hf with ⟨hf, hfe⟩ | rfl
  · rcases (h.live_pushBack hp).mp hg with ⟨hg, -⟩ | rfl
    · exact ho f g hf hg heq hlt
    · exact absurd heq (hother hf hfe)
  · rcases (h.live_pushBack hp).mp hg with ⟨hg, hge⟩ | rfl
    · exact absurd heq.symm (hother hg hge)
    · exact absurd hlt (Nat.lt_irrefl _)

theorem top_deadline (h : Distinct w) (hp : w.pop = (some e, rest)) :
    ∃ g, top w.clock.heap = some g ∧ g.deadline ≤ e.deadline := by
  cases ht : top w.clock.heap with
  | none =>
    have hmem := (h.pops hp).mem
    rw [top, heapTop_eq_none] at ht
    rw [ht] at hmem
    cases hmem
  | some g => exact ⟨g, rfl, top_deadline_le ht (h.pops hp).mem⟩

theorem drain_wakes (h : Distinct w) (hp : w.pop = (some e, rest)) (hle : e.deadline ≤ target) :
    drain tasks (n + 1) w target k =
      drain tasks n ((w.wakeUp tasks e rest).settle tasks) target (k + 1) := by
  obtain ⟨g, ht, hg⟩ := top_deadline h hp
  have hdue : (some g).filter (fun e => decide (e.deadline ≤ target)) = some g := by
    rw [Option.filter_eq_some_iff]
    exact ⟨rfl, decide_eq_true (le_trans hg hle)⟩
  rw [drain, ht, hdue, hp]
  exact if_neg (not_lt.mpr hle)

theorem pushesBehind_wakes (h : Distinct w) (hp : w.pop = (some e, rest))
    (hle : e.deadline ≤ target) : pushesBehind tasks (n + 1) w target =
      pushesBehind tasks n ((w.wakeUp tasks e rest).settle tasks) target := by
  obtain ⟨g, ht, hg⟩ := top_deadline h hp
  have hdue : (some g).filter (fun e => decide (e.deadline ≤ target)) = some g := by
    rw [Option.filter_eq_some_iff]
    exact ⟨rfl, decide_eq_true (le_trans hg hle)⟩
  rw [pushesBehind, ht, hdue, hp]
  exact if_neg (not_lt.mpr hle)

/-- A round of the loop wakes the first live waiter, or there is none that is due. -/
theorem Sound.round (hs : Sound w) (target : Int) :
    (∃ e rest, w.pop = (some e, rest) ∧ e.deadline ≤ target) ∨
      ∀ x ∈ w.agenda.waiting, target < x.deadline := by
  rcases hp : w.pop with ⟨e | e, rest⟩
  · apply Or.inr
    rintro x ⟨f, hf, rfl⟩
    exact absurd ((hs.distinct.pop_none hp).2 f hf.1) hf.2
  · by_cases hle : e.deadline ≤ target
    · exact Or.inl ⟨e, rest, rfl, hle⟩
    · apply Or.inr
      rintro x ⟨f, hf, rfl⟩
      have hfirst := hs.first (hs.distinct.pops hp) hf
      rcases Prod.Lex.le_iff.mp hfirst with hlt | ⟨heq, -⟩
      · exact lt_trans (not_le.mp hle) hlt
      · exact lt_of_lt_of_eq (not_le.mp hle) heq

/-- The loop has ended with `w'`. -/
structure Ends (tasks : Tasks σ) (w : ClockWorld σ) (target : Int) (w' : ClockWorld σ) : Prop where
  alike : Alike w w'
  now : w'.now = w.now
  distinct : Distinct w'
  inOrder : (∀ n, pushesBehind tasks n w target = false) → InOrder w'
  drain : ∀ n k, drain tasks (n + 1) w target k = some (w', k)

theorem Sound.ends (tasks : Tasks σ) (hs : Sound w)
    (hlate : ∀ x ∈ w.agenda.waiting, target < x.deadline) :
    ∃ w', Ends tasks w target w' := by
  have hd := hs.distinct
  cases ht : (top w.clock.heap).filter fun e => e.deadline ≤ target with
  | none =>
    refine ⟨w, ⟨rfl, rfl, rfl, rfl, rfl, rfl⟩, rfl, hd, fun _ => hs.inOrder, fun n k => ?_⟩
    rw [ClockWorld.drain, ht]
  | some g =>
    rcases hp : w.pop with ⟨e | e, rest⟩
    · -- all were cancelled
      obtain ⟨rfl, hall⟩ := hd.pop_none hp
      refine ⟨w.setHeap [], ⟨rfl, rfl, rfl, rfl, rfl, ?_⟩, rfl, ⟨?_, ?_, List.nodup_nil,
        List.nodup_nil, hd.cancelled, hd.done⟩, ?_, fun n k => ?_⟩
      · ext x
        constructor
        · rintro ⟨f, hf, -⟩
          exact absurd (hall f hf.1) hf.2
        · rintro ⟨f, hf, -⟩
          cases hf.1
      · exact fun f hf => by cases hf
      · exact fun f hf => by cases hf
      · exact fun _ f g hf => by cases hf.1
      · rw [ClockWorld.drain, ht, hp]
    · have hpops := hd.pops hp
      have hlt : target < e.deadline := hlate _ ⟨e, ⟨hpops.mem, hpops.live⟩, rfl⟩
      refine ⟨w.pushBack e rest, hd.alike_pushBack hpops, rfl, hd.pushBack hpops, fun hb => ?_,
        fun n k => ?_⟩
      · apply hs.inOrder.pushBack hd hpops
        have hone := hb 1
        rw [pushesBehind, ht, hp] at hone
        dsimp only at hone
        rwa [if_pos hlt] at hone
      · rw [ClockWorld.drain, ht, hp]
        exact if_pos hlt

/-! ### Clocks that are alike go on alike -/

theorem act_now (w : ClockWorld σ) (o : ClockOp) : (w.act o).now = w.now := by
  cases o with
  | waitNs d => rfl
  | cancel i =>
    rw [act]
    split_ifs <;> rfl

theorem acts_now (w : ClockWorld σ) (os : List ClockOp) : (os.foldl act w).now = w.now := by
  induction os generalizing w with
  | nil => rfl
  | cons o os ih => rw [List.foldl_cons, ih, act_now]

@[simp] theorem settle_now (w : ClockWorld σ) : (w.settle tasks).now = w.now := acts_now _ _

theorem act_client (w : ClockWorld σ) (o : ClockOp) : (w.act o).client = w.client := by
  cases o with
  | waitNs d => rfl
  | cancel i =>
    rw [act]
    split_ifs <;> rfl

theorem acts_client (w : ClockWorld σ) (os : List ClockOp) :
    (os.foldl act w).client = w.client := by
  induction os generalizing w with
  | nil => rfl
  | cons o os ih => rw [List.foldl_cons, ih, act_client]

theorem Alike.act (h : Alike u v) (hu : Distinct u) (hv : Distinct v) (hn : u.now = v.now)
    (o : ClockOp) : Alike (u.act o) (v.act o) := by
  cases o with
  | waitNs d =>
    refine ⟨h.client, congrArg (· + 1) h.futs, h.done, h.cancelled, ?_, ?_⟩
    · show u.history ++ _ = v.history ++ _
      rw [h.history, hn, h.futs]
    · rw [hu.agenda_waitNs, hv.agenda_waitNs]
      dsimp only
      rw [h.waiting, hn, h.futs]
  | cancel i =>
    by_cases hi : i < u.futs ∧ i ∉ u.done ∧ i ∉ u.cancelled
    · have hj : i < v.futs ∧ i ∉ v.done ∧ i ∉ v.cancelled := by
        rw [← h.futs, ← h.done, ← h.cancelled]
        exact hi
      have hw : (u.act (.cancel i)).agenda.waiting = (v.act (.cancel i)).agenda.waiting := by
        rw [agenda_cancel hi, agenda_cancel hj]
        dsimp only
        rw [h.waiting]
      rw [ClockWorld.act, if_pos hi, ClockWorld.act, if_pos hj] at hw ⊢
      refine ⟨h.client, h.futs, h.done, congrArg (i :: ·) h.cancelled, ?_, hw⟩
      exact congrArg (· ++ [Note.cancelled i]) h.history
    · have hj : ¬ (i < v.futs ∧ i ∉ v.done ∧ i ∉ v.cancelled) := by
        rw [← h.futs, ← h.done, ← h.cancelled]
        exact hi
      rw [ClockWorld.act, if_neg hi, ClockWorld.act, if_neg hj]
      exact h

theorem Alike.acts (h : Alike u v) (hu : Sound u) (hv : Sound v) (hn : u.now = v.now)
    (os : List ClockOp) : Alike (os.foldl ClockWorld.act u) (os.foldl ClockWorld.act v) := by
  induction os generalizing u v with
  | nil => exact h
  | cons o os ih =>
    apply ih (h.act hu.distinct hv.distinct hn o) (hu.act o).sound (hv.act o).sound
    rw [act_now, act_now, hn]

theorem Alike.settle (h : Alike u v) (hu : Sound u) (hv : Sound v) (hn : u.now = v.now) :
    Alike (u.settle tasks) (v.settle tasks) := by
  have hargs : tasks.settle u.client u.now u.futs = tasks.settle v.client v.now v.futs := by
    rw [h.client, hn, h.futs]
  rw [ClockWorld.settle, ClockWorld.settle, hargs]
  have hstart (c : σ) : Alike { u with client := c } { v with client := c } :=
    ⟨rfl, h.futs, h.done, h.cancelled, h.history, h.waiting⟩
  have hgo := (hstart (tasks.settle v.client v.now v.futs).1).acts
    (hu.client _).sound (hv.client _).sound hn (tasks.settle v.client v.now v.futs).2
  exact hgo

/-- What is popped is determined by who waits. -/
theorem Alike.pop {e' : ClockEntry} {rest' : List ClockEntry} (h : Alike u v) (hu : Sound u)
    (hv : Sound v) (hp : Pops u.cancelled u.clock.heap e rest)
    (hp' : Pops v.cancelled v.clock.heap e' rest') : e.deadline = e'.deadline ∧ e.fut = e'.fut := by
  have hmem : (⟨e.deadline, e.fut⟩ : Waiter Int) ∈ v.agenda.waiting :=
    h.waiting ▸ ⟨e, ⟨hp.mem, hp.live⟩, rfl⟩
  have hmem' : (⟨e'.deadline, e'.fut⟩ : Waiter Int) ∈ u.agenda.waiting :=
    h.waiting ▸ ⟨e', ⟨hp'.mem, hp'.live⟩, rfl⟩
  obtain ⟨f, hf, heq⟩ := hmem
  obtain ⟨f', hf', heq'⟩ := hmem'
  have hle := hu.first hp hf'
  have hge := hv.first hp' hf
  rw [← heq'] at hle
  rw [← heq] at hge
  have hpair : (e.deadline, e.fut) = (e'.deadline, e'.fut) :=
    toLex.injective (le_antisymm hle hge)
  exact Prod.mk.inj hpair

theorem Sound.wakeUp_now (hs : Sound w) (hp : Pops w.cancelled w.clock.heap e rest) :
    (w.wakeUp tasks e rest).now = e.deadline :=
  max_eq_right (hs.punctual.ahead _ ⟨e, ⟨hp.mem, hp.live⟩, rfl⟩)

theorem Alike.wakeUp {e' : ClockEntry} {rest' : List ClockEntry} (h : Alike u v) (hu : Sound u)
    (hv : Sound v) (hp : Pops u.cancelled u.clock.heap e rest)
    (hp' : Pops v.cancelled v.clock.heap e' rest') :
    Alike (u.wakeUp tasks e rest) (v.wakeUp tasks e' rest') := by
  obtain ⟨hdl, hfut⟩ := h.pop hu hv hp hp'
  have hmax : max u.now e.deadline = max v.now e'.deadline := by
    have hun : (u.wakeUp tasks e rest).now = e.deadline := hu.wakeUp_now hp
    have hvn : (v.wakeUp tasks e' rest').now = e'.deadline := hv.wakeUp_now hp'
    exact hun.trans (hdl.trans hvn.symm)
  refine ⟨?_, h.futs, ?_, h.cancelled, ?_, ?_⟩
  · show tasks.wake u.client e.fut = tasks.wake v.client e'.fut
    rw [h.client, hfut]
  · show e.fut :: u.done = e'.fut :: v.done
    rw [h.done, hfut]
  · show u.history ++ [_] = v.history ++ [_]
    rw [h.history, hmax, hdl, hfut]
  · rw [hu.distinct.agenda_wakeUp hp, hv.distinct.agenda_wakeUp hp']
    dsimp only
    rw [h.waiting, hfut]

theorem Alike.symm (h : Alike u v) : Alike v u :=
  ⟨h.client.symm, h.futs.symm, h.done.symm, h.cancelled.symm, h.history.symm, h.waiting.symm⟩

theorem Alike.trans (h : Alike u v) (h' : Alike v w) : Alike u w :=
  ⟨h.client.trans h'.client, h.futs.trans h'.futs, h.done.trans h'.done,
    h.cancelled.trans h'.cancelled, h.history.trans h'.history, h.waiting.trans h'.waiting⟩

/-- A round that wakes, on both of two clocks that are alike. -/
theorem Alike.round (tasks : Tasks σ) (h : Alike u v) (hu : Sound u) (hv : Sound v)
    (hp : u.pop = (some e, rest)) (hle : e.deadline ≤ target) :
    ∃ e' rest', v.pop = (some e', rest') ∧ e'.deadline ≤ target ∧
      Alike ((u.wakeUp tasks e rest).settle tasks) ((v.wakeUp tasks e' rest').settle tasks) := by
  have hpu := hu.distinct.pops hp
  rcases hv.round target with ⟨e', rest', hp', hle'⟩ | hlate
  · have hpv := hv.distinct.pops hp'
    refine ⟨e', rest', hp', hle', (h.wakeUp hu hv hpu hpv).settle (hu.wakeUp hpu).sound
      (hv.wakeUp hpv).sound ?_⟩
    rw [hu.wakeUp_now hpu, hv.wakeUp_now hpv]
    exact (h.pop hu hv hpu hpv).1
  · have hmem : (⟨e.deadline, e.fut⟩ : Waiter Int) ∈ v.agenda.waiting :=
      h.waiting ▸ ⟨e, ⟨hpu.mem, hpu.live⟩, rfl⟩
    exact absurd hle (not_le.mpr (hlate _ hmem))

theorem Sound.woken (hs : Sound w) (hp : w.pop = (some e, rest)) :
    Goes w ((w.wakeUp tasks e rest).settle tasks) := by
  have hw : Goes w (w.wakeUp tasks e rest) := hs.wakeUp (hs.distinct.pops hp)
  exact hw.trans hw.sound.settle

theorem drain_alike {r : ClockWorld σ × Nat} (h : Alike u v) (hu : Sound u) (hv : Sound v)
    (hd : drain tasks n u target k = some r) :
    ∃ v', drain tasks n v target k = some (v', r.2) ∧ Alike r.1 v' := by
  induction n generalizing u v k with
  | zero => cases hd
  | succ n ih =>
    rcases hu.round target with ⟨e, rest, hp, hle⟩ | hlate
    · obtain ⟨e', rest', hp', hle', hnext⟩ := h.round tasks hu hv hp hle
      rw [drain_wakes hu.distinct hp hle] at hd
      rw [drain_wakes hv.distinct hp' hle']
      exact ih hnext (hu.woken hp).sound (hv.woken hp').sound hd
    · obtain ⟨u', hu'⟩ := hu.ends tasks hlate
      obtain ⟨v', hv'⟩ := hv.ends tasks (h.waiting ▸ hlate)
      rw [hu'.drain] at hd
      obtain rfl := Option.some.inj hd
      exact ⟨v', hv'.drain n k, hu'.alike.symm.trans (h.trans hv'.alike)⟩

/-! ### Draining in two parts -/

/-- Nothing is ready. -/
def Quiet (tasks : Tasks σ) (w : ClockWorld σ) : Prop :=
  ∀ t n, tasks.settle w.client t n = (w.client, [])

theorem quiet_settle (w : ClockWorld σ) : Quiet tasks (w.settle tasks) := by
  intro t n
  rw [settle, acts_client]
  exact tasks.settled _ _ _ _ _

theorem Quiet.settle (h : Quiet tasks w) : w.settle tasks = w := by
  rw [ClockWorld.settle, h]
  rfl

theorem Quiet.drain {r : ClockWorld σ × Nat} (hs : Sound w) (h : Quiet tasks w)
    (hd : drain tasks n w target k = some r) : Quiet tasks r.1 := by
  induction n generalizing w k with
  | zero => cases hd
  | succ n ih =>
    rcases hs.round target with ⟨e, rest, hp, hle⟩ | hlate
    · rw [drain_wakes hs.distinct hp hle] at hd
      exact ih (hs.woken hp).sound (quiet_settle _) hd
    · obtain ⟨w', hw'⟩ := hs.ends tasks hlate
      rw [hw'.drain] at hd
      obtain rfl := Option.some.inj hd
      intro t m
      have hc : w'.client = w.client := hw'.alike.client.symm
      dsimp only
      rw [hc]
      exact h t m

/-- The count goes on from where it is. -/
theorem drain_count (hs : Sound w) : drain tasks n w target k =
    (drain tasks n w target 0).map fun r => (r.1, k + r.2) := by
  induction n generalizing w k with
  | zero => rfl
  | succ n ih =>
    rcases hs.round target with ⟨e, rest, hp, hle⟩ | hlate
    · rw [drain_wakes hs.distinct hp hle, drain_wakes hs.distinct hp hle,
        ih (hs.woken hp).sound, ih (k := 0 + 1) (hs.woken hp).sound, Option.map_map]
      congr 1
      funext r
      rw [Function.comp_apply, Nat.zero_add, ← Nat.add_assoc]
    · obtain ⟨w', hw'⟩ := hs.ends tasks hlate
      rw [hw'.drain, hw'.drain]
      rfl

/-- More fuel changes nothing once the loop has ended. -/
theorem drain_stable {m : Nat} {r : ClockWorld σ × Nat} (hs : Sound w)
    (hd : drain tasks n w target k = some r) (hm : n ≤ m) :
    drain tasks m w target k = some r := by
  induction n generalizing w m k with
  | zero => cases hd
  | succ n ih =>
    obtain ⟨m, rfl⟩ : ∃ m', m = m' + 1 := ⟨m - 1, by omega⟩
    rcases hs.round target with ⟨e, rest, hp, hle⟩ | hlate
    · rw [drain_wakes hs.distinct hp hle] at hd ⊢
      exact ih (hs.woken hp).sound hd (by omega)
    · obtain ⟨w', hw'⟩ := hs.ends tasks hlate
      rw [hw'.drain] at hd ⊢
      exact hd

/-- In a drain of the clock up to `t` no waiter is put back behind another of its deadline. -/
def Keeps (tasks : Tasks σ) (w : ClockWorld σ) (t : Int) : Prop :=
  ∀ n, pushesBehind tasks n w t = false

theorem Keeps.next (h : Keeps tasks w t) (hs : Sound w) (hp : w.pop = (some e, rest))
    (hle : e.deadline ≤ t) : Keeps tasks ((w.wakeUp tasks e rest).settle tasks) t := by
  intro n
  rw [← pushesBehind_wakes hs.distinct hp hle]
  exact h (n + 1)

/-- Where the loop ends: nothing due is left. -/
structure Drained (w : ClockWorld σ) (t : Int) (w' : ClockWorld σ) : Prop where
  goes : Goes w w'
  now : w'.now ≤ t
  late : ∀ x ∈ w'.agenda.waiting, t < x.deadline

theorem Ends.goes (he : Ends tasks w t w') (hs : Sound w) (hk : Keeps tasks w t) : Goes w w' := by
  apply hs.goes he.distinct (he.inOrder hk)
  have heq : w'.agenda = w.agenda := by
    rw [agenda, agenda, Agenda.mk.injEq]
    exact ⟨he.now, he.alike.waiting.symm, he.alike.futs.symm, he.alike.history.symm⟩
  rw [heq]

theorem Sound.drain {r : ClockWorld σ × Nat} (hs : Sound w) (hnow : w.now ≤ t)
    (hk : Keeps tasks w t) (hd : drain tasks n w t k = some r) : Drained w t r.1 := by
  induction n generalizing w k with
  | zero => cases hd
  | succ n ih =>
    rcases hs.round t with ⟨e, rest, hp, hle⟩ | hlate
    · rw [drain_wakes hs.distinct hp hle] at hd
      have hgo : Goes w ((w.wakeUp tasks e rest).settle tasks) := hs.woken hp
      have hnext : ((w.wakeUp tasks e rest).settle tasks).now ≤ t := by
        rw [settle_now, hs.wakeUp_now (hs.distinct.pops hp)]
        exact hle
      obtain ⟨hrest, hnow', hlate⟩ := ih hgo.sound hnext (hk.next hs hp hle) hd
      exact ⟨hgo.trans hrest, hnow', hlate⟩
    · obtain ⟨w', hw'⟩ := hs.ends tasks hlate
      rw [hw'.drain] at hd
      obtain rfl := Option.some.inj hd
      exact ⟨hw'.goes hs hk, hw'.now ▸ hnow, hw'.alike.waiting ▸ hlate⟩

/-- And the clock may then be set to the end. -/
theorem Drained.setNow (h : Drained w t w') : Goes w (w'.setNow t) := by
  refine h.goes.trans (h.goes.sound.pass h.now fun x hx => ?_)
  exact le_of_lt (h.late x hx)

theorem Alike.setNow (h : Alike u v) : Alike (u.setNow t) v :=
  ⟨h.client, h.futs, h.done, h.cancelled, h.history, h.waiting⟩

/-- Draining to one time and then to a later one is draining to the later. -/
theorem drain_trans {m : Nat} {w₁ : ClockWorld σ} {r : ClockWorld σ × Nat} (hs : Sound w)
    (hnow : w.now ≤ t) (hle : t ≤ target) (hk : Keeps tasks w t)
    (h₁ : drain tasks n w t k = some (w₁, k'))
    (h₂ : drain tasks m (w₁.setNow t) target k' = some r) :
    ∃ v, drain tasks (n + m) w target k = some (v, r.2) ∧ Alike r.1 v := by
  induction n generalizing w k with
  | zero => cases h₁
  | succ n ih =>
    rcases hs.round t with ⟨e, rest, hp, hdue⟩ | hlate
    · rw [drain_wakes hs.distinct hp hdue] at h₁
      have hfuel : n + 1 + m = n + m + 1 := by omega
      rw [hfuel, drain_wakes hs.distinct hp (le_trans hdue hle)]
      refine ih (hs.woken hp).sound ?_ (hk.next hs hp hdue) h₁
      rw [settle_now, hs.wakeUp_now (hs.distinct.pops hp)]
      exact hdue
    · have hdrained := hs.drain hnow hk h₁
      obtain ⟨w', hw'⟩ := hs.ends tasks hlate
      rw [hw'.drain] at h₁
      obtain ⟨rfl, rfl⟩ := Prod.mk.inj (Option.some.inj h₁)
      obtain ⟨v, hv, halike⟩ := drain_alike hw'.alike.symm.setNow hdrained.setNow.sound hs h₂
      exact ⟨v, drain_stable hs hv (by omega), halike⟩

/-- And draining to the later stops on the way at the first. -/
theorem drain_split {r : ClockWorld σ × Nat} (hs : Sound w) (hnow : w.now ≤ t) (hle : t ≤ target)
    (hk : Keeps tasks w t) (hd : drain tasks n w target k = some r) :
    ∃ w₁ k' v, drain tasks n w t k = some (w₁, k') ∧
      drain tasks n (w₁.setNow t) target k' = some (v, r.2) ∧ Alike r.1 v := by
  induction n generalizing w k with
  | zero => cases hd
  | succ n ih =>
    rcases hs.round t with ⟨e, rest, hp, hdue⟩ | hlate
    · rw [drain_wakes hs.distinct hp (le_trans hdue hle)] at hd
      have hnext : ((w.wakeUp tasks e rest).settle tasks).now ≤ t := by
        rw [settle_now, hs.wakeUp_now (hs.distinct.pops hp)]
        exact hdue
      have hgo : Goes w ((w.wakeUp tasks e rest).settle tasks) := hs.woken hp
      obtain ⟨w₁, k', v, h₁, h₂, halike⟩ := ih hgo.sound hnext (hk.next hs hp hdue) hd
      have hdrained := hgo.sound.drain hnext (hk.next hs hp hdue) h₁
      refine ⟨w₁, k', v, ?_, drain_stable hdrained.setNow.sound h₂ (Nat.le_succ n), halike⟩
      rw [drain_wakes hs.distinct hp hdue]
      exact h₁
    · obtain ⟨w', hw'⟩ := hs.ends tasks hlate
      have hdrained := hs.drain hnow hk (hw'.drain n k)
      have hback : Alike w (w'.setNow t) := hw'.alike.symm.setNow.symm
      obtain ⟨v, hv, halike⟩ := drain_alike hback hs hdrained.setNow.sound hd
      exact ⟨w', k, v, hw'.drain n k, hv, halike⟩

/-! ## The drives -/

theorem Sound.runFor_eq {a : Int} {r : ClockWorld σ × Nat} (hs : Sound w)
    (h : w.runFor tasks n a = some r) : ∃ w₁,
      ClockWorld.drain tasks n (w.settle tasks) (w.now + a) 0 = some (w₁, r.2) ∧
      r.1 = w₁.setNow (w.now + a) ∧ Quiet tasks r.1 := by
  obtain ⟨r₁, hd, rfl⟩ := Option.map_eq_some_iff.mp h
  have hq : Quiet tasks (r₁.1.setNow (w.now + a)) :=
    (quiet_settle w).drain hs.settle.sound hd
  refine ⟨r₁.1, hd, hq.settle, ?_⟩
  rw [hq.settle]
  exact hq

theorem Sound.runFor_mk {a : Int} {w₁ : ClockWorld σ} (hs : Sound w)
    (hd : ClockWorld.drain tasks n (w.settle tasks) (w.now + a) 0 = some (w₁, k)) :
    w.runFor tasks n a = some (w₁.setNow (w.now + a), k) := by
  have hq : Quiet tasks (w₁.setNow (w.now + a)) := (quiet_settle w).drain hs.settle.sound hd
  rw [ClockWorld.runFor, hd, Option.map_some, hq.settle]

/-- `run_for` as it should be: in the time it drains it puts no waiter back behind another. -/
def RunKeeps (tasks : Tasks σ) (w : ClockWorld σ) (simNs : Int) : Prop :=
  Keeps tasks (w.settle tasks) (w.now + simNs)

/-- The waiters woken, in order. -/
def woken (w : ClockWorld σ) : List (Waiter Int) := w.history.filterMap Note.wakes

/-- What `run_for` does: the clock has gone on by the time given, and nothing due is left. -/
theorem Sound.runFor {a : Int} (hs : Sound w) (h0 : 0 ≤ a) (hk : RunKeeps tasks w a)
    (h : w.runFor tasks n a = some (w', k)) :
    Goes w w' ∧ w'.now = w.now + a ∧ ∀ x ∈ w'.agenda.waiting, w'.now < x.deadline := by
  obtain ⟨w₁, hd, rfl, -⟩ := hs.runFor_eq h
  have hset : Goes w (w.settle tasks) := hs.settle
  have hnow : (w.settle tasks).now ≤ w.now + a := by
    rw [settle_now]
    omega
  have hdrained := hset.sound.drain hnow hk hd
  exact ⟨hset.trans hdrained.setNow, rfl, hdrained.late⟩

/-- Only cancelled entries were left, and they are dropped. -/
theorem Sound.emptied {r : Option Nat} (hs : Sound w) (hp : w.pop = (none, rest)) :
    Goes w (w.setHeap rest) ∧ (r ≠ none → (w.setHeap rest).agenda.waiting = ∅) := by
  obtain ⟨rfl, hall⟩ := hs.distinct.pop_none hp
  have hnone : (w.setHeap []).agenda.waiting = ∅ := by
    ext x
    constructor
    · rintro ⟨f, hf, -⟩
      cases hf.1
    · rintro ⟨⟩
  have hall' : w.agenda.waiting = ∅ := by
    ext x
    constructor
    · rintro ⟨f, hf, -⟩
      exact absurd (hall f hf.1) hf.2
    · rintro ⟨⟩
  have heq : (w.setHeap []).agenda = w.agenda := by
    rw [agenda, agenda, Agenda.mk.injEq]
    exact ⟨rfl, hnone.trans hall'.symm, rfl, rfl⟩
  refine ⟨hs.goes ⟨?_, ?_, List.nodup_nil, List.nodup_nil, hs.distinct.cancelled,
    hs.distinct.done⟩ ?_ (heq ▸ .refl), fun _ => hnone⟩
  · exact fun f hf => by cases hf
  · exact fun f hf => by cases hf
  · exact fun f g hf => by cases hf.1

theorem Sound.idle {r : Option Nat} (hs : Sound w) (h : idleLoop tasks n w k = (w', r)) :
    Goes w w' ∧ (r ≠ none → w'.agenda.waiting = ∅) := by
  induction n generalizing w k with
  | zero =>
    rw [idleLoop] at h
    rcases hp : w.pop with ⟨e | e, rest⟩
    · rw [hp] at h
      obtain ⟨rfl, rfl⟩ := Prod.mk.inj h
      exact hs.emptied hp
    · rw [hp] at h
      obtain ⟨rfl, rfl⟩ := Prod.mk.inj h
      exact ⟨hs.wakeUp (hs.distinct.pops hp), fun hne => absurd rfl hne⟩
  | succ n ih =>
    rw [idleLoop] at h
    rcases hp : w.pop with ⟨e | e, rest⟩
    · rw [hp] at h
      obtain ⟨rfl, rfl⟩ := Prod.mk.inj h
      exact hs.emptied hp
    · rw [hp] at h
      have hgo : Goes w ((w.wakeUp tasks e rest).settle tasks) := hs.woken hp
      obtain ⟨hrest, hempty⟩ := ih hgo.sound h
      exact ⟨hgo.trans hrest, hempty⟩

theorem Sound.runUntilIdle {m : Nat} {r : Option Nat} (hs : Sound w)
    (h : w.runUntilIdle tasks m = (w', r)) :
    Goes w w' ∧ (r ≠ none → w'.agenda.waiting = ∅) := by
  have hset : Goes w (w.settle tasks) := hs.settle
  obtain ⟨hgo, hempty⟩ := hset.sound.idle h
  exact ⟨hset.trans hgo, hempty⟩

/-- `run_for(a)` and then `run_for(b)` come to `v`, having woken `k` waiters. -/
def Splits (tasks : Tasks σ) (w : ClockWorld σ) (a b : Int) (v : ClockWorld σ) (k : Nat) : Prop :=
  ∃ n₁ n₂ w₁ k₁ k₂, w.runFor tasks n₁ a = some (w₁, k₁) ∧
    w₁.runFor tasks n₂ b = some (v, k₂) ∧ k = k₁ + k₂

theorem Sound.splits {a b : Int} (hs : Sound w) (ha : 0 ≤ a) (hb : 0 ≤ b)
    (hk : RunKeeps tasks w a) (h : w.runFor tasks n (a + b) = some (w', k)) :
    ∃ v, Splits tasks w a b v k ∧ Alike w' v ∧ w'.now = v.now := by
  obtain ⟨r, hd, rfl, -⟩ := hs.runFor_eq h
  have hset : Goes w (w.settle tasks) := hs.settle
  have hnow : (w.settle tasks).now ≤ w.now + a := by
    rw [settle_now]
    omega
  obtain ⟨w₁, k₁, v, h₁, h₂, halike⟩ :=
    drain_split hset.sound hnow (by omega : w.now + a ≤ w.now + (a + b)) hk hd
  have hs₁ : Sound (w₁.setNow (w.now + a)) := (hset.sound.drain hnow hk h₁).setNow.sound
  have hq : Quiet tasks (w₁.setNow (w.now + a)) := (quiet_settle w).drain hset.sound h₁
  have htime : w.now + a + b = w.now + (a + b) := by omega
  rw [drain_count hs₁] at h₂
  obtain ⟨⟨v', k₂⟩, h₃, heq⟩ := Option.map_eq_some_iff.mp h₂
  obtain ⟨rfl, hcount⟩ := Prod.mk.inj heq
  refine ⟨v'.setNow (w.now + (a + b)), ⟨n, n, _, k₁, k₂, hs.runFor_mk h₁, ?_, hcount.symm⟩, ?_, rfl⟩
  · rw [← htime]
    apply hs₁.runFor_mk (a := b)
    rw [hq.settle]
    show ClockWorld.drain tasks n _ (w.now + a + b) 0 = _
    rw [htime]
    exact h₃
  · exact halike.setNow.trans (Alike.setNow ⟨rfl, rfl, rfl, rfl, rfl, rfl⟩).symm

theorem Sound.joins {a b : Int} {v : ClockWorld σ} (hs : Sound w) (ha : 0 ≤ a) (hb : 0 ≤ b)
    (hk : RunKeeps tasks w a) (h : Splits tasks w a b v k) :
    ∃ m w', w.runFor tasks m (a + b) = some (w', k) ∧ Alike w' v ∧ w'.now = v.now := by
  obtain ⟨n₁, n₂, w₁, k₁, k₂, h₁, h₂, rfl⟩ := h
  obtain ⟨r₁, hd₁, rfl, hq⟩ := hs.runFor_eq h₁
  have hset : Goes w (w.settle tasks) := hs.settle
  have hnow : (w.settle tasks).now ≤ w.now + a := by
    rw [settle_now]
    omega
  have hs₁ : Sound (r₁.setNow (w.now + a)) := (hset.sound.drain hnow hk hd₁).setNow.sound
  obtain ⟨r₂, hd₂, rfl, -⟩ := hs₁.runFor_eq h₂
  have htime : w.now + a + b = w.now + (a + b) := by omega
  rw [hq.settle] at hd₂
  have hcount : ClockWorld.drain tasks n₂ (r₁.setNow (w.now + a)) (w.now + a + b) k₁ =
      some (r₂, k₁ + k₂) := by
    rw [drain_count hs₁]
    exact congrArg (Option.map _) hd₂
  rw [htime] at hcount
  obtain ⟨u, hu, halike⟩ := drain_trans hset.sound hnow (by omega) hk hd₁ hcount
  refine ⟨n₁ + n₂, _, hs.runFor_mk hu, ?_, ?_⟩
  · exact halike.symm.setNow.trans (Alike.setNow ⟨rfl, rfl, rfl, rfl, rfl, rfl⟩).symm
  · show w.now + (a + b) = w.now + a + b
    omega

end ClockWorld

/-! ## Runs -/

/-- What may be done with a clock from outside. -/
inductive ClockAction (σ : Type) where
  | op (o : ClockOp)
  | client (c : σ)
  | runFor (fuel : Nat) (simNs : Int)
  | runUntilIdle (maxEvents : Nat)

def spoofMachine {σ : Type} (tasks : Tasks σ) : Machine (ClockWorld σ) (ClockAction σ) where
  step w
    | .op o => some (w.act o)
    | .client c => some { w with client := c }
    | .runFor fuel simNs => if 0 ≤ simNs then (w.runFor tasks fuel simNs).map Prod.fst else none
    | .runUntilIdle maxEvents => some (w.runUntilIdle tasks maxEvents).1

namespace ClockWorld

variable {σ : Type} {tasks : Tasks σ} {w w' : ClockWorld σ} {k : Nat}

def start (c : σ) : ClockWorld σ := { client := c }

/-- No waiter loses its place. -/
def KeepsPlaces (tasks : Tasks σ) (w : ClockWorld σ) : ClockAction σ → Prop
  | .runFor _ simNs => RunKeeps tasks w simNs
  | _ => True

theorem sound_start (c : σ) : Sound (start c) := by
  have hempty : (start c).agenda = ⟨0, ∅, 0, []⟩ := by
    rw [agenda, Agenda.mk.injEq]
    refine ⟨rfl, ?_, rfl, rfl⟩
    ext x
    constructor
    · rintro ⟨e, he, -⟩
      cases he.1
    · rintro ⟨⟩
  refine ⟨⟨?_, ?_, List.nodup_nil, List.nodup_nil, ?_, ?_⟩, ?_, ?_, ?_⟩
  · exact fun e he => by cases he
  · exact fun e he => by cases he
  · exact fun i hi => by cases hi
  · exact fun i hi => by cases hi
  · exact fun e f he => by cases he.1
  · rw [hempty]
    exact Agenda.kept_start 0
  · rw [hempty]
    exact Agenda.punctual_start 0

theorem sound_preserves : (spoofMachine tasks).Preserves (KeepsPlaces tasks) Sound := by
  intro w a w' hs hk h
  cases a with
  | op o =>
    obtain rfl := Option.some.inj h
    exact (hs.act o).sound
  | client c =>
    obtain rfl := Option.some.inj h
    exact (hs.client c).sound
  | runFor fuel simNs =>
    simp only [spoofMachine] at h
    split_ifs at h with h0
    obtain ⟨⟨w₁, n⟩, hd, rfl⟩ := Option.map_eq_some_iff.mp h
    exact (hs.runFor h0 hk hd).1.sound
  | runUntilIdle maxEvents =>
    obtain rfl := Option.some.inj h
    exact (hs.runUntilIdle rfl).1.sound

/-- The waiters woken so far were woken in order of deadline and registration, each when its
deadline was reached, and none that was cancelled before. -/
structure InTurn (w : ClockWorld σ) : Prop where
  order : w.woken.Pairwise fun x y => x.key < y.key
  onTime : ∀ x t, .woken x t ∈ w.history → t = x.deadline ∧ .registered x ∈ w.history
  valid : w.history.Pairwise fun x y => ¬ Agenda.Stale x y
  whole : ∀ x, .registered x ∈ w.history → x.deadline < w.now →
    x ∈ w.woken ∨ Agenda.Forestalled w.history x

theorem Sound.inTurn (hs : Sound w) : InTurn w := by
  refine ⟨hs.kept.sorted, fun x t hx => ⟨hs.punctual.onTime x t hx, (hs.kept.due x t hx).2⟩,
    hs.kept.valid, fun x hx hlt => ?_⟩
  rcases hs.kept.whole x hx with hw | hw | hw
  · exact absurd hlt (not_lt.mpr (hs.punctual.ahead x hw))
  · exact Or.inl hw
  · exact Or.inr hw

/-- After a drive every waiter that is due has been woken or cancelled. -/
def CaughtUp (w : ClockWorld σ) (due : Waiter Int → Prop) : Prop :=
  ∀ x, .registered x ∈ w.history → due x → x ∈ w.woken ∨ Agenda.Forestalled w.history x

theorem Sound.caughtUp {due : Waiter Int → Prop} (hs : Sound w)
    (hnone : ∀ x ∈ w.agenda.waiting, ¬ due x) : CaughtUp w due := by
  intro x hx hdue
  rcases hs.kept.whole x hx with hw | hw | hw
  · exact absurd hdue (hnone x hw)
  · exact Or.inl hw
  · exact Or.inr hw

end ClockWorld

open ClockWorld

/-- In a run where `run_for` never puts a waiter back behind another of its deadline, waiters
are woken in turn; a drive leaves none out; and a `run_for` may be split. -/
theorem wakes_in_turn {σ : Type} (tasks : Tasks σ) (c : σ) (as : List (ClockAction σ))
    (w : ClockWorld σ) (hk : (spoofMachine tasks).AllSteps (KeepsPlaces tasks) (start c) as)
    (hrun : (spoofMachine tasks).run (start c) as = some w) :
    InTurn w ∧
    (∀ n a w' k, 0 ≤ a → RunKeeps tasks w a → w.runFor tasks n a = some (w', k) →
      InTurn w' ∧ w'.now = w.now + a ∧ CaughtUp w' fun x => x.deadline ≤ w'.now) ∧
    (∀ n w' r, w.runUntilIdle tasks n = (w', r) →
      InTurn w' ∧ (r ≠ none → CaughtUp w' fun _ => True)) ∧
    ∀ a b, 0 ≤ a → 0 ≤ b → RunKeeps tasks w a →
      (∀ n w' k, w.runFor tasks n (a + b) = some (w', k) →
        ∃ v, Splits tasks w a b v k ∧ Alike w' v ∧ w'.now = v.now) ∧
      (∀ v k, Splits tasks w a b v k →
        ∃ n w', w.runFor tasks n (a + b) = some (w', k) ∧ Alike w' v ∧ w'.now = v.now) := by
  have hs : Sound w := sound_preserves.run (sound_start c) hk hrun
  refine ⟨hs.inTurn, ?_, ?_, ?_⟩
  · intro n a w' k h0 hkeep h
    obtain ⟨hgo, hnow, hlate⟩ := hs.runFor h0 hkeep h
    exact ⟨hgo.sound.inTurn, hnow, hgo.sound.caughtUp fun x hx => not_le.mpr (hlate x hx)⟩
  · intro n w' r h
    obtain ⟨hgo, hempty⟩ := hs.runUntilIdle h
    refine ⟨hgo.sound.inTurn, fun hr => hgo.sound.caughtUp fun x hx => ?_⟩
    rw [hempty hr] at hx
    exact hx.elim
  · intro a b ha hb hkeep
    exact ⟨fun n w' k h => hs.splits ha hb hkeep h, fun v k h => hs.joins ha hb hkeep h⟩

/-- Tasks that do nothing. -/
def idleTasks : Tasks Unit where
  wake c _ := c
  settle c _ _ := (c, [])
  settled _ _ _ _ _ := rfl

/-- The first of two waiters is cancelled; the second, put back at 5, waits alone. -/
def oneLeft : ClockWorld Unit :=
  (((start ()).act (.waitNs 5)).act (.waitNs 10)).act (.cancel 0)

theorem wakes_in_turn_put_back :
    ∃ v, Splits idleTasks oneLeft 5 5 v 1 ∧ v.woken = [⟨10, 1⟩] ∧ v.now = 10 := by
  have hrun : (spoofMachine idleTasks).run (start ())
      [.op (.waitNs 5), .op (.waitNs 10), .op (.cancel 0)] = some oneLeft := rfl
  have hkeep : RunKeeps idleTasks oneLeft 5 := by
    intro n
    cases n with
    | zero => rfl
    | succ n => rfl
  have hplaces : (spoofMachine idleTasks).AllSteps (KeepsPlaces idleTasks) (start ())
      [.op (.waitNs 5), .op (.waitNs 10), .op (.cancel 0)] :=
    ⟨trivial, fun _ _ => ⟨trivial, fun _ _ => ⟨trivial, fun _ _ => trivial⟩⟩⟩
  obtain ⟨-, -, -, hsplit⟩ := wakes_in_turn idleTasks () _ oneLeft hplaces hrun
  obtain ⟨hsplits, -⟩ := hsplit 5 5 (by decide) (by decide) hkeep
  obtain ⟨v, hv, halike, hnow⟩ := hsplits 9 _ 1 rfl
  refine ⟨v, hv, ?_, ?_⟩
  · rw [woken, ← halike.history]
    rfl
  · rw [← hnow]
    rfl

/-- Three waiters, of which the first is cancelled and the others are due together. -/
def threeWaiters : List (ClockAction Unit) :=
  [.op (.waitNs 5), .op (.waitNs 10), .op (.waitNs 10), .op (.cancel 0)]

/-- Put back at 5, the second waiter is woken after the third. -/
theorem wakes_out_of_turn : ∃ u v,
    (spoofMachine idleTasks).run (start ()) (threeWaiters ++ [.runFor 9 10]) = some u ∧
    (spoofMachine idleTasks).run (start ()) (threeWaiters ++ [.runFor 9 5, .runFor 9 5]) = some v ∧
    u.woken = [⟨10, 1⟩, ⟨10, 2⟩] ∧ v.woken = [⟨10, 2⟩, ⟨10, 1⟩] ∧ ¬ InTurn v := by
  refine ⟨_, _, rfl, rfl, rfl, rfl, fun h => ?_⟩
  have hlt : (⟨10, 2⟩ : Waiter Int).key < (⟨10, 1⟩ : Waiter Int).key :=
    (List.pairwise_cons.mp h.order).1 ⟨10, 1⟩ (List.mem_singleton_self _)
  exact absurd hlt (by decide)

end HdlPlayground.Cosim

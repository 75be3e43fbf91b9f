import Mathlib.Data.List.Nodup
import Mathlib.Logic.Function.Basic
import HdlPlayground.Lib.Agenda
import HdlPlayground.Lib.Machine

/-!
# The time multiplexer

`TimeMux` of the testbench, with the coroutines that share `sv_lock`: those that call `step`
and those that send segments. A coroutine is where its last `await` has left it, and between
two awaits of one the others may do anything. Simulation time passes only while an SV call is
in flight, and an SV wait of `d` takes exactly `d`.
-/
namespace HdlPlayground.Cosim

open Lib

/-- What `step` reads before it takes the lock: the time, its argument, and the deadlines of
the waiters that are live. -/
structure Reading where
  now : Int
  maxNs : Int
  live : List Int
deriving DecidableEq

namespace Reading

def target (r : Reading) : Int :=
  match r.live.min? with
  | none => r.now + r.maxNs
  | some d => min (r.now + r.maxNs) d

def delta (r : Reading) : Int := r.target - r.now

end Reading

/-- An SV wait, with the deadlines that were live when it was issued. -/
structure SvWait where
  reading : Reading
  issued : Int
  live : List Int
deriving DecidableEq

def SvWait.ends (v : SvWait) : Int := v.issued + v.reading.delta

/-- Where a coroutine stands, in `step` or in `send_segment`. -/
inductive Phase where
  | idle
  | settling (maxNs : Int)
  | fired (maxNs : Int)
  | queued (r : Reading)
  | sleeping (v : SvWait)
  | closing
  | sending
  | driving
deriving DecidableEq

/-- Future and heap entry are numbered alike, by `next(self._ctr)`. -/
structure TimeMux where
  heap : List (Waiter Int) := []
  ctr : Nat := 0

/-- The multiplexer, the lock with those who wait for it, and the coroutines; with the record
of the SV waits that have ended, and when. -/
structure MuxWorld where
  now : Int := 0
  mux : TimeMux := {}
  done : List Nat := []
  cancelled : List Nat := []
  holder : Option Nat := none
  queue : List Nat := []
  tasks : Nat → Phase := fun _ => .idle
  history : List (Note Int) := []
  waits : List (SvWait × Int) := []

inductive MuxAction where
  | waitNs (delayNs : Int)
  | cancel (fut : Nat)
  | step (p : Nat) (maxNs : Int)
  | fire (p : Nat)
  | look (p : Nat)
  | resume (p : Nat)
  | slept (p : Nat)
  | ret (p : Nat)
  | send (p : Nat)
  | sent (p : Nat)
  | pass (dt : Int)

namespace MuxWorld

def waitNs (w : MuxWorld) (delayNs : Int) : MuxWorld :=
  { w with
    mux.heap := w.mux.heap ++ [⟨w.now + max 0 delayNs, w.mux.ctr⟩]
    mux.ctr := w.mux.ctr + 1
    history := w.history ++ [.registered ⟨w.now + max 0 delayNs, w.mux.ctr⟩] }

/-- The cancelling of a future, which does nothing to one that is done. -/
def cancel (w : MuxWorld) (i : Nat) : MuxWorld :=
  if i < w.mux.ctr ∧ i ∉ w.done ∧ i ∉ w.cancelled then
    { w with cancelled := i :: w.cancelled, history := w.history ++ [.cancelled i] }
  else w

/-- `heapq.heappop`. -/
def drop (w : MuxWorld) (x : Waiter Int) : MuxWorld :=
  { w with mux.heap := w.mux.heap.filter fun y => y.id != x.id }

/-- `fut.set_result(None)`. -/
def resolve (w : MuxWorld) (x : Waiter Int) : MuxWorld :=
  { w with done := x.id :: w.done, history := w.history ++ [.woken x w.now] }

/-- The loop of `_fire_due`, with as many rounds as there are entries. -/
def fireLoop : Nat → MuxWorld → Nat → MuxWorld × Nat
  | 0, w, fired => (w, fired)
  | n + 1, w, fired =>
    match (heapTop Waiter.key w.mux.heap).filter fun x => x.deadline ≤ w.now with
    | none => (w, fired)
    | some x =>
      if x.id ∈ w.cancelled then fireLoop n (w.drop x) fired
      else fireLoop n ((w.drop x).resolve x) (fired + 1)

def fireDue (w : MuxWorld) : MuxWorld × Nat := fireLoop w.mux.heap.length w 0

def live (w : MuxWorld) : List Int :=
  (w.mux.heap.filter fun x => x.id ∉ w.cancelled).map Waiter.deadline

def reading (w : MuxWorld) (maxNs : Int) : Reading := ⟨w.now, maxNs, w.live⟩

def setPhase (w : MuxWorld) (p : Nat) (ph : Phase) : MuxWorld :=
  { w with tasks := Function.update w.tasks p ph }

/-- `async with sv_lock()`: a free lock is taken at once. -/
def acquire (w : MuxWorld) (p : Nat) (waiting holding : Phase) : MuxWorld :=
  match w.holder with
  | none => { w.setPhase p holding with holder := some p }
  | some _ => { w.setPhase p waiting with queue := w.queue ++ [p] }

/-- The lock goes to the first who waits for it. -/
def release (w : MuxWorld) : MuxWorld :=
  { w with holder := w.queue.head?, queue := w.queue.tail }

/-- `step` after its second settling. -/
def look (w : MuxWorld) (p : Nat) (maxNs : Int) : MuxWorld :=
  let r := w.reading maxNs
  if 0 < r.delta then w.acquire p (.queued r) (.sleeping ⟨r, w.now, w.live⟩)
  else w.fireDue.1.setPhase p .closing

/-- `step` when its SV wait has ended. -/
def wakeUp (w : MuxWorld) (p : Nat) (v : SvWait) : MuxWorld :=
  ({ w.release with waits := w.waits ++ [(v, w.now)] }.fireDue.1).setPhase p .closing

end MuxWorld

/-- How far time may go: not beyond the end of an SV wait. -/
def Phase.lets (t : Int) : Phase → Bool
  | .driving => true
  | .sleeping v => decide (t ≤ v.ends)
  | _ => false

def muxMachine : Machine MuxWorld MuxAction where
  step w
    | .waitNs delayNs => some (w.waitNs delayNs)
    | .cancel i => some (w.cancel i)
    | .step p maxNs =>
      match w.tasks p with
      | .idle => some (w.setPhase p (.settling maxNs))
      | _ => none
    | .fire p =>
      match w.tasks p with
      | .settling maxNs => some (w.fireDue.1.setPhase p (.fired maxNs))
      | _ => none
    | .look p =>
      match w.tasks p with
      | .fired maxNs => some (w.look p maxNs)
      | _ => none
    | .resume p =>
      if w.holder = some p then
        match w.tasks p with
        | .queued r => some (w.setPhase p (.sleeping ⟨r, w.now, w.live⟩))
        | .sending => some (w.setPhase p .driving)
        | _ => none
      else none
    | .slept p =>
      match w.tasks p with
      | .sleeping v => if w.now = v.ends then some (w.wakeUp p v) else none
      | _ => none
    | .ret p =>
      match w.tasks p with
      | .closing => some (w.setPhase p .idle)
      | _ => none
    | .send p =>
      match w.tasks p with
      | .idle => some (w.acquire p .sending .driving)
      | _ => none
    | .sent p =>
      match w.tasks p with
      | .driving => some (w.release.setPhase p .idle)
      | _ => none
    | .pass dt =>
      match w.holder with
      | none => none
      | some p =>
        if 0 ≤ dt ∧ (w.tasks p).lets (w.now + dt) then some { w with now := w.now + dt } else none

namespace MuxWorld

variable {w w' : MuxWorld} {p q : Nat} {x : Waiter Int} {r : Reading} {v : SvWait} {n k : Nat}

/-! ## The agenda of a multiplexer -/

def Live (w : MuxWorld) (x : Waiter Int) : Prop := x ∈ w.mux.heap ∧ x.id ∉ w.cancelled

def agenda (w : MuxWorld) : Agenda Int where
  now := w.now
  waiting := {x | w.Live x}
  next := w.mux.ctr
  history := w.history

structure Filed (w : MuxWorld) : Prop where
  fresh : ∀ x ∈ w.mux.heap, x.id < w.mux.ctr
  nodup : (w.mux.heap.map Waiter.id).Nodup
  cancelled : ∀ i ∈ w.cancelled, i < w.mux.ctr
  kept : w.agenda.Kept

theorem Filed.waitNs (h : Filed w) (d : Int) : Filed (w.waitNs d) := by
  have hge : w.now ≤ w.now + max 0 d := by omega
  have hfresh : w.mux.ctr ∉ w.cancelled := fun hc => Nat.lt_irrefl _ (h.cancelled _ hc)
  constructor
  · intro x hx
    rcases List.mem_append.mp hx with hx | hx
    · exact Nat.lt_succ_of_lt (h.fresh x hx)
    · rw [List.mem_singleton.mp hx]
      exact Nat.lt_succ_self _
  · show ((w.mux.heap ++ [_]).map Waiter.id).Nodup
    rw [List.map_append]
    apply List.Nodup.append h.nodup (List.nodup_singleton _)
    intro n hn hm
    obtain ⟨x, hx, rfl⟩ := List.mem_map.mp hn
    exact Nat.ne_of_lt (h.fresh x hx) (List.mem_singleton.mp hm)
  · exact fun i hi => Nat.lt_succ_of_lt (h.cancelled i hi)
  · have heq : (w.waitNs d).agenda = { w.agenda with
        waiting := insert ⟨w.now + max 0 d, w.mux.ctr⟩ w.agenda.waiting
        next := w.agenda.next + 1
        history := w.agenda.history ++ [.registered ⟨w.now + max 0 d, w.mux.ctr⟩] } := by
      rw [agenda, Agenda.mk.injEq]
      refine ⟨rfl, ?_, rfl, rfl⟩
      ext x
      constructor
      · rintro ⟨hx, hc⟩
        rcases List.mem_append.mp hx with hx | hx
        · exact Or.inr ⟨hx, hc⟩
        · exact Or.inl (List.mem_singleton.mp hx)
      · rintro (rfl | ⟨hx, hc⟩)
        · exact ⟨List.mem_append_right _ (List.mem_singleton_self _), hfresh⟩
        · exact ⟨List.mem_append_left _ hx, hc⟩
    rw [heq]
    exact h.kept.register hge

theorem Filed.cancel (h : Filed w) (i : Nat) : Filed (w.cancel i) := by
  by_cases hi : i < w.mux.ctr ∧ i ∉ w.done ∧ i ∉ w.cancelled
  · rw [MuxWorld.cancel, if_pos hi]
    refine ⟨h.fresh, h.nodup, ?_, ?_⟩
    · intro j hj
      rcases List.mem_cons.mp hj with rfl | hj
      · exact hi.1
      · exact h.cancelled j hj
    · have heq : agenda { w with
            cancelled := i :: w.cancelled, history := w.history ++ [.cancelled i] } =
          { w.agenda with
            waiting := {x | x ∈ w.agenda.waiting ∧ x.id ≠ i}
            history := w.agenda.history ++ [.cancelled i] } := by
        rw [agenda, Agenda.mk.injEq]
        refine ⟨rfl, ?_, rfl, rfl⟩
        ext x
        constructor
        · rintro ⟨hx, hc⟩
          rw [List.mem_cons, not_or] at hc
          exact ⟨⟨hx, hc.2⟩, hc.1⟩
        · rintro ⟨⟨hx, hc⟩, hne⟩
          refine ⟨hx, ?_⟩
          rw [List.mem_cons, not_or]
          exact ⟨hne, hc⟩
      rw [heq]
      exact h.kept.cancel hi.1
  · rw [MuxWorld.cancel, if_neg hi]
    exact h

theorem mem_drop {y : Waiter Int} : y ∈ (w.drop x).mux.heap ↔ y ∈ w.mux.heap ∧ y.id ≠ x.id := by
  simp only [drop, List.mem_filter, bne_iff_ne]

/-- An entry that is cancelled goes, and all stays as it was for the others. -/
theorem Filed.drop (h : Filed w) (hc : x.id ∈ w.cancelled) :
    Filed (w.drop x) := by
  refine ⟨fun y hy => h.fresh y (mem_drop.mp hy).1, ?_, h.cancelled, ?_⟩
  · exact h.nodup.sublist (List.filter_sublist.map _)
  · have heq : (w.drop x).agenda = w.agenda := by
      rw [agenda, agenda, Agenda.mk.injEq]
      refine ⟨rfl, ?_, rfl, rfl⟩
      ext y
      constructor
      · exact fun hy => ⟨(mem_drop.mp hy.1).1, hy.2⟩
      · intro hy
        refine ⟨mem_drop.mpr ⟨hy.1, fun heq => ?_⟩, hy.2⟩
        exact hy.2 (heq ▸ hc)
    rw [heq]
    exact h.kept

/-- The first of the heap is resolved when it is due. -/
theorem Filed.resolve (h : Filed w) (ht : heapTop Waiter.key w.mux.heap = some x)
    (hc : x.id ∉ w.cancelled) (hd : x.deadline ≤ w.now) : Filed ((w.drop x).resolve x) := by
  have hx := heapTop_mem ht
  refine ⟨fun y hy => h.fresh y (mem_drop.mp hy).1, ?_, h.cancelled, ?_⟩
  · exact h.nodup.sublist (List.filter_sublist.map _)
  · have heq : ((w.drop x).resolve x).agenda = { w.agenda with
        waiting := {y | y ∈ w.agenda.waiting ∧ y.id ≠ x.id}
        history := w.agenda.history ++ [.woken x w.agenda.now] } := by
      rw [agenda, Agenda.mk.injEq]
      refine ⟨rfl, ?_, rfl, rfl⟩
      ext y
      constructor
      · exact fun hy => ⟨⟨(mem_drop.mp hy.1).1, hy.2⟩, (mem_drop.mp hy.1).2⟩
      · exact fun hy => ⟨mem_drop.mpr ⟨hy.1.1, hy.2⟩, hy.1.2⟩
    rw [heq]
    apply h.kept.wake ⟨hx, hc⟩ _ hd
    exact fun y hy => heapTop_le ht hy.1

/-- Firing leaves the coroutines, the lock and the clock alone. -/
structure Fires (w w' : MuxWorld) : Prop where
  now : w'.now = w.now
  holder : w'.holder = w.holder
  tasks : w'.tasks = w.tasks
  waits : w'.waits = w.waits

theorem Fires.trans {u v : MuxWorld} (h : Fires w u) (h' : Fires u v) : Fires w v :=
  ⟨h'.now.trans h.now, h'.holder.trans h.holder, h'.tasks.trans h.tasks, h'.waits.trans h.waits⟩

/-- And nothing due is left. -/
theorem Filed.fireLoop (h : Filed w) (hn : w.mux.heap.length ≤ n) :
    Filed (fireLoop n w k).1 ∧ Fires w (fireLoop n w k).1 ∧
      ∀ x ∈ (fireLoop n w k).1.agenda.waiting, w.now < x.deadline := by
  induction n generalizing w k with
  | zero =>
    have hnil : w.mux.heap = [] := List.length_eq_zero_iff.mp (Nat.le_zero.mp hn)
    refine ⟨h, ⟨rfl, rfl, rfl, rfl⟩, fun x hx => ?_⟩
    have hmem : x ∈ w.mux.heap := hx.1
    rw [hnil] at hmem
    cases hmem
  | succ n ih =>
    rw [MuxWorld.fireLoop]
    cases ht : (heapTop Waiter.key w.mux.heap).filter fun x => x.deadline ≤ w.now with
    | none =>
      refine ⟨h, ⟨rfl, rfl, rfl, rfl⟩, fun y hy => ?_⟩
      cases htop : heapTop Waiter.key w.mux.heap with
      | none =>
        have hmem : y ∈ w.mux.heap := hy.1
        rw [heapTop_eq_none.mp htop] at hmem
        cases hmem
      | some x =>
        rw [htop, Option.filter_eq_none_iff] at ht
        have hlt : w.now < x.deadline := by simpa using ht x rfl
        rcases Prod.Lex.le_iff.mp (heapTop_le htop hy.1) with hle | ⟨heq, -⟩
        · exact lt_trans hlt hle
        · exact lt_of_lt_of_eq hlt heq
    | some x =>
      obtain ⟨htop, hdue⟩ := Option.filter_eq_some_iff.mp ht
      have hd : x.deadline ≤ w.now := by simpa using hdue
      have hshort : (w.drop x).mux.heap.length < w.mux.heap.length := by
        apply List.length_filter_lt_length_iff_exists.mpr
        exact ⟨x, heapTop_mem htop, by simp⟩
      dsimp only
      split_ifs with hc
      · obtain ⟨hf, hfire, hlate⟩ := ih (h.drop hc) (by omega)
        have hdrop : Fires w (w.drop x) := ⟨rfl, rfl, rfl, rfl⟩
        exact ⟨hf, hdrop.trans hfire, hlate⟩
      · have hres := h.resolve htop hc hd
        have hlen : ((w.drop x).resolve x).mux.heap.length ≤ n := by
          show (w.drop x).mux.heap.length ≤ n
          omega
        obtain ⟨hf, hfire, hlate⟩ := ih hres hlen
        have hresolve : Fires w ((w.drop x).resolve x) := ⟨rfl, rfl, rfl, rfl⟩
        exact ⟨hf, hresolve.trans hfire, hlate⟩

theorem Filed.fireDue (h : Filed w) : Filed w.fireDue.1 ∧ Fires w w.fireDue.1 ∧
    ∀ x ∈ w.fireDue.1.agenda.waiting, w.now < x.deadline := h.fireLoop (le_refl _)

/-- The coroutines and the lock are not the heap's affair. -/
theorem Filed.of_eq (h : Filed w) (hn : w.now ≤ w'.now) (hm : w'.mux = w.mux)
    (hc : w'.cancelled = w.cancelled) (hh : w'.history = w.history) : Filed w' := by
  have heq : w'.agenda = { w.agenda with now := w'.now } := by
    rw [agenda, Agenda.mk.injEq]
    refine ⟨rfl, ?_, congrArg TimeMux.ctr hm, hh⟩
    simp only [Live, hm, hc]
    rfl
  refine ⟨?_, ?_, ?_, ?_⟩
  · rw [hm]
    exact h.fresh
  · rw [hm]
    exact h.nodup
  · rw [hm, hc]
    exact h.cancelled
  · rw [heq]
    exact h.kept.pass hn

/-! ## The coroutines -/

/-- An SV call is in flight. -/
def InCall : Phase → Prop
  | .sleeping _ | .driving => True
  | _ => False

/-- At most one SV call is in flight, that of the coroutine with the lock, and time has not
gone beyond its end. -/
structure Orderly (w : MuxWorld) : Prop where
  alone : ∀ p, InCall (w.tasks p) → w.holder = some p
  queued : ∀ p r, w.tasks p = .queued r → 0 < r.delta
  ahead : ∀ p v, w.tasks p = .sleeping v → w.now ≤ v.ends

theorem setPhase_tasks_self (ph : Phase) : (w.setPhase p ph).tasks p = ph := by
  show Function.update w.tasks p ph p = ph
  rw [Function.update_self]

theorem setPhase_tasks_ne (ph : Phase) (h : q ≠ p) : (w.setPhase p ph).tasks q = w.tasks q := by
  show Function.update w.tasks p ph q = w.tasks q
  rw [Function.update_of_ne h]

/-- A coroutine goes on to where no SV call is in flight. -/
theorem Orderly.setPhase (h : Orderly w) {ph : Phase} (hn : ¬ InCall ph)
    (hq : ∀ r, ph = .queued r → 0 < r.delta) : Orderly (w.setPhase p ph) := by
  refine ⟨fun q hq' => ?_, fun q r hr => ?_, fun q v hv => ?_⟩
  · by_cases he : q = p
    · subst he
      rw [setPhase_tasks_self] at hq'
      exact absurd hq' hn
    · rw [setPhase_tasks_ne ph he] at hq'
      exact h.alone q hq'
  · by_cases he : q = p
    · subst he
      rw [setPhase_tasks_self] at hr
      exact hq r hr
    · rw [setPhase_tasks_ne ph he] at hr
      exact h.queued q r hr
  · by_cases he : q = p
    · subst he
      rw [setPhase_tasks_self] at hv
      rw [hv] at hn
      exact absurd trivial hn
    · rw [setPhase_tasks_ne ph he] at hv
      exact h.ahead q v hv

/-- A coroutine with the lock begins its SV call. -/
theorem Orderly.call (h : Orderly w) {ph : Phase} (hp : w.holder = some p)
    (hq : ∀ r, ph ≠ .queued r) (hv : ∀ v, ph = .sleeping v → w.now ≤ v.ends) :
    Orderly (w.setPhase p ph) := by
  refine ⟨fun q hq' => ?_, fun q r hr => ?_, fun q v hs => ?_⟩
  · by_cases he : q = p
    · rw [he]
      exact hp
    · rw [setPhase_tasks_ne ph he] at hq'
      exact h.alone q hq'
  · by_cases he : q = p
    · subst he
      rw [setPhase_tasks_self] at hr
      exact absurd hr (hq r)
    · rw [setPhase_tasks_ne ph he] at hr
      exact h.queued q r hr
  · by_cases he : q = p
    · subst he
      rw [setPhase_tasks_self] at hs
      exact hv v hs
    · rw [setPhase_tasks_ne ph he] at hs
      exact h.ahead q v hs

/-- With the lock free no SV call is in flight. -/
theorem Orderly.free (h : Orderly w) (hf : w.holder = none) (q : Nat) : ¬ InCall (w.tasks q) := by
  intro hq
  have hh := h.alone q hq
  rw [hf] at hh
  cases hh

theorem Orderly.acquire (h : Orderly w) {waiting holding : Phase} (hw : ¬ InCall waiting)
    (hwq : ∀ r, waiting = .queued r → 0 < r.delta) (hh : ∀ r, holding ≠ .queued r)
    (hv : ∀ v, holding = .sleeping v → w.now ≤ v.ends) :
    Orderly (w.acquire p waiting holding) := by
  rw [MuxWorld.acquire]
  cases hf : w.holder with
  | none =>
    have hstart : Orderly { w with holder := some p } :=
      ⟨fun q hq => absurd hq (h.free hf q), h.queued, h.ahead⟩
    exact hstart.call rfl hh hv
  | some g =>
    have hset : Orderly (w.setPhase p waiting) := h.setPhase hw hwq
    exact ⟨hset.alone, hset.queued, hset.ahead⟩

/-- The coroutine with the lock has ended its SV call and goes on. -/
theorem Orderly.leave (h : Orderly w) (hp : InCall (w.tasks p)) {ph : Phase} {u : MuxWorld}
    (hn : ¬ InCall ph) (hq : ∀ r, ph ≠ .queued r) (ht : u.tasks = w.tasks) :
    Orderly (u.setPhase p ph) := by
  have hsole (q : Nat) (he : q ≠ p) : ¬ InCall (w.tasks q) := by
    intro hc
    have h1 := h.alone q hc
    rw [h.alone p hp] at h1
    exact he (Option.some.inj h1).symm
  have hne {q : Nat} (he : q ≠ p) : (u.setPhase p ph).tasks q = w.tasks q := by
    rw [setPhase_tasks_ne ph he, ht]
  refine ⟨fun q hc => ?_, fun q r hr => ?_, fun q v hv => ?_⟩
  · by_cases he : q = p
    · subst he
      rw [setPhase_tasks_self] at hc
      exact absurd hc hn
    · rw [hne he] at hc
      exact absurd hc (hsole q he)
  · by_cases he : q = p
    · subst he
      rw [setPhase_tasks_self] at hr
      exact absurd hr (hq r)
    · rw [hne he] at hr
      exact h.queued q r hr
  · by_cases he : q = p
    · subst he
      rw [setPhase_tasks_self] at hv
      rw [hv] at hn
      exact absurd trivial hn
    · rw [hne he] at hv
      have hc : InCall (w.tasks q) := hv ▸ trivial
      exact absurd hc (hsole q he)

/-! ## One step -/

/-- What one step can do. -/
inductive Steps (w : MuxWorld) : MuxAction → MuxWorld → Prop
  | waitNs (d : Int) : Steps w (.waitNs d) (w.waitNs d)
  | cancel (i : Nat) : Steps w (.cancel i) (w.cancel i)
  | step (p : Nat) (m : Int) : w.tasks p = .idle →
      Steps w (.step p m) (w.setPhase p (.settling m))
  | fire (p : Nat) (m : Int) : w.tasks p = .settling m →
      Steps w (.fire p) (w.fireDue.1.setPhase p (.fired m))
  | look (p : Nat) (m : Int) : w.tasks p = .fired m → 0 < (w.reading m).delta →
      Steps w (.look p)
        (w.acquire p (.queued (w.reading m)) (.sleeping ⟨w.reading m, w.now, w.live⟩))
  | skip (p : Nat) (m : Int) : w.tasks p = .fired m → ¬ 0 < (w.reading m).delta →
      Steps w (.look p) (w.fireDue.1.setPhase p .closing)
  | resume (p : Nat) (r : Reading) : w.holder = some p → w.tasks p = .queued r →
      Steps w (.resume p) (w.setPhase p (.sleeping ⟨r, w.now, w.live⟩))
  | drive (p : Nat) : w.holder = some p → w.tasks p = .sending →
      Steps w (.resume p) (w.setPhase p .driving)
  | slept (p : Nat) (v : SvWait) : w.tasks p = .sleeping v → w.now = v.ends →
      Steps w (.slept p) (w.wakeUp p v)
  | ret (p : Nat) : w.tasks p = .closing → Steps w (.ret p) (w.setPhase p .idle)
  | send (p : Nat) : w.tasks p = .idle → Steps w (.send p) (w.acquire p .sending .driving)
  | sent (p : Nat) : w.tasks p = .driving → Steps w (.sent p) (w.release.setPhase p .idle)
  | pass (p : Nat) (dt : Int) : w.holder = some p → 0 ≤ dt →
      (w.tasks p).lets (w.now + dt) = true → Steps w (.pass dt) { w with now := w.now + dt }

theorem steps_of_step {a : MuxAction} (h : muxMachine.step w a = some w') : Steps w a w' := by
  cases a with
  | waitNs d =>
    obtain rfl := Option.some.inj h
    exact .waitNs d
  | cancel i =>
    obtain rfl := Option.some.inj h
    exact .cancel i
  | step p m =>
    simp only [muxMachine] at h
    split at h
    · rename_i ht
      obtain rfl := Option.some.inj h
      exact .step p m ht
    · cases h
  | fire p =>
    simp only [muxMachine] at h
    split at h
    · rename_i m ht
      obtain rfl := Option.some.inj h
      exact .fire p m ht
    · cases h
  | look p =>
    simp only [muxMachine] at h
    split at h
    · rename_i m ht
      obtain rfl := Option.some.inj h
      rw [MuxWorld.look]
      split_ifs with hd
      · exact .look p m ht hd
      · exact .skip p m ht hd
    · cases h
  | resume p =>
    simp only [muxMachine] at h
    split_ifs at h with hh
    split at h
    · rename_i r ht
      obtain rfl := Option.some.inj h
      exact .resume p r hh ht
    · rename_i ht
      obtain rfl := Option.some.inj h
      exact .drive p hh ht
    · cases h
  | slept p =>
    simp only [muxMachine] at h
    split at h
    · rename_i v ht
      split_ifs at h with he
      obtain rfl := Option.some.inj h
      exact .slept p v ht he
    · cases h
  | ret p =>
    simp only [muxMachine] at h
    split at h
    · rename_i ht
      obtain rfl := Option.some.inj h
      exact .ret p ht
    · cases h
  | send p =>
    simp only [muxMachine] at h
    split at h
    · rename_i ht
      obtain rfl := Option.some.inj h
      exact .send p ht
    · cases h
  | sent p =>
    simp only [muxMachine] at h
    split at h
    · rename_i ht
      obtain rfl := Option.some.inj h
      exact .sent p ht
    · cases h
  | pass dt =>
    simp only [muxMachine] at h
    split at h
    · cases h
    · rename_i p hh
      split_ifs at h with hl
      obtain rfl := Option.some.inj h
      exact .pass p dt hh hl.1 hl.2

structure Sound (w : MuxWorld) : Prop where
  filed : Filed w
  orderly : Orderly w

theorem Filed.setPhase (h : Filed w) (ph : Phase) : Filed (w.setPhase p ph) :=
  h.of_eq (le_refl _) rfl rfl rfl

theorem Filed.acquire (h : Filed w) (a b : Phase) : Filed (w.acquire p a b) := by
  rw [MuxWorld.acquire]
  cases w.holder with
  | none => exact h.of_eq (le_refl _) rfl rfl rfl
  | some g => exact h.of_eq (le_refl _) rfl rfl rfl

theorem Orderly.fires (h : Orderly w) (hf : Fires w w') : Orderly w' := by
  constructor
  · rw [hf.tasks, hf.holder]
    exact h.alone
  · rw [hf.tasks]
    exact h.queued
  · rw [hf.tasks, hf.now]
    exact h.ahead

theorem cancel_fires (i : Nat) : Fires w (w.cancel i) := by
  rw [MuxWorld.cancel]
  split_ifs
  · exact ⟨rfl, rfl, rfl, rfl⟩
  · exact ⟨rfl, rfl, rfl, rfl⟩

/-- When the lock is free the wait just read is issued at once. -/
theorem ends_reading (m : Int) : (⟨w.reading m, w.now, w.live⟩ : SvWait).ends =
    (w.reading m).target := by
  show w.now + ((w.reading m).target - w.now) = _
  omega

/-- What a wait leaves when it has ended, before anything is fired. -/
theorem Filed.slept (h : Filed w) (v : SvWait) :
    Filed { w.release with waits := w.waits ++ [(v, w.now)] } :=
  h.of_eq (le_refl _) rfl rfl rfl

theorem Sound.step {a : MuxAction} (hs : Sound w) (h : muxMachine.step w a = some w') :
    Sound w' := by
  obtain ⟨hf, ho⟩ := hs
  cases steps_of_step h with
  | waitNs d => exact ⟨hf.waitNs d, ho.alone, ho.queued, ho.ahead⟩
  | cancel i => exact ⟨hf.cancel i, ho.fires (cancel_fires i)⟩
  | step p m ht => exact ⟨hf.setPhase _, ho.setPhase (fun hc => hc) fun r hr => by cases hr⟩
  | fire p m ht =>
    obtain ⟨hfile, hfires, -⟩ := hf.fireDue
    exact ⟨hfile.setPhase _, (ho.fires hfires).setPhase (fun hc => hc) fun r hr => by cases hr⟩
  | look p m ht hd =>
    refine ⟨hf.acquire _ _, ho.acquire (fun hc => hc) (fun r hr => ?_) (fun r hr => by cases hr) ?_⟩
    · obtain rfl := Phase.queued.inj hr
      exact hd
    · intro v hv
      obtain rfl := Phase.sleeping.inj hv
      show w.now ≤ w.now + (w.reading m).delta
      omega
  | skip p m ht hd =>
    obtain ⟨hfile, hfires, -⟩ := hf.fireDue
    exact ⟨hfile.setPhase _, (ho.fires hfires).setPhase (fun hc => hc) fun r hr => by cases hr⟩
  | resume p r hh ht =>
    refine ⟨hf.setPhase _, ho.call hh (fun r hr => by cases hr) fun v hv => ?_⟩
    obtain rfl := Phase.sleeping.inj hv
    have hpos := ho.queued p r ht
    show w.now ≤ w.now + r.delta
    omega
  | drive p hh ht =>
    exact ⟨hf.setPhase _, ho.call hh (fun r hr => by cases hr) fun v hv => by cases hv⟩
  | slept p v ht he =>
    obtain ⟨hfile, hfires, -⟩ := (hf.slept v).fireDue
    have hc : InCall (w.tasks p) := ht ▸ trivial
    exact ⟨hfile.setPhase _, ho.leave hc (fun hc => hc) (fun r hr => by cases hr) hfires.tasks⟩
  | ret p ht => exact ⟨hf.setPhase _, ho.setPhase (fun hc => hc) fun r hr => by cases hr⟩
  | send p ht =>
    exact ⟨hf.acquire _ _, ho.acquire (fun hc => hc) (fun r hr => by cases hr)
      (fun r hr => by cases hr) fun v hv => by cases hv⟩
  | sent p ht =>
    have hc : InCall (w.tasks p) := ht ▸ trivial
    exact ⟨hf.of_eq (le_refl _) rfl rfl rfl,
      ho.leave hc (fun hc => hc) (fun r hr => by cases hr) rfl⟩
  | pass p dt hh h0 hl =>
    have hle : w.now ≤ w.now + dt := by omega
    refine ⟨hf.of_eq hle rfl rfl rfl, ho.alone, ho.queued, fun q v hv => ?_⟩
    -- the call in flight is that of `p`
    have hq : w.tasks q = .sleeping v := hv
    have hsome := ho.alone q (hq ▸ trivial)
    rw [hh] at hsome
    obtain rfl := Option.some.inj hsome
    rw [hq] at hl
    exact of_decide_eq_true hl

/-! ## In time -/

end MuxWorld

namespace Reading

variable {r : Reading}

theorem target_le_max : r.target ≤ r.now + r.maxNs := by
  rw [target]
  cases r.live.min? with
  | none => exact le_refl _
  | some d => exact min_le_left _ _

theorem target_le {d : Int} (hd : d ∈ r.live) : r.target ≤ d := by
  rw [target]
  cases hm : r.live.min? with
  | none =>
    rw [List.min?_eq_none_iff] at hm
    rw [hm] at hd
    cases hd
  | some m => exact le_trans (min_le_right _ _) ((List.min?_eq_some_iff.mp hm).2 d hd)

end Reading

/-- The wait ends no later than it should, if it ends at `t`. -/
structure SvWait.InTime (v : SvWait) (t : Int) : Prop where
  max : t ≤ v.issued + v.reading.maxNs
  live : ∀ d ∈ v.live, t ≤ d

theorem SvWait.ends_le_max (v : SvWait) : v.ends ≤ v.issued + v.reading.maxNs := by
  have hle : v.reading.target ≤ v.reading.now + v.reading.maxNs := Reading.target_le_max
  show v.issued + (v.reading.target - v.reading.now) ≤ _
  omega

/-- One that waits for the lock gets it in time. -/
def Phase.GotInTime (now : Int) (live : List Int) : Phase → Prop
  | .queued r => ∀ d ∈ live, now - r.now ≤ d - r.target
  | _ => True

instance (now : Int) (live : List Int) : (ph : Phase) → Decidable (ph.GotInTime now live)
  | .queued r => inferInstanceAs (Decidable (∀ d ∈ live, now - r.now ≤ d - r.target))
  | .idle | .settling _ | .fired _ | .sleeping _ | .closing | .sending | .driving => isTrue trivial

namespace MuxWorld

variable {w w' : MuxWorld} {p q : Nat}

/-- All SV waits, those in flight and those that have ended, end in time. -/
structure InTime (w : MuxWorld) : Prop where
  flight : ∀ p v, w.tasks p = .sleeping v → v.InTime v.ends
  ended : ∀ q ∈ w.waits, q.1.InTime q.2

/-- When `step` gets the lock, no more time has passed since it read the clock than there was
from what it then aimed at to any deadline that is now live. -/
def LockInTime (w : MuxWorld) : MuxAction → Prop
  | .resume p => (w.tasks p).GotInTime w.now w.live
  | _ => True

instance (w : MuxWorld) : (a : MuxAction) → Decidable (LockInTime w a)
  | .resume p => inferInstanceAs (Decidable ((w.tasks p).GotInTime w.now w.live))
  | .waitNs _ | .cancel _ | .step _ _ | .fire _ | .look _ | .slept _ | .ret _ | .send _ | .sent _
  | .pass _ => isTrue trivial

theorem InTime.setPhase (h : InTime w) {ph : Phase}
    (hv : ∀ v, ph = .sleeping v → v.InTime v.ends) : InTime (w.setPhase p ph) := by
  constructor
  · intro q v hq
    by_cases he : q = p
    · subst he
      rw [setPhase_tasks_self] at hq
      exact hv v hq
    · rw [setPhase_tasks_ne ph he] at hq
      exact h.flight q v hq
  · exact h.ended

theorem InTime.of_eq (h : InTime w) (ht : w'.tasks = w.tasks) (hw : w'.waits = w.waits) :
    InTime w' := by
  constructor
  · rw [ht]
    exact h.flight
  · rw [hw]
    exact h.ended

theorem InTime.acquire (h : InTime w) {a b : Phase} (ha : ∀ v, a ≠ .sleeping v)
    (hb : ∀ v, b = .sleeping v → v.InTime v.ends) : InTime (w.acquire p a b) := by
  rw [MuxWorld.acquire]
  cases w.holder with
  | none =>
    have hset : InTime (w.setPhase p b) := h.setPhase hb
    exact hset.of_eq rfl rfl
  | some g =>
    have hset : InTime (w.setPhase p a) := h.setPhase fun v hv => absurd hv (ha v)
    exact hset.of_eq rfl rfl

/-- A wait issued at once is aimed at what is live. -/
theorem inTime_at_once (m : Int) :
    (⟨w.reading m, w.now, w.live⟩ : SvWait).InTime
      (⟨w.reading m, w.now, w.live⟩ : SvWait).ends := by
  constructor
  · exact SvWait.ends_le_max _
  · intro d hd
    rw [ends_reading]
    exact Reading.target_le hd

/-- One issued when the lock is got is in time exactly when the lock is. -/
theorem inTime_resume (r : Reading) :
    (⟨r, w.now, w.live⟩ : SvWait).InTime (⟨r, w.now, w.live⟩ : SvWait).ends ↔
      ∀ d ∈ w.live, w.now - r.now ≤ d - r.target := by
  have hends : (⟨r, w.now, w.live⟩ : SvWait).ends = w.now + (r.target - r.now) := rfl
  constructor
  · intro h d hd
    have hle := h.live d hd
    omega
  · intro h
    refine ⟨SvWait.ends_le_max _, fun d hd => ?_⟩
    have hle := h d hd
    omega

theorem InTime.step {a : MuxAction} (hs : Sound w) (hi : InTime w) (hc : LockInTime w a)
    (h : muxMachine.step w a = some w') : InTime w' := by
  cases steps_of_step h with
  | waitNs d => exact hi.of_eq rfl rfl
  | cancel i => exact hi.of_eq (cancel_fires i).tasks (cancel_fires i).waits
  | step p m ht => exact hi.setPhase fun v hv => by cases hv
  | fire p m ht =>
    obtain ⟨-, hfires, -⟩ := hs.filed.fireDue
    exact (hi.of_eq hfires.tasks hfires.waits).setPhase fun v hv => by cases hv
  | look p m ht hd =>
    apply hi.acquire
    · exact fun v hv => by cases hv
    · intro v hv
      obtain rfl := Phase.sleeping.inj hv
      exact inTime_at_once m
  | skip p m ht hd =>
    obtain ⟨-, hfires, -⟩ := hs.filed.fireDue
    exact (hi.of_eq hfires.tasks hfires.waits).setPhase fun v hv => by cases hv
  | resume p r hh ht =>
    apply hi.setPhase
    intro v hv
    obtain rfl := Phase.sleeping.inj hv
    rw [LockInTime, ht] at hc
    exact (inTime_resume r).mpr hc
  | drive p hh ht => exact hi.setPhase fun v hv => by cases hv
  | slept p v ht he =>
    obtain ⟨-, hfires, -⟩ := (hs.filed.slept v).fireDue
    have hlog : InTime { w.release with waits := w.waits ++ [(v, w.now)] } := by
      constructor
      · exact hi.flight
      · intro q hq
        rcases List.mem_append.mp hq with hq | hq
        · exact hi.ended q hq
        · obtain rfl := List.mem_singleton.mp hq
          show v.InTime w.now
          rw [he]
          exact hi.flight p v ht
    exact (hlog.of_eq hfires.tasks hfires.waits).setPhase fun v hv => by cases hv
  | ret p ht => exact hi.setPhase fun v hv => by cases hv
  | send p ht =>
    apply hi.acquire
    · exact fun v hv => by cases hv
    · exact fun v hv => by cases hv
  | sent p ht =>
    have hrel : InTime w.release := hi.of_eq rfl rfl
    exact hrel.setPhase fun v hv => by cases hv
  | pass p dt hh h0 hl => exact hi.of_eq rfl rfl

/-- When the lock is not got in time, the wait issued then is too long. -/
theorem late_step {a : MuxAction} (hc : ¬ LockInTime w a) (h : muxMachine.step w a = some w') :
    ¬ InTime w' := by
  intro hi
  cases steps_of_step h with
  | resume p r hh ht =>
    have hv := hi.flight p _ (setPhase_tasks_self _)
    rw [LockInTime, ht] at hc
    exact hc ((inTime_resume r).mp hv)
  | drive p hh ht =>
    rw [LockInTime, ht] at hc
    exact hc trivial
  | _ => exact hc trivial

/-- A multiplexer with nothing in it, at some time. -/
def start (t : Int) : MuxWorld := { now := t }

theorem sound_start (t : Int) : Sound (start t) := by
  have hempty : (start t).agenda = ⟨t, ∅, 0, []⟩ := by
    rw [agenda, Agenda.mk.injEq]
    refine ⟨rfl, ?_, rfl, rfl⟩
    ext x
    constructor
    · rintro ⟨hx, -⟩
      cases hx
    · rintro ⟨⟩
  constructor
  · constructor
    · exact fun x hx => by cases hx
    · exact List.nodup_nil
    · exact fun i hi => by cases hi
    · rw [hempty]
      exact Agenda.kept_start t
  · constructor
    · exact fun p hp => hp.elim
    · exact fun p r hr => by cases hr
    · exact fun p v hv => by cases hv

theorem inTime_start (t : Int) : InTime (start t) := by
  constructor
  · exact fun p v hv => by cases hv
  · exact fun q hq => by cases hq

/-- The waiters resolved, in order. -/
def woken (w : MuxWorld) : List (Waiter Int) := w.history.filterMap Note.wakes

/-- No waiter is resolved before its deadline or after its cancelling, and all are in turn. -/
structure InTurn (w : MuxWorld) : Prop where
  order : w.woken.Pairwise fun x y => x.key < y.key
  due : ∀ x t, .woken x t ∈ w.history → x.deadline ≤ t ∧ .registered x ∈ w.history
  valid : w.history.Pairwise fun x y => ¬ Agenda.Stale x y

/-- Every waiter that is due has been resolved or cancelled. -/
def CaughtUp (w : MuxWorld) : Prop :=
  ∀ x, .registered x ∈ w.history → x.deadline ≤ w.now → x ∈ w.woken ∨ Agenda.Forestalled w.history x

theorem Filed.caughtUp (h : Filed w) (hlate : ∀ x ∈ w.agenda.waiting, w.now < x.deadline) :
    CaughtUp w := by
  intro x hx hdue
  rcases h.kept.whole x hx with hw | hw | hw
  · exact absurd hdue (not_le.mpr (hlate x hw))
  · exact Or.inl hw
  · exact Or.inr hw

/-- `step` fires when it has settled and when its SV wait has ended. -/
theorem Sound.fired (hs : Sound w)
    (h : muxMachine.step w (.fire p) = some w' ∨ muxMachine.step w (.slept p) = some w') :
    CaughtUp w' := by
  rcases h with h | h
  · cases steps_of_step h with
    | fire p m ht =>
      obtain ⟨hfile, hfires, hlate⟩ := hs.filed.fireDue
      apply (hfile.setPhase _).caughtUp
      intro x hx
      show w.fireDue.1.now < _
      rw [hfires.now]
      exact hlate x hx
  · cases steps_of_step h with
    | slept p v ht he =>
      obtain ⟨hfile, hfires, hlate⟩ := (hs.filed.slept v).fireDue
      apply (hfile.setPhase _).caughtUp
      intro x hx
      have hnow := hfires.now
      have hlt := hlate x hx
      rw [← hnow] at hlt
      exact hlt

end MuxWorld

open MuxWorld

/-- In every interleaving waiters are resolved in turn, and none that is due is left when
`step` fires; no SV wait is longer than asked, and none goes beyond a deadline that was live
when it was issued, if and only if `step` always gets the lock in time. -/
theorem sleeps_in_time (t : Int) (as : List MuxAction) (w : MuxWorld)
    (hrun : muxMachine.run (start t) as = some w) :
    InTurn w ∧
    (∀ p w', muxMachine.step w (.fire p) = some w' ∨ muxMachine.step w (.slept p) = some w' →
      CaughtUp w') ∧
    (∀ p q, InCall (w.tasks p) → InCall (w.tasks q) → p = q) ∧
    (∀ p v, w.tasks p = .sleeping v → w.now ≤ v.ends ∧ v.ends ≤ v.issued + v.reading.maxNs) ∧
    (muxMachine.Throughout InTime (start t) as ↔ muxMachine.AllSteps LockInTime (start t) as) := by
  have hs : Sound w :=
    muxMachine.invariant_run (fun w a w' hw h => hw.step h) (sound_start t) hrun
  have hkept := hs.filed.kept
  refine ⟨⟨hkept.sorted, fun x t hx => hkept.due x t hx, hkept.valid⟩, ?_, ?_, ?_, ?_⟩
  · exact fun p w' h => hs.fired h
  · intro p q hp hq
    have heq := hs.orderly.alone p hp
    rw [hs.orderly.alone q hq] at heq
    exact (Option.some.inj heq).symm
  · exact fun p v hv => ⟨hs.orderly.ahead p v hv, v.ends_le_max⟩
  · have hpres : muxMachine.Preserves LockInTime fun w => Sound w ∧ InTime w :=
      fun w a w' hw hc h => ⟨hw.1.step h, hw.2.step hw.1 hc h⟩
    exact Lib.Machine.throughout_iff hpres (fun w hw => hw.2)
      (fun w a w' _ hc h => late_step hc h) ⟨sound_start t, inTime_start t⟩ hrun

/-- A segment is being driven when `step` wants the lock, and takes 5. -/
def sendAhead (maxNs : Int) : List MuxAction :=
  [.waitNs 10, .step 0 maxNs, .fire 0, .send 1, .look 0, .pass 5, .sent 1, .resume 0]

/-- With the wait cut short by its argument there was time to lose. -/
theorem sleeps_in_time_short : muxMachine.Throughout InTime (start 0)
    (sendAhead 3 ++ [.pass 3, .slept 0]) := by
  have hrun : ∃ w, muxMachine.run (start 0) (sendAhead 3 ++ [.pass 3, .slept 0]) = some w :=
    ⟨_, rfl⟩
  obtain ⟨w, hw⟩ := hrun
  obtain ⟨-, -, -, -, hiff⟩ := sleeps_in_time 0 _ w hw
  apply hiff.mpr
  decide +kernel

/-- Else the wait goes beyond the deadline it was meant for, by as much. -/
theorem oversleeps : ∃ w,
    muxMachine.run (start 0) (sendAhead 100 ++ [.pass 10, .slept 0]) = some w ∧
    w.waits = [(⟨⟨0, 100, [10]⟩, 5, [10]⟩, 15)] ∧ w.woken = [⟨10, 0⟩] ∧ ¬ InTime w := by
  refine ⟨_, rfl, rfl, rfl, fun h => ?_⟩
  have hlate := (h.ended (⟨⟨0, 100, [10]⟩, 5, [10]⟩, 15) (List.mem_singleton_self _)).live 10
    (List.mem_singleton_self _)
  exact absurd hlate (by decide)

end HdlPlayground.Cosim

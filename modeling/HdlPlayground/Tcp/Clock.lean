import Mathlib.Data.List.MinMax
import Mathlib.Data.Prod.Lex
import HdlPlayground.Tcp.FlowControl

/-!
# The clock between entry points

A run is timed by stamping what enters the log. It is undisturbed when only time passes
and timers expire, and the clock stops at every deadline. `advance`, the loop of
`ManualScheduler.advance`, is such a run: it goes from the earliest deadline to the next,
and callbacks scheduled on the way are honoured if they fall within the advanced window.
-/
namespace HdlPlayground.Tcp

namespace ManualScheduler

variable {κ : Type}

/-- The live timer at the top of the heap: the earliest deadline, and among equals the
least id. -/
def next (s : ManualScheduler κ) : Option (TimerHandle κ) :=
  s.live.argmin fun h => toLex (h.deadline, h.id)

theorem next_mem {s : ManualScheduler κ} {h : TimerHandle κ} (hn : s.next = some h) :
    h ∈ s.live := List.argmin_mem hn

theorem next_le {s : ManualScheduler κ} {h g : TimerHandle κ} (hn : s.next = some h)
    (hg : g ∈ s.live) : h.deadline ≤ g.deadline := by
  have hle := List.le_of_mem_argmin hg hn
  rcases Prod.Lex.le_iff.mp hle with hlt | ⟨heq, -⟩
  · exact le_of_lt hlt
  · exact le_of_eq heq

theorem next_none {s : ManualScheduler κ} (hn : s.next = none) : s.live = [] :=
  List.argmin_eq_none.mp hn

end ManualScheduler

/-- The segments sent that take sequence space, with their times. -/
def sentIn (record : List (ℚ × Event)) : List (ℚ × TcpSegment) := record.filterMap fun x =>
  match x.2 with
  | .tx seg => if seg.segLen = 0 then none else some (x.1, seg)
  | _ => none

/-- The errors signalled, with their times. -/
def failuresIn (record : List (ℚ × Event)) : List (ℚ × String) := record.filterMap fun x =>
  match x.2 with
  | .error msg => some (x.1, msg)
  | _ => none

/-- An engine with what it has logged since some moment, and when. -/
structure Timed where
  engine : TcpEngine
  record : List (ℚ × Event) := []

def Timed.now (t : Timed) : ℚ := t.engine.now

open TcpEngine in
def timedMachine : Lib.Machine Timed Action where
  step t a := (engineMachine.step t.engine a).map fun e' =>
    { engine := e', record := t.record ++ (entered t.engine e').map fun ev => (e'.now, ev) }

/-- No segment arrives and no user call is made, and the clock passes no deadline of a
timer that has not fired. -/
def Undisturbed (t : Timed) : Action → Prop
  | .tick dt => ∀ h ∈ t.engine.tm.sched.live, t.now + dt ≤ max t.now h.deadline
  | .expire _ => True
  | _ => False

/-- `advance`, to the time `target`. The fuel bounds the callbacks that are run: with none
left the loop has not ended. A callback that raises ends it. -/
def Timed.advance : Nat → Timed → ℚ → Option Timed
  | 0, _, _ => none
  | fuel + 1, t, target =>
    match t.engine.tm.sched.next.filter fun h => h.deadline ≤ target with
    | none => timedMachine.step t (.tick (target - t.now))
    | some h =>
      (timedMachine.step t (.tick (max t.now h.deadline - t.now))).bind fun t =>
        (timedMachine.step t (.expire h)).bind fun t =>
          if t.engine.env.exc.isSome then some t else t.advance fuel target

namespace Timed

variable {t t' u : Timed} {a : Action} {target : ℚ}

theorem step_eq (h : timedMachine.step t a = some t') :
    engineMachine.step t.engine a = some t'.engine ∧
      t'.record = t.record ++ (TcpEngine.entered t.engine t'.engine).map fun ev =>
        (t'.now, ev) := by
  simp only [timedMachine, Option.map_eq_some_iff] at h
  obtain ⟨e', hs, rfl⟩ := h
  exact ⟨hs, rfl⟩

theorem step_tick {dt : ℚ} (h : timedMachine.step t (.tick dt) = some t') :
    0 ≤ dt ∧ t'.engine = t.engine.enter.passTime dt ∧ t'.record = t.record := by
  obtain ⟨hs, hr⟩ := step_eq h
  simp only [engineMachine] at hs
  split_ifs at hs with hen hhung
  obtain he := Option.some.inj hs
  refine ⟨hen, he.symm, ?_⟩
  rw [hr, ← he]
  simp [TcpEngine.entered, TcpEngine.perform, TcpEngine.passTime, TcpEngine.enter]

/-- The clock may go to the earliest deadline. -/
theorem undisturbed_next {h : TimerHandle Callback} (hn : t.engine.tm.sched.next = some h) :
    Undisturbed t (.tick (max t.now h.deadline - t.now)) := by
  intro g hg
  rw [add_sub_cancel]
  exact max_le_max_left _ (ManualScheduler.next_le hn hg)

/-- It may go to the target if no timer is due before. -/
theorem undisturbed_last
    (hn : (t.engine.tm.sched.next.filter fun h => h.deadline ≤ target) = none) :
    Undisturbed t (.tick (target - t.now)) := by
  intro g hg
  cases hx : t.engine.tm.sched.next with
  | none =>
    rw [ManualScheduler.next_none hx] at hg
    cases hg
  | some h =>
    rw [hx, Option.filter_eq_none_iff] at hn
    have hk := hn h rfl
    simp only [decide_eq_true_eq, not_le] at hk
    have hle := ManualScheduler.next_le hx hg
    rw [add_sub_cancel]
    exact le_max_of_le_right (le_of_lt (lt_of_lt_of_le hk hle))

/-- What `advance` does is an undisturbed run. -/
theorem advance_run {fuel : Nat} (h : t.advance fuel target = some u) :
    ∃ as, timedMachine.AllSteps Undisturbed t as ∧ timedMachine.run t as = some u := by
  induction fuel generalizing t with
  | zero => cases h
  | succ fuel ih =>
    unfold advance at h
    split at h
    · next hn =>
      refine ⟨[.tick (target - t.now)], ⟨undisturbed_last hn, fun _ _ => trivial⟩, ?_⟩
      rw [Lib.Machine.run_cons, h]
      rfl
    · next k hn =>
      rw [Option.filter_eq_some_iff] at hn
      obtain ⟨t1, h1, h⟩ := Option.bind_eq_some_iff.mp h
      obtain ⟨t2, h2, h⟩ := Option.bind_eq_some_iff.mp h
      have hrest : ∃ as, timedMachine.AllSteps Undisturbed t2 as ∧
          timedMachine.run t2 as = some u := by
        split at h
        · obtain rfl := Option.some.inj h
          exact ⟨[], trivial, rfl⟩
        · exact ih h
      obtain ⟨as, hall, hrun⟩ := hrest
      refine ⟨.tick (max t.now k.deadline - t.now) :: .expire k :: as,
        ⟨undisturbed_next hn.1, ?_⟩, ?_⟩
      · rintro s hs
        rw [h1] at hs
        obtain rfl := Option.some.inj hs
        refine ⟨trivial, fun s' hs' => ?_⟩
        rw [h2] at hs'
        obtain rfl := Option.some.inj hs'
        exact hall
      · rw [Lib.Machine.run_cons, h1, Option.bind_some, Lib.Machine.run_cons, h2, Option.bind_some]
        exact hrun

end Timed

end HdlPlayground.Tcp

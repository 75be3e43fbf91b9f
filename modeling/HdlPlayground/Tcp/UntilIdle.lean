import Mathlib.Tactic.Ring
import HdlPlayground.Tcp.VirtualTime

/-!
# Until nothing is left to fire

`ManualScheduler.run_until_idle` is `advance` with no time to stop at and a bound on the rounds: it
fires what an `advance` that empties the heap fires, and leaves the same behind but for the clock.
-/
namespace HdlPlayground.Tcp

open Lib

namespace World

variable {κ σ : Type} {body : Body κ σ} {w w' v : World κ σ} {h : TimerHandle κ} {target : ℚ}
  {n m k j : Nat}

/-- The loop of `run_until_idle`, with the number of callbacks fired; where it raises, with the
world as it stands. -/
def runUntilIdle (body : Body κ σ) : Nat → World κ σ → Nat → Except (World κ σ) (World κ σ × Nat)
  | 0, w, fired =>
    match w.sched.top with
    | none => .ok (w, fired)
    | some _ => .error w
  | steps + 1, w, fired =>
    match w.sched.top with
    | none => .ok (w, fired)
    | some h =>
      if h.cancelled then runUntilIdle body steps (w.take h) fired
      else runUntilIdle body steps ((w.take h).fire body h) (fired + 1)

/-- The world with its clock at `t`. -/
def atTime (w : World κ σ) (t : ℚ) : World κ σ := { w with sched := { w.sched with now := t } }

theorem top_eq_none : w.sched.top = none ↔ w.sched.heap = [] := List.argmin_eq_none

theorem idle_done (ht : w.sched.top = none) : runUntilIdle body n w k = .ok (w, k) := by
  cases n with
  | zero =>
    rw [runUntilIdle, ht]
  | succ n =>
    rw [runUntilIdle, ht]

theorem idle_next (ht : w.sched.top = some h) :
    runUntilIdle body (n + 1) w k =
      if h.cancelled then runUntilIdle body n (w.take h) k
      else runUntilIdle body n ((w.take h).fire body h) (k + 1) := by
  rw [runUntilIdle, ht]

/-- A run that ends is over when the heap is empty, and has only let time pass. -/
theorem idle_ends (hi : runUntilIdle body n w k = .ok (v, j)) :
    v.sched.heap = [] ∧ w.now ≤ v.now := by
  induction n generalizing w k with
  | zero =>
    cases ht : w.sched.top with
    | none =>
      rw [idle_done ht] at hi
      obtain ⟨rfl, rfl⟩ := Prod.mk.inj (Except.ok.inj hi)
      exact ⟨top_eq_none.mp ht, le_rfl⟩
    | some h =>
      rw [runUntilIdle, ht] at hi
      cases hi
  | succ n ih =>
    cases ht : w.sched.top with
    | none =>
      rw [idle_done ht] at hi
      obtain ⟨rfl, rfl⟩ := Prod.mk.inj (Except.ok.inj hi)
      exact ⟨top_eq_none.mp ht, le_rfl⟩
    | some h =>
      have htake : w.now ≤ (w.take h).now := le_max_left _ _
      rw [idle_next ht] at hi
      split_ifs at hi
      · exact (ih hi).imp_right htake.trans
      · obtain ⟨hempty, hle⟩ := ih hi
        rw [fire_now] at hle
        exact ⟨hempty, htake.trans hle⟩

/-- What is run until idle is drained by any target it does not pass. -/
theorem drain_of_idle (hi : runUntilIdle body n w k = .ok (v, j)) (hv : v.now ≤ target) :
    drain body (n + 1) w target k = some (v.atTime target, j) := by
  induction n generalizing w k with
  | zero =>
    cases ht : w.sched.top with
    | none =>
      rw [idle_done ht] at hi
      obtain ⟨rfl, rfl⟩ := Prod.mk.inj (Except.ok.inj hi)
      apply drain_done
      rw [ht]
      rfl
    | some h =>
      rw [runUntilIdle, ht] at hi
      cases hi
  | succ n ih =>
    cases ht : w.sched.top with
    | none =>
      rw [idle_done ht] at hi
      obtain ⟨rfl, rfl⟩ := Prod.mk.inj (Except.ok.inj hi)
      apply drain_done
      rw [ht]
      rfl
    | some h =>
      rw [idle_next ht] at hi
      -- the clock has gone to the deadline, and ends no later than the target
      have hdue : h.deadline ≤ target := by
        have hgo : h.deadline ≤ (w.take h).now := le_max_right _ _
        split_ifs at hi
        · exact hgo.trans ((idle_ends hi).2.trans hv)
        · have hle := (idle_ends hi).2
          rw [fire_now] at hle
          exact hgo.trans (hle.trans hv)
      have hfilter : (w.sched.top.filter fun g => g.deadline ≤ target) = some h := by
        rw [ht, Option.filter_eq_some_iff]
        exact ⟨rfl, by simpa using hdue⟩
      rw [drain_next hfilter]
      split_ifs at hi ⊢
      · exact ih hi
      · exact ih hi

/-- And a drain that empties the heap is a run until idle. -/
theorem idle_of_drain (hnow : w.now ≤ target) (hd : drain body n w target k = some (w', j))
    (hempty : w'.sched.heap = []) :
    ∃ v, runUntilIdle body n w k = .ok (v, j) ∧ v.now ≤ target ∧ w' = v.atTime target := by
  induction n generalizing w k with
  | zero => cases hd
  | succ n ih =>
    cases ht : w.sched.top.filter fun g => g.deadline ≤ target with
    | none =>
      rw [drain_done ht] at hd
      obtain ⟨rfl, rfl⟩ := Prod.mk.inj (Option.some.inj hd)
      exact ⟨w, idle_done (top_eq_none.mpr hempty), hnow, rfl⟩
    | some h =>
      have htop := (Option.filter_eq_some_iff.mp ht).1
      have hnext := take_le hnow ht
      rw [drain_next ht] at hd
      rw [idle_next htop]
      split_ifs at hd ⊢
      · exact ih hnext hd
      · exact ih (by rw [fire_now]; exact hnext) hd

end World

open World in
/-- `run_until_idle` comes to an end no later than `dt` from now exactly when `advance(dt)` leaves
nothing to fire, and then the two have fired the same callbacks and differ by the clock alone. -/
theorem until_idle_iff_advance {κ σ : Type} (body : Body κ σ) (w : World κ σ) (dt : ℚ)
    (h0 : 0 ≤ dt) (w' : World κ σ) (k : Nat) :
    ((∃ n, w.advance body n dt = some (w', k)) ∧ w'.sched.heap = []) ↔
      ∃ n v, w.runUntilIdle body n 0 = .ok (v, k) ∧ v.now ≤ w.now + dt ∧
        w' = v.atTime (w.now + dt) := by
  have hnow : w.now ≤ w.now + dt := by linarith
  constructor
  · rintro ⟨⟨n, hd⟩, hempty⟩
    obtain ⟨v, hi, hv, rfl⟩ := idle_of_drain hnow hd hempty
    exact ⟨n, v, hi, hv, rfl⟩
  · rintro ⟨n, v, hi, hv, rfl⟩
    exact ⟨⟨n + 1, drain_of_idle hi hv⟩, (idle_ends hi).1⟩

theorem two_timers_until_idle : ∃ w', (twoTimers.advance cancelling 9 2 = some (w', 2)) ∧
    ∃ n v, twoTimers.runUntilIdle cancelling n 0 = .ok (v, 2) ∧ v.now ≤ twoTimers.now + 2 ∧
      w' = v.atTime (twoTimers.now + 2) := by
  have h : ((twoTimers.advance cancelling 9 2).map fun r => (r.1.sched.heap.length, r.2)) =
      some (0, 2) := by
    decide +kernel
  obtain ⟨⟨w', k⟩, hd, hv⟩ := Option.map_eq_some_iff.mp h
  obtain ⟨hempty, rfl⟩ := Prod.mk.inj hv
  refine ⟨w', hd, ?_⟩
  apply (until_idle_iff_advance cancelling twoTimers 2 (by decide) w' 2).mp
  exact ⟨⟨9, hd⟩, List.length_eq_zero_iff.mp hempty⟩

open World in
/-- Run until idle, every timer there has ever been has been cancelled or has fired, in order of
deadline and creation and at its deadline. -/
theorem until_idle_exact {κ σ : Type} (body : Body κ σ) (t₀ : ℚ) (c : σ)
    (as : List (TimeAction κ σ)) (w v : World κ σ) (n k : Nat)
    (hr : (worldMachine body).run (start t₀ c) as = some w)
    (hi : w.runUntilIdle body n 0 = .ok (v, k)) :
    Exact w (v.now - w.now) v k ∧
      ∀ u, .registered u ∈ v.history → u ∈ v.fired ∨ .cancelled u.id ∈ v.history := by
  have hs : Sound w := Lib.Machine.invariant_run (worldMachine body) (I := Sound)
    (fun _ _ _ hw h => hw.step h) (sound_start t₀ c) hr
  obtain ⟨hempty, hle⟩ := idle_ends hi
  have hd : w.advance body (n + 1) (v.now - w.now) = some (v, k) := by
    have htarget : w.now + (v.now - w.now) = v.now := by ring
    rw [advance, htarget]
    exact drain_of_idle hi le_rfl
  have h0 : 0 ≤ v.now - w.now := by linarith
  refine ⟨hs.exact h0 hd, fun u hu => ?_⟩
  rcases (hs.advance h0 hd).1.sound.kept.whole u hu with hw | hw | hw
  · obtain ⟨g, hg, -⟩ := hw
    have hg := (ManualScheduler.mem_live.mp hg).1
    rw [hempty] at hg
    cases hg
  · exact Or.inl hw
  · exact Or.inr hw.mem

/-- The second timer is cancelled by the first; the third fires at once. -/
theorem two_timers_exact : ∃ v, twoTimers.runUntilIdle cancelling 3 0 = .ok (v, 2) ∧
    v.fired = [⟨1, 0⟩, ⟨1, 2⟩] ∧ World.Exact twoTimers (v.now - twoTimers.now) v 2 ∧
      ∀ u, .registered u ∈ v.history → u ∈ v.fired ∨ .cancelled u.id ∈ v.history := by
  have h : ((twoTimers.runUntilIdle cancelling 3 0).toOption.map fun r => (r.1.fired, r.2)) =
      some ([⟨1, 0⟩, ⟨1, 2⟩], 2) := by
    decide +kernel
  cases hi : twoTimers.runUntilIdle cancelling 3 0 with
  | error w =>
    rw [hi] at h
    cases h
  | ok r =>
    obtain ⟨v, k⟩ := r
    rw [hi] at h
    obtain ⟨hfired, rfl⟩ := Prod.mk.inj (Option.some.inj h)
    refine ⟨v, rfl, hfired, ?_⟩
    exact until_idle_exact cancelling 0 () [.op (.callLater 1 true), .op (.callLater 1 false)]
      twoTimers v 3 2 rfl hi

end HdlPlayground.Tcp

import Mathlib.Algebra.Order.Ring.Rat
import Mathlib.Data.List.MinMax
import Mathlib.Tactic.Linarith
import HdlPlayground.Lib.Agenda
import HdlPlayground.Lib.Machine
import HdlPlayground.Tcp.Scheduler

/-!
# Virtual time

`ManualScheduler.advance` with callbacks that schedule and cancel while the heap is drained.
A callback is any function of all there is: it says what becomes of the client, and which
timers are scheduled and cancelled, in order. The scheduler keeps an agenda, and never lets
time pass a deadline.
-/
namespace HdlPlayground.Tcp

open Lib

inductive TimerOp (κ : Type) where
  | callLater (delay : ℚ) (cb : κ)
  | cancel (id : Nat)

/-- A scheduler and its client, with the record of what the scheduler has been told and of
the callbacks it has run. -/
structure World (κ σ : Type) where
  sched : ManualScheduler κ
  client : σ
  history : List (Note ℚ) := []

/-- What a callback does. -/
abbrev Body (κ σ : Type) := κ → World κ σ → σ × List (TimerOp κ)

/-- `self._heap[0]`. -/
def ManualScheduler.top {κ : Type} (s : ManualScheduler κ) : Option (TimerHandle κ) :=
  s.heap.argmin fun h => toLex (h.deadline, h.id)

namespace World

variable {κ σ : Type}

def now (w : World κ σ) : ℚ := w.sched.now

/-- A handle is cancelled only if there is one. -/
def act (w : World κ σ) : TimerOp κ → World κ σ
  | .callLater delay cb =>
    { w with
      sched := (w.sched.callLater delay cb).2
      history := w.history ++
        [.registered ⟨w.now + if delay < 0 then 0 else delay, w.sched.counter⟩] }
  | .cancel i =>
    if i < w.sched.counter then
      { w with sched := w.sched.cancel (some i), history := w.history ++ [.cancelled i] }
    else w

/-- `heapq.heappop`, and the clock goes to the deadline. -/
def take (w : World κ σ) (h : TimerHandle κ) : World κ σ :=
  { w with sched := { w.sched.pop h.id with now := max w.now h.deadline } }

/-- `h.cb()`. -/
def fire (body : Body κ σ) (w : World κ σ) (h : TimerHandle κ) : World κ σ :=
  let w := { w with history := w.history ++ [.woken ⟨h.deadline, h.id⟩ w.now] }
  (body h.cb w).2.foldl act { w with client := (body h.cb w).1 }

/-- The loop of `advance`, with the number of callbacks fired. With no fuel left it has not
ended. -/
def drain (body : Body κ σ) : Nat → World κ σ → ℚ → Nat → Option (World κ σ × Nat)
  | 0, _, _, _ => none
  | fuel + 1, w, target, fired =>
    match w.sched.top.filter fun h => h.deadline ≤ target with
    | none => some ({ w with sched := { w.sched with now := target } }, fired)
    | some h =>
      if h.cancelled then drain body fuel (w.take h) target fired
      else drain body fuel ((w.take h).fire body h) target (fired + 1)

def advance (body : Body κ σ) (fuel : Nat) (w : World κ σ) (dt : ℚ) : Option (World κ σ × Nat) :=
  drain body fuel w (w.now + dt) 0

variable {body : Body κ σ} {w w' w₁ : World κ σ} {h : TimerHandle κ} {target t : ℚ} {n m k k' : Nat}

/-! ## One drain after another -/

/-- One round of the loop. -/
theorem drain_succ : drain body (n + 1) w target k =
    match w.sched.top.filter fun h => h.deadline ≤ target with
    | none => some ({ w with sched := { w.sched with now := target } }, k)
    | some h =>
      if h.cancelled then drain body n (w.take h) target k
      else drain body n ((w.take h).fire body h) target (k + 1) := rfl

theorem drain_done (ht : (w.sched.top.filter fun h => h.deadline ≤ target) = none) :
    drain body (n + 1) w target k =
      some ({ w with sched := { w.sched with now := target } }, k) := by
  rw [drain_succ, ht]

theorem drain_next (ht : (w.sched.top.filter fun h => h.deadline ≤ target) = some h) :
    drain body (n + 1) w target k =
      if h.cancelled then drain body n (w.take h) target k
      else drain body n ((w.take h).fire body h) target (k + 1) := by
  rw [drain_succ, ht]

/-- More fuel changes nothing once the loop has ended. -/
theorem drain_stable {r : World κ σ × Nat} (hd : drain body n w target k = some r) (hm : n ≤ m) :
    drain body m w target k = some r := by
  induction n generalizing w m k with
  | zero => cases hd
  | succ n ih =>
    obtain ⟨m, rfl⟩ : ∃ m', m = m' + 1 := ⟨m - 1, by omega⟩
    cases ht : w.sched.top.filter fun h => h.deadline ≤ target with
    | none =>
      rw [drain_done ht] at hd ⊢
      exact hd
    | some h =>
      rw [drain_next ht] at hd ⊢
      split_ifs at hd ⊢
      · exact ih hd (by omega)
      · exact ih hd (by omega)

/-- The count goes on from where it is. -/
theorem drain_count {r : World κ σ × Nat} (hd : drain body n w target k = some r) (j : Nat) :
    drain body n w target (j + k) = some (r.1, j + r.2) := by
  induction n generalizing w k with
  | zero => cases hd
  | succ n ih =>
    cases ht : w.sched.top.filter fun h => h.deadline ≤ target with
    | none =>
      rw [drain_done ht] at hd ⊢
      obtain rfl := Option.some.inj hd
      rfl
    | some h =>
      rw [drain_next ht] at hd ⊢
      split_ifs at hd ⊢
      · exact ih hd
      · exact ih hd

/-- And it may start anywhere. -/
theorem drain_recount {r : World κ σ × Nat} {j : Nat}
    (hd : drain body n w target (j + k) = some r) :
    ∃ i, drain body n w target k = some (r.1, i) ∧ r.2 = j + i := by
  cases hk : drain body n w target k with
  | none =>
    exfalso
    induction n generalizing w k with
    | zero => cases hd
    | succ n ih =>
      cases ht : w.sched.top.filter fun h => h.deadline ≤ target with
      | none =>
        rw [drain_done ht] at hk
        cases hk
      | some h =>
        rw [drain_next ht] at hd hk
        split_ifs at hd hk
        · exact ih hd hk
        · exact ih hd hk
  | some r' =>
    have hc := drain_count hk j
    rw [hc] at hd
    obtain rfl := Option.some.inj hd
    exact ⟨r'.2, rfl, rfl⟩

theorem act_now (w : World κ σ) (o : TimerOp κ) : (w.act o).now = w.now := by
  cases o with
  | callLater delay cb => rfl
  | cancel i =>
    rw [act]
    split_ifs
    · exact ManualScheduler.cancel_now _ _
    · rfl

theorem acts_now (w : World κ σ) (os : List (TimerOp κ)) : (os.foldl act w).now = w.now := by
  induction os generalizing w with
  | nil => rfl
  | cons o os ih => rw [List.foldl_cons, ih, act_now]

@[simp] theorem fire_now (w : World κ σ) (h : TimerHandle κ) : (w.fire body h).now = w.now := by
  rw [fire, acts_now]
  rfl

/-- The clock stands no later than the target until the loop ends. -/
theorem take_le (hle : w.now ≤ target)
    (ht : (w.sched.top.filter fun h => h.deadline ≤ target) = some h) :
    (w.take h).now ≤ target := by
  rw [Option.filter_eq_some_iff, decide_eq_true_eq] at ht
  exact max_le hle ht.2

/-- Where the clock stands before the next deadline does not matter. -/
theorem drain_from (hle : w.now ≤ t)
    (hn : (w.sched.top.filter fun h => h.deadline ≤ t) = none) (n : Nat) :
    drain body n { w with sched := { w.sched with now := t } } target k =
      drain body n w target k := by
  cases n with
  | zero => rfl
  | succ n =>
    cases ht : w.sched.top.filter fun h => h.deadline ≤ target with
    | none =>
      rw [drain_done ht]
      exact drain_done ht
    | some h =>
      have hlt : t < h.deadline := by
        rw [Option.filter_eq_some_iff] at ht
        rw [ht.1, Option.filter_eq_none_iff] at hn
        simpa using hn h rfl
      have htake :
          ({ w with sched := { w.sched with now := t } } : World κ σ).take h = w.take h := by
        have h1 : max t h.deadline = max w.now h.deadline := by
          rw [max_eq_right (le_of_lt hlt), max_eq_right (le_trans hle (le_of_lt hlt))]
        simp only [take, now] at h1 ⊢
        rw [h1]
        rfl
      rw [drain_next ht, ← htake]
      exact drain_next (w := { w with sched := { w.sched with now := t } }) ht

/-- A timer due at the first target is due at the second. -/
theorem due_mono (hle : t ≤ target)
    (ht : (w.sched.top.filter fun h => h.deadline ≤ t) = some h) :
    (w.sched.top.filter fun h => h.deadline ≤ target) = some h := by
  rw [Option.filter_eq_some_iff, decide_eq_true_eq] at ht ⊢
  exact ⟨ht.1, le_trans ht.2 hle⟩

/-- Draining to one target and then to a later one is draining to the later. -/
theorem drain_trans {r : World κ σ × Nat} (hnow : w.now ≤ t) (hle : t ≤ target)
    (h₁ : drain body n w t k = some (w₁, k')) (h₂ : drain body m w₁ target k' = some r) :
    drain body (n + m) w target k = some r := by
  induction n generalizing w k with
  | zero => cases h₁
  | succ n ih =>
    cases ht : w.sched.top.filter fun h => h.deadline ≤ t with
    | none =>
      rw [drain_done ht] at h₁
      obtain ⟨rfl, rfl⟩ := Prod.mk.inj (Option.some.inj h₁)
      rw [drain_from hnow ht] at h₂
      exact drain_stable h₂ (by omega)
    | some h =>
      rw [drain_next ht] at h₁
      have hfuel : n + 1 + m = n + m + 1 := by omega
      rw [hfuel, drain_next (due_mono hle ht)]
      have hnext := take_le hnow ht
      split_ifs at h₁ ⊢
      · exact ih hnext h₁
      · exact ih (by rw [fire_now]; exact hnext) h₁

/-- And draining to the later stops on the way at the first. -/
theorem drain_split {r : World κ σ × Nat} (hnow : w.now ≤ t) (hle : t ≤ target)
    (hd : drain body n w target k = some r) :
    ∃ w₁ k', drain body n w t k = some (w₁, k') ∧ drain body n w₁ target k' = some r := by
  induction n generalizing w k with
  | zero => cases hd
  | succ n ih =>
    cases ht : w.sched.top.filter fun h => h.deadline ≤ t with
    | none =>
      refine ⟨_, _, drain_done ht, ?_⟩
      rw [drain_from hnow ht]
      exact hd
    | some h =>
      rw [drain_next (due_mono hle ht)] at hd
      rw [drain_next ht]
      have hnext := take_le hnow ht
      have hrest : ∃ w₁ k', (if h.cancelled then drain body n (w.take h) t k
            else drain body n ((w.take h).fire body h) t (k + 1)) = some (w₁, k') ∧
          drain body n w₁ target k' = some r := by
        split_ifs at hd ⊢
        · exact ih hnext hd
        · exact ih (by rw [fire_now]; exact hnext) hd
      obtain ⟨w₁, k', h₁, h₂⟩ := hrest
      exact ⟨w₁, k', h₁, drain_stable h₂ (Nat.le_succ n)⟩

theorem drain_now {r : World κ σ × Nat} (hd : drain body n w target k = some r) :
    r.1.now = target := by
  induction n generalizing w k with
  | zero => cases hd
  | succ n ih =>
    cases ht : w.sched.top.filter fun h => h.deadline ≤ target with
    | none =>
      rw [drain_done ht] at hd
      obtain rfl := Option.some.inj hd
      rfl
    | some h =>
      rw [drain_next ht] at hd
      split_ifs at hd
      · exact ih hd
      · exact ih hd

theorem advance_splits {a b : ℚ} (ha : 0 ≤ a) (hb : 0 ≤ b) (r : World κ σ × Nat) :
    (∃ n, w.advance body n (a + b) = some r) ↔
      ∃ n₁ n₂ w₁ k₁ k₂, w.advance body n₁ a = some (w₁, k₁) ∧
        w₁.advance body n₂ b = some (r.1, k₂) ∧ r.2 = k₁ + k₂ := by
  have hnow : w.now ≤ w.now + a := by linarith
  have hle : w.now + a ≤ w.now + (a + b) := by linarith
  constructor
  · rintro ⟨n, hd⟩
    obtain ⟨w₁, k₁, h₁, h₂⟩ := drain_split hnow hle hd
    have h1 : w₁.now = w.now + a := drain_now h₁
    obtain ⟨k₂, h₃, hk⟩ := drain_recount (k := 0) h₂
    refine ⟨n, n, w₁, k₁, k₂, h₁, ?_, hk⟩
    rw [advance, h1, add_assoc]
    exact h₃
  · rintro ⟨n₁, n₂, w₁, k₁, k₂, h₁, h₂, hk⟩
    have h1 : w₁.now = w.now + a := drain_now h₁
    rw [advance, h1, add_assoc] at h₂
    have hcount := drain_count h₂ k₁
    rw [Nat.add_zero] at hcount
    refine ⟨n₁ + n₂, ?_⟩
    rw [advance, drain_trans hnow hle h₁ hcount, ← hk]

/-! ## The agenda of a scheduler -/

def agenda (w : World κ σ) : Agenda ℚ where
  now := w.now
  waiting := {v | ∃ h ∈ w.sched.live, v = ⟨h.deadline, h.id⟩}
  next := w.sched.counter
  history := w.history

/-- No two handles of the heap have one id. -/
structure Distinct (s : ManualScheduler κ) : Prop where
  fresh : ∀ h ∈ s.heap, h.id < s.counter
  nodup : (s.heap.map TimerHandle.id).Nodup

structure Sound (w : World κ σ) : Prop where
  distinct : Distinct w.sched
  kept : w.agenda.Kept
  punctual : w.agenda.Punctual

/-- What the scheduler does is something that an agenda may do, and on time. -/
structure Goes (w w' : World κ σ) : Prop where
  sound : Sound w'
  path : Agenda.Path True w.agenda w'.agenda

theorem Sound.goes (h : Sound w) (hd : Distinct w'.sched)
    (hp : Agenda.Path True w.agenda w'.agenda) : Goes w w' :=
  ⟨⟨hd, h.kept.path hp, h.punctual.path hp⟩, hp⟩

theorem Goes.refl (h : Sound w) : Goes w w := ⟨h, .refl⟩

theorem Goes.trans (h : Goes w w₁) (h' : Goes w₁ w') : Goes w w' := ⟨h'.sound, h.path.trans h'.path⟩

theorem Distinct.callLater {s : ManualScheduler κ} (h : Distinct s) (d : ℚ) (cb : κ) :
    Distinct (s.callLater d cb).2 := by
  constructor
  · intro g hg
    simp only [ManualScheduler.callLater, List.mem_append, List.mem_singleton] at hg ⊢
    obtain hg | rfl := hg
    · exact Nat.lt_succ_of_lt (h.fresh g hg)
    · exact Nat.lt_succ_self _
  · simp only [ManualScheduler.callLater, List.map_append, List.map_cons, List.map_nil]
    refine List.nodup_append.mpr ⟨h.nodup, by simp, fun i hi j hj hij => ?_⟩
    obtain ⟨g, hg, rfl⟩ := List.mem_map.mp hi
    rw [List.mem_singleton.mp hj] at hij
    exact absurd hij (Nat.ne_of_lt (h.fresh g hg))

theorem Distinct.cancel {s : ManualScheduler κ} (h : Distinct s) (i : Nat) :
    Distinct (s.cancel (some i)) := by
  constructor
  · intro g hg
    simp only [ManualScheduler.cancel, List.mem_map] at hg
    obtain ⟨g', hg', rfl⟩ := hg
    rw [ManualScheduler.id_eq_of_cancelHandle]
    exact h.fresh g' hg'
  · have hids : (s.cancel (some i)).heap.map TimerHandle.id = s.heap.map TimerHandle.id := by
      simp only [ManualScheduler.cancel, List.map_map]
      exact List.map_congr_left fun g _ => ManualScheduler.id_eq_of_cancelHandle i g
    rw [hids]
    exact h.nodup

theorem Distinct.pop {s : ManualScheduler κ} (h : Distinct s) (i : Nat) : Distinct (s.pop i) :=
  ⟨fun k hk => h.fresh k (List.mem_filter.mp hk).1, h.nodup.sublist (List.filter_sublist.map _)⟩

theorem Sound.act (h : Sound w) (o : TimerOp κ) : Goes w (w.act o) := by
  cases o with
  | callLater delay cb =>
    apply h.goes (h.distinct.callLater delay cb)
    have hge : w.now ≤ w.now + if delay < 0 then 0 else delay := by
      split_ifs with hd
      · linarith
      · linarith
    have hwait : (w.act (.callLater delay cb)).agenda.waiting =
        insert ⟨w.now + if delay < 0 then 0 else delay, w.sched.counter⟩ w.agenda.waiting := by
      ext v
      simp only [agenda, World.act, Set.mem_ofPred_eq, ManualScheduler.mem_live_callLater,
        Set.mem_insert_iff]
      constructor
      · rintro ⟨g, hg | rfl, rfl⟩
        · exact Or.inr ⟨g, hg, rfl⟩
        · exact Or.inl rfl
      · rintro (rfl | ⟨g, hg, rfl⟩)
        · exact ⟨_, Or.inr rfl, rfl⟩
        · exact ⟨g, Or.inl hg, rfl⟩
    have heq : (w.act (.callLater delay cb)).agenda = { w.agenda with
        waiting := insert ⟨w.now + if delay < 0 then 0 else delay, w.sched.counter⟩ w.agenda.waiting
        next := w.agenda.next + 1
        history := w.agenda.history ++
          [.registered ⟨w.now + if delay < 0 then 0 else delay, w.sched.counter⟩] } := by
      rw [Agenda.mk.injEq]
      exact ⟨rfl, hwait, rfl, rfl⟩
    rw [heq]
    exact .single (.register _ hge)
  | cancel i =>
    rw [World.act]
    split_ifs with hi
    · apply h.goes (h.distinct.cancel i)
      have heq : agenda { w with
            sched := w.sched.cancel (some i), history := w.history ++ [.cancelled i] } =
          { w.agenda with
            waiting := {v | v ∈ w.agenda.waiting ∧ v.id ≠ i}
            history := w.agenda.history ++ [.cancelled i] } := by
        rw [Agenda.mk.injEq]
        refine ⟨ManualScheduler.cancel_now _ _, ?_, ManualScheduler.cancel_counter _ _, rfl⟩
        ext v
        constructor
        · rintro ⟨g, hg, rfl⟩
          obtain ⟨hg, hne⟩ := ManualScheduler.mem_live_cancel_some.mp hg
          exact ⟨⟨g, hg, rfl⟩, hne⟩
        · rintro ⟨⟨g, hg, rfl⟩, hne⟩
          exact ⟨g, ManualScheduler.mem_live_cancel_some.mpr ⟨hg, hne⟩, rfl⟩
      rw [heq]
      exact .single (.cancel i hi)
    · exact .refl h

theorem Sound.acts (h : Sound w) (os : List (TimerOp κ)) : Goes w (os.foldl World.act w) := by
  induction os generalizing w with
  | nil => exact .refl h
  | cons o os ih =>
    have ho := h.act o
    exact ho.trans (ih ho.sound)

/-- What the client keeps is its own affair. -/
theorem Sound.client (h : Sound w) (c : σ) : Goes w { w with client := c } :=
  ⟨⟨h.distinct, h.kept, h.punctual⟩, .refl⟩

/-- A handle at the top of the heap comes before all others. -/
theorem top_le {s : ManualScheduler κ} {g : TimerHandle κ} (ht : s.top = some h) (hg : g ∈ s.heap) :
    (⟨h.deadline, h.id⟩ : Waiter ℚ).key ≤ (⟨g.deadline, g.id⟩ : Waiter ℚ).key := by
  have hle := List.le_of_mem_argmin hg ht
  exact hle

theorem top_deadline_le {s : ManualScheduler κ} {g : TimerHandle κ} (ht : s.top = some h)
    (hg : g ∈ s.heap) : h.deadline ≤ g.deadline := by
  rcases Prod.Lex.le_iff.mp (top_le ht hg) with hlt | ⟨heq, -⟩
  · exact le_of_lt hlt
  · exact le_of_eq heq

theorem top_mem {s : ManualScheduler κ} (ht : s.top = some h) : h ∈ s.heap := List.argmin_mem ht

/-- The clock may go to the deadline at the top. -/
theorem Sound.pass (hs : Sound w) (ht : w.sched.top = some h) :
    Goes w { w with sched := { w.sched with now := max w.now h.deadline } } := by
  refine hs.goes ⟨hs.distinct.fresh, hs.distinct.nodup⟩ (.single (.pass _ (le_max_left _ _) ?_))
  rintro - v ⟨g, hg, rfl⟩
  have hahead := hs.punctual.ahead _ ⟨g, hg, rfl⟩
  exact max_le hahead (top_deadline_le ht (ManualScheduler.mem_live.mp hg).1)

/-- A cancelled handle is taken off, and nothing else happens. -/
theorem Sound.take (hs : Sound w) (ht : w.sched.top = some h) (hc : h.cancelled = true) :
    Goes w (w.take h) := by
  have hpass := hs.pass ht
  refine ⟨⟨(hpass.sound.distinct.pop h.id : Distinct (w.take h).sched), ?_, ?_⟩, ?_⟩
  all_goals
    have heq : (w.take h).agenda =
        agenda { w with sched := { w.sched with now := max w.now h.deadline } } := by
      rw [agenda, agenda, Agenda.mk.injEq]
      refine ⟨rfl, ?_, rfl, rfl⟩
      ext v
      constructor
      · rintro ⟨g, hg, rfl⟩
        exact ⟨g, (ManualScheduler.mem_live_pop.mp hg).1, rfl⟩
      · rintro ⟨g, hg, rfl⟩
        refine ⟨g, ManualScheduler.mem_live_pop.mpr ⟨hg, fun hid => ?_⟩, rfl⟩
        obtain ⟨hmem, hlive⟩ := ManualScheduler.mem_live.mp hg
        rw [List.inj_on_of_nodup_map hs.distinct.nodup hmem (top_mem ht) hid, hc] at hlive
        cases hlive
    rw [heq]
  · exact hpass.sound.kept
  · exact hpass.sound.punctual
  · exact hpass.path

/-- A live handle is taken off and its callback run. -/
theorem Sound.fire (hs : Sound w) (ht : w.sched.top = some h) (hc : h.cancelled = false) :
    Goes w ((w.take h).fire body h) := by
  have hpass := hs.pass ht
  have hlive : h ∈ w.sched.live := ManualScheduler.mem_live.mpr ⟨top_mem ht, hc⟩
  have hwoken : Goes { w with sched := { w.sched with now := max w.now h.deadline } }
      { w.take h with history := (w.take h).history ++
        [.woken ⟨h.deadline, h.id⟩ (w.take h).now] } := by
    apply hpass.sound.goes (hpass.sound.distinct.pop h.id)
    have heq : agenda { w.take h with
          history := (w.take h).history ++ [.woken ⟨h.deadline, h.id⟩ (w.take h).now] } =
        let a := agenda { w with sched := { w.sched with now := max w.now h.deadline } }
        { a with
          waiting := {v | v ∈ a.waiting ∧ v.id ≠ h.id}
          history := a.history ++ [.woken ⟨h.deadline, h.id⟩ a.now] } := by
      rw [agenda, agenda, Agenda.mk.injEq]
      refine ⟨rfl, ?_, rfl, rfl⟩
      ext v
      constructor
      · rintro ⟨g, hg, rfl⟩
        obtain ⟨hg, hne⟩ := ManualScheduler.mem_live_pop.mp hg
        exact ⟨⟨g, hg, rfl⟩, hne⟩
      · rintro ⟨⟨g, hg, rfl⟩, hne⟩
        exact ⟨g, ManualScheduler.mem_live_pop.mpr ⟨hg, hne⟩, rfl⟩
    rw [heq]
    refine .single (.wake ⟨h.deadline, h.id⟩ ⟨h, hlive, rfl⟩ ?_ (le_max_right _ _))
    rintro v ⟨g, hg, rfl⟩
    exact top_le ht (ManualScheduler.mem_live.mp hg).1
  have hbegun := hpass.trans hwoken
  have hclient := hbegun.trans (hbegun.sound.client (body h.cb
    { w.take h with history := (w.take h).history ++
      [.woken ⟨h.deadline, h.id⟩ (w.take h).now] }).1)
  exact hclient.trans (hclient.sound.acts _)

/-- Nothing due is left at the end of the loop, and the clock stands at the target. -/
theorem Sound.drain {r : World κ σ × Nat} (hs : Sound w) (hle : w.now ≤ target)
    (hd : World.drain body n w target k = some r) :
    Goes w r.1 ∧ ∀ v ∈ r.1.agenda.waiting, target < v.deadline := by
  induction n generalizing w k with
  | zero => cases hd
  | succ n ih =>
    cases ht : w.sched.top.filter fun h => h.deadline ≤ target with
    | none =>
      rw [drain_done ht] at hd
      obtain rfl := Option.some.inj hd
      have hlate : ∀ v ∈ w.agenda.waiting, target < v.deadline := by
        rintro v ⟨g, hg, rfl⟩
        have hg := (ManualScheduler.mem_live.mp hg).1
        cases htop : w.sched.top with
        | none =>
          rw [ManualScheduler.top, List.argmin_eq_none] at htop
          rw [htop] at hg
          cases hg
        | some h =>
          rw [htop, Option.filter_eq_none_iff] at ht
          have hlt : target < h.deadline := by simpa using ht h rfl
          exact lt_of_lt_of_le hlt (top_deadline_le htop hg)
      refine ⟨hs.goes ⟨hs.distinct.fresh, hs.distinct.nodup⟩ (.single (.pass _ hle ?_)), hlate⟩
      exact fun _ v hv => le_of_lt (hlate v hv)
    | some h =>
      have hnext := take_le hle ht
      have htop := (Option.filter_eq_some_iff.mp ht).1
      rw [drain_next ht] at hd
      split_ifs at hd with hc
      · have hgo := hs.take htop hc
        obtain ⟨hrest, hlate⟩ := ih hgo.sound hnext hd
        exact ⟨hgo.trans hrest, hlate⟩
      · have hgo : Goes w ((w.take h).fire body h) := hs.fire htop (by simpa using hc)
        obtain ⟨hrest, hlate⟩ := ih hgo.sound (by rw [fire_now]; exact hnext) hd
        exact ⟨hgo.trans hrest, hlate⟩

/-! ## Runs -/

/-- A scheduler before its first timer. -/
def start (t : ℚ) (c : σ) : World κ σ := ⟨{ now := t }, c, []⟩

theorem sound_start (t : ℚ) (c : σ) : Sound (start t c : World κ σ) := by
  have hempty : (start t c : World κ σ).agenda = ⟨t, ∅, 0, []⟩ := by
    rw [agenda, Agenda.mk.injEq]
    refine ⟨rfl, ?_, rfl, rfl⟩
    ext v
    constructor
    · rintro ⟨g, hg, -⟩
      cases hg
    · rintro ⟨⟩
  refine ⟨⟨(fun g hg => by cases hg), List.nodup_nil⟩, ?_, ?_⟩
  · rw [hempty]
    exact Agenda.kept_start t
  · rw [hempty]
    exact Agenda.punctual_start t

end World

/-- What may be done with a scheduler from outside. -/
inductive TimeAction (κ σ : Type) where
  | op (o : TimerOp κ)
  | client (c : σ)
  | advance (fuel : Nat) (dt : ℚ)

open World in
def worldMachine {κ σ : Type} (body : Body κ σ) : Machine (World κ σ) (TimeAction κ σ) where
  step w
    | .op o => some (w.act o)
    | .client c => some { w with client := c }
    | .advance fuel dt => if 0 ≤ dt then (w.advance body fuel dt).map Prod.fst else none

namespace World

variable {κ σ : Type} {body : Body κ σ} {w w' : World κ σ}

theorem Sound.advance {dt : ℚ} {n k : Nat} (hs : Sound w) (h0 : 0 ≤ dt)
    (hd : w.advance body n dt = some (w', k)) :
    Goes w w' ∧ ∀ v ∈ w'.agenda.waiting, w.now + dt < v.deadline :=
  hs.drain (by linarith) hd

theorem Sound.step {a : TimeAction κ σ} (hs : Sound w)
    (h : (worldMachine body).step w a = some w') :
    Sound w' := by
  cases a with
  | op o =>
    obtain rfl := Option.some.inj h
    exact (hs.act o).sound
  | client c =>
    obtain rfl := Option.some.inj h
    exact (hs.client c).sound
  | advance fuel dt =>
    simp only [worldMachine] at h
    split_ifs at h with h0
    obtain ⟨⟨w₁, k⟩, hd, rfl⟩ := Option.map_eq_some_iff.mp h
    exact (hs.advance h0 hd).1.sound

/-- The timers whose callbacks have been run, in order. -/
def fired (w : World κ σ) : List (Waiter ℚ) := w.history.filterMap Note.wakes

theorem act_fired (w : World κ σ) (o : TimerOp κ) : (w.act o).fired = w.fired := by
  cases o with
  | callLater delay cb =>
    simp only [fired, World.act, List.filterMap_append]
    exact List.append_nil _
  | cancel i =>
    rw [World.act]
    split_ifs
    · simp only [fired, List.filterMap_append]
      exact List.append_nil _
    · rfl

theorem acts_fired (w : World κ σ) (os : List (TimerOp κ)) :
    (os.foldl World.act w).fired = w.fired := by
  induction os generalizing w with
  | nil => rfl
  | cons o os ih => rw [List.foldl_cons, ih, act_fired]

theorem fire_fired (w : World κ σ) (h : TimerHandle κ) :
    (w.fire body h).fired = w.fired ++ [⟨h.deadline, h.id⟩] := by
  rw [fire, acts_fired]
  simp only [fired, List.filterMap_append]
  rfl

/-- `advance` returns how many callbacks it has run. -/
theorem drain_fired {target : ℚ} {n k : Nat} {r : World κ σ × Nat}
    (hd : drain body n w target k = some r) : r.2 + w.fired.length = k + r.1.fired.length := by
  induction n generalizing w k with
  | zero => cases hd
  | succ n ih =>
    cases ht : w.sched.top.filter fun h => h.deadline ≤ target with
    | none =>
      rw [drain_done ht] at hd
      obtain rfl := Option.some.inj hd
      rfl
    | some h =>
      rw [drain_next ht] at hd
      split_ifs at hd
      · have hrest := ih hd
        exact hrest
      · have hrest := ih hd
        rw [fire_fired, List.length_append, List.length_singleton] at hrest
        have htake : (w.take h).fired = w.fired := rfl
        rw [htake] at hrest
        omega

/-- What `advance` does: the callbacks run in order of deadline and creation, each when its
deadline is reached, none that was cancelled before, and none is left out that is due and was
not cancelled before its turn. -/
structure Exact (w : World κ σ) (dt : ℚ) (w' : World κ σ) (k : Nat) : Prop where
  now : w'.now = w.now + dt
  order : w'.fired.Pairwise fun u v => u.key < v.key
  onTime : ∀ v t, .woken v t ∈ w'.history → t = v.deadline ∧ .registered v ∈ w'.history
  valid : w'.history.Pairwise fun x y => ¬ Agenda.Stale x y
  during : ∃ new, w'.history = w.history ++ new ∧ k = (new.filterMap Note.wakes).length ∧
    ∀ v t, .woken v t ∈ new → w.now ≤ t ∧ t ≤ w'.now
  due : ∀ v, .registered v ∈ w'.history → v.deadline ≤ w'.now →
    v ∈ w'.fired ∨ Agenda.Forestalled w'.history v

theorem Sound.exact {dt : ℚ} {n k : Nat} (hs : Sound w) (h0 : 0 ≤ dt)
    (hd : w.advance body n dt = some (w', k)) : Exact w dt w' k := by
  obtain ⟨hgo, hlate⟩ := hs.advance h0 hd
  have hkept := hgo.sound.kept
  have hnow : w'.now = w.now + dt := drain_now hd
  refine ⟨hnow, hkept.sorted, fun v t hv => ⟨?_, (hkept.due v t hv).2⟩, hkept.valid, ?_, ?_⟩
  · exact hgo.sound.punctual.onTime v t hv
  · obtain ⟨new, hnew, htimes⟩ := hgo.path.times
    refine ⟨new, hnew, ?_, htimes⟩
    have hcount := drain_fired hd
    have hsplit : w'.fired = w.fired ++ new.filterMap Note.wakes := by
      have hh : w'.history = w.history ++ new := hnew
      rw [fired, hh, List.filterMap_append]
      rfl
    dsimp only at hcount
    rw [hsplit, List.length_append] at hcount
    omega
  · intro v hv hle
    rcases hkept.whole v hv with hw | hw | hw
    · have hlt := hlate v hw
      rw [hnow] at hle
      exact absurd hle (not_le.mpr hlt)
    · exact Or.inl hw
    · exact Or.inr hw

end World

open World

/-- Virtual time is exact, and it may be split: advancing by `a` and then by `b` ends, with
the same callbacks run at the same times, exactly when advancing by `a + b` does. -/
theorem virtual_time {κ σ : Type} (body : Body κ σ) (t₀ : ℚ) (c : σ) :
    (∀ (w w' : World κ σ) (a b : ℚ) (k : Nat), 0 ≤ a → 0 ≤ b →
      ((∃ n, w.advance body n (a + b) = some (w', k)) ↔
        ∃ n₁ n₂ w₁ k₁ k₂, w.advance body n₁ a = some (w₁, k₁) ∧
          w₁.advance body n₂ b = some (w', k₂) ∧ k = k₁ + k₂)) ∧
    (∀ as w n dt w' k, (worldMachine body).run (start t₀ c) as = some w → 0 ≤ dt →
      w.advance body n dt = some (w', k) → Exact w dt w' k) := by
  constructor
  · intro w w' a b k ha hb
    exact advance_splits ha hb (w', k)
  · intro as w n dt w' k hrun h0 hd
    have hs := Lib.Machine.invariant_run (worldMachine body) (I := Sound)
      (fun w a w' hw h => hw.step h) (sound_start t₀ c) hrun
    exact hs.exact h0 hd

/-- The first of two timers due together cancels the second and schedules another at once. -/
def cancelling : Body Bool Unit
  | true, _ => ((), [.cancel 1, .callLater 0 false])
  | false, _ => ((), [])

/-- Two timers, the first of which cancels the second and schedules another. -/
def twoTimers : World Bool Unit :=
  ((World.start 0 ()).act (.callLater 1 true)).act (.callLater 1 false)

/-- The timer cancelled by one due at the same instant does not fire, the one scheduled then
does; stopping on the way at 1 changes nothing. -/
theorem two_timers_virtual : ∃ w', twoTimers.advance cancelling 9 2 = some (w', 2) ∧
    w'.fired = [⟨1, 0⟩, ⟨1, 2⟩] ∧ Exact twoTimers 2 w' 2 ∧
    ∃ n₁ n₂ w₁ k₁ k₂, twoTimers.advance cancelling n₁ 1 = some (w₁, k₁) ∧
      w₁.advance cancelling n₂ 1 = some (w', k₂) ∧ 2 = k₁ + k₂ := by
  have h : ((twoTimers.advance cancelling 9 2).map fun r => (r.1.fired, r.2)) =
      some ([⟨1, 0⟩, ⟨1, 2⟩], 2) := by
    decide +kernel
  obtain ⟨⟨w', k⟩, hd, hv⟩ := Option.map_eq_some_iff.mp h
  obtain ⟨hfired, rfl⟩ := Prod.mk.inj hv
  have hv := virtual_time cancelling 0 ()
  refine ⟨w', hd, hfired, ?_, ?_⟩
  · exact hv.2 [.op (.callLater 1 true), .op (.callLater 1 false)] twoTimers 9 2 w' 2 rfl
      (by decide) hd
  · have h2 : (1 : ℚ) + 1 = 2 := one_add_one_eq_two
    apply (hv.1 twoTimers w' 1 1 2 (by decide) (by decide)).mp
    rw [h2]
    exact ⟨9, hd⟩

end HdlPlayground.Tcp

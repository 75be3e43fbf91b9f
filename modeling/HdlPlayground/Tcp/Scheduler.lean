import Mathlib.Algebra.Order.Ring.Rat
import Mathlib.Data.List.Nodup

/-!
# The scheduler port

`ManualScheduler` of `ports/scheduler.py`, over exact time and any type of
callbacks. The heap is a list: only its contents matter, because the next timer
to fire is chosen by deadline and id. Cancelling marks a handle and leaves it in
the heap; a handle is live while it is in the heap unmarked.
-/
namespace HdlPlayground.Tcp

structure TimerHandle (κ : Type) where
  id : Nat
  deadline : ℚ
  cb : κ
  cancelled : Bool := false
deriving DecidableEq

structure ManualScheduler (κ : Type) where
  now : ℚ := 0
  heap : List (TimerHandle κ) := []
  counter : Nat := 0

namespace ManualScheduler

variable {κ : Type}

/-- A fresh handle and the scheduler that holds it. -/
def callLater (s : ManualScheduler κ) (delay : ℚ) (cb : κ) : Nat × ManualScheduler κ :=
  let delay := if delay < 0 then 0 else delay
  let h : TimerHandle κ := { id := s.counter, deadline := s.now + delay, cb := cb }
  (s.counter, { s with heap := s.heap ++ [h], counter := s.counter + 1 })

def cancelHandle (i : Nat) (h : TimerHandle κ) : TimerHandle κ :=
  if h.id = i then { h with cancelled := true } else h

def cancel (s : ManualScheduler κ) : Option Nat → ManualScheduler κ
  | none => s
  | some i => { s with heap := s.heap.map (cancelHandle i) }

/-- The `cancelled` flag of the handle with this id. -/
def isCancelled (s : ManualScheduler κ) (i : Nat) : Bool :=
  s.heap.any fun h => h.id == i && h.cancelled

/-- Take a handle off the heap, as firing it does. -/
def pop (s : ManualScheduler κ) (i : Nat) : ManualScheduler κ :=
  { s with heap := s.heap.filter fun h => h.id != i }

def live (s : ManualScheduler κ) : List (TimerHandle κ) := s.heap.filter fun h => !h.cancelled

def pending (s : ManualScheduler κ) : Nat := s.live.length

/-! ## What each operation does to the live handles -/

theorem mem_live {s : ManualScheduler κ} {h : TimerHandle κ} :
    h ∈ s.live ↔ h ∈ s.heap ∧ h.cancelled = false := by
  simp [live]

theorem mem_live_callLater {s : ManualScheduler κ} {delay : ℚ} {cb : κ} {h : TimerHandle κ} :
    h ∈ (s.callLater delay cb).2.live ↔
      h ∈ s.live ∨ h = ⟨s.counter, s.now + (if delay < 0 then 0 else delay), cb, false⟩ := by
  simp only [callLater, mem_live, List.mem_append, List.mem_singleton]
  constructor
  · rintro ⟨hm | rfl, hc⟩
    · exact Or.inl ⟨hm, hc⟩
    · exact Or.inr rfl
  · rintro (⟨hm, hc⟩ | rfl)
    · exact ⟨Or.inl hm, hc⟩
    · exact ⟨Or.inr rfl, rfl⟩

theorem mem_live_cancel_some {s : ManualScheduler κ} {i : Nat} {h : TimerHandle κ} :
    h ∈ (s.cancel (some i)).live ↔ h ∈ s.live ∧ h.id ≠ i := by
  simp only [cancel, mem_live, List.mem_map]
  constructor
  · rintro ⟨⟨g, hg, rfl⟩, hc⟩
    by_cases hi : g.id = i
    · simp [cancelHandle, hi] at hc
    · simp only [cancelHandle, if_neg hi] at hc ⊢
      exact ⟨⟨hg, hc⟩, hi⟩
  · rintro ⟨⟨hm, hc⟩, hi⟩
    exact ⟨⟨h, hm, by simp [cancelHandle, hi]⟩, hc⟩

theorem mem_live_pop {s : ManualScheduler κ} {i : Nat} {h : TimerHandle κ} :
    h ∈ (s.pop i).live ↔ h ∈ s.live ∧ h.id ≠ i := by
  simp only [pop, mem_live, List.mem_filter, bne_iff_ne]
  tauto

@[simp] theorem cancel_none (s : ManualScheduler κ) : s.cancel none = s := rfl

@[simp] theorem cancel_counter (s : ManualScheduler κ) (i : Option Nat) :
    (s.cancel i).counter = s.counter := by cases i <;> rfl

@[simp] theorem cancel_now (s : ManualScheduler κ) (i : Option Nat) :
    (s.cancel i).now = s.now := by cases i <;> rfl

@[simp] theorem callLater_id (s : ManualScheduler κ) (delay : ℚ) (cb : κ) :
    (s.callLater delay cb).1 = s.counter := rfl

@[simp] theorem callLater_counter (s : ManualScheduler κ) (delay : ℚ) (cb : κ) :
    (s.callLater delay cb).2.counter = s.counter + 1 := rfl

@[simp] theorem callLater_now (s : ManualScheduler κ) (delay : ℚ) (cb : κ) :
    (s.callLater delay cb).2.now = s.now := rfl

theorem id_eq_of_cancelHandle (i : Nat) (h : TimerHandle κ) : (cancelHandle i h).id = h.id := by
  unfold cancelHandle; split <;> rfl

/-! ## Slots

A program that keeps one slot for each kind of callback and goes through it
whenever it arms or cancels a timer. `Slots` says that the live handles are
exactly those the slots name. -/

structure Slots (s : ManualScheduler κ) (slot : κ → Option Nat) : Prop where
  fresh : ∀ h ∈ s.heap, h.id < s.counter
  distinct : (s.heap.map TimerHandle.id).Nodup
  held : ∀ h ∈ s.live, slot h.cb = some h.id
  armed : ∀ cb i, slot cb = some i → ∃ h ∈ s.live, h.id = i ∧ h.cb = cb

namespace Slots

variable {s : ManualScheduler κ} {slot : κ → Option Nat}

theorem empty (s : ManualScheduler κ) (h : s.heap = []) : s.Slots fun _ => none :=
  ⟨by simp [h], by simp [h], by simp [live, h], by simp⟩

theorem passTime (h : s.Slots slot) (t : ℚ) : Slots { s with now := t } slot :=
  ⟨h.fresh, h.distinct, h.held, h.armed⟩

theorem id_inj (h : s.Slots slot) {g g' : TimerHandle κ} (hg : g ∈ s.heap) (hg' : g' ∈ s.heap)
    (hid : g.id = g'.id) : g = g' :=
  List.inj_on_of_nodup_map h.distinct hg hg' hid

/-- At most one timer of a kind is live. -/
theorem unique (h : s.Slots slot) {g g' : TimerHandle κ} (hg : g ∈ s.live) (hg' : g' ∈ s.live)
    (hcb : g.cb = g'.cb) : g = g' := by
  have hid : some g.id = some g'.id := by rw [← h.held g hg, ← h.held g' hg', hcb]
  exact h.id_inj (mem_live.mp hg).1 (mem_live.mp hg').1 (Option.some.inj hid)

theorem isCancelled_eq (h : s.Slots slot) (cb : κ) {i : Nat} (hi : slot cb = some i) :
    s.isCancelled i = false := by
  obtain ⟨g, hg, rfl, -⟩ := h.armed cb i hi
  obtain ⟨hm, hc⟩ := mem_live.mp hg
  rw [isCancelled, List.any_eq_false]
  intro g' hg' hb
  simp only [Bool.and_eq_true, beq_iff_eq] at hb
  rw [h.id_inj hg' hm hb.1, hc] at hb
  exact absurd hb.2 (by simp)

theorem slot_ne_none_iff (h : s.Slots slot) (cb : κ) :
    slot cb ≠ none ↔ ∃ g ∈ s.live, g.cb = cb := by
  constructor
  · intro hn
    obtain ⟨i, hi⟩ := Option.ne_none_iff_exists'.mp hn
    obtain ⟨g, hg, -, hcb⟩ := h.armed cb i hi
    exact ⟨g, hg, hcb⟩
  · rintro ⟨g, hg, rfl⟩
    rw [h.held g hg]
    simp

variable [DecidableEq κ]

theorem callLater (h : s.Slots slot) {cb : κ} (d : ℚ) (hn : slot cb = none) :
    (s.callLater d cb).2.Slots (Function.update slot cb (some s.counter)) where
  fresh g hg := by
    simp only [ManualScheduler.callLater, List.mem_append, List.mem_singleton] at hg ⊢
    obtain hg | rfl := hg
    · exact Nat.lt_succ_of_lt (h.fresh g hg)
    · exact Nat.lt_succ_self _
  distinct := by
    simp only [ManualScheduler.callLater, List.map_append, List.map_cons, List.map_nil]
    refine List.nodup_append.mpr ⟨h.distinct, by simp, ?_⟩
    intro i hi j hj hij
    obtain ⟨g, hg, rfl⟩ := List.mem_map.mp hi
    rw [List.mem_singleton.mp hj] at hij
    exact absurd hij (Nat.ne_of_lt (h.fresh g hg))
  held g hg := by
    rcases mem_live_callLater.mp hg with hg | rfl
    · have hne : g.cb ≠ cb := fun hc => by rw [← hc, h.held g hg] at hn; cases hn
      rw [Function.update_of_ne hne, h.held g hg]
    · rw [Function.update_self]
  armed c i hi := by
    by_cases hc : c = cb
    · subst hc
      rw [Function.update_self] at hi
      obtain rfl := Option.some.inj hi
      exact ⟨_, mem_live_callLater.mpr (Or.inr rfl), rfl, rfl⟩
    · rw [Function.update_of_ne hc] at hi
      obtain ⟨g, hg, hg'⟩ := h.armed c i hi
      exact ⟨g, mem_live_callLater.mpr (Or.inl hg), hg'⟩

theorem cancel (h : s.Slots slot) (cb : κ) :
    (s.cancel (slot cb)).Slots (Function.update slot cb none) := by
  cases hi : slot cb with
  | none =>
    rw [cancel_none, ← hi, Function.update_eq_self]
    exact h
  | some i =>
    refine ⟨fun g hg => ?_, ?_, fun g hg => ?_, fun c j hj => ?_⟩
    · simp only [ManualScheduler.cancel, List.mem_map] at hg
      obtain ⟨g', hg', rfl⟩ := hg
      rw [id_eq_of_cancelHandle]
      exact h.fresh g' hg'
    · have : (s.cancel (some i)).heap.map TimerHandle.id = s.heap.map TimerHandle.id := by
        simp only [ManualScheduler.cancel, List.map_map]
        exact List.map_congr_left fun g _ => id_eq_of_cancelHandle i g
      rw [this]
      exact h.distinct
    · obtain ⟨hg, hne⟩ := mem_live_cancel_some.mp hg
      have hc : g.cb ≠ cb := by
        rintro rfl
        rw [h.held g hg] at hi
        exact hne (Option.some.inj hi)
      rw [Function.update_of_ne hc, h.held g hg]
    · have hc : c ≠ cb := by rintro rfl; simp at hj
      rw [Function.update_of_ne hc] at hj
      obtain ⟨g, hg, rfl, rfl⟩ := h.armed c j hj
      refine ⟨g, mem_live_cancel_some.mpr ⟨hg, ?_⟩, rfl, rfl⟩
      rintro rfl
      obtain ⟨g', hg', hid, hcb⟩ := h.armed cb g.id hi
      have := h.id_inj (mem_live.mp hg).1 (mem_live.mp hg').1 hid.symm
      exact hc (by rw [this, hcb])

theorem pop (h : s.Slots slot) {g : TimerHandle κ} (hg : g ∈ s.live) :
    (s.pop g.id).Slots (Function.update slot g.cb none) where
  fresh k hk := h.fresh k (List.mem_filter.mp hk).1
  distinct := h.distinct.sublist (List.filter_sublist.map _)
  held k hk := by
    obtain ⟨hk, hne⟩ := mem_live_pop.mp hk
    have hc : k.cb ≠ g.cb := fun hc => hne (by rw [h.unique hk hg hc])
    rw [Function.update_of_ne hc, h.held k hk]
  armed c i hi := by
    have hc : c ≠ g.cb := by rintro rfl; simp at hi
    rw [Function.update_of_ne hc] at hi
    obtain ⟨k, hk, rfl, rfl⟩ := h.armed c i hi
    refine ⟨k, mem_live_pop.mpr ⟨hk, fun hid => hc ?_⟩, rfl, rfl⟩
    rw [h.id_inj (mem_live.mp hk).1 (mem_live.mp hg).1 hid]

end Slots

end ManualScheduler

end HdlPlayground.Tcp

import Mathlib.Data.List.MinMax
import Mathlib.Data.Prod.Lex
import Mathlib.Data.Set.Insert
import Mathlib.Logic.Relation

/-!
# Agendas

Waiters with deadlines, in the order of deadline and registration. One may register for a
time that is not past, be cancelled, or, being due and the first of all that wait, be woken;
and time may pass. The history then has the waiters in order, each woken once and none that
was cancelled before, nor is one passed over that was not. Where time never passes a deadline,
each is woken at its own.
-/
namespace HdlPlayground.Lib

/-- Who waits until when; the number is the place in the order of registration. -/
structure Waiter (τ : Type*) where
  deadline : τ
  id : Nat
deriving DecidableEq

/-- The order of waking. -/
def Waiter.key {τ : Type*} (w : Waiter τ) : τ ×ₗ ℕ := toLex (w.deadline, w.id)

/-- The first of a heap. -/
def heapTop {α τ : Type*} [LinearOrder τ] (key : α → τ ×ₗ ℕ) (heap : List α) : Option α :=
  heap.argmin key

section Heap

variable {α τ : Type*} [LinearOrder τ] {key : α → τ ×ₗ ℕ} {heap : List α} {x y : α}

theorem heapTop_mem (h : heapTop key heap = some x) : x ∈ heap := List.argmin_mem h

theorem heapTop_le (h : heapTop key heap = some x) (hy : y ∈ heap) : key x ≤ key y :=
  List.le_of_mem_argmin hy h

theorem heapTop_eq_none : heapTop key heap = none ↔ heap = [] := List.argmin_eq_none

end Heap

inductive Note (τ : Type*) where
  | registered (w : Waiter τ)
  | cancelled (id : Nat)
  | woken (w : Waiter τ) (now : τ)
deriving DecidableEq

def Note.wakes {τ : Type*} : Note τ → Option (Waiter τ)
  | .woken w _ => some w
  | _ => none

structure Agenda (τ : Type*) where
  now : τ
  waiting : Set (Waiter τ)
  next : Nat
  history : List (Note τ)

namespace Agenda

section History

variable {τ : Type*}

/-- The waiters woken, in order. -/
def woken (a : Agenda τ) : List (Waiter τ) := a.history.filterMap Note.wakes

/-- A waking after the waiter was cancelled. -/
def Stale (x y : Note τ) : Prop := ∃ i w t, x = .cancelled i ∧ y = .woken w t ∧ w.id = i

/-- A waiter cancelled before its turn: none of those woken until then comes after it. -/
def Forestalled [LinearOrder τ] (l : List (Note τ)) (w : Waiter τ) : Prop :=
  ∃ before after, l = before ++ .cancelled w.id :: after ∧
    ∀ v ∈ before.filterMap Note.wakes, v.key < w.key

theorem Forestalled.append [LinearOrder τ] {l : List (Note τ)} {w : Waiter τ}
    (h : Forestalled l w) (new : List (Note τ)) : Forestalled (l ++ new) w := by
  obtain ⟨before, after, hl, hv⟩ := h
  refine ⟨before, after ++ new, ?_, hv⟩
  rw [hl, List.append_assoc, List.cons_append]

theorem Forestalled.mem [LinearOrder τ] {l : List (Note τ)} {w : Waiter τ}
    (h : Forestalled l w) : .cancelled w.id ∈ l := by
  obtain ⟨before, after, hl, -⟩ := h
  rw [hl]
  exact List.mem_append_right _ List.mem_cons_self

theorem woken_concat (a : Agenda τ) (x : Note τ) :
    (a.history ++ [x]).filterMap Note.wakes = a.woken ++ x.wakes.toList := by
  rw [List.filterMap_append]
  cases x <;> rfl

/-- One more note, which wakes no one cancelled before. -/
theorem valid_concat {l : List (Note τ)} {x : Note τ}
    (h : l.Pairwise fun x y => ¬ Stale x y)
    (hx : ∀ w t, x = .woken w t → .cancelled w.id ∉ l) :
    (l ++ [x]).Pairwise fun x y => ¬ Stale x y := by
  refine List.pairwise_append.mpr ⟨h, List.pairwise_singleton _ _, fun y hy z hz => ?_⟩
  rw [List.mem_singleton] at hz
  rintro ⟨i, w, t, rfl, hw, rfl⟩
  exact hx w t (hz ▸ hw) hy

end History

variable {τ : Type*} [LinearOrder τ] {prompt : Prop} {a b : Agenda τ} {v w : Waiter τ}

/-- What may happen. A prompt agenda does not let time pass a deadline. -/
inductive Move (prompt : Prop) (a : Agenda τ) : Agenda τ → Prop
  | register (d : τ) : a.now ≤ d → Move prompt a
      { a with
        waiting := insert ⟨d, a.next⟩ a.waiting, next := a.next + 1
        history := a.history ++ [.registered ⟨d, a.next⟩] }
  | cancel (i : Nat) : i < a.next → Move prompt a
      { a with
        waiting := {w | w ∈ a.waiting ∧ w.id ≠ i}, history := a.history ++ [.cancelled i] }
  | wake (w : Waiter τ) : w ∈ a.waiting → (∀ v ∈ a.waiting, w.key ≤ v.key) →
      w.deadline ≤ a.now → Move prompt a
      { a with
        waiting := {v | v ∈ a.waiting ∧ v.id ≠ w.id}
        history := a.history ++ [.woken w a.now] }
  | pass (t : τ) : a.now ≤ t → (prompt → ∀ w ∈ a.waiting, t ≤ w.deadline) →
      Move prompt a { a with now := t }

abbrev Path (prompt : Prop) : Agenda τ → Agenda τ → Prop := Relation.ReflTransGen (Move prompt)

structure Kept (a : Agenda τ) : Prop where
  fresh : ∀ w, .registered w ∈ a.history → w.id < a.next
  known : ∀ w ∈ a.waiting, .registered w ∈ a.history
  sole : ∀ v w, .registered v ∈ a.history → .registered w ∈ a.history → v.id = w.id → v = w
  gone : ∀ i, .cancelled i ∈ a.history → i < a.next ∧ ∀ w ∈ a.waiting, w.id ≠ i
  passed : ∀ v ∈ a.woken, v.deadline ≤ a.now ∧ v.id < a.next ∧ ∀ w ∈ a.waiting, v.key < w.key
  whole : ∀ w, .registered w ∈ a.history → w ∈ a.waiting ∨ w ∈ a.woken ∨ Forestalled a.history w
  sorted : a.woken.Pairwise fun v w => v.key < w.key
  valid : a.history.Pairwise fun x y => ¬ Stale x y
  due : ∀ w t, .woken w t ∈ a.history → w.deadline ≤ t ∧ .registered w ∈ a.history

theorem key_lt_of_later (h : v.deadline ≤ w.deadline) (hi : v.id < w.id) : v.key < w.key := by
  rw [Waiter.key, Waiter.key, Prod.Lex.lt_iff]
  rcases lt_or_eq_of_le h with hlt | heq
  · exact Or.inl hlt
  · exact Or.inr ⟨heq, hi⟩

theorem kept_start (now : τ) : Kept (⟨now, ∅, 0, []⟩ : Agenda τ) where
  fresh w h := by cases h
  known w h := h.elim
  sole v w h := by cases h
  gone i h := by cases h
  passed v h := by cases h
  whole w h := by cases h
  sorted := List.Pairwise.nil
  valid := List.Pairwise.nil
  due w t h := by cases h

theorem Kept.register (h : Kept a) {d : τ} (hd : a.now ≤ d) : Kept { a with
    waiting := insert ⟨d, a.next⟩ a.waiting, next := a.next + 1
    history := a.history ++ [.registered ⟨d, a.next⟩] } := by
  have hwoken : (a.history ++ [Note.registered ⟨d, a.next⟩]).filterMap Note.wakes = a.woken := by
    rw [woken_concat]
    exact List.append_nil _
  constructor
  · intro w hw
    rcases List.mem_append.mp hw with hw | hw
    · exact Nat.lt_succ_of_lt (h.fresh w hw)
    · obtain rfl := Note.registered.inj (List.mem_singleton.mp hw)
      exact Nat.lt_succ_self _
  · rintro w (rfl | hw)
    · simp
    · exact List.mem_append_left _ (h.known w hw)
  · intro v w hv hw hid
    rcases List.mem_append.mp hv with hv | hv
    · rcases List.mem_append.mp hw with hw | hw
      · exact h.sole v w hv hw hid
      · obtain rfl := Note.registered.inj (List.mem_singleton.mp hw)
        exact absurd hid (Nat.ne_of_lt (h.fresh v hv))
    · obtain rfl := Note.registered.inj (List.mem_singleton.mp hv)
      rcases List.mem_append.mp hw with hw | hw
      · exact absurd hid.symm (Nat.ne_of_lt (h.fresh w hw))
      · exact (Note.registered.inj (List.mem_singleton.mp hw)).symm
  · intro i hi
    have hi' : .cancelled i ∈ a.history := by simpa using hi
    obtain ⟨hlt, hne⟩ := h.gone i hi'
    refine ⟨Nat.lt_succ_of_lt hlt, ?_⟩
    rintro w (rfl | hw)
    · exact Nat.ne_of_gt hlt
    · exact hne w hw
  · intro v hv
    obtain ⟨hdl, hid, hkey⟩ := h.passed v (hwoken ▸ hv)
    refine ⟨hdl, Nat.lt_succ_of_lt hid, ?_⟩
    rintro w (rfl | hw)
    · exact key_lt_of_later (le_trans hdl hd) hid
    · exact hkey w hw
  · intro w hw
    rcases List.mem_append.mp hw with hw | hw
    · rcases h.whole w hw with hw | hw | hw
      · exact Or.inl (Set.mem_insert_of_mem _ hw)
      · exact Or.inr (Or.inl (by rw [woken, hwoken]; exact hw))
      · exact Or.inr (Or.inr (hw.append _))
    · obtain rfl := Note.registered.inj (List.mem_singleton.mp hw)
      exact Or.inl (Set.mem_insert _ _)
  · rw [woken, hwoken]
    exact h.sorted
  · exact valid_concat h.valid fun w t hx => by cases hx
  · intro w t hw
    have hw' : .woken w t ∈ a.history := by simpa using hw
    exact ⟨(h.due w t hw').1, List.mem_append_left _ (h.due w t hw').2⟩

theorem Kept.cancel (h : Kept a) {i : Nat} (hi : i < a.next) : Kept { a with
    waiting := {w | w ∈ a.waiting ∧ w.id ≠ i}, history := a.history ++ [.cancelled i] } := by
  have hwoken : (a.history ++ [Note.cancelled i]).filterMap Note.wakes = a.woken := by
    rw [woken_concat]
    exact List.append_nil _
  have hreg {w : Waiter τ} (hw : .registered w ∈ a.history ++ [.cancelled i]) :
      .registered w ∈ a.history := by simpa using hw
  constructor
  · exact fun w hw => h.fresh w (hreg hw)
  · exact fun w hw => List.mem_append_left _ (h.known w hw.1)
  · exact fun v w hv hw => h.sole v w (hreg hv) (hreg hw)
  · intro j hj
    rcases List.mem_append.mp hj with hj | hj
    · exact ⟨(h.gone j hj).1, fun w hw => (h.gone j hj).2 w hw.1⟩
    · obtain rfl := Note.cancelled.inj (List.mem_singleton.mp hj)
      exact ⟨hi, fun w hw => hw.2⟩
  · intro v hv
    obtain ⟨hdl, hid, hkey⟩ := h.passed v (hwoken ▸ hv)
    exact ⟨hdl, hid, fun w hw => hkey w hw.1⟩
  · intro w hw
    rcases h.whole w (hreg hw) with hw | hw | hw
    · by_cases hid : w.id = i
      · -- it still waits, and those woken so far come before all that wait
        refine Or.inr (Or.inr ⟨a.history, [], by rw [hid], fun v hv => ?_⟩)
        exact (h.passed v hv).2.2 w hw
      · exact Or.inl ⟨hw, hid⟩
    · exact Or.inr (Or.inl (by rw [woken, hwoken]; exact hw))
    · exact Or.inr (Or.inr (hw.append _))
  · rw [woken, hwoken]
    exact h.sorted
  · exact valid_concat h.valid fun w t hx => by cases hx
  · intro w t hw
    have hw' : .woken w t ∈ a.history := by simpa using hw
    exact ⟨(h.due w t hw').1, List.mem_append_left _ (h.due w t hw').2⟩

theorem Kept.wake (h : Kept a) (hw : w ∈ a.waiting) (hmin : ∀ v ∈ a.waiting, w.key ≤ v.key)
    (hd : w.deadline ≤ a.now) : Kept { a with
      waiting := {v | v ∈ a.waiting ∧ v.id ≠ w.id}
      history := a.history ++ [.woken w a.now] } := by
  have hwoken : (a.history ++ [Note.woken w a.now]).filterMap Note.wakes = a.woken ++ [w] := by
    rw [woken_concat]
    rfl
  have hreg {v : Waiter τ} (hv : .registered v ∈ a.history ++ [.woken w a.now]) :
      .registered v ∈ a.history := by simpa using hv
  have hcan {i : Nat} (hi : .cancelled i ∈ a.history ++ [.woken w a.now]) :
      .cancelled i ∈ a.history := by simpa using hi
  have hknown := h.known w hw
  constructor
  · exact fun v hv => h.fresh v (hreg hv)
  · exact fun v hv => List.mem_append_left _ (h.known v hv.1)
  · exact fun u v hu hv => h.sole u v (hreg hu) (hreg hv)
  · exact fun i hi => ⟨(h.gone i (hcan hi)).1, fun v hv => (h.gone i (hcan hi)).2 v hv.1⟩
  · intro v hv
    rw [woken, hwoken] at hv
    rcases List.mem_append.mp hv with hv | hv
    · obtain ⟨hdl, hid, hkey⟩ := h.passed v hv
      exact ⟨hdl, hid, fun u hu => hkey u hu.1⟩
    · obtain rfl := List.mem_singleton.mp hv
      refine ⟨hd, h.fresh v hknown, fun u hu => lt_of_le_of_ne (hmin u hu.1) fun he => hu.2 ?_⟩
      have hpair : (v.deadline, v.id) = (u.deadline, u.id) := toLex.injective he
      exact (Prod.ext_iff.mp hpair).2.symm
  · intro v hv
    rcases h.whole v (hreg hv) with hv' | hv' | hv'
    · by_cases hid : v.id = w.id
      · obtain rfl := h.sole v w (hreg hv) hknown hid
        exact Or.inr (Or.inl (by rw [woken, hwoken]; simp))
      · exact Or.inl ⟨hv', hid⟩
    · exact Or.inr (Or.inl (by rw [woken, hwoken]; exact List.mem_append_left _ hv'))
    · exact Or.inr (Or.inr (hv'.append _))
  · rw [woken, hwoken]
    refine List.pairwise_append.mpr ⟨h.sorted, List.pairwise_singleton _ _, fun v hv u hu => ?_⟩
    rw [List.mem_singleton.mp hu]
    exact (h.passed v hv).2.2 w hw
  · refine valid_concat h.valid fun u t hx hc => ?_
    obtain ⟨rfl, -⟩ := Note.woken.inj hx
    exact (h.gone _ hc).2 w hw rfl
  · intro u t hu
    rcases List.mem_append.mp hu with hu | hu
    · exact ⟨(h.due u t hu).1, List.mem_append_left _ (h.due u t hu).2⟩
    · obtain ⟨rfl, rfl⟩ := Note.woken.inj (List.mem_singleton.mp hu)
      exact ⟨hd, List.mem_append_left _ hknown⟩

theorem Kept.pass (h : Kept a) {t : τ} (ht : a.now ≤ t) : Kept { a with now := t } where
  fresh := h.fresh
  known := h.known
  sole := h.sole
  gone := h.gone
  passed v hv := ⟨le_trans (h.passed v hv).1 ht, (h.passed v hv).2⟩
  whole := h.whole
  sorted := h.sorted
  valid := h.valid
  due := h.due

theorem Kept.move (h : Kept a) (hm : Move prompt a b) : Kept b := by
  cases hm with
  | register d hd => exact h.register hd
  | cancel i hi => exact h.cancel hi
  | wake w hw hmin hd => exact h.wake hw hmin hd
  | pass t ht _ => exact h.pass ht

theorem Kept.path (h : Kept a) (hp : Path prompt a b) : Kept b := by
  induction hp with
  | refl => exact h
  | tail _ hm ih => exact ih.move hm

/-! ## On time -/

structure Punctual (a : Agenda τ) : Prop where
  ahead : ∀ w ∈ a.waiting, a.now ≤ w.deadline
  onTime : ∀ w t, .woken w t ∈ a.history → t = w.deadline

theorem punctual_start (now : τ) : Punctual (⟨now, ∅, 0, []⟩ : Agenda τ) :=
  ⟨fun _ h => h.elim, fun w t h => by cases h⟩

theorem Punctual.move (h : Punctual a) (hm : Move True a b) : Punctual b := by
  cases hm with
  | register d hd =>
    refine ⟨?_, fun w t hw => h.onTime w t (by simpa using hw)⟩
    rintro w (rfl | hw)
    · exact hd
    · exact h.ahead w hw
  | cancel i hi =>
    exact ⟨fun w hw => h.ahead w hw.1, fun w t hw => h.onTime w t (by simpa using hw)⟩
  | wake w hw hmin hd =>
    refine ⟨fun v hv => h.ahead v hv.1, fun v t hv => ?_⟩
    rcases List.mem_append.mp hv with hv | hv
    · exact h.onTime v t hv
    · obtain ⟨rfl, rfl⟩ := Note.woken.inj (List.mem_singleton.mp hv)
      exact le_antisymm (h.ahead v hw) hd
  | pass t ht hp => exact ⟨fun w hw => hp True.intro w hw, h.onTime⟩

theorem Punctual.path (h : Punctual a) (hp : Path True a b) : Punctual b := by
  induction hp with
  | refl => exact h
  | tail _ hm ih => exact ih.move hm

/-! ## What a path leaves alone -/

theorem Move.now_le (hm : Move prompt a b) : a.now ≤ b.now := by
  cases hm with
  | pass t ht _ => exact ht
  | _ => exact le_refl _

theorem Path.now_le (hp : Path prompt a b) : a.now ≤ b.now := by
  induction hp with
  | refl => exact le_refl _
  | tail _ hm ih => exact le_trans ih hm.now_le

/-- The history goes on, and who is woken meanwhile is woken at a time in between. -/
theorem Path.times (hp : Path prompt a b) : ∃ new, b.history = a.history ++ new ∧
    ∀ w t, .woken w t ∈ new → a.now ≤ t ∧ t ≤ b.now := by
  induction hp with
  | refl => exact ⟨[], (List.append_nil _).symm, fun w t h => by cases h⟩
  | tail hp hm ih =>
    obtain ⟨new, hnew, htimes⟩ := ih
    have hle := Path.now_le hp
    cases hm with
    | register d hd =>
      refine ⟨new ++ [.registered _], by rw [hnew, List.append_assoc], fun w t hw => ?_⟩
      exact htimes w t (by simpa using hw)
    | cancel i hi =>
      refine ⟨new ++ [.cancelled i], by rw [hnew, List.append_assoc], fun w t hw => ?_⟩
      exact htimes w t (by simpa using hw)
    | wake v hv hmin hd =>
      refine ⟨new ++ [.woken v _], by rw [hnew, List.append_assoc], fun w t hw => ?_⟩
      rcases List.mem_append.mp hw with hw | hw
      · exact htimes w t hw
      · obtain ⟨-, rfl⟩ := Note.woken.inj (List.mem_singleton.mp hw)
        exact ⟨hle, le_refl _⟩
    | pass t ht _ =>
      refine ⟨new, hnew, fun w t' hw => ?_⟩
      exact ⟨(htimes w t' hw).1, le_trans (htimes w t' hw).2 ht⟩

end Agenda

end HdlPlayground.Lib

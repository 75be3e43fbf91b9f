import Mathlib.Init

/-!
# Deterministic machines with partial steps

A machine consumes actions; `none` means the action is not enabled. A run is a
fold of the step over a list of actions, and every prefix of a run is a run, so
a fact about the last state of every run is a fact about every reachable state.
The rules below carry an invariant, a guarded invariant, and a relation between
two machines from one step to whole runs.
-/
namespace HdlPlayground.Lib

structure Machine (σ α : Type*) where
  step : σ → α → Option σ

namespace Machine

variable {σ τ α β : Type*} (M : Machine σ α) (N : Machine τ β)

def run : σ → List α → Option σ
  | s, [] => some s
  | s, a :: as => (M.step s a).bind fun s' => run s' as

theorem run_cons (s : σ) (a : α) (as : List α) :
    M.run s (a :: as) = (M.step s a).bind fun s' => M.run s' as := rfl

theorem run_append (s : σ) (as bs : List α) :
    M.run s (as ++ bs) = (M.run s as).bind fun s' => M.run s' bs := by
  induction as generalizing s with
  | nil => rfl
  | cons a as ih =>
    rw [List.cons_append, run_cons, run_cons]
    cases M.step s a with
    | none => rfl
    | some s' => exact ih s'

/-- Every step of the run from `s` meets the condition `C` on the state before it. -/
def AllSteps (C : σ → α → Prop) : σ → List α → Prop
  | _, [] => True
  | s, a :: as => C s a ∧ ∀ s', M.step s a = some s' → AllSteps C s' as

def Preserves (C : σ → α → Prop) (I : σ → Prop) : Prop :=
  ∀ s a s', I s → C s a → M.step s a = some s' → I s'

/-- The guarded invariant rule: what each allowed step preserves, a run of
allowed steps preserves. -/
theorem Preserves.run {M : Machine σ α} {C : σ → α → Prop} {I : σ → Prop}
    (h : M.Preserves C I) {s s' : σ} {as : List α} (hI : I s) (hC : M.AllSteps C s as)
    (hr : M.run s as = some s') : I s' := by
  induction as generalizing s with
  | nil =>
    obtain rfl := Option.some.inj hr
    exact hI
  | cons a as ih =>
    rw [run_cons] at hr
    cases hs : M.step s a with
    | none => rw [hs] at hr; cases hr
    | some t =>
      rw [hs] at hr
      exact ih (h s a t hI hC.1 hs) (hC.2 t hs) hr

theorem AllSteps.trivial (s : σ) (as : List α) : M.AllSteps (fun _ _ => True) s as := by
  induction as generalizing s with
  | nil => exact True.intro
  | cons a as ih => exact ⟨True.intro, fun s' _ => ih s'⟩

/-- One condition implies another at every step of a completed run, where an invariant
relates them. -/
theorem AllSteps.imp {M : Machine σ α} {C D : σ → α → Prop} {I : σ → Prop}
    (h : ∀ s a s', I s → M.step s a = some s' → I s' ∧ (C s a → D s a)) {s t : σ} {as : List α}
    (hr : M.run s as = some t) (hI : I s) (hC : M.AllSteps C s as) : M.AllSteps D s as := by
  induction as generalizing s with
  | nil => exact True.intro
  | cons a as ih =>
    rw [run_cons] at hr
    cases hs : M.step s a with
    | none => rw [hs] at hr; cases hr
    | some s' =>
      rw [hs] at hr
      obtain ⟨hI', hCD⟩ := h s a s' hI hs
      refine ⟨hCD hC.1, fun s'' hs'' => ?_⟩
      rw [hs] at hs''
      obtain rfl := Option.some.inj hs''
      exact ih hr hI' (hC.2 s' hs)

/-- What an invariant gives at every step that meets the condition. -/
theorem AllSteps.of_invariant {M : Machine σ α} {C D : σ → α → Prop} {I : σ → Prop}
    (h : ∀ s a, I s → C s a → D s a ∧ ∀ s', M.step s a = some s' → I s') {s : σ} {as : List α}
    (hI : I s) (hC : M.AllSteps C s as) : M.AllSteps D s as := by
  induction as generalizing s with
  | nil => exact True.intro
  | cons a as ih =>
    obtain ⟨hD, hnext⟩ := h s a hI hC.1
    exact ⟨hD, fun s' hs => ih (hnext s' hs) (hC.2 s' hs)⟩

theorem AllSteps.suffix {M : Machine σ α} {C : σ → α → Prop} {s t : σ} {as bs : List α}
    (h : M.AllSteps C s (as ++ bs)) (hr : M.run s as = some t) : M.AllSteps C t bs := by
  induction as generalizing s with
  | nil =>
    obtain rfl := Option.some.inj hr
    exact h
  | cons a as ih =>
    rw [run_cons] at hr
    cases hs : M.step s a with
    | none => rw [hs] at hr; cases hr
    | some s' =>
      rw [hs] at hr
      exact ih (h.2 s' hs) hr

theorem allSteps_cons_none {M : Machine σ α} {C : σ → α → Prop} {s : σ} {a : α} {as : List α}
    (h : M.step s a = none) : M.AllSteps C s (a :: as) ↔ C s a := by
  constructor
  · exact fun hC => hC.1
  · exact fun hC => ⟨hC, fun s' hs => by rw [h] at hs; cases hs⟩

theorem allSteps_cons_some {M : Machine σ α} {C : σ → α → Prop} {s t : σ} {a : α} {as : List α}
    (h : M.step s a = some t) : M.AllSteps C s (a :: as) ↔ C s a ∧ M.AllSteps C t as := by
  constructor
  · exact fun hC => ⟨hC.1, hC.2 t h⟩
  · rintro ⟨hC, ht⟩
    refine ⟨hC, fun s' hs => ?_⟩
    rw [h] at hs
    obtain rfl := Option.some.inj hs
    exact ht

/-- A condition that can be checked at a step can be checked along a run. -/
instance decidableAllSteps (C : σ → α → Prop) [∀ s a, Decidable (C s a)] :
    (s : σ) → (as : List α) → Decidable (M.AllSteps C s as)
  | _, [] => isTrue True.intro
  | s, a :: as =>
    match h : M.step s a with
    | none => decidable_of_iff (C s a) (allSteps_cons_none h).symm
    | some t =>
      have := decidableAllSteps C t as
      decidable_of_iff (C s a ∧ M.AllSteps C t as) (allSteps_cons_some h).symm

/-- The unguarded invariant rule. -/
theorem invariant_run {I : σ → Prop}
    (h : ∀ s a s', I s → M.step s a = some s' → I s') {s s' : σ} {as : List α}
    (hI : I s) (hr : M.run s as = some s') : I s' :=
  Preserves.run (C := fun _ _ => True) (fun s a s' hi _ hs => h s a s' hi hs) hI
    (AllSteps.trivial M s as) hr

/-- `P` holds of every state the run passes through, the first included. -/
def Throughout (P : σ → Prop) : σ → List α → Prop
  | s, [] => P s
  | s, a :: as => P s ∧ ∀ s', M.step s a = some s' → Throughout P s' as

theorem Throughout.mono {M : Machine σ α} {P Q : σ → Prop} (h : ∀ s, P s → Q s) {s : σ}
    {as : List α} (hP : M.Throughout P s as) : M.Throughout Q s as := by
  induction as generalizing s with
  | nil => exact h s hP
  | cons a as ih => exact ⟨h s hP.1, fun s' hs => ih (hP.2 s' hs)⟩

/-- So it holds of the last one. -/
theorem Throughout.last {M : Machine σ α} {P : σ → Prop} {s t : σ} {as : List α}
    (hP : M.Throughout P s as) (hr : M.run s as = some t) : P t := by
  induction as generalizing s with
  | nil =>
    obtain rfl := Option.some.inj hr
    exact hP
  | cons a as ih =>
    rw [run_cons] at hr
    cases hs : M.step s a with
    | none => rw [hs] at hr; cases hr
    | some s' =>
      rw [hs] at hr
      exact ih (hP.2 s' hs) hr

theorem Preserves.throughout {M : Machine σ α} {C : σ → α → Prop} {I : σ → Prop}
    (h : M.Preserves C I) {s : σ} {as : List α} (hI : I s) (hC : M.AllSteps C s as) :
    M.Throughout I s as := by
  induction as generalizing s with
  | nil => exact hI
  | cons a as ih => exact ⟨hI, fun s' hs => ih (h s a s' hI hC.1 hs) (hC.2 s' hs)⟩

/-- When the steps that miss the condition break the property, a completed run with
the property throughout meets the condition at every step. -/
theorem Throughout.allSteps {M : Machine σ α} {C : σ → α → Prop} {I P : σ → Prop}
    (h : M.Preserves C I) (hbreak : ∀ s a s', I s → ¬ C s a → M.step s a = some s' → ¬ P s')
    {s t : σ} {as : List α} (hI : I s) (hr : M.run s as = some t) (hT : M.Throughout P s as) :
    M.AllSteps C s as := by
  induction as generalizing s with
  | nil => exact True.intro
  | cons a as ih =>
    rw [run_cons] at hr
    cases hs : M.step s a with
    | none => rw [hs] at hr; cases hr
    | some s' =>
      rw [hs] at hr
      have hC : C s a := by
        refine Classical.byContradiction fun hC => ?_
        have hnext := hT.2 s' hs
        apply hbreak s a s' hI hC hs
        cases as with
        | nil => exact hnext
        | cons b bs => exact hnext.1
      refine ⟨hC, fun s'' hs'' => ?_⟩
      rw [hs] at hs''
      obtain rfl := Option.some.inj hs''
      exact ih (h s a s' hI hC hs) hr (hT.2 s' hs)

/-- Then the property holds throughout exactly when the condition is met, where it
follows from what allowed steps preserve. -/
theorem throughout_iff {M : Machine σ α} {C : σ → α → Prop} {I P : σ → Prop}
    (h : M.Preserves C I) (hP : ∀ s, I s → P s)
    (hbreak : ∀ s a s', I s → ¬ C s a → M.step s a = some s' → ¬ P s') {s t : σ} {as : List α}
    (hI : I s) (hr : M.run s as = some t) : M.Throughout P s as ↔ M.AllSteps C s as := by
  constructor
  · exact fun hT => hT.allSteps h hbreak hI hr
  · exact fun hC => (h.throughout hI hC).mono hP

def Reachable (s₀ s : σ) : Prop := ∃ as, M.run s₀ as = some s

end Machine

end HdlPlayground.Lib

import Mathlib.Data.List.Infix

/-!
# Framed streams

A frame goes out element by element, the last one flagged. `Deframer` puts the frames
together again. What is left of a frame is itself a list of beats, so that a stream cut
anywhere still adds up.
-/
namespace HdlPlayground.Lib

variable {α : Type*}

structure Beat (α : Type*) where
  data : α
  last : Bool

/-- The beats of a frame, or of what is left of it. -/
def frame : List α → List (Beat α)
  | [] => []
  | x :: xs => ⟨x, xs.isEmpty⟩ :: frame xs

structure Deframer (α : Type*) where
  held : List α := []
  frames : List (List α) := []

namespace Deframer

variable {d : Deframer α}

def beat (d : Deframer α) (b : Beat α) : Deframer α :=
  if b.last then ⟨[], d.frames ++ [d.held ++ [b.data]]⟩ else ⟨d.held ++ [b.data], d.frames⟩

def run (d : Deframer α) (bs : List (Beat α)) : Deframer α := bs.foldl beat d

theorem run_append (bs cs : List (Beat α)) : d.run (bs ++ cs) = (d.run bs).run cs :=
  List.foldl_append

theorem run_cons (b : Beat α) (bs : List (Beat α)) : d.run (b :: bs) = (d.beat b).run bs := rfl

/-- What is left of a frame completes it. -/
theorem run_frame {xs : List α} (h : xs ≠ []) :
    d.run (frame xs) = ⟨[], d.frames ++ [d.held ++ xs]⟩ := by
  induction xs generalizing d with
  | nil => exact absurd rfl h
  | cons x xs ih =>
    rw [frame, run_cons]
    cases xs with
    | nil => rfl
    | cons y ys =>
      rw [ih (List.cons_ne_nil y ys)]
      show (⟨[], d.frames ++ [(d.held ++ [x]) ++ y :: ys]⟩ : Deframer α) = _
      rw [List.append_assoc]
      rfl

/-- Frames go through unchanged. -/
theorem run_frames {xss : List (List α)} (h : ∀ xs ∈ xss, xs ≠ []) (hd : d.held = []) :
    d.run (xss.flatMap frame) = ⟨[], d.frames ++ xss⟩ := by
  induction xss generalizing d with
  | nil =>
    rw [List.append_nil, ← hd]
    rfl
  | cons xs xss ih =>
    rw [List.flatMap_cons, run_append, run_frame (h xs List.mem_cons_self),
      ih (fun ys hy => h ys (List.mem_cons_of_mem _ hy)) rfl, hd, List.nil_append,
      List.append_assoc]
    rfl

theorem frames_prefix_beat (b : Beat α) : d.frames <+: (d.beat b).frames := by
  unfold beat
  split
  · exact List.prefix_append _ _
  · exact List.prefix_rfl

theorem frames_prefix_run (bs : List (Beat α)) : d.frames <+: (d.run bs).frames := by
  induction bs generalizing d with
  | nil => exact List.prefix_rfl
  | cons b bs ih => exact (frames_prefix_beat b).trans ih

/-- A stream cut anywhere has delivered some of the frames, in order. -/
theorem frames_prefix {xss : List (List α)} (h : ∀ xs ∈ xss, xs ≠ []) {bs cs : List (Beat α)}
    (hcut : bs ++ cs = xss.flatMap frame) : (Deframer.run {} bs).frames <+: xss := by
  have hall := run_frames (d := {}) h rfl
  rw [← hcut, run_append, List.nil_append] at hall
  have := frames_prefix_run (d := Deframer.run {} bs) cs
  rw [hall] at this
  exact this

end Deframer

end HdlPlayground.Lib

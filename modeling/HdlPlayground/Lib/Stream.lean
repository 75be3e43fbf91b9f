import Mathlib.Data.List.Infix

/-!
# Windows of a growing list

`Carries T k s` says that the list `s` stands in `T` at offset `k`. It is the
meaning of a block of a stream that is only ever extended at its end: the block
keeps its place when the stream grows, and any part of it stands where its own
offset says.
-/
namespace HdlPlayground.Lib

variable {α : Type*} {T T' s t : List α} {k n : Nat}

def Carries (T : List α) (k : Nat) (s : List α) : Prop := s <+: T.drop k

theorem Carries.nil (T : List α) (k : Nat) : Carries T k [] := List.nil_prefix

theorem Carries.mono (h : Carries T k s) (hT : T <+: T') : Carries T' k s := by
  obtain ⟨u, rfl⟩ := hT
  obtain ⟨v, hv⟩ := h
  by_cases hk : k ≤ T.length
  · rw [Carries, List.drop_append_of_le_length hk, ← hv]
    exact ⟨v ++ u, by simp⟩
  · rw [List.drop_eq_nil_of_le (by omega)] at hv
    obtain ⟨rfl, -⟩ := List.append_eq_nil_iff.mp hv
    exact Carries.nil _ _

theorem Carries.add_length_le (h : Carries T k s) (hs : s ≠ []) : k + s.length ≤ T.length := by
  have hl := h.length_le
  have hpos := List.length_pos_iff.mpr hs
  rw [List.length_drop] at hl
  omega

theorem Carries.drop (h : Carries T k s) (n : Nat) : Carries T (k + n) (s.drop n) := by
  have := List.IsPrefix.drop h n
  rwa [List.drop_drop] at this

theorem Carries.of_isPrefix (h : Carries T k s) (ht : t <+: s) : Carries T k t := ht.trans h

theorem Carries.take (h : Carries T k s) (n : Nat) : Carries T k (s.take n) :=
  h.of_isPrefix (List.take_prefix n s)

theorem Carries.append_left (h : Carries T k (s ++ t)) : Carries T k s :=
  h.of_isPrefix (List.prefix_append s t)

theorem Carries.append_right (h : Carries T k (s ++ t)) : Carries T (k + s.length) t := by
  simpa using h.drop s.length

theorem Carries.getElem? (h : Carries T k s) (hn : n < s.length) : T[k + n]? = s[n]? := by
  obtain ⟨u, hu⟩ := h
  rw [← List.getElem?_drop, ← hu, List.getElem?_append_left hn]

/-- What follows the first `k` elements stands at offset `k`. -/
theorem carries_of_eq_drop (h : s ++ t = T.drop k) : Carries T k s := ⟨t, h⟩

end HdlPlayground.Lib

import Mathlib.Init

/-!
# 32-bit modular sequence-number arithmetic

The functions of `core/seqnum.py` on integers: `x & MASK` is `x % MOD`, which is
the same value for a negative `x` as well. The comparisons look at the signed
difference; `seqAt` names the number at a given offset from a base, and the
comparison of two such numbers is the comparison of their offsets as long as
these are less than half the circle apart.
-/
namespace HdlPlayground.Tcp

abbrev MOD : Int := 4294967296
abbrev HALF : Int := 2147483648

/-- Map an unsigned 32-bit difference to a signed value. -/
def s32 (x : Int) : Int :=
  let x := x % MOD
  if HALF ≤ x then x - MOD else x

def add (a n : Int) : Int := (a + n) % MOD

def sub (a b : Int) : Int := (a - b) % MOD

def seqLt (a b : Int) : Bool := s32 (a - b) < 0
def seqLeq (a b : Int) : Bool := s32 (a - b) ≤ 0
def seqGt (a b : Int) : Bool := 0 < s32 (a - b)
def seqGeq (a b : Int) : Bool := 0 ≤ s32 (a - b)

/-- Inclusive window test in modular space. -/
def between (lo x hi : Int) : Bool := seqLeq lo x && seqLeq x hi

/-- The segment-acceptability test (four cases). -/
def acceptable (segSeq : Int) (segLen : Nat) (rcvNxt : Int) (rcvWnd : Nat) : Bool :=
  let winEnd := add rcvNxt rcvWnd
  if segLen = 0 then
    if rcvWnd = 0 then segSeq == rcvNxt
    else seqLeq rcvNxt segSeq && seqLt segSeq winEnd
  else if rcvWnd = 0 then false
  else
    let last := add segSeq (segLen - 1)
    let inWin := fun s => seqLeq rcvNxt s && seqLt s winEnd
    inWin segSeq || inWin last

/-! ## The signed difference

The statements below spell the two constants out, in the form `omega` reads. -/

theorem s32_def (x : Int) :
    s32 x = if 2147483648 ≤ x % 4294967296 then x % 4294967296 - 4294967296 else x % 4294967296 :=
  rfl

theorem add_def (a n : Int) : add a n = (a + n) % 4294967296 := rfl

theorem sub_def (a b : Int) : sub a b = (a - b) % 4294967296 := rfl

theorem s32_eq_of_congr {x y : Int} (h : x % 4294967296 = y % 4294967296)
    (hlo : -2147483648 ≤ y) (hhi : y < 2147483648) : s32 x = y := by
  rw [s32_def]
  split <;> omega

theorem seqLt_iff {a b : Int} :
    seqLt a b = true ↔ 2147483648 ≤ (a - b) % 4294967296 := by
  rw [seqLt, decide_eq_true_eq, s32_def]
  split <;> omega

theorem seqLeq_iff {a b : Int} : seqLeq a b = true ↔
    2147483648 ≤ (a - b) % 4294967296 ∨ (a - b) % 4294967296 = 0 := by
  rw [seqLeq, decide_eq_true_eq, s32_def]
  split <;> omega

theorem seqGt_iff {a b : Int} : seqGt a b = true ↔
    0 < (a - b) % 4294967296 ∧ (a - b) % 4294967296 < 2147483648 := by
  rw [seqGt, decide_eq_true_eq, s32_def]
  split <;> omega

theorem seqGeq_iff {a b : Int} : seqGeq a b = true ↔ (a - b) % 4294967296 < 2147483648 := by
  rw [seqGeq, decide_eq_true_eq, s32_def]
  split <;> omega

theorem seqGt_self (x : Int) : seqGt x x = false := by simp [seqGt, s32, HALF]

theorem seqGt_eq_not_seqLeq (a b : Int) : seqGt a b = !seqLeq a b := by
  rw [Bool.eq_iff_iff]
  simp [seqGt, seqLeq]

/-! ## The receive window -/

/-- The window test is the comparison of unsigned distances, also at the antipodal point. -/
theorem inWindow_iff {s rcvNxt : Int} {rcvWnd : Nat} (h0 : 0 < rcvWnd) (h1 : rcvWnd ≤ 2147483648) :
    (seqLeq rcvNxt s && seqLt s (add rcvNxt rcvWnd)) = true ↔ sub s rcvNxt < rcvWnd := by
  rw [Bool.and_eq_true, seqLeq_iff, seqLt_iff, add_def, sub_def]
  constructor
  · rintro ⟨hle | heq, hlt⟩
    · omega
    · omega
  · intro h
    constructor
    · omega
    · omega

/-- The four cases of the acceptability test, as unsigned distances from RCV.NXT. -/
theorem acceptable_iff_distance (segSeq rcvNxt : Int) (segLen rcvWnd : Nat)
    (hs : 0 ≤ segSeq ∧ segSeq < 4294967296) (hr : 0 ≤ rcvNxt ∧ rcvNxt < 4294967296)
    (hw : rcvWnd ≤ 2147483648) :
    acceptable segSeq segLen rcvNxt rcvWnd = true ↔
      if segLen = 0 then
        if rcvWnd = 0 then sub segSeq rcvNxt = 0 else sub segSeq rcvNxt < rcvWnd
      else
        0 < rcvWnd ∧ (sub segSeq rcvNxt < rcvWnd ∨ sub (segSeq + segLen - 1) rcvNxt < rcvWnd) := by
  rw [acceptable]
  by_cases hl : segLen = 0
  · rw [if_pos hl, if_pos hl]
    by_cases h0 : rcvWnd = 0
    · rw [if_pos h0, if_pos h0, beq_iff_eq, sub_def]
      omega
    · rw [if_neg h0, if_neg h0]
      exact inWindow_iff (Nat.pos_of_ne_zero h0) hw
  · rw [if_neg hl, if_neg hl]
    by_cases h0 : rcvWnd = 0
    · rw [if_pos h0]
      constructor
      · intro h
        cases h
      · rintro ⟨hpos, -⟩
        omega
    · have hpos : 0 < rcvWnd := Nat.pos_of_ne_zero h0
      have hlast : sub (add segSeq (segLen - 1)) rcvNxt = sub (segSeq + segLen - 1) rcvNxt := by
        simp only [sub_def, add_def]
        omega
      rw [if_neg h0]
      dsimp only
      rw [Bool.or_eq_true, inWindow_iff hpos hw, inWindow_iff hpos hw, hlast]
      exact ⟨fun h => ⟨hpos, h⟩, And.right⟩

/-- A byte before the wrap, and the last place of a window of half the circle. -/
theorem acceptable_iff_distance_antipode :
    acceptable 2147483646 1 4294967295 2147483648 = true ↔
      if 1 = 0 then
        if 2147483648 = 0 then sub 2147483646 4294967295 = 0
        else sub 2147483646 4294967295 < (2147483648 : Nat)
      else
        0 < 2147483648 ∧ (sub 2147483646 4294967295 < (2147483648 : Nat) ∨
          sub (2147483646 + (1 : Nat) - 1) 4294967295 < (2147483648 : Nat)) :=
  acceptable_iff_distance 2147483646 4294967295 1 2147483648 (by decide) (by decide) (by decide)

/-! ## Offsets from a base -/

/-- The sequence number `k` places after the base `x`. -/
def seqAt (x : Int) (k : Nat) : Int := (x + k) % 4294967296

theorem seqAt_zero {x : Int} (h0 : 0 ≤ x) (h1 : x < 4294967296) : seqAt x 0 = x := by
  simp only [seqAt]; omega

theorem seqAt_nonneg (x : Int) (k : Nat) : 0 ≤ seqAt x k := by
  simp only [seqAt]; omega

theorem seqAt_lt (x : Int) (k : Nat) : seqAt x k < 4294967296 := by
  simp only [seqAt]; omega

@[simp] theorem add_seqAt (x : Int) (k n : Nat) : add (seqAt x k) n = seqAt x (k + n) := by
  simp only [add_def, seqAt]; omega

theorem sub_seqAt {x : Int} {j k : Nat} (hle : j ≤ k) (hlt : k < j + 4294967296) :
    sub (seqAt x k) (seqAt x j) = (k - j : Nat) := by
  simp only [sub_def, seqAt]; omega

theorem seqLt_seqAt {x : Int} {j k : Nat} (hj : j < k + 2147483648) (hk : k ≤ j + 2147483648) :
    seqLt (seqAt x j) (seqAt x k) = decide (j < k) := by
  rw [Bool.eq_iff_iff, seqLt_iff, decide_eq_true_eq]
  simp only [seqAt]; omega

theorem seqLeq_seqAt {x : Int} {j k : Nat} (hj : j < k + 2147483648) (hk : k ≤ j + 2147483648) :
    seqLeq (seqAt x j) (seqAt x k) = decide (j ≤ k) := by
  rw [Bool.eq_iff_iff, seqLeq_iff, decide_eq_true_eq]
  simp only [seqAt]; omega

/-- A number after offset `a` and not after offset `n` stands between them. -/
theorem offset_of_ack {x ack : Int} {a n : Nat} (h0 : 0 ≤ ack) (h1 : ack < 4294967296)
    (han : a ≤ n) (hgt : seqGt ack (seqAt x a) = true) (hle : seqLeq ack (seqAt x n) = true) :
    ∃ r, ack = seqAt x r ∧ a < r ∧ r ≤ n ∧ r < a + 2147483648 := by
  rw [seqGt_iff] at hgt
  rw [seqLeq_iff] at hle
  simp only [seqAt] at hgt hle ⊢
  refine ⟨a + ((ack - (x + a) % 4294967296) % 4294967296).toNat, ?_, ?_, ?_, ?_⟩
  · omega
  · omega
  · omega
  · omega

/-- The same for the test of SYN-RECEIVED, which compares the other way round. -/
theorem offset_of_first_ack {x ack : Int} {n : Nat} (h0 : 0 ≤ ack) (h1 : ack < 4294967296)
    (hn : 0 < n) (hlt : seqLt (seqAt x 0) ack = true) (hle : seqLeq ack (seqAt x n) = true) :
    ∃ r, ack = seqAt x r ∧ 0 < r ∧ r ≤ n ∧ r ≤ 2147483648 := by
  rw [seqLt_iff] at hlt
  rw [seqLeq_iff] at hle
  simp only [seqAt] at hlt hle ⊢
  refine ⟨((ack - x) % 4294967296).toNat, ?_, ?_, ?_, ?_⟩
  · omega
  · omega
  · omega
  · omega

end HdlPlayground.Tcp

import Mathlib.Algebra.Order.Ring.Int
import Mathlib.Data.Set.Basic
import Mathlib.Order.MinMax
import Mathlib.Tactic.SplitIfs
import Mathlib.Tactic.Tauto

/-!
# Reassembly of a stream from its pieces

Pieces of one stream arrive in any order and may overlap. A buffer holds those that
start past its front; a piece that reaches the front moves it, and the pieces that
this makes ripe follow. Whatever the order, the front ends where the pieces leave
their first gap, and what has come out is the stream up to there.
-/
namespace HdlPlayground.Lib

variable {α : Type*}

/-- The stream between two positions. -/
def slice (f : ℤ → α) (m n : ℤ) : List α := (List.range (n - m).toNat).map fun i : ℕ => f (m + i)

@[simp] theorem length_slice (f : ℤ → α) (m n : ℤ) : (slice f m n).length = (n - m).toNat := by
  simp [slice]

theorem slice_self (f : ℤ → α) (m : ℤ) : slice f m m = [] := by simp [slice]

theorem slice_append (f : ℤ → α) {m n k : ℤ} (hmn : m ≤ n) (hnk : n ≤ k) :
    slice f m n ++ slice f n k = slice f m k := by
  apply List.ext_getElem
  · simp only [List.length_append, length_slice]
    omega
  · intro i h1 h2
    by_cases hi : i < (n - m).toNat
    · rw [List.getElem_append_left (by simpa using hi)]
      simp [slice]
    · rw [List.getElem_append_right (by simpa using hi)]
      simp only [slice, List.getElem_map, List.getElem_range, List.length_map, List.length_range]
      congr 1
      omega

theorem exists_of_forall₂ {α β : Type} {R : α → β → Prop} {xs : List α} {ys : List β}
    (h : List.Forall₂ R xs ys) : ∀ x ∈ xs, ∃ y ∈ ys, R x y := by
  induction h with
  | nil => exact fun x hx => by cases hx
  | cons hxy hrest ih =>
    rename_i x y xs ys
    intro z hz
    rcases List.mem_cons.mp hz with rfl | hz
    · exact ⟨y, List.mem_cons_self, hxy⟩
    · obtain ⟨w, hw, hzw⟩ := ih z hz
      exact ⟨w, List.mem_cons_of_mem _ hw, hzw⟩

/-- Two tests that agree on related entries find related entries, and leave related lists. -/
theorem find_forall₂ {α β : Type} {R : α → β → Prop} {xs : List α} {ys : List β} {t : α → Bool}
    {u : β → Bool} (h : List.Forall₂ R xs ys) (ht : ∀ x y, y ∈ ys → R x y → t x = u y) :
    (xs.find? t = none ∧ ys.find? u = none) ∨
      ∃ x y, xs.find? t = some x ∧ ys.find? u = some y ∧ y ∈ ys ∧ R x y ∧
        List.Forall₂ R (xs.eraseP t) (ys.eraseP u) := by
  induction h with
  | nil => exact Or.inl ⟨rfl, rfl⟩
  | cons hxy hrest ih =>
    rename_i x y xs ys
    have hxu := ht x y List.mem_cons_self hxy
    cases hu : u y with
    | true =>
      rw [hu] at hxu
      refine Or.inr ⟨x, y, List.find?_cons_of_pos hxu, List.find?_cons_of_pos hu,
        List.mem_cons_self, hxy, ?_⟩
      rw [List.eraseP_cons_of_pos hxu, List.eraseP_cons_of_pos hu]
      exact hrest
    | false =>
      rw [hu] at hxu
      have hx' : ¬ t x = true := by simp [hxu]
      have hy' : ¬ u y = true := by simp [hu]
      rw [List.find?_cons_of_neg hx', List.find?_cons_of_neg hy', List.eraseP_cons_of_neg hx',
        List.eraseP_cons_of_neg hy']
      rcases ih fun x y hy =>
        ht x y (List.mem_cons_of_mem _ hy) with h | ⟨x', y', h1, h2, h3, h4, h5⟩
      · exact Or.inl h
      · exact Or.inr ⟨x', y', h1, h2, List.mem_cons_of_mem _ h3, h4, .cons hxy h5⟩

/-- A piece of a stream, from a position on. -/
structure Piece (α : Type*) where
  start : ℤ
  data : List α

namespace Piece

def stop (p : Piece α) : ℤ := p.start + p.data.length

def Covers (p : Piece α) (x : ℤ) : Prop := p.start ≤ x ∧ x < p.stop

/-- The piece is one of the stream `f`. -/
def Agrees (f : ℤ → α) (p : Piece α) : Prop := p.data = slice f p.start p.stop

theorem start_le_stop (p : Piece α) : p.start ≤ p.stop := by
  unfold stop
  omega

/-- So is what is left of it past a position inside. -/
theorem Agrees.drop {f : ℤ → α} {p : Piece α} (h : p.Agrees f) {n : ℤ} (h1 : p.start ≤ n)
    (h2 : n ≤ p.stop) : p.data.drop (n - p.start).toNat = slice f n p.stop := by
  have hs := slice_append f h1 h2
  rw [Agrees] at h
  rw [h, ← hs, List.drop_append_of_le_length (by simp), List.drop_of_length_le (by simp),
    List.nil_append]

end Piece

/-- What has come out, where it ends, and what waits. -/
structure Buffer (α : Type*) where
  next : ℤ
  out : List α
  held : List (Piece α)

namespace Buffer

variable {f : ℤ → α} {S : Set ℤ} {lo hi : ℤ} {b : Buffer α} {p : Piece α}

/-- A piece that starts at the front or before it. -/
def ripe (b : Buffer α) (p : Piece α) : Bool := p.start ≤ b.next

/-- The front moves to the end of a piece that reaches past it. -/
def take (b : Buffer α) (p : Piece α) : Buffer α :=
  if p.stop ≤ b.next then b
  else { b with next := p.stop, out := b.out ++ p.data.drop (b.next - p.start).toNat }

/-- The ripe pieces are taken one after another, each scan from the start. -/
def settle : ℕ → Buffer α → Buffer α
  | 0, b => b
  | fuel + 1, b =>
    match b.held.find? b.ripe with
    | none => b
    | some p => settle fuel ({ b with held := b.held.eraseP b.ripe }.take p)

/-- A piece waits, unless one at the same place is at least as long. -/
def hold (b : Buffer α) (p : Piece α) : Buffer α :=
  if b.held.any fun q => q.start == p.start && p.data.length ≤ q.data.length then b
  else { b with held := b.held ++ [p] }

def offer (b : Buffer α) (p : Piece α) : Buffer α :=
  if p.stop ≤ b.next then b
  else if p.start ≤ b.next then (b.take p).settle b.held.length
  else b.hold p

/-- No piece is ripe. -/
def Settled (b : Buffer α) : Prop := ∀ p ∈ b.held, b.next < p.start

/-- The buffer stands for the positions `S` of the stream from `lo` on. -/
structure Stands (f : ℤ → α) (lo : ℤ) (S : Set ℤ) (b : Buffer α) : Prop where
  front : lo ≤ b.next
  out : b.out = slice f lo b.next
  held : ∀ p ∈ b.held, p.Agrees f
  covered : ∀ x, lo ≤ x → (x ∈ S ↔ x < b.next ∨ ∃ p ∈ b.held, p.Covers x)

/-- The pieces lie within bounds. -/
structure Within (lo hi : ℤ) (b : Buffer α) : Prop where
  front : lo ≤ b.next ∧ b.next ≤ hi
  held : ∀ p ∈ b.held, lo ≤ p.start ∧ p.stop ≤ hi

@[simp] theorem take_held (b : Buffer α) (p : Piece α) : (b.take p).held = b.held := by
  unfold take
  split <;> rfl

theorem take_next (b : Buffer α) (p : Piece α) : (b.take p).next = max b.next p.stop := by
  unfold take
  split_ifs with h
  · exact (max_eq_left h).symm
  · exact (max_eq_right (le_of_lt (not_le.mp h))).symm

theorem length_take (b : Buffer α) (p : Piece α) (h : p.start ≤ b.next) :
    ((b.take p).out.length : ℤ) = b.out.length + ((b.take p).next - b.next) := by
  unfold take Piece.stop
  split_ifs with hs
  · simp
  · simp only [List.length_append, List.length_drop]
    omega

/-- The first ripe piece comes off the queue. -/
theorem find_ripe (h : b.held.find? b.ripe = some p) :
    p.start ≤ b.next ∧ ∃ xs ys, b.held = xs ++ p :: ys ∧ b.held.eraseP b.ripe = xs ++ ys := by
  obtain ⟨hp, xs, ys, heq, hxs⟩ := List.find?_eq_some_iff_append.mp h
  refine ⟨by simpa [ripe] using hp, xs, ys, heq, ?_⟩
  rw [heq, List.eraseP_append_right _ (by simpa using hxs), List.eraseP_cons_of_pos hp]

theorem mem_eraseP (h : b.held.find? b.ripe = some p) (q : Piece α) :
    q ∈ b.held ↔ q = p ∨ q ∈ b.held.eraseP b.ripe := by
  obtain ⟨-, xs, ys, heq, her⟩ := find_ripe h
  rw [her, heq]
  simp only [List.mem_append, List.mem_cons]
  tauto

theorem length_eraseP (h : b.held.find? b.ripe = some p) :
    (b.held.eraseP b.ripe).length + 1 = b.held.length := by
  obtain ⟨-, xs, ys, heq, her⟩ := find_ripe h
  rw [her, heq]
  simp only [List.length_append, List.length_cons]
  omega

/-! ## Taking a piece -/

/-- A piece that reaches the front is taken into account, whether it was held or not. -/
theorem Stands.take (h : Stands f lo S b) (hp : p.Agrees f) (hr : p.start ≤ b.next)
    {q : List (Piece α)} (hq : ∀ x ∈ q, x ∈ b.held) (hb : ∀ x ∈ b.held, x = p ∨ x ∈ q) :
    Stands f lo (S ∪ {x | p.Covers x}) ({ b with held := q }.take p) := by
  have hnext := take_next { b with held := q } p
  have hfront := h.front
  constructor
  · rw [hnext]
    exact le_trans hfront (le_max_left _ _)
  · rw [Buffer.take]
    split_ifs with hs
    · exact h.out
    · have hs' : b.next ≤ p.stop := by
        simp only [not_le] at hs
        exact le_of_lt hs
      show b.out ++ p.data.drop (b.next - p.start).toNat = slice f lo p.stop
      rw [hp.drop hr hs', h.out, slice_append f hfront hs']
  · intro x hx
    rw [take_held] at hx
    exact h.held x (hq x hx)
  · intro x hx
    rw [take_held, hnext]
    have hc := h.covered x hx
    constructor
    · rintro (hS | ⟨h1, h2⟩)
      · rcases hc.mp hS with hlt | ⟨y, hy, hy1, hy2⟩
        · exact Or.inl (lt_of_lt_of_le hlt (le_max_left _ _))
        · rcases hb y hy with rfl | hmem
          · exact Or.inl (lt_of_lt_of_le hy2 (le_max_right _ _))
          · exact Or.inr ⟨y, hmem, hy1, hy2⟩
      · exact Or.inl (lt_of_lt_of_le h2 (le_max_right _ _))
    · rintro (hlt | ⟨y, hy, hy'⟩)
      · by_cases hb' : x < b.next
        · exact Or.inl (hc.mpr (Or.inl hb'))
        · have hge : b.next ≤ x := not_lt.mp hb'
          refine Or.inr ⟨le_trans hr hge, ?_⟩
          exact (lt_max_iff.mp hlt).resolve_left hb'
      · exact Or.inl (hc.mpr (Or.inr ⟨y, hq y hy, hy'⟩))

theorem Stands.settle (h : Stands f lo S b) (fuel : ℕ) : Stands f lo S (b.settle fuel) := by
  induction fuel generalizing b with
  | zero => exact h
  | succ fuel ih =>
    unfold Buffer.settle
    split
    · exact h
    · next p hf =>
      apply ih
      have hmem := mem_eraseP hf
      have hp : p ∈ b.held := (hmem p).mpr (Or.inl rfl)
      have ht := h.take (h.held p hp) (find_ripe hf).1 (fun x hx => (hmem x).mpr (Or.inr hx))
        fun x hx => (hmem x).mp hx
      refine ⟨ht.front, ht.out, ht.held, fun x hx => ?_⟩
      rw [← ht.covered x hx]
      constructor
      · exact Or.inl
      · rintro (hS | hc)
        · exact hS
        · exact (h.covered x hx).mpr (Or.inr ⟨p, hp, hc⟩)

theorem settle_settled (fuel : ℕ) (hl : b.held.length ≤ fuel) : (b.settle fuel).Settled := by
  induction fuel generalizing b with
  | zero =>
    have hnil := List.length_eq_zero_iff.mp (Nat.le_zero.mp hl)
    intro p hp
    rw [Buffer.settle, hnil] at hp
    cases hp
  | succ fuel ih =>
    unfold Buffer.settle
    split
    · next hf =>
      intro p hp
      have := List.find?_eq_none.mp hf p hp
      simpa [ripe] using this
    · next p hf =>
      apply ih
      have := length_eraseP hf
      rw [take_held]
      show (b.held.eraseP b.ripe).length ≤ fuel
      omega

/-- The pieces left are pieces that were held, and the front stays within their bounds. -/
theorem Within.settle (h : Within lo hi b) (fuel : ℕ) : Within lo hi (b.settle fuel) := by
  induction fuel generalizing b with
  | zero => exact h
  | succ fuel ih =>
    unfold Buffer.settle
    split
    · exact h
    · next p hf =>
      apply ih
      have hmem := mem_eraseP hf
      have hp := h.held p ((hmem p).mpr (Or.inl rfl))
      have hfront := h.front
      constructor
      · rw [take_next]
        exact ⟨le_trans hfront.1 (le_max_left _ _), max_le hfront.2 hp.2⟩
      · intro q hq
        rw [take_held] at hq
        exact h.held q ((hmem q).mpr (Or.inr hq))

/-- What comes out is as long as the way of the front. -/
theorem settle_grows (fuel : ℕ) : b.next ≤ (b.settle fuel).next ∧ b.out <+: (b.settle fuel).out ∧
    ((b.settle fuel).out.length : ℤ) = b.out.length + ((b.settle fuel).next - b.next) := by
  induction fuel generalizing b with
  | zero => exact ⟨le_refl _, List.prefix_rfl, by rw [Buffer.settle]; omega⟩
  | succ fuel ih =>
    unfold Buffer.settle
    split
    · exact ⟨le_refl _, List.prefix_rfl, by omega⟩
    · next p hf =>
      obtain ⟨h1, h2, h3⟩ := ih (b := { b with held := b.held.eraseP b.ripe }.take p)
      have hn := take_next { b with held := b.held.eraseP b.ripe } p
      have hl := length_take { b with held := b.held.eraseP b.ripe } p (find_ripe hf).1
      refine ⟨?_, List.IsPrefix.trans ?_ h2, ?_⟩
      · dsimp only at hn
        omega
      · unfold Buffer.take
        split
        · exact List.prefix_rfl
        · exact List.prefix_append _ _
      · dsimp only at hl
        omega

/-! ## Offering a piece -/

theorem Stands.hold (h : Stands f lo S b) (hp : p.Agrees f) :
    Stands f lo (S ∪ {x | p.Covers x}) (b.hold p) := by
  unfold Buffer.hold
  split_ifs with hany
  · obtain ⟨q, hq, hle⟩ := List.any_eq_true.mp hany
    simp only [Bool.and_eq_true, beq_iff_eq, decide_eq_true_eq] at hle
    refine ⟨h.front, h.out, h.held, fun x hx => ?_⟩
    rw [← h.covered x hx]
    constructor
    · rintro (hS | ⟨h1, h2⟩)
      · exact hS
      · refine (h.covered x hx).mpr (Or.inr ⟨q, hq, ?_, ?_⟩)
        · omega
        · unfold Piece.stop at h2 ⊢
          omega
    · exact Or.inl
  · refine ⟨h.front, h.out, ?_, fun x hx => ?_⟩
    · intro q hq
      rcases List.mem_append.mp hq with hq | hq
      · exact h.held q hq
      · rw [List.mem_singleton.mp hq]
        exact hp
    · have hc := h.covered x hx
      simp only [Set.mem_union, Set.mem_ofPred_eq, hc, List.mem_append, List.mem_singleton]
      constructor
      · rintro ((hlt | ⟨q, hq, hqx⟩) | hpx)
        · exact Or.inl hlt
        · exact Or.inr ⟨q, Or.inl hq, hqx⟩
        · exact Or.inr ⟨p, Or.inr rfl, hpx⟩
      · rintro (hlt | ⟨q, hq | rfl, hqx⟩)
        · exact Or.inl (Or.inl hlt)
        · exact Or.inl (Or.inr ⟨q, hq, hqx⟩)
        · exact Or.inr hqx

theorem Stands.offer (h : Stands f lo S b) (hp : p.Agrees f) :
    Stands f lo (S ∪ {x | p.Covers x}) (b.offer p) := by
  unfold Buffer.offer
  split_ifs with hs hr
  · refine ⟨h.front, h.out, h.held, fun x hx => ?_⟩
    rw [← h.covered x hx]
    constructor
    · rintro (hS | ⟨-, h2⟩)
      · exact hS
      · exact (h.covered x hx).mpr (Or.inl (lt_of_lt_of_le h2 hs))
    · exact Or.inl
  · exact (h.take hp hr (fun _ hx => hx) fun _ hx => Or.inr hx).settle _
  · exact h.hold hp

theorem Settled.offer (h : b.Settled) (p : Piece α) : (b.offer p).Settled := by
  unfold Buffer.offer
  split_ifs with hs hr
  · exact h
  · exact settle_settled _ (by rw [take_held])
  · unfold Buffer.hold
    split
    · exact h
    · intro q hq
      rcases List.mem_append.mp hq with hq | hq
      · exact h q hq
      · rw [List.mem_singleton.mp hq]
        exact not_le.mp hr

theorem Within.hold (h : Within lo hi b) (hp : lo ≤ p.start ∧ p.stop ≤ hi) :
    Within lo hi (b.hold p) := by
  unfold Buffer.hold
  split
  · exact h
  · refine ⟨h.front, fun q hq => ?_⟩
    rcases List.mem_append.mp hq with hq | hq
    · exact h.held q hq
    · rw [List.mem_singleton.mp hq]
      exact hp

theorem Within.take (h : Within lo hi b) (hp : p.stop ≤ hi) : Within lo hi (b.take p) := by
  constructor
  · rw [take_next]
    exact ⟨le_trans h.front.1 (le_max_left _ _), max_le h.front.2 hp⟩
  · intro q hq
    rw [take_held] at hq
    exact h.held q hq

theorem Within.offer (h : Within lo hi b) (hp : p.stop ≤ hi) : Within lo hi (b.offer p) := by
  unfold Buffer.offer
  split_ifs with hs hr
  · exact h
  · exact (h.take hp).settle _
  · exact h.hold ⟨le_trans h.front.1 (le_of_lt (not_le.mp hr)), hp⟩

/-- Nothing held begins before the front. -/
def Ahead (b : Buffer α) : Prop := ∀ p ∈ b.held, b.next ≤ p.start

theorem Settled.ahead (h : b.Settled) : b.Ahead := fun p hp => le_of_lt (h p hp)

theorem Ahead.offer (h : b.Ahead) (p : Piece α) : (b.offer p).Ahead := by
  unfold Buffer.offer
  split_ifs with hs hr
  · exact h
  · exact (settle_settled _ (by rw [take_held])).ahead
  · unfold Buffer.hold
    split
    · exact h
    · intro q hq
      rcases List.mem_append.mp hq with hq | hq
      · exact h q hq
      · rw [List.mem_singleton.mp hq]
        exact le_of_lt (not_le.mp hr)

/-- What an offer lets out is as long as the way of the front. -/
theorem length_offer (b : Buffer α) (p : Piece α) :
    ((b.offer p).out.length : ℤ) = b.out.length + ((b.offer p).next - b.next) := by
  unfold Buffer.offer
  split_ifs with hs hr
  · omega
  · have ht := length_take b p hr
    have hg := (settle_grows (b := b.take p) b.held.length).2.2
    omega
  · unfold Buffer.hold
    split <;> simp

theorem next_le_offer (b : Buffer α) (p : Piece α) : b.next ≤ (b.offer p).next := by
  unfold Buffer.offer
  split_ifs
  · exact le_refl _
  · exact le_trans (by rw [take_next]; exact le_max_left _ _) (settle_grows _).1
  · unfold Buffer.hold
    split <;> exact le_refl _

/-! ## The first gap -/

/-- Everything from `lo` on is covered up to `n`, where the first gap is. -/
def Gap (lo : ℤ) (S : Set ℤ) (n : ℤ) : Prop := lo ≤ n ∧ (∀ x, lo ≤ x → x < n → x ∈ S) ∧ n ∉ S

theorem Gap.unique {m n : ℤ} (hm : Gap lo S m) (hn : Gap lo S n) : m = n := by
  rcases lt_trichotomy m n with h | h | h
  · exact absurd (hn.2.1 m hm.1 h) hm.2.2
  · exact h
  · exact absurd (hm.2.1 n hn.1 h) hn.2.2

/-- A settled buffer stands at the first gap. -/
theorem Stands.gap (h : Stands f lo S b) (hs : b.Settled) : Gap lo S b.next := by
  refine ⟨h.front, fun x h1 h2 => (h.covered x h1).mpr (Or.inl h2), fun hS => ?_⟩
  rcases (h.covered _ h.front).mp hS with hlt | ⟨p, hp, hc, -⟩
  · exact lt_irrefl _ hlt
  · exact absurd (hs p hp) (not_lt.mpr hc)

/-- The positions that a list of pieces covers. -/
def coverage (ps : List (Piece α)) : Set ℤ := {x | ∃ p ∈ ps, p.Covers x}

theorem coverage_append (ps : List (Piece α)) (p : Piece α) :
    coverage (ps ++ [p]) = coverage ps ∪ {x | p.Covers x} := by
  ext x
  simp only [coverage, Set.mem_ofPred_eq, Set.mem_union, List.mem_append, List.mem_singleton]
  constructor
  · rintro ⟨q, hq | rfl, hx⟩
    · exact Or.inl ⟨q, hq, hx⟩
    · exact Or.inr hx
  · rintro (⟨q, hq, hx⟩ | hx)
    · exact ⟨q, Or.inl hq, hx⟩
    · exact ⟨p, Or.inr rfl, hx⟩

theorem stands_empty (f : ℤ → α) (lo : ℤ) :
    Stands f lo (coverage ([] : List (Piece α))) ⟨lo, [], []⟩ := by
  refine ⟨le_refl lo, (slice_self f lo).symm, by simp, fun x hx => ?_⟩
  constructor
  · rintro ⟨p, hp, -⟩
    cases hp
  · rintro (hlt | ⟨p, hp, -⟩)
    · exact absurd hlt (not_lt.mpr hx)
    · cases hp

end Buffer

end HdlPlayground.Lib

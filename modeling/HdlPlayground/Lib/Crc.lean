import Mathlib.Algebra.Ring.Nat
import Mathlib.Logic.Function.Iterate

/-!
# Reflected CRC registers

The register is shifted bit by bit, and a byte goes into its low end. A shift is linear
in exclusive or, and a register whose low bits are clear only moves down. Hence clocking in
as many bytes as the register is wide amounts to shifting out their exclusive or with it,
and a register followed by its own complement always reaches the same residue. With the top
bit of the polynomial set a shift loses nothing, and no other bytes lead there.
-/
namespace HdlPlayground.Lib.Crc

variable {w : Nat} (poly : BitVec w)

def bit (c : BitVec w) : BitVec w := if c.getLsbD 0 then (c >>> 1) ^^^ poly else c >>> 1

def bits (n : Nat) (c : BitVec w) : BitVec w := (bit poly)^[n] c

def byte (c : BitVec w) (d : BitVec 8) : BitVec w := bits poly 8 (c ^^^ d.setWidth w)

def bytes (c : BitVec w) (ds : List (BitVec 8)) : BitVec w := ds.foldl (byte poly) c

/-- The low `n` bytes of a word, the lowest first. -/
def littleEndian : Nat → BitVec w → List (BitVec 8)
  | 0, _ => []
  | n + 1, x => x.setWidth 8 :: littleEndian n (x >>> 8)

theorem bits_add (m n : Nat) (c : BitVec w) : bits poly (m + n) c = bits poly m (bits poly n c) :=
  Function.iterate_add_apply _ m n c

/-! ## Linearity -/

theorem bit_xor (a b : BitVec w) : bit poly (a ^^^ b) = bit poly a ^^^ bit poly b := by
  have hswap (x y : BitVec w) : x ^^^ poly ^^^ (y ^^^ poly) = x ^^^ y := by
    rw [BitVec.xor_comm y poly, ← BitVec.xor_assoc, BitVec.xor_assoc x poly poly, BitVec.xor_self,
      BitVec.xor_zero]
  unfold bit
  rw [BitVec.getLsbD_xor, BitVec.ushiftRight_xor_distrib]
  cases a.getLsbD 0 with
  | false =>
    cases b.getLsbD 0 with
    | false => rfl
    | true => exact BitVec.xor_assoc _ _ _
  | true =>
    cases b.getLsbD 0 with
    | false =>
      show _ = a >>> 1 ^^^ poly ^^^ b >>> 1
      rw [BitVec.xor_assoc _ poly, BitVec.xor_comm poly, ← BitVec.xor_assoc]
      rfl
    | true => exact (hswap _ _).symm

theorem bits_xor (n : Nat) (a b : BitVec w) :
    bits poly n (a ^^^ b) = bits poly n a ^^^ bits poly n b := by
  induction n with
  | zero => rfl
  | succ n ih =>
    simp only [bits, Function.iterate_succ_apply'] at ih ⊢
    rw [ih, bit_xor]

/-- Clear low bits are shifted out and change nothing. -/
theorem bits_clear {n : Nat} {z : BitVec w} (h : ∀ i, i < n → z.getLsbD i = false) :
    bits poly n z = z >>> n := by
  induction n generalizing z with
  | zero => exact (BitVec.ushiftRight_zero z).symm
  | succ n ih =>
    have hz : bit poly z = z >>> 1 := by
      rw [bit, h 0 (Nat.succ_pos n)]
      rfl
    have hlow : ∀ i, i < n → (z >>> 1).getLsbD i = false := by
      intro i hi
      rw [BitVec.getLsbD_ushiftRight]
      exact h (1 + i) (by omega)
    have hstep : bits poly (n + 1) z = bits poly n (bit poly z) := Function.iterate_succ_apply _ n z
    rw [hstep, hz, ih hlow, ← BitVec.shiftRight_add, Nat.add_comm]

/-! ## A word at a time -/

/-- A word is its low byte and the rest above it. -/
theorem low_byte (x : BitVec w) : (x.setWidth 8).setWidth w ^^^ ((x >>> 8) <<< 8) = x := by
  refine BitVec.eq_of_getLsbD_eq fun i hi => ?_
  rw [BitVec.getLsbD_xor, BitVec.getLsbD_setWidth, BitVec.getLsbD_setWidth,
    BitVec.getLsbD_shiftLeft, BitVec.getLsbD_ushiftRight]
  by_cases h8 : i < 8
  · simp [h8, hi]
  · simp [h8, hi, show 8 + (i - 8) = i by omega]

theorem byte_word (c x : BitVec w) :
    bits poly 8 (c ^^^ x) = byte poly c (x.setWidth 8) ^^^ (x >>> 8) := by
  have hclear : bits poly 8 ((x >>> 8) <<< 8) = x >>> 8 := by
    rw [bits_clear poly fun i hi => by simp [BitVec.getLsbD_shiftLeft, hi]]
    refine BitVec.eq_of_getLsbD_eq fun i hi => ?_
    rw [BitVec.getLsbD_ushiftRight, BitVec.getLsbD_shiftLeft, BitVec.getLsbD_ushiftRight]
    by_cases hw : 8 + i < w
    · simp [hw]
    · simp [hw, BitVec.getLsbD_of_ge x (8 + i) (by omega)]
  rw [byte, ← hclear, ← bits_xor, BitVec.xor_assoc, low_byte]

/-- The bytes of a word, lowest first, are clocked in as the word at once. -/
theorem bytes_littleEndian (n : Nat) (c x : BitVec w) (h : x.toNat < 2 ^ (8 * n)) :
    bytes poly c (littleEndian n x) = bits poly (8 * n) (c ^^^ x) := by
  induction n generalizing c x with
  | zero =>
    have hx : x = 0#w := BitVec.eq_of_toNat_eq (by simpa using h)
    rw [hx, BitVec.xor_zero]
    rfl
  | succ n ih =>
    have hrest : (x >>> 8).toNat < 2 ^ (8 * n) := by
      rw [BitVec.toNat_ushiftRight, Nat.shiftRight_eq_div_pow]
      apply Nat.div_lt_of_lt_mul
      rw [← Nat.pow_add, Nat.add_comm 8]
      exact h
    calc bytes poly c (littleEndian (n + 1) x)
        = bytes poly (byte poly c (x.setWidth 8)) (littleEndian n (x >>> 8)) := rfl
      _ = bits poly (8 * n) (byte poly c (x.setWidth 8) ^^^ (x >>> 8)) := ih _ _ hrest
      _ = bits poly (8 * n) (bits poly 8 (c ^^^ x)) := by rw [byte_word poly c x]
      _ = bits poly (8 * (n + 1)) (c ^^^ x) := (bits_add poly (8 * n) 8 _).symm

/-- A register followed by its own complement reaches a residue that does not depend on it. -/
theorem residue {n : Nat} (hw : w = 8 * n) (c : BitVec w) :
    bytes poly c (littleEndian n (~~~c)) = bits poly w (BitVec.allOnes w) := by
  have hx : c ^^^ ~~~c = BitVec.allOnes w := by
    refine BitVec.eq_of_getLsbD_eq fun i hi => ?_
    simp [hi]
  rw [bytes_littleEndian poly n c (~~~c) (hw ▸ (~~~c).isLt), hx, ← hw]

/-! ## Injectivity -/

/-- With the top bit of the polynomial set, no register but the clear one shifts to it. -/
theorem bit_eq_zero {poly x : BitVec w} (hp : poly.msb = true) (h : bit poly x = 0#w) :
    x = 0#w := by
  have hw : 0 < w := by
    cases w with
    | zero => simp [BitVec.of_length_zero] at hp
    | succ n => exact Nat.succ_pos n
  rw [bit] at h
  cases hx : x.getLsbD 0 with
  | true =>
    rw [hx, if_pos rfl] at h
    have htop : ((x >>> 1) ^^^ poly).getLsbD (w - 1) = true := by
      rw [BitVec.getLsbD_xor, BitVec.getLsbD_ushiftRight,
        BitVec.getLsbD_of_ge x (1 + (w - 1)) (by omega), Bool.false_xor,
        ← BitVec.msb_eq_getLsbD_last]
      exact hp
    rw [h, BitVec.getLsbD_zero] at htop
    cases htop
  | false =>
    rw [hx, if_neg (by simp)] at h
    refine BitVec.eq_of_getLsbD_eq fun i hi => ?_
    rw [BitVec.getLsbD_zero]
    cases i with
    | zero => exact hx
    | succ i =>
      have hbit := BitVec.getLsbD_ushiftRight x 1 i
      rw [h, BitVec.getLsbD_zero, Nat.add_comm] at hbit
      exact hbit.symm

theorem bit_injective (hp : poly.msb = true) : Function.Injective (bit poly) := by
  intro a b h
  have hz : bit poly (a ^^^ b) = 0#w := by rw [bit_xor, h, BitVec.xor_self]
  exact BitVec.xor_eq_zero_iff.mp (bit_eq_zero hp hz)

theorem bits_injective (hp : poly.msb = true) (n : Nat) : Function.Injective (bits poly n) :=
  (bit_injective poly hp).iterate n

/-- Bytes that fit in a word are the bytes of one. -/
theorem exists_littleEndian (ds : List (BitVec 8)) (h : 8 * ds.length ≤ w) :
    ∃ x : BitVec w, x.toNat < 2 ^ (8 * ds.length) ∧ littleEndian ds.length x = ds := by
  induction ds with
  | nil =>
    refine ⟨0#w, ?_, rfl⟩
    simp
  | cons d ds ih =>
    rw [List.length_cons] at h
    obtain ⟨x, hx, hds⟩ := ih (by omega)
    have hd := d.isLt
    have hpow : 2 ^ (8 * (ds.length + 1)) = 2 ^ (8 * ds.length) * 256 := by
      rw [Nat.mul_add, Nat.pow_add]
    have hle : 2 ^ (8 * (ds.length + 1)) ≤ 2 ^ w := Nat.pow_le_pow_right (by decide) h
    have hval : (BitVec.ofNat w (d.toNat + 256 * x.toNat)).toNat = d.toNat + 256 * x.toNat := by
      rw [BitVec.toNat_ofNat]
      exact Nat.mod_eq_of_lt (by omega)
    refine ⟨BitVec.ofNat w (d.toNat + 256 * x.toNat), ?_, ?_⟩
    · rw [hval, List.length_cons, hpow]
      omega
    · rw [List.length_cons, littleEndian]
      have hlow : (BitVec.ofNat w (d.toNat + 256 * x.toNat)).setWidth 8 = d := by
        apply BitVec.eq_of_toNat_eq
        rw [BitVec.toNat_setWidth, hval]
        omega
      have hrest : BitVec.ofNat w (d.toNat + 256 * x.toNat) >>> 8 = x := by
        apply BitVec.eq_of_toNat_eq
        rw [BitVec.toNat_ushiftRight, hval, Nat.shiftRight_eq_div_pow]
        omega
      rw [hlow, hrest, hds]

/-- Only its own complement brings a register to the residue. -/
theorem residue_iff (hp : poly.msb = true) {n : Nat} (hw : w = 8 * n) (c : BitVec w)
    {ds : List (BitVec 8)} (hl : ds.length = n) :
    bytes poly c ds = bits poly w (BitVec.allOnes w) ↔ ds = littleEndian n (~~~c) := by
  constructor
  · intro h
    obtain ⟨x, hx, hds⟩ := exists_littleEndian (w := w) ds (by omega)
    rw [hl] at hx hds
    rw [← hds, ← residue poly hw c, bytes_littleEndian poly n c x hx,
      bytes_littleEndian poly n c (~~~c) (hw ▸ (~~~c).isLt)] at h
    have hxor := bits_injective poly hp _ h
    rw [← hds, (BitVec.xor_right_inj c).mp hxor]
  · rintro rfl
    exact residue poly hw c

end HdlPlayground.Lib.Crc

import Mathlib.Data.List.Basic
import Mathlib.Data.Nat.Bitwise

/-!
# Numbers as bytes

The little-endian bytes of a number, the number of some bytes, and what it takes
for one to undo the other.
-/

namespace Process

/-- The lowest `k` bytes of `n`, the least significant first. -/
def leBytes : (k n : Nat) → List UInt8
  | 0, _ => []
  | k + 1, n => UInt8.ofNat n :: leBytes k (n / 256)

/-- The number whose bytes are given, the least significant first. -/
def leNat : List UInt8 → Nat
  | [] => 0
  | b :: bs => b.toNat + 256 * leNat bs

@[simp] theorem length_leBytes (k n : Nat) : (leBytes k n).length = k := by
  induction k generalizing n with
  | zero => rfl
  | succ k ih => rw [leBytes, List.length_cons, ih]

theorem leNat_leBytes_mod (k n : Nat) : leNat (leBytes k n) = n % 256 ^ k := by
  induction k generalizing n with
  | zero => rw [Nat.pow_zero, Nat.mod_one, leBytes, leNat]
  | succ k ih =>
      have hmod : n % 256 ^ (k + 1) = n % 256 + 256 * (n / 256 % 256 ^ k) := by
        rw [Nat.pow_succ, Nat.mul_comm (256 ^ k) 256, Nat.mod_mul]
      rw [leBytes, leNat, ih, UInt8.toNat_ofNat', hmod]

/-- A number that fits is read back. -/
theorem leNat_leBytes {k n : Nat} (h : n < 256 ^ k) : leNat (leBytes k n) = n := by
  rw [leNat_leBytes_mod, Nat.mod_eq_of_lt h]

/-- Bytes are written back. -/
theorem leBytes_leNat (bs : List UInt8) : leBytes bs.length (leNat bs) = bs := by
  induction bs with
  | nil => rfl
  | cons b bs ih =>
      have hb : b.toNat < 256 := b.toNat_lt
      have hlow : UInt8.ofNat (b.toNat + 256 * leNat bs) = b := by
        apply UInt8.toNat.inj
        rw [UInt8.toNat_ofNat']
        omega
      have hhigh : (b.toNat + 256 * leNat bs) / 256 = leNat bs := by omega
      rw [List.length_cons, leNat, leBytes, hlow, hhigh, ih]

theorem leNat_append (as bs : List UInt8) :
    leNat (as ++ bs) = leNat as + 256 ^ as.length * leNat bs := by
  induction as with
  | nil => rw [List.nil_append, leNat, List.length_nil, Nat.pow_zero, Nat.zero_add, Nat.one_mul]
  | cons a as ih =>
      rw [List.cons_append, leNat, ih, leNat, List.length_cons, Nat.pow_succ, Nat.mul_add,
        Nat.add_assoc, Nat.mul_comm (256 ^ as.length) 256, Nat.mul_assoc]

/-- A `u16` is read back. -/
theorem leNat_u16 (v : UInt16) : leNat (leBytes 2 v.toNat) = v.toNat := leNat_leBytes v.toNat_lt

/-- A `u32` is read back. -/
theorem leNat_u32 (v : UInt32) : leNat (leBytes 4 v.toNat) = v.toNat := leNat_leBytes v.toNat_lt

/-- A `u64` is read back. -/
theorem leNat_u64 (v : UInt64) : leNat (leBytes 8 v.toNat) = v.toNat := leNat_leBytes v.toNat_lt

/-- Two numbers are equal under a mask if they agree on the bits of the mask. -/
theorem land_eq_land_iff {a b m : Nat} :
    a &&& m = b &&& m ↔ ∀ i, m.testBit i = true → a.testBit i = b.testBit i := by
  constructor
  · intro h i hi
    have := congrArg (Nat.testBit · i) h
    simpa only [Nat.testBit_and, hi, Bool.and_true] using this
  · intro h
    apply Nat.eq_of_testBit_eq
    intro i
    rw [Nat.testBit_and, Nat.testBit_and]
    cases hi : m.testBit i with
    | false => rw [Bool.and_false, Bool.and_false]
    | true => rw [h i hi]

/-- Rounding down to a multiple of eight by a mask of `w` bits. -/
theorem and_not_seven {w n : Nat} (hw : 3 ≤ w) (hn : n < 2 ^ w) :
    n &&& (2 ^ w - 1 - 7) = n / 8 * 8 := by
  apply Nat.eq_of_testBit_eq
  intro i
  have hmask : (2 ^ w - 1 - 7).testBit i = (decide (i < w) && decide (3 ≤ i)) := by
    rw [Nat.sub_sub, Nat.add_comm 1 7, Nat.testBit_two_pow_sub_succ (by
      calc 7 < 2 ^ 3 := by decide
        _ ≤ 2 ^ w := Nat.pow_le_pow_right (by decide) hw)]
    congr 1
    rcases Nat.lt_or_ge i 3 with hi | hi
    · have : i = 0 ∨ i = 1 ∨ i = 2 := by omega
      rcases this with rfl | rfl | rfl <;> rfl
    · rw [Nat.testBit_lt_two_pow (Nat.lt_of_lt_of_le (by decide : 7 < 2 ^ 3)
        (Nat.pow_le_pow_right (by decide) hi))]
      simp [hi]
  rw [Nat.testBit_and, hmask, show (8 : Nat) = 2 ^ 3 from rfl, Nat.testBit_mul_two_pow]
  rcases Nat.lt_or_ge i 3 with hi | hi
  · simp [Nat.not_le_of_lt hi]
  · rw [Nat.testBit_div_two_pow, Nat.sub_add_cancel hi]
    rcases Nat.lt_or_ge i w with hiw | hiw
    · simp [hi, hiw]
    · rw [Nat.testBit_lt_two_pow (Nat.lt_of_lt_of_le hn (Nat.pow_le_pow_right (by decide) hiw))]
      simp

end Process

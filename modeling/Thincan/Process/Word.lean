import Mathlib.Algebra.Group.Nat.Defs
import Mathlib.Data.Nat.Basic
import Mathlib.Tactic.Common

/-!
# Machine words

The 32-bit operations that do not wrap: saturating addition, subtraction
and multiplication, checked addition, and the fallible conversion from an
unbounded count.  Each has one lemma giving its value in `Nat`, which is how the
arithmetic of a proof leaves the word type.  For a counter that does wrap, what counts is how
far apart two of its values are.
-/

namespace UInt32

/-- The largest value. -/
def maxValue : UInt32 := 0xFFFFFFFF

/-- `a - b`, or `0` if that is negative. -/
def saturatingSub (a b : UInt32) : UInt32 := if b ≤ a then a - b else 0

/-- `a + b`, or the largest value if that does not fit. -/
def saturatingAdd (a b : UInt32) : UInt32 :=
  if a.toNat + b.toNat < UInt32.size then a + b else UInt32.maxValue

/-- `a * b`, or the largest value if that does not fit. -/
def saturatingMul (a b : UInt32) : UInt32 :=
  if a.toNat * b.toNat < UInt32.size then a * b else UInt32.maxValue

/-- `a + b` if that fits. -/
def checkedAdd (a b : UInt32) : Option UInt32 :=
  if a.toNat + b.toNat < UInt32.size then some (a + b) else none

/-- The word of value `n` if that fits. -/
def tryFrom (n : Nat) : Option UInt32 :=
  if n < UInt32.size then some (UInt32.ofNat n) else none

theorem toNat_ofNat_lt {n : Nat} (h : n < UInt32.size) : (UInt32.ofNat n).toNat = n := by
  rw [UInt32.toNat_ofNat', Nat.mod_eq_of_lt h]

theorem eq_zero_iff {a : UInt32} : a = 0 ↔ a.toNat = 0 := by
  rw [← UInt32.toNat_inj]
  rfl

@[simp] theorem toNat_saturatingSub (a b : UInt32) :
    (a.saturatingSub b).toNat = a.toNat - b.toNat := by
  unfold saturatingSub
  split
  · next h => exact UInt32.toNat_sub_of_le a b h
  · next h =>
      rw [UInt32.le_iff_toNat_le] at h
      have : (0 : UInt32).toNat = 0 := rfl
      omega

theorem toNat_saturatingAdd {a b : UInt32} (h : a.toNat + b.toNat < UInt32.size) :
    (a.saturatingAdd b).toNat = a.toNat + b.toNat := by
  rw [saturatingAdd, if_pos h, UInt32.toNat_add, Nat.mod_eq_of_lt h]

@[simp] theorem saturatingMul_one (a : UInt32) : a.saturatingMul 1 = a := by
  have h : a.toNat * (1 : UInt32).toNat < UInt32.size := by
    have := a.toNat_lt_size
    simpa using this
  rw [saturatingMul, if_pos h, UInt32.mul_one]

theorem checkedAdd_eq_some {a b : UInt32} (h : a.toNat + b.toNat < UInt32.size) :
    a.checkedAdd b = some (a + b) := if_pos h

theorem toNat_add_lt {a b : UInt32} (h : a.toNat + b.toNat < UInt32.size) :
    (a + b).toNat = a.toNat + b.toNat := by
  rw [UInt32.toNat_add, Nat.mod_eq_of_lt h]

theorem tryFrom_eq_some {n : Nat} (h : n < UInt32.size) :
    tryFrom n = some (UInt32.ofNat n) := if_pos h

end UInt32

namespace UInt64

/-- Numbers that are less than `2^64` apart are told apart by their words. -/
theorem eq_of_ofNat_eq {a b : Nat} (h : UInt64.ofNat a = UInt64.ofNat b) (hle : a ≤ b)
    (hlt : b - a < 2 ^ 64) : a = b := by
  have hmod := congrArg UInt64.toNat h
  rw [UInt64.toNat_ofNat', UInt64.toNat_ofNat'] at hmod
  omega

end UInt64

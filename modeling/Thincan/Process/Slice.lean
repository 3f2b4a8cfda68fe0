import Mathlib.Data.List.Basic
import Mathlib.Data.Vector.Basic
import Thincan.Process.Endian

/-!
# Slices that panic

Indexing, slicing and copying as they are written in Rust, in the option monad: `none` is a
panic, from an index out of range, a range whose ends cross, or a copy between slices of
different lengths.

A buffer is usually filled from the front, one field after the other.  The rule for that is
`overwrite_append`: a buffer that starts with `xs` starts with `xs ++ src` after `src` is
copied to the place right behind.
-/

namespace Process

variable {α : Type} {n : Nat}

/-- `xs[lo..hi]`. -/
def slice (xs : List α) (lo hi : Nat) : Option (List α) :=
  if lo ≤ hi ∧ hi ≤ xs.length then some ((xs.take hi).drop lo) else none

/-- `v[lo..hi].copy_from_slice(src)`. -/
def overwrite (v : Vector α n) (lo hi : Nat) (src : List α) : Option (Vector α n) :=
  if h : (lo ≤ hi ∧ hi ≤ n) ∧ src.length = hi - lo then
    some ⟨(v.toList.take lo ++ (src ++ v.toList.drop hi)).toArray, by simp; omega⟩
  else none

/-- `v[i] = a`. -/
def put (v : Vector α n) (i : Nat) (a : α) : Option (Vector α n) := overwrite v i (i + 1) [a]

/-- `from_le_bytes(bs.try_into().unwrap())` of a word of `k` bytes. -/
def fromLeBytes (k : Nat) (bs : List UInt8) : Option Nat :=
  if bs.length = k then some (leNat bs) else none

/-! ## Reading -/

theorem slice_eq {xs : List α} {lo hi : Nat} (hlo : lo ≤ hi) (hhi : hi ≤ xs.length) :
    slice xs lo hi = some ((xs.drop lo).take (hi - lo)) := by
  rw [slice, if_pos ⟨hlo, hhi⟩, List.drop_take]

/-- The slice in the middle of three pieces. -/
theorem slice_append (pre mid post : List α) {lo hi : Nat} (hlo : pre.length = lo)
    (hhi : lo + mid.length = hi) : slice (pre ++ (mid ++ post)) lo hi = some mid := by
  have hmid : hi - lo = mid.length := by omega
  have hlen : hi ≤ (pre ++ (mid ++ post)).length := by
    simp only [List.length_append]
    omega
  rw [slice_eq (by omega) hlen, List.drop_left' hlo, hmid, List.take_left' rfl]

theorem slice_right (pre mid : List α) {lo hi : Nat} (hlo : pre.length = lo)
    (hhi : lo + mid.length = hi) : slice (pre ++ mid) lo hi = some mid := by
  have h := slice_append pre mid [] hlo hhi
  rwa [List.append_nil] at h

/-- A word in the middle of three pieces. -/
theorem slice_fromLeBytes (pre mid post : List UInt8) {lo hi k : Nat} (hlo : pre.length = lo)
    (hhi : lo + k = hi) (hk : mid.length = k) :
    (slice (pre ++ (mid ++ post)) lo hi).bind (fromLeBytes k) = some (leNat mid) := by
  rw [slice_append pre mid post hlo (by rw [hk, hhi]), Option.bind_some, fromLeBytes, if_pos hk]

/-! ## Writing -/

theorem overwrite_append {v : Vector α n} {xs : List α} (lo hi : Nat) (src : List α)
    (h : xs <+: v.toList) (hlo : xs.length = lo) (hhi : lo + src.length = hi) (hn : hi ≤ n) :
    ∃ v', overwrite v lo hi src = some v' ∧ xs ++ src <+: v'.toList ∧
      v'.toList.drop hi = v.toList.drop hi := by
  have hbounds : (lo ≤ hi ∧ hi ≤ n) ∧ src.length = hi - lo := by omega
  have htake : v.toList.take lo = xs := by
    rw [← hlo]
    exact (List.prefix_iff_eq_take.mp h).symm
  have hlist : v.toList.take lo ++ (src ++ v.toList.drop hi) =
      (xs ++ src) ++ v.toList.drop hi := by
    rw [htake, List.append_assoc]
  have hsrc : (xs ++ src).length = hi := by
    rw [List.length_append]
    omega
  refine ⟨_, dif_pos hbounds, ?_, ?_⟩
  · change xs ++ src <+: v.toList.take lo ++ (src ++ v.toList.drop hi)
    rw [hlist]
    apply List.prefix_append
  · change (v.toList.take lo ++ (src ++ v.toList.drop hi)).drop hi = _
    rw [hlist, List.drop_left' hsrc]

theorem put_append {v : Vector α n} {xs : List α} (i : Nat) (a : α) (h : xs <+: v.toList)
    (hi : xs.length = i) (hn : i < n) :
    ∃ v', put v i a = some v' ∧ xs ++ [a] <+: v'.toList ∧
      v'.toList.drop (i + 1) = v.toList.drop (i + 1) :=
  overwrite_append i (i + 1) [a] h hi rfl hn

/-- Copying to the front of an array. -/
theorem overwrite_zero (v : Vector α n) {src : List α} (h : src.length ≤ n) :
    ∃ v', overwrite v 0 src.length src = some v' ∧ v'.toList = src ++ v.toList.drop src.length := by
  have hnil : [] <+: v.toList := List.nil_prefix
  obtain ⟨v', hv, hpre, hdrop⟩ := overwrite_append 0 _ src hnil rfl (Nat.zero_add _) h
  refine ⟨v', hv, ?_⟩
  calc
    v'.toList = src ++ v'.toList.drop src.length := (List.prefix_iff_eq_append.mp hpre).symm
    _ = src ++ v.toList.drop src.length := by rw [hdrop]

end Process

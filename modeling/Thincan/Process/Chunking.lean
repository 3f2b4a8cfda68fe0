import Mathlib.Algebra.Order.Floor.Div
import Mathlib.Tactic.Linarith

/-!
# Cutting a length into chunks

A length `total` cut into chunks of size `c`: chunk `i` starts at `start i` and
ends at `start (i + 1)`, every chunk but the last has exactly `c` units, and
there are `count` of them.  The boundaries are the only offsets a stop-and-wait
or go-back-N exchange ever names, so arithmetic on offsets with rounding
division becomes arithmetic on chunk indices (`ceilDiv_start`).  A peer that
acknowledges other offsets makes the exchange go back to them; what that costs is
`ceilDiv_rewind`.

A `segment` is a queue of consecutive items: what is in flight of such an
exchange when nothing is lost.
-/

namespace Process.Chunking

variable (total c : Nat)

/-- Where chunk `i` starts; past the last chunk, the end. -/
def start (i : Nat) : Nat := min (i * c) total

/-- The number of chunks. -/
def count : Nat := total ⌈/⌉ c

variable {total c} {i j : Nat}

@[simp] theorem start_zero : start total c 0 = 0 := by simp [start]

theorem start_le_total : start total c i ≤ total := Nat.min_le_right _ _

theorem start_mono (h : i ≤ j) : start total c i ≤ start total c j := by
  have := Nat.mul_le_mul_right c h
  simp only [start]
  omega

/-- The end of a chunk is one chunk size further, or the end of the whole. -/
theorem start_succ : start total c (i + 1) = min (start total c i + c) total := by
  simp only [start, Nat.succ_mul]
  omega

/-- The chunks before the last boundary are exactly those that start inside. -/
theorem start_lt_total_iff (hc : 0 < c) : start total c i < total ↔ i < count total c := by
  have h : count total c ≤ i ↔ total ≤ c * i := ceilDiv_le_iff_le_mul hc
  rw [Nat.mul_comm] at h
  simp only [start]
  omega

theorem start_eq_mul (hc : 0 < c) (h : i < count total c) : start total c i = i * c := by
  have := (start_lt_total_iff hc).mpr h
  simp only [start] at this ⊢
  omega

theorem start_of_count_le (hc : 0 < c) (h : count total c ≤ i) : start total c i = total := by
  have h₁ : ¬start total c i < total := by
    rw [start_lt_total_iff hc]
    omega
  have h₂ : start total c i ≤ total := start_le_total
  omega

@[simp] theorem start_count (hc : 0 < c) : start total c (count total c) = total :=
  start_of_count_le hc le_rfl

theorem start_lt_succ (hc : 0 < c) (h : i < count total c) :
    start total c i < start total c (i + 1) := by
  have h₁ := (start_lt_total_iff hc).mpr h
  rw [start_succ]
  omega

/-- Chunk indices up to the last boundary are determined by their offsets. -/
theorem start_lt_start_iff (hc : 0 < c) (hi : i ≤ count total c) (hj : j ≤ count total c) :
    start total c i < start total c j ↔ i < j := by
  constructor
  · intro h
    by_contra hle
    have hji : start total c j ≤ start total c i := start_mono (by omega)
    omega
  · intro h
    exact lt_of_lt_of_le (start_lt_succ hc (by omega)) (start_mono h)

theorem start_inj (hc : 0 < c) (hi : i ≤ count total c) (hj : j ≤ count total c)
    (h : start total c i = start total c j) : i = j := by
  have h₁ := start_lt_start_iff hc hi hj
  have h₂ := start_lt_start_iff hc hj hi
  omega

/-- **Rounding up a distance between boundaries counts the chunks between
them.** -/
theorem ceilDiv_start (hc : 0 < c) (hij : i ≤ j) (hj : j ≤ count total c) :
    (start total c j - start total c i) ⌈/⌉ c = j - i := by
  apply le_antisymm
  · rw [ceilDiv_le_iff_le_mul hc, Nat.mul_comm, Nat.sub_mul]
    simp only [start]
    omega
  · by_contra hlt
    have hlt' : (start total c j - start total c i) ⌈/⌉ c ≤ j - i - 1 := by omega
    rw [ceilDiv_le_iff_le_mul hc, Nat.mul_comm] at hlt'
    -- the chunk before boundary `j` is not the last one, so it starts at a multiple of `c`
    have h₁ : start total c (j - 1) = (j - 1) * c := start_eq_mul hc (by omega)
    have h₂ : start total c (j - 1) < start total c j :=
      (start_lt_start_iff hc (by omega) hj).mpr (by omega)
    have h₃ : start total c i = i * c := start_eq_mul hc (by omega)
    have h₄ : (j - 1) * c = (j - i - 1) * c + i * c := by
      rw [← Nat.add_mul]
      congr 1
      omega
    omega

/-! ## Distances that are not multiples -/

theorem ceilDiv_add_le (hc : 0 < c) (a b : Nat) : (a + b) ⌈/⌉ c ≤ a ⌈/⌉ c + b ⌈/⌉ c := by
  rw [ceilDiv_le_iff_le_mul hc, Nat.mul_add]
  exact Nat.add_le_add (le_smul_ceilDiv hc) (le_smul_ceilDiv hc)

theorem ceilDiv_le_self (hc : 0 < c) (a : Nat) : a ⌈/⌉ c ≤ a := by
  rw [ceilDiv_le_iff_le_mul hc]
  exact Nat.le_mul_of_pos_left a hc

/-- One chunk less is left after a chunk, whatever offset it starts at. -/
theorem ceilDiv_advance (hc : 0 < c) {n : Nat} (hn : n < total) :
    (total - min (n + c) total) ⌈/⌉ c + 1 ≤ (total - n) ⌈/⌉ c := by
  have hpos : 0 < (total - n) ⌈/⌉ c := by
    by_contra hzero
    have hle : (total - n) ⌈/⌉ c ≤ 0 := Nat.not_lt.mp hzero
    rw [ceilDiv_le_iff_le_mul hc, Nat.mul_zero] at hle
    omega
  have hleft : total - n ≤ c * ((total - n) ⌈/⌉ c) := le_smul_ceilDiv hc
  have hrest : (total - min (n + c) total) ⌈/⌉ c ≤ (total - n) ⌈/⌉ c - 1 := by
    rw [ceilDiv_le_iff_le_mul hc, Nat.mul_sub_one]
    omega
  omega

/-- A window that is not full has room for a whole chunk. -/
theorem add_le_of_ceilDiv_lt (hc : 0 < c) {d w : Nat} (h : d ⌈/⌉ c < w) : d + c ≤ w * c := by
  have hle : d ⌈/⌉ c ≤ w - 1 := Nat.le_sub_one_of_lt h
  rw [ceilDiv_le_iff_le_mul hc, Nat.mul_sub_one, Nat.mul_comm] at hle
  have hone : c ≤ w * c := Nat.le_mul_of_pos_left _ (by omega)
  omega

/-- Going back from `n` to `a` costs the chunks between them. -/
theorem ceilDiv_rewind (hc : 0 < c) {a n : Nat} (han : a ≤ n) (hn : n ≤ total) :
    (total - a) ⌈/⌉ c ≤ (total - n) ⌈/⌉ c + (n - a) ⌈/⌉ c := by
  have h := ceilDiv_add_le hc (total - n) (n - a)
  rwa [show total - n + (n - a) = total - a by omega] at h

/-! ## Consecutive items -/

section Segment

variable {α : Type} (f : Nat → α) {lo hi : Nat}

/-- The items from `lo` up to, and without, `hi`. -/
def segment (lo hi : Nat) : List α := (List.range' lo (hi - lo)).map f

@[simp] theorem length_segment : (segment f lo hi).length = hi - lo := by
  rw [segment, List.length_map, List.length_range']

theorem segment_self : segment f lo lo = [] := by
  rw [segment, Nat.sub_self]
  rfl

/-- An item is taken from the front. -/
theorem segment_cons (h : lo < hi) : segment f lo hi = f lo :: segment f (lo + 1) hi := by
  have hsub : hi - lo = hi - (lo + 1) + 1 := by omega
  rw [segment, hsub, List.range'_succ, List.map_cons]
  rfl

/-- What is at the front of a segment is its first item. -/
theorem segment_eq_cons {f} {a : α} {rest : List α} (h : segment f lo hi = a :: rest) :
    lo < hi ∧ a = f lo ∧ rest = segment f (lo + 1) hi := by
  have hlt : lo < hi := by
    have hlen : (segment f lo hi).length = rest.length + 1 := by rw [h, List.length_cons]
    rw [length_segment] at hlen
    omega
  rw [segment_cons f hlt] at h
  obtain ⟨rfl, rfl⟩ := List.cons.inj h
  exact ⟨hlt, rfl, rfl⟩

/-- An item is added at the end. -/
theorem segment_snoc (h : lo ≤ hi) : segment f lo hi ++ [f hi] = segment f lo (hi + 1) := by
  have hsub : hi + 1 - lo = hi - lo + 1 := by omega
  have hlast : lo + (hi - lo) = hi := by omega
  rw [segment, segment, hsub, List.range'_1_concat, List.map_append, hlast]
  rfl

end Segment

end Process.Chunking

import Mathlib.Data.UInt

/-!
# The separation time of a receiver

`duration_to_isotp_stmin` and `isotp_stmin_to_duration` of
`linux-socketcan-iso-tp/src/linux.rs`.  A receiver that asks for a minimum separation of frames
(`set_rx_flow_control`) tells the sender a byte: `0x00` to `0x7F` are milliseconds, `0xF1` to
`0xF9` are hundreds of microseconds.

What is between the values of the byte is cut off: below a millisecond to no separation at all,
unless the microseconds are a multiple of 100, and else to whole milliseconds.  So the sender may
be told less than was asked for, and less for a longer separation than for a shorter one.
`stmin_kept_iff` says when.
-/

namespace Thincan.IsoTp

/-! ## Durations -/

/-- `Duration` of the standard library. -/
structure Duration where
  secs : UInt64
  nanos : Nat
  nanos_lt : nanos < 1000000000
deriving DecidableEq, Repr

namespace Duration

/-- The derived order: seconds first. -/
instance : LE Duration where
  le d e := d.secs < e.secs ∨ d.secs = e.secs ∧ d.nanos ≤ e.nanos

instance (d e : Duration) : Decidable (d ≤ e) :=
  inferInstanceAs (Decidable (d.secs < e.secs ∨ d.secs = e.secs ∧ d.nanos ≤ e.nanos))

/-- `Duration::from_millis`. -/
def fromMillis (millis : UInt64) : Duration :=
  ⟨millis / 1000, (millis % 1000).toNat * 1000000, by
    simp only [UInt64.toNat_mod, UInt64.reduceToNat]
    omega⟩

/-- `Duration::from_micros`. -/
def fromMicros (micros : UInt64) : Duration :=
  ⟨micros / 1000000, (micros % 1000000).toNat * 1000, by
    simp only [UInt64.toNat_mod, UInt64.reduceToNat]
    omega⟩

/-- `Duration::as_millis`. -/
def asMillis (d : Duration) : Nat := d.secs.toNat * 1000 + d.nanos / 1000000

/-- `Duration::as_micros`. -/
def asMicros (d : Duration) : Nat := d.secs.toNat * 1000000 + d.nanos / 1000

/-- `Duration::as_nanos`. -/
def asNanos (d : Duration) : Nat := d.secs.toNat * 1000000000 + d.nanos

theorem le_iff {d e : Duration} : d ≤ e ↔ d.asNanos ≤ e.asNanos := by
  have hd := d.nanos_lt
  have he := e.nanos_lt
  change d.secs < e.secs ∨ d.secs = e.secs ∧ d.nanos ≤ e.nanos ↔ _
  rw [UInt64.lt_iff_toNat_lt, ← UInt64.toNat_inj, asNanos, asNanos]
  omega

theorem asMillis_eq (d : Duration) : d.asMillis = d.asNanos / 1000000 := by
  rw [asMillis, asNanos]
  omega

theorem asMicros_eq (d : Duration) : d.asMicros = d.asNanos / 1000 := by
  rw [asMicros, asNanos]
  omega

@[simp] theorem asNanos_fromMillis (millis : UInt64) :
    (fromMillis millis).asNanos = millis.toNat * 1000000 := by
  simp only [asNanos, fromMillis, UInt64.toNat_div, UInt64.toNat_mod, UInt64.reduceToNat]
  omega

@[simp] theorem asNanos_fromMicros (micros : UInt64) :
    (fromMicros micros).asNanos = micros.toNat * 1000 := by
  simp only [asNanos, fromMicros, UInt64.toNat_div, UInt64.toNat_mod, UInt64.reduceToNat]
  omega

end Duration

open Duration

/-! ## The code -/

/-- `isotp_stmin_to_duration`. -/
def isotpStminToDuration (raw : UInt8) : Option Duration :=
  if raw ≤ 0x7F then some (fromMillis raw.toUInt64)
  else if 0xF1 ≤ raw ∧ raw ≤ 0xF9 then some (fromMicros ((raw.toUInt64 - 0xF0) * 100))
  else none

/-- `duration_to_isotp_stmin`. -/
def durationToIsotpStmin (duration : Duration) : UInt8 :=
  let micros := duration.asMicros
  if micros = 0 then 0
  else if (100 ≤ micros ∧ micros ≤ 900) ∧ micros % 100 = 0 then 0xF0 + UInt8.ofNat (micros / 100)
  else
    let millis := duration.asMillis
    if millis ≤ 0x7F then UInt8.ofNat millis else 0x7F

/-! ## What the sender is told -/

/-- The microseconds are a multiple of 100 that has a byte. -/
def Hundreds (d : Duration) : Prop := (100 ≤ d.asMicros ∧ d.asMicros ≤ 900) ∧ d.asMicros % 100 = 0

instance (d : Duration) : Decidable (Hundreds d) :=
  inferInstanceAs (Decidable ((100 ≤ d.asMicros ∧ d.asMicros ≤ 900) ∧ d.asMicros % 100 = 0))

/-- The separation that is told, in nanoseconds. -/
def advertised (d : Duration) : Nat :=
  if Hundreds d then d.asMicros * 1000 else min d.asMillis 127 * 1000000

theorem isotpStminToDuration_millis {millis : Nat} (h : millis ≤ 127) :
    ∃ d, isotpStminToDuration (UInt8.ofNat millis) = some d ∧ d.asNanos = millis * 1000000 := by
  have hraw : (UInt8.ofNat millis).toNat = millis := UInt8.toNat_ofNat_of_lt' (Nat.lt_of_le_of_lt h (by decide))
  have hle : UInt8.ofNat millis ≤ 0x7F := by
    rw [UInt8.le_iff_toNat_le, hraw]
    exact h
  refine ⟨_, if_pos hle, ?_⟩
  rw [asNanos_fromMillis, UInt8.toNat_toUInt64, hraw]

theorem isotpStminToDuration_hundreds {n : Nat} (h : 1 ≤ n) (h' : n ≤ 9) :
    ∃ d, isotpStminToDuration (0xF0 + UInt8.ofNat n) = some d ∧ d.asNanos = n * 100 * 1000 := by
  have hn : (UInt8.ofNat n).toNat = n := UInt8.toNat_ofNat_of_lt' (Nat.lt_of_le_of_lt h' (by decide))
  have hraw : (0xF0 + UInt8.ofNat n).toNat = 0xF0 + n := by
    rw [UInt8.toNat_add, hn]
    exact Nat.mod_eq_of_lt (Nat.lt_of_le_of_lt (Nat.add_le_add_left h' 0xF0) (by decide))
  have hmillis : ¬0xF0 + UInt8.ofNat n ≤ 0x7F := by
    rw [UInt8.le_iff_toNat_le, hraw]
    exact Nat.not_le.mpr (Nat.lt_of_lt_of_le (by decide) (Nat.le_add_right 0xF0 n))
  have hmicros : 0xF1 ≤ 0xF0 + UInt8.ofNat n ∧ 0xF0 + UInt8.ofNat n ≤ 0xF9 := by
    rw [UInt8.le_iff_toNat_le, UInt8.le_iff_toNat_le, hraw]
    exact ⟨Nat.add_le_add_left h 0xF0, Nat.add_le_add_left h' 0xF0⟩
  refine ⟨_, (if_neg hmillis).trans (if_pos hmicros), ?_⟩
  have hword : ((0xF0 + UInt8.ofNat n).toUInt64 - 0xF0).toNat = n := by
    have hle : 0xF0 ≤ (0xF0 + UInt8.ofNat n).toUInt64 := by
      rw [UInt64.le_iff_toNat_le, UInt8.toNat_toUInt64, hraw]
      exact Nat.le_add_right 0xF0 n
    rw [UInt64.toNat_sub_of_le _ _ hle, UInt8.toNat_toUInt64, hraw]
    exact Nat.add_sub_cancel_left ..
  rw [asNanos_fromMicros, UInt64.toNat_mul, hword]
  simp only [UInt64.reduceToNat]
  omega

/-- **The byte is always read back, as what is told.** -/
theorem isotpStminToDuration_durationToIsotpStmin (d : Duration) :
    ∃ d', isotpStminToDuration (durationToIsotpStmin d) = some d' ∧ d'.asNanos = advertised d := by
  by_cases hhundreds : Hundreds d
  · obtain ⟨⟨hlow, hhigh⟩, hmod⟩ := hhundreds
    have hbyte : durationToIsotpStmin d = 0xF0 + UInt8.ofNat (d.asMicros / 100) := by
      rw [durationToIsotpStmin, if_neg (by omega), if_pos ⟨⟨hlow, hhigh⟩, hmod⟩]
    obtain ⟨d', hd', hnanos⟩ := isotpStminToDuration_hundreds
      (n := d.asMicros / 100) (by omega) (by omega)
    refine ⟨d', hbyte ▸ hd', ?_⟩
    rw [hnanos, advertised, if_pos ⟨⟨hlow, hhigh⟩, hmod⟩]
    omega
  · have hbyte : durationToIsotpStmin d = UInt8.ofNat (min d.asMillis 127) := by
      rw [durationToIsotpStmin]
      split
      · next hzero =>
          have hmillis : d.asMillis = 0 := by
            rw [asMillis_eq]
            rw [asMicros_eq] at hzero
            omega
          rw [hmillis]
          rfl
      · rw [Hundreds] at hhundreds
        rw [if_neg hhundreds]
        dsimp only
        split
        · next hle => rw [Nat.min_eq_left hle]
        · next hgt =>
            rw [Nat.min_eq_right (Nat.le_of_not_le hgt)]
            rfl
    obtain ⟨d', hd', hnanos⟩ := isotpStminToDuration_millis (Nat.min_le_right d.asMillis 127)
    refine ⟨d', hbyte ▸ hd', ?_⟩
    rw [hnanos, advertised, if_neg hhundreds]

/-- A separation that has a byte: whole milliseconds, or a multiple of 100 µs below. -/
def OnGrid (d : Duration) : Prop :=
  d.asNanos % 1000000 = 0 ∨ d.asNanos < 1000000 ∧ d.asNanos % 100000 = 0

instance (d : Duration) : Decidable (OnGrid d) :=
  inferInstanceAs (Decidable (d.asNanos % 1000000 = 0 ∨ d.asNanos < 1000000 ∧ d.asNanos % 100000 = 0))

/-- The first separation has a byte of its own below a millisecond; the second, below a
millisecond too, has none. -/
def Dips (d e : Duration) : Prop := Hundreds d ∧ e.asMicros < 1000 ∧ e.asMicros % 100 ≠ 0

instance (d e : Duration) : Decidable (Dips d e) :=
  inferInstanceAs (Decidable (Hundreds d ∧ e.asMicros < 1000 ∧ e.asMicros % 100 ≠ 0))

theorem asNanos_le_advertised_iff {d : Duration} (h : d.asNanos ≤ 127000000) :
    d.asNanos ≤ advertised d ↔ OnGrid d := by
  have hmicros := d.asMicros_eq
  have hmillis := d.asMillis_eq
  rw [advertised, OnGrid]
  split
  · next hhundreds =>
      rw [Hundreds] at hhundreds
      omega
  · next hhundreds =>
      rw [Hundreds] at hhundreds
      omega

theorem advertised_le_advertised_iff {d e : Duration} (h : d.asNanos ≤ e.asNanos) :
    advertised d ≤ advertised e ↔ ¬Dips d e := by
  have hd := d.asMicros_eq
  have hd' := d.asMillis_eq
  have he := e.asMicros_eq
  have he' := e.asMillis_eq
  rw [advertised, advertised, Dips]
  by_cases hhd : Hundreds d
  · rw [if_pos hhd, and_iff_right hhd]
    rw [Hundreds] at hhd
    split
    · next hhe =>
        rw [Hundreds] at hhe
        omega
    · next hhe =>
        rw [Hundreds] at hhe
        omega
  · refine iff_of_true ?_ fun hdips ↦ hhd hdips.1
    rw [if_neg hhd]
    split
    · next hhe =>
        rw [Hundreds] at hhe
        omega
    · omega

/-- **When the sender is told what was asked for.**  The byte is always one that means a
separation.  Up to 127 ms, it is not shorter than the one asked for if that has a byte; and a
longer separation is told as a shorter one if it has none below a millisecond, where the other
has. -/
theorem stmin_kept_iff (d e : Duration) :
    (isotpStminToDuration (durationToIsotpStmin d)).isSome ∧
      (d ≤ fromMillis 127 →
        ((∃ d', isotpStminToDuration (durationToIsotpStmin d) = some d' ∧ d ≤ d') ↔ OnGrid d)) ∧
      (d ≤ e →
        ((∃ d' e', isotpStminToDuration (durationToIsotpStmin d) = some d' ∧
          isotpStminToDuration (durationToIsotpStmin e) = some e' ∧ d' ≤ e') ↔ ¬Dips d e)) := by
  obtain ⟨d', hd', hnanos⟩ := isotpStminToDuration_durationToIsotpStmin d
  obtain ⟨e', he', hnanos'⟩ := isotpStminToDuration_durationToIsotpStmin e
  rw [hd', he']
  refine ⟨rfl, ?_, ?_⟩
  · intro hd
    rw [← asNanos_le_advertised_iff (le_iff.mp hd), ← hnanos, ← le_iff]
    constructor
    · rintro ⟨_, ⟨⟩, hle⟩
      exact hle
    · exact fun hle ↦ ⟨d', rfl, hle⟩
  · intro hde
    rw [← advertised_le_advertised_iff (le_iff.mp hde), ← hnanos, ← hnanos', ← le_iff]
    constructor
    · rintro ⟨_, _, ⟨⟩, ⟨⟩, hle⟩
      exact hle
    · exact fun hle ↦ ⟨d', e', rfl, rfl, hle⟩

theorem stmin_kept_samples :
    (∃ d', isotpStminToDuration (durationToIsotpStmin (fromMicros 900)) = some d' ∧
        fromMicros 900 ≤ d') ∧
      ∃ d' e', isotpStminToDuration (durationToIsotpStmin (fromMicros 900)) = some d' ∧
        isotpStminToDuration (durationToIsotpStmin (fromMicros 1500)) = some e' ∧ d' ≤ e' := by
  obtain ⟨-, hkept, hordered⟩ := stmin_kept_iff (fromMicros 900) (fromMicros 1500)
  exact ⟨(hkept (by decide)).mpr (by decide), (hordered (by decide)).mpr (by decide)⟩

/-- 150 µs are told as no separation; and so are 950 µs, where 900 µs are told as such. -/
theorem stmin_short :
    (fromMicros 150 ≤ fromMillis 127 ∧
        isotpStminToDuration (durationToIsotpStmin (fromMicros 150)) = some (fromMillis 0) ∧
        ¬fromMicros 150 ≤ fromMillis 0) ∧
      fromMicros 900 ≤ fromMicros 950 ∧
      isotpStminToDuration (durationToIsotpStmin (fromMicros 900)) = some (fromMicros 900) ∧
      isotpStminToDuration (durationToIsotpStmin (fromMicros 950)) = some (fromMillis 0) ∧
      ¬fromMicros 900 ≤ fromMillis 0 := by
  decide

end Thincan.IsoTp

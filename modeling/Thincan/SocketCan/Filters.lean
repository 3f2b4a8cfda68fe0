import Thincan.Process.Endian
import Thincan.UnixSocket.RoundTrip
import Thincan.UnixSocket.Server

/-!
# Acceptance filters of the SocketCAN adapters

`embedded-can-socketcan/src/linux.rs` and `tokio_impl.rs`: the conversion of a filter to the
pair of words the kernel compares, and `set_filters` of the four adapters.

The kernel has one word for an identifier.  Its top bit (`EFF`) says that the identifier has
29 bits, the next one (`RTR`) that the frame is a remote frame, and a filter is an identifier
and a mask over the whole word.  The bus over Unix sockets has tagged identifiers instead and
knows nothing of remote frames.  Both keep the same frames, because the
converted mask always has the first of these bits and never the second.

The socket is that of the crate `socketcan`; what is used of it is `Socket`.
-/

namespace Thincan.SocketCan

open Process UnixSocket

/-! ## The socket -/

/-- `SocketcanError`, as far as the adapters make one themselves. -/
inductive Error where
  | invalidInput (msg : String)
  | socket
deriving DecidableEq, Repr

/-- `socketcan::CanFilter`. -/
structure CanFilter where
  canId : UInt32
  canMask : UInt32
deriving DecidableEq, Repr

/-- A socket with the state `σ`: its calls for filters, each with its result and the state
after it, and the identifier words it lets through. -/
structure Socket (σ : Type) where
  setFilterAcceptAll : σ → Except Error Unit × σ
  setFilters : List CanFilter → σ → Except Error Unit × σ
  accepts : σ → UInt32 → Bool

/-- The comparison of the kernel. -/
def CanFilter.accepts (f : CanFilter) (canId : UInt32) : Bool :=
  canId &&& f.canMask = f.canId &&& f.canMask

/-- The calls succeed, and the kernel then does what they ask for. -/
structure Socket.Lawful {σ : Type} (S : Socket σ) : Prop where
  acceptAll_ok : ∀ s, (S.setFilterAcceptAll s).1 = .ok ()
  acceptAll_accepts : ∀ s canId, S.accepts (S.setFilterAcceptAll s).2 canId = true
  setFilters_ok : ∀ filters s, (S.setFilters filters s).1 = .ok ()
  setFilters_accepts : ∀ filters s canId,
    S.accepts (S.setFilters filters s).2 canId = filters.any fun f ↦ f.accepts canId

/-! ## The adapters -/

/-- `libc::CAN_EFF_FLAG`. -/
def canEffFlag : UInt32 := 0x80000000

/-- `libc::CAN_RTR_FLAG`. -/
def canRtrFlag : UInt32 := 0x40000000

/-- `to_socketcan_filter`. -/
def toSocketcanFilter (f : IdMaskFilter) : Except Error CanFilter :=
  match f.id, f.mask with
  | .standard id, .standard mask =>
      let canId := id.raw.toUInt32
      let canMask := mask.toUInt32 ||| canEffFlag
      .ok ⟨canId, canMask⟩
  | .extended id, .extended mask =>
      let canId := id.raw ||| canEffFlag
      let canMask := (mask &&& 0x1FFFFFFF) ||| canEffFlag
      .ok ⟨canId, canMask⟩
  | _, _ => .error (.invalidInput "id/mask width mismatch")

/-- The `set_filters` of every adapter, with its conversion `convert`. -/
def setFiltersWith {σ : Type} (convert : IdMaskFilter → Except Error CanFilter) (S : Socket σ) (s : σ)
    (filters : List IdMaskFilter) : Except Error Unit × σ :=
  if filters.isEmpty then S.setFilterAcceptAll s
  else
    match filters.mapM convert with
    | .error e => (.error e, s)
    | .ok out => S.setFilters out s

/-- `FilterConfig::set_filters` of `SocketCan`. -/
def setFilters {σ : Type} : Socket σ → σ → List IdMaskFilter → Except Error Unit × σ :=
  setFiltersWith toSocketcanFilter

namespace Fd

/-- `FilterConfig::set_filters` of `SocketCanFd`. -/
def setFilters {σ : Type} : Socket σ → σ → List IdMaskFilter → Except Error Unit × σ :=
  setFiltersWith toSocketcanFilter

end Fd

namespace Tokio

/-- `to_socketcan_filter` of `tokio_impl.rs`. -/
def toSocketcanFilter (f : IdMaskFilter) : Except Error CanFilter :=
  match f.id, f.mask with
  | .standard id, .standard mask =>
      let canId := id.raw.toUInt32
      let canMask := mask.toUInt32 ||| canEffFlag
      .ok ⟨canId, canMask⟩
  | .extended id, .extended mask =>
      let canId := id.raw ||| canEffFlag
      let canMask := (mask &&& 0x1FFFFFFF) ||| canEffFlag
      .ok ⟨canId, canMask⟩
  | _, _ => .error (.invalidInput "id/mask width mismatch")

/-- `FilterConfig::set_filters` of `TokioSocketCan`. -/
def setFilters {σ : Type} : Socket σ → σ → List IdMaskFilter → Except Error Unit × σ :=
  setFiltersWith toSocketcanFilter

namespace Fd

/-- `FilterConfig::set_filters` of `TokioSocketCanFd`. -/
def setFilters {σ : Type} : Socket σ → σ → List IdMaskFilter → Except Error Unit × σ :=
  setFiltersWith toSocketcanFilter

end Fd

end Tokio

/-- The identifier word of a received frame; `rtr` is its remote flag. -/
def canIdOf (id : Id) (rtr : Bool) : UInt32 :=
  (match id with | .standard id => id.raw.toUInt32 | .extended id => id.raw ||| canEffFlag) |||
    (if rtr then canRtrFlag else 0)

/-! ## Bits -/

theorem testBit_canEffFlag (i : Nat) : canEffFlag.toNat.testBit i = decide (31 = i) :=
  Nat.testBit_two_pow (n := 31) (m := i)

theorem testBit_rtr (rtr : Bool) (i : Nat) :
    (if rtr then canRtrFlag else 0).toNat.testBit i = (rtr && decide (30 = i)) := by
  cases rtr with
  | false => exact Nat.zero_testBit i
  | true => exact Nat.testBit_two_pow (n := 30) (m := i)

theorem testBit_width (i : Nat) : (0x1FFFFFFF : UInt32).toNat.testBit i = decide (i < 29) :=
  Nat.testBit_two_pow_sub_one 29 i

/-- A word has nothing above its own bits. -/
theorem testBit_of_le {n w i : Nat} (hn : n < 2 ^ w) (hi : w ≤ i) : n.testBit i = false :=
  Nat.testBit_lt_two_pow (Nat.lt_of_lt_of_le hn (Nat.pow_le_pow_right (by decide) hi))

theorem lt_of_testBit {n w i : Nat} (hn : n < 2 ^ w) (hi : n.testBit i = true) : i < w := by
  by_contra hle
  rw [testBit_of_le hn (Nat.not_lt.mp hle)] at hi
  exact Bool.false_ne_true hi

theorem testBit_canIdOf_standard (id : StandardId) (rtr : Bool) (i : Nat) :
    (canIdOf (.standard id) rtr).toNat.testBit i =
      (id.raw.toNat.testBit i || (rtr && decide (30 = i))) := by
  rw [canIdOf, UInt32.toNat_or, Nat.testBit_or, testBit_rtr, UInt16.toNat_toUInt32]

theorem testBit_canIdOf_extended (id : ExtendedId) (rtr : Bool) (i : Nat) :
    (canIdOf (.extended id) rtr).toNat.testBit i =
      (id.raw.toNat.testBit i || decide (31 = i) || (rtr && decide (30 = i))) := by
  rw [canIdOf, UInt32.toNat_or, Nat.testBit_or, testBit_rtr, UInt32.toNat_or, Nat.testBit_or,
    testBit_canEffFlag]

theorem CanFilter.accepts_iff (f : CanFilter) (canId : UInt32) :
    f.accepts canId = true ↔ ∀ i, f.canMask.toNat.testBit i = true →
      canId.toNat.testBit i = f.canId.toNat.testBit i := by
  rw [accepts, decide_eq_true_iff, ← UInt32.toNat_inj, UInt32.toNat_and, UInt32.toNat_and,
    land_eq_land_iff]

/-! ## One filter -/

/-- The pair of words for a standard filter. -/
def standardFilter (fid : StandardId) (mask : UInt16) : CanFilter :=
  ⟨fid.raw.toUInt32, mask.toUInt32 ||| canEffFlag⟩

/-- The pair of words for an extended filter. -/
def extendedFilter (fid : ExtendedId) (mask : UInt32) : CanFilter :=
  ⟨fid.raw ||| canEffFlag, (mask &&& 0x1FFFFFFF) ||| canEffFlag⟩

theorem testBit_standardMask (fid : StandardId) (mask : UInt16) (i : Nat) :
    (standardFilter fid mask).canMask.toNat.testBit i =
      (mask.toNat.testBit i || decide (31 = i)) := by
  rw [standardFilter, UInt32.toNat_or, Nat.testBit_or, testBit_canEffFlag, UInt16.toNat_toUInt32]

theorem testBit_extendedMask (fid : ExtendedId) (mask : UInt32) (i : Nat) :
    (extendedFilter fid mask).canMask.toNat.testBit i =
      ((mask.toNat.testBit i && decide (i < 29)) || decide (31 = i)) := by
  rw [extendedFilter, UInt32.toNat_or, Nat.testBit_or, testBit_canEffFlag, UInt32.toNat_and,
    Nat.testBit_and, testBit_width]

theorem standard_accepts_standard (fid id : StandardId) (mask : UInt16) (rtr : Bool) :
    (standardFilter fid mask).accepts (canIdOf (.standard id) rtr) = true ↔
      id.raw &&& mask = fid.raw &&& mask := by
  have hword (w : StandardId) : w.raw.toNat < 2 ^ 16 := w.raw.toNat_lt
  rw [CanFilter.accepts_iff, ← UInt16.toNat_inj, UInt16.toNat_and, UInt16.toNat_and,
    land_eq_land_iff]
  have hid : (standardFilter fid mask).canId.toNat = fid.raw.toNat := UInt16.toNat_toUInt32 _
  constructor
  · intro h i hi
    have hlt : i < 16 := lt_of_testBit mask.toNat_lt hi
    have hbit := h i (by rw [testBit_standardMask, hi, Bool.true_or])
    rw [testBit_canIdOf_standard, hid, decide_eq_false (by omega), Bool.and_false,
      Bool.or_false] at hbit
    exact hbit
  · intro h i hi
    rw [testBit_standardMask, Bool.or_eq_true, decide_eq_true_iff] at hi
    rw [testBit_canIdOf_standard, hid]
    rcases hi with hi | rfl
    · have hlt : i < 16 := lt_of_testBit mask.toNat_lt hi
      rw [h i hi, decide_eq_false (by omega), Bool.and_false, Bool.or_false]
    · rw [testBit_of_le (hword id) (by decide), testBit_of_le (hword fid) (by decide), Bool.false_or]
      exact Bool.and_false rtr

theorem extended_accepts_extended (fid id : ExtendedId) (mask : UInt32) (rtr : Bool) :
    (extendedFilter fid mask).accepts (canIdOf (.extended id) rtr) = true ↔
      id.raw &&& mask = fid.raw &&& mask := by
  have hword (w : ExtendedId) : w.raw.toNat < 2 ^ 29 := Nat.lt_succ_of_le w.le
  have hid (i : Nat) : (extendedFilter fid mask).canId.toNat.testBit i =
      (fid.raw.toNat.testBit i || decide (31 = i)) := by
    rw [extendedFilter, UInt32.toNat_or, Nat.testBit_or, testBit_canEffFlag]
  rw [CanFilter.accepts_iff, ← UInt32.toNat_inj, UInt32.toNat_and, UInt32.toNat_and,
    land_eq_land_iff]
  constructor
  · intro h i hi
    rcases Nat.lt_or_ge i 29 with hlt | hge
    · have hbit := h i (by rw [testBit_extendedMask, hi, decide_eq_true hlt, Bool.true_and, Bool.true_or])
      have h31 : ¬ 31 = i := by omega
      have h30 : ¬ 30 = i := by omega
      rw [testBit_canIdOf_extended, hid, decide_eq_false h31, decide_eq_false h30, Bool.and_false,
        Bool.or_false, Bool.or_false, Bool.or_false] at hbit
      exact hbit
    · -- a mask bit above the identifier compares nothing with nothing
      rw [testBit_of_le (hword id) hge, testBit_of_le (hword fid) hge]
  · intro h i hi
    rw [testBit_extendedMask, Bool.or_eq_true, Bool.and_eq_true, decide_eq_true_iff,
      decide_eq_true_iff] at hi
    rw [testBit_canIdOf_extended, hid]
    rcases hi with ⟨hi, hlt⟩ | rfl
    · have h30 : ¬ 30 = i := by omega
      rw [h i hi, decide_eq_false h30, Bool.and_false, Bool.or_false]
    · rw [decide_eq_true rfl, Bool.or_true, Bool.or_true, Bool.true_or]

/-- A filter of one width and a frame of the other differ in the top bit, which every
converted mask has. -/
theorem not_accepts_of_testBit {f : CanFilter} {canId : UInt32}
    (hmask : f.canMask.toNat.testBit 31 = true)
    (h : canId.toNat.testBit 31 = !f.canId.toNat.testBit 31) : f.accepts canId = false := by
  rw [← Bool.not_eq_true, CanFilter.accepts_iff]
  intro hall
  have hsame := hall 31 hmask
  rw [h] at hsame
  exact Bool.not_ne_self _ hsame

theorem standard_rejects_extended (fid : StandardId) (id : ExtendedId) (mask : UInt16) (rtr : Bool) :
    (standardFilter fid mask).accepts (canIdOf (.extended id) rtr) = false := by
  apply not_accepts_of_testBit
  · rw [testBit_standardMask, decide_eq_true rfl, Bool.or_true]
  · have hid : (standardFilter fid mask).canId.toNat.testBit 31 = false := by
      rw [standardFilter, UInt16.toNat_toUInt32]
      exact testBit_of_le fid.raw.toNat_lt (by decide)
    rw [hid, testBit_canIdOf_extended, decide_eq_true rfl, Bool.or_true, Bool.true_or, Bool.not_false]

theorem extended_rejects_standard (fid : ExtendedId) (id : StandardId) (mask : UInt32) (rtr : Bool) :
    (extendedFilter fid mask).accepts (canIdOf (.standard id) rtr) = false := by
  apply not_accepts_of_testBit
  · rw [testBit_extendedMask, decide_eq_true rfl, Bool.or_true]
  · have hid : (extendedFilter fid mask).canId.toNat.testBit 31 = true := by
      rw [extendedFilter, UInt32.toNat_or, Nat.testBit_or, testBit_canEffFlag, decide_eq_true rfl,
        Bool.or_true]
    have hword : id.raw.toNat.testBit 31 = false := testBit_of_le id.raw.toNat_lt (by decide)
    rw [hid, testBit_canIdOf_standard, hword, Bool.false_or]
    exact Bool.and_false rtr

/-- The conversion fails exactly on filters of mixed widths; what it returns accepts what the
filter matches. -/
theorem toSocketcanFilter_cases (f : IdMaskFilter) :
    (f.sameWidth = false ∧ toSocketcanFilter f = .error (.invalidInput "id/mask width mismatch")) ∨
      (f.sameWidth = true ∧ ∃ c, toSocketcanFilter f = .ok c ∧
        ∀ id rtr, c.accepts (canIdOf id rtr) = filterMatch f id) := by
  obtain ⟨fid, mask⟩ := f
  cases fid with
  | standard fid =>
      cases mask with
      | standard mask =>
          refine .inr ⟨rfl, standardFilter fid mask, rfl, ?_⟩
          intro id rtr
          cases id with
          | standard id =>
              rw [Bool.eq_iff_iff, standard_accepts_standard]
              exact decide_eq_true_iff.symm
          | extended id => exact standard_rejects_extended fid id mask rtr
      | extended mask => exact .inl ⟨rfl, rfl⟩
  | extended fid =>
      cases mask with
      | standard mask => exact .inl ⟨rfl, rfl⟩
      | extended mask =>
          refine .inr ⟨rfl, extendedFilter fid mask, rfl, ?_⟩
          intro id rtr
          cases id with
          | standard id => exact extended_rejects_standard fid id mask rtr
          | extended id =>
              rw [Bool.eq_iff_iff, extended_accepts_extended]
              exact decide_eq_true_iff.symm

/-! ## A list of filters -/

/-- The loop stops at the first filter it cannot convert, and else converts all of them. -/
theorem mapM_toSocketcanFilter (filters : List IdMaskFilter) :
    ((∃ f ∈ filters, f.sameWidth = false) ∧ ∃ e, filters.mapM toSocketcanFilter = .error e) ∨
      ((∀ f ∈ filters, f.sameWidth = true) ∧ ∃ out, filters.mapM toSocketcanFilter = .ok out ∧
        ∀ id rtr, (out.any fun c ↦ c.accepts (canIdOf id rtr)) =
          filters.any fun f ↦ filterMatch f id) := by
  induction filters with
  | nil => exact .inr ⟨nofun, [], rfl, fun _ _ ↦ rfl⟩
  | cons f filters ih =>
      rw [List.mapM_cons]
      rcases toSocketcanFilter_cases f with ⟨hwidth, herr⟩ | ⟨hwidth, c, hc, hmatch⟩
      · rw [herr]
        exact .inl ⟨⟨f, List.mem_cons_self, hwidth⟩, _, rfl⟩
      · rw [hc]
        rcases ih with ⟨⟨g, hg, hgwidth⟩, e, herr⟩ | ⟨hall, out, hout, hany⟩
        · refine .inl ⟨⟨g, List.mem_cons_of_mem _ hg, hgwidth⟩, e, ?_⟩
          rw [herr]
          rfl
        · refine .inr ⟨List.forall_mem_cons.mpr ⟨hwidth, hall⟩, c :: out, ?_, ?_⟩
          · rw [hout]
            rfl
          · intro id rtr
            rw [List.any_cons, List.any_cons, hmatch, hany]

/-- The conversion of `tokio_impl.rs` is that of `linux.rs`. -/
theorem Tokio.toSocketcanFilter_eq : Tokio.toSocketcanFilter = SocketCan.toSocketcanFilter := by
  funext f
  obtain ⟨id, mask⟩ := f
  cases id with
  | standard id => cases mask <;> rfl
  | extended id => cases mask <;> rfl

section Adapters

variable {σ : Type} {S : Socket σ} (hS : S.Lawful) (s : σ) (filters : List IdMaskFilter)

include hS

theorem setFiltersWith_accepts :
    ((∃ f ∈ filters, f.sameWidth = false) ∧
      ∃ e, setFiltersWith toSocketcanFilter S s filters = (.error e, s)) ∨
    ((∀ f ∈ filters, f.sameWidth = true) ∧
      (setFiltersWith toSocketcanFilter S s filters).1 = .ok () ∧
      ∀ frame rtr, S.accepts (setFiltersWith toSocketcanFilter S s filters).2 (canIdOf frame.id rtr) =
        filtersMatch filters frame) := by
  unfold setFiltersWith filtersMatch
  cases hempty : filters.isEmpty with
  | true =>
      rw [List.isEmpty_iff] at hempty
      subst hempty
      exact .inr ⟨nofun, hS.acceptAll_ok s, fun frame rtr ↦ hS.acceptAll_accepts s _⟩
  | false =>
      rcases mapM_toSocketcanFilter filters with ⟨hwidth, e, herr⟩ | ⟨hall, out, hout, hany⟩
      · exact .inl ⟨hwidth, e, by simp only [herr, Bool.false_eq_true, if_false]⟩
      · refine .inr ⟨hall, ?_, ?_⟩
        · simp only [hout, Bool.false_eq_true, if_false]
          exact hS.setFilters_ok out s
        · intro frame rtr
          simp only [hout, Bool.false_eq_true, if_false]
          rw [hS.setFilters_accepts, hany]

/-- **The same filters**: every adapter refuses a list, and leaves the socket as it was, exactly
if some filter has mixed widths; after any other list the kernel lets through the frames that
`filters_match` lets through. -/
theorem setFilters_eq_filtersMatch {set : Socket σ → σ → List IdMaskFilter → Except Error Unit × σ}
    (hset : set ∈ [setFilters, Fd.setFilters, Tokio.setFilters, Tokio.Fd.setFilters]) :
    (∀ f, ((∃ e, toSocketcanFilter f = .error e) ↔ f.sameWidth = false) ∧
      ((∃ e, Tokio.toSocketcanFilter f = .error e) ↔ f.sameWidth = false)) ∧
    ((∃ e, (set S s filters).1 = .error e) ↔ ∃ f ∈ filters, f.sameWidth = false) ∧
    ((∃ e, (set S s filters).1 = .error e) → (set S s filters).2 = s) ∧
    ((set S s filters).1 = .ok () → ∀ frame rtr,
      S.accepts (set S s filters).2 (canIdOf frame.id rtr) = filtersMatch filters frame) := by
  have hconvert (f : IdMaskFilter) :
      (∃ e, toSocketcanFilter f = .error e) ↔ f.sameWidth = false := by
    rcases toSocketcanFilter_cases f with ⟨hwidth, herr⟩ | ⟨hwidth, c, hc, -⟩
    · exact iff_of_true ⟨_, herr⟩ hwidth
    · rw [hc, hwidth]
      exact iff_of_false nofun nofun
  have hone : set = setFiltersWith toSocketcanFilter := by
    simp only [List.mem_cons, List.not_mem_nil, or_false] at hset
    rcases hset with rfl | rfl | rfl | rfl
    · rfl
    · rfl
    · rw [Tokio.setFilters, Tokio.toSocketcanFilter_eq]
    · rw [Tokio.Fd.setFilters, Tokio.toSocketcanFilter_eq]
  subst hone
  refine ⟨fun f ↦ ⟨hconvert f, ?_⟩, ?_⟩
  · rw [Tokio.toSocketcanFilter_eq]
    exact hconvert f
  · rcases setFiltersWith_accepts hS s filters with ⟨hwidth, e, herr⟩ | ⟨hall, hok, hmatch⟩
    · rw [herr]
      exact ⟨iff_of_true ⟨e, rfl⟩ hwidth, fun _ ↦ rfl, nofun⟩
    · rw [hok]
      refine ⟨iff_of_false nofun ?_, nofun, fun _ ↦ hmatch⟩
      rintro ⟨f, hf, hwidth⟩
      rw [hall f hf] at hwidth
      exact Bool.false_ne_true hwidth.symm

end Adapters

/-- A socket whose state is the list of the kernel; `none` is a list that lets everything
through. -/
def listSocket : Socket (Option (List CanFilter)) where
  setFilterAcceptAll _ := (.ok (), none)
  setFilters filters _ := (.ok (), some filters)
  accepts s canId := s.elim true fun filters ↦ filters.any fun f ↦ f.accepts canId

/-- A mask wider than the identifier, and a remote frame. -/
theorem setFilters_eq_filtersMatch_remote :
    ((setFilters listSocket none [⟨.standard ⟨0x123, by decide⟩, .standard 0xFFFF⟩]).1 = .ok ()) ∧
      listSocket.accepts
        (setFilters listSocket none [⟨.standard ⟨0x123, by decide⟩, .standard 0xFFFF⟩]).2
        (canIdOf (.standard ⟨0x123, by decide⟩) true) =
      filtersMatch [⟨.standard ⟨0x123, by decide⟩, .standard 0xFFFF⟩]
        ⟨.standard ⟨0x123, by decide⟩, [], true, by decide⟩ := by
  have hS : listSocket.Lawful :=
    ⟨fun _ ↦ rfl, fun _ _ ↦ rfl, fun _ _ ↦ rfl, fun _ _ _ ↦ rfl⟩
  have hok : (setFilters listSocket none
      [⟨.standard ⟨0x123, by decide⟩, .standard 0xFFFF⟩]).1 = .ok () := rfl
  refine ⟨hok, ?_⟩
  exact (setFilters_eq_filtersMatch hS none [⟨.standard ⟨0x123, by decide⟩, .standard 0xFFFF⟩]
    List.mem_cons_self).2.2.2 hok ⟨.standard ⟨0x123, by decide⟩, [], true, by decide⟩ true

end Thincan.SocketCan

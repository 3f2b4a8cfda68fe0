import Mathlib.Data.List.Nodup
import Thincan.Bus.Mailbox

/-!
# The tables of `maplet!`

A maplet is composed of bundles, each with an array of message ids.  `maplet!` generates code
that copies the arrays, one behind the other, into one array of zeros, and a check that no id
is in it twice; both run at compile time, where a panic is an error of the compiler.  The code
is there twice, for bundles with and without an alias.

The copy leaves the concatenation of the arrays, for every list of bundles, and with the check
`slot_for_id` is the inverse of the table.
-/

namespace Thincan.Bus

/-! ## The code -/

/-- `BundleSpec`. -/
structure BundleSpec where
  messageCount : Nat
  messageIds : Vector UInt16 messageCount

namespace BundleSpec

variable {count : Nat}

/-- `MESSAGE_COUNT` of a maplet. -/
def total (bundles : List BundleSpec) : Nat := bundles.foldl (fun n b ↦ n + b.messageCount) 0

/-- The inner loop of `MESSAGE_IDS`, from index `i` on, with `n` ids left to copy behind
`start`. -/
def copyLoop (b : BundleSpec) (start : Nat) :
    (n i : Nat) → Vector UInt16 count → Option (Vector UInt16 count)
  | 0, _, out => some out
  | n + 1, i, out => do
      let id ← b.messageIds[i]?
      let out ← store out (start + i) id
      copyLoop b start n (i + 1) out

/-- `MESSAGE_IDS`, from the bundles that are left on; `start` is the variable `at`. -/
def fillLoop : (start : Nat) → List BundleSpec → Vector UInt16 count → Option (Vector UInt16 count)
  | _, [], out => some out
  | start, b :: bs, out => do
      let out ← b.copyLoop start b.messageCount 0 out
      fillLoop (start + b.messageCount) bs out

/-- `MESSAGE_IDS`. -/
def tableOf (bundles : List BundleSpec) : Option (Vector UInt16 (total bundles)) :=
  fillLoop 0 bundles (Vector.replicate (total bundles) 0)

/-- The inner loop of the check, from index `j` on, with `n` ids left to compare. -/
def innerLoop (ids : Vector UInt16 count) (i : Nat) : (n j : Nat) → Option Unit
  | 0, _ => some ()
  | n + 1, j => do
      let a ← ids[i]?
      let b ← ids[j]?
      if a = b then none else innerLoop ids i n (j + 1)

/-- The outer loop of the check, from index `i` on, with `n` ids left. -/
def outerLoop (ids : Vector UInt16 count) : (n i : Nat) → Option Unit
  | 0, _ => some ()
  | n + 1, i => do
      innerLoop ids i (count - (i + 1)) (i + 1)
      outerLoop ids n (i + 1)

/-- What `maplet!` makes of a list of bundles, if it compiles. -/
def define (bundles : List BundleSpec) : Option (Maplet (total bundles)) := do
  let ids ← tableOf bundles
  outerLoop ids (total bundles) 0
  return ⟨ids⟩

/-- `maplet!(@define_from_bundles ..)`. -/
def defineFromBundles (bundles : List BundleSpec) : Option (Maplet (total bundles)) := define bundles

/-- `maplet!(@define_from_bundles_aliases ..)`. -/
def defineFromBundlesAliases (bundles : List (String × BundleSpec)) :
    Option (Maplet (total (bundles.map Prod.snd))) :=
  define (bundles.map Prod.snd)

/-! ## The table -/

/-- The ids of all bundles, in order. -/
def declared (bundles : List BundleSpec) : List UInt16 :=
  bundles.flatMap fun b ↦ b.messageIds.toList

theorem declared_cons (b : BundleSpec) (bs : List BundleSpec) :
    declared (b :: bs) = b.messageIds.toList ++ declared bs := rfl

theorem length_declared (bundles : List BundleSpec) : (declared bundles).length = total bundles := by
  have hfold : ∀ (n : Nat) (bs : List BundleSpec),
      bs.foldl (fun n b ↦ n + b.messageCount) n = n + (declared bs).length := by
    intro n bs
    induction bs generalizing n with
    | nil => rfl
    | cons b bs ih =>
        rw [List.foldl_cons, ih, declared_cons, List.length_append, Vector.length_toList, Nat.add_assoc]
  exact ((hfold 0 bundles).trans (Nat.zero_add _)).symm

/-- The ids of a bundle take the place of what was there. -/
theorem copyLoop_eq (b : BundleSpec) {start n i : Nat} {out : Vector UInt16 count}
    {pre suf : List UInt16} (hn : i + n = b.messageCount) (hout : out.toList = pre ++ suf)
    (hpre : pre.length = start + i) (hsuf : n ≤ suf.length) :
    ∃ out', b.copyLoop start n i out = some out' ∧
      out'.toList = pre ++ (b.messageIds.toList.drop i ++ suf.drop n) := by
  induction n generalizing i out pre suf with
  | zero =>
      refine ⟨out, rfl, ?_⟩
      rw [List.drop_of_length_le (by rw [Vector.length_toList]; omega), hout]
      rfl
  | succ n ih =>
      cases suf with
      | nil => cases hsuf
      | cons z suf =>
          have hi : i < b.messageCount := by omega
          have hlt : start + i < count := by
            have hlen := congrArg List.length hout
            rw [Vector.length_toList, List.length_append, List.length_cons] at hlen
            omega
          have hset : (out.set (start + i) b.messageIds[i]).toList = (pre ++ [b.messageIds[i]]) ++ suf := by
            rw [Vector.toList_set, hout, ← hpre, List.set_append_right _ _ (Nat.le_refl _), Nat.sub_self,
              List.append_assoc]
            rfl
          obtain ⟨out', hloop, hlist⟩ := ih (i := i + 1) (by omega) hset
            (by rw [List.length_append, hpre]; rfl) (Nat.le_of_succ_le_succ hsuf)
          refine ⟨out', ?_, ?_⟩
          · rw [copyLoop, Vector.getElem?_eq_getElem hi]
            simp only [Option.bind_eq_bind, Option.bind_some, store_of_lt hlt, hloop]
          · have hdrop : b.messageIds.toList.drop i = b.messageIds[i] :: b.messageIds.toList.drop (i + 1) :=
              List.drop_eq_getElem_cons (by rw [Vector.length_toList]; exact hi)
            rw [hlist, hdrop, List.append_assoc]
            rfl

/-- The bundles take the place of what was there, one behind the other. -/
theorem fillLoop_eq (bundles : List BundleSpec) {start : Nat} {out : Vector UInt16 count}
    {pre suf : List UInt16} (hout : out.toList = pre ++ suf) (hpre : pre.length = start)
    (hsuf : (declared bundles).length ≤ suf.length) :
    ∃ out', fillLoop start bundles out = some out' ∧
      out'.toList = pre ++ (declared bundles ++ suf.drop (declared bundles).length) := by
  induction bundles generalizing start out pre suf with
  | nil => exact ⟨out, rfl, hout⟩
  | cons b bs ih =>
      rw [declared_cons, List.length_append, Vector.length_toList] at hsuf
      obtain ⟨mid, hcopy, hmid⟩ := b.copyLoop_eq (Nat.zero_add _) hout hpre (Nat.le_of_add_right_le hsuf)
      rw [List.drop_zero, ← List.append_assoc] at hmid
      obtain ⟨out', hloop, hlist⟩ := ih hmid
        (by rw [List.length_append, hpre, Vector.length_toList]) (by rw [List.length_drop]; omega)
      refine ⟨out', ?_, ?_⟩
      · rw [fillLoop, hcopy]
        exact hloop
      · rw [hlist, declared_cons, List.length_append, Vector.length_toList, List.drop_drop, List.append_assoc,
          List.append_assoc]

/-- **The table is the concatenation of the arrays.** -/
theorem tableOf_eq (bundles : List BundleSpec) :
    ∃ ids, tableOf bundles = some ids ∧ ids.toList = declared bundles := by
  have hzeros : (Vector.replicate (total bundles) (0 : UInt16)).toList =
      [] ++ List.replicate (total bundles) 0 := Vector.toList_replicate
  obtain ⟨ids, hfill, hlist⟩ := fillLoop_eq bundles hzeros rfl
    (Nat.le_of_eq (by rw [List.length_replicate, length_declared]))
  refine ⟨ids, hfill, ?_⟩
  rw [hlist, length_declared, List.drop_replicate, Nat.sub_self]
  exact List.append_nil _

/-! ## The check -/

theorem innerLoop_iff (ids : Vector UInt16 count) {i n j : Nat} (hi : i < count)
    (hj : j + n = count) :
    innerLoop ids i n j = some () ↔ ∀ k, j ≤ k → k < count → ids[i]? ≠ ids[k]? := by
  induction n generalizing j with
  | zero =>
      refine iff_of_true rfl ?_
      intro k hk hlt
      omega
  | succ n ih =>
      have hlt : j < count := by omega
      rw [innerLoop, Vector.getElem?_eq_getElem hi, Vector.getElem?_eq_getElem hlt]
      simp only [Option.bind_eq_bind, Option.bind_some]
      split
      · next heq =>
          refine iff_of_false nofun fun h ↦ h j (Nat.le_refl j) hlt ?_
          rw [Vector.getElem?_eq_getElem hlt, heq]
      · next hne =>
          rw [ih (by omega), Vector.getElem?_eq_getElem hi]
          constructor
          · intro h k hk hlt
            rcases Nat.lt_or_eq_of_le hk with hjk | rfl
            · exact h k hjk hlt
            · rw [Vector.getElem?_eq_getElem hlt]
              exact fun heq ↦ hne (Option.some.inj heq)
          · exact fun h k hk ↦ h k (Nat.le_of_succ_le hk)

theorem outerLoop_iff {ids : Vector UInt16 count} {n i : Nat} (hi : i + n = count) :
    outerLoop ids n i = some () ↔ ∀ a b, i ≤ a → a < b → b < count → ids[a]? ≠ ids[b]? := by
  induction n generalizing i with
  | zero =>
      refine iff_of_true rfl ?_
      intro a b ha hab hb
      omega
  | succ n ih =>
      have hlt : i < count := by omega
      have hinner := innerLoop_iff ids hlt (Nat.add_sub_cancel' (Nat.succ_le_of_lt hlt))
      rw [outerLoop]
      constructor
      · intro h
        obtain ⟨⟨⟩, hin, hout⟩ := Option.bind_eq_some_iff.mp h
        intro a b ha hab hb
        rcases Nat.lt_or_eq_of_le ha with hia | rfl
        · exact (ih (by omega)).mp hout a b hia hab hb
        · exact hinner.mp hin b hab hb
      · intro h
        rw [hinner.mpr fun k hk hlt ↦ h i k (Nat.le_refl i) hk hlt]
        exact (ih (by omega)).mpr fun a b ha ↦ h a b (Nat.le_of_succ_le ha)

/-- **The check passes if no id is in the table twice.** -/
theorem outerLoop_iff_nodup (ids : Vector UInt16 count) :
    outerLoop ids count 0 = some () ↔ ids.toList.Nodup := by
  rw [outerLoop_iff (Nat.zero_add count), List.nodup_iff_getElem?_ne_getElem?, Vector.length_toList]
  simp only [Vector.getElem?_toList]
  constructor
  · exact fun h a b hab hb ↦ h a b (Nat.zero_le a) hab hb
  · exact fun h a b _ hab hb ↦ h a b hab hb

/-- `maplet!` compiles if the bundles declare no id twice, and leaves their ids. -/
theorem define_eq_some_iff {bundles : List BundleSpec} {M : Maplet (total bundles)} :
    define bundles = some M ↔ (declared bundles).Nodup ∧ M.messageIds.toList = declared bundles := by
  obtain ⟨ids, htable, hlist⟩ := tableOf_eq bundles
  rw [define, htable]
  change (outerLoop ids (total bundles) 0).bind (fun _ ↦ some ⟨ids⟩) = some M ↔ _
  constructor
  · intro h
    obtain ⟨⟨⟩, hcheck, hM⟩ := Option.bind_eq_some_iff.mp h
    obtain rfl := Option.some.inj hM
    exact ⟨hlist ▸ (outerLoop_iff_nodup ids).mp hcheck, hlist⟩
  · rintro ⟨hnodup, hM⟩
    have hids : ids = M.messageIds := Vector.toList_inj.mp (hlist.trans hM.symm)
    rw [(outerLoop_iff_nodup ids).mpr (hlist.symm ▸ hnodup), hids]
    rfl

theorem isSome_define_iff (bundles : List BundleSpec) :
    (define bundles).isSome ↔ (declared bundles).Nodup := by
  rw [Option.isSome_iff_exists]
  constructor
  · rintro ⟨M, hM⟩
    exact (define_eq_some_iff.mp hM).1
  · intro h
    obtain ⟨ids, -, hlist⟩ := tableOf_eq bundles
    exact ⟨⟨ids⟩, define_eq_some_iff.mpr ⟨h, hlist⟩⟩

end BundleSpec

/-! ## Routing -/

namespace Maplet

variable {types : Nat} {M : Maplet types}

theorem slotLoop_eq_none_iff {id : UInt16} {n i : Nat} (h : i + n = types) :
    M.slotLoop id n i h = none ↔ ∀ k (hk : k < types), i ≤ k → M.messageIds[k] ≠ id := by
  induction n generalizing i with
  | zero =>
      refine iff_of_true rfl ?_
      intro k hk hik
      omega
  | succ n ih =>
      rw [slotLoop]
      split
      · next heq => exact iff_of_false nofun fun hne ↦ hne i (by omega) (Nat.le_refl i) heq
      · next hne =>
          rw [ih]
          constructor
          · intro hrest k hk hik
            rcases Nat.lt_or_eq_of_le hik with hlt | rfl
            · exact hrest k hk hlt
            · exact hne
          · exact fun hall k hk hik ↦ hall k hk (Nat.le_of_succ_le hik)

/-- An id without a slot is not in the table. -/
theorem slotForId_eq_none_iff {id : UInt16} : M.slotForId id = none ↔ id ∉ M.messageIds.toList := by
  rw [slotForId, slotLoop_eq_none_iff, List.mem_iff_getElem]
  constructor
  · rintro h ⟨k, hk, heq⟩
    rw [Vector.length_toList] at hk
    exact h k hk (Nat.zero_le k) heq
  · intro h k hk _ heq
    exact h ⟨k, by rw [Vector.length_toList]; exact hk, heq⟩

/-- Without duplicates, `slot_for_id` finds every message at its place. -/
theorem slotForId_messageIds (h : M.messageIds.toList.Nodup) {i : Nat} (hi : i < types) :
    M.slotForId M.messageIds[i] = some ⟨i, hi⟩ := by
  have hlen : M.messageIds.toList.length = types := Vector.length_toList ..
  cases hslot : M.slotForId M.messageIds[i] with
  | none =>
      refine absurd ?_ (slotForId_eq_none_iff.mp hslot)
      exact List.mem_iff_getElem.mpr ⟨i, hlen.symm ▸ hi, rfl⟩
  | some slot =>
      have heq := messageIds_slotForId hslot
      have hinj : (⟨slot, hlen.symm ▸ slot.isLt⟩ : Fin M.messageIds.toList.length) =
          ⟨i, hlen.symm ▸ hi⟩ := List.nodup_iff_injective_get.mp h heq
      exact congrArg some (Fin.ext (Fin.mk.inj hinj))

/-- **The messages of the bundles have their mailboxes.** -/
structure Routes (bundles : List BundleSpec) (M : Maplet types) : Prop where
  messageIds_eq : M.messageIds.toList = bundles.flatMap fun b ↦ b.messageIds.toList
  nodup : M.messageIds.toList.Nodup
  slot_messageIds : ∀ i (hi : i < types), M.slotForId M.messageIds[i] = some ⟨i, hi⟩
  slot_none_iff : ∀ id, M.slotForId id = none ↔ ∀ b ∈ bundles, id ∉ b.messageIds.toList
  /-- `by_type` and `notify` are arrays of `types` elements. -/
  slot_lt : ∀ id slot, M.slotForId id = some slot →
    ∃ hslot : (slot : Nat) < types, M.messageIds[(slot : Nat)] = id
  slot_inj : ∀ id id' slot, M.slotForId id = some slot → M.slotForId id' = some slot → id = id'

theorem routes_of_define {bundles : List BundleSpec} {M : Maplet (BundleSpec.total bundles)}
    (h : BundleSpec.define bundles = some M) : Routes bundles M := by
  obtain ⟨hnodup, hlist⟩ := BundleSpec.define_eq_some_iff.mp h
  have hM : M.messageIds.toList.Nodup := hlist.symm ▸ hnodup
  constructor
  case messageIds_eq => exact hlist
  case nodup => exact hM
  case slot_messageIds => exact fun _ hi ↦ slotForId_messageIds hM hi
  case slot_none_iff =>
    intro id
    rw [slotForId_eq_none_iff, hlist, BundleSpec.declared, List.mem_flatMap]
    simp only [not_exists, not_and]
  case slot_lt => exact fun _ slot hslot ↦ ⟨slot.isLt, messageIds_slotForId hslot⟩
  case slot_inj => exact fun _ _ _ ↦ slotForId_inj

/-- **Both forms of `maplet!` compile if the bundles declare no id twice, and if they compile,
the messages have their mailboxes.** -/
theorem maplet_routes (bundles : List BundleSpec) (aliased : List (String × BundleSpec)) :
    ((BundleSpec.defineFromBundles bundles).isSome ↔ (BundleSpec.declared bundles).Nodup) ∧
      (∀ M, BundleSpec.defineFromBundles bundles = some M → Routes bundles M) ∧
      ((BundleSpec.defineFromBundlesAliases aliased).isSome ↔
        (BundleSpec.declared (aliased.map Prod.snd)).Nodup) ∧
      ∀ M, BundleSpec.defineFromBundlesAliases aliased = some M →
        Routes (aliased.map Prod.snd) M :=
  ⟨BundleSpec.isSome_define_iff bundles, fun _ ↦ routes_of_define,
    BundleSpec.isSome_define_iff _, fun _ ↦ routes_of_define⟩

/-- Three bundles, one of them empty, with the id zero in the last. -/
def samples : List (String × BundleSpec) :=
  [("ping", ⟨2, #v[0x100, 0x101]⟩), ("empty", ⟨0, #v[]⟩), ("zero", ⟨1, #v[0]⟩)]

theorem maplet_routes_samples :
    (∃ M, BundleSpec.defineFromBundles (samples.map Prod.snd) = some M ∧
      Routes (samples.map Prod.snd) M) ∧
      ∃ M, BundleSpec.defineFromBundlesAliases samples = some M ∧ Routes (samples.map Prod.snd) M := by
  obtain ⟨hplain, hroutes, haliased, hroutes'⟩ := maplet_routes (samples.map Prod.snd) samples
  obtain ⟨M, hM⟩ := Option.isSome_iff_exists.mp (hplain.mpr (by decide))
  obtain ⟨M', hM'⟩ := Option.isSome_iff_exists.mp (haliased.mpr (by decide))
  exact ⟨⟨M, hM, hroutes M hM⟩, M', hM', hroutes' M' hM'⟩

end Maplet

end Thincan.Bus

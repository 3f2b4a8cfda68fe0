import Thincan.Bus.Wire
import Thincan.Process.Search

/-!
# Mailboxes

`MailboxSlot` and `TypeMailbox` of `thincan/src/lib.rs`: a bounded queue of
messages of one type in a fixed array, from which a reader takes the first
message of a given source that its predicate accepts.

The operations are written as the code has them, on the array, in the `Option`
monad: `none` is a panic, from an index or a slice out of range.  The predicate
is an `FnMut`, so it is a state and a function that answers and updates it.

`Mailbox` is a `TypeMailbox` with its invariant.  On it the operations never
panic, and they are those of a bounded list of entries: `Mailbox.push_ok` and
`Mailbox.push_error` for `push`, `Mailbox.pop_some` and `Mailbox.pop_none` for
`pop_matching_where`.
-/

namespace Thincan.Bus

open Process

variable {depth maxBody : Nat} {π : Type}

/-- `IngestError`. -/
inductive IngestError where
  | malformedPayload
  | unknownId (id : UInt16)
  | bodyTooLarge (got max : Nat)
  | mailboxFull
deriving DecidableEq, Repr

/-! ## Arrays that panic -/

/-- `v[i] = a`. -/
def store {α : Type} {n : Nat} (v : Vector α n) (i : Nat) (a : α) : Option (Vector α n) :=
  if h : i < n then some (v.set i a h) else none

/-- `v[..bs.len()].copy_from_slice(bs)`. -/
def copyFromSlice {n : Nat} (v : Vector UInt8 n) (bs : Bytes) : Option (Vector UInt8 n) :=
  if h : bs.length ≤ n then
    some ⟨(bs ++ v.toList.drop bs.length).toArray, by simp; omega⟩
  else none

theorem store_of_lt {α : Type} {n i : Nat} {v : Vector α n} {a : α} (h : i < n) :
    store v i a = some (v.set i a h) := dif_pos h

/-! ## The code -/

/-- `MailboxSlot`. -/
structure MailboxSlot (maxBody : Nat) where
  source : UInt8
  len : Nat
  body : Vector UInt8 maxBody
deriving DecidableEq, Repr

namespace MailboxSlot

/-- `MailboxSlot::empty`. -/
def empty : MailboxSlot maxBody := ⟨0, 0, Vector.replicate maxBody 0⟩

/-- `&slot.body[..slot.len]`. -/
def bytes (s : MailboxSlot maxBody) : Option (Bytes) :=
  if s.len ≤ maxBody then some (s.body.toList.take s.len) else none

end MailboxSlot

/-- `TypeMailbox`. -/
structure TypeMailbox (depth maxBody : Nat) where
  slots : Vector (MailboxSlot maxBody) depth
  used : Nat
deriving DecidableEq, Repr

namespace TypeMailbox

/-- `TypeMailbox::new`. -/
def new : TypeMailbox depth maxBody := ⟨Vector.replicate depth .empty, 0⟩

/-- `TypeMailbox::push`. -/
def push (m : TypeMailbox depth maxBody) (source : UInt8) (body : Bytes) :
    Option (Except IngestError Unit × TypeMailbox depth maxBody) :=
  if body.length > maxBody then some (.error (.bodyTooLarge body.length maxBody), m)
  else if m.used = depth then some (.error .mailboxFull, m)
  else do
    let slot ← m.slots[m.used]?
    let copied ← copyFromSlice slot.body body
    let slots ← store m.slots m.used ⟨source, body.length, copied⟩
    return (.ok (), ⟨slots, m.used + 1⟩)

variable (ask : π → Bytes → Bool × π)

/-- The search of `pop_matching_where`, from index `i` on, with `n` slots left to
look at: the index found and the predicate afterwards. -/
def findLoop (m : TypeMailbox depth maxBody) (source : UInt8) :
    (n i : Nat) → π → Option (Option Nat × π)
  | 0, _, p => some (none, p)
  | n + 1, i, p => do
      let slot ← m.slots[i]?
      if slot.source = source then
        let body ← slot.bytes
        if (ask p body).1 then return (some i, (ask p body).2)
        else findLoop m source n (i + 1) (ask p body).2
      else findLoop m source n (i + 1) p

/-- The shift of `pop_matching_where`, from index `j` on, with `n` slots left to
move. -/
def shiftLoop : (n j : Nat) → Vector (MailboxSlot maxBody) depth →
    Option (Vector (MailboxSlot maxBody) depth)
  | 0, _, slots => some slots
  | n + 1, j, slots => do
      let slot ← slots[j + 1]?
      let slots ← store slots j slot
      shiftLoop n (j + 1) slots

/-- `TypeMailbox::pop_matching_where`: the slot taken, the predicate and the
mailbox afterwards. -/
def popMatchingWhere (m : TypeMailbox depth maxBody) (source : UInt8) (p : π) :
    Option (Option (MailboxSlot maxBody) × π × TypeMailbox depth maxBody) := do
  let (found, p) ← m.findLoop ask source m.used 0 p
  match found with
  | none => return (none, p, m)
  | some idx =>
      let out ← m.slots[idx]?
      let slots ← shiftLoop (m.used - 1 - idx) idx m.slots
      let slots ← store slots (m.used - 1) .empty
      return (some out, p, ⟨slots, m.used - 1⟩)

end TypeMailbox

/-! ## The invariant -/

/-- The source and the body of a message. -/
structure Entry where
  source : UInt8
  body : Bytes
deriving DecidableEq, Repr

/-- The message in a slot. -/
def MailboxSlot.entry (s : MailboxSlot maxBody) : Entry := ⟨s.source, s.body.toList.take s.len⟩

namespace TypeMailbox

/-- The messages of a mailbox, the oldest first. -/
def entries (m : TypeMailbox depth maxBody) : List Entry :=
  (m.slots.toList.take m.used).map MailboxSlot.entry

/-- The invariant: the counter and the lengths are in range. -/
structure Wf (m : TypeMailbox depth maxBody) : Prop where
  used_le : m.used ≤ depth
  len_le : ∀ (i : Nat) (s : MailboxSlot maxBody), m.slots[i]? = some s → s.len ≤ maxBody

variable {m : TypeMailbox depth maxBody} {source : UInt8} {body : Bytes}

theorem Wf.new : (new : TypeMailbox depth maxBody).Wf := by
  refine ⟨Nat.zero_le _, ?_⟩
  intro i s hs
  rw [TypeMailbox.new, Vector.getElem?_replicate] at hs
  split at hs
  · rw [← Option.some.inj hs]
    exact Nat.zero_le _
  · cases hs

@[simp] theorem entries_new : (new : TypeMailbox depth maxBody).entries = [] := rfl

theorem Wf.length_entries (h : m.Wf) : m.entries.length = m.used := by
  rw [entries, List.length_map, List.length_take, Vector.length_toList]
  exact Nat.min_eq_left h.used_le

theorem getElem?_entries (i : Nat) :
    m.entries[i]? = if i < m.used then m.slots[i]?.map MailboxSlot.entry else none := by
  rw [entries, List.getElem?_map, List.getElem?_take, Vector.getElem?_toList]
  split <;> rfl

/-- A counted slot exists and holds a message. -/
theorem Wf.slot (h : m.Wf) {i : Nat} (hi : i < m.used) :
    ∃ s, m.slots[i]? = some s ∧ m.entries[i]? = some s.entry := by
  have hlt : i < depth := Nat.lt_of_lt_of_le hi h.used_le
  refine ⟨m.slots[i], Vector.getElem?_eq_getElem hlt, ?_⟩
  rw [getElem?_entries, if_pos hi, Vector.getElem?_eq_getElem hlt]
  rfl

theorem Wf.bytes_eq (h : m.Wf) {i : Nat} {s : MailboxSlot maxBody} (hs : m.slots[i]? = some s) :
    s.bytes = some s.entry.body := if_pos (h.len_le i s hs)

/-! ## `push` -/

/-- A message that fits is appended. -/
theorem Wf.push_ok (h : m.Wf) (source : UInt8) (hbody : body.length ≤ maxBody)
    (hused : m.used < depth) :
    ∃ m', m.push source body = some (.ok (), m') ∧ m'.Wf ∧
      m'.entries = m.entries ++ [⟨source, body⟩] := by
  obtain ⟨copied, hcopied, htake⟩ : ∃ copied, copyFromSlice m.slots[m.used].body body = some copied ∧
      copied.toList.take body.length = body := by
    refine ⟨_, dif_pos hbody, ?_⟩
    simp
  have hpush : m.push source body =
      some (.ok (), ⟨m.slots.set m.used ⟨source, body.length, copied⟩ hused, m.used + 1⟩) := by
    rw [push, if_neg (Nat.not_lt_of_le hbody), if_neg (Nat.ne_of_lt hused),
      Vector.getElem?_eq_getElem hused]
    simp only [Option.bind_eq_bind, Option.bind_some, hcopied, store_of_lt hused]
    rfl
  refine ⟨_, hpush, ⟨hused, fun i s hs ↦ ?_⟩, List.ext_getElem? fun i ↦ ?_⟩
  · simp only [Vector.getElem?_set] at hs
    split at hs
    · rw [← Option.some.inj hs]
      exact hbody
    · exact h.len_le i s hs
  · rw [getElem?_entries, List.getElem?_append, h.length_entries, getElem?_entries]
    simp only [Vector.getElem?_set]
    rcases Nat.lt_trichotomy i m.used with hlt | rfl | hgt
    · rw [if_pos (Nat.lt_succ_of_lt hlt), if_pos hlt, if_neg (Nat.ne_of_gt hlt), if_pos hlt]
    · rw [if_pos (Nat.lt_succ_self _), if_neg (Nat.lt_irrefl _), if_pos rfl, Nat.sub_self]
      simp only [Option.map_some, MailboxSlot.entry, htake, List.getElem?_cons_zero]
    · have hout : [(⟨source, body⟩ : Entry)].length ≤ i - m.used := Nat.sub_pos_of_lt hgt
      rw [if_neg (by omega), if_neg (Nat.lt_asymm hgt), List.getElem?_eq_none hout]

/-- A message that does not fit changes nothing. -/
theorem push_tooLarge (hbody : maxBody < body.length) :
    m.push source body = some (.error (.bodyTooLarge body.length maxBody), m) := if_pos hbody

theorem push_full (hbody : body.length ≤ maxBody) (hused : m.used = depth) :
    m.push source body = some (.error .mailboxFull, m) := by
  rw [push, if_neg (Nat.not_lt_of_le hbody), if_pos hused]

/-- `push` does not panic and keeps the invariant. -/
theorem Wf.push (h : m.Wf) (source : UInt8) (body : Bytes) :
    ∃ r m', m.push source body = some (r, m') ∧ m'.Wf := by
  by_cases hbody : maxBody < body.length
  · exact ⟨_, m, push_tooLarge hbody, h⟩
  · rw [Nat.not_lt] at hbody
    rcases Nat.lt_or_eq_of_le h.used_le with hlt | heq
    · obtain ⟨m', hpush, hm', -⟩ := h.push_ok source hbody hlt
      exact ⟨_, m', hpush, hm'⟩
    · exact ⟨_, m, push_full hbody heq, h⟩

/-! ## `pop_matching_where` -/

/-- The predicate of the search: messages of other sources are passed over. -/
def askFrom (ask : π → Bytes → Bool × π) (source : UInt8) (p : π) (e : Entry) : Bool × π :=
  if e.source = source then ask p e.body else (false, p)

variable {ask : π → Bytes → Bool × π} {p : π}

/-- The search loop is a search of the messages it has not looked at yet. -/
theorem Wf.findLoop_eq (h : m.Wf) {n i : Nat} (hn : i + n = m.used) :
    m.findLoop ask source n i p =
      some ((search (askFrom ask source) (m.entries.drop i) p).1.map (i + ·),
        (search (askFrom ask source) (m.entries.drop i) p).2) := by
  induction n generalizing i p with
  | zero =>
      have hnil : m.entries.drop i = [] := by
        rw [List.drop_eq_nil_iff, h.length_entries, ← hn]
        exact Nat.le_refl _
      rw [hnil]
      rfl
  | succ n ih =>
      have hlt : i < m.used := by omega
      obtain ⟨s, hslot, hentry⟩ := h.slot hlt
      have hcons : m.entries.drop i = s.entry :: m.entries.drop (i + 1) := by
        obtain ⟨hi, hget⟩ := List.getElem?_eq_some_iff.mp hentry
        rw [← hget]
        exact List.drop_eq_getElem_cons hi
      have hadd : ∀ o : Option Nat, o.map (i + 1 + ·) = (o.map (· + 1)).map (i + ·) := by
        intro o
        cases o with
        | none => rfl
        | some k => exact congrArg some (Nat.add_right_comm i 1 k)
      have hsucc : i + 1 + n = m.used := by omega
      rw [findLoop, hcons, search, hslot]
      simp only [Option.bind_eq_bind, Option.bind_some]
      by_cases hsource : s.source = source
      · have hask : askFrom ask source p s.entry = ask p s.entry.body := if_pos hsource
        rw [if_pos hsource, h.bytes_eq hslot, hask]
        simp only [Option.bind_some]
        split
        · rfl
        · rw [ih hsucc, hadd]
      · have hask : askFrom ask source p s.entry = (false, p) := if_neg hsource
        rw [if_neg hsource, hask, ih hsucc, hadd]
        rfl

/-- The shift loop moves `n` slots down by one. -/
theorem shiftLoop_eq (n j : Nat) (slots : Vector (MailboxSlot maxBody) depth) (hn : j + n < depth) :
    ∃ slots', shiftLoop n j slots = some slots' ∧
      ∀ k, slots'[k]? = if j ≤ k ∧ k < j + n then slots[k + 1]? else slots[k]? := by
  induction n generalizing j slots with
  | zero => exact ⟨slots, rfl, fun k ↦ by rw [if_neg (by omega)]⟩
  | succ n ih =>
      have hj : j < depth := by omega
      have hnext : slots[j + 1]? = some slots[j + 1] := Vector.getElem?_eq_getElem (by omega)
      obtain ⟨slots', hloop, hget⟩ := ih (j + 1) (slots.set j slots[j + 1]) (by omega)
      refine ⟨slots', ?_, ?_⟩
      · rw [shiftLoop, hnext]
        simp only [Option.bind_eq_bind, Option.bind_some, store_of_lt hj, hloop]
      · intro k
        rw [hget, Vector.getElem?_set, Vector.getElem?_set]
        rcases Nat.lt_trichotomy k j with hlt | rfl | hgt
        · rw [if_neg (by omega), if_neg (by omega), if_neg (by omega)]
        · rw [if_neg (by omega), if_pos rfl, if_pos (by omega), hnext]
        · by_cases hk : k < j + (n + 1)
          · rw [if_pos (by omega), if_neg (by omega), if_pos (by omega)]
          · rw [if_neg (by omega), if_neg (by omega), if_neg (by omega)]

/-- Nothing is taken if the search finds nothing. -/
theorem Wf.pop_none (h : m.Wf) (hnone : (search (askFrom ask source) m.entries p).1 = none) :
    m.popMatchingWhere ask source p =
      some (none, (search (askFrom ask source) m.entries p).2, m) := by
  rw [popMatchingWhere, h.findLoop_eq (Nat.zero_add _), List.drop_zero, hnone]
  rfl

/-- What the search finds is taken out, and the others keep their order. -/
theorem Wf.pop_some (h : m.Wf) {i : Nat}
    (hsome : (search (askFrom ask source) m.entries p).1 = some i) :
    ∃ out m', m.popMatchingWhere ask source p =
        some (some out, (search (askFrom ask source) m.entries p).2, m') ∧
      m.entries[i]? = some out.entry ∧ m'.Wf ∧ m'.entries = m.entries.eraseIdx i := by
  have hi : i < m.used := h.length_entries ▸ search_lt hsome
  have hused := h.used_le
  obtain ⟨out, hslot, hentry⟩ := h.slot hi
  obtain ⟨slots, hshift, hget⟩ := shiftLoop_eq (m.used - 1 - i) i m.slots (by omega)
  have hlast : m.used - 1 < depth := by omega
  refine ⟨out, ⟨slots.set (m.used - 1) .empty, m.used - 1⟩, ?_, hentry, ⟨?_, ?_⟩, ?_⟩
  · rw [popMatchingWhere, h.findLoop_eq (Nat.zero_add _), List.drop_zero, hsome]
    simp only [Option.bind_eq_bind, Option.bind_some, Option.map_some, Nat.zero_add, hslot, hshift,
      store_of_lt hlast]
    rfl
  · exact Nat.le_of_lt hlast
  · intro k s hs
    simp only [Vector.getElem?_set, hget] at hs
    split at hs
    · rw [← Option.some.inj hs]
      exact Nat.zero_le _
    · split at hs
      · exact h.len_le _ s hs
      · exact h.len_le _ s hs
  · refine List.ext_getElem? ?_
    intro k
    rw [getElem?_entries, List.getElem?_eraseIdx, getElem?_entries, getElem?_entries]
    simp only [Vector.getElem?_set, hget]
    -- below the hole nothing moved, above it every message moved down by one
    by_cases hki : k < i
    · rw [if_pos hki, if_pos (by omega), if_neg (by omega), if_neg (by omega), if_pos (by omega)]
    · rw [if_neg hki]
      by_cases hk : k < m.used - 1
      · rw [if_pos hk, if_neg (by omega), if_pos (by omega), if_pos (by omega)]
      · rw [if_neg hk, if_neg (by omega)]

/-- `pop_matching_where` does not panic and keeps the invariant. -/
theorem Wf.pop (h : m.Wf) (ask : π → Bytes → Bool × π) (source : UInt8) (p : π) :
    ∃ r q m', m.popMatchingWhere ask source p = some (r, q, m') ∧ m'.Wf := by
  cases hs : (search (askFrom ask source) m.entries p).1 with
  | none => exact ⟨_, _, m, h.pop_none hs, h⟩
  | some i =>
      obtain ⟨out, m', hpop, -, hm', -⟩ := h.pop_some hs
      exact ⟨_, _, m', hpop, hm'⟩

theorem Wf.isSome_push (h : m.Wf) (source : UInt8) (body : Bytes) :
    (m.push source body).isSome = true := by
  obtain ⟨r, m', heq, -⟩ := h.push source body
  rw [heq]
  rfl

theorem Wf.wf_push (h : m.Wf) (source : UInt8) (body : Bytes) :
    ((m.push source body).get (h.isSome_push source body)).2.Wf := by
  obtain ⟨r, m', heq, hwf⟩ := h.push source body
  simp only [heq, Option.get_some]
  exact hwf

theorem Wf.isSome_pop (h : m.Wf) (ask : π → Bytes → Bool × π) (source : UInt8) (p : π) :
    (m.popMatchingWhere ask source p).isSome = true := by
  obtain ⟨r, q, m', heq, -⟩ := h.pop ask source p
  rw [heq]
  rfl

theorem Wf.wf_pop (h : m.Wf) (ask : π → Bytes → Bool × π) (source : UInt8) (p : π) :
    ((m.popMatchingWhere ask source p).get (h.isSome_pop ask source p)).2.2.Wf := by
  obtain ⟨r, q, m', heq, hwf⟩ := h.pop ask source p
  simp only [heq, Option.get_some]
  exact hwf

end TypeMailbox

/-! ## Mailboxes with their invariant -/

/-- A mailbox as it occurs at run time. -/
structure Mailbox (depth maxBody : Nat) where
  raw : TypeMailbox depth maxBody
  wf : raw.Wf

namespace Mailbox

/-- The empty mailbox. -/
def new : Mailbox depth maxBody := ⟨.new, .new⟩

/-- The messages, the oldest first. -/
def entries (m : Mailbox depth maxBody) : List Entry := m.raw.entries

/-- `push`, which does not panic. -/
def push (m : Mailbox depth maxBody) (source : UInt8) (body : Bytes) :
    Except IngestError Unit × Mailbox depth maxBody :=
  let r := (m.raw.push source body).get (m.wf.isSome_push source body)
  (r.1, ⟨r.2, m.wf.wf_push source body⟩)

/-- `pop_matching_where`, which does not panic. -/
def pop (m : Mailbox depth maxBody) (ask : π → Bytes → Bool × π) (source : UInt8) (p : π) :
    Option (MailboxSlot maxBody) × π × Mailbox depth maxBody :=
  let r := (m.raw.popMatchingWhere ask source p).get (m.wf.isSome_pop ask source p)
  (r.1, r.2.1, ⟨r.2.2, m.wf.wf_pop ask source p⟩)

variable {m : Mailbox depth maxBody} {source : UInt8} {body : Bytes}
  {ask : π → Bytes → Bool × π} {p : π}

@[simp] theorem entries_new : (new : Mailbox depth maxBody).entries = [] := rfl

theorem length_entries_le : m.entries.length ≤ depth := m.wf.length_entries ▸ m.wf.used_le

/-- A message that does not fit changes nothing. -/
theorem push_tooLarge (hbody : maxBody < body.length) :
    m.push source body = (.error (.bodyTooLarge body.length maxBody), m) := by
  simp only [push, TypeMailbox.push_tooLarge hbody, Option.get_some]

/-- A full mailbox takes nothing. -/
theorem push_full (hbody : body.length ≤ maxBody) (hfull : m.entries.length = depth) :
    m.push source body = (.error .mailboxFull, m) := by
  have hused : m.raw.used = depth := m.wf.length_entries.symm.trans hfull
  simp only [push, TypeMailbox.push_full hbody hused, Option.get_some]

/-- Any other message is appended. -/
theorem push_ok (source : UInt8) (hbody : body.length ≤ maxBody) (hroom : m.entries.length < depth) :
    (m.push source body).1 = .ok () ∧
      (m.push source body).2.entries = m.entries ++ [⟨source, body⟩] := by
  obtain ⟨raw, hpush, -, hentries⟩ := m.wf.push_ok source hbody (m.wf.length_entries ▸ hroom)
  simp only [push, hpush, Option.get_some, entries, hentries, and_self]

/-- A push fails and changes nothing, or appends its message. -/
theorem push_cases (m : Mailbox depth maxBody) (source : UInt8) (body : Bytes) :
    (∃ e, m.push source body = (.error e, m)) ∨
      ∃ m', m.push source body = (.ok (), m') ∧ m'.entries = m.entries ++ [⟨source, body⟩] := by
  by_cases hbody : maxBody < body.length
  · exact .inl ⟨_, push_tooLarge hbody⟩
  rw [Nat.not_lt] at hbody
  rcases Nat.lt_or_eq_of_le m.length_entries_le with hlt | hfull
  · obtain ⟨hok, hentries⟩ := push_ok source hbody hlt
    exact .inr ⟨_, Prod.ext hok rfl, hentries⟩
  · exact .inl ⟨_, push_full hbody hfull⟩

/-- Nothing is taken if no message of the source is accepted. -/
theorem pop_none (hnone : (search (TypeMailbox.askFrom ask source) m.entries p).1 = none) :
    m.pop ask source p = (none, (search (TypeMailbox.askFrom ask source) m.entries p).2, m) := by
  simp only [pop, m.wf.pop_none hnone, Option.get_some, entries]

/-- The first message of the source that is accepted is taken out. -/
theorem pop_some {i : Nat}
    (hsome : (search (TypeMailbox.askFrom ask source) m.entries p).1 = some i) :
    ∃ out m', m.pop ask source p =
        (some out, (search (TypeMailbox.askFrom ask source) m.entries p).2, m') ∧
      m.entries[i]? = some out.entry ∧ m'.entries = m.entries.eraseIdx i := by
  obtain ⟨out, raw, hpop, hentry, hwf, hentries⟩ := m.wf.pop_some hsome
  refine ⟨out, ⟨raw, hwf⟩, ?_, hentry, hentries⟩
  simp only [pop, hpop, Option.get_some, entries]

end Mailbox

end Thincan.Bus

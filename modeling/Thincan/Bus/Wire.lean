import Mathlib.Data.List.Basic

/-!
# Payloads and message tables

What `thincan/src/lib.rs` puts around a message body, and how the id in front of
it selects a mailbox: `decode_wire` and `MapletSpec::slot_for_id`.
-/

namespace Thincan

/-- A string of bytes. -/
abbrev Bytes := List UInt8

/-- `thincan::ErrorKind`, the only field of `thincan::Error`. -/
inductive ErrorKind where
  | timeout
  | bufferTooSmall (needed got : Nat)
  | other
deriving DecidableEq, Repr

namespace Bus

/-- `HEADER_LEN`. -/
def headerLen : Nat := 2

/-- `RawMessage`. -/
structure RawMessage where
  id : UInt16
  body : Bytes
deriving DecidableEq, Repr

/-- `u16::from_le_bytes`. -/
def fromLeBytes (lo hi : UInt8) : UInt16 := lo.toUInt16 ||| hi.toUInt16 <<< 8

/-- `decode_wire`. -/
def decodeWire : Bytes → Except ErrorKind RawMessage
  | lo :: hi :: body => .ok ⟨fromLeBytes lo hi, body⟩
  | _ => .error .other

/-- The body of a payload is everything after the header. -/
theorem body_of_decodeWire {payload : Bytes} {raw : RawMessage} (h : decodeWire payload = .ok raw) :
    raw.body = payload.drop headerLen := by
  unfold decodeWire at h
  split at h
  · rw [← Except.ok.inj h]
    rfl
  · cases h

/-- `MapletSpec`: the ids of a message set, in order. -/
structure Maplet (types : Nat) where
  messageIds : Vector UInt16 types

namespace Maplet

variable {types : Nat} (M : Maplet types)

/-- The loop of `slot_for_id`, from index `i` on, with `n` ids left to compare. -/
def slotLoop (id : UInt16) : (n i : Nat) → i + n = types → Option (Fin types)
  | 0, _, _ => none
  | n + 1, i, h =>
      if M.messageIds[i] = id then some ⟨i, by omega⟩ else slotLoop id n (i + 1) (by omega)

/-- `slot_for_id`. -/
def slotForId (id : UInt16) : Option (Fin types) := M.slotLoop id types 0 (Nat.zero_add types)

variable {M} {id id' : UInt16} {slot : Fin types}

theorem messageIds_of_slotLoop {n i : Nat} {h : i + n = types}
    (hs : M.slotLoop id n i h = some slot) : M.messageIds[slot] = id := by
  induction n generalizing i with
  | zero => cases hs
  | succ n ih =>
      unfold slotLoop at hs
      split at hs
      · next heq =>
          rw [← Option.some.inj hs]
          exact heq
      · exact ih hs

/-- The slot of an id holds that id. -/
theorem messageIds_slotForId (h : M.slotForId id = some slot) : M.messageIds[slot] = id :=
  messageIds_of_slotLoop h

/-- Different ids have different slots. -/
theorem slotForId_inj (h : M.slotForId id = some slot) (h' : M.slotForId id' = some slot) :
    id = id' :=
  (messageIds_slotForId h).symm.trans (messageIds_slotForId h')

end Maplet

end Bus

end Thincan

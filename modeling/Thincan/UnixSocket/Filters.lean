import Thincan.UnixSocket.Broadcast
import Thincan.UnixSocket.RoundTrip

/-!
# Setting filters

`UnixCan::set_filters`, from the list the caller gives to the list the server stores:
`encode_filters`, `write_msg`, `read_msg_into`, `decode_filters`, `handle_command`, and the
acknowledgement the client waits for.

A message holds at most 4096 bytes, which is 454 filters.  A filter whose mask has another
width than its identifier matches nothing in `filter_match`; the encoder writes its mask as
zero, so at the server it matches every identifier of its own width (`widens`).  The backends
for SocketCAN and bxCAN refuse such a filter.
-/

namespace Thincan.UnixSocket

open Process

/-- What the server stores for client `id` when `set_filters` with the sequence number `seq`
returns `Ok`, and `none` when it does not. -/
def setFilters (b : Bus) (id : ClientId) (seq : UInt64) (filters : List IdMaskFilter) :
    Option (List IdMaskFilter) :=
  match writeMsg msgSetFilters (encodeFilters seq filters) with
  | .error _ => none
  | .ok bytes =>
      match readMsg bytes with
      | .message msgType payload _ =>
          match readCommand id msgType payload with
          | .command c =>
              let b' := b.handleCommand b.clients.keys c
              -- `wait_for_filters_ack`
              if (b'.out id).drop (b.out id).length = [.filtersAck seq ackOk] then
                (b'.clients.lookup id).map ClientState.filters
              else none
          | _ => none
      | _ => none

/-- The most filters that fit in a message. -/
def maxFilters : Nat := 454

/-- The filter has an identifier of the width of `id`, and a mask of the other width. -/
def IdMaskFilter.widens (f : IdMaskFilter) (id : Id) : Bool :=
  match f.id, f.mask, id with
  | .standard _, .extended _, .standard _ => true
  | .extended _, .standard _, .extended _ => true
  | _, _, _ => false

/-! ## What comes back -/

theorem filterMatch_received (f : IdMaskFilter) (id : Id) :
    filterMatch f.received id = (filterMatch f id || f.widens id) := by
  obtain ⟨fid, mask⟩ := f
  cases fid with
  | standard fid =>
      cases mask with
      | standard mask =>
          cases id with
          | standard id => exact (Bool.or_false _).symm
          | extended id => rfl
      | extended mask =>
          cases id with
          | standard id =>
              simp only [filterMatch, IdMaskFilter.received, IdMaskFilter.widens, UInt16.and_zero,
                decide_true, Bool.false_or]
          | extended id => rfl
  | extended fid =>
      cases mask with
      | standard mask =>
          cases id with
          | standard id => rfl
          | extended id =>
              simp only [filterMatch, IdMaskFilter.received, IdMaskFilter.widens, UInt32.and_zero,
                decide_true, Bool.false_or]
      | extended mask =>
          cases id with
          | standard id => rfl
          | extended id => exact (Bool.or_false _).symm

theorem any_or {α : Type} (l : List α) (p q : α → Bool) :
    (l.any fun a ↦ p a || q a) = (l.any p || l.any q) := by
  induction l with
  | nil => rfl
  | cons a l ih =>
      rw [List.any_cons, List.any_cons, List.any_cons, ih]
      cases p a with
      | true => rfl
      | false =>
          cases q a with
          | true => simp
          | false => rfl

/-- What the received list lets through: what the list does, and what it was widened by. -/
theorem filtersMatch_received (filters : List IdMaskFilter) (frame : UnixFrame) :
    filtersMatch (filters.map IdMaskFilter.received) frame =
      (filtersMatch filters frame || filters.any (·.widens frame.id)) := by
  unfold filtersMatch
  cases filters with
  | nil => rfl
  | cons f fs =>
      simp only [List.isEmpty_cons, List.isEmpty_map, Bool.false_eq_true, if_false]
      rw [List.any_map, ← any_or]
      refine List.any_congr rfl ?_
      intro g
      exact filterMatch_received g frame.id

theorem length_encodeFilters_le (seq : UInt64) {filters : List IdMaskFilter} :
    (encodeFilters seq filters).length ≤ maxPayloadLen ↔ filters.length ≤ maxFilters := by
  rw [length_encodeFilters, maxPayloadLen, maxFilters]
  omega

/-- A list that does not fit is never acknowledged. -/
theorem setFilters_of_lt (b : Bus) (id : ClientId) (seq : UInt64) {filters : List IdMaskFilter}
    (h : maxFilters < filters.length) : setFilters b id seq filters = none := by
  have hlong : maxPayloadLen < (encodeFilters seq filters).length := by
    rw [← Nat.not_le, length_encodeFilters_le, Nat.not_le]
    exact h
  unfold setFilters writeMsg
  by_cases hu32 : (encodeFilters seq filters).length > 0xFFFFFFFF
  · rw [if_pos hu32]
  · have hnext : readMsg (Framing.frame msgSetFilters (encodeFilters seq filters) ++ []) = .tooLong := by
      rw [readMsg, Framing.next_frame_eq msgSetFilters
        (Nat.lt_of_le_of_lt (Nat.not_lt.mp hu32) (by decide)) [], if_pos hlong]
    rw [List.append_nil] at hnext
    rw [if_neg hu32]
    simp only [hnext]

/-- A list that fits gets to the server as it is received. -/
theorem setFilters_of_le (b : Bus) (id : ClientId) (seq : UInt64) {filters : List IdMaskFilter}
    (h : filters.length ≤ maxFilters) :
    setFilters b id seq filters =
      if seq ≠ 0 ∧ (b.clients.lookup id).isSome then some (filters.map IdMaskFilter.received) else none := by
  have hlen := (length_encodeFilters_le seq).mpr h
  have hu32 : (encodeFilters seq filters).length < 2 ^ 32 := Nat.lt_of_le_of_lt hlen (by decide)
  have hnext : readMsg (Framing.frame msgSetFilters (encodeFilters seq filters) ++ []) =
      .message msgSetFilters (encodeFilters seq filters) [] := Framing.next_frame msgSetFilters hlen hu32 []
  rw [List.append_nil] at hnext
  have hread : readCommand id msgSetFilters (encodeFilters seq filters) =
      .command (.setFilters id seq (filters.map IdMaskFilter.received)) := by
    have hdecode := decodeFilters_encodeFilters seq filters (Nat.lt_of_le_of_lt h (by decide))
    rw [readCommand, if_neg (by decide), if_pos rfl, hdecode]
  unfold setFilters writeMsg
  rw [if_neg (Nat.not_lt.mpr (Nat.le_of_lt_succ hu32))]
  simp only [hnext, hread, Bus.handleCommand]
  by_cases hseq : seq = 0
  · subst hseq
    have herr : ¬ ackServerErr = ackOk := by decide
    by_cases hreg : (b.clients.lookup id).isSome = true
    · simp [hreg, Bus.send, herr]
    · simp [hreg]
  · by_cases hreg : (b.clients.lookup id).isSome = true
    · simp [hseq, hreg, Bus.send, AList.lookup_insert]
    · simp [hseq, hreg]

/-- **Setting filters**: a frame that `set_filters` was asked to keep out is kept out, unless
a filter of the list widens. -/
theorem setFilters_exact (b : Bus) (id : ClientId) (seq : UInt64) (filters : List IdMaskFilter)
    (frame : UnixFrame) :
    (∀ stored, setFilters b id seq filters = some stored →
      filtersMatch stored frame = filtersMatch filters frame) ↔
    (b.clients.lookup id).isSome = false ∨ seq = 0 ∨ maxFilters < filters.length ∨
      filtersMatch filters frame = true ∨ ∀ f ∈ filters, f.widens frame.id = false := by
  rcases Nat.lt_or_ge maxFilters filters.length with hlong | hfits
  · -- there is nothing to check, and the condition says so
    constructor
    · intro _
      exact .inr (.inr (.inl hlong))
    · intro _ stored hstored
      rw [setFilters_of_lt b id seq hlong] at hstored
      cases hstored
  · rw [setFilters_of_le b id seq hfits]
    by_cases hack : seq ≠ 0 ∧ (b.clients.lookup id).isSome = true
    · obtain ⟨hseq, hreg⟩ := hack
      have hnone : (∀ f ∈ filters, f.widens frame.id = false) ↔
          filters.any (·.widens frame.id) = false := by
        rw [List.any_eq_false]
        simp only [Bool.not_eq_true]
      rw [if_pos ⟨hseq, hreg⟩, hnone, hreg]
      constructor
      · intro h
        have hstored := h _ rfl
        rw [filtersMatch_received] at hstored
        cases hmatch : filtersMatch filters frame with
        | true => exact .inr (.inr (.inr (.inl rfl)))
        | false =>
            rw [hmatch, Bool.false_or] at hstored
            exact .inr (.inr (.inr (.inr hstored)))
      · rintro (h | h | h | h | h) stored hstored
        · cases h
        · exact absurd h hseq
        · exact absurd hfits (Nat.not_le.mpr h)
        · obtain rfl := Option.some.inj hstored
          rw [filtersMatch_received, h, Bool.true_or]
        · obtain rfl := Option.some.inj hstored
          rw [filtersMatch_received, h, Bool.or_false]
    · rw [if_neg hack]
      constructor
      · intro _
        by_cases hseq : seq = 0
        · exact .inr (.inl hseq)
        · exact .inl (Bool.eq_false_iff.mpr fun hreg ↦ hack ⟨hseq, hreg⟩)
      · intro _ stored hstored
        cases hstored

/-- A standard identifier with an extended mask: it matches nothing. -/
def widened123 : IdMaskFilter := { only123 with mask := .extended 0x1FFFFFFF }

/-- The bus with the one client 1. -/
def soloBus : Bus := ({} : Bus).handleCommand [] (.addClient 1)

/-- The list lets no frame through, and the list the server stores lets `0x100` through. -/
theorem setFilters_widened :
    setFilters soloBus 1 1 [widened123] = some [⟨.standard ⟨0x123, by decide⟩, .standard 0⟩] ∧
      filtersMatch [widened123] frame100 = false ∧
      filtersMatch [⟨.standard ⟨0x123, by decide⟩, .standard 0⟩] frame100 = true ∧
      ¬ ∀ stored, setFilters soloBus 1 1 [widened123] = some stored →
        filtersMatch stored frame100 = filtersMatch [widened123] frame100 := by
  have hstored : setFilters soloBus 1 1 [widened123] =
      some [⟨.standard ⟨0x123, by decide⟩, .standard 0⟩] := by decide +kernel
  refine ⟨hstored, by decide, by decide, ?_⟩
  intro h
  exact absurd (h _ hstored) (by decide)

end Thincan.UnixSocket

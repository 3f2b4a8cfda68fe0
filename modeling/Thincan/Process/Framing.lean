import Thincan.Process.Endian

/-!
# Messages in a stream of bytes

A message on a byte stream is a tag byte, the length of its payload as a little-endian
`u32`, and the payload.  `next` looks at the front of a stream; a length above `limit` is
refused before the payload is there.  `messages` is what a reader gets out of a stream
that decodes each message with `decode` and stops at the first it cannot decode.

A reader that keeps what it has read in a buffer sees the stream in pieces.  What it needs
is `next_append`: a message that is there stays the first one when more bytes arrive.
-/

namespace Process.Framing

variable {α : Type*} {limit : Nat}

/-- What is at the front of a stream. -/
inductive Next where
  | incomplete
  | tooLong
  | message (tag : UInt8) (payload rest : List UInt8)
deriving DecidableEq, Repr

/-- The front of a stream. -/
def next (limit : Nat) : List UInt8 → Next
  | tag :: b₀ :: b₁ :: b₂ :: b₃ :: bs =>
      let len := leNat [b₀, b₁, b₂, b₃]
      if len > limit then .tooLong
      else if bs.length < len then .incomplete
      else .message tag (bs.take len) (bs.drop len)
  | _ => .incomplete

/-- A message as bytes. -/
def frame (tag : UInt8) (payload : List UInt8) : List UInt8 :=
  tag :: (leBytes 4 payload.length ++ payload)

@[simp] theorem length_frame (tag : UInt8) (payload : List UInt8) :
    (frame tag payload).length = 5 + payload.length := by
  rw [frame, List.length_cons, List.length_append, length_leBytes]
  omega

/-- The front of a stream, for a reader that works with positions. -/
theorem next_eq (bs : List UInt8) :
    next limit bs =
      if bs.length < 5 then .incomplete
      else if leNat ((bs.drop 1).take 4) > limit then .tooLong
      else if bs.length < 5 + leNat ((bs.drop 1).take 4) then .incomplete
      else
        .message (bs.getD 0 0) ((bs.drop 5).take (leNat ((bs.drop 1).take 4)))
          (bs.drop (5 + leNat ((bs.drop 1).take 4))) := by
  unfold next
  split
  · next t b₀ b₁ b₂ b₃ bs =>
      have hlong : ¬ (t :: b₀ :: b₁ :: b₂ :: b₃ :: bs).length < 5 := by
        simp only [List.length_cons]
        omega
      rw [if_neg hlong]
      simp only [List.drop_succ_cons, List.drop_zero, List.take_succ_cons, List.take_zero,
        List.length_cons, List.getD_cons_zero, ← List.drop_drop]
      split
      · rfl
      · rw [show bs.length + 1 + 1 + 1 + 1 + 1 = 5 + bs.length by omega]
        simp only [Nat.add_lt_add_iff_left]
  · next hshort =>
      rw [if_pos]
      match bs, hshort with
      | [], _ | [_], _ | [_, _], _ | [_, _, _], _ | [_, _, _, _], _ => simp
      | t :: b₀ :: b₁ :: b₂ :: b₃ :: bs, hshort => exact absurd rfl (hshort t b₀ b₁ b₂ b₃ bs)

/-- The message at the front is still the one at the front when more bytes arrive. -/
theorem next_append {bs : List UInt8} {tag : UInt8} {payload rest : List UInt8}
    (h : next limit bs = .message tag payload rest) (more : List UInt8) :
    next limit (bs ++ more) = .message tag payload (rest ++ more) := by
  unfold next at h
  split at h
  · next t b₀ b₁ b₂ b₃ bs =>
      dsimp only at h
      split at h
      · cases h
      · next hlimit =>
          split at h
          · cases h
          · next hlen =>
              obtain ⟨rfl, rfl, rfl⟩ := Next.message.inj h
              have hle := Nat.le_of_not_lt hlen
              have hlong : ¬ (bs ++ more).length < leNat [b₀, b₁, b₂, b₃] := by
                rw [List.length_append]
                omega
              simp only [next, List.cons_append, if_neg hlimit, if_neg hlong]
              rw [List.take_append_of_le_length hle, List.drop_append_of_le_length hle]
  · cases h

/-- A length that is refused stays refused. -/
theorem next_append_tooLong {bs : List UInt8} (h : next limit bs = .tooLong) (more : List UInt8) :
    next limit (bs ++ more) = .tooLong := by
  unfold next at h
  split at h
  · next t b₀ b₁ b₂ b₃ bs =>
      dsimp only at h
      split at h
      · next hlimit => simp only [next, List.cons_append, if_pos hlimit]
      · split at h
        · cases h
        · cases h
  · cases h

/-- A message takes its bytes from the front. -/
theorem length_of_next {bs : List UInt8} {tag : UInt8} {payload rest : List UInt8}
    (h : next limit bs = .message tag payload rest) : bs.length = 5 + payload.length + rest.length := by
  unfold next at h
  split at h
  · next t b₀ b₁ b₂ b₃ bs =>
      dsimp only at h
      split at h
      · cases h
      · split at h
        · cases h
        · next hlen =>
            obtain ⟨-, rfl, rfl⟩ := Next.message.inj h
            simp only [List.length_cons, List.length_take, List.length_drop]
            omega
  · cases h

/-- A message at the front is its bytes, and its payload is within the limit. -/
theorem eq_frame_of_next {bs : List UInt8} {tag : UInt8} {payload rest : List UInt8}
    (h : next limit bs = .message tag payload rest) :
    bs = frame tag payload ++ rest ∧ payload.length ≤ limit := by
  unfold next at h
  split at h
  · next t b₀ b₁ b₂ b₃ bs =>
      dsimp only at h
      split at h
      · cases h
      · next hlimit =>
          split at h
          · cases h
          · next hlen =>
              obtain ⟨rfl, rfl, rfl⟩ := Next.message.inj h
              have hpayload : (bs.take (leNat [b₀, b₁, b₂, b₃])).length = leNat [b₀, b₁, b₂, b₃] := by
                rw [List.length_take]
                omega
              have hheader : leBytes 4 (leNat [b₀, b₁, b₂, b₃]) = [b₀, b₁, b₂, b₃] :=
                leBytes_leNat [b₀, b₁, b₂, b₃]
              refine ⟨?_, by omega⟩
              rw [frame, hpayload, hheader, List.cons_append, List.append_assoc,
                List.take_append_drop]
              rfl
  · cases h

/-- The front of a stream that begins with a message. -/
theorem next_frame_eq (tag : UInt8) {payload : List UInt8} (hfits : payload.length < 2 ^ 32)
    (rest : List UInt8) :
    next limit (frame tag payload ++ rest) =
      if payload.length > limit then .tooLong else .message tag payload rest := by
  have hlen : leNat (leBytes 4 payload.length) = payload.length := leNat_leBytes hfits
  generalize hbs : leBytes 4 payload.length = bs at hlen
  have hfour : bs.length = 4 := by rw [← hbs, length_leBytes]
  obtain ⟨b₀, b₁, b₂, b₃, rfl⟩ : ∃ b₀ b₁ b₂ b₃, bs = [b₀, b₁, b₂, b₃] := by
    match bs, hfour with
    | [b₀, b₁, b₂, b₃], _ => exact ⟨b₀, b₁, b₂, b₃, rfl⟩
  rw [frame, hbs]
  simp only [List.cons_append, List.nil_append, next, hlen]
  rw [if_neg (by rw [List.length_append]; omega : ¬ (payload ++ rest).length < payload.length),
    List.take_left, List.drop_left]

/-- A message is read back. -/
theorem next_frame (tag : UInt8) {payload : List UInt8} (hlimit : payload.length ≤ limit)
    (hfits : payload.length < 2 ^ 32) (rest : List UInt8) :
    next limit (frame tag payload ++ rest) = .message tag payload rest := by
  rw [next_frame_eq tag hfits, if_neg (Nat.not_lt.mpr hlimit)]

/-! ## Reading a stream to its end -/

section Messages

variable (limit) (decode : UInt8 → List UInt8 → Option α)

/-- At most `n` messages from the front of a stream. -/
def scan : (n : Nat) → List UInt8 → List α
  | 0, _ => []
  | n + 1, bs =>
      match next limit bs with
      | .message tag payload rest =>
          match decode tag payload with
          | some a => a :: scan n rest
          | none => []
      | _ => []

/-- The messages of a stream, up to the first that cannot be decoded. -/
def messages (bs : List UInt8) : List α := scan limit decode bs.length bs

/-- What is left of a stream after its messages. -/
def remainder (bs : List UInt8) : List UInt8 :=
  match _h : next limit bs with
  | .message tag payload rest =>
      match decode tag payload with
      | some _ => remainder rest
      | none => bs
  | _ => bs
termination_by bs.length
decreasing_by
  have := length_of_next _h
  omega

/-- There is no message at the front that could be decoded. -/
def Stuck (bs : List UInt8) : Prop :=
  ∀ tag payload rest, next limit bs = .message tag payload rest → decode tag payload = none

end Messages

variable {decode : UInt8 → List UInt8 → Option α} {bs : List UInt8}

/-- A message takes bytes, so there are never more messages than bytes. -/
theorem scan_eq_messages {n : Nat} (h : bs.length ≤ n) :
    scan limit decode n bs = messages limit decode bs := by
  have hmore : ∀ (k : Nat) (cs : List UInt8), cs.length ≤ k →
      ∀ m, k ≤ m → scan limit decode m cs = scan limit decode k cs := by
    intro k
    induction k with
    | zero =>
        intro cs hcs m _
        obtain rfl := List.length_eq_zero_iff.mp (Nat.le_zero.mp hcs)
        cases m with
        | zero => rfl
        | succ m => rfl
    | succ k ih =>
        intro cs hcs m hm
        obtain ⟨m, rfl⟩ := Nat.exists_eq_add_of_le' hm
        rw [← Nat.add_assoc, scan, scan]
        split
        · next tag payload rest hnext =>
            split
            · have hrest : rest.length ≤ k := by
                have := length_of_next hnext
                omega
              rw [ih rest hrest (m + k) (Nat.le_add_left ..)]
            · rfl
        · rfl
  exact hmore bs.length bs (Nat.le_refl _) n h

/-- The first message, and the rest. -/
theorem messages_cons {tag : UInt8} {payload rest : List UInt8} {a : α}
    (h : next limit bs = .message tag payload rest) (ha : decode tag payload = some a) :
    messages limit decode bs = a :: messages limit decode rest := by
  have hlen := length_of_next h
  obtain ⟨n, hn⟩ : ∃ n, bs.length = n + 1 := Nat.exists_eq_add_of_lt (by omega : 0 < bs.length) |>.imp
    fun n hn ↦ by omega
  rw [messages, hn, scan, h]
  simp only [ha]
  rw [scan_eq_messages (by omega)]

/-- A reader that is stuck gets nothing. -/
theorem Stuck.messages_eq (h : Stuck limit decode bs) : messages limit decode bs = [] := by
  unfold messages
  cases bs.length with
  | zero => rfl
  | succ n =>
      rw [scan]
      split
      · next tag payload rest hnext => rw [h tag payload rest hnext]
      · rfl

/-- A reader that is stuck leaves everything. -/
theorem Stuck.remainder_eq (h : Stuck limit decode bs) : remainder limit decode bs = bs := by
  rw [remainder]
  split
  · next tag payload rest hnext => rw [h tag payload rest hnext]
  · rfl

/-- What is left after the first message. -/
theorem remainder_cons {tag : UInt8} {payload rest : List UInt8} {a : α}
    (h : next limit bs = .message tag payload rest) (ha : decode tag payload = some a) :
    remainder limit decode bs = remainder limit decode rest := by
  rw [remainder]
  split
  · next tag' payload' rest' hnext =>
      obtain ⟨rfl, rfl, rfl⟩ := Next.message.inj (h.symm.trans hnext)
      rw [ha]
  · next hnot => exact absurd h (hnot tag payload rest)

/-- There is a message at the front, or the reader is stuck. -/
theorem message_or_stuck (limit : Nat) (decode : UInt8 → List UInt8 → Option α) (bs : List UInt8) :
    (∃ tag payload rest a, next limit bs = .message tag payload rest ∧ decode tag payload = some a) ∨
      Stuck limit decode bs := by
  by_cases h : Stuck limit decode bs
  · exact .inr h
  · apply Or.inl
    simp only [Stuck, not_forall] at h
    obtain ⟨tag, payload, rest, hnext, hsome⟩ := h
    obtain ⟨a, ha⟩ := Option.ne_none_iff_exists'.mp hsome
    exact ⟨tag, payload, rest, a, hnext, ha⟩

/-- The messages of a stream in two pieces: those of the first piece, and then those of
what it left together with the second. -/
theorem messages_append (bs more : List UInt8) :
    messages limit decode (bs ++ more) =
      messages limit decode bs ++ messages limit decode (remainder limit decode bs ++ more) := by
  induction hn : bs.length using Nat.strong_induction_on generalizing bs with
  | h n ih =>
      rcases message_or_stuck limit decode bs with ⟨tag, payload, rest, a, hnext, ha⟩ | hstuck
      · have hlt : rest.length < n := by
          have := length_of_next hnext
          omega
        rw [messages_cons (next_append hnext more) ha, messages_cons hnext ha, remainder_cons hnext ha,
          List.cons_append, ih rest.length hlt rest rfl]
      · rw [hstuck.messages_eq, hstuck.remainder_eq, List.nil_append]

/-! ## Messages as they stand -/

/-- The messages of a stream, up to the first that is incomplete or too long. -/
def parse (limit : Nat) (bs : List UInt8) : List (UInt8 × List UInt8) :=
  messages limit (fun tag payload ↦ some (tag, payload)) bs

/-- Messages one after the other. -/
def frames (ms : List (UInt8 × List UInt8)) : List UInt8 := ms.flatMap fun m ↦ frame m.1 m.2

theorem frames_append (ms ms' : List (UInt8 × List UInt8)) :
    frames (ms ++ ms') = frames ms ++ frames ms' := List.flatMap_append

theorem frames_snoc (ms : List (UInt8 × List UInt8)) (m : UInt8 × List UInt8) :
    frames (ms ++ [m]) = frames ms ++ frame m.1 m.2 := by
  rw [frames_append, frames, frames, List.flatMap_singleton]

theorem parse_cons {tag : UInt8} {payload rest : List UInt8}
    (h : next limit bs = .message tag payload rest) :
    parse limit bs = (tag, payload) :: parse limit rest := messages_cons h rfl

/-- A stream that begins with no whole message has none. -/
theorem parse_eq_nil (h : ∀ tag payload rest, next limit bs ≠ .message tag payload rest) :
    parse limit bs = [] :=
  Stuck.messages_eq fun tag payload rest hnext ↦ absurd hnext (h tag payload rest)

/-- Messages that were written are read back, whatever comes after them. -/
theorem parse_frames_append {ms : List (UInt8 × List UInt8)} (hlimit : limit < 2 ^ 32)
    (hms : ∀ m ∈ ms, m.2.length ≤ limit) (bs : List UInt8) :
    parse limit (frames ms ++ bs) = ms ++ parse limit bs := by
  induction ms with
  | nil => rfl
  | cons m ms ih =>
      have hm := hms m List.mem_cons_self
      have hnext := next_frame m.1 hm (Nat.lt_of_le_of_lt hm hlimit) (frames ms ++ bs)
      have hcons : frames (m :: ms) = frame m.1 m.2 ++ frames ms := List.flatMap_cons ..
      rw [hcons, List.append_assoc, parse_cons hnext,
        ih fun m' hm' ↦ hms m' (List.mem_cons_of_mem m hm'), List.cons_append]

/-- A reader gets the messages that were written up to the first that is too long. -/
theorem parse_frames {ms : List (UInt8 × List UInt8)} (hms : ∀ m ∈ ms, m.2.length < 2 ^ 32) :
    parse limit (frames ms) = ms.takeWhile fun m ↦ m.2.length ≤ limit := by
  induction ms with
  | nil => rfl
  | cons m ms ih =>
      have hnext : next limit (frame m.1 m.2 ++ frames ms) =
          if m.2.length > limit then .tooLong else .message m.1 m.2 (frames ms) :=
        next_frame_eq m.1 (hms m List.mem_cons_self) (frames ms)
      have hcons : frames (m :: ms) = frame m.1 m.2 ++ frames ms := List.flatMap_cons ..
      rw [hcons, List.takeWhile_cons]
      by_cases hm : m.2.length ≤ limit
      · rw [if_neg (Nat.not_lt.mpr hm)] at hnext
        rw [parse_cons hnext, ih fun m' hm' ↦ hms m' (List.mem_cons_of_mem m hm'),
          if_pos (decide_eq_true hm)]
      · rw [if_pos (Nat.not_le.mp hm)] at hnext
        rw [if_neg (by rwa [decide_eq_true_iff]), parse_eq_nil fun tag payload rest h ↦ ?_]
        cases hnext.symm.trans h

theorem parse_frames_eq_self {ms : List (UInt8 × List UInt8)} (hlimit : limit < 2 ^ 32)
    (hms : ∀ m ∈ ms, m.2.length ≤ limit) : parse limit (frames ms) = ms := by
  have h := parse_frames_append hlimit hms []
  have hnil : parse limit [] = [] := rfl
  rwa [hnil, List.append_nil, List.append_nil] at h

/-- Messages and a part of one more are not messages. -/
theorem frames_append_part_ne {ms ms' : List (UInt8 × List UInt8)} {tag : UInt8}
    {payload part rest : List UInt8} (hms : ∀ m ∈ ms, m.2.length < 2 ^ 32)
    (hms' : ∀ m ∈ ms', m.2.length < 2 ^ 32) (hfits : payload.length < 2 ^ 32)
    (hpart : part ++ rest = frame tag payload) (hne : part ≠ []) (hrest : rest ≠ []) :
    frames ms ++ part ≠ frames ms' := by
  intro heq
  have hle : ∀ {k : Nat}, k < 2 ^ 32 → k ≤ 2 ^ 32 - 1 := fun h ↦ by omega
  -- read the messages with a limit that none of them exceeds
  have hleft : parse (2 ^ 32 - 1) (frames ms ++ part) = ms ++ parse (2 ^ 32 - 1) part :=
    parse_frames_append (by decide) (fun m hm ↦ hle (hms m hm)) part
  have hright : parse (2 ^ 32 - 1) (frames ms') = ms' :=
    parse_frames_eq_self (by decide) fun m hm ↦ hle (hms' m hm)
  rw [heq, hright] at hleft
  have hself : part = frames (parse (2 ^ 32 - 1) part) := by
    rw [hleft, frames_append] at heq
    exact List.append_cancel_left heq
  rcases message_or_stuck (2 ^ 32 - 1) (fun tag payload ↦ some (tag, payload)) part with
    ⟨tag', payload', left, -, hnext, -⟩ | hstuck
  · -- the part begins with a message, so it is the whole one
    have hwhole := next_append hnext rest
    have hframe := next_frame tag (hle hfits) hfits []
    rw [List.append_nil] at hframe
    rw [hpart, hframe] at hwhole
    obtain ⟨-, -, hempty⟩ := Next.message.inj hwhole
    exact hrest (List.append_eq_nil_iff.mp hempty.symm).2
  · rw [parse, hstuck.messages_eq] at hself
    exact hne hself

/-! ## A reader that waits -/

/-- `read_exact` on a stream that arrives in the given pieces: `n` bytes and the pieces that
are left, or `none` at the end of the stream. -/
def readExact : (n : Nat) → List (List UInt8) → Option (List UInt8 × List (List UInt8))
  | 0, pieces => some ([], pieces)
  | _ + 1, [] => none
  | n + 1, piece :: pieces =>
      if n + 1 ≤ piece.length then some (piece.take (n + 1), piece.drop (n + 1) :: pieces)
      else (readExact (n + 1 - piece.length) pieces).map fun r ↦ (piece ++ r.1, r.2)

/-- The pieces do not matter. -/
theorem readExact_spec (n : Nat) (pieces : List (List UInt8)) :
    (pieces.flatten.length < n ∧ readExact n pieces = none) ∨
      n ≤ pieces.flatten.length ∧ ∃ left, left.flatten = pieces.flatten.drop n ∧
        readExact n pieces = some (pieces.flatten.take n, left) := by
  induction pieces generalizing n with
  | nil =>
      cases n with
      | zero => exact .inr ⟨Nat.le_refl 0, [], rfl, rfl⟩
      | succ n => exact .inl ⟨Nat.succ_pos n, rfl⟩
  | cons piece pieces ih =>
      cases n with
      | zero => exact .inr ⟨Nat.zero_le _, piece :: pieces, rfl, rfl⟩
      | succ n =>
          rw [readExact, List.flatten_cons, List.length_append]
          split
          · next hle =>
              refine .inr ⟨by omega, piece.drop (n + 1) :: pieces, ?_, ?_⟩
              · rw [List.flatten_cons, List.drop_append_of_le_length hle]
              · rw [List.take_append_of_le_length hle]
          · next hlt =>
              have hle : piece.length ≤ n + 1 := by omega
              rcases ih (n + 1 - piece.length) with ⟨hshort, hnone⟩ | ⟨hlong, left, hleft, hsome⟩
              · exact .inl ⟨by omega, by rw [hnone]; rfl⟩
              · refine .inr ⟨by omega, left, ?_, ?_⟩
                · rw [hleft, List.drop_append, List.drop_of_length_le hle, List.nil_append]
                · rw [hsome, List.take_append, List.take_of_length_le hle]
                  rfl

end Process.Framing

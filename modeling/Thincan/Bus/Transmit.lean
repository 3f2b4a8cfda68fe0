import Mathlib.Data.List.Nodup
import Mathlib.Logic.Function.Basic
import Thincan.FileTransfer.Codec
import Thincan.Process.Machine

/-!
# The sending half of an interface

`TxState::encode_capnp_into_buf` and `send_capnp_to_async_shared` and
`send_capnp_functional_to_async_shared` of `thincan/src/lib.rs`, called any number
of times by concurrent tasks on one `Interface`.

The calls share a transport endpoint and one buffer, behind a mutex.  A call takes
the lock, encodes its value into the buffer and gives the endpoint a slice *of that
buffer*, which is not copied: the endpoint reads it while it sends, a piece at a
time, and what it reads is what is in the buffer then.  The code from the lock to
the endpoint has no await in it, so it is one action.  A call that is dropped gives
the lock back wherever it stands.

`SendLabel.read` and `SendLabel.answer` are the endpoint: it reads the slice from
the front, a payload is on the wire once its last byte was read, and it reports
success only then.  Beyond that it may fail whenever it likes.

The state has two histories the code does not keep: which calls have encoded their
value and gone on to the endpoint, in order, and the payloads on the wire.
-/

namespace Thincan.Bus

open Process

/-! ## Encoding into the buffer -/

/-- A value with its `EncodeCapnp` implementation: a bound, and what `encode` reports and
leaves in the slice it was given. -/
structure Value where
  maxEncodedLen : Nat
  encode : Bytes → Except ErrorKind Nat × Bytes
  length_encode : ∀ out, (encode out).2.length = out.length

/-- `TxState::encode_capnp_into_buf`: how much of the buffer is the payload, and the
buffer afterwards.  The source adds `HEADER_LEN` to the bound in `usize`, which overflows for
bounds of `usize::MAX - 1` and more; here it is the buffer that is too small for them. -/
def encodeCapnpIntoBuf (id : UInt16) (v : Value) (buf : Bytes) : Except ErrorKind Nat × Bytes :=
  let needed := headerLen + v.maxEncodedLen
  if buf.length < needed then (.error (.bufferTooSmall needed buf.length), buf)
  else
    let (r, out) := v.encode ((buf.drop headerLen).take v.maxEncodedLen)
    let buf := leBytes 2 id.toNat ++ (out ++ buf.drop needed)
    match r with
    | .error e => (.error e, buf)
    | .ok used => if used > v.maxEncodedLen then (.error .other, buf) else (.ok (headerLen + used), buf)

/-! ## Calls -/

/-- `can_isotp_interface::SendError`, without what the backend says. -/
inductive SendError where
  | timeout
  | backend
deriving DecidableEq, Repr

/-- `map_isotp_send_error`. -/
def mapIsotpSendError : SendError → ErrorKind
  | .timeout => .timeout
  | .backend => .other

/-- A call of `__send_capnp_to`, or of `__send_capnp_functional_to`; the message type is
its id. -/
structure SendCall where
  functional : Bool
  dest : UInt8
  id : UInt16
  value : Value

/-- The await points of a call, and its ends. -/
inductive SendPc where
  | /-- It waits for the lock. -/
    locking
  | /-- It has the lock, and the endpoint sends the first `len` bytes of the buffer; it has
    read `out` of them. -/
    sending (len : Nat) (out : Bytes)
  | returned (r : Except ErrorKind Unit)
  | /-- The future was dropped. -/
    dropped

/-- A call and where it stands. -/
structure SendTask where
  call : SendCall
  pc : SendPc

/-- A payload on the wire, with the call that sent it. -/
structure Pdu where
  call : Nat
  functional : Bool
  dest : UInt8
  payload : Bytes
deriving DecidableEq, Repr

/-! ## The transmitter -/

/-- The sending half of an `Interface` and the calls made on it, under names. -/
structure Transmitter where
  buf : Bytes
  /-- Who has the lock. -/
  holder : Option Nat := none
  tasks : Nat → Option SendTask := fun _ ↦ none
  /-- The calls that have gone on to the endpoint, in order. -/
  locks : List Nat := []
  /-- What is on the wire, in order. -/
  wire : List Pdu := []

/-- A new call, or what happens to one. -/
inductive SendLabel where
  | call (n : Nat) (c : SendCall)
  | lock (n : Nat)
  | /-- The endpoint reads `k` more bytes of the slice. -/
    read (n k : Nat)
  | /-- The endpoint is done. -/
    answer (n : Nat) (r : Except SendError Unit)
  | drop (n : Nat)

namespace Transmitter

variable (w : Transmitter)

/-- Call `n` stands at `pc`. -/
def put (n : Nat) (c : SendCall) (pc : SendPc) : Transmitter :=
  { w with tasks := Function.update w.tasks n (some ⟨c, pc⟩) }

/-- The code from the lock to the endpoint; an error returns, and so gives the lock back. -/
def onLock (n : Nat) (c : SendCall) : Transmitter :=
  match encodeCapnpIntoBuf c.id c.value w.buf with
  | (.error e, buf) => { w with buf }.put n c (.returned (.error e))
  | (.ok len, buf) =>
      { w with buf, holder := some n, locks := w.locks ++ [n] }.put n c (.sending len [])

/-- The endpoint reads on. -/
def onRead (n : Nat) (c : SendCall) (len : Nat) (out : Bytes) (k : Nat) : Option Transmitter :=
  if 0 < k ∧ out.length + k ≤ len then
    let out' := out ++ ((w.buf.take len).drop out.length).take k
    let sent := if out.length + k = len then [Pdu.mk n c.functional c.dest out'] else []
    some ({ w with wire := w.wire ++ sent }.put n c (.sending len out'))
  else none

/-- The call returns. -/
def finish (n : Nat) (c : SendCall) (r : Except ErrorKind Unit) : Transmitter :=
  { w with holder := none }.put n c (.returned r)

/-- One move. -/
def step : SendLabel → Option Transmitter
  | .call n c => if (w.tasks n).isSome then none else some (w.put n c .locking)
  | .lock n =>
      match w.tasks n with
      | some ⟨c, .locking⟩ => if w.holder = none then some (w.onLock n c) else none
      | _ => none
  | .read n k =>
      match w.tasks n with
      | some ⟨c, .sending len out⟩ => w.onRead n c len out k
      | _ => none
  | .answer n r =>
      match w.tasks n with
      | some ⟨c, .sending len out⟩ =>
          match r with
          | .ok _ => if out.length = len then some (w.finish n c (.ok ())) else none
          | .error e => some (w.finish n c (.error (mapIsotpSendError e)))
      | _ => none
  | .drop n =>
      match w.tasks n with
      | some ⟨c, .locking⟩ => some (w.put n c .dropped)
      | some ⟨c, .sending _ _⟩ => some ({ w with holder := none }.put n c .dropped)
      | _ => none

/-- The transmitter as a machine. -/
def machine : Machine Transmitter SendLabel where
  step := step

end Transmitter

/-! ## What is in the buffer -/

/-- The value has the encoding `body`, whatever was in the slice before. -/
structure Value.Encodes (v : Value) (body : Bytes) : Prop where
  length_le : body.length ≤ v.maxEncodedLen
  encode : ∀ out : Bytes, out.length = v.maxEncodedLen →
    (v.encode out).1 = .ok body.length ∧ (v.encode out).2.take body.length = body

/-- `payload` is what the call can put into a buffer of `size` bytes. -/
def SendCall.Payload (size : Nat) (c : SendCall) (payload : Bytes) : Prop :=
  ∃ old len buf, old.length = size ∧ encodeCapnpIntoBuf c.id c.value old = (.ok len, buf) ∧
    payload = buf.take len

section Encode

variable {id : UInt16} {v : Value} {buf buf' : Bytes}

theorem length_slot (h : headerLen + v.maxEncodedLen ≤ buf.length) :
    ((buf.drop headerLen).take v.maxEncodedLen).length = v.maxEncodedLen := by
  rw [List.length_take, List.length_drop]
  omega

/-- A buffer that is too small is left alone. -/
theorem encodeCapnpIntoBuf_small (h : buf.length < headerLen + v.maxEncodedLen) :
    encodeCapnpIntoBuf id v buf =
      (.error (.bufferTooSmall (headerLen + v.maxEncodedLen) buf.length), buf) := by
  rw [encodeCapnpIntoBuf]
  exact if_pos h

/-- The buffer keeps its length. -/
theorem length_encodeCapnpIntoBuf (id : UInt16) (v : Value) (buf : Bytes) :
    (encodeCapnpIntoBuf id v buf).2.length = buf.length := by
  rcases Nat.lt_or_ge buf.length (headerLen + v.maxEncodedLen) with hsmall | hfits
  · rw [encodeCapnpIntoBuf_small hsmall]
  · have hlen : (leBytes 2 id.toNat ++ ((v.encode ((buf.drop headerLen).take v.maxEncodedLen)).2 ++
        buf.drop (headerLen + v.maxEncodedLen))).length = buf.length := by
      simp only [List.length_append, length_leBytes, v.length_encode, length_slot hfits,
        List.length_drop]
      rw [headerLen] at hfits ⊢
      omega
    rw [encodeCapnpIntoBuf]
    simp only [if_neg (Nat.not_lt_of_le hfits)]
    split
    · exact hlen
    · split <;> exact hlen

/-- What a call that goes on to the endpoint has put into the buffer: its id, and what
`encode` has left in the slice behind. -/
theorem exists_of_encodeCapnpIntoBuf {len : Nat}
    (h : encodeCapnpIntoBuf id v buf = (.ok len, buf')) :
    headerLen + v.maxEncodedLen ≤ buf.length ∧ ∃ used ≤ v.maxEncodedLen, len = headerLen + used ∧
      (v.encode ((buf.drop headerLen).take v.maxEncodedLen)).1 = .ok used ∧
      buf'.take len = leBytes 2 id.toNat ++
        (v.encode ((buf.drop headerLen).take v.maxEncodedLen)).2.take used := by
  rcases Nat.lt_or_ge buf.length (headerLen + v.maxEncodedLen) with hsmall | hfits
  · rw [encodeCapnpIntoBuf_small hsmall] at h
    cases h
  · refine ⟨hfits, ?_⟩
    rw [encodeCapnpIntoBuf] at h
    simp only [if_neg (Nat.not_lt_of_le hfits)] at h
    have hout := v.length_encode ((buf.drop headerLen).take v.maxEncodedLen)
    rw [length_slot hfits] at hout
    split at h
    · cases h
    · next used hused =>
        split at h
        · cases h
        · next hle =>
            obtain ⟨hlen, rfl⟩ := Prod.mk.inj h
            obtain rfl := Except.ok.inj hlen
            have hle := Nat.le_of_not_lt hle
            refine ⟨used, hle, rfl, hused, ?_⟩
            rw [List.take_append, length_leBytes, List.take_of_length_le (by simp [headerLen]),
              show headerLen + used - 2 = used from Nat.add_sub_cancel_left 2 used,
              List.take_append_of_le_length (hout.symm ▸ hle)]

/-- The payload of a value that has an encoding. -/
theorem Value.Encodes.encodeCapnpIntoBuf {body : Bytes} (h : v.Encodes body) (id : UInt16)
    (hfits : headerLen + v.maxEncodedLen ≤ buf.length) :
    (encodeCapnpIntoBuf id v buf).1 = .ok (headerLen + body.length) := by
  rw [Bus.encodeCapnpIntoBuf]
  simp only [if_neg (Nat.not_lt_of_le hfits), (h.encode _ (length_slot hfits)).1,
    if_neg (Nat.not_lt_of_le h.length_le)]

end Encode

/-- The codec's view of the same function, which has the payload only. -/
theorem payload_eq_codec (id : UInt16) (v : Value) (buf : Bytes) :
    FileTransfer.encodeCapnpIntoBuf id v.maxEncodedLen
        (fun out ↦ some ((v.encode out).1.map fun used ↦ (used, (v.encode out).2))) buf =
      some ((encodeCapnpIntoBuf id v buf).1.map fun len ↦ (encodeCapnpIntoBuf id v buf).2.take len) := by
  rcases Nat.lt_or_ge buf.length (headerLen + v.maxEncodedLen) with hsmall | hfits
  · rw [encodeCapnpIntoBuf_small hsmall, FileTransfer.encodeCapnpIntoBuf]
    exact if_pos hsmall
  · have hheader : Capnp.splice buf 0 (leBytes 2 id.toNat) =
        leBytes 2 id.toNat ++ buf.drop headerLen := by
      rw [Capnp.splice, List.take_zero, List.nil_append, length_leBytes, Nat.zero_add]
      rfl
    have hdrop : (leBytes 2 id.toNat ++ buf.drop headerLen).drop headerLen = buf.drop headerLen :=
      List.drop_left' (length_leBytes 2 _)
    have hout := v.length_encode ((buf.drop headerLen).take v.maxEncodedLen)
    rw [length_slot hfits] at hout
    have hbody : Capnp.splice (leBytes 2 id.toNat ++ buf.drop headerLen) headerLen
          (v.encode ((buf.drop headerLen).take v.maxEncodedLen)).2 =
        leBytes 2 id.toNat ++ ((v.encode ((buf.drop headerLen).take v.maxEncodedLen)).2 ++
          buf.drop (headerLen + v.maxEncodedLen)) := by
      have htake : (leBytes 2 id.toNat ++ buf.drop headerLen).take headerLen = leBytes 2 id.toNat :=
        List.take_left' (length_leBytes 2 _)
      rw [Capnp.splice, htake, hout, ← List.drop_drop, hdrop, List.drop_drop]
    rw [FileTransfer.encodeCapnpIntoBuf, encodeCapnpIntoBuf]
    simp only [if_neg (Nat.not_lt_of_le hfits), hheader, hdrop]
    cases hr : (v.encode ((buf.drop headerLen).take v.maxEncodedLen)).1 with
    | error e => rfl
    | ok used =>
        simp only [Except.map, Option.map_some, Except.bind, hbody]
        split <;> rfl

namespace SendCall.Payload

variable {size : Nat} {c : SendCall} {payload : Bytes}

/-- A payload is decoded to the id of its call, and is no longer than its value may be. -/
theorem decodeWire (h : c.Payload size payload) :
    ∃ body, decodeWire payload = .ok ⟨c.id, body⟩ ∧ body.length ≤ c.value.maxEncodedLen := by
  obtain ⟨old, len, buf, -, hencode, rfl⟩ := h
  obtain ⟨-, used, hused, -, -, htake⟩ := exists_of_encodeCapnpIntoBuf hencode
  refine ⟨_, by rw [htake, FileTransfer.decodeWire_payload], ?_⟩
  exact (List.length_take_le _ _).trans hused

/-- What a value with an encoding is sent as. -/
theorem eq_of_encodes (h : c.Payload size payload) {body : Bytes} (hbody : c.value.Encodes body) :
    payload = leBytes 2 c.id.toNat ++ body := by
  obtain ⟨old, len, buf, -, hencode, rfl⟩ := h
  obtain ⟨hfits, used, -, -, hused, htake⟩ := exists_of_encodeCapnpIntoBuf hencode
  obtain ⟨hlen, hout⟩ := hbody.encode _ (length_slot hfits)
  obtain rfl := Except.ok.inj (hused.symm.trans hlen)
  rw [htake, hout]

/-- What is decoded from the payload of such a value. -/
theorem body_eq (h : c.Payload size payload) {body : Bytes} (hbody : c.value.Encodes body)
    {raw : RawMessage} (hraw : Bus.decodeWire payload = .ok raw) : raw.body = body := by
  rw [h.eq_of_encodes hbody, FileTransfer.decodeWire_payload] at hraw
  rw [← Except.ok.inj hraw]

end SendCall.Payload

namespace Transmitter

variable {w w' : Transmitter} {n : Nat} {size : Nat}

/-! ## What a move can do -/

/-- The moves there are. -/
inductive Moves (w : Transmitter) (n : Nat) : Transmitter → Prop
  | called (c : SendCall) (hnew : w.tasks n = none) : Moves w n (w.put n c .locking)
  | refused (c : SendCall) (e : ErrorKind) (buf : Bytes) (ht : w.tasks n = some ⟨c, .locking⟩)
      (hfree : w.holder = none) (hencode : encodeCapnpIntoBuf c.id c.value w.buf = (.error e, buf)) :
      Moves w n ({ w with buf }.put n c (.returned (.error e)))
  | locked (c : SendCall) (len : Nat) (buf : Bytes) (ht : w.tasks n = some ⟨c, .locking⟩)
      (hfree : w.holder = none) (hencode : encodeCapnpIntoBuf c.id c.value w.buf = (.ok len, buf)) :
      Moves w n ({ w with buf, holder := some n, locks := w.locks ++ [n] }.put n c (.sending len []))
  | read (c : SendCall) (len k : Nat) (out : Bytes) (sent : List Pdu)
      (ht : w.tasks n = some ⟨c, .sending len out⟩) (hk : 0 < k) (hlen : out.length + k ≤ len)
      (hsent : sent = if out.length + k = len then
        [Pdu.mk n c.functional c.dest (out ++ ((w.buf.take len).drop out.length).take k)] else []) :
      Moves w n ({ w with wire := w.wire ++ sent }.put n c
        (.sending len (out ++ ((w.buf.take len).drop out.length).take k)))
  | answered (c : SendCall) (len : Nat) (out : Bytes) (r : Except SendError Unit)
      (ht : w.tasks n = some ⟨c, .sending len out⟩) (hr : r = .ok () → out.length = len) :
      Moves w n (w.finish n c (r.mapError mapIsotpSendError))
  | dropLocking (c : SendCall) (ht : w.tasks n = some ⟨c, .locking⟩) : Moves w n (w.put n c .dropped)
  | dropSending (c : SendCall) (len : Nat) (out : Bytes)
      (ht : w.tasks n = some ⟨c, .sending len out⟩) :
      Moves w n ({ w with holder := none }.put n c .dropped)

theorem moves_onLock {c : SendCall} (ht : w.tasks n = some ⟨c, .locking⟩) (hfree : w.holder = none) :
    Moves w n (w.onLock n c) := by
  unfold onLock
  split
  · next e buf hencode => exact .refused c e buf ht hfree hencode
  · next len buf hencode => exact .locked c len buf ht hfree hencode

theorem moves_of_step {l : SendLabel} (h : w.step l = some w') : ∃ n, Moves w n w' := by
  cases l with
  | call n c =>
      simp only [step, Option.ite_none_left_eq_some, Option.some.injEq] at h
      obtain ⟨hnew, rfl⟩ := h
      exact ⟨n, .called c (Option.not_isSome_iff_eq_none.mp hnew)⟩
  | lock n =>
      simp only [step] at h
      split at h
      · next c ht =>
          obtain ⟨hfree, rfl⟩ := Option.ite_none_right_eq_some.mp h |>.imp_right Option.some.inj
          exact ⟨n, moves_onLock ht hfree⟩
      · cases h
  | read n k =>
      simp only [step] at h
      split at h
      · next c len out ht =>
          obtain ⟨⟨hk, hlen⟩, rfl⟩ := Option.ite_none_right_eq_some.mp h |>.imp_right Option.some.inj
          exact ⟨n, .read c len k out _ ht hk hlen rfl⟩
      · cases h
  | answer n r =>
      simp only [step] at h
      split at h
      · next c len out ht =>
          cases r with
          | ok u =>
              obtain ⟨hlen, rfl⟩ := Option.ite_none_right_eq_some.mp h |>.imp_right Option.some.inj
              exact ⟨n, .answered c len out (.ok ()) ht fun _ ↦ hlen⟩
          | error e =>
              obtain rfl := Option.some.inj h
              exact ⟨n, .answered c len out (.error e) ht nofun⟩
      · cases h
  | drop n =>
      simp only [step] at h
      split at h
      · next c ht =>
          obtain rfl := Option.some.inj h
          exact ⟨n, .dropLocking c ht⟩
      · next c len out ht =>
          obtain rfl := Option.some.inj h
          exact ⟨n, .dropSending c len out ht⟩
      · cases h

/-! ## The invariant -/

/-- Why a call has returned what it has returned. -/
inductive Outcome (size : Nat) (w : Transmitter) (n : Nat) (c : SendCall) :
    Except ErrorKind Unit → Prop
  | /-- Its value was not encoded, and the endpoint never saw it. -/
    refused (old : Bytes) (e : ErrorKind) (hold : old.length = size)
      (hencode : (encodeCapnpIntoBuf c.id c.value old).1 = .error e) (hn : n ∉ w.locks) :
      Outcome size w n c (.error e)
  | /-- Its payload is on the wire. -/
    sent (hn : n ∈ w.wire.map Pdu.call) : Outcome size w n c (.ok ())
  | /-- The endpoint has failed. -/
    failed (e : SendError) (hn : n ∈ w.locks) : Outcome size w n c (.error (mapIsotpSendError e))

theorem Outcome.mono {c : SendCall} {r : Except ErrorKind Unit} (h : Outcome size w n c r)
    (hlocks : w.locks ⊆ w'.locks) (hback : n ∈ w'.locks → n ∈ w.locks) (hwire : w.wire ⊆ w'.wire) :
    Outcome size w' n c r := by
  cases h with
  | refused old e hold hencode hn => exact .refused old e hold hencode fun h ↦ hn (hback h)
  | sent hn => exact .sent (List.map_subset _ hwire hn)
  | failed e hn => exact .failed e (hlocks hn)

/-- The call `n` has the lock, and the endpoint reads its payload. -/
structure Held (size : Nat) (w : Transmitter) (n : Nat) (c : SendCall) (len : Nat) (out : Bytes) :
    Prop where
  holder : w.holder = some n
  len_le : len ≤ size
  /-- The payload is in the buffer, -/
  payload : c.Payload size (w.buf.take len)
  /-- and what was read of it is its beginning. -/
  out_eq : out = w.buf.take out.length
  out_le : out.length ≤ len
  /-- The call has the lock since the last time it was taken, and its payload is on the wire
  if all of it was read. -/
  last : ∃ before, w.locks = before ++ [n] ∧ (out.length = len → n ∈ w.wire.map Pdu.call) ∧
    (out.length < len → (w.wire.map Pdu.call).Sublist before)

/-- **The invariant**: the buffer belongs to the call that has the lock. -/
structure Inv (size : Nat) (w : Transmitter) : Prop where
  size_eq : w.buf.length = size
  held : ∀ n c len out, w.tasks n = some ⟨c, .sending len out⟩ → Held size w n c len out
  holder : ∀ n, w.holder = some n → ∃ c len out, w.tasks n = some ⟨c, .sending len out⟩
  locked : ∀ n ∈ w.locks, ∃ t, w.tasks n = some t ∧ t.pc ≠ .locking ∧
    headerLen + t.call.value.maxEncodedLen ≤ size
  nodup : w.locks.Nodup
  order : (w.wire.map Pdu.call).Sublist w.locks
  whole : ∀ p ∈ w.wire, ∃ t, w.tasks p.call = some t ∧ p.functional = t.call.functional ∧
    p.dest = t.call.dest ∧ t.call.Payload size p.payload
  outcome : ∀ n c r, w.tasks n = some ⟨c, .returned r⟩ → Outcome size w n c r

theorem Inv.init (buf : Bytes) : Inv buf.length { buf } :=
  ⟨rfl, nofun, nofun, nofun, .nil, .slnil, nofun, nofun⟩

theorem Inv.not_mem_of_locking (hi : Inv size w) {c : SendCall}
    (ht : w.tasks n = some ⟨c, .locking⟩) : n ∉ w.locks := by
  intro hn
  obtain ⟨t, ht', hpc, -⟩ := hi.locked n hn
  obtain rfl := Option.some.inj (ht.symm.trans ht')
  exact hpc rfl

/-- Two calls do not have the lock at once. -/
theorem Inv.sending_unique (hi : Inv size w) {m : Nat} {c c' : SendCall} {len len' : Nat}
    {out out' : Bytes} (hn : w.tasks n = some ⟨c, .sending len out⟩)
    (hm : w.tasks m = some ⟨c', .sending len' out'⟩) : m = n :=
  Option.some.inj ((hi.held m _ _ _ hm).holder.symm.trans (hi.held n _ _ _ hn).holder)

/-- Nobody reads the buffer while the lock is free. -/
theorem Inv.overwrite (hi : Inv size w) (hfree : w.holder = none) {buf : Bytes}
    (hbuf : buf.length = size) : Inv size { w with buf } := by
  refine { hi with size_eq := hbuf, held := ?_, outcome := ?_ }
  · intro n c len out ht
    exact nomatch hfree.symm.trans (hi.held n c len out ht).holder
  · intro n c r ht
    exact (hi.outcome n c r ht).mono (fun _ h ↦ h) id fun _ h ↦ h

/-- A call that has not gone on to the endpoint moves. -/
theorem Inv.idle (hi : Inv size w) (hn : n ∉ w.locks) {c : SendCall} {pc : SendPc}
    (hpc : ∀ len out, pc ≠ .sending len out)
    (hr : ∀ r, pc = .returned r → Outcome size (w.put n c pc) n c r) : Inv size (w.put n c pc) := by
  -- the calls that have gone on stand where they stood
  have hstay : ∀ m ∈ w.locks, (w.put n c pc).tasks m = w.tasks m := by
    intro m hm
    exact Function.update_of_ne (ne_of_mem_of_not_mem hm hn) _ _
  constructor
  case size_eq => exact hi.size_eq
  case held =>
    intro m c' len out ht
    rcases Machine.update_cases ht with ⟨-, heq⟩ | ⟨-, ht⟩
    · exact absurd (congrArg SendTask.pc heq).symm (hpc len out)
    · obtain ⟨h₁, h₂, h₃, h₄, h₅, h₆⟩ := hi.held m c' len out ht
      exact ⟨h₁, h₂, h₃, h₄, h₅, h₆⟩
  case holder =>
    intro m hm
    obtain ⟨c', len, out, ht⟩ := hi.holder m hm
    obtain ⟨before, hbefore, -⟩ := (hi.held m c' len out ht).last
    refine ⟨c', len, out, (hstay m ?_).trans ht⟩
    rw [hbefore]
    exact List.mem_append_right _ List.mem_cons_self
  case locked =>
    intro m hm
    rw [hstay m hm]
    exact hi.locked m hm
  case nodup => exact hi.nodup
  case order => exact hi.order
  case whole =>
    intro p hp
    rw [hstay p.call (hi.order.subset (List.mem_map_of_mem hp))]
    exact hi.whole p hp
  case outcome =>
    intro m c' r ht
    rcases Machine.update_cases ht with ⟨rfl, heq⟩ | ⟨-, ht⟩
    · obtain ⟨rfl, hpc⟩ := SendTask.mk.inj heq
      exact hr r hpc.symm
    · exact (hi.outcome m c' r ht).mono (fun _ h ↦ h) id fun _ h ↦ h

/-- A call goes on to the endpoint. -/
theorem Inv.lock (hi : Inv size w) {c : SendCall} {len : Nat} (ht : w.tasks n = some ⟨c, .locking⟩)
    (hfree : w.holder = none) (hpos : 0 < len) (hlen : len ≤ size)
    (hfits : headerLen + c.value.maxEncodedLen ≤ size) (hpayload : c.Payload size (w.buf.take len)) :
    Inv size ({ w with holder := some n, locks := w.locks ++ [n] }.put n c (.sending len [])) := by
  have hn := hi.not_mem_of_locking ht
  constructor
  case size_eq => exact hi.size_eq
  case held =>
    intro m c' len' out ht'
    rcases Machine.update_cases ht' with ⟨rfl, heq⟩ | ⟨-, ht'⟩
    · obtain ⟨rfl, hpc⟩ := SendTask.mk.inj heq
      obtain ⟨rfl, rfl⟩ := SendPc.sending.inj hpc
      exact ⟨rfl, hlen, hpayload, rfl, Nat.zero_le _, w.locks, rfl,
        fun h ↦ absurd h (Nat.ne_of_lt hpos), fun _ ↦ hi.order⟩
    · exact nomatch hfree.symm.trans (hi.held m c' len' out ht').holder
  case holder =>
    intro m hm
    obtain rfl := Option.some.inj hm
    exact ⟨c, len, [], Function.update_self _ _ _⟩
  case locked =>
    intro m hm
    rcases List.mem_append.mp hm with hm | hm
    · obtain ⟨t, ht', hpc⟩ := hi.locked m hm
      exact ⟨t, (Function.update_of_ne (ne_of_mem_of_not_mem hm hn) _ _).trans ht', hpc⟩
    · obtain rfl := List.mem_singleton.mp hm
      exact ⟨_, Function.update_self _ _ _, nofun, hfits⟩
  case nodup => exact List.nodup_append_comm.mpr (List.nodup_cons.mpr ⟨hn, hi.nodup⟩)
  case order => exact hi.order.trans (List.sublist_append_left _ _)
  case whole =>
    intro p hp
    obtain ⟨t, ht', hp'⟩ := hi.whole p hp
    have hne := ne_of_mem_of_not_mem (hi.order.subset (List.mem_map_of_mem hp)) hn
    exact ⟨t, (Function.update_of_ne hne _ _).trans ht', hp'⟩
  case outcome =>
    intro m c' r ht'
    rcases Machine.update_cases ht' with ⟨rfl, heq⟩ | ⟨hne, ht'⟩
    · cases heq
    · refine (hi.outcome m c' r ht').mono (fun _ h ↦ List.mem_append_left _ h) ?_ fun _ h ↦ h
      intro hm
      rcases List.mem_append.mp hm with hm | hm
      · exact hm
      · exact absurd (List.mem_singleton.mp hm) hne

/-- The endpoint reads on in the slice, which has not changed since the call was given the
lock. -/
theorem Inv.read (hi : Inv size w) {c : SendCall} {len k : Nat} {out : Bytes} {sent : List Pdu}
    (ht : w.tasks n = some ⟨c, .sending len out⟩) (hk : 0 < k) (hlen : out.length + k ≤ len)
    (hsent : sent = if out.length + k = len then
      [Pdu.mk n c.functional c.dest (out ++ ((w.buf.take len).drop out.length).take k)] else []) :
    Inv size ({ w with wire := w.wire ++ sent }.put n c
      (.sending len (out ++ ((w.buf.take len).drop out.length).take k))) := by
  obtain ⟨hholder, hsize, hpayload, hout, hle, before, hbefore, -, hopen⟩ := hi.held n c len out ht
  have hwire := hopen (by omega)
  have hread : out ++ ((w.buf.take len).drop out.length).take k = w.buf.take (out.length + k) := by
    rw [List.drop_take, List.take_take, Nat.min_eq_left (by omega), List.take_add, ← hout]
  have hlength : (w.buf.take (out.length + k)).length = out.length + k := by
    rw [List.length_take, hi.size_eq]
    omega
  rw [hread] at hsent ⊢
  have hn : n ∈ w.locks := hbefore ▸ List.mem_append_right _ List.mem_cons_self
  have hmap : (w.wire ++ sent).map Pdu.call =
      w.wire.map Pdu.call ++ if out.length + k = len then [n] else [] := by
    rw [List.map_append, hsent]
    split <;> rfl
  have hstay : ∀ m t, w.tasks m = some t → ∃ t', Function.update w.tasks n
      (some ⟨c, .sending len (w.buf.take (out.length + k))⟩) m = some t' ∧ t'.call = t.call ∧
      (t.pc ≠ .locking → t'.pc ≠ .locking) := by
    intro m t hm
    by_cases hmn : m = n
    · obtain rfl := hmn
      obtain rfl := Option.some.inj (ht.symm.trans hm)
      exact ⟨_, Function.update_self _ _ _, rfl, fun _ ↦ nofun⟩
    · exact ⟨t, (Function.update_of_ne hmn _ _).trans hm, rfl, id⟩
  constructor
  case size_eq => exact hi.size_eq
  case held =>
    intro m c' len' out' ht'
    rcases Machine.update_cases ht' with ⟨rfl, heq⟩ | ⟨hne, ht'⟩
    · obtain ⟨rfl, hpc⟩ := SendTask.mk.inj heq
      obtain ⟨rfl, rfl⟩ := SendPc.sending.inj hpc
      refine ⟨hholder, hsize, hpayload, ?_, hlength.trans_le hlen, before, hbefore, ?_, ?_⟩
      · rw [hlength]
        rfl
      · intro heq
        show m ∈ (w.wire ++ sent).map Pdu.call
        rw [hmap, if_pos (hlength ▸ heq)]
        exact List.mem_append_right _ List.mem_cons_self
      · intro hlt
        show ((w.wire ++ sent).map Pdu.call).Sublist before
        rw [hmap, if_neg (Nat.ne_of_lt (hlength ▸ hlt)), List.append_nil]
        exact hwire
    · exact absurd (hi.sending_unique ht ht') hne
  case holder =>
    intro m hm
    obtain rfl := Option.some.inj (hholder.symm.trans hm)
    exact ⟨c, len, _, Function.update_self _ _ _⟩
  case locked =>
    intro m hm
    obtain ⟨t, htm, hpc, hfits⟩ := hi.locked m hm
    obtain ⟨t', ht', hcall, hpc'⟩ := hstay m t htm
    exact ⟨t', ht', hpc' hpc, hcall ▸ hfits⟩
  case nodup => exact hi.nodup
  case order =>
    show ((w.wire ++ sent).map Pdu.call).Sublist w.locks
    rw [hmap, hbefore]
    refine hwire.append ?_
    split
    · exact .refl _
    · exact List.nil_sublist _
  case whole =>
    intro p hp
    rcases List.mem_append.mp hp with hp | hp
    · obtain ⟨t, htp, hfun, hdest, hpay⟩ := hi.whole p hp
      obtain ⟨t', ht', hcall, -⟩ := hstay p.call t htp
      exact ⟨t', ht', hcall ▸ hfun, hcall ▸ hdest, hcall ▸ hpay⟩
    · rw [hsent] at hp
      split at hp
      · next heq =>
          obtain rfl := List.mem_singleton.mp hp
          refine ⟨_, Function.update_self _ _ _, rfl, rfl, ?_⟩
          rw [heq]
          exact hpayload
      · cases hp
  case outcome =>
    intro m c' r ht'
    rcases Machine.update_cases ht' with ⟨rfl, heq⟩ | ⟨-, ht'⟩
    · cases heq
    · exact (hi.outcome m c' r ht').mono (fun _ h ↦ h) id fun _ h ↦ List.mem_append_left _ h

/-- The call that has the lock gives it back. -/
theorem Inv.release (hi : Inv size w) {c : SendCall} {len : Nat} {out : Bytes} {pc : SendPc}
    (ht : w.tasks n = some ⟨c, .sending len out⟩) (hpc : ∀ len out, pc ≠ .sending len out)
    (hlocking : pc ≠ .locking)
    (hr : ∀ r, pc = .returned r → Outcome size ({ w with holder := none }.put n c pc) n c r) :
    Inv size ({ w with holder := none }.put n c pc) := by
  constructor
  case size_eq => exact hi.size_eq
  case held =>
    intro m c' len' out' ht'
    rcases Machine.update_cases ht' with ⟨-, heq⟩ | ⟨hne, ht'⟩
    · exact absurd (congrArg SendTask.pc heq).symm (hpc len' out')
    · exact absurd (hi.sending_unique ht ht') hne
  case holder => nofun
  case locked =>
    intro m hm
    by_cases hmn : m = n
    · obtain rfl := hmn
      obtain ⟨t, ht', -, hfits⟩ := hi.locked m hm
      obtain rfl := Option.some.inj (ht.symm.trans ht')
      exact ⟨_, Function.update_self _ _ _, hlocking, hfits⟩
    · obtain ⟨t, ht', hpc'⟩ := hi.locked m hm
      exact ⟨t, (Function.update_of_ne hmn _ _).trans ht', hpc'⟩
  case nodup => exact hi.nodup
  case order => exact hi.order
  case whole =>
    intro p hp
    obtain ⟨t, ht', hp'⟩ := hi.whole p hp
    by_cases hpn : p.call = n
    · rw [hpn] at ht' ⊢
      obtain rfl := Option.some.inj (ht.symm.trans ht')
      exact ⟨_, Function.update_self _ _ _, hp'⟩
    · exact ⟨t, (Function.update_of_ne hpn _ _).trans ht', hp'⟩
  case outcome =>
    intro m c' r ht'
    rcases Machine.update_cases ht' with ⟨rfl, heq⟩ | ⟨-, ht'⟩
    · obtain ⟨rfl, hpc'⟩ := SendTask.mk.inj heq
      exact hr r hpc'.symm
    · exact (hi.outcome m c' r ht').mono (fun _ h ↦ h) id fun _ h ↦ h

theorem Payload.of_encode {c : SendCall} {len : Nat} {buf : Bytes} (hsize : w.buf.length = size)
    (h : encodeCapnpIntoBuf c.id c.value w.buf = (.ok len, buf)) :
    0 < len ∧ len ≤ size ∧ headerLen + c.value.maxEncodedLen ≤ size ∧
      c.Payload size (buf.take len) := by
  obtain ⟨hfits, used, hused, rfl, -, -⟩ := exists_of_encodeCapnpIntoBuf h
  exact ⟨Nat.lt_of_lt_of_le (by decide) (Nat.le_add_right headerLen used), by omega, by omega,
    w.buf, _, buf, hsize, h, rfl⟩

/-- Every move keeps the invariant. -/
theorem Inv.moves (hi : Inv size w) (h : Moves w n w') : Inv size w' := by
  have hsize : ∀ {c : SendCall} {r : Except ErrorKind Nat} {buf : Bytes},
      encodeCapnpIntoBuf c.id c.value w.buf = (r, buf) → buf.length = size := by
    intro c r buf hencode
    have hlength := length_encodeCapnpIntoBuf c.id c.value w.buf
    rwa [hencode, hi.size_eq] at hlength
  cases h with
  | called c hnew =>
      refine hi.idle (fun hn ↦ ?_) nofun nofun
      obtain ⟨t, ht, -⟩ := hi.locked n hn
      exact nomatch hnew.symm.trans ht
  | refused c e buf ht hfree hencode =>
      have hn := hi.not_mem_of_locking ht
      refine (hi.overwrite hfree (hsize hencode)).idle hn nofun ?_
      rintro r ⟨⟩
      exact .refused w.buf e hi.size_eq (by rw [hencode]) hn
  | locked c len buf ht hfree hencode =>
      obtain ⟨hpos, hlen, hfits, hpayload⟩ := Payload.of_encode hi.size_eq hencode
      exact (hi.overwrite hfree (hsize hencode)).lock ht hfree hpos hlen hfits hpayload
  | read c len k out sent ht hk hlen hsent => exact hi.read ht hk hlen hsent
  | answered c len out r ht hr =>
      obtain ⟨-, -, -, -, -, before, hbefore, hwire, -⟩ := hi.held n c len out ht
      refine hi.release ht nofun nofun ?_
      rintro r' ⟨⟩
      cases r with
      | ok u => exact .sent (hwire (hr rfl))
      | error e => exact .failed e (hbefore ▸ List.mem_append_right _ List.mem_cons_self)
  | dropLocking c ht => exact hi.idle (hi.not_mem_of_locking ht) nofun nofun
  | dropSending c len out ht => exact hi.release ht nofun nofun nofun

theorem Inv.of_reachable {buf : Bytes} (h : machine.Reachable { buf } w) : Inv buf.length w := by
  refine h.invariant (.init buf) ?_
  intro a l b ha hs
  obtain ⟨n, hm⟩ := moves_of_step hs
  exact ha.moves hm

/-! ## The guarantees of the sending half -/

/-- What holds in every state `w` of a transmitter with a buffer of `size` bytes. -/
structure Guarantee (size : Nat) (w : Transmitter) : Prop where
  /-- A call that is with the endpoint has the lock, and what the endpoint has read is the
  beginning of its payload. -/
  reading : ∀ n c len out, w.tasks n = some ⟨c, .sending len out⟩ → w.holder = some n ∧
    ∃ payload, c.Payload size payload ∧ payload.length = len ∧ out <+: payload
  /-- Nobody keeps the lock who is not with the endpoint. -/
  released : ∀ n, w.holder = some n → ∃ c len out, w.tasks n = some ⟨c, .sending len out⟩
  /-- What is on the wire is what one call has encoded, for the destination of that call. -/
  whole : ∀ p ∈ w.wire, ∃ t, w.tasks p.call = some t ∧ p.functional = t.call.functional ∧
    p.dest = t.call.dest ∧ t.call.Payload size p.payload
  /-- It is the id and the body, if the value has an encoding. -/
  encoded : ∀ p ∈ w.wire, ∀ t body, w.tasks p.call = some t → t.call.value.Encodes body →
    p.payload = leBytes 2 t.call.id.toNat ++ body ∧ decodeWire p.payload = .ok ⟨t.call.id, body⟩
  /-- No call puts two payloads on the wire, and they are there in the order of the locks. -/
  order : w.locks.Nodup ∧ (w.wire.map Pdu.call).Sublist w.locks
  /-- A call returns for a reason. -/
  outcome : ∀ n c r, w.tasks n = some ⟨c, .returned r⟩ → Outcome size w n c r
  /-- A value that may not fit is refused before anything is sent. -/
  tooSmall : ∀ n c pc, w.tasks n = some ⟨c, pc⟩ → size < headerLen + c.value.maxEncodedLen →
    n ∉ w.locks ∧ ∀ r, pc = .returned r →
      r = .error (.bufferTooSmall (headerLen + c.value.maxEncodedLen) size)

theorem Inv.tooSmall (hi : Inv size w) {c : SendCall} {pc : SendPc} (ht : w.tasks n = some ⟨c, pc⟩)
    (hsmall : size < headerLen + c.value.maxEncodedLen) : n ∉ w.locks ∧ ∀ r, pc = .returned r →
      r = .error (.bufferTooSmall (headerLen + c.value.maxEncodedLen) size) := by
  have hn : n ∉ w.locks := by
    intro hn
    obtain ⟨t, ht', -, hfits⟩ := hi.locked n hn
    obtain rfl := Option.some.inj (ht.symm.trans ht')
    exact absurd hfits (Nat.not_le_of_lt hsmall)
  refine ⟨hn, ?_⟩
  rintro r rfl
  cases hi.outcome n c r ht with
  | refused old e hold hencode _ =>
      obtain rfl := hold
      rw [encodeCapnpIntoBuf_small hsmall] at hencode
      rw [← Except.error.inj hencode]
  | sent hsent => exact absurd (hi.order.subset hsent) hn
  | failed e hlocked => exact absurd hlocked hn

/-- **The sending half of an interface.**  However the calls are interleaved, and wherever
they fail or are dropped, what goes on the wire are whole payloads, each of one call. -/
theorem transmit_guarantee (buf : Bytes) (ls : List SendLabel) (w : Transmitter)
    (h : machine.exec { buf } ls = some w) : Guarantee buf.length w := by
  have hi := Inv.of_reachable ⟨ls, h⟩
  constructor
  case reading =>
    intro n c len out ht
    have hheld := hi.held n c len out ht
    refine ⟨hheld.holder, _, hheld.payload, ?_, ?_⟩
    · rw [List.length_take, hi.size_eq, Nat.min_eq_left hheld.len_le]
    · rw [hheld.out_eq]
      exact List.take_prefix_take_left hheld.out_le
  case released => exact hi.holder
  case whole => exact hi.whole
  case encoded =>
    intro p hp t body ht hbody
    obtain ⟨t', ht', -, -, hpayload⟩ := hi.whole p hp
    obtain rfl := Option.some.inj (ht.symm.trans ht')
    have heq := hpayload.eq_of_encodes hbody
    exact ⟨heq, by rw [heq, FileTransfer.decodeWire_payload]⟩
  case order => exact ⟨hi.nodup, hi.order⟩
  case outcome => exact hi.outcome
  case tooSmall => exact fun n c pc ht hsmall ↦ hi.tooSmall ht hsmall

/-- A value whose encoding is given. -/
def plain (body : Bytes) : Value where
  maxEncodedLen := body.length
  encode out := (.ok body.length, body.take out.length ++ out.drop body.length)
  length_encode out := by
    simp only [List.length_append, List.length_take, List.length_drop]
    omega

theorem plain_encodes (body : Bytes) : (plain body).Encodes body := by
  refine ⟨Nat.le_refl _, fun out hout ↦ ⟨rfl, ?_⟩⟩
  have hout : out.length = body.length := hout
  show (body.take out.length ++ out.drop body.length).take body.length = body
  rw [hout, List.take_length, List.take_left]

/-- Two calls at once: the second waits until the first was sent in two pieces, and is then
dropped halfway; a third has no room. -/
def interleaved : List SendLabel :=
  [.call 0 ⟨false, 0x22, 1, plain [7, 8]⟩, .call 1 ⟨false, 0x33, 2, plain [9]⟩, .lock 0, .read 0 3,
    .read 0 1, .answer 0 (.ok ()), .lock 1, .read 1 2, .call 2 ⟨true, 0xFF, 1, plain [1, 2, 3]⟩,
    .drop 1, .lock 2]

theorem transmit_guarantee_interleaved : ∃ w, machine.exec { buf := [0, 0, 0, 0] } interleaved = some w ∧
    w.wire = [⟨0, false, 0x22, [1, 0, 7, 8]⟩] ∧ w.locks = [0, 1] ∧ w.holder = none ∧
      Guarantee 4 w := by
  have hexec : machine.exec { buf := [0, 0, 0, 0] } interleaved =
      some { buf := _, holder := _, tasks := _, locks := _, wire := _ } := rfl
  exact ⟨_, hexec, by decide, by decide, by decide, transmit_guarantee _ interleaved _ hexec⟩

end Transmitter

end Thincan.Bus

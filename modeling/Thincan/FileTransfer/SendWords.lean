import Thincan.FileTransfer.SendWork
import Thincan.Process.Slice

/-!
# The sender in machine words

`send_file_with_id_impl` once more, with every addition, subtraction, conversion and slice
of its loops as the machine does them.  `usize` has 32 or 64 bits.  What does not come out is
a `Fault` and ends the call: a panic for an addition that overflows, a division by zero or a
slice out of range; `other_error` for a conversion or a `checked_add` that fails.

Where there is no fault the call is that of `Thincan.FileTransfer.Sender` (`run_of_words`), and
there is none where the sums fit at each await point (`Fits`, `run_ok`).  That they do is a
question about the arguments: `Thincan.FileTransfer.SendFaults`.
-/

namespace Thincan.FileTransfer.Words

open Process

/-- What the arithmetic of the loops can run into. -/
inductive Fault where
  | overflow
  | divideByZero
  | sliceRange
  | conversion
  | checkedAdd
deriving DecidableEq, Repr

/-- `a + b` of `usize`. -/
def usizeAdd (w : UsizeWidth) (a b : Nat) : Except Fault Nat :=
  if a + b < 2 ^ w.bits then .ok (a + b) else .error .overflow

/-- `a - b` of `u32`. -/
def u32Sub (a b : UInt32) : Except Fault UInt32 :=
  if b ≤ a then .ok (a - b) else .error .overflow

/-- `a.div_ceil(b)`. -/
def divCeil (a b : Nat) : Except Fault Nat :=
  if b = 0 then .error .divideByZero else .ok (a ⌈/⌉ b)

/-- A fallible conversion, or `other_error`. -/
def converted {α : Type} : Except ErrorKind α → Except Fault α
  | .ok a => .ok a
  | .error _ => .error .conversion

/-! ## The code -/

/-- `inflight_chunk_count`. -/
def inflightChunkCount (w : UsizeWidth) (lastAcked nextToSend : UInt32) (chunkSize : Nat) :
    Except Fault Nat :=
  if nextToSend ≤ lastAcked then .ok 0
  else do
    let distance ← u32Sub nextToSend lastAcked
    let outstanding ← converted (usizeTryFrom w distance)
    divCeil outstanding chunkSize

variable (x : SendCall)

/-- `&bytes[offset..end]`. -/
def chunkData (v : SendVars) : Except Fault Bytes := do
  let offset := v.nextToSend.toNat
  let stop ← usizeAdd x.usize offset v.chunkSize
  match slice x.bytes offset (min stop x.totalLen) with
  | some data => .ok data
  | none => .error .sliceRange

/-- The conditions of the two `while` loops, and the slice of the next chunk. -/
def dataLoop (v : SendVars) : Except Fault SendPc :=
  if v.lastAcked.toNat < x.totalLen then do
    let inflight ← inflightChunkCount x.usize v.lastAcked v.nextToSend v.chunkSize
    if inflight < x.config.windowChunks ∧ v.nextToSend.toNat < x.totalLen then
      let _ ← chunkData x v
      return .chunkSend v
    else return .ackWait v
  else .ok (.done (.ok (x.result v)))

/-- After the offer was accepted. -/
def onAccept (accept : Ack) : Except Fault SendPc := do
  let chunkSize ← converted (usizeTryFrom x.usize accept.chunkSize)
  if chunkSize = 0 ∨ chunkSize > x.config.senderMaxChunkSize then return .done (.error .other)
  else dataLoop x { chunkSize }

/-- After the wait of the offer loop. -/
def onOfferAck (offerRetries : Nat) : Option (Except ErrorKind Ack) → Except Fault SendPc
  | none => .ok (.offerWait offerRetries)
  | some (.error e) =>
      if e = .timeout then do
        let offerRetries ← usizeAdd x.usize offerRetries 1
        if offerRetries > x.config.maxRetries then return .done (.error e)
        else return .offerSend offerRetries
      else .ok (.done (.error e))
  | some (.ok ack) =>
      match ack.kind with
      | .accept => onAccept x ack
      | .reject | .abort => .ok (.done (.error .other))
      | .ack | .complete => .ok (.offerSend offerRetries)

/-- After the send of the inner loop. -/
def onChunkSent (v : SendVars) : SendOutcome → Except Fault SendPc
  | .failed kind _ => .ok (.done (.error kind))
  | .ok => do
      let data ← chunkData x v
      let len ← converted (u32TryFrom data.length)
      match v.nextToSend.checkedAdd len with
      | none => .error .checkedAdd
      | some next =>
          let chunksSent ← usizeAdd x.usize v.chunksSent 1
          dataLoop x { v with nextToSend := next, chunksSent }

/-- After a progress or completion acknowledgement. -/
def onProgress (v : SendVars) (ack : Ack) : Except Fault SendPc :=
  if x.ackRefused v ack.nextOffset then .ok (.done (.error .other))
  else
    let v' := { v with lastAcked := ack.nextOffset }
    if ack.kind = .complete then
      if v'.lastAcked.toNat ≠ x.totalLen then .ok (.done (.error .other))
      else .ok (.done (.ok (x.result v')))
    else dataLoop x v'

/-- After the wait of the data loop. -/
def onAck (v : SendVars) : Option (Except ErrorKind Ack) → Except Fault SendPc
  | none => .ok (.ackWait v)
  | some (.error e) =>
      if e = .timeout then do
        let retries ← usizeAdd x.usize v.retries 1
        if retries > x.config.maxRetries then return .done (.error e)
        else dataLoop x { v with retries, nextToSend := v.lastAcked }
      else .ok (.done (.error e))
  | some (.ok ack) =>
      match ack.kind with
      | .ack | .complete => onProgress x v ack
      | .reject | .abort => .ok (.done (.error .other))
      | .accept => dataLoop x v

/-- `send_file_with_id_impl`. -/
def sendFileWithId (sha256 : Bytes → Digest) (x : SendCall) :
    Coroutine (Except Fault SendPc) SendReq SendResp where
  request
    | .ok s => (FileTransfer.sendFileWithId sha256 x).request s
    | .error _ => none
  resume
    | .ok (.offerSend n), .sent outcome => some (.ok (onOfferSent n outcome))
    | .ok (.offerWait n), .ack arrival =>
        some (onOfferAck x n (waitForTransferAck x.transferId arrival))
    | .ok (.chunkSend v), .sent outcome => some (onChunkSent x v outcome)
    | .ok (.ackWait v), .ack arrival => some (onAck x v (waitForTransferAck x.transferId arrival))
    | _, _ => none

/-! ## Without a fault it is the same call -/

/-- Where the words come out, they are the value `b`. -/
inductive Refines {α : Type} : Except Fault α → α → Prop
  | ok (a : α) : Refines (.ok a) a
  | error (f : Fault) (b : α) : Refines (.error f) b

theorem Refines.eq {α : Type} {a b : α} (h : Refines (.ok a) b) : a = b := by
  cases h
  rfl

theorem Refines.bind {α β : Type} {m : Except Fault α} {k : α → Except Fault β} {a : α} {b : β}
    (hm : Refines m a) (hk : Refines (k a) b) : Refines (m >>= k) b := by
  cases hm with
  | ok => exact hk
  | error f => exact .error f b

theorem Refines.ite {α : Type} {p : Prop} [Decidable p] {m m' : Except Fault α} {a a' : α}
    (h : p → Refines m a) (h' : ¬p → Refines m' a') :
    Refines (if p then m else m') (if p then a else a') := by
  by_cases hp : p
  · rw [if_pos hp, if_pos hp]
    exact h hp
  · rw [if_neg hp, if_neg hp]
    exact h' hp

theorem usizeAdd_refines (w : UsizeWidth) (a b : Nat) : Refines (usizeAdd w a b) (a + b) := by
  unfold usizeAdd
  split
  · exact .ok _
  · exact .error _ _

theorem ok_bind {α β : Type} (a : α) (k : α → Except Fault β) : (Except.ok a >>= k) = k a := rfl

/-- The subtraction is guarded, so that only the division could fail. -/
theorem inflightChunkCount_eq_converted (w : UsizeWidth) (a n : UInt32) {c : Nat} (hc : 0 < c) :
    inflightChunkCount w a n c = converted (FileTransfer.inflightChunkCount w a n c) := by
  unfold inflightChunkCount FileTransfer.inflightChunkCount
  split
  · rfl
  · next h =>
      have hle : a ≤ n := (UInt32.le_total a n).resolve_right h
      rw [u32Sub, if_pos hle, usizeTryFrom_eq_ok]
      change (converted (usizeTryFrom w (n - a)) >>= fun outstanding ↦ divCeil outstanding c) = _
      rw [usizeTryFrom_eq_ok]
      exact if_neg (Nat.pos_iff_ne_zero.mp hc)

/-- The count never fails: the subtraction is guarded and the chunk size is not zero. -/
theorem inflightChunkCount_eq (w : UsizeWidth) (a n : UInt32) {c : Nat} (hc : 0 < c) :
    inflightChunkCount w a n c = .ok ((n.toNat - a.toNat) ⌈/⌉ c) := by
  rw [inflightChunkCount_eq_converted w a n hc, FileTransfer.inflightChunkCount_eq_ok]
  rfl

theorem inflightChunkCount_refines (w : UsizeWidth) (a n : UInt32) (c : Nat) :
    Refines (inflightChunkCount w a n c) ((n.toNat - a.toNat) ⌈/⌉ c) := by
  rcases Nat.eq_zero_or_pos c with rfl | hc
  · unfold inflightChunkCount
    rw [ceilDiv_zero]
    split
    · exact .ok 0
    · exact .bind (a := n - a) (by unfold u32Sub; split <;> first | exact .ok _ | exact .error _ _)
        (by rw [usizeTryFrom_eq_ok]; exact .error _ _)
  · rw [inflightChunkCount_eq w a n hc]
    exact .ok _

variable {x} {v : SendVars}

theorem chunkData_refines (x : SendCall) (v : SendVars) : Refines (chunkData x v) (x.chunkData v) := by
  apply Refines.bind (usizeAdd_refines ..)
  split
  · next data h =>
      unfold slice at h
      split at h
      · obtain rfl := Option.some.inj h
        rw [List.drop_take]
        exact .ok _
      · cases h
  · exact .error _ _

theorem dataLoop_refines (x : SendCall) (v : SendVars) : Refines (dataLoop x v) (x.dataLoop v) := by
  unfold dataLoop SendCall.dataLoop
  rw [FileTransfer.inflightChunkCount_eq_ok]
  apply Refines.ite
  · intro _
    apply Refines.bind (inflightChunkCount_refines ..)
    apply Refines.ite
    · intro _
      exact .bind (chunkData_refines x v) (.ok _)
    · exact fun _ ↦ .ok _
  · exact fun _ ↦ .ok _

theorem onAccept_refines (x : SendCall) (accept : Ack) :
    Refines (onAccept x accept) (x.onAccept accept) := by
  rw [onAccept, SendCall.onAccept, usizeTryFrom_eq_ok]
  apply Refines.bind (Refines.ok _)
  apply Refines.ite
  · exact fun _ ↦ .ok _
  · exact fun _ ↦ dataLoop_refines x _

theorem onOfferAck_refines (x : SendCall) (n : Nat) (a : Option (Except ErrorKind Ack)) :
    Refines (onOfferAck x n a) (x.onOfferAck n a) := by
  rcases a with _ | e | ack
  · exact .ok _
  · apply Refines.ite
    · intro _
      apply Refines.bind (usizeAdd_refines ..)
      exact .ite (fun _ ↦ .ok _) fun _ ↦ .ok _
    · exact fun _ ↦ .ok _
  · obtain ⟨transferId, kind, nextOffset, chunkSize, error⟩ := ack
    cases kind with
    | accept => exact onAccept_refines x _
    | reject | abort | ack | complete => exact .ok _

theorem onChunkSent_refines (x : SendCall) (v : SendVars) (r : SendOutcome) :
    Refines (onChunkSent x v r) (x.onChunkSent v r) := by
  cases r with
  | failed kind handed => exact .ok _
  | ok =>
      unfold onChunkSent SendCall.onChunkSent
      apply Refines.bind (chunkData_refines x v)
      cases u32TryFrom (x.chunkData v).length with
      | error e => exact .error _ _
      | ok len =>
          apply Refines.bind (Refines.ok len)
          dsimp only
          cases v.nextToSend.checkedAdd len with
          | none => exact .error _ _
          | some next => exact .bind (usizeAdd_refines ..) (dataLoop_refines x _)

theorem onProgress_refines (x : SendCall) (v : SendVars) (ack : Ack) :
    Refines (onProgress x v ack) (x.onProgress v ack) := by
  apply Refines.ite
  · exact fun _ ↦ .ok _
  · intro _
    apply Refines.ite
    · exact fun _ ↦ .ite (fun _ ↦ .ok _) fun _ ↦ .ok _
    · exact fun _ ↦ dataLoop_refines x _

theorem onAck_refines (x : SendCall) (v : SendVars) (a : Option (Except ErrorKind Ack)) :
    Refines (onAck x v a) (x.onAck v a) := by
  rcases a with _ | e | ack
  · exact .ok _
  · apply Refines.ite
    · intro _
      apply Refines.bind (usizeAdd_refines ..)
      exact .ite (fun _ ↦ .ok _) fun _ ↦ dataLoop_refines x _
    · exact fun _ ↦ .ok _
  · obtain ⟨transferId, kind, nextOffset, chunkSize, error⟩ := ack
    cases kind with
    | accept => exact dataLoop_refines x _
    | reject | abort => exact .ok _
    | ack | complete => exact onProgress_refines x v _

/-- One step in words is a step of the model with unbounded numbers, or a fault. -/
theorem resume_refines {sha256 : Bytes → Digest} {s : SendPc} {r : SendResp} {t : Except Fault SendPc}
    (h : (sendFileWithId sha256 x).resume (.ok s) r = some t) :
    ∃ s', (FileTransfer.sendFileWithId sha256 x).resume s r = some s' ∧ Refines t s' := by
  cases s with
  | offerSend n =>
      cases r with
      | sent outcome =>
          obtain rfl := Option.some.inj h
          exact ⟨_, rfl, .ok _⟩
      | ack => cases h
  | offerWait n =>
      cases r with
      | sent => cases h
      | ack arrival =>
          obtain rfl := Option.some.inj h
          exact ⟨_, rfl, onOfferAck_refines x n _⟩
  | chunkSend v =>
      cases r with
      | sent outcome =>
          obtain rfl := Option.some.inj h
          exact ⟨_, rfl, onChunkSent_refines x v outcome⟩
      | ack => cases h
  | ackWait v =>
      cases r with
      | sent => cases h
      | ack arrival =>
          obtain rfl := Option.some.inj h
          exact ⟨_, rfl, onAck_refines x v _⟩
  | done => cases h

/-- **The words refine the numbers**: a call that has not run into a fault is the call of the
model with unbounded numbers. -/
theorem run_of_words {sha256 : Bytes → Digest} {hist : List SendEvent} {t : Except Fault SendPc}
    (hr : (sendFileWithId sha256 x).Run (.ok x.start) hist t) :
    ∀ s, t = .ok s → (FileTransfer.sendFileWithId sha256 x).Run x.start hist s := by
  induction hr with
  | nil =>
      intro s hs
      obtain rfl := Except.ok.inj hs
      exact .nil
  | @snoc hist t t' e hr hf ih =>
      rintro s' rfl
      obtain ⟨hq, -, hres⟩ := Coroutine.fire_eq_some.mp hf
      cases t with
      | error f => cases hq
      | ok s =>
          obtain ⟨s'', hplain, href⟩ := resume_refines hres
          obtain rfl := href.eq
          exact (ih s rfl).snoc (Coroutine.fire_eq_some.mpr ⟨hq, rfl, hplain⟩)

/-! ## When there is no fault -/

/-- The bytes can be in memory: a slice has at most `isize::MAX` bytes. -/
def OnPlatform (x : SendCall) : Prop := x.totalLen < 2 ^ (x.usize.bits - 1)

/-- The arguments leave room for the arithmetic of the loops. -/
structure Roomy (x : SendCall) : Prop where
  sums : x.usize = .bits64 ∨ x.config.maxRetries = 0 ∨
    x.totalLen + x.config.senderMaxChunkSize ≤ 2 ^ 32
  retries : x.config.maxRetries + 1 < 2 ^ x.usize.bits
  chunks : x.totalLen + x.config.maxRetries * min x.config.windowChunks x.totalLen < 2 ^ x.usize.bits

/-- Until the first timeout the cursor is at the start of a chunk. -/
def Aligned (x : SendCall) : SendPc → Prop
  | .chunkSend v | .ackWait v => v.retries = 0 → v.chunkSize ∣ v.nextToSend.toNat ∨
      v.nextToSend.toNat = x.totalLen
  | _ => True

theorem Aligned.dataLoop (h : v.retries = 0 → v.chunkSize ∣ v.nextToSend.toNat ∨
    v.nextToSend.toNat = x.totalLen) : Aligned x (x.dataLoop v) := by
  have hcase := x.dataLoop_case v
  generalize x.dataLoop v = s at hcase ⊢
  cases hcase with
  | finished => trivial
  | send | wait => exact h

theorem Aligned.step {sha256 : Bytes → Digest} {hist : List SendEvent} {s s' : SendPc} {e : SendEvent}
    (hi : SendInv x hist s) (h : Aligned x s) (ht : SendTransition sha256 x s e s') :
    Aligned x s' := by
  cases ht with
  | offerSent n r =>
      cases r with
      | ok => trivial
      | failed kind handed =>
          simp only [onOfferSent]
          split <;> trivial
  | offerAck n a =>
      have hcase := x.onOfferAck_case n a
      generalize x.onOfferAck n (waitForTransferAck x.transferId a) = s at hcase ⊢
      cases hcase with
      | accepted body ack hdecode hid hk hpos hle => exact Aligned.dataLoop fun _ ↦ .inl ⟨0, rfl⟩
      | foreign | timeout | exhausted | failed | refused | late | badSize => trivial
  | chunkSent v r =>
      obtain ⟨hx, hv, hacked, hnext⟩ := hi
      have hcase := hx.onChunkSent_case (Nat.le_of_lt hnext) r
      generalize x.onChunkSent v r = s at hcase ⊢
      cases hcase with
      | failed => trivial
      | ok n hn =>
          apply Aligned.dataLoop
          intro hr
          rcases h hr with hdvd | hend
          · change v.chunkSize ∣ n.toNat ∨ n.toNat = x.totalLen
            rcases Nat.le_total (v.nextToSend.toNat + v.chunkSize) x.totalLen with hle | hge
            · rw [hn, Nat.min_eq_left hle]
              exact .inl ((Nat.dvd_add_self_right).mpr hdvd)
            · rw [hn, Nat.min_eq_right hge]
              exact .inr rfl
          · exact absurd hend (Nat.ne_of_lt hnext)
  | ack v a =>
      have hcase := x.onAck_case v a
      generalize x.onAck v (waitForTransferAck x.transferId a) = s at hcase ⊢
      cases hcase with
      | foreign => exact h
      | timeout => exact Aligned.dataLoop fun hr ↦ absurd hr (Nat.succ_ne_zero _)
      | accept => exact Aligned.dataLoop h
      | progress => exact Aligned.dataLoop h
      | exhausted | failed | refused | invalid | complete => trivial

theorem Aligned.of_run {sha256 : Bytes → Digest} {hist : List SendEvent} {s : SendPc}
    (hr : (FileTransfer.sendFileWithId sha256 x).Run x.start hist s) : Aligned x s := by
  induction hr with
  | nil =>
      rcases x.start_eq with ⟨-, hs⟩ | ⟨-, hs⟩
      · rw [hs]
        trivial
      · rw [hs]
        trivial
  | snoc hr hf ih => exact ih.step (SendInv.of_run hr) (sender_fire hf)

theorem two_pow_le_bits (w : UsizeWidth) : 2 ^ 32 ≤ 2 ^ w.bits :=
  Nat.pow_le_pow_right (by decide) (by cases w <;> decide)

/-- The sum that can overflow, where it is formed. -/
theorem Roomy.sum_lt (hroom : Roomy x) (hp : OnPlatform x) (hx : x.Accepted) (hv : x.Cursors v)
    (hle : v.retries ≤ x.config.maxRetries) (halign : Aligned x (.chunkSend v))
    (hnext : v.nextToSend.toNat < x.totalLen) :
    v.nextToSend.toNat + v.chunkSize < 2 ^ x.usize.bits := by
  have hbits := two_pow_le_bits x.usize
  have hchunk := hv.chunk_le
  have htotal : x.totalLen < 2 ^ 32 := hx.total_lt
  have hmax : x.config.senderMaxChunkSize < 2 ^ 32 := hx.chunk_lt
  rcases hroom.sums with hw | hzero | hsum
  · rw [hw]
    calc
      v.nextToSend.toNat + v.chunkSize < 2 ^ 32 + 2 ^ 32 := by omega
      _ ≤ 2 ^ 64 := by decide
  · -- without timeouts a chunk starts at a multiple of its size
    have hr : v.retries = 0 := by omega
    rcases halign hr with ⟨k, hk⟩ | hend
    · cases hw : x.usize with
      | bits64 =>
          calc
            v.nextToSend.toNat + v.chunkSize < 2 ^ 32 + 2 ^ 32 := by omega
            _ ≤ 2 ^ 64 := by decide
      | bits32 =>
          have hp : x.totalLen < 2 ^ 31 := by
            rw [OnPlatform, hw] at hp
            exact hp
          rcases Nat.eq_zero_or_pos k with rfl | hpos
          · rw [Nat.mul_zero] at hk
            change _ < 2 ^ 32
            omega
          · have hsize : v.chunkSize ≤ v.nextToSend.toNat := hk ▸ Nat.le_mul_of_pos_right _ hpos
            change _ < 2 ^ 32
            omega
    · omega
  · omega

/-! ## No step runs into one -/

theorem usizeAdd_eq {w : UsizeWidth} {a b : Nat} (h : a + b < 2 ^ w.bits) :
    usizeAdd w a b = .ok (a + b) := if_pos h

theorem chunkData_eq (hnext : v.nextToSend.toNat ≤ x.totalLen)
    (hsum : v.nextToSend.toNat + v.chunkSize < 2 ^ x.usize.bits) :
    chunkData x v = .ok (x.chunkData v) := by
  have hlo : v.nextToSend.toNat ≤ min (v.nextToSend.toNat + v.chunkSize) x.totalLen :=
    Nat.le_min.mpr ⟨Nat.le_add_right .., hnext⟩
  have hslice := slice_eq hlo (Nat.min_le_right _ x.totalLen)
  change (usizeAdd x.usize v.nextToSend.toNat v.chunkSize >>= fun stop ↦
    match slice x.bytes v.nextToSend.toNat (min stop x.totalLen) with
    | some data => .ok data
    | none => .error Fault.sliceRange) = _
  rw [usizeAdd_eq hsum]
  change (match slice x.bytes v.nextToSend.toNat
      (min (v.nextToSend.toNat + v.chunkSize) x.totalLen) with
    | some data => Except.ok data
    | none => .error Fault.sliceRange) = _
  rw [hslice]
  rfl

/-- The loop conditions, if the sum fits where a chunk is sent next. -/
theorem dataLoop_eq (hv : x.Cursors v) (hsum : x.dataLoop v = .chunkSend v →
    v.nextToSend.toNat + v.chunkSize < 2 ^ x.usize.bits) : dataLoop x v = .ok (x.dataLoop v) := by
  unfold SendCall.dataLoop at hsum ⊢
  unfold dataLoop
  rw [inflightChunkCount_eq _ _ _ hv.chunk_pos]
  rw [FileTransfer.inflightChunkCount_eq_ok] at hsum ⊢
  split
  · next hlt =>
      rw [if_pos hlt] at hsum
      change (if _ ∧ _ then _ else _) = _
      dsimp only at hsum ⊢
      split
      · next hsend =>
          rw [if_pos hsend] at hsum
          rw [chunkData_eq (Nat.le_of_lt hsend.2) (hsum rfl)]
          rfl
      · rfl
  · rfl

section Steps

variable {sha256 : Bytes → Digest} {hist : List SendEvent}

/-- The sums a call forms at an await point fit, and so does the next chunk's if it goes to
send one. -/
def Fits (x : SendCall) : SendPc → Prop
  | .chunkSend v => v.nextToSend.toNat + v.chunkSize < 2 ^ x.usize.bits ∧
      v.chunksSent + 1 < 2 ^ x.usize.bits
  | .ackWait v => v.retries + 1 < 2 ^ x.usize.bits
  | .offerWait n => n + 1 < 2 ^ x.usize.bits
  | _ => True

theorem Fits.of_run (hroom : x.Accepted → Roomy x) (hp : OnPlatform x) {s : SendPc}
    (hr : (FileTransfer.sendFileWithId sha256 x).Run x.start hist s) : Fits x s := by
  have hi := SendInv.of_run hr
  have hw := WorkInv.of_run hr
  cases s with
  | offerSend | done => trivial
  | offerWait n =>
      have hretries := (hroom hi).retries
      have hle := hw.le
      change n + 1 < _
      omega
  | ackWait v =>
      have hretries := (hroom hi.1).retries
      have hle := Tally.retries_le hw
      change v.retries + 1 < _
      omega
  | chunkSend v =>
      obtain ⟨hx, hv, -, hnext⟩ := hi
      obtain ⟨htally, -⟩ := hw
      have hroom := hroom hx
      have hle := htally.retries_le
      refine ⟨hroom.sum_lt hp hx hv hle (Aligned.of_run hr) hnext, ?_⟩
      -- a chunk is still to be sent, so the bound on all of them leaves room for it
      have hleft := Chunking.ceilDiv_advance hv.chunk_pos hnext
      have hfile := Chunking.ceilDiv_le_self hv.chunk_pos x.totalLen
      have hwindows := Nat.mul_le_mul_right (min x.config.windowChunks x.totalLen) hle
      have hwork := htally.work
      have hchunks := hroom.chunks
      omega

theorem Fits.dataLoop (hv : x.Cursors v) (h : Fits x (x.dataLoop v)) :
    Words.dataLoop x v = .ok (x.dataLoop v) := by
  apply dataLoop_eq hv
  intro hs
  rw [hs] at h
  exact h.1

theorem onAccept_eq (x : SendCall) (accept : Ack) (h : Fits x (x.onAccept accept)) :
    onAccept x accept = .ok (x.onAccept accept) := by
  unfold SendCall.onAccept at h ⊢
  unfold onAccept
  rw [usizeTryFrom_eq_ok] at h ⊢
  change (if _ ∨ _ then _ else _) = _
  dsimp only at h ⊢
  split
  · rfl
  · next hsize =>
      rw [if_neg hsize] at h
      have hpos : 0 < accept.chunkSize.toNat := by omega
      have hle : accept.chunkSize.toNat ≤ x.config.senderMaxChunkSize := by omega
      exact h.dataLoop ⟨hpos, hle, Nat.le_refl _, Nat.zero_le _⟩

theorem onOfferAck_eq {n : Nat} (hn : Fits x (.offerWait n)) (a : Option (Except ErrorKind Ack))
    (h : Fits x (x.onOfferAck n a)) : onOfferAck x n a = .ok (x.onOfferAck n a) := by
  rcases a with _ | e | ack
  · rfl
  · unfold onOfferAck SendCall.onOfferAck
    dsimp only
    rw [usizeAdd_eq hn]
    split
    · change (if _ then _ else _) = _
      split <;> rfl
    · rfl
  · obtain ⟨transferId, kind, nextOffset, chunkSize, error⟩ := ack
    cases kind with
    | accept => exact onAccept_eq x _ h
    | reject | abort | ack | complete => rfl

theorem onChunkSent_eq (hx : x.Accepted) (hv : x.Cursors v) (hnext : v.nextToSend.toNat < x.totalLen)
    (hfit : Fits x (.chunkSend v)) (r : SendOutcome) (h : Fits x (x.onChunkSent v r)) :
    onChunkSent x v r = .ok (x.onChunkSent v r) := by
  cases r with
  | failed kind handed => rfl
  | ok =>
      have hlen := x.length_chunkData (Nat.le_of_lt hnext)
      have htotal := hx.total_lt
      have hlt : (x.chunkData v).length < UInt32.size := by omega
      have hsum : v.nextToSend.toNat + (UInt32.ofNat (x.chunkData v).length).toNat < UInt32.size := by
        rw [UInt32.toNat_ofNat_lt hlt]
        omega
      unfold SendCall.onChunkSent at h ⊢
      unfold onChunkSent
      simp only [u32TryFrom_eq_ok hlt, UInt32.checkedAdd_eq_some hsum] at h
      simp only [chunkData_eq (Nat.le_of_lt hnext) hfit.1, u32TryFrom_eq_ok hlt,
        UInt32.checkedAdd_eq_some hsum, usizeAdd_eq hfit.2, converted, ok_bind]
      apply h.dataLoop
      have hle := hv.acked_le
      have hn : (v.nextToSend + UInt32.ofNat (x.chunkData v).length).toNat =
          v.nextToSend.toNat + (x.chunkData v).length := by
        rw [UInt32.toNat_add_lt hsum, UInt32.toNat_ofNat_lt hlt]
      refine ⟨hv.chunk_pos, hv.chunk_le, ?_, ?_⟩
      · dsimp only
        omega
      · dsimp only
        omega

theorem onProgress_eq (hv : x.Cursors v) (ack : Ack) (h : Fits x (x.onProgress v ack)) :
    onProgress x v ack = .ok (x.onProgress v ack) := by
  unfold SendCall.onProgress at h ⊢
  unfold onProgress
  cases hrefused : x.ackRefused v ack.nextOffset with
  | true => rfl
  | false =>
      have hfits := SendCall.ackRefused_eq_false.mp hrefused
      simp only [hrefused, Bool.false_eq_true, if_false] at h ⊢
      split
      · split <;> rfl
      · next hk =>
          rw [if_neg hk] at h
          exact h.dataLoop ⟨hv.chunk_pos, hv.chunk_le, hfits.le_sent, hv.next_le⟩

theorem onAck_eq (hv : x.Cursors v) (hfit : Fits x (.ackWait v)) (a : Option (Except ErrorKind Ack))
    (h : Fits x (x.onAck v a)) : onAck x v a = .ok (x.onAck v a) := by
  rcases a with _ | e | ack
  · rfl
  · unfold SendCall.onAck at h ⊢
    unfold onAck
    dsimp only at h ⊢
    rw [usizeAdd_eq hfit]
    split
    · next he =>
        rw [if_pos he] at h
        change (if _ then _ else _) = _
        split
        · rfl
        · next hle =>
            rw [if_neg hle] at h
            exact h.dataLoop ⟨hv.chunk_pos, hv.chunk_le, Nat.le_refl _,
              Nat.le_trans hv.acked_le hv.next_le⟩
    · rfl
  · obtain ⟨transferId, kind, nextOffset, chunkSize, error⟩ := ack
    cases kind with
    | accept => exact h.dataLoop hv
    | reject | abort => rfl
    | ack | complete => exact onProgress_eq hv _ h

/-- A step between states whose sums fit. -/
theorem resume_eq {s s' : SendPc} {r : SendResp} (hi : SendInv x hist s) (hfit : Fits x s)
    (hres : (FileTransfer.sendFileWithId sha256 x).resume s r = some s') (hfit' : Fits x s') :
    (sendFileWithId sha256 x).resume (.ok s) r = some (.ok s') := by
  cases s with
  | offerSend n =>
      cases r with
      | sent outcome =>
          obtain rfl := Option.some.inj hres
          rfl
      | ack => cases hres
  | offerWait n =>
      cases r with
      | sent => cases hres
      | ack arrival =>
          obtain rfl := Option.some.inj hres
          exact congrArg some (onOfferAck_eq hfit _ hfit')
  | chunkSend v =>
      cases r with
      | sent outcome =>
          obtain rfl := Option.some.inj hres
          obtain ⟨hx, hv, -, hnext⟩ := hi
          exact congrArg some (onChunkSent_eq hx hv hnext hfit outcome hfit')
      | ack => cases hres
  | ackWait v =>
      cases r with
      | sent => cases hres
      | ack arrival =>
          obtain rfl := Option.some.inj hres
          exact congrArg some (onAck_eq hi.2.1 hfit _ hfit')
  | done => cases hres

end Steps

/-- A run with room has no fault, and a call that is refused does not need any. -/
theorem run_ok {sha256 : Bytes → Digest} {x : SendCall} (hp : OnPlatform x)
    (hroom : x.Accepted → Roomy x)
    {hist : List SendEvent} {t : Except Fault SendPc}
    (hr : (sendFileWithId sha256 x).Run (.ok x.start) hist t) : ∃ s, t = .ok s := by
  induction hr with
  | nil => exact ⟨_, rfl⟩
  | @snoc hist t t' e hr hf ih =>
      obtain ⟨s, rfl⟩ := ih
      have hplain := run_of_words hr s rfl
      obtain ⟨hq, -, hres⟩ := Coroutine.fire_eq_some.mp hf
      obtain ⟨s', hres', -⟩ := resume_refines hres
      have hplain' := hplain.snoc (Coroutine.fire_eq_some.mpr ⟨hq, rfl, hres'⟩)
      have hstep := resume_eq (SendInv.of_run hplain) (Fits.of_run hroom hp hplain) hres'
        (Fits.of_run hroom hp hplain')
      rw [hstep] at hres
      exact ⟨s', (Option.some.inj hres).symm⟩

end Thincan.FileTransfer.Words

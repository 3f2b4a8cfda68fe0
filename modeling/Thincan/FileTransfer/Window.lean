import Thincan.FileTransfer.Link
import Thincan.Process.Chunking

/-!
# The transfer in terms of chunk indices

Once a chunk size `c` is agreed on, every offset the two parties name is a chunk
boundary.  This module restates the code between await points in terms of chunk
indices: where the sender stands is a pair of indices, the acknowledged chunk and
the next one to send (`SendAt`), and where the receiver stands is the number of
chunks it has taken (`RecvAt`).

The window then is plain arithmetic on indices.  After every refill the sender
stands at `limit`, the end of the window that starts at the acknowledged chunk,
and that is why an acknowledgement that was sent before a rewind is still within
what the sender takes for sent when it looks at it.
-/

namespace Thincan.FileTransfer

open Process

variable {H E : Type}

namespace SendCall

variable (x : SendCall) (c : Nat)

/-- Where chunk `i` starts. -/
def offset (i : Nat) : Nat := Chunking.start x.totalLen c i

/-- The number of chunks. -/
def chunkCount : Nat := Chunking.count x.totalLen c

/-- The end of the window that starts at chunk `a`. -/
def limit (a : Nat) : Nat := min (a + x.config.windowChunks) (x.chunkCount c)

/-- The offset of chunk `i` as the parties exchange it. -/
def offsetU32 (i : Nat) : UInt32 := UInt32.ofNat (x.offset c i)

/-- Chunk `i`. -/
def chunkAt (i : Nat) : FileChunkValue where
  transferId := x.transferId
  offset := x.offsetU32 c i
  data := (x.bytes.drop (x.offset c i)).take (x.offset c (i + 1) - x.offset c i)

variable {x c} {i j a : Nat}

theorem limit_le_count : x.limit c a ≤ x.chunkCount c := Nat.min_le_right _ _

theorem limit_mono (h : i ≤ j) : x.limit c i ≤ x.limit c j := by
  unfold limit
  omega

theorem lt_limit (hx : x.Accepted) (h : a < x.chunkCount c) : a < x.limit c a := by
  have := hx.config.window_pos
  unfold limit
  omega

theorem offset_le_total : x.offset c i ≤ x.totalLen := Chunking.start_le_total

theorem toNat_offsetU32 (hx : x.Accepted) : (x.offsetU32 c i).toNat = x.offset c i :=
  UInt32.toNat_ofNat_lt (Nat.lt_of_le_of_lt offset_le_total hx.total_lt)

theorem offset_count (hc : 0 < c) : x.offset c (x.chunkCount c) = x.totalLen := Chunking.start_count hc

theorem offset_lt_total_iff (hc : 0 < c) : x.offset c i < x.totalLen ↔ i < x.chunkCount c :=
  Chunking.start_lt_total_iff hc

theorem chunkCount_eq_zero_iff (hc : 0 < c) : x.chunkCount c = 0 ↔ x.totalLen = 0 := by
  have h : (0 : Nat) < x.totalLen ↔ 0 < x.chunkCount c := by
    have := offset_lt_total_iff (x := x) (i := 0) hc
    rwa [offset, Chunking.start_zero] at this
  omega

/-! ## The sender -/

/-- The payload of chunk `i` runs to the start of the next one. -/
theorem length_chunkAt : (x.chunkAt c i).data.length = x.offset c (i + 1) - x.offset c i := by
  have h₁ : x.offset c (i + 1) ≤ x.totalLen := offset_le_total
  have h₂ : x.bytes.length = x.totalLen := rfl
  simp only [chunkAt, List.length_take, List.length_drop]
  omega

/-- The chunk the sender builds at a boundary. -/
theorem chunk_eq (hx : x.Accepted) {v : SendVars} (hc : v.chunkSize = c)
    (hn : v.nextToSend.toNat = x.offset c i) : x.chunk v = x.chunkAt c i := by
  have hnext : v.nextToSend = x.offsetU32 c i := by
    rw [← UInt32.toNat_inj, hn, toNat_offsetU32 hx]
  have hend : min (x.offset c i + c) x.totalLen = x.offset c (i + 1) := Chunking.start_succ.symm
  simp only [chunk, chunkAt, chunkData, hc, hnext, toNat_offsetU32 hx, hend]

end SendCall

/-- Where the sender stands: the acknowledged chunk, the next one to send, and
the bound of what it can have sent. -/
inductive SendAt (x : SendCall) (c : Nat) : SendPc → (acked next lim : Nat) → Prop
  | offerSend (n : Nat) : SendAt x c (.offerSend n) 0 0 0
  | offerWait (n : Nat) : SendAt x c (.offerWait n) 0 0 0
  | chunkSend (v : SendVars) (a i : Nat) (hc : v.chunkSize = c)
      (ha : v.lastAcked.toNat = x.offset c a) (hn : v.nextToSend.toNat = x.offset c i)
      (hai : a ≤ i) (hi : i < x.limit c a) : SendAt x c (.chunkSend v) a i (x.limit c a)
  | ackWait (v : SendVars) (a : Nat) (hc : v.chunkSize = c)
      (ha : v.lastAcked.toNat = x.offset c a) (hn : v.nextToSend.toNat = x.offset c (x.limit c a))
      (hlt : a < x.chunkCount c) : SendAt x c (.ackWait v) a (x.limit c a) (x.limit c a)
  | done (r : Except ErrorKind SendFileResult) :
      SendAt x c (.done r) 0 (x.chunkCount c) (x.chunkCount c)

section Sender

variable {x : SendCall} {c a i : Nat} {v : SendVars}

/-- **The loop conditions on indices.**  At the last boundary the sender returns;
before it, it sends while it is inside the window and waits at the end of it. -/
theorem SendCall.dataLoop_index (hpos : 0 < c) (hc : v.chunkSize = c)
    (ha : v.lastAcked.toNat = x.offset c a) (hn : v.nextToSend.toNat = x.offset c i) (hai : a ≤ i)
    (hi : i ≤ x.limit c a) :
    a = x.chunkCount c ∧ x.dataLoop v = .done (.ok (x.result v)) ∨
      a < x.chunkCount c ∧ i < x.limit c a ∧ x.dataLoop v = .chunkSend v ∨
      a < x.chunkCount c ∧ i = x.limit c a ∧ x.dataLoop v = .ackWait v := by
  have hiN : i ≤ x.chunkCount c := Nat.le_trans hi limit_le_count
  have hcount : (v.nextToSend.toNat - v.lastAcked.toNat) ⌈/⌉ v.chunkSize = i - a := by
    rw [ha, hn, hc]
    exact Chunking.ceilDiv_start hpos hai hiN
  have hlim : x.limit c a = min (a + x.config.windowChunks) (x.chunkCount c) := rfl
  have hcase := x.dataLoop_case v
  generalize x.dataLoop v = s at hcase ⊢
  cases hcase with
  | finished hge =>
      left
      have hnot : ¬a < x.chunkCount c := by
        rw [← offset_lt_total_iff hpos, ← ha]
        exact Nat.not_lt_of_le hge
      exact ⟨by omega, rfl⟩
  | send hlt hnext hwin =>
      rw [ha, offset_lt_total_iff hpos] at hlt
      rw [hn, offset_lt_total_iff hpos] at hnext
      rw [hcount] at hwin
      exact .inr (.inl ⟨hlt, by omega, rfl⟩)
  | wait hlt hfull =>
      rw [ha, offset_lt_total_iff hpos] at hlt
      have hfull' : x.config.windowChunks ≤ i - a ∨ ¬i < x.chunkCount c := by
        refine hfull.imp (fun h ↦ by rwa [hcount] at h) ?_
        intro h
        rw [← offset_lt_total_iff hpos, ← hn]
        exact Nat.not_lt_of_le h
      exact .inr (.inr ⟨hlt, by omega, rfl⟩)

/-- The loop conditions lead to the end or to a state on boundaries. -/
theorem SendCall.dataLoop_at (hpos : 0 < c) (hc : v.chunkSize = c)
    (ha : v.lastAcked.toNat = x.offset c a) (hn : v.nextToSend.toNat = x.offset c i) (hai : a ≤ i)
    (hi : i ≤ x.limit c a) :
    a = x.chunkCount c ∧ x.dataLoop v = .done (.ok (x.result v)) ∨
      a < x.chunkCount c ∧ SendAt x c (x.dataLoop v) a i (x.limit c a) := by
  rcases x.dataLoop_index hpos hc ha hn hai hi with h | ⟨hlt, hin, heq⟩ | ⟨hlt, rfl, heq⟩
  · exact .inl h
  · rw [heq]
    exact .inr ⟨hlt, .chunkSend v a i hc ha hn hai hin⟩
  · rw [heq]
    exact .inr ⟨hlt, .ackWait v a hc ha hn hlt⟩

end Sender

/-! ## The receiver -/

/-- The chunk size the two sides agree on. -/
def SendCall.agreed (x : SendCall) (cfg : ReceiverConfig) : Nat :=
  (negotiate cfg.maxChunkSize x.maxChunkU32).toNat

/-- The local variables of the chunk loop after `r` chunks, the last of which has
been reported. -/
def SendCall.vars (x : SendCall) (c r : Nat) : RecvVars where
  nextOffset := x.offsetU32 c r
  lastProgressOffset := x.offsetU32 c r
  hasher := x.bytes.take (x.offset c r)

/-- As `vars`, before chunk `r` is reported. -/
def SendCall.varsUnreported (x : SendCall) (c r : Nat) : RecvVars where
  nextOffset := x.offsetU32 c r
  lastProgressOffset := x.offsetU32 c (r - 1)
  hasher := x.bytes.take (x.offset c r)

section Receiver

variable {x : SendCall} {sha256 : Bytes → Digest} {cfg : ReceiverConfig} {c r i : Nat} {h : H}

theorem SendCall.vars_zero : x.vars c 0 = {} := by
  have hzero : x.offset c 0 = 0 := Chunking.start_zero
  simp only [vars, offsetU32, hzero, List.take_zero]
  rfl

theorem SendCall.Accepted.agreed_pos (hx : x.Accepted) (cfg : ReceiverConfig) :
    0 < x.agreed cfg := (hx.negotiate_bounds cfg).1

/-- The loop condition on indices. -/
theorem SendCall.Accepted.chunkLoop_vars (hx : x.Accepted) (hpos : 0 < c)
    (hr : r < x.chunkCount c) {v : RecvVars} (hv : v.nextOffset = x.offsetU32 c r) :
    (chunkLoop (x.kept sha256 cfg) h v : RecvPc H E) = .waitChunk (x.kept sha256 cfg) h v := by
  apply chunkLoop_of_lt
  show v.nextOffset.toNat < x.totalLenU32.toNat
  rw [hv, toNat_offsetU32 hx, hx.toNat_totalLenU32]
  exact (offset_lt_total_iff hpos).mpr hr

/-- After the offer was accepted: `commit` for an empty file, else the chunk
loop. -/
theorem SendCall.Accepted.onAccepted_kept (hx : x.Accepted) (hpos : 0 < c)
    (sha256 : Bytes → Digest) (cfg : ReceiverConfig) (h : H) :
    x.chunkCount c = 0 ∧ (onAccepted sha256 (x.kept sha256 cfg) h : RecvPc H E) =
        .commitEmpty (x.kept sha256 cfg) h ∨
      0 < x.chunkCount c ∧ (onAccepted sha256 (x.kept sha256 cfg) h : RecvPc H E) =
        .waitChunk (x.kept sha256 cfg) h (x.vars c 0) := by
  have htotal : (x.kept sha256 cfg).totalLen.toNat = x.totalLen := hx.toNat_totalLenU32
  by_cases hz : x.totalLen = 0
  · left
    have hzero : (x.kept sha256 cfg).totalLen = 0 := by
      rw [UInt32.eq_zero_iff, htotal, hz]
    have hsha : sha256 [] = (x.kept sha256 cfg).expectedHash := by
      rw [kept, List.length_eq_zero_iff.mp hz]
    refine ⟨(chunkCount_eq_zero_iff hpos).mpr hz, ?_⟩
    rw [onAccepted, if_pos hzero, if_neg (not_not.mpr hsha)]
  · right
    have hnz : ¬(x.kept sha256 cfg).totalLen = 0 := by
      rw [UInt32.eq_zero_iff, htotal]
      exact hz
    have hN : 0 < x.chunkCount c := by
      refine Nat.pos_of_ne_zero fun h ↦ hz ?_
      exact (chunkCount_eq_zero_iff hpos).mp h
    refine ⟨hN, ?_⟩
    rw [onAccepted, if_neg hnz, vars_zero]
    refine hx.chunkLoop_vars hpos hN ?_
    rw [offsetU32, show x.offset c 0 = 0 from Chunking.start_zero]
    rfl

/-- A chunk is never larger than the chunk size. -/
theorem SendCall.length_chunkAt_le : (x.chunkAt c i).data.length ≤ c := by
  have hsucc : x.offset c (i + 1) = min (x.offset c i + c) x.totalLen := Chunking.start_succ
  rw [length_chunkAt]
  omega

/-- **A chunk of the file is written when it is the next one, and answered with
the current offset when it is not.** -/
theorem SendCall.Accepted.onChunk_chunkAt (hx : x.Accepted) (hr : r < x.chunkCount (x.agreed cfg))
    (hi : i < x.chunkCount (x.agreed cfg)) :
    (Intake.alloc.onChunk (x.kept sha256 cfg) h (x.vars (x.agreed cfg) r)
        (.received (.ok (x.chunkAt (x.agreed cfg) i).root)) : RecvPc H E) =
      if i = r then
        .writeAt (x.kept sha256 cfg) h (x.vars (x.agreed cfg) r) (x.chunkAt (x.agreed cfg) r).data
      else .sendGap (x.kept sha256 cfg) h (x.vars (x.agreed cfg) r) := by
  have hpos := hx.agreed_pos cfg
  have hoff : ∀ j, (x.offsetU32 (x.agreed cfg) j).toNat = x.offset (x.agreed cfg) j :=
    fun j ↦ toNat_offsetU32 hx
  have hlen : (x.chunkAt (x.agreed cfg) i).data.length < UInt32.size := by
    have h₁ : x.offset (x.agreed cfg) (i + 1) ≤ x.totalLen := offset_le_total
    have h₂ := hx.total_lt
    rw [length_chunkAt]
    omega
  have heq : x.offsetU32 (x.agreed cfg) i = x.offsetU32 (x.agreed cfg) r ↔ i = r := by
    constructor
    · intro he
      rw [← UInt32.toNat_inj, hoff, hoff] at he
      exact Chunking.start_inj hpos hi.le hr.le he
    · rintro rfl
      rfl
  have hwrite : i = r → Intake.alloc.writeLen (x.chunkAt (x.agreed cfg) i).data
      ((x.kept sha256 cfg).totalLen.saturatingSub (x.vars (x.agreed cfg) r).nextOffset) =
      (x.chunkAt (x.agreed cfg) i).data.length := by
    rintro rfl
    have h₁ : x.offset (x.agreed cfg) (i + 1) ≤ x.totalLen := offset_le_total
    have h₂ : x.totalLenU32.toNat = x.totalLen := hx.toNat_totalLenU32
    have h₃ := length_chunkAt (x := x) (c := x.agreed cfg) (i := i)
    simp only [Intake.alloc, UInt32.toNat_min, UInt32.toNat_ofNat_lt hlen,
      UInt32.toNat_saturatingSub, kept, vars, hoff]
    omega
  have hcase := Intake.alloc.onChunk_case (E := E) (x.kept sha256 cfg) h (x.vars (x.agreed cfg) r)
    (.received (.ok (x.chunkAt (x.agreed cfg) i).root))
  generalize Intake.alloc.onChunk _ _ _ _ = s at hcase ⊢
  cases hcase with
  | silent _ ha => exact absurd rfl (ha _)
  | foreign _ hid => exact absurd rfl hid
  | tooLarge _ hid hsize =>
      have hle : (x.chunkAt (x.agreed cfg) i).data.length ≤ x.agreed cfg := length_chunkAt_le
      simp only [Intake.alloc, FileChunkValue.root_bytes, gt_iff_lt, decide_eq_true_eq,
        UInt32.lt_iff_toNat_lt, UInt32.toNat_ofNat_lt hlen] at hsize
      exact absurd hle (Nat.not_le_of_lt hsize)
  | gap _ hid hsize hne =>
      rw [if_neg fun h ↦ hne (heq.mpr h)]
  | empty _ hid hsize hoff' hzero =>
      rw [FileChunkValue.root_bytes, hwrite (heq.mp hoff'), length_chunkAt] at hzero
      have hlt : x.offset (x.agreed cfg) i < x.offset (x.agreed cfg) (i + 1) :=
        Chunking.start_lt_succ hpos hi
      omega
  | write _ w hid hsize hoff' hw hlen' hne =>
      obtain rfl := heq.mp hoff'
      have hall : w = (x.chunkAt (x.agreed cfg) i).data := by
        rw [hw, FileChunkValue.root_bytes, hwrite rfl]
        exact List.take_length
      rw [if_pos rfl, hall]

/-- The hasher after one more chunk. -/
theorem SendCall.take_append_chunkAt :
    x.bytes.take (x.offset c r) ++ (x.chunkAt c r).data = x.bytes.take (x.offset c (r + 1)) := by
  have hle : x.offset c r ≤ x.offset c (r + 1) := Chunking.start_mono (Nat.le_succ r)
  have hsum : x.offset c (r + 1) = x.offset c r + (x.offset c (r + 1) - x.offset c r) := by omega
  rw [hsum, List.take_add]
  simp only [chunkAt]

/-- **After a chunk was written** the last one leads to `commit`, any other to a
progress message: the stride is one chunk and every chunk but the last is full. -/
theorem SendCall.Accepted.onWritten_chunkAt (hx : x.Accepted)
    (hr : r < x.chunkCount (x.agreed cfg)) :
    (onWritten sha256 (x.kept sha256 cfg) h (x.vars (x.agreed cfg) r)
        (x.chunkAt (x.agreed cfg) r).data : RecvPc H E) =
      if r + 1 = x.chunkCount (x.agreed cfg) then .commit (x.kept sha256 cfg) h
      else .sendProgress (x.kept sha256 cfg) h (x.varsUnreported (x.agreed cfg) (r + 1)) := by
  have hpos := hx.agreed_pos cfg
  have hoff : ∀ j, (x.offsetU32 (x.agreed cfg) j).toNat = x.offset (x.agreed cfg) j :=
    fun j ↦ toNat_offsetU32 hx
  have hmono : x.offset (x.agreed cfg) r ≤ x.offset (x.agreed cfg) (r + 1) :=
    Chunking.start_mono (Nat.le_succ r)
  have htotal : x.offset (x.agreed cfg) (r + 1) ≤ x.totalLen := offset_le_total
  have hsize := hx.total_lt
  have hlen : (x.chunkAt (x.agreed cfg) r).data.length < UInt32.size := by
    rw [length_chunkAt]
    omega
  have hnext : (x.offsetU32 (x.agreed cfg) r).saturatingAdd
      (UInt32.ofNat (x.chunkAt (x.agreed cfg) r).data.length) =
      x.offsetU32 (x.agreed cfg) (r + 1) := by
    have hsum : (x.offsetU32 (x.agreed cfg) r).toNat +
        (UInt32.ofNat (x.chunkAt (x.agreed cfg) r).data.length).toNat =
        x.offset (x.agreed cfg) (r + 1) := by
      rw [hoff, UInt32.toNat_ofNat_lt hlen, length_chunkAt]
      omega
    rw [← UInt32.toNat_inj, UInt32.toNat_saturatingAdd (by omega), hsum, hoff]
  have hend : x.offsetU32 (x.agreed cfg) (r + 1) ≥ (x.kept sha256 cfg).totalLen ↔
      r + 1 = x.chunkCount (x.agreed cfg) := by
    have hlt := offset_lt_total_iff (x := x) (i := r + 1) hpos
    rw [ge_iff_le, UInt32.le_iff_toNat_le, hoff,
      show (x.kept sha256 cfg).totalLen.toNat = x.totalLen from hx.toNat_totalLenU32]
    omega
  simp only [onWritten, vars, take_append_chunkAt, hnext, hend]
  by_cases hlast : r + 1 = x.chunkCount (x.agreed cfg)
  · have hall : x.bytes.take (x.offset (x.agreed cfg) (r + 1)) = x.bytes := by
      rw [hlast, offset_count hpos]
      exact List.take_length
    have hsha : sha256 x.bytes = (x.kept sha256 cfg).expectedHash := rfl
    rw [if_pos hlast, if_pos hlast, hall, if_neg (not_not.mpr hsha)]
  · have hfull : x.offset (x.agreed cfg) (r + 1) = x.offset (x.agreed cfg) r + x.agreed cfg := by
      have hlt : x.offset (x.agreed cfg) (r + 1) < x.totalLen :=
        (offset_lt_total_iff hpos).mpr (by omega)
      have hsucc : x.offset (x.agreed cfg) (r + 1) =
          min (x.offset (x.agreed cfg) r + x.agreed cfg) x.totalLen := Chunking.start_succ
      omega
    have hstride : (x.offsetU32 (x.agreed cfg) (r + 1)).saturatingSub
        (x.offsetU32 (x.agreed cfg) r) ≥ (x.kept sha256 cfg).ackStride := by
      rw [Offer.ackStride, progressAckEveryChunks, UInt32.saturatingMul_one, ge_iff_le,
        UInt32.le_iff_toNat_le, UInt32.toNat_saturatingSub, hoff, hoff, hfull]
      exact Nat.le_of_eq (Nat.add_sub_cancel_left _ _).symm
    rw [if_neg hlast, if_neg hlast, if_pos hstride]
    rfl

/-- After a progress message the loop waits for the next chunk. -/
theorem SendCall.Accepted.onProgressSent_kept (hx : x.Accepted)
    (hr : r < x.chunkCount (x.agreed cfg)) {v : RecvVars}
    (hv : v = x.vars (x.agreed cfg) r ∨ v = x.varsUnreported (x.agreed cfg) r)
    (o : SendOutcome) :
    (onProgressSent (x.kept sha256 cfg) h v o : RecvPc H E) =
      if o.isErr then .abort h none .protocol
      else .waitChunk (x.kept sha256 cfg) h (x.vars (x.agreed cfg) r) := by
  have hvars : { v with lastProgressOffset := v.nextOffset } = x.vars (x.agreed cfg) r := by
    rcases hv with rfl | rfl <;> rfl
  unfold onProgressSent
  rw [hvars, hx.chunkLoop_vars (hx.agreed_pos cfg) hr rfl]

end Receiver

/-- Where the receiver stands: the number of chunks it has taken.  The await
points that are missing are those from which a rejection or an abort is sent. -/
inductive RecvAt (sha256 : Bytes → Digest) (x : SendCall) (cfg : ReceiverConfig) :
    RecvPc H E → Nat → Prop
  | recvReq : RecvAt sha256 x cfg .recvReq 0
  | beginWrite : RecvAt sha256 x cfg (.beginWrite (x.kept sha256 cfg)) 0
  | sendAccept (h : H) : RecvAt sha256 x cfg (.sendAccept (x.kept sha256 cfg) h) 0
  | commitEmpty (h : H) (hN : x.chunkCount (x.agreed cfg) = 0) :
      RecvAt sha256 x cfg (.commitEmpty (x.kept sha256 cfg) h) 0
  | waitChunk (h : H) (r : Nat) (hr : r < x.chunkCount (x.agreed cfg)) :
      RecvAt sha256 x cfg (.waitChunk (x.kept sha256 cfg) h (x.vars (x.agreed cfg) r)) r
  | sendGap (h : H) (r : Nat) (hr : r < x.chunkCount (x.agreed cfg)) :
      RecvAt sha256 x cfg (.sendGap (x.kept sha256 cfg) h (x.vars (x.agreed cfg) r)) r
  | writeAt (h : H) (r : Nat) (hr : r < x.chunkCount (x.agreed cfg)) :
      RecvAt sha256 x cfg (.writeAt (x.kept sha256 cfg) h (x.vars (x.agreed cfg) r)
        (x.chunkAt (x.agreed cfg) r).data) (r + 1)
  | sendProgress (h : H) (r : Nat) (hr : r < x.chunkCount (x.agreed cfg)) :
      RecvAt sha256 x cfg
        (.sendProgress (x.kept sha256 cfg) h (x.varsUnreported (x.agreed cfg) r)) r
  | commit (h : H) :
      RecvAt sha256 x cfg (.commit (x.kept sha256 cfg) h) (x.chunkCount (x.agreed cfg))
  | sendComplete :
      RecvAt sha256 x cfg (.sendComplete (x.kept sha256 cfg)) (x.chunkCount (x.agreed cfg))
  | abort (h : H) (err : Error E) (r : Nat) : RecvAt sha256 x cfg (.abort h none err) r
  | done (res : Except (Error E) RecvFileResult) (r : Nat) : RecvAt sha256 x cfg (.done res) r

end Thincan.FileTransfer

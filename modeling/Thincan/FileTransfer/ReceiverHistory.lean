import Thincan.FileTransfer.ReceiverSteps

/-!
# Histories of a receive call

What the outside sees of one `recv_file` or `recv_file_no_alloc` call: the calls
its store gets (`storeLog`), the bytes that were stored (`written`) and the
acknowledgements that reach the transport (`acks`).

`StoreInv` says, for every await point, what the store has seen when the call is
suspended there, against any peer, any store and any transport.  It is kept by
every step (`StoreInv.step`) and therefore holds along every run
(`StoreInv.of_run`).
-/

namespace Thincan.FileTransfer

open Process

variable {H E : Type}

/-! ## What the outside sees -/

/-- One call of the store with its result. -/
inductive StoreOp (H E : Type) where
  | began (transferId totalLen : UInt32) (r : Except E H)
  | wrote (h : H) (offset : UInt32) (bytes : Bytes) (r : Except E Unit)
  | committed (h : H) (r : Except E Unit)
  | aborted (h : H)
deriving DecidableEq

/-- The store call of an event. -/
def storeOp : RecvEvent H E → Option (StoreOp H E)
  | (.beginWrite t n, .began r) => some (.began t n r)
  | (.writeAt h off bs, .wrote r) => some (.wrote h off bs r)
  | (.commit h, .committed r) => some (.committed h r)
  | (.abort h, .aborted) => some (.aborted h)
  | _ => none

/-- The store calls of a history, in order. -/
def storeLog (hist : List (RecvEvent H E)) : List (StoreOp H E) := hist.filterMap storeOp

/-- The bytes a store call stored. -/
def StoreOp.stored : StoreOp H E → Bytes
  | .wrote _ _ bs (.ok _) => bs
  | _ => []

/-- The concatenation of the successful `write_at` calls. -/
def written (hist : List (RecvEvent H E)) : Bytes := (storeLog hist).flatMap StoreOp.stored

/-- The acknowledgement of an event that was handed to the transport. -/
def handedAck : RecvEvent H E → Option FileAckValue
  | (.send ack, .sent r) => if r.handed then some ack else none
  | _ => none

/-- The acknowledgements handed to the transport, in order. -/
def acks (hist : List (RecvEvent H E)) : List FileAckValue := hist.filterMap handedAck

/-- The offer the call took. -/
def offered : List (RecvEvent H E) → Option FileReqRoot
  | (.recvReq, .req (some (.ok root))) :: _ => some root
  | _ => none

/-- Every payload read during the call is shorter than `2 ^ 32` bytes; capnp
counts the bytes of a `Data` blob in 29 bits. -/
def Readable (hist : List (RecvEvent H E)) : Prop :=
  ∀ q c, (q, RecvResp.chunk (.received (.ok c))) ∈ hist → c.bytes.length < UInt32.size

theorem storeLog_snoc (hist : List (RecvEvent H E)) (e : RecvEvent H E) :
    storeLog (hist ++ [e]) = storeLog hist ++ (storeOp e).toList := by
  cases he : storeOp e <;> simp [storeLog, he]

theorem storeLog_append (k t : List (RecvEvent H E)) :
    storeLog (k ++ t) = storeLog k ++ storeLog t := List.filterMap_append

theorem written_snoc (hist : List (RecvEvent H E)) (e : RecvEvent H E) :
    written (hist ++ [e]) = written hist ++ (storeOp e).toList.flatMap StoreOp.stored := by
  rw [written, storeLog_snoc, List.flatMap_append, written]

theorem acks_snoc (hist : List (RecvEvent H E)) (e : RecvEvent H E) :
    acks (hist ++ [e]) = acks hist ++ (handedAck e).toList := by
  cases he : handedAck e <;> simp [acks, he]

/-- A call that took an offer did so first. -/
theorem offered_eq_some {hist : List (RecvEvent H E)} {root : FileReqRoot}
    (h : offered hist = some root) : ∃ t, hist = (.recvReq, .req (some (.ok root))) :: t := by
  unfold offered at h
  split at h
  · exact ⟨_, by rw [Option.some.inj h]⟩
  · cases h

/-- The offer is fixed once it has been taken. -/
theorem offered_append {hist t : List (RecvEvent H E)} {root : FileReqRoot}
    (h : offered hist = some root) : offered (hist ++ t) = some root := by
  obtain ⟨k, rfl⟩ := offered_eq_some h
  rfl

theorem Readable.of_append {hist t : List (RecvEvent H E)} (h : Readable (hist ++ t)) :
    Readable hist := fun q c hc ↦ h q c (List.mem_append_left t hc)

/-- Readability is a matter of the responses alone. -/
theorem Readable.of_responses {hist : List (RecvEvent H E)} {rs : List (RecvResp H E)}
    (hrs : hist.map Prod.snd = rs)
    (h : ∀ c, RecvResp.chunk (.received (.ok c)) ∈ rs → c.bytes.length < UInt32.size) :
    Readable hist :=
  fun _ c hc ↦ h c (hrs ▸ List.mem_map_of_mem hc)

/-! ## The log of an open handle -/

/-- `Writes fit lim h content log`: the log consists of successful non-empty
writes on `h`, each at the offset where the previous one ended, that store
`content`; if `fit`, none is longer than `lim`. -/
inductive Writes (fit : Prop) (lim : Nat) (h : H) : Bytes → List (StoreOp H E) → Prop
  | nil : Writes fit lim h [] []
  | snoc {content w : Bytes} {log : List (StoreOp H E)} {off : UInt32} :
      Writes fit lim h content log → off.toNat = content.length → w ≠ [] →
      (fit → w.length ≤ lim) →
      Writes fit lim h (content ++ w) (log ++ [.wrote h off w (.ok ())])

theorem Writes.stored {fit : Prop} {lim : Nat} {h : H} {content : Bytes}
    {log : List (StoreOp H E)} (hw : Writes fit lim h content log) :
    log.flatMap StoreOp.stored = content := by
  induction hw with
  | nil => rfl
  | snoc _ _ _ _ ih => simp [ih, StoreOp.stored]

variable (fit : Prop) (sha256 : Bytes → Digest) (cfg : ReceiverConfig)

/-- The handle of the call is open and `content` has been stored through it. -/
structure Opened (hist : List (RecvEvent H E)) (o : Offer) (h : H) (content : Bytes) : Prop where
  offer : ∃ root, offered hist = some root ∧ o.Of cfg root
  log : ∃ ws, storeLog hist = .began o.transferId o.totalLen (.ok h) :: ws ∧
    Writes fit o.negotiatedChunkSize.toNat h content ws
  length_le : content.length ≤ o.totalLen.toNat

/-- As `Opened`, but the last write may have failed. -/
structure Stopped (hist : List (RecvEvent H E)) (o : Offer) (h : H) : Prop where
  offer : ∃ root, offered hist = some root ∧ o.Of cfg root
  log : ∃ content ws tail, storeLog hist = .began o.transferId o.totalLen (.ok h) :: (ws ++ tail) ∧
    Writes fit o.negotiatedChunkSize.toNat h content ws ∧ content.length ≤ o.totalLen.toNat ∧
    (tail = [] ∨ ∃ off w e, tail = [.wrote h off w (.error e)] ∧ off.toNat = content.length ∧
      w ≠ [] ∧ (fit → w.length ≤ o.negotiatedChunkSize.toNat) ∧
      content.length + w.length ≤ o.totalLen.toNat)

/-- The handle was released by `abort`, the last store call. -/
def Released (hist : List (RecvEvent H E)) : Prop :=
  ∃ k o h t, Stopped fit cfg k o h ∧ hist = k ++ (.abort h, .aborted) :: t ∧ storeLog t = []

/-- The handle was given to `commit`, the last store call, with the whole file
written and its digest checked. -/
def Finalised (hist : List (RecvEvent H E)) (o : Offer) (h : H) (r : Except E Unit) : Prop :=
  ∃ k content t, Opened fit cfg k o h content ∧ content.length = o.totalLen.toNat ∧
    sha256 content = o.expectedHash ∧ hist = k ++ (.commit h, .committed r) :: t ∧ storeLog t = []

/-- What the store has seen when the call has returned. -/
inductive Returned (hist : List (RecvEvent H E)) : Except (Error E) RecvFileResult → Prop
  | untouched (err : Error E) (hlog : storeLog hist = []) : Returned hist (.error err)
  | refused (o : Offer) (e : E)
      (hoff : ∃ root, offered hist = some root ∧ o.Of cfg root)
      (hlog : storeLog hist = [.began o.transferId o.totalLen (.error e)]) :
      Returned hist (.error (.store e))
  | released (err : Error E) (hr : Released fit cfg hist) : Returned hist (.error err)
  | notCommitted (o : Offer) (h : H) (e : E)
      (hf : Finalised fit sha256 cfg hist o h (.error e)) : Returned hist (.error (.store e))
  | unreported (o : Offer) (h : H) (hf : Finalised fit sha256 cfg hist o h (.ok ())) :
      Returned hist (.error .protocol)
  | completed (o : Offer) (h : H) (hf : Finalised fit sha256 cfg hist o h (.ok ())) :
      Returned hist (.ok (o.result o.totalLen))

/-- The variables of the chunk loop agree with what was stored, and the file is
not complete. -/
structure InLoop (hist : List (RecvEvent H E)) (o : Offer) (h : H) (v : RecvVars) : Prop where
  opened : Opened fit cfg hist o h v.hasher
  length_eq : v.hasher.length = v.nextOffset.toNat
  lt : v.nextOffset.toNat < o.totalLen.toNat

/-- **What the store has seen** at each await point. -/
def StoreInv (hist : List (RecvEvent H E)) : RecvPc H E → Prop
  | .recvReq => hist = []
  | .sendReject _ => storeLog hist = []
  | .beginWrite o => storeLog hist = [] ∧ ∃ root, offered hist = some root ∧ o.Of cfg root
  | .sendAccept o h => Opened fit cfg hist o h []
  | .commitEmpty o h => Opened fit cfg hist o h [] ∧ o.totalLen = 0 ∧ sha256 [] = o.expectedHash
  | .waitChunk o h v => InLoop fit cfg hist o h v
  | .sendGap o h v => InLoop fit cfg hist o h v
  | .writeAt o h v bs => InLoop fit cfg hist o h v ∧ bs ≠ [] ∧
      (fit → bs.length ≤ o.negotiatedChunkSize.toNat) ∧
      v.nextOffset.toNat + bs.length ≤ o.totalLen.toNat
  | .sendProgress o h v => InLoop fit cfg hist o h v
  | .commit o h => 0 < o.totalLen.toNat ∧ ∃ content, Opened fit cfg hist o h content ∧
      content.length = o.totalLen.toNat ∧ sha256 content = o.expectedHash
  | .sendComplete o => 0 < o.totalLen.toNat ∧ ∃ h, Finalised fit sha256 cfg hist o h (.ok ())
  | .abort h _ _ => ∃ o, Stopped fit cfg hist o h
  | .sendAbort _ _ => Released fit cfg hist
  | .done r => Returned fit sha256 cfg hist r

/-! ## Frame and progress lemmas -/

variable {fit sha256 cfg} {rx : Intake} {hist : List (RecvEvent H E)} {o : Offer} {h : H}

theorem storeLog_snoc_of_none {e : RecvEvent H E} (he : storeOp e = none) :
    storeLog (hist ++ [e]) = storeLog hist := by
  rw [storeLog_snoc, he, Option.toList_none, List.append_nil]

/-- Events the store does not see leave an open handle as it is. -/
theorem Opened.frame {content : Bytes} {e : RecvEvent H E} (ho : Opened fit cfg hist o h content)
    (he : storeOp e = none) : Opened fit cfg (hist ++ [e]) o h content := by
  obtain ⟨⟨root, hroot, hof⟩, hlog, hle⟩ := ho
  refine ⟨⟨root, offered_append hroot, hof⟩, ?_, hle⟩
  rwa [storeLog_snoc_of_none he]

theorem InLoop.frame {v : RecvVars} {e : RecvEvent H E} (hl : InLoop fit cfg hist o h v)
    (he : storeOp e = none) : InLoop fit cfg (hist ++ [e]) o h v :=
  ⟨hl.opened.frame he, hl.length_eq, hl.lt⟩

/-- The progress mark is not part of what the store has seen. -/
theorem InLoop.mark {v : RecvVars} (hl : InLoop fit cfg hist o h v) (n : UInt32) :
    InLoop fit cfg hist o h { v with lastProgressOffset := n } :=
  ⟨hl.opened, hl.length_eq, hl.lt⟩

theorem Opened.stopped {content : Bytes} (ho : Opened fit cfg hist o h content) :
    Stopped fit cfg hist o h := by
  obtain ⟨hroot, ⟨ws, hlog, hw⟩, hle⟩ := ho
  exact ⟨hroot, content, ws, [], by rw [hlog, List.append_nil], hw, hle, .inl rfl⟩

/-- A successful write extends the content. -/
theorem Opened.write {content w : Bytes} {off : UInt32} (ho : Opened fit cfg hist o h content)
    (hoff : off.toNat = content.length) (hw : w ≠ [])
    (hlim : fit → w.length ≤ o.negotiatedChunkSize.toNat)
    (hle : content.length + w.length ≤ o.totalLen.toNat) :
    Opened fit cfg (hist ++ [(.writeAt h off w, .wrote (.ok ()))]) o h (content ++ w) := by
  obtain ⟨⟨root, hroot, hof⟩, ⟨ws, hlog, hws⟩, -⟩ := ho
  refine ⟨⟨root, offered_append hroot, hof⟩, ⟨_, ?_, hws.snoc hoff hw hlim⟩, ?_⟩
  · rw [storeLog_snoc, hlog]
    rfl
  · rwa [List.length_append]

/-- A failed write stops the call. -/
theorem Opened.write_failed {content w : Bytes} {off : UInt32} {e : E}
    (ho : Opened fit cfg hist o h content) (hoff : off.toNat = content.length) (hw : w ≠ [])
    (hlim : fit → w.length ≤ o.negotiatedChunkSize.toNat)
    (hle : content.length + w.length ≤ o.totalLen.toNat) :
    Stopped fit cfg (hist ++ [(.writeAt h off w, .wrote (.error e))]) o h := by
  obtain ⟨⟨root, hroot, hof⟩, ⟨ws, hlog, hws⟩, hc⟩ := ho
  refine ⟨⟨root, offered_append hroot, hof⟩, content, ws, _, ?_, hws, hc,
    .inr ⟨off, w, e, rfl, hoff, hw, hlim, hle⟩⟩
  rw [storeLog_snoc, hlog]
  rfl

theorem Released.frame {e : RecvEvent H E} (hr : Released fit cfg hist) (he : storeOp e = none) :
    Released fit cfg (hist ++ [e]) := by
  obtain ⟨k, o, h, t, hs, rfl, ht⟩ := hr
  refine ⟨k, o, h, t ++ [e], hs, by simp, ?_⟩
  rw [storeLog_snoc_of_none he, ht]

theorem Finalised.frame {r : Except E Unit} {e : RecvEvent H E}
    (hf : Finalised fit sha256 cfg hist o h r) (he : storeOp e = none) :
    Finalised fit sha256 cfg (hist ++ [e]) o h r := by
  obtain ⟨k, content, t, ho, hlen, hsha, rfl, ht⟩ := hf
  refine ⟨k, content, t ++ [e], ho, hlen, hsha, by simp, ?_⟩
  rw [storeLog_snoc_of_none he, ht]

theorem Opened.finalised {content : Bytes} (ho : Opened fit cfg hist o h content)
    (hlen : content.length = o.totalLen.toNat) (hsha : sha256 content = o.expectedHash)
    (r : Except E Unit) :
    Finalised fit sha256 cfg (hist ++ [(.commit h, .committed r)]) o h r :=
  ⟨hist, content, [], ho, hlen, hsha, rfl, rfl⟩

/-- What was stored through an open handle is what the log says. -/
theorem Opened.written_eq {content : Bytes} (ho : Opened fit cfg hist o h content) :
    written hist = content := by
  obtain ⟨-, ⟨ws, hlog, hw⟩, -⟩ := ho
  rw [written, hlog, List.flatMap_cons, hw.stored]
  rfl

theorem written_append_of_nil {k t : List (RecvEvent H E)}
    (ht : (storeLog t).flatMap StoreOp.stored = []) : written (k ++ t) = written k := by
  rw [written, storeLog_append, List.flatMap_append, ht, List.append_nil, written]

/-- A finalised handle holds the whole file, with the digest of the offer. -/
theorem Finalised.written_eq {r : Except E Unit} (hf : Finalised fit sha256 cfg hist o h r) :
    (written hist).length = o.totalLen.toNat ∧ sha256 (written hist) = o.expectedHash := by
  obtain ⟨k, content, t, ho, hlen, hsha, rfl, ht⟩ := hf
  have hw : written (k ++ (.commit h, .committed r) :: t) = content := by
    rw [← ho.written_eq]
    apply written_append_of_nil
    show StoreOp.stored (.committed h r) ++ (storeLog t).flatMap StoreOp.stored = []
    rw [ht]
    rfl
  rw [hw]
  exact ⟨hlen, hsha⟩

theorem Finalised.offer {r : Except E Unit} (hf : Finalised fit sha256 cfg hist o h r) :
    ∃ root, offered hist = some root ∧ o.Of cfg root := by
  obtain ⟨k, content, t, ⟨⟨root, hroot, hof⟩, -, -⟩, -, -, rfl, -⟩ := hf
  exact ⟨root, offered_append hroot, hof⟩

theorem Finalised.committed_mem {r : Except E Unit} (hf : Finalised fit sha256 cfg hist o h r) :
    .committed h r ∈ storeLog hist := by
  obtain ⟨k, content, t, -, -, -, rfl, -⟩ := hf
  rw [storeLog_append]
  exact List.mem_append_right _ List.mem_cons_self

/-! ## The invariant is kept -/

/-- What the chunk loop does with a chunk keeps the invariant. -/
theorem StoreInv.onChunk {v : RecvVars} {a : Arrival (Read FileChunkRoot)}
    (hl : InLoop fit cfg hist o h v)
    (hfit : fit → ∀ c, a = .received (.ok c) → c.bytes.length < UInt32.size) :
    StoreInv fit sha256 cfg (hist ++ [(.recvChunk, .chunk a)]) (rx.onChunk o h v a) := by
  have hl' : InLoop fit cfg (hist ++ [(.recvChunk, .chunk a)]) o h v := hl.frame rfl
  have hcase : ChunkCase (E := E) rx o h v a (rx.onChunk o h v a) := rx.onChunk_case o h v a
  generalize rx.onChunk o h v a = s at hcase ⊢
  cases hcase with
  | silent _ _ => exact ⟨o, hl'.opened.stopped⟩
  | foreign c hid => exact hl'
  | tooLarge c hid hsize => exact ⟨o, hl'.opened.stopped⟩
  | gap c hid hsize hoff => exact hl'
  | empty c hid hsize hoff hlen =>
      rw [chunkLoop_of_lt hl.lt]
      exact hl'
  | write c w hid hsize hoff hw hlen hne =>
      have hrem := rx.writeLen_le_remaining c.bytes (o.totalLen.saturatingSub v.nextOffset)
      rw [UInt32.toNat_saturatingSub] at hrem
      have hlt := hl.lt
      refine ⟨hl', hne, ?_, by omega⟩
      intro hf
      rw [hlen]
      exact rx.writeLen_le_negotiated _ _ _ (hfit hf c rfl) hsize

/-- What the loop does with a successful write keeps the invariant. -/
theorem StoreInv.onWritten {v : RecvVars} {bs : Bytes}
    (hi : StoreInv fit sha256 cfg hist (.writeAt o h v bs)) :
    StoreInv fit sha256 cfg (hist ++ [(.writeAt h v.nextOffset bs, .wrote (.ok ()))])
      (FileTransfer.onWritten sha256 o h v bs) := by
  obtain ⟨hl, hne, hlim, hle⟩ := hi
  have hlen := hl.length_eq
  have ho := hl.opened.write hl.length_eq.symm hne hlim (by omega)
  have hlt := hl.lt
  have hlen' : (v.hasher ++ bs).length = v.nextOffset.toNat + bs.length := by
    rw [List.length_append, hlen]
  have hcase : WriteCase (E := E) sha256 o h v bs (FileTransfer.onWritten sha256 o h v bs) :=
    onWritten_case hle
  generalize FileTransfer.onWritten sha256 o h v bs = s at hcase ⊢
  cases hcase with
  | mismatch hfull hsha => exact ⟨o, ho.stopped⟩
  | full hfull hsha => exact ⟨by omega, _, ho, by omega, hsha⟩
  | progress v' hlt' hnext hlast hhash =>
      exact ⟨hhash ▸ ho, by rw [hhash, hlen', hnext], by omega⟩
  | quiet v' hlt' hnext hlast hhash hstride =>
      exact ⟨hhash ▸ ho, by rw [hhash, hlen', hnext], by omega⟩

/-- What follows a progress acknowledgement keeps the invariant. -/
theorem StoreInv.onProgressSent {v : RecvVars} {ack : FileAckValue} (r : SendOutcome)
    (hl : InLoop fit cfg hist o h v) :
    StoreInv fit sha256 cfg (hist ++ [(.send ack, .sent r)])
      (FileTransfer.onProgressSent o h v r) := by
  have hl' : InLoop fit cfg (hist ++ [(.send ack, .sent r)]) o h v := hl.frame rfl
  unfold FileTransfer.onProgressSent
  split
  · exact ⟨o, hl'.opened.stopped⟩
  · have hm := hl'.mark v.nextOffset
    rw [chunkLoop_of_lt hm.lt]
    exact hm

/-- What follows the accepted offer keeps the invariant. -/
theorem StoreInv.onAccepted {ack : FileAckValue} {r : SendOutcome}
    (ho : Opened fit cfg hist o h []) :
    StoreInv fit sha256 cfg (hist ++ [(.send ack, .sent r)])
      (if r.isErr then .abort h none .protocol else FileTransfer.onAccepted sha256 o h) := by
  have ho' : Opened fit cfg (hist ++ [(.send ack, .sent r)]) o h [] := ho.frame rfl
  split
  · exact ⟨o, ho'.stopped⟩
  unfold FileTransfer.onAccepted
  split
  · next hz =>
      split
      · exact ⟨o, ho'.stopped⟩
      · next hsha => exact ⟨ho', hz, not_not.mp hsha⟩
  · next hz =>
      rw [UInt32.eq_zero_iff] at hz
      have hlt : ({} : RecvVars).nextOffset.toNat < o.totalLen.toNat := Nat.pos_of_ne_zero hz
      rw [chunkLoop_of_lt hlt]
      exact ⟨ho', rfl, hlt⟩

/-- **Every step keeps the store invariant.** -/
theorem StoreInv.step {s s' : RecvPc H E} {e : RecvEvent H E}
    (hfit : fit → Readable (hist ++ [e])) (hi : StoreInv fit sha256 cfg hist s)
    (ht : Transition sha256 rx cfg s e s') : StoreInv fit sha256 cfg (hist ++ [e]) s' := by
  cases ht with
  | req body =>
      obtain rfl : hist = [] := hi
      have hcase : OfferCase (H := H) (E := E) cfg rx body (rx.onReq cfg body) :=
        Intake.onReq_case cfg body
      generalize rx.onReq cfg body = s at hcase ⊢
      cases hcase with
      | failed _ err _ => exact .untouched err rfl
      | rejected root err => exact storeLog_snoc_of_none rfl
      | taken root o _ hof => exact ⟨rfl, root, rfl, hof⟩
  | rejected ack r =>
      have hlog : storeLog hist = [] := hi
      exact .untouched _ ((storeLog_snoc_of_none rfl).trans hlog)
  | notBegun o e =>
      obtain ⟨hlog, root, hroot, hof⟩ := hi
      refine .refused o e ⟨root, offered_append hroot, hof⟩ ?_
      rw [storeLog_snoc, hlog]
      rfl
  | begun o h =>
      obtain ⟨hlog, root, hroot, hof⟩ := hi
      refine ⟨⟨root, offered_append hroot, hof⟩, ⟨[], ?_, .nil⟩, Nat.zero_le _⟩
      rw [storeLog_snoc, hlog]
      rfl
  | accepted o h r => exact StoreInv.onAccepted hi
  | committedEmpty o h =>
      obtain ⟨ho, hz, hsha⟩ := hi
      have hlen : ([] : Bytes).length = o.totalLen.toNat := by rw [hz]; rfl
      have hres : o.result 0 = o.result o.totalLen := by rw [hz]
      rw [hres]
      exact .completed o h (ho.finalised hlen hsha _)
  | notCommittedEmpty o h e =>
      obtain ⟨ho, hz, hsha⟩ := hi
      have hlen : ([] : Bytes).length = o.totalLen.toNat := by rw [hz]; rfl
      exact .notCommitted o h e (ho.finalised hlen hsha _)
  | chunk o h v a =>
      refine StoreInv.onChunk hi ?_
      intro hf c hc
      exact hfit hf .recvChunk c (by simp [hc])
  | gapSent o h v r => exact StoreInv.onProgressSent r hi
  | written o h v bs => exact StoreInv.onWritten hi
  | notWritten o h v bs e =>
      obtain ⟨hl, hne, hlim, hle⟩ := hi
      have hlen := hl.length_eq
      exact ⟨o, hl.opened.write_failed hlen.symm hne hlim (by omega)⟩
  | progressSent o h v r => exact StoreInv.onProgressSent r hi
  | committed o h =>
      obtain ⟨hpos, content, ho, hlen, hsha⟩ := hi
      exact ⟨hpos, h, ho.finalised hlen hsha _⟩
  | notCommitted o h e =>
      obtain ⟨-, content, ho, hlen, hsha⟩ := hi
      exact .notCommitted o h e (ho.finalised hlen hsha _)
  | completed o r =>
      obtain ⟨-, h, hf⟩ := hi
      have hf' : Finalised fit sha256 cfg
          (hist ++ [(.send (fileAckComplete o.transferId o.totalLen), .sent r)]) o h (.ok ()) :=
        hf.frame rfl
      change Returned fit sha256 cfg _ _
      split
      · exact .unreported o h hf'
      · exact .completed o h hf'
  | aborted h last err =>
      obtain ⟨o, hs⟩ := hi
      have hr : Released fit cfg (hist ++ [(.abort h, .aborted)]) :=
        ⟨hist, o, h, [], hs, rfl, rfl⟩
      cases last with
      | none => exact .released err hr
      | some ack => exact hr
  | abortSent ack err r => exact .released err (Released.frame hi rfl)

/-- **The store invariant holds along every run**, against any peer, store and
transport. -/
theorem StoreInv.of_run {s : RecvPc H E} (hr : (receiver sha256 rx cfg).Run .recvReq hist s)
    (hfit : fit → Readable hist) : StoreInv fit sha256 cfg hist s := by
  induction hr with
  | nil => exact (rfl : ([] : List (RecvEvent H E)) = [])
  | snoc _ hf ih => exact (ih fun hp ↦ (hfit hp).of_append).step hfit (receiver_fire hf)

end Thincan.FileTransfer

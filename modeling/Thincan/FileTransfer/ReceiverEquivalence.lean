import Thincan.FileTransfer.StoreDiscipline

/-!
# The two receivers are the same protocol

`recv_file` and `recv_file_no_alloc` ask the same questions at every await
point, and answer-for-answer continue in the same way as long as the buffers of
the second are large enough: its `MAX_METADATA` for the metadata of the offer,
its `MAX_CHUNK` for the negotiated chunk size.  They then have the same
histories, and so the same store calls, acknowledgements and results.

The two places where they differ are `onReq_noAlloc` and `onChunk_noAlloc`.  The
second needs the negotiated size to fit `MAX_CHUNK` at every await point of the
chunk loop, which is what `RecvPc.Fits` carries through the run.
-/

namespace Thincan.FileTransfer

open Process

variable {H E : Type}

/-- The chunk size negotiated at this await point fits the chunk buffer. -/
def RecvPc.Fits (maxChunk : Nat) : RecvPc H E → Prop
  | .beginWrite o => o.negotiatedChunkSize.toNat ≤ maxChunk
  | .sendAccept o _ => o.negotiatedChunkSize.toNat ≤ maxChunk
  | .waitChunk o _ _ => o.negotiatedChunkSize.toNat ≤ maxChunk
  | .sendGap o _ _ => o.negotiatedChunkSize.toNat ≤ maxChunk
  | .writeAt o _ _ _ => o.negotiatedChunkSize.toNat ≤ maxChunk
  | .sendProgress o _ _ => o.negotiatedChunkSize.toNat ≤ maxChunk
  | _ => True

/-- What the two receivers need of a response to agree on it. -/
def RecvResp.Admissible (cfg : ReceiverConfig) (maxMetadata maxChunk : Nat) : RecvResp H E → Prop
  | .req (some (.ok root)) => root.fileHashAlgo = some .sha256 ∧
      root.metadata.length ≤ maxMetadata ∧
      (negotiate cfg.maxChunkSize root.senderMaxChunkSize).toNat ≤ maxChunk
  | .chunk (.received (.ok c)) => c.bytes.length < UInt32.size
  | _ => True

variable {cfg : ReceiverConfig} {maxMetadata maxChunk : Nat}

/-! ## The offer -/

/-- On an offer whose metadata fits, the early checks of `recv_file_no_alloc`
only anticipate what the later ones find. -/
theorem onReq_noAlloc {body : Option (Read FileReqRoot)}
    (ha : (RecvResp.req body : RecvResp H E).Admissible cfg maxMetadata maxChunk) :
    ((Intake.noAlloc maxMetadata maxChunk).onReq cfg body : RecvPc H E) =
      Intake.alloc.onReq cfg body := by
  cases body with
  | none => rfl
  | some r =>
      cases r with
      | error e => rfl
      | ok root =>
          obtain ⟨halgo, hmeta, -⟩ := ha
          show (Intake.noAlloc maxMetadata maxChunk).onReqRoot cfg root =
            Intake.alloc.onReqRoot cfg root
          by_cases hhash : root.hash.length ≤ 32
          · simp only [Intake.onReqRoot, Intake.noAlloc, Intake.alloc, hmeta, hhash,
              not_true_eq_false, if_false]
          · -- a hash too long for the fixed vector is also one of the wrong length
            have hne : root.hash ≠ [] := by
              rintro hnil
              rw [hnil] at hhash
              exact hhash (Nat.zero_le _)
            have hlen : ¬root.hash.length = 32 := by
              intro hlen
              exact hhash (Nat.le_of_eq hlen)
            simp only [Intake.onReqRoot, Intake.noAlloc, Intake.alloc, hmeta, hhash, halgo,
              validateSha256FileHash, hne, hlen, dite_false, if_false, if_true, not_true_eq_false,
              not_false_eq_true, ne_eq]

/-! ## A chunk -/

/-- Once the negotiated size fits the buffer, both receivers refuse the same
payloads. -/
theorem oversize_noAlloc {negotiated : UInt32} {data : Bytes} (hn : negotiated.toNat ≤ maxChunk)
    (hd : data.length < UInt32.size) :
    (Intake.noAlloc maxMetadata maxChunk).oversize negotiated data =
      Intake.alloc.oversize negotiated data := by
  simp only [Intake.noAlloc, Intake.alloc, gt_iff_lt, UInt32.lt_iff_toNat_lt,
    UInt32.toNat_ofNat_lt hd, decide_eq_decide]
  omega

/-- And of those they do not refuse they write the same bytes. -/
theorem held_noAlloc (maxMetadata : Nat) {negotiated : UInt32} {data : Bytes} (hn : negotiated.toNat ≤ maxChunk)
    (hd : data.length < UInt32.size) (hsize : Intake.alloc.oversize negotiated data = false)
    (remaining : UInt32) :
    (Intake.noAlloc maxMetadata maxChunk).held data = Intake.alloc.held data ∧
      (Intake.noAlloc maxMetadata maxChunk).writeLen data remaining =
        Intake.alloc.writeLen data remaining := by
  simp only [Intake.alloc, gt_iff_lt, decide_eq_false_iff_not, UInt32.lt_iff_toNat_lt,
    UInt32.toNat_ofNat_lt hd] at hsize
  have hmin : min data.length maxChunk = data.length := by omega
  constructor
  · show data.take (min data.length maxChunk) = data
    rw [hmin, List.take_length]
  · show min (min data.length maxChunk) remaining.toNat =
      (min (UInt32.ofNat data.length) remaining).toNat
    rw [hmin, UInt32.toNat_min, UInt32.toNat_ofNat_lt hd]

/-- The two receivers do the same with a chunk. -/
theorem onChunk_noAlloc {o : Offer} {h : H} {v : RecvVars} {a : Arrival (Read FileChunkRoot)}
    (ho : o.negotiatedChunkSize.toNat ≤ maxChunk)
    (ha : (RecvResp.chunk a : RecvResp H E).Admissible cfg maxMetadata maxChunk) :
    ((Intake.noAlloc maxMetadata maxChunk).onChunk o h v a : RecvPc H E) =
      Intake.alloc.onChunk o h v a := by
  cases a with
  | unavailable => rfl
  | timeout => rfl
  | received body =>
      cases body with
      | error e => rfl
      | ok c =>
          have hd : c.bytes.length < UInt32.size := ha
          have hroot : ((Intake.noAlloc maxMetadata maxChunk).onChunkRoot o h v c : RecvPc H E) =
              Intake.alloc.onChunkRoot o h v c := by
            simp only [Intake.onChunkRoot, oversize_noAlloc ho hd]
            cases hsize : Intake.alloc.oversize o.negotiatedChunkSize c.bytes with
            | true => rfl
            | false =>
                obtain ⟨hheld, hlen⟩ := held_noAlloc maxMetadata ho hd hsize
                  (o.totalLen.saturatingSub v.nextOffset)
                rw [hheld, hlen]
          simp only [Intake.onChunk, chunkTransferId, Intake.onChunkBody, hroot]

/-! ## Whole runs -/

/-- The loop condition keeps the offer. -/
theorem RecvPc.Fits.chunkLoop {o : Offer} (ho : o.negotiatedChunkSize.toNat ≤ maxChunk) (h : H)
    (v : RecvVars) : (FileTransfer.chunkLoop o h v : RecvPc H E).Fits maxChunk := by
  unfold FileTransfer.chunkLoop
  split
  · exact ho
  · trivial

/-- The offer, and with it the negotiated size, is kept by every step. -/
theorem RecvPc.Fits.step {sha256 : Bytes → Digest} {s s' : RecvPc H E} {e : RecvEvent H E}
    (hs : s.Fits maxChunk) (ha : e.2.Admissible cfg maxMetadata maxChunk)
    (ht : Transition sha256 .alloc cfg s e s') : s'.Fits maxChunk := by
  cases ht with
  | req body =>
      have hcase : OfferCase (H := H) (E := E) cfg .alloc body (Intake.alloc.onReq cfg body) :=
        Intake.onReq_case cfg body
      generalize Intake.alloc.onReq cfg body = s at hcase ⊢
      cases hcase with
      | failed _ err _ => trivial
      | rejected root err => trivial
      | taken root o _ hof =>
          show o.negotiatedChunkSize.toNat ≤ maxChunk
          rw [hof.negotiated_eq]
          exact ha.2.2
  | begun o h => exact hs
  | accepted o h r =>
      split
      · trivial
      unfold onAccepted
      split
      · split <;> trivial
      · exact RecvPc.Fits.chunkLoop hs h {}
  | chunk o h v a =>
      have hcase : ChunkCase (E := E) .alloc o h v a (Intake.alloc.onChunk o h v a) :=
        Intake.onChunk_case o h v a
      generalize Intake.alloc.onChunk o h v a = s at hcase ⊢
      cases hcase with
      | silent _ _ => trivial
      | foreign c hid => exact hs
      | tooLarge c hid hsize => trivial
      | gap c hid hsize hoff => exact hs
      | empty c hid hsize hoff hlen => exact RecvPc.Fits.chunkLoop hs h v
      | write c w hid hsize hoff hw hlen hne => exact hs
  | gapSent o h v r =>
      unfold onProgressSent
      split
      · trivial
      · exact RecvPc.Fits.chunkLoop hs h _
  | written o h v bs =>
      simp only [onWritten]
      split
      · split <;> trivial
      split
      · exact hs
      · exact RecvPc.Fits.chunkLoop hs h _
  | progressSent o h v r =>
      unfold onProgressSent
      split
      · trivial
      · exact RecvPc.Fits.chunkLoop hs h _
  | aborted h last err => cases last <;> trivial
  | rejected | notBegun | committedEmpty | notCommittedEmpty | notWritten | committed |
      notCommitted | completed | abortSent => trivial

/-- **The two receivers have the same histories** on every list of answers of
the bus and the store, and are suspended at the same point after it: the same
store calls with the same arguments, the same acknowledgements, the same result. -/
theorem recvFile_exec_eq_recvFileNoAlloc (sha256 : Bytes → Digest) (cfg : ReceiverConfig)
    (maxMetadata maxChunk : Nat) (rs : List (RecvResp H E))
    (hoffer : ∀ root, .req (some (.ok root)) ∈ rs → root.fileHashAlgo = some .sha256 ∧
      root.metadata.length ≤ maxMetadata ∧
      (negotiate cfg.maxChunkSize root.senderMaxChunkSize).toNat ≤ maxChunk)
    (hread : ∀ c, .chunk (.received (.ok c)) ∈ rs → c.bytes.length < UInt32.size) :
    (recvFile sha256 cfg).exec .recvReq rs =
      (recvFileNoAlloc sha256 maxMetadata maxChunk cfg).exec .recvReq rs := by
  refine Coroutine.exec_congr (M := recvFile sha256 cfg)
    (N := recvFileNoAlloc sha256 maxMetadata maxChunk cfg) (RecvPc.Fits maxChunk)
    (RecvResp.Admissible cfg maxMetadata maxChunk) rfl ?_ ?_ ?_ ?_
  · intro s r hs ha
    cases s with
    | recvReq =>
        cases r with
        | req body => exact congrArg some (onReq_noAlloc ha).symm
        | chunk | sent | began | wrote | committed | aborted => rfl
    | waitChunk o h v =>
        cases r with
        | chunk a => exact congrArg some (onChunk_noAlloc hs ha).symm
        | req | sent | began | wrote | committed | aborted => rfl
    | _ =>
        -- nothing else depends on the intake
        cases r with
        | began r | wrote r | committed r => cases r <;> rfl
        | req | chunk | sent | aborted => rfl
  · intro s e s' hs ha hf
    exact hs.step ha (receiver_fire hf)
  · trivial
  · intro r hr
    match r, hr with
    | .req (some (.ok root)), hr => exact hoffer root hr
    | .chunk (.received (.ok c)), hr => exact hread c hr
    | .req none, _ | .req (some (.error _)), _ | .chunk (.received (.error _)), _ |
      .chunk .unavailable, _ | .chunk .timeout, _ | .sent _, _ | .began _, _ | .wrote _, _ |
      .committed _, _ | .aborted, _ => trivial

theorem recvFile_exec_eq_recvFileNoAlloc_abc :
    (recvFile shortSha256 {}).exec .recvReq abcResponses =
      (recvFileNoAlloc shortSha256 0 2 {}).exec .recvReq abcResponses := by
  apply recvFile_exec_eq_recvFileNoAlloc
  · intro root hroot
    simp only [abcResponses, List.mem_cons, reduceCtorEq, RecvResp.req.injEq, Option.some.injEq,
      Except.ok.injEq, List.not_mem_nil, or_false] at hroot
    subst hroot
    decide
  · intro c hc
    simp only [abcResponses, List.mem_cons, reduceCtorEq, RecvResp.chunk.injEq,
      Arrival.received.injEq, Except.ok.injEq, List.not_mem_nil, false_or, or_false] at hc
    rcases hc with rfl | rfl | rfl <;> decide

end Thincan.FileTransfer

import Thincan.FileTransfer.ReceiverHistory

/-!
# The chunk size a receiver promises

`Accept` carries the negotiated maximum chunk size, and a sender that stays
within it should not be told `ChunkSizeTooLarge`.  `Honoured` is that promise for
one receive call, read off its history: every `Accept` names a size within both
stated limits, and no later chunk within that size is answered with this error.

`recv_file` keeps the promise.  `recv_file_no_alloc` also refuses what does not
fit its buffer of `MAX_CHUNK` bytes, which the negotiation does not look at, so
it keeps the promise for an offer exactly when `Variant.HasRoom`.

`PromiseInv` follows a call from its offer to the message that ends it.  Only the
size check of the chunk loop queues a `ChunkSizeTooLarge`, and the chunk it was
about is then still the last one read.
-/

namespace Thincan.FileTransfer

open Process

variable {H E : Type}

/-! ## The promise -/

/-- How an event changes the chunk that waits for an answer: a chunk is answered
by the next message that is sent, if no other chunk is awaited before. -/
def RecvEvent.pending : RecvEvent H E → Option FileChunkRoot → Option FileChunkRoot
  | (.recvChunk, .chunk (.received (.ok c))), _ => some c
  | (.recvChunk, _), _ => none
  | (.send _, _), _ => none
  | _, p => p

/-- The chunk that the next message of the call answers. -/
def pendingChunk (hist : List (RecvEvent H E)) : Option FileChunkRoot :=
  hist.foldl (fun p e ↦ RecvEvent.pending e p) none

/-- **The promise of an `Accept`**, for a call with configuration `cfg` that took
the offer `root`. -/
structure Honoured (cfg : ReceiverConfig) (root : FileReqRoot) (hist : List (RecvEvent H E)) :
    Prop where
  /-- An accepted chunk size is not zero and within every limit that was stated. -/
  within : ∀ acc r, (.send acc, r) ∈ hist → acc.kind = .accept →
    acc.chunkSize ≠ 0 ∧ (cfg.maxChunkSize ≠ 0 → acc.chunkSize ≤ cfg.maxChunkSize) ∧
      (root.senderMaxChunkSize ≠ 0 → acc.chunkSize ≤ root.senderMaxChunkSize)
  /-- A later chunk of the transfer within it is not too large. -/
  admitted : ∀ k a r t acc r' c, hist = k ++ (.send a, r) :: t →
    (.send acc, r') ∈ k → acc.kind = .accept → pendingChunk k = some c →
    c.transferId = acc.transferId → c.bytes.length ≤ acc.chunkSize.toNat →
    ¬(a.kind = .abort ∧ a.error = .chunkSizeTooLarge)

/-- The offer is one `recv_file_no_alloc` rejects. -/
def Declined (maxMetadata : Nat) (cfg : ReceiverConfig) (root : FileReqRoot) : Prop :=
  maxMetadata < root.metadata.length ∨ root.hash.length ≠ 32 ∨
    root.fileHashAlgo ≠ some .sha256 ∨ (cfg.maxChunkSize = 0 ∧ root.senderMaxChunkSize = 0)

/-- A limit is stated, and the buffer is not smaller. -/
def Covers (maxChunk : Nat) (limit : UInt32) : Prop := limit ≠ 0 ∧ limit.toNat ≤ maxChunk

/-- The receiver has room for every chunk it agrees to: `recv_file` always, and
`recv_file_no_alloc` if the offer is declined, announces no bytes, or comes with
a limit on one of the sides that the buffer covers. -/
def Variant.HasRoom (cfg : ReceiverConfig) (root : FileReqRoot) : Variant → Prop
  | .recvFile => True
  | .recvFileNoAlloc maxMetadata maxChunk =>
      Declined maxMetadata cfg root ∨ root.totalLen = 0 ∨
        Covers maxChunk cfg.maxChunkSize ∨ Covers maxChunk root.senderMaxChunkSize

instance (maxMetadata : Nat) (cfg : ReceiverConfig) (root : FileReqRoot) :
    Decidable (Declined maxMetadata cfg root) := inferInstanceAs (Decidable (_ ∨ _))

instance (maxChunk : Nat) (limit : UInt32) : Decidable (Covers maxChunk limit) :=
  inferInstanceAs (Decidable (_ ∧ _))

/-! ## The negotiated size -/

/-- The negotiated size is within every limit that was stated. -/
theorem negotiate_within (receiverMax senderMax : UInt32) :
    (receiverMax ≠ 0 → negotiate receiverMax senderMax ≤ receiverMax) ∧
      (senderMax ≠ 0 → negotiate receiverMax senderMax ≤ senderMax) := by
  unfold negotiate
  split
  · next hr => exact ⟨fun h ↦ absurd hr h, fun _ ↦ UInt32.le_refl _⟩
  split
  · next hs => exact ⟨fun _ ↦ UInt32.le_refl _, fun h ↦ absurd hs h⟩
  · simp only [UInt32.le_iff_toNat_le, UInt32.toNat_min]
    omega

/-- It is zero if no limit was stated. -/
theorem negotiate_eq_zero {receiverMax senderMax : UInt32} :
    negotiate receiverMax senderMax = 0 ↔ receiverMax = 0 ∧ senderMax = 0 := by
  unfold negotiate
  split
  · next hr => exact ⟨fun hs ↦ ⟨hr, hs⟩, fun h ↦ h.2⟩
  next hr =>
  split
  · exact ⟨fun h ↦ absurd h hr, fun h ↦ absurd h.1 hr⟩
  · next hs =>
      simp only [UInt32.eq_zero_iff, UInt32.toNat_min] at hr hs ⊢
      omega

/-- A stated size fits the buffer if and only if the buffer covers one of the
limits. -/
theorem negotiate_le_iff {receiverMax senderMax : UInt32} {maxChunk : Nat}
    (h : negotiate receiverMax senderMax ≠ 0) :
    (negotiate receiverMax senderMax).toNat ≤ maxChunk ↔
      Covers maxChunk receiverMax ∨ Covers maxChunk senderMax := by
  unfold Covers
  unfold negotiate at h ⊢
  split at h
  · next hr => simp [hr, h]
  next hr =>
  rw [if_neg hr]
  split at h
  · next hs => simp [hs, hr]
  · next hs =>
      rw [if_neg hs, UInt32.toNat_min]
      simp only [ne_eq, hr, hs, not_false_eq_true, true_and]
      omega

/-! ## From the offer to the message that ends the call -/

variable (rx : Intake) (cfg : ReceiverConfig)

/-- The call took an offer, of which it keeps `o`. -/
def Took (hist : List (RecvEvent H E)) (o : Offer) : Prop :=
  ∃ root, offered hist = some root ∧ (rx.onReqRoot cfg root : RecvPc H E) = .beginWrite o

/-- The call is in its chunk loop. -/
def Taking (hist : List (RecvEvent H E)) (o : Offer) : Prop :=
  Took rx cfg hist o ∧ 0 < o.totalLen.toNat

/-- The chunk to be answered failed the size check. -/
def Oversized (hist : List (RecvEvent H E)) : Prop :=
  ∃ o c, Taking rx cfg hist o ∧ pendingChunk hist = some c ∧ c.transferId = o.transferId ∧
    rx.oversize o.negotiatedChunkSize c.bytes = true

/-- **What a receiver may still send** at each await point. -/
def PromiseInv (hist : List (RecvEvent H E)) : RecvPc H E → Prop
  | .recvReq => hist = []
  | .sendReject ack => ack.kind = .reject
  | .beginWrite o => Took rx cfg hist o
  | .sendAccept o _ => Took rx cfg hist o
  | .waitChunk o _ _ => Taking rx cfg hist o
  | .sendGap o _ _ => Taking rx cfg hist o
  | .writeAt o _ _ _ => Taking rx cfg hist o
  | .sendProgress o _ _ => Taking rx cfg hist o
  | .abort _ (some ack) _ =>
      ack.kind = .abort ∧ (ack.error = .chunkSizeTooLarge → Oversized rx cfg hist)
  | .sendAbort ack _ =>
      ack.kind = .abort ∧ (ack.error = .chunkSizeTooLarge → Oversized rx cfg hist)
  | _ => True

variable {rx cfg} {sha256 : Bytes → Digest} {hist : List (RecvEvent H E)} {o : Offer} {h : H}

theorem pendingChunk_snoc (hist : List (RecvEvent H E)) (e : RecvEvent H E) :
    pendingChunk (hist ++ [e]) = RecvEvent.pending e (pendingChunk hist) := by
  rw [pendingChunk, List.foldl_append]
  rfl

theorem Took.frame {e : RecvEvent H E} (ht : Took rx cfg hist o) :
    Took rx cfg (hist ++ [e]) o := by
  obtain ⟨root, hroot, ho⟩ := ht
  exact ⟨root, offered_append hroot, ho⟩

theorem Taking.frame {e : RecvEvent H E} (ht : Taking rx cfg hist o) :
    Taking rx cfg (hist ++ [e]) o := ⟨ht.1.frame, ht.2⟩

/-- An abort for another reason is within the promise. -/
theorem PromiseInv.abortWith (n : UInt32) {err : FileAckError} (he : err ≠ .chunkSizeTooLarge) :
    PromiseInv rx cfg hist (o.abortWith h n err : RecvPc H E) :=
  ⟨rfl, fun heq ↦ absurd heq he⟩

theorem PromiseInv.chunkLoop {v : RecvVars} (ht : Taking rx cfg hist o) :
    PromiseInv rx cfg hist (FileTransfer.chunkLoop o h v : RecvPc H E) := by
  unfold FileTransfer.chunkLoop
  split
  · exact ht
  · trivial

/-- Only the size check queues a `ChunkSizeTooLarge`, for the chunk just read. -/
theorem PromiseInv.onChunk {v : RecvVars} {a : Arrival (Read FileChunkRoot)}
    (ht : Taking rx cfg hist o) :
    PromiseInv rx cfg (hist ++ [(.recvChunk, .chunk a)]) (rx.onChunk o h v a : RecvPc H E) := by
  have ht' : Taking rx cfg (hist ++ [(.recvChunk, .chunk a)]) o := ht.frame
  have hcase : ChunkCase (E := E) rx o h v a (rx.onChunk o h v a) := rx.onChunk_case o h v a
  generalize rx.onChunk o h v a = s at hcase ⊢
  cases hcase with
  | silent _ _ => trivial
  | foreign c hid => exact ht'
  | tooLarge c hid hsize =>
      refine ⟨rfl, fun _ ↦ ⟨o, c, ht', ?_, hid, hsize⟩⟩
      rw [pendingChunk_snoc]
      rfl
  | gap c hid hsize hoff => exact ht'
  | empty c hid hsize hoff hlen => exact PromiseInv.chunkLoop ht'
  | write c w hid hsize hoff hw hlen hne => exact ht'

theorem PromiseInv.onWritten {v : RecvVars} {bs : Bytes} (ht : Taking rx cfg hist o) :
    PromiseInv rx cfg hist (FileTransfer.onWritten sha256 o h v bs : RecvPc H E) := by
  unfold FileTransfer.onWritten
  dsimp only
  split
  · split
    · exact .abortWith _ nofun
    · trivial
  · split
    · exact ht
    · exact .chunkLoop ht

theorem PromiseInv.onAccepted (ht : Took rx cfg hist o) :
    PromiseInv rx cfg hist (FileTransfer.onAccepted sha256 o h : RecvPc H E) := by
  unfold FileTransfer.onAccepted
  split
  · split
    · exact .abortWith _ nofun
    · trivial
  · next hz =>
      rw [UInt32.eq_zero_iff] at hz
      exact .chunkLoop ⟨ht, Nat.pos_of_ne_zero hz⟩

theorem PromiseInv.onProgressSent {v : RecvVars} {r : SendOutcome} (ht : Taking rx cfg hist o) :
    PromiseInv rx cfg hist (FileTransfer.onProgressSent o h v r : RecvPc H E) := by
  unfold FileTransfer.onProgressSent
  split
  · trivial
  · exact .chunkLoop ht

/-- What becomes of an offer. -/
theorem PromiseInv.onReqRoot (root : FileReqRoot) :
    PromiseInv rx cfg [(.recvReq, .req (some (.ok root)))]
      (rx.onReqRoot cfg root : RecvPc H E) := by
  have hcase : OfferCase (H := H) (E := E) cfg rx (some (.ok root)) (rx.onReqRoot cfg root) :=
    Intake.onReq_case cfg (some (.ok root))
  generalize hs : (rx.onReqRoot cfg root : RecvPc H E) = s at hcase ⊢
  cases hcase with
  | failed _ err hne => exact absurd rfl (hne root)
  | rejected _ err => rfl
  | taken _ o _ _ => exact ⟨root, rfl, hs⟩

/-- **Every step keeps the invariant.** -/
theorem PromiseInv.step {s s' : RecvPc H E} {e : RecvEvent H E}
    (hi : PromiseInv rx cfg hist s) (ht : Transition sha256 rx cfg s e s') :
    PromiseInv rx cfg (hist ++ [e]) s' := by
  cases ht with
  | req body =>
      obtain rfl : hist = [] := hi
      match body with
      | none => trivial
      | some (.error _) => trivial
      | some (.ok root) => exact .onReqRoot root
  | begun o h => exact Took.frame hi
  | accepted o h r =>
      split
      · trivial
      · exact .onAccepted (Took.frame hi)
  | chunk o h v a => exact .onChunk hi
  | gapSent o h v r => exact .onProgressSent (Taking.frame hi)
  | written o h v bs => exact .onWritten (Taking.frame hi)
  | progressSent o h v r => exact .onProgressSent (Taking.frame hi)
  | aborted h last err =>
      cases last with
      | none => trivial
      | some ack =>
          refine ⟨hi.1, fun herr ↦ ?_⟩
          obtain ⟨o, c, htk, hc, hid, hsize⟩ := hi.2 herr
          refine ⟨o, c, htk.frame, ?_, hid, hsize⟩
          rw [pendingChunk_snoc, hc]
          rfl
  | _ => trivial

theorem PromiseInv.of_run {s : RecvPc H E} (hr : (receiver sha256 rx cfg).Run .recvReq hist s) :
    PromiseInv rx cfg hist s :=
  hr.invariant rfl fun _ _ _ _ hi hf ↦ hi.step (receiver_fire hf)

/-! ## What the messages say -/

/-- An offer that is taken passed the precheck, and is kept as it was read. -/
theorem Intake.of_onReqRoot {root : FileReqRoot}
    (h : (rx.onReqRoot cfg root : RecvPc H E) = .beginWrite o) :
    rx.precheck root = none ∧ o.Of cfg root := by
  have hcase : OfferCase (H := H) (E := E) cfg rx (some (.ok root)) (rx.onReqRoot cfg root) :=
    Intake.onReq_case cfg (some (.ok root))
  rw [h] at hcase
  cases hcase with
  | taken _ _ hp hof => exact ⟨hp, hof⟩

/-- A message of a call, given what came before it. -/
structure Sent (rx : Intake) (cfg : ReceiverConfig) (k : List (RecvEvent H E))
    (a : FileAckValue) : Prop where
  accept : a.kind = .accept → ∃ o, Took rx cfg k o ∧
    a = fileAckAccept o.transferId o.negotiatedChunkSize
  abort : a.kind = .abort → a.error = .chunkSizeTooLarge → Oversized rx cfg k

theorem Sent.of_run {s : RecvPc H E} (hr : (receiver sha256 rx cfg).Run .recvReq hist s)
    {k t : List (RecvEvent H E)} {a : FileAckValue} {r : RecvResp H E}
    (hk : hist = k ++ (.send a, r) :: t) : Sent rx cfg k a := by
  refine hr.at_event (P := fun k e ↦ ∀ a, e.1 = .send a → Sent rx cfg k a) ?_ hk a rfl
  intro k s e s' hr hf a ha
  have hi : PromiseInv rx cfg k s := .of_run hr
  have ht : Transition sha256 rx cfg s e s' := receiver_fire hf
  cases ht with
  | rejected ack r =>
      cases ha
      have hkind : a.kind = .reject := hi
      exact ⟨fun h ↦ (nomatch hkind ▸ h), fun h ↦ (nomatch hkind ▸ h)⟩
  | accepted o h r =>
      cases ha
      exact ⟨fun _ ↦ ⟨o, hi, rfl⟩, nofun⟩
  | gapSent o h v r =>
      cases ha
      exact ⟨nofun, nofun⟩
  | progressSent o h v r =>
      cases ha
      exact ⟨nofun, nofun⟩
  | completed o r =>
      cases ha
      exact ⟨nofun, nofun⟩
  | abortSent ack err r =>
      cases ha
      exact ⟨fun h ↦ (nomatch hi.1 ▸ h), fun _ ↦ hi.2⟩
  | _ => cases ha

/-- A call keeps its first offer. -/
theorem Took.of {root : FileReqRoot} {k t : List (RecvEvent H E)} (hroot : offered hist = some root)
    (hk : hist = k ++ t) (ht : Took rx cfg k o) :
    rx.precheck root = none ∧ o.Of cfg root := by
  obtain ⟨root', hroot', ho⟩ := ht
  have heq : offered hist = some root' := hk ▸ offered_append hroot'
  rw [hroot] at heq
  obtain rfl := Option.some.inj heq
  exact Intake.of_onReqRoot ho

/-! ## Who keeps it -/

/-- A declined offer is not taken. -/
theorem Declined.not_taken {maxMetadata maxChunk : Nat} {root : FileReqRoot}
    (hd : Declined maxMetadata cfg root)
    (hp : (Intake.noAlloc maxMetadata maxChunk).precheck root = none) (hof : o.Of cfg root) :
    False := by
  rcases hd with hd | hd | hd | hd
  · have hp' : (if ¬root.metadata.length ≤ maxMetadata then some FileAckError.invalidRequest
        else if ¬root.hash.length ≤ 32 then some .hashInvalidLength else none) = none := hp
    rw [if_pos (Nat.not_le_of_lt hd)] at hp'
    cases hp'
  · rw [← hof.hash_eq] at hd
    exact hd o.expectedHash.2
  · rw [hof.algo_eq] at hd
    cases hα : o.fileHashAlgo with
    | sha256 => exact hd (by rw [hα])
  · have hz := negotiate_eq_zero.mpr hd
    have hpos := hof.negotiated_pos
    rw [hof.negotiated_eq, hz] at hpos
    exact Nat.lt_irrefl 0 hpos

/-- With room for it, a chunk within the negotiated size passes the size check. -/
theorem Variant.HasRoom.not_oversize {k : Variant} {root : FileReqRoot} {data : Bytes}
    (hroom : k.HasRoom cfg root) (hp : k.intake.precheck root = none) (hof : o.Of cfg root)
    (hpos : 0 < o.totalLen.toNat) (hlen : data.length ≤ o.negotiatedChunkSize.toNat) :
    k.intake.oversize o.negotiatedChunkSize data = false := by
  have hnarrow : ¬UInt32.ofNat data.length > o.negotiatedChunkSize := by
    have hsize := o.negotiatedChunkSize.toNat_lt_size
    rw [gt_iff_lt, UInt32.lt_iff_toNat_lt, UInt32.toNat_ofNat_lt (by omega)]
    omega
  cases k with
  | recvFile => exact decide_eq_false hnarrow
  | recvFileNoAlloc maxMetadata maxChunk =>
      refine decide_eq_false fun h ↦ h.elim (fun hbig ↦ ?_) hnarrow
      rcases hroom with hd | hz | hcov
      · exact hd.not_taken hp hof
      · rw [hof.totalLen_eq, hz] at hpos
        exact Nat.lt_irrefl 0 hpos
      · have hne : negotiate cfg.maxChunkSize root.senderMaxChunkSize ≠ 0 := by
          have hpos' := hof.negotiated_pos
          rw [hof.negotiated_eq] at hpos'
          rw [ne_eq, UInt32.eq_zero_iff]
          omega
        have hle := (negotiate_le_iff hne).mpr hcov
        rw [← hof.negotiated_eq] at hle
        omega

/-- A receiver with room keeps its promise. -/
theorem Variant.HasRoom.honoured {k : Variant} {root : FileReqRoot} {s : RecvPc H E}
    (hroom : k.HasRoom cfg root) (hr : (receiver sha256 k.intake cfg).Run .recvReq hist s)
    (hroot : offered hist = some root) : Honoured cfg root hist := by
  constructor
  · intro acc r hmem hkind
    obtain ⟨k₁, t, hk⟩ := List.append_of_mem hmem
    obtain ⟨o, htook, rfl⟩ := (Sent.of_run hr hk).accept hkind
    obtain ⟨-, hof⟩ := htook.of hroot hk
    obtain ⟨hwr, hws⟩ := negotiate_within cfg.maxChunkSize root.senderMaxChunkSize
    rw [← hof.negotiated_eq] at hwr hws
    have hpos := hof.negotiated_pos
    exact ⟨by rw [ne_eq, UInt32.eq_zero_iff]; exact Nat.ne_of_gt hpos, hwr, hws⟩
  · intro k₁ a r t acc r' c hk hmem hkind hc hid hlen ha
    obtain ⟨o', c', ⟨htook', hpos⟩, hc', -, hsize⟩ := (Sent.of_run hr hk).abort ha.1 ha.2
    obtain rfl := Option.some.inj (hc.symm.trans hc')
    obtain ⟨k₂, t₂, rfl⟩ := List.append_of_mem hmem
    rw [List.append_assoc, List.cons_append] at hk
    obtain ⟨o, htook, rfl⟩ := (Sent.of_run hr hk).accept hkind
    rw [← List.cons_append, ← List.append_assoc] at hk
    obtain ⟨hp, hof'⟩ := htook'.of hroot hk
    rw [List.append_assoc] at hk
    obtain ⟨-, hof⟩ := htook.of hroot hk
    have hlen' : c.bytes.length ≤ o'.negotiatedChunkSize.toNat := by
      rw [hof'.negotiated_eq, ← hof.negotiated_eq]
      exact hlen
    rw [hroom.not_oversize hp hof' hpos hlen'] at hsize
    cases hsize

/-- A call that is offered `root` and answered with the chunk `c`; the bus and the
store do as they are asked. -/
def oneChunk (root : FileReqRoot) (h : H) (c : FileChunkRoot) : List (RecvResp H E) :=
  [.req (some (.ok root)), .began (.ok h), .sent .ok, .chunk (.received (.ok c)), .aborted,
    .sent .ok]

/-- Whoever takes the offer and finds the chunk too large says so. -/
theorem exec_oneChunk {root : FileReqRoot} {c : FileChunkRoot} (h : H)
    (htaken : (rx.onReqRoot cfg root : RecvPc H E) = .beginWrite o) (hpos : 0 < o.totalLen.toNat)
    (hid : c.transferId = o.transferId)
    (hsize : rx.oversize o.negotiatedChunkSize c.bytes = true) :
    (receiver sha256 rx cfg).exec (.recvReq : RecvPc H E) (oneChunk root h c) =
      some ([(.recvReq, .req (some (.ok root))),
        (.beginWrite o.transferId o.totalLen, .began (.ok h)),
        (.send (fileAckAccept o.transferId o.negotiatedChunkSize), .sent .ok),
        (.recvChunk, .chunk (.received (.ok c))), (.abort h, .aborted),
        (.send (fileAckAbort o.transferId 0 .chunkSizeTooLarge), .sent .ok)],
        .done (.error .protocol)) := by
  have hz : ¬o.totalLen = 0 := by
    rw [UInt32.eq_zero_iff]
    omega
  have hreq : (rx.onReq cfg (some (.ok root)) : RecvPc H E) = .beginWrite o := htaken
  have hloop : (onAccepted sha256 o h : RecvPc H E) = .waitChunk o h {} := by
    rw [onAccepted, if_neg hz]
    exact chunkLoop_of_lt hpos
  have hchunk : (rx.onChunk o h {} (.received (.ok c)) : RecvPc H E) =
      o.abortWith h 0 .chunkSizeTooLarge := by
    have hon : (rx.onChunk o h {} (.received (.ok c)) : RecvPc H E) = rx.onChunkRoot o h {} c :=
      if_pos hid
    rw [hon, Intake.onChunkRoot, if_neg (not_not.mpr hid), if_pos hsize]
  simp only [oneChunk, Coroutine.exec, Coroutine.fire, receiver, hreq, hloop, hchunk,
    SendOutcome.isErr, Offer.abortWith, onAborted, Option.bind_some, Option.map_some,
    Bool.false_eq_true, if_false]

/-- Refusing a chunk within the negotiated size breaks the promise. -/
theorem not_honoured_of_oversize {root : FileReqRoot} {c : FileChunkRoot} (h : H)
    (htaken : (rx.onReqRoot cfg root : RecvPc H E) = .beginWrite o) (hpos : 0 < o.totalLen.toNat)
    (hid : c.transferId = o.transferId)
    (hsize : rx.oversize o.negotiatedChunkSize c.bytes = true)
    (hlen : c.bytes.length ≤ o.negotiatedChunkSize.toNat) :
    ∃ (hist : List (RecvEvent H E)) (s : RecvPc H E),
      (receiver sha256 rx cfg).Run .recvReq hist s ∧ offered hist = some root ∧
        ¬Honoured cfg root hist := by
  refine ⟨_, _, .of_exec .nil (exec_oneChunk h htaken hpos hid hsize), rfl, fun hh ↦ ?_⟩
  refine hh.admitted [_, _, _, _, _] (fileAckAbort o.transferId 0 .chunkSizeTooLarge) (.sent .ok)
    [] (fileAckAccept o.transferId o.negotiatedChunkSize) (.sent .ok) c rfl ?_ rfl rfl hid hlen
    ⟨rfl, rfl⟩
  simp

/-- Without room, the first chunk can break the promise. -/
theorem Variant.not_honoured {k : Variant} {root : FileReqRoot} (hroom : ¬k.HasRoom cfg root)
    (h : H) : ∃ (hist : List (RecvEvent H E)) (s : RecvPc H E),
      (receiver sha256 k.intake cfg).Run .recvReq hist s ∧ offered hist = some root ∧
        ¬Honoured cfg root hist := by
  cases k with
  | recvFile => exact absurd trivial hroom
  | recvFileNoAlloc maxMetadata maxChunk =>
      simp only [Variant.HasRoom, Declined, not_or, Nat.not_lt, not_not] at hroom
      obtain ⟨⟨hmeta, hhash, halgo, hzero⟩, htotal, hcov⟩ := hroom
      have hne : negotiate cfg.maxChunkSize root.senderMaxChunkSize ≠ 0 :=
        fun h ↦ hzero (negotiate_eq_zero.mp h)
      have hbig : maxChunk < (negotiate cfg.maxChunkSize root.senderMaxChunkSize).toNat := by
        rw [← Nat.not_le, negotiate_le_iff hne, not_or]
        exact hcov
      have hpos : 0 < root.totalLen.toNat := by
        rw [UInt32.eq_zero_iff] at htotal
        omega
      have hp : (Intake.noAlloc maxMetadata maxChunk).precheck root = none := by
        simp [Intake.noAlloc, hmeta, hhash]
      have htaken := Intake.onReqRoot_taken (H := H) (E := E) (d := ⟨root.hash, hhash⟩) cfg hp
        halgo rfl (by omega)
      -- one byte more than the buffer holds is still within the negotiated size
      obtain ⟨data, hlen⟩ : ∃ data : Bytes, data.length = maxChunk + 1 :=
        ⟨List.replicate (maxChunk + 1) 0, List.length_replicate⟩
      refine not_honoured_of_oversize h htaken hpos (c := ⟨root.transferId, 0, .ok data⟩) rfl
        (decide_eq_true (.inl ?_)) ?_
      · exact Nat.lt_of_lt_of_eq (Nat.lt_succ_self maxChunk) hlen.symm
      · exact Nat.le_trans (Nat.le_of_eq hlen) hbig

/-- **A receiver keeps the promise of its `Accept`, in every call that takes the
offer, if and only if it has room for every chunk it agrees to.** -/
theorem receiver_honoured_iff [Inhabited H] (sha256 : Bytes → Digest) (k : Variant)
    (cfg : ReceiverConfig) (root : FileReqRoot) :
    (∀ (hist : List (RecvEvent H E)) (s : RecvPc H E),
      (receiver sha256 k.intake cfg).Run .recvReq hist s → offered hist = some root →
      Honoured cfg root hist) ↔ k.HasRoom cfg root := by
  constructor
  · intro hall
    by_contra hroom
    have hrun : ∃ (hist : List (RecvEvent H E)) (s : RecvPc H E),
        (receiver sha256 k.intake cfg).Run .recvReq hist s ∧ offered hist = some root ∧
          ¬Honoured cfg root hist := Variant.not_honoured hroom default
    obtain ⟨hist, s, hr, hroot, hnot⟩ := hrun
    exact hnot (hall hist s hr hroot)
  · intro hroom hist s hr hroot
    exact hroom.honoured hr hroot

/-- An offer of `abc` in chunks of at most four bytes. -/
def abcWhole : FileReqRoot := ⟨7, 3, .ok [], 4, some .sha256, .ok abcDigest.1⟩

/-- A receiver without a limit of its own and with a buffer of two bytes accepts
chunks of four and then refuses one of three. -/
theorem abcWhole_refused : ∃ (hist : List (RecvEvent Unit Unit)) (s : RecvPc Unit Unit),
    (recvFileNoAlloc shortSha256 0 2 {}).Run .recvReq hist s ∧ offered hist = some abcWhole ∧
      (.send (fileAckAccept 7 4), .sent .ok) ∈ hist ∧ ¬Honoured {} abcWhole hist := by
  have hexec : (recvFileNoAlloc shortSha256 0 2 {}).exec .recvReq
      (oneChunk (E := Unit) abcWhole () ⟨7, 0, .ok abc⟩) = some (_, .done (.error .protocol)) := rfl
  refine ⟨_, _, .of_exec .nil hexec, rfl, by decide, fun hh ↦ ?_⟩
  refine hh.admitted [_, _, _, _, _] (fileAckAbort 7 0 .chunkSizeTooLarge) (.sent .ok) []
    (fileAckAccept 7 4) (.sent .ok) ⟨7, 0, .ok abc⟩ rfl ?_ rfl rfl rfl ?_ ⟨rfl, rfl⟩
  · decide
  · decide

end Thincan.FileTransfer

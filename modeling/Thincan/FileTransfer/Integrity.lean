import Thincan.FileTransfer.Network

/-!
# Integrity of a transfer

Whatever the network does to the messages of a transfer, the peer stores nothing
but the sender's bytes, in order: at every moment the stored content is a prefix
of the file, and it is the whole file when `commit` is called.  The comparison of
digests then always succeeds, for any function `sha256` whatever.

The proof looks at one receive call with an honest history.  A chunk that is
written starts where the stored content ends and is a piece of the file at that
offset, so the content stays a prefix (`Intact.step`).
-/

namespace Thincan.FileTransfer

open Process

variable {H E : Type}

/-- The call is about to report a digest that does not match. -/
def RecvPc.mismatched : RecvPc H E → Bool
  | .abort _ (some ack) _ => ack.error = .hashMismatch
  | .sendAbort ack _ => ack.error = .hashMismatch
  | _ => false

/-- The local variable `next_offset` in the chunk loop. -/
def RecvPc.nextOffset : RecvPc H E → Option UInt32
  | .waitChunk _ _ v => some v.nextOffset
  | .sendGap _ _ v => some v.nextOffset
  | .writeAt _ _ v _ => some v.nextOffset
  | .sendProgress _ _ v => some v.nextOffset
  | _ => none

/-- What has been stored is a prefix of the file, what is going to be written
continues it, and no mismatch has been found. -/
structure Intact (bytes : Bytes) (hist : List (RecvEvent H E)) (pc : RecvPc H E) : Prop where
  stored : written hist <+: bytes
  next : ∀ o h v bs, pc = .writeAt o h v bs → bs <+: bytes.drop v.nextOffset.toNat
  matching : pc.mismatched = false

variable {sha256 : Bytes → Digest} {x : SendCall} {cfg : ReceiverConfig} {rx : Intake}
  {hist : List (RecvEvent H E)} {o : Offer} {h : H} {v : RecvVars}

/-- Only the request for an offer can be the event that takes one. -/
theorem offered_of_snoc {e : RecvEvent H E} {root : FileReqRoot}
    (hroot : offered (hist ++ [e]) = some root) (he : e.1 ≠ .recvReq) :
    offered hist = some root := by
  obtain ⟨t, ht⟩ := offered_eq_some hroot
  cases hist with
  | nil =>
      obtain ⟨rfl, -⟩ := List.cons.inj ht
      exact absurd rfl he
  | cons f k =>
      obtain ⟨rfl, -⟩ := List.cons.inj ht
      rfl

/-- A prefix of the file continued by what the file has there is a prefix. -/
theorem prefix_append {bytes content w : Bytes} {n : Nat} (hc : content <+: bytes)
    (hn : content.length = n) (hw : w <+: bytes.drop n) : content ++ w <+: bytes := by
  obtain ⟨rest, rfl⟩ := hc
  rw [← hn, List.drop_left] at hw
  exact (List.prefix_append_right_inj content).mpr hw

/-- A digest of the offer is the digest of the file. -/
theorem Offer.Of.expectedHash_eq (hof : o.Of cfg (x.offer sha256).root) :
    o.expectedHash = sha256 x.bytes := Subtype.ext hof.hash_eq

theorem Offer.Of.toNat_totalLen (hx : x.Accepted) (hof : o.Of cfg (x.offer sha256).root) :
    o.totalLen.toNat = x.totalLen := by
  rw [hof.totalLen_eq]
  exact hx.toNat_totalLenU32

/-- A stored prefix as long as the file is the file. -/
theorem eq_bytes_of_length (hx : x.Accepted) (hof : o.Of cfg (x.offer sha256).root)
    {content : Bytes} (hc : content <+: x.bytes) (hlen : content.length = o.totalLen.toNat) :
    content = x.bytes :=
  hc.eq_of_length (hlen.trans (hof.toNat_totalLen hx))

/-- Every step that stores nothing and finds no mismatch keeps what is stored. -/
theorem Intact.frame {bytes : Bytes} {s s' : RecvPc H E} {e : RecvEvent H E}
    (hi : Intact bytes hist s) (he : (storeOp e).toList.flatMap StoreOp.stored = [])
    (hnext : ∀ o h v bs, s' = .writeAt o h v bs → bs <+: bytes.drop v.nextOffset.toNat)
    (hm : s'.mismatched = false) : Intact bytes (hist ++ [e]) s' := by
  refine ⟨?_, hnext, hm⟩
  rw [written_snoc, he, List.append_nil]
  exact hi.stored

/-- What the chunk loop does with an honest chunk. -/
theorem Intact.onChunk {a : Arrival (Read FileChunkRoot)}
    (hhonest : ∀ root, a = .received (.ok root) → root.transferId = x.transferId →
      ∃ c, x.Slice c ∧ root = c.root)
    (hid : o.transferId = x.transferId) (hlt : v.nextOffset.toNat < o.totalLen.toNat)
    (hi : Intact x.bytes hist (.waitChunk o h v : RecvPc H E)) :
    Intact x.bytes (hist ++ [(.recvChunk, .chunk a)]) (rx.onChunk o h v a : RecvPc H E) := by
  have hcase : ChunkCase (E := E) rx o h v a (rx.onChunk o h v a) := rx.onChunk_case o h v a
  generalize rx.onChunk o h v a = s at hcase ⊢
  cases hcase with
  | silent _ _ => exact hi.frame rfl nofun rfl
  | foreign c hid => exact hi.frame rfl nofun rfl
  | tooLarge c hid hsize => exact hi.frame rfl nofun rfl
  | gap c hid hsize hoff => exact hi.frame rfl nofun rfl
  | empty c hid hsize hoff hlen =>
      rw [chunkLoop_of_lt hlt]
      exact hi.frame rfl nofun rfl
  | write c w hid' hsize hoff hw hlen hne =>
      refine hi.frame rfl ?_ rfl
      rintro _ _ _ _ ⟨⟩
      obtain ⟨c, hslice, rfl⟩ := hhonest c rfl (hid'.trans hid)
      calc w <+: rx.held c.root.bytes := hw ▸ List.take_prefix _ _
        _ <+: c.data := rx.held_prefix c.data
        _ <+: x.bytes.drop c.offset.toNat := hslice.data_prefix
        _ = x.bytes.drop v.nextOffset.toNat := by rw [← hoff, FileChunkValue.root_offset]

/-- A write extends the stored prefix; at the end of the file the digest matches. -/
theorem Intact.onWritten {bs : Bytes} (hx : x.Accepted) (hof : o.Of cfg (x.offer sha256).root)
    (hstore : StoreInv False sha256 cfg hist (.writeAt o h v bs))
    (hi : Intact x.bytes hist (.writeAt o h v bs : RecvPc H E)) :
    Intact x.bytes (hist ++ [(.writeAt h v.nextOffset bs, .wrote (.ok ()))])
      (FileTransfer.onWritten sha256 o h v bs : RecvPc H E) := by
  obtain ⟨hl, -, -, hle⟩ := hstore
  have hw : written hist = v.hasher := hl.opened.written_eq
  have hbs : bs <+: x.bytes.drop v.nextOffset.toNat := hi.next o h v bs rfl
  have hcontent : v.hasher ++ bs <+: x.bytes :=
    prefix_append (hw ▸ hi.stored) hl.length_eq hbs
  have hwritten : written (hist ++ [((.writeAt h v.nextOffset bs, .wrote (.ok ())) :
      RecvEvent H E)]) = v.hasher ++ bs := by
    rw [written_snoc, hw]
    simp [storeOp, StoreOp.stored]
  have hcase : WriteCase (E := E) sha256 o h v bs (FileTransfer.onWritten sha256 o h v bs) :=
    onWritten_case hle
  generalize FileTransfer.onWritten sha256 o h v bs = s at hcase ⊢
  cases hcase with
  | mismatch hfull hsha =>
      refine absurd ?_ hsha
      have hlen : (v.hasher ++ bs).length = o.totalLen.toNat := by
        rw [List.length_append, hl.length_eq, hfull]
      rw [eq_bytes_of_length hx hof hcontent hlen, hof.expectedHash_eq]
  | full | progress | quiet =>
      refine ⟨hwritten ▸ hcontent, ?_, rfl⟩
      rintro _ _ _ _ ⟨⟩

/-- An empty file matches its digest. -/
theorem Intact.onAccepted {r : SendOutcome} {ack : FileAckValue} (hx : x.Accepted)
    (hof : o.Of cfg (x.offer sha256).root)
    (hi : Intact x.bytes hist (.sendAccept o h : RecvPc H E)) :
    Intact x.bytes (hist ++ [(.send ack, .sent r)])
      (if r.isErr then .abort h none .protocol else FileTransfer.onAccepted sha256 o h :
        RecvPc H E) := by
  split
  · exact hi.frame rfl nofun rfl
  unfold FileTransfer.onAccepted
  split
  · next hz =>
      have hnil : [] = x.bytes := by
        refine eq_bytes_of_length hx hof List.nil_prefix ?_
        rw [hz]
        rfl
      split
      · next hsha =>
          refine absurd ?_ hsha
          rw [hof.expectedHash_eq, ← hnil]
      · exact hi.frame rfl nofun rfl
  · next hz =>
      rw [UInt32.eq_zero_iff] at hz
      have hlt : ({} : RecvVars).nextOffset.toNat < o.totalLen.toNat := Nat.pos_of_ne_zero hz
      rw [chunkLoop_of_lt hlt]
      exact hi.frame rfl nofun rfl

/-- What follows a progress message. -/
theorem Intact.onProgressSent {bytes : Bytes} {s : RecvPc H E} {ack : FileAckValue}
    (r : SendOutcome) (hlt : v.nextOffset.toNat < o.totalLen.toNat) (hi : Intact bytes hist s) :
    Intact bytes (hist ++ [(.send ack, .sent r)])
      (FileTransfer.onProgressSent o h v r : RecvPc H E) := by
  unfold FileTransfer.onProgressSent
  split
  · exact hi.frame rfl nofun rfl
  · rw [chunkLoop_of_lt (by exact hlt)]
    exact hi.frame rfl nofun rfl

/-- **Every step of a call that took the sender's offer keeps its content
intact.** -/
theorem Intact.step {s s' : RecvPc H E} {e : RecvEvent H E}
    (hstore : StoreInv False sha256 cfg hist s) (hhonest : Honest sha256 x (hist ++ [e]))
    (hroot : offered (hist ++ [e]) = some (x.offer sha256).root)
    (hi : offered hist = some (x.offer sha256).root → Intact x.bytes hist s)
    (ht : Transition sha256 rx cfg s e s') : Intact x.bytes (hist ++ [e]) s' := by
  obtain ⟨-, hx⟩ := hhonest.offered_eq hroot rfl
  -- the offer the call keeps is the one it took
  have hof : ∀ {o : Offer}, (∃ root, offered hist = some root ∧ o.Of cfg root) →
      o.Of cfg (x.offer sha256).root := by
    rintro o ⟨root, hroot', hof⟩
    obtain rfl := Option.some.inj ((offered_append hroot').symm.trans hroot)
    exact hof
  cases ht with
  | req body =>
      obtain rfl : hist = [] := hstore
      have hcase : OfferCase (H := H) (E := E) cfg rx body (rx.onReq cfg body) :=
        Intake.onReq_case cfg body
      generalize rx.onReq cfg body = s at hcase ⊢
      cases hcase with
      | failed | rejected | taken => exact ⟨List.nil_prefix, nofun, rfl⟩
  | accepted o h r =>
      have hi := hi (offered_of_snoc hroot nofun)
      exact hi.onAccepted hx (hof (Opened.offer hstore))
  | chunk o h v a =>
      have hi := hi (offered_of_snoc hroot nofun)
      have hof := hof hstore.opened.offer
      refine hi.onChunk (fun root ha ↦ hhonest.chunk root ?_) hof.transferId_eq hstore.lt
      rw [ha]
      simp
  | gapSent o h v r =>
      exact (hi (offered_of_snoc hroot nofun)).onProgressSent r hstore.lt
  | written o h v bs =>
      have hi := hi (offered_of_snoc hroot nofun)
      exact hi.onWritten hx (hof hstore.1.opened.offer) hstore
  | progressSent o h v r =>
      exact (hi (offered_of_snoc hroot nofun)).onProgressSent r hstore.lt
  | aborted h last err =>
      have hi := hi (offered_of_snoc hroot nofun)
      cases last with
      | none => exact hi.frame rfl nofun rfl
      | some ack => exact hi.frame rfl nofun hi.matching
  | rejected | notBegun | begun | committedEmpty | notCommittedEmpty | notWritten | committed |
      notCommitted | completed | abortSent =>
      exact (hi (offered_of_snoc hroot nofun)).frame rfl nofun rfl

/-- The content of a call with an honest history is intact. -/
theorem Intact.of_run {s : RecvPc H E} (hr : (receiver sha256 rx cfg).Run .recvReq hist s)
    (hhonest : Honest sha256 x hist) (hroot : offered hist = some (x.offer sha256).root) :
    Intact x.bytes hist s := by
  induction hr with
  | nil => cases hroot
  | snoc hr hf ih =>
      exact Intact.step (StoreInv.of_run hr nofun) hhonest hroot (ih hhonest.of_append)
        (receiver_fire hf)

/-! ## Integrity -/

/-- What one receive call has made of the file `bytes` with the given digest. -/
structure Integrity (sha256 : Bytes → Digest) (bytes : Bytes) (c : RecvCall H E) : Prop where
  /-- What is stored is a prefix of the file. -/
  stored : written c.hist = bytes.take (written c.hist).length
  /-- In the chunk loop it is the part before `next_offset`. -/
  next : ∀ n, c.pc.nextOffset = some n → written c.hist = bytes.take n.toNat
  /-- When `commit` is about to be called it is the whole file, with the digest of
  the offer. -/
  committing : ∀ h, (receiver sha256 c.variant.intake c.cfg).request c.pc = some (.commit h) →
    written c.hist = bytes ∧ ∃ root, offered c.hist = some root ∧
      (sha256 (written c.hist)).1 = root.hash
  /-- So it is after the call of `commit`. -/
  committed : ∀ h r, .committed h r ∈ storeLog c.hist → written c.hist = bytes
  /-- A mismatch of digests is never found. -/
  matching : c.pc.mismatched = false

/-- At a call of `commit` the whole file is stored. -/
theorem Intact.of_commit {s : RecvPc H E} (hx : x.Accepted) (hi : Intact x.bytes hist s)
    (hstore : StoreInv False sha256 cfg hist s)
    (hroot : offered hist = some (x.offer sha256).root)
    (hs : (receiver sha256 rx cfg).request s = some (.commit h)) : written hist = x.bytes := by
  have hopen : ∀ {o content}, Opened False cfg hist o h content →
      content.length = o.totalLen.toNat → written hist = x.bytes := by
    intro o content ho hlen
    obtain ⟨root, hroot', hof⟩ := ho.offer
    obtain rfl := Option.some.inj (hroot'.symm.trans hroot)
    refine eq_bytes_of_length hx hof hi.stored ?_
    rw [ho.written_eq, hlen]
  cases s with
  | commitEmpty o h =>
      cases hs
      obtain ⟨ho, hz, -⟩ := hstore
      exact hopen ho (by rw [hz]; rfl)
  | commit o h =>
      cases hs
      obtain ⟨-, content, ho, hlen, -⟩ := hstore
      exact hopen ho hlen
  | _ => cases hs

/-- After a call of `commit` the whole file is stored. -/
theorem Intact.of_committed {s : RecvPc H E} (hr : (receiver sha256 rx cfg).Run .recvReq hist s)
    (hhonest : Honest sha256 x hist) (hroot : offered hist = some (x.offer sha256).root)
    {r : Except E Unit} (hc : .committed h r ∈ storeLog hist) : written hist = x.bytes := by
  obtain ⟨-, hx⟩ := hhonest.offered_eq hroot rfl
  have hi : written hist <+: x.bytes := (Intact.of_run hr hhonest hroot).stored
  obtain ⟨e, he, hop⟩ := List.mem_filterMap.mp hc
  obtain ⟨k, t, rfl⟩ := List.append_of_mem he
  -- the file was stored when `commit` was called
  have hk : written k = x.bytes := by
    refine hr.at_event (P := fun k e ↦ Honest sha256 x k →
      (∀ root, offered k = some root → root = (x.offer sha256).root) →
      storeOp e = some (.committed h r) → written k = x.bytes) ?_ rfl hhonest.of_append ?_ hop
    · intro k s e s' hr hf hhonest hroot hop
      have hstore : StoreInv False sha256 cfg k s := StoreInv.of_run hr nofun
      have hrequest : (receiver sha256 rx cfg).request s = some (.commit h) := by
        rw [(Coroutine.fire_eq_some.mp hf).1]
        cases receiver_fire hf with
        | committedEmpty | notCommittedEmpty | committed | notCommitted => cases hop; rfl
        | _ => cases hop
      obtain ⟨root, hroot'⟩ : ∃ root, offered k = some root := by
        cases receiver_fire hf with
        | committedEmpty | notCommittedEmpty =>
            obtain ⟨root, hroot, -⟩ := hstore.1.offer
            exact ⟨root, hroot⟩
        | committed | notCommitted =>
            obtain ⟨-, content, ho, -⟩ := hstore
            obtain ⟨root, hroot, -⟩ := ho.offer
            exact ⟨root, hroot⟩
        | _ => cases hop
      obtain rfl := hroot root hroot'
      exact (Intact.of_run hr hhonest hroot').of_commit hx hstore hroot' hrequest
    · intro root hroot'
      exact Option.some.inj ((offered_append hroot').symm.trans hroot)
  have hpre : x.bytes <+: written (k ++ e :: t) := by
    rw [written, storeLog_append, List.flatMap_append, ← hk]
    exact List.prefix_append _ _
  exact hi.eq_of_length (Nat.le_antisymm hi.length_le hpre.length_le)

/-- **Integrity of a transfer.**  In every state of every run, every receive call
that took the sender's offer has stored a prefix of the sender's bytes, the part
before `next_offset`; at `commit` it is all of them; and no mismatch of digests
is found. -/
theorem transfer_integrity (sha256 : Bytes → Digest) (x : SendCall) (w : Network H E)
    (hw : (Network.machine sha256 x).Reachable (Network.init x) w) (c : RecvCall H E)
    (hc : c ∈ w.calls) (hoffer : offered c.hist = some (x.offer sha256).root) :
    Integrity sha256 x.bytes c := by
  have hinv := Network.Inv.of_reachable hw
  have hrun := hinv.called c hc
  have hhonest := hinv.honest c hc
  obtain ⟨-, hx⟩ := hhonest.offered_eq hoffer rfl
  have hi : Intact x.bytes c.hist c.pc := .of_run hrun hhonest hoffer
  have hstore : StoreInv False sha256 c.cfg c.hist c.pc := StoreInv.of_run hrun nofun
  have htake : written c.hist = x.bytes.take (written c.hist).length :=
    List.prefix_iff_eq_take.mp hi.stored
  refine ⟨htake, ?_, ?_, ?_, hi.matching⟩
  · intro n hn
    have hloop : ∀ {o h v}, InLoop False c.cfg c.hist o h v → n = v.nextOffset →
        written c.hist = x.bytes.take n.toNat := by
      intro o h v hl hv
      have hlen : (written c.hist).length = n.toNat := by
        rw [hl.opened.written_eq, hl.length_eq, hv]
      rwa [hlen] at htake
    cases hpc : c.pc with
    | waitChunk o h v | sendGap o h v | sendProgress o h v =>
        rw [hpc] at hstore hn
        exact hloop hstore (Option.some.inj hn).symm
    | writeAt o h v bs =>
        rw [hpc] at hstore hn
        exact hloop hstore.1 (Option.some.inj hn).symm
    | _ =>
        rw [hpc] at hn
        cases hn
  · intro h hs
    have hall := hi.of_commit hx hstore hoffer hs
    exact ⟨hall, _, hoffer, by rw [hall]; rfl⟩
  · intro h r hmem
    exact Intact.of_committed hrun hhonest hoffer hmem

/-- A run in which the second chunk overtakes the first, the first is delivered
twice, and the receiver reaches `commit`. -/
def abcReordered : List (Network.Label Unit Unit) :=
  [.call .recvFile {}, .send (.sent .ok), .recv (.req (some (.ok (abcCall.offer shortSha256).root))),
    .recv (.began (.ok ())), .recv (.sent .ok),
    .send (.ack (.received (.ok (fileAckAccept 7 2).root))), .send (.sent .ok), .send (.sent .ok),
    .recv (.chunk (.received (.ok ⟨7, 2, .ok [0x63]⟩))), .recv (.sent .ok),
    .recv (.chunk (.received (.ok ⟨7, 0, .ok [0x61, 0x62]⟩))), .recv (.wrote (.ok ())),
    .recv (.sent .ok), .recv (.chunk (.received (.ok ⟨7, 0, .ok [0x61, 0x62]⟩))), .recv (.sent .ok),
    .recv (.chunk (.received (.ok ⟨7, 2, .ok [0x63]⟩))), .recv (.wrote (.ok ()))]

theorem transfer_integrity_reordered : ∃ (w : Network Unit Unit) (c : RecvCall Unit Unit),
    (Network.machine shortSha256 abcCall).Reachable (Network.init abcCall) w ∧ c ∈ w.calls ∧
      offered c.hist = some (abcCall.offer shortSha256).root ∧ written c.hist = abc ∧
      Integrity shortSha256 abc c := by
  have hexec : (Network.machine shortSha256 abcCall).exec (Network.init abcCall) abcReordered =
      some { sender := _, sendHist := _, calls := [_] } := rfl
  exact ⟨_, _, ⟨_, hexec⟩, List.mem_cons_self, rfl, rfl,
    transfer_integrity shortSha256 abcCall _ ⟨_, hexec⟩ _ List.mem_cons_self rfl⟩

end Thincan.FileTransfer

import Thincan.FileTransfer.OverBus
import Thincan.FileTransfer.StoreDiscipline

/-!
# Stores that keep what they are given

The receivers check the answers of their store, so a store may fail whenever it likes.
Here it does not: `FileStore.Keeps` says of an `AsyncFileStore` that it accepts a write
inside the announced length and keeps it, as the `MemoryStore` of the examples does.

A receive call never makes such a store fail, whatever the bus brings, for it writes only
inside the length it has announced (`Peer.memoryStore_used`).  And what it reports is
what is in the store: `recv_file` returns `Ok` only while the store holds a file with the
announced length and digest.  Together with the results about the bus, the file of the
sender is in the store of its peer when `send_file` has returned `Ok`
(`Backed.overBus_stored`).

The next call of the peer clears the store when it takes an offer.  So what is said is
about the last call that has come to `begin_write`.
-/

namespace Thincan.FileTransfer

open Process

variable {S H E : Type}

/-! ## Stores -/

/-- An implementation of `AsyncFileStore`. -/
structure FileStore (S H E : Type) where
  beginWrite (s : S) (transferId totalLen : UInt32) : Except E H × S
  writeAt (s : S) (h : H) (offset : UInt32) (bytes : Bytes) : Except E Unit × S
  commit (s : S) (h : H) : Except E Unit × S
  abort (s : S) (h : H) : S

namespace FileStore

variable (F : FileStore S H E)

/-- The answer to a request of a receive call, if it is one for the store. -/
def perform (s : S) : RecvReq H → Option (RecvResp H E × S)
  | .beginWrite transferId totalLen =>
      let (r, s) := F.beginWrite s transferId totalLen
      some (.began r, s)
  | .writeAt h offset bytes =>
      let (r, s) := F.writeAt s h offset bytes
      some (.wrote r, s)
  | .commit h =>
      let (r, s) := F.commit s h
      some (.committed r, s)
  | .abort h => some (.aborted, F.abort s h)
  | .recvReq | .recvChunk | .send _ => none

/-- The event is one of the bus, or answered by the store. -/
def Answers (s : S) (e : RecvEvent H E) (s' : S) : Prop :=
  F.perform s e.1 = some (e.2, s') ∨ F.perform s e.1 = none ∧ s' = s

/-- The store keeps what it is given; `content` is what it holds. -/
structure Keeps (content : S → Bytes) : Prop where
  begun : ∀ s transferId totalLen, (∃ h, (F.beginWrite s transferId totalLen).1 = .ok h) ∧
    (content (F.beginWrite s transferId totalLen).2).length = totalLen.toNat
  wrote : ∀ s h offset bytes, offset.toNat + bytes.length ≤ (content s).length →
    (F.writeAt s h offset bytes).1 = .ok () ∧ content (F.writeAt s h offset bytes).2 =
      (content s).take offset.toNat ++ (bytes ++ (content s).drop (offset.toNat + bytes.length))
  committed : ∀ s h, (F.commit s h).1 = .ok () ∧ content (F.commit s h).2 = content s

variable {F} {s s' : S}

theorem Answers.began {t n : UInt32} {r : Except E H}
    (h : F.Answers s (.beginWrite t n, .began r) s') : F.beginWrite s t n = (r, s') := by
  rcases h with h | ⟨h, -⟩
  · obtain ⟨hr, hs⟩ := Prod.mk.inj (Option.some.inj h)
    exact Prod.ext (RecvResp.began.inj hr) hs
  · cases h

theorem Answers.wrote {h : H} {off : UInt32} {bs : Bytes} {r : Except E Unit}
    (ha : F.Answers s (.writeAt h off bs, .wrote r) s') : F.writeAt s h off bs = (r, s') := by
  rcases ha with ha | ⟨ha, -⟩
  · obtain ⟨hr, hs⟩ := Prod.mk.inj (Option.some.inj ha)
    exact Prod.ext (RecvResp.wrote.inj hr) hs
  · cases ha

theorem Answers.committed {h : H} {r : Except E Unit}
    (ha : F.Answers s (.commit h, .committed r) s') : F.commit s h = (r, s') := by
  rcases ha with ha | ⟨ha, -⟩
  · obtain ⟨hr, hs⟩ := Prod.mk.inj (Option.some.inj ha)
    exact Prod.ext (RecvResp.committed.inj hr) hs
  · cases ha

theorem Keeps.commit_ok {content : S → Bytes} {h : H} {r : Except E Unit} (hF : F.Keeps content)
    (ha : F.Answers s (.commit h, .committed r) s') : r = .ok () := by
  have hok := (hF.committed s h).1
  rwa [ha.committed] at hok

/-- The store does not change where it sees nothing. -/
theorem Answers.quiet {e : RecvEvent H E} (ha : F.Answers s e s') (he : storeOp e = none) :
    s' = s := by
  rcases ha with ha | ⟨-, hs⟩
  · obtain ⟨q, r⟩ := e
    cases q with
    | beginWrite | writeAt | commit | abort =>
        obtain ⟨rfl, -⟩ := Prod.mk.inj (Option.some.inj ha)
        cases he
    | recvReq | recvChunk | send => cases ha
  · exact hs

end FileStore

/-- `MemoryStore`. -/
structure MemoryStore where
  bytes : Bytes := []
deriving DecidableEq, Repr

/-- The error of `MemoryStore`: "store write out of bounds". -/
structure OutOfBounds where
  stop : Nat
  len : Nat
deriving DecidableEq, Repr

/-- `begin_write`. -/
def MemoryStore.beginWrite (_ : MemoryStore) (_transferId totalLen : UInt32) :
    Except OutOfBounds Unit × MemoryStore :=
  (.ok (), ⟨List.replicate totalLen.toNat 0⟩)

/-- `write_at`. -/
def MemoryStore.writeAt (s : MemoryStore) (_ : Unit) (offset : UInt32) (bytes : Bytes) :
    Except OutOfBounds Unit × MemoryStore :=
  let stop := offset.toNat + bytes.length
  if stop > s.bytes.length then (.error ⟨stop, s.bytes.length⟩, s)
  else (.ok (), ⟨s.bytes.take offset.toNat ++ (bytes ++ s.bytes.drop stop)⟩)

/-- `MemoryStore` as an `AsyncFileStore`. -/
def memoryStore : FileStore MemoryStore Unit OutOfBounds where
  beginWrite := MemoryStore.beginWrite
  writeAt := MemoryStore.writeAt
  commit s _ := (.ok (), s)
  abort s _ := s

theorem memoryStore_keeps : memoryStore.Keeps MemoryStore.bytes where
  begun _ _ _ := ⟨⟨(), rfl⟩, List.length_replicate⟩
  wrote s h offset bytes hle := by
    have heq : memoryStore.writeAt s h offset bytes = (.ok (), _) := if_neg (Nat.not_lt_of_le hle)
    rw [heq]
    exact ⟨rfl, rfl⟩
  committed _ _ := ⟨rfl, rfl⟩

/-! ## What is in the store -/

/-- The offer of an open handle. -/
def RecvPc.openOffer : RecvPc H E → Option Offer
  | .sendAccept o _ | .commitEmpty o _ | .waitChunk o _ _ | .sendGap o _ _ | .writeAt o _ _ _
  | .sendProgress o _ _ | .commit o _ => some o
  | _ => none

/-- The call is going to report an error of the store. -/
def RecvPc.storeError : RecvPc H E → Bool
  | .abort _ _ (.store _) | .sendAbort _ (.store _) | .done (.error (.store _)) => true
  | _ => false

/-- The store has refused the call. -/
def StoreOp.failed : StoreOp H E → Bool
  | .began _ _ (.error _) | .wrote _ _ _ (.error _) | .committed _ (.error _) => true
  | _ => false

/-- The store has refused nothing. -/
structure Unfailing (hist : List (RecvEvent H E)) (pc : RecvPc H E) : Prop where
  served : ∀ op ∈ storeLog hist, op.failed = false
  noError : pc.storeError = false

/-- What was written is at the beginning of the store, and is all of it once `commit` was
called. -/
structure Stored (content : S → Bytes) (s : S) (hist : List (RecvEvent H E)) (pc : RecvPc H E) :
    Prop where
  opened : ∀ o, pc.openOffer = some o →
    written hist <+: content s ∧ (content s).length = o.totalLen.toNat
  committed : ∀ h r, .committed h r ∈ storeLog hist → content s = written hist

section Steps

variable {F : FileStore S H E} {content : S → Bytes} {s s' : S} {sha256 : Bytes → Digest}
  {cfg : ReceiverConfig} {rx : Intake} {hist : List (RecvEvent H E)} {pc pc' : RecvPc H E}
  {e : RecvEvent H E} {o : Offer} {h : H}

theorem Opened.not_committed {bytes : Bytes} (ho : Opened False cfg hist o h bytes) (h' : H)
    (r : Except E Unit) : .committed h' r ∉ storeLog hist := by
  obtain ⟨-, ⟨ws, hlog, hw⟩, -⟩ := ho
  intro hmem
  rw [hlog] at hmem
  rcases List.mem_cons.mp hmem with heq | hmem
  · cases heq
  · obtain ⟨off, w, heq⟩ := hw.mem hmem
    cases heq

theorem Stopped.not_committed (hs : Stopped False cfg hist o h) (h' : H) (r : Except E Unit) :
    .committed h' r ∉ storeLog hist := by
  obtain ⟨-, bytes, ws, tail, hlog, hw, -, htail⟩ := hs
  intro hmem
  rw [hlog] at hmem
  rcases List.mem_cons.mp hmem with heq | hmem
  · cases heq
  rcases List.mem_append.mp hmem with hmem | hmem
  · obtain ⟨off, w, heq⟩ := hw.mem hmem
    cases heq
  · rcases htail with rfl | ⟨off, w, e, rfl, -⟩
    · cases hmem
    · cases List.mem_singleton.mp hmem

/-- The store sees nothing of the event. -/
theorem Stored.quiet (hs : Stored content s hist pc) (he : storeOp e = none)
    (hopen : ∀ o, pc'.openOffer = some o → pc.openOffer = some o) :
    Stored content s (hist ++ [e]) pc' := by
  have hwritten : written (hist ++ [e]) = written hist := by
    rw [written_snoc, he, Option.toList_none, List.flatMap_nil, List.append_nil]
  refine ⟨fun o ho ↦ ?_, fun h r hmem ↦ ?_⟩
  · rw [hwritten]
    exact hs.opened o (hopen o ho)
  · rw [storeLog_snoc_of_none he] at hmem
    rw [hwritten]
    exact hs.committed h r hmem

theorem Unfailing.snoc (hu : Unfailing hist pc) (he : ∀ op, storeOp e = some op → op.failed = false)
    (hpc : pc'.storeError = false) : Unfailing (hist ++ [e]) pc' := by
  refine ⟨fun op hop ↦ ?_, hpc⟩
  rw [storeLog_snoc] at hop
  rcases List.mem_append.mp hop with hop | hop
  · exact hu.served op hop
  · exact he op (Option.mem_toList.mp hop)

/-- The loop goes on, or the call fails. -/
theorem chunkLoop_cases (o : Offer) (h : H) (v : RecvVars) :
    (chunkLoop o h v : RecvPc H E) = .waitChunk o h v ∨
      (chunkLoop o h v : RecvPc H E) = .done (.error .protocol) := by
  unfold chunkLoop
  split
  · exact .inl rfl
  · exact .inr rfl

/-- A step the store sees nothing of opens no handle, and does not blame the store. -/
structure Follows (pc pc' : RecvPc H E) : Prop where
  opened : ∀ o, pc'.openOffer = some o → pc.openOffer = some o
  blamed : pc'.storeError = true → pc.storeError = true

theorem Follows.chunkLoop {v : RecvVars} (hpc : pc.openOffer = some o) :
    Follows pc (chunkLoop o h v) := by
  rcases chunkLoop_cases (E := E) o h v with heq | heq
  · rw [heq]
    exact ⟨fun o' ho ↦ ho ▸ hpc, nofun⟩
  · rw [heq]
    exact ⟨nofun, nofun⟩

theorem Follows.onProgressSent {v : RecvVars} {r : SendOutcome} (hpc : pc.openOffer = some o) :
    Follows pc (onProgressSent o h v r) := by
  unfold FileTransfer.onProgressSent
  split
  · exact ⟨nofun, nofun⟩
  · exact .chunkLoop hpc

theorem Follows.onAccepted (hpc : pc.openOffer = some o) : Follows pc (onAccepted sha256 o h) := by
  unfold FileTransfer.onAccepted
  split
  · split
    · exact ⟨nofun, nofun⟩
    · exact ⟨fun o' ho ↦ ho ▸ hpc, nofun⟩
  · exact .chunkLoop hpc

theorem Follows.onReq {body : Option (Read FileReqRoot)} : Follows pc (rx.onReq cfg body) := by
  cases body with
  | none => exact ⟨nofun, nofun⟩
  | some r =>
      cases r with
      | error e => exact ⟨nofun, nofun⟩
      | ok root =>
          have hcase : OfferCase (H := H) (E := E) cfg rx (some (.ok root))
              (rx.onReq cfg (some (.ok root))) := Intake.onReq_case cfg _
          generalize rx.onReq cfg (some (.ok root)) = pc' at hcase ⊢
          cases hcase with
          | failed _ err hno => exact absurd rfl (hno root)
          | rejected | taken => exact ⟨nofun, nofun⟩

theorem Follows.onChunk {v : RecvVars} {a : Arrival (Read FileChunkRoot)}
    (hpc : pc.openOffer = some o) : Follows pc (rx.onChunk o h v a) := by
  have hcase : ChunkCase (E := E) rx o h v a (rx.onChunk o h v a) := rx.onChunk_case o h v a
  generalize rx.onChunk o h v a = pc' at hcase ⊢
  cases hcase with
  | silent | tooLarge => exact ⟨nofun, nofun⟩
  | foreign | gap | write => exact ⟨fun o' ho ↦ ho ▸ hpc, nofun⟩
  | empty => exact .chunkLoop hpc

theorem Transition.follows (ht : Transition sha256 rx cfg pc e pc') (he : storeOp e = none) :
    Follows pc pc' := by
  cases ht with
  | req body => exact .onReq
  | accepted o h r =>
      split
      · exact ⟨nofun, nofun⟩
      · exact .onAccepted rfl
  | chunk o h v a => exact .onChunk rfl
  | gapSent | progressSent => exact .onProgressSent rfl
  | rejected => exact ⟨nofun, nofun⟩
  | completed o r =>
      split
      · exact ⟨nofun, nofun⟩
      · exact ⟨nofun, nofun⟩
  | abortSent ack err r =>
      refine ⟨nofun, fun hb ↦ ?_⟩
      cases err with
      | store => rfl
      | protocol | capnp => cases hb
  | notBegun | begun | committedEmpty | notCommittedEmpty | written | notWritten | committed
  | notCommitted | aborted => cases he

/-- Once the last call of the store was no `commit`, what is in the store does not matter. -/
theorem Stored.of_not_committed (hopen : pc.openOffer = none)
    (hlog : ∀ h r, .committed h r ∉ storeLog hist) : Stored content s hist pc := by
  refine ⟨fun o ho ↦ ?_, fun h r hmem ↦ absurd hmem (hlog h r)⟩
  rw [hopen] at ho
  cases ho

/-- At a call of `commit` the store holds what was written. -/
theorem Stored.onCommit {bytes : Bytes} {r : Except E Unit} (hF : F.Keeps content)
    (hs : Stored content s hist pc) (ho : Opened False cfg hist o h bytes)
    (hopen : pc.openOffer = some o) (hlen : bytes.length = o.totalLen.toNat)
    (ha : F.Answers s (.commit h, .committed r) s') (hpc : pc'.openOffer = none) :
    Stored content s' (hist ++ [(.commit h, .committed r)]) pc' := by
  have hkept := (hF.committed s h).2
  rw [ha.committed] at hkept
  obtain ⟨hbegin, htotal⟩ := hs.opened o hopen
  have hwritten : written (hist ++ [(.commit h, .committed r)]) = written hist := by
    rw [written_snoc]
    exact List.append_nil _
  have hall : written hist = content s := by
    refine hbegin.eq_of_length ?_
    rw [htotal, ho.written_eq, hlen]
  refine ⟨fun o' ho' ↦ ?_, fun _ _ _ ↦ ?_⟩
  · rw [hpc] at ho'
    cases ho'
  · rw [hwritten, hall]
    exact hkept

/-- A write extends what is in the store. -/
theorem Stored.onWrite {bs : Bytes} {v : RecvVars} {r : Except E Unit} (hF : F.Keeps content)
    (hs : Stored content s hist (.writeAt o h v bs)) (hl : InLoop False cfg hist o h v)
    (hle : v.nextOffset.toNat + bs.length ≤ o.totalLen.toNat)
    (ha : F.Answers s (.writeAt h v.nextOffset bs, .wrote r) s')
    (hpc : ∀ o', pc'.openOffer = some o' → o' = o) :
    r = .ok () ∧ Stored content s' (hist ++ [(.writeAt h v.nextOffset bs, .wrote r)]) pc' := by
  obtain ⟨hbegin, htotal⟩ := hs.opened o rfl
  obtain ⟨hok, hkept⟩ := hF.wrote s h v.nextOffset bs (htotal ▸ hle)
  rw [ha.wrote] at hok hkept
  obtain rfl := hok
  have hlen : (written hist).length = v.nextOffset.toNat := by
    rw [hl.opened.written_eq, hl.length_eq]
  have htake : (content s).take v.nextOffset.toNat = written hist := by
    rw [← hlen]
    exact (List.prefix_iff_eq_take.mp hbegin).symm
  have hwritten : written (hist ++ [((.writeAt h v.nextOffset bs, .wrote (.ok ())) :
      RecvEvent H E)]) = written hist ++ bs := by
    rw [written_snoc]
    simp [storeOp, StoreOp.stored]
  have hnone : ∀ h' r', StoreOp.committed h' r' ∉
      storeLog (hist ++ [((.writeAt h v.nextOffset bs, .wrote (.ok ())) : RecvEvent H E)]) := by
    intro h' r' hmem
    rw [storeLog_snoc] at hmem
    rcases List.mem_append.mp hmem with hmem | hmem
    · exact hl.opened.not_committed h' r' hmem
    · cases List.mem_singleton.mp hmem
  refine ⟨rfl, fun o' ho' ↦ ?_, fun h' r' hmem ↦ absurd hmem (hnone h' r')⟩
  obtain rfl := hpc o' ho'
  have hkept : content s' = written hist ++
      (bs ++ (content s).drop (v.nextOffset.toNat + bs.length)) := htake ▸ hkept
  rw [hkept, hwritten, ← List.append_assoc]
  refine ⟨List.prefix_append _ _, ?_⟩
  rw [List.length_append, List.length_append, List.length_drop, hlen, htotal]
  omega

/-- **Every step keeps what is in the store**, and the store refuses nothing. -/
theorem Stored.step (hF : F.Keeps content) (hstore : StoreInv False sha256 cfg hist pc)
    (hs : Stored content s hist pc) (hu : Unfailing hist pc)
    (ht : Transition sha256 rx cfg pc e pc') (ha : F.Answers s e s') :
    Stored content s' (hist ++ [e]) pc' ∧ Unfailing (hist ++ [e]) pc' := by
  cases he : storeOp e with
  | none =>
      have hf := ht.follows he
      obtain rfl := ha.quiet he
      refine ⟨hs.quiet he hf.opened, hu.snoc (fun op hop ↦ ?_) ?_⟩
      · rw [he] at hop
        cases hop
      · rw [← Bool.not_eq_true]
        intro hb
        exact Bool.false_ne_true (hu.noError.symm.trans (hf.blamed hb))
  | some op =>
      cases ht with
      | req | rejected | accepted | chunk | gapSent | progressSent | completed | abortSent =>
          cases he
      | notBegun o err =>
          obtain ⟨⟨h, hok⟩, -⟩ := hF.begun s o.transferId o.totalLen
          rw [ha.began] at hok
          cases hok
      | begun o h =>
          obtain ⟨-, hlen⟩ := hF.begun s o.transferId o.totalLen
          rw [ha.began] at hlen
          have hlog : storeLog (hist ++ [((.beginWrite o.transferId o.totalLen, .began (.ok h)) :
              RecvEvent H E)]) = [.began o.transferId o.totalLen (.ok h)] := by
            rw [storeLog_snoc, hstore.1]
            rfl
          refine ⟨⟨fun o' ho' ↦ ?_, fun h' r' hmem ↦ ?_⟩, ?_⟩
          · obtain rfl := Option.some.inj ho'
            refine ⟨?_, hlen⟩
            rw [written, hlog]
            exact List.nil_prefix
          · rw [hlog] at hmem
            cases List.mem_singleton.mp hmem
          · exact hu.snoc (fun op hop ↦ by cases hop; rfl) rfl
      | committedEmpty o h =>
          obtain ⟨ho, hz, -⟩ := hstore
          have hlen : ([] : Bytes).length = o.totalLen.toNat := by rw [hz]; rfl
          exact ⟨hs.onCommit hF ho rfl hlen ha rfl, hu.snoc (fun op hop ↦ by cases hop; rfl) rfl⟩
      | committed o h =>
          obtain ⟨-, bytes, ho, hlen, -⟩ := hstore
          exact ⟨hs.onCommit hF ho rfl hlen ha rfl, hu.snoc (fun op hop ↦ by cases hop; rfl) rfl⟩
      | notCommittedEmpty | notCommitted => cases hF.commit_ok ha
      | written o h v bs =>
          obtain ⟨hl, -, -, hle⟩ := hstore
          have hcase : WriteCase (E := E) sha256 o h v bs (onWritten sha256 o h v bs) :=
            onWritten_case hle
          generalize onWritten sha256 o h v bs = pc' at hcase ⊢
          have hpc : (∀ o', pc'.openOffer = some o' → o' = o) ∧ pc'.storeError = false := by
            cases hcase with
            | mismatch =>
                refine ⟨fun o' ho' ↦ ?_, rfl⟩
                cases ho'
            | full | progress | quiet => exact ⟨fun o' ho' ↦ (Option.some.inj ho').symm, rfl⟩
          exact ⟨(hs.onWrite hF hl hle ha hpc.1).2, hu.snoc (fun op hop ↦ by cases hop; rfl) hpc.2⟩
      | notWritten o h v bs err =>
          obtain ⟨hl, -, -, hle⟩ := hstore
          have hpc : ∀ o', (RecvPc.recvReq : RecvPc H E).openOffer = some o' → o' = o := by
            intro o' ho'
            cases ho'
          cases (hs.onWrite hF hl hle ha hpc).1
      | aborted h last err =>
          obtain ⟨o, hstopped⟩ := hstore
          have hnone : ∀ h' r', StoreOp.committed h' r' ∉
              storeLog (hist ++ [((.abort h, .aborted) : RecvEvent H E)]) := by
            intro h' r' hmem
            rw [storeLog_snoc] at hmem
            rcases List.mem_append.mp hmem with hmem | hmem
            · exact hstopped.not_committed h' r' hmem
            · cases List.mem_singleton.mp hmem
          have hb := hu.noError
          cases last with
          | none =>
              refine ⟨.of_not_committed rfl hnone, hu.snoc (fun op hop ↦ by cases hop; rfl) ?_⟩
              cases err with
              | store => cases hb
              | protocol | capnp => rfl
          | some ack =>
              refine ⟨.of_not_committed rfl hnone, hu.snoc (fun op hop ↦ by cases hop; rfl) ?_⟩
              cases err with
              | store => cases hb
              | protocol | capnp => rfl

/-- Where the bus answers, the store is not asked. -/
theorem Transition.perform_eq_none (ht : Transition sha256 rx cfg pc e pc')
    (he : e.2.ofStore = false) (s : S) : F.perform s e.1 = none := by
  cases ht with
  | req | rejected | accepted | chunk | gapSent | progressSent | completed | abortSent => rfl
  | notBegun | begun | committedEmpty | notCommittedEmpty | written | notWritten | committed
  | notCommitted | aborted => cases he

end Steps

/-! ## A peer and its store -/

/-- A store, and the receive calls that have used it, the newest first. -/
structure Peer (S H E : Type) where
  store : S
  calls : List (RecvCall H E) := []

namespace Peer

/-- The bus answers what it likes, the store what it must. -/
inductive Label (H E : Type) where
  | bus (r : RecvResp H E)
  | serve
  | call (variant : Variant) (cfg : ReceiverConfig)

section Machine

variable (F : FileStore S H E) (sha256 : Bytes → Digest) (p : Peer S H E)

/-- The receive call `c` goes on with `r`. -/
def continueWith (c : RecvCall H E) (cs : List (RecvCall H E)) (r : RecvResp H E) (store : S) :
    Option (Peer S H E) :=
  ((receiver sha256 c.variant.intake c.cfg).fire c.pc r).map fun es ↦
    { store, calls := { c with pc := es.2, hist := c.hist ++ [es.1] } :: cs }

/-- One move. -/
def step : Label H E → Option (Peer S H E)
  | .bus r =>
      match p.calls with
      | [] => none
      | c :: cs => if r.ofStore then none else continueWith sha256 c cs r p.store
  | .serve =>
      match p.calls with
      | [] => none
      | c :: cs =>
          ((receiver sha256 c.variant.intake c.cfg (E := E)).request c.pc).bind fun q ↦
            (F.perform p.store q).bind fun (r, store) ↦ continueWith sha256 c cs r store
  | .call variant cfg =>
      if p.calls.all (·.pc.isDone) then some { p with calls := { variant, cfg } :: p.calls }
      else none

/-- The peer as a machine. -/
def machine : Machine (Peer S H E) (Label H E) where
  step p l := p.step F sha256 l

end Machine

variable {F : FileStore S H E} {content : S → Bytes} {sha256 : Bytes → Digest} {p p' : Peer S H E}

/-- The moves there are. -/
inductive Moves (F : FileStore S H E) (sha256 : Bytes → Digest) (p : Peer S H E) :
    Peer S H E → Prop
  | recv (c : RecvCall H E) (cs : List (RecvCall H E)) (e : RecvEvent H E) (pc : RecvPc H E)
      (store : S) (hcalls : p.calls = c :: cs)
      (hf : (receiver sha256 c.variant.intake c.cfg).fire c.pc e.2 = some (e, pc))
      (ha : F.Answers p.store e store) :
      Moves F sha256 p { store, calls := { c with pc, hist := c.hist ++ [e] } :: cs }
  | call (variant : Variant) (cfg : ReceiverConfig) :
      Moves F sha256 p { p with calls := { variant, cfg } :: p.calls }

theorem moves_of_step {l : Label H E} (h : p.step F sha256 l = some p') : Moves F sha256 p p' := by
  cases l with
  | bus r =>
      simp only [step] at h
      split at h
      · cases h
      · next c cs hcalls =>
          obtain ⟨hbus, h⟩ := Option.ite_none_left_eq_some.mp h
          obtain ⟨⟨e, pc⟩, hf, rfl⟩ := Option.map_eq_some_iff.mp h
          obtain rfl : e.2 = r := (Coroutine.fire_eq_some.mp hf).2.1
          rw [Bool.not_eq_true] at hbus
          refine .recv c cs e pc p.store hcalls hf (.inr ⟨?_, rfl⟩)
          exact (receiver_fire hf).perform_eq_none hbus p.store
  | serve =>
      simp only [step] at h
      split at h
      · cases h
      · next c cs hcalls =>
          obtain ⟨q, hq, h⟩ := Option.bind_eq_some_iff.mp h
          obtain ⟨⟨r, store⟩, hperform, h⟩ := Option.bind_eq_some_iff.mp h
          obtain ⟨⟨e, pc⟩, hf, rfl⟩ := Option.map_eq_some_iff.mp h
          obtain ⟨hrequest, rfl, -⟩ := Coroutine.fire_eq_some.mp hf
          obtain rfl := Option.some.inj (hq.symm.trans hrequest)
          exact .recv c cs e pc store hcalls hf (.inl hperform)
  | call variant cfg =>
      obtain ⟨-, h⟩ := Option.ite_none_right_eq_some.mp h
      obtain rfl := Option.some.inj h
      exact .call variant cfg

/-- **The invariant**: the store refuses nothing, and holds what the last call that has come to
`begin_write` has written. -/
structure Inv (content : S → Bytes) (sha256 : Bytes → Digest) (p : Peer S H E) : Prop where
  called : ∀ c ∈ p.calls, (receiver sha256 c.variant.intake c.cfg).Run .recvReq c.hist c.pc
  unfailing : ∀ c ∈ p.calls, Unfailing c.hist c.pc
  stored : ∀ newer c older, p.calls = newer ++ c :: older → (∀ d ∈ newer, storeLog d.hist = []) →
    Stored content p.store c.hist c.pc

theorem Inv.init (s : S) : Inv content sha256 ({ store := s } : Peer S H E) := by
  refine ⟨fun c hc ↦ ?_, fun c hc ↦ ?_, fun newer c older h ↦ ?_⟩
  · cases hc
  · cases hc
  · cases (List.append_eq_nil_iff.mp h.symm).2

/-- **Every move keeps the invariant.** -/
theorem Inv.moves (hF : F.Keeps content) (hi : Inv content sha256 p) (h : Moves F sha256 p p') :
    Inv content sha256 p' := by
  cases h with
  | recv c cs e pc store hcalls hf ha =>
      have hc : c ∈ p.calls := hcalls ▸ List.mem_cons_self
      have hcs : ∀ d ∈ cs, d ∈ p.calls := fun d hd ↦ hcalls ▸ List.mem_cons_of_mem c hd
      have hrun := hi.called c hc
      have ht := receiver_fire hf
      obtain ⟨hstored, hunfailing⟩ := Stored.step hF (.of_run hrun nofun)
        (hi.stored [] c cs hcalls fun _ hd ↦ absurd hd List.not_mem_nil) (hi.unfailing c hc) ht ha
      refine ⟨fun d hd ↦ ?_, fun d hd ↦ ?_, fun newer d older heq hnewer ↦ ?_⟩
      · rcases List.mem_cons.mp hd with rfl | hd
        · exact hrun.snoc hf
        · exact hi.called d (hcs d hd)
      · rcases List.mem_cons.mp hd with rfl | hd
        · exact hunfailing
        · exact hi.unfailing d (hcs d hd)
      · cases newer with
        | nil =>
            obtain ⟨rfl, rfl⟩ := List.cons.inj heq
            exact hstored
        | cons d' newer =>
            -- the store was not asked, so it is what it was
            obtain ⟨rfl, rfl⟩ := List.cons.inj heq
            have hlog := hnewer _ List.mem_cons_self
            rw [storeLog_snoc, List.append_eq_nil_iff] at hlog
            obtain ⟨hlog, he⟩ := hlog
            obtain rfl := ha.quiet (Option.toList_eq_nil_iff.mp he)
            refine hi.stored (c :: newer) d older hcalls fun d' hd' ↦ ?_
            rcases List.mem_cons.mp hd' with rfl | hd'
            · exact hlog
            · exact hnewer d' (List.mem_cons_of_mem _ hd')
  | call variant cfg =>
      refine ⟨fun d hd ↦ ?_, fun d hd ↦ ?_, fun newer d older heq hnewer ↦ ?_⟩
      · rcases List.mem_cons.mp hd with rfl | hd
        · exact .nil
        · exact hi.called d hd
      · rcases List.mem_cons.mp hd with rfl | hd
        · exact ⟨nofun, rfl⟩
        · exact hi.unfailing d hd
      · cases newer with
        | nil =>
            obtain ⟨rfl, rfl⟩ := List.cons.inj heq
            exact .of_not_committed rfl nofun
        | cons d' newer =>
            obtain ⟨rfl, hcalls⟩ := List.cons.inj heq
            exact hi.stored newer d older hcalls fun d' hd' ↦
              hnewer d' (List.mem_cons_of_mem _ hd')

theorem Inv.of_exec (hF : F.Keeps content) {s : S} {ls : List (Label H E)}
    (h : (machine F sha256).exec { store := s } ls = some p) : Inv content sha256 p :=
  Machine.Reachable.invariant ⟨ls, h⟩ (.init s) fun _ _ _ hi hs ↦ hi.moves hF (moves_of_step hs)

/-- What a store is used for by the receive calls of a peer. -/
structure Used (content : S → Bytes) (sha256 : Bytes → Digest) (p : Peer S H E) : Prop where
  /-- The store refuses nothing, and no call says it does. -/
  served : ∀ c ∈ p.calls, (∀ op ∈ storeLog c.hist, op.failed = false) ∧
    ∀ e, c.pc ≠ .done (.error (.store e))
  /-- While the last call to use the store has it open, what it has written is at the beginning of a
  file of the announced length. -/
  opened : ∀ newer c older, p.calls = newer ++ c :: older → (∀ d ∈ newer, storeLog d.hist = []) →
    ∀ o, c.pc.openOffer = some o →
      written c.hist <+: content p.store ∧ (content p.store).length = o.totalLen.toNat
  /-- When it has returned `Ok`, the store holds what it has written: a file with the reported
  length and digest. -/
  returned : ∀ newer c older, p.calls = newer ++ c :: older → (∀ d ∈ newer, storeLog d.hist = []) →
    ∀ res, c.pc = .done (.ok res) → content p.store = written c.hist ∧
      (content p.store).length = res.totalLen.toNat ∧ sha256 (content p.store) = res.fileHash

theorem Inv.used (hi : Inv content sha256 p) : Used content sha256 p := by
  constructor
  case served =>
    intro c hc
    refine ⟨(hi.unfailing c hc).served, fun e hpc ↦ ?_⟩
    have hno := (hi.unfailing c hc).noError
    rw [hpc] at hno
    cases hno
  case opened =>
    exact fun newer c older hcalls hnewer ↦ (hi.stored newer c older hcalls hnewer).opened
  case returned =>
    intro newer c older hcalls hnewer res hpc
    have hc : c ∈ p.calls := by
      rw [hcalls]
      exact List.mem_append_right _ List.mem_cons_self
    have hstore : StoreInv False sha256 c.cfg c.hist c.pc := .of_run (hi.called c hc) nofun
    rw [hpc] at hstore
    cases hstore with
    | completed o h hf =>
        have heq := (hi.stored newer c older hcalls hnewer).committed h _ hf.committed_mem
        rw [heq]
        exact ⟨rfl, hf.written_eq⟩

/-- **A store in memory never fails, and `Ok` means that the file is there**: with a `MemoryStore`,
whatever the bus brings to any number of receive calls. -/
theorem memoryStore_used (sha256 : Bytes → Digest) (s : MemoryStore)
    (ls : List (Label Unit OutOfBounds)) (p : Peer MemoryStore Unit OutOfBounds)
    (h : (machine memoryStore sha256).exec { store := s } ls = some p) :
    Used MemoryStore.bytes sha256 p :=
  (Inv.of_exec memoryStore_keeps h).used

/-- The peer of a sender that sends `abc` in two chunks, and then again, but a chunk is missing. -/
def abcTwice : List (Label Unit OutOfBounds) :=
  [.call .recvFile {}, .bus (.req (some (.ok (abcCall.offer shortSha256).root))), .serve,
    .bus (.sent .ok), .bus (.chunk (.received (.ok ⟨7, 0, .ok [0x61, 0x62]⟩))), .serve,
    .bus (.sent .ok), .bus (.chunk (.received (.ok ⟨7, 2, .ok [0x63]⟩))), .serve, .serve,
    .bus (.sent .ok),
    .call (.recvFileNoAlloc 0 2) {}, .bus (.req (some (.ok (abcCall.offer shortSha256).root)))]

theorem memoryStore_used_twice : ∃ p : Peer MemoryStore Unit OutOfBounds,
    (machine memoryStore shortSha256).exec { store := {} } abcTwice = some p ∧ p.store.bytes = abc ∧
      p.calls.map (·.pc.isDone) = [false, true] ∧ Used MemoryStore.bytes shortSha256 p := by
  have hexec : (machine memoryStore shortSha256).exec { store := {} } abcTwice =
      some { store := ⟨abc⟩, calls := [_, _] } := rfl
  exact ⟨_, hexec, rfl, rfl, memoryStore_used shortSha256 {} abcTwice _ hexec⟩

end Peer

/-! ## On the bus -/

/-- The parties of a transfer on the bus, and the store of the peer. -/
structure Backed (types depth maxBody : Nat) (π S H E : Type) where
  transfer : BusTransfer types depth maxBody π H E
  store : S

namespace Backed

variable {types depth maxBody : Nat} {π S H E : Type}

/-- Anything but an answer of the store, or that. -/
inductive Label (π H E : Type) where
  | transfer (l : BusTransfer.Label π H E)
  | serve

section Machine

variable (W : Bus.Wiring types π) (R : Route) (F : FileStore S H E) (sha256 : Bytes → Digest)
  (x : SendCall) (b : Backed types depth maxBody π S H E)

/-- One move. -/
def step : Label π H E → Option (Backed types depth maxBody π S H E)
  | .transfer (.store _) => none
  | .transfer l => (b.transfer.step W R sha256 x l).map fun transfer ↦ { b with transfer }
  | .serve =>
      (b.transfer.recvReq sha256).bind fun q ↦ (F.perform b.store q).bind fun (r, store) ↦
        (b.transfer.step W R sha256 x (.store r)).map fun transfer ↦ { transfer, store }

/-- The parties and the store as a machine. -/
def machine : Machine (Backed types depth maxBody π S H E) (Label π H E) where
  step b l := b.step W R F sha256 x l

end Machine

variable {W : Bus.Wiring types π} {R : Route} {F : FileStore S H E} {content : S → Bytes}
  {sha256 : Bytes → Digest} {x : SendCall} {buf : UInt8 → Bytes}
  {b b' : Backed types depth maxBody π S H E}

/-- The peer of the sender. -/
def peer (b : Backed types depth maxBody π S H E) : Peer S H E where
  store := b.store
  calls := b.transfer.calls

/-- A move of the parties in which the store does not answer is none of the peer and its store, or
one in which the bus answers. -/
theorem peer_of_transfer {l : BusTransfer.Label π H E} {t : BusTransfer types depth maxBody π H E}
    (hl : ∀ r, l ≠ .store r) (h : BusTransfer.Moves W R sha256 x b.transfer l t) :
    t.calls = b.transfer.calls ∨
      Peer.Moves F sha256 b.peer { store := b.store, calls := t.calls } := by
  cases h with
  | bus | issueSend | send | issueRecv => exact .inl rfl
  | recv l stack c cs e pc hs hcalls hf hreq hchunk hstore =>
      have hbus : e.2.ofStore = false := by
        rw [← Bool.not_eq_true]
        exact fun h ↦ hl _ (hstore h)
      refine .inr (.recv c cs e pc b.store hcalls hf (.inr ⟨?_, rfl⟩))
      exact (receiver_fire hf).perform_eq_none hbus b.store
  | call variant cfg => exact .inr (.call variant cfg)

/-- An answer of the store is one of the peer and its store. -/
theorem peer_of_serve {q : RecvReq H} {r : RecvResp H E} {store : S}
    {t : BusTransfer types depth maxBody π H E} (hq : b.transfer.recvReq sha256 = some q)
    (hperform : F.perform b.store q = some (r, store))
    (h : b.transfer.step W R sha256 x (.store r) = some t) :
    Peer.Moves F sha256 b.peer { store, calls := t.calls } := by
  obtain ⟨-, h⟩ := Option.ite_none_right_eq_some.mp h
  unfold BusTransfer.continueRecv at h
  split at h
  · cases h
  · next c cs hcalls =>
      obtain ⟨⟨e, pc⟩, hf, rfl⟩ := Option.map_eq_some_iff.mp h
      obtain ⟨hrequest, rfl, -⟩ := Coroutine.fire_eq_some.mp hf
      rw [BusTransfer.recvReq, hcalls] at hq
      obtain rfl := Option.some.inj (hq.symm.trans hrequest)
      exact .recv c cs e pc store hcalls hf (.inl hperform)

/-- The other send calls of the two stations are foreign. -/
def Undisturbed (R : Route) (t : UInt32) (buf : UInt8 → Bytes) : Label π H E → Prop
  | .transfer l => BusTransfer.Undisturbed R t buf l
  | .serve => True

/-- **The invariant**: that of the transfer, and that of the store. -/
structure Inv (W : Bus.Wiring types π) (R : Route) (content : S → Bytes) (sha256 : Bytes → Digest)
    (x : SendCall) (buf : UInt8 → Bytes) (b : Backed types depth maxBody π S H E) : Prop where
  transfer : BusTransfer.Inv W R sha256 x buf b.transfer
  peer : Peer.Inv content sha256 b.peer

theorem Inv.step (hF : F.Keeps content)
    (hsize : min x.config.senderMaxChunkSize x.totalLen < 2 ^ 29)
    (hi : Inv W R content sha256 x buf b) {l : Label π H E} (hl : Undisturbed R x.transferId buf l)
    (h : b.step W R F sha256 x l = some b') : Inv W R content sha256 x buf b' := by
  cases l with
  | transfer l =>
      have hstore : ∀ r, l ≠ .store r := by
        rintro r rfl
        cases h
      obtain ⟨t, ht, rfl⟩ : ∃ t, b.transfer.step W R sha256 x l = some t ∧
          { b with transfer := t } = b' := by
        cases l with
        | store r => cases h
        | _ => exact Option.map_eq_some_iff.mp h
      have hm := BusTransfer.moves_of_step ht
      refine ⟨hi.transfer.moves hsize hl hm, ?_⟩
      rcases peer_of_transfer (F := F) hstore hm with heq | hmove
      · show Peer.Inv content sha256 { store := b.store, calls := t.calls }
        rw [heq]
        exact hi.peer
      · exact hi.peer.moves hF hmove
  | serve =>
      obtain ⟨q, hq, h⟩ := Option.bind_eq_some_iff.mp h
      obtain ⟨⟨r, store⟩, hperform, h⟩ := Option.bind_eq_some_iff.mp h
      obtain ⟨t, ht, rfl⟩ := Option.map_eq_some_iff.mp h
      refine ⟨hi.transfer.moves hsize ?_ (BusTransfer.moves_of_step ht),
        hi.peer.moves hF (peer_of_serve hq hperform ht)⟩
      rintro a n c - hl
      cases hl

theorem Inv.of_exec (hF : F.Keeps content)
    (hsize : min x.config.senderMaxChunkSize x.totalLen < 2 ^ 29) {s : S} {ls : List (Label π H E)}
    (h : (machine W R F sha256 x).exec ⟨BusTransfer.init x buf, s⟩ ls = some b)
    (hl : ∀ l ∈ ls, Undisturbed R x.transferId buf l) : Inv W R content sha256 x buf b := by
  have hmeets : (machine W R F sha256 x).Meets (fun _ l ↦ Undisturbed R x.transferId buf l)
      (⟨BusTransfer.init x buf, s⟩ : Backed types depth maxBody π S H E) ls := .of_forall hl _
  exact hmeets.invariant (fun _ _ _ hi hl hs ↦ hi.step hF hsize hl hs) ⟨.init, .init s⟩ h

/-- **The file arrives.**  When the sender of a non-empty file, with chunks of less than 2^29 bytes,
has returned `Ok`, a receive call of its peer has committed it, and while no later call has begun
to write the store of the peer holds the bytes of the sender. -/
theorem overBus_stored (W : Bus.Wiring types π) (R : Route) (sha256 : Bytes → Digest) (x : SendCall)
    (buf : UInt8 → Bytes) (hsize : min x.config.senderMaxChunkSize x.totalLen < 2 ^ 29)
    (s : MemoryStore) (ls : List (Label π Unit OutOfBounds))
    (b : Backed types depth maxBody π MemoryStore Unit OutOfBounds)
    (h : (machine W R memoryStore sha256 x).exec ⟨BusTransfer.init x buf, s⟩ ls = some b)
    (hl : ∀ l ∈ ls, Undisturbed R x.transferId buf l) (hne : x.bytes ≠ []) (res : SendFileResult)
    (hok : b.transfer.sender = .done (.ok res)) :
    ∃ newer c older, b.transfer.calls = newer ++ c :: older ∧
      offered c.hist = some (x.offer sha256).root ∧ written c.hist = x.bytes ∧
      ((∀ d ∈ newer, storeLog d.hist = []) → b.store.bytes = x.bytes) := by
  have hi := Inv.of_exec memoryStore_keeps hsize h hl
  obtain ⟨c, hc, hoffer, ⟨h, hmem⟩, hwritten⟩ := hi.transfer.committed_of_ok hne hok
  obtain ⟨newer, older, hcalls⟩ := List.append_of_mem hc
  refine ⟨newer, c, older, hcalls, hoffer, hwritten, fun hnewer ↦ ?_⟩
  rw [← hwritten]
  exact (hi.peer.stored newer c older hcalls hnewer).committed h _ hmem

/-- The transfer of the bus, with a store. -/
def storedRun : List (Label Unit Unit OutOfBounds) :=
  BusTransfer.transferRun.map fun l ↦
    match l with
    | .store _ => .serve
    | l => .transfer l

theorem storedRun_undisturbed (l : Label Unit Unit OutOfBounds) (h : l ∈ storedRun) :
    Undisturbed BusTransfer.fromFirst 7 BusTransfer.ninetySix l := by
  obtain ⟨k, hk, rfl⟩ := List.mem_map.mp h
  have hundisturbed := BusTransfer.transferRun_undisturbed k hk
  cases k with
  | store => trivial
  | _ => exact hundisturbed

theorem overBus_stored_transfer : ∃ b : Backed 4 2 96 Unit MemoryStore Unit OutOfBounds,
    (machine BusTransfer.fourTypes BusTransfer.fromFirst memoryStore shortSha256
        BusTransfer.wholeCall).exec
        ⟨BusTransfer.init BusTransfer.wholeCall BusTransfer.ninetySix, {}⟩ storedRun = some b ∧
      b.transfer.sender = .done (.ok ⟨7, 3, 64, 1, 0⟩) ∧ b.store.bytes = abc := by
  have hrun : ((machine BusTransfer.fourTypes BusTransfer.fromFirst memoryStore shortSha256
      BusTransfer.wholeCall).exec
        (⟨BusTransfer.init BusTransfer.wholeCall BusTransfer.ninetySix, {}⟩ :
          Backed 4 2 96 Unit MemoryStore Unit OutOfBounds) storedRun).any (fun b ↦
        b.transfer.sender = .done (.ok ⟨7, 3, 64, 1, 0⟩) ∧ b.transfer.calls.length = 1) = true := by
    decide +kernel
  obtain ⟨b, hexec, hb⟩ := Option.any_eq_true _ _ |>.mp hrun
  obtain ⟨hok, hone⟩ := of_decide_eq_true hb
  obtain ⟨newer, c, older, hcalls, -, -, hstored⟩ := overBus_stored BusTransfer.fourTypes
    BusTransfer.fromFirst shortSha256 BusTransfer.wholeCall BusTransfer.ninetySix (by decide) {}
    storedRun b hexec storedRun_undisturbed (by decide) _ hok
  have hnil : newer = [] := by
    rw [hcalls, List.length_append, List.length_cons] at hone
    exact List.length_eq_zero_iff.mp (by omega)
  exact ⟨b, hexec, hok, hstored fun _ hd ↦ absurd (hnil ▸ hd) List.not_mem_nil⟩

end Backed

end Thincan.FileTransfer

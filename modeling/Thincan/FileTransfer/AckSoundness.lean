import Thincan.FileTransfer.ReceiverHistory

/-!
# Soundness of the receivers' acknowledgements

The schema promises that an acknowledgement with `nextOffset` accounts for all
bytes in `[0, nextOffset)`.  `AckSound` is that promise for one receive call,
against any peer, store and transport: the shape of the sequence of messages
handed to the transport, and for each message what had happened before it.

A call may also hand nothing to the transport.  It then never read an offer, or
its store refused to open the file (which is not reported to the sender), or the
transport did not take the one message it tried to send: `Silent`.

The shape is an invariant of the await points (`AckInv`).  What a message
accounts for is read off the store invariant at the point where it is sent.
-/

namespace Thincan.FileTransfer

open Process

variable {H E : Type}

/-! ## The acknowledgements of an accepted offer -/

/-- The messages handed over for an accepted offer while the transfer is going
on: `Accept`, then progress with non-decreasing offsets up to `n`, all inside
the file. -/
def Acked (o : Offer) (n : UInt32) (as : List FileAckValue) : Prop :=
  ∃ ps : List UInt32,
    as = fileAckAccept o.transferId o.negotiatedChunkSize ::
      ps.map (fileAckProgress o.transferId) ∧
    ps.Pairwise (· ≤ ·) ∧ ∀ m ∈ ps, m ≤ n ∧ m < o.totalLen

namespace Acked

variable {o : Offer} {n n' : UInt32} {as : List FileAckValue}

theorem accept (o : Offer) :
    Acked o 0 [fileAckAccept o.transferId o.negotiatedChunkSize] :=
  ⟨[], rfl, .nil, nofun⟩

theorem mono (ha : Acked o n as) (hn : n ≤ n') : Acked o n' as := by
  obtain ⟨ps, rfl, hs, hle⟩ := ha
  refine ⟨ps, rfl, hs, ?_⟩
  intro m hm
  exact ⟨UInt32.le_trans (hle m hm).1 hn, (hle m hm).2⟩

/-- One more progress message. -/
theorem progress (ha : Acked o n as) (hn : n < o.totalLen) :
    Acked o n (as ++ [fileAckProgress o.transferId n]) := by
  obtain ⟨ps, rfl, hs, hle⟩ := ha
  refine ⟨ps ++ [n], by simp, ?_, ?_⟩
  · refine List.pairwise_append.mpr ⟨hs, List.pairwise_singleton _ _, fun m hm m' hm' ↦ ?_⟩
    rw [List.mem_singleton.mp hm']
    exact (hle m hm).1
  · intro m hm
    rcases List.mem_append.mp hm with hm | hm
    · exact hle m hm
    · rw [List.mem_singleton.mp hm]
      exact ⟨UInt32.le_refl n, hn⟩

/-- All offsets named so far are at most `n`. -/
theorem le (ha : Acked o n as) {a : FileAckValue} (hmem : a ∈ as) : a.nextOffset ≤ n := by
  obtain ⟨ps, rfl, -, hle⟩ := ha
  rcases List.mem_cons.mp hmem with rfl | hmem
  · exact UInt32.zero_le
  · obtain ⟨m, hm, rfl⟩ := List.mem_map.mp hmem
    exact (hle m hm).1

theorem pairwise (ha : Acked o n as) : as.Pairwise fun a b ↦ a.nextOffset ≤ b.nextOffset := by
  obtain ⟨ps, rfl, hs, -⟩ := ha
  refine List.pairwise_cons.mpr ⟨fun a _ ↦ UInt32.zero_le, ?_⟩
  exact List.pairwise_map.mpr hs

end Acked

/-! ## The invariant -/

/-- The reasons for handing nothing to the transport. -/
inductive Silent (hist : List (RecvEvent H E)) : Prop
  | /-- No offer was read. -/
    noOffer (h : offered hist = none)
  | /-- The store did not open the file. -/
    notBegun (t n : UInt32) (e : E) (h : .began t n (.error e) ∈ storeLog hist)
  | /-- The transport did not take the message. -/
    notHanded (ack : FileAckValue) (kind : ErrorKind)
      (h : (.send ack, .sent (.failed kind false)) ∈ hist)

/-- The messages of a call that sends no more of them. -/
inductive AckClosed (hist : List (RecvEvent H E)) : Prop
  | silent (hnil : acks hist = []) (why : Silent hist)
  | rejected (t : UInt32) (err : FileAckError) (has : acks hist = [fileAckReject t err])
  | stopped (o : Offer) (n : UInt32) (ha : Acked o n (acks hist))
  | aborted (o : Offer) (n : UInt32) (err : FileAckError) (as : List FileAckValue)
      (ha : Acked o n as) (has : acks hist = as ++ [fileAckAbort o.transferId n err])
  | completed (o : Offer) (as : List FileAckValue) (ha : Acked o o.totalLen as)
      (has : acks hist = as ++ [fileAckComplete o.transferId o.totalLen])

/-- **What has been handed to the transport** at each await point. -/
def AckInv (hist : List (RecvEvent H E)) : RecvPc H E → Prop
  | .recvReq => acks hist = []
  | .sendReject ack => acks hist = [] ∧ ∃ t err, ack = fileAckReject t err
  | .beginWrite _ => acks hist = []
  | .sendAccept _ _ => acks hist = []
  | .commitEmpty o _ => Acked o 0 (acks hist)
  | .waitChunk o _ v => Acked o v.nextOffset (acks hist)
  | .sendGap o _ v => Acked o v.nextOffset (acks hist)
  | .writeAt o _ v _ => Acked o v.nextOffset (acks hist)
  | .sendProgress o _ v => Acked o v.nextOffset (acks hist)
  | .commit o _ => Acked o o.totalLen (acks hist)
  | .sendComplete o => Acked o o.totalLen (acks hist)
  | .abort _ none _ => AckClosed hist
  | .abort _ (some ack) _ =>
      ∃ o n err, ack = fileAckAbort o.transferId n err ∧ Acked o n (acks hist)
  | .sendAbort ack _ => ∃ o n err, ack = fileAckAbort o.transferId n err ∧ Acked o n (acks hist)
  | .done _ => AckClosed hist

/-! ## Frame lemmas -/

variable {sha256 : Bytes → Digest} {cfg : ReceiverConfig} {rx : Intake}
  {hist : List (RecvEvent H E)} {o : Offer} {h : H} {v : RecvVars}

theorem acks_snoc_of_none {e : RecvEvent H E} (he : handedAck e = none) :
    acks (hist ++ [e]) = acks hist := by
  rw [acks_snoc, he, Option.toList_none, List.append_nil]

theorem acks_snoc_handed {ack : FileAckValue} {r : SendOutcome} (hr : r.handed = true) :
    acks (hist ++ [((.send ack, .sent r) : RecvEvent H E)]) = acks hist ++ [ack] := by
  rw [acks_snoc]
  simp [handedAck, hr]

theorem acks_snoc_lost {ack : FileAckValue} {r : SendOutcome} (hr : r.handed = false) :
    acks (hist ++ [((.send ack, .sent r) : RecvEvent H E)]) = acks hist := by
  apply acks_snoc_of_none
  simp [handedAck, hr]

theorem handedAck_send {ack a : FileAckValue} {r : SendOutcome}
    (ha : handedAck ((.send ack, .sent r) : RecvEvent H E) = some a) : ack = a := by
  simp only [handedAck] at ha
  split at ha
  · exact Option.some.inj ha
  · cases ha

/-- A send that did not reach the transport has failed. -/
theorem SendOutcome.eq_failed {r : SendOutcome} (hr : r.handed = false) :
    ∃ kind, r = .failed kind false := by
  cases r with
  | ok => cases hr
  | failed kind handed => exact ⟨kind, by rw [show handed = false from hr]⟩

theorem SendOutcome.handed_of_ok {r : SendOutcome} (hr : ¬r.isErr = true) : r.handed = true := by
  cases r with
  | ok => rfl
  | failed kind handed => exact absurd rfl hr

/-- The message of a send joins the messages, or the send is the reason why it
did not. -/
theorem acks_snoc_send (hist : List (RecvEvent H E)) (ack : FileAckValue) (r : SendOutcome) :
    acks (hist ++ [((.send ack, .sent r) : RecvEvent H E)]) = acks hist ++ [ack] ∨
      acks (hist ++ [((.send ack, .sent r) : RecvEvent H E)]) = acks hist ∧
        Silent (hist ++ [((.send ack, .sent r) : RecvEvent H E)]) := by
  cases hr : r.handed with
  | true => exact .inl (acks_snoc_handed hr)
  | false =>
      obtain ⟨kind, rfl⟩ := SendOutcome.eq_failed hr
      exact .inr ⟨acks_snoc_lost hr, .notHanded ack kind (by simp)⟩

/-- Events that are not sends leave the messages of a call with an offer as they
are. -/
theorem AckClosed.frame {e : RecvEvent H E} (hoff : ∃ root, offered hist = some root ∧ o.Of cfg root)
    (he : handedAck e = none) (hc : AckClosed hist) : AckClosed (hist ++ [e]) := by
  have heq : acks (hist ++ [e]) = acks hist := acks_snoc_of_none he
  cases hc with
  | silent hnil why =>
      refine .silent (heq.trans hnil) ?_
      cases why with
      | noOffer hno =>
          obtain ⟨root, hroot, -⟩ := hoff
          rw [hno] at hroot
          cases hroot
      | notBegun t n err hmem =>
          refine .notBegun t n err ?_
          rw [storeLog_append]
          exact List.mem_append_left _ hmem
      | notHanded ack kind hmem => exact .notHanded ack kind (List.mem_append_left _ hmem)
  | rejected t err has => exact .rejected t err (heq.trans has)
  | stopped o n ha => exact .stopped o n (by rwa [heq])
  | aborted o n err as ha has => exact .aborted o n err as ha (heq.trans has)
  | completed o as ha has => exact .completed o as ha (heq.trans has)

/-- A progress message at the current offset keeps the messages sound. -/
theorem Acked.progress_sent (ha : Acked o v.nextOffset (acks hist))
    (hlt : v.nextOffset.toNat < o.totalLen.toNat) (r : SendOutcome) :
    Acked o v.nextOffset
      (acks (hist ++
        [((.send (fileAckProgress o.transferId v.nextOffset), .sent r) : RecvEvent H E)])) := by
  rcases acks_snoc_send hist (fileAckProgress o.transferId v.nextOffset) r with heq | ⟨heq, -⟩
  · rw [heq]
    exact ha.progress (UInt32.lt_iff_toNat_lt.mpr hlt)
  · rwa [heq]

/-! ## The invariant is kept -/

/-- What follows a progress acknowledgement keeps the invariant. -/
theorem AckInv.onProgressSent (r : SendOutcome) (hlt : v.nextOffset.toNat < o.totalLen.toNat)
    (ha : Acked o v.nextOffset (acks hist)) :
    AckInv (hist ++ [(.send (fileAckProgress o.transferId v.nextOffset), .sent r)])
      (FileTransfer.onProgressSent o h v r : RecvPc H E) := by
  have ha' := ha.progress_sent hlt r
  unfold FileTransfer.onProgressSent
  split
  · exact .stopped o _ ha'
  · rw [chunkLoop_of_lt (by exact hlt)]
    exact ha'

/-- What the chunk loop does with a chunk keeps the invariant. -/
theorem AckInv.onChunk {a : Arrival (Read FileChunkRoot)}
    (hlt : v.nextOffset.toNat < o.totalLen.toNat) (ha : Acked o v.nextOffset (acks hist)) :
    AckInv (hist ++ [(.recvChunk, .chunk a)]) (rx.onChunk o h v a : RecvPc H E) := by
  have ha' : Acked o v.nextOffset (acks (hist ++ [((.recvChunk, .chunk a) : RecvEvent H E)])) := by
    rwa [acks_snoc_of_none rfl]
  have hcase : ChunkCase (E := E) rx o h v a (rx.onChunk o h v a) := rx.onChunk_case o h v a
  generalize rx.onChunk o h v a = s at hcase ⊢
  cases hcase with
  | silent _ _ => exact .stopped o _ ha'
  | foreign c hid => exact ha'
  | tooLarge c hid hsize => exact ⟨o, _, _, rfl, ha'⟩
  | gap c hid hsize hoff => exact ha'
  | empty c hid hsize hoff hlen =>
      rw [chunkLoop_of_lt hlt]
      exact ha'
  | write c w hid hsize hoff hw hlen hne => exact ha'

/-- What the loop does with a successful write keeps the invariant. -/
theorem AckInv.onWritten {bs : Bytes} (hle : v.nextOffset.toNat + bs.length ≤ o.totalLen.toNat)
    (ha : Acked o v.nextOffset (acks hist)) :
    AckInv (hist ++ [(.writeAt h v.nextOffset bs, .wrote (.ok ()))])
      (FileTransfer.onWritten sha256 o h v bs : RecvPc H E) := by
  have ha' : Acked o v.nextOffset
      (acks (hist ++ [((.writeAt h v.nextOffset bs, .wrote (.ok ())) : RecvEvent H E)])) := by
    rwa [acks_snoc_of_none rfl]
  have htotal : v.nextOffset ≤ o.totalLen := UInt32.le_iff_toNat_le.mpr (by omega)
  have hcase : WriteCase (E := E) sha256 o h v bs (FileTransfer.onWritten sha256 o h v bs) :=
    onWritten_case hle
  generalize FileTransfer.onWritten sha256 o h v bs = s at hcase ⊢
  cases hcase with
  | mismatch hfull hsha => exact ⟨o, _, _, rfl, ha'.mono htotal⟩
  | full hfull hsha => exact ha'.mono htotal
  | progress v' hlt hnext hlast hhash =>
      exact ha'.mono (UInt32.le_iff_toNat_le.mpr (by omega))
  | quiet v' hlt hnext hlast hhash hstride =>
      exact ha'.mono (UInt32.le_iff_toNat_le.mpr (by omega))

/-- What follows the accepted offer keeps the invariant. -/
theorem AckInv.onAccepted (r : SendOutcome) (hnil : acks hist = []) :
    AckInv (hist ++ [(.send (fileAckAccept o.transferId o.negotiatedChunkSize), .sent r)])
      (if r.isErr then .abort h none .protocol else FileTransfer.onAccepted sha256 o h :
        RecvPc H E) := by
  split
  · rcases acks_snoc_send hist (fileAckAccept o.transferId o.negotiatedChunkSize) r with
      heq | ⟨heq, hsilent⟩
    · refine .stopped o 0 ?_
      rw [heq, hnil]
      exact .accept o
    · exact .silent (heq.trans hnil) hsilent
  next herr =>
  have ha : Acked o 0 (acks (hist ++
      [((.send (fileAckAccept o.transferId o.negotiatedChunkSize), .sent r) : RecvEvent H E)])) := by
    rw [acks_snoc_handed (SendOutcome.handed_of_ok herr), hnil]
    exact .accept o
  unfold FileTransfer.onAccepted
  split
  · split
    · exact ⟨o, 0, _, rfl, ha⟩
    · exact ha
  · next hz =>
      rw [UInt32.eq_zero_iff] at hz
      have hlt : ({} : RecvVars).nextOffset.toNat < o.totalLen.toNat := Nat.pos_of_ne_zero hz
      rw [chunkLoop_of_lt hlt]
      exact ha

/-- **Every step keeps the invariant on the messages.** -/
theorem AckInv.step {s s' : RecvPc H E} {e : RecvEvent H E}
    (hstore : StoreInv False sha256 cfg hist s) (hi : AckInv hist s)
    (ht : Transition sha256 rx cfg s e s') : AckInv (hist ++ [e]) s' := by
  cases ht with
  | req body =>
      obtain rfl : hist = [] := hstore
      have hcase : OfferCase (H := H) (E := E) cfg rx body (rx.onReq cfg body) :=
        Intake.onReq_case cfg body
      generalize rx.onReq cfg body = s at hcase ⊢
      cases hcase with
      | failed _ err hno =>
          refine .silent rfl (.noOffer ?_)
          match body, hno with
          | none, _ => rfl
          | some (.error e), _ => rfl
          | some (.ok root), hno => exact absurd rfl (hno root)
      | rejected root err => exact ⟨rfl, _, _, rfl⟩
      | taken root o _ hof => exact acks_snoc_of_none rfl
  | rejected ack r =>
      obtain ⟨hnil, t, err, rfl⟩ := hi
      rcases acks_snoc_send hist (fileAckReject t err) r with heq | ⟨heq, hsilent⟩
      · exact .rejected t err (by rw [heq, hnil, List.nil_append])
      · exact .silent (heq.trans hnil) hsilent
  | notBegun o e =>
      have hnil : acks hist = [] := hi
      refine .silent ((acks_snoc_of_none rfl).trans hnil) (.notBegun o.transferId o.totalLen e ?_)
      rw [storeLog_append]
      exact List.mem_append_right _ List.mem_cons_self
  | begun o h => exact (acks_snoc_of_none rfl).trans hi
  | accepted o h r => exact AckInv.onAccepted r hi
  | committedEmpty o h | notCommittedEmpty o h =>
      exact .stopped o 0 (by rwa [acks_snoc_of_none rfl])
  | chunk o h v a => exact AckInv.onChunk hstore.lt hi
  | gapSent o h v r => exact AckInv.onProgressSent r hstore.lt hi
  | written o h v bs => exact AckInv.onWritten hstore.2.2.2 hi
  | notWritten o h v bs e => exact .stopped o v.nextOffset (by rwa [acks_snoc_of_none rfl])
  | progressSent o h v r => exact AckInv.onProgressSent r hstore.lt hi
  | committed o h =>
      show Acked o o.totalLen _
      rwa [acks_snoc_of_none rfl]
  | notCommitted o h e => exact .stopped o o.totalLen (by rwa [acks_snoc_of_none rfl])
  | completed o r =>
      rcases acks_snoc_send hist (fileAckComplete o.transferId o.totalLen) r with heq | ⟨heq, -⟩
      · exact .completed o _ hi heq
      · exact .stopped o o.totalLen (by rwa [heq])
  | aborted h last err =>
      have heq : acks (hist ++ [((.abort h, .aborted) : RecvEvent H E)]) = acks hist :=
        acks_snoc_of_none rfl
      cases last with
      | some ack =>
          obtain ⟨o, n, err', rfl, ha⟩ := hi
          exact ⟨o, n, err', rfl, by rwa [heq]⟩
      | none => exact AckClosed.frame hstore.choose_spec.offer rfl hi
  | abortSent ack err r =>
      obtain ⟨o, n, err', rfl, ha⟩ := hi
      rcases acks_snoc_send hist (fileAckAbort o.transferId n err') r with heq | ⟨heq, -⟩
      · exact .aborted o n err' _ ha heq
      · exact .stopped o n (by rwa [heq])

/-- The invariant on the messages holds along every run. -/
theorem AckInv.of_run {s : RecvPc H E} (hr : (receiver sha256 rx cfg).Run .recvReq hist s) :
    AckInv hist s := by
  induction hr with
  | nil => exact (rfl : acks ([] : List (RecvEvent H E)) = [])
  | snoc hr hf ih => exact ih.step (StoreInv.of_run hr nofun) (receiver_fire hf)

/-! ## What a message accounts for -/

/-- What had happened when a progress or completion message was handed over. -/
structure Accounted (k : List (RecvEvent H E)) (a : FileAckValue) (root : FileReqRoot) : Prop where
  /-- The message is about the offer the call took. -/
  offered_eq : offered k = some root
  transferId_eq : a.transferId = root.transferId
  /-- It names the number of bytes stored so far. -/
  nextOffset_eq : a.nextOffset.toNat = (written k).length
  /-- Progress is only reported inside the file. -/
  ack_lt : a.kind = .ack → a.nextOffset < root.totalLen
  /-- Completion is only reported after a successful `commit` of all of it. -/
  complete : a.kind = .complete →
    a.nextOffset = root.totalLen ∧ ∃ h, .committed h (.ok ()) ∈ storeLog k

/-- A progress message inside the chunk loop is accounted for. -/
theorem InLoop.accounted (hl : InLoop False cfg hist o h v) :
    ∃ root, Accounted hist (fileAckProgress o.transferId v.nextOffset) root := by
  obtain ⟨root, hroot, hof⟩ := hl.opened.offer
  refine ⟨root, hroot, hof.transferId_eq, ?_, ?_, nofun⟩
  · rw [hl.opened.written_eq, hl.length_eq]
    rfl
  · intro _
    rw [← hof.totalLen_eq]
    exact UInt32.lt_iff_toNat_lt.mpr hl.lt

/-- Every progress or completion message is accounted for when it is sent. -/
theorem Transition.accounted {s s' : RecvPc H E} {e : RecvEvent H E} {a : FileAckValue}
    (hr : (receiver sha256 rx cfg).Run .recvReq hist s) (ht : Transition sha256 rx cfg s e s')
    (ha : handedAck e = some a) (hk : a.kind = .ack ∨ a.kind = .complete) :
    ∃ root, Accounted hist a root := by
  have hstore : StoreInv False sha256 cfg hist s := StoreInv.of_run hr nofun
  have hack : AckInv hist s := AckInv.of_run hr
  cases ht with
  | rejected ack r =>
      obtain ⟨-, t, err, rfl⟩ := hack
      obtain rfl := handedAck_send ha
      rcases hk with hk | hk <;> cases hk
  | accepted o h r =>
      obtain rfl := handedAck_send ha
      rcases hk with hk | hk <;> cases hk
  | gapSent o h v r =>
      obtain rfl := handedAck_send ha
      exact InLoop.accounted hstore
  | progressSent o h v r =>
      obtain rfl := handedAck_send ha
      exact InLoop.accounted hstore
  | completed o r =>
      obtain rfl := handedAck_send ha
      obtain ⟨-, h, hf⟩ := hstore
      obtain ⟨root, hroot, hof⟩ := hf.offer
      exact ⟨root, hroot, hof.transferId_eq, hf.written_eq.1.symm, nofun,
        fun _ ↦ ⟨hof.totalLen_eq, h, hf.committed_mem⟩⟩
  | abortSent ack err r =>
      obtain ⟨o, n, err', rfl, -⟩ := hack
      obtain rfl := handedAck_send ha
      rcases hk with hk | hk <;> cases hk
  | _ => cases ha

/-! ## Soundness -/

/-- The order of the messages of one call: `Reject` alone, or `Accept`, progress
and at most one of `Complete` and `Abort`. -/
def AckShape (kinds : List FileAckKind) : Prop :=
  kinds = [.reject] ∨ ∃ n last, kinds = .accept :: List.replicate n .ack ++ last ∧
    (last = [] ∨ last = [.complete] ∨ last = [.abort])

/-- In the right order, `Complete` is the last message. -/
theorem AckShape.complete_last {xs ys : List FileAckKind}
    (hs : AckShape (xs ++ .complete :: ys)) : ys = [] := by
  rcases hs with hs | ⟨n, last, heq, hlast⟩
  · cases xs <;> simp at hs
  rcases List.append_eq_append_iff.mp heq with ⟨zs, hzs, htail⟩ | ⟨zs, rfl, htail⟩
  · -- `Complete` would be `Accept` or progress
    cases zs with
    | nil =>
        rw [List.nil_append] at htail
        rcases hlast with rfl | rfl | rfl <;> cases htail
        rfl
    | cons z zs =>
        obtain ⟨rfl, -⟩ := List.cons.inj htail
        have hmem : FileAckKind.complete ∈ FileAckKind.accept :: List.replicate n .ack := by
          rw [hzs]
          simp
        simp at hmem
  · cases zs with
    | nil =>
        rcases hlast with rfl | rfl | rfl <;> cases htail
        rfl
    | cons z zs =>
        rcases hlast with rfl | rfl | rfl
        · cases htail
        · simp at htail
        · simp at htail

/-- The messages of one call are in order and never go back. -/
structure AckOrder (as : List FileAckValue) : Prop where
  shape : as = [] ∨ AckShape (as.map (·.kind))
  monotone : as.Pairwise fun a b ↦ a.nextOffset ≤ b.nextOffset

/-- What one receive call promises with the messages it hands to the transport. -/
structure AckSound (hist : List (RecvEvent H E)) : Prop where
  order : AckOrder (acks hist)
  accounted : ∀ k e t a, hist = k ++ e :: t → handedAck e = some a →
    a.kind = .ack ∨ a.kind = .complete → ∃ root, Accounted k a root
  complete_last : ∀ k e t a, hist = k ++ e :: t → handedAck e = some a → a.kind = .complete →
    acks t = []

theorem Acked.kinds {n : UInt32} {as : List FileAckValue} (ha : Acked o n as) :
    ∃ m, as.map (·.kind) = .accept :: List.replicate m .ack := by
  obtain ⟨ps, rfl, -, -⟩ := ha
  refine ⟨ps.length, ?_⟩
  simp [fileAckAccept, fileAckProgress, Function.comp_def, List.map_const']

theorem Acked.ne_nil {n : UInt32} {as : List FileAckValue} (ha : Acked o n as) : as ≠ [] := by
  obtain ⟨ps, rfl, -, -⟩ := ha
  exact List.cons_ne_nil _ _

/-- The messages of an accepted offer are in order, also with a last one that
names no smaller offset. -/
theorem Acked.order {n : UInt32} {as last : List FileAckValue} (ha : Acked o n as)
    (hlast : last = [] ∨ ∃ a, last = [a] ∧ n ≤ a.nextOffset ∧
      (a.kind = .complete ∨ a.kind = .abort)) : AckOrder (as ++ last) := by
  obtain ⟨m, hm⟩ := ha.kinds
  rcases hlast with rfl | ⟨a, rfl, hn, hk⟩
  · rw [List.append_nil]
    exact ⟨.inr (.inr ⟨m, [], by rw [hm, List.append_nil], .inl rfl⟩), ha.pairwise⟩
  constructor
  · refine .inr (.inr ⟨m, [a.kind], by rw [List.map_append, hm, List.map_singleton], .inr ?_⟩)
    rcases hk with hk | hk
    · exact .inl (by rw [hk])
    · exact .inr (by rw [hk])
  · refine List.pairwise_append.mpr ⟨ha.pairwise, List.pairwise_singleton _ _, ?_⟩
    intro b hb c hc
    rw [List.mem_singleton.mp hc]
    exact UInt32.le_trans (ha.le hb) hn

theorem AckOrder.of_nil {as : List FileAckValue} (hnil : as = []) : AckOrder as := by
  rw [hnil]
  exact ⟨.inl rfl, .nil⟩

theorem Acked.order_nil {n : UInt32} {as : List FileAckValue} (ha : Acked o n as) :
    AckOrder as := by
  have := ha.order (.inl rfl)
  rwa [List.append_nil] at this

theorem AckClosed.order (hc : AckClosed hist) : AckOrder (acks hist) := by
  cases hc with
  | silent hnil why => exact .of_nil hnil
  | rejected t err has =>
      rw [has]
      exact ⟨.inr (.inl rfl), List.pairwise_singleton _ _⟩
  | stopped o n ha => exact ha.order_nil
  | aborted o n err as ha has =>
      rw [has]
      exact ha.order (.inr ⟨_, rfl, UInt32.le_refl n, .inr rfl⟩)
  | completed o as ha has =>
      rw [has]
      exact ha.order (.inr ⟨_, rfl, UInt32.le_refl _, .inl rfl⟩)

/-- The messages at any await point are in order. -/
theorem AckInv.order {s : RecvPc H E} (hi : AckInv hist s) : AckOrder (acks hist) := by
  cases s with
  | recvReq | beginWrite | sendAccept => exact .of_nil hi
  | sendReject ack => exact .of_nil hi.1
  | commitEmpty | waitChunk | sendGap | writeAt | sendProgress | commit | sendComplete =>
      exact Acked.order_nil hi
  | abort h last err =>
      cases last with
      | none => exact AckClosed.order hi
      | some ack =>
          obtain ⟨o, n, err', -, ha⟩ := hi
          exact ha.order_nil
  | sendAbort ack err =>
      obtain ⟨o, n, err', -, ha⟩ := hi
      exact ha.order_nil
  | done r => exact AckClosed.order hi

/-- A call that has returned without a message had one of three reasons. -/
theorem AckClosed.silent_of_nil (hc : AckClosed hist) (hnil : acks hist = []) : Silent hist := by
  cases hc with
  | silent _ why => exact why
  | rejected t err has => rw [hnil] at has; cases has
  | stopped o n ha => exact absurd hnil ha.ne_nil
  | aborted o n err as ha has => rw [hnil] at has; simp at has
  | completed o as ha has => rw [hnil] at has; simp at has

/-- The messages of a call are sound at every await point. -/
theorem AckSound.of_run {s : RecvPc H E} (hrun : (receiver sha256 rx cfg).Run .recvReq hist s) :
    AckSound hist := by
  have hinv : AckInv hist s := AckInv.of_run hrun
  refine ⟨hinv.order, ?_, ?_⟩
  · intro k e t a heq ha hk
    refine hrun.at_event (P := fun k e ↦ handedAck e = some a → ∃ root, Accounted k a root) ?_ heq ha
    intro k s e s' hr hf ha
    exact (receiver_fire hf).accounted hr ha hk
  · intro k e t a heq ha hk
    have hacks : acks hist = acks k ++ a :: acks t := by
      rw [heq, acks, List.filterMap_append, List.filterMap_cons, ha]
      rfl
    rcases hinv.order.shape with hnil | hshape
    · rw [hacks] at hnil
      simp at hnil
    rw [hacks, List.map_append, List.map_cons, hk] at hshape
    exact List.map_eq_nil_iff.mp hshape.complete_last

/-- **The acknowledgements of both receivers are sound**, against any peer and
any behaviour of the store and the transport. -/
theorem receiver_ackSound (sha256 : Bytes → Digest) (k : Variant) (cfg : ReceiverConfig)
    (hist : List (RecvEvent H E)) (s : RecvPc H E)
    (hrun : (receiver sha256 k.intake cfg).Run .recvReq hist s) :
    AckSound hist ∧ ∀ r, s = .done r → acks hist = [] → Silent hist := by
  refine ⟨.of_run hrun, ?_⟩
  rintro r rfl hnil
  have hclosed : AckClosed hist := AckInv.of_run hrun
  exact hclosed.silent_of_nil hnil

/-- Every progress or completion message of a call was accounted for when it was
handed over. -/
theorem AckSound.accounted_of_mem (hs : AckSound hist) {a : FileAckValue} (ha : a ∈ acks hist)
    (hk : a.kind = .ack ∨ a.kind = .complete) :
    ∃ k t root, hist = k ++ t ∧ Accounted k a root := by
  obtain ⟨e, he, hhanded⟩ := List.mem_filterMap.mp ha
  obtain ⟨k, t, rfl⟩ := List.append_of_mem he
  obtain ⟨root, hacc⟩ := hs.accounted k e t a rfl hhanded hk
  exact ⟨k, e :: t, root, rfl, hacc⟩

/-- A well-formed offer, and a store that does not open the file. -/
def refusedResponses : List (RecvResp Unit Unit) :=
  [.req (some (.ok ⟨7, 3, .ok [], 2, some .sha256, .ok abcDigest.1⟩)), .began (.error ())]

/-- A store that refuses to open the file is not reported: the call returns
without a message. -/
theorem recvFile_sends_nothing : ∃ hist r,
    (recvFile shortSha256 {}).Run .recvReq hist (.done r : RecvPc Unit Unit) ∧
      ¬AckShape ((acks hist).map (·.kind)) := by
  have he : (recvFile shortSha256 {}).exec .recvReq refusedResponses = some (_, .done _) := rfl
  refine ⟨_, _, .of_exec .nil he, ?_⟩
  rintro (h | ⟨n, last, h, -⟩)
  · exact absurd h (by decide)
  · exact absurd h.symm (List.cons_ne_nil _ _)

/-- A peer that offers `abc` in chunks of two bytes and repeats the first chunk. -/
def repeatedResponses : List (RecvResp Unit Unit) :=
  [.req (some (.ok ⟨7, 3, .ok [], 2, some .sha256, .ok abcDigest.1⟩)), .began (.ok ()), .sent .ok,
    .chunk (.received (.ok ⟨7, 0, .ok [0x61, 0x62]⟩)), .wrote (.ok ()), .sent .ok,
    .chunk (.received (.ok ⟨7, 0, .ok [0x61, 0x62]⟩)), .sent .ok]

theorem receiver_ackSound_repeated : ∃ hist s,
    (recvFileNoAlloc shortSha256 0 2 {}).exec .recvReq repeatedResponses = some (hist, s) ∧
      (acks hist).map (·.nextOffset) = [0, 2, 2] ∧ AckSound hist := by
  have he : (recvFileNoAlloc shortSha256 0 2 {}).exec .recvReq repeatedResponses =
    some (_, _) := rfl
  exact ⟨_, _, he, by decide,
    (receiver_ackSound shortSha256 (.recvFileNoAlloc 0 2) {} _ _ (.of_exec .nil he)).1⟩

end Thincan.FileTransfer

import Thincan.Bus.Mailbox
import Thincan.FileTransfer.Integrity
import Thincan.FileTransfer.LossyLink

/-!
# Runs without losses

One `send_file_with_id` call against one `recv_file` call over a link that loses
nothing, with waits that do not time out and a transport and a store that do not
fail.

`Stage` says exactly what such a link can look like: in the data phase the chunks
in flight are those from the last one taken to the last one sent, and the
acknowledgements in flight are those from the last one the sender has seen to the
last one sent, one for each chunk.  Each stage has a rank, the number of moves
that are left at most.  Every move lowers it, and a link that cannot move is at
the end.
-/

namespace Thincan.FileTransfer

open Process

variable {H E : Type}

/-- A link that loses nothing, over which nothing fails or times out, and one
receive call. -/
def Regime.lossless : Regime where
  loss := false
  timeouts := false
  faults := false
  recalls := false

theorem Regime.lossless_send {r : SendResp} (h : Regime.lossless.allowsSend r = true) :
    r = .sent .ok ∨ ∃ body, r = .ack (.received body) := by
  cases r with
  | sent o =>
      cases o with
      | ok => exact .inl rfl
      | failed => cases h
  | ack a =>
      cases a with
      | received body => exact .inr ⟨body, rfl⟩
      | timeout | unavailable => cases h

/-! ## Stages -/

section Stages

variable (sha256 : Bytes → Digest) (x : SendCall) (cfg : ReceiverConfig)

/-- The number of chunks of the file. -/
def SendCall.total : Nat := x.chunkCount (x.agreed cfg)

/-- The acknowledgement of the first `j` chunks. -/
def SendCall.report (j : Nat) : FileAckValue :=
  if j < x.total cfg then fileAckProgress x.transferId (x.offsetU32 (x.agreed cfg) j)
  else fileAckComplete x.transferId x.totalLenU32

/-- What the sender returns. -/
def SendCall.sentResult : SendFileResult :=
  ⟨x.transferId, x.totalLen, x.agreed cfg, x.total cfg, 0⟩

/-- What the receiver returns. -/
def SendCall.receivedResult : RecvFileResult :=
  (x.kept sha256 cfg).result (x.kept sha256 cfg).totalLen

/-- The receiver in the data phase: the chunks it has taken, the chunks it has
acknowledged, and the moves it has left. -/
inductive RecvStage : RecvPc H E → (taken reported rank : Nat) → Prop
  | waitChunk (h : H) (r : Nat) (hr : r < x.total cfg) :
      RecvStage (.waitChunk (x.kept sha256 cfg) h (x.vars (x.agreed cfg) r)) r r
        (3 * (x.total cfg - r) + 1)
  | writeAt (h : H) (r : Nat) (hr : r < x.total cfg) :
      RecvStage (.writeAt (x.kept sha256 cfg) h (x.vars (x.agreed cfg) r)
        (x.chunkAt (x.agreed cfg) r).data) (r + 1) r (3 * (x.total cfg - r))
  | sendProgress (h : H) (r : Nat) (hr : r + 1 < x.total cfg) :
      RecvStage (.sendProgress (x.kept sha256 cfg) h (x.varsUnreported (x.agreed cfg) (r + 1)))
        (r + 1) r (3 * (x.total cfg - (r + 1)) + 2)
  | commit (h : H) (r : Nat) (hr : r + 1 = x.total cfg) :
      RecvStage (.commit (x.kept sha256 cfg) h) (r + 1) r 2
  | sendComplete (r : Nat) (hr : r + 1 = x.total cfg) :
      RecvStage (.sendComplete (x.kept sha256 cfg)) (r + 1) r 1
  | done : RecvStage (.done (.ok (x.receivedResult sha256 cfg))) (x.total cfg) (x.total cfg) 0

/-- The receiver after it has accepted an empty file, or at its end. -/
inductive Tail : RecvPc H E → (rank : Nat) → Prop
  | commitEmpty (h : H) (hN : x.total cfg = 0) : Tail (.commitEmpty (x.kept sha256 cfg) h) 1
  | done : Tail (.done (.ok (x.receivedResult sha256 cfg))) 0

/-- The receiver when its first message is in flight. -/
inductive Accepting : RecvPc H E → (rank : Nat) → Prop
  | empty (pc : RecvPc H E) (k : Nat) (hN : x.total cfg = 0) (hpc : Tail sha256 x cfg pc k) :
      Accepting pc k
  | waitChunk (h : H) (hN : 0 < x.total cfg) :
      Accepting (.waitChunk (x.kept sha256 cfg) h (x.vars (x.agreed cfg) 0))
        (3 * x.total cfg + 1)

/-- The variables of a sender that was acknowledged `a` chunks, has sent `i` and
has repeated none. -/
structure Counted (v : SendVars) (a i : Nat) : Prop where
  chunkSize : v.chunkSize = x.agreed cfg
  acked : v.lastAcked.toNat = x.offset (x.agreed cfg) a
  next : v.nextToSend.toNat = x.offset (x.agreed cfg) i
  sent : v.chunksSent = i
  retries : v.retries = 0

/-- **The stages of a run without losses**: where the two parties stand, the
offers, chunks and acknowledgements in flight, and the moves left. -/
inductive Stage : SendPc → RecvPc H E → List FileOfferValue → List FileChunkValue →
    List FileAckValue → (rank : Nat) → Prop
  | offering : Stage (.offerSend 0) .recvReq [] [] [] (5 * x.total cfg + 6)
  | offered : Stage (.offerWait 0) .recvReq [x.offer sha256] [] [] (5 * x.total cfg + 5)
  | opening : Stage (.offerWait 0) (.beginWrite (x.kept sha256 cfg)) [] [] [] (5 * x.total cfg + 4)
  | opened (h : H) :
      Stage (.offerWait 0) (.sendAccept (x.kept sha256 cfg) h) [] [] [] (5 * x.total cfg + 3)
  | accepting (pc : RecvPc H E) (k : Nat) (hpc : Accepting sha256 x cfg pc k) :
      Stage (.offerWait 0) pc [] []
        [fileAckAccept x.transferId (negotiate cfg.maxChunkSize x.maxChunkU32)]
        (2 * x.total cfg + 1 + k)
  | data (v : SendVars) (pc : RecvPc H E) (a i t s k : Nat) (hv : Counted x cfg v a i)
      (ha : a < x.total cfg) (has : a ≤ s) (hti : t ≤ i) (hi : i ≤ x.limit (x.agreed cfg) a)
      (hpc : RecvStage sha256 x cfg pc t s k) :
      Stage (x.dataLoop v) pc [] (Chunking.segment (x.chunkAt (x.agreed cfg)) t i)
        (Chunking.segment (x.report cfg) (a + 1) (s + 1))
        (x.total cfg - i + (x.total cfg - a) + k)
  | finished (pc : RecvPc H E) (k : Nat) (hpc : Tail sha256 x cfg pc k) :
      Stage (.done (.ok (x.sentResult cfg))) pc [] [] [] k

end Stages

section Steps

variable {sha256 : Bytes → Digest} {x : SendCall} {cfg : ReceiverConfig} {pc pc' : RecvPc H E}
  {k : Nat}

theorem RecvStage.reported_le {t s : Nat} (h : RecvStage sha256 x cfg pc t s k) :
    s ≤ t ∧ t ≤ x.total cfg := by
  cases h with
  | waitChunk h r hr | writeAt h r hr | sendProgress h r hr => omega
  | commit h r hr | sendComplete r hr => omega
  | done => omega

/-! ## Steps of the receiver -/

/-- The call is answered with a message. -/
def RecvResp.isMessage : RecvResp H E → Bool
  | .req _ | .chunk _ => true
  | _ => false

/-- What the receiver can do in the data phase: take a chunk, work on its own, or
report the chunk it has taken. -/
inductive RecvMoved (sha256 : Bytes → Digest) (x : SendCall) (cfg : ReceiverConfig)
    (e : RecvEvent H E) (pc' : RecvPc H E) (t s k : Nat) : Prop
  | took (he : e = (.recvChunk, .chunk (.received (.ok (x.chunkAt (x.agreed cfg) t).root))))
      (hpc : RecvStage sha256 x cfg pc' (t + 1) s k)
  | worked (hown : e.2.isMessage = false) (hack : handedAck e = none)
      (hpc : RecvStage sha256 x cfg pc' t s k)
  | reported (hown : e.2.isMessage = false) (hack : handedAck e = some (x.report cfg (s + 1)))
      (hpc : RecvStage sha256 x cfg pc' t (s + 1) k)

/-- A step of the receiver in the data phase, when the chunk it takes is the
oldest in flight. -/
theorem RecvStage.step (hx : x.Accepted) {t s : Nat} {e : RecvEvent H E}
    (h : RecvStage sha256 x cfg pc t s k) (hρ : Regime.lossless.allowsRecv e.2 = true)
    (hnext : ∀ body, e.2 = .chunk (.received body) →
      body = .ok (x.chunkAt (x.agreed cfg) t).root)
    (ht : Transition sha256 .alloc cfg pc e pc') : ∃ j < k, RecvMoved sha256 x cfg e pc' t s j := by
  cases h with
  | waitChunk h _ hr =>
      cases ht with
      | chunk _ _ _ arrival =>
      cases arrival with
      | timeout | unavailable => cases hρ
      | received body =>
          obtain rfl := hnext body rfl
          rw [hx.onChunk_chunkAt hr hr, if_pos rfl]
          exact ⟨_, Nat.lt_succ_self _, .took rfl (.writeAt h t hr)⟩
  | writeAt h _ hr =>
      cases ht with
      | notWritten => cases hρ
      | written =>
      rw [hx.onWritten_chunkAt hr]
      split
      · next hlast => exact ⟨2, by omega, .worked rfl rfl (.commit h s hlast)⟩
      · next hlast =>
          have hr' : s + 1 < x.total cfg := Nat.lt_of_le_of_ne hr hlast
          exact ⟨_, by omega, .worked rfl rfl (.sendProgress h s hr')⟩
  | sendProgress h _ hr =>
      cases ht with
      | progressSent _ _ _ out =>
      cases out with
      | failed => cases hρ
      | ok =>
          rw [hx.onProgressSent_kept hr (.inr rfl)]
          refine ⟨_, Nat.lt_succ_self _, .reported rfl ?_ (.waitChunk h (s + 1) hr)⟩
          rw [SendCall.report, if_pos hr]
          rfl
  | commit h _ hr =>
      cases ht with
      | notCommitted => cases hρ
      | committed => exact ⟨1, Nat.lt_succ_self 1, .worked rfl rfl (.sendComplete s hr)⟩
  | sendComplete _ hr =>
      cases ht with
      | completed _ out =>
      cases out with
      | failed => cases hρ
      | ok =>
          refine ⟨0, Nat.one_pos, .reported rfl ?_ ?_⟩
          · rw [SendCall.report, if_neg (Nat.not_lt_of_le (Nat.le_of_eq hr.symm))]
            rfl
          · rw [hr]
            exact .done
  | done => cases ht

/-- The only step left of a receiver that has accepted an empty file. -/
theorem Tail.step {e : RecvEvent H E} (h : Tail sha256 x cfg pc k) (hx : x.Accepted)
    (hρ : Regime.lossless.allowsRecv e.2 = true) (ht : Transition sha256 .alloc cfg pc e pc') :
    ∃ j < k, Tail sha256 x cfg pc' j ∧ e.2.isMessage = false ∧ handedAck e = none := by
  cases h with
  | commitEmpty h hN =>
      cases ht with
      | notCommittedEmpty => cases hρ
      | committedEmpty =>
      have hzero : x.totalLen = 0 := (SendCall.chunkCount_eq_zero_iff (hx.agreed_pos cfg)).mp hN
      have htotal : (x.kept sha256 cfg).totalLen = 0 := by
        rw [UInt32.eq_zero_iff, ← hzero]
        exact hx.toNat_totalLenU32
      have hres : (x.kept sha256 cfg).result 0 = x.receivedResult sha256 cfg := by
        rw [SendCall.receivedResult, htotal]
      rw [hres]
      exact ⟨0, Nat.one_pos, .done, rfl, rfl⟩
  | done => cases ht

/-! ## Steps of the sender -/

/-- The variables of a sender whose offer was just accepted. -/
theorem Counted.zero : Counted x cfg { chunkSize := x.agreed cfg } 0 0 :=
  ⟨rfl, Chunking.start_zero.symm, Chunking.start_zero.symm, rfl, rfl⟩

/-- Before the last acknowledgement the sender sends while it is inside the window
and waits at the end of it. -/
theorem Counted.dataLoop (hx : x.Accepted) {v : SendVars} {a i : Nat} (hv : Counted x cfg v a i)
    (ha : a < x.total cfg) (hai : a ≤ i) (hi : i ≤ x.limit (x.agreed cfg) a) :
    i < x.limit (x.agreed cfg) a ∧ x.dataLoop v = .chunkSend v ∨
      i = x.limit (x.agreed cfg) a ∧ x.dataLoop v = .ackWait v := by
  rcases x.dataLoop_index (hx.agreed_pos cfg) hv.chunkSize hv.acked hv.next hai hi with
    ⟨hN, -⟩ | ⟨-, hsend⟩ | ⟨-, hwait⟩
  · exact absurd hN (Nat.ne_of_lt ha)
  · exact .inl hsend
  · exact .inr hwait

/-- A send of the sender lowers the rank. -/
theorem Stage.step_sent {s s' : SendPc} {e : SendEvent} {os : List FileOfferValue}
    {ks : List FileChunkValue} {as : List FileAckValue} (hx : x.Accepted)
    (h : Stage sha256 x cfg s pc os ks as k) (ht : SendTransition sha256 x s e s')
    (he : e.2 = .sent .ok) :
    ∃ j < k, Stage sha256 x cfg s' pc (os ++ (handedOffer e).toList)
      (ks ++ (handedChunk e).toList) as j := by
  cases h with
  | offering =>
      cases ht
      cases he
      exact ⟨_, Nat.lt_succ_self _, .offered⟩
  | offered | opening | opened | accepting => cases ht; cases he
  | data v _ a i t s k hv ha has hti hi hpc =>
      have hai : a ≤ i := Nat.le_trans has (Nat.le_trans hpc.reported_le.1 hti)
      rcases hv.dataLoop hx ha hai hi with ⟨hlt, heq⟩ | ⟨-, heq⟩
      · rw [heq] at ht
        cases ht
        cases he
        have hiN : i < x.total cfg := Nat.lt_of_lt_of_le hlt SendCall.limit_le_count
        have hcase := hx.onChunkSent_case (v := v) (hv.next ▸ SendCall.offset_le_total) .ok
        generalize x.onChunkSent v .ok = s' at hcase ⊢
        cases hcase with
        | ok n hn =>
        have hv' : Counted x cfg { v with nextToSend := n, chunksSent := v.chunksSent + 1 } a
            (i + 1) := by
          refine ⟨hv.chunkSize, hv.acked, ?_, congrArg (· + 1) hv.sent, hv.retries⟩
          rw [hn, hv.next, hv.chunkSize]
          exact Chunking.start_succ.symm
        refine ⟨x.total cfg - (i + 1) + (x.total cfg - a) + k, by omega, ?_⟩
        rw [show handedChunk (.sendChunk (x.chunk v), .sent .ok) = some (x.chunk v) from rfl,
          Option.toList_some, SendCall.chunk_eq hx hv.chunkSize hv.next,
          Chunking.segment_snoc _ hti]
        exact .data _ _ a (i + 1) t s k hv' ha has (Nat.le_succ_of_le hti) hlt hpc
      · rw [heq] at ht
        cases ht
        cases he
  | finished => cases ht

/-- The receiver has reported every chunk only at its end. -/
theorem RecvStage.tail {t : Nat} (h : RecvStage sha256 x cfg pc t (x.total cfg) k) :
    Tail sha256 x cfg pc k := by
  cases h with
  | waitChunk h _ hr | writeAt h _ hr => exact absurd hr (Nat.lt_irrefl _)
  | sendProgress h _ hr => omega
  | commit h _ hr | sendComplete _ hr => omega
  | done => exact .done

/-- The window of the last chunk ends with the file. -/
theorem SendCall.limit_last (x : SendCall) (hx : x.Accepted) {a : Nat}
    (hlast : a + 1 = x.total cfg) : x.limit (x.agreed cfg) a = x.total cfg := by
  have ha : a < x.chunkCount (x.agreed cfg) := Nat.le_of_eq hlast
  have hlt := lt_limit hx ha
  exact Nat.le_antisymm limit_le_count (hlast ▸ hlt)

/-- The acknowledgement of the last chunk ends the call. -/
theorem Counted.onAck_last (hx : x.Accepted) {v : SendVars} {a : Nat}
    (hv : Counted x cfg v a (x.limit (x.agreed cfg) a)) (hlast : a + 1 = x.total cfg) :
    x.onAck v (waitForTransferAck x.transferId (.received (.ok (x.report cfg (a + 1)).root))) =
      .done (.ok (x.sentResult cfg)) := by
  have hpos := hx.agreed_pos cfg
  have ha : a < x.total cfg := hlast ▸ Nat.lt_succ_self a
  have hlim := x.limit_last hx hlast
  have hfit := SendCall.fits_offset hx hv.acked hv.next (Nat.le_succ a) (SendCall.lt_limit hx ha)
  have hoff : x.offsetU32 (x.agreed cfg) (a + 1) = x.totalLenU32 := by
    rw [hlast, SendCall.offsetU32, SendCall.total, SendCall.offset_count hpos]
    rfl
  rw [hoff] at hfit
  have hres : x.result { v with lastAcked := x.totalLenU32 } = x.sentResult cfg := by
    simp only [SendCall.result, SendCall.sentResult, hv.chunkSize, hv.sent, hv.retries, hlim]
  rw [SendCall.report, if_neg (Nat.not_lt_of_le (Nat.le_of_eq hlast.symm)),
    hfit.onAck_complete hx.toNat_totalLenU32, hres]

/-- The acknowledgement of any other chunk moves the window. -/
theorem Counted.onAck_next (hx : x.Accepted) {v : SendVars} {a : Nat}
    (hv : Counted x cfg v a (x.limit (x.agreed cfg) a)) (hlt : a + 1 < x.total cfg) :
    ∃ v', Counted x cfg v' (a + 1) (x.limit (x.agreed cfg) a) ∧
      x.onAck v (waitForTransferAck x.transferId (.received (.ok (x.report cfg (a + 1)).root))) =
        x.dataLoop v' := by
  have hfit := SendCall.fits_offset hx hv.acked hv.next (Nat.le_succ a)
    (SendCall.lt_limit hx (Nat.lt_of_succ_lt hlt))
  rw [SendCall.report, if_pos hlt, hfit.onAck_progress]
  exact ⟨{ v with lastAcked := x.offsetU32 (x.agreed cfg) (a + 1) },
    ⟨hv.chunkSize, SendCall.toNat_offsetU32 hx, hv.next, hv.sent, hv.retries⟩, rfl⟩

/-- An acknowledgement that the sender takes lowers the rank. -/
theorem Stage.step_taken {s s' : SendPc} {e : SendEvent} {os : List FileOfferValue}
    {ks : List FileChunkValue} {as : List FileAckValue} {ack : FileAckValue} (hx : x.Accepted)
    (h : Stage sha256 x cfg s pc os ks (ack :: as) k) (ht : SendTransition sha256 x s e s')
    (he : e.2 = .ack (.received (.ok ack.root))) : ∃ j < k, Stage sha256 x cfg s' pc os ks as j := by
  have hpos := hx.agreed_pos cfg
  generalize hacks : ack :: as = queue at h
  cases h with
  | offering | offered | opening | opened | finished => cases hacks
  | accepting _ k hpc =>
      obtain ⟨rfl, rfl⟩ := List.cons.inj hacks
      cases ht
      cases he
      obtain ⟨hsize, hmax⟩ := hx.negotiate_bounds cfg
      rw [x.onOfferAck_accept 0 hsize hmax]
      cases hpc with
      | empty _ _ hN hpc =>
          rcases x.dataLoop_index (v := { chunkSize := x.agreed cfg }) hpos rfl Counted.zero.acked
            Counted.zero.next (Nat.le_refl 0) (Nat.zero_le _) with ⟨-, heq⟩ | ⟨hlt, -⟩ | ⟨hlt, -⟩
          · refine ⟨k, by omega, ?_⟩
            have hres : x.sentResult cfg = x.result { chunkSize := x.agreed cfg } := by
              rw [SendCall.sentResult, hN]
              rfl
            rw [show (negotiate cfg.maxChunkSize x.maxChunkU32).toNat = x.agreed cfg from rfl, heq,
              ← hres]
            exact .finished _ k hpc
          · exact absurd hlt (Nat.not_lt_of_le (Nat.le_of_eq hN))
          · exact absurd hlt (Nat.not_lt_of_le (Nat.le_of_eq hN))
      | waitChunk h hN =>
          refine ⟨x.total cfg - 0 + (x.total cfg - 0) + (3 * (x.total cfg - 0) + 1), by omega, ?_⟩
          exact .data _ _ 0 0 0 0 _ .zero hN (Nat.le_refl 0) (Nat.le_refl 0) (Nat.zero_le _)
            (.waitChunk h 0 hN)
  | data v _ a i t s k hv ha has hti hi hpc =>
      obtain ⟨hlt, rfl, rfl⟩ := Chunking.segment_eq_cons hacks.symm
      have hai : a ≤ i := Nat.le_trans has (Nat.le_trans hpc.reported_le.1 hti)
      rcases hv.dataLoop hx ha hai hi with ⟨-, heq⟩ | ⟨rfl, heq⟩
      · rw [heq] at ht
        cases ht
        cases he
      rw [heq] at ht
      cases ht
      cases he
      rcases Nat.lt_or_eq_of_le (show a + 1 ≤ x.total cfg from ha) with hlt' | hlast
      · obtain ⟨v', hv', heq'⟩ := hv.onAck_next hx hlt'
        rw [heq']
        exact ⟨_, by omega, .data v' _ (a + 1) _ t s k hv' hlt' (Nat.le_of_lt_succ hlt) hti
          (SendCall.limit_mono (Nat.le_succ a)) hpc⟩
      · -- the last chunk: everything was sent, taken and reported
        obtain ⟨hst, htN⟩ := hpc.reported_le
        obtain rfl : s = x.total cfg := by omega
        obtain rfl : t = x.total cfg := Nat.le_antisymm htN hst
        rw [hv.onAck_last hx hlast]
        refine ⟨k, by omega, ?_⟩
        rw [hlast, x.limit_last hx hlast, Chunking.segment_self, Chunking.segment_self]
        exact .finished _ k hpc.tail

/-! ## Steps of the receiver on the link -/

/-- The call is answered without anything being taken from a queue. -/
theorem Link.take_none {w : Link H E} {r : RecvResp H E} {os : List FileOfferValue}
    {ks : List FileChunkValue} (hown : r.isMessage = false) (hos : w.takeOffer r = some os)
    (hks : w.takeChunk r = some ks) : w.offers = os ∧ w.chunks = ks := by
  cases r with
  | req | chunk => cases hown
  | sent | began | wrote | committed | aborted => exact ⟨Option.some.inj hos, Option.some.inj hks⟩

/-- In the data phase a chunk leaves its queue when it is taken, and a report joins
the other one. -/
theorem RecvStage.step_link {w : Link H E} (hx : x.Accepted) {v : SendVars} {a i t s : Nat}
    {e : RecvEvent H E} {os : List FileOfferValue} {ks : List FileChunkValue}
    (hpc : RecvStage sha256 x cfg pc t s k) (hv : Counted x cfg v a i) (ha : a < x.total cfg)
    (has : a ≤ s) (hti : t ≤ i) (hi : i ≤ x.limit (x.agreed cfg) a) (hoffers : w.offers = [])
    (hchunks : w.chunks = Chunking.segment (x.chunkAt (x.agreed cfg)) t i)
    (hacks : w.acks = Chunking.segment (x.report cfg) (a + 1) (s + 1))
    (hρ : Regime.lossless.allowsRecv e.2 = true) (hos : w.takeOffer e.2 = some os)
    (hks : w.takeChunk e.2 = some ks) (ht : Transition sha256 .alloc cfg pc e pc') :
    ∃ j < x.total cfg - i + (x.total cfg - a) + k,
      Stage sha256 x cfg (x.dataLoop v) pc' os ks (w.acks ++ (handedAck e).toList) j := by
  have hnext : ∀ body, e.2 = .chunk (.received body) →
      body = .ok (x.chunkAt (x.agreed cfg) t).root := by
    intro body he
    rw [he] at hks
    obtain ⟨c, hcons, rfl⟩ := Link.takeChunk_received hks
    rw [(Chunking.segment_eq_cons (hchunks.symm.trans hcons)).2.1]
  obtain ⟨j, hj, hmoved⟩ := hpc.step hx hρ hnext ht
  refine ⟨_, Nat.add_lt_add_left hj _, ?_⟩
  cases hmoved with
  | took he hpc' =>
      subst he
      obtain ⟨c, hcons, -⟩ := Link.takeChunk_received hks
      obtain ⟨hlt, -, rfl⟩ := Chunking.segment_eq_cons (hchunks.symm.trans hcons)
      obtain rfl : [] = os := hoffers.symm.trans (Option.some.inj hos)
      have hnone : handedAck ((.recvChunk, .chunk (.received
        (.ok (x.chunkAt (x.agreed cfg) t).root))) : RecvEvent H E) = none := rfl
      rw [hnone, hacks, Option.toList_none, List.append_nil]
      exact .data v _ a i (t + 1) s j hv ha has hlt hi hpc'
  | worked hown hack hpc' =>
      obtain ⟨rfl, rfl⟩ := Link.take_none hown hos hks
      rw [hack, hacks, hoffers, hchunks, Option.toList_none, List.append_nil]
      exact .data v _ a i t s j hv ha has hti hi hpc'
  | reported hown hack hpc' =>
      obtain ⟨rfl, rfl⟩ := Link.take_none hown hos hks
      rw [hack, hacks, hoffers, hchunks, Option.toList_some,
        Chunking.segment_snoc _ (Nat.succ_le_succ has)]
      exact .data v _ a i t (s + 1) j hv ha (Nat.le_succ_of_le has) hti hi hpc'

/-- **A move of the receiver lowers the rank.** -/
theorem Stage.step_recv {w : Link H E} (hx : x.Accepted) {e : RecvEvent H E}
    {os : List FileOfferValue} {ks : List FileChunkValue}
    (h : Stage sha256 x cfg w.net.sender pc w.offers w.chunks w.acks k)
    (hρ : Regime.lossless.allowsRecv e.2 = true) (hos : w.takeOffer e.2 = some os)
    (hks : w.takeChunk e.2 = some ks) (ht : Transition sha256 .alloc cfg pc e pc') :
    ∃ j < k, Stage sha256 x cfg w.net.sender pc' os ks (w.acks ++ (handedAck e).toList) j := by
  obtain ⟨⟨sender, sendHist, calls⟩, offers, chunks, acks⟩ := w
  simp only at h ⊢
  have hquiet : e.2.isMessage = false → handedAck e = none →
      offers = os ∧ chunks = ks ∧ acks ++ (handedAck e).toList = acks := by
    intro hown hack
    obtain ⟨rfl, rfl⟩ := Link.take_none hown hos hks
    rw [hack, Option.toList_none, List.append_nil]
    exact ⟨rfl, rfl, rfl⟩
  cases h with
  | offering =>
      cases ht with
      | req body =>
      cases body with
      | none => cases hρ
      | some body =>
          obtain ⟨o, hnil, -⟩ := Link.takeOffer_req hos
          cases hnil
  | offered =>
      cases ht with
      | req body =>
      cases body with
      | none => cases hρ
      | some body =>
          obtain ⟨o, hcons, rfl⟩ := Link.takeOffer_req hos
          obtain ⟨rfl, rfl⟩ := List.cons.inj hcons
          obtain rfl := Option.some.inj hks
          rw [show Intake.alloc = Variant.recvFile.intake from rfl, hx.onReq_offer]
          exact ⟨_, Nat.lt_succ_self _, .opening⟩
  | opening =>
      cases ht with
      | notBegun => cases hρ
      | begun _ h =>
          obtain rfl := Option.some.inj hos
          obtain rfl := Option.some.inj hks
          exact ⟨_, Nat.lt_succ_self _, .opened h⟩
  | opened h =>
      cases ht with
      | accepted _ _ out =>
      cases out with
      | failed => cases hρ
      | ok =>
          obtain rfl := Option.some.inj hos
          obtain rfl := Option.some.inj hks
          change ∃ j < _, Stage sha256 x cfg _ (onAccepted sha256 (x.kept sha256 cfg) h) _ _ _ j
          rcases hx.onAccepted_kept (E := E) (hx.agreed_pos cfg) sha256 cfg h with
            ⟨hN, heq⟩ | ⟨hN, heq⟩
          · rw [heq]
            refine ⟨_, ?_, .accepting _ 1 (.empty _ 1 hN (.commitEmpty h hN))⟩
            rw [show x.total cfg = 0 from hN]
            exact Nat.lt_succ_self 2
          · rw [heq]
            exact ⟨_, by omega, .accepting _ _ (.waitChunk h hN)⟩
  | accepting _ k hpc =>
      cases hpc with
      | empty _ _ hN hpc =>
          obtain ⟨j, hj, hpc', hown, hack⟩ := hpc.step hx hρ ht
          obtain ⟨rfl, rfl, heq⟩ := hquiet hown hack
          rw [heq]
          exact ⟨_, Nat.add_lt_add_left hj _, .accepting _ j (.empty _ j hN hpc')⟩
      | waitChunk h hN =>
          cases ht with
          | chunk _ _ _ arrival =>
          cases arrival with
          | timeout | unavailable => cases hρ
          | received body =>
              obtain ⟨c, hnil, -⟩ := Link.takeChunk_received hks
              cases hnil
  | data v _ a i t s k hv ha has hti hi hpc =>
      exact hpc.step_link hx hv ha has hti hi rfl rfl rfl hρ hos hks ht
  | finished _ k hpc =>
      obtain ⟨j, hj, hpc', hown, hack⟩ := hpc.step hx hρ ht
      obtain ⟨rfl, rfl, heq⟩ := hquiet hown hack
      rw [heq]
      exact ⟨j, hj, .finished _ j hpc'⟩

/-! ## The window -/

/-- **What is in flight fits the window.** -/
theorem Stage.window {s : SendPc} {os : List FileOfferValue} {ks : List FileChunkValue}
    {as : List FileAckValue} (hx : x.Accepted) (h : Stage sha256 x cfg s pc os ks as k) :
    os.length ≤ 1 ∧ as.length ≤ x.config.windowChunks ∧
      ks.length + (as.filter fun a ↦ a.kind = .ack ∨ a.kind = .complete).length ≤
        x.config.windowChunks := by
  have hpos := hx.config.window_pos
  cases h with
  | offering | offered | opening | opened | finished => simp
  | accepting => exact ⟨Nat.zero_le _, hpos, Nat.zero_le _⟩
  | data v _ a i t s k hv ha has hti hi hpc =>
      have hst := hpc.reported_le.1
      have hlim : x.limit (x.agreed cfg) a ≤ a + x.config.windowChunks := Nat.min_le_left _ _
      have hfilter := List.length_filter_le (fun a : FileAckValue ↦ a.kind = .ack ∨ a.kind = .complete)
        (Chunking.segment (x.report cfg) (a + 1) (s + 1))
      rw [Chunking.length_segment] at hfilter
      rw [Chunking.length_segment, Chunking.length_segment]
      refine ⟨Nat.zero_le _, by omega, by omega⟩

end Steps

/-! ## Runs -/

/-- The link is at a stage of rank `k`. -/
def LosslessInv (sha256 : Bytes → Digest) (x : SendCall) (cfg : ReceiverConfig) (k : Nat)
    (w : Link H E) : Prop :=
  ∃ call, w.net.calls = [call] ∧ call.variant = .recvFile ∧ call.cfg = cfg ∧
    Stage sha256 x cfg w.net.sender call.pc w.offers w.chunks w.acks k

section Runs

variable {sha256 : Bytes → Digest} {x : SendCall} {cfg : ReceiverConfig} {w w' : Link H E} {k : Nat}

theorem LosslessInv.init (hx : x.Accepted) :
    LosslessInv sha256 x cfg (5 * x.total cfg + 6) (Link.single x cfg : Link H E) := by
  refine ⟨_, rfl, rfl, rfl, ?_⟩
  simp only [Link.single, hx.start_eq]
  exact .offering

/-- **Every move lowers the rank.** -/
theorem LosslessInv.step (hx : x.Accepted) (hi : LosslessInv sha256 x cfg k w)
    (hm : Link.Move .lossless sha256 x w w') : ∃ j < k, LosslessInv sha256 x cfg j w' := by
  obtain ⟨call, hcalls, hvariant, hcfg, hstage⟩ := hi
  cases hm with
  | send e s as hρ htake hf =>
      have ht := sender_fire hf
      rcases Regime.lossless_send hρ with he | ⟨body, he⟩
      · rw [he] at htake
        obtain rfl := Option.some.inj htake
        obtain ⟨j, hj, hstage'⟩ := hstage.step_sent hx ht he
        exact ⟨j, hj, call, hcalls, hvariant, hcfg, hstage'⟩
      · rw [he] at htake
        obtain ⟨ack, hacks, rfl⟩ := Link.takeAck_received htake
        rw [hacks] at hstage
        obtain ⟨j, hj, hstage'⟩ := hstage.step_taken hx ht he
        refine ⟨j, hj, call, hcalls, hvariant, hcfg, ?_⟩
        obtain ⟨q, r⟩ := e
        subst he
        have hnone : handedOffer (q, .ack (.received (.ok ack.root))) = none ∧
            handedChunk (q, .ack (.received (.ok ack.root))) = none := by
          cases q <;> exact ⟨rfl, rfl⟩
        simpa only [Link.sent, hnone.1, hnone.2, Option.toList_none, List.append_nil] using hstage'
  | recv c cs e s os ks hc hρ hos hks hf =>
      obtain ⟨rfl, rfl⟩ := List.cons.inj (hcalls.symm.trans hc)
      rw [hvariant, hcfg] at hf
      obtain ⟨j, hj, hstage'⟩ := hstage.step_recv hx hρ hos hks (receiver_fire hf)
      exact ⟨j, hj, _, rfl, hvariant, hcfg, hstage'⟩
  | call _ _ hρ => cases hρ
  | loseOffer _ hρ | loseChunk _ hρ | loseAck _ hρ => cases hρ

/-- Every run is at a stage, and its length and the rank are bounded together. -/
theorem LosslessInv.of_exec (hx : x.Accepted) {ls : List (Link.Label H E)}
    (h : (Link.machine .lossless sha256 x).exec (Link.single x cfg) ls = some w) :
    ∃ j, LosslessInv sha256 x cfg j w ∧ ls.length + j ≤ 5 * x.total cfg + 6 :=
  Machine.exec_ranked (I := LosslessInv sha256 x cfg)
    (fun _ _ _ _ hi hs ↦ hi.step hx (Link.step_move hs)) (.init hx) h

end Runs

/-! ## Progress -/

/-- The sender has returned, or waits and `acks` is all there is to take. -/
def SendPc.Starved (acks : List FileAckValue) : SendPc → Prop
  | .offerWait _ | .ackWait _ => acks = []
  | .done _ => True
  | .offerSend _ | .chunkSend _ => False

/-- The receive call has returned, or waits for a message of which there is
none. -/
def RecvPc.Starved (offers : List FileOfferValue) (chunks : List FileChunkValue) :
    RecvPc H E → Prop
  | .recvReq => offers = []
  | .waitChunk _ _ _ => chunks = []
  | .done _ => True
  | _ => False

/-- Every party has returned, or waits for a message of which none is in
flight. -/
structure Link.Blocked (w : Link H E) : Prop where
  sender : w.net.sender.Starved w.acks
  calls : ∀ c ∈ w.net.calls, c.pc.Starved w.offers w.chunks

section Progress

variable {ρ : Regime} {sha256 : Bytes → Digest} {x : SendCall} {cfg : ReceiverConfig}
  {w : Link H E}

/-- A sender that cannot move waits in vain or has returned. -/
theorem Link.starved_of_send (h : ∀ r, Link.step ρ sha256 x w (.send r) = none) :
    w.net.sender.Starved w.acks := by
  obtain ⟨⟨sender, sendHist, calls⟩, offers, chunks, acks⟩ := w
  simp only
  cases sender with
  | offerSend n => cases h (.sent .ok)
  | chunkSend v => cases h (.sent .ok)
  | done => trivial
  | offerWait n | ackWait v =>
      cases acks with
      | nil => rfl
      | cons a as =>
          have hnone := h (.ack (.received (.ok a.root)))
          simp only [Link.step, Regime.allowsSend, if_true, Link.takeAck, pop_cons,
            Option.bind_some, Option.map_eq_none_iff] at hnone
          cases hnone

/-- A receive call that cannot move waits in vain or has returned. -/
theorem Link.starved_of_recv [Nonempty H] {c : RecvCall H E} (hcalls : w.net.calls = [c])
    (h : ∀ r, Link.step ρ sha256 x w (.recv r) = none) : c.pc.Starved w.offers w.chunks := by
  obtain ⟨⟨sender, sendHist, calls⟩, offers, chunks, acks⟩ := w
  obtain ⟨variant, cfg, pc, hist⟩ := c
  simp only at hcalls ⊢
  subst hcalls
  cases pc with
  | recvReq =>
      cases offers with
      | nil => rfl
      | cons o os =>
          have hnone := h (.req (some (.ok o.root)))
          simp only [Link.step, Regime.allowsRecv, Option.isSome_some, if_true, Link.takeOffer,
            Link.takeChunk, pop_cons, Option.bind_some, Option.map_eq_none_iff] at hnone
          cases hnone
  | waitChunk o g v =>
      cases chunks with
      | nil => rfl
      | cons ch ks =>
          have hnone := h (.chunk (.received (.ok ch.root)))
          simp only [Link.step, Regime.allowsRecv, if_true, Link.takeOffer,
            Link.takeChunk, pop_cons, Option.bind_some, Option.map_eq_none_iff] at hnone
          cases hnone
  | beginWrite o =>
      obtain ⟨g⟩ := ‹Nonempty H›
      cases h (.began (.ok g))
  | sendReject | sendAccept | sendGap | sendProgress | sendComplete | sendAbort =>
      cases h (.sent .ok)
  | writeAt => cases h (.wrote (.ok ()))
  | commitEmpty | commit => cases h (.committed (.ok ()))
  | abort => cases h .aborted
  | done => trivial

/-- **At every stage but the last, some party can move.** -/
theorem Stage.finished_of_starved {s : SendPc} {pc : RecvPc H E} {os : List FileOfferValue}
    {ks : List FileChunkValue} {as : List FileAckValue} {k : Nat} (hx : x.Accepted)
    (h : Stage sha256 x cfg s pc os ks as k) (hs : s.Starved as) (hpc : pc.Starved os ks) :
    s = .done (.ok (x.sentResult cfg)) ∧ pc = .done (.ok (x.receivedResult sha256 cfg)) := by
  cases h with
  | offering => cases hs
  | offered => cases hpc
  | opening | opened => cases hpc
  | accepting => cases hs
  | data v _ a i t s k hv ha has hti hi hstage =>
      have hai : a ≤ i := Nat.le_trans has (Nat.le_trans hstage.reported_le.1 hti)
      rcases hv.dataLoop hx ha hai hi with ⟨-, heq⟩ | ⟨rfl, heq⟩
      · rw [heq] at hs
        cases hs
      -- the sender waits, so it has sent its window and seen every report
      rw [heq] at hs
      have hlen : (Chunking.segment (x.report cfg) (a + 1) (s + 1)).length = 0 :=
        List.length_eq_zero_iff.mpr hs
      rw [Chunking.length_segment] at hlen
      obtain rfl : a = s := by omega
      cases hstage with
      | waitChunk h _ hr =>
          have hlen' : (Chunking.segment (x.chunkAt (x.agreed cfg)) a
              (x.limit (x.agreed cfg) a)).length = 0 := List.length_eq_zero_iff.mpr hpc
          rw [Chunking.length_segment] at hlen'
          have hlim := SendCall.lt_limit hx ha
          omega
      | writeAt | sendProgress | commit | sendComplete => cases hpc
      | done => exact absurd ha (Nat.lt_irrefl _)
  | finished _ k htail =>
      cases htail with
      | commitEmpty => cases hpc
      | done => exact ⟨rfl, rfl⟩

end Progress

/-! ## What is stored -/

section Stored

variable {ρ : Regime} {sha256 : Bytes → Digest} {x : SendCall} {cfg : ReceiverConfig}
  {w : Link H E}

theorem Link.Queued.single : Link.Queued (Link.single x cfg : Link H E) :=
  ⟨fun _ h ↦ absurd h List.not_mem_nil, fun _ h ↦ absurd h List.not_mem_nil,
    fun _ h ↦ absurd h List.not_mem_nil⟩

/-- The two calls of a link are calls of a network. -/
theorem Link.single_inv (hw : (Link.machine ρ sha256 x).Reachable (Link.single x cfg) w) :
    Network.Inv sha256 x w.net := by
  have hcall : (Network.machine sha256 x).Reachable (Network.init x)
      (Link.single x cfg : Link H E).net := ⟨[.call .recvFile cfg], rfl⟩
  have hnet := (Link.reachable_net .single hw).1
  exact Network.Inv.of_reachable (hcall.trans hnet)

/-- A receive call that has returned `Ok` for this transfer has committed exactly
the sender's bytes. -/
theorem stored_of_ok {net : Network H E} (hinv : Network.Inv sha256 x net) {c : RecvCall H E}
    (hc : c ∈ net.calls) {res : RecvFileResult} (hok : c.pc = .done (.ok res))
    (hid : res.transferId = x.transferId) :
    (∃ h, .committed h (.ok ()) ∈ storeLog c.hist) ∧ written c.hist = x.bytes := by
  have hrun := hinv.called c hc
  have hstore : StoreInv False sha256 c.cfg c.hist c.pc := StoreInv.of_run hrun nofun
  rw [hok] at hstore
  have hret : Returned False sha256 c.cfg c.hist (.ok res) := hstore
  cases hret with
  | completed o h hf =>
      obtain ⟨root, hroot, hof⟩ := hf.offer
      obtain ⟨rfl, -⟩ := (hinv.honest c hc).offered_eq hroot (hof.transferId_eq ▸ hid)
      exact ⟨⟨h, hf.committed_mem⟩,
        Intact.of_committed hrun (hinv.honest c hc) hroot hf.committed_mem⟩

end Stored

/-! ## Mailboxes -/

/-- However much of the queue has arrived in a mailbox of at least `window`
messages, it has room for the next one. -/
def Accommodated {α : Type} (window : Nat) (queue : List α) : Prop :=
  ∀ (depth maxBody : Nat) (box : Bus.Mailbox depth maxBody) (encode : α → Bus.Entry)
    (held rest : List α) (m : α), window ≤ depth → queue = held ++ m :: rest →
    box.entries = held.map encode →
    (box.push (encode m).source (encode m).body).1 ≠ .error .mailboxFull

theorem Accommodated.of_length_le {α : Type} {window : Nat} {queue : List α}
    (h : queue.length ≤ window) : Accommodated window queue := by
  rintro depth maxBody box encode held rest m hdepth rfl hentries
  have hroom : box.entries.length < depth := by
    rw [hentries, List.length_map]
    rw [List.length_append, List.length_cons] at h
    omega
  by_cases hbody : maxBody < (encode m).body.length
  · rw [Bus.Mailbox.push_tooLarge hbody]
    nofun
  · rw [(Bus.Mailbox.push_ok _ (Nat.le_of_not_lt hbody) hroom).1]
    nofun

/-! ## Runs without losses finish -/

/-- Both calls have returned `Ok`; the sender has sent every chunk once and the
peer has committed exactly the file. -/
structure Link.Finished (x : SendCall) (cfg : ReceiverConfig) (w : Link H E) : Prop where
  sender : ∃ res, w.net.sender = .done (.ok res) ∧ res.retries = 0 ∧
    res.chunksSent = x.totalLen ⌈/⌉ (negotiate cfg.maxChunkSize x.maxChunkU32).toNat
  receiver : ∃ c, w.net.calls = [c] ∧ (∃ res, c.pc = .done (.ok res)) ∧
    (∃ h, .committed h (.ok ()) ∈ storeLog c.hist) ∧ written c.hist = x.bytes

/-- What holds in every state of a run without losses. -/
structure Smooth (sha256 : Bytes → Digest) (x : SendCall) (cfg : ReceiverConfig)
    (w : Link H E) : Prop where
  /-- There is no deadlock: only when both calls have returned does neither of them
  compute nor have a message to take. -/
  live : w.Blocked → w.Finished x cfg
  /-- The chunks that were not taken and the reports that were not taken fit the
  window together. -/
  window : w.chunks.length + (w.acks.filter fun a ↦ a.kind = .ack ∨ a.kind = .complete).length ≤
    x.config.windowChunks
  /-- Mailboxes as deep as the window do not overflow. -/
  offerRoom : Accommodated x.config.windowChunks w.offers
  chunkRoom : Accommodated x.config.windowChunks w.chunks
  ackRoom : Accommodated x.config.windowChunks w.acks
  /-- A run that cannot go on has done its work. -/
  maximal : (∀ l, Link.step .lossless sha256 x w l = none) → w.Finished x cfg

/-- **Runs without losses neither stall nor overflow, and finish.**  In every state
that one sender and one receiver can reach over a link that loses nothing, either
some party can move or both have succeeded, and what is in flight fits the
window; and no run is longer than five moves for each chunk and six more. -/
theorem lossless_smooth [Nonempty H] (sha256 : Bytes → Digest) (x : SendCall)
    (cfg : ReceiverConfig) (hx : x.Accepted) (ls : List (Link.Label H E)) (w : Link H E)
    (h : (Link.machine .lossless sha256 x).exec (Link.single x cfg) ls = some w) :
    Smooth sha256 x cfg w ∧ ls.length ≤
      5 * (x.totalLen ⌈/⌉ (negotiate cfg.maxChunkSize x.maxChunkU32).toNat) + 6 := by
  obtain ⟨k, ⟨call, hcalls, hvariant, hcfg, hstage⟩, hlen⟩ := LosslessInv.of_exec hx h
  refine ⟨?_, Nat.le_trans (Nat.le_add_right _ k) hlen⟩
  obtain ⟨hoffers, hacks, hwindow⟩ := hstage.window hx
  have hmem : call ∈ w.net.calls := hcalls ▸ List.mem_singleton.mpr rfl
  have hfinished : w.Blocked → w.Finished x cfg := by
    intro hb
    obtain ⟨hsend, hrecv⟩ := hstage.finished_of_starved hx hb.sender (hb.calls call hmem)
    exact ⟨⟨_, hsend, rfl, rfl⟩,
      ⟨call, hcalls, ⟨_, hrecv⟩, stored_of_ok (Link.single_inv ⟨ls, h⟩) hmem hrecv rfl⟩⟩
  constructor
  case live => exact hfinished
  case window => exact hwindow
  case offerRoom => exact .of_length_le (Nat.le_trans hoffers hx.config.window_pos)
  case chunkRoom => exact .of_length_le (Nat.le_trans (Nat.le_add_right _ _) hwindow)
  case ackRoom => exact .of_length_le hacks
  case maximal =>
    intro hstuck
    refine hfinished ⟨Link.starved_of_send fun r ↦ hstuck (.send r), fun c hc ↦ ?_⟩
    rw [hcalls] at hc
    rw [List.mem_singleton.mp hc]
    exact Link.starved_of_recv hcalls fun r ↦ hstuck (.recv r)

/-- A run of the transfer of `abc` to its end. -/
def abcDelivered : List (Link.Label Unit Unit) :=
  [.send (.sent .ok), .recv (.req (some (.ok (abcCall.offer shortSha256).root))),
    .recv (.began (.ok ())), .recv (.sent .ok),
    .send (.ack (.received (.ok (fileAckAccept 7 2).root))), .send (.sent .ok),
    .recv (.chunk (.received (.ok ⟨7, 0, .ok [0x61, 0x62]⟩))), .send (.sent .ok),
    .recv (.wrote (.ok ())), .recv (.sent .ok),
    .send (.ack (.received (.ok (fileAckProgress 7 2).root))),
    .recv (.chunk (.received (.ok ⟨7, 2, .ok [0x63]⟩))), .recv (.wrote (.ok ())),
    .recv (.committed (.ok ())), .recv (.sent .ok),
    .send (.ack (.received (.ok (fileAckComplete 7 3).root)))]

theorem lossless_smooth_abc : ∃ w : Link Unit Unit,
    (Link.machine .lossless shortSha256 abcCall).exec (Link.single abcCall {}) abcDelivered =
      some w ∧ w.Finished abcCall {} ∧ Accommodated 4 w.chunks := by
  have hexec : (Link.machine .lossless shortSha256 abcCall).exec (Link.single abcCall {})
      abcDelivered =
        some ⟨⟨.done (.ok ⟨7, 3, 2, 2, 0⟩), _, [⟨_, _, .done (.ok _), _⟩]⟩, [], [], []⟩ := rfl
  obtain ⟨hsmooth, -⟩ := lossless_smooth shortSha256 abcCall {}
    ⟨⟨by decide, by decide⟩, by decide, by decide⟩ abcDelivered _ hexec
  refine ⟨_, hexec, hsmooth.live ⟨trivial, fun c hc ↦ ?_⟩, hsmooth.chunkRoom⟩
  rw [List.mem_singleton.mp hc]
  trivial

end Thincan.FileTransfer

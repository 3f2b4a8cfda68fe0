import Thincan.FileTransfer.Window

/-!
# No spurious failure over a lossy link

One `send_file_with_id` call against one `recv_file` call, over a link that keeps
the order of messages but may lose any of them, with waits that may time out at
any moment and with failing sends and stores.  The two parties never fail for
any other reason: the sender's checks on acknowledgements always succeed, and the
receiver never rejects or aborts.

The invariant `LossyInv` speaks of chunk indices.  Acknowledgements in flight name
boundaries between the acknowledged chunk and the chunks the receiver has taken,
in order; the receiver has taken no more than what the sender can have sent; and
that is at most the end of the window.  A late acknowledgement is harmless
because the sender looks at acknowledgements only at the end of its window, also
after a rewind.
-/

namespace Thincan.FileTransfer

open Process

variable {H E : Type}

/-! ## Acknowledgements in flight -/

/-- The acknowledgements a receiver sends when it neither rejects nor aborts. -/
inductive Note where
  | accept
  | progress (j : Nat)
  | complete
deriving DecidableEq, Repr

namespace Note

variable (x : SendCall) (cfg : ReceiverConfig)

/-- The message. -/
def value : Note → FileAckValue
  | accept => fileAckAccept x.transferId (negotiate cfg.maxChunkSize x.maxChunkU32)
  | progress j => fileAckProgress x.transferId (x.offsetU32 (x.agreed cfg) j)
  | complete => fileAckComplete x.transferId x.totalLenU32

/-- The chunk boundary it names. -/
def index : Note → Nat
  | accept => 0
  | progress j => j
  | complete => x.chunkCount (x.agreed cfg)

/-- The message is honest and not older than what the sender knows, when the
sender has acknowledged `a` chunks and the receiver has taken `r`. -/
def Ok (a r : Nat) : Note → Prop
  | accept => True
  | progress j => a ≤ j ∧ j ≤ r ∧ j < x.chunkCount (x.agreed cfg)
  | complete => r = x.chunkCount (x.agreed cfg)

variable {x cfg} {a a' r r' : Nat} {n : Note}

theorem Ok.index_le (h : n.Ok x cfg a r) : n.index x cfg ≤ r := by
  cases n with
  | accept => exact Nat.zero_le r
  | progress j => exact h.2.1
  | complete => exact Nat.le_of_eq h.symm

theorem Ok.of_le (h : n.Ok x cfg a r) (ha : a' ≤ a) : n.Ok x cfg a' r := by
  cases n with
  | accept => trivial
  | progress j => exact ⟨Nat.le_trans ha h.1, h.2⟩
  | complete => exact h

theorem Ok.of_reach (h : n.Ok x cfg a r) (hr : r ≤ r') (hN : r' ≤ x.chunkCount (x.agreed cfg)) :
    n.Ok x cfg a r' := by
  cases n with
  | accept => trivial
  | progress j => exact ⟨h.1, Nat.le_trans h.2.1 hr, h.2.2⟩
  | complete => exact Nat.le_antisymm hN (h ▸ hr)

end Note

/-- The acknowledgements in flight, oldest first. -/
structure Ordered (x : SendCall) (cfg : ReceiverConfig) (a r : Nat) (notes : List Note) : Prop where
  ok : ∀ n ∈ notes, n.Ok x cfg a r
  sorted : notes.Pairwise fun m n ↦ m.index x cfg ≤ n.index x cfg

section Ordered

variable {x : SendCall} {cfg : ReceiverConfig} {a a' r r' : Nat} {n : Note} {notes : List Note}

theorem Ordered.of_le (h : Ordered x cfg a r notes) (ha : a' ≤ a) : Ordered x cfg a' r notes :=
  ⟨fun n hn ↦ (h.ok n hn).of_le ha, h.sorted⟩

theorem Ordered.of_reach (h : Ordered x cfg a r notes) (hr : r ≤ r')
    (hN : r' ≤ x.chunkCount (x.agreed cfg)) : Ordered x cfg a r' notes :=
  ⟨fun n hn ↦ (h.ok n hn).of_reach hr hN, h.sorted⟩

theorem Ordered.sublist {notes' : List Note} (h : Ordered x cfg a r notes)
    (hs : notes'.Sublist notes) : Ordered x cfg a r notes' :=
  ⟨fun n hn ↦ h.ok n (hs.subset hn), h.sorted.sublist hs⟩

/-- A new message names the boundary the receiver has reached, so it comes after
all others. -/
theorem Ordered.snoc (h : Ordered x cfg a r notes) (hn : n.Ok x cfg a r)
    (hindex : n.index x cfg = r) : Ordered x cfg a r (notes ++ [n]) := by
  constructor
  · intro m hm
    rcases List.mem_append.mp hm with hm | hm
    · exact h.ok m hm
    · rw [List.mem_singleton.mp hm]
      exact hn
  · refine List.pairwise_append.mpr ⟨h.sorted, List.pairwise_singleton _ _, ?_⟩
    intro m hm n' hn'
    rw [List.mem_singleton.mp hn', hindex]
    exact (h.ok m hm).index_le

end Ordered

/-! ## Faults -/

/-- A timeout or a failed send. -/
def SendResp.isFault : SendResp → Bool
  | .ack .timeout => true
  | .sent (.failed _ _) => true
  | _ => false

/-- A timeout, a failed send or an error of the store. -/
def RecvResp.isFault : RecvResp H E → Bool
  | .chunk .timeout => true
  | .sent (.failed _ _) => true
  | .began (.error _) => true
  | .wrote (.error _) => true
  | .committed (.error _) => true
  | _ => false

/-- The call has failed, or is about to. -/
def RecvPc.failed : RecvPc H E → Bool
  | .abort _ _ _ => true
  | .done (.error _) => true
  | _ => false

/-! ## Steps of the sender -/

section Sender

variable {sha256 : Bytes → Digest} {x : SendCall} {cfg : ReceiverConfig} {c a i lim r : Nat}
  {s s' : SendPc}

theorem SendAt.lim_le (hs : SendAt x c s a i lim) : lim ≤ x.chunkCount c := by
  cases hs with
  | offerSend | offerWait => exact Nat.zero_le _
  | chunkSend | ackWait => exact SendCall.limit_le_count
  | done => exact Nat.le_refl _

/-- The loop conditions keep the sender on boundaries. -/
theorem SendAt.dataLoop {v : SendVars} (hpos : 0 < c) (hc : v.chunkSize = c)
    (ha : v.lastAcked.toNat = x.offset c a) (hn : v.nextToSend.toNat = x.offset c i) (hai : a ≤ i)
    (hi : i ≤ x.limit c a) :
    ∃ a' i' lim', SendAt x c (x.dataLoop v) a' i' lim' ∧ a' ≤ a ∧ x.limit c a ≤ lim' := by
  rcases x.dataLoop_at hpos hc ha hn hai hi with ⟨-, heq⟩ | ⟨-, hat⟩
  · rw [heq]
    exact ⟨0, _, _, .done _, Nat.zero_le a, SendCall.limit_le_count⟩
  · exact ⟨a, i, _, hat, Nat.le_refl a, Nat.le_refl _⟩

/-- After a send the sender stands on boundaries, has handed over at most a chunk
of its window, and has failed only if the send did. -/
theorem SendAt.step_sent (hx : x.Accepted) (hpos : 0 < c) (hs : SendAt x c s a i lim)
    {e : SendEvent} {o : SendOutcome} (ht : SendTransition sha256 x s e s') (he : e.2 = .sent o) :
    (∃ a' i' lim', SendAt x c s' a' i' lim' ∧ a' ≤ a ∧ lim ≤ lim' ∧
      ∀ ch, handedChunk e = some ch → ∃ j < lim', ch = x.chunkAt c j) ∧
      ∀ err, s' = .done (.error err) → o.isErr = true := by
  cases ht with
  | offerAck | ack => cases he
  | offerSent n r =>
      cases he
      cases hs
      -- an offer hands over no chunk
      have hoffer (lim' : Nat) : ∀ ch, handedChunk (.sendOffer (x.offer sha256), .sent o) = some ch →
          ∃ j < lim', ch = x.chunkAt c j := by
        rintro _ ⟨⟩
      cases o with
      | ok =>
          refine ⟨⟨0, 0, 0, .offerWait n, Nat.le_refl _, Nat.le_refl _, hoffer 0⟩, ?_⟩
          rintro _ ⟨⟩
      | failed kind handed =>
          refine ⟨?_, fun _ _ ↦ rfl⟩
          simp only [onOfferSent]
          split
          · exact ⟨0, _, _, .done _, Nat.le_refl _, Nat.zero_le _, hoffer _⟩
          · exact ⟨0, 0, 0, .offerWait n, Nat.le_refl _, Nat.le_refl _, hoffer 0⟩
  | chunkSent v r =>
      cases he
      cases hs with
      | chunkSend _ _ _ hc ha hn hai hi =>
      have hiN : i < x.chunkCount c := Nat.lt_of_lt_of_le hi SendCall.limit_le_count
      have hle : v.nextToSend.toNat ≤ x.totalLen := hn ▸ SendCall.offset_le_total
      have hchunk : ∀ lim', x.limit c a ≤ lim' → ∀ ch, handedChunk (.sendChunk (x.chunk v), .sent o) =
          some ch → ∃ j < lim', ch = x.chunkAt c j := by
        intro lim' hlim ch hch
        refine ⟨i, Nat.lt_of_lt_of_le hi hlim, ?_⟩
        rw [← SendCall.chunk_eq hx hc hn]
        simp only [handedChunk] at hch
        split at hch
        · exact (Option.some.inj hch).symm
        · cases hch
      have hcase := hx.onChunkSent_case hle o
      generalize x.onChunkSent v o = s at hcase ⊢
      cases hcase with
      | failed kind handed =>
          exact ⟨⟨0, _, _, .done _, Nat.zero_le a, SendCall.limit_le_count,
            hchunk _ SendCall.limit_le_count⟩, fun _ _ ↦ rfl⟩
      | ok n hn' =>
          have hsucc : n.toNat = x.offset c (i + 1) := by
            rw [hn', hn, hc]
            exact Chunking.start_succ.symm
          obtain ⟨a', i', lim', hat, ha', hlim⟩ := SendAt.dataLoop
            (v := { v with nextToSend := n, chunksSent := v.chunksSent + 1 }) hpos hc ha hsucc
            (Nat.le_succ_of_le hai) hi
          exact ⟨⟨a', i', lim', hat, ha', hlim, hchunk lim' hlim⟩,
            fun err h ↦ absurd h (x.dataLoop_ne_error _ err)⟩

/-- A timeout sends the sender back to the start of its window. -/
theorem SendAt.step_timeout (hx : x.Accepted) (hpos : 0 < c) (hs : SendAt x c s a i lim)
    {e : SendEvent} (ht : SendTransition sha256 x s e s') (he : e.2 = .ack .timeout) :
    ∃ a' i' lim', SendAt x c s' a' i' lim' ∧ a' ≤ a ∧ lim ≤ lim' := by
  cases ht with
  | offerSent | chunkSent => cases he
  | offerAck n arrival =>
      cases he
      cases hs
      have hcase := x.onOfferAck_case n .timeout
      generalize x.onOfferAck n (waitForTransferAck x.transferId .timeout) = s at hcase ⊢
      cases hcase with
      | timeout h => exact ⟨0, 0, 0, .offerSend _, Nat.le_refl _, Nat.le_refl _⟩
      | exhausted => exact ⟨0, _, _, .done _, Nat.le_refl _, Nat.zero_le _⟩
      | failed _ ha => exact absurd rfl ha
  | ack v arrival =>
      cases he
      cases hs with
      | ackWait _ _ hc ha hn hlt =>
      have hcase := x.onAck_case v .timeout
      generalize x.onAck v (waitForTransferAck x.transferId .timeout) = s at hcase ⊢
      cases hcase with
      | timeout h =>
          exact SendAt.dataLoop
            (v := { v with retries := v.retries + 1, nextToSend := v.lastAcked }) hpos hc ha ha
            (Nat.le_refl a) (Nat.le_of_lt (SendCall.lt_limit hx hlt))
      | exhausted => exact ⟨0, _, _, .done _, Nat.zero_le a, SendCall.limit_le_count⟩
      | failed _ ha => exact absurd rfl ha

/-- An acknowledgement that names a boundary within the window passes the checks
of the data loop. -/
theorem SendCall.fits_offset (hx : x.Accepted) {v : SendVars} {j : Nat}
    (ha : v.lastAcked.toNat = x.offset c a) (hn : v.nextToSend.toNat = x.offset c lim)
    (haj : a ≤ j) (hj : j ≤ lim) : x.Fits v (x.offsetU32 c j) := by
  have hoff : (x.offsetU32 c j).toNat = x.offset c j := toNat_offsetU32 hx
  constructor
  · rw [ha, hoff]
    exact Chunking.start_mono haj
  · rw [hoff]
    exact offset_le_total
  · rw [hn, hoff]
    exact Chunking.start_mono hj

/-- **The sender never fails on an acknowledgement in flight.**  It moves to the
boundary the acknowledgement names, and what is behind it in the queue stays
honest. -/
theorem SendAt.step_take (hx : x.Accepted) {n : Note}
    (hs : SendAt x (x.agreed cfg) s a i lim) (hok : n.Ok x cfg a r) (har : a ≤ r) (hr : r ≤ lim)
    {e : SendEvent} (ht : SendTransition sha256 x s e s')
    (he : e.2 = .ack (.received (.ok (n.value x cfg).root))) :
    (∃ a' i' lim', SendAt x (x.agreed cfg) s' a' i' lim' ∧ a' ≤ r ∧ lim ≤ lim' ∧
      ∀ m : Note, m.Ok x cfg a r → n.index x cfg ≤ m.index x cfg → m.Ok x cfg a' r) ∧
      ∀ err, s' ≠ .done (.error err) := by
  have hpos := hx.agreed_pos cfg
  have hbounds := hx.negotiate_bounds cfg
  have hlim := hs.lim_le
  cases ht with
  | offerSent | chunkSent => cases he
  | offerAck k arrival =>
      cases he
      cases hs
      cases n with
      | accept =>
          simp only [Note.value, x.onOfferAck_accept k hbounds.1 hbounds.2]
          refine ⟨?_, x.dataLoop_ne_error _⟩
          obtain ⟨a', i', lim', hat, ha', -⟩ := SendAt.dataLoop (x := x) (a := 0) (i := 0)
            (v := { chunkSize := x.agreed cfg }) hpos rfl
            (Chunking.start_zero).symm (Chunking.start_zero).symm (Nat.le_refl 0) (Nat.zero_le _)
          exact ⟨a', i', lim', hat, Nat.le_trans ha' har, Nat.zero_le _, fun m hm _ ↦ hm.of_le ha'⟩
      | progress j =>
          rw [x.onOfferAck_late k rfl (.inl rfl)]
          refine ⟨⟨0, 0, 0, .offerSend k, har, Nat.le_refl _, fun m hm _ ↦ hm⟩, ?_⟩
          rintro _ ⟨⟩
      | complete =>
          rw [x.onOfferAck_late k rfl (.inr rfl)]
          refine ⟨⟨0, 0, 0, .offerSend k, har, Nat.le_refl _, fun m hm _ ↦ hm⟩, ?_⟩
          rintro _ ⟨⟩
  | ack v arrival =>
      cases he
      cases hs with
      | ackWait _ _ hc ha hn hlt =>
      cases n with
      | accept =>
          simp only [Note.value, x.onAck_accept v]
          refine ⟨?_, x.dataLoop_ne_error _⟩
          obtain ⟨a', i', lim', hat, ha', hlim'⟩ := SendAt.dataLoop hpos hc ha hn
            (Nat.le_of_lt (SendCall.lt_limit hx hlt)) (Nat.le_refl _)
          exact ⟨a', i', lim', hat, Nat.le_trans ha' har, hlim', fun m hm _ ↦ hm.of_le ha'⟩
      | progress j =>
          obtain ⟨haj, hjr, hjN⟩ := hok
          have hfit := SendCall.fits_offset hx ha hn haj (Nat.le_trans hjr hr)
          simp only [Note.value, hfit.onAck_progress]
          refine ⟨?_, x.dataLoop_ne_error _⟩
          have hmono : x.limit (x.agreed cfg) a ≤ x.limit (x.agreed cfg) j := SendCall.limit_mono haj
          obtain ⟨a', i', lim', hat, ha', hlim'⟩ := SendAt.dataLoop
            (v := { v with lastAcked := x.offsetU32 (x.agreed cfg) j }) hpos hc
            (SendCall.toNat_offsetU32 hx) hn (Nat.le_trans hjr hr) hmono
          refine ⟨a', i', lim', hat, Nat.le_trans ha' hjr, Nat.le_trans hmono hlim', ?_⟩
          intro m hm hle
          refine Note.Ok.of_le ?_ ha'
          cases m with
          | accept => trivial
          | progress k => exact ⟨hle, hm.2⟩
          | complete => exact hm
      | complete =>
          obtain rfl : r = x.chunkCount (x.agreed cfg) := hok
          have hfit := SendCall.fits_offset hx ha hn (Nat.le_of_lt hlt) hr
          have htotal : x.offsetU32 (x.agreed cfg) (x.chunkCount (x.agreed cfg)) = x.totalLenU32 := by
            rw [SendCall.offsetU32, SendCall.offset_count hpos]
            rfl
          rw [htotal] at hfit
          simp only [Note.value, hfit.onAck_complete hx.toNat_totalLenU32]
          refine ⟨⟨0, _, _, .done _, Nat.zero_le _, hlim,
            fun m hm _ ↦ hm.of_le (Nat.zero_le a)⟩, ?_⟩
          rintro _ ⟨⟩

end Sender

/-! ## Steps of the receiver -/

section Receiver

variable {sha256 : Bytes → Digest} {x : SendCall} {cfg : ReceiverConfig} {r lim : Nat}
  {s s' : RecvPc H E} {e : RecvEvent H E}

/-- What the link can deliver to the receiver when the sender can have sent the
first `lim` chunks. -/
structure Delivers (sha256 : Bytes → Digest) (x : SendCall) (cfg : ReceiverConfig) (lim : Nat)
    (resp : RecvResp H E) : Prop where
  offer : ∀ body, resp = .req body → body = some (.ok (x.offer sha256).root)
  chunk : ∀ arrival, resp = .chunk arrival → arrival = .timeout ∨
    ∃ j < lim, arrival = .received (.ok (x.chunkAt (x.agreed cfg) j).root)

theorem RecvResp.isFault_sent {o : SendOutcome} (ho : o.isErr = true) :
    (RecvResp.sent o : RecvResp H E).isFault = true := by
  cases o with
  | ok => cases ho
  | failed => rfl

/-- **The receiver stays on boundaries**, within what the sender can have sent, and
it fails only after a timeout, a failed send or an error of the store. -/
theorem RecvAt.step (hx : x.Accepted) (hs : RecvAt sha256 x cfg s r) (hr : r ≤ lim)
    (hlim : lim ≤ x.chunkCount (x.agreed cfg)) (hd : Delivers sha256 x cfg lim e.2)
    (ht : Transition sha256 .alloc cfg s e s') :
    (∃ r', RecvAt sha256 x cfg s' r' ∧ r ≤ r' ∧ r' ≤ lim) ∧
      (s'.failed = true → s.failed = true ∨ e.2.isFault = true) := by
  have hpos := hx.agreed_pos cfg
  cases ht with
  | req body =>
      cases hs
      obtain rfl := hd.offer body rfl
      rw [show Intake.alloc = Variant.recvFile.intake from rfl, hx.onReq_offer]
      exact ⟨⟨0, .beginWrite, Nat.le_refl _, hr⟩, nofun⟩
  | rejected => cases hs
  | notBegun o err =>
      cases hs
      exact ⟨⟨0, .done _ 0, Nat.le_refl _, hr⟩, fun _ ↦ .inr rfl⟩
  | begun o h =>
      cases hs
      exact ⟨⟨0, .sendAccept h, Nat.le_refl _, hr⟩, nofun⟩
  | accepted o h out =>
      cases hs
      split
      · next herr =>
          exact ⟨⟨0, .abort h _ 0, Nat.le_refl _, hr⟩, fun _ ↦ .inr (RecvResp.isFault_sent herr)⟩
      · rcases hx.onAccepted_kept (E := E) hpos sha256 cfg h with
          ⟨hN, heq⟩ | ⟨hN, heq⟩
        · rw [heq]
          exact ⟨⟨0, .commitEmpty h hN, Nat.le_refl _, hr⟩, nofun⟩
        · rw [heq]
          exact ⟨⟨0, .waitChunk h 0 hN, Nat.le_refl _, hr⟩, nofun⟩
  | committedEmpty o h =>
      cases hs
      exact ⟨⟨0, .done _ 0, Nat.le_refl _, hr⟩, nofun⟩
  | notCommittedEmpty o h err =>
      cases hs
      exact ⟨⟨0, .done _ 0, Nat.le_refl _, hr⟩, fun _ ↦ .inr rfl⟩
  | chunk o h v arrival =>
      cases hs with
      | waitChunk _ _ hrN =>
      rcases hd.chunk arrival rfl with rfl | ⟨j, hj, rfl⟩
      · exact ⟨⟨r, .abort h _ r, Nat.le_refl _, hr⟩, fun _ ↦ .inr rfl⟩
      · rw [hx.onChunk_chunkAt hrN (Nat.lt_of_lt_of_le hj hlim)]
        split
        · next heq =>
            subst heq
            exact ⟨⟨j + 1, .writeAt h j hrN, Nat.le_succ j, hj⟩, nofun⟩
        · exact ⟨⟨r, .sendGap h r hrN, Nat.le_refl _, hr⟩, nofun⟩
  | gapSent o h v out =>
      cases hs with
      | sendGap _ _ hrN =>
      rw [hx.onProgressSent_kept hrN (.inl rfl)]
      split
      · next herr =>
          exact ⟨⟨r, .abort h _ r, Nat.le_refl _, hr⟩, fun _ ↦ .inr (RecvResp.isFault_sent herr)⟩
      · exact ⟨⟨r, .waitChunk h r hrN, Nat.le_refl _, hr⟩, nofun⟩
  | written o h v bs =>
      cases hs with
      | writeAt _ r hrN =>
      rw [hx.onWritten_chunkAt hrN]
      split
      · next hlast =>
          rw [hlast] at hr ⊢
          exact ⟨⟨_, .commit h, Nat.le_refl _, hr⟩, nofun⟩
      · next hlast =>
          exact ⟨⟨r + 1, .sendProgress h (r + 1) (Nat.lt_of_le_of_ne hrN hlast), Nat.le_refl _, hr⟩,
            nofun⟩
  | notWritten o h v bs err =>
      cases hs
      exact ⟨⟨_, .abort h _ _, Nat.le_refl _, hr⟩, fun _ ↦ .inr rfl⟩
  | progressSent o h v out =>
      cases hs with
      | sendProgress _ _ hrN =>
      rw [hx.onProgressSent_kept hrN (.inr rfl)]
      split
      · next herr =>
          exact ⟨⟨r, .abort h _ r, Nat.le_refl _, hr⟩, fun _ ↦ .inr (RecvResp.isFault_sent herr)⟩
      · exact ⟨⟨r, .waitChunk h r hrN, Nat.le_refl _, hr⟩, nofun⟩
  | committed o h =>
      cases hs
      exact ⟨⟨_, .sendComplete, Nat.le_refl _, hr⟩, nofun⟩
  | notCommitted o h err =>
      cases hs
      exact ⟨⟨_, .done _ _, Nat.le_refl _, hr⟩, fun _ ↦ .inr rfl⟩
  | completed o out =>
      cases hs
      refine ⟨⟨_, .done _ _, Nat.le_refl _, hr⟩, fun hfail ↦ .inr ?_⟩
      cases out with
      | ok => cases hfail
      | failed => rfl
  | aborted h last err =>
      cases hs
      exact ⟨⟨r, .done _ r, Nat.le_refl _, hr⟩, fun _ ↦ .inl rfl⟩
  | abortSent => cases hs

/-- What the receiver sends names the boundary it has reached. -/
theorem RecvAt.note (hs : RecvAt sha256 x cfg s r) (ht : Transition sha256 .alloc cfg s e s')
    {ack : FileAckValue} (he : e.1 = .send ack) :
    ∃ n : Note, ack = n.value x cfg ∧ n.index x cfg = r ∧ ∀ a ≤ r, n.Ok x cfg a r := by
  cases ht with
  | accepted o h out =>
      cases he
      cases hs
      exact ⟨.accept, rfl, rfl, fun _ _ ↦ trivial⟩
  | gapSent o h v out =>
      cases he
      cases hs with
      | sendGap _ _ hrN => exact ⟨.progress r, rfl, rfl, fun a ha ↦ ⟨ha, Nat.le_refl r, hrN⟩⟩
  | progressSent o h v out =>
      cases he
      cases hs with
      | sendProgress _ _ hrN => exact ⟨.progress r, rfl, rfl, fun a ha ↦ ⟨ha, Nat.le_refl r, hrN⟩⟩
  | completed o out =>
      cases he
      cases hs
      exact ⟨.complete, rfl, rfl, fun _ _ ↦ rfl⟩
  | rejected => cases hs
  | abortSent => cases hs
  | _ => cases he

end Receiver

/-! ## The invariant -/

/-- The link when `send_file_with_id` and one `recv_file` have been called. -/
def Link.single (x : SendCall) (cfg : ReceiverConfig) : Link H E where
  net := { sender := x.start, calls := [{ variant := .recvFile, cfg }] }

/-- **The invariant of a lossy link**, with the acknowledged chunk `a`, the next
one to send `i`, the bound `lim` of what was sent, the number `r` of chunks taken
and the acknowledgements in flight. -/
structure LossyInv (sha256 : Bytes → Digest) (x : SendCall) (cfg : ReceiverConfig)
    (w : Link H E) (call : RecvCall H E) (a i lim r : Nat) (notes : List Note) : Prop where
  calls : w.net.calls = [call]
  variant : call.variant = .recvFile
  config : call.cfg = cfg
  sender : SendAt x (x.agreed cfg) w.net.sender a i lim
  receiver : RecvAt sha256 x cfg call.pc r
  acked_le : a ≤ r
  reach_le : r ≤ lim
  acks : w.acks = notes.map (·.value x cfg)
  ordered : Ordered x cfg a r notes
  chunks : ∀ ch ∈ w.chunks, ∃ j < lim, ch = x.chunkAt (x.agreed cfg) j
  offers : ∀ o ∈ w.offers, o = x.offer sha256
  /-- A failed sender has met a fault last. -/
  sendFault : ∀ err, w.net.sender = .done (.error err) →
    ∃ k e, w.net.sendHist = k ++ [e] ∧ e.2.isFault = true
  /-- A failed receive call has met a fault. -/
  recvFault : call.pc.failed = true → ∃ e ∈ call.hist, e.2.isFault = true
  /-- Nothing sent is a rejection or an abort. -/
  quiet : ∀ ack resp, (.send ack, resp) ∈ call.hist → ∃ n : Note, ack = n.value x cfg

section Invariant

variable {ρ : Regime} {sha256 : Bytes → Digest} {x : SendCall} {cfg : ReceiverConfig}
  {w w' : Link H E} {call : RecvCall H E} {a i lim r : Nat} {notes : List Note}

theorem LossyInv.init (hx : x.Accepted) :
    LossyInv sha256 x cfg (Link.single x cfg : Link H E) { variant := .recvFile, cfg } 0 0 0 0 [] := by
  refine ⟨rfl, rfl, rfl, ?_, .recvReq, Nat.le_refl _, Nat.le_refl _, rfl, ⟨nofun, .nil⟩, nofun,
    nofun, ?_, nofun, fun _ _ hmem ↦ absurd hmem List.not_mem_nil⟩
  · simp only [Link.single, hx.start_eq]
    exact .offerSend 0
  · intro err he
    simp only [Link.single, hx.start_eq, reduceCtorEq] at he

/-- The parts of the invariant a move of the sender leaves alone. -/
theorem LossyInv.sent (hi : LossyInv sha256 x cfg w call a i lim r notes) {e : SendEvent}
    {s : SendPc} {as : List FileAckValue} {a' i' lim' : Nat} {notes' : List Note}
    (hs : SendAt x (x.agreed cfg) s a' i' lim') (har : a' ≤ r) (hlim : lim ≤ lim')
    (has : as = notes'.map (·.value x cfg)) (hord : Ordered x cfg a' r notes')
    (hchunk : ∀ ch, handedChunk e = some ch → ∃ j < lim', ch = x.chunkAt (x.agreed cfg) j)
    (hoffer : ∀ o, handedOffer e = some o → o = x.offer sha256)
    (hfault : ∀ err, s = .done (.error err) → e.2.isFault = true) :
    LossyInv sha256 x cfg (w.sent s e as) call a' i' lim' r notes' := by
  refine ⟨hi.calls, hi.variant, hi.config, hs, hi.receiver, har, Nat.le_trans hi.reach_le hlim,
    has, hord, ?_, ?_, fun err herr ↦ ⟨_, e, rfl, hfault err herr⟩,
    hi.recvFault, hi.quiet⟩
  · intro ch hch
    rcases List.mem_append.mp hch with hch | hch
    · obtain ⟨j, hj, rfl⟩ := hi.chunks ch hch
      exact ⟨j, Nat.lt_of_lt_of_le hj hlim, rfl⟩
    · exact hchunk ch (Option.mem_toList.mp hch)
  · intro o ho
    rcases List.mem_append.mp ho with ho | ho
    · exact hi.offers o ho
    · exact hoffer o (Option.mem_toList.mp ho)

theorem handedOffer_eq {s s' : SendPc} {e : SendEvent} {o : FileOfferValue}
    (ht : SendTransition sha256 x s e s') (ho : handedOffer e = some o) : o = x.offer sha256 := by
  cases ht with
  | offerSent n out =>
      simp only [handedOffer] at ho
      split at ho
      · exact (Option.some.inj ho).symm
      · cases ho
  | offerAck | chunkSent | ack => cases ho

/-- A move of the sender keeps the invariant. -/
theorem LossyInv.step_send (hx : x.Accepted) (hi : LossyInv sha256 x cfg w call a i lim r notes)
    {e : SendEvent} {s : SendPc} {as : List FileAckValue} (hρ : ρ.allowsSend e.2 = true)
    (htake : w.takeAck e.2 = some as) (ht : SendTransition sha256 x w.net.sender e s) :
    ∃ a' i' lim' notes', LossyInv sha256 x cfg (w.sent s e as) call a' i' lim' r notes' := by
  have hpos := hx.agreed_pos cfg
  have hoffer : ∀ o, handedOffer e = some o → o = x.offer sha256 := fun o ↦ handedOffer_eq ht
  -- what the sender is answered decides which of its three lemmas applies
  obtain ⟨q, resp⟩ := e
  cases resp with
  | sent out =>
      obtain rfl := Option.some.inj htake
      obtain ⟨⟨a', i', lim', hat, ha', hlim, hchunk⟩, hfault⟩ :=
        hi.sender.step_sent hx hpos ht rfl
      refine ⟨a', i', lim', notes, hi.sent hat (Nat.le_trans ha' hi.acked_le) hlim hi.acks
        (hi.ordered.of_le ha') hchunk hoffer fun err herr ↦ ?_⟩
      cases out with
      | ok => cases hfault err herr
      | failed => rfl
  | ack arrival =>
      have hchunk : ∀ lim' ch, handedChunk (q, .ack arrival) = some ch →
          ∃ j < lim', ch = x.chunkAt (x.agreed cfg) j := by
        intro lim' ch hch
        cases q <;> cases hch
      cases arrival with
      | unavailable => cases hρ
      | timeout =>
          obtain rfl := Option.some.inj htake
          obtain ⟨a', i', lim', hat, ha', hlim⟩ := hi.sender.step_timeout hx hpos ht rfl
          exact ⟨a', i', lim', notes, hi.sent hat (Nat.le_trans ha' hi.acked_le) hlim hi.acks
            (hi.ordered.of_le ha') (hchunk lim') hoffer fun _ _ ↦ rfl⟩
      | received body =>
          obtain ⟨ack, hacks, rfl⟩ := Link.takeAck_received htake
          rw [hi.acks] at hacks
          obtain ⟨n, notes, rfl, rfl, rfl⟩ := List.map_eq_cons_iff.mp hacks
          obtain ⟨⟨a', i', lim', hat, ha', hlim, hrest⟩, hne⟩ := hi.sender.step_take hx
            (hi.ordered.ok n List.mem_cons_self) hi.acked_le hi.reach_le ht rfl
          obtain ⟨hfirst, hsorted⟩ := List.pairwise_cons.mp hi.ordered.sorted
          have hord : Ordered x cfg a' r notes :=
            ⟨fun m hm ↦ hrest m (hi.ordered.ok m (List.mem_cons_of_mem n hm)) (hfirst m hm), hsorted⟩
          exact ⟨a', i', lim', notes, hi.sent hat ha' hlim rfl hord (hchunk lim') hoffer
            fun err herr ↦ absurd herr (hne err)⟩

/-- What the link lets the receive call take are the offer and chunks of the
file. -/
theorem LossyInv.delivers (hi : LossyInv sha256 x cfg w call a i lim r notes)
    {resp : RecvResp H E} {os : List FileOfferValue} {ks : List FileChunkValue}
    (hρ : ρ.allowsRecv resp = true) (hos : w.takeOffer resp = some os)
    (hks : w.takeChunk resp = some ks) : Delivers sha256 x cfg lim resp := by
  constructor
  · rintro body rfl
    cases body with
    | none => cases hρ
    | some body =>
        obtain ⟨o, hq, rfl⟩ := Link.takeOffer_req hos
        rw [hi.offers o (hq ▸ List.mem_cons_self)]
  · rintro arrival rfl
    cases arrival with
    | timeout => exact .inl rfl
    | unavailable => cases hρ
    | received body =>
        obtain ⟨ch, hq, rfl⟩ := Link.takeChunk_received hks
        obtain ⟨j, hj, rfl⟩ := hi.chunks ch (hq ▸ List.mem_cons_self)
        exact .inr ⟨j, hj, rfl⟩

/-- A move of the receive call keeps the invariant. -/
theorem LossyInv.step_recv (hx : x.Accepted) (hi : LossyInv sha256 x cfg w call a i lim r notes)
    {e : RecvEvent H E} {s : RecvPc H E} {os : List FileOfferValue} {ks : List FileChunkValue}
    (hρ : ρ.allowsRecv e.2 = true) (hos : w.takeOffer e.2 = some os)
    (hks : w.takeChunk e.2 = some ks) (ht : Transition sha256 .alloc cfg call.pc e s) :
    ∃ r' notes', LossyInv sha256 x cfg (w.received call [] s e os ks)
      { call with pc := s, hist := call.hist ++ [e] } a i lim r' notes' := by
  have hlim := hi.sender.lim_le
  have hd := hi.delivers hρ hos hks
  obtain ⟨⟨r', hat, hrr, hrlim⟩, hfails⟩ := hi.receiver.step hx hi.reach_le hlim hd ht
  have hfault : s.failed = true → ∃ e' ∈ call.hist ++ [e], e'.2.isFault = true := by
    intro hfail
    rcases hfails hfail with hfail | hfault
    · obtain ⟨e', he', hf⟩ := hi.recvFault hfail
      exact ⟨e', List.mem_append_left _ he', hf⟩
    · exact ⟨e, List.mem_append_right _ (List.mem_singleton.mpr rfl), hfault⟩
  have hquiet : ∀ ack resp, (.send ack, resp) ∈ call.hist ++ [e] →
      ∃ n : Note, ack = n.value x cfg := by
    intro ack resp hmem
    rcases List.mem_append.mp hmem with hmem | hmem
    · exact hi.quiet ack resp hmem
    · obtain ⟨n, hn, -⟩ := hi.receiver.note ht (by rw [← List.mem_singleton.mp hmem])
      exact ⟨n, hn⟩
  -- the message of the event, if it has one, joins the queue
  have hnotes : ∃ notes', w.acks ++ (handedAck e).toList = notes'.map (·.value x cfg) ∧
      Ordered x cfg a r notes' := by
    cases hh : handedAck e with
    | none => exact ⟨notes, by rw [Option.toList_none, List.append_nil, hi.acks], hi.ordered⟩
    | some ack =>
        have he : e.1 = .send ack := by
          unfold handedAck at hh
          split at hh
          · split at hh
            · rw [Option.some.inj hh]
            · cases hh
          · cases hh
        obtain ⟨n, rfl, hindex, hok⟩ := hi.receiver.note ht he
        refine ⟨notes ++ [n], ?_, hi.ordered.snoc (hok a hi.acked_le) hindex⟩
        rw [hi.acks, Option.toList_some, List.map_append, List.map_singleton]
  obtain ⟨notes', hacks, hord⟩ := hnotes
  exact ⟨r', notes', rfl, hi.variant, hi.config, hi.sender, hat, Nat.le_trans hi.acked_le hrr,
    hrlim, hacks, hord.of_reach hrr (Nat.le_trans hrlim hlim),
    fun ch hch ↦ hi.chunks ch (Link.mem_of_takeChunk hks ch hch),
    fun o ho ↦ hi.offers o (Link.mem_of_takeOffer hos o ho), hi.sendFault, hfault, hquiet⟩

/-- **Every move of the link keeps the invariant.** -/
theorem LossyInv.step (hx : x.Accepted) (hρ : ρ.recalls = false)
    (hi : LossyInv sha256 x cfg w call a i lim r notes) (hm : Link.Move ρ sha256 x w w') :
    ∃ call' a' i' lim' r' notes', LossyInv sha256 x cfg w' call' a' i' lim' r' notes' := by
  cases hm with
  | send e s as hallow htake hf =>
      obtain ⟨a', i', lim', notes', hi'⟩ := hi.step_send hx hallow htake (sender_fire hf)
      exact ⟨call, a', i', lim', r, notes', hi'⟩
  | recv c cs e s os ks hcalls hallow hos hks hf =>
      obtain ⟨rfl, rfl⟩ := List.cons.inj (hi.calls.symm.trans hcalls)
      rw [hi.variant, hi.config] at hf
      obtain ⟨r', notes', hi'⟩ := hi.step_recv hx hallow hos hks (receiver_fire hf)
      exact ⟨_, a, i, lim, r', notes', hi'⟩
  | call variant cfg hcall => rw [hρ] at hcall; cases hcall
  | loseOffer k hloss hk =>
      exact ⟨call, a, i, lim, r, notes, { hi with
        offers := fun o ho ↦ hi.offers o (List.mem_of_mem_eraseIdx ho) }⟩
  | loseChunk k hloss hk =>
      exact ⟨call, a, i, lim, r, notes, { hi with
        chunks := fun ch hch ↦ hi.chunks ch (List.mem_of_mem_eraseIdx hch) }⟩
  | loseAck k hloss hk =>
      refine ⟨call, a, i, lim, r, notes.eraseIdx k, { hi with
        acks := ?_, ordered := hi.ordered.sublist (List.eraseIdx_sublist _ _) }⟩
      show w.acks.eraseIdx k = (notes.eraseIdx k).map (·.value x cfg)
      rw [hi.acks, List.eraseIdx_map]

/-- The invariant holds in every reachable state. -/
theorem LossyInv.of_reachable (hx : x.Accepted) (hρ : ρ.recalls = false)
    (hw : (Link.machine ρ sha256 x).Reachable (Link.single x cfg) w) :
    ∃ call a i lim r notes, LossyInv sha256 x cfg w call a i lim r notes := by
  refine hw.invariant
    (I := fun w ↦ ∃ call a i lim r notes, LossyInv sha256 x cfg w call a i lim r notes)
    ⟨_, 0, 0, 0, 0, [], .init hx⟩ ?_
  rintro w l w' ⟨call, a, i, lim, r, notes, hi⟩ hs
  exact hi.step hx hρ (Link.step_move hs)

end Invariant

/-! ## No spurious failure -/

/-- Nothing went wrong in `w` but for faults: timeouts, failed sends and errors
of the store. -/
structure Blameless (w : Link H E) : Prop where
  /-- A failed sender has met a fault last, so what failed it is not a check on an
  acknowledgement or on the agreed chunk size. -/
  sender : ∀ err, w.net.sender = .done (.error err) →
    ∃ k e, w.net.sendHist = k ++ [e] ∧ e.2.isFault = true
  /-- A failed receive call has met a fault. -/
  receiver : ∀ c ∈ w.net.calls, ∀ err, c.pc = .done (.error err) →
    ∃ e ∈ c.hist, e.2.isFault = true
  /-- No receive call has sent a rejection or an abort. -/
  quiet : ∀ c ∈ w.net.calls, ∀ ack resp, (.send ack, resp) ∈ c.hist →
    ack.kind ≠ .reject ∧ ack.kind ≠ .abort
  /-- No receive call is about to send one. -/
  calm : ∀ c ∈ w.net.calls, (∀ ack, c.pc ≠ .sendReject ack) ∧ ∀ ack err, c.pc ≠ .sendAbort ack err

/-- A link with losses, timeouts and faults, and one receive call. -/
def Regime.lossy : Regime where
  loss := true
  timeouts := true
  faults := true
  recalls := false

theorem Note.kind_value {x : SendCall} {cfg : ReceiverConfig} (n : Note) :
    (n.value x cfg).kind ≠ .reject ∧ (n.value x cfg).kind ≠ .abort := by
  cases n <;> exact ⟨nofun, nofun⟩

/-- **Only faults make a transfer fail.**  Whatever the link loses or delays and
whenever a wait times out, the sender accepts every acknowledgement it takes and
the receiver neither rejects nor aborts; a party that fails has met a timeout, a
failed send or an error of its store. -/
theorem lossy_blameless (sha256 : Bytes → Digest) (x : SendCall) (cfg : ReceiverConfig)
    (w : Link H E) (hx : x.Accepted)
    (hw : (Link.machine .lossy sha256 x).Reachable (Link.single x cfg) w) : Blameless w := by
  obtain ⟨call, a, i, lim, r, notes, hi⟩ := LossyInv.of_reachable hx rfl hw
  have hcall : ∀ c ∈ w.net.calls, c = call := by
    intro c hc
    rw [hi.calls] at hc
    exact List.mem_singleton.mp hc
  constructor
  case sender => exact hi.sendFault
  case receiver =>
    intro c hc err herr
    obtain rfl := hcall c hc
    apply hi.recvFault
    rw [herr]
    rfl
  case quiet =>
    intro c hc ack resp hmem
    obtain rfl := hcall c hc
    obtain ⟨n, rfl⟩ := hi.quiet ack resp hmem
    exact n.kind_value
  case calm =>
    intro c hc
    obtain rfl := hcall c hc
    have hat := hi.receiver
    generalize c.pc = s at hat
    constructor
    · rintro ack rfl
      cases hat
    · rintro ack err rfl
      cases hat

/-- The sender of `abc` times out while the acknowledgement of its first chunk is
in flight, and sends both chunks again before it takes it; one of the four chunks
is lost. -/
def abcRewound : List (Link.Label Unit Unit) :=
  [.send (.sent .ok), .recv (.req (some (.ok (abcCall.offer shortSha256).root))),
    .recv (.began (.ok ())), .recv (.sent .ok),
    .send (.ack (.received (.ok (fileAckAccept 7 2).root))), .send (.sent .ok), .send (.sent .ok),
    .recv (.chunk (.received (.ok ⟨7, 0, .ok [0x61, 0x62]⟩))), .recv (.wrote (.ok ())),
    .recv (.sent .ok), .send (.ack .timeout), .loseChunk 0, .send (.sent .ok), .send (.sent .ok),
    .send (.ack (.received (.ok (fileAckProgress 7 2).root))),
    .recv (.chunk (.received (.ok ⟨7, 0, .ok [0x61, 0x62]⟩))), .recv (.sent .ok),
    .send (.ack (.received (.ok (fileAckProgress 7 2).root))), .recv (.chunk .timeout),
    .recv .aborted]

theorem lossy_blameless_rewound : ∃ w : Link Unit Unit,
    (Link.machine .lossy shortSha256 abcCall).Reachable (Link.single abcCall {}) w ∧
      w.net.calls.map (·.pc) = [.done (.error .protocol)] ∧ Blameless w := by
  have hexec : (Link.machine .lossy shortSha256 abcCall).exec (Link.single abcCall {}) abcRewound =
      some { net := { sender := _, sendHist := _, calls := [_] }, chunks := _, acks := _ } := rfl
  exact ⟨_, ⟨_, hexec⟩, rfl, lossy_blameless shortSha256 abcCall {} _
    ⟨⟨by decide, by decide⟩, by decide, by decide⟩ ⟨_, hexec⟩⟩

end Thincan.FileTransfer

import Thincan.FileTransfer.SendWords

/-!
# Which calls run into a fault

A call that gets past the checks on its arguments has no fault in any run if and only if the
arguments leave room (`sender_words_safe`).  One direction is `run_ok`.  For the other, each
condition of `Roomy` comes with a peer that makes the sum it is about as large as it gets:

* one that accepts the largest size, acknowledges all bytes but the last, and is silent;
* one that never answers the offer;
* one that accepts chunks of one byte, is silent until the timeouts are used up, and then
  acknowledges byte by byte.

These runs are built in the model with unbounded numbers.  A call without a fault follows them
(`words_of_run`), so that the sums on their way fit.
-/

namespace Thincan.FileTransfer.Words

open Process

variable {sha256 : Bytes → Digest} {x : SendCall} {v : SendVars}

/-! ## Without a fault the sums fit -/

theorem exists_of_bind_eq_ok {α β : Type} {m : Except Fault α} {k : α → Except Fault β} {b : β}
    (h : (m >>= k) = .ok b) : ∃ a, m = .ok a ∧ k a = .ok b := by
  cases m with
  | ok a => exact ⟨a, rfl, h⟩
  | error f => cases h

theorem lt_of_usizeAdd {w : UsizeWidth} {a b c : Nat} (h : usizeAdd w a b = .ok c) :
    a + b < 2 ^ w.bits := by
  unfold usizeAdd at h
  split at h
  · assumption
  · cases h

/-- The words take the same answers as the numbers. -/
theorem exists_resume {s s' : SendPc} {r : SendResp}
    (h : (FileTransfer.sendFileWithId sha256 x).resume s r = some s') :
    ∃ t, (sendFileWithId sha256 x).resume (.ok s) r = some t := by
  cases s with
  | offerSend | chunkSend =>
      cases r with
      | sent => exact ⟨_, rfl⟩
      | ack => cases h
  | offerWait | ackWait =>
      cases r with
      | sent => cases h
      | ack => exact ⟨_, rfl⟩
  | done => cases h

/-- No run of the call has a fault. -/
def NoFault (sha256 : Bytes → Digest) (x : SendCall) : Prop :=
  ∀ hist t, (sendFileWithId sha256 x).Run (.ok x.start) hist t → ∃ s, t = .ok s

/-- A call without a fault has all runs of the model with unbounded numbers. -/
theorem words_of_run (hok : NoFault sha256 x) {hist : List SendEvent} {s : SendPc}
    (hr : (FileTransfer.sendFileWithId sha256 x).Run x.start hist s) :
    (sendFileWithId sha256 x).Run (.ok x.start) hist (.ok s) := by
  induction hr with
  | nil => exact .nil
  | @snoc hist s s' e hr hf ih =>
      obtain ⟨hq, -, hres⟩ := Coroutine.fire_eq_some.mp hf
      obtain ⟨t, ht⟩ := exists_resume hres
      have hrun := ih.snoc (Coroutine.fire_eq_some.mpr ⟨hq, rfl, ht⟩)
      obtain ⟨s'', rfl⟩ := hok _ _ hrun
      obtain ⟨s₁, hs₁, href⟩ := resume_refines ht
      obtain rfl := Option.some.inj (hres.symm.trans hs₁)
      obtain rfl := href.eq
      exact hrun

/-- An await point whose every answer leads on without a fault. -/
theorem NoFault.resume (hok : NoFault sha256 x) {hist : List SendEvent} {s : SendPc} {q : SendReq}
    {r : SendResp} {t : Except Fault SendPc}
    (hr : (FileTransfer.sendFileWithId sha256 x).Run x.start hist s)
    (hq : (sendFileWithId sha256 x).request (.ok s) = some q)
    (ht : (sendFileWithId sha256 x).resume (.ok s) r = some t) : ∃ s', t = .ok s' :=
  hok _ _ ((words_of_run hok hr).snoc (e := (q, r)) (Coroutine.fire_eq_some.mpr ⟨hq, rfl, ht⟩))

theorem NoFault.fits (hok : NoFault sha256 x) {hist : List SendEvent} {s : SendPc}
    (hr : (FileTransfer.sendFileWithId sha256 x).Run x.start hist s) : Fits x s := by
  cases s with
  | offerSend | done => trivial
  | offerWait | ackWait =>
      obtain ⟨s', hs'⟩ := hok.resume (r := .ack .timeout) hr rfl rfl
      obtain ⟨n, hn, -⟩ := exists_of_bind_eq_ok hs'
      exact lt_of_usizeAdd hn
  | chunkSend v =>
      obtain ⟨s', hs'⟩ := hok.resume (r := .sent .ok) hr rfl rfl
      obtain ⟨data, hdata, hs'⟩ := exists_of_bind_eq_ok hs'
      obtain ⟨len, -, hs'⟩ := exists_of_bind_eq_ok hs'
      obtain ⟨stop, hstop, -⟩ := exists_of_bind_eq_ok hdata
      split at hs'
      · cases hs'
      · obtain ⟨sent, hsent, -⟩ := exists_of_bind_eq_ok hs'
        exact ⟨lt_of_usizeAdd hstop, lt_of_usizeAdd hsent⟩

/-! ## Peers that make the sums large -/

/-- Some run of the call leads to this state. -/
def Reached (sha256 : Bytes → Digest) (x : SendCall) (s : SendPc) : Prop :=
  ∃ hist, (FileTransfer.sendFileWithId sha256 x).Run x.start hist s

theorem Reached.resume {s s' : SendPc} {q : SendReq} {r : SendResp} (h : Reached sha256 x s)
    (hq : (FileTransfer.sendFileWithId sha256 x).request s = some q)
    (hres : (FileTransfer.sendFileWithId sha256 x).resume s r = some s') : Reached sha256 x s' := by
  obtain ⟨hist, hr⟩ := h
  exact ⟨_, hr.snoc (e := (q, r)) (Coroutine.fire_eq_some.mpr ⟨hq, rfl, hres⟩)⟩

theorem Reached.sends (h : Reached sha256 x (x.dataLoop v)) (hlt : v.lastAcked.toNat < x.totalLen)
    (hnext : v.nextToSend.toNat < x.totalLen)
    (hwin : (v.nextToSend.toNat - v.lastAcked.toNat) ⌈/⌉ v.chunkSize < x.config.windowChunks) :
    Reached sha256 x (.chunkSend v) := by
  have hcase := x.dataLoop_case v
  generalize x.dataLoop v = s at h hcase
  cases hcase with
  | finished hge => omega
  | send => exact h
  | wait _ hfull => omega

theorem Reached.waits (h : Reached sha256 x (x.dataLoop v)) (hlt : v.lastAcked.toNat < x.totalLen)
    (hfull : x.config.windowChunks ≤ (v.nextToSend.toNat - v.lastAcked.toNat) ⌈/⌉ v.chunkSize ∨
      x.totalLen ≤ v.nextToSend.toNat) : Reached sha256 x (.ackWait v) := by
  have hcase := x.dataLoop_case v
  generalize x.dataLoop v = s at h hcase
  cases hcase with
  | finished hge => omega
  | send _ hnext hwin => omega
  | wait => exact h

/-- The offer can be repeated as often as the configuration says. -/
theorem Reached.offered (hx : x.Accepted) {n : Nat} (hn : n ≤ x.config.maxRetries) :
    Reached sha256 x (.offerWait n) := by
  have hsend : Reached sha256 x (.offerSend n) := by
    induction n with
    | zero => exact ⟨[], hx.start_eq ▸ .nil⟩
    | succ n ih =>
        have hwait := (ih (Nat.le_of_succ_le hn)).resume (r := .sent .ok) rfl rfl
        refine hwait.resume (r := .ack .timeout) rfl (congrArg some ?_)
        exact if_neg (Nat.not_lt_of_le hn)
  exact hsend.resume (r := .sent .ok) rfl rfl

/-- Any size up to the limit can be accepted. -/
theorem Reached.accepted (hx : x.Accepted) (size : UInt32) (hpos : 0 < size.toNat)
    (hle : size.toNat ≤ x.config.senderMaxChunkSize) :
    Reached sha256 x (x.dataLoop { chunkSize := size.toNat }) :=
  (Reached.offered hx (Nat.zero_le _)).resume
    (r := .ack (.received (.ok (fileAckAccept x.transferId size).root))) rfl
    (congrArg some (x.onOfferAck_accept 0 hpos hle))

theorem Reached.sent (hx : x.Accepted) (h : Reached sha256 x (.chunkSend v)) {n : UInt32}
    (hnext : v.nextToSend.toNat ≤ x.totalLen)
    (hn : n.toNat = min (v.nextToSend.toNat + v.chunkSize) x.totalLen) :
    Reached sha256 x (x.dataLoop { v with nextToSend := n, chunksSent := v.chunksSent + 1 }) := by
  have hcase := hx.onChunkSent_case hnext .ok
  have hres := h.resume (r := .sent .ok) rfl rfl
  generalize x.onChunkSent v .ok = s at hcase hres
  cases hcase with
  | ok n' hn' =>
      obtain rfl : n' = n := UInt32.toNat_inj.mp (hn'.trans hn.symm)
      exact hres

theorem Reached.acked (h : Reached sha256 x (.ackWait v)) {n : UInt32} (hfit : x.Fits v n) :
    Reached sha256 x (x.dataLoop { v with lastAcked := n }) :=
  h.resume (r := .ack (.received (.ok (fileAckProgress x.transferId n).root))) rfl
    (congrArg some hfit.onAck_progress)

theorem Reached.rewound (h : Reached sha256 x (.ackWait v))
    (hle : v.retries < x.config.maxRetries) : Reached sha256 x
      (x.dataLoop { v with retries := v.retries + 1, nextToSend := v.lastAcked }) :=
  h.resume (r := .ack .timeout) rfl (congrArg some (if_neg (Nat.not_lt_of_le hle)))

/-! ## One byte at a time -/

/-- The variables when chunks of one byte were accepted. -/
def bytewise (chunksSent retries lastAcked nextToSend : Nat) : SendVars :=
  ⟨1, chunksSent, retries, .ofNat lastAcked, .ofNat nextToSend⟩

/-- The data phase gets to these variables, and the count of chunks still fits. -/
structure Counted (sha256 : Bytes → Digest) (x : SendCall) (sent r a n : Nat) : Prop where
  reached : Reached sha256 x (x.dataLoop (bytewise sent r a n))
  fits : sent < 2 ^ x.usize.bits

section Bytewise

variable {sent r a n : Nat}

/-- The chunks that are in flight when the sender waits. -/
def window (x : SendCall) : Nat := min x.config.windowChunks x.totalLen

theorem Counted.start (hx : x.Accepted) : Counted sha256 x 0 0 0 0 :=
  ⟨Reached.accepted hx 1 (by decide) hx.config.chunk_pos, Nat.two_pow_pos _⟩

theorem Counted.send (hx : x.Accepted) (hok : NoFault sha256 x) (h : Counted sha256 x sent r a n)
    (ha : a ≤ n) (hn : n < x.totalLen) (hwin : n - a < x.config.windowChunks) :
    Counted sha256 x (sent + 1) r a (n + 1) := by
  have htotal := hx.total_lt
  have hacked : (bytewise sent r a n).lastAcked.toNat = a := UInt32.toNat_ofNat_lt (by omega)
  have hnext : (bytewise sent r a n).nextToSend.toNat = n := UInt32.toNat_ofNat_lt (by omega)
  have hsend : Reached sha256 x (.chunkSend (bytewise sent r a n)) := by
    apply h.reached.sends
    · omega
    · omega
    · rw [hacked, hnext]
      exact (ceilDiv_one (n - a)).trans_lt hwin
  obtain ⟨hist, hr⟩ := hsend
  refine ⟨Reached.sent hx ⟨hist, hr⟩ (n := .ofNat (n + 1)) (by omega) ?_, (hok.fits hr).2⟩
  rw [UInt32.toNat_ofNat_lt (by omega), hnext]
  change n + 1 = min (n + 1) x.totalLen
  omega

/-- With a window in flight, or the end of the file, the sender waits. -/
theorem Counted.waits (hx : x.Accepted) (h : Counted sha256 x sent r a n) (ha : a < x.totalLen)
    (hn : n ≤ x.totalLen) (hfull : x.config.windowChunks ≤ n - a ∨ n = x.totalLen) :
    Reached sha256 x (.ackWait (bytewise sent r a n)) := by
  have htotal := hx.total_lt
  have hacked : (bytewise sent r a n).lastAcked.toNat = a := UInt32.toNat_ofNat_lt (by omega)
  have hnext : (bytewise sent r a n).nextToSend.toNat = n := UInt32.toNat_ofNat_lt (by omega)
  refine h.reached.waits (by omega) ?_
  rw [hacked, hnext]
  rcases hfull with hwin | hend
  · exact .inl (hwin.trans_eq (ceilDiv_one (n - a)).symm)
  · exact .inr (Nat.le_of_eq hend.symm)

/-- One byte is acknowledged. -/
theorem Counted.ack (hx : x.Accepted) (h : Counted sha256 x sent r a n) (ha : a < n)
    (hn : n ≤ x.totalLen) (hfull : x.config.windowChunks ≤ n - a ∨ n = x.totalLen) :
    Counted sha256 x sent r (a + 1) n := by
  have htotal := hx.total_lt
  have hacked : (bytewise sent r a n).lastAcked.toNat = a := UInt32.toNat_ofNat_lt (by omega)
  have hnext : (bytewise sent r a n).nextToSend.toNat = n := UInt32.toNat_ofNat_lt (by omega)
  have hone : (UInt32.ofNat (a + 1)).toNat = a + 1 := UInt32.toNat_ofNat_lt (by omega)
  have hwait := h.waits hx (by omega) hn hfull
  refine ⟨hwait.acked (n := .ofNat (a + 1)) ⟨?_, ?_, ?_⟩, h.fits⟩
  · omega
  · omega
  · omega

/-- The first window, from the start of the file. -/
theorem Counted.fill (hx : x.Accepted) (hok : NoFault sha256 x) (h : Counted sha256 x sent r 0 0)
    (hn : n ≤ window x) : Counted sha256 x (sent + n) r 0 n := by
  induction n with
  | zero => exact h
  | succ n ih =>
      have hle : n + 1 ≤ min x.config.windowChunks x.totalLen := hn
      exact (ih (Nat.le_of_succ_le hn)).send hx hok (Nat.zero_le _) (by omega) (by omega)

/-- Each timeout has the first window sent once more. -/
theorem Counted.rounds (hx : x.Accepted) (hok : NoFault sha256 x) (hpos : 0 < x.totalLen)
    (hr : r ≤ x.config.maxRetries) : Counted sha256 x (r * window x) r 0 0 := by
  induction r with
  | zero =>
      rw [Nat.zero_mul]
      exact .start hx
  | succ r ih =>
      have hfull := (ih (Nat.le_of_succ_le hr)).fill hx hok (Nat.le_refl _)
      have hw : window x = min x.config.windowChunks x.totalLen := rfl
      have hwait := hfull.waits hx hpos (by omega) (by omega)
      rw [Nat.succ_mul]
      exact ⟨hwait.rewound hr, hfull.fits⟩

/-- After the last timeout the file is acknowledged byte by byte, with a window in flight. -/
theorem Counted.slide (hx : x.Accepted) (hok : NoFault sha256 x) (hpos : 0 < x.totalLen)
    (ha : a + window x ≤ x.totalLen) :
    Counted sha256 x (x.config.maxRetries * window x + (a + window x)) x.config.maxRetries a
      (a + window x) := by
  have hw : window x = min x.config.windowChunks x.totalLen := rfl
  have hwindow := hx.config.window_pos
  induction a with
  | zero =>
      rw [Nat.zero_add]
      exact (Counted.rounds hx hok hpos (Nat.le_refl _)).fill hx hok (Nat.le_refl _)
  | succ a ih =>
      have hacked := (ih (by omega)).ack hx (by omega) (by omega) (.inl (by omega))
      have hsent := hacked.send hx hok (by omega) (by omega) (by omega)
      rw [show a + 1 + window x = a + window x + 1 by omega]
      exact hsent

end Bytewise

/-! ## The condition -/

/-- The largest size is accepted, the one chunk acknowledged but for its last byte, and the cursor
sent back there. -/
theorem Reached.lastByte (hx : x.Accepted) (hpos : 0 < x.totalLen)
    (hwhole : x.totalLen ≤ x.config.senderMaxChunkSize) (hretries : 0 < x.config.maxRetries) :
    ∃ v, v.chunkSize = x.config.senderMaxChunkSize ∧ v.nextToSend.toNat = x.totalLen - 1 ∧
      Reached sha256 x (.chunkSend v) := by
  have hsize := hx.toNat_maxChunkU32
  have hall : x.totalLenU32.toNat = x.totalLen := hx.toNat_totalLenU32
  have hlast : (UInt32.ofNat (x.totalLen - 1)).toNat = x.totalLen - 1 :=
    UInt32.toNat_ofNat_lt (Nat.lt_of_le_of_lt (Nat.sub_le ..) hx.total_lt)
  have hidle : ∀ n c : Nat, (n - n) ⌈/⌉ c < x.config.windowChunks := by
    intro n c
    rw [Nat.sub_self, zero_ceilDiv]
    exact hx.config.window_pos
  have hstart : Reached sha256 x _ :=
    Reached.accepted hx x.maxChunkU32 (by omega) (Nat.le_of_eq hsize)
  have hfirst := hstart.sends hpos hpos (hidle ..)
  have hsent := Reached.sent hx hfirst (n := x.totalLenU32) (Nat.zero_le _) (by dsimp only; omega)
  have hwait := hsent.waits hpos (.inr (Nat.le_of_eq hall.symm))
  have hacked := hwait.acked (n := .ofNat (x.totalLen - 1))
    ⟨Nat.zero_le _, by omega, by dsimp only; omega⟩
  have hagain := hacked.waits (by dsimp only; omega) (.inr (Nat.le_of_eq hall.symm))
  have hback := hagain.rewound hretries
  exact ⟨_, hsize, hlast, hback.sends (by dsimp only; omega) (by dsimp only; omega) (hidle ..)⟩

theorem NoFault.sums (hok : NoFault sha256 x) (hp : OnPlatform x) (hx : x.Accepted) :
    x.usize = .bits64 ∨ x.config.maxRetries = 0 ∨
      x.totalLen + x.config.senderMaxChunkSize ≤ 2 ^ 32 := by
  cases hw : x.usize with
  | bits64 => exact .inl rfl
  | bits32 =>
      right
      by_contra hnot
      rw [not_or, Nat.not_le] at hnot
      obtain ⟨hretries, hlarge⟩ := hnot
      have hchunk : x.config.senderMaxChunkSize < 2 ^ 32 := hx.chunk_lt
      have htotal : x.totalLen < 2 ^ 31 := by
        rw [OnPlatform, hw] at hp
        exact hp
      obtain ⟨v, hsize, hnext, hist, hr⟩ : ∃ v : SendVars, v.chunkSize = _ ∧ _ ∧
          Reached sha256 x (.chunkSend v) :=
        Reached.lastByte hx (by omega) (by omega) (Nat.pos_of_ne_zero hretries)
      have hsum : v.nextToSend.toNat + v.chunkSize < 2 ^ x.usize.bits := (hok.fits hr).1
      rw [hw] at hsum
      change _ < 2 ^ 32 at hsum
      omega

theorem NoFault.roomy (hok : NoFault sha256 x) (hp : OnPlatform x) (hx : x.Accepted) : Roomy x := by
  refine ⟨hok.sums hp hx, ?_, ?_⟩
  · obtain ⟨hist, hr⟩ : Reached sha256 x (.offerWait x.config.maxRetries) :=
      Reached.offered hx (Nat.le_refl _)
    exact hok.fits hr
  · rcases Nat.eq_zero_or_pos x.totalLen with hzero | hpos
    · rw [hzero, Nat.min_zero, Nat.mul_zero]
      exact Nat.two_pow_pos _
    · have hle : window x ≤ x.totalLen := Nat.min_le_right ..
      have hlast := Counted.slide (a := x.totalLen - window x) hx hok hpos (by omega)
      have hfits := hlast.fits
      rw [Nat.sub_add_cancel hle, Nat.add_comm] at hfits
      exact hfits

/-- **No fault**: on either word size, the loops of a call run into none, against any peer, if
and only if the call is refused before them or has room.  Where a chunk is sent the sum fits,
the slice is in range and the `checked_add` after it succeeds; `inflight_chunk_count` never
fails. -/
theorem sender_words_safe (sha256 : Bytes → Digest) {x : SendCall} (hp : OnPlatform x) :
    (∀ hist t, (sendFileWithId sha256 x).Run (.ok x.start) hist t → ∃ s, t = .ok s ∧
      ∀ v, s.vars = some v →
        (∃ inflight,
          inflightChunkCount x.usize v.lastAcked v.nextToSend v.chunkSize = .ok inflight) ∧
        (s = .chunkSend v → v.nextToSend.toNat + v.chunkSize < 2 ^ x.usize.bits ∧
          v.nextToSend.toNat ≤ min (v.nextToSend.toNat + v.chunkSize) x.totalLen ∧
          ∃ data next, chunkData x v = .ok data ∧
            v.nextToSend.checkedAdd (UInt32.ofNat data.length) = some next)) ↔
      (x.Accepted → Roomy x) := by
  constructor
  · intro hsafe
    have hok : NoFault sha256 x := by
      intro hist t hr
      obtain ⟨s, hs, -⟩ := hsafe hist t hr
      exact ⟨s, hs⟩
    exact hok.roomy hp
  · intro hroom hist t hr
    obtain ⟨s, rfl⟩ := run_ok hp hroom hr
    refine ⟨s, rfl, ?_⟩
    intro v hv
    have hplain := run_of_words hr s rfl
    have hi := SendInv.of_run hplain
    have hcur := hi.cursors hv
    refine ⟨⟨_, inflightChunkCount_eq _ _ _ hcur.chunk_pos⟩, ?_⟩
    rintro rfl
    obtain ⟨hsum, -⟩ := Fits.of_run hroom hp hplain
    have hlen := x.length_chunkData hcur.next_le
    have htotal := hi.1.total_lt
    have hnext := hcur.next_le
    refine ⟨hsum, Nat.le_min.mpr ⟨Nat.le_add_right .., hcur.next_le⟩, _, _,
      chunkData_eq hcur.next_le hsum, UInt32.checkedAdd_eq_some ?_⟩
    rw [UInt32.toNat_ofNat_lt (by omega)]
    omega

/-- `abc` has room in 64 bits, also when the peer acknowledges between two chunks. -/
theorem sender_words_safe_abc : OnPlatform abcCall ∧ Roomy abcCall ∧
    ∃ hist, (sendFileWithId shortSha256 abcCall).Run (.ok abcCall.start) hist
      (.ok (.chunkSend ⟨2, 2, 1, 1, 1⟩)) ∧ 1 + 2 < 2 ^ abcCall.usize.bits := by
  have hp : OnPlatform abcCall := by
    change 3 < 2 ^ 63
    decide
  have hroom : Roomy abcCall := ⟨.inl rfl, by decide, by decide⟩
  have hexec : (sendFileWithId shortSha256 abcCall).exec (.ok abcCall.start) abcUnaligned =
      some (_, .ok (.chunkSend ⟨2, 2, 1, 1, 1⟩)) := rfl
  have hrun : (sendFileWithId shortSha256 abcCall).Run (.ok abcCall.start) _
      (.ok (.chunkSend ⟨2, 2, 1, 1, 1⟩)) := .of_exec .nil hexec
  obtain ⟨s, hs, hvars⟩ := (sender_words_safe shortSha256 hp).mpr (fun _ ↦ hroom) _ _ hrun
  obtain rfl := Except.ok.inj hs
  exact ⟨hp, hroom, _, hrun, ((hvars _ rfl).2 rfl).1⟩

/-- `abc` with the largest chunk size, in 32 bits. -/
def wideCall : SendCall := ⟨.bits32, 7, abc, { senderMaxChunkSize := 0xFFFFFFFF }⟩

/-- The peer accepts the size, acknowledges the first byte of the one chunk, and is silent. -/
def wideRewind : List SendResp :=
  [.sent .ok, .ack (.received (.ok (fileAckAccept 7 0xFFFFFFFF).root)), .sent .ok,
    .ack (.received (.ok (fileAckProgress 7 1).root)), .ack .timeout]

/-- The chunk would start at the second byte: `1 + 0xFFFFFFFF` does not fit. -/
theorem wideCall_overflows : OnPlatform wideCall ∧ wideCall.config.Valid ∧
    wideCall.config.senderMaxChunkSize < 2 ^ 32 ∧
    ∃ hist, (sendFileWithId shortSha256 wideCall).Run (.ok wideCall.start) hist
      (.error .overflow) := by
  have hexec : (sendFileWithId shortSha256 wideCall).exec (.ok wideCall.start) wideRewind =
      some (_, .error .overflow) := rfl
  have hp : OnPlatform wideCall := by
    change 3 < 2 ^ 31
    decide
  exact ⟨hp, ⟨by decide, by decide⟩, by decide, _, .of_exec .nil hexec⟩

end Thincan.FileTransfer.Words

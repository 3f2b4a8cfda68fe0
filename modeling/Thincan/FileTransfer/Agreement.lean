import Thincan.FileTransfer.Integrity

/-!
# Agreement on completion

When the sender of a non-empty file returns `Ok`, the peer has committed the
file.  The sender leaves its loop on any acknowledgement that names the total
length, so the argument is about the receivers: progress messages stay below the
total length, and `Complete` follows a successful `commit`.

For an empty file there is nothing to acknowledge.  The sender returns as soon as
the offer is accepted, before the peer has called `commit`, and the receivers
send no `Complete` on that path: `emptyFile_agreement_iff` shows that the
agreement fails for every empty file whose offer is sent at all.
-/

namespace Thincan.FileTransfer

open Process

variable {H E : Type} {sha256 : Bytes → Digest} {x : SendCall}

/-! ## Non-empty files -/

/-- What the decoder accepts is the root of a message. -/
theorem decodeFileAck_eq_ok {body : Read FileAckRoot} {ack : Ack}
    (h : decodeFileAck body = .ok ack) :
    ∃ root, body = .ok root ∧ root.transferId = ack.transferId := by
  cases body with
  | error e => cases h
  | ok root =>
      refine ⟨root, rfl, ?_⟩
      simp only [decodeFileAck] at h
      split at h
      · rw [← Except.ok.inj h]
      · cases h

/-- An acknowledgement of the whole file comes from a call that has committed
it. -/
theorem committed_of_ack {w : Network H E} (hinv : Network.Inv sha256 x w) (hx : x.Accepted)
    {c : RecvCall H E} (hc : c ∈ w.calls) {a : FileAckValue} (ha : a ∈ acks c.hist)
    (hid : a.transferId = x.transferId) (hk : a.kind = .ack ∨ a.kind = .complete)
    (hn : a.nextOffset.toNat = x.totalLen) :
    a.kind = .complete ∧ offered c.hist = some (x.offer sha256).root ∧
      (∃ h, .committed h (.ok ()) ∈ storeLog c.hist) ∧ written c.hist = x.bytes := by
  have hrun := hinv.called c hc
  have hhonest := hinv.honest c hc
  obtain ⟨k, t, root, hhist, hacc⟩ := (AckSound.of_run hrun).accounted_of_mem ha hk
  have hroot : offered c.hist = some root := hhist ▸ offered_append hacc.offered_eq
  obtain ⟨rfl, -⟩ := hhonest.offered_eq hroot (hacc.transferId_eq ▸ hid)
  have hcomplete : a.kind = .complete := by
    rcases hk with hk | hk
    · -- progress is only reported inside the file
      have hlt := UInt32.lt_iff_toNat_lt.mp (hacc.ack_lt hk)
      rw [hn] at hlt
      exact absurd hlt (by simp [SendCall.offer, hx.toNat_totalLenU32])
    · exact hk
  obtain ⟨-, h, hmem⟩ := hacc.complete hcomplete
  have hmem' : .committed h (.ok ()) ∈ storeLog c.hist := by
    rw [hhist, storeLog_append]
    exact List.mem_append_left _ hmem
  exact ⟨hcomplete, hroot, ⟨h, hmem'⟩, Intact.of_committed hrun hhonest hroot hmem'⟩

/-- **Agreement on completion.**  When the sender of a non-empty file has
returned `Ok`, some receive call of the peer has committed exactly the sender's
bytes for this transfer, and the last thing the sender took was the `Complete`
of that call. -/
theorem completion_agreement (sha256 : Bytes → Digest) (x : SendCall) (w : Network H E)
    (hw : (Network.machine sha256 x).Reachable (Network.init x) w) (hne : x.bytes ≠ [])
    (res : SendFileResult) (hok : w.sender = .done (.ok res)) :
    ∃ c ∈ w.calls, offered c.hist = some (x.offer sha256).root ∧
      (∃ h, .committed h (.ok ()) ∈ storeLog c.hist) ∧ written c.hist = x.bytes ∧
      ∃ k a, w.sendHist = k ++ [(.recvAck, .ack (.received (.ok a.root)))] ∧
        a ∈ acks c.hist ∧ a.transferId = x.transferId ∧ a.kind = .complete := by
  have hinv := Network.Inv.of_reachable hw
  have hsend := SendInv.of_run hinv.sent
  rw [hok] at hsend
  obtain ⟨hx, hzero | ⟨k, body, ack, hhist, hdec, hid, hkind, hn⟩⟩ := hsend
  · exact absurd (List.length_eq_zero_iff.mp hzero) hne
  -- the acknowledgement was handed over by one of the calls
  obtain ⟨root, rfl, hroot⟩ := decodeFileAck_eq_ok hdec
  have hmem : root ∈ w.ackPool := by
    refine hinv.acked root ?_ (hroot.trans hid)
    rw [hhist]
    exact List.mem_append_right _ (List.mem_singleton.mpr rfl)
  obtain ⟨c, hc, hmem⟩ := List.mem_flatMap.mp hmem
  obtain ⟨a, ha, rfl⟩ := List.mem_map.mp hmem
  obtain rfl : a.decoded = ack := Except.ok.inj hdec
  obtain ⟨hcomplete, hoffer, hcommit, hwritten⟩ := committed_of_ack hinv hx hc ha hid hkind hn
  exact ⟨c, hc, hoffer, hcommit, hwritten, k, a, hhist, ha, hid, hcomplete⟩

/-- A run of the transfer of `abc` up to the return of the sender: after the
chunks have arrived in disorder, `Complete` is delivered. -/
def abcCompleted : List (Network.Label Unit Unit) :=
  abcReordered ++ [.recv (.committed (.ok ())), .recv (.sent .ok),
    .send (.ack (.received (.ok (fileAckComplete 7 3).root)))]

theorem completion_agreement_abc : ∃ w : Network Unit Unit,
    (Network.machine shortSha256 abcCall).Reachable (Network.init abcCall) w ∧
      w.sender = .done (.ok ⟨7, 3, 2, 2, 0⟩) ∧ ∃ c ∈ w.calls, written c.hist = abc := by
  have hexec : (Network.machine shortSha256 abcCall).exec (Network.init abcCall) abcCompleted =
      some { sender := .done (.ok ⟨7, 3, 2, 2, 0⟩), sendHist := _, calls := [_] } := rfl
  obtain ⟨c, hc, -, -, hwritten, -⟩ :=
    completion_agreement shortSha256 abcCall _ ⟨_, hexec⟩ (by decide) _ rfl
  exact ⟨_, ⟨_, hexec⟩, rfl, c, hc, hwritten⟩

/-! ## Empty files -/

/-- Agreement on completion with the given receiver: when the sender has returned
`Ok`, some call of the peer has committed a file for this transfer. -/
def CommitAgreement (H E : Type) (sha256 : Bytes → Digest) (x : SendCall) (variant : Variant)
    (cfg : ReceiverConfig) : Prop :=
  ∀ w : Network H E, (Network.machine sha256 x).Reachable (Network.init x) w →
    (∀ c ∈ w.calls, c.variant = variant ∧ c.cfg = cfg) →
    ∀ res, w.sender = .done (.ok res) →
      ∃ c ∈ w.calls, ∃ root h, offered c.hist = some root ∧ root.transferId = x.transferId ∧
        .committed h (.ok ()) ∈ storeLog c.hist

/-- The sender of an empty file returns when its offer is accepted. -/
theorem SendCall.Accepted.onOfferAck_empty (hx : x.Accepted) (hnil : x.bytes = [])
    (cfg : ReceiverConfig) (n : Nat) :
    ∃ res, x.onOfferAck n (waitForTransferAck x.transferId (.received (.ok
      (fileAckAccept x.transferId (negotiate cfg.maxChunkSize x.maxChunkU32)).root))) =
        .done (.ok res) := by
  have hzero : x.totalLen = 0 := by rw [totalLen, hnil, List.length_nil]
  obtain ⟨hpos, hle⟩ := hx.negotiate_bounds cfg
  refine ⟨x.result { chunkSize := (negotiate cfg.maxChunkSize x.maxChunkU32).toNat }, ?_⟩
  rw [x.onOfferAck_accept n hpos hle, dataLoop, hzero, if_neg (Nat.not_lt_zero _)]

/-- The receiver of an empty file accepts the offer before it calls `commit`. -/
theorem SendCall.Accepted.onAccepted_empty (hx : x.Accepted) (hnil : x.bytes = [])
    (cfg : ReceiverConfig) (h : H) :
    (onAccepted sha256 (x.kept sha256 cfg) h : RecvPc H E) =
      .commitEmpty (x.kept sha256 cfg) h := by
  have hzero : (x.kept sha256 cfg).totalLen = 0 := by
    rw [UInt32.eq_zero_iff]
    show x.totalLenU32.toNat = 0
    rw [hx.toNat_totalLenU32, totalLen, hnil, List.length_nil]
  have hsha : sha256 [] = (x.kept sha256 cfg).expectedHash := by rw [kept, hnil]
  rw [onAccepted, if_pos hzero, if_neg (not_not.mpr hsha)]

/-- The receive call in the race on an empty file: it has accepted the offer and
is about to call `commit`. -/
def SendCall.acceptedEmpty (x : SendCall) (sha256 : Bytes → Digest) (variant : Variant)
    (cfg : ReceiverConfig) (h : H) : RecvCall H E where
  variant := variant
  cfg := cfg
  pc := .commitEmpty (x.kept sha256 cfg) h
  hist := [(.recvReq, .req (some (.ok (x.offer sha256).root))),
    (.beginWrite x.transferId x.totalLenU32, .began (.ok h)),
    (.send (fileAckAccept x.transferId (negotiate cfg.maxChunkSize x.maxChunkU32)), .sent .ok)]

variable (sha256)

/-- The peer of an empty file can reach that point while the sender waits for
the answer to its first offer. -/
theorem SendCall.Accepted.reachable_acceptedEmpty (hx : x.Accepted) (hnil : x.bytes = [])
    (variant : Variant) (cfg : ReceiverConfig) (h : H) :
    (Network.machine sha256 x).Reachable (Network.init x)
      ({ sender := .offerWait 0, sendHist := [(.sendOffer (x.offer sha256), .sent .ok)]
         calls := [x.acceptedEmpty sha256 variant cfg h] } : Network H E) := by
  have hinit : (Network.init x : Network H E) = { sender := .offerSend 0 } := by
    rw [Network.init, hx.start_eq]
  rw [hinit]
  have hcall : Network.Move sha256 x ({ sender := .offerSend 0 } : Network H E) _ :=
    .call variant cfg rfl
  have hoffer : Network.Move sha256 x
      ({ sender := .offerSend 0, calls := [{ variant, cfg }] } : Network H E) _ :=
    .send (.sendOffer (x.offer sha256), .sent .ok) (.offerWait 0) rfl rfl
  have htake : (receiver sha256 variant.intake cfg).fire (.recvReq : RecvPc H E)
      (.req (some (.ok (x.offer sha256).root))) =
      some ((.recvReq, .req (some (.ok (x.offer sha256).root))),
        .beginWrite (x.kept sha256 cfg)) :=
    Coroutine.fire_eq_some.mpr ⟨rfl, rfl, congrArg some (hx.onReq_offer variant sha256 cfg)⟩
  have htaken := (Network.Move.recv { variant, cfg } []
    (.recvReq, .req (some (.ok (x.offer sha256).root))) _ rfl
    (deliverable_of_mem (List.mem_singleton.mpr rfl)) htake).reachable
    (hoffer.reachable (hcall.reachable (.refl _)))
  have hbegun := (Network.Move.recv _ _ (.beginWrite x.transferId x.totalLenU32, .began (.ok h))
    (.sendAccept (x.kept sha256 cfg) h) rfl rfl rfl).reachable htaken
  have haccept : (receiver sha256 variant.intake cfg).fire
      (.sendAccept (x.kept sha256 cfg) h : RecvPc H E) (.sent .ok) =
      some ((.send (fileAckAccept x.transferId (negotiate cfg.maxChunkSize x.maxChunkU32)),
        .sent .ok), .commitEmpty (x.kept sha256 cfg) h) :=
    Coroutine.fire_eq_some.mpr ⟨rfl, rfl, congrArg some (hx.onAccepted_empty hnil cfg h)⟩
  exact (Network.Move.recv { variant, cfg, pc := .sendAccept (x.kept sha256 cfg) h, hist := _ } []
    (.send (fileAckAccept x.transferId (negotiate cfg.maxChunkSize x.maxChunkU32)), .sent .ok)
    _ rfl rfl haccept).reachable hbegun

/-- **The race on an empty file.**  Whatever the receiver, there is a run in which
the sender has returned `Ok` and `commit` has not been called. -/
theorem SendCall.Accepted.emptyFile_race (hx : x.Accepted) (hnil : x.bytes = [])
    (variant : Variant) (cfg : ReceiverConfig) (h : H) : ∃ (w : Network H E) (res : SendFileResult),
      (Network.machine sha256 x).Reachable (Network.init x) w ∧
      w.calls = [x.acceptedEmpty sha256 variant cfg h] ∧ w.sender = .done (.ok res) := by
  obtain ⟨res, hres⟩ := hx.onOfferAck_empty hnil cfg 0
  have hwait := hx.reachable_acceptedEmpty (E := E) sha256 hnil variant cfg h
  refine ⟨_, res, (Network.Move.send (.recvAck, .ack (.received (.ok
    (fileAckAccept x.transferId (negotiate cfg.maxChunkSize x.maxChunkU32)).root)))
    (.done (.ok res)) (deliverable_of_mem ?_) ?_).reachable hwait, rfl, rfl⟩
  · exact List.mem_singleton.mpr rfl
  · exact Coroutine.fire_eq_some.mpr ⟨rfl, rfl, congrArg some hres⟩

/-- **Agreement on completion fails for empty files**: it holds exactly when the
arguments are refused before an offer is sent, whatever the receiver. -/
theorem emptyFile_agreement_iff [Nonempty H] (x : SendCall)
    (hnil : x.bytes = []) (variant : Variant) (cfg : ReceiverConfig) :
    CommitAgreement H E sha256 x variant cfg ↔ ¬x.Accepted := by
  constructor
  · rintro hagree hx
    obtain ⟨h⟩ := ‹Nonempty H›
    obtain ⟨w, res, hw, hcalls, hok⟩ := hx.emptyFile_race (E := E) sha256 hnil variant cfg h
    have hkind : ∀ c ∈ w.calls, c.variant = variant ∧ c.cfg = cfg := by
      intro c hc
      rw [hcalls] at hc
      rw [List.mem_singleton.mp hc]
      exact ⟨rfl, rfl⟩
    obtain ⟨c, hc, root, h', -, -, hmem⟩ := hagree w hw hkind res hok
    rw [hcalls] at hc
    rw [List.mem_singleton.mp hc] at hmem
    have hlog : storeLog (x.acceptedEmpty (E := E) sha256 variant cfg h).hist =
        [.began x.transferId x.totalLenU32 (.ok h)] := rfl
    rw [hlog] at hmem
    cases List.mem_singleton.mp hmem
  · intro hx w hw _ res hok
    have hsend := SendInv.of_run (Network.Inv.of_reachable hw).sent
    rw [hok] at hsend
    exact absurd hsend.1 hx

/-- An empty file with the default configuration. -/
def emptyCall : SendCall := ⟨.bits64, 7, [], {}⟩

theorem emptyFile_agreement_iff_default :
    emptyCall.Accepted ∧ ¬CommitAgreement Unit Unit shortSha256 emptyCall .recvFile {} := by
  have hx : emptyCall.Accepted := ⟨⟨by decide, by decide⟩, by decide, by decide⟩
  refine ⟨hx, ?_⟩
  intro hagree
  exact (emptyFile_agreement_iff shortSha256 emptyCall rfl .recvFile {}).mp hagree hx

/-- The offer of the empty file is accepted, the sender returns, and the store of
the peer refuses the `commit`. -/
def emptyLost : List (Network.Label Unit Unit) :=
  [.call .recvFile {}, .send (.sent .ok),
    .recv (.req (some (.ok (emptyCall.offer shortSha256).root))), .recv (.began (.ok ())),
    .recv (.sent .ok), .send (.ack (.received (.ok (fileAckAccept 7 64).root))),
    .recv (.committed (.error ()))]

/-- The sender of an empty file reports success for a transfer that the peer
fails to commit. -/
theorem emptyFile_lost : ∃ w : Network Unit Unit,
    (Network.machine shortSha256 emptyCall).Reachable (Network.init emptyCall) w ∧
      w.sender = .done (.ok ⟨7, 0, 64, 0, 0⟩) ∧
      w.calls.map (·.pc) = [.done (.error (.store ()))] ∧
      ∀ c ∈ w.calls, ∀ h, .committed h (.ok ()) ∉ storeLog c.hist := by
  have hexec : (Network.machine shortSha256 emptyCall).exec (Network.init emptyCall) emptyLost =
      some { sender := .done (.ok ⟨7, 0, 64, 0, 0⟩), sendHist := _, calls := [_] } := rfl
  refine ⟨_, ⟨_, hexec⟩, rfl, rfl, ?_⟩
  intro c hc h hmem
  rw [List.mem_singleton.mp hc] at hmem
  revert h
  decide

end Thincan.FileTransfer

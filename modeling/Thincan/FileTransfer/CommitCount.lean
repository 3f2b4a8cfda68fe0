import Mathlib.Algebra.Order.BigOperators.Group.List
import Thincan.FileTransfer.Integrity
import Thincan.FileTransfer.Link

/-!
# How often a transfer is committed

A receiver remembers nothing of the transfers it has finished.  When the sender
has repeated its offer, and its chunks, after a timeout, the repeated messages
wait in the mailboxes of the peer, and a later receive call takes them for a new
transfer: `transfer_committed_twice`.

What bounds the number of commits is the number of offers.  A receive call takes
one offer and commits at most once, and a link delivers an offer at most once.
-/

namespace Thincan.FileTransfer

open Process

variable {H E : Type}

/-- The call is a `commit` that returned `Ok`. -/
def StoreOp.isCommitted : StoreOp H E → Bool
  | .committed _ (.ok _) => true
  | _ => false

/-- The number of successful commits in a history. -/
def commits (hist : List (RecvEvent H E)) : Nat := (storeLog hist).countP StoreOp.isCommitted

/-- The number of successful commits of the peer for the transfer `t`. -/
def Network.commitsFor (t : UInt32) (w : Network H E) : Nat :=
  (w.calls.map fun c ↦
    if (offered c.hist).any (·.transferId = t) then commits c.hist else 0).sum

/-! ## One call -/

variable {sha256 : Bytes → Digest} {x : SendCall} {cfg : ReceiverConfig} {rx : Intake}
  {hist : List (RecvEvent H E)}

/-- One if the call has taken an offer. -/
def offersTaken (hist : List (RecvEvent H E)) : Nat := (offered hist).toList.length

theorem offersTaken_of_some {root : FileReqRoot} (h : offered hist = some root) :
    offersTaken hist = 1 := by
  rw [offersTaken, h]
  rfl

theorem commits_snoc (hist : List (RecvEvent H E)) (e : RecvEvent H E) :
    commits (hist ++ [e]) = commits hist + (storeOp e).toList.countP StoreOp.isCommitted := by
  rw [commits, storeLog_snoc, List.countP_append, commits]

theorem commits_snoc_of_not {e : RecvEvent H E}
    (he : (storeOp e).toList.countP StoreOp.isCommitted = 0) :
    commits (hist ++ [e]) = commits hist := by rw [commits_snoc, he, Nat.add_zero]

/-- Before `commit` nothing is committed; after it at most one file, if an offer
was taken. -/
def CommitInv (hist : List (RecvEvent H E)) : RecvPc H E → Prop
  | .sendComplete _ => commits hist ≤ 1
  | .done _ => commits hist ≤ 1 ∧ (0 < commits hist → ∃ root, offered hist = some root)
  | _ => commits hist = 0

/-- Leaving the loop condition aside, the chunk loop commits nothing. -/
theorem CommitInv.chunkLoop {o : Offer} {h : H} {v : RecvVars} (hzero : commits hist = 0) :
    CommitInv hist (FileTransfer.chunkLoop o h v : RecvPc H E) := by
  unfold FileTransfer.chunkLoop
  split
  · exact hzero
  · rw [CommitInv, hzero]
    exact ⟨Nat.zero_le _, fun h ↦ absurd h (Nat.lt_irrefl 0)⟩

theorem CommitInv.done {r : Except (Error E) RecvFileResult} (hzero : commits hist = 0) :
    CommitInv hist (.done r : RecvPc H E) := by
  rw [CommitInv, hzero]
  exact ⟨Nat.zero_le _, fun h ↦ absurd h (Nat.lt_irrefl 0)⟩

/-- **Every step keeps the count of commits.** -/
theorem CommitInv.step {s s' : RecvPc H E} {e : RecvEvent H E}
    (hstore : StoreInv False sha256 cfg hist s) (hi : CommitInv hist s)
    (ht : Transition sha256 rx cfg s e s') : CommitInv (hist ++ [e]) s' := by
  have hframe : (storeOp e).toList.countP StoreOp.isCommitted = 0 →
      commits (hist ++ [e]) = commits hist := commits_snoc_of_not
  cases ht with
  | req body =>
      have hzero := (hframe rfl).trans hi
      have hcase : OfferCase (H := H) (E := E) cfg rx body (rx.onReq cfg body) :=
        Intake.onReq_case cfg body
      generalize rx.onReq cfg body = s at hcase ⊢
      cases hcase with
      | failed => exact .done hzero
      | rejected | taken => exact hzero
  | accepted o h r =>
      have hzero := (hframe rfl).trans hi
      split
      · exact hzero
      unfold onAccepted
      split
      · split <;> exact hzero
      · exact .chunkLoop hzero
  | chunk o h v a =>
      have hzero := (hframe rfl).trans hi
      have hcase : ChunkCase (E := E) rx o h v a (rx.onChunk o h v a) := rx.onChunk_case o h v a
      generalize rx.onChunk o h v a = s at hcase ⊢
      cases hcase with
      | empty => exact .chunkLoop hzero
      | silent | foreign | tooLarge | gap | write => exact hzero
  | gapSent o h v r | progressSent o h v r =>
      have hzero := (hframe rfl).trans hi
      unfold onProgressSent
      split
      · exact hzero
      · exact .chunkLoop hzero
  | written o h v bs =>
      have hzero := (hframe rfl).trans hi
      simp only [onWritten]
      split
      · split <;> exact hzero
      split
      · exact hzero
      · exact .chunkLoop hzero
  | begun | notWritten => exact (hframe rfl).trans hi
  | aborted h last err =>
      have hzero := (hframe rfl).trans hi
      cases last with
      | none => exact .done hzero
      | some ack => exact hzero
  | rejected | notBegun | notCommittedEmpty | notCommitted | abortSent =>
      exact .done ((hframe rfl).trans hi)
  | committedEmpty o h =>
      have hone : commits (hist ++ [((.commit h, .committed (.ok ())) : RecvEvent H E)]) = 1 := by
        rw [commits_snoc, show commits hist = 0 from hi]
        rfl
      obtain ⟨root, hroot, -⟩ := hstore.1.offer
      exact ⟨Nat.le_of_eq hone, fun _ ↦ ⟨root, offered_append hroot⟩⟩
  | committed o h =>
      show commits _ ≤ 1
      rw [commits_snoc, show commits hist = 0 from hi]
      exact Nat.le_refl 1
  | completed o r =>
      have heq := hframe rfl
      obtain ⟨-, h, hf⟩ := hstore
      obtain ⟨root, hroot, -⟩ := hf.offer
      exact ⟨heq ▸ hi, fun _ ↦ ⟨root, offered_append hroot⟩⟩

/-- One call commits at most once, and not without an offer. -/
theorem commits_le {s : RecvPc H E} (hr : (receiver sha256 rx cfg).Run .recvReq hist s) :
    commits hist ≤ offersTaken hist := by
  have hi : CommitInv hist s := by
    induction hr with
    | nil => exact (rfl : commits ([] : List (RecvEvent H E)) = 0)
    | snoc hr hf ih => exact ih.step (StoreInv.of_run hr nofun) (receiver_fire hf)
  have hstore : StoreInv False sha256 cfg hist s := StoreInv.of_run hr nofun
  cases s with
  | sendComplete o =>
      obtain ⟨-, h, hf⟩ := hstore
      obtain ⟨root, hroot, -⟩ := hf.offer
      rw [offersTaken_of_some hroot]
      exact hi
  | done r =>
      obtain ⟨hle, hoffered⟩ := hi
      rcases Nat.eq_zero_or_pos (commits hist) with hzero | hpos
      · rw [hzero]
        exact Nat.zero_le _
      · obtain ⟨root, hroot⟩ := hoffered hpos
        rw [offersTaken_of_some hroot]
        exact hle
  | _ =>
      rw [show commits hist = 0 from hi]
      exact Nat.zero_le _

/-! ## The whole link -/

/-- One if the event takes an offer. -/
def takesOffer : RecvEvent H E → Nat
  | (.recvReq, .req (some _)) => 1
  | _ => 0

theorem offersTaken_snoc_le (hist : List (RecvEvent H E)) (e : RecvEvent H E) :
    offersTaken (hist ++ [e]) ≤ offersTaken hist + takesOffer e := by
  cases ho : offered (hist ++ [e]) with
  | none =>
      rw [offersTaken, ho]
      exact Nat.zero_le _
  | some root =>
      rw [offersTaken_of_some ho]
      obtain ⟨t, ht⟩ := offered_eq_some ho
      cases hist with
      | nil =>
          obtain ⟨rfl, -⟩ := List.cons.inj ht
          exact Nat.le_add_left 1 _
      | cons f k =>
          obtain ⟨rfl, -⟩ := List.cons.inj ht
          exact Nat.le_add_right 1 _

/-- An offer that is taken leaves the queue. -/
theorem Link.length_takeOffer {w : Link H E} {rx : Intake} {s s' : RecvPc H E}
    {e : RecvEvent H E} {os : List FileOfferValue} (hos : w.takeOffer e.2 = some os)
    (ht : Transition sha256 rx cfg s e s') : os.length + takesOffer e ≤ w.offers.length := by
  cases ht with
  | req body =>
      cases body with
      | none => exact Nat.le_of_eq (congrArg List.length (Option.some.inj hos).symm)
      | some body =>
          obtain ⟨o, hq, -⟩ := Link.takeOffer_req hos
          rw [hq]
          exact Nat.le_refl _
  | _ => exact Nat.le_of_eq (congrArg List.length (Option.some.inj hos).symm)

/-- The offers taken by all calls. -/
def Network.offersTaken (w : Network H E) : Nat :=
  (w.calls.map fun c ↦ FileTransfer.offersTaken c.hist).sum

/-- Every offer is taken at most once. -/
theorem Link.offersTaken_le {ρ : Regime} {w : Link H E}
    (hw : (Link.machine ρ sha256 x).Reachable (Link.init x) w) :
    w.offers.length + w.net.offersTaken ≤ (FileTransfer.offers w.net.sendHist).length := by
  refine hw.invariant (I := fun w ↦
    w.offers.length + w.net.offersTaken ≤ (FileTransfer.offers w.net.sendHist).length) (Nat.le_refl _) ?_
  intro a l b hi hs
  cases Link.step_move hs with
  | send e s as hρ htake hf =>
      have hlen : (FileTransfer.offers (a.net.sendHist ++ [e])).length =
          (FileTransfer.offers a.net.sendHist).length + (handedOffer e).toList.length := by
        cases he : handedOffer e <;> simp [FileTransfer.offers, he]
      show (a.offers ++ (handedOffer e).toList).length + a.net.offersTaken ≤
        (FileTransfer.offers (a.net.sendHist ++ [e])).length
      rw [hlen, List.length_append]
      omega
  | recv c cs e s os ks hcalls hρ hos hks hf =>
      have hpop := Link.length_takeOffer hos (receiver_fire hf)
      have htaken := offersTaken_snoc_le c.hist e
      simp only [Network.offersTaken, hcalls, List.map_cons, List.sum_cons] at hi
      simp only [Link.received, Network.offersTaken, List.map_cons, List.sum_cons]
      omega
  | call variant cfg hρ hdone =>
      simp only [Network.offersTaken, List.map_cons, List.sum_cons] at hi ⊢
      have hnil : FileTransfer.offersTaken ([] : List (RecvEvent H E)) = 0 := rfl
      omega
  | loseOffer i hρ hlt =>
      have hle : (a.offers.eraseIdx i).length ≤ a.offers.length := List.length_eraseIdx_le _ _
      simp only
      omega
  | loseChunk | loseAck => exact hi

theorem Network.commitsFor_le {w : Network H E} (t : UInt32)
    (hcalls : ∀ c ∈ w.calls, commits c.hist ≤ FileTransfer.offersTaken c.hist) :
    w.commitsFor t ≤ w.offersTaken := by
  unfold Network.commitsFor Network.offersTaken
  apply List.sum_le_sum
  intro c hc
  split
  · exact hcalls c hc
  · exact Nat.zero_le _

/-- **A transfer is committed at most once per offer.**  However often the sender
repeats its chunks, and however often the peer calls its receive functions, the
peer commits the transfer at most as often as the sender has handed its offer to
the transport. -/
theorem commits_le_offers (ρ : Regime) (sha256 : Bytes → Digest) (x : SendCall) (w : Link H E)
    (hw : (Link.machine ρ sha256 x).Reachable (Link.init x) w) :
    w.net.commitsFor x.transferId ≤ (offers w.net.sendHist).length := by
  have hnet := Network.Inv.of_reachable (Link.reachable_net .init hw).1
  calc w.net.commitsFor x.transferId
      ≤ w.net.offersTaken := Network.commitsFor_le _ fun c hc ↦ commits_le (hnet.called c hc)
    _ ≤ (offers w.net.sendHist).length := by
      have := Link.offersTaken_le hw
      omega

/-- A link that loses nothing and never fails, over which waits may time out. -/
def Regime.slow : Regime where
  loss := false
  timeouts := true
  faults := false
  recalls := true

/-- The sender of `abc` repeats its offer once, and both of its chunks once, and
the peer makes two receive calls. -/
def abcTwice : List (Link.Label Unit Unit) :=
  let offer := Link.Label.recv (.req (some (.ok (abcCall.offer shortSha256).root)))
  let chunk₀ := Link.Label.recv (.chunk (.received (.ok ⟨7, 0, .ok [0x61, 0x62]⟩)))
  let chunk₁ := Link.Label.recv (.chunk (.received (.ok ⟨7, 2, .ok [0x63]⟩)))
  let receive := [.call .recvFile {}, offer, .recv (.began (.ok ())), .recv (.sent .ok)]
  let store := [chunk₀, .recv (.wrote (.ok ())), .recv (.sent .ok), chunk₁,
    .recv (.wrote (.ok ())), .recv (.committed (.ok ())), .recv (.sent .ok)]
  [.send (.sent .ok), .send (.ack .timeout), .send (.sent .ok)] ++ receive ++
    [.send (.ack (.received (.ok (fileAckAccept 7 2).root))), .send (.sent .ok), .send (.sent .ok),
      .send (.ack .timeout), .send (.sent .ok), .send (.sent .ok)] ++ store ++ receive ++ store

/-- The peer takes the repeated messages for a second transfer and commits it. -/
theorem transfer_committed_twice : ∃ w : Link Unit Unit,
    (Link.machine .slow shortSha256 abcCall).Reachable (Link.init abcCall) w ∧
      w.net.commitsFor abcCall.transferId = 2 := by
  have hexec : (Link.machine .slow shortSha256 abcCall).exec (Link.init abcCall) abcTwice =
      some { net := { sender := _, sendHist := _, calls := [_, _] }, acks := _ } := rfl
  exact ⟨_, ⟨_, hexec⟩, by decide⟩

theorem commits_le_offers_twice : ∃ w : Link Unit Unit,
    (Link.machine .slow shortSha256 abcCall).Reachable (Link.init abcCall) w ∧
      (offers w.net.sendHist).length = 2 ∧ w.net.commitsFor abcCall.transferId ≤ 2 := by
  have hexec : (Link.machine .slow shortSha256 abcCall).exec (Link.init abcCall) abcTwice =
      some { net := { sender := _, sendHist := _, calls := [_, _] }, acks := _ } := rfl
  exact ⟨_, ⟨_, hexec⟩, rfl, commits_le_offers .slow shortSha256 abcCall _ ⟨_, hexec⟩⟩

end Thincan.FileTransfer

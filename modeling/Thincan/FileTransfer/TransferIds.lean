import Thincan.FileTransfer.Sender
import Thincan.Process.Machine

/-!
# Which transfer ids are fresh

The id of a transfer is all that tells its chunks and acknowledgements from those of another
one.  `send_file` takes the id from a counter; `send_file_with_id` takes it from the caller and
moves the counter behind it.  Both wrap, and there the counter falls back to 0, to ids that may
have been used.

A `BundleInstance` makes one call after the other.  A call puts messages on the bus, until it
returns, fails, or is dropped by the caller.  `picks_fresh_iff` says that the wrap is the only
flaw: an id that `send_file` picks was never used before, unless it was used before the counter
was last 0, and the counter gets there only by a call with the last id there is.
-/

namespace Thincan.FileTransfer

open Process

variable (sha256 : Bytes → Digest)

/-! ## The instance -/

/-- The arguments of a call that both functions have, and what happens to the call: the answers
of the bus, after which it has returned or is dropped, and whether the transport then has the
message that was being sent. -/
structure SendArgs where
  usize : UsizeWidth
  bytes : Bytes
  config : SendConfig
  answers : List SendResp
  handed : Bool

/-- A call on an instance. -/
inductive InstanceCall where
  | sendFile (args : SendArgs)
  | sendFileWithId (transferId : UInt32) (args : SendArgs)

/-- `FileTransferBundleInstance`, with the ids that are on its messages on the bus. -/
structure BundleInstance where
  sendState : SendState := {}
  used : List UInt32 := []
  /-- `used`, when the counter was last 0. -/
  usedAtZero : List UInt32 := []
  /-- The ids that `send_file` picked, each with `used` at the time. -/
  picks : List (UInt32 × List UInt32) := []
deriving DecidableEq, Repr

namespace InstanceCall

def args : InstanceCall → SendArgs
  | .sendFile args | .sendFileWithId _ args => args

/-- The transfer, and the counter when it begins. -/
def start (c : InstanceCall) (s : SendState) : SendCall × SendState :=
  match c with
  | .sendFile a => FileTransfer.sendFile s a.usize a.bytes a.config
  | .sendFileWithId transferId a =>
      let x : SendCall := ⟨a.usize, transferId, a.bytes, a.config⟩
      (x, x.observe s)

/-- The id that the call picks. -/
def pick (c : InstanceCall) (s : SendState) : Option UInt32 :=
  match c with
  | .sendFile _ => some s.allocTransferId.1
  | .sendFileWithId .. => none

end InstanceCall

/-- The id on a message. -/
def SendReq.messageId : SendReq → Option UInt32
  | .sendOffer offer => some offer.transferId
  | .sendChunk chunk => some chunk.transferId
  | .recvAck => none

/-- The id on a message that the transport has got. -/
def handedId : SendReq × SendResp → Option UInt32
  | (q, .sent outcome) => if outcome.handed then q.messageId else none
  | (_, .ack _) => none

/-- The ids on the messages of a call. -/
def SendCall.ids (x : SendCall) (hist : List (SendReq × SendResp)) (pc : SendPc) (handed : Bool) :
    List UInt32 :=
  hist.filterMap handedId ++
    if handed then (((sendFileWithId sha256 x).request pc).bind SendReq.messageId).toList else []

namespace BundleInstance

variable (b : BundleInstance)

/-- The instance after a call, with the ids on its messages. -/
def finish (c : InstanceCall) (ids : List UInt32) : BundleInstance where
  sendState := (c.start b.sendState).2
  used := b.used ++ ids
  usedAtZero := if (c.start b.sendState).2.nextTransferId = 0 then b.used ++ ids else b.usedAtZero
  picks := b.picks ++ ((c.pick b.sendState).map fun id ↦ (id, b.used)).toList

/-- A call, until it has returned or is dropped. -/
def step (c : InstanceCall) : Option BundleInstance :=
  let x := (c.start b.sendState).1
  ((sendFileWithId sha256 x).exec x.start c.args.answers).map fun r ↦
    b.finish c (x.ids sha256 r.1 r.2 c.args.handed)

/-- What `send_file` picked was not used before. -/
def Fresh : Prop := ∀ p ∈ b.picks, p.1 ∉ p.2

instance : Decidable b.Fresh := inferInstanceAs (Decidable (∀ p ∈ b.picks, p.1 ∉ p.2))

/-- What `send_file` is about to pick was not used before the counter was last 0. -/
def Clear : InstanceCall → Prop
  | .sendFile _ => b.sendState.nextTransferId ∉ b.usedAtZero
  | .sendFileWithId .. => True

instance : (c : InstanceCall) → Decidable (b.Clear c)
  | .sendFile _ => inferInstanceAs (Decidable (b.sendState.nextTransferId ∉ b.usedAtZero))
  | .sendFileWithId .. => inferInstanceAs (Decidable True)

/-- The call does not have the last id there is, behind which the counter wraps. -/
def Inside (c : InstanceCall) : Prop := (c.start b.sendState).1.transferId ≠ UInt32.maxValue

instance (c : InstanceCall) : Decidable (b.Inside c) :=
  inferInstanceAs (Decidable ((c.start b.sendState).1.transferId ≠ UInt32.maxValue))

end BundleInstance

/-- An instance as a machine. -/
def instanceMachine : Machine BundleInstance InstanceCall where
  step b c := b.step sha256 c

/-! ## The messages of a call -/

variable {sha256} {x : SendCall}

/-- What a call asks of the bus has its id, and is asked only if the configuration is valid. -/
theorem messageId_request {pc : SendPc} {q : SendReq}
    (h : (sendFileWithId sha256 x).request pc = some q) {id : UInt32} (hid : q.messageId = some id) :
    id = x.transferId := by
  cases pc with
  | offerSend | chunkSend =>
      obtain rfl := Option.some.inj h
      exact (Option.some.inj hid).symm
  | offerWait | ackWait =>
      obtain rfl := Option.some.inj h
      cases hid
  | done => cases h

theorem exec_done {result : Except ErrorKind SendFileResult} {rs : List SendResp}
    {hist : List (SendReq × SendResp)} {pc : SendPc}
    (h : (sendFileWithId sha256 x).exec (.done result) rs = some (hist, pc)) :
    hist = [] ∧ pc = .done result := by
  cases rs with
  | nil =>
      cases h
      exact ⟨rfl, rfl⟩
  | cons => cases h

theorem eq_of_mem_handedIds {s pc : SendPc} {rs : List SendResp} {hist : List (SendReq × SendResp)}
    (h : (sendFileWithId sha256 x).exec s rs = some (hist, pc)) {id : UInt32}
    (hid : id ∈ hist.filterMap handedId) : id = x.transferId := by
  obtain ⟨⟨q, r⟩, hmem, hhanded⟩ := List.mem_filterMap.mp hid
  obtain ⟨before, behind, hsplit⟩ := List.append_of_mem hmem
  obtain ⟨s', hrequest⟩ : ∃ s', (sendFileWithId sha256 x).request s' = some q :=
    (Coroutine.Run.of_exec .nil h).at_event
      (P := fun _ e ↦ ∃ s', (sendFileWithId sha256 x).request s' = some e.1)
      (fun _ s' _ _ _ hfire ↦ ⟨s', (Coroutine.fire_eq_some.mp hfire).1⟩) hsplit
  cases r with
  | sent outcome => exact messageId_request hrequest (Option.ite_none_right_eq_some.mp hhanded).2
  | ack => cases hhanded

/-- **The messages of a call have its id**, and there are none if the configuration is not valid. -/
theorem mem_ids {rs : List SendResp} {hist : List (SendReq × SendResp)} {pc : SendPc} {handed : Bool}
    (h : (sendFileWithId sha256 x).exec x.start rs = some (hist, pc)) {id : UInt32}
    (hid : id ∈ x.ids sha256 hist pc handed) :
    id = x.transferId ∧ ∃ config, x.config.validate = .ok config := by
  cases hconfig : x.config.validate with
  | error e =>
      have hstart : x.start = .done (.error e) := by rw [SendCall.start, hconfig]
      rw [hstart] at h
      obtain ⟨rfl, rfl⟩ := exec_done h
      cases handed <;> cases hid
  | ok config =>
      refine ⟨?_, config, rfl⟩
      rcases List.mem_append.mp hid with hid | hid
      · exact eq_of_mem_handedIds h hid
      · cases handed with
        | false => cases hid
        | true =>
            obtain ⟨q, hq, hmessage⟩ := Option.bind_eq_some_iff.mp (Option.mem_toList.mp hid)
            exact messageId_request hq hmessage

/-! ## The counter -/

theorem eq_zero_or_lt_add_one (n : UInt32) : n + 1 = 0 ∨ n < n + 1 := by
  have hadd : (n + 1).toNat = (n.toNat + 1) % 2 ^ 32 := UInt32.toNat_add n 1
  rw [← UInt32.toNat_inj, UInt32.lt_iff_toNat_lt, hadd]
  change _ = 0 ∨ _
  have := n.toNat_lt
  omega

theorem add_one_ne_zero {n : UInt32} (h : n ≠ UInt32.maxValue) : n + 1 ≠ 0 := by
  intro hzero
  have hadd : (n + 1).toNat = (n.toNat + 1) % 2 ^ 32 := UInt32.toNat_add n 1
  rw [hzero] at hadd
  change 0 = _ at hadd
  refine h (UInt32.toNat_inj.mp ?_)
  change _ = 2 ^ 32 - 1
  have := n.toNat_lt
  omega

namespace InstanceCall

/-- `send_file` observes the id it has just taken, which changes nothing. -/
theorem next_sendFile (args : SendArgs) (s : SendState) :
    ((sendFile args).start s).2.nextTransferId = s.nextTransferId + 1 := by
  change (SendCall.observe ⟨_, s.nextTransferId, _, _⟩ ⟨s.nextTransferId + 1⟩).nextTransferId = _
  rw [SendCall.observe]
  split
  · rfl
  · rw [SendState.observeTransferId]
    split
    · rfl
    · rfl

/-- **A call takes the counter up and past its id, or to 0.** -/
theorem next_start (c : InstanceCall) (s : SendState) :
    (c.start s).2.nextTransferId = 0 ∨
      s.nextTransferId ≤ (c.start s).2.nextTransferId ∧
        ((∃ config, (c.start s).1.config.validate = .ok config) →
          (c.start s).1.transferId < (c.start s).2.nextTransferId) := by
  cases c with
  | sendFile args =>
      rw [next_sendFile]
      refine (eq_zero_or_lt_add_one s.nextTransferId).imp_right fun hlt ↦ ?_
      exact ⟨UInt32.le_of_lt hlt, fun _ ↦ hlt⟩
  | sendFileWithId transferId args =>
      rw [start]
      dsimp only [SendCall.observe]
      cases hconfig : args.config.validate with
      | error e =>
          refine .inr ⟨UInt32.le_refl _, ?_⟩
          rintro ⟨config, ⟨⟩⟩
      | ok config =>
          dsimp only [SendState.observeTransferId]
          split
          · next hge =>
              refine (eq_zero_or_lt_add_one transferId).imp_right fun hlt ↦ ?_
              exact ⟨UInt32.le_trans hge (UInt32.le_of_lt hlt), fun _ ↦ hlt⟩
          · next hlt => exact .inr ⟨UInt32.le_refl _, fun _ ↦ UInt32.not_le.mp hlt⟩

/-- Only the last id takes the counter to 0. -/
theorem next_ne_zero {c : InstanceCall} {s : SendState} (hs : s.nextTransferId ≠ 0)
    (hid : (c.start s).1.transferId ≠ UInt32.maxValue) : (c.start s).2.nextTransferId ≠ 0 := by
  cases c with
  | sendFile args =>
      rw [next_sendFile]
      exact add_one_ne_zero hid
  | sendFileWithId transferId args =>
      rw [start]
      dsimp only [SendCall.observe]
      split
      · exact hs
      · dsimp only [SendState.observeTransferId]
        split
        · exact add_one_ne_zero hid
        · exact hs

end InstanceCall

namespace BundleInstance

variable {b b' : BundleInstance} {c : InstanceCall}

/-- The invariant: an id that was used is below the counter, or was used when it was last 0. -/
structure Counted (b : BundleInstance) : Prop where
  below : ∀ id ∈ b.used, id < b.sendState.nextTransferId ∨ id ∈ b.usedAtZero
  usedAtZero_subset : ∀ id ∈ b.usedAtZero, id ∈ b.used

theorem Counted.step (h : b.Counted) (hs : b.step sha256 c = some b') : b'.Counted := by
  obtain ⟨⟨hist, pc⟩, hexec, rfl⟩ := Option.map_eq_some_iff.mp hs
  constructor
  case below =>
    intro id hid
    rw [finish]
    rcases c.next_start b.sendState with hzero | ⟨hle, hlt⟩
    · rw [if_pos hzero]
      exact .inr hid
    · split
      · exact .inr hid
      · rcases List.mem_append.mp hid with hid | hid
        · exact (h.below id hid).imp_left fun hbelow ↦ UInt32.lt_of_lt_of_le hbelow hle
        · obtain ⟨rfl, hvalid⟩ := mem_ids hexec hid
          exact .inl (hlt hvalid)
  case usedAtZero_subset =>
    intro id hid
    rw [finish] at hid ⊢
    split at hid
    · exact hid
    · exact List.mem_append_left _ (h.usedAtZero_subset id hid)

/-- What a call adds to the picks. -/
theorem Counted.fresh_iff (h : b.Counted) (hfresh : b.Fresh) (hs : b.step sha256 c = some b') :
    b'.Fresh ↔ b.Clear c := by
  obtain ⟨r, -, rfl⟩ := Option.map_eq_some_iff.mp hs
  cases c with
  | sendFileWithId transferId args =>
      refine iff_of_true ?_ trivial
      rw [Fresh, finish]
      exact (List.append_nil b.picks).symm ▸ hfresh
  | sendFile args =>
      have hpicks (ids : List UInt32) :
          (b.finish (.sendFile args) ids).Fresh ↔ b.Fresh ∧ b.sendState.nextTransferId ∉ b.used :=
        List.forall_mem_append.trans (and_congr_right fun _ ↦ List.forall_mem_singleton)
      rw [hpicks, and_iff_right hfresh, Clear]
      constructor
      · exact fun hused hold ↦ hused (h.usedAtZero_subset _ hold)
      · intro hold hused
        rcases h.below _ hused with hlt | hmem
        · exact UInt32.lt_irrefl _ hlt
        · exact hold hmem

/-- The counter has not wrapped. -/
structure Unwrapped (b : BundleInstance) : Prop where
  next_ne : b.sendState.nextTransferId ≠ 0
  usedAtZero : b.usedAtZero = []

theorem Unwrapped.step (h : b.Unwrapped) (hin : b.Inside c) (hs : b.step sha256 c = some b') :
    b'.Unwrapped := by
  obtain ⟨r, -, rfl⟩ := Option.map_eq_some_iff.mp hs
  have hne := InstanceCall.next_ne_zero h.next_ne hin
  refine ⟨hne, ?_⟩
  rw [finish, if_neg hne]
  exact h.usedAtZero

theorem Unwrapped.clear (h : b.Unwrapped) (c : InstanceCall) : b.Clear c := by
  cases c with
  | sendFile args =>
      rw [Clear, h.usedAtZero]
      exact List.not_mem_nil
  | sendFileWithId => trivial

/-- After `n` calls of `send_file` alone. -/
structure Climbed (n : Nat) (b : BundleInstance) : Prop where
  counted : b.Counted
  fresh : b.Fresh
  next : b.sendState.nextTransferId = UInt32.ofNat (n + 1)
  usedAtZero : n + 1 < 2 ^ 32 → b.usedAtZero = []

theorem Climbed.step {n : Nat} (h : b.Climbed n) (hn : n + 1 < 2 ^ 32) {args : SendArgs}
    (hs : b.step sha256 (.sendFile args) = some b') : b'.Climbed (n + 1) := by
  have hclear : b.Clear (.sendFile args) := by
    rw [Clear, h.usedAtZero hn]
    exact List.not_mem_nil
  have hcounted := h.counted.step hs
  have hfresh := (h.counted.fresh_iff h.fresh hs).mpr hclear
  obtain ⟨r, -, rfl⟩ := Option.map_eq_some_iff.mp hs
  have hnext : ((InstanceCall.sendFile args).start b.sendState).2.nextTransferId =
      UInt32.ofNat (n + 1 + 1) := by
    rw [InstanceCall.next_sendFile, h.next, UInt32.ofNat_add (n + 1) 1]
    rfl
  refine ⟨hcounted, hfresh, hnext, fun hlt ↦ ?_⟩
  have hne : UInt32.ofNat (n + 1 + 1) ≠ 0 := by
    intro hzero
    have hmod := congrArg UInt32.toNat hzero
    rw [UInt32.toNat_ofNat', Nat.mod_eq_of_lt hlt] at hmod
    cases hmod
  rw [finish, hnext, if_neg hne]
  exact h.usedAtZero hn

/-- Fewer than `2^32` calls, none with an id of the caller: all ids are fresh. -/
theorem fresh_of_sendFile {calls : List InstanceCall} (hcalls : ∀ c ∈ calls, ∃ args, c = .sendFile args)
    (hlen : calls.length < 2 ^ 32) (h : (instanceMachine sha256).exec {} calls = some b) : b.Fresh := by
  have hclimbed : b.Climbed calls.length := by
    induction calls using List.reverseRecOn generalizing b with
    | nil =>
        obtain rfl := Option.some.inj h
        exact ⟨⟨nofun, nofun⟩, nofun, rfl, fun _ ↦ rfl⟩
    | append_singleton calls c ih =>
        obtain ⟨a, ha, hs⟩ := Machine.exec_snoc.mp h
        obtain ⟨args, rfl⟩ := hcalls c (List.mem_append_right _ List.mem_cons_self)
        rw [List.length_append, List.length_singleton] at hlen ⊢
        refine (ih ?_ (Nat.lt_of_succ_lt hlen) ha).step hlen hs
        exact fun c' hc' ↦ hcalls c' (List.mem_append_left _ hc')
  exact hclimbed.fresh

end BundleInstance

/-- **When the ids that `send_file` picks are fresh.**  In every run of calls, with any ids and
configurations, each returning, failing or dropped at any point, all of them are fresh if and
only if none was used before the counter was last 0; and without a call that has the last id,
all of them are. -/
theorem picks_fresh_iff (sha256 : Bytes → Digest) {calls : List InstanceCall} {b : BundleInstance}
    (h : (instanceMachine sha256).exec {} calls = some b) :
    ((instanceMachine sha256).Along BundleInstance.Fresh {} calls ↔
      (instanceMachine sha256).Meets BundleInstance.Clear {} calls) ∧
      ((instanceMachine sha256).Meets BundleInstance.Inside {} calls →
        (instanceMachine sha256).Along BundleInstance.Fresh {} calls) := by
  have hiff : (instanceMachine sha256).Along BundleInstance.Fresh {} calls ↔
      (instanceMachine sha256).Meets BundleInstance.Clear {} calls := by
    refine Machine.along_iff_meets (I := fun b ↦ b.Counted ∧ b.Fresh) ?_ (fun _ hb ↦ hb.2) ?_
      ⟨⟨nofun, nofun⟩, nofun⟩ h
    · rintro a c b ⟨hcounted, hfresh⟩ hclear hs
      exact ⟨hcounted.step hs, (hcounted.fresh_iff hfresh hs).mpr hclear⟩
    · rintro a c b ⟨hcounted, hfresh⟩ hclear hs hb
      exact hclear ((hcounted.fresh_iff hfresh hs).mp hb)
  refine ⟨hiff, fun hinside ↦ hiff.mpr ?_⟩
  refine Machine.Meets.imp (I := BundleInstance.Unwrapped) ?_ ?_ hinside ⟨by decide, rfl⟩
  · exact fun _ _ _ hunwrapped hin hs ↦ hunwrapped.step hin hs
  · exact fun _ c hunwrapped _ ↦ hunwrapped.clear c

/-- A call that fails when the transport has its offer. -/
def failingArgs : SendArgs := ⟨.bits64, abc, {}, [.sent (.failed .other true)], false⟩

/-- The last id there is leaves the counter at 0, which was not used yet; another id leaves it
behind that. -/
theorem picks_fresh_lastId :
    (instanceMachine shortSha256).Along BundleInstance.Fresh {}
      [.sendFile failingArgs, .sendFileWithId 0xFFFFFFFF failingArgs, .sendFile failingArgs] ∧
      (instanceMachine shortSha256).Along BundleInstance.Fresh {}
        [.sendFile failingArgs, .sendFileWithId 7 failingArgs, .sendFile failingArgs] := by
  have hlast : ((instanceMachine shortSha256).exec {}
      [.sendFile failingArgs, .sendFileWithId 0xFFFFFFFF failingArgs,
        .sendFile failingArgs]).isSome = true := by
    decide +kernel
  have hseven : ((instanceMachine shortSha256).exec {}
      [.sendFile failingArgs, .sendFileWithId 7 failingArgs, .sendFile failingArgs]).isSome = true := by
    decide +kernel
  obtain ⟨b, hb⟩ := Option.isSome_iff_exists.mp hlast
  obtain ⟨b', hb'⟩ := Option.isSome_iff_exists.mp hseven
  exact ⟨(picks_fresh_iff shortSha256 hb).1.mpr (by decide +kernel),
    (picks_fresh_iff shortSha256 hb').2 (by decide +kernel)⟩

/-- One call more, and the id of the first is picked again. -/
theorem firstId_again :
    ((instanceMachine shortSha256).exec {}
      [.sendFile failingArgs, .sendFileWithId 0xFFFFFFFF failingArgs, .sendFile failingArgs,
        .sendFile failingArgs]).any (fun b ↦
          decide (b.picks = [(1, []), (0, [1, 0xFFFFFFFF]), (1, [1, 0xFFFFFFFF, 0])] ∧ ¬b.Fresh)) = true := by
  decide +kernel

end Thincan.FileTransfer

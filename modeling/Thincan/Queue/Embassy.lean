import Mathlib.Logic.Function.Basic
import Thincan.Process.Machine
import Thincan.Queue.Common

/-!
# The embassy queue

`QueueIsoTpEndpoint::send_to`, `send_functional_to` and `run_actor` of
`can-isotp-queue/src/embassy.rs`: any number of concurrent calls on copies of an
endpoint, and the actor.

Payloads travel in buffers of a fixed size with a length (`Buf`).  A call holds
`tx_rpc_lock` from before it discards the responses that are still in `tx_resp` until it
has taken one.  Responses do not say which request they answer; the names of calls that
stand beside requests and responses in `System` are bookkeeping, and no move looks at
them.

The future of a call can be dropped at each of its await points, which releases the lock.
-/

namespace Thincan.Queue.Embassy

open Process

variable {E : Type} {maxPayload : Nat}

/-! ## Buffers -/

/-- A buffer of `maxPayload` bytes, the first `len` of which are in use. -/
structure Buf (maxPayload : Nat) where
  len : Nat
  payload : Vector UInt8 maxPayload
  fits : len ≤ maxPayload
deriving DecidableEq, Repr

/-- `payload[..len]`. -/
def Buf.bytes (b : Buf maxPayload) : Bytes := b.payload.toList.take b.len

/-- A buffer of zeros, with bytes copied to its front. -/
def Buf.copyFromSlice (bs : Bytes) (h : bs.length ≤ maxPayload) : Buf maxPayload where
  len := bs.length
  payload := Vector.ofFn fun i ↦ bs.getD i 0
  fits := h

@[simp] theorem Buf.length_bytes (b : Buf maxPayload) : b.bytes.length = b.len := by
  rw [bytes, List.length_take, Vector.length_toList]
  exact Nat.min_eq_left b.fits

theorem Buf.length_bytes_le (b : Buf maxPayload) : b.bytes.length ≤ maxPayload := by
  rw [length_bytes]
  exact b.fits

@[simp] theorem Buf.bytes_copyFromSlice (bs : Bytes) (h : bs.length ≤ maxPayload) :
    (copyFromSlice bs h).bytes = bs := by
  apply List.ext_getElem
  · exact length_bytes _
  · intro i hi hbs
    simp [bytes, copyFromSlice, List.getElem?_eq_getElem hbs]

/-- `IsoTpTxRequest`. -/
structure Request (maxPayload : Nat) extends Buf maxPayload where
  target : UInt8
  isFunctional : Bool
  timeout : Nat
deriving DecidableEq, Repr

/-- What the node is asked for. -/
def Request.send (r : Request maxPayload) : Send := ⟨r.target, r.isFunctional, r.timeout, r.bytes⟩

/-- The request of a call. -/
def request (s : Send) (h : s.payload.length ≤ maxPayload) : Request maxPayload :=
  { Buf.copyFromSlice s.payload h with
    target := s.target, isFunctional := s.functional, timeout := s.timeout }

@[simp] theorem send_request (s : Send) (h : s.payload.length ≤ maxPayload) :
    (request s h).send = s := by
  have hbytes : (request s h).bytes = s.payload := Buf.bytes_copyFromSlice s.payload h
  rw [Request.send, hbytes]
  rfl

/-- `IsoTpTxResponse`. -/
inductive TxResponse (E : Type) where
  | ok
  | timeout
  | backend (e : E)
deriving DecidableEq, Repr

/-- `map_tx_response`. -/
def mapTxResponse : TxResponse E → SendResult E
  | .ok => .ok ()
  | .timeout => .error .timeout
  | .backend e => .error (.backend (.transport e))

/-- The response to a result; `none` where the source says that it is unreachable. -/
def txResponse : SendResult E → Option (TxResponse E)
  | .ok _ => some .ok
  | .error .timeout => some .timeout
  | .error (.backend (.transport e)) => some (.backend e)
  | .error (.backend (.payloadTooLarge _ _)) => none
  | .error (.backend .channelClosed) => none

/-- The unreachable arms are not reached, and a response says what the result was. -/
theorem txResponse_mapped (r : NodeResult E) :
    ∃ rsp, txResponse (mapped r) = some rsp ∧ mapTxResponse rsp = mapped r := by
  cases r with
  | ok => exact ⟨_, rfl, rfl⟩
  | error e =>
      cases e with
      | timeout => exact ⟨_, rfl, rfl⟩
      | backend e => exact ⟨_, rfl, rfl⟩

/-! ## The actor -/

/-- The await points of `run_actor`; `polling` is the poll of the request channel, which
does not wait. -/
inductive ActorPc (maxPayload : Nat) (E : Type) where
  | polling (txProcessed : Nat)
  | sending (txProcessed : Nat) (req : Request maxPayload)
  | responding (txProcessed : Nat) (rsp : TxResponse E)
  | receiving
  | enqueuing (evt : RxEvent (Buf maxPayload) E)
  | yielding

/-- The head of the burst loop. -/
def burst (cfg : ActorConfig) (txProcessed : Nat) : ActorPc maxPayload E :=
  if txProcessed < cfg.normalizedTxBurstLimit then .polling txProcessed else .receiving

/-- After the poll of the request channel. -/
def onPolled (txProcessed : Nat) : Option (Request maxPayload) → ActorPc maxPayload E
  | some req => .sending (txProcessed + 1) req
  | none => .receiving

/-- After the node has received into `rx_buf`, whose bytes are copied into a new buffer. -/
def onReceived (cfg : ActorConfig) : RecvOutcome (Buf maxPayload) E → ActorPc maxPayload E
  | .timedOut => .yielding
  | .deliveredOne replyTo rxBuf =>
      if cfg.allowedReplyFrom.any (replyTo ≠ ·) then burst cfg 0
      else
        .enqueuing (.delivered (cfg.fixedReplyTo.getD replyTo)
          (.copyFromSlice rxBuf.bytes rxBuf.length_bytes_le))
  | .bufferTooSmall needed got => .enqueuing (.bufferTooSmall needed got)
  | .backend e => .enqueuing (.backend e)

/-- `run_actor`. -/
def runActor (cfg : ActorConfig) :
    Coroutine (ActorPc maxPayload E)
      (ActorReq (Request maxPayload) (TxResponse E) (Buf maxPayload) E)
      (ActorResp (Request maxPayload) (Buf maxPayload) E) where
  request
    | .polling _ => some .poll
    | .sending _ req => some (.nodeSend req)
    | .responding _ rsp => some (.respond rsp)
    | .receiving => some .nodeRecv
    | .enqueuing evt => some (.enqueue evt)
    | .yielding => some .yieldNow
  resume
    | .polling n, .polled q => some (onPolled n q)
    | .sending n _, .sent r => (txResponse (mapped r)).map (.responding n)
    | .responding n _, .responded => some (burst cfg n)
    | .receiving, .received o => some (onReceived cfg o)
    | .enqueuing _, .enqueued => some (burst cfg 0)
    | .yielding, .yielded => some (burst cfg 0)
    | _, _ => none

/-- `run_actor` at its beginning. -/
def actorStart (cfg : ActorConfig) : ActorPc maxPayload E := burst cfg 0

/-! ## Calls -/

/-- The await points of a send call, the loop that discards responses, and the ends. -/
inductive Pc (maxPayload : Nat) (E : Type) where
  | /-- `tx_rpc_lock.lock` waits. -/
    locking (req : Request maxPayload)
  | /-- `while tx_resp.try_receive().is_ok() {}`, with the lock. -/
    draining (req : Request maxPayload)
  | /-- `tx_req.send` waits for room, with the lock. -/
    queueing (req : Request maxPayload)
  | /-- `tx_resp.receive` waits, with the lock. -/
    awaiting
  | returned (r : SendResult E)
  | /-- The future was dropped. -/
    dropped

/-- The call has the lock. -/
def Pc.holds : Pc maxPayload E → Bool
  | .draining _ | .queueing _ | .awaiting => true
  | .locking _ | .returned _ | .dropped => false

/-- The request a call has not sent yet. -/
def Pc.unsent : Pc maxPayload E → Option (Request maxPayload)
  | .locking req | .draining req | .queueing req => some req
  | .awaiting | .returned _ | .dropped => none

/-- A call and where it stands. -/
structure Task (maxPayload : Nat) (E : Type) where
  args : Send
  pc : Pc maxPayload E

/-- A call up to its first await. -/
def startSend (s : Send) : Pc maxPayload E :=
  if h : s.payload.length > maxPayload then .returned (s.tooLarge maxPayload)
  else .locking (request s (Nat.le_of_not_gt h))

/-! ## The system -/

/-- The calls, the lock, both channels and the actor. -/
structure System (maxPayload : Nat) (E : Type) where
  tasks : Nat → Option (Task maxPayload E) := fun _ ↦ none
  /-- `tx_rpc_lock` is taken. -/
  locked : Bool := false
  /-- `tx_req`; beside each request the call it is of. -/
  txReq : List (Nat × Request maxPayload) := []
  /-- `tx_resp`; beside each response the call it answers. -/
  txResp : List (Nat × TxResponse E) := []
  actor : ActorPc maxPayload E
  /-- The call whose request the actor has taken last. -/
  about : Nat := 0
  /-- The operations completed on the node, with the calls they were performed for. -/
  performed : List (Nat × Send × NodeResult E) := []

/-- What can happen. -/
inductive Label (maxPayload : Nat) (E : Type) where
  | /-- A call is made. -/
    call (n : Nat) (s : Send)
  | /-- A call gets the lock. -/
    lock (n : Nat)
  | /-- A call looks for a response to discard. -/
    drain (n : Nat)
  | /-- The request of a call enters `tx_req`. -/
    push (n : Nat)
  | /-- A call takes a response. -/
    recv (n : Nat)
  | /-- The future of a call is dropped. -/
    drop (n : Nat)
  | /-- The actor polls `tx_req`. -/
    poll
  | /-- The node completes a send. -/
    node (r : NodeResult E)
  | /-- The response of the actor enters `tx_resp`. -/
    respond
  | /-- Anything else the actor waits for. -/
    actor (r : ActorResp (Request maxPayload) (Buf maxPayload) E)

/-- The answers that come from neither channel and no send on the node. -/
def isOther : ActorResp (Request maxPayload) (Buf maxPayload) E → Bool
  | .polled _ | .sent _ | .responded => false
  | .received _ | .enqueued | .yielded => true

namespace System

variable (cfg : ActorConfig) (reqDepth respDepth : Nat) (w : System maxPayload E)

/-- Call `n` stands at `pc`. -/
def put (n : Nat) (s : Send) (pc : Pc maxPayload E) : System maxPayload E :=
  { w with tasks := Function.update w.tasks n (some ⟨s, pc⟩) }

/-- One move. -/
def step : Label maxPayload E → Option (System maxPayload E)
  | .call n s => if (w.tasks n).isSome then none else some (w.put n s (startSend s))
  | .lock n =>
      match w.tasks n with
      | some ⟨s, .locking req⟩ =>
          if w.locked then none else some { w.put n s (.draining req) with locked := true }
      | _ => none
  | .drain n =>
      match w.tasks n with
      | some ⟨s, .draining req⟩ =>
          match w.txResp with
          | _ :: rest => some { w with txResp := rest }
          | [] => some (w.put n s (.queueing req))
      | _ => none
  | .push n =>
      match w.tasks n with
      | some ⟨s, .queueing req⟩ =>
          if w.txReq.length < reqDepth then
            some { w.put n s .awaiting with txReq := w.txReq ++ [(n, req)] }
          else none
      | _ => none
  | .recv n =>
      match w.tasks n, w.txResp with
      | some ⟨s, .awaiting⟩, (_, rsp) :: rest =>
          some { w.put n s (.returned (mapTxResponse rsp)) with locked := false, txResp := rest }
      | _, _ => none
  | .drop n =>
      match w.tasks n with
      | some ⟨s, .locking _⟩ => some (w.put n s .dropped)
      | some ⟨s, .queueing _⟩ => some { w.put n s .dropped with locked := false }
      | some ⟨s, .awaiting⟩ => some { w.put n s .dropped with locked := false }
      | _ => none
  | .poll =>
      ((runActor cfg).resume w.actor (.polled (w.txReq.head?.map Prod.snd))).map fun pc ↦
        { w with
          actor := pc
          txReq := w.txReq.tail
          about := (w.txReq.head?.map Prod.fst).getD w.about }
  | .node r =>
      match w.actor with
      | .sending n req =>
          ((runActor cfg).resume (.sending n req) (.sent r)).map fun pc ↦
            { w with actor := pc, performed := w.performed ++ [(w.about, req.send, r)] }
      | _ => none
  | .respond =>
      match w.actor with
      | .responding n rsp =>
          if w.txResp.length < respDepth then
            ((runActor cfg).resume (.responding n rsp) .responded).map fun pc ↦
              { w with actor := pc, txResp := w.txResp ++ [(w.about, rsp)] }
          else none
      | _ => none
  | .actor r =>
      if isOther r then ((runActor cfg).resume w.actor r).map fun pc ↦ { w with actor := pc }
      else none

end System

/-- The system as a machine. -/
def machine (cfg : ActorConfig) (reqDepth respDepth : Nat) :
    Machine (System maxPayload E) (Label maxPayload E) where
  step w l := w.step cfg reqDepth respDepth l

/-- No call was made, and the actor is at its beginning. -/
def start (cfg : ActorConfig) : System maxPayload E := { actor := actorStart cfg }

end Thincan.Queue.Embassy

import Thincan.Bus.Wire
import Thincan.Process.Coroutine

/-!
# Endpoints that share a node through an actor

The types of `can-isotp-queue/src/common.rs` and of the interface it implements.
Calls on endpoints are turned into requests, which one actor performs on the node;
what the node receives is turned into events.  `tokio.rs` and `embassy.rs` do this
in two ways, and their actors ask the same kinds of things of the outside
(`ActorReq`), with requests and events of their own types.

Durations are numbers of nanoseconds.  The hooks observe and change nothing, so they
are left out.
-/

namespace Thincan.Queue

/-- `SendError`. -/
inductive SendError (E : Type) where
  | timeout
  | backend (e : E)
deriving DecidableEq, Repr

/-- `QueueIsoTpError`. -/
inductive QueueIsoTpError (E : Type) where
  | payloadTooLarge (needed capacity : Nat)
  | transport (e : E)
  | channelClosed
deriving DecidableEq, Repr

/-- What a send on the node results in. -/
abbrev NodeResult (E : Type) := Except (SendError E) Unit

/-- What a send on an endpoint results in. -/
abbrev SendResult (E : Type) := Except (SendError (QueueIsoTpError E)) Unit

/-- The result of the node as the actors report it. -/
def mapped {E : Type} : NodeResult E → SendResult E
  | .ok _ => .ok ()
  | .error .timeout => .error .timeout
  | .error (.backend e) => .error (.backend (.transport e))

/-- The arguments of `send_to` and of `send_functional_to`. -/
structure Send where
  target : UInt8
  functional : Bool
  timeout : Nat
  payload : Bytes
deriving DecidableEq, Repr

/-- The error of a send whose payload is too large. -/
def Send.tooLarge {E : Type} (s : Send) (maxPayload : Nat) : SendResult E :=
  .error (.backend (.payloadTooLarge s.payload.length maxPayload))

/-- `ActorConfig`. -/
structure ActorConfig where
  recvPollTimeout : Nat := 1000000
  txBurstLimit : Nat := 8
  fixedReplyTo : Option UInt8 := none
  allowedReplyFrom : Option UInt8 := none
deriving DecidableEq, Repr

/-- `ActorConfig::normalized_tx_burst_limit`. -/
def ActorConfig.normalizedTxBurstLimit (cfg : ActorConfig) : Nat :=
  if cfg.txBurstLimit = 0 then 1 else cfg.txBurstLimit

theorem ActorConfig.normalizedTxBurstLimit_eq (cfg : ActorConfig) :
    cfg.normalizedTxBurstLimit = max 1 cfg.txBurstLimit := by
  unfold normalizedTxBurstLimit
  split
  · next h =>
      rw [h]
      rfl
  · next h => exact (Nat.max_eq_right (Nat.one_le_iff_ne_zero.mpr h)).symm

/-- What a receive on the node results in; `P` is how it hands over a payload. -/
inductive RecvOutcome (P E : Type) where
  | timedOut
  | deliveredOne (replyTo : UInt8) (payload : P)
  | bufferTooSmall (needed got : Nat)
  | backend (e : E)
deriving DecidableEq, Repr

/-- `IsoTpRxEvent`, with payloads `P`. -/
inductive RxEvent (P E : Type) where
  | delivered (source : UInt8) (payload : P)
  | bufferTooSmall (needed got : Nat)
  | backend (e : E)
deriving DecidableEq, Repr

/-! ## What an actor asks for -/

/-- What an actor with requests `Q`, responses `A` and payloads `P` asks for. -/
inductive ActorReq (Q A P E : Type) where
  | /-- `try_recv` on the request queue. -/
    poll
  | /-- `send_to` or `send_functional_to` on the node. -/
    nodeSend (q : Q)
  | /-- `send` on the response queue. -/
    respond (a : A)
  | /-- `recv_one` or `recv_one_into` on the node. -/
    nodeRecv
  | /-- `send` on the event queue. -/
    enqueue (e : RxEvent P E)
  | yieldNow
deriving DecidableEq, Repr

/-- What it is answered. -/
inductive ActorResp (Q P E : Type) where
  | polled (q : Option Q)
  | sent (r : NodeResult E)
  | responded
  | received (o : RecvOutcome P E)
  | enqueued
  | yielded

end Thincan.Queue

import Mathlib.Logic.Function.Basic
import Thincan.Process.Machine
import Thincan.Queue.Common

/-!
# The tokio queue

`QueueIsoTpEndpoint::send_to`, `send_functional_to` and `run_actor` of
`can-isotp-queue/src/tokio.rs`: any number of concurrent calls on clones of an
endpoint, and the actor.

A call makes a request with a one-shot channel in it, waits for room in the request
channel, and then for the answer.  The one-shot channel of a request is the name of
the call (`Request.done`).  The future of a call can be dropped at either of its
await points; the request, if it is in the channel by then, stays there.  The actor
can be gone too: its task was aborted, at an await point, or it was dropped before it
ran.  Its end drops the requests in the channel and the one it is about, with their
one-shot channels.
-/

namespace Thincan.Queue.Tokio

open Process

variable {E : Type}

/-- `IsoTpTxRequest`. -/
structure Request extends Send where
  done : Nat
deriving DecidableEq, Repr

/-! ## The actor -/

/-- The await points of `run_actor`; `polling` is the poll of the request channel, which
does not wait. -/
inductive ActorPc (E : Type) where
  | polling (txProcessed : Nat)
  | sending (txProcessed : Nat) (req : Request)
  | receiving
  | enqueuing (evt : RxEvent Bytes E)
  | yielding

/-- The head of the burst loop. -/
def burst (cfg : ActorConfig) (txProcessed : Nat) : ActorPc E :=
  if txProcessed < cfg.normalizedTxBurstLimit then .polling txProcessed else .receiving

/-- After the poll of the request channel; `Empty` and `Disconnected` end the burst. -/
def onPolled (txProcessed : Nat) : Option Request → ActorPc E
  | some req => .sending (txProcessed + 1) req
  | none => .receiving

/-- After the node has received.  `DeliveredOne` comes with a payload here: a node that reports it
without having called the closure is left out. -/
def onReceived (cfg : ActorConfig) : RecvOutcome Bytes E → ActorPc E
  | .timedOut => .yielding
  | .deliveredOne fromMeta payload =>
      if cfg.allowedReplyFrom.any (fromMeta ≠ ·) then burst cfg 0
      else .enqueuing (.delivered (cfg.fixedReplyTo.getD fromMeta) payload)
  | .bufferTooSmall needed got => .enqueuing (.bufferTooSmall needed got)
  | .backend e => .enqueuing (.backend e)

/-- `run_actor`.  The answer to a request is sent in the step that completes its
operation on the node. -/
def runActor (cfg : ActorConfig) :
    Coroutine (ActorPc E) (ActorReq Request (SendResult E) Bytes E) (ActorResp Request Bytes E) where
  request
    | .polling _ => some .poll
    | .sending _ req => some (.nodeSend req)
    | .receiving => some .nodeRecv
    | .enqueuing evt => some (.enqueue evt)
    | .yielding => some .yieldNow
  resume
    | .polling n, .polled q => some (onPolled n q)
    | .sending n _, .sent _ => some (burst cfg n)
    | .receiving, .received o => some (onReceived cfg o)
    | .enqueuing _, .enqueued => some (burst cfg 0)
    | .yielding, .yielded => some (burst cfg 0)
    | _, _ => none

/-- `run_actor` at its beginning. -/
def actorStart (cfg : ActorConfig) : ActorPc E := burst cfg 0

/-! ## Calls -/

/-- The await points of a send call, and its ends. -/
inductive Pc (E : Type) where
  | /-- `tx_req.send` waits for room. -/
    queueing
  | /-- The request is in the channel, `done_rx` waits. -/
    awaiting
  | returned (r : SendResult E)
  | /-- The future was dropped. -/
    dropped

/-- A call and where it stands. -/
structure Task (E : Type) where
  args : Send
  pc : Pc E

/-- The request of the call `n`. -/
def Task.request (t : Task E) (n : Nat) : Request := { t.args with done := n }

/-- A call up to its first await. -/
def startSend (maxPayload : Nat) (s : Send) : Pc E :=
  if s.payload.length > maxPayload then .returned (s.tooLarge maxPayload) else .queueing

/-- `ChannelClosed`, as a call returns it. -/
def channelClosed : SendResult E := .error (.backend .channelClosed)

/-! ## The system -/

/-- The calls, the request channel and the actor. -/
structure System (E : Type) where
  tasks : Nat → Option (Task E) := fun _ ↦ none
  queue : List Request := []
  /-- `none` once the actor is gone. -/
  actor : Option (ActorPc E)
  /-- What was sent into the one-shot channels. -/
  replies : Nat → Option (SendResult E) := fun _ ↦ none
  /-- The requests that have entered the channel, in order. -/
  entered : List Request := []
  /-- The operations begun on the node, in order. -/
  begun : List Request := []
  /-- Those that have completed, with their results. -/
  performed : List (Request × NodeResult E) := []

/-- What can happen. -/
inductive Label (E : Type) where
  | /-- A call is made. -/
    call (n : Nat) (s : Send)
  | /-- The request of a call enters the channel, or the channel is closed. -/
    push (n : Nat)
  | /-- The one-shot channel of a call is resolved. -/
    wake (n : Nat)
  | /-- The future of a call is dropped. -/
    drop (n : Nat)
  | /-- The actor polls the request channel. -/
    poll
  | /-- The node completes a send. -/
    node (r : NodeResult E)
  | /-- Anything else the actor waits for. -/
    actor (r : ActorResp Request Bytes E)
  | /-- The task of the actor is dropped. -/
    abort

/-- The request the actor is about. -/
def current : Option (ActorPc E) → Option Request
  | some (.sending _ req) => some req
  | _ => none

/-- The answers that come from neither the request channel nor a send on the node. -/
def isOther : ActorResp Request Bytes E → Bool
  | .polled _ | .sent _ => false
  | .responded | .received _ | .enqueued | .yielded => true

namespace System

variable (cfg : ActorConfig) (maxPayload depth : Nat) (w : System E)

/-- Call `n` stands at `pc`. -/
def put (n : Nat) (t : Task E) (pc : Pc E) : System E :=
  { w with tasks := Function.update w.tasks n (some { t with pc }) }

/-- `tx_req.send` of call `n`: the request enters if there is room, and `send` fails if
the receiver is gone. -/
def push (n : Nat) (t : Task E) : Option (System E) :=
  match w.actor with
  | none => some (w.put n t (.returned channelClosed))
  | some _ =>
      if w.queue.length < depth then
        some { w.put n t .awaiting with
          queue := w.queue ++ [t.request n], entered := w.entered ++ [t.request n] }
      else none

/-- `done_rx` of call `n`: what was sent, or an error if the sender was dropped. -/
def wake (n : Nat) (t : Task E) : Option (System E) :=
  match w.replies n with
  | some r => some (w.put n t (.returned r))
  | none =>
      if n ∈ (w.queue ++ (current w.actor).toList).map Request.done then none
      else some (w.put n t (.returned channelClosed))

/-- One move. -/
def step : Label E → Option (System E)
  | .call n s =>
      if (w.tasks n).isSome then none
      else some (w.put n ⟨s, .queueing⟩ (startSend maxPayload s))
  | .push n =>
      match w.tasks n with
      | some ⟨s, .queueing⟩ => w.push depth n ⟨s, .queueing⟩
      | _ => none
  | .wake n =>
      match w.tasks n with
      | some ⟨s, .awaiting⟩ => w.wake n ⟨s, .awaiting⟩
      | _ => none
  | .drop n =>
      match w.tasks n with
      | some ⟨s, .queueing⟩ => some (w.put n ⟨s, .queueing⟩ .dropped)
      | some ⟨s, .awaiting⟩ => some (w.put n ⟨s, .awaiting⟩ .dropped)
      | _ => none
  | .poll =>
      w.actor.bind fun pc ↦ ((runActor cfg).resume pc (.polled w.queue.head?)).map fun pc ↦
        { w with actor := some pc, queue := w.queue.tail, begun := w.begun ++ w.queue.head?.toList }
  | .node r =>
      w.actor.bind fun pc ↦ ((runActor cfg).resume pc (.sent r)).map fun pc' ↦
        match pc with
        | .sending _ req =>
            { w with
              actor := some pc'
              replies := Function.update w.replies req.done (some (mapped r))
              performed := w.performed ++ [(req, r)] }
        | _ => { w with actor := some pc' }
  | .actor r =>
      if isOther r then
        w.actor.bind fun pc ↦ ((runActor cfg).resume pc r).map fun pc ↦ { w with actor := some pc }
      else none
  | .abort => w.actor.map fun _ ↦ { w with actor := none, queue := [] }

end System

/-- The system as a machine. -/
def machine (cfg : ActorConfig) (maxPayload depth : Nat) : Machine (System E) (Label E) where
  step w l := w.step cfg maxPayload depth l

/-- No call was made, and the actor is at its beginning. -/
def start (cfg : ActorConfig) : System E := { actor := some (actorStart cfg) }

/-! ## What a move can do -/

section Turn

variable {cfg : ActorConfig} {maxPayload depth : Nat} {w w' : System E}

@[simp] theorem current_burst (n : Nat) : current (some (burst cfg n : ActorPc E)) = none := by
  unfold burst
  split
  · rfl
  · rfl

theorem current_onReceived (o : RecvOutcome Bytes E) :
    current (some (onReceived cfg o)) = none := by
  unfold onReceived
  cases o with
  | timedOut | bufferTooSmall | backend => rfl
  | deliveredOne fromMeta payload =>
      dsimp only
      split
      · exact current_burst 0
      · rfl

/-- What a move can do. -/
inductive Turn (maxPayload depth : Nat) (w : System E) : Label E → System E → Prop
  | call (n : Nat) (s : Send) (hn : w.tasks n = none) :
      Turn maxPayload depth w (.call n s) (w.put n ⟨s, .queueing⟩ (startSend maxPayload s))
  | closed (n : Nat) (s : Send) (ht : w.tasks n = some ⟨s, .queueing⟩) (ha : w.actor = none) :
      Turn maxPayload depth w (.push n) (w.put n ⟨s, .queueing⟩ (.returned channelClosed))
  | entered (n : Nat) (s : Send) (pc : ActorPc E) (ht : w.tasks n = some ⟨s, .queueing⟩)
      (ha : w.actor = some pc) (hroom : w.queue.length < depth) :
      Turn maxPayload depth w (.push n) { w.put n ⟨s, .queueing⟩ .awaiting with
        queue := w.queue ++ [{ s with done := n }], entered := w.entered ++ [{ s with done := n }] }
  | answered (n : Nat) (s : Send) (r : SendResult E) (ht : w.tasks n = some ⟨s, .awaiting⟩)
      (hr : w.replies n = some r) :
      Turn maxPayload depth w (.wake n) (w.put n ⟨s, .awaiting⟩ (.returned r))
  | orphaned (n : Nat) (s : Send) (ht : w.tasks n = some ⟨s, .awaiting⟩) (hr : w.replies n = none)
      (hout : n ∉ (w.queue ++ (current w.actor).toList).map Request.done) :
      Turn maxPayload depth w (.wake n) (w.put n ⟨s, .awaiting⟩ (.returned channelClosed))
  | drop (n : Nat) (t : Task E) (ht : w.tasks n = some t) (hv : ∀ v, t.pc ≠ .returned v) :
      Turn maxPayload depth w (.drop n) (w.put n t .dropped)
  | idle (ha : (w.actor.isSome) = true) (hc : current w.actor = none) (hq : w.queue = []) :
      Turn maxPayload depth w .poll { w with actor := some .receiving }
  | taken (k : Nat) (req : Request) (rest : List Request) (ha : w.actor.isSome = true)
      (hc : current w.actor = none) (hq : w.queue = req :: rest) :
      Turn maxPayload depth w .poll
        { w with actor := some (.sending k req), queue := rest, begun := w.begun ++ [req] }
  | node (k : Nat) (req : Request) (r : NodeResult E) (pc : ActorPc E)
      (ha : w.actor = some (.sending k req)) (hc : current (some pc) = none) :
      Turn maxPayload depth w (.node r)
        { w with
          actor := some pc
          replies := Function.update w.replies req.done (some (mapped r))
          performed := w.performed ++ [(req, r)] }
  | actor (r : ActorResp Request Bytes E) (pc : ActorPc E) (ha : w.actor.isSome = true)
      (hc : current w.actor = none) (hc' : current (some pc) = none) :
      Turn maxPayload depth w (.actor r) { w with actor := some pc }
  | abort (ha : w.actor.isSome = true) :
      Turn maxPayload depth w .abort { w with actor := none, queue := [] }

/-- The actor moves on with something that is neither a request nor the end of a send. -/
theorem resume_other {pc pc' : ActorPc E} {r : ActorResp Request Bytes E} (hr : isOther r = true)
    (h : (runActor cfg).resume pc r = some pc') :
    current (some pc) = none ∧ current (some pc') = none := by
  cases r with
  | polled | sent => cases hr
  | responded => cases pc <;> cases h
  | received o =>
      cases pc with
      | receiving =>
          obtain rfl := Option.some.inj h
          exact ⟨rfl, current_onReceived o⟩
      | polling | sending | enqueuing | yielding => cases h
  | enqueued =>
      cases pc with
      | enqueuing evt =>
          obtain rfl := Option.some.inj h
          exact ⟨rfl, current_burst 0⟩
      | polling | sending | receiving | yielding => cases h
  | yielded =>
      cases pc with
      | yielding =>
          obtain rfl := Option.some.inj h
          exact ⟨rfl, current_burst 0⟩
      | polling | sending | receiving | enqueuing => cases h

theorem step_turn {l : Label E} (h : w.step cfg maxPayload depth l = some w') :
    Turn maxPayload depth w l w' := by
  cases l with
  | call n s =>
      simp only [System.step] at h
      split at h
      · cases h
      · next hn =>
          obtain rfl := Option.some.inj h
          exact .call n s (Option.not_isSome_iff_eq_none.mp hn)
  | push n =>
      simp only [System.step] at h
      split at h
      · next s ht =>
          unfold System.push at h
          split at h
          · next ha =>
              obtain rfl := Option.some.inj h
              exact .closed n s ht ha
          · next pc ha =>
              split at h
              · next hroom =>
                  obtain rfl := Option.some.inj h
                  exact .entered n s pc ht ha hroom
              · cases h
      · cases h
  | wake n =>
      simp only [System.step] at h
      split at h
      · next s ht =>
          unfold System.wake at h
          split at h
          · next r hr =>
              obtain rfl := Option.some.inj h
              exact .answered n s r ht hr
          · next hr =>
              split at h
              · cases h
              · next hout =>
                  obtain rfl := Option.some.inj h
                  exact .orphaned n s ht hr hout
      · cases h
  | drop n =>
      simp only [System.step] at h
      split at h
      · next s ht =>
          obtain rfl := Option.some.inj h
          exact .drop n _ ht fun _ hv ↦ by cases hv
      · next s ht =>
          obtain rfl := Option.some.inj h
          exact .drop n _ ht fun _ hv ↦ by cases hv
      · cases h
  | poll =>
      obtain ⟨pc, ha, h⟩ := Option.bind_eq_some_iff.mp h
      obtain ⟨pc', hpc, rfl⟩ := Option.map_eq_some_iff.mp h
      cases pc with
      | sending | receiving | enqueuing | yielding => cases hpc
      | polling k =>
          have hc : current w.actor = none := by rw [ha]; rfl
          cases hq : w.queue with
          | nil =>
              rw [hq] at hpc
              obtain rfl := Option.some.inj hpc
              simpa [hq, onPolled] using Turn.idle (Option.isSome_of_eq_some ha) hc hq
          | cons req rest =>
              rw [hq] at hpc
              obtain rfl := Option.some.inj hpc
              exact .taken (k + 1) req rest (Option.isSome_of_eq_some ha) hc hq
  | node r =>
      obtain ⟨pc, ha, h⟩ := Option.bind_eq_some_iff.mp h
      obtain ⟨pc', hpc, rfl⟩ := Option.map_eq_some_iff.mp h
      cases pc with
      | polling | receiving | enqueuing | yielding => cases hpc
      | sending k req =>
          obtain rfl := Option.some.inj hpc
          exact .node k req r _ ha (current_burst k)
  | actor r =>
      simp only [System.step] at h
      split at h
      · next hr =>
          obtain ⟨pc, ha, h⟩ := Option.bind_eq_some_iff.mp h
          obtain ⟨pc', hpc, rfl⟩ := Option.map_eq_some_iff.mp h
          obtain ⟨hc, hc'⟩ := resume_other hr hpc
          exact .actor r pc' (Option.isSome_of_eq_some ha) (ha ▸ hc) hc'
      · cases h
  | abort =>
      obtain ⟨pc, ha, rfl⟩ := Option.map_eq_some_iff.mp h
      exact .abort (Option.isSome_of_eq_some ha)

end Turn

end Thincan.Queue.Tokio

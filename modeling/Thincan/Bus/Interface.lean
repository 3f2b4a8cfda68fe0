import Mathlib.Logic.Function.Basic
import Thincan.Bus.Mailbox
import Thincan.Process.Machine

/-!
# The receiving half of an interface

`BusHandle::ingest` and `BusHandle::__recv_next_capnp_from(_where)` of
`thincan/src/lib.rs`, called any number of times by concurrent tasks on one
`Interface`.

What the calls share is, for each message type, a mailbox behind a mutex and an
`embassy_sync::watch::Watch` that announces new messages: together a `Port`.  A
call is a state `Pc` at one of its await points, and an `Action` takes it to the
next.  The code under the lock has no await in it, so getting the lock, the code
and releasing the lock are one action; `ingest` notifies after it has released
the lock, which is an action of its own.  Only the port of its own message type
matters to an action, and `Pc.act` has no other.

A `Watch` is a version counter: `send` increments it, and `changed` completes
once the version is newer than the one this receiver last saw.  It serves at most
`MAX_WAITERS` receivers at a time.

The state has two histories the code does not keep: which calls of `ingest` have
put their message into a mailbox, in order, and which receive call has taken the
message of which `ingest`.
-/

namespace Thincan.Bus

open Process

variable {types depth maxBody : Nat} {π : Type}

/-! ## Calls -/

/-- The predicate of a receive call: `|_| true` or the caller's. -/
inductive Filter (π : Type) where
  | all
  | only (p : π)
deriving DecidableEq, Repr

/-- Ask the predicate about a body. -/
def Filter.ask (ask : π → Bytes → Bool × π) : Filter π → Bytes → Bool × Filter π
  | .all, _ => (true, .all)
  | .only p, body => ((ask p body).1, .only (ask p body).2)

/-- A call and its arguments; the message type of a receive call is its id. -/
inductive Call (π : Type) where
  | /-- `ingest`. -/
    ingest (source : UInt8) (payload : Bytes)
  | /-- `__recv_next_capnp_from`. -/
    recvNext (id : UInt16) (source : UInt8)
  | /-- `__recv_next_capnp_from_where`. -/
    recvNextWhere (id : UInt16) (source : UInt8) (p : π)
deriving DecidableEq, Repr

/-- The address a call is about. -/
def Call.source : Call π → UInt8
  | .ingest source _ | .recvNext _ source | .recvNextWhere _ source _ => source

/-- The message id a call is about; a payload may be too short to have one. -/
def Call.id? : Call π → Option UInt16
  | .ingest _ payload => (decodeWire payload).toOption.map RawMessage.id
  | .recvNext id _ | .recvNextWhere id _ _ => some id

/-- The slot a call is about. -/
def Call.slot (M : Maplet types) (c : Call π) : Option (Fin types) := c.id?.bind M.slotForId

/-- `IngestOutcome`. -/
structure IngestOutcome where
  source : UInt8
  id : UInt16
  len : Nat
deriving DecidableEq, Repr

/-- `Received`. -/
structure Received (maxBody : Nat) where
  source : UInt8
  id : UInt16
  len : Nat
  body : Vector UInt8 maxBody
deriving DecidableEq, Repr

/-- `Received::from_slot`. -/
def Received.fromSlot (source : UInt8) (id : UInt16) (s : MailboxSlot maxBody) : Received maxBody :=
  ⟨source, id, s.len, s.body⟩

/-- `Received::body`. -/
def Received.bytes (r : Received maxBody) : Bytes := r.body.toList.take r.len

/-- The await points of the calls, and their ends. -/
inductive Pc (types maxBody : Nat) (π : Type) where
  | /-- `ingest` waits for the lock. -/
    pushing (slot : Fin types) (raw : RawMessage)
  | /-- `ingest` has released the lock and is about to notify. -/
    notifying (slot : Fin types) (raw : RawMessage)
  | ingested (r : Except IngestError IngestOutcome)
  | /-- A receive call waits for the lock. -/
    popping (slot : Fin types) (id : UInt16) (p : Filter π) (seen : Nat)
  | /-- A receive call waits in `changed`. -/
    waiting (slot : Fin types) (id : UInt16) (p : Filter π) (seen : Nat)
  | received (r : Except ErrorKind (Received maxBody))
  | /-- The future was dropped. -/
    dropped

/-- What belongs to one message type: `rx_state.by_type[slot]` and
`notify[slot]`. -/
structure Port (depth maxBody : Nat) where
  box : Mailbox depth maxBody := .new
  version : Nat := 0
  receivers : Nat := 0

/-- Something a suspended call can do. -/
inductive Action where
  | lock
  | notify
  | wake
  | drop
deriving DecidableEq, Repr

/-- What an action adds to the histories. -/
inductive Effect where
  | none
  | pushed
  | took (i : Nat)
deriving DecidableEq, Repr

/-! ## The code between await points -/

/-- `ingest` up to the lock. -/
def startIngest (M : Maplet types) (payload : Bytes) : Pc types maxBody π :=
  match decodeWire payload with
  | .error _ => .ingested (.error .malformedPayload)
  | .ok raw =>
      match M.slotForId raw.id with
      | none => .ingested (.error (.unknownId raw.id))
      | some slot => .pushing slot raw

/-- `__recv_next_capnp_from_where` up to the first lock: where it stands, and the
receiver it has created. -/
def startRecv (M : Maplet types) (maxWaiters : Nat) (ports : Fin types → Port depth maxBody)
    (id : UInt16) (p : Filter π) : Pc types maxBody π × Option (Fin types × Port depth maxBody) :=
  match M.slotForId id with
  | none => (.received (.error .other), none)
  | some slot =>
      let port := ports slot
      if port.receivers < maxWaiters then
        (.popping slot id p 0, some (slot, { port with receivers := port.receivers + 1 }))
      else (.received (.error .other), none)

/-- A call up to its first await. -/
def Call.start (M : Maplet types) (maxWaiters : Nat) (ports : Fin types → Port depth maxBody) :
    Call π → Pc types maxBody π × Option (Fin types × Port depth maxBody)
  | .ingest _ payload => (startIngest M payload, none)
  | .recvNext id _ => startRecv M maxWaiters ports id .all
  | .recvNextWhere id _ p => startRecv M maxWaiters ports id (.only p)

/-- The slot of a call that has not ended. -/
def Pc.slot : Pc types maxBody π → Option (Fin types)
  | .pushing slot _ | .notifying slot _ | .popping slot _ _ _ | .waiting slot _ _ _ => some slot
  | .ingested _ | .received _ | .dropped => none

variable (ask : π → Bytes → Bool × π)

/-- `push` under the lock, then on to the notification. -/
def onPushLock (source : UInt8) (slot : Fin types) (raw : RawMessage) (port : Port depth maxBody) :
    Pc types maxBody π × Port depth maxBody × Effect :=
  match port.box.push source raw.body with
  | (.error e, box) => (.ingested (.error e), { port with box }, .none)
  | (.ok _, box) => (.notifying slot raw, { port with box }, .pushed)

/-- `pop_matching_where` under the lock, then on to `changed` or to the end of the
call, which gives its receiver back. -/
def onPopLock (source : UInt8) (slot : Fin types) (id : UInt16) (p : Filter π) (seen : Nat)
    (port : Port depth maxBody) : Pc types maxBody π × Port depth maxBody × Effect :=
  match port.box.pop (Filter.ask ask) source p with
  | (none, p, box) => (.waiting slot id p seen, { port with box }, .none)
  | (some found, _, box) =>
      (.received (.ok (.fromSlot source id found)),
        { port with box, receivers := port.receivers - 1 },
        -- the index the search of `pop_matching_where` has stopped at
        match (search (TypeMailbox.askFrom (Filter.ask ask) source) port.box.entries p).1 with
        | none => .none
        | some i => .took i)

/-- One action of a call on the port of its slot. -/
def Pc.act (source : UInt8) : Action → Pc types maxBody π → Port depth maxBody →
    Option (Pc types maxBody π × Port depth maxBody × Effect)
  | .lock, .pushing slot raw, port => some (onPushLock source slot raw port)
  | .notify, .notifying _ raw, port =>
      some (.ingested (.ok ⟨source, raw.id, raw.body.length⟩),
        { port with version := port.version + 1 }, .none)
  | .lock, .popping slot id p seen, port => some (onPopLock ask source slot id p seen port)
  | .wake, .waiting slot id p seen, port =>
      if seen < port.version then some (.popping slot id p port.version, port, .none) else none
  | .drop, .pushing _ _, port => some (.dropped, port, .none)
  | .drop, .popping _ _ _ _, port | .drop, .waiting _ _ _ _, port =>
      some (.dropped, { port with receivers := port.receivers - 1 }, .none)
  | _, _, _ => none

/-! ## The interface -/

/-- A call and where it stands. -/
structure Task (types maxBody : Nat) (π : Type) where
  call : Call π
  pc : Pc types maxBody π

/-- The receiving half of an `Interface` and the calls made on it, under names. -/
structure Interface (types depth maxBody : Nat) (π : Type) where
  ports : Fin types → Port depth maxBody := fun _ ↦ {}
  tasks : Nat → Option (Task types maxBody π) := fun _ ↦ none
  /-- The calls of `ingest` whose message was put into a mailbox, in order. -/
  pushes : List Nat := []
  /-- The receive calls that have returned a message, in order, each with the
  `ingest` call whose message it was. -/
  takes : List (Nat × Nat) := []

namespace Interface

variable (w : Interface types depth maxBody π)

/-- The slot the call `n` is about. -/
def slot (M : Maplet types) (n : Nat) : Option (Fin types) := (w.tasks n).bind (·.call.slot M)

/-- The messages in the mailbox of a slot, by the calls that put them there. -/
def pending (M : Maplet types) (k : Fin types) : List Nat :=
  w.pushes.filter fun n ↦ w.slot M n = some k ∧ n ∉ w.takes.map Prod.snd

/-- Task `n` stands at `t`, and its port, if it has changed, at `port`. -/
def put (n : Nat) (t : Task types maxBody π) (port : Option (Fin types × Port depth maxBody)) :
    Interface types depth maxBody π where
  tasks := Function.update w.tasks n (some t)
  ports := match port with
    | none => w.ports
    | some (k, port) => Function.update w.ports k port
  pushes := w.pushes
  takes := w.takes

/-- Task `n` has done something to the messages of slot `k`. -/
def record (M : Maplet types) (n : Nat) (k : Fin types) : Effect → Interface types depth maxBody π
  | .none => w
  | .pushed => { w with pushes := w.pushes ++ [n] }
  | .took i => { w with takes := w.takes ++ ((w.pending M k)[i]?.map (n, ·)).toList }

/-- A new call, or an action of a suspended one. -/
inductive Label (π : Type) where
  | call (n : Nat) (c : Call π)
  | act (n : Nat) (a : Action)

/-- Who moves. -/
def Label.task : Label π → Nat
  | .call n _ | .act n _ => n

/-- One move. -/
def step (M : Maplet types) (maxWaiters : Nat) : Label π → Option (Interface types depth maxBody π)
  | .call n c =>
      if (w.tasks n).isSome then none
      else
        let (pc, port) := c.start M maxWaiters w.ports
        some (w.put n ⟨c, pc⟩ port)
  | .act n a =>
      (w.tasks n).bind fun t ↦ t.pc.slot.bind fun k ↦
        (t.pc.act ask t.call.source a (w.ports k)).map fun r ↦
          (w.record M n k r.2.2).put n { t with pc := r.1 } (some (k, r.2.1))

/-- The interface as a machine. -/
def machine (M : Maplet types) (maxWaiters : Nat) :
    Machine (Interface types depth maxBody π) (Label π) where
  step w l := w.step ask M maxWaiters l

end Interface

end Thincan.Bus

import Mathlib.Data.List.AList
import Thincan.Process.Machine
import Thincan.UnixSocket.Wire

/-!
# The bus server

`handle_command`, `broadcast_frame` and `filters_match` of
`embedded-can-unix-socket/src/server.rs`, and what `client_reader_loop` makes of a message.

The server keeps its clients in a `HashMap`, which is walked in an order nobody promises.
Here it is an association list without duplicate keys, and the order of a walk comes with
the command (`Bus.step`).  The channel to the writer thread of a client is `out`: all that
was ever sent into it.
-/

namespace Thincan.UnixSocket

open Process

/-- `ClientId`. -/
abbrev ClientId := UInt64

/-- `BusCommand`.  The channel of an added client is the one of its id. -/
inductive Command where
  | addClient (id : ClientId)
  | removeClient (id : ClientId)
  | sendFrame (id : ClientId) (seq : UInt64) (expectAck : Bool) (frame : UnixFrame)
  | setFilters (id : ClientId) (seq : UInt64) (filters : List IdMaskFilter)
  | shutdown
deriving DecidableEq, Repr

/-- `ServerMsg`. -/
inductive ServerMsg where
  | frame (frame : UnixFrame)
  | ack (seq : UInt64) (status : UInt8)
  | hello
  | filtersAck (seq : UInt64) (status : UInt8)
deriving DecidableEq, Repr

/-! ## Filters -/

/-- `filter_match`. -/
def filterMatch (filter : IdMaskFilter) (id : Id) : Bool :=
  match filter.id, filter.mask, id with
  | .standard fid, .standard mask, .standard id => id.raw &&& mask = fid.raw &&& mask
  | .extended fid, .extended mask, .extended id => id.raw &&& mask = fid.raw &&& mask
  | _, _, _ => false

/-- `filters_match`. -/
def filtersMatch (filters : List IdMaskFilter) (frame : UnixFrame) : Bool :=
  if filters.isEmpty then true else filters.any fun filter ↦ filterMatch filter frame.id

/-! ## Commands -/

/-- `ClientState`. -/
structure ClientState where
  filters : List IdMaskFilter := []
deriving DecidableEq, Repr

/-- `PendingFilters`. -/
structure PendingFilters where
  seq : UInt64
  filters : List IdMaskFilter
deriving DecidableEq, Repr

/-- The maps of `bus_loop`, and what was sent to the writers. -/
structure Bus where
  clients : AList (fun _ : ClientId ↦ ClientState) := ∅
  pending : AList (fun _ : ClientId ↦ PendingFilters) := ∅
  out : ClientId → List ServerMsg := fun _ ↦ []

namespace Bus

variable (b : Bus)

/-- `tx.send` to the client `id`. -/
def send (id : ClientId) (msg : ServerMsg) : Bus :=
  { b with out := Function.update b.out id (b.out id ++ [msg]) }

/-- One turn of the loop in `broadcast_frame`. -/
def offer (frame : UnixFrame) (b' : Bus) (id : ClientId) : Bus :=
  match b.clients.lookup id with
  | some client => if filtersMatch client.filters frame then b'.send id (.frame frame) else b'
  | none => b'

/-- `broadcast_frame`, walking the clients in the order `order`. -/
def broadcastFrame (order : List ClientId) (frame : UnixFrame) : Bus :=
  order.foldl (b.offer frame) b

/-- `handle_command`. -/
def handleCommand (order : List ClientId) : Command → Bus
  | .addClient id =>
      let pending := b.pending.lookup id
      let filters := (pending.map PendingFilters.filters).getD []
      let b' := { b with clients := b.clients.insert id ⟨filters⟩, pending := b.pending.erase id }
      match pending with
      | some p => (b'.send id .hello).send id (.filtersAck p.seq ackOk)
      | none => b'.send id .hello
  | .removeClient id => { b with clients := b.clients.erase id, pending := b.pending.erase id }
  | .sendFrame id seq expectAck frame =>
      let ackStatus := if expectAck && b.clients.keys.length ≤ 1 then ackNoAck else ackOk
      let b' := b.broadcastFrame order frame
      if expectAck && (b.clients.lookup id).isSome then b'.send id (.ack seq ackStatus) else b'
  | .setFilters id seq filters =>
      if seq = 0 then
        if (b.clients.lookup id).isSome then b.send id (.filtersAck seq ackServerErr) else b
      else if (b.clients.lookup id).isSome then
        { b with clients := b.clients.insert id ⟨filters⟩ }.send id (.filtersAck seq ackOk)
      else { b with pending := b.pending.insert id ⟨seq, filters⟩ }
  | .shutdown => b

/-- A command is handled, with an order in which the clients can be walked. -/
def step (l : Command × List ClientId) : Option Bus :=
  if l.2.Perm b.clients.keys then some (b.handleCommand l.2 l.1) else none

end Bus

/-- The bus thread as a machine. -/
def busMachine : Machine Bus (Command × List ClientId) where
  step b l := b.step l

/-! ## Reader and writer threads -/

/-- What `client_reader_loop` does with a message. -/
inductive Read where
  | command (c : Command)
  | skip
  | /-- `RemoveClient`, and the end of the loop. -/
    stop
  | panic
deriving DecidableEq, Repr

/-- `client_reader_loop`, once it has a message. -/
def readCommand (id : ClientId) (msgType : UInt8) (payload : Bytes) : Read :=
  if msgType = msgSendFrame then
    match decodeSendFrame payload with
    | .ok send => .command (.sendFrame id send.seq send.expectAck send.frame)
    | .error _ => .stop
  else if msgType = msgSetFilters then
    match decodeFilters payload with
    | some (.ok (seq, filters)) => .command (.setFilters id seq filters)
    | some (.error _) => .command (.setFilters id 0 [])
    | none => .panic
  else .skip

/-- `client_writer_loop`: the bytes of a message. -/
def ServerMsg.encode : ServerMsg → Bytes
  | .frame f => Framing.frame msgFrame (encodeFrameInto f)
  | .ack seq status => Framing.frame msgAck (encodeAckInto seq status)
  | .hello => Framing.frame msgHello []
  | .filtersAck seq status => Framing.frame msgFiltersAck (encodeAckInto seq status)

end Thincan.UnixSocket

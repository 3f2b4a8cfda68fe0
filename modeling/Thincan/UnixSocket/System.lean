import Mathlib.Logic.Function.Basic
import Thincan.UnixSocket.Answers
import Thincan.UnixSocket.Numbering

/-!
# Clients and server together

Any number of clients, and the threads of `embedded-can-unix-socket/src/server.rs`:
`accept_loop` with `handle_client`, for each connection `client_reader_loop` and
`client_writer_loop`, and `bus_loop`.  The threads talk through channels, which are lists
here.  The connections are counted, and the id of a connection is its number from 1 on, as
long as that fits.

Socket streams are lossless and ordered, and all writes complete (`Client.lossless`).  A
thread of a connection ends when the client is gone, when it cannot read a message, or when
its channel is closed; the machine leaves open when this is, and whether a writer that ends
has failed.  A client that disconnects takes no more steps.  The end of a stream is seen by
the client when both threads have ended.
-/

namespace Thincan.UnixSocket

open Process

/-- A connection: the client, and the two threads of the server. -/
structure Conn where
  client : Client := {}
  /-- Bytes of the client that the reader has taken. -/
  taken : Nat := 0
  /-- Messages that the writer has written. -/
  sent : Nat := 0
  readerDone : Bool := false
  writerDone : Bool := false

/-- The stream of the server has ended. -/
def Conn.closed (cn : Conn) : Bool := cn.readerDone && cn.writerDone

/-- Clients, threads and channels. -/
structure System where
  /-- Connections so far. -/
  accepted : Nat := 0
  conns : Nat → Conn := fun _ ↦ {}
  /-- The commands that wait for the bus thread. -/
  queue : List Command := []
  /-- The commands that the bus thread has handled. -/
  handled : List Command := []
  bus : Bus := {}

/-- The id of connection number `k`. -/
def connId (k : Nat) : ClientId := UInt64.ofNat (k + 1)

/-- Ids do not repeat before the counter does. -/
theorem connId_inj {j k : Nat} (hj : j < 2 ^ 64) (hk : k < 2 ^ 64) (h : connId j = connId k) :
    j = k := by
  have hmod := congrArg UInt64.toNat h
  rw [connId, connId, UInt64.toNat_ofNat', UInt64.toNat_ofNat'] at hmod
  omega

/-- Who takes a step. -/
inductive Action where
  | /-- `accept_loop` has a new connection. -/
    accept
  | client (k : Nat) (l : Label)
  | /-- `client_reader_loop` has a message. -/
    reader (k : Nat)
  | readerEnd (k : Nat)
  | /-- `client_writer_loop` writes a message. -/
    writer (k : Nat)
  | writerEnd (k : Nat) (failed : Bool)
  | /-- `bus_loop` handles a command, and walks the clients in the order given. -/
    bus (order : List ClientId)

namespace System

variable (s : System)

/-- All commands, in order. -/
def commands : List Command := s.handled ++ s.queue

def setConn (k : Nat) (cn : Conn) : System := { s with conns := Function.update s.conns k cn }

/-- `cmd_tx.send`. -/
def push (cmds : List Command) : System := { s with queue := s.queue ++ cmds }

/-- `handle_client`. -/
def accept : System := { s with accepted := s.accepted + 1 }.push [.addClient (connId s.accepted)]

/-- The client takes a step. -/
def stepClient (k : Nat) (l : Label) : Option System :=
  if (s.conns k).client.lossless (s.conns k).closed l then
    ((s.conns k).client.step l).map fun c ↦ s.setConn k { s.conns k with client := c }
  else none

/-- The loop of the reader ends with `RemoveClient`. -/
def stopReader (k : Nat) : System :=
  (s.setConn k { s.conns k with readerDone := true }).push [.removeClient (connId k)]

/-- The body of `client_reader_loop`. -/
def stepReader (k : Nat) : Option System :=
  match readMsg ((s.conns k).client.written.drop (s.conns k).taken) with
  | .incomplete => none
  | .tooLong => some (s.stopReader k)
  | .message msgType payload _ =>
      let s' := s.setConn k { s.conns k with taken := (s.conns k).taken + (5 + payload.length) }
      match readCommand (connId k) msgType payload with
      | .command cmd => some (s'.push [cmd])
      | .skip => some s'
      | .stop => some (s'.stopReader k)
      | .panic => some (s'.setConn k { s'.conns k with readerDone := true })

/-- The body of `client_writer_loop`. -/
def stepWriter (k : Nat) : Option System :=
  ((s.bus.out (connId k))[(s.conns k).sent]?).map fun msg ↦
    s.setConn k { s.conns k with
      sent := (s.conns k).sent + 1
      client := { (s.conns k).client with unread := (s.conns k).client.unread ++ msg.encode } }

/-- The loop of the writer ends, with `RemoveClient` if it has failed. -/
def stopWriter (k : Nat) (failed : Bool) : System :=
  (s.setConn k { s.conns k with writerDone := true }).push
    (if failed then [.removeClient (connId k)] else [])

/-- The body of `bus_loop`. -/
def stepBus (order : List ClientId) : Option System :=
  match s.queue with
  | [] => none
  | cmd :: queue =>
      if order.Perm s.bus.clients.keys then
        some { s with
          queue := queue, handled := s.handled ++ [cmd], bus := s.bus.handleCommand order cmd }
      else none

/-- A step of the system. -/
def step : Action → Option System
  | .accept => some s.accept
  | .client k l => if k < s.accepted then s.stepClient k l else none
  | .reader k => if k < s.accepted ∧ (s.conns k).readerDone = false then s.stepReader k else none
  | .readerEnd k =>
      if k < s.accepted ∧ (s.conns k).readerDone = false then some (s.stopReader k) else none
  | .writer k => if k < s.accepted ∧ (s.conns k).writerDone = false then s.stepWriter k else none
  | .writerEnd k failed =>
      if k < s.accepted ∧ (s.conns k).writerDone = false then some (s.stopWriter k failed) else none
  | .bus order => s.stepBus order

end System

/-- Clients and server as a machine. -/
def systemMachine : Machine System Action where
  step s a := s.step a

end Thincan.UnixSocket

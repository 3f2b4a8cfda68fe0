import Thincan.Process.Machine
import Thincan.UnixSocket.Wire

/-!
# The client of the Unix-socket bus

`embedded-can-unix-socket/src/client.rs`.  A `UnixCan` is used by one call at a time.  What a
call does between two system calls is a function; the answers of the socket (how many bytes
were read or written, `WouldBlock`, an error, the outcome of a `poll`) are the labels of a
machine.  Looking at the next message in the buffer is a step of its own.

Bytes that the server has sent and the client has not read are `unread`.  A deadline can pass
at every `poll` of a call that has one.

The filters can also be changed through a `FilterHandle`; dropping it is `set_filters` with
its result thrown away.
-/

namespace Thincan.UnixSocket

open Process

/-! ## Errors and messages -/

/-- `io::ErrorKind`, as far as the client tells kinds apart. -/
inductive IoErrorKind where
  | wouldBlock
  | timedOut
  | interrupted
  | other
deriving DecidableEq, Repr

/-- `UnixCanError`. -/
inductive UnixCanError where
  | io (kind : IoErrorKind)
  | protocol (msg : String)
  | timeout
  | wouldBlock
  | disconnected
  | noAck
deriving DecidableEq, Repr

/-- `From<io::Error>`. -/
def UnixCanError.ofIo : IoErrorKind → UnixCanError
  | .wouldBlock => .wouldBlock
  | .timedOut => .timeout
  | kind => .io kind

/-- `DecodedMsg`. -/
inductive DecodedMsg where
  | frame (frame : UnixFrame)
  | ack (seq : UInt64) (status : UInt8)
  | filtersAck (seq : UInt64) (status : UInt8)
  | hello
  | unknown
deriving DecidableEq, Repr

/-- The callback of `next_decoded_msg`. -/
def decodeMsg (msgType : UInt8) (payload : Bytes) : Except UnixCanError DecodedMsg :=
  if msgType = msgFrame then
    match decodeFrame payload with
    | .ok frame => .ok (.frame frame)
    | .error e => .error (.protocol e)
  else if msgType = msgAck then
    match decodeAck payload with
    | .ok (seq, status) => .ok (.ack seq status)
    | .error e => .error (.protocol e)
  else if msgType = msgFiltersAck then
    match decodeAck payload with
    | .ok (seq, status) => .ok (.filtersAck seq status)
    | .error e => .error (.protocol e)
  else if msgType = msgHello then .ok .hello
  else .ok .unknown

/-! ## The receive buffer -/

/-- `UnixCan`, less its socket. -/
structure UnixCan where
  rxQueue : List UnixFrame := []
  rxBytes : Bytes := []
  rxOff : Nat := 0
  nextSeq : UInt64 := 1
  filters : List IdMaskFilter := []
  off_le : rxOff ≤ rxBytes.length := by exact Nat.zero_le _

namespace UnixCan

variable (c : UnixCan)

/-- `rx_bytes[rx_off..]`. -/
def buffered : Bytes := c.rxBytes.drop c.rxOff

/-- `rx_bytes.extend_from_slice`. -/
def extend (bs : Bytes) : UnixCan :=
  { c with
    rxBytes := c.rxBytes ++ bs
    off_le := Nat.le_trans c.off_le (List.length_append ▸ Nat.le_add_right ..) }

/-- `rx_queue.push_back`. -/
def pushBack (frame : UnixFrame) : UnixCan := { c with rxQueue := c.rxQueue ++ [frame] }

/-- The end of `with_next_msg`: the message is passed over, and a buffer that is mostly behind
us is drained. -/
def advance (total : Nat) (h : c.rxOff + total ≤ c.rxBytes.length) : UnixCan :=
  if c.rxOff + total ≥ 4096 ∧ c.rxOff + total ≥ c.rxBytes.length / 2 then
    { c with rxBytes := c.rxBytes.drop (c.rxOff + total), rxOff := 0, off_le := Nat.zero_le _ }
  else { c with rxOff := c.rxOff + total, off_le := h }

/-- `with_next_msg`. -/
def withNextMsg {R : Type} (f : UInt8 → Bytes → Except UnixCanError R) :
    Except UnixCanError (Option R) × UnixCan :=
  let avail := c.rxBytes.length - c.rxOff
  if avail < 5 then (.ok none, c)
  else
    let base := c.rxOff
    let msgType := c.rxBytes.getD base 0
    let len := leNat ((c.rxBytes.drop (base + 1)).take 4)
    if len > maxPayloadLen then (.error (.protocol "payload exceeds limit"), c)
    else
      let total := 5 + len
      if h : avail < total then (.ok none, c)
      else
        match f msgType ((c.rxBytes.drop (base + 5)).take len) with
        | .error e => (.error e, c)
        | .ok out => (.ok (some out), c.advance total (by omega))

/-- `next_decoded_msg`. -/
def nextDecodedMsg : Except UnixCanError (Option DecodedMsg) × UnixCan := c.withNextMsg decodeMsg

end UnixCan

/-! ## Calls -/

/-- What a call returns: `Ok(())` is `ok none`. -/
abbrev Ret := Except UnixCanError (Option UnixFrame)

/-- The calls on a `UnixCan`. -/
inductive Call where
  | connect
  | send (frame : UnixFrame)
  | trySend (frame : UnixFrame)
  | sendTimeout (frame : UnixFrame)
  | setFilters (filters : List IdMaskFilter)
  | recv
  | tryRecv
  | recvTimeout
  | waitNotEmpty
deriving DecidableEq, Repr

/-- What a call has to see among the messages of the server. -/
inductive Goal where
  | /-- `wait_for_hello`. -/
    hello
  | /-- `wait_for_filters_ack`, which is always called without a timeout. -/
    filtersAck (seq : UInt64)
  | /-- `wait_for_ack`. -/
    ack (seq : UInt64) (timed : Bool)
  | /-- The loops of `recv` and `recv_timeout`. -/
    frame (timed : Bool)
  | /-- The loop of `try_recv`. -/
    buffered
deriving DecidableEq, Repr

/-- The call has a deadline. -/
def Goal.timed : Goal → Bool
  | .ack _ timed => timed
  | .frame timed => timed
  | _ => false

/-- What a waiting call does with a message. -/
inductive Reaction where
  | queue (frame : UnixFrame)
  | skip
  | ret (r : Ret)
deriving DecidableEq

/-- The body of the loop in `wait_for_hello`. -/
def waitForHello : DecodedMsg → Reaction
  | .hello => .ret (.ok none)
  | .frame frame => .queue frame
  | _ => .skip

/-- The body of the loop in `wait_for_filters_ack`. -/
def waitForFiltersAck (seq : UInt64) : DecodedMsg → Reaction
  | .filtersAck ackSeq status =>
      if ackSeq = seq then
        .ret (if status = ackOk then .ok none
          else if status = ackServerErr then .error (.protocol "server error")
          else .error (.protocol "filters ack failed"))
      else .skip
  | .frame frame => .queue frame
  | _ => .skip

/-- The body of the loop in `wait_for_ack`. -/
def waitForAck (seq : UInt64) : DecodedMsg → Reaction
  | .ack ackSeq status =>
      if ackSeq = seq then
        .ret (if status = ackOk then .ok none
          else if status = ackNoAck then .error .noAck
          else if status = ackBadFrame then .error (.protocol "bad frame")
          else if status = ackServerErr then .error (.protocol "server error")
          else .error (.protocol "unknown ack status"))
      else .skip
  | .frame frame => .queue frame
  | _ => .skip

/-- The body of the loops in `recv`, `try_recv` and `recv_timeout`. -/
def recvFrame : DecodedMsg → Reaction
  | .frame frame => .ret (.ok (some frame))
  | _ => .skip

/-- What a waiting call does with a message. -/
def Goal.react : Goal → DecodedMsg → Reaction
  | .hello => waitForHello
  | .filtersAck seq => waitForFiltersAck seq
  | .ack seq _ => waitForAck seq
  | .frame _ => recvFrame
  | .buffered => recvFrame

/-- Where a call stands: before a system call, or about to look at the buffer. -/
inductive Pc where
  | /-- `write` of `bytes`, which are not empty, in `write_all_deadline`; then `later`. -/
    writing (bytes : Bytes) (later : List Bytes) (goal : Option Goal)
  | /-- `wait_writable`. -/
    pollOut (bytes : Bytes) (later : List Bytes) (goal : Option Goal)
  | /-- `next_decoded_msg`. -/
    scanning (goal : Goal)
  | /-- `read` in `read_more_once`. -/
    reading (goal : Goal)
  | /-- `wait_readable`. -/
    pollIn (goal : Goal)
  | /-- `wait_readable` in `wait_not_empty`. -/
    pollReady
deriving DecidableEq

/-- Where the code of a call goes next. -/
inductive Next where
  | goto (pc : Pc)
  | ret (r : Ret)
deriving DecidableEq

/-- The heads of the two loops of `write_msg_deadline`: parts that are empty are written. -/
def writeNext : List Bytes → Option Goal → Next
  | [], none => .ret (.ok none)
  | [], some goal => .goto (.scanning goal)
  | part :: later, goal => if part.isEmpty then writeNext later goal else .goto (.writing part later goal)

/-- `write_msg_deadline`, up to its first `write`. -/
def writeMsgDeadline (msgType : UInt8) (payload : Bytes) (goal : Option Goal) : Next :=
  if payload.length > 0xFFFFFFFF then .ret (.error (.protocol "payload too large"))
  else writeNext [msgType :: leBytes 4 payload.length, payload] goal

/-- The heads of `recv`, `try_recv` and `recv_timeout`: a frame that is queued, or `pc`. -/
def popOr (c : UnixCan) (pc : Pc) : UnixCan × Next :=
  match c.rxQueue with
  | frame :: rest => ({ c with rxQueue := rest }, .ret (.ok (some frame)))
  | [] => (c, .goto pc)

/-- The sequence number is taken, and a message with it is written. -/
def writeNumbered (c : UnixCan) (msgType : UInt8) (payload : UInt64 → Bytes)
    (goal : UInt64 → Option Goal) : UnixCan × Next :=
  ({ c with nextSeq := c.nextSeq + 1 },
    writeMsgDeadline msgType (payload c.nextSeq) (goal c.nextSeq))

/-- A call up to its first system call. -/
def Call.start (c : UnixCan) : Call → UnixCan × Next
  | .connect => (c, .goto (.scanning .hello))
  | .send frame =>
      writeNumbered c msgSendFrame (fun seq ↦ encodeSendFrameInto ⟨seq, true, frame⟩)
        fun seq ↦ some (.ack seq false)
  | .trySend frame =>
      writeNumbered c msgSendFrame (fun seq ↦ encodeSendFrameInto ⟨seq, false, frame⟩) fun _ ↦ none
  | .sendTimeout frame =>
      writeNumbered c msgSendFrame (fun seq ↦ encodeSendFrameInto ⟨seq, true, frame⟩)
        fun seq ↦ some (.ack seq true)
  | .setFilters filters =>
      writeNumbered { c with filters := filters } msgSetFilters (fun seq ↦ encodeFilters seq filters)
        fun seq ↦ some (.filtersAck seq)
  | .recv => popOr c (.scanning (.frame false))
  | .tryRecv => popOr c (.reading .buffered)
  | .recvTimeout => popOr c (.scanning (.frame true))
  | .waitNotEmpty => (c, if c.rxQueue.isEmpty then .goto .pollReady else .ret (.ok none))

/-- What the caller sees.  `connect` returns an `io::Error`. -/
def Call.result : Call → Ret → Ret
  | .connect, .error (.io kind) => .error (.io kind)
  | .connect, .error _ => .error (.io .other)
  | _, r => r

/-! ## The machine -/

/-- What the socket answers, and the caller's next call. -/
inductive Label where
  | call (call : Call)
  | /-- `write` has taken `n` bytes. -/
    wrote (n : Nat)
  | writeFailed (kind : IoErrorKind)
  | /-- The code goes on with the buffer. -/
    scan
  | /-- `read` has delivered `n` bytes; none at the end of the stream. -/
    read (n : Nat)
  | readFailed (kind : IoErrorKind)
  | /-- `poll` has found the socket ready. -/
    ready
  | /-- The deadline has passed, at a `poll` or before it. -/
    timeout
  | pollFailed (kind : IoErrorKind)
deriving DecidableEq, Repr

/-- A client, its socket and its caller. -/
structure Client where
  can : UnixCan := {}
  /-- The call that is going on, and where it stands. -/
  task : Option (Call × Pc) := some (.connect, .scanning .hello)
  /-- Sent by the server and not yet read. -/
  unread : Bytes := []
  /-- Everything that was written. -/
  written : Bytes := []
  /-- The calls that have returned, and what they returned. -/
  log : List (Call × Ret) := []

namespace Client

variable (c : Client)

/-- `connect` has returned a `UnixCan`. -/
def connected : Bool := c.log.head? = some (.connect, .ok none)

/-- The call goes on at `next`. -/
def go (call : Call) : Next → Client
  | .goto pc => { c with task := some (call, pc) }
  | .ret r => { c with task := none, log := c.log ++ [(call, call.result r)] }

/-- The call begins. -/
def begin (call : Call) : Client :=
  { c with can := (call.start c.can).1 }.go call (call.start c.can).2

/-- `write` has taken `n` bytes. -/
def onWrote (call : Call) (bytes : Bytes) (later : List Bytes) (goal : Option Goal) (n : Nat) :
    Option Client :=
  if n > bytes.length then none
  else if n = 0 then some (c.go call (.ret (.error .disconnected)))
  else
    some ({ c with written := c.written ++ bytes.take n }.go call
      (writeNext (bytes.drop n :: later) goal))

/-- `write` has failed. -/
def onWriteFailed (call : Call) (bytes : Bytes) (later : List Bytes) (goal : Option Goal) :
    IoErrorKind → Client
  | .wouldBlock => c.go call (.goto (.pollOut bytes later goal))
  | .interrupted => c
  | kind => c.go call (.ret (.error (.ofIo kind)))

/-- A message was taken off the buffer. -/
def onMsg (call : Call) (goal : Goal) (msg : DecodedMsg) (can : UnixCan) : Client :=
  match goal.react msg with
  | .queue frame => { c with can := can.pushBack frame }
  | .skip => { c with can := can }
  | .ret r => { c with can := can }.go call (.ret r)

/-- The next message in the buffer is looked at. -/
def onScan (call : Call) (goal : Goal) : Client :=
  match c.can.nextDecodedMsg with
  | (.error e, can) => { c with can := can }.go call (.ret (.error e))
  | (.ok none, can) =>
      { c with can := can }.go call
        (if goal = Goal.buffered then .ret (.error .wouldBlock) else .goto (.reading goal))
  | (.ok (some msg), can) => c.onMsg call goal msg can

/-- `read` has delivered `n` bytes. -/
def onRead (call : Call) (goal : Goal) (n : Nat) : Option Client :=
  if n = 0 then
    if c.unread.isEmpty then some (c.go call (.ret (.error .disconnected))) else none
  else if n ≤ 4096 ∧ n ≤ c.unread.length then
    some ({ c with can := c.can.extend (c.unread.take n), unread := c.unread.drop n }.go call
      (.goto (.scanning goal)))
  else none

/-- `read` has failed. -/
def onReadFailed (call : Call) (goal : Goal) : IoErrorKind → Client
  | .wouldBlock => c.go call (.goto (if goal = Goal.buffered then .scanning goal else .pollIn goal))
  | kind => c.go call (.ret (.error (.ofIo kind)))

/-- `poll` has failed. -/
def onPollFailed (call : Call) : IoErrorKind → Client
  | .interrupted => c
  | kind => c.go call (.ret (.error (.io kind)))

/-- The deadline has passed, if there is one. -/
def onTimeout (call : Call) (timed : Bool) : Option Client :=
  if timed then some (c.go call (.ret (.error .timeout))) else none

/-- A call goes on with the answer of the socket. -/
def resume (call : Call) : Pc → Label → Option Client
  | .writing bytes later goal, .wrote n => c.onWrote call bytes later goal n
  | .writing bytes later goal, .writeFailed kind => some (c.onWriteFailed call bytes later goal kind)
  | .pollOut bytes later goal, .ready => some (c.go call (.goto (.writing bytes later goal)))
  | .pollOut _ _ goal, .timeout => c.onTimeout call (goal.any Goal.timed)
  | .pollOut .., .pollFailed kind => some (c.onPollFailed call kind)
  | .scanning goal, .scan => some (c.onScan call goal)
  | .reading goal, .read n => c.onRead call goal n
  | .reading goal, .readFailed kind => some (c.onReadFailed call goal kind)
  | .pollIn goal, .ready => some (c.go call (.goto (.scanning goal)))
  | .pollIn goal, .timeout => c.onTimeout call goal.timed
  | .pollIn _, .pollFailed kind => some (c.onPollFailed call kind)
  | .pollReady, .ready => some (c.go call (.ret (.ok none)))
  | .pollReady, .pollFailed kind => some (c.onPollFailed call kind)
  | _, _ => none

/-- One step: a new call, or the one that is going on. -/
def step (l : Label) : Option Client :=
  match c.task, l with
  | none, .call .connect => none
  | none, .call call => if c.connected then some (c.begin call) else none
  | some (call, pc), l => c.resume call pc l
  | none, _ => none

end Client

/-- A client and its socket as a machine. -/
def clientMachine : Machine Client Label where
  step c l := c.step l

/-- A client that begins to connect to a server that will send `stream`. -/
def Client.start (stream : Bytes) : Client := { unread := stream }

end Thincan.UnixSocket

import Thincan.Bus.Wire
import Thincan.Process.Machine

/-!
# Receiving from kernel sockets

The four ways to receive a payload in `linux-socketcan-iso-tp/src/linux.rs`:
`SocketCanIsoTp::recv_one`, `TokioSocketCanIsoTp::recv_one` and `KernelUdsDemux::recv_one`, which
read into the buffer of the socket and hand it to a callback, and
`TokioSocketCanIsoTp::recv_one_into`, which reads into the slice of the caller.

A socket is a queue of PDUs.  `recv` takes the first one, copies what fits into the buffer and
drops the rest; the value it returns is the length of the PDU with `MSG_TRUNC`, and without it the
length of what was copied.  Everything else is left to the environment: when a PDU arrives, which
system calls fail or are interrupted, what `poll` and `readable` say, when the time is up, what
the callback answers.

Of the four, `recv_one_into` alone passes `MSG_TRUNC`.  The others cannot see that a PDU was cut
off, and `received_whole_iff` says that this is the only flaw: up to the empty PDU, whose length
all four take for the end of the stream, a payload is whole or refused if it fits or the path is
`recv_one_into`.
-/

namespace Thincan.IsoTp

open Process

/-! ## Sockets -/

/-- `io::ErrorKind`, as far as the code looks at it. -/
inductive IoErrorKind where
  | wouldBlock
  | interrupted
  | unexpectedEof
  | other
deriving DecidableEq, Repr

/-- `RecvError`. -/
inductive RecvError where
  | bufferTooSmall (needed got : Nat)
  | backend (kind : IoErrorKind)
  | /-- `Backend`, with the error of the callback. -/
    callback
deriving DecidableEq, Repr

/-- `RecvStatus`, or an error. -/
inductive Ret where
  | deliveredOne
  | timedOut
  | error (e : RecvError)
deriving DecidableEq, Repr

/-- `libc::recv` of a PDU: the value returned, and the buffer afterwards. -/
def recv (trunc : Bool) (buf pdu : Bytes) : Nat × Bytes :=
  (if trunc then pdu.length else min pdu.length buf.length,
    pdu.take buf.length ++ buf.drop pdu.length)

theorem length_recv (trunc : Bool) (buf pdu : Bytes) : (recv trunc buf pdu).2.length = buf.length := by
  rw [recv, List.length_append, List.length_take, List.length_drop]
  omega

/-- `SocketCanIsoTp`, with the PDUs that wait for it in the kernel. -/
structure SocketCanIsoTp (maxRxPayload : Nat) where
  rxBuf : Bytes := List.replicate maxRxPayload 0
  length_rxBuf : rxBuf.length = maxRxPayload := by exact List.length_replicate
  queue : List Bytes := []

/-- `PeerSocket`.  The one socket of an endpoint that is no demux has the address 0, which is the
`reply_to` of its payloads. -/
structure PeerSocket (maxRxPayload : Nat) where
  addr : UInt8
  socket : SocketCanIsoTp maxRxPayload := {}

/-- What became of a PDU: the payload delivered, with its `reply_to`, and the result of the call. -/
structure Taken where
  pdu : Bytes
  delivered : Option (UInt8 × Bytes)
  result : Ret
deriving DecidableEq, Repr

/-- `recv_one_ready` and the body of `SocketCanIsoTp::recv_one`, once `recv` has a PDU.  The
callback accepts the payload, or fails. -/
def takeOne (addr : UInt8) (rxBuf pdu : Bytes) (accepts : Bool) : Taken × Bytes :=
  let read := (recv false rxBuf pdu).1
  let rxBuf := (recv false rxBuf pdu).2
  if read = 0 then (⟨pdu, none, .error (.backend .unexpectedEof)⟩, rxBuf)
  else
    (⟨pdu, some (addr, rxBuf.take read), if accepts then .deliveredOne else .error .callback⟩, rxBuf)

/-- `recv_one_into`, once `recv` has a PDU. -/
def takeInto (addr : UInt8) (out pdu : Bytes) : Taken :=
  let read := (recv true out pdu).1
  let filled := (recv true out pdu).2
  if read = 0 then ⟨pdu, none, .error (.backend .unexpectedEof)⟩
  else if read > out.length then ⟨pdu, none, .error (.bufferTooSmall read out.length)⟩
  else ⟨pdu, some (addr, filled.take read), .deliveredOne⟩

/-! ## Endpoints -/

/-- The endpoints of the crate. -/
inductive Endpoint where
  | socket
  | tokio
  | demux (localAddr : UInt8)
deriving DecidableEq, Repr

/-- The calls that receive. -/
inductive Path where
  | recvOne
  | tokioRecvOne
  | recvOneInto (out : Bytes)
  | demuxRecvOne
deriving DecidableEq, Repr

/-- Where a call is. -/
inductive Pc where
  | /-- Before `recv` on a socket. -/
    receiving (i : Nat)
  | /-- Before the look at the deadline. -/
    clock
  | /-- In `poll_fd` or `poll_fds`. -/
    polling
  | /-- In `readable().await`. -/
    waiting
deriving DecidableEq, Repr

/-- `revents` of a socket: `POLLIN`, and one of `POLLERR`, `POLLHUP` and `POLLNVAL`. -/
structure Revents where
  input : Bool
  error : Bool
deriving DecidableEq, Repr

/-- What the environment does. -/
inductive Label where
  | arrive (i : Nat) (pdu : Bytes)
  | /-- `register_peer`, where the socket can be opened. -/
    register (peer : UInt8)
  | call (path : Path)
  | /-- `recv` looks into the queue; the callback accepts a payload, or fails. -/
    recv (accepts : Bool)
  | recvFailed (kind : IoErrorKind)
  | clock (past : Bool)
  | poll (ready : Bool)
  | polls (revents : List Revents)
  | pollFailed (kind : IoErrorKind)
  | readable
  | readableFailed (kind : IoErrorKind)
  | /-- The time of `tokio::time::timeout` is up. -/
    expire
deriving DecidableEq, Repr

/-- A call goes on, or returns. -/
inductive Next where
  | again (pc : Pc)
  | ret (r : Ret)

/-- An endpoint with its sockets, the call that runs, and what became of the PDUs so far. -/
structure Host (maxRxPayload : Nat) where
  endpoint : Endpoint
  peers : List (PeerSocket maxRxPayload)
  task : Option (Path × Pc) := none
  log : List Taken := []
  returned : List Ret := []

/-- The calls of an endpoint. -/
def Endpoint.offers : Endpoint → Path → Bool
  | .socket, .recvOne | .tokio, .tokioRecvOne | .tokio, .recvOneInto _ | .demux _, .demuxRecvOne => true
  | _, _ => false

/-- `recv` has failed. -/
def Path.onError : Path → IoErrorKind → Next
  | .recvOne, .interrupted => .again (.receiving 0)
  | .recvOne, .wouldBlock => .again .clock
  | .tokioRecvOne, .wouldBlock => .again .waiting
  | .recvOneInto _, .interrupted | .recvOneInto _, .wouldBlock => .again .waiting
  | .demuxRecvOne, .wouldBlock => .ret .timedOut
  | _, kind => .ret (.error (.backend kind))

/-- The loop over the sockets in `KernelUdsDemux::recv_one`, from index `i` on. -/
def scanLoop : Nat → List Revents → Next
  | _, [] => .ret .timedOut
  | i, fd :: fds =>
      if fd.input then .again (.receiving i)
      else if fd.error then .ret (.error (.backend .other))
      else scanLoop (i + 1) fds

namespace Host

variable {maxRxPayload : Nat} (h : Host maxRxPayload)

/-- The call goes on, or returns. -/
def go (path : Path) : Next → Host maxRxPayload
  | .again pc => { h with task := some (path, pc) }
  | .ret r => { h with task := none, returned := h.returned ++ [r] }

/-- The first steps of a call. -/
def start (path : Path) : Next :=
  match path with
  | .recvOne | .tokioRecvOne => .again (.receiving 0)
  | .recvOneInto _ => .again .waiting
  | .demuxRecvOne => if h.peers.isEmpty then .ret .timedOut else .again .polling

/-- `ensure_peer`. -/
def ensurePeer (localAddr peer : UInt8) : Host maxRxPayload :=
  if peer = localAddr ∨ h.peers.any (·.addr = peer) then h
  else { h with peers := h.peers ++ [{ addr := peer }] }

/-- A PDU arrives at a socket. -/
def arrive (i : Nat) (pdu : Bytes) : Host maxRxPayload :=
  { h with
    peers := h.peers.modify i fun p ↦ { p with socket := { p.socket with queue := p.socket.queue ++ [pdu] } } }

end Host

/-- A socket as it is opened. -/
def PeerSocket.new {maxRxPayload : Nat} (addr : UInt8) : PeerSocket maxRxPayload := { addr }

theorem length_takeOne (addr : UInt8) (rxBuf pdu : Bytes) (accepts : Bool) :
    (takeOne addr rxBuf pdu accepts).2.length = rxBuf.length := by
  rw [takeOne]
  split
  · exact length_recv false rxBuf pdu
  · exact length_recv false rxBuf pdu

/-- A call takes a PDU from a socket: what becomes of it, and the socket afterwards. -/
def PeerSocket.take {maxRxPayload : Nat} (p : PeerSocket maxRxPayload) (path : Path) (pdu : Bytes)
    (rest : List Bytes) (accepts : Bool) : Taken × PeerSocket maxRxPayload :=
  match path with
  | .recvOneInto out =>
      (takeInto p.addr out pdu, { p with socket := { p.socket with queue := rest } })
  | _ =>
      ((takeOne p.addr p.socket.rxBuf pdu accepts).1,
        { p with
          socket :=
            { rxBuf := (takeOne p.addr p.socket.rxBuf pdu accepts).2
              length_rxBuf := (length_takeOne ..).trans p.socket.length_rxBuf
              queue := rest } })

namespace Host

variable {maxRxPayload : Nat} (h : Host maxRxPayload)

/-- `recv` on socket `i`. -/
def stepRecv (path : Path) (i : Nat) (accepts : Bool) : Option (Host maxRxPayload) :=
  (h.peers[i]?).map fun p ↦
    match p.socket.queue with
    | [] => h.go path (path.onError .wouldBlock)
    | pdu :: rest =>
        { h with
          peers := h.peers.set i (p.take path pdu rest accepts).2
          log := h.log ++ [(p.take path pdu rest accepts).1] }.go path
            (.ret (p.take path pdu rest accepts).1.result)

/-- A call goes on. -/
def resume (path : Path) : Pc → Label → Option (Host maxRxPayload)
  | .receiving i, .recv accepts => h.stepRecv path i accepts
  | .receiving _, .recvFailed kind => some (h.go path (path.onError kind))
  | .clock, .clock past => some (h.go path (if past then .ret .timedOut else .again .polling))
  | .polling, .poll ready =>
      if path = .recvOne then
        some (h.go path (if ready then .again (.receiving 0) else .ret .timedOut))
      else none
  | .polling, .polls revents =>
      if path = .demuxRecvOne ∧ revents.length = h.peers.length then some (h.go path (scanLoop 0 revents))
      else none
  | .polling, .pollFailed kind => some (h.go path (.ret (.error (.backend kind))))
  | .waiting, .readable => some (h.go path (.again (.receiving 0)))
  | .waiting, .readableFailed kind => some (h.go path (.ret (.error (.backend kind))))
  | .waiting, .expire => some (h.go path (.ret .timedOut))
  | _, _ => none

/-- A step of an endpoint. -/
def step (l : Label) : Option (Host maxRxPayload) :=
  match l, h.task with
  | .arrive i pdu, _ => some (h.arrive i pdu)
  | .register peer, none =>
      match h.endpoint with
      | .demux localAddr => some (h.ensurePeer localAddr peer)
      | _ => none
  | .call path, none => if h.endpoint.offers path then some (h.go path (h.start path)) else none
  | l, some (path, pc) => h.resume path pc l
  | _, none => none

end Host

/-- An endpoint as a machine. -/
def hostMachine (maxRxPayload : Nat) : Machine (Host maxRxPayload) Label where
  step h l := h.step l

/-! ## Whole or refused -/

/-- The payload is the PDU, or the call reports the length of the PDU. -/
def Taken.Whole (t : Taken) : Prop :=
  (∃ addr, t.delivered = some (addr, t.pdu)) ∨
    t.delivered = none ∧ ∃ got, t.result = .error (.bufferTooSmall t.pdu.length got)

/-- The call passes `MSG_TRUNC`. -/
def Path.msgTrunc : Path → Bool
  | .recvOneInto _ => true
  | .recvOne | .tokioRecvOne | .demuxRecvOne => false

/-- The PDU is not empty, and fits the buffer if `recv` gets no `MSG_TRUNC`. -/
def Path.Fits (maxRxPayload : Nat) (path : Path) (pdu : Bytes) : Prop :=
  pdu ≠ [] ∧ (path.msgTrunc = true ∨ pdu.length ≤ maxRxPayload)

instance (maxRxPayload : Nat) (path : Path) (pdu : Bytes) : Decidable (path.Fits maxRxPayload pdu) :=
  inferInstanceAs (Decidable (pdu ≠ [] ∧ (path.msgTrunc = true ∨ pdu.length ≤ maxRxPayload)))

variable {maxRxPayload : Nat}

/-- The first bytes of the buffer are those of the PDU, as many as fit. -/
theorem take_recv (trunc : Bool) (buf pdu : Bytes) :
    (recv trunc buf pdu).2.take (min pdu.length buf.length) = pdu.take buf.length := by
  have hlen : min pdu.length buf.length = (pdu.take buf.length).length := by
    rw [List.length_take, Nat.min_comm]
  rw [recv, hlen]
  exact List.take_left

theorem not_whole_of_eof {pdu : Bytes} : ¬Taken.Whole ⟨pdu, none, .error (.backend .unexpectedEof)⟩ := by
  rintro (⟨_, ⟨⟩⟩ | ⟨_, _, ⟨⟩⟩)

theorem takeOne_whole_iff (addr : UInt8) (rxBuf pdu : Bytes) (accepts : Bool) :
    (takeOne addr rxBuf pdu accepts).1.Whole ↔ pdu ≠ [] ∧ pdu.length ≤ rxBuf.length := by
  have hread : (recv false rxBuf pdu).1 = min pdu.length rxBuf.length := rfl
  rw [takeOne]
  split
  · next hzero =>
      refine iff_of_false not_whole_of_eof ?_
      rintro ⟨hne, hle⟩
      have hpos := List.length_pos_iff.mpr hne
      omega
  · next hpos =>
      have hne : pdu ≠ [] := by
        rintro rfl
        exact hpos (Nat.zero_min rxBuf.length)
      rw [hread, take_recv, and_iff_right hne]
      constructor
      · rintro (⟨_, heq⟩ | ⟨⟨⟩, _⟩)
        have hlen : (pdu.take rxBuf.length).length = pdu.length :=
          congrArg (fun payload ↦ payload.2.length) (Option.some.inj heq)
        rw [List.length_take] at hlen
        omega
      · intro hle
        refine .inl ⟨addr, ?_⟩
        rw [List.take_of_length_le hle]

theorem takeInto_whole_iff (addr : UInt8) (out pdu : Bytes) :
    (takeInto addr out pdu).Whole ↔ pdu ≠ [] := by
  have hread : (recv true out pdu).1 = pdu.length := rfl
  rw [takeInto, hread]
  split
  · next hzero => exact iff_of_false not_whole_of_eof fun hne ↦ hne (List.length_eq_zero_iff.mp hzero)
  · next hpos =>
      refine iff_of_true ?_ fun hnil ↦ hpos (List.length_eq_zero_iff.mpr hnil)
      split
      · exact .inr ⟨rfl, out.length, rfl⟩
      · next hle =>
          have hfits : pdu.length ≤ out.length := Nat.le_of_not_gt hle
          refine .inl ⟨addr, ?_⟩
          have htake := take_recv true out pdu
          rw [Nat.min_eq_left hfits, List.take_of_length_le hfits] at htake
          rw [htake]

/-- **A PDU is delivered whole or refused if it fits.** -/
theorem take_whole_iff (p : PeerSocket maxRxPayload) (path : Path) (pdu : Bytes) (rest : List Bytes)
    (accepts : Bool) : (p.take path pdu rest accepts).1.Whole ↔ path.Fits maxRxPayload pdu := by
  cases path with
  | recvOneInto out =>
      rw [Path.Fits, and_iff_left (.inl rfl)]
      exact takeInto_whole_iff p.addr out pdu
  | recvOne | tokioRecvOne | demuxRecvOne =>
      refine (takeOne_whole_iff p.addr p.socket.rxBuf pdu accepts).trans ?_
      rw [Path.Fits, p.socket.length_rxBuf]
      exact and_congr_right fun _ ↦ (or_iff_right nofun).symm

/-! ## Runs -/

/-- The PDU that `recv` takes now, and the call that takes it. -/
def Host.front (h : Host maxRxPayload) : Option (Path × Bytes) :=
  match h.task with
  | some (path, .receiving i) =>
      (h.peers[i]?).bind fun p ↦ p.socket.queue.head?.map fun pdu ↦ (path, pdu)
  | _ => none

/-- The PDU that a step takes fits. -/
def Fits (h : Host maxRxPayload) : Label → Prop
  | .recv _ => ∀ x ∈ h.front, x.1.Fits maxRxPayload x.2
  | _ => True

instance (h : Host maxRxPayload) : (l : Label) → Decidable (Fits h l)
  | .recv _ => inferInstanceAs (Decidable (∀ x ∈ h.front, x.1.Fits maxRxPayload x.2))
  | .arrive .. | .register _ | .call _ | .recvFailed _ | .clock _ | .poll _ | .polls _ | .pollFailed _
  | .readable | .readableFailed _ | .expire => inferInstanceAs (Decidable True)

/-- All PDUs so far were delivered whole or refused. -/
def AllWhole (h : Host maxRxPayload) : Prop := ∀ t ∈ h.log, t.Whole

variable {h h' : Host maxRxPayload}

theorem Host.log_go (path : Path) (next : Next) : (h.go path next).log = h.log := by
  cases next with
  | again | ret => rfl

theorem Host.log_stepRecv {path : Path} {i : Nat} {accepts : Bool}
    (htask : h.task = some (path, .receiving i)) (hs : h.stepRecv path i accepts = some h') :
    (h'.log = h.log ∧ h.front = none) ∨
      ∃ (p : PeerSocket maxRxPayload) (pdu : Bytes) (rest : List Bytes),
        h.front = some (path, pdu) ∧ h'.log = h.log ++ [(p.take path pdu rest accepts).1] := by
  obtain ⟨p, hp, rfl⟩ := Option.map_eq_some_iff.mp hs
  cases hqueue : p.socket.queue with
  | nil =>
      refine .inl ⟨log_go _ _, ?_⟩
      rw [front, htask]
      simp only [hp, hqueue, Option.bind_some, List.head?_nil, Option.map_none]
  | cons pdu rest =>
      refine .inr ⟨p, pdu, rest, ?_, log_go _ _⟩
      rw [front, htask]
      simp only [hp, hqueue, Option.bind_some, List.head?_cons, Option.map_some]

/-- A call that goes on takes a PDU only in `recv`. -/
theorem Host.log_resume {path : Path} {pc : Pc} {l : Label} (hl : ∀ accepts, l ≠ .recv accepts)
    (hs : h.resume path pc l = some h') : h'.log = h.log := by
  unfold resume at hs
  split at hs
  · exact absurd rfl (hl _)
  all_goals try (obtain rfl := Option.some.inj hs; exact log_go _ _)
  · obtain ⟨-, hs⟩ := Option.ite_none_right_eq_some.mp hs
    exact Option.some.inj hs ▸ log_go _ _
  · obtain ⟨-, hs⟩ := Option.ite_none_right_eq_some.mp hs
    exact Option.some.inj hs ▸ log_go _ _
  · cases hs

theorem Host.step_of_task {path : Path} {pc : Pc} {l : Label} (htask : h.task = some (path, pc))
    (hl : ∀ i pdu, l ≠ .arrive i pdu) : h.step l = h.resume path pc l := by
  unfold step
  rw [htask]
  cases l with
  | arrive i pdu => exact absurd rfl (hl i pdu)
  | _ => rfl

/-- Without a call, and when a PDU arrives, the log stays. -/
theorem Host.log_idle {l : Label} (hidle : h.task = none ∨ ∃ i pdu, l = .arrive i pdu)
    (hs : h.step l = some h') : h'.log = h.log ∧ ∀ accepts, l ≠ .recv accepts := by
  rcases hidle with hidle | ⟨i, pdu, rfl⟩
  · unfold step at hs
    rw [hidle] at hs
    cases l with
    | arrive i pdu => exact ⟨Option.some.inj hs ▸ rfl, nofun⟩
    | call path =>
        obtain ⟨-, hs⟩ := Option.ite_none_right_eq_some.mp hs
        exact ⟨Option.some.inj hs ▸ log_go _ _, nofun⟩
    | register peer =>
        cases hendpoint : h.endpoint with
        | socket | tokio =>
            rw [hendpoint] at hs
            cases hs
        | demux localAddr =>
            rw [hendpoint] at hs
            obtain rfl := Option.some.inj hs
            refine ⟨?_, nofun⟩
            rw [ensurePeer]
            split
            · rfl
            · rfl
    | _ => cases hs
  · exact ⟨Option.some.inj hs ▸ rfl, nofun⟩

theorem fits_of_ne_recv {l : Label} (hl : ∀ accepts, l ≠ .recv accepts) : Fits h l := by
  cases l with
  | recv accepts => exact absurd rfl (hl accepts)
  | _ => trivial

/-- **What a step adds to the log**: nothing, or the PDU that `recv` takes. -/
theorem Host.log_step {l : Label} (hs : h.step l = some h') :
    (h'.log = h.log ∧ Fits h l) ∨
      ∃ (accepts : Bool) (path : Path) (p : PeerSocket maxRxPayload) (pdu : Bytes) (rest : List Bytes),
        l = .recv accepts ∧ h.front = some (path, pdu) ∧
          h'.log = h.log ++ [(p.take path pdu rest accepts).1] := by
  by_cases hidle : h.task = none ∨ ∃ i pdu, l = .arrive i pdu
  · obtain ⟨hlog, hne⟩ := log_idle hidle hs
    exact .inl ⟨hlog, fits_of_ne_recv hne⟩
  · obtain ⟨htask, harrive⟩ := not_or.mp hidle
    obtain ⟨⟨path, pc⟩, htask⟩ := Option.ne_none_iff_exists'.mp htask
    rw [step_of_task htask fun i pdu heq ↦ harrive ⟨i, pdu, heq⟩] at hs
    by_cases hrecv : ∃ accepts, l = .recv accepts
    · obtain ⟨accepts, rfl⟩ := hrecv
      cases pc with
      | receiving i =>
          rcases log_stepRecv htask hs with ⟨hlog, hnone⟩ | ⟨p, pdu, rest, hfront, hlog⟩
          · refine .inl ⟨hlog, fun x hx ↦ ?_⟩
            rw [hnone] at hx
            cases hx
          · exact .inr ⟨accepts, path, p, pdu, rest, rfl, hfront, hlog⟩
      | clock | polling | waiting => cases hs
    · have hne : ∀ accepts, l ≠ .recv accepts := fun accepts heq ↦ hrecv ⟨accepts, heq⟩
      exact .inl ⟨log_resume hne hs, fits_of_ne_recv hne⟩

/-- A PDU more. -/
theorem allWhole_snoc {p : PeerSocket maxRxPayload} {path : Path} {pdu : Bytes} {rest : List Bytes}
    {accepts : Bool} (hlog : h'.log = h.log ++ [(p.take path pdu rest accepts).1]) (hw : AllWhole h) :
    AllWhole h' ↔ path.Fits maxRxPayload pdu := by
  rw [AllWhole, hlog, List.forall_mem_append, List.forall_mem_singleton, take_whole_iff]
  exact and_iff_right hw

/-- **When the payloads of a run are delivered whole or refused.**  For every endpoint with any
sockets, and every run of it, no PDU is cut off and each is delivered or reported with its length,
if and only if no PDU is empty, and those that a `recv_one` takes fit the buffer of the socket. -/
theorem received_whole_iff (endpoint : Endpoint) (peers : List (PeerSocket maxRxPayload))
    {ls : List Label} {h : Host maxRxPayload}
    (hrun : (hostMachine maxRxPayload).exec ⟨endpoint, peers, none, [], []⟩ ls = some h) :
    (hostMachine maxRxPayload).Along AllWhole ⟨endpoint, peers, none, [], []⟩ ls ↔
      (hostMachine maxRxPayload).Meets Fits ⟨endpoint, peers, none, [], []⟩ ls := by
  refine Machine.along_iff_meets (I := AllWhole) ?_ (fun _ ↦ id) ?_ nofun hrun
  · intro a l b ha hfits hs
    rcases Host.log_step hs with ⟨hlog, -⟩ | ⟨accepts, path, p, pdu, rest, rfl, hfront, hlog⟩
    · rw [AllWhole, hlog]
      exact ha
    · exact (allWhole_snoc hlog ha).mpr (hfits (path, pdu) hfront)
  · intro a l b ha hfits hs hb
    rcases Host.log_step hs with ⟨-, hfits'⟩ | ⟨accepts, path, p, pdu, rest, rfl, hfront, hlog⟩
    · exact hfits hfits'
    · refine hfits fun x hx ↦ ?_
      obtain rfl := Option.some.inj (hfront.symm.trans hx)
      exact (allWhole_snoc hlog ha).mp hb

/-- Two PDUs at an asynchronous socket: one that fits the buffer of the socket, and one that does
not fit the slice of the caller. -/
def fittingRun : List Label :=
  [.arrive 0 [1, 2], .call .tokioRecvOne, .recv true, .call (.recvOneInto [0]), .readable,
    .recvFailed .interrupted, .arrive 0 [3, 4, 5], .readable, .recv true]

theorem received_whole_fittingRun :
    (hostMachine 2).Along AllWhole ⟨.tokio, [{ addr := 0 }], none, [], []⟩ fittingRun := by
  have hrun : ((hostMachine 2).exec ⟨.tokio, [{ addr := 0 }], none, [], []⟩ fittingRun).isSome = true := by
    decide +kernel
  obtain ⟨h, hrun⟩ := Option.isSome_iff_exists.mp hrun
  exact (received_whole_iff .tokio [{ addr := 0 }] hrun).mpr (by decide +kernel)

/-- A PDU of three bytes at sockets with buffers of two: each `recv_one` delivers the first two. -/
theorem received_cut :
    (((hostMachine 2).exec ⟨.socket, [{ addr := 0 }], none, [], []⟩
        [.arrive 0 [1, 2, 3], .call .recvOne, .recv true]).map Host.log =
      some [⟨[1, 2, 3], some (0, [1, 2]), .deliveredOne⟩]) ∧
    (((hostMachine 2).exec ⟨.tokio, [{ addr := 0 }], none, [], []⟩
        [.arrive 0 [1, 2, 3], .call .tokioRecvOne, .recv true]).map Host.log =
      some [⟨[1, 2, 3], some (0, [1, 2]), .deliveredOne⟩]) ∧
    (((hostMachine 2).exec ⟨.demux 0x10, [{ addr := 0x20 }], none, [], []⟩
        [.arrive 0 [1, 2, 3], .call .demuxRecvOne, .polls [⟨true, false⟩], .recv true]).map Host.log =
      some [⟨[1, 2, 3], some (0x20, [1, 2]), .deliveredOne⟩]) ∧
    ∀ addr, ¬Taken.Whole ⟨[1, 2, 3], some (addr, [1, 2]), .deliveredOne⟩ := by
  refine ⟨by decide +kernel, by decide +kernel, by decide +kernel, ?_⟩
  rintro addr (⟨_, ⟨⟩⟩ | ⟨⟨⟩, _⟩)

end Thincan.IsoTp

import Thincan.IsoTp.Receive
import Thincan.UnixSocket.Wire

/-!
# Sending through kernel sockets

`SocketCanIsoTp::send_to`, `TokioSocketCanIsoTp::send_to` and `KernelUdsDemux::send_to` of
`linux-socketcan-iso-tp/src/linux.rs`, beside the calls that receive: an endpoint is borrowed by
one call at a time.

`send` takes the whole payload or nothing, so a call that goes round its loop does not send twice.
What is on the bus from a station are the payloads of its calls that have returned `Ok`, each once
and in the order of the calls (`Station.Sent.onBus`): not of one that timed out, was dropped or has
failed, however often it has tried.

The identifiers of the frames are those the socket was opened with.  A demux makes them up from two
addresses with the crate `can-uds`; what is used of it is `Uds29`.
-/

namespace Thincan.IsoTp

open Process UnixSocket

/-! ## Identifiers -/

/-- `uds29` of the crate `can-uds`: normal-fixed addressing, `0x18DA_TA_SA`. -/
structure Uds29 where
  encodePhysIdRaw : (target source : UInt8) → UInt32
  le : ∀ target source, (encodePhysIdRaw target source).toNat ≤ 0x1FFFFFFF
  inj : Function.Injective2 encodePhysIdRaw

/-- `uds_phys_id`. -/
def Uds29.physId (u : Uds29) (target source : UInt8) : Id :=
  .extended ⟨u.encodePhysIdRaw target source, u.le target source⟩

theorem Uds29.physId_inj (u : Uds29) {t s t' s' : UInt8} :
    u.physId t s = u.physId t' s' ↔ t = t' ∧ s = s' := by
  constructor
  · intro h
    exact u.inj (ExtendedId.mk.inj (Id.extended.inj h))
  · rintro ⟨rfl, rfl⟩
    rfl

/-- The identifiers a socket is opened with. -/
structure Ports where
  rx : Id
  tx : Id
deriving DecidableEq, Repr

/-- The identifiers of the socket with the address `addr`; those of an endpoint that is no demux
were given when it was opened. -/
def Endpoint.portsOf (u : Uds29) (endpoint : Endpoint) (ports : Ports) (addr : UInt8) : Ports :=
  match endpoint with
  | .socket | .tokio => ports
  | .demux localAddr => ⟨u.physId localAddr addr, u.physId addr localAddr⟩

/-! ## Calls -/

/-- `Error`. -/
inductive Error where
  | io (kind : IoErrorKind)
  | invalidConfig (msg : String)
deriving DecidableEq, Repr

/-- What a send call returns. -/
inductive SendRet where
  | ok
  | timeout
  | backend (e : Error)
deriving DecidableEq, Repr

/-- Where a send call is, and on which socket. -/
inductive SendPc where
  | /-- In `SocketCanIsoTp::open`. -/
    opening
  | /-- Before `send`. -/
    sending (i : Nat)
  | /-- Before the look at the deadline. -/
    clock (i : Nat)
  | /-- In `poll_fd`. -/
    polling (i : Nat)
  | /-- In `writable().await`. -/
    waiting (i : Nat)
deriving DecidableEq, Repr

/-- A call goes on, or returns. -/
inductive SendNext where
  | again (pc : SendPc)
  | ret (r : SendRet)
deriving DecidableEq, Repr

/-- A call under way. -/
structure SendTask where
  dest : UInt8
  payload : Bytes
  pc : SendPc
deriving DecidableEq, Repr

/-- A call that is over; one that was dropped has returned nothing. -/
structure Sent where
  dest : UInt8
  payload : Bytes
  ret : Option SendRet
deriving DecidableEq, Repr

/-- What the environment does in a send call. -/
inductive SendLabel where
  | /-- `send_to`, or `send_functional_to`. -/
    call (functional : Bool) (dest : UInt8) (payload : Bytes)
  | opened
  | openFailed (kind : IoErrorKind)
  | /-- `send` takes the payload. -/
    sent
  | sendFailed (kind : IoErrorKind)
  | clock (past : Bool)
  | poll (ready : Bool)
  | pollFailed (kind : IoErrorKind)
  | writable
  | writableFailed (kind : IoErrorKind)
  | /-- The time of `tokio::time::timeout` is up. -/
    expire
  | drop
deriving DecidableEq, Repr

/-- `send` has failed. -/
def Endpoint.onSendError (endpoint : Endpoint) (i : Nat) : IoErrorKind → SendNext
  | .interrupted => .again (.sending i)
  | .wouldBlock => if endpoint = .tokio then .again (.waiting i) else .again (.clock i)
  | kind => .ret (.backend (.io kind))

/-- A call goes on; `opened` and `drop` are those of the station. -/
def SendPc.resume (endpoint : Endpoint) : SendPc → SendLabel → Option SendNext
  | .opening, .openFailed kind => some (.ret (.backend (.io kind)))
  | .sending _, .sent => some (.ret .ok)
  | .sending i, .sendFailed kind => some (endpoint.onSendError i kind)
  | .clock i, .clock past => some (if past then .ret .timeout else .again (.polling i))
  | .polling i, .poll ready => some (if ready then .again (.sending i) else .ret .timeout)
  | .polling _, .pollFailed kind => some (.ret (.backend (.io kind)))
  | .waiting i, .writable => some (.again (.sending i))
  | .waiting _, .writableFailed kind => some (.ret (.backend (.io kind)))
  | .waiting _, .expire => some (.ret .timeout)
  | _, _ => none

/-- The first steps of a send call of an endpoint. -/
def Host.startSend {maxRxPayload : Nat} (h : Host maxRxPayload) (functional : Bool) (dest : UInt8) :
    SendNext :=
  match h.endpoint with
  | .socket | .tokio => .again (.sending 0)
  | .demux localAddr =>
      if functional then
        .ret (.backend (.invalidConfig "functional send is not supported by KernelUdsDemux"))
      -- `ensure_peer`
      else if dest = localAddr then
        .ret (.backend (.invalidConfig "peer address must differ from local_addr"))
      else
        match h.peers.findIdx? (·.addr = dest) with
        | some i => .again (.sending i)
        | none =>
            if maxRxPayload = 0 then .ret (.backend (.invalidConfig "max_rx_payload must be > 0"))
            else .again .opening

/-- A socket for a new peer. -/
def Host.addPeer {maxRxPayload : Nat} (h : Host maxRxPayload) (peer : UInt8) : Host maxRxPayload :=
  { h with peers := h.peers ++ [.new peer] }

/-! ## Stations -/

/-- An endpoint with the send call that runs and those that are over. -/
structure Station (maxRxPayload : Nat) where
  host : Host maxRxPayload
  /-- Of the one socket of an endpoint that is no demux. -/
  ports : Ports
  sending : Option SendTask := none
  sends : List Sent := []

/-- What the environment does at a station. -/
inductive StationLabel where
  | host (l : Label)
  | send (l : SendLabel)
deriving DecidableEq, Repr

/-- The label is that of an arrival. -/
def Label.isArrival : Label → Bool
  | .arrive _ _ => true
  | _ => false

namespace Station

variable {maxRxPayload : Nat}

/-- `SocketCanIsoTp::open`, `TokioSocketCanIsoTp::open` or `KernelUdsDemux::new`. -/
def new (endpoint : Endpoint) (ports : Ports) : Station maxRxPayload where
  host :=
    { endpoint
      peers := match endpoint with | .socket | .tokio => [.new 0] | .demux _ => [] }
  ports

variable (u : Uds29) (s : Station maxRxPayload)

/-- The identifiers of the socket with the address `addr`. -/
def portsOf (addr : UInt8) : Ports := s.host.endpoint.portsOf u s.ports addr

/-- The call goes on, or returns. -/
def go (t : SendTask) : SendNext → Station maxRxPayload
  | .again pc => { s with sending := some { t with pc } }
  | .ret r => { s with sending := none, sends := s.sends ++ [⟨t.dest, t.payload, some r⟩] }

/-- What the label has put on the bus, as a payload under the identifier of the socket. -/
def output (t : SendTask) : SendLabel → List (Id × Bytes)
  | .sent =>
      match t.pc with
      | .sending i =>
          (s.host.peers[i]?).toList.map fun p ↦ ((s.portsOf u p.addr).tx, t.payload)
      | _ => []
  | _ => []

/-- A step of a send call. -/
def stepSend : SendLabel → Option (Station maxRxPayload × List (Id × Bytes))
  | .call functional dest payload =>
      if s.host.task.isNone ∧ s.sending.isNone then
        some (s.go ⟨dest, payload, .opening⟩ (s.host.startSend functional dest), [])
      else none
  | .opened =>
      match s.sending with
      | some ⟨dest, payload, .opening⟩ =>
          some ({ s with
            host := s.host.addPeer dest
            sending := some ⟨dest, payload, .sending s.host.peers.length⟩ }, [])
      | _ => none
  | .drop =>
      match s.sending with
      | some ⟨dest, payload, .waiting _⟩ =>
          some ({ s with sending := none, sends := s.sends ++ [⟨dest, payload, none⟩] }, [])
      | _ => none
  | l =>
      s.sending.bind fun t ↦
        (t.pc.resume s.host.endpoint l).map fun next ↦ (s.go t next, s.output u t l)

/-- A PDU arrives at socket `i`. -/
def arrive (i : Nat) (pdu : Bytes) : Station maxRxPayload := { s with host := s.host.arrive i pdu }

/-- A step of a station, and what it puts on the bus. -/
def step : StationLabel → Option (Station maxRxPayload × List (Id × Bytes))
  | .host l =>
      if l.isArrival = false ∧ s.sending.isNone then
        (s.host.step l).map fun host ↦ ({ s with host }, [])
      else none
  | .send l => s.stepSend u l

end Station

/-! ## What a step can do -/

variable {maxRxPayload : Nat}

/-- What the calls that receive, and `register_peer`, do to the sockets. -/
inductive Host.Moves (h : Host maxRxPayload) : Host maxRxPayload → Prop
  | register (localAddr peer : UInt8) (he : h.endpoint = .demux localAddr) :
      Moves h (h.ensurePeer localAddr peer)
  | go (path : Path) (next : Next)
      (hpath : h.endpoint.offers path = true ∨ ∃ pc, h.task = some (path, pc)) :
      Moves h (h.go path next)
  | take (path : Path) (pc : Pc) (i : Nat) (accepts : Bool) (p : PeerSocket maxRxPayload)
      (pdu : Bytes) (rest : List Bytes) (next : Next) (htask : h.task = some (path, pc))
      (hp : h.peers[i]? = some p) (hqueue : p.socket.queue = pdu :: rest) :
      Moves h ({ h with
        peers := h.peers.set i (p.take path pdu rest accepts).2
        log := h.log ++ [(p.take path pdu rest accepts).1] }.go path next)

section HostMoves

variable {h h' : Host maxRxPayload}

theorem Host.moves_of_resume {path : Path} {pc : Pc} {l : Label} (htask : h.task = some (path, pc))
    (hs : h.resume path pc l = some h') : h.Moves h' := by
  have hgo : ∀ next, h.Moves (h.go path next) := fun next ↦ .go path next (.inr ⟨pc, htask⟩)
  unfold resume at hs
  split at hs
  · obtain ⟨p, hp, rfl⟩ := Option.map_eq_some_iff.mp hs
    cases hqueue : p.socket.queue with
    | nil => exact hgo _
    | cons pdu rest => exact .take path _ _ _ p pdu rest _ htask hp hqueue
  all_goals try (obtain rfl := Option.some.inj hs; exact hgo _)
  · obtain ⟨-, hs⟩ := Option.ite_none_right_eq_some.mp hs
    exact Option.some.inj hs ▸ hgo _
  · obtain ⟨-, hs⟩ := Option.ite_none_right_eq_some.mp hs
    exact Option.some.inj hs ▸ hgo _
  · cases hs

theorem Host.moves_of_step {l : Label} (hl : l.isArrival = false) (hs : h.step l = some h') :
    h.Moves h' := by
  have harrive : ∀ i pdu, l ≠ .arrive i pdu := by
    rintro i pdu rfl
    cases hl
  cases htask : h.task with
  | some x =>
      rw [step_of_task htask harrive] at hs
      exact moves_of_resume htask hs
  | none =>
      unfold step at hs
      rw [htask] at hs
      cases l with
      | arrive i pdu => cases hl
      | call path =>
          obtain ⟨hoffers, hs⟩ := Option.ite_none_right_eq_some.mp hs
          exact Option.some.inj hs ▸ .go path _ (.inl hoffers)
      | register peer =>
          cases hendpoint : h.endpoint with
          | socket | tokio =>
              rw [hendpoint] at hs
              cases hs
          | demux localAddr =>
              rw [hendpoint] at hs
              exact Option.some.inj hs ▸ .register localAddr peer hendpoint
      | _ => cases hs

@[simp] theorem Host.endpoint_go (path : Path) (next : Next) :
    (h.go path next).endpoint = h.endpoint := by
  cases next with
  | again | ret => rfl

@[simp] theorem Host.peers_go (path : Path) (next : Next) : (h.go path next).peers = h.peers := by
  cases next with
  | again | ret => rfl

@[simp] theorem PeerSocket.addr_take (p : PeerSocket maxRxPayload) (path : Path) (pdu : Bytes)
    (rest : List Bytes) (accepts : Bool) : (p.take path pdu rest accepts).2.addr = p.addr := by
  cases path with
  | recvOneInto | recvOne | tokioRecvOne | demuxRecvOne => rfl

theorem Host.endpoint_ensurePeer (localAddr peer : UInt8) :
    (h.ensurePeer localAddr peer).endpoint = h.endpoint := by
  unfold ensurePeer
  split
  · rfl
  · rfl

theorem Host.Moves.endpoint_eq (hm : h.Moves h') : h'.endpoint = h.endpoint := by
  cases hm with
  | register localAddr peer => exact endpoint_ensurePeer localAddr peer
  | go path next => exact endpoint_go path next
  | take path _ _ _ _ _ _ next => exact endpoint_go path next

theorem Host.path_of_go {path path' : Path} {pc : Pc} {next : Next}
    (ht : (h.go path next).task = some (path', pc)) : path' = path := by
  cases next with
  | again => exact (Prod.mk.inj (Option.some.inj ht)).1.symm
  | ret => cases ht

theorem Host.task_ensurePeer (localAddr peer : UInt8) :
    (h.ensurePeer localAddr peer).task = h.task := by
  unfold ensurePeer
  split
  · rfl
  · rfl

/-- The call that runs is one of the endpoint's. -/
theorem Host.Moves.offered (hm : h.Moves h')
    (ho : ∀ path pc, h.task = some (path, pc) → h.endpoint.offers path = true) {path : Path} {pc : Pc}
    (ht : h'.task = some (path, pc)) : h'.endpoint.offers path = true := by
  rw [hm.endpoint_eq]
  cases hm with
  | register localAddr peer =>
      rw [task_ensurePeer] at ht
      exact ho path pc ht
  | go path next hpath =>
      obtain rfl := path_of_go ht
      rcases hpath with hoffers | ⟨pc, htask⟩
      · exact hoffers
      · exact ho _ pc htask
  | take path pc _ _ _ _ _ _ htask =>
      obtain rfl := path_of_go ht
      exact ho _ pc htask

/-- Only a demux opens sockets. -/
theorem Host.Moves.length_peers (hm : h.Moves h')
    (he : ∀ localAddr, h.endpoint ≠ .demux localAddr) : h'.peers.length = h.peers.length := by
  cases hm with
  | register localAddr peer hdemux => exact absurd hdemux (he localAddr)
  | go => rw [peers_go]
  | take => rw [peers_go, List.length_set]

end HostMoves

/-- The socket of a call. -/
def SendPc.socket : SendPc → Option Nat
  | .opening => none
  | .sending i | .clock i | .polling i | .waiting i => some i

theorem Endpoint.onSendError_cases (endpoint : Endpoint) (i : Nat) (kind : IoErrorKind) :
    (∃ r, endpoint.onSendError i kind = .ret r ∧ r ≠ .ok) ∨
      ∃ pc, endpoint.onSendError i kind = .again pc ∧ pc.socket = some i := by
  cases kind with
  | interrupted => exact .inr ⟨_, rfl, rfl⟩
  | wouldBlock =>
      cases endpoint with
      | tokio => exact .inr ⟨_, rfl, rfl⟩
      | socket | demux => exact .inr ⟨_, rfl, rfl⟩
  | unexpectedEof | other => exact .inl ⟨_, rfl, nofun⟩

/-- **A call goes round on its socket**, or ends; with `Ok` only when `send` takes the payload. -/
theorem SendPc.resume_cases {endpoint : Endpoint} {pc : SendPc} {l : SendLabel} {next : SendNext}
    (h : pc.resume endpoint l = some next) :
    (l = .sent ∧ (∃ i, pc = .sending i) ∧ next = .ret .ok) ∨
      (l ≠ .sent ∧ ((∃ r, next = .ret r ∧ r ≠ .ok) ∨
        ∃ i pc', pc.socket = some i ∧ next = .again pc' ∧ pc'.socket = some i)) := by
  unfold resume at h
  split at h
  case h_2 i => exact .inl ⟨rfl, ⟨i, rfl⟩, (Option.some.inj h).symm⟩
  case h_10 => cases h
  all_goals
    obtain rfl := Option.some.inj h
    refine .inr ⟨nofun, ?_⟩
  case h_3 i kind =>
    rcases endpoint.onSendError_cases i kind with hret | ⟨pc, hpc, hi⟩
    · exact .inl hret
    · exact .inr ⟨i, pc, rfl, hpc, hi⟩
  case h_4 i past =>
    cases past with
    | true => exact .inl ⟨_, rfl, nofun⟩
    | false => exact .inr ⟨i, _, rfl, rfl, rfl⟩
  case h_5 i ready =>
    cases ready with
    | true => exact .inr ⟨i, _, rfl, rfl, rfl⟩
    | false => exact .inl ⟨_, rfl, nofun⟩
  case h_7 i => exact .inr ⟨i, _, rfl, rfl, rfl⟩
  all_goals exact .inl ⟨_, rfl, nofun⟩

namespace Station

/-- What a step can do. -/
inductive Moves (u : Uds29) (s : Station maxRxPayload) :
    Station maxRxPayload × List (Id × Bytes) → Prop
  | host (host : Host maxRxPayload) (hidle : s.sending = none) (hm : s.host.Moves host) :
      Moves u s ({ s with host }, [])
  | start (functional : Bool) (dest : UInt8) (payload : Bytes) (hidle : s.sending = none) :
      Moves u s (s.go ⟨dest, payload, .opening⟩ (s.host.startSend functional dest), [])
  | opened (dest : UInt8) (payload : Bytes) (ht : s.sending = some ⟨dest, payload, .opening⟩) :
      Moves u s ({ s with
        host := s.host.addPeer dest
        sending := some ⟨dest, payload, .sending s.host.peers.length⟩ }, [])
  | drop (t : SendTask) (ht : s.sending = some t) :
      Moves u s ({ s with sending := none, sends := s.sends ++ [⟨t.dest, t.payload, none⟩] }, [])
  | sent (t : SendTask) (i : Nat) (ht : s.sending = some t) (hpc : t.pc = .sending i) :
      Moves u s (s.go t (.ret .ok),
        (s.host.peers[i]?).toList.map fun p ↦ ((s.portsOf u p.addr).tx, t.payload))
  | fail (t : SendTask) (r : SendRet) (ht : s.sending = some t) (hr : r ≠ .ok) :
      Moves u s (s.go t (.ret r), [])
  | again (t : SendTask) (i : Nat) (pc : SendPc) (ht : s.sending = some t)
      (hi : t.pc.socket = some i) (hpc : pc.socket = some i) : Moves u s (s.go t (.again pc), [])

variable {u : Uds29} {s s' : Station maxRxPayload} {out out' : List (Id × Bytes)}

theorem moves_of_stepSend {l : SendLabel} {y : Station maxRxPayload × List (Id × Bytes)}
    (h : s.stepSend u l = some y) : Moves u s y := by
  unfold stepSend at h
  split at h
  · next functional dest payload =>
      obtain ⟨⟨-, hidle⟩, h⟩ := Option.ite_none_right_eq_some.mp h
      obtain rfl := Option.some.inj h
      exact .start functional dest payload (Option.isNone_iff_eq_none.mp hidle)
  · split at h
    · next dest payload ht =>
        obtain rfl := Option.some.inj h
        exact .opened dest payload ht
    · cases h
  · split at h
    · next dest payload i ht =>
        obtain rfl := Option.some.inj h
        exact .drop ⟨dest, payload, .waiting i⟩ ht
    · cases h
  · next _ hcall hopened hdrop =>
      obtain ⟨t, ht, h⟩ := Option.bind_eq_some_iff.mp h
      obtain ⟨next, hnext, rfl⟩ := Option.map_eq_some_iff.mp h
      rcases SendPc.resume_cases hnext with ⟨rfl, ⟨i, hpc⟩, rfl⟩ | ⟨hne, hcase⟩
      · have hout : s.output u t .sent =
            (s.host.peers[i]?).toList.map fun p ↦ ((s.portsOf u p.addr).tx, t.payload) := by
          rw [output, hpc]
        rw [hout]
        exact .sent t i ht hpc
      · have hout : s.output u t l = [] := by
          cases l with
          | sent => exact absurd rfl hne
          | _ => rfl
        rw [hout]
        rcases hcase with ⟨r, rfl, hr⟩ | ⟨i, pc, hi, rfl, hpc⟩
        · exact .fail t r ht hr
        · exact .again t i pc ht hi hpc

theorem moves_of_step {l : StationLabel} {y : Station maxRxPayload × List (Id × Bytes)}
    (h : s.step u l = some y) : Moves u s y := by
  cases l with
  | host l =>
      obtain ⟨⟨hl, hidle⟩, h⟩ := Option.ite_none_right_eq_some.mp h
      obtain ⟨host, hs, rfl⟩ := Option.map_eq_some_iff.mp h
      exact .host host (Option.isNone_iff_eq_none.mp hidle) (Host.moves_of_step hl hs)
  | send l => exact moves_of_stepSend h

/-! ## What is on the bus -/

/-- What a call that has returned `Ok` has put on the bus. -/
def onBus (u : Uds29) (s : Station maxRxPayload) (c : Sent) : Option (Id × Bytes) :=
  if c.ret = some .ok then some ((s.portsOf u c.dest).tx, c.payload) else none

/-- **The invariant**, for a station that has put `out` on the bus. -/
structure Inv (u : Uds29) (out : List (Id × Bytes)) (s : Station maxRxPayload) : Prop where
  /-- The payloads of the calls that have returned `Ok`, each once and in order. -/
  once : out = s.sends.filterMap (s.onBus u)
  /-- A call sends on a socket of its destination. -/
  socket : ∀ t i, s.sending = some t → t.pc.socket = some i →
    ∃ p, s.host.peers[i]? = some p ∧ s.portsOf u p.addr = s.portsOf u t.dest
  /-- A socket is opened for a new peer. -/
  opening : ∀ t, s.sending = some t → t.pc = .opening →
    (∃ localAddr, s.host.endpoint = .demux localAddr) ∧ ∀ p ∈ s.host.peers, p.addr ≠ t.dest
  /-- Without a demux there is one socket. -/
  single : (∀ localAddr, s.host.endpoint ≠ .demux localAddr) → s.host.peers.length = 1

theorem portsOf_congr {host : Host maxRxPayload} (he : host.endpoint = s.host.endpoint)
    (sending : Option SendTask) (sends : List Sent) :
    portsOf u ⟨host, s.ports, sending, sends⟩ = s.portsOf u := by
  funext addr
  rw [portsOf, portsOf, he]

theorem onBus_congr {host : Host maxRxPayload} (he : host.endpoint = s.host.endpoint)
    (sending : Option SendTask) (sends : List Sent) :
    onBus u ⟨host, s.ports, sending, sends⟩ = s.onBus u := by
  funext c
  rw [onBus, onBus, portsOf_congr he]

theorem Inv.new (endpoint : Endpoint) (ports : Ports) :
    Inv u [] (new endpoint ports : Station maxRxPayload) where
  once := rfl
  socket _ _ h := by cases h
  opening _ h := by cases h
  single h := by
    cases endpoint with
    | socket | tokio => rfl
    | demux localAddr => exact absurd rfl (h localAddr)

/-- A call begins with the socket of its destination, or opens one, or fails. -/
theorem startSend_cases (hi : Inv u out s) (functional : Bool) (dest : UInt8) :
    (∃ r, s.host.startSend functional dest = .ret r ∧ r ≠ .ok) ∨
      (∃ i p, s.host.startSend functional dest = .again (.sending i) ∧
        s.host.peers[i]? = some p ∧ s.portsOf u p.addr = s.portsOf u dest) ∨
      s.host.startSend functional dest = .again .opening ∧
        (∃ localAddr, s.host.endpoint = .demux localAddr) ∧
          ∀ p ∈ s.host.peers, p.addr ≠ dest := by
  have hfirst : (∀ localAddr, s.host.endpoint ≠ .demux localAddr) →
      ∃ p, s.host.peers[0]? = some p := by
    intro he
    have hlen := hi.single he
    exact ⟨_, List.getElem?_eq_getElem (by rw [hlen]; exact Nat.one_pos)⟩
  unfold Host.startSend
  cases he : s.host.endpoint with
  | socket | tokio =>
      obtain ⟨p, hp⟩ := hfirst (by rw [he]; exact nofun)
      refine .inr (.inl ⟨0, p, rfl, hp, ?_⟩)
      rw [portsOf, portsOf, he]
      rfl
  | demux localAddr =>
      dsimp only
      split
      · exact .inl ⟨_, rfl, nofun⟩
      split
      · exact .inl ⟨_, rfl, nofun⟩
      split
      · next i hfind =>
          obtain ⟨hlt, haddr, -⟩ := List.findIdx?_eq_some_iff_getElem.mp hfind
          refine .inr (.inl ⟨i, _, rfl, List.getElem?_eq_getElem hlt, ?_⟩)
          rw [of_decide_eq_true haddr]
      · next hfind =>
          split
          · exact .inl ⟨_, rfl, nofun⟩
          · refine .inr (.inr ⟨rfl, ⟨localAddr, rfl⟩, fun p hp ↦ ?_⟩)
            exact of_decide_eq_false (List.findIdx?_eq_none_iff.mp hfind p hp)

/-- A call is over. -/
theorem Inv.over (hi : Inv u out s) {c : Sent} (hout : out' = (s.onBus u c).toList) :
    Inv u (out ++ out') { s with sending := none, sends := s.sends ++ [c] } where
  once := by
    rw [onBus_congr rfl, List.filterMap_append, ← hi.once, hout]
    rfl
  socket _ _ h := by cases h
  opening _ h := by cases h
  single := hi.single

theorem Inv.fail (hi : Inv u out s) (t : SendTask) {r : SendRet} (hr : r ≠ .ok) :
    Inv u (out ++ []) (s.go t (.ret r)) := by
  refine hi.over ?_
  rw [onBus, if_neg fun h ↦ hr (Option.some.inj h)]
  rfl

/-- A call goes on with its socket. -/
theorem Inv.again (hi : Inv u out s) (t : SendTask) {i : Nat} {pc : SendPc}
    (hpc : pc.socket = some i) {p : PeerSocket maxRxPayload} (hp : s.host.peers[i]? = some p)
    (hports : s.portsOf u p.addr = s.portsOf u t.dest) :
    Inv u (out ++ []) (s.go t (.again pc)) where
  once := by
    rw [List.append_nil]
    exact hi.once
  socket t' j ht hj := by
    obtain rfl := Option.some.inj ht
    obtain rfl := Option.some.inj (hpc.symm.trans hj)
    exact ⟨p, hp, hports⟩
  opening t' ht hopening := by
    obtain rfl := Option.some.inj ht
    have hnone : pc.socket = none := congrArg SendPc.socket hopening
    cases hpc.symm.trans hnone
  single := hi.single

/-- **Every step keeps the invariant.** -/
theorem Inv.moves (hi : Inv u out s) (h : Moves u s (s', out')) : Inv u (out ++ out') s' := by
  cases h with
  | host host hidle hm =>
      have he := hm.endpoint_eq
      refine ⟨?_, ?_, ?_, ?_⟩
      · rw [List.append_nil, onBus_congr he]
        exact hi.once
      · intro t i ht
        cases hidle.symm.trans ht
      · intro t ht
        cases hidle.symm.trans ht
      · intro hsingle
        have hsingle' : ∀ localAddr, s.host.endpoint ≠ .demux localAddr := he ▸ hsingle
        exact (hm.length_peers hsingle').trans (hi.single hsingle')
  | start functional dest payload hidle =>
      rcases startSend_cases hi functional dest with ⟨r, hstart, hr⟩ | ⟨i, p, hstart, hp, hports⟩ |
        ⟨hstart, hdemux, hnew⟩
      · rw [hstart]
        exact hi.fail _ hr
      · rw [hstart]
        exact hi.again _ rfl hp hports
      · rw [hstart]
        refine ⟨?_, ?_, ?_, hi.single⟩
        · rw [List.append_nil]
          exact hi.once
        · intro t i ht hpc
          obtain rfl := Option.some.inj ht
          cases hpc
        · intro t ht _
          obtain rfl := Option.some.inj ht
          exact ⟨hdemux, hnew⟩
  | opened dest payload ht =>
      obtain ⟨⟨localAddr, hdemux⟩, -⟩ := hi.opening _ ht rfl
      refine ⟨?_, ?_, ?_, ?_⟩
      · rw [List.append_nil]
        exact hi.once
      · intro t i ht hpc
        obtain rfl := Option.some.inj ht
        obtain rfl := Option.some.inj hpc
        exact ⟨.new dest, List.getElem?_concat_length, rfl⟩
      · intro t ht hpc
        obtain rfl := Option.some.inj ht
        cases hpc
      · intro hsingle
        exact absurd hdemux (hsingle localAddr)
  | drop t ht => exact hi.over rfl
  | sent t i ht hpc =>
      obtain ⟨p, hp, hports⟩ := hi.socket t i ht (by rw [hpc]; rfl)
      refine hi.over ?_
      rw [hp, onBus, if_pos rfl, ← hports]
      rfl
  | fail t r ht hr => exact hi.fail t hr
  | again t i pc ht hpc hpc' =>
      obtain ⟨p, hp, hports⟩ := hi.socket t i ht hpc
      exact hi.again t hpc' hp hports

/-- A PDU that arrives is nothing to the calls that send. -/
theorem Inv.arrive (hi : Inv u out s) (i : Nat) (pdu : Bytes) : Inv u out (s.arrive i pdu) where
  once := hi.once
  socket t j ht hj := by
    obtain ⟨p, hp, hports⟩ := hi.socket t j ht hj
    change ∃ q, (s.host.peers.modify i _)[j]? = some q ∧ _
    rw [List.getElem?_modify, hp]
    refine ⟨_, rfl, ?_⟩
    split
    · exact hports
    · exact hports
  opening t ht hpc := by
    obtain ⟨hdemux, hnew⟩ := hi.opening t ht hpc
    refine ⟨hdemux, fun q hq ↦ ?_⟩
    obtain ⟨j, hj⟩ := List.mem_iff_getElem?.mp hq
    change (s.host.peers.modify i _)[j]? = some q at hj
    rw [List.getElem?_modify] at hj
    obtain ⟨p, hp, rfl⟩ := Option.map_eq_some_iff.mp hj
    have hne := hnew p (List.mem_of_getElem? hp)
    split
    · exact hne
    · exact hne
  single hsingle := (List.length_modify _ _ _).trans (hi.single hsingle)

/-- A station remains what it is. -/
theorem Moves.same (h : Moves u s (s', out')) :
    s'.host.endpoint = s.host.endpoint ∧ s'.ports = s.ports := by
  cases h with
  | host host hidle hm => exact ⟨hm.endpoint_eq, rfl⟩
  | start functional dest payload =>
      cases s.host.startSend functional dest with
      | again | ret => exact ⟨rfl, rfl⟩
  | opened | drop | sent | fail | again => exact ⟨rfl, rfl⟩

end Station

end Thincan.IsoTp

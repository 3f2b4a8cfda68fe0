import Mathlib.Data.List.Nodup
import Thincan.IsoTp.Send
import Thincan.Process.Search

/-!
# Kernel sockets on a bus

Stations with endpoints of the crate on one bus.  The kernel of a station puts a PDU into the
queue of every socket that was opened with its identifier, or loses it, delays it or repeats it.

A demux has one socket for each peer, whose identifiers it makes up from the two addresses.  So
what it delivers as from `a` was sent to it by a station with the address `a`, or by a socket that
was opened with that very identifier (`Network.demux_authentic`).  Where the bus keeps the order,
payloads are delivered in the order of the calls that sent them (`Network.demux_in_order`).

The demux delivers what its socket has: a payload that does not fit the buffer is cut off, as
`received_whole_iff` says.
-/

namespace Thincan.IsoTp

open Process UnixSocket

/-! ## Sockets and what arrives at them -/

section Flow

variable {maxRxPayload : Nat} {h h' : Host maxRxPayload} {arrived : UInt8 → List Bytes}

/-- The PDUs that were delivered with the address `addr`, as they were on the bus. -/
def Host.takenFrom (h : Host maxRxPayload) (addr : UInt8) : List Bytes :=
  (h.log.filter fun t ↦ t.delivered.map Prod.fst = some addr).map Taken.pdu

/-- The payloads that were delivered with the address `addr`. -/
def Host.deliveredFrom (h : Host maxRxPayload) (addr : UInt8) : List Bytes :=
  (h.log.filter fun t ↦ t.delivered.map Prod.fst = some addr).filterMap fun t ↦
    t.delivered.map Prod.snd

/-- **What a socket has got** is what it delivered, in order, and what waits in its queue. -/
structure Flow (h : Host maxRxPayload) (arrived : UInt8 → List Bytes) : Prop where
  addrs : (h.peers.map PeerSocket.addr).Nodup
  taken : ∀ p ∈ h.peers, ∃ l, (h.takenFrom p.addr).Sublist l ∧ arrived p.addr = l ++ p.socket.queue
  /-- Nothing comes to an address without a socket. -/
  closed : ∀ addr, addr ∉ h.peers.map PeerSocket.addr → arrived addr = [] ∧ h.takenFrom addr = []
  offered : ∀ path pc, h.task = some (path, pc) → h.endpoint.offers path = true
  /-- The calls that do not pass `MSG_TRUNC` deliver as much of a PDU as fits. -/
  cut : h.endpoint ≠ .tokio → ∀ t ∈ h.log, ∀ addr bytes, t.delivered = some (addr, bytes) →
    bytes = t.pdu.take maxRxPayload

/-- Without `MSG_TRUNC` each payload is what fits of the PDU it came as. -/
theorem Flow.deliveredFrom_eq (hf : Flow h arrived) (he : h.endpoint ≠ .tokio) (addr : UInt8) :
    h.deliveredFrom addr = (h.takenFrom addr).map (List.take maxRxPayload) := by
  rw [Host.deliveredFrom, Host.takenFrom, List.map_map, ← List.filterMap_eq_map]
  refine List.filterMap_congr fun t ht ↦ ?_
  obtain ⟨hmem, hsource⟩ := List.mem_filter.mp ht
  obtain ⟨⟨source, bytes⟩, hd, -⟩ := Option.map_eq_some_iff.mp (of_decide_eq_true hsource)
  rw [hd, Option.map_some, hf.cut he t hmem source bytes hd]
  rfl

/-- `recv_one_into` is a call of a tokio socket. -/
theorem Endpoint.msgTrunc_of_offers {endpoint : Endpoint} {path : Path}
    (ho : endpoint.offers path = true) (he : endpoint ≠ .tokio) : path.msgTrunc = false := by
  cases path with
  | recvOne | tokioRecvOne | demuxRecvOne => rfl
  | recvOneInto out =>
      cases endpoint with
      | tokio => exact absurd rfl he
      | socket | demux => cases ho

/-- The other sockets have other addresses. -/
theorem mem_set_cases {ps : List (PeerSocket maxRxPayload)}
    (hnodup : (ps.map PeerSocket.addr).Nodup) {i : Nat} {p q r : PeerSocket maxRxPayload}
    (hp : ps[i]? = some p) (hr : r ∈ ps.set i q) :
    r = q ∨ r ∈ ps ∧ r.addr ≠ p.addr := by
  obtain ⟨j, hj⟩ := List.mem_iff_getElem?.mp hr
  rw [List.getElem?_set] at hj
  split at hj
  · obtain ⟨-, hj⟩ := Option.ite_none_right_eq_some.mp hj
    exact .inl (Option.some.inj hj).symm
  · next hne =>
      refine .inr ⟨List.mem_of_getElem? hj, fun heq ↦ hne ?_⟩
      obtain ⟨hi, rfl⟩ := List.getElem?_eq_some_iff.mp hp
      obtain ⟨hj, rfl⟩ := List.getElem?_eq_some_iff.mp hj
      have hi' : i < (ps.map PeerSocket.addr).length := by rwa [List.length_map]
      have hj' : j < (ps.map PeerSocket.addr).length := by rwa [List.length_map]
      have haddr : (ps.map PeerSocket.addr)[i] = (ps.map PeerSocket.addr)[j] := by
        rw [List.getElem_map, List.getElem_map, heq]
      exact hnodup.getElem_inj_iff.mp haddr

theorem map_addr_set {ps : List (PeerSocket maxRxPayload)} {i : Nat} {p q : PeerSocket maxRxPayload}
    (hp : ps[i]? = some p) (hq : q.addr = p.addr) :
    (ps.set i q).map PeerSocket.addr = ps.map PeerSocket.addr := by
  obtain ⟨hi, rfl⟩ := List.getElem?_eq_some_iff.mp hp
  have hi' : i < (ps.map PeerSocket.addr).length := by rwa [List.length_map]
  rw [List.map_set, hq, ← List.getElem_map PeerSocket.addr (h := hi'), List.set_getElem_self]

/-- A PDU is delivered with the address of its socket; without `MSG_TRUNC`, as much of it as
fits. -/
theorem PeerSocket.delivered_take (p : PeerSocket maxRxPayload) (path : Path) (pdu : Bytes)
    (rest : List Bytes) (accepts : Bool) {addr : UInt8} {bytes : Bytes}
    (h : (p.take path pdu rest accepts).1.delivered = some (addr, bytes)) :
    addr = p.addr ∧ (path.msgTrunc = false → bytes = pdu.take maxRxPayload) := by
  have hone (h : (takeOne p.addr p.socket.rxBuf pdu accepts).1.delivered = some (addr, bytes)) :
      addr = p.addr ∧ (path.msgTrunc = false → bytes = pdu.take maxRxPayload) := by
    dsimp only [takeOne] at h
    split at h
    · cases h
    · obtain ⟨rfl, rfl⟩ := Prod.mk.inj (Option.some.inj h)
      refine ⟨rfl, fun _ ↦ ?_⟩
      have hread : (recv false p.socket.rxBuf pdu).1 = min pdu.length p.socket.rxBuf.length := rfl
      rw [hread, take_recv, p.socket.length_rxBuf]
  cases path with
  | recvOne | tokioRecvOne | demuxRecvOne => exact hone h
  | recvOneInto out =>
      change (takeInto p.addr out pdu).delivered = _ at h
      dsimp only [takeInto] at h
      split at h
      · cases h
      split at h
      · cases h
      · obtain ⟨rfl, -⟩ := Prod.mk.inj (Option.some.inj h)
        exact ⟨rfl, fun hnot ↦ by cases hnot⟩

@[simp] theorem PeerSocket.pdu_take (p : PeerSocket maxRxPayload) (path : Path) (pdu : Bytes)
    (rest : List Bytes) (accepts : Bool) : (p.take path pdu rest accepts).1.pdu = pdu := by
  have hone : (takeOne p.addr p.socket.rxBuf pdu accepts).1.pdu = pdu := by
    dsimp only [takeOne]
    split
    · rfl
    · rfl
  cases path with
  | recvOne | tokioRecvOne | demuxRecvOne => exact hone
  | recvOneInto out =>
      change (takeInto p.addr out pdu).pdu = pdu
      dsimp only [takeInto]
      split
      · rfl
      split
      · rfl
      · rfl

@[simp] theorem PeerSocket.queue_take (p : PeerSocket maxRxPayload) (path : Path) (pdu : Bytes)
    (rest : List Bytes) (accepts : Bool) :
    (p.take path pdu rest accepts).2.socket.queue = rest := by
  cases path with
  | recvOneInto | recvOne | tokioRecvOne | demuxRecvOne => rfl

/-- What a PDU more in the log adds. -/
theorem takenFrom_snoc {t : Taken} (hlog : h'.log = h.log ++ [t]) (addr : UInt8) :
    h'.takenFrom addr = h.takenFrom addr ∧ t.delivered.map Prod.fst ≠ some addr ∨
      h'.takenFrom addr = h.takenFrom addr ++ [t.pdu] ∧ t.delivered.map Prod.fst = some addr := by
  unfold Host.takenFrom
  rw [hlog, List.filter_append, List.map_append]
  by_cases ht : t.delivered.map Prod.fst = some addr
  · refine .inr ⟨?_, ht⟩
    simp [ht]
  · refine .inl ⟨?_, ht⟩
    simp [ht]

/-- The flow is about the sockets and the log. -/
theorem Flow.congr (hf : Flow h arrived) (hpeers : h'.peers = h.peers) (hlog : h'.log = h.log)
    (hendpoint : h'.endpoint = h.endpoint)
    (hoffered : ∀ path pc, h'.task = some (path, pc) → h'.endpoint.offers path = true) :
    Flow h' arrived := by
  have htaken : ∀ addr, h'.takenFrom addr = h.takenFrom addr := by
    intro addr
    rw [Host.takenFrom, hlog]
    rfl
  refine ⟨hpeers ▸ hf.addrs, fun p hp ↦ ?_, fun addr haddr ↦ ?_, hoffered,
    hendpoint ▸ hlog ▸ hf.cut⟩
  · rw [htaken]
    exact hf.taken p (hpeers ▸ hp)
  · rw [htaken]
    exact hf.closed addr (hpeers ▸ haddr)

/-- A call takes a PDU. -/
theorem Flow.take (hf : Flow h arrived) {path : Path} {i : Nat} {accepts : Bool}
    {p : PeerSocket maxRxPayload} {pdu : Bytes} {rest : List Bytes} (hp : h.peers[i]? = some p)
    (hqueue : p.socket.queue = pdu :: rest)
    (hpeers : h'.peers = h.peers.set i (p.take path pdu rest accepts).2)
    (hlog : h'.log = h.log ++ [(p.take path pdu rest accepts).1])
    (hendpoint : h'.endpoint = h.endpoint) (hpath : h.endpoint.offers path = true)
    (hoffered : ∀ path pc, h'.task = some (path, pc) → h'.endpoint.offers path = true) :
    Flow h' arrived := by
  have hmem : p ∈ h.peers := List.mem_of_getElem? hp
  have haddrs : h'.peers.map PeerSocket.addr = h.peers.map PeerSocket.addr := by
    rw [hpeers]
    exact map_addr_set hp (p.addr_take path pdu rest accepts)
  have hother : ∀ addr, addr ≠ p.addr → h'.takenFrom addr = h.takenFrom addr := by
    intro addr hne
    rcases takenFrom_snoc hlog addr with ⟨heq, -⟩ | ⟨-, hsome⟩
    · exact heq
    · obtain ⟨x, hx, rfl⟩ := Option.map_eq_some_iff.mp hsome
      exact absurd (p.delivered_take path pdu rest accepts hx).1 hne
  refine ⟨haddrs ▸ hf.addrs, fun r hr ↦ ?_, fun addr haddr ↦ ?_, hoffered,
    fun he t ht addr bytes hd ↦ ?_⟩
  · rw [hpeers] at hr
    rcases mem_set_cases hf.addrs hp hr with rfl | ⟨hr, hne⟩
    · obtain ⟨l, hsub, harrived⟩ := hf.taken p hmem
      rw [PeerSocket.addr_take, PeerSocket.queue_take]
      refine ⟨l ++ [pdu], ?_, ?_⟩
      · rcases takenFrom_snoc hlog p.addr with ⟨heq, -⟩ | ⟨heq, -⟩
        · rw [heq]
          exact hsub.trans (List.sublist_append_left _ _)
        · rw [heq, PeerSocket.pdu_take]
          exact hsub.append (List.Sublist.refl _)
      · rw [harrived, hqueue, List.append_assoc]
        rfl
    · rw [hother r.addr hne]
      exact hf.taken r hr
  · rw [haddrs] at haddr
    have hne : addr ≠ p.addr := by
      rintro rfl
      exact haddr (List.mem_map_of_mem hmem)
    rw [hother addr hne]
    exact hf.closed addr haddr
  · rw [hendpoint] at he
    rw [hlog] at ht
    rcases List.mem_append.mp ht with ht | ht
    · exact hf.cut he t ht addr bytes hd
    · obtain rfl := List.mem_singleton.mp ht
      rw [PeerSocket.pdu_take]
      exact (p.delivered_take path pdu rest accepts hd).2 (Endpoint.msgTrunc_of_offers hpath he)

/-- A socket is opened for a new peer. -/
theorem Flow.addPeer (hf : Flow h arrived) {peer : UInt8} (hnew : ∀ p ∈ h.peers, p.addr ≠ peer) :
    Flow (h.addPeer peer) arrived := by
  have hnew : peer ∉ h.peers.map PeerSocket.addr := by
    intro hmem
    obtain ⟨p, hp, heq⟩ := List.mem_map.mp hmem
    exact hnew p hp heq
  have haddrs : (h.addPeer peer).peers.map PeerSocket.addr =
      h.peers.map PeerSocket.addr ++ [peer] := List.map_append
  refine ⟨?_, fun p hp ↦ ?_, fun addr haddr ↦ ?_, hf.offered, hf.cut⟩
  · rw [haddrs]
    exact List.nodup_append_comm.mp (List.nodup_cons.mpr ⟨hnew, hf.addrs⟩)
  · rcases List.mem_append.mp hp with hp | hp
    · exact hf.taken p hp
    · obtain rfl := List.mem_singleton.mp hp
      obtain ⟨harrived, htaken⟩ := hf.closed peer hnew
      exact ⟨[], List.sublist_nil.mpr htaken, harrived⟩
  · rw [haddrs] at haddr
    exact hf.closed addr fun hmem ↦ haddr (List.mem_append_left _ hmem)

/-- A PDU arrives at the socket of `p`. -/
theorem Flow.arrive (hf : Flow h arrived) {i : Nat} {p : PeerSocket maxRxPayload} (pdu : Bytes)
    (hp : h.peers[i]? = some p) :
    Flow (h.arrive i pdu) (Function.update arrived p.addr (arrived p.addr ++ [pdu])) := by
  have hmem : p ∈ h.peers := List.mem_of_getElem? hp
  obtain ⟨q, hq, hset⟩ : ∃ q : PeerSocket maxRxPayload,
      (q.addr = p.addr ∧ q.socket.queue = p.socket.queue ++ [pdu]) ∧
        (h.arrive i pdu).peers = h.peers.set i q := by
    refine ⟨{ p with socket := { p.socket with queue := p.socket.queue ++ [pdu] } }, ⟨rfl, rfl⟩, ?_⟩
    rw [Host.arrive, List.modify_eq_set_getElem?, hp]
    rfl
  have haddrs : (h.arrive i pdu).peers.map PeerSocket.addr = h.peers.map PeerSocket.addr := by
    rw [hset]
    exact map_addr_set hp hq.1
  refine ⟨haddrs ▸ hf.addrs, fun r hr ↦ ?_, fun addr haddr ↦ ?_, hf.offered, hf.cut⟩
  · rw [hset] at hr
    rcases mem_set_cases hf.addrs hp hr with rfl | ⟨hr, hne⟩
    · obtain ⟨l, hsub, harrived⟩ := hf.taken p hmem
      refine ⟨l, hq.1 ▸ hsub, ?_⟩
      rw [hq.1, hq.2, Function.update_self, harrived, List.append_assoc]
    · rw [Function.update_of_ne hne]
      exact hf.taken r hr
  · rw [haddrs] at haddr
    have hne : addr ≠ p.addr := by
      rintro rfl
      exact haddr (List.mem_map_of_mem hmem)
    rw [Function.update_of_ne hne]
    exact hf.closed addr haddr

/-- The calls that receive keep the flow. -/
theorem Flow.moves (hf : Flow h arrived) (hm : h.Moves h') : Flow h' arrived := by
  have hoffered : ∀ path pc, h'.task = some (path, pc) → h'.endpoint.offers path = true :=
    fun _ _ ht ↦ hm.offered hf.offered ht
  cases hm with
  | register localAddr peer =>
      unfold Host.ensurePeer
      split
      · exact hf
      · next hnew =>
          refine hf.addPeer fun p hp heq ↦ hnew (.inr ?_)
          exact List.any_eq_true.mpr ⟨p, hp, decide_eq_true heq⟩
  | go path next =>
      exact hf.congr (Host.peers_go path next) (Host.log_go path next) (Host.endpoint_go path next)
        hoffered
  | take path pc i accepts p pdu rest next htask hp hqueue =>
      exact hf.take hp hqueue (Host.peers_go path next) (Host.log_go path next)
        (Host.endpoint_go path next) (hf.offered path pc htask) hoffered

/-- A step of a station keeps the flow. -/
theorem Flow.step {u : Uds29} {s s' : Station maxRxPayload} {out out' : List (Id × Bytes)}
    (hf : Flow s.host arrived) (hi : s.Inv u out) (hm : s.Moves u (s', out')) :
    Flow s'.host arrived := by
  cases hm with
  | host host hidle hm => exact hf.moves hm
  | start functional dest payload =>
      cases s.host.startSend functional dest with
      | again | ret => exact hf
  | opened dest payload ht => exact hf.addPeer (hi.opening _ ht rfl).2
  | drop | sent | fail | again => exact hf

theorem Flow.new (endpoint : Endpoint) (ports : Ports) :
    Flow (Station.new endpoint ports : Station maxRxPayload).host fun _ ↦ [] where
  addrs := by
    cases endpoint with
    | socket | tokio => exact List.nodup_singleton _
    | demux => exact List.nodup_nil
  taken p hp := by
    refine ⟨[], List.Sublist.refl _, ?_⟩
    cases endpoint with
    | socket | tokio =>
        obtain rfl := List.mem_singleton.mp hp
        rfl
    | demux => cases hp
  closed _ _ := ⟨rfl, rfl⟩
  offered _ _ ht := by cases ht
  cut _ _ ht := by cases ht

end Flow

/-! ## The network -/

/-- A PDU on the bus: from which station, and under which identifier. -/
structure Pdu (ι : Type) where
  origin : ι
  id : Id
  data : Bytes
deriving DecidableEq, Repr

/-- The kernel has put a PDU of the bus into the queue of a socket. -/
structure Arrival (ι : Type) where
  station : ι
  addr : UInt8
  index : Nat
deriving DecidableEq, Repr

/-- The stations, with all that was ever on the bus and all that has arrived. -/
structure Network (ι : Type) (maxRxPayload : ι → Nat) where
  station : (n : ι) → Station (maxRxPayload n)
  bus : List (Pdu ι) := []
  arrivals : List (Arrival ι) := []

namespace Network

variable {ι : Type} [DecidableEq ι] {maxRxPayload : ι → Nat}

/-- What the environment does. -/
inductive Label (ι : Type) where
  | station (n : ι) (l : StationLabel)
  | /-- PDU `k` of the bus arrives at socket `i` of station `n`. -/
    deliver (n : ι) (i k : Nat)
deriving DecidableEq, Repr

/-- All stations before their first call. -/
def new (endpoint : ι → Endpoint) (ports : ι → Ports) : Network ι maxRxPayload where
  station n := .new (endpoint n) (ports n)

section Machine

variable (u : Uds29) (net : Network ι maxRxPayload)

/-- One move. -/
def step : Label ι → Option (Network ι maxRxPayload)
  | .station n l =>
      ((net.station n).step u l).map fun (s, out) ↦
        { net with
          station := Function.update net.station n s
          bus := net.bus ++ out.map fun x ↦ ⟨n, x.1, x.2⟩ }
  | .deliver n i k =>
      ((net.station n).host.peers[i]?).bind fun p ↦ (net.bus[k]?).bind fun pdu ↦
        if pdu.id = ((net.station n).portsOf u p.addr).rx then
          some { net with
            station := Function.update net.station n ((net.station n).arrive i pdu.data)
            arrivals := net.arrivals ++ [⟨n, p.addr, k⟩] }
        else none

/-- The network as a machine. -/
def machine : Machine (Network ι maxRxPayload) (Label ι) where
  step net l := net.step u l

/-- What a station has put on the bus. -/
def busOf (n : ι) : List (Id × Bytes) :=
  (net.bus.filter (·.origin = n)).map fun p ↦ (p.id, p.data)

/-- Which PDUs have arrived at a socket. -/
def arrivalsAt (n : ι) (addr : UInt8) : List Nat :=
  (net.arrivals.filter fun x ↦ x.station = n ∧ x.addr = addr).map Arrival.index

/-- The PDUs that have arrived at a socket. -/
def arrivedAt (n : ι) (addr : UInt8) : List Bytes :=
  (net.arrivalsAt n addr).filterMap fun k ↦ (net.bus[k]?).map Pdu.data

end Machine

/-- **The invariant.** -/
structure Inv (u : Uds29) (endpoint : ι → Endpoint) (ports : ι → Ports)
    (net : Network ι maxRxPayload) : Prop where
  station : ∀ n, (net.station n).Inv u (net.busOf n)
  same : ∀ n, (net.station n).host.endpoint = endpoint n ∧ (net.station n).ports = ports n
  flow : ∀ n, Flow (net.station n).host (net.arrivedAt n)
  /-- A socket gets what is on the bus under its identifier. -/
  reached : ∀ x ∈ net.arrivals, ∃ pdu, net.bus[x.index]? = some pdu ∧
    pdu.id = ((endpoint x.station).portsOf u (ports x.station) x.addr).rx

section Moves

variable {u : Uds29} {endpoint : ι → Endpoint} {ports : ι → Ports}
  {net net' : Network ι maxRxPayload}

theorem Inv.new (u : Uds29) (endpoint : ι → Endpoint) (ports : ι → Ports) :
    Inv u endpoint ports (new endpoint ports : Network ι maxRxPayload) where
  station n := .new (endpoint n) (ports n)
  same n := ⟨rfl, rfl⟩
  flow n := .new (endpoint n) (ports n)
  reached _ hx := by cases hx

theorem Inv.portsOf_eq (hi : Inv u endpoint ports net) (n : ι) (addr : UInt8) :
    (net.station n).portsOf u addr = (endpoint n).portsOf u (ports n) addr := by
  rw [Station.portsOf, (hi.same n).1, (hi.same n).2]

/-- What is put on the bus later has arrived nowhere. -/
theorem Inv.arrivedAt_append (hi : Inv u endpoint ports net) (pdus : List (Pdu ι))
    (station : (n : ι) → Station (maxRxPayload n)) (n : ι) (addr : UInt8) :
    arrivedAt ⟨station, net.bus ++ pdus, net.arrivals⟩ n addr = net.arrivedAt n addr := by
  refine List.filterMap_congr fun k hk ↦ ?_
  obtain ⟨x, hx, rfl⟩ := List.mem_map.mp hk
  obtain ⟨pdu, hpdu, -⟩ := hi.reached x (List.mem_filter.mp hx).1
  rw [List.getElem?_append_left (List.getElem?_eq_some_iff.mp hpdu).1]

theorem busOf_append (station : (n : ι) → Station (maxRxPayload n)) (n m : ι)
    (out : List (Id × Bytes)) :
    busOf ⟨station, net.bus ++ out.map fun x ↦ ⟨n, x.1, x.2⟩, net.arrivals⟩ m =
      net.busOf m ++ if m = n then out else [] := by
  unfold busOf
  rw [List.filter_append, List.map_append]
  congr 1
  split
  · next hm =>
      subst hm
      rw [List.filter_eq_self.mpr, List.map_map]
      · exact List.map_id _
      · intro p hp
        obtain ⟨x, -, rfl⟩ := List.mem_map.mp hp
        exact decide_eq_true rfl
  · next hm =>
      rw [List.filter_eq_nil_iff.mpr, List.map_nil]
      intro p hp
      obtain ⟨x, -, rfl⟩ := List.mem_map.mp hp
      rw [decide_eq_true_eq]
      exact fun h ↦ hm h.symm

theorem arrivedAt_snoc (station : (n : ι) → Station (maxRxPayload n)) {n : ι} {addr : UInt8}
    {k : Nat} {pdu : Pdu ι} (hpdu : net.bus[k]? = some pdu) (m : ι) (addr' : UInt8) :
    arrivedAt ⟨station, net.bus, net.arrivals ++ [⟨n, addr, k⟩]⟩ m addr' =
      net.arrivedAt m addr' ++ if n = m ∧ addr = addr' then [pdu.data] else [] := by
  unfold arrivedAt arrivalsAt
  rw [List.filter_append, List.map_append, List.filterMap_append]
  congr 1
  by_cases h : n = m ∧ addr = addr'
  · simp [h, hpdu]
  · simp [h]

/-- A station makes a step. -/
theorem Inv.stepStation (hi : Inv u endpoint ports net) {n : ι} {s : Station (maxRxPayload n)}
    {out : List (Id × Bytes)} (hm : (net.station n).Moves u (s, out)) :
    Inv u endpoint ports ⟨Function.update net.station n s,
      net.bus ++ out.map fun x ↦ ⟨n, x.1, x.2⟩, net.arrivals⟩ where
  station := by
    refine (Function.forall_update_iff net.station fun m s ↦ s.Inv u (busOf _ m)).mpr
      ⟨?_, fun m hmn ↦ ?_⟩
    · rw [busOf_append, if_pos rfl]
      exact (hi.station n).moves hm
    · rw [busOf_append, if_neg hmn, List.append_nil]
      exact hi.station m
  same := by
    refine (Function.forall_update_iff net.station fun m s ↦
      s.host.endpoint = endpoint m ∧ s.ports = ports m).mpr ⟨?_, fun m _ ↦ hi.same m⟩
    rw [hm.same.1, hm.same.2]
    exact hi.same n
  flow := by
    refine (Function.forall_update_iff net.station fun m s ↦ Flow s.host (arrivedAt _ m)).mpr
      ⟨?_, fun m _ ↦ ?_⟩
    · rw [funext (hi.arrivedAt_append _ _ n)]
      exact (hi.flow n).step (hi.station n) hm
    · rw [funext (hi.arrivedAt_append _ _ m)]
      exact hi.flow m
  reached x hx := by
    obtain ⟨pdu, hpdu, hid⟩ := hi.reached x hx
    refine ⟨pdu, ?_, hid⟩
    rw [List.getElem?_append_left (List.getElem?_eq_some_iff.mp hpdu).1]
    exact hpdu

/-- A PDU arrives. -/
theorem Inv.deliver (hi : Inv u endpoint ports net) {n : ι} {i k : Nat}
    {p : PeerSocket (maxRxPayload n)} {pdu : Pdu ι} (hp : (net.station n).host.peers[i]? = some p)
    (hpdu : net.bus[k]? = some pdu) (hid : pdu.id = ((net.station n).portsOf u p.addr).rx) :
    Inv u endpoint ports ⟨Function.update net.station n ((net.station n).arrive i pdu.data),
      net.bus, net.arrivals ++ [⟨n, p.addr, k⟩]⟩ where
  station := by
    refine (Function.forall_update_iff net.station fun m s ↦ s.Inv u (net.busOf m)).mpr
      ⟨?_, fun m _ ↦ hi.station m⟩
    exact (hi.station n).arrive i pdu.data
  same := by
    refine (Function.forall_update_iff net.station fun m s ↦
      s.host.endpoint = endpoint m ∧ s.ports = ports m).mpr ⟨?_, fun m _ ↦ hi.same m⟩
    exact hi.same n
  flow := by
    refine (Function.forall_update_iff net.station fun m s ↦ Flow s.host (arrivedAt _ m)).mpr
      ⟨?_, fun m hmn ↦ ?_⟩
    · have harrived : arrivedAt ⟨Function.update net.station n ((net.station n).arrive i pdu.data),
          net.bus, net.arrivals ++ [⟨n, p.addr, k⟩]⟩ n =
            Function.update (net.arrivedAt n) p.addr (net.arrivedAt n p.addr ++ [pdu.data]) := by
        funext addr
        rw [arrivedAt_snoc _ hpdu, Function.update_apply]
        by_cases haddr : p.addr = addr
        · rw [if_pos ⟨rfl, haddr⟩, if_pos haddr.symm, haddr]
        · rw [if_neg fun h ↦ haddr h.2, if_neg fun h ↦ haddr h.symm, List.append_nil]
      rw [harrived]
      exact (hi.flow n).arrive pdu.data hp
    · have harrived : arrivedAt ⟨Function.update net.station n ((net.station n).arrive i pdu.data),
          net.bus, net.arrivals ++ [⟨n, p.addr, k⟩]⟩ m = net.arrivedAt m := by
        funext addr
        rw [arrivedAt_snoc _ hpdu, if_neg fun h ↦ hmn h.1.symm, List.append_nil]
      rw [harrived]
      exact hi.flow m
  reached x hx := by
    rcases List.mem_append.mp hx with hx | hx
    · exact hi.reached x hx
    · obtain rfl := List.mem_singleton.mp hx
      exact ⟨pdu, hpdu, hi.portsOf_eq n p.addr ▸ hid⟩

/-- **Every move keeps the invariant.** -/
theorem Inv.step (hi : Inv u endpoint ports net) {l : Label ι} (h : net.step u l = some net') :
    Inv u endpoint ports net' := by
  cases l with
  | station n l =>
      obtain ⟨⟨s, out⟩, hs, rfl⟩ := Option.map_eq_some_iff.mp h
      exact hi.stepStation (Station.moves_of_step hs)
  | deliver n i k =>
      obtain ⟨p, hp, h⟩ := Option.bind_eq_some_iff.mp h
      obtain ⟨pdu, hpdu, h⟩ := Option.bind_eq_some_iff.mp h
      obtain ⟨hid, h⟩ := Option.ite_none_right_eq_some.mp h
      exact Option.some.inj h ▸ hi.deliver hp hpdu hid

theorem Inv.of_exec {ls : List (Label ι)}
    (h : (machine u).exec (Network.new endpoint ports : Network ι maxRxPayload) ls = some net) :
    Inv u endpoint ports net :=
  Machine.Reachable.invariant ⟨ls, h⟩ (.new u endpoint ports) fun _ _ _ hi hs ↦ hi.step hs

end Moves

section Received

variable {u : Uds29} {endpoint : ι → Endpoint} {ports : ι → Ports} {net : Network ι maxRxPayload}

/-- What is on the bus was put there by a call that has returned `Ok`. -/
theorem Inv.call_of_bus (hi : Inv u endpoint ports net) {pdu : Pdu ι} (h : pdu ∈ net.bus) :
    ∃ c ∈ (net.station pdu.origin).sends, c.ret = some .ok ∧ c.payload = pdu.data ∧
      ((endpoint pdu.origin).portsOf u (ports pdu.origin) c.dest).tx = pdu.id := by
  have hmem : (pdu.id, pdu.data) ∈ net.busOf pdu.origin :=
    List.mem_map.mpr ⟨pdu, List.mem_filter.mpr ⟨h, decide_eq_true rfl⟩, rfl⟩
  rw [(hi.station pdu.origin).once] at hmem
  obtain ⟨c, hc, hsent⟩ := List.mem_filterMap.mp hmem
  obtain ⟨hok, hsent⟩ := Option.ite_none_right_eq_some.mp hsent
  obtain ⟨hid, hdata⟩ := Prod.mk.inj (Option.some.inj hsent)
  exact ⟨c, hc, hok, hdata, hi.portsOf_eq pdu.origin c.dest ▸ hid⟩

/-- What a socket has got was on the bus under its identifier. -/
theorem Inv.pdu_of_arrival (hi : Inv u endpoint ports net) {n : ι} {addr : UInt8} {k : Nat}
    (hk : k ∈ net.arrivalsAt n addr) : ∃ pdu, net.bus[k]? = some pdu ∧
      pdu.id = ((endpoint n).portsOf u (ports n) addr).rx := by
  obtain ⟨x, hx, rfl⟩ := List.mem_map.mp hk
  obtain ⟨hmem, hat⟩ := List.mem_filter.mp hx
  obtain ⟨rfl, rfl⟩ := of_decide_eq_true hat
  exact hi.reached x hmem

theorem Inv.ne_tokio (hi : Inv u endpoint ports net) {n : ι} {b : UInt8}
    (hb : endpoint n = .demux b) : (net.station n).host.endpoint ≠ .tokio := by
  rw [(hi.same n).1, hb]
  intro h
  cases h

/-- What was delivered has arrived, in that order. -/
theorem Inv.takenFrom_sublist (hi : Inv u endpoint ports net) (n : ι) (addr : UInt8) :
    ((net.station n).host.takenFrom addr).Sublist (net.arrivedAt n addr) := by
  have hf := hi.flow n
  by_cases haddr : addr ∈ (net.station n).host.peers.map PeerSocket.addr
  · obtain ⟨p, hp, rfl⟩ := List.mem_map.mp haddr
    obtain ⟨l, hsub, harrived⟩ := hf.taken p hp
    rw [harrived]
    exact hsub.trans (List.sublist_append_left _ _)
  · rw [(hf.closed addr haddr).2]
    exact List.nil_sublist _

/-- **Each call sends once, if it returns `Ok`.**  In every run of every network, what a station has
put on the bus are the payloads of its calls that have returned `Ok`, in the order of the calls and
under the identifier of the destination. -/
theorem sent_once (u : Uds29) (endpoint : ι → Endpoint) (ports : ι → Ports) (ls : List (Label ι))
    (net : Network ι maxRxPayload) (h : (machine u).exec (new endpoint ports) ls = some net)
    (n : ι) :
    net.busOf n = (net.station n).sends.filterMap fun c ↦
      if c.ret = some .ok then some (((endpoint n).portsOf u (ports n) c.dest).tx, c.payload)
      else none := by
  have hi := Inv.of_exec h
  rw [(hi.station n).once]
  refine List.filterMap_congr fun c _ ↦ ?_
  rw [Station.onBus, hi.portsOf_eq]

/-- **A demux names the sender.**  In every run of every network, what a demux with the address `b`
delivers as from `a` is the payload, as far as it fits, of a call that has returned `Ok`: of a demux
with the address `a`, which has sent it to `b`, or of a socket that was opened with the identifier
for that. -/
theorem demux_authentic (u : Uds29) (endpoint : ι → Endpoint) (ports : ι → Ports)
    (ls : List (Label ι)) (net : Network ι maxRxPayload)
    (h : (machine u).exec (new endpoint ports) ls = some net) (n : ι) (b : UInt8)
    (hb : endpoint n = .demux b) (t : Taken) (ht : t ∈ (net.station n).host.log) (a : UInt8)
    (bytes : Bytes) (hd : t.delivered = some (a, bytes)) :
    bytes = t.pdu.take (maxRxPayload n) ∧
      ∃ m, ∃ c ∈ (net.station m).sends, c.payload = t.pdu ∧ c.ret = some .ok ∧
        (endpoint m = .demux a ∧ c.dest = b ∨
          (∀ a', endpoint m ≠ .demux a') ∧ (ports m).tx = u.physId b a) := by
  have hi := Inv.of_exec h
  refine ⟨(hi.flow n).cut (hi.ne_tokio hb) t ht a bytes hd, ?_⟩
  have htaken : t.pdu ∈ (net.station n).host.takenFrom a := by
    refine List.mem_map.mpr ⟨t, List.mem_filter.mpr ⟨ht, ?_⟩, rfl⟩
    rw [hd]
    exact decide_eq_true rfl
  obtain ⟨k, hk, hdata⟩ := List.mem_filterMap.mp ((hi.takenFrom_sublist n a).subset htaken)
  obtain ⟨pdu, hpdu, hid⟩ := hi.pdu_of_arrival hk
  rw [hpdu] at hdata
  obtain ⟨c, hc, hok, hpayload, htx⟩ := hi.call_of_bus (List.mem_of_getElem? hpdu)
  rw [hid, hb] at htx
  refine ⟨pdu.origin, c, hc, hpayload.trans (Option.some.inj hdata), hok, ?_⟩
  cases hm : endpoint pdu.origin with
  | demux a' =>
      rw [hm] at htx
      obtain ⟨hdest, rfl⟩ := u.physId_inj.mp htx
      exact .inl ⟨rfl, hdest⟩
  | socket | tokio =>
      rw [hm] at htx
      exact .inr ⟨nofun, htx⟩

/-! ## Order -/

/-- What arrives in the order of the bus, under an identifier that `m` alone uses, is what `m` has
put on the bus under it. -/
theorem Inv.arrivedAt_sublist (hi : Inv u endpoint ports net) {n m : ι} {addr : UInt8} {id : Id}
    (hid : ((endpoint n).portsOf u (ports n) addr).rx = id)
    (honly : ∀ k dest, k ≠ m → ((endpoint k).portsOf u (ports k) dest).tx ≠ id)
    (horder : (net.arrivalsAt n addr).Pairwise (· < ·)) :
    (net.arrivedAt n addr).Sublist (((net.busOf m).filter (·.1 = id)).map Prod.snd) := by
  have hown : ∀ pdu ∈ (net.arrivalsAt n addr).filterMap fun k ↦ net.bus[k]?,
      decide (pdu.id = id ∧ pdu.origin = m) = true := by
    intro pdu hpdu
    obtain ⟨k, hk, hbus⟩ := List.mem_filterMap.mp hpdu
    obtain ⟨pdu', hpdu', hrx⟩ := hi.pdu_of_arrival hk
    obtain rfl := Option.some.inj (hbus.symm.trans hpdu')
    obtain ⟨c, -, -, -, htx⟩ := hi.call_of_bus (List.mem_of_getElem? hbus)
    refine decide_eq_true ⟨hrx.trans hid, ?_⟩
    by_contra hne
    exact honly pdu.origin c.dest hne (htx.trans (hrx.trans hid))
  have hsub := (filterMap_getElem?_sublist net.bus horder).filter
    fun pdu ↦ decide (pdu.id = id ∧ pdu.origin = m)
  rw [List.filter_eq_self.mpr hown] at hsub
  have harrived : net.arrivedAt n addr =
      ((net.arrivalsAt n addr).filterMap fun k ↦ net.bus[k]?).map Pdu.data :=
    List.map_filterMap.symm
  have hbus : ((net.busOf m).filter (·.1 = id)).map Prod.snd =
      (net.bus.filter fun pdu ↦ decide (pdu.id = id ∧ pdu.origin = m)).map Pdu.data := by
    rw [busOf, List.filter_map, List.map_map, List.filter_filter]
    simp only [Function.comp_def, Bool.decide_and]
  rw [harrived, hbus]
  exact hsub.map Pdu.data

/-- **Payloads are delivered in the order they were sent.**  Where the bus brings the demux `n` what
is sent under the identifier of `a` for `b` in the order of the bus, nothing twice, and `m` alone
uses that identifier: the PDUs that `n` takes as from `a` are payloads of calls of `m`, in their
order, and what it delivers is these PDUs one by one, each cut off where it does not fit. -/
theorem demux_in_order (u : Uds29) (endpoint : ι → Endpoint) (ports : ι → Ports)
    (ls : List (Label ι)) (net : Network ι maxRxPayload)
    (h : (machine u).exec (new endpoint ports) ls = some net) (n m : ι) (a b : UInt8)
    (hb : endpoint n = .demux b) (ha : endpoint m = .demux a)
    (honly : ∀ k dest, k ≠ m → ((endpoint k).portsOf u (ports k) dest).tx ≠ u.physId b a)
    (horder : (net.arrivalsAt n a).Pairwise (· < ·)) :
    ((net.station n).host.takenFrom a).Sublist
        ((net.station m).sends.filterMap fun c ↦
          if c.dest = b ∧ c.ret = some .ok then some c.payload else none) ∧
      (net.station n).host.deliveredFrom a =
        ((net.station n).host.takenFrom a).map (List.take (maxRxPayload n)) := by
  have hi := Inv.of_exec h
  refine ⟨?_, (hi.flow n).deliveredFrom_eq (hi.ne_tokio hb) a⟩
  have hid : ((endpoint n).portsOf u (ports n) a).rx = u.physId b a := by rw [hb]; rfl
  refine ((hi.takenFrom_sublist n a).trans (hi.arrivedAt_sublist hid honly horder)).trans ?_
  have hsent : ∀ c : Sent,
      ((Option.filter (·.1 = u.physId b a) ((net.station m).onBus u c)).map Prod.snd) =
        if c.dest = b ∧ c.ret = some .ok then some c.payload else none := by
    intro c
    have htx : ((net.station m).portsOf u c.dest).tx = u.physId c.dest a := by
      rw [hi.portsOf_eq, ha]
      rfl
    rw [Station.onBus, htx]
    by_cases hok : c.ret = some .ok
    · by_cases hdest : c.dest = b
      · simp [hok, hdest]
      · have hne : u.physId c.dest a ≠ u.physId b a := fun heq ↦ hdest (u.physId_inj.mp heq).1
        simp [hok, hdest, hne]
    · simp [hok]
  rw [(hi.station m).once, List.filter_filterMap, List.map_filterMap]
  simp only [hsent]
  exact List.Sublist.refl _

end Received

/-! ## Two demuxes -/

/-- `encode_phys_id_raw`. -/
def normalFixed : Uds29 where
  encodePhysIdRaw target source := .ofNat (0x18DA0000 + target.toNat * 256 + source.toNat)
  le target source := by
    have ht := target.toNat_lt
    have hs := source.toNat_lt
    rw [UInt32.toNat_ofNat']
    omega
  inj := by
    intro t t' s s' h
    have ht := t.toNat_lt
    have ht' := t'.toNat_lt
    have hs := s.toNat_lt
    have hs' := s'.toNat_lt
    have hnat := congrArg UInt32.toNat h
    rw [UInt32.toNat_ofNat', UInt32.toNat_ofNat'] at hnat
    rw [← UInt8.toNat_inj, ← UInt8.toNat_inj]
    omega

/-- `0x10` and `0x20`. -/
def twoDemuxes (n : Bool) : Endpoint := .demux (if n then 0x10 else 0x20)

/-- Nothing depends on them. -/
def noPorts (_ : Bool) : Ports := ⟨.extended ⟨0, by decide⟩, .extended ⟨0, by decide⟩⟩

/-- `0x10` sends two PDUs to `0x20`, the first of which does not fit, and then tries once more. -/
def twoSent : List (Label Bool) :=
  [.station false (.host (.register 0x10)),
    .station true (.send (.call false 0x20 [1, 2, 3])), .station true (.send .opened),
    .station true (.send (.sendFailed .interrupted)),
    .station true (.send (.sendFailed .wouldBlock)),
    .station true (.send (.clock false)), .station true (.send (.poll true)),
    .station true (.send .sent), .deliver false 0 0,
    .station true (.send (.call false 0x20 [4])), .station true (.send .sent), .deliver false 0 1,
    .station true (.send (.call false 0x20 [5])),
    .station true (.send (.sendFailed .wouldBlock)), .station true (.send (.clock true)),
    .station false (.host (.call .demuxRecvOne)), .station false (.host (.polls [⟨true, false⟩])),
    .station false (.host (.recv true)),
    .station false (.host (.call .demuxRecvOne)), .station false (.host (.polls [⟨true, false⟩])),
    .station false (.host (.recv true))]

theorem sent_once_twoSent : ∃ net : Network Bool fun _ ↦ 2,
    (machine normalFixed).exec (new twoDemuxes noPorts) twoSent = some net ∧
      (net.station true).sends.map Sent.ret = [some .ok, some .ok, some .timeout] ∧
        net.busOf true =
          [(normalFixed.physId 0x20 0x10, [1, 2, 3]), (normalFixed.physId 0x20 0x10, [4])] := by
  have hexec : (machine normalFixed).exec
      (new twoDemuxes noPorts : Network Bool fun _ ↦ 2) twoSent =
      some { station := _, bus := _, arrivals := _ } := rfl
  exact ⟨_, hexec, rfl, (sent_once normalFixed twoDemuxes noPorts twoSent _ hexec true).trans rfl⟩

theorem demux_authentic_twoSent : ∃ net : Network Bool fun _ ↦ 2,
    (machine normalFixed).exec (new twoDemuxes noPorts) twoSent = some net ∧
      ∃ t ∈ (net.station false).host.log, t.delivered = some (0x10, [1, 2]) ∧
        ∃ m, ∃ c ∈ (net.station m).sends, c.payload = t.pdu ∧ c.ret = some .ok ∧
          (twoDemuxes m = .demux 0x10 ∧ c.dest = 0x20 ∨
            (∀ a', twoDemuxes m ≠ .demux a') ∧ (noPorts m).tx = normalFixed.physId 0x20 0x10) := by
  have hexec : (machine normalFixed).exec
      (new twoDemuxes noPorts : Network Bool fun _ ↦ 2) twoSent =
      some { station := _, bus := _, arrivals := _ } := rfl
  refine ⟨_, hexec, ⟨[1, 2, 3], some (0x10, [1, 2]), .deliveredOne⟩, List.mem_cons_self, rfl, ?_⟩
  exact (demux_authentic normalFixed twoDemuxes noPorts twoSent _ hexec false 0x20 rfl _
    List.mem_cons_self 0x10 [1, 2] rfl).2

theorem demux_in_order_twoSent : ∃ net : Network Bool fun _ ↦ 2,
    (machine normalFixed).exec (new twoDemuxes noPorts) twoSent = some net ∧
      (net.station false).host.takenFrom 0x10 = [[1, 2, 3], [4]] ∧
        (net.station false).host.deliveredFrom 0x10 = [[1, 2], [4]] ∧
        ((net.station false).host.takenFrom 0x10).Sublist
          ((net.station true).sends.filterMap fun c ↦
            if c.dest = 0x20 ∧ c.ret = some .ok then some c.payload else none) ∧
        (net.station false).host.deliveredFrom 0x10 =
          ((net.station false).host.takenFrom 0x10).map (List.take 2) := by
  have hexec : (machine normalFixed).exec
      (new twoDemuxes noPorts : Network Bool fun _ ↦ 2) twoSent =
      some { station := _, bus := _, arrivals := _ } := rfl
  refine ⟨_, hexec, rfl, rfl, demux_in_order normalFixed twoDemuxes noPorts twoSent _ hexec false true
    0x10 0x20 rfl rfl ?_ ?_⟩
  · intro k dest hk heq
    obtain rfl : k = false := Bool.eq_false_of_not_eq_true hk
    exact absurd (normalFixed.physId_inj.mp heq).2 (by decide)
  · decide

end Network

end Thincan.IsoTp

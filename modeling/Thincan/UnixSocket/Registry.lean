import Thincan.UnixSocket.System

/-!
# The registry of clients

The threads of `embedded-can-unix-socket/src/server.rs` once more, without the streams: what
matters here is who posts which commands to the bus thread, in which order, and what is left of
a client in the two maps of `bus_loop`.

Other than in `System`, the ids of clients are not their channels.  `next_id` wraps, so two
connections can have one id, and a channel is named by its connection.  `Maps.handleCommand` is
`Bus.handleCommand` with channels; `Maps.Forgets` is the relation between the two, and
`Maps.Forgets.handleCommand` says that a command keeps it.

All that a reader or a writer can do is left open: a reader posts any commands, until it posts
`RemoveClient` and ends, and a writer ends at any time, with or without `RemoveClient`.
-/

namespace Thincan.UnixSocket

open Process

/-! ## The code -/

/-- `BusCommand`.  The channel `tx` of a client is the number of its connection. -/
inductive BusCommand where
  | addClient (id : ClientId) (tx : Nat)
  | removeClient (id : ClientId)
  | sendFrame (id : ClientId) (seq : UInt64) (expectAck : Bool) (frame : UnixFrame)
  | setFilters (id : ClientId) (seq : UInt64) (filters : List IdMaskFilter)
  | shutdown
deriving DecidableEq, Repr

/-- `ClientState`, with the channel. -/
structure Member where
  tx : Nat
  filters : List IdMaskFilter
deriving DecidableEq, Repr

/-- The maps of `bus_loop`, and all that was put on a channel. -/
structure Maps where
  clients : AList (fun _ : ClientId ↦ Member) := ∅
  pending : AList (fun _ : ClientId ↦ PendingFilters) := ∅
  sent : List (Nat × ServerMsg) := []

namespace Maps

variable (m : Maps)

/-- `tx.send`. -/
def send (tx : Nat) (msg : ServerMsg) : Maps := { m with sent := m.sent ++ [(tx, msg)] }

/-- One turn of the loop in `broadcast_frame`. -/
def offer (frame : UnixFrame) (m' : Maps) (id : ClientId) : Maps :=
  match m.clients.lookup id with
  | some client => if filtersMatch client.filters frame then m'.send client.tx (.frame frame) else m'
  | none => m'

/-- `broadcast_frame`, walking the clients in the order `order`. -/
def broadcastFrame (order : List ClientId) (frame : UnixFrame) : Maps :=
  order.foldl (m.offer frame) m

/-- `handle_command`. -/
def handleCommand (order : List ClientId) : BusCommand → Maps
  | .addClient id tx =>
      let pending := m.pending.lookup id
      let filters := (pending.map PendingFilters.filters).getD []
      let m' := { m with clients := m.clients.insert id ⟨tx, filters⟩, pending := m.pending.erase id }
      match pending with
      | some p => (m'.send tx .hello).send tx (.filtersAck p.seq ackOk)
      | none => m'.send tx .hello
  | .removeClient id => { m with clients := m.clients.erase id, pending := m.pending.erase id }
  | .sendFrame id seq expectAck frame =>
      let ackStatus := if expectAck && m.clients.keys.length ≤ 1 then ackNoAck else ackOk
      let m' := m.broadcastFrame order frame
      if expectAck then
        match m.clients.lookup id with
        | some client => m'.send client.tx (.ack seq ackStatus)
        | none => m'
      else m'
  | .setFilters id seq filters =>
      if seq = 0 then
        match m.clients.lookup id with
        | some client => m.send client.tx (.filtersAck seq ackServerErr)
        | none => m
      else
        match m.clients.lookup id with
        | some client =>
            { m with clients := m.clients.insert id ⟨client.tx, filters⟩ }.send client.tx
              (.filtersAck seq ackOk)
        | none => { m with pending := m.pending.insert id ⟨seq, filters⟩ }
  | .shutdown => m

end Maps

/-- A command in the queue, with the connection whose reader, writer or accept posted it. -/
structure Posted where
  conn : Option Nat
  command : BusCommand
deriving DecidableEq, Repr

/-- What `client_reader_loop` posts of a message. -/
inductive ReaderCommand where
  | sendFrame (seq : UInt64) (expectAck : Bool) (frame : UnixFrame)
  | setFilters (seq : UInt64) (filters : List IdMaskFilter)
deriving DecidableEq, Repr

/-- The command of connection `k`. -/
def ReaderCommand.command (k : Nat) : ReaderCommand → BusCommand
  | .sendFrame seq expectAck frame => .sendFrame (connId k) seq expectAck frame
  | .setFilters seq filters => .setFilters (connId k) seq filters

/-- The first command of a connection. -/
def addition (k : Nat) : Posted := ⟨some k, .addClient (connId k) k⟩

/-- `RemoveClient` from one of the threads of a connection. -/
def removal (k : Nat) : Posted := ⟨some k, .removeClient (connId k)⟩

/-- Threads, queue and maps of the server. -/
structure Registry where
  /-- Connections so far. -/
  accepted : Nat := 0
  /-- The readers that run. -/
  reading : Nat → Bool := fun _ ↦ false
  /-- The writers that run. -/
  writing : Nat → Bool := fun _ ↦ false
  /-- The commands that wait for the bus thread. -/
  queue : List Posted := []
  /-- The commands that the bus thread has handled. -/
  handled : List Posted := []
  maps : Maps := {}
  /-- The bus thread has seen `Shutdown`. -/
  stopped : Bool := false

/-- Who takes a step. -/
inductive Turn where
  | accept
  | /-- `handle_client` fails before there are threads; the id is used up. -/
    refuse
  | reader (k : Nat) (req : ReaderCommand)
  | readerEnd (k : Nat)
  | writerEnd (k : Nat) (failed : Bool)
  | shutdown
  | /-- `bus_loop` handles a command, and walks the clients in the order given. -/
    bus (order : List ClientId)
deriving DecidableEq, Repr

namespace Registry

variable (r : Registry)

/-- `cmd_tx.send`. -/
def post (ps : List Posted) : Registry := { r with queue := r.queue ++ ps }

/-- `handle_client`. -/
def accept : Registry :=
  { r with
    accepted := r.accepted + 1
    reading := Function.update r.reading r.accepted true
    writing := Function.update r.writing r.accepted true }.post [addition r.accepted]

/-- The loop of the reader ends. -/
def stopReader (k : Nat) : Registry :=
  { r with reading := Function.update r.reading k false }.post [removal k]

/-- The loop of the writer ends. -/
def stopWriter (k : Nat) (failed : Bool) : Registry :=
  { r with writing := Function.update r.writing k false }.post (if failed then [removal k] else [])

/-- The body of `bus_loop`. -/
def stepBus (order : List ClientId) : Option Registry :=
  match r.queue with
  | [] => none
  | p :: queue =>
      if r.stopped = false ∧ order.Perm r.maps.clients.keys then
        some { r with
          queue := queue
          handled := r.handled ++ [p]
          maps := r.maps.handleCommand order p.command
          stopped := decide (p.command = .shutdown) }
      else none

/-- A step of the server. -/
def step : Turn → Option Registry
  | .accept => some r.accept
  | .refuse => some { r with accepted := r.accepted + 1 }
  | .reader k req => if r.reading k = true then some (r.post [⟨some k, req.command k⟩]) else none
  | .readerEnd k => if r.reading k = true then some (r.stopReader k) else none
  | .writerEnd k failed => if r.writing k = true then some (r.stopWriter k failed) else none
  | .shutdown => some (r.post [⟨none, .shutdown⟩])
  | .bus order => r.stepBus order

/-- What was put on the channel of a connection. -/
def channel (k : Nat) : List ServerMsg := (r.maps.sent.filter (·.1 = k)).map Prod.snd

/-- The commands of a connection, in order. -/
def stream (k : Nat) : List Posted := (r.handled ++ r.queue).filter (·.conn = some k)

/-- The reader of a connection has ended, and all commands of the connection are handled. -/
def Settled (k : Nat) : Prop := r.reading k = false ∧ ∀ p ∈ r.queue, p.conn ≠ some k

end Registry

/-- The threads of the server as a machine. -/
def registryMachine : Machine Registry Turn where
  step r t := r.step t

/-! ## Commands -/

/-- The client of a command. -/
def BusCommand.client : BusCommand → Option ClientId
  | .addClient id _ | .removeClient id | .sendFrame id .. | .setFilters id .. => some id
  | .shutdown => none

namespace Maps

variable {m m' m'' : Maps} {P : Nat → Prop}

/-- A channel is that of a client. -/
def Has (m : Maps) (tx : Nat) : Prop := ∃ id client, m.clients.lookup id = some client ∧ client.tx = tx

/-- Between two states, there were messages on channels of `P` only. -/
def Sends (P : Nat → Prop) (m m' : Maps) : Prop :=
  ∃ msgs, m'.sent = m.sent ++ msgs ∧ ∀ p ∈ msgs, P p.1

namespace Sends

theorem of_eq (h : m'.sent = m.sent) : Sends P m m' := ⟨[], by rw [h, List.append_nil], nofun⟩

theorem send (h : Sends P m m') {tx : Nat} (htx : P tx) (msg : ServerMsg) :
    Sends P m (m'.send tx msg) := by
  obtain ⟨msgs, hsent, hP⟩ := h
  refine ⟨msgs ++ [(tx, msg)], ?_, ?_⟩
  · change m'.sent ++ _ = _
    rw [hsent, List.append_assoc]
  · intro p hp
    rcases List.mem_append.mp hp with hp | hp
    · exact hP p hp
    · rw [List.mem_singleton.mp hp]
      exact htx

/-- A channel that is not in `P` is as it was. -/
theorem filter_eq (h : Sends P m m') {k : Nat} (hk : ¬P k) :
    m'.sent.filter (·.1 = k) = m.sent.filter (·.1 = k) := by
  obtain ⟨msgs, hsent, hP⟩ := h
  have hnone : msgs.filter (·.1 = k) = [] := by
    rw [List.filter_eq_nil_iff]
    intro p hp heq
    exact hk (of_decide_eq_true heq ▸ hP p hp)
  rw [hsent, List.filter_append, hnone, List.append_nil]

end Sends

/-- The walk of `broadcast_frame` leaves the maps and writes to clients. -/
theorem foldl_offer (order : List ClientId) (frame : UnixFrame) (h : Sends m.Has m m')
    (hclients : m'.clients = m.clients) (hpending : m'.pending = m.pending) :
    (order.foldl (m.offer frame) m').clients = m.clients ∧
      (order.foldl (m.offer frame) m').pending = m.pending ∧
      Sends m.Has m (order.foldl (m.offer frame) m') := by
  induction order generalizing m' with
  | nil => exact ⟨hclients, hpending, h⟩
  | cons id order ih =>
      rw [List.foldl_cons]
      rw [offer]
      split
      · next client hclient =>
          split
          · exact ih (h.send ⟨id, client, hclient, rfl⟩ _) hclients hpending
          · exact ih h hclients hpending
      · exact ih h hclients hpending

/-- What a command can do. -/
inductive Handles (m : Maps) : BusCommand → Maps → Prop where
  | add {id : ClientId} {tx : Nat} {filters : List IdMaskFilter} {m' : Maps}
      (hclients : m'.clients = m.clients.insert id ⟨tx, filters⟩)
      (hpending : m'.pending = m.pending.erase id) (hsends : Sends (· = tx) m m') :
      Handles m (.addClient id tx) m'
  | remove (id : ClientId) :
      Handles m (.removeClient id)
        { m with clients := m.clients.erase id, pending := m.pending.erase id }
  | leave {c : BusCommand} {m' : Maps} (hc : ∀ id, c ≠ .removeClient id)
      (hclients : m'.clients = m.clients) (hpending : m'.pending = m.pending)
      (hsends : Sends m.Has m m') : Handles m c m'
  | replace {id : ClientId} {seq : UInt64} {filters : List IdMaskFilter} {client : Member}
      {m' : Maps} (hclient : m.clients.lookup id = some client)
      (hclients : m'.clients = m.clients.insert id ⟨client.tx, filters⟩)
      (hpending : m'.pending = m.pending) (hsends : Sends m.Has m m') :
      Handles m (.setFilters id seq filters) m'
  | park {id : ClientId} (seq : UInt64) (filters : List IdMaskFilter)
      (hclient : m.clients.lookup id = none) :
      Handles m (.setFilters id seq filters)
        { m with pending := m.pending.insert id ⟨seq, filters⟩ }

theorem handles_handleCommand (m : Maps) (order : List ClientId) (c : BusCommand) :
    m.Handles c (m.handleCommand order c) := by
  cases c with
  | addClient id tx =>
      rw [handleCommand]
      cases m.pending.lookup id with
      | none =>
          refine .add rfl rfl ?_
          exact Sends.send (P := (· = tx)) (.of_eq rfl) rfl _
      | some p =>
          refine .add rfl rfl ?_
          exact (Sends.send (P := (· = tx)) (.of_eq rfl) rfl _).send rfl _
  | removeClient id => exact .remove id
  | sendFrame id seq expectAck frame =>
      obtain ⟨hclients, hpending, hsends⟩ := foldl_offer order frame (.of_eq rfl) rfl rfl
      rw [handleCommand]
      split
      · split
        · next client hclient =>
            exact .leave nofun hclients hpending (hsends.send ⟨id, client, hclient, rfl⟩ _)
        · exact .leave nofun hclients hpending hsends
      · exact .leave nofun hclients hpending hsends
  | setFilters id seq filters =>
      rw [handleCommand]
      split
      · split
        · next client hclient =>
            exact .leave nofun rfl rfl (Sends.send (.of_eq rfl) ⟨id, client, hclient, rfl⟩ _)
        · exact .leave nofun rfl rfl (.of_eq rfl)
      · split
        · next client hclient =>
            exact .replace hclient rfl rfl (Sends.send (.of_eq rfl) ⟨id, client, hclient, rfl⟩ _)
        · next hclient => exact .park seq filters hclient
  | shutdown => exact .leave nofun rfl rfl (.of_eq rfl)

variable {c : BusCommand}

/-- No id is in both maps. -/
def Apart (m : Maps) : Prop := ∀ id, id ∈ m.clients → id ∉ m.pending

theorem Handles.apart (h : m.Handles c m') (hm : m.Apart) : m'.Apart := by
  intro id hid
  cases h with
  | add hclients hpending =>
      rw [hpending, AList.mem_erase]
      rw [hclients, AList.mem_insert] at hid
      rintro ⟨hne, hin⟩
      exact hm id (hid.resolve_left hne) hin
  | remove id' =>
      rw [AList.mem_erase] at hid ⊢
      exact fun hin ↦ hm id hid.2 hin.2
  | leave _ hclients hpending =>
      rw [hpending]
      exact hm id (hclients ▸ hid)
  | replace hclient hclients hpending =>
      rw [hpending]
      rw [hclients, AList.mem_insert] at hid
      rcases hid with rfl | hid
      · exact hm _ (AList.lookup_isSome.mp (Option.isSome_of_eq_some hclient))
      · exact hm id hid
  | park seq filters hclient =>
      rw [AList.mem_insert]
      rintro (rfl | hin)
      · exact AList.lookup_eq_none.mp hclient hid
      · exact hm id hid hin

/-- The channel of an id stays, or comes with the client. -/
theorem Handles.lookup (h : m.Handles c m') {id : ClientId} {client : Member}
    (hid : m'.clients.lookup id = some client) :
    (c ≠ .removeClient id ∧ ∃ client', m.clients.lookup id = some client' ∧ client'.tx = client.tx) ∨
      c = .addClient id client.tx := by
  cases h with
  | @add id' tx filters _ hclients =>
      rw [hclients] at hid
      by_cases heq : id = id'
      · subst heq
        rw [AList.lookup_insert] at hid
        rw [← Option.some.inj hid]
        exact .inr rfl
      · rw [AList.lookup_insert_ne heq] at hid
        exact .inl ⟨nofun, client, hid, rfl⟩
  | remove id' =>
      by_cases heq : id = id'
      · subst heq
        rw [AList.lookup_erase] at hid
        cases hid
      · rw [AList.lookup_erase_ne heq] at hid
        refine .inl ⟨?_, client, hid, rfl⟩
        rintro ⟨⟩
        exact heq rfl
  | leave hc hclients => exact .inl ⟨hc id, client, hclients ▸ hid, rfl⟩
  | @replace id' seq filters client' _ hclient hclients =>
      rw [hclients] at hid
      by_cases heq : id = id'
      · subst heq
        rw [AList.lookup_insert] at hid
        rw [← Option.some.inj hid]
        exact .inl ⟨nofun, client', hclient, rfl⟩
      · rw [AList.lookup_insert_ne heq] at hid
        exact .inl ⟨nofun, client, hid, rfl⟩
  | park => exact .inl ⟨nofun, client, hid, rfl⟩

/-- An id is in one of the maps. -/
def Mentions (m : Maps) (id : ClientId) : Prop := id ∈ m.clients ∨ id ∈ m.pending

/-- An id stays in the maps, or comes with a command of the client. -/
theorem Handles.mentions (h : m.Handles c m') {id : ClientId} (hid : m'.Mentions id) :
    c ≠ .removeClient id ∧ (m.Mentions id ∨ c.client = some id) := by
  cases h with
  | @add id' tx filters _ hclients hpending =>
      refine ⟨nofun, ?_⟩
      rw [Mentions, hclients, hpending, AList.mem_insert, AList.mem_erase] at hid
      rcases hid with (rfl | hid) | hid
      · exact .inr rfl
      · exact .inl (.inl hid)
      · exact .inl (.inr hid.2)
  | remove id' =>
      rw [Mentions, AList.mem_erase, AList.mem_erase] at hid
      refine ⟨?_, .inl (hid.imp And.right And.right)⟩
      rintro ⟨⟩
      rcases hid with hid | hid
      · exact hid.1 rfl
      · exact hid.1 rfl
  | leave hc hclients hpending =>
      rw [Mentions, hclients, hpending] at hid
      exact ⟨hc id, .inl hid⟩
  | @replace id' seq filters client' _ hclient hclients hpending =>
      refine ⟨nofun, ?_⟩
      rw [Mentions, hclients, hpending, AList.mem_insert] at hid
      rcases hid with (rfl | hid) | hid
      · exact .inr rfl
      · exact .inl (.inl hid)
      · exact .inl (.inr hid)
  | park seq filters hclient =>
      refine ⟨nofun, ?_⟩
      rw [Mentions, AList.mem_insert] at hid
      rcases hid with hid | rfl | hid
      · exact .inl (.inl hid)
      · exact .inr rfl
      · exact .inl (.inr hid)

/-- A command writes to clients, or to the one it adds. -/
theorem Handles.sends (h : m.Handles c m') :
    Sends (fun tx ↦ m.Has tx ∨ ∃ id, c = .addClient id tx) m m' := by
  have mono {P : Nat → Prop} (hsends : Sends P m m')
      (hP : ∀ tx, P tx → m.Has tx ∨ ∃ id, c = .addClient id tx) :
      Sends (fun tx ↦ m.Has tx ∨ ∃ id, c = .addClient id tx) m m' := by
    obtain ⟨msgs, hsent, hmsgs⟩ := hsends
    exact ⟨msgs, hsent, fun p hp ↦ hP p.1 (hmsgs p hp)⟩
  cases h with
  | add _ _ hsends =>
      refine mono hsends ?_
      rintro _ rfl
      exact .inr ⟨_, rfl⟩
  | remove | park => exact .of_eq rfl
  | leave _ _ _ hsends => exact mono hsends fun _ ↦ .inl
  | replace _ _ _ hsends => exact mono hsends fun _ ↦ .inl

end Maps

/-! ## The bus without channels -/

/-- The command, if the channel of a client is that of its id. -/
def BusCommand.forget : BusCommand → Command
  | .addClient id _ => .addClient id
  | .removeClient id => .removeClient id
  | .sendFrame id seq expectAck frame => .sendFrame id seq expectAck frame
  | .setFilters id seq filters => .setFilters id seq filters
  | .shutdown => .shutdown

namespace Maps

variable {m m' : Maps} {b b' : Bus}

/-- `b` is `m` with one channel for all connections of an id. -/
structure Forgets (m : Maps) (b : Bus) : Prop where
  keys : m.clients.keys = b.clients.keys
  clients : ∀ id, b.clients.lookup id = (m.clients.lookup id).map fun client ↦ ⟨client.filters⟩
  pending : b.pending = m.pending
  home : ∀ id client, m.clients.lookup id = some client → connId client.tx = id
  out : ∀ id, b.out id = (m.sent.filter (connId ·.1 = id)).map Prod.snd

namespace Forgets

theorem send (h : m.Forgets b) (tx : Nat) (msg : ServerMsg) :
    (m.send tx msg).Forgets (b.send (connId tx) msg) where
  keys := h.keys
  clients := h.clients
  pending := h.pending
  home := h.home
  out id := by
    change Function.update b.out _ _ id = ((m.sent ++ [(tx, msg)]).filter _).map _
    rw [List.filter_append, List.map_append, ← h.out, List.filter_cons, List.filter_nil,
      Function.update_apply]
    by_cases hid : connId tx = id
    · subst hid
      simp only [decide_true, if_true]
      rfl
    · simp only [hid, Ne.symm hid, decide_false, if_false, Bool.false_eq_true, List.map_nil, List.append_nil]

/-- A client comes, or gets other filters. -/
theorem insert (h : m.Forgets b) {id : ClientId} (client : Member) (hhome : connId client.tx = id)
    (hclients : m'.clients = m.clients.insert id client) (hsent : m'.sent = m.sent)
    (hclients' : b'.clients = b.clients.insert id ⟨client.filters⟩) (hpending : b'.pending = m'.pending)
    (hout : b'.out = b.out) : m'.Forgets b' where
  keys := by rw [hclients, hclients', AList.keys_insert, AList.keys_insert, h.keys]
  clients id' := by
    rw [hclients, hclients']
    by_cases heq : id' = id
    · rw [heq, AList.lookup_insert, AList.lookup_insert, Option.map_some]
    · rw [AList.lookup_insert_ne heq, AList.lookup_insert_ne heq, h.clients]
  pending := hpending
  home id' client' hid := by
    rw [hclients] at hid
    by_cases heq : id' = id
    · subst heq
      rw [AList.lookup_insert] at hid
      exact Option.some.inj hid ▸ hhome
    · rw [AList.lookup_insert_ne heq] at hid
      exact h.home id' client' hid
  out id' := by rw [hout, hsent, h.out]

/-- A client leaves. -/
theorem erase (h : m.Forgets b) (id : ClientId) :
    { m with clients := m.clients.erase id, pending := m.pending.erase id }.Forgets
      { b with clients := b.clients.erase id, pending := b.pending.erase id } where
  keys := by rw [AList.keys_erase, AList.keys_erase, h.keys]
  clients id' := by
    by_cases heq : id' = id
    · rw [heq, AList.lookup_erase, AList.lookup_erase, Option.map_none]
    · rw [AList.lookup_erase_ne heq, AList.lookup_erase_ne heq, h.clients]
  pending := congrArg (AList.erase id) h.pending
  home id' client hid := by
    by_cases heq : id' = id
    · rw [heq, AList.lookup_erase] at hid
      cases hid
    · rw [AList.lookup_erase_ne heq] at hid
      exact h.home id' client hid
  out := h.out

theorem foldl_offer (h : m.Forgets b) (h' : m'.Forgets b') (order : List ClientId) (frame : UnixFrame) :
    (order.foldl (m.offer frame) m').Forgets (order.foldl (b.offer frame) b') := by
  induction order generalizing m' b' with
  | nil => exact h'
  | cons id order ih =>
      rw [List.foldl_cons, List.foldl_cons]
      refine ih ?_
      rw [offer, Bus.offer, h.clients]
      cases hid : m.clients.lookup id with
      | none => exact h'
      | some client =>
          simp only [Option.map_some]
          split
          · exact h.home id client hid ▸ h'.send client.tx _
          · exact h'

/-- **Commands do the same with and without channels.** -/
theorem handleCommand (h : m.Forgets b) (order : List ClientId) {c : BusCommand}
    (hc : ∀ id tx, c = .addClient id tx → connId tx = id) :
    (m.handleCommand order c).Forgets (b.handleCommand order c.forget) := by
  cases c with
  | addClient id tx =>
      obtain rfl := hc id tx rfl
      rw [Maps.handleCommand, BusCommand.forget, Bus.handleCommand, h.pending]
      cases m.pending.lookup (connId tx) with
      | none =>
          refine send ?_ tx .hello
          exact h.insert ⟨tx, []⟩ rfl rfl rfl rfl rfl rfl
      | some p =>
          refine (send ?_ tx .hello).send tx _
          exact h.insert ⟨tx, p.filters⟩ rfl rfl rfl rfl rfl rfl
  | removeClient id => exact h.erase id
  | sendFrame id seq expectAck frame =>
      have hsame := h.foldl_offer h order frame
      rw [Maps.handleCommand, BusCommand.forget, Bus.handleCommand, h.clients, ← h.keys]
      cases expectAck with
      | false => exact hsame
      | true =>
          cases hid : m.clients.lookup id with
          | none => exact hsame
          | some client => exact h.home id client hid ▸ hsame.send client.tx _
  | setFilters id seq filters =>
      rw [Maps.handleCommand, BusCommand.forget, Bus.handleCommand, h.clients]
      cases hid : m.clients.lookup id with
      | none =>
          simp only [Option.map_none, Option.isSome_none, Bool.false_eq_true, if_false]
          split
          · exact h
          · exact { h with pending := congrArg (AList.insert id ⟨seq, filters⟩) h.pending }
      | some client =>
          obtain rfl := h.home id client hid
          simp only [Option.map_some, Option.isSome_some, if_true]
          split
          · exact h.send client.tx _
          · refine send ?_ client.tx _
            exact h.insert ⟨client.tx, filters⟩ rfl rfl rfl rfl h.pending rfl
  | shutdown => exact h

end Forgets

end Maps

/-! ## Streams of commands -/

/-- What is posted to the bus thread. -/
inductive Posted.Genuine : Posted → Prop where
  | add (k : Nat) : Genuine (addition k)
  | remove (k : Nat) : Genuine (removal k)
  | command (k : Nat) (req : ReaderCommand) : Genuine ⟨some k, req.command k⟩
  | shutdown : Genuine ⟨none, .shutdown⟩

namespace Posted.Genuine

variable {p : Posted} {id : ClientId}

theorem eq_addition (h : p.Genuine) {tx : Nat} (hp : p.command = .addClient id tx) :
    p = addition tx ∧ id = connId tx := by
  cases h with
  | add k =>
      cases hp
      exact ⟨rfl, rfl⟩
  | remove | shutdown => cases hp
  | command k req => cases req <;> cases hp

theorem conn_of_client (h : p.Genuine) (hp : p.command.client = some id) :
    ∃ k, p.conn = some k ∧ connId k = id := by
  cases h with
  | add k | remove k => exact ⟨k, rfl, Option.some.inj hp⟩
  | shutdown => cases hp
  | command k req =>
      cases req with
      | sendFrame | setFilters => exact ⟨k, rfl, Option.some.inj hp⟩

end Posted.Genuine

theorem command_ne_addition (k j : Nat) (req : ReaderCommand) : ⟨some k, req.command k⟩ ≠ addition j := by
  cases req with
  | sendFrame | setFilters => nofun

namespace Registry

variable {r r' : Registry} {k : Nat} {p : Posted}

theorem stream_snoc (hall : r'.handled ++ r'.queue = r.handled ++ r.queue ++ [p]) (j : Nat) :
    r'.stream j = r.stream j ++ if p.conn = some j then [p] else [] := by
  rw [stream, hall, List.filter_append, stream, List.filter_cons, List.filter_nil]
  simp only [decide_eq_true_eq]

theorem reading_stopReader (j : Nat) :
    (r.stopReader k).reading j = if j = k then false else r.reading j := Function.update_apply _ _ _ _

theorem writing_stopWriter (failed : Bool) (j : Nat) :
    (r.stopWriter k failed).writing j = if j = k then false else r.writing j :=
  Function.update_apply _ _ _ _

theorem mem_stream : p ∈ r.stream k ↔ (p ∈ r.handled ∨ p ∈ r.queue) ∧ p.conn = some k := by
  rw [stream, List.mem_filter, List.mem_append, decide_eq_true_iff]

/-- **The streams of the connections.**  Each begins with its `AddClient`, and ends with a
`RemoveClient` when there is no reader. -/
structure Ordered (r : Registry) : Prop where
  genuine : ∀ p ∈ r.handled ++ r.queue, p.Genuine
  unborn : ∀ k, r.accepted ≤ k → r.stream k = []
  running : ∀ k, r.reading k = true ∨ r.writing k = true → r.stream k ≠ []
  opens : ∀ k p ps, r.stream k = p :: ps → p = addition k ∧ addition k ∉ ps
  ended : ∀ k, r.reading k = false → r.stream k = [] ∨ (r.stream k).getLast? = some (removal k)

theorem ordered_init : Ordered {} where
  genuine := nofun
  unborn _ _ := rfl
  running _ h := by rcases h with h | h <;> cases h
  opens _ _ _ h := by cases h
  ended _ _ := .inl rfl

/-- Nothing is posted. -/
theorem Ordered.same (h : r.Ordered) (haccepted : r.accepted ≤ r'.accepted)
    (hall : r'.handled ++ r'.queue = r.handled ++ r.queue) (hreading : r'.reading = r.reading)
    (hrun : ∀ j, r'.writing j = true → r.writing j = true) : r'.Ordered := by
  have hstream (k : Nat) : r'.stream k = r.stream k := congrArg (List.filter _) hall
  constructor
  case genuine => exact fun p hp ↦ h.genuine p (hall ▸ hp)
  case unborn => exact fun k hk ↦ hstream k ▸ h.unborn k (Nat.le_trans haccepted hk)
  case running => exact fun k hk ↦ hstream k ▸ h.running k ((hreading ▸ hk).imp_right (hrun k))
  case opens => exact fun k p ps hs ↦ h.opens k p ps (hstream k ▸ hs)
  case ended => exact fun k hk ↦ hstream k ▸ h.ended k (hreading ▸ hk)

/-- A thread posts a command of its connection. -/
theorem Ordered.snoc (h : r.Ordered) (haccepted : r'.accepted = r.accepted)
    (hall : r'.handled ++ r'.queue = r.handled ++ r.queue ++ [p]) (hp : p.Genuine)
    (hadd : ∀ j, p ≠ addition j) (hborn : ∀ j, p.conn = some j → r.stream j ≠ [])
    (hrun : ∀ j, r'.reading j = true ∨ r'.writing j = true → r.reading j = true ∨ r.writing j = true)
    (hend : ∀ j, r'.reading j = false → p = removal j ∨ p.conn ≠ some j ∧ r.reading j = false) :
    r'.Ordered := by
  have hstream := stream_snoc hall
  constructor
  case genuine =>
    intro q hq
    rw [hall] at hq
    rcases List.mem_append.mp hq with hq | hq
    · exact h.genuine q hq
    · exact List.mem_singleton.mp hq ▸ hp
  case unborn =>
    intro k hk
    have hnil := h.unborn k (haccepted ▸ hk)
    rw [hstream, hnil, if_neg fun hconn ↦ hborn k hconn hnil]
    rfl
  case running =>
    intro k hk hnil
    rw [hstream] at hnil
    exact h.running k (hrun k hk) (List.append_eq_nil_iff.mp hnil).1
  case opens =>
    intro k q qs hq
    rw [hstream] at hq
    cases hs : r.stream k with
    | nil =>
        rw [hs, if_neg fun hconn ↦ hborn k hconn hs] at hq
        cases hq
    | cons q' qs' =>
        rw [hs, List.cons_append, List.cons.injEq] at hq
        obtain ⟨rfl, rfl⟩ := hq
        obtain ⟨hfirst, hrest⟩ := h.opens k q' qs' hs
        refine ⟨hfirst, ?_⟩
        rw [List.mem_append]
        rintro (hmem | hmem)
        · exact hrest hmem
        · split at hmem
          · exact hadd k (List.mem_singleton.mp hmem).symm
          · cases hmem
  case ended =>
    intro k hk
    rw [hstream]
    rcases hend k hk with rfl | ⟨hconn, hread⟩
    · have hconn : (removal k).conn = some k := rfl
      rw [if_pos hconn]
      exact .inr List.getLast?_concat
    · rw [if_neg hconn, List.append_nil]
      exact h.ended k hread

theorem Ordered.accept (h : r.Ordered) : r.accept.Ordered := by
  have hall : r.accept.handled ++ r.accept.queue = r.handled ++ r.queue ++ [addition r.accepted] :=
    (List.append_assoc _ _ _).symm
  have hself : r.accept.stream r.accepted = [addition r.accepted] := by
    rw [stream_snoc hall, h.unborn _ (Nat.le_refl _)]
    exact if_pos rfl
  have hother {k : Nat} (hk : k ≠ r.accepted) : r.accept.stream k = r.stream k := by
    have hconn : (addition r.accepted).conn ≠ some k := fun hconn ↦ hk (Option.some.inj hconn).symm
    rw [stream_snoc hall, if_neg hconn, List.append_nil]
  constructor
  case genuine =>
    intro p hp
    rw [hall] at hp
    rcases List.mem_append.mp hp with hp | hp
    · exact h.genuine p hp
    · exact List.mem_singleton.mp hp ▸ .add _
  case unborn =>
    intro k hk
    rw [hother (Nat.ne_of_gt hk)]
    exact h.unborn k (Nat.le_of_succ_le hk)
  case running =>
    intro k hk
    by_cases heq : k = r.accepted
    · rw [heq, hself]
      nofun
    · rw [hother heq]
      change Function.update r.reading r.accepted true k = true ∨
        Function.update r.writing r.accepted true k = true at hk
      rw [Function.update_of_ne heq, Function.update_of_ne heq] at hk
      exact h.running k hk
  case opens =>
    intro k p ps hs
    by_cases heq : k = r.accepted
    · subst heq
      rw [hself] at hs
      cases hs
      exact ⟨rfl, List.not_mem_nil⟩
    · rw [hother heq] at hs
      exact h.opens k p ps hs
  case ended =>
    intro k hk
    change Function.update r.reading r.accepted true k = false at hk
    by_cases heq : k = r.accepted
    · rw [heq, Function.update_self] at hk
      cases hk
    · rw [Function.update_of_ne heq] at hk
      rw [hother heq]
      exact h.ended k hk

/-- A thread that ends posts `RemoveClient`. -/
theorem Ordered.ends (h : r.Ordered) (haccepted : r'.accepted = r.accepted)
    (hqueue : r'.queue = r.queue ++ [removal k]) (hhandled : r'.handled = r.handled)
    (hrunning : r.reading k = true ∨ r.writing k = true)
    (hrun : ∀ j, r'.reading j = true ∨ r'.writing j = true → r.reading j = true ∨ r.writing j = true)
    (hend : ∀ j, j ≠ k → r'.reading j = r.reading j) : r'.Ordered := by
  have hall : r'.handled ++ r'.queue = r.handled ++ r.queue ++ [removal k] := by
    rw [hqueue, hhandled, List.append_assoc]
  refine h.snoc haccepted hall (.remove k) (fun _ ↦ nofun) ?_ hrun ?_
  · rintro j ⟨⟩
    exact h.running k hrunning
  · intro j hj
    by_cases heq : j = k
    · exact .inl (heq ▸ rfl)
    · exact .inr ⟨fun hconn ↦ heq (Option.some.inj hconn).symm, hend j heq ▸ hj⟩

theorem stepBus_eq_some {order : List ClientId} (h : r.stepBus order = some r') :
    ∃ p queue, r.queue = p :: queue ∧
      r' = { r with
        queue := queue
        handled := r.handled ++ [p]
        maps := r.maps.handleCommand order p.command
        stopped := decide (p.command = .shutdown) } := by
  rw [stepBus] at h
  split at h
  · cases h
  · next p queue hq =>
      obtain ⟨-, hr⟩ := Option.ite_none_right_eq_some.mp h
      exact ⟨p, queue, hq, (Option.some.inj hr).symm⟩

theorem Ordered.step (h : r.Ordered) {t : Turn} (hs : r.step t = some r') : r'.Ordered := by
  cases t with
  | accept =>
      obtain rfl := Option.some.inj hs
      exact h.accept
  | refuse =>
      obtain rfl := Option.some.inj hs
      exact h.same (Nat.le_succ _) rfl rfl fun _ ↦ id
  | reader k req =>
      obtain ⟨hread, hr⟩ := Option.ite_none_right_eq_some.mp hs
      obtain rfl := Option.some.inj hr
      refine h.snoc (p := ⟨some k, req.command k⟩) rfl (List.append_assoc _ _ _).symm (.command k req)
        (fun j ↦ command_ne_addition k j req) ?_ (fun _ ↦ id) ?_
      · rintro j ⟨⟩
        exact h.running k (.inl hread)
      · intro j hj
        refine .inr ⟨?_, hj⟩
        rintro ⟨⟩
        exact absurd (hread.symm.trans hj) nofun
  | readerEnd k =>
      obtain ⟨hread, hr⟩ := Option.ite_none_right_eq_some.mp hs
      obtain rfl := Option.some.inj hr
      refine h.ends rfl rfl rfl (.inl hread) (fun j hj ↦ hj.imp_left fun hj ↦ ?_) fun j hj ↦ ?_
      · rw [reading_stopReader] at hj
        split at hj
        · cases hj
        · exact hj
      · rw [reading_stopReader, if_neg hj]
  | writerEnd k failed =>
      obtain ⟨hwrite, hr⟩ := Option.ite_none_right_eq_some.mp hs
      obtain rfl := Option.some.inj hr
      have hrun (j : Nat) (hj : (r.stopWriter k failed).writing j = true) : r.writing j = true := by
        rw [writing_stopWriter] at hj
        split at hj
        · cases hj
        · exact hj
      cases failed with
      | false => exact h.same (Nat.le_refl _) (congrArg _ (List.append_nil _)) rfl hrun
      | true => exact h.ends rfl rfl rfl (.inr hwrite) (fun j ↦ Or.imp_right (hrun j)) fun _ _ ↦ rfl
  | shutdown =>
      obtain rfl := Option.some.inj hs
      exact h.snoc (p := ⟨none, .shutdown⟩) rfl (List.append_assoc _ _ _).symm .shutdown (fun _ ↦ nofun)
        (fun _ ↦ nofun) (fun _ ↦ id) fun j hj ↦ .inr ⟨nofun, hj⟩
  | bus order =>
      obtain ⟨p, queue, hq, rfl⟩ := stepBus_eq_some hs
      refine h.same (Nat.le_refl _) ?_ rfl fun _ ↦ id
      rw [hq]
      exact (List.append_cons _ _ _).symm

/-! ## The maps -/

theorem stream_of_queue {queue : List Posted} (hq : r.queue = p :: queue) (hconn : p.conn = some k) :
    r.stream k = r.handled.filter (·.conn = some k) ++ p :: queue.filter (·.conn = some k) := by
  rw [stream, hq, List.filter_append, List.filter_cons]
  simp only [hconn, decide_true, if_true]

/-- Before its `AddClient`, there is no command of a connection. -/
theorem Ordered.not_mem_handled (h : r.Ordered) {queue : List Posted}
    (hq : r.queue = addition k :: queue) : removal k ∉ r.handled := by
  intro hmem
  have hstream := stream_of_queue hq (k := k) rfl
  cases hfirst : r.handled.filter (·.conn = some k) with
  | nil => exact (List.filter_eq_nil_iff.mp hfirst) _ hmem (decide_eq_true rfl)
  | cons p ps =>
      rw [hfirst, List.cons_append] at hstream
      exact (h.opens k p _ hstream).2 (List.mem_append_right _ List.mem_cons_self)

/-- Behind the commands of a connection without a reader there is a `RemoveClient`. -/
theorem Ordered.removal_mem (h : r.Ordered) {queue : List Posted} (hq : r.queue = p :: queue)
    (hconn : p.conn = some k) (hne : p ≠ removal k) (hend : r.reading k = false) :
    removal k ∈ queue := by
  have hstream := stream_of_queue hq hconn
  have hlast := (h.ended k hend).resolve_left fun hnil ↦
    List.cons_ne_nil _ _ (List.append_eq_nil_iff.mp (hstream.symm.trans hnil)).2
  rw [hstream, List.append_cons, List.getLast?_append, Option.or_eq_some_iff] at hlast
  rcases hlast with hlast | ⟨-, hlast⟩
  · exact List.mem_of_mem_filter (List.mem_of_getLast? hlast)
  · rw [List.getLast?_concat] at hlast
    exact absurd (Option.some.inj hlast) hne

/-- **What the maps hold.** -/
structure Clean (r : Registry) : Prop where
  ordered : r.Ordered
  apart : r.maps.Apart
  channel : ∀ id client, r.maps.clients.lookup id = some client →
    connId client.tx = id ∧ removal client.tx ∉ r.handled
  /-- An id is in a map as long as there is a reader for it, or a `RemoveClient` to come. -/
  awaited : ∀ id, r.maps.Mentions id →
    ∃ k, connId k = id ∧ (r.reading k = true ∨ removal k ∈ r.queue)

theorem clean_init : Clean {} where
  ordered := ordered_init
  apart := nofun
  channel _ _ h := by cases h
  awaited _ h := by rcases h with h | h <;> cases h

/-- A step that posts commands. -/
theorem Clean.posts (h : r.Clean) (hordered : r'.Ordered) (hmaps : r'.maps = r.maps)
    (hhandled : r'.handled = r.handled) (hqueue : ∀ p ∈ r.queue, p ∈ r'.queue)
    (hread : ∀ k, r.reading k = true → r'.reading k = true ∨ removal k ∈ r'.queue) : r'.Clean where
  ordered := hordered
  apart := hmaps ▸ h.apart
  channel := by
    rw [hmaps, hhandled]
    exact h.channel
  awaited := by
    intro id hid
    obtain ⟨k, hk, hwait⟩ := h.awaited id (hmaps ▸ hid)
    rcases hwait with hrun | hmem
    · exact ⟨k, hk, hread k hrun⟩
    · exact ⟨k, hk, .inr (hqueue _ hmem)⟩

/-- The bus thread handles a command. -/
theorem Clean.bus (h : r.Clean) {order : List ClientId} (hs : r.step (.bus order) = some r') :
    r'.Clean := by
  have hordered := h.ordered.step hs
  obtain ⟨p, queue, hq, rfl⟩ := stepBus_eq_some hs
  have hgenuine : p.Genuine :=
    h.ordered.genuine p (List.mem_append_right _ (hq ▸ List.mem_cons_self))
  have hhandles := r.maps.handles_handleCommand order p.command
  constructor
  case ordered => exact hordered
  case apart => exact hhandles.apart h.apart
  case channel =>
    intro id client hid
    rw [List.mem_append, List.mem_singleton]
    rcases hhandles.lookup hid with ⟨hne, client', hclient', htx⟩ | hadd
    · obtain ⟨hconn, hmem⟩ := h.channel id client' hclient'
      rw [htx] at hconn hmem
      refine ⟨hconn, ?_⟩
      rintro (hin | rfl)
      · exact hmem hin
      · exact hne (congrArg BusCommand.removeClient hconn)
    · obtain ⟨rfl, rfl⟩ := hgenuine.eq_addition hadd
      refine ⟨rfl, ?_⟩
      rintro (hin | hin)
      · exact h.ordered.not_mem_handled hq hin
      · cases hin
  case awaited =>
    intro id hid
    obtain ⟨hne, hmentions | hclient⟩ := hhandles.mentions hid
    · obtain ⟨k, rfl, hrun | hmem⟩ := h.awaited id hmentions
      · exact ⟨k, rfl, .inl hrun⟩
      · rw [hq, List.mem_cons] at hmem
        rcases hmem with rfl | hmem
        · exact absurd rfl hne
        · exact ⟨k, rfl, .inr hmem⟩
    · obtain ⟨k, hconn, rfl⟩ := hgenuine.conn_of_client hclient
      refine ⟨k, rfl, ?_⟩
      cases hrun : r.reading k with
      | true => exact .inl rfl
      | false =>
          refine .inr (h.ordered.removal_mem hq hconn ?_ hrun)
          rintro rfl
          exact hne rfl

theorem Clean.step (h : r.Clean) {t : Turn} (hs : r.step t = some r') : r'.Clean := by
  have hordered := h.ordered.step hs
  cases t with
  | bus order => exact h.bus hs
  | accept =>
      obtain rfl := Option.some.inj hs
      refine h.posts hordered rfl rfl (fun _ ↦ List.mem_append_left _) fun k hk ↦ .inl ?_
      change Function.update r.reading r.accepted true k = true
      rw [Function.update_apply, hk, ite_self]
  | refuse =>
      obtain rfl := Option.some.inj hs
      exact h.posts hordered rfl rfl (fun _ ↦ id) fun _ ↦ .inl
  | reader k req =>
      obtain ⟨-, hr⟩ := Option.ite_none_right_eq_some.mp hs
      obtain rfl := Option.some.inj hr
      exact h.posts hordered rfl rfl (fun _ ↦ List.mem_append_left _) fun _ ↦ .inl
  | readerEnd k =>
      obtain ⟨-, hr⟩ := Option.ite_none_right_eq_some.mp hs
      obtain rfl := Option.some.inj hr
      refine h.posts hordered rfl rfl (fun _ ↦ List.mem_append_left _) fun j hj ↦ ?_
      by_cases heq : j = k
      · exact .inr (heq ▸ List.mem_append_right _ List.mem_cons_self)
      · exact .inl (by rw [reading_stopReader, if_neg heq, hj])
  | writerEnd k failed =>
      obtain ⟨-, hr⟩ := Option.ite_none_right_eq_some.mp hs
      obtain rfl := Option.some.inj hr
      exact h.posts hordered rfl rfl (fun _ ↦ List.mem_append_left _) fun _ ↦ .inl
  | shutdown =>
      obtain rfl := Option.some.inj hs
      exact h.posts hordered rfl rfl (fun _ ↦ List.mem_append_left _) fun _ ↦ .inl

theorem clean_of_reachable (h : registryMachine.Reachable {} r) : r.Clean :=
  h.invariant clean_init fun _ _ _ hc hs ↦ hc.step hs

/-- The channel of a connection whose `RemoveClient` was handled stays as it is. -/
theorem Clean.channel_step (h : r.Clean) {t : Turn} (hs : r.step t = some r')
    (hk : removal k ∈ r.handled) : removal k ∈ r'.handled ∧ r'.channel k = r.channel k := by
  cases t with
  | bus order =>
      obtain ⟨p, queue, hq, rfl⟩ := stepBus_eq_some hs
      have hgenuine : p.Genuine :=
        h.ordered.genuine p (List.mem_append_right _ (hq ▸ List.mem_cons_self))
      refine ⟨List.mem_append_left _ hk, congrArg (List.map Prod.snd) ?_⟩
      refine (r.maps.handles_handleCommand order p.command).sends.filter_eq ?_
      rintro (⟨id, client, hclient, rfl⟩ | ⟨id, hadd⟩)
      · exact (h.channel id client hclient).2 hk
      · obtain ⟨rfl, -⟩ := hgenuine.eq_addition hadd
        exact h.ordered.not_mem_handled hq hk
  | accept | refuse | shutdown =>
      obtain rfl := Option.some.inj hs
      exact ⟨hk, rfl⟩
  | reader | readerEnd | writerEnd =>
      obtain ⟨-, hr⟩ := Option.ite_none_right_eq_some.mp hs
      obtain rfl := Option.some.inj hr
      exact ⟨hk, rfl⟩

theorem Clean.channel_eq (h : r.Clean) (hk : removal k ∈ r.handled)
    (hr : registryMachine.Reachable r r') : r'.channel k = r.channel k := by
  have hrun : r'.Clean ∧ removal k ∈ r'.handled ∧ r'.channel k = r.channel k := by
    refine Machine.Reachable.invariant
      (I := fun a ↦ a.Clean ∧ removal k ∈ a.handled ∧ a.channel k = r.channel k) hr ⟨h, hk, rfl⟩ ?_
    rintro a t b ⟨ha, hmem, heq⟩ hs
    obtain ⟨hmem', heq'⟩ := ha.channel_step hs hmem
    exact ⟨ha.step hs, hmem', heq'.trans heq⟩
  exact hrun.2.2

/-- An id whose connections are all settled is in no map. -/
theorem Clean.not_mentions (h : r.Clean) {id : ClientId}
    (hid : ∀ k < r.accepted, connId k = id → r.Settled k) : ¬r.maps.Mentions id := by
  intro hmentions
  obtain ⟨k, hk, hwait⟩ := h.awaited id hmentions
  have hlt : k < r.accepted := by
    by_contra hge
    have hnil := h.ordered.unborn k (Nat.le_of_not_lt hge)
    rcases hwait with hrun | hmem
    · exact h.ordered.running k (.inl hrun) hnil
    · have hstream : removal k ∈ r.stream k := mem_stream.mpr ⟨.inr hmem, rfl⟩
      rw [hnil] at hstream
      cases hstream
  obtain ⟨hend, hnone⟩ := hid k hlt hk
  rcases hwait with hrun | hmem
  · exact absurd (hend.symm.trans hrun) nofun
  · exact hnone _ hmem rfl

/-- **The registry has no overlap and no leak.**  In every reachable state no id is in both maps,
a channel whose `RemoveClient` was handled gets no more messages, whatever happens, and an id is
in no map once the commands of its connections are handled.  Before `next_id` wraps, an id has
one connection. -/
theorem registry_clean {r : Registry} (h : registryMachine.Reachable {} r) :
    (∀ id, ¬(id ∈ r.maps.clients ∧ id ∈ r.maps.pending)) ∧
      (∀ k r', removal k ∈ r.handled → registryMachine.Reachable r r' →
        r'.channel k = r.channel k) ∧
      (∀ id, (∀ k < r.accepted, connId k = id → r.Settled k) →
        id ∉ r.maps.clients ∧ id ∉ r.maps.pending) ∧
      (r.accepted ≤ 2 ^ 64 → ∀ k < r.accepted, r.Settled k →
        connId k ∉ r.maps.clients ∧ connId k ∉ r.maps.pending) := by
  have hclean := clean_of_reachable h
  refine ⟨fun id hid ↦ hclean.apart id hid.1 hid.2, fun k r' ↦ hclean.channel_eq,
    fun id hid ↦ not_or.mp (hclean.not_mentions hid), ?_⟩
  intro hwrap k hk hsettled
  refine not_or.mp (hclean.not_mentions fun j hj hjk ↦ ?_)
  obtain rfl : j = k := connId_inj (by omega) (by omega) hjk
  exact hsettled

/-- The writer of the first of two clients fails, and the reader goes on: its `SetFilters` is
handled behind the `RemoveClient` of the writer, and makes an entry that the reader's own
`RemoveClient` takes away. -/
def lateFilters : List Turn :=
  [.accept, .accept, .bus [], .writerEnd 0 true, .reader 0 (.setFilters 5 []), .bus [1],
    .bus [2, 1], .bus [2], .readerEnd 0, .bus [2]]

theorem registry_clean_lateFilters :
    ∃ r, registryMachine.exec {} lateFilters = some r ∧
      (∀ r', registryMachine.Reachable r r' → r'.channel 0 = r.channel 0) ∧
      connId 0 ∉ r.maps.clients ∧ connId 0 ∉ r.maps.pending := by
  have hrun : (registryMachine.exec {} lateFilters).any (fun r ↦
      decide (removal 0 ∈ r.handled ∧ r.accepted = 2 ∧ r.reading 0 = false ∧ r.queue = [])) = true := by
    decide +kernel
  obtain ⟨r, hr, hstate⟩ := (Option.any_eq_true ..).mp hrun
  obtain ⟨hmem, haccepted, hend, hqueue⟩ := of_decide_eq_true hstate
  obtain ⟨-, hchannel, -, hmaps⟩ := registry_clean ⟨lateFilters, hr⟩
  refine ⟨r, hr, fun r' ↦ hchannel 0 r' hmem, ?_⟩
  exact hmaps (by omega) 0 (by omega) ⟨hend, hqueue ▸ nofun⟩

end Registry

end Thincan.UnixSocket

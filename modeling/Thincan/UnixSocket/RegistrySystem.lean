import Thincan.UnixSocket.Buffer
import Thincan.UnixSocket.Registry

/-!
# The registry in the system

Every run of clients and server is, for the threads of the server, a run of the registry: the
clients and the streams decide what the readers post and when the threads end, and the registry
leaves that open.
-/

namespace Thincan.UnixSocket

open Process

namespace Registry

variable {r : Registry} {s s' : System} {k : Nat}

/-- The threads of `s` are those of `r`. -/
structure Covers (r : Registry) (s : System) : Prop where
  accepted : r.accepted = s.accepted
  reading : ∀ k < s.accepted, r.reading k = !(s.conns k).readerDone
  writing : ∀ k < s.accepted, r.writing k = !(s.conns k).writerDone
  queue : s.queue = r.queue.map fun p ↦ p.command.forget
  maps : r.maps.Forgets s.bus
  /-- Nobody shuts the server down. -/
  running : r.stopped = false ∧ ∀ p ∈ r.queue, p.command ≠ .shutdown

/-- The threads of connections to come have not ended. -/
def Unborn (s : System) : Prop :=
  ∀ k, s.accepted ≤ k → (s.conns k).readerDone = false ∧ (s.conns k).writerDone = false

/-- What the reader makes of a message is one of its commands, and never a panic. -/
theorem readCommand_cases (k : Nat) (msgType : UInt8) (payload : Bytes) :
    (∃ req : ReaderCommand, readCommand (connId k) msgType payload = .command (req.command k).forget) ∨
      readCommand (connId k) msgType payload = .skip ∨ readCommand (connId k) msgType payload = .stop := by
  rw [readCommand]
  split
  · split
    · next send _ => exact .inl ⟨.sendFrame send.seq send.expectAck send.frame, rfl⟩
    · exact .inr (.inr rfl)
  · split
    · obtain ⟨result, hresult, -⟩ := Buffer.decodeFilters_eq payload
      rw [hresult]
      cases result with
      | error => exact .inl ⟨.setFilters 0 [], rfl⟩
      | ok filters => exact .inl ⟨.setFilters filters.1 filters.2, rfl⟩
    · exact .inr (.inl rfl)

theorem covers_init : Covers {} {} where
  accepted := rfl
  reading _ h := absurd h (Nat.not_lt_zero _)
  writing _ h := absurd h (Nat.not_lt_zero _)
  queue := rfl
  maps :=
    { keys := rfl
      clients := fun _ ↦ rfl
      pending := rfl
      home := nofun
      out := fun _ ↦ rfl }
  running := ⟨rfl, nofun⟩

namespace Covers

/-- The threads of a connection move. -/
theorem update (h : r.Covers s) (cn : Conn) {reads writes : Bool}
    (hreads : k < s.accepted → reads = !cn.readerDone)
    (hwrites : k < s.accepted → writes = !cn.writerDone) :
    ({ r with
      reading := Function.update r.reading k reads
      writing := Function.update r.writing k writes } : Registry).Covers (s.setConn k cn) := by
  have hupdate {t : Nat → Bool} {f : Conn → Bool} {runs : Bool} (ht : ∀ j < s.accepted, t j = !f (s.conns j))
      (hruns : k < s.accepted → runs = !f cn) (j : Nat) (hj : j < s.accepted) :
      Function.update t k runs j = !f (Function.update s.conns k cn j) := by
    by_cases heq : j = k
    · rw [heq, Function.update_self, Function.update_self]
      exact hruns (heq ▸ hj)
    · rw [Function.update_of_ne heq, Function.update_of_ne heq]
      exact ht j hj
  exact { h with reading := hupdate h.reading hreads, writing := hupdate h.writing hwrites }

/-- A connection moves, and its threads run on. -/
theorem setConn (h : r.Covers s) {cn : Conn} (hread : cn.readerDone = (s.conns k).readerDone)
    (hwrite : cn.writerDone = (s.conns k).writerDone) : r.Covers (s.setConn k cn) := by
  have hsame := h.update cn (fun hk ↦ hread ▸ h.reading k hk) (fun hk ↦ hwrite ▸ h.writing k hk)
  rwa [Function.update_eq_self, Function.update_eq_self] at hsame

theorem post (h : r.Covers s) (ps : List Posted) (hps : ∀ p ∈ ps, p.command ≠ .shutdown) :
    (r.post ps).Covers (s.push (ps.map fun p ↦ p.command.forget)) := by
  refine { h with queue := ?_, running := ⟨h.running.1, ?_⟩ }
  · change s.queue ++ _ = (r.queue ++ ps).map _
    rw [List.map_append, h.queue]
  · intro p hp
    rcases List.mem_append.mp hp with hp | hp
    · exact h.running.2 p hp
    · exact hps p hp

theorem postOne (h : r.Covers s) {p : Posted} (hp : p.command ≠ .shutdown) :
    (r.post [p]).Covers (s.push [p.command.forget]) :=
  h.post [p] fun _ hq ↦ List.mem_singleton.mp hq ▸ hp

theorem accept (h : r.Covers s) (hnew : Unborn s) : r.accept.Covers s.accept := by
  have hstarts {t : Nat → Bool} {f : Conn → Bool} (ht : ∀ j < s.accepted, t j = !f (s.conns j))
      (hf : f (s.conns s.accepted) = false) (j : Nat) (hj : j < s.accepted + 1) :
      Function.update t r.accepted true j = !f (s.conns j) := by
    rw [h.accepted]
    by_cases heq : j = s.accepted
    · rw [heq, Function.update_self, hf]
      rfl
    · rw [Function.update_of_ne heq]
      exact ht j (Nat.lt_of_le_of_ne (Nat.le_of_lt_succ hj) heq)
  obtain ⟨hread, hwrite⟩ := hnew s.accepted (Nat.le_refl _)
  have hcovers : ({ r with
      accepted := r.accepted + 1
      reading := Function.update r.reading r.accepted true
      writing := Function.update r.writing r.accepted true } : Registry).Covers
      { s with accepted := s.accepted + 1 } :=
    { h with
      accepted := congrArg Nat.succ h.accepted
      reading := hstarts h.reading hread
      writing := hstarts h.writing hwrite }
  have hposted := hcovers.postOne (p := addition r.accepted) nofun
  rw [h.accepted] at hposted
  rw [Registry.accept, h.accepted]
  exact hposted

theorem stopReader (h : r.Covers s) (k : Nat) : (r.stopReader k).Covers (s.stopReader k) := by
  have hends := h.update (k := k) { s.conns k with readerDone := true } (fun _ ↦ rfl) (h.writing k)
  rw [Function.update_eq_self] at hends
  exact hends.postOne (p := removal k) nofun

theorem stopWriter (h : r.Covers s) (k : Nat) (failed : Bool) :
    (r.stopWriter k failed).Covers (s.stopWriter k failed) := by
  have hends := h.update (k := k) { s.conns k with writerDone := true } (h.reading k) (fun _ ↦ rfl)
  rw [Function.update_eq_self] at hends
  cases failed with
  | false => exact hends.post [] nofun
  | true => exact hends.postOne (p := removal k) nofun

/-- The bus thread handles the same command. -/
theorem bus (h : r.Covers s) (hordered : r.Ordered) {order : List ClientId}
    (hs : s.stepBus order = some s') : ∃ r', r.step (.bus order) = some r' ∧ r'.Covers s' := by
  rw [System.stepBus, h.queue] at hs
  cases hq : r.queue with
  | nil =>
      rw [hq] at hs
      cases hs
  | cons p queue =>
      rw [hq] at hs
      obtain ⟨hperm, hs'⟩ := Option.ite_none_right_eq_some.mp hs
      obtain rfl := Option.some.inj hs'
      have hgenuine : p.Genuine :=
        hordered.genuine p (List.mem_append_right _ (hq ▸ List.mem_cons_self))
      have hp : p.command ≠ .shutdown := h.running.2 p (hq ▸ List.mem_cons_self)
      refine ⟨{ r with
        queue := queue
        handled := r.handled ++ [p]
        maps := r.maps.handleCommand order p.command
        stopped := decide (p.command = .shutdown) }, ?_, ?_⟩
      · rw [Registry.step, stepBus, hq]
        exact if_pos ⟨h.running.1, h.maps.keys ▸ hperm⟩
      · refine { h with queue := rfl, maps := ?_, running := ⟨decide_eq_false hp, ?_⟩ }
        · exact h.maps.handleCommand order fun id tx hadd ↦ (hgenuine.eq_addition hadd).2.symm
        · exact fun q hmem ↦ h.running.2 q (hq ▸ List.mem_cons_of_mem p hmem)

end Covers

/-- A reader reads a message. -/
theorem Covers.reader (h : r.Covers s) (hk : r.reading k = true) (hs : s.stepReader k = some s') :
    ∃ r', registryMachine.Reachable r r' ∧ r'.Covers s' := by
  have hstop {s : System} (h : r.Covers s) :
      ∃ r', registryMachine.Reachable r r' ∧ r'.Covers (s.stopReader k) :=
    ⟨_, .tail (.refl r) (l := .readerEnd k) (if_pos hk), h.stopReader k⟩
  rw [System.stepReader] at hs
  split at hs
  · cases hs
  · obtain rfl := Option.some.inj hs
    exact hstop h
  · next msgType payload _ _ =>
      have htaken : r.Covers (s.setConn k
          { s.conns k with taken := (s.conns k).taken + (5 + payload.length) }) := h.setConn rfl rfl
      rcases readCommand_cases k msgType payload with ⟨req, hread⟩ | hread | hread
      · rw [hread] at hs
        obtain rfl := Option.some.inj hs
        exact ⟨_, .tail (.refl r) (l := .reader k req) (if_pos hk),
          htaken.postOne (p := ⟨some k, req.command k⟩) (by cases req <;> nofun)⟩
      · rw [hread] at hs
        obtain rfl := Option.some.inj hs
        exact ⟨r, .refl r, htaken⟩
      · rw [hread] at hs
        obtain rfl := Option.some.inj hs
        exact hstop htaken

/-- **A step of the system is a step of the registry, or none.** -/
theorem Covers.step (h : r.Covers s) (hordered : r.Ordered) (hnew : Unborn s) {a : Action}
    (hs : s.step a = some s') : ∃ r', registryMachine.Reachable r r' ∧ r'.Covers s' := by
  cases a with
  | accept =>
      obtain rfl := Option.some.inj hs
      exact ⟨r.accept, .tail (.refl r) (l := .accept) rfl, h.accept hnew⟩
  | client k l =>
      obtain ⟨-, hs⟩ := Option.ite_none_right_eq_some.mp hs
      obtain ⟨-, hs⟩ := Option.ite_none_right_eq_some.mp hs
      obtain ⟨c, -, rfl⟩ := Option.map_eq_some_iff.mp hs
      exact ⟨r, .refl r, h.setConn rfl rfl⟩
  | reader k =>
      obtain ⟨⟨hk, hend⟩, hs⟩ := Option.ite_none_right_eq_some.mp hs
      exact h.reader (by rw [h.reading k hk, hend]; rfl) hs
  | readerEnd k =>
      obtain ⟨⟨hk, hend⟩, hs⟩ := Option.ite_none_right_eq_some.mp hs
      obtain rfl := Option.some.inj hs
      have hread : r.reading k = true := by rw [h.reading k hk, hend]; rfl
      exact ⟨_, .tail (.refl r) (l := .readerEnd k) (if_pos hread), h.stopReader k⟩
  | writer k =>
      obtain ⟨-, hs⟩ := Option.ite_none_right_eq_some.mp hs
      obtain ⟨msg, -, rfl⟩ := Option.map_eq_some_iff.mp hs
      exact ⟨r, .refl r, h.setConn rfl rfl⟩
  | writerEnd k failed =>
      obtain ⟨⟨hk, hend⟩, hs⟩ := Option.ite_none_right_eq_some.mp hs
      obtain rfl := Option.some.inj hs
      have hwrite : r.writing k = true := by rw [h.writing k hk, hend]; rfl
      exact ⟨_, .tail (.refl r) (l := .writerEnd k failed) (if_pos hwrite), h.stopWriter k failed⟩
  | bus order =>
      obtain ⟨r', hr', hcovers⟩ := h.bus hordered hs
      exact ⟨r', .tail (.refl r) (l := .bus order) hr', hcovers⟩

theorem Unborn.setConn (h : Unborn s) (hk : k < s.accepted) (cn : Conn) : Unborn (s.setConn k cn) := by
  intro j hj
  have hsame : (s.setConn k cn).conns j = s.conns j :=
    Function.update_of_ne (Nat.ne_of_gt (Nat.lt_of_lt_of_le hk hj)) _ _
  rw [hsame]
  exact h j hj

theorem Unborn.step (h : Unborn s) {a : Action} (hs : s.step a = some s') : Unborn s' := by
  cases a with
  | accept =>
      obtain rfl := Option.some.inj hs
      exact fun j hj ↦ h j (Nat.le_of_succ_le hj)
  | client k l =>
      obtain ⟨hk, hs⟩ := Option.ite_none_right_eq_some.mp hs
      obtain ⟨-, hs⟩ := Option.ite_none_right_eq_some.mp hs
      obtain ⟨c, -, rfl⟩ := Option.map_eq_some_iff.mp hs
      exact h.setConn hk _
  | reader k =>
      obtain ⟨⟨hk, -⟩, hs⟩ := Option.ite_none_right_eq_some.mp hs
      rw [System.stepReader] at hs
      split at hs
      · cases hs
      · obtain rfl := Option.some.inj hs
        exact h.setConn hk _
      · split at hs <;> obtain rfl := Option.some.inj hs
        · exact h.setConn hk _
        · exact h.setConn hk _
        · exact (h.setConn hk _).setConn hk _
        · exact (h.setConn hk _).setConn hk _
  | readerEnd k | writerEnd k =>
      obtain ⟨⟨hk, -⟩, hs⟩ := Option.ite_none_right_eq_some.mp hs
      obtain rfl := Option.some.inj hs
      exact h.setConn hk _
  | writer k =>
      obtain ⟨⟨hk, -⟩, hs⟩ := Option.ite_none_right_eq_some.mp hs
      obtain ⟨msg, -, rfl⟩ := Option.map_eq_some_iff.mp hs
      exact h.setConn hk _
  | bus order =>
      rw [System.step, System.stepBus] at hs
      split at hs
      · cases hs
      · obtain ⟨-, hs⟩ := Option.ite_none_right_eq_some.mp hs
        obtain rfl := Option.some.inj hs
        exact h

/-- **Every run of the system is one of the registry.** -/
theorem exists_covers (h : systemMachine.Reachable {} s) :
    Unborn s ∧ ∃ r, registryMachine.Reachable {} r ∧ r.Covers s := by
  refine Machine.Reachable.invariant
    (I := fun s ↦ Unborn s ∧ ∃ r, registryMachine.Reachable {} r ∧ r.Covers s) h
    ⟨fun _ _ ↦ ⟨rfl, rfl⟩, {}, .refl _, covers_init⟩ ?_
  rintro s a s' ⟨hnew, r, hr, hcovers⟩ hs
  obtain ⟨r', hr', hcovers'⟩ := hcovers.step (clean_of_reachable hr).ordered hnew hs
  exact ⟨hnew.step hs, r', hr.trans hr', hcovers'⟩

end Registry

/-- With any clients, no id is both in `clients` and in `pending_filters`. -/
theorem System.apart_of_reachable {s : System} (h : systemMachine.Reachable {} s) (id : ClientId) :
    ¬(id ∈ s.bus.clients ∧ id ∈ s.bus.pending) := by
  obtain ⟨-, r, hr, hcovers⟩ := Registry.exists_covers h
  rintro ⟨hclients, hpending⟩
  refine (Registry.clean_of_reachable hr).apart id ?_ (hcovers.maps.pending ▸ hpending)
  rw [AList.mem_keys, hcovers.maps.keys]
  exact AList.mem_keys.mp hclients

end Thincan.UnixSocket

import Thincan.Bus.Isolation

/-!
# The pump

`Interface::pump_ingest_once` of `thincan/src/lib.rs`: receive at most one payload
from the transport, under the lock of the transport, and then `ingest` it.  Any
number of calls may run at once, beside the calls of the application on the same
`Interface`.

The `ingest` of a pump is a call on the interface, under the name of the pump.  It
ends when the `ingest` ends, for there is no await behind, so `Pumped.result` reads
what a pump has returned from the interface.

The loop `run_ingress_pump` of the example does not call `pump_ingest_once`: it calls
`recv_one` on a node of its own and then `ingest`, one payload after the other.  On the
interface that is what pumps do that are called one at a time (`Pumped.oneAtATime`).

A move of the pumps is a move of the interface or none at all
(`Pumped.exec_iface`), so everything about interfaces holds here too.
-/

namespace Thincan.Bus

open Process

variable {types depth maxBody maxWaiters : Nat} {π : Type} {M : Maplet types}
  {ask : π → Bytes → Bool × π}

/-! ## More about moves on an interface -/

namespace Interface

variable {w w' : Interface types depth maxBody π} {l : Label π} {m : Nat}

/-- Who does not move stands where it stood. -/
theorem tasks_of_step (h : w.step ask M maxWaiters l = some w') (hm : m ≠ l.task) :
    w'.tasks m = w.tasks m := by
  rcases step_cases h with ⟨n, c, rfl, -, rfl⟩ | ⟨n, a, t, k, pc, port, e, rfl, -, -, -, rfl⟩
  · exact Function.update_of_ne hm _ _
  · exact (Function.update_of_ne hm _ _).trans (congrFun (record_tasks k e) m)

/-- A call keeps its arguments. -/
theorem call_of_step (h : w.step ask M maxWaiters l = some w') {t : Task types maxBody π}
    (ht : w.tasks m = some t) : ∃ pc, w'.tasks m = some ⟨t.call, pc⟩ := by
  by_cases hm : m = l.task
  · rcases step_cases h with ⟨n, c, rfl, hnew, rfl⟩ | ⟨n, a, t', k, pc, port, e, rfl, ht', -, -, rfl⟩
    · obtain rfl : m = n := hm
      exact nomatch hnew.symm.trans ht
    · obtain rfl : m = n := hm
      obtain rfl := Option.some.inj (ht.symm.trans ht')
      exact ⟨pc, Function.update_self _ _ _⟩
  · exact ⟨t.pc, (tasks_of_step h hm).trans ht⟩

/-- A call is not known before it is made. -/
theorem tasks_eq_none_of_step (h : w.step ask M maxWaiters l = some w') (ht : w.tasks m = none)
    (hm : ∀ c, l ≠ .call m c) : w'.tasks m = none := by
  rw [tasks_of_step h, ht]
  rintro rfl
  rcases step_cases h with ⟨n, c, rfl, -, -⟩ | ⟨n, a, t, k, pc, port, e, rfl, ht', -, -, -⟩
  · exact hm c rfl
  · exact nomatch ht.symm.trans ht'

/-- A move pushes at most the message of the call that moves. -/
theorem pushes_of_step (hi : Inv M ask w) (h : w.step ask M maxWaiters l = some w') :
    w'.pushes = w.pushes ∨ w'.pushes = w.pushes ++ [l.task] ∧ l.task ∉ w.pushes ∧
      ((w.tasks l.task).bind (·.pc.slot)).isSome = true := by
  cases step_move hi.standing h with
  | quiet => exact .inl rfl
  | take => exact .inl rfl
  | push source payload slot raw port ht =>
      refine .inr ⟨rfl, fun hn ↦ ?_, by rw [ht]; rfl⟩
      have := (hi.pushed l.task).mp hn
      rw [ht] at this
      cases this

/-- Why `ingest` refuses a payload; `Full` says of a mailbox that it has no room. -/
inductive Refusal (M : Maplet types) (maxBody : Nat) (Full : Fin types → Prop) (payload : Bytes) :
    IngestError → Prop
  | malformed (hraw : decodeWire payload = .error .other) :
      Refusal M maxBody Full payload .malformedPayload
  | unknownId (raw : RawMessage) (hraw : decodeWire payload = .ok raw)
      (hslot : M.slotForId raw.id = none) : Refusal M maxBody Full payload (.unknownId raw.id)
  | bodyTooLarge (raw : RawMessage) (hraw : decodeWire payload = .ok raw)
      (hslot : (M.slotForId raw.id).isSome = true) (hbody : maxBody < raw.body.length) :
      Refusal M maxBody Full payload (.bodyTooLarge raw.body.length maxBody)
  | mailboxFull (raw : RawMessage) (slot : Fin types) (hraw : decodeWire payload = .ok raw)
      (hslot : M.slotForId raw.id = some slot) (hbody : raw.body.length ≤ maxBody)
      (hfull : Full slot) : Refusal M maxBody Full payload .mailboxFull

theorem Refusal.mono {Full Full' : Fin types → Prop} {payload : Bytes} {e : IngestError}
    (h : Refusal M maxBody Full payload e) (hmono : ∀ slot, Full slot → Full' slot) :
    Refusal M maxBody Full' payload e := by
  cases h with
  | malformed hraw => exact .malformed hraw
  | unknownId raw hraw hslot => exact .unknownId raw hraw hslot
  | bodyTooLarge raw hraw hslot hbody => exact .bodyTooLarge raw hraw hslot hbody
  | mailboxFull raw slot hraw hslot hbody hfull =>
      exact .mailboxFull raw slot hraw hslot hbody (hmono slot hfull)

theorem refusal_startIngest {Full : Fin types → Prop} {payload : Bytes} {e : IngestError}
    (h : (startIngest M payload : Pc types maxBody π) = .ingested (.error e)) :
    Refusal M maxBody Full payload e := by
  unfold startIngest at h
  split at h
  · next err hraw =>
      obtain rfl := Except.error.inj (Pc.ingested.inj h)
      refine .malformed ?_
      rw [hraw]
      unfold decodeWire at hraw
      split at hraw
      · cases hraw
      · exact hraw.symm
  · next raw hraw =>
      split at h
      · next hslot =>
          obtain rfl := Except.error.inj (Pc.ingested.inj h)
          exact .unknownId raw hraw hslot
      · cases h

theorem refusal_onPushLock {Full : Fin types → Prop} {source : UInt8} {payload : Bytes}
    {slot : Fin types} {raw : RawMessage} {port port' : Port depth maxBody} {e : IngestError}
    {eff : Effect} (hraw : decodeWire payload = .ok raw) (hslot : M.slotForId raw.id = some slot)
    (hfull : port.box.entries.length = depth → Full slot)
    (h : onPushLock source slot raw port = ((.ingested (.error e) : Pc types maxBody π), port', eff)) :
    Refusal M maxBody Full payload e := by
  unfold onPushLock at h
  by_cases hbody : maxBody < raw.body.length
  · rw [Mailbox.push_tooLarge hbody] at h
    obtain ⟨⟨⟩, -⟩ := h
    exact .bodyTooLarge raw hraw (by rw [hslot, Option.isSome_some]) hbody
  · have hbody := Nat.le_of_not_lt hbody
    rcases Nat.lt_or_eq_of_le port.box.length_entries_le with hroom | hlen
    · rw [show port.box.push source raw.body = (.ok (), _) from
        Prod.ext (Mailbox.push_ok source hbody hroom).1 rfl] at h
      cases h
    · rw [Mailbox.push_full hbody hlen] at h
      obtain ⟨⟨⟩, -⟩ := h
      exact .mailboxFull raw slot hraw hslot hbody (hfull hlen)

/-- When the call `n` got the lock in the run `ls`, the mailbox of `slot` had `depth` messages. -/
def FullAt (depth maxBody : Nat) (ask : π → Bytes → Bool × π) (M : Maplet types) (maxWaiters : Nat)
    (ls : List (Label π)) (n : Nat) (slot : Fin types) : Prop :=
  ∃ before after, ls = before ++ .act n .lock :: after ∧
    ∃ w : Interface types depth maxBody π, (machine ask M maxWaiters).exec {} before = some w ∧
      (w.ports slot).box.entries.length = depth

theorem FullAt.snoc {ls : List (Label π)} {n : Nat} {slot : Fin types}
    (h : FullAt depth maxBody ask M maxWaiters ls n slot) (l : Label π) :
    FullAt depth maxBody ask M maxWaiters (ls ++ [l]) n slot := by
  obtain ⟨before, after, rfl, hfull⟩ := h
  exact ⟨before, after ++ [l], by rw [List.append_assoc, List.cons_append], hfull⟩

/-- The step in which an `ingest` is refused. -/
theorem refusal_of_step {Full : Fin types → Prop} {w' : Interface types depth maxBody π}
    {l : Label π} (hi : Inv M ask w) (hs : w.step ask M maxWaiters l = some w') {source : UInt8}
    {payload : Bytes} {e : IngestError}
    (ht : w'.tasks l.task = some ⟨.ingest source payload, .ingested (.error e)⟩)
    (hfull : ∀ slot, l = .act l.task .lock → (w.ports slot).box.entries.length = depth → Full slot) :
    Refusal M maxBody Full payload e := by
  rcases step_cases hs with ⟨n, c, rfl, hnew, rfl⟩ |
    ⟨n, act, t, k, pc, port, eff, rfl, ht', hk, hact, rfl⟩
  · rcases Machine.update_cases ht with ⟨-, heq⟩ | ⟨hne, -⟩
    · obtain ⟨rfl, hpc⟩ := Task.mk.inj heq
      exact refusal_startIngest hpc.symm
    · exact absurd rfl hne
  · obtain ⟨hcall, rfl⟩ : .ingest source payload = t.call ∧ .ingested (.error e) = pc := by
      rcases Machine.update_cases ht with ⟨-, heq⟩ | ⟨hne, -⟩
      · exact Task.mk.inj heq
      · exact absurd rfl hne
    have hstand := hi.standing n t ht'
    obtain ⟨c, pc₀⟩ := t
    obtain rfl : .ingest source payload = c := hcall
    cases Pc.acts_of_act hact with
    | push slot raw _ _ _ hlock =>
        obtain rfl := Option.some.inj hk
        obtain rfl : act = .lock := by
          cases act with
          | lock => rfl
          | notify | wake | drop => cases hact
        cases hstand with
        | pushing _ _ _ _ hraw hslot => exact refusal_onPushLock hraw hslot (hfull slot rfl) hlock
    | pop =>
        cases hstand with
        | popping _ _ _ _ _ _ hf => cases hf

/-- **Every error of `ingest` tells the truth.** -/
theorem refusal_of_exec {ls : List (Label π)} (h : (machine ask M maxWaiters).exec {} ls = some w)
    {n : Nat} {source : UInt8} {payload : Bytes} {e : IngestError}
    (ht : w.tasks n = some ⟨.ingest source payload, .ingested (.error e)⟩) :
    Refusal M maxBody (FullAt depth maxBody ask M maxWaiters ls n) payload e := by
  induction ls using List.reverseRecOn generalizing w with
  | nil =>
      obtain rfl := Option.some.inj h
      cases ht
  | append_singleton ls l ih =>
      obtain ⟨a, ha, hs⟩ := Machine.exec_snoc.mp h
      by_cases hn : n = l.task
      · subst hn
        refine refusal_of_step (.of_reachable ⟨ls, ha⟩) hs ht fun slot hl hlen ↦ ?_
        exact ⟨ls, [], congrArg (ls ++ [·]) hl, a, ha, hlen⟩
      · exact (ih ha ((tasks_of_step hs hn).symm.trans ht)).mono fun _ h ↦ h.snoc l

end Interface

/-! ## The code -/

/-- `IngestPumpStatus`. -/
inductive IngestPumpStatus where
  | timedOut
  | delivered (o : IngestOutcome)
deriving DecidableEq, Repr

/-- `IngestPumpError`, without what the backend says. -/
inductive IngestPumpError where
  | recvBufferTooSmall (needed got : Nat)
  | recvBackend
  | ingest (e : IngestError)
deriving DecidableEq, Repr

/-- What `recv_one_into` answers: its `RecvMetaIntoStatus`, with the bytes it has left in the
buffer, or its `RecvError`. -/
inductive RecvInto where
  | timedOut
  | deliveredOne (replyTo : UInt8) (payload : Bytes)
  | bufferTooSmall (needed got : Nat)
  | backend
deriving DecidableEq, Repr

/-- The await points of `pump_ingest_once`, and its ends. -/
inductive PumpPc where
  | /-- It waits for the lock of the transport. -/
    locking
  | /-- It has the lock, and waits for the transport. -/
    receiving
  | /-- It has given the lock back, and is in `ingest`. -/
    ingesting
  | returned (r : Except IngestPumpError IngestPumpStatus)
  | dropped
deriving DecidableEq, Repr

/-- A pump has not ended; `ingests` says whether its `ingest` has. -/
def PumpPc.suspended (ingests : Bool) : PumpPc → Bool
  | .locking | .receiving => true
  | .ingesting => ingests
  | .returned _ | .dropped => false

/-- A call of `pump_ingest_once`, with the length of its buffer. -/
structure PumpTask where
  bufLen : Nat
  pc : PumpPc
deriving DecidableEq, Repr

/-- An `Interface` with its pumps. -/
structure Pumped (types depth maxBody : Nat) (π : Type) where
  iface : Interface types depth maxBody π := {}
  /-- Who has the lock of the transport. -/
  holder : Option Nat := none
  pumps : Nat → Option PumpTask := fun _ ↦ none
  /-- The pumps that were called. -/
  called : List Nat := []
  /-- The pumps that have received a payload, in order. -/
  arrived : List Nat := []

/-- A move of a pump, or a move on the interface. -/
inductive PumpLabel (π : Type) where
  | call (n bufLen : Nat)
  | lock (n : Nat)
  | recv (n : Nat) (r : RecvInto)
  | drop (n : Nat)
  | iface (l : Interface.Label π)

/-- The move on the interface that a move of the pumps is. -/
def PumpLabel.iface? : PumpLabel π → Option (Interface.Label π)
  | .recv n (.deliveredOne replyTo payload) => some (.call n (.ingest replyTo payload))
  | .iface l => some l
  | _ => none

namespace Pumped

variable (w : Pumped types depth maxBody π)

/-- Pump `n` stands at `pc`. -/
def put (n bufLen : Nat) (pc : PumpPc) : Pumped types depth maxBody π :=
  { w with pumps := Function.update w.pumps n (some ⟨bufLen, pc⟩) }

/-- The code of `pump_ingest_once` from the answer of the transport to the next await; the
slice `rx_buf[..len]` is what the transport has left in the buffer. -/
def onRecv (ask : π → Bytes → Bool × π) (M : Maplet types) (maxWaiters n bufLen : Nat) :
    RecvInto → Option (Pumped types depth maxBody π)
  | .timedOut => some ({ w with holder := none }.put n bufLen (.returned (.ok .timedOut)))
  | .deliveredOne replyTo payload =>
      if payload.length ≤ bufLen then
        (w.iface.step ask M maxWaiters (.call n (.ingest replyTo payload))).map fun iface ↦
          { w with iface, holder := none, arrived := w.arrived ++ [n] }.put n bufLen .ingesting
      else none
  | .bufferTooSmall needed got =>
      some ({ w with holder := none }.put n bufLen (.returned (.error (.recvBufferTooSmall needed got))))
  | .backend => some ({ w with holder := none }.put n bufLen (.returned (.error .recvBackend)))

/-- One move.  Names are not used twice. -/
def step (ask : π → Bytes → Bool × π) (M : Maplet types) (maxWaiters : Nat) :
    PumpLabel π → Option (Pumped types depth maxBody π)
  | .call n bufLen =>
      if (w.pumps n).isSome ∨ (w.iface.tasks n).isSome then none
      else some ({ w with called := w.called ++ [n] }.put n bufLen .locking)
  | .lock n =>
      match w.pumps n with
      | some ⟨bufLen, .locking⟩ =>
          if w.holder = none then some ({ w with holder := some n }.put n bufLen .receiving) else none
      | _ => none
  | .recv n r =>
      match w.pumps n with
      | some ⟨bufLen, .receiving⟩ => w.onRecv ask M maxWaiters n bufLen r
      | _ => none
  | .drop n =>
      match w.pumps n with
      | some ⟨bufLen, .locking⟩ => some (w.put n bufLen .dropped)
      | some ⟨bufLen, .receiving⟩ => some ({ w with holder := none }.put n bufLen .dropped)
      | _ => none
  | .iface (.call n c) =>
      if (w.pumps n).isSome then none
      else (w.iface.step ask M maxWaiters (.call n c)).map fun iface ↦ { w with iface }
  | .iface (.act n a) =>
      (w.iface.step ask M maxWaiters (.act n a)).map fun iface ↦ { w with iface }

/-- The interface and its pumps as a machine. -/
def machine (ask : π → Bytes → Bool × π) (M : Maplet types) (maxWaiters : Nat) :
    Machine (Pumped types depth maxBody π) (PumpLabel π) where
  step w l := w.step ask M maxWaiters l

/-- What the pump `n` has returned. -/
def result (n : Nat) : Option (Except IngestPumpError IngestPumpStatus) :=
  match w.pumps n with
  | some ⟨_, .returned r⟩ => some r
  | some ⟨_, .ingesting⟩ =>
      match w.iface.tasks n with
      | some ⟨_, .ingested r⟩ => some ((r.map .delivered).mapError .ingest)
      | _ => none
  | _ => none

/-- The `ingest` of the pump `n` has not ended. -/
def ingests (n : Nat) : Bool := ((w.iface.tasks n).bind (·.pc.slot)).isSome

/-- The pump `n` is suspended somewhere. -/
def active (n : Nat) : Bool := (w.pumps n).any (·.pc.suspended (w.ingests n))

/-- A pump is called when no other is active.  The `recv_one` and `ingest` in the loop of
`run_ingress_pump` follow each other like that. -/
def oneAtATime : PumpLabel π → Bool
  | .call _ _ => w.called.all fun m ↦ !w.active m
  | _ => true

/-! ## What a move can do -/

variable {w} {w' : Pumped types depth maxBody π}

/-- The moves there are. -/
inductive Moves (ask : π → Bytes → Bool × π) (M : Maplet types) (maxWaiters : Nat)
    (w : Pumped types depth maxBody π) : PumpLabel π → Pumped types depth maxBody π → Prop
  | called (n bufLen : Nat) (hp : w.pumps n = none) (ht : w.iface.tasks n = none) :
      Moves ask M maxWaiters w (.call n bufLen)
        ({ w with called := w.called ++ [n] }.put n bufLen .locking)
  | locked (n bufLen : Nat) (hp : w.pumps n = some ⟨bufLen, .locking⟩) (hfree : w.holder = none) :
      Moves ask M maxWaiters w (.lock n) ({ w with holder := some n }.put n bufLen .receiving)
  | returned (n bufLen : Nat) (r : RecvInto) (res : Except IngestPumpError IngestPumpStatus)
      (hp : w.pumps n = some ⟨bufLen, .receiving⟩)
      (hr : r = .timedOut ∧ res = .ok .timedOut ∨ r = .backend ∧ res = .error .recvBackend ∨
        ∃ needed got, r = .bufferTooSmall needed got ∧ res = .error (.recvBufferTooSmall needed got)) :
      Moves ask M maxWaiters w (.recv n r) ({ w with holder := none }.put n bufLen (.returned res))
  | received (n bufLen : Nat) (replyTo : UInt8) (payload : Bytes)
      (iface : Interface types depth maxBody π) (hp : w.pumps n = some ⟨bufLen, .receiving⟩)
      (hlen : payload.length ≤ bufLen)
      (hs : w.iface.step ask M maxWaiters (.call n (.ingest replyTo payload)) = some iface) :
      Moves ask M maxWaiters w (.recv n (.deliveredOne replyTo payload))
        ({ w with iface, holder := none, arrived := w.arrived ++ [n] }.put n bufLen .ingesting)
  | dropLocking (n bufLen : Nat) (hp : w.pumps n = some ⟨bufLen, .locking⟩) :
      Moves ask M maxWaiters w (.drop n) (w.put n bufLen .dropped)
  | dropReceiving (n bufLen : Nat) (hp : w.pumps n = some ⟨bufLen, .receiving⟩) :
      Moves ask M maxWaiters w (.drop n) ({ w with holder := none }.put n bufLen .dropped)
  | iface (l : Interface.Label π) (iface : Interface types depth maxBody π)
      (hs : w.iface.step ask M maxWaiters l = some iface)
      (hnew : ∀ n c, l = .call n c → w.pumps n = none) :
      Moves ask M maxWaiters w (.iface l) { w with iface }

theorem moves_of_onRecv {n bufLen : Nat} {r : RecvInto} (hp : w.pumps n = some ⟨bufLen, .receiving⟩)
    (h : w.onRecv ask M maxWaiters n bufLen r = some w') : Moves ask M maxWaiters w (.recv n r) w' := by
  cases r with
  | timedOut =>
      obtain rfl := Option.some.inj h
      exact .returned n bufLen _ _ hp (.inl ⟨rfl, rfl⟩)
  | deliveredOne replyTo payload =>
      obtain ⟨hlen, h⟩ := Option.ite_none_right_eq_some.mp h
      obtain ⟨iface, hs, rfl⟩ := Option.map_eq_some_iff.mp h
      exact .received n bufLen replyTo payload iface hp hlen hs
  | bufferTooSmall needed got =>
      obtain rfl := Option.some.inj h
      exact .returned n bufLen _ _ hp (.inr (.inr ⟨needed, got, rfl, rfl⟩))
  | backend =>
      obtain rfl := Option.some.inj h
      exact .returned n bufLen _ _ hp (.inr (.inl ⟨rfl, rfl⟩))

theorem moves_of_step {l : PumpLabel π} (h : w.step ask M maxWaiters l = some w') :
    Moves ask M maxWaiters w l w' := by
  cases l with
  | call n bufLen =>
      simp only [step, Option.ite_none_left_eq_some, not_or, Option.not_isSome_iff_eq_none,
        Option.some.injEq] at h
      obtain ⟨⟨hp, ht⟩, rfl⟩ := h
      exact .called n bufLen hp ht
  | lock n =>
      simp only [step] at h
      split at h
      · next bufLen hp =>
          obtain ⟨hfree, h⟩ := Option.ite_none_right_eq_some.mp h
          obtain rfl := Option.some.inj h
          exact .locked n bufLen hp hfree
      · cases h
  | recv n r =>
      simp only [step] at h
      split at h
      · next bufLen hp => exact moves_of_onRecv hp h
      · cases h
  | drop n =>
      simp only [step] at h
      split at h
      · next bufLen hp =>
          obtain rfl := Option.some.inj h
          exact .dropLocking n bufLen hp
      · next bufLen hp =>
          obtain rfl := Option.some.inj h
          exact .dropReceiving n bufLen hp
      · cases h
  | iface l =>
      cases l with
      | call n c =>
          simp only [step, Option.ite_none_left_eq_some, Option.not_isSome_iff_eq_none] at h
          obtain ⟨hp, h⟩ := h
          obtain ⟨iface, hs, rfl⟩ := Option.map_eq_some_iff.mp h
          refine .iface _ iface hs ?_
          rintro _ _ ⟨⟩
          exact hp
      | act n a =>
          obtain ⟨iface, hs, rfl⟩ := Option.map_eq_some_iff.mp h
          exact .iface _ iface hs nofun

/-- The interface sees its own moves, and nothing else of the pumps. -/
theorem exec_iface {ls : List (PumpLabel π)} {w₀ : Pumped types depth maxBody π}
    (h : (machine ask M maxWaiters).exec w₀ ls = some w) :
    (Interface.machine ask M maxWaiters).exec w₀.iface (ls.filterMap PumpLabel.iface?) =
      some w.iface := by
  refine Machine.exec_filterMap (f := Pumped.iface) ?_ ?_ h
  · intro a l b hs hl
    cases moves_of_step hs with
    | called | locked | returned | dropLocking | dropReceiving => rfl
    | received | iface => cases hl
  · intro a l b k hs hl
    cases moves_of_step hs with
    | called | locked | dropLocking | dropReceiving => cases hl
    | returned n bufLen r res hp hr =>
        rcases hr with ⟨rfl, -⟩ | ⟨rfl, -⟩ | ⟨needed, got, rfl, -⟩ <;> cases hl
    | received n bufLen replyTo payload iface hp hlen hcall =>
        obtain rfl := Option.some.inj hl
        exact hcall
    | iface l iface hmove hnew =>
        obtain rfl := Option.some.inj hl
        exact hmove

/-! ## The invariant -/

/-- **The invariant**: a pump is known to the interface from the moment it has received
something. -/
structure Inv (w : Pumped types depth maxBody π) : Prop where
  called : ∀ n, (w.pumps n).isSome = true → n ∈ w.called
  holder : ∀ n, w.holder = some n ↔ ∃ bufLen, w.pumps n = some ⟨bufLen, .receiving⟩
  fresh : ∀ n t, w.pumps n = some t → t.pc ≠ .ingesting → w.iface.tasks n = none
  arrived : ∀ n, n ∈ w.arrived ↔ ∃ bufLen, w.pumps n = some ⟨bufLen, .ingesting⟩
  nodup : w.arrived.Nodup
  fits : ∀ n bufLen, w.pumps n = some ⟨bufLen, .ingesting⟩ → ∃ source payload pc,
    w.iface.tasks n = some ⟨.ingest source payload, pc⟩ ∧ payload.length ≤ bufLen
  returned : ∀ n bufLen res, w.pumps n = some ⟨bufLen, .returned res⟩ →
    (∀ o, res ≠ .ok (.delivered o)) ∧ ∀ e, res ≠ .error (.ingest e)

theorem Inv.init : Inv ({} : Pumped types depth maxBody π) := by
  refine ⟨nofun, fun n ↦ ⟨nofun, ?_⟩, nofun, fun n ↦ ⟨nofun, ?_⟩, .nil, nofun, nofun⟩
  · rintro ⟨_, ⟨⟩⟩
  · rintro ⟨_, ⟨⟩⟩

/-- A pump that has received nothing moves, and the lock is taken or given back. -/
theorem Inv.put (hi : Inv w) {n bufLen : Nat} {pc : PumpPc} {holder : Option Nat}
    {called : List Nat} (ht : w.iface.tasks n = none) (hn : n ∉ w.arrived) (hpc : pc ≠ .ingesting)
    (hcalled : n ∈ called) (hkeep : w.called ⊆ called)
    (hholder : ∀ m, holder = some m ↔ m = n ∧ pc = .receiving ∨ m ≠ n ∧ w.holder = some m)
    (hr : ∀ res, pc = .returned res → (∀ o, res ≠ .ok (.delivered o)) ∧ ∀ e, res ≠ .error (.ingest e)) :
    Inv ({ w with holder, called }.put n bufLen pc) := by
  have hself : ({ w with holder, called }.put n bufLen pc).pumps n = some ⟨bufLen, pc⟩ :=
    Function.update_self _ _ _
  have hother : ∀ m, m ≠ n → ({ w with holder, called }.put n bufLen pc).pumps m = w.pumps m :=
    fun m hm ↦ Function.update_of_ne hm _ _
  constructor
  case called =>
    intro m hm
    by_cases hmn : m = n
    · rw [hmn]
      exact hcalled
    · rw [hother m hmn] at hm
      exact hkeep (hi.called m hm)
  case holder =>
    intro m
    refine (hholder m).trans ?_
    by_cases hm : m = n
    · obtain rfl := hm
      rw [hself]
      simp
    · rw [hother m hm]
      simp [hm, hi.holder m]
  case fresh =>
    intro m t hm hpc'
    rcases Machine.update_cases hm with ⟨rfl, -⟩ | ⟨-, hm⟩
    · exact ht
    · exact hi.fresh m t hm hpc'
  case arrived =>
    intro m
    by_cases hm : m = n
    · obtain rfl := hm
      rw [hself]
      simp [hpc, hn, Pumped.put]
    · rw [hother m hm]
      exact hi.arrived m
  case nodup => exact hi.nodup
  case fits =>
    intro m bufLen' hm
    rcases Machine.update_cases hm with ⟨-, heq⟩ | ⟨-, hm⟩
    · exact absurd (congrArg PumpTask.pc heq).symm hpc
    · exact hi.fits m bufLen' hm
  case returned =>
    intro m bufLen' res hm
    rcases Machine.update_cases hm with ⟨-, heq⟩ | ⟨-, hm⟩
    · exact hr res (congrArg PumpTask.pc heq).symm
    · exact hi.returned m bufLen' res hm

/-- A pump that has the lock. -/
theorem Inv.receiving (hi : Inv w) {n bufLen : Nat} (hp : w.pumps n = some ⟨bufLen, .receiving⟩) :
    w.holder = some n ∧ w.iface.tasks n = none ∧ n ∉ w.arrived := by
  refine ⟨(hi.holder n).mpr ⟨bufLen, hp⟩, hi.fresh n _ hp nofun, fun hn ↦ ?_⟩
  obtain ⟨bufLen', hp'⟩ := (hi.arrived n).mp hn
  exact nomatch hp.symm.trans hp'

/-- A pump that waits for the lock. -/
theorem Inv.locking (hi : Inv w) {n bufLen : Nat} (hp : w.pumps n = some ⟨bufLen, .locking⟩) :
    w.holder ≠ some n ∧ w.iface.tasks n = none ∧ n ∉ w.arrived := by
  refine ⟨fun hn ↦ ?_, hi.fresh n _ hp nofun, fun hn ↦ ?_⟩
  · obtain ⟨bufLen', hp'⟩ := (hi.holder n).mp hn
    exact nomatch hp.symm.trans hp'
  · obtain ⟨bufLen', hp'⟩ := (hi.arrived n).mp hn
    exact nomatch hp.symm.trans hp'

/-- A pump that has returned without an `ingest`. -/
theorem Inv.unknown_of_returned (hi : Inv w) {n bufLen : Nat}
    {res : Except IngestPumpError IngestPumpStatus} (hp : w.pumps n = some ⟨bufLen, .returned res⟩) :
    n ∉ w.arrived ∧ w.iface.tasks n = none := by
  refine ⟨fun hn ↦ ?_, hi.fresh n _ hp nofun⟩
  obtain ⟨bufLen', hp'⟩ := (hi.arrived n).mp hn
  exact nomatch hp.symm.trans hp'

/-- The lock is given back by the one who has it. -/
theorem Inv.release (hi : Inv w) {n bufLen : Nat} {pc : PumpPc}
    (hp : w.pumps n = some ⟨bufLen, .receiving⟩) (hpc : pc ≠ .ingesting) (hrecv : pc ≠ .receiving)
    (hr : ∀ res, pc = .returned res → (∀ o, res ≠ .ok (.delivered o)) ∧ ∀ e, res ≠ .error (.ingest e)) :
    Inv ({ w with holder := none }.put n bufLen pc) := by
  obtain ⟨hholder, ht, hn⟩ := hi.receiving hp
  refine hi.put ht hn hpc (hi.called n (by rw [hp]; rfl)) (fun _ h ↦ h) (fun m ↦ ⟨nofun, ?_⟩) hr
  rintro (⟨-, h⟩ | ⟨hm, h⟩)
  · exact absurd h hrecv
  · exact absurd (Option.some.inj (hholder.symm.trans h)).symm hm

/-- A payload has arrived, and its `ingest` begins. -/
theorem Inv.receive (hi : Inv w) {n bufLen : Nat} {replyTo : UInt8} {payload : Bytes}
    {iface : Interface types depth maxBody π} (hp : w.pumps n = some ⟨bufLen, .receiving⟩)
    (hlen : payload.length ≤ bufLen)
    (hs : w.iface.step ask M maxWaiters (.call n (.ingest replyTo payload)) = some iface) :
    Inv ({ w with iface, holder := none, arrived := w.arrived ++ [n] }.put n bufLen .ingesting) := by
  obtain ⟨hholder, ht, hn⟩ := hi.receiving hp
  have hothers : ∀ m, m ≠ n → iface.tasks m = w.iface.tasks m :=
    fun m hm ↦ Interface.tasks_of_step hs hm
  constructor
  case called =>
    intro m hm
    by_cases hmn : m = n
    · rw [hmn]
      exact hi.called n (by rw [hp]; rfl)
    · rw [show (_ : Pumped types depth maxBody π).pumps m = w.pumps m from
        Function.update_of_ne hmn _ _] at hm
      exact hi.called m hm
  case holder =>
    intro m
    refine ⟨nofun, ?_⟩
    rintro ⟨bufLen', hm⟩
    rcases Machine.update_cases hm with ⟨-, heq⟩ | ⟨hmn, hm⟩
    · cases heq
    · exact absurd (Option.some.inj (hholder.symm.trans ((hi.holder m).mpr ⟨bufLen', hm⟩))).symm hmn
  case fresh =>
    intro m t hm hpc
    rcases Machine.update_cases hm with ⟨-, rfl⟩ | ⟨hmn, hm⟩
    · exact absurd rfl hpc
    · exact (hothers m hmn).trans (hi.fresh m t hm hpc)
  case arrived =>
    intro m
    refine List.mem_append.trans ⟨?_, ?_⟩
    · rintro (hm | hm)
      · obtain ⟨bufLen', hp'⟩ := (hi.arrived m).mp hm
        exact ⟨bufLen', (Function.update_of_ne (ne_of_mem_of_not_mem hm hn) _ _).trans hp'⟩
      · obtain rfl := List.mem_singleton.mp hm
        exact ⟨bufLen, Function.update_self _ _ _⟩
    · rintro ⟨bufLen', hm⟩
      rcases Machine.update_cases hm with ⟨rfl, -⟩ | ⟨-, hm⟩
      · exact .inr List.mem_cons_self
      · exact .inl ((hi.arrived m).mpr ⟨bufLen', hm⟩)
  case nodup => exact List.nodup_append_comm.mpr (List.nodup_cons.mpr ⟨hn, hi.nodup⟩)
  case fits =>
    intro m bufLen' hm
    rcases Machine.update_cases hm with ⟨rfl, heq⟩ | ⟨hmn, hm⟩
    · obtain ⟨rfl, -⟩ := PumpTask.mk.inj heq
      rcases Interface.step_cases hs with ⟨_, _, hl, -, rfl⟩ | ⟨_, _, _, _, _, _, _, hl, -⟩
      · obtain ⟨rfl, rfl⟩ := Interface.Label.call.inj hl
        exact ⟨replyTo, payload, _, Function.update_self _ _ _, hlen⟩
      · cases hl
    · obtain ⟨source, payload', pc, ht', hle⟩ := hi.fits m bufLen' hm
      exact ⟨source, payload', pc, (hothers m hmn).trans ht', hle⟩
  case returned =>
    intro m bufLen' res hm
    rcases Machine.update_cases hm with ⟨-, heq⟩ | ⟨-, hm⟩
    · cases heq
    · exact hi.returned m bufLen' res hm

/-- Something happens on the interface. -/
theorem Inv.onIface (hi : Inv w) {l : Interface.Label π} {iface : Interface types depth maxBody π}
    (hs : w.iface.step ask M maxWaiters l = some iface)
    (hnew : ∀ n c, l = .call n c → w.pumps n = none) : Inv { w with iface } := by
  refine { hi with fresh := ?_, fits := ?_ }
  · intro m t hm hpc
    refine Interface.tasks_eq_none_of_step hs (hi.fresh m t hm hpc) ?_
    rintro c rfl
    exact nomatch (hnew m c rfl).symm.trans hm
  · intro m bufLen hm
    obtain ⟨source, payload, pc, ht, hle⟩ := hi.fits m bufLen hm
    obtain ⟨pc', ht'⟩ := Interface.call_of_step hs ht
    exact ⟨source, payload, pc', ht', hle⟩

/-- Every move keeps the invariant. -/
theorem Inv.moves (hi : Inv w) {l : PumpLabel π} (h : Moves ask M maxWaiters w l w') : Inv w' := by
  cases h with
  | called n bufLen hp ht =>
      have hn : n ∉ w.arrived := by
        intro hn
        obtain ⟨bufLen', hp'⟩ := (hi.arrived n).mp hn
        exact nomatch hp.symm.trans hp'
      refine hi.put ht hn nofun (List.mem_append_right _ List.mem_cons_self)
        (fun _ h ↦ List.mem_append_left _ h) (fun m ↦ ⟨fun hm ↦ .inr ⟨?_, hm⟩, ?_⟩) nofun
      · rintro rfl
        obtain ⟨bufLen', hp'⟩ := (hi.holder m).mp hm
        exact nomatch hp.symm.trans hp'
      · rintro (⟨-, ⟨⟩⟩ | ⟨-, hm⟩)
        exact hm
  | locked n bufLen hp hfree =>
      obtain ⟨-, ht, hn⟩ := hi.locking hp
      refine hi.put ht hn nofun (hi.called n (by rw [hp]; rfl)) (fun _ h ↦ h)
        (fun m ↦ ⟨fun hm ↦ .inl ⟨?_, rfl⟩, ?_⟩) nofun
      · exact (Option.some.inj hm).symm
      · rintro (⟨rfl, -⟩ | ⟨-, hm⟩)
        · rfl
        · exact nomatch hfree.symm.trans hm
  | returned n bufLen r res hp hr =>
      refine hi.release hp nofun nofun ?_
      rintro res' ⟨⟩
      rcases hr with ⟨-, rfl⟩ | ⟨-, rfl⟩ | ⟨needed, got, -, rfl⟩
      · exact ⟨nofun, nofun⟩
      · exact ⟨nofun, nofun⟩
      · exact ⟨nofun, nofun⟩
  | received n bufLen replyTo payload iface hp hlen hs => exact hi.receive hp hlen hs
  | dropLocking n bufLen hp =>
      obtain ⟨hholder, ht, hn⟩ := hi.locking hp
      refine hi.put ht hn nofun (hi.called n (by rw [hp]; rfl)) (fun _ h ↦ h)
        (fun m ↦ ⟨fun hm ↦ .inr ⟨?_, hm⟩, ?_⟩) nofun
      · rintro rfl
        exact hholder hm
      · rintro (⟨-, ⟨⟩⟩ | ⟨-, hm⟩)
        exact hm
  | dropReceiving n bufLen hp => exact hi.release hp nofun nofun nofun
  | iface l iface hs hnew => exact hi.onIface hs hnew

theorem Inv.of_reachable (h : (machine ask M maxWaiters).Reachable {} w) : Inv w :=
  h.invariant .init fun _ _ _ hi hs ↦ hi.moves (moves_of_step hs)

/-! ## What becomes of a payload -/

/-- What holds in the state `w` at the end of the run `ls`. -/
structure Guarantee (ask : π → Bytes → Bool × π) (M : Maplet types) (maxWaiters : Nat)
    (ls : List (PumpLabel π)) (w : Pumped types depth maxBody π) : Prop where
  /-- The calls on the interface, those of the pumps among them, are a run of its own. -/
  bus : (Interface.machine ask M maxWaiters).exec {} (ls.filterMap PumpLabel.iface?) = some w.iface
  /-- At most one pump waits for the transport. -/
  exclusive : ∀ n m bufLen bufLen', w.pumps n = some ⟨bufLen, .receiving⟩ →
    w.pumps m = some ⟨bufLen', .receiving⟩ → n = m
  /-- A pump receives one payload at most. -/
  once : w.arrived.Nodup
  /-- A payload that has arrived is the argument of one `ingest`, which still waits for the
  mailbox, or has put the body there, or has reported an error, or was dropped. -/
  fate : ∀ n ∈ w.arrived, ∃ source payload pc, w.iface.tasks n = some ⟨.ingest source payload, pc⟩ ∧
    (n ∈ w.iface.pushes ∨ (∃ slot raw, pc = .pushing slot raw) ∨
      (∃ e, w.result n = some (.error (.ingest e))) ∨ pc = .dropped)
  /-- `Delivered` means delivered, and says what. -/
  delivered : ∀ n o, w.result n = some (.ok (.delivered o)) → n ∈ w.arrived ∧ n ∈ w.iface.pushes ∧
    ∃ source payload raw, w.iface.call n = some (.ingest source payload) ∧
      decodeWire payload = .ok raw ∧ o = ⟨source, raw.id, raw.body.length⟩
  /-- An error of `ingest` is about a payload that was put nowhere, and says why: `MailboxFull`,
  that the mailbox was full when `push` was called. -/
  refused : ∀ n e, w.result n = some (.error (.ingest e)) → n ∈ w.arrived ∧ n ∉ w.iface.pushes ∧
    ∃ source payload, w.iface.call n = some (.ingest source payload) ∧
      Interface.Refusal M maxBody (Interface.FullAt depth maxBody ask M maxWaiters
        (ls.filterMap PumpLabel.iface?) n) payload e
  /-- A pump that reports anything else has received nothing. -/
  nothing : ∀ n r, w.result n = some r → (∀ o, r ≠ .ok (.delivered o)) →
    (∀ e, r ≠ .error (.ingest e)) → n ∉ w.arrived ∧ w.iface.tasks n = none

/-- What a pump has returned it has returned itself, or its `ingest` has. -/
theorem result_cases {n : Nat} {r : Except IngestPumpError IngestPumpStatus}
    (h : w.result n = some r) :
    (∃ bufLen, w.pumps n = some ⟨bufLen, .returned r⟩) ∨
      ∃ bufLen c res, w.pumps n = some ⟨bufLen, .ingesting⟩ ∧ w.iface.tasks n = some ⟨c, .ingested res⟩ ∧
        r = (res.map .delivered).mapError .ingest := by
  unfold result at h
  split at h
  · next bufLen res hp =>
      obtain rfl := Option.some.inj h
      exact .inl ⟨bufLen, hp⟩
  · next bufLen hp =>
      split at h
      · next c res ht => exact .inr ⟨bufLen, c, res, hp, ht, (Option.some.inj h).symm⟩
      · cases h
  · cases h

theorem result_of_ingested {n bufLen : Nat} {c : Call π} {res : Except IngestError IngestOutcome}
    (hp : w.pumps n = some ⟨bufLen, .ingesting⟩) (ht : w.iface.tasks n = some ⟨c, .ingested res⟩) :
    w.result n = some ((res.map .delivered).mapError .ingest) := by
  simp only [result, hp, ht]

/-- An `ingest` that has not put its message into a mailbox. -/
theorem fate_of_standing {n bufLen : Nat} {source : UInt8} {payload : Bytes}
    {pc : Pc types maxBody π} (hi : Interface.Inv M ask w.iface)
    (hp : w.pumps n = some ⟨bufLen, .ingesting⟩)
    (ht : w.iface.tasks n = some ⟨.ingest source payload, pc⟩) :
    n ∈ w.iface.pushes ∨ (∃ slot raw, pc = .pushing slot raw) ∨
      (∃ e, w.result n = some (.error (.ingest e))) ∨ pc = .dropped := by
  have hmem : pc.pushed = true → n ∈ w.iface.pushes := by
    intro h
    exact (hi.pushed n).mpr (by rw [ht, Option.any_some, h])
  cases hi.standing n _ ht with
  | pushing _ _ slot raw => exact .inr (.inl ⟨slot, raw, rfl⟩)
  | notifying => exact .inl (hmem rfl)
  | ingested => exact .inl (hmem rfl)
  | failed _ _ e => exact .inr (.inr (.inl ⟨e, result_of_ingested hp ht⟩))
  | popping _ _ _ _ _ _ hf => cases hf
  | waiting _ _ _ _ _ _ hf => cases hf
  | received _ _ hf => cases hf
  | dropped => exact .inr (.inr (.inr rfl))

/-- **The pump.**  However pumps and calls are interleaved, the bus sees a run of its own, and
every payload that was taken from the transport is accounted for. -/
theorem pump_guarantee (ask : π → Bytes → Bool × π) (M : Maplet types) (maxWaiters : Nat)
    (ls : List (PumpLabel π)) (w : Pumped types depth maxBody π)
    (h : (machine ask M maxWaiters).exec {} ls = some w) : Guarantee ask M maxWaiters ls w := by
  have hi := Inv.of_reachable ⟨ls, h⟩
  have hrun := exec_iface h
  have hiface := Interface.Inv.of_reachable ⟨_, hrun⟩
  constructor
  case bus => exact hrun
  case exclusive =>
    intro n m bufLen bufLen' hn hm
    exact Option.some.inj ((hi.receiving hn).1.symm.trans (hi.receiving hm).1)
  case once => exact hi.nodup
  case fate =>
    intro n hn
    obtain ⟨bufLen, hp⟩ := (hi.arrived n).mp hn
    obtain ⟨source, payload, pc, ht, -⟩ := hi.fits n bufLen hp
    exact ⟨source, payload, pc, ht, fate_of_standing hiface hp ht⟩
  case delivered =>
    intro n o hres
    rcases result_cases hres with ⟨bufLen, hp⟩ | ⟨bufLen, c, res, hp, ht, heq⟩
    · exact absurd rfl ((hi.returned n bufLen _ hp).1 o)
    · cases res with
      | error e => cases heq
      | ok o' =>
          obtain rfl : o = o' := IngestPumpStatus.delivered.inj (Except.ok.inj heq)
          have hpushed : n ∈ w.iface.pushes := (hiface.pushed n).mpr (by rw [ht]; rfl)
          refine ⟨(hi.arrived n).mpr ⟨bufLen, hp⟩, hpushed, ?_⟩
          cases hiface.standing n _ ht with
          | ingested source payload slot raw hraw =>
              refine ⟨source, payload, raw, ?_, hraw, rfl⟩
              rw [Interface.call, ht, Option.map_some]
  case refused =>
    intro n e hres
    rcases result_cases hres with ⟨bufLen, hp⟩ | ⟨bufLen, c, res, hp, ht, heq⟩
    · exact absurd rfl ((hi.returned n bufLen _ hp).2 e)
    · cases res with
      | ok o => cases heq
      | error e' =>
          obtain rfl : e = e' := IngestPumpError.ingest.inj (Except.error.inj heq)
          have hpushed : n ∉ w.iface.pushes := by
            intro hn
            have := (hiface.pushed n).mp hn
            rw [ht] at this
            cases this
          refine ⟨(hi.arrived n).mpr ⟨bufLen, hp⟩, hpushed, ?_⟩
          cases hiface.standing n _ ht with
          | failed source payload =>
              refine ⟨source, payload, ?_, Interface.refusal_of_exec hrun ht⟩
              rw [Interface.call, ht, Option.map_some]
  case nothing =>
    intro n r hres hok herr
    rcases result_cases hres with ⟨bufLen, hp⟩ | ⟨bufLen, c, res, hp, ht, rfl⟩
    · exact hi.unknown_of_returned hp
    · cases res with
      | ok o => exact absurd rfl (hok o)
      | error e => exact absurd rfl (herr e)

/-! ## One pump at a time -/

/-- The invariant of the order: the pump that is active was the last to receive something. -/
structure Ordered (w : Pumped types depth maxBody π) : Prop where
  single : ∀ n m, w.active n = true → w.active m = true → n = m
  order : (w.iface.pushes.filter (· ∈ w.arrived)).Sublist w.arrived
  last : ∀ n ∈ w.arrived, n ∉ w.iface.pushes → w.active n = true → ∃ before,
    w.arrived = before ++ [n] ∧ (w.iface.pushes.filter (· ∈ w.arrived)).Sublist before

theorem active_congr {n : Nat} (h : w'.active n = true) (hp : w'.pumps n = w.pumps n)
    (ht : w'.iface.tasks n = w.iface.tasks n) : w.active n = true := by
  rw [active, ingests, hp, ht] at h
  exact h

theorem active_of_pumps {n : Nat} {t : PumpTask} (h : w.pumps n = some t)
    (ht : t.pc.suspended (w.ingests n) = true) : w.active n = true := by
  rw [active, h, Option.any_some, ht]

/-- A pump whose `ingest` moves. -/
theorem active_of_ingests {n : Nat} (h : w'.active n = true) (hp : w'.pumps n = w.pumps n)
    (hs : w.ingests n = true) : w.active n = true := by
  rw [active, hp] at h
  obtain ⟨t, ht⟩ := Option.isSome_iff_exists.mp (Option.isSome_of_any h)
  rw [ht, Option.any_some] at h
  refine active_of_pumps ht ?_
  rw [hs]
  cases hcase : t.pc with
  | locking | receiving | ingesting => rfl
  | returned | dropped =>
      rw [hcase] at h
      cases h

/-- A move that puts nothing into a mailbox, receives nothing and makes no pump active. -/
theorem Ordered.quiet (ho : Ordered w) (harrived : w'.arrived = w.arrived)
    (hpushes : w'.iface.pushes = w.iface.pushes)
    (hactive : ∀ n, w'.active n = true → w.active n = true) : Ordered w' := by
  constructor
  · intro n m hn hm
    exact ho.single n m (hactive n hn) (hactive m hm)
  · rw [harrived, hpushes]
    exact ho.order
  · rw [harrived, hpushes]
    intro n hn hp ha
    exact ho.last n hn hp (hactive n ha)

theorem active_put {n bufLen : Nat} {pc : PumpPc} {holder : Option Nat} (hn : w.active n = true)
    (m : Nat) (h : ({ w with holder }.put n bufLen pc).active m = true) : w.active m = true := by
  by_cases hm : m = n
  · rw [hm]
    exact hn
  · exact active_congr h (Function.update_of_ne hm _ _) rfl

/-- Something happens on the interface. -/
theorem Ordered.onIface (ho : Ordered w) (hi : Inv w) (hiface : Interface.Inv M ask w.iface)
    {l : Interface.Label π} {iface : Interface types depth maxBody π}
    (hs : w.iface.step ask M maxWaiters l = some iface)
    (hnew : ∀ n c, l = .call n c → w.pumps n = none) : Ordered { w with iface } := by
  have hactive : ∀ m, ({ w with iface } : Pumped types depth maxBody π).active m = true →
      w.active m = true := by
    intro m hm
    by_cases hl : m = l.task
    · obtain rfl := hl
      rcases Interface.step_cases hs with ⟨n, c, rfl, -, -⟩ | ⟨n, a, t, k, pc, port, e, rfl, ht, hk, -, -⟩
      · obtain ⟨bufLen, hp⟩ := Option.isSome_iff_exists.mp (Option.isSome_of_any hm)
        exact nomatch (hnew n c rfl).symm.trans hp
      · refine active_of_ingests hm rfl ?_
        show ((w.iface.tasks n).bind (·.pc.slot)).isSome = true
        rw [ht, Option.bind_some, hk, Option.isSome_some]
    · exact active_congr hm rfl (Interface.tasks_of_step hs hl)
  rcases Interface.pushes_of_step hiface hs with heq | ⟨heq, hfresh, hslot⟩
  · exact ho.quiet rfl heq hactive
  · -- a pump that pushes is the one that is active
    have hself : l.task ∈ w.arrived → w.active l.task = true := by
      intro hl
      obtain ⟨bufLen, hp⟩ := (hi.arrived _).mp hl
      exact active_of_pumps hp hslot
    have hfilter : iface.pushes.filter (· ∈ w.arrived) = w.iface.pushes.filter (· ∈ w.arrived) ++
        if l.task ∈ w.arrived then [l.task] else [] := by
      rw [heq, List.filter_append, List.filter_singleton, Bool.cond_decide]
    constructor
    · intro n m hn hm
      exact ho.single n m (hactive n hn) (hactive m hm)
    · show (iface.pushes.filter (· ∈ w.arrived)).Sublist w.arrived
      rw [hfilter]
      split
      · next hl =>
          obtain ⟨before, hbefore, hsub⟩ := ho.last _ hl hfresh (hself hl)
          rw [hbefore] at hsub ⊢
          exact hsub.append (.refl _)
      · rw [List.append_nil]
        exact ho.order
    · intro n hn hp ha
      have hp : n ∉ w.iface.pushes ++ [l.task] := heq ▸ hp
      obtain ⟨before, hbefore, hsub⟩ :=
        ho.last n hn (fun h ↦ hp (List.mem_append_left _ h)) (hactive n ha)
      refine ⟨before, hbefore, ?_⟩
      show (iface.pushes.filter (· ∈ w.arrived)).Sublist before
      rw [hfilter, if_neg, List.append_nil]
      · exact hsub
      · intro hl
        rw [ho.single n l.task (hactive n ha) (hself hl)] at hp
        exact hp (List.mem_append_right _ List.mem_cons_self)

/-- A payload has arrived, and its `ingest` begins. -/
theorem Ordered.receive (ho : Ordered w) (hi : Inv w) (hiface : Interface.Inv M ask w.iface)
    {n bufLen : Nat} {replyTo : UInt8} {payload : Bytes} {iface : Interface types depth maxBody π}
    (hp : w.pumps n = some ⟨bufLen, .receiving⟩)
    (hs : w.iface.step ask M maxWaiters (.call n (.ingest replyTo payload)) = some iface) :
    Ordered ({ w with iface, holder := none, arrived := w.arrived ++ [n] }.put n bufLen .ingesting) := by
  obtain ⟨-, ht, hn⟩ := hi.receiving hp
  have hself : w.active n = true := active_of_pumps hp rfl
  have hactive : ∀ m, ({ w with iface, holder := none, arrived := w.arrived ++ [n] }.put n bufLen
      .ingesting).active m = true → w.active m = true := by
    intro m hm
    by_cases hmn : m = n
    · rw [hmn]
      exact hself
    · exact active_congr hm (Function.update_of_ne hmn _ _) (Interface.tasks_of_step hs hmn)
  have hfresh : n ∉ w.iface.pushes := by
    intro hmem
    have := hiface.isSome hmem
    rw [ht] at this
    cases this
  have hpushes : iface.pushes = w.iface.pushes := by
    rcases Interface.pushes_of_step hiface hs with heq | ⟨-, -, hslot⟩
    · exact heq
    · rw [show w.iface.tasks (Interface.Label.call n (.ingest replyTo payload) : Interface.Label π).task =
        none from ht] at hslot
      cases hslot
  have hfilter : iface.pushes.filter (· ∈ w.arrived ++ [n]) = w.iface.pushes.filter (· ∈ w.arrived) := by
    rw [hpushes]
    apply List.filter_congr
    intro m hm
    simp only [List.mem_append, List.mem_singleton, ne_of_mem_of_not_mem hm hfresh, or_false]
  constructor
  · intro k m hk hm
    exact ho.single k m (hactive k hk) (hactive m hm)
  · show (iface.pushes.filter (· ∈ w.arrived ++ [n])).Sublist (w.arrived ++ [n])
    rw [hfilter]
    exact ho.order.trans (List.sublist_append_left _ _)
  · intro m hm hmp ha
    obtain rfl := ho.single m n (hactive m ha) hself
    refine ⟨w.arrived, rfl, ?_⟩
    show (iface.pushes.filter (· ∈ w.arrived ++ [m])).Sublist w.arrived
    rw [hfilter]
    exact ho.order

/-- A pump is called while no other is active. -/
theorem Ordered.call (ho : Ordered w) (hi : Inv w) {n bufLen : Nat} (hp : w.pumps n = none)
    (hidle : (w.called.all fun m ↦ !w.active m) = true) :
    Ordered ({ w with called := w.called ++ [n] }.put n bufLen .locking) := by
  have hactive : ∀ m, ({ w with called := w.called ++ [n] }.put n bufLen .locking).active m = true →
      m = n := by
    intro m hm
    by_contra hmn
    have hbefore : w.active m = true := active_congr hm (Function.update_of_ne hmn _ _) rfl
    have hmem := hi.called m (Option.isSome_of_any hbefore)
    have hno := List.all_eq_true.mp hidle m hmem
    rw [hbefore] at hno
    cases hno
  constructor
  · intro k m hk hm
    rw [hactive k hk, hactive m hm]
  · exact ho.order
  · intro m hm hmp ha
    obtain rfl := hactive m ha
    obtain ⟨bufLen', hp'⟩ := (hi.arrived m).mp hm
    exact nomatch hp.symm.trans hp'

theorem Ordered.moves (ho : Ordered w) (hi : Inv w) (hiface : Interface.Inv M ask w.iface)
    {l : PumpLabel π} (hone : w.oneAtATime l = true) (h : Moves ask M maxWaiters w l w') : Ordered w' := by
  cases h with
  | called n bufLen hp ht => exact ho.call hi hp hone
  | locked n bufLen hp hfree =>
      exact ho.quiet rfl rfl (active_put (active_of_pumps hp rfl))
  | returned n bufLen r res hp hr =>
      exact ho.quiet rfl rfl (active_put (active_of_pumps hp rfl))
  | received n bufLen replyTo payload iface hp hlen hs => exact ho.receive hi hiface hp hs
  | dropLocking n bufLen hp =>
      exact ho.quiet rfl rfl (active_put (active_of_pumps hp rfl))
  | dropReceiving n bufLen hp =>
      exact ho.quiet rfl rfl (active_put (active_of_pumps hp rfl))
  | iface l iface hs hnew => exact ho.onIface hi hiface hs hnew

theorem Ordered.init : Ordered ({} : Pumped types depth maxBody π) := by
  refine ⟨nofun, .slnil, ?_⟩
  intro n hn
  cases hn

theorem Ordered.of_meets {ls : List (PumpLabel π)}
    (h : (machine ask M maxWaiters).exec {} ls = some w)
    (hone : (machine ask M maxWaiters).Meets (fun w l ↦ w.oneAtATime l = true)
      ({} : Pumped types depth maxBody π) ls) : Ordered w := by
  have hkeep : ∀ (a : Pumped types depth maxBody π) l b,
      (Ordered a ∧ Inv a ∧ Interface.Inv M ask a.iface) → a.oneAtATime l = true →
      (machine ask M maxWaiters).step a l = some b →
      Ordered b ∧ Inv b ∧ Interface.Inv M ask b.iface := by
    rintro a l b ⟨ho, hi, hiface⟩ hG hs
    have hm := moves_of_step hs
    refine ⟨ho.moves hi hiface hG hm, hi.moves hm, ?_⟩
    cases hm with
    | called | locked | returned | dropLocking | dropReceiving => exact hiface
    | received n bufLen replyTo payload iface hp hlen hcall =>
        exact hiface.step (Interface.step_move hiface.standing hcall)
    | iface l iface hmove hnew => exact hiface.step (Interface.step_move hiface.standing hmove)
  exact (hone.invariant hkeep ⟨.init, .init, .init⟩ h).1

theorem Ordered.arrived_of_pushes (ho : Ordered w) {a b : Nat} (ha : a ∈ w.arrived)
    (hb : b ∈ w.arrived) (h : [a, b].Sublist w.iface.pushes) : [a, b].Sublist w.arrived := by
  have hfilter : [a, b].filter (· ∈ w.arrived) = [a, b] := by
    simp [ha, hb]
  have hsub := (h.filter (· ∈ w.arrived)).trans ho.order
  rwa [hfilter] at hsub

/-- **One pump at a time keeps the order.**  The bodies are put into the mailboxes in the order
in which their payloads have arrived, and calls that accept everything take the messages of an
id and a source in that order. -/
theorem pump_in_order (ask : π → Bytes → Bool × π) (M : Maplet types) (maxWaiters : Nat)
    (ls : List (PumpLabel π)) (w : Pumped types depth maxBody π)
    (h : (machine ask M maxWaiters).exec {} ls = some w)
    (hone : (machine ask M maxWaiters).Meets (fun w l ↦ w.oneAtATime l = true)
      ({} : Pumped types depth maxBody π) ls) :
    (w.iface.pushes.filter (· ∈ w.arrived)).Sublist w.arrived ∧
      ∀ m m' a b, [(m, a), (m', b)].Sublist w.iface.takes → a ∈ w.arrived → b ∈ w.arrived →
        ∀ c f, w.iface.call m = some c → c.filter = some f → f.AcceptsAll ask →
        ∀ ca cb, w.iface.call a = some ca → w.iface.call b = some cb → ca.id? = cb.id? →
          ca.source = cb.source → [a, b].Sublist w.arrived := by
  have ho := Ordered.of_meets h hone
  refine ⟨ho.order, ?_⟩
  intro m m' a b htakes ha hb c f hc hf hall ca cb hca hcb hid hsource
  have hiface := Interface.Inv.of_reachable ⟨_, exec_iface h⟩
  have horder := Interface.Ordered.of_reachable ⟨_, exec_iface h⟩
  exact ho.arrived_of_pushes ha hb
    (hiface.inOrder horder htakes hc hf hall hca hcb hid hsource)

/-- Two messages arrive one after the other and are taken; a third has an id nobody knows. -/
def pumpedRun : List (PumpLabel Bytes) :=
  [.iface (.call 9 (.recvNext 1 0xAA)), .call 0 8, .lock 0, .recv 0 (.deliveredOne 0xAA [1, 0, 0x31]),
    .iface (.act 0 .lock), .iface (.act 0 .notify), .call 1 8, .lock 1,
    .recv 1 (.deliveredOne 0xAA [1, 0, 0x32]), .iface (.act 1 .lock), .iface (.act 9 .lock),
    .iface (.act 1 .notify), .call 2 8, .lock 2, .recv 2 (.deliveredOne 0xAA [7, 0]),
    .iface (.call 8 (.recvNext 1 0xAA)), .iface (.act 8 .lock)]

theorem pump_guarantee_run : ∃ w : Pumped 2 2 4 Bytes,
    (machine Interface.exactly Interface.twoTypes 4).exec {} pumpedRun = some w ∧
      w.arrived = [0, 1, 2] ∧ w.iface.takes = [(9, 0), (8, 1)] ∧
      w.result 2 = some (.error (.ingest (.unknownId 7))) ∧
      Guarantee Interface.exactly Interface.twoTypes 4 pumpedRun w := by
  have hexec : (machine Interface.exactly Interface.twoTypes 4).exec ({} : Pumped 2 2 4 Bytes)
      pumpedRun = some { iface := _, holder := _, pumps := _, called := _, arrived := _ } := rfl
  exact ⟨_, hexec, by decide, by decide, by decide,
    pump_guarantee Interface.exactly Interface.twoTypes 4 pumpedRun _ hexec⟩

theorem pump_in_order_run : ∃ w : Pumped 2 2 4 Bytes,
    (machine Interface.exactly Interface.twoTypes 4).exec {} pumpedRun = some w ∧
      w.iface.pushes.filter (· ∈ w.arrived) = [0, 1] ∧
      (w.iface.pushes.filter (· ∈ w.arrived)).Sublist w.arrived := by
  have hexec : (machine Interface.exactly Interface.twoTypes 4).exec ({} : Pumped 2 2 4 Bytes)
      pumpedRun = some { iface := _, holder := _, pumps := _, called := _, arrived := _ } := rfl
  exact ⟨_, hexec, by decide,
    (pump_in_order Interface.exactly Interface.twoTypes 4 pumpedRun _ hexec (by decide)).1⟩

end Pumped

end Thincan.Bus

import Mathlib.Data.List.Forall2
import Thincan.Queue.Relay

/-!
# What is relayed, and what receive calls get of it

The receive half of both queues.  The events a loop enqueues are the receive outcomes of
the node, filtered and readdressed by the configuration (`relayed`), and between two
receives at most a burst of requests is sent: `Relays`.  `Inbox` is a loop with its event
queue and the receive calls on the endpoints.

A receive call that times out takes no event and is left out.  An event of the tokio queue
whose endpoints are all gone is dropped by `send_rx_event`; there is no call then that
could miss it.
-/

namespace Thincan.Queue

open Process

variable {E : Type} {maxPayload : Nat} {cfg : ActorConfig}

/-! ## Events and bursts -/

/-- The event a receive outcome is relayed as, if it is. -/
def relayed (cfg : ActorConfig) : RecvOutcome Bytes E → Option (RxEvent Bytes E)
  | .timedOut => none
  | .deliveredOne source payload =>
      if cfg.allowedReplyFrom = none ∨ cfg.allowedReplyFrom = some source then
        some (.delivered (cfg.fixedReplyTo.getD source) payload)
      else none
  | .bufferTooSmall needed got => some (.bufferTooSmall needed got)
  | .backend e => some (.backend e)

/-- What a loop relays; `waits` is the event it waits to enqueue. -/
structure Relays (cfg : ActorConfig) (t : List (Ask E × Answer E)) (waits : Option (RxEvent Bytes E)) :
    Prop where
  /-- The events are the receive outcomes, in order. -/
  events : enqueued t ++ waits.toList = (received t).filterMap (relayed cfg)
  /-- Where nothing is received, at most a burst is sent. -/
  burst : ∀ a b c, t = a ++ b ++ c → (∀ e ∈ b, e.1 ≠ .nodeRecv) →
    (sends b).length ≤ max 1 cfg.txBurstLimit

namespace Tokio

/-- What a step of the loop can be. -/
inductive LoopStep (cfg : ActorConfig) : ActorPc E → Event E → ActorPc E → Prop
  | polled (n : Nat) (q : Option Request) :
      LoopStep cfg (.polling n) (.poll, .polled q) (onPolled n q)
  | sent (n : Nat) (req : Request) (r : NodeResult E) :
      LoopStep cfg (.sending n req) (.nodeSend req, .sent r) (Tokio.burst cfg n)
  | received (o : RecvOutcome Bytes E) :
      LoopStep cfg .receiving (.nodeRecv, .received o) (onReceived cfg o)
  | enqueued (evt : RxEvent Bytes E) :
      LoopStep cfg (.enqueuing evt) (.enqueue evt, .enqueued) (Tokio.burst cfg 0)
  | yielded : LoopStep cfg .yielding (.yieldNow, .yielded) (Tokio.burst cfg 0)

theorem loopStep_of_fire {t t' : ActorPc E} {e : Event E}
    (h : (runActor cfg).fire t e.2 = some (e, t')) : LoopStep cfg t e t' := by
  obtain ⟨hq, -, hr⟩ := Coroutine.fire_eq_some.mp h
  obtain ⟨q, r⟩ := e
  cases t with
  | polling n =>
      obtain rfl := Option.some.inj hq
      cases r with
      | polled q =>
          obtain rfl := Option.some.inj hr
          exact .polled n q
      | sent | responded | received | enqueued | yielded => cases hr
  | sending n req =>
      obtain rfl := Option.some.inj hq
      cases r with
      | sent r =>
          obtain rfl := Option.some.inj hr
          exact .sent n req r
      | polled | responded | received | enqueued | yielded => cases hr
  | receiving =>
      obtain rfl := Option.some.inj hq
      cases r with
      | received o =>
          obtain rfl := Option.some.inj hr
          exact .received o
      | polled | sent | responded | enqueued | yielded => cases hr
  | enqueuing evt =>
      obtain rfl := Option.some.inj hq
      cases r with
      | enqueued =>
          obtain rfl := Option.some.inj hr
          exact .enqueued evt
      | polled | sent | responded | received | yielded => cases hr
  | yielding =>
      obtain rfl := Option.some.inj hq
      cases r with
      | yielded =>
          obtain rfl := Option.some.inj hr
          exact .yielded
      | polled | sent | responded | received | enqueued => cases hr

/-- The event that waits for room in the event queue. -/
def ActorPc.waits : ActorPc E → Option (RxEvent Bytes E)
  | .enqueuing evt => some evt
  | .polling _ | .sending _ _ | .receiving | .yielding => none

@[simp] theorem waits_burst (n : Nat) : (Tokio.burst cfg n : ActorPc E).waits = none := by
  unfold Tokio.burst
  split
  · rfl
  · rfl

@[simp] theorem waits_onPolled (n : Nat) (q : Option Request) :
    (onPolled n q : ActorPc E).waits = none := by
  cases q with
  | none | some => rfl

/-- After a receive, the loop waits to enqueue what is relayed. -/
theorem waits_onReceived (o : RecvOutcome Bytes E) : (onReceived cfg o).waits = relayed cfg o := by
  cases o with
  | timedOut | bufferTooSmall | backend => rfl
  | deliveredOne source payload =>
      simp only [onReceived, relayed]
      cases hallowed : cfg.allowedReplyFrom with
      | none => simp [ActorPc.waits]
      | some expected =>
          by_cases he : source = expected
          · subst he
            simp [ActorPc.waits]
          · have he' : ¬ expected = source := fun h ↦ he h.symm
            simp [he, he']

/-- The sends since the last receive. -/
def sinceRecv (t : List (Ask E × Answer E)) : Nat :=
  t.foldl (fun n e ↦ match e.1 with
    | .nodeRecv => 0
    | .nodeSend _ => n + 1
    | _ => n) 0

/-- How many sends there can have been since the last receive. -/
def ActorPc.Within (limit since : Nat) : ActorPc E → Prop
  | .polling n => since = n ∧ n < limit
  | .sending n _ => since + 1 = n ∧ n ≤ limit
  | .receiving => since ≤ limit
  | .enqueuing _ | .yielding => since = 0

theorem within_burst {n : Nat} (h : n ≤ cfg.normalizedTxBurstLimit) :
    (Tokio.burst cfg n : ActorPc E).Within cfg.normalizedTxBurstLimit n := by
  unfold Tokio.burst
  split
  · next hlt => exact ⟨rfl, hlt⟩
  · exact h

theorem within_onReceived (o : RecvOutcome Bytes E) :
    (onReceived cfg o).Within cfg.normalizedTxBurstLimit 0 := by
  cases o with
  | timedOut | bufferTooSmall | backend => rfl
  | deliveredOne source payload =>
      simp only [onReceived]
      split
      · exact within_burst (Nat.zero_le _)
      · rfl

theorem ActorPc.Within.le {limit since : Nat} {t : ActorPc E} (h : t.Within limit since) :
    since ≤ limit := by
  cases t with
  | polling n =>
      obtain ⟨rfl, hlt⟩ := h
      exact Nat.le_of_lt hlt
  | sending n req =>
      obtain ⟨rfl, hle⟩ := h
      exact Nat.le_of_succ_le hle
  | receiving => exact h
  | enqueuing | yielding =>
      obtain rfl : since = 0 := h
      exact Nat.zero_le _

theorem sinceRecv_snoc (t : List (Ask E × Answer E)) (q : Ask E) (r : Answer E) :
    sinceRecv (t ++ [(q, r)]) = match q with
      | .nodeRecv => 0
      | .nodeSend _ => sinceRecv t + 1
      | _ => sinceRecv t := by
  rw [sinceRecv, List.foldl_append]
  rfl

/-- The sends of a stretch without a receive. -/
theorem sinceRecv_append (a b : List (Ask E × Answer E)) (hb : ∀ e ∈ b, e.1 ≠ .nodeRecv) :
    sinceRecv (a ++ b) = sinceRecv a + (sends b).length := by
  induction b using List.reverseRecOn with
  | nil => simp [sends]
  | append_singleton b e ih =>
      obtain ⟨q, r⟩ := e
      have hlast : q ≠ .nodeRecv := hb (q, r) (List.mem_append_right _ (List.mem_singleton_self _))
      rw [← List.append_assoc, sinceRecv_snoc, ih fun e he ↦ hb e (List.mem_append_left _ he),
        sends_append, List.length_append]
      cases q with
      | nodeRecv => exact absurd rfl hlast
      | respond a => exact a.elim
      | poll | nodeSend | enqueue | yieldNow => rfl

/-- Events so far, and sends since the last receive. -/
structure Ledger (cfg : ActorConfig) (t : List (Ask E × Answer E)) (pc : ActorPc E) : Prop where
  events : enqueued t ++ pc.waits.toList = (received t).filterMap (relayed cfg)
  within : pc.Within cfg.normalizedTxBurstLimit (sinceRecv t)

/-- A step whose question and answer are seen as `q` and `r`. -/
theorem Ledger.snoc {t : List (Ask E × Answer E)} {pc pc' : ActorPc E} {q : Ask E} {r : Answer E}
    (hl : Ledger cfg t pc)
    (hevents : pc.waits.toList ++ (received [(q, r)]).filterMap (relayed cfg) =
      enqueued [(q, r)] ++ pc'.waits.toList)
    (hwithin : pc'.Within cfg.normalizedTxBurstLimit (sinceRecv (t ++ [(q, r)]))) :
    Ledger cfg (t ++ [(q, r)]) pc' where
  events := by
    rw [enqueued_append, received_append, List.filterMap_append, ← hl.events, List.append_assoc,
      List.append_assoc, hevents]
  within := hwithin

variable {h : List (Event E)} {t : ActorPc E}

theorem ledger_of_run (hr : (runActor cfg).Run (actorStart cfg) h t) : Ledger cfg (trace h) t := by
  induction hr with
  | nil =>
      refine ⟨?_, within_burst (Nat.zero_le _)⟩
      rw [actorStart, waits_burst]
      rfl
  | @snoc h pc pc' e hr hf ih =>
      rw [trace, Queue.trace_snoc, ← trace]
      cases loopStep_of_fire hf with
      | polled n q =>
          obtain ⟨hn, hlt⟩ := ih.within
          apply ih.snoc
          · rw [waits_onPolled]
            rfl
          · rw [sinceRecv_snoc]
            dsimp only
            rw [hn]
            cases q with
            | none => exact Nat.le_of_lt hlt
            | some req => exact ⟨rfl, hlt⟩
      | sent n req r =>
          obtain ⟨hn, hle⟩ := ih.within
          apply ih.snoc
          · rw [waits_burst]
            rfl
          · rw [sinceRecv_snoc]
            exact hn ▸ within_burst (hn ▸ hle)
      | received o =>
          apply ih.snoc
          · dsimp only [ActorResp.view]
            rw [waits_onReceived, RecvOutcome.view_id]
            cases hrel : relayed cfg o with
            | none => exact List.filterMap_cons_none hrel
            | some v => exact List.filterMap_cons_some hrel
          · rw [sinceRecv_snoc]
            exact within_onReceived o
      | enqueued evt =>
          have hzero : sinceRecv (trace h) = 0 := ih.within
          apply ih.snoc
          · rw [waits_burst, RxEvent.view_id]
            rfl
          · rw [sinceRecv_snoc]
            dsimp only
            rw [hzero]
            exact within_burst (Nat.zero_le _)
      | yielded =>
          have hzero : sinceRecv (trace h) = 0 := ih.within
          apply ih.snoc
          · rw [waits_burst]
            rfl
          · rw [sinceRecv_snoc]
            dsimp only
            rw [hzero]
            exact within_burst (Nat.zero_le _)

/-- What the tokio loop relays. -/
theorem relays_of_run (hr : (runActor cfg).Run (actorStart cfg) h t) :
    Relays cfg (trace h) t.waits := by
  refine ⟨(ledger_of_run hr).events, ?_⟩
  intro a b c hsplit hb
  obtain ⟨h₁, h₂, rfl, hab, -⟩ := List.filterMap_eq_append_iff.mp hsplit
  obtain ⟨t', hr'⟩ := hr.of_append
  have hle := (ledger_of_run hr').within.le
  rw [trace, Queue.trace, hab, sinceRecv_append a b hb] at hle
  rw [← cfg.normalizedTxBurstLimit_eq]
  exact Nat.le_trans (Nat.le_add_left ..) hle

end Tokio

namespace Embassy

/-- The event that waits for room in the event queue. -/
def ActorPc.waits : ActorPc maxPayload E → Option (RxEvent Bytes E)
  | .enqueuing evt => some (evt.view Buf.bytes)
  | .polling _ | .sending _ _ | .responding _ _ | .receiving | .yielding => none

/-- What the embassy loop relays. -/
theorem relays_of_run {h : List (Event maxPayload E)} {m : ActorPc maxPayload E}
    (hr : (runActor cfg).Run (actorStart cfg) h m) : Relays cfg (trace h) m.waits := by
  obtain ⟨h', t, hr', halike, htrace⟩ := exists_tokio_run hr
  have hwaits : t.waits = m.waits := by
    cases halike with
    | polling | sending | receiving | enqueuing | yielding => rfl
    | responding n rsp => exact Tokio.waits_burst n
  rw [← htrace, ← hwaits]
  exact Tokio.relays_of_run hr'

end Embassy

/-! ## Receive calls -/

/-- A receive call on an endpoint; `out` is the buffer it is given. -/
inductive RecvCall where
  | recvOne
  | recvOneInto (out : Bytes)

/-- What a receive call that takes an event results in. -/
inductive RecvResult (E : Type) where
  | /-- `on_payload` was called, in `recv_one`. -/
    handed (replyTo : UInt8) (payload : Bytes)
  | /-- `DeliveredOne` of `recv_one_into`, and the buffer after it. -/
    deliveredOne (replyTo : UInt8) (len : Nat) (out : Bytes)
  | bufferTooSmall (needed got : Nat)
  | transport (e : E)
deriving DecidableEq, Repr

/-- What a call makes of an event, in common terms: the bytes of the payload as they are,
and the event is gone also where they do not fit. -/
inductive Hands : RecvCall → RxEvent Bytes E → RecvResult E → Prop
  | one (source : UInt8) (payload : Bytes) :
      Hands .recvOne (.delivered source payload) (.handed source payload)
  | into (out : Bytes) (source : UInt8) (payload : Bytes) (hlen : payload.length ≤ out.length) :
      Hands (.recvOneInto out) (.delivered source payload)
        (.deliveredOne source payload.length (payload ++ out.drop payload.length))
  | small (out : Bytes) (source : UInt8) (payload : Bytes) (hlen : out.length < payload.length) :
      Hands (.recvOneInto out) (.delivered source payload)
        (.bufferTooSmall payload.length out.length)
  | bufferTooSmall (c : RecvCall) (needed got : Nat) :
      Hands c (.bufferTooSmall needed got) (.bufferTooSmall needed got)
  | backend (c : RecvCall) (e : E) : Hands c (.backend e) (.transport e)

namespace Tokio

/-- `recv_one_into`, once it has an event. -/
def recvOneInto (out : Bytes) : RxEvent Bytes E → RecvResult E
  | .delivered source payload =>
      if out.length < payload.length then .bufferTooSmall payload.length out.length
      else .deliveredOne source payload.length (payload ++ out.drop payload.length)
  | .bufferTooSmall needed got => .bufferTooSmall needed got
  | .backend e => .transport e

/-- `recv_one`, once it has an event. -/
def recvOne : RxEvent Bytes E → RecvResult E
  | .delivered source payload => .handed source payload
  | .bufferTooSmall needed got => .bufferTooSmall needed got
  | .backend e => .transport e

/-- A receive call, once it has an event. -/
def receive : RecvCall → RxEvent Bytes E → RecvResult E
  | .recvOne => recvOne
  | .recvOneInto out => recvOneInto out

theorem hands_receive (c : RecvCall) (v : RxEvent Bytes E) : Hands c v (receive c v) := by
  cases v with
  | bufferTooSmall needed got =>
      cases c with
      | recvOne | recvOneInto => exact .bufferTooSmall _ needed got
  | backend e =>
      cases c with
      | recvOne | recvOneInto => exact .backend _ e
  | delivered source payload =>
      cases c with
      | recvOne => exact .one source payload
      | recvOneInto out =>
          simp only [receive, recvOneInto]
          split
          · next hlen => exact .small out source payload hlen
          · next hlen => exact .into out source payload (Nat.le_of_not_lt hlen)

end Tokio

namespace Embassy

/-- `recv_one_into`, once it has an event. -/
def recvOneInto (out : Bytes) : RxEvent (Buf maxPayload) E → RecvResult E
  | .delivered source b =>
      if out.length < b.len then .bufferTooSmall b.len out.length
      else .deliveredOne source b.len (b.bytes ++ out.drop b.len)
  | .bufferTooSmall needed got => .bufferTooSmall needed got
  | .backend e => .transport e

/-- `recv_one`, which is `recv_one_into` with a buffer of its own. -/
def recvOne (v : RxEvent (Buf maxPayload) E) : RecvResult E :=
  match recvOneInto (List.replicate maxPayload 0) v with
  | .deliveredOne replyTo len tmp => .handed replyTo (tmp.take len)
  | r => r

/-- A receive call, once it has an event. -/
def receive : RecvCall → RxEvent (Buf maxPayload) E → RecvResult E
  | .recvOne => recvOne
  | .recvOneInto out => recvOneInto out

theorem hands_recvOneInto (out : Bytes) (v : RxEvent (Buf maxPayload) E) :
    Hands (.recvOneInto out) (v.view Buf.bytes) (recvOneInto out v) := by
  cases v with
  | bufferTooSmall needed got => exact .bufferTooSmall _ needed got
  | backend e => exact .backend _ e
  | delivered source b =>
      simp only [recvOneInto, RxEvent.view]
      rw [← b.length_bytes]
      split
      · next hlen => exact .small out source b.bytes hlen
      · next hlen => exact .into out source b.bytes (Nat.le_of_not_lt hlen)

theorem hands_receive (c : RecvCall) (v : RxEvent (Buf maxPayload) E) :
    Hands c (v.view Buf.bytes) (receive c v) := by
  cases c with
  | recvOneInto out => exact hands_recvOneInto out v
  | recvOne =>
      cases v with
      | bufferTooSmall needed got => exact .bufferTooSmall _ needed got
      | backend e => exact .backend _ e
      | delivered source b =>
          -- the buffer of `recv_one` has room for every payload
          have hroom : ¬ (List.replicate maxPayload (0 : UInt8)).length < b.len := by
            rw [List.length_replicate]
            exact Nat.not_lt.mpr b.fits
          have htake : (b.bytes ++ (List.replicate maxPayload 0).drop b.len).take b.len = b.bytes :=
            List.take_left' b.length_bytes
          simp only [receive, recvOne, recvOneInto, hroom, if_false, htake]
          exact .one source b.bytes

end Embassy

/-! ## The event queue -/

section Inbox

variable {σ Q A P : Type}

/-- A loop, its event queue, and the receive calls. -/
structure Inbox (σ Q A P E : Type) where
  actor : σ
  /-- What the loop has asked for and was answered. -/
  history : List (ActorReq Q A P E × ActorResp Q P E) := []
  /-- `rx_evt`. -/
  rxEvt : List (RxEvent P E) := []
  /-- The events the calls have taken, in order. -/
  taken : List (RxEvent P E) := []
  /-- Those calls and what they returned. -/
  returned : List (RecvCall × RecvResult E) := []

/-- What can happen. -/
inductive InboxLabel (Q P E : Type) where
  | /-- The loop is answered. -/
    act (r : ActorResp Q P E)
  | /-- A receive call takes an event and returns. -/
    recv (c : RecvCall)

/-- The event a step of a loop puts into the queue. -/
def pushed : ActorReq Q A P E → Option (RxEvent P E)
  | .enqueue v => some v
  | _ => none

/-- One move, for a loop `M` and receive calls `receive`. -/
def Inbox.step (M : Coroutine σ (ActorReq Q A P E) (ActorResp Q P E)) (depth : Nat)
    (receive : RecvCall → RxEvent P E → RecvResult E) (w : Inbox σ Q A P E) :
    InboxLabel Q P E → Option (Inbox σ Q A P E)
  | .act r =>
      (M.fire w.actor r).bind fun es ↦
        if (pushed es.1.1).isSome ∧ depth ≤ w.rxEvt.length then none
        else
          some { w with
            actor := es.2
            history := w.history ++ [es.1]
            rxEvt := w.rxEvt ++ (pushed es.1.1).toList }
  | .recv c =>
      match w.rxEvt with
      | v :: rest =>
          some { w with
            rxEvt := rest, taken := w.taken ++ [v], returned := w.returned ++ [(c, receive c v)] }
      | [] => none

/-- A loop with its event queue and receive calls, as a machine. -/
def Inbox.machine (M : Coroutine σ (ActorReq Q A P E) (ActorResp Q P E)) (depth : Nat)
    (receive : RecvCall → RxEvent P E → RecvResult E) :
    Machine (Inbox σ Q A P E) (InboxLabel Q P E) where
  step w l := w.step M depth receive l

/-- The receive calls have taken the events one each, in order, and returned what they
make of them. -/
structure Inbox.Consumed (f : Q → Send) (g : P → Bytes) (w : Inbox σ Q A P E) : Prop where
  inOrder : w.taken.map (RxEvent.view g) ++ w.rxEvt.map (RxEvent.view g) =
    enqueued (trace f g w.history)
  returned : List.Forall₂ (fun c v ↦ Hands c.1 (v.view g) c.2) w.returned w.taken

variable {M : Coroutine σ (ActorReq Q A P E) (ActorResp Q P E)} {s₀ : σ} {depth : Nat}
  {receive : RecvCall → RxEvent P E → RecvResult E} {f : Q → Send} {g : P → Bytes}
  {w : Inbox σ Q A P E}

theorem enqueued_viewEvent (e : ActorReq Q A P E × ActorResp Q P E) :
    enqueued (viewEvent f g e).toList = (pushed e.1).toList.map (RxEvent.view g) := by
  obtain ⟨q, r⟩ := e
  cases q with
  | poll | nodeSend | respond | nodeRecv | enqueue | yieldNow => rfl

theorem Inbox.consumed_of_reachable (hhands : ∀ c v, Hands c (v.view g) (receive c v))
    (hw : (machine M depth receive).Reachable { actor := s₀ } w) :
    M.Run s₀ w.history w.actor ∧ w.Consumed f g := by
  refine hw.invariant (I := fun w ↦ M.Run s₀ w.history w.actor ∧ w.Consumed f g)
    ⟨.nil, rfl, .nil⟩ ?_
  rintro a l b ⟨hrun, horder, hret⟩ hs
  cases l with
  | act r =>
      obtain ⟨⟨e, s'⟩, hf, hs⟩ := Option.bind_eq_some_iff.mp hs
      dsimp only at hs
      split at hs
      · cases hs
      · obtain rfl := Option.some.inj hs
        have he := (Coroutine.fire_eq_some.mp hf).2.1
        refine ⟨hrun.snoc (he ▸ hf), ?_, hret⟩
        dsimp only
        rw [List.map_append, ← List.append_assoc, horder, trace_snoc, enqueued_append,
          enqueued_viewEvent]
  | recv c =>
      simp only [machine, Inbox.step] at hs
      split at hs
      · next v rest hq =>
          obtain rfl := Option.some.inj hs
          refine ⟨hrun, ?_, ?_⟩
          · dsimp only
            rw [← horder, hq, List.map_append, List.append_assoc]
            rfl
          · exact List.rel_append hret (.cons (hhands c v) .nil)
      · cases hs

end Inbox

/-! ## Both queues -/

/-- The two queues implement one relay.  The answers to a loop, in common terms, are the
requests at its polls, the results of sends and the receive outcomes of the node. -/
structure OneRelay (E : Type) (cfg : ActorConfig) (maxPayload depth : Nat) : Prop where
  /-- With the same answers the loops ask for the same. -/
  agree : ∀ (h : List (Tokio.Event E)) (t : Tokio.ActorPc E) (h' : List (Embassy.Event maxPayload E))
      (m : Embassy.ActorPc maxPayload E),
    (Tokio.runActor cfg).Run (Tokio.actorStart cfg) h t →
    (Embassy.runActor cfg).Run (Embassy.actorStart cfg) h' m →
    (Tokio.trace h).map Prod.snd = (Embassy.trace h').map Prod.snd →
    sends (Tokio.trace h) = sends (Embassy.trace h') ∧
      enqueued (Tokio.trace h) = enqueued (Embassy.trace h')
  /-- What the tokio loop can be answered, with payloads that fit, the embassy loop can. -/
  forth : ∀ (h : List (Tokio.Event E)) (t : Tokio.ActorPc E),
    (Tokio.runActor cfg).Run (Tokio.actorStart cfg) h t → (∀ e ∈ h, e.2.Fits maxPayload) →
    ∃ (h' : List (Embassy.Event maxPayload E)) (m : Embassy.ActorPc maxPayload E),
      (Embassy.runActor cfg).Run (Embassy.actorStart cfg) h' m ∧ Embassy.trace h' = Tokio.trace h
  /-- What the embassy loop can be answered, the tokio loop can. -/
  back : ∀ (h' : List (Embassy.Event maxPayload E)) (m : Embassy.ActorPc maxPayload E),
    (Embassy.runActor cfg).Run (Embassy.actorStart cfg) h' m →
    ∃ (h : List (Tokio.Event E)) (t : Tokio.ActorPc E),
      (Tokio.runActor cfg).Run (Tokio.actorStart cfg) h t ∧ Tokio.trace h = Embassy.trace h'
  tokioRelays : ∀ (h : List (Tokio.Event E)) (t : Tokio.ActorPc E),
    (Tokio.runActor cfg).Run (Tokio.actorStart cfg) h t → Relays cfg (Tokio.trace h) t.waits
  embassyRelays : ∀ (h : List (Embassy.Event maxPayload E)) (m : Embassy.ActorPc maxPayload E),
    (Embassy.runActor cfg).Run (Embassy.actorStart cfg) h m → Relays cfg (Embassy.trace h) m.waits
  tokioConsumed : ∀ w, (Inbox.machine (Tokio.runActor (E := E) cfg) depth Tokio.receive).Reachable
      { actor := Tokio.actorStart cfg } w →
    (Tokio.runActor cfg).Run (Tokio.actorStart cfg) w.history w.actor ∧
      w.Consumed Tokio.Request.toSend id
  embassyConsumed : ∀ w : Inbox (Embassy.ActorPc maxPayload E) _ _ _ _,
    (Inbox.machine (Embassy.runActor cfg) depth Embassy.receive).Reachable
      { actor := Embassy.actorStart cfg } w →
    (Embassy.runActor cfg).Run (Embassy.actorStart cfg) w.history w.actor ∧
      w.Consumed Embassy.Request.send Embassy.Buf.bytes

/-- **One relay, written twice.** -/
theorem one_relay (E : Type) (cfg : ActorConfig) (maxPayload depth : Nat) :
    OneRelay E cfg maxPayload depth where
  agree h t h' m hr hr' hans := by
    obtain ⟨-, htrace⟩ := trace_eq_of_answers hr' hr hans
    rw [htrace]
    exact ⟨rfl, rfl⟩
  forth h t hr hfits := by
    obtain ⟨h', m, hr', -, htrace⟩ := exists_embassy_run hr hfits
    exact ⟨h', m, hr', htrace⟩
  back h' m hr' := by
    obtain ⟨h, t, hr, -, htrace⟩ := exists_tokio_run hr'
    exact ⟨h, t, hr, htrace⟩
  tokioRelays _ _ hr := Tokio.relays_of_run hr
  embassyRelays _ _ hr := Embassy.relays_of_run hr
  tokioConsumed w hw := by
    refine Inbox.consumed_of_reachable (fun c v ↦ ?_) hw
    rw [RxEvent.view_id]
    exact Tokio.hands_receive c v
  embassyConsumed w hw := Inbox.consumed_of_reachable Embassy.hands_receive hw

/-- A payload of another source is dropped, and the source of the other is replaced. -/
example : ((Tokio.runActor (E := Unit) ⟨0, 0, some 9, some 5⟩).exec (Tokio.actorStart ⟨0, 0, some 9, some 5⟩)
      [.polled none, .received (.deliveredOne 7 [1]), .polled none, .received (.deliveredOne 5 [2]),
        .enqueued]).map (fun r ↦ enqueued (Tokio.trace r.1)) = some [.delivered 9 [2]] := by
  rfl

end Thincan.Queue

import Thincan.Queue.Embassy
import Thincan.Queue.Tokio

/-!
# One relay, written twice

The loops of `tokio.rs` and `embassy.rs` ask for the same things in the same order.  The
requests of one hold a vector and a one-shot channel, those of the other a buffer with a
length; the second loop also waits to put a response into a channel.  `trace` is what is
left of a history when that is left out: payloads are bytes, and a response is not seen.

`Alike` relates the await points of the two loops, and a step of one is matched by a
step, or two, of the other.
-/

namespace Thincan.Queue

open Process

variable {E : Type} {Q A P : Type}

/-! ## Traces -/

/-- An event, with its payload as bytes. -/
def RxEvent.view (g : P → Bytes) : RxEvent P E → RxEvent Bytes E
  | .delivered source payload => .delivered source (g payload)
  | .bufferTooSmall needed got => .bufferTooSmall needed got
  | .backend e => .backend e

/-- A receive outcome, with its payload as bytes. -/
def RecvOutcome.view (g : P → Bytes) : RecvOutcome P E → RecvOutcome Bytes E
  | .timedOut => .timedOut
  | .deliveredOne replyTo payload => .deliveredOne replyTo (g payload)
  | .bufferTooSmall needed got => .bufferTooSmall needed got
  | .backend e => .backend e

/-- What both loops ask for. -/
abbrev Ask (E : Type) := ActorReq Send Empty Bytes E

/-- What both loops are answered. -/
abbrev Answer (E : Type) := ActorResp Send Bytes E

/-- What a loop asks for, in common terms; a response is not seen. -/
def ActorReq.view (f : Q → Send) (g : P → Bytes) : ActorReq Q A P E → Option (Ask E)
  | .poll => some .poll
  | .nodeSend q => some (.nodeSend (f q))
  | .respond _ => none
  | .nodeRecv => some .nodeRecv
  | .enqueue e => some (.enqueue (e.view g))
  | .yieldNow => some .yieldNow

/-- What it is answered, in common terms. -/
def ActorResp.view (f : Q → Send) (g : P → Bytes) : ActorResp Q P E → Answer E
  | .polled q => .polled (q.map f)
  | .sent r => .sent r
  | .responded => .responded
  | .received o => .received (o.view g)
  | .enqueued => .enqueued
  | .yielded => .yielded

/-- An event of a history, in common terms. -/
def viewEvent (f : Q → Send) (g : P → Bytes) (e : ActorReq Q A P E × ActorResp Q P E) :
    Option (Ask E × Answer E) :=
  (e.1.view f g).map (·, e.2.view f g)

/-- A history, in common terms. -/
def trace (f : Q → Send) (g : P → Bytes) (h : List (ActorReq Q A P E × ActorResp Q P E)) :
    List (Ask E × Answer E) :=
  h.filterMap (viewEvent f g)

/-- The operations on the node, in order. -/
def sends (t : List (Ask E × Answer E)) : List Send :=
  t.filterMap fun e ↦ match e.1 with
    | .nodeSend s => some s
    | _ => none

/-- The receive outcomes of the node, in order. -/
def received (t : List (Ask E × Answer E)) : List (RecvOutcome Bytes E) :=
  t.filterMap fun e ↦ match e.2 with
    | .received o => some o
    | _ => none

/-- The events put into the event queue, in order. -/
def enqueued (t : List (Ask E × Answer E)) : List (RxEvent Bytes E) :=
  t.filterMap fun e ↦ match e.1 with
    | .enqueue v => some v
    | _ => none

@[simp] theorem sends_append (t u : List (Ask E × Answer E)) : sends (t ++ u) = sends t ++ sends u :=
  List.filterMap_append ..

@[simp] theorem received_append (t u : List (Ask E × Answer E)) :
    received (t ++ u) = received t ++ received u :=
  List.filterMap_append ..

@[simp] theorem enqueued_append (t u : List (Ask E × Answer E)) :
    enqueued (t ++ u) = enqueued t ++ enqueued u :=
  List.filterMap_append ..

namespace Tokio

/-- An event in a history of the tokio loop. -/
abbrev Event (E : Type) := ActorReq Request (SendResult E) Bytes E × ActorResp Request Bytes E

/-- A history of the tokio loop, in common terms. -/
def trace (h : List (Event E)) : List (Ask E × Answer E) :=
  Queue.trace Request.toSend id h

end Tokio

namespace Embassy

variable {maxPayload : Nat}

/-- An event in a history of the embassy loop. -/
abbrev Event (maxPayload : Nat) (E : Type) :=
  ActorReq (Request maxPayload) (TxResponse E) (Buf maxPayload) E ×
    ActorResp (Request maxPayload) (Buf maxPayload) E

/-- A history of the embassy loop, in common terms. -/
def trace (h : List (Event maxPayload E)) : List (Ask E × Answer E) :=
  Queue.trace Request.send Buf.bytes h

end Embassy

/-! ## The two loops side by side -/

section Alike

variable {maxPayload : Nat} {cfg : ActorConfig}

/-- Await points of the two loops at which they do the same. -/
inductive Alike (cfg : ActorConfig) : Tokio.ActorPc E → Embassy.ActorPc maxPayload E → Prop
  | polling (n : Nat) : Alike cfg (.polling n) (.polling n)
  | sending (n : Nat) (req : Tokio.Request) (req' : Embassy.Request maxPayload)
      (h : req.toSend = req'.send) : Alike cfg (.sending n req) (.sending n req')
  | /-- The one-shot channel does not wait. -/
    responding (n : Nat) (rsp : Embassy.TxResponse E) :
      Alike cfg (Tokio.burst cfg n) (.responding n rsp)
  | receiving : Alike cfg .receiving .receiving
  | enqueuing (evt : RxEvent (Embassy.Buf maxPayload) E) :
      Alike cfg (.enqueuing (evt.view Embassy.Buf.bytes)) (.enqueuing evt)
  | yielding : Alike cfg .yielding .yielding

theorem alike_burst (n : Nat) :
    Alike cfg (Tokio.burst cfg n : Tokio.ActorPc E)
      (Embassy.burst cfg n : Embassy.ActorPc maxPayload E) := by
  unfold Tokio.burst Embassy.burst
  split
  · exact .polling n
  · exact .receiving

theorem alike_onReceived (o : RecvOutcome (Embassy.Buf maxPayload) E) :
    Alike cfg (Tokio.onReceived cfg (o.view Embassy.Buf.bytes)) (Embassy.onReceived cfg o) := by
  cases o with
  | timedOut => exact .yielding
  | bufferTooSmall needed got => exact .enqueuing (.bufferTooSmall needed got)
  | backend e => exact .enqueuing (.backend e)
  | deliveredOne replyTo rxBuf =>
      simp only [RecvOutcome.view, Tokio.onReceived, Embassy.onReceived]
      split
      · exact alike_burst 0
      · let evt : RxEvent (Embassy.Buf maxPayload) E :=
          .delivered (cfg.fixedReplyTo.getD replyTo)
            (.copyFromSlice rxBuf.bytes rxBuf.length_bytes_le)
        have hview : evt.view Embassy.Buf.bytes =
            .delivered (cfg.fixedReplyTo.getD replyTo) rxBuf.bytes := by
          simp only [evt, RxEvent.view, Embassy.Buf.bytes_copyFromSlice]
        exact hview ▸ Alike.enqueuing evt

/-- The same answer to both loops. -/
inductive SameAnswer : ActorResp Tokio.Request Bytes E →
    ActorResp (Embassy.Request maxPayload) (Embassy.Buf maxPayload) E → Prop
  | empty : SameAnswer (.polled none) (.polled none)
  | taken (req : Tokio.Request) (req' : Embassy.Request maxPayload) (h : req.toSend = req'.send) :
      SameAnswer (.polled (some req)) (.polled (some req'))
  | sent (r : NodeResult E) : SameAnswer (.sent r) (.sent r)
  | responded : SameAnswer .responded .responded
  | received (o : RecvOutcome (Embassy.Buf maxPayload) E) :
      SameAnswer (.received (o.view Embassy.Buf.bytes)) (.received o)
  | enqueued : SameAnswer .enqueued .enqueued
  | yielded : SameAnswer .yielded .yielded

/-- The embassy loop is not about to respond. -/
def Embassy.ActorPc.settled : Embassy.ActorPc maxPayload E → Bool
  | .responding _ _ => false
  | .polling _ | .sending _ _ | .receiving | .enqueuing _ | .yielding => true

variable {t : Tokio.ActorPc E} {m : Embassy.ActorPc maxPayload E} {r : ActorResp Tokio.Request Bytes E}
  {r' : ActorResp (Embassy.Request maxPayload) (Embassy.Buf maxPayload) E}

theorem RecvOutcome.view_id (o : RecvOutcome Bytes E) : o.view id = o := by
  cases o with
  | timedOut | deliveredOne | bufferTooSmall | backend => rfl

theorem RxEvent.view_id (v : RxEvent Bytes E) : v.view id = v := by
  cases v with
  | delivered | bufferTooSmall | backend => rfl

theorem SameAnswer.view_eq (h : SameAnswer r r') :
    r.view Tokio.Request.toSend id = r'.view Embassy.Request.send Embassy.Buf.bytes := by
  cases h with
  | empty | sent | responded | enqueued | yielded => rfl
  | taken req req' h => exact congrArg (fun s ↦ ActorResp.polled (some s)) h
  | received o => exact congrArg ActorResp.received (RecvOutcome.view_id _)

/-- At two such points the loops ask for the same. -/
theorem Alike.request (h : Alike cfg t m) (hm : m.settled = true) :
    ((Tokio.runActor cfg).request t).bind (ActorReq.view Tokio.Request.toSend id) =
      ((Embassy.runActor cfg).request m).bind
        (ActorReq.view Embassy.Request.send Embassy.Buf.bytes) := by
  cases h with
  | polling | receiving | yielding => rfl
  | sending n req req' h => exact congrArg (fun s ↦ some (ActorReq.nodeSend s)) h
  | responding => cases hm
  | enqueuing evt => exact congrArg (fun v ↦ some (ActorReq.enqueue v)) (RxEvent.view_id _)

/-- With the same answer they go to two such points again. -/
theorem Alike.resume (h : Alike cfg t m) (hm : m.settled = true) (hr : SameAnswer r r') :
    Option.Rel (Alike cfg) ((Tokio.runActor cfg).resume t r) ((Embassy.runActor cfg).resume m r') := by
  cases h with
  | polling n =>
      cases hr with
      | empty => exact .some .receiving
      | taken req req' h => exact .some (.sending (n + 1) req req' h)
      | sent | responded | received | enqueued | yielded => exact .none
  | sending n req req' h =>
      cases hr with
      | sent r =>
          obtain ⟨rsp, hrsp, -⟩ := Embassy.txResponse_mapped r
          simp only [Tokio.runActor, Embassy.runActor, hrsp, Option.map_some]
          exact .some (.responding n rsp)
      | empty | taken | responded | received | enqueued | yielded => exact .none
  | responding => cases hm
  | receiving =>
      cases hr with
      | received o => exact .some (alike_onReceived o)
      | empty | taken | sent | responded | enqueued | yielded => exact .none
  | enqueuing evt =>
      cases hr with
      | enqueued => exact .some (alike_burst 0)
      | empty | taken | sent | responded | received | yielded => exact .none
  | yielding =>
      cases hr with
      | yielded => exact .some (alike_burst 0)
      | empty | taken | sent | responded | received | enqueued => exact .none

/-- Payloads that fit. -/
def ActorResp.Fits (maxPayload : Nat) : ActorResp Tokio.Request Bytes E → Prop
  | .polled (some req) => req.payload.length ≤ maxPayload
  | .received (.deliveredOne _ payload) => payload.length ≤ maxPayload
  | _ => True

theorem exists_embassy_answer (h : r.Fits maxPayload) :
    ∃ r' : ActorResp (Embassy.Request maxPayload) (Embassy.Buf maxPayload) E, SameAnswer r r' := by
  cases r with
  | polled q =>
      cases q with
      | none => exact ⟨_, .empty⟩
      | some req => exact ⟨_, .taken req (Embassy.request req.toSend h) (Embassy.send_request ..).symm⟩
  | sent r => exact ⟨_, .sent r⟩
  | responded => exact ⟨_, .responded⟩
  | enqueued => exact ⟨_, .enqueued⟩
  | yielded => exact ⟨_, .yielded⟩
  | received o =>
      cases o with
      | timedOut => exact ⟨_, .received .timedOut⟩
      | bufferTooSmall needed got => exact ⟨_, .received (.bufferTooSmall needed got)⟩
      | backend e => exact ⟨_, .received (.backend e)⟩
      | deliveredOne replyTo payload =>
          have hlen : payload.length ≤ maxPayload := h
          have hsame := SameAnswer.received
            (.deliveredOne replyTo (Embassy.Buf.copyFromSlice payload hlen) : RecvOutcome _ E)
          rw [RecvOutcome.view, Embassy.Buf.bytes_copyFromSlice] at hsame
          exact ⟨_, hsame⟩

theorem exists_tokio_answer
    (r' : ActorResp (Embassy.Request maxPayload) (Embassy.Buf maxPayload) E) :
    ∃ r : ActorResp Tokio.Request Bytes E, SameAnswer r r' := by
  cases r' with
  | polled q =>
      cases q with
      | none => exact ⟨_, .empty⟩
      | some req => exact ⟨_, .taken ⟨req.send, 0⟩ req rfl⟩
  | sent r => exact ⟨_, .sent r⟩
  | responded => exact ⟨_, .responded⟩
  | received o => exact ⟨_, .received o⟩
  | enqueued => exact ⟨_, .enqueued⟩
  | yielded => exact ⟨_, .yielded⟩

theorem sameAnswer_of_view
    (h : r.view Tokio.Request.toSend id = r'.view Embassy.Request.send Embassy.Buf.bytes) :
    SameAnswer r r' := by
  cases r' with
  | polled q' =>
      cases r with
      | polled q =>
          cases q' with
          | none =>
              cases q with
              | none => exact .empty
              | some req => cases h
          | some req' =>
              cases q with
              | none => cases h
              | some req => exact .taken req req' (Option.some.inj (ActorResp.polled.inj h))
      | sent | responded | received | enqueued | yielded => cases h
  | sent =>
      cases r with
      | sent => cases h; exact .sent _
      | polled | responded | received | enqueued | yielded => cases h
  | responded =>
      cases r with
      | responded => exact .responded
      | polled | sent | received | enqueued | yielded => cases h
  | received o' =>
      cases r with
      | received o =>
          have ho : o.view id = o'.view Embassy.Buf.bytes := ActorResp.received.inj h
          rw [RecvOutcome.view_id] at ho
          exact ho ▸ .received o'
      | polled | sent | responded | enqueued | yielded => cases h
  | enqueued =>
      cases r with
      | enqueued => exact .enqueued
      | polled | sent | responded | received | yielded => cases h
  | yielded =>
      cases r with
      | yielded => exact .yielded
      | polled | sent | responded | received | enqueued => cases h

end Alike

/-! ## Runs of the two loops -/

section Runs

variable {maxPayload : Nat} {cfg : ActorConfig}
  {h : List (Tokio.Event E)} {h' : List (Embassy.Event maxPayload E)}
  {t : Tokio.ActorPc E} {m : Embassy.ActorPc maxPayload E}

theorem trace_snoc (f : Q → Send) (g : P → Bytes)
    (h : List (ActorReq Q A P E × ActorResp Q P E)) (e : ActorReq Q A P E × ActorResp Q P E) :
    trace f g (h ++ [e]) = trace f g h ++ (viewEvent f g e).toList := by
  rw [trace, List.filterMap_append]
  cases hv : viewEvent f g e with
  | none => simp [trace, hv]
  | some v => simp [trace, hv]

/-- Two histories that look the same, after events that do. -/
theorem trace_snoc_congr {e : Tokio.Event E} {e' : Embassy.Event maxPayload E}
    (htrace : Tokio.trace h = Embassy.trace h')
    (hview : viewEvent Tokio.Request.toSend id e =
      viewEvent Embassy.Request.send Embassy.Buf.bytes e') :
    Tokio.trace (h ++ [e]) = Embassy.trace (h' ++ [e']) := by
  rw [Tokio.trace, Embassy.trace, trace_snoc, trace_snoc, hview]
  exact congrArg (· ++ _) htrace

/-- A response is not seen. -/
theorem trace_snoc_of_none {e' : Embassy.Event maxPayload E}
    (hnone : viewEvent Embassy.Request.send Embassy.Buf.bytes e' = none) :
    Embassy.trace (h' ++ [e']) = Embassy.trace h' := by
  rw [Embassy.trace, trace_snoc, hnone]
  exact List.append_nil _

/-- The tokio loop never asks to respond. -/
theorem Tokio.view_request {q : ActorReq Tokio.Request (SendResult E) Bytes E}
    (hq : (Tokio.runActor cfg).request t = some q) :
    ∃ a, q.view Tokio.Request.toSend id = some a := by
  cases t with
  | polling | sending | receiving | enqueuing | yielding =>
      obtain rfl := Option.some.inj hq
      exact ⟨_, rfl⟩

/-- A step at which the embassy loop responds. -/
theorem Embassy.fire_unsettled {m' : Embassy.ActorPc maxPayload E}
    {e : Embassy.Event maxPayload E}
    (hm : m.settled = false) (hf : (Embassy.runActor cfg).fire m e.2 = some (e, m')) :
    ∃ n rsp, m = .responding n rsp ∧ m' = Embassy.burst cfg n ∧
      viewEvent Embassy.Request.send Embassy.Buf.bytes e = none := by
  obtain ⟨hq, -, hr⟩ := Coroutine.fire_eq_some.mp hf
  cases m with
  | polling | sending | receiving | enqueuing | yielding => cases hm
  | responding n rsp =>
      obtain ⟨q, r⟩ := e
      obtain rfl := Option.some.inj hq
      cases r with
      | responded => exact ⟨n, rsp, rfl, (Option.some.inj hr).symm, rfl⟩
      | polled | sent | received | enqueued | yielded => cases hr

/-- One event of each loop, at two points alike. -/
theorem Alike.fire {t' : Tokio.ActorPc E} {m' : Embassy.ActorPc maxPayload E}
    {q : ActorReq Tokio.Request (SendResult E) Bytes E} {r : ActorResp Tokio.Request Bytes E}
    {q' : ActorReq (Embassy.Request maxPayload) (Embassy.TxResponse E) (Embassy.Buf maxPayload) E}
    {r' : ActorResp (Embassy.Request maxPayload) (Embassy.Buf maxPayload) E}
    (h : Alike cfg t m) (hm : m.settled = true) (hr : SameAnswer r r')
    (hf : (Tokio.runActor cfg).fire t r = some ((q, r), t'))
    (hf' : (Embassy.runActor cfg).fire m r' = some ((q', r'), m')) :
    Alike cfg t' m' ∧ viewEvent Tokio.Request.toSend id (q, r) =
      viewEvent Embassy.Request.send Embassy.Buf.bytes (q', r') := by
  obtain ⟨hq, -, hres⟩ := Coroutine.fire_eq_some.mp hf
  obtain ⟨hq', -, hres'⟩ := Coroutine.fire_eq_some.mp hf'
  have hask := h.request hm
  have hrel := h.resume hm hr
  rw [hq, hq'] at hask
  rw [hres, hres'] at hrel
  cases hrel with
  | some halike =>
      refine ⟨halike, ?_⟩
      rw [viewEvent, viewEvent, hr.view_eq]
      exact congrArg (Option.map _) hask

/-- At a point of the embassy loop alike to one of the tokio loop, an answer to the tokio
loop is one to the embassy loop too. -/
theorem Alike.exists_embassy_fire {t' : Tokio.ActorPc E}
    {e : Tokio.Event E}
    {r' : ActorResp (Embassy.Request maxPayload) (Embassy.Buf maxPayload) E}
    (h : Alike cfg t m) (hm : m.settled = true) (hr : SameAnswer e.2 r')
    (hf : (Tokio.runActor cfg).fire t e.2 = some (e, t')) :
    ∃ q' m', (Embassy.runActor cfg).fire m r' = some ((q', r'), m') := by
  obtain ⟨hq, -, hres⟩ := Coroutine.fire_eq_some.mp hf
  have hrel := h.resume hm hr
  rw [hres] at hrel
  obtain ⟨q', hq'⟩ : ∃ q', (Embassy.runActor cfg).request m = some q' := by
    cases m with
    | polling | sending | responding | receiving | enqueuing | yielding => exact ⟨_, rfl⟩
  generalize hres' : (Embassy.runActor cfg).resume m r' = o at hrel
  cases hrel with
  | some => exact ⟨q', _, Coroutine.fire_eq_some.mpr ⟨hq', rfl, hres'⟩⟩

theorem Alike.exists_tokio_fire {m' : Embassy.ActorPc maxPayload E}
    {e : Embassy.Event maxPayload E}
    {r : ActorResp Tokio.Request Bytes E}
    (h : Alike cfg t m) (hm : m.settled = true) (hr : SameAnswer r e.2)
    (hf : (Embassy.runActor cfg).fire m e.2 = some (e, m')) :
    ∃ q t', (Tokio.runActor cfg).fire t r = some ((q, r), t') := by
  obtain ⟨hq, -, hres⟩ := Coroutine.fire_eq_some.mp hf
  have hrel := h.resume hm hr
  rw [hres] at hrel
  obtain ⟨q, hq⟩ : ∃ q, (Tokio.runActor cfg).request t = some q := by
    cases t with
    | polling | sending | receiving | enqueuing | yielding => exact ⟨_, rfl⟩
  generalize hres' : (Tokio.runActor cfg).resume t r = o at hrel
  cases hrel with
  | some => exact ⟨q, _, Coroutine.fire_eq_some.mpr ⟨hq, rfl, hres'⟩⟩

/-- A run of the embassy loop goes on until it does not wait to respond. -/
theorem exists_settled (hr : (Embassy.runActor cfg).Run (Embassy.actorStart cfg) h' m)
    (halike : Alike cfg t m) :
    ∃ (k : List (Embassy.Event maxPayload E)) (n : Embassy.ActorPc maxPayload E),
      (Embassy.runActor cfg).Run (Embassy.actorStart cfg) k n ∧ Alike cfg t n ∧
      n.settled = true ∧ Embassy.trace k = Embassy.trace h' := by
  cases hm : m.settled with
  | true => exact ⟨h', m, hr, halike, hm, rfl⟩
  | false =>
      cases halike with
      | polling | sending | receiving | enqueuing | yielding => cases hm
      | responding n rsp =>
          refine ⟨h' ++ [(.respond rsp, .responded)], _, hr.snoc rfl, alike_burst n, ?_, ?_⟩
          · unfold Embassy.burst
            split
            · rfl
            · rfl
          · exact trace_snoc_of_none rfl

/-- Every run of the tokio loop with payloads that fit is matched by one of the embassy
loop. -/
theorem exists_embassy_run (hr : (Tokio.runActor cfg).Run (Tokio.actorStart cfg) h t)
    (hfits : ∀ e ∈ h, e.2.Fits maxPayload) :
    ∃ (h' : List (Embassy.Event maxPayload E)) (m : Embassy.ActorPc maxPayload E),
      (Embassy.runActor cfg).Run (Embassy.actorStart cfg) h' m ∧ Alike cfg t m ∧
        Embassy.trace h' = Tokio.trace h := by
  induction hr with
  | nil => exact ⟨[], _, .nil, alike_burst 0, rfl⟩
  | @snoc h t t' e hr hf ih =>
      obtain ⟨h', m, hr', halike, htrace⟩ := ih fun e he ↦ hfits e (List.mem_append_left _ he)
      obtain ⟨k, n, hk, halike, hn, hsame⟩ := exists_settled hr' halike
      obtain ⟨r', hans⟩ := exists_embassy_answer
        (hfits e (List.mem_append_right _ (List.mem_singleton_self _)))
      obtain ⟨q', m', hf'⟩ := halike.exists_embassy_fire hn hans hf
      obtain ⟨halike', hview⟩ := halike.fire hn hans hf hf'
      refine ⟨k ++ [(q', r')], m', hk.snoc hf', halike', ?_⟩
      exact (trace_snoc_congr (hsame.trans htrace).symm hview).symm

/-- Every run of the embassy loop is matched by one of the tokio loop. -/
theorem exists_tokio_run (hr : (Embassy.runActor cfg).Run (Embassy.actorStart cfg) h' m) :
    ∃ h t, (Tokio.runActor cfg).Run (Tokio.actorStart cfg) h t ∧ Alike cfg t m ∧
      Tokio.trace h = Embassy.trace h' := by
  induction hr with
  | nil => exact ⟨[], _, .nil, alike_burst 0, rfl⟩
  | @snoc h' m m' e hr hf ih =>
      obtain ⟨h, t, hr', halike, htrace⟩ := ih
      cases hm : m.settled with
      | false =>
          obtain ⟨n, rsp, rfl, rfl, hnone⟩ := Embassy.fire_unsettled hm hf
          refine ⟨h, t, hr', ?_, ?_⟩
          · cases halike with
            | responding => exact alike_burst n
          · rw [trace_snoc_of_none hnone]
            exact htrace
      | true =>
          obtain ⟨r, hans⟩ := exists_tokio_answer e.2
          obtain ⟨q, t', hf'⟩ := halike.exists_tokio_fire hm hans hf
          obtain ⟨halike', hview⟩ := halike.fire hm hans hf' hf
          exact ⟨h ++ [(q, r)], t', hr'.snoc hf', halike', trace_snoc_congr htrace hview⟩

/-- The embassy loop asks for something that is seen, unless it waits to respond. -/
theorem Embassy.view_request (hm : m.settled = true)
    {q : ActorReq (Embassy.Request maxPayload) (Embassy.TxResponse E) (Embassy.Buf maxPayload) E}
    (hq : (Embassy.runActor cfg).request m = some q) :
    ∃ a, q.view Embassy.Request.send Embassy.Buf.bytes = some a := by
  cases m with
  | responding => cases hm
  | polling | sending | receiving | enqueuing | yielding =>
      obtain rfl := Option.some.inj hq
      exact ⟨_, rfl⟩

theorem Tokio.trace_snoc {t' : Tokio.ActorPc E} {e : Tokio.Event E}
    (hf : (Tokio.runActor cfg).fire t e.2 = some (e, t')) (h : List (Tokio.Event E)) :
    ∃ a, Tokio.trace (h ++ [e]) = Tokio.trace h ++ [(a, e.2.view Tokio.Request.toSend id)] := by
  obtain ⟨a, ha⟩ := Tokio.view_request (Coroutine.fire_eq_some.mp hf).1
  refine ⟨a, ?_⟩
  rw [Tokio.trace, Queue.trace_snoc, viewEvent, ha]
  rfl

/-- **The two loops are one**: with the same requests at the polls, the same results of sends
and the same receive outcomes, they ask the node for the same sends and enqueue the same
events. -/
theorem trace_eq_of_answers (hr' : (Embassy.runActor cfg).Run (Embassy.actorStart cfg) h' m)
    (hr : (Tokio.runActor cfg).Run (Tokio.actorStart cfg) h t)
    (hans : (Tokio.trace h).map Prod.snd = (Embassy.trace h').map Prod.snd) :
    Alike cfg t m ∧ Tokio.trace h = Embassy.trace h' := by
  induction hr' generalizing h t with
  | nil =>
      cases hr with
      | nil => exact ⟨alike_burst 0, rfl⟩
      | snoc hr hf =>
          obtain ⟨a, ha⟩ := Tokio.trace_snoc hf _
          rw [ha, List.map_append] at hans
          exact absurd hans (List.append_ne_nil_of_right_ne_nil _ (List.cons_ne_nil _ _))
  | @snoc h' m m' e' hr' hf' ih =>
      cases hm : m.settled with
      | false =>
          obtain ⟨n, rsp, rfl, rfl, hnone⟩ := Embassy.fire_unsettled hm hf'
          rw [trace_snoc_of_none hnone] at hans ⊢
          obtain ⟨halike, htrace⟩ := ih hr hans
          cases halike with
          | responding => exact ⟨alike_burst n, htrace⟩
      | true =>
          obtain ⟨a', ha'⟩ := Embassy.view_request hm (Coroutine.fire_eq_some.mp hf').1
          have hlast : Embassy.trace (h' ++ [e']) =
              Embassy.trace h' ++ [(a', e'.2.view Embassy.Request.send Embassy.Buf.bytes)] := by
            rw [Embassy.trace, trace_snoc, viewEvent, ha']
            rfl
          rw [hlast, List.map_append] at hans
          cases hr with
          | nil => exact absurd hans.symm (List.append_ne_nil_of_right_ne_nil _ (List.cons_ne_nil _ _))
          | @snoc h t t' e hr hf =>
              obtain ⟨a, ha⟩ := Tokio.trace_snoc hf h
              rw [ha, List.map_append] at hans
              obtain ⟨hbefore, hview⟩ := List.append_inj' hans rfl
              obtain ⟨halike, htrace⟩ := ih hr hbefore
              have hsame := sameAnswer_of_view (List.singleton_inj.mp hview)
              obtain ⟨halike', hevent⟩ := halike.fire hm hsame hf hf'
              exact ⟨halike', trace_snoc_congr htrace hevent⟩

end Runs

end Thincan.Queue

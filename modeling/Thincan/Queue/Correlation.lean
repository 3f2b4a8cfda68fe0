import Thincan.Queue.Embassy

/-!
# Calls and responses of the embassy queue

A response does not say which request it answers.  The lock lets one call at a time
wait for a response, and the loop before the request is sent discards the responses to
calls that were dropped, but only those that are there already.  A request whose call
was dropped and that the actor has not answered by the end of that loop is answered
later, into the hands of the call that has sent its own request behind it
(`answered_stale`).

If at the end of the loop no request is left (`Fresh`), the only response a call can
take is its own (`answered_of_fresh`).
-/

namespace Thincan.Queue.Embassy

open Process

variable {E : Type} {maxPayload : Nat} {cfg : ActorConfig} {reqDepth respDepth : Nat}
  {w w' : System maxPayload E}

/-- A call that returns anything but an error of the queue returns the result of an
operation performed for its own request. -/
def Answered (w : System maxPayload E) : Prop :=
  ∀ n s v, w.tasks n = some ⟨s, .returned v⟩ →
    v = s.tooLarge maxPayload ∨ ∃ r, (n, s, r) ∈ w.performed ∧ v = mapped r

/-- The actor is about no request. -/
def ActorPc.idle : ActorPc maxPayload E → Bool
  | .sending _ _ | .responding _ _ => false
  | .polling _ | .receiving | .enqueuing _ | .yielding => true

/-- When a call ends its loop over `tx_resp`, no request is in `tx_req`, on the node or
about to be answered. -/
def Fresh (w : System maxPayload E) : Label maxPayload E → Prop
  | .drain _ => w.txResp = [] → w.txReq = [] ∧ w.actor.idle = true
  | _ => True

/-! ## What a move can do -/

theorem idle_burst (n : Nat) : (burst cfg n : ActorPc maxPayload E).idle = true := by
  unfold burst
  split
  · rfl
  · rfl

theorem idle_onReceived (o : RecvOutcome (Buf maxPayload) E) :
    (onReceived cfg o).idle = true := by
  unfold onReceived
  cases o with
  | timedOut | bufferTooSmall | backend => rfl
  | deliveredOne replyTo rxBuf =>
      dsimp only
      split
      · exact idle_burst 0
      · rfl

/-- What a move can do. -/
inductive Turn (w : System maxPayload E) : Label maxPayload E → System maxPayload E → Prop
  | refused (n : Nat) (s : Send) (hn : w.tasks n = none) (hlen : maxPayload < s.payload.length) :
      Turn w (.call n s) (w.put n s (.returned (s.tooLarge maxPayload)))
  | call (n : Nat) (s : Send) (req : Request maxPayload) (hn : w.tasks n = none)
      (hreq : req.send = s) : Turn w (.call n s) (w.put n s (.locking req))
  | lock (n : Nat) (s : Send) (req : Request maxPayload)
      (ht : w.tasks n = some ⟨s, .locking req⟩) (hfree : w.locked = false) :
      Turn w (.lock n) { w.put n s (.draining req) with locked := true }
  | discard (n : Nat) (s : Send) (req : Request maxPayload) (a : Nat × TxResponse E)
      (rest : List (Nat × TxResponse E)) (ht : w.tasks n = some ⟨s, .draining req⟩)
      (hresp : w.txResp = a :: rest) : Turn w (.drain n) { w with txResp := rest }
  | drained (n : Nat) (s : Send) (req : Request maxPayload)
      (ht : w.tasks n = some ⟨s, .draining req⟩) (hresp : w.txResp = []) :
      Turn w (.drain n) (w.put n s (.queueing req))
  | push (n : Nat) (s : Send) (req : Request maxPayload)
      (ht : w.tasks n = some ⟨s, .queueing req⟩) :
      Turn w (.push n) { w.put n s .awaiting with txReq := w.txReq ++ [(n, req)] }
  | recv (n : Nat) (s : Send) (m : Nat) (rsp : TxResponse E) (rest : List (Nat × TxResponse E))
      (ht : w.tasks n = some ⟨s, .awaiting⟩) (hresp : w.txResp = (m, rsp) :: rest) :
      Turn w (.recv n)
        { w.put n s (.returned (mapTxResponse rsp)) with locked := false, txResp := rest }
  | leave (n : Nat) (s : Send) (req : Request maxPayload)
      (ht : w.tasks n = some ⟨s, .locking req⟩) : Turn w (.drop n) (w.put n s .dropped)
  | release (n : Nat) (s : Send) (pc : Pc maxPayload E) (ht : w.tasks n = some ⟨s, pc⟩)
      (hpc : pc.holds = true) : Turn w (.drop n) { w.put n s .dropped with locked := false }
  | idle (pc : ActorPc maxPayload E) (l : Label maxPayload E) (ha : w.actor.idle = true)
      (hpc : pc.idle = true) : Turn w l { w with actor := pc }
  | taken (k n : Nat) (req : Request maxPayload) (rest : List (Nat × Request maxPayload))
      (ha : w.actor.idle = true) (hreq : w.txReq = (n, req) :: rest) :
      Turn w .poll { w with actor := .sending k req, txReq := rest, about := n }
  | node (k : Nat) (req : Request maxPayload) (r : NodeResult E) (rsp : TxResponse E)
      (ha : w.actor = .sending k req) (hrsp : mapTxResponse rsp = mapped r) :
      Turn w (.node r)
        { w with actor := .responding k rsp
                 performed := w.performed ++ [(w.about, req.send, r)] }
  | respond (k : Nat) (rsp : TxResponse E) (pc : ActorPc maxPayload E)
      (ha : w.actor = .responding k rsp) (hpc : pc.idle = true) :
      Turn w .respond { w with actor := pc, txResp := w.txResp ++ [(w.about, rsp)] }

/-- The actor moves on with something that is neither a request, nor the end of a send,
nor that of a response. -/
theorem resume_other {pc pc' : ActorPc maxPayload E}
    {r : ActorResp (Request maxPayload) (Buf maxPayload) E} (hr : isOther r = true)
    (h : (runActor cfg).resume pc r = some pc') : pc.idle = true ∧ pc'.idle = true := by
  cases r with
  | polled | sent | responded => cases hr
  | received o =>
      cases pc with
      | receiving =>
          obtain rfl := Option.some.inj h
          exact ⟨rfl, idle_onReceived o⟩
      | polling | sending | responding | enqueuing | yielding => cases h
  | enqueued =>
      cases pc with
      | enqueuing evt =>
          obtain rfl := Option.some.inj h
          exact ⟨rfl, idle_burst 0⟩
      | polling | sending | responding | receiving | yielding => cases h
  | yielded =>
      cases pc with
      | yielding =>
          obtain rfl := Option.some.inj h
          exact ⟨rfl, idle_burst 0⟩
      | polling | sending | responding | receiving | enqueuing => cases h

theorem step_turn {l : Label maxPayload E} (h : w.step cfg reqDepth respDepth l = some w') :
    Turn w l w' := by
  cases l with
  | call n s =>
      simp only [System.step] at h
      split at h
      · cases h
      · next hn =>
          obtain rfl := Option.some.inj h
          have hnone := Option.not_isSome_iff_eq_none.mp hn
          unfold startSend
          split
          · next hlen => exact .refused n s hnone hlen
          · exact .call n s _ hnone (send_request ..)
  | lock n =>
      simp only [System.step] at h
      split at h
      · next s req ht =>
          split at h
          · cases h
          · next hfree =>
              obtain rfl := Option.some.inj h
              exact .lock n s req ht (Bool.eq_false_iff.mpr hfree)
      · cases h
  | drain n =>
      simp only [System.step] at h
      split at h
      · next s req ht =>
          split at h
          · next a rest hresp =>
              obtain rfl := Option.some.inj h
              exact .discard n s req a rest ht hresp
          · next hresp =>
              obtain rfl := Option.some.inj h
              exact .drained n s req ht hresp
      · cases h
  | push n =>
      simp only [System.step] at h
      split at h
      · next s req ht =>
          split at h
          · obtain rfl := Option.some.inj h
            exact .push n s req ht
          · cases h
      · cases h
  | recv n =>
      simp only [System.step] at h
      split at h
      · next s m rsp rest ht hresp =>
          obtain rfl := Option.some.inj h
          exact .recv n s m rsp rest ht hresp
      · cases h
  | drop n =>
      simp only [System.step] at h
      split at h
      · next s req ht =>
          obtain rfl := Option.some.inj h
          exact .leave n s req ht
      · next s req ht =>
          obtain rfl := Option.some.inj h
          exact .release n s _ ht rfl
      · next s ht =>
          obtain rfl := Option.some.inj h
          exact .release n s _ ht rfl
      · cases h
  | poll =>
      obtain ⟨pc, hpc, rfl⟩ := Option.map_eq_some_iff.mp h
      cases ha : w.actor with
      | sending | responding | receiving | enqueuing | yielding =>
          rw [ha] at hpc
          cases hpc
      | polling k =>
          rw [ha] at hpc
          obtain rfl := Option.some.inj hpc
          have hidle : w.actor.idle = true := by rw [ha]; rfl
          cases hreq : w.txReq with
          | nil => simpa [hreq, onPolled] using Turn.idle .receiving .poll hidle rfl
          | cons a rest => exact .taken (k + 1) a.1 a.2 rest hidle hreq
  | node r =>
      simp only [System.step] at h
      split at h
      · next k req ha =>
          obtain ⟨pc, hpc, rfl⟩ := Option.map_eq_some_iff.mp h
          obtain ⟨rsp, hrsp, hmap⟩ := txResponse_mapped r
          simp only [runActor, hrsp, Option.map_some, Option.some.injEq] at hpc
          obtain rfl := hpc
          exact .node k req r rsp ha hmap
      · cases h
  | respond =>
      simp only [System.step] at h
      split at h
      · next k rsp ha =>
          split at h
          · obtain ⟨pc, hpc, rfl⟩ := Option.map_eq_some_iff.mp h
            obtain rfl := Option.some.inj hpc
            exact .respond k rsp _ ha (idle_burst k)
          · cases h
      · cases h
  | actor r =>
      simp only [System.step] at h
      split at h
      · next hr =>
          obtain ⟨pc, hpc, rfl⟩ := Option.map_eq_some_iff.mp h
          obtain ⟨ha, hidle⟩ := resume_other hr hpc
          exact .idle pc _ ha hidle
      · cases h

/-! ## What the lock protects -/

/-- Nothing is in either channel or with the actor. -/
structure Quiet (w : System maxPayload E) : Prop where
  txReq : w.txReq = []
  actor : w.actor.idle = true
  txResp : w.txResp = []

/-- The one thing in the channels and with the actor is the request of call `n`, or the
response to it. -/
inductive Underway (w : System maxPayload E) (n : Nat) (s : Send) : Prop
  | queued (req : Request maxPayload) (hs : req.send = s) (hreq : w.txReq = [(n, req)])
      (ha : w.actor.idle = true) (hresp : w.txResp = [])
  | sending (k : Nat) (req : Request maxPayload) (hs : req.send = s) (hreq : w.txReq = [])
      (ha : w.actor = .sending k req) (habout : w.about = n) (hresp : w.txResp = [])
  | responding (k : Nat) (rsp : TxResponse E) (r : NodeResult E) (hr : (n, s, r) ∈ w.performed)
      (hrsp : mapTxResponse rsp = mapped r) (hreq : w.txReq = [])
      (ha : w.actor = .responding k rsp) (habout : w.about = n) (hresp : w.txResp = [])
  | answered (rsp : TxResponse E) (r : NodeResult E) (hr : (n, s, r) ∈ w.performed)
      (hrsp : mapTxResponse rsp = mapped r) (hreq : w.txReq = []) (ha : w.actor.idle = true)
      (hresp : w.txResp = [(n, rsp)])

/-- What holds where every loop over `tx_resp` has left nothing behind. -/
structure Inv (w : System maxPayload E) : Prop where
  locked : ∀ n t, w.tasks n = some t → t.pc.holds = true → w.locked = true
  one : ∀ m n t u, w.tasks m = some t → w.tasks n = some u → t.pc.holds = true →
    u.pc.holds = true → m = n
  unsent : ∀ n t req, w.tasks n = some t → t.pc.unsent = some req → req.send = t.args
  queueing : ∀ n s req, w.tasks n = some ⟨s, .queueing req⟩ → Quiet w
  awaiting : ∀ n s, w.tasks n = some ⟨s, .awaiting⟩ → Underway w n s
  answered : Answered w

theorem inv_start : Inv (start cfg : System maxPayload E) where
  locked _ _ h := by cases h
  one _ _ _ _ h := by cases h
  unsent _ _ _ h := by cases h
  queueing _ _ _ h := by cases h
  awaiting _ _ h := by cases h
  answered _ _ _ h := by cases h

section Put

variable {n : Nat} {s : Send} {pc : Pc maxPayload E}

/-- What stands at a name after a call has moved: the call, or what stood there. -/
theorem put_cases {m : Nat} {t : Task maxPayload E} (h : (w.put n s pc).tasks m = some t) :
    m = n ∧ t = ⟨s, pc⟩ ∨ m ≠ n ∧ w.tasks m = some t :=
  Machine.update_cases h

/-- A call that does not hold the lock moves, and does not get it. -/
theorem Inv.put (hw : Inv w) (hpc : pc.holds = false)
    (hunsent : ∀ req, pc.unsent = some req → req.send = s)
    (hret : ∀ v, pc = .returned v → v = s.tooLarge maxPayload) : Inv (w.put n s pc) where
  locked m t h hh := by
    rcases put_cases h with ⟨-, rfl⟩ | ⟨-, h⟩
    · rw [hpc] at hh
      cases hh
    · exact hw.locked m t h hh
  one m m' t u h h' hh hh' := by
    rcases put_cases h with ⟨-, rfl⟩ | ⟨-, h⟩
    · rw [hpc] at hh
      cases hh
    · rcases put_cases h' with ⟨-, rfl⟩ | ⟨-, h'⟩
      · rw [hpc] at hh'
        cases hh'
      · exact hw.one m m' t u h h' hh hh'
  unsent m t req h hreq := by
    rcases put_cases h with ⟨-, rfl⟩ | ⟨-, h⟩
    · exact hunsent req hreq
    · exact hw.unsent m t req h hreq
  queueing m s' req h := by
    rcases put_cases h with ⟨-, he⟩ | ⟨-, h⟩
    · obtain ⟨-, rfl⟩ := Task.mk.inj he
      cases hpc
    · obtain ⟨hreq, ha, hresp⟩ := hw.queueing m s' req h
      exact ⟨hreq, ha, hresp⟩
  awaiting m s' h := by
    rcases put_cases h with ⟨-, he⟩ | ⟨-, h⟩
    · obtain ⟨-, rfl⟩ := Task.mk.inj he
      cases hpc
    · cases hw.awaiting m s' h with
      | queued req hs hreq ha hresp => exact .queued req hs hreq ha hresp
      | sending k req hs hreq ha habout hresp => exact .sending k req hs hreq ha habout hresp
      | responding k rsp r hr hrsp hreq ha habout hresp =>
          exact .responding k rsp r hr hrsp hreq ha habout hresp
      | answered rsp r hr hrsp hreq ha hresp => exact .answered rsp r hr hrsp hreq ha hresp
  answered m s' v h := by
    rcases put_cases h with ⟨-, he⟩ | ⟨-, h⟩
    · obtain ⟨rfl, hv⟩ := Task.mk.inj he
      exact .inl (hret v hv.symm)
    · exact hw.answered m s' v h

/-- The call that holds the lock, or gets it, moves. -/
theorem Inv.move (hw : Inv w) (s : Send) (pc : Pc maxPayload E)
    (halone : ∀ m t, m ≠ n → w.tasks m = some t → t.pc.holds = false)
    (htasks : w'.tasks = (w.put n s pc).tasks) (hperf : w'.performed = w.performed)
    (hlocked : pc.holds = true → w'.locked = true)
    (hunsent : ∀ req, pc.unsent = some req → req.send = s)
    (hqueue : ∀ req, pc = .queueing req → Quiet w') (hawait : pc = .awaiting → Underway w' n s)
    (hret : ∀ v, pc = .returned v → ∃ r, (n, s, r) ∈ w.performed ∧ v = mapped r) : Inv w' where
  locked m t h hh := by
    rw [htasks] at h
    rcases put_cases h with ⟨-, rfl⟩ | ⟨hm, h⟩
    · exact hlocked hh
    · rw [halone m t hm h] at hh
      cases hh
  one m m' t u h h' hh hh' := by
    rw [htasks] at h h'
    rcases put_cases h with ⟨rfl, -⟩ | ⟨hm, h⟩
    · rcases put_cases h' with ⟨rfl, -⟩ | ⟨hm', h'⟩
      · rfl
      · rw [halone m' u hm' h'] at hh'
        cases hh'
    · rw [halone m t hm h] at hh
      cases hh
  unsent m t req h hreq := by
    rw [htasks] at h
    rcases put_cases h with ⟨-, rfl⟩ | ⟨-, h⟩
    · exact hunsent req hreq
    · exact hw.unsent m t req h hreq
  queueing m s' req h := by
    rw [htasks] at h
    rcases put_cases h with ⟨-, he⟩ | ⟨hm, h⟩
    · exact hqueue req (Task.mk.inj he).2.symm
    · cases halone m _ hm h
  awaiting m s' h := by
    rw [htasks] at h
    rcases put_cases h with ⟨rfl, he⟩ | ⟨hm, h⟩
    · obtain ⟨rfl, hpc⟩ := Task.mk.inj he
      exact hawait hpc.symm
    · cases halone m _ hm h
  answered m s' v h := by
    rw [htasks] at h
    rw [hperf]
    rcases put_cases h with ⟨rfl, he⟩ | ⟨-, h⟩
    · obtain ⟨rfl, hv⟩ := Task.mk.inj he
      exact .inr (hret v hv.symm)
    · exact hw.answered m s' v h

/-- Whoever holds the lock is alone in it. -/
theorem Inv.alone (hw : Inv w) (ht : w.tasks n = some ⟨s, pc⟩) (hpc : pc.holds = true) :
    ∀ m t, m ≠ n → w.tasks m = some t → t.pc.holds = false := by
  intro m t hm h
  by_contra hh
  exact hm (hw.one m n t _ h ht (eq_true_of_ne_false hh) hpc)

end Put

/-- The actor moves. -/
theorem Inv.act (hw : Inv w) (htasks : w'.tasks = w.tasks) (hlocked : w'.locked = w.locked)
    (hperf : w.performed ⊆ w'.performed) (hquiet : Quiet w → Quiet w')
    (hunder : ∀ n s, Underway w n s → Underway w' n s) : Inv w' where
  locked n t h := by
    rw [htasks] at h
    rw [hlocked]
    exact hw.locked n t h
  one m n t u h h' := by
    rw [htasks] at h h'
    exact hw.one m n t u h h'
  unsent n t req h := by
    rw [htasks] at h
    exact hw.unsent n t req h
  queueing n s req h := by
    rw [htasks] at h
    exact hquiet (hw.queueing n s req h)
  awaiting n s h := by
    rw [htasks] at h
    exact hunder n s (hw.awaiting n s h)
  answered n s v h := by
    rw [htasks] at h
    rcases hw.answered n s v h with hv | ⟨r, hr, hv⟩
    · exact .inl hv
    · exact .inr ⟨r, hperf hr, hv⟩

/-- The actor takes a request: it is that of the call that waits, if there is one. -/
theorem Underway.taken {n m k : Nat} {s : Send} {req : Request maxPayload}
    {rest : List (Nat × Request maxPayload)} (h : Underway w n s) (hreq : w.txReq = (m, req) :: rest) :
    Underway { w with actor := .sending k req, txReq := rest, about := m } n s := by
  cases h with
  | queued req' hs hreq' _ hresp =>
      rw [hreq', List.cons.injEq, Prod.mk.injEq] at hreq
      obtain ⟨⟨rfl, rfl⟩, rfl⟩ := hreq
      exact .sending k req' hs rfl rfl rfl hresp
  | sending _ _ _ hreq' | responding _ _ _ _ _ hreq' | answered _ _ _ _ hreq' =>
      rw [hreq'] at hreq
      cases hreq

/-- The node completes a send: it is that of the call that waits, if there is one. -/
theorem Underway.node {n k : Nat} {s : Send} {req : Request maxPayload} {r : NodeResult E}
    {rsp : TxResponse E} (h : Underway w n s) (ha : w.actor = .sending k req)
    (hrsp : mapTxResponse rsp = mapped r) :
    Underway { w with actor := .responding k rsp
                      performed := w.performed ++ [(w.about, req.send, r)] } n s := by
  cases h with
  | queued _ _ _ ha' | answered _ _ _ _ _ ha' =>
      rw [ha] at ha'
      cases ha'
  | sending k' req' hs hreq ha' habout hresp =>
      obtain ⟨rfl, rfl⟩ := ActorPc.sending.inj (ha'.symm.trans ha)
      refine .responding k' rsp r ?_ hrsp hreq rfl habout hresp
      rw [habout, hs]
      exact List.mem_append_right _ (List.mem_singleton_self _)
  | responding _ _ _ _ _ _ ha' =>
      rw [ha] at ha'
      cases ha'

/-- The actor responds: to the call that waits, if there is one. -/
theorem Underway.respond {n k : Nat} {s : Send} {rsp : TxResponse E} {pc : ActorPc maxPayload E}
    (h : Underway w n s) (ha : w.actor = .responding k rsp) (hpc : pc.idle = true) :
    Underway { w with actor := pc, txResp := w.txResp ++ [(w.about, rsp)] } n s := by
  cases h with
  | queued _ _ _ ha' | answered _ _ _ _ _ ha' =>
      rw [ha] at ha'
      cases ha'
  | sending _ _ _ _ ha' =>
      rw [ha] at ha'
      cases ha'
  | responding k' rsp' r hr hrsp hreq ha' habout hresp =>
      obtain ⟨rfl, rfl⟩ := ActorPc.responding.inj (ha'.symm.trans ha)
      refine .answered rsp' r hr hrsp hreq hpc ?_
      dsimp only
      rw [hresp, habout]
      rfl

theorem Inv.turn {l : Label maxPayload E} (hw : Inv w) (hfresh : Fresh w l) (h : Turn w l w') :
    Inv w' := by
  cases h with
  | refused n s hn hlen =>
      refine hw.put rfl (fun _ h ↦ by cases h) ?_
      intro v hv
      exact (Pc.returned.inj hv).symm
  | call n s req hn hreq =>
      refine hw.put rfl (fun req' h ↦ ?_) fun v hv ↦ by cases hv
      exact Option.some.inj h ▸ hreq
  | lock n s req ht hfree =>
      refine hw.move s _ (fun m t _ h ↦ ?_) rfl rfl (fun _ ↦ rfl) (fun req' h ↦ ?_) (fun _ h ↦ by cases h)
        (fun h ↦ by cases h) fun _ h ↦ by cases h
      · by_contra hh
        rw [hw.locked m t h (eq_true_of_ne_false hh)] at hfree
        cases hfree
      · exact Option.some.inj h ▸ hw.unsent n _ req ht rfl
  | discard n s req a rest ht hresp =>
      refine hw.move s (.draining req) (hw.alone ht rfl) ?_ rfl (fun _ ↦ hw.locked n _ ht rfl)
        (fun req' h ↦ ?_) (fun _ h ↦ by cases h) (fun h ↦ by cases h) fun _ h ↦ by cases h
      · exact (Function.update_eq_self_iff.mpr ht.symm).symm
      · exact Option.some.inj h ▸ hw.unsent n _ req ht rfl
  | drained n s req ht hresp =>
      refine hw.move s _ (hw.alone ht rfl) rfl rfl (fun _ ↦ hw.locked n _ ht rfl) (fun req' h ↦ ?_)
        (fun _ _ ↦ ?_) (fun h ↦ by cases h) fun _ h ↦ by cases h
      · exact Option.some.inj h ▸ hw.unsent n _ req ht rfl
      · obtain ⟨hreq, ha⟩ := hfresh hresp
        exact ⟨hreq, ha, hresp⟩
  | push n s req ht =>
      obtain ⟨hreq, ha, hresp⟩ := hw.queueing n s req ht
      refine hw.move s _ (hw.alone ht rfl) rfl rfl (fun _ ↦ hw.locked n _ ht rfl) (fun _ h ↦ by cases h)
        (fun _ h ↦ by cases h) (fun _ ↦ ?_) fun _ h ↦ by cases h
      refine .queued req (hw.unsent n _ req ht rfl) ?_ ha hresp
      dsimp only
      rw [hreq]
      rfl
  | recv n s m rsp rest ht hresp =>
      refine hw.move s _ (hw.alone ht rfl) rfl rfl (fun h ↦ by cases h) (fun _ h ↦ by cases h)
        (fun _ h ↦ by cases h) (fun h ↦ by cases h) ?_
      intro v hv
      obtain rfl := Pc.returned.inj hv
      cases hw.awaiting n s ht with
      | queued _ _ _ _ hresp' | sending _ _ _ _ _ _ hresp' | responding _ _ _ _ _ _ _ _ hresp' =>
          rw [hresp'] at hresp
          cases hresp
      | answered rsp' r hr hrsp _ _ hresp' =>
          rw [hresp', List.cons.injEq, Prod.mk.injEq] at hresp
          obtain ⟨⟨-, rfl⟩, -⟩ := hresp
          exact ⟨r, hr, hrsp⟩
  | leave n s req ht =>
      exact hw.put rfl (fun _ h ↦ by cases h) fun _ h ↦ by cases h
  | release n s pc ht hpc =>
      exact hw.move s _ (hw.alone ht hpc) rfl rfl (fun h ↦ by cases h) (fun _ h ↦ by cases h)
        (fun _ h ↦ by cases h) (fun h ↦ by cases h) fun _ h ↦ by cases h
  | idle pc l ha hpc =>
      refine hw.act rfl rfl (List.Subset.refl _) (fun hq ↦ ⟨hq.txReq, hpc, hq.txResp⟩) ?_
      intro n s hu
      cases hu with
      | queued req hs hreq _ hresp => exact .queued req hs hreq hpc hresp
      | sending _ _ _ _ ha' | responding _ _ _ _ _ _ ha' =>
          rw [ha'] at ha
          cases ha
      | answered rsp r hr hrsp hreq _ hresp => exact .answered rsp r hr hrsp hreq hpc hresp
  | taken k n req rest ha hreq =>
      refine hw.act rfl rfl (List.Subset.refl _) (fun hq ↦ ?_) fun _ _ hu ↦ hu.taken hreq
      rw [hq.txReq] at hreq
      cases hreq
  | node k req r rsp ha hrsp =>
      refine hw.act rfl rfl (List.subset_append_left ..) (fun hq ↦ ?_) fun _ _ hu ↦ hu.node ha hrsp
      have hidle := hq.actor
      rw [ha] at hidle
      cases hidle
  | respond k rsp pc ha hpc =>
      refine hw.act rfl rfl (List.Subset.refl _) (fun hq ↦ ?_) fun _ _ hu ↦ hu.respond ha hpc
      have hidle := hq.actor
      rw [ha] at hidle
      cases hidle

/-- **Calls and responses of the embassy queue**: in a run in which every loop over
`tx_resp` ends with no request left, every call that is answered is answered with the
result of its own request. -/
theorem answered_of_fresh (cfg : ActorConfig) (reqDepth respDepth : Nat)
    (ls : List (Label maxPayload E)) (w : System maxPayload E)
    (hfresh : (machine cfg reqDepth respDepth).Meets Fresh (start cfg) ls)
    (hexec : (machine cfg reqDepth respDepth).exec (start cfg) ls = some w) : Answered w :=
  (hfresh.invariant (fun _ _ _ ha hG hs ↦ ha.turn hG (step_turn hs)) inv_start hexec).answered

/-- A call is dropped once its request is queued.  It is answered before the second call looks,
which discards the response and then gets its own. -/
def freshRun : List (Label 2 Nat) :=
  [.call 0 ⟨1, false, 5, [10]⟩, .lock 0, .drain 0, .push 0, .drop 0, .poll, .node (.error .timeout),
    .respond, .call 1 ⟨2, true, 6, [20, 21]⟩, .lock 1, .drain 1, .drain 1, .push 1, .poll,
    .node (.ok ()), .respond, .recv 1]

theorem answered_of_fresh_turns : ∃ w : System 2 Nat,
    (machine {} 4 1).exec (start {}) freshRun = some w ∧ Answered w ∧
      w.tasks 0 = some ⟨⟨1, false, 5, [10]⟩, .dropped⟩ ∧
      w.tasks 1 = some ⟨⟨2, true, 6, [20, 21]⟩, .returned (.ok ())⟩ ∧
      w.performed =
        [(0, ⟨1, false, 5, [10]⟩, .error .timeout), (1, ⟨2, true, 6, [20, 21]⟩, .ok ())] := by
  have hexec : (machine {} 4 1).exec (start {}) freshRun =
      some { tasks := _, locked := _, txReq := _, txResp := _, actor := _, about := _,
             performed := _ } := rfl
  have hfresh : (machine {} 4 1).Meets Fresh (start {}) freshRun :=
    ⟨trivial, trivial, fun _ ↦ ⟨rfl, rfl⟩, trivial, trivial, trivial, trivial, trivial, trivial,
      trivial, fun h ↦ absurd h (List.cons_ne_nil _ _), fun _ ↦ ⟨rfl, rfl⟩, trivial, trivial, trivial,
      trivial, trivial, trivial⟩
  exact ⟨_, hexec, answered_of_fresh {} 4 1 freshRun _ hfresh hexec, rfl, rfl, rfl⟩

/-- The first call is dropped as before.  The second finds no response to discard, and takes the
one to the first. -/
def staleRun : List (Label 2 Nat) :=
  [.call 0 ⟨1, false, 5, [10]⟩, .lock 0, .drain 0, .push 0, .drop 0, .call 1 ⟨2, true, 6, [20, 21]⟩,
    .lock 1, .drain 1, .push 1, .poll, .node (.error .timeout), .respond, .recv 1, .poll, .node (.ok ())]

/-- The second call returns a timeout, which is what became of the first; its own request
is performed later, and succeeds. -/
theorem answered_stale : ∃ w : System 2 Nat,
    (machine {} 4 1).exec (start {}) staleRun = some w ∧
      w.tasks 1 = some ⟨⟨2, true, 6, [20, 21]⟩, .returned (.error .timeout)⟩ ∧
      w.performed =
        [(0, ⟨1, false, 5, [10]⟩, .error .timeout), (1, ⟨2, true, 6, [20, 21]⟩, .ok ())] ∧
      ¬ Answered w := by
  have hexec : (machine {} 4 1).exec (start {}) staleRun =
      some { tasks := _, locked := _, txReq := _, txResp := _, actor := _, about := _,
             performed := _ } := rfl
  refine ⟨_, hexec, rfl, rfl, ?_⟩
  intro h
  rcases h 1 ⟨2, true, 6, [20, 21]⟩ (.error .timeout) rfl with hv | ⟨r, hr, hv⟩
  · cases hv
  · have hok : r = .ok () := by
      rcases List.mem_cons.mp hr with he | he
      · cases he
      · cases List.mem_singleton.mp he
        rfl
    rw [hok] at hv
    cases hv

end Thincan.Queue.Embassy

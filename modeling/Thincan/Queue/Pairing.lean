import Mathlib.Data.List.Nodup
import Thincan.Queue.Tokio

/-!
# Calls and node operations of the tokio queue

Which call a node operation belongs to, and which operation the result of a call
speaks of.

The channel keeps the order of the requests, and the actor is about at most one, so
while the actor is there the requests that have entered are those performed, the one
it is about, and those in the channel (`Inv.alive`).  A one-shot channel belongs to
one call, so what a call takes out of its own is the result of its own request.
-/

namespace Thincan.Queue.Tokio

variable {E : Type} {cfg : ActorConfig} {maxPayload depth : Nat} {w w' : System E}

/-- Why call `n` with arguments `s` could return `v`. -/
inductive Settled (maxPayload : Nat) (w : System E) (n : Nat) (s : Send) (v : SendResult E) : Prop
  | refused (hv : v = s.tooLarge maxPayload) (hlen : maxPayload < s.payload.length)
      (hout : n ∉ w.entered.map Request.done)
  | closed (hv : v = channelClosed) (ha : w.actor = none) (hr : w.replies n = none)
  | answered (hr : w.replies n = some v)

/-- What a call was told stands, as long as its request does not enter late, an actor
that is gone stays away and an answer is not changed. -/
theorem Settled.mono {n : Nat} {s : Send} {v : SendResult E} (h : Settled maxPayload w n s v)
    (hentered : n ∈ w'.entered.map Request.done → n ∈ w.entered.map Request.done)
    (hgone : w.actor = none → w'.actor = none ∧ w'.replies n = w.replies n)
    (hreply : w.replies n = some v → w'.replies n = some v) : Settled maxPayload w' n s v := by
  cases h with
  | refused hv hlen hout => exact .refused hv hlen fun hmem ↦ hout (hentered hmem)
  | closed hv ha hr =>
      obtain ⟨ha', hr'⟩ := hgone ha
      exact .closed hv ha' (hr'.trans hr)
  | answered hr => exact .answered (hreply hr)

/-- What links calls, requests, operations on the node and one-shot channels. -/
structure Inv (maxPayload : Nat) (w : System E) : Prop where
  alive : w.actor.isSome = true →
    w.entered = w.begun ++ w.queue ∧
      w.begun = w.performed.map Prod.fst ++ (current w.actor).toList
  begun : w.begun <+: w.entered
  performed : w.performed.map Prod.fst <+: w.begun
  once : (w.entered.map Request.done).Nodup
  own : ∀ r ∈ w.entered, ∃ t, w.tasks r.done = some t ∧ r = t.request r.done ∧
    t.pc ≠ .queueing ∧ t.args.payload.length ≤ maxPayload
  fits : ∀ n s, w.tasks n = some ⟨s, .queueing⟩ → s.payload.length ≤ maxPayload
  awaiting : ∀ n s, w.tasks n = some ⟨s, .awaiting⟩ → n ∈ w.entered.map Request.done
  replied : ∀ n v, w.replies n = some v ↔ ∃ p ∈ w.performed, p.1.done = n ∧ v = mapped p.2
  returned : ∀ n s v, w.tasks n = some ⟨s, .returned v⟩ → Settled maxPayload w n s v

theorem inv_start : Inv maxPayload (start cfg : System E) where
  alive _ := by
    constructor
    · rfl
    · rw [start, actorStart, current_burst]
      rfl
  begun := List.prefix_rfl
  performed := List.prefix_rfl
  once := List.nodup_nil
  own _ hr := absurd hr List.not_mem_nil
  fits _ _ h := by cases h
  awaiting _ _ h := by cases h
  replied n v := by
    constructor
    · intro h
      cases h
    · rintro ⟨_, hp, -⟩
      exact absurd hp List.not_mem_nil
  returned _ _ _ h := by cases h

section Put

variable {n : Nat} {t : Task E} {pc : Pc E}

@[simp] theorem put_self : (w.put n t pc).tasks n = some { t with pc } :=
  Function.update_self ..

theorem put_of_ne {m : Nat} (h : m ≠ n) : (w.put n t pc).tasks m = w.tasks m :=
  Function.update_of_ne h ..

/-- What stands at a name after a call has moved: the call, or what stood there. -/
theorem put_cases {m : Nat} {t' : Task E} (h : (w.put n t pc).tasks m = some t') :
    m = n ∧ t' = { t with pc } ∨ m ≠ n ∧ w.tasks m = some t' :=
  Process.Machine.update_cases h

/-- A call moves and nothing else does. -/
theorem Inv.put (hw : Inv maxPayload w)
    (hown : n ∈ w.entered.map Request.done → ∃ pc', w.tasks n = some { t with pc := pc' })
    (hqueue : pc = .queueing → n ∉ w.entered.map Request.done ∧ t.args.payload.length ≤ maxPayload)
    (hawait : pc = .awaiting → n ∈ w.entered.map Request.done)
    (hret : ∀ v, pc = .returned v → Settled maxPayload w n t.args v) :
    Inv maxPayload (w.put n t pc) where
  alive := hw.alive
  begun := hw.begun
  performed := hw.performed
  once := hw.once
  own r hr := by
    obtain ⟨t', ht', hreq, hpc, hlen⟩ := hw.own r hr
    by_cases hn : r.done = n
    · have hmem : n ∈ w.entered.map Request.done := List.mem_map.mpr ⟨r, hr, hn⟩
      obtain ⟨pc', hold⟩ := hown hmem
      rw [hn, hold] at ht'
      obtain rfl := Option.some.inj ht'
      rw [hn] at hreq ⊢
      exact ⟨_, put_self, hreq, fun hq ↦ (hqueue hq).1 hmem, hlen⟩
    · exact ⟨t', (put_of_ne hn).trans ht', hreq, hpc, hlen⟩
  fits m s h := by
    rcases put_cases h with ⟨-, he⟩ | ⟨-, h⟩
    · obtain ⟨rfl, hq⟩ := Task.mk.inj he
      exact (hqueue hq.symm).2
    · exact hw.fits m s h
  awaiting m s h := by
    rcases put_cases h with ⟨rfl, he⟩ | ⟨-, h⟩
    · exact hawait (Task.mk.inj he).2.symm
    · exact hw.awaiting m s h
  replied := hw.replied
  returned m s v h := by
    rcases put_cases h with ⟨rfl, he⟩ | ⟨-, h⟩
    · obtain ⟨rfl, hv⟩ := Task.mk.inj he
      exact (hret v hv.symm).mono id (fun ha ↦ ⟨ha, rfl⟩) id
    · exact (hw.returned m s v h).mono id (fun ha ↦ ⟨ha, rfl⟩) id

end Put

/-- The request of a call enters the channel. -/
theorem Inv.enter (hw : Inv maxPayload w) {n : Nat} {s : Send} {pc : ActorPc E}
    (ht : w.tasks n = some ⟨s, .queueing⟩) (ha : w.actor = some pc) :
    Inv maxPayload { w.put n ⟨s, .queueing⟩ .awaiting with
      queue := w.queue ++ [⟨s, n⟩], entered := w.entered ++ [⟨s, n⟩] } := by
  have hnew : n ∉ w.entered.map Request.done := by
    intro hmem
    obtain ⟨r, hr, rfl⟩ := List.mem_map.mp hmem
    obtain ⟨t, ht', -, hpc, -⟩ := hw.own r hr
    rw [ht] at ht'
    exact hpc (congrArg Task.pc (Option.some.inj ht')).symm
  have hlast : n ∈ (w.entered ++ [(⟨s, n⟩ : Request)]).map Request.done :=
    List.mem_map.mpr ⟨_, List.mem_append_right _ (List.mem_singleton_self _), rfl⟩
  have halive := hw.alive (Option.isSome_of_eq_some ha)
  refine ⟨fun _ ↦ ⟨?_, halive.2⟩, hw.begun.trans (List.prefix_append ..), hw.performed, ?_, ?_, ?_, ?_,
    hw.replied, ?_⟩
  · dsimp only
    rw [halive.1, List.append_assoc]
    rfl
  · dsimp only
    rw [List.map_append, List.nodup_append]
    refine ⟨hw.once, List.nodup_singleton _, ?_⟩
    rintro a ha' b hb rfl
    obtain rfl : a = n := List.mem_singleton.mp hb
    exact hnew ha'
  · intro r hr
    rcases List.mem_append.mp hr with hr | hr
    · obtain ⟨t, ht', hreq, hpc, hlen⟩ := hw.own r hr
      have hne : r.done ≠ n := fun he ↦ hnew (he ▸ List.mem_map_of_mem hr)
      exact ⟨t, (put_of_ne hne).trans ht', hreq, hpc, hlen⟩
    · obtain rfl := List.mem_singleton.mp hr
      exact ⟨_, put_self, rfl, (fun h ↦ by cases h), hw.fits n s ht⟩
  · intro m s' h
    rcases put_cases h with ⟨-, he⟩ | ⟨-, h⟩
    · cases he
    · exact hw.fits m s' h
  · intro m s' h
    rcases put_cases h with ⟨rfl, -⟩ | ⟨-, h⟩
    · exact hlast
    · dsimp only
      rw [List.map_append]
      exact List.mem_append_left _ (hw.awaiting m s' h)
  · intro m s' v h
    rcases put_cases h with ⟨-, he⟩ | ⟨hm, h⟩
    · cases he
    · refine (hw.returned m s' v h).mono (fun hmem ↦ ?_) (fun hgone ↦ ?_) id
      · rw [List.map_append] at hmem
        exact (List.mem_append.mp hmem).resolve_right fun hn ↦ hm (List.mem_singleton.mp hn)
      · rw [ha] at hgone
        cases hgone

/-- What is performed has entered. -/
theorem Inv.entered_of_performed (hw : Inv maxPayload w) {p : Request × NodeResult E}
    (hp : p ∈ w.performed) : p.1 ∈ w.entered :=
  (hw.performed.trans hw.begun).subset (List.mem_map_of_mem hp)

/-- Of what the actor is about, nothing is performed. -/
theorem Inv.current_not_performed (hw : Inv maxPayload w) {k : Nat} {req : Request}
    (ha : w.actor = some (.sending k req)) : ∀ p ∈ w.performed, p.1.done ≠ req.done := by
  intro p hp he
  obtain ⟨hentered, hbegun⟩ := hw.alive (Option.isSome_of_eq_some ha)
  have hnodup := hw.once
  rw [hentered, hbegun, ha, List.map_append, List.map_append] at hnodup
  have hdisj := (List.nodup_append.mp (List.nodup_append.mp hnodup).1).2.2
  exact hdisj p.1.done (List.mem_map_of_mem (List.mem_map_of_mem hp)) req.done
    (List.mem_singleton_self _) he

/-- A one-shot channel that is resolved without an answer belongs to a call whose request
was dropped with the actor. -/
theorem Inv.gone_of_orphaned (hw : Inv maxPayload w) {n : Nat} (hr : w.replies n = none)
    (hmem : n ∈ w.entered.map Request.done)
    (hout : n ∉ (w.queue ++ (current w.actor).toList).map Request.done) : w.actor = none := by
  by_contra hne
  obtain ⟨hentered, hbegun⟩ := hw.alive (Option.isSome_iff_ne_none.mpr hne)
  obtain ⟨r, hrm, rfl⟩ := List.mem_map.mp hmem
  rw [hentered, hbegun, List.append_assoc] at hrm
  rcases List.mem_append.mp hrm with hdone | hrest
  · obtain ⟨p, hp, rfl⟩ := List.mem_map.mp hdone
    rw [(hw.replied p.1.done (mapped p.2)).mpr ⟨p, hp, rfl, rfl⟩] at hr
    cases hr
  · refine hout (List.mem_map_of_mem ?_)
    exact List.mem_append.mpr (List.mem_append.mp hrest).symm

/-- The node completes the send the actor is about. -/
theorem Inv.perform (hw : Inv maxPayload w) {k : Nat} {req : Request} {pc : ActorPc E}
    (r : NodeResult E) (ha : w.actor = some (.sending k req)) (hc : current (some pc) = none) :
    Inv maxPayload { w with
      actor := some pc
      replies := Function.update w.replies req.done (some (mapped r))
      performed := w.performed ++ [(req, r)] } := by
  have hnew := hw.current_not_performed ha
  obtain ⟨hentered, hbegun⟩ := hw.alive (Option.isSome_of_eq_some ha)
  have hbegun' : w.begun = (w.performed ++ [(req, r)]).map Prod.fst := by
    rw [hbegun, ha, List.map_append]
    rfl
  have hnone : w.replies req.done = none := by
    cases hreply : w.replies req.done with
    | none => rfl
    | some v =>
        obtain ⟨p, hp, he, -⟩ := (hw.replied _ v).mp hreply
        exact absurd he (hnew p hp)
  refine ⟨fun _ ↦ ⟨hentered, ?_⟩, hw.begun, ?_, hw.once, hw.own, hw.fits, hw.awaiting, ?_, ?_⟩
  · dsimp only
    rw [hc, hbegun', Option.toList_none, List.append_nil]
  · exact hbegun' ▸ List.prefix_rfl
  · intro n v
    dsimp only
    constructor
    · intro h
      rcases Process.Machine.update_cases h with ⟨rfl, rfl⟩ | ⟨-, h⟩
      · exact ⟨(req, r), List.mem_append_right _ (List.mem_singleton_self _), rfl, rfl⟩
      · obtain ⟨p, hp, he, hv⟩ := (hw.replied n v).mp h
        exact ⟨p, List.mem_append_left _ hp, he, hv⟩
    · rintro ⟨p, hp, rfl, rfl⟩
      rcases List.mem_append.mp hp with hp | hp
      · rw [Function.update_of_ne (hnew p hp)]
        exact (hw.replied _ _).mpr ⟨p, hp, rfl, rfl⟩
      · obtain rfl := List.mem_singleton.mp hp
        exact Function.update_self ..
  · intro n s v h
    refine (hw.returned n s v h).mono id (fun hgone ↦ ?_) fun hr ↦ ?_
    · rw [ha] at hgone
      cases hgone
    · have hn : n ≠ req.done := by
        rintro rfl
        rw [hnone] at hr
        cases hr
      exact (Function.update_of_ne hn ..).trans hr

/-- The actor moves on between two requests. -/
theorem Inv.between (hw : Inv maxPayload w) (pc : ActorPc E) (ha : w.actor.isSome = true)
    (hc : current w.actor = none) (hc' : current (some pc) = none) :
    Inv maxPayload { w with actor := some pc } where
  alive _ := by
    obtain ⟨hentered, hbegun⟩ := hw.alive ha
    rw [hc] at hbegun
    exact ⟨hentered, by rw [hc']; exact hbegun⟩
  begun := hw.begun
  performed := hw.performed
  once := hw.once
  own := hw.own
  fits := hw.fits
  awaiting := hw.awaiting
  replied := hw.replied
  returned n s v h := by
    refine (hw.returned n s v h).mono id (fun hgone ↦ ?_) id
    rw [hgone] at ha
    cases ha

/-- The actor takes a request. -/
theorem Inv.take (hw : Inv maxPayload w) (k : Nat) {req : Request} {rest : List Request}
    (ha : w.actor.isSome = true) (hc : current w.actor = none) (hq : w.queue = req :: rest) :
    Inv maxPayload
      { w with actor := some (.sending k req), queue := rest, begun := w.begun ++ [req] } where
  alive _ := by
    obtain ⟨hentered, hbegun⟩ := hw.alive ha
    rw [hc, Option.toList_none, List.append_nil] at hbegun
    constructor
    · rw [hentered, hq, List.append_assoc]
      rfl
    · rw [hbegun]
      rfl
  begun := by
    rw [(hw.alive ha).1, hq, List.append_cons]
    exact List.prefix_append ..
  performed := hw.performed.trans (List.prefix_append ..)
  once := hw.once
  own := hw.own
  fits := hw.fits
  awaiting := hw.awaiting
  replied := hw.replied
  returned n s v h := by
    refine (hw.returned n s v h).mono id (fun hgone ↦ ?_) id
    rw [hgone] at ha
    cases ha

/-- The actor is dropped. -/
theorem Inv.abort (hw : Inv maxPayload w) : Inv maxPayload { w with actor := none, queue := [] } where
  alive h := by cases h
  begun := hw.begun
  performed := hw.performed
  once := hw.once
  own := hw.own
  fits := hw.fits
  awaiting := hw.awaiting
  replied := hw.replied
  returned n s v h := (hw.returned n s v h).mono id (fun _ ↦ ⟨rfl, rfl⟩) id

theorem Inv.turn {l : Label E} (hw : Inv maxPayload w) (h : Turn maxPayload depth w l w') :
    Inv maxPayload w' := by
  cases h with
  | call n s hn =>
      have hout : n ∉ w.entered.map Request.done := by
        intro hmem
        obtain ⟨r, hr, rfl⟩ := List.mem_map.mp hmem
        obtain ⟨t, ht, -⟩ := hw.own r hr
        rw [hn] at ht
        cases ht
      unfold startSend
      split
      · next hlen =>
          refine hw.put (absurd · hout) (fun h ↦ by cases h) (fun h ↦ by cases h) ?_
          intro v hv
          obtain rfl := Pc.returned.inj hv
          exact .refused rfl hlen hout
      · next hlen =>
          exact hw.put (absurd · hout) (fun _ ↦ ⟨hout, Nat.le_of_not_lt hlen⟩) (fun h ↦ by cases h)
            fun v hv ↦ by cases hv
  | closed n s ht ha =>
      refine hw.put (fun _ ↦ ⟨_, ht⟩) (fun h ↦ by cases h) (fun h ↦ by cases h) ?_
      intro v hv
      obtain rfl := Pc.returned.inj hv
      refine .closed rfl ha ?_
      -- a call that waits for room has no request in the channel, so no answer either
      cases hreply : w.replies n with
      | none => rfl
      | some v =>
          obtain ⟨p, hp, rfl, -⟩ := (hw.replied n v).mp hreply
          obtain ⟨t, ht', -, hpc, -⟩ := hw.own p.1 (hw.entered_of_performed hp)
          rw [ht] at ht'
          exact absurd (congrArg Task.pc (Option.some.inj ht')).symm hpc
  | entered n s pc ht ha => exact hw.enter ht ha
  | answered n s r ht hr =>
      refine hw.put (fun _ ↦ ⟨_, ht⟩) (fun h ↦ by cases h) (fun h ↦ by cases h) ?_
      intro v hv
      obtain rfl := Pc.returned.inj hv
      exact .answered hr
  | orphaned n s ht hr hout =>
      refine hw.put (fun _ ↦ ⟨_, ht⟩) (fun h ↦ by cases h) (fun h ↦ by cases h) ?_
      intro v hv
      obtain rfl := Pc.returned.inj hv
      exact .closed rfl (hw.gone_of_orphaned hr (hw.awaiting n s ht) hout) hr
  | drop n t ht =>
      exact hw.put (fun _ ↦ ⟨_, ht⟩) (fun h ↦ by cases h) (fun h ↦ by cases h) fun v hv ↦ by cases hv
  | idle ha hc => exact hw.between _ ha hc rfl
  | taken k req rest ha hc hq => exact hw.take k ha hc hq
  | node k req r pc ha hc => exact hw.perform r ha hc
  | actor r pc ha hc hc' => exact hw.between pc ha hc hc'
  | abort => exact hw.abort

theorem inv_of_reachable (hw : (machine cfg maxPayload depth).Reachable (start cfg) w) :
    Inv maxPayload w :=
  hw.invariant inv_start fun _ _ _ ha hs ↦ ha.turn (step_turn hs)

/-- Requests and operations, calls and results. -/
structure Paired (maxPayload : Nat) (w : System E) : Prop where
  /-- Operations on the node are begun, and completed, in the order of the channel. -/
  inOrder : w.performed.map Prod.fst <+: w.begun ∧ w.begun <+: w.entered
  /-- While the actor is there, none is skipped. -/
  noneSkipped : w.actor.isSome = true →
    w.entered = w.performed.map Prod.fst ++ ((current w.actor).toList ++ w.queue)
  /-- A call has at most one request, so none is performed twice. -/
  once : (w.entered.map Request.done).Nodup
  /-- A request carries the arguments of its call. -/
  own : ∀ r ∈ w.entered, ∃ t, w.tasks r.done = some t ∧ r = { t.args with done := r.done }
  /-- A call whose request was performed returns the result of it. -/
  outcome : ∀ n s v, w.tasks n = some ⟨s, .returned v⟩ →
    ∀ p ∈ w.performed, p.1.done = n → v = mapped p.2
  /-- A call that returns anything but an error of the queue returns the result of its
  own request. -/
  origin : ∀ n s v, w.tasks n = some ⟨s, .returned v⟩ →
    v = s.tooLarge maxPayload ∨ v = channelClosed ∨
      ∃ p ∈ w.performed, p.1 = { s with done := n } ∧ v = mapped p.2
  /-- What is too large never reaches the node. -/
  fits : ∀ r ∈ w.begun, r.payload.length ≤ maxPayload
  closed : ∀ n s, w.tasks n = some ⟨s, .returned channelClosed⟩ → w.actor = none

theorem mapped_ne_channelClosed (r : NodeResult E) : mapped r ≠ channelClosed := by
  intro h
  unfold mapped channelClosed at h
  split at h
  · cases h
  · cases h
  · cases h

/-- **Calls and node operations of the tokio queue**, in every state that any run
reaches. -/
theorem paired_of_reachable (cfg : ActorConfig) (maxPayload depth : Nat) (w : System E)
    (hw : (machine cfg maxPayload depth).Reachable (start cfg) w) : Paired maxPayload w := by
  have hinv := inv_of_reachable hw
  refine ⟨⟨hinv.performed, hinv.begun⟩, ?_, hinv.once, ?_, ?_,
    ?_, ?_, ?_⟩
  · intro ha
    obtain ⟨hentered, hbegun⟩ := hinv.alive ha
    rw [hentered, hbegun, List.append_assoc]
  · intro r hr
    obtain ⟨t, ht, hreq, -⟩ := hinv.own r hr
    exact ⟨t, ht, hreq⟩
  · intro n s v h p hp he
    have hreply := (hinv.replied n (mapped p.2)).mpr ⟨p, hp, he, rfl⟩
    cases hinv.returned n s v h with
    | refused _ _ hout =>
        exact absurd (List.mem_map.mpr ⟨p.1, hinv.entered_of_performed hp, he⟩) hout
    | closed _ _ hr =>
        rw [hr] at hreply
        cases hreply
    | answered hr => exact Option.some.inj (hr.symm.trans hreply)
  · intro n s v h
    cases hinv.returned n s v h with
    | refused hv => exact .inl hv
    | closed hv => exact .inr (.inl hv)
    | answered hr =>
        obtain ⟨p, hp, rfl, hv⟩ := (hinv.replied n v).mp hr
        obtain ⟨t, ht, hreq, -⟩ := hinv.own p.1 (hinv.entered_of_performed hp)
        rw [h] at ht
        obtain rfl := Option.some.inj ht
        exact .inr (.inr ⟨p, hp, hreq, hv⟩)
  · intro r hr
    obtain ⟨t, -, hreq, -, hlen⟩ := hinv.own r (hinv.begun.subset hr)
    rw [hreq]
    exact hlen
  · intro n s h
    cases hinv.returned n s _ h with
    | refused hv =>
        unfold channelClosed Send.tooLarge at hv
        cases hv
    | closed _ ha => exact ha
    | answered hr =>
        obtain ⟨p, -, -, hv⟩ := (hinv.replied n _).mp hr
        exact absurd hv.symm (mapped_ne_channelClosed p.2)

/-- A call is dropped after its request has entered, a second one is answered, a third
one is too large, and a fourth one loses the actor. -/
def cancelledRun : List (Label Nat) :=
  [.call 0 ⟨1, false, 5, [10]⟩, .call 1 ⟨2, true, 6, [20, 21]⟩, .push 0, .push 1, .drop 0, .poll,
    .node (.error (.backend 7)), .poll, .node (.ok ()), .wake 1, .call 2 ⟨3, false, 0, [1, 2, 3]⟩,
    .call 3 ⟨4, false, 0, []⟩, .push 3, .abort, .wake 3]

/-- Both requests are performed, and each call returns what is its own. -/
theorem paired_of_reachable_cancelled : ∃ w : System Nat,
    (machine {} 2 2).exec (start {}) cancelledRun = some w ∧ Paired 2 w ∧
      w.performed.map (·.1.done) = [0, 1] ∧
      w.tasks 1 = some ⟨⟨2, true, 6, [20, 21]⟩, .returned (.ok ())⟩ ∧
      w.tasks 3 = some ⟨⟨4, false, 0, []⟩, .returned channelClosed⟩ := by
  have hexec : (machine {} 2 2).exec (start {}) cancelledRun =
      some { tasks := _, queue := _, actor := _, replies := _, entered := _, begun := _,
             performed := _ } := rfl
  exact ⟨_, hexec, paired_of_reachable {} 2 2 _ ⟨cancelledRun, hexec⟩, rfl, rfl, rfl⟩

end Thincan.Queue.Tokio

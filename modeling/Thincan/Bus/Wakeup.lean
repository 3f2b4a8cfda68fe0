import Mathlib.Data.Finset.Card
import Thincan.Bus.Delivery

/-!
# No lost wake-up

A receive call checks the mailbox under the lock, releases the lock and then
waits in `changed`.  A message pushed in between is not missed: `ingest` has still
to notify, and the version this receiver has seen is older than the one the
notification makes.  `Awake` states this for every state, under predicates without
state, which `pureAsk` makes of a function; `Run.Fair.wakes` draws the conclusion
for infinite runs.

The receivers of a `Watch` are counted by `Port.receivers`, which is the number of
receive calls that have not ended (`Counted`).
-/

namespace Thincan.Bus

open Process

variable {types depth maxBody maxWaiters : Nat} {π : Type} {M : Maplet types}
  {ask : π → Bytes → Bool × π}

/-! ## Predicates without state -/

/-- A predicate that answers the same whenever it is asked. -/
def pureAsk (accepts : π → Bytes → Bool) (p : π) (body : Bytes) : Bool × π := (accepts p body, p)

/-- What a receive call accepts. -/
def Filter.accepts (accepts : π → Bytes → Bool) : Filter π → Bytes → Bool
  | .all, _ => true
  | .only p, body => accepts p body

variable {accepts : π → Bytes → Bool}

theorem Filter.ask_pureAsk (f : Filter π) (body : Bytes) :
    Filter.ask (pureAsk accepts) f body = (f.accepts accepts body, f) := by
  cases f with
  | all | only => rfl

theorem askFrom_pureAsk_snd (source : UInt8) (f : Filter π) (e : Entry) :
    (TypeMailbox.askFrom (Filter.ask (pureAsk accepts)) source f e).2 = f := by
  rw [TypeMailbox.askFrom]
  split
  · rw [Filter.ask_pureAsk]
  · rfl

/-- A search with a predicate without state leaves it as it was. -/
theorem search_pureAsk_snd (source : UInt8) (es : List Entry) (f : Filter π) :
    (search (TypeMailbox.askFrom (Filter.ask (pureAsk accepts)) source) es f).2 = f := by
  induction es with
  | nil => rfl
  | cons e es ih =>
      rw [search, askFrom_pureAsk_snd]
      split
      · rfl
      · exact ih

/-- A search that finds nothing has seen no message of its source that it
accepts. -/
theorem not_accepts_of_search {source : UInt8} {es : List Entry} {f : Filter π}
    (h : (search (TypeMailbox.askFrom (Filter.ask (pureAsk accepts)) source) es f).1 = none)
    {e : Entry} (he : e ∈ es) (hsource : e.source = source) : f.accepts accepts e.body = false := by
  induction es with
  | nil => exact absurd he List.not_mem_nil
  | cons e' es ih =>
      rw [search] at h
      split at h
      · cases h
      · next hno =>
          rw [askFrom_pureAsk_snd, Option.map_eq_none_iff] at h
          rcases List.mem_cons.mp he with rfl | he
          · rw [TypeMailbox.askFrom, if_pos hsource, Filter.ask_pureAsk] at hno
            exact Bool.eq_false_iff.mpr hno
          · exact ih h he

/-! ## What an action does to its port -/

/-- The call will still notify. -/
def Pc.notifies : Pc types maxBody π → Bool
  | .notifying _ _ => true
  | _ => false

/-- The receive call has not ended: it holds a receiver of its `Watch`. -/
def Pc.live : Pc types maxBody π → Bool
  | .popping _ _ _ _ | .waiting _ _ _ _ => true
  | _ => false

/-- The version a receive call has seen. -/
def Pc.seen : Pc types maxBody π → Nat
  | .popping _ _ _ seen | .waiting _ _ _ seen => seen
  | _ => 0

/-- The books of an action: the notification makes a new version, the end of a
receive call gives its receiver back, and what was seen is no newer than the
version. -/
structure Books (pc pc' : Pc types maxBody π) (port port' : Port depth maxBody) : Prop where
  version : port'.version = if pc.notifies then port.version + 1 else port.version
  receivers : port'.receivers = if pc.live && !pc'.live then port.receivers - 1 else port.receivers
  live : pc'.live = true → pc.live = true
  seen : pc'.seen ≤ max pc.seen port.version
  slot : ∀ k, pc'.slot = some k → pc.slot = some k

variable {c : Call π} {a : Action} {pc pc' : Pc types maxBody π} {port port' : Port depth maxBody}
  {e : Effect} {source : UInt8}

/-- A receive call that goes on stays at its slot. -/
theorem Books.slot_of_live (h : Books pc pc' port port') {k : Fin types} (hk : pc.slot = some k)
    (hlive : pc'.live = true) : pc'.slot = some k := by
  cases hpc : pc' with
  | popping k' | waiting k' =>
      have hk' := h.slot k' (by rw [hpc]; rfl)
      rw [← hk, hk']
      rfl
  | pushing | notifying | ingested | received | dropped =>
      rw [hpc] at hlive
      cases hlive

theorem books_onPushLock {slot : Fin types} {raw : RawMessage}
    (h : onPushLock source slot raw port = (pc', port', e)) :
    Books (.pushing slot raw) pc' port port' := by
  unfold onPushLock at h
  split at h
  · obtain ⟨rfl, rfl, rfl⟩ := h
    exact ⟨rfl, rfl, nofun, Nat.zero_le _, nofun⟩
  · obtain ⟨rfl, rfl, rfl⟩ := h
    exact ⟨rfl, rfl, nofun, Nat.zero_le _, fun k hk ↦ hk⟩

theorem books_onPopLock {slot : Fin types} {id : UInt16} {f : Filter π} {seen : Nat}
    (h : onPopLock ask source slot id f seen port = (pc', port', e)) :
    Books (.popping slot id f seen) pc' port port' := by
  unfold onPopLock at h
  split at h
  · obtain ⟨rfl, rfl, rfl⟩ := h
    exact ⟨rfl, rfl, fun _ ↦ rfl, Nat.le_max_left _ _, fun k hk ↦ hk⟩
  · obtain ⟨rfl, rfl, rfl⟩ := h
    exact ⟨rfl, rfl, nofun, Nat.zero_le _, nofun⟩

/-- The books of any action. -/
theorem Pc.act_books (h : pc.act ask source a port = some (pc', port', e)) :
    Books pc pc' port port' := by
  cases Pc.acts_of_act h with
  | push _ _ _ _ _ hlock => exact books_onPushLock hlock
  | pop _ _ _ _ _ _ _ hlock => exact books_onPopLock hlock
  | notify | dropPushing | dropPopping | dropWaiting =>
      exact ⟨rfl, rfl, nofun, Nat.zero_le _, nofun⟩
  | wake => exact ⟨rfl, rfl, fun _ ↦ rfl, Nat.le_max_right _ _, fun k hk ↦ hk⟩

/-- A call starts to wait after it has searched the mailbox in vain. -/
theorem Pc.act_waiting {k : Fin types} {id : UInt16} {f : Filter π} {seen : Nat}
    (h : pc.act (pureAsk accepts) source a port = some (.waiting k id f seen, port', e)) :
    port'.box = port.box ∧
      ∀ e ∈ port.box.entries, e.source = source → f.accepts accepts e.body = false := by
  cases Pc.acts_of_act h with
  | push slot raw _ _ _ hlock =>
      unfold onPushLock at hlock
      split at hlock <;> cases hlock
  | pop slot id' f' seen' _ _ _ hlock =>
      unfold onPopLock at hlock
      cases hs : (search (TypeMailbox.askFrom (Filter.ask (pureAsk accepts)) source)
          port.box.entries f').1 with
      | none =>
          rw [Mailbox.pop_none hs, search_pureAsk_snd] at hlock
          obtain ⟨⟨rfl, rfl, rfl, rfl⟩, rfl, rfl⟩ := hlock
          exact ⟨rfl, fun e he hsource ↦ not_accepts_of_search hs he hsource⟩
      | some i =>
          obtain ⟨found, box, hpop, -, -⟩ := Mailbox.pop_some hs
          rw [hpop] at hlock
          cases hlock

/-- A receive call does not fail once it has begun. -/
theorem Pc.act_ne_error (pc : Pc types maxBody π) (r : ErrorKind) (port' : Port depth maxBody)
    (e : Effect) : pc.act ask source a port ≠ some (.received (.error r), port', e) := by
  intro h
  cases Pc.acts_of_act h with
  | push slot raw _ _ _ hlock =>
      unfold onPushLock at hlock
      split at hlock <;> cases hlock
  | pop slot id f seen _ _ _ hlock =>
      unfold onPopLock at hlock
      split at hlock <;> cases hlock

/-- A new call holds no receiver, or it waits for the lock with one. -/
theorem Call.start_case (M : Maplet types) (maxWaiters : Nat) (ports : Fin types → Port depth maxBody)
    (c : Call π) :
    (∃ pc, c.start M maxWaiters ports = (pc, none) ∧ pc.live = false ∧ pc.seen = 0) ∨
      ∃ slot id f, c.slot M = some slot ∧ c.start M maxWaiters ports = (.popping slot id f 0,
        some (slot, { ports slot with receivers := (ports slot).receivers + 1 })) := by
  -- the two receive calls differ in the filter alone
  have recv : ∀ id (f : Filter π),
      (∃ pc, startRecv M maxWaiters ports id f = (pc, none) ∧ pc.live = false ∧ pc.seen = 0) ∨
        ∃ slot id' f', M.slotForId id = some slot ∧
          startRecv M maxWaiters ports id f = (.popping slot id' f' 0,
            some (slot, { ports slot with receivers := (ports slot).receivers + 1 })) := by
    intro id f
    rcases startRecv_case ports id f with heq | ⟨slot, hslot, heq⟩
    · exact .inl ⟨_, heq, rfl, rfl⟩
    · exact .inr ⟨slot, id, f, hslot, heq⟩
  cases c with
  | ingest source payload =>
      refine .inl ⟨startIngest M payload, rfl, ?_⟩
      unfold startIngest
      split
      · exact ⟨rfl, rfl⟩
      · split <;> exact ⟨rfl, rfl⟩
  | recvNext id source => exact recv id .all
  | recvNextWhere id source p => exact recv id (.only p)

/-- A receive call that fails at once has no slot, or found no receiver left. -/
theorem Call.start_error {ports : Fin types → Port depth maxBody} {e : ErrorKind}
    (h : (c.start M maxWaiters ports).1 = .received (.error e)) {k : Fin types}
    (hk : c.slot M = some k) : maxWaiters ≤ (ports k).receivers := by
  have key : ∀ id (f : Filter π), M.slotForId id = some k →
      (startRecv M maxWaiters ports id f).1 = .received (.error e) →
      maxWaiters ≤ (ports k).receivers := by
    intro id f hid herr
    rw [startRecv, hid] at herr
    simp only at herr
    split at herr
    · cases herr
    · next hfull => exact Nat.le_of_not_lt hfull
  cases c with
  | ingest source payload =>
      simp only [Call.start, startIngest] at h
      split at h
      · cases h
      · split at h <;> cases h
  | recvNext id source => exact key id .all hk h
  | recvNextWhere id source p => exact key id (.only p) hk h

namespace Interface

variable {w w' : Interface types depth maxBody π} {n : Nat} {l : Label π}

/-! ## The version and the messages that are there -/

/-- A message that is in a mailbox was there before, or was pushed by the task
that has moved. -/
theorem Move.pending_of (hm : Move M ask w n w') (hi : Inv M ask w) {k : Fin types} {b : Nat}
    (hb : b ∈ w'.pending M k) :
    b ∈ w.pending M k ∨ ∃ t, w'.tasks b = some t ∧ t.pc.notifies = true := by
  obtain ⟨hpush, hslot, hfree⟩ := mem_pending.mp hb
  have old : b ∈ w.pushes → b ∉ w.takes.map Prod.snd → b ∈ w.pending M k := by
    intro hb' hfree'
    exact mem_pending.mpr ⟨hb', (hm.slot_eq (hi.isSome hb')).symm.trans hslot, hfree'⟩
  cases hm with
  | quiet => exact .inl (old hpush hfree)
  | push source payload slot raw port =>
      rcases List.mem_append.mp hpush with hpush | hpush
      · exact .inl (old hpush hfree)
      · obtain rfl := List.mem_singleton.mp hpush
        exact .inr ⟨_, Function.update_self _ _ _, rfl⟩
  | take =>
      refine .inl (old hpush fun h ↦ hfree ?_)
      rw [List.map_append]
      exact List.mem_append_left _ h

/-- The mailbox holds the messages that are pending. -/
theorem Inv.mem_entries (hi : Inv M ask w) {k : Fin types} {b : Nat} {e : Entry}
    (hb : b ∈ w.pending M k) (he : w.entry b = some e) : e ∈ (w.ports k).box.entries := by
  have hmem : some e ∈ (w.pending M k).map w.entry := List.mem_map.mpr ⟨b, hb, he⟩
  rw [hi.boxes k] at hmem
  obtain ⟨e', he', heq⟩ := List.mem_map.mp hmem
  exact Option.some.inj heq ▸ he'

/-- A task that moves is where the machine has put it. -/
theorem put_tasks (t : Task types maxBody π) (port : Option (Fin types × Port depth maxBody)) (m : Nat) :
    (w.put n t port).tasks m = if m = n then some t else w.tasks m := by
  by_cases hmn : m = n
  · rw [if_pos hmn, hmn]
    exact Function.update_self _ _ _
  · rw [if_neg hmn]
    exact Function.update_of_ne hmn _ _

theorem put_ports (t : Task types maxBody π) (k : Fin types) (port : Port depth maxBody)
    (k' : Fin types) :
    (w.put n t (some (k, port))).ports k' = if k' = k then port else w.ports k' := by
  by_cases hk : k' = k
  · rw [if_pos hk, hk]
    exact Function.update_self _ _ _
  · rw [if_neg hk]
    exact Function.update_of_ne hk _ _

/-- How a move changes the tasks and the ports. -/
inductive Turn (M : Maplet types) (ask : π → Bytes → Bool × π) (maxWaiters : Nat)
    (w w' : Interface types depth maxBody π) : Label π → Prop
  | call (n : Nat) (c : Call π) (hnew : w.tasks n = none)
      (htasks : ∀ m, w'.tasks m =
        if m = n then some ⟨c, (c.start M maxWaiters w.ports).1⟩ else w.tasks m)
      (hports : ∀ k, w'.ports k = match (c.start M maxWaiters w.ports).2 with
        | none => w.ports k
        | some (k', port) => if k = k' then port else w.ports k) :
      Turn M ask maxWaiters w w' (.call n c)
  | act (n : Nat) (a : Action) (c : Call π) (pc pc' : Pc types maxBody π) (k : Fin types)
      (port : Port depth maxBody) (e : Effect) (ht : w.tasks n = some ⟨c, pc⟩)
      (hk : pc.slot = some k) (hact : pc.act ask c.source a (w.ports k) = some (pc', port, e))
      (htasks : ∀ m, w'.tasks m = if m = n then some ⟨c, pc'⟩ else w.tasks m)
      (hports : ∀ k', w'.ports k' = if k' = k then port else w.ports k') :
      Turn M ask maxWaiters w w' (.act n a)

theorem step_turn (h : w.step ask M maxWaiters l = some w') : Turn M ask maxWaiters w w' l := by
  rcases step_cases h with ⟨n, c, rfl, hnew, rfl⟩ |
    ⟨n, a, ⟨c, pc⟩, k, pc', port, e, rfl, ht, hk, hact, rfl⟩
  · refine .call n c hnew (put_tasks _ _) ?_
    intro k
    cases hstart : (c.start M maxWaiters w.ports).2 with
    | none => rfl
    | some kp => exact put_ports _ kp.1 kp.2 k
  · refine .act n a c pc pc' k port e ht hk hact (fun m ↦ ?_) (fun k' ↦ ?_)
    · rw [put_tasks, record_tasks]
    · rw [put_ports, record_ports]

/-- A task that does not move stays where it is. -/
theorem Turn.tasks_of_ne (h : Turn M ask maxWaiters w w' l) {m : Nat} (hm : l.task ≠ m) :
    w'.tasks m = w.tasks m := by
  cases h with
  | call n c hnew htasks hports => exact (htasks m).trans (if_neg (Ne.symm hm))
  | act n a c pc pc' k port e ht hk hact htasks hports =>
      exact (htasks m).trans (if_neg (Ne.symm hm))

/-- Who has changed has moved. -/
theorem Turn.task_eq (h : Turn M ask maxWaiters w w' l) {m : Nat} (hne : w.tasks m ≠ w'.tasks m) :
    l.task = m := by
  by_contra hm
  exact hne (h.tasks_of_ne hm).symm

/-- A version does not go back. -/
theorem Turn.version_le (h : Turn M ask maxWaiters w w' l) (k : Fin types) :
    (w.ports k).version ≤ (w'.ports k).version := by
  cases h with
  | call n c hnew htasks hports =>
      rw [hports]
      rcases c.start_case M maxWaiters w.ports with ⟨pc, hstart, -, -⟩ | ⟨slot, id, f, -, hstart⟩
      · rw [hstart]
      · rw [hstart]
        simp only
        split
        · next hk => rw [hk]
        · exact Nat.le_refl _
  | act n a c pc pc' k' port e ht hk hact htasks hports =>
      rw [hports]
      split
      · next heq =>
          rw [heq, (Pc.act_books hact).version]
          split
          · exact Nat.le_succ _
          · exact Nat.le_refl _
      · exact Nat.le_refl _

/-- **The invariant of the wake-ups**: a receive call that waits with nothing new
to see has missed no message but those whose `ingest` will still notify. -/
structure Awake (accepts : π → Bytes → Bool) (M : Maplet types)
    (w : Interface types depth maxBody π) : Prop where
  seen : ∀ n t k, w.tasks n = some t → t.pc.slot = some k → t.pc.seen ≤ (w.ports k).version
  covered : ∀ m c k id f seen, w.tasks m = some ⟨c, .waiting k id f seen⟩ →
    ¬ seen < (w.ports k).version → ∀ b ∈ w.pending M k, ∀ e, w.entry b = some e →
    e.source = c.source → f.accepts accepts e.body = true →
    ∃ t, w.tasks b = some t ∧ t.pc.notifies = true

theorem Awake.init : Awake accepts M ({} : Interface types depth maxBody π) := ⟨nofun, nofun⟩

theorem Awake.seen_step (ha : Awake accepts M w) (h : Turn M ask maxWaiters w w' l)
    {m : Nat} {t : Task types maxBody π} {k : Fin types} (ht : w'.tasks m = some t)
    (hk : t.pc.slot = some k) : t.pc.seen ≤ (w'.ports k).version := by
  have old : w.tasks m = some t → t.pc.seen ≤ (w'.ports k).version :=
    fun ht' ↦ (ha.seen m t k ht' hk).trans (h.version_le k)
  have hversion := h.version_le k
  cases h with
  | call n c hnew htasks hports =>
      rw [htasks] at ht
      split at ht
      · obtain rfl := Option.some.inj ht
        rcases c.start_case M maxWaiters w.ports with ⟨pc, hstart, -, hseen⟩ | ⟨slot, id, f, -, hstart⟩
        · simp only [hstart, hseen]
          exact Nat.zero_le _
        · simp only [hstart]
          exact Nat.zero_le _
      · exact old ht
  | act n a c pc pc' k' port e ht₀ hk₀ hact htasks hports =>
      rw [htasks] at ht
      split at ht
      · obtain rfl := Option.some.inj ht
        have hbooks := Pc.act_books hact
        obtain rfl : k' = k := Option.some.inj (hk₀.symm.trans (hbooks.slot k hk))
        refine hbooks.seen.trans (Nat.max_le.mpr ⟨?_, hversion⟩)
        exact (ha.seen n _ k' ht₀ hk₀).trans hversion
      · exact old ht

/-- A call that has just started to wait has missed nothing. -/
theorem Turn.missed_nothing (h : Turn M (pureAsk accepts) maxWaiters w w' l)
    {m : Nat} {c : Call π} {k : Fin types} {id : UInt16} {f : Filter π} {seen : Nat}
    (ht : w'.tasks m = some ⟨c, .waiting k id f seen⟩) (hne : w.tasks m ≠ w'.tasks m) :
    ∀ e ∈ (w'.ports k).box.entries, e.source = c.source → f.accepts accepts e.body = false := by
  have hself := h.task_eq hne
  cases h with
  | call n c₀ hnew htasks hports =>
      obtain rfl : n = m := hself
      rw [htasks, if_pos rfl] at ht
      obtain ⟨rfl, hpc⟩ := Task.mk.inj (Option.some.inj ht)
      exfalso
      rcases c₀.start_case M maxWaiters w.ports with ⟨pc, hstart, hlive, -⟩ | ⟨slot, id, f, -, hstart⟩
      · rw [hstart] at hpc
        obtain rfl : pc = .waiting k _ _ seen := hpc
        cases hlive
      · rw [hstart] at hpc
        cases hpc
  | act n a c₀ pc pc' k' port e ht₀ hk₀ hact htasks hports =>
      obtain rfl : n = m := hself
      rw [htasks, if_pos rfl] at ht
      obtain ⟨rfl, rfl⟩ := Task.mk.inj (Option.some.inj ht)
      obtain rfl : k' = k := Option.some.inj (hk₀.symm.trans ((Pc.act_books hact).slot k rfl))
      obtain ⟨hbox, hno⟩ := Pc.act_waiting hact
      rw [hports, if_pos rfl, hbox]
      exact hno

/-- A call that stops to be about to notify has made a new version. -/
theorem Turn.notified (h : Turn M ask maxWaiters w w' l) {b : Nat} {t : Task types maxBody π}
    {k : Fin types} (ht : w.tasks b = some t) (hk : t.pc.slot = some k)
    (hnotifies : t.pc.notifies = true) :
    w'.tasks b = some t ∨ (w'.ports k).version = (w.ports k).version + 1 := by
  cases h with
  | call n c hnew htasks hports =>
      refine .inl ((htasks b).trans ((if_neg ?_).trans ht))
      rintro rfl
      rw [hnew] at ht
      cases ht
  | act n a c pc pc' k' port e ht₀ hk₀ hact htasks hports =>
      by_cases hbn : b = n
      · obtain rfl := hbn
        obtain rfl := Option.some.inj (ht₀.symm.trans ht)
        obtain rfl := Option.some.inj (hk₀.symm.trans hk)
        apply Or.inr
        rw [hports, if_pos rfl, (Pc.act_books hact).version, if_pos hnotifies]
      · exact .inl ((htasks b).trans ((if_neg hbn).trans ht))

/-- A call that will notify stands at the slot of its message. -/
theorem Inv.slot_of_notifies (hi : Inv M ask w) {b : Nat} {t : Task types maxBody π} {k : Fin types}
    (ht : w.tasks b = some t) (hnotifies : t.pc.notifies = true) (hb : b ∈ w.pending M k) :
    t.pc.slot = some k := by
  obtain ⟨-, hslot, -⟩ := mem_pending.mp hb
  rw [Interface.slot, ht, Option.bind_some] at hslot
  obtain ⟨k', hk'⟩ : ∃ k', t.pc.slot = some k' := by
    cases hpc : t.pc with
    | notifying k' => exact ⟨k', rfl⟩
    | pushing | ingested | popping | waiting | received | dropped =>
        rw [hpc] at hnotifies
        cases hnotifies
  rw [hk', ← (hi.standing b t ht).slot_eq hk', hslot]

/-- **Every move keeps the receivers awake.** -/
theorem Awake.step (hi : Inv M (pureAsk accepts) w) (ha : Awake accepts M w)
    (h : w.step (pureAsk accepts) M maxWaiters l = some w') : Awake accepts M w' := by
  have hm := step_move hi.standing h
  have hi' := hi.step hm
  have hturn := step_turn h
  refine ⟨fun m t k ht hk ↦ ha.seen_step hturn ht hk, ?_⟩
  intro m c k id f seen ht hseen b hb e he hsource hyes
  by_cases hmoved : w.tasks m = w'.tasks m
  · rcases hm.pending_of hi hb with hold | hnew
    · have hentry : w'.entry b = w.entry b := hm.entry_eq (hi.isSome (mem_pending.mp hold).1)
      have hle := hturn.version_le k
      obtain ⟨t, htb, hnotifies⟩ := ha.covered m c k id f seen (hmoved.trans ht)
        (fun hlt ↦ hseen (hlt.trans_le hle)) b hold e (hentry.symm.trans he) hsource hyes
      rcases hturn.notified htb (hi.slot_of_notifies htb hnotifies hold) hnotifies with hsame | hnext
      · exact ⟨t, hsame, hnotifies⟩
      · -- the new version is one this receiver has not seen
        have hle' := ha.seen m _ k (hmoved.trans ht) rfl
        exact absurd (hnext ▸ Nat.lt_succ_of_le hle') hseen
    · exact hnew
  · have hno := hturn.missed_nothing ht hmoved e (hi'.mem_entries hb he) hsource
    rw [hyes] at hno
    cases hno

theorem Awake.of_reachable (hw : (machine (pureAsk accepts) M maxWaiters).Reachable {} w) :
    Awake accepts M w :=
  hw.induction_on .init fun _ _ _ hb ha hs ↦ ha.step (Inv.of_reachable hb) hs

/-! ## Receivers -/

/-- The receive call `m` of slot `k` has not ended. -/
def Live (w : Interface types depth maxBody π) (k : Fin types) (m : Nat) : Prop :=
  ∃ t, w.tasks m = some t ∧ t.pc.live = true ∧ t.pc.slot = some k

/-- Each `Watch` counts the receive calls that have not ended. -/
def Counted (w : Interface types depth maxBody π) : Prop :=
  ∀ k, ∃ s : Finset Nat, (∀ m, m ∈ s ↔ w.Live k m) ∧ s.card = (w.ports k).receivers

theorem Counted.init : Counted ({} : Interface types depth maxBody π) := by
  intro k
  refine ⟨∅, fun m ↦ ⟨fun h ↦ absurd h (Finset.notMem_empty m), ?_⟩, rfl⟩
  rintro ⟨t, ht, -⟩
  cases ht

/-- Only the task that moves can begin or end to be live. -/
theorem live_congr {k : Fin types} {m : Nat} (h : w'.tasks m = w.tasks m) :
    w'.Live k m ↔ w.Live k m := by
  rw [Live, Live, h]

theorem live_iff {k : Fin types} {m : Nat} {t : Task types maxBody π} (ht : w.tasks m = some t) :
    w.Live k m ↔ t.pc.live = true ∧ t.pc.slot = some k := by
  constructor
  · rintro ⟨t', ht', hlive⟩
    rwa [Option.some.inj (ht.symm.trans ht')]
  · exact fun hlive ↦ ⟨t, ht, hlive⟩

theorem Counted.call (hc : Counted w) {c : Call π} (hnew : w.tasks n = none)
    (htasks : ∀ m, w'.tasks m =
      if m = n then some ⟨c, (c.start M maxWaiters w.ports).1⟩ else w.tasks m)
    (hports : ∀ k, w'.ports k = match (c.start M maxWaiters w.ports).2 with
      | none => w.ports k
      | some (k', port) => if k = k' then port else w.ports k) : Counted w' := by
  intro k
  obtain ⟨s, hs, hcard⟩ := hc k
  have hfresh : n ∉ s := by
    intro hn
    obtain ⟨t, ht, -⟩ := (hs n).mp hn
    rw [hnew] at ht
    cases ht
  have hself := (htasks n).trans (if_pos rfl)
  have hother : ∀ {m}, m ≠ n → (w'.Live k m ↔ w.Live k m) :=
    fun hmn ↦ live_congr ((htasks _).trans (if_neg hmn))
  -- a call that does not take a receiver of `k` is not live there
  have keep : ¬ w'.Live k n → ∀ m, m ∈ s ↔ w'.Live k m := by
    intro hn m
    by_cases hmn : m = n
    · exact ⟨fun h ↦ absurd (hmn ▸ h) hfresh, fun h ↦ absurd (hmn ▸ h) hn⟩
    · rw [hother hmn, hs]
  rw [hports]
  rcases c.start_case M maxWaiters w.ports with ⟨pc, hstart, hlive, -⟩ | ⟨slot, id, f, -, hstart⟩
  · rw [hstart] at hself ⊢
    refine ⟨s, keep fun h ↦ ?_, hcard⟩
    rw [live_iff hself] at h
    rw [hlive] at h
    cases h.1
  · rw [hstart] at hself ⊢
    simp only
    split
    · next hk =>
        obtain rfl := hk
        refine ⟨insert n s, ?_, ?_⟩
        · intro m
          rw [Finset.mem_insert]
          by_cases hmn : m = n
          · rw [hmn, live_iff hself]
            exact ⟨fun _ ↦ ⟨rfl, rfl⟩, fun _ ↦ .inl rfl⟩
          · rw [hother hmn, hs]
            exact ⟨fun h ↦ h.resolve_left hmn, .inr⟩
        · rw [Finset.card_insert_of_notMem hfresh, hcard]
    · next hk =>
        refine ⟨s, keep fun h ↦ ?_, hcard⟩
        rw [live_iff hself] at h
        exact hk (Option.some.inj h.2).symm

theorem Counted.act (hc : Counted w) {c : Call π} {k : Fin types} (ht : w.tasks n = some ⟨c, pc⟩)
    (hk : pc.slot = some k) (hbooks : Books pc pc' (w.ports k) port)
    (htasks : ∀ m, w'.tasks m = if m = n then some ⟨c, pc'⟩ else w.tasks m)
    (hports : ∀ k', w'.ports k' = if k' = k then port else w.ports k') : Counted w' := by
  intro k'
  obtain ⟨s, hs, hcard⟩ := hc k'
  have hself := (htasks n).trans (if_pos rfl)
  have hother : ∀ {m}, m ≠ n → (w'.Live k' m ↔ w.Live k' m) :=
    fun hmn ↦ live_congr ((htasks _).trans (if_neg hmn))
  have keep : (w'.Live k' n ↔ w.Live k' n) → ∀ m, m ∈ s ↔ w'.Live k' m := by
    intro hn m
    by_cases hmn : m = n
    · rw [hmn, hn, hs]
    · rw [hother hmn, hs]
  rw [hports]
  by_cases hk' : k' = k
  · obtain rfl := hk'
    rw [if_pos rfl, hbooks.receivers]
    cases hlive : pc.live with
    | false =>
        refine ⟨s, keep ?_, hcard⟩
        rw [live_iff hself, live_iff ht]
        refine ⟨fun h ↦ ⟨hbooks.live h.1, hk⟩, ?_⟩
        intro h
        rw [show pc.live = true from h.1] at hlive
        cases hlive
    | true =>
        have hn : n ∈ s := (hs n).mpr ((live_iff ht).mpr ⟨hlive, hk⟩)
        cases hlive' : pc'.live with
        | false =>
            refine ⟨s.erase n, ?_, ?_⟩
            · intro m
              rw [Finset.mem_erase]
              by_cases hmn : m = n
              · rw [hmn, live_iff hself]
                simp only [ne_eq, not_true, false_and, hlive', Bool.false_eq_true]
              · rw [hother hmn, hs]
                exact ⟨fun h ↦ h.2, fun h ↦ ⟨hmn, h⟩⟩
            · rw [Finset.card_erase_of_mem hn, hcard]
              rfl
        | true =>
            refine ⟨s, keep ?_, hcard⟩
            rw [live_iff hself, live_iff ht]
            exact ⟨fun h ↦ ⟨hlive, hk⟩, fun _ ↦ ⟨hlive', hbooks.slot_of_live hk hlive'⟩⟩
  · rw [if_neg hk']
    refine ⟨s, keep ?_, hcard⟩
    rw [live_iff hself, live_iff ht]
    refine ⟨fun h ↦ absurd ?_ hk', fun h ↦ absurd (Option.some.inj (h.2.symm.trans hk)) hk'⟩
    exact Option.some.inj ((hbooks.slot k' h.2).symm.trans hk)

theorem Counted.step (hc : Counted w) (h : Turn M ask maxWaiters w w' l) : Counted w' := by
  cases h with
  | call n c hnew htasks hports => exact hc.call hnew htasks hports
  | act n a c pc pc' k port e ht hk hact htasks hports =>
      exact hc.act ht hk (Pc.act_books hact) htasks hports

theorem Counted.of_reachable (hw : (machine ask M maxWaiters).Reachable {} w) : Counted w :=
  hw.invariant .init fun _ _ _ hc hs ↦ hc.step (step_turn hs)

/-! ## No receiver sleeps forever -/

section Path

variable (p : Machine.Path
  (machine (pureAsk accepts) M maxWaiters : Machine (Interface types depth maxBody π) (Label π)) {})

theorem isSome_wake {m : Nat} {c : Call π} {k : Fin types} {id : UInt16} {f : Filter π} {seen : Nat}
    (ht : w.tasks m = some ⟨c, .waiting k id f seen⟩) (hseen : seen < (w.ports k).version) :
    ((machine ask M maxWaiters).step w (.act m .wake)).isSome = true := by
  simp only [machine, step, ht, Option.bind_some, Pc.slot, Pc.act, if_pos hseen, Option.map_some,
    Option.isSome_some]

theorem isSome_notify {b : Nat} {t : Task types maxBody π} (ht : w.tasks b = some t)
    (hnotifies : t.pc.notifies = true) :
    ((machine ask M maxWaiters).step w (.act b .notify)).isSome = true := by
  obtain ⟨c, pc⟩ := t
  cases pc with
  | notifying k raw =>
      simp only [machine, step, ht, Option.bind_some, Pc.slot, Pc.act, Option.map_some,
        Option.isSome_some]
  | pushing | ingested | popping | waiting | received | dropped => cases hnotifies

/-- Call `m` waits, although there is a message it would take. -/
structure Asleep (accepts : π → Bytes → Bool) (w : Interface types depth maxBody π) (m : Nat)
    (c : Call π) (k : Fin types) (f : Filter π) (seen : Nat) (e : Entry) : Prop where
  waits : ∃ id, w.tasks m = some ⟨c, .waiting k id f seen⟩
  there : e ∈ (w.ports k).box.entries
  source_eq : e.source = c.source
  accepted : f.accepts accepts e.body = true

/-- **A call that waits for a message that is there moves on**, if calls that can
notify and calls that can wake up do so in the end. -/
theorem moves_on (hfair : ∀ n, p.Fair (.act n .notify) ∧ p.Fair (.act n .wake)) {i m : Nat}
    {c : Call π} {k : Fin types} {f : Filter π} {seen : Nat} {e : Entry}
    (h : Asleep accepts (p.state i) m c k f seen e) :
    ∃ j a, i ≤ j ∧ p.label j = some (.act m a) := by
  by_contra hnever
  obtain ⟨id, hm⟩ := h.waits
  -- otherwise the call waits from now on
  have hstays : ∀ j, i ≤ j → (p.state j).tasks m = some ⟨c, .waiting k id f seen⟩ := by
    intro j hij
    refine p.holds_from (P := fun w ↦ w.tasks m = _) hm (fun j l hij hl hs ht ↦ ?_) hij
    have hturn : Turn M (pureAsk accepts) maxWaiters (p.state j) (p.state (j + 1)) l := step_turn hs
    refine (hturn.tasks_of_ne fun hlm ↦ ?_).trans ht
    cases hturn with
    | call n c' hnew =>
        obtain rfl : n = m := hlm
        rw [ht] at hnew
        cases hnew
    | act n a =>
        obtain rfl : n = m := hlm
        exact hnever ⟨j, a, hij, hl⟩
  -- and never has anything new to see
  have hold : ∀ j, i ≤ j → ¬ seen < ((p.state j).ports k).version := by
    intro j hij hseen
    have hlater : ∀ j', j ≤ j' → seen < ((p.state j').ports k).version := by
      intro j' hj'
      refine p.holds_from (P := fun w ↦ seen < (w.ports k).version) hseen (fun _ _ _ _ hs hlt ↦ ?_) hj'
      exact hlt.trans_le ((step_turn hs).version_le k)
    obtain ⟨j', hj', hl⟩ := (hfair m).2 j fun j' hj' ↦
      isSome_wake (hstays j' (hij.trans hj')) (hlater j' hj')
    exact hnever ⟨j', .wake, hij.trans hj', hl⟩
  -- so the message comes from a call that will still notify, and it will
  have hi := Inv.of_reachable (p.reachable i)
  have ha := Awake.of_reachable (p.reachable i)
  obtain ⟨x, hx, hxe⟩ := List.getElem_of_mem h.there
  obtain ⟨b, hb, hbe⟩ := hi.entry_at (List.getElem?_eq_some_iff.mpr ⟨hx, hxe⟩)
  have hpending := List.mem_of_getElem? hb
  obtain ⟨t, htb, hnotifies⟩ := ha.covered m c k id f seen hm (hold i (Nat.le_refl i)) b hpending e hbe
    h.source_eq h.accepted
  have hslot := hi.slot_of_notifies htb hnotifies hpending
  have hseen : ∀ j, i ≤ j → seen ≤ ((p.state j).ports k).version := by
    intro j hij
    exact (Awake.of_reachable (p.reachable j)).seen m _ k (hstays j hij) rfl
  have hwaits : ∀ j, i ≤ j → (p.state j).tasks b = some t := by
    intro j hij
    refine p.holds_from (P := fun w ↦ w.tasks b = _) htb (fun j l hij _ hs ht ↦ ?_) hij
    refine ((step_turn hs).notified ht hslot hnotifies).resolve_right ?_
    intro hnext
    exact hold (j + 1) (Nat.le_succ_of_le hij) (hnext ▸ Nat.lt_succ_of_le (hseen j hij))
  obtain ⟨j, hij, hl⟩ := (hfair b).1 i fun j hij ↦ isSome_notify (hwaits j hij) hnotifies
  rcases p.next_cases j with ⟨hnone, -⟩ | ⟨l, hl', hs⟩
  · rw [hl] at hnone
    cases hnone
  · obtain rfl := Option.some.inj (hl.symm.trans hl')
    have hturn : Turn M (pureAsk accepts) maxWaiters (p.state j) (p.state (j + 1))
      (.act b .notify) := step_turn hs
    cases hturn with
    | act _ _ c₀ pc pc' k' port e₀ ht₀ hk₀ hact htasks hports =>
        obtain rfl := Option.some.inj (ht₀.symm.trans (hwaits j hij))
        obtain rfl := Option.some.inj (hk₀.symm.trans hslot)
        refine hold (j + 1) (Nat.le_succ_of_le hij) ?_
        rw [hports, if_pos rfl, (Pc.act_books hact).version, if_pos hnotifies]
        exact Nat.lt_succ_of_le (hseen j hij)

end Path

/-- A receive call of a known type fails only for want of a receiver. -/
theorem Turn.no_receiver (h : Turn M ask maxWaiters w w' l) (hc : Counted w) {m : Nat} {c : Call π}
    {e : ErrorKind} {k : Fin types} (ht : w'.tasks m = some ⟨c, .received (.error e)⟩)
    (hne : w.tasks m ≠ w'.tasks m) (hk : c.slot M = some k) :
    ∃ s : Finset Nat, s.card = maxWaiters ∧ m ∉ s ∧ ∀ m' ∈ s, w.Live k m' := by
  have hself := h.task_eq hne
  cases h with
  | call n c₀ hnew htasks hports =>
      obtain rfl : n = m := hself
      rw [htasks, if_pos rfl] at ht
      obtain ⟨rfl, hpc⟩ := Task.mk.inj (Option.some.inj ht)
      obtain ⟨s, hs, hcard⟩ := hc k
      obtain ⟨s', hsub, hcard'⟩ := Finset.exists_subset_card_eq (hcard ▸ Call.start_error hpc hk)
      refine ⟨s', hcard', ?_, fun m' hm' ↦ (hs m').mp (hsub hm')⟩
      intro hm
      obtain ⟨t, ht', -⟩ := (hs n).mp (hsub hm)
      rw [hnew] at ht'
      cases ht'
  | act n a c₀ pc pc' k' port e₀ ht₀ hk₀ hact htasks hports =>
      obtain rfl : n = m := hself
      rw [htasks, if_pos rfl] at ht
      obtain ⟨rfl, rfl⟩ := Task.mk.inj (Option.some.inj ht)
      exact absurd hact (Pc.act_ne_error _ _ _ _)

/-- **No lost wake-up.**  A receive call that waits with no newer version to see has
in its mailbox only such messages to take whose `ingest` has not notified yet; so in
no fair run does it sleep on a message.  A receive call of a known type fails only
while `MAX_WAITERS` others of its type are live. -/
theorem no_lost_wakeup (accepts : π → Bytes → Bool) (M : Maplet types) (maxWaiters : Nat) :
    (∀ w : Interface types depth maxBody π, (machine (pureAsk accepts) M maxWaiters).Reachable {} w →
      (∀ m c k id f seen, w.tasks m = some ⟨c, .waiting k id f seen⟩ →
        ¬ seen < (w.ports k).version → ∀ (i : Nat) (e : Entry),
        (w.ports k).box.entries[i]? = some e → e.source = c.source → f.accepts accepts e.body = true →
        ∃ n source payload raw, (w.pending M k)[i]? = some n ∧ e = ⟨source, raw.body⟩ ∧
          w.tasks n = some ⟨.ingest source payload, .notifying k raw⟩) ∧
      ∀ l w' m c e k, w.step (pureAsk accepts) M maxWaiters l = some w' →
        w'.tasks m = some ⟨c, .received (.error e)⟩ → w.tasks m ≠ w'.tasks m →
        c.slot M = some k →
        ∃ s : Finset Nat, s.card = maxWaiters ∧ m ∉ s ∧ ∀ m' ∈ s, w.Live k m') ∧
    ∀ p : Machine.Path (machine (pureAsk accepts) M maxWaiters :
        Machine (Interface types depth maxBody π) (Label π)) {},
      (∀ n, p.Fair (.act n .notify) ∧ p.Fair (.act n .wake)) →
      ∀ i m c k f seen e, Asleep accepts (p.state i) m c k f seen e →
        ∃ j a, i ≤ j ∧ p.label j = some (.act m a) := by
  refine ⟨fun w hw ↦ ⟨?_, ?_⟩, fun p hfair i m c k f seen e h ↦ moves_on p hfair h⟩
  · intro m c k id f seen ht hseen i e he hsource hyes
    have hi := Inv.of_reachable hw
    obtain ⟨n, hn, hne⟩ := hi.entry_at he
    have hpending := List.mem_of_getElem? hn
    obtain ⟨t, htn, hnotifies⟩ := (Awake.of_reachable hw).covered m c k id f seen ht hseen n hpending e
      hne hsource hyes
    have hslot := hi.slot_of_notifies htn hnotifies hpending
    have hstand := hi.standing n t htn
    obtain ⟨cn, pcn⟩ := t
    cases hstand with
    | notifying source payload slot raw hraw =>
        obtain rfl : slot = k := Option.some.inj hslot
        refine ⟨n, source, payload, raw, hn, ?_, htn⟩
        rw [entry, htn, Option.bind_some, Call.entry_ingest hraw] at hne
        exact (Option.some.inj hne).symm
    | pushing | ingested | failed | popping | waiting | received | dropped => cases hnotifies
  · intro l w' m c e k hs ht hne hk
    exact (step_turn hs).no_receiver (Counted.of_reachable hw) ht hne hk

/-- A receive call has searched an empty mailbox, and a message is pushed: the
receive call waits, and the `ingest` has not notified yet. -/
def pushedRun : List (Label Bytes) :=
  [.call 0 (.recvNextWhere 1 0xAA [0x31]), .act 0 .lock, .call 1 (.ingest 0xAA [1, 0, 0x31]),
    .act 1 .lock]

/-- In the state after `pushedRun` the one receiver is in use, so that another
receive call fails. -/
theorem no_lost_wakeup_pushed : ∃ w : Interface 1 2 4 Bytes,
    (machine (pureAsk fun p body ↦ p = body) ⟨#v[1]⟩ 1).exec {} pushedRun = some w ∧
      (∃ n source payload raw, (w.pending ⟨#v[1]⟩ 0)[0]? = some n ∧
        (⟨0xAA, [0x31]⟩ : Entry) = ⟨source, raw.body⟩ ∧
        w.tasks n = some ⟨.ingest source payload, .notifying 0 raw⟩) ∧
      ∃ s : Finset Nat, s.card = 1 ∧ 2 ∉ s ∧ ∀ m' ∈ s, w.Live 0 m' := by
  have hexec : (machine (pureAsk fun p body ↦ p = body) ⟨#v[1]⟩ 1).exec ({} : Interface 1 2 4 Bytes)
      pushedRun = some { ports := _, tasks := _, pushes := _, takes := _ } := rfl
  obtain ⟨hcovered, hfails⟩ :=
    (no_lost_wakeup (fun p body ↦ p = body) ⟨#v[1]⟩ 1).1 _ ⟨pushedRun, hexec⟩
  refine ⟨_, hexec, ?_, ?_⟩
  · exact hcovered 0 (.recvNextWhere 1 0xAA [0x31]) 0 1 (.only [0x31]) 0 rfl (by decide) 0
      ⟨0xAA, [0x31]⟩ rfl rfl rfl
  · exact hfails (.call 2 (.recvNext 1 0xAA)) _ 2 (.recvNext 1 0xAA) .other 0 rfl rfl nofun rfl

end Interface

end Thincan.Bus

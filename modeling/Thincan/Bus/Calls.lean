import Thincan.Bus.Interface

/-!
# What a call on an interface can do

`Standing` says how the local variables of a call relate to its arguments, at
each await point.  From such a point an action leaves the messages in the port
alone, pushes the message of the call, or takes one (`ActCase`), and so does a
move of the interface (`Interface.Move`).
-/

namespace Thincan.Bus

open Process

variable {types depth maxBody maxWaiters : Nat} {π : Type} {M : Maplet types}
  {ask : π → Bytes → Bool × π}

/-! ## Calls and where they stand -/

/-- The message of an `ingest`. -/
def Call.entry : Call π → Option Entry
  | .ingest source payload => (decodeWire payload).toOption.map fun raw ↦ ⟨source, raw.body⟩
  | .recvNext _ _ | .recvNextWhere _ _ _ => none

/-- The predicate of a receive call. -/
def Call.filter : Call π → Option (Filter π)
  | .ingest _ _ => none
  | .recvNext _ _ => some .all
  | .recvNextWhere _ _ p => some (.only p)

section Ingest

variable {source : UInt8} {payload : Bytes} {raw : RawMessage}

theorem Call.id?_ingest (h : decodeWire payload = .ok raw) :
    (.ingest source payload : Call π).id? = some raw.id := by
  rw [Call.id?, h]
  rfl

theorem Call.slot_ingest (h : decodeWire payload = .ok raw) :
    (.ingest source payload : Call π).slot M = M.slotForId raw.id := by
  rw [Call.slot, Call.id?_ingest h, Option.bind_some]

theorem Call.entry_ingest (h : decodeWire payload = .ok raw) :
    (.ingest source payload : Call π).entry = some ⟨source, raw.body⟩ := by
  rw [Call.entry, h]
  rfl

end Ingest

/-- The call has put its message into a mailbox. -/
def Pc.pushed : Pc types maxBody π → Bool
  | .notifying _ _ | .ingested (.ok _) => true
  | _ => false

/-- The call has returned a message. -/
def Pc.took : Pc types maxBody π → Bool
  | .received (.ok _) => true
  | _ => false

/-- How the local variables of a call relate to its arguments. -/
inductive Standing (M : Maplet types) (ask : π → Bytes → Bool × π) :
    Call π → Pc types maxBody π → Prop
  | pushing (source : UInt8) (payload : Bytes) (slot : Fin types) (raw : RawMessage)
      (hraw : decodeWire payload = .ok raw) (hslot : M.slotForId raw.id = some slot) :
      Standing M ask (.ingest source payload) (.pushing slot raw)
  | notifying (source : UInt8) (payload : Bytes) (slot : Fin types) (raw : RawMessage)
      (hraw : decodeWire payload = .ok raw) (hslot : M.slotForId raw.id = some slot) :
      Standing M ask (.ingest source payload) (.notifying slot raw)
  | ingested (source : UInt8) (payload : Bytes) (slot : Fin types) (raw : RawMessage)
      (hraw : decodeWire payload = .ok raw) (hslot : M.slotForId raw.id = some slot) :
      Standing M ask (.ingest source payload) (.ingested (.ok ⟨source, raw.id, raw.body.length⟩))
  | failed (source : UInt8) (payload : Bytes) (e : IngestError) :
      Standing M ask (.ingest source payload) (.ingested (.error e))
  | popping (c : Call π) (slot : Fin types) (id : UInt16) (f : Filter π) (bodies : List Bytes)
      (seen : Nat) (hf : c.filter = some f) (hid : c.id? = some id)
      (hslot : M.slotForId id = some slot) :
      Standing M ask c (.popping slot id (after (Filter.ask ask) f bodies) seen)
  | waiting (c : Call π) (slot : Fin types) (id : UInt16) (f : Filter π) (bodies : List Bytes)
      (seen : Nat) (hf : c.filter = some f) (hid : c.id? = some id)
      (hslot : M.slotForId id = some slot) :
      Standing M ask c (.waiting slot id (after (Filter.ask ask) f bodies) seen)
  | received (c : Call π) (r : Except ErrorKind (Received maxBody)) (hf : c.filter.isSome = true) :
      Standing M ask c (.received r)
  | dropped (c : Call π) : Standing M ask c .dropped

theorem Standing.slot_eq {c : Call π} {pc : Pc types maxBody π} {k : Fin types}
    (h : Standing M ask c pc) (hk : pc.slot = some k) : c.slot M = some k := by
  cases h with
  | pushing _ _ _ _ hraw hslot | notifying _ _ _ _ hraw hslot =>
      rw [Call.slot_ingest hraw, hslot]
      exact hk
  | popping _ _ _ _ _ _ _ hid hslot | waiting _ _ _ _ _ _ _ hid hslot =>
      rw [Call.slot, hid, Option.bind_some, hslot]
      exact hk
  | ingested | failed | received | dropped => cases hk

/-- A call that has pushed is an `ingest` of a message its slot is for. -/
theorem Standing.of_pushed {c : Call π} {pc : Pc types maxBody π} (h : Standing M ask c pc)
    (hp : pc.pushed = true) : ∃ source payload raw slot, c = .ingest source payload ∧
      decodeWire payload = .ok raw ∧ M.slotForId raw.id = some slot := by
  cases h with
  | notifying source payload slot raw hraw hslot | ingested source payload slot raw hraw hslot =>
      exact ⟨source, payload, raw, slot, rfl, hraw, hslot⟩
  | pushing | failed | popping | waiting | received | dropped => cases hp

theorem standing_startIngest (source : UInt8) (payload : Bytes) :
    Standing M ask (.ingest source payload) (startIngest M payload : Pc types maxBody π) := by
  unfold startIngest
  split
  · exact .failed _ _ _
  · next raw hraw =>
      split
      · exact .failed _ _ _
      · next slot hslot => exact .pushing _ _ slot raw hraw hslot

theorem startIngest_fresh (maxBody : Nat) (payload : Bytes) :
    (startIngest M payload : Pc types maxBody π).pushed = false ∧
      (startIngest M payload : Pc types maxBody π).took = false := by
  unfold startIngest
  split
  · exact ⟨rfl, rfl⟩
  · split <;> exact ⟨rfl, rfl⟩

/-- A receive call that has just been made. -/
theorem startRecv_case (ports : Fin types → Port depth maxBody) (id : UInt16) (f : Filter π) :
    startRecv M maxWaiters ports id f = (.received (.error .other), none) ∨
      ∃ slot, M.slotForId id = some slot ∧ startRecv M maxWaiters ports id f =
        (.popping slot id f 0, some (slot, { ports slot with receivers := (ports slot).receivers + 1 })) := by
  unfold startRecv
  split
  · exact .inl rfl
  · next slot hslot =>
      simp only
      split
      · exact .inr ⟨slot, hslot, rfl⟩
      · exact .inl rfl

/-- The actions there are: `push` and `pop` under the lock, the notification, the
wake-up, and a call that is dropped where it is suspended. -/
inductive Acts (ask : π → Bytes → Bool × π) (source : UInt8) (port : Port depth maxBody) :
    Pc types maxBody π → Pc types maxBody π → Port depth maxBody → Effect → Prop
  | push (slot : Fin types) (raw : RawMessage) (pc' : Pc types maxBody π) (port' : Port depth maxBody)
      (e : Effect) (hlock : onPushLock source slot raw port = (pc', port', e)) :
      Acts ask source port (.pushing slot raw) pc' port' e
  | notify (slot : Fin types) (raw : RawMessage) :
      Acts ask source port (.notifying slot raw) (.ingested (.ok ⟨source, raw.id, raw.body.length⟩))
        { port with version := port.version + 1 } .none
  | pop (slot : Fin types) (id : UInt16) (f : Filter π) (seen : Nat) (pc' : Pc types maxBody π)
      (port' : Port depth maxBody) (e : Effect)
      (hlock : onPopLock ask source slot id f seen port = (pc', port', e)) :
      Acts ask source port (.popping slot id f seen) pc' port' e
  | wake (slot : Fin types) (id : UInt16) (f : Filter π) (seen : Nat) (hseen : seen < port.version) :
      Acts ask source port (.waiting slot id f seen) (.popping slot id f port.version) port .none
  | dropPushing (slot : Fin types) (raw : RawMessage) :
      Acts ask source port (.pushing slot raw) .dropped port .none
  | dropPopping (slot : Fin types) (id : UInt16) (f : Filter π) (seen : Nat) :
      Acts ask source port (.popping slot id f seen) .dropped
        { port with receivers := port.receivers - 1 } .none
  | dropWaiting (slot : Fin types) (id : UInt16) (f : Filter π) (seen : Nat) :
      Acts ask source port (.waiting slot id f seen) .dropped
        { port with receivers := port.receivers - 1 } .none

theorem Pc.acts_of_act {a : Action} {source : UInt8} {pc pc' : Pc types maxBody π}
    {port port' : Port depth maxBody} {e : Effect}
    (h : pc.act ask source a port = some (pc', port', e)) : Acts ask source port pc pc' port' e := by
  cases pc with
  | pushing slot raw =>
      cases a with
      | lock => exact .push slot raw pc' port' e (Option.some.inj h)
      | drop =>
          obtain ⟨rfl, rfl, rfl⟩ := h
          exact .dropPushing slot raw
      | notify | wake => cases h
  | notifying slot raw =>
      cases a with
      | notify =>
          obtain ⟨rfl, rfl, rfl⟩ := h
          exact .notify slot raw
      | lock | wake | drop => cases h
  | popping slot id f seen =>
      cases a with
      | lock => exact .pop slot id f seen pc' port' e (Option.some.inj h)
      | drop =>
          obtain ⟨rfl, rfl, rfl⟩ := h
          exact .dropPopping slot id f seen
      | notify | wake => cases h
  | waiting slot id f seen =>
      cases a with
      | wake =>
          simp only [Pc.act, Option.ite_none_right_eq_some, Option.some.injEq, Prod.mk.injEq] at h
          obtain ⟨hseen, rfl, rfl, rfl⟩ := h
          exact .wake slot id f seen hseen
      | drop =>
          obtain ⟨rfl, rfl, rfl⟩ := h
          exact .dropWaiting slot id f seen
      | notify | lock => cases h
  | ingested | received | dropped => cases a <;> cases h

/-- What an action can do: `quiet` leaves the messages of the port alone. -/
inductive ActCase (M : Maplet types) (ask : π → Bytes → Bool × π) (c : Call π)
    (port : Port depth maxBody) :
    Pc types maxBody π → Pc types maxBody π → Port depth maxBody → Effect → Prop
  | quiet (pc pc' : Pc types maxBody π) (port' : Port depth maxBody) (hbox : port'.box = port.box)
      (hstand : Standing M ask c pc') (hpushed : pc'.pushed = pc.pushed) (htook : pc'.took = false) :
      ActCase M ask c port pc pc' port' .none
  | push (source : UInt8) (payload : Bytes) (slot : Fin types) (raw : RawMessage)
      (box : Mailbox depth maxBody) (hc : c = .ingest source payload)
      (hraw : decodeWire payload = .ok raw) (hslot : M.slotForId raw.id = some slot)
      (hbox : box.entries = port.box.entries ++ [⟨source, raw.body⟩]) :
      ActCase M ask c port (.pushing slot raw) (.notifying slot raw) { port with box } .pushed
  | take (slot : Fin types) (id : UInt16) (f : Filter π) (bodies : List Bytes) (seen i : Nat)
      (found : MailboxSlot maxBody) (box : Mailbox depth maxBody) (hf : c.filter = some f)
      (hid : c.id? = some id) (hslot : M.slotForId id = some slot)
      (hsearch : (search (TypeMailbox.askFrom (Filter.ask ask) c.source) port.box.entries
        (after (Filter.ask ask) f bodies)).1 = some i)
      (hfound : port.box.entries[i]? = some found.entry)
      (hbox : box.entries = port.box.entries.eraseIdx i) :
      ActCase M ask c port (.popping slot id (after (Filter.ask ask) f bodies) seen)
        (.received (.ok (.fromSlot c.source id found)))
        { port with box, receivers := port.receivers - 1 } (.took i)

/-- The bodies a search asks about. -/
theorem after_askFrom {f : Filter π} {source : UInt8} {es : List Entry} :
    after (TypeMailbox.askFrom (Filter.ask ask) source) f es =
      after (Filter.ask ask) f ((es.filter (·.source = source)).map Entry.body) := by
  induction es generalizing f with
  | nil => rfl
  | cons e es ih =>
      rw [after_cons, ih, TypeMailbox.askFrom]
      by_cases he : e.source = source
      · rw [if_pos he, List.filter_cons_of_pos (by simpa using he)]
        rfl
      · rw [if_neg he, List.filter_cons_of_neg (by simpa using he)]

/-- A lost search leaves the predicate in a state it can reach. -/
theorem search_reaches (f : Filter π) (source : UInt8) (es : List Entry) (bodies : List Bytes) :
    ∃ bodies', (search (TypeMailbox.askFrom (Filter.ask ask) source) es
      (after (Filter.ask ask) f bodies)).2 = after (Filter.ask ask) f bodies' := by
  obtain ⟨k, hk⟩ := search_state (TypeMailbox.askFrom (Filter.ask ask) source) es
    (after (Filter.ask ask) f bodies)
  rw [hk, after_askFrom, ← after_append]
  exact ⟨_, rfl⟩

theorem onPushLock_case {source : UInt8} {payload : Bytes} {slot : Fin types} {raw : RawMessage}
    (hraw : decodeWire payload = .ok raw) (hslot : M.slotForId raw.id = some slot)
    (port : Port depth maxBody) {pc' : Pc types maxBody π} {port' : Port depth maxBody} {e : Effect}
    (h : onPushLock source slot raw port = (pc', port', e)) :
    ActCase M ask (.ingest source payload) port (.pushing slot raw) pc' port' e := by
  rcases port.box.push_cases source raw.body with ⟨err, heq⟩ | ⟨box, heq, hentries⟩
  · rw [onPushLock, heq] at h
    obtain ⟨rfl, rfl, rfl⟩ := h
    exact .quiet _ _ _ rfl (.failed _ _ _) rfl rfl
  · rw [onPushLock, heq] at h
    obtain ⟨rfl, rfl, rfl⟩ := h
    exact .push source payload slot raw box rfl hraw hslot hentries

theorem onPopLock_case {c : Call π} {slot : Fin types} {id : UInt16} {f : Filter π}
    {bodies : List Bytes} {seen : Nat} (hf : c.filter = some f) (hid : c.id? = some id)
    (hslot : M.slotForId id = some slot) (port : Port depth maxBody) {pc' : Pc types maxBody π}
    {port' : Port depth maxBody} {e : Effect}
    (h : onPopLock ask c.source slot id (after (Filter.ask ask) f bodies) seen port =
      (pc', port', e)) :
    ActCase M ask c port (.popping slot id (after (Filter.ask ask) f bodies) seen) pc' port' e := by
  unfold onPopLock at h
  cases hs : (search (TypeMailbox.askFrom (Filter.ask ask) c.source) port.box.entries
      (after (Filter.ask ask) f bodies)).1 with
  | none =>
      rw [Mailbox.pop_none hs] at h
      obtain ⟨rfl, rfl, rfl⟩ := h
      obtain ⟨bodies', hreach⟩ := search_reaches f c.source port.box.entries bodies
      rw [hreach]
      exact .quiet _ _ _ rfl (.waiting c slot id f bodies' seen hf hid hslot) rfl rfl
  | some i =>
      obtain ⟨found, box, hpop, hfound, hbox⟩ := Mailbox.pop_some hs
      rw [hpop, hs] at h
      obtain ⟨rfl, rfl, rfl⟩ := h
      exact .take slot id f bodies seen i found box hf hid hslot hs hfound hbox

/-- **What an action can do.** -/
theorem Pc.act_case {c : Call π} {a : Action} {pc pc' : Pc types maxBody π}
    {port port' : Port depth maxBody} {e : Effect} (hstand : Standing M ask c pc)
    (h : pc.act ask c.source a port = some (pc', port', e)) :
    ActCase M ask c port pc pc' port' e := by
  cases Pc.acts_of_act h with
  | push slot raw _ _ _ hlock =>
      cases hstand with
      | pushing _ _ _ _ hraw hslot => exact onPushLock_case hraw hslot port hlock
  | notify slot raw =>
      cases hstand with
      | notifying source payload _ _ hraw hslot =>
          exact .quiet _ _ _ rfl (.ingested source payload slot raw hraw hslot) rfl rfl
  | pop slot id _ seen _ _ _ hlock =>
      cases hstand with
      | popping _ _ _ f bodies _ hf hid hslot => exact onPopLock_case hf hid hslot port hlock
  | wake slot id _ seen =>
      cases hstand with
      | waiting _ _ _ f bodies _ hf hid hslot =>
          exact .quiet _ _ _ rfl (.popping _ slot id f bodies _ hf hid hslot) rfl rfl
  | dropPushing | dropPopping | dropWaiting => exact .quiet _ _ _ rfl (.dropped _) rfl rfl

/-! ## Moves -/

namespace Interface

/-- The message of the `ingest` call `n`. -/
def entry (w : Interface types depth maxBody π) (n : Nat) : Option Entry :=
  (w.tasks n).bind (·.call.entry)

/-- The moves of task `n`. -/
inductive Move (M : Maplet types) (ask : π → Bytes → Bool × π)
    (w : Interface types depth maxBody π) (n : Nat) : Interface types depth maxBody π → Prop
  | quiet (t : Task types maxBody π) (ports : Fin types → Port depth maxBody)
      (hcall : ∀ t₀, w.tasks n = some t₀ → t.call = t₀.call)
      (hpushed : (w.tasks n).any (·.pc.pushed) = t.pc.pushed)
      (hopen : (w.tasks n).any (·.pc.took) = false) (htook : t.pc.took = false)
      (hstand : Standing M ask t.call t.pc)
      (hbox : ∀ k, (ports k).box = (w.ports k).box) :
      Move M ask w n { w with tasks := Function.update w.tasks n (some t), ports }
  | push (source : UInt8) (payload : Bytes) (slot : Fin types) (raw : RawMessage)
      (port : Port depth maxBody) (ht : w.tasks n = some ⟨.ingest source payload, .pushing slot raw⟩)
      (hraw : decodeWire payload = .ok raw) (hslot : M.slotForId raw.id = some slot)
      (hbox : port.box.entries = (w.ports slot).box.entries ++ [⟨source, raw.body⟩]) :
      Move M ask w n
        { tasks := Function.update w.tasks n (some ⟨.ingest source payload, .notifying slot raw⟩)
          ports := Function.update w.ports slot port
          pushes := w.pushes ++ [n]
          takes := w.takes }
  | take (c : Call π) (slot : Fin types) (id : UInt16) (f : Filter π) (bodies : List Bytes)
      (seen i : Nat) (found : MailboxSlot maxBody) (port : Port depth maxBody)
      (ht : w.tasks n = some ⟨c, .popping slot id (after (Filter.ask ask) f bodies) seen⟩)
      (hf : c.filter = some f) (hid : c.id? = some id) (hslot : M.slotForId id = some slot)
      (hsearch : (search (TypeMailbox.askFrom (Filter.ask ask) c.source) (w.ports slot).box.entries
        (after (Filter.ask ask) f bodies)).1 = some i)
      (hfound : (w.ports slot).box.entries[i]? = some found.entry)
      (hbox : port.box.entries = (w.ports slot).box.entries.eraseIdx i) :
      Move M ask w n
        { tasks := Function.update w.tasks n
            (some ⟨c, .received (.ok (.fromSlot c.source id found))⟩)
          ports := Function.update w.ports slot port
          pushes := w.pushes
          takes := w.takes ++ ((w.pending M slot)[i]?.map (n, ·)).toList }

theorem box_update {ports : Fin types → Port depth maxBody} {slot : Fin types}
    {port : Port depth maxBody} (h : port.box = (ports slot).box) (k : Fin types) :
    (Function.update ports slot port k).box = (ports k).box := by
  by_cases hk : k = slot
  · rw [hk, Function.update_self, h]
  · rw [Function.update_of_ne hk]

variable {w w' : Interface types depth maxBody π} {n : Nat}

/-- A new call has moved no message. -/
theorem Move.new {t : Task types maxBody π} {ports : Fin types → Port depth maxBody}
    (hnew : w.tasks n = none) (hpushed : t.pc.pushed = false) (htook : t.pc.took = false)
    (hstand : Standing M ask t.call t.pc) (hbox : ∀ k, (ports k).box = (w.ports k).box) :
    Move M ask w n { w with tasks := Function.update w.tasks n (some t), ports } := by
  refine .quiet t ports ?_ ?_ ?_ htook hstand hbox
  · rw [hnew]
    nofun
  · rw [hnew, hpushed]
    rfl
  · rw [hnew]
    rfl

theorem move_recv {c : Call π} {id : UInt16} {f : Filter π} {pc : Pc types maxBody π}
    {port : Option (Fin types × Port depth maxBody)} (hnew : w.tasks n = none)
    (hid : c.id? = some id) (hf : c.filter = some f)
    (h : startRecv M maxWaiters w.ports id f = (pc, port)) :
    Move M ask w n (w.put n ⟨c, pc⟩ port) := by
  rcases startRecv_case (M := M) w.ports id f with heq | ⟨slot, hslot, heq⟩
  · rw [heq] at h
    obtain ⟨rfl, rfl⟩ := h
    exact .new hnew rfl rfl (.received c _ (by rw [hf]; rfl)) fun _ ↦ rfl
  · rw [heq] at h
    obtain ⟨rfl, rfl⟩ := h
    exact .new hnew rfl rfl (.popping c slot id f [] 0 hf hid hslot) (box_update rfl)

/-- A call up to its first await. -/
theorem move_call {c : Call π} {pc : Pc types maxBody π}
    {port : Option (Fin types × Port depth maxBody)} (hnew : w.tasks n = none)
    (h : c.start M maxWaiters w.ports = (pc, port)) : Move M ask w n (w.put n ⟨c, pc⟩ port) := by
  cases c with
  | ingest source payload =>
      obtain ⟨rfl, rfl⟩ := h
      obtain ⟨hpushed, htook⟩ := startIngest_fresh (π := π) (M := M) maxBody payload
      exact .new hnew hpushed htook (standing_startIngest source payload) fun _ ↦ rfl
  | recvNext id source => exact move_recv hnew rfl rfl h
  | recvNextWhere id source p => exact move_recv hnew rfl rfl h

@[simp] theorem record_tasks (k : Fin types) (e : Effect) : (w.record M n k e).tasks = w.tasks := by
  cases e with
  | none | pushed | took => rfl

@[simp] theorem record_ports (k : Fin types) (e : Effect) : (w.record M n k e).ports = w.ports := by
  cases e with
  | none | pushed | took => rfl

/-- The shape of a move. -/
theorem step_cases {l : Label π} (h : w.step ask M maxWaiters l = some w') :
    (∃ n c, l = .call n c ∧ w.tasks n = none ∧
      w' = w.put n ⟨c, (c.start M maxWaiters w.ports).1⟩ (c.start M maxWaiters w.ports).2) ∨
    ∃ n a t k pc port e, l = .act n a ∧ w.tasks n = some t ∧ t.pc.slot = some k ∧
      t.pc.act ask t.call.source a (w.ports k) = some (pc, port, e) ∧
      w' = (w.record M n k e).put n { t with pc } (some (k, port)) := by
  cases l with
  | call n c =>
      simp only [step, Option.ite_none_left_eq_some, Bool.not_eq_true, Option.isSome_eq_false_iff,
        Option.isNone_iff_eq_none, Option.some.injEq] at h
      exact .inl ⟨n, c, rfl, h.1, h.2.symm⟩
  | act n a =>
      simp only [step, Option.bind_eq_some_iff, Option.map_eq_some_iff] at h
      obtain ⟨t, ht, k, hk, ⟨pc, port, e⟩, hact, rfl⟩ := h
      exact .inr ⟨n, a, t, k, pc, port, e, rfl, ht, hk, hact, rfl⟩

/-- **A move leaves the messages where they are, pushes one, or takes one.** -/
theorem step_move {l : Label π} (hstand : ∀ n t, w.tasks n = some t → Standing M ask t.call t.pc)
    (h : w.step ask M maxWaiters l = some w') : Move M ask w l.task w' := by
  rcases step_cases h with ⟨n, c, rfl, hnew, rfl⟩ | ⟨n, a, ⟨c, pc⟩, k, pc', port', e, rfl, ht, hk, hact, rfl⟩
  · exact move_call hnew rfl
  · have hs := hstand n ⟨c, pc⟩ ht
    have hcase := Pc.act_case hs hact
    show Move M ask w n _
    cases hcase with
    | quiet _ _ _ hbox hstand' hpushed htook =>
        refine .quiet _ _ ?_ ?_ ?_ htook hstand' (box_update hbox)
        · intro t₀ ht₀
          rw [ht] at ht₀
          rw [← Option.some.inj ht₀]
        · rw [ht, Option.any_some, hpushed]
        · rw [ht, Option.any_some]
          cases hs <;> first | rfl | cases hk
    | push source payload slot raw box hc hraw hslot hbox =>
        obtain rfl := hc
        obtain rfl := Option.some.inj hk
        exact .push source payload slot raw _ ht hraw hslot hbox
    | take slot id f bodies seen i found box hf hid hslot hsearch hfound hbox =>
        obtain rfl := Option.some.inj hk
        exact .take c slot id f bodies seen i found _ ht hf hid hslot hsearch hfound hbox

/-- A call keeps its arguments. -/
theorem Move.call_eq (hm : Move M ask w n w') {m : Nat} {t : Task types maxBody π}
    (ht : w.tasks m = some t) : ∃ t', w'.tasks m = some t' ∧ t'.call = t.call := by
  have key : ∀ t', (∀ t₀, w.tasks n = some t₀ → t'.call = t₀.call) →
      ∃ t'', Function.update w.tasks n (some t') m = some t'' ∧ t''.call = t.call := by
    intro t' hcall
    by_cases hmn : m = n
    · obtain rfl := hmn
      exact ⟨t', Function.update_self _ _ _, hcall t ht⟩
    · exact ⟨t, (Function.update_of_ne hmn _ _).trans ht, rfl⟩
  cases hm with
  | quiet t' ports hcall => exact key t' hcall
  | push source payload slot raw port ht₀ =>
      refine key _ ?_
      intro t₁ ht₁
      rw [ht₀] at ht₁
      rw [← Option.some.inj ht₁]
  | take c slot id f bodies seen i found port ht₀ =>
      refine key _ ?_
      intro t₁ ht₁
      rw [ht₀] at ht₁
      rw [← Option.some.inj ht₁]

theorem Move.slot_eq (hm : Move M ask w n w') {m : Nat} (ht : (w.tasks m).isSome = true) :
    w'.slot M m = w.slot M m := by
  obtain ⟨t, ht⟩ := Option.isSome_iff_exists.mp ht
  obtain ⟨t', ht', hcall⟩ := hm.call_eq ht
  simp only [slot, ht, ht', Option.bind_some, hcall]

theorem Move.entry_eq (hm : Move M ask w n w') {m : Nat} (ht : (w.tasks m).isSome = true) :
    w'.entry m = w.entry m := by
  obtain ⟨t, ht⟩ := Option.isSome_iff_exists.mp ht
  obtain ⟨t', ht', hcall⟩ := hm.call_eq ht
  simp only [entry, ht, ht', Option.bind_some, hcall]

end Interface

end Thincan.Bus

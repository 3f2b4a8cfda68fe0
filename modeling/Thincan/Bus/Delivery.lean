import Mathlib.Data.List.InsertIdx
import Mathlib.Data.List.Nodup
import Thincan.Bus.Calls

/-!
# Delivery

Every message `ingest` has accepted is in one mailbox or was returned by one
receive call, and a receive call returns only what it asked for.  Everything
follows from the invariant `Interface.Inv`: the mailbox of each slot holds, in
the order of the pushes, the messages that were pushed for it and not taken.
-/

namespace Thincan.Bus

open Process

variable {types depth maxBody maxWaiters : Nat} {π : Type} {M : Maplet types}
  {ask : π → Bytes → Bool × π}

/-- The predicate accepts whatever it is asked about, whenever. -/
def Filter.AcceptsAll (ask : π → Bytes → Bool × π) (f : Filter π) : Prop :=
  ∀ bodies body, (Filter.ask ask (after (Filter.ask ask) f bodies) body).1 = true

/-- `__recv_next_capnp_from` accepts everything. -/
theorem Filter.acceptsAll_all : (.all : Filter π).AcceptsAll ask := by
  intro bodies body
  have hall : after (Filter.ask ask) .all bodies = .all := by
    induction bodies with
    | nil => rfl
    | cons b bs ih => exact ih
  rw [hall]
  rfl

theorem Call.source_of_entry {c : Call π} {e : Entry} (h : c.entry = some e) :
    c.source = e.source := by
  cases c with
  | ingest source payload =>
      obtain ⟨raw, -, rfl⟩ := Option.map_eq_some_iff.mp h
      rfl
  | recvNext | recvNextWhere => cases h

namespace Interface

variable {w w' : Interface types depth maxBody π} {n : Nat}

/-! ## The invariant -/

/-- The receive call `c` has returned `r`, which is the message with the given
source and payload. -/
structure Delivered (ask : π → Bytes → Bool × π) (c : Call π) (r : Received maxBody)
    (source : UInt8) (payload : Bytes) : Prop where
  /-- The call asked for the id of the message, and for its source. -/
  id : ∃ raw, decodeWire payload = .ok raw ∧ c.id? = some raw.id ∧ r.id = raw.id
  source_eq : c.source = source ∧ r.source = source
  /-- It returned the body. -/
  bytes : r.bytes = payload.drop headerLen
  /-- Its predicate, after some other questions, accepted the body. -/
  accepted : ∃ f bodies, c.filter = some f ∧
    (Filter.ask ask (after (Filter.ask ask) f bodies) (payload.drop headerLen)).1 = true

/-- **The invariant**: each mailbox holds what was pushed and not taken. -/
structure Inv (M : Maplet types) (ask : π → Bytes → Bool × π)
    (w : Interface types depth maxBody π) : Prop where
  standing : ∀ n t, w.tasks n = some t → Standing M ask t.call t.pc
  pushed : ∀ n, n ∈ w.pushes ↔ (w.tasks n).any (·.pc.pushed) = true
  nodup : w.pushes.Nodup
  boxes : ∀ k, (w.pending M k).map w.entry = (w.ports k).box.entries.map some
  taken : ∀ n ∈ w.takes.map Prod.snd, n ∈ w.pushes
  taken_nodup : (w.takes.map Prod.snd).Nodup
  took : ∀ m, m ∈ w.takes.map Prod.fst ↔ (w.tasks m).any (·.pc.took) = true
  took_nodup : (w.takes.map Prod.fst).Nodup
  routed : ∀ m n, (m, n) ∈ w.takes → ∃ c r source payload,
    w.tasks m = some ⟨c, .received (.ok r)⟩ ∧
      (w.tasks n).map Task.call = some (.ingest source payload) ∧
      Delivered ask c r source payload

theorem Inv.init : Inv M ask ({} : Interface types depth maxBody π) := by
  refine ⟨nofun, fun n ↦ ⟨nofun, nofun⟩, .nil, fun _ ↦ rfl, nofun, .nil, fun m ↦ ⟨nofun, nofun⟩,
    .nil, fun _ _ h ↦ absurd h List.not_mem_nil⟩

theorem Inv.isSome (hi : Inv M ask w) {m : Nat} (hm : m ∈ w.pushes) :
    (w.tasks m).isSome = true := Option.isSome_of_any ((hi.pushed m).mp hm)

theorem mem_pending {k : Fin types} :
    n ∈ w.pending M k ↔ n ∈ w.pushes ∧ w.slot M n = some k ∧ n ∉ w.takes.map Prod.snd := by
  simp only [pending, List.mem_filter, decide_eq_true_eq]

theorem Inv.pending_nodup (hi : Inv M ask w) (k : Fin types) : (w.pending M k).Nodup :=
  hi.nodup.filter _

/-- A task that moves has not returned a message. -/
theorem Move.not_took (hm : Move M ask w n w') : (w.tasks n).any (·.pc.took) = false := by
  cases hm with
  | quiet t ports hcall hpushed hopen => exact hopen
  | push source payload slot raw port ht =>
      rw [ht]
      rfl
  | take c slot id f bodies seen i found port ht =>
      rw [ht]
      rfl

theorem Move.tasks_of_ne (hm : Move M ask w n w') {m : Nat} (h : m ≠ n) :
    w'.tasks m = w.tasks m := by
  cases hm with
  | quiet | push | take => exact Function.update_of_ne h _ _

/-- What was delivered stays delivered. -/
theorem Inv.routed_of_move (hi : Inv M ask w) (hm : Move M ask w n w') {m a : Nat}
    (h : (m, a) ∈ w.takes) : ∃ c r source payload, w'.tasks m = some ⟨c, .received (.ok r)⟩ ∧
      (w'.tasks a).map Task.call = some (.ingest source payload) ∧
      Delivered ask c r source payload := by
  obtain ⟨c, r, source, payload, htm, hta, hdel⟩ := hi.routed m a h
  have hmn : m ≠ n := by
    rintro rfl
    have := hm.not_took
    rw [htm] at this
    cases this
  obtain ⟨t, ht, hcall⟩ := Option.map_eq_some_iff.mp hta
  obtain ⟨t', ht', hcall'⟩ := hm.call_eq ht
  refine ⟨c, r, source, payload, (hm.tasks_of_ne hmn).trans htm, ?_, hdel⟩
  rw [ht', Option.map_some, hcall', hcall]

/-- The slots of the messages pushed do not change. -/
theorem Inv.filter_slot (hi : Inv M ask w) (hm : Move M ask w n w') (k : Fin types)
    (taken : List Nat) :
    w.pushes.filter (fun m ↦ w'.slot M m = some k ∧ m ∉ taken) =
      w.pushes.filter (fun m ↦ w.slot M m = some k ∧ m ∉ taken) := by
  apply List.filter_congr
  intro m hmem
  rw [hm.slot_eq (hi.isSome hmem)]

theorem Inv.map_entry (hi : Inv M ask w) (hm : Move M ask w n w') {ms : List Nat}
    (hms : ∀ m ∈ ms, m ∈ w.pushes) : ms.map w'.entry = ms.map w.entry :=
  List.map_congr_left fun m hmem ↦ hm.entry_eq (hi.isSome (hms m hmem))

theorem any_update (tasks : Nat → Option (Task types maxBody π)) (n : Nat) (t : Task types maxBody π)
    (q : Task types maxBody π → Bool) (m : Nat) :
    (Function.update tasks n (some t) m).any q = if m = n then q t else (tasks m).any q := by
  by_cases hmn : m = n
  · rw [if_pos hmn, hmn, Function.update_self, Option.any_some]
  · rw [if_neg hmn, Function.update_of_ne hmn]

theorem standing_update (hstand : ∀ n t, w.tasks n = some t → Standing M ask t.call t.pc)
    {t : Task types maxBody π} (ht : Standing M ask t.call t.pc) :
    ∀ m t', Function.update w.tasks n (some t) m = some t' → Standing M ask t'.call t'.pc := by
  intro m t' h
  by_cases hmn : m = n
  · rw [hmn, Function.update_self] at h
    rw [← Option.some.inj h]
    exact ht
  · rw [Function.update_of_ne hmn] at h
    exact hstand m t' h

/-- A move that leaves the messages alone keeps the invariant. -/
theorem Inv.quiet (hi : Inv M ask w) {t : Task types maxBody π}
    {ports : Fin types → Port depth maxBody}
    (hm : Move M ask w n { w with tasks := Function.update w.tasks n (some t), ports })
    (hpushed : (w.tasks n).any (·.pc.pushed) = t.pc.pushed) (htook : t.pc.took = false)
    (hstand : Standing M ask t.call t.pc) (hbox : ∀ k, (ports k).box = (w.ports k).box) :
    Inv M ask { w with tasks := Function.update w.tasks n (some t), ports } := by
  constructor
  case standing => exact standing_update hi.standing hstand
  case pushed =>
    intro m
    rw [hi.pushed m, any_update]
    split
    · next hmn => rw [hmn, hpushed]
    · rfl
  case nodup => exact hi.nodup
  case boxes =>
    intro k
    have hpending : pending { w with tasks := Function.update w.tasks n (some t), ports } M k =
        w.pending M k := hi.filter_slot hm k _
    rw [hpending, hi.map_entry hm fun m hmem ↦ (mem_pending.mp hmem).1, hi.boxes k, hbox k]
  case taken => exact hi.taken
  case taken_nodup => exact hi.taken_nodup
  case took =>
    intro m
    rw [hi.took m, any_update]
    split
    · next hmn => rw [hmn, hm.not_took, htook]
    · rfl
  case took_nodup => exact hi.took_nodup
  case routed => exact fun m a hmem ↦ hi.routed_of_move hm hmem

/-- A push keeps the invariant: its message joins the mailbox of its slot. -/
theorem Inv.push (hi : Inv M ask w) {source : UInt8} {payload : Bytes} {slot : Fin types}
    {raw : RawMessage} {port : Port depth maxBody}
    (ht : w.tasks n = some ⟨.ingest source payload, .pushing slot raw⟩)
    (hraw : decodeWire payload = .ok raw) (hslot : M.slotForId raw.id = some slot)
    (hbox : port.box.entries = (w.ports slot).box.entries ++ [⟨source, raw.body⟩]) :
    Inv M ask
      { tasks := Function.update w.tasks n (some ⟨.ingest source payload, .notifying slot raw⟩)
        ports := Function.update w.ports slot port
        pushes := w.pushes ++ [n]
        takes := w.takes } := by
  have hm : Move M ask w n _ := .push source payload slot raw port ht hraw hslot hbox
  set w' : Interface types depth maxBody π :=
    { tasks := Function.update w.tasks n (some ⟨.ingest source payload, .notifying slot raw⟩)
      ports := Function.update w.ports slot port
      pushes := w.pushes ++ [n]
      takes := w.takes }
  have hself : w'.tasks n = some ⟨.ingest source payload, .notifying slot raw⟩ :=
    Function.update_self _ _ _
  have hnot : n ∉ w.pushes := by
    intro hmem
    have := (hi.pushed n).mp hmem
    rw [ht] at this
    cases this
  have hslot' : w'.slot M n = some slot := by
    rw [Interface.slot, hself, Option.bind_some, Call.slot_ingest hraw, hslot]
  have hfree : n ∉ w.takes.map Prod.snd := fun h ↦ hnot (hi.taken n h)
  have hentry : w'.entry n = some ⟨source, raw.body⟩ := by
    rw [entry, hself, Option.bind_some, Call.entry_ingest hraw]
  constructor
  case standing => exact standing_update hi.standing (.notifying source payload slot raw hraw hslot)
  case pushed =>
    intro m
    rw [List.mem_append, List.mem_singleton, hi.pushed m, any_update]
    split
    · next hmn => exact ⟨fun _ ↦ rfl, fun _ ↦ .inr hmn⟩
    · next hmn => exact ⟨fun h ↦ h.resolve_right hmn, .inl⟩
  case nodup => exact List.nodup_append_comm.mpr (List.nodup_cons.mpr ⟨hnot, hi.nodup⟩)
  case boxes =>
    intro k
    have hpending : w'.pending M k = w.pending M k ++ if k = slot then [n] else [] := by
      rw [pending, List.filter_append, hi.filter_slot hm k]
      congr 1
      by_cases hk : k = slot
      · rw [if_pos hk]
        refine List.filter_cons_of_pos (decide_eq_true ⟨?_, hfree⟩)
        rw [hslot', hk]
      · rw [if_neg hk]
        apply List.filter_cons_of_neg
        intro h
        rw [decide_eq_true_eq, hslot'] at h
        exact hk (Option.some.inj h.1).symm
    rw [hpending, List.map_append, hi.map_entry hm fun m hmem ↦ (mem_pending.mp hmem).1, hi.boxes k,
      show w'.ports k = Function.update w.ports slot port k from rfl]
    by_cases hk : k = slot
    · obtain rfl := hk
      rw [if_pos rfl, List.map_singleton, hentry, Function.update_self, hbox, List.map_append,
        List.map_singleton]
    · rw [if_neg hk, List.map_nil, List.append_nil, Function.update_of_ne hk]
  case taken => exact fun m hmem ↦ List.mem_append_left _ (hi.taken m hmem)
  case taken_nodup => exact hi.taken_nodup
  case took =>
    intro m
    rw [hi.took m, any_update]
    split
    · next hmn =>
        rw [hmn, ht]
        rfl
    · rfl
  case took_nodup => exact hi.took_nodup
  case routed => exact fun m a hmem ↦ hi.routed_of_move hm hmem

/-- The message in a mailbox is the message of the call that put it there. -/
theorem Inv.entry_at (hi : Inv M ask w) {k : Fin types} {i : Nat} {e : Entry}
    (he : (w.ports k).box.entries[i]? = some e) :
    ∃ a, (w.pending M k)[i]? = some a ∧ w.entry a = some e := by
  have h := congrArg (·[i]?) (hi.boxes k)
  simp only [List.getElem?_map, he, Option.map_some, Option.map_eq_some_iff] at h
  exact h

/-- What a receive call takes is what it asked for. -/
theorem Inv.delivered (hi : Inv M ask w) {c : Call π} {slot : Fin types} {id : UInt16} {f : Filter π}
    {bodies : List Bytes} {i a : Nat} {found : MailboxSlot maxBody} (hf : c.filter = some f)
    (hid : c.id? = some id) (hslot : M.slotForId id = some slot)
    (hsearch : (search (TypeMailbox.askFrom (Filter.ask ask) c.source) (w.ports slot).box.entries
      (after (Filter.ask ask) f bodies)).1 = some i)
    (hfound : (w.ports slot).box.entries[i]? = some found.entry)
    (ha : (w.pending M slot)[i]? = some a) (hentry : w.entry a = some found.entry) :
    ∃ source payload, (w.tasks a).map Task.call = some (.ingest source payload) ∧
      Delivered ask c (.fromSlot c.source id found) source payload := by
  obtain ⟨hmem, hak, -⟩ := mem_pending.mp (List.mem_of_getElem? ha)
  obtain ⟨t, ht⟩ := Option.isSome_iff_exists.mp (hi.isSome hmem)
  have hp : t.pc.pushed = true := by
    have := (hi.pushed a).mp hmem
    rwa [ht, Option.any_some] at this
  obtain ⟨source, payload, raw, slot', hcall, hraw, hslot'⟩ := (hi.standing a t ht).of_pushed hp
  have hbody := body_of_decodeWire hraw
  -- the slot of the message is the slot of the call, so they are about the same id
  obtain rfl : slot' = slot := by
    rw [Interface.slot, ht, Option.bind_some, hcall, Call.slot_ingest hraw, hslot'] at hak
    exact Option.some.inj hak
  obtain rfl := Maplet.slotForId_inj hslot hslot'
  have hfe : found.entry = ⟨source, raw.body⟩ := by
    rw [entry, ht, Option.bind_some, hcall, Call.entry_ingest hraw] at hentry
    exact (Option.some.inj hentry).symm
  -- the search has stopped at it, so its source is right and the predicate has accepted it
  obtain ⟨e, he, hyes, -⟩ := search_eq_some.mp hsearch
  obtain rfl : found.entry = e := Option.some.inj (hfound.symm.trans he)
  rw [after_askFrom, ← after_append, hfe, TypeMailbox.askFrom] at hyes
  have hsource : source = c.source := by
    by_contra hne
    rw [if_neg hne] at hyes
    cases hyes
  rw [if_pos hsource, hbody] at hyes
  refine ⟨source, payload, by rw [ht, Option.map_some, hcall], ?_⟩
  exact ⟨⟨raw, hraw, hid, rfl⟩, ⟨hsource.symm, hsource.symm⟩,
    (congrArg Entry.body hfe).trans hbody, f, _, hf, hyes⟩

/-- Without its `i`-th element, a list without repetitions. -/
theorem filter_ne_getElem {as : List Nat} {i a : Nat} (hn : as.Nodup) (ha : as[i]? = some a) :
    as.filter (· ≠ a) = as.eraseIdx i := by
  obtain ⟨hlt, rfl⟩ := List.getElem?_eq_some_iff.mp ha
  rw [← hn.erase_getElem i hlt, hn.erase_eq_filter]
  apply List.filter_congr
  intro b _
  rw [Bool.eq_iff_iff, decide_eq_true_eq, bne_iff_ne]

/-- One more message is taken. -/
theorem filter_taken (m a : Nat) (k : Fin types) :
    (w.pushes.filter fun b ↦ w.slot M b = some k ∧ b ∉ (w.takes ++ [(m, a)]).map Prod.snd) =
      (w.pending M k).filter (· ≠ a) := by
  rw [pending, List.filter_filter]
  apply List.filter_congr
  intro b _
  rw [List.map_append, List.map_singleton, Bool.eq_iff_iff]
  simp only [List.mem_append, List.mem_singleton, not_or, decide_eq_true_eq, Bool.and_eq_true]
  tauto

/-- A message of one slot leaves the messages of the others alone. -/
theorem Inv.pending_without (hi : Inv M ask w) {slot : Fin types} {i a : Nat}
    (ha : (w.pending M slot)[i]? = some a) (k : Fin types) :
    (w.pending M k).filter (· ≠ a) =
      if k = slot then (w.pending M k).eraseIdx i else w.pending M k := by
  split
  · next hk =>
      obtain rfl := hk
      exact filter_ne_getElem (hi.pending_nodup k) ha
  · next hk =>
      have hslot := (mem_pending.mp (List.mem_of_getElem? ha)).2.1
      refine List.filter_eq_self.mpr fun m hm ↦ decide_eq_true ?_
      rintro rfl
      rw [(mem_pending.mp hm).2.1] at hslot
      exact hk (Option.some.inj hslot)

/-- A take keeps the invariant: its message leaves the mailbox of its slot. -/
theorem Inv.take (hi : Inv M ask w) {c : Call π} {slot : Fin types} {id : UInt16} {f : Filter π}
    {bodies : List Bytes} {seen i : Nat} {found : MailboxSlot maxBody} {port : Port depth maxBody}
    (ht : w.tasks n = some ⟨c, .popping slot id (after (Filter.ask ask) f bodies) seen⟩)
    (hf : c.filter = some f) (hid : c.id? = some id) (hslot : M.slotForId id = some slot)
    (hsearch : (search (TypeMailbox.askFrom (Filter.ask ask) c.source) (w.ports slot).box.entries
      (after (Filter.ask ask) f bodies)).1 = some i)
    (hfound : (w.ports slot).box.entries[i]? = some found.entry)
    (hbox : port.box.entries = (w.ports slot).box.entries.eraseIdx i) :
    Inv M ask
      { tasks := Function.update w.tasks n (some ⟨c, .received (.ok (.fromSlot c.source id found))⟩)
        ports := Function.update w.ports slot port
        pushes := w.pushes
        takes := w.takes ++ ((w.pending M slot)[i]?.map (n, ·)).toList } := by
  have hm := Move.take (w := w) c slot id f bodies seen i found port ht hf hid hslot hsearch hfound
    hbox
  obtain ⟨a, ha, hentry⟩ := hi.entry_at hfound
  rw [ha, Option.map_some, Option.toList_some] at hm ⊢
  obtain ⟨hmem, -, hfree⟩ := mem_pending.mp (List.mem_of_getElem? ha)
  have hstand : Standing M ask c (.received (.ok (.fromSlot c.source id found)) : Pc types maxBody π) :=
    .received c _ (by rw [hf]; rfl)
  constructor
  case standing => exact standing_update hi.standing hstand
  case pushed =>
    intro m
    rw [hi.pushed m, any_update]
    split
    · next hmn =>
        rw [hmn, ht]
        rfl
    · rfl
  case nodup => exact hi.nodup
  case boxes =>
    intro k
    rw [pending, hi.filter_slot hm k, filter_taken,
      hi.map_entry hm fun m hmem ↦ (mem_pending.mp (List.mem_filter.mp hmem).1).1,
      hi.pending_without ha]
    show _ = ((Function.update w.ports slot port k).box.entries).map some
    split
    · next hk =>
        obtain rfl := hk
        rw [← List.eraseIdx_map, hi.boxes k, Function.update_self, hbox, List.eraseIdx_map]
    · next hk => rw [hi.boxes k, Function.update_of_ne hk]
  case taken =>
    intro m hmem'
    rw [List.map_append, List.map_singleton, List.mem_append, List.mem_singleton] at hmem'
    rcases hmem' with h | rfl
    · exact hi.taken m h
    · exact hmem
  case taken_nodup =>
    rw [List.map_append, List.map_singleton]
    exact List.nodup_append_comm.mpr (List.nodup_cons.mpr ⟨hfree, hi.taken_nodup⟩)
  case took =>
    intro m
    rw [List.map_append, List.map_singleton, List.mem_append, List.mem_singleton, hi.took m,
      any_update]
    split
    · next hmn => exact ⟨fun _ ↦ rfl, fun _ ↦ .inr hmn⟩
    · next hmn => exact ⟨fun h ↦ h.resolve_right hmn, .inl⟩
  case took_nodup =>
    rw [List.map_append, List.map_singleton]
    refine List.nodup_append_comm.mpr (List.nodup_cons.mpr ⟨fun h ↦ ?_, hi.took_nodup⟩)
    have := (hi.took n).mp h
    rw [ht] at this
    cases this
  case routed =>
    intro m b hmem'
    rcases List.mem_append.mp hmem' with h | h
    · exact hi.routed_of_move hm h
    · obtain ⟨rfl, rfl⟩ := Prod.mk.inj (List.mem_singleton.mp h)
      obtain ⟨source, payload, hcall, hdel⟩ :=
        hi.delivered hf hid hslot hsearch hfound ha hentry
      obtain ⟨t, hta, htc⟩ := Option.map_eq_some_iff.mp hcall
      obtain ⟨t', hta', htc'⟩ := hm.call_eq hta
      refine ⟨c, _, source, payload, Function.update_self _ _ _, ?_, hdel⟩
      rw [hta', Option.map_some, htc', htc]

/-- **Every move keeps the invariant.** -/
theorem Inv.step (hi : Inv M ask w) (hm : Move M ask w n w') : Inv M ask w' := by
  cases hm with
  | quiet t ports hcall hpushed hopen htook hstand hbox =>
      exact hi.quiet (.quiet t ports hcall hpushed hopen htook hstand hbox) hpushed htook hstand hbox
  | push source payload slot raw port ht hraw hslot hbox => exact hi.push ht hraw hslot hbox
  | take c slot id f bodies seen i found port ht hf hid hslot hsearch hfound hbox =>
      exact hi.take ht hf hid hslot hsearch hfound hbox

/-- The invariant holds in every reachable state. -/
theorem Inv.of_reachable (hw : (machine ask M maxWaiters).Reachable {} w) : Inv M ask w :=
  hw.invariant .init fun _ _ _ hi hs ↦ hi.step (step_move hi.standing hs)

/-! ## Order -/

/-- The arguments of the call `n`. -/
def call (w : Interface types depth maxBody π) (n : Nat) : Option (Call π) :=
  (w.tasks n).map Task.call

theorem Move.call_of_isSome (hm : Move M ask w n w') {m : Nat} (h : (w.tasks m).isSome = true) :
    w'.call m = w.call m := by
  obtain ⟨t, ht⟩ := Option.isSome_iff_exists.mp h
  obtain ⟨t', ht', hcall⟩ := hm.call_eq ht
  rw [call, call, ht, ht', Option.map_some, Option.map_some, hcall]

/-- The invariant of the order: when a receive call that accepts everything has
taken a message, all older ones it could have taken had been taken before. -/
def Ordered (ask : π → Bytes → Bool × π) (w : Interface types depth maxBody π) : Prop :=
  ∀ t₁ m a t₂ p₁ p₂ c f, w.takes = t₁ ++ (m, a) :: t₂ → w.pushes = p₁ ++ a :: p₂ →
    w.call m = some c → c.filter = some f → f.AcceptsAll ask →
    ∀ b ∈ p₁, ∀ cb, w.call b = some cb → cb.id? = c.id? → cb.source = c.source →
      b ∈ t₁.map Prod.snd

theorem Inv.isSome_took (hi : Inv M ask w) {m : Nat} (hm : m ∈ w.takes.map Prod.fst) :
    (w.tasks m).isSome = true := Option.isSome_of_any ((hi.took m).mp hm)

/-- Calls that have to do with a message do not change. -/
theorem Ordered.of_move (hi : Inv M ask w) (ho : w.Ordered ask) (hm : Move M ask w n w')
    {t₁ t₂ : List (Nat × Nat)} {m a : Nat} {p₁ p₂ : List Nat} {c : Call π} {f : Filter π}
    (ht : w.takes = t₁ ++ (m, a) :: t₂) (hp : w.pushes = p₁ ++ a :: p₂) (hc : w'.call m = some c)
    (hf : c.filter = some f) (hall : f.AcceptsAll ask) {b : Nat} (hb : b ∈ p₁) {cb : Call π}
    (hcb : w'.call b = some cb) (hid : cb.id? = c.id?) (hsource : cb.source = c.source) :
    b ∈ t₁.map Prod.snd := by
  have hm' : m ∈ w.takes.map Prod.fst := by
    rw [ht]
    exact List.mem_map.mpr ⟨(m, a), List.mem_append_right _ List.mem_cons_self, rfl⟩
  have hb' : b ∈ w.pushes := by
    rw [hp]
    exact List.mem_append_left _ hb
  rw [hm.call_of_isSome (hi.isSome_took hm')] at hc
  rw [hm.call_of_isSome (hi.isSome hb')] at hcb
  exact ho t₁ m a t₂ p₁ p₂ c f ht hp hc hf hall b hb cb hcb hid hsource

/-- A receive call that accepts everything takes the oldest message there is for
it. -/
theorem Inv.oldest (hi : Inv M ask w) {c : Call π} {slot : Fin types} {id : UInt16} {f : Filter π}
    {bodies : List Bytes} {i a : Nat} (hall : f.AcceptsAll ask) (hid : c.id? = some id)
    (hslot : M.slotForId id = some slot)
    (hsearch : (search (TypeMailbox.askFrom (Filter.ask ask) c.source) (w.ports slot).box.entries
      (after (Filter.ask ask) f bodies)).1 = some i)
    (ha : (w.pending M slot)[i]? = some a) {p₁ p₂ : List Nat} (hp : w.pushes = p₁ ++ a :: p₂)
    {b : Nat} (hb : b ∈ p₁) {cb : Call π} (hcb : w.call b = some cb) (hidb : cb.id? = c.id?)
    (hsource : cb.source = c.source) : b ∈ w.takes.map Prod.snd := by
  by_contra hfree
  have hb' : b ∈ w.pushes := hp ▸ List.mem_append_left _ hb
  obtain ⟨t, ht, rfl⟩ := Option.map_eq_some_iff.mp hcb
  have hbk : w.slot M b = some slot := by
    simp only [Interface.slot, ht, Option.bind_some, Call.slot, hidb, hid, hslot]
  -- `b` stands before `a` in the mailbox
  obtain ⟨j, hj, hbj⟩ : ∃ j < i, (w.pending M slot)[j]? = some b := by
    have hsplit : w.pending M slot =
        p₁.filter (fun m ↦ w.slot M m = some slot ∧ m ∉ w.takes.map Prod.snd) ++
          (a :: p₂).filter (fun m ↦ w.slot M m = some slot ∧ m ∉ w.takes.map Prod.snd) := by
      rw [pending, hp, List.filter_append]
    have hbf : b ∈ p₁.filter (fun m ↦ w.slot M m = some slot ∧ m ∉ w.takes.map Prod.snd) :=
      List.mem_filter.mpr ⟨hb, decide_eq_true ⟨hbk, hfree⟩⟩
    obtain ⟨j, hj, hget⟩ := List.getElem_of_mem hbf
    refine ⟨j, ?_, ?_⟩
    · by_contra hij
      -- otherwise `a` would also occur among the messages before it
      have hai : a ∈ p₁.filter (fun m ↦ w.slot M m = some slot ∧ m ∉ w.takes.map Prod.snd) := by
        rw [hsplit, List.getElem?_append_left (by omega)] at ha
        exact List.mem_of_getElem? ha
      have hnodup := hi.nodup
      rw [hp] at hnodup
      exact (List.nodup_append.mp hnodup).2.2 a (List.mem_filter.mp hai).1 a List.mem_cons_self rfl
    · rw [hsplit, List.getElem?_append_left hj, List.getElem?_eq_getElem hj, hget]
  -- so the search has asked about it, and it was accepted
  obtain ⟨e, he⟩ : ∃ e, (w.ports slot).box.entries[j]? = some e ∧ w.entry b = some e := by
    have h := congrArg (·[j]?) (hi.boxes slot)
    simp only [List.getElem?_map, hbj, Option.map_some] at h
    obtain ⟨e, he, hbe⟩ := Option.map_eq_some_iff.mp h.symm
    exact ⟨e, he, hbe.symm⟩
  obtain ⟨-, -, -, hno⟩ := search_eq_some.mp hsearch
  have hrefused := hno j e hj he.1
  have hes : e.source = c.source := by
    have hbe := he.2
    simp only [entry, ht, Option.bind_some] at hbe
    rw [← hsource, Call.source_of_entry hbe]
  rw [after_askFrom, ← after_append, TypeMailbox.askFrom, if_pos hes, hall _ _] at hrefused
  cases hrefused

/-- **Every move keeps the order.** -/
theorem Ordered.step (hi : Inv M ask w) (ho : w.Ordered ask) (hm : Move M ask w n w') :
    w'.Ordered ask := by
  intro t₁ m a t₂ p₁ p₂ c f ht hp hc hf hall b hb cb hcb hid hsource
  have key : ∀ {t₂ p₁ p₂}, w.takes = t₁ ++ (m, a) :: t₂ → w.pushes = p₁ ++ a :: p₂ → b ∈ p₁ →
      b ∈ t₁.map Prod.snd :=
    fun ht hp hb ↦ ho.of_move hi hm ht hp hc hf hall hb hcb hid hsource
  cases hm with
  | quiet t ports => exact key ht hp hb
  | push source payload slot raw port ht₀ =>
      -- the new message comes last, and was not taken yet
      have hne : a ≠ n := by
        rintro rfl
        have hmem : a ∈ w.pushes := by
          refine hi.taken a (List.mem_map.mpr ⟨(m, a), ?_, rfl⟩)
          rw [show w.takes = _ from ht]
          exact List.mem_append_right _ List.mem_cons_self
        have := (hi.pushed a).mp hmem
        rw [ht₀] at this
        cases this
      rcases List.eq_nil_or_concat p₂ with rfl | ⟨p₂, n', rfl⟩
      · exact absurd (List.singleton_inj.mp (List.append_inj' hp rfl).2).symm hne
      · rw [List.concat_eq_append, ← List.cons_append, ← List.append_assoc] at hp
        exact key ht (List.append_inj' hp rfl).1 hb
  | take c₀ slot id f₀ bodies seen i found port ht₀ hf₀ hid₀ hslot hsearch hfound hbox =>
      obtain ⟨a₀, ha₀, -⟩ := hi.entry_at hfound
      simp only [ha₀, Option.map_some, Option.toList_some] at ht
      rcases List.eq_nil_or_concat t₂ with rfl | ⟨t₂, e, rfl⟩
      · obtain ⟨rfl, he⟩ := List.append_inj' ht rfl
        obtain ⟨rfl, rfl⟩ := Prod.mk.inj (List.singleton_inj.mp he)
        obtain rfl : c₀ = c := by
          simp only [call, Function.update_self, Option.map_some, Option.some.injEq] at hc
          exact hc
        obtain rfl := Option.some.inj (hf₀.symm.trans hf)
        have hb' : b ∈ w.pushes := (show w.pushes = _ from hp) ▸ List.mem_append_left _ hb
        rw [(Move.take c₀ slot id f₀ bodies seen i found port ht₀ hf₀ hid₀ hslot hsearch hfound
          hbox).call_of_isSome (hi.isSome hb')] at hcb
        exact hi.oldest hall hid₀ hslot hsearch ha₀ hp hb hcb hid hsource
      · rw [List.concat_eq_append, ← List.cons_append, ← List.append_assoc] at ht
        exact key (List.append_inj' ht rfl).1 hp hb

theorem Ordered.of_reachable (hw : (machine ask M maxWaiters).Reachable {} w) : w.Ordered ask := by
  refine hw.induction_on ?_ fun a l b ha ho hs ↦ ?_
  · intro t₁ m a t₂ p₁ p₂ c f ht
    exact absurd ht.symm (List.append_ne_nil_of_right_ne_nil _ (List.cons_ne_nil _ _))
  · have hi := Inv.of_reachable ha
    exact ho.step hi (step_move hi.standing hs)

end Interface

end Thincan.Bus

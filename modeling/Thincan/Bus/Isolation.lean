import Thincan.Bus.Delivery

/-!
# Message types do not interfere

Take a run and leave out every call that has to do with another message type:
what is left is a run, and the port of this type and all its calls end in the
same state (`Interface.isolated`).  So no message of one type delays or
displaces one of another.  In the same way a failed `ingest` can be left out of a
run, and then nothing at all has changed (`Interface.harmless`).

Both are one argument: a run keeps going without the calls outside a set, as long
as these do not touch the ports one looks at (`Interface.Agrees`).
-/

namespace Thincan.Bus

open Process

variable {types depth maxBody maxWaiters : Nat} {π : Type} {M : Maplet types}
  {ask : π → Bytes → Bool × π}

namespace Interface

variable {w w' v : Interface types depth maxBody π} {l : Label π} {n : Nat}

/-! ## What a move touches -/

/-- The slot whose port a move may change. -/
def Label.slot (M : Maplet types) (w : Interface types depth maxBody π) : Label π → Option (Fin types)
  | .call _ c => c.slot M
  | .act n _ => (w.tasks n).bind (·.pc.slot)

theorem start_congr {ports ports' : Fin types → Port depth maxBody} {c : Call π}
    (h : ∀ k, c.slot M = some k → ports' k = ports k) :
    c.start M maxWaiters ports' = c.start M maxWaiters ports := by
  have key : ∀ id f, c.id? = some id →
      startRecv (π := π) M maxWaiters ports' id f = startRecv M maxWaiters ports id f := by
    intro id f hid
    unfold startRecv
    split
    · rfl
    · next slot hslot =>
        have hk : c.slot M = some slot := by rw [Call.slot, hid, Option.bind_some, hslot]
        rw [h slot hk]
  cases c with
  | ingest => rfl
  | recvNext id source => exact key id .all rfl
  | recvNextWhere id source p => exact key id (.only p) rfl

/-- The port a new call has changed is that of its slot. -/
theorem start_slot {ports : Fin types → Port depth maxBody} {c : Call π} {k : Fin types}
    {port : Port depth maxBody} (h : (c.start M maxWaiters ports).2 = some (k, port)) :
    c.slot M = some k := by
  have key : ∀ id f, c.id? = some id →
      (startRecv (π := π) M maxWaiters ports id f).2 = some (k, port) → c.slot M = some k := by
    intro id f hid hstart
    rcases startRecv_case (M := M) ports id f with heq | ⟨slot, hslot, heq⟩
    · rw [heq] at hstart
      cases hstart
    · rw [heq] at hstart
      obtain ⟨rfl, -⟩ := Prod.mk.inj (Option.some.inj hstart)
      rw [Call.slot, hid, Option.bind_some, hslot]
  cases c with
  | ingest => cases h
  | recvNext id source => exact key id .all rfl h
  | recvNextWhere id source p => exact key id (.only p) rfl h

theorem put_ports_of_ne {t : Task types maxBody π} {port : Option (Fin types × Port depth maxBody)}
    {k : Fin types} (h : ∀ k' p, port = some (k', p) → k' ≠ k) : (w.put n t port).ports k = w.ports k := by
  cases port with
  | none => rfl
  | some kp =>
      obtain ⟨k', p⟩ := kp
      exact Function.update_of_ne (h k' p rfl).symm _ _

/-- A move changes only the port of its slot. -/
theorem step_ports {k : Fin types} (h : w.step ask M maxWaiters l = some w')
    (hk : l.slot M w ≠ some k) : w'.ports k = w.ports k := by
  rcases step_cases h with ⟨n, c, rfl, -, rfl⟩ | ⟨n, a, t, k', pc, port, e, rfl, ht, hk', -, rfl⟩
  · apply put_ports_of_ne
    intro k' p hp
    rintro rfl
    exact hk (start_slot hp)
  · rw [put_ports_of_ne, record_ports]
    intro k'' p hp
    obtain ⟨rfl, -⟩ := Prod.mk.inj (Option.some.inj hp)
    rintro rfl
    exact hk (by rw [Label.slot, ht, Option.bind_some, hk'])

/-! ## Leaving calls out -/

/-- `v` is `w` without the calls outside `keep`, as far as the ports of `slots`
are concerned. -/
structure Agrees (keep : Nat → Prop) [DecidablePred keep] (slots : Fin types → Prop)
    (w v : Interface types depth maxBody π) : Prop where
  ports : ∀ k, slots k → v.ports k = w.ports k
  tasks : ∀ n, v.tasks n = if keep n then w.tasks n else none

section Agrees

variable {keep : Nat → Prop} [DecidablePred keep] {slots : Fin types → Prop}

theorem Agrees.put (ha : Agrees keep slots w v) (hk : keep n) (t : Task types maxBody π)
    (port : Option (Fin types × Port depth maxBody)) :
    Agrees keep slots (w.put n t port) (v.put n t port) := by
  constructor
  · intro k hs
    cases port with
    | none => exact ha.ports k hs
    | some kp =>
        show Function.update v.ports kp.1 kp.2 k = Function.update w.ports kp.1 kp.2 k
        by_cases hkp : k = kp.1
        · rw [hkp, Function.update_self, Function.update_self]
        · rw [Function.update_of_ne hkp, Function.update_of_ne hkp, ha.ports k hs]
  · intro m
    show Function.update v.tasks n (some t) m = if keep m then Function.update w.tasks n (some t) m
      else none
    by_cases hmn : m = n
    · rw [hmn, Function.update_self, Function.update_self, if_pos hk]
    · rw [Function.update_of_ne hmn, Function.update_of_ne hmn, ha.tasks m]

theorem Agrees.record (ha : Agrees keep slots w v) (k : Fin types) (e : Effect) :
    Agrees keep slots (w.record M n k e) (v.record M n k e) := by
  constructor
  · rw [record_ports, record_ports]
    exact ha.ports
  · rw [record_tasks, record_tasks]
    exact ha.tasks

/-- A move of a kept call is also possible without the others. -/
theorem Agrees.kept (ha : Agrees keep slots w v) (h : w.step ask M maxWaiters l = some w')
    (hk : keep l.task) (hs : ∀ k, l.slot M w = some k → slots k) :
    ∃ v', v.step ask M maxWaiters l = some v' ∧ Agrees keep slots w' v' := by
  rcases step_cases h with ⟨n, c, rfl, hnew, rfl⟩ | ⟨n, a, t, k, pc, port, e, rfl, ht, hslot, hact, rfl⟩
  · have hnew' : v.tasks n = none := by rw [ha.tasks n, hnew, ite_self]
    have hstart : c.start M maxWaiters v.ports = c.start M maxWaiters w.ports :=
      start_congr fun k hck ↦ ha.ports k (hs k hck)
    refine ⟨v.put n ⟨c, (c.start M maxWaiters w.ports).1⟩ (c.start M maxWaiters w.ports).2, ?_,
      ha.put hk _ _⟩
    simp only [step, hnew', Option.isSome_none, Bool.false_eq_true, if_false, hstart]
  · have ht' : v.tasks n = some t := by rw [ha.tasks n, if_pos (show keep n from hk), ht]
    have hport : v.ports k = w.ports k := ha.ports k (hs k (by rw [Label.slot, ht, Option.bind_some, hslot]))
    refine ⟨(v.record M n k e).put n { t with pc } (some (k, port)), ?_, (ha.record k e).put hk _ _⟩
    simp only [step, ht', Option.bind_some, hslot, hport, hact, Option.map_some]

/-- A move of another call makes no difference, if it leaves the ports alone. -/
theorem Agrees.dropped (ha : Agrees keep slots w v) (h : w.step ask M maxWaiters l = some w')
    (hk : ¬keep l.task) (hports : ∀ k, slots k → w'.ports k = w.ports k) :
    Agrees keep slots w' v := by
  refine ⟨fun k hs ↦ (ha.ports k hs).trans (hports k hs).symm, ?_⟩
  intro m
  rw [ha.tasks m]
  by_cases hm : keep m
  · have hne : m ≠ l.task := fun h ↦ hk (h ▸ hm)
    rw [if_pos hm, if_pos hm]
    rcases step_cases h with ⟨n, c, rfl, -, rfl⟩ | ⟨n, a, t, k, pc, port, e, rfl, -, -, -, rfl⟩
    · exact (Function.update_of_ne hne _ _).symm
    · rw [← record_tasks (w := w)]
      exact (Function.update_of_ne hne _ _).symm
  · rw [if_neg hm, if_neg hm]

end Agrees

theorem step_isSome (h : w.step ask M maxWaiters l = some w') {m : Nat}
    (hm : (w.tasks m).isSome = true ∨ m = l.task) : (w'.tasks m).isSome = true := by
  have key : ∀ t n, (w.tasks m).isSome = true ∨ m = n →
      (Function.update w.tasks n (some t) m).isSome = true := by
    intro t n hm
    by_cases hmn : m = n
    · rw [hmn, Function.update_self]
      rfl
    · rw [Function.update_of_ne hmn]
      exact hm.resolve_right hmn
  rcases step_cases h with ⟨n, c, rfl, -, rfl⟩ | ⟨n, a, t, k, pc, port, e, rfl, -, -, -, rfl⟩
  · exact key _ n hm
  · have := key { t with pc } n hm
    rw [← record_tasks (w := w)] at this
    exact this

/-- Every call that occurs in a run is known at its end. -/
theorem exec_isSome {ls : List (Label π)}
    (h : (machine ask M maxWaiters).exec ({} : Interface types depth maxBody π) ls = some w) :
    ∀ l ∈ ls, (w.tasks l.task).isSome = true := by
  induction ls using List.reverseRecOn generalizing w with
  | nil => nofun
  | append_singleton ls l ih =>
      obtain ⟨a, ha, hb⟩ := Machine.exec_snoc.mp h
      intro l' hl'
      rcases List.mem_append.mp hl' with hl' | hl'
      · exact step_isSome hb (.inl (ih ha l' hl'))
      · rw [List.mem_singleton.mp hl']
        exact step_isSome hb (.inr rfl)

/-- A call that makes a move is about the slot whose port it may change. -/
theorem Inv.slot_of_step (hi : Inv M ask w) (h : w.step ask M maxWaiters l = some w') {k : Fin types}
    (hk : l.slot M w = some k) : w'.slot M l.task = some k := by
  rcases step_cases h with ⟨n, c, rfl, -, rfl⟩ | ⟨n, a, t, k', pc, port, e, rfl, ht, -, -, rfl⟩
  · show (Function.update w.tasks n _ n).bind _ = _
    rw [Function.update_self, Option.bind_some]
    exact hk
  · rw [Label.slot, ht, Option.bind_some] at hk
    show (Function.update (w.record M n k' e).tasks n _ n).bind _ = _
    rw [Function.update_self, Option.bind_some]
    exact (hi.standing n t ht).slot_eq hk

/-- **Message types do not interfere.**  Without the calls that are about other
slots, a run is still a run, and for this slot everything ends as it did. -/
theorem isolated (k : Fin types) {ls : List (Label π)}
    (h : (machine ask M maxWaiters).exec ({} : Interface types depth maxBody π) ls = some w) :
    ∃ v, (machine ask M maxWaiters).exec {} (ls.filter fun l ↦ w.slot M l.task = some k) = some v ∧
      Agrees (fun n ↦ w.slot M n = some k) (· = k) w v := by
  induction ls using List.reverseRecOn generalizing w with
  | nil =>
      obtain rfl := Option.some.inj h
      exact ⟨{}, rfl, fun _ _ ↦ rfl, fun n ↦ (ite_self none).symm⟩
  | append_singleton ls l ih =>
      obtain ⟨a, ha, hb⟩ := Machine.exec_snoc.mp h
      obtain ⟨v, hv, hagree⟩ := ih ha
      have hi := Inv.of_reachable ⟨ls, ha⟩
      have hm := step_move hi.standing hb
      -- the calls made so far have kept their slots
      have hfilter : ls.filter (fun l ↦ w.slot M l.task = some k) =
          ls.filter (fun l ↦ a.slot M l.task = some k) := by
        apply List.filter_congr
        intro l' hl'
        rw [hm.slot_eq (exec_isSome ha l' hl')]
      rw [← hfilter] at hv
      have hagree' : Agrees (fun n ↦ w.slot M n = some k) (· = k) a v := by
        refine ⟨hagree.ports, ?_⟩
        intro n
        rw [hagree.tasks n]
        cases ht : a.tasks n with
        | none => rw [ite_self, ite_self]
        | some t => rw [hm.slot_eq (by rw [ht]; rfl)]
      by_cases hk : w.slot M l.task = some k
      · obtain ⟨v', hv', hagree''⟩ := hagree'.kept hb hk fun k' hk' ↦ by
          have := hi.slot_of_step hb hk'
          rw [hk] at this
          exact (Option.some.inj this).symm
        exact ⟨v', Machine.exec_filter_pos hv (decide_eq_true hk) hv', hagree''⟩
      · refine ⟨v, Machine.exec_filter_neg hv (decide_eq_false hk), hagree'.dropped hb hk ?_⟩
        rintro _ rfl
        exact step_ports hb fun h ↦ hk (hi.slot_of_step hb h)

/-! ## Calls without effect -/

/-- The call `n` is an `ingest` that has put nothing into a mailbox, or was not
made. -/
def Harmless (w : Interface types depth maxBody π) (n : Nat) : Prop :=
  ∀ t, w.tasks n = some t → t.call.filter = none ∧ t.pc.pushed = false

theorem onPushLock_port {source : UInt8} {slot : Fin types} {raw : RawMessage}
    {port port' : Port depth maxBody} {pc : Pc types maxBody π} {e : Effect}
    (h : onPushLock source slot raw port = (pc, port', e)) (hp : pc.pushed = false) :
    port' = port := by
  rcases port.box.push_cases source raw.body with ⟨err, heq⟩ | ⟨box, heq, -⟩
  · rw [onPushLock, heq] at h
    obtain ⟨rfl, rfl, rfl⟩ := h
    rfl
  · rw [onPushLock, heq] at h
    obtain ⟨rfl, rfl, rfl⟩ := h
    cases hp

/-- What is harmless after a move was harmless before, and the move has changed no
port. -/
theorem Harmless.back (hi : Inv M ask w) (h : w.step ask M maxWaiters l = some w')
    (hh : w'.Harmless l.task) : w.Harmless l.task ∧ w'.ports = w.ports := by
  rcases step_cases h with ⟨n, c, rfl, hnew, rfl⟩ | ⟨n, a, t, k, pc, port, e, rfl, ht, hk, hact, rfl⟩
  · obtain ⟨hc, -⟩ := hh _ (Function.update_self n _ w.tasks)
    refine ⟨fun t ht ↦ absurd (hnew.symm.trans ht) nofun, ?_⟩
    cases c with
    | ingest => rfl
    | recvNext | recvNextWhere => cases hc
  · obtain ⟨hc, hp⟩ := hh { t with pc } (Function.update_self n _ _)
    obtain ⟨hpushed, hport⟩ : t.pc.pushed = false ∧ port = w.ports k := by
      have hs := hi.standing n t ht
      obtain ⟨c, pc₀⟩ := t
      cases Pc.acts_of_act hact with
      | push slot raw _ _ _ hlock =>
          obtain rfl := Option.some.inj hk
          exact ⟨rfl, onPushLock_port hlock hp⟩
      | dropPushing => exact ⟨rfl, rfl⟩
      | notify => cases hp
      -- a receive call has a filter
      | pop | dropPopping =>
          cases hs with
          | popping _ _ _ _ _ _ hf => exact nomatch hf.symm.trans hc
      | wake | dropWaiting =>
          cases hs with
          | waiting _ _ _ _ _ _ hf => exact nomatch hf.symm.trans hc
    constructor
    · intro t₀ ht₀
      obtain rfl := Option.some.inj (ht.symm.trans ht₀)
      exact ⟨hc, hpushed⟩
    · show Function.update (w.record M n k e).ports k port = w.ports
      rw [record_ports, hport, Function.update_eq_self]

/-- **A failed `ingest` changes nothing.**  Without it a run is still a run, and
all ports and all other calls end as they did. -/
theorem harmless (n : Nat) {ls : List (Label π)}
    (h : (machine ask M maxWaiters).exec ({} : Interface types depth maxBody π) ls = some w)
    (hh : w.Harmless n) :
    ∃ v, (machine ask M maxWaiters).exec {} (ls.filter fun l ↦ l.task ≠ n) = some v ∧
      Agrees (· ≠ n) (fun _ ↦ True) w v := by
  induction ls using List.reverseRecOn generalizing w with
  | nil =>
      obtain rfl := Option.some.inj h
      exact ⟨{}, rfl, fun _ _ ↦ rfl, fun n ↦ (ite_self none).symm⟩
  | append_singleton ls l ih =>
      obtain ⟨a, ha, hb⟩ := Machine.exec_snoc.mp h
      have hi := Inv.of_reachable ⟨ls, ha⟩
      by_cases hl : l.task = n
      · obtain rfl := hl
        obtain ⟨hback, hports⟩ := hh.back hi hb
        obtain ⟨v, hv, hagree⟩ := ih ha hback
        exact ⟨v, Machine.exec_filter_neg hv (decide_eq_false (not_not.mpr rfl)),
          hagree.dropped hb (not_not.mpr rfl) fun k _ ↦ by rw [hports]⟩
      · have hback : a.Harmless n := by
          intro t ht
          refine hh t ?_
          rw [(step_move hi.standing hb).tasks_of_ne (Ne.symm hl)]
          exact ht
        obtain ⟨v, hv, hagree⟩ := ih ha hback
        obtain ⟨v', hv', hagree'⟩ := hagree.kept hb hl fun _ _ ↦ trivial
        exact ⟨v', Machine.exec_filter_pos hv (decide_eq_true hl) hv', hagree'⟩

/-! ## The guarantees of the bus -/

/-- An element of the image of a list of pairs without repetitions comes from one
pair. -/
theorem eq_of_nodup_snd {ts : List (Nat × Nat)} (h : (ts.map Prod.snd).Nodup) {m m' a : Nat}
    (hm : (m, a) ∈ ts) (hm' : (m', a) ∈ ts) : m = m' :=
  congrArg Prod.fst (List.inj_on_of_nodup_map h hm hm' rfl)

theorem eq_of_nodup_fst {ts : List (Nat × Nat)} (h : (ts.map Prod.fst).Nodup) {m a a' : Nat}
    (ha : (m, a) ∈ ts) (ha' : (m, a') ∈ ts) : a = a' :=
  congrArg Prod.snd (List.inj_on_of_nodup_map h ha ha' rfl)

/-- A message that was accepted is in one mailbox or was returned once. -/
theorem Inv.conserved (hi : Inv M ask w) {t : Task types maxBody π} (ht : w.tasks n = some t)
    (hp : t.pc.pushed = true) :
    (∃! k, n ∈ w.pending M k) ∧ (∀ m, (m, n) ∉ w.takes) ∨
      (∀ k, n ∉ w.pending M k) ∧ ∃! m, (m, n) ∈ w.takes := by
  have hmem : n ∈ w.pushes := (hi.pushed n).mpr (by rw [ht, Option.any_some, hp])
  by_cases htaken : n ∈ w.takes.map Prod.snd
  · right
    obtain ⟨⟨m, a⟩, hma, rfl⟩ := List.mem_map.mp htaken
    refine ⟨fun k hk ↦ (mem_pending.mp hk).2.2 htaken, m, hma, ?_⟩
    intro m' hm'
    exact eq_of_nodup_snd hi.taken_nodup hm' hma
  · left
    obtain ⟨source, payload, raw, k, hcall, hraw, hslot⟩ := (hi.standing n t ht).of_pushed hp
    have hk : w.slot M n = some k := by
      rw [Interface.slot, ht, Option.bind_some, hcall, Call.slot_ingest hraw, hslot]
    refine ⟨⟨k, mem_pending.mpr ⟨hmem, hk, htaken⟩, fun k' hk' ↦ ?_⟩, fun m hm ↦ htaken ?_⟩
    · have h := (mem_pending.mp hk').2.1
      rw [hk] at h
      exact (Option.some.inj h).symm
    · exact List.mem_map.mpr ⟨(m, n), hm, rfl⟩

/-- Messages of one id and source leave in the order of their pushes, as far as
they are taken by calls that accept everything. -/
theorem Inv.inOrder (hi : Inv M ask w) (ho : w.Ordered ask) {m m' a b : Nat}
    (htakes : [(m, a), (m', b)].Sublist w.takes) {c : Call π} {f : Filter π} (hc : w.call m = some c)
    (hf : c.filter = some f) (hall : f.AcceptsAll ask) {ca cb : Call π} (hca : w.call a = some ca)
    (hcb : w.call b = some cb) (hid : ca.id? = cb.id?) (hsource : ca.source = cb.source) :
    [a, b].Sublist w.pushes := by
  obtain ⟨r₁, r₂, hr, hma, hmb⟩ := List.cons_sublist_iff.mp htakes
  obtain ⟨t₁, t₂, rfl⟩ := List.append_of_mem hma
  rw [List.append_assoc, List.cons_append] at hr
  have hmb' : (m', b) ∈ t₂ ++ r₂ := List.mem_append_right _ (List.singleton_sublist.mp hmb)
  have hma' : (m, a) ∈ w.takes := hr ▸ List.mem_append_right _ List.mem_cons_self
  have hnodup := hi.taken_nodup
  rw [hr, List.map_append, List.map_cons] at hnodup
  obtain ⟨-, hright, hdisjoint⟩ := List.nodup_append.mp hnodup
  have hbright : b ∈ (t₂ ++ r₂).map Prod.snd := List.mem_map.mpr ⟨(m', b), hmb', rfl⟩
  have hbpushed : b ∈ w.pushes := by
    refine hi.taken b ?_
    rw [hr, List.map_append, List.map_cons]
    exact List.mem_append_right _ (List.mem_cons_of_mem _ hbright)
  -- the id and the source of `a` are those its receive call asked for
  obtain ⟨c', r, source, payload, htm, hta, hdel⟩ := hi.routed m a hma'
  obtain rfl : c' = c := by
    rw [call, htm] at hc
    exact Option.some.inj hc
  obtain rfl : ca = .ingest source payload := Option.some.inj (hca.symm.trans hta)
  obtain ⟨raw, hraw, hcid, -⟩ := hdel.id
  have hida : (Call.ingest source payload : Call π).id? = c'.id? := by
    rw [Call.id?_ingest hraw, hcid]
  have hsourcea : source = c'.source := hdel.source_eq.1.symm
  obtain ⟨p₁, p₂, hp⟩ := List.append_of_mem (hi.taken a (List.mem_map.mpr ⟨(m, a), hma', rfl⟩))
  have hb := hbpushed
  rw [hp] at hb
  rcases List.mem_append.mp hb with hb | hb
  · have hbleft := ho t₁ m a (t₂ ++ r₂) p₁ p₂ c' f hr hp hc hf hall b hb cb hcb
      (hid.symm.trans hida) (hsource.symm.trans hsourcea)
    exact absurd rfl (hdisjoint b hbleft b (List.mem_cons_of_mem _ hbright))
  · rcases List.mem_cons.mp hb with rfl | hb
    · exact absurd hbright (List.nodup_cons.mp hright).1
    · rw [hp]
      exact (List.Sublist.cons_cons a (List.singleton_sublist.mpr hb)).trans
        (List.sublist_append_right _ _)

/-- What the bus guarantees in the state `w` at the end of the run `ls`. -/
structure Guarantee (ask : π → Bytes → Bool × π) (M : Maplet types) (maxWaiters : Nat)
    (ls : List (Label π)) (w : Interface types depth maxBody π) : Prop where
  /-- The mailboxes hold the messages that are pending, each once. -/
  boxes : ∀ k, (w.pending M k).Nodup ∧
    (w.pending M k).map w.entry = (w.ports k).box.entries.map some
  /-- An accepted message is pending in one mailbox, or was returned by one call. -/
  conserved : ∀ n c o, w.tasks n = some ⟨c, .ingested (.ok o)⟩ →
    (∃! k, n ∈ w.pending M k) ∧ (∀ m, (m, n) ∉ w.takes) ∨
      (∀ k, n ∉ w.pending M k) ∧ ∃! m, (m, n) ∈ w.takes
  /-- A receive call that returns a message returns one that was pushed. -/
  returned : ∀ m c r, w.tasks m = some ⟨c, .received (.ok r)⟩ → ∃! n, (m, n) ∈ w.takes
  /-- What it returns is what it asked for. -/
  routed : ∀ m n, (m, n) ∈ w.takes → ∃ c r source payload,
    w.tasks m = some ⟨c, .received (.ok r)⟩ ∧ w.call n = some (.ingest source payload) ∧
      Delivered ask c r source payload
  /-- Calls that accept everything take the messages of an id and a source in the
  order of their pushes. -/
  inOrder : ∀ m m' a b, [(m, a), (m', b)].Sublist w.takes → ∀ c f, w.call m = some c →
    c.filter = some f → f.AcceptsAll ask → ∀ ca cb, w.call a = some ca → w.call b = some cb →
    ca.id? = cb.id? → ca.source = cb.source → [a, b].Sublist w.pushes
  /-- Without everything about other message types, the port and the calls of one
  type end as they did. -/
  isolated : ∀ k, ∃ v, (machine ask M maxWaiters).exec {}
      (ls.filter fun l ↦ w.slot M l.task = some k) = some v ∧
    Agrees (fun n ↦ w.slot M n = some k) (· = k) w v
  /-- Without a failed `ingest`, all ports and all other calls end as they did. -/
  harmless : ∀ n c e, w.tasks n = some ⟨c, .ingested (.error e)⟩ → ∃ v,
    (machine ask M maxWaiters).exec {} (ls.filter fun l ↦ l.task ≠ n) = some v ∧
      Agrees (· ≠ n) (fun _ ↦ True) w v

/-- **Every run of the bus** loses no message, duplicates none and keeps their
order; message types do not interfere and failed calls leave no trace. -/
theorem run_guarantee (ask : π → Bytes → Bool × π) (M : Maplet types) (maxWaiters : Nat)
    (ls : List (Label π)) (w : Interface types depth maxBody π)
    (h : (machine ask M maxWaiters).exec {} ls = some w) : Guarantee ask M maxWaiters ls w := by
  have hi := Inv.of_reachable ⟨ls, h⟩
  have ho := Ordered.of_reachable ⟨ls, h⟩
  constructor
  case boxes => exact fun k ↦ ⟨hi.pending_nodup k, hi.boxes k⟩
  case conserved => exact fun n c o ht ↦ hi.conserved ht rfl
  case returned =>
    intro m c r ht
    have hmem : m ∈ w.takes.map Prod.fst := (hi.took m).mpr (by rw [ht]; rfl)
    obtain ⟨⟨m, a⟩, hma, rfl⟩ := List.mem_map.mp hmem
    exact ⟨a, hma, fun a' ha' ↦ eq_of_nodup_fst hi.took_nodup ha' hma⟩
  case routed => exact hi.routed
  case inOrder =>
    intro m m' a b htakes c f hc hf hall ca cb hca hcb hid hsource
    exact hi.inOrder ho htakes hc hf hall hca hcb hid hsource
  case isolated => exact fun k ↦ isolated k h
  case harmless =>
    intro n c e ht
    refine harmless n h ?_
    intro t ht'
    obtain rfl := Option.some.inj (ht.symm.trans ht')
    refine ⟨?_, rfl⟩
    have hs := hi.standing n _ ht
    cases hs
    rfl

/-- Two message types. -/
def twoTypes : Maplet 2 := ⟨#v[1, 2]⟩

/-- The predicate that waits for a given body. -/
def exactly (p body : Bytes) : Bool × Bytes := (body = p, p)

/-- Two messages fill a mailbox and a third is refused; the second is taken by a
call that waits for it, the first by one that accepts everything, and a call for
the other type is dropped. -/
def filteredRun : List (Label Bytes) :=
  [.call 0 (.ingest 0xAA [1, 0, 0x31]), .act 0 .lock, .call 1 (.ingest 0xAA [1, 0, 0x32]),
    .act 1 .lock, .act 0 .notify, .act 1 .notify, .call 2 (.ingest 0xAA [1, 0, 0x33]), .act 2 .lock,
    .call 3 (.recvNextWhere 1 0xAA [0x32]), .act 3 .lock, .call 4 (.recvNext 2 0xAA), .act 4 .lock,
    .act 4 .drop, .call 5 (.recvNext 1 0xAA), .act 5 .lock]

theorem run_guarantee_filtered : ∃ w : Interface 2 2 4 Bytes,
    (machine exactly twoTypes 4).exec {} filteredRun = some w ∧ w.takes = [(3, 1), (5, 0)] ∧
      Guarantee exactly twoTypes 4 filteredRun w := by
  have hexec : (machine exactly twoTypes 4).exec ({} : Interface 2 2 4 Bytes) filteredRun =
      some { ports := _, tasks := _, pushes := _, takes := _ } := rfl
  exact ⟨_, hexec, by decide, run_guarantee exactly twoTypes 4 filteredRun _ hexec⟩

end Interface

end Thincan.Bus

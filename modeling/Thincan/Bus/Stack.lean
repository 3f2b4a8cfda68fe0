import Thincan.Bus.Pump
import Thincan.Bus.Transmit

/-!
# Stations on a bus

Interfaces at different addresses, each with its sending half and its pumps, and a
transport between them.  Whatever one station has put on the wire can be received by
those it is for, at any later moment, any number of times or never; what the transport
promises is that it says who a payload is from and does not change it.

So everything a receive call returns is what a send call of that station has encoded
(`Stack.received_authentic`).  Where the transport also keeps the order and a station pumps one
payload at a time, messages are taken in the order they were sent (`Stack.received_in_order`):
a message is named by its place on the wire, so that two with the same body are not confused.
-/

namespace Thincan.Bus

open Process

variable {types depth maxBody : Nat} {π : Type}

/-- What the stations are: their maplets, and which functional addresses they listen to. -/
structure Wiring (types : Nat) (π : Type) where
  ask : π → Bytes → Bool × π
  maplet : UInt8 → Maplet types
  maxWaiters : Nat
  listens : (station functional : UInt8) → Bool

/-- A payload that was received: by which pump of which station, and which one on the wire of
its source it was. -/
structure Arrival where
  station : UInt8
  pump : Nat
  source : UInt8
  index : Nat
deriving DecidableEq, Repr

/-- The station `b` gets the payload. -/
def Pdu.reaches (W : Wiring types π) (p : Pdu) (b : UInt8) : Bool :=
  if p.functional then W.listens b p.dest else p.dest = b

/-- The move brings no payload. -/
def PumpLabel.quiet : PumpLabel π → Bool
  | .recv _ (.deliveredOne _ _) | .iface (.call _ (.ingest _ _)) => false
  | _ => true

/-- The stations. -/
structure Stack (types depth maxBody : Nat) (π : Type) where
  tx : UInt8 → Transmitter
  rx : UInt8 → Pumped types depth maxBody π := fun _ ↦ {}
  arrivals : List Arrival := []

namespace Stack

/-- A move of one half of a station, or a payload that is received. -/
inductive Label (π : Type) where
  | tx (a : UInt8) (l : SendLabel)
  | rx (b : UInt8) (l : PumpLabel π)
  | /-- The pump `n` of `b` receives what is number `i` on the wire of `a`. -/
    deliver (b : UInt8) (n : Nat) (a : UInt8) (i : Nat)

variable (s : Stack types depth maxBody π)

/-- One move. -/
def step (W : Wiring types π) : Label π → Option (Stack types depth maxBody π)
  | .tx a l => ((s.tx a).step l).map fun t ↦ { s with tx := Function.update s.tx a t }
  | .rx b l =>
      if l.quiet then
        ((s.rx b).step W.ask (W.maplet b) W.maxWaiters l).map fun r ↦
          { s with rx := Function.update s.rx b r }
      else none
  | .deliver b n a i =>
      ((s.tx a).wire[i]?.filter (·.reaches W b)).bind fun p ↦
        ((s.rx b).step W.ask (W.maplet b) W.maxWaiters (.recv n (.deliveredOne a p.payload))).map
          fun r ↦ { s with rx := Function.update s.rx b r, arrivals := s.arrivals ++ [⟨b, n, a, i⟩] }

/-- The stations as a machine. -/
def machine (W : Wiring types π) : Machine (Stack types depth maxBody π) (Label π) where
  step s l := s.step W l

/-! ## What a move can do -/

variable {s} {s' : Stack types depth maxBody π} {W : Wiring types π}

/-- The moves there are. -/
inductive Moves (W : Wiring types π) (s : Stack types depth maxBody π) :
    Label π → Stack types depth maxBody π → Prop
  | tx (a : UInt8) (l : SendLabel) (t : Transmitter) (hs : (s.tx a).step l = some t) :
      Moves W s (.tx a l) { s with tx := Function.update s.tx a t }
  | rx (b : UInt8) (l : PumpLabel π) (r : Pumped types depth maxBody π) (hq : l.quiet = true)
      (hs : (s.rx b).step W.ask (W.maplet b) W.maxWaiters l = some r) :
      Moves W s (.rx b l) { s with rx := Function.update s.rx b r }
  | deliver (b : UInt8) (n : Nat) (a : UInt8) (i : Nat) (p : Pdu) (r : Pumped types depth maxBody π)
      (hp : (s.tx a).wire[i]? = some p) (hreach : p.reaches W b = true)
      (hs : (s.rx b).step W.ask (W.maplet b) W.maxWaiters (.recv n (.deliveredOne a p.payload)) =
        some r) :
      Moves W s (.deliver b n a i)
        { s with rx := Function.update s.rx b r, arrivals := s.arrivals ++ [⟨b, n, a, i⟩] }

theorem moves_of_step {l : Label π} (h : s.step W l = some s') : Moves W s l s' := by
  cases l with
  | tx a l =>
      obtain ⟨t, hs, rfl⟩ := Option.map_eq_some_iff.mp h
      exact .tx a l t hs
  | rx b l =>
      obtain ⟨hq, h⟩ := Option.ite_none_right_eq_some.mp h
      obtain ⟨r, hs, rfl⟩ := Option.map_eq_some_iff.mp h
      exact .rx b l r hq hs
  | deliver b n a i =>
      obtain ⟨p, hp, h⟩ := Option.bind_eq_some_iff.mp h
      obtain ⟨r, hs, rfl⟩ := Option.map_eq_some_iff.mp h
      obtain ⟨hp, hreach⟩ := Option.filter_eq_some_iff.mp hp
      exact .deliver b n a i p r hp hreach hs

end Stack

/-- What is on the wire stays there. -/
theorem Transmitter.wire_prefix {w w' : Transmitter} {l : SendLabel} (h : w.step l = some w') :
    w.wire <+: w'.wire := by
  obtain ⟨n, hm⟩ := Transmitter.moves_of_step h
  cases hm with
  | called | refused | locked | answered | dropLocking | dropSending => exact List.prefix_rfl
  | read => exact List.prefix_append _ _

/-- A call keeps its arguments. -/
theorem Transmitter.call_of_step {w w' : Transmitter} {l : SendLabel} (h : w.step l = some w')
    {m : Nat} {t : SendTask} (ht : w.tasks m = some t) : ∃ pc, w'.tasks m = some ⟨t.call, pc⟩ := by
  have key : ∀ n c pc, (∀ t₀, w.tasks n = some t₀ → t₀.call = c) →
      ∃ pc', Function.update w.tasks n (some ⟨c, pc⟩) m = some ⟨t.call, pc'⟩ := by
    intro n c pc hcall
    by_cases hm : m = n
    · obtain rfl := hm
      exact ⟨pc, by rw [Function.update_self, hcall t ht]⟩
    · exact ⟨t.pc, (Function.update_of_ne hm _ _).trans ht⟩
  obtain ⟨n, hm⟩ := Transmitter.moves_of_step h
  cases hm with
  | called c hnew => exact key n c _ fun t₀ ht₀ ↦ nomatch hnew.symm.trans ht₀
  | refused c e buf ht' | locked c len buf ht' | read c len k out sent ht'
  | answered c len out r ht' | dropLocking c ht' | dropSending c len out ht' =>
      refine key n c _ fun t₀ ht₀ ↦ ?_
      rw [← Option.some.inj (ht'.symm.trans ht₀)]

/-- A call is not known before it is made. -/
theorem Transmitter.tasks_eq_none_of_step {w w' : Transmitter} {l : SendLabel} {m : Nat}
    (h : w.step l = some w') (ht : w.tasks m = none) (hl : ∀ c, l ≠ .call m c) : w'.tasks m = none := by
  have key : ∀ {n : Nat} {t : SendTask} (t' : Option SendTask), w.tasks n = some t →
      Function.update w.tasks n t' m = none := by
    intro n t t' hn
    rw [Function.update_of_ne, ht]
    rintro rfl
    cases ht.symm.trans hn
  cases l with
  | call n c =>
      obtain ⟨-, h⟩ := Option.ite_none_left_eq_some.mp h
      obtain rfl := Option.some.inj h
      have hne : m ≠ n := fun hm ↦ hl c (by rw [hm])
      exact (Function.update_of_ne hne _ _).trans ht
  | lock n =>
      simp only [step] at h
      split at h
      · next c hn =>
          obtain ⟨-, h⟩ := Option.ite_none_right_eq_some.mp h
          obtain rfl := Option.some.inj h
          unfold onLock
          split <;> exact key _ hn
      · cases h
  | read n k =>
      simp only [step] at h
      split at h
      · next c len out hn =>
          obtain ⟨-, h⟩ := Option.ite_none_right_eq_some.mp h
          obtain rfl := Option.some.inj h
          exact key _ hn
      · cases h
  | answer n r =>
      simp only [step] at h
      split at h
      · next c len out hn =>
          split at h
          · obtain ⟨-, h⟩ := Option.ite_none_right_eq_some.mp h
            obtain rfl := Option.some.inj h
            exact key _ hn
          · obtain rfl := Option.some.inj h
            exact key _ hn
      · cases h
  | drop n =>
      simp only [step] at h
      split at h
      · next c hn =>
          obtain rfl := Option.some.inj h
          exact key _ hn
      · next c len out hn =>
          obtain rfl := Option.some.inj h
          exact key _ hn
      · cases h

/-- A call that is there after a move was there before, or was made by it. -/
theorem Transmitter.call_back {w w' : Transmitter} {l : SendLabel} {m : Nat} {t : SendTask}
    (h : w.step l = some w') (ht : w'.tasks m = some t) :
    (∃ pc, w.tasks m = some ⟨t.call, pc⟩) ∨ l = .call m t.call := by
  cases hm : w.tasks m with
  | some t₀ =>
      obtain ⟨pc, ht'⟩ := call_of_step h hm
      obtain rfl := Option.some.inj (ht.symm.trans ht')
      exact .inl ⟨t₀.pc, rfl⟩
  | none =>
      right
      by_cases hcall : ∃ c, l = .call m c
      · obtain ⟨c, rfl⟩ := hcall
        obtain ⟨-, h⟩ := Option.ite_none_left_eq_some.mp h
        obtain rfl := Option.some.inj h
        rcases Machine.update_cases ht with ⟨-, rfl⟩ | ⟨hne, -⟩
        · rfl
        · exact absurd rfl hne
      · cases (tasks_eq_none_of_step h hm fun c hc ↦ hcall ⟨c, hc⟩).symm.trans ht

namespace Interface

variable {M : Maplet types} {ask : π → Bytes → Bool × π} {maxWaiters : Nat}
  {w w' : Interface types depth maxBody π} {l : Label π} {n : Nat} {c : Call π}

theorem call_stays (h : w.step ask M maxWaiters l = some w') (hc : w.call n = some c) :
    w'.call n = some c := by
  obtain ⟨t, ht, rfl⟩ := Option.map_eq_some_iff.mp hc
  obtain ⟨pc, ht'⟩ := call_of_step h ht
  rw [call, ht', Option.map_some]

/-- A call that was made is there. -/
theorem call_of_label (h : w.step ask M maxWaiters (.call n c) = some w') : w'.call n = some c := by
  rcases step_cases h with ⟨_, _, hl, -, rfl⟩ | ⟨_, _, _, _, _, _, _, hl, -⟩
  · obtain ⟨rfl, rfl⟩ := Label.call.inj hl
    show (Function.update w.tasks n _ n).map Task.call = _
    rw [Function.update_self, Option.map_some]
  · cases hl

/-- A receive call that has returned a message has taken it. -/
theorem Inv.exists_take (hi : Inv M ask w) {r : Received maxBody}
    (ht : w.tasks n = some ⟨c, .received (.ok r)⟩) : ∃ m, (n, m) ∈ w.takes := by
  have hmem : n ∈ w.takes.map Prod.fst := (hi.took n).mpr (by rw [ht]; rfl)
  obtain ⟨⟨n, m⟩, hnm, rfl⟩ := List.mem_map.mp hmem
  exact ⟨m, hnm⟩

/-- A call that is there after a move was there before, or was made by it. -/
theorem call_back (h : w.step ask M maxWaiters l = some w') (hc : w'.call n = some c) :
    w.call n = some c ∨ l = .call n c := by
  obtain ⟨t', ht', rfl⟩ := Option.map_eq_some_iff.mp hc
  cases ht : w.tasks n with
  | some t =>
      obtain ⟨pc, ht''⟩ := call_of_step h ht
      obtain rfl := Option.some.inj (ht'.symm.trans ht'')
      exact .inl (by rw [call, ht, Option.map_some])
  | none =>
      right
      rcases step_cases h with ⟨m, c, rfl, -, rfl⟩ | ⟨m, a, t, k, pc, port, e, rfl, htm, -, -, rfl⟩
      · rcases Machine.update_cases ht' with ⟨rfl, rfl⟩ | ⟨-, ht'⟩
        · rfl
        · cases ht.symm.trans ht'
      · rcases Machine.update_cases ht' with ⟨rfl, -⟩ | ⟨-, ht'⟩
        · cases ht.symm.trans htm
        · rw [record_tasks, ht] at ht'
          cases ht'

end Interface

namespace Pumped

variable {M : Maplet types} {ask : π → Bytes → Bool × π} {maxWaiters : Nat}
  {w w' : Pumped types depth maxBody π} {l : PumpLabel π} {n : Nat}

theorem call_stays (h : w.step ask M maxWaiters l = some w') {c : Call π}
    (hc : w.iface.call n = some c) : w'.iface.call n = some c := by
  cases moves_of_step h with
  | called | locked | returned | dropLocking | dropReceiving => exact hc
  | received _ _ _ _ _ _ _ hs => exact Interface.call_stays hs hc
  | iface _ _ hs => exact Interface.call_stays hs hc

/-- A move that brings no payload. -/
theorem quiet_of_step (h : w.step ask M maxWaiters l = some w') (hq : l.quiet = true) :
    w'.arrived = w.arrived ∧ ∀ n source payload, w'.iface.call n = some (.ingest source payload) →
      w.iface.call n = some (.ingest source payload) := by
  cases moves_of_step h with
  | called | locked | returned | dropLocking | dropReceiving => exact ⟨rfl, fun _ _ _ hc ↦ hc⟩
  | received => cases hq
  | iface l iface hs hnew =>
      refine ⟨rfl, fun n source payload hc ↦ ?_⟩
      rcases Interface.call_back hs hc with hc | rfl
      · exact hc
      · cases hq

/-- A move that brings a payload. -/
theorem received_of_step {a : UInt8} {payload : Bytes}
    (h : w.step ask M maxWaiters (.recv n (.deliveredOne a payload)) = some w') :
    w'.arrived = w.arrived ++ [n] ∧ w'.iface.call n = some (.ingest a payload) ∧
      ∀ m source payload', w'.iface.call m = some (.ingest source payload') →
        w.iface.call m = some (.ingest source payload') ∨ m = n := by
  cases moves_of_step h with
  | returned _ _ _ _ _ hr =>
      rcases hr with ⟨hr, -⟩ | ⟨hr, -⟩ | ⟨needed, got, hr, -⟩ <;> cases hr
  | received _ bufLen _ _ iface hp hlen hs =>
      refine ⟨rfl, Interface.call_of_label hs, fun m source payload' hc ↦ ?_⟩
      rcases Interface.call_back hs hc with hc | hl
      · exact .inl hc
      · exact .inr (Interface.Label.call.inj hl).1.symm

end Pumped

namespace Stack

variable {s s' : Stack types depth maxBody π} {W : Wiring types π} {buf : UInt8 → Bytes}

/-! ## The invariant -/

/-- **The invariant**: every half of every station has a run of its own, and every payload that
has arrived is on the wire of its source. -/
structure Inv (W : Wiring types π) (buf : UInt8 → Bytes) (s : Stack types depth maxBody π) : Prop where
  tx : ∀ a, Transmitter.machine.Reachable { buf := buf a } (s.tx a)
  rx : ∀ b, (Pumped.machine W.ask (W.maplet b) W.maxWaiters).Reachable {} (s.rx b)
  arrived : ∀ b, (s.arrivals.filter (·.station = b)).map Arrival.pump = (s.rx b).arrived
  carried : ∀ x ∈ s.arrivals, ∃ p, (s.tx x.source).wire[x.index]? = some p ∧
    p.reaches W x.station = true ∧
    (s.rx x.station).iface.call x.pump = some (.ingest x.source p.payload)
  ingests : ∀ b n source payload, (s.rx b).iface.call n = some (.ingest source payload) →
    n ∈ (s.rx b).arrived

theorem Inv.init (W : Wiring types π) (buf : UInt8 → Bytes) :
    Inv W buf ({ tx := fun a ↦ { buf := buf a } } : Stack types depth maxBody π) :=
  ⟨fun _ ↦ .refl _, fun _ ↦ .refl _, fun _ ↦ rfl, nofun, nofun⟩

/-- What is on a wire stays there when a transmitter moves. -/
theorem wire_update {a a' : UInt8} {l : SendLabel} {t : Transmitter} {i : Nat} {p : Pdu}
    (hs : (s.tx a).step l = some t) (hp : (s.tx a').wire[i]? = some p) :
    (Function.update s.tx a t a').wire[i]? = some p := by
  by_cases ha : a' = a
  · obtain rfl := ha
    obtain ⟨rest, hrest⟩ := Transmitter.wire_prefix hs
    obtain ⟨hlt, -⟩ := List.getElem?_eq_some_iff.mp hp
    rw [Function.update_self, ← hrest, List.getElem?_append_left hlt, hp]
  · rw [Function.update_of_ne ha, hp]

/-- A call stays when the pumps of a station move. -/
theorem call_update {b b' : UInt8} {l : PumpLabel π} {r : Pumped types depth maxBody π} {n : Nat}
    {c : Call π} (hs : (s.rx b).step W.ask (W.maplet b) W.maxWaiters l = some r)
    (hc : (s.rx b').iface.call n = some c) : (Function.update s.rx b r b').iface.call n = some c := by
  by_cases hb : b' = b
  · obtain rfl := hb
    rw [Function.update_self]
    exact Pumped.call_stays hs hc
  · rw [Function.update_of_ne hb, hc]

/-- A receive call keeps its arguments. -/
theorem call_stays {l : Label π} (h : s.step W l = some s') {b : UInt8} {n : Nat} {c : Call π}
    (hc : (s.rx b).iface.call n = some c) : (s'.rx b).iface.call n = some c := by
  cases moves_of_step h with
  | tx => exact hc
  | rx _ _ _ _ hs => exact call_update hs hc
  | deliver _ _ _ _ _ _ _ _ hs => exact call_update hs hc

/-- A receive call that was made is there. -/
theorem call_of_label {b : UInt8} {n : Nat} {c : Call π}
    (h : s.step W (.rx b (.iface (.call n c))) = some s') : (s'.rx b).iface.call n = some c := by
  cases moves_of_step h with
  | rx _ _ r _ hs =>
      show (Function.update s.rx b r b).iface.call n = some c
      rw [Function.update_self]
      cases Pumped.moves_of_step hs with
      | iface _ iface hcall =>
          exact Interface.call_of_label hcall

/-- A send call that is there after a move was there before, or was made by it. -/
theorem send_back {l : Label π} (h : s.step W l = some s') {a : UInt8} {n : Nat} {t : SendTask}
    (ht : (s'.tx a).tasks n = some t) :
    (∃ pc, (s.tx a).tasks n = some ⟨t.call, pc⟩) ∨ l = .tx a (.call n t.call) := by
  cases moves_of_step h with
  | tx a' l w hs =>
      by_cases ha : a = a'
      · obtain rfl := ha
        have ht : (Function.update s.tx a w a).tasks n = some t := ht
        rw [Function.update_self] at ht
        rcases Transmitter.call_back hs ht with hback | rfl
        · exact .inl hback
        · exact .inr rfl
      · have ht : (Function.update s.tx a' w a).tasks n = some t := ht
        rw [Function.update_of_ne ha] at ht
        exact .inl ⟨t.pc, ht⟩
  | rx | deliver => exact .inl ⟨t.pc, ht⟩

theorem Inv.moves (hi : Inv W buf s) {l : Label π} (h : Moves W s l s') : Inv W buf s' := by
  cases h with
  | tx a l t hs =>
      refine { hi with tx := ?_, carried := ?_ }
      · exact (Function.forall_update_iff s.tx fun a t ↦
          Transmitter.machine.Reachable { buf := buf a } t).mpr ⟨(hi.tx a).tail hs, fun a' _ ↦ hi.tx a'⟩
      · intro x hx
        obtain ⟨p, hp, hreach, hcall⟩ := hi.carried x hx
        exact ⟨p, wire_update hs hp, hreach, hcall⟩
  | rx b l r hq hs =>
      obtain ⟨harrived, hback⟩ := Pumped.quiet_of_step hs hq
      refine { hi with rx := ?_, arrived := ?_, carried := ?_, ingests := ?_ }
      · exact (Function.forall_update_iff s.rx fun b r ↦
          (Pumped.machine W.ask (W.maplet b) W.maxWaiters).Reachable {} r).mpr
          ⟨(hi.rx b).tail hs, fun b' _ ↦ hi.rx b'⟩
      · exact (Function.forall_update_iff s.rx fun b r ↦
          (s.arrivals.filter (·.station = b)).map Arrival.pump = r.arrived).mpr
          ⟨(hi.arrived b).trans harrived.symm, fun b' _ ↦ hi.arrived b'⟩
      · intro x hx
        obtain ⟨p, hp, hreach, hcall⟩ := hi.carried x hx
        exact ⟨p, hp, hreach, call_update hs hcall⟩
      · exact (Function.forall_update_iff s.rx fun _ r ↦ ∀ n source payload,
          r.iface.call n = some (.ingest source payload) → n ∈ r.arrived).mpr
          ⟨fun n source payload hc ↦ harrived ▸ hi.ingests b n source payload (hback n source payload hc),
            fun b' _ ↦ hi.ingests b'⟩
  | deliver b n a i p r hp hreach hs =>
      obtain ⟨harrived, hcall, hback⟩ := Pumped.received_of_step hs
      refine { hi with rx := ?_, arrived := ?_, carried := ?_, ingests := ?_ }
      · exact (Function.forall_update_iff s.rx fun b r ↦
          (Pumped.machine W.ask (W.maplet b) W.maxWaiters).Reachable {} r).mpr
          ⟨(hi.rx b).tail (l := .recv n (.deliveredOne a p.payload)) hs, fun b' _ ↦ hi.rx b'⟩
      · refine (Function.forall_update_iff s.rx fun b' r ↦
          ((s.arrivals ++ [Arrival.mk b n a i]).filter (·.station = b')).map Arrival.pump = r.arrived).mpr
          ⟨?_, fun b' hb ↦ ?_⟩
        · rw [List.filter_append, List.map_append, hi.arrived b, harrived,
            List.filter_cons_of_pos (by simp), List.filter_nil, List.map_singleton]
        · rw [List.filter_append, List.map_append, hi.arrived b',
            List.filter_cons_of_neg (by simpa using hb.symm), List.filter_nil, List.map_nil,
            List.append_nil]
      · intro x hx
        rcases List.mem_append.mp hx with hx | hx
        · obtain ⟨p', hp', hreach', hcall'⟩ := hi.carried x hx
          exact ⟨p', hp', hreach', call_update hs hcall'⟩
        · obtain rfl := List.mem_singleton.mp hx
          refine ⟨p, hp, hreach, ?_⟩
          show (Function.update s.rx b r b).iface.call n = _
          rw [Function.update_self, hcall]
      · refine (Function.forall_update_iff s.rx fun _ r ↦ ∀ n source payload,
          r.iface.call n = some (.ingest source payload) → n ∈ r.arrived).mpr
          ⟨fun m source payload hc ↦ ?_, fun b' _ ↦ hi.ingests b'⟩
        rw [harrived, List.mem_append, List.mem_singleton]
        rcases hback m source payload hc with hc | rfl
        · exact .inl (hi.ingests b m source payload hc)
        · exact .inr rfl

theorem Inv.of_reachable (h : (machine W).Reachable
    ({ tx := fun a ↦ { buf := buf a } } : Stack types depth maxBody π) s) : Inv W buf s :=
  h.invariant (.init W buf) fun _ _ _ hi hs ↦ hi.moves (moves_of_step hs)

/-- The interface of a station has a run of its own. -/
theorem Inv.iface (hi : Inv W buf s) (b : UInt8) :
    Interface.Inv (W.maplet b) W.ask (s.rx b).iface ∧ (s.rx b).iface.Ordered W.ask := by
  obtain ⟨ks, hrun⟩ := hi.rx b
  have hreach := Pumped.exec_iface hrun
  exact ⟨.of_reachable ⟨_, hreach⟩, .of_reachable ⟨_, hreach⟩⟩

/-! ## What is received was sent -/

/-- What the station `b` has received as `r` is the payload `p` of the send call `t` of its
source. -/
structure Carried (W : Wiring types π) (buf : UInt8 → Bytes) (s : Stack types depth maxBody π)
    (b : UInt8) (r : Received maxBody) (p : Pdu) (t : SendTask) : Prop where
  wire : p ∈ (s.tx r.source).wire
  /-- It was sent to `b`, or to a functional address that `b` listens to, -/
  reaches : p.reaches W b = true
  /-- by a call for this message type, -/
  task : (s.tx r.source).tasks p.call = some t
  id_eq : t.call.id = r.id
  payload : t.call.Payload (buf r.source).length p.payload
  /-- and the body is the one that was encoded. -/
  decoded : decodeWire p.payload = .ok ⟨r.id, r.bytes⟩
  body_eq : ∀ body, t.call.value.Encodes body → r.bytes = body

/-- A message that was taken has arrived. -/
theorem Inv.arrival (hi : Inv W buf s) {b : UInt8} {m n : Nat} {c : Call π} {r : Received maxBody}
    (hm : (m, n) ∈ (s.rx b).iface.takes)
    (hr : (s.rx b).iface.tasks m = some ⟨c, .received (.ok r)⟩) :
    ∃ x ∈ s.arrivals, x.station = b ∧ x.pump = n ∧ x.source = r.source ∧
      ∃ p t, (s.tx r.source).wire[x.index]? = some p ∧
        (s.rx b).iface.call n = some (.ingest r.source p.payload) ∧ Carried W buf s b r p t := by
  obtain ⟨c', r', source, payload, hr', hcall, hdel⟩ := (hi.iface b).1.routed m n hm
  obtain ⟨rfl, hpc⟩ := Task.mk.inj (Option.some.inj (hr.symm.trans hr'))
  obtain rfl := Except.ok.inj (Pc.received.inj hpc)
  -- the `ingest` it was taken from is that of a pump
  have hn := hi.ingests b n source payload hcall
  rw [← hi.arrived b] at hn
  obtain ⟨x, hfilter, rfl⟩ := List.mem_map.mp hn
  obtain ⟨hx, hstation⟩ := List.mem_filter.mp hfilter
  obtain ⟨p, hp, hreach, hcall'⟩ := hi.carried x hx
  rw [of_decide_eq_true hstation] at hreach hcall'
  obtain ⟨rfl, rfl⟩ := Call.ingest.inj (Option.some.inj (hcall'.symm.trans hcall))
  have hsource : x.source = r.source := hdel.source_eq.2.symm
  rw [hsource] at hp
  -- its payload was put on the wire by one send call
  have hmem := List.mem_of_getElem? hp
  obtain ⟨t, ht, -, -, hpayload⟩ := (Transmitter.Inv.of_reachable (hi.tx r.source)).whole p hmem
  obtain ⟨body, hbody, -⟩ := hpayload.decodeWire
  obtain ⟨raw, hraw, -, hid⟩ := hdel.id
  obtain rfl := Except.ok.inj (hbody.symm.trans hraw)
  have hbytes : r.bytes = body := hdel.bytes.trans (body_of_decodeWire hbody).symm
  refine ⟨x, hx, of_decide_eq_true hstation, rfl, hsource, p, t, hp, hsource ▸ hcall, ?_⟩
  refine ⟨hmem, hreach, ht, hid.symm, hpayload, by rw [hbody, hid, hbytes], fun body' hbody' ↦ ?_⟩
  rw [hbytes]
  exact hpayload.body_eq hbody' hbody

/-- A message that a receive call has returned was sent. -/
theorem Inv.received (hi : Inv W buf s) {b : UInt8} {m : Nat} {c : Call π} {r : Received maxBody}
    (hr : (s.rx b).iface.tasks m = some ⟨c, .received (.ok r)⟩) :
    c.id? = some r.id ∧ c.source = r.source ∧ ∃ p t, Carried W buf s b r p t := by
  obtain ⟨n, hn⟩ := (hi.iface b).1.exists_take hr
  obtain ⟨c', r', source, payload, hr', hcall, hdel⟩ := (hi.iface b).1.routed m n hn
  obtain ⟨rfl, hpc⟩ := Task.mk.inj (Option.some.inj (hr.symm.trans hr'))
  obtain rfl := Except.ok.inj (Pc.received.inj hpc)
  obtain ⟨raw, -, hid, hrid⟩ := hdel.id
  obtain ⟨x, -, -, -, -, p, t, -, -, hcarried⟩ := hi.arrival hn hr
  exact ⟨hid.trans (congrArg some hrid.symm), hdel.source_eq.1.trans hdel.source_eq.2.symm, p, t,
    hcarried⟩

/-- **What is received was sent.**  Whatever the transport loses, repeats and reorders, and however
the calls of all stations are interleaved: a message that a receive call returns is the message of
one send call of the station it is said to be from, for the same type, and addressed here. -/
theorem received_authentic (W : Wiring types π) (buf : UInt8 → Bytes) (ls : List (Label π))
    (s : Stack types depth maxBody π)
    (h : (machine W).exec { tx := fun a ↦ { buf := buf a } } ls = some s) (b : UInt8) (m : Nat)
    (c : Call π) (r : Received maxBody)
    (hr : (s.rx b).iface.tasks m = some ⟨c, .received (.ok r)⟩) :
    c.id? = some r.id ∧ c.source = r.source ∧ ∃ p t, Carried W buf s b r p t :=
  (Inv.of_reachable ⟨ls, h⟩).received hr

/-! ## Order -/

/-- The transport gives `b` what `a` has sent in the order of the wire, nothing twice. -/
def Fifo (a b : UInt8) (arrivals : List Arrival) : Prop :=
  ((arrivals.filter fun x ↦ x.station = b ∧ x.source = a).map Arrival.index).Pairwise (· < ·)

/-- The station `b` calls one pump at a time. -/
def onePump (b : UInt8) (s : Stack types depth maxBody π) : Label π → Bool
  | .rx b' l => b' ≠ b || (s.rx b).oneAtATime l
  | _ => true

theorem ordered_of_meets {b : UInt8} {ls : List (Label π)}
    (h : (machine W).exec { tx := fun a ↦ { buf := buf a } } ls = some s)
    (hone : (machine W).Meets (fun (s : Stack types depth maxBody π) l ↦ onePump b s l = true)
      { tx := fun a ↦ { buf := buf a } } ls) : (s.rx b).Ordered := by
  have hkeep : ∀ (s : Stack types depth maxBody π) l s', (Inv W buf s ∧ (s.rx b).Ordered) →
      onePump b s l = true → (machine W).step s l = some s' → Inv W buf s' ∧ (s'.rx b).Ordered := by
    rintro s l s' ⟨hi, ho⟩ hG hs
    have hm := moves_of_step hs
    refine ⟨hi.moves hm, ?_⟩
    have hrx : ∀ b' l' r, (s.rx b').step W.ask (W.maplet b') W.maxWaiters l' = some r →
        (b' = b → (s.rx b).oneAtATime l' = true) → (Function.update s.rx b' r b).Ordered := by
      intro b' l' r hstep hG
      by_cases hb : b = b'
      · obtain rfl := hb
        obtain ⟨ks, hrun⟩ := hi.rx b
        rw [Function.update_self]
        exact ho.moves (.of_reachable ⟨ks, hrun⟩)
          (Interface.Inv.of_reachable ⟨_, Pumped.exec_iface hrun⟩) (hG rfl) (Pumped.moves_of_step hstep)
      · rw [Function.update_of_ne hb]
        exact ho
    cases hm with
    | tx a l t hstep => exact ho
    | rx b' l' r hq hstep =>
        refine hrx b' l' r hstep ?_
        rintro rfl
        rw [onePump, Bool.or_eq_true] at hG
        exact hG.resolve_left (by simp)
    | deliver b' n a i p r hp hreach hstep => exact hrx b' _ r hstep fun _ ↦ rfl
  exact (hone.invariant hkeep ⟨.init W buf, .init⟩ h).2

theorem mem_dropLast_of_sublist {α : Type} {x y : α} {ts : List α} (h : [x, y].Sublist ts) :
    x ∈ ts.dropLast := by
  induction ts with
  | nil => cases h
  | cons t ts ih =>
      cases h with
      | cons _ h =>
          rw [List.dropLast_cons_of_ne_nil (by rintro rfl; cases h)]
          exact List.mem_cons_of_mem _ (ih h)
      | cons_cons _ h =>
          rw [List.dropLast_cons_of_ne_nil (by rintro rfl; cases h)]
          exact List.mem_cons_self

/-- Payloads of one source that arrive one after the other are on the wire in that order. -/
theorem Inv.index_lt (hi : Inv W buf s) {a b : UInt8} (hfifo : Fifo a b s.arrivals) {x y : Arrival}
    (hx : x ∈ s.arrivals) (hy : y ∈ s.arrivals) (hxb : x.station = b) (hyb : y.station = b)
    (hxa : x.source = a) (hya : y.source = a) (h : [x.pump, y.pump].Sublist (s.rx b).arrived) :
    x.index < y.index := by
  obtain ⟨ks, hrun⟩ := hi.rx b
  have hnodup := (Pumped.Inv.of_reachable ⟨ks, hrun⟩).nodup
  rw [← hi.arrived b] at h hnodup
  have hmem : ∀ z ∈ s.arrivals, z.station = b → z ∈ s.arrivals.filter (·.station = b) :=
    fun z hz hzb ↦ List.mem_filter.mpr ⟨hz, decide_eq_true hzb⟩
  obtain ⟨zs, hzs, hmap⟩ := List.sublist_map_iff.mp h
  obtain ⟨z, zs, rfl, hz, hzs'⟩ := List.map_eq_cons_iff.mp hmap.symm
  obtain ⟨z', zs, rfl, hz', hnil⟩ := List.map_eq_cons_iff.mp hzs'
  obtain rfl := List.map_eq_nil_iff.mp hnil
  obtain rfl := List.inj_on_of_nodup_map hnodup (hzs.subset List.mem_cons_self) (hmem x hx hxb) hz
  obtain rfl := List.inj_on_of_nodup_map hnodup
    (hzs.subset (List.mem_cons_of_mem _ List.mem_cons_self)) (hmem y hy hyb) hz'
  have hboth := (hzs.trans List.filter_sublist).filter fun x ↦ x.station = b ∧ x.source = a
  have hself : [z, z'].filter (fun x ↦ x.station = b ∧ x.source = a) = [z, z'] := by
    simp [hxb, hxa, hyb, hya]
  rw [hself] at hboth
  have hpair := List.Pairwise.sublist (hboth.map Arrival.index) hfifo
  exact (List.pairwise_cons.mp hpair).1 _ List.mem_cons_self

/-- The take `x` of the station `b` has returned what had arrived as number `i` on the wire of
`a`. -/
structure Brought (W : Wiring types π) (buf : UInt8 → Bytes) (s : Stack types depth maxBody π)
    (a b : UInt8) (x : Nat × Nat) (i : Nat) : Prop where
  arrival : ⟨b, x.2, a, i⟩ ∈ s.arrivals
  carried : ∃ c r p t, (s.rx b).iface.tasks x.1 = some ⟨c, .received (.ok r)⟩ ∧ r.source = a ∧
    (s.tx a).wire[i]? = some p ∧ Carried W buf s b r p t

/-- The `ingest` behind a take. -/
theorem Brought.ingest (hi : Inv W buf s) {a b : UInt8} {x : Nat × Nat} {i : Nat}
    (h : Brought W buf s a b x i) {c : Call π} {r : Received maxBody}
    (hr : (s.rx b).iface.tasks x.1 = some ⟨c, .received (.ok r)⟩) : ∃ payload,
    (s.rx b).iface.call x.2 = some (.ingest a payload) ∧
      (Call.ingest a payload : Call π).id? = some r.id := by
  obtain ⟨c', r', p, t, hr', -, hp, hcarried⟩ := h.carried
  obtain ⟨-, hpc⟩ := Task.mk.inj (Option.some.inj (hr.symm.trans hr'))
  obtain rfl := Except.ok.inj (Pc.received.inj hpc)
  obtain ⟨p', hp', -, hcall⟩ := hi.carried _ h.arrival
  obtain rfl := Option.some.inj (hp.symm.trans hp')
  exact ⟨p.payload, hcall, Call.id?_ingest hcarried.decoded⟩

/-- Taken one after the other, so pushed, so arrived, so sent. -/
theorem Brought.lt (hi : Inv W buf s) {a b : UInt8} (ho : (s.rx b).Ordered)
    (hfifo : Fifo a b s.arrivals) {x y : Nat × Nat} {i j : Nat} (hx : Brought W buf s a b x i)
    (hy : Brought W buf s a b y j) (htakes : [x, y].Sublist (s.rx b).iface.takes) {c c' : Call π}
    {r r' : Received maxBody} (hr : (s.rx b).iface.tasks x.1 = some ⟨c, .received (.ok r)⟩)
    (hr' : (s.rx b).iface.tasks y.1 = some ⟨c', .received (.ok r')⟩) (hid : r.id = r'.id)
    {f : Filter π} (hf : c.filter = some f) (hall : f.AcceptsAll W.ask) : i < j := by
  obtain ⟨hiface, horder⟩ := hi.iface b
  obtain ⟨payload, hcall, hidx⟩ := hx.ingest hi hr
  obtain ⟨payload', hcall', hidy⟩ := hy.ingest hi hr'
  have hids : (Call.ingest a payload : Call π).id? = (Call.ingest a payload' : Call π).id? := by
    rw [hidx, hidy, hid]
  have hpushes := hiface.inOrder horder htakes (by rw [Interface.call, hr]; rfl) hf hall hcall hcall'
    hids rfl
  have harrived := ho.arrived_of_pushes (hi.ingests b _ _ _ hcall) (hi.ingests b _ _ _ hcall') hpushes
  exact hi.index_lt hfifo hx.arrival hy.arrival rfl rfl rfl rfl harrived

/-- **Messages arrive in the order they were sent.**  Over a transport that keeps the order of `a`
for `b`, where `b` pumps one payload at a time: let receive calls take messages of one type from
`a`, all but the last by calls that accept everything.  Each take has a place on the wire of `a`,
from where its payload was delivered.  The places grow in the order of the takes, and so the calls
of `a` had the lock in that order. -/
theorem received_in_order (W : Wiring types π) (buf : UInt8 → Bytes) (ls : List (Label π))
    (s : Stack types depth maxBody π)
    (h : (machine W).exec { tx := fun a ↦ { buf := buf a } } ls = some s) (a b : UInt8) (id : UInt16)
    (hone : (machine W).Meets (fun (s : Stack types depth maxBody π) l ↦ onePump b s l = true)
      { tx := fun a ↦ { buf := buf a } } ls)
    (hfifo : Fifo a b s.arrivals) (ts : List (Nat × Nat))
    (htakes : ts.Sublist (s.rx b).iface.takes)
    (hreceived : ∀ x ∈ ts, ∃ c r, (s.rx b).iface.tasks x.1 = some ⟨c, .received (.ok r)⟩ ∧
      r.source = a ∧ r.id = id)
    (hall : ∀ x ∈ ts.dropLast, ∃ c f, (s.rx b).iface.call x.1 = some c ∧ c.filter = some f ∧
      f.AcceptsAll W.ask) :
    ∃ index : Nat × Nat → Nat, (∀ x ∈ ts, Brought W buf s a b x (index x)) ∧
      (ts.map index).Pairwise (· < ·) ∧
      (((ts.map index).filterMap ((s.tx a).wire[·]?)).map Pdu.call).Sublist (s.tx a).locks := by
  have hi := Inv.of_reachable ⟨ls, h⟩
  have ho := ordered_of_meets h hone
  have hbrought : ∀ x, ∃ i, x ∈ ts → Brought W buf s a b x i := by
    intro x
    by_cases hx : x ∈ ts
    · obtain ⟨c, r, hr, rfl, -⟩ := hreceived x hx
      obtain ⟨y, hy, rfl, hpump, hsource, p, t, hp, -, hcarried⟩ := hi.arrival (htakes.subset hx) hr
      refine ⟨y.index, fun _ ↦ ⟨?_, c, r, p, t, hr, rfl, hp, hcarried⟩⟩
      rw [← hpump, ← hsource]
      exact hy
    · exact ⟨0, fun h ↦ absurd h hx⟩
  choose index hindex using hbrought
  have hpairwise : (ts.map index).Pairwise (· < ·) := by
    rw [List.pairwise_map, List.pairwise_iff_forall_sublist]
    intro x y hxy
    have hx := hxy.subset List.mem_cons_self
    have hy := hxy.subset (List.mem_cons_of_mem _ List.mem_cons_self)
    obtain ⟨c, r, hr, -, hid⟩ := hreceived x hx
    obtain ⟨c', r', hr', -, hid'⟩ := hreceived y hy
    obtain ⟨c'', f, hc, hf, hacc⟩ := hall x (mem_dropLast_of_sublist hxy)
    obtain rfl : c = c'' := by
      rw [Interface.call, hr] at hc
      exact Option.some.inj hc
    exact (hindex x hx).lt hi ho hfifo (hindex y hy) (hxy.trans htakes) hr hr'
      (hid.trans hid'.symm) hf hacc
  refine ⟨index, hindex, hpairwise, ?_⟩
  have hwire := filterMap_getElem?_sublist (s.tx a).wire hpairwise
  exact (hwire.map Pdu.call).trans (Transmitter.Inv.of_reachable (hi.tx a)).order

/-- Two stations with two message types, and a functional address everybody listens to. -/
def twoStations : Wiring 2 Bytes where
  ask := Interface.exactly
  maplet _ := Interface.twoTypes
  maxWaiters := 4
  listens _ functional := functional = 0xDF

/-- Station `0x11` sends two messages to `0x22`, which receives both and takes them. -/
def conversation : List (Label Bytes) :=
  [.tx 0x11 (.call 0 ⟨false, 0x22, 1, Transmitter.plain [7, 8]⟩), .tx 0x11 (.lock 0),
    .tx 0x11 (.read 0 4), .tx 0x11 (.answer 0 (.ok ())),
    .tx 0x11 (.call 1 ⟨true, 0xDF, 1, Transmitter.plain [9]⟩), .tx 0x11 (.lock 1),
    .tx 0x11 (.read 1 3), .rx 0x22 (.iface (.call 8 (.recvNext 1 0x11))), .rx 0x22 (.call 0 8),
    .rx 0x22 (.lock 0), .deliver 0x22 0 0x11 0, .rx 0x22 (.iface (.act 0 .lock)),
    .rx 0x22 (.iface (.act 8 .lock)), .rx 0x22 (.iface (.act 0 .notify)), .rx 0x22 (.call 1 8),
    .rx 0x22 (.lock 1), .deliver 0x22 1 0x11 1, .rx 0x22 (.iface (.act 1 .lock)),
    .rx 0x22 (.iface (.call 9 (.recvNext 1 0x11))), .rx 0x22 (.iface (.act 9 .lock))]

/-- The buffer of both stations. -/
def eightBytes : UInt8 → Bytes := fun _ ↦ List.replicate 8 0

/-- Where the conversation ends. -/
theorem conversation_end : ∃ s : Stack 2 2 4 Bytes,
    (machine twoStations).exec { tx := fun a ↦ { buf := eightBytes a } } conversation = some s ∧
      s.arrivals = [⟨0x22, 0, 0x11, 0⟩, ⟨0x22, 1, 0x11, 1⟩] ∧
      (s.rx 0x22).iface.takes = [(8, 0), (9, 1)] ∧
      (s.rx 0x22).iface.tasks 8 =
        some ⟨.recvNext 1 0x11, .received (.ok ⟨0x11, 1, 2, #v[7, 8, 0, 0]⟩)⟩ ∧
      (s.rx 0x22).iface.tasks 9 =
        some ⟨.recvNext 1 0x11, .received (.ok ⟨0x11, 1, 1, #v[9, 0, 0, 0]⟩)⟩ := by
  have hexec : (machine twoStations).exec
      ({ tx := fun a ↦ { buf := eightBytes a } } : Stack 2 2 4 Bytes) conversation =
      some { tx := _, rx := _, arrivals := _ } := rfl
  exact ⟨_, hexec, by decide, by decide, rfl, rfl⟩

theorem received_authentic_conversation : ∃ s : Stack 2 2 4 Bytes, ∃ c r,
    (machine twoStations).exec { tx := fun a ↦ { buf := eightBytes a } } conversation = some s ∧
      (s.rx 0x22).iface.tasks 9 = some ⟨c, .received (.ok r)⟩ ∧ r.bytes = [9] ∧ r.source = 0x11 ∧
      ∃ p t, Carried twoStations eightBytes s 0x22 r p t := by
  obtain ⟨s, hexec, -, -, -, hr⟩ := conversation_end
  exact ⟨s, _, _, hexec, hr, by decide, rfl,
    (received_authentic twoStations eightBytes conversation s hexec 0x22 9 _ _ hr).2.2⟩

/-- The two messages are told apart by their places on the wire. -/
theorem received_in_order_conversation : ∃ (s : Stack 2 2 4 Bytes) (index : Nat × Nat → Nat),
    (machine twoStations).exec { tx := fun a ↦ { buf := eightBytes a } } conversation = some s ∧
      Brought twoStations eightBytes s 0x11 0x22 (8, 0) (index (8, 0)) ∧
      Brought twoStations eightBytes s 0x11 0x22 (9, 1) (index (9, 1)) ∧
      index (8, 0) < index (9, 1) := by
  obtain ⟨s, hexec, harrivals, htakes, hr, hr'⟩ := conversation_end
  have hfifo : Fifo 0x11 0x22 s.arrivals := by
    rw [harrivals, Fifo]
    decide
  obtain ⟨index, hbrought, hpairwise, -⟩ := received_in_order twoStations eightBytes conversation s
    hexec 0x11 0x22 1 (by decide) hfifo [(8, 0), (9, 1)] (htakes ▸ .refl _)
    (List.forall_mem_cons.mpr ⟨⟨_, _, hr, rfl, rfl⟩,
      List.forall_mem_singleton.mpr ⟨_, _, hr', rfl, rfl⟩⟩)
    (List.forall_mem_singleton.mpr
      ⟨.recvNext 1 0x11, .all, by rw [Interface.call, hr]; rfl, rfl, Filter.acceptsAll_all⟩)
  exact ⟨s, index, hexec, hbrought _ List.mem_cons_self,
    hbrought _ (List.mem_cons_of_mem _ List.mem_cons_self),
    (List.pairwise_cons.mp hpairwise).1 _ List.mem_cons_self⟩

end Stack

end Thincan.Bus

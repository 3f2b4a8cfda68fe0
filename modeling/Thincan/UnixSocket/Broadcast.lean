import Thincan.UnixSocket.Server

/-!
# What a client of the bus server is sent

What the server sends to a client is a function of the commands it has handled, and of
nothing else: `stream`.  Each command adds to the stream what `emitted` says, where only
the commands before it count.  Whether a client is registered, and which filters judge the
frames for it, are read off the commands too (`registered`, `filtersIn`).

Filters set for a client that is not registered wait for it, and are forgotten when a
`RemoveClient` of that id comes first.
-/

namespace Thincan.UnixSocket

open Process

/-! ## What commands add up to -/

section Collect

variable {α β : Type} (g : List Command → Command → List α)

/-- What the commands contribute one after the other, each seeing those before it. -/
def collectFrom : (before cmds : List Command) → List α
  | _, [] => []
  | before, c :: cmds => g before c ++ collectFrom (before ++ [c]) cmds

theorem collectFrom_append (before cmds more : List Command) :
    collectFrom g before (cmds ++ more) =
      collectFrom g before cmds ++ collectFrom g (before ++ cmds) more := by
  induction cmds generalizing before with
  | nil => simp [collectFrom]
  | cons c cmds ih => simp [collectFrom, ih]

/-- Up to a command, the command, and after it. -/
theorem collectFrom_split (before : List Command) (c : Command) (after : List Command) :
    collectFrom g [] (before ++ c :: after) =
      collectFrom g [] before ++ (g before c ++ collectFrom g (before ++ [c]) after) := by
  rw [collectFrom_append, List.nil_append, collectFrom]

variable {g}

theorem mem_collectFrom {before cmds : List Command} {x : α} :
    x ∈ collectFrom g before cmds ↔ ∃ a c b, cmds = a ++ c :: b ∧ x ∈ g (before ++ a) c := by
  induction cmds generalizing before with
  | nil =>
      constructor
      · intro h
        cases h
      · rintro ⟨a, c, b, h, -⟩
        exact absurd h.symm (List.append_ne_nil_of_right_ne_nil _ (List.cons_ne_nil _ _))
  | cons d cmds ih =>
      rw [collectFrom, List.mem_append, ih]
      constructor
      · rintro (h | ⟨a, c, b, rfl, h⟩)
        · exact ⟨[], d, cmds, rfl, by simpa using h⟩
        · exact ⟨d :: a, c, b, rfl, by simpa using h⟩
      · rintro ⟨a, c, b, hsplit, h⟩
        cases a with
        | nil =>
            obtain ⟨rfl, rfl⟩ := List.cons.inj hsplit
            exact .inl (by simpa using h)
        | cons e a =>
            obtain ⟨rfl, rfl⟩ := List.cons.inj hsplit
            exact .inr ⟨a, c, b, rfl, by simpa using h⟩

theorem filterMap_collectFrom (f : α → Option β) (before cmds : List Command) :
    (collectFrom g before cmds).filterMap f =
      collectFrom (fun before c ↦ (g before c).filterMap f) before cmds := by
  induction cmds generalizing before with
  | nil => rfl
  | cons c cmds ih => rw [collectFrom, List.filterMap_append, ih, collectFrom]

theorem map_collectFrom (f : α → β) (before cmds : List Command) :
    (collectFrom g before cmds).map f = collectFrom (fun before c ↦ (g before c).map f) before cmds := by
  induction cmds generalizing before with
  | nil => rfl
  | cons c cmds ih => rw [collectFrom, List.map_append, ih, collectFrom]

/-- What is tagged with the number of its command comes in the order of the tags. -/
theorem pairwise_collectFrom {g : List Command → Command → List (Nat × α)}
    (htag : ∀ before c, ∀ x ∈ g before c, x.1 = before.length)
    (hone : ∀ before c, (g before c).Pairwise (·.1 < ·.1)) (before cmds : List Command) :
    (collectFrom g before cmds).Pairwise (·.1 < ·.1) := by
  induction cmds generalizing before with
  | nil => exact .nil
  | cons c cmds ih =>
      rw [collectFrom, List.pairwise_append]
      refine ⟨hone before c, ih (before ++ [c]), ?_⟩
      intro x hx y hy
      obtain ⟨a, d, b, -, hy⟩ := mem_collectFrom.mp hy
      rw [htag before c x hx, htag _ d y hy, List.length_append, List.length_append,
        List.length_singleton]
      omega

end Collect

/-! ## Clients and filters after some commands -/

/-- The last `AddClient` or `RemoveClient` of `id` is an `AddClient`. -/
def registered (id : ClientId) (cmds : List Command) : Bool :=
  cmds.foldl (fun r c ↦ match c with
    | .addClient j => if j = id then true else r
    | .removeClient j => if j = id then false else r
    | _ => r) false

/-- The last `SetFilters` of `id` with a sequence number, if no `RemoveClient` of `id`
follows it. -/
def epoch (id : ClientId) (cmds : List Command) : Option PendingFilters :=
  cmds.foldl (fun e c ↦ match c with
    | .setFilters j seq filters => if j = id ∧ seq ≠ 0 then some ⟨seq, filters⟩ else e
    | .removeClient j => if j = id then none else e
    | _ => e) none

/-- The filters of that `SetFilters`; no filters match everything. -/
def filtersIn (id : ClientId) (cmds : List Command) : List IdMaskFilter :=
  ((epoch id cmds).map PendingFilters.filters).getD []

/-- The client a command adds. -/
def Command.added : Command → Option ClientId
  | .addClient id => some id
  | _ => none

/-- A client other than `id` is registered. -/
def othersRegistered (id : ClientId) (cmds : List Command) : Bool :=
  (cmds.filterMap Command.added).any fun j ↦ j ≠ id && registered j cmds

/-! ## Streams -/

/-- The client is sent the frame of a `SendFrame` that comes after `before`. -/
def accepts (id : ClientId) (before : List Command) (frame : UnixFrame) : Bool :=
  registered id before && filtersMatch (filtersIn id before) frame

/-- What a command adds to the stream of client `id`. -/
def emitted (id : ClientId) (before : List Command) : Command → List ServerMsg
  | .addClient j =>
      if j = id then
        .hello :: ((epoch id before).map fun e ↦ .filtersAck e.seq ackOk).toList
      else []
  | .sendFrame j seq expectAck frame =>
      (if accepts id before frame then [.frame frame] else []) ++
        if j = id ∧ expectAck ∧ registered id before then
          [.ack seq (if othersRegistered id before then ackOk else ackNoAck)]
        else []
  | .setFilters j seq _ =>
      if j = id ∧ registered id before then
        [.filtersAck seq (if seq = 0 then ackServerErr else ackOk)]
      else []
  | .removeClient _ | .shutdown => []

/-- What commands add to the stream of client `id`, after those in `before`. -/
def streamFrom (id : ClientId) (before cmds : List Command) : List ServerMsg :=
  collectFrom (emitted id) before cmds

/-- All that client `id` is sent. -/
def stream (id : ClientId) (cmds : List Command) : List ServerMsg := streamFrom id [] cmds

theorem stream_snoc (id : ClientId) (cmds : List Command) (c : Command) :
    stream id (cmds ++ [c]) = stream id cmds ++ emitted id cmds c := by
  rw [stream, streamFrom, collectFrom_split, collectFrom, List.append_nil]
  rfl

theorem registered_snoc (id : ClientId) (cmds : List Command) (c : Command) :
    registered id (cmds ++ [c]) = match c with
      | .addClient j => if j = id then true else registered id cmds
      | .removeClient j => if j = id then false else registered id cmds
      | _ => registered id cmds := by
  rw [registered, List.foldl_append]
  rfl

theorem epoch_snoc (id : ClientId) (cmds : List Command) (c : Command) :
    epoch id (cmds ++ [c]) = match c with
      | .setFilters j seq filters => if j = id ∧ seq ≠ 0 then some ⟨seq, filters⟩ else epoch id cmds
      | .removeClient j => if j = id then none else epoch id cmds
      | _ => epoch id cmds := by
  rw [epoch, List.foldl_append]
  rfl

theorem filtersIn_snoc (id : ClientId) (cmds : List Command) (c : Command) :
    filtersIn id (cmds ++ [c]) = match c with
      | .setFilters j seq filters => if j = id ∧ seq ≠ 0 then filters else filtersIn id cmds
      | .removeClient j => if j = id then [] else filtersIn id cmds
      | _ => filtersIn id cmds := by
  rw [filtersIn, epoch_snoc]
  cases c with
  | addClient | sendFrame | shutdown => rfl
  | removeClient j =>
      dsimp only
      split
      · rfl
      · rfl
  | setFilters j seq filters =>
      dsimp only
      split
      · rfl
      · rfl

/-- Whoever is registered was added. -/
theorem added_of_registered {id : ClientId} {cmds : List Command} (h : registered id cmds = true) :
    id ∈ cmds.filterMap Command.added := by
  induction cmds using List.reverseRecOn with
  | nil => cases h
  | append_singleton cmds c ih =>
      rw [List.filterMap_append]
      rw [registered_snoc] at h
      cases c with
      | addClient j =>
          by_cases hj : j = id
          · exact List.mem_append_right _ (List.mem_singleton.mpr hj.symm)
          · dsimp only at h
            rw [if_neg hj] at h
            exact List.mem_append_left _ (ih h)
      | removeClient j =>
          dsimp only at h
          by_cases hj : j = id
          · rw [if_pos hj] at h
            cases h
          · rw [if_neg hj] at h
            exact List.mem_append_left _ (ih h)
      | sendFrame | setFilters | shutdown => exact List.mem_append_left _ (ih h)

theorem othersRegistered_iff {id : ClientId} {cmds : List Command} :
    othersRegistered id cmds = true ↔ ∃ j, j ≠ id ∧ registered j cmds = true := by
  rw [othersRegistered, List.any_eq_true]
  constructor
  · rintro ⟨j, -, hj⟩
    rw [Bool.and_eq_true, decide_eq_true_eq] at hj
    exact ⟨j, hj⟩
  · rintro ⟨j, hne, hreg⟩
    refine ⟨j, added_of_registered hreg, ?_⟩
    rw [hreg, Bool.and_true]
    exact decide_eq_true hne

/-! ## The server keeps track -/

/-- What the server holds after the commands `cmds`. -/
structure Tracks (cmds : List Command) (b : Bus) : Prop where
  clients : ∀ id, b.clients.lookup id =
    if registered id cmds = true then some ⟨filtersIn id cmds⟩ else none
  pending : ∀ id, b.pending.lookup id = if registered id cmds = true then none else epoch id cmds
  out : ∀ id, b.out id = stream id cmds

theorem tracks_nil : Tracks [] {} where
  clients _ := rfl
  pending _ := rfl
  out _ := rfl

section Maps

variable {V : Type} (m : AList fun _ : ClientId ↦ V) (id j : ClientId)

theorem lookup_insert_ite (v : V) :
    (m.insert j v).lookup id = if j = id then some v else m.lookup id := by
  split
  · next h =>
      subst h
      exact AList.lookup_insert m
  · next h => exact AList.lookup_insert_ne (Ne.symm h)

theorem lookup_erase_ite : (m.erase j).lookup id = if j = id then none else m.lookup id := by
  split
  · next h =>
      subst h
      exact AList.lookup_erase j m
  · next h => exact AList.lookup_erase_ne (Ne.symm h)

end Maps

section Send

variable {b : Bus} {id j : ClientId} {msg : ServerMsg}

@[simp] theorem send_clients : (b.send j msg).clients = b.clients := rfl
@[simp] theorem send_pending : (b.send j msg).pending = b.pending := rfl

theorem send_out : (b.send j msg).out id = b.out id ++ if j = id then [msg] else [] := by
  by_cases h : j = id
  · subst h
    rw [if_pos rfl]
    exact Function.update_self ..
  · rw [if_neg h, List.append_nil]
    exact Function.update_of_ne (fun he ↦ h he.symm) ..

end Send

section Broadcast

variable {b : Bus} {order : List ClientId} {frame : UnixFrame} {id : ClientId}

/-- The client is registered, and the frame passes its filters. -/
def Bus.wants (b : Bus) (frame : UnixFrame) (id : ClientId) : Bool :=
  (b.clients.lookup id).any fun c ↦ filtersMatch c.filters frame

theorem offer_out (acc : Bus) (i : ClientId) :
    (b.offer frame acc i).out id =
      acc.out id ++ if i = id ∧ b.wants frame id = true then [.frame frame] else [] := by
  unfold Bus.offer Bus.wants
  cases hc : b.clients.lookup i with
  | none =>
      have hno : ¬ (i = id ∧ ((b.clients.lookup id).any fun c ↦ filtersMatch c.filters frame) = true) := by
        rintro ⟨rfl, hany⟩
        rw [hc] at hany
        cases hany
      rw [if_neg hno, List.append_nil]
  | some client =>
      dsimp only
      by_cases hi : i = id
      · subst hi
        rw [hc]
        split
        · next hm => simp [send_out, hm]
        · next hm => simp [hm]
      · split
        · simp [send_out, hi]
        · simp [hi]

theorem offer_maps (acc : Bus) (i : ClientId) :
    (b.offer frame acc i).clients = acc.clients ∧ (b.offer frame acc i).pending = acc.pending := by
  unfold Bus.offer
  split
  · split
    · exact ⟨rfl, rfl⟩
    · exact ⟨rfl, rfl⟩
  · exact ⟨rfl, rfl⟩

/-- A walk over clients sends each of them the frame once, if it wants it. -/
theorem foldl_offer_out (order : List ClientId) (hnodup : order.Nodup) (acc : Bus) :
    (order.foldl (b.offer frame) acc).out id =
      acc.out id ++ if id ∈ order ∧ b.wants frame id = true then [.frame frame] else [] := by
  induction order generalizing acc with
  | nil => simp
  | cons i order ih =>
      obtain ⟨hi, hnodup⟩ := List.nodup_cons.mp hnodup
      rw [List.foldl_cons, ih hnodup, offer_out]
      by_cases hid : i = id
      · subst hid
        simp [hi]
      · have hne : ¬ id = i := fun h ↦ hid h.symm
        simp [hid, hne]

theorem foldl_offer_maps (order : List ClientId) (acc : Bus) :
    (order.foldl (b.offer frame) acc).clients = acc.clients ∧
      (order.foldl (b.offer frame) acc).pending = acc.pending := by
  induction order generalizing acc with
  | nil => exact ⟨rfl, rfl⟩
  | cons i order ih =>
      obtain ⟨hc, hp⟩ := ih (b.offer frame acc i)
      obtain ⟨hc', hp'⟩ := offer_maps acc i
      exact ⟨hc.trans hc', hp.trans hp'⟩

/-- `broadcast_frame` does not depend on the order of the walk. -/
theorem broadcastFrame_out (horder : order.Perm b.clients.keys) (id : ClientId) :
    (b.broadcastFrame order frame).out id =
      b.out id ++ if b.wants frame id = true then [.frame frame] else [] := by
  have hmem : b.wants frame id = true → id ∈ order := by
    intro hw
    rw [horder.mem_iff, ← AList.mem_keys, ← AList.lookup_isSome]
    unfold Bus.wants at hw
    cases hc : b.clients.lookup id with
    | none =>
        rw [hc] at hw
        cases hw
    | some => rfl
  rw [Bus.broadcastFrame, foldl_offer_out order (horder.nodup_iff.mpr b.clients.keys_nodup)]
  by_cases hw : b.wants frame id = true
  · rw [if_pos ⟨hmem hw, hw⟩, if_pos hw]
  · rw [if_neg fun h ↦ hw h.2, if_neg hw]

@[simp] theorem broadcastFrame_clients : (b.broadcastFrame order frame).clients = b.clients :=
  (foldl_offer_maps order b).1

@[simp] theorem broadcastFrame_pending : (b.broadcastFrame order frame).pending = b.pending :=
  (foldl_offer_maps order b).2

end Broadcast

namespace Tracks

variable {cmds : List Command} {b : Bus} {id j : ClientId} {order : List ClientId}

theorem isSome_lookup (h : Tracks cmds b) :
    (b.clients.lookup id).isSome = registered id cmds := by
  rw [h.clients]
  cases registered id cmds with
  | false | true => rfl

theorem mem_keys (h : Tracks cmds b) : id ∈ b.clients.keys ↔ registered id cmds = true := by
  rw [← h.isSome_lookup, ← AList.mem_keys, ← AList.lookup_isSome]

/-- The one client of a bus with at most one is alone. -/
theorem length_keys (h : Tracks cmds b) (hid : registered id cmds = true) :
    b.clients.keys.length ≤ 1 ↔ othersRegistered id cmds = false := by
  rw [← Bool.not_eq_true, othersRegistered_iff]
  have hmem := h.mem_keys.mpr hid
  constructor
  · rintro hlen ⟨j, hne, hj⟩
    have hj := h.mem_keys.mpr hj
    match hkeys : b.clients.keys, hlen with
    | [k], _ =>
        rw [hkeys, List.mem_singleton] at hj hmem
        exact hne (hj.trans hmem.symm)
    | [], _ =>
        rw [hkeys] at hmem
        cases hmem
  · intro hnone
    have hall : ∀ k ∈ b.clients.keys, k = id := by
      intro k hk
      by_contra hne
      exact hnone ⟨k, hne, h.mem_keys.mp hk⟩
    have hnodup := b.clients.keys_nodup
    rw [List.eq_replicate_of_mem hall] at hnodup
    exact List.nodup_replicate.mp hnodup

theorem wants (h : Tracks cmds b) (frame : UnixFrame) : b.wants frame id = accepts id cmds frame := by
  rw [Bus.wants, accepts, h.clients]
  cases registered id cmds with
  | false | true => rfl

theorem addClient (h : Tracks cmds b) (hj : registered j cmds = false) :
    Tracks (cmds ++ [.addClient j]) (b.handleCommand order (.addClient j)) := by
  have hp : b.pending.lookup j = epoch j cmds := by
    rw [h.pending, hj]
    rfl
  -- the message that goes with waiting filters changes no map
  have hmaps : (b.handleCommand order (.addClient j)).clients = b.clients.insert j ⟨filtersIn j cmds⟩ ∧
      (b.handleCommand order (.addClient j)).pending = b.pending.erase j ∧
      ∀ id, (b.handleCommand order (.addClient j)).out id =
        b.out id ++ emitted id cmds (.addClient j) := by
    simp only [Bus.handleCommand, hp]
    cases he : epoch j cmds with
    | none =>
        refine ⟨by simp only [filtersIn, he]; rfl, rfl, ?_⟩
        intro id
        dsimp only
        rw [send_out]
        by_cases hid : j = id
        · subst hid
          simp [emitted, he]
        · simp [emitted, hid]
    | some e =>
        refine ⟨by simp only [filtersIn, he]; rfl, rfl, ?_⟩
        intro id
        dsimp only
        rw [send_out, send_out]
        by_cases hid : j = id
        · subst hid
          simp [emitted, he]
        · simp [emitted, hid]
  obtain ⟨hclients, hpending, hout⟩ := hmaps
  refine ⟨?_, ?_, ?_⟩
  · intro id
    rw [hclients, lookup_insert_ite, h.clients, registered_snoc, filtersIn_snoc]
    by_cases hid : j = id
    · subst hid
      simp
    · simp [hid]
  · intro id
    rw [hpending, lookup_erase_ite, h.pending, registered_snoc, epoch_snoc]
    by_cases hid : j = id
    · subst hid
      simp
    · simp [hid]
  · intro id
    rw [hout, h.out, stream_snoc]

theorem removeClient (h : Tracks cmds b) :
    Tracks (cmds ++ [.removeClient j]) (b.handleCommand order (.removeClient j)) := by
  refine ⟨?_, ?_, ?_⟩
  · intro id
    simp only [Bus.handleCommand]
    rw [lookup_erase_ite, h.clients, registered_snoc, filtersIn_snoc]
    by_cases hid : j = id
    · subst hid
      simp
    · simp [hid]
  · intro id
    simp only [Bus.handleCommand]
    rw [lookup_erase_ite, h.pending, registered_snoc, epoch_snoc]
    by_cases hid : j = id
    · subst hid
      simp
    · simp [hid]
  · intro id
    rw [stream_snoc, ← h.out]
    exact (List.append_nil _).symm

theorem sendFrame (h : Tracks cmds b) (horder : order.Perm b.clients.keys) (seq : UInt64)
    (expectAck : Bool) (frame : UnixFrame) :
    Tracks (cmds ++ [.sendFrame j seq expectAck frame])
      (b.handleCommand order (.sendFrame j seq expectAck frame)) := by
  have hsame : (b.handleCommand order (.sendFrame j seq expectAck frame)).clients = b.clients ∧
      (b.handleCommand order (.sendFrame j seq expectAck frame)).pending = b.pending := by
    simp only [Bus.handleCommand]
    split
    · simp
    · simp
  refine ⟨?_, ?_, ?_⟩
  · intro id
    rw [hsame.1, registered_snoc, filtersIn_snoc]
    exact h.clients id
  · intro id
    rw [hsame.2, registered_snoc, epoch_snoc]
    exact h.pending id
  · intro id
    simp only [stream_snoc, emitted, Bus.handleCommand, h.isSome_lookup, ← h.wants]
    cases hack : expectAck && registered j cmds with
    | false =>
        have hno : ¬ (j = id ∧ expectAck = true ∧ registered id cmds = true) := by
          rintro ⟨rfl, rfl, hreg⟩
          rw [hreg] at hack
          cases hack
        simp only [if_neg hno, Bool.false_eq_true, if_false, List.append_nil]
        rw [broadcastFrame_out horder, h.out]
    | true =>
        obtain ⟨hexpect, hreg⟩ := Bool.and_eq_true_iff.mp hack
        rw [if_pos rfl, send_out, broadcastFrame_out horder, h.out, List.append_assoc]
        congr 2
        by_cases hid : j = id
        · subst hid
          have hlen := h.length_keys hreg
          cases ho : othersRegistered j cmds with
          | false => simp [hexpect, hreg, hlen.mpr ho]
          | true =>
              have hmany : ¬ b.clients.keys.length ≤ 1 := by
                rw [hlen, ho]
                exact Bool.noConfusion
              simp [hexpect, hreg, hmany]
        · simp [hid]

/-- A client that is not there is not answered. -/
theorem emitted_setFilters (hreg : registered j cmds = false) (seq : UInt64)
    (filters : List IdMaskFilter) : emitted id cmds (.setFilters j seq filters) = [] := by
  have hno : ¬ (j = id ∧ registered id cmds = true) := by
    rintro ⟨rfl, hr⟩
    rw [hreg] at hr
    cases hr
  simp [emitted, hno]

/-- A sequence number of zero changes nothing but the stream. -/
theorem setFilters_zero (h : Tracks cmds b) (filters : List IdMaskFilter) :
    Tracks (cmds ++ [.setFilters j 0 filters]) (b.handleCommand order (.setFilters j 0 filters)) := by
  have hmaps : ∀ b' : Bus, b'.clients = b.clients → b'.pending = b.pending →
      (∀ id, b'.out id = b.out id ++ emitted id cmds (.setFilters j 0 filters)) →
      Tracks (cmds ++ [.setFilters j 0 filters]) b' := by
    intro b' hc hp hout
    refine ⟨?_, ?_, ?_⟩
    · intro id
      rw [hc, registered_snoc, filtersIn_snoc, h.clients]
      simp
    · intro id
      rw [hp, registered_snoc, epoch_snoc, h.pending]
      simp
    · intro id
      rw [hout, h.out, stream_snoc]
  simp only [Bus.handleCommand, h.isSome_lookup, if_true]
  cases hreg : registered j cmds with
  | false =>
      refine hmaps _ rfl rfl ?_
      intro id
      rw [emitted_setFilters hreg, List.append_nil]
      rfl
  | true =>
      refine hmaps _ rfl rfl ?_
      intro id
      rw [if_pos rfl, send_out]
      by_cases hid : j = id
      · subst hid
        simp [emitted, hreg]
      · simp [emitted, hid]

/-- The filters of a client that is not there wait for it. -/
theorem setFilters_waiting (h : Tracks cmds b) (hreg : registered j cmds = false) {seq : UInt64}
    (hseq : seq ≠ 0) (filters : List IdMaskFilter) :
    Tracks (cmds ++ [.setFilters j seq filters])
      (b.handleCommand order (.setFilters j seq filters)) := by
  simp only [Bus.handleCommand, h.isSome_lookup, hreg, if_neg hseq, if_neg Bool.false_ne_true]
  refine ⟨?_, ?_, ?_⟩
  · intro id
    rw [registered_snoc, filtersIn_snoc, h.clients]
    by_cases hid : j = id
    · subst hid
      simp [hreg]
    · simp [hid]
  · intro id
    rw [lookup_insert_ite, h.pending, registered_snoc, epoch_snoc]
    by_cases hid : j = id
    · subst hid
      simp [hreg, hseq]
    · simp [hid]
  · intro id
    rw [stream_snoc, emitted_setFilters hreg, List.append_nil]
    exact h.out id

/-- A client that is there gets its filters, and an acknowledgement. -/
theorem setFilters_registered (h : Tracks cmds b) (hreg : registered j cmds = true) {seq : UInt64}
    (hseq : seq ≠ 0) (filters : List IdMaskFilter) :
    Tracks (cmds ++ [.setFilters j seq filters])
      (b.handleCommand order (.setFilters j seq filters)) := by
  simp only [Bus.handleCommand, h.isSome_lookup, hreg, if_neg hseq, if_true]
  refine ⟨?_, ?_, ?_⟩
  · intro id
    rw [send_clients, lookup_insert_ite, h.clients, registered_snoc, filtersIn_snoc]
    by_cases hid : j = id
    · subst hid
      simp [hreg, hseq]
    · simp [hid]
  · intro id
    rw [registered_snoc, epoch_snoc]
    simp only [send_pending]
    rw [h.pending]
    by_cases hid : j = id
    · subst hid
      simp [hreg]
    · simp [hid]
  · intro id
    rw [send_out, stream_snoc, ← h.out]
    by_cases hid : j = id
    · subst hid
      simp [emitted, hreg, hseq]
    · simp [emitted, hid]

theorem setFilters (h : Tracks cmds b) (seq : UInt64) (filters : List IdMaskFilter) :
    Tracks (cmds ++ [.setFilters j seq filters])
      (b.handleCommand order (.setFilters j seq filters)) := by
  by_cases hseq : seq = 0
  · subst hseq
    exact h.setFilters_zero filters
  · cases hreg : registered j cmds with
    | false => exact h.setFilters_waiting hreg hseq filters
    | true => exact h.setFilters_registered hreg hseq filters

theorem handleCommand (h : Tracks cmds b) (horder : order.Perm b.clients.keys) (c : Command)
    (hadd : ∀ i, c = .addClient i → registered i cmds = false) :
    Tracks (cmds ++ [c]) (b.handleCommand order c) := by
  cases c with
  | addClient i => exact h.addClient (hadd i rfl)
  | removeClient i => exact h.removeClient
  | sendFrame i seq expectAck frame => exact h.sendFrame horder seq expectAck frame
  | setFilters i seq filters => exact h.setFilters seq filters
  | shutdown =>
      refine ⟨?_, ?_, ?_⟩
      · intro id
        rw [registered_snoc, filtersIn_snoc]
        exact h.clients id
      · intro id
        rw [registered_snoc, epoch_snoc]
        exact h.pending id
      · intro id
        rw [stream_snoc, ← h.out]
        exact (List.append_nil _).symm

end Tracks

/-- No client is added twice. -/
def AddedOnce (cmds : List Command) : Prop := (cmds.filterMap Command.added).Nodup

/-- The server keeps track of the commands, in whatever orders the clients are walked. -/
theorem tracks_of_exec {ls : List (Command × List ClientId)} {b : Bus}
    (hexec : busMachine.exec {} ls = some b) (honce : AddedOnce (ls.map Prod.fst)) :
    Tracks (ls.map Prod.fst) b := by
  induction ls using List.reverseRecOn generalizing b with
  | nil =>
      obtain rfl := Option.some.inj hexec
      exact tracks_nil
  | append_singleton ls l ih =>
      obtain ⟨b₀, h₀, hstep⟩ := Machine.exec_snoc.mp hexec
      obtain ⟨c, order⟩ := l
      rw [List.map_append, AddedOnce, List.filterMap_append, List.nodup_append] at honce
      obtain ⟨honce, -, hnew⟩ := honce
      have htracks := ih h₀ honce
      have hstep' : b₀.step (c, order) = some b := hstep
      unfold Bus.step at hstep'
      split at hstep'
      · next horder =>
          obtain rfl := Option.some.inj hstep'
          rw [List.map_append]
          refine htracks.handleCommand horder c ?_
          rintro i rfl
          by_contra hreg
          have hadded := added_of_registered (Bool.not_eq_false _ ▸ hreg)
          exact hnew i hadded i (List.mem_singleton_self i) rfl
      · cases hstep'

/-! ## Frames and acknowledgements in a stream -/

/-- The frames of a stream. -/
def frames (msgs : List ServerMsg) : List UnixFrame :=
  msgs.filterMap fun m ↦ match m with
    | .frame f => some f
    | _ => none

/-- The acknowledgements of a stream. -/
def acks (msgs : List ServerMsg) : List (UInt64 × UInt8) :=
  msgs.filterMap fun m ↦ match m with
    | .ack seq status => some (seq, status)
    | _ => none

/-- The frames sent to client `id`, each with the number of its command. -/
def delivered (id : ClientId) (cmds : List Command) : List (Nat × UnixFrame) :=
  collectFrom (fun before c ↦ match c with
    | .sendFrame _ _ _ f => if accepts id before f then [(before.length, f)] else []
    | _ => []) [] cmds

/-- The acknowledgements sent to client `id`: one for each of its sends that asks for one. -/
def acknowledged (id : ClientId) (cmds : List Command) : List (UInt64 × UInt8) :=
  collectFrom (fun before c ↦ match c with
    | .sendFrame j seq expectAck _ =>
        if j = id ∧ expectAck ∧ registered id before then
          [(seq, if othersRegistered id before then ackOk else ackNoAck)]
        else []
    | _ => []) [] cmds

/-- Where greetings and acknowledgements of filters are not looked at, only sends are
seen. -/
theorem filterMap_emitted {α : Type} {p : ServerMsg → Option α} (hhello : p .hello = none)
    (hack : ∀ seq status, p (.filtersAck seq status) = none) (id : ClientId) (before : List Command)
    {c : Command} (hc : ∀ j seq expectAck f, c ≠ .sendFrame j seq expectAck f) :
    (emitted id before c).filterMap p = [] := by
  cases c with
  | removeClient | shutdown => rfl
  | addClient j =>
      simp only [emitted]
      split
      · cases epoch id before with
        | none => simp [hhello]
        | some => simp [hhello, hack]
      · rfl
  | setFilters j seq filters =>
      simp only [emitted]
      split
      · simp [hack]
      · rfl
  | sendFrame j seq expectAck f => exact absurd rfl (hc j seq expectAck f)

theorem frames_stream (id : ClientId) (cmds : List Command) :
    frames (stream id cmds) = (delivered id cmds).map Prod.snd := by
  rw [frames, stream, streamFrom, filterMap_collectFrom, delivered, map_collectFrom]
  congr 1
  funext before c
  cases c with
  | addClient | removeClient | setFilters | shutdown =>
      exact filterMap_emitted rfl (fun _ _ ↦ rfl) id before nofun
  | sendFrame j seq expectAck f =>
      simp only [emitted, List.filterMap_append]
      split
      · split
        · rfl
        · rfl
      · split
        · rfl
        · rfl

theorem acks_stream (id : ClientId) (cmds : List Command) :
    acks (stream id cmds) = acknowledged id cmds := by
  rw [acks, stream, streamFrom, filterMap_collectFrom, acknowledged]
  congr 1
  funext before c
  cases c with
  | addClient | removeClient | setFilters | shutdown =>
      exact filterMap_emitted rfl (fun _ _ ↦ rfl) id before nofun
  | sendFrame j seq expectAck f =>
      simp only [emitted, List.filterMap_append]
      split
      · split
        · rfl
        · rfl
      · split
        · rfl
        · rfl

theorem mem_delivered {id : ClientId} {cmds : List Command} {k : Nat} {f : UnixFrame} :
    (k, f) ∈ delivered id cmds ↔ ∃ before j seq expectAck after,
      cmds = before ++ .sendFrame j seq expectAck f :: after ∧ before.length = k ∧
        registered id before = true ∧ filtersMatch (filtersIn id before) f = true := by
  rw [delivered, mem_collectFrom]
  constructor
  · rintro ⟨a, c, b, hsplit, hmem⟩
    rw [List.nil_append] at hmem
    cases c with
    | addClient | removeClient | setFilters | shutdown => cases hmem
    | sendFrame j seq expectAck f' =>
        dsimp only at hmem
        split at hmem
        · next hacc =>
            obtain ⟨rfl, rfl⟩ := Prod.mk.inj (List.mem_singleton.mp hmem)
            exact ⟨a, j, seq, expectAck, b, hsplit, rfl, Bool.and_eq_true_iff.mp hacc⟩
        · cases hmem
  · rintro ⟨a, j, seq, expectAck, b, hsplit, rfl, hreg, hmatch⟩
    have hacc : accepts id a f = true := Bool.and_eq_true_iff.mpr ⟨hreg, hmatch⟩
    refine ⟨a, _, b, hsplit, ?_⟩
    rw [List.nil_append]
    dsimp only
    rw [if_pos hacc]
    exact List.mem_singleton_self _

/-- Frames are sent in the order of their commands, each once. -/
theorem delivered_increasing (id : ClientId) (cmds : List Command) :
    (delivered id cmds).Pairwise (·.1 < ·.1) := by
  apply pairwise_collectFrom
  · intro before c x hx
    cases c with
    | addClient | removeClient | setFilters | shutdown => cases hx
    | sendFrame j seq expectAck f =>
        dsimp only at hx
        split at hx
        · rw [List.mem_singleton.mp hx]
        · cases hx
  · intro before c
    cases c with
    | addClient | removeClient | setFilters | shutdown => exact .nil
    | sendFrame j seq expectAck f =>
        dsimp only
        split
        · exact List.pairwise_singleton ..
        · exact .nil

/-- The command sets or forgets the filters of client `id`. -/
def Command.refilters (id : ClientId) : Command → Bool
  | .setFilters j seq _ => j = id && seq ≠ 0
  | .removeClient j => j = id
  | _ => false

/-- Filters judge until others are set. -/
theorem filtersIn_of_epoch {id : ClientId} {seq : UInt64} {filters : List IdMaskFilter}
    {before after : List Command} (hseq : seq ≠ 0) (hafter : ∀ c ∈ after, c.refilters id = false) :
    filtersIn id (before ++ .setFilters id seq filters :: after) = filters := by
  induction after using List.reverseRecOn with
  | nil =>
      rw [filtersIn_snoc]
      exact if_pos ⟨rfl, hseq⟩
  | append_singleton after c ih =>
      rw [← List.cons_append, ← List.append_assoc, filtersIn_snoc,
        ih fun c hc ↦ hafter c (List.mem_append_left _ hc)]
      have hlast := hafter c (List.mem_append_right _ (List.mem_singleton_self c))
      cases c with
      | addClient | sendFrame | shutdown => rfl
      | removeClient j => exact if_neg (of_decide_eq_false hlast)
      | setFilters j seq' fs =>
          apply if_neg
          rintro ⟨rfl, hne⟩
          rw [Command.refilters, decide_eq_true rfl, decide_eq_true hne] at hlast
          cases hlast

/-! ## The semantics of the bus -/

/-- What clients are sent, in terms of the commands `cmds` alone. -/
structure BusSemantics (cmds : List Command) (out : ClientId → List ServerMsg) : Prop where
  /-- The frames of every stream, with the numbers of their commands. -/
  frames : ∀ id, frames (out id) = (delivered id cmds).map Prod.snd
  /-- Every stream has them in the order of the commands, each once. -/
  increasing : ∀ id, (delivered id cmds).Pairwise (·.1 < ·.1)
  /-- Who gets which frame. -/
  delivered : ∀ id k f, (k, f) ∈ delivered id cmds ↔ ∃ before j seq expectAck after,
    cmds = before ++ .sendFrame j seq expectAck f :: after ∧ before.length = k ∧
      registered id before = true ∧ filtersMatch (filtersIn id before) f = true
  /-- Where filters are set, what is before was judged by the filters before, and what is
  after by these, up to the next change. -/
  epochs : ∀ id before seq filters after, cmds = before ++ .setFilters id seq filters :: after →
    seq ≠ 0 → registered id before = true →
    out id = stream id before ++
        .filtersAck seq ackOk :: streamFrom id (before ++ [.setFilters id seq filters]) after ∧
      UnixSocket.frames (stream id before) = (UnixSocket.delivered id before).map Prod.snd ∧
      ∀ upTo, upTo <+: after → (∀ c ∈ upTo, c.refilters id = false) →
        filtersIn id (before ++ .setFilters id seq filters :: upTo) = filters
  /-- Filters set before a client is there are acknowledged when it comes. -/
  waiting : ∀ id before after e, cmds = before ++ .addClient id :: after → epoch id before = some e →
    out id = stream id before ++ .hello ::
        .filtersAck e.seq ackOk :: streamFrom id (before ++ [.addClient id]) after ∧
      filtersIn id (before ++ [.addClient id]) = e.filters
  /-- A sequence number of zero is answered with an error, and changes nothing. -/
  undecodable : ∀ id before filters after, cmds = before ++ .setFilters id 0 filters :: after →
    registered id before = true →
    out id = stream id before ++
        .filtersAck 0 ackServerErr :: streamFrom id (before ++ [.setFilters id 0 filters]) after ∧
      filtersIn id (before ++ [.setFilters id 0 filters]) = filtersIn id before
  /-- Every send that asks for it is acknowledged once, behind the copy of its frame. -/
  acks : ∀ id, acks (out id) = acknowledged id cmds
  acked : ∀ id before seq f after, cmds = before ++ .sendFrame id seq true f :: after →
    registered id before = true →
    ∃ status, out id = stream id before ++ ((if accepts id before f then [.frame f] else []) ++
        .ack seq status :: streamFrom id (before ++ [.sendFrame id seq true f]) after) ∧
      (status = ackOk ∨ status = ackNoAck) ∧
      (status = ackOk ↔ ∃ j, j ≠ id ∧ registered j before = true)

theorem busSemantics_stream (cmds : List Command) : BusSemantics cmds (fun id ↦ stream id cmds) where
  frames id := frames_stream id cmds
  increasing id := delivered_increasing id cmds
  delivered _ _ _ := mem_delivered
  epochs id before seq filters after hsplit hseq hreg := by
    refine ⟨?_, frames_stream id before, fun upTo _ hkeep ↦ filtersIn_of_epoch hseq hkeep⟩
    have hemit : emitted id before (.setFilters id seq filters) = [.filtersAck seq ackOk] := by
      rw [emitted, if_pos ⟨rfl, hreg⟩, if_neg hseq]
    rw [hsplit, stream, streamFrom, collectFrom_split, hemit]
    rfl
  waiting id before after e hsplit he := by
    constructor
    · have hemit : emitted id before (.addClient id) = [.hello, .filtersAck e.seq ackOk] := by
        rw [emitted, if_pos rfl, he]
        rfl
      rw [hsplit, stream, streamFrom, collectFrom_split, hemit]
      rfl
    · rw [filtersIn_snoc, filtersIn, he]
      rfl
  undecodable id before filters after hsplit hreg := by
    constructor
    · have hemit : emitted id before (.setFilters id 0 filters) = [.filtersAck 0 ackServerErr] := by
        rw [emitted, if_pos ⟨rfl, hreg⟩, if_pos rfl]
      rw [hsplit, stream, streamFrom, collectFrom_split, hemit]
      rfl
    · rw [filtersIn_snoc]
      exact if_neg fun h ↦ h.2 rfl
  acks id := acks_stream id cmds
  acked id before seq f after hsplit hreg := by
    have hemit : emitted id before (.sendFrame id seq true f) =
        (if accepts id before f then [.frame f] else []) ++
          [.ack seq (if othersRegistered id before then ackOk else ackNoAck)] := by
      rw [emitted, if_pos (⟨rfl, rfl, hreg⟩ : id = id ∧ true = true ∧ registered id before = true)]
    refine ⟨if othersRegistered id before then ackOk else ackNoAck, ?_, ?_, ?_⟩
    · rw [hsplit, stream, streamFrom, collectFrom_split, hemit, List.append_assoc]
      rfl
    · split
      · exact .inl rfl
      · exact .inr rfl
    · rw [← othersRegistered_iff]
      cases othersRegistered id before with
      | false =>
          constructor
          · intro h
            exact absurd h (by decide)
          · intro h
            cases h
      | true => exact ⟨fun _ ↦ rfl, fun _ ↦ rfl⟩

/-- **What clients of the bus are sent**, whatever the commands and the orders in which
the clients are walked: a function of the commands. -/
theorem busSemantics_of_exec (ls : List (Command × List ClientId)) (b : Bus)
    (honce : AddedOnce (ls.map Prod.fst)) (hexec : busMachine.exec {} ls = some b) :
    BusSemantics (ls.map Prod.fst) b.out ∧
      ∀ ls' b', ls'.map Prod.fst = ls.map Prod.fst → busMachine.exec {} ls' = some b' →
        b'.out = b.out := by
  have hout : b.out = fun id ↦ stream id (ls.map Prod.fst) :=
    funext (tracks_of_exec hexec honce).out
  refine ⟨hout ▸ busSemantics_stream _, ?_⟩
  intro ls' b' hcmds hexec'
  have hout' := funext (tracks_of_exec hexec' (hcmds ▸ honce)).out
  rw [hout', hout, hcmds]

/-- A frame with a standard identifier. -/
def shortFrame (raw : UInt16) (h : raw.toNat ≤ 0x7FF) (data : Bytes) (hdata : data.length ≤ maxDataLen) :
    UnixFrame :=
  ⟨.standard ⟨raw, h⟩, data, false, hdata⟩

/-- The frame `0x100`. -/
def frame100 : UnixFrame := shortFrame 0x100 (by decide) [3] (by decide)

/-- The filter for `0x123` alone. -/
def only123 : IdMaskFilter := ⟨.standard ⟨0x123, by decide⟩, .standard 0x7FF⟩

/-- Two clients join, one sets filters, the other sends. -/
def busRun : List (Command × List ClientId) :=
  [(.addClient 1, []), (.addClient 2, [1]), (.setFilters 2 1 [only123], [1, 2]),
    (.sendFrame 1 1 true frame100, [2, 1])]

theorem busSemantics_of_exec_two : AddedOnce (busRun.map Prod.fst) ∧ ∃ b,
    busMachine.exec {} busRun = some b ∧ BusSemantics (busRun.map Prod.fst) b.out ∧
      b.out 1 = [.hello, .frame frame100, .ack 1 ackOk] ∧
      b.out 2 = [.hello, .filtersAck 1 ackOk] := by
  have honce : AddedOnce (busRun.map Prod.fst) := by
    unfold AddedOnce
    decide
  have hexec : busMachine.exec {} busRun = some { clients := _, pending := _, out := _ } := rfl
  exact ⟨honce, _, hexec, (busSemantics_of_exec busRun _ honce hexec).1, rfl, rfl⟩

/-- The filters of the last `SetFilters` of `id` with a sequence number, whatever follows
it. -/
def lastSet (id : ClientId) (cmds : List Command) : List IdMaskFilter :=
  ((cmds.filterMap fun c ↦ match c with
    | .setFilters j seq filters => if j = id ∧ seq ≠ 0 then some filters else none
    | _ => none).getLast?).getD []

/-- Filters are set for a client that is not there, the client is removed, and then
added. -/
def forgottenRun : List (Command × List ClientId) :=
  [(.setFilters 1 5 [only123], []), (.removeClient 1, []), (.addClient 1, []),
    (.sendFrame 2 1 false frame100, [1])]

/-- The client is sent a frame that its last `SetFilters` does not let through. -/
theorem filters_forgotten : AddedOnce (forgottenRun.map Prod.fst) ∧ ∃ b,
    busMachine.exec {} forgottenRun = some b ∧ frames (b.out 1) = [frame100] ∧
      filtersMatch (lastSet 1 (forgottenRun.map Prod.fst)) frame100 = false := by
  have honce : AddedOnce (forgottenRun.map Prod.fst) := by
    unfold AddedOnce
    decide
  have hexec : busMachine.exec {} forgottenRun = some { clients := _, pending := _, out := _ } := rfl
  exact ⟨honce, _, hexec, rfl, by decide⟩

end Thincan.UnixSocket

import Mathlib.Algebra.Ring.Nat
import Thincan.FileTransfer.ReceiverHistory

/-!
# Store discipline of the receivers

Whatever the peer sends and whatever the store and the transport answer, a
receive call that has returned has used its store as the `AsyncFileStore`
contract expects: one handle at most, contiguous writes inside the announced
length, exactly one of `commit` and `abort` at the end, and `commit` only for a
complete file with the announced digest.

The log of a call that got a handle is a `Session`: the opening call, successful
writes, perhaps one failed write, and one final call.  Both ways of finishing
(`Released.session`, `Finalised.session`) have that shape, and the discipline is
read off it once.
-/

namespace Thincan.FileTransfer

open Process

variable {H E : Type}

/-! ## Projections of a log -/

namespace StoreOp

/-- The call is `begin_write`. -/
def isBegin : StoreOp H E → Bool
  | .began _ _ _ => true
  | _ => false

/-- Handle, offset and bytes of a `write_at` call, whatever its result. -/
def write? : StoreOp H E → Option (H × UInt32 × Bytes)
  | .wrote h off w _ => some (h, off, w)
  | _ => none

/-- The handle given up by a `commit` or `abort` call. -/
def final? : StoreOp H E → Option H
  | .committed h _ => some h
  | .aborted h => some h
  | _ => none

@[simp] theorem isBegin_began (t n : UInt32) (r : Except E H) : isBegin (.began t n r) = true := rfl
@[simp] theorem isBegin_wrote (h : H) (off : UInt32) (w : Bytes) (r : Except E Unit) :
    isBegin (.wrote h off w r) = false := rfl
@[simp] theorem write?_began (t n : UInt32) (r : Except E H) : write? (.began t n r) = none := rfl
@[simp] theorem write?_wrote (h : H) (off : UInt32) (w : Bytes) (r : Except E Unit) :
    write? (.wrote h off w r) = some (h, off, w) := rfl
@[simp] theorem final?_began (t n : UInt32) (r : Except E H) : final? (.began t n r) = none := rfl
@[simp] theorem final?_wrote (h : H) (off : UInt32) (w : Bytes) (r : Except E Unit) :
    final? (.wrote h off w r) = none := rfl

end StoreOp

/-- The `write_at` calls of a history. -/
def writes (hist : List (RecvEvent H E)) : List (H × UInt32 × Bytes) :=
  (storeLog hist).filterMap StoreOp.write?

/-- The handles given to `commit` or `abort`. -/
def finals (hist : List (RecvEvent H E)) : List H := (storeLog hist).filterMap StoreOp.final?

/-- Each write starts where the previous one ended, the first one at `n`. -/
def Contiguous : Nat → List (H × UInt32 × Bytes) → Prop
  | _, [] => True
  | n, (_, off, w) :: ws => off.toNat = n ∧ Contiguous (n + w.length) ws

/-- The discipline a receive call keeps towards its store. -/
structure StoreDiscipline (sha256 : Bytes → Digest) (cfg : ReceiverConfig)
    (hist : List (RecvEvent H E)) (r : Except (Error E) RecvFileResult) : Prop where
  /-- `begin_write` is called at most once. -/
  begin_once : ((storeLog hist).filter StoreOp.isBegin).length ≤ 1
  /-- The store is called only for an offer, and first with `begin_write`. -/
  begin_first : storeLog hist ≠ [] → ∃ root b, offered hist = some root ∧
    (storeLog hist).head? = some (.began root.transferId root.totalLen b)
  /-- The writes are contiguous from offset zero. -/
  contiguous : Contiguous 0 (writes hist)
  /-- Every write has between one byte and the negotiated number of bytes and
  ends inside the file. -/
  write_bounds : ∀ root, offered hist = some root → ∀ h off w, (h, off, w) ∈ writes hist →
    1 ≤ w.length ∧ w.length ≤ (negotiate cfg.maxChunkSize root.senderMaxChunkSize).toNat ∧
      off.toNat + w.length ≤ root.totalLen.toNat
  /-- A handle that was obtained is the only one written to, and is given to
  exactly one of `commit` and `abort`. -/
  one_final : ∀ t n h, StoreOp.began t n (.ok h) ∈ storeLog hist →
    finals hist = [h] ∧ ∀ p ∈ writes hist, p.1 = h
  /-- Nothing is asked of the store after that. -/
  nothing_after : ∀ k op t, storeLog hist = k ++ op :: t → op.final?.isSome → t = []
  /-- `commit` is called only for the whole file with the digest of the offer. -/
  commit_checked : ∀ h b, StoreOp.committed h b ∈ storeLog hist →
    ∃ root, offered hist = some root ∧ (written hist).length = root.totalLen.toNat ∧
      (sha256 (written hist)).1 = root.hash
  /-- `Ok` is returned only after `commit` returned `Ok`. -/
  ok_committed : ∀ res, r = .ok res → ∃ h, StoreOp.committed h (.ok ()) ∈ storeLog hist

/-! ## Writes -/

theorem Contiguous.append {n : Nat} {xs ys : List (H × UInt32 × Bytes)} (hx : Contiguous n xs)
    (hy : Contiguous (n + (xs.map fun p ↦ p.2.2.length).sum) ys) : Contiguous n (xs ++ ys) := by
  induction xs generalizing n with
  | nil => simpa using hy
  | cons p xs ih =>
      obtain ⟨h, off, w⟩ := p
      refine ⟨hx.1, ih hx.2 ?_⟩
      simpa [Nat.add_assoc] using hy

section Writes

variable {fit : Prop} {lim : Nat} {h : H} {content : Bytes} {log : List (StoreOp H E)}

theorem Writes.mem (hw : Writes fit lim h content log) {op : StoreOp H E} (hop : op ∈ log) :
    ∃ off w, op = .wrote h off w (.ok ()) := by
  induction hw with
  | nil => cases hop
  | @snoc content w log off _ _ _ _ ih =>
      rcases List.mem_append.mp hop with hop | hop
      · exact ih hop
      · exact ⟨off, w, List.mem_singleton.mp hop⟩

theorem Writes.sum_length (hw : Writes fit lim h content log) :
    ((log.filterMap StoreOp.write?).map fun p ↦ p.2.2.length).sum = content.length := by
  induction hw with
  | nil => rfl
  | snoc _ _ _ _ ih => simp [ih]

theorem Writes.contiguous (hw : Writes fit lim h content log) :
    Contiguous 0 (log.filterMap StoreOp.write?) := by
  induction hw with
  | nil => trivial
  | snoc hw hoff _ _ ih =>
      rw [List.filterMap_append]
      refine ih.append ⟨?_, trivial⟩
      rw [hw.sum_length, hoff, Nat.zero_add]

theorem Writes.bounds (hw : Writes fit lim h content log) {h' : H} {off : UInt32} {w : Bytes}
    (hmem : (h', off, w) ∈ log.filterMap StoreOp.write?) :
    1 ≤ w.length ∧ (fit → w.length ≤ lim) ∧ off.toNat + w.length ≤ content.length := by
  induction hw with
  | nil => cases hmem
  | @snoc content w' log off' _ hoff hne hlim ih =>
      rw [List.filterMap_append] at hmem
      rcases List.mem_append.mp hmem with hmem | hmem
      · obtain ⟨h₁, h₂, h₃⟩ := ih hmem
        refine ⟨h₁, h₂, ?_⟩
        rw [List.length_append]
        omega
      · obtain ⟨-, rfl, rfl⟩ : h' = h ∧ off = off' ∧ w = w' := by
          simpa using hmem
        refine ⟨List.length_pos_iff.mpr hne, hlim, ?_⟩
        rw [List.length_append]
        omega

end Writes

/-! ## Sessions -/

/-- The log of a call that obtained a handle: opening call, successful writes,
perhaps a failed one, final call. -/
structure Session (o : Offer) (h : H) (content : Bytes) (fin : StoreOp H E)
    (log : List (StoreOp H E)) : Prop where
  log_eq : ∃ ws tail, log = .began o.transferId o.totalLen (.ok h) :: (ws ++ tail ++ [fin]) ∧
    Writes True o.negotiatedChunkSize.toNat h content ws ∧
    (tail = [] ∨ ∃ off w e, tail = [.wrote h off w (.error e)] ∧ off.toNat = content.length ∧
      w ≠ [] ∧ w.length ≤ o.negotiatedChunkSize.toNat ∧
      content.length + w.length ≤ o.totalLen.toNat)
  length_le : content.length ≤ o.totalLen.toNat
  final_eq : fin.final? = some h

variable {sha256 : Bytes → Digest} {cfg : ReceiverConfig} {hist : List (RecvEvent H E)}
  {o : Offer} {h : H}

/-- A released handle leaves a session that ends in `abort`. -/
theorem Released.session (hr : Released True cfg hist) :
    ∃ o h content, (∃ root, offered hist = some root ∧ o.Of cfg root) ∧
      Session o h content (.aborted h) (storeLog hist) := by
  obtain ⟨k, o, h, t, ⟨⟨root, hroot, hof⟩, content, ws, tail, hlog, hw, hle, htail⟩, rfl, ht⟩ := hr
  refine ⟨o, h, content, ⟨root, offered_append hroot, hof⟩, ⟨ws, tail, ?_, hw, ?_⟩, hle, rfl⟩
  · rw [storeLog_append, hlog]
    change _ ++ .aborted h :: storeLog t = _
    simp [ht]
  · rcases htail with rfl | ⟨off, w, e, rfl, hoff, hne, hlim, hfit⟩
    · exact .inl rfl
    · exact .inr ⟨off, w, e, rfl, hoff, hne, hlim trivial, hfit⟩

/-- A finalised handle leaves a session that ends in `commit`. -/
theorem Finalised.session {r : Except E Unit} (hf : Finalised True sha256 cfg hist o h r) :
    ∃ content, Session o h content (.committed h r) (storeLog hist) := by
  obtain ⟨k, content, t, ⟨-, ⟨ws, hlog, hw⟩, hle⟩, -, -, rfl, ht⟩ := hf
  have hlog' : storeLog (k ++ (.commit h, .committed r) :: t) =
      .began o.transferId o.totalLen (.ok h) :: (ws ++ [] ++ [.committed h r]) := by
    rw [storeLog_append, hlog]
    change _ ++ .committed h r :: storeLog t = _
    simp [ht]
  exact ⟨content, ⟨ws, [], hlog', hw, .inl rfl⟩, hle, rfl⟩

namespace Session

variable {content : Bytes} {fin : StoreOp H E} {log : List (StoreOp H E)}

theorem begins (hs : Session o h content fin log) : (log.filter StoreOp.isBegin).length = 1 := by
  obtain ⟨⟨ws, tail, rfl, hw, htail⟩, -, hfin⟩ := hs
  have hws : ws.filter StoreOp.isBegin = [] := by
    apply List.filter_eq_nil_iff.mpr
    intro op hop
    obtain ⟨off, w, rfl⟩ := hw.mem hop
    simp
  have hfin' : StoreOp.isBegin fin = false := by
    cases fin <;> first | rfl | cases hfin
  rcases htail with rfl | ⟨off, w, e, rfl, -⟩ <;>
    simp [List.filter_cons, hws, hfin']

theorem finals (hs : Session o h content fin log) : log.filterMap StoreOp.final? = [h] := by
  obtain ⟨⟨ws, tail, rfl, hw, htail⟩, -, hfin⟩ := hs
  have hws : ws.filterMap StoreOp.final? = [] := by
    apply List.filterMap_eq_nil_iff.mpr
    intro op hop
    obtain ⟨off, w, rfl⟩ := hw.mem hop
    rfl
  rcases htail with rfl | ⟨off, w, e, rfl, -⟩ <;>
    simp [List.filterMap_cons, hws, hfin]

/-- The writes of a session are those of its log, then perhaps a failed one. -/
theorem writes (hs : Session o h content fin log) :
    Contiguous 0 (log.filterMap StoreOp.write?) ∧
      ∀ h' off w, (h', off, w) ∈ log.filterMap StoreOp.write? → h' = h ∧ 1 ≤ w.length ∧
        w.length ≤ o.negotiatedChunkSize.toNat ∧ off.toNat + w.length ≤ o.totalLen.toNat := by
  obtain ⟨⟨ws, tail, rfl, hw, htail⟩, hle, hfin⟩ := hs
  have hfin' : fin.write? = none := by
    cases fin <;> first | rfl | cases hfin
  have hhandle : ∀ h' off w, (h', off, w) ∈ ws.filterMap StoreOp.write? → h' = h := by
    intro h' off w hmem
    obtain ⟨op, hop, heq⟩ := List.mem_filterMap.mp hmem
    obtain ⟨off', w', rfl⟩ := hw.mem hop
    simp only [StoreOp.write?, Option.some.injEq, Prod.mk.injEq] at heq
    exact heq.1.symm
  have hb := fun h' off w (hmem : (h', off, w) ∈ ws.filterMap StoreOp.write?) ↦ hw.bounds hmem
  rcases htail with rfl | ⟨off, w, e, rfl, hoff, hne, hlim, hfit⟩
  · have heq : (StoreOp.began o.transferId o.totalLen (.ok h) :: (ws ++ [] ++ [fin])).filterMap
        StoreOp.write? = ws.filterMap StoreOp.write? := by
      simp [List.filterMap_cons, hfin']
    rw [heq]
    refine ⟨hw.contiguous, ?_⟩
    intro h' off w hmem
    obtain ⟨h₁, h₂, h₃⟩ := hb h' off w hmem
    exact ⟨hhandle h' off w hmem, h₁, h₂ trivial, by omega⟩
  · have heq : (StoreOp.began o.transferId o.totalLen (.ok h) ::
        (ws ++ [.wrote h off w (.error e)] ++ [fin])).filterMap StoreOp.write? =
        ws.filterMap StoreOp.write? ++ [(h, off, w)] := by
      simp [List.filterMap_cons, hfin']
    rw [heq]
    refine ⟨hw.contiguous.append ⟨?_, trivial⟩, fun h' off' w' hmem ↦ ?_⟩
    · rw [hw.sum_length, hoff, Nat.zero_add]
    · rcases List.mem_append.mp hmem with hmem | hmem
      · obtain ⟨h₁, h₂, h₃⟩ := hb h' off' w' hmem
        exact ⟨hhandle h' off' w' hmem, h₁, h₂ trivial, by omega⟩
      · obtain ⟨rfl, rfl, rfl⟩ : h' = h ∧ off' = off ∧ w' = w := by simpa using hmem
        exact ⟨rfl, List.length_pos_iff.mpr hne, hlim, by omega⟩

/-- The final call of a session is its last call. -/
theorem nothing_after (hs : Session o h content fin log) {k t : List (StoreOp H E)}
    {op : StoreOp H E} (heq : log = k ++ op :: t) (hop : op.final?.isSome) : t = [] := by
  have hfin := hs.finals
  obtain ⟨⟨ws, tail, hlog, -⟩, -, hfinal⟩ := hs
  rcases List.eq_nil_or_concat t with rfl | ⟨t, op', rfl⟩
  · rfl
  -- otherwise the last call is a second final one
  have hlast : op' = fin := by
    have h₁ : log.getLast? = some op' := by
      rw [heq, List.concat_eq_append, ← List.cons_append, ← List.append_assoc, List.getLast?_append]
      rfl
    have h₂ : log.getLast? = some fin := by
      rw [hlog, ← List.cons_append, List.getLast?_append]
      rfl
    exact Option.some.inj (h₁.symm.trans h₂)
  obtain ⟨h', hop'⟩ := Option.isSome_iff_exists.mp hop
  have := congrArg List.length hfin
  rw [heq, hlast] at this
  simp only [List.concat_eq_append, List.filterMap_append, List.filterMap_cons, hop', hfinal,
    List.filterMap_nil, List.length_append, List.length_cons, List.length_nil] at this
  omega

end Session

/-! ## The discipline -/

/-- A call that obtained a handle keeps the discipline. -/
theorem Session.discipline {content : Bytes} {fin : StoreOp H E}
    {r : Except (Error E) RecvFileResult} (hof : ∃ root, offered hist = some root ∧ o.Of cfg root)
    (hs : Session o h content fin (storeLog hist))
    (hcommit : ∀ h b, fin = .committed h b →
      (written hist).length = o.totalLen.toNat ∧ sha256 (written hist) = o.expectedHash)
    (hok : ∀ res, r = .ok res → ∃ h, fin = .committed h (.ok ())) :
    StoreDiscipline sha256 cfg hist r := by
  obtain ⟨root, hroot, hof⟩ := hof
  obtain ⟨hcont, hbounds⟩ := hs.writes
  obtain ⟨⟨ws, tail, hlog, hw, htail⟩, -⟩ := id hs
  have hmem : ∀ op ∈ storeLog hist, (∃ t n b, op = .began t n b ∧ b = .ok h) ∨
      (∃ h off w b, op = .wrote h off w b) ∨ op = fin := by
    intro op hop
    rw [hlog, List.mem_cons, List.mem_append, List.mem_append, List.mem_singleton] at hop
    rcases hop with rfl | (hop | hop) | rfl
    · exact .inl ⟨_, _, _, rfl, rfl⟩
    · obtain ⟨off, w, rfl⟩ := hw.mem hop
      exact .inr (.inl ⟨_, _, _, _, rfl⟩)
    · rcases htail with rfl | ⟨off, w, e, rfl, -⟩
      · cases hop
      · exact .inr (.inl ⟨_, _, _, _, List.mem_singleton.mp hop⟩)
    · exact .inr (.inr rfl)
  constructor
  · exact Nat.le_of_eq hs.begins
  · intro _
    refine ⟨root, .ok h, hroot, ?_⟩
    rw [hlog, ← hof.transferId_eq, ← hof.totalLen_eq]
    rfl
  · exact hcont
  · intro root' hroot' h' off w hmem'
    obtain rfl : root = root' := Option.some.inj (hroot.symm.trans hroot')
    rw [← hof.negotiated_eq, ← hof.totalLen_eq]
    exact (hbounds h' off w hmem').2
  · intro t n h' hb
    obtain rfl : h' = h := by
      rcases hmem _ hb with ⟨_, _, _, heq, hb'⟩ | ⟨_, _, _, _, heq⟩ | heq
      · injection heq with _ _ heq
        rw [hb'] at heq
        exact Except.ok.inj heq
      · cases heq
      · have := hs.final_eq
        rw [← heq] at this
        cases this
    exact ⟨hs.finals, fun p hp ↦ (hbounds p.1 p.2.1 p.2.2 hp).1⟩
  · intro k op t heq hop
    exact hs.nothing_after heq hop
  · intro h' b hb
    rcases hmem _ hb with ⟨_, _, _, heq, -⟩ | ⟨_, _, _, _, heq⟩ | heq
    · cases heq
    · cases heq
    · obtain ⟨hlen, hsha⟩ := hcommit h' b heq.symm
      exact ⟨root, hroot, by rw [hlen, hof.totalLen_eq], by rw [hsha, hof.hash_eq]⟩
  · intro res hres
    obtain ⟨h', rfl⟩ := hok res hres
    refine ⟨h', ?_⟩
    rw [hlog]
    simp

/-- A call whose log has no handle keeps the discipline. -/
theorem StoreDiscipline.of_no_handle {err : Error E}
    (hlog : storeLog hist = [] ∨ ∃ root e, offered hist = some root ∧
      storeLog hist = [.began root.transferId root.totalLen (.error e)]) :
    StoreDiscipline sha256 cfg hist (.error err) := by
  have hw : writes hist = [] := by
    rcases hlog with h | ⟨root, e, -, h⟩ <;> simp [writes, h]
  have hmem : ∀ op ∈ storeLog hist, ∃ t n e, op = .began t n (.error e) := by
    rcases hlog with h | ⟨root, e, -, h⟩
    · simp [h]
    · simp [h]
  constructor
  · rcases hlog with h | ⟨root, e, -, h⟩
    · simp [h]
    · rw [h]
      exact Nat.le_refl 1
  · intro hne
    rcases hlog with h | ⟨root, e, hroot, h⟩
    · exact absurd h hne
    · exact ⟨root, .error e, hroot, by rw [h]; rfl⟩
  · rw [hw]
    trivial
  · rw [hw]
    nofun
  · intro t n h' hb
    obtain ⟨_, _, _, heq⟩ := hmem _ hb
    cases heq
  · intro k op t heq hop
    obtain ⟨_, _, _, rfl⟩ := hmem op (by rw [heq]; simp)
    cases hop
  · intro h' b hb
    obtain ⟨_, _, _, heq⟩ := hmem _ hb
    cases heq
  · nofun

/-- **Both receivers keep the store discipline**, against any peer and any
behaviour of the store and the transport. -/
theorem receiver_storeDiscipline (sha256 : Bytes → Digest) (k : Variant) (cfg : ReceiverConfig)
    (hist : List (RecvEvent H E)) (r : Except (Error E) RecvFileResult)
    (hrun : (receiver sha256 k.intake cfg).Run .recvReq hist (.done r))
    (hread : Readable hist) : StoreDiscipline sha256 cfg hist r := by
  have hi : Returned True sha256 cfg hist r := StoreInv.of_run hrun fun _ ↦ hread
  cases hi with
  | untouched err hlog => exact .of_no_handle (.inl hlog)
  | refused o e hoff hlog =>
      obtain ⟨root, hroot, hof⟩ := hoff
      refine .of_no_handle (.inr ⟨root, e, hroot, ?_⟩)
      rw [hlog, hof.transferId_eq, hof.totalLen_eq]
  | released err hr =>
      obtain ⟨o, h, content, hof, hs⟩ := hr.session
      exact hs.discipline hof nofun nofun
  | notCommitted o h e hf =>
      obtain ⟨content, hs⟩ := hf.session
      exact hs.discipline hf.offer (fun _ _ _ ↦ hf.written_eq) nofun
  | unreported o h hf =>
      obtain ⟨content, hs⟩ := hf.session
      exact hs.discipline hf.offer (fun _ _ _ ↦ hf.written_eq) nofun
  | completed o h hf =>
      obtain ⟨content, hs⟩ := hf.session
      exact hs.discipline hf.offer (fun _ _ _ ↦ hf.written_eq) fun _ _ ↦ ⟨h, rfl⟩

/-- A peer that offers `abc` in chunks of two bytes, repeats the first chunk and
then sends the second one; every answer of store and transport is `Ok`. -/
def abcResponses : List (RecvResp Unit Unit) :=
  [.req (some (.ok ⟨7, 3, .ok [], 2, some .sha256, .ok abcDigest.1⟩)), .began (.ok ()), .sent .ok,
    .chunk (.received (.ok ⟨7, 0, .ok [0x61, 0x62]⟩)), .wrote (.ok ()), .sent .ok,
    .chunk (.received (.ok ⟨7, 0, .ok [0x61, 0x62]⟩)), .sent .ok,
    .chunk (.received (.ok ⟨7, 2, .ok [0x63]⟩)), .wrote (.ok ()), .committed (.ok ()), .sent .ok]

theorem receiver_storeDiscipline_abc : ∃ hist res,
    (recvFile shortSha256 {}).exec .recvReq abcResponses = some (hist, .done (.ok res)) ∧
      StoreDiscipline shortSha256 {} hist (.ok res) := by
  have he : (recvFile shortSha256 {}).exec .recvReq abcResponses = some (_, .done (.ok _)) := rfl
  refine ⟨_, _, he, receiver_storeDiscipline shortSha256 .recvFile {} _ _ (.of_exec .nil he) ?_⟩
  refine .of_responses (Coroutine.exec_responses he) ?_
  intro c hc
  simp only [abcResponses, List.mem_cons, reduceCtorEq, RecvResp.chunk.injEq,
    Arrival.received.injEq, Except.ok.injEq, List.not_mem_nil, false_or, or_false] at hc
  rcases hc with rfl | rfl | rfl <;> decide

end Thincan.FileTransfer

import Thincan.Bus.Mailbox
import Thincan.FileTransfer.Codec
import Thincan.FileTransfer.ReceiverSteps
import Thincan.Process.Machine

/-!
# Concurrent receive calls for one peer

Any number of `recv_file` and `recv_file_no_alloc` calls on one `Interface` and for
one peer, each past its offer.  All of them take their chunks from one mailbox: a
`Desk`.

`wait_for_transfer_chunk` takes the oldest chunk of the peer whatever its transfer
id, and looks at the id afterwards.  A chunk of another transfer is dropped, so one
call can take the chunk another call waits for.  What a call does is decided by the
chunks it has taken and not dropped (`Desk.Share.alone`).

The mailbox is empty at first.  A mailbox that already holds chunks is one they have
been ingested into before any call moves.
-/

namespace Thincan.FileTransfer

open Process

/-- The transfer id could be read, and is another. -/
def foreign (t : UInt32) (r : Read FileChunkRoot) : Bool :=
  match chunkTransferId r with
  | .ok id => id ≠ t
  | .error _ => false

/-- The transfer id could be read, and is this one. -/
def own (t : UInt32) (r : Read FileChunkRoot) : Bool :=
  match chunkTransferId r with
  | .ok id => id = t
  | .error _ => false

section Serves

variable {H E : Type} {o : Offer} {hd : H} {v : RecvVars}

/-- A call is past its offer `o`, or has given up. -/
def RecvPc.Serves (o : Offer) : RecvPc H E → Prop
  | .recvReq => False
  | .sendReject _ | .abort _ _ _ | .sendAbort _ _ | .done _ => True
  | .beginWrite o' | .sendAccept o' _ | .commitEmpty o' _ | .waitChunk o' _ _ | .sendGap o' _ _
  | .writeAt o' _ _ _ | .sendProgress o' _ _ | .commit o' _ | .sendComplete o' => o' = o

theorem serves_chunkLoop : (chunkLoop o hd v : RecvPc H E).Serves o := by
  unfold chunkLoop
  split
  · rfl
  · exact trivial

theorem serves_onChunk (rx : Intake) (a : Arrival (Read FileChunkRoot)) :
    (rx.onChunk o hd v a : RecvPc H E).Serves o := by
  have hcase := rx.onChunk_case (E := E) o hd v a
  generalize rx.onChunk o hd v a = pc at hcase
  cases hcase with
  | silent | tooLarge => exact trivial
  | foreign | gap | write => rfl
  | empty => exact serves_chunkLoop

theorem serves_onProgressSent (r : SendOutcome) : (onProgressSent o hd v r : RecvPc H E).Serves o := by
  unfold onProgressSent
  split
  · exact trivial
  · exact serves_chunkLoop

/-- A call serves one offer to its end. -/
theorem RecvPc.Serves.resume {sha256 : Bytes → Digest} {rx : Intake} {cfg : ReceiverConfig}
    {pc pc' : RecvPc H E} {r : RecvResp H E} (hs : pc.Serves o)
    (h : (receiver sha256 rx cfg).resume pc r = some pc') : pc'.Serves o := by
  obtain ⟨q, hq⟩ : ∃ q, (receiver sha256 rx cfg).request pc = some q := by
    cases pc with
    | done => cases h
    | recvReq | sendReject | beginWrite | sendAccept | commitEmpty | waitChunk | sendGap | writeAt
      | sendProgress | commit | sendComplete | abort | sendAbort => exact ⟨_, rfl⟩
  have ht := receiver_fire (e := (q, r)) (Coroutine.fire_eq_some.mpr ⟨hq, rfl, h⟩)
  cases ht with
  | req => exact hs.elim
  | rejected | notBegun | committedEmpty | notCommittedEmpty | notWritten | notCommitted | completed
    | abortSent => exact trivial
  | begun | committed => exact hs
  | accepted o' h' r =>
      obtain rfl : o' = o := hs
      split
      · exact trivial
      · unfold onAccepted
        split
        · split
          · exact trivial
          · rfl
        · exact serves_chunkLoop
  | chunk o' h' v' a =>
      obtain rfl : o' = o := hs
      exact serves_onChunk rx a
  | gapSent o' h' v' r | progressSent o' h' v' r =>
      obtain rfl : o' = o := hs
      exact serves_onProgressSent r
  | written o' h' v' bs =>
      obtain rfl : o' = o := hs
      unfold onWritten
      dsimp only
      split
      · split
        · exact trivial
        · rfl
      · split
        · rfl
        · exact serves_chunkLoop
  | aborted h' last err =>
      cases last with
      | none | some => exact trivial

/-- A chunk of another transfer is dropped. -/
theorem onChunk_foreign (rx : Intake) {r : Read FileChunkRoot} (h : foreign o.transferId r = true) :
    (rx.onChunk o hd v (.received r) : RecvPc H E) = .waitChunk o hd v := by
  unfold foreign at h
  unfold Intake.onChunk
  cases hid : chunkTransferId r with
  | error e =>
      rw [hid] at h
      cases h
  | ok id =>
      rw [hid] at h
      simp only [hid]
      exact if_neg (of_decide_eq_true h)

end Serves

variable {ι H E : Type} [DecidableEq ι] {depth maxBody : Nat}

/-- The mailbox of the chunks, and the calls that wait at it. -/
structure Desk (ι H E : Type) (depth maxBody : Nat) where
  box : Bus.Mailbox depth maxBody := .new
  calls : ι → RecvPc H E
  /-- The chunks `ingest` has accepted, in order. -/
  accepted : List Bus.Entry := []
  /-- Who has taken which chunk, in order. -/
  takes : List (ι × Bytes) := []

/-- What the calls on a desk are about. -/
structure Desk.Params (ι : Type) where
  sha256 : Bytes → Digest
  /-- capnp's reader. -/
  read : Bytes → Read FileChunkRoot
  /-- The peer all calls receive from. -/
  peer : UInt8
  variant : ι → Variant
  cfg : ι → ReceiverConfig
  /-- The offers the calls have taken. -/
  offer : ι → Offer

namespace Desk

/-- A chunk arrives from anywhere, a call takes one, or something else a call waits for
happens. -/
inductive Label (ι H E : Type) where
  | ingest (source : UInt8) (body : Bytes)
  | take (i : ι)
  | answer (i : ι) (r : RecvResp H E)

/-- A chunk has arrived, which only the mailbox can say. -/
def isChunk : RecvResp H E → Bool
  | .chunk (.received _) => true
  | _ => false

/-- The predicate `|_| true` of `__recv_next_capnp_from`. -/
def anyBody (_ : Unit) (_ : Bytes) : Bool × Unit := (true, ())

variable (P : Params ι) (w : Desk ι H E depth maxBody)

/-- The code of call `i`. -/
def code (i : ι) : Coroutine (RecvPc H E) (RecvReq H) (RecvResp H E) :=
  receiver P.sha256 (P.variant i).intake (P.cfg i)

/-- One move. -/
def step : Label ι H E → Option (Desk ι H E depth maxBody)
  | .ingest source body =>
      match w.box.push source body with
      | (.ok _, box) => some { w with box, accepted := w.accepted ++ [⟨source, body⟩] }
      | (.error _, box) => some { w with box }
  | .take i =>
      match w.box.pop anyBody P.peer () with
      | (none, _, _) => none
      | (some found, _, box) =>
          ((code P i).resume (w.calls i) (.chunk (.received (P.read found.entry.body)))).map fun pc ↦
            { w with box, calls := Function.update w.calls i pc
                     takes := w.takes ++ [(i, found.entry.body)] }
  | .answer i r =>
      if isChunk r then none
      else ((code P i).resume (w.calls i) r).map fun pc ↦
        { w with calls := Function.update w.calls i pc }

/-- The desk as a machine. -/
def machine : Machine (Desk ι H E depth maxBody) (Label ι H E) where
  step w l := step P w l

/-- Every call has taken its offer, and no chunk has arrived. -/
def start : Desk ι H E depth maxBody := { calls := fun i ↦ .beginWrite (P.offer i) }

/-- The chunks of the peer that have arrived. -/
def arrived : List Bytes := (w.accepted.filter (·.source = P.peer)).map Bus.Entry.body

/-- The chunks of the peer that nobody has taken. -/
def waiting : List Bytes := (w.box.entries.filter (·.source = P.peer)).map Bus.Entry.body

/-- The chunks call `i` has taken and not dropped. -/
def kept (i : ι) : List Bytes :=
  (w.takes.filter fun t ↦ t.1 = i ∧ foreign (P.offer i).transferId (P.read t.2) = false).map Prod.snd

/-! ## Moves -/

variable {P} {w} {w' : Desk ι H E depth maxBody} {l : Label ι H E}

omit [DecidableEq ι] in
/-- Only a call that waits for a chunk can be given one. -/
theorem resume_chunk {i : ι} {pc pc' : RecvPc H E} {a : Arrival (Read FileChunkRoot)}
    (h : (code P i).resume pc (.chunk a) = some pc') :
    ∃ o hd v, pc = .waitChunk o hd v ∧ pc' = (P.variant i).intake.onChunk o hd v a := by
  cases pc with
  | waitChunk o hd v => exact ⟨o, hd, v, rfl, (Option.some.inj h).symm⟩
  | recvReq | sendReject | beginWrite | sendAccept | commitEmpty | sendGap | writeAt | sendProgress
    | commit | sendComplete | abort | sendAbort | done => cases h

/-- The first element with a property, and the others. -/
theorem filter_eraseIdx {α : Type} {p : α → Bool} {as : List α} {n : Nat} {a : α}
    (ha : as[n]? = some a) (hp : p a = true) (hno : ∀ m b, m < n → as[m]? = some b → p b = false) :
    as.filter p = a :: (as.eraseIdx n).filter p := by
  induction as generalizing n with
  | nil => cases ha
  | cons b as ih =>
      cases n with
      | zero =>
          obtain rfl := Option.some.inj ha
          rw [List.filter_cons_of_pos hp, List.eraseIdx_cons_zero]
      | succ n =>
          have hb : p b = false := hno 0 b (Nat.succ_pos n) rfl
          rw [List.eraseIdx_cons_succ, List.filter_cons_of_neg (Bool.eq_false_iff.mp hb),
            List.filter_cons_of_neg (Bool.eq_false_iff.mp hb)]
          exact ih ha fun m c hm hc ↦ hno (m + 1) c (Nat.succ_lt_succ hm) hc

/-- A call takes the oldest chunk of the peer. -/
theorem pop_anyBody {box box' : Bus.Mailbox depth maxBody} {peer : UInt8}
    {found : Bus.MailboxSlot maxBody} {u : Unit} (h : box.pop anyBody peer () = (some found, u, box')) :
    found.entry.source = peer ∧
      box.entries.filter (·.source = peer) = found.entry :: box'.entries.filter (·.source = peer) := by
  cases hs : (search (Bus.TypeMailbox.askFrom anyBody peer) box.entries ()).1 with
  | none =>
      rw [Bus.Mailbox.pop_none hs] at h
      cases h
  | some n =>
      obtain ⟨out, rest, hpop, hout, hrest⟩ := Bus.Mailbox.pop_some hs
      rw [hpop] at h
      obtain ⟨rfl, rfl, rfl⟩ := h
      obtain ⟨e, he, hyes, hno⟩ := search_eq_some.mp hs
      obtain rfl : found.entry = e := Option.some.inj (hout.symm.trans he)
      -- what is accepted is of the peer, and what is refused is not
      have hask : ∀ (u : Unit) (e : Bus.Entry),
          (Bus.TypeMailbox.askFrom anyBody peer u e).1 = decide (e.source = peer) := by
        intro u e
        rw [Bus.TypeMailbox.askFrom]
        split
        · next hsource => exact (decide_eq_true hsource).symm
        · next hsource => exact (decide_eq_false hsource).symm
      rw [hask] at hyes
      refine ⟨of_decide_eq_true hyes, ?_⟩
      rw [hrest]
      refine filter_eraseIdx hout hyes ?_
      intro m b hm hb
      rw [← hask]
      exact hno m b hm hb

/-- The shape of a move. -/
inductive Turn (P : Params ι) (w : Desk ι H E depth maxBody) : Label ι H E →
    Desk ι H E depth maxBody → Prop
  | refused (source : UInt8) (body : Bytes) : Turn P w (.ingest source body) w
  | ingested (source : UInt8) (body : Bytes) (box : Bus.Mailbox depth maxBody)
      (hbox : box.entries = w.box.entries ++ [⟨source, body⟩]) :
      Turn P w (.ingest source body) { w with box, accepted := w.accepted ++ [⟨source, body⟩] }
  | took (i : ι) (found : Bus.MailboxSlot maxBody) (box : Bus.Mailbox depth maxBody) (o : Offer)
      (hd : H) (v : RecvVars) (hcall : w.calls i = .waitChunk o hd v)
      (hsource : found.entry.source = P.peer)
      (hbox : w.box.entries.filter (·.source = P.peer) =
        found.entry :: box.entries.filter (·.source = P.peer)) :
      Turn P w (.take i)
        { w with
          box
          calls := Function.update w.calls i
            ((P.variant i).intake.onChunk o hd v (.received (P.read found.entry.body)))
          takes := w.takes ++ [(i, found.entry.body)] }
  | answered (i : ι) (r : RecvResp H E) (pc : RecvPc H E) (hr : isChunk r = false)
      (hresume : (code P i).resume (w.calls i) r = some pc) :
      Turn P w (.answer i r) { w with calls := Function.update w.calls i pc }

theorem step_turn (h : step P w l = some w') : Turn P w l w' := by
  cases l with
  | ingest source body =>
      rcases w.box.push_cases source body with ⟨e, heq⟩ | ⟨box, heq, hentries⟩
      · rw [step, heq] at h
        obtain rfl := Option.some.inj h
        exact .refused source body
      · rw [step, heq] at h
        obtain rfl := Option.some.inj h
        exact .ingested source body box hentries
  | take i =>
      rw [step] at h
      split at h
      · cases h
      · next found u box hpop =>
          obtain ⟨pc, hresume, rfl⟩ := Option.map_eq_some_iff.mp h
          obtain ⟨o, hd, v, hcall, rfl⟩ := resume_chunk hresume
          obtain ⟨hsource, hbox⟩ := pop_anyBody hpop
          exact .took i found box o hd v hcall hsource hbox
  | answer i r =>
      rw [step] at h
      split at h
      · cases h
      · next hr =>
          obtain ⟨pc, hresume, rfl⟩ := Option.map_eq_some_iff.mp h
          exact .answered i r pc (Bool.eq_false_iff.mpr hr) hresume

/-! ## The order of the chunks -/

/-- Every chunk of the peer is taken once, the oldest first, or waits. -/
theorem inOrder_of_reachable (hw : (machine P).Reachable (start P) w) :
    w.takes.map Prod.snd ++ w.waiting P = w.arrived P := by
  refine hw.invariant (I := fun w ↦ w.takes.map Prod.snd ++ w.waiting P = w.arrived P) rfl ?_
  intro a l b hi hs
  have hturn : Turn P a l b := step_turn hs
  cases hturn with
  | refused source body => exact hi
  | ingested source body box hbox =>
      simp only [waiting, arrived] at hi ⊢
      rw [hbox, List.filter_append, List.filter_append, List.map_append, List.map_append, ← hi,
        List.append_assoc]
  | took i found box o hd v hcall hsource hbox =>
      simp only [waiting, arrived] at hi ⊢
      rw [hbox] at hi
      rw [List.map_append, List.append_assoc, ← hi]
      rfl
  | answered i r pc hr hresume => exact hi

/-! ## A call on its own -/

theorem serves_of_reachable (hw : (machine P).Reachable (start P) w) (i : ι) :
    (w.calls i).Serves (P.offer i) := by
  refine hw.invariant (I := fun w ↦ ∀ i, (w.calls i).Serves (P.offer i)) (fun _ ↦ rfl)
    (fun a l b hi hs ↦ ?_) i
  intro j
  have update : ∀ i pc, pc.Serves (P.offer i) →
      (Function.update a.calls i pc j).Serves (P.offer j) := by
    intro i pc hpc
    by_cases hji : j = i
    · rw [hji, Function.update_self]
      exact hpc
    · rw [Function.update_of_ne hji]
      exact hi j
  have hturn : Turn P a l b := step_turn hs
  cases hturn with
  | refused | ingested => exact hi j
  | took i found box o hd v hcall hsource hbox =>
      have ho : (RecvPc.waitChunk o hd v : RecvPc H E).Serves (P.offer i) := hcall ▸ hi i
      obtain rfl : o = P.offer i := ho
      exact update i _ (serves_onChunk _ _)
  | answered i r pc hr hresume => exact update i pc ((hi i).resume hresume)

/-- A move of call `i`, or the arrival of a chunk that is not of another transfer. -/
def Label.Alone (P : Params ι) (i : ι) : Label ι H E → Prop
  | .ingest source body =>
      source = P.peer ∧ foreign (P.offer i).transferId (P.read body) = false
  | .take j | .answer j _ => j = i

/-- Run on its own, with only the chunks it has kept arriving, call `i` gets to where it
stands in `w`. -/
def RunsAlone (P : Params ι) (w : Desk ι H E depth maxBody) (i : ι) : Prop :=
  ∃ ls, ∃ v : Desk ι H E depth maxBody, (∀ l ∈ ls, l.Alone P i) ∧ (machine P).exec (start P) ls = some v ∧
    v.calls i = w.calls i ∧ v.arrived P = w.kept P i ∧ v.takes = (w.kept P i).map (i, ·)

/-- The chunk a call would keep, alone in the mailbox, is taken. -/
theorem exec_ingest_take {v : Desk ι H E depth maxBody} {i : ι} {body : Bytes} {o : Offer} {hd : H}
    {vars : RecvVars} (hempty : v.box.entries = []) (hdepth : 0 < depth) (hbody : body.length ≤ maxBody)
    (hcall : v.calls i = .waitChunk o hd vars) :
    ∃ v', (machine P).exec v [.ingest P.peer body, .take i] = some v' ∧ v'.box.entries = [] ∧
      v'.calls i = (P.variant i).intake.onChunk o hd vars (.received (P.read body)) ∧
      v'.accepted = v.accepted ++ [⟨P.peer, body⟩] ∧ v'.takes = v.takes ++ [(i, body)] := by
  obtain ⟨hok, hentries⟩ := Bus.Mailbox.push_ok P.peer hbody
    (show v.box.entries.length < depth from hempty ▸ hdepth)
  set box := (v.box.push P.peer body).2 with hbox
  have hpush : v.box.push P.peer body = (.ok (), box) := Prod.ext hok rfl
  rw [hempty, List.nil_append] at hentries
  have hsearch : (search (Bus.TypeMailbox.askFrom anyBody P.peer) box.entries ()).1 = some 0 := by
    rw [hentries, search, Bus.TypeMailbox.askFrom, if_pos rfl]
    rfl
  obtain ⟨found, box', hpop, hfound, hbox'⟩ := Bus.Mailbox.pop_some hsearch
  have hentry : found.entry = ⟨P.peer, body⟩ := by
    rw [hentries] at hfound
    exact (Option.some.inj hfound).symm
  have hingest : (machine P).step v (.ingest P.peer body) =
      some { v with box, accepted := v.accepted ++ [⟨P.peer, body⟩] } := by
    simp only [machine, step, hpush]
  have htake : (machine P).step { v with box, accepted := v.accepted ++ [⟨P.peer, body⟩] } (.take i) =
      some
        { v with
          box := box'
          accepted := v.accepted ++ [⟨P.peer, body⟩]
          calls := Function.update v.calls i
            ((P.variant i).intake.onChunk o hd vars (.received (P.read body)))
          takes := v.takes ++ [(i, body)] } := by
    simp only [machine, step, hpop, hentry, hcall]
    rfl
  refine ⟨_, Machine.exec_cons.mpr ⟨_, hingest, Machine.exec_cons.mpr ⟨_, htake, rfl⟩⟩, ?_,
    Function.update_self _ _ _, rfl, rfl⟩
  show box'.entries = []
  rw [hbox', hentries]
  rfl

/-- Whatever was in a mailbox fits into an empty one. -/
theorem fits_of_found {box : Bus.Mailbox depth maxBody} {peer : UInt8} {e : Bus.Entry}
    {es : List Bus.Entry} (h : box.entries.filter (·.source = peer) = e :: es) : 0 < depth := by
  have hmem : e ∈ box.entries := (List.mem_filter.mp (h ▸ List.mem_cons_self)).1
  exact Nat.lt_of_lt_of_le (List.length_pos_of_mem hmem) box.length_entries_le

theorem length_body_le (found : Bus.MailboxSlot maxBody) : found.entry.body.length ≤ maxBody := by
  rw [Bus.MailboxSlot.entry, List.length_take, Vector.length_toList]
  exact Nat.min_le_right _ _

theorem kept_snoc (i j : ι) (body : Bytes) (w w' : Desk ι H E depth maxBody)
    (h : w'.takes = w.takes ++ [(j, body)]) :
    w'.kept P i = if j = i ∧ foreign (P.offer i).transferId (P.read body) = false
      then w.kept P i ++ [body] else w.kept P i := by
  rw [kept, h, List.filter_append, List.map_append]
  split
  · next hkept =>
      rw [List.filter_cons_of_pos (by simpa using hkept)]
      rfl
  · next hkept =>
      rw [List.filter_cons_of_neg (by simpa using hkept)]
      exact List.append_nil _

/-- The run on its own that `RunsAlone` speaks of, with an empty mailbox in the end. -/
def Replays (P : Params ι) (w : Desk ι H E depth maxBody) (i : ι) : Prop :=
  ∃ ls, ∃ v : Desk ι H E depth maxBody, (∀ l ∈ ls, l.Alone P i) ∧ (machine P).exec (start P) ls = some v ∧
    v.box.entries = [] ∧ v.calls i = w.calls i ∧ v.arrived P = w.kept P i ∧
    v.takes = (w.kept P i).map (i, ·)

theorem Replays.runsAlone {i : ι} (h : w.Replays P i) : w.RunsAlone P i := by
  obtain ⟨ls, v, hls, hexec, -, hv⟩ := h
  exact ⟨ls, v, hls, hexec, hv⟩

/-- What is done by other calls is left out. -/
theorem Replays.congr {i : ι} (h : w.Replays P i) (hcall : w'.calls i = w.calls i)
    (hkept : w'.kept P i = w.kept P i) : w'.Replays P i := by
  obtain ⟨ls, v, hls, hexec, hempty, hv, harrived, htakes⟩ := h
  exact ⟨ls, v, hls, hexec, hempty, hv.trans hcall.symm, hkept ▸ harrived, hkept ▸ htakes⟩

/-- A chunk that is kept arrives, and is taken. -/
theorem Replays.keep {i : ι} {body : Bytes} {o : Offer} {hd : H} {v : RecvVars} (h : w.Replays P i)
    (hdepth : 0 < depth) (hbody : body.length ≤ maxBody) (hcall : w.calls i = .waitChunk o hd v)
    (hown : foreign (P.offer i).transferId (P.read body) = false)
    (hcall' : w'.calls i = (P.variant i).intake.onChunk o hd v (.received (P.read body)))
    (hkept : w'.kept P i = w.kept P i ++ [body]) : w'.Replays P i := by
  obtain ⟨ls, u, hls, hexec, hempty, hu, harrived, htakes⟩ := h
  obtain ⟨u', hexec', hempty', hu', haccepted', htakes'⟩ :=
    exec_ingest_take hempty hdepth hbody (hu.trans hcall)
  refine ⟨ls ++ [.ingest P.peer body, .take i], u', ?_, Machine.exec_append.mpr ⟨u, hexec, hexec'⟩,
    hempty', hu'.trans hcall'.symm, ?_, ?_⟩
  · intro l hl
    rcases List.mem_append.mp hl with hl | hl
    · exact hls l hl
    · rcases List.mem_pair.mp hl with rfl | rfl
      · exact ⟨rfl, hown⟩
      · rfl
  · rw [arrived, haccepted', List.filter_append, List.map_append, List.filter_cons_of_pos (by simp), hkept,
      ← harrived]
    rfl
  · rw [htakes', htakes, hkept, List.map_append]
    rfl

/-- The call is answered. -/
theorem Replays.answer {i : ι} {r : RecvResp H E} {pc : RecvPc H E} (h : w.Replays P i)
    (hr : isChunk r = false) (hresume : (code P i).resume (w.calls i) r = some pc)
    (hcall' : w'.calls i = pc) (hkept : w'.kept P i = w.kept P i) : w'.Replays P i := by
  obtain ⟨ls, u, hls, hexec, hempty, hu, harrived, htakes⟩ := h
  have hanswer : (machine P).step u (.answer i r) =
      some { u with calls := Function.update u.calls i pc } := by
    simp only [machine, step, hr, hu, hresume]
    rfl
  refine ⟨ls ++ [.answer i r], { u with calls := Function.update u.calls i pc }, ?_,
    Machine.exec_snoc.mpr ⟨u, hexec, hanswer⟩, hempty, ?_, hkept ▸ harrived, hkept ▸ htakes⟩
  · intro l hl
    rcases List.mem_append.mp hl with hl | hl
    · exact hls l hl
    · obtain rfl := List.mem_singleton.mp hl
      rfl
  · rw [hcall']
    exact Function.update_self _ _ _

theorem replays_of_reachable (hw : (machine P).Reachable (start P) w) (i : ι) : w.Replays P i := by
  refine hw.induction_on (P := fun w ↦ w.Replays P i)
    ⟨[], start P, nofun, rfl, rfl, rfl, rfl, rfl⟩ ?_
  intro a l b ha hi hs
  have hserves := serves_of_reachable ha i
  have hturn : Turn P a l b := step_turn hs
  cases hturn with
  | refused source body => exact hi
  | ingested source body box hbox => exact hi.congr rfl rfl
  | took j found box o hd v hcall hsource hbox =>
      by_cases hji : j = i
      · obtain rfl := hji
        rw [hcall] at hserves
        obtain rfl : o = P.offer j := hserves
        cases hforeign : foreign (P.offer j).transferId (P.read found.entry.body) with
        | false =>
            refine hi.keep (fits_of_found hbox) (length_body_le found) hcall hforeign
              (Function.update_self _ _ _) ?_
            exact (kept_snoc j j _ a _ rfl).trans (if_pos ⟨rfl, hforeign⟩)
        | true =>
            -- the chunk is dropped, and the call waits as before
            refine hi.congr ?_ ((kept_snoc j j _ a _ rfl).trans (if_neg ?_))
            · rw [hcall, ← onChunk_foreign (P.variant j).intake hforeign]
              exact Function.update_self _ _ _
            · rintro ⟨-, hown⟩
              cases hforeign.symm.trans hown
      · refine hi.congr (Function.update_of_ne (Ne.symm hji) _ _) ?_
        exact (kept_snoc i j _ a _ rfl).trans (if_neg fun h ↦ hji h.1)
  | answered j r pc hr hresume =>
      by_cases hji : j = i
      · obtain rfl := hji
        exact hi.answer hr hresume (Function.update_self _ _ _) rfl
      · exact hi.congr (Function.update_of_ne (Ne.symm hji) _ _) rfl

/-- **What a call does is decided by the chunks it has kept.** -/
theorem runsAlone_of_reachable (hw : (machine P).Reachable (start P) w) (i : ι) : w.RunsAlone P i :=
  (replays_of_reachable hw i).runsAlone

/-! ## Who gets which chunk -/

/-- What the calls at a desk can rely on. -/
structure Share (P : Params ι) (w : Desk ι H E depth maxBody) : Prop where
  /-- Every chunk of the peer is taken once, in the order of arrival, or waits. -/
  inOrder : w.takes.map Prod.snd ++ w.waiting P = w.arrived P
  /-- A call does what it would do on its own with the chunks it has kept. -/
  alone : ∀ i, w.RunsAlone P i
  /-- If no call has taken a chunk with the transfer id of another call, then each call has
  taken the chunks of its own transfer that have arrived, up to those that wait. -/
  undisturbed : (∀ t ∈ w.takes, ∀ j, j ≠ t.1 →
      own (P.offer j).transferId (P.read t.2) = false) → ∀ i,
    (∀ t ∈ w.takes, own (P.offer i).transferId (P.read t.2) = true → t.1 = i) ∧
      (w.arrived P).filter (fun b ↦ own (P.offer i).transferId (P.read b)) =
        (w.kept P i).filter (fun b ↦ own (P.offer i).transferId (P.read b)) ++
          (w.waiting P).filter (fun b ↦ own (P.offer i).transferId (P.read b))

theorem not_foreign_of_own {t : UInt32} {r : Read FileChunkRoot} (h : own t r = true) :
    foreign t r = false := by
  unfold own at h
  unfold foreign
  split at h
  · exact decide_eq_false (not_not.mpr (of_decide_eq_true h))
  · cases h

/-- **Concurrent receive calls for one peer.**  Two of them may have the same transfer id; then
every chunk with it has the id of another call. -/
theorem share_of_reachable (P : Params ι) (w : Desk ι H E depth maxBody)
    (hw : (machine P).Reachable (start P) w) : w.Share P := by
  refine ⟨inOrder_of_reachable hw, runsAlone_of_reachable hw, ?_⟩
  intro hnone i
  have hown : ∀ t ∈ w.takes, own (P.offer i).transferId (P.read t.2) = true → t.1 = i := by
    intro t ht ho
    by_contra hne
    exact Bool.false_ne_true ((hnone t ht i (Ne.symm hne)).symm.trans ho)
  refine ⟨hown, ?_⟩
  have hkept : (w.takes.map Prod.snd).filter (fun b ↦ own (P.offer i).transferId (P.read b)) =
      (w.kept P i).filter (fun b ↦ own (P.offer i).transferId (P.read b)) := by
    rw [kept, List.filter_map, List.filter_map, List.filter_filter]
    refine congrArg _ (List.filter_congr fun t ht ↦ ?_)
    rw [Bool.eq_iff_iff]
    simp only [Function.comp_apply, Bool.and_eq_true, decide_eq_true_eq]
    exact ⟨fun ho ↦ ⟨ho, hown t ht ho, not_foreign_of_own ho⟩, fun h ↦ h.1⟩
  rw [← inOrder_of_reachable hw, List.filter_append, hkept]

/-- Two calls for the peer `0xAA` have taken the offers of the transfers 1 and 2. -/
def twoCalls : Params Bool where
  sha256 := shortSha256
  read := readFileChunk
  peer := 0xAA
  variant _ := .recvFile
  cfg _ := {}
  offer i := ⟨if i then 2 else 1, 3, 64, 64, [], .sha256, abcDigest⟩

/-- The chunk of transfer 1. -/
def firstChunk : Bytes := (FileChunkValue.mk 1 0 abc).body

/-- Both calls get to their loops, the chunk of transfer 1 arrives, and the call that
serves transfer 2 is the first to look. -/
def theftRun : List (Label Bool Unit Unit) :=
  [.answer false (.began (.ok ())), .answer true (.began (.ok ())), .answer false (.sent .ok),
    .answer true (.sent .ok), .ingest 0xAA firstChunk, .take true]

/-- The chunk of one transfer is taken by the call that serves the other: it is gone,
and the call it was for waits for it. -/
theorem share_theft : ∃ w : Desk Bool Unit Unit 4 64,
    (machine twoCalls).exec (start twoCalls) theftRun = some w ∧
      own (twoCalls.offer false).transferId (twoCalls.read firstChunk) = true ∧
      firstChunk ∈ w.arrived twoCalls ∧ (true, firstChunk) ∈ w.takes ∧
      w.waiting twoCalls = [] ∧ w.kept twoCalls false = [] ∧
      w.calls false = .waitChunk (twoCalls.offer false) () {} := by
  have hexec : (machine twoCalls).exec (start twoCalls : Desk Bool Unit Unit 4 64) theftRun =
      some { box := _, calls := _, accepted := _, takes := _ } := rfl
  exact ⟨_, hexec, by decide, by decide, by decide, by decide, by decide, rfl⟩

theorem share_of_reachable_theft : ∃ w : Desk Bool Unit Unit 4 64,
    (machine twoCalls).exec (start twoCalls) theftRun = some w ∧ w.Share twoCalls := by
  have hexec : (machine twoCalls).exec (start twoCalls : Desk Bool Unit Unit 4 64) theftRun =
      some { box := _, calls := _, accepted := _, takes := _ } := rfl
  exact ⟨_, hexec, share_of_reachable twoCalls _ ⟨theftRun, hexec⟩⟩

end Desk

end Thincan.FileTransfer

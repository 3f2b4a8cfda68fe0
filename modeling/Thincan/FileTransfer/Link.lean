import Thincan.FileTransfer.Network

/-!
# A sender and its peer over a link

The same two parties as in `Network`, connected by a link that keeps the order of
the messages of each type: what is in flight, or waiting in a mailbox, is one
queue per type, and a wait takes the head of its queue.  A `Regime` says what
else may happen: messages of any type may be lost from anywhere in their queue,
waits may time out, sends and store calls may fail, and the peer may make
further receive calls.  There is always a free waiter slot, so a wait never ends
with a bus error.

A link is a network with less freedom: `Link.Move.net` projects every move to a
move of the network or to no move at all, so everything known of networks holds
of links (`Link.reachable_net`).
-/

namespace Thincan.FileTransfer

open Process

/-- What may happen besides sending and receiving. -/
structure Regime where
  /-- Messages in flight may be lost. -/
  loss : Bool
  /-- Waits may time out. -/
  timeouts : Bool
  /-- Sends and store calls may fail. -/
  faults : Bool
  /-- The peer may call its receive function again. -/
  recalls : Bool
deriving DecidableEq, Repr

/-- The sender may be answered so. -/
def Regime.allowsSend (ρ : Regime) : SendResp → Bool
  | .ack (.received _) => true
  | .ack .timeout => ρ.timeouts
  | .ack .unavailable => false
  | .sent .ok => true
  | .sent (.failed _ _) => ρ.faults

/-- The receive call may be answered so. -/
def Regime.allowsRecv {H E : Type} (ρ : Regime) : RecvResp H E → Bool
  | .req body => body.isSome
  | .chunk (.received _) => true
  | .chunk .timeout => ρ.timeouts
  | .chunk .unavailable => false
  | .sent .ok => true
  | .sent (.failed _ _) => ρ.faults
  | .began (.ok _) => true
  | .began (.error _) => ρ.faults
  | .wrote (.ok _) => true
  | .wrote (.error _) => ρ.faults
  | .committed (.ok _) => true
  | .committed (.error _) => ρ.faults
  | .aborted => true

/-- The two parties, and what is in flight between them, the oldest first. -/
structure Link (H E : Type) where
  net : Network H E
  offers : List FileOfferValue := []
  chunks : List FileChunkValue := []
  acks : List FileAckValue := []

/-- Who moves and what it is answered, or which message is lost. -/
inductive Link.Label (H E : Type) where
  | send (r : SendResp)
  | recv (r : RecvResp H E)
  | call (variant : Variant) (cfg : ReceiverConfig)
  | loseOffer (i : Nat)
  | loseChunk (i : Nat)
  | loseAck (i : Nat)

/-- Take the body from the head of a queue. -/
def pop {α β : Type} [DecidableEq β] (root : α → β) (queue : List α) (body : Read β) :
    Option (List α) :=
  match queue with
  | [] => none
  | a :: as => if body = .ok (root a) then some as else none

theorem pop_eq_some {α β : Type} [DecidableEq β] {root : α → β} {queue rest : List α}
    {body : Read β} :
    pop root queue body = some rest ↔ ∃ a, queue = a :: rest ∧ body = .ok (root a) := by
  cases queue with
  | nil => simp [pop]
  | cons a as =>
      simp only [pop, Option.ite_none_right_eq_some, Option.some.injEq, List.cons.injEq]
      constructor
      · rintro ⟨hb, rfl⟩
        exact ⟨a, ⟨rfl, rfl⟩, hb⟩
      · rintro ⟨a', ⟨rfl, rfl⟩, hb⟩
        exact ⟨hb, rfl⟩

theorem pop_cons {α β : Type} [DecidableEq β] {root : α → β} {a : α} {rest : List α} :
    pop root (a :: rest) (.ok (root a)) = some rest := if_pos rfl

theorem mem_of_pop {α β : Type} [DecidableEq β] {root : α → β} {queue rest : List α}
    {body : Read β} (h : pop root queue body = some rest) : ∀ a ∈ rest, a ∈ queue := by
  obtain ⟨a, rfl, -⟩ := pop_eq_some.mp h
  exact fun b hb ↦ List.mem_cons_of_mem a hb

variable {H E : Type}

namespace Link

/-- The acknowledgements left after the sender was answered. -/
def takeAck (w : Link H E) : SendResp → Option (List FileAckValue)
  | .ack (.received body) => pop FileAckValue.root w.acks body
  | _ => some w.acks

/-- The offers left after the receive call was answered. -/
def takeOffer (w : Link H E) : RecvResp H E → Option (List FileOfferValue)
  | .req (some body) => pop FileOfferValue.root w.offers body
  | _ => some w.offers

/-- The chunks left after the receive call was answered. -/
def takeChunk (w : Link H E) : RecvResp H E → Option (List FileChunkValue)
  | .chunk (.received body) => pop FileChunkValue.root w.chunks body
  | _ => some w.chunks

/-- The sender was answered: what it handed over joins the queues. -/
def sent (w : Link H E) (s : SendPc) (e : SendEvent) (as : List FileAckValue) : Link H E where
  net := { w.net with sender := s, sendHist := w.net.sendHist ++ [e] }
  offers := w.offers ++ (handedOffer e).toList
  chunks := w.chunks ++ (handedChunk e).toList
  acks := as

/-- The receive call was answered. -/
def received (w : Link H E) (c : RecvCall H E) (cs : List (RecvCall H E)) (s : RecvPc H E)
    (e : RecvEvent H E) (os : List FileOfferValue) (ks : List FileChunkValue) : Link H E where
  net := { w.net with calls := { c with pc := s, hist := c.hist ++ [e] } :: cs }
  offers := os
  chunks := ks
  acks := w.acks ++ (handedAck e).toList

/-- One move of the link. -/
def step (ρ : Regime) (sha256 : Bytes → Digest) (x : SendCall) (w : Link H E) :
    Label H E → Option (Link H E)
  | .send r =>
      if ρ.allowsSend r then
        (w.takeAck r).bind fun as ↦
          ((sendFileWithId sha256 x).fire w.net.sender r).map fun es ↦ w.sent es.2 es.1 as
      else none
  | .recv r =>
      match w.net.calls with
      | [] => none
      | c :: cs =>
          if ρ.allowsRecv r then
            (w.takeOffer r).bind fun os ↦ (w.takeChunk r).bind fun ks ↦
              ((receiver sha256 c.variant.intake c.cfg).fire c.pc r).map fun es ↦
                w.received c cs es.2 es.1 os ks
          else none
  | .call variant cfg =>
      if ρ.recalls && w.net.calls.all (·.pc.isDone) then
        some { w with net := { w.net with calls := { variant, cfg } :: w.net.calls } }
      else none
  | .loseOffer i =>
      if ρ.loss && i < w.offers.length then some { w with offers := w.offers.eraseIdx i } else none
  | .loseChunk i =>
      if ρ.loss && i < w.chunks.length then some { w with chunks := w.chunks.eraseIdx i } else none
  | .loseAck i =>
      if ρ.loss && i < w.acks.length then some { w with acks := w.acks.eraseIdx i } else none

/-- The link as a machine. -/
def machine (ρ : Regime) (sha256 : Bytes → Digest) (x : SendCall) :
    Machine (Link H E) (Label H E) where
  step := step ρ sha256 x

/-- The link when `send_file_with_id` is called and the peer has made no call. -/
def init (x : SendCall) : Link H E where
  net := .init x

/-! ## What one move can do -/

/-- The moves of the link. -/
inductive Move (ρ : Regime) (sha256 : Bytes → Digest) (x : SendCall) (w : Link H E) :
    Link H E → Prop
  | send (e : SendEvent) (s : SendPc) (as : List FileAckValue) (hρ : ρ.allowsSend e.2 = true)
      (htake : w.takeAck e.2 = some as)
      (hf : (sendFileWithId sha256 x).fire w.net.sender e.2 = some (e, s)) :
      Move ρ sha256 x w (w.sent s e as)
  | recv (c : RecvCall H E) (cs : List (RecvCall H E)) (e : RecvEvent H E) (s : RecvPc H E)
      (os : List FileOfferValue) (ks : List FileChunkValue) (hcalls : w.net.calls = c :: cs)
      (hρ : ρ.allowsRecv e.2 = true) (hos : w.takeOffer e.2 = some os)
      (hks : w.takeChunk e.2 = some ks)
      (hf : (receiver sha256 c.variant.intake c.cfg).fire c.pc e.2 = some (e, s)) :
      Move ρ sha256 x w (w.received c cs s e os ks)
  | call (variant : Variant) (cfg : ReceiverConfig) (hρ : ρ.recalls = true)
      (hdone : w.net.calls.all (·.pc.isDone) = true) :
      Move ρ sha256 x w { w with net := { w.net with calls := { variant, cfg } :: w.net.calls } }
  | loseOffer (i : Nat) (hρ : ρ.loss = true) (hi : i < w.offers.length) :
      Move ρ sha256 x w { w with offers := w.offers.eraseIdx i }
  | loseChunk (i : Nat) (hρ : ρ.loss = true) (hi : i < w.chunks.length) :
      Move ρ sha256 x w { w with chunks := w.chunks.eraseIdx i }
  | loseAck (i : Nat) (hρ : ρ.loss = true) (hi : i < w.acks.length) :
      Move ρ sha256 x w { w with acks := w.acks.eraseIdx i }

variable {ρ : Regime} {sha256 : Bytes → Digest} {x : SendCall}

theorem step_move {w w' : Link H E} {l : Label H E} (h : step ρ sha256 x w l = some w') :
    Move ρ sha256 x w w' := by
  cases l with
  | send r =>
      simp only [step, Option.ite_none_right_eq_some, Option.bind_eq_some_iff,
        Option.map_eq_some_iff] at h
      obtain ⟨hρ, as, htake, ⟨e, s⟩, hf, rfl⟩ := h
      obtain rfl : e.2 = r := (Coroutine.fire_eq_some.mp hf).2.1
      exact .send e s as hρ htake hf
  | recv r =>
      simp only [step] at h
      split at h
      · cases h
      next c cs hcalls =>
      simp only [Option.ite_none_right_eq_some, Option.bind_eq_some_iff,
        Option.map_eq_some_iff] at h
      obtain ⟨hρ, os, hos, ks, hks, ⟨e, s⟩, hf, rfl⟩ := h
      obtain rfl : e.2 = r := (Coroutine.fire_eq_some.mp hf).2.1
      exact .recv c cs e s os ks hcalls hρ hos hks hf
  | call variant cfg =>
      simp only [step, Option.ite_none_right_eq_some, Bool.and_eq_true, Option.some.injEq] at h
      obtain ⟨⟨hρ, hdone⟩, rfl⟩ := h
      exact .call variant cfg hρ hdone
  | loseOffer i =>
      simp only [step, Option.ite_none_right_eq_some, Bool.and_eq_true, decide_eq_true_eq,
        Option.some.injEq] at h
      obtain ⟨⟨hρ, hi⟩, rfl⟩ := h
      exact .loseOffer i hρ hi
  | loseChunk i =>
      simp only [step, Option.ite_none_right_eq_some, Bool.and_eq_true, decide_eq_true_eq,
        Option.some.injEq] at h
      obtain ⟨⟨hρ, hi⟩, rfl⟩ := h
      exact .loseChunk i hρ hi
  | loseAck i =>
      simp only [step, Option.ite_none_right_eq_some, Bool.and_eq_true, decide_eq_true_eq,
        Option.some.injEq] at h
      obtain ⟨⟨hρ, hi⟩, rfl⟩ := h
      exact .loseAck i hρ hi

/-! ## A link is a network -/

/-- Everything in flight was handed over. -/
structure Queued (w : Link H E) : Prop where
  offers : ∀ o ∈ w.offers, o ∈ FileTransfer.offers w.net.sendHist
  chunks : ∀ c ∈ w.chunks, c ∈ FileTransfer.chunks w.net.sendHist
  acks : ∀ a ∈ w.acks, a.root ∈ w.net.ackPool

theorem Queued.init : Queued (Link.init x : Link H E) := ⟨nofun, nofun, nofun⟩

/-- An acknowledgement is taken from the head of its queue. -/
theorem takeAck_received {w : Link H E} {body : Read FileAckRoot} {as : List FileAckValue}
    (h : w.takeAck (.ack (.received body)) = some as) :
    ∃ a, w.acks = a :: as ∧ body = .ok a.root := pop_eq_some.mp h

/-- An offer is taken from the head of its queue. -/
theorem takeOffer_req {w : Link H E} {body : Read FileReqRoot} {os : List FileOfferValue}
    (h : w.takeOffer (.req (some body)) = some os) :
    ∃ o, w.offers = o :: os ∧ body = .ok o.root := pop_eq_some.mp h

/-- A chunk is taken from the head of its queue. -/
theorem takeChunk_received {w : Link H E} {body : Read FileChunkRoot} {ks : List FileChunkValue}
    (h : w.takeChunk (.chunk (.received body)) = some ks) :
    ∃ c, w.chunks = c :: ks ∧ body = .ok c.root := pop_eq_some.mp h

theorem mem_of_takeAck {w : Link H E} {r : SendResp} {as : List FileAckValue}
    (h : w.takeAck r = some as) : ∀ a ∈ as, a ∈ w.acks := by
  unfold takeAck at h
  split at h
  · exact mem_of_pop h
  · rw [← Option.some.inj h]
    exact fun _ hb ↦ hb

theorem mem_of_takeOffer {w : Link H E} {r : RecvResp H E} {os : List FileOfferValue}
    (h : w.takeOffer r = some os) : ∀ o ∈ os, o ∈ w.offers := by
  unfold takeOffer at h
  split at h
  · exact mem_of_pop h
  · rw [← Option.some.inj h]
    exact fun _ hb ↦ hb

theorem mem_of_takeChunk {w : Link H E} {r : RecvResp H E} {ks : List FileChunkValue}
    (h : w.takeChunk r = some ks) : ∀ c ∈ ks, c ∈ w.chunks := by
  unfold takeChunk at h
  split at h
  · exact mem_of_pop h
  · rw [← Option.some.inj h]
    exact fun _ hb ↦ hb

/-- What the link lets the sender take, the network can deliver. -/
theorem Queued.admitsSend {w : Link H E} (hq : Queued w) {r : SendResp} {as : List FileAckValue}
    (h : w.takeAck r = some as) : w.net.admitsSend x r = true := by
  unfold Network.admitsSend
  split
  · next body =>
      obtain ⟨a, hacks, rfl⟩ := takeAck_received h
      exact deliverable_of_mem (hq.acks a (hacks ▸ List.mem_cons_self))
  · rfl

/-- What the link lets the receive call take, the network can deliver. -/
theorem Queued.admitsRecv {w : Link H E} (hq : Queued w) {r : RecvResp H E}
    {os : List FileOfferValue} {ks : List FileChunkValue} (hos : w.takeOffer r = some os)
    (hks : w.takeChunk r = some ks) : w.net.admitsRecv x r = true := by
  unfold Network.admitsRecv
  split
  · next body =>
      obtain ⟨o, hoffers, rfl⟩ := takeOffer_req hos
      exact deliverable_of_mem (List.mem_map_of_mem (hq.offers o (hoffers ▸ List.mem_cons_self)))
  · next body =>
      obtain ⟨c, hchunks, rfl⟩ := takeChunk_received hks
      exact deliverable_of_mem (List.mem_map_of_mem (hq.chunks c (hchunks ▸ List.mem_cons_self)))
  · rfl

/-- **Every move of the link is a move of the network, or leaves it as it is.** -/
theorem Move.net {w w' : Link H E} (hq : Queued w) (hm : Move ρ sha256 x w w') :
    w'.net = w.net ∨ Network.Move sha256 x w.net w'.net := by
  cases hm with
  | send e s as hρ htake hf => exact .inr (.send e s (hq.admitsSend htake) hf)
  | recv c cs e s os ks hcalls hρ hos hks hf =>
      exact .inr (.recv c cs e s hcalls (hq.admitsRecv hos hks) hf)
  | call variant cfg hρ hdone => exact .inr (.call variant cfg hdone)
  | loseOffer | loseChunk | loseAck => exact .inl rfl

theorem Queued.step {w w' : Link H E} (hq : Queued w) (hm : Move ρ sha256 x w w') :
    Queued w' := by
  cases hm with
  | send e s as hρ htake hf =>
      refine ⟨?_, ?_, fun a ha ↦ hq.acks a (mem_of_takeAck htake a ha)⟩
      · intro o ho
        simp only [Link.sent, FileTransfer.offers, List.filterMap_append, List.mem_append] at ho ⊢
        refine ho.imp (hq.offers o) ?_
        intro ho
        simpa using ho
      · intro c hc
        simp only [Link.sent, FileTransfer.chunks, List.filterMap_append, List.mem_append] at hc ⊢
        refine hc.imp (hq.chunks c) ?_
        intro hc
        simpa using hc
  | recv c cs e s os ks hcalls hρ hos hks hf =>
      refine ⟨fun o ho ↦ hq.offers o (mem_of_takeOffer hos o ho),
        fun c hc ↦ hq.chunks c (mem_of_takeChunk hks c hc), ?_⟩
      intro a ha
      rcases List.mem_append.mp ha with ha | ha
      · exact Network.mem_ackPool_of_recv hcalls (hq.acks a ha)
      · simp only [Link.received, Network.ackPool, List.flatMap_cons, List.mem_append]
        left
        rw [acks_snoc]
        exact List.mem_map_of_mem (List.mem_append_right _ ha)
  | call variant cfg hρ hdone =>
      refine ⟨hq.offers, hq.chunks, ?_⟩
      intro a ha
      simp only [Network.ackPool, List.flatMap_cons, List.mem_append]
      exact .inr (hq.acks a ha)
  | loseOffer i hρ hi =>
      exact ⟨fun o ho ↦ hq.offers o (List.mem_of_mem_eraseIdx ho), hq.chunks, hq.acks⟩
  | loseChunk i hρ hi =>
      exact ⟨hq.offers, fun c hc ↦ hq.chunks c (List.mem_of_mem_eraseIdx hc), hq.acks⟩
  | loseAck i hρ hi =>
      exact ⟨hq.offers, hq.chunks, fun a ha ↦ hq.acks a (List.mem_of_mem_eraseIdx ha)⟩

/-- **Links refine networks**: the parties of a reachable link are a reachable
network, and everything in flight was handed over. -/
theorem reachable_net {w₀ w : Link H E} (hq : Queued w₀)
    (hw : (machine ρ sha256 x).Reachable w₀ w) :
    (Network.machine sha256 x).Reachable w₀.net w.net ∧ Queued w := by
  refine hw.invariant (I := fun w ↦ (Network.machine sha256 x).Reachable w₀.net w.net ∧ Queued w)
    ⟨.refl _, hq⟩ ?_
  rintro a l b ⟨hnet, hqueued⟩ hs
  have hm := step_move hs
  refine ⟨?_, hqueued.step hm⟩
  rcases hm.net hqueued with heq | hmove
  · rwa [heq]
  · exact hmove.reachable hnet

end Link

end Thincan.FileTransfer

import Mathlib.Data.List.Count
import Thincan.UnixSocket.Broadcast

/-!
# Answers of the bus server

An acknowledgement in the stream of a client answers one of its requests.  `numberedStream`
puts beside each message of a stream the number of requests of the client that were handled
by then; beside an answer that is the number of the request it answers, and the numbers of
the answers rise.
-/

namespace Thincan.UnixSocket

/-- The command comes from a request of client `id`. -/
def Command.requestOf (id : ClientId) : Command → Bool
  | .sendFrame j .. => j = id
  | .setFilters j .. => j = id
  | _ => false

/-- How many requests of client `id` there are. -/
def requestCount (id : ClientId) (cmds : List Command) : Nat := cmds.countP (Command.requestOf id)

/-- The message is an answer to a request. -/
def ServerMsg.isAnswer : ServerMsg → Bool
  | .ack .. => true
  | .filtersAck .. => true
  | _ => false

/-- The requests of client `id` come after it was added. -/
def Introduced (id : ClientId) (cmds : List Command) : Prop :=
  ∀ before after, cmds = before ++ .addClient id :: after → requestCount id before = 0

/-- The stream of client `id`, with the number of its requests up to each message. -/
def numberedStream (id : ClientId) (cmds : List Command) : List (Nat × ServerMsg) :=
  collectFrom (fun before c ↦ (emitted id before c).map (Prod.mk (requestCount id (before ++ [c])))) [] cmds

section

variable {id : ClientId} {cmds : List Command} {c : Command}

@[simp] theorem requestCount_append (before after : List Command) :
    requestCount id (before ++ after) = requestCount id before + requestCount id after :=
  List.countP_append

theorem requestCount_singleton : requestCount id [c] = if c.requestOf id = true then 1 else 0 :=
  List.countP_singleton

theorem requestCount_snoc (h : c.requestOf id = true) :
    requestCount id (cmds ++ [c]) = requestCount id cmds + 1 := by
  rw [requestCount_append, requestCount_singleton, if_pos h]

theorem numberedStream_snoc (id : ClientId) (cmds : List Command) (c : Command) :
    numberedStream id (cmds ++ [c]) =
      numberedStream id cmds ++ (emitted id cmds c).map (Prod.mk (requestCount id (cmds ++ [c]))) := by
  rw [numberedStream, collectFrom_split, collectFrom, List.append_nil]
  rfl

theorem map_snd_numberedStream (id : ClientId) (cmds : List Command) :
    (numberedStream id cmds).map Prod.snd = stream id cmds := by
  induction cmds using List.reverseRecOn with
  | nil => rfl
  | append_singleton cmds c ih =>
      rw [numberedStream_snoc, stream_snoc, List.map_append, ih, List.map_map]
      exact congrArg _ (List.map_id _)

/-- What a message in the stream comes from. -/
theorem mem_numberedStream {e : Nat × ServerMsg} (h : e ∈ numberedStream id cmds) :
    ∃ before c after, cmds = before ++ c :: after ∧ e.2 ∈ emitted id before c ∧
      e.1 = requestCount id (before ++ [c]) := by
  obtain ⟨before, c, after, hsplit, hmem⟩ := mem_collectFrom.mp h
  rw [List.nil_append] at hmem
  obtain ⟨m, hm, rfl⟩ := List.mem_map.mp hmem
  exact ⟨before, c, after, hsplit, hm, rfl⟩

theorem fst_le_of_mem {e : Nat × ServerMsg} (h : e ∈ numberedStream id cmds) :
    e.1 ≤ requestCount id cmds := by
  obtain ⟨before, c, after, rfl, -, hnumber⟩ := mem_numberedStream h
  rw [hnumber, List.append_cons before c after, requestCount_append (before ++ [c])]
  exact Nat.le_add_right ..

/-- Filters wait for a client only after a request. -/
theorem epoch_eq_none (h : requestCount id cmds = 0) : epoch id cmds = none := by
  induction cmds using List.reverseRecOn with
  | nil => rfl
  | append_singleton cmds c ih =>
      rw [requestCount_append, requestCount_singleton] at h
      have hnone := ih (Nat.eq_zero_of_add_eq_zero_right h)
      rw [epoch_snoc]
      cases c with
      | setFilters j seq filters =>
          have hj : ¬ j = id := by
            intro hj
            have hrequest : (Command.setFilters j seq filters).requestOf id = true := decide_eq_true hj
            rw [if_pos hrequest] at h
            cases h
          dsimp only
          rw [if_neg fun hjs ↦ hj hjs.1, hnone]
      | removeClient j =>
          dsimp only
          rw [hnone]
          split
          · rfl
          · rfl
      | addClient | sendFrame | shutdown => exact hnone

/-- Only a request is answered. -/
theorem requestOf_of_answer {m : ServerMsg} (hintro : c = .addClient id → requestCount id cmds = 0)
    (hm : m ∈ emitted id cmds c) (ha : m.isAnswer = true) : c.requestOf id = true := by
  cases c with
  | addClient j =>
      rw [emitted] at hm
      split at hm
      · next hj =>
          rw [epoch_eq_none (hintro (hj ▸ rfl))] at hm
          obtain rfl := List.mem_singleton.mp hm
          cases ha
      · cases hm
  | removeClient | shutdown => cases hm
  | sendFrame j seq expectAck frame =>
      rcases List.mem_append.mp hm with hframe | hack
      · split at hframe
        · obtain rfl := List.mem_singleton.mp hframe
          cases ha
        · cases hframe
      · split at hack
        · next hj => exact decide_eq_true hj.1
        · cases hack
  | setFilters j seq filters =>
      rw [emitted] at hm
      split at hm
      · next hj => exact decide_eq_true hj.1
      · cases hm

/-- A request is answered at most once. -/
theorem emitted_pairwise (hintro : c = .addClient id → requestCount id cmds = 0) :
    (emitted id cmds c).Pairwise fun a b ↦ a.isAnswer = true → b.isAnswer = false := by
  cases c with
  | addClient j =>
      rw [emitted]
      split
      · next hj =>
          rw [epoch_eq_none (hintro (hj ▸ rfl))]
          exact List.pairwise_singleton ..
      · exact .nil
  | removeClient | shutdown => exact .nil
  | sendFrame j seq expectAck frame =>
      rw [emitted]
      rw [List.pairwise_append]
      refine ⟨?_, ?_, ?_⟩
      · split
        · exact List.pairwise_singleton ..
        · exact .nil
      · split
        · exact List.pairwise_singleton ..
        · exact .nil
      · intro a ha b _ hanswer
        split at ha
        · obtain rfl := List.mem_singleton.mp ha
          cases hanswer
        · cases ha
  | setFilters j seq filters =>
      rw [emitted]
      split
      · exact List.pairwise_singleton ..
      · exact .nil

theorem Introduced.left {more : List Command} (h : Introduced id (cmds ++ more)) : Introduced id cmds := by
  rintro before after rfl
  exact h before (after ++ more) (by rw [List.append_assoc, List.cons_append])

theorem Introduced.last (h : Introduced id (cmds ++ [c])) (hc : c = .addClient id) :
    requestCount id cmds = 0 := h cmds [] (by rw [hc])

theorem Introduced.snoc (h : Introduced id cmds) (hc : c = .addClient id → requestCount id cmds = 0) :
    Introduced id (cmds ++ [c]) := by
  intro before after hsplit
  rcases List.eq_nil_or_concat after with rfl | ⟨after, d, rfl⟩
  · obtain ⟨rfl, hlast⟩ := List.append_inj' hsplit rfl
    exact hc (List.singleton_inj.mp hlast)
  · rw [List.concat_eq_append, ← List.cons_append, ← List.append_assoc] at hsplit
    exact h before after (List.append_inj' hsplit rfl).1

theorem Introduced.append {more : List Command} (h : Introduced id cmds)
    (hmore : ∀ c ∈ more, c ≠ .addClient id) : Introduced id (cmds ++ more) := by
  induction more generalizing cmds with
  | nil => rwa [List.append_nil]
  | cons c more ih =>
      rw [List.append_cons]
      refine ih (h.snoc fun hc ↦ ?_) fun d hd ↦ hmore d (List.mem_cons_of_mem _ hd)
      exact absurd hc (hmore c List.mem_cons_self)

/-- The numbers of the answers rise. -/
theorem numberedStream_pairwise (h : Introduced id cmds) :
    (numberedStream id cmds).Pairwise fun a b ↦
      a.2.isAnswer = true → b.2.isAnswer = true → a.1 < b.1 := by
  induction cmds using List.reverseRecOn with
  | nil => exact .nil
  | append_singleton cmds c ih =>
      rw [numberedStream_snoc, List.pairwise_append]
      refine ⟨ih h.left, ?_, ?_⟩
      · rw [List.pairwise_map]
        refine (emitted_pairwise h.last).imp ?_
        intro m m' hnot ha hb
        rw [hnot ha] at hb
        cases hb
      · intro a ha b hb _ hanswer
        obtain ⟨m, hm, rfl⟩ := List.mem_map.mp hb
        have hrequest := requestOf_of_answer h.last hm hanswer
        rw [requestCount_snoc hrequest]
        exact Nat.lt_succ_of_le (fst_le_of_mem ha)

end

end Thincan.UnixSocket

import Thincan.UnixSocket.Pipeline
import Thincan.UnixSocket.Receive

/-!
# What the result of a send says

The threads of the server keep the `Pipeline` of every connection, so that a `send` or
`send_timeout` that returns `Ok` or `NoAck` speaks about the very frame it was called with.
-/

namespace Thincan.UnixSocket

open Process

/-! ## Steps of the server, for one connection -/

namespace Pipeline

variable {id : ClientId} {handled queue more : List Command} {cn : Conn}

/-- Commands that are no requests of this client are queued. -/
theorem push (h : Pipeline id handled queue cn) (hmore : ∀ c ∈ more, c.requestOf id = false)
    (hintro : Introduced id (handled ++ (queue ++ more))) : Pipeline id handled (queue ++ more) cn := by
  have hfilter : (handled ++ (queue ++ more)).filter (Command.requestOf id) =
      (handled ++ queue).filter (Command.requestOf id) := by
    rw [← List.append_assoc, List.filter_append,
      List.filter_eq_nil_iff.mpr fun c hc ↦ Bool.eq_false_iff.mp (hmore c hc), List.append_nil]
  have hcount : requestCount id (handled ++ (queue ++ more)) = requestCount id (handled ++ queue) := by
    rw [requestCount, List.countP_eq_length_filter, hfilter, ← List.countP_eq_length_filter]
    rfl
  have hupstream := h.upstream
  refine ⟨h.numbered, h.written, h.fits, hintro, ⟨?_, ?_, hupstream.taken_le⟩, h.downstream, h.results⟩
  · rw [hfilter, hcount]
    exact hupstream.commands_eq
  · rw [hcount]
    exact hupstream.taken_eq

/-- Commands of other clients, and `RemoveClient`. -/
theorem pushOther (h : Pipeline id handled queue cn)
    (hmore : ∀ c ∈ more, c.requestOf id = false ∧ c ≠ .addClient id) :
    Pipeline id handled (queue ++ more) cn := by
  refine h.push (fun c hc ↦ (hmore c hc).1) ?_
  rw [← List.append_assoc]
  exact h.introduced.append fun c hc ↦ (hmore c hc).2

/-- `AddClient`, before the first request. -/
theorem add (h : Pipeline id handled queue cn) (hnone : cn.client.requests = []) :
    Pipeline id handled (queue ++ [.addClient id]) cn := by
  refine h.push (fun c hc ↦ ?_) ?_
  · rw [List.mem_singleton.mp hc]
    rfl
  · rw [← List.append_assoc]
    apply h.introduced.snoc
    intro _
    have hle := h.upstream.count_le
    rw [hnone] at hle
    exact Nat.le_zero.mp hle

theorem init (id : ClientId) : Pipeline id [] [] {} := by
  have hintro : Introduced id [] := by
    intro before after hsplit
    exact absurd hsplit.symm (List.append_ne_nil_of_right_ne_nil _ (List.cons_ne_nil _ _))
  refine ⟨.start [], .start [], ?_, hintro, ⟨rfl, fun _ ↦ rfl, Nat.le_refl 0⟩,
    ⟨0, Nat.le_refl 0, Nat.le_refl 0, rfl, .inr ⟨0, Nat.le_refl 0, ?_, Nat.le_refl 0⟩⟩, ?_⟩
  · intro r hr
    cases hr
  · intro e he
    cases he
  · intro before call r after frame hlog
    exact absurd hlog.symm (List.append_ne_nil_of_right_ne_nil _ (List.cons_ne_nil _ _))

/-- The reader ends. -/
theorem stopReader (h : Pipeline id handled queue cn) :
    Pipeline id handled queue { cn with readerDone := true } := by
  obtain ⟨pos, hdown⟩ := h.downstream
  refine ⟨h.numbered, h.written, h.fits, h.introduced, ⟨h.upstream.commands_eq, ?_, h.upstream.taken_le⟩,
    ⟨pos, hdown.pos_le, hdown.sent_le, hdown.bytes_eq, hdown.window⟩, h.results⟩
  intro hdone
  cases hdone

/-- The writer ends. -/
theorem stopWriter (h : Pipeline id handled queue cn) :
    Pipeline id handled queue { cn with writerDone := true } := by
  obtain ⟨pos, hdown⟩ := h.downstream
  refine ⟨h.numbered, h.written, h.fits, h.introduced,
    ⟨h.upstream.commands_eq, h.upstream.taken_eq, h.upstream.taken_le⟩,
    ⟨pos, hdown.pos_le, hdown.sent_le, hdown.bytes_eq, ?_⟩, h.results⟩
  rcases hdown.window with ⟨-, hend⟩ | hlive
  · exact .inl ⟨rfl, hend⟩
  · exact .inr hlive

/-- What the reader has not taken begins with the next request. -/
theorem untaken (h : Pipeline id handled queue cn) (hdone : cn.readerDone = false) :
    cn.client.written.drop cn.taken ++ cn.client.rest =
      (numberFrom Request.bytes (requestCount id (handled ++ queue))
        (cn.client.requests.drop (requestCount id (handled ++ queue)))).flatten := by
  have hbytes : cn.client.written ++ cn.client.rest = bytesOf cn.client.requests := h.written
  have hlen : (cn.client.requests.take (requestCount id (handled ++ queue))).length =
      requestCount id (handled ++ queue) := by
    rw [List.length_take, Nat.min_eq_left h.upstream.count_le]
  rw [← List.drop_append_of_le_length h.upstream.taken_le, hbytes,
    ← List.take_append_drop (requestCount id (handled ++ queue)) cn.client.requests, bytesOf_append,
    h.upstream.taken_eq hdone, List.drop_left, hlen, List.take_append_drop]

/-- The reader passes the next request on. -/
theorem passOn {r : Request} {rs : List Request} {rest : Bytes} (h : Pipeline id handled queue cn)
    (hdrop : cn.client.requests.drop (requestCount id (handled ++ queue)) = r :: rs)
    (hlen : (cn.client.written.drop cn.taken).length =
      5 + (r.payload (UInt64.ofNat (requestCount id (handled ++ queue) + 1))).length + rest.length) :
    Pipeline id handled
      (queue ++ [r.command id (UInt64.ofNat (requestCount id (handled ++ queue) + 1))])
      { cn with taken := cn.taken +
          (5 + (r.payload (UInt64.ofNat (requestCount id (handled ++ queue) + 1))).length) } := by
  generalize hn : requestCount id (handled ++ queue) = n at hdrop hlen ⊢
  have hupstream := h.upstream
  have hrequest : (r.command id (UInt64.ofNat (n + 1))).requestOf id = true := by
    rw [Request.requestOf_command]
    exact decide_eq_true rfl
  have hcount : requestCount id (handled ++ (queue ++ [r.command id (UInt64.ofNat (n + 1))])) = n + 1 := by
    rw [← List.append_assoc, requestCount_snoc hrequest, hn]
  have hlength : (cn.client.requests.take n).length = n := by
    rw [List.length_take, Nat.min_eq_left (hn ▸ hupstream.count_le)]
  have htake : cn.client.requests.take (n + 1) = cn.client.requests.take n ++ [r] := by
    have hget : cn.client.requests[n]? = some r := by
      rw [← Nat.add_zero n, ← List.getElem?_drop, hdrop]
      rfl
    rw [List.take_add_one, hget]
    rfl
  obtain ⟨pos, hdown⟩ := h.downstream
  refine ⟨h.numbered, h.written, h.fits, ?_, ⟨?_, fun hdone ↦ ?_, ?_⟩,
    ⟨pos, hdown.pos_le, hdown.sent_le, hdown.bytes_eq, hdown.window⟩, h.results⟩
  · rw [← List.append_assoc]
    exact h.introduced.snoc fun hadd ↦ absurd hadd (r.command_ne_addClient id id _)
  · rw [hcount, htake, commandsOf_snoc, hlength, ← List.append_assoc, List.filter_append,
      hupstream.commands_eq, hn, List.filter_cons_of_pos hrequest, List.filter_nil]
  · dsimp only
    rw [hcount, htake, bytesOf_snoc, hlength, List.length_append, Request.bytes, Framing.length_frame,
      hupstream.taken_eq hdone, hn]
  · dsimp only
    rw [List.length_drop] at hlen
    omega

/-- The reader has a message: it is the next request, and becomes a command. -/
theorem read {msgType : UInt8} {payload rest : Bytes} (h : Pipeline id handled queue cn)
    (hdone : cn.readerDone = false)
    (hnext : readMsg (cn.client.written.drop cn.taken) = .message msgType payload rest) :
    ∃ (r : Request) (seq : UInt64), readCommand id msgType payload = .command (r.command id seq) ∧
      Pipeline id handled (queue ++ [r.command id seq])
        { cn with taken := cn.taken + (5 + payload.length) } := by
  have hmessage := Framing.next_append hnext cn.client.rest
  have huntaken := h.untaken hdone
  rw [huntaken] at hmessage
  cases hdrop : cn.client.requests.drop (requestCount id (handled ++ queue)) with
  | nil =>
      rw [hdrop] at hmessage
      cases hmessage
  | cons r rs =>
      have hmem : r ∈ cn.client.requests := List.mem_of_mem_drop (hdrop ▸ List.mem_cons_self)
      have hfits : (r.payload (UInt64.ofNat (requestCount id (handled ++ queue) + 1))).length < 2 ^ 32 := by
        rw [r.length_payload _ 0]
        exact Nat.lt_succ_of_le (of_decide_eq_true (h.fits r hmem))
      rw [hdrop, numberFrom_cons, List.flatten_cons, Request.bytes,
        Framing.next_frame_eq r.msgType hfits] at hmessage
      split at hmessage
      · cases hmessage
      · next hlimit =>
          obtain ⟨rfl, rfl, -⟩ := Framing.Next.message.inj hmessage
          refine ⟨r, _, r.readCommand_payload id _ (Nat.not_lt.mp hlimit), ?_⟩
          exact h.passOn hdrop (Framing.length_of_next hnext)

/-- The bus thread handles a command. -/
theorem handle {c : Command} (h : Pipeline id handled (c :: queue) cn) :
    Pipeline id (handled ++ [c]) queue cn := by
  have hcommands : handled ++ [c] ++ queue = handled ++ c :: queue := by
    rw [List.append_assoc]
    rfl
  have hintro := h.introduced
  have hupstream := h.upstream
  rw [← hcommands] at hintro hupstream
  obtain ⟨pos, hdown⟩ := h.downstream
  refine ⟨h.numbered, h.written, h.fits, hintro, hupstream, ⟨pos, hdown.pos_le, ?_, ?_, ?_⟩,
    h.results.append⟩
  · rw [numberedStream_snoc, List.length_append]
    exact Nat.le_trans hdown.sent_le (Nat.le_add_right ..)
  · rw [numberedStream_snoc, List.take_append_of_le_length hdown.sent_le]
    exact hdown.bytes_eq
  · exact hdown.window.handle hintro.left (Nat.le_trans hdown.pos_le hdown.sent_le)

/-- The writer writes the next message of the stream. -/
theorem write {msg : ServerMsg} (h : Pipeline id handled queue cn) (hdone : cn.writerDone = false)
    (hmsg : (stream id handled)[cn.sent]? = some msg) :
    Pipeline id handled queue { cn with
      sent := cn.sent + 1
      client := { cn.client with unread := cn.client.unread ++ msg.encode } } := by
  obtain ⟨pos, hdown⟩ := h.downstream
  rw [← map_snd_numberedStream, List.getElem?_map, Option.map_eq_some_iff] at hmsg
  obtain ⟨e, he, rfl⟩ := hmsg
  obtain ⟨hlt, hget⟩ := List.getElem?_eq_some_iff.mp he
  have hpos : pos ≤ ((numberedStream id handled).take cn.sent).length := by
    rw [List.length_take, Nat.min_eq_left hdown.sent_le]
    exact hdown.pos_le
  refine ⟨⟨h.numbered.nextSeq_eq, h.numbered.goal_eq, h.numbered.reading⟩, h.written, h.fits, h.introduced,
    ⟨h.upstream.commands_eq, h.upstream.taken_eq, h.upstream.taken_le⟩,
    ⟨pos, Nat.le_succ_of_le hdown.pos_le, hlt, ?_, ?_⟩, h.results⟩
  · dsimp only
    rw [List.take_succ_eq_append_getElem hlt, hget, List.drop_append_of_le_length hpos, List.map_append,
      List.flatMap_append, ← hdown.bytes_eq, List.append_assoc, List.map_singleton, List.flatMap_singleton]
  · rcases hdown.window with ⟨hdead, -⟩ | hlive
    · cases hdone.symm.trans hdead
    · exact .inr hlive

end Pipeline

/-! ## The system -/

/-- The reader of a client makes requests of that client. -/
theorem requestOf_readCommand {id : ClientId} {msgType : UInt8} {payload : Bytes} {c : Command}
    (h : readCommand id msgType payload = .command c) :
    c.added = none ∧ ∀ j, j ≠ id → c.requestOf j = false := by
  unfold readCommand at h
  repeat' split at h
  all_goals first
    | cases h
      exact ⟨rfl, fun j hj ↦ decide_eq_false hj.symm⟩
    | cases h

/-- How many frames the client of connection `k` has sent. -/
def System.sends (s : System) (k : Nat) : Nat :=
  (s.conns k).client.requests.countP Request.isSend

/-- The invariant of the system. -/
structure Sound (s : System) : Prop where
  tracks : Tracks s.handled s.bus
  added : s.commands.filterMap Command.added = (List.range s.accepted).map connId
  fresh : ∀ k, s.accepted ≤ k → s.conns k = {}
  pipeline : ∀ k, k + 1 < 2 ^ 64 → s.sends k < 2 ^ 64 →
    Pipeline (connId k) s.handled s.queue (s.conns k)

namespace Sound

variable {s : System} {k : Nat}

theorem init : Sound {} where
  tracks := tracks_nil
  added := rfl
  fresh _ _ := rfl
  pipeline k _ _ := .init (connId k)

/-- A connection is accepted. -/
theorem accept (h : Sound s) (haccepted : s.accepted + 1 < 2 ^ 64) : Sound s.accept := by
  have hcommands : s.accept.commands = s.commands ++ [.addClient (connId s.accepted)] :=
    (List.append_assoc ..).symm
  constructor
  · exact h.tracks
  · rw [hcommands, List.filterMap_append, h.added]
    change _ = (List.range (s.accepted + 1)).map connId
    rw [List.range_succ, List.map_append]
    rfl
  · intro k hk
    exact h.fresh k (Nat.le_of_succ_le hk)
  · intro k hk hsends
    have hp := h.pipeline k hk hsends
    by_cases hkey : k = s.accepted
    · subst hkey
      apply hp.add
      rw [h.fresh s.accepted (Nat.le_refl _)]
      rfl
    · apply hp.pushOther
      intro c hc
      rw [List.mem_singleton.mp hc]
      refine ⟨rfl, fun hadd ↦ hkey ?_⟩
      exact (connId_inj (Nat.lt_of_succ_lt haccepted) (Nat.lt_of_succ_lt hk) (Command.addClient.inj hadd)).symm

/-- A connection moves, and queues commands of its client. -/
theorem move {cn : Conn} {cmds : List Command} (h : Sound s) (hk : k < s.accepted)
    (haccepted : s.accepted < 2 ^ 64)
    (hcmds : ∀ c ∈ cmds, c.added = none ∧ ∀ id, id ≠ connId k → c.requestOf id = false)
    (hcn : cn.client.requests.countP Request.isSend < 2 ^ 64 →
      Pipeline (connId k) s.handled (s.queue ++ cmds) cn) :
    Sound ((s.setConn k cn).push cmds) := by
  constructor
  · exact h.tracks
  · have hcommands : ((s.setConn k cn).push cmds).commands = s.commands ++ cmds :=
      (List.append_assoc ..).symm
    have hnone : cmds.filterMap Command.added = [] := by
      rw [List.filterMap_eq_nil_iff]
      exact fun c hc ↦ (hcmds c hc).1
    rw [hcommands, List.filterMap_append, hnone, List.append_nil]
    exact h.added
  · intro j hj
    have hne : j ≠ k := Nat.ne_of_gt (Nat.lt_of_lt_of_le hk hj)
    rw [← h.fresh j hj]
    exact Function.update_of_ne hne ..
  · intro j hj hsends
    change (Function.update s.conns k cn j).client.requests.countP Request.isSend < 2 ^ 64 at hsends
    change Pipeline (connId j) s.handled (s.queue ++ cmds) (Function.update s.conns k cn j)
    by_cases hkey : j = k
    · subst hkey
      rw [Function.update_self] at hsends ⊢
      exact hcn hsends
    · rw [Function.update_of_ne hkey] at hsends ⊢
      refine (h.pipeline j hj hsends).pushOther ?_
      intro c hc
      obtain ⟨hadded, hother⟩ := hcmds c hc
      refine ⟨hother _ fun hid ↦ hkey ?_, fun hadd ↦ ?_⟩
      · exact connId_inj (Nat.lt_of_succ_lt hj) (Nat.lt_trans hk haccepted) hid
      · rw [hadd] at hadded
        cases hadded

/-- A connection moves on its own. -/
theorem moveAlone {cn : Conn} (h : Sound s) (hk : k < s.accepted) (haccepted : s.accepted < 2 ^ 64)
    (hcn : cn.client.requests.countP Request.isSend < 2 ^ 64 →
      Pipeline (connId k) s.handled s.queue cn) : Sound (s.setConn k cn) := by
  have hnil : (s.setConn k cn).push [] = s.setConn k cn := by
    unfold System.push
    rw [List.append_nil]
  rw [← hnil]
  refine h.move hk haccepted (fun c hc ↦ by cases hc) ?_
  rwa [List.append_nil]

variable {s' : System} (h : Sound s) (hk : k < s.accepted) (haccepted : s.accepted < 2 ^ 64)
include h hk haccepted

theorem pipeline_of_lt (hsends : s.sends k < 2 ^ 64) :
    Pipeline (connId k) s.handled s.queue (s.conns k) :=
  h.pipeline k (Nat.lt_of_le_of_lt hk haccepted) hsends

theorem stepClient {l : Label} (hstep : s.stepClient k l = some s') : Sound s' := by
  unfold System.stepClient at hstep
  split at hstep
  · next hl =>
      obtain ⟨c, hc, rfl⟩ := Option.map_eq_some_iff.mp hstep
      have hmove := Client.move_of_step hc
      refine h.moveAlone hk haccepted ?_
      intro hsends
      have hless : s.sends k < 2 ^ 64 :=
        Nat.lt_of_le_of_lt (hmove.requests_prefix.sublist.countP_le) hsends
      exact (h.pipeline_of_lt hk haccepted hless).client hless hl hmove
  · cases hstep

theorem stopReader : Sound (s.stopReader k) := by
  refine h.move hk haccepted (fun c hc ↦ ?_) fun hsends ↦ ?_
  · rw [List.mem_singleton.mp hc]
    exact ⟨rfl, fun _ _ ↦ rfl⟩
  · refine (h.pipeline_of_lt hk haccepted hsends).stopReader.pushOther ?_
    intro c hc
    rw [List.mem_singleton.mp hc]
    exact ⟨rfl, fun hadd ↦ by cases hadd⟩

theorem stepReader (hdone : (s.conns k).readerDone = false) (hstep : s.stepReader k = some s') :
    Sound s' := by
  unfold System.stepReader at hstep
  split at hstep
  · cases hstep
  · obtain rfl := Option.some.inj hstep
    exact h.stopReader hk haccepted
  · next msgType payload rest hnext =>
      -- with a pipeline, the message is a request
      have hread := fun hsends ↦ (h.pipeline_of_lt hk haccepted hsends).read hdone hnext
      have htaken : (∀ c, readCommand (connId k) msgType payload ≠ .command c) →
          Sound (s.setConn k { s.conns k with taken := (s.conns k).taken + (5 + payload.length) }) := by
        intro hno
        refine h.moveAlone hk haccepted ?_
        intro hsends
        obtain ⟨r, seq, hcommand, -⟩ := hread hsends
        exact absurd hcommand (hno _)
      dsimp only at hstep
      split at hstep
      · next c hcommand =>
          obtain rfl := Option.some.inj hstep
          refine h.move hk haccepted (fun d hd ↦ ?_) fun hsends ↦ ?_
          · rw [List.mem_singleton.mp hd]
            exact requestOf_readCommand hcommand
          · obtain ⟨r, seq, hrequest, hp⟩ := hread hsends
            obtain rfl := Read.command.inj (hcommand.symm.trans hrequest)
            exact hp
      · next hskip =>
          obtain rfl := Option.some.inj hstep
          exact htaken fun c hc ↦ by cases hskip.symm.trans hc
      · next hstop =>
          obtain rfl := Option.some.inj hstep
          exact (htaken fun c hc ↦ by cases hstop.symm.trans hc).stopReader hk haccepted
      · next hpanic =>
          obtain rfl := Option.some.inj hstep
          have hs := htaken fun c hc ↦ by cases hpanic.symm.trans hc
          exact hs.moveAlone hk haccepted fun hsends ↦
            (hs.pipeline_of_lt hk haccepted hsends).stopReader

theorem stopWriter (failed : Bool) : Sound (s.stopWriter k failed) := by
  have hcmds : ∀ c ∈ (if failed then [Command.removeClient (connId k)] else []), c = .removeClient (connId k) := by
    intro c hc
    cases failed with
    | true => exact List.mem_singleton.mp hc
    | false => cases hc
  refine h.move hk haccepted (fun c hc ↦ ?_) fun hsends ↦ ?_
  · rw [hcmds c hc]
    exact ⟨rfl, fun _ _ ↦ rfl⟩
  · refine (h.pipeline_of_lt hk haccepted hsends).stopWriter.pushOther ?_
    intro c hc
    rw [hcmds c hc]
    exact ⟨rfl, fun hadd ↦ by cases hadd⟩

theorem stepWriter (hdone : (s.conns k).writerDone = false) (hstep : s.stepWriter k = some s') :
    Sound s' := by
  obtain ⟨msg, hmsg, rfl⟩ := Option.map_eq_some_iff.mp hstep
  rw [h.tracks.out] at hmsg
  exact h.moveAlone hk haccepted fun hsends ↦
    (h.pipeline_of_lt hk haccepted hsends).write hdone hmsg

omit hk in
theorem stepBus {order : List ClientId} (hstep : s.stepBus order = some s') : Sound s' := by
  unfold System.stepBus at hstep
  split at hstep
  · cases hstep
  · next c queue hqueue =>
      split at hstep
      · next horder =>
          obtain rfl := Option.some.inj hstep
          have hcommands : s.handled ++ [c] ++ queue = s.commands := by
            rw [System.commands, hqueue, List.append_assoc]
            rfl
          constructor
          · refine h.tracks.handleCommand horder c ?_
            rintro id rfl
            -- a client that is registered was added, and none is added twice
            by_contra hreg
            have hadded := added_of_registered (Bool.not_eq_false _ ▸ hreg)
            have hnodup : (s.commands.filterMap Command.added).Nodup := by
              rw [h.added]
              refine List.Nodup.map_on (fun j hj k hk heq ↦ ?_) List.nodup_range
              exact connId_inj (Nat.lt_trans (List.mem_range.mp hj) haccepted)
                (Nat.lt_trans (List.mem_range.mp hk) haccepted) heq
            rw [← hcommands, List.filterMap_append, List.filterMap_append] at hnodup
            have hboth := List.Nodup.of_append_left hnodup
            exact (List.disjoint_of_nodup_append hboth) hadded (List.mem_singleton_self id)
          · rw [← h.added, ← hcommands]
            rfl
          · exact h.fresh
          · intro k hk hsends
            have hp := h.pipeline k hk hsends
            rw [hqueue] at hp
            exact hp.handle
      · cases hstep

end Sound

/-- Connections are only added. -/
theorem System.accepted_le {s s' : System} {a : Action} (h : s.step a = some s') :
    s.accepted ≤ s'.accepted := by
  cases a with
  | accept =>
      obtain rfl := Option.some.inj h
      exact Nat.le_succ _
  | client k l =>
      obtain ⟨-, h⟩ := Option.ite_none_right_eq_some.mp h
      obtain ⟨-, h⟩ := Option.ite_none_right_eq_some.mp h
      obtain ⟨c, -, rfl⟩ := Option.map_eq_some_iff.mp h
      exact Nat.le_refl _
  | reader k =>
      obtain ⟨-, h⟩ := Option.ite_none_right_eq_some.mp h
      unfold stepReader at h
      repeat' split at h
      all_goals first
        | cases h
          exact Nat.le_refl _
        | cases h
  | readerEnd k | writerEnd k failed =>
      obtain ⟨-, h⟩ := Option.ite_none_right_eq_some.mp h
      obtain rfl := Option.some.inj h
      exact Nat.le_refl _
  | writer k =>
      obtain ⟨-, h⟩ := Option.ite_none_right_eq_some.mp h
      obtain ⟨msg, -, rfl⟩ := Option.map_eq_some_iff.mp h
      exact Nat.le_refl _
  | bus order =>
      change s.stepBus order = some s' at h
      unfold stepBus at h
      split at h
      · cases h
      · obtain ⟨-, h⟩ := Option.ite_none_right_eq_some.mp h
        obtain rfl := Option.some.inj h
        exact Nat.le_refl _

/-- Every step keeps the invariant, as long as the ids last. -/
theorem Sound.step {s s' : System} {a : Action} (h : s.accepted < 2 ^ 64 → Sound s)
    (hstep : s.step a = some s') (haccepted' : s'.accepted < 2 ^ 64) : Sound s' := by
  have haccepted := Nat.lt_of_le_of_lt (System.accepted_le hstep) haccepted'
  have hs := h haccepted
  cases a with
  | accept =>
      obtain rfl := Option.some.inj hstep
      exact hs.accept haccepted'
  | client k l =>
      obtain ⟨hk, hstep⟩ := Option.ite_none_right_eq_some.mp hstep
      exact hs.stepClient hk haccepted hstep
  | reader k =>
      obtain ⟨hk, hstep⟩ := Option.ite_none_right_eq_some.mp hstep
      exact hs.stepReader hk.1 haccepted hk.2 hstep
  | readerEnd k =>
      obtain ⟨hk, hstep⟩ := Option.ite_none_right_eq_some.mp hstep
      obtain rfl := Option.some.inj hstep
      exact hs.stopReader hk.1 haccepted
  | writer k =>
      obtain ⟨hk, hstep⟩ := Option.ite_none_right_eq_some.mp hstep
      exact hs.stepWriter hk.1 haccepted hk.2 hstep
  | writerEnd k failed =>
      obtain ⟨hk, hstep⟩ := Option.ite_none_right_eq_some.mp hstep
      obtain rfl := Option.some.inj hstep
      exact hs.stopWriter hk.1 haccepted failed
  | bus order => exact hs.stepBus haccepted hstep

/-- A message that is not the acknowledgement a send waits for does not decide it. -/
theorem Client.onScan_other {c : Client} {can : UnixCan} {call : Call} {seq : UInt64} {timed : Bool}
    {msg : DecodedMsg} (htakes : c.can.Takes msg can) (hother : ∀ status, msg ≠ .ack seq status) :
    (c.onScan call (.ack seq timed)).task = c.task ∧ (c.onScan call (.ack seq timed)).log = c.log := by
  unfold onScan
  rw [htakes.result]
  dsimp only
  unfold onMsg
  split
  · exact ⟨rfl, rfl⟩
  · exact ⟨rfl, rfl⟩
  · next r hreact =>
      obtain ⟨status, hmsg, -⟩ := waitForAck_ret hreact
      exact absurd hmsg (hother status)

/-- **A send speaks about its own frame**: whatever the clients do, if `send` or
`send_timeout` returns `Ok`, the frame of this very call was broadcast while another client
was registered, and if it returns `NoAck`, while none was.  An acknowledgement with another
number leaves the call where it is. -/
theorem send_reports {s : System} (h : systemMachine.Reachable {} s) (haccepted : s.accepted < 2 ^ 64)
    (k : Nat) (hsends : s.sends k < 2 ^ 64) :
    (∀ before call r after frame, (s.conns k).client.log = before ++ (call, r) :: after →
      (call = .send frame ∨ call = .sendTimeout frame) →
      Reports s.handled (connId k) (requestsIn (before ++ [(call, r)])).length frame r) ∧
    ∀ call seq timed msg can,
      (s.conns k).client.task = some (call, .scanning (.ack seq timed)) →
      (s.conns k).client.can.Takes msg can → (∀ status, msg ≠ .ack seq status) →
      ((s.conns k).client.onScan call (.ack seq timed)).task = (s.conns k).client.task ∧
        ((s.conns k).client.onScan call (.ack seq timed)).log = (s.conns k).client.log := by
  have hsound : Sound s := by
    refine h.invariant (I := fun s ↦ s.accepted < 2 ^ 64 → Sound s) (fun _ ↦ .init) ?_ haccepted
    exact fun a l b ha hstep ↦ Sound.step ha hstep
  refine ⟨?_, fun _ _ _ _ _ _ htakes hother ↦ Client.onScan_other htakes hother⟩
  by_cases hk : k < s.accepted
  · exact (hsound.pipeline_of_lt hk haccepted hsends).results
  · intro before call r after frame hlog
    rw [hsound.fresh k (Nat.not_lt.mp hk)] at hlog
    exact absurd hlog.symm (List.append_ne_nil_of_right_ne_nil _ (List.cons_ne_nil _ _))

/-- A `send_timeout` gives up, and is acknowledged later by the other client, which then
leaves; the `send` that follows finds that acknowledgement first. -/
def staleRun : List Action :=
  [.accept, .accept, .bus [], .bus [1], .writer 0, .client 0 .scan, .client 0 (.read 5), .client 0 .scan,
    .client 0 (.call (.sendTimeout (sampleFrame 0x100 id100_le))), .client 0 (.wrote 5),
    .client 0 (.wrote 16), .client 0 .scan, .client 0 (.readFailed .wouldBlock), .client 0 .timeout,
    .reader 0, .bus [2, 1], .readerEnd 1, .bus [2, 1],
    .client 0 (.call (.send (sampleFrame 0x101 id101_le))), .client 0 (.wrote 5), .client 0 (.wrote 16),
    .reader 0, .bus [1], .writer 0, .writer 0, .writer 0, .writer 0,
    .client 0 .scan, .client 0 (.read 54), .client 0 .scan, .client 0 .scan, .client 0 .scan,
    .client 0 .scan]

theorem send_reports_stale :
    ∃ s, systemMachine.exec {} staleRun = some s ∧
      (s.conns 0).client.log =
        [(.connect, .ok none), (.sendTimeout (sampleFrame 0x100 (by decide)), .error .timeout),
          (.send (sampleFrame 0x101 (by decide)), .error .noAck)] ∧
      Broadcasted s.handled (connId 0) 2 (sampleFrame 0x101 (by decide)) false := by
  have hrun : ((systemMachine.exec {} staleRun).any fun s ↦
      s.accepted = 2 ∧ s.sends 0 = 2 ∧ (s.conns 0).client.log =
        [(.connect, .ok none), (.sendTimeout (sampleFrame 0x100 (by decide)), .error .timeout),
          (.send (sampleFrame 0x101 (by decide)), .error .noAck)]) = true := by decide +kernel
  obtain ⟨s, hs, hstate⟩ := (Option.any_eq_true ..).mp hrun
  obtain ⟨haccepted, hsends, hlog⟩ := of_decide_eq_true hstate
  refine ⟨s, hs, hlog, ?_⟩
  have hfew : 2 < 2 ^ 64 := by decide
  have hreports := (send_reports ⟨staleRun, hs⟩ (by rwa [haccepted]) 0 (by rwa [hsends])).1
    [(.connect, .ok none), (.sendTimeout (sampleFrame 0x100 (by decide)), .error .timeout)]
    (.send (sampleFrame 0x101 (by decide))) (.error .noAck) [] (sampleFrame 0x101 (by decide)) hlog (.inl rfl)
  exact hreports.2 rfl

end Thincan.UnixSocket

import Thincan.Process.Word
import Thincan.UnixSocket.System

/-!
# Requests and answers of a connection

Requests, commands and answers of a connection are queues, so that the answers a client has
not seen belong to requests in a window.  `set_filters` waits without a deadline, hence until
its own answer, and after it only sends add to the window.  An acknowledgement carries the
number of its request modulo `2^64`: with fewer than `2^64` sends a number is good for one
request in the window (`Window.number_eq`).

`Pipeline` is all of this for one connection, and every step of its client keeps it.
-/

namespace Thincan.UnixSocket

open Process

/-- The bus thread has broadcast the frame of request number `n` of client `id`, and `others`
says whether another client was registered then. -/
def Broadcasted (handled : List Command) (id : ClientId) (n : Nat) (frame : UnixFrame)
    (others : Bool) : Prop :=
  ∃ before after, handled = before ++ .sendFrame id (UInt64.ofNat n) true frame :: after ∧
    requestCount id before + 1 = n ∧ othersRegistered id before = others

theorem Broadcasted.append {handled more : List Command} {id : ClientId} {n : Nat}
    {frame : UnixFrame} {others : Bool} (h : Broadcasted handled id n frame others) :
    Broadcasted (handled ++ more) id n frame others := by
  obtain ⟨before, after, rfl, hcount, hothers⟩ := h
  exact ⟨before, after ++ more, by rw [List.append_assoc, List.cons_append], hcount, hothers⟩

/-! ## Messages in bytes -/

/-- The message as the client decodes it. -/
def ServerMsg.decoded : ServerMsg → DecodedMsg
  | .frame f => .frame f
  | .ack seq status => .ack seq status
  | .hello => .hello
  | .filtersAck seq status => .filtersAck seq status

/-- The client reads what the writer wrote. -/
theorem readMsg_encode (m : ServerMsg) (rest : Bytes) :
    ∃ msgType payload, readMsg (m.encode ++ rest) = .message msgType payload rest ∧
      decodeMsg msgType payload = .ok m.decoded := by
  have hack : ∀ seq status, (encodeAckInto seq status).length ≤ maxPayloadLen := by
    intro seq status
    rw [encodeAckInto, List.length_append, length_leBytes]
    exact (by decide : 9 ≤ 4096)
  cases m with
  | frame f =>
      have hfits := f.fits
      have hlen : (encodeFrameInto f).length ≤ maxPayloadLen := by
        rw [encodeFrameInto, length_encodeFields, frameHdrLen, maxPayloadLen]
        rw [maxDataLen] at hfits
        omega
      refine ⟨msgFrame, encodeFrameInto f, Framing.next_frame msgFrame hlen ?_ rest, ?_⟩
      · exact Nat.lt_of_le_of_lt hlen (by decide)
      · rw [decodeMsg, if_pos rfl, decodeFrame_encodeFrameInto]
        rfl
  | ack seq status =>
      refine ⟨msgAck, encodeAckInto seq status, Framing.next_frame msgAck (hack seq status) ?_ rest, ?_⟩
      · exact Nat.lt_of_le_of_lt (hack seq status) (by decide)
      · rw [decodeMsg, if_neg (by decide), if_pos rfl, decodeAck_encodeAckInto]
        rfl
  | hello =>
      refine ⟨msgHello, [], Framing.next_frame msgHello (Nat.zero_le _) (by decide) rest, ?_⟩
      rw [decodeMsg, if_neg (by decide), if_neg (by decide), if_neg (by decide), if_pos rfl]
      rfl
  | filtersAck seq status =>
      refine ⟨msgFiltersAck, encodeAckInto seq status,
        Framing.next_frame msgFiltersAck (hack seq status) ?_ rest, ?_⟩
      · exact Nat.lt_of_le_of_lt (hack seq status) (by decide)
      · rw [decodeMsg, if_neg (by decide), if_neg (by decide), if_pos rfl, decodeAck_encodeAckInto]
        rfl

section Takes

variable {can can' : UnixCan} {unread : Bytes} {msg : DecodedMsg} {ms : List ServerMsg}

/-- The message that is taken off the buffer is the first that was written. -/
theorem takes_encoded (h : can.Takes msg can')
    (hbytes : can.buffered ++ unread = ms.flatMap ServerMsg.encode) :
    ∃ m ms', ms = m :: ms' ∧ msg = m.decoded ∧
      can'.buffered ++ unread = ms'.flatMap ServerMsg.encode := by
  obtain ⟨msgType, payload, hmsg, hfront⟩ := h.front
  have hnext := hfront unread
  rw [hbytes] at hnext
  cases ms with
  | nil => cases hnext
  | cons m ms =>
      obtain ⟨msgType', payload', hread, hdecode⟩ := readMsg_encode m (ms.flatMap ServerMsg.encode)
      rw [List.flatMap_cons] at hnext
      obtain ⟨rfl, rfl, hrest⟩ := Framing.Next.message.inj (hread.symm.trans hnext)
      exact ⟨m, ms, rfl, Except.ok.inj (hmsg.symm.trans hdecode), hrest.symm⟩

/-- What was written is not malformed. -/
theorem not_malformed {e : String} (hbytes : can.buffered ++ unread = ms.flatMap ServerMsg.encode) :
    can.nextDecodedMsg ≠ (.error (.protocol e), can) := by
  intro herror
  rcases can.withNextMsg_cases decodeMsg with
    ⟨-, hr⟩ | ⟨hnext, -⟩ | ⟨msgType, payload, rest, hnext, ⟨e', he', -⟩ | ⟨out, can'', -, hr, -⟩⟩
  · cases herror.symm.trans hr
  · have hlong := Framing.next_append_tooLong hnext unread
    rw [hbytes] at hlong
    cases ms with
    | nil => cases hlong
    | cons m ms =>
        obtain ⟨msgType, payload, hread, -⟩ := readMsg_encode m (ms.flatMap ServerMsg.encode)
        rw [List.flatMap_cons] at hlong
        cases hread.symm.trans hlong
  · have hmessage := Framing.next_append hnext unread
    rw [hbytes] at hmessage
    cases ms with
    | nil => cases hmessage
    | cons m ms =>
        obtain ⟨msgType', payload', hread, hdecode⟩ := readMsg_encode m (ms.flatMap ServerMsg.encode)
        rw [List.flatMap_cons] at hmessage
        obtain ⟨rfl, rfl, -⟩ := Framing.Next.message.inj (hread.symm.trans hmessage)
        cases he'.symm.trans hdecode
  · cases herror.symm.trans hr

/-- A buffer without a message, and nothing behind it, is empty. -/
theorem eq_nil_of_messagesOf (hnone : messagesOf can.buffered = [])
    (hbytes : can.buffered = ms.flatMap ServerMsg.encode) : ms = [] := by
  cases ms with
  | nil => rfl
  | cons m ms =>
      obtain ⟨msgType, payload, hread, hdecode⟩ := readMsg_encode m (ms.flatMap ServerMsg.encode)
      rw [hbytes, List.flatMap_cons, messagesOf,
        Framing.messages_cons hread (decoded_of_ok hdecode)] at hnone
      cases hnone

end Takes

/-! ## The pipeline of a connection -/

/-- The call is `set_filters`. -/
def Call.changes : Call → Nat
  | .setFilters _ => 1
  | _ => 0

/-- `set_filters` is going on. -/
def Client.changing (c : Client) : Nat := (c.task.map fun t ↦ t.1.changes).getD 0

/-- The requests of a client that the reader has passed on, and the bytes it took. -/
structure Upstream (id : ClientId) (cmds : List Command) (cn : Conn) : Prop where
  commands_eq : cmds.filter (Command.requestOf id) =
    commandsOf id (cn.client.requests.take (requestCount id cmds))
  taken_eq : cn.readerDone = false →
    cn.taken = (bytesOf (cn.client.requests.take (requestCount id cmds))).length
  taken_le : cn.taken ≤ cn.client.written.length

/-- The answers behind position `pos` of the stream belong to requests behind `base`, and
there are not many of these; or nothing will come any more. -/
def Window (id : ClientId) (handled : List Command) (cn : Conn) (pos : Nat) : Prop :=
  cn.writerDone = true ∧ pos = cn.sent ∨
    ∃ base, base ≤ requestCount id handled ∧
      (∀ e ∈ (numberedStream id handled).drop pos, e.2.isAnswer = true → base < e.1) ∧
      cn.client.requests.length ≤
        base + cn.client.requests.countP Request.isSend + cn.client.changing

/-- The client has seen `pos` messages. -/
structure Downstream (id : ClientId) (handled : List Command) (cn : Conn) (pos : Nat) : Prop where
  pos_le : pos ≤ cn.sent
  sent_le : cn.sent ≤ (numberedStream id handled).length
  bytes_eq : cn.client.can.buffered ++ cn.client.unread =
    ((((numberedStream id handled).take cn.sent).drop pos).map Prod.snd).flatMap ServerMsg.encode
  window : Window id handled cn pos

/-- What a result says about request number `n`, a frame. -/
def Reports (handled : List Command) (id : ClientId) (n : Nat) (frame : UnixFrame) (r : Ret) : Prop :=
  (r = .ok none → Broadcasted handled id n frame true) ∧
    (r = .error .noAck → Broadcasted handled id n frame false)

/-- Every blocking send in the log reports about its own request. -/
def Results (handled : List Command) (id : ClientId) (log : List (Call × Ret)) : Prop :=
  ∀ before call r after frame, log = before ++ (call, r) :: after →
    (call = .send frame ∨ call = .sendTimeout frame) →
    Reports handled id (requestsIn (before ++ [(call, r)])).length frame r

/-- What holds of a connection with the id `id`, where the commands `handled` are handled and
those in `queue` are not. -/
structure Pipeline (id : ClientId) (handled queue : List Command) (cn : Conn) : Prop where
  numbered : cn.client.Numbered
  written : cn.client.Written
  fits : ∀ r ∈ cn.client.requests, r.fits = true
  introduced : Introduced id (handled ++ queue)
  upstream : Upstream id (handled ++ queue) cn
  downstream : ∃ pos, Downstream id handled cn pos
  results : Results handled id cn.client.log

section Requests

variable {id : ClientId} {cmds handled queue : List Command} {cn : Conn}

theorem Upstream.count_le (h : Upstream id cmds cn) :
    requestCount id cmds ≤ cn.client.requests.length := by
  have hlen := congrArg List.length h.commands_eq
  rw [← List.countP_eq_length_filter, commandsOf, length_numberFrom, List.length_take] at hlen
  calc requestCount id cmds
      _ = min (requestCount id cmds) cn.client.requests.length := hlen
      _ ≤ cn.client.requests.length := Nat.min_le_right ..

/-- An answer belongs to the request of its number. -/
theorem Upstream.request_of_answer (h : Upstream id (handled ++ queue) cn)
    (hintro : Introduced id (handled ++ queue)) {n : Nat} {m : ServerMsg}
    (he : (n, m) ∈ numberedStream id handled) (ha : m.isAnswer = true) :
    ∃ before after req, handled = before ++ req.command id (UInt64.ofNat n) :: after ∧
      m ∈ emitted id before (req.command id (UInt64.ofNat n)) ∧
      requestCount id before + 1 = n ∧ cn.client.requests[requestCount id before]? = some req := by
  obtain ⟨before, c, after, hhandled, hm, hnumber⟩ := mem_numberedStream he
  dsimp only at hm hnumber
  have hcommands : handled ++ queue = before ++ c :: (after ++ queue) := by
    rw [hhandled, List.append_assoc, List.cons_append]
  have hrequest : c.requestOf id = true := by
    refine requestOf_of_answer (fun hc ↦ ?_) hm ha
    exact hintro before _ (hc ▸ hcommands)
  rw [requestCount_snoc hrequest] at hnumber
  -- the command stands in the place of its number, on both sides
  have hplace : ((handled ++ queue).filter (Command.requestOf id))[requestCount id before]? = some c := by
    rw [hcommands, List.filter_append, List.filter_cons_of_pos hrequest, requestCount,
      List.countP_eq_length_filter, List.getElem?_append_right (Nat.le_refl _), Nat.sub_self]
    rfl
  rw [h.commands_eq, getElem?_commandsOf, Option.map_eq_some_iff, ← hnumber] at hplace
  obtain ⟨req, hreq, rfl⟩ := hplace
  refine ⟨before, after, req, hhandled, hm, hnumber.symm, ?_⟩
  obtain ⟨hlt, hget⟩ := List.getElem?_eq_some_iff.mp hreq
  rw [List.getElem_take] at hget
  exact List.getElem?_eq_some_iff.mpr ⟨_, hget⟩

/-- A frame that asks for it is answered with an acknowledgement, and filters with one of
their own, with the number of the request. -/
theorem answer_cases {before : List Command} {req : Request} {seq : UInt64} {m : ServerMsg}
    (hm : m ∈ emitted id before (req.command id seq)) (ha : m.isAnswer = true) :
    (∃ frame, req = .send true frame ∧
        m = .ack seq (if othersRegistered id before then ackOk else ackNoAck)) ∨
      ∃ status, m = .filtersAck seq status := by
  cases req with
  | send expectAck frame =>
      rcases List.mem_append.mp hm with hframe | hack
      · split at hframe
        · rw [List.mem_singleton.mp hframe] at ha
          cases ha
        · cases hframe
      · split at hack
        · next hexpect =>
            obtain ⟨-, rfl, -⟩ := hexpect
            exact .inl ⟨frame, rfl, List.mem_singleton.mp hack⟩
        · cases hack
  | filters fs =>
      rw [Request.command, emitted] at hm
      split at hm
      · exact .inr ⟨_, List.mem_singleton.mp hm⟩
      · cases hm

/-- The acknowledgement of a frame belongs to the frame of its number. -/
theorem Upstream.request_of_ack (h : Upstream id (handled ++ queue) cn)
    (hintro : Introduced id (handled ++ queue)) {n : Nat} {seq : UInt64} {status : UInt8}
    (he : (n, .ack seq status) ∈ numberedStream id handled) :
    seq = UInt64.ofNat n ∧ ∃ i frame others, i + 1 = n ∧
      cn.client.requests[i]? = some (.send true frame) ∧ Broadcasted handled id n frame others ∧
      status = if others then ackOk else ackNoAck := by
  obtain ⟨before, after, req, hhandled, hm, hcount, hreq⟩ := h.request_of_answer hintro he rfl
  rcases answer_cases hm rfl with ⟨frame, rfl, hack⟩ | ⟨_, hack⟩
  · obtain ⟨rfl, rfl⟩ := ServerMsg.ack.inj hack
    exact ⟨rfl, _, frame, _, hcount, hreq, ⟨before, after, hhandled, hcount, rfl⟩, rfl⟩
  · cases hack

/-- The acknowledgement of filters carries the number of its request. -/
theorem Upstream.request_of_filtersAck (h : Upstream id (handled ++ queue) cn)
    (hintro : Introduced id (handled ++ queue)) {n : Nat} {seq : UInt64} {status : UInt8}
    (he : (n, .filtersAck seq status) ∈ numberedStream id handled) : seq = UInt64.ofNat n := by
  obtain ⟨before, after, req, -, hm, -, -⟩ := h.request_of_answer hintro he rfl
  rcases answer_cases hm rfl with ⟨frame, -, hack⟩ | ⟨_, hack⟩
  · cases hack
  · exact (ServerMsg.filtersAck.inj hack).1

/-- The next message of the stream is the one that the client takes. -/
theorem Downstream.head {pos : Nat} (h : Downstream id handled cn pos) {msg : DecodedMsg}
    {can : UnixCan} (htakes : cn.client.can.Takes msg can) :
    ∃ n m, pos < cn.sent ∧ msg = m.decoded ∧
      (numberedStream id handled).drop pos = (n, m) :: (numberedStream id handled).drop (pos + 1) ∧
      can.buffered ++ cn.client.unread =
        ((((numberedStream id handled).take cn.sent).drop (pos + 1)).map Prod.snd).flatMap
          ServerMsg.encode := by
  obtain ⟨m, ms, hms, hmsg, hbytes⟩ := takes_encoded htakes h.bytes_eq
  have hlen : pos < ((numberedStream id handled).take cn.sent).length := by
    by_contra hge
    rw [List.drop_eq_nil_of_le (Nat.not_lt.mp hge)] at hms
    cases hms
  have hsent : pos < cn.sent := Nat.lt_of_lt_of_le hlen (List.length_take_le ..)
  have hstream : pos < (numberedStream id handled).length := Nat.lt_of_lt_of_le hsent h.sent_le
  rw [List.drop_eq_getElem_cons hlen, List.map_cons, List.getElem_take] at hms
  obtain ⟨rfl, rfl⟩ := List.cons.inj hms
  exact ⟨_, _, hsent, hmsg, List.drop_eq_getElem_cons hstream, hbytes⟩

end Requests

/-! ## Windows -/

theorem Client.changing_of_task {c : Client} {call : Call} {pc : Pc} (h : c.task = some (call, pc)) :
    c.changing = call.changes := by
  rw [Client.changing, h]
  rfl

theorem Client.changing_of_idle {c : Client} (h : c.task = none) : c.changing = 0 := by
  rw [Client.changing, h]
  rfl

theorem Call.changes_le (call : Call) : call.changes ≤ 1 := by
  cases call with
  | setFilters => exact Nat.le_refl 1
  | connect | send | trySend | sendTimeout | recv | tryRecv | recvTimeout | waitNotEmpty =>
      exact Nat.zero_le 1

theorem Client.changing_le (c : Client) : c.changing ≤ 1 := by
  cases htask : c.task with
  | none => exact changing_of_idle htask ▸ Nat.zero_le 1
  | some t => exact changing_of_task htask ▸ t.1.changes_le

section Window

variable {id : ClientId} {handled : List Command} {cn : Conn} {pos : Nat}

/-- An answer with the number of the last request is the answer to it. -/
theorem Window.number_eq {n : Nat} {m : ServerMsg} (h : Window id handled cn pos)
    (hpos : pos < cn.sent) (hsends : cn.client.requests.countP Request.isSend < 2 ^ 64)
    (hcount : requestCount id handled ≤ cn.client.requests.length)
    (he : (n, m) ∈ (numberedStream id handled).drop pos) (ha : m.isAnswer = true)
    (hseq : UInt64.ofNat n = UInt64.ofNat cn.client.requests.length) :
    n = cn.client.requests.length := by
  rcases h with ⟨-, hend⟩ | ⟨base, -, hbase, hlen⟩
  · exact absurd hend (Nat.ne_of_lt hpos)
  · have hlow := hbase _ he ha
    have hhigh := fst_le_of_mem (List.mem_of_mem_drop he)
    have hone := cn.client.changing_le
    apply UInt64.eq_of_ofNat_eq hseq
    · exact Nat.le_trans hhigh hcount
    · dsimp only at hlow
      omega

/-- The client may make a request if it makes room for it. -/
theorem Window.client {c : Client} (h : Window id handled cn pos)
    (hroom : c.requests.length + (cn.client.requests.countP Request.isSend + cn.client.changing) ≤
      cn.client.requests.length + (c.requests.countP Request.isSend + c.changing)) :
    Window id handled { cn with client := c } pos := by
  rcases h with hdead | ⟨base, hbase, hanswers, hlen⟩
  · exact .inl hdead
  · refine .inr ⟨base, hbase, hanswers, ?_⟩
    dsimp only
    omega

/-- The window may be looked at further on. -/
theorem Window.forward {pos' : Nat} (h : Window id handled cn pos) (hle : pos ≤ pos')
    (hsent : pos' ≤ cn.sent) : Window id handled cn pos' := by
  rcases h with ⟨hdone, hend⟩ | ⟨base, hbase, hanswers, hlen⟩
  · exact .inl ⟨hdone, Nat.le_antisymm hsent (hend ▸ hle)⟩
  · refine .inr ⟨base, hbase, fun e he ↦ hanswers e ?_, hlen⟩
    obtain ⟨d, rfl⟩ := Nat.exists_eq_add_of_le hle
    rw [← List.drop_drop] at he
    exact List.mem_of_mem_drop he

/-- Behind the answer to the last request there is no answer. -/
theorem Window.of_last {n : Nat} {m : ServerMsg} (hintro : Introduced id handled)
    (hn : cn.client.requests.length = n)
    (hdrop : (numberedStream id handled).drop pos =
      (n, m) :: (numberedStream id handled).drop (pos + 1))
    (ha : m.isAnswer = true) : Window id handled cn (pos + 1) := by
  have hmem : (n, m) ∈ numberedStream id handled :=
    List.mem_of_mem_drop (hdrop ▸ List.mem_cons_self)
  refine .inr ⟨n, fst_le_of_mem hmem, fun e he hanswer ↦ ?_, ?_⟩
  · have hpair := (numberedStream_pairwise hintro).sublist (List.drop_sublist pos _)
    rw [hdrop] at hpair
    exact List.rel_of_pairwise_cons hpair he ha hanswer
  · omega

/-- The bus thread handles a command. -/
theorem Window.handle {c : Command} (h : Window id handled cn pos)
    (hintro : Introduced id (handled ++ [c])) (hpos : pos ≤ (numberedStream id handled).length) :
    Window id (handled ++ [c]) cn pos := by
  rcases h with hdead | ⟨base, hbase, hanswers, hlen⟩
  · exact .inl hdead
  · refine .inr ⟨base, ?_, fun e he ha ↦ ?_, hlen⟩
    · rw [requestCount_append]
      exact Nat.le_trans hbase (Nat.le_add_right ..)
    · rw [numberedStream_snoc, List.drop_append_of_le_length hpos] at he
      rcases List.mem_append.mp he with hold | hnew
      · exact hanswers e hold ha
      · obtain ⟨m, hm, rfl⟩ := List.mem_map.mp hnew
        rw [requestCount_snoc (requestOf_of_answer hintro.last hm ha)]
        exact Nat.lt_succ_of_le hbase

end Window

/-! ## Results -/

section Results

variable {handled more : List Command} {id : ClientId} {log : List (Call × Ret)} {call : Call}

theorem Results.append (h : Results handled id log) : Results (handled ++ more) id log := by
  intro before call r after frame hlog hcall
  obtain ⟨hok, hnoAck⟩ := h before call r after frame hlog hcall
  exact ⟨fun hr ↦ (hok hr).append, fun hr ↦ (hnoAck hr).append⟩

/-- One more call has returned. -/
theorem Results.snoc {r : Ret} (h : Results handled id log)
    (hnew : ∀ frame, (call = .send frame ∨ call = .sendTimeout frame) →
      Reports handled id (requestsIn (log ++ [(call, r)])).length frame r) :
    Results handled id (log ++ [(call, r)]) := by
  intro before call' r' after frame hlog hcall
  rcases List.eq_nil_or_concat after with rfl | ⟨after, e, rfl⟩
  · obtain ⟨rfl, he⟩ := List.append_inj' hlog rfl
    obtain ⟨rfl, rfl⟩ := Prod.mk.inj (List.singleton_inj.mp he)
    exact hnew frame hcall
  · rw [List.concat_eq_append, ← List.cons_append, ← List.append_assoc] at hlog
    exact h before call' r' after frame (List.append_inj' hlog rfl).1 hcall

/-- A call goes on, or returns. -/
theorem Results.go {c : Client} {next : Next} {n : Nat} (h : Results handled id c.log)
    (hn : (c.finished ++ call.request.toList).length = n)
    (hnew : ∀ r frame, next = .ret r → (call = .send frame ∨ call = .sendTimeout frame) →
      Reports handled id n frame r) :
    Results handled id (c.go call next).log := by
  cases next with
  | goto pc => exact h
  | ret r =>
      apply h.snoc
      intro frame hcall
      have hresult : call.result r = r := by
        rcases hcall with rfl | rfl
        · rfl
        · rfl
      have hlen : (requestsIn (c.log ++ [(call, call.result r)])).length = n := by
        rw [← hn]
        exact congrArg List.length ((Client.requests_of_idle rfl).symm.trans (c.requests_go call (.ret r)))
      rw [hlen, hresult]
      exact hnew r frame rfl hcall

end Results

/-! ## What ends a wait -/

/-- Only an acknowledgement with its own number ends the wait of a send. -/
theorem waitForAck_ret {seq : UInt64} {msg : DecodedMsg} {r : Ret} (h : waitForAck seq msg = .ret r) :
    ∃ status, msg = .ack seq status ∧ (r = .ok none → status = ackOk) ∧
      (r = .error .noAck → status = ackNoAck) := by
  cases msg with
  | ack ackSeq status =>
      rw [waitForAck] at h
      split at h
      · next hseq =>
          obtain rfl := Reaction.ret.inj h
          refine ⟨status, by rw [hseq], ?_, ?_⟩
          · intro hok
            by_contra hne
            rw [if_neg hne] at hok
            repeat' split at hok
            all_goals cases hok
          · intro hnoAck
            by_contra hne
            rw [if_neg hne] at hnoAck
            repeat' split at hnoAck
            all_goals cases hnoAck
      · cases h
  | frame | filtersAck | hello | unknown => cases h

/-- Only an acknowledgement with its own number ends the wait of `set_filters`. -/
theorem waitForFiltersAck_ret {seq : UInt64} {msg : DecodedMsg} {r : Ret}
    (h : waitForFiltersAck seq msg = .ret r) : ∃ status, msg = .filtersAck seq status := by
  cases msg with
  | filtersAck ackSeq status =>
      rw [waitForFiltersAck] at h
      split at h
      · next hseq => exact ⟨status, by rw [hseq]⟩
      · cases h
  | frame | ack | hello | unknown => cases h

theorem ServerMsg.eq_ack {m : ServerMsg} {seq : UInt64} {status : UInt8}
    (h : m.decoded = .ack seq status) : m = .ack seq status := by
  cases m with
  | ack =>
      obtain ⟨rfl, rfl⟩ := DecodedMsg.ack.inj h
      rfl
  | frame | hello | filtersAck => cases h

theorem ServerMsg.eq_filtersAck {m : ServerMsg} {seq : UInt64} {status : UInt8}
    (h : m.decoded = .filtersAck seq status) : m = .filtersAck seq status := by
  cases m with
  | filtersAck =>
      obtain ⟨rfl, rfl⟩ := DecodedMsg.filtersAck.inj h
      rfl
  | frame | hello | ack => cases h

/-- What a send waits for. -/
theorem goal_of_send {call : Call} {frame : UnixFrame}
    (h : call = .send frame ∨ call = .sendTimeout frame) (seq : UInt64) :
    ∃ timed, call.goal seq = some (.ack seq timed) := by
  rcases h with rfl | rfl
  · exact ⟨false, rfl⟩
  · exact ⟨true, rfl⟩

/-- What a send asks for. -/
theorem request_of_send {call : Call} {frame : UnixFrame}
    (h : call = .send frame ∨ call = .sendTimeout frame) : call.request = some (.send true frame) := by
  rcases h with rfl | rfl
  · rfl
  · rfl

theorem eq_setFilters {call : Call} (h : call.changes ≠ 0) : ∃ fs, call = .setFilters fs := by
  cases call with
  | setFilters fs => exact ⟨fs, rfl⟩
  | connect | send | trySend | sendTimeout | recv | tryRecv | recvTimeout | waitNotEmpty =>
      exact absurd rfl h

/-! ## Steps of the client -/

namespace Pipeline

variable {id : ClientId} {handled queue : List Command} {cn : Conn} {call : Call} {pc : Pc}

theorem count_le (h : Pipeline id handled queue cn) :
    requestCount id handled ≤ cn.client.requests.length := by
  have hle := h.upstream.count_le
  rw [requestCount_append] at hle
  exact Nat.le_trans (Nat.le_add_right ..) hle

/-- What the client does to its own state is of no concern to the server. -/
theorem withClient {c : Client} (h : Pipeline id handled queue cn) (hn : c.Numbered) (hw : c.Written)
    (hfits : ∀ r ∈ c.requests, r.fits = true)
    (hrequests : cn.client.requests <+: c.requests) (hwritten : cn.client.written <+: c.written)
    (hdown : ∃ pos, Downstream id handled { cn with client := c } pos)
    (hresults : Results handled id c.log) : Pipeline id handled queue { cn with client := c } := by
  obtain ⟨more, hmore⟩ := hrequests
  have htake : c.requests.take (requestCount id (handled ++ queue)) =
      cn.client.requests.take (requestCount id (handled ++ queue)) := by
    rw [← hmore, List.take_append_of_le_length h.upstream.count_le]
  refine ⟨hn, hw, hfits, h.introduced, ⟨?_, fun hreader ↦ ?_, ?_⟩, hdown, hresults⟩
  · rw [htake]
    exact h.upstream.commands_eq
  · rw [htake]
    exact h.upstream.taken_eq hreader
  · exact Nat.le_trans h.upstream.taken_le hwritten.length_le

/-- The call goes on, and no message was taken. -/
theorem goOf {c : Client} {next : Next} (h : Pipeline id handled queue cn)
    (htask : cn.client.task = some (call, pc)) (hlog : c.log = cn.client.log)
    (hbytes : c.can.buffered ++ c.unread = cn.client.can.buffered ++ cn.client.unread)
    (hwritten : cn.client.written <+: c.written) (hn : (c.go call next).Numbered)
    (hw : (c.go call next).Written) (hchanges : ∀ r, next = .ret r → call.changes = 0)
    (hnew : ∀ r frame, next = .ret r → (call = .send frame ∨ call = .sendTimeout frame) →
      Reports handled id cn.client.requests.length frame r) :
    Pipeline id handled queue { cn with client := c.go call next } := by
  have hrequests : (c.go call next).requests = cn.client.requests :=
    Client.requests_goOf htask hlog next
  have hchanging : cn.client.changing ≤ (c.go call next).changing := by
    rw [Client.changing_of_task htask]
    cases next with
    | goto pc => exact Nat.le_refl _
    | ret r => exact hchanges r rfl ▸ Nat.zero_le _
  have hcan : (c.go call next).can = c.can ∧ (c.go call next).unread = c.unread ∧
      (c.go call next).written = c.written := by
    cases next with
    | goto | ret => exact ⟨rfl, rfl, rfl⟩
  obtain ⟨pos, hdown⟩ := h.downstream
  refine h.withClient hn hw (hrequests ▸ h.fits) (hrequests ▸ List.prefix_rfl) (hcan.2.2 ▸ hwritten) ⟨pos, ?_⟩ ?_
  · refine ⟨hdown.pos_le, hdown.sent_le, ?_, hdown.window.client ?_⟩
    · change (c.go call next).can.buffered ++ (c.go call next).unread = _
      rw [hcan.1, hcan.2.1, hbytes]
      exact hdown.bytes_eq
    · rw [hrequests]
      omega
  · have hresults := h.results
    rw [← hlog] at hresults
    refine hresults.go ?_ hnew
    rw [Client.finished_congr hlog, ← Client.requests_of_task htask]

/-- A call begins. -/
theorem begin (h : Pipeline id handled queue cn) (hidle : cn.client.task = none)
    (hfits : call.request.all Request.fits = true) :
    Pipeline id handled queue { cn with client := cn.client.begin call } := by
  have hrequests : (cn.client.begin call).requests = cn.client.requests ++ call.request.toList := by
    rw [Client.begin, Client.requests_go, Client.requests_of_idle hidle]
    rfl
  have hsame : (cn.client.begin call).can.buffered = cn.client.can.buffered ∧
      (cn.client.begin call).unread = cn.client.unread ∧
      (cn.client.begin call).written = cn.client.written := by
    rw [← buffered_start cn.client.can call, Client.begin]
    cases (call.start cn.client.can).2 with
    | goto | ret => exact ⟨rfl, rfl, rfl⟩
  have hroom : (cn.client.begin call).requests.length +
        (cn.client.requests.countP Request.isSend + cn.client.changing) ≤
      cn.client.requests.length +
        ((cn.client.begin call).requests.countP Request.isSend + (cn.client.begin call).changing) := by
    rw [hrequests, Client.changing_of_idle hidle, List.length_append, List.countP_append]
    cases hr : call.request with
    | none =>
        simp only [Option.toList_none, List.length_nil, List.countP_nil]
        omega
    | some r =>
        rw [hr] at hfits
        obtain ⟨pc, hpc⟩ := start_goto cn.client.can hr hfits
        have hchanging : (cn.client.begin call).changing = call.changes := by
          rw [Client.begin, hpc]
          rfl
        have hone : [r].countP Request.isSend + call.changes = 1 := by
          cases call with
          | send | trySend | sendTimeout | setFilters =>
              obtain rfl := Option.some.inj hr
              rfl
          | connect | recv | tryRecv | recvTimeout | waitNotEmpty => cases hr
        rw [hchanging, Option.toList_some, List.length_singleton]
        omega
  obtain ⟨pos, hdown⟩ := h.downstream
  have hall : ∀ r ∈ (cn.client.begin call).requests, r.fits = true := by
    intro r hr
    rw [hrequests] at hr
    rcases List.mem_append.mp hr with hold | hnew
    · exact h.fits r hold
    · rw [Option.mem_toList.mp hnew] at hfits
      exact hfits
  refine h.withClient (h.numbered.begin hidle) (h.written.begin h.numbered hidle hfits) hall
    (hrequests ▸ List.prefix_append ..) (hsame.2.2 ▸ List.prefix_rfl) ⟨pos, ?_⟩ ?_
  · refine ⟨hdown.pos_le, hdown.sent_le, ?_, hdown.window.client hroom⟩
    change (cn.client.begin call).can.buffered ++ (cn.client.begin call).unread = _
    rw [hsame.1, hsame.2.1]
    exact hdown.bytes_eq
  · refine Results.go (c := { cn.client with can := (call.start cn.client.can).1 }) h.results rfl ?_
    intro r frame hret hcall
    rw [request_of_send hcall] at hfits
    obtain ⟨pc, hpc⟩ := start_goto cn.client.can (request_of_send hcall) hfits
    cases hpc.symm.trans hret

/-- A send that sees its acknowledgement reports about its own frame. -/
theorem reports_of_ack {pos n : Nat} {m : ServerMsg} {goal : Goal} {r : Ret} {frame : UnixFrame}
    (h : Pipeline id handled queue cn) (htask : cn.client.task = some (call, .scanning goal))
    (hsends : cn.client.requests.countP Request.isSend < 2 ^ 64) (hpos : pos < cn.sent)
    (hwindow : Window id handled cn pos)
    (hdrop : (numberedStream id handled).drop pos =
      (n, m) :: (numberedStream id handled).drop (pos + 1))
    (hreact : goal.react m.decoded = .ret r) (hcall : call = .send frame ∨ call = .sendTimeout frame) :
    Reports handled id cn.client.requests.length frame r := by
  obtain ⟨timed, hgoal⟩ := goal_of_send hcall (UInt64.ofNat cn.client.requests.length)
  obtain rfl := Option.some.inj ((h.numbered.goal_eq call _ htask).trans hgoal)
  obtain ⟨status, hdecoded, hok, hnoAck⟩ := waitForAck_ret hreact
  obtain rfl := ServerMsg.eq_ack hdecoded
  have hmem : (n, ServerMsg.ack (UInt64.ofNat cn.client.requests.length) status) ∈
      (numberedStream id handled).drop pos := hdrop ▸ List.mem_cons_self
  obtain ⟨hseq, i, frame', others, hi, hget, hbroadcast, hstatus⟩ :=
    h.upstream.request_of_ack h.introduced (List.mem_of_mem_drop hmem)
  obtain rfl := hwindow.number_eq hpos hsends h.count_le hmem rfl hseq.symm
  -- the request of that number is the one of this call
  have hlast : cn.client.requests[i]? = some (.send true frame) := by
    have hrequests := Client.requests_of_task htask
    rw [request_of_send hcall, Option.toList_some] at hrequests
    rw [hrequests, List.length_append, List.length_singleton] at hi
    rw [hrequests, Nat.add_right_cancel hi, List.getElem?_append_right (Nat.le_refl _), Nat.sub_self]
    rfl
  obtain ⟨-, rfl⟩ := Request.send.inj (Option.some.inj (hget.symm.trans hlast))
  constructor
  · intro hr
    cases others with
    | true => exact hbroadcast
    | false => cases hstatus.symm.trans (hok hr)
  · intro hr
    cases others with
    | true => cases hstatus.symm.trans (hnoAck hr)
    | false => exact hbroadcast

/-- The client takes a message. -/
theorem onMsg {goal : Goal} {msg : DecodedMsg} {can : UnixCan} (h : Pipeline id handled queue cn)
    (hsends : cn.client.requests.countP Request.isSend < 2 ^ 64)
    (htask : cn.client.task = some (call, .scanning goal)) (htakes : cn.client.can.Takes msg can)
    (hw : (cn.client.onMsg call goal msg can).Written) :
    Pipeline id handled queue { cn with client := cn.client.onMsg call goal msg can } := by
  have hn := h.numbered.onMsg htask htakes
  obtain ⟨pos, hdown⟩ := h.downstream
  obtain ⟨n, m, hpos, rfl, hdrop, hbytes⟩ := hdown.head htakes
  have hforward := hdown.window.forward (Nat.le_succ pos) hpos
  have hsame : ∀ can' : UnixCan, can'.buffered = can.buffered →
      Downstream id handled { cn with client := { cn.client with can := can' } } (pos + 1) := by
    intro can' hcan
    refine ⟨hpos, hdown.sent_le, ?_, hforward.client (Nat.le_refl _)⟩
    change can'.buffered ++ cn.client.unread = _
    rw [hcan]
    exact hbytes
  unfold Client.onMsg at hn hw ⊢
  split
  · next frame hreact =>
      rw [hreact] at hn hw
      exact h.withClient hn hw h.fits List.prefix_rfl List.prefix_rfl ⟨pos + 1, hsame _ rfl⟩ h.results
  · next hreact =>
      rw [hreact] at hn hw
      exact h.withClient hn hw h.fits List.prefix_rfl List.prefix_rfl ⟨pos + 1, hsame _ rfl⟩ h.results
  · next r hreact =>
      rw [hreact] at hn hw
      have hrequests : (Client.go { cn.client with can := can } call (.ret r)).requests =
          cn.client.requests := Client.requests_goOf htask rfl (.ret r)
      refine h.withClient hn hw (hrequests ▸ h.fits) (hrequests ▸ List.prefix_rfl) List.prefix_rfl
        ⟨pos + 1, hpos, hdown.sent_le, hbytes, ?_⟩ ?_
      · by_cases hchanges : call.changes = 0
        · apply hforward.client
          rw [hrequests, Client.changing_of_task htask, hchanges]
          omega
        · -- `set_filters` has seen its own answer
          obtain ⟨fs, rfl⟩ := eq_setFilters hchanges
          obtain rfl := Option.some.inj (h.numbered.goal_eq _ _ htask)
          obtain ⟨status, hdecoded⟩ := waitForFiltersAck_ret hreact
          obtain rfl := ServerMsg.eq_filtersAck hdecoded
          have hmem : (n, ServerMsg.filtersAck (UInt64.ofNat cn.client.requests.length) status) ∈
              (numberedStream id handled).drop pos := hdrop ▸ List.mem_cons_self
          have hseq := h.upstream.request_of_filtersAck h.introduced (List.mem_of_mem_drop hmem)
          obtain rfl := hdown.window.number_eq hpos hsends h.count_le hmem rfl hseq.symm
          exact Window.of_last h.introduced.left (congrArg List.length hrequests) hdrop rfl
      · have hlen : (cn.client.finished ++ call.request.toList).length = cn.client.requests.length :=
          congrArg List.length (Client.requests_of_task htask).symm
        refine Results.go (c := { cn.client with can := can }) h.results hlen ?_
        intro r' frame hr hcall
        obtain rfl := Next.ret.inj hr
        exact h.reports_of_ack htask hsends hpos hdown.window hdrop hreact hcall

/-- A send that ends otherwise returns an error of another kind. -/
theorem reports_of_ends {l : Label} {r : Ret} {frame : UnixFrame} (h : Pipeline id handled queue cn)
    (htask : cn.client.task = some (call, pc)) (hends : cn.client.Ends pc l r)
    (hcall : call = .send frame ∨ call = .sendTimeout frame) :
    Reports handled id cn.client.requests.length frame r := by
  obtain ⟨timed, hgoal⟩ := goal_of_send hcall (UInt64.ofNat cn.client.requests.length)
  have hpc := (h.numbered.goal_eq call pc htask).trans hgoal
  cases hends with
  | notEmpty => cases hpc
  | writeZero | timeout | pollFailed | malformed | noFrame | eof =>
      exact ⟨fun hr ↦ (by cases hr), fun hr ↦ (by cases hr)⟩
  | @writeFailed _ _ _ kind =>
      cases kind with
      | wouldBlock | timedOut | interrupted | other =>
          exact ⟨fun hr ↦ (by cases hr), fun hr ↦ (by cases hr)⟩
  | @readFailed _ kind =>
      cases kind with
      | wouldBlock | timedOut | interrupted | other =>
          exact ⟨fun hr ↦ (by cases hr), fun hr ↦ (by cases hr)⟩

/-- `set_filters` gives up only at the end of the stream. -/
theorem eof_of_ends {l : Label} {r : Ret} {seq : UInt64} (h : Pipeline id handled queue cn)
    (htask : cn.client.task = some (call, pc)) (hgoal : pc.goal = some (.filtersAck seq))
    (hends : cn.client.Ends pc l r) (hl : cn.client.lossless cn.closed l = true) :
    cn.writerDone = true ∧ cn.client.can.buffered ++ cn.client.unread = [] := by
  obtain ⟨pos, hdown⟩ := h.downstream
  cases hends with
  | writeZero => cases hl
  | @writeFailed _ _ _ kind hblock hint =>
      rcases Bool.or_eq_true_iff.mp hl with hkind | hkind
      · exact absurd (of_decide_eq_true hkind) hblock
      · exact absurd (of_decide_eq_true hkind) hint
  | timeout htimed =>
      cases pc with
      | writing | scanning | reading | pollReady => cases htimed
      | pollOut bytes later goal =>
          obtain rfl : goal = some (.filtersAck seq) := hgoal
          cases htimed
      | pollIn goal =>
          obtain rfl := Option.some.inj hgoal
          cases htimed
  | pollFailed hint => exact absurd (of_decide_eq_true hl) hint
  | malformed hnext => exact absurd hnext (not_malformed hdown.bytes_eq)
  | noFrame => cases hgoal
  | eof hunread =>
      obtain rfl := Option.some.inj hgoal
      have hnone := h.numbered.reading call seq htask
      have hbytes := hdown.bytes_eq
      rw [hunread, List.append_nil] at hbytes ⊢
      refine ⟨(Bool.and_eq_true_iff.mp hl).2, ?_⟩
      rw [hbytes, eq_nil_of_messagesOf hnone hbytes]
      rfl
  | readFailed hblock => exact absurd (of_decide_eq_true hl) hblock
  | notEmpty => cases hgoal

/-- A call ends without a message. -/
theorem ret {l : Label} {r : Ret} (h : Pipeline id handled queue cn)
    (htask : cn.client.task = some (call, pc)) (hends : cn.client.Ends pc l r)
    (hl : cn.client.lossless cn.closed l = true) (hn : (cn.client.go call (.ret r)).Numbered)
    (hw : (cn.client.go call (.ret r)).Written) :
    Pipeline id handled queue { cn with client := cn.client.go call (.ret r) } := by
  have hnew : ∀ r' frame, Next.ret r = .ret r' → (call = .send frame ∨ call = .sendTimeout frame) →
      Reports handled id cn.client.requests.length frame r' := by
    intro r' frame hr hcall
    obtain rfl := Next.ret.inj hr
    exact h.reports_of_ends htask hends hcall
  by_cases hchanges : call.changes = 0
  · exact h.goOf htask rfl rfl List.prefix_rfl hn hw (fun _ _ ↦ hchanges) hnew
  · obtain ⟨fs, rfl⟩ := eq_setFilters hchanges
    obtain ⟨hdone, hempty⟩ := h.eof_of_ends htask (h.numbered.goal_eq _ _ htask) hends hl
    have hrequests : (cn.client.go (.setFilters fs) (.ret r)).requests = cn.client.requests :=
      Client.requests_goOf htask rfl (.ret r)
    obtain ⟨pos, hdown⟩ := h.downstream
    refine h.withClient hn hw (hrequests ▸ h.fits) (hrequests ▸ List.prefix_rfl) List.prefix_rfl
      ⟨cn.sent, Nat.le_refl _, hdown.sent_le, ?_, .inl ⟨hdone, rfl⟩⟩ ?_
    · rw [List.drop_eq_nil_of_le (List.length_take_le ..)]
      exact hempty
    · exact h.results.go (congrArg List.length (Client.requests_of_task htask).symm) hnew

/-- Every step of the client. -/
theorem client {l : Label} {c : Client} (h : Pipeline id handled queue cn)
    (hsends : cn.client.requests.countP Request.isSend < 2 ^ 64)
    (hl : cn.client.lossless cn.closed l = true) (hmove : cn.client.Move l c) :
    Pipeline id handled queue { cn with client := c } := by
  have hn := h.numbered.move hmove
  have hw := h.written.move h.numbered hl hmove
  cases hmove with
  | begin hcall hidle _ =>
      subst hcall
      exact h.begin hidle hl
  | @wait call pc pc' htask _ _ _ =>
      change Pipeline id handled queue { cn with client := cn.client.go call (.goto pc') }
      exact h.goOf htask rfl rfl List.prefix_rfl hn hw (fun _ hr ↦ by cases hr) fun _ _ hr ↦ by cases hr
  | @wrote call bytes later goal n htask _ =>
      have hnone : ∀ r, writeNext (bytes.drop n :: later) goal = .ret r → goal = none := by
        intro r hr
        rcases writeNext_cases (bytes.drop n :: later) goal with ⟨pc, hpc, -⟩ | ⟨-, hgoal, -⟩
        · cases hpc.symm.trans hr
        · exact hgoal
      have hgoal : goal = call.goal (UInt64.ofNat cn.client.requests.length) :=
        h.numbered.goal_eq call _ htask
      refine h.goOf htask rfl rfl (List.prefix_append ..) hn hw (fun r hr ↦ ?_) fun r frame hr hcall ↦ ?_
      · by_contra hchanges
        obtain ⟨fs, rfl⟩ := eq_setFilters hchanges
        cases (hnone r hr).symm.trans hgoal
      · obtain ⟨timed, hsend⟩ := goal_of_send hcall (UInt64.ofNat cn.client.requests.length)
        cases (hnone r hr).symm.trans (hgoal.trans hsend)
  | @read call goal n htask _ =>
      change Pipeline id handled queue { cn with
        client := Client.go { cn.client with
          can := cn.client.can.extend (cn.client.unread.take n)
          unread := cn.client.unread.drop n } call (.goto (.scanning goal)) }
      refine h.goOf htask rfl ?_ List.prefix_rfl hn hw (fun _ hr ↦ by cases hr) fun _ _ hr ↦ by cases hr
      rw [UnixCan.buffered_extend, List.append_assoc, List.take_append_drop]
  | msg htask htakes => exact h.onMsg hsends htask htakes hw
  | ret htask hends => exact h.ret htask hends hl hn hw

end Pipeline

end Thincan.UnixSocket

import Mathlib.Data.List.Count
import Thincan.UnixSocket.Answers
import Thincan.UnixSocket.RoundTrip
import Thincan.UnixSocket.Steps

/-!
# Numbered requests

`send`, `try_send`, `send_timeout` and `set_filters` take a sequence number and write one
message, a `Request`.  The requests of a client are numbered from 1, and the number on the
wire is that number modulo `2^64`.  `Client.Numbered` ties the state of a client to the
number of its requests; where all writes complete, `Client.Written` says that what a client
has written is its requests, one after the other.
-/

namespace Thincan.UnixSocket

open Process

/-- What a client asks of the server. -/
inductive Request where
  | send (expectAck : Bool) (frame : UnixFrame)
  | filters (filters : List IdMaskFilter)
deriving DecidableEq, Repr

/-- The request of a call that takes a sequence number. -/
def Call.request : Call → Option Request
  | .send frame => some (.send true frame)
  | .trySend frame => some (.send false frame)
  | .sendTimeout frame => some (.send true frame)
  | .setFilters filters => some (.filters filters)
  | _ => none

/-- What the call waits for, if its sequence number is `seq`. -/
def Call.goal (seq : UInt64) : Call → Option Goal
  | .connect => some .hello
  | .send _ => some (.ack seq false)
  | .trySend _ => none
  | .sendTimeout _ => some (.ack seq true)
  | .setFilters _ => some (.filtersAck seq)
  | .recv => some (.frame false)
  | .tryRecv => some .buffered
  | .recvTimeout => some (.frame true)
  | .waitNotEmpty => none

namespace Request

/-- The type of the message. -/
def msgType : Request → UInt8
  | .send .. => msgSendFrame
  | .filters _ => msgSetFilters

/-- The payload of the message. -/
def payload (seq : UInt64) : Request → Bytes
  | .send expectAck frame => encodeSendFrameInto ⟨seq, expectAck, frame⟩
  | .filters fs => encodeFilters seq fs

/-- The message. -/
def bytes (seq : UInt64) (r : Request) : Bytes := Framing.frame r.msgType (r.payload seq)

/-- What the server makes of it. -/
def command (id : ClientId) (seq : UInt64) : Request → Command
  | .send expectAck frame => .sendFrame id seq expectAck frame
  | .filters fs => .setFilters id seq (fs.map IdMaskFilter.received)

theorem requestOf_command (id j : ClientId) (seq : UInt64) (r : Request) :
    (r.command id seq).requestOf j = decide (id = j) := by
  cases r with
  | send | filters => rfl

theorem command_ne_addClient (id j : ClientId) (seq : UInt64) (r : Request) :
    r.command id seq ≠ .addClient j := by
  cases r with
  | send | filters => exact fun h ↦ by cases h

/-- A frame is sent. -/
def isSend : Request → Bool
  | .send .. => true
  | .filters _ => false

/-- `write_msg_deadline` takes the request. -/
def fits (r : Request) : Bool := (r.payload 0).length ≤ 0xFFFFFFFF

/-- The length of a message does not depend on its number. -/
theorem length_payload (seq seq' : UInt64) (r : Request) :
    (r.payload seq).length = (r.payload seq').length := by
  cases r with
  | send => simp only [payload, encodeSendFrameInto, List.length_append, length_leBytes]
  | filters => rw [payload, payload, length_encodeFilters, length_encodeFilters]

/-- The reader makes a command of a request that it can take. -/
theorem readCommand_payload (id : ClientId) (seq : UInt64) (r : Request)
    (h : (r.payload seq).length ≤ maxPayloadLen) :
    readCommand id r.msgType (r.payload seq) = .command (r.command id seq) := by
  unfold readCommand
  cases r with
  | send expectAck frame =>
      rw [msgType, payload, if_pos rfl, decodeSendFrame_encodeSendFrameInto]
      rfl
  | filters fs =>
      have hlen : fs.length < 2 ^ 16 := by
        rw [payload, length_encodeFilters, maxPayloadLen] at h
        omega
      rw [msgType, payload, if_neg (by decide), if_pos rfl, decodeFilters_encodeFilters seq fs hlen]
      rfl

end Request

/-! ## A list of requests, numbered -/

theorem ofNat_succ (n : Nat) : UInt64.ofNat (n + 1) = UInt64.ofNat n + 1 := UInt64.ofNat_add ..

section Number

variable {β : Type}

/-- What `g` makes of the requests, where the first has the number `n + 1`. -/
def numberFrom (g : UInt64 → Request → β) (n : Nat) (rs : List Request) : List β :=
  (rs.zipIdx n).map fun p ↦ g (UInt64.ofNat (p.2 + 1)) p.1

variable (g : UInt64 → Request → β) (n : Nat)

@[simp] theorem numberFrom_nil : numberFrom g n [] = [] := rfl

@[simp] theorem numberFrom_cons (r : Request) (rs : List Request) :
    numberFrom g n (r :: rs) = g (UInt64.ofNat (n + 1)) r :: numberFrom g (n + 1) rs := rfl

theorem numberFrom_append (rs ss : List Request) :
    numberFrom g n (rs ++ ss) = numberFrom g n rs ++ numberFrom g (n + rs.length) ss := by
  rw [numberFrom, List.zipIdx_append, List.map_append]
  rfl

@[simp] theorem length_numberFrom (rs : List Request) : (numberFrom g n rs).length = rs.length := by
  rw [numberFrom, List.length_map, List.length_zipIdx]

end Number

/-- The messages of requests. -/
def bytesOf (rs : List Request) : Bytes := (numberFrom Request.bytes 0 rs).flatten

/-- The commands of requests. -/
def commandsOf (id : ClientId) (rs : List Request) : List Command :=
  numberFrom (Request.command id) 0 rs

theorem bytesOf_append (rs ss : List Request) :
    bytesOf (rs ++ ss) = bytesOf rs ++ (numberFrom Request.bytes rs.length ss).flatten := by
  rw [bytesOf, numberFrom_append, List.flatten_append, Nat.zero_add]
  rfl

theorem bytesOf_snoc (rs : List Request) (r : Request) :
    bytesOf (rs ++ [r]) = bytesOf rs ++ r.bytes (UInt64.ofNat (rs.length + 1)) := by
  rw [bytesOf_append, numberFrom_cons, numberFrom_nil, List.flatten_cons, List.flatten_nil,
    List.append_nil]

theorem commandsOf_snoc (id : ClientId) (rs : List Request) (r : Request) :
    commandsOf id (rs ++ [r]) = commandsOf id rs ++ [r.command id (UInt64.ofNat (rs.length + 1))] := by
  rw [commandsOf, numberFrom_append, Nat.zero_add]
  rfl

theorem getElem?_commandsOf (id : ClientId) (rs : List Request) (i : Nat) :
    (commandsOf id rs)[i]? = rs[i]?.map (Request.command id (UInt64.ofNat (i + 1))) := by
  rw [commandsOf, numberFrom, List.getElem?_map, List.getElem?_zipIdx, Option.map_map, Nat.zero_add]
  rfl

/-! ## How calls begin -/

/-- A call with a request takes a number and writes the request. -/
theorem start_of_request {call : Call} {r : Request} (c : UnixCan) (h : call.request = some r) :
    (call.start c).1.nextSeq = c.nextSeq + 1 ∧ (call.start c).1.buffered = c.buffered ∧
      (call.start c).2 = writeMsgDeadline r.msgType (r.payload c.nextSeq) (call.goal c.nextSeq) := by
  cases call with
  | send | trySend | sendTimeout | setFilters =>
      obtain rfl := Option.some.inj h
      exact ⟨rfl, rfl, rfl⟩
  | connect | recv | tryRecv | recvTimeout | waitNotEmpty => cases h

/-- A request that fits is not refused. -/
theorem start_goto {call : Call} {r : Request} (c : UnixCan) (h : call.request = some r)
    (hfits : r.fits = true) : ∃ pc, (call.start c).2 = .goto pc := by
  have hlen : (r.payload c.nextSeq).length ≤ 0xFFFFFFFF := by
    rw [r.length_payload c.nextSeq 0]
    exact of_decide_eq_true hfits
  rw [(start_of_request c h).2.2, writeMsgDeadline_eq _ _ hlen]
  exact ⟨_, rfl⟩

/-- A call that does not return at once waits for its goal, with nothing to write. -/
def Call.Waits (call : Call) : Next → Prop
  | .goto pc => (∀ seq, pc.goal = call.goal seq) ∧ pc.rest = [] ∧ ∀ seq, pc ≠ .reading (.filtersAck seq)
  | .ret _ => True

/-- A call without a request returns, or waits for its goal. -/
theorem start_of_no_request {call : Call} (c : UnixCan) (h : call.request = none) :
    (call.start c).1.nextSeq = c.nextSeq ∧ (call.start c).1.buffered = c.buffered ∧
      call.Waits (call.start c).2 := by
  cases call with
  | send | trySend | sendTimeout | setFilters => cases h
  | connect => exact ⟨rfl, rfl, fun _ ↦ rfl, rfl, nofun⟩
  | recv | tryRecv | recvTimeout =>
      rw [Call.start, popOr]
      split
      · exact ⟨rfl, rfl, trivial⟩
      · exact ⟨rfl, rfl, fun _ ↦ rfl, rfl, nofun⟩
  | waitNotEmpty =>
      rw [Call.start]
      dsimp only
      split
      · exact ⟨rfl, rfl, fun _ ↦ rfl, rfl, nofun⟩
      · exact ⟨rfl, rfl, trivial⟩

/-- Beginning a call leaves the buffer alone. -/
theorem buffered_start (c : UnixCan) (call : Call) : (call.start c).1.buffered = c.buffered := by
  cases hr : call.request with
  | some r => exact (start_of_request c hr).2.1
  | none => exact (start_of_no_request c hr).2.1

/-! ## The requests of a client -/

/-- The requests of calls that have returned. -/
def requestsIn (log : List (Call × Ret)) : List Request := (log.map Prod.fst).filterMap Call.request

namespace Client

variable (c : Client)

/-- The requests of the calls that have returned. -/
def finished : List Request := (c.log.map Prod.fst).filterMap Call.request

/-- The requests, that of the call going on included. -/
def requests : List Request := c.finished ++ (c.task.bind fun t ↦ t.1.request).toList

/-- What the call going on has still to write. -/
def rest : Bytes := (c.task.map fun t ↦ t.2.rest).getD []

theorem requests_of_task {c : Client} {call : Call} {pc : Pc} (h : c.task = some (call, pc)) :
    c.requests = c.finished ++ call.request.toList := by
  rw [requests, h]
  rfl

theorem requests_of_idle {c : Client} (h : c.task = none) : c.requests = c.finished := by
  rw [requests, h]
  exact List.append_nil _

/-- Where a call goes does not change its request. -/
theorem requests_go (call : Call) (next : Next) :
    (c.go call next).requests = c.finished ++ call.request.toList := by
  cases next with
  | goto pc => rfl
  | ret r =>
      simp only [requests, finished, go, List.map_append, List.filterMap_append, List.map_cons,
        List.map_nil, List.filterMap_cons, List.filterMap_nil]
      cases call.request with
      | none | some => simp

theorem rest_go (call : Call) (next : Next) : (c.go call next).rest = next.rest := by
  cases next with
  | goto | ret => rfl

theorem finished_congr {c₁ c : Client} (h : c₁.log = c.log) : c₁.finished = c.finished := by
  rw [finished, h, finished]

/-- A call that goes on has made its request. -/
theorem requests_goOf {c₁ c : Client} {call : Call} {pc : Pc} (htask : c.task = some (call, pc))
    (hlog : c₁.log = c.log) (next : Next) : (c₁.go call next).requests = c.requests := by
  rw [requests_go, finished_congr hlog, requests_of_task htask]

theorem prefix_goOf {c₁ c : Client} {call : Call} {pc : Pc} (htask : c.task = some (call, pc))
    (hlog : c₁.log = c.log) (next : Next) : c.requests <+: (c₁.go call next).requests :=
  requests_goOf htask hlog next ▸ List.prefix_rfl

/-- Requests are added at the end. -/
theorem Move.requests_prefix {c c' : Client} {l : Label} (h : c.Move l c') :
    c.requests <+: c'.requests := by
  cases h with
  | begin _ hidle _ =>
      rw [Client.begin, requests_go, requests_of_idle hidle]
      exact List.prefix_append ..
  | @wait call pc pc' htask _ _ _ =>
      change c.requests <+: (c.go call (.goto pc')).requests
      exact prefix_goOf htask rfl _
  | wrote htask _ =>
      refine prefix_goOf htask ?_ _
      rfl
  | @read call goal n htask _ =>
      change c.requests <+: (c.go call (.goto (.scanning goal))).requests
      exact prefix_goOf htask rfl _
  | msg htask _ =>
      unfold onMsg
      split
      · exact List.prefix_rfl
      · exact List.prefix_rfl
      · refine prefix_goOf htask ?_ _
        rfl
  | ret htask _ => exact prefix_goOf htask rfl _

/-- The sequence number and the goal are those of the last request. -/
structure Numbered : Prop where
  nextSeq_eq : c.can.nextSeq = UInt64.ofNat (c.requests.length + 1)
  goal_eq : ∀ call pc, c.task = some (call, pc) →
    pc.goal = call.goal (UInt64.ofNat c.requests.length)
  /-- A call that reads to see its filters acknowledged has looked at all messages. -/
  reading : ∀ call seq, c.task = some (call, .reading (.filtersAck seq)) →
    messagesOf c.can.buffered = []

namespace Numbered

variable {c} {call : Call} {next : Next}

theorem start (stream : Bytes) : (Client.start stream).Numbered where
  nextSeq_eq := rfl
  goal_eq := by
    rintro call pc ⟨⟩
    rfl
  reading := by
    rintro call seq ⟨⟩

/-- The call goes on, or begins. -/
theorem go (hseq : c.can.nextSeq = UInt64.ofNat ((c.finished ++ call.request.toList).length + 1))
    (hgoal : ∀ pc, next = .goto pc →
      pc.goal = call.goal (UInt64.ofNat (c.finished ++ call.request.toList).length))
    (hread : ∀ seq, next = .goto (.reading (.filtersAck seq)) → messagesOf c.can.buffered = []) :
    (c.go call next).Numbered := by
  have hrequests := c.requests_go call next
  cases next with
  | goto pc =>
      constructor
      · rw [hrequests]
        exact hseq
      · rintro call' pc' ⟨⟩
        rw [hrequests]
        exact hgoal pc rfl
      · rintro call' seq ⟨⟩
        exact hread seq rfl
  | ret r =>
      constructor
      · rw [hrequests]
        exact hseq
      · rintro call' pc' ⟨⟩
      · rintro call' seq ⟨⟩

theorem begin (h : c.Numbered) (hidle : c.task = none) : (c.begin call).Numbered := by
  have hnext : c.can.nextSeq = UInt64.ofNat (c.finished.length + 1) := by
    rw [h.nextSeq_eq, requests_of_idle hidle]
  unfold Client.begin
  cases hr : call.request with
  | some r =>
      obtain ⟨hseq, -, hstart⟩ := start_of_request c.can hr
      have hlen : (c.finished ++ call.request.toList).length = c.finished.length + 1 := by
        rw [hr]
        exact List.length_append
      refine go ?_ (fun pc hpc ↦ ?_) fun seq hpc ↦ ?_
      · change (call.start c.can).1.nextSeq = UInt64.ofNat ((c.finished ++ call.request.toList).length + 1)
        rw [hlen, ofNat_succ, hseq, hnext]
      · change pc.goal = call.goal (UInt64.ofNat (c.finished ++ call.request.toList).length)
        rw [hlen, ← hnext]
        exact (goal_of_writeMsgDeadline (hstart.symm.trans hpc)).1
      · exact absurd rfl ((goal_of_writeMsgDeadline (hstart.symm.trans hpc)).2 _)
  | none =>
      obtain ⟨hseq, -, hstart⟩ := start_of_no_request c.can hr
      have hlen : (c.finished ++ call.request.toList).length = c.finished.length := by
        rw [hr, Option.toList_none, List.append_nil]
      refine go ?_ (fun pc hpc ↦ ?_) fun seq hpc ↦ ?_
      · change (call.start c.can).1.nextSeq = UInt64.ofNat ((c.finished ++ call.request.toList).length + 1)
        rw [hlen, hseq, hnext]
      · rw [hpc] at hstart
        exact hstart.1 _
      · rw [hpc] at hstart
        exact absurd rfl (hstart.2.2 seq)

/-- The call that is going on goes on, and nothing was numbered. -/
theorem goOf {c₁ : Client} {pc : Pc} (h : c.Numbered) (htask : c.task = some (call, pc))
    (hlog : c₁.log = c.log) (hseq : c₁.can.nextSeq = c.can.nextSeq)
    (hgoal : ∀ pc', next = .goto pc' → pc'.goal = pc.goal)
    (hread : ∀ seq, next = .goto (.reading (.filtersAck seq)) → messagesOf c₁.can.buffered = []) :
    (c₁.go call next).Numbered := by
  have hfinished := finished_congr hlog
  have hrequests := requests_of_task htask
  refine go ?_ (fun pc' hpc ↦ ?_) hread
  · rw [hseq, hfinished, ← hrequests]
    exact h.nextSeq_eq
  · rw [hgoal pc' hpc, hfinished, ← hrequests]
    exact h.goal_eq call pc htask

theorem onMsg {goal : Goal} {msg : DecodedMsg} {can : UnixCan} (h : c.Numbered)
    (htask : c.task = some (call, .scanning goal)) (htakes : c.can.Takes msg can) :
    (c.onMsg call goal msg can).Numbered := by
  have hsame : ∀ can' : UnixCan, can'.nextSeq = c.can.nextSeq → { c with can := can' }.Numbered := by
    intro can' hseq
    constructor
    · exact hseq.trans h.nextSeq_eq
    · exact h.goal_eq
    · intro call' seq hreading
      rw [htask] at hreading
      cases hreading
  unfold Client.onMsg
  split
  · exact hsame _ htakes.nextSeq_eq
  · exact hsame _ htakes.nextSeq_eq
  · exact h.goOf htask rfl htakes.nextSeq_eq (fun _ hpc ↦ by cases hpc) fun _ hpc ↦ by cases hpc

theorem move {l : Label} {c' : Client} (h : c.Numbered) (hmove : c.Move l c') : c'.Numbered := by
  cases hmove with
  | begin _ hidle _ => exact h.begin hidle
  | @wait call pc pc' htask hgoal _ hread =>
      change (c.go call (.goto pc')).Numbered
      refine h.goOf htask rfl rfl (fun pc'' hpc ↦ ?_) fun seq hpc ↦ ?_
      · obtain rfl := Next.goto.inj hpc
        exact hgoal
      · exact hread _ (Next.goto.inj hpc)
  | wrote htask _ =>
      refine h.goOf htask rfl rfl (fun pc' hpc ↦ ?_) fun seq hpc ↦ ?_
      · exact (goal_of_writeNext hpc).1
      · exact absurd rfl ((goal_of_writeNext hpc).2 _)
  | @read call goal n htask _ =>
      change (Client.go { c with can := c.can.extend (c.unread.take n), unread := c.unread.drop n } call
        (.goto (.scanning goal))).Numbered
      refine h.goOf htask rfl rfl (fun pc' hpc ↦ ?_) fun seq hpc ↦ by cases hpc
      obtain rfl := Next.goto.inj hpc
      rfl
  | msg htask htakes => exact h.onMsg htask htakes
  | ret htask _ => exact h.goOf htask rfl rfl (fun _ hpc ↦ by cases hpc) fun _ hpc ↦ by cases hpc

end Numbered

/-! ## What is written -/

/-- The socket of a client where streams are lossless and all writes complete: no message is
refused for its length, and no deadline ends a write.  The stream of the server ends only
where the server has `closed` it. -/
def lossless (closed : Bool) : Label → Bool
  | .call call => call.request.all Request.fits
  | .wrote n => n ≠ 0
  | .writeFailed kind => kind = .wouldBlock || kind = .interrupted
  | .scan => true
  | .read n => n ≠ 0 || closed
  | .readFailed kind => kind = .wouldBlock
  | .ready => true
  | .timeout => c.rest.isEmpty
  | .pollFailed kind => kind = .interrupted

/-- What was written, and what is still to be written, are the requests. -/
def Written : Prop := c.written ++ c.rest = bytesOf c.requests

variable {c} {c' : Client} {call : Call} {closed : Bool} {l : Label}

theorem Ends.rest_eq {pc : Pc} {r : Ret} (h : c.Ends pc l r) (htask : c.task = some (call, pc))
    (hl : c.lossless closed l = true) : pc.rest = [] := by
  cases h with
  | writeZero => cases hl
  | @writeFailed _ _ _ kind hblock hint =>
      rcases Bool.or_eq_true_iff.mp hl with h | h
      · exact absurd (of_decide_eq_true h) hblock
      · exact absurd (of_decide_eq_true h) hint
  | timeout _ =>
      have hrest : c.rest = pc.rest := by
        rw [rest, htask]
        rfl
      rw [← hrest]
      exact List.isEmpty_iff.mp hl
  | pollFailed hint => exact absurd (of_decide_eq_true hl) hint
  | malformed | noFrame | eof | readFailed | notEmpty => rfl

namespace Written

theorem start (stream : Bytes) : (Client.start stream).Written := rfl

theorem begin (h : c.Written) (hn : c.Numbered) (hidle : c.task = none)
    (hfits : call.request.all Request.fits = true) : (c.begin call).Written := by
  have hrequests := requests_of_idle hidle
  have hwritten : c.written = bytesOf c.finished := by
    rw [← hrequests, ← h, rest, hidle]
    exact (List.append_nil _).symm
  unfold Written Client.begin
  rw [rest_go, requests_go]
  change _ ++ _ = bytesOf (c.finished ++ call.request.toList)
  cases hr : call.request with
  | some r =>
      obtain ⟨-, -, hstart⟩ := start_of_request c.can hr
      have hlen : (r.payload c.can.nextSeq).length ≤ 0xFFFFFFFF := by
        rw [hr] at hfits
        rw [r.length_payload c.can.nextSeq 0]
        exact of_decide_eq_true hfits
      rw [hstart, writeMsgDeadline_eq _ _ hlen, rest_writeNext, Option.toList_some, bytesOf_snoc,
        ← hrequests, ← hn.nextSeq_eq, hrequests, ← hwritten, List.flatten_cons, List.flatten_singleton]
      rfl
  | none =>
      obtain ⟨-, -, hstart⟩ := start_of_no_request c.can hr
      rw [Option.toList_none, List.append_nil, ← hwritten]
      cases hnext : (call.start c.can).2 with
      | goto pc =>
          rw [hnext] at hstart
          rw [Next.rest, hstart.2.1]
          exact List.append_nil _
      | ret => exact List.append_nil _

/-- The call that is going on goes on. -/
theorem goOf {c₁ : Client} {pc : Pc} {next : Next} (h : c.Written) (htask : c.task = some (call, pc))
    (hlog : c₁.log = c.log) (hbytes : c₁.written ++ next.rest = c.written ++ pc.rest) :
    (c₁.go call next).Written := by
  have hrest : c.rest = pc.rest := by
    rw [rest, htask]
    rfl
  have hwritten : (c₁.go call next).written = c₁.written := by
    cases next with
    | goto | ret => rfl
  unfold Written
  rw [rest_go, requests_goOf htask hlog, hwritten, hbytes, ← hrest]
  exact h

theorem move (h : c.Written) (hn : c.Numbered) (hl : c.lossless closed l = true) (hmove : c.Move l c') :
    c'.Written := by
  cases hmove with
  | begin hcall hidle _ =>
      subst hcall
      exact h.begin hn hidle hl
  | @wait call pc pc' htask _ hrest _ =>
      change (c.go call (.goto pc')).Written
      exact h.goOf htask rfl (congrArg (c.written ++ ·) hrest)
  | @wrote call bytes later goal n htask _ =>
      refine h.goOf htask rfl ?_
      rw [rest_writeNext, List.flatten_cons, Pc.rest, List.append_assoc, ← List.append_assoc (bytes.take n),
        List.take_append_drop]
  | @read call goal n htask _ =>
      change (Client.go { c with can := c.can.extend (c.unread.take n), unread := c.unread.drop n } call
        (.goto (.scanning goal))).Written
      exact h.goOf htask rfl rfl
  | msg htask htakes =>
      unfold Client.onMsg
      split
      · exact h
      · exact h
      · exact h.goOf htask rfl rfl
  | @ret call pc r htask hends =>
      refine h.goOf htask rfl ?_
      rw [hends.rest_eq htask hl]
      rfl

end Written

end Client

end Thincan.UnixSocket

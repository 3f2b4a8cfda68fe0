import Thincan.Bus.Mailbox

/-!
# A mailbox is a bounded list

`BoundedList` says what a mailbox is for: a list of entries with room for `depth` of them, to
which `push` appends, and from which a pop takes the first entry of a source that a predicate
accepts.  `mailbox_refines` is the refinement: whatever operations a `TypeMailbox` has seen, it did
not panic, and all of them were those of the bounded list of its first `used` slots.

A predicate is an `FnMut`, so its answer depends on what it was asked before.  `recorded` is such
a predicate that keeps what it was asked, and `popMatchingWhere_recorded` says that every
predicate, whatever its state, is one.
-/

namespace Thincan.Bus

open Process

variable {depth maxBody : Nat} {π : Type} {answer : List Bytes → Bytes → Bool} {source : UInt8}

/-! ## Bounded lists -/

/-- An operation on a mailbox.  The answer of a predicate comes from the bodies it was asked about
and the one it is asked about now. -/
inductive Op where
  | push (source : UInt8) (body : Bytes)
  | pop (source : UInt8) (answer : List Bytes → Bytes → Bool)

/-- The result of an operation; for a pop with what the predicate was asked about. -/
inductive Result where
  | pushed (r : Except IngestError Unit)
  | popped (out : Option Entry) (asked : List Bytes)

/-- The operation had no effect. -/
def Result.failed : Result → Prop
  | .pushed r => r ≠ .ok ()
  | .popped out _ => out = none

/-- The bodies of a source. -/
def bodiesOf (source : UInt8) (es : List Entry) : List Bytes :=
  (es.filter (·.source = source)).map Entry.body

/-- The predicate, asked about `asked` so far, refuses all entries of the source. -/
def Refuses (source : UInt8) (answer : List Bytes → Bytes → Bool) (asked : List Bytes)
    (es : List Entry) : Prop :=
  ∀ before e behind, es = before ++ e :: behind → e.source = source →
    answer (asked ++ bodiesOf source before) e.body = false

/-- The operations of a bounded list. -/
inductive BoundedList (depth maxBody : Nat) : List Entry → Op → Result → List Entry → Prop where
  | tooLarge {es : List Entry} {source : UInt8} {body : Bytes} (hbody : maxBody < body.length) :
      BoundedList depth maxBody es (.push source body)
        (.pushed (.error (.bodyTooLarge body.length maxBody))) es
  | full {es : List Entry} {source : UInt8} {body : Bytes} (hbody : body.length ≤ maxBody)
      (hfull : es.length = depth) :
      BoundedList depth maxBody es (.push source body) (.pushed (.error .mailboxFull)) es
  | append {es : List Entry} {source : UInt8} {body : Bytes} (hbody : body.length ≤ maxBody)
      (hroom : es.length < depth) :
      BoundedList depth maxBody es (.push source body) (.pushed (.ok ())) (es ++ [⟨source, body⟩])
  | take {before behind : List Entry} {e : Entry} {answer : List Bytes → Bytes → Bool}
      (hbefore : Refuses e.source answer [] before)
      (haccepts : answer (bodiesOf e.source before) e.body = true) :
      BoundedList depth maxBody (before ++ e :: behind) (.pop e.source answer)
        (.popped (some e) (bodiesOf e.source before ++ [e.body])) (before ++ behind)
  | nothing {es : List Entry} {source : UInt8} {answer : List Bytes → Bytes → Bool}
      (hall : Refuses source answer [] es) :
      BoundedList depth maxBody es (.pop source answer) (.popped none (bodiesOf source es)) es

/-! ## Predicates -/

/-- A predicate that keeps what it was asked about. -/
def recorded (answer : List Bytes → Bytes → Bool) (asked : List Bytes) (body : Bytes) :
    Bool × List Bytes :=
  (answer asked body, asked ++ [body])

/-- The answers of a predicate with a state. -/
def answersOf (ask : π → Bytes → Bool × π) (p : π) (asked : List Bytes) (body : Bytes) : Bool :=
  (ask (after ask p asked) body).1

theorem bodiesOf_cons_pos {e : Entry} (es : List Entry) (h : e.source = source) :
    bodiesOf source (e :: es) = e.body :: bodiesOf source es := by
  have hpos : decide (e.source = source) = true := decide_eq_true h
  rw [bodiesOf, List.filter_cons_of_pos (by exact hpos), List.map_cons, bodiesOf]

theorem bodiesOf_cons_neg {e : Entry} (es : List Entry) (h : e.source ≠ source) :
    bodiesOf source (e :: es) = bodiesOf source es := by
  rw [bodiesOf, List.filter_cons_of_neg (by rw [decide_eq_true_iff]; exact h), bodiesOf]

theorem refuses_nil {asked : List Bytes} : Refuses source answer asked [] := by
  intro before e behind h
  exact absurd h.symm (List.append_ne_nil_of_right_ne_nil before (List.cons_ne_nil e behind))

/-- The predicate refuses the first entry, and then the others. -/
theorem Refuses.cons {e : Entry} {es : List Entry} {asked asked' : List Bytes}
    (h : Refuses source answer asked' es) (he : e.source = source → answer asked e.body = false)
    (hasked : ∀ before, asked ++ bodiesOf source (e :: before) = asked' ++ bodiesOf source before) :
    Refuses source answer asked (e :: es) := by
  intro before e' behind heq hsource
  cases before with
  | nil =>
      obtain ⟨rfl, -⟩ := List.cons.inj heq
      rw [bodiesOf, List.filter_nil, List.map_nil, List.append_nil]
      exact he hsource
  | cons b before =>
      obtain ⟨rfl, rfl⟩ := List.cons.inj heq
      rw [hasked]
      exact h before e' behind rfl hsource

/-- What the search with a record comes to: it finds nothing, and has asked about all entries of
the source, or it finds the first entry that is accepted, and has asked up to it. -/
def Searches (source : UInt8) (answer : List Bytes → Bytes → Bool) (es : List Entry)
    (asked : List Bytes) (found : Option Nat × List Bytes) : Prop :=
  (found = (none, asked ++ bodiesOf source es) ∧ Refuses source answer asked es) ∨
    ∃ before e behind, es = before ++ e :: behind ∧ e.source = source ∧
      Refuses source answer asked before ∧ answer (asked ++ bodiesOf source before) e.body = true ∧
      found = (some before.length, asked ++ bodiesOf source before ++ [e.body])

/-- The first entry is passed over. -/
theorem Searches.cons {e : Entry} {es : List Entry} {asked asked' : List Bytes}
    {found : Option Nat × List Bytes} (h : Searches source answer es asked' found)
    (he : e.source = source → answer asked e.body = false)
    (hasked : ∀ before, asked ++ bodiesOf source (e :: before) = asked' ++ bodiesOf source before) :
    Searches source answer (e :: es) asked (found.1.map (· + 1), found.2) := by
  rcases h with ⟨rfl, hall⟩ | ⟨before, e', behind, rfl, he', hbefore, hyes, rfl⟩
  · refine .inl ⟨?_, hall.cons he hasked⟩
    rw [hasked, Option.map_none]
  · refine .inr ⟨e :: before, e', behind, rfl, he', hbefore.cons he hasked, ?_, ?_⟩
    · rw [hasked]
      exact hyes
    · rw [hasked, Option.map_some, List.length_cons]

theorem searches_recorded (source : UInt8) (answer : List Bytes → Bytes → Bool) (es : List Entry)
    (asked : List Bytes) :
    Searches source answer es asked
      (search (TypeMailbox.askFrom (recorded answer) source) es asked) := by
  induction es generalizing asked with
  | nil => exact .inl ⟨congrArg (Prod.mk none) (List.append_nil asked).symm, refuses_nil⟩
  | cons e es ih =>
      rw [search]
      by_cases hsource : e.source = source
      · have hask : TypeMailbox.askFrom (recorded answer) source asked e =
            (answer asked e.body, asked ++ [e.body]) := if_pos hsource
        rw [hask]
        cases hanswer : answer asked e.body with
        | true =>
            have hnil : asked ++ bodiesOf source [] = asked := List.append_nil asked
            refine .inr ⟨[], e, es, rfl, hsource, refuses_nil, ?_, ?_⟩
            · rw [hnil]
              exact hanswer
            · rw [hnil]
              rfl
        | false =>
            refine (ih (asked ++ [e.body])).cons (fun _ ↦ hanswer) fun before ↦ ?_
            rw [bodiesOf_cons_pos before hsource, List.append_cons]
      · have hask : TypeMailbox.askFrom (recorded answer) source asked e = (false, asked) :=
          if_neg hsource
        rw [hask]
        refine (ih asked).cons (fun heq ↦ absurd heq hsource) fun before ↦ ?_
        rw [bodiesOf_cons_neg before hsource]

/-! ## Runs -/

namespace TypeMailbox

variable {m m' : TypeMailbox depth maxBody}

/-- An operation; `none` is a panic. -/
def perform (m : TypeMailbox depth maxBody) : Op → Option (Result × TypeMailbox depth maxBody)
  | .push source body => (m.push source body).map fun r ↦ (.pushed r.1, r.2)
  | .pop source answer =>
      (m.popMatchingWhere (recorded answer) source []).map fun r ↦
        (.popped (r.1.map MailboxSlot.entry) r.2.1, r.2.2)

/-- A sequence of operations, and their results. -/
def run : TypeMailbox depth maxBody → List Op → Option (List Result × TypeMailbox depth maxBody)
  | m, [] => some ([], m)
  | m, op :: ops => do
      let (result, m) ← m.perform op
      let (results, m) ← m.run ops
      return (result :: results, m)

theorem findLoop_recorded (m : TypeMailbox depth maxBody) (ask : π → Bytes → Bool × π)
    (source : UInt8) (p : π) (n i : Nat) (asked : List Bytes) :
    m.findLoop ask source n i (after ask p asked) =
      (m.findLoop (recorded (answersOf ask p)) source n i asked).map fun r ↦
        (r.1, after ask p r.2) := by
  induction n generalizing i asked with
  | zero => rfl
  | succ n ih =>
      rw [findLoop, findLoop]
      cases m.slots[i]? with
      | none => rfl
      | some slot =>
          simp only [Option.bind_eq_bind, Option.bind_some]
          by_cases hsource : slot.source = source
          · rw [if_pos hsource, if_pos hsource]
            cases slot.bytes with
            | none => rfl
            | some body =>
                have hnext : after ask p (asked ++ [body]) = (ask (after ask p asked) body).2 :=
                  after_append
                have hask : recorded (answersOf ask p) asked body =
                    ((ask (after ask p asked) body).1, asked ++ [body]) := rfl
                simp only [Option.bind_some]
                rw [hask, ← hnext]
                by_cases hyes : (ask (after ask p asked) body).1 = true
                · rw [if_pos hyes, if_pos hyes]
                  rfl
                · rw [if_neg hyes, if_neg hyes]
                  exact ih (i + 1) (asked ++ [body])
          · rw [if_neg hsource, if_neg hsource]
            exact ih (i + 1) asked

/-- **A predicate with a state is one that answers by what it was asked.** -/
theorem popMatchingWhere_recorded (m : TypeMailbox depth maxBody) (ask : π → Bytes → Bool × π)
    (source : UInt8) (p : π) :
    m.popMatchingWhere ask source p =
      (m.popMatchingWhere (recorded (answersOf ask p)) source []).map fun r ↦
        (r.1, after ask p r.2.1, r.2.2) := by
  have hloop := m.findLoop_recorded ask source p m.used 0 []
  change m.findLoop ask source m.used 0 p = _ at hloop
  rw [popMatchingWhere, popMatchingWhere, hloop]
  cases m.findLoop (recorded (answersOf ask p)) source m.used 0 [] with
  | none => rfl
  | some found =>
      obtain ⟨found, asked⟩ := found
      cases found with
      | none => rfl
      | some idx =>
          simp only [Option.map_some, Option.bind_eq_bind, Option.bind_some]
          cases m.slots[idx]? with
          | none => rfl
          | some out =>
              simp only [Option.bind_some]
              cases shiftLoop (m.used - 1 - idx) idx m.slots with
              | none => rfl
              | some slots =>
                  simp only [Option.bind_some]
                  cases store slots (m.used - 1) MailboxSlot.empty with
                  | none => rfl
                  | some slots => rfl

/-- An operation of a mailbox is one of the bounded list of its entries. -/
structure Refines (m : TypeMailbox depth maxBody) (op : Op) (result : Result)
    (m' : TypeMailbox depth maxBody) : Prop where
  entries : BoundedList depth maxBody m.entries op result m'.entries
  unchanged : result.failed → m' = m
  length_entries : m'.entries.length = m'.used
  used_le : m'.used ≤ depth
  len_le : ∀ (i : Nat) (s : MailboxSlot maxBody), m'.slots[i]? = some s → s.len ≤ maxBody

/-- Operation after operation. -/
inductive Run : TypeMailbox depth maxBody → List Op → List Result → TypeMailbox depth maxBody → Prop where
  | nil (m : TypeMailbox depth maxBody) : Run m [] [] m
  | cons {m m' m'' : TypeMailbox depth maxBody} {op : Op} {ops : List Op} {result : Result}
      {results : List Result} (h : m.Refines op result m') (hrest : Run m' ops results m'') :
      Run m (op :: ops) (result :: results) m''

theorem Wf.refines {op : Op} {result : Result} (h : m'.Wf)
    (hlist : BoundedList depth maxBody m.entries op result m'.entries)
    (hfailed : result.failed → m' = m) : m.Refines op result m' :=
  ⟨hlist, hfailed, h.length_entries, h.used_le, h.len_le⟩

theorem perform_push_eq {source : UInt8} {body : Bytes} {r : Except IngestError Unit}
    (h : m.push source body = some (r, m')) :
    m.perform (.push source body) = some (.pushed r, m') := by
  rw [perform, h]
  rfl

theorem perform_pop_eq {out : Option (MailboxSlot maxBody)} {asked : List Bytes}
    (h : m.popMatchingWhere (recorded answer) source [] = some (out, asked, m')) :
    m.perform (.pop source answer) = some (.popped (out.map MailboxSlot.entry) asked, m') := by
  rw [perform, h]
  rfl

theorem Wf.perform_push (h : m.Wf) (source : UInt8) (body : Bytes) :
    ∃ result m', m.perform (.push source body) = some (result, m') ∧ m'.Wf ∧
      m.Refines (.push source body) result m' := by
  by_cases hbody : maxBody < body.length
  · refine ⟨_, m, perform_push_eq (push_tooLarge hbody), h, ?_⟩
    exact h.refines (.tooLarge hbody) fun _ ↦ rfl
  · rw [Nat.not_lt] at hbody
    rcases Nat.lt_or_eq_of_le h.used_le with hroom | hfull
    · obtain ⟨m', hpush, hm', hentries⟩ := h.push_ok source hbody hroom
      refine ⟨_, m', perform_push_eq hpush, hm', hm'.refines ?_ fun hfailed ↦ absurd rfl hfailed⟩
      rw [hentries]
      exact .append hbody (h.length_entries.symm ▸ hroom)
    · refine ⟨_, m, perform_push_eq (push_full hbody hfull), h, ?_⟩
      exact h.refines (.full hbody (h.length_entries.trans hfull)) fun _ ↦ rfl

theorem Wf.perform_pop (h : m.Wf) (source : UInt8) (answer : List Bytes → Bytes → Bool) :
    ∃ result m', m.perform (.pop source answer) = some (result, m') ∧ m'.Wf ∧
      m.Refines (.pop source answer) result m' := by
  rcases searches_recorded source answer m.entries [] with
    ⟨hfound, hall⟩ | ⟨before, e, behind, hentries, rfl, hbefore, hyes, hfound⟩
  · have hpop := h.pop_none (congrArg Prod.fst hfound)
    rw [hfound] at hpop
    exact ⟨_, m, perform_pop_eq hpop, h, h.refines (.nothing hall) fun _ ↦ rfl⟩
  · obtain ⟨out, m', hpop, hout, hm', hentries'⟩ := h.pop_some (congrArg Prod.fst hfound)
    have hentry : out.entry = e := by
      rw [hentries, List.getElem?_append_right (Nat.le_refl _), Nat.sub_self] at hout
      exact (Option.some.inj hout).symm
    rw [hfound] at hpop
    refine ⟨_, m', perform_pop_eq hpop, hm', ?_⟩
    rw [Option.map_some, hentry]
    refine hm'.refines ?_ nofun
    rw [hentries', hentries, List.eraseIdx_append_of_length_le (Nat.le_refl _), Nat.sub_self]
    exact .take hbefore hyes

/-- **One operation.** -/
theorem Wf.perform (h : m.Wf) (op : Op) :
    ∃ result m', m.perform op = some (result, m') ∧ m'.Wf ∧ m.Refines op result m' := by
  cases op with
  | push source body => exact h.perform_push source body
  | pop source answer => exact h.perform_pop source answer

theorem Wf.run (h : m.Wf) (ops : List Op) :
    ∃ results m', m.run ops = some (results, m') ∧ Run m ops results m' := by
  induction ops generalizing m with
  | nil => exact ⟨[], m, rfl, .nil m⟩
  | cons op ops ih =>
      obtain ⟨result, m', hop, hm', hrefines⟩ := h.perform op
      obtain ⟨results, m'', hops, hrun⟩ := ih hm'
      refine ⟨result :: results, m'', ?_, .cons hrefines hrun⟩
      rw [TypeMailbox.run, hop]
      simp only [Option.bind_eq_bind, Option.bind_some, hops]
      rfl

/-- **A mailbox refines a bounded list.**  No sequence of operations panics, and each of them is
one of the bounded list of entries; one that fails leaves the mailbox as it is. -/
theorem mailbox_refines (depth maxBody : Nat) (ops : List Op) :
    (new : TypeMailbox depth maxBody).entries = [] ∧
      ∃ results m, (new : TypeMailbox depth maxBody).run ops = some (results, m) ∧
        Run new ops results m := ⟨entries_new, Wf.new.run ops⟩

end TypeMailbox

end Thincan.Bus

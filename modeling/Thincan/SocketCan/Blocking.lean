import Thincan.Process.Machine

/-!
# Blocking in the SocketCAN adapters

The calls of `SocketCan` and `SocketCanFd` in `embedded-can-socketcan/src/linux.rs` that send and
receive.  The two have the same bodies, and differ in the frames.

A socket may block.  `try_send` and `try_recv` switch that off and on again, and `send_timeout` does
the same with the write timeout.  The flag of the adapter saves a look at the socket: where it is
set, the socket does not block, whatever the kernel refuses to do (`Session.Accounted.flag`).

Settings are restored after the frame is sent or received, and an error there is what the call
returns.  So a frame can get lost, or be sent by a call that fails; but not without a setting that
the kernel has refused, and not more often (`Session.calls_accounted`).

The socket is that of the crate `socketcan`; what is used of it is `FrameSocket`.  Nothing is said
about an adapter whose socket is changed through `as_inner_mut`.
-/

namespace Thincan.SocketCan

open Process

/-! ## The socket -/

/-- What there is to see of a socket: its settings, how often a call has waited and the kernel has
refused a setting, and the frames that were read and sent. -/
structure View (δ F : Type) where
  nonblocking : Bool := false
  writeTimeout : Option δ := none
  waits : Nat := 0
  refused : Nat := 0
  read : List F := []
  sent : List F := []
deriving DecidableEq, Repr

/-- Frames were read and sent. -/
def View.gain {δ F : Type} (v : View δ F) (fs : List F × List F) : View δ F :=
  { v with read := v.read ++ fs.1, sent := v.sent ++ fs.2 }

/-- A socket with the state `σ`: its calls, each with its result and the state after it. -/
structure FrameSocket (σ ε δ F : Type) where
  nonblocking : σ → Except ε Bool × σ
  setNonblocking (on : Bool) : σ → Except ε Unit × σ
  writeTimeout : σ → Except ε (Option δ) × σ
  setWriteTimeout (timeout : Option δ) : σ → Except ε Unit × σ
  readFrame : σ → Except ε F × σ
  readFrameTimeout (timeout : δ) : σ → Except ε F × σ
  writeFrame (frame : F) : σ → Except ε Unit × σ
  writeFrameInsist (frame : F) : σ → Except ε Unit × σ
  /-- `into_error` of an error frame. -/
  asError : F → Option ε
  view : σ → View δ F

variable {σ ε δ F α : Type}

namespace FrameSocket

variable (S : FrameSocket σ ε δ F)

/-- The call brings the frames of its result, and changes no setting. -/
def Brings (f : σ → Except ε α × σ) (frames : α → List F × List F) : Prop :=
  ∀ s, ∃ waits, S.view (f s).2 =
    { (match (f s).1 with
        | .ok a => (S.view s).gain (frames a)
        | .error _ => S.view s) with waits }

/-- The call does not wait where the socket does not block. -/
def Prompt (f : σ → Except ε α × σ) : Prop :=
  ∀ s, (S.view s).nonblocking = true → (S.view (f s).2).waits = (S.view s).waits

/-- What the crate and the kernel promise. -/
structure Lawful : Prop where
  nonblocking_view : ∀ s, S.view (S.nonblocking s).2 = S.view s
  nonblocking_eq : ∀ s b, (S.nonblocking s).1 = .ok b → b = (S.view s).nonblocking
  writeTimeout_view : ∀ s, S.view (S.writeTimeout s).2 = S.view s
  writeTimeout_eq : ∀ s t, (S.writeTimeout s).1 = .ok t → t = (S.view s).writeTimeout
  setNonblocking : ∀ on s, S.view (S.setNonblocking on s).2 =
    match (S.setNonblocking on s).1 with
    | .ok _ => { S.view s with nonblocking := on }
    | .error _ => { S.view s with refused := (S.view s).refused + 1 }
  setWriteTimeout : ∀ timeout s, S.view (S.setWriteTimeout timeout s).2 =
    match (S.setWriteTimeout timeout s).1 with
    | .ok _ => { S.view s with writeTimeout := timeout }
    | .error _ => { S.view s with refused := (S.view s).refused + 1 }
  readFrame : S.Brings S.readFrame fun frame ↦ ([frame], [])
  readFrame_prompt : S.Prompt S.readFrame
  readFrameTimeout : ∀ timeout, S.Brings (S.readFrameTimeout timeout) fun frame ↦ ([frame], [])
  writeFrame : ∀ frame, S.Brings (S.writeFrame frame) fun _ ↦ ([], [frame])
  writeFrame_prompt : ∀ frame, S.Prompt (S.writeFrame frame)
  writeFrameInsist : ∀ frame, S.Brings (S.writeFrameInsist frame) fun _ ↦ ([], [frame])

end FrameSocket

/-! ## The adapters -/

/-- `SocketCan`, and `SocketCanFd`. -/
structure Adapter (σ : Type) where
  inner : σ
  nonblocking : Bool
deriving DecidableEq, Repr

/-- A call of the traits `TxFrameIo`, `RxFrameIo` and `BlockingControl`. -/
inductive Call (δ F : Type) where
  | send (frame : F)
  | trySend (frame : F)
  | sendTimeout (frame : F) (timeout : δ)
  | recv
  | tryRecv
  | recvTimeout (timeout : δ)
  | setNonblocking (on : Bool)
deriving DecidableEq, Repr

namespace Adapter

variable (S : FrameSocket σ ε δ F)

/-- `open`, with the socket. -/
def openSocket (inner : σ) : Except ε (Adapter σ) :=
  match S.nonblocking inner with
  | (.ok nonblocking, inner) => .ok { inner, nonblocking }
  | (.error e, _) => .error e

/-- `new`. -/
def new (inner : σ) : Adapter σ :=
  match S.nonblocking inner with
  | (.ok nonblocking, inner) => { inner, nonblocking }
  | (.error _, inner) => { inner, nonblocking := false }

/-- `with_nonblocking`. -/
def withNonblocking (f : σ → Except ε α × σ) (a : Adapter σ) : Except ε α × Adapter σ :=
  if a.nonblocking then
    let (r, s) := f a.inner
    (r, { a with inner := s })
  else
    match S.nonblocking a.inner with
    | (.error e, s) => (.error e, { a with inner := s })
    | (.ok true, s) =>
        let (r, s) := f s
        (r, { inner := s, nonblocking := true })
    | (.ok false, s) =>
        match S.setNonblocking true s with
        | (.error e, s) => (.error e, { a with inner := s })
        | (.ok (), s) =>
            let (r, s) := f s
            match S.setNonblocking false s with
            | (.error e, s) => (.error e, { a with inner := s })
            | (.ok (), s) => (r, { a with inner := s })

/-- `with_write_timeout`. -/
def withWriteTimeout (timeout : δ) (f : σ → Except ε α × σ) (s : σ) : Except ε α × σ :=
  match S.writeTimeout s with
  | (.error e, s) => (.error e, s)
  | (.ok prev, s) =>
      match S.setWriteTimeout (some timeout) s with
      | (.error e, s) => (.error e, s)
      | (.ok (), s) =>
          let (r, s) := f s
          match S.setWriteTimeout prev s with
          | (.ok (), s) => (r, s)
          | (.error e, s) => (.error e, s)

/-- `map_can_frame` and `map_any_frame`. -/
def mapFrame (r : Except ε F) : Except ε (Option F) :=
  match r with
  | .error e => .error e
  | .ok frame =>
      match S.asError frame with
      | some e => .error e
      | none => .ok (some frame)

/-- `Ok(())`, as the result of any call. -/
def unit (r : Except ε Unit) : Except ε (Option F) :=
  match r with
  | .error e => .error e
  | .ok () => .ok none

/-- `set_nonblocking`. -/
def setNonblocking (on : Bool) (a : Adapter σ) : Except ε Unit × Adapter σ :=
  match S.setNonblocking on a.inner with
  | (.error e, s) => (.error e, { a with inner := s })
  | (.ok (), s) => (.ok (), { inner := s, nonblocking := on })

/-- A call. -/
def call (a : Adapter σ) : Call δ F → Except ε (Option F) × Adapter σ
  | .send frame =>
      let (r, s) := S.writeFrameInsist frame a.inner
      (unit r, { a with inner := s })
  | .trySend frame =>
      let (r, a) := withNonblocking S (S.writeFrame frame) a
      (unit r, a)
  | .sendTimeout frame timeout =>
      let (r, s) := withWriteTimeout S timeout (S.writeFrame frame) a.inner
      (unit r, { a with inner := s })
  | .recv =>
      let (r, s) := S.readFrame a.inner
      (mapFrame S r, { a with inner := s })
  | .tryRecv =>
      let (r, a) := withNonblocking S S.readFrame a
      (mapFrame S r, a)
  | .recvTimeout timeout =>
      let (r, s) := S.readFrameTimeout timeout a.inner
      (mapFrame S r, { a with inner := s })
  | .setNonblocking on =>
      let (r, a) := setNonblocking S on a
      (unit r, a)

end Adapter

/-! ## What a call does -/

/-- What a call of the socket does, with the settings changed around it: the frames of its result
are read and sent, unless it fails; when it fails for a setting that cannot be restored, they may be
too. -/
structure Carries (frames : α → List F × List F) (v v' : View δ F) (r : Except ε α) : Prop where
  refused_le : v.refused ≤ v'.refused
  moved : ∃ fs, (v'.read = v.read ++ fs.1 ∧ v'.sent = v.sent ++ fs.2) ∧
    ((∃ a, r = .ok a ∧ fs = frames a) ∨
      (∃ e, r = .error e) ∧ (fs = ([], []) ∨ (∃ a, fs = frames a) ∧ v.refused < v'.refused))
  settings : v'.refused = v.refused →
    v'.nonblocking = v.nonblocking ∧ v'.writeTimeout = v.writeTimeout

section Calls

variable {S : FrameSocket σ ε δ F} {frames : α → List F × List F} {f : σ → Except ε α × σ}
  {a : Adapter σ} {s : σ}

/-- A call that has brought nothing. -/
theorem Carries.error {v v' : View δ F} (e : ε) (hread : v'.read = v.read)
    (hsent : v'.sent = v.sent) (hrefused : v.refused ≤ v'.refused)
    (hsettings : v'.refused = v.refused →
      v'.nonblocking = v.nonblocking ∧ v'.writeTimeout = v.writeTimeout) :
    Carries frames v v' (.error e) where
  refused_le := hrefused
  moved := by
    refine ⟨([], []), ⟨?_, ?_⟩, .inr ⟨⟨e, rfl⟩, .inl rfl⟩⟩
    · rw [hread, List.append_nil]
    · rw [hsent, List.append_nil]
  settings := hsettings

/-- What a call brings, whatever its result. -/
theorem FrameSocket.Brings.moved (hf : S.Brings f frames) (s : σ) :
    (S.view (f s).2).refused = (S.view s).refused ∧
      (S.view (f s).2).nonblocking = (S.view s).nonblocking ∧
        (S.view (f s).2).writeTimeout = (S.view s).writeTimeout ∧
          ∃ fs, ((S.view (f s).2).read = (S.view s).read ++ fs.1 ∧
            (S.view (f s).2).sent = (S.view s).sent ++ fs.2) ∧
              ((∃ a, (f s).1 = .ok a ∧ fs = frames a) ∨
                (∃ e, (f s).1 = .error e) ∧ fs = ([], [])) := by
  obtain ⟨waits, hview⟩ := hf s
  rw [hview]
  cases hr : (f s).1 with
  | ok a => exact ⟨rfl, rfl, rfl, frames a, ⟨rfl, rfl⟩, .inl ⟨a, rfl, rfl⟩⟩
  | error e =>
      refine ⟨rfl, rfl, rfl, ([], []), ⟨?_, ?_⟩, .inr ⟨⟨e, rfl⟩, rfl⟩⟩
      · exact (List.append_nil _).symm
      · exact (List.append_nil _).symm

/-- A call with no setting changed. -/
theorem FrameSocket.Brings.carries (hf : S.Brings f frames) (s : σ) :
    Carries frames (S.view s) (S.view (f s).2) (f s).1 := by
  obtain ⟨hrefused, hmode, htimeout, fs, hmoved, hcase⟩ := hf.moved s
  refine ⟨Nat.le_of_eq hrefused.symm, ⟨fs, hmoved, ?_⟩, fun _ ↦ ⟨hmode, htimeout⟩⟩
  rcases hcase with hok | ⟨herr, hnil⟩
  · exact .inl hok
  · exact .inr ⟨herr, .inl hnil⟩

/-- A setting was changed before the call and restored after it. -/
theorem Carries.restored {v v₁ v₂ v' : View δ F} {r : Except ε α} (h : Carries frames v₁ v₂ r)
    (h₁ : v₁.refused = v.refused ∧ v₁.read = v.read ∧ v₁.sent = v.sent)
    (h₂ : v'.refused = v₂.refused ∧ v'.read = v₂.read ∧ v'.sent = v₂.sent)
    (hsettings : v'.nonblocking = v.nonblocking ∧ v'.writeTimeout = v.writeTimeout) :
    Carries frames v v' r := by
  obtain ⟨hrefused, hread, hsent⟩ := h₁
  obtain ⟨hrefused', hread', hsent'⟩ := h₂
  obtain ⟨fs, hmoved, hcase⟩ := h.moved
  rw [hread, hsent] at hmoved
  rw [hrefused, ← hrefused'] at hcase
  refine ⟨?_, ⟨fs, ?_, hcase⟩, fun _ ↦ hsettings⟩
  · rw [← hrefused, hrefused']
    exact h.refused_le
  · rw [hread', hsent']
    exact hmoved

/-- A setting was changed before the call and could not be restored. -/
theorem Carries.unrestored {v v₁ v₂ v' : View δ F} {r : Except ε α} (h : Carries frames v₁ v₂ r)
    (h₁ : v₁.refused = v.refused ∧ v₁.read = v.read ∧ v₁.sent = v.sent)
    (h₂ : v'.refused = v₂.refused + 1 ∧ v'.read = v₂.read ∧ v'.sent = v₂.sent) (e : ε) :
    Carries frames v v' (.error e) := by
  obtain ⟨hrefused, hread, hsent⟩ := h₁
  obtain ⟨hrefused', hread', hsent'⟩ := h₂
  obtain ⟨fs, hmoved, hcase⟩ := h.moved
  rw [hread, hsent] at hmoved
  have hle := h.refused_le
  have hlt : v.refused < v'.refused := by omega
  refine ⟨Nat.le_of_lt hlt, ⟨fs, ?_, .inr ⟨⟨e, rfl⟩, ?_⟩⟩, fun heq ↦ absurd heq (Nat.ne_of_gt hlt)⟩
  · rw [hread', hsent']
    exact hmoved
  · rcases hcase with ⟨a, -, hfs⟩ | ⟨-, hnil | ⟨hfs, -⟩⟩
    · exact .inr ⟨⟨a, hfs⟩, hlt⟩
    · exact .inl hnil
    · exact .inr ⟨hfs, hlt⟩

/-- The kernel sets what it is asked to, or refuses. -/
theorem FrameSocket.Lawful.setNonblocking_cases (hS : S.Lawful) (on : Bool) (s : σ) :
    (∃ e, (S.setNonblocking on s).1 = .error e ∧
        S.view (S.setNonblocking on s).2 = { S.view s with refused := (S.view s).refused + 1 }) ∨
      (S.setNonblocking on s).1 = .ok () ∧
        S.view (S.setNonblocking on s).2 = { S.view s with nonblocking := on } := by
  have hview := hS.setNonblocking on s
  cases hr : (S.setNonblocking on s).1 with
  | error e =>
      rw [hr] at hview
      exact .inl ⟨e, rfl, hview⟩
  | ok =>
      rw [hr] at hview
      exact .inr ⟨rfl, hview⟩

theorem FrameSocket.Lawful.setWriteTimeout_cases (hS : S.Lawful) (timeout : Option δ) (s : σ) :
    (∃ e, (S.setWriteTimeout timeout s).1 = .error e ∧
        S.view (S.setWriteTimeout timeout s).2 =
          { S.view s with refused := (S.view s).refused + 1 }) ∨
      (S.setWriteTimeout timeout s).1 = .ok () ∧
        S.view (S.setWriteTimeout timeout s).2 = { S.view s with writeTimeout := timeout } := by
  have hview := hS.setWriteTimeout timeout s
  cases hr : (S.setWriteTimeout timeout s).1 with
  | error e =>
      rw [hr] at hview
      exact .inl ⟨e, rfl, hview⟩
  | ok =>
      rw [hr] at hview
      exact .inr ⟨rfl, hview⟩

/-- **`with_write_timeout`** does not change whether the socket blocks. -/
theorem Adapter.withWriteTimeout_spec (hS : S.Lawful) (hf : S.Brings f frames) (timeout : δ)
    (s : σ) :
    Carries frames (S.view s) (S.view (withWriteTimeout S timeout f s).2)
        (withWriteTimeout S timeout f s).1 ∧
      (S.view (withWriteTimeout S timeout f s).2).nonblocking = (S.view s).nonblocking := by
  have hview := hS.writeTimeout_view s
  have hprev := hS.writeTimeout_eq s
  unfold withWriteTimeout
  generalize S.writeTimeout s = x₁ at hview hprev ⊢
  obtain ⟨r₁, s₁⟩ := x₁
  rcases r₁ with e | prev
  · refine ⟨.error e ?_ ?_ ?_ ?_, ?_⟩ <;> simp [hview]
  obtain rfl := hprev prev rfl
  dsimp only at hview ⊢
  have hset := hS.setWriteTimeout_cases (some timeout) s₁
  generalize S.setWriteTimeout (some timeout) s₁ = x₂ at hset ⊢
  obtain ⟨r₂, s₂⟩ := x₂
  rw [hview] at hset
  rcases hset with ⟨e, hr, hview₂⟩ | ⟨hr, hview₂⟩
  · obtain rfl : r₂ = .error e := hr
    refine ⟨.error e ?_ ?_ ?_ ?_, ?_⟩ <;> simp [hview₂]
  obtain rfl : r₂ = .ok () := hr
  have hcarries := hf.carries s₂
  have hmode := (hf.moved s₂).2.1
  dsimp only at hview₂ ⊢
  generalize f s₂ = x₃ at hcarries hmode ⊢
  obtain ⟨r, s₃⟩ := x₃
  have hreset := hS.setWriteTimeout_cases (S.view s).writeTimeout s₃
  dsimp only at hcarries hmode ⊢
  generalize S.setWriteTimeout (S.view s).writeTimeout s₃ = x₄ at hreset ⊢
  obtain ⟨r₄, s₄⟩ := x₄
  rcases hreset with ⟨e, hr, hview₄⟩ | ⟨hr, hview₄⟩
  · obtain rfl : r₄ = .error e := hr
    refine ⟨hcarries.unrestored (by simp [hview₂]) (by simp [hview₄]) e, ?_⟩
    simp [hview₄, hmode, hview₂]
  · obtain rfl : r₄ = .ok () := hr
    refine ⟨hcarries.restored (by simp [hview₂]) (by simp [hview₄]) ?_, ?_⟩
    · simp [hview₄, hmode, hview₂]
    · simp [hview₄, hmode, hview₂]

/-- **`with_nonblocking`** does not wait, and keeps the flag right. -/
theorem Adapter.withNonblocking_spec (hS : S.Lawful) (hf : S.Brings f frames) (hprompt : S.Prompt f)
    (hflag : a.nonblocking = true → (S.view a.inner).nonblocking = true) :
    Carries frames (S.view a.inner) (S.view (withNonblocking S f a).2.inner)
        (withNonblocking S f a).1 ∧
      (S.view (withNonblocking S f a).2.inner).waits = (S.view a.inner).waits ∧
        ((withNonblocking S f a).2.nonblocking = true →
          (S.view (withNonblocking S f a).2.inner).nonblocking = true) := by
  unfold withNonblocking
  split
  · next hcached =>
      have hmode := (hf.moved a.inner).2.1
      refine ⟨hf.carries a.inner, hprompt a.inner (hflag hcached), fun _ ↦ ?_⟩
      exact hmode.trans (hflag hcached)
  next hcached =>
  have hview := hS.nonblocking_view a.inner
  have hwas := hS.nonblocking_eq a.inner
  generalize S.nonblocking a.inner = x₁ at hview hwas ⊢
  obtain ⟨r₁, s₁⟩ := x₁
  rcases r₁ with e | was
  · refine ⟨.error e ?_ ?_ ?_ ?_, ?_, fun h ↦ absurd h hcached⟩ <;> simp [hview]
  obtain rfl := hwas was rfl
  dsimp only at hview ⊢
  cases hwas : (S.view a.inner).nonblocking with
  | true =>
      -- somebody has switched blocking off
      have hmode := (hf.moved s₁).2.1
      have hcarries := hf.carries s₁
      have hwaits := hprompt s₁
      rw [hview] at hmode hcarries hwaits
      exact ⟨hcarries, hwaits hwas, fun _ ↦ hmode.trans hwas⟩
  | false =>
      have hset := hS.setNonblocking_cases true s₁
      dsimp only
      generalize S.setNonblocking true s₁ = x₂ at hset ⊢
      obtain ⟨r₂, s₂⟩ := x₂
      rw [hview] at hset
      rcases hset with ⟨e, hr, hview₂⟩ | ⟨hr, hview₂⟩
      · obtain rfl : r₂ = .error e := hr
        refine ⟨.error e ?_ ?_ ?_ ?_, ?_, fun h ↦ absurd h hcached⟩ <;> simp [hview₂]
      obtain rfl : r₂ = .ok () := hr
      have hcarries := hf.carries s₂
      have htimeout := (hf.moved s₂).2.2.1
      have hwaits := hprompt s₂
      dsimp only at hview₂ ⊢
      generalize f s₂ = x₃ at hcarries htimeout hwaits ⊢
      obtain ⟨r, s₃⟩ := x₃
      have hreset := hS.setNonblocking_cases false s₃
      dsimp only at hcarries htimeout hwaits ⊢
      generalize S.setNonblocking false s₃ = x₄ at hreset ⊢
      obtain ⟨r₄, s₄⟩ := x₄
      have hprompt : (S.view s₃).waits = (S.view a.inner).waits :=
        (hwaits (by simp [hview₂])).trans (by simp [hview₂])
      rcases hreset with ⟨e, hr, hview₄⟩ | ⟨hr, hview₄⟩
      · obtain rfl : r₄ = .error e := hr
        refine ⟨hcarries.unrestored (by simp [hview₂]) (by simp [hview₄]) e, ?_,
          fun h ↦ absurd h hcached⟩
        simp [hview₄, hprompt]
      · obtain rfl : r₄ = .ok () := hr
        refine ⟨hcarries.restored (by simp [hview₂]) (by simp [hview₄]) ?_, ?_,
          fun h ↦ absurd h hcached⟩
        · simp [hview₄, htimeout, hview₂, hwas]
        · simp [hview₄, hprompt]

/-- **`set_nonblocking`** sets the flag with the socket. -/
theorem Adapter.setNonblocking_spec (hS : S.Lawful) (on : Bool)
    (hflag : a.nonblocking = true → (S.view a.inner).nonblocking = true) :
    (S.view (setNonblocking S on a).2.inner).read = (S.view a.inner).read ∧
      (S.view (setNonblocking S on a).2.inner).sent = (S.view a.inner).sent ∧
        (S.view a.inner).refused ≤ (S.view (setNonblocking S on a).2.inner).refused ∧
          ((∃ e, (setNonblocking S on a).1 = .error e ∧
              (S.view a.inner).refused < (S.view (setNonblocking S on a).2.inner).refused) ∨
            (setNonblocking S on a).1 = .ok () ∧
              (S.view (setNonblocking S on a).2.inner).nonblocking = on ∧
                (S.view (setNonblocking S on a).2.inner).writeTimeout =
                  (S.view a.inner).writeTimeout) ∧
            ((setNonblocking S on a).2.nonblocking = true →
              (S.view (setNonblocking S on a).2.inner).nonblocking = true) := by
  have hset := hS.setNonblocking_cases on a.inner
  unfold setNonblocking
  generalize S.setNonblocking on a.inner = x at hset ⊢
  obtain ⟨r, s⟩ := x
  rcases hset with ⟨e, hr, hview⟩ | ⟨hr, hview⟩
  · obtain rfl : r = .error e := hr
    dsimp only at hview ⊢
    rw [hview]
    exact ⟨rfl, rfl, Nat.le_succ _, .inl ⟨e, rfl, Nat.lt_succ_self _⟩, hflag⟩
  · obtain rfl : r = .ok () := hr
    dsimp only at hview ⊢
    rw [hview]
    exact ⟨rfl, rfl, Nat.le_refl _, .inr ⟨rfl, rfl, rfl⟩, id⟩

end Calls

/-! ## What becomes of the frames -/

/-- The call promises not to wait. -/
def Call.isTry : Call δ F → Bool
  | .trySend _ | .tryRecv => true
  | _ => false

/-- The frame a call returns. -/
def returned : Except ε (Option F) → List F
  | .ok (some frame) => [frame]
  | _ => []

/-- The frame a call sends. -/
def Call.frame? : Call δ F → Option F
  | .send frame | .trySend frame | .sendTimeout frame _ => some frame
  | _ => none

/-- The frame a call has reported as sent. -/
def reported (c : Call δ F) : Except ε (Option F) → List F
  | .ok _ => c.frame?.toList
  | .error _ => []

/-- What the application has last asked for, if that was `nonblocking` before the call. -/
def wanted (nonblocking : Bool) : Call δ F → Except ε (Option F) → Bool
  | .setNonblocking on, .ok _ => on
  | _, _ => nonblocking

/-- **The account of a call**, or of many: a frame that is no error frame was returned if it was
read, and reported if it was sent, up to as many as settings were refused.  If none was, the socket
has the settings that were asked for; `mode` says which, from those before. -/
structure Account (S : FrameSocket σ ε δ F) (v v' : View δ F) (got told : List F)
    (mode : Bool → Bool) : Prop where
  refused_le : v.refused ≤ v'.refused
  read : ∃ fs, v'.read = v.read ++ fs ∧
    got.Sublist (fs.filter fun frame ↦ (S.asError frame).isNone) ∧
    (fs.filter fun frame ↦ (S.asError frame).isNone).length + v.refused ≤ got.length + v'.refused
  sent : ∃ fs, v'.sent = v.sent ++ fs ∧ told.Sublist fs ∧
    fs.length + v.refused ≤ told.length + v'.refused
  settings : v'.refused = v.refused →
    v'.nonblocking = mode v.nonblocking ∧ v'.writeTimeout = v.writeTimeout

section Accounts

variable {S : FrameSocket σ ε δ F} {v v' v'' : View δ F} {got told got' told' : List F}
  {mode mode' : Bool → Bool} {frame : F}

/-- No frames. -/
theorem Account.quiet (hread : v'.read = v.read) (hsent : v'.sent = v.sent)
    (hle : v.refused ≤ v'.refused) (hsettings : v'.refused = v.refused →
      v'.nonblocking = mode v.nonblocking ∧ v'.writeTimeout = v.writeTimeout) :
    Account S v v' [] [] mode where
  refused_le := hle
  read := ⟨[], by rw [hread, List.append_nil], List.Sublist.refl _, Nat.add_le_add_left hle 0⟩
  sent := ⟨[], by rw [hsent, List.append_nil], List.Sublist.refl _, Nat.add_le_add_left hle 0⟩
  settings := hsettings

theorem Account.refl (v : View δ F) : Account S v v [] [] id :=
  .quiet rfl rfl (Nat.le_refl _) fun _ ↦ ⟨rfl, rfl⟩

/-- Accounts add up. -/
theorem Account.trans (h : Account S v v' got told mode) (h' : Account S v' v'' got' told' mode') :
    Account S v v'' (got ++ got') (told ++ told') (mode' ∘ mode) where
  refused_le := Nat.le_trans h.refused_le h'.refused_le
  read := by
    obtain ⟨fs, hread, hsub, hlen⟩ := h.read
    obtain ⟨fs', hread', hsub', hlen'⟩ := h'.read
    refine ⟨fs ++ fs', ?_, ?_, ?_⟩
    · rw [hread', hread, List.append_assoc]
    · rw [List.filter_append]
      exact hsub.append hsub'
    · rw [List.filter_append, List.length_append, List.length_append]
      omega
  sent := by
    obtain ⟨fs, hsent, hsub, hlen⟩ := h.sent
    obtain ⟨fs', hsent', hsub', hlen'⟩ := h'.sent
    refine ⟨fs ++ fs', ?_, hsub.append hsub', ?_⟩
    · rw [hsent', hsent, List.append_assoc]
    · rw [List.length_append, List.length_append]
      omega
  settings heq := by
    have hle := h.refused_le
    have hle' := h'.refused_le
    obtain ⟨hmode, htimeout⟩ := h.settings (by omega)
    obtain ⟨hmode', htimeout'⟩ := h'.settings (by omega)
    exact ⟨hmode'.trans (congrArg mode' hmode), htimeout'.trans htimeout⟩

/-- A call that sends. -/
theorem Carries.sends {r : Except ε Unit} {c : Call δ F}
    (h : Carries (fun _ ↦ ([], [frame])) v v' r) (hc : c.frame? = some frame) :
    Account S v v' (returned (F := F) (Adapter.unit r)) (reported c (Adapter.unit r)) id := by
  have hle := h.refused_le
  obtain ⟨fs, ⟨hread, hsent⟩, hcase⟩ := h.moved
  rcases hcase with ⟨_, rfl, rfl⟩ | ⟨⟨e, rfl⟩, rfl | ⟨⟨_, rfl⟩, hlt⟩⟩
  · have htold : reported c (Adapter.unit (.ok ()) : Except ε (Option F)) = [frame] := by
      rw [Adapter.unit, reported, hc, Option.toList_some]
    rw [htold]
    refine ⟨hle, ⟨[], hread, List.Sublist.refl _, ?_⟩, ⟨[frame], hsent, List.Sublist.refl _, ?_⟩,
      h.settings⟩
    · simpa [returned, Adapter.unit] using hle
    · simpa using hle
  · refine ⟨hle, ⟨[], hread, List.Sublist.refl _, ?_⟩, ⟨[], hsent, List.Sublist.refl _, ?_⟩,
      h.settings⟩
    · simpa [returned, Adapter.unit] using hle
    · simpa [reported, Adapter.unit] using hle
  · refine ⟨hle, ⟨[], hread, List.Sublist.refl _, ?_⟩, ⟨[frame], hsent, List.nil_sublist _, ?_⟩,
      h.settings⟩
    · simpa [returned, Adapter.unit] using hle
    · change 1 + v.refused ≤ 0 + v'.refused
      omega

/-- A call that receives. -/
theorem Carries.receives {r : Except ε F} (h : Carries (fun frame ↦ ([frame], [])) v v' r) :
    Account S v v' (returned (Adapter.mapFrame S r)) [] id := by
  have hle := h.refused_le
  obtain ⟨fs, ⟨hread, hsent⟩, hcase⟩ := h.moved
  have hnone : fs.2 = [] := by
    rcases hcase with ⟨_, -, rfl⟩ | ⟨-, rfl | ⟨⟨_, rfl⟩, -⟩⟩
    · rfl
    · rfl
    · rfl
  refine ⟨hle, ⟨fs.1, hread, ?_⟩, ⟨[], by rw [hsent, hnone], List.Sublist.refl _, ?_⟩, h.settings⟩
  · rcases hcase with ⟨frame, rfl, rfl⟩ | ⟨⟨e, rfl⟩, rfl | ⟨⟨frame, rfl⟩, hlt⟩⟩
    · cases herr : S.asError frame with
      | some e => simpa [returned, Adapter.mapFrame, herr] using hle
      | none => simpa [returned, Adapter.mapFrame, herr] using hle
    · simpa [returned, Adapter.mapFrame] using hle
    · refine ⟨List.nil_sublist _, ?_⟩
      have hone : ([frame].filter fun frame ↦ (S.asError frame).isNone).length ≤ 1 :=
        List.length_filter_le _ _
      change _ ≤ 0 + v'.refused
      dsimp only
      omega
  · simpa using hle

end Accounts

/-! ## Runs -/

/-- A call that has returned. -/
structure Entry (ε δ F : Type) where
  call : Call δ F
  result : Except ε (Option F)
  waited : Bool

/-- An adapter, and the calls that have returned. -/
structure Session (σ ε δ F : Type) where
  adapter : Adapter σ
  log : List (Entry ε δ F) := []

namespace Session

section Machine

variable (S : FrameSocket σ ε δ F)

/-- One call. -/
def step (x : Session σ ε δ F) (c : Call δ F) : Session σ ε δ F :=
  let y := x.adapter.call S c
  { adapter := y.2
    log := x.log ++
      [⟨c, y.1, (S.view y.2.inner).waits != (S.view x.adapter.inner).waits⟩] }

/-- The calls of an application, one after the other; the kernel is in `σ`. -/
def machine : Machine (Session σ ε δ F) (Call δ F) where
  step x c := some (x.step S c)

end Machine

/-- The frames the calls have returned. -/
def got (x : Session σ ε δ F) : List F := x.log.flatMap fun e ↦ returned e.result

/-- The frames the calls have reported as sent. -/
def told (x : Session σ ε δ F) : List F := x.log.flatMap fun e ↦ reported e.call e.result

/-- Whether the socket is to block, if the application has asked for it. -/
def mode (x : Session σ ε δ F) (nonblocking : Bool) : Bool :=
  x.log.foldl (fun b e ↦ wanted b e.call e.result) nonblocking

/-- **What holds of all calls**, on a socket that was seen as `v` at first. -/
structure Accounted (S : FrameSocket σ ε δ F) (v : View δ F) (x : Session σ ε δ F) : Prop where
  /-- Where the flag is set, the socket does not block. -/
  flag : x.adapter.nonblocking = true → (S.view x.adapter.inner).nonblocking = true
  /-- A call that promises not to wait has not. -/
  prompt : ∀ e ∈ x.log, e.call.isTry = true → e.waited = false
  account : Account S v (S.view x.adapter.inner) x.got x.told x.mode

variable {S : FrameSocket σ ε δ F} {v : View δ F} {x : Session σ ε δ F} {a : Adapter σ}

/-- **What holds of one call.** -/
theorem call_spec (hS : S.Lawful) (c : Call δ F)
    (hflag : a.nonblocking = true → (S.view a.inner).nonblocking = true) :
    Account S (S.view a.inner) (S.view (a.call S c).2.inner) (returned (a.call S c).1)
        (reported c (a.call S c).1) (fun b ↦ wanted b c (a.call S c).1) ∧
      (c.isTry = true → (S.view (a.call S c).2.inner).waits = (S.view a.inner).waits) ∧
        ((a.call S c).2.nonblocking = true → (S.view (a.call S c).2.inner).nonblocking = true) := by
  have hreported : ∀ r : Except ε (Option F), c.frame? = none → reported c r = [] := by
    intro r hc
    cases r with
    | ok => rw [reported, hc, Option.toList_none]
    | error => rfl
  cases c with
  | send frame =>
      have hf := hS.writeFrameInsist frame
      refine ⟨(hf.carries a.inner).sends rfl, nofun, fun h ↦ ?_⟩
      exact (hf.moved a.inner).2.1.trans (hflag h)
  | trySend frame =>
      obtain ⟨hcarries, hprompt, hflag'⟩ :=
        a.withNonblocking_spec hS (hS.writeFrame frame) (hS.writeFrame_prompt frame) hflag
      exact ⟨hcarries.sends rfl, fun _ ↦ hprompt, hflag'⟩
  | sendTimeout frame timeout =>
      obtain ⟨hcarries, hmode⟩ :=
        Adapter.withWriteTimeout_spec hS (hS.writeFrame frame) timeout a.inner
      exact ⟨hcarries.sends rfl, nofun, fun h ↦ hmode.trans (hflag h)⟩
  | recv =>
      have hf := hS.readFrame
      rw [hreported _ rfl]
      refine ⟨(hf.carries a.inner).receives, nofun, fun h ↦ ?_⟩
      exact (hf.moved a.inner).2.1.trans (hflag h)
  | tryRecv =>
      obtain ⟨hcarries, hprompt, hflag'⟩ :=
        a.withNonblocking_spec hS hS.readFrame hS.readFrame_prompt hflag
      rw [hreported _ rfl]
      exact ⟨hcarries.receives, fun _ ↦ hprompt, hflag'⟩
  | recvTimeout timeout =>
      have hf := hS.readFrameTimeout timeout
      rw [hreported _ rfl]
      refine ⟨(hf.carries a.inner).receives, nofun, fun h ↦ ?_⟩
      exact (hf.moved a.inner).2.1.trans (hflag h)
  | setNonblocking on =>
      obtain ⟨hread, hsent, hle, hsettings, hflag'⟩ := a.setNonblocking_spec hS on hflag
      rw [hreported _ rfl]
      refine ⟨?_, nofun, hflag'⟩
      change Account S _ (S.view (a.setNonblocking S on).2.inner)
        (returned (F := F) (Adapter.unit (a.setNonblocking S on).1)) [] fun b ↦
          wanted b (.setNonblocking (δ := δ) (F := F) on) (Adapter.unit (a.setNonblocking S on).1)
      rcases hsettings with ⟨e, hr, hlt⟩ | ⟨hr, hmode, htimeout⟩
      · rw [hr]
        exact .quiet hread hsent hle fun heq ↦ absurd heq (Nat.ne_of_gt hlt)
      · rw [hr]
        exact .quiet hread hsent hle fun _ ↦ ⟨hmode, htimeout⟩

/-- **Every call keeps the account.** -/
theorem Accounted.step (hS : S.Lawful) (hx : Accounted S v x) (c : Call δ F) :
    Accounted S v (x.step S c) := by
  obtain ⟨haccount, hprompt, hflag⟩ := call_spec hS c hx.flag
  refine ⟨hflag, fun e he htry ↦ ?_, ?_⟩
  · rcases List.mem_append.mp he with he | he
    · exact hx.prompt e he htry
    · obtain rfl := List.mem_singleton.mp he
      simpa using hprompt htry
  · have hgot : (x.step S c).got = x.got ++ returned (x.adapter.call S c).1 := by
      simp [got, Session.step]
    have htold : (x.step S c).told = x.told ++ reported c (x.adapter.call S c).1 := by
      simp [told, Session.step]
    have hmode : (x.step S c).mode = (fun b ↦ wanted b c (x.adapter.call S c).1) ∘ x.mode := by
      funext b
      simp [mode, Session.step]
    rw [hgot, htold, hmode]
    exact hx.account.trans haccount

/-- An adapter made by `new` or `open` has looked at its socket, or takes it to block. -/
theorem made_spec (hS : S.Lawful) {s : σ}
    (ha : a = Adapter.new S s ∨ Adapter.openSocket S s = .ok a) :
    S.view a.inner = S.view s ∧ (a.nonblocking = true → (S.view s).nonblocking = true) := by
  have hview := hS.nonblocking_view s
  have hwas := hS.nonblocking_eq s
  unfold Adapter.new Adapter.openSocket at ha
  generalize S.nonblocking s = y at hview hwas ha
  obtain ⟨r, s₁⟩ := y
  cases r with
  | error e =>
      obtain rfl : a = { inner := s₁, nonblocking := false } := ha.resolve_right nofun
      exact ⟨hview, nofun⟩
  | ok b =>
      obtain rfl : a = { inner := s₁, nonblocking := b } := ha.elim id fun h ↦ (Except.ok.inj h).symm
      exact ⟨hview, fun hb ↦ (hwas b rfl).symm.trans hb⟩

/-- **All calls of an application are accounted for.**  For every socket, every sequence of calls on
an adapter made by `new` or `open`, and whatever fails: the flag is set only where the socket does
not block; `try_send` and `try_recv` never wait; frames are returned and reported in order, and no
more are missing than settings were refused; where none was refused, the socket has its old write
timeout and blocks as was asked for. -/
theorem calls_accounted (S : FrameSocket σ ε δ F) (hS : S.Lawful) (s : σ) (a : Adapter σ)
    (ha : a = Adapter.new S s ∨ Adapter.openSocket S s = .ok a) (cs : List (Call δ F))
    (x : Session σ ε δ F) (h : (machine S).exec { adapter := a } cs = some x) :
    Accounted S (S.view s) x := by
  obtain ⟨hview, hflag⟩ := made_spec hS ha
  have hinit : Accounted S (S.view s) { adapter := a } := by
    refine ⟨fun hb ↦ ?_, nofun, ?_⟩
    · rw [hview]
      exact hflag hb
    · rw [hview]
      exact .refl _
  refine Machine.Reachable.invariant ⟨cs, h⟩ hinit fun y c y' hi hs ↦ ?_
  obtain rfl : y.step S c = y' := Option.some.inj hs
  exact hi.step hS c

/-- A socket with frames to read, and which of the settings the kernel is going to refuse. -/
structure Kernel where
  view : View Nat Nat := {}
  inbox : List Nat
  refusals : List Bool
deriving DecidableEq, Repr

namespace Kernel

/-- A setting is changed, if the kernel does not refuse. -/
def set (f : View Nat Nat → View Nat Nat) (k : Kernel) : Except Unit Unit × Kernel :=
  if k.refusals.head? = some true then
    (.error (), { k with
      view := { k.view with refused := k.view.refused + 1 }, refusals := k.refusals.tail })
  else
    (.ok (), { k with view := f k.view, refusals := k.refusals.tail })

/-- The next frame. -/
def read (k : Kernel) : Except Unit Nat × Kernel :=
  match k.inbox with
  | frame :: inbox => (.ok frame, { k with view := k.view.gain ([frame], []), inbox })
  | [] =>
      let waits := if k.view.nonblocking then k.view.waits else k.view.waits + 1
      (.error (), { k with view := { k.view with waits } })

def write (frame : Nat) (k : Kernel) : Except Unit Unit × Kernel :=
  (.ok (), { k with view := k.view.gain ([], [frame]) })

/-- The calls of the socket; there are no error frames. -/
def socket : FrameSocket Kernel Unit Nat Nat where
  nonblocking k := (.ok k.view.nonblocking, k)
  setNonblocking on := set fun v ↦ { v with nonblocking := on }
  writeTimeout k := (.ok k.view.writeTimeout, k)
  setWriteTimeout timeout := set fun v ↦ { v with writeTimeout := timeout }
  readFrame := read
  readFrameTimeout _ := read
  writeFrame := write
  writeFrameInsist := write
  asError _ := none
  view := view

theorem read_brings : socket.Brings read fun frame ↦ ([frame], []) := by
  intro k
  cases hin : k.inbox with
  | cons frame inbox => exact ⟨k.view.waits, by simp [socket, read, hin]; rfl⟩
  | nil =>
      exact ⟨if k.view.nonblocking then k.view.waits else k.view.waits + 1,
        by simp only [socket, read, hin]⟩

theorem read_prompt : socket.Prompt read := by
  intro k hmode
  cases hin : k.inbox with
  | cons frame inbox => simp [socket, read, hin, View.gain]
  | nil =>
      have hmode : k.view.nonblocking = true := hmode
      simp [socket, read, hin, hmode]

theorem write_brings (frame : Nat) : socket.Brings (write frame) fun _ ↦ ([], [frame]) :=
  fun k ↦ ⟨k.view.waits, rfl⟩

theorem socket_lawful : socket.Lawful where
  nonblocking_view _ := rfl
  nonblocking_eq _ _ h := (Except.ok.inj h).symm
  writeTimeout_view _ := rfl
  writeTimeout_eq _ _ h := (Except.ok.inj h).symm
  setNonblocking _ k := by
    simp only [socket, set]
    split
    · rfl
    · rfl
  setWriteTimeout _ k := by
    simp only [socket, set]
    split
    · rfl
    · rfl
  readFrame := read_brings
  readFrame_prompt := read_prompt
  readFrameTimeout _ := read_brings
  writeFrame := write_brings
  writeFrame_prompt _ _ _ := rfl
  writeFrameInsist := write_brings

end Kernel

/-- The kernel refuses the fourth setting, after the first frame was received: it is lost, and the
socket does not block any more. -/
theorem calls_accounted_lostOne :
    ∃ x, (machine Kernel.socket).exec
        { adapter := Adapter.new Kernel.socket
            { inbox := [7, 8], refusals := [false, false, false, true] } }
        [.trySend 5, .tryRecv, .tryRecv, .recv] = some x ∧
      x.got = [8] ∧ x.told = [5] ∧ x.adapter.inner.view.read = [7, 8] ∧
        x.adapter.inner.view.refused = 1 ∧ x.adapter.nonblocking = true ∧
          Accounted Kernel.socket {} x :=
  ⟨_, rfl, rfl, rfl, rfl, rfl, rfl,
    calls_accounted Kernel.socket Kernel.socket_lawful
      { inbox := [7, 8], refusals := [false, false, false, true] } _ (.inl rfl)
      [.trySend 5, .tryRecv, .tryRecv, .recv] _ rfl⟩

end Session

end Thincan.SocketCan

import RedisStreamClient.Lib.Schedule
import RedisStreamClient.Notifs.Broker

/-!
# Shutting the broker down

A broker by itself, with any number of goroutines that `Send` on it and one that calls
`Close`, in every interleaving.  `Phase` is how far each of them is; `Sound` is what holds
in every run.

The output channel is safe: only `run` sends on it, and `Close` closes it after `run` is
over (`output_open`).  The input channel is not: `run` closes it once it has drained it,
without knowing of the senders that have passed the `closed` flag and not yet come to
their select (`send_panics`).  It is safe in the runs in which there are none at that
moment (`sends_safe`).
-/

namespace RedisStreamClient.Notifs.Broker

open RedisStreamClient.Lib

/-! ## The machine -/

/-- A broker with the contexts that its senders pass. -/
structure World where
  /-- The broker. -/
  broker : Broker
  /-- The contexts that are done. -/
  done : Nat → Bool

/-- One process with a broker.  The environment cancels contexts. -/
@[reducible] def machine : Machine sig where
  Owner := Unit
  State := World
  Choice := Case
  Env := Nat
  Call := Call
  Res := Res
  body _ := body
  exec _ o case w := (w.broker.exec w.done o case).map fun p ↦ (p.1, { w with broker := p.2 }, none)
  env c w := some { w with done := Function.update w.done c true }
  crash _ w := w

/-- After `NewNotificationBroker`. -/
def started (bufferSize : Nat) : Pool machine :=
  ⟨⟨.new bufferSize, fun _ ↦ false⟩, [Pool.fresh () .run]⟩

/-! ## How far the goroutines are -/

/-- How far a goroutine is. -/
inductive Phase
  | /-- `Send` was called. -/
    sending
  | /-- `Send` found `closed` unset and comes to its select. -/
    entering
  | /-- `Send` is over. -/
    sent
  | /-- `run` is at its select. -/
    running
  | /-- `run` is at the select of its drain loop. -/
    draining
  | /-- `run` received a notification, in its drain loop or before. -/
    forwarding (drain : Bool)
  | /-- `run` found the input channel empty. -/
    drained
  | /-- `run` closed the input channel. -/
    leaving
  | /-- `run` is over. -/
    finished
  | /-- `Close` was called. -/
    closing
  | /-- `Close` set `closed`. -/
    swapped
  | /-- `Close` waits for `run`. -/
    waiting
  | /-- `Close` has waited for `run`. -/
    waited
  | /-- `Close` is over. -/
    closed
deriving DecidableEq

namespace Phase

/-- The operation that comes next. -/
def Ok : Phase → Op → Prop
  | .sending, .load => True
  | .entering, .select _ _ => True
  | .running, .runSelect => True
  | .draining, .drainSelect => True
  | .forwarding _, .output _ => True
  | .drained, .closeInput => True
  | .leaving, .wgDone => True
  | .closing, .compareAndSwap => True
  | .swapped, .closeQuit => True
  | .waiting, .wgWait => True
  | .waited, .closeOutput => True
  | _, _ => False

/-- The phase after an operation. -/
def next (p : Phase) : (o : Op) → o.Reply → Phase
  | .load, true => .sent
  | .load, false => .entering
  | .select _ _, _ => .sent
  | .runSelect, .quit => .draining
  | .runSelect, .recv (some _) => .forwarding false
  | .runSelect, .recv none => .running
  | .drainSelect, .recv (some _) => .forwarding true
  | .drainSelect, .recv none => .draining
  | .drainSelect, .default => .drained
  | .output _, _ => if p = .forwarding true then .draining else .running
  | .closeInput, _ => .leaving
  | .wgDone, _ => .finished
  | .compareAndSwap, true => .swapped
  | .compareAndSwap, false => .waiting
  | .closeQuit, _ => .waiting
  | .wgWait, _ => .waited
  | .closeOutput, _ => .closed

/-- The phase of a goroutine that was just started. -/
def start : Call → Phase
  | .send _ _ => .sending
  | .run => .running
  | .drain => .draining
  | .close => .closing

/-- The phases in which a goroutine may return, or go round its loop. -/
def Exit (p : Phase) : Res ⊕ Call → Prop
  | .inl _ => p = .sent ∨ p = .finished ∨ p = .closed
  | .inr .run => p = .running
  | .inr .drain => p = .draining
  | .inr _ => False

end Phase

/-- Phases as a monitor. -/
def monitor : Monitor sig Unit where
  State := Phase
  Ok _ := Phase.Ok
  next _ := Phase.next

/-- Every method keeps to its phases. -/
theorem body_obeys (f : Call) :
    (body f).Obeys monitor () Phase.Exit (Phase.start f) := by
  cases f with
  | send ctx m =>
    refine ⟨trivial, ?_⟩
    rintro (_ | _)
    · refine ⟨trivial, ?_⟩
      rintro (_ | _ | _) <;> exact .inl rfl
    · exact .inl rfl
  | run =>
    refine ⟨trivial, ?_⟩
    rintro (_ | _ | m)
    · exact rfl
    · exact rfl
    · exact ⟨trivial, fun _ ↦ rfl⟩
  | drain =>
    refine ⟨trivial, ?_⟩
    rintro ((_ | m) | _)
    · exact rfl
    · exact ⟨trivial, fun _ ↦ rfl⟩
    · exact ⟨trivial, fun _ ↦ ⟨trivial, fun _ ↦ .inr (.inl rfl)⟩⟩
  | close =>
    have hfinish : close.finish.Obeys monitor () Phase.Exit .waiting :=
      ⟨trivial, fun _ ↦ ⟨trivial, fun _ ↦ .inr (.inr rfl)⟩⟩
    refine ⟨trivial, ?_⟩
    rintro (_ | _)
    · exact hfinish
    · exact ⟨trivial, fun _ ↦ hfinish⟩

/-- The contract of the broker's goroutines. -/
def contract : Contract machine where
  toMonitor := monitor
  init _ := Phase.start
  Exit _ := Phase.Exit
  body_obeys _ := body_obeys
  again_obeys := by
    rintro _ q f hq
    cases f with
    | run =>
      obtain rfl : q = .running := hq
      exact body_obeys .run
    | drain =>
      obtain rfl : q = .draining := hq
      exact body_obeys .drain
    | send ctx m => exact hq.elim
    | close => exact hq.elim

/-! ## Flags -/

/-- What is closed, set or over. -/
structure Flags where
  /-- `input` is closed. -/
  inputClosed : Bool
  /-- `output` is closed. -/
  outputClosed : Bool
  /-- `quit` is closed. -/
  quitClosed : Bool
  /-- `closed` is set. -/
  closed : Bool
  /-- `wg.Done` was called. -/
  runDone : Bool

/-- The flags of a broker. -/
def flags (b : Broker) : Flags :=
  ⟨b.inputClosed, b.outputClosed, b.quitClosed, b.closed, b.runDone⟩

/-- The flag that an operation sets. -/
def Op.mark : Op → Flags → Flags
  | .closeInput, f => { f with inputClosed := true }
  | .closeOutput, f => { f with outputClosed := true }
  | .closeQuit, f => { f with quitClosed := true }
  | .compareAndSwap, f => { f with closed := true }
  | .wgDone, f => { f with runDone := true }
  | _, f => f

/-- What a goroutine relies on. -/
def Phase.Knows (f : Flags) : Phase → Prop
  | .running => f.inputClosed = false
  | .draining | .drained => f.quitClosed = true ∧ f.inputClosed = false
  | .forwarding drain => (drain = true → f.quitClosed = true) ∧ f.inputClosed = false
  | .leaving => f.inputClosed = true ∧ f.runDone = false
  | .swapped => f.closed = true ∧ f.quitClosed = false
  | .waiting => f.outputClosed = false
  | .waited => f.runDone = true ∧ f.outputClosed = false
  | .closing => f.outputClosed = false
  | _ => True

/-- The order in which the flags are set. -/
structure Flags.Ordered (f : Flags) : Prop where
  /-- `quit` is closed by whoever sets `closed`. -/
  closed_of_quit : f.quitClosed = true → f.closed = true
  /-- `input` is closed after `quit`. -/
  quit_of_input : f.inputClosed = true → f.quitClosed = true
  /-- `run` is over after `input` was closed. -/
  input_of_done : f.runDone = true → f.inputClosed = true
  /-- `output` is closed after `run` is over. -/
  done_of_output : f.outputClosed = true → f.runDone = true

/-- Before the input channel is closed, the output channel is open. -/
theorem Flags.Ordered.output_open {f : Flags} (h : f.Ordered) (hi : f.inputClosed = false) :
    f.outputClosed = false := by
  cases ho : f.outputClosed with
  | false => rfl
  | true => simp [h.input_of_done (h.done_of_output ho)] at hi

/-- Before `closed` is set, the quit channel is open. -/
theorem Flags.Ordered.quit_open {f : Flags} (h : f.Ordered) (hc : f.closed = false) :
    f.quitClosed = false := by
  cases hq : f.quitClosed with
  | false => rfl
  | true => simp [h.closed_of_quit hq] at hc

section Operations

variable {b b' : Broker} {done : Nat → Bool} {o : Op} {case : Case} {r : o.Reply} {p q : Phase}
  {f : Flags}

/-- An operation runs only if nothing panicked. -/
theorem exec_eq_some : b.exec done o case = some (r, b') ↔
    b.panicked = false ∧ step done o case b = some (r, b') := by
  unfold exec
  cases b.panicked <;> simp

/-- What the reply to an operation says about the flags. -/
def Tells (f : Flags) : (o : Op) → o.Reply → Prop
  | .load, closed => closed = f.closed
  | .compareAndSwap, swapped => swapped = !f.closed
  | .runSelect, .quit => f.quitClosed = true
  | .wgWait, _ => f.runDone = true
  | _, _ => True

/-- An operation comes when it should: in the phase for it, with what that phase relies
on. -/
structure Timely (b : Broker) (p : Phase) (o : Op) : Prop where
  /-- The phase is the one for the operation. -/
  ok : p.Ok o
  /-- Its goroutine relies on it rightly. -/
  knows : p.Knows b.flags
  /-- The flags were set in order. -/
  ordered : b.flags.Ordered

/-- What an operation does: it sets its flag, panics only as a send into the closed input
channel, and its reply tells the truth. -/
structure Outcome (b b' : Broker) (p : Phase) (o : Op) (r : o.Reply) : Prop where
  /-- It sets its flag. -/
  flags_eq : b'.flags = o.mark b.flags
  /-- Only a send into the closed input channel panics. -/
  panicked : b'.panicked = true → b.panicked = true ∨ (p = .entering ∧ b.inputClosed = true)
  /-- The reply tells the truth. -/
  tells : Tells b.flags o r

theorem Timely.select {ctx : Nat} {m : RecoverableRedisNotification} {r : SendCase}
    (ht : Timely b p (.select ctx m)) (h : step done (.select ctx m) case b = some (r, b')) :
    Outcome b b' p (.select ctx m) r := by
  have hentering : p = .entering := by
    cases p with
    | entering => rfl
    | _ => exact ht.ok.elim
  cases case with
  | input =>
    obtain ⟨b₁, hput, heq⟩ := Option.map_eq_some_iff.1 h
    obtain ⟨rfl, rfl⟩ := Prod.mk.inj heq
    unfold putInput at hput
    split at hput
    · next hclosed =>
      obtain rfl := Option.some.inj hput
      exact ⟨rfl, fun _ ↦ .inr ⟨hentering, hclosed⟩, trivial⟩
    · split at hput
      · obtain rfl := Option.some.inj hput
        exact ⟨rfl, .inl, trivial⟩
      · cases hput
  | ctx =>
    simp only [step] at h
    split at h
    · obtain ⟨rfl, rfl⟩ := Prod.mk.inj (Option.some.inj h)
      exact ⟨rfl, .inl, trivial⟩
    · cases h
  | quit =>
    simp only [step] at h
    split at h
    · obtain ⟨rfl, rfl⟩ := Prod.mk.inj (Option.some.inj h)
      exact ⟨rfl, .inl, trivial⟩
    · cases h

/-- Receiving changes no flag. -/
theorem takeInput_flags {m : Option RecoverableRedisNotification}
    (h : b.takeInput = some (m, b')) : b'.flags = b.flags ∧ b'.panicked = b.panicked := by
  unfold takeInput at h
  split at h
  · obtain ⟨-, rfl⟩ := Prod.mk.inj (Option.some.inj h)
    exact ⟨rfl, rfl⟩
  · split at h
    · obtain ⟨-, rfl⟩ := Prod.mk.inj (Option.some.inj h)
      exact ⟨rfl, rfl⟩
    · cases h

/-- **The outcome of an operation that comes when it should.** -/
theorem Timely.outcome (ht : Timely b p o) (h : step done o case b = some (r, b')) :
    Outcome b b' p o r := by
  cases o with
  | select ctx m => exact ht.select h
  | load =>
    obtain ⟨rfl, rfl⟩ := Prod.mk.inj (Option.some.inj h)
    exact ⟨rfl, .inl, rfl⟩
  | runSelect =>
    cases case with
    | input =>
      obtain ⟨x, htake, heq⟩ := Option.map_eq_some_iff.1 h
      obtain ⟨rfl, rfl⟩ := Prod.mk.inj heq
      obtain ⟨hflags, hp⟩ := takeInput_flags htake
      exact ⟨hflags, fun h ↦ .inl (hp ▸ h), trivial⟩
    | ctx => cases h
    | quit =>
      simp only [step] at h
      split at h
      · next hquit =>
        obtain ⟨rfl, rfl⟩ := Prod.mk.inj (Option.some.inj h)
        exact ⟨rfl, .inl, hquit⟩
      · cases h
  | drainSelect =>
    simp only [step] at h
    split at h
    · next x htake =>
      obtain ⟨rfl, rfl⟩ := Prod.mk.inj (Option.some.inj h)
      obtain ⟨hflags, hp⟩ := takeInput_flags htake
      exact ⟨hflags, fun h ↦ .inl (hp ▸ h), trivial⟩
    · obtain ⟨rfl, rfl⟩ := Prod.mk.inj (Option.some.inj h)
      exact ⟨rfl, .inl, trivial⟩
  | output m =>
    obtain ⟨rfl, rfl⟩ := Prod.mk.inj (Option.some.inj h)
    have hopen : b.outputClosed = false := by
      apply ht.ordered.output_open
      cases p with
      | forwarding drain => exact ht.knows.2
      | _ => exact ht.ok.elim
    rw [putOutput, if_neg (by simp [hopen])]
    exact ⟨rfl, .inl, trivial⟩
  | closeInput =>
    obtain ⟨rfl, rfl⟩ := Prod.mk.inj (Option.some.inj h)
    have hopen : b.inputClosed = false := by
      cases p with
      | drained => exact ht.knows.2
      | _ => exact ht.ok.elim
    rw [hopen]
    exact ⟨rfl, .inl, trivial⟩
  | closeQuit =>
    obtain ⟨rfl, rfl⟩ := Prod.mk.inj (Option.some.inj h)
    have hopen : b.quitClosed = false := by
      cases p with
      | swapped => exact ht.knows.2
      | _ => exact ht.ok.elim
    rw [hopen]
    exact ⟨rfl, .inl, trivial⟩
  | closeOutput =>
    obtain ⟨rfl, rfl⟩ := Prod.mk.inj (Option.some.inj h)
    have hopen : b.outputClosed = false := by
      cases p with
      | waited => exact ht.knows.2
      | _ => exact ht.ok.elim
    rw [hopen]
    exact ⟨rfl, .inl, trivial⟩
  | wgWait =>
    simp only [step] at h
    split at h
    · next hdone =>
      obtain ⟨rfl, rfl⟩ := Prod.mk.inj (Option.some.inj h)
      exact ⟨rfl, .inl, hdone⟩
    · cases h
  | wgDone =>
    obtain ⟨rfl, rfl⟩ := Prod.mk.inj (Option.some.inj h)
    exact ⟨rfl, .inl, trivial⟩
  | compareAndSwap =>
    obtain ⟨rfl, rfl⟩ := Prod.mk.inj (Option.some.inj h)
    exact ⟨rfl, .inl, rfl⟩

end Operations

/-! ## Roles -/

/-- The kinds of goroutines. -/
inductive Role
  | sender
  | runner
  | closer
deriving DecidableEq

/-- The kind of goroutine in a phase. -/
def Phase.role : Phase → Role
  | .sending | .entering | .sent => .sender
  | .running | .draining | .forwarding _ | .drained | .leaving | .finished => .runner
  | .closing | .swapped | .waiting | .waited | .closed => .closer

/-- The kind of goroutine a call runs in. -/
def Call.role : Call → Role
  | .send _ _ => .sender
  | .run | .drain => .runner
  | .close => .closer

section Roles

variable {p q : Phase} {o : Op} {f : Flags}

theorem Phase.role_start (g : Call) : (start g).role = g.role := by cases g <;> rfl

/-- A goroutine stays what it is. -/
theorem Phase.role_next (hok : p.Ok o) (r : o.Reply) : (p.next o r).role = p.role := by
  cases p with
  | forwarding drain => cases o <;> first | exact hok.elim | (cases drain <;> rfl)
  | sending => cases o <;> first | exact hok.elim | (rcases r with _ | _ <;> rfl)
  | running => cases o <;> first | exact hok.elim | (rcases r with _ | _ | _ <;> rfl)
  | draining => cases o <;> first | exact hok.elim | (rcases r with (_ | _) | _ <;> rfl)
  | closing => cases o <;> first | exact hok.elim | (rcases r with _ | _ <;> rfl)
  | _ => cases o <;> first | exact hok.elim | rfl

/-- The flags stay in order. -/
theorem Flags.Ordered.mark (h : f.Ordered) (hok : p.Ok o) (hk : p.Knows f) :
    (o.mark f).Ordered := by
  cases o with
  | closeInput =>
    cases p with
    | drained => exact ⟨h.closed_of_quit, fun _ ↦ hk.1, fun _ ↦ rfl, h.done_of_output⟩
    | _ => exact hok.elim
  | wgDone =>
    cases p with
    | leaving => exact ⟨h.closed_of_quit, h.quit_of_input, fun _ ↦ hk.1, fun _ ↦ rfl⟩
    | _ => exact hok.elim
  | compareAndSwap => exact ⟨fun _ ↦ rfl, h.quit_of_input, h.input_of_done, h.done_of_output⟩
  | closeQuit =>
    cases p with
    | swapped => exact ⟨fun _ ↦ hk.1, fun _ ↦ rfl, h.input_of_done, h.done_of_output⟩
    | _ => exact hok.elim
  | closeOutput =>
    cases p with
    | waited => exact ⟨h.closed_of_quit, h.quit_of_input, h.input_of_done, fun _ ↦ hk.1⟩
    | _ => exact hok.elim
  | _ => exact h

/-- What a goroutine relies on is not changed by goroutines of another kind. -/
theorem Phase.Knows.still (hq : q.Knows f) (hok : p.Ok o) (hne : p.role ≠ q.role) :
    q.Knows (o.mark f) := by
  cases o with
  | closeInput =>
    cases p with
    | drained => cases q <;> first | exact hq | exact absurd rfl hne
    | _ => exact hok.elim
  | wgDone =>
    cases p with
    | leaving => cases q <;> first | exact hq | exact absurd rfl hne | exact ⟨rfl, hq.2⟩
    | _ => exact hok.elim
  | compareAndSwap =>
    cases p with
    | closing => cases q <;> first | exact hq | exact absurd rfl hne
    | _ => exact hok.elim
  | closeQuit =>
    cases p with
    | swapped =>
      cases q <;>
        first | exact hq | exact absurd rfl hne | exact ⟨rfl, hq.2⟩ | exact ⟨fun _ ↦ rfl, hq.2⟩
    | _ => exact hok.elim
  | closeOutput =>
    cases p with
    | waited => cases q <;> first | exact hq | exact absurd rfl hne
    | _ => exact hok.elim
  | _ => exact hq

/-- A sender enters after its look at `closed`. -/
theorem Phase.eq_load_of_entering {r : o.Reply} (h : p.next o r = .entering) : o = .load := by
  cases o with
  | load => rfl
  | runSelect => rcases r with _ | _ | _ <;> cases h
  | drainSelect => rcases r with (_ | _) | _ <;> cases h
  | compareAndSwap => rcases r with _ | _ <;> cases h
  | output m =>
    rw [Phase.next] at h
    split at h <;> cases h
  | _ => cases h

/-- Senders set no flag. -/
theorem Phase.mark_of_sender (hok : p.Ok o) (hp : p.role = .sender) : o.mark f = f := by
  cases p <;> cases hp <;> cases o <;> first | exact hok.elim | rfl

/-- A goroutine that moves relies on what it is told. -/
theorem Phase.Knows.next (hk : p.Knows f) (hord : f.Ordered) (hok : p.Ok o) {r : o.Reply}
    (ht : Tells f o r) : (p.next o r).Knows (o.mark f) := by
  cases p with
  | sending => cases o <;> first | exact hok.elim | (rcases r with _ | _ <;> trivial)
  | entering => cases o <;> first | exact hok.elim | trivial
  | running =>
    cases o <;> first | exact hok.elim | skip
    rcases r with _ | _ | m
    · exact ⟨ht, hk⟩
    · exact hk
    · exact ⟨nofun, hk⟩
  | draining =>
    cases o <;> first | exact hok.elim | skip
    rcases r with (_ | m) | _
    · exact hk
    · exact ⟨fun _ ↦ hk.1, hk.2⟩
    · exact hk
  | forwarding drain =>
    cases o <;> first | exact hok.elim | skip
    cases drain with
    | false => exact hk.2
    | true => exact ⟨hk.1 rfl, hk.2⟩
  | drained =>
    cases o <;> first | exact hok.elim | skip
    refine ⟨rfl, ?_⟩
    cases hd : f.runDone with
    | false => exact hd
    | true => exact absurd (hord.input_of_done hd) (by simp [hk.2])
  | leaving => cases o <;> first | exact hok.elim | trivial
  | closing =>
    cases o <;> first | exact hok.elim | skip
    rcases r with _ | _
    · exact hk
    · have hunset : f.closed = false := by simpa using congrArg not (Eq.symm ht)
      exact ⟨rfl, hord.quit_open hunset⟩
  | swapped =>
    cases o <;> first | exact hok.elim | skip
    apply hord.output_open
    cases hi : f.inputClosed with
    | false => rfl
    | true => exact absurd (hord.quit_of_input hi) (by simp [hk.2])
  | waiting =>
    cases o <;> first | exact hok.elim | skip
    exact ⟨ht, hk⟩
  | waited => cases o <;> first | exact hok.elim | trivial
  | _ => cases o <;> exact hok.elim

end Roles

/-! ## Runs -/

/-- What is asked of the broker: sends at any time, `Close` once. -/
def Asked (P : Pool machine) : Event machine → Prop
  | .start _ (.send _ _) => True
  | .start _ .close => ∀ th ∈ P.threads, th.call.role ≠ .closer
  | .start _ .run | .start _ .drain | .crash _ => False
  | .op _ _ _ _ _ _ | .again _ | .env _ => True

instance instDecidableAsked (P : Pool machine) (e : Event machine) : Decidable (Asked P e) :=
  match e with
  | .start _ (.send _ _) | .op _ _ _ _ _ _ | .again _ | .env _ => .isTrue trivial
  | .start _ .close => inferInstanceAs (Decidable (∀ th ∈ P.threads, th.call.role ≠ .closer))
  | .start _ .run | .start _ .drain | .crash _ => .isFalse not_false

/-- A run of a broker from its creation, all of whose events satisfy `G`; how far the
goroutines are is carried along. -/
def Run (G : (Nat → Phase) → Pool machine → Event machine → Prop) (bufferSize : Nat) :
    Pool machine → (Nat → Phase) → Prop :=
  Pool.Run contract.track (fun γ P e ↦ Asked P e ∧ G γ P e) (started bufferSize, fun _ ↦ .running)

/-- **What holds in every run of a broker.** -/
structure Sound (P : Pool machine) (γ : Nat → Phase) : Prop where
  /-- Every goroutine keeps to its phases. -/
  obeying : contract.Obeying P γ
  /-- Every goroutine does what it was started for. -/
  plays : ∀ t c f, P.Live t c f → (γ t).role = f.role
  /-- There are one `run` and one `Close`. -/
  single : ∀ t u c d f g, P.Live t c f → P.Live u d g → f.role = g.role → f.role ≠ .sender → t = u
  /-- The flags were set in order. -/
  ordered : P.state.broker.flags.Ordered
  /-- Every goroutine relies on its flags rightly. -/
  knows : ∀ t c f, P.Live t c f → (γ t).Knows P.state.broker.flags
  /-- The output channel is closed by `Close`. -/
  closer : P.state.broker.outputClosed = true → ∃ t c f, P.Live t c f ∧ f.role = .closer

section Sound

variable {P P' : Pool machine} {γ : Nat → Phase} {e : Event machine}

theorem sound_started (bufferSize : Nat) : Sound (started bufferSize) fun _ ↦ .running := by
  have hlive : ∀ {t c f}, (started bufferSize).Live t c f → t = 0 ∧ f = .run := by
    rintro t c f ⟨p, hp⟩
    rcases t with _ | t
    · obtain ⟨-, rfl, -⟩ := Thread.mk.inj (Option.some.inj hp)
      exact ⟨rfl, rfl⟩
    · simp [started] at hp
  refine ⟨?_, ?_, ?_, ?_, ?_, ?_⟩
  · intro t th p ht hp
    rcases t with _ | t
    · obtain rfl := Option.some.inj ht
      obtain rfl := Option.some.inj hp
      exact body_obeys .run
    · simp [started] at ht
  · intro t c f hl
    rw [(hlive hl).2]
    rfl
  · intro t u c d f g ht hu _ _
    rw [(hlive ht).1, (hlive hu).1]
  · exact ⟨nofun, nofun, nofun, nofun⟩
  · intro t c f _
    rfl
  · exact nofun

/-- What an operation of a run does. -/
theorem Sound.outcome (hS : Sound P γ) {t : Nat} {c : Unit} {o : Op} {case : Case} {r : o.Reply}
    {f : Option Call} (hs : Pool.Step P (.op t c o case r f) P') :
    f = none ∧ P.state.broker.panicked = false ∧ (γ t).Ok o ∧
      Outcome P.state.broker P'.state.broker (γ t) o r := by
  obtain ⟨g, hl⟩ := hs.op_live
  have hok : (γ t).Ok o := hS.obeying.ok hs
  obtain ⟨⟨r', b'⟩, hx, heq⟩ := Option.map_eq_some_iff.1 hs.op_exec
  obtain ⟨rfl, heq'⟩ := Prod.mk.inj heq
  obtain ⟨hstate, rfl⟩ := Prod.mk.inj heq'
  obtain ⟨hp, hx⟩ := exec_eq_some.1 hx
  rw [← hstate]
  exact ⟨rfl, hp, hok, Timely.outcome ⟨hok, hS.knows _ _ _ hl, hS.ordered⟩ hx⟩

/-- Everything else leaves the broker alone. -/
theorem broker_eq (hs : Pool.Step P e P') (hop : ∀ t c o case r f, e ≠ .op t c o case r f) :
    P'.state.broker = P.state.broker := by
  cases hs with
  | op => exact absurd rfl (hop _ _ _ _ _ _)
  | again => rfl
  | start => rfl
  | env he =>
    obtain rfl := Option.some.inj he
    rfl
  | crash => rfl

/-- An event sets flags only. -/
theorem Sound.flags_step (hS : Sound P γ) (hs : Pool.Step P e P') :
    P'.state.broker.flags = P.state.broker.flags ∨
      ∃ o : Op, P'.state.broker.flags = o.mark P.state.broker.flags := by
  by_cases hop : ∃ t c o case r f, e = .op t c o case r f
  · obtain ⟨t, c, o, case, r, f, rfl⟩ := hop
    obtain ⟨-, -, -, hout⟩ := hS.outcome hs
    exact .inr ⟨o, hout.flags_eq⟩
  · rw [broker_eq hs fun t c o case r f h ↦ hop ⟨t, c, o, case, r, f, h⟩]
    exact .inl rfl

/-- A flag that is set stays so. -/
theorem Sound.flag_step (hS : Sound P γ) (hs : Pool.Step P e P') (flag : Flags → Bool)
    (hmark : ∀ (o : Op) f, flag f = true → flag (o.mark f) = true)
    (h : flag P.state.broker.flags = true) : flag P'.state.broker.flags = true := by
  rcases hS.flags_step hs with heq | ⟨o, heq⟩ <;> rw [heq]
  · exact h
  · exact hmark o _ h

/-- Once `closed` is set, no `Send` comes to its select that was not there. -/
theorem Sound.not_entering_step (hS : Sound P γ) (hs : Pool.Step P e P')
    (hclosed : P.state.broker.closed = true) (h : ∀ t c f, P.Live t c f → γ t ≠ .entering) :
    ∀ t c f, P'.Live t c f → contract.track γ P e t ≠ .entering := by
  refine hS.obeying.each (K := contract) (I := fun _ _ p ↦ p ≠ Phase.entering)
    (Q := fun _ _ p ↦ p ≠ Phase.entering) hs h ?_ ?_ ?_
  · intro t c f _ _ _ h
    exact h
  · rintro t c f o case r g rfl - - - - hentering
    obtain ⟨-, -, -, hout⟩ := hS.outcome hs
    obtain rfl := Phase.eq_load_of_entering hentering
    have htells : r = P.state.broker.closed := hout.tells
    rw [hclosed] at htells
    subst htells
    cases hentering
  · intro c f _
    cases f <;> exact nofun

/-- The invariant is kept by every event. -/
theorem Sound.step (hS : Sound P γ) (hs : Pool.Step P e P') (hask : Asked P e) :
    Sound P' (contract.track γ P e) := by
  have hcrash : ∀ c, e ≠ .crash c := by
    rintro c rfl
    exact hask
  have hstarts : ∀ {c f}, e.starts = some (c, f) → e = .start c f := by
    intro c f hst
    cases e with
    | op t c' o case r g =>
      obtain ⟨rfl, -⟩ := hS.outcome hs
      simp [Event.starts] at hst
    | start c' f' =>
      obtain ⟨rfl, rfl⟩ := Prod.mk.inj (Option.some.inj hst)
      rfl
    | _ => simp [Event.starts] at hst
  have hplays : ∀ t c f, P'.Live t c f → (contract.track γ P e t).role = f.role := by
    refine hS.obeying.each (K := contract) (I := fun _ (f : Call) (p : Phase) ↦ p.role = f.role)
      (Q := fun _ (f : Call) (p : Phase) ↦ p.role = f.role) hs hS.plays ?_ ?_ ?_
    · intro t c f _ _ _ hr
      exact hr
    · intro t c f o case r g _ _ hok _ hr
      exact (Phase.role_next hok r).trans hr
    · intro c f _
      exact Phase.role_start f
  -- the flags before and after
  have hflags : (∃ t c o case r f, e = .op t c o case r f) ∨
      P'.state.broker = P.state.broker := by
    by_cases hop : ∃ t c o case r f, e = .op t c o case r f
    · exact .inl hop
    · refine .inr (broker_eq hs ?_)
      intro t c o case r f heq
      exact hop ⟨t, c, o, case, r, f, heq⟩
  refine ⟨hS.obeying.step hs, hplays, ?_, ?_, ?_, ?_⟩
  · intro t u c d f g ht hu hrole hsender
    -- a new `Close` is the only one, and nobody starts a new `run`
    have hnew : ∀ {u c d f g}, e = .start c f → P.Live u d g → f.role ≠ .sender →
        f.role ≠ g.role := by
      rintro u c d f g rfl ⟨p, hp⟩ hne
      cases f with
      | send ctx m => exact absurd rfl hne
      | close => exact fun h ↦ hask _ (List.mem_of_getElem? hp) h.symm
      | run => exact hask.elim
      | drain => exact hask.elim
    rcases hs.live_iff.1 ht with ⟨ht, -⟩ | ⟨rfl, hst⟩ <;>
      rcases hs.live_iff.1 hu with ⟨hu, -⟩ | ⟨rfl, hsu⟩
    · exact hS.single t u c d f g ht hu hrole hsender
    · exact absurd hrole.symm (hnew (hstarts hsu) ht (hrole ▸ hsender))
    · exact absurd hrole (hnew (hstarts hst) hu hsender)
    · rfl
  · rcases hflags with ⟨t, c, o, case, r, f, rfl⟩ | heq
    · obtain ⟨g, hl⟩ := hs.op_live
      obtain ⟨-, -, hok, hout⟩ := hS.outcome hs
      rw [hout.flags_eq]
      exact hS.ordered.mark hok (hS.knows _ _ _ hl)
    · rw [heq]
      exact hS.ordered
  · refine hS.obeying.each (K := contract) (I := fun _ _ ↦ Phase.Knows P.state.broker.flags)
      (Q := fun _ _ ↦ Phase.Knows P'.state.broker.flags) hs hS.knows ?_ ?_ ?_
    · intro t c f hl _ hmove hk
      rcases hflags with ⟨u, d, o, case, r, g, rfl⟩ | heq
      · obtain ⟨g', hu⟩ := hs.op_live
        obtain ⟨-, -, hok, hout⟩ := hS.outcome hs
        rw [hout.flags_eq]
        by_cases hsender : (γ u).role = .sender
        · rw [Phase.mark_of_sender hok hsender]
          exact hk
        · refine Phase.Knows.still hk hok fun hrole ↦ hmove ?_
          rw [hS.plays _ _ _ hu] at hsender hrole
          rw [hS.plays _ _ _ hl] at hrole
          rw [hS.single u t d c g' f hu hl hrole hsender]
          rfl
      · rw [heq]
        exact hk
    · rintro t c f o case r g rfl hl hok hx hk
      obtain ⟨-, -, -, hout⟩ := hS.outcome hs
      rw [hout.flags_eq]
      exact Phase.Knows.next hk hS.ordered hok hout.tells
    · intro c f hst
      obtain rfl := hstarts hst
      cases f with
      | send ctx m => trivial
      | run => exact hask.elim
      | drain => exact hask.elim
      | close =>
        rw [broker_eq hs (by simp)]
        show P.state.broker.outputClosed = false
        by_contra hclosed
        obtain ⟨u, d, g, ⟨p, hp⟩, hrole⟩ := hS.closer (by simpa using hclosed)
        exact hask _ (List.mem_of_getElem? hp) hrole
  · intro hclosed
    have hkeep : (∃ t c f, P.Live t c f ∧ f.role = .closer) →
        ∃ t c f, P'.Live t c f ∧ f.role = .closer := by
      rintro ⟨t, c, f, hl, hrole⟩
      exact ⟨t, c, f, hs.live_iff.2 (.inl ⟨hl, hcrash c⟩), hrole⟩
    apply hkeep
    rcases hflags with ⟨t, c, o, case, r, f, rfl⟩ | heq
    · obtain ⟨g, hl⟩ := hs.op_live
      obtain ⟨-, -, hok, hout⟩ := hS.outcome hs
      have hmark : (o.mark P.state.broker.flags).outputClosed = true := by
        rw [← hout.flags_eq]
        exact hclosed
      cases o with
      | closeOutput =>
        refine ⟨t, c, g, hl, ?_⟩
        rw [← hS.plays _ _ _ hl]
        revert hok
        cases γ t <;> first | exact fun _ ↦ rfl | exact fun h ↦ h.elim
      | _ => exact hS.closer hmark
    · exact hS.closer (heq ▸ hclosed)

theorem Run.sound {G : (Nat → Phase) → Pool machine → Event machine → Prop} {n : Nat}
    (hr : Run G n P γ) : Sound P γ := by
  refine Pool.Run.invariant (I := Sound) (sound_started n) ?_ hr
  intro P γ e P' hS hG hs
  exact hS.step hs hG.1

/-- **The output channel is open when `run` sends on it.** -/
theorem Sound.output_open (hS : Sound P γ) {t : Nat} {c : Unit}
    {m : RecoverableRedisNotification} {case : Case} {r : Unit} {f : Option Call}
    (hs : Pool.Step P (.op t c (.output m) case r f) P') :
    P.state.broker.outputClosed = false := by
  obtain ⟨g, hl⟩ := hs.op_live
  have hok : (γ t).Ok (.output m) := hS.obeying.ok hs
  have hk := hS.knows _ _ _ hl
  apply hS.ordered.output_open
  revert hok hk
  cases γ t with
  | forwarding drain => exact fun _ hk ↦ hk.2
  | _ => exact fun hok ↦ hok.elim

end Sound

/-! ## Main result -/

/-- When `run` closes the input channel, no `Send` is between its look at `closed` and its
select. -/
def NoneEntering (γ : Nat → Phase) (P : Pool machine) : Event machine → Prop
  | .op _ _ .closeInput _ _ _ => ∀ t < P.threads.length, P.alive t = true → γ t ≠ .entering
  | _ => True

instance instDecidableNoneEntering (γ : Nat → Phase) (P : Pool machine) (e : Event machine) :
    Decidable (NoneEntering γ P e) :=
  match e with
  | .op _ _ .closeInput _ _ _ =>
    inferInstanceAs (Decidable (∀ t < P.threads.length, P.alive t = true → γ t ≠ .entering))
  | .op _ _ .load _ _ _ | .op _ _ (.select _ _) _ _ _ | .op _ _ .runSelect _ _ _
  | .op _ _ .drainSelect _ _ _ | .op _ _ (.output _) _ _ _ | .op _ _ .wgDone _ _ _
  | .op _ _ .compareAndSwap _ _ _ | .op _ _ .closeQuit _ _ _ | .op _ _ .wgWait _ _ _
  | .op _ _ .closeOutput _ _ _ | .start _ _ | .again _ | .env _ | .crash _ => .isTrue trivial

/-- After the input channel was closed, no `Send` comes to its select. -/
structure Safe (P : Pool machine) (γ : Nat → Phase) : Prop where
  /-- No `Send` comes to its select on the closed input channel. -/
  not_entering : P.state.broker.inputClosed = true → ∀ t c f, P.Live t c f → γ t ≠ .entering
  /-- Nothing panicked. -/
  panicked_eq : P.state.broker.panicked = false

section Safe

variable {P P' : Pool machine} {γ : Nat → Phase} {e : Event machine}

/-- Only `run` closes the input channel. -/
theorem Outcome.inputClosed_eq {b b' : Broker} {p : Phase} {o : Op} {r : o.Reply}
    (h : Outcome b b' p o r) (hne : o ≠ .closeInput) : b'.inputClosed = b.inputClosed := by
  have hmark : b'.flags.inputClosed = (o.mark b.flags).inputClosed := by rw [h.flags_eq]
  cases o with
  | closeInput => exact absurd rfl hne
  | _ => exact hmark

theorem Safe.step (hS : Sound P γ) (hsafe : Safe P γ) (hs : Pool.Step P e P')
    (hnone : NoneEntering γ P e) : Safe P' (contract.track γ P e) := by
  by_cases hop : ∃ t c o case r f, e = .op t c o case r f
  swap
  · have heq := broker_eq hs fun t c o case r f h ↦ hop ⟨t, c, o, case, r, f, h⟩
    refine ⟨?_, by rw [heq]; exact hsafe.panicked_eq⟩
    rw [heq]
    intro hclosed
    exact hS.not_entering_step hs (hS.ordered.closed_of_quit (hS.ordered.quit_of_input hclosed))
      (hsafe.not_entering hclosed)
  obtain ⟨t, c, o, case, r, f, rfl⟩ := hop
  obtain ⟨g, hl⟩ := hs.op_live
  obtain ⟨rfl, -, hok, hout⟩ := hS.outcome hs
  refine ⟨?_, ?_⟩
  · intro hclosed
    by_cases ho : o = .closeInput
    · subst ho
      have hquit : P.state.broker.flags.quitClosed = true := by
        have hk := hS.knows _ _ _ hl
        revert hok hk
        cases γ t with
        | drained => exact fun _ hk ↦ hk.1
        | _ => exact fun hok ↦ hok.elim
      exact hS.not_entering_step hs (hS.ordered.closed_of_quit hquit)
        fun u d g hu ↦ hnone u hu.lt_length hu.alive
    · have hin : P.state.broker.inputClosed = true := hout.inputClosed_eq ho ▸ hclosed
      exact hS.not_entering_step hs (hS.ordered.closed_of_quit (hS.ordered.quit_of_input hin))
        (hsafe.not_entering hin)
  · by_contra hp
    rcases hout.panicked (by simpa using hp) with hp | ⟨hentering, hclosed⟩
    · simp [hsafe.panicked_eq] at hp
    · exact hsafe.not_entering hclosed _ _ _ hl hentering

end Safe

/-- **Sends are safe, if none is entering when the input channel is closed.**  In every
run in which no `Send` is between its look at `closed` and its select when `run` closes the
input channel, nothing panics, no send goes into the closed input channel and none into
the closed output channel. -/
theorem sends_safe (bufferSize : Nat) (P : Pool machine) (γ : Nat → Phase)
    (hr : Run NoneEntering bufferSize P γ) :
    P.state.broker.panicked = false ∧
      (∀ t c ctx m r f P', Pool.Step P (.op t c (.select ctx m) .input r f) P' →
        P.state.broker.inputClosed = false) ∧
      ∀ t c m case r f P', Pool.Step P (.op t c (.output m) case r f) P' →
        P.state.broker.outputClosed = false := by
  have hS : Sound P γ := hr.sound
  have hsafe : Sound P γ ∧ Safe P γ := by
    refine Pool.Run.invariant (I := fun P γ ↦ Sound P γ ∧ Safe P γ)
      ⟨sound_started bufferSize, fun h ↦ absurd h (by simp [started, new]), rfl⟩ ?_ hr
    rintro P γ e P' ⟨hS, hsafe⟩ ⟨hask, hnone⟩ hs
    exact ⟨hS.step hs hask, hsafe.step hS hs hnone⟩
  refine ⟨hsafe.2.panicked_eq, ?_, ?_⟩
  · intro t c ctx m r f P' hs
    obtain ⟨g, hl⟩ := hs.op_live
    have hok : (γ t).Ok (.select ctx m) := hS.obeying.ok hs
    have hentering : γ t = .entering := by
      revert hok
      cases γ t <;> first | exact fun _ ↦ rfl | exact fun hok ↦ hok.elim
    by_contra hclosed
    exact hsafe.2.not_entering (by simpa using hclosed) _ _ _ hl hentering
  · intro t c m case r f P' hs
    exact hS.output_open hs

namespace Demo

/-- A notification. -/
def notif : RecoverableRedisNotification := makeStreamTerminatedNotif "demo"

/-- A goroutine calls `Send` and looks at `closed`; another one calls `Close`. -/
def racing : List (Pool.Label machine) :=
  [.start () (.send 0 notif), .op 1 .input, .start () .close]

/-- `Close` sets `closed` and closes `quit`; `run` drains the input channel and closes
it. -/
def shutDown : List (Pool.Label machine) :=
  [.op 2 .input, .op 2 .input, .op 0 .quit, .again 0, .op 0 .input, .op 0 .input]

/-- Where a schedule leads that satisfies `G`. -/
def reached (G : (Nat → Phase) → Pool machine → Event machine → Prop)
    [∀ γ P e, Decidable (G γ P e)] (bufferSize : Nat) (ls : List (Pool.Label machine)) :
    Option (Pool machine × (Nat → Phase)) :=
  Pool.schedule contract.track (fun γ P e ↦ Asked P e ∧ G γ P e) ls
    (started bufferSize, fun _ ↦ .running)

/-- The send comes to its select before the shutdown. -/
def inTime : Pool machine × (Nat → Phase) :=
  (reached NoneEntering 1 (racing ++ [.op 1 .input, .op 2 .input, .op 2 .input, .op 0 .quit,
    .again 0, .op 0 .input, .op 0 .input, .again 0, .op 0 .input, .op 0 .input])).get
      (by decide +kernel)

/-- The send is late: the shutdown is over before it comes to its select. -/
def late : Pool machine × (Nat → Phase) :=
  (reached (fun _ _ _ ↦ True) 1 (racing ++ shutDown)).get (by decide +kernel)

/-- Goroutine `t` sends into the input channel. -/
def sends (t : Nat) : Event machine → Bool
  | .op t' _ (.select _ _) .input _ _ => t' == t
  | _ => false

theorem exists_of_sends {t : Nat} {e : Event machine} (h : sends t e = true) :
    ∃ c ctx m r f, e = .op t c (.select ctx m) .input r f := by
  unfold sends at h
  split at h
  · obtain rfl := beq_iff_eq.1 h
    exact ⟨_, _, _, _, _, rfl⟩
  · cases h

end Demo

/-- A send that is through before the shutdown is safe. -/
theorem sends_safe_inTime :
    Demo.inTime.1.state.broker.inputClosed = true ∧
      Demo.inTime.1.state.broker.output.length = 1 ∧
        Demo.inTime.1.state.broker.panicked = false := by
  have hr : Run NoneEntering 1 Demo.inTime.1 Demo.inTime.2 := Pool.run_of_isSome _
  exact ⟨by decide +kernel, by decide +kernel, (sends_safe 1 Demo.inTime.1 Demo.inTime.2 hr).1⟩

/-- **A late send panics.**  It passed the `closed` flag before `Close` set it and comes to
its select after `run` has closed the input channel. -/
theorem send_panics :
    Run (fun _ _ _ ↦ True) 1 Demo.late.1 Demo.late.2 ∧
      Demo.late.1.state.broker.inputClosed = true ∧
        ∃ c ctx m r f P', Pool.Step Demo.late.1 (.op 1 c (.select ctx m) .input r f) P' ∧
          P'.state.broker.panicked = true := by
  refine ⟨Pool.run_of_isSome _, by decide +kernel, ?_⟩
  have hstep : (Demo.late.1.step? (.op 1 .input)).any (fun p ↦
      Demo.sends 1 p.1 && p.2.state.broker.panicked) = true := by
    decide +kernel
  obtain ⟨e, P', hs, htest⟩ := Pool.exists_step_of_any hstep
  obtain ⟨hsends, hp⟩ := Bool.and_eq_true_iff.1 htest
  obtain ⟨c, ctx, m, r, f, rfl⟩ := Demo.exists_of_sends hsends
  exact ⟨c, ctx, m, r, f, P', hs, hp⟩

end RedisStreamClient.Notifs.Broker

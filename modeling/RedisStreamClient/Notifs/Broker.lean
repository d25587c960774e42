import RedisStreamClient.Lib.Pool
import RedisStreamClient.Notifs.LBSMsg

/-!
# The notification broker

`NotificationBroker` of `notifs/broker.go`: any number of goroutines `Send` into an
input channel, one goroutine `run`s, moving notifications from the input to the
output channel, and `Close` shuts the two down.  The shared state is the two
channels, the `closed` flag, the `quit` channel and the wait group; each access to
one of them, and each `select`, is one operation.

A `select` may take any ready case, so its operation is resolved by a `Case`.  A send
case on a closed channel is ready and panics, as closing it once more does; the model
records that in `panicked`, and nothing runs after a panic.  A send on an open input
channel is enabled while its buffer has room; the rendezvous of an unbuffered channel is
approximated from above by one slot.  The output channel's receiver is the client, which
may take a notification at any time, so sending on it is always enabled while it is
open; `output` collects what was sent.
-/

namespace RedisStreamClient.Notifs

open RedisStreamClient.Lib

/-- The shared state of a `NotificationBroker`. -/
structure Broker where
  /-- The buffer size of `input`. -/
  bufferSize : Nat
  /-- The notifications in the `input` channel. -/
  input : List RecoverableRedisNotification
  /-- `input` is closed. -/
  inputClosed : Bool
  /-- Everything sent on the `output` channel. -/
  output : List RecoverableRedisNotification
  /-- `output` is closed. -/
  outputClosed : Bool
  /-- The `quit` channel is closed. -/
  quitClosed : Bool
  /-- The `closed` flag. -/
  closed : Bool
  /-- `wg.Done` was called. -/
  runDone : Bool
  /-- An operation on a closed channel panicked. -/
  panicked : Bool

namespace Broker

/-- `NewNotificationBroker`. -/
def new (bufferSize : Nat) : Broker :=
  ⟨bufferSize, [], false, [], false, false, false, false, false⟩

/-- The operations of the broker's methods on the shared state. -/
inductive Op
  | /-- `b.closed.Load()`. -/
    load
  | /-- The select of `Send`. -/
    select (ctx : Nat) (m : RecoverableRedisNotification)
  | /-- The outer select of `run`. -/
    runSelect
  | /-- The select of `run`'s drain loop. -/
    drainSelect
  | /-- `b.output <- m`. -/
    output (m : RecoverableRedisNotification)
  | /-- `close(b.input)`. -/
    closeInput
  | /-- `b.wg.Done()`. -/
    wgDone
  | /-- `b.closed.CompareAndSwap(false, true)`. -/
    compareAndSwap
  | /-- `close(b.quit)`. -/
    closeQuit
  | /-- `b.wg.Wait()`. -/
    wgWait
  | /-- `close(b.output)`. -/
    closeOutput

/-- The case that the select of `Send` took. -/
inductive SendCase
  | ctxDone
  | quit
  | sent
deriving DecidableEq

/-- The case that the outer select of `run` took; `recv none` is a receive from the
closed channel. -/
inductive RunCase
  | quit
  | recv (m : Option RecoverableRedisNotification)

/-- The case that the select of the drain loop took. -/
inductive DrainCase
  | recv (m : Option RecoverableRedisNotification)
  | default

/-- The reply to an operation. -/
def Op.Reply : Op → Type
  | .load | .compareAndSwap => Bool
  | .select _ _ => SendCase
  | .runSelect => RunCase
  | .drainSelect => DrainCase
  | .output _ | .closeInput | .wgDone | .closeQuit | .wgWait | .closeOutput => Unit

/-- The signature of the broker's operations. -/
@[reducible] def sig : Sig := ⟨Op, Op.Reply⟩

/-! ## The methods -/

/-- `Send`. -/
def send (ctx : Nat) (m : RecoverableRedisNotification) : Prog sig Bool :=
  .call .load fun (closed : Bool) ↦
    if closed then .ret false
    else .call (.select ctx m) fun (case : SendCase) ↦
      match case with
      | .ctxDone => .ret false
      | .quit => .ret false
      | .sent => .ret true

/-- The calls on a broker, with the two loops of `run` apart. -/
inductive Call
  | /-- `Send(ctx, m)`. -/
    send (ctx : Nat) (m : RecoverableRedisNotification)
  | /-- The loop of `run`. -/
    run
  | /-- The drain loop of `run`. -/
    drain
  | /-- `Close()`. -/
    close

/-- What the calls return. -/
inductive Res
  | /-- `Send` returned. -/
    sent (ok : Bool)
  | /-- `run` or `Close` returned. -/
    done

/-- One turn of the loop of `run`. -/
def run : Prog sig (Res ⊕ Call) :=
  .call .runSelect fun (case : RunCase) ↦
    match case with
    | .quit => .ret (.inr .drain)
    | .recv (some m) => .call (.output m) fun _ ↦ .ret (.inr .run)
    | .recv none => .ret (.inr .run)

/-- One turn of the drain loop. -/
def drain : Prog sig (Res ⊕ Call) :=
  .call .drainSelect fun (case : DrainCase) ↦
    match case with
    | .recv (some m) => .call (.output m) fun _ ↦ .ret (.inr .drain)
    | .recv none => .ret (.inr .drain)
    | .default =>
      .call .closeInput fun _ ↦ .call .wgDone fun _ ↦ .ret (.inl .done)

/-- `Close`. -/
def close : Prog sig (Res ⊕ Call) :=
  .call .compareAndSwap fun (swapped : Bool) ↦
    if swapped then .call .closeQuit fun _ ↦ finish else finish
where
  /-- Wait for the drain and close the output channel. -/
  finish : Prog sig (Res ⊕ Call) :=
    .call .wgWait fun _ ↦ .call .closeOutput fun _ ↦ .ret (.inl .done)

/-- The code of a call. -/
def body : Call → Prog sig (Res ⊕ Call)
  | .send ctx m => send ctx m >>= fun ok ↦ .ret (.inl (.sent ok))
  | .run => run
  | .drain => drain
  | .close => close

/-! ## The operations -/

/-- The case of a select that is taken. -/
inductive Case
  | ctx
  | quit
  | input
deriving DecidableEq

/-- Put a notification into the input channel.  On the closed channel that panics. -/
def putInput (b : Broker) (m : RecoverableRedisNotification) : Option Broker :=
  if b.inputClosed then some { b with panicked := true }
  else if b.input.length < max 1 b.bufferSize then some { b with input := b.input ++ [m] }
  else none

/-- Receive from the input channel, which a closed channel always allows. -/
def takeInput (b : Broker) : Option (Option RecoverableRedisNotification × Broker) :=
  match b.input with
  | m :: ms => some (some m, { b with input := ms })
  | [] => if b.inputClosed then some (none, b) else none

/-- Send on the output channel. -/
def putOutput (b : Broker) (m : RecoverableRedisNotification) : Broker :=
  if b.outputClosed then { b with panicked := true } else { b with output := b.output ++ [m] }

/-- One operation.  `done` tells which contexts are done. -/
def step (done : Nat → Bool) : (o : Op) → Case → Broker → Option (o.Reply × Broker)
  | .load, _, b => some (b.closed, b)
  | .select c _, .ctx, b => if done c then some (.ctxDone, b) else none
  | .select _ _, .quit, b => if b.quitClosed then some (.quit, b) else none
  | .select _ m, .input, b => (b.putInput m).map fun b' ↦ (.sent, b')
  | .runSelect, .ctx, _ => none
  | .runSelect, .quit, b => if b.quitClosed then some (.quit, b) else none
  | .runSelect, .input, b => b.takeInput.map fun p ↦ (.recv p.1, p.2)
  | .drainSelect, _, b =>
    match b.takeInput with
    | some p => some (.recv p.1, p.2)
    | none => some (.default, b)
  | .output m, _, b => some ((), b.putOutput m)
  | .closeInput, _, b =>
    some ((), if b.inputClosed then { b with panicked := true } else { b with inputClosed := true })
  | .wgDone, _, b => some ((), { b with runDone := true })
  | .compareAndSwap, _, b => some (!b.closed, { b with closed := true })
  | .closeQuit, _, b =>
    some ((), if b.quitClosed then { b with panicked := true } else { b with quitClosed := true })
  | .wgWait, _, b => if b.runDone then some ((), b) else none
  | .closeOutput, _, b =>
    some ((), if b.outputClosed then { b with panicked := true } else { b with outputClosed := true })

/-- One operation of a program that has not panicked. -/
def exec (done : Nat → Bool) (o : Op) (case : Case) (b : Broker) : Option (o.Reply × Broker) :=
  if b.panicked then none else step done o case b

/-- `Close` has not been called. -/
structure Unclosed (b : Broker) : Prop where
  closed : b.closed = false
  quit : b.quitClosed = false
  input : b.inputClosed = false

/-- While the broker is open, `Send` finds the context done or is accepted. -/
theorem Unclosed.exec_select {done : Nat → Bool} {ctx : Nat} {m : RecoverableRedisNotification}
    {case : Case} {b b' : Broker} {r : SendCase} (hb : b.Unclosed)
    (h : exec done (.select ctx m) case b = some (r, b')) :
    (done ctx = true ∧ r = .ctxDone ∧ b' = b) ∨ (r = .sent ∧ b'.input = b.input ++ [m]) := by
  rw [exec] at h
  split at h
  · cases h
  · cases case with
    | ctx =>
      rw [step] at h
      split at h
      · next hdone =>
        cases h
        exact .inl ⟨hdone, rfl, rfl⟩
      · cases h
    | quit =>
      rw [step, hb.quit] at h
      cases h
    | input =>
      obtain ⟨b₁, hput, heq⟩ := Option.map_eq_some_iff.1 h
      obtain ⟨rfl, rfl⟩ := Prod.mk.inj heq
      rw [putInput, hb.input] at hput
      split at hput
      · next hclosed => cases hclosed
      · split at hput
        · cases hput
          exact .inr ⟨rfl, rfl⟩
        · cases hput

end Broker

end RedisStreamClient.Notifs

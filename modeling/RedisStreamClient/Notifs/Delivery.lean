import RedisStreamClient.Notifs.Shutdown

/-!
# What the broker accepts and what it delivers

A notification that `Send` has put into the input channel is received by `run`, held in
its hand and sent on the output channel.  In every run these three places hold what was
accepted, in order (`Delivers.accepted_eq`), so nothing is repeated or reordered.

Whether everything has arrived when `Close` returns is another matter: `run` stops when
it finds the input channel empty, and a `Send` that passed the `closed` flag before may
still put its notification there (`accepted_not_delivered`).  `accepted_delivered` is for
the runs in which there is no such `Send` at that moment.
-/

namespace RedisStreamClient.Notifs.Broker

open RedisStreamClient.Lib

/-! ## What an operation moves -/

/-- What an operation puts into the input channel, if it is open. -/
def Op.accepts (inputClosed : Bool) : (o : Op) → o.Reply → List RecoverableRedisNotification
  | .select _ m, .sent => if inputClosed then [] else [m]
  | _, _ => []

/-- What an operation receives from the input channel. -/
def Op.receives : (o : Op) → o.Reply → List RecoverableRedisNotification
  | .runSelect, .recv m | .drainSelect, .recv m => m.toList
  | _, _ => []

/-- What an operation sends on the output channel. -/
def Op.forwards : Op → List RecoverableRedisNotification
  | .output m => [m]
  | _ => []

section Moves

variable {b b' : Broker} {done : Nat → Bool} {o : Op} {case : Case} {r : o.Reply}

theorem takeInput_input {m : Option RecoverableRedisNotification}
    (h : b.takeInput = some (m, b')) : b.input = m.toList ++ b'.input ∧ b'.output = b.output := by
  unfold takeInput at h
  split at h
  · next m' ms hin =>
    obtain ⟨rfl, rfl⟩ := Prod.mk.inj (Option.some.inj h)
    exact ⟨hin, rfl⟩
  · split at h
    · obtain ⟨rfl, rfl⟩ := Prod.mk.inj (Option.some.inj h)
      exact ⟨rfl, rfl⟩
    · cases h

theorem input_eq_nil_of_takeInput (h : b.takeInput = none) : b.input = [] := by
  unfold takeInput at h
  split at h
  · cases h
  · next hin => exact hin

/-- What an operation moves through the channels. -/
structure Moves (b b' : Broker) (o : Op) (r : o.Reply) : Prop where
  /-- The input channel is a queue. -/
  input_eq : b.input ++ o.accepts b.inputClosed r = o.receives r ++ b'.input
  /-- What is sent on the output channel arrives there, if it is open. -/
  output_eq : (b.outputClosed = true → o.forwards = []) → b'.output = b.output ++ o.forwards

/-- Operations that move nothing. -/
theorem Moves.of_eq (hr : o.accepts b.inputClosed r = [] ∧ o.receives r = [] ∧ o.forwards = [])
    (hin : b'.input = b.input) (hout : b'.output = b.output) : Moves b b' o r :=
  ⟨by simp [hr, hin], fun _ ↦ by simp [hr, hout]⟩

/-- **The channels are queues.** -/
theorem moves_of_step (h : step done o case b = some (r, b')) : Moves b b' o r := by
  cases o with
  | select ctx m =>
    cases case with
    | input =>
      obtain ⟨b₁, hput, heq⟩ := Option.map_eq_some_iff.1 h
      obtain ⟨rfl, rfl⟩ := Prod.mk.inj heq
      unfold putInput at hput
      split at hput
      · next hclosed =>
        obtain rfl := Option.some.inj hput
        exact .of_eq ⟨by simp [Op.accepts, hclosed], rfl, rfl⟩ rfl rfl
      · next hopen =>
        split at hput
        · obtain rfl := Option.some.inj hput
          exact ⟨by simp [Op.accepts, Op.receives, hopen], fun _ ↦ (List.append_nil _).symm⟩
        · cases hput
    | ctx | quit =>
      simp only [step] at h
      split at h
      · obtain ⟨rfl, rfl⟩ := Prod.mk.inj (Option.some.inj h)
        exact .of_eq ⟨rfl, rfl, rfl⟩ rfl rfl
      · cases h
  | runSelect =>
    cases case with
    | input =>
      obtain ⟨x, htake, heq⟩ := Option.map_eq_some_iff.1 h
      obtain ⟨rfl, rfl⟩ := Prod.mk.inj heq
      obtain ⟨hin, hout⟩ := takeInput_input htake
      exact ⟨(List.append_nil _).trans hin, fun _ ↦ hout.trans (List.append_nil _).symm⟩
    | ctx => cases h
    | quit =>
      simp only [step] at h
      split at h
      · obtain ⟨rfl, rfl⟩ := Prod.mk.inj (Option.some.inj h)
        exact .of_eq ⟨rfl, rfl, rfl⟩ rfl rfl
      · cases h
  | drainSelect =>
    simp only [step] at h
    split at h
    · next x htake =>
      obtain ⟨rfl, rfl⟩ := Prod.mk.inj (Option.some.inj h)
      obtain ⟨hin, hout⟩ := takeInput_input htake
      exact ⟨(List.append_nil _).trans hin, fun _ ↦ hout.trans (List.append_nil _).symm⟩
    · obtain ⟨rfl, rfl⟩ := Prod.mk.inj (Option.some.inj h)
      exact .of_eq ⟨rfl, rfl, rfl⟩ rfl rfl
  | wgWait =>
    simp only [step] at h
    split at h
    · obtain ⟨rfl, rfl⟩ := Prod.mk.inj (Option.some.inj h)
      exact .of_eq ⟨rfl, rfl, rfl⟩ rfl rfl
    · cases h
  | output m =>
    obtain ⟨rfl, rfl⟩ := Prod.mk.inj (Option.some.inj h)
    unfold putOutput
    split
    · next hclosed => exact ⟨List.append_nil _, fun hopen ↦ by cases hopen hclosed⟩
    · exact ⟨List.append_nil _, fun _ ↦ rfl⟩
  | closeInput | closeQuit | closeOutput =>
    obtain ⟨rfl, rfl⟩ := Prod.mk.inj (Option.some.inj h)
    split <;> exact .of_eq ⟨rfl, rfl, rfl⟩ rfl rfl
  | load | wgDone | compareAndSwap =>
    obtain ⟨rfl, rfl⟩ := Prod.mk.inj (Option.some.inj h)
    exact .of_eq ⟨rfl, rfl, rfl⟩ rfl rfl

/-- The drain loop ends on an empty input channel. -/
theorem input_eq_nil_of_default
    (h : step done .drainSelect case b = some (.default, b')) : b'.input = [] := by
  simp only [step] at h
  split at h
  · cases h
  · next htake =>
    obtain ⟨-, rfl⟩ := Prod.mk.inj (Option.some.inj h)
    exact input_eq_nil_of_takeInput htake

end Moves

/-! ## What `run` holds -/

/-- What a goroutine may do with a hand: forward what it holds, receive if it holds
nothing. -/
def HandOk (hand : List RecoverableRedisNotification) : Op → Prop
  | .output m => hand = [m]
  | .runSelect | .drainSelect => hand = []
  | _ => True

/-- What a goroutine holds after an operation. -/
def handNext (hand : List RecoverableRedisNotification) :
    (o : Op) → o.Reply → List RecoverableRedisNotification
  | .output _, _ => []
  | o, r => hand ++ o.receives r

/-- What a goroutine receives it holds until it forwards it. -/
theorem hand_next {hand : List RecoverableRedisNotification} {o : Op} (hok : HandOk hand o)
    (r : o.Reply) : hand ++ o.receives r = o.forwards ++ handNext hand o r := by
  cases o with
  | output m =>
    obtain rfl : hand = [m] := hok
    rfl
  | _ => rfl

/-- What a goroutine has received and not forwarded yet, as a monitor. -/
def handMonitor : Monitor sig Unit where
  State := List RecoverableRedisNotification
  Ok _ := HandOk
  next _ := handNext

/-- Every method forwards what it receives before it receives again. -/
theorem body_forwards (f : Call) : (body f).Obeys handMonitor () (fun hand _ ↦ hand = []) [] := by
  cases f with
  | send ctx m =>
    refine ⟨trivial, ?_⟩
    rintro (_ | _)
    · refine ⟨trivial, ?_⟩
      rintro (_ | _ | _) <;> rfl
    · rfl
  | run =>
    refine ⟨rfl, ?_⟩
    rintro (_ | _ | m)
    · rfl
    · rfl
    · exact ⟨rfl, fun _ ↦ rfl⟩
  | drain =>
    refine ⟨rfl, ?_⟩
    rintro ((_ | m) | _)
    · rfl
    · exact ⟨rfl, fun _ ↦ rfl⟩
    · exact ⟨trivial, fun _ ↦ ⟨trivial, fun _ ↦ rfl⟩⟩
  | close =>
    have hfinish : close.finish.Obeys handMonitor () (fun hand _ ↦ hand = []) [] :=
      ⟨trivial, fun _ ↦ ⟨trivial, fun _ ↦ rfl⟩⟩
    refine ⟨trivial, ?_⟩
    rintro (_ | _)
    · exact hfinish
    · exact ⟨trivial, fun _ ↦ hfinish⟩

/-- The contract on what the broker's goroutines hold. -/
def holding : Contract machine where
  toMonitor := handMonitor
  init _ _ := []
  Exit _ hand _ := hand = []
  body_obeys _ := body_forwards
  again_obeys := by
    rintro _ hand f rfl
    exact body_forwards f

/-! ## Runs -/

/-- What is noted of a run. -/
structure Delivery where
  /-- How far the goroutines are. -/
  phase : Nat → Phase
  /-- What they hold. -/
  hand : Nat → List RecoverableRedisNotification
  /-- What was accepted: the notifications of the sends that returned true, in the order
  in which they entered the input channel. -/
  accepted : List RecoverableRedisNotification

namespace Delivery

/-- What an event adds to the accepted notifications. -/
def accepts (P : Pool machine) : Event machine → List RecoverableRedisNotification
  | .op _ _ o _ r _ => o.accepts P.state.broker.inputClosed r
  | _ => []

/-- What is noted after an event. -/
def update (d : Delivery) (P : Pool machine) (e : Event machine) : Delivery :=
  ⟨contract.track d.phase P e, holding.track d.hand P e, d.accepted ++ accepts P e⟩

section Update

variable {d : Delivery} {P : Pool machine} {e : Event machine} {t : Nat}

theorem hand_op_self {c : Unit} {o : Op} {case : Case} {r : o.Reply} {f : Option Call}
    (ht : t < P.threads.length) :
    (d.update P (.op t c o case r f)).hand t = handNext (d.hand t) o r := by
  show holding.track d.hand P (.op t c o case r f) t = _
  exact Contract.track_op_self ht

theorem hand_of_mover_ne (ht : t < P.threads.length) (hne : e.mover ≠ some t) :
    (d.update P e).hand t = d.hand t := by
  show holding.track d.hand P e t = _
  exact Contract.track_of_mover_ne ht hne

end Update

/-- A run of a broker from its creation, all of whose events satisfy `G`. -/
def Run (G : Delivery → Pool machine → Event machine → Prop) (bufferSize : Nat) :
    Pool machine → Delivery → Prop :=
  Pool.Run update (fun d P e ↦ Asked P e ∧ G d P e)
    (started bufferSize, ⟨fun _ ↦ .running, fun _ ↦ [], []⟩)

end Delivery

/-- **What holds in every run.** -/
structure Delivers (P : Pool machine) (d : Delivery) : Prop where
  /-- The broker is sound. -/
  sound : Sound P d.phase
  /-- Goroutines forward what they receive. -/
  obeying : holding.Obeying P d.hand
  /-- The first goroutine is `run`. -/
  runner : ∃ f, P.Live 0 () f ∧ f.role = .runner
  /-- What was accepted has been sent on the output channel, is in the hand of `run`, or in
  the input channel. -/
  accepted_eq : d.accepted = P.state.broker.output ++ d.hand 0 ++ P.state.broker.input
  /-- `Close` closes the output channel. -/
  output_closed : ∀ t c f, P.Live t c f → d.phase t = .closed → P.state.broker.outputClosed = true

section Delivers

variable {P P' : Pool machine} {d : Delivery} {e : Event machine}

theorem Delivers.eq_zero (hD : Delivers P d) {t : Nat} {c : Unit} {f : Call} (hl : P.Live t c f)
    (hrole : f.role = .runner) : t = 0 := by
  obtain ⟨g, hg, hg'⟩ := hD.runner
  exact hD.sound.single t 0 c () f g hl hg (hrole.trans hg'.symm) (by simp [hrole])

/-- Only `run` receives and forwards. -/
theorem Phase.moves_nothing {p : Phase} {o : Op} (hok : p.Ok o) (hp : p.role ≠ .runner)
    (r : o.Reply) : o.receives r = [] ∧ o.forwards = [] := by
  cases p <;> first | exact absurd rfl hp | (cases o <;> first | exact hok.elim | exact ⟨rfl, rfl⟩)

/-- The hand of `run` after an operation. -/
theorem Delivers.hand_eq (hD : Delivers P d) {t : Nat} {c : Unit} {o : Op} {case : Case}
    {r : o.Reply} {f : Option Call} (hs : Pool.Step P (.op t c o case r f) P') :
    d.hand 0 ++ o.receives r = o.forwards ++ (d.update P (.op t c o case r f)).hand 0 := by
  obtain ⟨g, hl⟩ := hs.op_live
  by_cases hrole : g.role = .runner
  · obtain rfl := hD.eq_zero hl hrole
    have hok : HandOk (d.hand 0) o := hD.obeying.ok hs
    rw [Delivery.hand_op_self hl.lt_length, hand_next hok]
  · obtain ⟨g₀, hl₀, hrole₀⟩ := hD.runner
    have hne : Event.mover (.op (M := machine) t c o case r f) ≠ some 0 := by
      intro h
      obtain rfl : t = 0 := Option.some.inj h
      obtain ⟨-, rfl⟩ := hl.unique hl₀
      exact hrole hrole₀
    obtain ⟨hrec, hfwd⟩ := Phase.moves_nothing (hD.sound.obeying.ok hs)
      (by rw [hD.sound.plays _ _ _ hl]; exact hrole) r
    rw [Delivery.hand_of_mover_ne hl₀.lt_length hne, hrec, hfwd, List.append_nil, List.nil_append]

/-- Only operations move notifications. -/
theorem Delivers.eq_of_not_op (hD : Delivers P d) (hs : Pool.Step P e P')
    (hop : ¬ ∃ t c o case r f, e = .op t c o case r f) :
    P'.state.broker = P.state.broker ∧ (d.update P e).hand 0 = d.hand 0 := by
  obtain ⟨g, hl, -⟩ := hD.runner
  refine ⟨broker_eq hs fun t c o case r f h ↦ hop ⟨t, c, o, case, r, f, h⟩,
    Delivery.hand_of_mover_ne hl.lt_length ?_⟩
  cases e with
  | op t c o case r f => exact absurd ⟨t, c, o, case, r, f, rfl⟩ hop
  | _ => simp [Event.mover]

/-- What an operation of a run does to the broker. -/
theorem step_of_op {t : Nat} {c : Unit} {o : Op} {case : Case} {r : o.Reply} {f : Option Call}
    (hs : Pool.Step P (.op t c o case r f) P') :
    Broker.step P.state.done o case P.state.broker = some (r, P'.state.broker) := by
  obtain ⟨⟨r', b'⟩, hx, heq⟩ := Option.map_eq_some_iff.1 hs.op_exec
  obtain ⟨rfl, heq'⟩ := Prod.mk.inj heq
  rw [← (Prod.mk.inj heq').1]
  exact (exec_eq_some.1 hx).2

/-- What was accepted goes its way. -/
theorem Delivers.accepted_step (hD : Delivers P d) (hs : Pool.Step P e P') :
    (d.update P e).accepted =
      P'.state.broker.output ++ (d.update P e).hand 0 ++ P'.state.broker.input := by
  by_cases hop : ∃ t c o case r f, e = .op t c o case r f
  · obtain ⟨t, c, o, case, r, f, rfl⟩ := hop
    have hopen : P.state.broker.outputClosed = true → o.forwards = [] := by
      intro hclosed
      cases o with
      | output m => simp [hD.sound.output_open hs] at hclosed
      | _ => rfl
    obtain ⟨hin, hout⟩ := moves_of_step (step_of_op hs)
    calc d.accepted ++ o.accepts P.state.broker.inputClosed r
        = P.state.broker.output ++ d.hand 0 ++ (o.receives r ++ P'.state.broker.input) := by
          rw [← hin, hD.accepted_eq, List.append_assoc]
      _ = P.state.broker.output ++ (d.hand 0 ++ o.receives r) ++ P'.state.broker.input := by
          simp only [List.append_assoc]
      _ = _ := by
          rw [hD.hand_eq hs, hout hopen]
          simp only [List.append_assoc]
  · have haccepts : Delivery.accepts P e = [] := by
      cases e with
      | op t c o case r f => exact absurd ⟨t, c, o, case, r, f, rfl⟩ hop
      | _ => rfl
    obtain ⟨hbroker, hhand⟩ := hD.eq_of_not_op hs hop
    show d.accepted ++ Delivery.accepts P e = _
    rw [haccepts, List.append_nil, hbroker, hhand, hD.accepted_eq]

/-- `Close` is over after closing the output channel. -/
theorem Phase.eq_closeOutput_of_closed {p : Phase} {o : Op} {r : o.Reply}
    (h : p.next o r = .closed) : o = .closeOutput := by
  cases o with
  | closeOutput => rfl
  | load => rcases r with _ | _ <;> cases h
  | runSelect => rcases r with _ | _ | _ <;> cases h
  | drainSelect => rcases r with (_ | _) | _ <;> cases h
  | compareAndSwap => rcases r with _ | _ <;> cases h
  | output m =>
    rw [Phase.next] at h
    split at h <;> cases h
  | _ => cases h

/-- The output channel stays closed. -/
theorem Delivers.outputClosed_step (hD : Delivers P d) (hs : Pool.Step P e P')
    (hclosed : P.state.broker.outputClosed = true) : P'.state.broker.outputClosed = true := by
  refine hD.sound.flag_step hs Flags.outputClosed (fun o f h ↦ ?_) hclosed
  cases o with
  | closeOutput => rfl
  | _ => exact h

/-- `closed` stays set. -/
theorem Delivers.closed_step (hD : Delivers P d) (hs : Pool.Step P e P')
    (hclosed : P.state.broker.closed = true) : P'.state.broker.closed = true := by
  refine hD.sound.flag_step hs Flags.closed (fun o f h ↦ ?_) hclosed
  cases o with
  | compareAndSwap => rfl
  | _ => exact h

/-- **Nothing is lost, repeated or reordered** on its way through the channels. -/
theorem Delivers.step (hD : Delivers P d) (hs : Pool.Step P e P') (hask : Asked P e) :
    Delivers P' (d.update P e) := by
  obtain ⟨g, hl, hrole⟩ := hD.runner
  have hcrash : e ≠ .crash () := by
    rintro rfl
    exact hask
  refine ⟨hD.sound.step hs hask, hD.obeying.step hs, ⟨g, hs.live_iff.2 (.inl ⟨hl, hcrash⟩), hrole⟩,
    hD.accepted_step hs, ?_⟩
  refine hD.sound.obeying.each (K := contract)
    (I := fun _ _ p ↦ p = Phase.closed → P.state.broker.outputClosed = true)
    (Q := fun _ _ p ↦ p = Phase.closed → P'.state.broker.outputClosed = true) hs
    hD.output_closed ?_ ?_ ?_
  · intro t c f _ _ _ h hp
    exact hD.outputClosed_step hs (h hp)
  · rintro t c f o case r g rfl _ _ _ _ hp
    obtain rfl := Phase.eq_closeOutput_of_closed hp
    obtain ⟨-, -, -, hout⟩ := hD.sound.outcome hs
    show P'.state.broker.flags.outputClosed = true
    rw [hout.flags_eq]
    rfl
  · intro c f _ hp
    cases f <;> cases hp

theorem delivers_started (bufferSize : Nat) :
    Delivers (started bufferSize) ⟨fun _ ↦ .running, fun _ ↦ [], []⟩ where
  sound := sound_started bufferSize
  obeying := by
    intro t th p ht hp
    rcases t with _ | t
    · obtain rfl := Option.some.inj ht
      obtain rfl := Option.some.inj hp
      exact body_forwards .run
    · simp [started] at ht
  runner := ⟨.run, ⟨_, rfl⟩, rfl⟩
  accepted_eq := rfl
  output_closed _ _ _ _ hp := by cases hp

end Delivers

/-! ## Main result -/

/-- The phases of `run` after it found the input channel empty. -/
def Phase.past : Phase → Bool
  | .drained | .leaving | .finished => true
  | _ => false

/-- If the input channel is closed, `run` is past its drain loop. -/
theorem Phase.past_of_knows {p : Phase} {f : Flags} (hrole : p.role = .runner) (hk : p.Knows f)
    (hin : f.inputClosed = true) : p.past = true := by
  cases p with
  | drained | leaving | finished => rfl
  | running | draining | forwarding => simp [Knows, hin] at hk
  | _ => cases hrole

/-- Past its drain loop, a goroutine receives nothing. -/
theorem Phase.receives_of_past {p : Phase} {o : Op} (hok : p.Ok o) (hpast : p.past = true)
    (r : o.Reply) : o.receives r = [] := by
  cases p with
  | drained | leaving => cases o <;> first | exact hok.elim | rfl
  | finished => exact hok.elim
  | _ => cases hpast

/-- When `run` finds the input channel empty and ends its drain loop, no `Send` is between
its look at `closed` and its select. -/
def NoneLate (d : Delivery) (P : Pool machine) : Event machine → Prop
  | .op _ _ .drainSelect _ .default _ =>
    ∀ t < P.threads.length, P.alive t = true → d.phase t ≠ .entering
  | _ => True

instance instDecidableNoneLate (d : Delivery) (P : Pool machine) (e : Event machine) :
    Decidable (NoneLate d P e) :=
  match e with
  | .op _ _ .drainSelect _ .default _ =>
    inferInstanceAs (Decidable (∀ t < P.threads.length, P.alive t = true → d.phase t ≠ .entering))
  | .op _ _ .drainSelect _ (.recv _) _ | .op _ _ .load _ _ _ | .op _ _ (.select _ _) _ _ _
  | .op _ _ .runSelect _ _ _ | .op _ _ (.output _) _ _ _ | .op _ _ .closeInput _ _ _
  | .op _ _ .wgDone _ _ _ | .op _ _ .compareAndSwap _ _ _ | .op _ _ .closeQuit _ _ _
  | .op _ _ .wgWait _ _ _ | .op _ _ .closeOutput _ _ _ | .start _ _ | .again _ | .env _
  | .crash _ => .isTrue trivial

/-- **What holds if no `Send` is late**: after its drain loop `run` holds nothing, and
nothing is or comes into the input channel. -/
structure Drained (P : Pool machine) (d : Delivery) : Prop where
  /-- `run` holds nothing. -/
  hand_eq : d.hand 0 = []
  /-- The input channel is empty. -/
  input_eq : P.state.broker.input = []
  /-- `closed` is set. -/
  closed_eq : P.state.broker.closed = true
  /-- No `Send` comes to its select. -/
  not_entering : ∀ t c f, P.Live t c f → d.phase t ≠ .entering

section Drained

variable {P P' : Pool machine} {d : Delivery} {e : Event machine}

/-- **How `run` leaves its drain loop.** -/
theorem Delivers.past_step (hD : Delivers P d) (hs : Pool.Step P e P')
    (h : ((d.update P e).phase 0).past = true) :
    (d.phase 0).past = true ∨ ∃ c case f, e = .op 0 c .drainSelect case .default f := by
  obtain ⟨g, hl, -⟩ := hD.runner
  by_cases hm : e.mover = some 0
  · cases e with
    | op t c o case r f =>
      obtain rfl : t = 0 := Option.some.inj hm
      have hok : (d.phase 0).Ok o := hD.sound.obeying.ok hs
      have hnext : (d.update P (.op 0 c o case r f)).phase 0 = (d.phase 0).next o r := by
        show contract.track d.phase P (.op 0 c o case r f) 0 = _
        exact Contract.track_op_self hl.lt_length
      rw [hnext] at h
      cases o with
      | drainSelect =>
        rcases r with (_ | m) | _
        · cases h
        · cases h
        · exact .inr ⟨c, case, f, rfl⟩
      | closeInput | wgDone =>
        revert hok
        cases d.phase 0 <;> first | exact fun _ ↦ .inl rfl | exact fun hok ↦ hok.elim
      | runSelect => rcases r with _ | _ | m <;> cases h
      | load => rcases r with _ | _ <;> cases h
      | compareAndSwap => rcases r with _ | _ <;> cases h
      | output m =>
        rw [Phase.next] at h
        split at h <;> cases h
      | select ctx m => cases h
      | closeQuit => cases h
      | wgWait => cases h
      | closeOutput => cases h
    | _ => cases hm
  · have hsame : (d.update P e).phase 0 = d.phase 0 := by
      show contract.track d.phase P e 0 = _
      exact Contract.track_of_mover_ne hl.lt_length hm
    exact .inl (hsame ▸ h)

/-- After its drain loop neither `run` nor any `Send` moves a notification. -/
theorem Drained.moves_nothing (hD : Delivers P d) (hd : Drained P d)
    (hpast : (d.phase 0).past = true) {t : Nat} {c : Unit} {o : Op} {case : Case} {r : o.Reply}
    {f : Option Call} (hs : Pool.Step P (.op t c o case r f) P') :
    o.accepts P.state.broker.inputClosed r = [] ∧ o.receives r = [] := by
  obtain ⟨g, hl⟩ := hs.op_live
  have hok : (d.phase t).Ok o := hD.sound.obeying.ok hs
  refine ⟨?_, ?_⟩
  · cases o with
    | select ctx m =>
      have hentering : d.phase t = .entering := by
        revert hok
        cases d.phase t <;> first | exact fun _ ↦ rfl | exact fun hok ↦ hok.elim
      exact absurd hentering (hd.not_entering t c g hl)
    | _ => rfl
  · by_cases hrole : g.role = .runner
    · obtain rfl := hD.eq_zero hl hrole
      exact Phase.receives_of_past hok hpast r
    · exact (Phase.moves_nothing hok (by rw [hD.sound.plays _ _ _ hl]; exact hrole) r).1

/-- What was drained stays so. -/
theorem Drained.step (hD : Delivers P d) (hd : Drained P d) (hpast : (d.phase 0).past = true)
    (hs : Pool.Step P e P') : Drained P' (d.update P e) := by
  suffices h : (d.update P e).hand 0 = [] ∧ P'.state.broker.input = [] from
    ⟨h.1, h.2, hD.closed_step hs hd.closed_eq,
      hD.sound.not_entering_step hs hd.closed_eq hd.not_entering⟩
  by_cases hop : ∃ t c o case r f, e = .op t c o case r f
  · obtain ⟨t, c, o, case, r, f, rfl⟩ := hop
    obtain ⟨haccepts, hreceives⟩ := hd.moves_nothing hD hpast hs
    have hhand := hD.hand_eq hs
    have hinput := (moves_of_step (step_of_op hs)).input_eq
    rw [hd.hand_eq, hreceives] at hhand
    rw [hd.input_eq, haccepts, hreceives] at hinput
    exact ⟨(List.append_eq_nil_iff.1 hhand.symm).2, hinput.symm⟩
  · obtain ⟨hbroker, hhand⟩ := hD.eq_of_not_op hs hop
    rw [hbroker, hhand]
    exact ⟨hd.hand_eq, hd.input_eq⟩

/-- The drain loop ends with everything forwarded. -/
theorem drained_of_default (hD : Delivers P d) {c : Unit} {case : Case} {f : Option Call}
    (hs : Pool.Step P (.op 0 c .drainSelect case .default f) P')
    (hnone : NoneLate d P (.op 0 c .drainSelect case .default f)) :
    Drained P' (d.update P (.op 0 c .drainSelect case .default f)) := by
  obtain ⟨g, hl⟩ := hs.op_live
  have hdraining : d.phase 0 = .draining := by
    have hok : (d.phase 0).Ok .drainSelect := hD.sound.obeying.ok hs
    revert hok
    cases d.phase 0 <;> first | exact fun _ ↦ rfl | exact fun hok ↦ hok.elim
  have hquit : P.state.broker.flags.quitClosed = true := by
    have hk := hD.sound.knows _ _ _ hl
    rw [hdraining] at hk
    exact hk.1
  have hclosed := hD.sound.ordered.closed_of_quit hquit
  refine ⟨?_, ?_, hD.closed_step hs hclosed, hD.sound.not_entering_step hs hclosed
    fun t c f ht ↦ hnone t ht.lt_length ht.alive⟩
  · have hhand : HandOk (d.hand 0) .drainSelect := hD.obeying.ok hs
    exact (Delivery.hand_op_self hl.lt_length).trans ((List.append_nil _).trans hhand)
  · exact input_eq_nil_of_default (step_of_op hs)

end Drained

/-- **What was accepted is delivered, if no `Send` is late.**  In every run in which no
`Send` is between its look at `closed` and its select when `run` ends its drain loop, once
`Close` has returned the notifications sent on the output channel are those that were
accepted, in their order. -/
theorem accepted_delivered (bufferSize : Nat) (P : Pool machine) (d : Delivery)
    (hr : Delivery.Run NoneLate bufferSize P d) (t : Nat) (c : Unit) (hl : P.Live t c .close)
    (hover : P.Over t) : P.state.broker.output = d.accepted := by
  obtain ⟨hD, hd⟩ : Delivers P d ∧ ((d.phase 0).past = true → Drained P d) := by
    refine Pool.Run.invariant (I := fun P d ↦ Delivers P d ∧ ((d.phase 0).past = true → Drained P d))
      ⟨delivers_started bufferSize, fun h ↦ by cases h⟩ ?_ hr
    rintro P d e P' ⟨hD, hd⟩ ⟨hask, hnone⟩ hs
    refine ⟨hD.step hs hask, fun hpast ↦ ?_⟩
    rcases hD.past_step hs hpast with hpast | ⟨c, case, f, rfl⟩
    · exact (hd hpast).step hD hpast hs
    · exact drained_of_default hD hs hnone
  -- `Close` has waited for `run`, which closed the input channel
  have hclosed : d.phase t = .closed := by
    obtain ⟨p, hp⟩ := id hl
    obtain ⟨a, rfl⟩ := hover _ p hp rfl
    have hexit : (d.phase t).Exit (.inl a) := hD.sound.obeying t _ _ hp rfl
    have hrole : (d.phase t).role = .closer := hD.sound.plays t c .close hl
    rcases hexit with h | h | h
    · rw [h] at hrole
      cases hrole
    · rw [h] at hrole
      cases hrole
    · exact h
  have hin : P.state.broker.flags.inputClosed = true := hD.sound.ordered.input_of_done
    (hD.sound.ordered.done_of_output (hD.output_closed t c _ hl hclosed))
  have hpast : (d.phase 0).past = true := by
    obtain ⟨g, hl, hrole⟩ := hD.runner
    exact Phase.past_of_knows ((hD.sound.plays 0 () g hl).trans hrole) (hD.sound.knows 0 () g hl) hin
  obtain ⟨hhand, hinput, -, -⟩ := hd hpast
  rw [hD.accepted_eq, hhand, hinput, List.append_nil, List.append_nil]

namespace Demo

/-- Where a schedule of a broker with one slot leads that satisfies `G`. -/
def delivery (G : Delivery → Pool machine → Event machine → Prop) [∀ d P e, Decidable (G d P e)]
    (ls : List (Pool.Label machine)) : Option (Pool machine × Delivery) :=
  Pool.schedule Delivery.update (fun d P e ↦ Asked P e ∧ G d P e) ls
    (started 1, ⟨fun _ ↦ .running, fun _ ↦ [], []⟩)

/-- The send is accepted before `Close` is called, and forwarded in the drain loop. -/
def deliveredInTime : Pool machine × Delivery :=
  (delivery NoneLate (racing ++ [.op 1 .input, .op 2 .input, .op 2 .input, .op 0 .quit, .again 0,
    .op 0 .input, .op 0 .input, .again 0, .op 0 .input, .op 0 .input, .op 0 .input, .op 2 .input,
    .op 2 .input])).get (by decide +kernel)

/-- The send is accepted after the drain loop has ended. -/
def acceptedLate : Pool machine × Delivery :=
  (delivery (fun _ _ _ ↦ True) (racing ++ [.op 2 .input, .op 2 .input, .op 0 .quit, .again 0,
    .op 0 .input, .op 1 .input, .op 0 .input, .op 0 .input, .op 2 .input, .op 2 .input])).get
      (by decide +kernel)

/-- The call is `Close`. -/
def isClose : Call → Bool
  | .close => true
  | _ => false

/-- Goroutine 2, if it passes the tests, is a `Close` that has returned. -/
theorem closed_of_isOver {P : Pool machine}
    (h : P.threads[2]?.any (fun th ↦ th.prog.isSome && isClose th.call) = true)
    (hover : P.isOver 2 = true) : P.Live 2 () .close ∧ P.Over 2 := by
  obtain ⟨c, f, hl, hclose⟩ := Pool.exists_live_of_any h
  cases f with
  | close => exact ⟨hl, Pool.over_of_isOver hover⟩
  | _ => cases hclose

end Demo

/-- A notification that is accepted in time is delivered. -/
theorem accepted_delivered_inTime :
    Demo.deliveredInTime.2.accepted.length = 1 ∧
      Demo.deliveredInTime.1.state.broker.output = Demo.deliveredInTime.2.accepted := by
  obtain ⟨hl, hover⟩ := Demo.closed_of_isOver (P := Demo.deliveredInTime.1)
    (by decide +kernel) (by decide +kernel)
  exact ⟨by decide +kernel, accepted_delivered 1 Demo.deliveredInTime.1 Demo.deliveredInTime.2
    (Pool.run_of_isSome _) 2 () hl hover⟩

/-- **A late notification is accepted and not delivered.**  Its `Send` passed the `closed`
flag before `Close` set it and comes to its select after `run` has ended its drain loop and
before it closes the input channel; `Close` returns, and the notification is left in the
input channel. -/
theorem accepted_not_delivered :
    Delivery.Run (fun _ _ _ ↦ True) 1 Demo.acceptedLate.1 Demo.acceptedLate.2 ∧
      Demo.acceptedLate.1.Live 2 () .close ∧ Demo.acceptedLate.1.Over 2 ∧
      Demo.acceptedLate.2.accepted.length = 1 ∧
      Demo.acceptedLate.1.state.broker.output = [] := by
  obtain ⟨hl, hover⟩ := Demo.closed_of_isOver (P := Demo.acceptedLate.1)
    (by decide +kernel) (by decide +kernel)
  exact ⟨Pool.run_of_isSome _, hl, hover, by decide +kernel, by decide +kernel⟩

end RedisStreamClient.Notifs.Broker

import RedisStreamClient.Lib.Fair
import RedisStreamClient.Notifs.Delivery

/-!
# `Close` returns

`Close` waits for `run`, and nothing makes `run` stop at once: its select may prefer the input
channel to `quit`, and its drain loop goes on until it finds the channel empty.  Meanwhile other
goroutines may call `Send` without end.

What brings it to an end is that `closed` is set before `quit` is closed.  A `Send` that comes
later goes away, so that only those that had passed the flag can still put something into the
channel.  Their number and the length of the channel together (`pressure`) never grow, and with
every receive they become less (`Closing.pressure_op`).

**`Close` returns** (`close_returns`) in every execution that is fair to `run` and to `Close`,
unless a late `Send` panics.  Nothing is asked of the senders or of the selects.
-/

namespace RedisStreamClient.Notifs.Broker

open RedisStreamClient.Lib

/-! ## Who closes -/

/-- `Close` has closed `quit`, if it was the one to do so. -/
def Phase.isPastQuit : Phase → Bool
  | .waiting | .waited | .closed => true
  | _ => false

/-- **What holds in every run with one `Close`.** -/
structure Closing (P : Pool machine) (d : Delivery) : Prop where
  /-- The broker delivers. -/
  delivers : Delivers P d
  /-- `closed` is set by `Close`. -/
  closed_by : P.state.broker.closed = true →
    ∃ t c f, P.Live t c f ∧ f.role = .closer ∧ d.phase t ≠ .closing
  /-- `Close` waits after it has closed `quit`. -/
  quit_of_wait : ∀ t c f, P.Live t c f → (d.phase t).isPastQuit = true →
    P.state.broker.quitClosed = true
  /-- `run` says when it is over. -/
  done_of_finished : ∀ t c f, P.Live t c f → d.phase t = .finished → P.state.broker.runDone = true

section Phases

variable {p : Phase} {o : Op}

/-- `Close` begins once. -/
theorem Phase.next_ne_closing (r : o.Reply) : p.next o r ≠ .closing := by
  cases o with
  | load => rcases r with _ | _ <;> exact Phase.noConfusion
  | runSelect => rcases r with _ | _ | _ <;> exact Phase.noConfusion
  | drainSelect => rcases r with (_ | _) | _ <;> exact Phase.noConfusion
  | compareAndSwap => rcases r with _ | _ <;> exact Phase.noConfusion
  | output m =>
    rw [Phase.next]
    split <;> exact Phase.noConfusion
  | _ => exact Phase.noConfusion

/-- `run` is over after `wg.Done`. -/
theorem Phase.eq_wgDone_of_finished {r : o.Reply} (h : p.next o r = .finished) : o = .wgDone := by
  cases o with
  | wgDone => rfl
  | load => rcases r with _ | _ <;> cases h
  | runSelect => rcases r with _ | _ | _ <;> cases h
  | drainSelect => rcases r with (_ | _) | _ <;> cases h
  | compareAndSwap => rcases r with _ | _ <;> cases h
  | output m =>
    rw [Phase.next] at h
    split at h <;> cases h
  | _ => cases h

/-- `Close` gets to its wait by closing `quit`, if it found `closed` unset. -/
theorem Phase.quit_next {f : Flags} {r : o.Reply} (hok : p.Ok o) (ht : Tells f o r)
    (hunset : p = .closing → f.closed = false) (hp : p.isPastQuit = true → f.quitClosed = true)
    (h : (p.next o r).isPastQuit = true) : (o.mark f).quitClosed = true := by
  cases p with
  | closing =>
    cases o <;> first | exact hok.elim | skip
    have hr : r = true := by rw [show r = !f.closed from ht, hunset rfl]; rfl
    subst hr
    cases h
  | swapped => cases o <;> first | exact hok.elim | rfl
  | waiting | waited | closed => cases o <;> first | exact hok.elim | exact hp rfl
  | sending => cases o <;> first | exact hok.elim | (rcases r with _ | _ <;> cases h)
  | running => cases o <;> first | exact hok.elim | (rcases r with _ | _ | _ <;> cases h)
  | draining => cases o <;> first | exact hok.elim | (rcases r with (_ | _) | _ <;> cases h)
  | forwarding drain => cases o <;> first | exact hok.elim | (cases drain <;> cases h)
  | _ => cases o <;> first | exact hok.elim | cases h

end Phases

section Track

variable {P : Pool machine} {γ : Nat → Phase} {e : Event machine} {t : Nat}

/-- The phase of the goroutine that moved. -/
theorem track_self {c : Unit} {o : Op} {case : Case} {r : o.Reply} {f : Option Call}
    (ht : t < P.threads.length) :
    contract.track γ P (.op t c o case r f) t = (γ t).next o r :=
  Contract.track_op_self (K := contract) ht

/-- The phase of a goroutine that did not move. -/
theorem track_of_ne (ht : t < P.threads.length) (hne : e.mover ≠ some t) :
    contract.track γ P e t = γ t :=
  Contract.track_of_mover_ne (K := contract) ht hne

/-- The phase of a goroutine that was started. -/
theorem track_new {c : Unit} {f : Call} (h : e.starts = some (c, f)) :
    contract.track γ P e P.threads.length = Phase.start f :=
  Contract.track_starts (K := contract) h

end Track

section Closing

variable {P P' : Pool machine} {d : Delivery} {e : Event machine}

theorem closing_started (bufferSize : Nat) :
    Closing (started bufferSize) ⟨fun _ ↦ .running, fun _ ↦ [], []⟩ :=
  ⟨delivers_started bufferSize, by simp [started, new], fun _ _ _ _ h ↦ Bool.noConfusion h,
    fun _ _ _ _ h ↦ Phase.noConfusion h⟩

/-- The quit channel stays closed. -/
theorem Sound.quitClosed_step {γ : Nat → Phase} (hS : Sound P γ) (hs : Pool.Step P e P')
    (h : P.state.broker.quitClosed = true) : P'.state.broker.quitClosed = true := by
  refine hS.flag_step hs Flags.quitClosed (fun o f h ↦ ?_) h
  cases o with
  | closeQuit => rfl
  | _ => exact h

/-- `run` stays over. -/
theorem Sound.runDone_step {γ : Nat → Phase} (hS : Sound P γ) (hs : Pool.Step P e P')
    (h : P.state.broker.runDone = true) : P'.state.broker.runDone = true := by
  refine hS.flag_step hs Flags.runDone (fun o f h ↦ ?_) h
  cases o with
  | wgDone => rfl
  | _ => exact h

/-- Whoever sets `closed` is in `Close`. -/
theorem Closing.closed_by_step (hC : Closing P d) (hs : Pool.Step P e P') (hask : Asked P e)
    (h : P'.state.broker.closed = true) :
    ∃ t c f, P'.Live t c f ∧ f.role = .closer ∧ (d.update P e).phase t ≠ .closing := by
  have hcrash : ∀ c, e ≠ .crash c := by
    rintro c rfl
    exact hask
  have hkeep : ∀ t c f, P.Live t c f → f.role = .closer →
      (e.mover ≠ some t → d.phase t ≠ .closing) →
        ∃ t c f, P'.Live t c f ∧ f.role = .closer ∧ (d.update P e).phase t ≠ .closing := by
    intro t c f hl hrole hphase
    refine ⟨t, c, f, hs.live_iff.2 (.inl ⟨hl, hcrash c⟩), hrole, ?_⟩
    show contract.track d.phase P e t ≠ .closing
    by_cases hm : e.mover = some t
    · cases e with
      | op t' c' o case r g =>
        obtain rfl : t' = t := Option.some.inj hm
        rw [track_self hl.lt_length]
        exact Phase.next_ne_closing r
      | _ => cases hm
    · rw [track_of_ne hl.lt_length hm]
      exact hphase hm
  by_cases hclosed : P.state.broker.closed = true
  · obtain ⟨t, c, f, hl, hrole, hphase⟩ := hC.closed_by hclosed
    exact hkeep t c f hl hrole fun _ ↦ hphase
  by_cases hop : ∃ t c o case r f, e = .op t c o case r f
  swap
  · rw [broker_eq hs fun t c o case r f heq ↦ hop ⟨t, c, o, case, r, f, heq⟩] at h
    exact absurd h hclosed
  obtain ⟨t, c, o, case, r, f, rfl⟩ := hop
  obtain ⟨g, hl⟩ := hs.op_live
  obtain ⟨-, -, hok, hout⟩ := hC.delivers.sound.outcome hs
  have hmark : (o.mark P.state.broker.flags).closed = true := by
    rw [← hout.flags_eq]
    exact h
  cases o with
  | compareAndSwap =>
    refine hkeep t c g hl ?_ fun hm ↦ absurd rfl hm
    rw [← hC.delivers.sound.plays _ _ _ hl]
    revert hok
    cases d.phase t <;> first | exact fun _ ↦ rfl | exact fun h ↦ h.elim
  | _ => exact absurd hmark hclosed

theorem Closing.step (hC : Closing P d) (hs : Pool.Step P e P') (hask : Asked P e) :
    Closing P' (d.update P e) := by
  have hS := hC.delivers.sound
  refine ⟨hC.delivers.step hs hask, hC.closed_by_step hs hask, ?_, ?_⟩
  · refine hS.obeying.each (K := contract)
      (I := fun _ _ p ↦ p.isPastQuit = true → P.state.broker.quitClosed = true)
      (Q := fun _ _ p ↦ p.isPastQuit = true → P'.state.broker.quitClosed = true) hs
      hC.quit_of_wait ?_ ?_ ?_
    · intro t c f _ _ _ h hp
      exact hS.quitClosed_step hs (h hp)
    · rintro t c f o case r g rfl hl hok - hp hnext
      obtain ⟨-, -, -, hout⟩ := hS.outcome hs
      show P'.state.broker.flags.quitClosed = true
      rw [hout.flags_eq]
      refine Phase.quit_next hok hout.tells (fun hclosing ↦ ?_) hp hnext
      -- there is no other `Close` that could have set it
      by_contra hset
      obtain ⟨u, c', f', hu, hrole, hphase⟩ := hC.closed_by (Bool.eq_true_of_not_eq_false hset)
      have hf : f.role = .closer := by
        rw [← hS.plays _ _ _ hl, hclosing]
        rfl
      obtain rfl := hS.single t u c c' f f' hl hu (hf.trans hrole.symm) (by simp [hf])
      exact hphase hclosing
    · intro c f _ hp
      cases f <;> cases hp
  · refine hS.obeying.each (K := contract)
      (I := fun _ _ p ↦ p = Phase.finished → P.state.broker.runDone = true)
      (Q := fun _ _ p ↦ p = Phase.finished → P'.state.broker.runDone = true) hs
      hC.done_of_finished ?_ ?_ ?_
    · intro t c f _ _ _ h hp
      exact hS.runDone_step hs (h hp)
    · rintro t c f o case r g rfl _ _ _ _ hp
      obtain rfl := Phase.eq_wgDone_of_finished hp
      obtain ⟨-, -, -, hout⟩ := hS.outcome hs
      show P'.state.broker.flags.runDone = true
      rw [hout.flags_eq]
      rfl
    · intro c f _ hp
      cases f <;> cases hp

end Closing

/-! ## What can still enter the input channel -/

/-- The sends that have passed the `closed` flag and not come to their select. -/
def entering (P : Pool machine) (γ : Nat → Phase) : Finset Nat :=
  (Finset.range P.threads.length).filter fun t ↦ γ t = .entering

/-- How much `run` may still have to receive, once `closed` is set. -/
def pressure (P : Pool machine) (γ : Nat → Phase) : Nat :=
  (entering P γ).card + P.state.broker.input.length

section Pressure

variable {P P' : Pool machine} {γ : Nat → Phase} {e : Event machine}

theorem mem_entering {t : Nat} :
    t ∈ entering P γ ↔ t < P.threads.length ∧ γ t = .entering := by
  rw [entering, Finset.mem_filter, Finset.mem_range]

/-- Who comes to its select was on its way. -/
theorem Sound.entering_subset (hS : Sound P γ) (hs : Pool.Step P e P')
    (hclosed : P.state.broker.closed = true) :
    entering P' (contract.track γ P e) ⊆ (entering P γ).filter fun t ↦ e.mover ≠ some t := by
  intro t ht
  obtain ⟨hlt, hphase⟩ := mem_entering.1 ht
  rcases hs.lt_or_starts hlt with hlt | ⟨rfl, c, f, hst⟩
  · by_cases hm : e.mover = some t
    · cases e with
      | op t' c o case r g =>
        obtain rfl : t' = t := Option.some.inj hm
        rw [track_self hlt] at hphase
        obtain rfl := Phase.eq_load_of_entering hphase
        obtain ⟨-, -, -, hout⟩ := hS.outcome hs
        have hr : r = true := Eq.trans hout.tells hclosed
        subst hr
        cases hphase
      | _ => cases hm
    · rw [track_of_ne hlt hm] at hphase
      exact Finset.mem_filter.2 ⟨mem_entering.2 ⟨hlt, hphase⟩, hm⟩
  · rw [track_new hst] at hphase
    cases f <;> cases hphase

/-- Only who is on its way to its select puts something into the input channel, and that once. -/
theorem Phase.length_accepts_le {p : Phase} {o : Op} (hok : p.Ok o) (inputClosed : Bool)
    (r : o.Reply) : (o.accepts inputClosed r).length ≤ if p = .entering then 1 else 0 := by
  cases o with
  | select ctx m =>
    have hp : p = .entering := by
      revert hok
      cases p <;> first | exact fun _ ↦ rfl | exact fun h ↦ h.elim
    rw [if_pos hp]
    cases r with
    | sent => cases inputClosed <;> simp [Op.accepts]
    | _ => simp [Op.accepts]
  | _ => simp [Op.accepts]

/-- **The pressure does not grow once `closed` is set**, and a receive lowers it. -/
theorem Sound.pressure_op (hS : Sound P γ) {t : Nat} {c : Unit} {o : Op} {case : Case} {r : o.Reply}
    {f : Option Call} (hs : Pool.Step P (.op t c o case r f) P')
    (hclosed : P.state.broker.closed = true) :
    pressure P' (contract.track γ P (.op t c o case r f)) + (o.receives r).length ≤
      pressure P γ := by
  obtain ⟨g, hl⟩ := hs.op_live
  have hsub := hS.entering_subset hs hclosed
  have hqueue := congrArg List.length (moves_of_step (step_of_op hs)).input_eq
  have haccepts := Phase.length_accepts_le (hS.obeying.ok hs) P.state.broker.inputClosed r
  rw [List.length_append, List.length_append] at hqueue
  -- who sends is no longer on its way
  have hcard : (entering P' (contract.track γ P (.op t c o case r f))).card +
      (if γ t = .entering then 1 else 0) ≤ (entering P γ).card := by
    split
    · next hent =>
      refine Finset.card_lt_card (Finset.ssubset_of_subset_of_ssubset hsub ?_)
      refine (Finset.filter_ssubset).2 ⟨t, ?_, fun h ↦ h rfl⟩
      exact mem_entering.2 ⟨hl.lt_length, hent⟩
    · exact Finset.card_le_card (hsub.trans (Finset.filter_subset _ _))
  unfold pressure
  omega

theorem Sound.pressure_le (hS : Sound P γ) (hs : Pool.Step P e P')
    (hclosed : P.state.broker.closed = true) :
    pressure P' (contract.track γ P e) ≤ pressure P γ := by
  by_cases hop : ∃ t c o case r f, e = .op t c o case r f
  · obtain ⟨t, c, o, case, r, f, rfl⟩ := hop
    exact (Nat.le_add_right _ _).trans (hS.pressure_op hs hclosed)
  · have hbroker := broker_eq hs fun t c o case r f h ↦ hop ⟨t, c, o, case, r, f, h⟩
    have hsub := (hS.entering_subset hs hclosed).trans (Finset.filter_subset _ _)
    unfold pressure
    rw [hbroker]
    exact Nat.add_le_add_right (Finset.card_le_card hsub) _

end Pressure

/-! ## What `run` has before it -/

/-- How far `run` is from its end, apart from what it still has to receive; `back` if it is about
to go round its loop. -/
def Phase.distance (back : Bool) : Phase → Nat
  | .forwarding false => 12
  | .running => if back then 11 else 10
  | .forwarding true => 6
  | .draining => if back then 5 else 4
  | .drained => 3
  | .leaving => 2
  | _ => 0

/-- Goroutine `t` is through with its turn. -/
def isBack (P : Pool machine) (t : Nat) : Bool :=
  match (P.threads[t]?).bind Thread.prog with
  | some (.ret _) => true
  | _ => false

/-- What `run` has before it. -/
def workload (P : Pool machine) (γ : Nat → Phase) : Nat :=
  13 * pressure P γ + (γ 0).distance (isBack P 0)

section Workload

variable {P P' : Pool machine} {γ : Nat → Phase} {d : Delivery} {e : Event machine}

theorem Phase.distance_le (back : Bool) (p : Phase) : p.distance back ≤ p.distance true := by
  cases back with
  | true => exact le_rfl
  | false =>
    cases p with
    | running | draining => exact Nat.le_succ _
    | forwarding drain => cases drain <;> exact Nat.le_refl _
    | _ => exact Nat.le_refl _

/-- A receive finds nothing only on a closed channel. -/
theorem inputClosed_of_takeInput {b b' : Broker} (h : b.takeInput = some (none, b')) :
    b.inputClosed = true := by
  unfold takeInput at h
  split at h
  · cases h
  · split at h
    · next hclosed => exact hclosed
    · cases h

/-- **Every operation of `run` brings it nearer to its end**, or receives something. -/
theorem Phase.distance_next {p : Phase} {o : Op} {r : o.Reply} {b b' : Broker} {done : Nat → Bool}
    {case : Case} (hrole : p.role = .runner) (hok : p.Ok o) (hk : p.Knows b.flags)
    (hs : step done o case b = some (r, b')) :
    (p.next o r).distance true < p.distance false + 13 * (o.receives r).length := by
  cases p with
  | running =>
    cases o <;> first | exact hok.elim | skip
    cases r with
    | quit => decide
    | recv m =>
      cases m with
      | some m => simp [Phase.next, Phase.distance, Op.receives]
      | none =>
        cases case with
        | input =>
          obtain ⟨⟨m, b₁⟩, htake, heq⟩ := Option.map_eq_some_iff.1 hs
          obtain ⟨hm, rfl⟩ := Prod.mk.inj heq
          cases hm
          exact absurd (inputClosed_of_takeInput htake) (ne_true_of_eq_false hk)
        | ctx => cases hs
        | quit =>
          simp only [step] at hs
          split at hs <;> cases hs
  | draining =>
    cases o <;> first | exact hok.elim | skip
    cases r with
    | default => decide
    | recv m =>
      cases m with
      | some m => simp [Phase.next, Phase.distance, Op.receives]
      | none =>
        simp only [step] at hs
        split at hs
        · next x htake =>
          obtain ⟨m, b₁⟩ := x
          obtain ⟨hm, rfl⟩ := Prod.mk.inj (Option.some.inj hs)
          cases hm
          exact absurd (inputClosed_of_takeInput htake) (ne_true_of_eq_false hk.2)
        · cases hs
  | forwarding drain =>
    cases o <;> first | exact hok.elim | (cases drain <;> simp [next, distance, Op.receives])
  | drained | leaving =>
    cases o <;> first | exact hok.elim | simp [next, distance, Op.receives]
  | finished => cases o <;> exact hok.elim
  | _ => cases hrole

/-- A turn of `run` begins with an operation. -/
theorem isBack_body {t : Nat} {c : Unit} {f g : Call}
    (h : P.threads[t]? = some ⟨c, f, some (body g)⟩) : isBack P t = false := by
  rw [isBack, h]
  cases g <;> rfl

/-- **What `run` does lowers what it has before it.** -/
theorem Closing.workload_lt (hC : Closing P d) (hs : Pool.Step P e P')
    (hclosed : P.state.broker.closed = true) (hm : e.Moves 0) :
    workload P' (d.update P e).phase < workload P d.phase := by
  have hS := hC.delivers.sound
  obtain ⟨f, hl, hrole⟩ := hC.delivers.runner
  obtain ⟨p, ht⟩ := id hl
  rcases hs.moves_cases ht hm with ⟨o, k, case, r, g, rfl, rfl, -, -⟩ | ⟨g, rfl, rfl, hnext⟩
  · have hpressure := hS.pressure_op hs hclosed
    have hdistance := Phase.distance_next (by rw [hS.plays _ _ _ hl, hrole]) (hS.obeying.ok hs)
      (hS.knows _ _ _ hl) (step_of_op hs)
    have hback : isBack P 0 = false := by rw [isBack, ht]; rfl
    have hphase : (d.update P (.op 0 () o case r g)).phase 0 = (d.phase 0).next o r := by
      show contract.track d.phase P (.op 0 () o case r g) 0 = _
      exact track_self hl.lt_length
    have hle := ((d.phase 0).next o r).distance_le (isBack P' 0)
    show 13 * pressure P' (contract.track d.phase P (.op 0 () o case r g)) +
      ((d.update P (.op 0 () o case r g)).phase 0).distance (isBack P' 0) < _
    rw [hphase, workload, hback]
    omega
  · have hpressure := hS.pressure_le hs hclosed
    have hexit : (d.phase 0).Exit (.inr g) := hS.obeying 0 _ _ ht rfl
    have hback : isBack P 0 = true := by rw [isBack, ht]; rfl
    have hdistance : (d.phase 0).distance false < (d.phase 0).distance true := by
      cases g with
      | run => rw [show d.phase 0 = .running from hexit]; decide
      | drain => rw [show d.phase 0 = .draining from hexit]; decide
      | _ => exact hexit.elim
    show 13 * pressure P' (contract.track d.phase P (.again 0)) +
      (d.phase 0).distance (isBack P' 0) < _
    rw [isBack_body hnext, workload, hback]
    omega

/-- What the others do does not add to it. -/
theorem Closing.workload_le (hC : Closing P d) (hs : Pool.Step P e P') (hask : Asked P e)
    (hclosed : P.state.broker.closed = true) (hm : ¬ e.Moves 0) :
    workload P' (d.update P e).phase ≤ workload P d.phase := by
  have hS := hC.delivers.sound
  obtain ⟨f, hl, -⟩ := hC.delivers.runner
  obtain ⟨p, ht⟩ := id hl
  have hlive : P'.Live 0 () f := hs.live_iff.2 (.inl ⟨hl, by rintro rfl; exact hask⟩)
  have hback : isBack P' 0 = isBack P 0 := by
    rcases hs.stays ht hm with h | h
    · rw [isBack, isBack, h, ht]
    · obtain ⟨p', hp'⟩ := hlive
      rw [hp'] at h
      cases h
  have hphase : (d.update P e).phase 0 = d.phase 0 :=
    track_of_ne hl.lt_length fun h ↦ hm (.inl h)
  have hpressure := hS.pressure_le hs hclosed
  show 13 * pressure P' (contract.track d.phase P e) +
    ((d.update P e).phase 0).distance (isBack P' 0) ≤ _
  rw [hphase, hback, workload]
  omega

end Workload

/-! ## What `Close` has before it -/

/-- How many operations of `Close` are left. -/
def Phase.ahead : Phase → Nat
  | .closing => 4
  | .swapped => 3
  | .waiting => 2
  | .waited => 1
  | _ => 0

section Ahead

variable {P P' : Pool machine} {γ : Nat → Phase} {e : Event machine} {t : Nat} {c : Unit} {f : Call}

theorem Phase.ahead_next {p : Phase} {o : Op} (hrole : p.role = .closer) (hok : p.Ok o)
    (r : o.Reply) : (p.next o r).ahead < p.ahead := by
  cases p with
  | closing => cases o <;> first | exact hok.elim | (rcases r with _ | _ <;> decide)
  | swapped | waiting | waited => cases o <;> first | exact hok.elim | exact Nat.lt_succ_self _
  | closed => cases o <;> exact hok.elim
  | _ => cases hrole

/-- `Close` gets on by what it does, and by nothing else. -/
theorem Sound.ahead_step (hS : Sound P γ) (hs : Pool.Step P e P') (hl : P.Live t c f)
    (hrole : f.role = .closer) :
    (contract.track γ P e t).ahead ≤ (γ t).ahead ∧
      (e.Moves t → (contract.track γ P e t).ahead < (γ t).ahead) := by
  have hcloser : (γ t).role = .closer := (hS.plays _ _ _ hl).trans hrole
  by_cases hm : e.mover = some t
  · cases e with
    | op t' c' o case r g =>
      obtain rfl : t' = t := Option.some.inj hm
      have hlt := Phase.ahead_next hcloser (hS.obeying.ok hs) r
      rw [track_self hl.lt_length]
      exact ⟨hlt.le, fun _ ↦ hlt⟩
    | _ => cases hm
  · rw [track_of_ne hl.lt_length hm]
    refine ⟨Nat.le_refl _, ?_⟩
    rintro (h | rfl)
    · exact absurd h hm
    · obtain ⟨p, ht⟩ := hl
      cases hs with
      | @again _ th g hu hp =>
        -- `Close` has no loop
        have hexit : (γ t).Exit (.inr g) := by
          have h := hS.obeying t _ _ hu hp
          exact h
        cases g with
        | run => rw [show γ t = .running from hexit] at hcloser; cases hcloser
        | drain => rw [show γ t = .draining from hexit] at hcloser; cases hcloser
        | _ => exact hexit.elim

end Ahead

/-! ## Who can move -/

section Ready

variable {P P' : Pool machine} {γ : Nat → Phase}

/-- Whoever is no longer held up by another goroutine. -/
def Phase.IsFree (f : Flags) : Phase → Prop
  | .running => f.quitClosed = true
  | .waiting => f.runDone = true
  | .entering | .sent | .finished | .closed => False
  | _ => True

/-- The drain loop never waits. -/
theorem exists_drainSelect {b : Broker} {done : Nat → Bool} {case : Case} :
    ∃ r b', step done .drainSelect case b = some (r, b') := by
  simp only [step]
  split <;> exact ⟨_, _, rfl⟩

/-- Such a goroutine can move. -/
theorem Sound.ready (hS : Sound P γ) {t : Nat} {c : Unit} {f : Call} (hl : P.Live t c f)
    (hcalm : P.state.broker.panicked = false) (hfree : (γ t).IsFree P.state.broker.flags) :
    P.Ready (fun _ ↦ True) t := by
  obtain ⟨p, ht⟩ := hl
  have hobeys : p.Obeys monitor () Phase.Exit (γ t) := hS.obeying t _ p ht rfl
  cases p with
  | ret a =>
    cases a with
    | inl a => rcases hobeys with h | h | h <;> exact (h ▸ hfree).elim
    | inr g => exact ⟨_, _, .again ht rfl, .inr rfl, trivial⟩
  | call o k =>
    have hexec : ∃ case r b, Broker.step P.state.done o case P.state.broker = some (r, b) := by
      have hok : (γ t).Ok o := hobeys.1
      revert hok hfree
      cases γ t with
      | running =>
        intro hquit hok
        cases o <;> first | exact hok.elim | skip
        exact ⟨.quit, _, _, if_pos hquit⟩
      | waiting =>
        intro hdone hok
        cases o <;> first | exact hok.elim | skip
        exact ⟨.quit, _, _, if_pos hdone⟩
      | draining =>
        intro _ hok
        cases o <;> first | exact hok.elim | skip
        exact ⟨.input, exists_drainSelect⟩
      | entering | sent | finished | closed => exact fun h ↦ h.elim
      | _ => intro _ hok; cases o <;> first | exact hok.elim | exact ⟨.input, _, _, rfl⟩
    obtain ⟨case, r, b, hx⟩ := hexec
    have hexec : machine.exec c o case P.state = some (r, { P.state with broker := b }, none) := by
      show Option.map _ (Broker.exec _ _ _ _) = _
      rw [exec_eq_some.2 ⟨hcalm, hx⟩]
      rfl
    exact ⟨_, _, .op ht rfl hexec, .inl rfl, trivial⟩

/-- In its last phase `Close` is over. -/
theorem Sound.isOver_of_closed (hS : Sound P γ) {t : Nat} {c : Unit} {f : Call}
    (hl : P.Live t c f) (h : γ t = .closed) : P.isOver t = true := by
  obtain ⟨p, ht⟩ := hl
  have hobeys : p.Obeys monitor () Phase.Exit (γ t) := hS.obeying t _ p ht rfl
  rw [h] at hobeys
  rw [Pool.isOver, ht]
  cases p with
  | ret a =>
    cases a with
    | inl a => rfl
    | inr g => cases g <;> cases hobeys
  | call o k => cases o <;> exact hobeys.1.elim

end Ready

/-! ## Executions -/

section Executions

/-- What is noted of an execution. -/
abbrev noted (E : Execution machine) : Nat → Delivery :=
  E.carry Delivery.update ⟨fun _ ↦ .running, fun _ ↦ [], []⟩

theorem closing_noted {bufferSize : Nat} {E : Execution machine}
    (h₀ : E.pool 0 = started bufferSize) (hask : ∀ n, Asked (E.pool n) (E.event n)) (n : Nat) :
    Closing (E.pool n) (noted E n) :=
  E.carry_invariant (by rw [h₀]; exact closing_started bufferSize)
    (fun n _ h ↦ h.step (E.step n) (hask n)) n

variable {E : Execution machine} {t N : Nat} (hC : ∀ n, Closing (E.pool n) (noted E n))
  (hcalm : ∀ n, N ≤ n → (E.pool n).state.broker.panicked = false)

include hC

/-- What `Close` has before it, at all times. -/
theorem ahead_noted (hlive : ∀ n, N ≤ n → (E.pool n).Live t () .close) {n : Nat} (hn : N ≤ n) :
    ((noted E (n + 1)).phase t).ahead ≤ ((noted E n).phase t).ahead ∧
      ((E.event n).Moves t → ((noted E (n + 1)).phase t).ahead < ((noted E n).phase t).ahead) :=
  (hC n).delivers.sound.ahead_step (E.step n) (hlive n hn) rfl

include hcalm

/-- `Close` closes `quit`. -/
theorem exists_quitClosed (hlive : ∀ n, N ≤ n → (E.pool n).Live t () .close)
    (hclose : E.Fair (fun _ ↦ True) t) :
    ∃ n, N ≤ n ∧ (E.pool n).state.broker.quitClosed = true := by
  refine Execution.exists_of_rank (fun n ↦ ((noted E n).phase t).ahead) hclose ?_
    (fun n hn _ _ ↦ (ahead_noted hC hlive hn).1) fun n hn _ _ ↦ (ahead_noted hC hlive hn).2
  intro n hn hnot
  refine (hC n).delivers.sound.ready (hlive n hn) (hcalm n hn) ?_
  have hrole := (hC n).delivers.sound.plays _ _ _ (hlive n hn)
  have hwait := (hC n).quit_of_wait _ _ _ (hlive n hn)
  revert hrole hwait
  cases (noted E n).phase t with
  | closing | swapped => exact fun _ _ ↦ trivial
  | waiting | waited | closed => exact fun _ hwait ↦ absurd (hwait rfl) hnot
  | _ => exact fun hrole ↦ Role.noConfusion hrole

/-- **`run` comes to its end**, once `quit` is closed. -/
theorem exists_finished (hask : ∀ n, Asked (E.pool n) (E.event n)) (hrun : E.Fair (fun _ ↦ True) 0)
    (hquit : (E.pool N).state.broker.quitClosed = true) :
    ∃ n, N ≤ n ∧ (noted E n).phase 0 = .finished := by
  have hquit : ∀ n, N ≤ n → (E.pool n).state.broker.quitClosed = true := by
    intro n hn
    induction n, hn using Nat.le_induction with
    | base => exact hquit
    | succ n _ ih => exact (hC n).delivers.sound.quitClosed_step (E.step n) ih
  have hclosed : ∀ n, N ≤ n → (E.pool n).state.broker.closed = true := fun n hn ↦
    (hC n).delivers.sound.ordered.closed_of_quit (hquit n hn)
  refine Execution.exists_of_rank (fun n ↦ workload (E.pool n) (noted E n).phase) hrun ?_ ?_
    fun n hn _ _ hm ↦ (hC n).workload_lt (E.step n) (hclosed n hn) hm
  · intro n hn hnot
    obtain ⟨f, hl, hrole⟩ := (hC n).delivers.runner
    refine (hC n).delivers.sound.ready hl (hcalm n hn) ?_
    have hrunner := ((hC n).delivers.sound.plays _ _ _ hl).trans hrole
    have hopen := hquit n hn
    revert hnot hrunner
    cases (noted E n).phase 0 with
    | running => exact fun _ _ ↦ hopen
    | draining | forwarding _ | drained | leaving => exact fun _ _ ↦ trivial
    | finished => exact fun hnot ↦ absurd rfl hnot
    | _ => exact fun _ hrunner ↦ Role.noConfusion hrunner
  · intro n hn _ _
    by_cases hm : (E.event n).Moves 0
    · exact ((hC n).workload_lt (E.step n) (hclosed n hn) hm).le
    · exact (hC n).workload_le (E.step n) (hask n) (hclosed n hn) hm

/-- `Close` comes to its end once `run` is over. -/
theorem exists_closed (hlive : ∀ n, N ≤ n → (E.pool n).Live t () .close)
    (hclose : E.Fair (fun _ ↦ True) t) (hfinished : (noted E N).phase 0 = .finished) :
    ∃ n, N ≤ n ∧ (noted E n).phase t = .closed := by
  have hdone : ∀ n, N ≤ n → (E.pool n).state.broker.runDone = true := by
    intro n hn
    induction n, hn using Nat.le_induction with
    | base =>
      obtain ⟨f, hl, -⟩ := (hC N).delivers.runner
      exact (hC N).done_of_finished _ _ _ hl hfinished
    | succ n _ ih => exact (hC n).delivers.sound.runDone_step (E.step n) ih
  refine Execution.exists_of_rank (fun n ↦ ((noted E n).phase t).ahead) hclose ?_
    (fun n hn _ _ ↦ (ahead_noted hC hlive hn).1) fun n hn _ _ ↦ (ahead_noted hC hlive hn).2
  intro n hn hnot
  refine (hC n).delivers.sound.ready (hlive n hn) (hcalm n hn) ?_
  have hrole := (hC n).delivers.sound.plays _ _ _ (hlive n hn)
  have hover := hdone n hn
  revert hnot hrole
  cases (noted E n).phase t with
  | closing | swapped | waited => exact fun _ _ ↦ trivial
  | waiting => exact fun _ _ ↦ hover
  | closed => exact fun hnot ↦ absurd rfl hnot
  | _ => exact fun _ hrole ↦ Role.noConfusion hrole

end Executions

/-- **`Close` returns**, unless a `Send` panics: the goroutine that called it is over and the
output channel is closed. -/
theorem close_returns (bufferSize : Nat) (E : Execution machine)
    (h₀ : E.pool 0 = started bufferSize) (hask : ∀ n, Asked (E.pool n) (E.event n)) {t N : Nat}
    (hl : (E.pool N).Live t () .close) (hrun : E.Fair (fun _ ↦ True) 0)
    (hclose : E.Fair (fun _ ↦ True) t) :
    ∃ m, N ≤ m ∧ (((E.pool m).isOver t = true ∧ (E.pool m).state.broker.outputClosed = true) ∨
      (E.pool m).state.broker.panicked = true) := by
  by_cases hpanic : ∃ m, N ≤ m ∧ (E.pool m).state.broker.panicked = true
  · obtain ⟨m, hm, hpanic⟩ := hpanic
    exact ⟨m, hm, .inr hpanic⟩
  have hcalm : ∀ m, N ≤ m → (E.pool m).state.broker.panicked = false := fun m hm ↦
    Bool.eq_false_of_not_eq_true fun h ↦ hpanic ⟨m, hm, h⟩
  have hlive : ∀ n, N ≤ n → (E.pool n).Live t () .close := by
    intro n hn
    induction n, hn using Nat.le_induction with
    | base => exact hl
    | succ n _ ih =>
      refine (E.step n).live_iff.2 (.inl ⟨ih, fun h ↦ ?_⟩)
      have hcrash := hask n
      rw [h] at hcrash
      exact hcrash
  have hC := closing_noted h₀ hask
  -- `Close` closes `quit`, then `run` comes to its end, then `Close`
  obtain ⟨n₁, h₁, hquit⟩ := exists_quitClosed hC hcalm hlive hclose
  obtain ⟨n₂, h₂, hfinished⟩ :=
    exists_finished hC (fun n hn ↦ hcalm n (h₁.trans hn)) hask hrun hquit
  obtain ⟨m, h₃, hend⟩ := exists_closed hC (fun n hn ↦ hcalm n ((h₁.trans h₂).trans hn))
    (fun n hn ↦ hlive n ((h₁.trans h₂).trans hn)) hclose hfinished
  have hm : N ≤ m := (h₁.trans h₂).trans h₃
  exact ⟨m, hm, .inl ⟨(hC m).delivers.sound.isOver_of_closed (hlive m hm) hend,
    (hC m).delivers.output_closed _ _ _ (hlive m hm) hend⟩⟩

namespace Demo

/-- A goroutine has passed the `closed` flag when `Close` is called.  It still puts its
notification into the input channel, and `run` prefers that to `quit`. -/
def awaiting : List (Pool.Label machine) :=
  racing ++ [.op 1 .input, .op 2 .input, .op 2 .input, .op 0 .input, .op 0 .input, .again 0,
    .op 0 .quit, .again 0, .op 0 .input, .op 0 .input, .op 0 .input, .op 2 .input, .op 2 .input]

/-- Then a context is cancelled, again and again. -/
def cancels (n : Nat) : Pool.Label machine := awaiting.getD n (.env 0)

theorem cancels_of_le {n : Nat} (hn : 16 ≤ n) : cancels n = .env 0 := by
  rw [cancels, List.getD_eq_getElem?_getD, List.getElem?_eq_none hn]
  rfl

/-- Every label of it is enabled. -/
theorem enabled_cancels (n : Nat) :
    ((Execution.along cancels (started 1) n).step? (cancels n)).isSome = true := by
  by_cases hn : n < 16
  · revert n
    decide +kernel
  · rw [cancels_of_le (by omega)]
    rfl

/-- The execution of that. -/
def closes : Execution machine :=
  .ofSchedule cancels (started 1) 0 fun n h ↦ absurd (enabled_cancels n) (by simp [h])

theorem asked_closes (n : Nat) : Asked (closes.pool n) (closes.event n) := by
  by_cases hn : n < 16
  · revert n
    decide +kernel
  · show Asked _ ((((Execution.along cancels (started 1) n).step? (cancels n)).map
      Prod.fst).getD (.env 0))
    rw [cancels_of_le (by omega)]
    trivial

end Demo

/-- A `Close` that waits for a send that is on its way. -/
theorem close_returns_closes :
    (Demo.closes.pool 3).isOver 2 = false ∧
      ∃ m, 3 ≤ m ∧ (((Demo.closes.pool m).isOver 2 = true ∧
        (Demo.closes.pool m).state.broker.outputClosed = true) ∨
          (Demo.closes.pool m).state.broker.panicked = true) :=
  ⟨by decide +kernel, close_returns 1 Demo.closes rfl Demo.asked_closes ⟨_, rfl⟩
    (Demo.closes.fair_of_isOver (n := 16) (by decide) (by decide +kernel))
    (Demo.closes.fair_of_isOver (n := 16) (by decide) (by decide +kernel))⟩

end RedisStreamClient.Notifs.Broker

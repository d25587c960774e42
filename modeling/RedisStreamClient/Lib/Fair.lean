import RedisStreamClient.Lib.Schedule

/-!
# Fair executions

An `Execution` goes on for ever.  It is fair to a thread (`Execution.Fair`) if the thread moves
at some time whenever it could move at all times.  Nothing is said about which case of a select
is taken, what a command meets, or how much the others do in between.  By which events a thread
could move is a parameter.  Where an operation that waits may also fail, a thread that waits could
always move, by a failure; fairness that forces no failure leaves these events out.

A thread that is to stop has to get through the code that is left of the turn of its loop, and
its loop has to end.  The first is an induction over the code, which is finite
(`Execution.exists_ret`).  Where an operation may block, the thread may also stand there for ever
(`Execution.Stuck`).  The second is a matter of what the operations reply.  `Prog.Halts` says both
of a program: it performs only operations of a given set, and whatever they may reply it ends in a
value that satisfies a postcondition.

**A thread whose next turn ends in a result is over at some time, or stuck**
(`Execution.exists_over`), and stays so (`Execution.isOver_mono`).  A loop that need not end in its
next turn is entered again and again unless it is over (`Execution.exists_again`), so that it ends
if it is bound to get a reply that ends it.  Where a loop ends because what it works on runs out, a
rank says so (`Execution.exists_of_rank`).
-/

namespace RedisStreamClient.Lib

variable {S : Sig}

namespace Prog

variable {A B : Type} {can : S.Op → Prop} {X : (o : S.Op) → S.Reply o → Prop} {Q : A → Prop}

/-- The program performs only operations that satisfy `can` and ends in a value that satisfies
`Q`, whatever the replies are that `X` lets its operations give. -/
def Halts (can : S.Op → Prop) (X : (o : S.Op) → S.Reply o → Prop) (Q : A → Prop) :
    Prog S A → Prop
  | .ret a => Q a
  | .call o k => can o ∧ ∀ r, X o r → (k r).Halts can X Q

/-- The postcondition may be weakened. -/
theorem Halts.mono {Q' : A → Prop} (h : ∀ a, Q a → Q' a) {p : Prog S A} (hp : p.Halts can X Q) :
    p.Halts can X Q' := by
  induction p with
  | ret a => exact h a hp
  | call o k ih => exact ⟨hp.1, fun r hr ↦ ih r (hp.2 r hr)⟩

/-- More operations may be allowed. -/
theorem Halts.allow {can' : S.Op → Prop} (h : ∀ o, can o → can' o) {p : Prog S A}
    (hp : p.Halts can X Q) : p.Halts can' X Q := by
  induction p with
  | ret a => exact hp
  | call o k ih => exact ⟨h o hp.1, fun r hr ↦ ih r (hp.2 r hr)⟩

/-- The rule for a callee. -/
theorem Halts.bind {Q' : B → Prop} {p : Prog S A} {f : A → Prog S B} (hp : p.Halts can X Q)
    (hf : ∀ a, Q a → (f a).Halts can X Q') : (p >>= f).Halts can X Q' := by
  induction p with
  | ret a => exact hf a hp
  | call o k ih => exact ⟨hp.1, fun r hr ↦ ih r (hp.2 r hr)⟩

/-- A program that obeys a monitor ends, in a value fit for one of the states it can be in, if
what is allowed in these states can run. -/
theorem Obeys.halts {O : Type} {M : Monitor S O} {c : O} {I : M.State → Prop}
    {R : M.State → A → Prop}
    (h : ∀ q o, I q → M.Ok c q o → can o ∧ ∀ r, X o r → I (M.next c q o r)) {p : Prog S A}
    {q : M.State} (hp : p.Obeys M c R q) (hq : I q) :
    p.Halts can X fun a ↦ ∃ q', I q' ∧ R q' a := by
  induction p generalizing q with
  | ret a => exact ⟨q, hq, hp⟩
  | call o k ih =>
    obtain ⟨ho, hnext⟩ := h q o hq hp.1
    exact ⟨ho, fun r hr ↦ ih r (hp.2 r) (hnext r hr)⟩

end Prog

/-! ## Threads that move -/

variable {M : Machine S}

/-- Thread `t` performs an operation or goes round its loop. -/
def Event.Moves (e : Event M) (t : Nat) : Prop := e.mover = some t ∨ e = .again t

namespace Pool

variable [DecidableEq M.Owner] {good : Event M → Prop} {P P' : Pool M} {e : Event M} {t : Nat}

/-- Thread `t` could move, by an event of `good`. -/
def Ready (good : Event M → Prop) (P : Pool M) (t : Nat) : Prop :=
  ∃ e P', Step P e P' ∧ e.Moves t ∧ good e

/-- A thread that does not move stays as it is, or is killed. -/
theorem Step.stays {th : Thread M} (hs : Step P e P') (ht : P.threads[t]? = some th)
    (hm : ¬ e.Moves t) :
    P'.threads[t]? = some th ∨ P'.threads[t]? = some { th with prog := none } := by
  have hlt : t < P.threads.length := (List.getElem?_eq_some_iff.1 ht).1
  cases hs with
  | @op u tu o k ch r s f hu hp hx =>
    have hne : t ≠ u := by
      rintro rfl
      exact hm (.inl rfl)
    exact .inl (by rw [getElem?_resume_of_ne hne hlt, ht])
  | @again u tu f hu hp =>
    have hne : t ≠ u := by
      rintro rfl
      exact hm (.inr rfl)
    exact .inl (by rw [getElem?_resume_of_ne hne hlt, ht])
  | start c f => exact .inl (by rw [List.getElem?_append_left hlt, ht])
  | env he => exact .inl ht
  | crash c =>
    rw [kill, List.getElem?_map, ht, Option.map_some]
    split
    · exact .inr rfl
    · exact .inl rfl

/-- What a thread that moves does: the operation it is at, or another turn. -/
theorem Step.moves_cases {c : M.Owner} {f : M.Call} {p : Prog S (M.Res ⊕ M.Call)}
    (hs : Step P e P') (ht : P.threads[t]? = some ⟨c, f, some p⟩) (hm : e.Moves t) :
    (∃ o k ch r g, e = .op t c o ch r g ∧ p = .call o k ∧
      M.exec c o ch P.state = some (r, P'.state, g) ∧
        P'.threads[t]? = some ⟨c, f, some (k r)⟩) ∨
      ∃ g, e = .again t ∧ p = .ret (.inr g) ∧
        P'.threads[t]? = some ⟨c, f, some (M.body c g)⟩ := by
  cases hs with
  | @op u tu o k ch r s g hu hp hx =>
    obtain rfl : u = t := by simpa [Event.Moves, Event.mover] using hm
    obtain rfl := Option.some.inj (ht.symm.trans hu)
    obtain rfl := Option.some.inj hp
    exact .inl ⟨o, k, ch, r, g, rfl, rfl, hx, getElem?_resume_self ht⟩
  | @again u tu g hu hp =>
    obtain rfl : u = t := by simpa [Event.Moves, Event.mover] using hm
    obtain rfl := Option.some.inj (ht.symm.trans hu)
    obtain rfl := Option.some.inj hp
    exact .inr ⟨g, rfl, rfl, getElem?_resume_self ht⟩
  | start c f => simp [Event.Moves, Event.mover] at hm
  | env he => simp [Event.Moves, Event.mover] at hm
  | crash c => simp [Event.Moves, Event.mover] at hm

/-- A computed operation has the choice of its label. -/
theorem step?_op {l : Label M} {c : M.Owner} {o : S.Op} {ch : M.Choice} {r : S.Reply o}
    {g : Option M.Call} (h : P.step? l = some (.op t c o ch r g, P')) : l = .op t ch := by
  cases l with
  | op u ch' =>
    simp only [step?] at h
    split at h
    · split at h
      · split at h
        · cases h
          rfl
        · cases h
      · cases h
    · cases h
  | again u =>
    simp only [step?] at h
    split at h
    · split at h <;> cases h
    · cases h
  | start c f => cases h
  | env e =>
    obtain ⟨s, -, hs⟩ := Option.map_eq_some_iff.1 h
    cases hs
  | crash c => cases h

/-- A thread that is over does not move. -/
theorem not_ready_of_isOver (h : P.isOver t = true) : ¬ P.Ready good t := by
  rintro ⟨e, P', hs, hm, -⟩
  cases hs with
  | @op u th o k ch r s g hu hp hx =>
    obtain rfl : u = t := by simpa [Event.Moves, Event.mover] using hm
    rw [isOver_of_op (.op hu hp hx)] at h
    cases h
  | @again u th g hu hp =>
    obtain rfl : u = t := by simpa [Event.Moves, Event.mover] using hm
    rw [isOver, hu, Option.bind_some, hp] at h
    cases h
  | start c f => simp [Event.Moves, Event.mover] at hm
  | env he => simp [Event.Moves, Event.mover] at hm
  | crash c => simp [Event.Moves, Event.mover] at hm

end Pool

/-! ## Executions -/

/-- An infinite execution. -/
structure Execution (M : Machine S) [DecidableEq M.Owner] where
  /-- The pool before each step. -/
  pool : Nat → Pool M
  /-- What happens in each step. -/
  event : Nat → Event M
  /-- Each step is one. -/
  step : ∀ n, Pool.Step (pool n) (event n) (pool (n + 1))

namespace Execution

variable [DecidableEq M.Owner] (E : Execution M) {good : Event M → Prop}

/-- Thread `t` moves at some time if at all times from then on it could move by an event of
`good`. -/
def Fair (good : Event M → Prop) (t : Nat) : Prop :=
  ∀ n, (∀ m, n ≤ m → (E.pool m).Ready good t) → ∃ m, n ≤ m ∧ (E.event m).Moves t

/-- What an operation of the execution did. -/
theorem op_exec {n t : Nat} {c : M.Owner} {o : S.Op} {ch : M.Choice} {r : S.Reply o}
    {g : Option M.Call} (h : E.event n = .op t c o ch r g) :
    M.exec c o ch (E.pool n).state = some (r, (E.pool (n + 1)).state, g) := by
  have hs := E.step n
  rw [h] at hs
  exact hs.op_exec

/-- What every step keeps is kept. -/
theorem mono {I : Pool M → Prop} (h : ∀ P e P', Pool.Step P e P' → I P → I P') {n m : Nat}
    (hnm : n ≤ m) (hn : I (E.pool n)) : I (E.pool m) := by
  induction hnm with
  | refl => exact hn
  | step _ ih => exact h _ _ _ (E.step _) ih

/-- What is noted along the way, as in a run. -/
def carry {Γ : Type} (upd : Γ → Pool M → Event M → Γ) (γ : Γ) : Nat → Γ
  | 0 => γ
  | n + 1 => upd (carry upd γ n) (E.pool n) (E.event n)

/-- The invariant rule for executions. -/
theorem carry_invariant {Γ : Type} {upd : Γ → Pool M → Event M → Γ} {γ : Γ}
    {I : Pool M → Γ → Prop} (h₀ : I (E.pool 0) γ)
    (hstep : ∀ n γ, I (E.pool n) γ → I (E.pool (n + 1)) (upd γ (E.pool n) (E.event n))) (n : Nat) :
    I (E.pool n) (E.carry upd γ n) := by
  induction n with
  | zero => exact h₀
  | succ n ih => exact hstep n _ ih

/-- **The threads of an execution obey their contract**, each in a state that satisfies what the
contract keeps for its call. -/
theorem exists_obeying {K : Contract M} {I : M.Owner → M.Call → K.State → Prop} (q₀ : K.State)
    (h₀ : (E.pool 0).threads = []) (init : ∀ c f, I c f (K.init c f))
    (next : ∀ c f q o r, K.Ok c q o → I c f q → I c f (K.next c q o r)) (n : Nat) :
    ∃ q, K.Obeying (E.pool n) q ∧ ∀ t c f, (E.pool n).Live t c f → I c f (q t) := by
  refine E.mono (I := fun P ↦ ∃ q, K.Obeying P q ∧ ∀ t c f, P.Live t c f → I c f (q t)) ?_
    n.zero_le ⟨fun _ ↦ q₀, ?_, ?_⟩
  · rintro P e P' hs ⟨q, hq, hI⟩
    refine ⟨K.track q P e, hq.step hs, hq.each hs hI (fun _ _ _ _ _ _ h ↦ h) ?_ fun c f _ ↦ init c f⟩
    intro t c f o ch r g _ _ hok _ h
    exact next c f _ o r hok h
  · intro t th p ht
    simp [h₀] at ht
  · rintro t c f ⟨p, ht⟩
    simp [h₀] at ht

/-- A thread that is over stays so. -/
theorem isOver_mono {t n m : Nat} (hnm : n ≤ m) (ht : t < (E.pool n).threads.length)
    (h : (E.pool n).isOver t = true) : (E.pool m).isOver t = true := by
  refine (E.mono (I := fun P ↦ t < P.threads.length ∧ P.isOver t = true) ?_ hnm ⟨ht, h⟩).2
  rintro P e P' hs ⟨hlt, hover⟩
  refine ⟨hlt.trans_le hs.length_le, ?_⟩
  by_contra hnot
  rw [Pool.isOver_step hs hlt (Bool.eq_false_of_not_eq_true hnot)] at hover
  cases hover

/-- An execution is fair to a thread that it runs to its end. -/
theorem fair_of_isOver {t n : Nat} (ht : t < (E.pool n).threads.length)
    (h : (E.pool n).isOver t = true) : E.Fair good t := by
  intro k hready
  have hover : (E.pool (max n k)).isOver t = true := E.isOver_mono (le_max_left n k) ht h
  exact absurd (hready _ (le_max_right n k)) (Pool.not_ready_of_isOver hover)

/-! ## Following a schedule -/

section Along

variable (ls : Nat → Pool.Label M) (P : Pool M)

/-- The pools along an infinite schedule.  A label that is not enabled is passed over. -/
def along : Nat → Pool M
  | 0 => P
  | n + 1 => (((along n).step? (ls n)).map Prod.snd).getD (along n)

/-- The execution along an infinite schedule.  For a label that is not enabled the environment
makes a step that changes nothing. -/
def ofSchedule (idle : M.Env) (hidle : ∀ n, (along ls P n).step? (ls n) = none →
    M.env idle (along ls P n).state = some (along ls P n).state) : Execution M where
  pool := along ls P
  event n := (((along ls P n).step? (ls n)).map Prod.fst).getD (.env idle)
  step n := by
    rw [along]
    cases h : (along ls P n).step? (ls n) with
    | none => exact .env (hidle n h)
    | some x => exact Pool.step?_step h

variable {ls P}

/-- A schedule that comes back to a pool repeats itself. -/
theorem along_add_period {k d : Nat} (hls : ∀ n, k ≤ n → ls (n + d) = ls n)
    (hP : along ls P (k + d) = along ls P k) {n : Nat} (hn : k ≤ n) :
    along ls P (n + d) = along ls P n := by
  induction n, hn using Nat.le_induction with
  | base => exact hP
  | succ n hn ih => rw [Nat.succ_add, along, along, ih, hls n hn]

/-- What holds up to the end of the first period holds for ever. -/
theorem along_of_period {I : Pool M → Prop} {k d : Nat} (hd : 0 < d)
    (hls : ∀ n, k ≤ n → ls (n + d) = ls n) (hP : along ls P (k + d) = along ls P k) {N : Nat}
    (h : ∀ n, N ≤ n → n < k + d → I (along ls P n)) (hN : N ≤ k) (n : Nat) (hn : N ≤ n) :
    I (along ls P n) := by
  induction n using Nat.strong_induction_on with
  | _ n ih =>
    rcases lt_or_ge n (k + d) with hlt | hge
    · exact h n hn hlt
    · obtain ⟨m, rfl⟩ := Nat.exists_eq_add_of_le' (show d ≤ n by omega)
      rw [along_add_period hls hP (by omega)]
      exact ih m (by omega) (by omega)

variable {idle : M.Env} {hidle : ∀ n, (along ls P n).step? (ls n) = none →
  M.env idle (along ls P n).state = some (along ls P n).state}

/-- The choices of an execution along a schedule are those of the schedule. -/
theorem ofSchedule_op {n t : Nat} {c : M.Owner} {o : S.Op} {ch : M.Choice} {r : S.Reply o}
    {g : Option M.Call} (h : (ofSchedule ls P idle hidle).event n = .op t c o ch r g) :
    ls n = .op t ch := by
  replace h : (((along ls P n).step? (ls n)).map Prod.fst).getD (.env idle) = .op t c o ch r g := h
  cases hx : (along ls P n).step? (ls n) with
  | none => simp [hx] at h
  | some x =>
    obtain ⟨e, Q⟩ := x
    obtain rfl : e = .op t c o ch r g := by simpa [hx] using h
    exact Pool.step?_op hx

/-- An execution that moves a thread again and again is fair to it. -/
theorem fair_of_period {k d t : Nat} (hd : 0 < d) (hls : ∀ n, k ≤ n → ls (n + d) = ls n)
    (hP : along ls P (k + d) = along ls P k)
    (ht : ((ofSchedule ls P idle hidle).event k).Moves t) :
    (ofSchedule ls P idle hidle).Fair good t := by
  have hagain : ∀ j, ((ofSchedule ls P idle hidle).event (k + j * d)).Moves t := by
    intro j
    induction j with
    | zero => simpa using ht
    | succ j ih =>
      have hk : k ≤ k + j * d := Nat.le_add_right _ _
      have heq : (ofSchedule ls P idle hidle).event (k + j * d + d) =
          (ofSchedule ls P idle hidle).event (k + j * d) := by
        simp only [ofSchedule, along_add_period hls hP hk, hls _ hk]
      rw [Nat.succ_mul, ← Nat.add_assoc, heq]
      exact ih
  intro n _
  exact ⟨k + n * d, (Nat.le_mul_of_pos_right n hd).trans (Nat.le_add_left _ _), hagain n⟩

end Along

/-! ## Threads that end -/

/-- Thread `t` was killed. -/
def Killed (n t : Nat) : Prop := ∃ th, (E.pool n).threads[t]? = some th ∧ th.prog = none

/-- Thread `t`, the call `f` of `c`, stands at `o` from time `n` on, and again and again it could
not move by an event of `good`. -/
structure Stuck (good : Event M → Prop) (n t : Nat) (c : M.Owner) (f : M.Call) (o : S.Op) :
    Prop where
  /-- It stands at `o`. -/
  stands : ∃ k, ∀ m, n ≤ m → (E.pool m).threads[t]? = some ⟨c, f, some (.call o k)⟩
  /-- It could not move. -/
  not_ready : ∀ m, n ≤ m → ∃ l, m ≤ l ∧ ¬ (E.pool l).Ready good t

/-- Thread `t` has come to rest at time `n`: it is over, or stuck at an operation of `stall`. -/
def Rests (good : Event M → Prop) (stall : S.Op → Prop) (n t : Nat) (c : M.Owner) (f : M.Call) :
    Prop :=
  (E.pool n).isOver t = true ∨ ∃ o, stall o ∧ E.Stuck good n t c f o

variable {E}

theorem Killed.isOver {n t : Nat} (h : E.Killed n t) : (E.pool n).isOver t = true := by
  obtain ⟨th, ht, hp⟩ := h
  rw [Pool.isOver, ht, Option.bind_some, hp]

/-- Where nothing may block, a thread that has come to rest is over. -/
theorem Rests.isOver {n t : Nat} {c : M.Owner} {f : M.Call}
    (h : E.Rests good (fun _ ↦ False) n t c f) : (E.pool n).isOver t = true := by
  rcases h with h | ⟨o, ho, -⟩
  · exact h
  · exact ho.elim

/-- **A thread that does not move, although it could, is stuck.** -/
theorem exists_moves {t n : Nat} {c : M.Owner} {f : M.Call} {p : Prog S (M.Res ⊕ M.Call)}
    (hfair : E.Fair good t) (hagain : good (.again t))
    (ht : (E.pool n).threads[t]? = some ⟨c, f, some p⟩) (hp : ∀ a, p ≠ .ret (.inl a)) :
    (∃ m, n ≤ m ∧ (E.Killed m t ∨
      ((E.pool m).threads[t]? = some ⟨c, f, some p⟩ ∧ (E.event m).Moves t))) ∨
      ∃ o k, p = .call o k ∧ E.Stuck good n t c f o := by
  by_contra! hnever
  obtain ⟨hmoves, hstuck⟩ := hnever
  -- then the thread stands where it is at all times
  have hstands : ∀ m, n ≤ m → (E.pool m).threads[t]? = some ⟨c, f, some p⟩ := by
    intro m hm
    induction m, hm using Nat.le_induction with
    | base => exact ht
    | succ m hm ih =>
      rcases (E.step m).stays ih ((hmoves m hm).2 ih) with h | h
      · exact h
      · exact absurd ⟨_, h, rfl⟩ (hmoves (m + 1) (hm.trans m.le_succ)).1
  have hidle : ∀ m, n ≤ m → ¬ (E.event m).Moves t := fun m hm ↦ (hmoves m hm).2 (hstands m hm)
  have hrests : ∀ m, n ≤ m → ∃ l, m ≤ l ∧ ¬ (E.pool l).Ready good t := by
    intro m hm
    by_contra! hready
    obtain ⟨l, hl, hmove⟩ := hfair m hready
    exact hidle l (hm.trans hl) hmove
  cases p with
  | ret a =>
    cases a with
    | inl a => exact hp a rfl
    | inr g =>
      obtain ⟨l, hl, hnot⟩ := hrests n le_rfl
      exact hnot ⟨_, _, .again (hstands l hl) rfl, .inr rfl, hagain⟩
  | call o k => exact hstuck o k rfl ⟨⟨k, hstands⟩, hrests⟩

section

variable {t N : Nat} {c : M.Owner} {f : M.Call} {can stall : S.Op → Prop}
  {X : (o : S.Op) → S.Reply o → Prop} (hfair : E.Fair good t) (hagain : good (.again t))
  (hcan : ∀ n, N ≤ n → (E.pool n).Live t c f → ∀ o, can o → stall o ∨
    ∃ ch r s g, M.exec c o ch (E.pool n).state = some (r, s, g) ∧ good (.op t c o ch r g))
  (hX : ∀ n, N ≤ n → (E.pool n).Live t c f → ∀ o ch r g, E.event n = .op t c o ch r g → X o r)

include hfair hagain hcan hX

/-- **A thread gets through its code**, unless it gets stuck. -/
theorem exists_ret {Q : M.Res ⊕ M.Call → Prop} {n : Nat} {p : Prog S (M.Res ⊕ M.Call)}
    (hn : N ≤ n) (ht : (E.pool n).threads[t]? = some ⟨c, f, some p⟩) (hp : p.Halts can X Q) :
    ∃ m, n ≤ m ∧ (E.Rests good stall m t c f ∨
      ∃ a, Q a ∧ (E.pool m).threads[t]? = some ⟨c, f, some (.ret a)⟩) := by
  induction p generalizing n with
  | ret a => exact ⟨n, le_rfl, .inr ⟨a, hp, ht⟩⟩
  | call o k ih =>
    rcases exists_moves hfair hagain ht (by simp) with
      ⟨m, hm, hkilled | ⟨ht', hmoves⟩⟩ | ⟨o', k', h, hstuck⟩
    · exact ⟨m, hm, .inl (.inl hkilled.isOver)⟩
    · rcases (E.step m).moves_cases ht' hmoves with ⟨o', k', ch, r, g, he, h, -, hnext⟩ | ⟨g, -, h, -⟩
      · cases h
        have hr : X o r := hX m (hn.trans hm) ⟨_, ht'⟩ o ch r g he
        obtain ⟨m', hm', hend⟩ := ih r ((hn.trans hm).trans m.le_succ) hnext (hp.2 r hr)
        exact ⟨m', (hm.trans m.le_succ).trans hm', hend⟩
      · cases h
    · cases h
      refine ⟨n, le_rfl, .inl (.inr ⟨o, ?_, hstuck⟩)⟩
      -- it is not stuck at an operation that can run
      obtain ⟨l, hl, hnot⟩ := hstuck.not_ready n le_rfl
      obtain ⟨k', hstands⟩ := hstuck.stands
      rcases hcan l (hn.trans hl) ⟨_, hstands l hl⟩ o hp.1 with hstall | ⟨ch, r, s, g, hx, hgood⟩
      · exact hstall
      · exact absurd ⟨_, _, .op (hstands l hl) rfl hx, .inl rfl, hgood⟩ hnot

/-- A thread that has not come to rest when it gets through its code is at the head of its loop
again. -/
theorem exists_again {Q : M.Res ⊕ M.Call → Prop} {n : Nat} {p : Prog S (M.Res ⊕ M.Call)}
    (hn : N ≤ n) (ht : (E.pool n).threads[t]? = some ⟨c, f, some p⟩) (hp : p.Halts can X Q) :
    ∃ m, n ≤ m ∧ (E.Rests good stall m t c f ∨
      ∃ g, Q (.inr g) ∧ (E.pool m).threads[t]? = some ⟨c, f, some (M.body c g)⟩) := by
  obtain ⟨m, hm, hrests | ⟨a, ha, ht'⟩⟩ := exists_ret hfair hagain hcan hX hn ht hp
  · exact ⟨m, hm, .inl hrests⟩
  cases a with
  | inl a => exact ⟨m, hm, .inl (.inl (by rw [Pool.isOver, ht']; rfl))⟩
  | inr g =>
    rcases exists_moves hfair hagain ht' (by simp) with
      ⟨k, hk, hkilled | ⟨ht'', hmoves⟩⟩ | ⟨o, k, h, -⟩
    · exact ⟨k, hm.trans hk, .inl (.inl hkilled.isOver)⟩
    · rcases (E.step k).moves_cases ht'' hmoves with ⟨o, k', _, _, _, -, h, -⟩ | ⟨g', -, h, hnext⟩
      · cases h
      · cases h
        exact ⟨k + 1, (hm.trans hk).trans k.le_succ, .inr ⟨g, ha, hnext⟩⟩
    · cases h

/-- **A thread whose next turn ends in a result comes to rest at some time.** -/
theorem exists_over {n : Nat} {p : Prog S (M.Res ⊕ M.Call)} (hn : N ≤ n)
    (ht : (E.pool n).threads[t]? = some ⟨c, f, some p⟩)
    (hp : p.Halts can X fun a ↦ ∀ g, a = .inr g →
      (M.body c g).Halts can X fun a ↦ a.isLeft = true) :
    ∃ m, n ≤ m ∧ E.Rests good stall m t c f := by
  obtain ⟨m, hm, hrests | ⟨g, hg, ht'⟩⟩ := exists_again hfair hagain hcan hX hn ht hp
  · exact ⟨m, hm, hrests⟩
  obtain ⟨k, hk, hrests | ⟨g', hg', -⟩⟩ :=
    exists_again hfair hagain hcan hX (hn.trans hm) ht' (hg g rfl)
  · exact ⟨k, hm.trans hk, hrests⟩
  · cases hg'

end

/-- **A goal is reached if a fair thread works towards it**: it can move until then, what it does
lowers a rank, and what the others do never raises it. -/
theorem exists_of_rank {t N : Nat} {goal : Nat → Prop} (rank : Nat → Nat) (hfair : E.Fair good t)
    (hready : ∀ n, N ≤ n → ¬ goal n → (E.pool n).Ready good t)
    (hle : ∀ n, N ≤ n → ¬ goal n → ¬ goal (n + 1) → rank (n + 1) ≤ rank n)
    (hlt : ∀ n, N ≤ n → ¬ goal n → ¬ goal (n + 1) → (E.event n).Moves t →
      rank (n + 1) < rank n) :
    ∃ n, N ≤ n ∧ goal n := by
  by_contra! hnever
  -- every rank is too low, by induction on it
  suffices h : ∀ r n, N ≤ n → r ≤ rank n from
    absurd (h (rank N + 1) N le_rfl) (by omega)
  intro r
  induction r with
  | zero => exact fun _ _ ↦ Nat.zero_le _
  | succ r ih =>
    intro n hn
    obtain ⟨m, hm, hmoves⟩ := hfair n fun m hm ↦ hready m (hn.trans hm) (hnever m (hn.trans hm))
    have hnm : rank m ≤ rank n := by
      clear hmoves
      induction m, hm using Nat.le_induction with
      | base => exact le_rfl
      | succ m hm ih' =>
        exact (hle m (hn.trans hm) (hnever _ (hn.trans hm))
          (hnever _ ((hn.trans hm).trans m.le_succ))).trans ih'
    have hm' : N ≤ m := hn.trans hm
    have hnext := hlt m hm' (hnever m hm') (hnever _ (hm'.trans m.le_succ)) hmoves
    have hr := ih (m + 1) (hm'.trans m.le_succ)
    omega

end Execution

end RedisStreamClient.Lib

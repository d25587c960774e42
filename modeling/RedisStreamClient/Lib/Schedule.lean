import RedisStreamClient.Lib.Pool

/-!
# Executable schedules

`Step` is a relation.  A `Label` names one step of it with its choice, `step?`
computes that step, and `schedule` a whole list of them, checking a decidable
guard on the way.  `schedule_run` turns a computed schedule into a run, so that a
run on a concrete pool is exhibited by evaluation.  A guard that holds of all events but some is
decided by picking these out (`decidableOn`).
-/

namespace RedisStreamClient.Lib.Pool

variable {S : Sig} {M : Machine S}

/-- One step of the scheduler. -/
inductive Label (M : Machine S)
  | /-- Thread `t` performs its next operation. -/
    op (t : Nat) (ch : M.Choice)
  | /-- Thread `t` goes round its loop. -/
    again (t : Nat)
  | /-- `c` starts a call. -/
    start (c : M.Owner) (f : M.Call)
  | /-- The environment moves. -/
    env (e : M.Env)
  | /-- `c` crashes. -/
    crash (c : M.Owner)

/-- A condition on the events that `pick` picks out, which holds of all others, is decidable. -/
@[reducible] def decidableOn {A : Type} {G : Event M → Prop} (pick : Event M → Option A)
    (φ : A → Prop) [DecidablePred φ] (h : ∀ e, G e ↔ ∀ a ∈ pick e, φ a) : DecidablePred G :=
  fun e ↦ decidable_of_iff' _ (h e)

variable [DecidableEq M.Owner]

/-- The step a label names, if it is enabled. -/
def step? (P : Pool M) : Label M → Option (Event M × Pool M)
  | .op t ch =>
    match P.threads[t]? with
    | some th =>
      match th.prog with
      | some (.call o k) =>
        match M.exec th.owner o ch P.state with
        | some (r, s, f) => some (.op t th.owner o ch r f, ⟨s, P.resume t th (k r) f⟩)
        | none => none
      | _ => none
    | none => none
  | .again t =>
    match P.threads[t]? with
    | some th =>
      match th.prog with
      | some (.ret (.inr f)) => some (.again t, ⟨P.state, P.resume t th (M.body th.owner f) none⟩)
      | _ => none
    | none => none
  | .start c f => some (.start c f, ⟨P.state, P.threads ++ [fresh c f]⟩)
  | .env e => (M.env e P.state).map fun s ↦ (.env e, ⟨s, P.threads⟩)
  | .crash c => some (.crash c, ⟨M.crash c P.state, P.kill c⟩)

/-- A computed step is a step. -/
theorem step?_step {P P' : Pool M} {l : Label M} {e : Event M} (h : P.step? l = some (e, P')) :
    Step P e P' := by
  cases l with
  | op t ch =>
    simp only [step?] at h
    split at h
    · next th ht =>
      split at h
      · next o k hp =>
        split at h
        · next r s f hx =>
          obtain ⟨rfl, rfl⟩ := Prod.mk.inj (Option.some.inj h)
          exact .op ht hp hx
        · simp at h
      · simp at h
    · simp at h
  | again t =>
    simp only [step?] at h
    split at h
    · next th ht =>
      split at h
      · next f hp =>
        obtain ⟨rfl, rfl⟩ := Prod.mk.inj (Option.some.inj h)
        exact .again ht hp
      · simp at h
    · simp at h
  | start c f =>
    obtain ⟨rfl, rfl⟩ := Prod.mk.inj (Option.some.inj h)
    exact .start c f
  | env e' =>
    obtain ⟨s, hs, he⟩ := Option.map_eq_some_iff.1 h
    obtain ⟨rfl, rfl⟩ := Prod.mk.inj he
    exact .env hs
  | crash c =>
    obtain ⟨rfl, rfl⟩ := Prod.mk.inj (Option.some.inj h)
    exact .crash c

/-- A computed step that passes a test is a step that passes it. -/
theorem exists_step_of_any {P : Pool M} {l : Label M} {test : Event M × Pool M → Bool}
    (h : (P.step? l).any test = true) : ∃ e P', Step P e P' ∧ test (e, P') = true := by
  cases hp : P.step? l with
  | none => simp [hp] at h
  | some p => exact ⟨p.1, p.2, step?_step hp, by simpa [hp] using h⟩

/-- Whether a thread is over, computed. -/
def isOver (P : Pool M) (t : Nat) : Bool :=
  match P.threads[t]?.bind (·.prog) with
  | some (.ret (.inl _)) | none => true
  | some (.ret (.inr _)) | some (.call _ _) => false

/-- A thread that is over does not move, and stays over. -/
theorem isOver_step {P P' : Pool M} {e : Event M} {t : Nat} (hs : Step P e P')
    (ht : t < P.threads.length) (h : P'.isOver t = false) : P.isOver t = false := by
  rw [isOver] at h ⊢
  cases hs with
  | @op u th o k ch r s f hu hp hx =>
    by_cases htu : t = u
    · subst htu
      rw [hu, Option.bind_some, hp]
    · rwa [getElem?_resume_of_ne htu ht] at h
  | @again u th f hu hp =>
    by_cases htu : t = u
    · subst htu
      rw [hu, Option.bind_some, hp]
    · rwa [getElem?_resume_of_ne htu ht] at h
  | start c f => rwa [List.getElem?_append_left ht] at h
  | env _ => exact h
  | crash c =>
    rw [kill, List.getElem?_map] at h
    cases hth : P.threads[t]? with
    | none => simp [hth] at h
    | some th =>
      by_cases hc : th.owner = c
      · simp [hth, hc] at h
      · simpa [hth, hc] using h

/-- A thread that moves is not over. -/
theorem isOver_of_op {P P' : Pool M} {t : Nat} {c : M.Owner} {o : S.Op} {ch : M.Choice}
    {r : S.Reply o} {f : Option M.Call} (hs : Step P (.op t c o ch r f) P') :
    P.isOver t = false := by
  cases hs with
  | op ht hp _ => rw [isOver, ht, Option.bind_some, hp]

omit [DecidableEq M.Owner] in
theorem over_of_isOver {P : Pool M} {t : Nat} (h : P.isOver t = true) : P.Over t := by
  intro th p ht hp
  rw [isOver, ht, Option.bind_some, hp] at h
  cases p with
  | ret a =>
    cases a with
    | inl a => exact ⟨a, rfl⟩
    | inr f => cases h
  | call o k => cases h

omit [DecidableEq M.Owner] in
/-- A thread that passes a test is alive. -/
theorem exists_live_of_any {P : Pool M} {t : Nat} {test : M.Call → Bool}
    (h : P.threads[t]?.any (fun th ↦ th.prog.isSome && test th.call) = true) :
    ∃ c f, P.Live t c f ∧ test f = true := by
  obtain ⟨⟨c, f, p⟩, ht, htest⟩ := (Option.any_eq_true _ _).1 h
  obtain ⟨hp, htest⟩ := Bool.and_eq_true_iff.1 htest
  obtain ⟨p, rfl⟩ := Option.isSome_iff_exists.1 hp
  exact ⟨c, f, ⟨p, ht⟩, htest⟩

variable {Γ : Type} (upd : Γ → Pool M → Event M → Γ) (G : Γ → Pool M → Event M → Prop)
  [∀ γ P e, Decidable (G γ P e)]

/-- Run a list of labels, as long as every step is enabled and satisfies the guard. -/
def schedule : List (Label M) → Pool M × Γ → Option (Pool M × Γ)
  | [], x => some x
  | l :: ls, x =>
    match x.1.step? l with
    | some (e, P') => if G x.2 x.1 e then schedule ls (P', upd x.2 x.1 e) else none
    | none => none

variable {upd G}

/-- A computed schedule is a run. -/
theorem schedule_run {x₀ x y : Pool M × Γ} {ls : List (Label M)} (h₀ : Run upd G x₀ x.1 x.2)
    (h : schedule upd G ls x = some y) : Run upd G x₀ y.1 y.2 := by
  induction ls generalizing x with
  | nil =>
    obtain rfl := Option.some.inj h
    exact h₀
  | cons l ls ih =>
    simp only [schedule] at h
    split at h
    · next e P' hstep =>
      split at h
      · next hg => exact ih (.next h₀ hg (step?_step hstep)) h
      · simp at h
    · simp at h

/-- A schedule that goes through is a run. -/
theorem run_of_isSome {x₀ : Pool M × Γ} {ls : List (Label M)}
    (h : (schedule upd G ls x₀).isSome = true) :
    Run upd G x₀ ((schedule upd G ls x₀).get h).1 ((schedule upd G ls x₀).get h).2 :=
  schedule_run .init (Option.some_get h).symm

end RedisStreamClient.Lib.Pool

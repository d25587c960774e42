import Mathlib.Algebra.BigOperators.Group.List.Basic
import RedisStreamClient.Lib.Prog

/-!
# Transition traces

A program that runs among others meets a state of the others' making at each of its
operations.  `Prog.Runs X p xs a` is a run of `p` to its end in the result `a`: `xs` are
its transitions, one per operation, and `X x o r` says that the transition `x` performs
`o` with the reply `r`.  Nothing relates one transition to the next, so whatever the
others do in between is covered.

`Prog.Traces` is the weakest precondition of such runs, for a postcondition about the
transitions and the result, and `Prog.Yields` the one for a postcondition about the sum
of the transitions' weights, in any additive monoid.  Each has a rule for every way a
program is built.  `Prog.solo` and `Prog.evalOn` compute a run of a program on its own.

Where only the operations and their replies matter, a transition is an operation with its
reply (`Prog.Records`).  `Prog.Rounds` are the completed turns of a loop.  `Prog.Reaches`
is a run that has not come to its end, and `Prog.Ends` splits runs off at a last call.
-/

namespace RedisStreamClient.Lib.Prog

variable {S : Sig} {A B E W St : Type} {X : E → (o : S.Op) → S.Reply o → Prop}

/-- A run of a program to its end, by its transitions. -/
inductive Runs (X : E → (o : S.Op) → S.Reply o → Prop) : Prog S A → List E → A → Prop
  | /-- Return. -/
    ret (a : A) : Runs X (.ret a) [] a
  | /-- One operation, then the rest. -/
    call {o : S.Op} {k : S.Reply o → Prog S A} {x : E} {r : S.Reply o} {xs : List E} {a : A}
      (hx : X x o r) (h : Runs X (k r) xs a) : Runs X (.call o k) (x :: xs) a

/-- A run of a sequence is a run of its first part, then one of the rest. -/
theorem Runs.of_bind {p : Prog S A} {f : A → Prog S B} {xs : List E} {b : B}
    (h : (p >>= f).Runs X xs b) :
    ∃ ys zs a, xs = ys ++ zs ∧ p.Runs X ys a ∧ (f a).Runs X zs b := by
  induction p generalizing xs with
  | ret a => exact ⟨[], xs, a, rfl, .ret a, h⟩
  | call o k ih =>
    cases h with
    | call hx h =>
      obtain ⟨ys, zs, a, rfl, hk, hf⟩ := ih _ h
      exact ⟨_ :: ys, zs, a, rfl, .call hx hk, hf⟩

/-- Runs of two parts are a run of their sequence. -/
theorem Runs.bind {p : Prog S A} {f : A → Prog S B} {xs ys : List E} {a : A} {b : B}
    (hp : p.Runs X xs a) (hf : (f a).Runs X ys b) : (p >>= f).Runs X (xs ++ ys) b := by
  induction hp with
  | ret a => exact hf
  | call hx _ ih => exact .call hx (ih hf)

/-- Every transition of a run performs something. -/
theorem Runs.exists_of_mem {p : Prog S A} {xs : List E} {a : A} {x : E} (h : p.Runs X xs a)
    (hx : x ∈ xs) : ∃ o r, X x o r := by
  induction h with
  | ret a => simp at hx
  | call hy _ ih =>
    rcases List.mem_cons.1 hx with rfl | hx
    · exact ⟨_, _, hy⟩
    · exact ih hx

/-! ## Postconditions about the transitions -/

section Traces

variable {Q : List E → A → Prop}

/-- In every run to the end, the transitions are related by `Q` to the result. -/
def Traces (X : E → (o : S.Op) → S.Reply o → Prop) (Q : List E → A → Prop) (p : Prog S A) :
    Prop :=
  ∀ xs a, p.Runs X xs a → Q xs a

/-- Returning has no transitions. -/
theorem Traces.ret {a : A} (h : Q [] a) : (.ret a : Prog S A).Traces X Q := by
  intro xs b hr
  cases hr
  exact h

/-- An operation puts its transition in front. -/
theorem Traces.call {o : S.Op} {k : S.Reply o → Prog S A}
    (h : ∀ x r, X x o r → (k r).Traces X fun xs a ↦ Q (x :: xs) a) :
    (Prog.call o k).Traces X Q := by
  intro xs a hr
  cases hr with
  | call hx hk => exact h _ _ hx _ _ hk

/-- The postcondition may be weakened. -/
theorem Traces.mono {R : List E → A → Prop} {p : Prog S A} (hp : p.Traces X Q)
    (h : ∀ xs a, Q xs a → R xs a) : p.Traces X R :=
  fun xs a hr ↦ h xs a (hp xs a hr)

/-- The rule for a callee: its own spec, then the rest of the caller from every trace and
result the spec allows. -/
theorem Traces.bind {R : List E → B → Prop} {p : Prog S A} {f : A → Prog S B}
    (hp : p.Traces X Q) (hf : ∀ xs a, Q xs a → (f a).Traces X fun ys b ↦ R (xs ++ ys) b) :
    (p >>= f).Traces X R := by
  intro xs b hr
  obtain ⟨ys, zs, a, rfl, hy, hz⟩ := hr.of_bind
  exact hf ys a (hp ys a hy) zs b hz

end Traces

/-! ## Postconditions about sums of weights -/

section Yields

variable [AddMonoid W] {w : E → W} {Q : W → A → Prop}

/-- In every run to the end, the sum of the weights is related by `Q` to the result. -/
def Yields (X : E → (o : S.Op) → S.Reply o → Prop) (w : E → W) (Q : W → A → Prop)
    (p : Prog S A) : Prop :=
  p.Traces X fun xs a ↦ Q (xs.map w).sum a

/-- Returning adds nothing. -/
theorem Yields.ret {a : A} (h : Q 0 a) : (.ret a : Prog S A).Yields X w Q := Traces.ret h

/-- An operation adds the weight of its transition. -/
theorem Yields.call {o : S.Op} {k : S.Reply o → Prog S A}
    (h : ∀ x r, X x o r → (k r).Yields X w fun n a ↦ Q (w x + n) a) :
    (Prog.call o k).Yields X w Q := by
  refine Traces.call fun x r hx ↦ ?_
  simp only [List.map_cons, List.sum_cons]
  exact h x r hx

/-- The postcondition may be weakened. -/
theorem Yields.mono {R : W → A → Prop} {p : Prog S A} (hp : p.Yields X w Q)
    (h : ∀ n a, Q n a → R n a) : p.Yields X w R :=
  Traces.mono hp fun _ _ ↦ h _ _

/-- The rule for a callee. -/
theorem Yields.bind {R : W → B → Prop} {p : Prog S A} {f : A → Prog S B}
    (hp : p.Yields X w Q) (hf : ∀ n a, Q n a → (f a).Yields X w fun m b ↦ R (n + m) b) :
    (p >>= f).Yields X w R := by
  refine Traces.bind hp fun xs a hq ↦ ?_
  simp only [List.map_append, List.sum_append]
  exact hf _ a hq

end Yields

/-! ## A run alone -/

section Solo

variable {step : (o : S.Op) → St → Option (S.Reply o × E × St)}

/-- The run of a program on its own: `step` performs an operation and gives the reply, the
transition and the next state. -/
def solo (step : (o : S.Op) → St → Option (S.Reply o × E × St)) :
    Prog S A → St → Option (List E × A)
  | .ret a, _ => some ([], a)
  | .call o k, s => (step o s).bind fun p ↦ ((k p.1).solo step p.2.2).map fun q ↦ (p.2.1 :: q.1, q.2)

/-- It is a run. -/
theorem runs_of_solo (hstep : ∀ o s r x s', step o s = some (r, x, s') → X x o r) {p : Prog S A}
    {s : St} {xs : List E} {a : A} (h : p.solo step s = some (xs, a)) : p.Runs X xs a := by
  induction p generalizing s xs with
  | ret b =>
    obtain ⟨rfl, rfl⟩ := Prod.mk.inj (Option.some.inj h)
    exact .ret b
  | call o k ih =>
    obtain ⟨⟨r, x, s'⟩, hs, hk⟩ := Option.bind_eq_some_iff.1 h
    obtain ⟨⟨ys, b⟩, hys, heq⟩ := Option.map_eq_some_iff.1 hk
    obtain ⟨rfl, rfl⟩ := Prod.mk.inj heq
    exact .call (hstep o s r x s' hs) (ih r hys)

/-- The computed run, where it goes through. -/
theorem runs_solo (hstep : ∀ o s r x s', step o s = some (r, x, s') → X x o r) {p : Prog S A}
    {s : St} (h : (p.solo step s).isSome = true) :
    p.Runs X ((p.solo step s).get h).1 ((p.solo step s).get h).2 :=
  runs_of_solo hstep (Option.some_get h).symm

end Solo

/-! ## A run alone, with its last state -/

section EvalOn

variable {step : (o : S.Op) → St → Option (S.Reply o × St)}

/-- The result and the last state of a program that runs on its own. -/
def evalOn (step : (o : S.Op) → St → Option (S.Reply o × St)) : Prog S A → St → Option (A × St)
  | .ret a, s => some (a, s)
  | .call o k, s => (step o s).bind fun p ↦ (k p.1).evalOn step p.2

/-- What the operations of a program keep, the program keeps. -/
theorem evalOn_keeps {P : S.Op → Prop} {I : St → Prop}
    (hstep : ∀ o s r s', P o → step o s = some (r, s') → I s → I s') {p : Prog S A}
    (hp : p.Only P) {s s' : St} {a : A} (h : p.evalOn step s = some (a, s')) (hs : I s) : I s' := by
  induction p generalizing s with
  | ret b =>
    obtain ⟨-, rfl⟩ := Prod.mk.inj (Option.some.inj h)
    exact hs
  | call o k ih =>
    obtain ⟨⟨r, s₁⟩, ho, hk⟩ := Option.bind_eq_some_iff.1 h
    exact ih r (hp.2 r) hk (hstep o s r s₁ hp.1 ho hs)

end EvalOn

/-! ## Operations with their replies -/

section Records

variable {P : (o : S.Op) → S.Reply o → Prop}

/-- A transition that is an operation with its reply, which `P` allows. -/
def Records (P : (o : S.Op) → S.Reply o → Prop) (x : (o : S.Op) × S.Reply o) (o : S.Op)
    (r : S.Reply o) : Prop :=
  x = ⟨o, r⟩ ∧ P o r

/-- A recorded reply is allowed. -/
theorem Runs.allows_of_mem {p : Prog S A} {xs : List ((o : S.Op) × S.Reply o)} {a : A}
    (h : p.Runs (Records P) xs a) {o : S.Op} {r : S.Reply o} (hx : ⟨o, r⟩ ∈ xs) : P o r := by
  obtain ⟨o', r', heq, hp⟩ := h.exists_of_mem hx
  obtain ⟨rfl, heq⟩ := Sigma.mk.inj heq
  exact eq_of_heq heq ▸ hp

/-- The operations of a run are the program's. -/
theorem Runs.only {Q : S.Op → Prop} {p : Prog S A} {xs : List ((o : S.Op) × S.Reply o)} {a : A}
    (h : p.Runs (Records P) xs a) (hp : p.Only Q) : ∀ x ∈ xs, Q x.1 := by
  induction h with
  | ret a => simp
  | call hx _ ih =>
    rw [List.forall_mem_cons]
    exact ⟨hx.1 ▸ hp.1, ih (hp.2 _)⟩

end Records

/-! ## What is left of a program -/

section Reaches

/-- After these transitions, `q` is left of the program. -/
inductive Reaches (X : E → (o : S.Op) → S.Reply o → Prop) :
    Prog S A → List E → Prog S A → Prop
  | /-- Nothing has happened. -/
    refl (p : Prog S A) : Reaches X p [] p
  | /-- One operation, then more. -/
    call {o : S.Op} {k : S.Reply o → Prog S A} {x : E} {r : S.Reply o} {xs : List E}
      {q : Prog S A} (hx : X x o r) (h : Reaches X (k r) xs q) : Reaches X (.call o k) (x :: xs) q

/-- A run of what is left completes a run. -/
theorem Reaches.runs {p q : Prog S A} {xs ys : List E} {a : A} (h : p.Reaches X xs q)
    (hq : q.Runs X ys a) : p.Runs X (xs ++ ys) a := by
  induction h with
  | refl p => exact hq
  | call hx _ ih => exact .call hx (ih hq)

theorem Reaches.trans {p q s : Prog S A} {xs ys : List E} (h : p.Reaches X xs q)
    (hq : q.Reaches X ys s) : p.Reaches X (xs ++ ys) s := by
  induction h with
  | refl p => exact hq
  | call hx _ ih => exact .call hx (ih hq)

/-- When its first part has run, the rest of a sequence is left. -/
theorem Runs.reaches {p : Prog S A} {f : A → Prog S B} {xs : List E} {a : A}
    (h : p.Runs X xs a) : (p >>= f).Reaches X xs (f a) := by
  induction h with
  | ret a => exact .refl (f a)
  | call hx _ ih => exact .call hx ih

variable {T : Prog S A → Prop} {Q : A → Prop}

/-- Every run has a result in `Q`, or ends with a run of a program in `T`. -/
def Ends (X : E → (o : S.Op) → S.Reply o → Prop) (T : Prog S A → Prop) (Q : A → Prop)
    (p : Prog S A) : Prop :=
  ∀ xs a, p.Runs X xs a →
    Q a ∨ ∃ ys zs q, xs = ys ++ zs ∧ T q ∧ p.Reaches X ys q ∧ q.Runs X zs a

theorem Ends.ret {a : A} (h : Q a) : (.ret a : Prog S A).Ends X T Q := by
  intro xs b hr
  cases hr
  exact .inl h

theorem Ends.last {p : Prog S A} (h : T p) : p.Ends X T Q :=
  fun xs _ hr ↦ .inr ⟨[], xs, p, rfl, h, .refl p, hr⟩

theorem Ends.of_reaches {p : Prog S A}
    (h : ∀ xs a, p.Runs X xs a → ∃ ys zs q, xs = ys ++ zs ∧ p.Reaches X ys q ∧ q.Runs X zs a ∧
      q.Ends X T Q) : p.Ends X T Q := by
  intro xs a hr
  obtain ⟨ys, zs, q, rfl, hq, hz, hends⟩ := h xs a hr
  refine (hends zs a hz).imp_right ?_
  rintro ⟨us, vs, s, rfl, hs, hus, hvs⟩
  exact ⟨ys ++ us, vs, s, (List.append_assoc _ _ _).symm, hs, hq.trans hus, hvs⟩

theorem Ends.call {o : S.Op} {k : S.Reply o → Prog S A}
    (h : ∀ x r, X x o r → (k r).Ends X T Q) : (Prog.call o k).Ends X T Q := by
  refine .of_reaches fun xs a hr ↦ ?_
  cases hr with
  | call hx hk => exact ⟨[_], _, _, rfl, .call hx (.refl _), hk, h _ _ hx⟩

theorem Ends.bind {p : Prog S B} {f : B → Prog S A} (h : ∀ b, (f b).Ends X T Q) :
    (p >>= f).Ends X T Q := by
  refine .of_reaches fun xs a hr ↦ ?_
  obtain ⟨ys, zs, b, rfl, hy, hz⟩ := hr.of_bind
  exact ⟨ys, zs, f b, rfl, hy.reaches, hz, h b⟩

end Reaches

/-! ## Loops -/

section Rounds

variable {C R : Type} {body : C → Prog S (R ⊕ C)}

/-- Completed turns of a loop, from one call to the call it goes round with last, by the
transitions of each turn. -/
inductive Rounds (X : E → (o : S.Op) → S.Reply o → Prop) (body : C → Prog S (R ⊕ C)) (f : C) :
    List (List E) → C → Prop
  | /-- No turn. -/
    nil : Rounds X body f [] f
  | /-- One more turn. -/
    snoc {xss : List (List E)} {g h : C} {xs : List E} (hr : Rounds X body f xss g)
      (hx : (body g).Runs X xs (.inr h)) : Rounds X body f (xss ++ [xs]) h

/-- What every turn keeps of the call holds of all turns. -/
theorem Rounds.invariant {I : C → Prop} {f g : C} {xss : List (List E)}
    (hr : Rounds X body f xss g) (hf : I f)
    (hI : ∀ g h xs, I g → (body g).Runs X xs (.inr h) → I h) : I g := by
  induction hr with
  | nil => exact hf
  | snoc _ hx ih => exact hI _ _ _ ih hx

end Rounds

end RedisStreamClient.Lib.Prog

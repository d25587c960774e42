import Mathlib.Logic.Basic

/-!
# Programs over a signature of operations

A `Prog S A` is a finite interaction tree: it either returns a value of type `A`
or performs one operation of the signature `S` and continues with the reply.
Sequential code that talks to shared state one atomic operation at a time is
translated into such a program, and what the operations do is left to whoever
runs it.

A `Monitor` watches one program from outside: it has a state, says in each state
which operations are allowed, and moves on the reply.  `Prog.Obeys` says that a
program performs only allowed operations, whatever the replies are, and that it
returns in a state fit for the value it returns.  It is a weakest precondition:
`obeys_bind` decomposes a sequence, and a spec for a callee is a statement about
`Obeys` of the callee alone.

`Prog.Only` bounds the operations a program performs, `Prog.Within` its results as well.  Where
a monitor does not move on the operations, a bound is all there is to show (`Only.obeys`,
`Within.obeys`): one bound of a program serves every monitor that its order of operations does
not matter to.

`Prog.Ensures` is the weakest precondition of a program that runs alone over a state:
its operations do what a relation says, none of them gets stuck, and it ends with its
postcondition.
-/

namespace RedisStreamClient.Lib

/-- A signature: the operations a program may perform, and the type of the reply
to each of them. -/
structure Sig where
  /-- The operations. -/
  Op : Type
  /-- The reply to an operation. -/
  Reply : Op → Type

/-- A program that performs operations of `S` and returns a value of type `A`. -/
inductive Prog (S : Sig) (A : Type) : Type
  | /-- Return a value. -/
    ret (a : A) : Prog S A
  | /-- Perform `o` and continue with the reply. -/
    call (o : S.Op) (k : S.Reply o → Prog S A) : Prog S A

namespace Prog

variable {S T : Sig} {A B C : Type}

/-- Sequencing. -/
def bind : Prog S A → (A → Prog S B) → Prog S B
  | .ret a, f => f a
  | .call o k, f => .call o fun r ↦ (k r).bind f

instance instMonad : Monad (Prog S) where
  pure := .ret
  bind := .bind

/-- One operation, returning its reply. -/
def perform (o : S.Op) : Prog S (S.Reply o) := .call o .ret

@[simp] theorem pure_eq (a : A) : (pure a : Prog S A) = .ret a := rfl

@[simp] theorem ret_bind (a : A) (f : A → Prog S B) : (.ret a : Prog S A) >>= f = f a := rfl

@[simp] theorem call_bind (o : S.Op) (k : S.Reply o → Prog S A) (f : A → Prog S B) :
    (.call o k : Prog S A) >>= f = .call o fun r ↦ k r >>= f := rfl

@[simp] theorem perform_bind (o : S.Op) (f : S.Reply o → Prog S B) :
    perform o >>= f = .call o f := rfl

/-- Run a program of the signature `S` inside a larger one. -/
def embed (f : S.Op → T.Op) (g : ∀ o, T.Reply (f o) → S.Reply o) : Prog S A → Prog T A
  | .ret a => .ret a
  | .call o k => .call (f o) fun r ↦ (k (g o r)).embed f g

/-! ## Monitors -/

end Prog

/-- An observer of one program: which operations it allows in which state, and
where it goes on a reply.  `O` is the owner of the program, which the rules may
depend on. -/
structure Monitor (S : Sig) (O : Type) where
  /-- What the monitor remembers. -/
  State : Type
  /-- The operations allowed in a state. -/
  Ok : O → State → S.Op → Prop
  /-- The next state, on an operation and its reply. -/
  next : O → State → (o : S.Op) → S.Reply o → State

namespace Prog

variable {S : Sig} {O A B : Type} {M : Monitor S O} {c : O}

/-- From the monitor state given last, the program performs only allowed
operations and returns values related by `Q` to the state it ends in. -/
def Obeys (M : Monitor S O) (c : O) (Q : M.State → A → Prop) : Prog S A → M.State → Prop
  | .ret a, q => Q q a
  | .call o k, q => M.Ok c q o ∧ ∀ r, (k r).Obeys M c Q (M.next c q o r)

@[simp] theorem obeys_ret {Q : M.State → A → Prop} {a : A} {q : M.State} :
    (ret a : Prog S A).Obeys M c Q q ↔ Q q a := Iff.rfl

@[simp] theorem obeys_call {Q : M.State → A → Prop} {o : S.Op} {k : S.Reply o → Prog S A}
    {q : M.State} : (call o k).Obeys M c Q q ↔
      M.Ok c q o ∧ ∀ r, (k r).Obeys M c Q (M.next c q o r) := Iff.rfl

/-- A sequence obeys if its first part obeys, with the rest as its postcondition. -/
theorem obeys_bind {Q : M.State → B → Prop} {f : A → Prog S B} : ∀ {p : Prog S A} {q : M.State},
    (p >>= f).Obeys M c Q q ↔ p.Obeys M c (fun q' a ↦ (f a).Obeys M c Q q') q
  | .ret _, _ => Iff.rfl
  | .call _ _, _ => and_congr Iff.rfl (forall_congr' fun _ ↦ obeys_bind)

/-- The postcondition may be weakened. -/
theorem Obeys.mono {Q Q' : M.State → A → Prop} (h : ∀ q a, Q q a → Q' q a) :
    ∀ {p : Prog S A} {q : M.State}, p.Obeys M c Q q → p.Obeys M c Q' q
  | .ret _, _, hp => h _ _ hp
  | .call _ _, _, hp => ⟨hp.1, fun r ↦ (hp.2 r).mono h⟩

/-- The rule for a callee: its own spec, then the rest of the caller from every
state and result the spec allows. -/
theorem Obeys.bind {Q : M.State → A → Prop} {Q' : M.State → B → Prop} {p : Prog S A}
    {f : A → Prog S B} {q : M.State} (hp : p.Obeys M c Q q)
    (hf : ∀ q' a, Q q' a → (f a).Obeys M c Q' q') : (p >>= f).Obeys M c Q' q :=
  obeys_bind.2 (hp.mono hf)

/-- **Obeying in a larger signature.**  If the monitor of the larger signature allows what that
of the smaller one does, in states that are related and stay so, a program that obeys the one
obeys the other. -/
theorem Obeys.embed {T : Sig} {O' : Type} {N : Monitor T O'} {d : O'} {f : S.Op → T.Op}
    {g : ∀ o, T.Reply (f o) → S.Reply o} {R : M.State → N.State → Prop}
    (h : ∀ q w o, R q w → M.Ok c q o →
      N.Ok d w (f o) ∧ ∀ r, R (M.next c q o (g o r)) (N.next d w (f o) r))
    {Q : M.State → A → Prop} {p : Prog S A} {q : M.State} {w : N.State} (hp : p.Obeys M c Q q)
    (hR : R q w) : (p.embed f g).Obeys N d (fun w' a ↦ ∃ q', R q' w' ∧ Q q' a) w := by
  induction p generalizing q w with
  | ret a => exact ⟨q, hR, hp⟩
  | call o k ih =>
    obtain ⟨hok, hnext⟩ := h q w o hR hp.1
    exact ⟨hok, fun r ↦ ih (g o r) (hp.2 (g o r)) (hnext r)⟩

/-! ## The operations of a program -/

section Only

variable {P : S.Op → Prop}

/-- The program performs only operations that satisfy `P`, whatever the replies are. -/
def Only (P : S.Op → Prop) : Prog S A → Prop
  | .ret _ => True
  | .call o k => P o ∧ ∀ r, (k r).Only P

theorem Only.mono {P' : S.Op → Prop} (h : ∀ o, P o → P' o) {p : Prog S A} (hp : p.Only P) :
    p.Only P' := by
  induction p with
  | ret a => trivial
  | call o k ih => exact ⟨h o hp.1, fun r ↦ ih r (hp.2 r)⟩

theorem Only.bind {p : Prog S A} {f : A → Prog S B} (hp : p.Only P) (hf : ∀ a, (f a).Only P) :
    (p >>= f).Only P := by
  induction p with
  | ret a => exact hf a
  | call o k ih => exact ⟨hp.1, fun r ↦ ih r (hp.2 r)⟩

/-- A program inside a larger signature performs its own operations. -/
theorem only_embed {T : Sig} {P : T.Op → Prop} {f : S.Op → T.Op}
    {g : ∀ o, T.Reply (f o) → S.Reply o} (h : ∀ o, P (f o)) (p : Prog S A) :
    (p.embed f g).Only P := by
  induction p with
  | ret a => trivial
  | call o k ih => exact ⟨h o, fun r ↦ ih _⟩

/-- A program obeys a monitor that allows all its operations and does not move on them. -/
theorem Only.obeys {p : Prog S A} {q : M.State} (hp : p.Only P)
    (h : ∀ o, P o → M.Ok c q o ∧ ∀ r, M.next c q o r = q) :
    p.Obeys M c (fun q' _ ↦ q' = q) q := by
  induction p with
  | ret a => rfl
  | call o k ih =>
    refine ⟨(h o hp.1).1, fun r ↦ ?_⟩
    rw [(h o hp.1).2 r]
    exact ih r (hp.2 r)

/-- A program that obeys a monitor performs only what is allowed in the states that it can be
in. -/
theorem Obeys.only {I : M.State → Prop} (h : ∀ q o, I q → M.Ok c q o → P o ∧ ∀ r, I (M.next c q o r))
    {Q : M.State → A → Prop} {p : Prog S A} {q : M.State} (hp : p.Obeys M c Q q) (hq : I q) :
    p.Only P := by
  induction p generalizing q with
  | ret a => trivial
  | call o k ih =>
    obtain ⟨ho, hnext⟩ := h q o hq hp.1
    exact ⟨ho, fun r ↦ ih r (hp.2 r) (hnext r)⟩

end Only

/-! ## The operations and the results of a program -/

section Within

variable {P : S.Op → Prop} {R : A → Prop}

/-- The program performs only operations that satisfy `P` and returns only values that satisfy
`R`, whatever the replies are. -/
def Within (P : S.Op → Prop) (R : A → Prop) : Prog S A → Prop
  | .ret a => R a
  | .call o k => P o ∧ ∀ r, (k r).Within P R

theorem Within.mono {P' : S.Op → Prop} {R' : A → Prop} (hP : ∀ o, P o → P' o)
    (hR : ∀ a, R a → R' a) {p : Prog S A} (hp : p.Within P R) : p.Within P' R' := by
  induction p with
  | ret a => exact hR a hp
  | call o k ih => exact ⟨hP o hp.1, fun r ↦ ih r (hp.2 r)⟩

theorem Within.bind {R' : B → Prop} {p : Prog S A} {f : A → Prog S B} (hp : p.Within P R)
    (hf : ∀ a, R a → (f a).Within P R') : (p >>= f).Within P R' := by
  induction p with
  | ret a => exact hf a hp
  | call o k ih => exact ⟨hp.1, fun r ↦ ih r (hp.2 r)⟩

theorem Within.only {p : Prog S A} (hp : p.Within P R) : p.Only P := by
  induction p with
  | ret a => trivial
  | call o k ih => exact ⟨hp.1, fun r ↦ ih r (hp.2 r)⟩

/-- A bound in a smaller signature is one in the larger. -/
theorem Within.embed {T : Sig} {P' : T.Op → Prop} {f : S.Op → T.Op}
    {g : ∀ o, T.Reply (f o) → S.Reply o} (h : ∀ o, P o → P' (f o)) {p : Prog S A}
    (hp : p.Within P R) : (p.embed f g).Within P' R := by
  induction p with
  | ret a => exact hp
  | call o k ih => exact ⟨h o hp.1, fun r ↦ ih _ (hp.2 _)⟩

/-- A program obeys a monitor that allows all its operations and does not move on them, and
that lets it return what it may return. -/
theorem Within.obeys {p : Prog S A} {q : M.State} {Q : M.State → A → Prop} (hp : p.Within P R)
    (h : ∀ o, P o → M.Ok c q o ∧ ∀ r, M.next c q o r = q) (hQ : ∀ a, R a → Q q a) :
    p.Obeys M c Q q := by
  induction p with
  | ret a => exact hQ a hp
  | call o k ih =>
    refine ⟨(h o hp.1).1, fun r ↦ ?_⟩
    rw [(h o hp.1).2 r]
    exact ih r (hp.2 r)

end Within

/-! ## Running alone -/

section Ensures

variable {St : Type} {X : (o : S.Op) → St → S.Reply o → St → Prop} {Q : A → St → Prop}

/-- Run alone from the state given last, with operations that do what `X` says, the
program always goes through and ends in a result and a state related by `Q`. -/
def Ensures (X : (o : S.Op) → St → S.Reply o → St → Prop) (Q : A → St → Prop) :
    Prog S A → St → Prop
  | .ret a, s => Q a s
  | .call o k, s => (∃ r s', X o s r s') ∧ ∀ r s', X o s r s' → (k r).Ensures X Q s'

/-- The postcondition may be weakened. -/
theorem Ensures.mono {R : A → St → Prop} (h : ∀ a s, Q a s → R a s) {p : Prog S A} {s : St}
    (hp : p.Ensures X Q s) : p.Ensures X R s := by
  induction p generalizing s with
  | ret a => exact h a s hp
  | call o k ih => exact ⟨hp.1, fun r s' hx ↦ ih r (hp.2 r s' hx)⟩

/-- The rule for a callee: its own spec, then the rest of the caller from every result
and state the spec allows. -/
theorem Ensures.bind {R : B → St → Prop} {p : Prog S A} {f : A → Prog S B} {s : St}
    (hp : p.Ensures X Q s) (hf : ∀ a s', Q a s' → (f a).Ensures X R s') :
    (p >>= f).Ensures X R s := by
  induction p generalizing s with
  | ret a => exact hf a s hp
  | call o k ih => exact ⟨hp.1, fun r s' hx ↦ ih r (hp.2 r s' hx)⟩

end Ensures

end Prog

end RedisStreamClient.Lib

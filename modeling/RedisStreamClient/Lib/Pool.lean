import RedisStreamClient.Lib.Prog
import Mathlib.Data.Set.Function
import Mathlib.Logic.Function.Basic

/-!
# Pools of threads over shared state

A `Machine` says what the operations of a signature do to a shared state.  Its
`Choice` resolves whatever the state does not determine (which case of a select
is taken, which fault a command meets), so that `exec` is a function.  Threads
run calls: the body of a call is a `Prog` that ends either with a result, as
`Sum.inl`, or with the call to go round with, as `Sum.inr`, so that loops need no
infinite programs.

`Step` interleaves the threads one operation at a time, with steps of the
environment and with crashes, which kill every thread of one owner.  `Run` is a
finite run from a given pool; a ghost value `Γ` of any type is carried along, and
each step must satisfy a guard that may read it.  An unrestricted run has a guard
that is always true.

A `Contract` is a monitor that every body obeys.  `Obeying` is then an invariant
of every run (`Obeying.step`), and in exchange for the bodies' proofs each
operation of a run is known to be allowed in the state of its thread
(`Obeying.ok`).
-/

namespace RedisStreamClient.Lib

/-- What the operations of a signature do, and the calls that threads can run. -/
structure Machine (S : Sig) where
  /-- Whoever owns a thread: its threads crash together. -/
  Owner : Type
  /-- The shared state. -/
  State : Type
  /-- What resolves the nondeterminism of an operation. -/
  Choice : Type
  /-- Steps of the environment. -/
  Env : Type
  /-- The calls a thread can run. -/
  Call : Type
  /-- What a call returns. -/
  Res : Type
  /-- The code of a call. -/
  body : Owner → Call → Prog S (Res ⊕ Call)
  /-- One operation: its reply, the next state and the call it starts in a thread
  of its own, if any.  `none` when the operation cannot run (yet) that way. -/
  exec : Owner → (o : S.Op) → Choice → State → Option (S.Reply o × State × Option Call)
  /-- One step of the environment. -/
  env : Env → State → Option State
  /-- What a crash of an owner does to the state. -/
  crash : Owner → State → State

variable {S : Sig}

/-- A thread: its owner, the call it was started with and what is left to run, or
`none` if it was killed. -/
structure Thread (M : Machine S) where
  /-- The owner. -/
  owner : M.Owner
  /-- The call the thread was started with. -/
  call : M.Call
  /-- What is left to run. -/
  prog : Option (Prog S (M.Res ⊕ M.Call))

/-- A shared state with the threads that run over it.  A thread is identified by
its place in the list, which never shrinks. -/
structure Pool (M : Machine S) where
  /-- The shared state. -/
  state : M.State
  /-- The threads. -/
  threads : List (Thread M)

/-- What happens in one step. -/
inductive Event (M : Machine S)
  | /-- Thread `t` of `c` performs `o` with reply `r`, starting the call `f` if any. -/
    op (t : Nat) (c : M.Owner) (o : S.Op) (ch : M.Choice) (r : S.Reply o) (f : Option M.Call)
  | /-- Thread `t` goes round its loop. -/
    again (t : Nat)
  | /-- `c` starts a call in a new thread. -/
    start (c : M.Owner) (f : M.Call)
  | /-- The environment moves. -/
    env (e : M.Env)
  | /-- `c` crashes. -/
    crash (c : M.Owner)

namespace Event

variable {M : Machine S}

/-- The thread that moves, if the event is an operation. -/
def mover : Event M → Option Nat
  | .op t _ _ _ _ _ => some t
  | _ => none

/-- The call that a new thread runs, with its owner. -/
def starts : Event M → Option (M.Owner × M.Call)
  | .op _ c _ _ _ f => f.map (c, ·)
  | .start c f => some (c, f)
  | _ => none

end Event

namespace Pool

variable {M : Machine S}

/-- A thread about to run a call. -/
def fresh (c : M.Owner) (f : M.Call) : Thread M := ⟨c, f, some (M.body c f)⟩

/-- The threads after thread `t` went on to `p`, and started `f` if any. -/
def resume (P : Pool M) (t : Nat) (th : Thread M) (p : Prog S (M.Res ⊕ M.Call))
    (f : Option M.Call) : List (Thread M) :=
  P.threads.set t { th with prog := some p } ++ (f.map (fresh th.owner)).toList

/-- The threads after a crash of `c`. -/
def kill [DecidableEq M.Owner] (P : Pool M) (c : M.Owner) : List (Thread M) :=
  P.threads.map fun th ↦ if th.owner = c then { th with prog := none } else th

/-- The interleaving semantics: one operation of one thread, one turn of a loop, a
new call, a step of the environment or a crash. -/
inductive Step [DecidableEq M.Owner] : Pool M → Event M → Pool M → Prop
  | op {P : Pool M} {t : Nat} {th : Thread M} {o : S.Op}
      {k : S.Reply o → Prog S (M.Res ⊕ M.Call)} {ch : M.Choice} {r : S.Reply o} {s : M.State}
      {f : Option M.Call} (ht : P.threads[t]? = some th) (hp : th.prog = some (.call o k))
      (hx : M.exec th.owner o ch P.state = some (r, s, f)) :
      Step P (.op t th.owner o ch r f) ⟨s, P.resume t th (k r) f⟩
  | again {P : Pool M} {t : Nat} {th : Thread M} {f : M.Call} (ht : P.threads[t]? = some th)
      (hp : th.prog = some (.ret (.inr f))) :
      Step P (.again t) ⟨P.state, P.resume t th (M.body th.owner f) none⟩
  | start {P : Pool M} (c : M.Owner) (f : M.Call) :
      Step P (.start c f) ⟨P.state, P.threads ++ [fresh c f]⟩
  | env {P : Pool M} {e : M.Env} {s : M.State} (he : M.env e P.state = some s) :
      Step P (.env e) ⟨s, P.threads⟩
  | crash {P : Pool M} (c : M.Owner) : Step P (.crash c) ⟨M.crash c P.state, P.kill c⟩

/-- A finite run from `x₀`, with a ghost value that `upd` moves at every step and a
guard `G` that every step satisfies. -/
inductive Run [DecidableEq M.Owner] {Γ : Type} (upd : Γ → Pool M → Event M → Γ)
    (G : Γ → Pool M → Event M → Prop) (x₀ : Pool M × Γ) : Pool M → Γ → Prop
  | init : Run upd G x₀ x₀.1 x₀.2
  | next {P P' : Pool M} {γ : Γ} {e : Event M} (h : Run upd G x₀ P γ) (hg : G γ P e)
      (hs : Step P e P') : Run upd G x₀ P' (upd γ P e)

/-- **The invariant rule.**  What holds initially and is kept by every guarded step
holds at the end of every run. -/
theorem Run.invariant [DecidableEq M.Owner] {Γ : Type} {upd : Γ → Pool M → Event M → Γ}
    {G : Γ → Pool M → Event M → Prop} {x₀ : Pool M × Γ} {I : Pool M → Γ → Prop}
    (h₀ : I x₀.1 x₀.2)
    (hstep : ∀ P γ e P', I P γ → G γ P e → Step P e P' → I P' (upd γ P e))
    {P : Pool M} {γ : Γ} (h : Run upd G x₀ P γ) : I P γ := by
  induction h with
  | init => exact h₀
  | next _ hg hs ih => exact hstep _ _ _ _ ih hg hs

/-- A guard may be weakened. -/
theorem Run.mono [DecidableEq M.Owner] {Γ : Type} {upd : Γ → Pool M → Event M → Γ}
    {G G' : Γ → Pool M → Event M → Prop} (hG : ∀ γ P e, G γ P e → G' γ P e) {x₀ : Pool M × Γ}
    {P : Pool M} {γ : Γ} (h : Run upd G x₀ P γ) : Run upd G' x₀ P γ := by
  induction h with
  | init => exact .init
  | next _ hg hs ih => exact .next ih (hG _ _ _ hg) hs

/-- Runs compose. -/
theorem Run.trans [DecidableEq M.Owner] {Γ : Type} {upd : Γ → Pool M → Event M → Γ}
    {G : Γ → Pool M → Event M → Prop} {x₀ : Pool M × Γ} {P Q : Pool M} {γ δ : Γ}
    (h : Run upd G x₀ P γ) (h' : Run upd G (P, γ) Q δ) : Run upd G x₀ Q δ := by
  induction h' with
  | init => exact h
  | next _ hg hs ih => exact .next ih hg hs

/-! ## Looking up threads -/

section Lookup

variable {P : Pool M} {t u : Nat} {th : Thread M} {p : Prog S (M.Res ⊕ M.Call)}
  {f : Option M.Call}

@[simp] theorem length_resume : (P.resume t th p f).length =
    P.threads.length + f.toList.length := by
  cases f <;> simp [resume]

/-- The thread that moved. -/
theorem getElem?_resume_self (h : P.threads[t]? = some th) :
    (P.resume t th p f)[t]? = some { th with prog := some p } := by
  have ht : t < P.threads.length := (List.getElem?_eq_some_iff.1 h).1
  rw [resume, List.getElem?_append_left (by simpa using ht), List.getElem?_set_self ht]

/-- The threads that did not move. -/
theorem getElem?_resume_of_ne (hne : u ≠ t) (hu : u < P.threads.length) :
    (P.resume t th p f)[u]? = P.threads[u]? := by
  rw [resume, List.getElem?_append_left (by simpa using hu), List.getElem?_set_ne hne.symm]

/-- The thread that was started. -/
theorem getElem?_resume_new {g : M.Call} :
    (P.resume t th p (some g))[P.threads.length]? = some (fresh th.owner g) := by
  rw [resume, List.getElem?_append_right (by simp)]
  simp

/-- A thread of the pool after a move is the one that moved, an old one, or the new
one. -/
theorem resume_cases {tu : Thread M} (h : P.threads[t]? = some th)
    (hu : (P.resume t th p f)[u]? = some tu) :
    (u = t ∧ tu = { th with prog := some p }) ∨ (u ≠ t ∧ P.threads[u]? = some tu) ∨
      (u = P.threads.length ∧ ∃ g, f = some g ∧ tu = fresh th.owner g) := by
  by_cases hut : u = t
  · subst hut
    rw [getElem?_resume_self h] at hu
    exact .inl ⟨rfl, (Option.some.inj hu).symm⟩
  rcases lt_or_ge u P.threads.length with hlt | hge
  · rw [getElem?_resume_of_ne hut hlt] at hu
    exact .inr (.inl ⟨hut, hu⟩)
  · right; right
    rw [resume, List.getElem?_append_right (by simpa using hge)] at hu
    simp only [List.length_set] at hu
    cases f with
    | none => simp at hu
    | some g =>
      simp only [Option.map_some, Option.toList_some, List.getElem?_singleton] at hu
      split at hu
      · next h0 => exact ⟨by omega, g, rfl, (Option.some.inj hu).symm⟩
      · simp at hu

/-- A thread of the pool after a call was started is an old one or the new one. -/
theorem start_cases {tu : Thread M} {c : M.Owner} {g : M.Call}
    (hu : (P.threads ++ [fresh c g])[u]? = some tu) :
    P.threads[u]? = some tu ∨ (u = P.threads.length ∧ tu = fresh c g) := by
  rcases lt_or_ge u P.threads.length with hlt | hge
  · rw [List.getElem?_append_left hlt] at hu
    exact .inl hu
  · rw [List.getElem?_append_right hge, List.getElem?_singleton] at hu
    split at hu
    · next h0 => exact .inr ⟨by omega, (Option.some.inj hu).symm⟩
    · simp at hu

/-- A thread that survives a crash was there before, with another owner. -/
theorem kill_cases [DecidableEq M.Owner] {tu : Thread M} {c : M.Owner}
    (hu : (P.kill c)[u]? = some tu) :
    ∃ th, P.threads[u]? = some th ∧
      ((th.owner = c ∧ tu = { th with prog := none }) ∨ (th.owner ≠ c ∧ tu = th)) := by
  rw [kill, List.getElem?_map, Option.map_eq_some_iff] at hu
  obtain ⟨th, hth, rfl⟩ := hu
  refine ⟨th, hth, ?_⟩
  by_cases hc : th.owner = c
  · exact .inl ⟨hc, by simp [hc]⟩
  · exact .inr ⟨hc, by simp [hc]⟩

end Lookup

/-! ## What a step does -/

/-- Thread `t` is alive, belongs to `c` and was started as `f`. -/
def Live (P : Pool M) (t : Nat) (c : M.Owner) (f : M.Call) : Prop :=
  ∃ p, P.threads[t]? = some ⟨c, f, some p⟩

/-- Thread `t` is alive. -/
def alive (P : Pool M) (t : Nat) : Bool := (P.threads[t]?.bind (·.prog)).isSome

theorem Live.alive {P : Pool M} {t : Nat} {c : M.Owner} {f : M.Call} (h : P.Live t c f) :
    P.alive t = true := by
  obtain ⟨p, hp⟩ := h
  simp [Pool.alive, hp]

theorem Live.lt_length {P : Pool M} {t : Nat} {c : M.Owner} {f : M.Call} (h : P.Live t c f) :
    t < P.threads.length := by
  obtain ⟨p, hp⟩ := h
  exact (List.getElem?_eq_some_iff.1 hp).1

/-- A place has one thread. -/
theorem Live.unique {P : Pool M} {t : Nat} {c d : M.Owner} {f g : M.Call} (h : P.Live t c f)
    (h' : P.Live t d g) : c = d ∧ f = g := by
  obtain ⟨p, hp⟩ := h
  obtain ⟨p', hp'⟩ := h'
  obtain ⟨rfl, rfl, -⟩ : c = d ∧ f = g ∧ p = p' := by
    simpa using Option.some.inj (hp.symm.trans hp')
  exact ⟨rfl, rfl⟩

namespace Step

variable [DecidableEq M.Owner] {P P' : Pool M} {e : Event M}

theorem op_exec {t : Nat} {c : M.Owner} {o : S.Op} {ch : M.Choice} {r : S.Reply o}
    {f : Option M.Call} (h : Step P (.op t c o ch r f) P') :
    M.exec c o ch P.state = some (r, P'.state, f) := by
  cases h with
  | op _ _ hx => exact hx

theorem op_live {t : Nat} {c : M.Owner} {o : S.Op} {ch : M.Choice} {r : S.Reply o}
    {f : Option M.Call} (h : Step P (.op t c o ch r f) P') : ∃ g, P.Live t c g := by
  cases h with
  | @op _ th _ k _ _ _ _ ht hp _ =>
    obtain ⟨c, g, p⟩ := th
    obtain rfl : p = _ := hp
    exact ⟨g, _, ht⟩

/-- **The threads after a step**: those there were, unless they crashed, and the new
one. -/
theorem live_iff (h : Step P e P') {u : Nat} {d : M.Owner} {g : M.Call} :
    P'.Live u d g ↔
      (P.Live u d g ∧ e ≠ .crash d) ∨ (u = P.threads.length ∧ e.starts = some (d, g)) := by
  cases h with
  | @op t th o k ch r s f ht hp hx =>
    have hlive : P.Live t th.owner th.call := ⟨_, by rw [ht, ← hp]⟩
    constructor
    · rintro ⟨p, hu⟩
      rcases resume_cases ht hu with ⟨rfl, h⟩ | ⟨-, hu⟩ | ⟨rfl, g', rfl, h⟩
      · obtain ⟨rfl, rfl, -⟩ := Thread.mk.inj h
        exact .inl ⟨hlive, by simp⟩
      · exact .inl ⟨⟨p, hu⟩, by simp⟩
      · obtain ⟨rfl, rfl, -⟩ := Thread.mk.inj h
        exact .inr ⟨rfl, rfl⟩
    · rintro (⟨hl, -⟩ | ⟨rfl, hf⟩)
      · by_cases hut : u = t
        · subst hut
          obtain ⟨rfl, rfl⟩ := hl.unique hlive
          exact ⟨_, getElem?_resume_self ht⟩
        · obtain ⟨p, hu⟩ := id hl
          exact ⟨p, by rw [getElem?_resume_of_ne hut hl.lt_length]; exact hu⟩
      · obtain ⟨g', rfl, hg⟩ := Option.map_eq_some_iff.1 hf
        obtain ⟨rfl, rfl⟩ := Prod.mk.inj hg
        exact ⟨_, getElem?_resume_new⟩
  | @again t th f ht hp =>
    have hlive : P.Live t th.owner th.call := ⟨_, by rw [ht, ← hp]⟩
    constructor
    · rintro ⟨p, hu⟩
      rcases resume_cases ht hu with ⟨rfl, h⟩ | ⟨-, hu⟩ | ⟨-, g', hg, -⟩
      · obtain ⟨rfl, rfl, -⟩ := Thread.mk.inj h
        exact .inl ⟨hlive, by simp⟩
      · exact .inl ⟨⟨p, hu⟩, by simp⟩
      · simp at hg
    · rintro (⟨hl, -⟩ | ⟨-, hf⟩)
      · by_cases hut : u = t
        · subst hut
          obtain ⟨rfl, rfl⟩ := hl.unique hlive
          exact ⟨_, getElem?_resume_self ht⟩
        · obtain ⟨p, hu⟩ := id hl
          exact ⟨p, by rw [getElem?_resume_of_ne hut hl.lt_length]; exact hu⟩
      · simp [Event.starts] at hf
  | start c f =>
    constructor
    · rintro ⟨p, hu⟩
      rcases start_cases hu with hu | ⟨rfl, h⟩
      · exact .inl ⟨⟨p, hu⟩, by simp⟩
      · obtain ⟨rfl, rfl, -⟩ := Thread.mk.inj h
        exact .inr ⟨rfl, rfl⟩
    · rintro (⟨hl, -⟩ | ⟨rfl, hf⟩)
      · obtain ⟨p, hu⟩ := id hl
        exact ⟨p, by rw [List.getElem?_append_left hl.lt_length]; exact hu⟩
      · obtain ⟨rfl, rfl⟩ := Prod.mk.inj (Option.some.inj hf)
        exact ⟨M.body c f, by simp [fresh]⟩
  | env he => simp [Event.starts, Live]
  | crash c =>
    constructor
    · rintro ⟨p, hu⟩
      obtain ⟨th, hth, ⟨-, h⟩ | ⟨hc, rfl⟩⟩ := kill_cases hu
      · simp at h
      · exact .inl ⟨⟨p, hth⟩, fun h ↦ hc (Event.crash.inj h).symm⟩
    · rintro (⟨⟨p, hu⟩, hc⟩ | ⟨-, hf⟩)
      · have hne : d ≠ c := fun h ↦ hc (by rw [h])
        exact ⟨p, by simp [kill, hu, hne]⟩
      · simp [Event.starts] at hf

/-- Threads keep their owner and their call. -/
theorem exists_call {t : Nat} {th : Thread M} (h : Step P e P') (ht : P.threads[t]? = some th) :
    ∃ th', P'.threads[t]? = some th' ∧ th'.owner = th.owner ∧ th'.call = th.call := by
  have hlt : t < P.threads.length := (List.getElem?_eq_some_iff.1 ht).1
  have hresume {u : Nat} {tu : Thread M} {p : Prog S (M.Res ⊕ M.Call)} {f : Option M.Call}
      (hu : P.threads[u]? = some tu) :
      ∃ th', (P.resume u tu p f)[t]? = some th' ∧ th'.owner = th.owner ∧ th'.call = th.call := by
    by_cases htu : t = u
    · subst htu
      obtain rfl := Option.some.inj (ht.symm.trans hu)
      exact ⟨_, getElem?_resume_self ht, rfl, rfl⟩
    · exact ⟨th, by rw [getElem?_resume_of_ne htu hlt, ht], rfl, rfl⟩
  cases h with
  | op hu => exact hresume hu
  | again hu => exact hresume hu
  | start c f => exact ⟨th, by rw [List.getElem?_append_left hlt, ht], rfl, rfl⟩
  | env => exact ⟨th, ht, rfl, rfl⟩
  | crash c =>
    refine ⟨_, by rw [kill, List.getElem?_map, ht, Option.map_some], ?_⟩
    split <;> exact ⟨rfl, rfl⟩

/-- Threads stay in their places. -/
theorem length_le (h : Step P e P') : P.threads.length ≤ P'.threads.length := by
  cases h with
  | op => simp
  | again => simp
  | start => simp
  | env => exact le_rfl
  | crash => simp [kill]

/-- A thread was there, or was started. -/
theorem lt_or_starts {t : Nat} (h : Step P e P') (ht : t < P'.threads.length) :
    t < P.threads.length ∨ (t = P.threads.length ∧ ∃ c f, e.starts = some (c, f)) := by
  cases h with
  | @op u th o k ch r s f _ _ _ =>
    cases f with
    | none => exact .inl (by simpa using ht)
    | some g =>
      rcases Nat.lt_succ_iff_lt_or_eq.1 (by simpa using ht) with ht | ht
      · exact .inl ht
      · exact .inr ⟨ht, _, _, rfl⟩
  | start c f =>
    rcases Nat.lt_succ_iff_lt_or_eq.1 (by simpa using ht) with ht | ht
    · exact .inl ht
    · exact .inr ⟨ht, c, f, rfl⟩
  | again => exact .inl (by simpa using ht)
  | env => exact .inl ht
  | crash => exact .inl (by simpa [kill] using ht)

end Step

/-! ## Running alone -/

section Alone

variable [DecidableEq M.Owner] {Γ : Type} {upd : Γ → Pool M → Event M → Γ}
  {G : Γ → Pool M → Event M → Prop} {x₀ : Pool M × Γ} {P : Pool M} {γ : Γ}

/-- A run goes on with a call. -/
theorem Run.start (hr : Run upd G x₀ P γ) (c : M.Owner) (f : M.Call) (hg : G γ P (.start c f)) :
    ∃ P' γ', Run upd G x₀ P' γ' ∧ P'.state = P.state ∧
      P'.threads[P.threads.length]? = some ⟨c, f, some (M.body c f)⟩ :=
  ⟨_, _, hr.next hg (.start c f), rfl, by simp [fresh]⟩

/-- A run goes on with an operation of a thread. -/
theorem Run.op (hr : Run upd G x₀ P γ) {t : Nat} {c : M.Owner} {g : M.Call} {o : S.Op}
    {k : S.Reply o → Prog S (M.Res ⊕ M.Call)} {ch : M.Choice} {r : S.Reply o} {s : M.State}
    {f : Option M.Call} (ht : P.threads[t]? = some ⟨c, g, some (.call o k)⟩)
    (hx : M.exec c o ch P.state = some (r, s, f)) (hg : G γ P (.op t c o ch r f)) :
    ∃ P' γ', Run upd G x₀ P' γ' ∧ P'.state = s ∧ P'.threads[t]? = some ⟨c, g, some (k r)⟩ :=
  ⟨_, _, hr.next hg (.op ht rfl hx), rfl, getElem?_resume_self ht⟩

/-- **A thread that is left alone keeps its spec.**  If every operation that `X` allows can
be performed and passes the guard, a thread whose program ensures `Q` over `X` can be run
to its end, and then `Q` holds. -/
theorem Run.of_ensures {t : Nat} {c : M.Owner} {g : M.Call}
    {X : (o : S.Op) → M.State → S.Reply o → M.State → Prop} {Q : M.Res ⊕ M.Call → M.State → Prop}
    (hX : ∀ o s r s', X o s r s' → ∃ ch f, M.exec c o ch s = some (r, s', f) ∧
      ∀ γ P, G γ P (.op t c o ch r f))
    {p : Prog S (M.Res ⊕ M.Call)} (hr : Run upd G x₀ P γ)
    (ht : P.threads[t]? = some ⟨c, g, some p⟩) (hp : p.Ensures X Q P.state) :
    ∃ P' γ' a, Run upd G x₀ P' γ' ∧ Q a P'.state := by
  induction p generalizing P γ with
  | ret a => exact ⟨P, γ, a, hr, hp⟩
  | call o k ih =>
    obtain ⟨⟨r, s, hx⟩, hrest⟩ := hp
    obtain ⟨ch, f, hexec, hg⟩ := hX o P.state r s hx
    obtain ⟨P', γ', hr', rfl, ht'⟩ := hr.op ht hexec (hg γ P)
    exact ih r hr' ht' (hrest r _ hx)

end Alone

/-! ## Finishing -/

/-- Thread `t` is over: it returned, or was killed. -/
def Over (P : Pool M) (t : Nat) : Prop :=
  ∀ th p, P.threads[t]? = some th → th.prog = some p → ∃ a, p = .ret (.inl a)

section Finish

variable [DecidableEq M.Owner] {Γ : Type} {upd : Γ → Pool M → Event M → Γ}
  {G : Γ → Pool M → Event M → Prop} {x₀ : Pool M × Γ} {P : Pool M} {γ : Γ}
  (hcall : ∀ P γ, Run upd G x₀ P γ → ∀ (t : Nat) (th : Thread M) (o : S.Op)
    (k : S.Reply o → Prog S (M.Res ⊕ M.Call)), P.threads[t]? = some th →
      th.prog = some (.call o k) → ∃ ch r s, M.exec th.owner o ch P.state = some (r, s, none) ∧
        G γ P (.op t th.owner o ch r none))
  (hret : ∀ P γ, Run upd G x₀ P γ → ∀ (t : Nat) (th : Thread M) (f : M.Call),
    P.threads[t]? = some th → th.prog ≠ some (.ret (.inr f)))

include hcall hret

/-- A thread that can always go on and does not loop can be run to its end by itself. -/
theorem Run.finish (p : Prog S (M.Res ⊕ M.Call)) {t : Nat} {th : Thread M}
    (hr : Run upd G x₀ P γ) (ht : P.threads[t]? = some th) (hp : th.prog = some p) :
    ∃ P' γ', Run upd G (P, γ) P' γ' ∧ P'.Over t ∧ P'.threads.length = P.threads.length ∧
      ∀ u, u ≠ t → P'.threads[u]? = P.threads[u]? := by
  induction p generalizing P γ th with
  | ret a =>
    cases a with
    | inl a =>
      refine ⟨P, γ, .init, ?_, rfl, fun _ _ ↦ rfl⟩
      intro th' p' ht' hp'
      obtain rfl := Option.some.inj (ht.symm.trans ht')
      exact ⟨a, (Option.some.inj (hp.symm.trans hp')).symm⟩
    | inr f => exact absurd hp (hret P γ hr t th f ht)
  | call o k ih =>
    obtain ⟨ch, r, s, hx, hg⟩ := hcall P γ hr t th o k ht hp
    have hs : Step P (.op t th.owner o ch r none) ⟨s, P.resume t th (k r) none⟩ := .op ht hp hx
    obtain ⟨P', γ', hr', hover, hlen, hrest⟩ := ih r (hr.next hg hs)
      (getElem?_resume_self ht) rfl
    have hfirst : Run upd G (P, γ) _ _ := Run.next .init hg hs
    refine ⟨P', γ', hfirst.trans hr', hover, ?_, ?_⟩
    · rw [hlen]
      simp
    · intro u hu
      rw [hrest u hu]
      rcases lt_or_ge u P.threads.length with hlt | hge
      · exact getElem?_resume_of_ne hu hlt
      · rw [List.getElem?_eq_none hge, List.getElem?_eq_none (by simpa using hge)]

/-- **Runs can be finished**, if no thread gets stuck or loops. -/
theorem Run.exists_over (hr : Run upd G x₀ P γ) :
    ∃ P' γ', Run upd G (P, γ) P' γ' ∧ ∀ t, P'.Over t := by
  have hupto : ∀ n, ∃ P' γ', Run upd G (P, γ) P' γ' ∧ P'.threads.length = P.threads.length ∧
      ∀ t < n, P'.Over t := by
    intro n
    induction n with
    | zero => exact ⟨P, γ, .init, rfl, fun t ht ↦ absurd ht (Nat.not_lt_zero t)⟩
    | succ n ih =>
      obtain ⟨P₁, γ₁, hr₁, hlen₁, hover₁⟩ := ih
      -- what is over stays over while the next thread is run to its end
      cases ht : P₁.threads[n]? with
      | none =>
        refine ⟨P₁, γ₁, hr₁, hlen₁, fun t hlt th p hth hp ↦ ?_⟩
        rcases Nat.lt_succ_iff_lt_or_eq.1 hlt with hlt | rfl
        · exact hover₁ t hlt th p hth hp
        · simp [ht] at hth
      | some th =>
        cases hp : th.prog with
        | none =>
          refine ⟨P₁, γ₁, hr₁, hlen₁, fun t hlt th' p hth' hp' ↦ ?_⟩
          rcases Nat.lt_succ_iff_lt_or_eq.1 hlt with hlt | rfl
          · exact hover₁ t hlt th' p hth' hp'
          · obtain rfl := Option.some.inj (ht.symm.trans hth')
            simp [hp] at hp'
        | some p =>
          obtain ⟨P₂, γ₂, hr₂, hover₂, hlen₂, hrest⟩ := Run.finish hcall hret p (hr.trans hr₁) ht hp
          refine ⟨P₂, γ₂, hr₁.trans hr₂, hlen₂.trans hlen₁, fun t hlt ↦ ?_⟩
          rcases Nat.lt_succ_iff_lt_or_eq.1 hlt with hlt | rfl
          · intro th' p' hth' hp'
            rw [hrest t hlt.ne] at hth'
            exact hover₁ t hlt th' p' hth' hp'
          · exact hover₂
  obtain ⟨P', γ', hr', hlen, hover⟩ := hupto P.threads.length
  refine ⟨P', γ', hr', fun t th p hth hp ↦ ?_⟩
  have hlt : t < P'.threads.length := (List.getElem?_eq_some_iff.1 hth).1
  exact hover t (hlen ▸ hlt) th p hth hp

end Finish

end Pool

/-! ## Contracts -/

/-- A monitor that every call obeys: from `init` when the call is started, and from
any state the loop may go round in. -/
structure Contract (M : Machine S) extends Monitor S M.Owner where
  /-- The state of a thread that was just started. -/
  init : M.Owner → M.Call → State
  /-- The states in which a thread may return a result, or go round with a call. -/
  Exit : M.Owner → State → M.Res ⊕ M.Call → Prop
  /-- Every body obeys from the initial state. -/
  body_obeys : ∀ c f, (M.body c f).Obeys toMonitor c (Exit c) (init c f)
  /-- Every loop obeys when it goes round. -/
  again_obeys : ∀ c q f, Exit c q (.inr f) → (M.body c f).Obeys toMonitor c (Exit c) q

namespace Contract

variable {M : Machine S} (K : Contract M)

/-- The monitor states of all threads after an event. -/
def track (q : Nat → K.State) (P : Pool M) : Event M → Nat → K.State
  | .op t c o _ r f =>
    let q' := Function.update q t (K.next c (q t) o r)
    match f with
    | none => q'
    | some g => Function.update q' P.threads.length (K.init c g)
  | .start c f => Function.update q P.threads.length (K.init c f)
  | _ => q

/-- Every live thread obeys, from the monitor state that `q` gives it. -/
def Obeying (P : Pool M) (q : Nat → K.State) : Prop :=
  ∀ (t : Nat) (th : Thread M) (p : Prog S (M.Res ⊕ M.Call)), P.threads[t]? = some th →
    th.prog = some p → p.Obeys K.toMonitor th.owner (K.Exit th.owner) (q t)

variable {K}

theorem obeying_nil (s : M.State) (q : Nat → K.State) : K.Obeying ⟨s, []⟩ q := by
  intro t th p ht
  simp at ht

/-- The state of the thread that performed an operation. -/
theorem track_op_self {q : Nat → K.State} {P : Pool M} {t : Nat} {c : M.Owner} {o : S.Op}
    {ch : M.Choice} {r : S.Reply o} {f : Option M.Call} (ht : t < P.threads.length) :
    K.track q P (.op t c o ch r f) t = K.next c (q t) o r := by
  cases f with
  | none => simp [track]
  | some g => simp [track, Function.update_of_ne ht.ne]

/-- The state of a thread that was there and did nothing. -/
theorem track_op_of_ne {q : Nat → K.State} {P : Pool M} {t u : Nat} {c : M.Owner} {o : S.Op}
    {ch : M.Choice} {r : S.Reply o} {f : Option M.Call} (hne : u ≠ t)
    (hu : u < P.threads.length) : K.track q P (.op t c o ch r f) u = q u := by
  cases f with
  | none => simp [track, Function.update_of_ne hne]
  | some g => simp [track, Function.update_of_ne hne, Function.update_of_ne hu.ne]

/-- The state of the thread that an operation started. -/
theorem track_op_new {q : Nat → K.State} {P : Pool M} {t : Nat} {c : M.Owner} {o : S.Op}
    {ch : M.Choice} {r : S.Reply o} {g : M.Call} :
    K.track q P (.op t c o ch r (some g)) P.threads.length = K.init c g := by
  simp [track]

/-- Threads that were there and performed nothing keep their state. -/
theorem track_of_mover_ne {q : Nat → K.State} {P : Pool M} {e : Event M} {u : Nat}
    (hu : u < P.threads.length) (hne : e.mover ≠ some u) : K.track q P e u = q u := by
  cases e with
  | op t c o ch r f => exact track_op_of_ne (fun h ↦ hne (by rw [h]; rfl)) hu
  | start c f => simp [track, Function.update_of_ne hu.ne]
  | _ => rfl

/-- A new thread has the initial state of its call. -/
theorem track_starts {q : Nat → K.State} {P : Pool M} {e : Event M} {d : M.Owner} {g : M.Call}
    (h : e.starts = some (d, g)) : K.track q P e P.threads.length = K.init d g := by
  cases e with
  | op t c o ch r f =>
    obtain ⟨g', rfl, hg⟩ := Option.map_eq_some_iff.1 h
    obtain ⟨rfl, rfl⟩ := Prod.mk.inj hg
    exact track_op_new
  | start c f =>
    obtain ⟨rfl, rfl⟩ := Prod.mk.inj (Option.some.inj h)
    simp [track]
  | _ => simp [Event.starts] at h

variable [DecidableEq M.Owner]

/-- **Every step keeps the threads obeying.** -/
theorem Obeying.step {P P' : Pool M} {q : Nat → K.State} {e : Event M} (h : K.Obeying P q)
    (hs : Pool.Step P e P') : K.Obeying P' (K.track q P e) := by
  intro u tu p hu hp
  cases hs with
  | @op t th o k ch r s f ht hpt hx =>
    have htl : t < P.threads.length := (List.getElem?_eq_some_iff.1 ht).1
    rcases Pool.resume_cases ht hu with ⟨rfl, rfl⟩ | ⟨hne, hu⟩ | ⟨rfl, g, rfl, rfl⟩
    · obtain rfl := Option.some.inj hp
      rw [track_op_self htl]
      exact (h _ _ _ ht hpt).2 r
    · rw [track_op_of_ne hne (List.getElem?_eq_some_iff.1 hu).1]
      exact h _ _ _ hu hp
    · obtain rfl := Option.some.inj hp
      rw [track_op_new]
      exact K.body_obeys _ _
  | @again t th f ht hpt =>
    rcases Pool.resume_cases ht hu with ⟨rfl, rfl⟩ | ⟨hne, hu⟩ | ⟨-, g, hg, -⟩
    · obtain rfl := Option.some.inj hp
      exact K.again_obeys _ _ _ (h _ _ _ ht hpt)
    · exact h _ _ _ hu hp
    · simp at hg
  | start c f =>
    rcases Pool.start_cases hu with hu | ⟨rfl, rfl⟩
    · rw [track_of_mover_ne (List.getElem?_eq_some_iff.1 hu).1 (by simp [Event.mover])]
      exact h _ _ _ hu hp
    · obtain rfl := Option.some.inj hp
      rw [track_starts rfl]
      exact K.body_obeys _ _
  | env he => exact h _ _ _ hu hp
  | crash c =>
    obtain ⟨th, hth, ⟨-, rfl⟩ | ⟨-, rfl⟩⟩ := Pool.kill_cases hu
    · simp at hp
    · exact h _ _ _ hth hp

/-- **Every operation of a run is allowed** in the state of the thread that performs
it. -/
theorem Obeying.ok {P P' : Pool M} {q : Nat → K.State} {t : Nat} {c : M.Owner} {o : S.Op}
    {ch : M.Choice} {r : S.Reply o} {f : Option M.Call} (h : K.Obeying P q)
    (hs : Pool.Step P (.op t c o ch r f) P') : K.Ok c (q t) o := by
  cases hs with
  | op ht hp _ => exact (h _ _ _ ht hp).1

/-- **The rule for what holds of each thread by itself.**  A step turns `I` into `Q` for
every live thread if it does so for the threads that stand still, for the one that
moves, whose operation is allowed, and for the one that is started. -/
theorem Obeying.each {P P' : Pool M} {q : Nat → K.State} {e : Event M}
    {I Q : M.Owner → M.Call → K.State → Prop} (hob : K.Obeying P q) (hs : Pool.Step P e P')
    (h : ∀ t c f, P.Live t c f → I c f (q t))
    (still : ∀ t c f, P.Live t c f → e ≠ .crash c → e.mover ≠ some t → I c f (q t) →
      Q c f (q t))
    (move : ∀ t c f o ch r g, e = .op t c o ch r g → P.Live t c f → K.Ok c (q t) o →
      M.exec c o ch P.state = some (r, P'.state, g) → I c f (q t) → Q c f (K.next c (q t) o r))
    (new : ∀ c f, e.starts = some (c, f) → Q c f (K.init c f)) :
    ∀ t c f, P'.Live t c f → Q c f (K.track q P e t) := by
  intro t c f hl
  rcases hs.live_iff.1 hl with ⟨hl, hc⟩ | ⟨rfl, hst⟩
  · by_cases hm : e.mover = some t
    · cases e with
      | op t' c' o ch r g =>
        obtain rfl : t' = t := Option.some.inj hm
        obtain ⟨f', hl'⟩ := hs.op_live
        obtain ⟨rfl, rfl⟩ := hl.unique hl'
        rw [track_op_self hl.lt_length]
        exact move _ _ _ _ _ _ _ rfl hl (hob.ok hs) hs.op_exec (h _ _ _ hl)
      | _ => simp [Event.mover] at hm
    · rw [track_of_mover_ne hl.lt_length hm]
      exact still _ _ _ hl hc hm (h _ _ _ hl)
  · rw [track_starts hst]
    exact new _ _ hst

/-- **The rule for what holds of each two threads.**  A step keeps a symmetric relation between
the states of every two live threads if it does so for the one that moves with each other one,
and for the one that is started with each other one. -/
theorem track_pairs {P P' : Pool M} {q : Nat → K.State} {e : Event M}
    {R : K.State → K.State → Prop} (hsymm : ∀ a b, R a b → R b a) (hs : Pool.Step P e P')
    (h : ∀ t u c d f g, P.Live t c f → P.Live u d g → t ≠ u → R (q t) (q u))
    (move : ∀ t c o ch r f, e = .op t c o ch r f → ∀ u d g, P.Live u d g → u ≠ t →
      R (K.next c (q t) o r) (q u))
    (new : ∀ c f, e.starts = some (c, f) → ∀ u d g, P.Live u d g →
      R (K.init c f) (K.track q P e u)) :
    ∀ t u c d f g, P'.Live t c f → P'.Live u d g → t ≠ u →
      R (K.track q P e t) (K.track q P e u) := by
  have hold : ∀ t u c d f g, P.Live t c f → P.Live u d g → t ≠ u →
      R (K.track q P e t) (K.track q P e u) := by
    intro t u c d f g ht hu hne
    by_cases hmt : e.mover = some t
    · cases e with
      | op t' c' o ch r f' =>
        obtain rfl : t' = t := Option.some.inj hmt
        rw [track_op_self ht.lt_length, track_op_of_ne hne.symm hu.lt_length]
        exact move _ _ _ _ _ _ rfl u d g hu hne.symm
      | _ => cases hmt
    · by_cases hmu : e.mover = some u
      · cases e with
        | op u' c' o ch r f' =>
          obtain rfl : u' = u := Option.some.inj hmu
          rw [track_op_self hu.lt_length, track_op_of_ne hne ht.lt_length]
          exact hsymm _ _ (move _ _ _ _ _ _ rfl t c f ht hne)
        | _ => cases hmu
      · rw [track_of_mover_ne ht.lt_length hmt, track_of_mover_ne hu.lt_length hmu]
        exact h t u c d f g ht hu hne
  intro t u c d f g ht hu hne
  rcases hs.live_iff.1 ht with ⟨ht, -⟩ | ⟨rfl, hst⟩
  · rcases hs.live_iff.1 hu with ⟨hu, -⟩ | ⟨rfl, hst⟩
    · exact hold t u c d f g ht hu hne
    · have hnew := new _ _ hst t c f ht
      rw [← track_starts hst] at hnew
      exact hsymm _ _ hnew
  · rcases hs.live_iff.1 hu with ⟨hu, -⟩ | ⟨rfl, -⟩
    · have hnew := new _ _ hst u d g hu
      rwa [← track_starts hst] at hnew
    · exact absurd rfl hne

end Contract

end RedisStreamClient.Lib

import RedisStreamClient.Lib.Pool
import Mathlib.Algebra.BigOperators.Group.Finset.Basic
import Mathlib.Algebra.Order.Monoid.Defs
import Mathlib.Tactic.Abel

/-!
# What the threads have in hand

Threads pick things up from one place and put them down in another, and have them in hand in
between.  A contract knows what each thread has in hand; `Contract.held` adds that up over all
threads, the crashed ones too, in any commutative monoid: a multiset for the things themselves, a
number for how many there are.

`held_step` says how the sum moves in a step: only the thread that performs an operation and the
one that is started count.  Where threads start with empty hands, whatever is picked up and put
down is conserved if each operation balances for the thread that performs it (`total_op`); where
threads may also let things go, what was put down is bounded by what was picked up (`bound_op`).
-/

namespace RedisStreamClient.Lib

namespace Contract

variable {S : Sig} {M : Machine S} (K : Contract M) {α : Type} [AddCommMonoid α]
  (hand : K.State → α)

/-- What all threads have in hand. -/
def held (P : Pool M) (q : Nat → K.State) : α :=
  ∑ t ∈ Finset.range P.threads.length, hand (q t)

/-- What the thread that moves had in hand. -/
def before (q : Nat → K.State) : Event M → α
  | .op t _ _ _ _ _ => hand (q t)
  | .again _ | .start _ _ | .env _ | .crash _ => 0

/-- What the thread that moves has in hand after it, and what a new thread starts with. -/
def after (q : Nat → K.State) : Event M → α
  | .op t c o _ r f => hand (K.next c (q t) o r) + f.elim 0 fun g ↦ hand (K.init c g)
  | .start c f => hand (K.init c f)
  | .again _ | .env _ | .crash _ => 0

variable {K} {P P' : Pool M} {e : Event M} (q : Nat → K.State)

theorem held_nil (h : P.threads = []) : K.held hand P q = 0 := by
  simp [held, h]

/-- One thread's hand in the sum. -/
theorem sum_update {n t : Nat} (ht : t < n) (x : K.State) :
    ∑ u ∈ Finset.range n, hand (Function.update q t x u) + hand (q t) =
      ∑ u ∈ Finset.range n, hand (q u) + hand x := by
  have hmem : t ∈ Finset.range n := Finset.mem_range.2 ht
  have hrest : ∑ u ∈ (Finset.range n).erase t, hand (Function.update q t x u) =
      ∑ u ∈ (Finset.range n).erase t, hand (q u) := by
    refine Finset.sum_congr rfl fun u hu ↦ ?_
    rw [Function.update_of_ne (Finset.ne_of_mem_erase hu)]
  rw [← Finset.add_sum_erase _ _ hmem, ← Finset.add_sum_erase _ (fun u ↦ hand (q u)) hmem, hrest,
    Function.update_self]
  abel

/-- A new thread in the sum. -/
theorem sum_start {n : Nat} (x : K.State) :
    ∑ u ∈ Finset.range (n + 1), hand (Function.update q n x u) =
      ∑ u ∈ Finset.range n, hand (q u) + hand x := by
  rw [Finset.sum_range_succ, Function.update_self]
  congr 1
  refine Finset.sum_congr rfl fun u hu ↦ ?_
  rw [Function.update_of_ne (Finset.mem_range.1 hu).ne]

variable [DecidableEq M.Owner]

/-- **How the sum moves.** -/
theorem held_step (hs : Pool.Step P e P') :
    K.held hand P' (K.track q P e) + K.before hand q e = K.held hand P q + K.after hand q e := by
  cases hs with
  | @op t th o k ch r s f ht hp hx =>
    have hlt : t < P.threads.length := (List.getElem?_eq_some_iff.1 ht).1
    have hupd := sum_update hand q hlt (K.next th.owner (q t) o r)
    cases f with
    | none =>
      rw [held, Pool.length_resume]
      simpa [held, track, before, after] using hupd
    | some g =>
      rw [held, Pool.length_resume]
      simp only [Option.toList_some, List.length_singleton, track, before, after, Option.elim_some,
        held]
      rw [sum_start, add_right_comm, hupd, add_assoc]
  | again ht hp =>
    rw [held, Pool.length_resume]
    simp [held, track, before, after]
  | start c f =>
    rw [held, List.length_append]
    simpa [held, track, before, after] using sum_start hand q (K.init c f)
  | env he => rfl
  | crash c =>
    rw [held, Pool.kill, List.length_map]
    rfl

variable {hand q} {t : Nat} {c : M.Owner} {o : S.Op} {ch : M.Choice} {r : S.Reply o}
  {f : Option M.Call}

/-- Threads that start with empty hands do not count. -/
theorem held_op (hinit : ∀ c f, hand (K.init c f) = 0)
    (hs : Pool.Step P (.op t c o ch r f) P') :
    K.held hand P' (K.track q P (.op t c o ch r f)) + hand (q t) =
      K.held hand P q + hand (K.next c (q t) o r) := by
  have hstep := held_step hand q hs
  cases f with
  | none => simpa [before, after] using hstep
  | some g => simpa [before, after, hinit] using hstep

/-- Nor does anything but an operation. -/
theorem held_of_mover (hinit : ∀ c f, hand (K.init c f) = 0) (hs : Pool.Step P e P')
    (hm : e.mover = none) : K.held hand P' (K.track q P e) = K.held hand P q := by
  have hstep := held_step hand q hs
  cases e with
  | op t c o ch r f => cases hm
  | start c f => simpa [before, after, hinit] using hstep
  | _ => simpa [before, after] using hstep

end Contract

namespace Contract

variable {S : Sig} {M : Machine S} {K : Contract M} {α : Type} [DecidableEq M.Owner]
  {P P' : Pool M} {q : Nat → K.State} {t : Nat} {c : M.Owner} {o : S.Op} {ch : M.Choice}
  {r : S.Reply o} {f : Option M.Call}

/-- **Conservation.**  What was picked up is what was put down and what is in hand, if the
operation balances for its thread. -/
theorem total_op [AddCancelCommMonoid α] {hand : K.State → α} {up up' down down' : α}
    (hinit : ∀ c f, hand (K.init c f) = 0) (hs : Pool.Step P (.op t c o ch r f) P')
    (h : up = down + K.held hand P q)
    (hbal : up' + hand (q t) = down' + hand (K.next c (q t) o r)) :
    up + up' = down + down' + K.held hand P' (K.track q P (.op t c o ch r f)) := by
  have hheld := held_op (q := q) hinit hs
  refine add_right_cancel (b := hand (q t)) ?_
  calc up + up' + hand (q t) = up + (up' + hand (q t)) := add_assoc _ _ _
    _ = down + down' + (K.held hand P q + hand (K.next c (q t) o r)) := by
      rw [h, hbal]
      abel
    _ = down + down' + K.held hand P' (K.track q P (.op t c o ch r f)) + hand (q t) := by
      rw [← hheld]
      abel

/-- What was put down and what is in hand is bounded by what was picked up, if the operation puts
down no more than its thread has. -/
theorem bound_op [AddCancelCommMonoid α] [PartialOrder α] [IsOrderedCancelAddMonoid α]
    {hand : K.State → α} {up up' down down' : α} (hinit : ∀ c f, hand (K.init c f) = 0)
    (hs : Pool.Step P (.op t c o ch r f) P') (h : down + K.held hand P q ≤ up)
    (hbal : down' + hand (K.next c (q t) o r) ≤ up' + hand (q t)) :
    down + down' + K.held hand P' (K.track q P (.op t c o ch r f)) ≤ up + up' := by
  have hheld := held_op (q := q) hinit hs
  refine le_of_add_le_add_right (a := hand (q t)) ?_
  calc down + down' + K.held hand P' (K.track q P (.op t c o ch r f)) + hand (q t) =
        (down + K.held hand P q) + (down' + hand (K.next c (q t) o r)) := by
        rw [add_assoc, hheld]
        abel
    _ ≤ up + (up' + hand (q t)) := add_le_add h hbal
    _ = up + up' + hand (q t) := (add_assoc _ _ _).symm

end Contract

end RedisStreamClient.Lib

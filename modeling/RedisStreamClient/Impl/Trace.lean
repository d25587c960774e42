import RedisStreamClient.Impl.Knowledge

/-!
# The events of a run

Where a statement is about what one goroutine has done so far, a run carries its events
besides its history.
-/

namespace RedisStreamClient.Impl

open RedisStreamClient.Lib RedisStreamClient.Errs RedisStreamClient.Notifs
open RedisStreamClient.Redis

/-- The events of a run, the last one first. -/
abbrev Trace (V : Service) : Type := List (Event V.machine)

section Trace

variable {V : Service}

/-- Goroutine `t` acknowledged an entry that was pending. -/
def ackedOne (t : Nat) : Event V.machine → Bool
  | .op t' _ (.xack _ _ _) _ (.ok n) _ => t' == t && n == 1
  | _ => false

/-- What goroutine `t` added to a stream. -/
def addition (t : Nat) : Event V.machine → Option (String × Values)
  | .op t' _ (.xadd stream _ values) _ (.ok _) _ =>
    if t' = t then some (stream, values) else none
  | _ => none

/-- How many of the `XACK`s of goroutine `t` returned 1. -/
def Trace.wins (tr : Trace V) (t : Nat) : Nat := tr.countP (ackedOne t)

/-- What goroutine `t` added to streams. -/
def Trace.adds (tr : Trace V) (t : Nat) : List (String × Values) := tr.filterMap (addition t)

end Trace

instance instDecidableFaultNone (ch : Choice) : Decidable (ch.fault = .none) :=
  match ch with
  | ⟨.none, _, _, _⟩ => .isTrue rfl
  | ⟨.fail _, _, _, _⟩ | ⟨.lost _, _, _, _⟩ => .isFalse nofun

/-- No Redis command meets a fault. -/
def NoFault {J : Json} {cfg : Nat → Client} : Event (machine J cfg) → Prop
  | .op _ _ _ ch _ _ => ch.fault = .none
  | .again _ | .env _ | .start _ _ | .crash _ => True

instance instDecidableNoFault {J : Json} {cfg : Nat → Client} (e : Event (machine J cfg)) :
    Decidable (NoFault e) :=
  match e with
  | .op _ _ _ ch _ _ => instDecidableFaultNone ch
  | .again _ | .env _ | .start _ _ | .crash _ => .isTrue trivial

/-- The history and the events after an event. -/
def Service.note (V : Service) (γ : History × Trace V) (P : Pool V.machine)
    (e : Event V.machine) : History × Trace V :=
  (γ.1.update V P e, e :: γ.2)

section Trace

variable {V : Service} {tr : Trace V} {e : Event V.machine} {t c : Nat} {o : Op} {ch : Choice}
  {r : o.Reply} {f : Option Call}

/-- Whoever does not move wins nothing. -/
theorem Trace.wins_cons_of_ne (h : e.mover ≠ some t) : Trace.wins (e :: tr) t = tr.wins t := by
  rw [Trace.wins, List.countP_cons_of_neg, Trace.wins]
  intro hwin
  unfold ackedOne at hwin
  split at hwin
  · obtain ⟨ht, -⟩ := Bool.and_eq_true_iff.1 hwin
    exact h (by rw [beq_iff_eq.1 ht]; rfl)
  · cases hwin

/-- Whoever does not move adds nothing. -/
theorem Trace.adds_cons_of_ne (h : e.mover ≠ some t) : Trace.adds (e :: tr) t = tr.adds t := by
  rw [Trace.adds, List.filterMap_cons_none, Trace.adds]
  unfold addition
  split
  · rw [if_neg]
    rintro rfl
    exact h rfl
  · rfl

/-- Only an acknowledgement wins. -/
theorem Trace.wins_cons_of_op (h : ∀ s g i, o ≠ .xack s g i) :
    Trace.wins (.op (M := V.machine) t c o ch r f :: tr) t = tr.wins t := by
  rw [Trace.wins, List.countP_cons_of_neg, Trace.wins]
  cases o with
  | xack s g i => exact absurd rfl (h s g i)
  | _ => exact nofun

/-- An acknowledgement that counted. -/
theorem Trace.wins_cons_of_won {s g id : String} :
    Trace.wins (.op (M := V.machine) t c (.xack s g id) ch (.ok 1) f :: tr) t = tr.wins t + 1 := by
  rw [Trace.wins, List.countP_cons_of_pos, Trace.wins]
  simp [ackedOne]

/-- An acknowledgement that came too late. -/
theorem Trace.wins_cons_of_lost {s g id : String} :
    Trace.wins (.op (M := V.machine) t c (.xack s g id) ch (.ok 0) f :: tr) t = tr.wins t := by
  rw [Trace.wins, List.countP_cons_of_neg, Trace.wins]
  simp [ackedOne]

/-- Only an addition adds. -/
theorem Trace.adds_cons_of_op (h : ∀ s n v, o ≠ .xadd s n v) :
    Trace.adds (.op (M := V.machine) t c o ch r f :: tr) t = tr.adds t := by
  rw [Trace.adds, List.filterMap_cons_none, Trace.adds]
  cases o with
  | xadd s n v => exact absurd rfl (h s n v)
  | _ => rfl

/-- An addition. -/
theorem Trace.adds_cons_of_added {s id : String} {n : Int} {v : Values} :
    Trace.adds (.op (M := V.machine) t c (.xadd s n v) ch (.ok id) f :: tr) t =
      (s, v) :: tr.adds t := by
  rw [Trace.adds, List.filterMap_cons_some, Trace.adds]
  simp [addition]

end Trace

end RedisStreamClient.Impl

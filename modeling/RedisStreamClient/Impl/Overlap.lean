import RedisStreamClient.Impl.Refusal
import RedisStreamClient.Impl.Subscriptions

/-!
# Overlapping calls of ReinitTopology and Done

Two calls of `ReinitTopology` that both close the old subscriptions before either opens its own
leave every master with two.  Where every `closeAll` comes while no other goroutine has
subscriptions to open or to add, and none to subscribe again after `Done`, there is never more
than one on a master, and none once `Done` has returned.
-/

namespace RedisStreamClient.Impl.Lifecycle

open RedisStreamClient.Lib RedisStreamClient.Errs RedisStreamClient.Notifs

section

variable {J : Json} {r : Config} {hoss : r.clusterMode = .oss} {P P' : Pool (machine J r)}
  {q : Nat → Session} {e : Event (machine J r)}

/-- `ReinitTopology`, `Done` and the calls on the side. -/
def Call.overlaps : Call → Bool
  | .reinitTopology | .done => true
  | f => f.isAside

/-- `closeAll`. -/
def Op.isCloseAll : Op → Bool
  | .ossCloseAll => true
  | _ => false

/-- Calls of `ReinitTopology` and `Done`, at any time. -/
def Calling : Event (machine J r) → Prop
  | .start _ f => f.overlaps = true
  | .crash _ => False
  | _ => True

/-- Whenever a call is about to run `closeAll`, no other goroutine has subscriptions to open or to
add; and `ReinitTopology` does not run it after `Done` has. -/
def InTurn (q : Nat → Session) (P : Pool (machine J r)) : Event (machine J r) → Prop
  | .op t _ o _ _ _ => o.isCloseAll = true → ∀ u < P.threads.length, u ≠ t →
      (q u).pending = false ∧ ((q t).stage = .checking → (q u).stage ≠ .closed)
  | _ => True

instance : DecidablePred (Calling (J := J) (r := r))
  | .start _ f => inferInstanceAs (Decidable (f.overlaps = true))
  | .crash _ => .isFalse id
  | .op _ _ _ _ _ _ | .again _ | .env _ => .isTrue trivial

instance (q : Nat → Session) (P : Pool (machine J r)) : DecidablePred (InTurn q P)
  | .op t _ o _ _ _ => inferInstanceAs (Decidable (o.isCloseAll = true →
      ∀ u < P.threads.length, u ≠ t →
        (q u).pending = false ∧ ((q t).stage = .checking → (q u).stage ≠ .closed)))
  | .start _ _ | .crash _ | .again _ | .env _ => .isTrue trivial

theorem InTurn.alone (hcall : Calling e) (h : InTurn q P e) : Alone q P e := by
  cases e with
  | op t c o ch x f =>
    cases o with
    | ossCloseAll => exact fun u c f hu hne ↦ h rfl u hu.lt_length hne
    | _ => trivial
  | start c f =>
    cases f with
    | init | callback _ _ _ => cases hcall
    | _ => trivial
  | crash c => exact hcall
  | _ => trivial

theorem Calling.properly (hcall : Calling e) : Properly e := by
  cases e with
  | start c f =>
    cases f with
    | callback _ _ _ => cases hcall
    | _ => trivial
  | _ => trivial

/-- **Overlapping calls that take their turn do not stack or leak subscriptions.**  In every run
of a client of an OSS cluster with any number of overlapping calls of `ReinitTopology` and `Done`
whose every `closeAll` comes while no other call has subscriptions to open or to add, and none
to subscribe again after `Done`, in every state that is reached: no master has two open
subscriptions, and there is none if `Done` has returned nil. -/
theorem overlapping_one_open {P₀ : Pool (machine J r)} (h₀ : P₀.threads = [])
    (hsub : P₀.state.Subscribed) {q₀ : Nat → Session}
    (hr : Pool.Run (topology J r hoss).track (fun q P e ↦ Calling e ∧ InTurn q P e) (P₀, q₀) P q) :
    (∀ m ps ps', P.state.OpenOn (some m) ps → P.state.OpenOn (some m) ps' → ps = ps') ∧
      ∀ t : Nat, P.threads[t]? = some ⟨(), .done, some (.ret (.inl (.done none)))⟩ →
        ∀ node ps, ¬ P.state.OpenOn node ps := by
  have hinv : (topology J r hoss).Obeying P q ∧ Fans P q ∧ Subs P q := by
    refine Pool.Run.invariant (I := fun P q ↦ (topology J r hoss).Obeying P q ∧ Fans P q ∧ Subs P q)
      ⟨?_, .nil h₀, hsub.subs h₀ q₀⟩ ?_ hr
    · intro t th p ht
      simp [h₀] at ht
    · rintro P q e P' ⟨hob, hF, hS⟩ ⟨hcall, hturn⟩ hs
      exact ⟨hob.step hs, hF.step hob hcall.properly hs, hS.step hob hF (hturn.alone hcall) hs⟩
  obtain ⟨hob, -, hS⟩ := hinv
  refine ⟨fun m ↦ hS.unique (some m), fun t ht ↦ ?_⟩
  have hexit : (q t).Exit (.inl (.done none)) := hob t _ _ ht rfl
  exact (hS.each t () .done ⟨_, ht⟩).closed (by rw [show q t = .on .closed from hexit]; rfl)

end

namespace Demo

/-- A cluster with one master, and the subscription that `Init` opened on it. -/
def subscribed : Pool clusterMachine where
  state := { unstarted.state with
    masters := ⟨["a"], List.nodup_singleton _⟩
    nodes := ["a"]
    pubSubs := [⟨some "a", true⟩]
    ossPubSubs := [0]
    lbsCtxCancelFunc := true }
  threads := []

theorem subscribed_subscribed : subscribed.state.Subscribed := by
  have hps {node : Option String} {ps : Nat} (h : subscribed.state.OpenOn node ps) : ps = 0 :=
    Nat.lt_one_iff.1 h.lt_length
  refine ⟨rfl, ?_, ?_, ?_⟩
  · intro node ps h
    rw [hps h]
    exact List.mem_singleton_self _
  · intro ps h
    rw [List.mem_singleton.1 h]
    exact ⟨some "a", rfl⟩
  · intro node ps ps' h h'
    rw [hps h, hps h']

/-- A node that answers that the cluster is fine. -/
def settledly : Choice := ⟨.plain, "cluster_state:ok", none, []⟩

/-- The next operations of goroutine `t`. -/
def goes (t n : Nat) : List (Pool.Label clusterMachine) := List.replicate n (.op t settledly)

/-- `ReinitTopology`, as goroutine `t`, up to `closeAll`, with its callbacks from `u` on. -/
def reinits (t u : Nat) : List (Pool.Label clusterMachine) :=
  goes t 2 ++ goes u 4 ++ goes t 4 ++ goes (u + 1) 5 ++ goes t 1

/-- From there on. -/
def resubscribes (t u : Nat) : List (Pool.Label clusterMachine) := goes t 2 ++ goes u 4 ++ goes t 2

/-- Two calls that overlap. -/
def twice : List (Pool.Label clusterMachine) :=
  [.start () .reinitTopology, .start () .reinitTopology] ++ reinits 0 2 ++ reinits 1 4 ++
    goes 0 1 ++ goes 1 1 ++ resubscribes 0 6 ++ resubscribes 1 8

/-- A goroutine sees that the broker is quitting. -/
def quits (t : Nat) : Pool.Label clusterMachine := .op t ⟨⟨.none, .zero, 0, .quit⟩, "", none, []⟩

/-- `Done`, as goroutine `t`, with the goroutine of the broker before it. -/
def dones (t : Nat) : List (Pool.Label clusterMachine) :=
  [.start () (.client (.broker .run)), .start () .done] ++ goes (t + 1) 1 ++ [.again (t + 1)] ++
    goes (t + 1) 3 ++ [quits t, .again t] ++ goes t 3 ++ goes (t + 1) 5

/-- Two calls that overlap, the second of which closes what the first has opened. -/
def inTurn : List (Pool.Label clusterMachine) :=
  [.start () .reinitTopology, .start () .reinitTopology] ++ reinits 0 2 ++ reinits 1 4 ++
    goes 0 1 ++ resubscribes 0 6 ++ goes 1 1 ++ resubscribes 1 8

theorem doubled_isSome : (Pool.schedule (fun _ _ _ ↦ ()) (fun _ _ e ↦ Calling e) twice
    (subscribed, ())).isSome = true := by
  decide +kernel

/-- Two calls of `ReinitTopology` that overlapped have returned. -/
def doubled : Pool clusterMachine :=
  ((Pool.schedule (fun _ _ _ ↦ ()) (fun _ _ e ↦ Calling e) twice
    (subscribed, ())).get doubled_isSome).1

theorem reopened_isSome : (Pool.schedule (topology _ cluster rfl).track
    (fun q P e ↦ Calling e ∧ InTurn q P e) inTurn
      (subscribed, fun _ ↦ .on .calm)).isSome = true := by
  decide +kernel

/-- Two calls of `ReinitTopology` that overlapped have returned, in turn. -/
def reopened : Pool clusterMachine × (Nat → Session) :=
  (Pool.schedule (topology _ cluster rfl).track (fun q P e ↦ Calling e ∧ InTurn q P e) inTurn
    (subscribed, fun _ ↦ .on .calm)).get reopened_isSome

theorem closed_isSome : (Pool.schedule (topology _ cluster rfl).track
    (fun q P e ↦ Calling e ∧ InTurn q P e) (inTurn ++ dones 10)
      (subscribed, fun _ ↦ .on .calm)).isSome = true := by
  decide +kernel

/-- After them `Done` has returned. -/
def closed : Pool clusterMachine × (Nat → Session) :=
  (Pool.schedule (topology _ cluster rfl).track (fun q P e ↦ Calling e ∧ InTurn q P e)
    (inTurn ++ dones 10) (subscribed, fun _ ↦ .on .calm)).get closed_isSome

end Demo

/-- After two overlapping calls of `ReinitTopology` one subscription is open, and after `Done`
none. -/
theorem overlapping_one_open_closed :
    (Demo.reopened.1.isOver 0 = true ∧ Demo.reopened.1.isOver 1 = true ∧
      Demo.reopened.1.state.OpenOn (some "a") 2 ∧
        ∀ ps, Demo.reopened.1.state.OpenOn (some "a") ps → ps = 2) ∧
      returnedNil Demo.closed.1 11 = true ∧
        ∀ node ps, ¬ Demo.closed.1.state.OpenOn node ps := by
  have hopen : Demo.reopened.1.state.OpenOn (some "a") 2 := by decide +kernel
  have hdone : returnedNil Demo.closed.1 11 = true := by decide +kernel
  refine ⟨⟨by decide +kernel, by decide +kernel, hopen, fun ps hps ↦ ?_⟩, hdone, ?_⟩
  · exact (overlapping_one_open rfl Demo.subscribed_subscribed
      (Pool.run_of_isSome Demo.reopened_isSome)).1 "a" ps 2 hps hopen
  · exact (overlapping_one_open rfl Demo.subscribed_subscribed
      (Pool.run_of_isSome Demo.closed_isSome)).2 11 (eq_of_returnedNil hdone)

/-- Two overlapping calls of `ReinitTopology` leave the master with two subscriptions: both close
the old one before either opens its own. -/
theorem overlapping_stacks :
    Pool.Run (fun _ _ _ ↦ ()) (fun _ _ e ↦ Calling e) (Demo.subscribed, ()) Demo.doubled () ∧
      Demo.doubled.isOver 0 = true ∧ Demo.doubled.isOver 1 = true ∧
      Demo.doubled.state.OpenOn (some "a") 1 ∧ Demo.doubled.state.OpenOn (some "a") 2 := by
  refine ⟨Pool.run_of_isSome Demo.doubled_isSome, ?_⟩
  decide +kernel

end RedisStreamClient.Impl.Lifecycle

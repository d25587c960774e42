import RedisStreamClient.Impl.Knowledge
import RedisStreamClient.Impl.Setup
import RedisStreamClient.Lib.Schedule

/-!
# Draining the channel of keyspace notifications

`cleanup` empties `kspChan` by a loop that tests the length of the channel and then
receives from it.  The listener is still running and receives from the same channel, so
the message that the test saw can be gone before the receive, which then blocks.

A contract says that every receive of `cleanup` follows a test that found a message.
Where nobody takes the last message from a goroutine that stands between its test and its
receive, no receive meets an empty channel.
-/

namespace RedisStreamClient.Impl.Lifecycle

open RedisStreamClient.Lib RedisStreamClient.Errs RedisStreamClient.Notifs

/-! ## Receives follow tests -/

/-- The receive of `cleanup`. -/
def Op.isReceive : Op → Bool
  | .kspReceive => true
  | _ => false

/-- The operations of the loop of `cleanup`. -/
def Op.drains : Op → Bool
  | .kspLen | .kspReceive => true
  | _ => false

/-- A test of the length that found a message. -/
def Op.finds : (o : Op) → o.Reply → Bool
  | .kspLen, n => decide (0 < (show Nat from n))
  | _, _ => false

theorem Op.isReceive_eq_false {o : Op} (h : o.drains = false) : o.isReceive = false := by
  cases o <;> first | rfl | cases h

theorem Op.finds_eq_false {o : Op} (h : o.drains = false) (x : o.Reply) : o.finds x = false := by
  cases o <;> first | rfl | cases h

/-- Whether a goroutine stands between a test that found a message and its receive. -/
@[reducible] def drainMonitor : Monitor sig Unit where
  State := Bool
  Ok _ q o := o.isReceive = q
  next _ _ o r := o.finds r

section

variable {A B : Type} {J : Json} {r : Config}

/-- A program without the loop of `cleanup`. -/
def Idle (p : Prog sig A) : Prop := p.Only fun o : Op ↦ o.drains = false

theorem Idle.ret (a : A) : Idle (.ret a) := trivial

theorem Idle.bind {p : Prog sig A} {f : A → Prog sig B} (hp : Idle p) (hf : ∀ a, Idle (f a)) :
    Idle (p >>= f) := Prog.Only.bind hp hf

theorem idle_lift (p : Prog Impl.sig A) : Idle (Op.lift p) :=
  Prog.only_embed (S := Impl.sig) (T := sig) (f := Op.client) (fun _ ↦ rfl) p

/-- What is not about the LBS does not drain. -/
theorem Setup.idle {p : Prog sig A} (hp : Setup p) : Idle p := by
  refine Prog.Only.mono (fun (o : Op) ho ↦ ?_) hp
  cases o <;> first | rfl | cases ho

theorem idle_done : Idle (done r) := by
  refine Prog.Only.mono (fun (o : Op) ho ↦ ?_) done_within.only
  cases o <;> first | rfl | cases ho

theorem idle_release : Idle cleanup.release := by
  refine Prog.Only.mono (fun (o : Op) ho ↦ ?_) release_within.only
  cases o <;> first | rfl | cases ho

/-- What does not drain obeys. -/
theorem Idle.obeys {p : Prog sig A} (hp : Idle p) :
    p.Obeys drainMonitor () (fun q _ ↦ q = false) false :=
  Prog.Only.obeys hp fun _ ho ↦ ⟨Op.isReceive_eq_false ho, fun x ↦ Op.finds_eq_false ho x⟩

/-- The receive of `cleanup` follows its test. -/
theorem cleanup_obeys : cleanup.Obeys drainMonitor () (fun q _ ↦ q = false) false := by
  have hrest (n : Nat) : (if 0 < n then cleanup.receive else cleanup.release).Obeys drainMonitor ()
      (fun q _ ↦ q = false) (decide (0 < n)) := by
    by_cases hn : 0 < n
    · rw [if_pos hn]
      exact ⟨(decide_eq_true hn).symm, fun _ ↦ rfl⟩
    · rw [if_neg hn, decide_eq_false hn]
      exact idle_release.obeys
  exact ⟨rfl, hrest⟩

/-- Every call obeys. -/
theorem body_obeys_drain (f : Call) :
    (body J r f).Obeys drainMonitor () (fun q _ ↦ q = false) false := by
  cases f with
  | client f => exact ((idle_lift _).bind fun _ ↦ .ret _).obeys
  | done => exact idle_done.obeys
  | cleanup => exact cleanup_obeys
  | _ =>
    refine Idle.obeys (Setup.idle (setup_body rfl ?_))
    intro g h
    cases h

end

/-- **Every receive of `cleanup` follows a test that found a message, and every such test is
followed by a receive.** -/
@[reducible] def drain (J : Json) (r : Config) : Contract (machine J r) where
  toMonitor := drainMonitor
  init _ _ := false
  Exit _ q _ := q = false
  body_obeys _ f := body_obeys_drain f
  again_obeys _ _ f hq := hq ▸ body_obeys_drain f

/-! ## Goroutines at their receive -/

section

variable {J : Json} {r : Config} {P P' : Pool (machine J r)} {q : Nat → Bool} {t : Nat}
  {e : Event (machine J r)}

/-- Thread `t` is about to receive in `cleanup`. -/
def Receiving (P : Pool (machine J r)) (t : Nat) : Bool :=
  match P.threads[t]?.bind (·.prog) with
  | some (.call o _) => o.isReceive
  | _ => false

/-- The monitor knows who is about to receive. -/
theorem receiving_iff (hob : (drain J r).Obeying P q) :
    Receiving P t = true ↔ ∃ f, P.Live t () f ∧ q t = true := by
  constructor
  · intro h
    rw [Receiving] at h
    split at h
    · next o k hp =>
      obtain ⟨⟨c, f, p⟩, ht, rfl⟩ := Option.bind_eq_some_iff.1 hp
      exact ⟨f, ⟨_, ht⟩, ((hob t _ _ ht rfl).1).symm.trans h⟩
    · cases h
  · rintro ⟨f, ⟨p, ht⟩, hq⟩
    have hp := hob t _ p ht rfl
    cases p with
    | ret a =>
      have hq' : q t = false := hp
      rw [hq'] at hq
      cases hq
    | call o k =>
      rw [Receiving, ht]
      exact hp.1.trans hq

/-- Nobody is about to receive from an empty channel. -/
def Unblocked (P : Pool (machine J r)) : Prop :=
  ∀ t, Receiving P t = true → P.state.kspChan ≠ []

/-- An event that takes no message that another goroutine relies on: whoever takes a message
while another one is about to receive leaves one. -/
def LeavesOne (P : Pool (machine J r)) : Event (machine J r) → Prop
  | .op t _ o _ x _ => o.takes x = true →
      ∀ u < P.threads.length, u ≠ t → Receiving P u = true → 2 ≤ P.state.kspChan.length
  | _ => True

theorem kspChan_env {v : Env} {s s' : State} (h : v.step s = some s') :
    s'.kspChan = s.kspChan := by
  cases v with
  | redis _ | topology _ _ | cancel =>
    obtain rfl := Option.some.inj h
    rfl

/-- What a step leaves to a goroutine that does not move. -/
theorem kspChan_ne_nil_of_still (hs : Pool.Step P e P') (hone : LeavesOne P e)
    (hcrash : e ≠ .crash ()) (ht : t < P.threads.length) (hmover : e.mover ≠ some t)
    (hrec : Receiving P t = true) (h : P.state.kspChan ≠ []) : P'.state.kspChan ≠ [] := by
  cases e with
  | op u c o ch x f =>
    rcases State.exec_kspChan hs.op_exec with ⟨htake, m, hm⟩ | ⟨-, hpre⟩
    · have hlen := hone htake t ht (fun htu ↦ hmover (by rw [htu]; rfl)) hrec
      rw [hm, List.length_cons] at hlen
      exact List.ne_nil_of_length_pos (by omega)
    · intro hnil
      rw [hnil] at hpre
      exact h (List.prefix_nil.1 hpre)
  | again u =>
    cases hs
    exact h
  | start c f =>
    cases hs
    exact h
  | env v =>
    cases hs with
    | env hv => rwa [kspChan_env hv]
  | crash c => exact absurd rfl hcrash

/-- A test that found a message leaves it. -/
theorem kspChan_ne_nil_of_finds {o : Op} {ch : Choice} {s s' : State} {x : o.Reply}
    {f : Option Call} (h : State.exec o ch s = some (x, s', f)) (hx : o.finds x = true) :
    s'.kspChan ≠ [] := by
  cases o with
  | kspLen =>
    rw [State.exec] at h
    obtain ⟨rfl, rfl, -⟩ := State.some_inj h
    exact List.ne_nil_of_length_pos (of_decide_eq_true hx)
  | _ => cases hx

/-- **One step.**  It leaves nobody at an empty channel exactly if it takes no message that
another goroutine relies on. -/
theorem unblocked_step_iff (hob : (drain J r).Obeying P q) (hP : Unblocked P)
    (hs : Pool.Step P e P') : Unblocked P' ↔ LeavesOne P e := by
  have hob' := hob.step hs
  constructor
  · intro hP'
    cases e with
    | op t c o ch x f =>
      intro htake u hu hut hrec
      obtain ⟨g, hl, hq⟩ := (receiving_iff hob).1 hrec
      have hrec' : Receiving P' u = true := by
        refine (receiving_iff hob').2 ⟨g, hs.live_iff.2 (.inl ⟨hl, by simp⟩), ?_⟩
        rwa [Contract.track_op_of_ne hut hu]
      rcases State.exec_kspChan hs.op_exec with ⟨-, m, hm⟩ | ⟨htake', -⟩
      · have hpos := List.length_pos_of_ne_nil (hP' u hrec')
        rw [hm, List.length_cons]
        omega
      · rw [htake] at htake'
        cases htake'
    | _ => trivial
  · intro hone t hrec
    obtain ⟨f, hl, hq⟩ := (receiving_iff hob').1 hrec
    revert hq
    refine hob.each (I := fun _ _ _ ↦ True) (Q := fun _ _ b ↦ b = true → P'.state.kspChan ≠ [])
      hs (fun _ _ _ _ ↦ trivial) ?_ ?_ ?_ t () f hl
    · intro u c g hl hc hm _ hq
      have hrec := (receiving_iff hob).2 ⟨g, hl, hq⟩
      exact kspChan_ne_nil_of_still hs hone hc hl.lt_length hm hrec (hP u hrec)
    · intro u c g o ch x f' _ _ _ hx _ hq
      exact kspChan_ne_nil_of_finds hx hq
    · intro c g _ hq
      cases hq

/-- A run all of whose events satisfy `LeavesOne`. -/
def DrainRun (P₀ P : Pool (machine J r)) : Prop :=
  Pool.Run (fun _ _ _ ↦ ()) (fun _ P e ↦ LeavesOne P e) (P₀, ()) P ()

theorem DrainRun.unblocked {P₀ : Pool (machine J r)} (h₀ : P₀.threads = []) (hr : DrainRun P₀ P) :
    (∃ q, (drain J r).Obeying P q) ∧ Unblocked P := by
  refine Pool.Run.invariant (I := fun P _ ↦ (∃ q, (drain J r).Obeying P q) ∧ Unblocked P)
    ⟨⟨fun _ ↦ false, ?_⟩, ?_⟩ ?_ hr
  · intro t th p ht
    simp [h₀] at ht
  · intro t ht
    simp [Receiving, h₀] at ht
  · rintro P - e P' ⟨⟨q, hob⟩, hP⟩ hone hs
    exact ⟨⟨_, hob.step hs⟩, (unblocked_step_iff hob hP hs).2 hone⟩

/-- **The drain of `kspChan`.**  Whatever `kspChan` holds at first, and however the calls and
goroutines of the client interleave: as long as nobody takes the last message from a
`cleanup` that stands between its test and its receive, no `cleanup` receives from an empty
channel; and the first step that does take it leaves one at an empty channel. -/
theorem drain_blocks_iff {P₀ : Pool (machine J r)} (h₀ : P₀.threads = []) (hr : DrainRun P₀ P) :
    Unblocked P ∧ ∀ e P', Pool.Step P e P' → (Unblocked P' ↔ LeavesOne P e) := by
  obtain ⟨⟨q, hob⟩, hP⟩ := hr.unblocked h₀
  exact ⟨hP, fun e P' hs ↦ unblocked_step_iff hob hP hs⟩

instance (P : Pool (machine J r)) : (e : Event (machine J r)) → Decidable (LeavesOne P e)
  | .op t _ o _ x _ => inferInstanceAs (Decidable (o.takes x = true →
      ∀ u < P.threads.length, u ≠ t → Receiving P u = true → 2 ≤ P.state.kspChan.length))
  | .again _ | .start _ _ | .env _ | .crash _ => inferInstanceAs (Decidable True)

/-- Goroutine `t` is a `Done` that has returned nil. -/
def returnedNil (P : Pool (machine J r)) (t : Nat) : Bool :=
  match P.threads[t]? with
  | some ⟨_, .done, some (.ret (.inl (.done none)))⟩ => true
  | _ => false

theorem eq_of_returnedNil {t : Nat} (h : returnedNil P t = true) :
    P.threads[t]? = some ⟨(), .done, some (.ret (.inl (.done none)))⟩ := by
  rw [returnedNil] at h
  split at h
  · next ht => exact ht
  · cases h

end

namespace Demo

/-- A client of one shard. -/
def shard : Config := ⟨Impl.Demo.service.client 0, .singleShard, false, false⟩

/-- The machine of that client. -/
@[reducible] def shardMachine : Machine sig := machine Impl.Demo.service.json shard

/-- The client before `Init`. -/
def unstarted : Pool shardMachine where
  state :=
    { world := Impl.Demo.idle.state, masters := ⟨[], List.nodup_nil⟩, nodes := []
      notifyKeyspaceEvents := fun _ ↦ "", forEachs := [], pubSubs := [], ossPubSubs := []
      pubSub := none, kspChan := [], lbsCtxCancelFunc := false }
  threads := []

/-- Nothing goes wrong. -/
def plainly : Choice := ⟨.plain, "", none, []⟩

/-- A message arrives. -/
def arriving : Choice :=
  ⟨.plain, "", some ⟨"__keyspace@0__:orders:1-0", "expired"⟩, []⟩

/-- The next operations of goroutine `t`, all going well. -/
def opsOf (t n : Nat) : List (Pool.Label shardMachine) := List.replicate n (.op t plainly)

/-- `Init`, and one keyspace notification that the fan-in, goroutine 1, puts into the channel. -/
def notified : List (Pool.Label shardMachine) :=
  [.start () .init] ++ opsOf 0 10 ++ [.op 1 arriving, .op 1 plainly]

/-- `Done`, as goroutine 5, up to a test that finds a message. -/
def draining : List (Pool.Label shardMachine) :=
  [.start () .done, .op 5 plainly, .again 5, .op 5 plainly]

/-- The listener, goroutine 3, takes the message. -/
def listening : List (Pool.Label shardMachine) := [.op 3 plainly]

theorem draining_isSome : (Pool.schedule (fun _ _ _ ↦ ()) (fun _ P e ↦ LeavesOne P e)
    (notified ++ draining) (unstarted, ())).isSome = true := by
  decide +kernel

/-- The client with `Done` about to drop the message. -/
def drained : Pool shardMachine :=
  ((Pool.schedule (fun _ _ _ ↦ ()) (fun _ P e ↦ LeavesOne P e)
    (notified ++ draining) (unstarted, ())).get draining_isSome).1

theorem listening_isSome : (Pool.schedule (fun _ _ _ ↦ ()) (fun _ _ _ ↦ True)
    (notified ++ draining ++ listening) (unstarted, ())).isSome = true := by
  decide +kernel

/-- The client with `Done` about to receive what the listener took. -/
def starved : Pool shardMachine :=
  ((Pool.schedule (fun _ _ _ ↦ ()) (fun _ _ _ ↦ True)
    (notified ++ draining ++ listening) (unstarted, ())).get listening_isSome).1

end Demo

/-- Before the listener moves, the message is there. -/
theorem drain_blocks_iff_drained : Receiving Demo.drained 5 = true ∧ Unblocked Demo.drained ∧
    ∀ e P', Pool.Step Demo.drained e P' → (Unblocked P' ↔ LeavesOne Demo.drained e) := by
  have hr : DrainRun Demo.unstarted Demo.drained := Pool.run_of_isSome Demo.draining_isSome
  exact ⟨by decide +kernel, drain_blocks_iff rfl hr⟩

/-- `Done` tests the length of the channel, the listener takes the only message, and `Done`
stands at a receive from an empty channel. -/
theorem cleanup_receives_from_empty : ∃ P : Pool Demo.shardMachine,
    Pool.Run (fun _ _ _ ↦ ()) (fun _ _ _ ↦ True) (Demo.unstarted, ()) P () ∧
      Receiving P 5 = true ∧ P.state.kspChan = [] := by
  refine ⟨Demo.starved, Pool.run_of_isSome Demo.listening_isSome, ?_, ?_⟩
  · decide +kernel
  · decide +kernel

end RedisStreamClient.Impl.Lifecycle

import RedisStreamClient.Impl.Drain
import RedisStreamClient.Impl.Topology

/-!
# An `Init` that is refused

`Init` reads `notify-keyspace-events` of every master and sets it, each in a callback of its
own.  A master whose value is not to be overridden makes `Init` return
`ErrExistingConfigWithoutOverride`, but the callbacks on the other masters run all the same.

When `Init` returns, every callback is through: each master has been set, exactly if its value
was not to be kept and its commands did not fail (`Settled`).
-/

namespace RedisStreamClient.Impl.Lifecycle

open RedisStreamClient.Lib RedisStreamClient.Errs RedisStreamClient.Notifs

/-- What the commands on each master meet. -/
structure Faults where
  /-- `CONFIG GET`. -/
  get : String → Fault
  /-- `CONFIG SET`. -/
  set : String → Fault

section

variable {J : Json} {r : Config}

/-- `Init` is the only call that follows the topology, the topology stays as it is, and
`ForEachMaster` runs its callback on every master. -/
def Faults.Meets (F : Faults) : Event (machine J r) → Prop
  | .op _ _ (.configGet (some m)) ch _ _ => ch.base.fault = F.get m
  | .op _ _ (.configSet (some m) _) ch _ _ => ch.base.fault = F.set m
  | .op _ _ (.forEach _) ch _ _ => ch.base.fault = .none
  | .start _ f => f = .init ∨ f.isAside = true
  | .env (.topology _ _) => False
  | _ => True

variable (r) (F : Faults) (s₀ : State)

/-- The value of a master is going to be set. -/
def Sets (m : String) : Prop :=
  ¬ r.Refuses false (s₀.notifyKeyspaceEvents (some m)) ∧ F.get m = .none ∧ ∀ e, F.set m ≠ .fail e

/-- The callback has done to a master what it is going to do. -/
def Settled (s : State) (m : String) : Prop :=
  (Sets r F s₀ m →
      s.notifyKeyspaceEvents (some m) = Configs.keyspacePatternForExpiredEvents) ∧
    (¬ Sets r F s₀ m → s.notifyKeyspaceEvents (some m) = s₀.notifyKeyspaceEvents (some m))

/-- What is known at a position of a callback. -/
def PosOk (s : State) (m : String) : Callback → Pos → Prop
  | .enable b, .start => b = false
  | .enable b, .read v => b = false ∧ F.get m = .none ∧
      (r.Refuses false v → Settled r F s₀ s m) ∧
      (¬ r.Refuses false v → ¬ r.Refuses false (s₀.notifyKeyspaceEvents (some m)))
  | .enable b, .finished => b = false ∧ Settled r F s₀ s m
  | .enable _, .holding _ => False
  | _, _ => True

/-- What is known at a stage. -/
def StageOk (s : State) : Stage → Prop
  | .calm | .starting => True
  | .enabled | .built | .unbuilt => ∀ m ∈ s₀.masters.1, Settled r F s₀ s m
  | .task g f m pos => (∃ nodes, s.fans[g]? = some (f, nodes)) ∧ PosOk r F s₀ s m f pos
  | .checking | .cleared | .refused | .finishing | .closed | .odd => False

/-- What is known of a session. -/
structure Session.Enabling (s : State) (q : Session) : Prop where
  stage : StageOk r F s₀ s q.stage
  fan : ∀ g f rest, q.fan = some (g, f, rest) →
    q.stage.MayRun f ∧ ∃ nodes, s.fans[g]? = some (f, nodes)

/-- The callbacks on the masters are under way or have settled their masters. -/
def FansOk (s : State) : Prop :=
  ∀ (g : Nat) (nodes : List String), s.fans[g]? = some (.enable false, nodes) →
    ∀ m ∈ s₀.masters.1, m ∈ nodes ∨ Settled r F s₀ s m

/-- What is known of the state. -/
structure StateOk (s : State) : Prop where
  masters : s.masters = s₀.masters
  value : ∀ m, s.notifyKeyspaceEvents (some m) = s₀.notifyKeyspaceEvents (some m) ∨
    Settled r F s₀ s m
  fans : FansOk r F s₀ s

/-- What a step leaves of a state. -/
structure Evolves (s s' : State) : Prop where
  masters : s'.masters = s.masters
  value : ∀ m, s'.notifyKeyspaceEvents (some m) = s.notifyKeyspaceEvents (some m) ∨
    Settled r F s₀ s' m
  settled : ∀ m, Settled r F s₀ s m → Settled r F s₀ s' m
  fans : ∀ (g : Nat) (f : Callback) (nodes : List String), s.fans[g]? = some (f, nodes) →
    ∃ nodes', s'.fans[g]? = some (f, nodes')

end

section

variable {J : Json} {r : Config} {F : Faults} {s₀ s s' : State} {q : Session} {m : String}

/-- A master that is not going to be set. -/
theorem settled_of_not_sets (hm : ¬ Sets r F s₀ m)
    (h : s.notifyKeyspaceEvents (some m) = s₀.notifyKeyspaceEvents (some m) ∨ Settled r F s₀ s m) :
    Settled r F s₀ s m :=
  h.elim (fun heq ↦ ⟨fun hs ↦ absurd hs hm, fun _ ↦ heq⟩) id

theorem Settled.congr (heq : s'.notifyKeyspaceEvents (some m) = s.notifyKeyspaceEvents (some m))
    (h : Settled r F s₀ s m) : Settled r F s₀ s' m := by
  rwa [Settled, heq]

theorem Evolves.of_eq (hm : s'.masters = s.masters)
    (hn : s'.notifyKeyspaceEvents = s.notifyKeyspaceEvents) (hf : s'.fans = s.fans) :
    Evolves r F s₀ s s' where
  masters := hm
  value _ := .inl (by rw [hn])
  settled m h := h.congr (by rw [hn])
  fans g f nodes h := ⟨nodes, by rwa [hf]⟩

theorem PosOk.mono (h : Evolves r F s₀ s s') {f : Callback} {pos : Pos}
    (hp : PosOk r F s₀ s m f pos) : PosOk r F s₀ s' m f pos := by
  cases f with
  | enable b =>
    cases pos with
    | start => exact hp
    | read v => exact ⟨hp.1, hp.2.1, fun hv ↦ h.settled m (hp.2.2.1 hv), hp.2.2.2⟩
    | finished => exact ⟨hp.1, h.settled m hp.2⟩
    | holding _ => exact hp
  | report => trivial
  | subscribe => trivial

/-- What is known of a session that stands still stays known. -/
theorem Session.Enabling.mono (h : Evolves r F s₀ s s') (hq : q.Enabling r F s₀ s) :
    q.Enabling r F s₀ s' where
  stage := by
    have hstage := hq.stage
    revert hstage
    cases q.stage with
    | enabled | built | unbuilt => exact fun hall m hm ↦ h.settled m (hall m hm)
    | task g f m pos =>
      rintro ⟨⟨nodes, hf⟩, hp⟩
      exact ⟨h.fans g f nodes hf, hp.mono h⟩
    | _ => exact id
  fan g f rest hf := by
    obtain ⟨hrun, nodes, hn⟩ := hq.fan g f rest hf
    exact ⟨hrun, h.fans g f nodes hn⟩

theorem FansOk.of_eq (h : Evolves r F s₀ s s') (hf : s'.fans = s.fans) (hs : FansOk r F s₀ s) :
    FansOk r F s₀ s' := by
  intro g nodes hg m hm
  rw [hf] at hg
  exact (hs g nodes hg m hm).imp_right (h.settled m)

theorem StateOk.step (hs : StateOk r F s₀ s) (h : Evolves r F s₀ s s')
    (hf : FansOk r F s₀ s') : StateOk r F s₀ s' where
  masters := h.masters.trans hs.masters
  value m := by
    rcases h.value m with heq | hset
    · rcases hs.value m with heq' | hset
      · exact .inl (heq.trans heq')
      · exact .inr (h.settled m hset)
    · exact .inr hset
  fans := hf

/-- What an operation has to establish: for the state, for the goroutine that performs it and
for the one it starts. -/
structure Advances (r : Config) (F : Faults) (s₀ s s' : State) (q : Session) (h : Option Call) :
    Prop where
  evolves : Evolves r F s₀ s s'
  fans : FansOk r F s₀ s'
  mover : q.Enabling r F s₀ s'
  started : ∀ f, h = some f → (Session.ofCall f).Enabling r F s₀ s'

/-- An operation that changes neither the masters nor the calls of `ForEachMaster`, and starts
nothing. -/
theorem Advances.of_eq {q' : Session} (hs : StateOk r F s₀ s) (hm : s'.masters = s.masters)
    (hn : s'.notifyKeyspaceEvents = s.notifyKeyspaceEvents) (hf : s'.fans = s.fans)
    (hq : q'.Enabling r F s₀ s') {h : Option Call}
    (hstart : ∀ f, h = some f → (Session.ofCall f).Enabling r F s₀ s') :
    Advances r F s₀ s s' q' h where
  evolves := .of_eq hm hn hf
  fans := hs.fans.of_eq (.of_eq hm hn hf) hf
  mover := hq
  started := hstart

/-- Such an operation, if it starts nothing. -/
theorem Advances.of_quiet {q' : Session} (hs : StateOk r F s₀ s) (hm : s'.masters = s.masters)
    (hn : s'.notifyKeyspaceEvents = s.notifyKeyspaceEvents) (hf : s'.fans = s.fans)
    (hq : q'.Enabling r F s₀ s') : Advances r F s₀ s s' q' none :=
  .of_eq hs hm hn hf hq fun f h ↦ by cases h

theorem Session.Enabling.calm : (Session.on .calm).Enabling r F s₀ s :=
  ⟨trivial, fun _ _ _ h ↦ by cases h⟩

theorem Session.Enabling.ofCall {f : Call} (hf : f.isAside = true) :
    (Session.ofCall f).Enabling r F s₀ s := by
  cases f with
  | client _ | fanIn _ | listenKsp => exact .calm
  | _ => cases hf

/-- A callback that moves on. -/
theorem Session.Enabling.setPos {g : Nat} {f : Callback} {pos pos' : Pos}
    (hq : q.Enabling r F s₀ s) (hstage : q.stage = .task g f m pos)
    (hpos : PosOk r F s₀ s' m f pos') (hf : s'.fans = s.fans) :
    (Session.on (q.stage.setPos pos')).Enabling r F s₀ s' := by
  have hfan := hq.stage
  rw [hstage] at hfan ⊢
  obtain ⟨⟨nodes, hnodes⟩, -⟩ := hfan
  exact ⟨⟨⟨nodes, by rwa [hf]⟩, hpos⟩, fun _ _ _ h ↦ by cases h⟩

variable {ch : Choice} {h : Option Call}

/-- `ForEachMaster` begins. -/
theorem advances_forEach {f : Callback} {x : Except Err (Nat × List String)}
    (hs : StateOk r F s₀ s) (hq : q.Enabling r F s₀ s) (hok : q.Ok r (.forEach f))
    (hfault : ch.base.fault = .none) (hx : State.exec (.forEach f) ch s = some (x, s', h)) :
    Advances r F s₀ s s' (q.next (.forEach f) x) h := by
  have hh : h = none := State.exec_eq_none hx (by simp) (by simp)
  obtain ⟨-, rfl, hs'⟩ | ⟨hno, -⟩ := State.exec_forEach hx
  · have hfans : s'.fans = s.fans ++ [(f, s.nodesFor f)] := by
      rw [hs', State.fans, State.fans, List.map_append]
      rfl
    have hev : Evolves r F s₀ s s' := by
      refine ⟨by rw [hs'], fun m ↦ .inl (by rw [hs']), fun m hm ↦ hm.congr (by rw [hs']), ?_⟩
      intro g f' nodes hg
      refine ⟨nodes, ?_⟩
      rw [hfans, List.getElem?_append_left (List.getElem?_eq_some_iff.1 hg).1, hg]
    refine ⟨hev, ?_, ?_, ?_⟩
    · intro g nodes hg m hm
      rw [hfans] at hg
      rcases State.getElem?_concat_cases hg with hg | ⟨-, heq⟩
      · exact (hs.fans g nodes hg m hm).imp_right (hev.settled m)
      · obtain ⟨rfl, rfl⟩ := Prod.mk.inj heq
        left
        show m ∈ s.masters.1
        rwa [hs.masters]
    · refine ⟨(hq.mono hev).stage, ?_⟩
      intro g f' rest hfan
      obtain ⟨rfl, rfl, rfl⟩ : s.fans.length = g ∧ f = f' ∧ s.nodesFor f = rest := by
        simpa [Session.next] using hfan
      exact ⟨hok.1, _, by rw [hfans, List.getElem?_concat_length]⟩
    · rw [hh]
      intro f h
      cases h
  · exact absurd hfault hno

/-- A callback is started. -/
theorem advances_go {f : Call} {x : Unit} (hs : StateOk r F s₀ s) (hq : q.Enabling r F s₀ s)
    (hok : q.Ok r (.go f)) (hx : State.exec (.go f) ch s = some (x, s', h)) :
    Advances r F s₀ s s' (q.next (.go f) x) h := by
  obtain ⟨-, rfl, rfl⟩ := State.some_inj hx
  cases f with
  | callback g f node =>
    obtain ⟨nodes, hfan⟩ := hok
    obtain ⟨hrun, rest, hg⟩ := hq.fan g f _ hfan
    have hmover : (q.next (.go (.callback g f node)) x).Enabling r F s₀ s := by
      refine ⟨hq.stage, ?_⟩
      intro g' f' rest' hfan'
      obtain ⟨rfl, rfl, -⟩ : g = g' ∧ f = f' ∧ nodes = rest' := by
        simpa [Session.next, hfan] using hfan'
      exact ⟨hrun, rest, hg⟩
    refine .of_eq hs rfl rfl rfl hmover fun f' hf' ↦ ?_
    obtain rfl := Option.some.inj hf'
    refine ⟨⟨⟨rest, hg⟩, ?_⟩, fun _ _ _ h ↦ by cases h⟩
    -- only `Init` starts callbacks here
    have hstage := hq.stage
    revert hstage hrun
    cases q.stage with
    | starting =>
      rintro rfl -
      rfl
    | enabled =>
      rintro rfl -
      trivial
    | checking | cleared => exact fun _ h ↦ h.elim
    | _ => exact fun h ↦ h.elim
  | client _ | fanIn _ | listenKsp =>
    refine .of_eq hs rfl rfl rfl hq fun f hf ↦ ?_
    obtain rfl := Option.some.inj hf
    exact .ofCall rfl
  | _ => cases hok

/-- All callbacks have returned. -/
theorem advances_wait {g : Nat} {x : ForEach} (hs : StateOk r F s₀ s) (hq : q.Enabling r F s₀ s)
    (hok : q.Ok r (.wait g)) (hx : State.exec (.wait g) ch s = some (x, s', h)) :
    Advances r F s₀ s s' (q.next (.wait g) x) h := by
  have hh : h = none := State.exec_eq_none hx (by simp) (by simp)
  obtain ⟨rfl, hdone⟩ := State.exec_wait hx
  obtain ⟨f, hfan⟩ := hok
  obtain ⟨hrun, nodes, hg⟩ := hq.fan g f _ hfan
  obtain ⟨rfl, rfl⟩ := Prod.mk.inj (Option.some.inj (hg.symm.trans hdone))
  rw [hh]
  refine .of_quiet hs rfl rfl rfl ⟨?_, fun _ _ _ h ↦ by cases h⟩
  have hnext : (q.next (.wait g) x).stage = q.stage.onWait x.callback := by
    simp [Session.next, hfan, Session.on]
  rw [hnext]
  have hstage := hq.stage
  revert hstage hrun
  cases q.stage with
  | starting =>
    intro hrun _ m hm
    exact (hs.fans g [] (by rw [hdone, hrun]) m hm).resolve_left List.not_mem_nil
  | enabled => exact fun _ hall ↦ hall
  | checking | cleared => exact fun _ h ↦ h.elim
  | _ => exact fun h ↦ h.elim

/-- A callback returns. -/
theorem advances_callbackDone {g : Nat} {node : String} {err : Option Err} {x : Unit}
    (hs : StateOk r F s₀ s) (hq : q.Enabling r F s₀ s) (hok : q.Ok r (.callbackDone g node err))
    (hx : State.exec (.callbackDone g node err) ch s = some (x, s', h)) :
    Advances r F s₀ s s' (q.next (.callbackDone g node err) x) h := by
  have hfans := State.exec_callbackDone hx
  obtain ⟨-, hs', rfl⟩ := State.some_inj hx
  obtain ⟨f, pos, hstage, hret⟩ := hok
  have htask := hq.stage
  rw [hstage] at htask
  obtain ⟨⟨nodes₀, hnodes₀⟩, hpos⟩ := htask
  have hev : Evolves r F s₀ s s' := by
    refine ⟨by rw [← hs']; rfl, fun m ↦ .inl (by rw [← hs']; rfl),
      fun m hm ↦ hm.congr (by rw [← hs']; rfl), ?_⟩
    intro g' f' nodes hg'
    rw [hfans, List.getElem?_modify, hg']
    by_cases hgg : g = g'
    · exact ⟨nodes.erase node, by simp [hgg]⟩
    · exact ⟨nodes, by simp [hgg]⟩
  refine ⟨hev, ?_, .calm, fun f h ↦ by cases h⟩
  intro g' nodes hg' m hm
  rw [hfans, List.getElem?_modify] at hg'
  obtain ⟨⟨f', nodes'⟩, hold, heq⟩ := Option.map_eq_some_iff.1 hg'
  by_cases hgg : g = g'
  · subst hgg
    rw [if_pos rfl] at heq
    obtain ⟨rfl, rfl⟩ := Prod.mk.inj heq
    rcases hs.fans g nodes' hold m hm with hmem | hset
    · by_cases hmn : m = node
      · subst hmn
        obtain ⟨rfl, rfl⟩ := Prod.mk.inj (Option.some.inj (hold.symm.trans hnodes₀))
        rcases hret with rfl | ⟨v, rfl, hv⟩
        · exact .inr (hev.settled m hpos.2)
        · exact .inr (hev.settled m (hpos.2.2.1 hv))
      · exact .inl ((List.mem_erase_of_ne hmn).2 hmem)
    · exact .inr (hev.settled m hset)
  · rw [if_neg hgg] at heq
    obtain ⟨rfl, rfl⟩ := Prod.mk.inj heq
    exact (hs.fans g' _ hold m hm).imp_right (hev.settled m)

/-- The value of a master is read. -/
theorem advances_configGet {node : Option String} {x : Except Err String} (hs : StateOk r F s₀ s)
    (hq : q.Enabling r F s₀ s) (hok : q.Ok r (.configGet node))
    (hfault : ∀ m, node = some m → ch.base.fault = F.get m)
    (hx : State.exec (.configGet node) ch s = some (x, s', h)) :
    Advances r F s₀ s s' (q.next (.configGet node) x) h := by
  obtain ⟨hread, rfl, rfl⟩ := State.some_inj hx
  obtain ⟨g, b, m, hstage, rfl⟩ := hok
  have htask := hq.stage
  rw [hstage] at htask
  obtain ⟨-, hb⟩ := htask
  have hnot (hget : F.get m ≠ .none) : ¬ Sets r F s₀ m := fun hsets ↦ hget hsets.2.1
  refine .of_quiet hs rfl rfl rfl ?_
  rw [hfault m rfl] at hread
  cases hget : F.get m with
  | none =>
    rw [hget] at hread
    obtain rfl : x = .ok (s.notifyKeyspaceEvents (some m)) := hread.symm
    refine hq.setPos hstage ⟨hb, hget, fun hv ↦ ?_, fun hv hv₀ ↦ hv ?_⟩ rfl
    · rcases hs.value m with heq | hset
      · refine settled_of_not_sets (fun hsets ↦ hsets.1 ?_) (.inl heq)
        rwa [← heq]
      · exact hset
    · rcases hs.value m with heq | hset
      · rwa [heq]
      · rw [hset.2 fun hsets ↦ hsets.1 hv₀]
        exact hv₀
  | fail e | lost e =>
    rw [hget] at hread
    obtain rfl : x = .error e := hread.symm
    exact hq.setPos hstage ⟨hb, settled_of_not_sets (hnot (by simp [hget])) (hs.value m)⟩ rfl

/-- The value of a master is set. -/
theorem advances_configSet {node : Option String} {v : String} {x : Option Err}
    (hs : StateOk r F s₀ s) (hq : q.Enabling r F s₀ s) (hok : q.Ok r (.configSet node v))
    (hfault : ∀ m, node = some m → ch.base.fault = F.set m)
    (hx : State.exec (.configSet node v) ch s = some (x, s', h)) :
    Advances r F s₀ s s' (q.next (.configSet node v) x) h := by
  obtain ⟨g, b, m, v₀, hstage, hv, rfl, rfl⟩ := hok
  have htask := hq.stage
  rw [hstage] at htask
  obtain ⟨-, rfl, hget, -, hkeep⟩ := htask
  have hset (hs' : s' = s.configure (some m) Configs.keyspacePatternForExpiredEvents)
      (hfail : ∀ e, F.set m ≠ .fail e) (hh : h = none) :
      Advances r F s₀ s s'
        (q.next (.configSet (some m) Configs.keyspacePatternForExpiredEvents) x) h := by
    have hsets : Sets r F s₀ m := ⟨hkeep hv, hget, hfail⟩
    have hother (m' : String) (hne : m' ≠ m) :
        s'.notifyKeyspaceEvents (some m') = s.notifyKeyspaceEvents (some m') := by
      rw [hs']
      exact Function.update_of_ne (fun h ↦ hne (Option.some.inj h)) _ _
    have hm : Settled r F s₀ s' m := by
      refine ⟨fun _ ↦ ?_, fun hno ↦ absurd hsets hno⟩
      rw [hs']
      exact Function.update_self ..
    have hev : Evolves r F s₀ s s' := by
      refine ⟨by rw [hs']; rfl, fun m' ↦ ?_, fun m' hm' ↦ ?_, fun g f nodes hg ↦ ⟨nodes, ?_⟩⟩
      · by_cases hne : m' = m
        · exact .inr (hne ▸ hm)
        · exact .inl (hother m' hne)
      · by_cases hne : m' = m
        · exact hne ▸ hm
        · exact hm'.congr (hother m' hne)
      · rwa [hs']
    have hfans : s'.fans = s.fans := by rw [hs']; rfl
    refine ⟨hev, hs.fans.of_eq hev hfans, hq.setPos hstage ⟨rfl, hm⟩ hfans, ?_⟩
    rw [hh]
    exact fun f h ↦ by cases h
  have hfault := hfault m rfl
  rw [State.exec] at hx
  split at hx
  · next hnone =>
    obtain ⟨-, rfl, rfl⟩ := State.some_inj hx
    exact hset rfl (fun e he ↦ by rw [← hfault, hnone] at he; cases he) rfl
  · next e hfail =>
    obtain ⟨-, rfl, rfl⟩ := State.some_inj hx
    have hno : ¬ Sets r F s₀ m := fun hsets ↦ hsets.2.2 e (hfault.symm.trans hfail)
    exact .of_quiet hs rfl rfl rfl
      (hq.setPos hstage ⟨rfl, settled_of_not_sets hno (hs.value m)⟩ rfl)
  · next e hlost =>
    obtain ⟨-, rfl, rfl⟩ := State.some_inj hx
    exact hset rfl (fun e' he ↦ by rw [← hfault, hlost] at he; cases he) rfl

/-- **One operation.** -/
theorem advances_op {o : Op} {x : o.Reply} (hs : StateOk r F s₀ s) (hq : q.Enabling r F s₀ s)
    (hok : q.Ok r o) {t : Nat} (hg : F.Meets (J := J) (r := r) (.op t () o ch x h))
    (hx : State.exec o ch s = some (x, s', h)) : Advances r F s₀ s s' (q.next o x) h := by
  have hstage := hq.stage
  cases o with
  | forEach f => exact advances_forEach hs hq hok hg hx
  | go f => exact advances_go hs hq hok hx
  | wait g => exact advances_wait hs hq hok hx
  | callbackDone g node err => exact advances_callbackDone hs hq hok hx
  | configGet node => exact advances_configGet hs hq hok (by rintro m rfl; exact hg) hx
  | configSet node v => exact advances_configSet hs hq hok (by rintro m rfl; exact hg) hx
  | pSubscribe node =>
    obtain ⟨-, rfl, rfl⟩ := State.some_inj hx
    obtain ⟨g, m, htask, -⟩ := hok
    exact .of_quiet hs rfl rfl rfl (hq.setPos htask trivial rfl)
  | ossAdd ps =>
    obtain ⟨-, rfl, rfl⟩ := State.some_inj hx
    obtain ⟨g, m, htask⟩ := hok
    exact .of_quiet hs rfl rfl rfl (hq.setPos htask trivial rfl)
  | ossCloseAll =>
    rcases hok with h | h | h <;>
    · rw [h] at hstage
      exact hstage.elim
  | getPubSub | closePubSub _ =>
    rw [show q.stage = _ from hok] at hstage
    exact hstage.elim
  | setPubSub _ => exact hok.elim
  | _ =>
    obtain ⟨hm, hn⟩ := State.exec_cluster hx
    have hn := hn.resolve_right (by rintro ⟨node, v, h⟩; cases h)
    have hf := State.exec_fans hx rfl
    refine .of_eq hs hm hn hf (hq.mono (.of_eq hm hn hf)) ?_
    rintro f rfl
    rcases State.exec_starts hx with heq | ⟨o', f', -, rfl⟩
    · cases heq
    · exact .ofCall rfl

end

section

variable {J : Json} {r : Config} {hoss : r.clusterMode = .oss} {F : Faults} {s₀ : State}
  {P P' P₀ : Pool (machine J r)} {q : Nat → Session} {e : Event (machine J r)}

/-- **The invariant.** -/
structure Enabling (r : Config) (F : Faults) (s₀ : State) (P : Pool (machine J r))
    (q : Nat → Session) : Prop where
  state : StateOk r F s₀ P.state
  each : ∀ t c f, P.Live t c f → (q t).Enabling r F s₀ P.state

/-- A step advances every goroutine if it does so for the one that moves and the one that is
started. -/
theorem Enabling.of_advances (hob : (topology J r hoss).Obeying P q) (hI : Enabling r F s₀ P q)
    (hs : Pool.Step P e P') (hev : Evolves r F s₀ P.state P'.state)
    (hfans : FansOk r F s₀ P'.state)
    (hmove : ∀ t c o ch x g, e = .op t c o ch x g → ((q t).next o x).Enabling r F s₀ P'.state)
    (hnew : ∀ c f, e.starts = some (c, f) → (Session.ofCall f).Enabling r F s₀ P'.state) :
    Enabling r F s₀ P' ((topology J r hoss).track q P e) where
  state := hI.state.step hev hfans
  each := by
    refine hob.each (I := fun _ _ (q : Session) ↦ q.Enabling r F s₀ P.state)
      (Q := fun _ _ (q : Session) ↦ q.Enabling r F s₀ P'.state) hs hI.each ?_ ?_ hnew
    · exact fun t c f _ _ _ hq ↦ hq.mono hev
    · exact fun t c f o ch x g he _ _ _ _ ↦ hmove t c o ch x g he

/-- Steps that are no operation change neither the masters nor the calls of `ForEachMaster`. -/
theorem same_of_mover (hg : F.Meets e) (hs : Pool.Step P e P') (he : e.mover = none) :
    P'.state.masters = P.state.masters ∧
      P'.state.notifyKeyspaceEvents = P.state.notifyKeyspaceEvents ∧
      P'.state.fans = P.state.fans := by
  cases hs with
  | op => cases he
  | again | start | crash => exact ⟨rfl, rfl, rfl⟩
  | @env v s hv =>
    cases v with
    | topology _ _ => exact hg.elim
    | redis _ | cancel =>
      obtain rfl := Option.some.inj hv
      exact ⟨rfl, rfl, rfl⟩

/-- **One step.** -/
theorem Enabling.step (hob : (topology J r hoss).Obeying P q) (hI : Enabling r F s₀ P q)
    (hg : F.Meets e) (hs : Pool.Step P e P') :
    Enabling r F s₀ P' ((topology J r hoss).track q P e) := by
  cases he : e.mover with
  | some t =>
    cases e with
    | op t c o ch x f =>
      obtain ⟨f', hl⟩ := hs.op_live
      have hadv := advances_op hI.state (hI.each _ _ _ hl) (hob.ok hs) hg hs.op_exec
      refine hI.of_advances hob hs hadv.evolves hadv.fans ?_ ?_
      · intro t' c' o' ch' x' g' he
        cases he
        exact hadv.mover
      · intro c' f' hst
        obtain ⟨g', rfl, heq⟩ := Option.map_eq_some_iff.1 hst
        cases heq
        exact hadv.started _ rfl
    | _ => cases he
  | none =>
    obtain ⟨hm, hn, hf⟩ := same_of_mover hg hs he
    have hev : Evolves r F s₀ P.state P'.state := .of_eq hm hn hf
    refine hI.of_advances hob hs hev (hI.state.fans.of_eq hev hf) ?_ ?_
    · rintro t c o ch x g rfl
      cases he
    · intro c f hst
      cases e with
      | start c f =>
        cases hst
        rcases hg with rfl | haside
        · exact ⟨trivial, fun _ _ _ h ↦ by cases h⟩
        · exact .ofCall haside
      | op => cases he
      | _ => cases hst

/-- A run in which the commands on the masters meet the faults. -/
def InitRun (F : Faults) (P₀ P : Pool (machine J r)) : Prop :=
  Pool.Run (fun _ _ _ ↦ ()) (fun _ _ e ↦ F.Meets e) (P₀, ()) P ()

theorem InitRun.enabling (hoss : r.clusterMode = .oss) (h₀ : P₀.threads = [])
    (hfans : P₀.state.forEachs = [])
    (hr : InitRun F P₀ P) :
    ∃ q, (topology J r hoss).Obeying P q ∧ Enabling r F P₀.state P q := by
  refine Pool.Run.invariant (I := fun P _ ↦
    ∃ q, (topology J r hoss).Obeying P q ∧ Enabling r F P₀.state P q) ?_ ?_ hr
  · refine ⟨fun _ ↦ .on .calm, ?_, ⟨rfl, fun _ ↦ .inl rfl, ?_⟩, ?_⟩
    · intro t th p ht
      simp [h₀] at ht
    · intro g nodes hg
      simp [State.fans, hfans] at hg
    · rintro t c f ⟨p, hp⟩
      simp [h₀] at hp
  · rintro P - e P' ⟨q, hob, hI⟩ hg hs
    exact ⟨_, hob.step hs, hI.step hob hg hs⟩

/-- **A refused `Init` changes nothing iff no other master could be set.**  For every topology,
every value of the masters, every pattern of failures of their commands and every order of the
callbacks: when `Init` has returned `ErrExistingConfigWithoutOverride`, every master has the
value it had before iff each master whose value was to be set already had that value, or one of
its two commands failed. -/
theorem refused_init_changes_nothing_iff (hoss : r.clusterMode = .oss) (h₀ : P₀.threads = [])
    (hfans : P₀.state.forEachs = []) (hr : InitRun F P₀ P) {t : Nat} {err : Err}
    (ht : P.threads[t]? = some ⟨(), .init, some (.ret (.inl (.init (some err))))⟩)
    (herr : err.isExistingConfigWithoutOverride = true) :
    (∀ m ∈ P₀.state.masters.1,
      P.state.notifyKeyspaceEvents (some m) = P₀.state.notifyKeyspaceEvents (some m)) ↔
    ∀ m ∈ P₀.state.masters.1, ¬ r.Refuses false (P₀.state.notifyKeyspaceEvents (some m)) →
      P₀.state.notifyKeyspaceEvents (some m) = Configs.keyspacePatternForExpiredEvents ∨
        F.get m ≠ .none ∨ ∃ e, F.set m = .fail e := by
  obtain ⟨q, hob, hI⟩ := hr.enabling hoss h₀ hfans
  have hexit : (q t).Exit (.inl (.init (some err))) := hob t _ _ ht rfl
  have hq := (hI.each t _ _ ⟨_, ht⟩).stage
  have hall : ∀ m ∈ P₀.state.masters.1, Settled r F P₀.state P.state m := by
    rcases hexit with ⟨-, rfl⟩ | h | h | h | h
    · cases herr
    all_goals
      rw [h] at hq
      first | exact hq | exact hq.elim
  refine forall₂_congr fun m hm ↦ ?_
  obtain ⟨hset, hkeep⟩ := hall m hm
  by_cases hsets : Sets r F P₀.state m
  · rw [hset hsets]
    constructor
    · exact fun heq _ ↦ .inl heq.symm
    · intro h
      rcases h hsets.1 with heq | hget | ⟨e, he⟩
      · exact heq.symm
      · exact absurd hsets.2.1 hget
      · exact absurd he (hsets.2.2 e)
  · rw [iff_true_left (hkeep hsets)]
    intro hv
    by_contra hno
    refine hsets ⟨hv, ?_, fun e he ↦ hno (.inr (.inr ⟨e, he⟩))⟩
    by_contra hget
    exact hno (.inr (.inl hget))

end

namespace Demo

/-- A client of an OSS cluster. -/
def cluster : Config := ⟨Impl.Demo.service.client 0, .oss, true, false⟩

/-- The machine of that client. -/
@[reducible] def clusterMachine : Machine sig := machine Impl.Demo.service.json cluster

theorem nodup_masters : ["a", "b"].Nodup := by decide

/-- Two masters, the first with the value `v` and the second with the value "AKE". -/
def masters (v : String) : Pool clusterMachine where
  state := { unstarted.state with
    masters := ⟨["a", "b"], nodup_masters⟩
    notifyKeyspaceEvents := fun node ↦ if node = some "a" then v else "AKE" }
  threads := []

/-- No command fails. -/
def noFaults : Faults := ⟨fun _ ↦ .none, fun _ ↦ .none⟩

/-- Nothing goes wrong. -/
def isNone : Fault → Bool
  | .none => true
  | _ => false

/-- `Init` runs by itself, and nothing goes wrong. -/
def smooth : Event clusterMachine → Bool
  | .op _ _ _ ch _ _ => isNone ch.base.fault
  | .start _ .init => true
  | _ => false

theorem meets_of_smooth {e : Event clusterMachine} (h : smooth e = true) : noFaults.Meets e := by
  cases e with
  | op t c o ch x f =>
    have hfault : ch.base.fault = .none := by
      revert h
      show isNone ch.base.fault = true → _
      cases ch.base.fault with
      | none => exact fun _ ↦ rfl
      | _ => exact fun h ↦ by cases h
    cases o with
    | configGet node | configSet node _ =>
      cases node with
      | none => trivial
      | some m => exact hfault
    | forEach _ => exact hfault
    | _ => trivial
  | start c f =>
    cases f with
    | init => exact .inl rfl
    | _ => cases h
  | again | env _ | crash _ => cases h

/-- The next operations of goroutine `t`, all going well. -/
def steps (t n : Nat) : List (Pool.Label clusterMachine) := List.replicate n (.op t plainly)

/-- `Init`, as goroutine 0, with `n` operations of the callback on the first master and two of
the one on the second. -/
def refused (n : Nat) : List (Pool.Label clusterMachine) :=
  [.start () .init] ++ steps 0 3 ++ steps 1 n ++ steps 2 2 ++ steps 0 1

/-- An `Init` that has returned `ErrExistingConfigWithoutOverride`. -/
def isRefusal (th : Thread clusterMachine) : Bool :=
  match th.call, th.prog with
  | .init, some (.ret (.inl (.init (some err)))) => err.isExistingConfigWithoutOverride
  | _, _ => false

/-- `Init` has returned `ErrExistingConfigWithoutOverride`. -/
def isRefused (P : Pool clusterMachine) : Bool := P.threads[0]?.any isRefusal

theorem exists_of_isRefused {P : Pool clusterMachine} (h : isRefused P = true) :
    ∃ err, P.threads[0]? = some ⟨(), .init, some (.ret (.inl (.init (some err))))⟩ ∧
      err.isExistingConfigWithoutOverride = true := by
  obtain ⟨⟨c, f, p⟩, ht, htest⟩ := (Option.any_eq_true _ _).1 h
  rw [isRefusal] at htest
  split at htest
  · next err hf hp =>
    obtain rfl : f = .init := hf
    obtain rfl : p = _ := hp
    exact ⟨err, ht, htest⟩
  · cases htest

theorem allRefused_isSome : (Pool.schedule (fun _ _ _ ↦ ()) (fun _ _ e ↦ smooth e = true)
    (refused 2) (masters "KEA", ())).isSome = true := by
  decide +kernel

/-- Both masters refused. -/
def allRefused : Pool clusterMachine :=
  ((Pool.schedule (fun _ _ _ ↦ ()) (fun _ _ e ↦ smooth e = true)
    (refused 2) (masters "KEA", ())).get allRefused_isSome).1

theorem oneRefused_isSome : (Pool.schedule (fun _ _ _ ↦ ()) (fun _ _ e ↦ smooth e = true)
    (refused 5) (masters "", ())).isSome = true := by
  decide +kernel

/-- The first master was set, and the second refused. -/
def oneRefused : Pool clusterMachine :=
  ((Pool.schedule (fun _ _ _ ↦ ()) (fun _ _ e ↦ smooth e = true)
    (refused 5) (masters "", ())).get oneRefused_isSome).1

theorem initRun_allRefused : InitRun noFaults (masters "KEA") allRefused :=
  (Pool.run_of_isSome allRefused_isSome).mono fun _ _ _ h ↦ meets_of_smooth h

theorem initRun_oneRefused : InitRun noFaults (masters "") oneRefused :=
  (Pool.run_of_isSome oneRefused_isSome).mono fun _ _ _ h ↦ meets_of_smooth h

end Demo

/-- Where every master has a value of its own, none is changed. -/
theorem refused_init_changes_nothing_allRefused :
    Demo.isRefused Demo.allRefused = true ∧
      Demo.allRefused.state.notifyKeyspaceEvents (some "a") = "KEA" := by
  have hrefused : Demo.isRefused Demo.allRefused = true := by decide +kernel
  obtain ⟨err, ht, herr⟩ := Demo.exists_of_isRefused hrefused
  refine ⟨hrefused, (refused_init_changes_nothing_iff rfl rfl rfl Demo.initRun_allRefused ht
    herr).2 ?_ "a" (by decide)⟩
  intro m hm hv
  have hm' : m ∈ ["a", "b"] := hm
  rw [List.mem_pair] at hm'
  rcases hm' with rfl | rfl <;> exact absurd ⟨by decide, by decide, by decide⟩ hv

/-- A master without a value is set, though `Init` is refused because of the other. -/
theorem refused_init_sets_master :
    InitRun Demo.noFaults (Demo.masters "") Demo.oneRefused ∧
      Demo.isRefused Demo.oneRefused = true ∧
      (Demo.masters "").state.notifyKeyspaceEvents (some "a") = "" ∧
      Demo.oneRefused.state.notifyKeyspaceEvents (some "a") =
        Configs.keyspacePatternForExpiredEvents :=
  ⟨Demo.initRun_oneRefused, by decide +kernel, rfl, by decide +kernel⟩

end RedisStreamClient.Impl.Lifecycle

import RedisStreamClient.Impl.Topology

/-!
# Fan-out over the masters

Who has still to run, or to finish, which callback of `subscribeToExpiredEventsOSS`.  A
goroutine that runs `ForEachMaster` claims the masters whose callbacks it has not started; a
callback claims its master until it returns.  No master is claimed twice within one call of
`ForEachMaster`, and `ForEachMaster` does not return before its callbacks have.
-/

namespace RedisStreamClient.Impl.Lifecycle

open RedisStreamClient.Lib RedisStreamClient.Errs RedisStreamClient.Notifs

namespace Session

/-- The masters that a goroutine has still to subscribe to, or whose callback it is, by the call
of `ForEachMaster`. -/
def claims (q : Session) : List (Nat × String) :=
  match q.fan, q.stage with
  | some (g, .subscribe, nodes), _ => nodes.map fun m ↦ (g, m)
  | none, .task g .subscribe m _ => [(g, m)]
  | _, _ => []

/-- The call of `ForEachMaster` that a goroutine has under way to subscribe. -/
def owned (q : Session) : Option Nat :=
  match q.fan with
  | some (g, .subscribe, _) => some g
  | _ => none

/-- What is known of a goroutine. -/
structure Fanning (s : State) (q : Session) : Prop where
  fan : ∀ g f rest, q.fan = some (g, f, rest) →
    q.stage.MayRun f ∧ ∃ nodes, s.fans[g]? = some (f, nodes)
  task : ∀ g f m pos, q.stage = .task g f m pos → ∃ nodes, s.fans[g]? = some (f, nodes)
  claims : ∀ g m, (g, m) ∈ q.claims → ∃ nodes, s.fans[g]? = some (.subscribe, nodes) ∧ m ∈ nodes
  nodup : q.claims.Nodup

/-- Two goroutines do not claim the same. -/
structure Apart (q q' : Session) : Prop where
  claims : q.claims.Disjoint q'.claims
  owned : ∀ g, q.owned = some g → q'.owned ≠ some g

theorem Apart.symm {q q' : Session} (h : q.Apart q') : q'.Apart q where
  claims := h.claims.symm
  owned g hg hg' := h.owned g hg' hg

@[simp] theorem claims_on_task (g : Nat) (m : String) (pos : Pos) :
    (Session.on (.task g .subscribe m pos)).claims = [(g, m)] := rfl

@[simp] theorem owned_on (stage : Stage) : (Session.on stage).owned = none := rfl

/-- A goroutine that claims nothing. -/
structure Free (q : Session) : Prop where
  claims : q.claims = []
  owned : q.owned = none

theorem Free.on {stage : Stage} (h : ∀ g f m pos, stage ≠ .task g f m pos) :
    (Session.on stage).Free := by
  refine ⟨?_, rfl⟩
  cases stage with
  | task g f m pos => exact absurd rfl (h g f m pos)
  | _ => rfl

theorem Free.apart {q q' : Session} (h : q.Free) : q.Apart q' where
  claims := by
    rw [h.claims]
    exact List.disjoint_nil_left _
  owned g hg := by
    rw [h.owned] at hg
    cases hg

end Session

/-! ## What an operation does to the claims -/

section

variable {r : Config} {s s' : State} {q q' : Session} {ch : Choice} {h : Option Call}

namespace Session

/-- A callback has no call of `ForEachMaster` under way. -/
theorem Fanning.eq_on (hq : q.Fanning s) {g : Nat} {f : Callback} {m : String} {pos : Pos}
    (hstage : q.stage = .task g f m pos) : q = .on (.task g f m pos) := by
  obtain ⟨stage, fan⟩ := q
  obtain rfl : stage = _ := hstage
  cases fan with
  | none => rfl
  | some x => exact (hq.fan x.1 x.2.1 x.2.2 rfl).1.elim

/-- Nothing to run, nothing claimed. -/
theorem Fanning.of_free (hfree : q.Free)
    (hfan : ∀ g f rest, q.fan = some (g, f, rest) →
      q.stage.MayRun f ∧ ∃ nodes, s.fans[g]? = some (f, nodes))
    (htask : ∀ g f m pos, q.stage = .task g f m pos → ∃ nodes, s.fans[g]? = some (f, nodes)) :
    q.Fanning s where
  fan := hfan
  task := htask
  claims g m h := by
    rw [hfree.claims] at h
    cases h
  nodup := by
    rw [hfree.claims]
    exact List.nodup_nil

theorem Fanning.on {stage : Stage} (h : ∀ g f m pos, stage ≠ .task g f m pos) :
    (Session.on stage).Fanning s :=
  .of_free (.on h) (fun _ _ _ h ↦ by cases h) fun g f m pos heq ↦ absurd heq (h g f m pos)

theorem Fanning.on_task {g : Nat} {f : Callback} {m : String} {nodes : List String} (pos : Pos)
    (hg : s.fans[g]? = some (f, nodes)) (hm : f = .subscribe → m ∈ nodes) :
    (Session.on (.task g f m pos)).Fanning s where
  fan _ _ _ h := by cases h
  task g' f' m' pos' heq := by
    cases heq
    exact ⟨nodes, hg⟩
  claims g' m' hmem := by
    cases f with
    | subscribe =>
      rw [claims_on_task, List.mem_singleton] at hmem
      cases hmem
      exact ⟨nodes, hg, hm rfl⟩
    | report | enable _ => cases hmem
  nodup := by
    cases f with
    | subscribe => exact List.nodup_singleton _
    | report | enable _ => exact List.nodup_nil

/-- What is known of a goroutine stays known if its claims are kept. -/
theorem Fanning.mono (hq : q.Fanning s)
    (h : ∀ (g : Nat) (f : Callback) (nodes : List String), s.fans[g]? = some (f, nodes) →
      ∃ nodes', s'.fans[g]? = some (f, nodes') ∧
        ∀ m ∈ nodes, f = .subscribe → (g, m) ∈ q.claims → m ∈ nodes') :
    q.Fanning s' where
  fan g f rest hf := by
    obtain ⟨hrun, nodes, hg⟩ := hq.fan g f rest hf
    obtain ⟨nodes', hg', -⟩ := h g f nodes hg
    exact ⟨hrun, nodes', hg'⟩
  task g f m pos ht := by
    obtain ⟨nodes, hg⟩ := hq.task g f m pos ht
    obtain ⟨nodes', hg', -⟩ := h g f nodes hg
    exact ⟨nodes', hg'⟩
  claims g m hm := by
    obtain ⟨nodes, hg, hmem⟩ := hq.claims g m hm
    obtain ⟨nodes', hg', hkeep⟩ := h g _ nodes hg
    exact ⟨nodes', hg', hkeep m hmem rfl hm⟩
  nodup := hq.nodup

theorem Fanning.of_eq (hq : q.Fanning s) (hf : s'.fans = s.fans) : q.Fanning s' :=
  hq.mono fun g f nodes hg ↦ ⟨nodes, by rwa [hf], fun m hm _ _ ↦ hm⟩

end Session

/-- What a goroutine takes over from the one that started it. -/
structure Spawned (s' : State) (q q' new : Session) : Prop where
  fanning : new.Fanning s'
  claims : ∀ x ∈ new.claims, x ∈ q.claims ∧ x ∉ q'.claims
  owned : new.owned = none
  task : ∀ g m pos, new.stage = .task g .subscribe m pos → q'.owned = some g

/-- What an operation of a goroutine does to its claims, and to those of the goroutine it
starts. -/
structure Moves (s s' : State) (q q' : Session) (h : Option Call) : Prop where
  fans : ∀ (g : Nat) (f : Callback) (nodes : List String), s.fans[g]? = some (f, nodes) →
    ∃ nodes', s'.fans[g]? = some (f, nodes') ∧
      ∀ m ∈ nodes, f = .subscribe → m ∈ nodes' ∨ (g, m) ∈ q.claims
  mover : q'.Fanning s'
  claims : ∀ g m, (g, m) ∈ q'.claims → (g, m) ∈ q.claims ∨ s.fans.length ≤ g
  owned : ∀ g, q'.owned = some g → q.owned = some g ∨ s.fans.length ≤ g
  kept : ∀ g, q.owned = some g → q'.owned = some g ∨ s.fans[g]? = some (.subscribe, [])
  task : ∀ g m pos, q'.stage = .task g .subscribe m pos → ∃ pos, q.stage = .task g .subscribe m pos
  started : ∀ f, h = some f → Spawned s' q q' (.ofCall f)

/-- A goroutine on the side takes over nothing. -/
theorem Spawned.of_isAside {f : Call} (hf : f.isAside = true) :
    Spawned s' q q' (.ofCall f) := by
  have hcalm : Session.ofCall f = .on .calm := by
    cases f with
    | client _ | fanIn _ | listenKsp => rfl
    | _ => cases hf
  rw [hcalm]
  exact
    { fanning := .on (by simp)
      claims := fun x hx ↦ by cases hx
      owned := rfl
      task := fun g m pos heq ↦ by cases heq }

namespace Moves

theorem fans_of_eq (hf : s'.fans = s.fans) (g : Nat) (f : Callback) (nodes : List String)
    (hg : s.fans[g]? = some (f, nodes)) : ∃ nodes', s'.fans[g]? = some (f, nodes') ∧
      ∀ m ∈ nodes, f = .subscribe → m ∈ nodes' ∨ (g, m) ∈ q.claims :=
  ⟨nodes, by rwa [hf], fun _ hm _ ↦ .inl hm⟩

/-- The session stays as it is, up to things that are not claimed. -/
theorem of_eq (hf : s'.fans = s.fans) (hq : q'.Fanning s') (hclaims : q'.claims = q.claims)
    (howned : q'.owned = q.owned)
    (htask : ∀ g m pos, q'.stage = .task g .subscribe m pos →
      ∃ pos, q.stage = .task g .subscribe m pos)
    (hstart : ∀ f, h = some f → f.isAside = true) : Moves s s' q q' h where
  fans := fans_of_eq hf
  mover := hq
  claims _ _ hm := .inl (hclaims ▸ hm)
  owned _ hg := .inl (howned ▸ hg)
  kept _ hg := .inl (howned ▸ hg)
  task := htask
  started f hf := .of_isAside (hstart f hf)

/-- A callback that moves on. -/
theorem setPos {g : Nat} {f : Callback} {m : String} {pos : Pos} (pos' : Pos)
    (hq : q.Fanning s) (hstage : q.stage = .task g f m pos) (hf : s'.fans = s.fans) :
    Moves s s' q (.on (q.stage.setPos pos')) none := by
  obtain ⟨nodes, hg⟩ := hq.task g f m pos hstage
  obtain rfl := hq.eq_on hstage
  refine .of_eq hf ?_ ?_ rfl ?_ (fun f h ↦ by cases h)
  · refine .on_task pos' (by rwa [hf]) ?_
    rintro rfl
    obtain ⟨nodes', hg', hm⟩ := hq.claims g m (by simp)
    obtain ⟨-, rfl⟩ := Prod.mk.inj (Option.some.inj (hg.symm.trans hg'))
    exact hm
  · cases f <;> rfl
  · intro g' m' pos'' heq
    cases heq
    exact ⟨pos, rfl⟩

/-- A goroutine that has no claims goes to a stage without claims. -/
theorem to_free {stage : Stage} (hfree : q.Free) (h : ∀ g f m pos, stage ≠ .task g f m pos)
    (hf : s'.fans = s.fans) : Moves s s' q (.on stage) none := by
  have hfree' := Session.Free.on h
  refine .of_eq hf (.on h) (hfree'.claims.trans hfree.claims.symm)
    (hfree'.owned.trans hfree.owned.symm) ?_ (fun f h ↦ by cases h)
  exact fun g m pos heq ↦ absurd heq (h g _ m pos)

end Moves

/-- Stages that run no callback have no claims, callbacks apart. -/
theorem Session.Fanning.free (hq : q.Fanning s) (hsub : ¬ q.stage.MayRun .subscribe)
    (htask : ∀ g f m pos, q.stage ≠ .task g f m pos) : q.Free := by
  obtain ⟨stage, fan⟩ := q
  cases fan with
  | none => exact .on htask
  | some x =>
    obtain ⟨g, f, rest⟩ := x
    cases f with
    | subscribe => exact absurd (hq.fan g _ rest rfl).1 hsub
    | report | enable _ => exact ⟨rfl, rfl⟩

/-- So have stages that run a callback, before they do. -/
theorem Session.free_of_mayRun {f : Callback} (hrun : q.stage.MayRun f) (hfan : q.fan = none) :
    q.Free := by
  obtain ⟨stage, fan⟩ := q
  obtain rfl : fan = none := hfan
  refine .on ?_
  rintro g f m pos rfl
  exact hrun.elim

theorem moves_forEach {f : Callback} {x : Except Err (Nat × List String)}
    (hok : q.Ok r (.forEach f)) (hx : State.exec (.forEach f) ch s = some (x, s', none)) :
    Moves s s' q (q.next (.forEach f) x) none := by
  obtain ⟨hrun, hfan⟩ := hok
  have hfree := Session.free_of_mayRun hrun hfan
  have htask (g : Nat) (f' : Callback) (m : String) (pos : Pos) : q.stage ≠ .task g f' m pos := by
    intro heq
    rw [heq] at hrun
    exact hrun
  obtain ⟨-, rfl, hs'⟩ | ⟨-, rfl, err, rfl⟩ := State.exec_forEach hx
  · have hfans : s'.fans = s.fans ++ [(f, s.nodesFor f)] := by
      rw [hs', State.fans, State.fans, List.map_append]
      rfl
    have hnew : s'.fans[s.fans.length]? = some (f, s.nodesFor f) := by
      rw [hfans, List.getElem?_concat_length]
    have hclaims (g : Nat) (m : String) (hm : (g, m) ∈
        (q.next (.forEach f) (.ok (s.fans.length, s.nodesFor f))).claims) :
        g = s.fans.length ∧ f = .subscribe ∧ m ∈ s.nodesFor f := by
      cases f with
      | subscribe =>
        obtain ⟨m', hm', heq⟩ := List.mem_map.1 hm
        cases heq
        exact ⟨rfl, rfl, hm'⟩
      | report | enable _ => cases hm
    refine ⟨?_, ⟨?_, ?_, ?_, ?_⟩, ?_, ?_, ?_, ?_, fun f h ↦ by cases h⟩
    · intro g f' nodes hg
      refine ⟨nodes, ?_, fun m hm _ ↦ .inl hm⟩
      rw [hfans, List.getElem?_append_left (List.getElem?_eq_some_iff.1 hg).1, hg]
    · intro g f' rest heq
      cases heq
      exact ⟨hrun, _, hnew⟩
    · exact fun g f' m pos heq ↦ absurd heq (htask g f' m pos)
    · intro g m hm
      obtain ⟨rfl, rfl, hmem⟩ := hclaims g m hm
      exact ⟨_, hnew, hmem⟩
    · cases f with
      | subscribe =>
        exact s.masters.2.map fun a b heq ↦ (Prod.mk.inj heq).2
      | report | enable _ => exact List.nodup_nil
    · exact fun g m hm ↦ .inr (hclaims g m hm).1.ge
    · intro g hg
      cases f with
      | subscribe =>
        cases hg
        exact .inr le_rfl
      | report | enable _ => cases hg
    · intro g hg
      rw [hfree.owned] at hg
      cases hg
    · exact fun g m pos heq ↦ absurd heq (htask g _ m pos)
  · refine .to_free hfree ?_ rfl
    cases f <;> simp [Stage.onFail]

/-- A callback is started. -/
theorem moves_go_callback {g : Nat} {f : Callback} {node : String} {x : Unit}
    (hq : q.Fanning s) (hok : q.Ok r (.go (.callback g f node))) :
    Moves s s q (q.next (.go (.callback g f node)) x) (some (.callback g f node)) := by
  obtain ⟨stage, fan⟩ := q
  obtain ⟨rest, hfan⟩ := hok
  obtain rfl : fan = _ := hfan
  obtain ⟨hrun, nodes, hg⟩ := hq.fan g f _ rfl
  have hnext : Session.next ⟨stage, some (g, f, node :: rest)⟩ (.go (.callback g f node)) x =
    ⟨stage, some (g, f, rest)⟩ := rfl
  have htask (g' : Nat) (f' : Callback) (m : String) (pos : Pos) : stage ≠ .task g' f' m pos := by
    rintro rfl
    exact hrun
  have hclaims : Session.claims ⟨stage, some (g, f, node :: rest)⟩ =
      (if f = .subscribe then [(g, node)] else []) ++ Session.claims ⟨stage, some (g, f, rest)⟩ := by
    cases f <;> rfl
  have hnodup := hq.nodup
  rw [hclaims] at hnodup
  rw [hnext]
  have hsub (x : Nat × String) (hx : x ∈ Session.claims ⟨stage, some (g, f, rest)⟩) :
      x ∈ Session.claims ⟨stage, some (g, f, node :: rest)⟩ := by
    rw [hclaims]
    exact List.mem_append_right _ hx
  refine ⟨Moves.fans_of_eq rfl, ⟨?_, ?_, ?_, ?_⟩, fun g m hm ↦ .inl (hsub _ hm), ?_, ?_, ?_, ?_⟩
  · intro g' f' rest' heq
    cases heq
    exact ⟨hrun, nodes, hg⟩
  · exact fun g' f' m pos heq ↦ absurd heq (htask g' f' m pos)
  · exact fun g' m hm ↦ hq.claims g' m (hsub _ hm)
  · exact (List.nodup_append.1 hnodup).2.1
  · intro g' hg'
    left
    cases f <;> exact hg'
  · intro g' hg'
    left
    cases f <;> exact hg'
  · exact fun g' m pos heq ↦ absurd heq (htask g' _ m pos)
  · intro f' hf'
    obtain rfl := Option.some.inj hf'
    cases f with
    | subscribe =>
      have hnode : (g, node) ∈ Session.claims ⟨stage, some (g, .subscribe, node :: rest)⟩ :=
        List.mem_cons_self
      obtain ⟨nodes', hg', hm⟩ := hq.claims g node hnode
      refine ⟨.on_task .start hg' fun _ ↦ hm, ?_, rfl, ?_⟩
      · intro x hx
        obtain rfl := List.mem_singleton.1 hx
        exact ⟨hnode, (List.nodup_cons.1 hnodup).1⟩
      · intro g' m pos heq
        cases heq
        rfl
    | report | enable _ =>
      refine ⟨.on_task .start hg (by simp), ?_, rfl, ?_⟩
      · intro x hx
        cases hx
      · intro g' m pos heq
        cases heq

/-- All callbacks have returned. -/
theorem moves_wait {g : Nat} {x : ForEach} (hq : q.Fanning s) (hok : q.Ok r (.wait g))
    (hx : State.exec (.wait g) ch s = some (x, s', none)) :
    Moves s s' q (q.next (.wait g) x) none := by
  obtain ⟨rfl, hdone⟩ := State.exec_wait hx
  obtain ⟨f, hfan⟩ := hok
  obtain ⟨hrun, nodes, hg⟩ := hq.fan g f _ hfan
  obtain ⟨stage, fan⟩ := q
  obtain rfl : fan = _ := hfan
  have hno (g' : Nat) (f' : Callback) (m : String) (pos : Pos) :
      stage.onWait f ≠ .task g' f' m pos := by
    revert hrun
    show stage.MayRun f → _
    cases stage with
    | task _ _ _ _ => exact fun h ↦ h.elim
    | _ => simp [Stage.onWait]
  have hclaims : (Session.next ⟨stage, some (g, f, [])⟩ (.wait g) x).claims = [] :=
    (Session.Free.on hno).claims
  refine ⟨Moves.fans_of_eq rfl, .on hno, ?_, ?_, ?_, ?_, fun f h ↦ by cases h⟩
  · intro g' m hm
    rw [hclaims] at hm
    cases hm
  · intro g' hg'
    cases hg'
  · intro g' hg'
    right
    cases f with
    | subscribe =>
      cases hg'
      obtain ⟨hf, -⟩ := Prod.mk.inj (Option.some.inj (hg.symm.trans hdone))
      rwa [hf]
    | report | enable _ => cases hg'
  · exact fun g' m pos heq ↦ absurd heq (hno g' _ m pos)

/-- A callback returns. -/
theorem moves_callbackDone {g : Nat} {node : String} {err : Option Err} {x : Unit}
    (hq : q.Fanning s) (hok : q.Ok r (.callbackDone g node err))
    (hx : State.exec (.callbackDone g node err) ch s = some (x, s', none)) :
    Moves s s' q (q.next (.callbackDone g node err) x) none := by
  have hfans := State.exec_callbackDone hx
  obtain ⟨f, pos, hstage, -⟩ := hok
  obtain ⟨nodes₀, hg⟩ := hq.task g f node pos hstage
  obtain rfl := hq.eq_on hstage
  refine ⟨?_, .on (by simp), ?_, ?_, ?_, ?_, fun f h ↦ by cases h⟩
  · intro g' f' nodes hg'
    rw [hfans, List.getElem?_modify, hg']
    by_cases hgg : g = g'
    · subst hgg
      refine ⟨nodes.erase node, by simp, fun m hm hsub ↦ ?_⟩
      obtain ⟨rfl, rfl⟩ := Prod.mk.inj (Option.some.inj (hg.symm.trans hg'))
      subst hsub
      by_cases hmn : m = node
      · exact .inr (by simp [hmn])
      · exact .inl ((List.mem_erase_of_ne hmn).2 hm)
    · exact ⟨nodes, by simp [hgg], fun m hm _ ↦ .inl hm⟩
  · intro g' m hm
    cases hm
  · intro g' hg'
    cases hg'
  · intro g' hg'
    cases hg'
  · intro g' m pos' heq
    cases heq

/-- **One operation.** -/
theorem moves_op {o : Op} {x : o.Reply} (hq : q.Fanning s) (hok : q.Ok r o)
    (hx : State.exec o ch s = some (x, s', h)) : Moves s s' q (q.next o x) h := by
  -- an operation that the session does not care for
  have hsame (hnext : q.next o x = q) (hf : s'.fans = s.fans)
      (hstart : ∀ f, h = some f → f.isAside = true) : Moves s s' q (q.next o x) h := by
    rw [hnext]
    exact .of_eq hf (hq.of_eq hf) rfl rfl (fun g m pos h ↦ ⟨pos, h⟩) hstart
  cases o with
  | client o =>
    refine hsame rfl (State.exec_fans hx rfl) ?_
    rintro f rfl
    rcases State.exec_starts hx with heq | ⟨o', f', -, rfl⟩
    · cases heq
    · rfl
  | go f =>
    obtain ⟨-, rfl, rfl⟩ := State.some_inj hx
    cases f with
    | callback g f node => exact moves_go_callback hq hok
    | client _ | fanIn _ | listenKsp =>
      refine hsame rfl rfl fun f' hf' ↦ ?_
      obtain rfl := Option.some.inj hf'
      rfl
    | _ => cases hok
  | forEach f =>
    obtain rfl := State.exec_eq_none hx (by simp) (by simp)
    exact moves_forEach hok hx
  | wait g =>
    obtain rfl := State.exec_eq_none hx (by simp) (by simp)
    exact moves_wait hq hok hx
  | callbackDone g node err =>
    obtain rfl := State.exec_eq_none hx (by simp) (by simp)
    exact moves_callbackDone hq hok hx
  | configGet node =>
    have hf := State.exec_fans hx rfl
    obtain rfl := State.exec_eq_none hx (by simp) (by simp)
    obtain ⟨g, b, m, hstage, -⟩ := hok
    rcases x with e | v
    · exact .setPos .finished hq hstage hf
    · exact .setPos (.read v) hq hstage hf
  | configSet node v =>
    have hf := State.exec_fans hx rfl
    obtain rfl := State.exec_eq_none hx (by simp) (by simp)
    obtain ⟨g, b, m, v₀, hstage, -⟩ := hok
    exact .setPos .finished hq hstage hf
  | pSubscribe node =>
    have hf := State.exec_fans hx rfl
    obtain rfl := State.exec_eq_none hx (by simp) (by simp)
    obtain ⟨g, m, hstage, -⟩ := hok
    exact .setPos _ hq hstage hf
  | ossAdd ps =>
    have hf := State.exec_fans hx rfl
    obtain rfl := State.exec_eq_none hx (by simp) (by simp)
    obtain ⟨g, m, hstage⟩ := hok
    exact .setPos .finished hq hstage hf
  | ossCloseAll =>
    have hf := State.exec_fans hx rfl
    obtain rfl := State.exec_eq_none hx (by simp) (by simp)
    have hfree : q.Free := by
      refine hq.free ?_ ?_ <;> rcases hok with h | h | h <;> simp [h, Stage.MayRun]
    refine .to_free hfree ?_ hf
    rcases hok with h | h | h <;> simp [h, Stage.onCloseAll]
  | getPubSub =>
    have hf := State.exec_fans hx rfl
    obtain rfl := State.exec_eq_none hx (by simp) (by simp)
    have hstage : q.stage = .finishing := hok
    have hfree : q.Free := hq.free (by simp [hstage, Stage.MayRun]) (by simp [hstage])
    rcases x with _ | ps
    · exact hsame rfl hf (fun f h ↦ by cases h)
    · exact .to_free hfree (by simp) hf
  | setPubSub _ => exact hok.elim
  | _ =>
    obtain rfl := State.exec_eq_none hx (by simp) (by simp)
    exact hsame rfl (State.exec_fans hx rfl) (fun f h ↦ by cases h)

end

/-! ## The invariant -/

section

variable {J : Json} {r : Config} {hoss : r.clusterMode = .oss} {P P' : Pool (machine J r)}
  {q : Nat → Session} {e : Event (machine J r)}

/-- **Who claims what.** -/
structure Fans (P : Pool (machine J r)) (q : Nat → Session) : Prop where
  each : ∀ t c f, P.Live t c f → (q t).Fanning P.state
  pairs : ∀ t u c d f g, P.Live t c f → P.Live u d g → t ≠ u → (q t).Apart (q u)
  owner : ∀ u c f g m pos, P.Live u c f → (q u).stage = .task g .subscribe m pos →
    ∃ t d f', P.Live t d f' ∧ (q t).owned = some g

/-- Callbacks are started by `ForEachMaster` and `ForEachShard` only. -/
def Properly : Event (machine J r) → Prop
  | .start _ (.callback _ _ _) => False
  | _ => True

theorem Session.Fanning.lt_of_claims {s : State} {q : Session} (hq : q.Fanning s) {g : Nat}
    {m : String} (h : (g, m) ∈ q.claims) : g < s.fans.length := by
  obtain ⟨nodes, hg, -⟩ := hq.claims g m h
  exact (List.getElem?_eq_some_iff.1 hg).1

theorem Session.Fanning.lt_of_owned {s : State} {q : Session} (hq : q.Fanning s) {g : Nat}
    (h : q.owned = some g) : g < s.fans.length := by
  rw [Session.owned] at h
  split at h
  · next g' rest hfan =>
    obtain rfl := Option.some.inj h
    obtain ⟨-, nodes, hg⟩ := hq.fan _ _ _ hfan
    exact (List.getElem?_eq_some_iff.1 hg).1
  · cases h

/-- The goroutine that moves stays apart from the others. -/
theorem Moves.apart {s s' : State} {q q' u : Session} {h : Option Call} (hm : Moves s s' q q' h)
    (hu : u.Fanning s) (hqu : q.Apart u) : q'.Apart u where
  claims := by
    rintro ⟨g, m⟩ hx hxu
    rcases hm.claims g m hx with hx | hge
    · exact hqu.claims hx hxu
    · exact absurd (hu.lt_of_claims hxu) (not_lt.2 hge)
  owned g hg hgu := by
    rcases hm.owned g hg with hg | hge
    · exact hqu.owned g hg hgu
    · exact absurd (hu.lt_of_owned hgu) (not_lt.2 hge)

/-- An operation keeps the invariant. -/
theorem Fans.op (hob : (topology J r hoss).Obeying P q) (hF : Fans P q) {t : Nat} {c : Unit}
    {o : Op} {ch : Choice} {x : o.Reply} {h : Option Call}
    (hs : Pool.Step P (.op t c o ch x h) P') :
    Fans P' ((topology J r hoss).track q P (.op t c o ch x h)) := by
  obtain ⟨f, hl⟩ := hs.op_live
  have hm : Moves P.state P'.state (q t) ((q t).next o x) h :=
    moves_op (hF.each t c f hl) (hob.ok hs) hs.op_exec
  have htrack : (topology J r hoss).track q P (.op t c o ch x h) t = (q t).next o x :=
    Contract.track_op_self hl.lt_length
  have hkeep (u : Nat) (d : Unit) (g : Call) (hu : P.Live u d g) (hne : u ≠ t) :
      (topology J r hoss).track q P (.op t c o ch x h) u = q u :=
    Contract.track_op_of_ne hne hu.lt_length
  have hlive (u : Nat) (d : Unit) (g : Call) (hu : P.Live u d g) : P'.Live u d g :=
    hs.live_iff.2 (.inl ⟨hu, by simp⟩)
  constructor
  · refine hob.each (I := fun _ _ (q : Session) ↦ q.Fanning P.state)
      (Q := fun _ _ (q : Session) ↦ q.Fanning P'.state) hs hF.each ?_ ?_ ?_
    · intro u d g hu _ hmover hq
      refine hq.mono fun g' f' nodes hg' ↦ ?_
      obtain ⟨nodes', hnodes', hmem⟩ := hm.fans g' f' nodes hg'
      refine ⟨nodes', hnodes', fun m hm' hsub hclaim ↦ (hmem m hm' hsub).resolve_right ?_⟩
      have hne : t ≠ u := fun htu ↦ hmover (by rw [htu]; rfl)
      exact fun hmine ↦ (hF.pairs t u c d f g hl hu hne).claims hmine hclaim
    · intro u d g o' ch' x' h' he _ _ _ _
      cases he
      exact hm.mover
    · intro d g hst
      obtain ⟨g', rfl, heq⟩ := Option.map_eq_some_iff.1 hst
      cases heq
      exact (hm.started _ rfl).fanning
  · refine Contract.track_pairs (fun _ _ h ↦ h.symm) hs hF.pairs ?_ ?_
    · intro t' c' o' ch' x' h' he u d g hu hne
      cases he
      exact hm.apart (hF.each u d g hu) (hF.pairs t u c d f g hl hu hne.symm)
    · intro d g hst u d' g' hu
      obtain ⟨g'', rfl, heq⟩ := Option.map_eq_some_iff.1 hst
      cases heq
      have hnew := hm.started _ rfl
      by_cases hut : u = t
      · subst hut
        rw [htrack]
        refine ⟨fun y hy hy' ↦ (hnew.claims y hy).2 hy', fun g hg ↦ ?_⟩
        rw [hnew.owned] at hg
        cases hg
      · rw [hkeep u d' g' hu hut]
        refine ⟨fun y hy hy' ↦ ?_, fun g hg ↦ ?_⟩
        · exact (hF.pairs t u c d' f g' hl hu (Ne.symm hut)).claims (hnew.claims y hy).1 hy'
        · rw [hnew.owned] at hg
          cases hg
  · intro u d g g' m pos hu hstage
    rcases hs.live_iff.1 hu with ⟨hu, -⟩ | ⟨rfl, hst⟩
    · -- an old callback has its owner still
      obtain ⟨pos', hold⟩ : ∃ pos, (q u).stage = .task g' .subscribe m pos := by
        by_cases hut : u = t
        · subst hut
          rw [htrack] at hstage
          exact hm.task g' m pos hstage
        · rw [hkeep u d g hu hut] at hstage
          exact ⟨pos, hstage⟩
      obtain ⟨v, d', f', hv, howned⟩ := hF.owner u d g g' m pos' hu hold
      by_cases hvt : v = t
      · subst hvt
        rcases hm.kept g' howned with hkept | hdone
        · exact ⟨v, d', f', hlive v d' f' hv, by rw [htrack]; exact hkept⟩
        · have hq := hF.each u d g hu
          have hclaim : (g', m) ∈ (q u).claims := by
            rw [hq.eq_on hold]
            exact List.mem_singleton_self _
          obtain ⟨nodes, hnodes, hmem⟩ := hq.claims g' m hclaim
          obtain ⟨-, rfl⟩ := Prod.mk.inj (Option.some.inj (hdone.symm.trans hnodes))
          cases hmem
      · exact ⟨v, d', f', hlive v d' f' hv, by rw [hkeep v d' f' hv hvt]; exact howned⟩
    · -- a new one is owned by the goroutine that started it
      rw [Contract.track_starts hst] at hstage
      obtain ⟨g'', rfl, heq⟩ := Option.map_eq_some_iff.1 hst
      cases heq
      exact ⟨t, c, f, hlive t c f hl, by rw [htrack]; exact (hm.started _ rfl).task g' m pos hstage⟩

/-- A call that is started claims nothing. -/
theorem Session.free_ofCall {f : Call} (hf : ∀ g cb m, f ≠ .callback g cb m) :
    (Session.ofCall f).Free ∧ ∀ g cb m pos, (Session.ofCall f).stage ≠ .task g cb m pos := by
  cases f with
  | callback g cb m => exact absurd rfl (hf g cb m)
  | _ => exact ⟨⟨rfl, rfl⟩, fun _ _ _ _ h ↦ by cases h⟩

/-- Steps that are no operation leave the calls of `ForEachMaster` alone. -/
theorem fans_of_mover (hs : Pool.Step P e P') (he : e.mover = none) :
    P'.state.fans = P.state.fans := by
  cases hs with
  | op => cases he
  | again | start | crash => rfl
  | @env v s hv =>
    cases v with
    | redis _ | topology _ _ | cancel =>
      obtain rfl := Option.some.inj hv
      rfl

/-- **One step.** -/
theorem Fans.step (hob : (topology J r hoss).Obeying P q) (hF : Fans P q) (hg : Properly e)
    (hs : Pool.Step P e P') : Fans P' ((topology J r hoss).track q P e) := by
  cases he : e.mover with
  | some t =>
    cases e with
    | op t c o ch x h => exact hF.op hob hs
    | _ => cases he
  | none =>
    have hfans := fans_of_mover hs he
    have hkeep (u : Nat) (d : Unit) (g : Call) (hu : P.Live u d g) :
        (topology J r hoss).track q P e u = q u :=
      Contract.track_of_mover_ne hu.lt_length (by simp [he])
    have hnew (c : Unit) (f : Call) (hst : e.starts = some (c, f)) :
        (Session.ofCall f).Free ∧ ∀ g cb m pos, (Session.ofCall f).stage ≠ .task g cb m pos := by
      refine Session.free_ofCall ?_
      rintro g cb m rfl
      cases e with
      | start c f =>
        cases hst
        exact hg
      | op => cases he
      | _ => cases hst
    constructor
    · refine hob.each (I := fun _ _ (q : Session) ↦ q.Fanning P.state)
        (Q := fun _ _ (q : Session) ↦ q.Fanning P'.state) hs hF.each ?_ ?_ ?_
      · exact fun _ _ _ _ _ _ hq ↦ hq.of_eq hfans
      · rintro t c f o ch x g rfl
        cases he
      · intro c f hst
        obtain ⟨hfree, htask⟩ := hnew c f hst
        refine .of_free hfree ?_ fun g cb m pos heq ↦ absurd heq (htask g cb m pos)
        intro g cb rest hfan
        cases f <;> cases hfan
    · refine Contract.track_pairs (fun _ _ h ↦ h.symm) hs hF.pairs ?_ ?_
      · rintro t c o ch x f rfl
        cases he
      · exact fun c f hst _ _ _ _ ↦ (hnew c f hst).1.apart
    · intro u c f g m pos hu hstage
      rcases hs.live_iff.1 hu with ⟨hu, hc⟩ | ⟨rfl, hst⟩
      · rw [hkeep u c f hu] at hstage
        obtain ⟨v, d, f', hv, howned⟩ := hF.owner u c f g m pos hu hstage
        exact ⟨v, d, f', hs.live_iff.2 (.inl ⟨hv, hc⟩), by rw [hkeep v d f' hv]; exact howned⟩
      · rw [Contract.track_starts hst] at hstage
        exact absurd hstage ((hnew c f hst).2 g _ m pos)

theorem Fans.nil (h₀ : P.threads = []) : Fans P q := by
  have hdead (t : Nat) (c : Unit) (f : Call) : ¬ P.Live t c f := by
    rintro ⟨p, hp⟩
    simp [h₀] at hp
  exact ⟨fun t c f hl ↦ absurd hl (hdead t c f), fun t u c d f g hl ↦ absurd hl (hdead t c f),
    fun t c f g m pos hl ↦ absurd hl (hdead t c f)⟩

end

end RedisStreamClient.Impl.Lifecycle

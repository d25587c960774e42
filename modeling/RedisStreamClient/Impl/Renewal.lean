import RedisStreamClient.Impl.Overlap

/-!
# The subscriptions of calls that follow one another

One `Init`, then any number of calls of `ReinitTopology`, then `Done`, each called after the one
before it has returned.  A ledger records how the subscriptions were when the latest call began,
and the masters it subscribed to.

Every point at which `ReinitTopology` returns an error comes before `closeAll`, so a call that
fails leaves the subscriptions as they were.  One that succeeds has closed them, and its
callbacks have opened and added one on every master that `ForEachMaster` gave.
-/

namespace RedisStreamClient.Impl.Lifecycle

open RedisStreamClient.Lib RedisStreamClient.Errs RedisStreamClient.Notifs

/-! ## Calls that follow one another -/

/-- The calls that follow the topology. -/
def Call.isTopology : Call → Bool
  | .init | .reinitTopology | .done | .cleanup => true
  | _ => false

/-- The masters that are subscribed to. -/
def Op.loads : (o : Op) → o.Reply → Option (List String)
  | .forEach .subscribe, reply =>
    match (show Except Err (Nat × List String) from reply) with
    | .ok (_, nodes) => some nodes
    | .error _ => none
  | _, _ => none

/-- `ForEachMaster`, to subscribe. -/
def Op.isSubscribe : Op → Bool
  | .forEach .subscribe => true
  | _ => false

/-- What is recorded of the latest call. -/
structure Ledger where
  /-- The goroutine that runs it. -/
  current : Option Nat
  /-- The subscriptions when it began. -/
  pubSubs : List PubSub
  /-- `r.oss.pubSubs` when it began. -/
  ossPubSubs : List Nat
  /-- The masters that it subscribed to. -/
  loaded : List String

section

variable {J : Json} {r : Config}

/-- No call yet. -/
def Ledger.new : Ledger := ⟨none, [], [], []⟩

/-- Record a step. -/
def Ledger.record (γ : Ledger) (P : Pool (machine J r)) : Event (machine J r) → Ledger
  | .start _ f =>
    if f.isTopology then ⟨some P.threads.length, P.state.pubSubs, P.state.ossPubSubs, []⟩ else γ
  | .op _ _ o _ x _ => (o.loads x).elim γ fun nodes ↦ { γ with loaded := nodes }
  | _ => γ

/-- A goroutine that is no call of `Init` or `ReinitTopology` under way, no failed `Init` and no
`Done`. -/
def isSettled (th : Thread (machine J r)) : Bool :=
  match th.call, th.prog with
  | .init, some (.ret (.inl (.init none))) => true
  | .reinitTopology, some (.ret (.inl (.reinitTopology _))) => true
  | f, _ => !f.isTopology

/-- The calls follow one another: one `Init` that succeeds, any number of calls of
`ReinitTopology`, one `Done`.  `ForEachMaster` runs the callbacks that subscribe. -/
def Sequential (P : Pool (machine J r)) : Event (machine J r) → Prop
  | .op _ _ o ch _ _ => o.isSubscribe = true → ch.base.fault = .none
  | .start _ f => match f with
    | .init => ∀ th ∈ P.threads, th.call.isTopology = false
    | .reinitTopology | .done =>
      (∃ th ∈ P.threads, th.call = .init) ∧ ∀ th ∈ P.threads, isSettled th = true
    | _ => f.isAside = true
  | .crash _ => False
  | _ => True

end

/-! ## Sessions and calls -/

/-- Where the goroutine of a call can be. -/
def Call.Fits (q : Session) : Call → Prop
  | .client _ | .fanIn _ | .listenKsp => q = .on .calm
  | .callback g f m => q = .on .calm ∨ ∃ pos, q = .on (.task g f m pos)
  | .init | .reinitTopology | .done | .cleanup => ∀ g f m pos, q.stage ≠ .task g f m pos

theorem Call.fits_ofCall (f : Call) : f.Fits (.ofCall f) := by
  cases f with
  | client _ | fanIn _ | listenKsp => rfl
  | callback g f m => exact .inr ⟨.start, rfl⟩
  | init | reinitTopology | done | cleanup => exact nofun

section

variable {r : Config} {q : Session} {o : Op}

/-- A goroutine on the side does nothing that sessions care for. -/
theorem Session.next_calm (hok : (Session.on .calm).Ok r o) (x : o.Reply) :
    (Session.on .calm).next o x = .on .calm ∧ o.isSub = false ∧ o.loads x = none := by
  cases o with
  | forEach f => exact hok.1.elim
  | go f =>
    cases f with
    | callback g f m =>
      obtain ⟨nodes, h⟩ := hok
      cases h
    | _ => exact ⟨rfl, rfl, rfl⟩
  | wait g =>
    obtain ⟨f, h⟩ := hok
    cases h
  | callbackDone g m err =>
    obtain ⟨f, pos, h, -⟩ := hok
    cases h
  | configGet node =>
    obtain ⟨g, b, m, h, -⟩ := hok
    cases h
  | configSet node v =>
    obtain ⟨g, b, m, v₀, h, -⟩ := hok
    cases h
  | pSubscribe node =>
    obtain ⟨g, m, h, -⟩ := hok
    cases h
  | ossAdd ps =>
    obtain ⟨g, m, h⟩ := hok
    cases h
  | ossCloseAll => rcases hok with h | h | h <;> cases h
  | setPubSub ps => exact hok.elim
  | getPubSub | closePubSub _ => cases hok
  | _ => exact ⟨rfl, rfl, rfl⟩

/-- A callback stays where it is, moves on or returns. -/
theorem Session.next_task {g : Nat} {f : Callback} {m : String} {pos : Pos}
    (hok : (Session.on (.task g f m pos)).Ok r o) (x : o.Reply) :
    ((Session.on (.task g f m pos)).next o x = .on .calm ∨
      ∃ pos', (Session.on (.task g f m pos)).next o x = .on (.task g f m pos')) ∧
      o.loads x = none := by
  cases o with
  | forEach f => exact hok.1.elim
  | go f =>
    cases f with
    | callback g f m =>
      obtain ⟨nodes, h⟩ := hok
      cases h
    | _ => exact ⟨.inr ⟨pos, rfl⟩, rfl⟩
  | wait g =>
    obtain ⟨f, h⟩ := hok
    cases h
  | callbackDone g m err => exact ⟨.inl rfl, rfl⟩
  | configGet node => rcases x with e | v <;> exact ⟨.inr ⟨_, rfl⟩, rfl⟩
  | configSet _ _ | pSubscribe _ | ossAdd _ => exact ⟨.inr ⟨_, rfl⟩, rfl⟩
  | ossCloseAll => rcases hok with h | h | h <;> cases h
  | setPubSub ps => exact hok.elim
  | getPubSub | closePubSub _ => cases hok
  | _ => exact ⟨.inr ⟨pos, rfl⟩, rfl⟩

/-- Calls stay calls. -/
theorem Session.next_stage_ne_task (hq : ∀ g f m pos, q.stage ≠ .task g f m pos) (hok : q.Ok r o)
    (x : o.Reply) (g : Nat) (f : Callback) (m : String) (pos : Pos) :
    (q.next o x).stage ≠ .task g f m pos := by
  cases o with
  | forEach f =>
    rcases x with err | ⟨g', nodes⟩
    · cases f <;> exact nofun
    · exact hq g _ m pos
  | go f =>
    cases f with
    | callback g' f m' => exact hq g _ m pos
    | _ => exact hq g _ m pos
  | wait g' =>
    obtain ⟨f', hfan⟩ := hok
    obtain ⟨stage, fan⟩ := q
    obtain rfl : fan = _ := hfan
    have hstage := hq g f m pos
    cases stage with
    | starting | enabled | cleared => exact nofun
    | _ => exact hstage
  | callbackDone _ _ _ => exact nofun
  | configGet node =>
    obtain ⟨g', b, m', h, -⟩ := hok
    exact absurd h (hq _ _ _ _)
  | configSet node v =>
    obtain ⟨g', b, m', v₀, h, -⟩ := hok
    exact absurd h (hq _ _ _ _)
  | pSubscribe node =>
    obtain ⟨g', m', h, -⟩ := hok
    exact absurd h (hq _ _ _ _)
  | ossAdd ps =>
    obtain ⟨g', m', h⟩ := hok
    exact absurd h (hq _ _ _ _)
  | ossCloseAll =>
    show q.stage.onCloseAll ≠ _
    cases q.stage <;> exact nofun
  | getPubSub =>
    rcases x with _ | ps
    · exact hq g f m pos
    · exact nofun
  | _ => exact hq g f m pos

theorem Call.Fits.next {f : Call} (hf : f.Fits q) (hok : q.Ok r o) (x : o.Reply) :
    f.Fits (q.next o x) := by
  cases f with
  | client _ | fanIn _ | listenKsp =>
    obtain rfl : q = .on .calm := hf
    exact (Session.next_calm hok x).1
  | callback g f m =>
    rcases hf with rfl | ⟨pos, rfl⟩
    · exact .inl (Session.next_calm hok x).1
    · exact (Session.next_task hok x).1
  | init | reinitTopology | done | cleanup => exact Session.next_stage_ne_task hf hok x

end

/-! ## The invariant -/

/-- A callback that has a subscription to open or to add. -/
def Pos.unfinished : Pos → Bool
  | .start | .holding _ => true
  | _ => false

namespace Ledger

/-- The subscriptions are as they were. -/
def Unchanged (γ : Ledger) (s : State) : Prop :=
  s.pubSubs = γ.pubSubs ∧ s.ossPubSubs = γ.ossPubSubs

/-- The open subscriptions were opened by the latest call, on masters it loaded. -/
def Opened (γ : Ledger) (s : State) : Prop :=
  ∀ node ps, s.OpenOn node ps → γ.pubSubs.length ≤ ps ∧ ∃ m ∈ γ.loaded, node = some m

/-- And there is one on each of them. -/
def Covered (γ : Ledger) (s : State) : Prop :=
  γ.Opened s ∧ ∀ m ∈ γ.loaded, ∃ ps ∈ s.ossPubSubs, s.OpenOn (some m) ps

end Ledger

section

variable {J : Json} {r : Config} {hoss : r.clusterMode = .oss} {P P' : Pool (machine J r)}
  {q : Nat → Session} {γ : Ledger} {e : Event (machine J r)}

/-- Each master has its callback to be started, has one that is not through, or has its
subscription. -/
structure Covering (P : Pool (machine J r)) (q : Nat → Session) (γ : Ledger) (g : Nat)
    (rest : List String) : Prop where
  opened : γ.Opened P.state
  claimed : ∀ u c f m, P.Live u c f → (g, m) ∈ (q u).claims → m ∈ γ.loaded
  covered : ∀ m ∈ γ.loaded, m ∈ rest ∨
    (∃ u c f pos, P.Live u c f ∧ q u = .on (.task g .subscribe m pos) ∧ pos.unfinished = true) ∨
    ∃ ps ∈ P.state.ossPubSubs, P.state.OpenOn (some m) ps

/-- How far the latest call has got. -/
def Progress (P : Pool (machine J r)) (q : Nat → Session) (γ : Ledger) (x : Session) : Prop :=
  match x.stage, x.fan with
  | .starting, _ | .enabled, none | .checking, _ | .refused, _ => γ.Unchanged P.state
  | .enabled, some (g, _, rest) | .cleared, some (g, _, rest) => Covering P q γ g rest
  | .built, _ => γ.Covered P.state
  | .unbuilt, _ => False
  | _, _ => True

/-- **The invariant.** -/
structure Renewal (P : Pool (machine J r)) (q : Nat → Session) (γ : Ledger) : Prop where
  fits : ∀ t c f, P.Live t c f → f.Fits (q t)
  call : ∀ t, γ.current = some t → ∃ th, P.threads[t]? = some th ∧ th.call.isTopology = true
  settled : ∀ (t : Nat) (th : Thread (machine J r)), P.threads[t]? = some th →
    γ.current ≠ some t → isSettled th = true
  older : γ.pubSubs.length ≤ P.state.pubSubs.length
  bare : γ.current = none → ∀ node ps, ¬ P.state.OpenOn node ps
  progress : ∀ t c f, γ.current = some t → P.Live t c f → Progress P q γ (q t)

/-- What a settled goroutine is. -/
theorem isSettled_cases {th : Thread (machine J r)} (h : isSettled th = true) :
    (th.prog = some (.ret (.inl (.init none))) ∨
      ∃ e, th.prog = some (.ret (.inl (.reinitTopology e)))) ∨ th.call.isTopology = false := by
  rw [isSettled] at h
  split at h
  · next hp => exact .inl (.inl hp)
  · next e _ hp => exact .inl (.inr ⟨e, hp⟩)
  · exact .inr (by simpa using h)

theorem isSettled_of_not_isTopology {th : Thread (machine J r)} (h : th.call.isTopology = false) :
    isSettled th = true := by
  rw [isSettled]
  split
  · rfl
  · rfl
  · rw [h]
    rfl

theorem Call.Fits.ne_task {x : Session} {f : Call} (h : f.Fits x) (hf : f.isTopology = true) :
    ∀ g cb m pos, x.stage ≠ .task g cb m pos := by
  cases f with
  | init | reinitTopology | done | cleanup => exact h
  | _ => cases hf

theorem Call.Fits.cases {x : Session} {f : Call} (h : f.Fits x) (hf : f.isTopology = false) :
    x = .on .calm ∨ ∃ g cb m pos, x = .on (.task g cb m pos) := by
  cases f with
  | client _ | fanIn _ | listenKsp => exact .inl h
  | callback g cb m => exact h.imp id fun ⟨pos, hpos⟩ ↦ ⟨g, cb, m, pos, hpos⟩
  | _ => cases hf

namespace Renewal

/-- Only the latest call moves, besides callbacks and goroutines on the side. -/
theorem mover (hR : Renewal P q γ) {t : Nat} {c : Unit} {o : Op} {ch : Choice} {x : o.Reply}
    {h : Option Call} (hs : Pool.Step P (.op t c o ch x h) P') (hne : γ.current ≠ some t) :
    q t = .on .calm ∨ ∃ g f m pos, q t = .on (.task g f m pos) := by
  obtain ⟨f, hl⟩ := hs.op_live
  cases hs with
  | @op _ th _ k _ _ _ _ ht hp _ =>
    rcases isSettled_cases (hR.settled t th ht hne) with (h | ⟨e, h⟩) | htop
    · rw [hp] at h
      cases h
    · rw [hp] at h
      cases h
    · refine (hR.fits t _ f hl).cases ?_
      obtain ⟨p, hp⟩ := hl
      rw [Option.some.inj (ht.symm.trans hp)] at htop
      exact htop

/-- Where the others are. -/
theorem session (hob : (topology J r hoss).Obeying P q) (hR : Renewal P q γ) {u : Nat} {d : Unit}
    {f : Call} (hl : P.Live u d f) (hne : γ.current ≠ some u) :
    (∃ g cb m pos, q u = .on (.task g cb m pos)) ∨ q u = .on .calm ∨ q u = .on .built ∨
      q u = .on .unbuilt ∨ q u = .on .checking ∨ q u = .on .refused := by
  obtain ⟨p, hp⟩ := id hl
  rcases isSettled_cases (hR.settled u _ hp hne) with (h | ⟨e, h⟩) | htop
  · have hexit : (q u).Exit (.inl (.init none)) := hob u _ _ hp h
    exact .inr (.inr (hexit.imp id .inl))
  · have hexit : (q u).Exit (.inl (.reinitTopology e)) := hob u _ _ hp h
    cases e with
    | none => exact .inr (.inr (hexit.imp id .inl))
    | some err => exact .inr (.inr (.inr (.inr hexit)))
  · exact ((hR.fits u d f hl).cases htop).symm.imp id .inl

/-- The callbacks that subscribe are those of the latest call. -/
theorem owner (hob : (topology J r hoss).Obeying P q) (hF : Fans P q) (hR : Renewal P q γ)
    {u : Nat} {d : Unit} {f : Call} (hl : P.Live u d f) {g : Nat} {m : String} {pos : Pos}
    (hstage : (q u).stage = .task g .subscribe m pos) :
    ∃ t c f' rest, γ.current = some t ∧ P.Live t c f' ∧
      (q t).fan = some (g, .subscribe, rest) := by
  obtain ⟨t, c, f', ht, howned⟩ := hF.owner u d f g m pos hl hstage
  have hfan : ∃ rest, (q t).fan = some (g, .subscribe, rest) := by
    rw [Session.owned] at howned
    split at howned
    · next rest heq =>
      obtain rfl := Option.some.inj howned
      exact ⟨rest, heq⟩
    · cases howned
  obtain ⟨rest, hfan⟩ := hfan
  refine ⟨t, c, f', rest, ?_, ht, hfan⟩
  by_contra hne
  rcases session hob hR ht hne with ⟨_, _, _, _, h⟩ | h | h | h | h | h
  all_goals
    rw [h] at hfan
    cases hfan

/-- The others are harmless while the latest call does not subscribe. -/
theorem harmless (hob : (topology J r hoss).Obeying P q) (hF : Fans P q) (hR : Renewal P q γ)
    {u : Nat} {d : Unit} {f : Call} (hl : P.Live u d f) (hne : γ.current ≠ some u)
    (hno : ∀ t c f' g rest, γ.current = some t → P.Live t c f' →
      (q t).fan ≠ some (g, .subscribe, rest)) : (q u).Harmless := by
  rcases session hob hR hl hne with ⟨g, cb, m, pos, h⟩ | h | h | h | h | h
  · by_cases hcb : cb = .subscribe
    · subst hcb
      obtain ⟨t, c, f', rest, hcur, ht, hfan⟩ := owner hob hF hR hl (by rw [h]; rfl)
      exact absurd hfan (hno t c f' g rest hcur ht)
    · rw [h]
      refine ⟨?_, nofun, nofun⟩
      cases cb with
      | subscribe => exact absurd rfl hcb
      | report | enable _ => rfl
  all_goals
    rw [h]
    exact ⟨rfl, nofun, nofun⟩

/-- **Calls that follow one another take their turn.** -/
theorem alone (hob : (topology J r hoss).Obeying P q) (hF : Fans P q) (hR : Renewal P q γ)
    (hg : Sequential P e) (hs : Pool.Step P e P') : Alone q P e := by
  cases e with
  | op t c o ch x h =>
    cases o with
    | ossCloseAll =>
      have hok : (q t).stage = .checking ∨ (q t).stage = .finishing ∨ (q t).stage = .odd :=
        hob.ok hs
      have hcur : γ.current = some t := by
        by_contra hne
        rcases hR.mover hs hne with h | ⟨_, _, _, _, h⟩
        all_goals
          rw [h] at hok
          rcases hok with h | h | h <;> cases h
      intro u d f hu hne
      have hharmless : (q u).Harmless := by
        refine harmless hob hF hR hu (fun h ↦ hne (Option.some.inj (h.symm.trans hcur))) ?_
        intro t' c' f' g rest hcur' ht hfan
        obtain rfl : t = t' := Option.some.inj (hcur.symm.trans hcur')
        have hrun := ((hF.each t c' f' ht).fan g _ rest hfan).1
        rcases hok with h | h | h
        all_goals
          rw [h] at hrun
          simp [Stage.MayRun] at hrun
      exact ⟨hharmless.pending, fun _ ↦ hharmless.closed⟩
    | _ => trivial
  | start c f =>
    cases f with
    | init =>
      have hcur : γ.current = none := by
        cases hcur : γ.current with
        | none => rfl
        | some t =>
          obtain ⟨th, ht, htop⟩ := hR.call t hcur
          rw [hg th (List.mem_of_getElem? ht)] at htop
          cases htop
      refine ⟨hR.bare hcur, fun u d f hu ↦ harmless hob hF hR hu (by simp [hcur]) ?_⟩
      intro t c f' g rest hcur'
      rw [hcur] at hcur'
      cases hcur'
    | callback _ _ _ => cases hg
    | _ => trivial
  | crash c => exact hg
  | _ => trivial

theorem properly (hg : Sequential P e) : Properly e := by
  cases e with
  | start c f =>
    cases f with
    | callback _ _ _ => cases hg
    | _ => trivial
  | _ => trivial

end Renewal

/-! ## One operation -/

/-- A callback with a subscription to open or to add does that next. -/
theorem Session.next_unfinished {o : Op} {g : Nat} {m : String} {pos : Pos}
    (hok : (Session.on (.task g .subscribe m pos)).Ok r o) (hpos : pos.unfinished = true)
    (ho : o.isSub = false) (x : o.Reply) :
    (Session.on (.task g .subscribe m pos)).next o x = .on (.task g .subscribe m pos) := by
  cases o with
  | forEach f => exact hok.1.elim
  | go f =>
    cases f with
    | callback g f m =>
      obtain ⟨nodes, h⟩ := hok
      cases h
    | _ => rfl
  | wait g =>
    obtain ⟨f, h⟩ := hok
    cases h
  | callbackDone g' m' err =>
    obtain ⟨f, pos', h, hret⟩ := hok
    cases h
    cases hret
    cases hpos
  | configGet node =>
    obtain ⟨g, b, m, h, -⟩ := hok
    cases h
  | configSet node v =>
    obtain ⟨g, b, m, v₀, h, -⟩ := hok
    cases h
  | pSubscribe _ | ossAdd _ | ossCloseAll | setPubSub _ | closePubSub _ => cases ho
  | getPubSub => cases hok
  | _ => rfl

section Op

variable {t : Nat} {c : Unit} {o : Op} {ch : Choice} {x : o.Reply} {h : Option Call}

/-- Who performs the operations on subscriptions. -/
theorem Renewal.sub_cases (hob : (topology J r hoss).Obeying P q) (hF : Fans P q) (hS : Subs P q)
    (hR : Renewal P q γ) (hs : Pool.Step P (.op t c o ch x h) P') (ho : o.isSub = true) :
    (γ.current = some t ∧ o = .ossCloseAll) ∨
      ∃ g m pos, q t = .on (.task g .subscribe m pos) ∧
        ((o = .pSubscribe (some m) ∧ pos = .start) ∨ ∃ ps, o = .ossAdd ps ∧ pos = .holding ps) := by
  obtain ⟨f, hl⟩ := hs.op_live
  have hok := hob.ok hs
  cases o with
  | pSubscribe node =>
    obtain ⟨g, m, hstage, rfl⟩ := hok
    exact .inr ⟨g, m, .start, (hF.each t c f hl).eq_on hstage, .inl ⟨rfl, rfl⟩⟩
  | ossAdd ps =>
    obtain ⟨g, m, hstage⟩ := hok
    exact .inr ⟨g, m, .holding ps, (hF.each t c f hl).eq_on hstage, .inr ⟨ps, rfl, rfl⟩⟩
  | ossCloseAll =>
    refine .inl ⟨?_, rfl⟩
    by_contra hne
    rcases hR.mover hs hne with h | ⟨_, _, _, _, h⟩
    all_goals
      rw [h] at hok
      rcases hok with h | h | h <;> cases h
  | setPubSub ps => exact hok.elim
  | closePubSub ps => exact absurd hok (hS.each t c f hl).odd
  | _ => cases ho

/-- The masters stay covered. -/
theorem Covering.step (hob : (topology J r hoss).Obeying P q) (hF : Fans P q)
    (hs : Pool.Step P (.op t c o ch x h) P') {g : Nat} {rest rest' : List String}
    (hC : Covering P q γ g rest) (hg : g < P.state.fans.length) (hopened : γ.Opened P'.state)
    (hkeep : ∀ m ps, ps ∈ P.state.ossPubSubs → P.state.OpenOn (some m) ps →
      ps ∈ P'.state.ossPubSubs ∧ P'.state.OpenOn (some m) ps)
    (hrest : ∀ m ∈ rest, m ∈ rest' ∨ h = some (.callback g .subscribe m))
    (hmove : ∀ m pos, q t = .on (.task g .subscribe m pos) → pos.unfinished = true →
      (∃ pos', (q t).next o x = .on (.task g .subscribe m pos') ∧ pos'.unfinished = true) ∨
        ∃ ps ∈ P'.state.ossPubSubs, P'.state.OpenOn (some m) ps) :
    Covering P' ((topology J r hoss).track q P (.op t c o ch x h)) γ g rest' := by
  obtain ⟨f, hl⟩ := hs.op_live
  have hm := moves_op (hF.each t c f hl) (hob.ok hs) hs.op_exec
  have htrack : (topology J r hoss).track q P (.op t c o ch x h) t = (q t).next o x :=
    Contract.track_op_self hl.lt_length
  have hstill (u : Nat) (d : Unit) (f' : Call) (hu : P.Live u d f') (hne : u ≠ t) :
      (topology J r hoss).track q P (.op t c o ch x h) u = q u :=
    Contract.track_op_of_ne hne hu.lt_length
  have hlive (u : Nat) (d : Unit) (f' : Call) (hu : P.Live u d f') : P'.Live u d f' :=
    hs.live_iff.2 (.inl ⟨hu, by simp⟩)
  refine ⟨hopened, ?_, ?_⟩
  · intro u d f' m hu hclaim
    rcases hs.live_iff.1 hu with ⟨hu, -⟩ | ⟨rfl, hst⟩
    · by_cases hut : u = t
      · subst hut
        rw [htrack] at hclaim
        rcases hm.claims g m hclaim with hold | hge
        · exact hC.claimed u d f' m hu hold
        · exact absurd hg (not_lt.2 hge)
      · rw [hstill u d f' hu hut] at hclaim
        exact hC.claimed u d f' m hu hclaim
    · rw [Contract.track_starts hst] at hclaim
      obtain ⟨f'', rfl, heq⟩ := Option.map_eq_some_iff.1 hst
      cases heq
      exact hC.claimed t c f m hl ((hm.started _ rfl).claims _ hclaim).1
  · intro m hmem
    rcases hC.covered m hmem with hin | ⟨u, d, f', pos, hu, hqu, hpos⟩ | ⟨ps, hps, hopen⟩
    · refine (hrest m hin).imp id fun hstart ↦ ?_
      have hst : (Event.op (M := machine J r) t c o ch x h).starts =
          some (c, .callback g .subscribe m) := by
        rw [hstart]
        rfl
      refine .inl ⟨P.threads.length, c, .callback g .subscribe m, .start, ?_, ?_, rfl⟩
      · exact hs.live_iff.2 (.inr ⟨rfl, hst⟩)
      · rw [Contract.track_starts hst]
        rfl
    · by_cases hut : u = t
      · subst hut
        refine .inr ((hmove m pos hqu hpos).imp ?_ id)
        rintro ⟨pos', hnext, hpos'⟩
        exact ⟨u, d, f', pos', hlive u d f' hu, htrack.trans hnext, hpos'⟩
      · exact .inr (.inl ⟨u, d, f', pos, hlive u d f' hu, (hstill u d f' hu hut).trans hqu, hpos⟩)
    · exact .inr (.inr ⟨ps, hkeep m ps hps hopen⟩)

/-- Where the call under way to subscribe is. -/
theorem Session.Fanning.lt_of_fan {s : State} {y : Session} (hy : y.Fanning s) {g : Nat}
    {f : Callback} {rest : List String} (hfan : y.fan = some (g, f, rest)) :
    g < s.fans.length := by
  obtain ⟨-, nodes, hg⟩ := hy.fan g f rest hfan
  exact (List.getElem?_eq_some_iff.1 hg).1

theorem Ledger.Opened.congr {s s' : State} (h : γ.Opened s) (hsame : State.SameSubs s s') :
    γ.Opened s' := fun node ps hopen ↦ h node ps (hsame.openOn_iff.1 hopen)

theorem Ledger.Unchanged.congr {s s' : State} (h : γ.Unchanged s) (hsame : State.SameSubs s s') :
    γ.Unchanged s' := ⟨hsame.pubSubs.trans h.1, hsame.ossPubSubs.trans h.2⟩

/-- An operation that leaves the subscriptions and the latest call alone. -/
theorem Progress.still (hob : (topology J r hoss).Obeying P q) (hF : Fans P q)
    (hs : Pool.Step P (.op t c o ch x h) P') (ho : o.isSub = false) {y : Session}
    (hfan : y.Fanning P.state) (hy : Progress P q γ y) :
    Progress P' ((topology J r hoss).track q P (.op t c o ch x h)) γ y := by
  have hsame := State.exec_sameSubs hs.op_exec ho
  have hcovering {g : Nat} {rest : List String} (hg : g < P.state.fans.length)
      (hC : Covering P q γ g rest) :
      Covering P' ((topology J r hoss).track q P (.op t c o ch x h)) γ g rest := by
    refine hC.step hob hF hs hg (hC.opened.congr hsame) ?_ (fun m hm ↦ .inl hm) ?_
    · intro m ps hps hopen
      exact ⟨by rwa [hsame.ossPubSubs], hsame.openOn_iff.2 hopen⟩
    · intro m pos hqt hpos
      have hok : (q t).Ok r o := hob.ok hs
      rw [hqt] at hok ⊢
      exact .inl ⟨pos, Session.next_unfinished hok hpos ho x, hpos⟩
  have hcovered (h : γ.Covered P.state) : γ.Covered P'.state := by
    refine ⟨h.1.congr hsame, fun m hm ↦ ?_⟩
    obtain ⟨ps, hps, hopen⟩ := h.2 m hm
    exact ⟨ps, by rwa [hsame.ossPubSubs], hsame.openOn_iff.2 hopen⟩
  obtain ⟨stage, fan⟩ := y
  cases stage with
  | starting | checking | refused => exact Ledger.Unchanged.congr hy hsame
  | enabled | cleared =>
    rcases fan with _ | ⟨g, f, rest⟩
    · first | exact Ledger.Unchanged.congr hy hsame | trivial
    · exact hcovering (hfan.lt_of_fan rfl) hy
  | built => exact hcovered hy
  | unbuilt => exact hy
  | calm | finishing | closed | odd | task _ _ _ _ => trivial

/-- While a call subscribes, the masters are covered. -/
theorem progress_of_fan {y : Session} {g : Nat} {rest : List String}
    (hrun : y.stage.MayRun .subscribe) (hfan : y.fan = some (g, .subscribe, rest)) :
    Progress P q γ y ↔ Covering P q γ g rest := by
  obtain ⟨stage, fan⟩ := y
  obtain rfl : fan = _ := hfan
  cases stage with
  | enabled | cleared => exact Iff.rfl
  | starting => cases hrun
  | checking => rcases hrun with h | h <;> cases h
  | _ => exact hrun.elim

/-- A callback opens or adds its subscription. -/
theorem Progress.callback (hob : (topology J r hoss).Obeying P q) (hF : Fans P q) (hS : Subs P q)
    (hR : Renewal P q γ) (hs : Pool.Step P (.op t c o ch x h) P') {g : Nat} {m : String}
    {pos : Pos} (hqt : q t = .on (.task g .subscribe m pos))
    (hop : (o = .pSubscribe (some m) ∧ pos = .start) ∨ ∃ ps, o = .ossAdd ps ∧ pos = .holding ps)
    {v : Nat} {d : Unit} {f : Call} (hcur : γ.current = some v) (hv : P.Live v d f) :
    Progress P' ((topology J r hoss).track q P (.op t c o ch x h)) γ (q v) := by
  obtain ⟨f', hl⟩ := hs.op_live
  obtain ⟨v', d', f'', rest, hcur', hv', hfan⟩ := hR.owner hob hF hl (by rw [hqt]; rfl)
  obtain rfl : v = v' := Option.some.inj (hcur.symm.trans hcur')
  have hfanning := hF.each v d f hv
  have hrun := (hfanning.fan g _ rest hfan).1
  have hC := (progress_of_fan hrun hfan).1 (hR.progress v d f hcur hv)
  have hm : m ∈ γ.loaded := hC.claimed t c f' m hl (by rw [hqt]; exact List.mem_singleton_self _)
  have hg := hfanning.lt_of_fan hfan
  rw [progress_of_fan hrun hfan]
  rcases hop with ⟨rfl, rfl⟩ | ⟨ps, rfl, rfl⟩
  · obtain ⟨-, hs', -⟩ := State.some_inj hs.op_exec
    have hopen {node : Option String} {ps : Nat} : P'.state.OpenOn node ps ↔
        P.state.OpenOn node ps ∨ (ps = P.state.pubSubs.length ∧ node = some m) :=
      State.openOn_concat (by rw [← hs'])
    refine hC.step hob hF hs hg ?_ ?_ (fun m hm ↦ .inl hm) ?_
    · intro node ps hps
      rcases hopen.1 hps with hold | ⟨rfl, rfl⟩
      · exact hC.opened node ps hold
      · exact ⟨hR.older, m, hm, rfl⟩
    · exact fun m' ps hps hold ↦ ⟨by rw [← hs']; exact hps, hopen.2 (.inl hold)⟩
    · intro m' pos' hqt' _
      rw [hqt] at hqt' ⊢
      cases hqt'
      exact .inl ⟨_, rfl, rfl⟩
  · obtain ⟨-, hs', -⟩ := State.some_inj hs.op_exec
    refine hC.step hob hF hs hg ?_ ?_ (fun m hm ↦ .inl hm) ?_
    · rw [← hs']
      exact hC.opened
    · intro m' ps' hps hold
      rw [← hs']
      exact ⟨List.mem_append_left _ hps, hold⟩
    · intro m' pos' hqt' _
      have hold := (hS.each t c f' hl).holding g m ps hqt
      rw [hqt] at hqt'
      cases hqt'
      rw [← hs']
      exact .inr ⟨ps, List.mem_append_right _ (List.mem_singleton_self _), hold⟩

/-- Before a call subscribes, the subscriptions are as they were. -/
theorem progress_of_mayRun {y : Session} {cb : Callback} (hrun : y.stage.MayRun cb)
    (hcb : cb ≠ .subscribe) : Progress P q γ y ↔ γ.Unchanged P.state := by
  obtain ⟨stage, fan⟩ := y
  cases stage with
  | starting | checking => exact Iff.rfl
  | enabled | cleared => exact absurd hrun hcb
  | _ => exact hrun.elim

/-- The latest call gets the nodes of `ForEachMaster` or `ForEachShard`. -/
theorem Progress.forEach {cb : Callback} {y : Except Err (Nat × List String)}
    (hob : (topology J r hoss).Obeying P q) (hF : Fans P q) (hS : Subs P q)
    (hs : Pool.Step P (.op t c (.forEach cb) ch y h) P')
    (hfault : cb = .subscribe → ch.base.fault = .none) (hP : Progress P q γ (q t)) :
    Progress P' ((topology J r hoss).track q P (.op t c (.forEach cb) ch y h))
      (γ.record P (.op t c (.forEach cb) ch y h)) ((q t).next (.forEach cb) y) := by
  obtain ⟨f, hl⟩ := hs.op_live
  have hsame := State.exec_sameSubs (o := .forEach cb) hs.op_exec rfl
  obtain ⟨hrun, hnone⟩ : (q t).stage.MayRun cb ∧ (q t).fan = none := hob.ok hs
  have hexec := State.exec_forEach hs.op_exec
  obtain rfl := State.exec_eq_none (o := .forEach cb) hs.op_exec (by simp) (by simp)
  have htrack : (topology J r hoss).track q P (.op t c (.forEach cb) ch y none) t =
      (q t).next (.forEach cb) y := Contract.track_op_self hl.lt_length
  have hstill (u : Nat) (d : Unit) (f' : Call) (hu : P.Live u d f') (hne : u ≠ t) :
      (topology J r hoss).track q P (.op t c (.forEach cb) ch y none) u = q u :=
    Contract.track_op_of_ne hne hu.lt_length
  by_cases hcb : cb = .subscribe
  · subst hcb
    obtain ⟨-, rfl, -⟩ := hexec.resolve_right fun hno ↦ hno.1 (hfault rfl)
    have hwait := Session.isWaiting_of_mayRun hrun hnone
    refine (progress_of_fan (y := (q t).next (.forEach .subscribe)
      (.ok (P.state.fans.length, P.state.nodesFor .subscribe))) hrun rfl).2 ⟨?_, ?_, ?_⟩
    · intro node ps hopen
      exact absurd (hsame.openOn_iff.1 hopen) ((hS.each t c f hl).waiting hwait node ps)
    · intro u d f' m hu hclaim
      rcases hs.live_iff.1 hu with ⟨hu, -⟩ | ⟨-, hst⟩
      · by_cases hut : u = t
        · subst hut
          rw [htrack] at hclaim
          obtain ⟨m', hm', heq⟩ := List.mem_map.1 hclaim
          cases heq
          exact hm'
        · rw [hstill u d f' hu hut] at hclaim
          exact absurd ((hF.each u d f' hu).lt_of_claims hclaim) (lt_irrefl _)
      · cases hst
    · exact fun m hm ↦ .inl hm
  · have hunchanged := ((progress_of_mayRun hrun hcb).1 hP).congr hsame
    have hrecord : γ.record P (.op t c (.forEach cb) ch y none) = γ := by
      cases cb with
      | subscribe => exact absurd rfl hcb
      | report | enable _ => rfl
    rw [hrecord]
    rcases y with err | ⟨g, nodes⟩
    · cases cb with
      | subscribe => exact absurd rfl hcb
      | report | enable _ => exact hunchanged
    · exact (progress_of_mayRun (y := (q t).next (.forEach cb) (.ok (g, nodes))) hrun hcb).2
        hunchanged

/-- The latest call starts a callback. -/
theorem Progress.go {g : Nat} {cb : Callback} {node : String} {y : Unit}
    (hob : (topology J r hoss).Obeying P q) (hF : Fans P q)
    (hs : Pool.Step P (.op t c (.go (.callback g cb node)) ch y h) P')
    (hP : Progress P q γ (q t)) :
    Progress P' ((topology J r hoss).track q P (.op t c (.go (.callback g cb node)) ch y h)) γ
      ((q t).next (.go (.callback g cb node)) y) := by
  obtain ⟨f, hl⟩ := hs.op_live
  have hexec : State.exec (.go (.callback g cb node)) ch P.state = some (y, P'.state, h) :=
    hs.op_exec
  have hsame := State.exec_sameSubs hexec rfl
  obtain ⟨-, -, rfl⟩ := State.some_inj hexec
  obtain ⟨rest, hfan⟩ : ∃ rest, (q t).fan = some (g, cb, node :: rest) := hob.ok hs
  have hfanning := hF.each t c f hl
  have hrun := (hfanning.fan g cb _ hfan).1
  have hstage : ((q t).next (.go (.callback g cb node)) y).stage = (q t).stage := rfl
  by_cases hcb : cb = .subscribe
  · subst hcb
    have hfan' : ((q t).next (.go (.callback g .subscribe node)) y).fan =
        some (g, .subscribe, rest) := by
      show (q t).fan.map _ = _
      rw [hfan]
      rfl
    have hC := (progress_of_fan hrun hfan).1 hP
    rw [progress_of_fan (by rwa [hstage]) hfan']
    refine hC.step hob hF hs (hfanning.lt_of_fan hfan) (hC.opened.congr hsame) ?_ ?_ ?_
    · intro m ps hps hopen
      exact ⟨by rwa [hsame.ossPubSubs], hsame.openOn_iff.2 hopen⟩
    · intro m hm
      rcases List.mem_cons.1 hm with rfl | hm
      · exact .inr rfl
      · exact .inl hm
    · intro m pos hqt
      rw [hqt] at hfan
      cases hfan
  · rw [progress_of_mayRun (by rwa [hstage]) hcb]
    exact ((progress_of_mayRun hrun hcb).1 hP).congr hsame

/-- The callbacks of the latest call have returned. -/
theorem Progress.wait {g : Nat} {y : ForEach} (hob : (topology J r hoss).Obeying P q)
    (hF : Fans P q) (hs : Pool.Step P (.op t c (.wait g) ch y h) P') (hP : Progress P q γ (q t)) :
    Progress P' ((topology J r hoss).track q P (.op t c (.wait g) ch y h)) γ
      ((q t).next (.wait g) y) := by
  obtain ⟨f, hl⟩ := hs.op_live
  have hexec : State.exec (.wait g) ch P.state = some (y, P'.state, h) := hs.op_exec
  obtain ⟨hstate, hdone⟩ := State.exec_wait hexec
  obtain ⟨cb, hfan⟩ : ∃ cb, (q t).fan = some (g, cb, []) := hob.ok hs
  have hrun := ((hF.each t c f hl).fan g cb _ hfan).1
  have hnext : (q t).next (.wait g) y = .on ((q t).stage.onWait cb) := by
    show Session.on ((q t).fan.elim _ _) = _
    rw [hfan]
    rfl
  rw [hnext]
  by_cases hcb : cb = .subscribe
  · subst hcb
    have hC := (progress_of_fan hrun hfan).1 hP
    have hcovered : γ.Covered P'.state := by
      rw [hstate]
      refine ⟨hC.opened, fun m hm ↦ ?_⟩
      rcases hC.covered m hm with hin | ⟨u, d, f', pos, hu, hqu, -⟩ | htracked
      · cases hin
      · -- a callback that has not returned is outstanding
        obtain ⟨nodes, hnodes, hmem⟩ := (hF.each u d f' hu).claims g m (by
          rw [hqu]
          exact List.mem_singleton_self _)
        obtain ⟨-, rfl⟩ := Prod.mk.inj (Option.some.inj (hnodes.symm.trans hdone))
        cases hmem
      · exact htracked
    cases hstage : (q t).stage with
    | enabled | cleared => exact hcovered
    | starting =>
      rw [hstage] at hrun
      cases hrun
    | checking =>
      rw [hstage] at hrun
      rcases hrun with h | h <;> cases h
    | _ =>
      rw [hstage] at hrun
      exact hrun.elim
  · have hunchanged := (progress_of_mayRun hrun hcb).1 hP
    rw [← hstate] at hunchanged
    cases hstage : (q t).stage with
    | starting | checking => exact hunchanged
    | enabled | cleared =>
      rw [hstage] at hrun
      exact absurd hrun hcb
    | _ =>
      rw [hstage] at hrun
      exact hrun.elim

/-- **One operation of the latest call.** -/
theorem Progress.move (hob : (topology J r hoss).Obeying P q) (hF : Fans P q) (hS : Subs P q)
    (hg : Sequential P (.op t c o ch x h)) (hs : Pool.Step P (.op t c o ch x h) P')
    (htask : ∀ g f m pos, (q t).stage ≠ .task g f m pos) (hP : Progress P q γ (q t)) :
    Progress P' ((topology J r hoss).track q P (.op t c o ch x h))
      (γ.record P (.op t c o ch x h)) ((q t).next o x) := by
  obtain ⟨f, hl⟩ := hs.op_live
  have hok : (q t).Ok r o := hob.ok hs
  have hfanning := hF.each t c f hl
  cases o with
  | forEach cb =>
    refine hP.forEach hob hF hS hs ?_
    rintro rfl
    exact hg rfl
  | go f =>
    cases f with
    | callback g cb node => exact hP.go hob hF hs
    | _ => exact hP.still hob hF hs rfl hfanning
  | wait g => exact hP.wait hob hF hs
  | callbackDone g node err =>
    obtain ⟨f, pos, h, -⟩ := hok
    exact absurd h (htask _ _ _ _)
  | configGet node =>
    obtain ⟨g, b, m, h, -⟩ := hok
    exact absurd h (htask _ _ _ _)
  | configSet node v =>
    obtain ⟨g, b, m, v₀, h, -⟩ := hok
    exact absurd h (htask _ _ _ _)
  | pSubscribe node =>
    obtain ⟨g, m, h, -⟩ := hok
    exact absurd h (htask _ _ _ _)
  | ossAdd ps =>
    obtain ⟨g, m, h⟩ := hok
    exact absurd h (htask _ _ _ _)
  | ossCloseAll =>
    show Progress P' _ γ (.on (q t).stage.onCloseAll)
    rcases hok with h | h | h <;>
    · rw [h]
      trivial
  | setPubSub ps => exact hok.elim
  | closePubSub ps => exact absurd hok (hS.each t c f hl).odd
  | getPubSub =>
    obtain ⟨rfl, -, -⟩ := State.some_inj hs.op_exec
    have hnext : (q t).next .getPubSub P.state.pubSub = q t := by
      rw [hS.pubSub]
      rfl
    rw [hnext]
    exact hP.still hob hF hs rfl hfanning
  | _ => exact hP.still hob hF hs rfl hfanning

theorem Ledger.record_op_current : (γ.record P (.op t c o ch x h)).current = γ.current := by
  show ((o.loads x).elim γ _).current = _
  cases o.loads x <;> rfl

theorem Ledger.record_op_pubSubs : (γ.record P (.op t c o ch x h)).pubSubs = γ.pubSubs := by
  show ((o.loads x).elim γ _).pubSubs = _
  cases o.loads x <;> rfl

/-- What an operation starts is no call. -/
theorem isTopology_of_starts {y : Session} {s s' : State} {f : Call} (hok : y.Ok r o)
    (hx : State.exec o ch s = some (x, s', some f)) : f.isTopology = false := by
  rcases State.exec_starts hx with rfl | ⟨o', f', -, rfl⟩
  · cases f with
    | init | reinitTopology | done | cleanup => cases hok
    | _ => rfl
  · rfl

/-- Operations of others than the latest call do not load masters. -/
theorem Renewal.record_eq (hob : (topology J r hoss).Obeying P q) (hR : Renewal P q γ)
    (hs : Pool.Step P (.op t c o ch x h) P') (hne : γ.current ≠ some t) :
    γ.record P (.op t c o ch x h) = γ := by
  have hok : (q t).Ok r o := hob.ok hs
  have hloads : o.loads x = none := by
    rcases hR.mover hs hne with hq | ⟨g, f, m, pos, hq⟩
    · rw [hq] at hok
      exact (Session.next_calm hok x).2.2
    · rw [hq] at hok
      exact (Session.next_task hok x).2
  show (o.loads x).elim γ _ = γ
  rw [hloads]
  rfl

/-- **One operation.** -/
theorem Renewal.op (hob : (topology J r hoss).Obeying P q) (hF : Fans P q) (hS : Subs P q)
    (hR : Renewal P q γ) (hg : Sequential P (.op t c o ch x h))
    (hs : Pool.Step P (.op t c o ch x h) P') :
    Renewal P' ((topology J r hoss).track q P (.op t c o ch x h))
      (γ.record P (.op t c o ch x h)) := by
  obtain ⟨f, hl⟩ := hs.op_live
  have hok : (q t).Ok r o := hob.ok hs
  refine ⟨?_, ?_, ?_, ?_, ?_, ?_⟩
  · refine hob.each (I := fun _ (f : Call) (q : Session) ↦ f.Fits q)
      (Q := fun _ (f : Call) (q : Session) ↦ f.Fits q) hs hR.fits ?_ ?_ ?_
    · exact fun _ _ _ _ _ _ h ↦ h
    · exact fun _ _ _ _ _ y _ _ _ hok _ hq ↦ hq.next hok y
    · exact fun _ f _ ↦ Call.fits_ofCall f
  · intro u hcur
    rw [Ledger.record_op_current] at hcur
    obtain ⟨th, hth, htop⟩ := hR.call u hcur
    obtain ⟨th', hth', -, hcall⟩ := hs.exists_call hth
    exact ⟨th', hth', by rw [hcall]; exact htop⟩
  · intro u th' hth' hcur
    rw [Ledger.record_op_current] at hcur
    have hexec := hs.op_exec
    cases hs with
    | @op _ th _ k _ _ _ _ ht hp hx =>
      rcases Pool.resume_cases ht hth' with ⟨rfl, rfl⟩ | ⟨-, hold⟩ | ⟨rfl, f', rfl, rfl⟩
      · refine isSettled_of_not_isTopology ?_
        rcases isSettled_cases (hR.settled u th ht hcur) with (h | ⟨e, h⟩) | htop
        · rw [hp] at h
          cases h
        · rw [hp] at h
          cases h
        · exact htop
      · exact hR.settled u th' hold hcur
      · exact isSettled_of_not_isTopology (isTopology_of_starts hok hx)
  · rw [Ledger.record_op_pubSubs]
    exact hR.older.trans (State.exec_length_pubSubs hs.op_exec)
  · intro hcur node ps hopen
    rw [Ledger.record_op_current] at hcur
    cases ho : o.isSub with
    | false =>
      exact hR.bare hcur node ps ((State.exec_sameSubs hs.op_exec ho).openOn_iff.1 hopen)
    | true =>
      rcases hR.sub_cases hob hF hS hs ho with ⟨hcur', -⟩ | ⟨g, m, pos, hq, -⟩
      · rw [hcur] at hcur'
        cases hcur'
      · obtain ⟨t', _, _, _, hcur', -⟩ := hR.owner hob hF hl (by rw [hq]; rfl)
        rw [hcur] at hcur'
        cases hcur'
  · intro v d f' hcur hv
    rw [Ledger.record_op_current] at hcur
    obtain ⟨th, hth, htop⟩ := hR.call v hcur
    have hlt : v < P.threads.length := (List.getElem?_eq_some_iff.1 hth).1
    have hv : P.Live v d f' := by
      rcases hs.live_iff.1 hv with ⟨hv, -⟩ | ⟨rfl, -⟩
      · exact hv
      · exact absurd hlt (lt_irrefl _)
    by_cases hvt : v = t
    · subst hvt
      rw [Contract.track_op_self hlt]
      refine (hR.progress v d f' hcur hv).move hob hF hS hg hs ((hR.fits v d f' hv).ne_task ?_)
      obtain ⟨p, hp⟩ := hv
      rw [Option.some.inj (hth.symm.trans hp)] at htop
      exact htop
    · have hne : γ.current ≠ some t := fun h ↦ hvt (Option.some.inj (hcur.symm.trans h))
      rw [Contract.track_op_of_ne hvt hlt, hR.record_eq hob hs hne]
      cases ho : o.isSub with
      | false => exact (hR.progress v d f' hcur hv).still hob hF hs ho (hF.each v d f' hv)
      | true =>
        rcases hR.sub_cases hob hF hS hs ho with ⟨hcur', -⟩ | ⟨g, m, pos, hq, hop⟩
        · exact absurd hcur' hne
        · exact Progress.callback hob hF hS hR hs hq hop hcur hv

end Op

/-! ## Every step -/

/-- Steps that leave the subscriptions and the goroutines alone. -/
theorem Progress.congr {q' : Nat → Session} {y : Session} (hy : Progress P q γ y)
    (hsame : State.SameSubs P.state P'.state)
    (hold : ∀ u d f, P.Live u d f → P'.Live u d f ∧ q' u = q u)
    (hnew : ∀ u d f, P'.Live u d f → P.Live u d f ∨ (q' u).claims = []) :
    Progress P' q' γ y := by
  have hcovered (h : γ.Covered P.state) : γ.Covered P'.state := by
    refine ⟨h.1.congr hsame, fun m hm ↦ ?_⟩
    obtain ⟨ps, hps, hopen⟩ := h.2 m hm
    exact ⟨ps, by rwa [hsame.ossPubSubs], hsame.openOn_iff.2 hopen⟩
  have hcovering {g : Nat} {rest : List String} (hC : Covering P q γ g rest) :
      Covering P' q' γ g rest := by
    refine ⟨hC.opened.congr hsame, ?_, ?_⟩
    · intro u d f m hu hclaim
      rcases hnew u d f hu with hu | hnil
      · rw [(hold u d f hu).2] at hclaim
        exact hC.claimed u d f m hu hclaim
      · rw [hnil] at hclaim
        cases hclaim
    · intro m hm
      rcases hC.covered m hm with hin | ⟨u, d, f, pos, hu, hqu, hpos⟩ | ⟨ps, hps, hopen⟩
      · exact .inl hin
      · obtain ⟨hu', heq⟩ := hold u d f hu
        exact .inr (.inl ⟨u, d, f, pos, hu', heq.trans hqu, hpos⟩)
      · exact .inr (.inr ⟨ps, by rwa [hsame.ossPubSubs], hsame.openOn_iff.2 hopen⟩)
  obtain ⟨stage, fan⟩ := y
  cases stage with
  | starting | checking | refused => exact Ledger.Unchanged.congr hy hsame
  | enabled | cleared =>
    rcases fan with _ | ⟨g, f, rest⟩
    · first | exact Ledger.Unchanged.congr hy hsame | trivial
    · exact hcovering hy
  | built => exact hcovered hy
  | unbuilt => exact hy
  | calm | finishing | closed | odd | task _ _ _ _ => trivial

/-- A call begins. -/
theorem Renewal.start_call {c : Unit} {f : Call} (hob : (topology J r hoss).Obeying P q)
    (hR : Renewal P q γ) (hg : Sequential P (.start c f)) (hs : Pool.Step P (.start c f) P')
    (hf : f.isTopology = true) :
    Renewal P' ((topology J r hoss).track q P (.start c f)) (γ.record P (.start c f)) := by
  have hrecord : γ.record P (.start c f) =
      ⟨some P.threads.length, P.state.pubSubs, P.state.ossPubSubs, []⟩ := if_pos hf
  have hfits : ∀ t c' f', P'.Live t c' f' →
      Call.Fits ((topology J r hoss).track q P (.start c f) t) f' := by
    refine hob.each (I := fun _ (f : Call) (q : Session) ↦ f.Fits q)
      (Q := fun _ (f : Call) (q : Session) ↦ f.Fits q) hs hR.fits (fun _ _ _ _ _ _ h ↦ h) ?_
      fun _ f _ ↦ Call.fits_ofCall f
    intro _ _ _ _ _ _ _ he
    cases he
  rw [hrecord]
  cases hs with
  | start =>
    have hall : ∀ th ∈ P.threads, isSettled th = true := by
      cases f with
      | init => exact fun th hth ↦ isSettled_of_not_isTopology (hg th hth)
      | reinitTopology | done => exact hg.2
      | cleanup => cases hg
      | _ => cases hf
    refine ⟨hfits, ?_, ?_, le_rfl, nofun, ?_⟩
    · intro t hcur
      obtain rfl := Option.some.inj hcur
      exact ⟨_, List.getElem?_concat_length, hf⟩
    · intro t th hth hcur
      rcases Pool.start_cases hth with hth | ⟨rfl, -⟩
      · exact hall th (List.mem_of_getElem? hth)
      · exact absurd rfl hcur
    · intro t d f' hcur hl
      obtain rfl := Option.some.inj hcur
      rw [Contract.track_starts rfl]
      cases f with
      | init | reinitTopology => exact ⟨rfl, rfl⟩
      | done | cleanup => trivial
      | _ => cases hf

/-- **One step.** -/
theorem Renewal.step (hob : (topology J r hoss).Obeying P q) (hF : Fans P q) (hS : Subs P q)
    (hR : Renewal P q γ) (hg : Sequential P e) (hs : Pool.Step P e P') :
    Renewal P' ((topology J r hoss).track q P e) (γ.record P e) := by
  -- steps that are neither operations nor calls
  have hrest (hrecord : γ.record P e = γ) (hmover : e.mover = none)
      (hsame : State.SameSubs P.state P'.state)
      (hsettled : ∀ (t : Nat) (th : Thread (machine J r)), P'.threads[t]? = some th →
        γ.current ≠ some t → isSettled th = true)
      (hclaims : ∀ d f, e.starts = some (d, f) → (Session.ofCall f).claims = []) :
      Renewal P' ((topology J r hoss).track q P e) (γ.record P e) := by
    have hcrash (d : Unit) : e ≠ .crash d := by
      rintro rfl
      exact hg
    have hold (u : Nat) (d : Unit) (f : Call) (hu : P.Live u d f) :
        P'.Live u d f ∧ (topology J r hoss).track q P e u = q u :=
      ⟨hs.live_iff.2 (.inl ⟨hu, hcrash d⟩),
        Contract.track_of_mover_ne hu.lt_length (by simp [hmover])⟩
    rw [hrecord]
    refine ⟨?_, ?_, hsettled, ?_, ?_, ?_⟩
    · refine hob.each (I := fun _ (f : Call) (q : Session) ↦ f.Fits q)
        (Q := fun _ (f : Call) (q : Session) ↦ f.Fits q) hs hR.fits (fun _ _ _ _ _ _ h ↦ h) ?_
        fun _ f _ ↦ Call.fits_ofCall f
      rintro t c f o ch x h rfl
      cases hmover
    · intro t hcur
      obtain ⟨th, hth, htop⟩ := hR.call t hcur
      obtain ⟨th', hth', -, hcall⟩ := hs.exists_call hth
      exact ⟨th', hth', by rw [hcall]; exact htop⟩
    · rw [hsame.pubSubs]
      exact hR.older
    · exact fun hcur node ps hopen ↦ hR.bare hcur node ps (hsame.openOn_iff.1 hopen)
    · intro t c f hcur hl
      obtain ⟨th, hth, -⟩ := hR.call t hcur
      have hlt : t < P.threads.length := (List.getElem?_eq_some_iff.1 hth).1
      rcases hs.live_iff.1 hl with ⟨hl, -⟩ | ⟨rfl, -⟩
      · rw [(hold t c f hl).2]
        refine (hR.progress t c f hcur hl).congr hsame hold fun u d f' hu ↦ ?_
        rcases hs.live_iff.1 hu with ⟨hu, -⟩ | ⟨rfl, hst⟩
        · exact .inl hu
        · rw [Contract.track_starts hst]
          exact .inr (hclaims d f' hst)
      · exact absurd hlt (lt_irrefl _)
  cases e with
  | op t c o ch x h => exact hR.op hob hF hS hg hs
  | again t =>
    refine hrest rfl rfl ?_ ?_ nofun
    · cases hs with
      | again => exact ⟨rfl, rfl, rfl⟩
    · intro u th' hth' hcur
      cases hs with
      | @again _ th f ht hp =>
        rcases Pool.resume_cases ht hth' with ⟨rfl, rfl⟩ | ⟨-, hold⟩ | ⟨-, g, hg, -⟩
        · refine isSettled_of_not_isTopology ?_
          rcases isSettled_cases (hR.settled u th ht hcur) with (h | ⟨e, h⟩) | htop
          · rw [hp] at h
            cases h
          · rw [hp] at h
            cases h
          · exact htop
        · exact hR.settled u th' hold hcur
        · cases hg
  | start c f =>
    cases hf : f.isTopology with
    | true => exact hR.start_call hob hg hs hf
    | false =>
      refine hrest ?_ rfl ?_ ?_ ?_
      · show (if f.isTopology = true then _ else γ) = γ
        rw [hf]
        rfl
      · cases hs with
        | start => exact ⟨rfl, rfl, rfl⟩
      · intro u th' hth' hcur
        cases hs with
        | start =>
          rcases Pool.start_cases hth' with hold | ⟨rfl, rfl⟩
          · exact hR.settled u th' hold hcur
          · exact isSettled_of_not_isTopology hf
      · intro d f' hst
        cases hst
        cases f with
        | client _ | fanIn _ | listenKsp => rfl
        | callback _ _ _ => cases hg
        | _ => cases hf
  | env v =>
    refine hrest rfl rfl ?_ ?_ nofun
    · cases hs with
      | @env _ s hv =>
        cases v with
        | redis _ | topology _ _ | cancel =>
          obtain rfl := Option.some.inj hv
          exact ⟨rfl, rfl, rfl⟩
    · intro u th' hth' hcur
      cases hs with
      | env => exact hR.settled u th' hth' hcur
  | crash c => exact hg.elim

/-- A client that has not subscribed. -/
structure State.Bare (s : State) : Prop where
  pubSub : s.pubSub = none
  pubSubs : s.pubSubs = []
  ossPubSubs : s.ossPubSubs = []

/-- A run of calls that follow one another, with its ledger. -/
def CallRun (P₀ P : Pool (machine J r)) (γ : Ledger) : Prop :=
  Pool.Run Ledger.record (fun _ P e ↦ Sequential P e) (P₀, .new) P γ

theorem CallRun.renewal {P₀ : Pool (machine J r)} (h₀ : P₀.threads = []) (hbare : P₀.state.Bare)
    (hoss : r.clusterMode = .oss) (hr : CallRun P₀ P γ) :
    ∃ q, (topology J r hoss).Obeying P q ∧ Fans P q ∧ Subs P q ∧ Renewal P q γ := by
  have hnone (node : Option String) (ps : Nat) : ¬ P₀.state.OpenOn node ps := by
    simp [State.OpenOn, hbare.pubSubs]
  have hdead (t : Nat) (c : Unit) (f : Call) : ¬ P₀.Live t c f := by
    rintro ⟨p, hp⟩
    simp [h₀] at hp
  have hsub : P₀.state.Subscribed :=
    ⟨hbare.pubSub, fun node ps h ↦ absurd h (hnone node ps), by simp [hbare.ossPubSubs],
      fun node ps _ h ↦ absurd h (hnone node ps)⟩
  refine Pool.Run.invariant (I := fun P γ ↦ ∃ q, (topology J r hoss).Obeying P q ∧ Fans P q ∧
    Subs P q ∧ Renewal P q γ) ?_ ?_ hr
  · refine ⟨fun _ ↦ .on .calm, ?_, Fans.nil h₀, hsub.subs h₀ _, ?_⟩
    · intro t th p ht
      simp [h₀] at ht
    · refine ⟨fun t c f hl ↦ absurd hl (hdead t c f), ?_, ?_, Nat.zero_le _, fun _ ↦ hnone, ?_⟩
      · intro t hcur
        cases hcur
      · intro t th ht
        simp [h₀] at ht
      · intro t c f hcur
        cases hcur
  · rintro P γ e P' ⟨q, hob, hF, hS, hR⟩ hg hs
    exact ⟨_, hob.step hs, hF.step hob (Renewal.properly hg) hs,
      hS.step hob hF (hR.alone hob hF hg hs) hs, hR.step hob hF hS hg hs⟩

/-- **The subscriptions over calls that follow one another.**  For a client of an OSS cluster,
over one successful `Init`, any number of calls of `ReinitTopology` and `Done`, with any topology,
reports and failures: once the latest call has returned,
* if it is a `ReinitTopology` with an error, the subscriptions are as they were before it, and
  those that are tracked are open;
* if it is a `ReinitTopology` with nil, each master that it loaded has exactly one open
  subscription that is tracked, there are no others, and the earlier ones are closed;
* if it is a `Done` with nil, no subscription is open. -/
theorem sequential_calls_subscriptions {P₀ : Pool (machine J r)} (hoss : r.clusterMode = .oss)
    (h₀ : P₀.threads = []) (hbare : P₀.state.Bare) (hr : CallRun P₀ P γ) {t : Nat}
    (hcur : γ.current = some t) :
    (∀ err, P.threads[t]? =
        some ⟨(), .reinitTopology, some (.ret (.inl (.reinitTopology (some err))))⟩ →
      (P.state.pubSubs = γ.pubSubs ∧ P.state.ossPubSubs = γ.ossPubSubs) ∧
        ∀ ps ∈ P.state.ossPubSubs, ∃ node, P.state.OpenOn node ps) ∧
    (P.threads[t]? = some ⟨(), .reinitTopology, some (.ret (.inl (.reinitTopology none)))⟩ →
      (∀ m ∈ γ.loaded, ∃! ps, ps ∈ P.state.ossPubSubs ∧ P.state.OpenOn (some m) ps) ∧
        (∀ ps ∈ P.state.ossPubSubs, ∃ m ∈ γ.loaded, P.state.OpenOn (some m) ps) ∧
        ∀ ps < γ.pubSubs.length, ∀ node, ¬ P.state.OpenOn node ps) ∧
    (P.threads[t]? = some ⟨(), .done, some (.ret (.inl (.done none)))⟩ →
      ∀ node ps, ¬ P.state.OpenOn node ps) := by
  obtain ⟨q, hob, -, hS, hR⟩ := hr.renewal h₀ hbare hoss
  refine ⟨fun err ht ↦ ?_, fun ht ↦ ?_, fun ht ↦ ?_⟩
  · have hprogress := hR.progress t () .reinitTopology hcur ⟨_, ht⟩
    have hexit : q t = .on .checking ∨ q t = .on .refused := hob t _ _ ht rfl
    refine ⟨?_, hS.opened⟩
    rcases hexit with h | h
    · rw [h] at hprogress
      exact hprogress
    · rw [h] at hprogress
      exact hprogress
  · have hprogress := hR.progress t () .reinitTopology hcur ⟨_, ht⟩
    have hexit : q t = .on .built ∨ q t = .on .unbuilt := hob t _ _ ht rfl
    have hcovered : γ.Covered P.state := by
      rcases hexit with h | h
      · rw [h] at hprogress
        exact hprogress
      · rw [h] at hprogress
        exact hprogress.elim
    obtain ⟨hopened, hall⟩ := hcovered
    refine ⟨fun m hm ↦ ?_, fun ps hps ↦ ?_, fun ps hps node hopen ↦ ?_⟩
    · obtain ⟨ps, hps, hopen⟩ := hall m hm
      exact ⟨ps, ⟨hps, hopen⟩, fun ps' h ↦ hS.unique _ _ _ h.2 hopen⟩
    · obtain ⟨node, hopen⟩ := hS.opened ps hps
      obtain ⟨-, m, hm, rfl⟩ := hopened node ps hopen
      exact ⟨m, hm, hopen⟩
    · exact absurd hps (not_lt.2 (hopened node ps hopen).1)
  · have hexit : q t = .on .closed := hob t _ _ ht rfl
    exact (hS.each t () .done ⟨_, ht⟩).closed (by rw [hexit]; rfl)

end

namespace Demo

/-- A cluster with one master, and a client that was not initialised. -/
def newcomer : Pool clusterMachine where
  state := { subscribed.state with
    pubSubs := [], ossPubSubs := [], lbsCtxCancelFunc := false }
  threads := []

/-- `Init` of that client. -/
def inits : List (Pool.Label clusterMachine) :=
  [.start () .init] ++ goes 0 2 ++ goes 1 5 ++ goes 0 3 ++ goes 2 4 ++ goes 0 6

/-- And then `ReinitTopology`. -/
def renews : List (Pool.Label clusterMachine) :=
  inits ++ [.start () .reinitTopology] ++ reinits 7 8 ++ goes 7 1 ++ resubscribes 7 10

/-- `Init`. -/
def isInit : Call → Bool
  | .init => true
  | _ => false

/-- The calls follow one another, and nothing goes wrong. -/
def inOrder (P : Pool clusterMachine) : Event clusterMachine → Bool
  | .op _ _ _ ch _ _ => isNone ch.base.fault
  | .start _ .init => P.threads.all fun th ↦ !th.call.isTopology
  | .start _ .reinitTopology => (P.threads.any fun th ↦ isInit th.call) && P.threads.all isSettled
  | _ => false

theorem sequential_of_inOrder {P : Pool clusterMachine} {e : Event clusterMachine}
    (h : inOrder P e = true) : Sequential P e := by
  cases e with
  | op t c o ch x f =>
    intro _
    revert h
    show isNone ch.base.fault = true → _
    cases ch.base.fault with
    | none => exact fun _ ↦ rfl
    | _ => exact fun h ↦ by cases h
  | start c f =>
    cases f with
    | init => exact fun th hth ↦ by simpa using List.all_eq_true.1 h th hth
    | reinitTopology =>
      obtain ⟨hany, hall⟩ := Bool.and_eq_true_iff.1 h
      obtain ⟨th, hth, htest⟩ := List.any_eq_true.1 hany
      refine ⟨⟨th, hth, ?_⟩, List.all_eq_true.1 hall⟩
      revert htest
      cases th.call with
      | init => exact fun _ ↦ rfl
      | _ => exact fun h ↦ by cases h
    | _ => cases h
  | _ => cases h

theorem renewed_isSome : (Pool.schedule Ledger.record (fun _ P e ↦ inOrder P e = true) renews
    (newcomer, .new)).isSome = true := by
  decide +kernel

/-- After `Init` and `ReinitTopology`. -/
def renewed : Pool clusterMachine × Ledger :=
  (Pool.schedule Ledger.record (fun _ P e ↦ inOrder P e = true) renews
    (newcomer, .new)).get renewed_isSome

/-- A `ReinitTopology` that has returned nil. -/
def isRenewal (th : Thread clusterMachine) : Bool :=
  match th.call, th.prog with
  | .reinitTopology, some (.ret (.inl (.reinitTopology none))) => true
  | _, _ => false

theorem eq_of_isRenewal {P : Pool clusterMachine} {t : Nat}
    (h : P.threads[t]?.any isRenewal = true) :
    P.threads[t]? = some ⟨(), .reinitTopology, some (.ret (.inl (.reinitTopology none)))⟩ := by
  obtain ⟨⟨c, f, p⟩, ht, htest⟩ := (Option.any_eq_true _ _).1 h
  rw [isRenewal] at htest
  split at htest
  · next hf hp =>
    obtain rfl : f = .reinitTopology := hf
    obtain rfl : p = _ := hp
    exact ht
  · cases htest

theorem callRun_renewed : CallRun newcomer renewed.1 renewed.2 :=
  (Pool.run_of_isSome renewed_isSome).mono fun _ _ _ h ↦ sequential_of_inOrder h

end Demo

/-- After `Init` and `ReinitTopology` the master has exactly one subscription, and that of `Init`
is closed. -/
theorem sequential_calls_subscriptions_renewed :
    Demo.renewed.2.loaded = ["a"] ∧
      (∃! ps, ps ∈ Demo.renewed.1.state.ossPubSubs ∧ Demo.renewed.1.state.OpenOn (some "a") ps) ∧
      ¬ Demo.renewed.1.state.OpenOn (some "a") 0 := by
  have hloaded : Demo.renewed.2.loaded = ["a"] := by decide +kernel
  obtain ⟨-, hrenewed, -⟩ := sequential_calls_subscriptions rfl rfl ⟨rfl, rfl, rfl⟩
    Demo.callRun_renewed (t := 7) (by decide +kernel)
  obtain ⟨hone, -, hclosed⟩ := hrenewed (Demo.eq_of_isRenewal (by decide +kernel))
  refine ⟨hloaded, hone "a" ?_, hclosed 0 (by decide +kernel) (some "a")⟩
  rw [hloaded]
  exact List.mem_singleton_self _

end RedisStreamClient.Impl.Lifecycle

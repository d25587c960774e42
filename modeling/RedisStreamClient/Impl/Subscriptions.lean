import RedisStreamClient.Impl.FanOut

/-!
# The subscriptions on the masters

`ReinitTopology` closes all subscriptions that it finds in `r.oss` and then opens one on every
master, each in a callback that adds it to `r.oss`; `Done` closes those that it finds.  These are
separate critical sections.  A call that closes them while another one has still subscriptions
to open or to add does not close those, and they stack up or stay open.

`pending` says of a goroutine that it has subscriptions to open or to add.  `Subs` is the
invariant of the runs in which `closeAll` comes only while no other goroutine is pending, and not
to subscribe again after that of `Done`.
-/

namespace RedisStreamClient.Impl.Lifecycle

open RedisStreamClient.Lib RedisStreamClient.Errs RedisStreamClient.Notifs

/-! ## Open subscriptions -/

/-- A subscription is open on a node. -/
def State.OpenOn (s : State) (node : Option String) (ps : Nat) : Prop :=
  s.pubSubs[ps]? = some ⟨node, true⟩

instance (s : State) (node : Option String) (ps : Nat) : Decidable (s.OpenOn node ps) :=
  inferInstanceAs (Decidable (s.pubSubs[ps]? = some ⟨node, true⟩))

/-- The operations on subscriptions. -/
def Op.isSub : Op → Bool
  | .pSubscribe _ | .ossAdd _ | .ossCloseAll | .setPubSub _ | .closePubSub _ => true
  | _ => false

/-- The subscriptions of a client are the same. -/
structure State.SameSubs (s s' : State) : Prop where
  pubSubs : s'.pubSubs = s.pubSubs
  ossPubSubs : s'.ossPubSubs = s.ossPubSubs
  pubSub : s'.pubSub = s.pubSub

namespace State

variable {s s' : State} {ch : Choice} {h : Option Call} {node : Option String} {ps : Nat}

theorem SameSubs.openOn_iff (hsame : SameSubs s s') : s'.OpenOn node ps ↔ s.OpenOn node ps := by
  rw [OpenOn, OpenOn, hsame.pubSubs]

/-- **The frame of the subscriptions.** -/
theorem exec_sameSubs {o : Op} {x : o.Reply} (hx : exec o ch s = some (x, s', h))
    (ho : o.isSub = false) : SameSubs s s' := by
  by_cases hto : o.Touches
  · cases o with
    | forEach f =>
      obtain ⟨-, -, rfl⟩ | ⟨-, rfl, -⟩ := exec_forEach hx <;> exact ⟨rfl, rfl, rfl⟩
    | callbackDone _ _ _ | appendReport _ _ | countSetup _ _ =>
      obtain ⟨-, rfl, -⟩ := some_inj hx
      exact ⟨rfl, rfl, rfl⟩
    | trySendKsp _ | kspSelect | kspReceive =>
      obtain ⟨-, ms, rfl⟩ := exec_ksp rfl hx
      exact ⟨rfl, rfl, rfl⟩
    | pSubscribe _ | ossAdd _ | ossCloseAll | setPubSub _ | closePubSub _ => cases ho
    | _ => exact hto.elim
  · have hsame := exec_same hx hto
    exact ⟨hsame.pubSubs, hsame.ossPubSubs, hsame.pubSub⟩

/-- A new subscription is open. -/
theorem openOn_concat {m : Option String} (hs : s'.pubSubs = s.pubSubs ++ [⟨m, true⟩]) :
    s'.OpenOn node ps ↔ s.OpenOn node ps ∨ (ps = s.pubSubs.length ∧ node = m) := by
  rw [OpenOn, OpenOn, hs]
  constructor
  · intro h
    refine (getElem?_concat_cases h).imp id fun ⟨hps, hnode⟩ ↦ ⟨hps, ?_⟩
    exact (PubSub.mk.inj hnode).1
  · rintro (h | ⟨rfl, rfl⟩)
    · rw [List.getElem?_append_left (List.getElem?_eq_some_iff.1 h).1, h]
    · rw [List.getElem?_concat_length]

/-- `closeAll` closes what is tracked. -/
theorem openOn_closeAll
    (hs : s' = { s.close (fun ps ↦ ps ∈ s.ossPubSubs) with ossPubSubs := [] }) :
    s'.OpenOn node ps ↔ s.OpenOn node ps ∧ ps ∉ s.ossPubSubs := by
  rw [OpenOn, OpenOn, hs, close, List.getElem?_mapIdx]
  cases s.pubSubs[ps]? with
  | none => simp
  | some x =>
    by_cases hps : ps ∈ s.ossPubSubs
    · simp [hps]
    · simp [hps]

/-- Subscriptions are not forgotten. -/
theorem exec_length_pubSubs {o : Op} {x : o.Reply} (hx : exec o ch s = some (x, s', h)) :
    s.pubSubs.length ≤ s'.pubSubs.length := by
  cases ho : o.isSub with
  | false => rw [(exec_sameSubs hx ho).pubSubs]
  | true =>
    cases o with
    | pSubscribe _ | ossAdd _ | ossCloseAll | setPubSub _ | closePubSub _ =>
      obtain ⟨-, rfl, -⟩ := some_inj hx
      simp [close]
    | _ => cases ho

theorem OpenOn.lt_length (h : s.OpenOn node ps) : ps < s.pubSubs.length :=
  (List.getElem?_eq_some_iff.1 h).1

end State

/-! ## Goroutines that have subscriptions to open -/

namespace Session

/-- It is going to subscribe, and has not begun. -/
def isWaiting (q : Session) : Bool :=
  match q.stage, q.fan with
  | .starting, _ | .enabled, none | .cleared, none => true
  | _, _ => false

/-- The call of `ForEachMaster` in which it has subscriptions to open or to add. -/
def opening (q : Session) : Option Nat :=
  match q.fan, q.stage with
  | some (g, .subscribe, _ :: _), _ => some g
  | none, .task g .subscribe _ .start | none, .task g .subscribe _ (.holding _) => some g
  | _, _ => none

/-- It has subscriptions to open or to add. -/
def pending (q : Session) : Bool := q.isWaiting || q.opening.isSome

theorem pending_eq_false {q : Session} :
    q.pending = false ↔ q.isWaiting = false ∧ q.opening = none := by
  simp [pending]

/-- What is known of a goroutine and the subscriptions. -/
structure Tidy (s : State) (q : Session) : Prop where
  waiting : q.isWaiting = true → ∀ node ps, ¬ s.OpenOn node ps
  closed : q.stage = .closed → ∀ node ps, ¬ s.OpenOn node ps
  rest : ∀ g rest, q.fan = some (g, .subscribe, rest) → ∀ m ∈ rest, ∀ ps, ¬ s.OpenOn (some m) ps
  start : ∀ g m, q = .on (.task g .subscribe m .start) → ∀ ps, ¬ s.OpenOn (some m) ps
  holding : ∀ g m ps, q = .on (.task g .subscribe m (.holding ps)) → s.OpenOn (some m) ps
  odd : q.stage ≠ .odd

/-- What a goroutine excludes of another one. -/
structure Excludes (q q' : Session) : Prop where
  waiting : q.isWaiting = true → q'.pending = false
  closed : q.stage = .closed → q'.pending = false
  opening : ∀ g g', q.opening = some g → q'.opening = some g' → g = g'

/-- Two goroutines do not get in each other's way. -/
def Orderly (q q' : Session) : Prop := q.Excludes q' ∧ q'.Excludes q

theorem Orderly.symm {q q' : Session} (h : q.Orderly q') : q'.Orderly q := And.symm h

/-- A goroutine without subscriptions to open or to add. -/
structure Harmless (q : Session) : Prop where
  pending : q.pending = false
  closed : q.stage ≠ .closed
  odd : q.stage ≠ .odd

variable {s s' : State} {q q' u : Session}

theorem isWaiting_of_mayRun (hrun : q.stage.MayRun .subscribe) (hfan : q.fan = none) :
    q.isWaiting = true := by
  obtain ⟨stage, fan⟩ := q
  obtain rfl : fan = none := hfan
  cases stage with
  | enabled | cleared => rfl
  | starting => cases hrun
  | checking => rcases hrun with h | h <;> cases h
  | _ => exact hrun.elim

theorem Harmless.isWaiting (h : q.Harmless) : q.isWaiting ≠ true :=
  ne_true_of_eq_false (pending_eq_false.1 h.pending).1

theorem Harmless.opening (h : q.Harmless) (g : Nat) : q.opening ≠ some g := by
  rw [(pending_eq_false.1 h.pending).2]
  exact nofun

theorem Harmless.orderly (h : q.Harmless) : q.Orderly u := by
  constructor
  · exact ⟨fun hw ↦ absurd hw h.isWaiting, fun hc ↦ absurd hc h.closed,
      fun g _ hg ↦ absurd hg (h.opening g)⟩
  · exact ⟨fun _ ↦ h.pending, fun _ ↦ h.pending, fun _ g _ hg ↦ absurd hg (h.opening g)⟩

theorem Harmless.tidy (h : q.Harmless) : q.Tidy s where
  waiting hw := absurd hw h.isWaiting
  closed hc := absurd hc h.closed
  rest g rest hfan m hm := by
    obtain ⟨stage, fan⟩ := q
    obtain rfl : fan = _ := hfan
    cases rest with
    | nil => cases hm
    | cons _ _ => exact absurd rfl (h.opening g)
  start g m hq := by
    subst hq
    exact absurd rfl (h.opening g)
  holding g m ps hq := by
    subst hq
    exact absurd rfl (h.opening g)
  odd := h.odd

theorem Tidy.congr (h : q.Tidy s) (hopen : ∀ node ps, s'.OpenOn node ps ↔ s.OpenOn node ps) :
    q.Tidy s' where
  waiting hw node ps := by
    rw [hopen]
    exact h.waiting hw node ps
  closed hc node ps := by
    rw [hopen]
    exact h.closed hc node ps
  rest g rest hfan m hm ps := by
    rw [hopen]
    exact h.rest g rest hfan m hm ps
  start g m hq ps := by
    rw [hopen]
    exact h.start g m hq ps
  holding g m ps hq := (hopen _ _).2 (h.holding g m ps hq)
  odd := h.odd

/-- What becomes of a goroutine that does not get more in the way than it was. -/
structure Tamer (q q' : Session) : Prop where
  waiting : q'.isWaiting = true → q.isWaiting = true
  opening : ∀ g, q'.opening = some g → q.opening = some g ∨ q.isWaiting = true
  closed : q'.stage = .closed → q.stage = .closed

theorem Tamer.refl (q : Session) : q.Tamer q := ⟨id, fun _ h ↦ .inl h, id⟩

theorem Harmless.tamer (h : q'.Harmless) : q.Tamer q' :=
  ⟨fun hw ↦ absurd hw h.isWaiting, fun g hg ↦ absurd hg (h.opening g),
    fun hc ↦ absurd hc h.closed⟩

theorem Tamer.pending (h : q.Tamer q') (hq : q.pending = false) : q'.pending = false := by
  obtain ⟨hw, ho⟩ := pending_eq_false.1 hq
  have hw : q.isWaiting ≠ true := ne_true_of_eq_false hw
  refine pending_eq_false.2 ⟨?_, ?_⟩
  · exact Bool.eq_false_of_not_eq_true fun hw' ↦ hw (h.waiting hw')
  · refine Option.eq_none_iff_forall_ne_some.2 fun g hg ↦ ?_
    rcases h.opening g hg with hg | hw'
    · rw [ho] at hg
      cases hg
    · exact hw hw'

theorem Tamer.orderly (h : q.Tamer q') (hu : q.Orderly u) : q'.Orderly u := by
  obtain ⟨hqu, huq⟩ := hu
  have hopening (g g' : Nat) (hg : q'.opening = some g) (hg' : u.opening = some g') : g = g' := by
    rcases h.opening g hg with hg | hw
    · exact hqu.opening g g' hg hg'
    · rw [(pending_eq_false.1 (hqu.waiting hw)).2] at hg'
      cases hg'
  refine ⟨⟨fun hw ↦ hqu.waiting (h.waiting hw), fun hc ↦ hqu.closed (h.closed hc), hopening⟩, ?_⟩
  exact ⟨fun hw ↦ h.pending (huq.waiting hw), fun hc ↦ h.pending (huq.closed hc),
    fun g g' hg hg' ↦ (hopening g' g hg' hg).symm⟩

end Session

/-! ## What an operation does -/

/-- What an operation that leaves the subscriptions alone does to the goroutine that performs it,
and to the one it starts. -/
structure Settles (s : State) (q q' : Session) (h : Option Call) : Prop where
  tamer : q.Tamer q'
  tidy : q'.Tidy s
  kept : ∀ g m ps, q = .on (.task g .subscribe m (.holding ps)) → q' = q
  started : ∀ f, h = some f → (Session.ofCall f).Tidy s ∧ (Session.ofCall f).Orderly q' ∧
    q.Tamer (.ofCall f)

namespace Settles

variable {r : Config} {s s' : State} {q q' : Session} {ch : Choice} {h : Option Call}

theorem harmless_of_isAside {f : Call} (hf : f.isAside = true) : (Session.ofCall f).Harmless := by
  cases f with
  | client _ | fanIn _ | listenKsp => exact ⟨rfl, nofun, nofun⟩
  | _ => cases hf

theorem harmless_callback (g : Nat) (node : String) {f : Callback} (hf : f ≠ .subscribe) :
    (Session.ofCall (.callback g f node)).Harmless := by
  cases f with
  | subscribe => exact absurd rfl hf
  | report | enable _ => exact ⟨rfl, nofun, nofun⟩

theorem started_of_isAside (hf : ∀ f, h = some f → f.isAside = true) (f : Call) (hh : h = some f) :
    (Session.ofCall f).Tidy s ∧ (Session.ofCall f).Orderly q' ∧ q.Tamer (.ofCall f) :=
  have hharmless := harmless_of_isAside (hf f hh)
  ⟨hharmless.tidy, hharmless.orderly, hharmless.tamer⟩

/-- Nothing happens to the session. -/
theorem refl (hq : q.Tidy s) (hf : ∀ f, h = some f → f.isAside = true) : Settles s q q h :=
  ⟨.refl q, hq, fun _ _ _ _ ↦ rfl, started_of_isAside hf⟩

/-- The goroutine gets harmless. -/
theorem of_harmless (hq : q'.Harmless)
    (hkept : ∀ g m ps, q ≠ .on (.task g .subscribe m (.holding ps))) : Settles s q q' none :=
  ⟨hq.tamer, hq.tidy, fun g m ps heq ↦ absurd heq (hkept g m ps), fun f h ↦ by cases h⟩

/-- A stage that may run callbacks. -/
theorem tidy_of_mayRun {stage : Stage} {g : Nat} {f : Callback} {nodes : List String}
    (hrun : stage.MayRun f)
    (hwait : Session.isWaiting ⟨stage, some (g, f, nodes)⟩ = true →
      ∀ node ps, ¬ s.OpenOn node ps)
    (hrest : f = .subscribe → ∀ m ∈ nodes, ∀ ps, ¬ s.OpenOn (some m) ps) :
    Session.Tidy s ⟨stage, some (g, f, nodes)⟩ where
  waiting := hwait
  closed hc := by
    obtain rfl : stage = .closed := hc
    exact hrun.elim
  rest g' rest hfan := by
    cases hfan
    exact hrest rfl
  start _ _ hq := by cases hq
  holding _ _ _ hq := by cases hq
  odd hc := by
    obtain rfl : stage = .odd := hc
    exact hrun.elim

/-- Callbacks are about to be run. -/
theorem fan {stage : Stage} {g : Nat} {f : Callback} {nodes : List String}
    (hrun : stage.MayRun f) (hq : (Session.on stage).Tidy s) :
    Settles s (.on stage) ⟨stage, some (g, f, nodes)⟩ none := by
  have hsub (hf : f = .subscribe) : (Session.on stage).isWaiting = true :=
    Session.isWaiting_of_mayRun (by rwa [← hf]) rfl
  have hwait (hw : Session.isWaiting ⟨stage, some (g, f, nodes)⟩ = true) :
      (Session.on stage).isWaiting = true := by
    cases stage with
    | starting => rfl
    | _ => cases hw
  refine ⟨⟨hwait, fun g' hg' ↦ .inr (hsub ?_), id⟩, ?_, ?_, fun f h ↦ by cases h⟩
  · cases f with
    | subscribe => rfl
    | report | enable _ => cases hg'
  · exact tidy_of_mayRun hrun (fun hw ↦ hq.waiting (hwait hw))
      fun hf m _ ps ↦ hq.waiting (hsub hf) _ ps
  · rintro g' m ps heq
    cases heq
    exact hrun.elim

/-- A callback is started. -/
theorem go {stage : Stage} {g : Nat} {f : Callback} {node : String} {nodes : List String}
    (hrun : stage.MayRun f) (hq : Session.Tidy s ⟨stage, some (g, f, node :: nodes)⟩) :
    Settles s ⟨stage, some (g, f, node :: nodes)⟩ ⟨stage, some (g, f, nodes)⟩
      (some (.callback g f node)) := by
  refine ⟨⟨?_, ?_, id⟩, ?_, nofun, ?_⟩
  · cases stage with
    | starting => exact fun _ ↦ rfl
    | _ => exact fun hw ↦ by cases hw
  · intro g' hg'
    cases f with
    | subscribe =>
      cases nodes with
      | nil => cases hg'
      | cons _ _ => exact .inl hg'
    | report | enable _ => cases hg'
  · refine tidy_of_mayRun hrun (fun hw ↦ hq.waiting ?_) ?_
    · cases stage with
      | starting => rfl
      | _ => cases hw
    · rintro rfl m hm
      exact hq.rest g _ rfl m (List.mem_cons_of_mem _ hm)
  · intro f' hf'
    obtain rfl := Option.some.inj hf'
    by_cases hf : f = .subscribe
    · subst hf
      have hwait : Session.isWaiting ⟨stage, some (g, .subscribe, nodes)⟩ = false := by
        cases stage with
        | starting => cases hrun
        | _ => rfl
      refine ⟨⟨nofun, nofun, nofun, ?_, nofun, nofun⟩, ⟨⟨nofun, nofun, ?_⟩, ?_, ?_, ?_⟩, ?_⟩
      · intro g' m heq
        cases heq
        exact hq.rest g _ rfl node List.mem_cons_self
      · intro g₁ g₂ h₁ h₂
        cases nodes with
        | nil => cases h₂
        | cons _ _ => exact Option.some.inj (h₁.symm.trans h₂)
      · intro hw
        rw [hwait] at hw
        cases hw
      · rintro rfl
        exact hrun.elim
      · intro g₁ g₂ h₁ h₂
        cases nodes with
        | nil => cases h₁
        | cons _ _ => exact Option.some.inj (h₁.symm.trans h₂)
      · exact ⟨nofun, fun g' hg' ↦ .inl hg', nofun⟩
    · have hharmless := harmless_callback g node hf
      exact ⟨hharmless.tidy, hharmless.orderly, hharmless.tamer⟩

end Settles

section

variable {r : Config} {s s' : State} {q : Session} {ch : Choice} {h : Option Call}

/-- A callback that moves on, and does not subscribe. -/
theorem Settles.setPos {g : Nat} {f : Callback} {m : String} {pos : Pos} (pos' : Pos)
    (hstage : q.stage = .task g f m pos) (hf : f ≠ .subscribe) :
    Settles s q (.on (q.stage.setPos pos')) none := by
  rw [hstage]
  refine .of_harmless ?_ ?_
  · cases f with
    | subscribe => exact absurd rfl hf
    | report | enable _ => exact ⟨rfl, nofun, nofun⟩
  · rintro g' m' ps rfl
    cases hstage
    exact hf rfl

/-- **One operation** that leaves the subscriptions alone. -/
theorem settles_op {o : Op} {x : o.Reply} (hq : q.Tidy s) (hfan : q.Fanning s) (hok : q.Ok r o)
    (hpub : s.pubSub = none) (ho : o.isSub = false) (hx : State.exec o ch s = some (x, s', h)) :
    Settles s' q (q.next o x) h := by
  have hq : q.Tidy s' := hq.congr fun _ _ ↦ (State.exec_sameSubs hx ho).openOn_iff
  cases o with
  | client o =>
    refine .refl hq ?_
    rintro f rfl
    rcases State.exec_starts hx with heq | ⟨o', f', -, rfl⟩
    · cases heq
    · rfl
  | go f =>
    obtain ⟨-, rfl, rfl⟩ := State.some_inj hx
    cases f with
    | callback g f node =>
      obtain ⟨stage, fan⟩ := q
      obtain ⟨rest, heq⟩ := hok
      obtain rfl : fan = _ := heq
      exact .go (hfan.fan g f _ rfl).1 hq
    | client _ | fanIn _ | listenKsp =>
      refine .refl hq fun f' hf' ↦ ?_
      obtain rfl := Option.some.inj hf'
      rfl
    | _ => cases hok
  | forEach f =>
    obtain rfl := State.exec_eq_none hx (by simp) (by simp)
    obtain ⟨stage, fan⟩ := q
    obtain ⟨hrun, hnone⟩ := hok
    obtain rfl : fan = none := hnone
    rcases x with err | ⟨g, nodes⟩
    · refine .of_harmless ?_ ?_
      · cases f <;> exact ⟨rfl, nofun, nofun⟩
      · rintro g m ps heq
        cases heq
        exact hrun.elim
    · exact .fan hrun hq
  | wait g =>
    obtain rfl := State.exec_eq_none hx (by simp) (by simp)
    obtain ⟨stage, fan⟩ := q
    obtain ⟨f, heq⟩ := hok
    obtain rfl : fan = _ := heq
    have hrun := (hfan.fan g f _ rfl).1
    cases stage with
    | starting =>
      refine ⟨⟨fun _ ↦ rfl, nofun, nofun⟩, ⟨fun _ ↦ hq.waiting rfl, nofun, nofun, nofun, nofun, nofun⟩,
        nofun, nofun⟩
    | checking | enabled | cleared => exact .of_harmless ⟨rfl, nofun, nofun⟩ nofun
    | _ => exact hrun.elim
  | callbackDone g node err =>
    obtain rfl := State.exec_eq_none hx (by simp) (by simp)
    obtain ⟨f, pos, hstage, hret⟩ := hok
    refine .of_harmless ⟨rfl, nofun, nofun⟩ ?_
    rintro g' m ps rfl
    cases hstage
    cases hret
  | configGet node =>
    obtain rfl := State.exec_eq_none hx (by simp) (by simp)
    obtain ⟨g, b, m, hstage, -⟩ := hok
    rcases x with e | v
    · exact .setPos .finished hstage nofun
    · exact .setPos (.read v) hstage nofun
  | configSet node v =>
    obtain rfl := State.exec_eq_none hx (by simp) (by simp)
    obtain ⟨g, b, m, v₀, hstage, -⟩ := hok
    exact .setPos .finished hstage nofun
  | getPubSub =>
    obtain ⟨rfl, rfl, rfl⟩ := State.some_inj hx
    have hnext : q.next .getPubSub s.pubSub = q := by
      rw [hpub]
      rfl
    rw [hnext]
    exact .refl hq nofun
  | pSubscribe _ | ossAdd _ | ossCloseAll | setPubSub _ | closePubSub _ => cases ho
  | _ =>
    obtain rfl := State.exec_eq_none hx (by simp) (by simp)
    exact .refl hq nofun

end

/-! ## The invariant -/

section

variable {J : Json} {r : Config} {hoss : r.clusterMode = .oss} {P P' : Pool (machine J r)}
  {q : Nat → Session} {e : Event (machine J r)}

/-- **The subscriptions.**  Every open one is tracked, or about to be; every tracked one is open;
no node has two. -/
structure Subs (P : Pool (machine J r)) (q : Nat → Session) : Prop where
  pubSub : P.state.pubSub = none
  tracked : ∀ node ps, P.state.OpenOn node ps → ps ∈ P.state.ossPubSubs ∨
    ∃ u c f g m, P.Live u c f ∧ q u = .on (.task g .subscribe m (.holding ps))
  opened : ∀ ps ∈ P.state.ossPubSubs, ∃ node, P.state.OpenOn node ps
  unique : ∀ node ps ps', P.state.OpenOn node ps → P.state.OpenOn node ps' → ps = ps'
  each : ∀ t c f, P.Live t c f → (q t).Tidy P.state
  pairs : ∀ t u c d f g, P.Live t c f → P.Live u d g → t ≠ u → (q t).Orderly (q u)

/-- `closeAll` is run while no other goroutine is pending, and not to subscribe again after that
of `Done`; `Init` is called on a client without subscriptions. -/
def Alone (q : Nat → Session) (P : Pool (machine J r)) : Event (machine J r) → Prop
  | .op t _ .ossCloseAll _ _ _ => ∀ u c f, P.Live u c f → u ≠ t →
      (q u).pending = false ∧ ((q t).stage = .checking → (q u).stage ≠ .closed)
  | .start _ .init => (∀ node ps, ¬ P.state.OpenOn node ps) ∧
      ∀ u c f, P.Live u c f → (q u).Harmless
  | .start _ (.callback _ _ _) | .crash _ => False
  | _ => True

section Op

variable {t : Nat} {c : Unit} {ch : Choice} {h : Option Call}

/-- An operation keeps the invariant if it does so for the goroutine that performs it, for the
others and for the one it starts. -/
theorem Subs.of_mover {o : Op} {x : o.Reply} (hob : (topology J r hoss).Obeying P q)
    (hS : Subs P q) (hs : Pool.Step P (.op t c o ch x h) P') (hpub : P'.state.pubSub = none)
    (htracked : ∀ node ps, P'.state.OpenOn node ps → ps ∈ P'.state.ossPubSubs ∨
      (∃ g m, (q t).next o x = .on (.task g .subscribe m (.holding ps))) ∨
      ∃ u c f g m, P.Live u c f ∧ u ≠ t ∧ q u = .on (.task g .subscribe m (.holding ps)))
    (hopened : ∀ ps ∈ P'.state.ossPubSubs, ∃ node, P'.state.OpenOn node ps)
    (hunique : ∀ node ps ps', P'.state.OpenOn node ps → P'.state.OpenOn node ps' → ps = ps')
    (hstill : ∀ u d g, P.Live u d g → u ≠ t → (q u).Tidy P'.state)
    (hmove : ((q t).next o x).Tidy P'.state)
    (hpairs : ∀ u d g, P.Live u d g → u ≠ t → ((q t).next o x).Orderly (q u))
    (hnew : ∀ f, h = some f → (Session.ofCall f).Tidy P'.state ∧
      (Session.ofCall f).Orderly ((q t).next o x) ∧
      ∀ u d g, P.Live u d g → u ≠ t → (Session.ofCall f).Orderly (q u)) :
    Subs P' ((topology J r hoss).track q P (.op t c o ch x h)) := by
  obtain ⟨f, hl⟩ := hs.op_live
  have htrack : (topology J r hoss).track q P (.op t c o ch x h) t = (q t).next o x :=
    Contract.track_op_self hl.lt_length
  have hkeep (u : Nat) (d : Unit) (g : Call) (hu : P.Live u d g) (hne : u ≠ t) :
      (topology J r hoss).track q P (.op t c o ch x h) u = q u :=
    Contract.track_op_of_ne hne hu.lt_length
  have hlive (u : Nat) (d : Unit) (g : Call) (hu : P.Live u d g) : P'.Live u d g :=
    hs.live_iff.2 (.inl ⟨hu, by simp⟩)
  refine ⟨hpub, ?_, hopened, hunique, ?_, ?_⟩
  · intro node ps hopen
    refine (htracked node ps hopen).imp_right ?_
    rintro (⟨g, m, hq⟩ | ⟨u, d, f', g, m, hu, hne, hq⟩)
    · exact ⟨t, c, f, g, m, hlive t c f hl, htrack.trans hq⟩
    · exact ⟨u, d, f', g, m, hlive u d f' hu, (hkeep u d f' hu hne).trans hq⟩
  · refine hob.each (I := fun _ _ _ ↦ True) (Q := fun _ _ (q : Session) ↦ q.Tidy P'.state) hs
      (fun _ _ _ _ ↦ trivial) ?_ ?_ ?_
    · intro u d g hu _ hmover _
      exact hstill u d g hu fun hut ↦ hmover (by rw [hut]; rfl)
    · intro u d g o' ch' x' h' he _ _ _ _
      cases he
      exact hmove
    · intro d g hst
      obtain ⟨g', rfl, heq⟩ := Option.map_eq_some_iff.1 hst
      cases heq
      exact (hnew _ rfl).1
  · refine Contract.track_pairs (fun _ _ h ↦ h.symm) hs hS.pairs ?_ ?_
    · intro t' c' o' ch' x' h' he u d g hu hne
      cases he
      exact hpairs u d g hu hne
    · intro d g hst u d' g' hu
      obtain ⟨g'', rfl, heq⟩ := Option.map_eq_some_iff.1 hst
      cases heq
      by_cases hut : u = t
      · subst hut
        rw [htrack]
        exact (hnew _ rfl).2.1
      · rw [hkeep u d' g' hu hut]
        exact (hnew _ rfl).2.2 u d' g' hu hut

/-- An operation that leaves the subscriptions alone. -/
theorem Subs.of_settles {o : Op} {x : o.Reply} (hob : (topology J r hoss).Obeying P q)
    (hS : Subs P q) (hs : Pool.Step P (.op t c o ch x h) P')
    (hsame : State.SameSubs P.state P'.state)
    (hset : Settles P'.state (q t) ((q t).next o x) h) :
    Subs P' ((topology J r hoss).track q P (.op t c o ch x h)) := by
  obtain ⟨f, hl⟩ := hs.op_live
  have hpair (u : Nat) (d : Unit) (g : Call) (hu : P.Live u d g) (hne : u ≠ t) :
      (q t).Orderly (q u) := hS.pairs t u c d f g hl hu hne.symm
  refine hS.of_mover hob hs (hsame.pubSub.trans hS.pubSub) ?_ ?_ ?_ ?_ hset.tidy ?_ ?_
  · intro node ps hopen
    rw [hsame.ossPubSubs]
    refine (hS.tracked node ps (hsame.openOn_iff.1 hopen)).imp_right ?_
    rintro ⟨u, d, g, i, m, hu, hq⟩
    by_cases hut : u = t
    · subst hut
      exact .inl ⟨i, m, (hset.kept i m ps hq).trans hq⟩
    · exact .inr ⟨u, d, g, i, m, hu, hut, hq⟩
  · intro ps hps
    rw [hsame.ossPubSubs] at hps
    obtain ⟨node, hopen⟩ := hS.opened ps hps
    exact ⟨node, hsame.openOn_iff.2 hopen⟩
  · exact fun node ps ps' h h' ↦
      hS.unique node ps ps' (hsame.openOn_iff.1 h) (hsame.openOn_iff.1 h')
  · exact fun u d g hu _ ↦ (hS.each u d g hu).congr fun _ _ ↦ hsame.openOn_iff
  · exact fun u d g hu hne ↦ hset.tamer.orderly (hpair u d g hu hne)
  · intro f' hf'
    obtain ⟨htidy, hmover, htamer⟩ := hset.started f' hf'
    exact ⟨htidy, hmover, fun u d g hu hne ↦ htamer.orderly (hpair u d g hu hne)⟩

/-- A goroutine that has subscriptions in a call of `ForEachMaster` to open claims them. -/
theorem Session.Tidy.subscribe {s s' : State} {u : Session} {m : String} {g : Nat}
    (hu : u.Tidy s) (hs : s'.pubSubs = s.pubSubs ++ [⟨some m, true⟩]) {q : Session}
    (hq : q = .on (.task g .subscribe m .start)) (horder : q.Orderly u) (hapart : q.Apart u) :
    u.Tidy s' := by
  subst hq
  have hpending (hno : (Session.on (.task g .subscribe m .start)).pending = false) : False := by
    cases hno
  have hopening (g' : Nat) (hg' : u.opening = some g') : g = g' :=
    horder.1.opening g g' rfl hg'
  have hclaims (m' : String) (hm' : (g, m') ∈ u.claims) : m' ≠ m := by
    rintro rfl
    exact hapart.claims (List.mem_singleton_self _) hm'
  have hkeep (m' : String) (hm' : m' ≠ m) (ps : Nat) (hno : ¬ s.OpenOn (some m') ps) :
      ¬ s'.OpenOn (some m') ps := by
    rw [State.openOn_concat hs]
    rintro (h | ⟨-, h⟩)
    · exact hno h
    · exact hm' (Option.some.inj h)
  refine ⟨?_, ?_, ?_, ?_, ?_, hu.odd⟩
  · exact fun hw ↦ (hpending (horder.2.waiting hw)).elim
  · exact fun hc ↦ (hpending (horder.2.closed hc)).elim
  · intro g' rest hfan m' hm' ps
    have hg : g = g' := by
      refine hopening g' ?_
      obtain ⟨stage, fan⟩ := u
      obtain rfl : fan = _ := hfan
      cases rest with
      | nil => cases hm'
      | cons _ _ => rfl
    subst hg
    refine hkeep m' (hclaims m' ?_) ps (hu.rest _ rest hfan m' hm' ps)
    obtain ⟨stage, fan⟩ := u
    obtain rfl : fan = _ := hfan
    exact List.mem_map_of_mem hm'
  · rintro g' m' rfl ps
    obtain rfl := hopening g' rfl
    exact hkeep m' (hclaims m' (List.mem_singleton_self _)) ps (hu.start _ m' rfl ps)
  · exact fun g' m' ps heq ↦ (State.openOn_concat hs).2 (.inl (hu.holding g' m' ps heq))

/-- A subscription is opened. -/
theorem Subs.pSubscribe {node : Option String} {x : Nat} (hob : (topology J r hoss).Obeying P q)
    (hF : Fans P q) (hS : Subs P q) (hs : Pool.Step P (.op t c (.pSubscribe node) ch x h) P') :
    Subs P' ((topology J r hoss).track q P (.op t c (.pSubscribe node) ch x h)) := by
  obtain ⟨f, hl⟩ := hs.op_live
  obtain ⟨rfl, hs', rfl⟩ := State.some_inj hs.op_exec
  obtain ⟨g, m, hstage, rfl⟩ := hob.ok hs
  have hq := (hF.each t c f hl).eq_on hstage
  have htidy := hS.each t c f hl
  have hpubSubs : P'.state.pubSubs = P.state.pubSubs ++ [⟨some m, true⟩] := by rw [← hs']
  have hopen {n : Option String} {ps : Nat} : P'.state.OpenOn n ps ↔
      P.state.OpenOn n ps ∨ (ps = P.state.pubSubs.length ∧ n = some m) :=
    State.openOn_concat hpubSubs
  have hnext : (q t).next (.pSubscribe (some m)) P.state.pubSubs.length =
      .on (.task g .subscribe m (.holding P.state.pubSubs.length)) := by
    rw [hq]
    rfl
  refine hS.of_mover hob hs ?_ ?_ ?_ ?_ ?_ ?_ ?_ nofun
  · rw [← hs']
    exact hS.pubSub
  · intro n ps hps
    rcases hopen.1 hps with hold | ⟨rfl, rfl⟩
    · rcases hS.tracked n ps hold with hin | ⟨u, d, f', g', m', hu, hqu⟩
      · refine .inl ?_
        rw [← hs']
        exact hin
      · refine .inr (.inr ⟨u, d, f', g', m', hu, ?_, hqu⟩)
        rintro rfl
        rw [hq] at hqu
        cases hqu
    · exact .inr (.inl ⟨g, m, hnext⟩)
  · intro ps hps
    rw [← hs'] at hps
    obtain ⟨n, hn⟩ := hS.opened ps hps
    exact ⟨n, hopen.2 (.inl hn)⟩
  · intro n ps ps' hps hps'
    have hno := htidy.start g m hq
    rcases hopen.1 hps with hps | ⟨rfl, rfl⟩ <;> rcases hopen.1 hps' with hps' | ⟨rfl, hn⟩
    · exact hS.unique n ps ps' hps hps'
    · rw [hn] at hps
      exact absurd hps (hno ps)
    · exact absurd hps' (hno ps')
    · rfl
  · intro u d f' hu hne
    exact (hS.each u d f' hu).subscribe hpubSubs hq (hS.pairs t u c d f f' hl hu hne.symm)
      (hF.pairs t u c d f f' hl hu hne.symm)
  · rw [hnext]
    refine ⟨nofun, nofun, nofun, nofun, ?_, nofun⟩
    intro g' m' ps heq
    cases heq
    exact hopen.2 (.inr ⟨rfl, rfl⟩)
  · intro u d f' hu hne
    have htamer : (q t).Tamer ((q t).next (.pSubscribe (some m)) P.state.pubSubs.length) := by
      rw [hnext, hq]
      exact ⟨nofun, fun _ h ↦ .inl h, nofun⟩
    exact htamer.orderly (hS.pairs t u c d f f' hl hu hne.symm)

/-- A subscription is added. -/
theorem Subs.ossAdd {ps : Nat} {x : Unit} (hob : (topology J r hoss).Obeying P q)
    (hF : Fans P q) (hS : Subs P q) (hs : Pool.Step P (.op t c (.ossAdd ps) ch x h) P') :
    Subs P' ((topology J r hoss).track q P (.op t c (.ossAdd ps) ch x h)) := by
  obtain ⟨f, hl⟩ := hs.op_live
  obtain ⟨-, hs', rfl⟩ := State.some_inj hs.op_exec
  obtain ⟨g, m, hstage⟩ := hob.ok hs
  have hq := (hF.each t c f hl).eq_on hstage
  have hoss' : P'.state.ossPubSubs = P.state.ossPubSubs ++ [ps] := by rw [← hs']
  have hopen {n : Option String} {i : Nat} : P'.state.OpenOn n i ↔ P.state.OpenOn n i := by
    rw [← hs']
    rfl
  have hharmless : ((q t).next (.ossAdd ps) x).Harmless := by
    rw [hq]
    exact ⟨rfl, nofun, nofun⟩
  refine hS.of_mover hob hs ?_ ?_ ?_ ?_ ?_ hharmless.tidy (fun _ _ _ _ _ ↦ hharmless.orderly) nofun
  · rw [← hs']
    exact hS.pubSub
  · intro n i hi
    rw [hoss', List.mem_append]
    rcases hS.tracked n i (hopen.1 hi) with hin | ⟨u, d, f', g', m', hu, hqu⟩
    · exact .inl (.inl hin)
    · by_cases hut : u = t
      · subst hut
        rw [hq] at hqu
        cases hqu
        exact .inl (.inr (List.mem_singleton_self _))
      · exact .inr (.inr ⟨u, d, f', g', m', hu, hut, hqu⟩)
  · intro i hi
    rw [hoss', List.mem_append, List.mem_singleton] at hi
    rcases hi with hi | rfl
    · obtain ⟨n, hn⟩ := hS.opened i hi
      exact ⟨n, hopen.2 hn⟩
    · exact ⟨some m, hopen.2 ((hS.each t c f hl).holding g m i hq)⟩
  · exact fun n i i' h h' ↦ hS.unique n i i' (hopen.1 h) (hopen.1 h')
  · exact fun u d f' hu _ ↦ (hS.each u d f' hu).congr fun _ _ ↦ hopen

/-- All subscriptions are closed. -/
theorem Subs.ossCloseAll {x : Unit} (hob : (topology J r hoss).Obeying P q) (hS : Subs P q)
    (hg : Alone q P (.op t c .ossCloseAll ch x h))
    (hs : Pool.Step P (.op t c .ossCloseAll ch x h) P') :
    Subs P' ((topology J r hoss).track q P (.op t c .ossCloseAll ch x h)) ∧
      ∀ node ps, ¬ P'.state.OpenOn node ps := by
  obtain ⟨f, hl⟩ := hs.op_live
  obtain ⟨-, hs', rfl⟩ := State.some_inj hs.op_exec
  have hstage : (q t).stage = .checking ∨ (q t).stage = .finishing := by
    rcases hob.ok hs with h | h | h
    · exact .inl h
    · exact .inr h
    · exact absurd h (hS.each t c f hl).odd
  -- whoever has a subscription to add is pending
  have hnone (n : Option String) (ps : Nat) : ¬ P'.state.OpenOn n ps := by
    rw [State.openOn_closeAll hs'.symm]
    rintro ⟨hopen, hout⟩
    rcases hS.tracked n ps hopen with hin | ⟨u, d, f', g, m, hu, hqu⟩
    · exact hout hin
    · by_cases hut : u = t
      · subst hut
        rw [hqu] at hstage
        rcases hstage with h | h <;> cases h
      · have hno := (hg u d f' hu hut).1
        rw [hqu] at hno
        cases hno
  have hnext : (q t).next .ossCloseAll x = .on (q t).stage.onCloseAll := rfl
  refine ⟨hS.of_mover hob hs ?_ ?_ ?_ ?_ ?_ ?_ ?_ nofun, hnone⟩
  · rw [← hs']
    exact hS.pubSub
  · exact fun n ps hopen ↦ absurd hopen (hnone n ps)
  · intro ps hps
    rw [← hs'] at hps
    cases hps
  · exact fun n ps _ hopen ↦ absurd hopen (hnone n ps)
  · intro u d f' hu hne
    refine ⟨fun _ ↦ hnone, fun _ ↦ hnone, fun _ _ _ m _ ↦ hnone (some m), fun _ m _ ↦ hnone (some m),
      ?_, (hS.each u d f' hu).odd⟩
    intro g m ps hqu
    have hno := (hg u d f' hu hne).1
    rw [hqu] at hno
    cases hno
  · rw [hnext]
    refine ⟨fun _ ↦ hnone, fun _ ↦ hnone, nofun, ?_, ?_, ?_⟩
    all_goals
      rcases hstage with h | h
      all_goals
        rw [h]
        exact nofun
  · intro u d f' hu hne
    obtain ⟨hno, hclosed⟩ := hg u d f' hu hne
    obtain ⟨hwait, hopening⟩ := Session.pending_eq_false.1 hno
    rw [hnext]
    refine ⟨⟨fun _ ↦ hno, fun _ ↦ hno, fun _ _ _ hg' ↦ ?_⟩,
      ⟨fun hw ↦ ?_, fun hc ↦ ?_, fun _ _ hg' ↦ ?_⟩⟩
    · rw [hopening] at hg'
      cases hg'
    · rw [hwait] at hw
      cases hw
    · rcases hstage with h | h
      · exact absurd hc (hclosed h)
      · rw [h]
        rfl
    · rw [hopening] at hg'
      cases hg'

end Op

/-- **One step.** -/
theorem Subs.step (hob : (topology J r hoss).Obeying P q) (hF : Fans P q) (hS : Subs P q)
    (hg : Alone q P e) (hs : Pool.Step P e P') : Subs P' ((topology J r hoss).track q P e) := by
  cases he : e.mover with
  | some t =>
    cases e with
    | op t c o ch x h =>
      cases ho : o.isSub with
      | false =>
        obtain ⟨f, hl⟩ := hs.op_live
        exact hS.of_settles hob hs (State.exec_sameSubs hs.op_exec ho) (settles_op
          (hS.each t c f hl) (hF.each t c f hl) (hob.ok hs) hS.pubSub ho hs.op_exec)
      | true =>
        cases o with
        | pSubscribe node => exact hS.pSubscribe hob hF hs
        | ossAdd ps => exact hS.ossAdd hob hF hs
        | ossCloseAll => exact (hS.ossCloseAll hob hg hs).1
        | setPubSub ps => exact (hob.ok hs).elim
        | closePubSub ps =>
          obtain ⟨f, hl⟩ := hs.op_live
          exact absurd (hob.ok hs) (hS.each t c f hl).odd
        | _ => cases ho
    | _ => cases he
  | none =>
    have hkeep (u : Nat) (d : Unit) (g : Call) (hu : P.Live u d g) :
        (topology J r hoss).track q P e u = q u :=
      Contract.track_of_mover_ne hu.lt_length (by simp [he])
    have hsame : State.SameSubs P.state P'.state := by
      cases hs with
      | op => cases he
      | again | start => exact ⟨rfl, rfl, rfl⟩
      | crash => exact hg.elim
      | @env v s hv =>
        cases v with
        | redis _ | topology _ _ | cancel =>
          obtain rfl := Option.some.inj hv
          exact ⟨rfl, rfl, rfl⟩
    have hcrash (d : Unit) : e ≠ .crash d := by
      rintro rfl
      exact hg
    -- a call that is started is harmless, or finds nothing open and the others harmless
    have hnew (d : Unit) (f : Call) (hst : e.starts = some (d, f)) :
        (Session.ofCall f).Tidy P'.state ∧
          ∀ u d' f', P.Live u d' f' → (Session.ofCall f).Orderly (q u) := by
      cases e with
      | start d' f' =>
        cases hst
        cases f with
        | init =>
          obtain ⟨hnone, hothers⟩ := hg
          refine ⟨⟨fun _ node ps hopen ↦ hnone node ps (hsame.openOn_iff.1 hopen), nofun, nofun,
            nofun, nofun, nofun⟩, fun u d' f' hu ↦ (hothers u d' f' hu).orderly.symm⟩
        | callback _ _ _ => exact hg.elim
        | reinitTopology | done | cleanup | client _ | fanIn _ | listenKsp =>
          have hharmless {stage : Stage} (h : (Session.on stage).Harmless) :
              (Session.on stage).Tidy P'.state ∧
                ∀ u d' f', P.Live u d' f' → (Session.on stage).Orderly (q u) :=
            ⟨h.tidy, fun _ _ _ _ ↦ h.orderly⟩
          exact hharmless ⟨rfl, nofun, nofun⟩
      | op => cases he
      | _ => cases hst
    refine ⟨hsame.pubSub.trans hS.pubSub, ?_, ?_, ?_, ?_, ?_⟩
    · intro node ps hopen
      rw [hsame.ossPubSubs]
      refine (hS.tracked node ps (hsame.openOn_iff.1 hopen)).imp_right ?_
      rintro ⟨u, d, f, g, m, hu, hq⟩
      exact ⟨u, d, f, g, m, hs.live_iff.2 (.inl ⟨hu, hcrash d⟩), (hkeep u d f hu).trans hq⟩
    · intro ps hps
      rw [hsame.ossPubSubs] at hps
      obtain ⟨node, hopen⟩ := hS.opened ps hps
      exact ⟨node, hsame.openOn_iff.2 hopen⟩
    · exact fun node ps ps' h h' ↦
        hS.unique node ps ps' (hsame.openOn_iff.1 h) (hsame.openOn_iff.1 h')
    · refine hob.each (I := fun _ _ (q : Session) ↦ q.Tidy P.state)
        (Q := fun _ _ (q : Session) ↦ q.Tidy P'.state) hs hS.each ?_ ?_ ?_
      · exact fun _ _ _ _ _ _ hq ↦ hq.congr fun _ _ ↦ hsame.openOn_iff
      · rintro t c f o ch x g rfl
        cases he
      · exact fun d f hst ↦ (hnew d f hst).1
    · refine Contract.track_pairs (fun _ _ h ↦ h.symm) hs hS.pairs ?_ ?_
      · rintro t c o ch x f rfl
        cases he
      · intro d f hst u d' f' hu
        rw [hkeep u d' f' hu]
        exact (hnew d f hst).2 u d' f' hu

/-- The subscriptions as `Init` leaves them: the open ones are those that are tracked, and no node
has two. -/
structure State.Subscribed (s : State) : Prop where
  pubSub : s.pubSub = none
  tracked : ∀ node ps, s.OpenOn node ps → ps ∈ s.ossPubSubs
  opened : ∀ ps ∈ s.ossPubSubs, ∃ node, s.OpenOn node ps
  unique : ∀ node ps ps', s.OpenOn node ps → s.OpenOn node ps' → ps = ps'

theorem State.Subscribed.subs {P₀ : Pool (machine J r)} (h : P₀.state.Subscribed)
    (h₀ : P₀.threads = []) (q : Nat → Session) : Subs P₀ q := by
  have hdead (t : Nat) (c : Unit) (f : Call) : ¬ P₀.Live t c f := by
    rintro ⟨p, hp⟩
    simp [h₀] at hp
  refine ⟨h.pubSub, fun node ps hopen ↦ .inl (h.tracked node ps hopen), h.opened, h.unique, ?_, ?_⟩
  · exact fun t c f hl ↦ absurd hl (hdead t c f)
  · exact fun t u c d f g hl ↦ absurd hl (hdead t c f)

end

end RedisStreamClient.Impl.Lifecycle

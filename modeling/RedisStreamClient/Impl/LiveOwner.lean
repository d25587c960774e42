import RedisStreamClient.Impl.Finish
import RedisStreamClient.Impl.Disown
import RedisStreamClient.Impl.Lookup

/-!
# Recovery against a live owner

A recoverer checks the lock of an entry and acknowledges the entry in two commands.  What
it found holds until the acknowledgement only if nobody sets the lock in between, be it a
reader that comes late to an entry it was handed or an extender whose lock had expired.

`acked_only_unlocked` says that this is all that can go wrong, and `locked_and_acked` that
it does.
-/

namespace RedisStreamClient.Impl

open RedisStreamClient.Lib RedisStreamClient.Errs RedisStreamClient.Notifs
open RedisStreamClient.Redis

/-! ## The condition -/

/-- The entry whose lock a recoverer has found gone, and that it is about to
acknowledge. -/
def Stage.judged : Stage → Option (LBSEntry × String)
  | .dead e name => some (e, name)
  | _ => none

section Condition

variable (V : Service) (h : History) (P : Pool V.machine)

/-- No goroutine is about to acknowledge an entry because it found the lock with this key
gone. -/
def Unjudged (key : String) : Prop :=
  ∀ t < P.threads.length, P.alive t = true → ∀ d ∈ (h.session t).observe Stage.judged,
    (LBSInfo.mk d.2 d.1.id).formMutexKey ≠ key

/-- **No lock comes late**: it is not set while a recoverer that found it gone has yet to
acknowledge the entry. -/
def NoLateLock : Event V.machine → Prop
  | .op _ _ (.lock m) _ _ _ | .op _ _ (.extend m) _ _ _ =>
    P.state.server.keys m.name = none → Unjudged V h P m.name
  | _ => True

instance instDecidableUnjudged (key : String) : Decidable (Unjudged V h P key) :=
  inferInstanceAs (Decidable (∀ t < P.threads.length, P.alive t = true →
    ∀ d ∈ (h.session t).observe Stage.judged, (LBSInfo.mk d.2 d.1.id).formMutexKey ≠ key))

/-- The key that an event locks or extends. -/
def lockSet : Event V.machine → Option String
  | .op _ _ (.lock m) _ _ _ | .op _ _ (.extend m) _ _ _ => some m.name
  | _ => none

theorem noLateLock_iff (e : Event V.machine) : NoLateLock V h P e ↔
    ∀ key ∈ lockSet V e, P.state.server.keys key = none → Unjudged V h P key := by
  cases e with
  | op t c o ch r f => cases o <;> simp [NoLateLock, lockSet]
  | _ => simp [NoLateLock, lockSet]

instance instDecidableNoLateLock : DecidablePred (NoLateLock V h P) :=
  Pool.decidableOn (lockSet V) _ (noLateLock_iff V h P)

end Condition

/-! ## What recoverers have found -/

namespace Session

variable {J : Json} {r : Client} {q : Session} {o : Op}

theorem taking_of_judged {d : LBSEntry × String} (h : q.observe Stage.judged = some d) :
    q.taking = some d := by
  cases q with
  | recover scope stage =>
    cases stage with
    | dead e name => exact h
    | _ => cases h
  | _ => cases h

/-- Only a check of a lock finds it gone. -/
theorem judged_next (hok : q.Ok J r o) (hex : ∀ key, o ≠ .existsKey key) {reply : o.Reply}
    {d : LBSEntry × String} (hd : (q.next J r o reply).observe Stage.judged = some d) :
    q.observe Stage.judged = some d := by
  refine observe_next hok ?_ ?_ ?_ ?_ ?_ (by simp [Stage.judged]) hd
  · rintro s i - id (_ | _ | _) hseen <;> cases hseen
  · intro key hkey
    exact absurd hkey (hex key)
  · rintro stage (_ | k) hseen
    · cases stage <;> cases hseen
    · by_cases hk : k = 0
      · cases stage <;> simp [Stage.onAck, Stage.judged, hk] at hseen
      · cases stage <;> simp [Stage.onAck, Stage.judged, hk] at hseen
  · rintro s n v - stage (_ | _) hseen <;> cases stage <;> cases hseen
  · intro stage hseen
    cases stage <;> cases hseen

end Session

section LookedUp

variable {V : Service} {h : History} {P P' : Pool V.machine} {e : Event V.machine}

/-- A text that a recoverer found dead is one that it was given. -/
theorem Session.Names.judged {R : String → Prop} {q : Session} {entry : LBSEntry} {name : String}
    (hq : q.Names R) (hd : q.observe Stage.judged = some (entry, name)) : R entry.id := by
  cases q with
  | recover scope stage =>
    cases stage with
    | dead e n =>
      obtain ⟨rfl, -⟩ := Prod.mk.inj (Option.some.inj hd)
      exact hq.2
    | _ => cases hd
  | _ => cases hd

/-- **A parseable entry is acknowledged by a recoverer only if it found its lock gone**,
under the key that the owner uses. -/
theorem LookedUp.acks_judged (hS : Sound V P h) (hL : LookedUp V P h) (hs : Pool.Step P e P')
    {t : Nat} {i : StreamID} {v : Values} {name : String} (hacks : History.Acks V P t i e)
    (hrole : (h.session t).role = .recoverer) (hv : h.added i = some v)
    (hname : V.nameOf v = some name) :
    ∃ entry, (h.session t).observe Stage.judged = some (entry, name) ∧ entry.id = i.text := by
  obtain ⟨scope, stage, hq⟩ := Session.exists_recover_of_role hrole
  obtain ⟨c, id, ch, r, f, rfl, -, -, hp⟩ := History.Acks.exists_op hacks
  obtain ⟨g, hl⟩ := hs.op_live
  rcases acks_stage hS hs hacks hq hv hname with ⟨id', rfl, hid⟩ | ⟨entry, rfl, hid⟩
  · exact absurd (hS.pending_sub i hp) (hL.lacking _ _ _ hl id' (by rw [hq]; rfl) i hid)
  · have hnames := hL.names _ _ _ hl
    rw [hq] at hnames
    obtain ⟨j, hj, htext, -⟩ := hnames.2
    obtain rfl : j = i := Option.some.inj (hj.symm.trans hid)
    exact ⟨entry, by rw [hq]; rfl, htext.symm⟩

end LookedUp

/-! ## Acknowledged while locked -/

/-- What a recoverer has found gone is gone. -/
def JudgedUnlocked (s : Server) (q : Session) : Prop :=
  ∀ entry name, q.observe Stage.judged = some (entry, name) →
    s.keys (LBSInfo.mk name entry.id).formMutexKey = none

section Judged

variable {V : Service} {h : History} {P P' : Pool V.machine} {e : Event V.machine}

theorem judgedUnlocked_step (hS : Sound V P h) (hs : Pool.Step P e P') (hlate : NoLateLock V h P e)
    (hJ : ∀ t c f, P.Live t c f → JudgedUnlocked P.state.server (h.session t)) (t c : Nat) (f : Call)
    (hl : P'.Live t c f) : JudgedUnlocked P'.state.server ((h.update V P e).session t) := by
  -- a lock that a recoverer has found gone is not set
  have hkeep : ∀ t c f, P.Live t c f → JudgedUnlocked P'.state.server (h.session t) := by
    intro t c f hl entry name hjudged
    have hno := hJ t c f hl entry name hjudged
    have hlate' : ∀ m : RedsyncMutex, m.name = (LBSInfo.mk name entry.id).formMutexKey →
        ¬ Unjudged V h P m.name :=
      fun m hm hun ↦ hun t hl.lt_length hl.alive (entry, name) hjudged hm.symm
    cases hk : P'.state.server.keys (LBSInfo.mk name entry.id).formMutexKey with
    | none => rfl
    | some v =>
      rcases key_step hs hk with hold | ⟨u, d, m, ch, hm, -, ⟨r, g, rfl⟩ | ⟨r, g, rfl⟩⟩
      · exact absurd (hno.symm.trans hold) (by simp)
      · exact absurd (hlate (by rw [hm]; exact hno)) (hlate' m hm)
      · exact absurd (hlate (by rw [hm]; exact hno)) (hlate' m hm)
  refine hS.obeying.each (K := V.contract) (I := fun _ _ q ↦ JudgedUnlocked P.state.server q)
    (Q := fun _ _ q ↦ JudgedUnlocked P'.state.server q) hs hJ ?_ ?_ ?_ t c f hl
  · intro t c f hl _ _ _
    exact hkeep t c f hl
  · rintro t c f o ch r g rfl hl hok hx _ entry name hjudged
    by_cases hex : ∃ key, o = .existsKey key
    · obtain ⟨key, rfl⟩ := hex
      obtain ⟨scope, -, -, rfl, hkey⟩ := taking_existsKey hS.obeying hs
        (Session.taking_of_judged hjudged)
      obtain ⟨hw, -⟩ := World.exec_existsKey (c := c) hx
      rw [hw]
      exact hkey
    · exact hkeep t c f hl entry name
        (Session.judged_next hok (fun key hk ↦ hex ⟨key, hk⟩) hjudged)
  · intro c f _ entry name hjudged
    cases f <;> cases hjudged

end Judged

/-- **A live owner's entry is acknowledged away only if its lock comes late.**  In every
run in which no lock is set between the check and the acknowledgement of a recoverer,
whenever the `XACK` of a recoverer takes a parseable entry off the pending list, the lock
of that entry does not exist. -/
theorem acked_only_unlocked (V : Service) (P₀ P P' : Pool V.machine) (h : History)
    (e : Event V.machine) (h₀ : Fresh V P₀)
    (hr : V.Run (fun h P e ↦ AssignedClaims V P e ∧ NoLateLock V h P e) P₀ P h)
    (hs : Pool.Step P e P') (t : Nat) (i : StreamID) (v : Values) (name : String)
    (hacks : History.Acks V P t i e) (hrole : (h.session t).role = .recoverer)
    (hv : (V.stream P.state.server).lookup i = some v) (hname : V.nameOf v = some name) :
    P.state.server.keys (lockKey name i) = none := by
  obtain ⟨hS, hL, hJ⟩ := hr.invariant (I := fun P h ↦ LookedUp V P h ∧
      ∀ t c f, P.Live t c f → JudgedUnlocked P.state.server (h.session t)) h₀
    ⟨.init h₀, fun _ _ _ hl ↦ absurd hl h₀.not_live⟩ (by
      rintro P h e P' hS - - ⟨hclaims, hlate⟩ hs ⟨hL, hJ⟩
      exact ⟨hL.step hS hs hclaims, judgedUnlocked_step hS hs hlate hJ⟩)
  obtain ⟨entry, hjudged, hid⟩ := hL.acks_judged hS hs hacks hrole (hS.added_eq i v hv) hname
  obtain ⟨c, id, ch, r, f, rfl, -⟩ := History.Acks.exists_op hacks
  obtain ⟨g, hl⟩ := hs.op_live
  rw [lockKey, ← hid]
  exact hJ t c g hl entry name hjudged

namespace Demo

/-- Client `a` is handed the entry `1-0` of `orders`. -/
def handed : List (Pool.Label service.machine) :=
  [produce 1 "orders", .start 0 (.readLBSStream 0 0)] ++ ops 0 2

/-- Client `b` claims the entry and finds its lock gone. -/
def judging : List (Pool.Label service.machine) :=
  [.start 1 (.claim ⟨"orders", "1-0"⟩)] ++ ops 1 2

/-- Client `a` crashes before that. -/
def orphaned : Pool service.machine × History :=
  service.reached (fun h P e ↦ AssignedClaims service P e ∧ NoLateLock service h P e) idle
    (handed ++ [.crash 0] ++ judging) (by decide +kernel)

/-- Client `a` is slow, and locks the entry after that. -/
def overtaken : Pool service.machine × History :=
  service.reached (fun _ P e ↦ AssignedClaims service P e) idle (handed ++ judging ++ ops 0 1)
    (by decide +kernel)

end Demo

/-- The entry of a crashed owner is acknowledged without its lock. -/
theorem acked_only_unlocked_crashed :
    ∃ e P', Pool.Step Demo.orphaned.1 e P' ∧
      History.Acks Demo.service Demo.orphaned.1 1 ⟨1, 0⟩ e ∧
        Demo.orphaned.1.state.server.keys (lockKey "orders" ⟨1, 0⟩) = none := by
  have hstep : (Demo.orphaned.1.step? (.op 1 .plain)).any (fun p ↦
      decide (History.Acks Demo.service Demo.orphaned.1 1 ⟨1, 0⟩ p.1)) = true := by
    decide +kernel
  obtain ⟨e, P', hs, hacks⟩ := Pool.exists_step_of_any hstep
  have hacks' := of_decide_eq_true hacks
  exact ⟨e, P', hs, hacks', acked_only_unlocked Demo.service Demo.idle Demo.orphaned.1 P'
    Demo.orphaned.2 e Demo.fresh_idle (Service.run_reached _) hs 1 ⟨1, 0⟩
    (Demo.fields "orders") "orders" hacks' (by decide +kernel)
    (by decide +kernel) (by decide +kernel)⟩

/-- **A live owner's entry is acknowledged away.**  Client `a` locks the entry it was
handed between the check and the acknowledgement of client `b`. -/
theorem locked_and_acked :
    Fresh Demo.service Demo.idle ∧
      Demo.service.Run (fun _ P e ↦ AssignedClaims Demo.service P e) Demo.idle Demo.overtaken.1
        Demo.overtaken.2 ∧
      (Demo.overtaken.2.session 1).role = .recoverer ∧
        ∃ v, (Demo.service.stream Demo.overtaken.1.state.server).lookup ⟨1, 0⟩ = some v ∧
          Demo.service.nameOf v = some "orders" ∧
            ∃ e P', Pool.Step Demo.overtaken.1 e P' ∧
              History.Acks Demo.service Demo.overtaken.1 1 ⟨1, 0⟩ e ∧
                Demo.overtaken.1.state.server.keys (lockKey "orders" ⟨1, 0⟩) = some "a" := by
  have hstep : (Demo.overtaken.1.step? (.op 1 .plain)).any (fun p ↦
      decide (History.Acks Demo.service Demo.overtaken.1 1 ⟨1, 0⟩ p.1)) = true := by
    decide +kernel
  obtain ⟨e, P', hs, hacks⟩ := Pool.exists_step_of_any hstep
  exact ⟨Demo.fresh_idle, Service.run_reached _, by decide +kernel,
    Demo.fields "orders", by decide +kernel, by decide +kernel, e, P',
    hs, of_decide_eq_true hacks, by decide +kernel⟩

/-! ## Announced while not pending -/

namespace Session

/-- A reader that has yet to announce the entry `id`. -/
def Awaits (id : String) : Session → Prop
  | .batch todo | .announced _ todo => ∃ m ∈ todo, m.id = id
  | .locked m _ todo => m.id = id ∨ ∃ m ∈ todo, m.id = id
  | .recorded info todo => info.lbsInfo.idInLBS = id ∨ ∃ m ∈ todo, m.id = id
  | _ => False

instance instDecidableAwaits (id : String) (q : Session) : Decidable (q.Awaits id) :=
  match q with
  | .batch todo | .announced _ todo => inferInstanceAs (Decidable (∃ m ∈ todo, m.id = id))
  | .locked m _ todo => inferInstanceAs (Decidable (m.id = id ∨ ∃ m ∈ todo, m.id = id))
  | .recorded info todo =>
    inferInstanceAs (Decidable (info.lbsInfo.idInLBS = id ∨ ∃ m ∈ todo, m.id = id))
  | .recover _ _ | .finishing | .popped _ | .acked _ | .deleted _ | .over | .stopped
  | .extender _ | .extending _ | .disowned _ | .leaving _ | .clearing _ | .broker =>
    .isFalse not_false

variable {J : Json} {r : Client} {q : Session} {o : Op} {id : String}

theorem Awaits.role_eq (h : q.Awaits id) : q.role = .reader := by
  cases q with
  | batch todo => rfl
  | locked m name todo => rfl
  | recorded info todo => rfl
  | announced info todo => rfl
  | _ => exact h.elim

/-- Only a delivery gives a reader an entry to announce. -/
theorem awaits_next (hok : q.Ok J r o) (hread : ∀ g n s, o ≠ .xreadGroup g n s) (reply : o.Reply)
    (h : (q.next J r o reply).Awaits id) : q.Awaits id := by
  have hrole : q.role = .reader := (role_next hok reply).symm.trans h.role_eq
  rcases reader_cases hrole hok reply with ⟨-, -, heq⟩ | ⟨-, g, n, s, rfl⟩ |
    ⟨message, name, todo, rfl, hname, rfl⟩ | ⟨message, name, todo, info, rfl, hinfo, -, rfl⟩ |
    ⟨info, todo, ctx, rfl, rfl⟩ | ⟨info, todo, rfl | rfl, rfl⟩
  · rwa [heq] at h
  · exact absurd rfl (hread g n s)
  · rcases reply with _ | err
    · simpa [next, onLock, hname, Awaits] using h
    · exact h.elim
  · rcases h with h | h
    · rw [hinfo] at h
      exact .inl h
    · exact .inr h
  · exact .inr h
  · exact .inr h
  · exact h

theorem not_awaits_start (f : Call) : ¬ (start f).Awaits id := by
  cases f with
  | readLBSStream n d =>
    rintro ⟨m, hm, -⟩
    cases hm
  | _ => exact not_false

end Session

/-- What a reader has yet to announce it was handed. -/
theorem Knows.handed_of_awaits {V : Service} {s : Server} {h : History} {c : Nat} {q : Session}
    {id : String} (hq : Knows V s h c q) (hw : q.Awaits id) : ∃ m, Handed V s h c m ∧ m.id = id := by
  have htodo : ∀ {todo : List XMessage}, (∀ m ∈ todo, Handed V s h c m) →
      (∃ m ∈ todo, m.id = id) → ∃ m, Handed V s h c m ∧ m.id = id := by
    rintro todo hall ⟨m, hm, hid⟩
    exact ⟨m, hall m hm, hid⟩
  cases q with
  | batch todo => exact htodo hq hw
  | locked m name todo => exact hw.elim (fun hid ↦ ⟨m, hq.1, hid⟩) (htodo hq.2.2)
  | recorded info todo =>
    refine hw.elim (fun hid ↦ ?_) (htodo hq.2)
    obtain ⟨⟨m, hm, hid', -⟩, -⟩ := hq
    exact ⟨m, hm, hid'.trans hid⟩
  | announced info todo => exact htodo hq.2 hw
  | _ => exact hw.elim

section Condition

variable (V : Service) (h : History) (P : Pool V.machine)

/-- The entry `id` was delivered and no reader has yet to announce it. -/
def Unawaited (id : String) : Prop :=
  (∃ i ∈ StreamID.ofText? id, i ≤ (V.pending P.state.server).top) ∧
    ∀ t < P.threads.length, P.alive t = true → ¬ (h.session t).Awaits id

instance instDecidableUnawaited (id : String) : Decidable (Unawaited V h P id) :=
  inferInstanceAs (Decidable (_ ∧ _))

/-- **A recoverer finds a lock gone only after the entry was announced**, and not while a
reader is still on its way to it. -/
def NotTooEarly : Event V.machine → Prop
  | .op t _ (.existsKey key) _ _ _ =>
    P.state.server.keys key = none → ∀ e ∈ (h.session t).reading, Unawaited V h P e.id
  | _ => True

theorem notTooEarly_iff (e : Event V.machine) : NotTooEarly V h P e ↔
    ∀ x ∈ History.lookedFor V e, P.state.server.keys x.2 = none →
      ∀ e ∈ (h.session x.1).reading, Unawaited V h P e.id := by
  cases e with
  | op t c o ch r f => cases o <;> simp [NotTooEarly, History.lookedFor]
  | _ => simp [NotTooEarly, History.lookedFor]

instance instDecidableNotTooEarly : DecidablePred (NotTooEarly V h P) :=
  Pool.decidableOn (History.lookedFor V) _ (notTooEarly_iff V h P)

end Condition

/-- **What holds while recoverers do not come too early.** -/
structure Announces (V : Service) (P : Pool V.machine) (h : History) : Prop where
  /-- What a recoverer has found dead was delivered and is not awaited. -/
  judged : ∀ t c f, P.Live t c f → ∀ entry name,
    (h.session t).observe Stage.judged = some (entry, name) →
      (∃ i ∈ StreamID.ofText? entry.id, i ≤ (V.pending P.state.server).top) ∧
        ∀ u d g, P.Live u d g → ¬ (h.session u).Awaits entry.id
  /-- What a reader has yet to announce, if it can be parsed, is pending or finished. -/
  awaited : ∀ t c f, P.Live t c f → ∀ (i : StreamID) v name, (h.session t).Awaits i.text →
    h.added i = some v → V.nameOf v = some name →
      i ∈ V.pending P.state.server ∨ i ∈ h.finished

section Announces

variable {V : Service} {h : History} {P P' : Pool V.machine} {e : Event V.machine}

/-- What a delivery hands out was not delivered before. -/
theorem awaits_xreadGroup {t c : Nat} {a b d : String} {ch : Choice}
    {r : Except Err (List (String × List XMessage))} {f : Option Call} {i : StreamID}
    (hS : Sound V P h)
    (hs : Pool.Step P (.op (M := V.machine) t c (.xreadGroup a b d) ch r f) P')
    (hw : ((h.session t).next V.json (V.client c) (.xreadGroup a b d) r).Awaits i.text) :
    (V.pending P.state.server).top < i ∧ i ∈ V.pending P'.state.server := by
  obtain ⟨hgroup, rfl, hstream, hq⟩ : (h.session t).Ok V.json (V.client c) (.xreadGroup a b d) :=
    hS.obeying.ok hs
  rw [V.lbsName_eq] at hstream
  rw [V.lbsGroupName_eq] at hgroup
  subst hstream hgroup
  have hx : World.exec c (.xreadGroup V.group (V.client c).consumerID V.lbs) ch P.state =
    some (r, P'.state, f) := hs.op_exec
  rcases r with err | streams
  · obtain ⟨m, hm, -⟩ := hw
    cases hm
  obtain ⟨-, hw', hstreams⟩ := World.exec_xreadGroup_ok hx
  obtain ⟨m, hm, hid⟩ := hw
  rw [hstreams] at hm
  obtain ⟨⟨j, v⟩, hmem, rfl⟩ := List.mem_map.1 hm
  obtain rfl : j = i := StreamID.text_injective hid
  refine ⟨of_decide_eq_true (List.mem_filter.1 hmem).2, ?_⟩
  rw [hw', World.server_setServer, Service.pending_setGroup, Server.deliver, Log.mem_append]
  exact .inr ⟨_, List.mem_map.2 ⟨(j, v), hmem, rfl⟩⟩

/-- A delivered entry that no reader has yet to announce stays so. -/
theorem not_awaits_step (hS : Sound V P h) (hs : Pool.Step P e P') {i : StreamID}
    (hle : i ≤ (V.pending P.state.server).top)
    (hno : ∀ t c f, P.Live t c f → ¬ (h.session t).Awaits i.text) (t c : Nat) (f : Call)
    (hl : P'.Live t c f) : ¬ ((h.update V P e).session t).Awaits i.text := by
  refine hS.obeying.each (K := V.contract) (I := fun _ _ q ↦ ¬ Session.Awaits i.text q)
    (Q := fun _ _ q ↦ ¬ Session.Awaits i.text q) hs hno ?_ ?_ ?_ t c f hl
  · intro t c f _ _ _ hw
    exact hw
  · rintro t c f o ch r g rfl hl hok hx hw hnext
    by_cases hread : ∃ g n s, o = .xreadGroup g n s
    · obtain ⟨g', n, s, rfl⟩ := hread
      exact absurd (awaits_xreadGroup hS hs hnext).1 hle.not_gt
    · exact hw (Session.awaits_next hok (fun g n s ho ↦ hread ⟨g, n, s, ho⟩) r hnext)
  · intro c f _
    exact Session.not_awaits_start f

namespace Announces

theorem judged_step (hS : Sound V P h) (hL : LookedUp V P h) (hA : Announces V P h)
    (hs : Pool.Step P e P') (hearly : NotTooEarly V h P e) (t c : Nat) (f : Call)
    (hl : P'.Live t c f) (entry : LBSEntry) (name : String)
    (hjudged : ((h.update V P e).session t).observe Stage.judged = some (entry, name)) :
    (∃ i ∈ StreamID.ofText? entry.id, i ≤ (V.pending P'.state.server).top) ∧
      ∀ u d g, P'.Live u d g → ¬ ((h.update V P e).session u).Awaits entry.id := by
  have hgr := (change hS.obeying hs).grows
  -- what nobody awaits nobody will await
  have hkeep : ∀ {entry : LBSEntry}, Assigned V P.state.server entry.id →
      (∃ i ∈ StreamID.ofText? entry.id, i ≤ (V.pending P.state.server).top) →
      (∀ u d g, P.Live u d g → ¬ (h.session u).Awaits entry.id) →
        (∃ i ∈ StreamID.ofText? entry.id, i ≤ (V.pending P'.state.server).top) ∧
          ∀ u d g, P'.Live u d g → ¬ ((h.update V P e).session u).Awaits entry.id := by
    rintro entry ⟨j, hj, htext, -⟩ ⟨i, hi, hle⟩ hno
    obtain rfl : j = i := Option.some.inj (hj.symm.trans hi)
    refine ⟨⟨j, hi, hle.trans hgr.delivered_le⟩, ?_⟩
    rw [← htext] at hno ⊢
    exact not_awaits_step hS hs hle hno
  refine hS.obeying.each (K := V.contract)
    (I := fun _ _ q ↦ ∀ entry name, Session.observe Stage.judged q = some (entry, name) →
      (∃ i ∈ StreamID.ofText? entry.id, i ≤ (V.pending P.state.server).top) ∧
        ∀ u d g, P.Live u d g → ¬ (h.session u).Awaits entry.id)
    (Q := fun _ _ q ↦ ∀ entry name, Session.observe Stage.judged q = some (entry, name) →
      (∃ i ∈ StreamID.ofText? entry.id, i ≤ (V.pending P'.state.server).top) ∧
        ∀ u d g, P'.Live u d g → ¬ ((h.update V P e).session u).Awaits entry.id)
    hs hA.judged ?_ ?_ ?_ t c f hl entry name hjudged
  · intro t c f hl _ _ hq entry name hjudged
    obtain ⟨hi, hno⟩ := hq entry name hjudged
    exact hkeep (hL.names _ _ _ hl |>.judged hjudged) hi hno
  · rintro t c f o ch r g rfl hl hok hx hq entry name hjudged
    by_cases hex : ∃ key, o = .existsKey key
    · obtain ⟨key, rfl⟩ := hex
      obtain ⟨scope, hfound, -, rfl, hkey⟩ := taking_existsKey hS.obeying hs
        (Session.taking_of_judged hjudged)
      obtain ⟨hi, hno⟩ := hearly hkey entry (by rw [hfound]; rfl)
      have hnames := hL.names _ _ _ hl
      rw [hfound] at hnames
      exact hkeep hnames.2 hi fun u d g hl ↦ hno u hl.lt_length hl.alive
    · have hold := Session.judged_next hok (fun key hk ↦ hex ⟨key, hk⟩) hjudged
      obtain ⟨hi, hno⟩ := hq entry name hold
      exact hkeep (hL.names _ _ _ hl |>.judged hold) hi hno
  · intro c f _ entry name hjudged
    cases f <;> cases hjudged

/-- An awaited entry leaves the pending list only by a `DoneStream`. -/
theorem awaited_keep (hS : Sound V P h) (hL : LookedUp V P h) (hA : Announces V P h)
    (hs : Pool.Step P e P') {t c : Nat} {f : Call} (hl : P.Live t c f) {i : StreamID} {v : Values}
    {name : String} (hw : (h.session t).Awaits i.text) (hv : (h.update V P e).added i = some v)
    (hname : V.nameOf v = some name) :
    i ∈ V.pending P'.state.server ∨ i ∈ (h.update V P e).finished := by
  have hch := change hS.obeying hs
  obtain ⟨m, ⟨j, hj, hle, -⟩, hid⟩ := (hS.knows _ _ _ hl).handed_of_awaits hw
  obtain rfl : j = i := StreamID.text_injective (hj.symm.trans hid)
  rw [hch.grows.added_eq j (hle.trans hS.delivered_le)] at hv
  rcases hA.awaited t c f hl j v name hw hv hname with hp | hfin
  swap
  · exact .inr (.inl hfin)
  by_cases hno : ∀ u, ¬ History.Acks V P u j e
  · exact .inl ((hch.mem_pending_iff hle).2 ⟨hp, hno⟩)
  obtain ⟨u, hacks⟩ := not_forall_not.1 hno
  have hacks' := hacks
  obtain ⟨d, id, ch, r, g, rfl, -, -, -⟩ := History.Acks.exists_op hacks
  obtain ⟨g', hl'⟩ := hs.op_live
  obtain ⟨-, -, ⟨scope, stage, hq, -⟩ | ⟨info, hq, -⟩⟩ :
    (h.session u).Ok V.json (V.client d) (.xack V.lbs V.group id) := hS.obeying.ok hs
  · -- a recoverer would have found it dead, and then nobody awaits it
    obtain ⟨entry, hjudged, hentry⟩ := hL.acks_judged hS hs hacks' (by rw [hq]; rfl) hv hname
    have hno := (hA.judged _ _ _ hl' entry name hjudged).2 t c f hl
    rw [hentry] at hno
    exact absurd hw hno
  · exact .inr (.inr ⟨u, info, hacks', hq⟩)

theorem step (hS : Sound V P h) (hL : LookedUp V P h) (hs : Pool.Step P e P')
    (hearly : NotTooEarly V h P e) (hA : Announces V P h) : Announces V P' (h.update V P e) := by
  refine ⟨hA.judged_step hS hL hs hearly, ?_⟩
  refine hS.obeying.each (K := V.contract)
    (I := fun _ _ _ ↦ True)
    (Q := fun _ _ q ↦ ∀ (i : StreamID) v name, Session.Awaits i.text q →
      (h.update V P e).added i = some v → V.nameOf v = some name →
        i ∈ V.pending P'.state.server ∨ i ∈ (h.update V P e).finished)
    hs (fun _ _ _ _ ↦ trivial) ?_ ?_ ?_
  · intro t c f hl _ _ _ i v name hw hv hname
    exact hA.awaited_keep hS hL hs hl hw hv hname
  · rintro t c f o ch r g rfl hl hok hx - i v name hw hv hname
    by_cases hread : ∃ g n s, o = .xreadGroup g n s
    · obtain ⟨g', n, s, rfl⟩ := hread
      exact .inl (awaits_xreadGroup hS hs hw).2
    · exact hA.awaited_keep hS hL hs hl
        (Session.awaits_next hok (fun g n s ho ↦ hread ⟨g, n, s, ho⟩) r hw) hv hname
  · intro c f _ i v name hw
    exact absurd hw (Session.not_awaits_start f)

end Announces

end Announces

/-- **`StreamAdded` is sent only for work the consumer still owns, if recoverers do not come
too early.**  In every run in which a recoverer finds a lock gone only after the entry was
announced, whenever a reader sends `StreamAdded` for an entry that no `DoneStream` has
finished, the entry is pending. -/
theorem added_only_pending (V : Service) (P₀ P P' : Pool V.machine) (h : History) (h₀ : Fresh V P₀)
    (hr : V.Run (fun h P e ↦ AssignedClaims V P e ∧ NotTooEarly V h P e) P₀ P h) (t c ctx : Nat)
    (n d : Int) (m : RecoverableRedisNotification) (ch : Choice)
    (r : (Op.broker (.select ctx m)).Reply) (f : Option Call)
    (hl : P.Live t c (.readLBSStream n d)) (hm : m.type = .streamAdded)
    (hs : Pool.Step P (.op (M := V.machine) t c (.broker (.select ctx m)) ch r f) P') :
    ∃ i : StreamID, m.payload.idInLBS = i.text ∧
      (i ∉ h.finished → i ∈ V.pending P.state.server) := by
  obtain ⟨hS, hL, hA⟩ := hr.invariant (I := fun P h ↦ LookedUp V P h ∧ Announces V P h) h₀
    ⟨.init h₀, fun _ _ _ hl ↦ absurd hl h₀.not_live, fun _ _ _ hl ↦ absurd hl h₀.not_live⟩ (by
      rintro P h e P' hS - - ⟨hclaims, hearly⟩ hs ⟨hL, hA⟩
      exact ⟨hL.step hS hs hclaims, hA.step hS hL hs hearly⟩)
  have hrole : (h.session t).role = .reader := hS.plays _ _ _ hl
  have hok : (h.session t).OkSend m := hS.obeying.ok hs
  have hkn := hS.knows _ _ _ hl
  have hawaited := hA.awaited _ _ _ hl
  -- a reader announces what it has recorded
  cases hq : h.session t with
  | recorded info todo =>
    rw [hq] at hok hkn hawaited
    obtain rfl : m = make .streamAdded info.lbsInfo info.additionalInfo := hok
    obtain ⟨⟨message, ⟨i, hi, -, hv, -⟩, hid, hname, -⟩, -⟩ := hkn
    refine ⟨i, hid.symm.trans hi, fun hfin ↦ ?_⟩
    exact (hawaited i _ _ (.inl (hid.symm.trans hi)) hv (Service.nameOf_eq_some.2 hname)).resolve_right
      hfin
  | batch todo =>
    rw [hq] at hok
    cases hm.symm.trans hok
  | stopped =>
    rw [hq] at hok
    cases hm.symm.trans hok
  | broker =>
    rw [hq] at hrole
    cases hrole
  | disowned info =>
    rw [hq] at hrole
    cases hrole
  | _ =>
    rw [hq] at hok
    exact hok.elim

namespace Demo

/-- The `Send` put its notification into the buffer. -/
def wasSent : Broker.SendCase → Bool
  | .sent => true
  | _ => false

theorem eq_sent_of_wasSent {r : Broker.SendCase} (h : wasSent r = true) : r = .sent := by
  cases r with
  | sent => rfl
  | _ => cases h

/-- `StreamAdded` is sent for the entry `1-0`. -/
def announces : Event service.machine → Bool
  | .op _ _ (.broker (.select _ m)) _ r _ =>
    m.type == .streamAdded && m.payload.idInLBS == "1-0" && wasSent r
  | _ => false

theorem exists_of_announces {e : Event service.machine} (h : announces e = true) :
    ∃ t c ctx m ch r f, e = .op t c (.broker (.select ctx m)) ch r f ∧ m.type = .streamAdded ∧
      m.payload.idInLBS = "1-0" ∧ r = Broker.SendCase.sent := by
  cases e with
  | op t c o ch r f =>
    cases o with
    | broker o =>
      cases o with
      | select ctx m =>
        simp only [announces, Bool.and_eq_true, beq_iff_eq] at h
        obtain ⟨⟨htype, hid⟩, hr⟩ := h
        exact ⟨t, c, ctx, m, ch, r, f, rfl, htype, hid, eq_sent_of_wasSent hr⟩
      | _ => cases h
    | _ => cases h
  | _ => cases h

/-- The call is the reader. -/
def isReader : Call → Bool
  | .readLBSStream _ _ => true
  | _ => false

/-- Client `a` locks and records the entry `1-0` it was handed, and is about to announce it;
client `b` finds the lock. -/
def announcing : Pool service.machine × History :=
  service.reached (fun h P e ↦ AssignedClaims service P e ∧ NotTooEarly service h P e) idle
    (handed ++ ops 0 4 ++ judging) (by decide +kernel)

/-- Client `b` is faster: it adds the entry again, as `2-0`, before `a` has locked it. -/
def requeuedEarly : Pool service.machine × History :=
  service.reached (fun _ P e ↦ AssignedClaims service P e) idle
    (handed ++ judging ++ ops 1 1 ++ [.op 1 (.plain ⟨2, 0⟩)] ++ ops 0 4) (by decide +kernel)

end Demo

/-- An entry that is announced in time is pending. -/
theorem added_only_pending_inTime :
    ∃ t c ctx m ch r f P', Pool.Step Demo.announcing.1
        (.op (M := Demo.service.machine) t c (.broker (.select ctx m)) ch r f) P' ∧
      m.type = .streamAdded ∧ ∃ i : StreamID, m.payload.idInLBS = i.text ∧
        (i ∉ Demo.announcing.2.finished →
          i ∈ Demo.service.pending Demo.announcing.1.state.server) := by
  have hstep : (Demo.announcing.1.step? (.op 0 .plain)).any (fun p ↦
      Demo.announces p.1 && (p.1.mover == some 0)) = true := by decide +kernel
  obtain ⟨e, P', hs, htest⟩ := Pool.exists_step_of_any hstep
  obtain ⟨hann, hmover⟩ := Bool.and_eq_true_iff.1 htest
  obtain ⟨t, c, ctx, m, ch, r, f, rfl, hm, -, -⟩ := Demo.exists_of_announces hann
  obtain rfl : t = 0 := Option.some.inj (beq_iff_eq.1 hmover)
  have hany : Demo.announcing.1.threads[0]?.any (fun th ↦
      th.prog.isSome && Demo.isReader th.call) = true := by decide +kernel
  obtain ⟨c', g, hl, hreader⟩ := Pool.exists_live_of_any hany
  obtain ⟨g', hl'⟩ := hs.op_live
  obtain ⟨rfl, rfl⟩ := hl.unique hl'
  cases g with
  | readLBSStream n d =>
    exact ⟨0, c', ctx, m, ch, r, f, P', hs, hm, added_only_pending Demo.service Demo.idle
      Demo.announcing.1 P' Demo.announcing.2 Demo.fresh_idle (Service.run_reached _) 0 c' ctx n d m
      ch r f hl hm hs⟩
  | _ => cases hreader

/-- **`StreamAdded` is sent for work that was taken away.**  Client `b` has added the entry
`1-0` again before client `a`, which was handed it, comes to lock and announce it. -/
theorem added_after_requeue :
    Fresh Demo.service Demo.idle ∧
      Demo.service.Run (fun _ P e ↦ AssignedClaims Demo.service P e) Demo.idle
        Demo.requeuedEarly.1 Demo.requeuedEarly.2 ∧
      Demo.requeuedEarly.2.parent ⟨2, 0⟩ = some ⟨1, 0⟩ ∧
        ⟨1, 0⟩ ∉ Demo.service.pending Demo.requeuedEarly.1.state.server ∧
          ∃ t c ctx m ch r f P', Pool.Step Demo.requeuedEarly.1
              (.op (M := Demo.service.machine) t c (.broker (.select ctx m)) ch r f) P' ∧
            m.type = .streamAdded ∧ m.payload.idInLBS = "1-0" ∧ r = Broker.SendCase.sent := by
  have hstep : (Demo.requeuedEarly.1.step? (.op 0 .plain)).any (fun p ↦
      Demo.announces p.1) = true := by decide +kernel
  obtain ⟨e, P', hs, htest⟩ := Pool.exists_step_of_any hstep
  obtain ⟨t, c, ctx, m, ch, r, f, rfl, hm, hid, hr⟩ := Demo.exists_of_announces htest
  exact ⟨Demo.fresh_idle, Service.run_reached _, by decide +kernel, by decide +kernel, t, c, ctx, m,
    ch, r, f, P', hs, hm, hid, hr⟩

end RedisStreamClient.Impl

import RedisStreamClient.Impl.Locks

/-!
# How recoverers name entries and take them away

A recoverer uses the text it was given for an entry in three roles: it looks the entry
up, makes the key of its lock, and acknowledges it.  Redis reads several texts as the
same ID, but only one of them, `StreamID.text`, is the one the owner made its lock key
from.  A scan always uses that one, since it has it from `XPENDING`; a `Claim` uses what
its caller wrote.

`names_step` carries any property of the texts that is kept while the service runs from
the start of the `Claim`s to every stage of every recoverer.

`Session.taking` is the entry that a recoverer is taking away from its owner: from the
moment it found the lock gone until it has added the successor.
-/

namespace RedisStreamClient.Impl

open RedisStreamClient.Lib RedisStreamClient.Errs RedisStreamClient.Notifs
open RedisStreamClient.Redis

/-- The text under which a recoverer knows the entry it is busy with satisfies `R`. -/
def Stage.Names (R : String → Prop) : Stage → Prop
  | .missing id => R id
  | .found e | .dead e _ | .won e _ | .added e _ | .cleared e _ | .gap e | .dropped e => R e.id
  | .idle | .lost | .skipped | .failed => True

/-- All texts that a recoverer uses satisfy `R`. -/
def Session.Names (R : String → Prop) : Session → Prop
  | .recover scope stage => (∀ id ∈ scope.todo, R id) ∧ stage.Names R
  | _ => True

section Stage

variable {R : String → Prop} {stage : Stage}

theorem Stage.Names.mono {R' : String → Prop} (hR : ∀ id, R id → R' id) (h : stage.Names R) :
    stage.Names R' := by
  cases stage with
  | idle => trivial
  | lost => trivial
  | skipped => trivial
  | failed => trivial
  | _ => exact hR _ h

theorem Session.Names.mono {R' : String → Prop} {q : Session} (hR : ∀ id, R id → R' id)
    (h : q.Names R) : q.Names R' := by
  cases q with
  | recover scope stage => exact ⟨fun id hid ↦ hR id (h.1 id hid), h.2.mono hR⟩
  | _ => trivial

theorem Stage.names_onRange {id : String} (h : R id) (reply : Except Err (List XMessage)) :
    (Stage.onRange id reply).Names R := by
  rcases reply with err | _ | ⟨m, ms⟩
  · trivial
  · exact h
  · exact h

theorem Stage.names_onExists {J : Json} (h : stage.Names R) (reply : Except Err Int) :
    (stage.onExists J reply).Names R := by
  rcases reply with err | n
  · cases stage <;> trivial
  cases stage with
  | found e =>
    rw [Stage.onExists]
    split
    · split
      · trivial
      · exact h
    · trivial
  | _ => trivial

theorem Stage.names_onAck (h : stage.Names R) (reply : Except Err Int) :
    (stage.onAck reply).Names R := by
  rcases reply with err | n
  · cases stage <;> trivial
  cases stage with
  | found e =>
    rw [Stage.onAck]
    split
    · trivial
    · exact h
  | dead e name =>
    rw [Stage.onAck]
    split
    · trivial
    · exact h
  | _ => trivial

theorem Stage.names_onAdd {r : Client} (h : stage.Names R) (reply : Except Err String) :
    (stage.onAdd r reply).Names R := by
  rcases reply with err | id
  · cases stage with
    | won e name => exact h
    | _ => trivial
  · cases stage with
    | won e name => exact h
    | _ => trivial

theorem Stage.names_onDel (h : stage.Names R) : stage.onDel.Names R := by
  cases stage with
  | won e name => exact h
  | added e toDLQ => exact h
  | _ => trivial

end Stage

/-- A recoverer gets new texts from `XPENDING` only. -/
theorem Session.names_next {J : Json} {r : Client} {q : Session} {o : Op} {R : String → Prop}
    (hok : q.Ok J r o) (hpending : ∀ s g d a b n, o ≠ .xpending s g d a b n) (reply : o.Reply)
    (h : q.Names R) : (q.next J r o reply).Names R := by
  have hrole := role_next hok reply
  cases q with
  | recover scope stage =>
    rcases recover_cases hok reply with ⟨-, heq⟩ | ⟨-, ⟨s, g, d, a, b, n, rfl⟩, -⟩ | ⟨s, i, rfl⟩ |
      ⟨key, rfl⟩ | ⟨s, g, i, rfl⟩ | ⟨s, n, v, rfl⟩ | ⟨s, i, rfl⟩ | ⟨s, rfl⟩
    · rw [heq]
      exact h
    · exact absurd rfl (hpending s g d a b n)
    · obtain ⟨-, -, scope', stage', heq, -, hid⟩ := hok
      obtain ⟨rfl, rfl⟩ := recover.inj heq
      exact ⟨fun id hm ↦ h.1 id (List.mem_of_mem_erase hm), Stage.names_onRange (h.1 _ hid) _⟩
    · exact ⟨h.1, Stage.names_onExists h.2 _⟩
    · exact ⟨h.1, Stage.names_onAck h.2 _⟩
    · exact ⟨h.1, Stage.names_onAdd h.2 _⟩
    · exact ⟨h.1, Stage.names_onDel h.2⟩
    · exact ⟨h.1, trivial⟩
  | _ =>
    revert hrole
    generalize next J r _ o reply = q'
    intro hrole
    cases q' with
    | recover scope stage => cases hrole
    | _ => trivial

section Step

variable {V : Service} {h : History} {P P' : Pool V.machine} {e : Event V.machine}

/-- **The texts that recoverers use** keep a property that lasts, if the pending entries
have it and `Claim`s start with it. -/
theorem names_step {R R' : String → Prop} (hS : Sound V P h) (hs : Pool.Step P e P')
    (hmono : ∀ id, R id → R' id) (hpending : ∀ i ∈ V.pending P.state.server, R' i.text)
    (hstart : ∀ c info, e = .start c (.claim info) → R' info.idInLBS)
    (hN : ∀ t c f, P.Live t c f → (h.session t).Names R) (t c : Nat) (f : Call)
    (hl : P'.Live t c f) : ((h.update V P e).session t).Names R' := by
  refine hS.obeying.each (K := V.contract) (I := fun _ _ q ↦ Session.Names R q)
    (Q := fun _ _ q ↦ Session.Names R' q) hs hN ?_ ?_ ?_ t c f hl
  · intro t c f _ _ _ hq
    exact hq.mono hmono
  · rintro t c f o ch r g rfl hl hok hx hq
    have hok' : (h.session t).Ok V.json (V.client c) o := hok
    by_cases hp : ∃ s g d a b n, o = .xpending s g d a b n
    · obtain ⟨s, k, d, a, b, n, rfl⟩ := hp
      obtain ⟨hstream, hgroup, hscan⟩ := hok'
      rw [V.lbsName_eq] at hstream
      rw [V.lbsGroupName_eq] at hgroup
      subst hstream hgroup
      obtain ⟨-, hr⟩ := World.exec_xpending (c := c) hx
      have hq' := Session.Names.mono hmono hq
      show ((h.session t).onPending r).Names R'
      revert hq'
      generalize h.session t = q
      intro hq'
      rcases r with err | ids
      · cases q <;> exact hq'
      · cases q with
        | recover scope stage =>
          refine ⟨fun id hid ↦ ?_, hq'.2⟩
          rcases hr with hr | ⟨err, herr⟩
          · obtain ⟨i, hi, rfl⟩ := P.state.server.exists_of_mem_xpending hr.symm hid
            exact hpending i hi
          · cases herr
        | _ => trivial
    · exact Session.names_next hok' (fun s g d a b n ho ↦ hp ⟨s, g, d, a, b, n, ho⟩) r
        (hq.mono hmono)
  · intro c f hst
    cases f with
    | claim info =>
      cases e with
      | op t c' o ch r g =>
        obtain ⟨g', rfl, hg⟩ := Option.map_eq_some_iff.1 hst
        obtain ⟨-, rfl⟩ := Prod.mk.inj hg
        obtain ⟨m, l, i, -, hcall⟩ := World.exec_fork hs.op_exec
        cases hcall
      | start c' f' =>
        obtain ⟨rfl, rfl⟩ := Prod.mk.inj (Option.some.inj hst)
        refine ⟨fun id hid ↦ ?_, trivial⟩
        obtain rfl := List.mem_singleton.1 hid
        exact hstart _ _ rfl
      | _ => simp [Event.starts] at hst
    | reconcile startup => exact ⟨fun id hid ↦ absurd hid List.not_mem_nil, trivial⟩
    | _ => trivial

end Step

/-! ## Entries that are taken away -/

/-- The entry that a recoverer takes away, with its data stream: it found the lock gone
and has not yet added the successor. -/
def Stage.taking : Stage → Option (LBSEntry × String)
  | .dead e name => some (e, name)
  | .won e (some name) => some (e, name)
  | _ => none

namespace Session

/-- The entry that a goroutine takes away. -/
def taking : Session → Option (LBSEntry × String)
  | .recover _ stage => stage.taking
  | _ => none

variable {J : Json} {r : Client} {q : Session} {o : Op}

/-- What can be seen of a recoverer's stage. -/
def observe {α : Type} (f : Stage → Option α) : Session → Option α
  | .recover _ stage => f stage
  | _ => none

theorem taking_eq_observe : q.taking = q.observe Stage.taking := by cases q <;> rfl

/-- **The rule for what is seen of a recoverer**: what can be seen after an operation could
be seen before, if this is so for every operation that may change the stage. -/
theorem observe_next {α : Type} {f : Stage → Option α} {d : α} (hok : q.Ok J r o)
    (hrange : ∀ s i, o = .xrange s i i → ∀ id reply, f (.onRange id reply) ≠ some d)
    (hexists : ∀ key, o = .existsKey key → ∀ stage reply, f (Stage.onExists J stage reply) = some d →
      f stage = some d)
    (hack : ∀ stage reply, f (Stage.onAck stage reply) = some d → f stage = some d)
    (hadd : ∀ s n v, o = .xadd s n v → ∀ stage reply, f (Stage.onAdd r stage reply) = some d →
      f stage = some d)
    (hdel : ∀ stage, f (Stage.onDel stage) = some d → f stage = some d)
    (hfailed : f .failed ≠ some d) {reply : o.Reply}
    (hd : (q.next J r o reply).observe f = some d) : q.observe f = some d := by
  obtain ⟨scope', stage', hn⟩ : ∃ scope stage, q.next J r o reply = .recover scope stage := by
    revert hd
    generalize q.next J r o reply = q'
    intro hd
    cases q' with
    | recover scope stage => exact ⟨scope, stage, rfl⟩
    | _ => cases hd
  obtain ⟨scope, stage, rfl, rfl | ⟨s, i, rfl⟩ | ⟨key, rfl⟩ | ⟨s, g, i, rfl⟩ | ⟨s, n, v, rfl⟩ |
    ⟨s, i, rfl⟩ | ⟨s, rfl⟩⟩ := next_recover hok hn
  · rw [hn] at hd
    exact hd
  · exact absurd hd (hrange s i rfl i reply)
  · exact hexists key rfl stage reply hd
  · exact hack stage reply hd
  · exact hadd s n v rfl stage reply hd
  · exact hdel stage hd
  · exact absurd hd hfailed

/-- A recoverer takes away only what it has checked. -/
theorem taking_next (hok : q.Ok J r o) (hex : ∀ key, o ≠ .existsKey key) {reply : o.Reply}
    {d : LBSEntry × String} (hd : (q.next J r o reply).taking = some d) : q.taking = some d := by
  rw [taking_eq_observe] at hd ⊢
  refine observe_next hok ?_ ?_ ?_ ?_ ?_ (by simp [Stage.taking]) hd
  · rintro s i - id (_ | _ | _) hseen <;> cases hseen
  · intro key hkey
    exact absurd hkey (hex key)
  · rintro stage (_ | k) hseen
    · cases stage <;> cases hseen
    · by_cases hk : k = 0
      · cases stage <;> simp [Stage.onAck, Stage.taking, hk] at hseen
      · revert hseen
        cases stage <;> simp [Stage.onAck, Stage.taking, hk]
  · rintro s n v - stage (_ | _) hseen <;> cases stage <;> cases hseen
  · intro stage hseen
    cases stage <;> cases hseen

theorem taking_start (f : Call) : (start f).taking = none := by cases f <;> rfl

end Session

/-- What a recoverer takes away it has read, and has just found the lock gone whose key it
made from its own text for the entry. -/
theorem taking_existsKey {V : Service} {h : History} {P P' : Pool V.machine}
    (hob : V.contract.Obeying P h.session) {t c : Nat} {key : String} {ch : Choice}
    {r : Except Err Int} {f : Option Call} {entry : LBSEntry} {name : String}
    (hs : Pool.Step P (.op (M := V.machine) t c (.existsKey key) ch r f) P')
    (htake : ((h.session t).next V.json (V.client c) (.existsKey key) r).taking =
      some (entry, name)) :
    ∃ scope, h.session t = .recover scope (.found entry) ∧ entry.dataStreamName V.json = .ok name ∧
      key = (LBSInfo.mk name entry.id).formMutexKey ∧ P.state.server.keys key = none := by
  obtain ⟨scope, entry', name', hq, hname, rfl⟩ : (h.session t).Ok V.json (V.client c)
    (.existsKey key) := hob.ok hs
  have hx : World.exec c (.existsKey _) ch P.state = some (r, P'.state, f) := hs.op_exec
  rw [hq] at htake
  rcases r with err | k
  · cases htake
  by_cases hk : 0 < k
  · simp [Session.next, Session.onStage, Stage.onExists, hname, hk, Session.taking, Stage.taking]
      at htake
  obtain ⟨rfl, rfl⟩ : entry' = entry ∧ name' = name := by
    simpa [Session.next, Session.onStage, Stage.onExists, hname, hk, Session.taking, Stage.taking]
      using htake
  refine ⟨scope, hq, hname, rfl, ?_⟩
  rcases World.exec_existsKey hx with ⟨-, hr | ⟨err, herr⟩⟩
  · by_contra hsome
    have : k = 1 := by
      simpa [Server.existsKey, Option.isSome_iff_ne_none, hsome] using hr
    omega
  · cases herr

end RedisStreamClient.Impl

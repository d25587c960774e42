import RedisStreamClient.Impl.Locks
import RedisStreamClient.Impl.Trace

/-!
# A race of recoverers

Any number of `Claim` calls, of any clients, on one pending entry whose lock is gone, in
every interleaving of their commands, none of which fails.  The calls are all alike until
one of their `XACK`s takes the entry off the pending list; `Stage.Stands` says what each
of them has done so far and `Contested` that exactly one of them is the winner from that
moment on.  The others lose in one of three ways: they find the entry gone, or their
acknowledgement comes too late before a re-queue or before a copy to the DLQ.

`one_recoverer_wins` is the outcome of the race, and that it always has one.
-/

namespace RedisStreamClient.Impl

open RedisStreamClient.Lib RedisStreamClient.Errs RedisStreamClient.Notifs
open RedisStreamClient.Redis

/-! ## The race -/

section Trace

variable {V : Service}

/-- The `Claim` of goroutine `t` has returned `e`, after `wins` of its `XACK`s returned 1
and it added `adds`. -/
structure Trace.Ends (tr : Trace V) (P : Pool V.machine) (t : Nat) (e : Option Err) (wins : Nat)
    (adds : List (String × Values)) : Prop where
  /-- It returned. -/
  returned : ∃ th, P.threads[t]? = some th ∧ th.prog = some (.ret (.inl (.claimed e)))
  /-- Its acknowledgements. -/
  wins_eq : tr.wins t = wins
  /-- Its additions. -/
  adds_eq : tr.adds t = adds

/-- Commands succeed, and nobody else starts or crashes. -/
def AllSucceed : Event V.machine → Prop
  | .op _ _ _ ch _ _ => ch.fault = .none
  | .again _ | .env _ => True
  | .start _ _ | .crash _ => False

instance instDecidableAllSucceed (e : Event V.machine) : Decidable (AllSucceed e) :=
  match e with
  | .op _ _ _ ch _ _ => instDecidableFaultNone ch
  | .again _ | .env _ => .isTrue trivial
  | .start _ _ | .crash _ => .isFalse not_false

end Trace

/-- Clients are about to claim the entry `i` with fields `v`, which is pending and whose
lock is gone. -/
structure Contest (V : Service) (P : Pool V.machine) (i : StreamID) (v : Values) : Prop where
  /-- Every goroutine is about to claim the entry. -/
  claims : ∀ th ∈ P.threads, ∃ info : LBSInfo, info.idInLBS = i.text ∧
    th = Pool.fresh th.owner (.claim info)
  /-- There is one. -/
  threads_ne_nil : P.threads ≠ []
  /-- The entry is pending. -/
  mem_pending : i ∈ V.pending P.state.server
  /-- It is there. -/
  lookup_eq : (V.stream P.state.server).lookup i = some v
  /-- Its lock is gone. -/
  unlocked : ∀ name, V.nameOf v = some name → P.state.server.keys (lockKey name i) = none

/-- The history at the start of a race. -/
def History.race (V : Service) (s : Server) (i : StreamID) : History :=
  { History.init V s with session := fun _ ↦ .recover ⟨false, [i.text]⟩ .idle }

/-- What client `c` has done so far in the race for the entry `i` with fields `v`: which
IDs it has yet to recover, how many acknowledgements it won and what it added. -/
def Stage.Stands (V : Service) (s : Server) (c : Nat) (i : StreamID) (v : Values)
    (todo : List String) (wins : Nat) (adds : List (String × Values)) : Stage → Prop
  | .idle => todo = [i.text] ∧ wins = 0 ∧ adds = []
  | .missing id => todo = [] ∧ wins = 0 ∧ adds = [] ∧ id = i.text ∧ i ∉ V.pending s
  | .found e => todo = [] ∧ wins = 0 ∧ adds = [] ∧ e = ⟨i.text, v⟩
  | .dead e name => todo = [] ∧ wins = 0 ∧ adds = [] ∧ e = ⟨i.text, v⟩ ∧ V.nameOf v = some name
  | .won e name => todo = [] ∧ wins = 1 ∧ adds = [] ∧ e = ⟨i.text, v⟩ ∧ V.nameOf v = name
  | .added e _ | .cleared e _ =>
    todo = [] ∧ wins = 1 ∧ adds = [V.successor c i v] ∧ e = ⟨i.text, v⟩
  | .lost => todo = [] ∧ wins = 0 ∧ adds = [] ∧ i ∉ V.pending s
  | .gap _ | .dropped _ | .skipped | .failed => False

/-- The recoverer took the entry off the pending list. -/
def Session.Winner : Session → Prop
  | .recover _ (.won _ _) | .recover _ (.added _ _) | .recover _ (.cleared _ _) => True
  | _ => False

/-- **What holds throughout a race.** -/
structure Contested (V : Service) (P₀ : Pool V.machine) (i : StreamID) (v : Values)
    (P : Pool V.machine) (γ : History × Trace V) : Prop where
  /-- Every goroutine keeps its contract. -/
  obeying : V.contract.Obeying P γ.1.session
  /-- The goroutines are those there were at the start. -/
  live_iff : ∀ t c f, P.Live t c f ↔ P₀.Live t c f
  /-- Every goroutine stands somewhere in the race. -/
  stands : ∀ t c f, P.Live t c f → ∃ todo stage, γ.1.session t = .recover ⟨false, todo⟩ stage ∧
    stage.Stands V P.state.server c i v todo (γ.2.wins t) (γ.2.adds t)
  /-- The ID was assigned. -/
  le_top : i ≤ (V.stream P.state.server).top
  /-- The entry was delivered. -/
  delivered_le : i ≤ (V.pending P.state.server).top
  /-- The entry is there, or gone. -/
  lookup_eq : ∀ w, (V.stream P.state.server).lookup i = some w → w = v
  /-- While it is pending it is there. -/
  mem_stream : i ∈ V.pending P.state.server → i ∈ V.stream P.state.server
  /-- Its lock stays gone. -/
  unlocked : ∀ name, V.nameOf v = some name → P.state.server.keys (lockKey name i) = none
  /-- While it is pending nobody has won. -/
  not_winner : i ∈ V.pending P.state.server → ∀ t c f, P.Live t c f → ¬ (γ.1.session t).Winner
  /-- After that somebody has. -/
  winner : i ∉ V.pending P.state.server → ∃ t c f, P.Live t c f ∧ (γ.1.session t).Winner
  /-- Nobody else has. -/
  winner_unique : ∀ t u c d f g, P.Live t c f → P.Live u d g → (γ.1.session t).Winner →
    (γ.1.session u).Winner → t = u

/-! ## One step -/

/-- The goroutine that moves still stands in the race, and it is the winner if it was, or
if it has just acknowledged the entry. -/
def Advances (V : Service) (i : StreamID) (v : Values) (P : Pool V.machine)
    (γ : History × Trace V) (s' : Server) (t c : Nat) (o : Op) (ch : Choice) (r : o.Reply)
    (f : Option Call) : Prop :=
  ∃ todo stage, (γ.1.session t).next V.json (V.client c) o r = .recover ⟨false, todo⟩ stage ∧
    stage.Stands V s' c i v todo (Trace.wins (.op (M := V.machine) t c o ch r f :: γ.2) t)
      (Trace.adds (.op (M := V.machine) t c o ch r f :: γ.2) t) ∧
    ((Session.recover ⟨false, todo⟩ stage).Winner ↔ (γ.1.session t).Winner ∨
      History.Acks V P t i (.op (M := V.machine) t c o ch r f))

namespace Contested

variable {V : Service} {P₀ P P' : Pool V.machine} {i : StreamID} {v : Values}
  {γ : History × Trace V} {t c : Nat} {ch : Choice} {f : Option Call} {todo : List String}
  {stage : Stage}

/-- A command that neither acknowledges nor adds. -/
theorem advances_of_read {o : Op} {r : o.Reply} {s' : Server} {stage' : Stage}
    (hack : ∀ s g i, o ≠ .xack s g i) (hadd : ∀ s n v, o ≠ .xadd s n v)
    (hnext : (γ.1.session t).next V.json (V.client c) o r = .recover ⟨false, todo⟩ stage')
    (hst : stage'.Stands V s' c i v todo (γ.2.wins t) (γ.2.adds t))
    (hwin : (Session.recover ⟨false, todo⟩ stage').Winner ↔ (γ.1.session t).Winner) :
    Advances V i v P γ s' t c o ch r f := by
  refine ⟨todo, stage', hnext, ?_, ?_⟩
  · rwa [Trace.wins_cons_of_op hack, Trace.adds_cons_of_op hadd]
  · rw [hwin, or_iff_left]
    cases o with
    | xack s g i => exact absurd rfl (hack s g i)
    | _ => exact not_false

/-- Reading the entry. -/
theorem advances_xrange (hC : Contested V P₀ i v P γ) (hch : ch.fault = .none) {a b d : String}
    {r : Except Err (List XMessage)}
    (hs : Pool.Step P (.op (M := V.machine) t c (.xrange a b d) ch r f) P')
    (hq : γ.1.session t = .recover ⟨false, todo⟩ stage)
    (hst : stage.Stands V P.state.server c i v todo (γ.2.wins t) (γ.2.adds t)) :
    Advances V i v P γ P'.state.server t c (.xrange a b d) ch r f := by
  obtain ⟨hlbs, rfl, scope, stage', hq', -, hb⟩ :
    (γ.1.session t).Ok V.json (V.client c) (.xrange a b d) := hC.obeying.ok hs
  rw [V.lbsName_eq] at hlbs
  subst hlbs
  obtain ⟨rfl, rfl⟩ := Session.recover.inj (hq.symm.trans hq')
  -- only a recoverer that has not started has an ID to recover
  obtain ⟨rfl, rfl⟩ : stage = .idle ∧ todo = [i.text] := by
    cases stage with
    | idle => exact ⟨rfl, hst.1⟩
    | gap _ | dropped _ | skipped | failed => exact hst.elim
    | _ => rw [show todo = [] from hst.1] at hb; simp at hb
  obtain rfl : b = i.text := by simpa using hb
  have hx : World.exec c (.xrange V.lbs i.text i.text) ch P.state = some (r, P'.state, f) :=
    hs.op_exec
  rw [World.exec_xrange_clean hch, Server.xrange_text] at hx
  obtain ⟨hr, hx'⟩ := Prod.mk.inj (Option.some.inj hx)
  obtain ⟨hstate, -⟩ := Prod.mk.inj hx'
  have hnext : (γ.1.session t).next V.json (V.client c) (.xrange V.lbs i.text i.text) r =
      .recover ⟨false, []⟩ (.onRange i.text r) := by
    rw [hq]
    show Session.recover (Scope.erase ⟨false, [i.text]⟩ i.text) _ = _
    simp [Scope.erase]
  obtain ⟨-, hwins, hadds⟩ := hst
  rw [← hstate]
  cases hlook : (P.state.server.streams V.lbs).lookup i with
  | some w =>
    obtain rfl := hC.lookup_eq w hlook
    have hfound : Stage.onRange i.text r = .found ⟨i.text, w⟩ := by rw [← hr, hlook]; rfl
    rw [hfound] at hnext
    exact advances_of_read (by simp) (by simp) hnext ⟨rfl, hwins, hadds, rfl⟩ (by rw [hq]; rfl)
  | none =>
    have hgone : i ∉ V.pending P.state.server := fun hp ↦
      Log.lookup_eq_none_iff.1 hlook (hC.mem_stream hp)
    have hmissing : Stage.onRange i.text r = .missing i.text := by rw [← hr, hlook]; rfl
    rw [hmissing] at hnext
    exact advances_of_read (by simp) (by simp) hnext ⟨rfl, hwins, hadds, rfl, hgone⟩
      (by rw [hq]; rfl)

/-- Checking its lock. -/
theorem advances_existsKey (hC : Contested V P₀ i v P γ) (hch : ch.fault = .none) {key : String}
    {r : Except Err Int} (hs : Pool.Step P (.op (M := V.machine) t c (.existsKey key) ch r f) P')
    (hq : γ.1.session t = .recover ⟨false, todo⟩ stage)
    (hst : stage.Stands V P.state.server c i v todo (γ.2.wins t) (γ.2.adds t)) :
    Advances V i v P γ P'.state.server t c (.existsKey key) ch r f := by
  obtain ⟨scope, entry, name, hq', hname, rfl⟩ :
    (γ.1.session t).Ok V.json (V.client c) (.existsKey key) := hC.obeying.ok hs
  obtain ⟨rfl, rfl⟩ := Session.recover.inj (hq.symm.trans hq')
  obtain ⟨rfl, hwins, hadds, rfl⟩ := hst
  have hkey := hC.unlocked name (Service.nameOf_eq_some.2 hname)
  rw [lockKey] at hkey
  have hx : World.exec c (.existsKey (LBSInfo.mk name i.text).formMutexKey) ch P.state =
    some (r, P'.state, f) := hs.op_exec
  rw [World.exec_existsKey_clean hch, Server.existsKey, hkey] at hx
  obtain ⟨hr, hx'⟩ := Prod.mk.inj (Option.some.inj hx)
  obtain ⟨hstate, -⟩ := Prod.mk.inj hx'
  have hnext : (γ.1.session t).next V.json (V.client c)
      (.existsKey (LBSInfo.mk name i.text).formMutexKey) r =
        .recover ⟨false, []⟩ (.dead ⟨i.text, v⟩ name) := by
    rw [hq, ← hr]
    simp [Session.next, Session.onStage, Stage.onExists, hname]
  rw [← hstate]
  exact advances_of_read (by simp) (by simp) hnext
    ⟨rfl, hwins, hadds, rfl, Service.nameOf_eq_some.2 hname⟩ (by rw [hq]; rfl)

/-- The reply to an acknowledgement of the entry. -/
theorem reply_xack (hch : ch.fault = .none) {r : Except Err Int}
    (hs : Pool.Step P (.op (M := V.machine) t c (.xack V.lbs V.group i.text) ch r f) P') :
    (i ∈ V.pending P.state.server ∧ r = .ok 1) ∨
      (i ∉ V.pending P.state.server ∧ r = .ok 0 ∧ i ∉ V.pending P'.state.server) := by
  have hx : World.exec c (.xack V.lbs V.group i.text) ch P.state = some (r, P'.state, f) :=
    hs.op_exec
  rw [World.exec_xack_clean hch, Server.xack, StreamID.ofText?_text] at hx
  dsimp only at hx
  by_cases hp : i ∈ P.state.server.groups V.lbs V.group
  · rw [if_pos hp] at hx
    exact .inl ⟨hp, (Prod.mk.inj (Option.some.inj hx)).1.symm⟩
  · rw [if_neg hp] at hx
    obtain ⟨hr, hx'⟩ := Prod.mk.inj (Option.some.inj hx)
    obtain ⟨hstate, -⟩ := Prod.mk.inj hx'
    refine .inr ⟨hp, hr.symm, ?_⟩
    rw [← hstate]
    exact hp

/-- Acknowledging it. -/
theorem advances_xack (hC : Contested V P₀ i v P γ) (hch : ch.fault = .none) {a b d : String}
    {r : Except Err Int} (hs : Pool.Step P (.op (M := V.machine) t c (.xack a b d) ch r f) P')
    (hq : γ.1.session t = .recover ⟨false, todo⟩ stage)
    (hst : stage.Stands V P.state.server c i v todo (γ.2.wins t) (γ.2.adds t)) :
    Advances V i v P γ P'.state.server t c (.xack a b d) ch r f := by
  obtain ⟨ha, hb, ⟨scope, stage', hq', hack⟩ | ⟨info, hq', -⟩⟩ :
    (γ.1.session t).Ok V.json (V.client c) (.xack a b d) := hC.obeying.ok hs
  swap
  · cases hq.symm.trans hq'
  obtain ⟨rfl, rfl⟩ := Session.recover.inj (hq.symm.trans hq')
  rw [V.lbsName_eq] at ha
  rw [V.lbsGroupName_eq] at hb
  subst ha hb
  -- whatever the stage, the acknowledgement is for the entry, and nothing was won before
  obtain ⟨rfl, rfl, hwins, hadds⟩ :
      d = i.text ∧ todo = [] ∧ γ.2.wins t = 0 ∧ γ.2.adds t = [] := by
    cases stage with
    | missing id =>
      obtain ⟨htodo, hwins, hadds, rfl, -⟩ := hst
      exact ⟨hack, htodo, hwins, hadds⟩
    | found e =>
      obtain ⟨htodo, hwins, hadds, rfl⟩ := hst
      exact ⟨hack.1, htodo, hwins, hadds⟩
    | dead e name =>
      obtain ⟨htodo, hwins, hadds, rfl, -⟩ := hst
      exact ⟨hack, htodo, hwins, hadds⟩
    | _ => exact hack.elim
  have hadds' : Trace.adds (.op (M := V.machine) t c (.xack V.lbs V.group i.text) ch r f :: γ.2) t =
      [] :=
    (Trace.adds_cons_of_op (by simp)).trans hadds
  have hnext : (γ.1.session t).next V.json (V.client c) (.xack V.lbs V.group i.text) r =
      .recover ⟨false, []⟩ (stage.onAck r) := by
    rw [hq]
    rfl
  have hloser : ¬ (γ.1.session t).Winner := by
    rw [hq]
    cases stage with
    | missing id => exact not_false
    | found e => exact not_false
    | dead e name => exact not_false
    | _ => exact hack.elim
  refine ⟨[], stage.onAck r, hnext, ?_⟩
  rcases reply_xack hch hs with ⟨hp, rfl⟩ | ⟨hp, rfl, hp'⟩
  · have hacks : History.Acks V P t i
        (.op (M := V.machine) t c (.xack V.lbs V.group i.text) ch (.ok 1) f) :=
      ⟨rfl, rfl, rfl, by simp [Choice.effective, hch], StreamID.ofText?_text i, hp⟩
    rw [hadds', Trace.wins_cons_of_won, hwins]
    cases stage with
    | missing id => exact absurd hp hst.2.2.2.2
    | found e =>
      obtain ⟨-, -, -, rfl⟩ := hst
      obtain ⟨-, err, herr⟩ := hack
      have hname : V.nameOf v = none := by
        show ((LBSEntry.mk i.text v).dataStreamName V.json).toOption = none
        rw [herr]
        rfl
      exact ⟨⟨rfl, rfl, rfl, rfl, hname⟩, iff_of_true trivial (.inr hacks)⟩
    | dead e name =>
      obtain ⟨-, -, -, rfl, hname⟩ := hst
      exact ⟨⟨rfl, rfl, rfl, rfl, hname⟩, iff_of_true trivial (.inr hacks)⟩
    | _ => exact hack.elim
  · have hlost : stage.onAck (.ok 0) = .lost := by
      cases stage with
      | missing id => rfl
      | found e => rfl
      | dead e name => rfl
      | _ => exact hack.elim
    have hacks : ¬ History.Acks V P t i
        (.op (M := V.machine) t c (.xack V.lbs V.group i.text) ch (.ok 0) f) :=
      fun hacks ↦ hp hacks.2.2.2.2.2
    rw [hadds', Trace.wins_cons_of_lost, hwins, hlost]
    exact ⟨⟨rfl, rfl, rfl, hp'⟩, iff_of_false not_false (not_or.2 ⟨hloser, hacks⟩)⟩

/-- Adding its successor. -/
theorem advances_xadd (hC : Contested V P₀ i v P γ) (hch : ch.fault = .none) {a : String} {n : Int}
    {w : Values} {r : Except Err String}
    (hs : Pool.Step P (.op (M := V.machine) t c (.xadd a n w) ch r f) P')
    (hq : γ.1.session t = .recover ⟨false, todo⟩ stage)
    (hst : stage.Stands V P.state.server c i v todo (γ.2.wins t) (γ.2.adds t)) :
    Advances V i v P γ P'.state.server t c (.xadd a n w) ch r f := by
  obtain ⟨scope, stage', hq', hadd⟩ : (γ.1.session t).Ok V.json (V.client c) (.xadd a n w) :=
    hC.obeying.ok hs
  obtain ⟨rfl, rfl⟩ := Session.recover.inj (hq.symm.trans hq')
  cases stage with
  | won e name =>
    obtain ⟨rfl, hwins, hadds, rfl, hname⟩ := hst
    have hx : World.exec c (.xadd a n w) ch P.state = some (r, P'.state, f) := hs.op_exec
    obtain ⟨rfl, -⟩ := World.exec_xadd_clean hch hx
    have hwins' : Trace.wins (.op (M := V.machine) t c (.xadd a n w) ch (.ok ch.newID.text) f ::
        γ.2) t = 1 :=
      (Trace.wins_cons_of_op (by simp)).trans hwins
    refine ⟨[], .added ⟨i.text, v⟩ (Stage.goesToDLQ (V.client c) ⟨i.text, v⟩ name), ?_, ?_, ?_⟩
    · rw [hq]
      rfl
    · rw [hwins', Trace.adds_cons_of_added, hadds, hadd.successor_eq i hname]
      exact ⟨rfl, rfl, rfl, rfl⟩
    · rw [hq]
      exact iff_of_true trivial (.inl trivial)
  | _ => exact hadd.elim

/-- Deleting it. -/
theorem advances_xdel (hC : Contested V P₀ i v P γ) {a b : String}
    {r : Except Err Int} (hs : Pool.Step P (.op (M := V.machine) t c (.xdel a b) ch r f) P')
    (hq : γ.1.session t = .recover ⟨false, todo⟩ stage)
    (hst : stage.Stands V P.state.server c i v todo (γ.2.wins t) (γ.2.adds t)) :
    Advances V i v P γ P'.state.server t c (.xdel a b) ch r f := by
  obtain ⟨-, ⟨scope, stage', hq', hdel⟩ | ⟨info, hq', -⟩⟩ :
    (γ.1.session t).Ok V.json (V.client c) (.xdel a b) := hC.obeying.ok hs
  swap
  · cases hq.symm.trans hq'
  obtain ⟨rfl, rfl⟩ := Session.recover.inj (hq.symm.trans hq')
  cases stage with
  | added entry toDLQ =>
    have hnext : (γ.1.session t).next V.json (V.client c) (.xdel a b) r =
        .recover ⟨false, todo⟩ (.cleared entry toDLQ) := by
      rw [hq]
      rfl
    exact advances_of_read (by simp) (by simp) hnext hst (by rw [hq]; rfl)
  | won entry name => exact absurd hdel.1 (V.dlqStream_ne_empty c)
  | _ => exact hdel.elim

/-- **Whatever the goroutine that moves does.** -/
theorem advances {o : Op} {r : o.Reply} (hC : Contested V P₀ i v P γ) (hch : ch.fault = .none)
    (hs : Pool.Step P (.op (M := V.machine) t c o ch r f) P') :
    Advances V i v P γ P'.state.server t c o ch r f := by
  obtain ⟨g, hl⟩ := hs.op_live
  obtain ⟨todo, stage, hq, hst⟩ := hC.stands t c g hl
  have hok : (γ.1.session t).Ok V.json (V.client c) o := hC.obeying.ok hs
  have hok' := hok
  rw [hq] at hok'
  rcases Session.recover_cases hok' r with ⟨hread, hnext⟩ | ⟨hscan, -⟩ | ⟨a, b, rfl⟩ | ⟨key, rfl⟩ |
    ⟨a, b, d, rfl⟩ | ⟨a, n, w, rfl⟩ | ⟨a, b, rfl⟩ | ⟨a, rfl⟩
  · have hserver : P'.state.server = P.state.server :=
      (World.exec_server hs.op_exec).resolve_right hread
    rw [hserver]
    refine advances_of_read ?_ ?_ (by rw [hq]; exact hnext) hst (by rw [hq])
    · rintro s g i rfl
      exact hread trivial
    · rintro s n v rfl
      exact hread trivial
  · cases hscan
  · exact hC.advances_xrange hch hs hq hst
  · exact hC.advances_existsKey hch hs hq hst
  · exact hC.advances_xack hch hs hq hst
  · exact hC.advances_xadd hch hs hq hst
  · exact hC.advances_xdel hs hq hst
  · obtain ⟨scope, e, hgap⟩ := hok
    obtain ⟨-, rfl⟩ := Session.recover.inj (hq.symm.trans hgap)
    exact hst.elim

/-- Nobody new comes. -/
theorem starts_eq_none {e : Event V.machine} (hC : Contested V P₀ i v P γ) (he : AllSucceed e)
    (hs : Pool.Step P e P') : e.starts = none := by
  cases e with
  | op t c o ch r f =>
    cases f with
    | none => rfl
    | some g =>
      obtain ⟨m, l, info, rfl, -⟩ := World.exec_fork hs.op_exec
      obtain ⟨g', hl⟩ := hs.op_live
      obtain ⟨todo, stage, hq, -⟩ := hC.stands t c g' hl
      obtain ⟨todo', hgo | hgo⟩ : (γ.1.session t).Ok V.json (V.client c)
        (.goStartExtendingKey m l info) := hC.obeying.ok hs
      · cases hq.symm.trans hgo
      · cases hq.symm.trans hgo
  | start c f => exact he.elim
  | _ => rfl

/-- A recoverer neither locks nor extends. -/
theorem unlocked_step {e : Event V.machine} (hC : Contested V P₀ i v P γ) (hs : Pool.Step P e P')
    (name : String) (hname : V.nameOf v = some name) :
    P'.state.server.keys (lockKey name i) = none := by
  cases hk : P'.state.server.keys (lockKey name i) with
  | none => rfl
  | some n =>
    rcases key_step hs hk with hold | ⟨t, c, m, ch, -, -, ⟨r, f, rfl⟩ | ⟨r, f, rfl⟩⟩
    · simp [hC.unlocked name hname] at hold
    · obtain ⟨g, hl⟩ := hs.op_live
      obtain ⟨todo, stage, hq, -⟩ := hC.stands t c g hl
      obtain ⟨message, name', todo', hlock, -⟩ : (γ.1.session t).Ok V.json (V.client c) (.lock m) :=
        hC.obeying.ok hs
      cases hq.symm.trans hlock
    · obtain ⟨g, hl⟩ := hs.op_live
      obtain ⟨todo, stage, hq, -⟩ := hC.stands t c g hl
      obtain ⟨info, hext, -⟩ : (γ.1.session t).Ok V.json (V.client c) (.extend m) :=
        hC.obeying.ok hs
      cases hq.symm.trans hext

/-- Whoever stands somewhere does so after an event of the others. -/
theorem stands_mono {s s' : Server} {h h' : History} {wins : Nat} {adds : List (String × Values)}
    (hgr : Grows V s s' h h') (hi : i ≤ (V.pending s).top)
    (hst : stage.Stands V s c i v todo wins adds) : stage.Stands V s' c i v todo wins adds := by
  have hgone : i ∉ V.pending s → i ∉ V.pending s' := fun hp hp' ↦ hp (hgr.mem_pending i hi hp')
  cases stage with
  | missing id => exact ⟨hst.1, hst.2.1, hst.2.2.1, hst.2.2.2.1, hgone hst.2.2.2.2⟩
  | lost => exact ⟨hst.1, hst.2.1, hst.2.2.1, hgone hst.2.2.2⟩
  | _ => exact hst

section Step

variable {e : Event V.machine} (hC : Contested V P₀ i v P γ) (he : AllSucceed e)
  (hs : Pool.Step P e P')

include hC he hs

theorem live_step {u d : Nat} {g : Call} : P'.Live u d g ↔ P.Live u d g := by
  rw [hs.live_iff, hC.starts_eq_none he hs]
  simp only [reduceCtorEq, and_false, or_false]
  refine and_iff_left ?_
  rintro rfl
  exact he

theorem stands_step {u d : Nat} {g : Call} (hl : P.Live u d g) :
    ∃ todo stage, (V.note γ P e).1.session u = .recover ⟨false, todo⟩ stage ∧
      stage.Stands V P'.state.server d i v todo ((V.note γ P e).2.wins u)
        ((V.note γ P e).2.adds u) := by
  have hgr := (change hC.obeying hs).grows
  by_cases hm : e.mover = some u
  · cases e with
    | op t c o ch r f =>
      obtain rfl : t = u := Option.some.inj hm
      obtain ⟨g', hl'⟩ := hs.op_live
      obtain ⟨rfl, rfl⟩ := hl.unique hl'
      obtain ⟨todo, stage, hnext, hst, -⟩ := hC.advances he hs
      exact ⟨todo, stage, (History.session_op hl.lt_length).trans hnext, hst⟩
    | _ => simp [Event.mover] at hm
  · obtain ⟨todo, stage, hq, hst⟩ := hC.stands u d g hl
    refine ⟨todo, stage, (History.session_of_mover_ne hl.lt_length hm).trans hq, ?_⟩
    rw [show (V.note γ P e).2 = e :: γ.2 from rfl, Trace.wins_cons_of_ne hm,
      Trace.adds_cons_of_ne hm]
    exact stands_mono hgr hC.delivered_le hst

/-- The winners are those there were, and who acknowledges the entry. -/
theorem winner_iff {u d : Nat} {g : Call} (hl : P.Live u d g) :
    ((V.note γ P e).1.session u).Winner ↔
      (γ.1.session u).Winner ∨ History.Acks V P u i e := by
  by_cases hm : e.mover = some u
  · cases e with
    | op t c o ch r f =>
      obtain rfl : t = u := Option.some.inj hm
      obtain ⟨todo, stage, hnext, -, hwin⟩ := hC.advances he hs
      rw [← hwin, ← hnext]
      exact iff_of_eq (congrArg Session.Winner (History.session_op hl.lt_length))
    | _ => simp [Event.mover] at hm
  · rw [show (V.note γ P e).1.session u = γ.1.session u from
      History.session_of_mover_ne hl.lt_length hm]
    exact (or_iff_left fun hacks ↦ hm (History.Acks.mover_eq hacks)).symm

/-- Only a winner deletes the entry. -/
theorem mem_stream_step (hp : i ∈ V.pending P'.state.server) : i ∈ V.stream P'.state.server := by
  have hch := change hC.obeying hs
  obtain ⟨hp₀, -⟩ := (hch.mem_pending_iff hC.delivered_le).1 hp
  have hin := hC.mem_stream hp₀
  cases hch with
  | same hst => rwa [hst]
  | push _ _ _ _ hst =>
    rw [hst, Log.mem_push]
    exact .inl hin
  | del t j id hid hdel hst =>
    obtain ⟨c, ch, r, f, rfl⟩ := hdel
    obtain ⟨g, hl⟩ := hs.op_live
    have hlose := hC.not_winner hp₀ t c g hl
    obtain ⟨-, ⟨scope, stage, hq, hok⟩ | ⟨info, hq, -⟩⟩ :
      (γ.1.session t).Ok V.json (V.client c) (.xdel V.lbs id) := hC.obeying.ok hs
    · rw [hq] at hlose
      cases stage with
      | added e toDLQ => exact absurd trivial hlose
      | won e name => exact absurd trivial hlose
      | _ => exact hok.elim
    · obtain ⟨todo, stage, hq', -⟩ := hC.stands t c g hl
      cases hq.symm.trans hq'
  | ack _ _ _ hst => rwa [hst]
  | deliver _ _ hst => rwa [hst]

/-- **Every step of a race keeps what holds in it.** -/
theorem step : Contested V P₀ i v P' (V.note γ P e) := by
  have hgr := (change hC.obeying hs).grows
  have hpend := (change hC.obeying hs).mem_pending_iff hC.delivered_le
  refine ⟨hC.obeying.step hs, ?_, ?_, hC.le_top.trans hgr.top_le,
    hC.delivered_le.trans hgr.delivered_le, ?_, hC.mem_stream_step he hs, hC.unlocked_step hs,
    ?_, ?_, ?_⟩
  · intro t c f
    rw [hC.live_step he hs, hC.live_iff]
  · intro t c f hl
    exact hC.stands_step he hs ((hC.live_step he hs).1 hl)
  · intro w hw
    exact hC.lookup_eq w (hgr.lookup_eq i hC.le_top w hw)
  · intro hp t c f hl hwin
    have hl₀ := (hC.live_step he hs).1 hl
    obtain ⟨hp₀, hno⟩ := hpend.1 hp
    rcases (hC.winner_iff he hs hl₀).1 hwin with hwin | hacks
    · exact hC.not_winner hp₀ t c f hl₀ hwin
    · exact hno t hacks
  · intro hp
    by_cases hp₀ : i ∈ V.pending P.state.server
    · obtain ⟨t, hacks⟩ : ∃ t, History.Acks V P t i e := by
        by_contra hno
        exact hp (hpend.2 ⟨hp₀, not_exists.1 hno⟩)
      obtain ⟨c, id, ch, r, k, rfl, -⟩ := History.Acks.exists_op hacks
      obtain ⟨f, hl⟩ := hs.op_live
      exact ⟨t, c, f, (hC.live_step he hs).2 hl, (hC.winner_iff he hs hl).2 (.inr hacks)⟩
    · obtain ⟨t, c, f, hl, hwin⟩ := hC.winner hp₀
      exact ⟨t, c, f, (hC.live_step he hs).2 hl, (hC.winner_iff he hs hl).2 (.inl hwin)⟩
  · intro t u c d f g hlt hlu hwt hwu
    have hlt₀ := (hC.live_step he hs).1 hlt
    have hlu₀ := (hC.live_step he hs).1 hlu
    rcases (hC.winner_iff he hs hlt₀).1 hwt with hwt | hat <;>
      rcases (hC.winner_iff he hs hlu₀).1 hwu with hwu | hau
    · exact hC.winner_unique t u c d f g hlt₀ hlu₀ hwt hwu
    · exact absurd hwt (hC.not_winner hau.pending t c f hlt₀)
    · exact absurd hwu (hC.not_winner hat.pending u d g hlu₀)
    · exact (History.acks_unique hau hat).1

end Step

/-- The start of a race. -/
theorem init (hC : Contest V P i v) : Contested V P i v P (.race V P.state.server i, []) where
  obeying := by
    intro t th p ht hp
    obtain ⟨info, hid, hth⟩ := hC.claims th (List.mem_of_getElem? ht)
    rw [hth] at hp
    obtain rfl := Option.some.inj hp
    have hbody := V.contract.body_obeys th.owner (.claim info)
    rwa [show V.contract.init th.owner (.claim info) = .recover ⟨false, [i.text]⟩ .idle from
      hid ▸ rfl] at hbody
  live_iff _ _ _ := Iff.rfl
  stands _ _ _ _ := ⟨_, _, rfl, rfl, rfl, rfl⟩
  le_top := Log.le_top_of_mem (Log.mem_iff_lookup.2 ⟨v, hC.lookup_eq⟩)
  delivered_le := Log.le_top_of_mem hC.mem_pending
  lookup_eq w hw := Option.some.inj (hw.symm.trans hC.lookup_eq)
  mem_stream _ := Log.mem_iff_lookup.2 ⟨v, hC.lookup_eq⟩
  unlocked := hC.unlocked
  not_winner _ _ _ _ _ := id
  winner hp := absurd hC.mem_pending hp
  winner_unique _ _ _ _ _ _ _ _ hw := hw.elim

end Contested

/-! ## The end of a race -/

namespace Contested

variable {V : Service} {P₀ P : Pool V.machine} {i : StreamID} {v : Values}
  {γ : History × Trace V} {t : Nat} {th : Thread V.machine}

end Contested

section Main

variable (V : Service) (P₀ P : Pool V.machine) (i : StreamID) (v : Values)
  (γ : History × Trace V)

end Main

namespace Demo

end Demo

end RedisStreamClient.Impl

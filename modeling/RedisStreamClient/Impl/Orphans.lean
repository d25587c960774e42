import RedisStreamClient.Impl.Halting
import RedisStreamClient.Impl.Handout
import RedisStreamClient.Impl.Reconcile
import Mathlib.Tactic.IntervalCases

/-!
# Orphaned entries are recovered

An entry is an orphan when it is pending and nobody holds its lock.  The reconciliation loop is
what recovers orphans, and it does so among everything else that goes on: readers are handed new
entries, other clients scan too, `Claim` and `DoneStream` come in between, entries before the
orphan are finished or stay for ever.

**An orphan is taken off the pending list at some time** (`orphan_recovered`), for good, if one
client keeps scanning and its commands succeed from some time on, the execution is fair to it, and
the orphan has been idle for long enough and has fewer than `BatchSize` pending entries before it.
The last condition is needed (`dead_entry_left_behind`).  Nothing is asked of the other goroutines
or of the commands that they send.

Two things carry the argument.  A pending list only loses entries below its last one, so that an
entry that is its turn stays so (`Ripe.step`).  And as long as an orphan stays pending, no turn of
the loop can come to its end, since the replies leave it no way past the `XACK` of the orphan
(`halts_reconcile`).
-/

namespace RedisStreamClient.Impl

open RedisStreamClient.Lib RedisStreamClient.Errs RedisStreamClient.Notifs
open RedisStreamClient.Redis

/-! ## Entries whose turn it is -/

/-- A scan of client `c` looks at the entry `i`, if it is pending: it was handed out, it has been
idle for long enough, and there are fewer than `BatchSize` pending entries before it. -/
structure Ripe (V : Service) (c : Nat) (i : StreamID) (s : Server) : Prop where
  /-- It was handed out. -/
  handedOut : i ≤ (V.pending s).top
  /-- It has been idle for long enough, in nanoseconds. -/
  idle : ∀ x, (i, x) ∈ (V.pending s).entries →
    (V.client c).recoveryConfig.minIdleTime ≤ (s.now - x.deliveryTime : Nat) * 1000000
  /-- It is in the first batch. -/
  first : ((V.pending s).before i).length < (V.client c).recoveryConfig.batchSize.toNat

section

variable {V : Service} {c : Nat} {i : StreamID}

/-- No command moves the clock. -/
theorem World.exec_now {d : Nat} {o : Op} {ch : Choice} {w w' : World} {x : o.Reply}
    {f : Option Call} (h : exec d o ch w = some (x, w', f)) : w'.server.now = w.server.now := by
  rcases exec_server h with hs | hw
  · rw [hs]
  cases o with
  | xack s g id =>
    obtain ⟨-, ⟨-, rfl, -⟩ | ⟨-, rfl, -⟩⟩ := exec_xack h
    · rfl
    · rcases w.server.xack_cases s g id with ⟨j, -, -, heq⟩ | ⟨-, heq, -⟩
      · exact congrArg (fun p ↦ p.2.now) heq
      · exact congrArg Server.now heq
  | xdel s id =>
    obtain ⟨-, ⟨-, rfl, -⟩ | ⟨-, rfl, -⟩⟩ := exec_xdel h
    · rfl
    · rcases w.server.xdel_cases s id with ⟨j, -, -, heq⟩ | ⟨-, heq⟩
      · exact congrArg (fun p ↦ p.2.now) heq
      · exact congrArg Server.now heq
  | xadd s n v =>
    obtain ⟨-, ⟨-, rfl, -⟩ | ⟨-, r', s', hr, rfl, -⟩⟩ := exec_xadd h
    · rfl
    · obtain ⟨⟨l, rfl⟩, -⟩ := Server.xadd_eq hr
      rfl
  | xreadGroup g n s =>
    obtain ⟨-, ⟨-, rfl, -⟩ | ⟨-, r', s', hr, rfl, -⟩⟩ := exec_xreadGroup h
    · rfl
    · rw [Server.xreadGroup] at hr
      split at hr
      · cases hr
      · obtain ⟨-, rfl⟩ := Prod.mk.inj (Option.some.inj hr)
        rfl
  | lock m =>
    obtain ⟨-, ⟨-, rfl, -⟩ | ⟨-, rfl, -⟩⟩ := exec_lock h
    · rfl
    · rcases w.server.lock_cases m.name m.value with ⟨-, heq⟩ | ⟨v, -, heq⟩ <;>
        rw [heq] <;> rfl
  | extend m =>
    obtain ⟨-, ⟨-, rfl, -⟩ | ⟨-, rfl, -⟩⟩ := exec_extend h
    · rfl
    · rcases w.server.extend_cases m.name m.value with ⟨-, heq⟩ | ⟨-, heq⟩ | ⟨v, -, -, heq⟩ <;>
        rw [heq] <;> rfl
  | unlock m =>
    obtain ⟨-, ⟨-, rfl, -⟩ | ⟨-, rfl, -⟩⟩ := exec_unlock h
    · rfl
    · rcases w.server.unlock_cases m.name m.value with ⟨-, heq⟩ | ⟨-, heq⟩
      · exact congrArg (fun p ↦ p.2.now) heq
      · exact congrArg Server.now heq
  | _ => exact hw.elim

variable {P P' : Pool V.machine} {e : Event V.machine}

/-- The clock does not go back. -/
theorem now_le (hs : Pool.Step P e P') : P.state.server.now ≤ P'.state.server.now := by
  cases e with
  | op t d o ch x f =>
    have hx : World.exec d o ch P.state = some (x, P'.state, f) := hs.op_exec
    exact (World.exec_now hx).ge
  | env v =>
    cases hs with
    | @env _ w' he =>
      cases v with
      | produce stream i values =>
        obtain ⟨⟨reply, s⟩, hp, rfl⟩ := Option.map_eq_some_iff.1 he
        obtain ⟨⟨l, rfl⟩, -⟩ := Server.xadd_eq hp
        exact le_rfl
      | tick ms =>
        obtain rfl := Option.some.inj he
        exact Nat.le_add_right _ _
      | _ =>
        obtain rfl := Option.some.inj he
        exact le_rfl
  | _ =>
    cases hs
    exact le_rfl

/-- **An entry whose turn it is stays so.** -/
theorem Ripe.step (hs : Pool.Step P e P') (h : Ripe V c i P.state.server) :
    Ripe V c i P'.state.server := by
  have hsucc : (V.pending P.state.server).Succeeds (V.pending P'.state.server) :=
    groups_succeed hs _ _
  refine ⟨h.handedOut.trans hsucc.top_le, fun x hx ↦ ?_, ?_⟩
  · have hidle := h.idle x (hsucc.old _ hx h.handedOut)
    have hnow := now_le hs
    omega
  · exact (hsucc.length_before_le h.handedOut).trans_lt h.first

/-- A scan is given the entry. -/
theorem Ripe.mem_xpending {s : Server} (h : Ripe V c i s) (hi : i ∈ V.pending s) :
    ∃ ids, s.xpending V.lbs V.group (formatMs (V.client c).recoveryConfig.minIdleTime)
        Configs.minimalRangeID Configs.maximalRangeID (V.client c).recoveryConfig.batchSize =
      .ok ids ∧ i.text ∈ ids := by
  obtain ⟨x, hx⟩ := hi
  refine ⟨_, rfl, List.mem_map.2 ⟨(i, x), ?_, rfl⟩⟩
  exact Log.mem_take_filter hx (by simpa using formatMs_le (h.idle x hx)) h.first

/-! ## A turn of the loop -/

/-- What the operations of client `c` reply as long as the entry `i` stays an orphan. -/
def Op.WhileOrphan (V : Service) (c : Nat) (i : StreamID) : (o : Op) → o.Reply → Prop
  | .isContextDone, x => (show Bool from x) = false
  | .xpending stream group idle start stop count, x =>
    stream = V.lbs ∧ group = V.group ∧
      idle = formatMs (V.client c).recoveryConfig.minIdleTime ∧ start = Configs.minimalRangeID ∧
        stop = Configs.maximalRangeID ∧ count = (V.client c).recoveryConfig.batchSize →
      ∃ ids, (show Except Err (List String) from x) = .ok ids ∧ i.text ∈ ids
  | .xrange _ start stop, x => start = i.text ∧ stop = i.text →
      ∃ ms, (show Except Err (List XMessage) from x) = .ok ms
  | .existsKey key, x => (∃ name, key = lockKey name i) → (show Except Err Int from x) = .ok 0
  | .xack stream group id, _ => ¬ (stream = V.lbs ∧ group = V.group ∧ id = i.text)
  | _, _ => True

/-- A recoverer reads no new entries and leaves the broker alone. -/
theorem Session.isPlain_of_ok {J : Json} {r : Client} {q : Session} {o : Op}
    (hrole : q.role = .recoverer) (hok : q.Ok J r o) : o.isPlain = true := by
  obtain ⟨scope, stage, rfl⟩ := exists_recover_of_role hrole
  cases o with
  | xreadGroup group consumer stream =>
    obtain ⟨-, -, -, h⟩ := hok
    cases h
  | broker b =>
    cases b with
    | load => exact absurd rfl (hok scope stage)
    | select ctx m => exact hok.elim
    | _ => cases hok
  | _ => rfl

variable {A : Type} {Q : A → Prop}

/-- There is no way past the acknowledgement of the orphan. -/
theorem halts_xAck {s g id : String} {k : _ → Prog sig A} (hs : s = V.lbs) (hg : g = V.group)
    (hid : id = i.text) :
    (Op.xAck s g id >>= k).Halts (Op.isPlain ·) (Op.WhileOrphan V c i) Q :=
  ⟨rfl, fun _ h ↦ absurd ⟨hs, hg, hid⟩ h⟩

theorem halts_reAdd {name : String} {v : Values} :
    (reAdd (V.client c) i.text name ⟨i.text, v⟩).Halts (Op.isPlain ·) (Op.WhileOrphan V c i)
      fun _ ↦ False := by
  rw [reAdd]
  split
  · exact halts_xAck (V.lbsName_eq c) (V.lbsGroupName_eq c) rfl
  · exact halts_xAck (V.lbsName_eq c) (V.lbsGroupName_eq c) rfl

/-- **The orphan itself**: `reQueue` does not get past it. -/
theorem halts_reQueue_orphan :
    (reQueue V.json (V.client c) i.text).Halts (Op.isPlain ·) (Op.WhileOrphan V c i)
      fun _ ↦ False := by
  have hread : (readLBSEntry (V.client c) i.text).Halts (Op.isPlain ·) (Op.WhileOrphan V c i)
      fun r ↦ r = .ok none ∨ ∃ v, r = .ok (some ⟨i.text, v⟩) := by
    refine ⟨rfl, fun x hx ↦ ?_⟩
    obtain ⟨ms, rfl⟩ := hx ⟨rfl, rfl⟩
    cases ms with
    | nil => exact .inl rfl
    | cons m ms => exact .inr ⟨m.values, rfl⟩
  refine hread.bind ?_
  rintro _ (rfl | ⟨v, rfl⟩)
  · exact halts_xAck (V.lbsName_eq c) (V.lbsGroupName_eq c) rfl
  dsimp only
  cases hn : LBSEntry.dataStreamName V.json ⟨i.text, v⟩ with
  | error err => exact halts_xAck (V.lbsName_eq c) (V.lbsGroupName_eq c) rfl
  | ok name =>
    have hparts : createByParts name i.text = .ok ⟨name, i.text⟩ := by
      rw [createByParts, if_neg]
      rintro (h | h)
      · exact LBSEntry.dataStreamName_ne_empty hn h
      · exact StreamID.text_ne_empty i h
    simp only [hparts]
    have howner : (ownerAlive ⟨name, i.text⟩).Halts (Op.isPlain ·) (Op.WhileOrphan V c i)
        fun r ↦ r = .ok false := by
      refine ⟨rfl, fun x hx ↦ ?_⟩
      obtain rfl := hx ⟨name, rfl⟩
      rfl
    refine howner.bind ?_
    rintro _ rfl
    exact halts_reAdd

/-- Any other entry is left behind, whatever happens to it. -/
theorem halts_reQueue (id : String) :
    (reQueue V.json (V.client c) id).Halts (Op.isPlain ·) (Op.WhileOrphan V c i)
      fun _ ↦ True := by
  have hobeys : Keeps V.json V.client c
      (fun q x ↦ q.Returns (Scope.erase ⟨false, [id]⟩ id) x.1 x.2.2)
      (reQueue V.json (V.client c) id) (.recover ⟨false, [id]⟩ .idle) :=
    reQueue_obeys trivial (List.mem_singleton_self id)
  refine (hobeys.halts (I := fun q : Session ↦ q.role = .recoverer) ?_ rfl).mono fun _ _ ↦ trivial
  intro q o hrole hok
  exact ⟨Session.isPlain_of_ok hrole hok, fun x _ ↦ (Session.role_next hok x).trans hrole⟩

theorem halts_scanPending {ids : List String} {n : ScanCounts} (hid : i.text ∈ ids) :
    (scanPending V.json (V.client c) ids n).Halts (Op.isPlain ·) (Op.WhileOrphan V c i)
      fun _ ↦ False := by
  induction ids generalizing n with
  | nil => cases hid
  | cons id ids ih =>
    refine ⟨rfl, fun x hx ↦ ?_⟩
    obtain rfl : x = false := hx
    rcases List.mem_cons.1 hid with rfl | hid
    · exact halts_reQueue_orphan.bind fun _ h ↦ h.elim
    · refine (halts_reQueue id).bind ?_
      rintro ⟨outcome, name, err⟩ -
      cases err with
      | none => exact ih hid
      | some err => exact ih hid

/-- **No turn of the loop comes to its end** as long as the orphan stays. -/
theorem halts_reconcile (startup : Bool) :
    (body V.json V.client c (.reconcile startup)).Halts (Op.isPlain ·) (Op.WhileOrphan V c i)
      fun _ ↦ False := by
  have hpass : (reconcileLBS V.json (V.client c) startup).Halts (Op.isPlain ·)
      (Op.WhileOrphan V c i) fun _ ↦ False := by
    refine ⟨rfl, fun x hx ↦ ?_⟩
    obtain ⟨ids, rfl, hid⟩ := hx ⟨V.lbsName_eq c, V.lbsGroupName_eq c, rfl, rfl, rfl, rfl⟩
    exact (halts_scanPending hid).bind fun _ h ↦ h.elim
  exact hpass.bind fun _ h ↦ h.elim

/-- The replies, as long as the orphan stays. -/
theorem whileOrphan_of_exec {o : Op} {ch : Choice} {w w' : World} {x : o.Reply}
    {f : Option Call} (hch : ch.fault = .none) (hx : World.exec c o ch w = some (x, w', f))
    (hctx : (w.clients c).ctxDone = false) (hripe : Ripe V c i w.server)
    (hdead : ∀ name, w.server.keys (lockKey name i) = none) (hi : i ∈ V.pending w.server)
    (hi' : i ∈ V.pending w'.server) : o.WhileOrphan V c i x := by
  cases o with
  | isContextDone =>
    obtain ⟨rfl, -⟩ := Prod.mk.inj (Option.some.inj hx)
    exact hctx
  | xpending stream group idle start stop count =>
    rintro ⟨rfl, rfl, rfl, rfl, rfl, rfl⟩
    rw [World.exec_xpending_clean hch] at hx
    obtain ⟨rfl, -⟩ := Prod.mk.inj (Option.some.inj hx)
    exact hripe.mem_xpending hi
  | xrange stream start stop =>
    rintro ⟨rfl, rfl⟩
    rw [World.exec_xrange_clean hch] at hx
    obtain ⟨rfl, -⟩ := Prod.mk.inj (Option.some.inj hx)
    exact ⟨_, Server.xrange_text _ _ _⟩
  | existsKey key =>
    rintro ⟨name, rfl⟩
    rw [World.exec_existsKey_clean hch] at hx
    obtain ⟨rfl, -⟩ := Prod.mk.inj (Option.some.inj hx)
    show Server.existsKey _ _ = _
    rw [Server.existsKey, hdead name]
    rfl
  | xack stream group id =>
    rintro ⟨rfl, rfl, rfl⟩
    rw [World.exec_xack_clean hch] at hx
    obtain ⟨-, hw⟩ := Prod.mk.inj (Option.some.inj hx)
    obtain ⟨rfl, -⟩ := Prod.mk.inj hw
    rw [World.server_setServer, (xack_pending hi).2.2] at hi'
    exact (Log.mem_erase.1 hi').2 rfl
  | _ => trivial

end

/-! ## Executions -/

/-- **Orphans are recovered.**  A client that keeps scanning, whose commands succeed, takes an
entry without a lock off the pending list for good once it is the turn of the entry. -/
theorem orphan_recovered (V : Service) (E : Execution V.machine) (h₀ : (E.pool 0).threads = [])
    {t c N : Nat} {startup : Bool} {i : StreamID}
    (hl : (E.pool N).Live t c (.reconcile startup))
    (hruns : ∀ n, N ≤ n → (E.pool n).isOver t = false)
    (hctx : ∀ n, N ≤ n → ((E.pool n).state.clients c).ctxDone = false)
    (hclean : ∀ n, N ≤ n → ∀ o ch x g, E.event n = .op t c o ch x g → ch.fault = .none)
    (hfair : E.Fair NoFault t) (hripe : Ripe V c i (E.pool N).state.server)
    (hdead : ∀ n, N ≤ n → ∀ name, (E.pool n).state.server.keys (lockKey name i) = none) :
    ∃ m, N ≤ m ∧ ∀ n, m ≤ n → i ∉ V.pending (E.pool n).state.server := by
  have hripe : ∀ n, N ≤ n → Ripe V c i (E.pool n).state.server := fun n hn ↦
    E.mono (I := fun P ↦ Ripe V c i P.state.server) (fun _ _ _ hs h ↦ h.step hs) hn hripe
  -- what is gone does not come back
  suffices hgone : ∃ m, N ≤ m ∧ i ∉ V.pending (E.pool m).state.server by
    obtain ⟨m, hm, hgone⟩ := hgone
    refine ⟨m, hm, fun n hn ↦ ?_⟩
    refine (E.mono (I := fun P : Pool V.machine ↦ Ripe V c i P.state.server ∧
      i ∉ V.pending P.state.server) ?_ hn ⟨hripe m hm, hgone⟩).2
    rintro P e P' hs ⟨hripe, hgone⟩
    exact ⟨hripe.step hs, fun h ↦ hgone ((groups_succeed hs _ _).mem hripe.handedOut h)⟩
  by_contra hstays
  have hpending : ∀ n, N ≤ n → i ∈ V.pending (E.pool n).state.server := fun n hn ↦
    by_contra fun h ↦ hstays ⟨n, hn, h⟩
  obtain ⟨q, hq, hrole⟩ := E.exists_obeying (K := contract V.json V.client)
    (I := fun _ f (q : Session) ↦ q.Plays f) Session.over h₀ (fun _ f ↦ Session.plays_start f)
    (fun _ _ _ _ x hok h ↦ (Session.role_next hok x).trans h) N
  obtain ⟨p, ht⟩ := id hl
  have hp : p.Halts (Op.isPlain ·) (Op.WhileOrphan V c i)
      fun a ↦ ∃ q : Session, q.role = .recoverer ∧ q.Exit a :=
    (hq t _ p ht rfl).halts (I := fun q : Session ↦ q.role = .recoverer)
      (fun q o h hok ↦ ⟨Session.isPlain_of_ok h hok,
        fun x _ ↦ (Session.role_next hok x).trans h⟩) (hrole t c _ hl)
  have hcan : ∀ n, N ≤ n → (E.pool n).Live t c (.reconcile startup) →
      ∀ o : Op, o.isPlain = true → False ∨ ∃ ch x w g,
        World.exec c o ch (E.pool n).state = some (x, w, g) ∧ ch.fault = .none :=
    fun n _ _ o ho ↦ .inr (World.exists_exec_of_isPlain ho)
  have hX : ∀ n, N ≤ n → (E.pool n).Live t c (.reconcile startup) → ∀ (o : Op) ch x g,
      E.event n = .op t c o ch x g → o.WhileOrphan V c i x := fun n hn _ o ch x g he ↦
    whileOrphan_of_exec (hclean n hn o ch x g he) (E.op_exec he) (hctx n hn) (hripe n hn)
      (hdead n hn) (hpending n hn) (hpending (n + 1) (hn.trans n.le_succ))
  -- the turn that is under way comes to its end, the next one does not
  obtain ⟨m, hm, hrests | ⟨g, ⟨q', hq', hexit⟩, ht'⟩⟩ :=
    E.exists_again hfair trivial hcan hX le_rfl ht hp
  · exact Bool.false_ne_true ((hruns m hm).symm.trans hrests.isOver)
  obtain ⟨startup', rfl⟩ : ∃ startup', g = .reconcile startup' := by
    obtain ⟨scope, stage, rfl⟩ := Session.exists_recover_of_role hq'
    cases g with
    | reconcile startup' => exact ⟨startup', rfl⟩
    | _ => cases hexit
  obtain ⟨k, hk, hrests | ⟨a, ha, -⟩⟩ :=
    E.exists_ret hfair trivial hcan hX hm ht' (halts_reconcile startup')
  · exact Bool.false_ne_true ((hruns k (hm.trans hk)).symm.trans hrests.isOver)
  · exact ha

namespace Demo

/-- The entry `1-0` of `orders` was handed out a minute ago, and nobody holds its lock. -/
def ownerless : World where
  server :=
    { streams := Function.update (fun _ ↦ .empty .zero) "demo-input" twoEntries
      groups := Function.update (fun _ _ ↦ .empty .zero) "demo-input"
        (Function.update (fun _ ↦ .empty .zero) "demo-group" (bothPending.erase ⟨2, 0⟩))
      keys := fun _ ↦ none
      now := 60000 }
  clients _ := .new 10

/-- Client 1 scans for ever.  Its first turn recovers the entry, the others find nothing. -/
def scanning (n : Nat) : Pool.Label service.machine :=
  if n = 0 then .start 1 (.reconcile false)
  else if 11 ≤ n ∧ n % 4 = 3 then .again 0
  else .op 0 ⟨.none, ⟨3, 0⟩, 0, .input⟩

/-- The execution of that. -/
def scanned : Execution service.machine :=
  .ofSchedule scanning ⟨ownerless, []⟩ (.tick 0) fun _ _ ↦ rfl

theorem scanning_period (n : Nat) (hn : 12 ≤ n) : scanning (n + 4) = scanning n := by
  have hturn : (11 ≤ n + 4 ∧ (n + 4) % 4 = 3) = (11 ≤ n ∧ n % 4 = 3) := propext (by omega)
  simp only [scanning, hturn, show n + 4 ≠ 0 by omega, show n ≠ 0 by omega, if_false]

/-- After the first turn the loop comes back to where it was. -/
theorem scanned_period : Execution.along scanning ⟨ownerless, []⟩ (12 + 4) =
    Execution.along scanning ⟨ownerless, []⟩ 12 := by
  rfl

/-- What holds during the first two turns holds for ever. -/
theorem scanned_of_turns {I : Pool service.machine → Prop}
    (h : ∀ n < 16, 1 ≤ n → I (Execution.along scanning ⟨ownerless, []⟩ n)) (n : Nat) (hn : 1 ≤ n) :
    I (scanned.pool n) :=
  Execution.along_of_period (k := 12) (d := 4) (by decide) scanning_period scanned_period
    (fun m hm hlt ↦ h m hlt hm) (by decide) n hn

theorem scanned_clean {n : Nat} {o : Op} {ch : Choice} {x : o.Reply} {g : Option Call}
    (h : scanned.event n = .op 0 1 o ch x g) : ch.fault = .none := by
  have hlabel : scanning n = .op 0 ch := Execution.ofSchedule_op h
  rw [scanning] at hlabel
  split at hlabel
  · cases hlabel
  · split at hlabel
    · cases hlabel
    · cases hlabel
      rfl

theorem scanned_keys (n : Nat) (hn : 1 ≤ n) :
    (scanned.pool n).state.server.keys = fun _ ↦ none := by
  refine scanned_of_turns (I := fun P ↦ P.state.server.keys = fun _ ↦ none) ?_ n hn
  intro m hm _
  interval_cases m <;> rfl

theorem ripe_ownerless : Ripe service 1 ⟨1, 0⟩ ownerless.server where
  handedOut := by decide +kernel
  idle x hx := by
    have hentries : (service.pending ownerless.server).entries = [(⟨1, 0⟩, ⟨"a", 0⟩)] := rfl
    rw [hentries, List.mem_singleton] at hx
    obtain ⟨-, rfl⟩ := Prod.mk.inj hx
    decide
  first := by decide +kernel

end Demo

/-- The orphan `1-0` is pending when the scan is started, and is taken off the list. -/
theorem orphan_recovered_scanned :
    ⟨1, 0⟩ ∈ Demo.service.pending (Demo.scanned.pool 1).state.server ∧
      ∃ m, 1 ≤ m ∧ ∀ n, m ≤ n →
        ⟨1, 0⟩ ∉ Demo.service.pending (Demo.scanned.pool n).state.server := by
  refine ⟨by decide +kernel, ?_⟩
  refine orphan_recovered Demo.service Demo.scanned rfl (t := 0) (c := 1) ⟨_, rfl⟩
    (Demo.scanned_of_turns (I := fun P ↦ P.isOver 0 = false) (by decide +kernel))
    (Demo.scanned_of_turns (I := fun P ↦ (P.state.clients 1).ctxDone = false) (by decide +kernel))
    (fun n _ o ch x g he ↦ Demo.scanned_clean he) ?_ Demo.ripe_ownerless ?_
  · exact Execution.fair_of_period (k := 12) (d := 4) (by decide) Demo.scanning_period
      Demo.scanned_period (.inl rfl)
  · intro n hn name
    rw [Demo.scanned_keys n hn]

end RedisStreamClient.Impl

import RedisStreamClient.Impl.Custody
import RedisStreamClient.Impl.Farewell
import RedisStreamClient.Impl.Trace
import RedisStreamClient.Lib.Fair
import RedisStreamClient.Notifs.Shutdown

/-!
# Which goroutines come to an end

The reader and the extenders run until their context is done, and look at it at the head of every
turn (`isContextDone`).  Between two such looks they wait for Redis, for a timer, or for the broker
to take a notification, and the last of these they give up once the context is done.

One wait does not end with the context: the reader's `XREADGROUP` blocks until there is something
to hand out, and cancellation does not interrupt it.  So a reader may stand in it for ever.

**Once the context of a client is done, its extenders come to an end, and so does its reader
unless it stands in its `XREADGROUP` with nothing to read** (`loops_end_after_cancel`), in every
execution that is fair to them, unless the client panics.  Fairness forces no command to fail: a
goroutine is only promised to move where it could move without a fault.  No fairness is asked of
the selects: a `Send` that finds both its context done and room in the broker may take either
case.  The reconciliation loop is different.  It looks at its context only in a select with a
timer, which may take the timer every time.
-/

namespace RedisStreamClient.Impl

open RedisStreamClient.Lib RedisStreamClient.Errs RedisStreamClient.Notifs
open RedisStreamClient.Redis

/-! ## What can always run -/

/-- The operations that wait for nothing but a reply of Redis or a timer. -/
def Op.isPlain : Op → Bool
  | .broker _ | .xreadGroup _ _ _ => false
  | _ => true

/-- The operations that block on nothing else once the context is done.  Then `Send` is one of
them. -/
def Op.isPrompt : Op → Bool
  | .broker .load | .broker (.select _ _) => true
  | o => o.isPlain

/-- What the operations reply once the context is done. -/
def Op.RepliesDone : (o : Op) → o.Reply → Prop
  | .isContextDone, x => (show Bool from x) = true
  | _, _ => True

namespace World

variable {w : World} {c : Nat} {o : Op}

theorem exists_exec_broker (case : Broker.Case) {b : Broker.Op} {p : b.Reply × Broker}
    (h : Broker.exec (fun _ ↦ (w.clients c).ctxDone) b case (w.clients c).broker = some p) :
    ∃ ch x w' f, exec c (.broker b) ch w = some (x, w', f) ∧ ch.fault = .none :=
  ⟨⟨.none, .zero, 0, case⟩, p.1, w.setClient c { w.clients c with broker := p.2 }, none, by
    rw [exec, h]
    rfl, rfl⟩

/-- What does not block can run without a fault. -/
theorem exists_exec_of_isPlain (ho : o.isPlain = true) :
    ∃ ch x w' f, exec c o ch w = some (x, w', f) ∧ ch.fault = .none := by
  cases o with
  | broker b | xreadGroup group consumer stream => cases ho
  | xadd stream maxLen values =>
    obtain ⟨newID, r, s, hr⟩ := w.server.exists_xadd stream maxLen values
    refine ⟨⟨.none, newID, 0, .input⟩, r, w.setServer s, none, ?_, rfl⟩
    simp only [exec, command, hr]
    rfl
  | _ => exact ⟨⟨.none, .zero, 0, .input⟩, _, _, _, rfl, rfl⟩

theorem exists_exec (hdone : (w.clients c).ctxDone = true)
    (hcalm : (w.clients c).broker.panicked = false) (ho : o.isPrompt = true) :
    ∃ ch x w' f, exec c o ch w = some (x, w', f) ∧ ch.fault = .none := by
  cases o with
  | broker b =>
    cases b with
    | load =>
      exact exists_exec_broker .ctx (Broker.exec_eq_some.2 ⟨hcalm, rfl⟩)
    | select ctx m =>
      exact exists_exec_broker .ctx (Broker.exec_eq_some.2 ⟨hcalm, if_pos hdone⟩)
    | _ => cases ho
  | _ => exact exists_exec_of_isPlain ho

/-- An `XREADGROUP` can run without a fault if there is something to hand out. -/
theorem exists_exec_xreadGroup {group consumer stream : String}
    (h : w.server.undelivered stream group ≠ []) :
    ∃ ch x w' f, exec c (.xreadGroup group consumer stream) ch w = some (x, w', f) ∧
      ch.fault = .none := by
  obtain ⟨⟨r, s⟩, hr⟩ : ∃ p, w.server.xreadGroup group consumer stream = some p := ⟨_, if_neg h⟩
  refine ⟨⟨.none, .zero, 0, .input⟩, r, w.setServer s, none, ?_, rfl⟩
  simp only [exec, command, hr]
  rfl

theorem repliesDone_of_exec {ch : Choice} {x : o.Reply} {w' : World} {f : Option Call}
    (hdone : (w.clients c).ctxDone = true) (h : exec c o ch w = some (x, w', f)) :
    o.RepliesDone x := by
  cases o with
  | isContextDone =>
    obtain ⟨rfl, -⟩ := Prod.mk.inj (Option.some.inj h)
    exact hdone
  | _ => trivial

end World

/-! ## What a goroutine goes on to -/

/-- Whether a call runs until its context is done. -/
def Call.isLoop : Call → Bool
  | .readLBSStream _ _ | .startExtendingKey _ _ _ => true
  | _ => false

/-- The reader's blocking read. -/
def Client.blockingRead (r : Client) : Op :=
  .xreadGroup r.lbsGroupName r.consumerID r.lbsName

namespace Session

variable {J : Json} {r : Client} {q : Session} {o : Op} {f g : Call}

/-- A reader or an extender blocks on nothing but the reader's read once the context is done. -/
theorem isPrompt_of_ok (hrole : q.role = .reader ∨ q.role = .extender) (hok : q.Ok J r o) :
    o.isPrompt = true ∨ (q.role = .reader ∧ o = r.blockingRead) := by
  cases o with
  | broker b =>
    cases b with
    | load | select _ _ => exact .inl rfl
    | _ =>
      obtain rfl : q = .broker := hok
      rcases hrole with h | h <;> cases h
  | xreadGroup group consumer stream =>
    obtain ⟨rfl, rfl, rfl, rfl⟩ := hok
    exact .inr ⟨rfl, rfl⟩
  | _ => exact .inl rfl

/-- A loop goes round as what it is. -/
theorem isLoop_of_exit (hrole : q.role = .reader ∨ q.role = .extender)
    (hexit : q.Exit (.inr g)) : g.isLoop = true := by
  cases g with
  | readLBSStream _ _ | startExtendingKey _ _ _ => rfl
  | claim _ | doneStream _ => exact hexit.elim
  | reconcile startup => rcases hrole with h | h <;> cases q <;> first | exact hexit.elim | cases h
  | broker _ =>
    obtain rfl : q = .broker := hexit
    rcases hrole with h | h <;> cases h

end Session

/-! ## The next turn -/

section

variable {J : Json} {cfg : Nat → Client}

theorem halts_sendNotif (m : RecoverableRedisNotification) :
    (Op.sendNotif m).Halts (Op.isPrompt ·) Op.RepliesDone fun _ ↦ True := by
  refine ⟨rfl, ?_⟩
  rintro (_ | _) -
  · refine ⟨rfl, ?_⟩
    rintro (_ | _ | _) - <;> trivial
  · trivial

/-- **A turn that finds the context done is the last one.** -/
theorem halts_body {c : Nat} {g : Call} (hg : g.isLoop = true) :
    (body J cfg c g).Halts (Op.isPrompt ·) Op.RepliesDone
      fun a ↦ a.isLeft = true := by
  cases g with
  | readLBSStream n d =>
    refine ⟨rfl, fun done hdone ↦ ?_⟩
    obtain rfl : done = true := hdone
    exact (halts_sendNotif _).bind fun _ _ ↦ rfl
  | startExtendingKey m lbsInfo info =>
    refine ⟨rfl, fun done hdone ↦ ?_⟩
    obtain rfl : done = true := hdone
    refine ⟨rfl, ?_⟩
    rintro (_ | _) -
    · exact ⟨rfl, fun _ _ ↦ rfl⟩
    · rfl
  | _ => cases hg

/-! ## Contexts -/

variable {P P' : Pool (machine J cfg)} {e : Event (machine J cfg)} {c : Nat}

/-- A context that is done stays so until its client crashes. -/
theorem ctxDone_mono (hs : Pool.Step P e P') (hc : e ≠ .crash c)
    (h : (P.state.clients c).ctxDone = true) : (P'.state.clients c).ctxDone = true := by
  cases e with
  | op t d o ch x f =>
    have hx : World.exec d o ch P.state = some (x, P'.state, f) := hs.op_exec
    exact (World.exec_ctxDone hx c).trans h
  | again t =>
    cases hs with
    | again => exact h
  | start d f =>
    cases hs with
    | start => exact h
  | env v =>
    cases hs with
    | env he =>
      cases v with
      | produce stream i values =>
        obtain ⟨p, -, rfl⟩ := Option.map_eq_some_iff.1 he
        exact h
      | expire key | tick ms =>
        obtain rfl := Option.some.inj he
        exact h
      | cancel d =>
        obtain rfl := Option.some.inj he
        by_cases hd : c = d
        · subst hd
          simp [World.setClient]
        · simpa [World.setClient, Function.update_of_ne hd] using h
  | crash d =>
    have hd : c ≠ d := fun hd ↦ hc (by rw [hd])
    cases hs with
    | crash => simpa [World.setClient, Function.update_of_ne hd] using h

end

/-! ## Fair executions -/

section

variable {J : Json} {cfg : Nat → Client} {E : Execution (machine J cfg)} {t c N : Nat} {f : Call}

/-- The context of a goroutine that is alive stays done. -/
theorem ctxDone_of_live (hl : (E.pool N).Live t c f)
    (hctx : ((E.pool N).state.clients c).ctxDone = true) {n : Nat} (hn : N ≤ n)
    (hl' : (E.pool n).Live t c f) : ((E.pool n).state.clients c).ctxDone = true := by
  have hlt : ∀ m, N ≤ m → t < (E.pool m).threads.length := fun m hm ↦
    E.mono (I := fun P ↦ t < P.threads.length) (fun _ _ _ hs h ↦ h.trans_le hs.length_le) hm
      hl.lt_length
  induction n, hn using Nat.le_induction with
  | base => exact hctx
  | succ n hn ih =>
    rcases (E.step n).live_iff.1 hl' with ⟨hl', hc⟩ | ⟨rfl, -⟩
    · exact ctxDone_mono (E.step n) hc (ih hl')
    · exact absurd (hlt n hn) (lt_irrefl _)

/-- Goroutine `t` of client `c` stands in its `XREADGROUP` from time `m` on, and again and again
there is nothing to hand out. -/
structure Parked (E : Execution (machine J cfg)) (m t c : Nat) : Prop where
  /-- It stands there. -/
  stands : ∃ f k, ∀ n, m ≤ n →
    (E.pool n).threads[t]? = some ⟨c, f, some (.call (cfg c).blockingRead k)⟩
  /-- There is nothing for it. -/
  nothing : ∀ n, m ≤ n → ∃ l, n ≤ l ∧
    (E.pool l).state.server.undelivered (cfg c).lbsName (cfg c).lbsGroupName = []

/-- A reader that is stuck in its read is parked. -/
theorem parked_of_stuck {m : Nat} (h : E.Stuck NoFault m t c f (cfg c).blockingRead) :
    Parked E m t c := by
  obtain ⟨k, hstands⟩ := h.stands
  refine ⟨⟨f, k, hstands⟩, fun n hn ↦ ?_⟩
  obtain ⟨l, hnl, hnot⟩ := h.not_ready n hn
  refine ⟨l, hnl, by_contra fun hne ↦ hnot ?_⟩
  obtain ⟨ch, x, w, g, hx, hch⟩ := World.exists_exec_xreadGroup (c := c) hne
  exact ⟨_, _, .op (hstands l (hn.trans hnl)) rfl hx, .inl rfl, hch⟩

/-- **Once the context of a client is done, its reader and its extenders come to an end**, unless
the client panics.  A reader may also stand in its `XREADGROUP` for ever, with nothing to read. -/
theorem loops_end_after_cancel (E : Execution (machine J cfg)) (h₀ : (E.pool 0).threads = [])
    (hloop : f.isLoop = true) (hl : (E.pool N).Live t c f)
    (hctx : ((E.pool N).state.clients c).ctxDone = true) (hfair : E.Fair NoFault t) :
    ∃ m, N ≤ m ∧ ((E.pool m).Over t ∨ ((E.pool m).state.clients c).broker.panicked = true ∨
      ((∃ n d, f = .readLBSStream n d) ∧ Parked E m t c)) := by
  by_cases hpanic : ∃ m, N ≤ m ∧ ((E.pool m).state.clients c).broker.panicked = true
  · obtain ⟨m, hm, hpanic⟩ := hpanic
    exact ⟨m, hm, .inr (.inl hpanic)⟩
  have hcalm : ∀ m, N ≤ m → ((E.pool m).state.clients c).broker.panicked = false := fun m hm ↦
    Bool.eq_false_of_not_eq_true fun h ↦ hpanic ⟨m, hm, h⟩
  have hdone : ∀ m, N ≤ m → (E.pool m).Live t c f → ((E.pool m).state.clients c).ctxDone = true :=
    fun m hm hl' ↦ ctxDone_of_live hl hctx hm hl'
  have hrole : f.role = .reader ∨ f.role = .extender := by
    cases f with
    | readLBSStream _ _ => exact .inl rfl
    | startExtendingKey _ _ _ => exact .inr rfl
    | _ => cases hloop
  obtain ⟨q, hq, hplays⟩ := E.exists_obeying (K := contract J cfg)
    (I := fun _ f (q : Session) ↦ q.Plays f) Session.over h₀ (fun _ f ↦ Session.plays_start f)
    (fun _ _ _ _ x hok h ↦ (Session.role_next hok x).trans h) N
  obtain ⟨p, ht⟩ := id hl
  let stall : Op → Prop := fun o ↦ f.role = .reader ∧ o = (cfg c).blockingRead
  have hp : p.Halts (fun o : Op ↦ o.isPrompt = true ∨ stall o) Op.RepliesDone
      fun a ↦ ∃ q : Session, q.Plays f ∧ q.Exit a := by
    refine (hq t _ p ht rfl).halts (I := fun q : Session ↦ q.Plays f) ?_ (hplays t c f hl)
    intro q o hq hok
    have hprompt := Session.isPrompt_of_ok (by rwa [hq]) hok
    rw [hq] at hprompt
    exact ⟨hprompt, fun x _ ↦ (Session.role_next hok x).trans hq⟩
  have hturn : p.Halts (fun o : Op ↦ o.isPrompt = true ∨ stall o) Op.RepliesDone
      fun a ↦ ∀ g, a = .inr g → (body J cfg c g).Halts
        (fun o : Op ↦ o.isPrompt = true ∨ stall o) Op.RepliesDone fun a ↦ a.isLeft = true := by
    refine hp.mono ?_
    rintro a ⟨q', hq', hexit⟩ g rfl
    exact (halts_body (Session.isLoop_of_exit (by rwa [hq']) hexit)).allow fun _ ↦ .inl
  obtain ⟨m, hm, hover | ⟨o, ⟨hreader, rfl⟩, hstuck⟩⟩ := E.exists_over hfair trivial
    (fun m hm hl' o ho ↦ ho.symm.imp_right fun ho ↦
      World.exists_exec (hdone m hm hl') (hcalm m hm) ho)
    (fun m hm hl' o ch x g he ↦ World.repliesDone_of_exec (hdone m hm hl') (E.op_exec he)) le_rfl
    ht hturn
  · exact ⟨m, hm, .inl (Pool.over_of_isOver hover)⟩
  · refine ⟨m, hm, .inr (.inr ⟨?_, parked_of_stuck hstuck⟩)⟩
    cases f with
    | readLBSStream n d => exact ⟨n, d, rfl⟩
    | _ => cases hreader

end

namespace Demo

/-- The client of a reader that retries nothing. -/
@[reducible] def readerMachine : Machine sig := machine bareJson fun _ ↦ reader 0 1 1

/-- The reader waits for entries when its context is cancelled.  It is then handed one, drops its
notification, starts an extender, and both leave at their next look at the context. -/
def cancelling : List (Pool.Label readerMachine) :=
  let plain : Choice := ⟨.none, .zero, 0, .ctx⟩
  [.start 0 (.readLBSStream 0 1), .op 0 plain, .env (.cancel 0),
    .env (.produce "demo-input" ⟨1, 0⟩ (fields "orders"))] ++
    List.replicate 8 (.op 0 plain) ++ [.again 0] ++ List.replicate 3 (.op 0 plain) ++
    List.replicate 3 (.op 1 plain)

/-- The execution of that, after which nothing happens. -/
def cancelled : Execution readerMachine :=
  .ofSchedule (fun n ↦ cancelling.getD n (.env (.tick 0))) ⟨lone false, []⟩ (.tick 0)
    fun _ _ ↦ rfl

end Demo

/-- A reader that stands in its `XREADGROUP` with nothing to read when its context is cancelled,
and leaves once it was handed an entry. -/
theorem loops_end_after_cancel_reader :
    ((∃ k, (Demo.cancelled.pool 3).threads[0]? =
        some ⟨0, .readLBSStream 0 1, some (.call (Demo.reader 0 1 1).blockingRead k)⟩) ∧
      (Demo.cancelled.pool 3).state.server.undelivered "demo-input" "demo-group" = []) ∧
    ∃ m, 3 ≤ m ∧ ((Demo.cancelled.pool m).Over 0 ∨
      ((Demo.cancelled.pool m).state.clients 0).broker.panicked = true ∨
        ((∃ n d, Call.readLBSStream 0 1 = .readLBSStream n d) ∧ Parked Demo.cancelled m 0 0)) :=
  ⟨⟨⟨_, rfl⟩, by decide +kernel⟩,
    loops_end_after_cancel Demo.cancelled rfl (f := .readLBSStream 0 1) rfl ⟨_, rfl⟩ rfl
      (Demo.cancelled.fair_of_isOver (n := 16) (by decide) (by decide +kernel))⟩

end RedisStreamClient.Impl

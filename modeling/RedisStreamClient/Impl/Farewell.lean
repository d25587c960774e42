import RedisStreamClient.Impl.Backoff
import RedisStreamClient.Impl.Spelling

/-!
# How the LBS reader says that it stops

Every way out of `readLBSStream` sends a `StreamTerminated` notification first.  `Send`
selects between the end of the context, the end of the broker and the broker's input, and a
select may take any case that is ready.  While the broker is open, the notification is sure to
be accepted exactly if the context is not done at the select; but most ways out are taken
because it is.

A run of the loop is given by its turns, in terms of the states its operations met.
-/

namespace RedisStreamClient.Impl

open RedisStreamClient.Lib RedisStreamClient.Errs RedisStreamClient.Notifs
open RedisStreamClient.Redis

namespace Transition

variable {c : Nat} {x : Transition} {m : RecoverableRedisNotification}

/-- An operation that meets a broker that has not been closed. -/
def MeetsOpen (c : Nat) (x : Transition) (o : Op) (r : o.Reply) : Prop :=
  x.Meets c o r ∧ (x.before.clients c).broker.Unclosed

/-- `Send` returned true: the broker took the notification. -/
def Accepts (c : Nat) (m : RecoverableRedisNotification) (x : Transition) : Prop :=
  x.Meets c (.broker (.select 0 m)) .sent ∧
    (x.after.clients c).broker.input = (x.before.clients c).broker.input ++ [m]

theorem MeetsOpen.op_eq {o : Op} {r : o.Reply} (h : x.MeetsOpen c o r) : x.op = o := by
  obtain ⟨⟨ch, ho, -⟩, -⟩ := h
  exact ho

/-- A broker that is open has its flag unset. -/
theorem MeetsOpen.load {closed : Bool} (h : x.MeetsOpen c (.broker .load) closed) :
    closed = false := by
  obtain ⟨⟨ch, -, f, hx⟩, hopen⟩ := h
  obtain ⟨⟨r, b⟩, hb, heq⟩ := Option.map_eq_some_iff.1 hx
  rw [Broker.exec] at hb
  split at hb
  · cases hb
  · cases hb
    exact (Prod.mk.inj heq).1.symm.trans hopen.closed

/-- The select of `Send`, on an open broker. -/
theorem MeetsOpen.select {case : Broker.SendCase}
    (h : x.MeetsOpen c (.broker (.select 0 m)) case) :
    ((x.before.clients c).ctxDone = true ∧ (x.after.clients c).broker = (x.before.clients c).broker) ∨
      x.Accepts c m := by
  obtain ⟨⟨ch, hop, f, hx⟩, hopen⟩ := h
  obtain ⟨⟨r, b⟩, hb, heq⟩ := Option.map_eq_some_iff.1 hx
  obtain ⟨hr, hrest⟩ := Prod.mk.inj heq
  obtain ⟨hafter, -⟩ := Prod.mk.inj hrest
  have hbroker : (x.after.clients c).broker = b := by
    rw [← hafter]
    simp [World.setClient]
  rw [hbroker]
  rcases hopen.exec_select hb with ⟨hdone, rfl, rfl⟩ | ⟨rfl, hinput⟩
  · exact .inl ⟨hdone, rfl⟩
  · obtain rfl : case = .sent := hr.symm
    exact .inr ⟨⟨ch, hop, f, hx⟩, hbroker ▸ hinput⟩

/-- What leaves the broker's input alone accepts nothing. -/
theorem not_accepts (h : (x.after.clients c).broker.input = (x.before.clients c).broker.input) :
    ¬ x.Accepts c m := by
  rintro ⟨-, hinput⟩
  rw [h] at hinput
  exact absurd (congrArg List.length hinput) (by simp)

/-- Where the context is done, the select may find that. -/
theorem MeetsOpen.exists_unaccepted {case : Broker.SendCase}
    (h : x.MeetsOpen c (.broker (.select 0 m)) case) (hdone : (x.before.clients c).ctxDone = true) :
    ∃ x' : Transition, x'.before = x.before ∧
      x'.MeetsOpen c (.broker (.select 0 m)) .ctxDone ∧ ¬ x'.Accepts c m := by
  obtain ⟨⟨ch, -, f, hx⟩, hopen⟩ := h
  obtain ⟨⟨r, b⟩, hb, -⟩ := Option.map_eq_some_iff.1 hx
  have hrun : (x.before.clients c).broker.panicked = false := by
    rw [Broker.exec] at hb
    split at hb
    · cases hb
    · next h => exact Bool.eq_false_iff.2 h
  let after := x.before.setClient c { x.before.clients c with broker := (x.before.clients c).broker }
  refine ⟨⟨x.before, .broker (.select 0 m), after⟩, rfl, ⟨⟨{ ch with case := .ctx }, rfl, none, ?_⟩,
    hopen⟩, ?_⟩
  · refine Option.map_eq_some_iff.2 ⟨(.ctxDone, (x.before.clients c).broker), ?_, rfl⟩
    rw [Broker.exec, hrun, Broker.step, hdone]
    rfl
  · refine not_accepts ?_
    simp only [after, World.setClient, Function.update_self]

end Transition

section

variable {J : Json} {r : Client} {n d : Int} {c : Nat}

/-- The last call of the reader. -/
def IsTerminate (p : Prog sig (Res ⊕ Call)) : Prop := ∃ info, p = readLBSStream.terminate info

/-- The loop goes round. -/
def GoesRound (a : Res ⊕ Call) : Prop := ∃ n d, a = .inr (.readLBSStream n d)

/-- **A turn of the reader goes round or ends with a termination notification.** -/
theorem ends_readLBSStream {X : Transition → (o : Op) → o.Reply → Prop} :
    (readLBSStream J r n d).Ends X IsTerminate GoesRound := by
  have hlast (info : String) : (readLBSStream.terminate info).Ends X IsTerminate GoesRound :=
    .last ⟨info, rfl⟩
  rw [readLBSStream]
  refine .call (S := sig) (o := .isContextDone) ?_
  rintro x (_ | _) -
  · refine .call (S := sig) (o := .xreadGroup _ _ _) ?_
    rintro x (e | streams) -
    · show Prog.Ends _ _ _ (if e.isCanceled then _ else _)
      split
      · exact hlast _
      · show Prog.Ends _ _ _ (if 0 ≤ r.maxRetries ∧ r.maxRetries < wrap64 (n + 1) then _ else _)
        split
        · exact hlast _
        · refine .call (S := sig) (o := .waitOrDone _) ?_
          rintro x (_ | _) -
          · exact .ret ⟨_, _, rfl⟩
          · exact hlast _
    · refine Prog.Ends.bind (p := processLBSMessages J r (streams.flatMap Prod.snd)) ?_
      rintro (_ | e)
      · show Prog.Ends _ _ _ (if 0 < n then _ else _)
        split
        · exact .ret ⟨_, _, rfl⟩
        · exact .ret ⟨_, _, rfl⟩
      · exact hlast _
  · exact hlast _

theorem terminate_eq (info : String) : readLBSStream.terminate info =
    .call (S := sig) (.broker .load) fun (closed : Bool) ↦
      if closed then .ret (.inl .ended)
      else .call (S := sig) (.broker (.select 0 (makeStreamTerminatedNotif info))) fun _ ↦
        .ret (.inl .ended) := by
  refine congrArg (Prog.call (S := sig) (.broker .load)) (funext ?_)
  rintro (_ | _)
  · refine congrArg (Prog.call (S := sig) (.broker (.select 0 _))) (funext ?_)
    rintro (_ | _ | _) <;> rfl
  · rfl

/-- On an open broker the termination notification comes to the select of `Send`, and the reader
returns however that goes. -/
theorem runs_terminate {info : String} {zs : List Transition} {a : Res ⊕ Call}
    (h : (readLBSStream.terminate info).Runs (Transition.MeetsOpen c) zs a) :
    a = .inl .ended ∧ ∃ x₀ x case, zs = [x₀, x] ∧
      x.MeetsOpen c (.broker (.select 0 (makeStreamTerminatedNotif info))) case ∧
      ∀ (x' : Transition) case',
        x'.MeetsOpen c (.broker (.select 0 (makeStreamTerminatedNotif info))) case' →
        (readLBSStream.terminate info).Runs (Transition.MeetsOpen c) [x₀, x'] a := by
  rw [terminate_eq] at h ⊢
  cases h with
  | @call _ _ x₀ closed _ _ hx₀ h =>
    obtain rfl : closed = false := hx₀.load
    cases h with
    | @call _ _ x case _ _ hx h =>
      cases h
      refine ⟨rfl, x₀, x, case, rfl, hx, fun x' case' hx' ↦ ?_⟩
      exact .call hx₀ (.call (r := case') hx' (.ret _))

end

/-- **The reader is heard exactly where the context is not done.**  Consider a run of
`readLBSStream`, any turns and one in which it returns, while the broker is not closed.  Its last
operation is the select that sends a `StreamTerminated` notification; and whatever case that
select takes, the notification is accepted, iff the context is not done when it comes to it. -/
theorem reader_heard_iff {J : Json} {cfg : Nat → Client} {c : Nat} {xss : List (List Transition)}
    {g : Call} {xs : List Transition} {res : Res}
    (hr : Prog.Rounds (Transition.MeetsOpen c) (body J cfg c)
      (.readLBSStream 0 (cfg c).initialRetryDelay) xss g)
    (hx : (body J cfg c g).Runs (Transition.MeetsOpen c) xs (.inl res)) :
    ∃ ys x info, xs = ys ++ [x] ∧
      x.op = .broker (.select 0 (makeStreamTerminatedNotif info)) ∧
      ((∀ x' : Transition, x'.before = x.before → x'.op = x.op →
          (body J cfg c g).Runs (Transition.MeetsOpen c) (ys ++ [x']) (.inl res) →
          x'.Accepts c (makeStreamTerminatedNotif info)) ↔
        (x.before.clients c).ctxDone = false) := by
  obtain ⟨n, d, rfl⟩ : ∃ n d, g = .readLBSStream n d := by
    refine hr.invariant (I := fun g ↦ ∃ n d, g = .readLBSStream n d) ⟨_, _, rfl⟩ ?_
    rintro _ h xs ⟨n, d, rfl⟩ hx
    rcases ends_readLBSStream xs _ hx with ⟨n', d', heq⟩ | ⟨ys, zs, q, rfl, ⟨info, rfl⟩, hq, hz⟩
    · exact ⟨n', d', Sum.inr.inj heq⟩
    · cases (runs_terminate hz).1
  rcases ends_readLBSStream xs _ hx with ⟨n', d', heq⟩ | ⟨ys, zs, q, rfl, ⟨info, rfl⟩, hq, hz⟩
  · cases heq
  obtain ⟨-, x₀, x, case, rfl, hsel, hany⟩ := runs_terminate hz
  refine ⟨ys ++ [x₀], x, info, by rw [List.append_assoc]; rfl, hsel.op_eq, ?_⟩
  constructor
  · intro h
    by_contra hdone
    obtain ⟨x', hbefore, hsel', hno⟩ := hsel.exists_unaccepted (Bool.not_eq_false _ ▸ hdone)
    refine hno (h x' hbefore (hsel'.op_eq.trans hsel.op_eq.symm) ?_)
    rw [List.append_assoc]
    exact hq.runs (hany x' _ hsel')
  · intro hdone x' hbefore hop hrun
    -- the other run may have been told other things, but it comes to the same select
    rcases ends_readLBSStream _ _ hrun with ⟨n', d', heq⟩ | ⟨us, vs, q, hlist, ⟨info', rfl⟩, -, hv⟩
    · cases heq
    obtain ⟨-, u₀, u, case', rfl, hu, -⟩ := runs_terminate hv
    obtain rfl : x' = u := by simpa using congrArg List.getLast? hlist
    have hmsg := (hu.op_eq.symm.trans hop).trans hsel.op_eq
    obtain ⟨-, hmsg⟩ := Broker.Op.select.inj (Op.broker.inj hmsg)
    rw [← hmsg]
    refine hu.select.resolve_left ?_
    rintro ⟨hdone', -⟩
    rw [hbefore, hdone] at hdone'
    cases hdone'

namespace Demo

/-- One client alone, whose context is done or not. -/
def lone (done : Bool) : World :=
  ⟨⟨fun _ ↦ .empty .zero, fun _ _ ↦ .empty .zero, fun _ ↦ none, 0⟩, fun _ ↦ ⟨∅, done, .new 1⟩⟩

/-- An operation of the client that finds it alone. -/
def meets (done : Bool) (fault : Fault) (case : Broker.Case) (o : Op) : Transition :=
  ⟨lone done, o, (((lone done).exec 0 o ⟨fault, .zero, 0, case⟩).map fun p ↦ p.2.1).getD (lone done)⟩

theorem meetsOpen_meets {done : Bool} {fault : Fault} {case : Broker.Case} {o : Op} {r : o.Reply}
    {w : World} {f : Option Call} (h : (lone done).exec 0 o ⟨fault, .zero, 0, case⟩ = some (r, w, f)) :
    (meets done fault case o).MeetsOpen 0 o r := by
  refine ⟨⟨⟨fault, .zero, 0, case⟩, rfl, f, ?_⟩, ⟨rfl, rfl, rfl⟩⟩
  simp only [meets, h]
  rfl

/-- What a reader does that finds its context done, if the select takes that case. -/
def leaving : List Transition :=
  [meets true .none .ctx .isContextDone, meets true .none .ctx (.broker .load),
    meets true .none .ctx (.broker (.select 0 (makeStreamTerminatedNotif "context done")))]

/-- What a reader without retries does whose read fails. -/
def failing : List Transition :=
  [meets false .none .input .isContextDone,
    meets false (.fail (.reply "connection refused")) .input
      (.xreadGroup (reader 0 1 1).lbsGroupName (reader 0 1 1).consumerID (reader 0 1 1).lbsName),
    meets false .none .input (.broker .load),
    meets false .none .input (.broker (.select 0 (makeStreamTerminatedNotif "connection refused")))]

theorem runs_leaving : (body bareJson (fun _ ↦ reader 0 1 1) 0 (.readLBSStream 0 1)).Runs
    (Transition.MeetsOpen 0) leaving (.inl .ended) := by
  refine .call (S := sig) (o := .isContextDone) (r := true) (meetsOpen_meets rfl) ?_
  show Prog.Runs _ (readLBSStream.terminate "context done") _ _
  rw [terminate_eq]
  refine .call (S := sig) (o := .broker .load) (r := false) (meetsOpen_meets rfl) ?_
  exact .call (S := sig) (o := .broker (.select 0 _)) (r := .ctxDone) (meetsOpen_meets rfl) (.ret _)

theorem runs_failing : (body bareJson (fun _ ↦ reader 0 1 1) 0 (.readLBSStream 0 1)).Runs
    (Transition.MeetsOpen 0) failing (.inl .ended) := by
  refine .call (S := sig) (o := .isContextDone) (r := false) (meetsOpen_meets rfl) ?_
  refine .call (S := sig) (o := .xreadGroup _ _ _) (r := .error (.reply "connection refused"))
    (meetsOpen_meets rfl) ?_
  show Prog.Runs _ (readLBSStream.terminate "connection refused") _ _
  rw [terminate_eq]
  refine .call (S := sig) (o := .broker .load) (r := false) (meetsOpen_meets rfl) ?_
  exact .call (S := sig) (o := .broker (.select 0 _)) (r := .sent) (meetsOpen_meets rfl) (.ret _)

end Demo

/-- A reader that gives up under a context that is not done is heard. -/
theorem reader_heard_failing :
    ∃ x info, Demo.failing.getLast? = some x ∧ x.Accepts 0 (makeStreamTerminatedNotif info) := by
  obtain ⟨ys, x, info, hlist, hop, hiff⟩ := reader_heard_iff .nil Demo.runs_failing
  have hlast : Demo.failing.getLast? = some x := by rw [hlist, List.getLast?_concat]
  refine ⟨x, info, hlast, hiff.2 ?_ x rfl rfl ?_⟩
  · obtain rfl := Option.some.inj hlast
    rfl
  · rw [← hlist]
    exact Demo.runs_failing

/-- A reader that stops because its context is done may stop without being heard, though the
broker is open. -/
theorem reader_unheard :
    (body Demo.bareJson (fun _ ↦ Demo.reader 0 1 1) 0 (.readLBSStream 0 1)).Runs
      (Transition.MeetsOpen 0) Demo.leaving (.inl .ended) ∧
    ∀ x ∈ Demo.leaving, ∀ m, ¬ x.Accepts 0 m := by
  refine ⟨Demo.runs_leaving, fun x hx m ↦ Transition.not_accepts ?_⟩
  simp only [Demo.leaving, List.mem_cons, List.not_mem_nil, or_false] at hx
  rcases hx with rfl | rfl | rfl <;> rfl

end RedisStreamClient.Impl

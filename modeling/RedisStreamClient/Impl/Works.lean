import RedisStreamClient.Impl.Contract
import RedisStreamClient.Impl.Setup

/-!
# What a goroutine of a client works at

The contract of the whole client, as far as its locked streams are concerned.  The goroutines
of the LBS keep the contract they have by themselves; `Done` asks for the names of the locked
streams, does what `DoneStream` does for one after the other, and releases what the client has
only after the last of them; whatever else runs is `aside`.
-/

namespace RedisStreamClient.Impl.Lifecycle

open RedisStreamClient.Lib RedisStreamClient.Errs RedisStreamClient.Notifs

/-- What a goroutine works at. -/
inductive Work
  | /-- A goroutine of the LBS. -/
    client (q : Impl.Session)
  | /-- Something that is not about the locked streams. -/
    aside
  | /-- `Done`, about to ask for the locked streams. -/
    asking
  | /-- `Done` with these streams left to finish. -/
    done (todo : List String) (q : Impl.Session)

/-- The call is one of the loops of the broker, or `Close`. -/
def keepsBroker : Impl.Call → Bool
  | .broker .run | .broker .drain | .broker .close => true
  | _ => false

/-- The operation pops a record. -/
def popsRecord : Impl.Op → Bool
  | .popStreamLocksInfo _ => true
  | _ => false

namespace Work

variable (J : Json) (r : Config)

/-- What `Done` may do. -/
def OkDone (todo : List String) (q : Impl.Session) : Op → Prop
  | .client (.popStreamLocksInfo name) => q = .over ∧ todo.head? = some name
  | .client (.broker (.select _ _)) => False
  | .client (.broker _) => True
  | .client o => q.role = .finisher ∧ q.Ok J r.client o
  | .kspLen | .kspReceive | .cancelLBS | .getPubSub | .closePubSub _ | .ossCloseAll =>
    q = .over ∧ todo = []
  | _ => False

/-- What is allowed. -/
def Ok : Work → Op → Prop
  | .client q, .client o => q.Ok J r.client o
  | .client _, _ => False
  | .aside, o => o.isSetup = true
  | .asking, .streamNames => True
  | .asking, _ => False
  | .done todo q, o => OkDone J r todo q o

/-- `Done` goes on after an operation of `DoneStream`. -/
def onDone (todo : List String) (q : Impl.Session) (o : Impl.Op) (x : o.Reply) : Work :=
  if popsRecord o then .done todo.tail (Impl.Session.finishing.next J r.client o x)
  else .done todo (q.next J r.client o x)

/-- What a goroutine goes on to. -/
def next : Work → (o : Op) → o.Reply → Work
  | .client q, .client o, x => .client (q.next J r.client o x)
  | .asking, .streamNames, names => .done names .over
  | .done todo q, .client o, x => onDone J r todo q o x
  | w, _, _ => w

/-- What a new goroutine works at. -/
def start : Call → Work
  | .client f => if keepsBroker f then .aside else .client (.start f)
  | .done => .asking
  | .cleanup => .done [] .over
  | .init | .reinitTopology | .callback _ _ _ | .fanIn _ | .listenKsp => .aside

/-- When a goroutine may return, or go round its loop. -/
def Exit (w : Work) : Res ⊕ Call → Prop
  | .inl (.client x) => w = .aside ∨ ∃ q, w = .client q ∧ q.Exit (.inl x)
  | .inr (.client f) => (w = .aside ∧ keepsBroker f = true) ∨ ∃ q, w = .client q ∧ q.Exit (.inr f)
  | .inl (.done none) | .inr .cleanup => w = .done [] .over
  | .inl (.done (some _)) => ∃ todo, w = .done todo .over
  | .inr .done => False
  | .inl (.init _) | .inl (.reinitTopology _) | .inl .ended => w = .aside
  | .inr .init | .inr .reinitTopology | .inr (.callback _ _ _) | .inr (.fanIn _)
  | .inr .listenKsp => w = .aside

end Work

/-- The monitor of works. -/
@[reducible] def worksMonitor (J : Json) (r : Config) : Monitor sig Unit where
  State := Work
  Ok _ w o := w.Ok J r o
  next _ w o x := w.next J r o x

section

variable {A B : Type} {J : Json} {r : Config} {w : Work} {Q : Work → A → Prop}

/-- A program keeps to the rules from `w` on and ends as `Q` says. -/
def Works (J : Json) (r : Config) (Q : Work → A → Prop) (p : Prog sig A) (w : Work) : Prop :=
  p.Obeys (worksMonitor J r) () Q w

theorem Works.call {o : Op} {k : o.Reply → Prog sig A} (ho : w.Ok J r o)
    (h : ∀ x, Works J r Q (k x) (w.next J r o x)) : Works J r Q (.call o k) w := ⟨ho, h⟩

theorem Works.bind {R : Work → B → Prop} {p : Prog sig A} {f : A → Prog sig B}
    (hp : Works J r Q p w) (hf : ∀ w' a, Q w' a → Works J r R (f a) w') :
    Works J r R (p >>= f) w := Prog.Obeys.bind hp hf

theorem Works.mono {R : Work → A → Prop} {p : Prog sig A} (hp : Works J r Q p w)
    (h : ∀ w' a, Q w' a → R w' a) : Works J r R p w := Prog.Obeys.mono h hp

/-! ## The goroutines beside those of the LBS -/

theorem Setup.works {p : Prog sig A} (hp : Setup p) :
    Works J r (fun w' _ ↦ w' = .aside) p .aside :=
  Prog.Only.obeys hp fun _ ho ↦ ⟨ho, fun _ ↦ rfl⟩

/-- A call that is not about the locked streams stays aside. -/
theorem works_aside {p : Prog sig (Res ⊕ Call)} {P : Op → Prop} {R : Res ⊕ Call → Prop}
    (hp : p.Within P R) (hP : ∀ o, P o → o.isSetup = true) (hR : ∀ a, R a → Work.aside.Exit a) :
    Works J r Work.Exit p .aside :=
  hp.obeys (fun o ho ↦ ⟨hP o ho, fun _ ↦ rfl⟩) hR

theorem works_fanIn (ps : Nat) : Works J r Work.Exit (fanIn ps) .aside := by
  refine works_aside (fanIn_within ps) (fun _ ho ↦ Op.isSetup_of_fansIn ho) ?_
  rintro _ (rfl | rfl) <;> rfl

theorem works_listenKsp : Works J r Work.Exit listenKsp .aside := by
  refine works_aside listenKsp_within (fun _ ho ↦ Op.isSetup_of_listens ho) ?_
  rintro _ (rfl | rfl) <;> rfl

/-! ## The goroutines of the LBS -/

theorem works_lift {p : Prog Impl.sig A} {q : Impl.Session} {R : Impl.Session → A → Prop}
    (hp : Keeps J (fun _ ↦ r.client) 0 R p q) :
    Works J r (fun w' a ↦ ∃ q', w' = .client q' ∧ R q' a) (Op.lift p) (.client q) := by
  refine (Prog.Obeys.embed (R := fun q w ↦ w = Work.client q) ?_ hp rfl).mono ?_
  · rintro q _ o rfl hok
    exact ⟨hok, fun _ ↦ rfl⟩
  · rintro w' a ⟨q', rfl, ha⟩
    exact ⟨q', rfl, ha⟩

theorem works_client {f : Impl.Call} {q : Impl.Session} (hq : q = .start f ∨ q.Exit (.inr f)) :
    Works J r Work.Exit (body J r (.client f)) (.client q) := by
  refine (works_lift (Impl.body_obeys hq)).bind ?_
  rintro w' (x | f') ⟨q', rfl, hx⟩
  · exact .inr ⟨q', rfl, hx⟩
  · exact .inr ⟨q', rfl, hx⟩

/-- The loops of the broker announce nothing. -/
theorem works_broker {f : Broker.Call} (hf : keepsBroker (.broker f) = true) :
    Works J r Work.Exit (body J r (.client (.broker f))) .aside := by
  have hsend (ctx : Nat) (m : RecoverableRedisNotification) : f ≠ .send ctx m := by
    rintro rfl
    cases hf
  refine works_aside (body_broker_within (P := fun o : Op ↦ o.isSetup = true) hsend ?_)
    (fun _ ho ↦ ho) ?_
  · intro o ho
    cases o <;> first | rfl | cases ho
  · rintro _ (⟨x, rfl⟩ | ⟨g, rfl, hg⟩)
    · exact .inl rfl
    · exact .inl ⟨rfl, by cases g <;> first | rfl | cases hg⟩

/-! ## `Done` -/

/-- After its pop, `DoneStream` goes on the same inside `Done`. -/
theorem works_rest {p : Prog Impl.sig A} {todo : List String} {q : Impl.Session}
    {R : Impl.Session → A → Prop} (hp : Keeps J (fun _ ↦ r.client) 0 R p q)
    (hrole : q.role = .finisher) (hne : q ≠ .finishing) :
    Works J r (fun w' a ↦ ∃ q', w' = .done todo q' ∧ R q' a) (Op.lift p) (.done todo q) := by
  refine (Prog.Obeys.embed (R := fun (q : Impl.Session) w ↦ w = Work.done todo q ∧
    q.role = .finisher ∧ q ≠ .finishing) ?_ hp ⟨rfl, hrole, hne⟩).mono ?_
  · rintro q _ o ⟨rfl, hrole, hne⟩ hok
    have hpop : popsRecord o = false := by
      cases o with
      | popStreamLocksInfo name =>
        rcases hok with rfl | ⟨i, rfl, -⟩
        · exact absurd rfl hne
        · cases hrole
      | _ => rfl
    have hnext (x : o.Reply) : q.next J r.client o x ≠ .finishing := by
      rcases Impl.Session.finisher_cases hrole hok x with ⟨-, hsame⟩ | ⟨rfl, -⟩ |
        ⟨info, s, g, rfl, rfl⟩ | ⟨info, s, rfl, rfl⟩ | ⟨info, rfl, rfl⟩
      · rwa [hsame]
      · exact absurd rfl hne
      · rcases x with err | n <;> simp [Impl.Session.next, Impl.Session.onAck]
      · rcases x with err | n <;> simp [Impl.Session.next, Impl.Session.onDel]
      · simp [Impl.Session.next]
    refine ⟨?_, fun x ↦ ⟨?_, (Impl.Session.role_next hok x).trans hrole, hnext x⟩⟩
    · cases o with
      | popStreamLocksInfo name => cases hpop
      | broker o =>
        cases o with
        | select ctx m => cases q <;> first | exact hok | cases hrole
        | _ => trivial
      | _ => exact ⟨hrole, hok⟩
    · exact if_neg (by simp [hpop])
  · rintro w' a ⟨q', ⟨rfl, -⟩, ha⟩
    exact ⟨q', rfl, ha⟩

/-- `DoneStream` inside `Done`. -/
theorem works_doneStream {name : String} {todo : List String} :
    Works J r (fun w' _ ↦ w' = .done todo .over) (Op.lift (doneStream r.client name))
      (.done (name :: todo) .over) := by
  have hp : Keeps J (fun _ ↦ r.client) 0 (fun q _ ↦ q = .over) (doneStream r.client name)
      .finishing := doneStream_obeys
  refine .call (o := .client (.popStreamLocksInfo name)) ⟨rfl, rfl⟩ fun record ↦ ?_
  have hrole : (Impl.Session.onPop .finishing record).role = .finisher ∧
      Impl.Session.onPop .finishing record ≠ .finishing := by
    rcases record with _ | info
    · exact ⟨rfl, by simp [Impl.Session.onPop]⟩
    · exact ⟨rfl, by simp [Impl.Session.onPop]⟩
  refine (works_rest (hp.2 record) hrole.1 hrole.2).mono ?_
  rintro w' a ⟨q', rfl, rfl⟩
  rfl

/-- The loop of `Done` is through with its streams if it returns no error. -/
theorem works_doneStreams (names : List String) :
    Works J r (fun w' err ↦ ∃ todo, w' = .done todo .over ∧ (err = none → todo = []))
      (doneStreams r names) (.done names .over) := by
  induction names with
  | nil => exact ⟨[], rfl, fun _ ↦ rfl⟩
  | cons name names ih =>
    refine works_doneStream.bind ?_
    rintro _ (_ | err) rfl
    · exact ih
    · exact ⟨names, rfl, by simp⟩

theorem works_done : Works J r Work.Exit (done r) .asking := by
  refine .call (o := .streamNames) trivial fun names ↦ ?_
  refine (works_doneStreams names).bind ?_
  rintro _ (_ | err) ⟨todo, rfl, htodo⟩
  · obtain rfl := htodo rfl
    exact (rfl : Work.done [] .over = .done [] .over)
  · exact ⟨todo, rfl⟩

/-- `cleanup` does not touch the locked streams, which are finished when it runs. -/
theorem works_cleanup : Works J r Work.Exit cleanup (.done [] .over) := by
  refine cleanup_within.obeys (fun (o : Op) ho ↦ ?_) ?_
  · cases o with
    | client o =>
      cases o with
      | broker b => cases b <;> first | exact ⟨trivial, fun _ ↦ rfl⟩ | cases ho
      | _ => cases ho
    | _ => first | exact ⟨⟨rfl, rfl⟩, fun _ ↦ rfl⟩ | cases ho
  · rintro _ (⟨_ | err, rfl⟩ | rfl)
    · exact (rfl : Work.done [] .over = .done [] .over)
    · exact ⟨[], rfl⟩
    · exact (rfl : Work.done [] .over = .done [] .over)

/-- Every call works as it is to. -/
theorem works_body (f : Call) : Works J r Work.Exit (body J r f) (.start f) := by
  cases f with
  | client f =>
    rw [Work.start]
    split
    · next hf =>
      cases f with
      | broker f => exact works_broker hf
      | _ => cases hf
    · exact works_client (.inl rfl)
  | done => exact works_done
  | cleanup => exact works_cleanup
  | init => exact (plain_init.setup.works).bind fun _ _ h ↦ h
  | reinitTopology => exact (plain_reinitTopology.setup.works).bind fun _ _ h ↦ h
  | callback g f node =>
    refine (plain_callback g node f).setup.works.bind ?_
    rintro _ err rfl
    exact .call (o := .callbackDone g node err) rfl fun _ ↦ (rfl : Work.aside = .aside)
  | fanIn ps => exact works_fanIn ps
  | listenKsp => exact works_listenKsp

/-- Every loop works on as it did. -/
theorem works_again {f : Call} (hw : w.Exit (.inr f)) : Works J r Work.Exit (body J r f) w := by
  cases f with
  | client f =>
    rcases hw with ⟨rfl, hf⟩ | ⟨q, rfl, hq⟩
    · cases f with
      | broker f => exact works_broker hf
      | _ => cases hf
    · exact works_client (.inr hq)
  | done => exact hw.elim
  | cleanup =>
    obtain rfl : w = .done [] .over := hw
    exact works_cleanup
  | init | reinitTopology | callback _ _ _ | fanIn _ | listenKsp =>
    obtain rfl : w = .aside := hw
    exact works_body _

end

/-- **The contract of the whole client.** -/
@[reducible] def works (J : Json) (r : Config) : Contract (machine J r) where
  toMonitor := worksMonitor J r
  init _ f := .start f
  Exit _ w a := w.Exit a
  body_obeys _ f := works_body f
  again_obeys _ _ _ hw := works_again hw

/-! ## Sessions of works -/

namespace Work

/-- The session of a goroutine that touches the locked streams. -/
def session : Work → Option Impl.Session
  | .client q | .done _ q => some q
  | .aside | .asking => none

/-- What a session tells, if there is one. -/
def on {α : Type} (F : Impl.Session → Option α) (w : Work) : Option α := w.session.bind F

/-- The goroutine was started as `f`. -/
def Plays : Work → Call → Prop
  | .client q, f => ∃ g, f = .client g ∧ keepsBroker g = false ∧ q.Plays g
  | .aside, _ => True
  | .asking, f => f = .done
  | .done _ q, f => f = .done ∧ q.role = .finisher

variable {J : Json} {r : Config} {w : Work} {f : Call}

/-- What no session tells from the start, no new goroutine does. -/
theorem on_start {α : Type} {F : Impl.Session → Option α} (hover : F .over = none)
    (hstart : ∀ g, f = .client g → F (.start g) = none) : (start f).on F = none := by
  cases f with
  | client g =>
    rw [start]
    split
    · rfl
    · exact hstart g rfl
  | cleanup => exact hover
  | _ => rfl

theorem on_of_session {α : Type} {F : Impl.Session → Option α} (hfin : F .finishing = none)
    {q : Impl.Session} (hq : w.session = some q ∨ (w.session = some .over ∧ q = .finishing))
    {a : α} (ha : F q = some a) : w.on F = some a := by
  rcases hq with hq | ⟨-, rfl⟩
  · rw [on, hq]
    exact ha
  · cases hfin.symm.trans ha

theorem plays_start (hf : f ≠ .cleanup) : (start f).Plays f := by
  cases f with
  | client g =>
    rw [start]
    split
    · trivial
    · next hg => exact ⟨g, rfl, Bool.eq_false_iff.2 hg, Impl.Session.plays_start g⟩
  | done => exact (rfl : Call.done = .done)
  | cleanup => exact absurd rfl hf
  | init | reinitTopology | callback _ _ _ | fanIn _ | listenKsp => trivial

/-- **What an operation of the LBS does to the session of a goroutine.**  The session goes on as
that of a goroutine of the LBS would, where `Done` pops as a `DoneStream` that was just called; or
it stays, and the operation is a metric or one on the broker that announces no stream. -/
theorem client_cases {o : Impl.Op} (hok : w.Ok J r (.client o)) (x : o.Reply) :
    (∃ q₀ q, w.session = some q₀ ∧ (q = q₀ ∨ (q₀ = .over ∧ q = .finishing)) ∧
        q.Ok J r.client o ∧ (w.next J r (.client o) x).session = some (q.next J r.client o x)) ∨
      ((w.next J r (.client o) x).session = w.session ∧
        ((∃ m, o = .record m) ∨ ∃ b, o = .broker b ∧
          ∀ ctx m, b = .select ctx m → m.type = .streamExpired)) := by
  cases w with
  | client q => exact .inl ⟨q, q, rfl, .inl rfl, hok, rfl⟩
  | aside =>
    refine .inr ⟨rfl, ?_⟩
    cases o with
    | record m => exact .inl ⟨m, rfl⟩
    | broker b =>
      refine .inr ⟨b, rfl, ?_⟩
      rintro ctx m rfl
      exact of_decide_eq_true hok
    | _ => cases hok
  | asking => exact hok.elim
  | done todo q =>
    cases o with
    | popStreamLocksInfo name =>
      obtain ⟨rfl, -⟩ := hok
      exact .inl ⟨.over, .finishing, rfl, .inr ⟨rfl, rfl⟩, .inl rfl, rfl⟩
    | broker b =>
      refine .inr ⟨?_, .inr ⟨b, rfl, ?_⟩⟩
      · cases b with
        | select ctx m => exact hok.elim
        | _ => rfl
      · rintro ctx m rfl
        exact hok.elim
    | _ => exact .inl ⟨q, q, rfl, .inl rfl, hok.2, rfl⟩

/-- The other operations leave a goroutine at its work, but for the question of `Done`. -/
theorem next_of_ne {o : Op} (hne : ∀ o', o ≠ .client o') (hok : w.Ok J r o) (x : o.Reply) :
    w.next J r o x = w ∨
      (w = .asking ∧ o = .streamNames ∧ ∃ names, w.next J r o x = .done names .over) := by
  cases w with
  | asking =>
    cases o with
    | streamNames => exact .inr ⟨rfl, rfl, x, rfl⟩
    | _ => exact hok.elim
  | client q =>
    cases o with
    | client o' => exact absurd rfl (hne o')
    | _ => exact hok.elim
  | aside => exact .inl rfl
  | done todo q =>
    cases o with
    | client o' => exact absurd rfl (hne o')
    | _ => exact .inl rfl

/-- A goroutine that finishes streams returns with none in hand. -/
theorem over_of_exit {x : Res} (h : w.Exit (.inl x)) {q : Impl.Session} (hq : w.session = some q)
    (hrole : q.role = .finisher) : q = .over := by
  have hover {todo : List String} (hw : w = .done todo .over) : q = .over := by
    rw [hw] at hq
    exact (Option.some.inj hq).symm
  have haside (hw : w = .aside) : q = .over := by
    rw [hw] at hq
    cases hq
  cases x with
  | client x =>
    rcases h with hw | ⟨q', hw, hexit⟩
    · exact haside hw
    · rw [hw] at hq
      obtain rfl := Option.some.inj hq
      exact Impl.Session.over_of_exit hrole hexit
  | done e =>
    cases e with
    | none => exact hover h
    | some e =>
      obtain ⟨todo, hw⟩ := h
      exact hover hw
  | _ => exact haside h

/-- How `Done` comes to have these streams left: it had them before, popped the one before them,
or was just told their names. -/
theorem next_eq_done {o : Op} (hok : w.Ok J r o) {x : o.Reply} {names : List String}
    {q : Impl.Session} (h : w.next J r o x = .done names q) :
    (∃ q', w = .done names q') ∨
      (∃ name q', o = .client (.popStreamLocksInfo name) ∧ w = .done (name :: names) q') ∨
      (w = .asking ∧ (⟨o, x⟩ : (o : Op) × o.Reply) = ⟨.streamNames, names⟩) := by
  cases w with
  | client q' => cases o <;> cases h
  | aside => cases h
  | asking =>
    cases o with
    | streamNames =>
      obtain ⟨rfl, -⟩ := Work.done.inj h
      exact .inr (.inr ⟨rfl, rfl⟩)
    | _ => exact hok.elim
  | done todo q' =>
    cases o with
    | client o =>
      replace h : onDone J r todo q' o x = .done names q := h
      unfold onDone at h
      split at h
      · next hpop =>
        obtain ⟨rfl, -⟩ := Work.done.inj h
        cases o with
        | popStreamLocksInfo name =>
          obtain ⟨-, hhead⟩ := hok
          refine .inr (.inl ⟨name, q', rfl, ?_⟩)
          rw [List.eq_cons_of_mem_head? hhead]
          rfl
        | _ => cases hpop
      · obtain ⟨rfl, -⟩ := Work.done.inj h
        exact .inl ⟨q', rfl⟩
    | _ =>
      obtain ⟨rfl, -⟩ := Work.done.inj h
      exact .inl ⟨q', rfl⟩

theorem plays_next {o : Op} (hok : w.Ok J r o) (h : w.Plays f) (x : o.Reply) :
    (w.next J r o x).Plays f := by
  by_cases hc : ∃ o', o = .client o'
  · obtain ⟨o', rfl⟩ := hc
    cases w with
    | client q =>
      obtain ⟨g, rfl, hg, hq⟩ := h
      exact ⟨g, rfl, hg, (Impl.Session.role_next hok x).trans hq⟩
    | aside => exact h
    | asking => exact hok.elim
    | done todo q =>
      obtain ⟨rfl, hrole⟩ := h
      cases o' with
      | popStreamLocksInfo name => exact ⟨rfl, by rcases x with _ | _ <;> rfl⟩
      | broker b =>
        cases b with
        | select ctx m => exact hok.elim
        | _ => exact ⟨rfl, hrole⟩
      | _ => exact ⟨rfl, (Impl.Session.role_next hok.2 x).trans hrole⟩
  · rcases next_of_ne (fun o' ho ↦ hc ⟨o', ho⟩) hok x with heq | ⟨rfl, rfl, names, heq⟩
    · rwa [heq]
    · rw [heq]
      exact ⟨h, rfl⟩

end Work

/-! ## What the operations do to the world -/

namespace State

variable {s s' : State} {ch : Choice} {f : Option Call}

/-- An operation of the LBS acts on the world of client 0. -/
theorem exec_client {o : Impl.Op} {x : o.Reply} (h : exec (.client o) ch s = some (x, s', f)) :
    ∃ g, World.exec 0 o ch.base s.world = some (x, s'.world, g) ∧ f = g.map .client := by
  obtain ⟨⟨x', w, g⟩, hx, heq⟩ := Option.map_eq_some_iff.1 h
  obtain ⟨hreply, heq⟩ := Prod.mk.inj heq
  obtain ⟨rfl, rfl⟩ := Prod.mk.inj heq
  obtain rfl : x' = x := hreply
  exact ⟨g, hx, rfl⟩

/-- The other operations leave Redis and the records alone, and only `cancelLBS` ends the
context. -/
theorem exec_of_ne {o : Op} {x : o.Reply} (hne : ∀ o', o ≠ .client o')
    (h : exec o ch s = some (x, s', f)) :
    s'.world.server = s.world.server ∧
      (s'.world.clients 0).streamLocks = (s.world.clients 0).streamLocks ∧
      ((s'.world.clients 0).ctxDone = true → (s.world.clients 0).ctxDone = true ∨ o = .cancelLBS) := by
  have hsame : s'.world = s.world → s'.world.server = s.world.server ∧
      (s'.world.clients 0).streamLocks = (s.world.clients 0).streamLocks ∧
      ((s'.world.clients 0).ctxDone = true →
        (s.world.clients 0).ctxDone = true ∨ o = .cancelLBS) := by
    intro hw
    rw [hw]
    exact ⟨rfl, rfl, .inl⟩
  cases o with
  | client o => exact absurd rfl (hne o)
  | withCancel =>
    obtain ⟨-, rfl, -⟩ := some_inj h
    refine ⟨rfl, by simp [setCtxDone, World.setClient], ?_⟩
    simp [setCtxDone, World.setClient]
  | cancelLBS =>
    rw [exec] at h
    split at h
    · obtain ⟨-, rfl, -⟩ := some_inj h
      exact ⟨rfl, by simp [setCtxDone, World.setClient], fun _ ↦ .inr rfl⟩
    · cases h
  | wait g =>
    obtain ⟨y, -, hy⟩ := Option.bind_eq_some_iff.1 h
    split at hy
    · obtain ⟨-, rfl, -⟩ := some_inj hy
      exact hsame rfl
    · cases hy
  | forEach _ | configSet _ _ =>
    rw [exec] at h
    split at h <;>
    · obtain ⟨-, rfl, -⟩ := some_inj h
      exact hsame rfl
  | trySendKsp m =>
    rw [exec] at h
    split at h <;>
    · obtain ⟨-, rfl, -⟩ := some_inj h
      exact hsame rfl
  | streamNames =>
    rw [exec] at h
    split at h
    · obtain ⟨-, rfl, -⟩ := some_inj h
      exact hsame rfl
    · cases h
  | nextMessage ps =>
    rw [exec] at h
    split at h
    · obtain ⟨-, rfl, -⟩ := some_inj h
      exact hsame rfl
    · split at h
      · cases h
      · obtain ⟨-, rfl, -⟩ := some_inj h
        exact hsame rfl
  | kspSelect =>
    rw [exec] at h
    split at h
    · split at h
      · obtain ⟨-, rfl, -⟩ := some_inj h
        exact hsame rfl
      · cases h
    · split at h
      · obtain ⟨-, rfl, -⟩ := some_inj h
        exact hsame rfl
      · cases h
  | kspReceive =>
    rw [exec] at h
    split at h
    · obtain ⟨-, rfl, -⟩ := some_inj h
      exact hsame rfl
    · cases h
  | _ =>
    rw [exec] at h
    obtain ⟨-, rfl, -⟩ := some_inj h
    exact hsame rfl

end State

end RedisStreamClient.Impl.Lifecycle

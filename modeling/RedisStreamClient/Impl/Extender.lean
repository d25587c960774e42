import RedisStreamClient.Impl.Knowledge
import RedisStreamClient.Lib.Schedule

/-!
# Extenders and the records of their client

An extender looks for its stream in `streamLocks` by name.  It acts for its own entry only
as long as no other entry of that stream is recorded, so everything depends on who is still
around when the reader records a stream again.

Besides its history a run carries a `Watch`: what the last look of every goroutine found,
and which records `DoneStream` has popped.  `extender_minds_own_record` says that extenders
keep to their own record if they are gone by the time their stream is recorded again, and
`extender_minds_other_record` what they do if they are not.
-/

namespace RedisStreamClient.Impl

open RedisStreamClient.Lib RedisStreamClient.Errs RedisStreamClient.Notifs
open RedisStreamClient.Redis

namespace Session

/-- The record that a goroutine looks after: the reader from recording a stream to starting
its extender, and the extender. -/
def tends : Session → Option StreamLocksInfo
  | .recorded info _ | .announced info _ => some info
  | .extender info | .extending info | .disowned info | .leaving info | .clearing info => some info
  | _ => none

variable {J : Json} {r : Client} {q : Session} {o : Op} {info : StreamLocksInfo}

/-- An extender looks after the same record all the time. -/
theorem tends_next_of_extender (hrole : q.role = .extender) (hok : q.Ok J r o) (reply : o.Reply) :
    (q.next J r o reply).tends = q.tends := by
  rcases extender_cases hrole hok reply with ⟨-, -, hsame⟩ | ⟨info, rfl, rfl⟩ |
    ⟨info, rfl | rfl | rfl, rfl⟩ | ⟨info, rfl, rfl⟩ | ⟨info, rfl, rfl⟩
  · rw [hsame]
  · rcases reply with _ | _ <;> rfl
  · rcases reply with _ | _ <;> rfl
  · rcases reply with _ | _ <;> rfl
  · rcases reply with _ | _ <;> rfl
  · rcases reply with ⟨_ | _, _ | _⟩ <;> rfl
  · rfl

theorem role_of_tends (h : q.tends = some info) : q.role = .reader ∨ q.role = .extender := by
  cases q <;> first | exact .inl rfl | exact .inr rfl | cases h

/-- **What a goroutine looks after it did before, or has just recorded.** -/
theorem tends_next (hok : q.Ok J r o) {reply : o.Reply}
    (h : (q.next J r o reply).tends = some info) :
    q.tends = some info ∨
      (q.tends = none ∧ o = .putStreamLocks info.lbsInfo.dataStreamName info) := by
  rcases role_of_tends h with hrole | hrole <;> rw [role_next hok reply] at hrole
  · rcases reader_cases hrole hok reply with ⟨-, -, hsame⟩ | ⟨rfl, g, n, s, rfl⟩ |
      ⟨message, name, todo, rfl, hname, rfl⟩ | ⟨message, name, todo, info', rfl, hinfo, -, rfl⟩ |
      ⟨info', todo, ctx, rfl, rfl⟩ | ⟨info', todo, rfl | rfl, rfl⟩
    · exact .inl (hsame ▸ h)
    · rcases reply with _ | _ <;> cases h
    · rcases reply with _ | _
      · simp [next, onLock, hname, tends] at h
      · cases h
    · obtain rfl : info' = info := Option.some.inj h
      exact .inr ⟨rfl, by rw [hinfo]⟩
    · exact .inl h
    · cases h
    · cases h
  · exact .inl (tends_next_of_extender hrole hok reply ▸ h)

/-- An extender comes to extend by a look at the records only. -/
theorem extending_next (hok : q.Ok J r o) (hne : ∀ name, o ≠ .isStreamProcessingDone name)
    {reply : o.Reply} (h : q.next J r o reply = .extending info) : q = .extending info := by
  have hrole : q.role = .extender := by rw [← role_next hok reply, h]; rfl
  rcases extender_cases hrole hok reply with ⟨-, -, hsame⟩ | ⟨info, rfl, rfl⟩ |
    ⟨info, -, rfl⟩ | ⟨info, rfl, rfl⟩ | ⟨info, rfl, rfl⟩
  · exact hsame.symm.trans h
  · rcases reply with _ | _ <;> cases h
  · exact absurd rfl (hne _)
  · rcases reply with ⟨_ | _, _ | _⟩ <;> cases h
  · cases h

end Session

/-! ## What extenders see -/

/-- What is noted of the looks at `streamLocks`. -/
structure Watch where
  /-- The LBS entry that the last look of a goroutine found recorded. -/
  found : Nat → Option LBSInfo
  /-- The LBS entries of a client whose records `DoneStream` popped, unless they were
  recorded again. -/
  done : Set (Nat × LBSInfo)

section Watch

variable {V : Service}

/-- The LBS entry that client `c` has recorded for a stream. -/
def World.recorded (w : World) (c : Nat) (name : String) : Option LBSInfo :=
  ((w.clients c).streamLocks.lookup name).map StreamLocksInfo.lbsInfo

/-- The watch after an event. -/
def Watch.update (x : Watch) (h : History) (P : Pool V.machine) : Event V.machine → Watch
  | .op t c (.isStreamProcessingDone name) _ _ _ =>
    ⟨Function.update x.found t (World.recorded P.state c name), x.done⟩
  | .op t c (.popStreamLocksInfo name) _ _ _ =>
    ⟨x.found, x.done ∪ {d | h.session t = .finishing ∧ d.1 = c ∧
      World.recorded P.state c name = some d.2}⟩
  | .op _ c (.putStreamLocks _ info) _ _ _ => ⟨x.found, {d ∈ x.done | d ≠ (c, info.lbsInfo)}⟩
  | _ => x

/-- The history and the watch after an event. -/
def Service.observe (V : Service) (γ : History × Watch) (P : Pool V.machine)
    (e : Event V.machine) : History × Watch :=
  (γ.1.update V P e, γ.2.update γ.1 P e)

/-- When a stream is recorded, whoever looked after another record of it has returned. -/
def RecordedAlone (h : History) (P : Pool V.machine) : Event V.machine → Prop
  | .op _ c (.putStreamLocks name _) _ _ _ => ∀ t < P.threads.length, P.isOver t = false →
      P.threads[t]?.map Thread.owner = some c →
        ∀ info ∈ (h.session t).tends, info.lbsInfo.dataStreamName ≠ name
  | _ => True

/-- The client that records a stream in an event, and its name. -/
def recorded : Event V.machine → Option (Nat × String)
  | .op _ c (.putStreamLocks name _) _ _ _ => some (c, name)
  | _ => none

theorem recordedAlone_iff (h : History) (P : Pool V.machine) (e : Event V.machine) :
    RecordedAlone h P e ↔ ∀ x ∈ recorded e, ∀ t < P.threads.length, P.isOver t = false →
      P.threads[t]?.map Thread.owner = some x.1 →
        ∀ info ∈ (h.session t).tends, info.lbsInfo.dataStreamName ≠ x.2 := by
  cases e with
  | op t c o ch r f => cases o <;> simp [RecordedAlone, recorded]
  | _ => simp [RecordedAlone, recorded]

instance instDecidableRecordedAlone (h : History) (P : Pool V.machine) :
    DecidablePred (RecordedAlone h P) :=
  Pool.decidableOn recorded _ (recordedAlone_iff h P)

/-- A run in which extenders are gone when their stream is recorded again. -/
def Service.Watched (V : Service) (P₀ : Pool V.machine) : Pool V.machine → History × Watch → Prop :=
  Pool.Run V.observe (fun γ P e ↦ Service.Public e ∧ RecordedAlone γ.1 P e)
    (P₀, (.init V P₀.state.server, ⟨fun _ ↦ none, ∅⟩))

end Watch

/-- **What holds as long as extenders are gone in time.** -/
structure Minded (V : Service) (P : Pool V.machine) (γ : History × Watch) : Prop where
  /-- The service is sound. -/
  sound : Sound V P γ.1
  /-- An extender looks after the record it was started for. -/
  own : ∀ t c m l info, P.Live t c (.startExtendingKey m l info) →
    (γ.1.session t).tends = some ⟨l, m, info⟩
  /-- What is recorded is what is looked after. -/
  record_eq : ∀ t c f info, P.Live t c f → P.isOver t = false →
    (γ.1.session t).tends = some info → ∀ record,
      (P.state.clients c).streamLocks.lookup info.lbsInfo.dataStreamName = some record →
        record.lbsInfo = info.lbsInfo
  /-- An extender about to extend has just found its own record. -/
  found : ∀ t c f, P.Live t c f → ∀ info, γ.1.session t = .extending info →
    γ.2.found t = some info.lbsInfo
  /-- A popped record is not replaced as long as somebody looks after it. -/
  done : ∀ t c f info, P.Live t c f → P.isOver t = false →
    (γ.1.session t).tends = some info → (c, info.lbsInfo) ∈ γ.2.done →
      (P.state.clients c).streamLocks.lookup info.lbsInfo.dataStreamName = none

namespace Minded

variable {V : Service} {γ : History × Watch} {P P' : Pool V.machine} {e : Event V.machine}

/-- **Who looks after a record** did so before, has just recorded it, or is the extender
that was just started by whoever did. -/
theorem tends_step (hS : Sound V P γ.1) (hs : Pool.Step P e P') (hpub : Service.Public e)
    {t c : Nat} {f : Call} {info : StreamLocksInfo} (hl : P'.Live t c f)
    (hover : P'.isOver t = false) (ht : ((γ.1.update V P e).session t).tends = some info) :
    (∃ u g, P.Live u c g ∧ P.isOver u = false ∧ (γ.1.session u).tends = some info) ∨
      ∃ ch r g, e = .op (M := V.machine) t c
        (.putStreamLocks info.lbsInfo.dataStreamName info) ch r g := by
  rcases hs.live_iff.1 hl with ⟨hl, -⟩ | ⟨rfl, hst⟩
  · by_cases hm : e.mover = some t
    · cases e with
      | op t' c' o ch r g =>
        obtain rfl : t' = t := Option.some.inj hm
        obtain ⟨f', hl'⟩ := hs.op_live
        obtain ⟨rfl, rfl⟩ := hl.unique hl'
        have hok : (γ.1.session t').Ok V.json (V.client c) o := hS.obeying.ok hs
        have hnext : (γ.1.update V P (.op t' c o ch r g)).session t' =
            (γ.1.session t').next V.json (V.client c) o r := History.session_op hl.lt_length
        rw [hnext] at ht
        rcases Session.tends_next hok ht with hold | ⟨-, rfl⟩
        · exact .inl ⟨t', f, hl, Pool.isOver_of_op hs, hold⟩
        · exact .inr ⟨ch, r, g, rfl⟩
      | _ => cases hm
    · rw [History.session_of_mover_ne hl.lt_length hm] at ht
      exact .inl ⟨t, f, hl, Pool.isOver_step hs hl.lt_length hover, ht⟩
  · rw [History.session_starts hst] at ht
    cases e with
    | op u d o ch r g =>
      obtain ⟨g', rfl, hg⟩ := Option.map_eq_some_iff.1 hst
      obtain ⟨rfl, rfl⟩ := Prod.mk.inj hg
      obtain ⟨m, l, i, rfl, rfl⟩ := World.exec_fork hs.op_exec
      obtain rfl : StreamLocksInfo.mk l m i = info := Option.some.inj ht
      obtain ⟨f, hl⟩ := hs.op_live
      obtain ⟨todo, hq | hq⟩ : (γ.1.session u).Ok V.json (V.client d) (.goStartExtendingKey m l i) :=
        hS.obeying.ok hs
      · exact .inl ⟨u, f, hl, Pool.isOver_of_op hs, by rw [hq]; rfl⟩
      · exact .inl ⟨u, f, hl, Pool.isOver_of_op hs, by rw [hq]; rfl⟩
    | start d g =>
      obtain ⟨rfl, rfl⟩ := Prod.mk.inj (Option.some.inj hst)
      cases g with
      | startExtendingKey m l i => exact hpub.elim
      | _ => cases ht
    | _ => cases hst

/-- Nobody else looks after a stream that is being recorded. -/
theorem not_tends_of_put {t c : Nat} {name : String} {info : StreamLocksInfo} {ch : Choice}
    {r : Unit} {g : Option Call}
    (hG : RecordedAlone γ.1 P (.op (M := V.machine) t c (.putStreamLocks name info) ch r g))
    {u : Nat} {f : Call} {info' : StreamLocksInfo} (hl : P.Live u c f) (hover : P.isOver u = false)
    (ht : (γ.1.session u).tends = some info') : info'.lbsInfo.dataStreamName ≠ name := by
  obtain ⟨p, hp⟩ := id hl
  exact hG u hl.lt_length hover (by rw [hp]; rfl) info' ht

/-- What is noted of a goroutine that does not look is what was noted before. -/
theorem found_update {x : Watch} {h : History} {t : Nat}
    (hne : ∀ c name ch r f, e ≠ .op (M := V.machine) t c (.isStreamProcessingDone name) ch r f) :
    (x.update h P e).found t = x.found t := by
  cases e with
  | op u c o ch r f =>
    cases o with
    | isStreamProcessingDone name =>
      have htu : t ≠ u := by
        rintro rfl
        exact hne c name ch r f rfl
      simp [Watch.update, Function.update_of_ne htu]
    | _ => rfl
  | _ => rfl

/-- **Who is about to extend** was so before, and has not looked since, or has just
looked. -/
theorem extending_step (hS : Sound V P γ.1) (hs : Pool.Step P e P') {t c : Nat} {f : Call}
    {info : StreamLocksInfo} (hl : P'.Live t c f)
    (ht : (γ.1.update V P e).session t = .extending info) :
    (P.Live t c f ∧ γ.1.session t = .extending info ∧
        (γ.2.update γ.1 P e).found t = γ.2.found t) ∨
      ∃ ch g, P.Live t c f ∧ (γ.1.session t).tends = some info ∧ e = .op (M := V.machine) t c
        (.isStreamProcessingDone info.lbsInfo.dataStreamName) ch false g := by
  rcases hs.live_iff.1 hl with ⟨hl, -⟩ | ⟨rfl, hst⟩
  · by_cases hm : e.mover = some t
    · cases e with
      | op t' c' o ch r g =>
        obtain rfl : t' = t := Option.some.inj hm
        obtain ⟨f', hl'⟩ := hs.op_live
        obtain ⟨rfl, rfl⟩ := hl.unique hl'
        have hok : (γ.1.session t').Ok V.json (V.client c) o := hS.obeying.ok hs
        have hnext : (γ.1.update V P (.op t' c o ch r g)).session t' =
            (γ.1.session t').next V.json (V.client c) o r := History.session_op hl.lt_length
        rw [hnext] at ht
        by_cases hlook : ∃ name, o = .isStreamProcessingDone name
        · obtain ⟨name, rfl⟩ := hlook
          obtain ⟨info', hq, rfl⟩ := id hok
          rcases hq with hq | hq | hq <;> rw [hq] at ht <;> rcases r with _ | _ <;> cases ht
          exact .inr ⟨ch, g, hl, by rw [hq]; rfl, rfl⟩
        · have hne : ∀ name, o ≠ .isStreamProcessingDone name := fun name h ↦ hlook ⟨name, h⟩
          refine .inl ⟨hl, Session.extending_next hok hne ht, found_update ?_⟩
          rintro c name ch r f h
          cases h
          exact hne name rfl
      | _ => cases hm
    · rw [History.session_of_mover_ne hl.lt_length hm] at ht
      refine .inl ⟨hl, ht, found_update ?_⟩
      rintro c name ch r f rfl
      exact hm rfl
  · rw [History.session_starts hst] at ht
    cases f <;> cases ht

/-- A popped record was popped before, or has just been. -/
theorem mem_done_update {x : Watch} {h : History} {c : Nat} {l : LBSInfo}
    (hd : (c, l) ∈ (x.update h P e).done) :
    (c, l) ∈ x.done ∨ ∃ t name ch r g, e = .op (M := V.machine) t c (.popStreamLocksInfo name)
      ch r g ∧ World.recorded P.state c name = some l := by
  cases e with
  | op t d o ch r g =>
    cases o with
    | popStreamLocksInfo name =>
      rcases hd with hd | ⟨-, rfl, hrec⟩
      · exact .inl hd
      · exact .inr ⟨t, name, ch, r, g, rfl, hrec⟩
    | putStreamLocks name info => exact .inl hd.1
    | _ => exact .inl hd
  | _ => exact .inl hd

/-- Extenders keep to their own record. -/
theorem own_step (hM : Minded V P γ) (hs : Pool.Step P e P') {t c : Nat} {m : RedsyncMutex}
    {l : LBSInfo} {info : GoMap Value} (hl : P'.Live t c (.startExtendingKey m l info)) :
    ((γ.1.update V P e).session t).tends = some ⟨l, m, info⟩ := by
  have hS := hM.sound
  refine hS.obeying.each (K := V.contract) (I := fun _ f q ↦ f.role = q.role ∧ ∀ m l info,
    f = .startExtendingKey m l info → q.tends = some ⟨l, m, info⟩) (Q := fun _ f q ↦
      ∀ m l info, f = .startExtendingKey m l info → q.tends = some ⟨l, m, info⟩) hs ?_ ?_ ?_ ?_
    t c _ hl m l info rfl
  · intro t c f hl
    refine ⟨(hS.plays t c f hl).symm, ?_⟩
    rintro m l info rfl
    exact hM.own t c m l info hl
  · rintro t c f - - - ⟨-, hq⟩
    exact hq
  · rintro t c f o ch r g - - hok - ⟨hrole, hq⟩ m l info rfl
    exact (Session.tends_next_of_extender hrole.symm hok r).trans (hq m l info rfl)
  · rintro c f - m l info rfl
    rfl

/-- What is recorded is what is looked after. -/
theorem record_eq_step (hM : Minded V P γ) (hs : Pool.Step P e P') (hpub : Service.Public e)
    (hG : RecordedAlone γ.1 P e) {t c : Nat} {f : Call} {info record : StreamLocksInfo}
    (hl : P'.Live t c f) (hover : P'.isOver t = false)
    (ht : ((γ.1.update V P e).session t).tends = some info)
    (hrec : (P'.state.clients c).streamLocks.lookup info.lbsInfo.dataStreamName = some record) :
    record.lbsInfo = info.lbsInfo := by
  rcases tends_step hM.sound hs hpub hl hover ht with ⟨u, g, hu, hover, hu'⟩ | ⟨ch, r, g, rfl⟩
  · rcases record_step hs hrec with hold | ⟨v, ch, r, f, rfl⟩
    · exact hM.record_eq u c g info hu hover hu' record hold
    · exact absurd rfl (not_tends_of_put hG hu hover hu')
  · have hx : World.exec c (.putStreamLocks info.lbsInfo.dataStreamName info) ch P.state =
        some (r, P'.state, g) := hs.op_exec
    rw [World.exec_putStreamLocks hx] at hrec
    obtain rfl : info = record := by simpa [World.setClient] using hrec
    rfl

/-- What an extender about to extend has found. -/
theorem found_step (hM : Minded V P γ) (hs : Pool.Step P e P') {t c : Nat} {f : Call}
    {info : StreamLocksInfo} (hl : P'.Live t c f)
    (ht : (γ.1.update V P e).session t = .extending info) :
    (γ.2.update γ.1 P e).found t = some info.lbsInfo := by
  rcases extending_step hM.sound hs hl ht with ⟨hl, ht, hsame⟩ | ⟨ch, g, hl, htends, rfl⟩
  · exact hsame.trans (hM.found t c f hl info ht)
  · have hx : World.exec c (.isStreamProcessingDone info.lbsInfo.dataStreamName) ch P.state =
        some (false, P'.state, g) := hs.op_exec
    obtain ⟨record, hrec⟩ := Option.isSome_iff_exists.1
      (Option.isNone_eq_false_iff.1 (World.exec_isStreamProcessingDone hx).symm)
    have heq := hM.record_eq t c f info hl (Pool.isOver_of_op hs) htends record hrec
    simp [Watch.update, World.recorded, hrec, heq]

/-- A popped record is not replaced. -/
theorem done_step (hM : Minded V P γ) (hs : Pool.Step P e P') (hpub : Service.Public e)
    (hG : RecordedAlone γ.1 P e) {t c : Nat} {f : Call} {info : StreamLocksInfo}
    (hl : P'.Live t c f) (hover : P'.isOver t = false)
    (ht : ((γ.1.update V P e).session t).tends = some info)
    (hdone : (c, info.lbsInfo) ∈ (γ.2.update γ.1 P e).done) :
    (P'.state.clients c).streamLocks.lookup info.lbsInfo.dataStreamName = none := by
  rcases tends_step hM.sound hs hpub hl hover ht with ⟨u, g, hu, hover, hu'⟩ | ⟨ch, r, g, rfl⟩
  · rcases mem_done_update hdone with hold | ⟨v, name, ch, r, g', rfl, hrec⟩
    · refine Option.eq_none_iff_forall_ne_some.2 fun record hrec ↦ ?_
      rcases record_step hs hrec with hrec | ⟨v, ch, r, f, rfl⟩
      · rw [hM.done u c g info hu hover hu' hold] at hrec
        cases hrec
      · exact not_tends_of_put hG hu hover hu' rfl
    · obtain ⟨record, hrec, hinfo⟩ := Option.map_eq_some_iff.1 hrec
      have hname := (hM.sound.records c name record hrec).2
      have hx : World.exec c (.popStreamLocksInfo name) ch P.state = some (r, P'.state, g') :=
        hs.op_exec
      rw [(World.exec_popStreamLocksInfo hx).2, ← hinfo, ← hname]
      simp [World.setClient]
  · simp [Watch.update] at hdone

/-- **The invariant is kept by every event**, if extenders are gone in time. -/
theorem step (hM : Minded V P γ) (hs : Pool.Step P e P') (hpub : Service.Public e)
    (hG : RecordedAlone γ.1 P e) : Minded V P' (V.observe γ P e) where
  sound := hM.sound.step hs hpub
  own _ _ _ _ _ hl := hM.own_step hs hl
  record_eq _ _ _ _ hl hover ht _ hrec := hM.record_eq_step hs hpub hG hl hover ht hrec
  found _ _ _ hl _ ht := hM.found_step hs hl ht
  done _ _ _ _ hl hover ht hdone := hM.done_step hs hpub hG hl hover ht hdone

theorem init (h₀ : Fresh V P) :
    Minded V P (.init V P.state.server, ⟨fun _ ↦ none, ∅⟩) where
  sound := h₀.sound
  own _ _ _ _ _ hl := absurd hl h₀.not_live
  record_eq _ _ _ _ hl := absurd hl h₀.not_live
  found _ _ _ hl := absurd hl h₀.not_live
  done _ _ _ _ hl := absurd hl h₀.not_live

theorem of_run {P₀ : Pool V.machine} (h₀ : Fresh V P₀) (hr : V.Watched P₀ P γ) : Minded V P γ := by
  refine Pool.Run.invariant (I := Minded V) (init h₀) ?_ hr
  rintro P γ e P' hM ⟨hpub, hG⟩ hs
  exact hM.step hs hpub hG

end Minded

/-- **Extenders keep to their own record.**  In every run in which extenders are gone when
their stream is recorded again, take the extender that was started for `l`: it extends only
after it has found `l` recorded, it removes no record but that of `l`, and once `DoneStream`
has removed that one, its next look ends its loop. -/
theorem extender_minds_own_record (V : Service) (P₀ P : Pool V.machine) (γ : History × Watch)
    (h₀ : Fresh V P₀) (hr : V.Watched P₀ P γ) (t c : Nat) (m : RedsyncMutex) (l : LBSInfo)
    (info : GoMap Value) (hl : P.Live t c (.startExtendingKey m l info)) :
    (∀ m' ch r g P', Pool.Step P (.op (M := V.machine) t c (.extend m') ch r g) P' →
      m' = m ∧ γ.2.found t = some l) ∧
    (∀ name ch record g P', Pool.Step P
      (.op (M := V.machine) t c (.popStreamLocksInfo name) ch (some record) g) P' →
        record.lbsInfo = l) ∧
    ((c, l) ∈ γ.2.done → ∀ name ch r g P', Pool.Step P
      (.op (M := V.machine) t c (.isStreamProcessingDone name) ch r g) P' →
        r = true ∧ (γ.1.update V P (.op t c (.isStreamProcessingDone name) ch r g)).session t =
          .leaving ⟨l, m, info⟩) := by
  have hM := Minded.of_run h₀ hr
  have htends := hM.own t c m l info hl
  refine ⟨?_, ?_, ?_⟩
  · intro m' ch r g P' hs
    obtain ⟨info', hq, rfl⟩ : (γ.1.session t).Ok V.json (V.client c) (.extend m') :=
      hM.sound.obeying.ok hs
    have hfound := hM.found t c _ hl info' hq
    rw [hq] at htends
    obtain rfl : info' = ⟨l, m, info⟩ := Option.some.inj htends
    exact ⟨rfl, hfound⟩
  · intro name ch record g P' hs
    have hx : World.exec c (.popStreamLocksInfo name) ch P.state =
        some (some record, P'.state, g) := hs.op_exec
    have hrec := (World.exec_popStreamLocksInfo hx).1
    have hok : (γ.1.session t).Ok V.json (V.client c) (.popStreamLocksInfo name) :=
      hM.sound.obeying.ok hs
    rcases hok with hq | ⟨info', hq, rfl⟩ <;> rw [hq] at htends
    · cases htends
    · obtain rfl : info' = ⟨l, m, info⟩ := Option.some.inj htends
      exact hM.record_eq t c _ _ hl (Pool.isOver_of_op hs) (by rw [hq]; rfl) record hrec.symm
  · intro hdone name ch r g P' hs
    obtain ⟨info', hq, rfl⟩ : (γ.1.session t).Ok V.json (V.client c)
        (.isStreamProcessingDone name) := hM.sound.obeying.ok hs
    obtain rfl : info' = ⟨l, m, info⟩ := by
      rcases hq with hq | hq | hq <;> rw [hq] at htends <;> exact Option.some.inj htends
    have hnone := hM.done t c _ _ hl (Pool.isOver_of_op hs) htends hdone
    have hx : World.exec c (.isStreamProcessingDone l.dataStreamName) ch P.state =
        some (r, P'.state, g) := hs.op_exec
    obtain rfl : r = true := by rw [World.exec_isStreamProcessingDone hx, hnone]; rfl
    have hnext : (γ.1.update V P
        (.op t c (.isStreamProcessingDone l.dataStreamName) ch true g)).session t =
          (γ.1.session t).next V.json (V.client c) (.isStreamProcessingDone l.dataStreamName) true :=
      History.session_op hl.lt_length
    refine ⟨rfl, hnext.trans ?_⟩
    rcases hq with hq | hq | hq <;> rw [hq] <;> rfl

namespace Demo

/-- The event is an extension by goroutine 1 of client `a`. -/
def isExtend : Event service.machine → Bool
  | .op 1 0 (.extend _) _ _ _ => true
  | _ => false

theorem exists_of_isExtend {e : Event service.machine} (h : isExtend e = true) :
    ∃ m ch r g, e = .op (M := service.machine) 1 0 (.extend m) ch r g := by
  unfold isExtend at h
  split at h
  · exact ⟨_, _, _, _, rfl⟩
  · cases h

/-- By the event goroutine 1 of client `a` removes the record of an entry. -/
def removes (id : String) : Event service.machine → Bool
  | .op 1 0 (.popStreamLocksInfo _) _ reply _ =>
    Option.any (fun record ↦ record.lbsInfo.idInLBS == id) reply
  | _ => false

theorem exists_of_removes {e : Event service.machine} {id : String} (h : removes id e = true) :
    ∃ name ch record g, e = .op (M := service.machine) 1 0 (.popStreamLocksInfo name) ch
      (some record) g ∧ record.lbsInfo.idInLBS = id := by
  unfold removes at h
  split at h
  · obtain ⟨record, hr, hid⟩ := (Option.any_eq_true _ _).1 h
    exact ⟨_, _, record, _, by rw [← hr], beq_iff_eq.1 hid⟩
  · cases h

/-- The call is an extender of the entry `1-0`. -/
def extendsFirst : Call → Bool
  | .startExtendingKey _ l _ => l.idInLBS == "1-0"
  | _ => false

theorem exists_of_extendsFirst {f : Call} (h : extendsFirst f = true) :
    ∃ m l info, f = .startExtendingKey m l info ∧ l.idInLBS = "1-0" := by
  unfold extendsFirst at h
  split at h
  · exact ⟨_, _, _, rfl, beq_iff_eq.1 h⟩
  · cases h

/-- Goroutine 1 of client `a`, if it passes the test, is the extender of `1-0`. -/
theorem live_of_extendsFirst {P P' : Pool service.machine} {o : Op} {ch : Choice} {r : o.Reply}
    {g : Option Call} (hs : Pool.Step P (.op (M := service.machine) 1 0 o ch r g) P')
    (h : P.threads[1]?.any (fun th ↦ th.prog.isSome && extendsFirst th.call) = true) :
    ∃ m l info, P.Live 1 0 (.startExtendingKey m l info) ∧ l.idInLBS = "1-0" := by
  obtain ⟨c, f, hl, hfirst⟩ := Pool.exists_live_of_any h
  obtain ⟨m, l, info, rfl, hid⟩ := exists_of_extendsFirst hfirst
  obtain ⟨f, hl'⟩ := hs.op_live
  obtain ⟨rfl, -⟩ := hl.unique hl'
  exact ⟨m, l, info, hl, hid⟩

/-- The extender is about to extend for the first time. -/
def extendingFirst : Pool service.machine × History × Watch :=
  (Pool.schedule service.observe (fun γ P e ↦ Service.Public e ∧ RecordedAlone γ.1 P e)
    (owned ++ ops 1 2) (idle, (.init service idle.state.server, ⟨fun _ ↦ none, ∅⟩))).get
      (by decide +kernel)

/-- Before the extender of `1-0` looks, `DoneStream` is called and the stream is recorded
again, as `2-0`. -/
def recordedAgain : List (Pool.Label service.machine) :=
  owned ++ [.start 0 (.doneStream "orders")] ++ ops 2 4 ++ [produce 2 "orders", .again 0] ++
    ops 0 5 ++ ops 1 2

/-- The extender of `1-0` has found the record of `2-0` and is about to extend. -/
def mistaken : Pool service.machine × History × Watch :=
  (Pool.schedule service.observe (fun _ _ e ↦ Service.Public e) recordedAgain
    (idle, (.init service idle.state.server, ⟨fun _ ↦ none, ∅⟩))).get (by decide +kernel)

/-- Its extension has failed, and it is about to remove the record. -/
def removing : Pool service.machine × History × Watch :=
  (Pool.schedule service.observe (fun _ _ e ↦ Service.Public e)
    (recordedAgain ++ [.op 1 .failing] ++ ops 1 4)
    (idle, (.init service idle.state.server, ⟨fun _ ↦ none, ∅⟩))).get (by decide +kernel)

end Demo

/-- The extender of the entry `1-0` has found it recorded when it extends for the first
time. -/
theorem extender_minds_own_record_first :
    ∃ m ch r g P' l, Pool.Step Demo.extendingFirst.1
        (.op (M := Demo.service.machine) 1 0 (.extend m) ch r g) P' ∧ l.idInLBS = "1-0" ∧
      Demo.extendingFirst.2.2.found 1 = some l := by
  have hstep : (Demo.extendingFirst.1.step? (.op 1 .plain)).any (fun p ↦ Demo.isExtend p.1) =
      true := by decide +kernel
  obtain ⟨e, P', hs, htest⟩ := Pool.exists_step_of_any hstep
  obtain ⟨m, ch, r, g, rfl⟩ := Demo.exists_of_isExtend htest
  obtain ⟨m', l, info, hl, hid⟩ := Demo.live_of_extendsFirst hs (by decide +kernel)
  exact ⟨m, ch, r, g, P', l, hs, hid, ((extender_minds_own_record Demo.service Demo.idle
    Demo.extendingFirst.1 Demo.extendingFirst.2 Demo.fresh_idle (Pool.run_of_isSome _) 1 0 m' l info
    hl).1 m ch r g P' hs).2⟩

/-- **An extender acts for an entry that is not its own.**  Its entry `1-0` is finished and
its stream recorded again, as `2-0`, between two of its looks.  It goes on extending the lock
of `1-0`, and when that fails it removes the record of `2-0`. -/
theorem extender_minds_other_record :
    Fresh Demo.service Demo.idle ∧
      Pool.Run Demo.service.observe (fun _ _ e ↦ Service.Public e)
        (Demo.idle, (.init Demo.service Demo.idle.state.server, ⟨fun _ ↦ none, ∅⟩))
        Demo.mistaken.1 Demo.mistaken.2 ∧
      Pool.Run Demo.service.observe (fun _ _ e ↦ Service.Public e)
        (Demo.idle, (.init Demo.service Demo.idle.state.server, ⟨fun _ ↦ none, ∅⟩))
        Demo.removing.1 Demo.removing.2 ∧
      (∃ m l info, Demo.mistaken.1.Live 1 0 (.startExtendingKey m l info) ∧ l.idInLBS = "1-0") ∧
      Demo.mistaken.2.2.found 1 = some ⟨"orders", "2-0"⟩ ∧
      (∃ m ch r g P', Pool.Step Demo.mistaken.1
        (.op (M := Demo.service.machine) 1 0 (.extend m) ch r g) P') ∧
      (∃ m l info, Demo.removing.1.Live 1 0 (.startExtendingKey m l info) ∧ l.idInLBS = "1-0") ∧
      ∃ name ch record g P', Pool.Step Demo.removing.1
        (.op (M := Demo.service.machine) 1 0 (.popStreamLocksInfo name) ch (some record) g) P' ∧
          record.lbsInfo.idInLBS = "2-0" := by
  have hextend : (Demo.mistaken.1.step? (.op 1 .plain)).any (fun p ↦ Demo.isExtend p.1) = true := by
    decide +kernel
  obtain ⟨e, P₁, hs₁, htest⟩ := Pool.exists_step_of_any hextend
  obtain ⟨m, ch₁, r, g₁, rfl⟩ := Demo.exists_of_isExtend htest
  have hpop : (Demo.removing.1.step? (.op 1 .plain)).any (fun p ↦ Demo.removes "2-0" p.1) =
      true := by decide +kernel
  obtain ⟨e, P₂, hs₂, htest⟩ := Pool.exists_step_of_any hpop
  obtain ⟨name, ch₂, record, g₂, rfl, hid⟩ := Demo.exists_of_removes htest
  exact ⟨Demo.fresh_idle, Pool.run_of_isSome _, Pool.run_of_isSome _,
    Demo.live_of_extendsFirst hs₁ (by decide +kernel), by decide +kernel,
    ⟨m, ch₁, r, g₁, P₁, hs₁⟩, Demo.live_of_extendsFirst hs₂ (by decide +kernel),
    name, ch₂, record, g₂, P₂, hs₂, hid⟩

end RedisStreamClient.Impl

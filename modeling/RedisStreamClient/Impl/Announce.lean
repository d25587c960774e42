import RedisStreamClient.Impl.Custody
import RedisStreamClient.Impl.Herald
import RedisStreamClient.Impl.Knowledge

/-!
# The notifications about an entry

A client tells its user about an entry of the LBS at most twice: `StreamAdded` when it has taken
the entry, and `StreamDisowned` when it has lost its lock.  `said` is what a list of
notifications says about an entry, and the result is that what arrives on the output channel
says a part of that, in this order, whatever the goroutines of this and of other clients do, and
whichever Redis commands fail.

It rests on three things.  A read hands an entry to one goroutine, which passes it on to the
extender: `Handout`.  The notification is offered once, and an extender offers its own only if
that of the reader was accepted: `Herald.Knows`.  And the broker is a queue.
-/

namespace RedisStreamClient.Impl

open RedisStreamClient.Lib RedisStreamClient.Errs RedisStreamClient.Notifs
open RedisStreamClient.Redis

/-! ## What was said -/

/-- The notification is about an entry that the client has taken. -/
def isEntry (m : RecoverableRedisNotification) : Bool :=
  decide (m.type = .streamAdded ∨ m.type = .streamDisowned)

/-- What notifications say about an entry. -/
def said (ms : List RecoverableRedisNotification) (l : LBSInfo) : List NotificationType :=
  (ms.filter fun m ↦ isEntry m && decide (m.payload = l)).map (·.type)

/-- The notification tells this of the entry. -/
def Tells (type : NotificationType) (l : LBSInfo) (m : RecoverableRedisNotification) : Prop :=
  m.type = type ∧ m.payload = l

instance instDecidableTells (type : NotificationType) (l : LBSInfo)
    (m : RecoverableRedisNotification) : Decidable (Tells type l m) :=
  inferInstanceAs (Decidable (_ ∧ _))

/-- Nothing was said about an entry with this ID. -/
def Unsaid (ms : List RecoverableRedisNotification) (id : String) : Prop :=
  ∀ l : LBSInfo, l.idInLBS = id → said ms l = []

section

variable {ms ms' : List RecoverableRedisNotification} {m : RecoverableRedisNotification}
  {l : LBSInfo} {id : String}

theorem said_append (ms ms' : List RecoverableRedisNotification) (l : LBSInfo) :
    said (ms ++ ms') l = said ms l ++ said ms' l := by
  simp [said]

theorem said_of_ne (h : isEntry m = true → m.payload ≠ l) : said [m] l = [] := by
  by_cases hm : isEntry m = true
  · simp [said, hm, h hm]
  · simp [said, hm]

theorem said_payload (h : isEntry m = true) : said [m] m.payload = [m.type] := by
  simp [said, h]

theorem said_append_of_ne (h : isEntry m = true → m.payload ≠ l) :
    said (ms ++ [m]) l = said ms l := by
  rw [said_append, said_of_ne h, List.append_nil]

theorem said_append_payload (h : isEntry m = true) :
    said (ms ++ [m]) m.payload = said ms m.payload ++ [m.type] := by
  rw [said_append, said_payload h]

theorem Unsaid.append (h : Unsaid ms id) (hm : isEntry m = true → m.payload.idInLBS ≠ id) :
    Unsaid (ms ++ [m]) id := by
  intro l hl
  rw [said_append_of_ne, h l hl]
  rintro hentry rfl
  exact hm hentry hl

/-- What a prefix says is a prefix of what is said. -/
theorem said_mono (h : ms <+: ms') (l : LBSInfo) : said ms l <+: said ms' l := by
  obtain ⟨ms'', rfl⟩ := h
  exact ⟨said ms'' l, (said_append ms ms'' l).symm⟩

/-- What is told of an entry in order is told once. -/
theorem countP_le_one (h : said ms l <+: [.streamAdded, .streamDisowned]) {type : NotificationType}
    (htype : type = .streamAdded ∨ type = .streamDisowned) :
    ms.countP (Tells type l ·) ≤ 1 := by
  have hentry {m : RecoverableRedisNotification} (hm : m.type = type) : isEntry m = true :=
    decide_eq_true (hm ▸ htype)
  have hcount : ms.countP (Tells type l ·) = (said ms l).count type := by
    rw [said, List.count, List.countP_map, List.countP_filter]
    refine List.countP_congr fun m _ ↦ decide_eq_true_iff.trans ?_
    simp only [Function.comp, Bool.and_eq_true, beq_iff_eq, decide_eq_true_eq]
    exact ⟨fun h ↦ ⟨h.1, hentry h.1, h.2⟩, fun h ↦ ⟨h.1, h.2.2⟩⟩
  rw [hcount]
  refine (h.sublist.count_le type).trans ?_
  rcases htype with rfl | rfl <;> decide

/-- In what is told in order, the loss of an entry comes after the entry. -/
theorem exists_added_of_prefix
    (h : said (ms ++ m :: ms') l <+: [.streamAdded, .streamDisowned])
    (hm : Tells .streamDisowned l m) : ∃ a ∈ ms, Tells .streamAdded l a := by
  have hentry : isEntry m = true := decide_eq_true (.inr hm.1)
  obtain ⟨htype, rfl⟩ := hm
  have hsaid : said (ms ++ m :: ms') m.payload =
      said ms m.payload ++ .streamDisowned :: said ms' m.payload := by
    rw [said_append, ← List.singleton_append, said_append, said_payload hentry, htype]
    rfl
  rw [hsaid] at h
  cases hms : said ms m.payload with
  | nil =>
    rw [hms] at h
    cases (List.cons_prefix_cons.1 h).1
  | cons a as =>
    rw [hms] at h
    obtain rfl := (List.cons_prefix_cons.1 h).1
    have hmem : NotificationType.streamAdded ∈ said ms m.payload := hms ▸ List.mem_cons_self
    obtain ⟨b, hb, hadded⟩ := List.mem_map.1 hmem
    have hfilter := List.mem_filter.1 hb
    simp only [Bool.and_eq_true, decide_eq_true_eq] at hfilter
    exact ⟨b, hfilter.1, hadded, hfilter.2.2⟩

end

/-! ## What a goroutine knows -/

/-- The entry was announced, or it was not and never will be. -/
def Announced (ms : List RecoverableRedisNotification) (l : LBSInfo) (closed done : Bool) : Prop :=
  said ms l = [.streamAdded] ∨ (Unsaid ms l.idInLBS ∧ (closed = true ∨ done = true))

namespace Herald

/-- The IDs of the entries that a goroutine is in charge of. -/
def ids : Herald → List String
  | .reads ids | .asks ids _ => ids
  | .told l ids => l.idInLBS :: ids
  | .tends l _ _ => [l.idInLBS]
  | .aside | .relays _ | .runs _ | .closes _ => []

/-- What a goroutine knows of the notifications that were accepted, of the broker being closed
and of its context being done. -/
def Knows (ms : List RecoverableRedisNotification) (closed done : Bool) : Herald → Prop
  | .aside => True
  | .relays m => isEntry m = false
  | .runs hand => hand.length ≤ 1
  | .closes swapped => swapped = true → closed = true
  | .reads ids => ∀ id ∈ ids, Unsaid ms id
  | .asks ids seen => (∀ id ∈ ids, Unsaid ms id) ∧ (seen = true → closed = true)
  | .told l ids => (∀ id ∈ ids, Unsaid ms id) ∧ Announced ms l closed done
  | .tends l live opened => Announced ms l closed (done && !live) ∧
    (opened = true → said ms l = [.streamAdded])

end Herald

theorem Announced.mono {ms : List RecoverableRedisNotification} {l : LBSInfo}
    {closed done closed' done' : Bool} (h : Announced ms l closed done)
    (hclosed : closed = true → closed' = true) (hdone : done = true → done' = true) :
    Announced ms l closed' done' :=
  h.imp id fun h ↦ ⟨h.1, h.2.imp hclosed hdone⟩

theorem Announced.append {ms : List RecoverableRedisNotification} {l : LBSInfo}
    {m : RecoverableRedisNotification} {closed done : Bool} (h : Announced ms l closed done)
    (hm : isEntry m = true → m.payload.idInLBS ≠ l.idInLBS) :
    Announced (ms ++ [m]) l closed done := by
  rcases h with h | ⟨h, hwhy⟩
  · left
    rw [said_append_of_ne, h]
    rintro hentry rfl
    exact hm hentry rfl
  · exact .inr ⟨h.append hm, hwhy⟩

namespace Herald

variable {ms : List RecoverableRedisNotification} {m : RecoverableRedisNotification}
  {closed done closed' done' : Bool} {h : Herald} {r : Client}

theorem Knows.mono (hk : h.Knows ms closed done) (hclosed : closed = true → closed' = true)
    (hdone : done = true → done' = true) : h.Knows ms closed' done' := by
  cases h with
  | closes swapped => exact fun hs ↦ hclosed (hk hs)
  | asks ids seen => exact ⟨hk.1, fun hs ↦ hclosed (hk.2 hs)⟩
  | told l ids => exact ⟨hk.1, hk.2.mono hclosed hdone⟩
  | tends l live opened =>
    refine ⟨hk.1.mono hclosed ?_, hk.2⟩
    intro h
    rw [Bool.and_eq_true] at h ⊢
    exact ⟨hdone h.1, h.2⟩
  | _ => exact hk

/-- A goroutine does not mind what is said about entries of others. -/
theorem Knows.append (hk : h.Knows ms closed done)
    (hm : isEntry m = true → m.payload.idInLBS ∉ h.ids) : h.Knows (ms ++ [m]) closed done := by
  have hids {ids : List String} (hk : ∀ id ∈ ids, Unsaid ms id)
      (hm : isEntry m = true → m.payload.idInLBS ∉ ids) : ∀ id ∈ ids, Unsaid (ms ++ [m]) id :=
    fun id hid ↦ (hk id hid).append fun he heq ↦ hm he (heq ▸ hid)
  cases h with
  | reads ids => exact hids hk hm
  | asks ids seen => exact ⟨hids hk.1 hm, hk.2⟩
  | told l ids =>
    refine ⟨hids hk.1 fun he hmem ↦ hm he (List.mem_cons_of_mem _ hmem), hk.2.append ?_⟩
    intro he heq
    exact hm he (heq ▸ List.mem_cons_self)
  | tends l live opened =>
    have hne : isEntry m = true → m.payload.idInLBS ≠ l.idInLBS :=
      fun he heq ↦ hm he (heq ▸ List.mem_cons_self)
    refine ⟨hk.1.append hne, fun hop ↦ ?_⟩
    rw [said_append_of_ne, hk.2 hop]
    rintro he rfl
    exact hne he rfl
  | _ => exact hk

end Herald

/-! ## The broker -/

namespace Herald

variable {b b' : Broker} {done : Bool} {o : Broker.Op} {case : Broker.Case} {x : o.Reply}

/-- What `Send` offers is refused, as the context is done or the broker is closing, or taken. -/
theorem select_cases {ctx : Nat} {m : RecoverableRedisNotification} {x : Broker.SendCase}
    (hx : Broker.step (fun _ ↦ done) (.select ctx m) case b = some (x, b')) :
    (b' = b ∧ Broker.Op.accepts b.inputClosed (.select ctx m) x = [] ∧
        (done = true ∨ b.quitClosed = true)) ∨
      b'.panicked = true ∨
      Broker.Op.accepts b.inputClosed (.select ctx m) x = [m] := by
  cases case with
  | ctx =>
    rw [Broker.step] at hx
    split at hx
    · next hdone =>
      obtain ⟨rfl, rfl⟩ := Prod.mk.inj (Option.some.inj hx)
      exact .inl ⟨rfl, rfl, .inl hdone⟩
    · cases hx
  | quit =>
    rw [Broker.step] at hx
    split at hx
    · next hquit =>
      obtain ⟨rfl, rfl⟩ := Prod.mk.inj (Option.some.inj hx)
      exact .inl ⟨rfl, rfl, .inr hquit⟩
    · cases hx
  | input =>
    obtain ⟨b₁, hput, heq⟩ := Option.map_eq_some_iff.1 hx
    obtain ⟨rfl, rfl⟩ := Prod.mk.inj heq
    unfold Broker.putInput at hput
    split at hput
    · obtain rfl := Option.some.inj hput
      exact .inr (.inl rfl)
    · next hopen => exact .inr (.inr (by simp [Broker.Op.accepts, hopen]))

/-- The flags of the broker only go up, and each by its own operation. -/
theorem step_flags (hx : Broker.step (fun _ ↦ done) o case b = some (x, b')) :
    (b.closed = true ∨ o = .compareAndSwap → b'.closed = true) ∧
      (b'.quitClosed = true → b.quitClosed = true ∨ o = .closeQuit) := by
  have hsame (hne : o ≠ .compareAndSwap) (hclosed : b'.closed = b.closed)
      (hquit : b'.quitClosed = b.quitClosed) :
      (b.closed = true ∨ o = .compareAndSwap → b'.closed = true) ∧
        (b'.quitClosed = true → b.quitClosed = true ∨ o = .closeQuit) :=
    ⟨fun h ↦ hclosed.trans (h.resolve_right hne), fun h ↦ .inl (hquit.symm.trans h)⟩
  have htake {y : Option RecoverableRedisNotification × Broker} (h : b.takeInput = some y) :
      y.2.closed = b.closed ∧ y.2.quitClosed = b.quitClosed :=
    have hflags := (Broker.takeInput_flags (m := y.1) h).1
    ⟨congrArg Broker.Flags.closed hflags, congrArg Broker.Flags.quitClosed hflags⟩
  cases o with
  | select ctx m =>
    cases case with
    | input =>
      obtain ⟨b₁, hput, heq⟩ := Option.map_eq_some_iff.1 hx
      obtain ⟨rfl, rfl⟩ := Prod.mk.inj heq
      unfold Broker.putInput at hput
      split at hput
      · obtain rfl := Option.some.inj hput
        exact hsame (by simp) rfl rfl
      · split at hput
        · obtain rfl := Option.some.inj hput
          exact hsame (by simp) rfl rfl
        · cases hput
    | ctx | quit =>
      rw [Broker.step] at hx
      split at hx
      · obtain ⟨rfl, rfl⟩ := Prod.mk.inj (Option.some.inj hx)
        exact hsame (by simp) rfl rfl
      · cases hx
  | runSelect =>
    cases case with
    | input =>
      obtain ⟨y, hy, heq⟩ := Option.map_eq_some_iff.1 hx
      obtain ⟨rfl, rfl⟩ := Prod.mk.inj heq
      exact hsame (by simp) (htake hy).1 (htake hy).2
    | ctx => cases hx
    | quit =>
      rw [Broker.step] at hx
      split at hx
      · obtain ⟨rfl, rfl⟩ := Prod.mk.inj (Option.some.inj hx)
        exact hsame (by simp) rfl rfl
      · cases hx
  | drainSelect =>
    simp only [Broker.step] at hx
    split at hx
    · next y hy =>
      obtain ⟨rfl, rfl⟩ := Prod.mk.inj (Option.some.inj hx)
      exact hsame (by simp) (htake hy).1 (htake hy).2
    · obtain ⟨rfl, rfl⟩ := Prod.mk.inj (Option.some.inj hx)
      exact hsame (by simp) rfl rfl
  | wgWait =>
    rw [Broker.step] at hx
    split at hx
    · obtain ⟨rfl, rfl⟩ := Prod.mk.inj (Option.some.inj hx)
      exact hsame (by simp) rfl rfl
    · cases hx
  | output m =>
    obtain ⟨rfl, rfl⟩ := Prod.mk.inj (Option.some.inj hx)
    refine hsame (by simp) ?_ ?_ <;> unfold Broker.putOutput <;> split <;> rfl
  | compareAndSwap =>
    obtain ⟨rfl, rfl⟩ := Prod.mk.inj (Option.some.inj hx)
    exact ⟨fun _ ↦ rfl, .inl⟩
  | closeQuit =>
    obtain ⟨rfl, rfl⟩ := Prod.mk.inj (Option.some.inj hx)
    refine ⟨fun h ↦ ?_, fun _ ↦ .inr rfl⟩
    split <;> exact h.resolve_right (by simp)
  | closeInput | closeOutput =>
    obtain ⟨rfl, rfl⟩ := Prod.mk.inj (Option.some.inj hx)
    refine hsame (by simp) ?_ ?_ <;> split <;> rfl
  | load | wgDone =>
    obtain ⟨rfl, rfl⟩ := Prod.mk.inj (Option.some.inj hx)
    exact hsame (by simp) rfl rfl

/-- Only `run` moves notifications on. -/
theorem moves_of_ok {h : Herald} (hok : h.OkBroker o) (hne : ∀ hand, h ≠ .runs hand)
    (x : o.Reply) : o.receives x = [] ∧ o.forwards = [] := by
  cases h with
  | aside | reads ids =>
    obtain rfl : o = .load := hok
    exact ⟨rfl, rfl⟩
  | relays m => rcases hok with rfl | ⟨ctx, rfl⟩ <;> exact ⟨rfl, rfl⟩
  | runs hand => exact absurd rfl (hne hand)
  | closes swapped =>
    obtain ⟨hclose, -⟩ := hok
    cases o <;> first | exact ⟨rfl, rfl⟩ | cases hclose
  | asks ids closed =>
    obtain ⟨-, ctx, m, rfl, -⟩ := hok
    exact ⟨rfl, rfl⟩
  | told l ids => exact hok.elim
  | tends l live opened =>
    obtain ⟨-, rfl | ⟨-, ctx, m, rfl, -⟩⟩ := hok <;> exact ⟨rfl, rfl⟩

theorem accepts_of_isLoop (ho : isLoop o = true) (closed : Bool) (x : o.Reply) :
    o.accepts closed x = [] := by
  cases o with
  | select ctx m => cases ho
  | _ => rfl

/-- Only `Close` closes `quit`, after it has set the flag. -/
theorem eq_closes_of_ok {h : Herald} (hok : h.OkBroker .closeQuit) : h = .closes true := by
  cases h with
  | closes swapped => rw [hok.2 rfl]
  | runs hand => cases hok.1
  | aside | reads ids => cases hok
  | relays m =>
    rcases hok with heq | ⟨ctx, heq⟩ <;> cases heq
  | asks ids closed =>
    obtain ⟨-, ctx, m, heq, -⟩ := hok
    cases heq
  | told l ids => exact hok.elim
  | tends l live opened =>
    obtain ⟨-, heq | ⟨-, ctx, m, heq, -⟩⟩ := hok <;> cases heq

/-- What is sent on the output channel arrives there, or the broker panics. -/
theorem output_cases (hx : Broker.step (fun _ ↦ done) o case b = some (x, b')) :
    b'.output = b.output ++ o.forwards ∨ (b'.output = b.output ∧ b'.panicked = true) := by
  by_cases hopen : b.outputClosed = true → o.forwards = []
  · exact .inl ((Broker.moves_of_step hx).output_eq hopen)
  · cases o with
    | output m =>
      obtain ⟨hclosed, -⟩ := Classical.not_imp.1 hopen
      obtain ⟨-, rfl⟩ := Prod.mk.inj (Option.some.inj hx)
      rw [Broker.putOutput, if_pos hclosed]
      exact .inr ⟨rfl, rfl⟩
    | _ => exact absurd (fun _ ↦ rfl) hopen

/-- **An operation on the broker leaves its goroutine with what it should know.** -/
theorem Knows.onBroker {ms : List RecoverableRedisNotification} {h : Herald}
    (hk : h.Knows ms b.closed done) (hnodup : h.ids.Nodup) (hok : h.OkBroker o)
    (hquit : b.quitClosed = true → b.closed = true)
    (hx : Broker.step (fun _ ↦ done) o case b = some (x, b')) (hcalm : b'.panicked = false) :
    (h.onBroker o x).Knows (ms ++ o.accepts b.inputClosed x) b'.closed done := by
  have hflags := step_flags hx
  cases h with
  | aside =>
    obtain rfl : o = .load := hok
    trivial
  | relays m =>
    rcases hok with rfl | ⟨ctx, rfl⟩ <;> exact hk
  | runs hand =>
    obtain ⟨-, hhand⟩ := hok
    cases o with
    | runSelect | drainSelect =>
      obtain rfl : hand = [] := hhand
      cases x with
      | recv m => cases m <;> simp [Herald.onBroker, Broker.handNext, Broker.Op.receives, Knows]
      | _ => exact Nat.zero_le 1
    | output m => exact Nat.zero_le 1
    | _ =>
      show (hand ++ []).length ≤ 1
      rw [List.append_nil]
      exact hk
  | closes swapped =>
    cases o with
    | compareAndSwap => exact fun _ ↦ hflags.1 (.inr rfl)
    | _ => exact fun hs ↦ hflags.1 (.inl (hk hs))
  | reads ids =>
    obtain rfl : o = .load := hok
    obtain ⟨rfl, rfl⟩ := Prod.mk.inj (Option.some.inj hx)
    rw [show Broker.Op.accepts b.inputClosed .load b.closed = [] from rfl, List.append_nil]
    exact ⟨hk, id⟩
  | asks ids seen =>
    obtain ⟨-, ctx, m, rfl, hm | ⟨hm, hhead⟩⟩ := hok
    · show Knows _ _ _ (if m.type = .streamAdded then _ else _)
      rw [if_neg (by rw [hm]; simp)]
      trivial
    · obtain ⟨rest, rfl⟩ : ∃ rest, ids = m.payload.idInLBS :: rest :=
        ⟨ids.tail, List.eq_cons_of_mem_head? hhead⟩
      have hentry : isEntry m = true := by simp [isEntry, hm]
      show Knows _ _ _ (if m.type = .streamAdded then _ else _)
      rw [if_pos hm]
      have hunsaid := hk.1 _ List.mem_cons_self
      rcases select_cases hx with ⟨rfl, hnone, hwhy⟩ | hpanic | hacc
      · rw [hnone, List.append_nil]
        refine ⟨fun id hid ↦ hk.1 id (List.mem_cons_of_mem _ hid), .inr ⟨hunsaid, ?_⟩⟩
        exact hwhy.symm.imp hquit id
      · cases hpanic.symm.trans hcalm
      · rw [hacc]
        refine ⟨fun id hid ↦ (hk.1 id (List.mem_cons_of_mem _ hid)).append ?_, .inl ?_⟩
        · rintro - rfl
          exact (List.nodup_cons.1 hnodup).1 hid
        · rw [said_append_payload hentry, hunsaid _ rfl, hm]
          rfl
  | told l ids => exact hok.elim
  | tends l live opened =>
    obtain ⟨rfl, rfl | ⟨-, ctx, m, rfl, -⟩⟩ := hok
    · obtain ⟨rfl, rfl⟩ := Prod.mk.inj (Option.some.inj hx)
      rw [show Broker.Op.accepts b.inputClosed .load b.closed = [] from rfl, List.append_nil]
      refine ⟨hk.1, fun hop ↦ ?_⟩
      have hopen : b.closed = false := by simpa using hop
      rcases hk.1 with hsaid | ⟨-, hclosed | hdone⟩
      · exact hsaid
      · cases hclosed.symm.trans hopen
      · simp at hdone
    · trivial

/-- **What is accepted from a goroutine** says nothing about an entry, or what comes next about
one that it is in charge of. -/
theorem accepts_cases {ms : List RecoverableRedisNotification} {h : Herald} {closed done : Bool}
    (hk : h.Knows ms closed done) (hok : h.OkBroker o) (inputClosed : Bool) (x : o.Reply) :
    o.accepts inputClosed x = [] ∨ ∃ m, o.accepts inputClosed x = [m] ∧
      (isEntry m = true → m.payload.idInLBS ∈ h.ids ∧
        said ms m.payload ++ [m.type] <+: [.streamAdded, .streamDisowned]) := by
  by_cases hsel : ∃ ctx m, o = .select ctx m
  · obtain ⟨ctx, m, rfl⟩ := hsel
    have hm : isEntry m = true → m.payload.idInLBS ∈ h.ids ∧
        said ms m.payload ++ [m.type] <+: [.streamAdded, .streamDisowned] := by
      intro hentry
      cases h with
      | relays m' =>
        obtain heq | ⟨ctx', heq⟩ := hok
        · cases heq
        · obtain ⟨-, rfl⟩ := Broker.Op.select.inj heq
          cases hentry.symm.trans hk
      | asks ids seen =>
        obtain ⟨-, ctx', m', heq, hm | ⟨hm, hhead⟩⟩ := hok
        · obtain ⟨-, rfl⟩ := Broker.Op.select.inj heq
          simp [isEntry, hm] at hentry
        · obtain ⟨-, rfl⟩ := Broker.Op.select.inj heq
          have hmem : m.payload.idInLBS ∈ ids := List.mem_of_mem_head? hhead
          refine ⟨hmem, ?_⟩
          rw [hk.1 _ hmem _ rfl, hm]
          exact ⟨[.streamDisowned], rfl⟩
      | tends l live opened =>
        obtain ⟨-, heq | ⟨hop, ctx', m', heq, hm, rfl⟩⟩ := hok
        · cases heq
        · obtain ⟨-, rfl⟩ := Broker.Op.select.inj heq
          refine ⟨List.mem_singleton_self _, ?_⟩
          rw [hk.2 hop, hm]
          exact List.prefix_rfl
      | told l ids => exact hok.elim
      | runs hand => cases hok.1
      | closes swapped => cases hok.1
      | _ => cases hok
    cases x with
    | sent =>
      cases inputClosed with
      | true => exact .inl rfl
      | false => exact .inr ⟨m, rfl, hm⟩
    | _ => exact .inl rfl
  · left
    cases o with
    | select ctx m => exact absurd ⟨ctx, m, rfl⟩ hsel
    | _ => rfl

end Herald

/-! ## What an event does to a client -/

section

variable {c d : Nat} {o : Op} {ch : Choice} {w w' : World} {f : Option Call}

/-- An operation of one client does nothing to the memory of others, and only operations on the
broker do something to it. -/
theorem World.exec_broker_eq {x : o.Reply} (h : exec c o ch w = some (x, w', f))
    (hne : d = c → ∀ b, o ≠ .broker b) : (w'.clients d).broker = (w.clients d).broker := by
  rcases exec_clients h with heq | ⟨n, i, rfl⟩ | ⟨n, rfl⟩ | ⟨b, b', rfl, rfl⟩
  · rw [heq]
  · rw [exec_putStreamLocks h]
    exact field_setClient Local.broker (by rfl) d
  · rw [(exec_popStreamLocksInfo h).2]
    exact field_setClient Local.broker (by rfl) d
  · have hd : d ≠ c := fun hd ↦ hne hd b rfl
    simp [setClient, Function.update_of_ne hd]

theorem World.exec_broker {o : Broker.Op} {x : o.Reply}
    (h : exec c (.broker o) ch w = some (x, w', f)) :
    f = none ∧ Broker.exec (fun _ ↦ (w.clients c).ctxDone) o ch.case (w.clients c).broker =
      some (x, (w'.clients c).broker) := by
  rw [exec] at h
  obtain ⟨p, hb, heq⟩ := Option.map_eq_some_iff.1 h
  obtain ⟨rfl, hw⟩ := Prod.mk.inj heq
  obtain ⟨rfl, rfl⟩ := Prod.mk.inj hw
  refine ⟨rfl, ?_⟩
  rw [hb]
  simp [setClient]

end

section

variable {J : Json} {cfg : Nat → Client} {c₀ : Nat}

/-- What is called on a client.  Its broker runs from the start, extenders are started by its
reader, and the keyspace listener sends nothing but `StreamExpired`. -/
def Call.isUse : Call → Bool
  | .claim _ | .doneStream _ | .reconcile _ | .readLBSStream _ _ | .broker .close => true
  | .broker (.send _ m) => decide (m.type = .streamExpired)
  | .startExtendingKey _ _ _ | .broker .run | .broker .drain => false

/-- Client `c₀` is used as it should be, and does not crash. -/
def Uses (c₀ : Nat) : Event (machine J cfg) → Prop
  | .start c f => c = c₀ → f.isUse = true
  | .crash c => c ≠ c₀
  | .op _ _ _ _ _ _ | .again _ | .env _ => True

/-- What is kept of a run, for one client. -/
structure Bulletin where
  /-- How far the goroutines are. -/
  herald : Nat → Herald
  /-- What the broker of the client has accepted. -/
  accepted : List RecoverableRedisNotification

/-- What the broker of `c₀` accepts in an event. -/
def Bulletin.accepts (c₀ : Nat) (P : Pool (machine J cfg)) :
    Event (machine J cfg) → List RecoverableRedisNotification
  | .op _ c (.broker o) _ x _ =>
    if c = c₀ then o.accepts (P.state.clients c₀).broker.inputClosed x else []
  | _ => []

/-- What is kept after an event. -/
def Bulletin.update (c₀ : Nat) (γ : Bulletin) (P : Pool (machine J cfg))
    (e : Event (machine J cfg)) : Bulletin where
  herald := (heralds J cfg).track γ.herald P e
  accepted := γ.accepted ++ accepts c₀ P e

/-- What is kept of a client that was just created. -/
def Bulletin.new : Bulletin := ⟨fun _ ↦ .runs [], []⟩

/-- Client `c₀` was just created: its broker runs, and nothing else. -/
structure Created (c₀ : Nat) (P : Pool (machine J cfg)) : Prop where
  /-- `NewNotificationBroker` has started `run`. -/
  threads : P.threads = [⟨c₀, .broker .run, some (body J cfg c₀ (.broker .run))⟩]
  /-- The broker is new. -/
  broker : ∃ bufferSize, (P.state.clients c₀).broker = .new bufferSize

variable {P P' : Pool (machine J cfg)} {e : Event (machine J cfg)} {γ : Bulletin}

/-- **An event is an operation on the broker of the client, or leaves it alone.** -/
theorem broker_cases (hs : Pool.Step P e P') (hG : Uses c₀ e) :
    (∃ (t : Nat) (o : Broker.Op) (ch : Choice) (x : o.Reply),
      e = .op (M := machine J cfg) t c₀ (.broker o) ch x none ∧
      Broker.exec (fun _ ↦ (P.state.clients c₀).ctxDone) o ch.case (P.state.clients c₀).broker =
        some (x, (P'.state.clients c₀).broker) ∧
      (P'.state.clients c₀).ctxDone = (P.state.clients c₀).ctxDone) ∨
    (Bulletin.accepts c₀ P e = [] ∧
      (∀ t o ch x f, e ≠ .op (M := machine J cfg) t c₀ (.broker o) ch x f) ∧
      (P'.state.clients c₀).broker = (P.state.clients c₀).broker ∧
      ((P.state.clients c₀).ctxDone = true → (P'.state.clients c₀).ctxDone = true)) := by
  cases e with
  | op t c o ch x f =>
    have hx : World.exec c o ch P.state = some (x, P'.state, f) := hs.op_exec
    have hctx := World.exec_ctxDone hx c₀
    by_cases hop : c = c₀ ∧ ∃ b, o = .broker b
    · obtain ⟨rfl, b, rfl⟩ := hop
      obtain ⟨rfl, hb⟩ := World.exec_broker hx
      exact .inl ⟨t, b, ch, x, rfl, hb, hctx⟩
    · refine .inr ⟨?_, ?_, World.exec_broker_eq hx ?_, hctx.trans⟩
      · cases o with
        | broker b => exact if_neg fun hc ↦ hop ⟨hc, b, rfl⟩
        | _ => rfl
      · rintro t' b ch' x' f' heq
        cases heq
        exact hop ⟨rfl, b, rfl⟩
      · rintro rfl b rfl
        exact hop ⟨rfl, b, rfl⟩
  | again t =>
    cases hs with
    | again ht hp => exact .inr ⟨rfl, by simp, rfl, id⟩
  | start c f =>
    cases hs with
    | start => exact .inr ⟨rfl, by simp, rfl, id⟩
  | env v =>
    cases hs with
    | @env _ w' he =>
      cases v with
      | produce stream i values =>
        obtain ⟨p, -, rfl⟩ := Option.map_eq_some_iff.1 he
        exact .inr ⟨rfl, by simp, rfl, id⟩
      | expire key =>
        obtain rfl := Option.some.inj he
        exact .inr ⟨rfl, by simp, rfl, id⟩
      | tick ms =>
        obtain rfl := Option.some.inj he
        exact .inr ⟨rfl, by simp, rfl, id⟩
      | cancel c =>
        obtain rfl := Option.some.inj he
        refine .inr ⟨rfl, by simp, ?_, ?_⟩
        · by_cases hc : c₀ = c
          · subst hc
            simp [World.setClient]
          · simp [World.setClient, Function.update_of_ne hc]
        · intro h
          by_cases hc : c₀ = c
          · subst hc
            simp [World.setClient]
          · simpa [World.setClient, Function.update_of_ne hc] using h
  | crash c =>
    have hc : c₀ ≠ c := hG.symm
    cases hs with
    | crash =>
      exact .inr ⟨rfl, by simp, by simp [World.setClient, Function.update_of_ne hc],
        fun h ↦ by simpa [World.setClient, Function.update_of_ne hc] using h⟩

/-- **The calls that are started** on the client. -/
theorem uses_cases (hs : Pool.Step P e P') (hG : Uses c₀ e) {f : Call}
    (h : e.starts = some (c₀, f)) :
    f.isUse = true ∨ ∃ t m l i ch x g,
      e = .op (M := machine J cfg) t c₀ (.goStartExtendingKey m l i) ch x g ∧
        f = .startExtendingKey m l i := by
  cases e with
  | start c g =>
    obtain ⟨rfl, rfl⟩ := Prod.mk.inj (Option.some.inj h)
    exact .inl (hG rfl)
  | op t c o ch x g =>
    obtain ⟨g, rfl, heq⟩ := Option.map_eq_some_iff.1 h
    obtain ⟨rfl, rfl⟩ := Prod.mk.inj heq
    have hx : World.exec c o ch P.state = some (x, P'.state, some g) := hs.op_exec
    obtain ⟨m, l, i, rfl, rfl⟩ := World.exec_fork hx
    exact .inr ⟨t, m, l, i, ch, x, _, rfl, rfl⟩
  | _ => cases h

/-! ## Moving entries -/

/-- What an operation on the broker leaves a goroutine in charge of. -/
theorem Herald.ids_onBroker {h : Herald} {o : Broker.Op} (hok : h.OkBroker o) (x : o.Reply) :
    (h.onBroker o x).ids.Sublist h.ids := by
  cases h with
  | reads ids =>
    obtain rfl : o = .load := hok
    exact .refl _
  | asks ids closed =>
    obtain ⟨-, ctx, m, rfl, hm | ⟨hm, hhead⟩⟩ := hok
    · show List.Sublist (if m.type = .streamAdded then Herald.told _ _ else .aside).ids ids
      rw [if_neg (by rw [hm]; simp)]
      exact List.nil_sublist _
    · show List.Sublist (if m.type = .streamAdded then Herald.told _ _ else .aside).ids ids
      rw [if_pos hm, List.eq_cons_of_mem_head? hhead]
      exact .refl _
  | told l ids => exact hok.elim
  | tends l live opened =>
    obtain ⟨-, rfl | ⟨-, ctx, m, rfl, -⟩⟩ := hok
    · exact .refl _
    · exact List.nil_sublist _
  | aside | relays m =>
    exact List.nil_sublist _
  | runs hand => exact List.nil_sublist _
  | closes swapped =>
    cases o <;> exact List.nil_sublist _

/-- Whoever starts an extender passes the entry on. -/
theorem Herald.ids_onGo {h : Herald} {l : LBSInfo} (hok : h.OkGo l) :
    h.ids = l.idInLBS :: h.onGo.ids := by
  cases h with
  | asks ids closed => exact List.eq_cons_of_mem_head? hok.2
  | told l' ids =>
    obtain rfl : l' = l := hok
    rfl
  | _ => exact hok.elim

/-- **What a goroutine does to the entries that it is in charge of**: it drops them, passes one
on, or is handed new ones. -/
theorem Herald.ids_next {h : Herald} {r : Client} {c : Nat} {o : Op} {ch : Choice} {w w' : World}
    {f : Option Call} {x : o.Reply} (hok : h.Ok r o)
    (hx : World.exec c o ch w = some (x, w', f)) :
    Handout.Move (r.HandedOut w.server) (r.HandedOut w'.server) h.ids (h.next o x).ids ∅ ∅ := by
  cases o with
  | broker o => exact .keep (ids_onBroker hok x) rfl
  | xreadGroup group consumer stream =>
    obtain ⟨rfl, rfl, rfl, rfl⟩ := hok
    rcases x with err | streams
    · exact .keep (.refl _) rfl
    · obtain ⟨hnodup, hnew⟩ := World.exec_xreadGroup_handedOut hx
      exact .hand hnodup hnew rfl
  | goStartExtendingKey m l i =>
    refine .keep ?_ rfl
    rw [ids_onGo hok]
    exact List.sublist_cons_self _ _
  | isContextDone =>
    refine .keep ?_ rfl
    cases h <;> exact .refl _
  | _ => exact .keep (.refl _) rfl

/-- Nobody comes to run the broker. -/
theorem Herald.runs_of_next {h : Herald} {o : Op} {x : o.Reply}
    {hand : List RecoverableRedisNotification} (hh : h.next o x = .runs hand) :
    ∃ hand', h = .runs hand' := by
  cases h with
  | runs hand' => exact ⟨hand', rfl⟩
  | asks ids closed =>
    cases o with
    | broker b =>
      cases b with
      | select ctx m =>
        replace hh : (if m.type = .streamAdded then Herald.told m.payload ids.tail else .aside) =
          .runs hand := hh
        split at hh <;> cases hh
      | _ => cases hh
    | xreadGroup g n s => cases x <;> cases hh
    | _ => cases hh
  | _ =>
    cases o with
    | broker b => cases b <;> cases hh
    | xreadGroup g n s => cases x <;> cases hh
    | _ => cases hh

/-- `run` holds on to what it has, unless it uses the broker. -/
theorem Herald.runs_next {hand : List RecoverableRedisNotification} {r : Client} {o : Op}
    (hok : (Herald.runs hand).Ok r o) (hne : ∀ b, o ≠ .broker b) (x : o.Reply) :
    (Herald.runs hand).next o x = .runs hand := by
  cases o with
  | broker b => exact absurd rfl (hne b)
  | xreadGroup g n s => cases hok.1
  | _ => rfl

/-- What a goroutine of any client is in charge of, of the entries of `c₀`. -/
def charge (c₀ c : Nat) (h : Herald) : List String := if c = c₀ then h.ids else []

theorem charge_self (h : Herald) : charge c₀ c₀ h = h.ids := if_pos rfl

theorem charge_of_ne {c : Nat} (hc : c ≠ c₀) (h : Herald) : charge c₀ c h = [] := if_neg hc

theorem Herald.Knows.go {h : Herald} {ms : List RecoverableRedisNotification} {closed done : Bool}
    {l : LBSInfo} (hk : h.Knows ms closed done) (hok : h.OkGo l) :
    h.onGo.Knows ms closed done ∧ (Herald.tends l false false).Knows ms closed done := by
  cases h with
  | asks ids seen =>
    obtain ⟨rfl, hhead⟩ := hok
    refine ⟨fun id hid ↦ hk.1 id (List.mem_of_mem_tail hid), ?_, fun h ↦ by cases h⟩
    exact .inr ⟨hk.1 _ (List.mem_of_mem_head? hhead), .inl (hk.2 rfl)⟩
  | told l' ids =>
    obtain rfl : l' = l := hok
    refine ⟨hk.1, ?_, fun h ↦ by cases h⟩
    simpa using hk.2
  | _ => exact hok.elim

/-- **Any other operation leaves its goroutine with what it should know.** -/
theorem Herald.Knows.next {h : Herald} {ms : List RecoverableRedisNotification} {c : Nat}
    {closed : Bool} {o : Op} {ch : Choice} {w w' : World} {f : Option Call} {x : o.Reply} {r : Client}
    (hk : h.Knows ms closed (w.clients c).ctxDone) (hok : h.Ok r o) (hne : ∀ b, o ≠ .broker b)
    (hx : World.exec c o ch w = some (x, w', f))
    (hknown : ∀ l, said ms l ≠ [] → r.HandedOut w.server l.idInLBS) :
    (h.next o x).Knows ms closed (w.clients c).ctxDone := by
  cases o with
  | broker b => exact absurd rfl (hne b)
  | xreadGroup group consumer stream =>
    obtain ⟨rfl, rfl, rfl, rfl⟩ := hok
    rcases x with err | streams
    · exact hk
    · obtain ⟨-, hnew⟩ := World.exec_xreadGroup_handedOut hx
      intro id hid l hl
      by_contra hsaid
      exact (hnew id hid).1 (hl ▸ hknown l hsaid)
  | goStartExtendingKey m l i => exact (hk.go hok).1
  | isContextDone =>
    cases h with
    | tends l live opened =>
      obtain ⟨rfl, -⟩ := Prod.mk.inj (Option.some.inj hx)
      refine ⟨?_, fun h ↦ by cases h⟩
      have hsame (done : Bool) : (done && !(live || !done)) = (done && !live) := by
        cases done <;> cases live <;> rfl
      rw [hsame]
      exact hk.1
    | _ => exact hk
  | _ => exact hk

/-! ## The invariant -/

/-- What holds while the broker of the client has not panicked. -/
structure Calm (c₀ : Nat) (P : Pool (machine J cfg)) (γ : Bulletin) : Prop where
  /-- The broker is a queue. -/
  queue : ∃ hand, γ.herald 0 = .runs hand ∧
    γ.accepted = (P.state.clients c₀).broker.output ++ hand ++ (P.state.clients c₀).broker.input
  /-- `Close` sets the flag before it closes `quit`. -/
  quit : (P.state.clients c₀).broker.quitClosed = true → (P.state.clients c₀).broker.closed = true
  /-- The goroutines know what they should. -/
  knows : ∀ t f, P.Live t c₀ f →
    (γ.herald t).Knows γ.accepted (P.state.clients c₀).broker.closed (P.state.clients c₀).ctxDone

/-- **What holds in every run.** -/
structure Orderly (c₀ : Nat) (P : Pool (machine J cfg)) (γ : Bulletin) : Prop where
  /-- The goroutines keep their contract. -/
  obeying : (heralds J cfg).Obeying P γ.herald
  /-- The first goroutine is one of the client. -/
  runner : ∃ f, P.Live 0 c₀ f
  /-- No other one runs the broker. -/
  alone : ∀ t f hand, P.Live t c₀ f → γ.herald t = .runs hand → t = 0
  /-- An entry is in the charge of one goroutine. -/
  handout : Handout (heralds J cfg) (charge c₀) (fun w ↦ (cfg c₀).HandedOut w.server) P γ.herald ∅
  /-- What something is said about was handed out. -/
  known : ∀ l, said γ.accepted l ≠ [] → (cfg c₀).HandedOut P.state.server l.idInLBS
  /-- What is said about an entry comes in order. -/
  order : ∀ l, said γ.accepted l <+: [.streamAdded, .streamDisowned]
  /-- What is delivered was accepted, in this order. -/
  output : (P.state.clients c₀).broker.output <+: γ.accepted
  /-- What holds until a panic. -/
  calm : (P.state.clients c₀).broker.panicked = false → Calm c₀ P γ

namespace Orderly

theorem init (h₀ : Created c₀ P) : Orderly c₀ P .new := by
  obtain ⟨n, hn⟩ := h₀.broker
  have hlive {t c : Nat} {f : Call} (hl : P.Live t c f) : t = 0 ∧ f = .broker .run := by
    obtain ⟨p, hp⟩ := hl
    rw [h₀.threads] at hp
    cases t with
    | zero =>
      cases hp
      exact ⟨rfl, rfl⟩
    | succ t => cases hp
  have hnil (c : Nat) : charge c₀ c (.runs []) = [] := by
    by_cases hc : c = c₀
    · rw [hc, charge_self]
      rfl
    · exact charge_of_ne hc _
  refine ⟨?_, ⟨.broker .run, ⟨body J cfg c₀ (.broker .run), ?_⟩⟩, ?_, ⟨?_, ?_, ?_, ?_, ?_⟩, ?_, ?_,
    ?_, ?_⟩
  · intro t th p ht hp
    rw [h₀.threads] at ht
    cases t with
    | zero =>
      cases ht
      cases hp
      exact (heralds J cfg).body_obeys c₀ (.broker .run)
    | succ t => cases ht
  · rw [h₀.threads]
    rfl
  · exact fun t f hand hl _ ↦ (hlive hl).1
  · intro t c f hl
    show (charge c₀ c (.runs [])).Nodup
    rw [hnil]
    exact List.nodup_nil
  · exact fun t u c d f g x ht hu _ _ ↦ (hlive ht).1.trans (hlive hu).1.symm
  · intro t c f hl x hx
    replace hx : x ∈ charge c₀ c (.runs []) := hx
    rw [hnil] at hx
    exact absurd hx List.not_mem_nil
  · exact fun x hx ↦ hx.elim
  · exact fun _ _ _ _ _ _ hx ↦ hx
  · exact fun l h ↦ absurd rfl h
  · exact fun l ↦ List.nil_prefix
  · rw [hn]
    exact List.nil_prefix
  · intro _
    refine ⟨⟨[], rfl, ?_⟩, ?_, ?_⟩
    · rw [hn]
      rfl
    · rw [hn]
      intro h
      cases h
    · exact fun t f hl ↦ Nat.zero_le 1

section

variable (hO : Orderly c₀ P γ) (hs : Pool.Step P e P') (hG : Uses c₀ e)

include hO hs

/-- A goroutine is allowed what it does. -/
theorem okBroker {t : Nat} {o : Broker.Op} {ch : Choice} {x : o.Reply} {f : Option Call}
    (he : e = .op (M := machine J cfg) t c₀ (.broker o) ch x f) : (γ.herald t).OkBroker o := by
  subst he
  have hok : (γ.herald t).Ok (cfg c₀) (.broker o) := hO.obeying.ok hs
  exact hok

include hG

theorem alone_step {t : Nat} {f : Call} {hand : List RecoverableRedisNotification}
    (hl : P'.Live t c₀ f) (h : (heralds J cfg).track γ.herald P e t = .runs hand) : t = 0 := by
  rcases hs.live_iff.1 hl with ⟨hl, -⟩ | ⟨rfl, hst⟩
  · by_cases hm : e.mover = some t
    · cases e with
      | op t' c' o ch x g =>
        obtain rfl : t' = t := Option.some.inj hm
        rw [Contract.track_op_self hl.lt_length] at h
        obtain ⟨hand', hh⟩ := Herald.runs_of_next h
        exact hO.alone t' f hand' hl hh
      | _ => cases hm
    · rw [Contract.track_of_mover_ne hl.lt_length hm] at h
      exact hO.alone t f hand hl h
  · rw [Contract.track_starts hst] at h
    rcases uses_cases hs hG hst with huse | ⟨u, m, l, i, ch, x, g, -, rfl⟩
    · cases f with
      | broker b =>
        cases b with
        | run => cases huse
        | drain => cases huse
        | _ => cases h
      | _ => cases h
    · cases h

theorem handout_step : Handout (heralds J cfg) (charge c₀)
    (fun w ↦ (cfg c₀).HandedOut w.server) P' ((heralds J cfg).track γ.herald P e) ∅ := by
  refine Handout.step ?_ ?_ hO.handout hs (fun id h ↦ h.step hs) fun _ ↦ rfl
  · rintro t c o ch x f rfl
    by_cases hc : c = c₀
    · subst hc
      have hok : (γ.herald t).Ok (cfg c) o := hO.obeying.ok hs
      have hx : World.exec c o ch P.state = some (x, P'.state, f) := hs.op_exec
      rw [charge_self, charge_self]
      exact Herald.ids_next hok hx
    · rw [charge_of_ne hc, charge_of_ne hc]
      exact .keep (.refl _) rfl
  · intro c f hst
    by_cases hc : c = c₀
    · subst hc
      rw [charge_self]
      rcases uses_cases hs hG hst with huse | ⟨u, m, l, i, ch, x, g, rfl, rfl⟩
      · have hnil : (Herald.start f).ids = [] := by
          cases f with
          | broker b => cases b <;> rfl
          | startExtendingKey m l i => cases huse
          | _ => rfl
        show Handout.Passed _ _ _ _ (Herald.start f).ids
        rw [hnil]
        exact .nil
      · have hok : (γ.herald u).Ok (cfg c) (.goStartExtendingKey m l i) := hO.obeying.ok hs
        have hids := Herald.ids_onGo hok
        obtain ⟨f', hu⟩ := hs.op_live
        have hnodup := hO.handout.nodup u c f' hu
        rw [charge_self, hids, List.nodup_cons] at hnodup
        refine ⟨List.nodup_singleton _, fun _ _ h ↦ h, ?_⟩
        rintro id hid
        obtain rfl := List.mem_singleton.1 hid
        refine ⟨u, c, _, ch, x, g, rfl, ?_, ?_⟩
        · rw [charge_self, hids]
          exact List.mem_cons_self
        · rw [charge_self]
          exact hnodup.1
    · rw [charge_of_ne hc]
      exact .nil

/-- **What the broker accepts** comes from a goroutine that is in charge. -/
theorem accepts_cases : Bulletin.accepts c₀ P e = [] ∨ ∃ t f m, e.mover = some t ∧
    P.Live t c₀ f ∧ Bulletin.accepts c₀ P e = [m] ∧
      (isEntry m = true → m.payload.idInLBS ∈ (γ.herald t).ids ∧
        said γ.accepted m.payload ++ [m.type] <+: [.streamAdded, .streamDisowned]) := by
  rcases broker_cases hs hG with ⟨t, o, ch, x, rfl, hx, -⟩ | ⟨hnone, -⟩
  · obtain ⟨hcalm, -⟩ := Broker.exec_eq_some.1 hx
    obtain ⟨f, hl⟩ := hs.op_live
    have hacc : Bulletin.accepts c₀ P (.op (M := machine J cfg) t c₀ (.broker o) ch x none) =
        o.accepts (P.state.clients c₀).broker.inputClosed x := if_pos rfl
    rw [hacc]
    refine (Herald.accepts_cases ((hO.calm hcalm).knows t f hl) (hO.okBroker hs rfl) _ x).imp id ?_
    rintro ⟨m, hm, hentry⟩
    exact ⟨t, f, m, rfl, hl, hm, hentry⟩
  · exact .inl hnone

theorem known_step {l : LBSInfo} (h : said (γ.update c₀ P e).accepted l ≠ []) :
    (cfg c₀).HandedOut P'.state.server l.idInLBS := by
  rw [Bulletin.update] at h
  rcases hO.accepts_cases hs hG with hnone | ⟨t, f, m, -, hl, hm, hentry⟩
  · rw [hnone, List.append_nil] at h
    exact (hO.known l h).step hs
  · rw [hm] at h
    by_cases habout : isEntry m = true ∧ m.payload = l
    · obtain ⟨he, rfl⟩ := habout
      refine (hO.handout.old t c₀ f hl _ ?_).step hs
      rw [charge_self]
      exact (hentry he).1
    · rw [said_append_of_ne fun he hp ↦ habout ⟨he, hp⟩] at h
      exact (hO.known l h).step hs

theorem order_step (l : LBSInfo) :
    said (γ.update c₀ P e).accepted l <+: [.streamAdded, .streamDisowned] := by
  rw [Bulletin.update]
  rcases hO.accepts_cases hs hG with hnone | ⟨t, f, m, -, hl, hm, hentry⟩
  · rw [hnone, List.append_nil]
    exact hO.order l
  · rw [hm]
    by_cases habout : isEntry m = true ∧ m.payload = l
    · obtain ⟨he, rfl⟩ := habout
      rw [said_append_payload he]
      exact (hentry he).2
    · rw [said_append_of_ne fun he hp ↦ habout ⟨he, hp⟩]
      exact hO.order l

/-- **The broker stays a queue**, or panics with what was delivered as it was. -/
theorem queue_step (hcalm : (P.state.clients c₀).broker.panicked = false) :
    (P'.state.clients c₀).broker.output <+: (γ.update c₀ P e).accepted ∧
      ((P'.state.clients c₀).broker.panicked = false →
        ∃ hand, (γ.update c₀ P e).herald 0 = .runs hand ∧ (γ.update c₀ P e).accepted =
          (P'.state.clients c₀).broker.output ++ hand ++ (P'.state.clients c₀).broker.input) := by
  obtain ⟨hand, hzero, hqueue⟩ := (hO.calm hcalm).queue
  obtain ⟨f₀, hl₀⟩ := hO.runner
  rw [Bulletin.update]
  dsimp only
  rcases broker_cases hs hG with ⟨t, o, ch, x, rfl, hx, -⟩ | ⟨hnone, hne, hb, -⟩
  · obtain ⟨-, hstep⟩ := Broker.exec_eq_some.1 hx
    have hok := hO.okBroker hs rfl
    have hmoves := Broker.moves_of_step hstep
    have hacc : Bulletin.accepts c₀ P (.op (M := machine J cfg) t c₀ (.broker o) ch x none) =
        o.accepts (P.state.clients c₀).broker.inputClosed x := if_pos rfl
    rw [hacc]
    by_cases ht : t = 0
    · subst ht
      rw [hzero] at hok
      obtain ⟨hloop, hhand⟩ := hok
      have hin := hmoves.input_eq
      rw [Herald.accepts_of_isLoop hloop, List.append_nil] at hin
      have hall : γ.accepted = ((P.state.clients c₀).broker.output ++ o.forwards) ++
          Broker.handNext hand o x ++ (P'.state.clients c₀).broker.input := by
        calc γ.accepted
            = (P.state.clients c₀).broker.output ++ (hand ++ o.receives x) ++
                (P'.state.clients c₀).broker.input := by
              rw [hqueue, hin]
              simp only [List.append_assoc]
          _ = _ := by
              rw [Broker.hand_next hhand]
              simp only [List.append_assoc]
      have htrack : (heralds J cfg).track γ.herald P
          (.op (M := machine J cfg) 0 c₀ (.broker o) ch x none) 0 =
            .runs (Broker.handNext hand o x) := by
        refine (Contract.track_op_self hl₀.lt_length).trans ?_
        show (γ.herald 0).onBroker o x = _
        rw [hzero]
        rfl
      rw [Herald.accepts_of_isLoop hloop, List.append_nil]
      rcases Herald.output_cases hstep with hout | ⟨hout, hpanic⟩
      · rw [hout]
        refine ⟨⟨Broker.handNext hand o x ++ (P'.state.clients c₀).broker.input, ?_⟩, fun _ ↦
          ⟨Broker.handNext hand o x, htrack, hall⟩⟩
        rw [hall, List.append_assoc _ _ (P'.state.clients c₀).broker.input]
      · refine ⟨?_, fun h ↦ ?_⟩
        · rw [hout]
          exact hO.output
        · cases hpanic.symm.trans h
    · obtain ⟨f, hl⟩ := hs.op_live
      obtain ⟨hrec, hfwd⟩ := Herald.moves_of_ok hok (fun hand' hh ↦ ht (hO.alone t f hand' hl hh)) x
      have hout : (P'.state.clients c₀).broker.output = (P.state.clients c₀).broker.output := by
        rcases Herald.output_cases hstep with hout | ⟨hout, -⟩
        · rw [hout, hfwd, List.append_nil]
        · exact hout
      have hin := hmoves.input_eq
      rw [hrec, List.nil_append] at hin
      have hm : (Event.op (M := machine J cfg) t c₀ (.broker o) ch x none).mover ≠ some 0 :=
        fun h ↦ ht (Option.some.inj h)
      rw [hout, ← hin, Contract.track_of_mover_ne hl₀.lt_length hm]
      refine ⟨hO.output.trans (List.prefix_append _ _), fun _ ↦ ⟨hand, hzero, ?_⟩⟩
      rw [hqueue]
      simp only [List.append_assoc]
  · have hstill : (heralds J cfg).track γ.herald P e 0 = .runs hand := by
      by_cases hm : e.mover = some 0
      · cases e with
        | op t c o ch x g =>
          obtain rfl : t = 0 := Option.some.inj hm
          obtain ⟨f, hl⟩ := hs.op_live
          obtain ⟨rfl, -⟩ := hl₀.unique hl
          have hok : (γ.herald 0).Ok (cfg c₀) o := hO.obeying.ok hs
          rw [Contract.track_op_self hl₀.lt_length]
          rw [hzero] at hok
          show (γ.herald 0).next o x = .runs hand
          rw [hzero]
          refine Herald.runs_next hok ?_ x
          rintro b rfl
          exact hne _ _ _ _ _ rfl
        | _ => cases hm
      · rw [Contract.track_of_mover_ne hl₀.lt_length hm, hzero]
    rw [hnone, List.append_nil, hb]
    exact ⟨hO.output, fun _ ↦ ⟨hand, hstill, hqueue⟩⟩

theorem output_step :
    (P'.state.clients c₀).broker.output <+: (γ.update c₀ P e).accepted := by
  by_cases hcalm : (P.state.clients c₀).broker.panicked = false
  · exact (hO.queue_step hs hG hcalm).1
  · -- after a panic nothing moves
    rcases broker_cases hs hG with ⟨t, o, ch, x, rfl, hx, -⟩ | ⟨hnone, -, hb, -⟩
    · exact absurd (Broker.exec_eq_some.1 hx).1 hcalm
    · rw [Bulletin.update, hnone, List.append_nil, hb]
      exact hO.output

/-- **The goroutines know what they should**: the one that moved, the one that it started, and
the others, which are in charge of other entries. -/
theorem knows_step (hC : Calm c₀ P γ) (hcalm : (P'.state.clients c₀).broker.panicked = false) :
    ∀ t f, P'.Live t c₀ f → ((γ.update c₀ P e).herald t).Knows (γ.update c₀ P e).accepted
      (P'.state.clients c₀).broker.closed (P'.state.clients c₀).ctxDone := by
  -- what is accepted from one is about entries that no other is in charge of
  have hstill {t : Nat} {f : Call} (hl : P.Live t c₀ f) (hm : e.mover ≠ some t)
      {closed done : Bool} (hk : (γ.herald t).Knows γ.accepted closed done) :
      (γ.herald t).Knows (γ.accepted ++ Bulletin.accepts c₀ P e) closed done := by
    rcases hO.accepts_cases hs hG with hnone | ⟨u, g, m, hu, hlu, hm', hentry⟩
    · rw [hnone, List.append_nil]
      exact hk
    · rw [hm']
      refine hk.append fun he hmem ↦ hm ?_
      rw [hu]
      refine congrArg some (hO.handout.apart u t c₀ c₀ g f m.payload.idInLBS hlu hl ?_ ?_)
      · rw [charge_self]
        exact (hentry he).1
      · rw [charge_self]
        exact hmem
  have hmono : ((P.state.clients c₀).broker.closed = true →
      (P'.state.clients c₀).broker.closed = true) ∧
      ((P.state.clients c₀).ctxDone = true → (P'.state.clients c₀).ctxDone = true) := by
    rcases broker_cases hs hG with ⟨t, o, ch, x, rfl, hx, hctx⟩ | ⟨-, -, hb, hctx⟩
    · exact ⟨fun h ↦ (Herald.step_flags (Broker.exec_eq_some.1 hx).2).1 (.inl h), hctx.trans⟩
    · exact ⟨fun h ↦ by rw [hb]; exact h, hctx⟩
  intro t f hl
  show ((heralds J cfg).track γ.herald P e t).Knows _ _ _
  rcases hs.live_iff.1 hl with ⟨hl, -⟩ | ⟨rfl, hst⟩
  · by_cases hm : e.mover = some t
    · cases e with
      | op t' c o ch x g =>
        obtain rfl : t' = t := Option.some.inj hm
        obtain ⟨f', hl'⟩ := hs.op_live
        obtain ⟨rfl, rfl⟩ := hl.unique hl'
        have hok : (γ.herald t').Ok (cfg c₀) o := hO.obeying.ok hs
        have hx : World.exec c₀ o ch P.state = some (x, P'.state, g) := hs.op_exec
        have hk := hC.knows t' f hl
        rw [Contract.track_op_self hl.lt_length]
        by_cases hb : ∃ b, o = .broker b
        · obtain ⟨b, rfl⟩ := hb
          obtain ⟨-, hb⟩ := World.exec_broker hx
          have hnodup := hO.handout.nodup t' c₀ f hl
          rw [charge_self] at hnodup
          have hacc : Bulletin.accepts c₀ P (.op (M := machine J cfg) t' c₀ (.broker b) ch x g) =
              b.accepts (P.state.clients c₀).broker.inputClosed x := if_pos rfl
          show ((γ.herald t').onBroker b x).Knows (γ.accepted ++ Bulletin.accepts c₀ P _) _ _
          rw [hacc]
          exact (hk.onBroker hnodup hok hC.quit (Broker.exec_eq_some.1 hb).2 hcalm).mono id hmono.2
        · have hnone : Bulletin.accepts c₀ P (.op (M := machine J cfg) t' c₀ o ch x g) = [] := by
            cases o with
            | broker b => exact absurd ⟨b, rfl⟩ hb
            | _ => rfl
          show ((γ.herald t').next o x).Knows (γ.accepted ++ Bulletin.accepts c₀ P _) _ _
          rw [hnone, List.append_nil]
          exact (hk.next hok (fun b hb' ↦ hb ⟨b, hb'⟩) hx hO.known).mono hmono.1 hmono.2
      | _ => cases hm
    · rw [Contract.track_of_mover_ne hl.lt_length hm]
      exact (hstill hl hm (hC.knows t f hl)).mono hmono.1 hmono.2
  · rw [Contract.track_starts hst]
    rcases uses_cases hs hG hst with huse | ⟨u, m, l, i, ch, x, g, rfl, rfl⟩
    · cases f with
      | broker b =>
        cases b with
        | send ctx m =>
          have htype : m.type = .streamExpired := of_decide_eq_true huse
          show isEntry m = false
          simp [isEntry, htype]
        | close =>
          intro h
          cases h
        | _ => cases huse
      | readLBSStream n d => exact fun id hid ↦ absurd hid List.not_mem_nil
      | startExtendingKey m l i => cases huse
      | _ => trivial
    · obtain ⟨f', hu⟩ := hs.op_live
      have hok : (γ.herald u).Ok (cfg c₀) (.goStartExtendingKey m l i) := hO.obeying.ok hs
      show (Herald.tends l false false).Knows (γ.accepted ++ []) _ _
      rw [List.append_nil]
      exact ((hC.knows u f' hu).go hok).2.mono hmono.1 hmono.2

theorem calm_step (hcalm : (P'.state.clients c₀).broker.panicked = false) :
    Calm c₀ P' (γ.update c₀ P e) := by
  have hcalm₀ : (P.state.clients c₀).broker.panicked = false := by
    rcases broker_cases hs hG with ⟨t, o, ch, x, rfl, hx, -⟩ | ⟨-, -, hb, -⟩
    · exact (Broker.exec_eq_some.1 hx).1
    · rwa [hb] at hcalm
  have hC := hO.calm hcalm₀
  refine ⟨(hO.queue_step hs hG hcalm₀).2 hcalm, ?_, ?_⟩
  · rcases broker_cases hs hG with ⟨t, o, ch, x, rfl, hx, -⟩ | ⟨-, -, hb, -⟩
    · obtain ⟨f, hl⟩ := hs.op_live
      obtain ⟨hclosed, hquit⟩ := Herald.step_flags (Broker.exec_eq_some.1 hx).2
      intro h
      rcases hquit h with hold | rfl
      · exact hclosed (.inl (hC.quit hold))
      · have hk := hC.knows t f hl
        rw [Herald.eq_closes_of_ok (hO.okBroker hs rfl)] at hk
        exact hclosed (.inl (hk rfl))
    · rw [hb]
      exact hC.quit
  · exact hO.knows_step hs hG hC hcalm

/-- **Every event keeps the invariant.** -/
theorem step : Orderly c₀ P' (γ.update c₀ P e) where
  obeying := hO.obeying.step hs
  runner := by
    obtain ⟨f, hl⟩ := hO.runner
    refine ⟨f, hs.live_iff.2 (.inl ⟨hl, ?_⟩)⟩
    rintro rfl
    exact hG rfl
  alone _ _ _ := hO.alone_step hs hG
  handout := hO.handout_step hs hG
  known _ := hO.known_step hs hG
  order := hO.order_step hs hG
  output := hO.output_step hs hG
  calm := hO.calm_step hs hG

end

theorem of_run {P₀ : Pool (machine J cfg)} (h₀ : Created c₀ P₀)
    (hrun : Pool.Run (Bulletin.update c₀) (fun _ _ e ↦ Uses c₀ e) (P₀, .new) P γ) :
    Orderly c₀ P γ :=
  hrun.invariant (Orderly.init h₀) fun _ _ _ _ hO hG hs ↦ hO.step hs hG

end Orderly

/-! ## Main results -/

/-- **The broker of a client is a queue.**  In every run of any number of clients, from the
creation of client `c₀` and as long as that does not crash: what has arrived on its output
channel is the beginning of what its broker has accepted, in the same order; and until a panic,
what has not arrived is in the input channel, except for one notification that `run` may hold. -/
theorem delivered_in_order {P₀ : Pool (machine J cfg)} (h₀ : Created c₀ P₀)
    (hrun : Pool.Run (Bulletin.update c₀) (fun _ _ e ↦ Uses c₀ e) (P₀, .new) P γ) :
    (P.state.clients c₀).broker.output <+: γ.accepted ∧
      ((P.state.clients c₀).broker.panicked = false → ∃ hand, hand.length ≤ 1 ∧ γ.accepted =
        (P.state.clients c₀).broker.output ++ hand ++ (P.state.clients c₀).broker.input) := by
  have hO := Orderly.of_run h₀ hrun
  refine ⟨hO.output, fun hcalm ↦ ?_⟩
  obtain ⟨f, hl⟩ := hO.runner
  obtain ⟨hand, hzero, hqueue⟩ := (hO.calm hcalm).queue
  have hk := (hO.calm hcalm).knows 0 f hl
  rw [hzero] at hk
  exact ⟨hand, hk, hqueue⟩

/-- **The notifications about an entry come in order.**  In every run of any number of clients,
whichever commands fail, locks expire and contexts are cancelled, and whenever `Close` is called:
what arrives on the output channel of a client about an entry is nothing, `StreamAdded`, or
`StreamAdded` and then `StreamDisowned`. -/
theorem notifications_in_order {P₀ : Pool (machine J cfg)} (h₀ : Created c₀ P₀)
    (hrun : Pool.Run (Bulletin.update c₀) (fun _ _ e ↦ Uses c₀ e) (P₀, .new) P γ) (l : LBSInfo) :
    said (P.state.clients c₀).broker.output l <+: [.streamAdded, .streamDisowned] :=
  have hO := Orderly.of_run h₀ hrun
  (said_mono hO.output l).trans (hO.order l)

/-- **The user is told of an entry once, and of its loss once and later.**  In every run of any
number of clients, whichever commands fail, locks expire and contexts are cancelled, and whenever
`Close` is called: at most one `StreamAdded` and one `StreamDisowned` arrive about an entry, a
`StreamDisowned` arrives after the `StreamAdded`, and none arrives if the broker has not accepted
the `StreamAdded`. -/
theorem told_once_and_in_order {P₀ : Pool (machine J cfg)} (h₀ : Created c₀ P₀)
    (hrun : Pool.Run (Bulletin.update c₀) (fun _ _ e ↦ Uses c₀ e) (P₀, .new) P γ) (l : LBSInfo) :
    (P.state.clients c₀).broker.output.countP (Tells .streamAdded l ·) ≤ 1 ∧
      (P.state.clients c₀).broker.output.countP (Tells .streamDisowned l ·) ≤ 1 ∧
      (∀ before m after, (P.state.clients c₀).broker.output = before ++ m :: after →
        Tells .streamDisowned l m → ∃ a ∈ before, Tells .streamAdded l a) ∧
      ((∀ a ∈ γ.accepted, ¬ Tells .streamAdded l a) →
        ∀ m ∈ (P.state.clients c₀).broker.output, ¬ Tells .streamDisowned l m) := by
  have hO := Orderly.of_run h₀ hrun
  have horder := (said_mono hO.output l).trans (hO.order l)
  have hbefore {before after : List RecoverableRedisNotification} {m : RecoverableRedisNotification}
      (hout : (P.state.clients c₀).broker.output = before ++ m :: after)
      (hm : Tells .streamDisowned l m) : ∃ a ∈ before, Tells .streamAdded l a :=
    exists_added_of_prefix (hout ▸ horder) hm
  refine ⟨countP_le_one horder (by decide), countP_le_one horder (by decide),
    fun before m after ↦ hbefore, fun hnone m hm htells ↦ ?_⟩
  obtain ⟨before, after, hout⟩ := List.append_of_mem hm
  obtain ⟨a, ha, hadded⟩ := hbefore hout htells
  refine hnone a (hO.output.subset ?_) hadded
  rw [hout]
  exact List.mem_append_left _ ha

instance (c₀ : Nat) : @DecidablePred (Event (machine J cfg)) (Uses c₀)
  | .start c f => inferInstanceAs (Decidable (c = c₀ → f.isUse = true))
  | .crash c => inferInstanceAs (Decidable (c ≠ c₀))
  | .op _ _ _ _ _ _ | .again _ | .env _ => .isTrue trivial

end

namespace Demo

/-- The service with client 0 just created. -/
def launched : Pool service.machine where
  state := idle.state
  threads := [⟨0, .broker .run, some (body service.json service.client 0 (.broker .run))⟩]

theorem created_launched : Created 0 launched := ⟨rfl, 10, rfl⟩

/-- The client takes the entry `1-0` and fails to extend its lock, and its broker delivers what
it was told. -/
def taking : List (Pool.Label service.machine) :=
  [produce 1 "orders", .start 0 (.readLBSStream 0 100000000)] ++ ops 1 9 ++ ops 2 2 ++
    [.op 2 .failing] ++ ops 2 3 ++ ops 0 2 ++ [.again 0] ++ ops 0 2

theorem taking_isSome : (Pool.schedule (Bulletin.update 0) (fun _ _ e ↦ Uses 0 e) taking
    (launched, .new)).isSome = true := by
  decide +kernel

/-- The client has told its user about the entry. -/
def informed : Pool service.machine × Bulletin :=
  (Pool.schedule (Bulletin.update 0) (fun _ _ e ↦ Uses 0 e) taking (launched, .new)).get
    taking_isSome

end Demo

/-- What was accepted has arrived. -/
theorem delivered_in_order_informed :
    Demo.informed.2.accepted.length = 2 ∧
      (Demo.informed.1.state.clients 0).broker.output <+: Demo.informed.2.accepted ∧
      ((Demo.informed.1.state.clients 0).broker.panicked = false → ∃ hand, hand.length ≤ 1 ∧
        Demo.informed.2.accepted = (Demo.informed.1.state.clients 0).broker.output ++ hand ++
          (Demo.informed.1.state.clients 0).broker.input) :=
  ⟨by decide +kernel,
    delivered_in_order Demo.created_launched (Pool.run_of_isSome Demo.taking_isSome)⟩

/-- One `StreamAdded` and one `StreamDisowned` about the entry `1-0` have arrived. -/
theorem told_once_and_in_order_informed :
    (Demo.informed.1.state.clients 0).broker.output.countP
        (Tells .streamAdded ⟨"orders", "1-0"⟩ ·) = 1 ∧
      (Demo.informed.1.state.clients 0).broker.output.countP
        (Tells .streamDisowned ⟨"orders", "1-0"⟩ ·) = 1 ∧
      ∀ before m after, (Demo.informed.1.state.clients 0).broker.output = before ++ m :: after →
        Tells .streamDisowned ⟨"orders", "1-0"⟩ m →
          ∃ a ∈ before, Tells .streamAdded ⟨"orders", "1-0"⟩ a :=
  ⟨by decide +kernel, by decide +kernel, (told_once_and_in_order Demo.created_launched
    (Pool.run_of_isSome Demo.taking_isSome) _).2.2.1⟩

/-- The user is told of the entry `1-0`, and that its lock is lost. -/
theorem notifications_in_order_informed :
    said (Demo.informed.1.state.clients 0).broker.output ⟨"orders", "1-0"⟩ =
        [.streamAdded, .streamDisowned] ∧
      said (Demo.informed.1.state.clients 0).broker.output ⟨"orders", "1-0"⟩ <+:
        [.streamAdded, .streamDisowned] :=
  ⟨by decide +kernel,
    notifications_in_order Demo.created_launched (Pool.run_of_isSome Demo.taking_isSome) _⟩

end RedisStreamClient.Impl

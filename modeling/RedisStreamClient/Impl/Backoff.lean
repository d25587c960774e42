import RedisStreamClient.Impl.Client
import RedisStreamClient.Impl.Options
import RedisStreamClient.Lib.Transitions

/-!
# Retries of the LBS reader

`readLBSStream` counts read errors in a row and waits after each of them, twice as long as
after the one before, up to a limit; a success takes both back to where they started.  The
count and the delay are 64-bit numbers.  Doubling wraps around for limits of `2 ^ 62`
nanoseconds and more (`waits_backoff_iff`).  So does the count after `2 ^ 63` errors, and a
success that finds it negative takes nothing back; `CountFits` excludes that.

The turns of the loop are described by what they performed and the replies they got, which
are arbitrary.  `Turn` lists the ways a turn ends.
-/

namespace RedisStreamClient.Impl

open RedisStreamClient.Lib RedisStreamClient.Errs RedisStreamClient.Notifs
open RedisStreamClient.Redis

/-! ## Turns of the reader -/

/-- An `XREADGROUP` that failed. -/
def Act.readFailed : Act → Bool
  | ⟨.xreadGroup _ _ _, reply⟩ =>
    match (show Except Err (List (String × List XMessage)) from reply) with
    | .error _ => true
    | .ok _ => false
  | _ => false

/-- The delay of a wait. -/
def Act.waited : Act → Option Int
  | ⟨.waitOrDone d, _⟩ => some d
  | _ => none

/-- A turn in which the read failed. -/
def failed (xs : List Act) : Bool := xs.any Act.readFailed

/-- The delays that were waited for. -/
def waits (xs : List Act) : List Int := xs.filterMap Act.waited

/-- The delay after a wait for `d`. -/
def Client.nextRetryDelay (r : Client) (d : Int) : Int :=
  let doubled := wrap64 (d * 2)
  if r.maxRetryDelay < doubled then r.maxRetryDelay else doubled

/-- More errors in a row than `MaxRetries` allows. -/
def Client.Exceeds (r : Client) (n : Int) : Prop := 0 ≤ r.maxRetries ∧ r.maxRetries < n

/-- An operation that is neither the read nor the wait of the reader. -/
def Op.isAside : Op → Bool
  | .xreadGroup _ _ _ | .waitOrDone _ => false
  | _ => true

theorem failed_cons (x : Act) (xs : List Act) : failed (x :: xs) = (x.readFailed || failed xs) := rfl

theorem waits_cons (x : Act) (xs : List Act) : waits (x :: xs) = x.waited.toList ++ waits xs := by
  cases h : x.waited with
  | none => exact List.filterMap_cons_none h
  | some d => exact List.filterMap_cons_some h

theorem failed_append (xs ys : List Act) : failed (xs ++ ys) = (failed xs || failed ys) :=
  List.any_append

theorem waits_append (xs ys : List Act) : waits (xs ++ ys) = waits xs ++ waits ys :=
  List.filterMap_append

/-- Nothing was read and nothing waited for. -/
theorem aside_of_forall {xs : List Act} (h : ∀ x ∈ xs, x.1.isAside = true) :
    failed xs = false ∧ waits xs = [] := by
  induction xs with
  | nil => exact ⟨rfl, rfl⟩
  | cons x xs ih =>
    obtain ⟨hx, hxs⟩ := List.forall_mem_cons.1 h
    obtain ⟨hf, hw⟩ := ih hxs
    obtain ⟨o, reply⟩ := x
    rw [failed_cons, waits_cons, hf, hw]
    cases o with
    | xreadGroup _ _ _ => cases hx
    | waitOrDone _ => cases hx
    | _ => exact ⟨rfl, rfl⟩

section

variable {A B : Type} {J : Json} {r : Client} {P : (o : Op) → o.Reply → Prop} {n d : Int}

theorem traces_of_aside {p : Prog sig A} (hp : p.Only fun o : Op ↦ o.isAside = true) :
    p.Traces (Prog.Records P) fun xs _ ↦ failed xs = false ∧ waits xs = [] :=
  fun _ _ hr ↦ aside_of_forall (hr.only hp)

theorem aside_sendNotif (m : RecoverableRedisNotification) :
    (Op.sendNotif m).Only fun o : Op ↦ o.isAside = true :=
  Prog.only_embed (S := Broker.sig) (T := sig) (f := Op.broker) (fun _ ↦ rfl) _

theorem aside_processLBSMessage (m : XMessage) :
    (processLBSMessage J r m).Only fun o : Op ↦ o.isAside = true := by
  rw [processLBSMessage]
  split
  · trivial
  · trivial
  · split
    · trivial
    · split
      · trivial
      · split
        · trivial
        · refine ⟨rfl, ?_⟩
          rintro (_ | err)
          · refine ⟨rfl, fun _ ↦ ⟨rfl, fun _ ↦ ?_⟩⟩
            refine (aside_sendNotif _).bind fun _ ↦ ⟨rfl, fun _ ↦ ⟨rfl, fun _ ↦ trivial⟩⟩
          · exact ⟨rfl, fun _ ↦ trivial⟩

theorem aside_processLBSMessages (ms : List XMessage) :
    (processLBSMessages J r ms).Only fun o : Op ↦ o.isAside = true := by
  induction ms with
  | nil => trivial
  | cons m ms ih =>
    refine (aside_processLBSMessage m).bind ?_
    rintro (_ | err)
    · exact ih
    · trivial

/-- **How a turn of the reader ends**, by what it performed. -/
inductive Turn (J : Json) (r : Client) (P : (o : Op) → o.Reply → Prop) (n d : Int) :
    List Act → Res ⊕ Call → Prop
  | /-- The context is done. -/
    stopped {xs : List Act} (hx : ⟨.isContextDone, true⟩ ∈ xs) (hw : waits xs = []) :
      Turn J r P n d xs (.inl .ended)
  | /-- The read was cancelled. -/
    canceled {xs : List Act} {e : Err} {group consumer stream : String} (he : e.isCanceled = true)
      (hx : ⟨.xreadGroup group consumer stream, .error e⟩ ∈ xs) (hw : waits xs = []) :
      Turn J r P n d xs (.inl .ended)
  | /-- The read failed once too often. -/
    exceeded {xs : List Act} (hf : failed xs = true) (hn : r.Exceeds (wrap64 (n + 1)))
      (hw : waits xs = []) : Turn J r P n d xs (.inl .ended)
  | /-- The read failed, and the context was done during the wait. -/
    abandoned {xs : List Act} (hf : failed xs = true) (hx : ⟨.waitOrDone d, true⟩ ∈ xs)
      (hw : waits xs = [d]) : Turn J r P n d xs (.inl .ended)
  | /-- The read failed, and is made again after the wait. -/
    retried {xs : List Act} (hf : failed xs = true) (hn : ¬ r.Exceeds (wrap64 (n + 1)))
      (hw : waits xs = [d]) :
      Turn J r P n d xs (.inr (.readLBSStream (wrap64 (n + 1)) (r.nextRetryDelay d)))
  | /-- A message could not be processed. -/
    unprocessed {xs ys : List Act} {streams : List (String × List XMessage)} {e : Err}
      {group consumer stream : String} (hf : failed xs = false)
      (hx : ⟨.xreadGroup group consumer stream, .ok streams⟩ ∈ xs)
      (hp : (processLBSMessages J r (streams.flatMap Prod.snd)).Runs (Prog.Records P) ys (some e))
      (hw : waits xs = []) : Turn J r P n d xs (.inl .ended)
  | /-- All messages were processed. -/
    processed {xs : List Act} (hf : failed xs = false) (hw : waits xs = []) :
      Turn J r P n d xs (.inr (if 0 < n then .readLBSStream 0 r.initialRetryDelay
        else .readLBSStream n d))

theorem traces_terminate (info : String) : (readLBSStream.terminate info).Traces (Prog.Records P)
    fun xs a ↦ (failed xs = false ∧ waits xs = []) ∧ a = .inl .ended := by
  refine (traces_of_aside (aside_sendNotif _)).bind fun xs _ hxs ↦ Prog.Traces.ret ?_
  rw [List.append_nil]
  exact ⟨hxs, rfl⟩

/-- Every turn of the reader ends in one of these ways. -/
theorem traces_readLBSStream :
    (readLBSStream J r n d).Traces (Prog.Records P) (Turn J r P n d) := by
  rw [readLBSStream]
  refine Prog.Traces.call (S := sig) (o := .isContextDone) ?_
  rintro x (_ | _) ⟨rfl, -⟩
  · refine Prog.Traces.call (S := sig) (o := .xreadGroup _ _ _) ?_
    rintro x (e | streams) ⟨rfl, -⟩
    · show Prog.Traces _ _ (if e.isCanceled then _ else _)
      split
      · next hcanceled =>
        refine (traces_terminate _).mono ?_
        rintro xs a ⟨⟨hf, hw⟩, rfl⟩
        refine .canceled hcanceled (List.mem_cons_of_mem _ List.mem_cons_self) ?_
        rw [waits_cons, waits_cons, hw]
        rfl
      · show Prog.Traces _ _ (if 0 ≤ r.maxRetries ∧ r.maxRetries < wrap64 (n + 1) then _ else _)
        split
        · next hn =>
          refine (traces_terminate _).mono ?_
          rintro xs a ⟨⟨hf, hw⟩, rfl⟩
          refine .exceeded rfl hn ?_
          rw [waits_cons, waits_cons, hw]
          rfl
        · next hn =>
          refine Prog.Traces.call (S := sig) (o := .waitOrDone _) ?_
          rintro x (_ | _) ⟨rfl, -⟩
          · exact Prog.Traces.ret (.retried rfl hn rfl)
          · refine (traces_terminate _).mono ?_
            rintro xs a ⟨⟨hf, hw⟩, rfl⟩
            refine .abandoned rfl (by simp) ?_
            rw [waits_cons, waits_cons, waits_cons, hw]
            rfl
    · refine Prog.Traces.bind (p := processLBSMessages J r (streams.flatMap Prod.snd))
        (fun ys res hr ↦ And.intro (aside_of_forall (hr.only (aside_processLBSMessages _))) hr) ?_
      rintro ys (_ | e) ⟨⟨hf, hw⟩, hr⟩
      · show Prog.Traces _ _ (if 0 < n then _ else _)
        have hdone : Turn J r P n d (⟨.isContextDone, false⟩ ::
            ⟨.xreadGroup r.lbsGroupName r.consumerID r.lbsName, .ok streams⟩ :: (ys ++ []))
            (.inr (if 0 < n then .readLBSStream 0 r.initialRetryDelay else .readLBSStream n d)) := by
          refine .processed ?_ ?_
          · rw [failed_cons, failed_cons, List.append_nil, hf]
            rfl
          · rw [waits_cons, waits_cons, List.append_nil, hw]
            rfl
        split
        · next hn =>
          rw [if_pos hn] at hdone
          exact Prog.Traces.ret hdone
        · next hn =>
          rw [if_neg hn] at hdone
          exact Prog.Traces.ret hdone
      · refine (traces_terminate _).mono ?_
        rintro xs a ⟨⟨hf', hw'⟩, rfl⟩
        refine .unprocessed ?_ (List.mem_cons_of_mem _ List.mem_cons_self) hr ?_
        · rw [failed_cons, failed_cons, failed_append, hf, hf']
          rfl
        · rw [waits_cons, waits_cons, waits_append, hw, hw']
          rfl
  · refine (traces_terminate _).mono ?_
    rintro xs a ⟨⟨hf, hw⟩, rfl⟩
    exact .stopped (by simp) (by rw [waits_cons, hw]; rfl)

end

/-! ## The delays -/

/-- The delay after `k + 1` errors in a row, as the reader computes it. -/
def Client.retryDelay (r : Client) : Nat → Int
  | 0 => r.initialRetryDelay
  | k + 1 => r.nextRetryDelay (r.retryDelay k)

/-- What the reader was configured with. -/
def Client.retryConfig (r : Client) : RetryConfig :=
  ⟨r.maxRetries, r.initialRetryDelay, r.maxRetryDelay⟩

/-- How many errors in a row a list of results ends with. -/
def streak (bs : List Bool) : Nat := (bs.reverse.takeWhile id).length

@[simp] theorem streak_nil : streak [] = 0 := rfl

@[simp] theorem streak_append_true (bs : List Bool) : streak (bs ++ [true]) = streak bs + 1 := by
  simp [streak]

@[simp] theorem streak_append_false (bs : List Bool) : streak (bs ++ [false]) = 0 := by
  simp [streak]

/-- The count of errors in a row stays within a 64-bit number: it is limited to less than the
largest one, or that many errors do not occur. -/
def CountFits (r : Client) (bs : List Bool) : Prop :=
  (0 ≤ r.maxRetries ∧ r.maxRetries < maxInt) ∨ ∀ cs, cs <+: bs → (streak cs : Int) ≤ maxInt

theorem CountFits.of_prefix {r : Client} {bs cs : List Bool} (h : CountFits r bs) (hcs : cs <+: bs) :
    CountFits r cs := by
  rcases h with h | h
  · exact .inl h
  · exact .inr fun ds hds ↦ h ds (hds.trans hcs)

section

variable {J : Json} {cfg : Nat → Client} {c : Nat} {P : (o : Op) → o.Reply → Prop}
  {xss : List (List Act)} {xs : List Act} {g : Call} {a : Res ⊕ Call}

/-- The count of a turn whose read fails. -/
theorem CountFits.wrap64_succ {r : Client} {bs : List Bool} (h : CountFits r (bs ++ [true]))
    (hle : 0 ≤ r.maxRetries → (streak bs : Int) ≤ r.maxRetries) :
    wrap64 (streak bs + 1) = streak bs + 1 := by
  refine wrap64_of_mem (by omega) ?_
  rcases h with ⟨hlo, hhi⟩ | h
  · have := hle hlo
    omega
  · simpa using h _ List.prefix_rfl

/-- After a success the reader starts afresh, whether or not there were errors before. -/
theorem fresh_of_success (r : Client) (k : Nat) :
    (if (0 : Int) < k then Call.readLBSStream 0 r.initialRetryDelay
      else .readLBSStream k (r.retryDelay k)) = .readLBSStream 0 r.initialRetryDelay := by
  cases k with
  | zero => rfl
  | succ k => exact if_pos (by omega)

/-- **What the reader goes round with**: the number of errors in a row, which is within the
budget, and the delay for it. -/
theorem rounds_eq (hr : Prog.Rounds (Prog.Records P) (body J cfg c)
      (.readLBSStream 0 (cfg c).initialRetryDelay) xss g)
    (hfits : CountFits (cfg c) (xss.map failed)) :
    g = .readLBSStream (streak (xss.map failed)) ((cfg c).retryDelay (streak (xss.map failed))) ∧
      (0 ≤ (cfg c).maxRetries → (streak (xss.map failed) : Int) ≤ (cfg c).maxRetries) := by
  induction hr with
  | nil => exact ⟨rfl, id⟩
  | @snoc xss g h xs _ hx ih =>
    rw [List.map_append, List.map_singleton] at hfits ⊢
    obtain ⟨rfl, hle⟩ := ih (hfits.of_prefix (List.prefix_append _ _))
    have hturn := traces_readLBSStream xs _ hx
    generalize hres : (Sum.inr h : Res ⊕ Call) = res at hturn
    -- of the ways a turn ends, two go round
    cases hturn with
    | retried hf hn _ =>
      rw [hf] at hfits ⊢
      rw [hfits.wrap64_succ hle] at hn hres
      obtain rfl := Sum.inr.inj hres
      rw [streak_append_true, Nat.cast_add_one]
      exact ⟨rfl, fun hlo ↦ not_lt.1 fun hlt ↦ hn ⟨hlo, hlt⟩⟩
    | processed hf _ =>
      rw [fresh_of_success] at hres
      obtain rfl := Sum.inr.inj hres
      rw [hf, streak_append_false]
      exact ⟨rfl, id⟩
    | _ => cases hres

end

section

variable {r : Client}

end

namespace Demo

/-- A reader with a budget and its delays. -/
def reader (maxRetries initialRetryDelay maxRetryDelay : Int) : Client where
  serviceName := "demo"
  consumerID := "a"
  hbInterval := 1000000000
  maxRetries := maxRetries
  initialRetryDelay := initialRetryDelay
  maxRetryDelay := maxRetryDelay
  recoveryConfig := defaultRecoveryConfig

/-- The payload is the bare name of the data stream. -/
def bareJson : Json := ⟨fun payload ↦ .ok ⟨payload, ∅⟩⟩

/-- Reads fail or find nothing, and nothing else goes wrong. -/
def flaky : (o : Op) → o.Reply → Prop
  | .isContextDone, done => (show Bool from done) = false
  | .waitOrDone _, done => (show Bool from done) = false
  | .xreadGroup _ _ _, reply =>
    (show Except Err (List (String × List XMessage)) from reply) =
        .error (.reply "connection refused") ∨
      (show Except Err (List (String × List XMessage)) from reply) = .ok []
  | .broker _, _ => True
  | _, _ => False

/-- What a turn performs whose read fails and is made again. -/
def refused (r : Client) (d : Int) : List Act :=
  [⟨.isContextDone, false⟩, ⟨.xreadGroup r.lbsGroupName r.consumerID r.lbsName,
    .error (.reply "connection refused")⟩, ⟨.waitOrDone d, false⟩]

theorem runs_refused {J : Json} {r : Client} {n d : Int} (hn : ¬ r.Exceeds (wrap64 (n + 1))) :
    (readLBSStream J r n d).Runs (Prog.Records flaky) (refused r d)
      (.inr (.readLBSStream (wrap64 (n + 1)) (r.nextRetryDelay d))) := by
  rw [readLBSStream]
  refine .call (S := sig) (o := .isContextDone) ⟨rfl, rfl⟩ ?_
  refine .call (S := sig) (o := .xreadGroup _ _ _) ⟨rfl, .inl rfl⟩ ?_
  show Prog.Runs _ (if 0 ≤ r.maxRetries ∧ r.maxRetries < wrap64 (n + 1) then _ else _) _ _
  split
  · next h => exact absurd h hn
  · exact .call (S := sig) (o := .waitOrDone d) ⟨rfl, rfl⟩ (.ret _)

/-- What a turn performs whose read finds nothing. -/
def foundNone (r : Client) : List Act :=
  [⟨.isContextDone, false⟩, ⟨.xreadGroup r.lbsGroupName r.consumerID r.lbsName, .ok []⟩]

theorem runs_foundNone {J : Json} {r : Client} {n d : Int} (hn : 0 < n) :
    (readLBSStream J r n d).Runs (Prog.Records flaky) (foundNone r)
      (.inr (.readLBSStream 0 r.initialRetryDelay)) := by
  rw [readLBSStream]
  refine .call (S := sig) (o := .isContextDone) ⟨rfl, rfl⟩ ?_
  refine .call (S := sig) (o := .xreadGroup _ _ _) ⟨rfl, .inr rfl⟩ ?_
  show Prog.Runs _ (if 0 < n then _ else _) _ _
  rw [if_pos hn]
  exact .ret _

/-- Two errors, a success and one error more. -/
theorem rounds_erratic (J : Json) (cfg : Nat → Client) (c : Nat)
    (hmax : 2 ≤ (cfg c).maxRetries) : ∃ xss, Prog.Rounds (Prog.Records flaky) (body J cfg c)
        (.readLBSStream 0 (cfg c).initialRetryDelay) xss
        (.readLBSStream 1 ((cfg c).nextRetryDelay (cfg c).initialRetryDelay)) ∧
      xss.map failed = [true, true, false, true] := by
  have hone : wrap64 (0 + 1) = 1 := by decide
  have htwo : wrap64 (1 + 1) = 2 := by decide
  have hfirst (d : Int) := runs_refused (J := J) (r := cfg c) (n := 0) (d := d) (by
    rw [hone]
    rintro ⟨-, hlt⟩
    omega)
  have hsecond (d : Int) := runs_refused (J := J) (r := cfg c) (n := 1) (d := d) (by
    rw [htwo]
    rintro ⟨-, hlt⟩
    omega)
  rw [hone] at hfirst
  rw [htwo] at hsecond
  have hstart : Prog.Rounds (Prog.Records flaky) (body J cfg c)
    (.readLBSStream 0 (cfg c).initialRetryDelay) [] _ := .nil
  have herrors := (hstart.snoc (hfirst _)).snoc (hsecond _)
  have hfresh := herrors.snoc (runs_foundNone (by decide))
  exact ⟨_, hfresh.snoc (hfirst _), rfl⟩

end Demo

/-- The replies while the context is not cancelled and every batch is processed without
error. -/
structure Undisturbed (J : Json) (r : Client) (P : (o : Op) → o.Reply → Prop) : Prop where
  /-- The context is never found to be done. -/
  not_done : ¬ P .isContextDone true
  /-- Nor during a wait. -/
  not_done_waiting : ∀ d, ¬ P (.waitOrDone d) true
  /-- No read is cancelled. -/
  not_canceled : ∀ group consumer stream e, P (.xreadGroup group consumer stream) (.error e) →
    e.isCanceled = false
  /-- What is read is processed. -/
  processed : ∀ group consumer stream streams, P (.xreadGroup group consumer stream) (.ok streams) →
    ∀ xs res, (processLBSMessages J r (streams.flatMap Prod.snd)).Runs (Prog.Records P) xs res →
      res = none

section

variable {J : Json} {cfg : Nat → Client} {c : Nat} {P : (o : Op) → o.Reply → Prop}
  {xss : List (List Act)} {xs : List Act} {g : Call} {a : Res ⊕ Call}

/-- A turn that nothing disturbs: the read fails once too often, or fails and is made again,
or succeeds. -/
theorem Undisturbed.turn {r : Client} {n d : Int} (hP : Undisturbed J r P)
    (hx : (readLBSStream J r n d).Runs (Prog.Records P) xs a) :
    (failed xs = true ∧ r.Exceeds (wrap64 (n + 1)) ∧ a = .inl .ended) ∨
      (failed xs = true ∧ ¬ r.Exceeds (wrap64 (n + 1)) ∧
        a = .inr (.readLBSStream (wrap64 (n + 1)) (r.nextRetryDelay d))) ∨
      (failed xs = false ∧ a = .inr (if 0 < n then .readLBSStream 0 r.initialRetryDelay
        else .readLBSStream n d)) := by
  cases traces_readLBSStream xs a hx with
  | stopped hmem _ => exact absurd (hx.allows_of_mem hmem) hP.not_done
  | canceled he hmem _ =>
    rw [hP.not_canceled _ _ _ _ (hx.allows_of_mem hmem)] at he
    cases he
  | exceeded hf hn _ => exact .inl ⟨hf, hn, rfl⟩
  | abandoned _ hmem _ => exact absurd (hx.allows_of_mem hmem) (hP.not_done_waiting d)
  | retried hf hn _ => exact .inr (.inl ⟨hf, hn, rfl⟩)
  | unprocessed _ hmem hp _ => cases hP.processed _ _ _ _ (hx.allows_of_mem hmem) _ _ hp
  | processed hf _ => exact .inr (.inr ⟨hf, rfl⟩)

/-- **The retry budget.**  While the context is not cancelled, every batch is processed
without error and the count fits into 64 bits, the loop ends with the read that makes
`MaxRetries + 1` errors in a row, where `MaxRetries` is not -1, and with no other; and every
success is followed by a fresh start. -/
theorem reader_ends_iff_budget_spent (hP : Undisturbed J (cfg c) P)
    (hr : Prog.Rounds (Prog.Records P) (body J cfg c)
      (.readLBSStream 0 (cfg c).initialRetryDelay) xss g)
    (hx : (body J cfg c g).Runs (Prog.Records P) xs a)
    (hfits : CountFits (cfg c) ((xss ++ [xs]).map failed)) :
    ((∃ res, a = .inl res) ↔ 0 ≤ (cfg c).maxRetries ∧
      (streak ((xss ++ [xs]).map failed) : Int) = (cfg c).maxRetries + 1) ∧
      (failed xs = false → a = .inr (.readLBSStream 0 (cfg c).initialRetryDelay)) := by
  rw [List.map_append, List.map_singleton] at hfits ⊢
  obtain ⟨rfl, hle⟩ := rounds_eq hr (hfits.of_prefix (List.prefix_append _ _))
  rcases hP.turn hx with ⟨hf, hn, rfl⟩ | ⟨hf, hn, rfl⟩ | ⟨hf, rfl⟩
  · rw [hf] at hfits ⊢
    rw [hfits.wrap64_succ hle] at hn
    have hspent : (streak (xss.map failed) : Int) = (cfg c).maxRetries :=
      le_antisymm (hle hn.1) (Int.lt_add_one_iff.1 hn.2)
    rw [streak_append_true, Nat.cast_add_one, hspent]
    constructor
    · exact ⟨fun _ ↦ ⟨hn.1, rfl⟩, fun _ ↦ ⟨_, rfl⟩⟩
    · intro h
      cases h
  · rw [hf] at hfits ⊢
    rw [hfits.wrap64_succ hle] at hn
    rw [streak_append_true, Nat.cast_add_one]
    constructor
    · constructor
      · rintro ⟨res, h⟩
        cases h
      · rintro ⟨hlo, heq⟩
        exact absurd ⟨hlo, by omega⟩ hn
    · intro h
      cases h
  · rw [hf, streak_append_false, Nat.cast_zero]
    constructor
    · constructor
      · rintro ⟨res, h⟩
        cases h
      · rintro ⟨hlo, heq⟩
        omega
    · intro _
      rw [fresh_of_success]

end

namespace Demo

theorem undisturbed_flaky (r : Client) : Undisturbed bareJson r flaky where
  not_done h := by cases h
  not_done_waiting _ h := by cases h
  not_canceled _ _ _ e h := by
    rcases h with h | h
    · cases h
      rfl
    · cases h
  processed _ _ _ streams h xs res hr := by
    rcases h with h | h
    · cases h
    · cases h
      cases hr
      rfl

/-- What a turn performs whose read fails once too often. -/
def gaveUp (r : Client) : List Act :=
  [⟨.isContextDone, false⟩, ⟨.xreadGroup r.lbsGroupName r.consumerID r.lbsName,
    .error (.reply "connection refused")⟩, ⟨.broker .load, false⟩,
    ⟨.broker (.select 0 (makeStreamTerminatedNotif "connection refused")), .sent⟩]

theorem runs_gaveUp {J : Json} {r : Client} {n d : Int} (hn : r.Exceeds (wrap64 (n + 1))) :
    (readLBSStream J r n d).Runs (Prog.Records flaky) (gaveUp r) (.inl .ended) := by
  rw [readLBSStream]
  refine .call (S := sig) (o := .isContextDone) ⟨rfl, rfl⟩ ?_
  refine .call (S := sig) (o := .xreadGroup _ _ _) ⟨rfl, .inl rfl⟩ ?_
  show Prog.Runs _ (if 0 ≤ r.maxRetries ∧ r.maxRetries < wrap64 (n + 1) then _ else _) _ _
  split
  · refine .call (S := sig) (o := .broker .load) ⟨rfl, trivial⟩ ?_
    exact .call (S := sig) (o := .broker (.select 0 _)) ⟨rfl, trivial⟩ (.ret _)
  · next h => exact absurd hn h

/-- A reader whose budget is never spent can fail any number of times in a row. -/
theorem rounds_refused (J : Json) (cfg : Nat → Client) (c : Nat)
    (hn : ∀ n, ¬ (cfg c).Exceeds (wrap64 n)) (k : Nat) :
    ∃ xss n d, Prog.Rounds (Prog.Records flaky) (body J cfg c)
        (.readLBSStream 0 (cfg c).initialRetryDelay) xss (.readLBSStream n d) ∧
      xss.map failed = List.replicate k true := by
  induction k with
  | zero => exact ⟨[], 0, _, .nil, rfl⟩
  | succ k ih =>
    obtain ⟨xss, n, d, hr, hf⟩ := ih
    refine ⟨xss ++ [refused (cfg c) d], _, _, hr.snoc (runs_refused (hn (n + 1))), ?_⟩
    rw [List.map_append, hf, List.replicate_succ']
    rfl

end Demo

/-- With two retries, two errors, a success and three errors more: the last of these, and none
before it, ends the loop. -/
theorem reader_ends_iff_budget_spent_after_success :
    ∃ xss xs a, Prog.Rounds (Prog.Records Demo.flaky)
        (body Demo.bareJson (fun _ ↦ Demo.reader 2 1 4) 0) (.readLBSStream 0 1) xss
        (.readLBSStream 2 4) ∧
      (body Demo.bareJson (fun _ ↦ Demo.reader 2 1 4) 0 (.readLBSStream 2 4)).Runs
        (Prog.Records Demo.flaky) xs a ∧
      (xss ++ [xs]).map failed = [true, true, false, true, true, true] ∧ ∃ res, a = .inl res := by
  have hmax : (2 : Int) ≤ (Demo.reader 2 1 4).maxRetries := by decide
  obtain ⟨xss, hr, hf⟩ := Demo.rounds_erratic Demo.bareJson (fun _ ↦ Demo.reader 2 1 4) 0 hmax
  have hn : ¬ (Demo.reader 2 1 4).Exceeds (wrap64 (1 + 1)) := by
    rintro ⟨-, hlt⟩
    exact absurd hlt (by decide)
  have hr' := hr.snoc (Demo.runs_refused hn)
  have hx := Demo.runs_gaveUp (J := Demo.bareJson) (r := Demo.reader 2 1 4) (n := 2) (d := 4)
    ⟨by decide, by decide⟩
  have hf' : (xss ++ [Demo.refused (Demo.reader 2 1 4) 2,
      Demo.gaveUp (Demo.reader 2 1 4)]).map failed = _ := List.map_append
  rw [hf, List.append_cons] at hf'
  refine ⟨_, _, _, hr', hx, hf', ?_⟩
  exact (reader_ends_iff_budget_spent (Demo.undisturbed_flaky _) hr' hx
    (.inl ⟨by decide, by decide⟩)).1.2 ⟨by decide, congrArg (fun bs ↦ (streak bs : Int)) hf'⟩

/-- With `MaxRetries` at the largest `int`, as many errors in a row and one more do not end the
loop. -/
theorem reader_outlives_budget :
    (Demo.reader maxInt 1 1).retryConfig.validate = none ∧
    Undisturbed Demo.bareJson (Demo.reader maxInt 1 1) Demo.flaky ∧
    ∃ xss g, Prog.Rounds (Prog.Records Demo.flaky)
        (body Demo.bareJson (fun _ ↦ Demo.reader maxInt 1 1) 0) (.readLBSStream 0 1) xss g ∧
      (streak (xss.map failed) : Int) = (Demo.reader maxInt 1 1).maxRetries + 1 := by
  have hn (n : Int) : ¬ (Demo.reader maxInt 1 1).Exceeds (wrap64 n) := by
    rintro ⟨-, hlt⟩
    have hle : wrap64 n ≤ maxInt := by
      unfold maxInt
      rw [wrap64, Int.bmod_def]
      omega
    exact absurd hlt (not_lt.2 hle)
  obtain ⟨xss, n, d, hr, hf⟩ :=
    Demo.rounds_refused Demo.bareJson (fun _ ↦ Demo.reader maxInt 1 1) 0 hn (2 ^ 63)
  refine ⟨rfl, Demo.undisturbed_flaky _, xss, _, hr, ?_⟩
  have hid : id true = true := rfl
  rw [hf, streak, List.reverse_replicate, List.takeWhile_replicate, if_pos hid,
    List.length_replicate]
  rfl

end RedisStreamClient.Impl

import RedisStreamClient.Impl.Locks
import RedisStreamClient.Lib.Scan

/-!
# Passes of the reconciliation scan

What passes of `reconcileLBS` do to the pending list when they run alone, all commands
succeed and no lock changes.  A pass looks at the first `BatchSize` idle entries and
takes those without a lock off the list; entries whose owner is alive stay, and are
looked at again by the next pass.  So `n` passes are `n` scans of the pending list in
the sense of `Lib.Scan`, and entries without a lock are left behind for good exactly
behind `BatchSize` or more entries of living owners.
-/

namespace RedisStreamClient.Impl

open RedisStreamClient.Lib RedisStreamClient.Errs RedisStreamClient.Notifs
open RedisStreamClient.Redis

/-! ## Commands that succeed -/

/-- An operation of client `c` that meets no fault. -/
def Clean (c : Nat) (o : Op) (w : World) (r : o.Reply) (w' : World) : Prop :=
  ∃ ch f, ch.fault = .none ∧ World.exec c o ch w = some (r, w', f)

section Rules

variable {A : Type} {Q : A → World → Prop} {c : Nat} {w w' : World}

/-- An operation whose outcome is determined. -/
theorem ensures_call {o : Op} {r : o.Reply} {f : o.Reply → Prog sig A}
    (hx : ∀ ch : Choice, ch.fault = .none → World.exec c o ch w = some (r, w', none))
    (h : (f r).Ensures (Clean c) Q w') : (Prog.call (S := sig) o f).Ensures (Clean c) Q w := by
  refine ⟨⟨r, w', .plain, none, rfl, hx _ rfl⟩, ?_⟩
  rintro r₁ w₁ ⟨ch, g, hch, hx₁⟩
  rw [hx ch hch] at hx₁
  obtain ⟨rfl, hw⟩ := Prod.mk.inj (Option.some.inj hx₁)
  obtain ⟨rfl, -⟩ := Prod.mk.inj hw
  exact h

theorem ensures_xRange {s a b : String} {f : _ → Prog sig A}
    (h : (f (w.server.xrange s a b)).Ensures (Clean c) Q w) :
    (Op.xRange s a b >>= f).Ensures (Clean c) Q w :=
  ensures_call (o := .xrange s a b) (f := f) (fun _ hch ↦ World.exec_xrange_clean hch a b) h

theorem ensures_xAck {s g i : String} {f : _ → Prog sig A}
    (h : (f (w.server.xack s g i).1).Ensures (Clean c) Q (w.setServer (w.server.xack s g i).2)) :
    (Op.xAck s g i >>= f).Ensures (Clean c) Q w :=
  ensures_call (o := .xack s g i) (f := f) (fun _ hch ↦ World.exec_xack_clean hch) h

theorem ensures_xDel {s i : String} {f : _ → Prog sig A}
    (h : (f (w.server.xdel s i).1).Ensures (Clean c) Q (w.setServer (w.server.xdel s i).2)) :
    (Op.xDel s i >>= f).Ensures (Clean c) Q w :=
  ensures_call (o := .xdel s i) (f := f) (fun _ hch ↦ World.exec_xdel_clean hch) h

theorem ensures_exists {k : String} {f : _ → Prog sig A}
    (h : (f (w.server.existsKey k)).Ensures (Clean c) Q w) :
    (Op.exists_ k >>= f).Ensures (Clean c) Q w :=
  ensures_call (o := .existsKey k) (f := f) (fun _ hch ↦ World.exec_existsKey_clean hch k) h

theorem ensures_xPendingExt {s g a b : String} {i : Nat} {n : Int} {f : _ → Prog sig A}
    (h : (f (w.server.xpending s g i a b n)).Ensures (Clean c) Q w) :
    (Op.xPendingExt s g i a b n >>= f).Ensures (Clean c) Q w :=
  ensures_call (o := .xpending s g i a b n) (f := f)
    (fun _ hch ↦ World.exec_xpending_clean hch i a b n) h

theorem ensures_metric {m : Metric} {f : _ → Prog sig A}
    (h : (f ()).Ensures (Clean c) Q w) : (Op.metric m >>= f).Ensures (Clean c) Q w :=
  ensures_call (o := .record m) (f := f) (fun _ _ ↦ rfl) h

theorem ensures_contextDone {f : _ → Prog sig A}
    (h : (f (w.clients c).ctxDone).Ensures (Clean c) Q w) :
    (Op.contextDone >>= f).Ensures (Clean c) Q w :=
  ensures_call (o := .isContextDone) (f := f) (fun _ _ ↦ rfl) h

/-- The server chooses the ID of an added entry and how much it trims. -/
theorem ensures_xAdd {s : String} {n : Int} {v : Values} {f : _ → Prog sig A}
    (h : ∀ i trim s', w.server.xadd s n v i trim = some (.ok i.text, s') →
      (f (.ok i.text)).Ensures (Clean c) Q (w.setServer s')) :
    (Op.xAdd s n v >>= f).Ensures (Clean c) Q w := by
  constructor
  · obtain ⟨i, r, s', hr⟩ := w.server.exists_xadd s n v
    refine ⟨r, w.setServer s', .plain i, none, rfl, ?_⟩
    rw [World.exec]
    show (w.server.xadd s n v i 0).map _ = _
    rw [hr]
    rfl
  · rintro r w₁ ⟨ch, g, hch, hx⟩
    obtain ⟨rfl, s', hr, rfl⟩ := World.exec_xadd_clean hch hx
    exact h _ _ _ hr

end Rules

/-! ## One entry -/

/-- The lock of the entry exists.  An entry that is no longer there or that cannot be
parsed has no lock. -/
def Service.lockAlive (V : Service) (s : Server) (i : StreamID) : Bool :=
  ((V.stream s).lookup i).any fun v ↦ (V.nameOf v).any fun name ↦ (s.keys (lockKey name i)).isSome

/-- What is left alone by a recoverer of the entry `i`. -/
structure Spares (V : Service) (i : StreamID) (s s' : Server) : Prop where
  /-- No lock changes. -/
  keys_eq : s'.keys = s.keys
  /-- No time passes. -/
  now_eq : s'.now = s.now
  /-- IDs are assigned upwards. -/
  top_le : (V.stream s).top ≤ (V.stream s').top
  /-- Other entries stay. -/
  lookup_eq : ∀ j ≤ (V.stream s).top, j ≠ i → (V.stream s').lookup j = (V.stream s).lookup j

section Spares

variable {V : Service} {i : StreamID} {s s' s'' : Server}

theorem Spares.trans (h : Spares V i s s') (h' : Spares V i s' s'') : Spares V i s s'' where
  keys_eq := h'.keys_eq.trans h.keys_eq
  now_eq := h'.now_eq.trans h.now_eq
  top_le := h.top_le.trans h'.top_le
  lookup_eq j hj hne := (h'.lookup_eq j (hj.trans h.top_le) hne).trans (h.lookup_eq j hj hne)

/-- The locks of other entries are as alive as before. -/
theorem Spares.lockAlive_eq (h : Spares V i s s') {j : StreamID} (hj : j ≤ (V.stream s).top)
    (hne : j ≠ i) : V.lockAlive s' j = V.lockAlive s j := by
  rw [Service.lockAlive, h.lookup_eq j hj hne, h.keys_eq, Service.lockAlive]

/-- The acknowledgement of a pending entry. -/
theorem xack_pending (hi : i ∈ V.pending s) : (s.xack V.lbs V.group i.text).1 = .ok 1 ∧
    Spares V i s (s.xack V.lbs V.group i.text).2 ∧
      V.pending (s.xack V.lbs V.group i.text).2 = (V.pending s).erase i := by
  rcases s.xack_cases V.lbs V.group i.text with ⟨j, hj, -, heq⟩ | ⟨hno, -⟩
  · obtain rfl : i = j := by simpa using hj
    rw [heq]
    exact ⟨rfl, ⟨rfl, rfl, le_rfl, fun _ _ _ ↦ rfl⟩, Service.pending_setGroup⟩
  · exact absurd hi (hno i (by simp))

/-- The deletion of the entry. -/
theorem spares_xdel : Spares V i s (s.xdel V.lbs i.text).2 ∧
    V.pending (s.xdel V.lbs i.text).2 = V.pending s := by
  rcases s.xdel_cases V.lbs i.text with ⟨j, hj, -, heq⟩ | ⟨-, heq⟩
  · obtain rfl : i = j := by simpa using hj
    rw [heq]
    refine ⟨⟨rfl, rfl, ?_, ?_⟩, rfl⟩
    · rw [Service.stream_setStream]
      exact le_rfl
    · intro j _ hne
      rw [Service.stream_setStream]
      exact Log.lookup_erase_of_ne hne
  · rw [heq]
    exact ⟨⟨rfl, rfl, le_rfl, fun _ _ _ ↦ rfl⟩, rfl⟩

/-- The addition of its successor to the LBS. -/
theorem spares_xadd_lbs {v : Values} {newID : StreamID} {trim : Nat} {r : Except Err String}
    (h : s.xadd V.lbs 0 v newID trim = some (r, s')) :
    Spares V i s s' ∧ V.pending s' = V.pending s := by
  obtain ⟨hlt, rfl, -⟩ := Server.xadd_uncapped h
  refine ⟨⟨rfl, rfl, ?_, ?_⟩, rfl⟩
  · rw [Service.stream_setStream]
    exact hlt.le
  · intro j hj _
    rw [Service.stream_setStream]
    exact Log.lookup_push_of_ne _ (hj.trans_lt hlt).ne

/-- The addition of a copy to another stream. -/
theorem spares_xadd_other {stream : String} {maxLen : Int} {v : Values} {newID : StreamID}
    {trim : Nat} {r : Except Err String} (hne : stream ≠ V.lbs)
    (h : s.xadd stream maxLen v newID trim = some (r, s')) :
    Spares V i s s' ∧ V.pending s' = V.pending s := by
  obtain ⟨⟨l, rfl⟩, -⟩ := Server.xadd_eq h
  have hst := Service.stream_setStream_of_ne (s := s) (l := l) hne
  exact ⟨⟨rfl, rfl, by rw [hst], fun _ _ _ ↦ by rw [hst]⟩, rfl⟩

end Spares

/-- The entry `i` was taken off the pending list, and nothing else happened to the other
entries. -/
structure Removes (V : Service) (i : StreamID) (w w' : World) : Prop where
  /-- The clients are left alone. -/
  clients_eq : w'.clients = w.clients
  /-- So are the other entries. -/
  spares : Spares V i w.server w'.server
  /-- The entry is pending no more. -/
  pending_eq : V.pending w'.server = (V.pending w.server).erase i

section ReQueue

variable {V : Service} {c : Nat} {i : StreamID} {w : World}

/-- After the acknowledgement, whatever is added where it may be and the deletion. -/
theorem Removes.of_xack {w₁ : World} (hi : i ∈ V.pending w.server)
    (hc : w₁.clients = w.clients)
    (hs : Spares V i (w.server.xack V.lbs V.group i.text).2 w₁.server)
    (hp : V.pending w₁.server = V.pending (w.server.xack V.lbs V.group i.text).2) :
    Removes V i w w₁ where
  clients_eq := hc
  spares := (xack_pending hi).2.1.trans hs
  pending_eq := hp.trans (xack_pending hi).2.2

theorem routeToDLQ_ensures {name : String} {v : Values} {n : Int} {reason : String}
    (hi : i ∈ V.pending w.server) :
    (routeToDLQ (V.client c) name ⟨i.text, v⟩ n reason).Ensures (Clean c)
      (fun _ w' ↦ Removes V i w w') w := by
  refine ensures_xAck ?_
  rw [V.lbsName_eq, V.lbsGroupName_eq, (xack_pending hi).1]
  simp only [one_ne_zero, if_false, V.dlqStream_ne_empty c, ne_eq, not_false_eq_true, if_true]
  refine ensures_xAdd fun j trim s' hadd ↦ ?_
  refine ensures_metric ?_
  refine ensures_xDel ?_
  obtain ⟨hs, hp⟩ := spares_xadd_other (i := i) (V.dlqStream_ne_lbs c) hadd
  obtain ⟨hs', hp'⟩ := spares_xdel (V := V) (i := i) (s := s')
  exact .of_xack hi rfl (hs.trans hs') (hp'.trans hp)

theorem reAdd_ensures {name : String} {v : Values} (hi : i ∈ V.pending w.server) :
    (reAdd (V.client c) i.text name ⟨i.text, v⟩).Ensures (Clean c)
      (fun _ w' ↦ Removes V i w w') w := by
  rw [reAdd]
  split
  · exact (routeToDLQ_ensures hi).bind fun _ _ h ↦ h
  · refine ensures_xAck ?_
    rw [V.lbsName_eq, V.lbsGroupName_eq, (xack_pending hi).1]
    simp only [one_ne_zero, if_false]
    refine ensures_xAdd fun j trim s' hadd ↦ ?_
    refine ensures_xDel ?_
    refine ensures_metric ?_
    obtain ⟨hs, hp⟩ := spares_xadd_lbs (i := i) hadd
    obtain ⟨hs', hp'⟩ := spares_xdel (V := V) (i := i) (s := s')
    exact .of_xack hi rfl (hs.trans hs') (hp'.trans hp)

/-- Reading an entry finds what is there. -/
theorem readLBSEntry_ensures :
    (readLBSEntry (V.client c) i.text).Ensures (Clean c)
      (fun r w' ↦ r = .ok (((V.stream w.server).lookup i).map fun v ↦ ⟨i.text, v⟩) ∧ w' = w) w := by
  refine ensures_xRange ?_
  rw [V.lbsName_eq, Server.xrange_text, Service.stream]
  cases (w.server.streams V.lbs).lookup i with
  | none => exact ⟨rfl, rfl⟩
  | some v => exact ⟨rfl, rfl⟩

/-- Checking the lock of an entry finds whether it is there. -/
theorem ownerAlive_ensures {name : String} :
    (ownerAlive ⟨name, i.text⟩).Ensures (Clean c)
      (fun r w' ↦ r = .ok (w.server.keys (lockKey name i)).isSome ∧ w' = w) w := by
  refine ensures_exists ?_
  rw [Server.existsKey, lockKey]
  cases w.server.keys (LBSInfo.mk name i.text).formMutexKey with
  | none => exact ⟨rfl, rfl⟩
  | some v => exact ⟨rfl, rfl⟩

/-- **What `reQueue` does to a pending entry**: nothing if its lock is alive, else it
takes it off the list. -/
theorem reQueue_ensures (hi : i ∈ V.pending w.server) :
    (reQueue V.json (V.client c) i.text).Ensures (Clean c)
      (fun _ w' ↦ if V.lockAlive w.server i then w' = w else Removes V i w w') w := by
  refine readLBSEntry_ensures.bind ?_
  rintro _ w' ⟨rfl, hw⟩
  rw [hw, Service.lockAlive]
  cases hlook : (V.stream w.server).lookup i with
  | none =>
    -- the entry is gone: a blind acknowledgement
    refine ensures_xAck ?_
    rw [V.lbsName_eq, V.lbsGroupName_eq]
    exact .of_xack hi rfl ⟨rfl, rfl, le_rfl, fun _ _ _ ↦ rfl⟩ rfl
  | some v =>
    dsimp only [Option.map_some, Option.any_some]
    cases hn : LBSEntry.dataStreamName V.json ⟨i.text, v⟩ with
    | error err =>
      have hnone : V.nameOf v = none := by
        show (LBSEntry.dataStreamName V.json ⟨i.text, v⟩).toOption = none
        rw [hn]
        rfl
      simp only [hnone, Option.any_none, Bool.false_eq_true, if_false]
      exact (routeToDLQ_ensures hi).bind fun _ _ h ↦ h
    | ok name =>
      have hparts : createByParts name i.text = .ok ⟨name, i.text⟩ := by
        rw [createByParts, if_neg]
        rintro (h | h)
        · exact LBSEntry.dataStreamName_ne_empty hn h
        · exact StreamID.text_ne_empty i h
      simp only [hparts, Service.nameOf_eq_some.2 hn, Option.any_some]
      refine ownerAlive_ensures.bind ?_
      rintro _ w'' ⟨rfl, hw'⟩
      rw [hw']
      cases (w.server.keys (lockKey name i)).isSome with
      | false => exact reAdd_ensures hi
      | true => exact ensures_metric rfl

end ReQueue

/-! ## Passes -/

/-- Passes of the scan one after another; only the first one is that of the startup. -/
def passes (J : Json) (r : Client) (startup : Bool) : Nat → Prog sig Unit
  | 0 => return ()
  | n + 1 => do
    reconcileLBS J r startup
    passes J r false n

/-- Client `c` can scan: its context is not done, the pending entries are entries of the
LBS that have been idle for long enough, and `ok` says which of them have a lock. -/
structure Scannable (V : Service) (c : Nat) (ok : StreamID → Bool) (w : World) : Prop where
  /-- The context is not done. -/
  ctxDone_eq : (w.clients c).ctxDone = false
  /-- Pending entries were added to the LBS. -/
  le_top : ∀ e ∈ (V.pending w.server).entries, e.1 ≤ (V.stream w.server).top
  /-- They have been idle for long enough, in nanoseconds. -/
  idle_ge : ∀ e ∈ (V.pending w.server).entries, (V.client c).recoveryConfig.minIdleTime ≤
    (w.server.now - e.2.deliveryTime : Nat) * 1000000
  /-- Those with a lock. -/
  lockAlive_eq : ∀ e ∈ (V.pending w.server).entries, V.lockAlive w.server e.1 = ok e.1

section Passes

variable {V : Service} {c : Nat} {ok : StreamID → Bool} {w w' : World}

/-- The list without one of its entries. -/
theorem Removes.entries_eq {i : StreamID} {x : Pending} {p q : List (StreamID × Pending)}
    (h : Removes V i w w') (he : (V.pending w.server).entries = p ++ (i, x) :: q) :
    (V.pending w'.server).entries = p ++ q := by
  rw [h.pending_eq]
  exact Log.entries_erase he

theorem Scannable.removes {i : StreamID} (hw : Scannable V c ok w) (h : Removes V i w w') :
    Scannable V c ok w' := by
  have hsub : ∀ e ∈ (V.pending w'.server).entries, e ∈ (V.pending w.server).entries ∧ e.1 ≠ i := by
    rw [h.pending_eq]
    intro e he
    obtain ⟨he, hne⟩ := List.mem_filter.1 he
    exact ⟨he, by simpa using hne⟩
  refine ⟨?_, ?_, ?_, ?_⟩
  · rw [h.clients_eq]
    exact hw.ctxDone_eq
  · intro e he
    exact (hw.le_top e (hsub e he).1).trans h.spares.top_le
  · intro e he
    rw [h.spares.now_eq]
    exact hw.idle_ge e (hsub e he).1
  · intro e he
    obtain ⟨he, hne⟩ := hsub e he
    rw [h.spares.lockAlive_eq (hw.le_top e he) hne]
    exact hw.lockAlive_eq e he

/-- **The loop over the entries of a pass** removes those without a lock.  The entries
before them were looked at already, those after them are not looked at. -/
theorem scanPending_ensures {es p q : List (StreamID × Pending)} {n : ScanCounts}
    (hw : Scannable V c ok w) (he : (V.pending w.server).entries = p ++ es ++ q) :
    (scanPending V.json (V.client c) (es.map fun e ↦ e.1.text) n).Ensures (Clean c)
      (fun out w' ↦ out.isSome = true ∧ Scannable V c ok w' ∧
        (V.pending w'.server).entries = p ++ es.filter (fun e ↦ ok e.1) ++ q) w := by
  induction es generalizing p n w with
  | nil => exact ⟨rfl, hw, by simpa using he⟩
  | cons e es ih =>
    refine ensures_contextDone ?_
    rw [hw.ctxDone_eq]
    have hmem : e ∈ (V.pending w.server).entries := by rw [he]; simp
    have halive := hw.lockAlive_eq e hmem
    refine (reQueue_ensures (c := c) ⟨e.2, hmem⟩).bind ?_
    rintro ⟨outcome, name, err⟩ w' hpost
    rw [halive] at hpost
    -- the rest of the loop does not depend on how the entry is counted
    suffices hrest : ∀ n, (scanPending V.json (V.client c) (es.map fun e ↦ e.1.text) n).Ensures
        (Clean c) (fun out w' ↦ out.isSome = true ∧ Scannable V c ok w' ∧
          (V.pending w'.server).entries = p ++ (e :: es).filter (fun e ↦ ok e.1) ++ q) w' by
      cases err with
      | none => exact hrest _
      | some err => exact hrest _
    intro n
    cases hok : ok e.1 with
    | true =>
      rw [hok, if_pos rfl] at hpost
      subst hpost
      have := ih (p := p ++ [e]) (n := n) hw (by rw [he]; simp)
      simpa [hok] using this
    | false =>
      simp only [hok, Bool.false_eq_true, if_false] at hpost
      have heq := hpost.entries_eq (p := p) (q := es ++ q) (x := e.2) (by rw [he]; simp)
      have := ih (p := p) (n := n) (hw.removes hpost) (by rw [heq]; simp)
      simpa [hok] using this

/-- What has been idle for a duration has been so in milliseconds. -/
theorem formatMs_le {d : Int} {k : Nat} (h : d ≤ k * 1000000) : formatMs d ≤ k := by
  unfold formatMs
  split <;> omega

/-- A pass is given the head of the list. -/
theorem Scannable.xpending_eq (hw : Scannable V c ok w) (count : Int) :
    w.server.xpending V.lbs V.group (formatMs (V.client c).recoveryConfig.minIdleTime)
        Configs.minimalRangeID Configs.maximalRangeID count =
      .ok (((V.pending w.server).entries.take count.toNat).map fun e ↦ e.1.text) := by
  have hlo : StreamID.lower? Configs.minimalRangeID = some fun _ ↦ true := rfl
  have hhi : StreamID.upper? Configs.maximalRangeID = some fun _ ↦ true := rfl
  have hall : (V.pending w.server).entries.filter (fun e ↦ true && true &&
      decide (formatMs (V.client c).recoveryConfig.minIdleTime ≤
        w.server.now - e.2.deliveryTime)) = (V.pending w.server).entries := by
    rw [List.filter_eq_self]
    intro e he
    simpa using formatMs_le (hw.idle_ge e he)
  rw [Server.xpending, hlo, hhi]
  dsimp only
  rw [Service.pending] at hall
  rw [hall]
  rfl

/-- **A pass is a scan of the pending list.** -/
theorem reconcileLBS_ensures (hw : Scannable V c ok w) (startup : Bool) :
    (reconcileLBS V.json (V.client c) startup).Ensures (Clean c)
      (fun _ w' ↦ Scannable V c ok w' ∧ (V.pending w'.server).entries =
        scan (V.client c).recoveryConfig.batchSize.toNat (fun e ↦ ok e.1)
          (V.pending w.server).entries) w := by
  refine ensures_xPendingExt ?_
  rw [V.lbsName_eq, V.lbsGroupName_eq, hw.xpending_eq]
  refine (scanPending_ensures (p := []) hw (List.take_append_drop _ _).symm).bind ?_
  rintro (_ | n) w' ⟨hsome, hw', he⟩
  · simp at hsome
  refine ensures_metric ?_
  cases startup with
  | true => exact ensures_call (o := .record _) (fun _ _ ↦ rfl) ⟨hw', he⟩
  | false => exact ⟨hw', he⟩

/-- `n` passes are `n` scans. -/
theorem passes_ensures (n : Nat) (hw : Scannable V c ok w) (startup : Bool) :
    (passes V.json (V.client c) startup n).Ensures (Clean c)
      (fun _ w' ↦ Scannable V c ok w' ∧ (V.pending w'.server).entries =
        (scan (V.client c).recoveryConfig.batchSize.toNat fun e ↦ ok e.1)^[n]
          (V.pending w.server).entries) w := by
  induction n generalizing w startup with
  | zero => exact ⟨hw, rfl⟩
  | succ n ih =>
    refine (reconcileLBS_ensures hw startup).bind ?_
    rintro ⟨⟩ w₁ ⟨hw₁, he₁⟩
    refine (ih hw₁ false).mono ?_
    rintro ⟨⟩ w₂ ⟨hw₂, he₂⟩
    exact ⟨hw₂, by rw [he₂, he₁, Function.iterate_succ_apply]⟩

end Passes

/-! ## Main result -/

/-- **When the scan leaves no dead entry behind.**  After as many passes as there are
pending entries, or more, every pending entry has a lock if and only if each of those
without one had fewer than `BatchSize` entries with a lock before it. -/
theorem passes_leave_no_dead_entry_iff (V : Service) (c : Nat) (w : World) (startup : Bool)
    (n : Nat) (hctx : (w.clients c).ctxDone = false)
    (htop : ∀ e ∈ (V.pending w.server).entries, e.1 ≤ (V.stream w.server).top)
    (hidle : ∀ e ∈ (V.pending w.server).entries, (V.client c).recoveryConfig.minIdleTime ≤
      (w.server.now - e.2.deliveryTime : Nat) * 1000000)
    (hn : (V.pending w.server).entries.length ≤ n) :
    (passes V.json (V.client c) startup n).Ensures (Clean c)
      (fun _ w' ↦ (∀ i ∈ V.pending w'.server, V.lockAlive w'.server i = true) ↔
        Covered (V.client c).recoveryConfig.batchSize.toNat (fun e ↦ V.lockAlive w.server e.1)
          (V.pending w.server).entries) w := by
  have hw : Scannable V c (V.lockAlive w.server) w := ⟨hctx, htop, hidle, fun _ _ ↦ rfl⟩
  refine (passes_ensures n hw startup).mono ?_
  rintro ⟨⟩ w' ⟨hw', he⟩
  rw [← clean_iterate_iff hn, ← he]
  constructor
  · intro hclean e hmem
    rw [← hw'.lockAlive_eq e hmem]
    exact hclean e.1 ⟨e.2, hmem⟩
  · rintro hclean i ⟨x, hmem⟩
    rw [hw'.lockAlive_eq _ hmem]
    exact hclean _ hmem

namespace Demo

/-- The demo service with scans of one entry at a time. -/
def narrow : Service := limited 1 3

/-- The LBS entries `1-0` of `orders` and `2-0` of `items`. -/
def twoEntries : Log StreamID Values :=
  ((Log.empty .zero).push ⟨1, 0⟩ (fields "orders")
    (by decide)).push ⟨2, 0⟩ (fields "items") (by decide)

/-- Both were handed to `a` a minute ago. -/
def bothPending : Log StreamID Pending :=
  ((Log.empty .zero).push ⟨1, 0⟩ ⟨"a", 0⟩ (by decide)).push ⟨2, 0⟩ ⟨"a", 0⟩ (by decide)

/-- A minute later the lock of one of them is held. -/
def halfAlive (name : String) (i : StreamID) : World where
  server :=
    { streams := Function.update (fun _ ↦ .empty .zero) "demo-input" twoEntries
      groups := Function.update (fun _ _ ↦ .empty .zero) "demo-input"
        (Function.update (fun _ ↦ .empty .zero) "demo-group" bothPending)
      keys := Function.update (fun _ ↦ none) (lockKey name i) (some "a")
      now := 60000 }
  clients _ := .new 10

/-- The pending entries of that world can be scanned. -/
theorem scannable_halfAlive (name : String) (i : StreamID) :
    Scannable narrow 1 (narrow.lockAlive (halfAlive name i).server) (halfAlive name i) where
  ctxDone_eq := rfl
  le_top := by
    show ∀ e ∈ bothPending.entries, e.1 ≤ twoEntries.top
    decide
  idle_ge := by
    show ∀ e ∈ bothPending.entries, (30000000000 : Int) ≤ (60000 - e.2.deliveryTime : Nat) * 1000000
    decide
  lockAlive_eq _ _ := rfl

end Demo

/-- A dead entry before a live one is removed. -/
theorem passes_leave_no_dead_entry_first :
    (passes Demo.narrow.json (Demo.narrow.client 1) true 2).Ensures (Clean 1)
      (fun _ w' ↦ ∀ i ∈ Demo.narrow.pending w'.server,
        Demo.narrow.lockAlive w'.server i = true) (Demo.halfAlive "items" ⟨2, 0⟩) := by
  have hw := Demo.scannable_halfAlive "items" ⟨2, 0⟩
  refine (passes_leave_no_dead_entry_iff Demo.narrow 1 (Demo.halfAlive "items" ⟨2, 0⟩) true 2
    hw.ctxDone_eq hw.le_top hw.idle_ge (by decide +kernel)).mono ?_
  intro _ w' hiff
  apply hiff.2
  exact (clean_iterate_iff le_rfl).1 (by decide +kernel)

/-- **A dead entry behind a live one is never removed** by scans of one entry, however
many there are: the live entry `1-0` is all they ever look at. -/
theorem left_behind (startup : Bool) (n : Nat) :
    (passes Demo.narrow.json (Demo.narrow.client 1) startup n).Ensures (Clean 1)
      (fun _ w' ↦ ⟨2, 0⟩ ∈ Demo.narrow.pending w'.server ∧
        Demo.narrow.lockAlive w'.server ⟨2, 0⟩ = false) (Demo.halfAlive "orders" ⟨1, 0⟩) := by
  have hw := Demo.scannable_halfAlive "orders" ⟨1, 0⟩
  refine (passes_ensures n hw startup).mono ?_
  rintro ⟨⟩ w' ⟨hw', he⟩
  have hmem : ((⟨2, 0⟩, ⟨"a", 0⟩) : StreamID × Pending) ∈ (Demo.narrow.pending w'.server).entries := by
    rw [he]
    exact iterate_uncovered (p := [((⟨1, 0⟩, ⟨"a", 0⟩) : StreamID × Pending)]) (q := [])
      (by decide +kernel) n
  refine ⟨⟨_, hmem⟩, ?_⟩
  rw [hw'.lockAlive_eq _ hmem]
  decide +kernel

/-- Two passes with a batch of one over two pending entries leave the dead one behind. -/
theorem dead_entry_left_behind :
    (Demo.narrow.client 1).recoveryConfig.batchSize = 1 ∧
      (Demo.narrow.pending (Demo.halfAlive "orders" ⟨1, 0⟩).server).entries.length = 2 ∧
        Scannable Demo.narrow 1 (Demo.narrow.lockAlive (Demo.halfAlive "orders" ⟨1, 0⟩).server)
          (Demo.halfAlive "orders" ⟨1, 0⟩) ∧
          (passes Demo.narrow.json (Demo.narrow.client 1) true 2).Ensures (Clean 1)
            (fun _ w' ↦ ⟨2, 0⟩ ∈ Demo.narrow.pending w'.server ∧
              Demo.narrow.lockAlive w'.server ⟨2, 0⟩ = false) (Demo.halfAlive "orders" ⟨1, 0⟩) :=
  ⟨rfl, by decide +kernel, Demo.scannable_halfAlive _ _, left_behind true 2⟩

end RedisStreamClient.Impl

import RedisStreamClient.Impl.Naming

/-!
# Taking a stream away from its owner

A recoverer takes an entry from its owner when it finds the entry's lock gone.  The
owner may still be there: paused, with its lock expired.  It is told only by a failing
extension, but the successor of its entry has a lock of its own, so its extensions go
on succeeding and two consumers hold locks for one data stream (`two_owners`).

`OwnerGone` is what the client relies on: whoever finds a lock gone finds the owner gone
too.  In runs where that is so, no entry that was added again is ever extended, and no
two locks are held for one data stream.
-/

namespace RedisStreamClient.Impl

open RedisStreamClient.Lib RedisStreamClient.Errs RedisStreamClient.Notifs
open RedisStreamClient.Redis

/-! ## The condition -/

/-- The entry that a recoverer has read and not yet decided about. -/
def Session.reading : Session → Option LBSEntry
  | .recover _ (.found e) => some e
  | _ => none

section Condition

variable (V : Service) (h : History) (P : Pool V.machine)

/-- The entry `id` was delivered and no goroutine works on it. -/
def Abandoned (id : String) : Prop :=
  (∃ i ∈ StreamID.ofText? id, i.text = id ∧ i ≤ (V.pending P.state.server).top) ∧
    ∀ t < P.threads.length, P.alive t = true → ¬ (h.session t).Works id

instance instDecidableAbandoned (id : String) : Decidable (Abandoned V h P id) :=
  inferInstanceAs (Decidable (_ ∧ _))

/-- **A recoverer that finds a lock gone finds its owner gone**: the entry was delivered,
it is named as Redis names it, and no goroutine of a living client has it to lock or its
lock to extend. -/
def OwnerGone : Event V.machine → Prop
  | .op t _ (.existsKey key) _ _ _ =>
    P.state.server.keys key = none → ∀ e ∈ (h.session t).reading, Abandoned V h P e.id
  | _ => True

theorem ownerGone_iff (e : Event V.machine) : OwnerGone V h P e ↔
    ∀ x ∈ History.lookedFor V e, P.state.server.keys x.2 = none →
      ∀ e ∈ (h.session x.1).reading, Abandoned V h P e.id := by
  cases e with
  | op t c o ch r f => cases o <;> simp [OwnerGone, History.lookedFor]
  | _ => simp [OwnerGone, History.lookedFor]

instance instDecidableOwnerGone : DecidablePred (OwnerGone V h P) :=
  Pool.decidableOn (History.lookedFor V) _ (ownerGone_iff V h P)

end Condition

/-! ## Entries that are taken away -/

/-- The entry that is being taken away is forsaken. -/
def Takes (V : Service) (P : Pool V.machine) (h : History) (q : Session) : Prop :=
  ∀ e name, q.taking = some (e, name) → ∃ i : StreamID, e.id = i.text ∧ Forsaken V P h i name

/-- **Only forsaken entries are taken away.** -/
structure TakenAway (V : Service) (P : Pool V.machine) (h : History) : Prop where
  /-- Those that a recoverer is taking away. -/
  takes : ∀ t c f, P.Live t c f → Takes V P h (h.session t)
  /-- Those that were added again. -/
  forsaken : ∀ i j, h.parent j = some i →
    ∃ v name, h.added i = some v ∧ V.nameOf v = some name ∧ Forsaken V P h i name

section TakenAway

variable {V : Service} {h : History} {P P' : Pool V.machine} {e : Event V.machine}

theorem Takes.step (hS : Sound V P h) (hs : Pool.Step P e P') (hpub : Service.Public e)
    {q : Session} (hq : Takes V P h q) : Takes V P' (h.update V P e) q := by
  intro entry name htake
  obtain ⟨i, hid, hF⟩ := hq entry name htake
  exact ⟨i, hid, hF.step hS hs hpub⟩

/-- A recoverer that finds a lock gone, and its owner with it, may take the entry away. -/
theorem takes_existsKey (hS : Sound V P h) {t c : Nat} {key : String} {ch : Choice}
    {r : Except Err Int} {f : Option Call}
    (hs : Pool.Step P (.op (M := V.machine) t c (.existsKey key) ch r f) P')
    (hgone : OwnerGone V h P (.op (M := V.machine) t c (.existsKey key) ch r f)) :
    Takes V P h ((h.session t).next V.json (V.client c) (.existsKey key) r) := by
  intro entry name htake
  obtain ⟨scope, hq, hname, rfl, hkey⟩ := taking_existsKey hS.obeying hs htake
  obtain ⟨⟨i, -, hid, hle⟩, hno⟩ := hgone hkey entry (by rw [hq]; rfl)
  refine ⟨i, hid.symm, hle, ?_, ?_⟩
  · intro u d g hl
    rw [hid]
    exact hno u hl.lt_length hl.alive
  · rw [lockKey, hid]
    exact hkey

theorem TakenAway.step (hS : Sound V P h) (hs : Pool.Step P e P') (hpub : Service.Public e)
    (hgone : OwnerGone V h P e) (hT : TakenAway V P h) : TakenAway V P' (h.update V P e) := by
  have hgr := (change hS.obeying hs).grows
  refine ⟨?_, ?_⟩
  · refine hS.obeying.each (I := fun _ _ ↦ Takes V P h) (Q := fun _ _ ↦ Takes V P' (h.update V P e))
      hs hT.takes ?_ ?_ ?_
    · intro t c f _ _ _ hq
      exact hq.step hS hs hpub
    · rintro t c f o ch r g rfl hl hok hx hq
      by_cases hex : ∃ key, o = .existsKey key
      · obtain ⟨key, rfl⟩ := hex
        exact (takes_existsKey hS hs hgone).step hS hs hpub
      · intro entry name htake
        have hold := Session.taking_next hok (fun key hk ↦ hex ⟨key, hk⟩) htake
        exact hq.step hS hs hpub entry name hold
    · intro c f _ entry name htake
      have hnone := Session.taking_start f
      exact absurd (hnone.symm.trans htake) (by simp)
  · intro i j hp
    rcases History.parent_step hp with hp | hr
    · obtain ⟨v, name, hv, hname, hF⟩ := hT.forsaken i j hp
      exact ⟨v, name, by rw [hgr.added_eq i (hF.delivered_le.trans hS.delivered_le), hv], hname,
        hF.step hS hs hpub⟩
    · -- a recoverer has just added it again
      obtain ⟨-, -, t, c, n, w, ch, r, f, rfl, hi, -⟩ := Lineal.new_child hS hs hr
      obtain ⟨g, hl⟩ := hs.op_live
      obtain ⟨v, hv, hreq⟩ := Lineal.requeues_of_xadd hS hs hi
      obtain ⟨name, hname⟩ := hreq.parses
      obtain ⟨scope, entry, oname, hq, hid⟩ := Session.exists_won_of_holding hi
      have hkn := hS.knows _ _ _ hl
      rw [hq] at hkn
      obtain ⟨⟨k, hk, hset, hvk⟩, hon⟩ := hkn
      obtain rfl : k = i := Option.some.inj (hk.symm.trans hid)
      obtain rfl : entry.values = v := Option.some.inj (hvk.symm.trans hv)
      obtain rfl : oname = some name := (hon name).2 hname
      obtain ⟨k', htext, hF⟩ := hT.takes _ _ _ hl entry name (by rw [hq]; rfl)
      obtain rfl : k' = k := by simpa [htext] using hid
      refine ⟨entry.values, name, ?_, Service.nameOf_eq_some.2 hname, hF.step hS hs hpub⟩
      rw [hgr.added_eq k' (hset.1.trans hS.delivered_le), hv]

end TakenAway

/-! ## Main result -/

section Main

variable {V : Service} {h : History} {P₀ P : Pool V.machine}

/-- What holds in every run in which locks are found gone only after their owners, and
producers add every data stream once. -/
theorem takenAway (h₀ : Fresh V P₀) (hkeys : ∀ key, P₀.state.server.keys key = none)
    (hnames : NamedOnce V (V.stream P₀.state.server).entries)
    (hr : V.Run (fun h P e ↦ ProducedOnce V h e ∧ OwnerGone V h P e) P₀ P h) :
    Sound V P h ∧ Lineal V P h ∧ Rooted h ∧ NamedOnce V h.produced ∧ Keyed V P.state.server h ∧
      TakenAway V P h := by
  refine hr.invariant (I := fun P h ↦ Lineal V P h ∧ Rooted h ∧ NamedOnce V h.produced ∧
    Keyed V P.state.server h ∧ TakenAway V P h) h₀ ?_ ?_
  · refine ⟨.init h₀, ?_, hnames, ?_, ?_, ?_⟩
    · intro i v hv _
      exact Log.lookup_eq_some_iff.1 hv
    · intro key v hk
      simp [hkeys] at hk
    · intro t c f hl
      exact absurd hl h₀.not_live
    · intro i j hp
      simp [History.init] at hp
  · rintro P h e P' hS - hpub ⟨honce, hgone⟩ hs ⟨hL, hR, hN, hK, hT⟩
    exact ⟨hL.step hS hs, hR.step hS hs, hN.step honce, hK.step hS hs, hT.step hS hs hpub hgone⟩

/-- **A recovered stream is taken away from its owner, if the owner was gone.**  In every
run in which a recoverer finds a lock gone only when no goroutine of a living client works
on the entry, no extension of an entry that was added again succeeds, and no two consumers
hold locks for one data stream. -/
theorem taken_away_from_owner (V : Service) (P₀ P : Pool V.machine) (h : History)
    (h₀ : Fresh V P₀) (hkeys : ∀ key, P₀.state.server.keys key = none)
    (hnames : NamedOnce V (V.stream P₀.state.server).entries)
    (hr : V.Run (fun h P e ↦ ProducedOnce V h e ∧ OwnerGone V h P e) P₀ P h) :
    (∀ t c m ch r f P' info i j,
      Pool.Step P (.op (M := V.machine) t c (.extend m) ch r f) P' →
        h.session t = .extending info → info.lbsInfo.idInLBS = StreamID.text i →
          h.parent j = some i → r ≠ (true, none)) ∧
    ∀ name i j v w, P.state.server.keys (lockKey name i) = some v →
      P.state.server.keys (lockKey name j) = some w → v = w := by
  obtain ⟨hS, hL, hR, hN, hK, hT⟩ := takenAway h₀ hkeys hnames hr
  constructor
  · intro t c m ch r f P' info i j hs hq hid hp
    obtain ⟨v, name, -, -, hF⟩ := hT.forsaken i j hp
    obtain ⟨g, hl⟩ := hs.op_live
    exact absurd (by rw [hq]; exact hid) (hF.not_works _ _ _ hl)
  · -- a lock is that of the last entry of its data stream
    have hlast : ∀ {name i j v w}, P.state.server.keys (lockKey name i) = some v →
        P.state.server.keys (lockKey name j) = some w → ¬ i < j := by
      intro name i j v w hv hw hlt
      have hmem : ∀ {i v}, P.state.server.keys (lockKey name i) = some v →
          i ∈ h.ofStream V name := by
        intro i v hv
        obtain ⟨k, name', hkey, hlock⟩ := hK _ _ hv
        obtain ⟨rfl, rfl⟩ := lockKey_inj hkey
        obtain ⟨u, hu, hname⟩ := hlock.name_eq
        exact ⟨u, hu, Service.nameOf_eq_some.2 hname⟩
      obtain ⟨k, -, hk⟩ := (hL.lineage hR hN name).exists_child (hmem hv) (hmem hw) hlt
      obtain ⟨u, name', hu, hname', hF⟩ := hT.forsaken i k hk
      obtain ⟨u', hu', hname⟩ := hmem hv
      obtain rfl : u = u' := Option.some.inj (hu.symm.trans hu')
      obtain rfl : name = name' := Option.some.inj (hname.symm.trans hname')
      simp [hF.key_eq] at hv
    intro name i j v w hv hw
    rcases lt_trichotomy i j with hlt | rfl | hlt
    · exact absurd hlt (hlast hv hw)
    · exact Option.some.inj (hv.symm.trans hw)
    · exact absurd hlt (hlast hw hv)

end Main

namespace Demo

/-- Client `b` claims the entry, adds it again as `2-0`, and locks that. -/
def recovered (t : Nat) : List (Pool.Label service.machine) :=
  [.env (.expire (lockKey "orders" ⟨1, 0⟩)), .start 1 (.claim ⟨"orders", "1-0"⟩)] ++ ops t 3 ++
    [.op t (.plain ⟨2, 0⟩), .start 1 (.readLBSStream 0 0)] ++ ops (t + 1) 3

/-- Client `a` crashes before `b` recovers the entry. -/
def takenOver : Pool service.machine × History :=
  service.reached (fun h P e ↦ ProducedOnce service h e ∧ OwnerGone service h P e) idle
    (owned ++ [.crash 0] ++ recovered 2) (by decide +kernel)

/-- Client `a` is only paused, and about to extend its lock when it resumes. -/
def resumed : Pool service.machine × History :=
  service.reached (fun h _ e ↦ ProducedOnce service h e) idle (owned ++ recovered 2 ++ ops 1 2)
    (by decide +kernel)

/-- Goroutine `t` extended the lock with this key. -/
def extended (t : Nat) (key : String) : Event service.machine → Bool
  | .op t' _ (.extend m) _ (ok, err) _ => t' == t && m.name == key && ok && err.isNone
  | _ => false

theorem namedOnce_idle : NamedOnce service (service.stream idle.state.server).entries :=
  fun _ hp ↦ absurd hp (by simp [Service.stream, idle, Log.empty])

end Demo

/-- A crashed owner loses its stream. -/
theorem taken_away_from_crashed :
    Demo.takenOver.2.parent ⟨2, 0⟩ = some ⟨1, 0⟩ ∧
      Demo.takenOver.1.state.server.keys (lockKey "orders" ⟨2, 0⟩) = some "b" ∧
        ∀ i v, Demo.takenOver.1.state.server.keys (lockKey "orders" i) = some v → v = "b" := by
  have hr : Demo.service.Run (fun h P e ↦ ProducedOnce Demo.service h e ∧
      OwnerGone Demo.service h P e) Demo.idle Demo.takenOver.1 Demo.takenOver.2 :=
    Service.run_reached _
  have hb : Demo.takenOver.1.state.server.keys (lockKey "orders" ⟨2, 0⟩) = some "b" := by
    decide +kernel
  refine ⟨by decide +kernel, hb, fun i v hv ↦ ?_⟩
  exact (taken_away_from_owner Demo.service Demo.idle Demo.takenOver.1 Demo.takenOver.2
    Demo.fresh_idle (fun _ ↦ rfl) Demo.namedOnce_idle hr).2 "orders" i ⟨2, 0⟩ v "b" hv hb

/-- **A paused owner does not lose its stream.**  Client `a` is paused until its lock
expires and client `b` has taken over; then its extension succeeds, and both hold a lock
for the same data stream. -/
theorem two_owners :
    Fresh Demo.service Demo.idle ∧ (∀ key, Demo.idle.state.server.keys key = none) ∧
      NamedOnce Demo.service (Demo.service.stream Demo.idle.state.server).entries ∧
      Demo.service.Run (fun h _ e ↦ ProducedOnce Demo.service h e) Demo.idle Demo.resumed.1
        Demo.resumed.2 ∧
      Demo.resumed.2.parent ⟨2, 0⟩ = some ⟨1, 0⟩ ∧
        ∃ c m ch r f P', Pool.Step Demo.resumed.1
            (.op (M := Demo.service.machine) 1 c (.extend m) ch r f) P' ∧
          m.name = lockKey "orders" ⟨1, 0⟩ ∧ r = (true, none) ∧
            P'.state.server.keys (lockKey "orders" ⟨1, 0⟩) = some "a" ∧
              P'.state.server.keys (lockKey "orders" ⟨2, 0⟩) = some "b" := by
  refine ⟨Demo.fresh_idle, fun _ ↦ rfl, Demo.namedOnce_idle, Service.run_reached _,
    by decide +kernel, ?_⟩
  have hstep : (Demo.resumed.1.step? (.op 1 .plain)).any (fun p ↦
      Demo.extended 1 (lockKey "orders" ⟨1, 0⟩) p.1 &&
        p.2.state.server.keys (lockKey "orders" ⟨1, 0⟩) == some "a" &&
          p.2.state.server.keys (lockKey "orders" ⟨2, 0⟩) == some "b") = true := by
    decide +kernel
  obtain ⟨e, P', hs, htest⟩ := Pool.exists_step_of_any hstep
  simp only [Bool.and_eq_true, beq_iff_eq] at htest
  obtain ⟨⟨htest, ha⟩, hb⟩ := htest
  cases e with
  | op t c o ch r f =>
    cases o with
    | extend m =>
      obtain ⟨ok, err⟩ := r
      simp only [Demo.extended, Bool.and_eq_true, beq_iff_eq, Option.isNone_iff_eq_none] at htest
      obtain ⟨⟨⟨rfl, hm⟩, rfl⟩, rfl⟩ := htest
      exact ⟨c, m, ch, _, f, P', hs, hm, rfl, ha, hb⟩
    | _ => cases htest
  | _ => cases htest

end RedisStreamClient.Impl

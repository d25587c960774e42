import RedisStreamClient.Impl.Naming

/-!
# What recoverers look up

A recoverer that finds no entry under an ID acknowledges the ID all the same.  That is harmless
as long as IDs are looked up after Redis has assigned them, as `LookedUp` says: what was not there
then is not there later, and what is not in the LBS is not pending.  Only `Claim` takes an ID from
outside, so this is a condition on its arguments (`AssignedClaims`).

Under it a task is lost in one way only, the gap between `XACK` and `XADD` that the client reports
as a metric but cannot close (`LookedUp.dropped_of_lost`).  This completes the account of where
tasks can be (`task_conserved`).
-/

namespace RedisStreamClient.Impl

open RedisStreamClient.Lib RedisStreamClient.Errs RedisStreamClient.Notifs
open RedisStreamClient.Redis

/-! ## Claims of assigned entries -/

/-- The text names an entry that was assigned, as Redis names it. -/
def Assigned (V : Service) (s : Server) (id : String) : Prop :=
  ∃ i ∈ StreamID.ofText? id, i.text = id ∧ i ≤ (V.stream s).top

theorem assigned_text {V : Service} {s : Server} {i : StreamID} (h : i ≤ (V.stream s).top) :
    Assigned V s i.text :=
  ⟨i, StreamID.ofText?_text i, rfl, h⟩

theorem Assigned.mono {V : Service} {s s' : Server} {h h' : History} (g : Grows V s s' h h')
    {id : String} (hid : Assigned V s id) : Assigned V s' id := by
  obtain ⟨i, hi, htext, hle⟩ := hid
  exact ⟨i, hi, htext, hle.trans g.top_le⟩

section Claims

variable (V : Service) (P : Pool V.machine)

/-- `Claim`s name entries that were assigned, as Redis names them. -/
def AssignedClaims : Event V.machine → Prop
  | .start _ (.claim info) => Assigned V P.state.server info.idInLBS
  | _ => True

instance instDecidableAssignedClaims (e : Event V.machine) : Decidable (AssignedClaims V P e) :=
  match e with
  | .start _ (.claim info) => inferInstanceAs (Decidable (∃ i ∈ StreamID.ofText? info.idInLBS,
      i.text = info.idInLBS ∧ i ≤ (V.stream P.state.server).top))
  | .start _ (.doneStream _) | .start _ (.reconcile _) | .start _ (.readLBSStream _ _)
  | .start _ (.startExtendingKey _ _ _) | .start _ (.broker _) | .op _ _ _ _ _ _ | .again _
  | .env _ | .crash _ => .isTrue trivial

end Claims

/-! ## What is not there -/

/-- The ID under which a recoverer has found no entry, and that it is about to acknowledge
all the same. -/
def Stage.lacking : Stage → Option String
  | .missing id => some id
  | _ => none

namespace Session

variable {J : Json} {r : Client} {q : Session} {o : Op}

/-- Only a look at the LBS finds an entry missing. -/
theorem lacking_next (hok : q.Ok J r o) (hrange : ∀ s a b, o ≠ .xrange s a b) {reply : o.Reply}
    {id : String} (hd : (q.next J r o reply).observe Stage.lacking = some id) :
    q.observe Stage.lacking = some id := by
  refine observe_next hok ?_ ?_ ?_ ?_ ?_ (by simp [Stage.lacking]) hd
  · intro s i ho
    exact absurd ho (hrange s i i)
  · rintro key - stage (_ | k) hseen
    · cases stage <;> cases hseen
    · cases stage with
      | found e =>
        rw [Stage.onExists] at hseen
        split at hseen
        · split at hseen <;> cases hseen
        · cases hseen
      | _ => cases hseen
  · rintro stage (_ | k) hseen
    · cases stage <;> cases hseen
    · by_cases hk : k = 0
      · cases stage <;> simp [Stage.onAck, Stage.lacking, hk] at hseen
      · cases stage <;> simp [Stage.onAck, Stage.lacking, hk] at hseen
  · rintro s n v - stage (_ | _) hseen <;> cases stage <;> cases hseen
  · intro stage hseen
    cases stage <;> cases hseen

end Session

/-- **What recoverers of assigned entries have looked up.** -/
structure LookedUp (V : Service) (P : Pool V.machine) (h : History) : Prop where
  /-- They name entries that were assigned, as Redis names them. -/
  names : ∀ t c f, P.Live t c f → (h.session t).Names (Assigned V P.state.server)
  /-- What they have not found is not there. -/
  lacking : ∀ t c f, P.Live t c f → ∀ id, (h.session t).observe Stage.lacking = some id →
    ∀ i ∈ StreamID.ofText? id, i ∉ V.stream P.state.server

section LookedUp

variable {V : Service} {h : History} {P₀ P P' : Pool V.machine} {e : Event V.machine}

theorem LookedUp.init (h₀ : Fresh V P₀) : LookedUp V P₀ (.init V P₀.state.server) where
  names _ _ _ hl := absurd hl h₀.not_live
  lacking _ _ _ hl := absurd hl h₀.not_live

/-- A text that a recoverer lacks is one that it was given. -/
theorem Session.Names.lacking {R : String → Prop} {q : Session} {id : String} (hq : q.Names R)
    (hid : q.observe Stage.lacking = some id) : R id := by
  cases q with
  | recover scope stage =>
    cases stage with
    | missing id' =>
      obtain rfl := Option.some.inj hid
      exact hq.2
    | _ => cases hid
  | _ => cases hid

/-- A look at the LBS by the text of an assigned entry. -/
theorem lacking_xrange {t c : Nat} {a b d id : String} {ch : Choice}
    {r : Except Err (List XMessage)} {f : Option Call} (hS : Sound V P h) (hL : LookedUp V P h)
    (hs : Pool.Step P (.op (M := V.machine) t c (.xrange a b d) ch r f) P')
    (hlack : ((h.session t).next V.json (V.client c) (.xrange a b d) r).observe Stage.lacking =
      some id) : ∀ i ∈ StreamID.ofText? id, i ∉ V.stream P'.state.server := by
  obtain ⟨g, hl⟩ := hs.op_live
  have hnames := hL.names _ _ _ hl
  obtain ⟨hstream, rfl, scope, stage, hq, -, htodo⟩ : (h.session t).Ok V.json (V.client c)
    (.xrange a b d) := hS.obeying.ok hs
  rw [V.lbsName_eq] at hstream
  subst hstream
  have hx : World.exec c (.xrange V.lbs b b) ch P.state = some (r, P'.state, f) := hs.op_exec
  rw [hq] at hlack hnames
  obtain ⟨j, hj, rfl, hle⟩ := hnames.1 b htodo
  obtain ⟨hw, hr⟩ := World.exec_xrange hx
  rcases r with err | _ | ⟨m, ms⟩
  · cases hlack
  · obtain rfl := Option.some.inj hlack
    rcases hr with hr | ⟨err, herr⟩
    · rw [Server.xrange_text] at hr
      intro i hi
      obtain rfl : j = i := Option.some.inj (hj.symm.trans hi)
      rw [hw, ← Log.lookup_eq_none_iff]
      show (P.state.server.streams V.lbs).lookup j = none
      simpa using hr
    · cases herr
  · cases hlack

theorem LookedUp.step (hS : Sound V P h) (hs : Pool.Step P e P') (hclaims : AssignedClaims V P e)
    (hL : LookedUp V P h) : LookedUp V P' (h.update V P e) := by
  have hgr := (change hS.obeying hs).grows
  constructor
  · refine names_step hS hs (fun id ↦ Assigned.mono hgr) ?_ ?_ hL.names
    · intro i hi
      exact assigned_text ((Log.le_top_of_mem (hS.pending_sub i hi)).trans hgr.top_le)
    · rintro c info rfl
      exact Assigned.mono hgr hclaims
  · -- what was not there is not there now
    have hkeep : ∀ {q : Session} {id : String}, q.Names (Assigned V P.state.server) →
        q.observe Stage.lacking = some id →
        (∀ i ∈ StreamID.ofText? id, i ∉ V.stream P.state.server) →
          ∀ i ∈ StreamID.ofText? id, i ∉ V.stream P'.state.server := by
      intro q id hnames hid hq i hi hin
      obtain ⟨j, hj, -, hle⟩ := hnames.lacking hid
      obtain rfl : j = i := Option.some.inj (hj.symm.trans hi)
      exact hq j hi (hgr.mem_stream hle hin)
    refine hS.obeying.each (K := V.contract)
      (I := fun _ _ q ↦ ∀ id, Session.observe Stage.lacking q = some id →
        ∀ i ∈ StreamID.ofText? id, i ∉ V.stream P.state.server)
      (Q := fun _ _ q ↦ ∀ id, Session.observe Stage.lacking q = some id →
        ∀ i ∈ StreamID.ofText? id, i ∉ V.stream P'.state.server) hs hL.lacking ?_ ?_ ?_
    · intro t c f hl _ _ hq id hid
      exact hkeep (hL.names _ _ _ hl) hid (hq id hid)
    · rintro t c f o ch r g rfl hl hok hx hq id hid
      by_cases hrange : ∃ a b d, o = .xrange a b d
      · obtain ⟨a, b, d, rfl⟩ := hrange
        exact lacking_xrange hS hL hs hid
      · have hold := Session.lacking_next hok (fun a b d ho ↦ hrange ⟨a, b, d, ho⟩) hid
        exact hkeep (hL.names _ _ _ hl) hold (hq id hold)
    · intro c f _ id hid
      cases f <;> cases hid

end LookedUp

/-! ## Conservation -/

section Dropped

variable {V : Service} {h : History} {P P' : Pool V.machine} {e : Event V.machine}

/-- What a recoverer lacks is not pending. -/
theorem LookedUp.not_acks_missing (hS : Sound V P h) (hL : LookedUp V P h) (hs : Pool.Step P e P')
    {t : Nat} {i : StreamID} {scope : Scope} {id : String} (hacks : History.Acks V P t i e) :
    h.session t ≠ .recover scope (.missing id) := by
  intro hq
  obtain ⟨c, id', ch, r, f, rfl, -, hid, hp⟩ := History.Acks.exists_op hacks
  obtain ⟨g, hl⟩ := hs.op_live
  have hok : (h.session t).Ok V.json (V.client c) (.xack V.lbs V.group id') := hS.obeying.ok hs
  rw [hq] at hok
  obtain ⟨-, -, ⟨scope', stage, hq', hack⟩ | ⟨info, hq', -⟩⟩ := hok
  · obtain ⟨rfl, rfl⟩ := Session.recover.inj hq'
    obtain rfl : id' = id := hack
    exact hL.lacking _ _ _ hl id' (by rw [hq]; rfl) i hid (hS.pending_sub i hp)
  · cases hq'

/-- **An entry is lost only by being dropped.** -/
theorem LookedUp.drops_of_loses (hS : Sound V P h) (hL : LookedUp V P h) (hs : Pool.Step P e P')
    {i : StreamID} (hloses : h.Loses V P i e) : h.Drops V P i e := by
  have hblind : ¬ ∃ t scope id, History.Acks V P t i e ∧
      h.session t = .recover scope (.missing id) := by
    rintro ⟨t, scope, id, hacks, hq⟩
    exact hL.not_acks_missing hS hs hacks hq
  cases e with
  | crash c => exact hloses
  | op t c o ch r f =>
    cases o with
    | xadd stream maxLen v => exact hloses
    | _ => exact absurd hloses hblind
  | _ => exact absurd hloses hblind

end Dropped

/-- **Conservation of tasks.**  In every run in which commands fail without effect, if
they fail, and `Claim`s name entries that were assigned, every task is in exactly one place: one
entry that is undelivered or pending, which is then in the LBS, one recoverer between its `XACK`
and its `XADD`, one copy in a DLQ, one entry that a `DoneStream` finished, or one entry that a
recoverer acknowledged and then, by a crash or since its `XADD` failed, did not add again. -/
theorem task_conserved (V : Service) (hcap : ∀ c, (V.client c).recoveryConfig.dlqMaxLen = 0)
    (P₀ P : Pool V.machine) (h : History) (h₀ : Fresh V P₀)
    (hr : V.Run (fun _ P e ↦ NoLostReply e ∧ AssignedClaims V P e) P₀ P h) (x : StreamID)
    (hx : h.origin x = some x) :
    (∃! p, (ledger V P h).At x p) ∧
      (∀ i, (ledger V P h).At x (.entry i) → i ∈ V.stream P.state.server) ∧
        ∀ i, (ledger V P h).At x (.lost i) → i ∈ h.dropped := by
  obtain ⟨hS, -, hW⟩ := hr.wellFormed hcap (fun _ _ _ ↦ And.left) h₀
  obtain ⟨-, -, hdropped⟩ := hr.invariant (I := fun P h ↦ LookedUp V P h ∧ h.lost ⊆ h.dropped) h₀
    ⟨.init h₀, le_rfl⟩ (by
      rintro P h e P' hS - - ⟨-, hclaims⟩ hs ⟨hL, hdropped⟩
      exact ⟨hL.step hS hs hclaims, Set.union_subset_union hdropped fun i ↦ hL.drops_of_loses hS hs⟩)
  refine ⟨hW.placed x hx, ?_, fun i hi ↦ hdropped hi.1⟩
  rintro i ⟨⟨hi, -⟩ | hi, -⟩
  · exact hi
  · exact hS.pending_sub i hi

namespace Demo

/-- Client `a` is handed the entry `1-0`; client `b` claims it and acknowledges it. -/
def acknowledged : List (Pool.Label service.machine) :=
  [produce 1 "orders", .start 0 (.readLBSStream 0 0)] ++ ops 0 2 ++
    [.start 1 (.claim ⟨"orders", "1-0"⟩)] ++ ops 1 3

/-- After that `b` adds it again, as `2-0`. -/
def requeued : Pool service.machine × History :=
  service.reached (fun _ P e ↦ NoLostReply e ∧ AssignedClaims service P e) idle
    (acknowledged ++ [.op 1 (.plain ⟨2, 0⟩)]) (by decide +kernel)

/-- Or it fails to. -/
def unadded : Pool service.machine × History :=
  service.reached (fun _ P e ↦ NoLostReply e ∧ AssignedClaims service P e) idle
    (acknowledged ++ [.op 1 .failing]) (by decide +kernel)

end Demo

/-- The task of an entry that was added again has one place. -/
theorem task_conserved_requeued :
    Demo.service.Run (fun _ P e ↦ NoLostReply e ∧ AssignedClaims Demo.service P e) Demo.idle
        Demo.requeued.1 Demo.requeued.2 ∧
      Demo.requeued.2.origin ⟨2, 0⟩ = some ⟨1, 0⟩ ∧
        ∃! p, (ledger Demo.service Demo.requeued.1 Demo.requeued.2).At ⟨1, 0⟩ p := by
  have hr : Demo.service.Run (fun _ P e ↦ NoLostReply e ∧ AssignedClaims Demo.service P e)
      Demo.idle Demo.requeued.1 Demo.requeued.2 := Service.run_reached _
  exact ⟨hr, by decide +kernel, (task_conserved Demo.service (fun _ ↦ rfl) Demo.idle
    Demo.requeued.1 Demo.requeued.2 Demo.fresh_idle hr ⟨1, 0⟩ (by decide +kernel)).1⟩

/-- **The gap between `XACK` and `XADD`.**  A recoverer acknowledges an entry and then
fails to add it again: the task is neither an entry, nor held, nor in a DLQ, nor
finished. -/
theorem lost_between_ack_and_add :
    (∀ c, (Demo.service.client c).recoveryConfig.dlqMaxLen = 0) ∧ Fresh Demo.service Demo.idle ∧
      Demo.service.Run (fun _ P e ↦ NoLostReply e ∧ AssignedClaims Demo.service P e) Demo.idle
          Demo.unadded.1 Demo.unadded.2 ∧
        Demo.unadded.2.origin ⟨1, 0⟩ = some ⟨1, 0⟩ ∧
          ∀ p, (ledger Demo.service Demo.unadded.1 Demo.unadded.2).At ⟨1, 0⟩ p →
            ∃ i, p = .lost i := by
  have hr : Demo.service.Run (fun _ P e ↦ NoLostReply e ∧ AssignedClaims Demo.service P e)
      Demo.idle Demo.unadded.1 Demo.unadded.2 := Service.run_reached _
  have hx : Demo.unadded.2.origin ⟨1, 0⟩ = some ⟨1, 0⟩ := by decide +kernel
  obtain ⟨-, -, hW⟩ := hr.wellFormed (fun _ ↦ rfl) (fun _ _ _ ↦ And.left) Demo.fresh_idle
  have hlost : (⟨1, 0⟩ : StreamID) ∈ Demo.unadded.2.lost :=
    Or.inr ⟨by decide +kernel, by decide +kernel⟩
  exact ⟨fun _ ↦ rfl, Demo.fresh_idle, hr, hx, at_of_lost hW hx hlost⟩

end RedisStreamClient.Impl

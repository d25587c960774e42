import RedisStreamClient.Impl.Retries
import RedisStreamClient.Impl.Reconcile

/-!
# A chain of re-queues that does not end

With `MaxRetries` at the largest `int` no retry count exceeds it: `retryCount() + 1` wraps
around before it could.  A client with that limit whose consumers crash on every delivery
adds the task again for ever.  `exists_chain` is that run, by induction on the length of
the chain, and `requeued_past_maxInt` reads off the first re-queue too many.
-/

namespace RedisStreamClient.Impl

open RedisStreamClient.Lib RedisStreamClient.Errs RedisStreamClient.Notifs
open RedisStreamClient.Redis

/-! ## Lines of entries as chains -/

section Chain

variable {h : History} {i j l : StreamID} {k m : Nat} {s : Set StreamID}

/-- Every entry of a line is on the chain from its root. -/
theorem History.exists_chain (hL : Lineage h.parent s) (hi : i ∈ s) (hroot : h.parent i = none)
    (hj : j ∈ s) : ∃ k, h.Chain i k j := by
  induction j using WellFoundedLT.induction with
  | ind j ih =>
    cases hp : h.parent j with
    | none =>
      obtain rfl := hL.root_unique i hi j hj hroot hp
      exact ⟨0, .root⟩
    | some x =>
      obtain ⟨k, hk⟩ := ih x (hL.parent_lt x j hp) (hL.parent_mem x j hp hj)
      exact ⟨k + 1, hk.next hp⟩

/-- A chain goes up. -/
theorem History.Chain.exists_le (hlt : ∀ i j, h.parent j = some i → i < j) (hj : h.Chain i k j)
    (hm : m ≤ k) : ∃ x ≤ j, h.Chain i m x := by
  induction hj with
  | root =>
    obtain rfl := Nat.le_zero.1 hm
    exact ⟨i, le_rfl, .root⟩
  | @next k x y hc hp ih =>
    rcases Nat.le_succ_iff.1 hm with hle | rfl
    · obtain ⟨z, hz, hchain⟩ := ih hle
      exact ⟨z, hz.trans (hlt x y hp).le, hchain⟩
    · exact ⟨y, le_rfl, hc.next hp⟩

/-- What goes on with the history keeps its chains. -/
theorem History.Chain.mono {h' : History} (hp : ∀ x y, h.parent y = some x → h'.parent y = some x)
    (hc : h.Chain i k j) : h'.Chain i k j := by
  induction hc with
  | root => exact .root
  | next _ hparent ih => exact ih.next (hp _ _ hparent)

/-- A later entry is further on the chain. -/
theorem History.Chain.lt_of_lt (hL : Lineage h.parent s) (hj : h.Chain i k j) (hl : h.Chain i m l)
    (hlt : j < l) : k < m := by
  by_contra hle
  obtain ⟨x, hx, hchain⟩ := hj.exists_le hL.parent_lt (not_lt.1 hle)
  obtain rfl := hl.unique hL.parent_unique hchain
  exact absurd hlt hx.not_gt

end Chain

/-! ## One round -/

/-- The last entry of the LBS is for the data stream `name` and waits to be delivered, and
nobody holds a lock. -/
structure Waiting (V : Service) (w : World) (name : String) (j : StreamID) : Prop where
  /-- It is the last entry. -/
  top_eq : (V.stream w.server).top = j
  /-- It is for the data stream. -/
  lookup_eq : ∃ v, (V.stream w.server).lookup j = some v ∧ V.nameOf v = some name
  /-- It was not delivered. -/
  undelivered : (V.pending w.server).top < j
  /-- There is no lock. -/
  unlocked : ∀ key, w.server.keys key = none
  /-- The reader's context is not done. -/
  ctxDone_eq : (w.clients 0).ctxDone = false

/-- The last entry of the LBS was delivered, and waits to be recovered. -/
structure Orphaned (V : Service) (w : World) (name : String) (j : StreamID) : Prop where
  /-- It is the last entry. -/
  top_eq : (V.stream w.server).top = j
  /-- It is for the data stream. -/
  lookup_eq : ∃ v, (V.stream w.server).lookup j = some v ∧ V.nameOf v = some name
  /-- It is pending. -/
  mem_pending : j ∈ V.pending w.server
  /-- Nothing after it was delivered. -/
  delivered_le : (V.pending w.server).top ≤ j
  /-- There is no lock. -/
  unlocked : ∀ key, w.server.keys key = none
  /-- The reader's context is not done. -/
  ctxDone_eq : (w.clients 0).ctxDone = false

section Round

variable {V : Service} {name : String} {i j : StreamID} {w : World}

/-- A delivery. -/
theorem Waiting.xreadGroup (hw : Waiting V w name j) (n : String) :
    ∃ streams s', w.server.xreadGroup V.group n V.lbs = some (.ok streams, s') ∧
      Orphaned V (w.setServer s') name j := by
  obtain ⟨v, hv, hname⟩ := hw.lookup_eq
  have hmem : (j, v) ∈ w.server.undelivered V.lbs V.group :=
    List.mem_filter.2 ⟨Log.lookup_eq_some_iff.1 hv, decide_eq_true hw.undelivered⟩
  refine ⟨_, _, if_neg (List.ne_nil_of_mem hmem), hw.top_eq, ⟨v, hv, hname⟩, ?_, ?_, hw.unlocked,
    hw.ctxDone_eq⟩
  · rw [World.server_setServer, Service.pending_setGroup, Server.deliver, Log.mem_append]
    exact .inr ⟨_, List.mem_map.2 ⟨(j, v), hmem, rfl⟩⟩
  · rw [World.server_setServer, Service.pending_setGroup, Server.deliver]
    refine Log.top_append_le hw.undelivered.le fun e he ↦ ?_
    obtain ⟨d, hd, rfl⟩ := List.mem_map.1 he
    rw [← hw.top_eq]
    exact Log.le_top _ _ (List.mem_of_mem_filter hd)

/-- The three commands of a re-queue that write. -/
theorem requeue_commands {s s' : Server} {v : Values} {l : StreamID} {trim : Nat}
    {r : Except Err String} (hj : j ∈ V.pending s) (hle : j ≤ (V.stream s).top)
    (hadd : (s.xack V.lbs V.group j.text).2.xadd V.lbs 0 v l trim = some (r, s')) :
    (V.stream s).top < l ∧ (V.stream (s'.xdel V.lbs j.text).2).top = l ∧
      (V.stream (s'.xdel V.lbs j.text).2).lookup l = some v ∧
      (V.pending (s'.xdel V.lbs j.text).2).top = (V.pending s).top ∧
      (s'.xdel V.lbs j.text).2.keys = s.keys := by
  have hstream : V.stream (s.xack V.lbs V.group j.text).2 = V.stream s := by
    rcases s.xack_cases V.lbs V.group j.text with ⟨_, -, -, heq⟩ | ⟨-, heq, -⟩
    · rw [heq]
      rfl
    · rw [heq]
  obtain ⟨-, hack, hpend⟩ := xack_pending hj
  obtain ⟨hlt, hs', -⟩ := Server.xadd_uncapped hadd
  have htop : (V.stream s').top = l := by rw [hs', Service.stream_setStream, Log.top_push]
  have hlook : (V.stream s').lookup l = some v := by
    rw [hs', Service.stream_setStream, Log.lookup_push_self]
  obtain ⟨-, hp'⟩ := spares_xadd_lbs (V := V) (i := j) hadd
  obtain ⟨hdel, hp''⟩ := spares_xdel (V := V) (i := j) (s := s')
  have hlt' : (V.stream s).top < l := hstream ▸ hlt
  have hne : l ≠ j := (hle.trans_lt hlt').ne'
  refine ⟨hlt', ?_, ?_, ?_, ?_⟩
  · rcases s'.xdel_cases V.lbs j.text with ⟨x, -, -, heq⟩ | ⟨-, heq⟩
    · rw [heq, Service.stream_setStream, Log.top_erase]
      exact htop
    · rw [heq, htop]
  · rw [hdel.lookup_eq l htop.ge hne, hlook]
  · rw [hp'', hp', hpend, Log.top_erase]
  · rw [hdel.keys_eq, hs']
    exact hack.keys_eq

/-- The re-queue of the last entry adds one after it. -/
theorem Orphaned.reAdd_ensures (hw : Orphaned V w name j) {c : Nat} {v : Values}
    (hmax : (V.client c).recoveryConfig.maxRetries = maxInt) (hname : V.nameOf v = some name) :
    (reAdd (V.client c) j.text name ⟨j.text, v⟩).Ensures (Clean c)
      (fun _ w' ↦ ∃ l, j < l ∧ Waiting V w' name l) w := by
  have hwrap : ∀ n, wrap64 n ≤ maxInt := by
    intro n
    have := Int.bmod_lt (x := n) (m := 2 ^ 64) (by decide)
    rw [wrap64, maxInt]
    omega
  rw [reAdd, if_neg (by rw [hmax]; exact not_lt.2 (hwrap _))]
  refine ensures_xAck ?_
  rw [V.lbsName_eq, V.lbsGroupName_eq, (xack_pending hw.mem_pending).1]
  simp only [one_ne_zero, if_false]
  refine ensures_xAdd fun l trim s' hadd ↦ ?_
  refine ensures_xDel ?_
  refine ensures_metric ?_
  obtain ⟨hlt, htop, hlook, hpend, hkeys⟩ := requeue_commands hw.mem_pending hw.top_eq.ge hadd
  rw [hw.top_eq] at hlt
  refine ⟨l, hlt, htop, ⟨_, hlook, ?_⟩, ?_, ?_, hw.ctxDone_eq⟩
  · exact (congrArg Except.toOption (LBSEntry.dataStreamName_requeued ..)).trans hname
  · exact hpend.trans_lt (hw.delivered_le.trans_lt hlt)
  · intro key
    exact (congrFun hkeys key).trans (hw.unlocked key)

/-- A client that finds the owner of the last entry dead adds one after it. -/
theorem Orphaned.reQueue_ensures (hw : Orphaned V w name j) {c : Nat}
    (hmax : (V.client c).recoveryConfig.maxRetries = maxInt) :
    (reQueue V.json (V.client c) j.text).Ensures (Clean c)
      (fun _ w' ↦ ∃ l, j < l ∧ Waiting V w' name l) w := by
  obtain ⟨v, hv, hname⟩ := hw.lookup_eq
  have hn : (LBSEntry.mk j.text v).dataStreamName V.json = .ok name := Service.nameOf_eq_some.1 hname
  have hparts : createByParts name j.text = .ok ⟨name, j.text⟩ := by
    rw [createByParts, if_neg]
    rintro (h | h)
    · exact LBSEntry.dataStreamName_ne_empty hn h
    · exact StreamID.text_ne_empty j h
  refine readLBSEntry_ensures.bind ?_
  rintro _ w₁ ⟨rfl, rfl⟩
  simp only [hv, Option.map_some, hn, hparts]
  refine ownerAlive_ensures.bind ?_
  rintro _ w₂ ⟨rfl, rfl⟩
  simp only [hw.unlocked, Option.isSome_none]
  exact hw.reAdd_ensures hmax hname

theorem Orphaned.claim_ensures (hw : Orphaned V w name j) {c : Nat} {info : LBSInfo}
    (hinfo : info.idInLBS = j.text) (hmax : (V.client c).recoveryConfig.maxRetries = maxInt) :
    (body V.json V.client c (.claim info)).Ensures (Clean c)
      (fun _ w' ↦ ∃ l, j < l ∧ Waiting V w' name l) w := by
  have hclaim : (claim V.json (V.client c) info).Ensures (Clean c)
      (fun _ w' ↦ ∃ l, j < l ∧ Waiting V w' name l) w := by
    rw [claim, hinfo]
    refine (hw.reQueue_ensures hmax).bind ?_
    rintro ⟨out, n, err⟩ w' h
    cases err with
    | some err => exact h
    | none =>
      dsimp only
      split <;> exact h
  exact hclaim.bind fun _ _ h ↦ h

end Round

/-! ## All rounds -/

/-- The events of the run: calls and operations, none of which fails, and crashes. -/
def Tireless (V : Service) (γ : History × List Successor) (e : Event V.machine) : Prop :=
  (Service.Public e ∧ NoFault e) ∧ ProducedOnce V γ.1 e

section Rounds

variable {V : Service} {name : String} {j : StreamID} {x₀ : Pool V.machine × History × List Successor}
  {P : Pool V.machine} {γ : History × List Successor}

/-- **One round**: the entry is handed to client 0, which crashes, and client 1 re-queues
it. -/
theorem exists_round (hmax : (V.client 1).recoveryConfig.maxRetries = maxInt)
    (hr : Pool.Run V.chronicle (fun γ _ e ↦ Tireless V γ e) x₀ P γ)
    (hw : Waiting V P.state name j) : ∃ P' γ' l,
      Pool.Run V.chronicle (fun γ _ e ↦ Tireless V γ e) x₀ P' γ' ∧ j < l ∧
        Waiting V P'.state name l := by
  have hop : ∀ {γ} {t c : Nat} {o : Op} {ch : Choice} {r : o.Reply} {f : Option Call},
      ch.fault = .none → Tireless V γ (.op t c o ch r f) :=
    fun hch ↦ ⟨⟨trivial, hch⟩, fun p hp ↦ absurd hp (by simp [History.entryProduced])⟩
  have hother : ∀ {γ} {e : Event V.machine}, Service.Public e → NoFault e →
      History.entryProduced V e = none → Tireless V γ e :=
    fun hpub hclean hnone ↦ ⟨⟨hpub, hclean⟩, fun p hp ↦ absurd hp (by simp [hnone])⟩
  -- the reader of client 0 asks for messages and gets the entry
  obtain ⟨P₁, γ₁, h₁, hw₁, ht₁⟩ := hr.start 0 (.readLBSStream 0 0)
    (hother (e := .start 0 (.readLBSStream 0 0)) trivial trivial rfl)
  rw [← hw₁] at hw
  have hx₁ : V.machine.exec 0 .isContextDone .plain P₁.state = some (false, P₁.state, none) :=
    congrArg (fun b ↦ some (b, P₁.state, none)) hw.ctxDone_eq
  obtain ⟨P₂, γ₂, h₂, hw₂, ht₂⟩ := h₁.op ht₁ hx₁ (hop rfl)
  rw [← hw₂] at hw
  obtain ⟨streams, s, hread, hw⟩ := hw.xreadGroup (V.client 0).consumerID
  have hx₂ : V.machine.exec 0 (.xreadGroup (V.client 0).lbsGroupName (V.client 0).consumerID
      (V.client 0).lbsName) .plain P₂.state = some (.ok streams, P₂.state.setServer s, none) := by
    rw [V.lbsGroupName_eq, V.lbsName_eq]
    exact congrArg (Option.map _) hread
  obtain ⟨P₃, γ₃, h₃, hw₃, -⟩ := h₂.op ht₂ hx₂ (hop rfl)
  rw [← hw₃] at hw
  -- then it crashes
  have h₄ := h₃.next (hother (e := .crash 0) trivial trivial rfl) (.crash (M := V.machine) 0)
  have hw : Orphaned V (V.machine.crash 0 P₃.state) name j :=
    ⟨hw.top_eq, hw.lookup_eq, hw.mem_pending, hw.delivered_le, hw.unlocked,
      by simp [World.setClient, Local.new]⟩
  -- client 1 recovers the entry
  obtain ⟨P₅, γ₅, h₅, hw₅, ht₅⟩ := h₄.start 1 (.claim ⟨name, j.text⟩)
    (hother (e := .start 1 (.claim ⟨name, j.text⟩)) trivial trivial rfl)
  have hw : Orphaned V P₅.state name j := by
    rw [hw₅]
    exact hw
  obtain ⟨P₆, γ₆, -, h₆, l, hlt, hw⟩ := h₅.of_ensures (X := Clean 1)
    (Q := fun _ w ↦ ∃ l, j < l ∧ Waiting V w name l) (by
      rintro o s r s' ⟨ch, f, hch, hx⟩
      exact ⟨ch, f, hx, fun _ _ ↦ hop hch⟩) ht₅ (hw.claim_ensures rfl hmax)
  exact ⟨P₆, γ₆, l, h₆, hlt, hw⟩

/-- In such a run no two lines of entries are for the same data stream. -/
theorem Tireless.lineage {P₀ : Pool V.machine} (h₀ : Fresh V P₀)
    (hN : NamedOnce V (V.stream P₀.state.server).entries)
    (hr : Pool.Run V.chronicle (fun γ _ e ↦ Tireless V γ e)
      (P₀, (.init V P₀.state.server, [])) P γ) (name : String) :
    Chronicled V P γ ∧ Lineage γ.1.parent (γ.1.ofStream V name) := by
  obtain ⟨hC, hR, hN⟩ := Pool.Run.invariant (I := fun P γ ↦ Chronicled V P γ ∧ Rooted γ.1 ∧
    NamedOnce V γ.1.produced) ⟨.init h₀, fun i v hv _ ↦ Log.lookup_eq_some_iff.1 hv, hN⟩ (by
      rintro P γ e P' ⟨hC, hR, hN⟩ ⟨⟨hpub, hclean⟩, honce⟩ hs
      exact ⟨hC.step hs hpub hclean, hR.step hC.sound hs, hN.step honce⟩) hr
  exact ⟨hC, hC.lineal.lineage hR hN name⟩

/-- What was added stays as it is. -/
theorem Tireless.persists (hC : Chronicled V P γ) {P' : Pool V.machine}
    {γ' : History × List Successor}
    (hr : Pool.Run V.chronicle (fun γ _ e ↦ Tireless V γ e) (P, γ) P' γ') {i : StreamID}
    (hi : i ≤ (V.stream P.state.server).top) :
    γ'.1.parent i = γ.1.parent i ∧ γ'.1.added i = γ.1.added i := by
  suffices h : Chronicled V P' γ' ∧ i ≤ (V.stream P'.state.server).top ∧
      γ'.1.parent i = γ.1.parent i ∧ γ'.1.added i = γ.1.added i from h.2.2
  refine Pool.Run.invariant (I := fun P' γ' ↦ Chronicled V P' γ' ∧
    i ≤ (V.stream P'.state.server).top ∧ γ'.1.parent i = γ.1.parent i ∧
      γ'.1.added i = γ.1.added i) ⟨hC, hi, rfl, rfl⟩ ?_ hr
  rintro P₁ γ₁ e P₂ ⟨hC, hi, hp, ha⟩ ⟨⟨hpub, hclean⟩, -⟩ hs
  have hgr := (change hC.sound.obeying hs).grows
  refine ⟨hC.step hs hpub hclean, hi.trans hgr.top_le, ?_, (hgr.added_eq i hi).trans ha⟩
  rw [← hp]
  show (γ₁.1.update V P₁ e).parent i = γ₁.1.parent i
  cases hadd : γ₁.1.reAdded V e with
  | none => simp [History.update, hadd]
  | some d =>
    obtain ⟨x, y⟩ := d
    obtain ⟨hlt, -⟩ := Lineal.new_child hC.sound hs hadd
    simp [History.update, hadd, Function.update_of_ne (hi.trans_lt hlt).ne]

/-- **Chains of any length.**  If a client never finds its retries used up, a data stream
whose entry waits for delivery may be re-queued any number of times. -/
theorem exists_chain (hmax : (V.client 1).recoveryConfig.maxRetries = maxInt) {P₀ : Pool V.machine}
    (h₀ : Fresh V P₀) (hN : NamedOnce V (V.stream P₀.state.server).entries)
    (hr : Pool.Run V.chronicle (fun γ _ e ↦ Tireless V γ e)
      (P₀, (.init V P₀.state.server, [])) P γ) {i : StreamID} {v : Values}
    (hw : Waiting V P.state name i) (hroot : γ.1.parent i = none) (hv : γ.1.added i = some v)
    (hname : V.nameOf v = some name) (n : Nat) : ∃ P' γ' j k,
      Pool.Run V.chronicle (fun γ _ e ↦ Tireless V γ e) (P₀, (.init V P₀.state.server, [])) P' γ' ∧
        Waiting V P'.state name j ∧ γ'.1.parent i = none ∧ γ'.1.added i = some v ∧
          γ'.1.Chain i k j ∧ n ≤ k := by
  induction n with
  | zero => exact ⟨P, γ, i, 0, hr, hw, hroot, hv, .root, le_rfl⟩
  | succ n ih =>
    obtain ⟨P₁, γ₁, j, k, hr₁, hw₁, hroot₁, hv₁, hc₁, hle⟩ := ih
    have hinit : Pool.Run V.chronicle (fun γ _ e ↦ Tireless V γ e) (P₁, γ₁) P₁ γ₁ := .init
    obtain ⟨P₂, γ₂, l, htail, hlt, hw₂⟩ := exists_round hmax hinit hw₁
    have hr₂ := hr₁.trans htail
    obtain ⟨hC₁, hL₁⟩ := Tireless.lineage h₀ hN hr₁ name
    obtain ⟨hC₂, hL₂⟩ := Tireless.lineage h₀ hN hr₂ name
    have hi : i ≤ (V.stream P₁.state.server).top := by
      obtain ⟨x, hx, hroot⟩ := hc₁.exists_le hL₁.parent_lt (Nat.zero_le k)
      cases hroot
      exact hx.trans hw₁.top_eq.ge
    obtain ⟨hparent, hadded⟩ := Tireless.persists hC₁ htail hi
    -- the new entry is on the chain from the first, after the one it replaces
    have hc₂ : γ₂.1.Chain i k j := hc₁.mono fun x y hp ↦
      (Tireless.persists hC₁ htail (hC₁.lineal.parent_lt x y hp).2).1.trans hp
    obtain ⟨u, hu, huname⟩ := hw₂.lookup_eq
    have hmem : i ∈ γ₂.1.ofStream V name := ⟨v, hadded.trans hv₁, hname⟩
    have hlmem : l ∈ γ₂.1.ofStream V name := ⟨u, hC₂.sound.added_eq l u hu, huname⟩
    obtain ⟨m, hm⟩ := History.exists_chain hL₂ hmem (hparent.trans hroot₁) hlmem
    exact ⟨P₂, γ₂, l, m, hr₂, hw₂, hparent.trans hroot₁, hadded.trans hv₁, hm,
      Nat.succ_le_of_lt (hle.trans_lt (hc₂.lt_of_lt hL₂ hm hlt))⟩

end Rounds

namespace Demo

/-- Clients that never give up. -/
def tireless : Service := limited 1000 maxInt

/-- Before anything happened. -/
def tirelessIdle : Pool tireless.machine := ⟨idle.state, []⟩

theorem fresh_tirelessIdle : Fresh tireless tirelessIdle where
  threads_eq := rfl
  not_mem_pending := fresh_idle.not_mem_pending
  delivered_le := le_rfl
  streamLocks_eq _ := rfl

theorem nameOf_orders : tireless.nameOf (fields "orders") = some "orders" := by decide

theorem namedOnce_tirelessIdle :
    NamedOnce tireless (tireless.stream tirelessIdle.state.server).entries :=
  fun _ hp ↦ absurd hp List.not_mem_nil

/-- The run up to the producer's entry. -/
theorem exists_waiting : ∃ P γ,
    Pool.Run tireless.chronicle (fun γ _ e ↦ Tireless tireless γ e)
      (tirelessIdle, (.init tireless tirelessIdle.state.server, [])) P γ ∧
    Waiting tireless P.state "orders" ⟨1, 0⟩ ∧ γ.1.parent ⟨1, 0⟩ = none ∧
      γ.1.added ⟨1, 0⟩ = some (fields "orders") := by
  have hinit : Pool.Run tireless.chronicle (fun γ _ e ↦ Tireless tireless γ e)
      (tirelessIdle, (.init tireless tirelessIdle.state.server, [])) tirelessIdle
      (.init tireless tirelessIdle.state.server, []) := .init
  have hguard : Tireless tireless (.init tireless tirelessIdle.state.server, [])
      (.env (.produce "demo-input" ⟨1, 0⟩ (fields "orders"))) :=
    ⟨⟨trivial, trivial⟩, fun p _ q hq ↦ absurd hq List.not_mem_nil⟩
  have hrun := hinit.next hguard (.env (M := tireless.machine) rfl)
  refine ⟨_, _, hrun, ⟨rfl, ⟨(fields "orders"), rfl, nameOf_orders⟩, ?_, fun _ ↦ rfl, rfl⟩, rfl, rfl⟩
  show StreamID.zero < ⟨1, 0⟩
  decide

end Demo

/-- **A re-queue too many.**  With `MaxRetries` at the largest `int` a task is added to the
LBS again although that is its `maxInt + 1`st re-queue. -/
theorem requeued_past_maxInt :
    (∀ c, (Demo.tireless.client c).recoveryConfig.maxRetries = maxInt) ∧
      Fresh Demo.tireless Demo.tirelessIdle ∧ ∃ P γ,
        Demo.tireless.Chronicle Demo.tirelessIdle P γ ∧
        γ.1.added ⟨1, 0⟩ = some (Demo.fields "orders") ∧
        Demo.tireless.nameOf (Demo.fields "orders") = some "orders" ∧
        (Demo.fields "orders").lookup Configs.retryCountField = none ∧
        ∃ k, ∃ a ∈ γ.2, γ.1.Chain ⟨1, 0⟩ k a.entry ∧ a.stream = Demo.tireless.lbs ∧
          (Demo.tireless.client a.client).recoveryConfig.maxRetries < (k + 1 : Nat) := by
  refine ⟨fun _ ↦ rfl, Demo.fresh_tirelessIdle, ?_⟩
  obtain ⟨P₁, γ₁, hr₁, hw, hroot, hv⟩ := Demo.exists_waiting
  obtain ⟨P, γ, j, k, hr, -, -, hadded, hchain, hk⟩ := exists_chain rfl Demo.fresh_tirelessIdle
    Demo.namedOnce_tirelessIdle hr₁ hw hroot hv Demo.nameOf_orders (maxInt.toNat + 1)
  obtain ⟨hC, -⟩ := Tireless.lineage Demo.fresh_tirelessIdle Demo.namedOnce_tirelessIdle hr "orders"
  -- the chain goes on from its entry number `maxInt`
  obtain ⟨x, y, hx, hp⟩ := hchain.exists_child (Nat.lt_of_succ_le hk)
  obtain ⟨a, ha, rfl, hlbs⟩ := hC.parent x y hp
  refine ⟨P, γ, hr.mono fun _ _ _ hg ↦ hg.1, hadded, Demo.nameOf_orders, by decide,
    maxInt.toNat, a, ha, hx, hlbs, ?_⟩
  show maxInt < (maxInt.toNat + 1 : Nat)
  have : (0 : Int) ≤ maxInt := by decide
  omega

end RedisStreamClient.Impl

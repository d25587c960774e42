import RedisStreamClient.Impl.MutexKey
import RedisStreamClient.Impl.Outcome

/-!
# The lock that `Claim` checks

`Claim` uses its caller's text of an entry's ID in three places: as both ends of an
`XRANGE`, in the key of the lock it checks, and in the `XACK`.  Redis reads more than one
text as the same ID, so an ID that is spelled differently from the text Redis gave to the
entry's owner still names the owner's entry to `XRANGE` and to `XACK`, but not its lock.

Nor is there any check if `Claim` does not find the entry: `reQueue` then acknowledges the ID
it was given, and an entry that is still pending may have been deleted from the LBS.

These two are all that can go wrong, whatever the other clients do in between, and whichever
commands fail or lose their replies (`claim_checks_acked_iff`).
-/

namespace RedisStreamClient.Impl

open RedisStreamClient.Lib RedisStreamClient.Errs RedisStreamClient.Notifs
open RedisStreamClient.Redis

/-- An `XACK`. -/
def Op.isXack : Op → Bool
  | .xack _ _ _ => true
  | _ => false

/-- The key of an `EXISTS`. -/
def Op.askedKey : Op → Option String
  | .existsKey key => some key
  | _ => none

namespace Transition

variable (c : Nat) (x : Transition)

/-- An operation of client `c` that gets the reply `r`, whatever fault it meets. -/
def Meets (o : Op) (r : o.Reply) : Prop := ∃ ch, x.Does c ch o r

/-- An `XACK` that takes `i` off the pending list of a client's LBS. -/
def Removes (r : Client) (i : StreamID) : Prop :=
  x.op.isXack = true ∧ i ∈ x.before.server.groups r.lbsName r.lbsGroupName ∧
    i ∉ x.after.server.groups r.lbsName r.lbsGroupName

instance instDecidableRemoves (r : Client) (i : StreamID) : Decidable (x.Removes r i) :=
  inferInstanceAs (Decidable (_ ∧ _ ∧ _))

end Transition

/-- The keys whose existence was asked for, in order. -/
def asked (tr : List Transition) : List String := tr.filterMap fun x ↦ x.op.askedKey

theorem asked_cons (x : Transition) (tr : List Transition) :
    asked (x :: tr) = x.op.askedKey.toList ++ asked tr := by
  cases h : x.op.askedKey with
  | none => exact List.filterMap_cons_none h
  | some key => exact List.filterMap_cons_some h

/-! ## The transitions of `reQueue` -/

/-- What is left to do about an entry once its lock was checked. -/
def Op.Settles (id : String) : Op → Prop
  | .xack _ _ text => text = id
  | .xadd _ _ _ | .xdel _ _ | .record _ => True
  | _ => False

theorem Op.Settles.askedKey_eq {id : String} {o : Op} (h : o.Settles id) : o.askedKey = none := by
  cases o with
  | existsKey key => exact h.elim
  | _ => rfl

section

variable {A B : Type} {J : Json} {r : Client} {c : Nat} {id name : String}

/-- A program that only settles the entry. -/
def Settling (c : Nat) (id : String) (p : Prog sig A) : Prop :=
  p.Traces (Transition.Meets c) fun tr _ ↦ ∀ x ∈ tr, x.op.Settles id

theorem Settling.ret (a : A) : Settling c id (.ret a) := Prog.Traces.ret (by simp)

theorem Settling.call {o : Op} {k : o.Reply → Prog sig A} (ho : o.Settles id)
    (h : ∀ reply, Settling c id (k reply)) : Settling c id (.call o k) := by
  refine Prog.Traces.call fun x reply hx ↦ ?_
  obtain ⟨ch, hop, -⟩ := hx
  refine (h reply).mono fun tr a htr ↦ ?_
  rw [List.forall_mem_cons]
  exact ⟨hop ▸ ho, htr⟩

theorem Settling.bind {p : Prog sig A} {f : A → Prog sig B} (hp : Settling c id p)
    (hf : ∀ a, Settling c id (f a)) : Settling c id (p >>= f) := by
  refine Prog.Traces.bind hp fun xs a hxs ↦ (hf a).mono fun ys b hys ↦ ?_
  rw [List.forall_mem_append]
  exact ⟨hxs, hys⟩

/-- `routeToDLQ` settles its entry. -/
theorem settling_routeToDLQ {v : Values} {n : Int} {reason : String} :
    Settling c id (routeToDLQ r name ⟨id, v⟩ n reason) := by
  rw [routeToDLQ]
  refine .call (o := .xack _ _ _) rfl ?_
  rintro (e | acked)
  · exact .ret _
  · show Settling c id (if acked = 0 then _ else _)
    split
    · exact .ret _
    · split
      · refine .call (o := .xadd _ _ _) trivial ?_
        rintro (e | t)
        · exact .call (o := .record _) trivial fun _ ↦ .ret _
        · refine .call (o := .record _) trivial fun _ ↦ ?_
          exact .call (o := .xdel _ _) trivial fun _ ↦ .ret _
      · exact .call (o := .xdel _ _) trivial fun _ ↦ .ret _

/-- `reAdd` settles its entry. -/
theorem settling_reAdd {v : Values} : Settling c id (reAdd r id name ⟨id, v⟩) := by
  rw [reAdd]
  split
  · exact settling_routeToDLQ.bind fun p ↦ .ret _
  · refine .call (o := .xack _ _ _) rfl ?_
    rintro (e | acked)
    · exact .call (o := .record _) trivial fun _ ↦ .ret _
    · show Settling c id (if acked = 0 then _ else _)
      split
      · exact .ret _
      · refine .call (o := .xadd _ _ _) trivial ?_
        rintro (e | t)
        · refine .call (o := .record _) trivial fun _ ↦ ?_
          exact .call (o := .record _) trivial fun _ ↦ .ret _
        · refine .call (o := .xdel _ _) trivial fun _ ↦ ?_
          exact .call (o := .record _) trivial fun _ ↦ .ret _

/-- **Normal form of the transitions of `reQueue`.**  It reads the entry, and nothing else
follows, or what settles an entry that is gone or unparseable, or the check of its lock
and what settles it. -/
inductive Shape (J : Json) (r : Client) (c : Nat) (id : String) : List Transition → Prop
  | /-- Nothing follows. -/
    read {x : Transition} {reply : Except Err (List XMessage)}
      (h : x.Meets c (.xrange r.lbsName id id) reply) : Shape J r c id [x]
  | /-- The entry is gone. -/
    gone {x : Transition} {rest : List Transition}
      (h : x.Meets c (.xrange r.lbsName id id) (.ok ([] : List XMessage)))
      (hrest : ∀ y ∈ rest, y.op.Settles id) : Shape J r c id (x :: rest)
  | /-- The entry cannot be parsed. -/
    poison {x : Transition} {m : XMessage} {ms : List XMessage} {e : Err} {rest : List Transition}
      (h : x.Meets c (.xrange r.lbsName id id) (.ok (m :: ms)))
      (hname : LBSEntry.dataStreamName J ⟨id, m.values⟩ = .error e)
      (hrest : ∀ y ∈ rest, y.op.Settles id) : Shape J r c id (x :: rest)
  | /-- The lock is checked. -/
    checked {x y : Transition} {m : XMessage} {ms : List XMessage} {name : String}
      {rest : List Transition} (h : x.Meets c (.xrange r.lbsName id id) (.ok (m :: ms)))
      (hname : LBSEntry.dataStreamName J ⟨id, m.values⟩ = .ok name)
      (hy : y.op = .existsKey (LBSInfo.mk name id).formMutexKey)
      (hrest : ∀ z ∈ rest, z.op.Settles id) : Shape J r c id (x :: y :: rest)

/-- Reading the entry, by what was found. -/
theorem traces_readLBSEntry {Q : List Transition → A → Prop}
    {f : Except Err (Option LBSEntry) → Prog sig A}
    (herr : ∀ x reply e, x.Meets c (.xrange r.lbsName id id) reply →
      (f (.error e)).Traces (Transition.Meets c) fun tr a ↦ Q (x :: tr) a)
    (hnone : ∀ x, x.Meets c (.xrange r.lbsName id id) (.ok ([] : List XMessage)) →
      (f (.ok none)).Traces (Transition.Meets c) fun tr a ↦ Q (x :: tr) a)
    (hsome : ∀ x m ms, x.Meets c (.xrange r.lbsName id id) (.ok (m :: ms)) →
      (f (.ok (some ⟨id, m.values⟩))).Traces (Transition.Meets c) fun tr a ↦ Q (x :: tr) a) :
    (readLBSEntry r id >>= f).Traces (Transition.Meets c) Q := by
  refine Prog.Traces.call (S := sig) (o := Op.xrange _ _ _) ?_
  rintro x (e | _ | ⟨m, ms⟩) hx
  · exact herr x _ _ hx
  · exact hnone x hx
  · exact hsome x m ms hx

/-- The check of a lock, whatever it finds. -/
theorem traces_ownerAlive {Q : List Transition → A → Prop} {lbsInfo : LBSInfo}
    {f : Except Err Bool → Prog sig A}
    (h : ∀ y reply, y.op = .existsKey lbsInfo.formMutexKey →
      (f reply).Traces (Transition.Meets c) fun tr a ↦ Q (y :: tr) a) :
    (ownerAlive lbsInfo >>= f).Traces (Transition.Meets c) Q := by
  refine Prog.Traces.call (S := sig) (o := Op.existsKey _) ?_
  rintro y (e | n) ⟨ch, hop, -⟩
  · exact h y _ hop
  · exact h y _ hop

theorem traces_reQueue :
    (reQueue J r id).Traces (Transition.Meets c) fun tr _ ↦ Shape J r c id tr := by
  rw [reQueue]
  apply traces_readLBSEntry
  · intro x reply e hx
    exact Prog.Traces.ret (.read hx)
  · intro x hx
    exact (Settling.call (o := .xack _ _ _) rfl fun _ ↦ .ret _).mono fun tr a htr ↦ .gone hx htr
  · intro x m ms hx
    dsimp only
    split
    · next e hname =>
      exact (settling_routeToDLQ.bind fun p ↦ .ret _).mono fun tr a htr ↦ .poison hx hname htr
    · next name hname =>
      split
      · exact Prog.Traces.ret (.read hx)
      · next lbsInfo hparts =>
        have hinfo : lbsInfo = ⟨name, id⟩ := by
          unfold createByParts at hparts
          split at hparts
          · cases hparts
          · exact (Except.ok.inj hparts).symm
        subst hinfo
        apply traces_ownerAlive
        intro y reply hy
        have hsettle (p : Prog sig (ReQueueOutcome × String × Option Err)) (hp : Settling c id p) :
            p.Traces (Transition.Meets c) fun tr _ ↦ Shape J r c id (x :: y :: tr) :=
          hp.mono fun tr a htr ↦ .checked hx hname hy htr
        apply hsettle
        rcases reply with e | _ | _
        · exact .ret _
        · exact settling_reAdd
        · exact .call (o := .record _) trivial fun _ ↦ .ret _

/-! ## The check that precedes an acknowledgement -/

/-- An `XACK` removes the entry its text names. -/
theorem Transition.Meets.ofText?_eq {x : Transition} {stream group : String} {i : StreamID}
    {reply : Except Err Int} (h : x.Meets c (.xack stream group id) reply) (hx : x.Removes r i) :
    StreamID.ofText? id = some i := by
  obtain ⟨-, hbefore, hafter⟩ := hx
  obtain ⟨ch, -, f, hexec⟩ := h
  obtain ⟨-, ⟨-, heq, -⟩ | ⟨-, heq, -⟩⟩ := World.exec_xack hexec
  · exact absurd hbefore (heq ▸ hafter)
  rw [heq, World.server_setServer] at hafter
  rcases x.before.server.xack_cases stream group id with ⟨j, hj, -, hack⟩ | ⟨-, hack, -⟩
  · rw [hack, Server.groups_setGroup] at hafter
    split at hafter
    · next heq =>
      obtain ⟨rfl, rfl⟩ := heq
      rw [hj]
      by_contra hne
      exact hafter (Log.mem_erase.2 ⟨hbefore, fun h ↦ hne (by rw [h])⟩)
    · exact absurd hbefore hafter
  · rw [hack] at hafter
    exact absurd hbefore hafter

/-- What a lookup by a text of an entry finds, if the entry is there. -/
theorem Transition.Meets.found {x : Transition} {i : StreamID} {v : Values} {ms : List XMessage}
    (h : x.Meets c (.xrange r.lbsName id id) (.ok ms)) (hi : StreamID.ofText? id = some i)
    (hentry : (x.before.server.streams r.lbsName).lookup i = some v) :
    ∃ m ms', ms = m :: ms' ∧ m.values = v := by
  obtain ⟨ch, -, f, hexec⟩ := h
  obtain ⟨m, ms', hx, hm⟩ := x.before.server.xrange_of_lookup hi hentry
  obtain ⟨-, hr | ⟨e, he⟩⟩ := World.exec_xrange hexec
  · rw [hx] at hr
    exact ⟨m, ms', Except.ok.inj hr, hm⟩
  · cases he

/-- What a lookup by the text that Redis gave to an entry finds is that entry. -/
theorem Transition.Meets.lookup_eq {x : Transition} {i : StreamID} {m : XMessage}
    {ms : List XMessage} (h : x.Meets c (.xrange r.lbsName i.text i.text) (.ok (m :: ms))) :
    (x.before.server.streams r.lbsName).lookup i = some m.values := by
  obtain ⟨ch, -, f, hexec⟩ := h
  obtain ⟨-, hr | ⟨e, he⟩⟩ := World.exec_xrange hexec
  · rw [Server.xrange_text] at hr
    cases hv : (x.before.server.streams r.lbsName).lookup i with
    | none =>
      rw [hv] at hr
      cases hr
    | some v =>
      rw [hv] at hr
      cases hr
      rfl
  · cases he

/-- An `XACK` that settles an entry is by its text. -/
theorem Op.Settles.exists_xack {o : Op} (h : o.Settles id) (hx : o.isXack = true) :
    ∃ stream group, o = .xack stream group id := by
  cases o with
  | xack stream group text =>
    obtain rfl : text = id := h
    exact ⟨stream, group, rfl⟩
  | _ => cases hx

/-- What settles an entry asks for no key. -/
theorem asked_of_settles {tr : List Transition} (h : ∀ x ∈ tr, x.op.Settles id) : asked tr = [] := by
  rw [asked, List.filterMap_eq_nil_iff]
  exact fun x hx ↦ (h x hx).askedKey_eq

variable {tr pre post : List Transition} {x : Transition} {i : StreamID} {v : Values}

/-- A transition that removes an entry and settles it is by a text of the entry. -/
theorem ofText?_of_settles {o : Op} {reply : o.Reply} (hmeets : x.Meets c o reply)
    (hx : x.Removes r i) (hset : x.op.Settles id) : StreamID.ofText? id = some i := by
  obtain ⟨stream, group, hop⟩ := hset.exists_xack hx.1
  obtain ⟨ch, hdoes⟩ := hmeets
  obtain rfl : o = .xack stream group id := hdoes.1.symm.trans hop
  exact Transition.Meets.ofText?_eq ⟨ch, hdoes⟩ hx

/-- An `XACK` comes after a transition that is none. -/
theorem exists_eq_cons {y : Transition} {rest : List Transition}
    (htr : pre ++ x :: post = y :: rest) (hx : x.op.isXack = true) (hy : y.op.isXack = false) :
    ∃ pre', pre = y :: pre' ∧ rest = pre' ++ x :: post := by
  cases pre with
  | nil =>
    obtain ⟨rfl, -⟩ := List.cons.inj htr
    simp [hx] at hy
  | cons z pre' =>
    obtain ⟨rfl, rfl⟩ := List.cons.inj htr
    exact ⟨pre', rfl, rfl⟩

/-- The call finds the entry `i`, for the data stream `name`, in the LBS. -/
def Finds (J : Json) (r : Client) (i : StreamID) (name : String) (tr : List Transition) : Prop :=
  ∃ y v, tr.head? = some y ∧ (y.before.server.streams r.lbsName).lookup i = some v ∧
    LBSEntry.dataStreamName J ⟨i.text, v⟩ = .ok name

/-- A text of an ID has no part of the separator. -/
theorem not_mem_of_ofText? (h : StreamID.ofText? id = some i) : '>' ∉ id.toList := by
  intro hm
  simpa using StreamID.isDigit_or_dash_of_ofText? h '>' hm

/-- Before an entry is acknowledged, the lock that its owner holds is checked exactly if the
entry was found, and by the text that Redis gave to it. -/
theorem Shape.asked_eq_iff {o : Op} {reply : o.Reply} (h : Shape J r c id tr)
    (htr : tr = pre ++ x :: post) (hmeets : x.Meets c o reply) (hx : x.Removes r i) :
    asked pre = [(LBSInfo.mk name i.text).formMutexKey] ↔ id = i.text ∧ Finds J r i name tr := by
  have hread {y : Transition} {ms : Except Err (List XMessage)}
      (h : y.Meets c (.xrange r.lbsName id id) ms) :
      y.op.isXack = false ∧ y.op.askedKey = none := by
    obtain ⟨ch, hop, -⟩ := h
    rw [hop]
    exact ⟨rfl, rfl⟩
  -- without a check there is nothing to compare
  have hunasked {y : Transition} {ms : Except Err (List XMessage)} {pre' : List Transition}
      (h : y.Meets c (.xrange r.lbsName id id) ms) (hset : ∀ z ∈ pre', z.op.Settles id) :
      asked (y :: pre') ≠ [(LBSInfo.mk name i.text).formMutexKey] := by
    rw [asked_cons, (hread h).2, asked_of_settles hset]
    simp
  cases h with
  | read h =>
    obtain ⟨pre', -, hnil⟩ := exists_eq_cons htr.symm hx.1 (hread h).1
    simp at hnil
  | gone h hrest =>
    obtain ⟨pre', rfl, rfl⟩ := exists_eq_cons htr.symm hx.1 (hread h).1
    have hi := ofText?_of_settles hmeets hx (hrest x (by simp))
    refine iff_of_false (hunasked h fun z hz ↦ hrest z (by simp [hz])) ?_
    rintro ⟨-, y, v, hy, hentry, -⟩
    obtain rfl := Option.some.inj hy
    obtain ⟨m, ms, hms, -⟩ := h.found hi hentry
    cases hms
  | poison h hpoison hrest =>
    obtain ⟨pre', rfl, rfl⟩ := exists_eq_cons htr.symm hx.1 (hread h).1
    have hi := ofText?_of_settles hmeets hx (hrest x (by simp))
    refine iff_of_false (hunasked h fun z hz ↦ hrest z (by simp [hz])) ?_
    rintro ⟨-, y, v, hy, hentry, hname⟩
    obtain rfl := Option.some.inj hy
    obtain ⟨m, ms, hms, rfl⟩ := h.found hi hentry
    obtain ⟨rfl, -⟩ := List.cons.inj hms
    cases hpoison.symm.trans hname
  | @checked x₀ y₀ m₀ ms₀ name₀ rest h hchecked hy hrest =>
    obtain ⟨pre', rfl, hrest'⟩ := exists_eq_cons htr.symm hx.1 (hread h).1
    obtain ⟨pre'', rfl, rfl⟩ := exists_eq_cons hrest'.symm hx.1 (by rw [hy]; rfl)
    have hi := ofText?_of_settles hmeets hx (hrest x (by simp))
    have hasked : asked (x₀ :: y₀ :: pre'') = [(LBSInfo.mk name₀ id).formMutexKey] := by
      rw [asked_cons, asked_cons, (hread h).2, hy,
        asked_of_settles fun z hz ↦ hrest z (by simp [hz])]
      rfl
    rw [hasked]
    constructor
    · intro hkey
      have hinfo := formMutexKey_inj ⟨name₀, id⟩ ⟨name, i.text⟩ (not_mem_of_ofText? hi)
        (not_mem_of_ofText? (StreamID.ofText?_text i)) (List.cons.inj hkey).1
      obtain ⟨rfl, rfl⟩ := LBSInfo.mk.inj hinfo
      exact ⟨rfl, x₀, m₀.values, rfl, h.lookup_eq, hchecked⟩
    · rintro ⟨rfl, y, v, hy', hentry, hname⟩
      obtain rfl := Option.some.inj hy'
      obtain ⟨m, ms, hms, rfl⟩ := h.found hi hentry
      obtain ⟨rfl, -⟩ := List.cons.inj hms
      obtain rfl := Except.ok.inj (hchecked.symm.trans hname)
      rfl

end

/-- `Claim` performs nothing but `reQueue`. -/
theorem traces_claim {J : Json} {r : Client} {c : Nat} {lbsInfo : LBSInfo} :
    (claim J r lbsInfo).Traces (Transition.Meets c) fun tr _ ↦ Shape J r c lbsInfo.idInLBS tr := by
  rw [claim]
  refine Prog.Traces.bind traces_reQueue fun tr p htr ↦ ?_
  obtain ⟨out, name, err⟩ := p
  have hret (e : Option Err) : (.ret e : Prog sig (Option Err)).Traces (Transition.Meets c)
      fun tr' _ ↦ Shape J r c lbsInfo.idInLBS (tr ++ tr') :=
    Prog.Traces.ret (by rwa [List.append_nil])
  cases err with
  | some e => exact hret _
  | none =>
    dsimp only
    split
    · exact hret _
    · exact hret _

/-- **The lock of the acknowledged entry is checked exactly when the caller spells the entry's
ID as Redis does and the entry is found.**  Take any run of `Claim`, in any states, and an `XACK`
of the call that takes the entry `i` off the pending list.  What is checked before it is the key
that the owner of `i` locks for the data stream `name`, and nothing else, if and only if the
caller's text is the one Redis gave to `i`, and the call finds `i` in the LBS, with a payload for
`name`. -/
theorem claim_checks_acked_iff {J : Json} {r : Client} {c : Nat} {lbsInfo : LBSInfo}
    {tr pre post : List Transition} {x : Transition} {err : Option Err} {i : StreamID}
    {name : String} (hrun : (claim J r lbsInfo).Runs (Transition.Meets c) tr err)
    (htr : tr = pre ++ x :: post) (hx : x.Removes r i) :
    asked pre = [(LBSInfo.mk name i.text).formMutexKey] ↔
      lbsInfo.idInLBS = i.text ∧ Finds J r i name tr := by
  obtain ⟨o, reply, hmeets⟩ := hrun.exists_of_mem (x := x) (by simp [htr])
  exact (traces_claim tr err hrun).asked_eq_iff htr hmeets hx

namespace Demo

theorem meets_of_alone (o : Op) (w : World) (r : o.Reply) (x : Transition) (w' : World)
    (h : alone o w = some (r, x, w')) : x.Meets 1 o r := by
  obtain ⟨ch, -, hdoes⟩ := performs_of_alone o w r x w' h
  exact ⟨ch, hdoes⟩

/-- The transitions of a claim by client 1 on its own, by a text of the entry's ID. -/
def claiming (id : String) (w : World) : Option (List Transition × Option Err) :=
  (claim service.json (service.client 1) ⟨"orders", id⟩).solo alone w

/-- The abandoned entry `1-0` is claimed by its own text. -/
def claimedWell : List Transition × Option Err :=
  (claiming "1-0" abandoned.1.state).get (by decide +kernel)

/-- Client 0 was handed the entry `1-0` and locked it. -/
def lockHeld : Pool service.machine × History :=
  service.reached (fun _ _ _ ↦ True) idle
    ([produce 1 "orders", .start 0 (.readLBSStream 0 0)] ++ ops 0 3) (by decide +kernel)

/-- Then client 1 claims it by its milliseconds. -/
def claimedBadly : List Transition × Option Err :=
  (claiming "1" lockHeld.1.state).get (by decide +kernel)

theorem two_lt_claimedWell : 2 < claimedWell.1.length := by decide +kernel

theorem two_lt_claimedBadly : 2 < claimedBadly.1.length := by decide +kernel

/-- The third transition of a trace, with what comes before and after it. -/
theorem eq_append_third (tr : List Transition) (h : 2 < tr.length) :
    tr = tr.take 2 ++ tr.get ⟨2, h⟩ :: tr.drop 3 := by
  rw [List.get_eq_getElem, List.getElem_cons_drop, List.take_append_drop]

end Demo

/-- The lock of an abandoned entry is checked before it is acknowledged. -/
theorem claim_checks_acked_abandoned :
    asked (Demo.claimedWell.1.take 2) = [(LBSInfo.mk "orders" "1-0").formMutexKey] := by
  have hfinds : Finds Demo.service.json (Demo.service.client 1) ⟨1, 0⟩ "orders"
      Demo.claimedWell.1 := by
    have hhead : Demo.claimedWell.1.head?.any (fun y ↦
        decide ((y.before.server.streams "demo-input").lookup ⟨1, 0⟩ = some (Demo.fields "orders"))) =
          true := by
      decide +kernel
    obtain ⟨y, hy, hlook⟩ := (Option.any_eq_true _ _).1 hhead
    exact ⟨y, Demo.fields "orders", hy, of_decide_eq_true hlook, rfl⟩
  exact (claim_checks_acked_iff (r := Demo.service.client 1) (i := ⟨1, 0⟩)
    (Prog.runs_solo Demo.meets_of_alone _) (Demo.eq_append_third _ Demo.two_lt_claimedWell)
    (by decide +kernel)).2 ⟨rfl, hfinds⟩

/-- A claim by another text of the ID acknowledges an entry whose lock is held. -/
theorem claim_misses_lock : ∃ tr pre post x err v,
    (claim Demo.service.json (Demo.service.client 1) ⟨"orders", "1"⟩).Runs (Transition.Meets 1)
      tr err ∧
    (∀ y ∈ tr.head?, (y.before.server.streams "demo-input").lookup ⟨1, 0⟩ = some v) ∧
    LBSEntry.dataStreamName Demo.service.json ⟨"1-0", v⟩ = .ok "orders" ∧
    tr = pre ++ x :: post ∧ x.Removes (Demo.service.client 1) ⟨1, 0⟩ ∧
    (x.before.server.keys (LBSInfo.mk "orders" "1-0").formMutexKey).isSome = true ∧
    asked pre ≠ [(LBSInfo.mk "orders" "1-0").formMutexKey] := by
  refine ⟨Demo.claimedBadly.1, Demo.claimedBadly.1.take 2, Demo.claimedBadly.1.drop 3,
    Demo.claimedBadly.1.get ⟨2, Demo.two_lt_claimedBadly⟩, Demo.claimedBadly.2, Demo.fields "orders",
    Prog.runs_solo Demo.meets_of_alone _, ?_, rfl,
    Demo.eq_append_third _ Demo.two_lt_claimedBadly, ?_, ?_, ?_⟩
  · decide +kernel
  · decide +kernel
  · decide +kernel
  · decide +kernel

end RedisStreamClient.Impl

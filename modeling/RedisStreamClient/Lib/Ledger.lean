import Mathlib.Data.Set.Insert
import Mathlib.Logic.ExistsUnique
import Mathlib.Logic.Function.Basic

/-!
# Ledgers of tasks

A work queue hands out entries and takes some of them back under a new name.  A
`Ledger` is what has to be remembered to say that no task is lost or duplicated by
that: which task each entry belongs to, and in which of five kinds of places entries
are.  `Ledger.Step` lists the moves: a task appears, an entry is taken by a holder, a
holder puts a task back as a new entry or stores a copy of it, an entry is finished, or
it is lost, alone or with its holders.

`Ledger.Step.wellFormed` is conservation: after any moves, every task there is has
exactly one place.  `ι` are the entries, `τ` the holders, `δ` the copies.
-/

namespace RedisStreamClient.Lib

variable {ι τ δ : Type}

/-- The state of all tasks. -/
@[ext]
structure Ledger (ι τ δ : Type) where
  /-- The task of an entry, named by its first entry. -/
  origin : ι → Option ι
  /-- The entries that wait. -/
  live : Set ι
  /-- The entries that someone holds. -/
  holds : τ → Set ι
  /-- The task of a stored copy. -/
  copies : δ → Option ι
  /-- The entries that are finished. -/
  finished : Set ι
  /-- The entries that are lost. -/
  lost : Set ι

/-- Where a task can be. -/
inductive Place (ι τ δ : Type)
  | /-- An entry that waits. -/
    entry (i : ι)
  | /-- Held. -/
    holder (t : τ)
  | /-- A stored copy. -/
    copy (d : δ)
  | /-- An entry that is finished. -/
    finished (i : ι)
  | /-- An entry that is lost. -/
    lost (i : ι)

namespace Ledger

variable (L : Ledger ι τ δ)

/-- The task `x` is in a place. -/
def At (x : ι) : Place ι τ δ → Prop
  | .entry i => i ∈ L.live ∧ L.origin i = some x
  | .holder t => ∃ i ∈ L.holds t, L.origin i = some x
  | .copy d => L.copies d = some x
  | .finished i => i ∈ L.finished ∧ L.origin i = some x
  | .lost i => i ∈ L.lost ∧ L.origin i = some x

/-- An entry that was never used. -/
structure Unused (i : ι) : Prop where
  /-- It belongs to no task. -/
  origin_eq : L.origin i = none
  /-- It does not wait. -/
  not_live : i ∉ L.live
  /-- Nobody holds it. -/
  not_held : ∀ t, i ∉ L.holds t
  /-- It is not finished. -/
  not_finished : i ∉ L.finished
  /-- It is not lost. -/
  not_lost : i ∉ L.lost

/-- The moves. -/
inductive Step [DecidableEq ι] [DecidableEq τ] [DecidableEq δ] : Ledger ι τ δ → Ledger ι τ δ → Prop
  | /-- Nothing happens to tasks. -/
    refl (L : Ledger ι τ δ) : Step L L
  | /-- A task appears. -/
    produce {L : Ledger ι τ δ} {i : ι} (hi : L.Unused i) :
      Step L { L with origin := Function.update L.origin i (some i), live := insert i L.live }
  | /-- An entry is taken. -/
    take {L : Ledger ι τ δ} {t : τ} {i : ι} (hi : i ∈ L.live) :
      Step L { L with
        live := L.live \ {i}, holds := Function.update L.holds t (insert i (L.holds t)) }
  | /-- An entry is finished. -/
    finish {L : Ledger ι τ δ} {i : ι} (hi : i ∈ L.live) :
      Step L { L with live := L.live \ {i}, finished := insert i L.finished }
  | /-- An entry is lost. -/
    lose {L : Ledger ι τ δ} {i : ι} (hi : i ∈ L.live) :
      Step L { L with live := L.live \ {i}, lost := insert i L.lost }
  | /-- A holder puts its task back as a new entry. -/
    putBack {L : Ledger ι τ δ} {t : τ} {i j : ι} (ht : L.holds t = {i}) (hj : L.Unused j) :
      Step L { L with
        origin := Function.update L.origin j (L.origin i), live := insert j L.live,
        holds := Function.update L.holds t ∅ }
  | /-- A holder stores a copy of its task. -/
    store {L : Ledger ι τ δ} {t : τ} {i : ι} {d : δ} (ht : L.holds t = {i})
      (hd : L.copies d = none) :
      Step L { L with
        copies := Function.update L.copies d (L.origin i),
        holds := Function.update L.holds t ∅ }
  | /-- Some holders are lost with what they hold. -/
    drop {L : Ledger ι τ δ} (T : Set τ) (g : τ → ι) (hT : ∀ t ∈ T, L.holds t ⊆ {g t}) :
      Step L { L with
        holds := fun t ↦ {i ∈ L.holds t | t ∉ T},
        lost := L.lost ∪ {i | ∃ t ∈ T, i ∈ L.holds t} }

/-- Every task has exactly one place. -/
structure WellFormed (L : Ledger ι τ δ) : Prop where
  /-- Tasks are named by an entry of theirs. -/
  origin_origin : ∀ i x, L.origin i = some x → L.origin x = some x
  /-- Copies are copies of tasks. -/
  origin_copy : ∀ d x, L.copies d = some x → L.origin x = some x
  /-- Every task has exactly one place. -/
  placed : ∀ x, L.origin x = some x → ∃! p, L.At x p

/-- A unique place stays unique when places are relabelled: `f` keeps all of them, and
there are no others. -/
theorem existsUnique_relabel {π : Type} {A B : π → Prop} (f : π → π) (hA : ∀ p, A p → B (f p))
    (hB : ∀ q, B q → ∃ p, A p ∧ f p = q) (h : ∃! p, A p) : ∃! q, B q := by
  obtain ⟨p, hp, huniq⟩ := h
  refine ⟨f p, hA p hp, ?_⟩
  intro q hq
  obtain ⟨p', hp', rfl⟩ := hB q hq
  rw [huniq p' hp']

/-! ## Conservation, move by move -/

section Moves

variable {L L' : Ledger ι τ δ}

/-- The rule for a move: tasks are those of before, and their places are relabelled. -/
theorem WellFormed.relabel (h : L.WellFormed) (f : Place ι τ δ → Place ι τ δ)
    (horigin : ∀ i x, L'.origin i = some x → L.origin x = some x)
    (hkeep : ∀ i x, L.origin i = some x → L'.origin i = some x)
    (hcopy : ∀ d x, L'.copies d = some x → L.origin x = some x)
    (hA : ∀ x p, L.At x p → L'.At x (f p))
    (hB : ∀ x q, L'.At x q → ∃ p, L.At x p ∧ f p = q) : L'.WellFormed where
  origin_origin i x hi := hkeep x x (horigin i x hi)
  origin_copy d x hd := hkeep x x (hcopy d x hd)
  placed x hx := existsUnique_relabel f (hA x) (hB x) (h.placed x (horigin x x hx))

theorem Unused.ne {j k x : ι} (hj : L.Unused j) (hk : L.origin k = some x) : k ≠ j := by
  rintro rfl
  simp [hj.origin_eq] at hk

section Origin

variable [DecidableEq ι] {j : ι} {v : Option ι} {k x : ι}

theorem Unused.update_of_some (hj : L.Unused j) (hk : L.origin k = some x) :
    Function.update L.origin j v k = some x := by
  rw [Function.update_of_ne (hj.ne hk), hk]

theorem update_origin_cases (hk : Function.update L.origin j v k = some x) :
    (k = j ∧ v = some x) ∨ L.origin k = some x := by
  by_cases hkj : k = j
  · subst hkj
    rw [Function.update_self] at hk
    exact .inl ⟨rfl, hk⟩
  · rw [Function.update_of_ne hkj] at hk
    exact .inr hk

/-- A new entry changes nothing for the tasks it does not belong to. -/
theorem Unused.at_iff (hj : L.Unused j) (hv : v ≠ some x) {p : Place ι τ δ} :
    At { L with origin := Function.update L.origin j v, live := insert j L.live } x p ↔
      L.At x p := by
  have hiff : ∀ k, Function.update L.origin j v k = some x ↔ L.origin k = some x := fun k ↦
    ⟨fun hk ↦ (update_origin_cases hk).resolve_left fun h ↦ hv h.2, hj.update_of_some⟩
  cases p with
  | entry k =>
    simp only [At, hiff, Set.mem_insert_iff]
    refine and_congr_left fun hk ↦ or_iff_right (hj.ne hk)
  | _ => simp only [At, hiff]

end Origin

theorem WellFormed.produce [DecidableEq ι] (h : L.WellFormed) {i : ι} (hi : L.Unused i) :
    WellFormed { L with origin := Function.update L.origin i (some i), live := insert i L.live } := by
  refine ⟨?_, ?_, ?_⟩
  · intro k x hk
    rcases update_origin_cases hk with ⟨rfl, hx⟩ | hk
    · obtain rfl := Option.some.inj hx
      exact hk
    · exact hi.update_of_some (h.origin_origin k x hk)
  · intro d x hd
    exact hi.update_of_some (h.origin_copy d x hd)
  · intro x hx
    by_cases hxi : x = i
    · -- the new task waits as its only entry
      subst hxi
      have hnone : ∀ k, L.origin k ≠ some x := fun k hk ↦ hi.ne (h.origin_origin k x hk) rfl
      have hback : ∀ {k}, Function.update L.origin x (some x) k = some x → k = x := fun hk ↦
        ((update_origin_cases hk).resolve_right (hnone _)).1
      refine ⟨.entry x, ⟨Set.mem_insert _ _, Function.update_self ..⟩, ?_⟩
      intro p hp
      cases p with
      | entry k => rw [hback hp.2]
      | holder t =>
        obtain ⟨k, hk, ho⟩ := hp
        exact absurd (hback ho ▸ hk) (hi.not_held t)
      | copy d => exact absurd (h.origin_copy d x hp) (hnone x)
      | finished k => exact absurd (hback hp.2 ▸ hp.1) hi.not_finished
      | lost k => exact absurd (hback hp.2 ▸ hp.1) hi.not_lost
    · -- the others stay where they are
      have hx' : L.origin x = some x :=
        (update_origin_cases hx).resolve_left fun h ↦ hxi h.1
      have hv : some i ≠ some x := fun h ↦ hxi (Option.some.inj h).symm
      obtain ⟨p, hp, huniq⟩ := h.placed x hx'
      exact ⟨p, (hi.at_iff hv).2 hp, fun q hq ↦ huniq q ((hi.at_iff hv).1 hq)⟩

/-- An entry that waits goes to another place. -/
theorem WellFormed.leave [DecidableEq ι] (h : L.WellFormed) {i : ι} {q : Place ι τ δ}
    (hlive : L'.live = L.live \ {i}) (horigin : L'.origin = L.origin)
    (hcopies : L'.copies = L.copies) (hq : ∀ x, L.At x (.entry i) → L'.At x q)
    (hsame : ∀ x p, (∀ j, p ≠ .entry j) → L.At x p → L'.At x p)
    (hother : ∀ x p, (∀ j, p ≠ .entry j) → L'.At x p → L.At x p ∨ (p = q ∧ L.At x (.entry i))) :
    L'.WellFormed := by
  refine h.relabel (fun p ↦ match p with
    | .entry j => if j = i then q else .entry j
    | p => p) ?_ ?_ ?_ ?_ ?_
  · rw [horigin]
    exact h.origin_origin
  · rw [horigin]
    exact fun _ _ ↦ id
  · rw [hcopies]
    exact h.origin_copy
  · intro x p hp
    cases p with
    | entry j =>
      by_cases hj : j = i
      · subst hj
        simpa using hq x hp
      · simp only [hj, if_false]
        refine ⟨?_, by rw [horigin]; exact hp.2⟩
        rw [hlive]
        exact ⟨hp.1, hj⟩
    | _ => exact hsame x _ (by simp) hp
  · intro x p hp
    cases p with
    | entry j =>
      have hj := hp.1
      rw [hlive] at hj
      refine ⟨.entry j, ⟨hj.1, by rw [← horigin]; exact hp.2⟩, ?_⟩
      simp only [show j ≠ i from hj.2, if_false]
    | _ =>
      rcases hother x _ (by simp) hp with hold | ⟨rfl, hold⟩
      · exact ⟨_, hold, rfl⟩
      · exact ⟨.entry i, hold, by simp⟩

theorem WellFormed.putBack [DecidableEq ι] [DecidableEq τ] (h : L.WellFormed) {t : τ} {i j : ι}
    (ht : L.holds t = {i}) (hj : L.Unused j) :
    WellFormed { L with
      origin := Function.update L.origin j (L.origin i), live := insert j L.live,
      holds := Function.update L.holds t ∅ } := by
  have hback : ∀ {k x}, k ≠ j → Function.update L.origin j (L.origin i) k = some x →
      L.origin k = some x := fun hk ho ↦ (update_origin_cases ho).resolve_left fun h ↦ hk h.1
  refine h.relabel (fun p ↦ match p with
    | .holder u => if u = t then .entry j else .holder u
    | p => p) ?_ ?_ h.origin_copy ?_ ?_
  · intro k x hk
    rcases update_origin_cases hk with ⟨-, hx⟩ | hk
    · exact h.origin_origin i x hx
    · exact h.origin_origin k x hk
  · exact fun k x hk ↦ hj.update_of_some hk
  · intro x p hp
    cases p with
    | entry k => exact ⟨Set.mem_insert_of_mem _ hp.1, hj.update_of_some hp.2⟩
    | holder u =>
      obtain ⟨k, hk, ho⟩ := hp
      by_cases hu : u = t
      · subst hu
        obtain rfl : k = i := by simpa [ht] using hk
        simp only [if_true]
        exact ⟨Set.mem_insert _ _, (Function.update_self ..).trans ho⟩
      · simp only [hu, if_false]
        exact ⟨k, by simpa [Function.update_of_ne hu] using hk, hj.update_of_some ho⟩
    | copy d => exact hp
    | finished k => exact ⟨hp.1, hj.update_of_some hp.2⟩
    | lost k => exact ⟨hp.1, hj.update_of_some hp.2⟩
  · intro x p hp
    cases p with
    | entry k =>
      rcases Set.mem_insert_iff.1 hp.1 with rfl | hk
      · -- the new entry was held before
        have ho : L.origin i = some x := by simpa using hp.2
        exact ⟨.holder t, ⟨i, by simp [ht], ho⟩, by simp⟩
      · exact ⟨.entry k, ⟨hk, hback (fun hkj ↦ hj.not_live (hkj ▸ hk)) hp.2⟩, rfl⟩
    | holder u =>
      obtain ⟨k, hk, ho⟩ := hp
      have hu : u ≠ t := by
        rintro rfl
        simp at hk
      have hk' : k ∈ L.holds u := by simpa [Function.update_of_ne hu] using hk
      exact ⟨.holder u, ⟨k, hk', hback (fun hkj ↦ hj.not_held u (hkj ▸ hk')) ho⟩, by simp [hu]⟩
    | copy d => exact ⟨.copy d, hp, rfl⟩
    | finished k =>
      exact ⟨.finished k, ⟨hp.1, hback (fun hkj ↦ hj.not_finished (hkj ▸ hp.1)) hp.2⟩, rfl⟩
    | lost k => exact ⟨.lost k, ⟨hp.1, hback (fun hkj ↦ hj.not_lost (hkj ▸ hp.1)) hp.2⟩, rfl⟩

theorem WellFormed.store [DecidableEq τ] [DecidableEq δ] (h : L.WellFormed) {t : τ} {i : ι}
    {d : δ} (ht : L.holds t = {i}) (hd : L.copies d = none) :
    WellFormed { L with
      copies := Function.update L.copies d (L.origin i),
      holds := Function.update L.holds t ∅ } := by
  have hne : ∀ {d' x}, L.copies d' = some x → d' ≠ d := by
    rintro d' x hd' rfl
    simp [hd] at hd'
  refine h.relabel (fun p ↦ match p with
    | .holder u => if u = t then .copy d else .holder u
    | p => p) h.origin_origin (fun _ _ ↦ id) ?_ ?_ ?_
  · intro d' x hd'
    by_cases hdd : d' = d
    · subst hdd
      exact h.origin_origin i x (by simpa using hd')
    · exact h.origin_copy d' x (by simpa [Function.update_of_ne hdd] using hd')
  · intro x p hp
    cases p with
    | holder u =>
      obtain ⟨k, hk, ho⟩ := hp
      by_cases hu : u = t
      · subst hu
        obtain rfl : k = i := by simpa [ht] using hk
        simpa [At] using ho
      · simp only [hu, if_false]
        exact ⟨k, by simpa [Function.update_of_ne hu] using hk, ho⟩
    | copy d' => simpa [At, Function.update_of_ne (hne hp)] using hp
    | _ => exact hp
  · intro x p hp
    cases p with
    | holder u =>
      obtain ⟨k, hk, ho⟩ := hp
      have hu : u ≠ t := by
        rintro rfl
        simp at hk
      exact ⟨.holder u, ⟨k, by simpa [Function.update_of_ne hu] using hk, ho⟩, by simp [hu]⟩
    | copy d' =>
      by_cases hdd : d' = d
      · subst hdd
        have ho : L.origin i = some x := by simpa [At] using hp
        exact ⟨.holder t, ⟨i, by simp [ht], ho⟩, by simp⟩
      · exact ⟨.copy d', by simpa [At, Function.update_of_ne hdd] using hp, rfl⟩
    | entry k => exact ⟨.entry k, hp, rfl⟩
    | finished k => exact ⟨.finished k, hp, rfl⟩
    | lost k => exact ⟨.lost k, hp, rfl⟩

theorem WellFormed.drop (h : L.WellFormed) (T : Set τ) (g : τ → ι)
    (hT : ∀ t ∈ T, L.holds t ⊆ {g t}) :
    WellFormed { L with
      holds := fun t ↦ {i ∈ L.holds t | t ∉ T},
      lost := L.lost ∪ {i | ∃ t ∈ T, i ∈ L.holds t} } := by
  classical
  refine h.relabel (fun p ↦ match p with
    | .holder t => if t ∈ T then .lost (g t) else .holder t
    | p => p) h.origin_origin (fun _ _ ↦ id) h.origin_copy ?_ ?_
  · intro x p hp
    cases p with
    | holder t =>
      obtain ⟨i, hi, ho⟩ := hp
      by_cases ht : t ∈ T
      · obtain rfl : i = g t := by simpa using hT t ht hi
        simp only [ht, if_true]
        exact ⟨.inr ⟨t, ht, hi⟩, ho⟩
      · simp only [ht, if_false]
        exact ⟨i, ⟨hi, ht⟩, ho⟩
    | lost i => exact ⟨.inl hp.1, hp.2⟩
    | _ => exact hp
  · intro x p hp
    cases p with
    | holder t =>
      obtain ⟨i, ⟨hi, ht⟩, ho⟩ := hp
      exact ⟨.holder t, ⟨i, hi, ho⟩, by simp [ht]⟩
    | lost i =>
      rcases hp with ⟨hi | ⟨t, ht, hi⟩, ho⟩
      · exact ⟨.lost i, ⟨hi, ho⟩, rfl⟩
      · obtain rfl : i = g t := by simpa using hT t ht hi
        exact ⟨.holder t, ⟨_, hi, ho⟩, by simp [ht]⟩
    | entry i => exact ⟨.entry i, hp, rfl⟩
    | copy d => exact ⟨.copy d, hp, rfl⟩
    | finished i => exact ⟨.finished i, hp, rfl⟩

/-- **Conservation.**  Every move keeps every task in exactly one place. -/
theorem Step.wellFormed [DecidableEq ι] [DecidableEq τ] [DecidableEq δ] (hs : Step L L')
    (h : L.WellFormed) : L'.WellFormed := by
  cases hs with
  | refl => exact h
  | produce hi => exact h.produce hi
  | putBack ht hj => exact h.putBack ht hj
  | store ht hd => exact h.store ht hd
  | drop T g hT => exact h.drop T g hT
  | @take t i hi =>
    refine h.leave (i := i) (q := .holder t) rfl rfl rfl ?_ ?_ ?_
    · intro x hx
      exact ⟨i, by simp, hx.2⟩
    · intro x p hp hx
      cases p with
      | entry j => exact absurd rfl (hp j)
      | holder u =>
        obtain ⟨j, hj, ho⟩ := hx
        by_cases hu : u = t
        · subst hu
          exact ⟨j, by simp [hj], ho⟩
        · exact ⟨j, by simpa [Function.update_of_ne hu] using hj, ho⟩
      | _ => exact hx
    · intro x p hp hx
      cases p with
      | entry j => exact absurd rfl (hp j)
      | holder u =>
        obtain ⟨j, hj, ho⟩ := hx
        by_cases hu : u = t
        · subst hu
          rcases (by simpa using hj : j = i ∨ j ∈ L.holds u) with rfl | hj
          · exact .inr ⟨rfl, hi, ho⟩
          · exact .inl ⟨j, hj, ho⟩
        · exact .inl ⟨j, by simpa [Function.update_of_ne hu] using hj, ho⟩
      | _ => exact .inl hx
  | @finish i hi =>
    refine h.leave (i := i) (q := .finished i) rfl rfl rfl ?_ ?_ ?_
    · intro x hx
      exact ⟨Set.mem_insert _ _, hx.2⟩
    · intro x p hp hx
      cases p with
      | entry j => exact absurd rfl (hp j)
      | finished j => exact ⟨Set.mem_insert_of_mem _ hx.1, hx.2⟩
      | _ => exact hx
    · intro x p hp hx
      cases p with
      | entry j => exact absurd rfl (hp j)
      | finished j =>
        rcases Set.mem_insert_iff.1 hx.1 with rfl | hj
        · exact .inr ⟨rfl, hi, hx.2⟩
        · exact .inl ⟨hj, hx.2⟩
      | _ => exact .inl hx
  | @lose i hi =>
    refine h.leave (i := i) (q := .lost i) rfl rfl rfl ?_ ?_ ?_
    · intro x hx
      exact ⟨Set.mem_insert _ _, hx.2⟩
    · intro x p hp hx
      cases p with
      | entry j => exact absurd rfl (hp j)
      | lost j => exact ⟨Set.mem_insert_of_mem _ hx.1, hx.2⟩
      | _ => exact hx
    · intro x p hp hx
      cases p with
      | entry j => exact absurd rfl (hp j)
      | lost j =>
        rcases Set.mem_insert_iff.1 hx.1 with rfl | hj
        · exact .inr ⟨rfl, hi, hx.2⟩
        · exact .inl ⟨hj, hx.2⟩
      | _ => exact .inl hx

end Moves

end Ledger

end RedisStreamClient.Lib

import Mathlib.Order.Defs.LinearOrder
import Mathlib.Data.List.Basic
import Mathlib.Data.List.Sort

/-!
# Ordered logs

A `Log κ α` is a list of keyed entries in increasing key order together with the
highest key it ever held, `top`.  New keys go at the end and lie above `top`;
entries may be removed anywhere, but a removed key never comes back.  Order and
bound are fields, so that every log there is has them.
-/

namespace RedisStreamClient.Lib

variable {κ α β : Type} [LinearOrder κ]

/-- A list of keyed entries in increasing key order, none above `top`. -/
structure Log (κ α : Type) [LinearOrder κ] where
  /-- The entries. -/
  entries : List (κ × α)
  /-- The highest key ever held. -/
  top : κ
  /-- The entries are in increasing key order. -/
  sorted : entries.Pairwise fun a b ↦ a.1 < b.1
  /-- No entry lies above `top`. -/
  le_top : ∀ e ∈ entries, e.1 ≤ top

namespace Log

/-- The log that never held an entry above `k`, and holds none. -/
def empty (k : κ) : Log κ α := ⟨[], k, .nil, by simp⟩

instance instMembership : Membership κ (Log κ α) := ⟨fun l k ↦ ∃ v, (k, v) ∈ l.entries⟩

variable {l : Log κ α} {k k' : κ} {v v' : α}

theorem mem_def : k ∈ l ↔ ∃ v, (k, v) ∈ l.entries := Iff.rfl

@[simp] theorem not_mem_empty : k' ∉ (empty k : Log κ α) := by simp [mem_def, empty]

theorem le_top_of_mem (h : k ∈ l) : k ≤ l.top := by
  obtain ⟨v, hv⟩ := h
  exact l.le_top _ hv

/-- The entry under a key. -/
def lookup (l : Log κ α) (k : κ) : Option α := (l.entries.find? fun e ↦ e.1 = k).map Prod.snd

/-- Keys are unique. -/
theorem val_unique (h : (k, v) ∈ l.entries) (h' : (k, v') ∈ l.entries) : v = v' := by
  have hp := l.sorted
  rw [List.pairwise_iff_getElem] at hp
  obtain ⟨i, hi, hie⟩ := List.getElem_of_mem h
  obtain ⟨j, hj, hje⟩ := List.getElem_of_mem h'
  rcases lt_trichotomy i j with hij | rfl | hij
  · have := hp i j hi hj hij
    rw [hie, hje] at this
    exact absurd this (lt_irrefl _)
  · rw [hie] at hje
    exact congrArg Prod.snd hje
  · have := hp j i hj hi hij
    rw [hie, hje] at this
    exact absurd this (lt_irrefl _)

theorem lookup_eq_some_iff : l.lookup k = some v ↔ (k, v) ∈ l.entries := by
  constructor
  · intro h
    obtain ⟨e, he, rfl⟩ := Option.map_eq_some_iff.1 h
    have hk : e.1 = k := by simpa using List.find?_some he
    have hm := List.mem_of_find?_eq_some he
    rwa [← hk]
  · intro h
    cases hf : l.entries.find? fun e ↦ e.1 = k with
    | none =>
      have := List.find?_eq_none.1 hf _ h
      simp at this
    | some e =>
      have hk : e.1 = k := by simpa using List.find?_some hf
      have hm : (k, e.2) ∈ l.entries := by
        rw [← hk]; exact List.mem_of_find?_eq_some hf
      simp [lookup, hf, val_unique h hm]

/-- A log has at most one entry under a key. -/
theorem filter_key (l : Log κ α) (k : κ) :
    l.entries.filter (fun e ↦ decide (e.1 = k)) = (l.lookup k).toList.map fun v ↦ (k, v) := by
  rw [lookup]
  have hsorted := l.sorted
  revert hsorted
  generalize l.entries = es
  intro hsorted
  induction es with
  | nil => rfl
  | cons e es ih =>
    obtain ⟨hlt, htail⟩ := List.pairwise_cons.1 hsorted
    by_cases hk : e.1 = k
    · subst hk
      have hnone : es.filter (fun d ↦ decide (d.1 = e.1)) = [] := by
        rw [List.filter_eq_nil_iff]
        intro d hd heq
        exact absurd (hlt d hd) (by rw [of_decide_eq_true heq]; exact lt_irrefl _)
      simp [hnone]
    · simpa [hk] using ih htail

theorem mem_iff_lookup : k ∈ l ↔ ∃ v, l.lookup k = some v := by
  simp only [mem_def, lookup_eq_some_iff]

theorem lookup_eq_none_iff : l.lookup k = none ↔ k ∉ l := by
  rw [mem_iff_lookup, Option.eq_none_iff_forall_ne_some]
  simp

instance instDecidableMem (k : κ) (l : Log κ α) : Decidable (k ∈ l) :=
  decidable_of_iff ((l.lookup k).isSome = true) (by rw [mem_iff_lookup, Option.isSome_iff_exists])

/-! ## Adding at the end -/

/-- Add one entry above all keys so far. -/
def push (l : Log κ α) (k : κ) (v : α) (h : l.top < k) : Log κ α where
  entries := l.entries ++ [(k, v)]
  top := k
  sorted := by
    rw [List.pairwise_append]
    refine ⟨l.sorted, List.pairwise_singleton _ _, ?_⟩
    intro a ha b hb
    rw [List.mem_singleton] at hb
    subst hb
    exact lt_of_le_of_lt (l.le_top a ha) h
  le_top := by
    intro e he
    rcases List.mem_append.1 he with he | he
    · exact (lt_of_le_of_lt (l.le_top e he) h).le
    · rw [List.mem_singleton] at he
      subst he
      exact le_rfl

section Push

variable (h : l.top < k)

@[simp] theorem top_push : (l.push k v h).top = k := rfl

@[simp] theorem mem_push : k' ∈ l.push k v h ↔ k' ∈ l ∨ k' = k := by
  simp only [mem_def, push, List.mem_append, List.mem_singleton, Prod.mk.injEq]
  constructor
  · rintro ⟨w, hw | ⟨rfl, rfl⟩⟩
    · exact .inl ⟨w, hw⟩
    · exact .inr rfl
  · rintro (⟨w, hw⟩ | rfl)
    · exact ⟨w, .inl hw⟩
    · exact ⟨v, .inr ⟨rfl, rfl⟩⟩

theorem lookup_push_self : (l.push k v h).lookup k = some v :=
  lookup_eq_some_iff.2 (by simp [push])

theorem lookup_push_of_ne (hne : k' ≠ k) : (l.push k v h).lookup k' = l.lookup k' := by
  simp [lookup, push, List.find?_append, hne.symm]

end Push

/-- Add a list of entries above all keys so far. -/
def append (l : Log κ α) (es : List (κ × α)) (hs : es.Pairwise fun a b ↦ a.1 < b.1)
    (ht : ∀ e ∈ es, l.top < e.1) : Log κ α where
  entries := l.entries ++ es
  top := (es.getLast?.map Prod.fst).getD l.top
  sorted := List.pairwise_append.2
    ⟨l.sorted, hs, fun a ha b hb ↦ lt_of_le_of_lt (l.le_top a ha) (ht b hb)⟩
  le_top := by
    intro e he
    cases hl : es.getLast? with
    | none =>
      rw [List.getLast?_eq_none_iff] at hl
      subst hl
      simpa using l.le_top e (by simpa using he)
    | some z =>
      simp only [Option.map_some, Option.getD_some]
      have hz : z ∈ es := List.mem_of_getLast? hl
      rcases List.mem_append.1 he with he | he
      · exact (lt_of_le_of_lt (l.le_top e he) (ht z hz)).le
      · obtain ⟨ys, rfl⟩ := List.getLast?_eq_some_iff.1 hl
        rcases List.mem_append.1 he with he | he
        · exact ((List.pairwise_append.1 hs).2.2 e he z (by simp)).le
        · rw [List.mem_singleton.1 he]

section Append

variable {es : List (κ × α)} {hs : es.Pairwise fun a b ↦ a.1 < b.1}
  {ht : ∀ e ∈ es, l.top < e.1}

theorem mem_append : k ∈ l.append es hs ht ↔ k ∈ l ∨ ∃ v, (k, v) ∈ es := by
  simp only [mem_def, append, List.mem_append, exists_or]

theorem le_top_append : l.top ≤ (l.append es hs ht).top := by
  simp only [append]
  cases hl : es.getLast? with
  | none => simp
  | some z => simpa using (ht z (List.mem_of_getLast? hl)).le

theorem le_top_append_of_mem (h : (k, v) ∈ es) : k ≤ (l.append es hs ht).top :=
  le_top_of_mem (mem_append.2 (.inr ⟨v, h⟩))

/-- The new `top` is no higher than it has to be. -/
theorem top_append_le {b : κ} (hl : l.top ≤ b) (hes : ∀ e ∈ es, e.1 ≤ b) :
    (l.append es hs ht).top ≤ b := by
  simp only [append]
  cases hlast : es.getLast? with
  | none => simpa using hl
  | some z => simpa using hes z (List.mem_of_getLast? hlast)

end Append

/-! ## Removing -/

/-- Remove the entries that a test rejects. -/
def filter (l : Log κ α) (p : κ → Bool) : Log κ α where
  entries := l.entries.filter fun e ↦ p e.1
  top := l.top
  sorted := l.sorted.filter _
  le_top := fun e he ↦ l.le_top e (List.mem_of_mem_filter he)

@[simp] theorem top_filter {p : κ → Bool} : (l.filter p).top = l.top := rfl

@[simp] theorem mem_filter {p : κ → Bool} : k ∈ l.filter p ↔ k ∈ l ∧ p k = true := by
  simp only [mem_def, filter, List.mem_filter]
  constructor
  · rintro ⟨v, hv, hp⟩
    exact ⟨⟨v, hv⟩, hp⟩
  · rintro ⟨⟨v, hv⟩, hp⟩
    exact ⟨v, hv, hp⟩

theorem lookup_filter {p : κ → Bool} (hk : p k = true) : (l.filter p).lookup k = l.lookup k := by
  refine Option.ext fun w ↦ ?_
  rw [lookup_eq_some_iff, lookup_eq_some_iff, filter, List.mem_filter]
  exact and_iff_left hk

/-- Remove one key. -/
def erase (l : Log κ α) (k : κ) : Log κ α := l.filter fun k' ↦ k' ≠ k

@[simp] theorem top_erase : (l.erase k).top = l.top := rfl

@[simp] theorem mem_erase : k' ∈ l.erase k ↔ k' ∈ l ∧ k' ≠ k := by simp [erase]

/-- Removing a key takes its one entry out of the list. -/
theorem entries_erase {p q : List (κ × α)} (h : l.entries = p ++ (k, v) :: q) :
    (l.erase k).entries = p ++ q := by
  have hsorted := l.sorted
  rw [h, List.pairwise_append, List.pairwise_cons] at hsorted
  obtain ⟨-, ⟨hq, -⟩, hp⟩ := hsorted
  show l.entries.filter (fun e ↦ decide (e.1 ≠ k)) = p ++ q
  have hpk : p.filter (fun e ↦ decide (e.1 ≠ k)) = p := by
    rw [List.filter_eq_self]
    intro e he
    simpa using (hp e he _ List.mem_cons_self).ne
  have hqk : q.filter (fun e ↦ decide (e.1 ≠ k)) = q := by
    rw [List.filter_eq_self]
    intro e he
    simpa using (hq e he).ne'
  rw [h, List.filter_append, hpk, List.filter_cons_of_neg (by simp), hqk]

theorem lookup_of_lookup_erase (h : (l.erase k).lookup k' = some v) : l.lookup k' = some v := by
  rw [lookup_eq_some_iff] at h ⊢
  exact List.mem_of_mem_filter h

theorem lookup_erase_of_ne (hne : k' ≠ k) : (l.erase k).lookup k' = l.lookup k' :=
  lookup_filter (by simpa using hne)

/-- Remove the `n` oldest entries. -/
def drop (l : Log κ α) (n : Nat) : Log κ α where
  entries := l.entries.drop n
  top := l.top
  sorted := l.sorted.drop
  le_top := fun e he ↦ l.le_top e (List.mem_of_mem_drop he)

@[simp] theorem top_drop {n : Nat} : (l.drop n).top = l.top := rfl

@[simp] theorem drop_zero : l.drop 0 = l := rfl

/-! ## What becomes of a log -/

/-- `l'` is what became of `l`: entries were removed, and others added above its `top`. -/
structure Succeeds (l l' : Log κ α) : Prop where
  /-- The highest key ever held does not go down. -/
  top_le : l.top ≤ l'.top
  /-- Below it nothing is new. -/
  old : ∀ e ∈ l'.entries, e.1 ≤ l.top → e ∈ l.entries

namespace Succeeds

variable {l' : Log κ α}

theorem refl (l : Log κ α) : l.Succeeds l := ⟨le_rfl, fun _ he _ ↦ he⟩

theorem erase : l.Succeeds (l.erase k) := ⟨le_rfl, fun _ he _ ↦ List.mem_of_mem_filter he⟩

theorem append {es : List (κ × α)} {hs : es.Pairwise fun a b ↦ a.1 < b.1}
    {ht : ∀ e ∈ es, l.top < e.1} : l.Succeeds (l.append es hs ht) := by
  refine ⟨le_top_append, fun e he hle ↦ ?_⟩
  rcases List.mem_append.1 he with he | he
  · exact he
  · exact absurd (ht e he) hle.not_gt

/-- A key that was removed does not come back. -/
theorem mem (h : l.Succeeds l') (hk : k ≤ l.top) (hmem : k ∈ l') : k ∈ l := by
  obtain ⟨v, hv⟩ := hmem
  exact ⟨v, h.old _ hv hk⟩

end Succeeds

/-- The entries before a key. -/
def before (l : Log κ α) (k : κ) : List (κ × α) := l.entries.filter fun e ↦ decide (e.1 < k)

/-- Nothing new gets before an old key. -/
theorem Succeeds.length_before_le {l' : Log κ α} (h : l.Succeeds l') (hk : k ≤ l.top) :
    (l'.before k).length ≤ (l.before k).length := by
  have hnodup : (l'.before k).Nodup :=
    (l'.sorted.imp fun hlt heq ↦ absurd (congrArg Prod.fst heq) hlt.ne).filter _
  refine (List.subperm_of_subset hnodup fun e he ↦ ?_).length_le
  obtain ⟨he, hlt⟩ := List.mem_filter.1 he
  exact List.mem_filter.2 ⟨h.old e he ((of_decide_eq_true hlt).le.trans hk), hlt⟩

/-- An entry with fewer than `n` entries before it is among the first `n` that pass a test, if it
passes. -/
theorem mem_take_filter {p : κ × α → Bool} {n : Nat} (hmem : (k, v) ∈ l.entries)
    (hp : p (k, v) = true) (hn : (l.before k).length < n) :
    (k, v) ∈ (l.entries.filter p).take n := by
  obtain ⟨ys, zs, hsplit⟩ := List.append_of_mem (List.mem_filter.2 ⟨hmem, hp⟩)
  have hsorted := l.sorted.filter p
  rw [hsplit, List.pairwise_append] at hsorted
  have hbefore : ys.Sublist (l.before k) := by
    have hall : ys.filter (fun e ↦ decide (e.1 < k)) = ys := by
      rw [List.filter_eq_self]
      intro e he
      exact decide_eq_true (hsorted.2.2 e he _ List.mem_cons_self)
    rw [← hall]
    refine List.Sublist.filter _ ?_
    have hprefix : ys.Sublist (l.entries.filter p) := by
      rw [hsplit]
      exact List.sublist_append_left _ _
    exact hprefix.trans List.filter_sublist
  rw [hsplit, List.take_append]
  refine List.mem_append_right _ ?_
  obtain ⟨m, hm⟩ := Nat.exists_eq_add_of_lt (hbefore.length_le.trans_lt hn)
  rw [show n - ys.length = m + 1 by omega, List.take_succ_cons]
  exact List.mem_cons_self

end Log

end RedisStreamClient.Lib

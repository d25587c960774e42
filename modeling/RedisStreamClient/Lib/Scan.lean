import Mathlib.Data.List.TakeWhile
import Mathlib.Logic.Function.Iterate
import Mathlib.Tactic.Common

/-!
# Repeated scans of the head of a list

A scan looks at the first `b` items of a list and removes those that fail a test.  Items
that pass stay where they are, so they are looked at again by every later scan.

`clean_iterate_iff` says when scanning at least as often as the list is long removes every
item that fails: exactly when each of them has fewer than `b` items that pass before it.  With
`b` or more of them the item is never looked at.
-/

namespace RedisStreamClient.Lib

variable {α : Type} {b : Nat} {ok : α → Bool} {l : List α}

/-- Remove what fails among the first `b` items. -/
def scan (b : Nat) (ok : α → Bool) (l : List α) : List α := (l.take b).filter ok ++ l.drop b

/-- Every item that fails has fewer than `b` items that pass before it. -/
def Covered (b : Nat) (ok : α → Bool) (l : List α) : Prop :=
  ∀ p x q, l = p ++ x :: q → ok x = false → p.countP ok < b

/-- A scan removes only items that fail, so it can be split anywhere. -/
theorem scan_append (p q : List α) :
    scan b ok (p ++ q) = scan b ok p ++ scan (b - p.length) ok q := by
  rw [scan, scan, scan, List.take_append, List.drop_append, List.filter_append]
  rcases Nat.le_total b p.length with hle | hle
  · simp [Nat.sub_eq_zero_of_le hle]
  · simp [List.drop_eq_nil_of_le hle]

theorem countP_scan : (scan b ok l).countP ok = l.countP ok := by
  conv_rhs => rw [← List.take_append_drop b l]
  rw [scan, List.countP_append, List.countP_append, List.countP_filter]
  simp

/-- A scan that looks no further than the items before `x` leaves `x` and all that pass
before it. -/
theorem scan_uncovered {p q : List α} {x : α} (h : b ≤ p.countP ok) :
    ∃ p', scan b ok (p ++ x :: q) = p' ++ x :: q ∧ b ≤ p'.countP ok := by
  refine ⟨scan b ok p, ?_, by rwa [countP_scan]⟩
  have hzero : b - p.length = 0 := Nat.sub_eq_zero_of_le (Nat.le_trans h List.countP_le_length)
  rw [scan_append, hzero]
  simp [scan]

/-- What is not covered is never removed. -/
theorem iterate_uncovered {p q : List α} {x : α} (h : b ≤ p.countP ok) (n : Nat) :
    x ∈ (scan b ok)^[n] (p ++ x :: q) := by
  induction n generalizing p with
  | zero => simp
  | succ n ih =>
    obtain ⟨p', heq, h'⟩ := scan_uncovered (x := x) (q := q) h
    rw [Function.iterate_succ_apply, heq]
    exact ih h'

theorem Covered.scan (h : Covered b ok l) : Covered b ok (scan b ok l) := by
  intro p x q heq hx
  -- the part of `l` that `p` came from
  have hsub : ∃ p' q', l = p' ++ x :: q' ∧ p'.countP ok = p.countP ok := by
    have hmem : x ∉ (l.take b).filter ok := by
      intro hm
      simp [(List.mem_filter.1 hm).2] at hx
    rw [Lib.scan] at heq
    rcases List.append_eq_append_iff.1 heq with ⟨d, rfl, hd⟩ | ⟨d, hd, hdrop⟩
    · refine ⟨l.take b ++ d, q, ?_, ?_⟩
      · rw [List.append_assoc, ← hd, List.take_append_drop]
      · simp [List.countP_append, List.countP_filter]
    · cases d with
      | nil =>
        refine ⟨l.take b, q, ?_, ?_⟩
        · rw [← List.nil_append (x :: q), hdrop]
          exact (List.take_append_drop b l).symm
        · rw [List.append_nil] at hd
          rw [← hd]
          simp [List.countP_filter]
      | cons y d =>
        obtain ⟨rfl, -⟩ := List.cons.inj hdrop
        exact absurd (by rw [hd]; simp) hmem
  obtain ⟨p', q', hl, hcount⟩ := hsub
  rw [← hcount]
  exact h p' x q' hl hx

theorem countP_not_scan_le (b : Nat) (ok : α → Bool) (l : List α) :
    (Lib.scan b ok l).countP (!ok ·) ≤ l.countP (!ok ·) := by
  conv_rhs => rw [← List.take_append_drop b l]
  rw [Lib.scan, List.countP_append, List.countP_append]
  exact Nat.add_le_add_right (List.Sublist.countP_le List.filter_sublist) _

/-- What fails can be found behind items that pass. -/
theorem exists_first_failing {x : α} (hx : x ∈ l) (hf : ok x = false) :
    ∃ p y q, l = p ++ y :: q ∧ (∀ z ∈ p, ok z = true) ∧ ok y = false := by
  have hsplit := List.takeWhile_append_dropWhile (p := ok) (l := l)
  have hhead := List.head?_dropWhile_not ok l
  cases hd : l.dropWhile ok with
  | nil =>
    have hall := List.dropWhile_eq_nil_iff.1 hd x hx
    simp [hf] at hall
  | cons y q =>
    rw [hd] at hsplit hhead
    exact ⟨l.takeWhile ok, y, q, hsplit.symm, fun z hz ↦ List.mem_takeWhile_imp hz, hhead⟩

/-- While something fails, a scan of a covered list removes some of it. -/
theorem Covered.countP_lt (h : Covered b ok l) {x : α} (hx : x ∈ l) (hf : ok x = false) :
    (Lib.scan b ok l).countP (!ok ·) < l.countP (!ok ·) := by
  obtain ⟨p, y, q, rfl, hp, hy⟩ := exists_first_failing hx hf
  have hlen : p.length < b := by
    have hcount := h p y q rfl hy
    rwa [List.countP_eq_length.2 hp] at hcount
  obtain ⟨k, hk⟩ : ∃ k, b - p.length = k + 1 := ⟨b - p.length - 1, by omega⟩
  have hcons : Lib.scan (k + 1) ok (y :: q) = Lib.scan k ok q := by
    simp [Lib.scan, hy]
  rw [scan_append, hk, hcons, List.countP_append, List.countP_append,
    List.countP_cons_of_pos (by simp [hy])]
  have hleft := countP_not_scan_le b ok p
  have hright := countP_not_scan_le k ok q
  omega

/-- As many scans as items fail remove all of them from a covered list. -/
theorem Covered.iterate {n : Nat} (h : Covered b ok l) (hn : l.countP (!ok ·) ≤ n) :
    ∀ x ∈ (Lib.scan b ok)^[n] l, ok x = true := by
  induction n generalizing l with
  | zero =>
    intro x hx
    have hnone := List.countP_eq_zero.1 (Nat.le_zero.1 hn) x hx
    simpa using hnone
  | succ n ih =>
    rw [Function.iterate_succ_apply]
    apply ih h.scan
    by_cases hx : ∃ x ∈ l, ok x = false
    · obtain ⟨x, hx, hf⟩ := hx
      have := h.countP_lt hx hf
      omega
    · have hzero : l.countP (!ok ·) = 0 := by
        rw [List.countP_eq_zero]
        intro x hxl hf
        exact hx ⟨x, hxl, by simpa using hf⟩
      have := countP_not_scan_le b ok l
      omega

/-- **When repeated scans clean a list.** -/
theorem clean_iterate_iff {n : Nat} (hn : l.length ≤ n) :
    (∀ x ∈ (scan b ok)^[n] l, ok x = true) ↔ Covered b ok l := by
  constructor
  · intro hclean p x q hl hx
    by_contra hlt
    subst hl
    have hmem := hclean x (iterate_uncovered (Nat.le_of_not_lt hlt) _)
    simp [hx] at hmem
  · intro h
    exact h.iterate (Nat.le_trans List.countP_le_length hn)

end RedisStreamClient.Lib

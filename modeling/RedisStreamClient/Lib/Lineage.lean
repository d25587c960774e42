import Mathlib.Order.WellFounded

/-!
# Lineages

Things that are replaced by later ones: `parent` gives what a thing replaces, if
anything.  A `Lineage` on a set says that replacing goes upwards and stays in the set,
that nothing is replaced twice, and that one member replaces nothing.  Then its members
form one line: of any two of them, the earlier one was replaced (`Lineage.exists_child`).
-/

namespace RedisStreamClient.Lib

variable {ι : Type} {parent : ι → Option ι}

/-- The set is one line of replacements. -/
structure Lineage [LT ι] (parent : ι → Option ι) (s : Set ι) : Prop where
  /-- A thing is later than what it replaces. -/
  parent_lt : ∀ i j, parent j = some i → i < j
  /-- What a member replaces is a member. -/
  parent_mem : ∀ i j, parent j = some i → j ∈ s → i ∈ s
  /-- Nothing is replaced twice. -/
  parent_unique : ∀ i j k, parent j = some i → parent k = some i → j = k
  /-- Only one member replaces nothing. -/
  root_unique : ∀ i ∈ s, ∀ j ∈ s, parent i = none → parent j = none → i = j

namespace Lineage

variable [LinearOrder ι] [WellFoundedLT ι] {s : Set ι}

/-- Every member is at or above one that replaces nothing. -/
theorem exists_root (h : Lineage parent s) {i : ι} (hi : i ∈ s) :
    ∃ r ∈ s, r ≤ i ∧ parent r = none := by
  induction i using WellFoundedLT.induction with
  | ind i ih =>
    cases hp : parent i with
    | none => exact ⟨i, hi, le_rfl, hp⟩
    | some k =>
      have hlt := h.parent_lt k i hp
      obtain ⟨r, hr, hle, hroot⟩ := ih k hlt (h.parent_mem k i hp hi)
      exact ⟨r, hr, hle.trans hlt.le, hroot⟩

/-- **Of two members the earlier one was replaced**, by one no later than the other. -/
theorem exists_child (h : Lineage parent s) {i j : ι} (hi : i ∈ s) (hj : j ∈ s) (hlt : i < j) :
    ∃ k ≤ j, parent k = some i := by
  induction j using WellFoundedLT.induction generalizing i with
  | ind j ih =>
    cases hp : parent j with
    | none =>
      -- the root is below everything
      obtain ⟨r, hr, hle, hroot⟩ := h.exists_root hi
      obtain rfl := h.root_unique r hr j hj hroot hp
      exact absurd hlt hle.not_gt
    | some k =>
      have hk := h.parent_mem k j hp hj
      have hkj := h.parent_lt k j hp
      rcases lt_trichotomy i k with hik | rfl | hki
      · obtain ⟨l, hl, hpl⟩ := ih k hkj hi hk hik
        exact ⟨l, hl.trans hkj.le, hpl⟩
      · exact ⟨j, le_rfl, hp⟩
      · -- then `k` was replaced by something up to `i`, but it was replaced by `j`
        obtain ⟨l, hl, hpl⟩ := ih i hlt hk hi hki
        obtain rfl := h.parent_unique k l j hpl hp
        exact absurd hlt hl.not_gt

end Lineage

end RedisStreamClient.Lib

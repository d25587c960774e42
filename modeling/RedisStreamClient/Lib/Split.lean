import Mathlib.Data.List.Infix
import Mathlib.Data.Multiset.Sort
import Mathlib.Data.Nat.Find
import Mathlib.Data.String.Basic

/-!
# Splitting at a separator

`split sep l` cuts a list at the occurrences of a separator, from the left, as Go's
`strings.Split` does with a non-empty separator.  What it returns joins to the list and
does not contain the separator any more.

A separator whose first element occurs in it only there cannot overlap itself, so it is
found where a list was joined with it and nowhere else: `occurrence_unique`.

Joining with a single element is undone by splitting, so a sorted join is a canonical form
of the multiset of its parts: `intercalate_mergeSort_eq_iff`.
-/

namespace RedisStreamClient.Lib

variable {α : Type} [BEq α] [LawfulBEq α]

/-- Cut a list at the first `n` occurrences of a separator. -/
def splitUpTo (sep : List α) : Nat → List α → List (List α)
  | 0, l => [l]
  | n + 1, l =>
    match l.dropInfix? sep with
    | none => [l]
    | some (a, b) => a :: splitUpTo sep n b

/-- Cut a list at the occurrences of a separator, of which there are no more than it has
elements. -/
def split (sep l : List α) : List (List α) := splitUpTo sep l.length l

/-! ## The first occurrence -/

section DropInfix

variable {sep l a b : List α}

theorem dropInfix?_eq_some (h : l.dropInfix? sep = some (a, b)) :
    l = a ++ sep ++ b ∧ (sep ≠ [] → ¬ sep <:+: a) := by
  obtain ⟨⟨i, hl, hi⟩, hmin⟩ := List.dropInfix?_eq_some_iff.1 h
  obtain rfl := eq_of_beq hi
  refine ⟨hl, ?_⟩
  rintro hne ⟨x, y, rfl⟩
  have hlen := hmin x i (y ++ i ++ b) (by simp [hl]) BEq.rfl
  simp only [List.length_append] at hlen
  exact hne (List.length_eq_zero_iff.1 (by omega))

theorem dropInfix?_eq_none_iff : l.dropInfix? sep = none ↔ ¬ sep <:+: l := by
  constructor
  · -- the occurrence with the shortest list before it would have been found
    rintro hnone ⟨x, y, hl⟩
    have hex : ∃ n x y, x ++ sep ++ y = l ∧ x.length = n := ⟨_, x, y, hl, rfl⟩
    classical
    obtain ⟨x, y, hl, hlen⟩ := Nat.find_spec hex
    have hsome : l.dropInfix? sep = some (x, y) := by
      refine List.dropInfix?_eq_some_iff.2 ⟨⟨sep, hl.symm, BEq.rfl⟩, ?_⟩
      intro x' i' y' hl' hi'
      obtain rfl := eq_of_beq hi'
      rw [hlen]
      exact Nat.find_min' hex ⟨x', y', hl'.symm, rfl⟩
    rw [hnone] at hsome
    cases hsome
  · intro hsep
    cases h : l.dropInfix? sep with
    | none => rfl
    | some p => exact absurd ⟨p.1, p.2, (dropInfix?_eq_some h).1.symm⟩ hsep

end DropInfix

/-! ## Occurrences of a separator -/

section Occurrence

variable {β : Type} {c : β} {t a b x y d : List β}

/-- An occurrence of `c` after a list without it comes after that list. -/
theorem exists_of_append_eq (hc : c ∉ t) (h : t ++ x = d ++ c :: y) :
    ∃ e, d = t ++ e ∧ x = e ++ c :: y := by
  rcases List.append_eq_append_iff.1 h with ⟨e, rfl, he⟩ | ⟨e, rfl, he⟩
  · exact ⟨e, rfl, he⟩
  · cases e with
    | nil => exact ⟨[], by simp, by simpa using he.symm⟩
    | cons k e =>
      obtain ⟨rfl, -⟩ := List.cons.inj he
      exact absurd (by simp) hc

/-- What follows the last occurrence of `c` is determined. -/
theorem append_cons_inj (hx : c ∉ x) (hy : c ∉ y)
    (h : a ++ c :: x = b ++ c :: y) : a = b ∧ x = y := by
  rcases List.append_eq_append_iff.1 h with ⟨d, rfl, hd⟩ | ⟨d, rfl, hd⟩
  · cases d with
    | nil => simpa using hd
    | cons k d => exact absurd (by simp [(List.cons.inj hd).2]) hx
  · cases d with
    | nil => simpa [eq_comm] using hd
    | cons k d => exact absurd (by simp [(List.cons.inj hd).2]) hy

/-- Two occurrences of the separator, one of them earlier: it is in what comes before the
other one. -/
theorem exists_of_occurrences (hc : c ∉ t) (hd : d ≠ [])
    (h : c :: t ++ x = d ++ (c :: t ++ y)) : ∃ e, d = c :: t ++ e ∧ x = e ++ (c :: t ++ y) := by
  cases d with
  | nil => exact absurd rfl hd
  | cons k d =>
    obtain ⟨rfl, htail⟩ := List.cons.inj h
    obtain ⟨e, rfl, rfl⟩ := exists_of_append_eq hc htail
    exact ⟨e, rfl, rfl⟩

/-- **Joined from two lists without the separator, a list has it once.** -/
theorem occurrence_unique (hc : c ∉ t) (ha : ¬ (c :: t) <:+: a) (hb : ¬ (c :: t) <:+: b)
    (h : x ++ (c :: t ++ y) = a ++ (c :: t ++ b)) : x = a ∧ y = b := by
  rcases List.append_eq_append_iff.1 h with ⟨d, rfl, hd⟩ | ⟨d, rfl, hd⟩
  · by_cases hne : d = []
    · subst hne
      simpa using hd
    · obtain ⟨e, rfl, -⟩ := exists_of_occurrences hc hne hd
      exact absurd ⟨x, e, by simp⟩ ha
  · by_cases hne : d = []
    · subst hne
      simpa [eq_comm] using hd
    · obtain ⟨e, -, rfl⟩ := exists_of_occurrences hc hne hd
      exact absurd ⟨e, y, by simp⟩ hb

end Occurrence

/-! ## Splitting -/

section Split

variable {sep l x : List α} {n : Nat}

omit [LawfulBEq α] in
theorem splitUpTo_ne_nil : splitUpTo sep n l ≠ [] := by
  cases n with
  | zero => simp [splitUpTo]
  | succ n =>
    rw [splitUpTo]
    split <;> simp

theorem splitUpTo_of_absent (h : ¬ sep <:+: l) : splitUpTo sep n l = [l] := by
  cases n with
  | zero => rfl
  | succ n => rw [splitUpTo, dropInfix?_eq_none_iff.2 h]

/-- What is left in one piece does not contain the separator. -/
theorem not_infix_of_splitUpTo (hsep : sep ≠ []) (hn : l.length ≤ n)
    (h : splitUpTo sep n l = [x]) : x = l ∧ ¬ sep <:+: l := by
  cases n with
  | zero =>
    obtain rfl := List.length_eq_zero_iff.1 (Nat.le_zero.1 hn)
    exact ⟨(List.cons.inj h).1.symm, fun hin ↦ hsep (List.infix_nil.1 hin)⟩
  | succ n =>
    rw [splitUpTo] at h
    split at h
    · next hnone => exact ⟨(List.cons.inj h).1.symm, dropInfix?_eq_none_iff.1 hnone⟩
    · exact absurd (List.cons.inj h).2 splitUpTo_ne_nil

end Split

/-- **What is split in two**: the lists joined from two without the separator. -/
theorem split_eq_pair_iff {c : α} {t l a b : List α} (hc : c ∉ t) :
    split (c :: t) l = [a, b] ↔
      l = a ++ (c :: t ++ b) ∧ ¬ (c :: t) <:+: a ∧ ¬ (c :: t) <:+: b := by
  constructor
  · intro h
    rw [split] at h
    cases hn : l.length with
    | zero =>
      rw [hn] at h
      cases h
    | succ n =>
      rw [hn, splitUpTo] at h
      cases hdrop : l.dropInfix? (c :: t) with
      | none =>
        rw [hdrop] at h
        cases h
      | some p =>
        obtain ⟨a', b'⟩ := p
        rw [hdrop] at h
        obtain ⟨rfl, hb⟩ := List.cons.inj h
        obtain ⟨rfl, ha⟩ := dropInfix?_eq_some hdrop
        have hlen : b'.length ≤ n := by
          simp only [List.length_append, List.length_cons] at hn
          omega
        obtain ⟨rfl, hb⟩ := not_infix_of_splitUpTo (List.cons_ne_nil c t) hlen hb
        exact ⟨List.append_assoc .., ha (List.cons_ne_nil c t), hb⟩
  · rintro ⟨rfl, ha, hb⟩
    have hdrop : (a ++ (c :: t ++ b)).dropInfix? (c :: t) = some (a, b) := by
      cases h : (a ++ (c :: t ++ b)).dropInfix? (c :: t) with
      | none => exact absurd ⟨a, b, List.append_assoc ..⟩ (dropInfix?_eq_none_iff.1 h)
      | some p =>
        have heq := (dropInfix?_eq_some h).1
        rw [List.append_assoc] at heq
        obtain ⟨ha, hb⟩ := occurrence_unique hc ha hb heq.symm
        rw [← ha, ← hb]
    have hlen : (a ++ (c :: t ++ b)).length = (a.length + t.length + b.length) + 1 := by
      simp only [List.length_append, List.length_cons]
      omega
    rw [split, hlen, splitUpTo, hdrop]
    exact congrArg (a :: ·) (splitUpTo_of_absent hb)

/-! ## Strings -/

/-- `strings.Split`, with a non-empty separator. -/
def splitString (s sep : String) : List String := (split sep.toList s.toList).map String.ofList

/-- `strings.CutPrefix`. -/
def cutPrefix (s front : String) : Option String :=
  (s.toList.dropPrefix? front.toList).map String.ofList

@[simp] theorem cutPrefix_append (front s : String) : cutPrefix (front ++ s) front = some s := by
  simp [cutPrefix, List.dropPrefix?_append_of_beq]

theorem splitString_eq_pair_iff {c : Char} {t : List Char} {s sep a b : String}
    (hsep : sep.toList = c :: t) (hc : c ∉ t) :
    splitString s sep = [a, b] ↔ s = a ++ sep ++ b ∧ ¬ sep.toList <:+: a.toList ∧
      ¬ sep.toList <:+: b.toList := by
  have hpair : splitString s sep = [a, b] ↔ split sep.toList s.toList = [a.toList, b.toList] := by
    rw [splitString]
    constructor
    · intro h
      simpa using congrArg (List.map String.toList) h
    · intro h
      simp [h]
  rw [hpair, hsep, split_eq_pair_iff hc, ← hsep, ← String.toList_inj]
  simp [String.toList_append]

/-! ## Joining -/

section Join

variable {β γ : Type}

/-- What is cut at the elements that satisfy `p` has none of them. -/
theorem not_of_mem_splitOnP {p : β → Bool} {l w : List β} (hw : w ∈ l.splitOnP p) :
    ∀ c ∈ w, p c = false := by
  induction l generalizing w with
  | nil =>
    rw [List.splitOnP_nil, List.mem_singleton] at hw
    simp [hw]
  | cons x l ih =>
    rw [List.splitOnP_cons_eq_if_modifyHead] at hw
    split at hw
    · rcases List.mem_cons.1 hw with rfl | hw
      · simp
      · exact ih hw
    · next hx =>
      -- `x` goes in front of the first piece of the rest
      cases hl : l.splitOnP p with
      | nil => simp [hl] at hw
      | cons v vs =>
        rw [hl, List.modifyHead_cons] at hw
        rcases List.mem_cons.1 hw with rfl | hw
        · intro c hc
          rcases List.mem_cons.1 hc with rfl | hc
          · simpa using hx
          · exact ih (by simp [hl]) c hc
        · exact ih (by simp [hl, hw])

/-- What a join has comes from the separator or from a part. -/
theorem mem_of_mem_intercalate {sep : List β} {ls : List (List β)} {c : β}
    (h : c ∈ sep.intercalate ls) : c ∈ sep ∨ ∃ l ∈ ls, c ∈ l := by
  induction ls with
  | nil => simp at h
  | cons a ls ih =>
    by_cases hne : ls = []
    · subst hne
      rw [List.intercalate_singleton] at h
      exact .inr ⟨a, List.mem_singleton_self a, h⟩
    · rw [List.intercalate_cons_of_ne_nil hne, List.mem_append, List.mem_append] at h
      rcases h with (h | h) | h
      · exact .inr ⟨a, List.mem_cons_self, h⟩
      · exact .inl h
      · rcases ih h with h | ⟨l, hl, h⟩
        · exact .inl h
        · exact .inr ⟨l, List.mem_cons_of_mem a hl, h⟩

/-- Lists without `c` can be read off their join. -/
theorem intercalate_injOn [DecidableEq β] (c : β) :
    Set.InjOn ([c].intercalate) {ls : List (List β) | ∀ l ∈ ls, c ∉ l ∧ l ≠ []} := by
  have hread {ls : List (List β)} (hne : ls ≠ []) (hls : ∀ l ∈ ls, c ∉ l ∧ l ≠ []) :
      ([c].intercalate ls).splitOn c = ls :=
    List.splitOn_intercalate c (fun l hl ↦ (hls l hl).1) hne
  -- no lists join to the empty list, which one list alone would have to be
  have hnil {ls : List (List β)} (hls : ∀ l ∈ ls, c ∉ l ∧ l ≠ []) (h : [c].intercalate ls = []) :
      ls = [] := by
    by_contra hne
    have hmem := hread hne hls
    rw [h] at hmem
    have hmem : [] ∈ ls := hmem ▸ List.mem_singleton_self []
    exact (hls [] hmem).2 rfl
  intro ls hls ls' hls' heq
  by_cases hne : ls = []
  · subst hne
    exact (hnil hls' heq.symm).symm
  · by_cases hne' : ls' = []
    · subst hne'
      exact hnil hls heq
    · rw [← hread hne hls, ← hread hne' hls']
      exact congrArg (List.splitOn c) heq

/-- Lists are permutations of each other if their images are, under a map that tells their
elements apart. -/
theorem perm_map_iff_of_injOn {f : β → γ} {s : Set β} (hf : s.InjOn f) {l l' : List β}
    (hl : ∀ b ∈ l, b ∈ s) (hl' : ∀ b ∈ l', b ∈ s) : (l.map f).Perm (l'.map f) ↔ l.Perm l' := by
  constructor
  · intro h
    cases l with
    | nil =>
      rw [List.map_nil, List.nil_perm, List.map_eq_nil_iff] at h
      rw [h]
    | cons b l =>
      have : Nonempty β := ⟨b⟩
      have hinv {m : List β} (hm : ∀ b ∈ m, b ∈ s) :
          (m.map f).map (Function.invFunOn f s) = m := by
        rw [List.map_map]
        conv_rhs => rw [← List.map_id m]
        exact List.map_congr_left fun b hb ↦ hf.leftInvOn_invFunOn (hm b hb)
      rw [← hinv hl, ← hinv hl']
      exact h.map _
  · exact fun h ↦ h.map f

theorem mergeSort_eq_iff_perm [LinearOrder β] {l l' : List β} :
    l.mergeSort (· ≤ ·) = l'.mergeSort (· ≤ ·) ↔ l.Perm l' := by
  rw [← Multiset.coe_sort, ← Multiset.coe_sort, ← Multiset.coe_eq_coe]
  constructor
  · intro h
    rw [← Multiset.sort_eq (l : Multiset β) (· ≤ ·), h, Multiset.sort_eq]
  · intro h
    rw [h]

/-- **A sorted join is a canonical form** of the multiset of its parts, where these are not
empty and do not have the separator. -/
theorem intercalate_mergeSort_eq_iff {sep : String} {c : Char} (hsep : sep.toList = [c])
    {l l' : List String} (hl : ∀ s ∈ l, c ∉ s.toList ∧ s ≠ "")
    (hl' : ∀ s ∈ l', c ∉ s.toList ∧ s ≠ "") :
    sep.intercalate (l.mergeSort (· ≤ ·)) = sep.intercalate (l'.mergeSort (· ≤ ·)) ↔ l.Perm l' := by
  have hlists {m : List String} (hm : ∀ s ∈ m, c ∉ s.toList ∧ s ≠ "") :
      ∀ t ∈ (m.mergeSort (· ≤ ·)).map String.toList, c ∉ t ∧ t ≠ [] := by
    intro t ht
    obtain ⟨s, hs, rfl⟩ := List.mem_map.1 ht
    obtain ⟨hc, hne⟩ := hm s ((List.mergeSort_perm ..).mem_iff.1 hs)
    exact ⟨hc, by simpa using hne⟩
  rw [← mergeSort_eq_iff_perm, ← String.toList_inj, String.toList_intercalate,
    String.toList_intercalate, hsep]
  constructor
  · intro h
    have hmap := intercalate_injOn c (hlists hl) (hlists hl') h
    exact List.map_injective_iff.2 (fun _ _ ↦ String.toList_inj.1) hmap
  · intro h
    rw [h]

end Join

end RedisStreamClient.Lib

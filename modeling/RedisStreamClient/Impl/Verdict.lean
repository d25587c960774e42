import RedisStreamClient.Impl.Settled

/-!
# What the settled check depends on

`slotOwnership` turns the text of `CLUSTER NODES` into a text that is compared with `==`.
It is a canonical form: two texts come out the same exactly if the same nodes own the same
slot tokens in them, as multisets of lines (`slotOwnership_eq_iff_slotViews`).

`evaluateSettled` sorts the reports, leaves out the nodes that could not be asked and
compares the others with the first of them.  Its verdict depends on the reports that
answered only, and not on their order (`evaluateSettled_verdict`).
-/

namespace RedisStreamClient.Impl

open RedisStreamClient.Lib RedisStreamClient.Errs

/-! ## Who owns which slots -/

/-- The tokens of a line from the ninth field on, without the bracketed ones. -/
def slotTokens (line : String) : List String :=
  ((fields line).drop 8).filter fun s ↦ !s.toList.head?.any (· == '[')

/-- The first field of a line and its slot tokens, if there are any. -/
def slotView (line : String) : Option (String × List String) :=
  if slotTokens line = [] then none else (fields line).head?.map (·, slotTokens line)

/-- The views of all lines. -/
def slotViews (clusterNodes : String) : Multiset (String × List String) :=
  ((splitString clusterNodes "\n").filterMap slotView : List (String × List String))

/-- No slot token of a text has a comma. -/
def CommaFree (clusterNodes : String) : Prop :=
  ∀ line ∈ splitString clusterNodes "\n", ∀ s ∈ slotTokens line, ',' ∉ s.toList

/-- The text of one owner. -/
def ownerText (v : String × List String) : String := v.1 ++ " " ++ ",".intercalate v.2

/-- A field is not empty and has no white space. -/
theorem field_plain {line s : String} (hs : s ∈ fields line) :
    s ≠ "" ∧ ∀ c ∈ s.toList, isSpace c = false := by
  obtain ⟨w, hw, rfl⟩ := List.mem_map.1 hs
  obtain ⟨hw, hne⟩ := List.mem_filter.1 hw
  refine ⟨?_, ?_⟩
  · simpa using hne
  · rw [String.toList_ofList]
    exact not_of_mem_splitOnP hw

/-- The views that a line can give. -/
structure PlainView (v : String × List String) : Prop where
  /-- The first field has no white space. -/
  id_plain : ∀ c ∈ v.1.toList, isSpace c = false
  /-- There are tokens. -/
  tokens_ne_nil : v.2 ≠ []
  /-- They are not empty. -/
  token_ne_empty : ∀ s ∈ v.2, s ≠ ""
  /-- They have no white space. -/
  token_plain : ∀ s ∈ v.2, ∀ c ∈ s.toList, isSpace c = false

theorem slotView_eq_some {line : String} {v : String × List String} (h : slotView line = some v) :
    PlainView v ∧ v.2 = slotTokens line := by
  rw [slotView] at h
  split at h
  · cases h
  · next hne =>
    obtain ⟨id, hid, rfl⟩ := Option.map_eq_some_iff.1 h
    have htoken {s : String} (hs : s ∈ slotTokens line) : s ∈ fields line :=
      List.mem_of_mem_drop (List.mem_of_mem_filter hs)
    exact ⟨⟨(field_plain (List.mem_of_head? hid)).2, hne, fun s hs ↦ (field_plain (htoken hs)).1,
      fun s hs ↦ (field_plain (htoken hs)).2⟩, rfl⟩

/-- What `slotOwnership` keeps of a line is the text of its view. -/
theorem slotOwner_eq (line : String) : slotOwner line = (slotView line).map ownerText := by
  rw [slotOwner, slotView, slotTokens]
  cases hf : fields line with
  | nil => rfl
  | cons id rest =>
    by_cases hs : ((id :: rest).drop 8).filter (fun s ↦ !s.toList.head?.any (· == '[')) = []
    · simp only [hs, or_true, if_true, Option.map_none]
    · have hlen : ¬ (id :: rest).length < 9 := by
        intro hlt
        rw [List.drop_eq_nil_of_le (by omega)] at hs
        exact hs rfl
      simp only [hs, hlen, or_self, if_false, List.head?_cons, Option.map_some, ownerText]

theorem slotOwnership_eq (clusterNodes : String) :
    slotOwnership clusterNodes = "\n".intercalate
      ((((splitString clusterNodes "\n").filterMap slotView).map ownerText).mergeSort (· ≤ ·)) := by
  have howner : slotOwner = fun line ↦ (slotView line).map ownerText := funext slotOwner_eq
  rw [slotOwnership, howner, List.map_filterMap]

/-- The tokens of an owner's text have no white space. -/
theorem mem_tokensText {v : String × List String} (hv : PlainView v) {c : Char}
    (hc : c ∈ (",".intercalate v.2).toList) : isSpace c = false := by
  rw [String.toList_intercalate] at hc
  rcases mem_of_mem_intercalate hc with hc | ⟨l, hl, hc⟩
  · obtain rfl : c = ',' := by simpa using hc
    decide
  · obtain ⟨s, hs, rfl⟩ := List.mem_map.1 hl
    exact hv.token_plain s hs c hc

theorem toList_ownerText (v : String × List String) :
    (ownerText v).toList = v.1.toList ++ ([' '] ++ (",".intercalate v.2).toList) := by
  rw [ownerText, String.toList_append, String.toList_append, List.append_assoc]
  rfl

theorem newline_not_mem_ownerText {v : String × List String} (hv : PlainView v) :
    '\n' ∉ (ownerText v).toList := by
  have hspace : isSpace '\n' = true := by decide
  rw [toList_ownerText]
  simp only [List.mem_append, List.mem_singleton, not_or]
  refine ⟨fun hc ↦ ?_, by decide, fun hc ↦ ?_⟩
  · rw [hv.id_plain _ hc] at hspace
    cases hspace
  · rw [mem_tokensText hv hc] at hspace
    cases hspace

theorem ownerText_ne_empty (v : String × List String) : ownerText v ≠ "" := by
  rw [← String.toList_inj.ne, toList_ownerText]
  simp

/-- **An owner's text tells its first field and its tokens.** -/
theorem ownerText_injOn :
    Set.InjOn ownerText {v | PlainView v ∧ ∀ s ∈ v.2, ',' ∉ s.toList} := by
  rintro ⟨id, ts⟩ ⟨hv, hc⟩ ⟨id', ts'⟩ ⟨hv', hc'⟩ heq
  have hspace : isSpace ' ' = true := by decide
  have hid {v : String × List String} (hv : PlainView v) : ¬ [' '] <:+: v.1.toList := by
    intro hin
    have := hv.id_plain ' ' (hin.subset (List.mem_singleton_self _))
    rw [this] at hspace
    cases hspace
  have htext {v : String × List String} (hv : PlainView v) :
      ¬ [' '] <:+: (",".intercalate v.2).toList := by
    intro hin
    have := mem_tokensText hv (hin.subset (List.mem_singleton_self _))
    rw [this] at hspace
    cases hspace
  -- the first blank ends the first field
  rw [← String.toList_inj, toList_ownerText, toList_ownerText] at heq
  obtain ⟨hfst, hsnd⟩ := occurrence_unique (List.not_mem_nil) (hid hv') (htext hv') heq
  -- the commas are between the tokens
  have htokens {v : String × List String} (hv : PlainView v) (hc : ∀ s ∈ v.2, ',' ∉ s.toList) :
      ∀ l ∈ v.2.map String.toList, ',' ∉ l ∧ l ≠ [] := by
    intro l hl
    obtain ⟨s, hs, rfl⟩ := List.mem_map.1 hl
    exact ⟨hc s hs, by simpa using hv.token_ne_empty s hs⟩
  rw [String.toList_intercalate, String.toList_intercalate] at hsnd
  have hmap := intercalate_injOn ',' (htokens hv hc) (htokens hv' hc') hsnd
  have hts := List.map_injective_iff.2 (fun _ _ ↦ String.toList_inj.1) hmap
  rw [String.toList_inj] at hfst
  exact Prod.ext hfst hts

/-- The views of a text's lines can be told from their texts. -/
theorem slotOwnership_eq_iff_perm {x y : String} (hx : CommaFree x) (hy : CommaFree y) :
    slotOwnership x = slotOwnership y ↔
      ((splitString x "\n").filterMap slotView).Perm ((splitString y "\n").filterMap slotView) := by
  have hviews {z : String} (hz : CommaFree z) : ∀ v ∈ (splitString z "\n").filterMap slotView,
      PlainView v ∧ ∀ s ∈ v.2, ',' ∉ s.toList := by
    intro v hv
    obtain ⟨line, hline, hv⟩ := List.mem_filterMap.1 hv
    obtain ⟨hplain, htokens⟩ := slotView_eq_some hv
    exact ⟨hplain, htokens ▸ hz line hline⟩
  have htexts {z : String} (hz : CommaFree z) :
      ∀ s ∈ ((splitString z "\n").filterMap slotView).map ownerText, '\n' ∉ s.toList ∧ s ≠ "" := by
    intro s hs
    obtain ⟨v, hv, rfl⟩ := List.mem_map.1 hs
    exact ⟨newline_not_mem_ownerText (hviews hz v hv).1, ownerText_ne_empty v⟩
  rw [slotOwnership_eq, slotOwnership_eq,
    intercalate_mergeSort_eq_iff (c := '\n') rfl (htexts hx) (htexts hy),
    perm_map_iff_of_injOn ownerText_injOn (hviews hx) (hviews hy)]

theorem filterMap_slotView_eq {l l' : List String}
    (h : List.Forall₂ (fun a b ↦ slotView a = slotView b) l l') :
    l.filterMap slotView = l'.filterMap slotView := by
  induction h with
  | nil => rfl
  | cons h _ ih => rw [List.filterMap_cons, List.filterMap_cons, h, ih]

/-- **`slotOwnership` is a canonical form.**  Two texts of `CLUSTER NODES` whose slot tokens
have no comma come out the same exactly if the multisets of first fields with their slot
tokens are equal.  So the order of the lines does not matter, nor does anything in a line but
its view, and different slot tokens of one node are seen. -/
theorem slotOwnership_eq_iff_slotViews {x y : String} (hx : CommaFree x) (hy : CommaFree y) :
    (slotOwnership x = slotOwnership y ↔ slotViews x = slotViews y) ∧
      ((splitString x "\n").Perm (splitString y "\n") → slotOwnership x = slotOwnership y) ∧
      (List.Forall₂ (fun a b ↦ slotView a = slotView b) (splitString x "\n")
        (splitString y "\n") → slotOwnership x = slotOwnership y) ∧
      (∀ id, (slotViews x).filter (·.1 = id) ≠ (slotViews y).filter (·.1 = id) →
        slotOwnership x ≠ slotOwnership y) := by
  have hiff : slotOwnership x = slotOwnership y ↔ slotViews x = slotViews y := by
    rw [slotOwnership_eq_iff_perm hx hy, slotViews, slotViews, Multiset.coe_eq_coe]
  refine ⟨hiff, ?_, ?_, ?_⟩
  · intro hperm
    exact (slotOwnership_eq_iff_perm hx hy).2 (hperm.filterMap slotView)
  · intro hlines
    rw [slotOwnership_eq, slotOwnership_eq, filterMap_slotView_eq hlines]
  · intro id hne heq
    rw [hiff.1 heq] at hne
    exact hne rfl

/-- Two views of a cluster: the lines are in another order, fields differ, and one node reports
a migration. -/
theorem slotOwnership_eq_iff_slotViews_reordered :
    slotOwnership "a 2 3 4 5 6 7 8 0\nb 2 3 4 5 6 7 8 1 [2" =
      slotOwnership "b 2 m 4 5 6 9 8 1\na 2 3 4 5 6 7 8 0" := by
  refine (slotOwnership_eq_iff_slotViews ?_ ?_).1.2 ?_
  · unfold CommaFree
    decide +kernel
  · unfold CommaFree
    decide +kernel
  · decide +kernel

/-! ## The verdict -/

/-- The reports of the nodes that could be asked. -/
def answered (reports : List NodeReport) : List NodeReport := reports.filter (·.err.isNone)

/-- Every node that could be asked says that the cluster is ok, and they all agree about the
slots. -/
structure Agreed (reports : List NodeReport) : Prop where
  /-- `cluster_state` is ok. -/
  state_eq : ∀ rep ∈ answered reports, rep.state = "ok"
  /-- The same slots. -/
  slots_eq : ∀ rep ∈ answered reports, ∀ rep' ∈ answered reports, rep.slots = rep'.slots

/-- What a caller can tell from the error of `evaluateSettled`. -/
inductive Verdict
  | /-- No error. -/
    settled
  | /-- It wraps `ErrClusterNotSettled`. -/
    notSettled
  | /-- A `RedisErr`. -/
    redisErr
  | /-- Anything else. -/
    other
deriving DecidableEq

/-- The verdict that an error stands for. -/
def Verdict.of : Option Err → Verdict
  | none => .settled
  | some (.wrapf _ .clusterNotSettled _) => .notSettled
  | some (.redis _ _) => .redisErr
  | some _ => .other

theorem Agreed.of_perm {reports reports' : List NodeReport} (h : Agreed reports)
    (hperm : (answered reports).Perm (answered reports')) : Agreed reports' where
  state_eq rep hrep := h.state_eq rep (hperm.mem_iff.2 hrep)
  slots_eq rep hrep rep' hrep' := h.slots_eq rep (hperm.mem_iff.2 hrep) rep' (hperm.mem_iff.2 hrep')

/-- The reports in the order of their addresses. -/
def byAddr (reports : List NodeReport) : List NodeReport :=
  reports.mergeSort fun a b ↦ a.addr ≤ b.addr

theorem answered_byAddr_perm (reports : List NodeReport) :
    (answered (byAddr reports)).Perm (answered reports) :=
  (List.mergeSort_perm _ _).filter _

section

variable {reports : List NodeReport}

/-- No node could be asked: the error is that of a node, or of an empty cluster. -/
theorem evaluateSettled_of_nil (h : answered reports = []) :
    ∃ err, evaluateSettled reports = some (.redis .reinitTopology err) ∧
      (err.isClusterNotSettled = true →
        ∃ rep ∈ reports, ∃ e, rep.err = some e ∧ e.isClusterNotSettled = true) := by
  have hnil : answered (byAddr reports) = [] := by
    have hperm := answered_byAddr_perm reports
    rwa [h, List.perm_nil] at hperm
  generalize hres : evaluateSettled reports = res
  rw [evaluateSettled] at hres
  split at hres
  · refine ⟨_, hres.symm, fun hmatch ↦ ?_⟩
    cases hfirst : (byAddr reports).findSome?
        (fun rep ↦ rep.err.map fun e ↦ Err.wrapf (rep.addr ++ ": ") e "") with
    | none =>
      rw [byAddr] at hfirst
      rw [hfirst] at hmatch
      cases hmatch
    | some err =>
      obtain ⟨rep, hrep, herr⟩ := List.exists_of_findSome?_eq_some hfirst
      obtain ⟨e, he, rfl⟩ := Option.map_eq_some_iff.1 herr
      rw [byAddr] at hfirst
      rw [hfirst] at hmatch
      exact ⟨rep, (List.mergeSort_perm _ _).mem_iff.1 hrep, e, he, hmatch⟩
  · next hcons =>
    cases hnil.symm.trans hcons

/-- Nodes could be asked: they agree, or the first that differs is named. -/
theorem evaluateSettled_of_ne_nil (hne : answered reports ≠ []) :
    (Agreed reports ∧ evaluateSettled reports = none) ∨
      (¬ Agreed reports ∧
        ∃ text, evaluateSettled reports = some (.wrapf "" .clusterNotSettled text)) := by
  have hperm := answered_byAddr_perm reports
  generalize hres : evaluateSettled reports = res
  rw [evaluateSettled] at hres
  split at hres
  · next hnil =>
    have hnil : answered (byAddr reports) = [] := hnil
    rw [hnil, List.nil_perm] at hperm
    exact absurd hperm hne
  · next ref rest hcons =>
    have hcons : answered (byAddr reports) = ref :: rest := hcons
    rw [hcons] at hperm
    have hmem {rep : NodeReport} : rep ∈ ref :: rest ↔ rep ∈ answered reports := hperm.mem_iff
    split at hres
    · next rep hfind =>
      refine .inr ⟨fun hagree ↦ ?_, _, hres.symm⟩
      have hok := hagree.state_eq rep (hmem.1 (List.mem_of_find?_eq_some hfind))
      simpa [hok] using List.find?_some hfind
    · next hstate =>
      have hstate : ∀ rep ∈ ref :: rest, rep.state = "ok" := by
        simpa using List.find?_eq_none.1 hstate
      split at hres
      · next rep hfind =>
        refine .inr ⟨fun hagree ↦ ?_, _, hres.symm⟩
        have hsame := hagree.slots_eq rep
          (hmem.1 (List.mem_cons_of_mem ref (List.mem_of_find?_eq_some hfind))) ref
          (hmem.1 List.mem_cons_self)
        simpa [hsame] using List.find?_some hfind
      · next hslots =>
        -- everyone agrees with the first
        have hslots : ∀ rep ∈ ref :: rest, rep.slots = ref.slots := by
          rw [List.forall_mem_cons]
          exact ⟨rfl, by simpa using List.find?_eq_none.1 hslots⟩
        refine .inl ⟨⟨fun rep hrep ↦ hstate rep (hmem.2 hrep), ?_⟩, hres.symm⟩
        intro rep hrep rep' hrep'
        exact (hslots rep (hmem.2 hrep)).trans (hslots rep' (hmem.2 hrep')).symm

/-- The verdict is that of the reports that answered. -/
theorem verdict_eq_of_perm {reports' : List NodeReport}
    (hperm : (answered reports).Perm (answered reports')) :
    Verdict.of (evaluateSettled reports') = Verdict.of (evaluateSettled reports) := by
  by_cases hnil : answered reports = []
  · have hnil' : answered reports' = [] := by
      rwa [hnil, List.nil_perm] at hperm
    obtain ⟨err, herr, -⟩ := evaluateSettled_of_nil hnil
    obtain ⟨err', herr', -⟩ := evaluateSettled_of_nil hnil'
    rw [herr, herr']
    rfl
  · have hnil' : answered reports' ≠ [] := by
      intro h
      rw [h, List.perm_nil] at hperm
      exact hnil hperm
    rcases evaluateSettled_of_ne_nil hnil with ⟨hagree, h⟩ | ⟨hagree, text, h⟩ <;>
      rcases evaluateSettled_of_ne_nil hnil' with ⟨hagree', h'⟩ | ⟨hagree', text', h'⟩
    · rw [h, h']
    · exact absurd (hagree.of_perm hperm) hagree'
    · exact absurd (hagree'.of_perm hperm.symm) hagree
    · rw [h, h']
      rfl

/-- **The verdict of `evaluateSettled`.**  It is nil exactly if some node answered and all
that answered agree, wraps `ErrClusterNotSettled` exactly if some node answered and they do
not agree, and is a `RedisErr` otherwise, which matches `ErrClusterNotSettled` only if a
node's own error does.  The verdict depends on the reports that answered, in any order. -/
theorem evaluateSettled_verdict (reports : List NodeReport) :
    (evaluateSettled reports = none ↔ answered reports ≠ [] ∧ Agreed reports) ∧
      ((∃ text, evaluateSettled reports = some (.wrapf "" .clusterNotSettled text)) ↔
        answered reports ≠ [] ∧ ¬ Agreed reports) ∧
      (answered reports = [] → ∃ err, evaluateSettled reports = some (.redis .reinitTopology err) ∧
        ((Err.redis .reinitTopology err).isClusterNotSettled = true →
          ∃ rep ∈ reports, ∃ e, rep.err = some e ∧ e.isClusterNotSettled = true)) ∧
      (∀ reports', reports.Perm reports' →
        Verdict.of (evaluateSettled reports') = Verdict.of (evaluateSettled reports)) ∧
      (∀ reports', answered reports ≠ [] → (answered reports).Perm (answered reports') →
        Verdict.of (evaluateSettled reports') = Verdict.of (evaluateSettled reports)) := by
  refine ⟨⟨fun h ↦ ?_, ?_⟩, ⟨?_, ?_⟩, evaluateSettled_of_nil, fun reports' hperm ↦ ?_,
    fun reports' _ hperm ↦ verdict_eq_of_perm hperm⟩
  · by_cases hnil : answered reports = []
    · obtain ⟨err, herr, -⟩ := evaluateSettled_of_nil hnil
      rw [herr] at h
      cases h
    · rcases evaluateSettled_of_ne_nil hnil with ⟨hagree, -⟩ | ⟨-, text, htext⟩
      · exact ⟨hnil, hagree⟩
      · rw [htext] at h
        cases h
  · rintro ⟨hne, hagree⟩
    rcases evaluateSettled_of_ne_nil hne with ⟨-, h⟩ | ⟨hnot, -⟩
    · exact h
    · exact absurd hagree hnot
  · rintro ⟨text, h⟩
    by_cases hnil : answered reports = []
    · obtain ⟨err, herr, -⟩ := evaluateSettled_of_nil hnil
      rw [herr] at h
      cases h
    · rcases evaluateSettled_of_ne_nil hnil with ⟨-, hnone⟩ | ⟨hnot, -⟩
      · rw [hnone] at h
        cases h
      · exact ⟨hnil, hnot⟩
  · rintro ⟨hne, hnot⟩
    rcases evaluateSettled_of_ne_nil hne with ⟨hagree, -⟩ | ⟨-, h⟩
    · exact absurd hagree hnot
    · exact h
  · exact verdict_eq_of_perm (hperm.filter _)

end

/-- A report whose own error is `ErrClusterNotSettled` makes a `RedisErr` that matches it,
although no node answered. -/
theorem evaluateSettled_matches_report :
    answered [⟨"a", "", "", some .clusterNotSettled⟩] = [] ∧
      ∃ err, evaluateSettled [⟨"a", "", "", some .clusterNotSettled⟩] =
        some (.redis .reinitTopology err) ∧
        (Err.redis .reinitTopology err).isClusterNotSettled = true :=
  ⟨rfl, .wrapf "a: " .clusterNotSettled "", by simp [evaluateSettled], rfl⟩

end RedisStreamClient.Impl

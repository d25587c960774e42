import RedisStreamClient.Lib.Pool

/-!
# Handing things out

Threads are handed things that nobody had before, such as tickets off a counter or messages
off a queue, and work through them one by one.  `Old` says of a state which things have been
handed out, and `waits` which of them a thread has yet to deal with.

If only things that are not `Old` are handed out, a thing never waits in two places, and what
was taken up once (`gone`) does not wait any more.  `Handout` says so and `Handout.step` that
every step keeps it, whatever the threads are; what they do to their things is a `Move`, and a
thread that starts another one may pass some of its things on to it.
-/

namespace RedisStreamClient.Lib

variable {S : Sig} {M : Machine S} {K : Contract M} {α : Type}

/-- **Nothing waits twice.** -/
structure Handout (K : Contract M) (waits : M.Owner → K.State → List α) (Old : M.State → α → Prop)
    (P : Pool M) (q : Nat → K.State) (gone : Set α) : Prop where
  /-- A thread waits for nothing twice. -/
  nodup : ∀ t c f, P.Live t c f → (waits c (q t)).Nodup
  /-- No two threads wait for the same thing. -/
  apart : ∀ t u c d f g x, P.Live t c f → P.Live u d g → x ∈ waits c (q t) → x ∈ waits d (q u) →
    t = u
  /-- What waits was handed out. -/
  old : ∀ t c f, P.Live t c f → ∀ x ∈ waits c (q t), Old P.state x
  /-- What was taken up was handed out. -/
  gone_old : ∀ x ∈ gone, Old P.state x
  /-- What waits was not taken up. -/
  untaken : ∀ t c f, P.Live t c f → ∀ x ∈ waits c (q t), x ∉ gone

/-- What an operation does to the things that its thread waits for: it may drop some, take up
one, or come by new ones. -/
inductive Handout.Move (old old' : α → Prop) (l l' : List α) (gone gone' : Set α) : Prop
  | keep (hl : l'.Sublist l) (hg : gone' = gone)
  | take (x : α) (hl : (x :: l').Sublist l) (hg : gone' = insert x gone)
  | hand (hl : l'.Nodup) (hnew : ∀ x ∈ l', ¬ old x ∧ old' x) (hg : gone' = gone)

namespace Handout

variable {waits : M.Owner → K.State → List α} {Old : M.State → α → Prop} {P P' : Pool M}
  {q : Nat → K.State} {gone gone' : Set α} {e : Event M}

theorem Move.mem {old old' : α → Prop} {l l' : List α} (h : Move old old' l l' gone gone') {x : α}
    (hx : x ∈ l') : x ∈ l ∨ (¬ old x ∧ old' x) := by
  cases h with
  | keep hl hg => exact .inl (hl.subset hx)
  | take y hl hg => exact .inl (hl.subset (List.mem_cons_of_mem y hx))
  | hand hl hnew hg => exact .inr (hnew x hx)

theorem nil (h₀ : P.threads = []) (q : Nat → K.State) : Handout K waits Old P q ∅ := by
  have hdead (t : Nat) (c : M.Owner) (f : M.Call) : ¬ P.Live t c f := by
    rintro ⟨p, hp⟩
    simp [h₀] at hp
  exact ⟨fun t c f hl ↦ absurd hl (hdead t c f), fun t u c d f g x hl ↦ absurd hl (hdead t c f),
    fun t c f hl ↦ absurd hl (hdead t c f), fun x hx ↦ hx.elim,
    fun t c f hl ↦ absurd hl (hdead t c f)⟩

/-- What a new thread waits for was passed on to it by the thread that started it. -/
structure Passed (waits : M.Owner → K.State → List α) (q : Nat → K.State) (gone' : Set α)
    (e : Event M) (l : List α) : Prop where
  /-- Nothing is passed on twice. -/
  nodup : l.Nodup
  /-- It is not taken up. -/
  untaken : ∀ x ∈ l, x ∉ gone'
  /-- It waited there, and does so no more. -/
  gave : ∀ x ∈ l, ∃ t c o ch r f, e = .op t c o ch r f ∧ x ∈ waits c (q t) ∧
    x ∉ waits c (K.next c (q t) o r)

theorem Passed.nil : Passed waits q gone' e [] :=
  ⟨List.nodup_nil, fun _ h ↦ absurd h List.not_mem_nil, fun _ h ↦ absurd h List.not_mem_nil⟩

section

variable [DecidableEq M.Owner]
  (hmove : ∀ t c o ch r f, e = .op t c o ch r f → Move (Old P.state) (Old P'.state)
    (waits c (q t)) (waits c (K.next c (q t) o r)) gone gone')
  (hnew : ∀ c f, e.starts = some (c, f) → Passed waits q gone' e (waits c (K.init c f)))

include hmove hnew

/-- What waits after a step was just handed out, waited there before, or was passed on. -/
theorem mem_step (hs : Pool.Step P e P') {t : Nat} {c : M.Owner} {f : M.Call}
    (hl : P'.Live t c f) {x : α} (hx : x ∈ waits c (K.track q P e t)) :
    (e.mover = some t ∧ ¬ Old P.state x ∧ Old P'.state x) ∨
      ∃ u d g, P.Live u d g ∧ x ∈ waits d (q u) ∧
        (u = t ∨ (t = P.threads.length ∧ x ∉ waits d (K.track q P e u) ∧ x ∉ gone')) := by
  rcases hs.live_iff.1 hl with ⟨hl, -⟩ | ⟨rfl, hst⟩
  · by_cases hm : e.mover = some t
    · cases e with
      | op t' c' o ch r g =>
        obtain rfl : t' = t := Option.some.inj hm
        obtain ⟨f', hl'⟩ := hs.op_live
        obtain ⟨rfl, rfl⟩ := hl.unique hl'
        rw [Contract.track_op_self hl.lt_length] at hx
        rcases (hmove _ _ _ _ _ _ rfl).mem hx with hold | hnew
        · exact .inr ⟨t', c, f, hl, hold, .inl rfl⟩
        · exact .inl ⟨rfl, hnew⟩
      | _ => cases hm
    · rw [Contract.track_of_mover_ne hl.lt_length hm] at hx
      exact .inr ⟨t, c, f, hl, hx, .inl rfl⟩
  · rw [Contract.track_starts hst] at hx
    obtain ⟨u, d, o, ch, r, g, rfl, hold, hgave⟩ := (hnew c f hst).gave x hx
    obtain ⟨g', hu⟩ := hs.op_live
    refine .inr ⟨u, d, g', hu, hold, .inr ⟨rfl, ?_, (hnew c f hst).untaken x hx⟩⟩
    rw [Contract.track_op_self hu.lt_length]
    exact hgave

/-- **Every step keeps what is handed out in one place.** -/
theorem step (h : Handout K waits Old P q gone) (hs : Pool.Step P e P')
    (hold : ∀ x, Old P.state x → Old P'.state x) (hrest : e.mover = none → gone' = gone) :
    Handout K waits Old P' (K.track q P e) gone' := by
  refine ⟨?_, ?_, ?_, ?_, ?_⟩
  · intro t c f hl
    rcases hs.live_iff.1 hl with ⟨hl, -⟩ | ⟨rfl, hst⟩
    · by_cases hm : e.mover = some t
      · cases e with
        | op t' c' o ch r g =>
          obtain rfl : t' = t := Option.some.inj hm
          obtain ⟨f', hl'⟩ := hs.op_live
          obtain ⟨rfl, rfl⟩ := hl.unique hl'
          have hnodup := h.nodup t' c f hl
          rw [Contract.track_op_self hl.lt_length]
          cases hmove _ _ _ _ _ _ rfl with
          | keep hl hg => exact hnodup.sublist hl
          | take x hl hg => exact (List.nodup_cons.1 (hnodup.sublist hl)).2
          | hand hl hnew hg => exact hl
        | _ => cases hm
      · rw [Contract.track_of_mover_ne hl.lt_length hm]
        exact h.nodup t c f hl
    · rw [Contract.track_starts hst]
      exact (hnew c f hst).nodup
  · intro t u c d f g x ht hu hxt hxu
    rcases mem_step hmove hnew hs ht hxt with ⟨hmt, hxt', -⟩ | ⟨t', c', f', ht', hxt', hat⟩ <;>
      rcases mem_step hmove hnew hs hu hxu with ⟨hmu, hxu', -⟩ | ⟨u', d', g', hu', hxu', hau⟩
    · exact Option.some.inj (hmt.symm.trans hmu)
    · exact absurd (h.old u' d' g' hu' x hxu') hxt'
    · exact absurd (h.old t' c' f' ht' x hxt') hxu'
    · -- it waited in one place, and who passes it on keeps nothing of it
      obtain rfl := h.apart t' u' c' d' f' g' x ht' hu' hxt' hxu'
      obtain ⟨rfl, rfl⟩ := ht'.unique hu'
      rcases hat with rfl | ⟨rfl, hgave, -⟩ <;> rcases hau with rfl | ⟨rfl, hgave', -⟩
      · rfl
      · rcases hs.live_iff.1 ht with ⟨ht, -⟩ | ⟨heq, -⟩
        · obtain ⟨rfl, rfl⟩ := ht.unique ht'
          exact absurd hxt hgave'
        · exact heq
      · rcases hs.live_iff.1 hu with ⟨hu, -⟩ | ⟨heq, -⟩
        · obtain ⟨rfl, rfl⟩ := hu.unique ht'
          exact absurd hxu hgave
        · exact heq.symm
      · rfl
  · intro t c f hl x hx
    rcases mem_step hmove hnew hs hl hx with ⟨-, -, hx⟩ | ⟨u, d, g, hu, hx, -⟩
    · exact hx
    · exact hold x (h.old u d g hu x hx)
  · intro x hx
    cases e with
    | op t c o ch r f =>
      obtain ⟨g, hl⟩ := hs.op_live
      cases hmove t c o ch r f rfl with
      | keep hl hg => exact hold x (h.gone_old x (hg ▸ hx))
      | take y hy hg =>
        rcases hg ▸ hx with rfl | hx
        · exact hold x (h.old t c g hl x (hy.subset List.mem_cons_self))
        · exact hold x (h.gone_old x hx)
      | hand hl hnew hg => exact hold x (h.gone_old x (hg ▸ hx))
    | _ => exact hold x (h.gone_old x (hrest rfl ▸ hx))
  · intro t c f hl x hx hgone
    rcases mem_step hmove hnew hs hl hx with ⟨hm, hx', -⟩ | ⟨u, d, g, hu, hx', rfl | ⟨-, -, hne⟩⟩
    · -- what was just handed out was not taken up before, nor is it now
      have hfirst : x ∉ gone := fun hg ↦ hx' (h.gone_old x hg)
      cases e with
      | op v d o ch r g =>
        obtain ⟨g', hv⟩ := hs.op_live
        cases hmove v d o ch r g rfl with
        | keep hl hg => exact hfirst (hg ▸ hgone)
        | hand hl hnew hg => exact hfirst (hg ▸ hgone)
        | take y hy hg =>
          rcases hg ▸ hgone with rfl | hgone
          · exact hx' (h.old v d g' hv x (hy.subset List.mem_cons_self))
          · exact hfirst hgone
      | _ => cases hm
    · have hfirst : x ∉ gone := h.untaken u d g hu x hx'
      cases e with
      | op v d' o ch r g' =>
        obtain ⟨g'', hv⟩ := hs.op_live
        cases hmove v d' o ch r g' rfl with
        | keep hl hg => exact hfirst (hg ▸ hgone)
        | hand hl hnew hg => exact hfirst (hg ▸ hgone)
        | take y hy hg =>
          rcases hg ▸ hgone with rfl | hgone
          · -- what was taken up waited with its taker only, and there only once
            have hxv : x ∈ waits d' (q v) := hy.subset List.mem_cons_self
            obtain rfl := h.apart u v d d' g g'' x hu hv hx' hxv
            obtain ⟨rfl, rfl⟩ := hu.unique hv
            rcases hs.live_iff.1 hl with ⟨hl, -⟩ | ⟨heq, -⟩
            · obtain ⟨rfl, rfl⟩ := hl.unique hu
              rw [Contract.track_op_self hu.lt_length] at hx
              exact (List.nodup_cons.1 ((h.nodup u _ _ hu).sublist hy)).1 hx
            · exact absurd heq hu.lt_length.ne
          · exact hfirst hgone
      | _ => exact hfirst (hrest rfl ▸ hgone)
    · exact hne hgone

end

end Handout

end RedisStreamClient.Lib

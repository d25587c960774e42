import RedisStreamClient.Lib.Strconv
import Mathlib.Data.Prod.Lex
import Mathlib.Order.Lattice

/-!
# Stream entry IDs

A Redis stream ID is a pair `ms-seq`, ordered lexicographically.  Commands take IDs
as text.  Where a single entry is meant (`XACK`, `XDEL`) a bare `ms` stands for
`ms-0`; as the start and the end of an `XRANGE` it stands for the whole
millisecond, `-` and `+` stand for the ends of the stream and `(` excludes the
bound.  `lower?_of_ofText?` and `upper?_of_ofText?` relate the two readings.

The 64-bit limit on the two parts is left out: no ID of a stream comes near it.
-/

namespace RedisStreamClient.Redis

open RedisStreamClient.Lib

/-- The ID of a stream entry. -/
@[ext]
structure StreamID where
  /-- Milliseconds. -/
  ms : Nat
  /-- Sequence number within the millisecond. -/
  seq : Nat
deriving DecidableEq, Repr

namespace StreamID

/-- The pair that orders IDs. -/
def key (i : StreamID) : ℕ ×ₗ ℕ := toLex (i.ms, i.seq)

theorem key_injective : Function.Injective key := by
  intro i j h
  have h' := congrArg ofLex h
  simp only [key, ofLex_toLex, Prod.mk.injEq] at h'
  exact StreamID.ext h'.1 h'.2

instance instLinearOrder : LinearOrder StreamID := LinearOrder.lift' key key_injective

instance instWellFoundedLT : WellFoundedLT StreamID := ⟨InvImage.wf key wellFounded_lt⟩

theorem lt_iff {i j : StreamID} : i < j ↔ i.ms < j.ms ∨ i.ms = j.ms ∧ i.seq < j.seq :=
  Prod.Lex.toLex_lt_toLex

/-- `0-0`, below the ID of every entry. -/
def zero : StreamID := ⟨0, 0⟩

/-- There is always a later ID. -/
theorem exists_gt (i : StreamID) : ∃ j, i < j := ⟨⟨i.ms + 1, 0⟩, lt_iff.2 (.inl (Nat.lt_succ_self _))⟩

/-! ## Text -/

/-- The text Redis gives an ID. -/
def text (i : StreamID) : String := i.ms.repr ++ "-" ++ i.seq.repr

/-- The parts of an ID argument: `ms` or `ms-seq`. -/
def parts? (s : String) : Option (Nat × Option Nat) :=
  let ms := s.toList.takeWhile (· != '-')
  match s.toList.dropWhile (· != '-') with
  | [] => (digits? ms).map fun m ↦ (m, none)
  | _ :: seq => (digits? ms).bind fun m ↦ (digits? seq).map fun n ↦ (m, some n)

theorem toList_text (i : StreamID) :
    i.text.toList = Nat.toDigits 10 i.ms ++ '-' :: Nat.toDigits 10 i.seq := by
  simp [text, String.toList_append]

@[simp] theorem parts?_text (i : StreamID) : parts? i.text = some (i.ms, some i.seq) := by
  have hd : ∀ c ∈ Nat.toDigits 10 i.ms, (c != '-') = true := by
    intro c hc
    have := not_mem_toDigits (c := '-') (by decide) i.ms
    simpa using ne_of_mem_of_not_mem hc this
  have htake : i.text.toList.takeWhile (· != '-') = Nat.toDigits 10 i.ms := by
    rw [toList_text, List.takeWhile_append_of_pos hd]
    simp
  have hdrop : i.text.toList.dropWhile (· != '-') = '-' :: Nat.toDigits 10 i.seq := by
    rw [toList_text, List.dropWhile_append_of_pos hd]
    simp
  simp [parts?, htake, hdrop]

/-- The ID a text stands for where a single entry is meant. -/
def ofText? (s : String) : Option StreamID :=
  (parts? s).map fun p ↦ ⟨p.1, p.2.getD 0⟩

@[simp] theorem ofText?_text (i : StreamID) : ofText? i.text = some i := by simp [ofText?]

theorem text_ne_empty (i : StreamID) : i.text ≠ "" := by
  intro h
  have hlist := congrArg String.toList h
  simp [toList_text] at hlist

theorem text_injective : Function.Injective text := by
  intro i j h
  have := congrArg ofText? h
  simpa using this

/-- The IDs that a range start admits. -/
def lower? (s : String) : Option (StreamID → Bool) :=
  match s.toList with
  | ['-'] => some fun _ ↦ true
  | ['+'] => some fun _ ↦ false
  | '(' :: cs => (parts? (String.ofList cs)).map fun p i ↦ (⟨p.1, p.2.getD 0⟩ : StreamID) < i
  | _ => (parts? s).map fun p i ↦ (⟨p.1, p.2.getD 0⟩ : StreamID) ≤ i

/-- The IDs that a range end admits. -/
def upper? (s : String) : Option (StreamID → Bool) :=
  match s.toList with
  | ['-'] => some fun _ ↦ false
  | ['+'] => some fun _ ↦ true
  | '(' :: cs => (parts? (String.ofList cs)).map fun p i ↦
      match p.2 with
      | some n => i < (⟨p.1, n⟩ : StreamID)
      | none => decide (i.ms ≤ p.1)
  | _ => (parts? s).map fun p i ↦
      match p.2 with
      | some n => i ≤ (⟨p.1, n⟩ : StreamID)
      | none => decide (i.ms ≤ p.1)

/-- The text of an entry is made of digits and dashes. -/
theorem isDigit_or_dash_of_ofText? {s : String} {i : StreamID} (h : ofText? s = some i) :
    ∀ c ∈ s.toList, c.isDigit = true ∨ c = '-' := by
  obtain ⟨p, hp, -⟩ := Option.map_eq_some_iff.1 h
  intro c hc
  rw [← List.takeWhile_append_dropWhile (p := (· != '-')) (l := s.toList)] at hc
  unfold parts? at hp
  dsimp only at hp
  split at hp
  · next hdrop =>
    obtain ⟨m, hm, -⟩ := Option.map_eq_some_iff.1 hp
    rw [hdrop, List.append_nil] at hc
    exact .inl (isDigit_of_digits? hm c hc)
  · next d seq hdrop =>
    obtain ⟨m, hm, hp⟩ := Option.bind_eq_some_iff.1 hp
    obtain ⟨n, hn, -⟩ := Option.map_eq_some_iff.1 hp
    rw [hdrop] at hc
    rcases List.mem_append.1 hc with hms | hseq
    · exact .inl (isDigit_of_digits? hm c hms)
    · rcases List.mem_cons.1 hseq with rfl | hseq
      · have hhead := List.head_dropWhile_not (· != '-') (l := s.toList) (by rw [hdrop]; simp)
        simp only [hdrop, List.head_cons] at hhead
        exact .inr (by simpa using hhead)
      · exact .inl (isDigit_of_digits? hn c hseq)

/-- The text of an ID has no angle bracket in it. -/
theorem not_mem_text (i : StreamID) : '>' ∉ i.text.toList := by
  intro hmem
  simpa using isDigit_or_dash_of_ofText? (ofText?_text i) '>' hmem

/-- An ID argument starts with a digit. -/
theorem exists_isDigit_of_parts? {s : String} {p : Nat × Option Nat} (h : parts? s = some p) :
    ∃ c cs, s.toList = c :: cs ∧ c.isDigit = true := by
  have hms : ∃ m, digits? (s.toList.takeWhile (· != '-')) = some m := by
    unfold parts? at h
    dsimp only at h
    split at h
    · obtain ⟨m, hm, -⟩ := Option.map_eq_some_iff.1 h
      exact ⟨m, hm⟩
    · obtain ⟨m, hm, -⟩ := Option.bind_eq_some_iff.1 h
      exact ⟨m, hm⟩
  obtain ⟨m, hm⟩ := hms
  unfold digits? at hm
  split at hm
  · next hd =>
    cases hs : s.toList with
    | nil => simp [hs] at hd
    | cons c cs =>
      refine ⟨c, cs, rfl, ?_⟩
      rw [hs, List.takeWhile_cons] at hd
      split at hd
      · simp only [List.all_cons, Bool.and_eq_true] at hd
        exact hd.2.1
      · simp at hd
  · simp at hm

/-- As a range start, the text of an entry admits that entry and the later ones. -/
theorem lower?_of_ofText? {s : String} {i : StreamID} (h : ofText? s = some i) :
    lower? s = some fun j ↦ decide (i ≤ j) := by
  obtain ⟨p, hp, rfl⟩ := Option.map_eq_some_iff.1 h
  obtain ⟨c, cs, hs, hc⟩ := exists_isDigit_of_parts? hp
  unfold lower?
  rw [hs]
  split
  · next heq => simp [(List.cons.inj heq).1] at hc
  · next heq => simp [(List.cons.inj heq).1] at hc
  · next heq => simp [(List.cons.inj heq).1] at hc
  · simp [hp]

/-- As a range end, the text of an entry admits that entry. -/
theorem upper?_of_ofText? {s : String} {i : StreamID} (h : ofText? s = some i) :
    ∃ hi, upper? s = some hi ∧ hi i = true := by
  obtain ⟨⟨m, n⟩, hp, rfl⟩ := Option.map_eq_some_iff.1 h
  obtain ⟨c, cs, hs, hc⟩ := exists_isDigit_of_parts? hp
  unfold upper?
  rw [hs]
  split
  · next heq => simp [(List.cons.inj heq).1] at hc
  · next heq => simp [(List.cons.inj heq).1] at hc
  · next heq => simp [(List.cons.inj heq).1] at hc
  · refine ⟨_, by rw [hp]; rfl, ?_⟩
    cases n <;> simp

/-- The full text of an entry as a range start. -/
theorem lower?_text (i : StreamID) : lower? i.text = some fun j ↦ decide (i ≤ j) :=
  lower?_of_ofText? (ofText?_text i)

/-- The full text of an entry as a range end. -/
theorem upper?_text (i : StreamID) : upper? i.text = some fun j ↦ decide (j ≤ i) := by
  obtain ⟨c, cs, hs, hc⟩ := exists_isDigit_of_parts? (parts?_text i)
  unfold upper?
  rw [hs]
  split
  · next heq => simp [(List.cons.inj heq).1] at hc
  · next heq => simp [(List.cons.inj heq).1] at hc
  · next heq => simp [(List.cons.inj heq).1] at hc
  · simp

end StreamID

end RedisStreamClient.Redis

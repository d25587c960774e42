import Mathlib.Algebra.Ring.Int.Defs
import Mathlib.Algebra.Ring.Nat
import Mathlib.Tactic.Common

/-!
# Decimal text and 64-bit integers

The decimal texts of integers as Go's `strconv` reads and writes them, and the
wrap-around of its 64-bit `int`.  `atoi_itoa` is the round trip: within the range
of an `int`, what `itoa` writes `atoi` reads back.
-/

namespace RedisStreamClient.Lib

/-- The value of a non-empty list of decimal digits. -/
def digits? (cs : List Char) : Option Nat :=
  if cs ≠ [] ∧ cs.all Char.isDigit then some (Nat.ofDigitChars 10 cs 0) else none

theorem isDigit_of_digits? {cs : List Char} {n : Nat} (h : digits? cs = some n) :
    ∀ c ∈ cs, c.isDigit = true := by
  unfold digits? at h
  split at h
  · next hd => exact List.all_eq_true.1 hd.2
  · cases h

theorem all_isDigit_toDigits (n : Nat) : (Nat.toDigits 10 n).all Char.isDigit = true :=
  List.all_eq_true.2 fun _ hc ↦ Nat.isDigit_of_mem_toDigits (by decide) (by decide) hc

@[simp] theorem digits?_toDigits (n : Nat) : digits? (Nat.toDigits 10 n) = some n := by
  rw [digits?, if_pos ⟨Nat.toDigits_ne_nil, all_isDigit_toDigits n⟩, Nat.ofDigitChars_ten_toDigits]

/-- No digit is a given character that is not one. -/
theorem not_mem_toDigits {c : Char} (hc : c.isDigit = false) (n : Nat) :
    c ∉ Nat.toDigits 10 n := by
  intro hm
  have := Nat.isDigit_of_mem_toDigits (by decide) (by decide) hm
  simp [hc] at this

/-- A 64-bit `int`: the integer it wraps around to. -/
def wrap64 (n : Int) : Int := n.bmod (2 ^ 64)

/-- The largest 64-bit `int`. -/
def maxInt : Int := 2 ^ 63 - 1

theorem wrap64_of_mem {n : Int} (hlo : -(2 ^ 63) ≤ n) (hhi : n ≤ maxInt) : wrap64 n = n := by
  unfold maxInt at hhi
  rw [wrap64, Int.bmod_def]
  omega

theorem wrap64_maxInt_succ : wrap64 (maxInt + 1) = -(2 ^ 63) := by decide

/-- `strconv.Itoa`. -/
def itoa (n : Int) : String := toString n

/-- `strconv.Atoi`: an optional sign and decimal digits, in the range of an `int`. -/
def atoi (s : String) : Option Int :=
  match s.toList with
  | '-' :: cs => (digits? cs).bind fun n ↦ if n ≤ 2 ^ 63 then some (-n : Int) else none
  | '+' :: cs => (digits? cs).bind fun n ↦ if n < 2 ^ 63 then some (n : Int) else none
  | cs => (digits? cs).bind fun n ↦ if n < 2 ^ 63 then some (n : Int) else none

/-- `atoi` of a text that starts with a digit. -/
theorem atoi_repr {n : Nat} (h : n < 2 ^ 63) : atoi n.repr = some (n : Int) := by
  have hm := not_mem_toDigits (c := '-') (by decide) n
  have hp := not_mem_toDigits (c := '+') (by decide) n
  have hd := digits?_toDigits n
  rw [atoi, Nat.toList_repr]
  revert hm hp hd
  generalize Nat.toDigits 10 n = cs
  intro hm hp hd
  split
  · simp at hm
  · simp at hp
  · rw [hd, Option.bind_some, if_pos h]

/-- Reading back a written integer. -/
theorem atoi_itoa {n : Int} (hlo : 0 ≤ n) (hhi : n ≤ maxInt) : atoi (itoa n) = some n := by
  obtain ⟨m, rfl⟩ := Int.eq_ofNat_of_zero_le hlo
  unfold maxInt at hhi
  exact atoi_repr (by omega)

/-- What is read is in the range of an `int`. -/
theorem atoi_le_maxInt {s : String} {n : Int} (h : atoi s = some n) : n ≤ maxInt := by
  have hlt {cs : List Char} (hn : ((digits? cs).bind fun n ↦ if n < 2 ^ 63 then some (n : Int)
      else none) = some n) : n ≤ maxInt := by
    obtain ⟨m, -, hm⟩ := Option.bind_eq_some_iff.1 hn
    split at hm
    · obtain rfl := Option.some.inj hm
      unfold maxInt
      omega
    · cases hm
  unfold atoi at h
  split at h
  · obtain ⟨m, -, hm⟩ := Option.bind_eq_some_iff.1 h
    split at hm
    · obtain rfl := Option.some.inj hm
      unfold maxInt
      omega
    · cases hm
  · exact hlt h
  · exact hlt h

/-- The lowest `int` reads back as itself, so as a negative number. -/
theorem atoi_itoa_minInt : atoi (itoa (-(2 ^ 63))) = some (-(2 ^ 63)) := by decide

end RedisStreamClient.Lib

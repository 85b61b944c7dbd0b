/-
Numbers written with a fixed number of digits, the first digit weighing most.

`numeral` reads the digits of a byte string and `digits` writes those of a
number.  What stands for a digit is a parameter of both.
-/
import Mathlib.Data.Nat.Digits.Lemmas

namespace Numerals

/-- The number that the digits spell out, the first digit weighing most. -/
def numeral (base : Nat) (digit : UInt8 → Nat) (bytes : List UInt8) : Nat :=
  Nat.ofDigits base (bytes.map digit).reverse

variable {base : Nat} {digit : UInt8 → Nat}

@[simp] theorem numeral_nil : numeral base digit [] = 0 := rfl

@[simp] theorem numeral_cons (byte : UInt8) (bytes : List UInt8) :
    numeral base digit (byte :: bytes) =
      digit byte * base ^ bytes.length + numeral base digit bytes := by
  rw [numeral, List.map_cons, List.reverse_cons, Nat.ofDigits_append, Nat.ofDigits_singleton,
    List.length_reverse, List.length_map, numeral, Nat.mul_comm, Nat.add_comm]

theorem numeral_lt (hbase : 1 < base) (bytes : List UInt8) (h : ∀ byte ∈ bytes, digit byte < base) :
    numeral base digit bytes < base ^ bytes.length := by
  have hlt := Nat.ofDigits_lt_base_pow_length (l := (bytes.map digit).reverse) hbase
    fun x hx => by
      obtain ⟨byte, hbyte, rfl⟩ := List.mem_map.mp (List.mem_reverse.mp hx)
      exact h byte hbyte
  rwa [List.length_reverse, List.length_map] at hlt

theorem numeral_step (base : Nat) (digit : UInt8 → Nat) (value : Nat) (byte : UInt8)
    (bytes : List UInt8) :
    (value * base + digit byte) * base ^ bytes.length + numeral base digit bytes =
      value * base ^ (byte :: bytes).length + numeral base digit (byte :: bytes) := by
  rw [numeral_cons, List.length_cons, Nat.pow_succ]
  ring

theorem numeral_concat (bytes : List UInt8) (byte : UInt8) :
    numeral base digit (bytes ++ [byte]) = numeral base digit bytes * base + digit byte := by
  rw [numeral, List.map_append, List.map_singleton, List.reverse_concat, Nat.ofDigits_cons,
    numeral, Nat.mul_comm, Nat.add_comm]

theorem numeral_append (front back : List UInt8) :
    numeral base digit (front ++ back) =
      numeral base digit front * base ^ back.length + numeral base digit back := by
  induction front with
  | nil => rw [List.nil_append, numeral_nil, Nat.zero_mul, Nat.zero_add]
  | cons byte front ih =>
    rw [List.cons_append, numeral_cons, numeral_cons, ih, List.length_append, Nat.pow_add]
    ring

/-- The last `width` digits of a number, in these symbols. -/
def digits (base : Nat) (symbol : Nat → UInt8) : Nat → Nat → List UInt8
  | 0, _ => []
  | width + 1, value => digits base symbol width (value / base) ++ [symbol (value % base)]

variable {symbol : Nat → UInt8}

@[simp] theorem length_digits (width value : Nat) :
    (digits base symbol width value).length = width := by
  induction width generalizing value with
  | zero => rfl
  | succ width ih => rw [digits, List.length_append, List.length_singleton, ih]

theorem mem_digits (hbase : 0 < base) {width value : Nat} {byte : UInt8}
    (h : byte ∈ digits base symbol width value) : ∃ d < base, byte = symbol d := by
  induction width generalizing value with
  | zero => exact (nomatch h)
  | succ width ih =>
    rcases List.mem_append.mp h with h | h
    · exact ih h
    · exact ⟨value % base, Nat.mod_lt _ hbase, List.mem_singleton.mp h⟩

theorem numeral_digits (hbase : 0 < base) (hsymbol : ∀ d < base, digit (symbol d) = d)
    (width value : Nat) :
    numeral base digit (digits base symbol width value) = value % base ^ width := by
  induction width generalizing value with
  | zero => rw [Nat.pow_zero, Nat.mod_one]; rfl
  | succ width ih =>
    rw [digits, numeral_concat, ih, hsymbol _ (Nat.mod_lt _ hbase), Nat.pow_succ',
      Nat.mod_mul, Nat.mul_comm, Nat.add_comm]

end Numerals
